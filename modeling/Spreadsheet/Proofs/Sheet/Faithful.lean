import Spreadsheet.Proofs.Sheet.Settled

/-!
Sheets whose cells and graph belong together. In a faithful sheet the vertices calculate what has been entered
into their cells and have edges from what they read, and there are no other edges. A sheet is faithful at all
times, also in the middle of a pass and after passes that have been cut short. An edit of some cells keeps it
so as long as what is entered there is in order.

In a coherent sheet, which is faithful, every clean vertex is settled. An edit of some cells keeps a sheet coherent as
long as all that reads them is dirty and what is entered there is in order.
-/

namespace Spreadsheet

open Spreadsheet.Graph

/-! ### Results in cells -/

namespace Store

variable {store store' : Store} {q : Position}

/-- The cells of both stores hold the same, apart from results. -/
def Alike (store store' : Store) : Prop := ∀ q, (store'.cell? q).map Cell.flush = (store.cell? q).map Cell.flush

namespace Alike

theorem refl (store : Store) : Alike store store := fun _ => rfl

theorem cell (h : Alike store store') {c' : Cell} (hc' : store'.cell? q = some c') :
    ∃ c, store.cell? q = some c ∧ c'.flush = c.flush := by
  have hq := h q
  rw [hc'] at hq
  obtain ⟨c, hc, hflush⟩ := Option.map_eq_some_iff.1 hq.symm
  exact ⟨c, hc, hflush.symm⟩

theorem symm (h : Alike store store') : Alike store' store := fun q => (h q).symm

theorem trans {store'' : Store} (h : Alike store store') (h' : Alike store' store'') : Alike store store'' :=
  fun q => (h' q).trans (h q)

theorem content_eq {c c' : Cell} (h : c'.flush = c.flush) : c'.content = c.content := (congrArg Cell.content h :)

theorem area_eq {c c' : Cell} (h : c'.flush = c.flush) : c'.area = c.area := (congrArg Cell.area h :)

theorem isFormula_eq {c c' : Cell} (h : c'.flush = c.flush) : c'.isFormula = c.isFormula := by
  rw [Cell.isFormula, Cell.isFormula, content_eq h]

theorem formula?_eq {c c' : Cell} (h : c'.flush = c.flush) : c'.formula? = c.formula? := by
  rw [Cell.formula?, Cell.formula?, content_eq h]

theorem environment_content {c c' : Cell} (h : c'.flush = c.flush) (env : Environment) (p : Position) :
    env.content p c' = env.content p c := by
  rw [Environment.content, Environment.content, formula?_eq h, area_eq h]

theorem arranged (h : Alike store store') (hs : store.Arranged) : store'.Arranged := by
  refine ⟨fun p c' a hc' ha => ?_, fun p c' a q hc' ha hq => ?_, fun p c' a hc' ha => ?_,
    fun p c' a hc' ha htop => ?_⟩ <;> obtain ⟨c, hc, hflush⟩ := h.cell hc' <;> rw [area_eq hflush] at ha
  · exact hs.area p c a hc ha
  · obtain ⟨d, hd, hda⟩ := hs.whole p c a q hc ha hq
    obtain ⟨d', hd', hflush'⟩ := h.symm.cell hd
    exact ⟨d', hd', (area_eq hflush').symm.trans hda⟩
  · rw [isFormula_eq hflush]
    exact hs.head p c a hc ha
  · rw [content_eq hflush]
    exact hs.bare p c a hc ha htop

theorem readable (h : Alike store store') {env : Environment} (hs : env.Readable store) : env.Readable store' := by
  intro p c' text hc' hf
  obtain ⟨c, hc, hflush⟩ := h.cell hc'
  exact hs p c text hc (content_eq hflush ▸ hf)

end Alike

end Store

/-! ### Graphs with the same vertices and arrows -/

/-- What a vertex calculates and reads. -/
def Profile.plan (f : Profile) : Vertex.Content × Dependencies := (f.content, f.dependencies)

namespace Graph

variable {g g' : Graph} {p q x : Position} {f : Profile}

/-- Two graphs in which the same vertices calculate and read the same. -/
structure SamePlan (g g' : Graph) : Prop where
  plan : ∀ q, (g'.profileAt? q).map Profile.plan = (g.profileAt? q).map Profile.plan
  arrow : ∀ x q, g'.Arrow x q ↔ g.Arrow x q

namespace SamePlan

theorem symm (h : SamePlan g g') : SamePlan g' g := ⟨fun q => (h.plan q).symm, fun x q => (h.arrow x q).symm⟩

theorem profile (h : SamePlan g g') (hf : g.profileAt? q = some f) :
    ∃ f', g'.profileAt? q = some f' ∧ f'.content = f.content ∧ f'.dependencies = f.dependencies := by
  have hplan := h.plan q
  rw [hf, Option.map_some, Option.map_eq_some_iff] at hplan
  obtain ⟨f', hf', hplan⟩ := hplan
  exact ⟨f', hf', congrArg Prod.fst hplan, congrArg Prod.snd hplan⟩

theorem contentAt (h : SamePlan g g') (q : Position) : g'.contentAt q = g.contentAt q := by
  cases hf : g.profileAt? q with
  | some f =>
    obtain ⟨f', hf', hcontent, -⟩ := h.profile hf
    rw [contentAt_of_profileAt? hf', contentAt_of_profileAt? hf, hcontent]
  | none =>
    have hplan := h.plan q
    rw [hf, Option.map_none, Option.map_eq_none_iff] at hplan
    rw [Graph.contentAt, Graph.contentAt, hf, hplan]

theorem arrow_eq (h : SamePlan g g') : g'.Arrow = g.Arrow := funext₂ fun x q => propext (h.arrow x q)

theorem arrayed (h : SamePlan g g') (hg : g.Arrayed) : g'.Arrayed := fun p q hq hne => by
  rw [h.contentAt] at hq
  exact (h.arrow p q).2 (hg p q hq hne)

theorem exact (h : SamePlan g g') (hg : g.Exact) : g'.Exact := fun x q ha => by
  rcases hg x q ((h.arrow x q).1 ha) with ⟨f, hf, hm⟩ | ⟨hmem, hne⟩
  · obtain ⟨f', hf', -, hdeps⟩ := h.profile hf
    exact .inl ⟨f', hf', hdeps ▸ hm⟩
  · exact .inr ⟨h.contentAt x ▸ hmem, hne⟩

theorem informed (h : SamePlan g g') {env : Environment} (hg : env.Informed g) : env.Informed g' :=
  fun q f' e hf' he => by
    obtain ⟨f, hf, hcontent, hdeps⟩ := h.symm.profile hf'
    rw [← hdeps]
    exact hg q f e hf (hcontent ▸ he)

theorem straight (h : SamePlan g g') {env : Environment} (hg : env.Straight g) : env.Straight g' := fun q f' hf' => by
  obtain ⟨f, hf, hcontent, hdeps⟩ := h.symm.profile hf'
  exact (hg q f hf).congr hcontent.symm hdeps.symm

end SamePlan

end Graph

namespace Sheet

variable {s s' s'' : Sheet} {p q x : Position} {a : Area} {f : Profile} {P Q : Position → Prop} {uncut : Prop}

/-! ### Faithful sheets -/

/-- The cells of a sheet and its graph belong together. -/
structure Faithful (s : Sheet) : Prop where
  wellFormed : s.graph.WellFormed
  wired : s.graph.Wired
  arrayed : s.graph.Arrayed
  exact : s.graph.Exact
  informed : s.Informed s.graph
  straight : s.Straight s.graph
  tied : ∀ p, s.Tied p
  arranged : s.store.Arranged
  readable : s.Readable s.store

/-- What has been entered into a cell is seen without its result. -/
theorem contentAt_of_flush (henv : s'.toEnvironment = s.toEnvironment)
    (hq : (s'.store.cell? q).map Cell.flush = (s.store.cell? q).map Cell.flush) : s'.contentAt q = s.contentAt q := by
  rw [Sheet.contentAt, Sheet.contentAt, henv]
  cases hc' : s'.store.cell? q with
  | none =>
    rw [hc', Option.map_none, eq_comm, Option.map_eq_none_iff] at hq
    rw [hq]
  | some c' =>
    rw [hc'] at hq
    obtain ⟨c, hc, hflush⟩ := Option.map_eq_some_iff.1 hq.symm
    rw [hc, Option.map_some, Option.map_some, Store.Alike.environment_content hflush.symm]

theorem contentAt_of_alike (henv : s'.toEnvironment = s.toEnvironment) (h : s.store.Alike s'.store) :
    s'.contentAt q = s.contentAt q :=
  contentAt_of_flush henv (h q)

namespace Faithful

/-- Sheets that differ in what vertices read and in results only. -/
theorem of_alike (h : s.Faithful) (henv : s'.toEnvironment = s.toEnvironment) (halike : s.store.Alike s'.store)
    (hwell : s'.graph.WellFormed) (hwired : s'.graph.Wired)
    (hcontent : ∀ q, s'.graph.contentAt q = s.graph.contentAt q) (harrayed : s'.graph.Arrayed)
    (hexact : s'.graph.Exact) (hinformed : s.Informed s'.graph) (hstraight : s.Straight s'.graph) :
    s'.Faithful where
  wellFormed := hwell
  wired := hwired
  arrayed := harrayed
  exact := hexact
  informed := by
    rw [henv]
    exact hinformed
  straight := by
    rw [henv]
    exact hstraight
  tied p := (hcontent p).trans ((h.tied p).trans (contentAt_of_alike henv halike).symm)
  arranged := halike.arranged h.arranged
  readable := by
    rw [henv]
    exact halike.readable h.readable

/-- Sheets that differ in marks and results only. -/
theorem of_samePlan (h : s.Faithful) (henv : s'.toEnvironment = s.toEnvironment) (halike : s.store.Alike s'.store)
    (hwell : s'.graph.WellFormed) (hwired : s'.graph.Wired) (hplan : SamePlan s.graph s'.graph) : s'.Faithful :=
  h.of_alike henv halike hwell hwired hplan.contentAt (hplan.arrayed h.arrayed) (hplan.exact h.exact)
    (hplan.informed h.informed) (hplan.straight h.straight)

/-- No cell shows results of two vertices. -/
theorem fills_unique (h : s.Faithful) (hp : (s.graph.contentAt p).Fills p x)
    (hq : (s.graph.contentAt q).Fills q x) : p = q := by
  rw [h.tied] at hp hq
  exact Sheet.fills_unique h.arranged hp hq

end Faithful

/-! ### Edits of some cells -/

/-- The second sheet is the first one after an edit of some cells. If no pass has been cut short before, its
graph is orderly. -/
structure Edited (uncut : Prop) (P : Position → Prop) (s s' : Sheet) : Prop where
  environment : s'.toEnvironment = s.toEnvironment
  firm : s'.graph.Firm
  orderly : uncut → s'.graph.Orderly
  reworked : Reworked P s.graph s'.graph
  cell : ∀ q, ¬P q → s'.store.cell? q = s.store.cell? q

namespace Edited

theorem refl (P : Position → Prop) (h : s.graph.Firm) (ho : uncut → s.graph.Orderly) : Edited uncut P s s :=
  ⟨rfl, h, ho, .refl P h.toWellFormed, fun _ _ => rfl⟩

theorem mono (h : Edited uncut P s s') (hP : ∀ q, P q → Q q) : Edited uncut Q s s' :=
  ⟨h.environment, h.firm, h.orderly, h.reworked.mono hP, fun q hq => h.cell q fun hc => hq (hP q hc)⟩

theorem trans (h : Edited uncut P s s') (h' : Edited uncut P s' s'') : Edited uncut P s s'' where
  environment := h'.environment.trans h.environment
  firm := h'.firm
  orderly := h'.orderly
  reworked := h.reworked.trans h'.reworked
  cell q hq := (h'.cell q hq).trans (h.cell q hq)

end Edited

/-- One of the cells of an edit, and its vertex, are in order, and all that reads the cell is dirty if no pass
has been cut short before. -/
structure Entered (uncut : Prop) (s : Sheet) (q : Position) : Prop where
  told : uncut → s.graph.Told q
  tied : s.Tied q
  arrayed : ∀ m ∈ (s.graph.contentAt q).members, m ≠ q → s.graph.Arrow q m
  exact : ∀ x, s.graph.Arrow x q → s.graph.Asked x q
  informed : ∀ f e, s.graph.profileAt? q = some f → f.content.expression? = some e →
    f.dirty = true ∧ Dependencies.Within (s.dependencies e) f.dependencies
  straight : ∀ f, s.graph.profileAt? q = some f → s.StraightAt f
  readable : ∀ c text, s.store.cell? q = some c → c.content = .formula text → ∃ e, s.parse text = .ok e
  arranged : ∀ c a, s.store.cell? q = some c → c.area = some a →
    (a.isBounded = true ∧ a.Ordered ∧ a.contains q = true) ∧
      (∀ m, a.contains m = true → ∃ c', s.store.cell? m = some c' ∧ c'.area = some a) ∧
      (c.isFormula = true ↔ a.topLeft? = some q) ∧ (a.topLeft? ≠ some q → c.content = .value .undefined)

/-- The edited cells make up whole arrays. -/
def Closed (s : Sheet) (P : Position → Prop) : Prop :=
  ∀ p c a q, s.store.cell? p = some c → c.area = some a → a.contains q = true → P p → P q

/-- The members of the array of a vertex lie in the area of its cell. -/
theorem Faithful.cell_of_mem_members (h : s.Faithful) (hx : x ∈ (s.graph.contentAt q).members) :
    ∃ c a, s.store.cell? q = some c ∧ c.area = some a ∧ a.contains x = true := by
  rw [h.tied q] at hx
  cases hcontent : s.contentAt q with
  | value =>
    rw [hcontent] at hx
    cases hx
  | formula e =>
    rw [hcontent] at hx
    cases hx
  | array e a =>
    rw [hcontent] at hx
    obtain ⟨c, hc, -, ha, -⟩ := cell_of_array hcontent
    exact ⟨c, a, hc, ha, (Area.mem_members (h.arranged.area q c a hc ha).1).1 hx⟩

namespace Edited

/-- The array of a cell that is not edited is not edited, either. -/
theorem not_of_array (hclosed : s.Closed P) (harranged : s.store.Arranged) {c : Cell} (hc : s.store.cell? q = some c)
    (ha : c.area = some a) (hx : a.contains x = true) (hq : ¬P q) : ¬P x := by
  intro hPx
  obtain ⟨c', hc', ha'⟩ := harranged.whole q c a x hc ha hx
  exact hq (hclosed x c' a q hc' ha' (harranged.area q c a hc ha).2.2 hPx)

theorem graph_contentAt (h : Edited uncut P s s') (hq : ¬P q) : s'.graph.contentAt q = s.graph.contentAt q := by
  cases hf' : s'.graph.profileAt? q with
  | none =>
    have hf : s.graph.profileAt? q = none := by
      cases hf : s.graph.profileAt? q with
      | none => rfl
      | some f =>
        obtain ⟨b, -, hb⟩ := h.reworked.profile q f hq hf
        rw [hf'] at hb
        cases hb
    rw [Graph.contentAt, Graph.contentAt, hf', hf]
  | some f' =>
    rcases h.reworked.profile_cases hq hf' with ⟨f, hf, hcontent, -⟩ | ⟨hf, hcontent, -⟩
    · rw [contentAt_of_profileAt? hf', contentAt_of_profileAt? hf, hcontent]
    · rw [contentAt_of_profileAt? hf', hcontent, Graph.contentAt, hf]
      rfl

theorem contentAt (h : Edited uncut P s s') (hq : ¬P q) : s'.contentAt q = s.contentAt q := by
  rw [Sheet.contentAt, Sheet.contentAt, h.cell q hq, h.environment]

/-- The members of the array of a cell that is not edited are not edited. -/
theorem not_of_members (h : s.Faithful) (hclosed : s.Closed P) (hq : ¬P q)
    (hx : x ∈ (s.graph.contentAt q).members) : ¬P x := by
  obtain ⟨c, a, hc, ha, hx⟩ := h.cell_of_mem_members hx
  exact not_of_array hclosed h.arranged hc ha hx hq

/-- The first cell of the array of a cell that is not edited is not edited. -/
theorem not_of_head (h : s.Faithful) (hclosed : s.Closed P) (hx : ¬P x)
    (hmem : x ∈ (s.graph.contentAt q).members) : ¬P q := by
  obtain ⟨c, a, hc, ha, hin⟩ := h.cell_of_mem_members hmem
  exact fun hq => hx (hclosed q c a x hc ha hin hq)

theorem arranged (h : Edited uncut P s s') (hs : s.store.Arranged) (hclosed : s.Closed P)
    (hP : ∀ q, P q → s'.Entered uncut q) : s'.store.Arranged := by
  refine ⟨fun p c a hc ha => ?_, fun p c a q hc ha hq => ?_, fun p c a hc ha => ?_, fun p c a hc ha htop => ?_⟩ <;>
    by_cases hp : P p
  · exact ((hP p hp).arranged c a hc ha).1
  · exact hs.area p c a (h.cell p hp ▸ hc) ha
  · exact ((hP p hp).arranged c a hc ha).2.1 q hq
  · rw [h.cell p hp] at hc
    rw [h.cell q (not_of_array hclosed hs hc ha hq hp)]
    exact hs.whole p c a q hc ha hq
  · exact ((hP p hp).arranged c a hc ha).2.2.1
  · exact hs.head p c a (h.cell p hp ▸ hc) ha
  · exact ((hP p hp).arranged c a hc ha).2.2.2 htop
  · exact hs.bare p c a (h.cell p hp ▸ hc) ha htop

/-- An edit that is in order keeps a sheet faithful. -/
theorem faithful (h : Edited uncut P s s') (hs : s.Faithful) (hclosed : s.Closed P)
    (hP : ∀ q, P q → s'.Entered uncut q) : s'.Faithful where
  wellFormed := h.firm.toWellFormed
  wired := h.firm.wired
  arrayed p q hq hne := by
    by_cases hp : P p
    · exact (hP p hp).arrayed q hq hne
    · rw [h.graph_contentAt hp] at hq
      exact h.reworked.arrow p q (not_of_members hs hclosed hp hq) (hs.arrayed p q hq hne)
  exact x q ha := by
    by_cases hq : P q
    · exact (hP q hq).exact x ha
    · rcases h.reworked.arrow_new x q hq ha with ha | ⟨-, hm⟩
      · rcases hs.exact x q ha with ⟨f, hf, hm⟩ | ⟨hmem, hne⟩
        · obtain ⟨b, -, hf'⟩ := h.reworked.profile q f hq hf
          exact .inl ⟨_, hf', hm⟩
        · refine .inr ⟨?_, hne⟩
          rwa [h.graph_contentAt (not_of_head hs hclosed hq hmem)]
      · exact .inl hm
  informed p f e hf he := by
    by_cases hp : P p
    · exact ((hP p hp).informed f e hf he).2
    · rw [h.environment]
      rcases h.reworked.profile_cases hp hf with ⟨f₀, hf₀, hcontent, hdeps, -⟩ | ⟨-, hcontent, -⟩
      · rw [hdeps]
        exact hs.informed p f₀ e hf₀ (hcontent ▸ he)
      · rw [hcontent] at he
        cases he
  straight p f hf := by
    by_cases hp : P p
    · exact (hP p hp).straight f hf
    · rw [h.environment]
      rcases h.reworked.profile_cases hp hf with ⟨f₀, hf₀, hcontent, hdeps, -⟩ | ⟨-, hcontent, hdeps⟩
      · exact (hs.straight p f₀ hf₀).congr hcontent hdeps
      · exact Environment.straightAt_idle hcontent hdeps
  tied p := by
    by_cases hp : P p
    · exact (hP p hp).tied
    · exact (h.graph_contentAt hp).trans ((hs.tied p).trans (h.contentAt hp).symm)
  arranged := h.arranged hs.arranged hclosed hP
  readable p c text hc hf := by
    by_cases hp : P p
    · exact (hP p hp).readable c text hc hf
    · rw [h.environment]
      exact hs.readable p c text (h.cell p hp ▸ hc) hf

end Edited

end Sheet

end Spreadsheet

/-! ### Coherent sheets -/

namespace Spreadsheet.Sheet

open Spreadsheet.Graph

variable {s s' : Sheet} {p q x : Position} {f : Profile} {P : Position → Prop} {uncut : Prop}

/-- A faithful sheet with the usual functions and with names of proper areas. -/
structure Consistent (s : Sheet) : Prop extends Faithful s where
  names : ∀ (name : String) a, s.names[name]? = some a → a.Ordered
  library : s.library = Library.standard

theorem Consistent.of_faithful (h : s.Consistent) (henv : s'.toEnvironment = s.toEnvironment) (hs' : s'.Faithful) :
    s'.Consistent where
  toFaithful := hs'
  names := by
    rw [henv]
    exact h.names
  library := by
    rw [henv]
    exact h.library

/-- A sheet between two passes, whose clean formulas are settled. -/
structure Coherent (s : Sheet) : Prop extends Consistent s where
  orderly : s.graph.Orderly
  settled : ∀ p f, s.graph.profileAt? p = some f → f.dirty = false → f.content.expression? ≠ none →
    s.Settled s.settings.limits.rebuilds s.graph s.store p f

/-- A sheet between two passes, which is coherent if none has been cut short. -/
structure Kept (uncut : Prop) (s : Sheet) : Prop where
  faithful : s.Faithful
  firm : s.graph.Firm
  coherent : uncut → s.Coherent

theorem Coherent.kept (h : s.Coherent) : s.Kept True := ⟨h.toFaithful, h.orderly.toFirm, fun _ => h⟩

theorem Kept.orderly (h : s.Kept uncut) (hu : uncut) : s.graph.Orderly := (h.coherent hu).orderly

namespace Edited

/-- What shows the result of a cell that is not edited is not edited. -/
theorem not_of_fills (hs : s.Faithful) (hclosed : s.Closed P) (hq : ¬P q)
    (hx : (s.graph.contentAt q).Fills q x) : ¬P x := by
  cases hcontent : s.graph.contentAt q with
  | value =>
    rw [hcontent] at hx
    cases hx
  | formula e =>
    rw [hcontent] at hx
    obtain rfl : x = q := hx
    exact hq
  | array e a =>
    refine not_of_members hs hclosed hq ?_
    rw [hcontent] at hx ⊢
    exact hx

/-- An edit that is in order keeps a sheet coherent. -/
theorem coherent (h : Edited uncut P s s') (hu : uncut) (hs : s.Coherent) (hclosed : s.Closed P)
    (hP : ∀ q, P q → s'.Entered uncut q) : s'.Coherent := by
  have hconsistent := hs.toConsistent.of_faithful h.environment (h.faithful hs.toFaithful hclosed hP)
  have horderly := h.orderly hu
  have htold (x : Position) (hx : P x) : s'.graph.Told x := (hP x hx).told hu
  refine ⟨hconsistent, horderly, fun q f hf hclean he => ?_⟩
  have hq : ¬P q := by
    intro hPq
    obtain ⟨e, he⟩ := Option.ne_none_iff_exists'.1 he
    rw [((hP q hPq).informed f e hf he).1] at hclean
    cases hclean
  rcases h.reworked.profile_cases hq hf with ⟨f₀, hf₀, hcontent, hdeps, hrebuilds, hdirty⟩ | ⟨-, hcontent, -⟩
  · have hclean₀ : f₀.dirty = false := by
      cases hd : f₀.dirty with
      | false => rfl
      | true =>
        rw [hdirty hd] at hclean
        cases hclean
    obtain rfl : f = f₀ := by
      cases f
      cases f₀
      simp_all
    have hunaffected : Unaffected P s.graph s'.graph q := by
      refine ⟨hq, ?_, ?_⟩
      · rw [hf₀]
        exact Option.some_ne_none f
      · rintro ⟨f', hf', hd⟩
        rw [hf] at hf'
        cases hf'
        rw [hclean] at hd
        cases hd
    have hfills (x : Position) (hx : f.content.Fills q x) : ¬P x := by
      rw [← contentAt_of_profileAt? hf₀] at hx
      exact not_of_fills hs.toFaithful hclosed hq hx
    have hinformed := hconsistent.informed
    rw [h.environment] at hinformed ⊢
    exact (hs.settled q f hf₀ hclean₀ he).of_reworked h.reworked hs.orderly.toWellFormed horderly
      hconsistent.arrayed hinformed htold hunaffected hf h.cell hfills
  · rw [hcontent] at he
    exact absurd rfl he

theorem kept (h : Edited uncut P s s') (hs : s.Kept uncut) (hclosed : s.Closed P)
    (hP : ∀ q, P q → s'.Entered uncut q) : s'.Kept uncut where
  faithful := h.faithful hs.faithful hclosed hP
  firm := h.firm
  coherent hu := h.coherent hu (hs.coherent hu) hclosed hP

end Edited

/-- The second sheet is the first one after an edit that is in order. -/
def Amends (uncut : Prop) (s s' : Sheet) : Prop :=
  ∃ P, Edited uncut P s s' ∧ s.Closed P ∧ ∀ q, P q → s'.Entered uncut q

theorem Edited.amends (h : Edited uncut P s s') (hclosed : s.Closed P) (hP : ∀ q, P q → s'.Entered uncut q) :
    Amends uncut s s' := ⟨P, h, hclosed, hP⟩

theorem Amends.kept (h : Amends uncut s s') (hs : s.Kept uncut) : s'.Kept uncut := by
  obtain ⟨P, hedit, hclosed, hP⟩ := h
  exact hedit.kept hs hclosed hP

/-- An edit that changes no cell. -/
theorem Edited.amends_of_none (h : Edited uncut (fun _ => False) s s') : Amends uncut s s' :=
  h.amends (fun _ _ _ _ _ _ _ hc => hc) fun _ hq => hq.elim

end Spreadsheet.Sheet
