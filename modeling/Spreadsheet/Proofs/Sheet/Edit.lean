import Spreadsheet.Proofs.Graph.Install
import Spreadsheet.Proofs.Sheet.Faithful

/-!
Edits keep sheets faithful, and coherent. Cells are emptied one by one, or all cells of an array formula, before
something else is entered; what reads them is marked then or when a formula has been installed.
-/

namespace Spreadsheet.Sheet

open Spreadsheet.Graph

variable {s s' : Sheet} {p q x : Position} {a : Area} {e : Expression} {text : String} {P : Position → Prop}
  {uncut : Prop}

/-! ### Emptying cells -/

/-- A cell that holds no formula and belongs to no array formula, whose vertex is idle, and all that reads
the cell is dirty if no pass has been cut short. -/
structure Vacated (uncut : Prop) (s : Sheet) (q : Position) : Prop where
  idle : s.graph.Idle q
  told : uncut → s.graph.Told q
  cell : ∀ c, s.store.cell? q = some c → c.isFormula = false ∧ c.area = none

theorem contentAt_of_idle {g : Graph} (h : g.Idle q) : g.contentAt q = .value := by
  cases hf : g.profileAt? q with
  | none =>
    rw [Graph.contentAt, hf]
    rfl
  | some f => rw [contentAt_of_profileAt? hf, (h.profile f hf).1]

theorem contentAt_of_not_formula (h : ∀ c, s.store.cell? q = some c → c.isFormula = false) :
    s.contentAt q = .value := by
  cases hc : s.store.cell? q with
  | none =>
    rw [Sheet.contentAt, hc]
    rfl
  | some c =>
    have hformula : c.formula? = none := by
      rw [← Option.isNone_iff_eq_none, ← Option.not_isSome, formula?_isSome, h c hc]
      rfl
    rw [contentAt_of_cell? hc, Environment.content, hformula]

namespace Vacated

theorem entered (h : s.Vacated uncut q) : s.Entered uncut q where
  told := h.told
  tied := (contentAt_of_idle h.idle).trans (contentAt_of_not_formula fun c hc => (h.cell c hc).1).symm
  arrayed m hm := by
    rw [contentAt_of_idle h.idle] at hm
    cases hm
  exact x ha := absurd ha (h.idle.arrow x)
  informed f e hf he := by
    rw [(h.idle.profile f hf).1] at he
    cases he
  straight f hf := Environment.straightAt_idle (h.idle.profile f hf).1 (h.idle.profile f hf).2
  readable c text hc hf := by
    have hformula := (h.cell c hc).1
    rw [Cell.isFormula, hf] at hformula
    cases hformula
  arranged c a hc ha := by
    rw [(h.cell c hc).2] at ha
    cases ha

/-- A vacated cell stays so while other cells are edited. -/
theorem edited (h : s.Vacated uncut q) (hedit : Edited uncut P s s') (hq : ¬P q)
    (hP : ∀ x, P x → s'.graph.DirtyAt x ∨ s'.graph.Idle x) : s'.Vacated uncut q where
  idle := hedit.reworked.idle h.idle hq
  told hu := hedit.reworked.told (h.told hu) hP
  cell c hc := h.cell c (hedit.cell q hq ▸ hc)

end Vacated

/-- The sheet in which the vertex of a cell is idle and what reads the cell is marked. -/
def vacate (s : Sheet) (p : Position) (store : Store) : Sheet :=
  { s with store, graph := (s.graph.demote p).setDirty p }

theorem edited_vacate (h : s.graph.Firm) (ho : uncut → s.graph.Orderly) (store : Store)
    (hstore : ∀ q, q ≠ p → store.cell? q = s.store.cell? q)
    (hcell : ∀ c, store.cell? p = some c → c.isFormula = false ∧ c.area = none) :
    Edited uncut (· = p) s (s.vacate p store) ∧ (s.vacate p store).Vacated uncut p := by
  have hdemoted := h.toWellFormed.demoted p
  have hfirm := h.demote p
  have hmarks := marks_setDirty (s.graph.demote p) p
  refine ⟨⟨rfl, hfirm.setDirty p, fun hu => ((ho hu).demote p).setDirty p, ?_, hstore⟩, ?_,
    fun hu => ((ho hu).demote p).told_setDirty p, hcell⟩
  · exact (hdemoted.reworked h.toWellFormed).trans (hmarks.reworked hfirm.toWellFormed _)
  · exact (hmarks.reworked hfirm.toWellFormed fun _ => False).idle hdemoted.idle id

theorem edited_erase (h : s.graph.Firm) (ho : uncut → s.graph.Orderly) (p : Position) :
    Edited uncut (· = p) s (s.erase p) ∧ (s.erase p).Vacated uncut p := by
  refine edited_vacate h ho _ (fun q hq => Store.cell?_clear_of_ne s.store hq) fun c hc => ?_
  rw [Store.cell?_clear_self] at hc
  obtain ⟨c', -, rfl⟩ := Option.map_eq_some_iff.1 hc
  exact ⟨rfl, rfl⟩

theorem edited_eraseAll (h : s.graph.Firm) (ho : uncut → s.graph.Orderly) (ps : List Position) :
    Edited uncut (· ∈ ps) s (ps.foldl erase s) ∧ ∀ q ∈ ps, (ps.foldl erase s).Vacated uncut q := by
  induction ps generalizing s with
  | nil => exact ⟨.refl _ h ho, fun q hq => nomatch hq⟩
  | cons p ps ih =>
    obtain ⟨hfirst, hp⟩ := edited_erase h ho p
    obtain ⟨hrest, hps⟩ := ih hfirst.firm hfirst.orderly
    refine ⟨(hfirst.mono fun q hq => ?_).trans (hrest.mono fun q => List.mem_cons_of_mem p), fun q hq => ?_⟩
    · rw [hq]
      exact List.mem_cons_self
    · by_cases hmem : q ∈ ps
      · exact hps q hmem
      · obtain rfl := (List.mem_cons.1 hq).resolve_right hmem
        exact hp.edited hrest hmem fun x hx => .inr (hps x hx).idle

/-- The cell of an edit and the other cells of its array. -/
def region (s : Sheet) (p q : Position) : Prop := q = p ∨ ∃ a, s.arrayAt? p = some a ∧ q ∈ a.members

theorem arrayAt?_eq_some_iff : s.arrayAt? p = some a ↔ ∃ c, s.store.cell? p = some c ∧ c.area = some a :=
  Option.bind_eq_some_iff

theorem closed_region (h : s.store.Arranged) (p : Position) : s.Closed (s.region p) := by
  intro q c a x hc ha hx hq
  have hbounded := (h.area q c a hc ha).1
  rcases hq with rfl | ⟨a', ha', hq⟩
  · exact .inr ⟨a, arrayAt?_eq_some_iff.2 ⟨c, hc, ha⟩, (Area.mem_members hbounded).2 hx⟩
  · obtain ⟨c₀, hc₀, ha₀⟩ := arrayAt?_eq_some_iff.1 ha'
    obtain ⟨c', hc', harea⟩ := h.whole p c₀ a' q hc₀ ha₀ ((Area.mem_members (h.area p c₀ a' hc₀ ha₀).1).1 hq)
    rw [hc] at hc'
    cases hc'
    rw [ha] at harea
    cases harea
    exact .inr ⟨a, ha', (Area.mem_members hbounded).2 hx⟩

/-- Way has been made for an edit of a cell. -/
structure Detached (uncut : Prop) (p : Position) (s s' : Sheet) : Prop where
  edited : Edited uncut (s.region p) s s'
  vacated : ∀ q, s.region p q → q ≠ p → s'.Vacated uncut q
  cell : ∀ c, s'.store.cell? p = some c → c.area = none

theorem Kept.detached (h : s.Kept uncut) (hs : s.detach p = .ok s') : Detached uncut p s s' := by
  unfold detach at hs
  split at hs
  · rename_i hnone
    cases hs
    refine ⟨.refl _ h.firm h.orderly, fun q hq hqp => ?_, fun c hc => ?_⟩
    · rcases hq with rfl | ⟨a, ha, -⟩
      · exact absurd rfl hqp
      · rw [hnone] at ha
        cases ha
    · rw [arrayAt?, hc] at hnone
      exact hnone
  · rename_i a ha
    split at hs
    · rename_i htop
      cases hs
      obtain ⟨hedit, hvacated⟩ := edited_eraseAll h.firm h.orderly a.members
      obtain ⟨c, hc, harea⟩ := arrayAt?_eq_some_iff.1 ha
      obtain ⟨hbounded, hordered, hcontains⟩ := h.faithful.arranged.area p c a hc harea
      have hmem {q : Position} (hq : s.region p q) : q ∈ a.members := by
        rcases hq with rfl | ⟨a', ha', hq⟩
        · exact (Area.mem_members hbounded).2 hcontains
        · rw [ha] at ha'
          cases ha'
          exact hq
      exact ⟨hedit.mono fun q hq => .inr ⟨a, ha, hq⟩, fun q hq _ => hvacated q (hmem hq),
        fun c hc => ((hvacated p (hmem (.inl rfl))).cell c hc).2⟩
    · cases hs

/-- What is left of an edit, once way has been made for it, is about the cell itself. -/
theorem Kept.amends_of_detached (h : s.Kept uncut) {s₁ : Sheet} (hd : Detached uncut p s s₁)
    (hedit : Edited uncut (· = p) s₁ s') (hp : s'.graph.DirtyAt p ∨ s'.graph.Idle p)
    (hentered : s'.Entered uncut p) : Amends uncut s s' := by
  have hclosed := closed_region h.faithful.arranged p
  refine (hd.edited.trans (hedit.mono fun q hq => .inl hq)).amends hclosed fun q hq => ?_
  by_cases hqp : q = p
  · rw [hqp]
    exact hentered
  · refine ((hd.vacated q hq hqp).edited hedit hqp fun x hx => ?_).entered
    rw [hx]
    exact hp

/-! ### Values -/

theorem Kept.amends_setValue (h : s.Kept uncut) {v : Value} (hs : s.setValue p v = .ok s') :
    Amends uncut s s' := by
  unfold Sheet.setValue at hs
  cases hd : s.detach p with
  | error err =>
    rw [hd] at hs
    cases hs
  | ok s₁ =>
    rw [hd] at hs
    cases hs
    have hdetached := h.detached hd
    obtain ⟨hedit, hvacated⟩ := edited_vacate hdetached.edited.firm hdetached.edited.orderly
      (s₁.store.setValue p v) (fun q hq => Store.cell?_update_of_ne s₁.store _ hq) fun c hc => by
        rw [Store.setValue, Store.cell?_update_self] at hc
        cases hc
        refine ⟨rfl, ?_⟩
        cases hcell : s₁.store.cell? p with
        | none => rfl
        | some c => exact hdetached.cell c hcell
    exact h.amends_of_detached hdetached hedit (.inr hvacated.idle) hvacated.entered

theorem Kept.amends_clear (h : s.Kept uncut) (hs : s.clear p = .ok s') :
    Amends uncut s s' := by
  unfold Sheet.clear at hs
  split at hs
  · rename_i hnone
    cases hs
    have hdetached : Detached uncut p s s := h.detached (by rw [detach, hnone])
    obtain ⟨hedit, hvacated⟩ := edited_erase h.firm h.orderly p
    exact h.amends_of_detached hdetached hedit (.inr hvacated.idle) hvacated.entered
  · rename_i a ha
    split at hs
    · rename_i htop
      cases hs
      obtain ⟨hedit, hvacated⟩ := edited_eraseAll h.firm h.orderly a.members
      refine hedit.amends (fun q c a' x hc ha' hx hq => ?_) fun q hq => (hvacated q hq).entered
      rcases closed_region h.faithful.arranged p q c a' x hc ha' hx (.inr ⟨a, ha, hq⟩) with rfl | ⟨b, hb, hx⟩
      · obtain ⟨c', hc', harea⟩ := arrayAt?_eq_some_iff.1 ha
        obtain ⟨hbounded, -, hcontains⟩ := h.faithful.arranged.area x c' a hc' harea
        exact (Area.mem_members hbounded).2 hcontains
      · rw [ha] at hb
        cases hb
        exact hx
    · cases hs

/-! ### Formulas -/

theorem content_setFormula (c : Cell) (hparse : s.parse text = .ok e) :
    s.content p (c.setFormula text) =
      match c.area.filter (·.topLeft? = some p) with
      | some a => .array e a
      | none => .formula e := by
  have hf : (c.setFormula text).formula? = some _ := rfl
  exact content_of_formula hf (Environment.parse_formula? hparse rfl hf)

theorem installed_install (h : s.graph.Firm) (p : Position) (content : Vertex.Content) (e : Expression) :
    Installed p content (s.dependencies e) s.graph (s.install p content e).graph :=
  h.installed p content (s.dependencies e)

/-- A formula that has been entered is in order once it is installed. -/
theorem entered_install {content : Vertex.Content} {c : Cell} (h : s.graph.Firm) (ho : uncut → s.graph.Orderly)
    (hparse : s.parse text = .ok e) (hc : s.store.cell? p = some (c.setFormula text))
    (he : content.expression? = some e) (hcontent : s.content p (c.setFormula text) = content)
    (harranged : ∀ a, c.area = some a → (a.isBounded = true ∧ a.Ordered ∧ a.contains p = true) ∧
      (∀ m, a.contains m = true → ∃ c', s.store.cell? m = some c' ∧ c'.area = some a) ∧ a.topLeft? = some p) :
    (s.install p content e).Entered uncut p := by
  have hinstalled := installed_install h p content e
  obtain ⟨f, hf, hself, hdeps, hd⟩ := hinstalled.self
  have hgraph : (s.install p content e).graph.contentAt p = content := (contentAt_of_profileAt? hf).trans hself
  refine ⟨fun hu => ((ho hu).install p content _).told ⟨f, hf, hd⟩, ?_, fun m hm hne => ?_, fun x ha => ?_,
    fun f' e' hf' he' => ?_, fun f' hf' => ?_, fun c' text' hc' hf' => ?_, fun c' a hc' ha => ?_⟩
  · exact hgraph.trans (hcontent.symm.trans (contentAt_of_cell? hc).symm)
  · rw [hgraph] at hm
    exact (hinstalled.member m hm hne).1
  · refine .inl ⟨f, hf, ?_⟩
    rw [hdeps]
    exact hinstalled.arrow_self x ha
  · rw [hf] at hf'
    cases hf'
    rw [hself, he, Option.some.injEq] at he'
    rw [hdeps, he']
    exact ⟨hd, .refl _⟩
  · rw [hf] at hf'
    cases hf'
    exact Environment.straightAt_formula (hself ▸ he) fun _ => hdeps
  · have hcell := hc.symm.trans hc'
    cases hcell
    obtain rfl : text = text' := by simpa [Cell.setFormula] using hf'
    exact ⟨e, hparse⟩
  · have hcell := hc.symm.trans hc'
    cases hcell
    obtain ⟨harea, hwhole, hhead⟩ := harranged a ha
    exact ⟨harea, hwhole, ⟨fun _ => hhead, fun _ => rfl⟩, fun hne => absurd hhead hne⟩

theorem edited_install (h : s.graph.Firm) (ho : uncut → s.graph.Orderly) (store : Store)
    (hstore : ∀ q, q ≠ p → store.cell? q = s.store.cell? q) (content : Vertex.Content) (e : Expression) :
    Edited uncut (fun q => q = p ∨ q ∈ content.members) s ({ s with store }.install p content e) :=
  have hinstalled := installed_install (s := { s with store }) h p content e
  ⟨rfl, h.install p content _, fun hu => (ho hu).install p content _, hinstalled.reworked h.toWellFormed,
    fun q hq => hstore q fun hc => hq (.inl hc)⟩

theorem Kept.amends_setFormula (h : s.Kept uncut) (hs : s.setFormula p text = .ok s') :
    Amends uncut s s' := by
  unfold Sheet.setFormula at hs
  cases hparse : s.parse text with
  | error err =>
    rw [hparse] at hs
    cases hs
  | ok e =>
    cases hd : s.detach p with
    | error err =>
      rw [hparse, hd] at hs
      cases hs
    | ok s₁ =>
      rw [hparse, hd] at hs
      cases hs
      have hdetached := h.detached hd
      have hfirm := hdetached.edited.firm
      have horderly := hdetached.edited.orderly
      have hparse₁ : s₁.parse text = .ok e := by rw [hdetached.edited.environment, hparse]
      have hcell : (s₁.store.setFormula p text).cell? p = some (((s₁.store.cell? p).getD {}).setFormula text) :=
        Store.cell?_update_self ..
      have harea : ((s₁.store.cell? p).getD {}).area = none := by
        cases hc : s₁.store.cell? p with
        | none => rfl
        | some c => exact hdetached.cell c hc
      have hedit := (edited_install hfirm horderly (s₁.store.setFormula p text)
        (fun q hq => Store.cell?_update_of_ne s₁.store _ hq) (.formula e) e).mono fun q hq =>
          hq.resolve_right List.not_mem_nil
      have hdirty := (installed_install (s := { s₁ with store := s₁.store.setFormula p text }) hfirm p (.formula e)
        e).dirtyAt (.inl rfl)
      refine h.amends_of_detached hdetached hedit (.inl hdirty)
        (entered_install hfirm horderly hparse₁ hcell rfl ?_ fun a ha => ?_)
      · rw [content_setFormula _ hparse₁, harea]
        rfl
      · rw [harea] at ha
        cases ha

theorem Kept.amends_setInput (h : s.Kept uncut) (hs : s.setInput p text = .ok s') :
    Amends uncut s s' := by
  unfold Sheet.setInput at hs
  split at hs
  · exact h.amends_clear hs
  · simp only at hs
    split at hs
    · exact h.amends_setFormula hs
    · exact h.amends_setValue hs

/-! ### Array formulas -/

/-- A cell that has been made a member of an array formula, before the formula is installed. -/
structure Enlisted (a : Area) (s : Sheet) (q : Position) : Prop where
  idle : s.graph.Idle q
  cell : ∃ c, s.store.cell? q = some c ∧ c.content = .value .undefined ∧ c.area = some a

theorem edited_enlist (h : s.graph.Firm) (ho : uncut → s.graph.Orderly) (a : Area) (p : Position) :
    Edited uncut (· = p) s (s.enlist a p) ∧ Enlisted a (s.enlist a p) p := by
  have hdemoted := h.toWellFormed.demoted p
  refine ⟨⟨rfl, h.demote p, fun hu => (ho hu).demote p, hdemoted.reworked h.toWellFormed,
    fun q hq => Store.cell?_update_of_ne s.store _ hq⟩, hdemoted.idle, ?_⟩
  exact ⟨_, Store.cell?_update_self .., rfl, rfl⟩

theorem edited_enlistAll (h : s.graph.Firm) (ho : uncut → s.graph.Orderly) (a : Area) (ps : List Position) :
    Edited uncut (· ∈ ps) s (ps.foldl (fun s p => s.enlist a p) s) ∧
      ∀ q ∈ ps, Enlisted a (ps.foldl (fun s p => s.enlist a p) s) q := by
  induction ps generalizing s with
  | nil => exact ⟨.refl _ h ho, fun q hq => nomatch hq⟩
  | cons p ps ih =>
    obtain ⟨hfirst, hp⟩ := edited_enlist h ho a p
    obtain ⟨hrest, hps⟩ := ih hfirst.firm hfirst.orderly
    refine ⟨(hfirst.mono fun q hq => ?_).trans (hrest.mono fun q => List.mem_cons_of_mem p), fun q hq => ?_⟩
    · rw [hq]
      exact List.mem_cons_self
    · by_cases hmem : q ∈ ps
      · exact hps q hmem
      · obtain rfl := (List.mem_cons.1 hq).resolve_right hmem
        obtain ⟨c, hc, hcontent, harea⟩ := hp.cell
        exact ⟨hrest.reworked.idle hp.idle hmem, c, (hrest.cell q hmem).trans hc, hcontent, harea⟩

/-- The other members of an array formula are in order once it is installed. -/
theorem Enlisted.entered (h : Enlisted a s q) (hfirm : s.graph.Firm) (ho : uncut → s.graph.Orderly)
    (hq : q ∈ a.members) (hqp : q ≠ p) (hordered : a.Ordered) (htop : a.topLeft? = some p)
    (hwhole : ∀ m ∈ a.members, ∃ c, s.store.cell? m = some c ∧ c.area = some a) :
    (s.install p (.array e a) e).Entered uncut q := by
  have hinstalled := installed_install hfirm p (.array e a) e
  obtain ⟨c, hc, hundefined, harea⟩ := h.cell
  have hformula : c.isFormula = false := by rw [Cell.isFormula, hundefined]
  have hidle (f : Profile) (hf : (s.install p (.array e a) e).graph.profileAt? q = some f) :
      f.content = .value ∧ f.dependencies = {} := by
    cases hf₀ : s.graph.profileAt? q with
    | none => exact hinstalled.fresh q f hqp hf₀ hf
    | some f₀ =>
      obtain ⟨b, -, hb⟩ := hinstalled.other q f₀ hqp hf₀
      rw [hf] at hb
      cases hb
      exact h.idle.profile f₀ hf₀
  have hgraph : (s.install p (.array e a) e).graph.contentAt q = .value := by
    obtain ⟨f, hf, -⟩ := hinstalled.dirtyAt (.inr hq)
    rw [contentAt_of_profileAt? hf, (hidle f hf).1]
  have hhead : (s.install p (.array e a) e).graph.contentAt p = .array e a := by
    obtain ⟨f, hf, hself, -⟩ := hinstalled.self
    rw [contentAt_of_profileAt? hf, hself]
  refine ⟨fun hu => ((ho hu).install p _ _).told (hinstalled.dirtyAt (.inr hq)), ?_, fun m hm => ?_, fun x ha => ?_,
    fun f e' hf he' => ?_, fun f hf => ?_, fun c' text hc' hf => ?_, fun c' a' hc' ha' => ?_⟩
  · refine hgraph.trans (contentAt_of_not_formula fun c' hc' => ?_).symm
    have hcell := hc.symm.trans hc'
    cases hcell
    exact hformula
  · rw [hgraph] at hm
    cases hm
  · rcases hinstalled.arrow_new x q ha with ha | ⟨rfl, hmem⟩ | hc | ⟨-, f, hf, hm⟩
    · exact absurd ha (h.idle.arrow x)
    · exact .inr ⟨by rwa [hhead], hqp⟩
    · exact absurd hc hqp
    · rw [(h.idle.profile f hf).2] at hm
      exact absurd hm Dependencies.not_mentions_empty
  · rw [(hidle f hf).1] at he'
    cases he'
  · exact Environment.straightAt_idle (hidle f hf).1 (hidle f hf).2
  · have hcell := hc.symm.trans hc'
    cases hcell
    rw [hundefined] at hf
    cases hf
  · have hcell := hc.symm.trans hc'
    cases hcell
    rw [harea] at ha'
    cases ha'
    have hbounded := Area.isBounded_of_mem_members hq
    refine ⟨⟨hbounded, hordered, (Area.mem_members hbounded).1 hq⟩,
      fun m hm => hwhole m ((Area.mem_members hbounded).2 hm), ?_, fun _ => hundefined⟩
    rw [hformula, htop, Option.some.injEq]
    exact ⟨fun hc => absurd hc Bool.false_ne_true, fun hc => absurd hc.symm hqp⟩

theorem Kept.amends_setArray (h : s.Kept uncut) (hordered : a.Ordered) (hs : s.setArray a text = .ok s') :
    Amends uncut s s' := by
  unfold Sheet.setArray at hs
  split at hs
  · rename_i head hbounded htop
    cases hparse : s.parse text with
    | error err =>
      rw [hparse] at hs
      cases hs
    | ok e =>
      rw [hparse] at hs
      simp only [bind, Except.bind] at hs
      split at hs
      · cases hs
      · rename_i hsame
        have hhead : head ∈ a.members := (Area.mem_members hbounded).2 (Area.contains_topLeft hordered htop)
        -- no cell of the area belongs to another array formula
        have hclosed : s.Closed (· ∈ a.members) := by
          intro q c b x hc hb hx hq
          have hmem : b ∈ a.members.filterMap s.arrayAt? :=
            List.mem_filterMap.2 ⟨q, hq, arrayAt?_eq_some_iff.2 ⟨c, hc, hb⟩⟩
          have hba : b = a := by
            by_contra hne
            exact hsame (List.any_eq_true.2 ⟨b, hmem, by simpa using hne⟩)
          rw [hba] at hx
          exact (Area.mem_members hbounded).2 hx
        have herase : Edited uncut (· ∈ a.members) s
            (if (a.members.filterMap s.arrayAt?).isEmpty then s else s.eraseArray a) := by
          split
          · exact .refl _ h.firm h.orderly
          · exact (edited_eraseAll h.firm h.orderly a.members).1
        generalize (if (a.members.filterMap s.arrayAt?).isEmpty then s else s.eraseArray a) = s₁ at hs herase
        obtain ⟨henlist, hmembers⟩ := edited_enlistAll herase.firm herase.orderly a a.members
        generalize a.members.foldl (fun s p => s.enlist a p) s₁ = s₂ at hs henlist hmembers
        cases hs
        have hparse₂ : s₂.parse text = .ok e := by rw [henlist.environment, herase.environment, hparse]
        have hother (q : Position) (hq : q ≠ head) : (s₂.store.setFormula head text).cell? q = s₂.store.cell? q :=
          Store.cell?_update_of_ne s₂.store _ hq
        obtain ⟨c, hc, -, harea⟩ := (hmembers head hhead).cell
        have hcell : (s₂.store.setFormula head text).cell? head = some (c.setFormula text) := by
          rw [Store.setFormula, Store.cell?_update_self, hc]
          rfl
        have hwhole (m : Position) (hm : m ∈ a.members) :
            ∃ c, (s₂.store.setFormula head text).cell? m = some c ∧ c.area = some a := by
          by_cases hmh : m = head
          · rw [hmh]
            exact ⟨_, hcell, harea⟩
          · obtain ⟨c, hc, -, harea⟩ := (hmembers m hm).cell
            exact ⟨c, (hother m hmh).trans hc, harea⟩
        have hedit := (edited_install henlist.firm henlist.orderly _ hother (.array e a) e).mono (Q := (· ∈ a.members))
          fun q hq => hq.elim (fun hq => hq ▸ hhead) id
        refine ((herase.trans henlist).trans hedit).amends hclosed fun q hq => ?_
        by_cases hqh : q = head
        · rw [hqh]
          refine entered_install henlist.firm henlist.orderly hparse₂ hcell rfl ?_ fun b hb => ?_
          · rw [content_setFormula _ hparse₂, harea, Option.filter_some_pos (by simpa using htop)]
          · rw [harea] at hb
            cases hb
            exact ⟨⟨hbounded, hordered, Area.contains_topLeft hordered htop⟩,
              fun m hm => hwhole m ((Area.mem_members hbounded).2 hm), htop⟩
        · obtain ⟨c, hc, hundefined, harea⟩ := (hmembers q hq).cell
          refine Enlisted.entered (s := { s₂ with store := s₂.store.setFormula head text }) ⟨(hmembers q hq).idle, ?_⟩
            henlist.firm henlist.orderly hq hqh hordered htop hwhole
          exact ⟨c, (hother q hqh).trans hc, hundefined, harea⟩
  · cases hs

/-! ### Edits of any kind -/

theorem Kept.setValue (h : s.Kept uncut) {v : Value} (hs : s.setValue p v = .ok s') : s'.Kept uncut :=
  (h.amends_setValue hs).kept h

theorem Kept.clear (h : s.Kept uncut) (hs : s.clear p = .ok s') : s'.Kept uncut := (h.amends_clear hs).kept h

theorem Kept.setFormula (h : s.Kept uncut) (hs : s.setFormula p text = .ok s') : s'.Kept uncut :=
  (h.amends_setFormula hs).kept h

theorem Kept.setInput (h : s.Kept uncut) (hs : s.setInput p text = .ok s') : s'.Kept uncut :=
  (h.amends_setInput hs).kept h

theorem Kept.setArray (h : s.Kept uncut) (hordered : a.Ordered) (hs : s.setArray a text = .ok s') :
    s'.Kept uncut := (h.amends_setArray hordered hs).kept h

end Spreadsheet.Sheet
