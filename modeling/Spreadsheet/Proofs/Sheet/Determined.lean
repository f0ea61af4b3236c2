import Mathlib.Order.WellFoundedSet
import Spreadsheet.Proofs.Sheet.Attained

/-!
What formulas come to is determined by what has been entered. In a sheet of plain formulas, the cells of cycles
are those on cycles of what is written, and every other formula is calculated from cells that are not above it. So
two sheets into which the same has been entered show the same after a pass, whatever has been done to them before.
The exception are cells that depend on the reader of a cell of an array that is on a cycle.
-/

namespace Spreadsheet

open Relation Spreadsheet.Graph

namespace Store

variable {store store' : Store} {p : Position}

theorem AgreeAt.symm (h : store.AgreeAt store' p) : store'.AgreeAt store p := ⟨h.value.symm, h.format.symm⟩

namespace Alike

/-- Stores in which the same has been entered agree on a cell if it reads the same. -/
theorem agreeAt (h : store.Alike store') (hread : store'.read p = store.read p) : store.AgreeAt store' p := by
  refine ⟨hread, ?_⟩
  have hp := h p
  cases hc' : store'.cell? p with
  | none =>
    rw [hc', Option.map_none, eq_comm, Option.map_eq_none_iff] at hp
    rw [hp]
  | some c' =>
    obtain ⟨c, hc, hflush⟩ := h.cell hc'
    rw [hc]
    exact (congrArg Cell.format hflush :)

/-- A cell that shows no result reads as it has been entered. -/
theorem read_eq (h : store.Alike store')
    (hentered : ∀ c, store.cell? p = some c → c.isFormula = false ∧ c.area = none) : store'.read p = store.read p := by
  have hp := h p
  rw [Store.read, Store.read]
  cases hc' : store'.cell? p with
  | none =>
    rw [hc', Option.map_none, eq_comm, Option.map_eq_none_iff] at hp
    rw [hp]
  | some c' =>
    obtain ⟨c, hc, hflush⟩ := h.cell hc'
    obtain ⟨hformula, harea⟩ := hentered c hc
    simp [hc, Cell.read, hformula, harea, isFormula_eq hflush, area_eq hflush, content_eq hflush]

end Alike

end Store

namespace Environment

variable {env : Environment} {store store' : Store} {p q : Position} {e : Expression} {f f' : Profile}
  {content : Position → Vertex.Content}

/-! ### Plain formulas -/

/-- A formula without calls of random, clock and simulation functions and of `INDIRECT`, and without references
to whole rows or columns. -/
structure Plain (env : Environment) (e : Expression) : Prop where
  steady : e.Steady env.library
  written : ∀ position name args, .call position name args ∈ e.units → ∀ f, env.library.find? name = some f →
    f.name ≠ "INDIRECT"
  bounded : ∀ a ∈ (env.dependencies e).areas, a.isBounded = true

theorem Plain.direct (h : env.Plain e) (hlibrary : env.library = Library.standard) : e.Direct env.library := by
  intro position name args hcall f hf
  have hsteady := h.steady position name args hcall f hf
  have hname := h.written position name args hcall f hf
  rw [hlibrary] at hf
  exact Library.direct_of_steady hf hsteady hname

/-- What a plain formula comes to depends on the cells that are mentioned in it only. -/
theorem Derived.same (h : env.Derived store p f) (h' : env.Derived store' p f') (hcontent : f'.content = f.content)
    (he : f.content.expression? = some e) (hplain : env.Plain e) (hlibrary : env.library = Library.standard)
    (hnames : ∀ (name : String) a, env.names[name]? = some a → a.Ordered)
    (hwithin : Dependencies.Within (env.dependencies e) f.dependencies)
    (hwithin' : Dependencies.Within (env.dependencies e) f'.dependencies)
    (hagree : ∀ x, (env.dependencies e).Mentions x → store.AgreeAt store' x) :
    ∃ v, store.Shows p f.content v ∧ store'.Shows p f.content v := by
  obtain ⟨e₁, σ, t, m, he₁, hshows, -, hσ⟩ := h
  obtain ⟨e₂, σ', t', m', he₂, hshows', -, hσ'⟩ := h'
  rw [he] at he₁
  rw [hcontent, he] at he₂
  cases he₁
  cases he₂
  have hdirect := hplain.direct hlibrary
  have hsilent (s : Scope) (hs : s.library = env.library) (model : Simulation.Model) (a : Area)
      (ha : a ∈ (e.calculate s model).areas) : False := by
    rw [Expression.Direct.areas_calculate (hs ▸ hdirect)] at ha
    cases ha
  have hvalue := Expression.value_congr ((env.timed t).scope σ p) σ' t' m m' e hlibrary hplain.steady hnames
    (fun x hx => ((hσ x (hwithin.mentions hx)).trans (hagree x hx)).trans (hσ' x (hwithin'.mentions hx)).symm)
    hplain.bounded (fun a ha => (hsilent _ rfl _ a ha).elim) fun a ha => (hsilent _ rfl _ a ha).elim
  refine ⟨_, hshows, ?_⟩
  rw [← hvalue, ← hcontent]
  exact hshows'

/-! ### Cells that may show what they did before -/

/-- A cell of an array that is on a cycle is mentioned in the cell, and the formula of the array stands
elsewhere. -/
def ReadsLooped (env : Environment) (content : Position → Vertex.Content) (q : Position) : Prop :=
  ∃ m, env.WrittenArrow content m q ∧ content m = .value ∧ env.WrittenCycle content m

/-- What is calculated for the second cell depends on the first one. -/
def Feeds (env : Environment) (content : Position → Vertex.Content) (x q : Position) : Prop :=
  env.WrittenArrow content x q ∧ ¬env.WrittenCycle content q

/-- A cell that depends on one, itself on no cycle, which reads a cell of an array that is on a cycle. -/
def Exposed (env : Environment) (content : Position → Vertex.Content) (q : Position) : Prop :=
  ∃ r, ¬env.WrittenCycle content r ∧ env.ReadsLooped content r ∧ ReflTransGen (env.Feeds content) r q

theorem Exposed.feeds (h : env.Exposed content p) (hpq : env.Feeds content p q) : env.Exposed content q := by
  obtain ⟨r, hr, hreads, hpath⟩ := h
  exact ⟨r, hr, hreads, hpath.tail hpq⟩

/-- No cell is calculated from itself. -/
theorem not_transGen_feeds (env : Environment) (content : Position → Vertex.Content) (q : Position) :
    ¬TransGen (env.Feeds content) q q := by
  intro hpath
  have hcycle : env.WrittenCycle content q := TransGen.mono (fun _ _ h => h.1) _ _ hpath
  cases hpath with
  | single h => exact h.2 hcycle
  | tail _ h => exact h.2 hcycle

end Environment

namespace Sheet

open Environment

variable {s s' : Sheet} {p q x : Position} {e : Expression}

namespace Faithful

/-- What arrows of what is written lead to are cells that have been created. -/
theorem cell_of_writtenArrow (h : s.Faithful) (ha : s.WrittenArrow s.contentAt x q) :
    ∃ c, s.store.cell? q = some c := by
  rcases ha with ⟨e, he, -⟩ | ⟨hmem, -⟩
  · obtain ⟨c, -, hc, -⟩ := cell_of_expression he
    exact ⟨c, hc⟩
  · rw [← h.tied x] at hmem
    obtain ⟨c, a, hc, ha, hin⟩ := h.cell_of_mem_members hmem
    obtain ⟨c', hc', -⟩ := h.arranged.whole x c a q hc ha hin
    exact ⟨c', hc'⟩

/-- Whatever a cell is calculated from is calculated from less. -/
theorem wellFounded_feeds (h : s.Faithful) : WellFounded (s.Feeds s.contentAt) := by
  let created : Set Position := {q | ∃ c, s.store.cell? q = some c}
  have hfinite : created.Finite := by
    refine (List.finite_toSet (s.store.toList.map Prod.fst)).subset fun q ⟨c, hc⟩ => ?_
    exact List.mem_map.2 ⟨(q, c), Store.mem_toList.2 hc, rfl⟩
  have : IsStrictOrder Position (TransGen (s.Feeds s.contentAt)) :=
    { irrefl := not_transGen_feeds s.toEnvironment s.contentAt
      trans := fun _ _ _ => TransGen.trans }
  have hwell := Set.wellFoundedOn_iff.1 (hfinite.wellFoundedOn (r := TransGen (s.Feeds s.contentAt)))
  refine ⟨fun q => hwell.induction q fun q ih => ⟨q, fun x hx => ?_⟩⟩
  by_cases hcreated : x ∈ created
  · exact ih x ⟨.single hx, hcreated, h.cell_of_writtenArrow hx.1⟩
  · exact ⟨x, fun y hy => absurd (h.cell_of_writtenArrow hy.1) hcreated⟩

/-- A cell shows the result of a formula, or what has been entered into it. -/
theorem fills_or_entered (h : s.Faithful) (q : Position) :
    (∃ p e, (s.contentAt p).expression? = some e ∧ (s.contentAt p).Fills p q) ∨
      ∀ c, s.store.cell? q = some c → c.isFormula = false ∧ c.area = none := by
  cases hc : s.store.cell? q with
  | none => exact .inr fun c hc => nomatch hc
  | some c =>
    cases harea : c.area with
    | some a =>
      obtain ⟨hbounded, hordered, hcontains⟩ := h.arranged.area q c a hc harea
      obtain ⟨head, htop⟩ := Area.exists_topLeft? hbounded
      obtain ⟨d, hd, hd_area⟩ := h.arranged.whole q c a head hc harea (Area.contains_topLeft hordered htop)
      obtain ⟨e, hcontent⟩ := h.contentAt_head hd hd_area htop
      refine .inl ⟨head, e, ?_⟩
      rw [hcontent]
      exact ⟨rfl, (Area.mem_members hbounded).2 hcontains⟩
    | none =>
      cases hformula : c.isFormula with
      | true =>
        obtain ⟨e, he⟩ := h.exists_expression hc hformula
        exact .inl ⟨q, e, he, fills_self h.arranged he⟩
      | false =>
        refine .inr fun c' hc' => ?_
        cases hc'
        exact ⟨hformula, harea⟩

/-- A cell that shows a part of the result of another one is a member of the array that starts there, and what is
written leads to it from nowhere else. -/
theorem mem_members_of_fills (h : s.Faithful) (hq : (s.contentAt p).Fills p q) (hne : q ≠ p) :
    q ∈ (s.contentAt p).members ∧ ∀ x, s.WrittenArrow s.contentAt x q → x = p := by
  have hmem : q ∈ (s.contentAt p).members := by
    cases hcontent : s.contentAt p with
    | value =>
      rw [hcontent] at hq
      cases hq
    | formula e =>
      rw [hcontent] at hq
      exact absurd hq hne
    | array e a =>
      rw [hcontent] at hq
      exact hq
  refine ⟨hmem, fun x hx => ?_⟩
  rcases hx with ⟨e, he, -⟩ | ⟨hx, -⟩
  · exact absurd (eq_of_mem_members h.arranged he hmem).symm hne
  · exact Sheet.fills_unique h.arranged (fills_of_mem_members hx) hq

/-- The cells of an array are on a cycle only if the first one is. -/
theorem writtenCycle_of_fills (h : s.Faithful) (hq : (s.contentAt p).Fills p q)
    (hc : s.WrittenCycle s.contentAt q) : s.WrittenCycle s.contentAt p := by
  by_cases hne : q = p
  · exact hne ▸ hc
  · obtain ⟨y, hpath, hlast⟩ := TransGen.tail'_iff.1 hc
    obtain rfl := (h.mem_members_of_fills hq hne).2 y hlast
    exact TransGen.head' hlast hpath

end Faithful

/-! ### Cells above which all formulas are plain -/

/-- The formulas of a cell and of all that it depends on are plain. -/
def PlainAbove (s : Sheet) (q : Position) : Prop :=
  ∀ x e, ReflTransGen (s.WrittenArrow s.contentAt) x q → (s.contentAt x).expression? = some e → s.Plain e

namespace PlainAbove

theorem plain (h : s.PlainAbove q) (he : (s.contentAt q).expression? = some e) : s.Plain e := h q e .refl he

theorem source (h : s.PlainAbove q) (ha : s.WrittenArrow s.contentAt x q) : s.PlainAbove x :=
  fun y e hy he => h y e (hy.tail ha) he

/-- Whether formulas are plain does not depend on results. -/
theorem of_alike (h : s.PlainAbove q) (henv : s'.toEnvironment = s.toEnvironment) (halike : s.store.Alike s'.store) :
    s'.PlainAbove q := by
  have hcontent : s'.contentAt = s.contentAt := funext fun _ => contentAt_of_alike henv halike
  intro x e hx he
  rw [hcontent] at hx he
  rw [henv] at hx ⊢
  exact h x e hx he

end PlainAbove

/-! ### Sheets after a pass -/

/-- A sheet after a pass. -/
structure Rested (s : Sheet) : Prop extends Coherent s where
  clean : ∀ q, ¬s.graph.DirtyAt q

namespace Rested

theorem contentAt_eq (h : s.Rested) : s.graph.contentAt = s.contentAt := funext h.tied

/-- Arrows to plain formulas are as they are written. -/
theorem writtenArrow (h : s.Rested) (hq : s.PlainAbove q) (ha : s.graph.Arrow x q) :
    s.WrittenArrow s.contentAt x q := by
  rcases h.exact x q ha with ⟨f, hf, hm⟩ | ⟨hmem, hne⟩
  · have hcontent := contentAt_of_profileAt? hf
    rw [h.tied] at hcontent
    cases he : f.content.expression? with
    | none =>
      have hvalue : f.content = .value := by
        cases hkind : f.content with
        | value => rfl
        | formula e =>
          rw [hkind] at he
          cases he
        | array e a =>
          rw [hkind] at he
          cases he
      rw [(h.straight q f hf).1 hvalue] at hm
      exact absurd hm Dependencies.not_mentions_empty
    | some e =>
      have he' : (s.contentAt q).expression? = some e := hcontent ▸ he
      rw [(h.straight q f hf).2 e he ((hq.plain he').direct h.library)] at hm
      exact .inl ⟨e, he', hm⟩
  · rw [h.tied] at hmem
    exact .inr ⟨hmem, hne⟩

/-- Paths to plain formulas are as they are written. -/
theorem writtenPath (h : s.Rested) (hq : s.PlainAbove q) (hpath : TransGen s.graph.Arrow x q) :
    TransGen (s.WrittenArrow s.contentAt) x q := by
  induction hpath with
  | single ha => exact .single (h.writtenArrow hq ha)
  | tail _ ha ih =>
    have hwritten := h.writtenArrow hq ha
    exact (ih (hq.source hwritten)).tail hwritten

theorem cyclicAt_iff (h : s.Rested) (hp : s.PlainAbove p) :
    s.graph.CyclicAt p ↔ s.WrittenCycle s.contentAt p := by
  refine ⟨h.writtenPath hp, fun hc => ?_⟩
  rw [← h.contentAt_eq] at hc
  exact hc.cyclicAt h.wellFormed h.wired h.arrayed h.informed

/-- A formula shows the error of a cycle if it is on one, and else what it comes to, unless it reads a cell of an
array that is on a cycle. -/
theorem settled_cases (h : s.Rested) (hp : s.PlainAbove p) (he : (s.contentAt p).expression? = some e) :
    ∃ f, s.graph.profileAt? p = some f ∧ f.content = s.contentAt p ∧
      (s.WrittenCycle s.contentAt p → s.store.Shows p (s.contentAt p) Pass.failure) ∧
      (¬s.WrittenCycle s.contentAt p → ¬s.ReadsLooped s.contentAt p → s.Derived s.store p f) := by
  obtain ⟨i, v, hv, rfl, hcontent⟩ := h.exists_vertex_of_content he
  have hf := h.wellFormed.profileAt?_position hv
  have hcontent' : v.profile.content = s.contentAt v.position := hcontent
  have hdirty : v.profile.dirty = false := by
    by_contra hd
    exact h.clean v.position ⟨v.profile, hf, by simpa using hd⟩
  refine ⟨v.profile, hf, hcontent', ?_⟩
  rw [← hcontent'] at he ⊢
  cases h.settled _ _ hf hdirty (Option.ne_none_iff_exists'.2 ⟨e, he⟩) with
  | overrun _ hindirect _ => exact absurd ((hp.plain (hcontent' ▸ he)).direct h.library) (hindirect e he)
  | looped hcycle hshows => exact ⟨fun _ => hshows, fun hno => absurd ((h.cyclicAt_iff hp).1 hcycle) hno⟩
  | calculated _ _ hwritten hvalue =>
    refine ⟨fun hc => absurd (h.contentAt_eq ▸ hc) hwritten, fun _ hreads => hvalue.resolve_left fun hlooped => ?_⟩
    refine hreads ?_
    obtain ⟨m, ha, hm, hcycle⟩ := hlooped
    have hmp := h.writtenArrow hp ha
    exact ⟨m, hmp, h.tied m ▸ hm, (h.cyclicAt_iff (hp.source hmp)).1 hcycle⟩

/-- Two sheets into which the same has been entered show the same where all that matters is plain, except in exposed
cells. -/
theorem read_eq (h : s.Rested) (h' : s'.Rested) (henv : s'.toEnvironment = s.toEnvironment)
    (halike : s.store.Alike s'.store) (hplain : s.PlainAbove q) (hq : ¬s.Exposed s.contentAt q) :
    s'.read q = s.read q := by
  have hcontent : s'.contentAt = s.contentAt := funext fun _ => contentAt_of_alike henv halike
  -- by induction on what the formula that the cell shows is calculated from
  induction q using h.wellFounded_feeds.transGen.induction with
  | h q ih => ?_
  rcases h.fills_or_entered q with ⟨p, e, he, hfills⟩ | hentered
  · have hpq : q = p ∨ s.WrittenArrow s.contentAt p q :=
      or_iff_not_imp_left.2 fun hne => .inr ⟨(h.mem_members_of_fills hfills hne).1, hne⟩
    have hp : s.PlainAbove p := by
      rcases hpq with rfl | hpq
      · exact hplain
      · exact hplain.source hpq
    obtain ⟨f, hf, hf_content, hlooped, hderived⟩ := h.settled_cases hp he
    obtain ⟨f', hf', hf_content', hlooped', hderived'⟩ := h'.settled_cases (hp.of_alike henv halike) (hcontent ▸ he)
    rw [hcontent, henv] at hlooped' hderived'
    obtain ⟨v, hshows, hshows'⟩ : ∃ v, s.store.Shows p (s.contentAt p) v ∧ s'.store.Shows p (s.contentAt p) v := by
      by_cases hcycle : s.WrittenCycle s.contentAt p
      · exact ⟨Pass.failure, hlooped hcycle, hlooped' hcycle⟩
      · have hpq : q = p ∨ s.Feeds s.contentAt p q :=
          hpq.imp_right fun ha => ⟨ha, fun hc => hcycle (h.writtenCycle_of_fills hfills hc)⟩
        have hexposed : ¬s.Exposed s.contentAt p := by
          rcases hpq with rfl | hfeeds
          · exact hq
          · exact fun hp => hq (hp.feeds hfeeds)
        have hreads : ¬s.ReadsLooped s.contentAt p := fun hreads => hexposed ⟨p, hcycle, hreads, .refl⟩
        rw [← hf_content] at he ⊢
        refine (hderived hcycle hreads).same (hderived' hcycle hreads) ?_ he (hp.plain (hf_content ▸ he)) h.library
          h.names (h.informed p f e hf he) ?_ fun x hx => ?_
        · rw [hf_content', hcontent, hf_content]
        · rw [← henv]
          refine h'.informed p f' e hf' ?_
          rw [hf_content', hcontent, ← hf_content, he]
        · have hfeeds : s.Feeds s.contentAt x p := ⟨.inl ⟨e, hf_content ▸ he, hx⟩, hcycle⟩
          refine halike.agreeAt (ih x ?_ (hp.source hfeeds.1) fun hx => hexposed (hx.feeds hfeeds))
          rcases hpq with rfl | hpq
          · exact .single hfeeds
          · exact .tail (.single hfeeds) hpq
    exact (hshows' q hfills).trans (hshows q hfills).symm
  · exact halike.read_eq hentered

end Rested

/-- A sheet of plain formulas after a pass. -/
structure Quiet (s : Sheet) : Prop extends Coherent s where
  clean : ∀ q, ¬s.graph.DirtyAt q
  plain : ∀ p e, (s.contentAt p).expression? = some e → s.Plain e

namespace Quiet

theorem rested (h : s.Quiet) : s.Rested := ⟨h.toCoherent, h.clean⟩

/-- Two sheets into which the same has been entered show the same, except in exposed cells. -/
theorem read_eq (h : s.Quiet) (h' : s'.Quiet) (henv : s'.toEnvironment = s.toEnvironment)
    (halike : s.store.Alike s'.store) (hq : ¬s.Exposed s.contentAt q) : s'.read q = s.read q :=
  h.rested.read_eq h'.rested henv halike (fun x e _ => h.plain x e) hq

end Quiet

end Sheet

end Spreadsheet
