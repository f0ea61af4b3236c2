import Spreadsheet.Proofs.Sheet.Edit

/-!
Building the graph anew. Whatever the graph has been, a new one belongs together with cells that are in order:
every formula is installed and dirty. So sheets stay faithful and coherent when names are defined or forgotten,
and when rows or columns are inserted or deleted.
-/

namespace Spreadsheet.Sheet

open Spreadsheet.Graph

variable {s s' : Sheet} {p q x : Position} {c : Cell} {a : Area} {e : Expression} {g g' : Graph}
  {content : Vertex.Content} {d : Dependencies} {uncut : Prop}

theorem contentAt_installed_self (h : Installed p content d g g') : g'.contentAt p = content := by
  obtain ⟨f, hf, hcontent, -⟩ := h.self
  rw [contentAt_of_profileAt? hf, hcontent]

theorem contentAt_installed_of_ne (h : Installed p content d g g') (hq : q ≠ p) : g'.contentAt q = g.contentAt q := by
  cases hf : g.profileAt? q with
  | none =>
    cases hf' : g'.profileAt? q with
    | none => rw [Graph.contentAt, Graph.contentAt, hf', hf]
    | some f' =>
      rw [contentAt_of_profileAt? hf', (h.fresh q f' hq hf hf').1, Graph.contentAt, hf]
      rfl
  | some f =>
    obtain ⟨b, -, hb⟩ := h.other q f hq hf
    rw [contentAt_of_profileAt? hb, contentAt_of_profileAt? hf]

/-- While the graph of a sheet is built anew: the formulas of some cells have been installed. -/
structure Rebuilt (s : Sheet) (ps : List Position) (g : Graph) : Prop where
  orderly : g.Orderly
  arrayed : g.Arrayed
  exact : g.Exact
  done : ∀ p ∈ ps, g.contentAt p = s.contentAt p
  rest : ∀ p, p ∉ ps → g.contentAt p = .value
  formula : ∀ p f e, g.profileAt? p = some f → f.content.expression? = some e →
    f.dirty = true ∧ f.dependencies = s.dependencies e
  value : ∀ p f, g.profileAt? p = some f → f.content = .value → f.dependencies = {}

theorem rebuilt_nil (s : Sheet) : Rebuilt s [] {} where
  orderly :=
    { Sound.empty with
      wired := ⟨fun l p k hp _ => absurd hp Dependencies.not_mentions_empty, fun l p hp => (nomatch hp),
        fun a l => ⟨fun h => (nomatch h), fun h => (nomatch h)⟩, fun _ _ => rfl⟩
      closed := fun i _ hi _ => by cases hi
      marked_dirty := fun i hi => by cases hi }
  arrayed p q hq _ := nomatch hq
  exact p q ha := by
    obtain ⟨i, -, hi, -⟩ := ha
    simp [slot?] at hi
  done p hp := nomatch hp
  rest p _ := rfl
  formula p f e hf _ := by
    have hnone : ({} : Graph).profileAt? p = none := by simp [profileAt?, slot?]
    rw [hnone] at hf
    cases hf
  value p f hf _ := by
    have hnone : ({} : Graph).profileAt? p = none := by simp [profileAt?, slot?]
    rw [hnone] at hf
    cases hf

/-- What has been a member of an array still is. -/
theorem Rebuilt.mem_members {ps : List Position} (h : Rebuilt s ps g)
    (hinstalled : Installed p (s.contentAt p) d g g') (hq : q ∈ (g.contentAt x).members) :
    q ∈ (g'.contentAt x).members := by
  by_cases hxp : x = p
  · subst hxp
    by_cases hx : x ∈ ps
    · rwa [contentAt_installed_self hinstalled, ← h.done x hx]
    · rw [h.rest x hx] at hq
      cases hq
  · rwa [contentAt_installed_of_ne hinstalled hxp]

/-- Installing the next formula. -/
theorem Rebuilt.install {ps : List Position} (h : Rebuilt s ps g) (harranged : s.store.Arranged)
    (he : (s.contentAt p).expression? = some e) :
    Rebuilt s (p :: ps) (g.install p (s.contentAt p) (s.dependencies e)) := by
  have hinstalled := h.orderly.installed p (s.contentAt p) (s.dependencies e)
  refine ⟨h.orderly.install p _ _, fun q m hm hne => ?_, fun x q ha => ?_, fun q hq => ?_, fun q hq => ?_,
    fun q f e' hf he' => ?_, fun q f hf hvalue => ?_⟩
  · by_cases hqp : q = p
    · subst hqp
      rw [contentAt_installed_self hinstalled] at hm
      exact (hinstalled.member m hm hne).1
    · rw [contentAt_installed_of_ne hinstalled hqp] at hm
      refine hinstalled.arrow q m ?_ (h.arrayed q m hm hne)
      -- the cell of a formula belongs to no array that starts in another cell
      rintro rfl
      have hq : g.contentAt q = s.contentAt q := by
        by_cases hmem : q ∈ ps
        · exact h.done q hmem
        · rw [h.rest q hmem] at hm
          cases hm
      rw [hq] at hm
      exact hne (eq_of_mem_members harranged he hm).symm
  · by_cases hqp : q = p
    · subst hqp
      obtain ⟨f, hf, -, hdeps, -⟩ := hinstalled.self
      exact .inl ⟨f, hf, hdeps ▸ hinstalled.arrow_self x ha⟩
    have hmentions (hm : ∃ f, g.profileAt? q = some f ∧ f.dependencies.Mentions x) :
        (g.install p (s.contentAt p) (s.dependencies e)).Asked x q := by
      obtain ⟨f, hf, hm⟩ := hm
      obtain ⟨b, -, hf'⟩ := hinstalled.other q f hqp hf
      exact .inl ⟨_, hf', hm⟩
    rcases hinstalled.arrow_new x q ha with hold | ⟨rfl, hmem⟩ | hc | ⟨-, hm⟩
    · rcases h.exact x q hold with hm | ⟨hmem, hne⟩
      · exact hmentions hm
      · exact .inr ⟨h.mem_members hinstalled hmem, hne⟩
    · exact .inr ⟨by rwa [contentAt_installed_self hinstalled], hqp⟩
    · exact absurd hc hqp
    · exact hmentions hm
  · by_cases hqp : q = p
    · rw [hqp, contentAt_installed_self hinstalled]
    · rw [contentAt_installed_of_ne hinstalled hqp]
      exact h.done q ((List.mem_cons.1 hq).resolve_left hqp)
  · rw [List.mem_cons, not_or] at hq
    rw [contentAt_installed_of_ne hinstalled hq.1]
    exact h.rest q hq.2
  · by_cases hqp : q = p
    · subst hqp
      obtain ⟨f', hf', hcontent, hdeps, hd⟩ := hinstalled.self
      rw [hf] at hf'
      cases hf'
      rw [hcontent, he] at he'
      cases he'
      exact ⟨hd, hdeps⟩
    · cases hf₀ : g.profileAt? q with
      | none =>
        rw [(hinstalled.fresh q f hqp hf₀ hf).1] at he'
        cases he'
      | some f₀ =>
        obtain ⟨b, hb, hf'⟩ := hinstalled.other q f₀ hqp hf₀
        rw [hf] at hf'
        cases hf'
        obtain ⟨hd, hdeps⟩ := h.formula q f₀ e' hf₀ he'
        exact ⟨hb hd, hdeps⟩
  · by_cases hqp : q = p
    · subst hqp
      obtain ⟨f', hf', hcontent, -⟩ := hinstalled.self
      rw [hf] at hf'
      cases hf'
      rw [← hcontent, hvalue] at he
      cases he
    · cases hf₀ : g.profileAt? q with
      | none => exact (hinstalled.fresh q f hqp hf₀ hf).2
      | some f₀ =>
        obtain ⟨b, -, hf'⟩ := hinstalled.other q f₀ hqp hf₀
        rw [hf] at hf'
        cases hf'
        exact h.value q f₀ hf₀ hvalue

/-- A cell without a formula needs nothing to be done. -/
theorem Rebuilt.skip {ps : List Position} (h : Rebuilt s ps g) (hvalue : s.contentAt p = .value) :
    Rebuilt s (p :: ps) g where
  orderly := h.orderly
  arrayed := h.arrayed
  exact := h.exact
  done q hq := by
    by_cases hmem : q ∈ ps
    · exact h.done q hmem
    · rw [(List.mem_cons.1 hq).resolve_right hmem, hvalue]
      exact h.rest p ((List.mem_cons.1 hq).resolve_right hmem ▸ hmem)
  rest q hq := h.rest q fun hmem => hq (List.mem_cons_of_mem p hmem)
  formula := h.formula
  value := h.value

theorem reinstall_eq (hc : s.store.cell? p = some c) (hreadable : s.Readable s.store) (g : Graph) :
    { s with graph := g }.reinstall p c =
      { s with
        graph := match (s.contentAt p).expression? with
          | some e => g.install p (s.contentAt p) (s.dependencies e)
          | none => g } := by
  rw [contentAt_of_cell? hc]
  cases hf : c.formula? with
  | none => simp only [reinstall, Environment.content, hf, Vertex.Content.expression?]
  | some text =>
    obtain ⟨e, hparse⟩ := hreadable.formula? hc hf
    rw [content_of_formula hf hparse]
    simp only [reinstall, hf, hparse]
    cases c.area.filter (·.topLeft? = some p) <;> rfl

theorem rebuilt_foldl (harranged : s.store.Arranged) (hreadable : s.Readable s.store) {ps : List Position}
    (h : Rebuilt s ps g) (cells : List (Position × Cell)) (hcells : ∀ pc ∈ cells, s.store.cell? pc.1 = some pc.2) :
    ∃ g', cells.foldl (fun s (p, c) => s.reinstall p c) { s with graph := g } = { s with graph := g' } ∧
      ∃ ps', Rebuilt s ps' g' ∧ ∀ q, q ∈ ps' ↔ q ∈ ps ∨ q ∈ cells.map Prod.fst := by
  induction cells generalizing g ps with
  | nil => exact ⟨g, rfl, ps, h, by simp⟩
  | cons pc cells ih =>
    obtain ⟨p, c⟩ := pc
    have hstep := reinstall_eq (hcells (p, c) List.mem_cons_self) hreadable g
    have hnext : Rebuilt s (p :: ps) (match (s.contentAt p).expression? with
        | some e => g.install p (s.contentAt p) (s.dependencies e)
        | none => g) := by
      split
      · rename_i e he
        exact h.install harranged he
      · rename_i hnone
        refine h.skip ?_
        cases hcontent : s.contentAt p with
        | value => rfl
        | formula e =>
          rw [hcontent] at hnone
          cases hnone
        | array e a =>
          rw [hcontent] at hnone
          cases hnone
    obtain ⟨g', hg', ps', hps', hmem⟩ := ih hnext fun pc hpc => hcells pc (List.mem_cons_of_mem _ hpc)
    refine ⟨g', ?_, ps', hps', fun q => ?_⟩
    · rw [List.foldl_cons, ← hg', ← hstep]
    · rw [hmem, List.map_cons, List.mem_cons, List.mem_cons]
      tauto

/-- Building the graph anew makes a sheet faithful whose cells are in order, with all formulas dirty. -/
theorem rebuilt_rebuild (harranged : s.store.Arranged) (hreadable : s.Readable s.store) :
    s.rebuild.Faithful ∧ s.rebuild.graph.Orderly ∧ s.rebuild.toEnvironment = s.toEnvironment ∧
      ∀ p f, s.rebuild.graph.profileAt? p = some f → f.content.expression? ≠ none → f.dirty = true := by
  obtain ⟨g, hg, ps, h, hmem⟩ := rebuilt_foldl harranged hreadable (rebuilt_nil s) s.store.toList
    fun pc hpc => Store.mem_toList.1 hpc
  have hrebuild : s.rebuild = { s with graph := g } := hg
  rw [hrebuild]
  have hcells (p : Position) : g.contentAt p = s.contentAt p := by
    by_cases hp : p ∈ ps
    · exact h.done p hp
    · have hnone : s.store.cell? p = none := by
        cases hc : s.store.cell? p with
        | none => rfl
        | some c => exact absurd ((hmem p).2 (.inr (List.mem_map.2 ⟨(p, c), Store.mem_toList.2 hc, rfl⟩))) hp
      rw [h.rest p hp, Sheet.contentAt, hnone]
      rfl
  have hinformed : s.Informed g := by
    intro p f e hf he
    rw [(h.formula p f e hf he).2]
    exact .refl _
  have hstraight : s.Straight g := fun p f hf => ⟨h.value p f hf, fun e he _ => (h.formula p f e hf he).2⟩
  refine ⟨⟨h.orderly.toWellFormed, h.orderly.wired, h.arrayed, h.exact, hinformed, hstraight, hcells, harranged,
    hreadable⟩, h.orderly, rfl, fun p f hf he => ?_⟩
  obtain ⟨e, he⟩ := Option.ne_none_iff_exists'.1 he
  exact (h.formula p f e hf he).1

theorem kept_rebuild (harranged : s.store.Arranged) (hreadable : s.Readable s.store)
    (hstandard : uncut → s.library = Library.standard ∧ ∀ (name : String) a, s.names[name]? = some a → a.Ordered) :
    s.rebuild.Kept uncut := by
  obtain ⟨hfaithful, horderly, henv, hdirty⟩ := rebuilt_rebuild harranged hreadable
  refine ⟨hfaithful, horderly.toFirm, fun hu => ?_⟩
  obtain ⟨hlibrary, hnames⟩ := hstandard hu
  rw [← henv] at hlibrary hnames
  refine ⟨⟨hfaithful, hnames, hlibrary⟩, horderly, fun p f hf hclean he => ?_⟩
  rw [hdirty p f hf he] at hclean
  cases hclean

/-! ### Names -/

theorem Kept.defineName (h : s.Kept uncut) (name : String) (ha : uncut → a.Ordered) :
    (s.defineName name a).Kept uncut := by
  refine kept_rebuild (s := { s with names := s.names.insert (Text.upper name) a }) h.faithful.arranged
    h.faithful.readable fun hu => ⟨(h.coherent hu).library, fun key b hb => ?_⟩
  change (s.names.insert (Text.upper name) a)[key]? = some b at hb
  rw [Std.TreeMap.getElem?_insert] at hb
  split at hb
  · cases hb
    exact ha hu
  · exact (h.coherent hu).names key b hb

theorem Kept.removeName? (h : s.Kept uncut) {name : String} (hs : s.removeName? name = some s') : s'.Kept uncut := by
  unfold Sheet.removeName? at hs
  split at hs
  · cases hs
    refine kept_rebuild (s := { s with names := s.names.erase (Text.upper name) }) h.faithful.arranged
      h.faithful.readable fun hu => ⟨(h.coherent hu).library, fun key b hb => ?_⟩
    change (s.names.erase (Text.upper name))[key]? = some b at hb
    rw [Std.TreeMap.getElem?_erase] at hb
    split at hb
    · cases hb
    · exact (h.coherent hu).names key b hb
  · cases hs

end Spreadsheet.Sheet
