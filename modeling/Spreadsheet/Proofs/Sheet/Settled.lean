import Spreadsheet.Proofs.Evaluation.Steady
import Spreadsheet.Proofs.Graph.Orderly
import Spreadsheet.Proofs.Graph.Paths
import Spreadsheet.Proofs.Sheet.Cells
import Spreadsheet.Sheet.Recalculate

/-!
Cells that are up to date. The vertex of a formula is settled when its cells show either the error of a
cycle or of too many replaced dependencies, or what the formula comes to. A change of other cells leaves
a vertex settled as long as all that reads them has been marked.
-/

namespace Spreadsheet

open Relation

/-! ### Cycles of cells -/

namespace Graph

variable {g g' : Graph} {p q x y : Position} {P : Position → Prop}

/-- The vertex of a cell is on a cycle. -/
def CyclicAt (g : Graph) (p : Position) : Prop := TransGen g.Arrow p p

/-- A cycle leads through a cell and another one, which is on a further cycle that leaves the first cell
out. -/
def Bypassed (g : Graph) (p : Position) : Prop :=
  ∃ y, TransGen g.Arrow y p ∧ TransGen g.Arrow p y ∧ TransGen (fun a b => g.Arrow a b ∧ a ≠ p ∧ b ≠ p) y y

/-- A cell whose vertex takes its value from the cell is on a cycle and is read by another one. -/
def ReadsCyclicValue (g : Graph) (p : Position) : Prop :=
  ∃ m, g.Arrow m p ∧ g.contentAt m = .value ∧ g.CyclicAt m

/-- The members of arrays read the first of them. -/
def Arrayed (g : Graph) : Prop := ∀ p q, q ∈ (g.contentAt p).members → q ≠ p → g.Arrow p q

/-- The vertex of the second cell mentions the first cell, or the second cell is a member of the array whose
formula stands in the first one. -/
def Asked (g : Graph) (p q : Position) : Prop :=
  (∃ f, g.profileAt? q = some f ∧ f.dependencies.Mentions p) ∨ q ∈ (g.contentAt p).members ∧ q ≠ p

/-- All arrows have been asked for. -/
def Exact (g : Graph) : Prop := ∀ p q, g.Arrow p q → g.Asked p q

theorem contentAt_of_profileAt? {f : Profile} (hf : g.profileAt? p = some f) : g.contentAt p = f.content := by
  rw [contentAt, hf, Option.map_some, Option.getD_some]

/-- The cells that a change has not touched and that are clean after it. -/
def Unaffected (P : Position → Prop) (g g' : Graph) (q : Position) : Prop :=
  ¬P q ∧ g.profileAt? q ≠ none ∧ ¬g'.DirtyAt q

theorem Unaffected.contentAt (hq : Unaffected P g g' q) (h : Reworked P g g') : g'.contentAt q = g.contentAt q := by
  obtain ⟨f, hf⟩ := Option.ne_none_iff_exists'.1 hq.2.1
  obtain ⟨b, -, hf'⟩ := h.profile q f hq.1 hf
  rw [contentAt_of_profileAt? hf, contentAt_of_profileAt? hf']

namespace Reworked

/-- Unaffected cells read unaffected cells only, and still read them. -/
theorem unaffected_kept (h : Reworked P g g') (hwell : g.WellFormed) (horderly : g'.Orderly)
    (htold : ∀ x, P x → g'.Told x) (x q : Position) (hq : Unaffected P g g' q) (ha : g.Arrow x q) :
    g'.Arrow x q ∧ Unaffected P g g' x := by
  have ha' := h.arrow x q hq.1 ha
  refine ⟨ha', fun hx => hq.2.2 ((htold x hx).arrow q ha'), ?_, fun hd => ?_⟩
  · obtain ⟨f, hf⟩ := hwell.arrow_source ha
    rw [hf]
    exact Option.some_ne_none f
  · exact hq.2.2 (horderly.closed.arrow horderly.toWellFormed hd ha')

/-- What else they read are new vertices. -/
theorem unaffected_new (h : Reworked P g g') (htold : ∀ x, P x → g'.Told x) (x q : Position)
    (hq : Unaffected P g g' q) (ha : g'.Arrow x q) : g.Arrow x q ∨ ∀ y, ¬g'.Arrow y x := by
  rcases h.arrow_new x q hq.1 ha with ha | ⟨hx, f, hf, hm⟩
  · exact .inl ha
  · have hP : ¬P x := fun hx => hq.2.2 ⟨f, hf, (htold x hx).mentions q f hf hm⟩
    exact .inr (h.fresh x hP (hx.resolve_left hP)).arrow

/-- Unaffected cells are on a cycle as before. -/
theorem cyclicAt_iff (h : Reworked P g g') (hwell : g.WellFormed) (horderly : g'.Orderly)
    (htold : ∀ x, P x → g'.Told x) (hq : Unaffected P g g' q) : g'.CyclicAt q ↔ g.CyclicAt q :=
  ⟨fun hc => upstream_new (h.unaffected_kept hwell horderly htold) (h.unaffected_new htold) hq hc (entered_of_cycle hc),
    fun hc => (upstream_kept (h.unaffected_kept hwell horderly htold) hq hc).1⟩

theorem bypassed (h : Reworked P g g') (hwell : g.WellFormed) (horderly : g'.Orderly)
    (htold : ∀ x, P x → g'.Told x) (hq : Unaffected P g g' q) (hb : g.Bypassed q) : g'.Bypassed q := by
  obtain ⟨y, hyq, hqy, hcycle⟩ := hb
  have hkept := h.unaffected_kept hwell horderly htold
  obtain ⟨hyq', hy⟩ := upstream_kept hkept hq hyq
  refine ⟨y, hyq', (upstream_kept hkept hy hqy).1, (upstream_kept (fun a b hb hab => ?_) hy hcycle).1⟩
  obtain ⟨hab', ha⟩ := hkept a b hb hab.1
  exact ⟨⟨hab', hab.2⟩, ha⟩

theorem readsCyclicValue (h : Reworked P g g') (hwell : g.WellFormed) (horderly : g'.Orderly)
    (htold : ∀ x, P x → g'.Told x) (hq : Unaffected P g g' q) (hr : g.ReadsCyclicValue q) :
    g'.ReadsCyclicValue q := by
  obtain ⟨m, ha, hvalue, hcycle⟩ := hr
  obtain ⟨ha', hm⟩ := h.unaffected_kept hwell horderly htold m q hq ha
  exact ⟨m, ha', (hm.contentAt h).trans hvalue, (h.cyclicAt_iff hwell horderly htold hm).2 hcycle⟩

end Reworked

end Graph

/-! ### Cycles that are written -/

namespace Environment

open Spreadsheet.Graph

variable {env : Environment} {g g' : Graph} {p q x y : Position} {P : Position → Prop}

/-- What is entered into the second cell mentions the first one, or the second cell is a member of the
array whose formula stands in the first one. -/
def WrittenArrow (env : Environment) (content : Position → Vertex.Content) (x q : Position) : Prop :=
  (∃ e, (content q).expression? = some e ∧ (env.dependencies e).Mentions x) ∨ q ∈ (content x).members ∧ q ≠ x

/-- A cell is on a cycle of what has been entered. -/
def WrittenCycle (env : Environment) (content : Position → Vertex.Content) (p : Position) : Prop :=
  TransGen (env.WrittenArrow content) p p

/-- Vertices are known to read what their formulas mention. -/
def Informed (env : Environment) (g : Graph) : Prop :=
  ∀ p f e, g.profileAt? p = some f → f.content.expression? = some e →
    Dependencies.Within (env.dependencies e) f.dependencies

/-- A vertex without a formula reads nothing, and one with a direct formula reads just what this mentions. -/
def StraightAt (env : Environment) (f : Profile) : Prop :=
  (f.content = .value → f.dependencies = {}) ∧
    ∀ e, f.content.expression? = some e → e.Direct env.library → f.dependencies = env.dependencies e

def Straight (env : Environment) (g : Graph) : Prop := ∀ p f, g.profileAt? p = some f → env.StraightAt f

theorem StraightAt.congr {f f' : Profile} (h : env.StraightAt f) (hcontent : f'.content = f.content)
    (hdeps : f'.dependencies = f.dependencies) : env.StraightAt f' := by
  rw [StraightAt, hcontent, hdeps]
  exact h

theorem straightAt_idle {f : Profile} (hcontent : f.content = .value) (hdeps : f.dependencies = {}) :
    env.StraightAt f := by
  refine ⟨fun _ => hdeps, fun e he => ?_⟩
  rw [hcontent] at he
  cases he

theorem straightAt_formula {f : Profile} {e : Expression} (he : f.content.expression? = some e)
    (hdeps : e.Direct env.library → f.dependencies = env.dependencies e) : env.StraightAt f := by
  refine ⟨fun hcontent => ?_, fun e' he' => ?_⟩
  · rw [hcontent] at he
    cases he
  · rw [he] at he'
    cases he'
    exact hdeps

/-- What has been entered gives arrows, where both cells have vertices. -/
theorem arrow_of_written (hwell : g.WellFormed) (hwired : g.Wired) (harrayed : g.Arrayed) (hinformed : env.Informed g)
    (hwritten : env.WrittenArrow g.contentAt x q) (hx : ∃ y, env.WrittenArrow g.contentAt y x) : g.Arrow x q := by
  have hvertex {p : Position} {e : Expression} (he : (g.contentAt p).expression? = some e) :
      ∃ f, g.profileAt? p = some f ∧ f.content.expression? = some e := by
    cases hf : g.profileAt? p with
    | none =>
      rw [contentAt, hf] at he
      cases he
    | some f =>
      rw [contentAt_of_profileAt? hf] at he
      exact ⟨f, rfl, he⟩
  rcases hwritten with ⟨e, he, hm⟩ | ⟨hmem, hne⟩
  · obtain ⟨f, hf, he⟩ := hvertex he
    refine hwired.arrow hwell hf ((hinformed q f e hf he).mentions hm) ?_
    obtain ⟨y, ⟨e', he', -⟩ | ⟨hmem, hne⟩⟩ := hx
    · obtain ⟨f', hf', -⟩ := hvertex he'
      rw [hf']
      exact Option.some_ne_none f'
    · obtain ⟨f', hf'⟩ := hwell.arrow_target (harrayed y x hmem hne)
      rw [hf']
      exact Option.some_ne_none f'
  · exact harrayed x q hmem hne

/-- A cycle of what has been entered, with the arrows of the graph along it. -/
theorem WrittenCycle.arrows (hc : env.WrittenCycle g.contentAt p) (hwell : g.WellFormed) (hwired : g.Wired)
    (harrayed : g.Arrayed) (hinformed : env.Informed g) :
    TransGen (fun a b => (env.WrittenArrow g.contentAt a b ∧ g.Arrow a b) ∧
      ∃ c, env.WrittenArrow g.contentAt c a ∧ g.Arrow c a) p p := by
  have hentered := transGen_entered (entered_of_cycle hc) hc
  have hpath : TransGen (fun a b => env.WrittenArrow g.contentAt a b ∧ g.Arrow a b) p p :=
    TransGen.mono (fun a b hab => ⟨hab.1, arrow_of_written hwell hwired harrayed hinformed hab.1 hab.2⟩) _ _ hentered
  exact transGen_entered (entered_of_cycle hpath) hpath

theorem WrittenCycle.cyclicAt (hc : env.WrittenCycle g.contentAt p) (hwell : g.WellFormed) (hwired : g.Wired)
    (harrayed : g.Arrayed) (hinformed : env.Informed g) : g.CyclicAt p :=
  TransGen.mono (fun _ _ hab => hab.1.2) _ _ (hc.arrows hwell hwired harrayed hinformed)

/-- No cycle of what has been entered is new for unaffected cells. -/
theorem WrittenCycle.of_reworked (h : Reworked P g g') (hwell : g.WellFormed) (horderly : g'.Orderly)
    (harrayed : g'.Arrayed) (hinformed : env.Informed g') (htold : ∀ x, P x → g'.Told x)
    (hq : Unaffected P g g' q) (hc : env.WrittenCycle g'.contentAt q) : env.WrittenCycle g.contentAt q := by
  have hpath := hc.arrows horderly.toWellFormed horderly.wired harrayed hinformed
  have hback {x : Position} (hpath : TransGen (fun a b => (env.WrittenArrow g'.contentAt a b ∧ g'.Arrow a b) ∧
      ∃ c, env.WrittenArrow g'.contentAt c a ∧ g'.Arrow c a) x q) :
      TransGen (env.WrittenArrow g.contentAt) x q := by
    refine (upstream_kept (U := Unaffected P g g') (fun a b hb hab => ?_) hq hpath).1
    obtain ⟨⟨hwritten, hab⟩, c, -, hca⟩ := hab
    have hold := (h.unaffected_new htold a b hb hab).resolve_right fun hnone => hnone c hca
    have ha := (h.unaffected_kept hwell horderly htold a b hb hold).2
    refine ⟨?_, ha⟩
    rw [WrittenArrow, hb.contentAt h, ha.contentAt h] at hwritten
    exact hwritten
  exact hback hpath

end Environment

/-! ### Cells that show results -/

namespace Vertex.Content

/-- The second cell shows a part of the result of the vertex of the first one. -/
def Fills (content : Content) (p q : Position) : Prop :=
  match content with
  | .value => False
  | .formula _ => q = p
  | .array _ a => q ∈ a.members

/-- The part of a result that the second cell shows. -/
def part (content : Content) (x : Value) (p q : Position) : Value :=
  match content with
  | .array _ _ => x.elementFor p q
  | _ => x

end Vertex.Content

namespace Store

variable {store store' : Store} {content : Vertex.Content} {p : Position} {x : Value}

/-- The cells of a vertex show a result. -/
def Shows (store : Store) (p : Position) (content : Vertex.Content) (x : Value) : Prop :=
  ∀ q, content.Fills p q → store.read q = content.part x p q

theorem Shows.congr (h : store.Shows p content x)
    (hread : ∀ q, content.Fills p q → store'.read q = store.read q) : store'.Shows p content x :=
  fun q hq => (hread q hq).trans (h q hq)

end Store

namespace Sheet

variable {s : Sheet} {p q x : Position}

/-- A cell that shows a part of the result of a vertex tells which vertex it is. -/
theorem cell_of_fills (harranged : s.store.Arranged) (h : (s.contentAt p).Fills p x) :
    ∃ c, s.store.cell? x = some c ∧
      ((c.area = none ∧ c.isFormula = true ∧ x = p) ∨ ∃ a, c.area = some a ∧ a.topLeft? = some p) := by
  cases hcontent : s.contentAt p with
  | value =>
    rw [hcontent] at h
    cases h
  | formula e =>
    rw [hcontent] at h
    obtain rfl : x = p := h
    obtain ⟨c, hc, hformula, harea⟩ := cell_of_formula hcontent harranged
    exact ⟨c, hc, .inl ⟨harea, hformula, rfl⟩⟩
  | array e a =>
    rw [hcontent] at h
    change x ∈ a.members at h
    obtain ⟨c, hc, -, harea, htop⟩ := cell_of_array hcontent
    have hx := (Area.mem_members (harranged.area p c a hc harea).1).1 h
    obtain ⟨c', hc', harea'⟩ := harranged.whole p c a x hc harea hx
    exact ⟨c', hc', .inr ⟨a, harea', htop⟩⟩

/-- No cell shows results of two vertices. -/
theorem fills_unique (harranged : s.store.Arranged) (hp : (s.contentAt p).Fills p x)
    (hq : (s.contentAt q).Fills q x) : p = q := by
  obtain ⟨c, hc, hp⟩ := cell_of_fills harranged hp
  obtain ⟨c', hc', hq⟩ := cell_of_fills harranged hq
  rw [hc] at hc'
  cases hc'
  rcases hp with ⟨hnone, -, rfl⟩ | ⟨a, ha, hp⟩ <;> rcases hq with ⟨hnone', -, hxq⟩ | ⟨a', ha', hq⟩
  · exact hxq
  · rw [hnone] at ha'
    cases ha'
  · rw [hnone'] at ha
    cases ha
  · rw [ha] at ha'
    cases ha'
    exact Option.some.inj (hp.symm.trans hq)

theorem fills_self (harranged : s.store.Arranged) {e : Expression} (he : (s.contentAt p).expression? = some e) :
    (s.contentAt p).Fills p p := by
  cases hcontent : s.contentAt p with
  | value =>
    rw [hcontent] at he
    cases he
  | formula e => exact rfl
  | array e a =>
    obtain ⟨c, hc, -, ha, -⟩ := cell_of_array hcontent
    obtain ⟨hbounded, -, hcontains⟩ := harranged.area p c a hc ha
    exact (Area.mem_members hbounded).2 hcontains

theorem fills_of_mem_members {content : Vertex.Content} (hx : x ∈ content.members) : content.Fills p x := by
  cases content with
  | value => cases hx
  | formula e => cases hx
  | array e a => exact hx

/-- The cell of a formula belongs to no array that starts in another cell. -/
theorem eq_of_mem_members (harranged : s.store.Arranged) {e : Expression} (he : (s.contentAt p).expression? = some e)
    (hp : p ∈ (s.contentAt q).members) : q = p :=
  fills_unique harranged (fills_of_mem_members hp) (fills_self harranged he)

end Sheet

/-! ### Settled vertices -/

namespace Environment

open Spreadsheet.Graph

variable {env : Environment} {g g' : Graph} {store store' : Store} {p q x : Position} {f : Profile}
  {P : Position → Prop} {limit : Nat}

/-- The environment at another time. -/
def timed (env : Environment) (clock : Clock) : Environment := { env with clock }

/-- The cells of a vertex show what its formula comes to: the evaluation has been made at some time, with cells
that agree with the present ones on all that the vertex is known to read, and has reported nothing else. -/
def Derived (env : Environment) (store : Store) (p : Position) (f : Profile) : Prop :=
  ∃ e σ t m, f.content.expression? = some e ∧
    store.Shows p f.content (e.calculate ((env.timed t).scope σ p) m).value ∧
    (∀ a ∈ (e.calculate ((env.timed t).scope σ p) m).areas, ∀ x, a.contains x = true → f.dependencies.Mentions x) ∧
    ∀ x, f.dependencies.Mentions x → σ.AgreeAt store x

theorem Derived.congr (h : env.Derived store p f) (hfills : ∀ x, f.content.Fills p x → store'.read x = store.read x)
    (hmentions : ∀ x, f.dependencies.Mentions x → store.AgreeAt store' x) : env.Derived store' p f := by
  obtain ⟨e, σ, t, m, he, hshows, hareas, hagree⟩ := h
  exact ⟨e, σ, t, m, he, hshows.congr hfills, hareas, fun x hx => (hagree x hx).trans (hmentions x hx)⟩

/-- What the cells of a clean vertex show: an error because its dependencies have been replaced too often, as those
of direct formulas never are, or because it is on a cycle, or else what the formula comes to, where the vertex does
not read one that takes its value from a cell of an array although it is on a cycle. -/
inductive Settled (env : Environment) (limit : Nat) (g : Graph) (store : Store) (p : Position) (f : Profile) : Prop
  | overrun (hlimit : limit < f.rebuilds) (hindirect : ∀ e, f.content.expression? = some e → ¬e.Direct env.library)
    (hshows : store.Shows p f.content Pass.failure)
  | looped (hcycle : g.CyclicAt p) (hshows : store.Shows p f.content Pass.failure)
  /-- Cycles that came about later lead through others that had failed before. -/
  | calculated (hlimit : f.rebuilds ≤ limit) (hbypassed : g.CyclicAt p → g.Bypassed p)
    (hwritten : ¬env.WrittenCycle g.contentAt p) (hvalue : g.ReadsCyclicValue p ∨ env.Derived store p f)

/-- Whether a vertex is settled depends on arrows and on what vertices calculate. -/
theorem Settled.congr (hs : env.Settled limit g store p f) (harrow : g'.Arrow = g.Arrow)
    (hcontent : g'.contentAt = g.contentAt) : env.Settled limit g' store p f := by
  have hcyclic : g'.CyclicAt = g.CyclicAt := by
    funext q
    rw [CyclicAt, CyclicAt, harrow]
  cases hs with
  | overrun hlimit hindirect hshows => exact .overrun hlimit hindirect hshows
  | looped hcycle hshows => exact .looped (hcyclic ▸ hcycle) hshows
  | calculated hlimit hbypassed hwritten hvalue =>
    refine .calculated hlimit ?_ (hcontent ▸ hwritten) ?_
    · rw [hcyclic, Bypassed, harrow]
      exact hbypassed
    · rw [ReadsCyclicValue, harrow, hcontent, hcyclic]
      exact hvalue

/-- What has been settled does not depend on the time. -/
theorem Settled.timed (hs : env.Settled limit g store p f) (clock : Clock) :
    (env.timed clock).Settled limit g store p f := by
  cases hs with
  | overrun hlimit hindirect hshows => exact .overrun hlimit hindirect hshows
  | looped hcycle hshows => exact .looped hcycle hshows
  | calculated hlimit hbypassed hwritten hvalue => exact .calculated hlimit hbypassed hwritten hvalue

/-- Between passes a clean vertex that an edit does not touch stays settled. -/
theorem Settled.of_reworked (hs : env.Settled limit g store q f) (h : Reworked P g g') (hwell : g.WellFormed)
    (horderly : g'.Orderly) (harrayed : g'.Arrayed) (hinformed : env.Informed g') (htold : ∀ x, P x → g'.Told x)
    (hq : Unaffected P g g' q) (hf : g'.profileAt? q = some f) (hstore : ∀ x, ¬P x → store'.cell? x = store.cell? x)
    (hfills : ∀ x, f.content.Fills q x → ¬P x) : env.Settled limit g' store' q f := by
  have hread (x : Position) (hx : f.content.Fills q x) : store'.read x = store.read x :=
    Store.read_eq_of_cell? (hstore x (hfills x hx))
  have hmentions (x : Position) (hx : f.dependencies.Mentions x) : store.AgreeAt store' x := by
    refine Store.agreeAt_of_cell? (hstore x fun hP => hq.2.2 ?_)
    exact ⟨f, hf, (htold x hP).mentions q f hf hx⟩
  cases hs with
  | overrun hlimit hindirect hshows => exact .overrun hlimit hindirect (hshows.congr hread)
  | looped hcycle hshows =>
    exact .looped ((h.cyclicAt_iff hwell horderly htold hq).2 hcycle) (hshows.congr hread)
  | calculated hlimit hbypassed hwritten hvalue =>
    refine .calculated hlimit (fun hc => ?_) (fun hc => hwritten ?_) ?_
    · exact h.bypassed hwell horderly htold hq (hbypassed ((h.cyclicAt_iff hwell horderly htold hq).1 hc))
    · exact hc.of_reworked h hwell horderly harrayed hinformed htold hq
    · exact hvalue.imp (h.readsCyclicValue hwell horderly htold hq) (·.congr hread hmentions)

end Environment

end Spreadsheet
