import Spreadsheet.Proofs.Graph.Downstream
import Spreadsheet.Proofs.Sheet.Recording

/-!
Passes that follow each other at once. The second one deals with the formulas that were volatile when they were last
calculated and with what depends on them, and with nothing else.
-/

namespace Spreadsheet.Sheet

open Spreadsheet.Graph Relation

variable {s : Sheet} {i k : Slot} {uncut : Prop}

/-- The formula in a slot was volatile when it was last calculated. -/
def VolatileAt (uncut : Prop) (s : Sheet) (i : Slot) : Prop :=
  ∃ v e σ t m, s.graph.vertex? i = some v ∧ v.expression? = some e ∧ Calculation uncut {} s v.gist e σ t m ∧
    (e.calculate ((s.timed t).scope σ v.position) m).volatile = true

/-- A pass over a sheet in which nothing is dirty settles the vertices in some slots. -/
structure Revisits (uncut : Prop) (s : Sheet) (settled : List Slot) : Prop where
  nodup : settled.Nodup
  /-- Listed vertices and what depends on them are settled, and nothing else. -/
  mem_iff : ∀ k, k ∈ settled ↔ ∃ i ∈ s.graph.volatiles, ReflTransGen s.graph.Edge i k
  listed : ∀ i ∈ s.graph.volatiles, s.VolatileAt uncut i
  /-- Off all cycles the listed vertices are those of the formulas that were volatile. -/
  acyclic : uncut → ∀ i, s.graph.isOnCycle i = false → (i ∈ s.graph.volatiles ↔ s.VolatileAt uncut i)
  /-- On cycles only those are listed that had been calculated before the cycle came about. -/
  looped : uncut → ∀ i ∈ s.graph.volatiles, s.graph.isOnCycle i = true → ∃ v, s.graph.vertex? i = some v ∧
    s.graph.Bypassed v.position ∧ ¬s.WrittenCycle s.graph.contentAt v.position
  /-- Wherever earlier passes have been cut short, all those are listed that do not show the error of a cycle. -/
  shown : ∀ i v, s.graph.vertex? i = some v → v.result ≠ Pass.failure → s.VolatileAt uncut i → i ∈ s.graph.volatiles
  idle : (∀ i, ¬s.VolatileAt uncut i) → s.recalculate.1 = {} ∧ s.recalculate.2.toContents = s.toContents

namespace RecordingAt

variable {floor : Store} {v : Vertex} {e : Expression}

theorem volatileAt (h : RecordingAt uncut floor s i) (hi : i ∈ s.graph.volatiles) : s.VolatileAt uncut i := by
  obtain ⟨c, e, hc, he, -, hv, σ, t, m, hcalc⟩ := h.listed hi
  obtain ⟨v, hvertex, rfl⟩ := gist?_eq_some_iff.1 hc
  refine ⟨v, e, σ, t, m, hvertex, (Vertex.expression?_eq v).trans he,
    { hcalc with spans := ⟨.empty σ, hcalc.spans.2⟩ }, hcalc.volatile.symm.trans hv⟩

/-- A clean formula that was volatile and has not failed since is listed. -/
theorem mem_volatiles (h : RecordingAt uncut floor s i) (hclean : ¬s.graph.isDirty i = true)
    (hv : s.graph.vertex? i = some v) (hvolatile : s.VolatileAt uncut i) (hfailed : ¬Failed uncut s v.gist) :
    i ∈ s.graph.volatiles := by
  obtain ⟨w, e, σ, t, m, hw, he, hcalc, hreported⟩ := hvolatile
  rw [hv, Option.some.injEq] at hw
  subst hw
  rw [isDirty_iff_of_vertex? hv, Bool.not_eq_true] at hclean
  rw [Vertex.expression?_eq] at he
  obtain ⟨-, hlisted⟩ := (h.recorded v.gist e (gist?_of_vertex? hv) he hclean).resolve_left hfailed
  exact hlisted (hcalc.volatile.trans hreported)

end RecordingAt

/-- When a pass is followed by another one at once, the second one settles the formulas that were volatile when they
were last calculated, and what depends on them. -/
theorem Attained.revisits_recalculate (h : s.Attained uncut) (hcut : s.recalculate.1.truncated = false)
    (hcut' : s.recalculate.2.recalculate.1.truncated = false) :
    ∃ moments p, Pass.Runs s.recalculate.2.handler s.recalculate.2.settings.limits.rebuilds
        (s.recalculate.2.graph.markVolatile.beginPass s.recalculate.2.toContents) moments p ∧
      s.recalculate.2.recalculate = (p.tally, s.recalculate.2.sheetAt p) ∧
      s.recalculate.2.Revisits uncut
        (Pass.settlings s.recalculate.2.handler s.recalculate.2.settings.limits.rebuilds moments) := by
  have hkept := h.kept.recalculate fun _ => hcut
  have hrecord := h.recorded.recalculate h.kept
  obtain ⟨hclean, hmarked⟩ := h.kept.clean_recalculate hcut
  generalize s.recalculate.2 = s' at hcut' hkept hrecord hclean hmarked ⊢
  have hlisted (i : Slot) (hi : i ∈ s'.graph.volatiles) := (hrecord i).volatileAt hi
  have hlive (i : Slot) (hi : i ∈ s'.graph.volatiles) : s'.graph.Live i := by
    obtain ⟨v, -, -, -, -, hv, -⟩ := hlisted i hi
    exact ⟨v, hv⟩
  have hcyclic {i : Slot} {v : Vertex} (hv : s'.graph.vertex? i = some v) :
      s'.graph.isOnCycle i = true ↔ s'.graph.CyclicAt v.position :=
    isOnCycle_iff.trans (hkept.firm.toWellFormed.onCycle_iff (hkept.firm.toWellFormed.slot?_position hv))
  obtain ⟨moments, hr⟩ := Pass.runs_run hcut'
  obtain ⟨hnodup, hmem⟩ := hkept.markVolatile.firm.toSound.settlings_of_clean hkept.firm.linked hclean hlive hr
  refine ⟨moments, _, hr, rfl, hnodup, hmem, hlisted, fun hu i hacyclic => ⟨hlisted i, fun hvolatile => ?_⟩,
    fun hu i hi hcycle => ?_, fun i v hv hresult hvolatile => ?_, fun hnone => ?_⟩
  · obtain ⟨v, _, _, _, _, hv, -, hcalc, -⟩ := id hvolatile
    refine (hrecord i).mem_volatiles (hclean i) hv hvolatile fun hfailed => ?_
    rcases hfailed.cause hu with hlimit | hcycle
    · exact absurd hcalc.limit (Nat.not_le.2 hlimit)
    · rw [(hcyclic hv).2 hcycle] at hacyclic
      cases hacyclic
  · obtain ⟨v, _, _, _, _, hv, -, hcalc, -⟩ := hlisted i hi
    exact ⟨v, hv, hcalc.bypassed hu ((hcyclic hv).1 hcycle), hcalc.written hu⟩
  · exact (hrecord i).mem_volatiles (hclean i) hv hvolatile fun hfailed => hresult hfailed.result
  · have hvolatiles : s'.graph.volatiles = [] := List.eq_nil_iff_forall_not_mem.2 fun i hi => hnone i (hlisted i hi)
    obtain ⟨htally, hstate⟩ := recalculate_of_idle s'.handler s'.settings.limits s'.toContents hvolatiles hmarked
    exact ⟨htally, hstate⟩

/-! ### A volatile cell -/

/-- A function whose calls are calculated anew by each pass. -/
def ticker : Function := { name := "TICK", volatile := true, apply := fun _ _ => return .undefined }

/-- The library with this function only. -/
def tickers : Library := Library.empty.register ticker

/-- The expression `TICK()`. -/
def tick : Expression := .call 0 "TICK" []

/-- The parts of a call without arguments. -/
def callOfNothing? : Expression → Option (Nat × String)
  | .call p name [] => some (p, name)
  | _ => none

/-- A sheet with the formula `TICK()` in `A1`. -/
def ticking (library : Library) : Sheet :=
  { Sheet.empty {} library default with
    store := Store.setFormula {} ⟨0, 0⟩ "TICK()"
    graph := Graph.install {} ⟨0, 0⟩ (.formula tick) (.ofExpression ∅ "Sheet1" tick) }

theorem eq_call_of_callOfNothing? {e : Expression} {p : Nat} {name : String}
    (h : callOfNothing? e = some (p, name)) : e = .call p name [] := by
  unfold callOfNothing? at h
  split at h
  · cases h
    rfl
  · cases h

theorem parse_tick : (Formula.parse (.ofDecimal .period) "TICK()").toExcept = .ok tick := by
  have hcall : (Formula.parse (.ofDecimal .period) "TICK()").toExcept.toOption.bind callOfNothing? =
      some (0, "TICK") := by
    decide +kernel
  exact eq_ok_of_bind hcall fun _ => eq_call_of_callOfNothing?

theorem setFormula_ticking (library : Library) :
    (Sheet.empty {} library default).setFormula ⟨0, 0⟩ "TICK()" = .ok (ticking library) := by
  simp only [setFormula, Environment.parse, Environment.locale, Sheet.empty, parse_tick]
  cbv

theorem attained_ticking (library : Library) : (ticking library).Attained False :=
  .setFormula (.empty {} library default nofun) (setFormula_ticking library)

theorem passes_ticking : (ticking tickers).recalculate.1.truncated = false ∧
    (ticking tickers).recalculate.2.recalculate.1.truncated = false ∧
    (ticking tickers).recalculate.2.graph.volatiles = [0] := by
  cbv

theorem passes_fed (library : Library) : (fed library).recalculate.1.truncated = false ∧
    (fed library).recalculate.2.recalculate.1.truncated = false ∧
    (fed library).recalculate.2.graph.volatiles = [] := by
  cbv

/-- A volatile cell is settled by each pass, and a sheet without one is left alone. -/
theorem revisits_recalculate_ticking :
    ((ticking tickers).Attained False ∧ (ticking tickers).recalculate.1.truncated = false ∧
      (ticking tickers).recalculate.2.recalculate.1.truncated = false ∧
      ∃ settled, (ticking tickers).recalculate.2.Revisits False settled ∧ 0 ∈ settled) ∧
    (fed .standard).Attained True ∧ (fed .standard).recalculate.1.truncated = false ∧
      (fed .standard).recalculate.2.recalculate.1.truncated = false ∧
      (fed .standard).recalculate.2.Revisits True [] := by
  constructor
  · obtain ⟨hcut, hcut', hvolatiles⟩ := passes_ticking
    obtain ⟨moments, p, -, -, hrevisits⟩ := (attained_ticking tickers).revisits_recalculate hcut hcut'
    refine ⟨attained_ticking tickers, hcut, hcut', _, hrevisits, ?_⟩
    rw [hrevisits.mem_iff, hvolatiles]
    exact ⟨0, List.mem_singleton_self 0, .refl⟩
  · have hfed : (fed .standard).Attained True := reached_fed.attained
    obtain ⟨hcut, hcut', hvolatiles⟩ := passes_fed .standard
    obtain ⟨moments, p, -, -, hrevisits⟩ := hfed.revisits_recalculate hcut hcut'
    have hnone := hrevisits.mem_iff
    simp only [hvolatiles, List.not_mem_nil, false_and, exists_false, iff_false] at hnone
    rw [List.eq_nil_iff_forall_not_mem.2 hnone] at hrevisits
    exact ⟨hfed, hcut, hcut', hrevisits⟩

end Spreadsheet.Sheet
