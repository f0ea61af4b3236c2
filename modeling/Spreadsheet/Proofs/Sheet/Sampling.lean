import Spreadsheet.Proofs.Sheet.Evolves
import Spreadsheet.Proofs.Simulation.Pack
import Spreadsheet.Proofs.Simulation.Record

/-!
Simulations from their start to their end. The preparing pass decides which cells are sampled; from then on every trial
records one sample of each of them, whatever is done to the sheet between the trials, and in the end the samples are
given as one list of numbers.
-/

namespace Spreadsheet.Sheet

open Spreadsheet.Graph
open Spreadsheet.Simulation (Model Samples recorded recorded_nil size_recorded getElem?_recorded setSample_recorded)

variable {s s' s₀ : Sheet} {sheets : List Sheet} {n : Nat} {tally : Tally} {uncut : Prop}

/-! ### Between trials -/

/-- What can happen to a sheet between the trials of a simulation: edits, passes, formulas that are tried out, cells
that are drawn or clicked, and time. The simulation is not ended or started anew, and no samples are loaded. -/
inductive Interlude : Sheet → Sheet → Prop
  | setValue {s s' : Sheet} {p : Position} {v : Value} (hs : s.setValue p v = .ok s') : Interlude s s'
  | setFormula {s s' : Sheet} {p : Position} {text : String} (hs : s.setFormula p text = .ok s') : Interlude s s'
  | setInput {s s' : Sheet} {p : Position} {text : String} (hs : s.setInput p text = .ok s') : Interlude s s'
  | setArray {s s' : Sheet} {a : Area} {text : String} (hs : s.setArray a text = .ok s') : Interlude s s'
  | clear {s s' : Sheet} {p : Position} (hs : s.clear p = .ok s') : Interlude s s'
  | defineName (s : Sheet) (name : String) (a : Area) : Interlude s (s.defineName name a)
  | removeName {s s' : Sheet} {name : String} (hs : s.removeName? name = some s') : Interlude s s'
  | insert {s s' : Sheet} {x : Axis} {start count : Nat} (hs : s.insert x start count = .ok s') : Interlude s s'
  | delete {s s' : Sheet} {x : Axis} {start count : Nat} (hs : s.delete x start count = .ok s') : Interlude s s'
  | rebuild (s : Sheet) : Interlude s s.rebuild
  | recalculate (s : Sheet) : Interlude s s.recalculate.2
  | evaluate {s s' : Sheet} {p : Position} {text : String} {v : Value} (hs : s.evaluate text p = .ok (v, s')) :
    Interlude s s'
  | render (s : Sheet) (p : Position) : Interlude s (s.render p).2
  | click (s : Sheet) (p : Position) : Interlude s (s.click p).2
  | elapse (s : Sheet) (clock : Clock) : Interlude s { s with clock }

/-- Whatever happens between trials, functions are not exchanged and the simulation only draws random numbers. -/
theorem Interlude.evolves (h : Interlude s s') (hlibrary : s.library.Sparing) :
    s'.library = s.library ∧ s.model.Evolves (fun _ => True) s'.model := by
  have hkept {t t' : Sheet} (ht : t'.apparatus = t.apparatus) :
      t'.library = t.library ∧ t.model.Evolves (fun _ => True) t'.model := by
    obtain ⟨hsame, hmodel⟩ := Prod.mk.inj ht
    exact ⟨hsame, hmodel ▸ refl_of _ _⟩
  cases h with
  | setValue hs => exact hkept (apparatus_setValue hs)
  | setFormula hs => exact hkept (apparatus_setFormula hs)
  | setInput hs => exact hkept (apparatus_setInput hs)
  | setArray hs => exact hkept (apparatus_setArray hs)
  | clear hs => exact hkept (apparatus_clear hs)
  | defineName name a => exact hkept (apparatus_rebuild _)
  | removeName hs => exact hkept (apparatus_removeName? hs)
  | insert hs => exact hkept (apparatus_insert hs)
  | delete hs => exact hkept (apparatus_delete hs)
  | rebuild => exact hkept (apparatus_rebuild _)
  | recalculate => exact ⟨rfl, evolves_recalculate hlibrary⟩
  | evaluate hs => exact evolves_evaluate hlibrary hs
  | render p => exact evolves_runHook hlibrary p _
  | click p => exact evolves_runHook hlibrary p _
  | elapse clock => exact hkept rfl

/-- The sheets right after the passes of the trials of a simulation, and the sheet at some later moment, from the sheet
at its beginning. -/
inductive Sampling (s₀ : Sheet) : List Sheet → Sheet → Prop
  | begin : Sampling s₀ [] s₀
  | interlude {sheets : List Sheet} {s s' : Sheet} (h : Sampling s₀ sheets s) (hs : Interlude s s') :
    Sampling s₀ sheets s'
  | trial {sheets : List Sheet} {s s' : Sheet} {tally : Tally} (h : Sampling s₀ sheets s)
    (hs : s.runTrial = .ok (tally, s')) : Sampling s₀ (sheets ++ [s.recalculate.2]) s'

/-! ### What a simulation keeps -/

/-- The samples that are due for a cell, given the sheets right after the passes of the trials. -/
def samplesOf (sheets : List Sheet) (p : Position) : List Float := sheets.map fun t => Model.sampleOf (t.read p)

/-- What holds of a running simulation: for each cell that was registered there are the samples of all trials. -/
structure Sampled (registered : Samples) (n : Nat) (sheets : List Sheet) (s : Sheet) : Prop where
  library : s.library.Sparing
  phase : s.model.phase = .running
  iteration : s.model.iteration = sheets.length
  samples : ∀ p : Position, s.model.samples[p]? = (registered[p]?).map fun _ => recorded n (samplesOf sheets p)

/-- A model that draws random numbers keeps what has been recorded. -/
theorem Sampled.evolve {registered : Samples} (h : s.Sampled registered n sheets) (hlibrary : s'.library = s.library)
    (hmodel : s.model.Evolves (fun _ => True) s'.model) : s'.Sampled registered n sheets where
  library := hlibrary ▸ h.library
  phase := hmodel.phase.trans h.phase
  iteration := hmodel.iteration.trans h.iteration
  samples p := (hmodel.samples_eq (by rw [h.phase]; nofun) p).trans (h.samples p)

/-- The sheet at the end of a trial, from the sheet after its pass. -/
def recordTrial (s : Sheet) : Sheet :=
  { s with
    model :=
      { s.model.watched.foldl (fun m p => m.record p s.model.iteration (s.read p)) s.model with
        iteration := s.model.iteration + 1 } }

theorem runTrial_eq (h : s.model.phase = .running) :
    s.runTrial = .ok (s.recalculate.1, s.recalculate.2.recordTrial) :=
  if_pos h

/-- A trial records one more sample of each registered cell. -/
theorem Sampled.recordTrial {registered : Samples} (h : s.Sampled registered n sheets) :
    s.recordTrial.Sampled registered n (sheets ++ [s]) := by
  refine ⟨h.library, ?_, ?_, fun p => ?_⟩
  · rw [Sheet.recordTrial, Model.records_eq]
    exact h.phase
  · rw [List.length_append, ← h.iteration]
    rfl
  · have hlength : s.model.iteration = (samplesOf sheets p).length := by
      rw [h.iteration, samplesOf, List.length_map]
    have hsamples : samplesOf (sheets ++ [s]) p = samplesOf sheets p ++ [Model.sampleOf (s.read p)] := List.map_append
    refine (Model.getElem?_records_watched s.model s.model.iteration p).trans ?_
    rw [h.samples p, Option.map_map, hsamples, ← setSample_recorded, hlength, Function.comp_def]

theorem Sampled.runTrial {registered : Samples} (h : s.Sampled registered n sheets)
    (hs : s.runTrial = .ok (tally, s')) : s'.Sampled registered n (sheets ++ [s.recalculate.2]) := by
  rw [runTrial_eq h.phase] at hs
  cases hs
  have hpass : s.recalculate.2.Sampled registered n sheets := h.evolve rfl (evolves_recalculate h.library)
  exact hpass.recordTrial

theorem Sampling.sampled {registered : Samples} (h : Sampling s₀ sheets s) (hstart : s₀.Sampled registered n []) :
    s.Sampled registered n sheets := by
  induction h with
  | begin => exact hstart
  | interlude _ hs ih =>
    obtain ⟨hlibrary, hmodel⟩ := hs.evolves ih.library
    exact ih.evolve hlibrary hmodel
  | trial _ hs ih => exact ih.runTrial hs

/-! ### The preparing pass -/

/-- The preparing pass registers cells on the sheet, each with the planned number of zeros. -/
theorem Kept.prepared (h : s.Kept uncut) (hlibrary : s.library.Sparing) {p : Position} {xs : Array Float}
    (hxs : (s.preparing n).recalculate.2.model.samples[p]? = some xs) :
    p.OnSheet ∧ xs = Array.replicate n 0 := by
  have hpreparing : (s.preparing n).Kept uncut := h.markFormulas.elapse s.clock (s.preparing n).model
  have hevolves := Sheet.Kept.evolves_recalculate hpreparing hlibrary
  rcases hevolves.samples p with hp | ⟨-, hcell, -, hp⟩
  · rw [hxs] at hp
    have hempty : (s.preparing n).model.samples[p]? = none := Std.TreeMap.getElem?_emptyc
    rw [hempty] at hp
    cases hp
  · rw [hxs] at hp
    exact ⟨hcell, Option.some.inj hp⟩

theorem startSimulation_eq (hstart : s.startSimulation n = (.ok tally, s₀)) :
    s₀ = { (s.preparing n).recalculate.2 with
      model := { (s.preparing n).recalculate.2.model with phase := .running } } := by
  unfold startSimulation at hstart
  simp only at hstart
  split at hstart
  · exact (congrArg Prod.snd hstart).symm
  · cases hstart

/-- A simulation that has been started is running, and nothing has been recorded. -/
theorem Kept.started (h : s.Kept uncut) (hlibrary : s.library.Sparing)
    (hstart : s.startSimulation n = (.ok tally, s₀)) :
    s₀.Sampled (s.preparing n).recalculate.2.model.samples n [] := by
  have hevolves := Sheet.evolves_recalculate (s := s.preparing n) hlibrary
  obtain rfl := startSimulation_eq hstart
  refine ⟨hlibrary, rfl, hevolves.iteration, fun p => ?_⟩
  cases hp : (s.preparing n).recalculate.2.model.samples[p]? with
  | none => rfl
  | some xs =>
    obtain ⟨-, rfl⟩ := h.prepared hlibrary hp
    rw [Option.map_some, samplesOf, List.map_nil, recorded_nil]

/-! ### The end -/

/-- Samples of cells on the sheet can be packed if they are not too many. -/
theorem Sampled.packable {registered : Samples} (h : s.Sampled registered n sheets)
    (hregistered : ∀ (p : Position) (xs : Array Float), registered[p]? = some xs → p.OnSheet) (hn : n < 2 ^ 32)
    (hk : sheets.length < 2 ^ 32) : s.model.samples.Packable := by
  intro p xs hxs
  rw [h.samples p] at hxs
  obtain ⟨ys, hys, rfl⟩ := Option.map_eq_some_iff.1 hxs
  obtain ⟨hrow, hcolumn⟩ := hregistered p ys hys
  rw [size_recorded, samplesOf, List.length_map]
  exact ⟨hrow.trans_lt (by decide), hcolumn.trans_lt (by decide), max_lt hn hk⟩

theorem endSimulation_eq (h : s.model.phase = .running) :
    ∃ s', s.endSimulation = .ok (s.model.samples.pack, s') :=
  ⟨_, if_pos (by simp [Model.isActive, h])⟩

/-- Whether numbers are the samples of a cell: what it held right after the passes of the trials, in their order, and
zeros for trials that were planned and have not been run. -/
structure IsRecord (sheets : List Sheet) (n : Nat) (p : Position) (xs : Array Float) : Prop where
  size : xs.size = max n sheets.length
  sample : ∀ (i : Nat) (t : Sheet), sheets[i]? = some t → xs[i]? = some (Model.sampleOf (t.read p))
  rest : ∀ i : Nat, sheets.length ≤ i → i < n → xs[i]? = some 0

theorem Sampled.isRecord {registered : Samples} (h : s.Sampled registered n sheets) {p : Position} {xs : Array Float}
    (hxs : s.model.samples[p]? = some xs) : IsRecord sheets n p xs := by
  rw [h.samples p] at hxs
  obtain ⟨ys, -, rfl⟩ := Option.map_eq_some_iff.1 hxs
  have hlength : (samplesOf sheets p).length = sheets.length := List.length_map _
  refine ⟨by rw [size_recorded, hlength], fun i t ht => ?_, fun i hlow hhigh => ?_⟩
  · have hi : i < sheets.length := (List.getElem?_eq_some_iff.1 ht).1
    have hsample : (samplesOf sheets p)[i]? = some (Model.sampleOf (t.read p)) := by
      rw [samplesOf, List.getElem?_map, ht, Option.map_some]
    rw [getElem?_recorded, if_pos (by omega), List.getD_eq_getElem?_getD, hsample, Option.getD_some]
  · rw [getElem?_recorded, if_pos (by omega), List.getD_eq_default _ _ (by omega)]

/-- A function that takes the samples of a cell. -/
def sampler : Function :=
  Function.plain "SIMULATIONDATA" [{ name := "reference", passing := .samples }] fun vs => Function.argument vs 0

/-- The library with this function only. -/
def samplers : Library := Library.empty.register sampler

/-- A function that takes the samples of a cell and starts simulations anew while they are running. -/
def restarter : Function :=
  { name := "SIMULATIONDATA"
    parameters := [{ name := "reference", passing := .samples }]
    volatile := true
    apply := fun _ _ => modifyGet fun e =>
      (.undefined, if e.model.phase = .running then { e with model := e.model.start 0 } else e) }

/-- The library with this function only. -/
def restarters : Library := Library.empty.register restarter

/-- The expression `SIMULATIONDATA(A1)`. -/
def sampling : Expression := .call 0 "SIMULATIONDATA" [.cell ⟨{ row := some 0, column := some 0 }, "A1", 15⟩]

/-- The parts of a call whose only argument is a reference to a cell. -/
def callOfMention? : Expression → Option (Nat × String × Mention)
  | .call p name [.cell m] => some (p, name, m)
  | _ => none

/-- A sheet with an array of one number in `A1`. -/
def boxed (library : Library) : Sheet :=
  { Sheet.empty {} library default with
    store := Store.setValue {} ⟨0, 0⟩ (.array [[.number 7]])
    graph := (Graph.demote {} ⟨0, 0⟩).setDirty ⟨0, 0⟩ }

/-- The same sheet with a formula in `B1` that takes the samples of `A1`. -/
def watching (library : Library) : Sheet :=
  { boxed library with
    store := (boxed library).store.setFormula ⟨0, 1⟩ "SIMULATIONDATA(A1)"
    graph := (boxed library).graph.install ⟨0, 1⟩ (.formula sampling) (.ofExpression ∅ "Sheet1" sampling) }

/-- The same sheet when a simulation with one trial has been started. -/
def started (library : Library) : Sheet := ((watching library).startSimulation 1).2

/-- The same sheet after the trial. -/
def tried (library : Library) : Sheet := (started library).recalculate.2.recordTrial

theorem sparing_samplers : samplers.Sparing := fun name f hf => by
  have hkey : ∃ key : String, samplers.functions[key]? = some f := by
    unfold Library.find? at hf
    simp only at hf
    split at hf <;> exact ⟨_, hf⟩
  obtain ⟨key, hkey⟩ := hkey
  rcases Library.mem_of_register hkey with hempty | rfl
  · simp [Library.empty] at hempty
  · exact (Function.isPure_plain _ _ _ _).sparing

theorem eq_call_of_callOfMention? {e : Expression} {p : Nat} {name : String} {m : Mention}
    (h : callOfMention? e = some (p, name, m)) : e = .call p name [.cell m] := by
  unfold callOfMention? at h
  split at h
  · cases h
    rfl
  · cases h

theorem parse_sampling : (Formula.parse (.ofDecimal .period) "SIMULATIONDATA(A1)").toExcept = .ok sampling := by
  have hcall : (Formula.parse (.ofDecimal .period) "SIMULATIONDATA(A1)").toExcept.toOption.bind callOfMention? =
      some (0, "SIMULATIONDATA", ⟨{ row := some 0, column := some 0 }, "A1", 15⟩) := by
    decide +kernel
  exact eq_ok_of_bind hcall fun _ => eq_call_of_callOfMention?

section

variable (library : Library)

theorem setFormula_watching : (boxed library).setFormula ⟨0, 1⟩ "SIMULATIONDATA(A1)" = .ok (watching library) := by
  have hlocale : (boxed library).locale = .ofDecimal .period := rfl
  simp only [setFormula, Environment.parse, hlocale, parse_sampling]
  rfl

theorem attained_watching : (watching library).Attained False :=
  .setFormula (.setValue (.empty {} library default nofun) rfl) (setFormula_watching library)

theorem exists_start_watching (h : ((watching library).startSimulation 1).1.toOption.isSome = true) :
    ∃ tally, (watching library).startSimulation 1 = (.ok tally, started library) := by
  unfold started
  generalize (watching library).startSimulation 1 = answer at h
  obtain ⟨result, s⟩ := answer
  cases result with
  | error err => cases h
  | ok tally => exact ⟨tally, rfl⟩

/-- The simulation with one trial. -/
theorem sampling_started (hstart : ∃ tally, (watching library).startSimulation 1 = (.ok tally, started library)) :
    Sampling (started library) [(started library).recalculate.2] (tried library) := by
  obtain ⟨tally, hstart⟩ := hstart
  have hphase : (started library).model.phase = .running := by rw [startSimulation_eq hstart]
  exact .trial .begin (runTrial_eq hphase)

end

theorem start_samplers : ∃ tally, (watching samplers).startSimulation 1 = (.ok tally, started samplers) :=
  exists_start_watching _ (by cbv)

theorem start_restarters : ∃ tally, (watching restarters).startSimulation 1 = (.ok tally, started restarters) :=
  exists_start_watching _ (by cbv)

theorem sampling_samplers :
    Sampling (started samplers) [(started samplers).recalculate.2] (tried samplers) :=
  sampling_started _ start_samplers

theorem sampling_restarters :
    Sampling (started restarters) [(started restarters).recalculate.2] (tried restarters) :=
  sampling_started _ start_restarters

theorem trial_samplers : (started samplers).recalculate.2.read ⟨0, 0⟩ = .array [[.number 7]] ∧
    (tried samplers).model.samples[(⟨0, 0⟩ : Position)]? = some #[7] := by
  cbv

theorem trial_restarters :
    (((watching restarters).preparing 1).recalculate.2.model.samples[(⟨0, 0⟩ : Position)]?).isSome = true ∧
      (tried restarters).model.samples[(⟨0, 0⟩ : Position)]? = none := by
  cbv

end Spreadsheet.Sheet
