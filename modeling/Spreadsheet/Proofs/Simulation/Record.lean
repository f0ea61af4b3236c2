import Mathlib
import Spreadsheet.Simulation.Model

/-!
Recorded samples. Each trial records one sample of each registered cell behind those of the trials before it; a list
has zeros up to the planned number of trials and grows when there are more.
-/

namespace Spreadsheet.Simulation

variable {n : Nat} {xs : List Float}

/-- The samples of a cell for which a number of trials has been planned: those that have been recorded, and zeros in
the places that are left. -/
def recorded (n : Nat) (xs : List Float) : Array Float := xs.toArray ++ Array.replicate (n - xs.length) 0

theorem recorded_nil (n : Nat) : recorded n [] = Array.replicate n 0 := by
  simp [recorded]

theorem size_recorded (n : Nat) (xs : List Float) : (recorded n xs).size = max n xs.length := by
  rw [recorded, Array.size_append, List.size_toArray, Array.size_replicate]
  omega

theorem getElem?_recorded (n : Nat) (xs : List Float) (i : Nat) :
    (recorded n xs)[i]? = if i < max n xs.length then some (xs.getD i 0) else none := by
  rw [recorded, Array.getElem?_append, List.size_toArray, List.getElem?_toArray, Array.getElem?_replicate]
  by_cases hi : i < xs.length
  · simp [hi]
  · rw [if_neg hi, List.getD_eq_default _ _ (by omega)]
    exact if_congr (by omega) rfl rfl

/-- A sample is recorded in the place behind those before it. -/
theorem setSample_recorded (n : Nat) (xs : List Float) (x : Float) :
    Model.setSample (recorded n xs) xs.length x = recorded n (xs ++ [x]) := by
  have hsize := size_recorded n xs
  refine Array.ext_getElem? fun i => ?_
  rw [Model.setSample, Array.getElem?_setIfInBounds, Array.getElem?_append, Array.getElem?_replicate, getElem?_recorded,
    getElem?_recorded, Array.size_append, Array.size_replicate, hsize, List.length_append, List.length_singleton]
  rcases Nat.lt_trichotomy i xs.length with hi | rfl | hi
  · rw [if_neg (by omega), if_pos (by omega), if_pos (by omega), if_pos (by omega), List.getD_append _ _ _ _ hi]
  · rw [if_pos rfl, if_pos (by omega), if_pos (by omega), List.getD_append_right _ _ _ _ le_rfl]
    simp
  · rw [if_neg (by omega), List.getD_eq_default (xs ++ [x]) _ (by simp; omega), List.getD_eq_default xs _ (by omega)]
    by_cases hn : i < n
    · rw [if_pos (by omega), if_pos (by omega), if_pos (by omega)]
    · rw [if_neg (by omega), if_neg (by omega), if_neg (by omega)]

namespace Model

theorem record_eq (m : Model) (p : Position) (iteration : Nat) (v : Value) :
    m.record p iteration v = { m with samples := (m.record p iteration v).samples } := by
  unfold record
  split <;> rfl

theorem getElem?_record (m : Model) (p q : Position) (iteration : Nat) (v : Value) :
    (m.record p iteration v).samples[q]? =
      if p = q then (m.samples[q]?).map (setSample · iteration (sampleOf v)) else m.samples[q]? := by
  unfold record
  split
  · rename_i xs hxs
    rw [Std.TreeMap.getElem?_insert]
    simp only [Std.LawfulEqCmp.compare_eq_iff_eq]
    by_cases hp : p = q
    · subst hp
      simp [hxs]
    · simp [hp]
  · rename_i hnone
    by_cases hp : p = q
    · subst hp
      simp [hnone]
    · simp [hp]

variable {read : Position → Value} {ps : List Position}

theorem records_eq (m : Model) (iteration : Nat) :
    ps.foldl (fun m p => m.record p iteration (read p)) m =
      { m with samples := (ps.foldl (fun m p => m.record p iteration (read p)) m).samples } := by
  induction ps generalizing m with
  | nil => rfl
  | cons p ps ih =>
    rw [List.foldl_cons, ih, record_eq]

theorem getElem?_records (m : Model) (iteration : Nat) (hdistinct : ps.Nodup) (q : Position) :
    (ps.foldl (fun m p => m.record p iteration (read p)) m).samples[q]? =
      if q ∈ ps then (m.samples[q]?).map (setSample · iteration (sampleOf (read q))) else m.samples[q]? := by
  induction ps generalizing m with
  | nil => simp
  | cons p ps ih =>
    rw [List.nodup_cons] at hdistinct
    rw [List.foldl_cons, ih _ hdistinct.2, getElem?_record]
    by_cases hp : p = q
    · subst hp
      simp [hdistinct.1]
    · simp [hp, Ne.symm hp]

theorem nodup_watched (m : Model) : m.watched.Nodup :=
  Std.TreeMap.distinct_keys.imp fun hne heq => hne (Std.LawfulEqCmp.compare_eq_iff_eq.2 heq)

/-- A trial records a sample of every registered cell. -/
theorem getElem?_records_watched (m : Model) (iteration : Nat) (q : Position) :
    (m.watched.foldl (fun m p => m.record p iteration (read p)) m).samples[q]? =
      (m.samples[q]?).map (setSample · iteration (sampleOf (read q))) := by
  rw [getElem?_records m iteration m.nodup_watched]
  split
  · rfl
  · rename_i hq
    rw [watched, Std.TreeMap.mem_keys] at hq
    rw [Std.TreeMap.getElem?_eq_none hq]
    rfl

end Model

end Spreadsheet.Simulation
