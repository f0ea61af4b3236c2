import Std.Data.TreeMap.Lemmas
import Spreadsheet.Function.Standard
import Spreadsheet.Proofs.Evaluation.Follows

/-!
What the standard functions read. All of them but `INDIRECT` give their values for their arguments and
the present time, whatever the cells of the sheet hold; `INDIRECT` reads the areas that it refers to.
-/

namespace Spreadsheet

namespace Function

variable {M : Simulation.Model → Simulation.Model → Prop} {T : Clock → Clock → Prop}

/-- A function without effects that reads no cell, and not the time unless it is volatile. -/
def IsPure (f : Function) : Prop :=
  ∃ g : Clock → List Value → Value, (∀ site vs, f.apply site vs = pure (g site.clock vs)) ∧
    (f.volatile = false → ∀ clock clock', g clock' = g clock)

@[simp] theorem isPure_plain (name : String) (parameters : List Parameter) (g : List Value → Value)
    (description : String) : (plain name parameters g description).IsPure :=
  ⟨fun _ vs => g vs, fun _ _ => rfl, fun _ _ _ => rfl⟩

theorem isPure_statistics : ∀ f ∈ statistics, f.IsPure := by
  simp [statistics]

theorem isPure_arithmetic : ∀ f ∈ arithmetic, f.IsPure := by
  simp [arithmetic]

theorem isPure_logic : ∀ f ∈ logic, f.IsPure := by
  simp [logic]

theorem isPure_tables : ∀ f ∈ tables, f.IsPure := by
  simp [tables]

theorem isPure_information : ∀ f ∈ information, f.IsPure := by
  simp [information]

theorem isPure_texts : ∀ f ∈ texts, f.IsPure := by
  simp [texts]

theorem isPure_complexNumbers : ∀ f ∈ complexNumbers, f.IsPure := by
  simp [complexNumbers, complexFunction]

theorem isPure_elementary : ∀ f ∈ elementary, f.IsPure := by
  simp [elementary, constant, unaryFunction, binaryFunction]

theorem isPure_calendar : ∀ f ∈ calendar, f.IsPure := by
  simp only [calendar, dateFunction, List.forall_mem_cons, isPure_plain, true_and]
  exact ⟨⟨fun clock _ => .number clock.now, fun _ _ => rfl, nofun⟩,
    ⟨fun clock _ => .number (clock.midnight + 0.5), fun _ _ => rfl, nofun⟩, by simp⟩

theorem isPure_widgets : ∀ f ∈ widgets, f.IsPure := by
  simp only [widgets, plot, List.forall_mem_cons]
  exact ⟨⟨fun _ vs => .text (argument vs 0).toText, fun _ _ => rfl, fun _ _ _ => rfl⟩,
    ⟨fun _ vs => .boolean (isTrue (argument vs 0)), fun _ _ => rfl, fun _ _ _ => rfl⟩,
    ⟨fun _ _ => .undefined, fun _ _ => rfl, fun _ _ _ => rfl⟩,
    ⟨fun _ _ => .undefined, fun _ _ => rfl, fun _ _ _ => rfl⟩, by simp⟩

/-! ### What functions do for stores that agree -/

theorem IsPure.follows {f : Function} (hf : f.IsPure) (site : CallSite) (store' : Store) {clock' : Clock}
    (hclock : f.volatile = false ∨ clock' = site.clock) (vs : List Value) (P : Area → Prop) :
    Follows (effectsSideBySide M) P (f.apply site vs) (f.apply { site with store := store', clock := clock' } vs) := by
  obtain ⟨g, hg, htime⟩ := hf
  have hsame : g clock' = g site.clock := by
    rcases hclock with hvolatile | hclock
    · exact htime hvolatile _ _
    · rw [hclock]
  rw [hg, hg]
  exact .pure_of_eq (congrFun hsame vs)

/-- A function that reads no cell is local. If it is volatile, then only for the same time, and if it is volatile in
simulations or asks for samples, then only for the same model. -/
theorem IsPure.isLocal {f : Function} (hf : f.IsPure)
    (hmodel : (∀ m m', M m m' → m' = m) ∨
      f.volatileInSimulation = false ∧ ¬∃ i, f.passing i = .samples)
    (hclock : f.volatile = false ∨ ∀ t t', T t t' → t' = t) : f.Local M T where
  volatile m m' h := by
    rcases hmodel with heq | ⟨hvolatile, -⟩
    · rw [heq m m' h]
    · simp [isVolatile, hvolatile]
  samples hsamples m m' h := by
    rcases hmodel with heq | ⟨-, hnone⟩
    · exact heq m m' h
    · exact absurd hsamples hnone
  apply site store' clock' vs ht := hf.follows site store' (hclock.imp_right fun h => h _ _ ht) vs _

/-- Related models draw the same number and stay related. -/
def DrawsAlike (M : Simulation.Model → Simulation.Model → Prop) : Prop :=
  ∀ m m', M m m' → m'.random.1 = m.random.1 ∧ M m.random.2 m'.random.2

theorem drawsAlike_eq : DrawsAlike Eq := by
  rintro m _ rfl
  exact ⟨rfl, rfl⟩

theorem follows_random (hM : DrawsAlike M) (P : Area → Prop) :
    Follows (effectsSideBySide M) P Action.random Action.random where
  grows _ := List.Subset.refl _
  grows' _ := List.Subset.refl _
  agrees e e' he _ := by
    obtain ⟨hvalue, hmodel⟩ := hM _ _ he.2
    exact ⟨hvalue, he.1, hmodel⟩

theorem follows_ofTwoNumbersM {view : SideBySide Effects} {P : Area → Prop} {f f' : Float → Float → Action Value}
    (hf : ∀ x y, Follows view P (f x y) (f' x y)) (vs : List Value) :
    Follows view P (ofTwoNumbersM f vs) (ofTwoNumbersM f' vs) := by
  refine .elementwiseM (fun xs => ?_) _
  split
  · exact hf _ _
  · exact .pure _

theorem follows_between (hM : DrawsAlike M) (P : Area → Prop) (x y : Float) :
    Follows (effectsSideBySide M) P (between x y) (between x y) :=
  (follows_random hM P).bind fun _ => .pure _

/-- Functions that draw random numbers read no cell and not the time. -/
theorem follows_randomNumbers (hM : DrawsAlike M) (P : Area → Prop) : ∀ f ∈ randomNumbers,
    ∀ (site : CallSite) (store' : Store) (clock' : Clock) (vs : List Value), Follows (effectsSideBySide M) P
      (f.apply site vs) (f.apply { site with store := store', clock := clock' } vs) := by
  simp only [randomNumbers, List.forall_mem_cons]
  refine ⟨fun _ _ _ _ => ?_, fun _ _ _ vs => ?_, fun _ _ _ vs => ?_, fun _ _ _ _ => .pure _, by simp⟩
  · exact (follows_random hM P).bind fun _ => .pure _
  · exact follows_ofTwoNumbersM (follows_between hM P) vs
  · exact follows_ofTwoNumbersM (follows_between hM P) vs

/-- Functions that draw random numbers are local: equal models give equal numbers. -/
theorem isLocal_randomNumbers : ∀ f ∈ randomNumbers, f.Local Eq Eq := fun f hf =>
  ⟨fun m m' h => by rw [h], fun _ _ _ h => h.symm, fun site store' clock' vs _ =>
    follows_randomNumbers drawsAlike_eq _ f hf site store' clock' vs⟩

theorem ordered_of_areaOfText? {text : String} {a : Area} (h : areaOfText? text = some a) : a.Ordered := by
  unfold areaOfText? at h
  obtain ⟨first, -, h⟩ := Option.bind_eq_some_iff.1 h
  split at h
  · obtain ⟨last, -, h⟩ := Option.bind_eq_some_iff.1 h
    cases h
    exact Area.ordered_between _ _
  · cases h
    exact Area.ordered_between _ _

/-- What is read of an area that is referred to is the same in stores that agree on it. -/
theorem follows_readText (site : CallSite) (store' : Store) (clock' : Clock) (text : String) :
    Follows (effectsSideBySide M) (site.store.AgreeOn store') (readText site text)
      (readText { site with store := store', clock := clock' } text) := by
  unfold readText
  cases harea : areaOfText? text with
  | none => exact .pure _
  | some a =>
    by_cases hsheet : a.first.isOnSheet site.sheet = true
    · simp only [hsheet, if_true]
      refine ⟨fun e => List.subset_append_left _ _, fun e => List.subset_append_left _ _, fun e e' he hP => ?_⟩
      have hlast (as : List Area) : a ∈ as ++ [a] := List.mem_append_right _ (List.mem_singleton.2 rfl)
      have hagree : site.store.AgreeOn store' a := hP a (hlast _) (hlast _)
      have hread := Store.readArea?_congr (ordered_of_areaOfText? harea) hagree
      refine ⟨congrArg (fun v => v.getD (.ofCode .ref)) hread, ?_, he.2⟩
      exact congrArg (· ++ [a]) he.1
    · simp only [hsheet, Bool.false_eq_true, if_false]
      exact .pure _

theorem follows_indirect (site : CallSite) (store' : Store) (clock' : Clock) (vs : List Value) :
    Follows (effectsSideBySide M) (site.store.AgreeOn store')
      (elementwiseM (fun xs => readText site (argument xs 0).toText) (vs.take 1))
      (elementwiseM (fun xs => readText { site with store := store', clock := clock' } (argument xs 0).toText)
        (vs.take 1)) :=
  .elementwiseM (fun _ => follows_readText site store' clock' _) _

/-- An argument is passed by its value, or as one of the parameters says. -/
theorem exists_parameter {f : Function} {i : Nat} (h : f.passing i ≠ .value) :
    ∃ p ∈ f.parameters, f.passing i = p.passing := by
  unfold passing at h ⊢
  cases hp : f.parameter? i with
  | none => exact absurd (by rw [hp]; rfl) h
  | some p =>
    refine ⟨p, ?_, rfl⟩
    unfold parameter? at hp
    split at hp
    · rename_i hi
      cases hp
      exact List.mem_of_getElem? hi
    · exact List.mem_of_getLast? hp

theorem passing_eq_value {f : Function} (h : ∀ p ∈ f.parameters, p.passing = .value) (i : Nat) :
    f.passing i = .value := by
  refine Decidable.byContradiction fun hne => ?_
  obtain ⟨p, hp, hi⟩ := exists_parameter hne
  exact hne (hi.trans (h p hp))

theorem isLocal_indirect : ∀ f ∈ indirect, f.Local M T := by
  simp only [indirect, List.forall_mem_cons]
  refine ⟨⟨fun _ _ _ => rfl, ?_, fun site store' clock' vs _ => follows_indirect site store' clock' vs⟩, by simp⟩
  rintro ⟨i, hi⟩
  rw [passing_eq_value (by simp)] at hi
  cases hi

end Function

/-! ### The standard library -/

namespace Library

theorem mem_of_register {l : Library} {f g : Function} {key : String}
    (h : (l.register f).functions[key]? = some g) : l.functions[key]? = some g ∨ g = f := by
  unfold register register? at h
  simp only at h
  split at h
  · exact .inl h
  · rw [Option.getD_some, Std.TreeMap.getElem?_insert] at h
    split at h
    · exact .inr (Option.some.inj h).symm
    · exact .inl h

theorem mem_of_registerAll {l : Library} {fs : List Function} {g : Function} {key : String}
    (h : (l.registerAll fs).functions[key]? = some g) : l.functions[key]? = some g ∨ g ∈ fs := by
  induction fs generalizing l with
  | nil => exact .inl h
  | cons f fs ih =>
    rcases ih h with h | h
    · rcases mem_of_register h with h | rfl
      · exact .inl h
      · exact .inr List.mem_cons_self
    · exact .inr (List.mem_cons_of_mem _ h)

theorem mem_of_foldl_registerAll {l : Library} {fss : List (List Function)} {g : Function} {key : String}
    (h : (fss.foldl registerAll l).functions[key]? = some g) :
    l.functions[key]? = some g ∨ ∃ fs ∈ fss, g ∈ fs := by
  induction fss generalizing l with
  | nil => exact .inl h
  | cons fs fss ih =>
    rcases ih h with h | ⟨fs', hfs, h⟩
    · rcases mem_of_registerAll h with h | h
      · exact .inl h
      · exact .inr ⟨fs, List.mem_cons_self, h⟩
    · exact .inr ⟨fs', List.mem_cons_of_mem _ hfs, h⟩

theorem functions_addAlias (l : Library) (name target : String) :
    (l.addAlias name target).functions = l.functions := by
  unfold addAlias addAlias?
  simp only
  split <;> rfl

/-- What the standard library finds is in one of its lists. -/
theorem mem_of_find?_standard {name : String} {f : Function} (h : standard.find? name = some f) :
    ∃ fs ∈ [Function.statistics, Function.arithmetic, Function.logic, Function.tables, Function.calendar,
      Function.information, Function.texts, Function.widgets, Function.complexNumbers, Function.randomNumbers,
      Function.indirect, Function.elementary], f ∈ fs := by
  have hkey : ∃ key : String, standard.functions[key]? = some f := by
    unfold find? at h
    simp only at h
    split at h <;> exact ⟨_, h⟩
  obtain ⟨key, hkey⟩ := hkey
  rw [standard, functions_addAlias] at hkey
  rcases mem_of_foldl_registerAll hkey with hempty | hmem
  · simp [Library.empty] at hempty
  · exact hmem

/-- These names find the functions that bear them. -/
theorem name_find?_standard : ∀ key ∈ ["INDIRECT", "MOD", "POWER"],
    Text.upper key = key ∧ (standard.find? key).map Function.name = some key := by decide +kernel

/-- What the standard library finds is pure, draws random numbers or is `INDIRECT`. -/
theorem standard_cases {name : String} {f : Function} (h : standard.find? name = some f) :
    f.IsPure ∨ f ∈ Function.randomNumbers ∨ f ∈ Function.indirect := by
  obtain ⟨fs, hfs, hf⟩ := mem_of_find?_standard h
  simp only [List.mem_cons, List.not_mem_nil, or_false] at hfs
  rcases hfs with rfl | rfl | rfl | rfl | rfl | rfl | rfl | rfl | rfl | rfl | rfl | rfl
  · exact .inl (Function.isPure_statistics f hf)
  · exact .inl (Function.isPure_arithmetic f hf)
  · exact .inl (Function.isPure_logic f hf)
  · exact .inl (Function.isPure_tables f hf)
  · exact .inl (Function.isPure_calendar f hf)
  · exact .inl (Function.isPure_information f hf)
  · exact .inl (Function.isPure_texts f hf)
  · exact .inl (Function.isPure_widgets f hf)
  · exact .inl (Function.isPure_complexNumbers f hf)
  · exact .inr (.inl hf)
  · exact .inr (.inr hf)
  · exact .inl (Function.isPure_elementary f hf)

/-- All standard functions are local. -/
theorem isLocal_standard {name : String} {f : Function} (h : standard.find? name = some f) :
    f.Local Eq Eq := by
  rcases standard_cases h with hf | hf | hf
  · exact hf.isLocal (.inl fun _ _ h => h.symm) (.inr fun _ _ h => h.symm)
  · exact Function.isLocal_randomNumbers f hf
  · exact Function.isLocal_indirect f hf

end Library

end Spreadsheet
