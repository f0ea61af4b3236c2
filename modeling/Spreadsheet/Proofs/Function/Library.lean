import Mathlib
import Spreadsheet.Function.Standard

/-!
Libraries under any sequence of calls. Every call keeps the two tables of a library apart and keeps what it holds
already, so a name that has a meaning never gets another one, in whichever order functions and aliases come.
-/

namespace Spreadsheet

namespace Text

theorem toUpper_toUpper (c : Char) : c.toUpper.toUpper = c.toUpper := by
  by_cases hc : 'a'.val ≤ c.val ∧ c.val ≤ 'z'.val
  · have hupper : c.toUpper.val = c.val + ('A'.val - 'a'.val) := by rw [Char.toUpper, dif_pos hc]
    have hlow : ¬ 'a'.val ≤ c.toUpper.val := by
      obtain ⟨ha, hz⟩ := hc
      rw [hupper, UInt32.le_iff_toNat_le, UInt32.toNat_add]
      rw [UInt32.le_iff_toNat_le] at ha hz
      change 97 ≤ c.val.toNat at ha
      change c.val.toNat ≤ 122 at hz
      change ¬97 ≤ (c.val.toNat + 4294967264) % 4294967296
      omega
    rw [Char.toUpper.eq_1 c.toUpper, dif_neg fun h => hlow h.1]
  · have hupper : c.toUpper = c := by rw [Char.toUpper, dif_neg hc]
    rw [hupper, hupper]

@[simp] theorem upper_upper (s : String) : upper (upper s) = upper s := by
  rw [upper, toList_upper, List.map_map, Function.comp_def]
  simp only [toUpper_toUpper]
  rfl

end Text

namespace Library

/-- A call that adds something to a library. -/
inductive Call where
  /-- A function is to be found by its name. -/
  | register (f : Function)
  /-- A name is to stand for the function of another name. -/
  | addAlias (name target : String)

variable {l l' : Library} {c : Call} {calls : List Call} {f g : Function} {name target key : String}

/-- The library after a call that is granted. -/
def ask? (l : Library) : Call → Option Library
  | .register f => l.register? f
  | .addAlias name target => l.addAlias? name target

/-- The library after a call. -/
def perform (l : Library) : Call → Library
  | .register f => l.register f
  | .addAlias name target => l.addAlias name target

/-- The library after calls in the given order. -/
def performAll (l : Library) (calls : List Call) : Library :=
  calls.foldl perform l

theorem perform_eq (l : Library) (c : Call) : l.perform c = (l.ask? c).getD l := by
  cases c <;> rfl

theorem performAll_append (l : Library) (calls later : List Call) :
    l.performAll (calls ++ later) = (l.performAll calls).performAll later :=
  List.foldl_append

/-! ### What a call can do -/

theorem takes_iff : l.takes key = true ↔ key ∈ l.functions ∨ key ∈ l.aliases := by
  rw [takes, Bool.or_eq_true, Std.TreeMap.contains_iff_mem, Std.TreeMap.contains_iff_mem]

/-- A function is refused if its name is taken. -/
theorem register?_eq_none_iff : l.register? f = none ↔ l.contains f.name = true := by
  unfold register? contains
  simp

/-- An alias is refused if its name is taken or what it is to stand for is not the name of a function. -/
theorem addAlias?_eq_none_iff :
    l.addAlias? name target = none ↔ l.contains name = true ∨ Text.upper target ∉ l.functions := by
  unfold addAlias? contains
  simp only [ite_eq_left_iff, reduceCtorEq, imp_false, not_not, Bool.or_eq_true, Bool.not_eq_true',
    ← Bool.not_eq_true, Std.TreeMap.contains_iff_mem]

/-- A call that is granted puts one new key in one of the tables. -/
theorem ask?_cases (h : l.ask? c = some l') :
    (∃ f, c = .register f ∧ ¬l.takes (Text.upper f.name) = true ∧
      l' = { l with functions := l.functions.insert (Text.upper f.name) f }) ∨
    (∃ name target, c = .addAlias name target ∧ ¬l.takes (Text.upper name) = true ∧
      Text.upper target ∈ l.functions ∧
      l' = { l with aliases := l.aliases.insert (Text.upper name) (Text.upper target) }) := by
  cases c with
  | register f =>
    change l.register? f = some l' at h
    simp only [register?] at h
    split at h
    · cases h
    · rename_i hfree
      exact .inl ⟨f, rfl, hfree, (Option.some.inj h).symm⟩
  | addAlias name target =>
    change l.addAlias? name target = some l' at h
    simp only [addAlias?] at h
    split at h
    · cases h
    · rename_i hfree
      rw [Bool.or_eq_true, not_or] at hfree
      obtain ⟨hname, htarget⟩ := hfree
      rw [Bool.not_eq_true', Bool.not_eq_false, Std.TreeMap.contains_iff_mem] at htarget
      exact .inr ⟨name, target, rfl, hname, htarget, (Option.some.inj h).symm⟩

/-- What is kept by every call: the tables do not meet, aliases stand for functions, and all keys are in upper case. -/
structure Consistent (l : Library) : Prop where
  disjoint : ∀ key, key ∈ l.functions → key ∉ l.aliases
  target : ∀ key goal : String, l.aliases[key]? = some goal → goal ∈ l.functions
  upper : ∀ key, l.takes key = true → Text.upper key = key

theorem consistent_empty : empty.Consistent where
  disjoint key h := by simp [empty] at h
  target key goal h := by simp [empty] at h
  upper key h := by simp [empty, takes] at h

theorem Consistent.insertFunction (h : l.Consistent) (hfree : ¬l.takes (Text.upper f.name) = true) :
    { l with functions := l.functions.insert (Text.upper f.name) f }.Consistent := by
  rw [takes_iff, not_or] at hfree
  refine ⟨?_, ?_, ?_⟩
  · intro key hkey
    rcases Std.TreeMap.mem_insert.1 hkey with hkey | hkey
    · rw [← Std.compare_eq_iff_eq.1 hkey]
      exact hfree.2
    · exact h.disjoint key hkey
  · intro key goal hgoal
    exact Std.TreeMap.mem_insert.2 (.inr (h.target key goal hgoal))
  · intro key hkey
    rcases takes_iff.1 hkey with hkey | hkey
    · rcases Std.TreeMap.mem_insert.1 hkey with hkey | hkey
      · rw [← Std.compare_eq_iff_eq.1 hkey, Text.upper_upper]
      · exact h.upper key (takes_iff.2 (.inl hkey))
    · exact h.upper key (takes_iff.2 (.inr hkey))

theorem Consistent.insertAlias (h : l.Consistent) (hfree : ¬l.takes (Text.upper name) = true)
    (htarget : Text.upper target ∈ l.functions) :
    { l with aliases := l.aliases.insert (Text.upper name) (Text.upper target) }.Consistent := by
  rw [takes_iff, not_or] at hfree
  refine ⟨?_, ?_, ?_⟩
  · intro key hkey hother
    rcases Std.TreeMap.mem_insert.1 hother with hother | hother
    · rw [← Std.compare_eq_iff_eq.1 hother] at hkey
      exact hfree.1 hkey
    · exact h.disjoint key hkey hother
  · intro key goal hgoal
    rw [Std.TreeMap.getElem?_insert] at hgoal
    split at hgoal
    · cases hgoal
      exact htarget
    · exact h.target key goal hgoal
  · intro key hkey
    rcases takes_iff.1 hkey with hkey | hkey
    · exact h.upper key (takes_iff.2 (.inl hkey))
    · rcases Std.TreeMap.mem_insert.1 hkey with hkey | hkey
      · rw [← Std.compare_eq_iff_eq.1 hkey, Text.upper_upper]
      · exact h.upper key (takes_iff.2 (.inr hkey))

theorem Consistent.perform (h : l.Consistent) (c : Call) : (l.perform c).Consistent := by
  rw [perform_eq]
  cases hask : l.ask? c with
  | none => exact h
  | some l' =>
    rw [Option.getD_some]
    rcases ask?_cases hask with ⟨f, rfl, hfree, rfl⟩ | ⟨name, target, rfl, hfree, htarget, rfl⟩
    · exact h.insertFunction hfree
    · exact h.insertAlias hfree htarget

theorem Consistent.performAll (h : l.Consistent) (calls : List Call) : (l.performAll calls).Consistent := by
  induction calls generalizing l with
  | nil => exact h
  | cons c calls ih => exact ih (h.perform c)

/-! ### What names mean -/

/-- A name leads to the function of its own key or of the key that it stands for. -/
theorem find?_eq (l : Library) (name : String) :
    l.find? name = l.functions[(l.aliases[Text.upper name]?).getD (Text.upper name)]? := by
  unfold find?
  simp only
  split
  · rename_i halias
    rw [halias, Option.getD_some]
  · rename_i halias
    rw [halias, Option.getD_none]

theorem Consistent.isSome_find? (h : l.Consistent) (name : String) : (l.find? name).isSome = l.contains name := by
  rw [find?_eq, contains, takes, Std.TreeMap.contains_eq_isSome_getElem? (t := l.aliases)]
  cases halias : l.aliases[Text.upper name]? with
  | none =>
    rw [Option.getD_none, Option.isSome_none, Bool.or_false]
    exact Std.TreeMap.contains_eq_isSome_getElem?.symm
  | some goal =>
    rw [Option.getD_some, Option.isSome_some, Bool.or_true]
    exact Std.TreeMap.mem_iff_isSome_getElem?.1 (h.target _ goal halias)

/-- A call leaves the meaning of a name that has one. -/
theorem Consistent.find?_perform (h : l.Consistent) (hf : l.find? name = some f) (c : Call) :
    (l.perform c).find? name = some f := by
  have htaken : l.takes (Text.upper name) = true := by
    change l.contains name = true
    rw [← h.isSome_find?, hf]
    rfl
  rw [perform_eq]
  cases hask : l.ask? c with
  | none => exact hf
  | some l' =>
    rw [find?_eq] at hf
    rw [Option.getD_some, find?_eq]
    rcases ask?_cases hask with ⟨g, rfl, hfree, rfl⟩ | ⟨other, target, rfl, hfree, htarget, rfl⟩
    · rw [Std.TreeMap.getElem?_insert, if_neg]
      · exact hf
      · -- the new key is free, and the name leads to a key that is taken
        intro heq
        rw [Std.compare_eq_iff_eq.1 heq] at hfree
        refine hfree (takes_iff.2 (.inl ?_))
        exact Std.TreeMap.mem_iff_isSome_getElem?.2 (by rw [hf]; rfl)
    · rw [Std.TreeMap.getElem?_insert, if_neg]
      · exact hf
      · intro heq
        rw [Std.compare_eq_iff_eq.1 heq] at hfree
        exact hfree htaken

theorem Consistent.find?_performAll (h : l.Consistent) (hf : l.find? name = some f) (calls : List Call) :
    (l.performAll calls).find? name = some f := by
  induction calls generalizing l with
  | nil => exact hf
  | cons c calls ih => exact ih (h.perform c) (h.find?_perform hf c)

/-- A function that is registered is found by its name. -/
theorem find?_register (hfree : l.contains f.name = false) :
    (l.register f).find? f.name = some f := by
  have hkey : l.aliases[Text.upper f.name]? = none := by
    refine Std.TreeMap.getElem?_eq_none fun halias => ?_
    rw [contains, takes_iff.2 (.inr halias)] at hfree
    cases hfree
  have hgranted : l.register f = { l with functions := l.functions.insert (Text.upper f.name) f } := by
    rw [register, register?, if_neg]
    · rfl
    · rw [← contains, hfree]
      exact Bool.false_ne_true
  rw [find?_eq, hgranted, hkey, Option.getD_none, Std.TreeMap.getElem?_insert_self]

/-- An alias that is added is found as what it stands for. -/
theorem Consistent.find?_addAlias (h : l.Consistent) (hfree : l.contains name = false)
    (htarget : Text.upper target ∈ l.functions) : (l.addAlias name target).find? name = l.find? target := by
  have hkey : l.aliases[Text.upper target]? = none :=
    Std.TreeMap.getElem?_eq_none (h.disjoint _ htarget)
  have hgranted : l.addAlias name target =
      { l with aliases := l.aliases.insert (Text.upper name) (Text.upper target) } := by
    rw [addAlias, addAlias?, if_neg]
    · rfl
    · rw [← contains, hfree, Bool.false_or, Bool.not_eq_true', Bool.not_eq_false]
      exact Std.TreeMap.contains_iff_mem.2 htarget
  rw [find?_eq, find?_eq, hgranted, hkey, Option.getD_none, Std.TreeMap.getElem?_insert_self, Option.getD_some]

/-! ### The list of names -/

theorem mem_names : key ∈ l.names ↔ l.takes key = true := by
  rw [names, (List.mergeSort_perm _ _).mem_iff, List.mem_append, Std.TreeMap.mem_keys, Std.TreeMap.mem_keys,
    takes_iff]

theorem Consistent.nodup_names (h : l.Consistent) : l.names.Nodup := by
  refine (List.mergeSort_perm _ _).nodup_iff.2 ?_
  refine List.nodup_append.2 ⟨Std.TreeMap.nodup_keys, Std.TreeMap.nodup_keys, ?_⟩
  rintro key hkey _ hother rfl
  exact h.disjoint key (Std.TreeMap.mem_keys.1 hkey) (Std.TreeMap.mem_keys.1 hother)

/-- The names are listed in order, and each of them once. -/
theorem Consistent.pairwise_names (h : l.Consistent) : l.names.Pairwise (· < ·) := by
  have hsorted : l.names.Pairwise fun a b => (compare a b).isLE = true := by
    refine List.pairwise_mergeSort ?_ ?_ _
    · intro a b c hab hbc
      exact Std.TransCmp.isLE_trans hab hbc
    · intro a b
      have hswap : compare b a = (compare a b).swap := Std.OrientedCmp.eq_swap
      rw [hswap]
      cases compare a b <;> rfl
  refine (hsorted.and h.nodup_names).imp ?_
  rintro a b ⟨hle, hne⟩
  have hlt : compare a b = .lt := by
    cases hab : compare a b with
    | lt => rfl
    | eq => exact absurd (Std.compare_eq_iff_eq.1 hab) hne
    | gt =>
      rw [hab] at hle
      cases hle
  exact compareOfLessAndEq_eq_lt.mp hlt

/-! ### Any sequence of calls -/

/-- What holds after any calls on an empty library, whichever names collide in them. A function and an alias never
share a name, and aliases stand for functions. Names lead to functions by their letters alone, not by the case of
these, and just the names that are taken do; these are listed in order. A call that is refused changes nothing, and
one that is granted gives its name the function that it asks for. Later calls leave every meaning as it is. -/
theorem performAll_keeps_meanings (calls : List Call) : let l := empty.performAll calls
    (∀ key, ¬(key ∈ l.functions ∧ key ∈ l.aliases)) ∧
    (∀ key goal : String, l.aliases[key]? = some goal → goal ∈ l.functions) ∧
    (∀ name, (l.find? name).isSome = true ↔ l.contains name = true) ∧
    (∀ name name', Text.upper name = Text.upper name' →
      l.find? name = l.find? name' ∧ l.contains name = l.contains name') ∧
    l.names.Pairwise (· < ·) ∧
    (∀ key, key ∈ l.names ↔ Text.upper key = key ∧ l.contains key = true) ∧
    (∀ c, l.ask? c = none → l.perform c = l) ∧
    (∀ f, (l.register? f = none ↔ l.contains f.name = true) ∧
      (l.contains f.name = false → (l.register f).find? f.name = some f)) ∧
    (∀ name target, (l.addAlias? name target = none ↔
        l.contains name = true ∨ Text.upper target ∉ l.functions) ∧
      (l.contains name = false → Text.upper target ∈ l.functions →
        (l.addAlias name target).find? name = l.find? target)) ∧
    (∀ name f, l.find? name = some f → ∀ later, (l.performAll later).find? name = some f) := by
  intro l
  have h : l.Consistent := consistent_empty.performAll calls
  refine ⟨?_, h.target, ?_, ?_, h.pairwise_names, ?_, ?_, ?_, ?_, ?_⟩
  · rintro key ⟨hfunction, halias⟩
    exact h.disjoint key hfunction halias
  · intro name
    rw [h.isSome_find?]
  · intro name name' hupper
    rw [find?_eq, find?_eq, contains, contains, hupper]
    exact ⟨rfl, rfl⟩
  · intro key
    rw [mem_names]
    constructor
    · intro hkey
      have hupper : Text.upper key = key := h.upper key hkey
      refine ⟨hupper, ?_⟩
      rw [contains, hupper]
      exact hkey
    · rintro ⟨hupper, hkey⟩
      rw [contains, hupper] at hkey
      exact hkey
  · intro c hrefused
    rw [perform_eq, hrefused]
    rfl
  · intro f
    exact ⟨register?_eq_none_iff, find?_register⟩
  · intro name target
    exact ⟨addAlias?_eq_none_iff, h.find?_addAlias⟩
  · intro name f hf later
    exact h.find?_performAll hf later

/-! ### The standard library -/

theorem registerAll_eq_performAll (l : Library) (fs : List Function) :
    l.registerAll fs = l.performAll (fs.map .register) := by
  rw [registerAll, performAll, List.foldl_map]
  rfl

theorem foldl_registerAll_eq_performAll (l : Library) (fss : List (List Function)) :
    fss.foldl registerAll l = l.performAll (fss.flatten.map .register) := by
  induction fss generalizing l with
  | nil => rfl
  | cons fs fss ih =>
    rw [List.foldl_cons, ih, registerAll_eq_performAll, List.flatten_cons, List.map_append, performAll_append]

/-- The standard library is made by calls, too. -/
theorem exists_performAll_eq_standard : ∃ calls, empty.performAll calls = standard := by
  have hend (l : Library) : l.addAlias "MEAN" "AVERAGE" = l.performAll [.addAlias "MEAN" "AVERAGE"] := rfl
  rw [standard, foldl_registerAll_eq_performAll, hend, ← performAll_append]
  exact ⟨_, rfl⟩

theorem aliases_standard : standard.aliases["MEAN"]? = some "AVERAGE" ∧ standard.aliases["AVERAGE"]? = none ∧
    (standard.find? "average").isSome = true := by decide +kernel

/-- Functions that come later take neither the name of a standard function nor an alias of one. -/
theorem keeps_meanings_of_mean : ∃ f, standard.find? "average" = some f ∧
    (standard.performAll [.register (.plain "Mean" [] fun _ => .undefined),
      .register (.plain "AVERAGE" [] fun _ => .undefined), .addAlias "mean" "sum"]).find? "mean" = some f := by
  obtain ⟨calls, hcalls⟩ := exists_performAll_eq_standard
  obtain ⟨-, -, -, -, -, -, -, -, -, hlater⟩ := performAll_keeps_meanings calls
  rw [hcalls] at hlater
  obtain ⟨hmean, haverage, hsome⟩ := aliases_standard
  have hupper : Text.upper "mean" = "MEAN" ∧ Text.upper "average" = "AVERAGE" := by decide
  obtain ⟨f, hf⟩ := Option.isSome_iff_exists.1 hsome
  refine ⟨f, hf, hlater "mean" f ?_ _⟩
  rw [find?_eq, hupper.2, haverage, Option.getD_none] at hf
  rw [find?_eq, hupper.1, hmean, Option.getD_some, hf]

end Library

end Spreadsheet
