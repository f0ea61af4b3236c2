import Spreadsheet.Proofs.Formula.Stored

/-!
Invariants of readers. What holds of each frame while there is no fault is kept by the steps of a reader if it is kept
when a frame is opened, takes a unit or is closed; and with it what is made of the streams is known.
-/

namespace Spreadsheet.Formula

variable {locale : Locale} {source : List Nat} {u e : Expression} {r : Reader}

theorem mem_of_takeOperator {us : List Nat} {symbol : String} {n : Nat} (h : takeOperator us = some (symbol, n)) :
    symbol ∈ Operator.longestFirst := by
  unfold takeOperator at h
  obtain ⟨s, hs, heq⟩ := Option.map_eq_some_iff.1 h
  obtain ⟨rfl, -⟩ := Prod.mk.inj heq
  exact List.mem_of_find?_eq_some hs

namespace Reader

/-! ### Faults stay -/

theorem error_fail (r : Reader) (fault : Fault) (p : Nat) : (r.fail fault p).error ≠ none := by
  unfold fail
  cases r.error <;> simp

theorem error_deliver (h : (r.deliver e).error = none) : r.error = none := by
  unfold deliver at h
  split at h
  · split at h
    · exact h
    · exact absurd h (error_fail _ _ _)
  · exact h

theorem error_closeStream (h : (r.closeStream locale source).2.error = none) : r.error = none := by
  unfold closeStream at h
  split at h
  · exact h
  · simp only at h
    split at h
    · exact h
    · exact absurd h (error_fail _ _ _)

/-- The reader when the frame that is closed has been looked at, with its fault if its closing mark is missing. -/
def noted (r : Reader) (fault : Option Fault) (p : Nat) : Reader :=
  match fault with
  | some f => r.fail f p
  | none => r

/-! ### Streams that are closed -/

/-- The units of a frame from left to right, once its ranges and complex numbers are made. -/
def folded (locale : Locale) (source : List Nat) (log : ReferenceLog) (f : Frame) : List Expression :=
  (Fold.complexes locale source (Fold.ranges log f.stream.reverse).2 (Fold.ranges log f.stream.reverse).1).1

/-- What is made of a stream is the tree of its folded units. -/
theorem tree_of_closeStream (herror : (r.closeStream locale source).2.error = none)
    (he : (r.closeStream locale source).1 = some e) : Arrange.tree (folded locale source r.log r.top) = .ok e := by
  unfold closeStream at herror he
  split at herror
  · rename_i hstream
    simp only [hstream] at he
    cases he
  · simp only at herror he
    split at herror
    · rename_i htree
      simp only [htree] at he
      exact Option.some.inj he ▸ htree
    · exact absurd herror (error_fail _ _ _)

/-! ### What is kept -/

/-- A property of frames with what goes into them and what is made of them. Of a unit it also counts whether it is the
first one of its stream. -/
structure Invariant (locale : Locale) where
  /-- What holds of frames. -/
  frame : Frame → Prop
  /-- What holds of the units that a stream takes. -/
  unit : Bool → Expression → Prop
  /-- What holds of the tree of a stream. -/
  tree : Expression → Prop
  whole : frame ⟨.whole, []⟩
  parentheses (p : Nat) : frame ⟨.parentheses p, []⟩
  called {first : Bool} {p u n openAt : Nat} {us : List Nat} {name : String} :
    Lexeme.read locale first p u us = (.call name openAt, n) → frame ⟨.call p name openAt [] 0, []⟩
  array (p mark : Nat) : frame ⟨.array p [] 0 0 mark, []⟩
  atom {first : Bool} {p u n : Nat} {us : List Nat} {e : Expression} :
    Lexeme.read locale first p u us = (.atom e none, n) → unit first e
  operator (first : Bool) (p : Nat) {s : String} : s ∈ Operator.longestFirst → unit first (.operator p s)
  /-- A stream takes a unit. -/
  add {f : Frame} {u : Expression} : frame f → unit f.stream.isEmpty u → frame { f with stream := u :: f.stream }
  /-- An array takes a member. -/
  put {first : Bool} {p openAt column row mark : Nat} {columns : List (List Value)} {stream : List Expression}
    {v : Value} {spelling : Option String} : frame ⟨.array openAt columns column row mark, stream⟩ →
    unit first (.literal p v spelling) → frame ⟨.array openAt (put columns column row v) column row mark, stream⟩
  /-- An array goes to another place. -/
  move {openAt column row mark : Nat} (column' row' : Nat) {columns : List (List Value)} {stream : List Expression} :
    frame ⟨.array openAt columns column row mark, stream⟩ → frame ⟨.array openAt columns column' row' mark, stream⟩
  /-- A stream is closed. -/
  closed {f : Frame} {source : List Nat} {log : ReferenceLog} {e : Expression} : frame f →
    Arrange.tree (folded locale source log f) = .ok e → tree e
  group (first : Bool) (p : Nat) {e : Expression} : tree e → unit first (.group p [e] true)
  /-- An argument ends, perhaps after some that are left out. -/
  argument {p openAt index : Nat} (i : Nat) {name : String} {arguments stream : List Expression}
    {last : Option Expression} : frame ⟨.call p name openAt arguments index, stream⟩ → (∀ e ∈ last, tree e) →
    frame ⟨.call p name openAt (List.replicate (index + 1 - (last.toList ++ arguments).length) (.missing i) ++
      (last.toList ++ arguments)) (index + 1), []⟩
  call (first : Bool) {p openAt index : Nat} {name : String} {arguments stream : List Expression}
    {last : Option Expression} : frame ⟨.call p name openAt arguments index, stream⟩ → (∀ e ∈ last, tree e) →
    unit first (.call p name (last.toList ++ arguments).reverse)
  columns (first : Bool) {openAt column row mark : Nat} {columns : List (List Value)} {stream : List Expression} :
    frame ⟨.array openAt columns column row mark, stream⟩ → unit first (.array openAt (rectangular columns))

/-- Unless there has been a fault, all frames have the property. -/
def Keeps (r : Reader) (property : Frame → Prop) : Prop := r.error = none → ∀ f ∈ r.frames, property f

theorem keeps_of_error {property : Frame → Prop} (h : r.error ≠ none) : r.Keeps property := fun herror =>
  absurd herror h

namespace Invariant

variable (I : Invariant locale)

theorem keeps_top {f : Frame} {log : ReferenceLog} {error : Option ParseError} (h : r.Keeps I.frame)
    (hf : r.error = none → I.frame f) (herror : error = none → r.error = none) :
    Keeps { r with top := f, log, error } I.frame := fun hnone =>
  List.forall_mem_cons.2 ⟨hf (herror hnone), fun g hg => h (herror hnone) g (List.mem_cons_of_mem _ hg)⟩

theorem frame_top (h : r.Keeps I.frame) (herror : r.error = none) : I.frame r.top := h herror r.top List.mem_cons_self

theorem frame_kind (h : r.Keeps I.frame) (herror : r.error = none) {kind : Frame.Kind} (hkind : r.top.kind = kind) :
    I.frame ⟨kind, r.top.stream⟩ := by
  subst hkind
  exact I.frame_top h herror

theorem keeps_deliver (h : r.Keeps I.frame) (hu : r.error = none → I.unit r.top.stream.isEmpty u) :
    (r.deliver u).Keeps I.frame := by
  unfold deliver
  split
  · rename_i openAt columns column row mark hkind
    split
    · exact I.keeps_top h (fun herror => I.put (I.frame_kind h herror hkind) (hu herror)) id
    · exact keeps_of_error (error_fail _ _ _)
  · exact I.keeps_top h (fun herror => I.add (I.frame_top h herror) (hu herror)) id

theorem keeps_push (h : r.Keeps I.frame) {kind : Frame.Kind} (hkind : I.frame ⟨kind, []⟩) :
    (r.push kind).Keeps I.frame := fun herror => List.forall_mem_cons.2 ⟨hkind, h herror⟩

theorem keeps_closeStream (h : r.Keeps I.frame) (source : List Nat) :
    (r.closeStream locale source).2.Keeps I.frame := fun hnone => by
  rw [frames_closeStream]
  exact h (error_closeStream hnone)

theorem tree_closeStream (h : r.Keeps I.frame) (herror : (r.closeStream locale source).2.error = none) :
    ∀ e ∈ (r.closeStream locale source).1, I.tree e := fun _ he =>
  I.closed (I.frame_top h (error_closeStream herror)) (tree_of_closeStream herror he)

theorem keeps_pop (h : r.Keeps I.frame) {unit : Option Expression}
    (hunit : r.error = none → ∀ e ∈ unit, ∀ first, I.unit first e) : (r.pop unit).Keeps I.frame := by
  unfold pop
  split
  · exact h
  · rename_i f below hbelow
    have hbelow : Keeps { r with top := f, below } I.frame := fun herror g hg =>
      h herror g (List.mem_cons_of_mem _ (hbelow ▸ hg))
    cases unit with
    | none => exact hbelow
    | some e => exact I.keeps_deliver hbelow fun herror => hunit herror e rfl _

/-- Closing a frame gives a unit of the frame around it. -/
theorem keeps_close (h : r.Keeps I.frame) (source : List Nat) (fault : Option Fault) :
    (r.close locale source fault).Keeps I.frame := by
  have hnoted (r' : Reader) (hr' : r'.Keeps I.frame) (p : Nat) (unit : Option Expression)
      (hunit : r'.error = none → ∀ e ∈ unit, ∀ first, I.unit first e) :
      ((r'.noted fault p).pop unit).Keeps I.frame := by
    cases fault with
    | none => exact I.keeps_pop hr' hunit
    | some f => exact I.keeps_pop (keeps_of_error (error_fail _ _ _)) fun hnone => absurd hnone (error_fail _ _ _)
  have hclosed := I.keeps_closeStream h source
  unfold close
  cases hkind : r.top.kind with
  | whole => exact h
  | parentheses openAt =>
    refine hnoted _ hclosed openAt _ fun hnone e he first => ?_
    obtain ⟨inner, hinner, rfl⟩ := Option.map_eq_some_iff.1 he
    exact I.group first openAt (I.tree_closeStream h hnone inner hinner)
  | call position name openAt arguments index =>
    refine hnoted _ hclosed openAt _ fun hnone e he first => ?_
    obtain rfl := Option.some.inj he
    exact I.call first (I.frame_kind h (error_closeStream hnone) hkind) (I.tree_closeStream h hnone)
  | array openAt columns column row mark =>
    refine hnoted _ h openAt _ fun hnone e he first => ?_
    obtain rfl := Option.some.inj he
    exact I.columns first (I.frame_kind h hnone hkind)

theorem keeps_endArgument (h : r.Keeps I.frame) (source : List Nat) (i : Nat) :
    (r.endArgument locale source i).Keeps I.frame := by
  unfold endArgument
  split
  · rename_i position name openAt arguments index hkind
    exact I.keeps_top (I.keeps_closeStream h source) (fun hnone =>
      I.argument i (I.frame_kind h (error_closeStream hnone) hkind) (I.tree_closeStream h hnone)) id
  · exact h

theorem keeps_arrayMark (h : r.Keeps I.frame) (source : List Nat) (i u : Nat) :
    (r.arrayMark locale source i u).Keeps I.frame := by
  unfold arrayMark
  split
  · rename_i openAt columns column row mark hkind
    split
    · exact I.keeps_top h (fun herror => I.move 0 (row + 1) (I.frame_kind h herror hkind)) id
    split
    · exact I.keeps_top h (fun herror => I.move (column + 1) row (I.frame_kind h herror hkind)) id
    split
    · exact I.keeps_close h source none
    · exact keeps_of_error (error_fail _ _ _)
  · exact h

theorem keeps_otherMark (h : r.Keeps I.frame) (i u : Nat) (us : List Nat) : (r.otherMark i u us).1.Keeps I.frame := by
  unfold otherMark
  split
  · exact I.keeps_push h (I.parentheses i)
  · split
    · rename_i symbol n htake
      exact I.keeps_deliver h fun _ => I.operator _ i (mem_of_takeOperator htake)
    · exact keeps_of_error (error_fail _ _ _)

theorem keeps_mark (h : r.Keeps I.frame) (source : List Nat) (i u : Nat) (us : List Nat) :
    (r.mark locale source i u us).1.Keeps I.frame := by
  unfold mark
  split
  · exact I.keeps_arrayMark h source i u
  · split
    · exact I.keeps_close h source none
    · exact I.keeps_otherMark h i u us
  · split
    · exact I.keeps_endArgument h source i
    · split
      · exact I.keeps_close h source none
      · exact I.keeps_otherMark h i u us
  · exact I.keeps_otherMark h i u us

/-- A lexeme keeps the invariant. -/
theorem keeps_take (h : r.Keeps I.frame) (source : List Nat) (i u : Nat) (us : List Nat) :
    (r.take locale source i u us).1.Keeps I.frame := by
  unfold take
  split
  · exact h
  · rename_i e n hread
    exact I.keeps_deliver (r := { r with log := r.log.note e }) h fun _ => I.atom hread
  · exact keeps_of_error fun hnone => error_fail _ _ _ (error_deliver hnone)
  · rename_i name openAt n hread
    exact I.keeps_push h (I.called hread)
  · exact I.keeps_push h (I.array i _)
  · exact I.keeps_mark h source i _ us

/-- So do all of them. -/
theorem keeps_takeAll (h : r.Keeps I.frame) (source : List Nat) (i : Nat) (us : List Nat) :
    (r.takeAll locale source i us).Keeps I.frame := by
  fun_induction takeAll locale source r i us with
  | case1 => exact h
  | case2 r i u us r' n htake ih =>
    refine ih ?_
    have hr := I.keeps_take h source i u us
    rwa [htake] at hr

theorem keeps_closeAll (h : r.Keeps I.frame) (source : List Nat) (depth : Nat) :
    (r.closeAll locale source depth).Keeps I.frame := by
  induction depth generalizing r with
  | zero => exact h
  | succ depth ih => exact ih (I.keeps_close h source _)

theorem keeps_start : ({} : Reader).Keeps I.frame := fun _ f hf => by
  obtain rfl := List.mem_singleton.1 hf
  exact I.whole

/-- The expression of a formula without faults is a tree of the invariant. -/
theorem tree_of_parse {text : String} (herror : (parse locale text).error = none)
    (he : (parse locale text).expression = some e) : I.tree e :=
  I.tree_closeStream (I.keeps_closeAll (I.keeps_takeAll I.keeps_start _ 0 _) _ _) herror e he

end Invariant

end Reader

end Spreadsheet.Formula
