import Spreadsheet.Expression.Structure
import Spreadsheet.Proofs.Evaluation.Reread
import Spreadsheet.Proofs.Function.Bare
import Spreadsheet.Proofs.Number.Natural

/-!
Expressions of the same structure. Where they stand, how they are labelled and spelled and in which case they name
functions makes no difference to what they do; it shows in the explanations of errors alone. Equal numbers are the same
but for the sign of a zero, which functions can see.
-/

namespace Spreadsheet

open Float.Model (UnpackedFloat)

/-! ### Numbers that are equal -/

namespace Number

variable {x y : Float} {xs ys xs' ys' : List Float} {P Q : Prop}

theorem eq_of_beq (h : (x == y) = true) (hzero : (x == 0) = true → isSignNegative x = isSignNegative y) : x = y := by
  refine eq_of_unpack ?_
  have hcompare : x.toModel.unpack.compare y.toModel.unpack = some .eq := beq_iff_eq.1 h
  have hbeq : (x == 0) = (x.toModel.unpack.compare (.zero .positive) == some .eq) := rfl
  have hsign : x.toModel.unpack.compare (.zero .positive) = some .eq → isSignNegative x = isSignNegative y := by
    intro hx
    refine hzero ?_
    rw [hbeq, beq_iff_eq]
    exact hx
  unfold isSignNegative Exact.ofFloat at hsign
  generalize x.toModel.unpack = u at hcompare hsign
  generalize y.toModel.unpack = v at hcompare hsign
  cases u with
  | notANumber => cases hcompare
  | infinity s =>
    cases v with
    | infinity s' => cases s <;> cases s' <;> first | rfl | cases hcompare
    | _ => cases s <;> cases hcompare
  | zero s =>
    cases v with
    | zero s' => cases s <;> cases s' <;> first | rfl | cases hsign rfl
    | finite s' m e hm => cases s' <;> cases hcompare
    | infinity s' => cases s' <;> cases hcompare
    | notANumber => cases hcompare
  | finite s m e hm =>
    cases v with
    | finite s' m' e' hm' =>
      have hsame : s = s' ∧ e = e' ∧ m = m' := by
        cases s <;> cases s' <;>
          simp [UnpackedFloat.compare, Ordering.then_eq_eq, Ordering.swap_eq_eq] at hcompare
        all_goals exact ⟨rfl, hcompare⟩
      obtain ⟨rfl, rfl, rfl⟩ := hsame
      rfl
    | zero s' => cases s <;> cases hcompare
    | infinity s' => cases s' <;> cases s <;> cases hcompare
    | notANumber => cases s <;> cases hcompare

/-- Where two lists have zeros at the same place these have the same sign. -/
def AgreeOnZeros (xs ys : List Float) : Prop :=
  ∀ p ∈ xs.zip ys, (p.1 == 0) = true → isSignNegative p.1 = isSignNegative p.2

/-- The lists are equally long, and if they agree on the signs of zeros then something holds. -/
structure Matched (xs ys : List Float) (P : Prop) : Prop where
  length : xs.length = ys.length
  holds : AgreeOnZeros xs ys → P

theorem Matched.of (h : P) : Matched [] [] P := ⟨rfl, fun _ => h⟩

theorem Matched.imp (h : Matched xs ys P) (hPQ : P → Q) : Matched xs ys Q :=
  ⟨h.length, fun hzeros => hPQ (h.holds hzeros)⟩

theorem Matched.single (h : (x == y) = true) : Matched [x] [y] (x = y) :=
  ⟨rfl, fun hzeros => eq_of_beq h (hzeros (x, y) List.mem_cons_self)⟩

theorem Matched.append (h : Matched xs ys P) (h' : Matched xs' ys' Q) : Matched (xs ++ xs') (ys ++ ys') (P ∧ Q) := by
  refine ⟨by rw [List.length_append, List.length_append, h.length, h'.length], fun hzeros => ⟨h.holds ?_, h'.holds ?_⟩⟩
  · intro p hp
    refine hzeros p ?_
    rw [List.zip_append h.length]
    exact List.mem_append_left _ hp
  · intro p hp
    refine hzeros p ?_
    rw [List.zip_append h.length]
    exact List.mem_append_right _ hp

end Number

open Number (Matched AgreeOnZeros)

namespace Value

/-- The numbers that a scalar holds. -/
def scalarNumbers : Value → List Float
  | .number x => [x]
  | .complex z => [z.real, z.imaginary]
  | _ => []

/-- The numbers in a value, at any depth. -/
def numbers (v : Value) : List Float := v.flatten.flatMap scalarNumbers

/-- The numbers in the values of a column. -/
def columnNumbers (vs : List Value) : List Float := (flattenColumn vs).flatMap scalarNumbers

/-- The numbers in the values of columns. -/
def columnsNumbers (cs : List (List Value)) : List Float := (flattenColumns cs).flatMap scalarNumbers

theorem columnNumbers_cons (v : Value) (vs : List Value) : columnNumbers (v :: vs) = v.numbers ++ columnNumbers vs := by
  rw [columnNumbers, flattenColumn, List.flatMap_append]
  rfl

theorem columnsNumbers_cons (c : List Value) (cs : List (List Value)) :
    columnsNumbers (c :: cs) = columnNumbers c ++ columnsNumbers cs := by
  rw [columnsNumbers, flattenColumns, List.flatMap_append]
  rfl

mutual

/-- Equal values whose zeros have the same signs are the same but for the explanations of errors. -/
theorem matched_of_equal (v w : Value) (h : equal v w = true) : Matched v.numbers w.numbers (v.bare = w.bare) := by
  cases v with
  | undefined =>
    cases w with
    | undefined => exact .of rfl
    | _ => cases h
  | number x =>
    cases w with
    | number y => exact (Matched.single h).imp fun hxy => by rw [hxy]
    | _ => cases h
  | text s =>
    cases w with
    | text t =>
      obtain rfl : s = t := beq_iff_eq.1 h
      exact .of rfl
    | _ => cases h
  | boolean b =>
    cases w with
    | boolean c =>
      obtain rfl : b = c := beq_iff_eq.1 h
      exact .of rfl
    | _ => cases h
  | complex z =>
    cases w with
    | complex z' =>
      obtain ⟨hreal, himaginary⟩ := Bool.and_eq_true_iff.1 h
      refine ((Matched.single hreal).append (Matched.single himaginary)).imp ?_
      rintro ⟨hreal, himaginary⟩
      obtain ⟨x, y⟩ := z
      obtain rfl : x = z'.real := hreal
      obtain rfl : y = z'.imaginary := himaginary
      rfl
    | _ => cases h
  | array cs =>
    cases w with
    | array ds => exact (matched_of_equalColumns cs ds h).imp fun heq => by rw [bare_array, bare_array, heq]
    | _ => cases h
  | metadata p v format =>
    cases w with
    | metadata q w format' =>
      obtain ⟨h, hformat⟩ := Bool.and_eq_true_iff.1 h
      obtain ⟨hposition, hvalue⟩ := Bool.and_eq_true_iff.1 h
      obtain rfl : p = q := beq_iff_eq.1 hposition
      obtain rfl : format = format' := beq_iff_eq.1 hformat
      exact (matched_of_equal v w hvalue).imp fun heq => by rw [bare_metadata, bare_metadata, heq]
    | _ => cases h
  | error e =>
    cases w with
    | error e' =>
      have hcode : e.code = e'.code := beq_iff_eq.1 h
      exact .of (by rw [bare_error, bare_error, hcode])
    | _ => cases h

theorem matched_of_equalColumns (cs ds : List (List Value)) (h : equalColumns cs ds = true) :
    Matched (columnsNumbers cs) (columnsNumbers ds) (cs.map (List.map bare) = ds.map (List.map bare)) := by
  cases cs with
  | nil =>
    cases ds with
    | nil => exact .of rfl
    | cons d ds => cases h
  | cons c cs =>
    cases ds with
    | nil => cases h
    | cons d ds =>
      obtain ⟨hcolumn, hcolumns⟩ := Bool.and_eq_true_iff.1 h
      rw [columnsNumbers_cons, columnsNumbers_cons]
      refine ((matched_of_equalColumn c d hcolumn).append (matched_of_equalColumns cs ds hcolumns)).imp ?_
      rintro ⟨hcolumn, hcolumns⟩
      rw [List.map_cons, List.map_cons, hcolumn, hcolumns]

theorem matched_of_equalColumn (vs ws : List Value) (h : equalColumn vs ws = true) :
    Matched (columnNumbers vs) (columnNumbers ws) (vs.map bare = ws.map bare) := by
  cases vs with
  | nil =>
    cases ws with
    | nil => exact .of rfl
    | cons w ws => cases h
  | cons v vs =>
    cases ws with
    | nil => cases h
    | cons w ws =>
      obtain ⟨hvalue, hvalues⟩ := Bool.and_eq_true_iff.1 h
      rw [columnNumbers_cons, columnNumbers_cons]
      refine ((matched_of_equal v w hvalue).append (matched_of_equalColumn vs ws hvalues)).imp ?_
      rintro ⟨hvalue, hvalues⟩
      rw [List.map_cons, List.map_cons, hvalue, hvalues]

end

end Value

/-! ### What is done with explanations -/

/-- No function of the library sees how errors are explained. -/
def Library.Heedless (l : Library) : Prop := ∀ name f, l.find? name = some f → f.IsHeedless

theorem Library.heedless_standard : standard.Heedless := fun _ _ => isHeedless_standard

namespace Function

open Value (bare)

variable {vs ws : List Value}

theorem map_bare_fillDefaults (ps : List Parameter) (vs : List Value) :
    (fillDefaults ps (vs.map bare)).map bare = (fillDefaults ps vs).map bare := by
  induction ps generalizing vs with
  | nil => simp [fillDefaults]
  | cons p ps ih =>
    cases vs with
    | nil => rfl
    | cons v vs =>
      rw [List.map_cons, fillDefaults, fillDefaults, List.map_cons, List.map_cons, ih, Value.isUndefined_bare]
      refine congrArg (· :: _) ?_
      split
      · cases p.default with
        | none => exact Value.bare_bare v
        | some d => rfl
      · exact Value.bare_bare v

theorem fillDefaults_congr (ps : List Parameter) (h : vs.map bare = ws.map bare) :
    (fillDefaults ps vs).map bare = (fillDefaults ps ws).map bare := by
  rw [← map_bare_fillDefaults, h, map_bare_fillDefaults]

theorem refuses_map_bare (f : Function) (vs : List Value) : f.refuses (vs.map bare) = f.refuses vs := by
  rw [refuses, refuses, List.zipIdx_map, List.any_map]
  refine congrArg (vs.zipIdx.any ·) (funext fun ⟨v, i⟩ => ?_)
  simp only [Function.comp_apply, Prod.map_apply, id, Value.isError_bare]

theorem IsHeedless.apply_congr {f : Function} (hf : f.IsHeedless) (site : CallSite) (h : vs.map bare = ws.map bare) :
    bare <$> f.apply site vs = bare <$> f.apply site ws := by
  rw [← hf site vs, h, hf site ws]

end Function

/-! ### Evaluations -/

namespace Evaluation

open Value (bare)

/-- Computations that are the same up to what a function forgets can be continued with what does not depend on it. -/
theorem map_bind_congr {σ α β γ δ : Type} {x y : StateM σ α} {k k' : α → StateM σ β} {g : α → γ} {h : β → δ}
    (hx : g <$> x = g <$> y) (hk : ∀ a b, g a = g b → h <$> k a = h <$> k' b) :
    h <$> (x >>= k) = h <$> (y >>= k') := by
  funext s
  have hs : (g (x s).1, (x s).2) = (g (y s).1, (y s).2) := congrFun hx s
  obtain ⟨hvalue, hstate⟩ := Prod.mk.inj hs
  have hnext := congrFun (hk _ _ hvalue) (x s).2
  rw [hstate] at hnext
  change (h (k (x s).1 (x s).2).1, (k (x s).1 (x s).2).2) = (h (k' (y s).1 (y s).2).1, (k' (y s).1 (y s).2).2)
  rw [hstate]
  exact hnext

/-- Two expressions that do the same, whatever they are evaluated for, but for the explanations of errors. -/
structure Alike (a b : Expression) : Prop where
  value : ∀ s : Scope, s.library.Heedless → s.library.TakesNoTexts → bare <$> evaluate s a = bare <$> evaluate s b
  metadata : ∀ s, metadata? s a = metadata? s b
  sampled : sampledCell? a = sampledCell? b

variable {a a' b b' : Expression} {as bs : List Expression} {s : Scope} {p q : Nat} {name name' : String}
  {vs ws : List Value} {o o' : Option (List Value)} {x y : Step Value}

theorem Alike.of_value (metadata : ∀ s, metadata? s a = metadata? s b) (sampled : sampledCell? a = sampledCell? b)
    (h : ∀ s, evaluate s a = evaluate s b) : Alike a b :=
  ⟨fun s _ _ => by rw [h s], metadata, sampled⟩

/-- Units that are evaluated to what is written in them. -/
theorem Alike.of_bare {v w : Value} (metadata : ∀ s, metadata? s a = metadata? s b)
    (sampled : sampledCell? a = sampledCell? b) (ha : ∀ s, evaluate s a = pure v) (hb : ∀ s, evaluate s b = pure w)
    (h : v.bare = w.bare) : Alike a b :=
  ⟨fun s _ _ => by rw [ha, hb, map_pure, map_pure, h], metadata, sampled⟩

theorem Alike.unary (h : Alike a b) (p q : Nat) (symbol : String) : Alike (.unary p symbol a) (.unary q symbol b) := by
  refine ⟨fun s hheedless htexts => ?_, fun _ => rfl, rfl⟩
  rw [evaluate, evaluate]
  refine map_bind_congr (h.value s hheedless htexts) fun v w hvw => ?_
  rw [map_pure, map_pure, ← Operator.bare_applySign_bare, hvw, Operator.bare_applySign_bare]

theorem Alike.binary (ha : Alike a a') (hb : Alike b b') (p q : Nat) (symbol : String) :
    Alike (.binary p symbol a b) (.binary q symbol a' b') := by
  refine ⟨fun s hheedless htexts => ?_, fun _ => rfl, rfl⟩
  rw [evaluate, evaluate]
  refine map_bind_congr (ha.value s hheedless htexts) fun v v' hv => ?_
  refine map_bind_congr (hb.value s hheedless htexts) fun w w' hw => ?_
  rw [map_pure, map_pure, ← Operator.bare_applyBinary_bare, hv, hw, Operator.bare_applyBinary_bare]

theorem samplesValue_congr (hsampled : sampledCell? a = sampledCell? b) (h : bare <$> x = bare <$> y) :
    bare <$> samplesValue a x = bare <$> samplesValue b y := by
  unfold samplesValue
  rw [hsampled]
  refine map_bind_congr (g := id) rfl fun g g' hg => ?_
  obtain rfl : g = g' := hg
  simp only
  split
  · exact map_bind_congr (g := id) rfl fun _ _ _ => h
  · rfl
  · exact h

theorem Alike.passArgument (h : Alike a b) (hheedless : s.library.Heedless) (htexts : s.library.TakesNoTexts)
    {passing : Passing} (hpassing : passing ≠ .label) :
    Option.map bare <$> passArgument s passing a (evaluate s a) =
      Option.map bare <$> passArgument s passing b (evaluate s b) := by
  have hsome {x y : Step Value} (hxy : bare <$> x = bare <$> y) :
      Option.map bare <$> some <$> x = Option.map bare <$> some <$> y := by
    have hwrap := congrArg (some <$> ·) hxy
    simp only [Functor.map_map] at hwrap ⊢
    exact hwrap
  have hvalue := h.value s hheedless htexts
  cases passing with
  | value => exact hsome hvalue
  | label => exact absurd rfl hpassing
  | metadata => rw [Evaluation.passArgument, Evaluation.passArgument, h.metadata]
  | samples => exact hsome (samplesValue_congr h.sampled hvalue)

theorem evaluateArguments_congr (h : List.Forall₂ Alike as bs) (hheedless : s.library.Heedless)
    (htexts : s.library.TakesNoTexts) {f : Function} (hpassing : ∀ i, f.passing i ≠ .label) (i : Nat) :
    Option.map (List.map bare) <$> evaluateArguments s f i as =
      Option.map (List.map bare) <$> evaluateArguments s f i bs := by
  induction h generalizing i with
  | nil => rfl
  | cons ha _ ih =>
    rw [evaluateArguments, evaluateArguments]
    refine map_bind_congr (ha.passArgument hheedless htexts (hpassing i)) fun v w hvw => ?_
    cases v with
    | none =>
      cases w with
      | none => rfl
      | some w => cases hvw
    | some v =>
      cases w with
      | none => cases hvw
      | some w =>
        refine map_bind_congr (ih (i + 1)) fun vs ws hvs => ?_
        have hv : v.bare = w.bare := Option.some.inj hvw
        simp only [map_pure, Option.map_map, Function.comp_def, List.map_cons, hv]
        have hcons := congrArg (Option.map (w.bare :: ·)) hvs
        simp only [Option.map_map, Function.comp_def] at hcons
        rw [hcons]

theorem act_congr {x y : Action Value} (h : bare <$> x = bare <$> y) : bare <$> act x = bare <$> act y := by
  funext g
  have hrun : (bare (x g.effects).1, (x g.effects).2) = (bare (y g.effects).1, (y g.effects).2) := congrFun h g.effects
  obtain ⟨hvalue, heffects⟩ := Prod.mk.inj hrun
  change (bare (x g.effects).1, { g with effects := (x g.effects).2 }) =
    (bare (y g.effects).1, { g with effects := (y g.effects).2 })
  rw [hvalue, heffects]

theorem applyFunction_congr {f : Function} (hf : f.IsHeedless) (index : Nat)
    (h : o.map (List.map bare) = o'.map (List.map bare)) :
    bare <$> applyFunction s f index o = bare <$> applyFunction s f index o' := by
  cases o with
  | none =>
    cases o' with
    | none => rfl
    | some ws => cases h
  | some vs =>
    cases o' with
    | none => cases h
    | some ws =>
      have hfilled := Function.fillDefaults_congr f.parameters (Option.some.inj h)
      unfold applyFunction
      simp only
      rw [← f.refuses_map_bare, hfilled, f.refuses_map_bare]
      split
      · rfl
      · exact act_congr (hf.apply_congr _ hfilled)

/-- Calls find the same function whatever the case of its name, and the name shows in an explanation alone. -/
theorem Alike.call (h : List.Forall₂ Alike as bs) (p q : Nat) (hname : Text.upper name = Text.upper name') :
    Alike (.call p name as) (.call q name' bs) := by
  refine ⟨fun s hheedless htexts => ?_, fun _ => rfl, rfl⟩
  have hfind : s.library.find? name' = s.library.find? name := by rw [Library.find?, Library.find?, hname]
  rw [evaluate, evaluate, hfind]
  refine map_bind_congr (g := id) rfl fun index index' hindex => ?_
  obtain rfl : index = index' := hindex
  cases hf : s.library.find? name with
  | none => rfl
  | some f =>
    refine map_bind_congr (g := id) rfl fun _ _ _ => ?_
    refine map_bind_congr (evaluateArguments_congr h hheedless htexts (htexts name f hf) 0) fun o o' ho => ?_
    exact applyFunction_congr (hheedless name f hf) _ ho

theorem Alike.group (h : List.Forall₂ Alike as bs) (p q : Nat) (explicit : Bool) :
    Alike (.group p as explicit) (.group q bs explicit) := by
  refine ⟨fun s hheedless htexts => ?_, fun _ => rfl, rfl⟩
  cases h with
  | nil => rfl
  | cons ha hrest =>
    cases hrest with
    | nil =>
      rw [evaluate, evaluate]
      exact ha.value s hheedless htexts
    | cons => rfl

end Evaluation

/-! ### Expressions of the same structure -/

namespace Expression

open Evaluation (Alike)

variable {a b : Expression}

mutual

/-- The numbers that an expression is written with, in order. -/
def numbers : Expression → List Float
  | .literal _ v _ => v.numbers
  | .imaginary _ x _ => [x]
  | .complex _ z _ => [z.real, z.imaginary]
  | .unary _ _ a => numbers a
  | .binary _ _ a b => numbers a ++ numbers b
  | .call _ _ as | .group _ as _ => listNumbers as
  | .array _ columns => (Value.array columns).numbers
  | .cell _ | .range _ _ | .identifier _ _ | .operator _ _ | .missing _ => []

/-- The numbers that several expressions are written with. -/
def listNumbers : List Expression → List Float
  | [] => []
  | e :: es => numbers e ++ listNumbers es

end

mutual

/-- Expressions of the same structure whose zeros have the same signs do the same. -/
theorem matched_of_sameStructure (a b : Expression) (h : a.sameStructure b = true) :
    Matched a.numbers b.numbers (Alike a b) := by
  cases a with
  | literal p v s =>
    cases b with
    | literal q w t =>
      refine (Value.matched_of_equal v w h).imp fun heq => ?_
      exact .of_bare (fun _ => rfl) rfl (fun _ => rfl) (fun _ => rfl) heq
    | _ => cases h
  | imaginary p x s =>
    cases b with
    | imaginary q y t =>
      refine (Matched.single h).imp ?_
      rintro rfl
      exact .of_value (fun _ => rfl) rfl fun _ => rfl
    | _ => cases h
  | complex p z s =>
    cases b with
    | complex q w t =>
      refine ((Value.matched_of_equal (.complex z) (.complex w) h)).imp fun heq => ?_
      obtain rfl : z = w := Value.complex.inj heq
      exact .of_value (fun _ => rfl) rfl fun _ => rfl
    | _ => cases h
  | cell m =>
    cases b with
    | cell n =>
      have htarget : m.target = n.target := beq_iff_eq.1 h
      refine .of (.of_value (fun s => ?_) (congrArg Reference.position? htarget) fun s => ?_)
      · simp only [Evaluation.metadata?, htarget]
      · rw [Evaluation.evaluate, Evaluation.evaluate, htarget]
    | _ => cases h
  | range p r =>
    cases b with
    | range q r' =>
      obtain ⟨hfirst, hlast⟩ := Bool.and_eq_true_iff.1 h
      rw [beq_iff_eq] at hfirst hlast
      refine .of (.of_value (fun s => ?_) rfl fun s => ?_)
      · simp only [Evaluation.metadata?, hfirst]
      · rw [Evaluation.evaluate, Evaluation.evaluate, RangeMention.area, RangeMention.area, hfirst, hlast]
    | _ => cases h
  | identifier p name =>
    cases b with
    | identifier q name' =>
      obtain rfl : name = name' := beq_iff_eq.1 h
      exact .of (.of_value (fun _ => rfl) rfl fun _ => rfl)
    | _ => cases h
  | operator p symbol =>
    cases b with
    | operator q symbol' => exact .of (.of_value (fun _ => rfl) rfl fun _ => rfl)
    | _ => cases h
  | unary p symbol a =>
    cases b with
    | unary q symbol' b =>
      obtain ⟨hsymbol, hoperand⟩ := Bool.and_eq_true_iff.1 h
      obtain rfl : symbol = symbol' := beq_iff_eq.1 hsymbol
      exact (matched_of_sameStructure a b hoperand).imp fun halike => halike.unary p q symbol
    | _ => cases h
  | binary p symbol a a' =>
    cases b with
    | binary q symbol' b b' =>
      obtain ⟨hboth, hright⟩ := Bool.and_eq_true_iff.1 h
      obtain ⟨hsymbol, hleft⟩ := Bool.and_eq_true_iff.1 hboth
      obtain rfl : symbol = symbol' := beq_iff_eq.1 hsymbol
      refine ((matched_of_sameStructure a b hleft).append (matched_of_sameStructure a' b' hright)).imp ?_
      rintro ⟨hleft, hright⟩
      exact hleft.binary hright p q symbol
    | _ => cases h
  | call p name as =>
    cases b with
    | call q name' bs =>
      obtain ⟨hname, harguments⟩ := Bool.and_eq_true_iff.1 h
      refine (matched_of_sameStructures as bs harguments).imp fun halike => ?_
      exact .call halike p q (Text.equalIgnoringCase_iff.1 hname)
    | _ => cases h
  | group p as explicit =>
    cases b with
    | group q bs explicit' =>
      obtain ⟨hexplicit, hitems⟩ := Bool.and_eq_true_iff.1 h
      obtain rfl : explicit = explicit' := beq_iff_eq.1 hexplicit
      exact (matched_of_sameStructures as bs hitems).imp fun halike => .group halike p q explicit
    | _ => cases h
  | array p cs =>
    cases b with
    | array q ds =>
      refine (Value.matched_of_equal (.array cs) (.array ds) h).imp fun heq => ?_
      exact .of_bare (fun _ => rfl) rfl (fun _ => rfl) (fun _ => rfl) heq
    | _ => cases h
  | missing p =>
    cases b with
    | missing q => exact .of (.of_value (fun _ => rfl) rfl fun _ => rfl)
    | _ => cases h

theorem matched_of_sameStructures (as bs : List Expression) (h : sameStructures as bs = true) :
    Matched (listNumbers as) (listNumbers bs) (List.Forall₂ Alike as bs) := by
  cases as with
  | nil =>
    cases bs with
    | nil => exact .of .nil
    | cons b bs => cases h
  | cons a as =>
    cases bs with
    | nil => cases h
    | cons b bs =>
      obtain ⟨hfirst, hrest⟩ := Bool.and_eq_true_iff.1 h
      refine ((matched_of_sameStructure a b hfirst).append (matched_of_sameStructures as bs hrest)).imp ?_
      rintro ⟨hfirst, hrest⟩
      exact .cons hfirst hrest

end

/-- Calculating an expression of the same structure, with the same signs on its zeros, gives the same value but for the
explanations of errors, whatever cell, sheet and names it is calculated for. It is volatile if the other one is, refers
to the same areas that it does not mention and leaves the simulation in the same state. -/
theorem calculate_of_sameStructure (h : a.sameStructure b = true) (hzeros : ∀ p ∈ a.numbers.zip b.numbers,
      (p.1 == 0) = true → Number.isSignNegative p.1 = Number.isSignNegative p.2)
    {s : Scope} (hlibrary : s.library = .standard) (model : Simulation.Model) :
    (a.calculate s model).value.bare = (b.calculate s model).value.bare ∧
      (a.calculate s model).volatile = (b.calculate s model).volatile ∧
      (a.calculate s model).areas = (b.calculate s model).areas ∧
      (a.calculate s model).model = (b.calculate s model).model := by
  have halike : Alike a b := (matched_of_sameStructure a b h).holds hzeros
  have hvalue := halike.value s (hlibrary ▸ Library.heedless_standard) (hlibrary ▸ Library.takesNoTexts_standard)
  have hrun := congrFun hvalue { effects := { model } }
  obtain ⟨hvalue, hstate⟩ := Prod.mk.inj hrun
  refine ⟨hvalue, ?_, ?_, ?_⟩
  · exact congrArg Evaluation.Progress.volatile hstate
  · exact congrArg (fun g => g.effects.areas) hstate
  · exact congrArg (fun g => g.effects.model) hstate

/-- No times a random number, and a call of a function that there is not. -/
def loud : Expression :=
  .binary 7 "+" (.binary 1 "*" (.literal 0 (.number 0) (some "0")) (.call 2 "RAND" [])) (.call 8 "LOOKOUT" [])

/-- The same with another numeral and the names in lower case. -/
def quiet : Expression :=
  .binary 11 "+" (.binary 4 "*" (.literal 0 (.number 0) (some "0.0")) (.call 5 "rand" [])) (.call 13 "lookout" [])

theorem calculate_of_sameStructure_quiet :
    (loud.calculate .blank (.ofSeed 1)).value.bare = (quiet.calculate .blank (.ofSeed 1)).value.bare ∧
      (loud.calculate .blank (.ofSeed 1)).volatile = (quiet.calculate .blank (.ofSeed 1)).volatile ∧
      (loud.calculate .blank (.ofSeed 1)).areas = (quiet.calculate .blank (.ofSeed 1)).areas ∧
      (loud.calculate .blank (.ofSeed 1)).model = (quiet.calculate .blank (.ofSeed 1)).model := by
  have hsame : loud.sameStructure quiet = true := by decide +kernel
  have hzeros : ∀ p ∈ loud.numbers.zip quiet.numbers,
      (p.1 == 0) = true → Number.isSignNegative p.1 = Number.isSignNegative p.2 := by decide +kernel
  have hlibrary : Scope.blank.library = .standard := by dsimp only [Scope.blank]
  exact calculate_of_sameStructure hsame hzeros hlibrary (.ofSeed 1)

end Expression

end Spreadsheet
