import Spreadsheet.Proofs.Formula.Spelled

/-!
What the units of a stream are made of. A unit stands for itself, for the parts of a range around a colon or for those
of a complex number around a sign.
-/

namespace Spreadsheet

/-- Whether the unit may have been made of others that were read. -/
def Expression.isJoint : Expression → Bool
  | .complex _ _ _ | .range _ _ | .operator _ _ => true
  | _ => false

namespace Formula

variable {locale : Locale} {source : List Nat} {u a b c e : Expression} {us vs ws : List Expression} {log : ReferenceLog}

/-- The units of the second list are made of those of the first one, neighbour by neighbour. -/
inductive Pieces (locale : Locale) : List Expression → List Expression → Prop
  | nil : Pieces locale [] []
  | unit (u : Expression) (vs ws : List Expression) : Pieces locale vs ws → Pieces locale (u :: vs) (u :: ws)
  | lone (p : Nat) (u : Expression) (z : Complex) (spelling : Option String) (vs ws : List Expression) :
      (Fold.imaginaryPart? locale u).isSome = true → Pieces locale vs ws →
      Pieces locale (u :: vs) (.complex p z spelling :: ws)
  | range (q : Nat) (a b : Expression) (n : RangeMention) (log log' : ReferenceLog) (vs ws : List Expression) :
      Fold.range? log a b = some (none, n, log') → Pieces locale vs ws →
      Pieces locale (a :: .operator q ":" :: b :: vs) (.range n.position n :: ws)
  | negated (q : Nat) (a b minus : Expression) (n : RangeMention) (log log' : ReferenceLog) (vs ws : List Expression) :
      Fold.range? log a b = some (some minus, n, log') → Pieces locale vs ws →
      Pieces locale (a :: .operator q ":" :: b :: vs) (minus :: .range n.position n :: ws)
  | complex (p q k : Nat) (x : Float) (s : String) (spelling spelling' : Option String) (c : Expression) (z : Complex)
      (vs ws : List Expression) : Operator.isSign s = true → (Fold.imaginaryPart? locale c).isSome = true →
      Pieces locale vs ws →
      Pieces locale (.literal p (.number x) spelling :: .operator q s :: c :: vs) (.complex k z spelling' :: ws)

/-! ### Making ranges and complex numbers -/

theorem ranges_cases (log : ReferenceLog) (a : Expression) (vs : List Expression) :
    (∃ q b rest minus n log', vs = .operator q ":" :: b :: rest ∧ Fold.range? log a b = some (minus, n, log') ∧
      (Fold.ranges log (a :: vs)).1 = minus.toList ++ .range n.position n :: (Fold.ranges (log'.fold n) rest).1) ∨
    (Fold.ranges log (a :: vs)).1 = a :: (Fold.ranges log vs).1 := by
  by_cases hcolon : ∃ q b rest, vs = .operator q ":" :: b :: rest
  · obtain ⟨q, b, rest, rfl⟩ := hcolon
    cases hrange : Fold.range? log a b with
    | none => exact .inr (by rw [Fold.ranges, hrange])
    | some made =>
      obtain ⟨minus, n, log'⟩ := made
      exact .inl ⟨q, b, rest, minus, n, log', rfl, hrange, by rw [Fold.ranges, hrange]⟩
  · refine .inr ?_
    rw [Fold.ranges]
    exact fun q b rest h => hcolon ⟨q, b, rest, h⟩

theorem lone_cases (locale : Locale) (log : ReferenceLog) (u : Expression) :
    (Fold.lone locale log u).1 = u ∨
      ∃ p z spelling, (Fold.lone locale log u).1 = .complex p z spelling ∧
        (Fold.imaginaryPart? locale u).isSome = true := by
  cases hpart : Fold.imaginaryPart? locale u with
  | none => exact .inl (by rw [lone_of_settled hpart])
  | some part =>
    refine .inr ?_
    unfold Fold.imaginaryPart? at hpart
    unfold Fold.lone
    split at hpart
    · exact ⟨_, _, _, rfl, rfl⟩
    · split at hpart
      · rename_i hname
        exact ⟨_, _, _, by rw [if_pos hname], rfl⟩
      · cases hpart
    · cases hpart

theorem complexes_cases (locale : Locale) (source : List Nat) (log : ReferenceLog) (u : Expression)
    (vs : List Expression) :
    (∃ p x spelling q s c rest k z spelling' log', u = .literal p (.number x) spelling ∧
      vs = .operator q s :: c :: rest ∧ Operator.isSign s = true ∧ (Fold.imaginaryPart? locale c).isSome = true ∧
      (Fold.complexes locale source log (u :: vs)).1 =
        .complex k z spelling' :: (Fold.complexes locale source log' rest).1) ∨
    ∃ log', (Fold.complexes locale source log (u :: vs)).1 =
      (Fold.lone locale log u).1 :: (Fold.complexes locale source log' vs).1 := by
  by_cases hparts : ∃ p x spelling q s c rest, u = .literal p (.number x) spelling ∧ vs = .operator q s :: c :: rest
  · obtain ⟨p, x, spelling, q, s, c, rest, rfl, rfl⟩ := hparts
    rw [Fold.complexes]
    cases hpart : if Operator.isSign s = true then Fold.imaginaryPart? locale c else none with
    | none => exact .inr ⟨log, rfl⟩
    | some part =>
      split at hpart
      · rename_i hsign
        exact .inl ⟨p, x, spelling, q, s, c, rest, _, _, _, _, rfl, rfl, hsign, by rw [hpart]; rfl, rfl⟩
      · cases hpart
  · refine .inr ⟨(Fold.lone locale log u).2, ?_⟩
    rw [Fold.complexes]
    exact fun p x spelling q s c rest hu hvs => hparts ⟨p, x, spelling, q, s, c, rest, hu, hvs⟩

/-- What stands before a range is a minus. -/
theorem minus_of_range {a b minus : Expression} {n : RangeMention} {log log' : ReferenceLog}
    (h : Fold.range? log a b = some (some minus, n, log')) : ∃ p, minus = .operator p "-" := by
  unfold Fold.range? at h
  split at h
  · cases h
  · split at h
    · rename_i hleft _
      split at h
      · obtain ⟨rfl, -, -⟩ := h
        exact (isAxis_of_leftCorner hleft).2 _ rfl
      · cases h
    · cases h

theorem complexes_plain (locale : Locale) (hu : ∀ p x spelling, u ≠ .literal p (.number x) spelling)
    (hpart : Fold.imaginaryPart? locale u = none) (source : List Nat) (log : ReferenceLog) (vs : List Expression) :
    ∃ log', (Fold.complexes locale source log (u :: vs)).1 = u :: (Fold.complexes locale source log' vs).1 := by
  rcases complexes_cases locale source log u vs with ⟨p, x, spelling, _, _, _, _, _, _, _, _, h, -⟩ | ⟨log', h⟩
  · exact absurd h (hu p x spelling)
  · exact ⟨log', by rw [h, lone_of_settled hpart]⟩

/-- An operator and an imaginary number in a stream are those of the stream before its ranges were made. -/
theorem ranges_sign {q : Nat} {s : String} {rest : List Expression}
    (hpart : (Fold.imaginaryPart? locale c).isSome = true)
    (h : (Fold.ranges log vs).1 = .operator q s :: c :: rest) :
    ∃ us log', vs = .operator q s :: c :: us ∧ (Fold.ranges log' us).1 = rest := by
  have hunit {d : Expression} (hd : Fold.imaginaryPart? locale d = none) : c ≠ d := by
    rintro rfl
    rw [hd] at hpart
    cases hpart
  cases vs with
  | nil => cases h
  | cons v vs =>
    rcases ranges_cases log v vs with ⟨_, _, _, minus, n, _, -, hrange, heq⟩ | heq
    · rw [heq] at h
      cases minus with
      | none => cases h
      | some minus => exact absurd (List.cons.inj (List.cons.inj h).2).1.symm (hunit rfl)
    · obtain ⟨rfl, htail⟩ := List.cons.inj (heq.symm.trans h)
      cases vs with
      | nil => cases htail
      | cons w vs =>
        rcases ranges_cases log w vs with ⟨_, _, _, minus, n, _, -, hrange, hmade⟩ | hmade
        · rw [hmade] at htail
          cases minus with
          | none => exact absurd (List.cons.inj htail).1.symm (hunit rfl)
          | some minus =>
            obtain ⟨p, rfl⟩ := minus_of_range hrange
            exact absurd (List.cons.inj htail).1.symm (hunit rfl)
        · obtain ⟨rfl, hrest⟩ := List.cons.inj (hmade.symm.trans htail)
          exact ⟨vs, log, rfl, hrest⟩

/-- The units of a stream are made of those that were read. -/
theorem pieces_folded (locale : Locale) (source : List Nat) (log log' : ReferenceLog) (vs : List Expression) :
    Pieces locale vs (Fold.complexes locale source log' (Fold.ranges log vs).1).1 := by
  induction hlength : vs.length using Nat.strong_induction_on generalizing vs log log' with
  | _ k ih =>
    cases vs with
    | nil => exact .nil
    | cons a vs =>
      rcases ranges_cases log a vs with ⟨q, b, rest, minus, n, log₁, rfl, hrange, heq⟩ | heq
      · simp only [List.length_cons] at hlength
        rw [heq]
        cases minus with
        | none =>
          obtain ⟨log₂, hmade⟩ := complexes_plain locale (u := .range n.position n) nofun rfl source log'
            (Fold.ranges (log₁.fold n) rest).1
          rw [Option.toList_none, List.nil_append, hmade]
          exact .range q a b n log log₁ rest _ hrange (ih rest.length (by omega) _ _ _ rfl)
        | some minus =>
          obtain ⟨p, rfl⟩ := minus_of_range hrange
          obtain ⟨log₂, hmade⟩ := complexes_plain locale (u := .operator p "-") nofun rfl source log'
            (.range n.position n :: (Fold.ranges (log₁.fold n) rest).1)
          obtain ⟨log₃, hmade'⟩ := complexes_plain locale (u := .range n.position n) nofun rfl source log₂
            (Fold.ranges (log₁.fold n) rest).1
          rw [Option.toList_some, List.singleton_append, hmade, hmade']
          exact .negated q a b _ n log log₁ rest _ hrange (ih rest.length (by omega) _ _ _ rfl)
      · simp only [List.length_cons] at hlength
        rw [heq]
        rcases complexes_cases locale source log' a (Fold.ranges log vs).1 with
          ⟨p, x, spelling, q, s, c, rest, k', z, spelling', log₁, rfl, hranges, hsign, hpart, hmade⟩ | ⟨log₁, hmade⟩
        · obtain ⟨us, log₂, rfl, rfl⟩ := ranges_sign hpart hranges
          simp only [List.length_cons] at hlength
          rw [hmade]
          exact .complex p q k' x s spelling spelling' c z us _ hsign hpart (ih us.length (by omega) _ _ _ rfl)
        · have htail := ih vs.length (by omega) log log₁ vs rfl
          rw [hmade]
          rcases lone_cases locale log' a with hlone | ⟨p, z, spelling, hlone, hpart⟩
          · rw [hlone]
            exact .unit a vs _ htail
          · rw [hlone]
            exact .lone p a z spelling vs _ hpart htail

/-! ### What stands in front -/

theorem Pieces.of_nil (h : Pieces locale vs []) : vs = [] := by
  cases h
  rfl

/-- A unit that is no complex number, no range and no operator is one of those that were read. -/
theorem Pieces.of_plain (hu : u.isJoint = false) (h : Pieces locale vs (u :: ws)) :
    ∃ vs', vs = u :: vs' ∧ Pieces locale vs' ws := by
  cases h with
  | unit _ vs _ h => exact ⟨vs, rfl, h⟩
  | negated _ _ _ _ _ _ _ _ _ hrange =>
    obtain ⟨p, rfl⟩ := minus_of_range hrange
    cases hu
  | lone | range | complex => cases hu

/-- A range is made of the units around a colon. -/
theorem Pieces.of_range {p : Nat} {r : RangeMention} (h : Pieces locale vs (.range p r :: ws)) :
    (∃ vs', vs = .range p r :: vs' ∧ Pieces locale vs' ws) ∨
      ∃ q a b log log' vs', vs = a :: .operator q ":" :: b :: vs' ∧ Fold.range? log a b = some (none, r, log') ∧
        Pieces locale vs' ws := by
  cases h with
  | unit _ vs _ h => exact .inl ⟨vs, rfl, h⟩
  | range q a b _ log log' vs _ hrange h => exact .inr ⟨q, a, b, log, log', vs, rfl, hrange, h⟩
  | negated _ _ _ _ _ _ _ _ _ hrange =>
    obtain ⟨_, h⟩ := minus_of_range hrange
    cases h

/-- An operator that was read stays one. -/
theorem Pieces.of_operator {p : Nat} {s : String} (h : Pieces locale (.operator p s :: vs) (u :: ws)) :
    u = .operator p s ∧ Pieces locale vs ws := by
  have hcorner {b : Expression} {log : ReferenceLog} : Fold.range? log (.operator p s) b = none := rfl
  cases h with
  | unit _ _ _ h => exact ⟨rfl, h⟩
  | lone _ _ _ _ _ _ hpart => cases hpart
  | range _ _ _ _ _ _ _ _ hrange | negated _ _ _ _ _ _ _ _ _ hrange =>
    rw [hcorner] at hrange
    cases hrange

/-- An operator of which something else was read is the minus that was taken off the number of a row. -/
theorem Pieces.of_minus {p : Nat} {s : String} (ha : a.isAnyOperator = false)
    (h : Pieces locale (a :: vs) (.operator p s :: ws)) :
    ∃ q b n log log' vs' ws', vs = .operator q ":" :: b :: vs' ∧ ws = .range n.position n :: ws' ∧
      Fold.range? log a b = some (some (.operator p s), n, log') ∧ Pieces locale vs' ws' := by
  cases h with
  | unit => cases ha
  | negated q _ b _ n log log' vs ws hrange h => exact ⟨q, b, n, log, log', vs, ws, rfl, rfl, hrange, h⟩

/-- A complex number is made of a number, a sign and an imaginary number, or of an imaginary number only. -/
theorem Pieces.of_complex {p : Nat} {z : Complex} {spelling : Option String}
    (h : Pieces locale (a :: vs) (.complex p z spelling :: ws)) :
    (Fold.imaginaryPart? locale a).isSome = true ∨ (∃ z, a = .complex p z spelling) ∨
      ∃ k x spelling' q s c vs', a = .literal k (.number x) spelling' ∧ vs = .operator q s :: c :: vs' ∧
        Operator.isSign s = true ∧ (Fold.imaginaryPart? locale c).isSome = true ∧ Pieces locale vs' ws := by
  cases h with
  | unit => exact .inr (.inl ⟨z, rfl⟩)
  | lone _ _ _ _ _ _ hpart => exact .inl hpart
  | complex k q _ x s spelling' _ c _ vs _ hsign hpart h =>
    exact .inr (.inr ⟨k, x, spelling', q, s, c, vs, rfl, rfl, hsign, hpart, h⟩)
  | negated _ _ _ _ _ _ _ _ _ hrange =>
    obtain ⟨_, h⟩ := minus_of_range hrange
    cases h

/-- The mentions around a colon. -/
theorem mentions_of_range {log log' : ReferenceLog} {a b : Expression} {r : RangeMention}
    (h : Fold.range? log a b = some (none, r, log')) : ∃ m n, r = .between m n ∧
      (a = .cell m ∨ Mention.ofUnit? a = some m) ∧ (b = .cell n ∨ Mention.ofUnit? b = some n) := by
  unfold Fold.range? at h
  split at h
  · rename_i m n
    obtain ⟨-, rfl, -⟩ := h
    exact ⟨m, n, rfl, .inl rfl, .inl rfl⟩
  · split at h
    · rename_i minus m n hleft hright
      split at h
      · obtain ⟨rfl, rfl, -⟩ := h
        refine ⟨m, n, rfl, .inr ?_, .inr hright⟩
        unfold Fold.leftCorner? at hleft
        split at hleft
        · rename_i k hk
          obtain ⟨-, rfl⟩ := hleft
          exact hk
        · obtain ⟨_, -, hminus⟩ := Option.map_eq_some_iff.1 hleft
          cases hminus
      · cases h
    · cases h

end Formula

end Spreadsheet
