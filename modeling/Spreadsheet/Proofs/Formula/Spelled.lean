import Spreadsheet.Proofs.Formula.Formed

/-!
Streams that are written out and read again. A range is written as two mentions around a colon and a complex
number as a number, a sign and an imaginary number; joining neighbours makes the same units of them again.
-/

namespace Spreadsheet.Formula

open Expression (MovesTo)

variable {locale : Locale} {source : List Nat} {t : Rereading} {u e : Expression} {us vs : List Expression}
  {log : ReferenceLog} {r : Reader}

/-- Units that make a range when they are read with a colon between them. -/
structure IsCorners (t : Rereading) (u a b : Expression) : Prop where
  first : a.isAnyOperator = false
  joins : ∀ log, ∃ n log', Fold.range? log a b = some (none, n, log') ∧ MovesTo t u (.range n.position n)

/-- Units that make a range and a minus before it when they are read with a colon between them. -/
structure IsNegatedCorners (t : Rereading) (u a b : Expression) : Prop where
  first : a.isAnyOperator = false
  joins : ∀ log, ∃ p n log', Fold.range? log a b = some (some (.operator p "-"), n, log') ∧
    MovesTo t u (.range n.position n)

/-- The complex number that a number, a sign and an imaginary number make. -/
def joinedComplex (x : Float) (s : String) (y : Float) : Complex := ⟨x, if s == "-" then -y else y⟩

/-- The second stream is what is read of the first one once it has been moved and written. -/
inductive Spelled (t : Rereading) (locale : Locale) : List Expression → List Expression → Prop
  | nil : Spelled t locale [] []
  | unit (u u' : Expression) (us vs : List Expression) : MovesTo t u u' → IsSettled locale u' →
      Spelled t locale us vs → Spelled t locale (u :: us) (u' :: vs)
  | range (q : Nat) (u a b : Expression) (us vs : List Expression) : IsCorners t u a b → Spelled t locale us vs →
      Spelled t locale (u :: us) (a :: .operator q ":" :: b :: vs)
  | negated (p q : Nat) (u a b : Expression) (us vs : List Expression) : IsNegatedCorners t u a b →
      Spelled t locale us vs → Spelled t locale (.operator p "-" :: u :: us) (a :: .operator q ":" :: b :: vs)
  | complex (q k j : Nat) (u : Expression) (x y : Float) (s spelling' : String) (spelling : Option String)
      (us vs : List Expression) : Operator.isSign s = true →
      (∀ p spelling, MovesTo t u (.complex p (joinedComplex x s y) spelling)) → Spelled t locale us vs →
      Spelled t locale (u :: us) (.literal q (.number x) spelling :: .operator k s :: .imaginary j y spelling' :: vs)

theorem Spelled.append {us' vs' : List Expression} (h : Spelled t locale us vs) (h' : Spelled t locale us' vs') :
    Spelled t locale (us ++ us') (vs ++ vs') := by
  induction h with
  | nil => exact h'
  | unit u u' us vs hu hsettled _ ih => exact .unit u u' _ _ hu hsettled ih
  | range q u a b us vs hcorners _ ih => exact .range q u a b _ _ hcorners ih
  | negated p q u a b us vs hcorners _ ih => exact .negated p q u a b _ _ hcorners ih
  | complex q k j u x y s sp' sp us vs hs hu _ ih => exact .complex q k j u x y s sp' sp _ _ hs hu ih

theorem Spelled.eq_nil (h : Spelled t locale us vs) : us = [] ↔ vs = [] := by
  cases h <;> simp

/-! ### Ranges -/

/-- The second stream follows the first one except that complex numbers are still in three parts. -/
inductive Joined (t : Rereading) (locale : Locale) : List Expression → List Expression → Prop
  | nil : Joined t locale [] []
  | unit (u u' : Expression) (us vs : List Expression) : MovesTo t u u' → IsSettled locale u' →
      Joined t locale us vs → Joined t locale (u :: us) (u' :: vs)
  | complex (q k j : Nat) (u : Expression) (x y : Float) (s spelling' : String) (spelling : Option String)
      (us vs : List Expression) : Operator.isSign s = true →
      (∀ p spelling, MovesTo t u (.complex p (joinedComplex x s y) spelling)) → Joined t locale us vs →
      Joined t locale (u :: us) (.literal q (.number x) spelling :: .operator k s :: .imaginary j y spelling' :: vs)

/-- What is read of a stream starts with no colon. -/
theorem Spelled.not_colon (h : Spelled t locale us vs) (p : Nat) (rest : List Expression) :
    vs ≠ .operator p ":" :: rest := by
  rintro rfl
  cases h with
  | unit _ _ _ _ _ hsettled => simpa [Expression.isOperator] using hsettled.colon
  | range _ _ _ _ _ _ hcorners => cases hcorners.first
  | negated _ _ _ _ _ _ _ hcorners => cases hcorners.first

theorem ranges_cons (hnext : ∀ p rest, us ≠ .operator p ":" :: rest) (log : ReferenceLog) (u : Expression) :
    (Fold.ranges log (u :: us)).1 = u :: (Fold.ranges log us).1 := by
  rw [Fold.ranges]
  exact fun p b rest h => hnext p (b :: rest) h

/-- The units around a colon are replaced by what they make. -/
theorem ranges_colon {log log' : ReferenceLog} {a b : Expression} {minus : Option Expression} {n : RangeMention}
    (h : Fold.range? log a b = some (minus, n, log')) (q : Nat) (us : List Expression) :
    (Fold.ranges log (a :: .operator q ":" :: b :: us)).1 =
      minus.toList ++ .range n.position n :: (Fold.ranges (log'.fold n) us).1 := by
  rw [Fold.ranges, h]

theorem Spelled.ranges (h : Spelled t locale us vs) (log : ReferenceLog) :
    Joined t locale us (Fold.ranges log vs).1 := by
  induction h generalizing log with
  | nil => exact .nil
  | unit u u' us vs hu hsettled hus ih =>
    rw [ranges_cons hus.not_colon]
    exact .unit u u' us _ hu hsettled (ih log)
  | range q u a b us vs hcorners _ ih =>
    obtain ⟨n, log', hrange, hmoves⟩ := hcorners.joins log
    rw [ranges_colon hrange]
    exact .unit _ _ us _ hmoves ⟨rfl, rfl⟩ (ih _)
  | negated p q u a b us vs hcorners _ ih =>
    obtain ⟨k, n, log', hrange, hmoves⟩ := hcorners.joins log
    rw [ranges_colon hrange]
    exact .unit _ _ _ _ (.operator p k "-") ⟨rfl, rfl⟩ (.unit _ _ us _ hmoves ⟨rfl, rfl⟩ (ih _))
  | complex q k j u x y s sp' sp us vs hs hu hus ih =>
    have hcolon : s ≠ ":" := by
      rintro rfl
      cases hs
    rw [ranges_cons (by rintro _ _ ⟨⟩; exact hcolon rfl), ranges_cons (by rintro _ _ ⟨⟩), ranges_cons hus.not_colon]
    exact .complex q k j u x y s sp' sp us _ hs hu (ih log)

/-! ### Complex numbers -/

theorem lone_of_settled (h : Fold.imaginaryPart? locale u = none) (log : ReferenceLog) :
    Fold.lone locale log u = (u, log) := by
  unfold Fold.imaginaryPart? at h
  unfold Fold.lone
  split at h
  · cases h
  · split at h
    · cases h
    · rename_i hname
      exact if_neg hname
  · rfl

theorem complexes_cons (hu : Fold.imaginaryPart? locale u = none)
    (hnext : ∀ q s c rest, us = .operator q s :: c :: rest → Fold.imaginaryPart? locale c = none) (log : ReferenceLog) :
    (Fold.complexes locale source log (u :: us)).1 = u :: (Fold.complexes locale source log us).1 := by
  by_cases h : ∃ p x spelling q s c rest, u = .literal p (.number x) spelling ∧ us = .operator q s :: c :: rest
  · obtain ⟨p, x, spelling, q, s, c, rest, rfl, rfl⟩ := h
    have hnone : (if Operator.isSign s = true then Fold.imaginaryPart? locale c else none) = none := by
      rw [hnext q s c rest rfl, ite_self]
    rw [Fold.complexes]
    simp only [hnone]
  · rw [Fold.complexes]
    · simp only [lone_of_settled hu]
    · exact fun p x spelling q s c rest hu hus => h ⟨p, x, spelling, q, s, c, rest, hu, hus⟩

/-- After an operator comes no imaginary number. -/
theorem Joined.next (h : Joined t locale us vs) (q : Nat) (s : String) (c : Expression)
    (rest : List Expression) (hvs : vs = .operator q s :: c :: rest) : Fold.imaginaryPart? locale c = none := by
  subst hvs
  cases h with
  | unit _ _ _ _ _ _ hrest =>
    cases hrest with
    | unit _ _ _ _ _ hsettled => exact hsettled.imaginary
    | complex => rfl

theorem Joined.complexes (h : Joined t locale us vs) (source : List Nat) (log : ReferenceLog) :
    List.Forall₂ (fun u u' => MovesTo t u u' ∧ IsSettled locale u') us (Fold.complexes locale source log vs).1 := by
  induction h generalizing log with
  | nil => exact .nil
  | unit u u' us vs hu hsettled hus ih =>
    rw [complexes_cons hsettled.imaginary hus.next]
    exact .cons ⟨hu, hsettled⟩ (ih log)
  | complex q k j u x y s sp' sp us vs hs hu hus ih =>
    rw [Fold.complexes]
    simp only [hs, if_true, Fold.imaginaryPart?]
    exact .cons ⟨hu _ _, ⟨rfl, rfl⟩⟩ (ih _)

/-! ### Trees -/

theorem exists_of_mem_right {R : Expression → Expression → Prop} {e : Expression} (h : List.Forall₂ R us vs)
    (he : e ∈ vs) : ∃ u ∈ us, R u e := by
  induction h with
  | nil => cases he
  | cons hu _ ih =>
    rcases List.mem_cons.1 he with rfl | he
    · exact ⟨_, List.mem_cons_self, hu⟩
    · obtain ⟨u, hus, hu⟩ := ih he
      exact ⟨u, List.mem_cons_of_mem _ hus, hu⟩

/-- Closing a stream that has been read again gives the tree that was written. -/
theorem closeStream_spelled (h : Spelled t locale us vs) (he : Arrange.units us = .ok e)
    (hstream : r.top.stream = vs.reverse) (source : List Nat) : ∃ e' log,
      r.closeStream locale source = (some e', { r with log }) ∧ MovesTo t e e' := by
  have hjoined := (h.ranges r.log).complexes source (Fold.ranges r.log vs).2
  generalize hlog : (Fold.complexes locale source (Fold.ranges r.log vs).2 (Fold.ranges r.log vs).1).2 = log
  generalize hjoin : (Fold.complexes locale source (Fold.ranges r.log vs).2 (Fold.ranges r.log vs).1).1 = ws at hjoined
  obtain ⟨e', he', hmoves⟩ := Arrange.movesTo_units he (hjoined.imp fun _ _ hu => hu.1)
  have hcolon : ws.find? (Expression.isOperator ":") = none := List.find?_eq_none.2 fun u hu => by
    obtain ⟨_, -, -, hsettled⟩ := exists_of_mem_right hjoined hu
    simp [hsettled.colon]
  have hne : vs ≠ [] := by
    rintro rfl
    rw [h.eq_nil.2 rfl] at he
    cases he
  refine ⟨e', log, ?_, hmoves⟩
  unfold Reader.closeStream
  rw [hstream, List.reverse_reverse]
  split
  · exact absurd rfl hne
  · simp only [hjoin, Arrange.tree, hcolon, he', hlog]

end Spreadsheet.Formula
