import Spreadsheet.Proofs.Formula.Derived
import Spreadsheet.Proofs.Formula.Label
import Spreadsheet.Proofs.Formula.Legible

/-!
What derivations deliver of texts that have been written. The lexeme at the front of a text decides which unit is
delivered first, so a derivation of the text of a unit starts with what the text is read as.
-/

namespace Spreadsheet.Formula

variable {locale : Locale} {first : Bool} {us us' rest out : List Nat} {e v w : Expression} {vs ws : List Expression}
  {u n : Nat} {s : String}

/-! ### What a text delivers -/

theorem read_space (hu : isSpaceUnit u = true) (first : Bool) (p : Nat) (us : List Nat) :
    Lexeme.read locale first p u us = (.space, 0) := by
  unfold Lexeme.read
  rw [if_pos hu]

theorem space_of_read {p : Nat} (h : Lexeme.read locale first p u us = (.space, n)) : isSpaceUnit u = true := by
  by_contra hu
  unfold Lexeme.read at h
  rw [if_neg hu] at h
  split at h
  · cases h
  split at h
  · cases h
  split at h
  · cases h
  split at h
  · rename_i hstart
    rcases Lexeme.word_cases hstart p us with ⟨_, _, _, hw⟩ | ⟨_, _, hw⟩ | ⟨_, _, -, hw | ⟨_, hw⟩⟩
    all_goals
      rw [hw] at h
      cases h
  · cases h

theorem read_parenthesis (locale : Locale) (first : Bool) (p : Nat) (us : List Nat) :
    Lexeme.read locale first p 40 us = (.mark 40, 0) :=
  Reader.read_plain (by simp) (by simp) (by simp) p

/-- The lexeme that is read first decides what is delivered first. -/
theorem Delivers.head {lexeme : Nat → Lexeme} (hread : ∀ p, Lexeme.read locale first p u us = (lexeme p, n))
    (h : Delivers locale first (u :: us) (v :: vs) out) :
    (∃ p, lexeme p = .space ∧ Delivers locale first (us.drop n) (v :: vs) out) ∨
    (∃ p, lexeme p = .atom v none ∧ Delivers locale false (us.drop n) vs out) ∨
    (∃ p s k, lexeme p = .mark u ∧ takeOperator (u :: us) = some (s, k) ∧ v = .operator p s ∧
      Delivers locale false (us.drop (k - 1)) vs out) ∨
    (∃ p openAt name args us', lexeme p = .call name openAt ∧ v = .call p name args ∧
      Lists locale [] (us.drop n) args us' ∧ Delivers locale false us' vs out) ∨
    (∃ p columns us', lexeme p = .openArray ∧ v = .array p columns ∧ Enumerates locale true (us.drop n) us' ∧
      Delivers locale false us' vs out) ∨
    u = 40 := by
  have hsame {p : Nat} {l : Lexeme} {k : Nat} (h : Lexeme.read locale first p u us = (l, k)) : lexeme p = l ∧ n = k := by
    rw [hread p] at h
    exact Prod.mk.inj h
  cases h with
  | space _ p _ _ _ _ _ h hrest =>
    obtain ⟨hl, rfl⟩ := hsame h
    exact .inl ⟨p, hl, hrest⟩
  | atom _ p _ _ _ _ _ _ h hrest =>
    obtain ⟨hl, rfl⟩ := hsame h
    exact .inr (.inl ⟨p, hl, hrest⟩)
  | operator _ p _ _ k _ s _ _ h htake hrest => exact .inr (.inr (.inl ⟨p, s, k, (hsame h).1, htake, rfl, hrest⟩))
  | group | blank => exact .inr (.inr (.inr (.inr (.inr rfl))))
  | call _ p _ _ openAt _ us' name args _ _ h hargs hrest =>
    obtain ⟨hl, rfl⟩ := hsame h
    exact .inr (.inr (.inr (.inl ⟨p, openAt, name, args, us', hl, rfl, hargs, hrest⟩)))
  | array _ p _ _ _ us' columns _ _ h hmembers hrest =>
    obtain ⟨hl, rfl⟩ := hsame h
    exact .inr (.inr (.inr (.inr (.inl ⟨p, columns, us', hl, rfl, hmembers, hrest⟩))))

/-- Space delivers nothing. -/
theorem Delivers.of_space (hu : isSpaceUnit u = true) (h : Delivers locale first (u :: us) (v :: vs) out) :
    Delivers locale first us (v :: vs) out := by
  rcases h.head fun p => read_space hu first p us with ⟨_, -, h⟩ | ⟨_, h, -⟩ | ⟨_, _, _, h, -⟩ | ⟨_, _, _, _, _, h, -⟩ |
    ⟨_, _, _, h, -⟩ | rfl
  · exact h
  · cases h
  · cases h
  · cases h
  · cases h
  · cases hu

/-- A lexeme that is read as one unit delivers it. -/
theorem Delivers.of_atom {P : Expression → Prop}
    (hread : ∀ p, ∃ e, Lexeme.read locale first p u us = (.atom e none, n) ∧ P e)
    (h : Delivers locale first (u :: us) (v :: vs) out) : P v ∧ Delivers locale false (us.drop n) vs out := by
  choose e hread hP using hread
  rcases h.head hread with ⟨_, h, -⟩ | ⟨p, h, hrest⟩ | ⟨_, _, _, h, -⟩ | ⟨_, _, _, _, _, h, -⟩ | ⟨_, _, _, h, -⟩ | rfl
  · cases h
  · obtain ⟨rfl, -⟩ := Lexeme.atom.inj h
    exact ⟨hP p, hrest⟩
  · cases h
  · cases h
  · cases h
  · cases (read_parenthesis locale first 0 us).symm.trans (hread 0)

/-- A text that is read as one unit, in front of what stops it. -/
theorem Delivers.of_reads {P : Expression → Prop} (hread : Reader.ReadsAs locale first us P) (hrest : Lexeme.Stops rest)
    (h : Delivers locale first (us ++ rest) (v :: vs) out) : P v ∧ Delivers locale false rest vs out := by
  obtain ⟨u, us', _, rfl, -⟩ := hread rest hrest 0
  rw [List.cons_append] at h
  have hatom := h.of_atom (n := us'.length) (P := P) fun p => by
    obtain ⟨_, _, e, hunits, hread, hP⟩ := hread rest hrest p
    obtain ⟨rfl, rfl⟩ := List.cons.inj hunits
    exact ⟨e, hread, hP⟩
  rwa [List.drop_left] at hatom

/-- An operator that starts no number delivers itself. -/
theorem Delivers.of_operator (hs : s ∈ Operator.longestFirst) (hequals : rest.head? ≠ some 61)
    (hgreater : rest.head? ≠ some 62)
    (hsign : first = true → Operator.isSign s = true → Lexeme.startsNumber locale rest = false)
    (h : Delivers locale first (Text.units s ++ rest) (v :: vs) out) :
    (∃ p, v = .operator p s) ∧ Delivers locale false rest vs out := by
  obtain ⟨u, us', hunits, hu, hsingle⟩ := units_symbol hs
  have htake := takeOperator_symbol hs hequals hgreater
  have hread (p : Nat) : Lexeme.read locale first p u (us' ++ rest) = (.mark u, 0) := by
    refine Reader.read_plain ?_ ?_ (fun hfirst hminus => ?_) p
    · simp only [List.mem_cons, List.not_mem_nil, or_false] at hu ⊢
      omega
    · rintro rfl
      simp at hu
    · obtain ⟨hsigned, rfl⟩ := hsingle hminus
      exact hsign hfirst hsigned
  rw [hunits] at h htake
  rcases h.head hread with ⟨_, h, -⟩ | ⟨p, h, -⟩ | ⟨p, _, _, -, htake', rfl, hrest⟩ | ⟨_, _, _, _, _, h, -⟩ |
    ⟨_, _, _, h, -⟩ | rfl
  · cases h
  · cases h
  · obtain ⟨rfl, rfl⟩ := Prod.mk.inj (Option.some.inj (htake'.symm.trans htake))
    refine ⟨⟨p, rfl⟩, ?_⟩
    simpa using hrest
  · cases h
  · cases h
  · simp at hu

theorem Delivers.of_call {name : String} (hread : ∀ p, ∃ openAt, Lexeme.read locale first p u us = (.call name openAt, n))
    (h : Delivers locale first (u :: us) (v :: vs) out) : ∃ p args us', v = .call p name args ∧
      Lists locale [] (us.drop n) args us' ∧ Delivers locale false us' vs out := by
  choose openAt hread using hread
  rcases h.head hread with ⟨_, hl, -⟩ | ⟨p, hl, -⟩ | ⟨_, _, _, hl, -⟩ | ⟨p, _, _, args, us', hl, rfl, hargs, hrest⟩ |
    ⟨_, _, _, hl, -⟩ | rfl
  · cases hl
  · cases hl
  · cases hl
  · obtain ⟨rfl, -⟩ := Lexeme.call.inj hl
    exact ⟨p, args, us', rfl, hargs, hrest⟩
  · cases hl
  · cases (read_parenthesis locale first 0 us).symm.trans (hread 0)

theorem Delivers.of_brace (h : Delivers locale first (123 :: us) (v :: vs) out) : ∃ us',
    Enumerates locale true us us' ∧ Delivers locale false us' vs out := by
  rcases h.head fun p => Lexeme.read_brace locale first us p with ⟨_, h, -⟩ | ⟨p, h, -⟩ | ⟨_, _, _, h, -⟩ |
    ⟨_, _, _, _, _, h, -⟩ | ⟨p, columns, us', -, -, hmembers, hrest⟩ | h
  · cases h
  · cases h
  · cases h
  · cases h
  · exact ⟨us', hmembers, hrest⟩
  · cases h

/-- A parenthesis delivers a group, or nothing if there is nothing in it. -/
theorem Delivers.of_parenthesis (h : Delivers locale first (40 :: us) (v :: vs) out) :
    (∃ p e us', v = .group p [e] true ∧ Closes locale [] us (some e) (41 :: us') ∧ Delivers locale false us' vs out) ∨
      ∃ us', Closes locale [] us none (41 :: us') ∧ Delivers locale first us' (v :: vs) out := by
  generalize hall : v :: vs = all at h
  have hmark {p k : Nat} {l : Lexeme} (h : Lexeme.read locale first p 40 us = (l, k)) : l = .mark 40 := by
    rw [read_parenthesis] at h
    exact (Prod.mk.inj h).1.symm
  cases h with
  | nil => cases hall
  | space _ _ _ _ _ _ _ h => cases hmark h
  | atom _ _ _ _ _ _ _ _ h => cases hmark h
  | operator _ _ _ _ _ _ _ _ _ _ htake => cases htake
  | group _ p _ us' e _ _ h hrest =>
    obtain ⟨rfl, rfl⟩ := List.cons.inj hall
    exact .inl ⟨p, e, us', rfl, h, hrest⟩
  | blank _ _ us' _ _ h hrest => exact .inr ⟨us', h, hall ▸ hrest⟩
  | call _ _ _ _ _ _ _ _ _ _ _ h => cases hmark h
  | array _ _ _ _ _ _ _ _ _ h => cases hmark h

/-! ### The end of a stream -/

/-- What stands after a stream in a text that has been written: nothing, a parenthesis or a separator. -/
inductive IsClosing (locale : Locale) : List Nat → Prop
  | nil : IsClosing locale []
  | parenthesis (us : List Nat) : IsClosing locale (41 :: us)
  | separator (us : List Nat) : IsClosing locale (unitOf locale.separator.char :: 32 :: us)

theorem IsClosing.stops (h : IsClosing locale rest) : Lexeme.Stops rest := by
  cases h with
  | nil => exact stops_nil
  | parenthesis us => exact stops_mark (.inl rfl) us
  | separator us => exact stops_separator locale us

/-- A mark that is no operator delivers nothing. -/
theorem Delivers.of_mark (hread : ∀ p, Lexeme.read locale first p u us = (.mark u, n)) (hu : u ≠ 40)
    (hoperator : takeOperator (u :: us) = none) (h : Delivers locale first (u :: us) vs out) :
    vs = [] ∧ out = u :: us := by
  cases h with
  | nil => exact ⟨rfl, rfl⟩
  | space _ p _ _ _ _ _ h => cases (hread p).symm.trans h
  | atom _ p _ _ _ _ _ _ h => cases (hread p).symm.trans h
  | operator _ _ _ _ _ _ _ _ _ _ htake => cases hoperator.symm.trans htake
  | group | blank => exact absurd rfl hu
  | call _ p _ _ _ _ _ _ _ _ _ h => cases (hread p).symm.trans h
  | array _ p _ _ _ _ _ _ _ h => cases (hread p).symm.trans h

theorem IsClosing.delivers (h : IsClosing locale rest) (hd : Delivers locale first rest vs out) :
    vs = [] ∧ out = rest := by
  cases h with
  | nil =>
    cases hd
    exact ⟨rfl, rfl⟩
  | parenthesis us =>
    exact hd.of_mark (fun p => Reader.read_plain (by simp) (by simp) (by simp) p) (by simp) rfl
  | separator us =>
    rcases Reader.separatorUnit locale with hu | hu
    · rw [hu] at hd ⊢
      exact hd.of_mark (fun p => Reader.read_plain (by simp) (by simp) (by simp) p) (by simp) rfl
    · rw [hu] at hd ⊢
      exact hd.of_mark (fun p => Reader.read_plain (by simp) (by simp) (by simp) p) (by simp) rfl

/-! ### The start of a text -/

/-- A text that starts, perhaps after parentheses, with what is neither space nor a parenthesis, and belongs to no
operator that has other units in front. -/
inductive IsOpening : List Nat → Prop
  | unit (u : Nat) (us : List Nat) : isSpaceUnit u = false → u ∉ [40, 41, 61, 62] → IsOpening (u :: us)
  | parenthesis (us : List Nat) : IsOpening us → IsOpening (40 :: us)

theorem IsOpening.append (h : IsOpening us) (rest : List Nat) : IsOpening (us ++ rest) := by
  induction h with
  | unit u us hspace hu => exact .unit u _ hspace hu
  | parenthesis us _ ih => exact .parenthesis _ ih

theorem IsOpening.head_ne (h : IsOpening us) : us.head? ≠ some 61 ∧ us.head? ≠ some 62 := by
  cases h with
  | unit u us hspace hu =>
    simp only [List.head?_cons, Ne, Option.some.injEq]
    constructor <;> rintro rfl <;> simp at hu
  | parenthesis us => simp

/-- Such a text does not reach a parenthesis without delivering something. -/
theorem IsOpening.not_closing (h : IsOpening us) : ¬Delivers locale first us [] (41 :: out) := by
  induction h generalizing first out with
  | unit u us hspace hu =>
    intro hd
    cases hd with
    | nil => exact hu (by simp)
    | space _ _ _ _ _ _ _ hread => exact absurd (space_of_read hread) (by simp [hspace])
    | blank => exact hu (by simp)
  | parenthesis us _ ih =>
    intro hd
    cases hd with
    | space _ _ _ _ _ _ _ hread => cases space_of_read hread
    | blank _ _ us' _ _ hclosed =>
      cases hclosed with
      | none _ _ hd => exact ih hd

/-! ### Labels -/

/-- What a label starts with. -/
theorem head_label {a : Reference} (h : a.row ≠ none ∨ a.column ≠ none) : ∃ u us, Text.units a.spelling = u :: us ∧
    isSpaceUnit u = false ∧ u ∉ [40, 41, 61, 62] := by
  obtain ⟨c, cs, hspelling, hblank, hc⟩ := head_spelling h
  have hunits : Text.units a.spelling = Text.unitsOfChar c ++ cs.flatMap Text.unitsOfChar := by
    rw [Text.units, hspelling, List.flatMap_cons]
  by_cases hplain : c.toNat < 0x10000
  · rw [Text.unitsOfChar_of_lt hplain] at hunits
    refine ⟨_, _, hunits, ?_, fun hmem => hc ?_⟩
    · simp only [Text.isBlank, Bool.or_eq_false_iff, Bool.and_eq_false_iff, decide_eq_false_iff_not,
        beq_eq_false_iff_ne] at hblank
      simp [isSpaceUnit]
      omega
    · have hchar {d : Char} (hd : c.toNat = d.toNat) : c = d := Char.toNat_inj.1 hd
      simp only [List.mem_cons, List.not_mem_nil, or_false] at hmem
      rcases hmem with h | h | h | h
      · simp [hchar (d := '(') h]
      · simp [hchar (d := ')') h]
      · simp [hchar (d := '=') h]
      · simp [hchar (d := '>') h]
  · rw [Text.unitsOfChar_of_le (by omega)] at hunits
    refine ⟨_, _, hunits, ?_, ?_⟩
    · simp [isSpaceUnit]
      omega
    · simp only [List.mem_cons, List.not_mem_nil, or_false]
      omega

theorem isOpening_label {a : Reference} (h : a.row ≠ none ∨ a.column ≠ none) : IsOpening (Text.units a.spelling) := by
  obtain ⟨u, us, hunits, hspace, hu⟩ := head_label h
  rw [hunits]
  exact .unit u us hspace hu

/-- A label of which the reference itself is delivered keeps its sheet. -/
theorem Delivers.isKept {a : Reference} {m : Mention} (hplaced : a.row ≠ none ∨ a.column ≠ none)
    (h : Delivers locale first (Text.units a.spelling ++ rest) (v :: vs) out)
    (hm : v = .cell m ∨ Mention.ofUnit? v = some m) (htarget : m.target = a) : a.IsKept := by
  obtain ⟨u, us, hunits, hspace, hu⟩ := head_label hplaced
  generalize htext : Text.units a.spelling ++ rest = text at h
  generalize hall : v :: vs = all at h
  have hfront : Text.units a.spelling ++ rest = u :: (us ++ rest) := by rw [hunits, List.cons_append]
  cases h with
  | nil => cases hall
  | space _ _ w _ _ _ _ hread =>
    obtain ⟨rfl, -⟩ := List.cons.inj (hfront.symm.trans htext)
    exact absurd (space_of_read hread) (by simp [hspace])
  | atom _ p w n ws e _ _ hread =>
    obtain ⟨rfl, -⟩ := List.cons.inj hall
    rcases read_inversion hread with ⟨q, x, spelling, rfl⟩ | ⟨q, y, spelling, rfl⟩ | ⟨hstart, hword⟩
    · -- a number stands for a row, which is on no other sheet
      rcases hm with hm | hm
      · cases hm
      · unfold Mention.ofUnit? at hm
        split at hm
        · have hsheet := sheet_of_rowNumber hm
          intro name hname
          rw [← htarget, hsheet] at hname
          cases hname
        · rename_i heq
          cases heq
        · cases hm
    · rcases hm with hm | hm <;> cases hm
    · obtain ⟨hk, hcases⟩ := word_front hword hstart
      rcases hcases with ⟨b, rfl⟩ | ⟨hname, hatom⟩
      · rcases hm with hm | hm <;> cases hm
      · refine isKept_of_front hplaced htext hstart (congrArg Prod.fst hk) hname (p := p) ?_ htarget
        unfold Lexeme.wordAtom at hatom
        split at hatom
        · rename_i k hk
          obtain rfl := hatom
          rcases hm with hm | hm
          · obtain rfl := Expression.cell.inj hm
            exact .inl hk
          · cases hm
        · obtain rfl := hatom
          rcases hm with hm | hm
          · cases hm
          · exact .inr hm
  | operator _ p w n k ws s _ _ hread htake =>
    obtain ⟨rfl, -⟩ := List.cons.inj hall
    rcases hm with hm | hm <;> cases hm
  | group | blank =>
    obtain ⟨rfl, -⟩ := List.cons.inj (hfront.symm.trans htext)
    exact absurd (by simp) hu
  | call | array =>
    obtain ⟨rfl, -⟩ := List.cons.inj hall
    rcases hm with hm | hm <;> cases hm

end Spreadsheet.Formula
