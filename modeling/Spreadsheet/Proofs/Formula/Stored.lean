import Mathlib.Data.List.DropRight
import Spreadsheet.Cell
import Spreadsheet.Formula.Parse

/-!
Formulas that are stored. The formula of a cell leaves out all `=` in front, and reading a text leaves out
one; since no formula without faults starts with another one, a cell's formula reads the same as the text
that was entered.
-/

namespace Spreadsheet

namespace Formula

variable {locale : Locale} {source : List Nat} {u : Expression} {start : Option Expression} {r : Reader}
  {f f' : Frame} {below : List Frame}

/-! ### Streams that start with an operator -/

/-- The frames of a reader of which the outermost one is the formula and no other one is. If a unit is given, then
the formula starts with it. -/
def Rooted (start : Option Expression) : List Frame → Prop
  | [] => False
  | [f] => f.kind = .whole ∧ ∀ e ∈ start, f.stream.getLast? = some e
  | f :: g :: frames => f.kind ≠ .whole ∧ Rooted start (g :: frames)

/-- The frames of a reader, the innermost one first. -/
def Reader.frames (r : Reader) : List Frame := r.top :: r.below

/-- A change of the innermost frame that adds to its stream and does not change where it stands. -/
theorem Rooted.replace (h : Rooted start (f :: below)) (hkind : f'.kind = .whole ↔ f.kind = .whole)
    (hstream : f.kind = .whole → ∀ e, f.stream.getLast? = some e → f'.stream.getLast? = some e) :
    Rooted start (f' :: below) := by
  cases below with
  | nil => exact ⟨hkind.2 h.1, fun e he => hstream h.1 e (h.2 e he)⟩
  | cons g below => exact ⟨mt hkind.1 h.1, h.2⟩

/-- Below a frame that is not the whole formula there is another one. -/
theorem Rooted.around (h : Rooted start (f :: below)) (hkind : f.kind ≠ .whole) :
    ∃ g rest, below = g :: rest ∧ Rooted start below := by
  cases below with
  | nil => exact absurd h.1 hkind
  | cons g rest => exact ⟨g, rest, rfl, h.2⟩

namespace Reader

theorem rooted_fail (h : Rooted start r.frames) (fault : Fault) (i : Nat) : Rooted start (r.fail fault i).frames := h

theorem rooted_deliver (h : Rooted start r.frames) (u : Expression) : Rooted start (r.deliver u).frames := by
  unfold deliver
  split
  · rename_i hkind
    split
    · exact Rooted.replace h (by simp [hkind]) fun hc => by simp [hkind] at hc
    · exact h
  · refine Rooted.replace (f := r.top) h Iff.rfl fun _ e hlast => ?_
    change (u :: r.top.stream).getLast? = some e
    rw [List.getLast?_cons, hlast, Option.getD_some]

theorem below_deliver (r : Reader) (u : Expression) : (r.deliver u).below = r.below := by
  unfold deliver
  split
  · cases u <;> rfl
  · rfl

theorem rooted_push (h : Rooted start r.frames) {kind : Frame.Kind} (hkind : kind ≠ .whole) :
    Rooted start (r.push kind).frames := ⟨hkind, h⟩

theorem frames_closeStream (locale : Locale) (source : List Nat) (r : Reader) :
    (r.closeStream locale source).2.frames = r.frames := by
  unfold closeStream
  split
  · rfl
  · simp only
    split <;> rfl

theorem rooted_pop (h : Rooted start r.frames) (hkind : r.top.kind ≠ .whole) (u : Option Expression) :
    Rooted start (r.pop u).frames ∧ (r.pop u).below.length + 1 = r.below.length := by
  obtain ⟨g, rest, hbelow, hrest⟩ := Rooted.around h hkind
  unfold pop
  rw [hbelow] at hrest ⊢
  simp only
  cases u with
  | none => exact ⟨hrest, rfl⟩
  | some u =>
    refine ⟨rooted_deliver (r := { r with top := g, below := rest }) hrest u, ?_⟩
    rw [below_deliver]
    rfl

theorem top_eq {r r' : Reader} (h : r'.frames = r.frames) : r'.top = r.top := (List.cons.inj h).1

theorem below_eq {r r' : Reader} (h : r'.frames = r.frames) : r'.below = r.below := (List.cons.inj h).2

/-- Closing a frame takes it away. -/
theorem rooted_close (h : Rooted start r.frames) (locale : Locale) (source : List Nat) (fault : Option Fault)
    (hkind : r.top.kind ≠ .whole) : Rooted start (r.close locale source fault).frames ∧
      (r.close locale source fault).below.length + 1 = r.below.length := by
  have hpop (r' : Reader) (hframes : r'.frames = r.frames) (u : Option Expression) :
      Rooted start (r'.pop u).frames ∧ (r'.pop u).below.length + 1 = r.below.length := by
    rw [← below_eq hframes]
    exact rooted_pop (hframes ▸ h) (top_eq hframes ▸ hkind) u
  have hclose := frames_closeStream locale source r
  unfold close
  cases hk : r.top.kind with
  | whole => exact absurd hk hkind
  | parentheses openAt =>
    simp only
    refine hpop _ ?_ _
    cases fault <;> exact hclose
  | call position name openAt arguments index =>
    simp only
    refine hpop _ ?_ _
    cases fault <;> exact hclose
  | array openAt columns column row mark =>
    simp only
    refine hpop _ ?_ _
    cases fault <;> rfl

theorem rooted_endArgument (h : Rooted start r.frames) (locale : Locale) (source : List Nat) (i : Nat) :
    Rooted start (r.endArgument locale source i).frames := by
  unfold endArgument
  split
  · rename_i position name openAt arguments index hkind
    simp only [frames]
    rw [below_eq (frames_closeStream locale source r)]
    exact Rooted.replace (f := r.top) h (by simp [hkind]) fun hc => by simp [hkind] at hc
  · exact h

theorem rooted_arrayMark (h : Rooted start r.frames) (locale : Locale) (source : List Nat) (i u : Nat) :
    Rooted start (r.arrayMark locale source i u).frames := by
  unfold arrayMark
  split
  · rename_i openAt columns column row mark hkind
    have hne : r.top.kind ≠ .whole := by simp [hkind]
    split
    · exact Rooted.replace (f := r.top) h (by simp [hkind]) fun hc => absurd hc hne
    · split
      · exact Rooted.replace (f := r.top) h (by simp [hkind]) fun hc => absurd hc hne
      · split
        · exact (rooted_close h locale source none hne).1
        · exact h
  · exact h

theorem rooted_otherMark (h : Rooted start r.frames) (i u : Nat) (us : List Nat) :
    Rooted start (r.otherMark i u us).1.frames := by
  unfold otherMark
  split
  · exact rooted_push h (by simp)
  · split
    · exact rooted_deliver h _
    · exact h

theorem rooted_mark (h : Rooted start r.frames) (locale : Locale) (source : List Nat) (i u : Nat) (us : List Nat) :
    Rooted start (r.mark locale source i u us).1.frames := by
  unfold mark
  split
  · exact rooted_arrayMark h locale source i u
  · rename_i openAt hkind
    split
    · exact (rooted_close h locale source none (by simp [hkind])).1
    · exact rooted_otherMark h i u us
  · rename_i position name openAt arguments index hkind
    split
    · exact rooted_endArgument h locale source i
    · split
      · exact (rooted_close h locale source none (by simp [hkind])).1
      · exact rooted_otherMark h i u us
  · exact rooted_otherMark h i u us

theorem rooted_take (h : Rooted start r.frames) (locale : Locale) (source : List Nat) (i u : Nat) (us : List Nat) :
    Rooted start (r.take locale source i u us).1.frames := by
  unfold take
  split
  · exact h
  · rename_i unit n hread
    exact rooted_deliver (r := { r with log := r.log.note unit }) h unit
  · exact rooted_deliver (rooted_fail h _ _) _
  · exact rooted_push h (by simp)
  · exact rooted_push h (by simp)
  · exact rooted_mark h locale source i _ us

theorem rooted_takeAll (h : Rooted start r.frames) (locale : Locale) (source : List Nat) (i : Nat) (us : List Nat) :
    Rooted start (r.takeAll locale source i us).frames := by
  fun_induction takeAll locale source r i us with
  | case1 => exact h
  | case2 r i u us r' n htake ih =>
    refine ih ?_
    have hr := rooted_take h locale source i u us
    rwa [htake] at hr

/-- When all frames have been closed only the whole formula is left. -/
theorem rooted_closeAll (h : Rooted start r.frames) (locale : Locale) (source : List Nat) :
    Rooted start (r.closeAll locale source r.below.length).frames ∧
      (r.closeAll locale source r.below.length).below = [] := by
  generalize hdepth : r.below.length = depth
  induction depth generalizing r with
  | zero => exact ⟨h, List.length_eq_zero_iff.1 hdepth⟩
  | succ depth ih =>
    have hkind : r.top.kind ≠ .whole := by
      obtain ⟨g, rest, hbelow⟩ := List.exists_cons_of_length_eq_add_one hdepth
      rw [frames, hbelow] at h
      exact h.1
    obtain ⟨hclose, hlength⟩ := rooted_close h locale source (some (missingMark r.top.kind)) hkind
    exact ih hclose (by omega)

end Reader

/-! ### Formulas that start with a sign of equality -/

/-- A stream that starts with an operator which is no sign makes no tree. -/
theorem tree_operator {s : String} (hsign : Operator.isSign s = false) (i : Nat) (us : List Expression) :
    ∃ fault, Arrange.tree (.operator i s :: us) = .error fault := by
  unfold Arrange.tree
  split
  · exact ⟨_, rfl⟩
  · refine ⟨⟨.unexpectedOperator s, i⟩, ?_⟩
    simp only [Arrange.units, Arrange.takeOperand, hsign]
    rfl

theorem ranges_operator (log : ReferenceLog) (i : Nat) (s : String) (us : List Expression) :
    ∃ us', (Fold.ranges log (.operator i s :: us)).1 = .operator i s :: us' := by
  unfold Fold.ranges
  split
  · rename_i a p b rest heq
    cases heq
    simp only [Fold.range?, Fold.leftCorner?, Mention.ofUnit?, Fold.negatedRow?, Option.map_none]
    exact ⟨_, rfl⟩
  · rename_i heq
    cases heq
    exact ⟨_, rfl⟩
  · rename_i heq
    cases heq

theorem complexes_operator (locale : Locale) (source : List Nat) (log : ReferenceLog) (i : Nat) (s : String)
    (us : List Expression) :
    ∃ us', (Fold.complexes locale source log (.operator i s :: us)).1 = .operator i s :: us' := by
  unfold Fold.complexes
  exact ⟨_, rfl⟩

/-- A formula whose first unit is an operator, and not a sign, has a fault. -/
theorem error_of_rooted {s : String} (hsign : Operator.isSign s = false) (i : Nat)
    (h : Rooted (some (.operator i s)) r.frames) (hbelow : r.below = []) :
    (r.closeStream locale source).2.error.isSome = true := by
  rw [Reader.frames, hbelow] at h
  have hlast : r.top.stream.reverse.head? = some (.operator i s) := by rw [List.head?_reverse, h.2 _ rfl]
  obtain ⟨us, hus⟩ := List.head?_eq_some_iff.1 hlast
  unfold Reader.closeStream
  rw [hus]
  simp only
  obtain ⟨us', hus'⟩ := ranges_operator r.log i s us
  rw [hus']
  obtain ⟨us'', hus''⟩ := complexes_operator locale source (Fold.ranges r.log (.operator i s :: us)).2 i s us'
  rw [hus'']
  obtain ⟨fault, hfault⟩ := tree_operator hsign i us''
  rw [hfault]
  simp only [Reader.fail]
  cases r.error <;> rfl

/-- Two signs of equality are read as one operator. -/
theorem takeOperator_equals (us : List Nat) :
    ∃ s n, takeOperator (61 :: us) = some (s, n) ∧ Operator.isSign s = false := by
  by_cases h : us.head? = some 61
  · obtain ⟨rest, rfl⟩ := List.head?_eq_some_iff.1 h
    exact ⟨"==", 2, rfl, rfl⟩
  · refine ⟨"=", 1, ?_, rfl⟩
    have hdouble : (Text.units "==").isPrefixOf (61 :: us) = false := by
      cases us with
      | nil => rfl
      | cons u us =>
        have hu : u ≠ 61 := by simpa using h
        simp [Text.units, Text.unitsOfChar, List.isPrefixOf, Ne.symm hu]
    have hother : (Text.units "!==").isPrefixOf (61 :: us) = false := rfl
    have hthird : (Text.units "!=").isPrefixOf (61 :: us) = false := rfl
    have hfourth : (Text.units "<>").isPrefixOf (61 :: us) = false := rfl
    have hfifth : (Text.units "<=").isPrefixOf (61 :: us) = false := rfl
    have hsixth : (Text.units ">=").isPrefixOf (61 :: us) = false := rfl
    have hself : (Text.units "=").isPrefixOf (61 :: us) = true := rfl
    simp only [takeOperator, Operator.longestFirst, List.find?, hdouble, hother, hthird, hfourth, hfifth, hsixth,
      hself]
    rfl

theorem read_equals (locale : Locale) (us : List Nat) : Lexeme.read locale true 0 61 us = (.mark 61, 0) := by
  have hnumber : Lexeme.startsNumber locale (61 :: us) = false := by
    cases hdecimal : locale.decimal <;> simp [Lexeme.startsNumber, hdecimal, isDigitUnit, DecimalMark.char, unitOf]
  unfold Lexeme.read
  rw [hnumber]
  rfl

/-- A formula that starts with a sign of equality, besides the one that is left out, has a fault. -/
theorem error_of_equals (locale : Locale) {text : String} {cs : List Char} (hbody : (body text).toList = '=' :: cs) :
    (parse locale text).error.isSome = true := by
  have hsource : Text.units (body text) = 61 :: cs.flatMap Text.unitsOfChar := by
    rw [Text.units, hbody]
    rfl
  obtain ⟨s, n, htake, hsign⟩ := takeOperator_equals (cs.flatMap Text.unitsOfChar)
  have hfirst : ({} : Reader).take locale (Text.units (body text)) 0 61 (cs.flatMap Text.unitsOfChar) =
      (({} : Reader).deliver (.operator 0 s), n - 1) := by
    unfold Reader.take
    rw [show ({} : Reader).top.stream.isEmpty = true from rfl, read_equals]
    change Reader.otherMark {} 0 61 _ = _
    unfold Reader.otherMark
    rw [htake]
    rfl
  have hrooted : Rooted (some (.operator 0 s)) (({} : Reader).deliver (.operator 0 s)).frames :=
    ⟨rfl, by rintro _ ⟨⟩; rfl⟩
  unfold parse
  simp only
  rw [hsource] at hfirst ⊢
  rw [Reader.takeAll, hfirst]
  obtain ⟨hclosed, hbelow⟩ := Reader.rooted_closeAll (Reader.rooted_takeAll hrooted locale _ _ _) locale _
  exact error_of_rooted hsign 0 hclosed hbelow

end Formula

/-! ### Trimming -/

namespace Text

theorem trimStart_of_not_blank {c : Char} (hc : isBlank c = false) (cs : List Char) :
    trimStart (c :: cs) = c :: cs := by
  rw [trimStart, List.dropWhile_cons_of_neg (by simp [hc])]

theorem dropWhile_append_of_not_blank {c : Char} (hc : isBlank c = false) (cs ds : List Char) :
    (cs ++ c :: ds).dropWhile isBlank = cs.dropWhile isBlank ++ c :: ds := by
  induction cs with
  | nil => exact trimStart_of_not_blank hc ds
  | cons d cs ih =>
    by_cases hd : isBlank d = true
    · rw [List.cons_append, List.dropWhile_cons_of_pos hd, List.dropWhile_cons_of_pos hd, ih]
    · rw [List.cons_append, List.dropWhile_cons_of_neg hd, List.dropWhile_cons_of_neg hd, List.cons_append]

/-- Trimming the end does not go past a character that is not blank. -/
theorem trimEnd_append_of_not_blank {c : Char} (hc : isBlank c = false) (cs ds : List Char) :
    trimEnd (cs ++ c :: ds) = cs ++ c :: trimEnd ds := by
  rw [trimEnd, trimEnd, List.reverse_append, List.reverse_cons, List.append_assoc, List.singleton_append,
    dropWhile_append_of_not_blank hc, List.reverse_append, List.reverse_cons, List.reverse_reverse,
    List.append_assoc, List.singleton_append]

/-- Nothing is trimmed off a text without blanks at its ends. -/
theorem trimChars_of_not_blank {c d : Char} {cs ds es : List Char} (hc : isBlank c = false) (hd : isBlank d = false)
    (hcs : cs = c :: ds) (hes : cs = es ++ [d]) : trimChars cs = cs := by
  rw [trimChars, hcs, trimStart_of_not_blank hc, ← hcs, hes, trimEnd_append_of_not_blank hd]
  rfl

theorem trimEnd_idem (cs : List Char) : trimEnd (trimEnd cs) = trimEnd cs :=
  List.rdropWhile_idempotent isBlank cs

/-- A text is blank up to its first character that is not. -/
theorem trimStart_cases (cs : List Char) :
    (trimStart cs = [] ∧ ∀ c ∈ cs, isBlank c = true) ∨
      ∃ blanks c rest, trimStart cs = c :: rest ∧ isBlank c = false ∧ cs = blanks ++ c :: rest ∧
        ∀ c ∈ blanks, isBlank c = true := by
  induction cs with
  | nil => exact .inl ⟨rfl, fun c hc => absurd hc List.not_mem_nil⟩
  | cons d cs ih =>
    by_cases hd : isBlank d = true
    · have hdrop : trimStart (d :: cs) = trimStart cs := List.dropWhile_cons_of_pos hd
      rcases ih with ⟨hnil, hall⟩ | ⟨blanks, c, rest, hstart, hc, rfl, hall⟩
      · exact .inl ⟨hdrop.trans hnil, List.forall_mem_cons.2 ⟨hd, hall⟩⟩
      · exact .inr ⟨d :: blanks, c, rest, hdrop.trans hstart, hc, rfl, List.forall_mem_cons.2 ⟨hd, hall⟩⟩
    · have hd : isBlank d = false := by simpa using hd
      exact .inr ⟨[], d, cs, trimStart_of_not_blank hd cs, hd, rfl, fun c hc => absurd hc List.not_mem_nil⟩

/-- Trimming the end first makes no difference. -/
theorem trimChars_trimEnd (cs : List Char) : trimChars (trimEnd cs) = trimChars cs := by
  rcases trimStart_cases cs with ⟨hnil, hall⟩ | ⟨blanks, c, rest, hstart, hc, hsplit, hall⟩
  · have hend : trimEnd cs = [] := by
      rw [trimEnd, List.reverse_eq_nil_iff, List.dropWhile_eq_nil_iff]
      exact fun c hmem => hall c (List.mem_reverse.1 hmem)
    rw [hend, trimChars, trimChars, hnil]
    rfl
  · have hend : trimEnd cs = blanks ++ c :: trimEnd rest := by rw [hsplit, trimEnd_append_of_not_blank hc]
    have hstart' : trimStart (blanks ++ c :: trimEnd rest) = c :: trimEnd rest := by
      rw [trimStart, List.dropWhile_append_of_pos hall]
      exact trimStart_of_not_blank hc _
    have hcons (ds : List Char) : trimEnd (c :: ds) = c :: trimEnd ds := trimEnd_append_of_not_blank hc [] ds
    rw [hend, trimChars, trimChars, hstart', hstart, hcons, hcons, trimEnd_idem]

end Text

namespace Formula

variable {locale : Locale}

theorem toList_body_of_equals {text : String} {rest : List Char} (h : Text.trimStart text.toList = '=' :: rest) :
    (body text).toList = Text.trimChars rest := by
  have htrim : Text.trimChars text.toList = '=' :: Text.trimEnd rest := by
    rw [Text.trimChars, h]
    exact Text.trimEnd_append_of_not_blank rfl [] rest
  simp only [body, htrim, String.toList_ofList]
  exact Text.trimChars_trimEnd rest

theorem toList_body_of_ne (text : String) (h : ∀ rest, Text.trimChars text.toList ≠ '=' :: rest) :
    (body text).toList = Text.trimChars text.toList := by
  simp only [body]
  rw [String.toList_ofList]

/-- The formula of a cell is read as the text that was entered. -/
theorem body_formula {c : Cell} {text text' : String} (hcontent : c.content = .formula text)
    (hformula : c.formula? = some text') (hvalid : (parse locale text).error = none) : body text' = body text := by
  have hequals (cs : List Char) (hc : (body text).toList = '=' :: cs) : False := by
    have herror := error_of_equals locale hc
    rw [hvalid] at herror
    cases herror
  have htext' : text'.toList = (Text.trimStart text.toList).dropWhile (· == '=') := by
    unfold Cell.formula? at hformula
    rw [hcontent] at hformula
    rw [← Option.some.inj hformula, String.toList_ofList]
  refine String.toList_injective ?_
  rcases Text.trimStart_cases text.toList with ⟨hnil, -⟩ | ⟨blanks, d, rest, hstart, hd, -, -⟩
  · have hempty : Text.trimChars text.toList = [] := by
      rw [Text.trimChars, hnil]
      rfl
    rw [hnil] at htext'
    rw [toList_body_of_ne text (by simp [hempty]), hempty,
      toList_body_of_ne text' (by rw [htext']; simp [Text.trimChars, Text.trimStart, Text.trimEnd]), htext']
    rfl
  · by_cases heq : d = '='
    · subst heq
      have hbody := toList_body_of_equals hstart
      -- what follows starts with no further sign of equality, so nothing else is left out
      have hrest : rest.dropWhile (· == '=') = rest := by
        cases rest with
        | nil => rfl
        | cons e rest =>
          refine List.dropWhile_cons_of_neg fun he => ?_
          obtain rfl : e = '=' := by simpa using he
          refine hequals (Text.trimEnd rest) ?_
          rw [hbody, Text.trimChars, Text.trimStart_of_not_blank rfl]
          exact Text.trimEnd_append_of_not_blank rfl [] rest
      have htext'' : text'.toList = rest := by rw [htext', hstart, List.dropWhile_cons_of_pos rfl, hrest]
      rw [hbody, toList_body_of_ne text', htext'']
      intro rest' hc
      rw [htext''] at hc
      exact hequals rest' (hbody.trans hc)
    · have htrim : Text.trimChars text.toList = d :: Text.trimEnd rest := by
        rw [Text.trimChars, hstart]
        exact Text.trimEnd_append_of_not_blank hd [] rest
      have htext'' : text'.toList = d :: rest := by
        rw [htext', hstart, List.dropWhile_cons_of_neg (by simpa using heq)]
      have htrim' : Text.trimChars text'.toList = d :: Text.trimEnd rest := by
        rw [htext'', Text.trimChars, Text.trimStart_of_not_blank hd]
        exact Text.trimEnd_append_of_not_blank hd [] rest
      rw [toList_body_of_ne text (by simp [htrim, heq]),
        toList_body_of_ne text' (by simp [htrim', heq]), htrim, htrim']

theorem parse_congr {text text' : String} (h : body text' = body text) : parse locale text' = parse locale text := by
  rw [parse, parse, h]

end Formula

end Spreadsheet
