import Spreadsheet.Proofs.Formula.Spelled

/-!
Scanning what has been written. The text of a unit is read as the units it was written for, whatever the reader
has taken before and whatever comes after it.
-/

namespace Spreadsheet.Formula

open Expression (MovesTo)
open Lexeme (Stops Unsigned read startsNumber)

variable {t : Rereading} {locale : Locale} {source us vs rest : List Nat} {first : Bool} {u : Nat}
  {r : Reader} {s : String}

/-! ### What stops a lexeme -/

theorem stops_nil : Stops [] where
  word := by rintro u ⟨⟩
  quote := by simp
  percent := by simp
  sign := rfl
  comma := by rintro vs ⟨⟩
  call := by simp

/-- Before these units a lexeme ends, whatever follows them: `)`, `:`, `;` and the closing brace. -/
theorem stops_mark (h : u = 41 ∨ u = 58 ∨ u = 59 ∨ u = 125) (rest : List Nat) : Stops (u :: rest) where
  word := by
    rintro v ⟨⟩
    rcases h with rfl | rfl | rfl | rfl <;> rfl
  quote := by rcases h with rfl | rfl | rfl | rfl <;> simp [unitOf]
  percent := by rcases h with rfl | rfl | rfl | rfl <;> simp [unitOf]
  sign := Lexeme.unsigned_cons (by omega) (by omega) rest
  comma := by
    rintro vs heq
    obtain rfl : u = 44 := (List.cons.inj heq).1
    omega
  call := by
    rw [List.dropWhile_cons_of_neg (by rcases h with rfl | rfl | rfl | rfl <;> simp [isSpaceUnit])]
    rcases h with rfl | rfl | rfl | rfl <;> simp [unitOf]

/-- A lexeme ends before a comma that a space follows. -/
theorem stops_comma (rest : List Nat) : Stops (44 :: 32 :: rest) where
  word := by rintro v ⟨⟩; rfl
  quote := by simp [unitOf]
  percent := by simp [unitOf]
  sign := rfl
  comma := by
    rintro vs heq v hv
    obtain rfl := (List.cons.inj heq).2
    obtain rfl : 32 = v := by simpa using hv
    rfl
  call := by simp [unitOf, isSpaceUnit]

theorem stops_separator (locale : Locale) (rest : List Nat) :
    Stops (unitOf locale.separator.char :: 32 :: rest) := by
  cases locale.separator
  · exact stops_comma rest
  · exact stops_mark (.inr (.inr (.inl rfl))) _

/-- A lexeme ends before a space, unless the space leads to the parenthesis of a call. -/
theorem stops_space (h : (rest.dropWhile isSpaceUnit).head? ≠ some 40) : Stops (32 :: rest) where
  word := by rintro v ⟨⟩; rfl
  quote := by simp [unitOf]
  percent := by simp [unitOf]
  sign := rfl
  comma := by rintro vs ⟨⟩
  call := h

/-! ### Operators -/

theorem takeOperator_symbol (hs : s ∈ Operator.longestFirst) (hequals : rest.head? ≠ some 61)
    (hgreater : rest.head? ≠ some 62) :
    takeOperator (Text.units s ++ rest) = some (s, (Text.units s).length) := by
  simp only [Operator.longestFirst, List.mem_cons, List.not_mem_nil, or_false] at hs
  have hcases : rest = [] ∨ ∃ u us, rest = u :: us ∧ (61 == u) = false ∧ (62 == u) = false := by
    cases rest with
    | nil => exact .inl rfl
    | cons u us =>
      refine .inr ⟨u, us, rfl, ?_, ?_⟩
      · exact beq_eq_false_iff_ne.2 fun h => hequals (congrArg some h.symm)
      · exact beq_eq_false_iff_ne.2 fun h => hgreater (congrArg some h.symm)
  rcases hs with rfl | rfl | rfl | rfl | rfl | rfl | rfl | rfl | rfl | rfl | rfl | rfl | rfl | rfl | rfl | rfl | rfl
  all_goals
    rcases hcases with rfl | ⟨u, us, rfl, h61, h62⟩
    · rfl
    · simp [takeOperator, Operator.longestFirst, Text.units, Text.unitsOfChar, List.isPrefixOf, h61, h62]

/-- The first units of operators. -/
theorem units_symbol (hs : s ∈ Operator.longestFirst) : ∃ u us, Text.units s = u :: us ∧
    u ∈ [33, 37, 38, 42, 43, 45, 47, 58, 60, 61, 62, 94] ∧ (u = 45 ∨ u = 43 → Operator.isSign s = true ∧ us = []) := by
  simp only [Operator.longestFirst, List.mem_cons, List.not_mem_nil, or_false] at hs
  rcases hs with rfl | rfl | rfl | rfl | rfl | rfl | rfl | rfl | rfl | rfl | rfl | rfl | rfl | rfl | rfl | rfl | rfl
  all_goals exact ⟨_, _, rfl, by decide, by decide⟩

/-! ### Steps of the reader -/

/-- The frame takes units into its stream. -/
def Frame.Kind.IsOpen : Frame.Kind → Prop
  | .array _ _ _ _ _ => False
  | _ => True

namespace Reader

/-- The reader after units have been taken into the innermost stream. -/
def grown (r : Reader) (us : List Expression) (log : ReferenceLog) : Reader :=
  { r with top := { r.top with stream := us.reverse ++ r.top.stream }, log }

@[simp] theorem grown_grown (us vs : List Expression) (log log' : ReferenceLog) :
    (r.grown us log).grown vs log' = r.grown (us ++ vs) log' := by
  simp [grown]

@[simp] theorem kind_grown (us : List Expression) (log : ReferenceLog) : (r.grown us log).top.kind = r.top.kind := rfl

@[simp] theorem below_grown (us : List Expression) (log : ReferenceLog) : (r.grown us log).below = r.below := rfl

@[simp] theorem log_grown (us : List Expression) (log : ReferenceLog) : (r.grown us log).log = log := rfl

@[simp] theorem error_grown (us : List Expression) (log : ReferenceLog) : (r.grown us log).error = r.error := rfl

@[simp] theorem stream_grown (us : List Expression) (log : ReferenceLog) :
    (r.grown us log).top.stream = us.reverse ++ r.top.stream := rfl

theorem deliver_open (hopen : r.top.kind.IsOpen) (e : Expression) : r.deliver e = r.grown [e] r.log := by
  unfold deliver
  split
  · rename_i hkind
    rw [hkind] at hopen
    exact hopen.elim
  · rfl

theorem takeAll_cons (locale : Locale) (source : List Nat) (r : Reader) (i u : Nat) (us : List Nat) :
    r.takeAll locale source i (u :: us) = (r.take locale source i u us).1.takeAll locale source
      (i + 1 + (r.take locale source i u us).2) (us.drop (r.take locale source i u us).2) := by
  rw [takeAll]

theorem takeAll_space (locale : Locale) (source : List Nat) (r : Reader) (i : Nat) (us : List Nat) :
    r.takeAll locale source i (32 :: us) = r.takeAll locale source (i + 1) us := by
  rw [takeAll_cons]
  rfl

/-- One lexeme that is a unit. -/
theorem takeAll_atom (source : List Nat) {e : Expression} {i : Nat}
    (h : read locale r.top.stream.isEmpty i u (us ++ rest) = (.atom e none, us.length)) :
    ∃ j, r.takeAll locale source i (u :: (us ++ rest)) =
      ({ r with log := r.log.note e }.deliver e).takeAll locale source j rest := by
  refine ⟨i + 1 + us.length, ?_⟩
  rw [takeAll_cons, take, h]
  simp only [List.drop_left]

/-- One lexeme that is a unit of an open frame. -/
theorem takeAll_unit (source : List Nat) (hopen : r.top.kind.IsOpen) {e : Expression} {i : Nat}
    (h : read locale r.top.stream.isEmpty i u (us ++ rest) = (.atom e none, us.length)) :
    ∃ j, r.takeAll locale source i (u :: (us ++ rest)) =
      (r.grown [e] (r.log.note e)).takeAll locale source j rest := by
  obtain ⟨j, hj⟩ := takeAll_atom source h
  refine ⟨j, hj.trans ?_⟩
  rw [deliver_open (r := { r with log := r.log.note e }) hopen]
  rfl

/-- One lexeme that is a mark. -/
theorem takeAll_mark {i : Nat} (h : read locale r.top.stream.isEmpty i u us = (.mark u, 0)) :
    r.takeAll locale source i (u :: us) = (r.mark locale source i u us).1.takeAll locale source
      (i + 1 + (r.mark locale source i u us).2) (us.drop (r.mark locale source i u us).2) := by
  rw [takeAll_cons, take, h]

/-- The marks that are neither space nor start a lexeme of several units. -/
theorem read_plain {u : Nat} (hu : u ∈ [33, 37, 38, 40, 41, 42, 43, 44, 45, 47, 58, 59, 60, 61, 62, 94, 125])
    (hcomma : u = 44 → us.head? = some 32) (hsign : first = true → u = 45 ∨ u = 43 → startsNumber locale us = false)
    (p : Nat) : read locale first p u us = (.mark u, 0) := by
  simp only [List.mem_cons, List.not_mem_nil, or_false] at hu
  have hnumber : startsNumber locale (u :: us) = false := by
    by_cases hmark : u = unitOf locale.decimal.char
    · have hcode := Lexeme.decimalUnit locale
      have hhead := hcomma (by omega)
      have hdigit : isDigitUnit u = false := by simp [isDigitUnit]; omega
      simp [startsNumber, hdigit, hhead]
      simp [isDigitUnit]
    · refine Lexeme.startsNumber_of_ne ?_ hmark us
      simp [isDigitUnit]
      omega
  refine Lexeme.read_mark ?_ (by omega) (by omega) ?_ hnumber hsign p
  · simp [isSpaceUnit]
    omega
  · simp [isWordStart, isLetterUnit, isAccentedUnit, unitOf]
    omega

variable {i : Nat}

/-- Taking a mark that is no comma and starts no number. -/
theorem takeAll_plain {u : Nat} (hu : u ∈ [33, 37, 38, 40, 41, 42, 43, 44, 45, 47, 58, 59, 60, 61, 62, 94, 125])
    (hcomma : u = 44 → us.head? = some 32)
    (hsign : r.top.stream.isEmpty = true → u = 45 ∨ u = 43 → startsNumber locale us = false) :
    r.takeAll locale source i (u :: us) = (r.mark locale source i u us).1.takeAll locale source
      (i + 1 + (r.mark locale source i u us).2) (us.drop (r.mark locale source i u us).2) :=
  takeAll_mark (read_plain hu hcomma hsign i)

theorem separatorUnit (locale : Locale) : unitOf locale.separator.char = 44 ∨ unitOf locale.separator.char = 59 := by
  cases locale.separator
  · exact .inl rfl
  · exact .inr rfl

/-- In a frame that is open an operator is a mark as any other. -/
theorem mark_open (hopen : r.top.kind.IsOpen) {u : Nat} (hclose : u ≠ 41) (hcomma : u ≠ 44) (hsemicolon : u ≠ 59) :
    r.mark locale source i u us = r.otherMark i u us := by
  have hseparator : (u == unitOf locale.separator.char) = false := by
    rcases separatorUnit locale with h | h <;> simp [h, hcomma, hsemicolon]
  have hparenthesis : (u == unitOf ')') = false := by simpa [unitOf] using hclose
  unfold mark
  split
  · rename_i hkind
    rw [hkind] at hopen
    exact hopen.elim
  · simp [hparenthesis]
  · simp [hparenthesis, hseparator]
  · rfl

/-- An operator is taken into the stream. -/
theorem takeAll_operator (locale : Locale) (source rest : List Nat) (hopen : r.top.kind.IsOpen)
    (hs : s ∈ Operator.longestFirst) (hequals : rest.head? ≠ some 61) (hgreater : rest.head? ≠ some 62)
    (hsign : r.top.stream.isEmpty = true → Operator.isSign s = true → startsNumber locale rest = false) :
    ∃ j, r.takeAll locale source i (Text.units s ++ rest) =
      (r.grown [.operator i s] r.log).takeAll locale source j rest := by
  obtain ⟨u, us, hunits, hu, husign⟩ := units_symbol hs
  have htake := takeOperator_symbol hs hequals hgreater
  have hother : r.otherMark i u (us ++ rest) = (r.grown [.operator i s] r.log, us.length) := by
    have hparenthesis : (u == unitOf '(') = false := by
      simp only [List.mem_cons, List.not_mem_nil, or_false] at hu
      simp [unitOf]
      omega
    rw [hunits] at htake
    unfold otherMark
    rw [hparenthesis, ← List.cons_append, htake]
    simp [deliver_open hopen]
  have hmark : r.mark locale source i u (us ++ rest) = (r.grown [.operator i s] r.log, us.length) := by
    simp only [List.mem_cons, List.not_mem_nil, or_false] at hu
    rw [mark_open hopen (by omega) (by omega) (by omega), hother]
  refine ⟨i + 1 + us.length, ?_⟩
  rw [hunits, List.cons_append, takeAll_plain, hmark, List.drop_left]
  · simp only [List.mem_cons, List.not_mem_nil, or_false] at hu ⊢
    omega
  · rintro rfl
    simp at hu
  · intro hempty hcode
    obtain ⟨hs, rfl⟩ := husign hcode
    exact hsign hempty hs

/-! ### Texts of units -/

/-- What is known of a text in front of what stops a lexeme: reading it adds units to the innermost stream. Whether
any stand there before decides whether a sign belongs to a number. -/
def Scans (locale : Locale) (first : Bool) (us : List Nat) (P : List Expression → Prop) : Prop :=
  ∀ (source : List Nat) (r : Reader) (i : Nat) (rest : List Nat), r.top.kind.IsOpen →
    r.top.stream.isEmpty = first → Stops rest → ∃ vs log j, P vs ∧
      r.takeAll locale source i (us ++ rest) = (r.grown vs log).takeAll locale source j rest

theorem Scans.imp {P Q : List Expression → Prop} (h : Scans locale first us P) (hPQ : ∀ vs, P vs → Q vs) :
    Scans locale first us Q := by
  intro source r i rest hopen hfirst hrest
  obtain ⟨vs, log, j, hvs, hj⟩ := h source r i rest hopen hfirst hrest
  exact ⟨vs, log, j, hPQ vs hvs, hj⟩

/-- A text that is read as one lexeme, whatever stops it. -/
def ReadsAs (locale : Locale) (first : Bool) (us : List Nat) (P : Expression → Prop) : Prop :=
  ∀ rest, Stops rest → ∀ p, ∃ u vs e, us = u :: vs ∧
    read locale first p u (vs ++ rest) = (.atom e none, vs.length) ∧ P e

/-- A text that is read as one unit. -/
theorem ReadsAs.scans {P : Expression → Prop} {Q : List Expression → Prop} (h : ReadsAs locale first us P)
    (hPQ : ∀ e, P e → Q [e]) : Scans locale first us Q := by
  intro source r i rest hopen hfirst hrest
  obtain ⟨u, vs, e, rfl, hread, he⟩ := h rest hrest i
  obtain ⟨j, hj⟩ := takeAll_unit source hopen (hfirst ▸ hread)
  exact ⟨[e], r.log.note e, j, hPQ e he, hj⟩

/-! ### Units of one lexeme -/

/-- A unit that is read as one that means the same. -/
theorem spelled_unit {u u' : Expression} (h : MovesTo t u u') (hsettled : IsSettled locale u') :
    Spelled t locale [u] [u'] := .unit u u' [] [] h hsettled .nil

/-- The units of the text of an expression at another place. -/
def written (t : Rereading) (locale : Locale) (e : Expression) : List Nat :=
  Text.units (e.render locale { rows := t.rows, columns := t.columns })

/-- A text is written between quotes. -/
theorem units_renderText (locale : Locale) (s : String) :
    Text.units (Expression.renderValue locale (.text s)) = 34 :: (Lexeme.escaped s.toList ++ [34]) := by
  have hquote : Text.unitsOfChar '"' = [34] := rfl
  simp only [Expression.renderValue, Value.doubleQuoted, Text.units_ofList,
    List.cons_append, List.flatMap_cons, List.flatMap_append, List.flatMap_nil, hquote, Lexeme.escaped]
  rfl

theorem reads_text (locale : Locale) (first : Bool) (s : String) :
    ReadsAs locale first (Text.units (Expression.renderValue locale (.text s)))
      fun e => ∃ p, e = .literal p (.text s) none := by
  intro rest hrest p
  refine ⟨34, _, .literal p (.text s) none, units_renderText locale s, ?_, p, rfl⟩
  have hread := Lexeme.read_text locale first s hrest p
  simpa using hread

theorem reads_boolean (locale : Locale) (first : Bool) (b : Bool) :
    ReadsAs locale first (Text.units (Expression.renderValue locale (.boolean b)))
      fun e => ∃ p, e = .literal p (.boolean b) none := by
  intro rest hrest p
  have hunits : Text.units (Expression.renderValue locale (.boolean b)) = Text.units (if b then "TRUE" else "FALSE") :=
    rfl
  cases hus : Text.units (if b then "TRUE" else "FALSE") with
  | nil => cases b <;> cases hus
  | cons u us =>
    obtain ⟨hstart, hword⟩ := Lexeme.word_boolean b hus hrest p
    exact ⟨u, us, _, hunits.trans hus, (Lexeme.read_word hstart p _).trans hword, p, rfl⟩

theorem scans_text (p : Nat) (s : String) : Scans locale first (written t locale (.literal p (.text s) none))
    (Spelled t locale [.literal p (.text s) none]) := by
  refine (reads_text locale first s).scans ?_
  rintro e ⟨q, rfl⟩
  exact spelled_unit (.literal p q _ none (beq_self_eq_true s)) ⟨rfl, rfl⟩

theorem scans_boolean (p : Nat) (b : Bool) :
    Scans locale first (written t locale (.literal p (.boolean b) none))
      (Spelled t locale [.literal p (.boolean b) none]) := by
  refine (reads_boolean locale first b).scans ?_
  rintro e ⟨q, rfl⟩
  exact spelled_unit (.literal p q _ none (beq_self_eq_true b)) ⟨rfl, rfl⟩

theorem reads_number (hi : locale.imaginary = 'i' ∨ locale.imaginary = 'j') {x : Float}
    (hx : Lexeme.IsNumber locale us x) (hfirst : first = false → Unsigned us) :
    ReadsAs locale first us fun e => ∃ p, e = .literal p (.number x) (some (Text.ofUnits us)) := by
  intro rest hrest p
  obtain ⟨u, vs, hus, hread⟩ := Lexeme.read_number first hi hx hfirst hrest p
  exact ⟨u, vs, _, hus, hread, p, rfl⟩

theorem written_number (p : Nat) {x : Float} (hx : Lexeme.IsNumber locale us x) :
    written t locale (.literal p (.number x) (some (Text.ofUnits us))) = us := by
  refine Eq.trans ?_ hx.units_ofUnits
  exact congrArg Text.units (Expression.substitute_self locale.decimal.char (Text.ofUnits us))

theorem scans_number (hi : locale.imaginary = 'i' ∨ locale.imaginary = 'j') (p : Nat) {us : List Nat} {x : Float}
    (hx : Lexeme.IsNumber locale us x) (hfirst : first = false → Unsigned us) :
    Scans locale first (written t locale (.literal p (.number x) (some (Text.ofUnits us))))
      (Spelled t locale [.literal p (.number x) (some (Text.ofUnits us))]) := by
  rw [written_number p hx]
  refine (reads_number hi hx hfirst).scans ?_
  rintro e ⟨q, rfl⟩
  exact spelled_unit (.literal p q _ _ hx.beq_self) ⟨rfl, rfl⟩

theorem reads_identifier {name : String} (hname : Lexeme.IsWord name)
    (hcell : ∀ q, Mention.ofCellWord? name.toList q = none) :
    ReadsAs locale first (Text.units name) fun e => ∃ p, e = .identifier p name := by
  obtain ⟨u, us, hunits, hstart, -⟩ := hname.spans
  intro rest hrest p
  refine ⟨u, us, .identifier p name, hunits, ?_, p, rfl⟩
  rw [Lexeme.read_word hstart, Lexeme.word_atom hname hunits hrest, Lexeme.wordAtom, hcell]

theorem scans_identifier (p : Nat) {name : String} (hname : Lexeme.IsWord name)
    (hcell : ∀ q, Mention.ofCellWord? name.toList q = none) (hsettled : IsSettled locale (.identifier p name)) :
    Scans locale first (written t locale (.identifier p name))
      (Spelled t locale [.identifier p name]) := by
  rw [written, Expression.render]
  refine (reads_identifier hname hcell).scans ?_
  rintro e ⟨q, rfl⟩
  refine spelled_unit (.identifier p q name) ⟨if_neg fun hname => ?_, rfl⟩
  have himaginary : (if name == locale.imaginary.toString then _ else none) = none := hsettled.imaginary
  rw [if_pos hname] at himaginary
  cases himaginary

/-! ### Mentions -/

variable {a b : Reference} {m : Mention}

theorem renderMention_eq {rows columns : Int} (h : m.target.shift? rows columns = some b) :
    Expression.renderMention { rows, columns } m = b.spelling := by
  simp only [Expression.renderMention, Reference.labelAt, h]

theorem written_cell (hfits : m.target.shift? t.rows t.columns = some b) :
    written t locale (.cell m) = Text.units b.spelling := by
  rw [written, Expression.render, renderMention_eq hfits]

theorem written_range (p : Nat) {m : RangeMention} (ha : m.first.target.shift? t.rows t.columns = some a)
    (hb : m.last.target.shift? t.rows t.columns = some b) :
    written t locale (.range p m) = Text.units a.spelling ++ 58 :: Text.units b.spelling := by
  simp only [written, Expression.render, renderMention_eq ha, renderMention_eq hb, Text.units_append,
    List.append_assoc]
  rfl

theorem moved_eq {rows columns : Int} (h : a.shift? rows columns = some b) : a.moved rows columns = b := by
  rw [Reference.moved, h, Option.getD_some]

/-- The label of a cell is read as a unit that mentions it. -/
theorem reads_cell (locale : Locale) (first : Bool) (ha : a.IsCell) (hsheet : a.IsKept) :
    ReadsAs locale first (Text.units a.spelling) fun e => ∃ m, e = .cell m ∧ m.target = a := by
  intro rest hrest p
  obtain ⟨u, us, m, hunits, -, hread, htarget⟩ := Mention.read_cell locale first ha hsheet hrest p
  exact ⟨u, us, _, hunits, hread, m, rfl, htarget⟩

/-- The label of a whole row or column is read as a unit that mentions it. -/
theorem reads_axis (first : Bool) (hi : locale.imaginary = 'i' ∨ locale.imaginary = 'j') (ha : a.IsRow ∨ a.IsColumn)
    (hsheet : a.IsKept) :
    ReadsAs locale first (Text.units a.spelling) fun e =>
      ∃ m, Mention.ofUnit? e = some m ∧ m.target = a ∧ e.isAnyOperator = false := by
  intro rest hrest p
  obtain ⟨u, us, e, m, hunits, -, hread, hm, htarget, hplain⟩ :=
    Mention.read_axis first hi ha hsheet hrest p
  exact ⟨u, us, e, hunits, hread, m, hm, htarget, hplain⟩

theorem scans_cell (hcell : m.target.IsCell) (hsheet : m.target.IsKept)
    (hfits : m.target.shift? t.rows t.columns = some b) :
    Scans locale first (written t locale (.cell m)) (Spelled t locale [.cell m]) := by
  rw [written_cell hfits]
  refine (reads_cell locale first (hcell.shift? hfits) (hsheet.shift? hfits)).scans ?_
  rintro e ⟨n, rfl, htarget⟩
  exact spelled_unit (.cell m n (htarget.trans (moved_eq hfits).symm)) ⟨rfl, rfl⟩

/-- Two texts with a colon between them, each of which is read as one unit. -/
theorem scans_colon {P Q : Expression → Prop} {R : List Expression → Prop} {u : Nat} (hus : ReadsAs locale first us P)
    (hvs : ReadsAs locale false (u :: vs) Q) (hu : u ≠ 61 ∧ u ≠ 62)
    (hPQ : ∀ a b q, P a → Q b → R [a, .operator q ":", b]) : Scans locale first (us ++ 58 :: u :: vs) R := by
  intro source r i rest hopen hfirst hrest
  have hleft : Scans locale first us fun ws => ∃ a, ws = [a] ∧ P a := hus.scans fun a ha => ⟨a, rfl, ha⟩
  have hright : Scans locale false (u :: vs) fun ws => ∃ b, ws = [b] ∧ Q b := hvs.scans fun b hb => ⟨b, rfl, hb⟩
  obtain ⟨_, log, j, ⟨a, rfl, ha⟩, hj⟩ := hleft source r i (58 :: u :: vs ++ rest) hopen hfirst
    (stops_mark (.inr (.inl rfl)) _)
  have hequals : (u :: vs ++ rest).head? ≠ some 61 := by simp [hu.1]
  have hgreater : (u :: vs ++ rest).head? ≠ some 62 := by simp [hu.2]
  obtain ⟨k, hk⟩ := takeAll_operator locale source _ (r := r.grown [a] log) (i := j) (s := ":") hopen
    (by simp [Operator.longestFirst]) hequals hgreater (by simp)
  obtain ⟨_, log', l, ⟨b, rfl, hb⟩, hl⟩ := hright source ((r.grown [a] log).grown [.operator j ":"] log) k rest hopen
    (by simp) hrest
  refine ⟨[a, .operator j ":", b], log', l, hPQ a b j ha hb, ?_⟩
  rw [List.append_assoc, hj]
  refine hk.trans (hl.trans ?_)
  simp

/-- A range whose corners are those of another one may be read in its place. -/
theorem movesTo_between (p q : Nat) {m : RangeMention} {k n : Mention}
    (ha : m.first.target.shift? t.rows t.columns = some k.target)
    (hb : m.last.target.shift? t.rows t.columns = some n.target) :
    MovesTo t (.range p m) (.range q (.between k n)) :=
  .range p q m _ (moved_eq ha).symm (moved_eq hb).symm

/-- Units that mention a cell make a range with each other. -/
theorem isCorners_cells (p : Nat) {m : RangeMention} {k n : Mention}
    (ha : m.first.target.shift? t.rows t.columns = some k.target)
    (hb : m.last.target.shift? t.rows t.columns = some n.target) : IsCorners t (.range p m) (.cell k) (.cell n) where
  first := rfl
  joins _ := ⟨.between k n, _, rfl, movesTo_between p _ ha hb⟩

/-- Units that mention whole rows, or whole columns, make a range with each other. -/
theorem range?_axes {e f : Expression} {k n : Mention} {minus : Option Expression}
    (he : Fold.leftCorner? e = some (minus, k)) (hcell : ∀ m, e ≠ .cell m) (hf : Mention.ofUnit? f = some n)
    (haxis : Fold.sameAxis k n = true) (log : ReferenceLog) :
    Fold.range? log e f = some (minus, .between k n, log.forget [e.position, f.position]) := by
  unfold Fold.range?
  split
  · exact absurd rfl (hcell _)
  · simp only [he, hf, haxis, if_true]

theorem leftCorner?_unit {e : Expression} {k : Mention} (he : Mention.ofUnit? e = some k) :
    Fold.leftCorner? e = some (none, k) ∧ ∀ m, e ≠ .cell m := by
  refine ⟨by simp only [Fold.leftCorner?, he], ?_⟩
  rintro m rfl
  cases he

theorem isCorners_axes (p : Nat) {m : RangeMention} {e f : Expression} {k n : Mention}
    (he : Mention.ofUnit? e = some k) (hf : Mention.ofUnit? f = some n) (hplain : e.isAnyOperator = false)
    (haxis : Fold.sameAxis k n = true) (ha : m.first.target.shift? t.rows t.columns = some k.target)
    (hb : m.last.target.shift? t.rows t.columns = some n.target) : IsCorners t (.range p m) e f where
  first := hplain
  joins log := by
    obtain ⟨hcorner, hcell⟩ := leftCorner?_unit he
    exact ⟨.between k n, _, range?_axes hcorner hcell hf haxis log, movesTo_between p _ ha hb⟩

theorem sameAxis_of {k n : Mention} (h : k.target.IsRow ∧ n.target.IsRow ∨ k.target.IsColumn ∧ n.target.IsColumn) :
    Fold.sameAxis k n = true := by
  rcases h with ⟨⟨_, -, -, hk, -⟩, ⟨_, -, -, hn, -⟩⟩ | ⟨⟨_, -, -, hk, -⟩, ⟨_, -, -, hn, -⟩⟩ <;>
    simp [Fold.sameAxis, hk, hn]

theorem ne_of_label {u : Nat} (h : isDigitUnit u = true ∨ isWordStart u = true) : u ≠ 61 ∧ u ≠ 62 := by
  constructor <;> rintro rfl <;> rcases h with h | h <;> cases h

theorem scans_range (hi : locale.imaginary = 'i' ∨ locale.imaginary = 'j') (p : Nat) {m : RangeMention}
    (hrange : IsRange m) (hfirst : m.first.target.IsKept) (hlast : m.last.target.IsKept)
    (ha : m.first.target.shift? t.rows t.columns = some a)
    (hb : m.last.target.shift? t.rows t.columns = some b) :
    Scans locale first (written t locale (.range p m)) (Spelled t locale [.range p m]) := by
  have hspelled {e f : Expression} (q : Nat) (hcorners : IsCorners t (.range p m) e f) :
      Spelled t locale [.range p m] [e, .operator q ":", f] := .range q _ e f [] [] hcorners .nil
  rw [written_range p ha hb]
  rcases hrange with ⟨hcell, hcell'⟩ | haxes
  · obtain ⟨u, us, hus, hstart, -⟩ := (Mention.isWord_cell (hcell'.shift? hb) (hlast.shift? hb)).spans
    have hright := reads_cell locale false (hcell'.shift? hb) (hlast.shift? hb)
    rw [hus] at hright ⊢
    refine scans_colon (reads_cell locale first (hcell.shift? ha) (hfirst.shift? ha)) hright (ne_of_label (.inr hstart)) ?_
    rintro _ _ q ⟨k, rfl, hk⟩ ⟨n, rfl, hn⟩
    exact hspelled q (isCorners_cells p (by rw [hk, ha]) (by rw [hn, hb]))
  · have hboth : a.IsRow ∧ b.IsRow ∨ a.IsColumn ∧ b.IsColumn :=
      haxes.imp (fun h => ⟨h.1.shift? ha, h.2.shift? hb⟩) fun h => ⟨h.1.shift? ha, h.2.shift? hb⟩
    have haxis : a.IsRow ∨ a.IsColumn := hboth.imp And.left And.left
    have haxis' : b.IsRow ∨ b.IsColumn := hboth.imp And.right And.right
    obtain ⟨u, us, -, -, hus, hstart, -⟩ :=
      Mention.read_axis false hi haxis' (hlast.shift? hb) stops_nil 0
    have hright := reads_axis false hi haxis' (hlast.shift? hb)
    rw [hus] at hright ⊢
    refine scans_colon (reads_axis first hi haxis (hfirst.shift? ha)) hright (ne_of_label (hstart.imp And.left id)) ?_
    rintro e f q ⟨k, hk, rfl, hplain⟩ ⟨n, hn, rfl, -⟩
    exact hspelled q (isCorners_axes p hk hn hplain (sameAxis_of hboth) ha hb)

/-! ### Complex numbers -/

open Lexeme (Numeral Writes)
open Number (ReadsBackAs)

variable {n : Numeral}

/-- A number is read up to a sign or a capital `N` after it, unless it has an exponent. -/
theorem read_realPart (first : Bool) (hi : locale.imaginary = 'i' ∨ locale.imaginary = 'j')
    (hvs : Writes locale vs n) (hne : n.whole ++ n.places ≠ []) (hexponent : n.exponent = none)
    (hfirst : first = false → Unsigned vs) (hu : u = unitOf '+' ∨ u = unitOf '-' ∨ u = unitOf 'N') (rest : List Nat)
    (p : Nat) : ∃ v ws, vs = v :: ws ∧ read locale first p v (ws ++ u :: rest) =
      (.atom (.literal p (.number n.value) (some (Text.ofUnits vs))) none, ws.length) := by
  have hcode : u = 43 ∨ u = 45 ∨ u = 78 := hu
  have hdecimal := Lexeme.decimalUnit locale
  have hends : Lexeme.Ends locale n (u :: rest) := by
    refine ⟨?_, Lexeme.startsFraction_of_ne (by omega) rest, ?_, by simp [hexponent]⟩
    · rintro w ⟨⟩
      rcases hcode with rfl | rfl | rfl <;> rfl
    · rintro w ⟨⟩
      rcases hcode with rfl | rfl | rfl <;> rfl
  have hplain := Lexeme.number_plain hi hvs hne hends (by rcases hcode with rfl | rfl | rfl <;> simp [unitOf]) (by
    rintro w ⟨⟩
    rcases hi with h | h <;> rcases hcode with rfl | rfl | rfl <;> simp [Lexeme.isImaginaryMark, h, unitOf])
  obtain ⟨v, ws, rfl, hread⟩ := Lexeme.read_writes first hvs hne hfirst (u :: rest) p
  refine ⟨v, ws, rfl, hread.trans ?_⟩
  rw [hplain]
  rfl

/-- A number without an exponent is imaginary before the imaginary unit. -/
theorem read_imaginaryPart (first : Bool) (hi : locale.imaginary = 'i' ∨ locale.imaginary = 'j')
    (hvs : Writes locale vs n) (hne : n.whole ++ n.places ≠ []) (hexponent : n.exponent = none)
    (hunsigned : Unsigned vs) (rest : List Nat)
    (p : Nat) : ∃ v ws, vs = v :: ws ∧ read locale first p v (ws ++ unitOf locale.imaginary :: rest) =
      (.atom (.imaginary p n.value (Text.ofUnits (vs ++ [unitOf locale.imaginary]))) none, ws.length + 1) := by
  obtain ⟨v, ws, rfl, hread⟩ :=
    Lexeme.read_writes first hvs hne (fun _ => hunsigned) (unitOf locale.imaginary :: rest) p
  refine ⟨v, ws, rfl, hread.trans ?_⟩
  rw [Lexeme.number_imaginary hi hvs hne hexponent]
  rfl

/-- A number, a sign and an imaginary number are read as such. -/
theorem scans_parts (hi : locale.imaginary = 'i' ∨ locale.imaginary = 'j') {m : Numeral} {ws : List Nat}
    (hvs : Writes locale vs n) (hne : n.whole ++ n.places ≠ []) (hexponent : n.exponent = none)
    (hfirst : first = false → Unsigned vs) (hs : Operator.isSign s = true) (hu : Text.units s = [u])
    (hws : Writes locale ws m) (hne' : m.whole ++ m.places ≠ []) (hexponent' : m.exponent = none)
    (hunsigned : Unsigned ws) :
    Scans locale first (vs ++ u :: (ws ++ [unitOf locale.imaginary])) fun us => ∃ q k j spelling spelling',
      us = [.literal q (.number n.value) spelling, .operator k s, .imaginary j m.value spelling'] := by
  obtain ⟨hsign, hmem⟩ : (u = unitOf '+' ∨ u = unitOf '-') ∧ s ∈ Operator.longestFirst := by
    have hcases : s = "-" ∨ s = "+" := by simpa [Operator.isSign] using hs
    rcases hcases with rfl | rfl
    · exact ⟨.inr (List.cons.inj hu).1.symm, by simp [Operator.longestFirst]⟩
    · exact ⟨.inl (List.cons.inj hu).1.symm, by simp [Operator.longestFirst]⟩
  intro source r i rest hopen hempty hrest
  -- the number before the sign
  obtain ⟨v, vs', rfl, hread⟩ := read_realPart first hi hvs hne hexponent hfirst (hsign.imp_right .inl)
    (ws ++ unitOf locale.imaginary :: rest) i
  obtain ⟨j, hj⟩ := takeAll_unit source hopen (hempty ▸ hread)
  -- the sign
  have hhead : (ws ++ unitOf locale.imaginary :: rest).head? ≠ some 61 ∧
      (ws ++ unitOf locale.imaginary :: rest).head? ≠ some 62 := by
    obtain ⟨w, ws', rfl, -⟩ := read_imaginaryPart false hi hws hne' hexponent' hunsigned rest 0
    have hw := hws.isNumberUnit w List.mem_cons_self
    unfold Lexeme.IsNumberUnit at hw
    simp only [List.cons_append, List.head?_cons, Ne, Option.some.injEq]
    omega
  obtain ⟨k, hk⟩ := takeAll_operator locale source _ (i := j)
    (r := r.grown [.literal i (.number n.value) (some (Text.ofUnits (v :: vs')))] r.log) hopen hmem hhead.1 hhead.2
    (by simp)
  rw [hu] at hk
  -- the imaginary number after it
  obtain ⟨w, ws', rfl, hread'⟩ := read_imaginaryPart false hi hws hne' hexponent' hunsigned rest k
  have hrightmost : read locale false k w (ws' ++ [unitOf locale.imaginary] ++ rest) = (.atom (.imaginary k m.value
      (Text.ofUnits (w :: ws' ++ [unitOf locale.imaginary]))) none, (ws' ++ [unitOf locale.imaginary]).length) := by
    simpa using hread'
  obtain ⟨l, hl⟩ := takeAll_unit source
    (r := (r.grown [.literal i (.number n.value) (some (Text.ofUnits (v :: vs')))] r.log).grown [.operator j s] r.log)
    hopen hrightmost
  have hunits : v :: vs' ++ u :: (w :: ws' ++ [unitOf locale.imaginary]) ++ rest =
      v :: (vs' ++ u :: (w :: ws' ++ unitOf locale.imaginary :: rest)) := by simp
  have hlast : w :: ws' ++ unitOf locale.imaginary :: rest = w :: (ws' ++ [unitOf locale.imaginary] ++ rest) := by simp
  rw [← hlast] at hl
  refine ⟨[.literal i (.number n.value) (some (Text.ofUnits (v :: vs'))), .operator j s,
    .imaginary k m.value (Text.ofUnits (w :: ws' ++ [unitOf locale.imaginary]))], r.log, l, ⟨i, j, k, _, _, rfl⟩, ?_⟩
  rw [hunits]
  exact hj.trans (hk.trans (hl.trans (by simp [ReferenceLog.note])))

/-- The text of a complex number: a number, a sign and a number that the imaginary unit follows. -/
theorem written_complex (hi : locale.imaginary = 'i' ∨ locale.imaginary = 'j') (p : Nat) {z : Complex}
    (spelling : Option String) (hreal : ReadsBackAs t.number z.real) (hreal' : z.real.isFinite = true)
    (himaginary : ReadsBackAs t.number z.imaginary) (himaginary' : z.imaginary.isFinite = true) :
    ∃ n m vs ws u s, written t locale (.complex p z spelling) = vs ++ u :: (ws ++ [unitOf locale.imaginary]) ∧
      (Writes locale vs n ∧ n.whole ++ n.places ≠ [] ∧ n.exponent = none ∧ (¬z.real < 0 → Unsigned vs)) ∧
      (Writes locale ws m ∧ m.whole ++ m.places ≠ [] ∧ m.exponent = none ∧ Unsigned ws) ∧
      Operator.isSign s = true ∧ Text.units s = [u] ∧ t.number n.value z.real ∧
      t.number (joinedComplex n.value s m.value).imaginary z.imaginary := by
  obtain ⟨n, m, vs, ws, u, hunits, ⟨hvs, hne, hexponent, hvalue, hunsigned⟩, hws, hsign⟩ :=
    Lexeme.units_renderComplex hi hreal hreal' himaginary himaginary'
  rcases hsign with ⟨rfl, h⟩ | ⟨rfl, h⟩
  · exact ⟨n, m, vs, ws, _, "+", hunits, ⟨hvs, hne, hexponent, hunsigned⟩, hws, rfl, rfl, hvalue, h⟩
  · exact ⟨n, m, vs, ws, _, "-", hunits, ⟨hvs, hne, hexponent, hunsigned⟩, hws, rfl, rfl, hvalue, h⟩

theorem scans_complex (hi : locale.imaginary = 'i' ∨ locale.imaginary = 'j') (p : Nat) {z : Complex}
    (spelling : Option String) (hreal : ReadsBackAs t.number z.real) (hreal' : z.real.isFinite = true)
    (himaginary : ReadsBackAs t.number z.imaginary) (himaginary' : z.imaginary.isFinite = true)
    (hfirst : first = false → Number.sign? z.real = some .positive) :
    Scans locale first (written t locale (.complex p z spelling)) (Spelled t locale [.complex p z spelling]) := by
  obtain ⟨n, m, vs, ws, u, s, hwritten, ⟨hvs, hne, hexponent, hunsigned⟩, ⟨hws, hne', hexponent', hunsigned'⟩, hs, hu,
    hvalue, hvalue'⟩ := written_complex hi p spelling hreal hreal' himaginary himaginary'
  rw [hwritten]
  refine (scans_parts hi hvs hne hexponent (fun hf => hunsigned (Number.not_lt_of_positive (hfirst hf))) hs hu hws hne'
    hexponent' hunsigned').imp ?_
  rintro _ ⟨q, k, j, spelling', spelling'', rfl⟩
  exact .complex q k j _ _ _ s _ _ [] [] hs (fun r _ => .complex p r _ _ _ _ hvalue hvalue') .nil

end Reader

end Spreadsheet.Formula
