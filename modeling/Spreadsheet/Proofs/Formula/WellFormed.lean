import Spreadsheet.Proofs.Expression.Units
import Spreadsheet.Proofs.Formula.Formed

/-!
The shape of expressions that are read without faults, in every locale. No unit that only makes sense in a stream is
left at any depth: no lone operator, no imaginary number, no implicit group.
-/

namespace Spreadsheet

open Formula (IsRange)
open Formula.Reader (IsMember)

/-- An expression that makes sense at every depth. -/
inductive Expression.WellFormed : Expression → Prop
  | number (p : Nat) (x : Float) (spelling : Option String) : WellFormed (.literal p (.number x) spelling)
  | text (p : Nat) (s : String) (spelling : Option String) : WellFormed (.literal p (.text s) spelling)
  | boolean (p : Nat) (b : Bool) (spelling : Option String) : WellFormed (.literal p (.boolean b) spelling)
  | complex (p : Nat) (z : Complex) (spelling : Option String) : WellFormed (.complex p z spelling)
  | cell (m : Mention) : m.target.IsCell → WellFormed (.cell m)
  | range (p : Nat) (r : RangeMention) : IsRange r → WellFormed (.range p r)
  | identifier (p : Nat) (name : String) : WellFormed (.identifier p name)
  | unary (p : Nat) (s : String) (a : Expression) : s = "+" ∨ s = "-" → WellFormed a → WellFormed (.unary p s a)
  | binary (p : Nat) (s : String) (a b : Expression) : s ∈ Operator.table.map Prod.fst → s ≠ ":" → WellFormed a →
      WellFormed b → WellFormed (.binary p s a b)
  | call (p : Nat) (name : String) (arguments : List Expression) :
      (∀ a ∈ arguments, (∀ q, a ≠ .missing q) → WellFormed a) → WellFormed (.call p name arguments)
  | group (p : Nat) (e : Expression) : WellFormed e → WellFormed (.group p [e] true)
  | array (p : Nat) (columns : List (List Value)) (height : Nat) :
      (∀ c ∈ columns, c.length = height ∧ ∀ v ∈ c, IsMember v) → WellFormed (.array p columns)

namespace Formula

variable {locale : Locale} {source : List Nat} {first : Bool} {u e : Expression} {us : List Expression}
  {log : ReferenceLog} {r : Reader}

/-! ### Lexemes -/

/-- What one lexeme at a place can stand for. -/
inductive Lexeme.AtomAt (p : Nat) : Expression → Prop
  | text (s : String) : AtomAt p (.literal p (.text s) none)
  | boolean (b : Bool) : AtomAt p (.literal p (.boolean b) none)
  | number (x : Float) (spelling : Option String) : AtomAt p (.literal p (.number x) spelling)
  | imaginary (y : Float) (spelling : String) : AtomAt p (.imaginary p y spelling)
  | cell (m : Mention) : m.target.IsCell → m.position = p → AtomAt p (.cell m)
  | identifier (name : String) : AtomAt p (.identifier p name)

theorem Mention.position_of_word {cs : List Char} {m : Mention} {p : Nat} (h : Mention.ofCellWord? cs p = some m) :
    m.position = p := by
  simp only [Mention.ofCellWord?] at h
  split at h
  · obtain rfl := Option.some.inj h
    rfl
  · cases h

theorem Lexeme.atomAt_wordAtom (name : String) (p : Nat) : AtomAt p (wordAtom name p) := by
  unfold wordAtom
  split
  · rename_i m hm
    exact .cell m (Mention.isCell_of_word hm) (Mention.position_of_word hm)
  · exact .identifier name

theorem Lexeme.atomAt_number (locale : Locale) (p : Nat) (us : List Nat) : AtomAt p (number locale p us).1 := by
  unfold number
  simp only
  split
  · exact .number _ _
  · split
    · exact .imaginary _ _
    · exact .number _ _

/-- A lexeme without a fault that is read as one unit starts where it is read. -/
theorem Lexeme.atomAt_read {p u n : Nat} {us : List Nat} (h : read locale first p u us = (.atom e none, n)) :
    AtomAt p e := by
  unfold read at h
  split at h
  · cases h
  split at h
  · simp only at h
    split at h
    · obtain ⟨he, -⟩ := Prod.mk.inj h
      obtain rfl := (Lexeme.atom.inj he).1
      exact .text _
    · cases h
  split at h
  · obtain ⟨he, -⟩ := Prod.mk.inj h
    obtain rfl := (Lexeme.atom.inj he).1
    exact atomAt_number locale p (u :: us)
  split at h
  · cases h
  split at h
  · rename_i hstart
    rcases word_cases hstart p us with ⟨e', fault, k, hw⟩ | ⟨b, k, hw⟩ | ⟨name, k, -, hw | ⟨openAt, hw⟩⟩
    all_goals rw [hw] at h
    · cases h
    · obtain ⟨he, -⟩ := Prod.mk.inj h
      obtain rfl := (Lexeme.atom.inj he).1
      exact .boolean b
    · obtain ⟨he, -⟩ := Prod.mk.inj h
      obtain rfl := (Lexeme.atom.inj he).1
      exact atomAt_wordAtom name p
    · cases h
  · cases h

/-! ### Pieces of streams -/

/-- A unit of a stream of which a tree can be made: an operand that makes sense or an operator. -/
def IsPart (u : Expression) : Prop :=
  u.isOperand = true ∧ u.WellFormed ∨ ∃ p s, u = .operator p s ∧ s ∈ Operator.longestFirst

/-- A unit of a stream as it is read, when there may still be imaginary numbers. -/
def IsPiece (u : Expression) : Prop := IsPart u ∨ ∃ p y spelling, u = .imaginary p y spelling

theorem Lexeme.AtomAt.isPiece {p : Nat} (h : AtomAt p e) : IsPiece e := by
  cases h with
  | text s => exact .inl (.inl ⟨rfl, .text p s none⟩)
  | boolean b => exact .inl (.inl ⟨rfl, .boolean p b none⟩)
  | number x spelling => exact .inl (.inl ⟨rfl, .number p x spelling⟩)
  | imaginary y spelling => exact .inr ⟨p, y, spelling, rfl⟩
  | cell m hm _ => exact .inl (.inl ⟨rfl, .cell m hm⟩)
  | identifier name => exact .inl (.inl ⟨rfl, .identifier p name⟩)

theorem isPiece_operator (p : Nat) {s : String} (h : s ∈ Operator.longestFirst) : IsPiece (.operator p s) :=
  .inl (.inr ⟨p, s, rfl, h⟩)

theorem isPart_complex (p : Nat) (z : Complex) (spelling : Option String) : IsPart (.complex p z spelling) :=
  .inl ⟨rfl, .complex p z spelling⟩

theorem IsPiece.isCell {m : Mention} (h : IsPiece (.cell m)) : m.target.IsCell := by
  rcases h with (⟨-, h⟩ | ⟨p, s, h, -⟩) | ⟨p, y, spelling, h⟩
  · cases h with
    | cell _ hm => exact hm
  · cases h
  · cases h

theorem isPiece_ranges (h : ∀ u ∈ us, IsPiece u) (log : ReferenceLog) : ∀ u ∈ (Fold.ranges log us).1, IsPiece u := by
  fun_induction Fold.ranges log us with
  | case1 log a p b rest minus m log' hrange units log'' hrest ih =>
    simp only [List.forall_mem_cons] at h
    obtain ⟨ha, -, hb, hus⟩ := h
    have htail := ih hus
    rw [hrest] at htail
    obtain ⟨hm, hminus⟩ := isRange_of_fold (fun c hc => (hc ▸ ha).isCell) (fun c hc => (hc ▸ hb).isCell) hrange
    intro u hu
    rcases List.mem_append.1 hu with hu | _ | ⟨_, hu⟩
    · obtain ⟨q, rfl⟩ := hminus u (Option.mem_toList.1 hu)
      exact isPiece_operator q (by simp [Operator.longestFirst])
    · exact .inl (.inl ⟨rfl, .range _ m hm⟩)
    · exact htail u hu
  | case2 log a p b rest _ units log' hrest ih =>
    obtain ⟨ha, hus⟩ := List.forall_mem_cons.1 h
    have htail := ih hus
    rw [hrest] at htail
    exact List.forall_mem_cons.2 ⟨ha, htail⟩
  | case3 log a rest _ units log' hrest ih =>
    obtain ⟨ha, hus⟩ := List.forall_mem_cons.1 h
    have htail := ih hus
    rw [hrest] at htail
    exact List.forall_mem_cons.2 ⟨ha, htail⟩
  | case4 => exact h

theorem isPart_lone (locale : Locale) (h : IsPiece u) (log : ReferenceLog) : IsPart (Fold.lone locale log u).1 := by
  unfold Fold.lone
  split
  · exact isPart_complex _ _ _
  · rename_i p name
    split
    · exact isPart_complex _ _ _
    · exact .inl ⟨rfl, .identifier p name⟩
  · rename_i himaginary _
    exact h.resolve_right fun ⟨p, y, spelling, hu⟩ => himaginary p y spelling hu

/-- Once the complex numbers are made no imaginary number is left. -/
theorem isPart_complexes (h : ∀ u ∈ us, IsPiece u) (source : List Nat) (log : ReferenceLog) :
    ∀ u ∈ (Fold.complexes locale source log us).1, IsPart u := by
  fun_induction Fold.complexes locale source log us with
  | case1 log p x spelling q s c rest y stop named _ z log' units log'' hrest =>
    rename_i ih
    simp only [List.forall_mem_cons] at h
    have htail := ih h.2.2.2
    rw [hrest] at htail
    exact List.forall_mem_cons.2 ⟨isPart_complex _ _ _, htail⟩
  | case2 log p x spelling q s c rest _ units log' hrest ih =>
    have htail := ih (List.forall_mem_cons.1 h).2
    rw [hrest] at htail
    exact List.forall_mem_cons.2 ⟨.inl ⟨rfl, .number p x spelling⟩, htail⟩
  | case3 log u rest _ e log' hlone units log'' hrest ih =>
    obtain ⟨hu, hus⟩ := List.forall_mem_cons.1 h
    have htail := ih hus
    rw [hrest] at htail
    have he := isPart_lone locale hu log
    rw [hlone] at he
    exact List.forall_mem_cons.2 ⟨he, htail⟩
  | case4 => exact fun _ h => absurd h List.not_mem_nil

/-! ### Trees -/

theorem isFlat_of_parts (h : ∀ u ∈ us, IsPart u) : Arrange.IsFlat us := by
  intro u hu
  rcases h u hu with ⟨hoperand, -⟩ | ⟨p, s, rfl, -⟩
  · exact .inl hoperand
  · exact .inr rfl

theorem mem_table : ∀ s ∈ Operator.longestFirst, s ∈ Operator.table.map Prod.fst := by decide

/-- A tree over parts, none of which is a colon, makes sense. -/
theorem Arrange.Arranges.wellFormed (h : Arranges e us) (hparts : ∀ u ∈ us, IsPart u)
    (hcolon : ∀ u ∈ us, u.isOperator ":" = false) : e.WellFormed := by
  induction h with
  | operand e he =>
    rcases hparts e List.mem_cons_self with ⟨-, hwell⟩ | ⟨p, s, rfl, -⟩
    · exact hwell
    · cases he
  | unary p s a us hs _ _ ih =>
    have hsign : s = "+" ∨ s = "-" := by
      simpa [Operator.isSign, or_comm] using hs
    exact .unary p s a hsign (ih (fun u hu => hparts u (List.mem_cons_of_mem _ hu))
      fun u hu => hcolon u (List.mem_cons_of_mem _ hu))
  | binary p s a b us vs _ _ iha ihb =>
    have hmem : Expression.operator p s ∈ us ++ .operator p s :: vs := List.mem_append_right _ List.mem_cons_self
    have hright {u : Expression} (hu : u ∈ vs) : u ∈ us ++ .operator p s :: vs :=
      List.mem_append_right _ (List.mem_cons_of_mem _ hu)
    have hs : s ∈ Operator.longestFirst := by
      rcases hparts _ hmem with ⟨hoperand, -⟩ | ⟨_, _, heq, hs⟩
      · cases hoperand
      · cases heq
        exact hs
    refine .binary p s a b (mem_table s hs) (by simpa [Expression.isOperator] using hcolon _ hmem) ?_ ?_
    · exact iha (fun u hu => hparts u (List.mem_append_left _ hu)) fun u hu => hcolon u (List.mem_append_left _ hu)
    · exact ihb (fun u hu => hparts u (hright hu)) fun u hu => hcolon u (hright hu)

/-- What a tree of parts is arranged from, and that it makes sense. -/
theorem wellFormed_of_tree (h : ∀ u ∈ us, IsPart u) (htree : Arrange.tree us = .ok e) :
    Arrange.Arranges e us ∧ e.WellFormed := by
  unfold Arrange.tree at htree
  split at htree
  · cases htree
  · rename_i hcolon
    have harranges := Arrange.arranges_units htree (isFlat_of_parts h)
    exact ⟨harranges, harranges.wellFormed h fun u hu => by simpa using List.find?_eq_none.1 hcolon u hu⟩

/-- Columns of one height that hold members make an array that makes sense. -/
theorem Reader.IsArray.wellFormed {columns : List (List Value)} {height : Nat} (h : Reader.IsArray columns height)
    (p : Nat) : Expression.WellFormed (.array p columns) := by
  refine .array p columns height fun c hc => ?_
  obtain ⟨i, hi, rfl⟩ := Reader.mem_getD hc
  refine ⟨h.length i hi, fun v hv => ?_⟩
  obtain ⟨k, hk, rfl⟩ := List.getElem_of_mem hv
  have hmember := h.member i k
  rwa [Reader.memberAt, List.getD_eq_getElem _ _ hk] at hmember

/-! ### Readers -/

/-- What is known of a place where a stream stands. -/
def Frame.Kind.Shaped : Frame.Kind → Prop
  | .whole | .parentheses _ => True
  | .call _ _ _ arguments _ => ∀ a ∈ arguments, (∀ q, a ≠ .missing q) → a.WellFormed
  | .array _ columns _ _ _ => Reader.Heaped columns

/-- The units of the frame are pieces. -/
structure Frame.Shaped (f : Frame) : Prop where
  stream : ∀ u ∈ f.stream, IsPiece u
  kind : f.kind.Shaped

/-- The units of a stream once its ranges and complex numbers are made. -/
theorem Frame.Shaped.parts {f : Frame} (h : f.Shaped) (locale : Locale) (source : List Nat) (log : ReferenceLog) :
    ∀ u ∈ Reader.folded locale source log f, IsPart u :=
  isPart_complexes (isPiece_ranges (fun u hu => h.stream u (List.mem_reverse.1 hu)) log) source _

theorem Frame.Shaped.put {openAt column row mark : Nat} {columns : List (List Value)} {stream : List Expression}
    (h : Frame.Shaped ⟨.array openAt columns column row mark, stream⟩) {p : Nat} {v : Value} {spelling : Option String}
    (hv : IsPiece (.literal p v spelling)) :
    Frame.Shaped ⟨.array openAt (Reader.put columns column row v) column row mark, stream⟩ := by
  have hcolumns : Reader.Heaped columns := h.kind
  refine ⟨h.stream, ?_⟩
  rcases hv with (⟨-, hwell⟩ | ⟨_, _, heq, -⟩) | ⟨_, _, _, heq⟩
  · cases hwell with
    | text _ s => exact hcolumns.put (v := .text s) trivial rfl column row
    | boolean _ b => exact hcolumns.put (v := .boolean b) trivial rfl column row
    | number _ x => exact hcolumns.put (v := .number x) trivial rfl column row
  · cases heq
  · cases heq

/-- The arguments of a call with the last one, which has just been read. -/
theorem Frame.Shaped.arguments {p openAt index : Nat} {name : String} {arguments stream : List Expression}
    {last : Option Expression} (h : Frame.Shaped ⟨.call p name openAt arguments index, stream⟩)
    (hlast : ∀ e ∈ last, e.WellFormed) :
    ∀ a ∈ last.toList ++ arguments, (∀ q, a ≠ .missing q) → a.WellFormed := by
  intro a ha hmissing
  rcases List.mem_append.1 ha with ha | ha
  · exact hlast a (Option.mem_toList.1 ha)
  · exact h.kind a ha hmissing

/-- Frames hold pieces, of which trees are made that make sense. -/
def shapedInvariant (locale : Locale) : Reader.Invariant locale where
  frame := Frame.Shaped
  unit _ u := IsPiece u
  tree := Expression.WellFormed
  whole := ⟨fun _ hu => absurd hu List.not_mem_nil, trivial⟩
  parentheses _ := ⟨fun _ hu => absurd hu List.not_mem_nil, trivial⟩
  called _ := ⟨fun _ hu => absurd hu List.not_mem_nil, fun _ ha => absurd ha List.not_mem_nil⟩
  array _ _ := ⟨fun _ hu => absurd hu List.not_mem_nil, Reader.heaped_nil⟩
  atom hread := (Lexeme.atomAt_read hread).isPiece
  operator _ p _ hs := isPiece_operator p hs
  add h hu := ⟨List.forall_mem_cons.2 ⟨hu, h.stream⟩, h.kind⟩
  put h hv := h.put hv
  move _ _ _ _ h := ⟨h.stream, h.kind⟩
  closed h htree := (wellFormed_of_tree (h.parts locale _ _) htree).2
  group _ p _ he := .inl (.inl ⟨rfl, .group p _ he⟩)
  argument i _ _ _ _ h hlast := by
    refine ⟨fun _ hu => absurd hu List.not_mem_nil, fun a ha hmissing => ?_⟩
    rcases List.mem_append.1 ha with ha | ha
    · exact absurd (List.eq_of_mem_replicate ha) (hmissing i)
    · exact h.arguments hlast a ha hmissing
  call _ _ _ _ _ _ _ _ h hlast :=
    .inl (.inl ⟨rfl, .call _ _ _ fun a ha => h.arguments hlast a (List.mem_reverse.1 ha)⟩)
  columns _ _ _ _ _ _ _ h := .inl (.inl ⟨rfl, (Reader.Heaped.isArray h.kind).wellFormed _⟩)

/-- What a formula without faults is read as makes sense at every depth. -/
theorem wellFormed_of_parse {text : String} (herror : (parse locale text).error = none)
    (he : (parse locale text).expression = some e) : e.WellFormed :=
  (shapedInvariant locale).tree_of_parse herror he

end Formula

/-! ### Units -/

open Expression in
/-- The units of an expression that makes sense make sense themselves, but for arguments that are left out and the
corners of ranges. -/
theorem Expression.WellFormed.of_mem_units {e u : Expression} (h : e.WellFormed) (hu : u ∈ e.units) :
    u.WellFormed ∨ (∃ q, u = .missing q) ∨ ∃ r, IsRange r ∧ (u = .cell r.first ∨ u = .cell r.last) := by
  have hleaf {e : Expression} (h : e.WellFormed) (hunits : e.units = [e]) (hu : u ∈ e.units) : u.WellFormed :=
    List.mem_singleton.1 (hunits ▸ hu) ▸ h
  have hwhole := h
  induction h with
  | range p r hr =>
    simp only [units_range, List.mem_cons, List.not_mem_nil, or_false] at hu
    rcases hu with rfl | hu
    · exact .inl hwhole
    · exact .inr (.inr ⟨r, hr, hu⟩)
  | unary p s a _ ha ih =>
    rcases List.mem_cons.1 (units_unary ▸ hu) with rfl | hu
    · exact .inl hwhole
    · exact ih hu ha
  | binary p s a b _ _ ha hb iha ihb =>
    rcases List.mem_cons.1 (units_binary ▸ hu) with rfl | hu
    · exact .inl hwhole
    · exact (List.mem_append.1 hu).elim (fun hu => iha hu ha) fun hu => ihb hu hb
  | call p name arguments harguments ih =>
    rcases List.mem_cons.1 (units_call ▸ hu) with rfl | hu
    · exact .inl hwhole
    · obtain ⟨a, ha, hu⟩ := List.mem_flatMap.1 hu
      by_cases hmissing : ∃ q, a = .missing q
      · obtain ⟨q, rfl⟩ := hmissing
        rw [units, walk.eq_def] at hu
        exact .inr (.inl ⟨q, List.mem_singleton.1 hu⟩)
      · have hne (q : Nat) : a ≠ .missing q := fun hq => hmissing ⟨q, hq⟩
        exact ih a ha hne hu (harguments a ha hne)
  | group p a ha ih =>
    rw [units_group, List.flatMap_singleton] at hu
    rcases List.mem_cons.1 hu with rfl | hu
    · exact .inl hwhole
    · exact ih hu ha
  | _ => exact .inl (hleaf hwhole (by rw [units, walk.eq_def]; rfl) hu)

end Spreadsheet
