import Spreadsheet.Proofs.Formula.Pieces
import Spreadsheet.Proofs.Formula.Scan

/-!
Derivations of formulas without faults. A derivation says which units a text gives, what is made of them and which part
of the text is left, piece by piece; whatever the reader makes of a formula without faults has one.
-/

namespace Spreadsheet.Formula

variable {locale : Locale} {source : List Nat} {first : Bool} {us us' rest : List Nat} {e u : Expression}
  {stream vs ws : List Expression} {r : Reader}

/-! ### Derivations -/

/-- Members of an array up to the brace that closes it. -/
inductive Enumerates (locale : Locale) (first : Bool) : List Nat → List Nat → Prop
  | close (rest : List Nat) : Enumerates locale first (125 :: rest) rest
  | space (p u n : Nat) (us rest : List Nat) : Lexeme.read locale first p u us = (.space, n) →
      Enumerates locale first (us.drop n) rest → Enumerates locale first (u :: us) rest
  | mark (p u n : Nat) (us rest : List Nat) : Lexeme.read locale first p u us = (.mark u, n) → u = 44 ∨ u = 59 →
      Enumerates locale first us rest → Enumerates locale first (u :: us) rest
  | literal (p u n q : Nat) (v : Value) (spelling : Option String) (us rest : List Nat) :
      Lexeme.read locale first p u us = (.atom (.literal q v spelling) none, n) →
      Enumerates locale first (us.drop n) rest → Enumerates locale first (u :: us) rest

mutual

/-- Units at the front of a text, and the rest of the text. Whether any unit stands before decides whether a sign
belongs to a number. -/
inductive Delivers (locale : Locale) : Bool → List Nat → List Expression → List Nat → Prop
  | nil (first : Bool) (us : List Nat) : Delivers locale first us [] us
  | space (first : Bool) (p u n : Nat) (us : List Nat) (vs : List Expression) (rest : List Nat) :
      Lexeme.read locale first p u us = (.space, n) → Delivers locale first (us.drop n) vs rest →
      Delivers locale first (u :: us) vs rest
  | atom (first : Bool) (p u n : Nat) (us : List Nat) (e : Expression) (vs : List Expression) (rest : List Nat) :
      Lexeme.read locale first p u us = (.atom e none, n) → Delivers locale false (us.drop n) vs rest →
      Delivers locale first (u :: us) (e :: vs) rest
  | operator (first : Bool) (p u n k : Nat) (us : List Nat) (s : String) (vs : List Expression) (rest : List Nat) :
      Lexeme.read locale first p u us = (.mark u, n) → takeOperator (u :: us) = some (s, k) →
      Delivers locale false (us.drop (k - 1)) vs rest → Delivers locale first (u :: us) (.operator p s :: vs) rest
  | group (first : Bool) (p : Nat) (us us' : List Nat) (e : Expression) (vs : List Expression) (rest : List Nat) :
      Closes locale [] us (some e) (41 :: us') → Delivers locale false us' vs rest →
      Delivers locale first (40 :: us) (.group p [e] true :: vs) rest
  | blank (first : Bool) (us us' : List Nat) (vs : List Expression) (rest : List Nat) :
      Closes locale [] us none (41 :: us') → Delivers locale first us' vs rest →
      Delivers locale first (40 :: us) vs rest
  | call (first : Bool) (p u n openAt : Nat) (us us' : List Nat) (name : String) (args vs : List Expression)
      (rest : List Nat) : Lexeme.read locale first p u us = (.call name openAt, n) →
      Lists locale [] (us.drop n) args us' → Delivers locale false us' vs rest →
      Delivers locale first (u :: us) (.call p name args :: vs) rest
  | array (first : Bool) (p u n : Nat) (us us' : List Nat) (columns : List (List Value)) (vs : List Expression)
      (rest : List Nat) : Lexeme.read locale first p u us = (.openArray, n) →
      Enumerates locale true (us.drop n) us' → Delivers locale false us' vs rest →
      Delivers locale first (u :: us) (.array p columns :: vs) rest

/-- What is made of a stream of which some units have been read, and the rest of the text. -/
inductive Closes (locale : Locale) : List Expression → List Nat → Option Expression → List Nat → Prop
  | none (us rest : List Nat) : Delivers locale true us [] rest → Closes locale [] us none rest
  | some (stream : List Expression) (us : List Nat) (vs ws : List Expression) (e : Expression) (rest : List Nat) :
      Delivers locale stream.isEmpty us vs rest → stream ++ vs ≠ [] → Pieces locale (stream ++ vs) ws →
      Arrange.tree ws = .ok e → Closes locale stream us (some e) rest

/-- The arguments of a call that are left, with the units that have been read of the first one of them. -/
inductive Lists (locale : Locale) : List Expression → List Nat → List Expression → List Nat → Prop
  | last (stream : List Expression) (us : List Nat) (last : Option Expression) (rest : List Nat) :
      Closes locale stream us last (41 :: rest) → Lists locale stream us last.toList rest
  | next (stream : List Expression) (i : Nat) (us us' : List Nat) (last : Option Expression) (args : List Expression)
      (rest : List Nat) : Closes locale stream us last (unitOf locale.separator.char :: us') →
      Lists locale [] us' args rest → Lists locale stream us (last.getD (.missing i) :: args) rest

end

/-- What can be made of frames, the innermost one first, with the text that is left. -/
inductive Completes (locale : Locale) : List Frame → List Nat → Expression → Prop
  | whole (stream : List Expression) (us : List Nat) (e : Expression) : Closes locale stream.reverse us (some e) [] →
      Completes locale [⟨.whole, stream⟩] us e
  | parentheses (p : Nat) (stream : List Expression) (f : Frame) (below : List Frame) (us us' : List Nat)
      (inner : Option Expression) (e : Expression) : Closes locale stream.reverse us inner (41 :: us') →
      Completes locale
        ({ f with stream := (inner.map fun a => .group p [a] true).toList ++ f.stream } :: below) us' e →
      Completes locale (⟨.parentheses p, stream⟩ :: f :: below) us e
  | call (p openAt index : Nat) (name : String) (done args stream : List Expression) (f : Frame) (below : List Frame)
      (us us' : List Nat) (e : Expression) : f.kind.IsOpen → Lists locale stream.reverse us args us' →
      Completes locale ({ f with stream := .call p name (done.reverse ++ args) :: f.stream } :: below) us' e →
      Completes locale (⟨.call p name openAt done index, stream⟩ :: f :: below) us e
  | array (p column row mark : Nat) (columns columns' : List (List Value)) (stream : List Expression) (f : Frame)
      (below : List Frame) (us us' : List Nat) (e : Expression) : f.kind.IsOpen →
      Enumerates locale stream.isEmpty us us' →
      Completes locale ({ f with stream := .array p columns' :: f.stream } :: below) us' e →
      Completes locale (⟨.array p columns column row mark, stream⟩ :: f :: below) us e

/-! ### More of the text -/

/-- The units before those that are delivered may be read of a longer text. -/
theorem Closes.extend {inner : Option Expression} (h : Closes locale (stream ++ vs) us inner rest)
    (hread : ∀ ws rest, Delivers locale (stream ++ vs).isEmpty us ws rest →
      Delivers locale stream.isEmpty us' (vs ++ ws) rest) : Closes locale stream us' inner rest := by
  generalize hall : stream ++ vs = all at h
  cases h with
  | none _ _ h =>
    obtain ⟨rfl, rfl⟩ := List.append_eq_nil_iff.1 hall
    exact .none _ _ (hread [] rest h)
  | some _ _ ws made e _ h hne hpieces htree =>
    subst hall
    refine .some stream us' (vs ++ ws) made e rest (hread ws rest h) ?_ ?_ htree
    · rwa [← List.append_assoc]
    · rwa [← List.append_assoc]

theorem Lists.extend {args : List Expression} (h : Lists locale (stream ++ vs) us args rest)
    (hread : ∀ ws rest, Delivers locale (stream ++ vs).isEmpty us ws rest →
      Delivers locale stream.isEmpty us' (vs ++ ws) rest) : Lists locale stream us' args rest := by
  generalize hall : stream ++ vs = all at h
  cases h with
  | last _ _ last _ h => exact .last stream us' last rest ((hall ▸ h).extend hread)
  | next _ i _ us'' last args _ h hrest => exact .next stream i us' us'' last args rest ((hall ▸ h).extend hread) hrest

/-- An innermost frame that is open may have taken its last units of a longer text. -/
theorem Completes.extend {f : Frame} {below : List Frame} (vs : List Expression) (hopen : f.kind.IsOpen)
    (h : Completes locale ({ f with stream := vs.reverse ++ f.stream } :: below) us e)
    (hread : ∀ ws rest, Delivers locale (f.stream.isEmpty && vs.isEmpty) us ws rest →
      Delivers locale f.stream.isEmpty us' (vs ++ ws) rest) : Completes locale (f :: below) us' e := by
  obtain ⟨kind, stream⟩ := f
  have hreversed : (vs.reverse ++ stream).reverse = stream.reverse ++ vs := by simp
  have hempty : (stream.reverse ++ vs).isEmpty = (stream.isEmpty && vs.isEmpty) := by
    rw [Bool.eq_iff_iff]
    simp
  have hread' : ∀ ws rest, Delivers locale (stream.reverse ++ vs).isEmpty us ws rest →
      Delivers locale stream.reverse.isEmpty us' (vs ++ ws) rest := by
    rw [hempty, List.isEmpty_reverse]
    exact hread
  cases h with
  | whole _ _ _ h => exact .whole _ _ _ ((hreversed ▸ h).extend hread')
  | parentheses p _ g below _ us'' inner _ h hrest =>
    exact .parentheses p _ g below _ us'' inner _ ((hreversed ▸ h).extend hread') hrest
  | call p openAt index name done args _ g below _ us'' _ hg h hrest =>
    exact .call p openAt index name done args _ g below _ us'' _ hg ((hreversed ▸ h).extend hread') hrest
  | array => exact hopen.elim

/-! ### Steps of the reader -/

namespace Reader

/-- What can be made of the frames after a step can be made of those before it. -/
structure Retraces (locale : Locale) (r r' : Reader) (us us' : List Nat) : Prop where
  error : r.error = none
  frames (e : Expression) : Completes locale r'.frames us' e → Completes locale r.frames us e

theorem closes_closeStream (herror : (r.closeStream locale source).2.error = none) (us : List Nat) :
    Closes locale r.top.stream.reverse us (r.closeStream locale source).1 us := by
  cases hclosed : (r.closeStream locale source).1 with
  | none =>
    have hempty : r.top.stream.reverse = [] := by
      unfold closeStream at hclosed
      split at hclosed
      · assumption
      · simp only at hclosed
        split at hclosed <;> cases hclosed
    rw [hempty]
    exact .none us us (.nil true us)
  | some e =>
    have htree := tree_of_closeStream herror hclosed
    refine .some _ us [] _ e us (.nil _ us) (fun hempty => ?_) ?_ htree
    · rw [List.append_nil] at hempty
      unfold closeStream at hclosed
      simp only [hempty] at hclosed
      cases hclosed
    · rw [List.append_nil]
      exact pieces_folded locale source r.log _ _

/-- A step that hands a unit to the innermost frame. -/
theorem retraces_deliver {r₀ : Reader} (hframes : r₀.frames = r.frames) (herror : r₀.error = none → r.error = none)
    (hdelivered : (r₀.deliver u).error = none)
    (hread : ∀ vs rest, Delivers locale false us' vs rest → Delivers locale r.top.stream.isEmpty us (u :: vs) rest)
    (hmember : ∀ p v spelling, u = .literal p v spelling → ∀ rest,
      Enumerates locale r.top.stream.isEmpty us' rest → Enumerates locale r.top.stream.isEmpty us rest) :
    Retraces locale r (r₀.deliver u) us us' := by
  refine ⟨herror (error_deliver hdelivered), fun e h => ?_⟩
  rw [← hframes]
  rw [← top_eq hframes] at hread hmember
  obtain ⟨⟨kind, stream⟩, below, log, error⟩ := r₀
  cases kind with
  | array p columns column row mark =>
    unfold deliver at hdelivered h
    cases u with
    | literal q v spelling =>
      cases h with
      | array _ _ _ _ _ columns' _ f below _ us'' _ hf hmembers hrest =>
        exact .array _ _ _ _ _ columns' _ f below _ us'' _ hf (hmember q v spelling rfl us'' hmembers) hrest
    | _ => exact absurd hdelivered (error_fail _ _ _)
  | _ => exact Completes.extend [u] trivial h fun vs rest hvs => hread vs rest (by simpa using hvs)

/-- A unit that is no literal is handed to a frame that is open. -/
theorem frames_pop {f : Frame} {below : List Frame} (hbelow : r.below = f :: below) {unit : Option Expression}
    (hunit : ∀ p v spelling, unit ≠ some (.literal p v spelling)) (herror : (r.pop unit).error = none) :
    r.error = none ∧ (unit ≠ none → f.kind.IsOpen) ∧
      (r.pop unit).frames = { f with stream := unit.toList ++ f.stream } :: below := by
  unfold pop at herror ⊢
  rw [hbelow] at herror ⊢
  cases unit with
  | none => exact ⟨herror, nofun, rfl⟩
  | some u =>
    have hvalid := error_deliver herror
    simp only at herror ⊢
    obtain ⟨kind, stream⟩ := f
    cases kind with
    | array =>
      unfold deliver at herror
      cases u with
      | literal p v spelling => exact absurd rfl (hunit p v spelling)
      | _ => exact absurd herror (error_fail _ _ _)
    | _ => exact ⟨hvalid, fun _ => trivial, rfl⟩

/-- The parenthesis that closes another one. -/
theorem retraces_parentheses {p : Nat} (hrooted : Rooted none r.frames) (hkind : r.top.kind = .parentheses p)
    (herror : (r.close locale source none).error = none) :
    Retraces locale r (r.close locale source none) (41 :: us) us := by
  obtain ⟨f, below, hbelow, -⟩ := hrooted.around (hkind ▸ Frame.Kind.noConfusion)
  have hframes := frames_closeStream locale source r
  have hbelow' : (r.closeStream locale source).2.below = f :: below := (below_eq hframes).trans hbelow
  unfold close at herror ⊢
  rw [hkind] at herror ⊢
  simp only at herror ⊢
  obtain ⟨hclosed, -, hpopped⟩ := frames_pop hbelow' (by
    intro q v spelling h
    obtain ⟨_, -, h⟩ := Option.map_eq_some_iff.1 h
    cases h) herror
  refine ⟨error_closeStream hclosed, fun e h => ?_⟩
  have hinner := closes_closeStream hclosed (41 :: us)
  rw [hpopped] at h
  rw [frames, hbelow]
  obtain ⟨⟨kind, stream⟩, below', log, error⟩ := r
  obtain rfl : kind = .parentheses p := hkind
  exact .parentheses p stream f below _ us _ e hinner h

theorem reverse_toList (last : Option Expression) : last.toList.reverse = last.toList := by
  cases last <;> rfl

theorem retraces_call {p openAt index : Nat} {name : String} {done : List Expression} (hrooted : Rooted none r.frames)
    (hkind : r.top.kind = .call p name openAt done index) (herror : (r.close locale source none).error = none) :
    Retraces locale r (r.close locale source none) (41 :: us) us := by
  obtain ⟨f, below, hbelow, -⟩ := hrooted.around (hkind ▸ Frame.Kind.noConfusion)
  have hframes := frames_closeStream locale source r
  have hbelow' : (r.closeStream locale source).2.below = f :: below := (below_eq hframes).trans hbelow
  unfold close at herror ⊢
  rw [hkind] at herror ⊢
  simp only at herror ⊢
  obtain ⟨hclosed, hopen, hpopped⟩ := frames_pop hbelow' (by rintro _ _ _ ⟨⟩) herror
  refine ⟨error_closeStream hclosed, fun e h => ?_⟩
  have hlast := closes_closeStream hclosed (41 :: us)
  rw [hpopped] at h
  rw [frames, hbelow]
  obtain ⟨⟨kind, stream⟩, below', log, error⟩ := r
  obtain rfl : kind = .call p name openAt done index := hkind
  refine .call p openAt index name done _ stream f below _ us e (hopen (Option.some_ne_none _)) (.last _ _ _ us hlast) ?_
  rwa [List.reverse_append, reverse_toList] at h

theorem retraces_array {p column row mark : Nat} {columns : List (List Value)} (hrooted : Rooted none r.frames)
    (hkind : r.top.kind = .array p columns column row mark) (herror : (r.close locale source none).error = none) :
    Retraces locale r (r.close locale source none) (125 :: us) us := by
  obtain ⟨f, below, hbelow, -⟩ := hrooted.around (hkind ▸ Frame.Kind.noConfusion)
  unfold close at herror ⊢
  rw [hkind] at herror ⊢
  simp only at herror ⊢
  obtain ⟨hclosed, hopen, hpopped⟩ := frames_pop hbelow (by rintro _ _ _ ⟨⟩) herror
  refine ⟨hclosed, fun e h => ?_⟩
  rw [hpopped] at h
  rw [frames, hbelow]
  obtain ⟨⟨kind, stream⟩, below', log, error⟩ := r
  obtain rfl : kind = .array p columns column row mark := hkind
  exact .array p column row mark columns _ stream f below _ us e (hopen (Option.some_ne_none _)) (.close us) h

/-- The arguments of a call after the end of one of them. -/
theorem reverse_filled {done args : List Expression} {last : Option Expression} {index i : Nat}
    (hindex : done.length = index) :
    (List.replicate (index + 1 - (last.toList ++ done).length) (Expression.missing i) ++ (last.toList ++ done)).reverse ++ args =
      done.reverse ++ last.getD (.missing i) :: args := by
  subst hindex
  cases last <;> simp

/-- The end of an argument. -/
theorem retraces_endArgument {p openAt index : Nat} {name : String} {done : List Expression} (i : Nat)
    (hkind : r.top.kind = .call p name openAt done index) (hindex : r.error = none → done.length = index)
    (herror : (r.endArgument locale source i).error = none) :
    Retraces locale r (r.endArgument locale source i) (unitOf locale.separator.char :: us) us := by
  have hframes := frames_closeStream locale source r
  unfold endArgument at herror ⊢
  rw [hkind] at herror ⊢
  simp only at herror ⊢
  have hvalid := error_closeStream herror
  have hlast := closes_closeStream herror (unitOf locale.separator.char :: us)
  refine ⟨hvalid, fun e h => ?_⟩
  rw [frames, below_eq hframes] at h
  rw [frames]
  obtain ⟨⟨kind, stream⟩, below, log, error⟩ := r
  obtain rfl : kind = .call p name openAt done index := hkind
  cases h with
  | call _ _ _ _ _ args _ f below _ us' _ hf hargs hrest =>
    refine .call p openAt index name done _ stream f below _ us' e hf (.next _ i _ us _ args us' hlast hargs) ?_
    rwa [reverse_filled (hindex hvalid)] at hrest

theorem mark_of_read (hi : locale.imaginary = 'i' ∨ locale.imaginary = 'j') {p u v n : Nat}
    (h : Lexeme.read locale first p u us = (.mark v, n)) : u = v := by
  rcases Lexeme.read_cases hi first p u us with ⟨_, h'⟩ | ⟨_, _, _, h'⟩ | ⟨_, _, -, h'⟩ | ⟨_, _, _, -, h'⟩ | ⟨_, h'⟩ |
    ⟨_, h'⟩
  all_goals
    rw [h] at h'
    cases h'
  rfl

/-- A mark in an array. -/
theorem retraces_arrayMark {p column row mark n : Nat} {columns : List (List Value)} (hrooted : Rooted none r.frames)
    (hkind : r.top.kind = .array p columns column row mark) {i u : Nat}
    (hread : Lexeme.read locale r.top.stream.isEmpty i u us = (.mark u, n))
    (herror : (r.arrayMark locale source i u).error = none) :
    Retraces locale r (r.arrayMark locale source i u) (u :: us) us := by
  have hmoved (column' row' : Nat) (hu : u = 44 ∨ u = 59) (e : Expression)
      (h : Completes locale (⟨.array p columns column' row' mark, r.top.stream⟩ :: r.below) us e) :
      Completes locale r.frames (u :: us) e := by
    rw [frames]
    obtain ⟨⟨kind, stream⟩, below, log, error⟩ := r
    obtain rfl : kind = .array p columns column row mark := hkind
    cases h with
    | array _ _ _ _ _ columns' _ f below _ us' _ hf hmembers hrest =>
      exact .array p column row mark columns columns' stream f below _ us' e hf (.mark i u n us us' hread hu hmembers)
        hrest
  have hclosing : (r.close locale source none).error = none →
      Retraces locale r (r.close locale source none) (125 :: us) us := retraces_array hrooted hkind
  unfold arrayMark at herror ⊢
  rw [hkind] at herror ⊢
  simp only at herror ⊢
  split at herror
  · rename_i hu
    rw [if_pos hu]
    exact ⟨herror, hmoved 0 (row + 1) (.inr (eq_of_beq hu))⟩
  · rename_i hsemicolon
    rw [if_neg hsemicolon]
    split at herror
    · rename_i hu
      rw [if_pos hu]
      exact ⟨herror, hmoved (column + 1) row (.inl (eq_of_beq hu))⟩
    · rename_i hcomma
      rw [if_neg hcomma]
      split at herror
      · rename_i hu
        rw [if_pos hu, eq_of_beq hu]
        exact hclosing herror
      · exact absurd herror (error_fail _ _ _)

/-- A mark outside arrays that closes nothing. -/
theorem retraces_otherMark (hopen : r.top.kind.IsOpen) {i u n : Nat}
    (hread : Lexeme.read locale r.top.stream.isEmpty i u us = (.mark u, n))
    (herror : (r.otherMark i u us).1.error = none) :
    Retraces locale r (r.otherMark i u us).1 (u :: us) (us.drop (r.otherMark i u us).2) := by
  unfold otherMark at herror ⊢
  split at herror
  · rename_i hu
    rw [if_pos hu, List.drop_zero]
    obtain rfl : u = 40 := eq_of_beq hu
    refine ⟨herror, fun e h => ?_⟩
    cases h with
    | parentheses _ _ _ _ _ us' inner _ hclosed hrest =>
      rw [← reverse_toList] at hrest
      refine Completes.extend _ hopen hrest fun ws rest hws => ?_
      cases inner with
      | none => exact .blank _ us us' ws rest hclosed (by simpa using hws)
      | some a => exact .group _ i us us' a ws rest hclosed (by simpa using hws)
  · rename_i hparenthesis
    rw [if_neg hparenthesis]
    split at herror
    · rename_i s k htake
      simp only
      refine retraces_deliver rfl id herror (fun vs rest hvs => ?_) nofun
      exact .operator _ i u n k us s vs rest hread htake hvs
    · exact absurd herror (error_fail _ _ _)

theorem retraces_mark (hrooted : Rooted none r.frames)
    (hindex : r.error = none → ∀ p name openAt done index, r.top.kind = .call p name openAt done index →
      done.length = index) {i u n : Nat}
    (hread : Lexeme.read locale r.top.stream.isEmpty i u us = (.mark u, n))
    (herror : (r.mark locale source i u us).1.error = none) :
    Retraces locale r (r.mark locale source i u us).1 (u :: us) (us.drop (r.mark locale source i u us).2) := by
  have hother (hopen : r.top.kind.IsOpen) : (r.otherMark i u us).1.error = none →
      Retraces locale r (r.otherMark i u us).1 (u :: us) (us.drop (r.otherMark i u us).2) :=
    retraces_otherMark hopen hread
  unfold mark at herror ⊢
  cases hkind : r.top.kind with
  | whole =>
    simp only [hkind] at herror ⊢
    exact hother (hkind ▸ trivial) herror
  | parentheses p =>
    simp only [hkind] at herror ⊢
    split at herror
    · rename_i hu
      rw [if_pos hu, eq_of_beq hu]
      exact retraces_parentheses hrooted hkind herror
    · rename_i hu
      rw [if_neg hu]
      exact hother (hkind ▸ trivial) herror
  | call p name openAt done index =>
    simp only [hkind] at herror ⊢
    split at herror
    · rename_i hu
      rw [if_pos hu, eq_of_beq hu]
      exact retraces_endArgument i hkind (fun hvalid => hindex hvalid p name openAt done index hkind) herror
    · rename_i hseparator
      rw [if_neg hseparator]
      split at herror
      · rename_i hu
        rw [if_pos hu, eq_of_beq hu]
        exact retraces_call hrooted hkind herror
      · rename_i hu
        rw [if_neg hu]
        exact hother (hkind ▸ trivial) herror
  | array p columns column row mark =>
    simp only [hkind] at herror ⊢
    exact retraces_arrayMark hrooted hkind hread herror

/-- One lexeme. -/
theorem retraces_take (hi : locale.imaginary = 'i' ∨ locale.imaginary = 'j') (hrooted : Rooted none r.frames)
    (hindex : r.error = none → ∀ p name openAt done index, r.top.kind = .call p name openAt done index →
      done.length = index) {i u : Nat} (herror : (r.take locale source i u us).1.error = none) :
    Retraces locale r (r.take locale source i u us).1 (u :: us) (us.drop (r.take locale source i u us).2) := by
  unfold take at herror ⊢
  cases hread : Lexeme.read locale r.top.stream.isEmpty i u us with
  | mk lexeme n =>
    simp only [hread] at herror ⊢
    cases lexeme with
    | space =>
      simp only at herror ⊢
      refine ⟨herror, fun e h => ?_⟩
      obtain ⟨⟨kind, stream⟩, below, log, error⟩ := r
      cases kind with
      | array p column row mark =>
        cases h with
        | array _ _ _ _ _ columns _ f below _ us' _ hopen hmembers hrest =>
          exact .array _ _ _ _ _ columns _ f below _ us' e hopen (.space i u n us us' hread hmembers) hrest
      | _ =>
        exact Completes.extend [] trivial h fun ws rest hws =>
          .space _ i u n us ws rest hread (by simpa using hws)
    | atom e fault =>
      cases fault with
      | some fault => exact absurd (error_deliver herror) (error_fail _ _ _)
      | none =>
        simp only at herror ⊢
        refine retraces_deliver rfl id herror (fun vs rest hvs => .atom _ i u n us e vs rest hread hvs) ?_
        rintro q v spelling rfl rest hrest
        exact .literal i u n q v spelling us rest hread hrest
    | call name openAt =>
      simp only at herror ⊢
      refine ⟨herror, fun e h => ?_⟩
      cases h with
      | call _ _ _ _ _ args _ f below _ us' _ hopen hargs hrest =>
        exact Completes.extend [.call i name args] hopen hrest fun ws rest hws =>
          .call _ i u n openAt us us' name args ws rest hread hargs (by simpa using hws)
    | openArray =>
      simp only at herror ⊢
      refine ⟨herror, fun e h => ?_⟩
      cases h with
      | array _ _ _ _ _ columns _ f below _ us' _ hopen hmembers hrest =>
        exact Completes.extend [.array i columns] hopen hrest fun ws rest hws =>
          .array _ i u n us us' columns ws rest hread hmembers (by simpa using hws)
    | mark v =>
      obtain rfl := mark_of_read hi hread
      exact retraces_mark hrooted hindex hread herror

/-- All lexemes. -/
theorem retraces_takeAll (hi : locale.imaginary = 'i' ∨ locale.imaginary = 'j') (hrooted : Rooted none r.frames)
    (hsound : r.Sound locale) (i : Nat) (us : List Nat) (herror : (r.takeAll locale source i us).error = none) :
    Retraces locale r (r.takeAll locale source i us) us [] := by
  fun_induction takeAll locale source r i us with
  | case1 => exact ⟨herror, fun _ => id⟩
  | case2 r i u us r' n htake ih =>
    have hrooted' := rooted_take hrooted locale source i u us
    have hsound' := (soundInvariant hi).keeps_take hsound source i u us
    have hstep (herror : (r.take locale source i u us).1.error = none) :
        Retraces locale r (r.take locale source i u us).1 (u :: us) (us.drop (r.take locale source i u us).2) := by
      refine retraces_take hi hrooted (fun hvalid p name openAt done index hkind => ?_) herror
      have htop := (hsound hvalid r.top List.mem_cons_self).kind
      rw [hkind] at htop
      exact htop.2.1
    rw [htake] at hrooted' hsound' hstep
    have hrest := ih hrooted' hsound' herror
    have hfirst := hstep hrest.error
    exact ⟨hfirst.error, fun e he => hfirst.frames e (hrest.frames e he)⟩

theorem error_pop {unit : Option Expression} (h : (r.pop unit).error = none) : r.error = none := by
  unfold pop at h
  split at h
  · exact h
  · cases unit with
    | none => exact h
    | some u =>
      have hvalid := error_deliver h
      exact hvalid

/-- A frame whose closing mark is missing is a fault. -/
theorem error_close {fault : Option Fault} (h : (r.close locale source fault).error = none) :
    r.error = none ∧ (r.top.kind = .whole ∨ fault = none) := by
  have hnoted {r' : Reader} {p : Nat} (h : (r'.noted fault p).error = none) : r'.error = none ∧ fault = none := by
    cases fault with
    | none => exact ⟨h, rfl⟩
    | some f => exact absurd h (error_fail _ _ _)
  unfold close at h
  cases hkind : r.top.kind with
  | whole =>
    rw [hkind] at h
    exact ⟨h, .inl rfl⟩
  | parentheses p =>
    rw [hkind] at h
    obtain ⟨hvalid, hfault⟩ := hnoted (error_pop h)
    exact ⟨error_closeStream hvalid, .inr hfault⟩
  | call p name openAt done index =>
    rw [hkind] at h
    obtain ⟨hvalid, hfault⟩ := hnoted (error_pop h)
    exact ⟨error_closeStream hvalid, .inr hfault⟩
  | array p columns column row mark =>
    rw [hkind] at h
    obtain ⟨hvalid, hfault⟩ := hnoted (error_pop h)
    exact ⟨hvalid, .inr hfault⟩

theorem error_closeAll {depth : Nat} (h : (r.closeAll locale source depth).error = none) : r.error = none := by
  induction depth generalizing r with
  | zero => exact h
  | succ depth ih => exact (error_close (ih h)).1

/-- At the end of a formula without faults no frame is open. -/
theorem below_of_closeAll (hrooted : Rooted none r.frames)
    (h : (r.closeAll locale source r.below.length).error = none) : r.below = [] := by
  cases hbelow : r.below with
  | nil => rfl
  | cons f below =>
    rw [hbelow, List.length_cons, closeAll] at h
    rw [frames, hbelow] at hrooted
    rcases (error_close (error_closeAll h)).2 with hkind | hfault
    · exact absurd hkind hrooted.1
    · cases hfault

end Reader

/-- What a formula without faults is read as has a derivation over the whole text. -/
theorem closes_of_parse (hi : locale.imaginary = 'i' ∨ locale.imaginary = 'j') {text : String}
    (herror : (parse locale text).error = none) (he : (parse locale text).expression = some e) :
    Closes locale [] (Text.units (body text)) (some e) [] := by
  have hrooted : Rooted none ({} : Reader).frames := ⟨rfl, nofun⟩
  have hsound : ({} : Reader).Sound locale := (soundInvariant hi).keeps_start
  unfold parse at herror he
  simp only at herror he
  generalize Text.units (body text) = us at herror he ⊢
  have hread := Reader.rooted_takeAll hrooted locale us 0 us
  have htaken : (Reader.takeAll locale us {} 0 us).error = none →
      Reader.Retraces locale {} (Reader.takeAll locale us {} 0 us) us [] := Reader.retraces_takeAll hi hrooted hsound 0 us
  generalize Reader.takeAll locale us {} 0 us = r at herror he hread htaken
  have hvalid := Reader.error_closeStream herror
  have hbelow := Reader.below_of_closeAll hread hvalid
  rw [hbelow, List.length_nil, Reader.closeAll] at herror he
  have hwhole : Completes locale r.frames [] e := by
    have hclosed := Reader.closes_closeStream herror []
    rw [he] at hclosed
    rw [Reader.frames, hbelow] at hread ⊢
    obtain ⟨⟨kind, stream⟩, below, log, error⟩ := r
    obtain rfl : kind = .whole := hread.1
    exact .whole stream [] e hclosed
  have hstart := (htaken (Reader.error_closeStream herror)).frames e hwhole
  cases hstart with
  | whole _ _ _ h => exact h

end Spreadsheet.Formula
