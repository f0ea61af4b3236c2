import Spreadsheet.Proofs.Formula.Scan

/-!
Scanning units that enclose others: groups, calls and arrays. What stands between their marks is read in a frame of
its own, and closing the frame gives a unit that means the same as the one that was written.
-/

namespace Spreadsheet.Formula

open Expression (MovesTo AllMoveTo)
open Lexeme (Stops Unsigned read startsNumber)

variable {t : Rereading} {locale : Locale} {source us rest : List Nat} {vs : List Expression} {first : Bool}
  {u i : Nat} {r : Reader} {s : String} {e : Expression}

namespace Reader

/-- The text of the expression is read as a stream whose tree it is. -/
def Rereads (t : Rereading) (locale : Locale) (e : Expression) : Prop :=
  Scans locale true (written t locale e) fun vs =>
    ∃ stream, Arrange.units stream = .ok e ∧ Spelled t locale stream vs

/-! ### Groups -/

theorem takeAll_parenthesis (hopen : r.top.kind.IsOpen) (us : List Nat) :
    r.takeAll locale source i (40 :: us) = (r.push (.parentheses i)).takeAll locale source (i + 1) us := by
  rw [takeAll_plain (by simp) (by simp) (by simp), mark_open hopen (by simp) (by simp) (by simp)]
  rfl

/-- A frame that is closed without a fault hands its unit to the frame around it. -/
theorem pop_push (hopen : r.top.kind.IsOpen) (kind : Frame.Kind) (vs : List Expression) (log : ReferenceLog)
    (e : Expression) : ((r.push kind).grown vs log).pop (some e) = r.grown [e] log := by
  change deliver { r with log } e = _
  rw [deliver_open (r := { r with log }) hopen]
  rfl

theorem close_parentheses (hopen : r.top.kind.IsOpen) {openAt : Nat} {log log' : ReferenceLog}
    (h : ((r.push (.parentheses openAt)).grown vs log).closeStream locale source =
      (some e, (r.push (.parentheses openAt)).grown vs log')) :
    ((r.push (.parentheses openAt)).grown vs log).close locale source none = r.grown [.group openAt [e] true] log' := by
  have hkind : ((r.push (.parentheses openAt)).grown vs log).top.kind = .parentheses openAt := rfl
  unfold close
  rw [hkind]
  simp only [h, Option.map_some]
  exact pop_push hopen _ vs log' _

theorem written_group (p : Nat) (e : Expression) :
    written t locale (.group p [e] true) = 40 :: (written t locale e ++ [41]) := by
  simp only [written, Expression.render, Expression.renderAll, Expression.renderList, String.intercalate_singleton,
    if_true, Text.units_append]
  rfl

theorem scans_group (h : Rereads t locale e) (p : Nat) :
    Scans locale first (written t locale (.group p [e] true))
      (Spelled t locale [.group p [e] true]) := by
  rw [written_group]
  intro source r i rest hopen _ _
  obtain ⟨vs, log, j, ⟨stream, hstream, hvs⟩, hj⟩ := h source (r.push (.parentheses i)) (i + 1) (41 :: rest) trivial rfl
    (stops_mark (.inl rfl) rest)
  obtain ⟨e', log', hclose, he'⟩ := closeStream_spelled (r := (r.push (.parentheses i)).grown vs log) hvs hstream
    (by simp [push]) source
  refine ⟨[.group i [e'] true], log', j + 1,
    spelled_unit (.group p i [e] [e'] true (.cons _ _ _ _ he' .nil)) ⟨rfl, rfl⟩, ?_⟩
  rw [List.cons_append, List.append_assoc, takeAll_parenthesis hopen]
  refine hj.trans ?_
  rw [takeAll_plain (by simp) (by simp) (by simp)]
  have hmark : ((r.push (.parentheses i)).grown vs log).mark locale source j 41 rest =
      (r.grown [.group i [e'] true] log', 0) :=
    congrArg (·, 0) (close_parentheses hopen hclose)
  rw [hmark]
  rfl

/-! ### Calls -/

/-- The argument is left out, or its text is read as a stream whose tree it is. -/
def RereadsArgument (t : Rereading) (locale : Locale) (a : Expression) : Prop :=
  (∃ p, a = .missing p) ∨ Rereads t locale a

variable {position openAt : Nat} {name : String} {done : List Expression} {last : Option Expression}
  {log log' : ReferenceLog}

/-- A call whose arguments so far are the given ones, the last one first. -/
def calling (position : Nat) (name : String) (openAt : Nat) (done : List Expression) : Frame.Kind :=
  .call position name openAt done done.length

theorem endArgument_calling (h : ((r.push (calling position name openAt done)).grown vs log).closeStream locale source =
      (last, (r.push (calling position name openAt done)).grown vs log')) (i : Nat) :
    ((r.push (calling position name openAt done)).grown vs log).endArgument locale source i =
      ({ r with log := log' }).push (calling position name openAt (last.getD (.missing i) :: done)) := by
  have hkind : ((r.push (calling position name openAt done)).grown vs log).top.kind =
      .call position name openAt done done.length := rfl
  unfold endArgument
  rw [hkind]
  simp only [h]
  cases last with
  | none => simp [push, grown, calling]
  | some e => simp [push, grown, calling]

theorem close_calling (hopen : r.top.kind.IsOpen)
    (h : ((r.push (calling position name openAt done)).grown vs log).closeStream locale source =
      (last, (r.push (calling position name openAt done)).grown vs log')) :
    ((r.push (calling position name openAt done)).grown vs log).close locale source none =
      r.grown [.call position name (done.reverse ++ last.toList)] log' := by
  have hkind : ((r.push (calling position name openAt done)).grown vs log).top.kind =
      .call position name openAt done done.length := rfl
  have hargs : (last.toList ++ done).reverse = done.reverse ++ last.toList := by cases last <;> simp
  unfold close
  rw [hkind]
  simp only [h, hargs]
  exact pop_push hopen _ vs log' _

/-- Reading an argument up to what stops it. -/
theorem takeAll_argument (position : Nat) (name : String) (openAt : Nat) {a : Expression}
    (ha : RereadsArgument t locale a) (source : List Nat) (r : Reader) (done : List Expression) (i : Nat)
    (hrest : Stops rest) : ∃ last vs log log' j,
      (r.push (calling position name openAt done)).takeAll locale source i (written t locale a ++ rest) =
        ((r.push (calling position name openAt done)).grown vs log).takeAll locale source j rest ∧
      ((r.push (calling position name openAt done)).grown vs log).closeStream locale source =
        (last, (r.push (calling position name openAt done)).grown vs log') ∧
      (∀ k, MovesTo t a (last.getD (.missing k))) ∧ (last = none → ∃ p, a = .missing p) := by
  rcases ha with ⟨p, rfl⟩ | ha
  · exact ⟨none, [], r.log, r.log, i, rfl, rfl, fun k => .missing p k, fun _ => ⟨p, rfl⟩⟩
  · obtain ⟨vs, log, j, ⟨stream, hstream, hvs⟩, hj⟩ := ha source (r.push (calling position name openAt done)) i rest
      trivial rfl hrest
    obtain ⟨e', log', hclose, he'⟩ := closeStream_spelled
      (r := (r.push (calling position name openAt done)).grown vs log) hvs hstream (by simp [push]) source
    exact ⟨some e', vs, log, log', j, hj, hclose, fun _ => he', by simp⟩

/-- The units of arguments with separators between them. -/
def writtenArguments (t : Rereading) (locale : Locale) (args : List Expression) : List Nat :=
  Text.units (Expression.renderList locale (Expression.renderAll locale { rows := t.rows, columns := t.columns } args))

theorem writtenArguments_singleton (a : Expression) : writtenArguments t locale [a] = written t locale a := by
  simp [writtenArguments, Expression.renderList, Expression.renderAll, written]

theorem writtenArguments_cons (a b : Expression) (args : List Expression) :
    writtenArguments t locale (a :: b :: args) = written t locale a ++
      unitOf locale.separator.char :: 32 :: writtenArguments t locale (b :: args) := by
  have hseparator : Text.units (locale.separator.char.toString ++ " ") = [unitOf locale.separator.char, 32] := by
    cases locale.separator <;> rfl
  simp only [writtenArguments, Expression.renderList, Expression.renderAll, String.intercalate_cons_cons,
    Text.units_append, hseparator]
  simp [written]

/-- The parenthesis that closes a call. -/
theorem takeAll_closing (hopen : r.top.kind.IsOpen) (i : Nat) (rest : List Nat)
    (h : ((r.push (calling position name openAt done)).grown vs log).closeStream locale source =
      (last, (r.push (calling position name openAt done)).grown vs log')) :
    ((r.push (calling position name openAt done)).grown vs log).takeAll locale source i (41 :: rest) =
      (r.grown [.call position name (done.reverse ++ last.toList)] log').takeAll locale source (i + 1) rest := by
  have hkind : ((r.push (calling position name openAt done)).grown vs log).top.kind =
      .call position name openAt done done.length := rfl
  have hmark : ((r.push (calling position name openAt done)).grown vs log).mark locale source i 41 rest =
      (r.grown [.call position name (done.reverse ++ last.toList)] log', 0) := by
    have hseparator : (41 == unitOf locale.separator.char) = false := by
      rcases separatorUnit locale with h | h <;> rw [h] <;> rfl
    rw [← close_calling hopen h]
    unfold mark
    rw [hkind]
    simp only [hseparator]
    rfl
  rw [takeAll_plain (by simp) (by simp) (by simp), hmark]
  rfl

/-- The separator after an argument, and the space after the separator. -/
theorem takeAll_separator (i : Nat) (rest : List Nat)
    (h : ((r.push (calling position name openAt done)).grown vs log).closeStream locale source =
      (last, (r.push (calling position name openAt done)).grown vs log')) :
    ((r.push (calling position name openAt done)).grown vs log).takeAll locale source i
        (unitOf locale.separator.char :: 32 :: rest) =
      (({ r with log := log' }).push (calling position name openAt (last.getD (.missing i) :: done))).takeAll locale source
        (i + 2) rest := by
  have hkind : ((r.push (calling position name openAt done)).grown vs log).top.kind =
      .call position name openAt done done.length := rfl
  have hunit := separatorUnit locale
  have hmark : ((r.push (calling position name openAt done)).grown vs log).mark locale source i
      (unitOf locale.separator.char) (32 :: rest) =
      (({ r with log := log' }).push (calling position name openAt (last.getD (.missing i) :: done)), 0) := by
    rw [← endArgument_calling h]
    unfold mark
    rw [hkind]
    simp
  rw [takeAll_plain (by rcases hunit with h | h <;> simp [h]) (by simp) (by rcases hunit with h | h <;> simp [h]), hmark]
  exact takeAll_space locale source _ (i + 1) rest

/-- Reading the arguments of a call that are left, up to the parenthesis that closes it. -/
theorem takeAll_arguments (position : Nat) (name : String) (openAt : Nat) (args : List Expression)
    (hargs : ∀ a ∈ args, RereadsArgument t locale a) (hlast : ∀ p, args.getLast? ≠ some (.missing p))
    (source rest : List Nat) (r : Reader) (hopen : r.top.kind.IsOpen) (done : List Expression) (i : Nat) :
    ∃ args' log j, AllMoveTo t args args' ∧
      (r.push (calling position name openAt done)).takeAll locale source i
          (writtenArguments t locale args ++ 41 :: rest) =
        (r.grown [.call position name (done.reverse ++ args')] log).takeAll locale source j rest := by
  induction args generalizing r done i with
  | nil =>
    have hclose : ((r.push (calling position name openAt done)).grown [] r.log).closeStream locale source =
        (none, (r.push (calling position name openAt done)).grown [] r.log) := rfl
    exact ⟨[], r.log, i + 1, .nil, takeAll_closing hopen i rest hclose⟩
  | cons a args ih =>
    obtain ⟨ha, hargs⟩ := List.forall_mem_cons.1 hargs
    cases args with
    | nil =>
      obtain ⟨last, vs, log, log', j, hj, hclose, hmoves, hmissing⟩ :=
        takeAll_argument position name openAt ha source r done i
          (stops_mark (.inl rfl) rest)
      obtain ⟨a', rfl⟩ : ∃ a', last = some a' := by
        cases last with
        | none =>
          obtain ⟨p, rfl⟩ := hmissing rfl
          exact absurd rfl (hlast p)
        | some a' => exact ⟨a', rfl⟩
      refine ⟨[a'], log', j + 1, .cons _ _ _ _ (hmoves 0) .nil, ?_⟩
      rw [writtenArguments_singleton]
      exact hj.trans (takeAll_closing hopen j rest hclose)
    | cons b args =>
      obtain ⟨last, vs, log, log', j, hj, hclose, hmoves, -⟩ :=
        takeAll_argument position name openAt ha source r done i
          (stops_separator locale (writtenArguments t locale (b :: args) ++ 41 :: rest))
      obtain ⟨args', log'', k, hargs', hk⟩ := ih hargs (fun p hp => hlast p (by rwa [List.getLast?_cons_cons]))
        { r with log := log' } hopen (last.getD (.missing j) :: done) (j + 2)
      refine ⟨last.getD (.missing j) :: args', log'', k, .cons _ _ _ _ (hmoves j) hargs', ?_⟩
      rw [writtenArguments_cons, List.append_assoc]
      refine hj.trans ((takeAll_separator j _ hclose).trans (hk.trans ?_))
      simp [grown]

theorem written_call (p : Nat) (name : String) (args : List Expression) : written t locale (.call p name args) =
    Text.units name ++ 40 :: (writtenArguments t locale args ++ [41]) := by
  simp only [written, Expression.render, Text.units_append, writtenArguments, List.append_assoc]
  rfl

theorem scans_call (p : Nat) {name : String} (hname : Lexeme.IsWord name) {args : List Expression}
    (hargs : ∀ a ∈ args, RereadsArgument t locale a) (hlast : ∀ q, args.getLast? ≠ some (.missing q)) :
    Scans locale first (written t locale (.call p name args))
      (Spelled t locale [.call p name args]) := by
  obtain ⟨u, us, hunits, hstart, -⟩ := hname.spans
  rw [written_call, hunits]
  intro source r i rest hopen _ _
  obtain ⟨openAt, hword⟩ := Lexeme.word_call hname hunits (writtenArguments t locale args ++ 41 :: rest) i
  obtain ⟨args', log, j, hmoves, hj⟩ := takeAll_arguments i name openAt args hargs hlast source rest r hopen []
    (i + 1 + (us.length + 1))
  refine ⟨[.call i name args'], log, j, spelled_unit (.call p i name args args' hmoves) ⟨rfl, rfl⟩, ?_⟩
  have hsplit : u :: us ++ 40 :: (writtenArguments t locale args ++ [41]) ++ rest =
      u :: (us ++ unitOf '(' :: (writtenArguments t locale args ++ 41 :: rest)) := by simp [unitOf]
  rw [hsplit, takeAll_cons, take, Lexeme.read_word hstart, hword]
  refine Eq.trans ?_ hj
  have hdrop : (us ++ unitOf '(' :: (writtenArguments t locale args ++ 41 :: rest)).drop (us.length + 1) =
      writtenArguments t locale args ++ 41 :: rest := by
    rw [← List.drop_drop, List.drop_left]
    rfl
  simp only [hdrop]
  rfl

/-! ### Arrays -/

open Number (ReadsBackAs)

variable {p row column : Nat} {cs : List (List Value)} {height mark : Nat} {v : Value}

/-- A member of an array whose text, if it is a number, is read as one that may be read in its place. -/
def ReadsMember (t : Rereading) (v : Value) : Prop :=
  ∀ x, v = .number x → x.isFinite = true ∧ ReadsBackAs t.number x

/-- The text of a member is read as a member in its place, and a gap has no text. -/
theorem takeAll_member (hi : locale.imaginary = 'i' ∨ locale.imaginary = 'j') (hv : IsMember v) (hread : ReadsMember t v)
    (source : List Nat) (r : Reader) (p column row mark : Nat) (cs : List (List Value)) (i : Nat) (hrest : Stops rest) :
    ∃ cs' j, (v = .undefined ∧ cs' = cs ∨ ∃ v', t.Member v' v ∧ cs' = put cs column row v') ∧
      (r.push (.array p cs column row mark)).takeAll locale source i
          (Text.units (Expression.renderValue locale v) ++ rest) =
        (r.push (.array p cs' column row mark)).takeAll locale source j rest := by
  -- a literal is put into the column, and is noted nowhere
  have hliteral {us : List Nat} {P : Expression → Prop} (h : ReadsAs locale true us P)
      (hP : ∀ e, P e → ∃ q v' spelling, e = .literal q v' spelling ∧ t.Member v' v) :
      ∃ cs' j, (∃ v', t.Member v' v ∧ cs' = put cs column row v') ∧
        (r.push (.array p cs column row mark)).takeAll locale source i (us ++ rest) =
          (r.push (.array p cs' column row mark)).takeAll locale source j rest := by
    obtain ⟨u, vs, e, rfl, hread, he⟩ := h rest hrest i
    obtain ⟨q, v', spelling, rfl, hv'⟩ := hP e he
    obtain ⟨j, hj⟩ := takeAll_atom (r := r.push (.array p cs column row mark)) source hread
    exact ⟨put cs column row v', j, ⟨v', hv', rfl⟩, hj⟩
  cases v with
  | undefined => exact ⟨cs, i, .inl ⟨rfl, rfl⟩, rfl⟩
  | text s =>
    obtain ⟨cs', j, hcs', hj⟩ := hliteral (reads_text locale true s) (by
      rintro _ ⟨q, rfl⟩
      exact ⟨q, _, _, rfl, .text s⟩)
    exact ⟨cs', j, .inr hcs', hj⟩
  | boolean b =>
    obtain ⟨cs', j, hcs', hj⟩ := hliteral (reads_boolean locale true b) (by
      rintro _ ⟨q, rfl⟩
      exact ⟨q, _, _, rfl, .boolean b⟩)
    exact ⟨cs', j, .inr hcs', hj⟩
  | number x =>
    obtain ⟨hfinite, hback⟩ := hread x rfl
    obtain ⟨n, hn, hne, -, hvalue, -⟩ := Lexeme.writes_renderNumber locale hback hfinite
    obtain ⟨cs', j, hcs', hj⟩ := hliteral (reads_number hi ⟨n, _, hn, hne, .inl ⟨rfl, rfl⟩⟩ nofun) (by
      rintro _ ⟨q, rfl⟩
      exact ⟨q, _, _, rfl, .number _ _ hvalue⟩)
    exact ⟨cs', j, .inr hcs', hj⟩
  | complex => exact hv.elim
  | error => exact hv.elim
  | metadata => exact hv.elim
  | array => exact hv.elim

/-- The places of an array before the given one, row by row. -/
def Before (columns : List (List Value)) (column row : Nat) (c r : Nat) : Prop :=
  c < columns.length ∧ (r < row ∨ r = row ∧ c < column)

variable {members : List (List Value)}

/-- Reading one member goes on to the place after it. -/
theorem takeAll_place (hi : locale.imaginary = 'i' ∨ locale.imaginary = 'j') (harray : IsArray members height)
    (hread : ∀ c r, ReadsMember t (memberAt members c r)) (hcolumn : column < members.length) (hrow : row < height)
    (hcopies : Copies t members height (Before members column row) cs) (source : List Nat) (r : Reader) (p mark i : Nat)
    (hrest : Stops rest) : ∃ cs' j, Copies t members height (Before members (column + 1) row) cs' ∧
      (r.push (.array p cs column row mark)).takeAll locale source i
          (Text.units (Expression.renderValue locale (memberAt members column row)) ++ rest) =
        (r.push (.array p cs' column row mark)).takeAll locale source j rest := by
  have hbefore (c k : Nat) : Before members (column + 1) row c k ↔
      Before members column row c k ∨ c = column ∧ k = row := by
    unfold Before
    omega
  obtain ⟨cs', j, ⟨hgap, rfl⟩ | ⟨v', hv', rfl⟩, hj⟩ := takeAll_member hi (harray.member column row)
    (hread column row) source r p column row mark cs i hrest
  · exact ⟨cs', j, hcopies.skip (by simp [Before]) hgap hbefore, hj⟩
  · exact ⟨_, j, hcopies.put hcolumn hrow hv' hbefore, hj⟩

theorem takeAll_nextColumn (source : List Nat) (r : Reader) (p mark i : Nat) (rest : List Nat) :
    (r.push (.array p cs column row mark)).takeAll locale source i (44 :: 32 :: rest) =
      (r.push (.array p cs (column + 1) row mark)).takeAll locale source (i + 2) rest := by
  rw [takeAll_plain (by simp) (by simp) (by simp)]
  exact takeAll_space locale source _ (i + 1) rest

theorem takeAll_nextRow (source : List Nat) (r : Reader) (p mark i : Nat) (rest : List Nat) :
    (r.push (.array p cs column row mark)).takeAll locale source i (59 :: 32 :: rest) =
      (r.push (.array p cs 0 (row + 1) mark)).takeAll locale source (i + 2) rest := by
  rw [takeAll_plain (by simp) (by simp) (by simp)]
  exact takeAll_space locale source _ (i + 1) rest

/-- The text of the members of a row that stand in the given columns. -/
def rowText (locale : Locale) (row : Nat) (columns : List (List Value)) : String :=
  ", ".intercalate (columns.map fun c => Expression.renderValue locale (c.getD row .undefined))

/-- Reading a row from a column on, to its end. -/
theorem takeAll_row (hi : locale.imaginary = 'i' ∨ locale.imaginary = 'j') (harray : IsArray members height)
    (hread : ∀ c r, ReadsMember t (memberAt members c r)) (hrow : row < height) (left : List (List Value))
    (hleft : members.drop column = left) (hne : left ≠ [])
    (hcopies : Copies t members height (Before members column row) cs) (source : List Nat) (r : Reader) (p mark i : Nat)
    (hrest : Stops rest) : ∃ cs' column' j, Copies t members height (Before members 0 (row + 1)) cs' ∧
      (r.push (.array p cs column row mark)).takeAll locale source i
          (Text.units (rowText locale row left) ++ rest) =
        (r.push (.array p cs' column' row mark)).takeAll locale source j rest := by
  induction left generalizing column cs i with
  | nil => exact absurd rfl hne
  | cons c left ih =>
    have hcolumn : column < members.length := by
      rw [← List.drop_eq_nil_iff.not.trans Nat.not_le, hleft]
      exact List.cons_ne_nil c left
    have hmember : c.getD row .undefined = memberAt members column row := by
      rw [List.drop_eq_getElem_cons hcolumn] at hleft
      rw [memberAt, List.getD_eq_getElem _ _ hcolumn, (List.cons.inj hleft).1]
    have hnext : members.drop (column + 1) = left := by rw [← List.drop_drop, hleft]; rfl
    cases left with
    | nil =>
      obtain ⟨cs', j, hcs', hj⟩ := takeAll_place hi harray hread hcolumn hrow hcopies source r p mark i hrest
      refine ⟨cs', column, j, hcs'.congr fun c' k => ?_, ?_⟩
      · have hend := List.drop_eq_nil_iff.1 hnext
        unfold Before
        omega
      · rwa [rowText, List.map_singleton, String.intercalate_singleton, hmember]
    | cons d left =>
      obtain ⟨cs', j, hcs', hj⟩ := takeAll_place hi harray hread hcolumn hrow hcopies source r p mark i
        (stops_comma (Text.units (rowText locale row (d :: left)) ++ rest))
      obtain ⟨cs'', column', k, hcs'', hk⟩ := ih hnext (List.cons_ne_nil _ _) hcs' (j + 2)
      refine ⟨cs'', column', k, hcs'', ?_⟩
      have hunits : Text.units (rowText locale row (c :: d :: left)) =
          Text.units (Expression.renderValue locale (memberAt members column row)) ++
            44 :: 32 :: Text.units (rowText locale row (d :: left)) := by
        simp only [rowText, List.map_cons, String.intercalate_cons_cons, Text.units_append, hmember, List.append_assoc]
        rfl
      rw [hunits, List.append_assoc]
      exact hj.trans ((takeAll_nextColumn source r p mark j _).trans hk)

/-- The text of rows of an array. -/
def rowsText (locale : Locale) (columns : List (List Value)) (rows : List Nat) : String :=
  "; ".intercalate (rows.map fun row => rowText locale row columns)

/-- Reading an array from a row on, to its end. -/
theorem takeAll_rows (hi : locale.imaginary = 'i' ∨ locale.imaginary = 'j') (harray : IsArray members height)
    (hread : ∀ c r, ReadsMember t (memberAt members c r)) (hmembers : members ≠ []) (left row : Nat)
    (hleft : row + left = height) (hpos : 0 < left) (hcopies : Copies t members height (Before members 0 row) cs)
    (source : List Nat) (r : Reader) (p mark i : Nat) (hrest : Stops rest) :
    ∃ cs' column' row' j, Copies t members height (Before members 0 height) cs' ∧
      (r.push (.array p cs 0 row mark)).takeAll locale source i
          (Text.units (rowsText locale members (List.range' row left)) ++ rest) =
        (r.push (.array p cs' column' row' mark)).takeAll locale source j rest := by
  induction left generalizing row cs i with
  | zero => exact absurd hpos (Nat.lt_irrefl 0)
  | succ left ih =>
    have hrow : row < height := by omega
    cases left with
    | zero =>
      obtain ⟨cs', column', j, hcs', hj⟩ := takeAll_row hi harray hread hrow members rfl hmembers hcopies source r p mark i
        hrest
      obtain rfl : row + 1 = height := hleft
      refine ⟨cs', column', row, j, hcs', ?_⟩
      rwa [rowsText, List.range'_one, List.map_singleton, String.intercalate_singleton]
    | succ left =>
      obtain ⟨cs', column', j, hcs', hj⟩ := takeAll_row hi harray hread hrow members rfl hmembers hcopies source r p mark i
        (stops_mark (.inr (.inr (.inl rfl)))
          (32 :: (Text.units (rowsText locale members (List.range' (row + 1) (left + 1))) ++ rest)))
      obtain ⟨cs'', column'', row', k, hcs'', hk⟩ := ih (row + 1) (by omega) (Nat.succ_pos left) hcs' (j + 2)
      refine ⟨cs'', column'', row', k, hcs'', ?_⟩
      have hunits : Text.units (rowsText locale members (List.range' row (left + 1 + 1))) =
          Text.units (rowText locale row members) ++
            59 :: 32 :: Text.units (rowsText locale members (List.range' (row + 1) (left + 1))) := by
        simp only [rowsText, List.range'_succ, List.map_cons, String.intercalate_cons_cons, Text.units_append,
          List.append_assoc]
        rfl
      rw [hunits, List.append_assoc]
      exact hj.trans ((takeAll_nextRow source r p mark j _).trans hk)

/-- The brace that closes an array. -/
theorem takeAll_brace (hopen : r.top.kind.IsOpen) (source : List Nat) (i : Nat) (rest : List Nat) :
    (r.push (.array p cs column row mark)).takeAll locale source i (125 :: rest) =
      (r.grown [.array p (rectangular cs)] r.log).takeAll locale source (i + 1) rest := by
  have hmark : (r.push (.array p cs column row mark)).mark locale source i 125 rest =
      (r.grown [.array p (rectangular cs)] r.log, 0) :=
    congrArg (·, 0) (pop_push hopen (.array p cs column row mark) [] r.log (.array p (rectangular cs)))
  rw [takeAll_plain (by simp) (by simp) (by simp), hmark]
  rfl

/-- The text of an array is its rows between braces. -/
theorem braced_eq (locale : Locale) (harray : IsArray members height) :
    Value.braced (members.map fun c => c.map (Expression.renderValue locale)) =
      "\x7b" ++ rowsText locale members (List.range' 0 (if members = [] then 0 else height)) ++ "\x7d" := by
  have hheight : (members.map fun c => c.map (Expression.renderValue locale)).head?.elim 0 List.length =
      if members = [] then 0 else height := by
    cases members with
    | nil => rfl
    | cons c members => simpa using harray.length 0 (Nat.succ_pos _)
  have hrow (row : Nat) : ((members.map fun c => c.map (Expression.renderValue locale)).map fun c => c.getD row "") =
      members.map fun c => Expression.renderValue locale (c.getD row .undefined) := by
    rw [List.map_map]
    refine List.map_congr_left fun c _ => ?_
    exact List.getD_map c .undefined (Expression.renderValue locale)
  simp only [Value.braced, hheight, hrow, rowsText, rowText, List.range_eq_range']

theorem written_array (p : Nat) (harray : IsArray members height) : written t locale (.array p members) =
    123 :: (Text.units (rowsText locale members (List.range' 0 (if members = [] then 0 else height))) ++ [125]) := by
  have htext : Expression.render locale { rows := t.rows, columns := t.columns } (.array p members) =
      Value.braced (members.map fun c => c.map (Expression.renderValue locale)) := by
    rw [Expression.render]
    rfl
  rw [written, htext, braced_eq locale harray, Text.units_append, Text.units_append]
  rfl

theorem scans_array (hi : locale.imaginary = 'i' ∨ locale.imaginary = 'j') (p : Nat) (harray : IsArray members height)
    (hread : ∀ c r, ReadsMember t (memberAt members c r)) :
    Scans locale first (written t locale (.array p members))
      (Spelled t locale [.array p members]) := by
  rw [written_array p harray]
  intro source r i rest hopen _ _
  have hstart : r.takeAll locale source i (123 :: (Text.units (rowsText locale members
        (List.range' 0 (if members = [] then 0 else height))) ++ [125]) ++ rest) =
      (r.push (.array i [] 0 0 r.log.entries.length)).takeAll locale source (i + 1) (Text.units (rowsText locale members
        (List.range' 0 (if members = [] then 0 else height))) ++ 125 :: rest) := by
    rw [List.cons_append, List.append_assoc, takeAll_cons, take, Lexeme.read_brace]
    rfl
  obtain ⟨cs, hcs, j, hj⟩ : ∃ cs, Copies t members height (Before members 0 height) cs ∧ ∃ j,
      (r.push (.array i [] 0 0 r.log.entries.length)).takeAll locale source (i + 1) (Text.units (rowsText locale members
        (List.range' 0 (if members = [] then 0 else height))) ++ 125 :: rest) =
      (r.grown [.array i (rectangular cs)] r.log).takeAll locale source j rest := by
    have hnone : Copies t members height (Before members 0 0) [] := copies_nil members height fun c k => by simp [Before]
    by_cases hmembers : members = []
    · subst hmembers
      exact ⟨[], hnone.congr fun c k => by simp [Before], _, takeAll_brace hopen source (i + 1) rest⟩
    · have hpos : 0 < height := by
        obtain ⟨k, hk⟩ := harray.lastColumn hmembers
        obtain ⟨hc, hk⟩ := lt_of_defined hk
        rw [harray.length _ hc] at hk
        omega
      rw [if_neg hmembers]
      obtain ⟨cs, column, row, j, hcs, hj⟩ := takeAll_rows hi harray hread hmembers height 0 (Nat.zero_add height) hpos
        hnone source r i r.log.entries.length (i + 1) (stops_mark (.inr (.inr (.inr rfl))) rest)
      exact ⟨cs, hcs, j + 1, hj.trans (takeAll_brace hopen source j rest)⟩
  have hmembers := hcs.members harray fun c hc k hk => ⟨hc, .inl hk⟩
  exact ⟨[.array i (rectangular cs)], r.log, j, spelled_unit (.array p i members _ hmembers) ⟨rfl, rfl⟩, hstart.trans hj⟩

end Reader

end Spreadsheet.Formula
