import Mathlib.Data.List.Nodup
import Spreadsheet.Proofs.Formula.Tracked

/-!
The references of formulas without faults. The list of references has an entry for each cell, range and name of the
expression in the order of the formula, and what the formula depends on has the labels of its cells and ranges; the
corners of ranges, imaginary units and calls leave nothing behind.
-/

namespace Spreadsheet.Formula

open Expression (atoms place atoms_of_isAtom)

variable {locale : Locale} {source : List Nat} {log : ReferenceLog} {as us : List Expression} {u e : Expression}
  {r : Reader} {i stop : Nat}

/-! ### What a log tells -/

theorem nodup_eraseDups (l : List String) : l.eraseDups.Nodup := by
  cases l with
  | nil => exact .nil
  | cons a l =>
    rw [List.eraseDups_cons, List.nodup_cons, List.mem_eraseDups]
    exact ⟨by simp, nodup_eraseDups _⟩
termination_by l.length
decreasing_by exact Nat.lt_succ_of_le (List.length_filter_le _ _)

/-- The labels of what is found under labels are the labels themselves. -/
theorem map_filterMap_find? {α : Type} (label : α → String) (found : String → Option α) {labels : List String}
    (hfound : ∀ l x, found l = some x → label x = l) :
    (labels.filterMap found).map label = labels.filter fun l => (found l).isSome := by
  induction labels with
  | nil => rfl
  | cons l labels ih =>
    cases hl : found l with
    | none => rw [List.filterMap_cons_none hl, List.filter_cons_of_neg (by simp [hl]), ih]
    | some x =>
      rw [List.filterMap_cons_some hl, List.filter_cons_of_pos (by simp [hl]), List.map_cons, ih, hfound l x hl]

namespace ReferenceLog.Tracks

/-- The entries in the order of the formula are those of the atoms. -/
theorem inOrder_eq (h : log.Tracks as stop) : log.inOrder = as.filterMap ReferenceEntry.ofUnit? ∧
    (log.inOrder.map ReferenceEntry.position).Pairwise (· < ·) := by
  have hplaces : (as.filterMap ReferenceEntry.ofUnit?).Pairwise fun x y => x.position < y.position := by
    rw [List.pairwise_filterMap]
    refine (List.pairwise_map.1 h.ordered).imp fun hab x hx y hy => ?_
    rwa [(Expression.isAtom_of_ofUnit? hx).2.1, (Expression.isAtom_of_ofUnit? hy).2.1]
  have hperm : log.inOrder.Perm (as.filterMap ReferenceEntry.ofUnit?) := (List.mergeSort_perm _ _).trans h.entries
  have hleft : log.inOrder.Pairwise fun x y => x.position ≤ y.position := by
    have hpairwise : log.inOrder.Pairwise fun x y => decide (x.position ≤ y.position) = true :=
      List.pairwise_mergeSort (fun x y z hxy hyz => by simp only [decide_eq_true_eq] at *; omega)
        (fun x y => by simp only [Bool.or_eq_true, decide_eq_true_eq]; omega) log.entries
    exact hpairwise.imp of_decide_eq_true
  have hright : (as.filterMap ReferenceEntry.ofUnit?).Pairwise fun x y => x.position ≤ y.position :=
    hplaces.imp Nat.le_of_lt
  have hnodup : ((as.filterMap ReferenceEntry.ofUnit?).map ReferenceEntry.position).Nodup :=
    List.pairwise_map.2 (hplaces.imp Nat.ne_of_lt)
  -- entries at one place are one entry, so the order decides the list
  have hsorted : log.inOrder = as.filterMap ReferenceEntry.ofUnit? :=
    hperm.eq_of_pairwise (fun x y hx hy hxy hyx =>
      List.inj_on_of_nodup_map hnodup (hperm.subset hx) hy (Nat.le_antisymm hxy hyx)) hleft hright
  exact ⟨hsorted, hsorted ▸ List.pairwise_map.2 hplaces⟩

/-- The cells that are left are those of the atoms. -/
theorem cells_labels (h : log.Tracks as stop) : (log.cells.map Mention.label).Nodup ∧
    ∀ label, label ∈ log.cells.map Mention.label ↔ ∃ m, .cell m ∈ as ∧ m.label = label := by
  have hlabels : log.cells.map Mention.label = _ := map_filterMap_find? Mention.label _ fun l m hm => by
    split at hm
    · simpa using List.find?_some hm
    · cases hm
  rw [hlabels]
  refine ⟨(nodup_eraseDups _).filter _, fun label => ?_⟩
  have hcount := h.counts label
  have hstands : label ∈ cellLabels as ↔ log.released.count label < (log.seen.map Mention.label).count label := by
    rw [← List.count_pos_iff]
    omega
  have hmentioned : label ∈ cellLabels as ↔ ∃ m, .cell m ∈ as ∧ m.label = label := by
    simp only [cellLabels, List.mem_map, List.mem_filterMap]
    constructor
    · rintro ⟨m, ⟨u, hu, hm⟩, hlabel⟩
      cases u <;> cases hm
      exact ⟨m, hu, hlabel⟩
    · rintro ⟨m, hm, hlabel⟩
      exact ⟨m, ⟨_, hm, rfl⟩, hlabel⟩
  rw [← hmentioned, hstands, List.mem_filter, List.mem_eraseDups]
  constructor
  · rintro ⟨-, hfound⟩
    by_contra hnot
    rw [if_neg hnot] at hfound
    cases hfound
  · intro hlt
    have hseen : label ∈ log.seen.map Mention.label := List.count_pos_iff.1 (by omega)
    obtain ⟨m, hm, rfl⟩ := List.mem_map.1 hseen
    refine ⟨hseen, ?_⟩
    rw [if_pos hlt, List.find?_isSome]
    exact ⟨m, hm, beq_self_eq_true _⟩

/-- The ranges are those of the atoms. -/
theorem rangeList_labels (h : log.Tracks as stop) : (log.rangeList.map RangeMention.label).Nodup ∧
    ∀ label, label ∈ log.rangeList.map RangeMention.label ↔ ∃ p r, .range p r ∈ as ∧ r.label = label := by
  have hlabels : log.rangeList.map RangeMention.label = _ := map_filterMap_find? RangeMention.label _ fun l r hr => by
    simpa using List.find?_some hr
  rw [hlabels]
  refine ⟨(nodup_eraseDups _).filter _, fun label => ?_⟩
  have hentry (r : RangeMention) : .range r ∈ log.entries ↔ ∃ p, .range p r ∈ as := by
    rw [h.entries.mem_iff, List.mem_filterMap]
    constructor
    · rintro ⟨u, hu, hr⟩
      cases u <;> cases hr
      exact ⟨_, hu⟩
    · rintro ⟨p, hp⟩
      exact ⟨_, hp, rfl⟩
  rw [List.mem_filter, List.mem_eraseDups, List.mem_filterMap]
  constructor
  · rintro ⟨⟨x, hx, hlabel⟩, -⟩
    cases x with
    | range r =>
      obtain ⟨p, hp⟩ := (hentry r).1 hx
      exact ⟨p, r, hp, Option.some.inj hlabel⟩
    | _ => cases hlabel
  · rintro ⟨p, r, hr, hlabel⟩
    refine ⟨⟨.range r, (hentry r).2 ⟨p, hr⟩, congrArg some hlabel⟩, ?_⟩
    rw [List.find?_isSome]
    exact ⟨r, h.ranges p r hr, beq_iff_eq.2 hlabel⟩

end ReferenceLog.Tracks

/-! ### Readers -/

/-- The units of a frame from left to right. Those of an array are no references. -/
def Frame.units (f : Frame) : List Expression :=
  match f.kind with
  | .call _ _ _ arguments _ => (f.stream ++ arguments).reverse
  | .array _ _ _ _ _ => []
  | _ => f.stream.reverse

/-- The atoms of a frame. -/
def Frame.atoms (f : Frame) : List Expression := f.units.flatMap Expression.atoms

namespace Reader

/-- The atoms before the innermost frame. -/
def around (r : Reader) : List Expression := r.below.reverse.flatMap Frame.atoms

/-- The atoms that have been read. -/
def atoms (r : Reader) : List Expression := r.around ++ r.top.atoms

/-- Unless there has been a fault, the log is that of the atoms, which stand before the given place. -/
structure Tracked (r : Reader) (i : Nat) : Prop where
  shaped : r.Keeps Frame.Shaped
  rooted : Rooted none r.frames
  tracks : r.error = none → r.log.Tracks r.atoms i

theorem tracked_start (i : Nat) : ({} : Reader).Tracked i :=
  ⟨(shapedInvariant {}).keeps_start, ⟨rfl, by rintro e ⟨⟩⟩, fun _ => ReferenceLog.tracks_nil i⟩

/-- A unit whose atoms are in the log is handed to the innermost frame. -/
theorem tracks_deliver (h : r.error = none → r.log.Tracks (r.atoms ++ u.atoms) i)
    (herror : (r.deliver u).error = none) : (r.deliver u).log.Tracks (r.deliver u).atoms i := by
  unfold deliver at herror ⊢
  split at herror
  · rename_i openAt columns column row mark hkind
    have hunits : r.top.atoms = [] := by simp [Frame.atoms, Frame.units, hkind]
    split at herror
    · have hlog := h herror
      rw [atoms_of_isAtom rfl] at hlog
      have hdropped := hlog.dropLast rfl rfl
      rwa [atoms, hunits] at hdropped
    · exact absurd herror (error_fail _ _ _)
  · rename_i hkind
    have hunits : Frame.atoms { r.top with stream := u :: r.top.stream } = r.top.atoms ++ u.atoms := by
      unfold Frame.atoms Frame.units
      split <;> simp_all
    change r.log.Tracks (r.around ++ Frame.atoms { r.top with stream := u :: r.top.stream }) i
    rw [hunits, ← List.append_assoc]
    exact h herror

theorem tracks_pop (hrooted : Rooted none r.frames) (hkind : r.top.kind ≠ .whole) {unit : Option Expression}
    (h : r.error = none → r.log.Tracks (r.around ++ unit.toList.flatMap Expression.atoms) i)
    (herror : (r.pop unit).error = none) : (r.pop unit).log.Tracks (r.pop unit).atoms i := by
  obtain ⟨f, below, hbelow, -⟩ := hrooted.around hkind
  have hatoms : r.around = atoms { r with top := f, below } := by simp [around, atoms, hbelow]
  rw [hatoms] at h
  unfold pop at herror ⊢
  rw [hbelow] at herror ⊢
  cases unit with
  | none => simpa using h herror
  | some u => exact tracks_deliver (r := { r with top := f, below }) (by simpa using h) herror

/-- What is made of a stream has the atoms of the stream, apart from those that became parts of others. -/
theorem tracks_closeStream (h : r.Tracked i) (arguments : List Expression)
    (hunits : r.top.units = arguments ++ r.top.stream.reverse)
    (herror : (r.closeStream locale source).2.error = none) :
    (r.closeStream locale source).2.log.Tracks (r.around ++
      (arguments ++ (r.closeStream locale source).1.toList).flatMap Expression.atoms) i := by
  have hlog := h.tracks (error_closeStream herror)
  have hparts := (h.shaped (error_closeStream herror) r.top List.mem_cons_self).parts locale source r.log
  rw [atoms, Frame.atoms, hunits, List.flatMap_append, ← List.append_assoc] at hlog
  rw [List.flatMap_append, ← List.append_assoc]
  unfold closeStream at herror ⊢
  split at herror
  · rename_i hstream
    rw [hstream] at hlog
    exact hlog
  · simp only at herror ⊢
    have hfolded := tracks_complexes locale source _ (tracks_ranges _ hlog)
    split at herror
    · rename_i htree
      have hatoms := Expression.atoms_of_arranges (wellFormed_of_tree hparts htree).1
      simpa [hatoms, folded] using hfolded
    · exact absurd herror (error_fail _ _ _)

theorem around_closeStream (locale : Locale) (source : List Nat) (r : Reader) :
    (r.closeStream locale source).2.around = r.around := by
  rw [around, around, below_eq (frames_closeStream locale source r)]

/-- Closing a frame hands on the atoms of its unit. -/
theorem tracked_close (h : r.Tracked i) (locale : Locale) (source : List Nat) (fault : Option Fault)
    (hkind : r.top.kind ≠ .whole) : (r.close locale source fault).Tracked i := by
  refine ⟨(shapedInvariant locale).keeps_close h.shaped source fault,
    (rooted_close h.rooted locale source fault hkind).1, ?_⟩
  have hpop (r' : Reader) (hframes : r'.frames = r.frames) (p : Nat) (unit : Option Expression)
      (hunit : r'.error = none → r'.log.Tracks (r.around ++ unit.toList.flatMap Expression.atoms) i) :
      ((r'.noted fault p).pop unit).error = none →
        ((r'.noted fault p).pop unit).log.Tracks ((r'.noted fault p).pop unit).atoms i := by
    have haround : r'.around = r.around := by rw [around, around, below_eq hframes]
    cases fault with
    | none => exact tracks_pop (hframes ▸ h.rooted) (top_eq hframes ▸ hkind) (haround ▸ hunit)
    | some f =>
      exact tracks_pop (r := r'.fail f p) (hframes ▸ h.rooted : Rooted none r'.frames)
        (top_eq hframes ▸ hkind : r'.top.kind ≠ .whole) fun hnone => absurd hnone (error_fail _ _ _)
  have hclosed := frames_closeStream locale source r
  unfold close
  cases hk : r.top.kind with
  | whole => exact absurd hk hkind
  | parentheses openAt =>
    refine hpop _ hclosed openAt _ fun hnone => ?_
    have hstream := tracks_closeStream h [] (by simp [Frame.units, hk]) hnone
    have hgroup : ((r.closeStream locale source).1.map fun e => Expression.group openAt [e] true).toList.flatMap
        Expression.atoms = ([] ++ (r.closeStream locale source).1.toList).flatMap Expression.atoms := by
      cases (r.closeStream locale source).1 <;> simp
    exact hgroup ▸ hstream
  | call position name openAt arguments index =>
    refine hpop _ hclosed openAt _ fun hnone => ?_
    have hstream := tracks_closeStream h arguments.reverse (by simp [Frame.units, hk]) hnone
    have hcall : (some (Expression.call position name
        ((r.closeStream locale source).1.toList ++ arguments).reverse)).toList.flatMap Expression.atoms =
          (arguments.reverse ++ (r.closeStream locale source).1.toList).flatMap Expression.atoms := by
      cases (r.closeStream locale source).1 <;> simp
    exact hcall ▸ hstream
  | array openAt columns column row mark =>
    refine hpop _ rfl openAt _ fun hnone => ?_
    have hlog := h.tracks hnone
    rw [atoms, show r.top.atoms = [] by simp [Frame.atoms, Frame.units, hk]] at hlog
    simpa using hlog

theorem tracked_endArgument (h : r.Tracked i) (locale : Locale) (source : List Nat) (j : Nat) :
    (r.endArgument locale source j).Tracked i := by
  refine ⟨(shapedInvariant locale).keeps_endArgument h.shaped source j, rooted_endArgument h.rooted locale source j, ?_⟩
  unfold endArgument
  split
  · rename_i position name openAt arguments index hkind
    intro hnone
    have hstream := tracks_closeStream h arguments.reverse (by simp [Frame.units, hkind]) hnone
    rw [← around_closeStream locale source] at hstream
    have hmissing (n : Nat) : (List.replicate n (Expression.missing j)).flatMap Expression.atoms = [] :=
      List.flatMap_eq_nil_iff.2 fun u hu => by rw [List.eq_of_mem_replicate hu, Expression.atoms_missing]
    cases hlast : (r.closeStream locale source).1 with
    | none => simpa [hlast, atoms, around, Frame.atoms, Frame.units, hmissing] using hstream
    | some e => simpa [hlast, atoms, around, Frame.atoms, Frame.units, hmissing] using hstream
  · exact h.tracks

theorem tracked_push (h : r.Tracked i) {kind : Frame.Kind} (hkind : kind ≠ .whole)
    (hshaped : Frame.Shaped ⟨kind, []⟩)
    (hunits : Frame.units ⟨kind, []⟩ = []) : (r.push kind).Tracked i := by
  refine ⟨(shapedInvariant {}).keeps_push h.shaped hshaped, rooted_push h.rooted hkind, fun hnone => ?_⟩
  have hatoms : (r.push kind).atoms = r.atoms := by
    simp [atoms, around, push, Frame.atoms, hunits]
  rw [hatoms]
  exact h.tracks hnone

theorem tracked_fail (h : r.Tracked i) (fault : Fault) (p : Nat) : (r.fail fault p).Tracked i :=
  ⟨keeps_of_error (error_fail _ _ _), h.rooted, fun hnone => absurd hnone (error_fail _ _ _)⟩

theorem tracked_arrayMark (h : r.Tracked i) (locale : Locale) (source : List Nat) (j u : Nat) :
    (r.arrayMark locale source j u).Tracked i := by
  refine ⟨(shapedInvariant locale).keeps_arrayMark h.shaped source j u, rooted_arrayMark h.rooted locale source j u, ?_⟩
  unfold arrayMark
  split
  · rename_i openAt columns column row mark hkind
    have hmoved (column row : Nat) :
        atoms { r with top.kind := .array openAt columns column row mark } = r.atoms := by
      simp [atoms, around, Frame.atoms, Frame.units, hkind]
    split
    · intro hnone
      rw [hmoved]
      exact h.tracks hnone
    split
    · intro hnone
      rw [hmoved]
      exact h.tracks hnone
    split
    · exact (tracked_close h locale source none (by simp [hkind])).tracks
    · exact fun hnone => absurd hnone (error_fail _ _ _)
  · exact h.tracks

theorem tracked_otherMark (h : r.Tracked i) (j u : Nat) (us : List Nat) : (r.otherMark j u us).1.Tracked i := by
  unfold otherMark
  split
  · exact tracked_push h (by simp) ((shapedInvariant {}).parentheses j) rfl
  · split
    · rename_i symbol n hoperator
      exact ⟨(shapedInvariant {}).keeps_deliver h.shaped fun _ => isPiece_operator j (mem_of_takeOperator hoperator),
        rooted_deliver h.rooted _, tracks_deliver (by simpa using h.tracks)⟩
    · exact tracked_fail h _ _

theorem tracked_mark (h : r.Tracked i) (locale : Locale) (source : List Nat) (j u : Nat) (us : List Nat) :
    (r.mark locale source j u us).1.Tracked i := by
  unfold mark
  split
  · exact tracked_arrayMark h locale source j u
  · rename_i hkind
    split
    · exact tracked_close h locale source none (by simp [hkind])
    · exact tracked_otherMark h j u us
  · rename_i hkind
    split
    · exact tracked_endArgument h locale source j
    · split
      · exact tracked_close h locale source none (by simp [hkind])
      · exact tracked_otherMark h j u us
  · exact tracked_otherMark h j u us

theorem tracked_mono {j : Nat} (h : r.Tracked i) (hij : i ≤ j) : r.Tracked j :=
  { h with tracks := fun hnone => (h.tracks hnone).mono hij }

/-- A lexeme adds its atom, if it is one, and nothing else. -/
theorem tracked_take (h : r.Tracked i) (locale : Locale) (source : List Nat) (u : Nat) (us : List Nat) :
    (r.take locale source i u us).1.Tracked (i + 1) := by
  have hlater := tracked_mono h (Nat.le_succ i)
  unfold take
  split
  · exact hlater
  · rename_i e n hread
    have hatom := Lexeme.atomAt_read hread
    have hatoms : e.atoms = [e] := by
      refine atoms_of_isAtom ?_
      cases hatom <;> rfl
    refine ⟨(shapedInvariant {}).keeps_deliver (r := { r with log := r.log.note e }) h.shaped fun _ => hatom.isPiece,
      rooted_deliver (r := { r with log := r.log.note e }) h.rooted e,
      tracks_deliver (r := { r with log := r.log.note e }) fun hnone => ?_⟩
    rw [hatoms]
    exact (h.tracks hnone).note hatom
  · exact ⟨keeps_of_error fun hnone => error_fail _ _ _ (error_deliver hnone),
      rooted_deliver (rooted_fail h.rooted _ _) _, fun hnone => absurd (error_deliver hnone) (error_fail _ _ _)⟩
  · rename_i name openAt n hread
    exact tracked_push hlater (by simp) ((shapedInvariant locale).called hread) rfl
  · exact tracked_push hlater (by simp) ((shapedInvariant {}).array i _) rfl
  · exact tracked_mark hlater locale source i _ us

/-- All lexemes are taken with the log kept up. -/
theorem tracked_takeAll (h : r.Tracked i) (locale : Locale) (source : List Nat) (us : List Nat) :
    ∃ j, (r.takeAll locale source i us).Tracked j := by
  fun_induction takeAll locale source r i us with
  | case1 r i => exact ⟨i, h⟩
  | case2 r i u us r' n htake ih =>
    have hr := tracked_take h locale source u us
    rw [htake] at hr
    exact ih (tracked_mono hr (Nat.le_add_right _ _))

theorem tracked_closeAll (h : r.Tracked i) (locale : Locale) (source : List Nat) :
    (r.closeAll locale source r.below.length).Tracked i := by
  generalize hdepth : r.below.length = depth
  induction depth generalizing r with
  | zero => exact h
  | succ depth ih =>
    have hkind : r.top.kind ≠ .whole := by
      obtain ⟨g, rest, hbelow⟩ := List.exists_cons_of_length_eq_add_one hdepth
      have hrooted := h.rooted
      rw [frames, hbelow] at hrooted
      exact hrooted.1
    have hlength := (rooted_close h.rooted locale source (some (missingMark r.top.kind)) hkind).2
    exact ih (tracked_close h locale source _ hkind) (by omega)

end Reader

/-! ### Formulas -/

/-- What is told of a formula's references is what its expression refers to. The corners of a range are not among
the units that the walk comes to. -/
structure Parsed.AccountsFor (p : Parsed) (e : Expression) : Prop where
  /-- Each label of a cell that the formula depends on is there once. -/
  cellsOnce : (p.cells.map Mention.label).Nodup
  /-- The labels are those of the cells of the expression. -/
  cells : ∀ label, label ∈ p.cells.map Mention.label ↔
    ∃ m, .cell m ∈ e.walk Dependencies.entersUnit ∧ m.label = label
  /-- Each label of a range that the formula depends on is there once. -/
  rangesOnce : (p.ranges.map RangeMention.label).Nodup
  /-- The labels are those of the ranges of the expression. -/
  ranges : ∀ label, label ∈ p.ranges.map RangeMention.label ↔
    ∃ q r, .range q r ∈ e.walk Dependencies.entersUnit ∧ r.label = label
  /-- Each cell, range and name of the expression has one entry. -/
  references : p.references = e.references
  /-- The entries stand in the order of the formula. -/
  ordered : (p.references.map ReferenceEntry.position).Pairwise (· < ·)

theorem mem_atoms (h : u.isAtom = true) : u ∈ e.atoms ↔ u ∈ e.walk Dependencies.entersUnit := by
  rw [atoms, List.mem_filter, h, and_iff_left rfl]

/-- After the whole formula, when all frames are closed, the log is that of the expression. -/
theorem tracks_whole {i : Nat} (h : r.Tracked i) (hbelow : r.below = [])
    (herror : (r.closeStream locale source).2.error = none) (he : (r.closeStream locale source).1 = some e) :
    (r.closeStream locale source).2.log.Tracks e.atoms i := by
  have hrooted := h.rooted
  rw [Reader.frames, hbelow] at hrooted
  have hlog := Reader.tracks_closeStream h [] (by simp [Frame.units, hrooted.1]) herror
  simpa [Reader.around, hbelow, he] using hlog

/-- The references of a formula without faults are those of its expression, in the order of the formula. -/
theorem accountsFor_of_parse {text : String} (herror : (parse locale text).error = none)
    (he : (parse locale text).expression = some e) : (parse locale text).AccountsFor e := by
  obtain ⟨i, hread⟩ := Reader.tracked_takeAll (Reader.tracked_start 0) locale (Text.units (body text))
    (Text.units (body text))
  have hlog := tracks_whole (Reader.tracked_closeAll hread locale (Text.units (body text)))
    (Reader.rooted_closeAll hread.rooted locale (Text.units (body text))).2 herror he
  obtain ⟨hcellsOnce, hcells⟩ := hlog.cells_labels
  obtain ⟨hrangesOnce, hranges⟩ := hlog.rangeList_labels
  obtain ⟨hreferences, hordered⟩ := hlog.inOrder_eq
  refine ⟨hcellsOnce, fun label => (hcells label).trans ?_, hrangesOnce, fun label => (hranges label).trans ?_,
    hreferences.trans (Expression.references_eq e).symm, hordered⟩
  · exact exists_congr fun m => and_congr_left fun _ => mem_atoms rfl
  · exact exists_congr fun p => exists_congr fun r => and_congr_left fun _ => mem_atoms rfl

/-- A corner that is also used alone, a name, and an imaginary unit that leaves no name behind. -/
theorem accountsFor_sum_of_corner : ∃ e, (parse {} "=SUM(A1:B2, A1) + rate*(2+i)").expression = some e ∧
    (parse {} "=SUM(A1:B2, A1) + rate*(2+i)").AccountsFor e := by
  obtain ⟨e, he⟩ := Option.isSome_iff_exists.1
    (by decide +kernel : (parse {} "=SUM(A1:B2, A1) + rate*(2+i)").expression.isSome = true)
  exact ⟨e, he, accountsFor_of_parse (by decide +kernel) he⟩

end Spreadsheet.Formula
