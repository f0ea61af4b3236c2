import Spreadsheet.Dependencies
import Spreadsheet.Proofs.Expression.Units
import Spreadsheet.Proofs.Formula.WellFormed

/-!
Logs of references. While a formula is read its log has an entry for each reference among the units that have been
read so far, and counts the cells that still stand; making ranges and complex numbers of units keeps this up.
-/

namespace Spreadsheet

namespace Formula.ReferenceEntry

/-- The entry of a unit that refers to something. -/
def ofUnit? : Expression → Option ReferenceEntry
  | .cell m => some (.cell m)
  | .range _ r => some (.range r)
  | .identifier p word => some (.name word p)
  | _ => none

end Formula.ReferenceEntry

open Formula (ReferenceLog ReferenceEntry)

namespace Expression

variable {a b e : Expression} {us : List Expression}

/-! ### Atoms -/

/-- Whether the unit is a literal, a reference or a name. -/
def isAtom : Expression → Bool
  | .literal _ _ _ | .imaginary _ _ _ | .complex _ _ _ | .cell _ | .range _ _ | .identifier _ _ => true
  | _ => false

/-- The literals, references and names of an expression from left to right. The corners of a range are not among
them. -/
def atoms (e : Expression) : List Expression := (e.walk Dependencies.entersUnit).filter isAtom

/-- The references of an expression from left to right. -/
def references (e : Expression) : List ReferenceEntry :=
  (e.walk Dependencies.entersUnit).filterMap ReferenceEntry.ofUnit?

/-- Where an atom stands in the list of references. -/
def place : Expression → Nat
  | .range _ r => r.position
  | e => e.position

/-- The mention of a cell. -/
def cell? : Expression → Option Mention
  | .cell m => some m
  | _ => none

/-- Whether the unit is a range. -/
def isRange : Expression → Bool
  | .range _ _ => true
  | _ => false

theorem atoms_of_isAtom (h : e.isAtom = true) : e.atoms = [e] := by
  unfold atoms walk
  cases e <;> first | rfl | cases h

@[simp] theorem atoms_operator (p : Nat) (s : String) : (operator p s).atoms = [] := by
  unfold atoms walk; rfl

@[simp] theorem atoms_missing (p : Nat) : (missing p).atoms = [] := by
  unfold atoms walk; rfl

@[simp] theorem atoms_array (p : Nat) (columns : List (List Value)) : (array p columns).atoms = [] := by
  unfold atoms walk; rfl

@[simp] theorem atoms_unary (p : Nat) (s : String) (a : Expression) : (unary p s a).atoms = a.atoms := by
  rw [atoms, walk.eq_def]; rfl

@[simp] theorem atoms_binary (p : Nat) (s : String) (a b : Expression) :
    (binary p s a b).atoms = a.atoms ++ b.atoms := by
  rw [atoms, walk.eq_def]
  exact List.filter_append _ _

@[simp] theorem atoms_call (p : Nat) (name : String) (args : List Expression) :
    (call p name args).atoms = args.flatMap atoms := by
  rw [atoms, walk.eq_def]
  change (walkList Dependencies.entersUnit args).filter isAtom = _
  rw [walkList_eq, List.filter_flatMap]
  rfl

@[simp] theorem atoms_group (p : Nat) (items : List Expression) (explicit : Bool) :
    (group p items explicit).atoms = items.flatMap atoms := by
  rw [atoms, walk.eq_def]
  change (walkList Dependencies.entersUnit items).filter isAtom = _
  rw [walkList_eq, List.filter_flatMap]
  rfl

theorem isAtom_of_ofUnit? {x : ReferenceEntry} (h : ReferenceEntry.ofUnit? e = some x) :
    e.isAtom = true ∧ x.position = e.place ∧ x.isRange = e.isRange := by
  cases e with
  | cell m => cases h; exact ⟨rfl, rfl, rfl⟩
  | range p r => cases h; exact ⟨rfl, rfl, rfl⟩
  | identifier p name => cases h; exact ⟨rfl, rfl, rfl⟩
  | _ => cases h

theorem references_eq (e : Expression) : e.references = e.atoms.filterMap ReferenceEntry.ofUnit? := by
  rw [atoms, List.filterMap_filter]
  refine List.filterMap_congr fun u _ => ?_
  cases hu : ReferenceEntry.ofUnit? u with
  | none => simp
  | some x => simp [(isAtom_of_ofUnit? hu).1]

/-- A tree has the atoms of its stream. -/
theorem atoms_of_arranges (h : Formula.Arrange.Arranges e us) : e.atoms = us.flatMap atoms := by
  induction h with
  | operand e _ => simp
  | unary p s a us _ _ _ ih => simp [ih]
  | binary p s a b us vs _ _ iha ihb => simp [iha, ihb]

end Expression

namespace Formula

open Expression (atoms place cell? isRange isAtom atoms_of_isAtom)

variable {log log' : ReferenceLog} {ctx old rest as us : List Expression} {a b n u e : Expression} {stop : Nat}
  {locale : Locale}

/-- The labels of the cells among some atoms. -/
def cellLabels (as : List Expression) : List String := (as.filterMap cell?).map Mention.label

theorem cellLabels_append (as bs : List Expression) : cellLabels (as ++ bs) = cellLabels as ++ cellLabels bs := by
  simp [cellLabels]

/-- The log is that of the given atoms, which stand before `stop` one after the other. Of each cell it has seen as
many as it has taken back and as there are among the atoms. -/
structure ReferenceLog.Tracks (log : ReferenceLog) (as : List Expression) (stop : Nat) : Prop where
  entries : log.entries.Perm (as.filterMap ReferenceEntry.ofUnit?)
  ordered : (as.map place).Pairwise (· < ·)
  before : ∀ a ∈ as, a.place < stop
  counts : ∀ label, (log.seen.map Mention.label).count label =
    log.released.count label + (cellLabels as).count label
  ranges : ∀ p r, .range p r ∈ as → r ∈ log.ranges

namespace ReferenceLog

theorem Tracks.mono {stop' : Nat} (h : log.Tracks as stop) (hstop : stop ≤ stop') : log.Tracks as stop' :=
  { h with before := fun a ha => Nat.lt_of_lt_of_le (h.before a ha) hstop }

theorem tracks_nil (stop : Nat) : ({} : ReferenceLog).Tracks [] stop where
  entries := .nil
  ordered := .nil
  before _ ha := absurd ha List.not_mem_nil
  counts _ := rfl
  ranges _ _ hr := absurd hr List.not_mem_nil

/-- A further atom is noted. -/
theorem Tracks.note {i : Nat} (h : log.Tracks as i) (hu : Lexeme.AtomAt i u) :
    (log.note u).Tracks (as ++ [u]) (i + 1) := by
  have hplace : u.place = i := by
    cases hu with
    | cell m _ hm => exact hm
    | _ => rfl
  have hordered : ((as ++ [u]).map place).Pairwise (· < ·) := by
    rw [List.map_append, List.pairwise_append]
    refine ⟨h.ordered, List.pairwise_singleton _ _, ?_⟩
    simpa [hplace] using h.before
  have hbefore : ∀ a ∈ as ++ [u], a.place < i + 1 := by
    intro a ha
    rcases List.mem_append.1 ha with ha | ha
    · exact Nat.lt_succ_of_lt (h.before a ha)
    · rw [List.mem_singleton.1 ha, hplace]
      exact Nat.lt_succ_self i
  have hranges (hne : u.isRange = false) (p : Nat) (r : RangeMention) (hr : .range p r ∈ as ++ [u]) : r ∈ log.ranges := by
    rcases List.mem_append.1 hr with hr | hr
    · exact h.ranges p r hr
    · rw [← List.mem_singleton.1 hr] at hne
      cases hne
  -- an atom that refers to nothing changes nothing
  have hother (hentry : ReferenceEntry.ofUnit? u = none) (hcell : u.cell? = none) (hrange : u.isRange = false) :
      log.Tracks (as ++ [u]) (i + 1) :=
    ⟨by simpa [hentry] using h.entries, hordered, hbefore, by simpa [cellLabels, hcell] using h.counts, hranges hrange⟩
  cases hu with
  | cell m _ hm =>
    refine ⟨?_, hordered, hbefore, fun label => ?_, hranges rfl⟩
    · rw [List.filterMap_append]
      exact h.entries.append_right _
    · have hcount := h.counts label
      simp only [ReferenceLog.note, List.map_cons, List.count_cons, cellLabels_append, List.count_append]
      simp only [cellLabels, List.filterMap_cons, cell?, List.filterMap_nil, List.map_cons, List.map_nil,
        List.count_cons, List.count_nil] at hcount ⊢
      omega
  | identifier name =>
    refine ⟨?_, hordered, hbefore, fun label => ?_, hranges rfl⟩
    · rw [List.filterMap_append]
      exact h.entries.append_right _
    · rw [cellLabels_append, List.count_append]
      exact h.counts label
  | _ => exact hother rfl rfl rfl

/-- An atom at the end that refers to nothing is left out. -/
theorem Tracks.dropLast (h : log.Tracks (as ++ [u]) stop) (hentry : ReferenceEntry.ofUnit? u = none)
    (hcell : u.cell? = none) : log.Tracks as stop where
  entries := by simpa [hentry] using h.entries
  ordered := by
    have hordered := h.ordered
    rw [List.map_append, List.pairwise_append] at hordered
    exact hordered.1
  before a ha := h.before a (List.mem_append_left _ ha)
  counts := by simpa [cellLabels, hcell] using h.counts
  ranges p r hr := h.ranges p r (List.mem_append_left _ hr)

theorem forget_nil (log : ReferenceLog) : log.forget [] = log := by
  have hall : log.entries.filter (fun x => x.isRange || !([] : List Nat).contains x.position) = log.entries :=
    List.filter_eq_self.2 fun x _ => by simp
  rw [forget, hall]

/-- The references at the places of some atoms that follow each other, none of which is a range, are forgotten. -/
theorem Tracks.entries_forget (h : log.Tracks (ctx ++ (old ++ rest)) stop) {positions : List Nat}
    (hold : ∀ a ∈ old, a.isRange = false ∧ (ReferenceEntry.ofUnit? a = none ∨ a.place ∈ positions))
    (hpositions : ∀ p ∈ positions, ∃ a ∈ old, a.place = p) :
    (log.forget positions).entries.Perm ((ctx ++ rest).filterMap ReferenceEntry.ofUnit?) := by
  have hordered := h.ordered
  simp only [List.map_append, List.pairwise_append, List.mem_append, List.forall_mem_map] at hordered
  obtain ⟨-, ⟨-, -, hrest⟩, hctx⟩ := hordered
  -- outside `old` there is nothing at the places
  have hkept (a : Expression) (ha : a ∈ ctx ∨ a ∈ rest) : a.place ∉ positions := by
    intro hmem
    obtain ⟨b, hb, hplace⟩ := hpositions _ hmem
    rcases ha with ha | ha
    · have := hctx a ha b.place (.inl (List.mem_map_of_mem hb))
      omega
    · have := hrest b hb a ha
      omega
  have hfilter : (log.forget positions).entries.Perm (((ctx ++ (old ++ rest)).filterMap ReferenceEntry.ofUnit?).filter
      fun x => x.isRange || !positions.contains x.position) := h.entries.filter _
  refine hfilter.trans (List.Perm.of_eq ?_)
  have hstay (as : List Expression) (has : ∀ a ∈ as, a ∈ ctx ∨ a ∈ rest) :
      as.filterMap (fun u => (ReferenceEntry.ofUnit? u).filter fun x => x.isRange || !positions.contains x.position) =
        as.filterMap ReferenceEntry.ofUnit? := by
    refine List.filterMap_congr fun a ha => ?_
    cases hentry : ReferenceEntry.ofUnit? a with
    | none => rfl
    | some x =>
      have hplace := hkept a (has a ha)
      rw [← (Expression.isAtom_of_ofUnit? hentry).2.1] at hplace
      simp [Option.filter, hplace]
  have hgone : old.filterMap (fun u => (ReferenceEntry.ofUnit? u).filter fun x =>
      x.isRange || !positions.contains x.position) = [] := by
    refine List.filterMap_eq_nil_iff.2 fun a ha => ?_
    obtain ⟨hrange, hplace⟩ := hold a ha
    cases hentry : ReferenceEntry.ofUnit? a with
    | none => rfl
    | some x =>
      have hmem : a.place ∈ positions := hplace.resolve_left (by simp [hentry])
      obtain ⟨-, hposition, hisRange⟩ := Expression.isAtom_of_ofUnit? hentry
      simp [Option.filter, hposition, hisRange, hrange, hmem]
  rw [List.filter_filterMap, List.filterMap_append, List.filterMap_append, List.filterMap_append, hgone,
    hstay ctx fun a ha => .inl ha, hstay rest fun a ha => .inr ha, List.nil_append]

/-- Atoms that follow each other give way to one that stands among them, whose cells are taken back. -/
theorem Tracks.exchange (h : log.Tracks (ctx ++ (old ++ rest)) stop) (hcell : n.cell? = none)
    (hlow : ∃ a ∈ old, a.place ≤ n.place) (hhigh : ∃ b ∈ old, n.place ≤ b.place)
    (hentries : log'.entries.Perm ((ctx ++ n :: rest).filterMap ReferenceEntry.ofUnit?))
    (hseen : log'.seen = log.seen) (hreleased : log'.released = cellLabels old ++ log.released)
    (hkept : log.ranges ⊆ log'.ranges) (hrange : ∀ p r, n = .range p r → r ∈ log'.ranges) :
    log'.Tracks (ctx ++ n :: rest) stop := by
  obtain ⟨a, ha, hlow⟩ := hlow
  obtain ⟨b, hb, hhigh⟩ := hhigh
  have hordered := h.ordered
  simp only [List.map_append, List.pairwise_append, List.mem_append, List.forall_mem_map] at hordered
  obtain ⟨hctxs, ⟨-, hrests, hrest⟩, hctx⟩ := hordered
  refine ⟨hentries, ?_, ?_, fun label => ?_, ?_⟩
  · rw [List.map_append, List.map_cons, List.pairwise_append, List.pairwise_cons]
    refine ⟨hctxs, ⟨List.forall_mem_map.2 fun c hc => Nat.lt_of_le_of_lt hhigh (hrest b hb c hc), hrests⟩, ?_⟩
    refine List.forall_mem_map.2 fun c hc => List.forall_mem_cons.2 ⟨?_, fun p hp => ?_⟩
    · exact Nat.lt_of_lt_of_le (hctx c hc a.place (.inl (List.mem_map_of_mem ha))) hlow
    · exact hctx c hc p (.inr hp)
  · have hbefore := h.before
    simp only [List.mem_append, List.mem_cons] at hbefore ⊢
    rintro c (hc | rfl | hc)
    · exact hbefore c (.inl hc)
    · exact Nat.lt_of_le_of_lt hhigh (hbefore b (.inr (.inl hb)))
    · exact hbefore c (.inr (.inr hc))
  · have hcount := h.counts label
    have hn : cellLabels (n :: rest) = cellLabels rest := by simp [cellLabels, hcell]
    rw [hseen, hreleased, cellLabels_append, hn]
    simp only [cellLabels_append, List.count_append] at hcount ⊢
    omega
  · intro p r hr
    simp only [List.mem_append, List.mem_cons] at hr
    rcases hr with hr | hr | hr
    · exact hkept (h.ranges p r (List.mem_append_left _ hr))
    · exact hrange p r hr.symm
    · exact hkept (h.ranges p r (List.mem_append_right _ (List.mem_append_right _ hr)))

/-- A range takes the place of the atoms that it is made of, which have been forgotten. -/
theorem Tracks.fold {p : Nat} {r : RangeMention} (h : log.Tracks (ctx ++ (old ++ rest)) stop)
    (hlow : ∃ a ∈ old, a.place ≤ r.position) (hhigh : ∃ b ∈ old, r.position ≤ b.place)
    (hentries : log'.entries.Perm ((ctx ++ rest).filterMap ReferenceEntry.ofUnit?))
    (hseen : log'.seen = log.seen) (hreleased : log'.released = cellLabels old ++ log.released)
    (hkept : log'.ranges = log.ranges) : (log'.fold r).Tracks (ctx ++ .range p r :: rest) stop := by
  refine h.exchange rfl hlow hhigh ?_ hseen hreleased (fun s hs => ?_) ?_
  · rw [List.filterMap_append] at hentries ⊢
    refine (hentries.append_right [.range r]).trans ?_
    rw [List.append_assoc]
    exact (List.perm_append_comm).append_left _
  · exact List.mem_cons_of_mem r (hkept ▸ hs)
  · rintro q s ⟨⟩
    exact List.mem_cons_self

/-- A complex number takes the place of the atoms that it is made of. -/
theorem Tracks.complex {p : Nat} {z : Complex} {spelling : Option String} {positions : List Nat}
    (h : log.Tracks (ctx ++ (old ++ rest)) stop) (hlow : ∃ a ∈ old, a.place ≤ p) (hhigh : ∃ b ∈ old, p ≤ b.place)
    (hcells : cellLabels old = [])
    (hold : ∀ a ∈ old, a.isRange = false ∧ (ReferenceEntry.ofUnit? a = none ∨ a.place ∈ positions))
    (hpositions : ∀ q ∈ positions, ∃ a ∈ old, a.place = q) :
    (log.forget positions).Tracks (ctx ++ .complex p z spelling :: rest) stop := by
  refine h.exchange rfl hlow hhigh ?_ rfl (by rw [hcells]; rfl) (List.Subset.refl _) fun q r hr => by cases hr
  have hentries := h.entries_forget hold hpositions
  rw [List.filterMap_append] at hentries ⊢
  exact hentries

end ReferenceLog

/-! ### Making ranges -/

/-- A number or a name. -/
structure IsBare (u : Expression) : Prop where
  isAtom : u.isAtom = true
  cell : u.cell? = none
  range : u.isRange = false

theorem IsBare.place_eq (h : IsBare u) : u.place = u.position := by
  have hrange := h.range
  cases u <;> first | rfl | cases hrange

theorem Mention.position_of_axisWord {cs : List Char} {m : Mention} {p : Nat}
    (h : Mention.ofAxisWord? cs p = some m) : m.position = p := by
  simp only [Mention.ofAxisWord?] at h
  split at h
  · cases h
  · split at h
    · obtain rfl := Option.some.inj h
      rfl
    · obtain rfl := Option.some.inj h
      rfl
    · cases h

theorem Mention.position_of_rowNumber {x : Float} {spelling : Option String} {m : Mention} {p : Nat}
    (h : Mention.ofRowNumber? x spelling p = some m) : m.position = p := by
  simp only [Mention.ofRowNumber?] at h
  split at h
  · obtain rfl := Option.some.inj h
    rfl
  · cases h

/-- What is reread as a row or a column is a number or a name at the same place. -/
theorem isBare_of_ofUnit? {m : Mention} (h : Mention.ofUnit? u = some m) : IsBare u ∧ m.position = u.position := by
  unfold Mention.ofUnit? at h
  split at h
  · exact ⟨⟨rfl, rfl, rfl⟩, Mention.position_of_rowNumber h⟩
  · exact ⟨⟨rfl, rfl, rfl⟩, Mention.position_of_axisWord h⟩
  · cases h

/-- A corner before a colon stands where its unit does, or behind the minus in front. -/
theorem isBare_of_leftCorner {minus : Option Expression} {m : Mention}
    (h : Fold.leftCorner? u = some (minus, m)) :
    IsBare u ∧ u.position ≤ m.position ∧ m.position ≤ u.position + 1 ∧ minus.toList.flatMap atoms = [] := by
  unfold Fold.leftCorner? at h
  split at h
  · rename_i n hm
    obtain ⟨rfl, rfl⟩ := h
    obtain ⟨hbare, hposition⟩ := isBare_of_ofUnit? hm
    exact ⟨hbare, by omega, by omega, rfl⟩
  · obtain ⟨⟨o, n⟩, hnegated, heq⟩ := Option.map_eq_some_iff.1 h
    obtain ⟨rfl, rfl⟩ := heq
    unfold Fold.negatedRow? at hnegated
    split at hnegated
    · rename_i p x spelling _
      split at hnegated
      · obtain ⟨k, hk, heq⟩ := Option.map_eq_some_iff.1 hnegated
        obtain ⟨rfl, rfl⟩ := Prod.mk.inj heq
        have hposition : k.position = p + 1 := Mention.position_of_rowNumber hk
        have hp : (Expression.literal p (.number x) spelling).position = p := rfl
        exact ⟨⟨rfl, rfl, rfl⟩, by omega, by omega, by simp⟩
      · cases hnegated
    · cases hnegated

/-- The range of two units around a colon, and what becomes of the log. -/
theorem range?_cases {minus : Option Expression} {r : RangeMention} (h : Fold.range? log a b = some (minus, r, log')) :
    minus.toList.flatMap atoms = [] ∧
      ((∃ m n, a = .cell m ∧ b = .cell n ∧ r = .between m n ∧
        log' = (log.release [m, n]).forget [m.position, n.position]) ∨
      IsBare a ∧ IsBare b ∧ a.position ≤ r.position ∧ r.position ≤ a.position + 1 ∧
        log' = log.forget [a.position, b.position]) := by
  unfold Fold.range? at h
  split at h
  · rename_i m n
    obtain ⟨rfl, rfl, rfl⟩ := h
    exact ⟨rfl, .inl ⟨m, n, rfl, rfl, rfl, rfl⟩⟩
  · split at h
    · rename_i hleft hright
      split at h
      · obtain ⟨rfl, rfl, rfl⟩ := h
        obtain ⟨ha, hlow, hhigh, hminus⟩ := isBare_of_leftCorner hleft
        exact ⟨hminus, .inr ⟨ha, (isBare_of_ofUnit? hright).1, hlow, hhigh, rfl⟩⟩
      · cases h
    · cases h

/-- The two units around a colon become a range. -/
theorem tracks_range {minus : Option Expression} {r : RangeMention} {p : Nat}
    (hrange : Fold.range? log a b = some (minus, r, log'))
    (h : log.Tracks (ctx ++ (a.atoms ++ (b.atoms ++ rest))) stop) :
    (log'.fold r).Tracks (ctx ++ .range p r :: rest) stop := by
  obtain ⟨-, ⟨m, n, rfl, rfl, rfl, rfl⟩ | ⟨ha, hb, hlow, hhigh, rfl⟩⟩ := range?_cases hrange
  · rw [atoms_of_isAtom rfl, atoms_of_isAtom rfl, ← List.append_assoc [_]] at h
    refine h.fold ⟨_, List.mem_cons_self, Nat.le_refl _⟩ ?_ (h.entries_forget ?_ ?_) rfl rfl rfl
    · have hordered := h.ordered
      simp only [List.map_append, List.pairwise_append] at hordered
      have hlt : m.position < n.position := by simpa [place, Expression.position] using hordered.2.1.1
      exact ⟨_, List.mem_cons_of_mem _ List.mem_cons_self, Nat.le_of_lt hlt⟩
    · simp [isRange, place, Expression.position]
    · simp [place, Expression.position]
  · rw [atoms_of_isAtom ha.isAtom, atoms_of_isAtom hb.isAtom, ← List.append_assoc [_]] at h
    have hlabels : cellLabels ([a] ++ [b]) = [] := by simp [cellLabels, ha.cell, hb.cell]
    refine h.fold ⟨a, List.mem_cons_self, ha.place_eq ▸ hlow⟩ ?_ (h.entries_forget ?_ ?_) rfl (by rw [hlabels]; rfl) rfl
    · have hordered := h.ordered
      simp only [List.map_append, List.pairwise_append] at hordered
      have hlt : a.position < b.position := by simpa [ha.place_eq, hb.place_eq] using hordered.2.1.1
      refine ⟨b, List.mem_cons_of_mem _ List.mem_cons_self, ?_⟩
      rw [hb.place_eq]
      omega
    · simp [ha.range, hb.range, ha.place_eq, hb.place_eq]
    · simp [ha.place_eq, hb.place_eq]

theorem tracks_ranges (ctx : List Expression) (h : log.Tracks (ctx ++ us.flatMap atoms) stop) :
    (Fold.ranges log us).2.Tracks (ctx ++ (Fold.ranges log us).1.flatMap atoms) stop := by
  fun_induction Fold.ranges log us generalizing ctx with
  | case1 log a p b rest minus r log' hrange units log'' hrest ih =>
    have hfold := tracks_range (p := r.position) hrange (by simpa using h)
    have htail := ih (ctx ++ [.range r.position r]) (by simpa using hfold)
    rw [hrest] at htail
    simpa [(range?_cases hrange).1, atoms_of_isAtom (e := .range r.position r) rfl] using htail
  | case2 log a p b rest _ units log' hrest ih =>
    have htail := ih (ctx ++ a.atoms) (by simpa using h)
    rw [hrest] at htail
    simpa using htail
  | case3 log a rest _ units log' hrest ih =>
    have htail := ih (ctx ++ a.atoms) (by simpa using h)
    rw [hrest] at htail
    simpa using htail
  | case4 => exact h

/-! ### Making complex numbers -/

/-- An imaginary part is a number, or a name whose entry is then forgotten. -/
theorem imaginaryPart?_cases {y : Float} {stop : Nat} {named : Bool}
    (h : Fold.imaginaryPart? locale u = some (y, stop, named)) :
    IsBare u ∧ (ReferenceEntry.ofUnit? u = none ∨ named = true) := by
  unfold Fold.imaginaryPart? at h
  split at h
  · exact ⟨⟨rfl, rfl, rfl⟩, .inl rfl⟩
  · split at h
    · obtain ⟨-, -, rfl⟩ := h
      exact ⟨⟨rfl, rfl, rfl⟩, .inr rfl⟩
    · cases h
  · cases h

theorem tracks_lone (locale : Locale) (h : log.Tracks (ctx ++ (u.atoms ++ rest)) stop) :
    (Fold.lone locale log u).2.Tracks (ctx ++ ((Fold.lone locale log u).1.atoms ++ rest)) stop := by
  unfold Fold.lone
  split
  · rename_i p y spelling
    rw [atoms_of_isAtom rfl] at h ⊢
    rw [← ReferenceLog.forget_nil log]
    refine h.complex ⟨_, List.mem_cons_self, Nat.le_refl _⟩ ⟨_, List.mem_cons_self, Nat.le_refl _⟩ rfl ?_ ?_
    · simp [isRange, ReferenceEntry.ofUnit?]
    · simp
  · split
    · rw [atoms_of_isAtom rfl] at h ⊢
      refine h.complex ⟨_, List.mem_cons_self, Nat.le_refl _⟩ ⟨_, List.mem_cons_self, Nat.le_refl _⟩ rfl ?_ ?_
      · simp [isRange, place, Expression.position]
      · simp [place, Expression.position]
    · exact h
  · exact h

theorem tracks_complexes (locale : Locale) (source : List Nat) (ctx : List Expression)
    (h : log.Tracks (ctx ++ us.flatMap atoms) stop) :
    (Fold.complexes locale source log us).2.Tracks
      (ctx ++ (Fold.complexes locale source log us).1.flatMap atoms) stop := by
  fun_induction Fold.complexes locale source log us generalizing ctx with
  | case1 log p x spelling q s c rest y last named hpart z log' units log'' hrest =>
    rename_i ih
    obtain ⟨hc, hname⟩ : IsBare c ∧ (ReferenceEntry.ofUnit? c = none ∨ named = true) := by
      split at hpart
      · exact imaginaryPart?_cases hpart
      · cases hpart
    have hplaces : log.Tracks (ctx ++ ([.literal p (.number x) spelling, c] ++ rest.flatMap atoms)) stop := by
      simpa [atoms_of_isAtom (e := .literal p (.number x) spelling) rfl, atoms_of_isAtom hc.isAtom] using h
    have hlt : p ≤ c.place := by
      have hordered := hplaces.ordered
      simp only [List.map_append, List.pairwise_append] at hordered
      have hpair : (Expression.literal p (.number x) spelling).place < c.place := by simpa using hordered.2.1.1
      exact Nat.le_of_lt hpair
    have hfolded : log'.Tracks (ctx ++ .complex p z (some (Fold.slice source p last)) :: rest.flatMap atoms) stop := by
      have hlog : log' = log.forget (if named then [c.position] else []) := by
        cases named
        · exact (ReferenceLog.forget_nil log).symm
        · rfl
      rw [hlog]
      refine hplaces.complex ⟨_, List.mem_cons_self, Nat.le_refl p⟩ ⟨c, by simp, hlt⟩
        ?_ ?_ ?_
      · rw [cellLabels, List.filterMap_cons_none rfl, List.filterMap_cons_none hc.cell]
        rfl
      · have hkept : ReferenceEntry.ofUnit? c = none ∨ c.place ∈ if named then [c.position] else [] := by
          refine hname.imp_right fun hnamed => ?_
          rw [if_pos hnamed, hc.place_eq]
          exact List.mem_singleton_self _
        exact List.forall_mem_cons.2 ⟨⟨rfl, .inl rfl⟩, List.forall_mem_singleton.2 ⟨hc.range, hkept⟩⟩
      · intro q hq
        cases named with
        | false => cases hq
        | true =>
          obtain rfl := List.mem_singleton.1 hq
          exact ⟨c, by simp, hc.place_eq⟩
    have htail := ih (ctx ++ [.complex p z (some (Fold.slice source p last))]) (by simpa using hfolded)
    rw [hrest] at htail
    simpa [atoms_of_isAtom (e := .complex p z (some (Fold.slice source p last))) rfl] using htail
  | case2 log p x spelling q s c rest _ units log' hrest ih =>
    have htail := ih (ctx ++ [.literal p (.number x) spelling]) (by
      simpa [atoms_of_isAtom (e := .literal p (.number x) spelling) rfl] using h)
    rw [hrest] at htail
    simpa [atoms_of_isAtom (e := .literal p (.number x) spelling) rfl] using htail
  | case3 log u rest _ v log' hlone units log'' hrest ih =>
    have hfirst := tracks_lone locale (u := u) (by simpa using h)
    rw [hlone] at hfirst
    have htail := ih (ctx ++ v.atoms) (by simpa using hfirst)
    rw [hrest] at htail
    simpa using htail
  | case4 => exact h

end Formula

end Spreadsheet
