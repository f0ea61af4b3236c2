import Spreadsheet.Proofs.Number.Natural
import Spreadsheet.Simulation.Pack

/-!
Packed samples. Which lists of numbers are blocks one after another, and that packing keeps every sample.
-/

namespace Spreadsheet.Simulation

/-- Whether a number of a head stands for a natural number, which 32 bits hold. -/
def IsIndex (x : Float) (k : Nat) : Prop := k < 2 ^ 32 ∧ (x == Number.ofNat k) = true

/-- Whether numbers are a block: its column, its row, how many samples follow, and the samples. -/
def Block.Spells (numbers : List Float) (b : Block) : Prop :=
  ∃ column row count, numbers = column :: row :: count :: b.samples ∧ IsIndex column b.position.column ∧
    IsIndex row b.position.row ∧ IsIndex count b.samples.length

/-- Whether numbers are the given blocks, one after another. -/
inductive Spelled : List Float → List Block → Prop
  | nil : Spelled [] []
  | cons {numbers rest : List Float} {b : Block} {blocks : List Block} (first : b.Spells numbers)
      (others : Spelled rest blocks) : Spelled (numbers ++ rest) (b :: blocks)

/-- The samples in the last block of a cell. -/
def lastSamples (blocks : List Block) (p : Position) : Option (Array Float) :=
  (blocks.reverse.find? fun b => b.position = p).map fun b => b.samples.toArray

namespace Samples

/-- The blocks of a map, row by row. -/
def blocks (s : Samples) : List Block :=
  s.toList.map fun (p, xs) => ⟨p, xs.toList⟩

/-- Whether 32 bits hold the positions of a map and the numbers of its samples. -/
def Packable (s : Samples) : Prop :=
  ∀ (p : Position) (xs : Array Float), s[p]? = some xs → p.row < 2 ^ 32 ∧ p.column < 2 ^ 32 ∧ xs.size < 2 ^ 32

/-- Whether the first so many numbers of a packed map are whole blocks. -/
def Boundary (s : Samples) (j : Nat) : Prop :=
  ∃ k, j = ((s.blocks.take k).flatMap Block.pack).length

end Samples

namespace Block

variable {b b' : Block} {numbers data rest : List Float} {x : Float} {k : Nat}

theorem headerIndex?_eq_some_iff : headerIndex? x = some k ↔ IsIndex x k := by
  unfold headerIndex? IsIndex
  constructor
  · intro h
    split at h
    · rename_i hx
      simp only [Bool.and_eq_true, decide_eq_true_eq] at hx
      cases h
      exact Number.beq_clampNat hx.1.1 hx.1.2 hx.2
    · cases h
  · rintro ⟨hlt, hx⟩
    obtain ⟨⟨hint, hlow, hhigh⟩, hk⟩ := Number.isIntegral_of_beq hlt hx
    rw [if_pos (by simp [hint, hlow, hhigh]), hk]

theorem Spells.take_eq (h : b.Spells numbers) (rest : List Float) : take (numbers ++ rest) = .ok (b, rest) := by
  obtain ⟨column, row, count, rfl, hcolumn, hrow, hcount⟩ := h
  rw [← headerIndex?_eq_some_iff] at hcolumn hrow hcount
  simp [take, hcolumn, hrow, hcount]

theorem spells_of_take (h : take data = .ok (b, rest)) :
    ∃ numbers, b.Spells numbers ∧ data = numbers ++ rest := by
  unfold take at h
  split at h
  · rename_i c r n body
    split at h
    · rename_i column row hcolumn hrow
      split at h
      · rename_i count hcount
        split at h
        · cases h
        · cases h
          have hlength : (body.take count).length = count := by
            rw [List.length_take]
            omega
          refine ⟨c :: r :: n :: body.take count, ⟨c, r, n, rfl, ?_, ?_, ?_⟩, ?_⟩
          · exact headerIndex?_eq_some_iff.1 hcolumn
          · exact headerIndex?_eq_some_iff.1 hrow
          · rw [hlength]
            exact headerIndex?_eq_some_iff.1 hcount
          · simp
      · cases h
    · cases h
  · cases h

theorem Spells.length_eq (h : b.Spells numbers) : numbers.length = b.pack.length := by
  obtain ⟨column, row, count, rfl, -, -, -⟩ := h
  simp [pack]

theorem Spells.ne_nil (h : b.Spells numbers) : numbers ≠ [] := by
  obtain ⟨column, row, count, rfl, -, -, -⟩ := h
  simp

end Block

/-! ### Lists of blocks -/

variable {data front back : List Float} {blocks blocks' : List Block} {p : Position}

theorem takeAll_of_take {b : Block} (h : Block.take front = .ok (b, back)) :
    Block.takeAll front = (Block.takeAll back).map (b :: ·) := by
  have hne : ¬front.isEmpty = true := fun hempty => by
    have := Block.length_of_take h
    simp_all
  rw [Block.takeAll, if_neg hne]
  split
  · rename_i hfailed
    cases h.symm.trans hfailed
  · rename_i htake
    cases h.symm.trans htake
    rfl

/-- Reading gives the blocks that the numbers are, if they are blocks. -/
theorem takeAll_eq_ok_iff : Block.takeAll data = .ok blocks ↔ Spelled data blocks := by
  constructor
  · intro h
    induction data using Block.takeAll.induct generalizing blocks with
    | case1 data hempty =>
      rw [Block.takeAll, if_pos hempty] at h
      cases h
      rw [List.isEmpty_iff.1 hempty]
      exact .nil
    | case2 data hempty e hfailed =>
      rw [Block.takeAll, if_neg hempty] at h
      split at h
      · cases h
      · rename_i htake
        cases hfailed.symm.trans htake
    | case3 data hempty b rest htake ih =>
      rw [takeAll_of_take htake] at h
      cases hothers : Block.takeAll rest with
      | error e =>
        rw [hothers] at h
        cases h
      | ok others =>
        rw [hothers] at h
        cases h
        obtain ⟨numbers, hfirst, rfl⟩ := Block.spells_of_take htake
        exact .cons hfirst (ih hothers)
  · intro h
    induction h with
    | nil => simp [Block.takeAll]
    | cons first others ih =>
      rw [takeAll_of_take (first.take_eq _), ih]
      rfl

theorem Spelled.length_eq (h : Spelled data blocks) : data.length = (blocks.flatMap Block.pack).length := by
  induction h with
  | nil => rfl
  | cons first others ih => simp only [List.flatMap_cons, List.length_append, ih, first.length_eq]

/-- Where numbers that are blocks are cut into numbers that are blocks, the blocks are cut. -/
theorem Spelled.of_append (hfront : Spelled front blocks) (h : Spelled (front ++ back) blocks') :
    ∃ others, blocks' = blocks ++ others := by
  induction hfront generalizing blocks' with
  | nil => exact ⟨blocks', rfl⟩
  | @cons numbers rest b blocks first others ih =>
    generalize hdata : numbers ++ rest ++ back = data at h
    cases h with
    | nil => exact absurd (List.append_eq_nil_iff.1 (List.append_eq_nil_iff.1 hdata).1).1 first.ne_nil
    | @cons numbers' rest' b' blocks' first' others' =>
      have htake := first.take_eq (rest ++ back)
      rw [← List.append_assoc, hdata, first'.take_eq] at htake
      cases htake
      obtain ⟨last, rfl⟩ := ih others'
      exact ⟨last, rfl⟩

/-! ### Maps of samples -/

theorem lastSamples_cons (b : Block) (blocks : List Block) (p : Position) : lastSamples (b :: blocks) p =
    (lastSamples blocks p).or (if b.position = p then some b.samples.toArray else none) := by
  unfold lastSamples
  rw [List.reverse_cons, List.find?_append, Option.map_or]
  by_cases hb : b.position = p <;> simp [hb]

theorem exists_of_lastSamples {xs : Array Float} (h : lastSamples blocks p = some xs) :
    ∃ b ∈ blocks, b.position = p ∧ b.samples.toArray = xs := by
  obtain ⟨b, hfind, hxs⟩ := Option.map_eq_some_iff.1 h
  exact ⟨b, List.mem_reverse.1 (List.mem_of_find?_eq_some hfind), by simpa using List.find?_some hfind, hxs⟩

/-- If each cell has one block, its samples are the last ones. -/
theorem lastSamples_of_mem {b : Block} (hdistinct : blocks.Pairwise fun b b' => b.position ≠ b'.position)
    (hb : b ∈ blocks) : lastSamples blocks b.position = some b.samples.toArray := by
  have hfound : (lastSamples blocks b.position).isSome := by
    simp only [lastSamples, Option.isSome_map, List.find?_isSome, List.mem_reverse, decide_eq_true_eq]
    exact ⟨b, hb, rfl⟩
  obtain ⟨xs, hxs⟩ := Option.isSome_iff_exists.1 hfound
  obtain ⟨b', hb', hposition, rfl⟩ := exists_of_lastSamples hxs
  rw [hxs, List.inj_on_of_nodup_map (f := Block.position) (List.pairwise_map.2 hdistinct) hb' hb hposition]

theorem getElem?_foldl_insert (s : Samples) (p : Position) :
    (blocks.foldl (fun s b => s.insert b.position b.samples.toArray) s)[p]? =
      (lastSamples blocks p).or s[p]? := by
  induction blocks generalizing s with
  | nil => rfl
  | cons b blocks ih =>
    rw [List.foldl_cons, ih, lastSamples_cons, Option.or_assoc, Std.TreeMap.getElem?_insert]
    simp only [Std.LawfulEqCmp.compare_eq_iff_eq]
    by_cases hb : b.position = p <;> simp [hb]

/-- What unpacking gives for numbers that are blocks. -/
theorem unpack_of_spelled (h : Spelled data blocks) :
    ∃ m, Samples.unpack data = .ok m ∧ ∀ p : Position, m[p]? = lastSamples blocks p := by
  refine ⟨_, by rw [Samples.unpack, takeAll_eq_ok_iff.2 h]; rfl, fun p => ?_⟩
  rw [getElem?_foldl_insert]
  simp

theorem spelled_of_unpack {m : Samples} (h : Samples.unpack data = .ok m) : ∃ blocks, Spelled data blocks := by
  rw [Samples.unpack] at h
  cases hblocks : Block.takeAll data with
  | error e =>
    rw [hblocks] at h
    cases h
  | ok blocks => exact ⟨blocks, takeAll_eq_ok_iff.1 hblocks⟩

namespace Samples

variable {s : Samples}

theorem pack_eq (s : Samples) : s.pack = s.blocks.flatMap Block.pack := by
  rw [pack, blocks, List.flatMap_map]

theorem spells_pack {b : Block} (hrow : b.position.row < 2 ^ 32) (hcolumn : b.position.column < 2 ^ 32)
    (hcount : b.samples.length < 2 ^ 32) : b.Spells b.pack :=
  ⟨_, _, _, rfl, ⟨hcolumn, Number.beq_ofNat hcolumn⟩, ⟨hrow, Number.beq_ofNat hrow⟩,
    hcount, Number.beq_ofNat hcount⟩

theorem spelled_flatMap {blocks : List Block} (h : ∀ b ∈ blocks, b.Spells b.pack) :
    Spelled (blocks.flatMap Block.pack) blocks := by
  induction blocks with
  | nil => exact .nil
  | cons b blocks ih => exact .cons (h b (by simp)) (ih fun c hc => h c (by simp [hc]))

/-- A packed map is its blocks. -/
theorem Packable.spelled (h : s.Packable) : Spelled s.pack s.blocks := by
  rw [pack_eq]
  refine spelled_flatMap fun b hb => ?_
  obtain ⟨⟨p, xs⟩, hmem, rfl⟩ := List.mem_map.1 hb
  obtain ⟨hrow, hcolumn, hsize⟩ := h p xs (Std.TreeMap.mem_toList_iff_getElem?_eq_some.1 hmem)
  exact spells_pack hrow hcolumn (by simpa using hsize)

/-- Each cell of a map has one block. -/
theorem lastSamples_blocks (s : Samples) (p : Position) : lastSamples s.blocks p = s[p]? := by
  have hdistinct : s.blocks.Pairwise fun b b' => b.position ≠ b'.position := by
    refine List.pairwise_map.2 (Std.TreeMap.distinct_keys_toList.imp fun hne heq => hne ?_)
    exact Std.LawfulEqCmp.compare_eq_iff_eq.2 heq
  refine Option.ext fun xs => ⟨fun h => ?_, fun h => ?_⟩
  · obtain ⟨b, hb, rfl, rfl⟩ := exists_of_lastSamples h
    obtain ⟨⟨q, ys⟩, hmem, rfl⟩ := List.mem_map.1 hb
    exact Std.TreeMap.mem_toList_iff_getElem?_eq_some.1 hmem
  · have hb : ⟨p, xs.toList⟩ ∈ s.blocks :=
      List.mem_map.2 ⟨(p, xs), Std.TreeMap.mem_toList_iff_getElem?_eq_some.2 h, rfl⟩
    exact lastSamples_of_mem hdistinct hb

theorem boundary_of_unpack {m : Samples} (hs : s.Packable) {j : Nat} (hj : j ≤ s.pack.length)
    (h : unpack (s.pack.take j) = .ok m) : s.Boundary j := by
  obtain ⟨first, hfirst⟩ := spelled_of_unpack h
  have hwhole : Spelled (s.pack.take j ++ s.pack.drop j) s.blocks := by
    rw [List.take_append_drop]
    exact hs.spelled
  obtain ⟨others, hblocks⟩ := hfirst.of_append hwhole
  refine ⟨first.length, ?_⟩
  rw [hblocks, List.take_left, ← hfirst.length_eq, List.length_take]
  omega

end Samples

/-- Numbers are unpacked exactly if they are blocks one after another, and of several blocks of one cell the last
counts. Unpacking a packed map gives the map again; cut anywhere but between two blocks, it is refused. -/
theorem unpack_iff_spelled :
    (∀ data, (∃ m, Samples.unpack data = .ok m) ↔ ∃ blocks, Spelled data blocks) ∧
    (∀ data blocks, Spelled data blocks →
      ∃ m, Samples.unpack data = .ok m ∧ ∀ p : Position, m[p]? = lastSamples blocks p) ∧
    ∀ s : Samples, s.Packable →
      (∃ m, Samples.unpack s.pack = .ok m ∧ ∀ p : Position, m[p]? = s[p]?) ∧
      ∀ j ≤ s.pack.length, ¬s.Boundary j → ∃ e, Samples.unpack (s.pack.take j) = .error e := by
  refine ⟨fun data => ⟨fun ⟨m, h⟩ => spelled_of_unpack h, fun ⟨blocks, h⟩ => ?_⟩,
    fun data blocks => unpack_of_spelled, fun s hs => ⟨?_, fun j hj hcut => ?_⟩⟩
  · obtain ⟨m, hm, -⟩ := unpack_of_spelled h
    exact ⟨m, hm⟩
  · obtain ⟨m, hm, hread⟩ := unpack_of_spelled hs.spelled
    exact ⟨m, hm, fun p => (hread p).trans (s.lastSamples_blocks p)⟩
  · cases h : Samples.unpack (s.pack.take j) with
    | ok m => exact absurd (Samples.boundary_of_unpack hs hj h) hcut
    | error e => exact ⟨e, rfl⟩

/-- A block without samples counts after one with two of them; a packed cell without its last sample is refused. -/
theorem unpack_repeated_cell :
    (∃ m, Samples.unpack [1, 2, 2, 7.5, 0.5, 1, 2, 0] = .ok m ∧ m[(⟨2, 1⟩ : Position)]? = some #[]) ∧
    ∃ e, Samples.unpack ((Samples.pack ((∅ : Samples).insert ⟨2, 1⟩ #[7.5])).take 3) = .error e := by
  refine ⟨?_, ?_⟩
  · have hfirst : Block.Spells [1, 2, 2, 7.5, 0.5] ⟨⟨2, 1⟩, [7.5, 0.5]⟩ :=
      ⟨1, 2, 2, rfl, ⟨by decide, by decide⟩, ⟨by decide, by decide⟩, by decide, by decide⟩
    have hlast : Block.Spells [1, 2, 0] ⟨⟨2, 1⟩, []⟩ :=
      ⟨1, 2, 0, rfl, ⟨by decide, by decide⟩, ⟨by decide, by decide⟩, by decide, by decide⟩
    have hspelled : Spelled [1, 2, 2, 7.5, 0.5, 1, 2, 0] [⟨⟨2, 1⟩, [7.5, 0.5]⟩, ⟨⟨2, 1⟩, []⟩] :=
      .cons hfirst (.cons hlast .nil)
    obtain ⟨m, hm, hread⟩ := unpack_iff_spelled.2.1 _ _ hspelled
    exact ⟨m, hm, hread ⟨2, 1⟩⟩
  · have hblocks : Samples.blocks ((∅ : Samples).insert ⟨2, 1⟩ #[7.5]) = [⟨⟨2, 1⟩, [7.5]⟩] := rfl
    have hpackable : Samples.Packable ((∅ : Samples).insert ⟨2, 1⟩ #[7.5]) := by
      intro p xs h
      rw [Std.TreeMap.getElem?_insert] at h
      split at h
      · rename_i heq
        rw [Std.LawfulEqCmp.compare_eq_iff_eq] at heq
        cases heq
        cases h
        decide
      · simp at h
    have hcut : ¬Samples.Boundary ((∅ : Samples).insert ⟨2, 1⟩ #[7.5]) 3 := by
      rintro ⟨k, hk⟩
      rw [hblocks] at hk
      cases k <;> simp [Block.pack] at hk
    exact (unpack_iff_spelled.2.2 _ hpackable).2 3 (by decide) hcut

end Spreadsheet.Simulation
