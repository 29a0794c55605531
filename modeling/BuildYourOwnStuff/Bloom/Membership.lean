import BuildYourOwnStuff.Bloom.Filter

/-!
# What a Bloom filter knows

The marked positions of a filter are those that the probes of the added items
reach, and an item is reported exactly when its probes are among them. An added
item is therefore always found, and what is found stays found.
-/

namespace BuildYourOwnStuff.Bloom

open Foundations GoStd

section

variable (sum32 : Bytes → UInt32)

/-- The index that a seed gives for an item, in a filter of some size. -/
def probe (size : UInt64) (item : Bytes) (i : UInt64) : ℕ :=
  (hashWithSeed sum32 item i % size.toUInt32).toNat

namespace BloomFilter

/-- The indices of an item in the order of the seeds. -/
def probes (bf : BloomFilter) (item : Bytes) : List ℕ := bf.seeds.map (probe sum32 bf.size item)

end BloomFilter

end

namespace BloomFilter

/-- There is a bit for every index below the size, and the size fits in 32 bits. -/
structure WellFormed (bf : BloomFilter) : Prop where
  size_pos : 0 < bf.size.toNat
  size_lt : bf.size.toNat < 2 ^ 32
  length_bits : bf.bits.length = bf.size.toNat

/-- The filter after marking some bits. -/
def marked (bf : BloomFilter) (js : List ℕ) : BloomFilter := { bf with bits := mark bf.bits js }

@[simp] theorem marked_bits (bf : BloomFilter) (js : List ℕ) :
    (bf.marked js).bits = mark bf.bits js := rfl

theorem marked_append (bf : BloomFilter) (js ks : List ℕ) :
    bf.marked (js ++ ks) = (bf.marked js).marked ks := by
  rw [marked, mark_append]
  rfl

variable {sum32 : Bytes → UInt32} {bf : BloomFilter}

theorem wellFormed_newBloomFilter {size hashes : UInt64} (hpos : 0 < size.toNat)
    (hlt : size.toNat < 2 ^ 32) : (newBloomFilter size hashes).WellFormed :=
  ⟨hpos, hlt, List.length_replicate⟩

theorem WellFormed.marked (h : bf.WellFormed) (js : List ℕ) : (bf.marked js).WellFormed :=
  ⟨h.size_pos, h.size_lt, (length_mark bf.bits js).trans h.length_bits⟩

theorem WellFormed.toNat_size (h : bf.WellFormed) : bf.size.toUInt32.toNat = bf.size.toNat :=
  (UInt64.toNat_toUInt32 bf.size).trans (Nat.mod_eq_of_lt h.size_lt)

/-- Every index is the index of a bit. -/
theorem WellFormed.probe_lt (h : bf.WellFormed) (item : Bytes) (i : UInt64) :
    probe sum32 bf.size item i < bf.bits.length := by
  rw [probe, UInt32.toNat_mod, h.toNat_size, h.length_bits]
  exact Nat.mod_lt _ h.size_pos

theorem WellFormed.index_eq (h : bf.WellFormed) (item : Bytes) (i : UInt64) :
    bf.index sum32 item i = .ok (probe sum32 bf.size item i) := by
  have hpos := h.size_pos
  rw [index, if_neg, probe]
  intro hzero
  have hsize := h.toNat_size
  rw [hzero, UInt32.toNat_zero] at hsize
  omega

theorem WellFormed.addSeeds_eq (h : bf.WellFormed) (item : Bytes) (is : List UInt64) :
    bf.addSeeds sum32 item is = .ok (bf.marked (is.map (probe sum32 bf.size item))) := by
  induction is generalizing bf with
  | nil => rfl
  | cons i is ih =>
    refine bind_eq_ok.mpr ⟨_, h.index_eq item i, ?_⟩
    refine bind_eq_ok.mpr ⟨bf.marked [probe sum32 bf.size item i], if_pos (h.probe_lt item i), ?_⟩
    rw [ih (h.marked _), List.map_cons, ← List.singleton_append, marked_append]
    rfl

theorem WellFormed.add_eq (h : bf.WellFormed) (item : Bytes) :
    bf.add sum32 item = .ok (bf.marked (bf.probes sum32 item)) := h.addSeeds_eq item bf.seeds

/-- A sequence of additions marks the bits of all the items. -/
theorem WellFormed.addAll_eq (h : bf.WellFormed) (items : List Bytes) :
    bf.addAll sum32 items = .ok (bf.marked (items.flatMap (bf.probes sum32))) := by
  induction items generalizing bf with
  | nil => rfl
  | cons item items ih =>
    refine bind_eq_ok.mpr ⟨_, h.add_eq item, ?_⟩
    rw [List.flatMap_cons, marked_append]
    exact ih (h.marked _)

theorem WellFormed.checkSeeds_eq (h : bf.WellFormed) (item : Bytes) (is : List UInt64) :
    bf.checkSeeds sum32 item is =
      .ok (is.all fun i => bf.bits[probe sum32 bf.size item i]? == some true) := by
  induction is with
  | nil => rfl
  | cons i is ih =>
    have hlt : probe sum32 bf.size item i < bf.bits.length := h.probe_lt item i
    have hbit : bf.getBit (probe sum32 bf.size item i) =
        .ok bf.bits[probe sum32 bf.size item i] := by
      rw [getBit, List.getElem?_eq_getElem hlt]
    refine bind_eq_ok.mpr ⟨_, h.index_eq item i, bind_eq_ok.mpr ⟨_, hbit, ?_⟩⟩
    rw [List.all_cons, List.getElem?_eq_getElem hlt]
    cases bf.bits[probe sum32 bf.size item i] with
    | false => rfl
    | true => exact ih

/-- An item is reported exactly when all its indices are marked. -/
theorem WellFormed.check_eq_true (h : bf.WellFormed) (item : Bytes) :
    bf.check sum32 item = .ok true ↔ {j | j ∈ bf.probes sum32 item} ⊆ marks bf.bits := by
  rw [check, h.checkSeeds_eq]
  simp [probes, Set.subset_def, mem_marks]

theorem WellFormed.check_returns (h : bf.WellFormed) (item : Bytes) :
    ∃ b, bf.check sum32 item = .ok b := ⟨_, h.checkSeeds_eq item bf.seeds⟩

/-- What the bits of a filter say about the items added to it. -/
structure Exact (sum32 : Bytes → UInt32) (size hashes : UInt64) (added : List Bytes)
    (bf : BloomFilter) : Prop where
  bits : ∀ j, bf.bits[j]? = some true ↔
    ∃ item ∈ added, ∃ i < hashes, probe sum32 size item i = j
  check_returns : ∀ item, ∃ b, bf.check sum32 item = .ok b
  found : ∀ item ∈ added, bf.check sum32 item = .ok true
  notMem_of_not_found : ∀ item, bf.check sum32 item = .ok false → item ∉ added
  found_later : ∀ later bf', bf.addAll sum32 later = .ok bf' → ∀ item,
    bf.check sum32 item = .ok true → bf'.check sum32 item = .ok true
  order_irrelevant : ∀ added' bf', (newBloomFilter size hashes).addAll sum32 added' = .ok bf' →
    (∀ item, item ∈ added' ↔ item ∈ added) → bf'.bits = bf.bits

theorem mem_probes {item : Bytes} {j : ℕ} :
    j ∈ bf.probes sum32 item ↔ ∃ i < bf.hashes, probe sum32 bf.size item i = j := by
  simp only [probes, seeds, List.map_map, List.mem_map, List.mem_range, Function.comp_apply]
  constructor
  · rintro ⟨n, hn, hj⟩
    have hlt : n < 2 ^ 64 := hn.trans bf.hashes.toNat_lt
    refine ⟨UInt64.ofNat n, ?_, hj⟩
    rw [UInt64.lt_iff_toNat_lt, UInt64.toNat_ofNat_of_lt' hlt]
    exact hn
  · rintro ⟨i, hi, hj⟩
    exact ⟨i.toNat, UInt64.lt_iff_toNat_lt.mp hi, by rwa [UInt64.ofNat_toNat]⟩

/-- Additions mark the indices of the items. -/
theorem WellFormed.marks_marked (h : bf.WellFormed) (items : List Bytes) :
    marks (bf.marked (items.flatMap (bf.probes sum32))).bits =
      marks bf.bits ∪ ⋃ item ∈ {x | x ∈ items}, {j | j ∈ bf.probes sum32 item} := by
  rw [marked_bits, marks_mark]
  · ext j
    simp
  · intro j hj
    obtain ⟨item, -, hj⟩ := List.mem_flatMap.mp hj
    obtain ⟨i, -, rfl⟩ := mem_probes.mp hj
    exact h.probe_lt item i

section Filled

variable (sum32) (size hashes : UInt64)

/-- A new filter after a sequence of additions. -/
def filled (items : List Bytes) : BloomFilter :=
  (newBloomFilter size hashes).marked
    (items.flatMap ((newBloomFilter size hashes).probes sum32))

/-- The indices that the items of a set reach. -/
def reached (items : Set Bytes) : Set ℕ :=
  ⋃ item ∈ items, {j | j ∈ (newBloomFilter size hashes).probes sum32 item}

variable {sum32 size hashes} (hpos : 1 ≤ size.toNat) (hlt : size.toNat < 2 ^ 32)

include hpos hlt

theorem addAll_eq_filled (items : List Bytes) :
    (newBloomFilter size hashes).addAll sum32 items = .ok (filled sum32 size hashes items) :=
  (wellFormed_newBloomFilter hpos hlt).addAll_eq items

theorem wellFormed_filled (items : List Bytes) : (filled sum32 size hashes items).WellFormed :=
  (wellFormed_newBloomFilter hpos hlt).marked _

theorem marks_filled (items : List Bytes) :
    marks (filled sum32 size hashes items).bits = reached sum32 size hashes {x | x ∈ items} := by
  rw [filled, (wellFormed_newBloomFilter hpos hlt).marks_marked, newBloomFilter,
    marks_replicate_false, Set.empty_union]
  rfl

/-- No false negatives. -/
theorem check_filled {added : List Bytes} {item : Bytes} (hitem : item ∈ added) :
    (filled sum32 size hashes added).check sum32 item = .ok true := by
  rw [(wellFormed_filled hpos hlt added).check_eq_true, marks_filled hpos hlt]
  intro j hj
  exact Set.mem_biUnion hitem hj

theorem exact_filled (added : List Bytes) :
    Exact sum32 size hashes added (filled sum32 size hashes added) where
  bits j := by
    rw [← mem_marks, marks_filled hpos hlt]
    simp only [reached, Set.mem_iUnion, Set.mem_ofPred_eq, mem_probes, exists_prop]
    rfl
  check_returns := (wellFormed_filled hpos hlt added).check_returns
  found _ hitem := check_filled hpos hlt hitem
  notMem_of_not_found item hcheck hitem := by
    rw [check_filled hpos hlt hitem] at hcheck
    cases hcheck
  found_later later bf' hlater item hcheck := by
    have hwf : (filled sum32 size hashes added).WellFormed := wellFormed_filled hpos hlt added
    rw [hwf.addAll_eq] at hlater
    cases hlater
    rw [(hwf.marked _).check_eq_true, hwf.marks_marked]
    exact (hwf.check_eq_true item |>.mp hcheck).trans Set.subset_union_left
  order_irrelevant added' bf' hadded hsame := by
    rw [addAll_eq_filled hpos hlt] at hadded
    cases hadded
    have hset : {x | x ∈ added'} = {x | x ∈ added} := Set.ext hsame
    refine eq_of_marks ?_ ?_
    · rw [(wellFormed_filled hpos hlt added').length_bits,
        (wellFormed_filled hpos hlt added).length_bits]
      rfl
    · rw [marks_filled hpos hlt, marks_filled hpos hlt, hset]

end Filled

/-- A filter whose size fits in 32 bits is exact after any sequence of additions,
for any hash function. -/
theorem addAll_exact (sum32 : Bytes → UInt32) (size hashes : UInt64) (hpos : 1 ≤ size.toNat)
    (hlt : size.toNat < 2 ^ 32) (added : List Bytes) :
    ∃ bf, (newBloomFilter size hashes).addAll sum32 added = .ok bf ∧
      Exact sum32 size hashes added bf :=
  ⟨_, addAll_eq_filled hpos hlt added, exact_filled hpos hlt added⟩

theorem addAll_exact_two : ∃ bf,
    (newBloomFilter 8 3).addAll fnv32a [[0x61], [0x62]] = .ok bf ∧
      Exact fnv32a 8 3 [[0x61], [0x62]] bf :=
  addAll_exact fnv32a 8 3 (by decide) (by decide) [[0x61], [0x62]]

end BloomFilter

end BuildYourOwnStuff.Bloom
