import BuildYourOwnStuff.Bloom.Membership

/-!
# The probes of a filter

The size of a filter has 64 bits and is narrowed to 32 before it divides a hash
value, so a probe is the hash value modulo the size only in filters of fewer than
2^32 bits. The seed is written in decimal in front of the item with nothing in
between, so the bytes that are hashed tell seeds and items apart only as long as
all seeds have a single digit.
-/

namespace BuildYourOwnStuff.Bloom

open Foundations GoStd

namespace BloomFilter

/-- The hash value modulo the size, both as numbers. -/
def intended (bf : BloomFilter) (item : Bytes) (i : UInt64) : ℕ :=
  (hashWithSeed fnv32a item i).toNat % bf.size.toNat

/-- `Add` and `Check` reach the bits at the hash values modulo the size. -/
structure ProbesRight (bf : BloomFilter) : Prop where
  index : ∀ (item : Bytes), ∀ i < bf.hashes, ∃ j, bf.index fnv32a item i = .ok j ∧
    j < bf.bits.length ∧ j = bf.intended item i
  add : ∀ item, bf.add fnv32a item = .ok (bf.marked (bf.seeds.map (bf.intended item)))
  check : ∀ item, bf.check fnv32a item =
    .ok (bf.seeds.all fun i => bf.bits[bf.intended item i]? == some true)

variable {bf : BloomFilter}

theorem WellFormed.probe_eq_intended (h : bf.WellFormed) (item : Bytes) (i : UInt64) :
    probe fnv32a bf.size item i = bf.intended item i := by
  rw [probe, UInt32.toNat_mod, h.toNat_size, intended]

theorem WellFormed.probesRight (h : bf.WellFormed) : bf.ProbesRight where
  index item i _ :=
    ⟨_, h.index_eq item i, h.probe_lt item i, h.probe_eq_intended item i⟩
  add item := by
    have hprobe : probe fnv32a bf.size item = bf.intended item :=
      funext (h.probe_eq_intended item)
    rw [h.add_eq, probes, hprobe]
  check item := by
    rw [check, h.checkSeeds_eq]
    simp only [h.probe_eq_intended]

theorem seeds_of_hashes_eq_zero (h : bf.hashes = 0) : bf.seeds = [] := by
  rw [seeds, h]
  rfl

/-- A filter without hash functions has no probe to get wrong. -/
theorem probesRight_of_hashes_eq_zero (h : bf.hashes = 0) : bf.ProbesRight where
  index item i hi := by
    rw [h] at hi
    exact absurd hi (by simp)
  add item := by
    rw [add, seeds_of_hashes_eq_zero h]
    rfl
  check item := by
    rw [check, seeds_of_hashes_eq_zero h]
    rfl

/-- The greatest hash value is the hash of an item with seed 0. -/
theorem hashWithSeed_greatest : hashWithSeed fnv32a [0x51, 0xF6, 0x63, 0x00] 0 = 0xFFFFFFFF := by
  decide

/-- In a filter of 2^32 bits or more the greatest hash value is reduced to a smaller one. -/
theorem index_greatest_ne (hlarge : 2 ^ 32 ≤ bf.size.toNat) :
    bf.index fnv32a [0x51, 0xF6, 0x63, 0x00] 0 ≠ .ok (bf.intended [0x51, 0xF6, 0x63, 0x00] 0) := by
  have hgreatest : bf.intended [0x51, 0xF6, 0x63, 0x00] 0 = 0xFFFFFFFF := by
    rw [intended, hashWithSeed_greatest]
    exact Nat.mod_eq_of_lt (lt_of_lt_of_le (by decide) hlarge)
  rw [index, hgreatest]
  split_ifs with hzero
  · simp
  · have hpos : 0 < bf.size.toUInt32.toNat := UInt32.pos_iff_ne_zero.mpr hzero
    have hmod := Nat.mod_lt (hashWithSeed fnv32a [0x51, 0xF6, 0x63, 0x00] 0).toNat hpos
    have hlt := bf.size.toUInt32.toNat_lt
    rw [ne_eq, Except.ok.injEq, UInt32.toNat_mod]
    omega

/-- The probes are right exactly in filters of fewer than 2^32 bits, and in those that
have no hash function. -/
theorem probesRight_iff (bf : BloomFilter) (hpos : 1 ≤ bf.size.toNat)
    (hbits : bf.bits.length = bf.size.toNat) :
    bf.ProbesRight ↔ bf.hashes = 0 ∨ bf.size.toNat < 2 ^ 32 := by
  constructor
  · intro h
    by_contra hnot
    rw [not_or, not_lt] at hnot
    obtain ⟨j, hj, -, hright⟩ :=
      h.index [0x51, 0xF6, 0x63, 0x00] 0 (UInt64.pos_iff_ne_zero.mpr hnot.1)
    rw [hright] at hj
    exact index_greatest_ne hnot.2 hj
  · rintro (hzero | hlt)
    · exact probesRight_of_hashes_eq_zero hzero
    · exact WellFormed.probesRight ⟨hpos, hlt, hbits⟩

theorem probesRight_iff_eight : (newBloomFilter 8 3).ProbesRight ↔
    (newBloomFilter 8 3).hashes = 0 ∨ (newBloomFilter 8 3).size.toNat < 2 ^ 32 :=
  probesRight_iff (newBloomFilter 8 3) (by decide) (by decide)

/-- With 2^32 bits `Add` and `Check` divide by zero; with five more they reach the wrong bit. -/
theorem probes_wrong_large :
    (newBloomFilter 0x100000000 7).add fnv32a (ascii "item0") = .error .panic ∧
      (newBloomFilter 0x100000000 7).check fnv32a (ascii "item0") = .error .panic ∧
      (newBloomFilter 0x100000005 7).index fnv32a [0x51, 0xF6, 0x63, 0x00] 0 = .ok 0 ∧
      (newBloomFilter 0x100000005 7).intended [0x51, 0xF6, 0x63, 0x00] 0 = 0xFFFFFFFF :=
  ⟨rfl, rfl, rfl, by decide⟩

end BloomFilter

section Separation

/-- The bytes hashed for two probes are only the same when the probes are, and then no
two probes are at the same bit for every hash function. -/
structure SeparatesProbes (hashes : UInt64) : Prop where
  inputs : ∀ i < hashes, ∀ j < hashes, ∀ x y, seeded i x = seeded j y → i = j ∧ x = y
  unforced : ∀ size : UInt64, 2 ≤ size.toNat → size.toNat < 2 ^ 32 →
    ∀ i < hashes, ∀ j < hashes, ∀ x y,
      (∀ sum32, probe sum32 size x i = probe sum32 size y j) → i = j ∧ x = y

/-- A seed with one digit is hashed as one byte. -/
theorem seeded_digit {i : UInt64} (h : i < 10) (x : Bytes) :
    seeded i x = UInt8.ofNat (0x30 + i.toNat) :: x := by
  have hlt : i.toNat < 10 := UInt64.lt_iff_toNat_lt.mp h
  rw [seeded]
  generalize i.toNat = n at hlt
  interval_cases n <;> rfl

theorem seeded_inj_digit {i j : UInt64} (hi : i < 10) (hj : j < 10) {x y : Bytes}
    (h : seeded i x = seeded j y) : i = j ∧ x = y := by
  rw [seeded_digit hi, seeded_digit hj, List.cons.injEq] at h
  refine ⟨UInt64.toNat_inj.mp ?_, h.2⟩
  have hi' : i.toNat < 10 := UInt64.lt_iff_toNat_lt.mp hi
  have hj' : j.toNat < 10 := UInt64.lt_iff_toNat_lt.mp hj
  have hbyte := congrArg UInt8.toNat h.1
  rw [UInt8.toNat_ofNat_of_lt' (by change _ < 256; omega),
    UInt8.toNat_ofNat_of_lt' (by change _ < 256; omega)] at hbyte
  omega

/-- Seeds 1 and 10 hash the same bytes for items that differ in a leading zero. -/
theorem seeded_collision (x : Bytes) : seeded 1 (0x30 :: x) = seeded 10 x := rfl

/-- Two inputs that differ are at different bits for some hash function. -/
theorem seeded_eq_of_forced {size i j : UInt64} {x y : Bytes} (htwo : 2 ≤ size.toNat)
    (hlt : size.toNat < 2 ^ 32)
    (h : ∀ sum32, probe sum32 size x i = probe sum32 size y j) : seeded i x = seeded j y := by
  by_contra hne
  have hsize : size.toUInt32.toNat = size.toNat :=
    (UInt64.toNat_toUInt32 size).trans (Nat.mod_eq_of_lt hlt)
  have hprobe := h fun bs => if bs = seeded i x then 1 else 0
  simp only [probe, hashWithSeed, if_pos, if_neg (Ne.symm hne), UInt32.toNat_mod, hsize,
    UInt32.toNat_one, UInt32.toNat_zero, Nat.zero_mod] at hprobe
  rw [Nat.mod_eq_of_lt (by omega)] at hprobe
  omega

/-- The hash functions are fed distinct inputs exactly when there are at most ten. -/
theorem separatesProbes_iff (hashes : UInt64) : SeparatesProbes hashes ↔ hashes ≤ 10 := by
  constructor
  · intro h
    by_contra hnot
    have hlarge : 10 < hashes := UInt64.not_le.mp hnot
    have hone : 1 < hashes := UInt64.lt_trans (by decide) hlarge
    have hsame := h.inputs 1 hone 10 hlarge [0x30] [] (seeded_collision [])
    exact absurd hsame.1 (by decide)
  · intro h
    refine ⟨fun i hi j hj x y => ?_, fun size htwo hlt i hi j hj x y hforced => ?_⟩
    · exact seeded_inj_digit (UInt64.lt_of_lt_of_le hi h) (UInt64.lt_of_lt_of_le hj h)
    · exact seeded_inj_digit (UInt64.lt_of_lt_of_le hi h) (UInt64.lt_of_lt_of_le hj h)
        (seeded_eq_of_forced htwo hlt hforced)

/-- With eleven hash functions the items "0a" and "a" share a probe of seeds 1 and 10. -/
theorem not_separatesProbes_eleven :
    ¬ SeparatesProbes 11 ∧ seeded 1 (ascii "0a") = seeded 10 (ascii "a") := by
  refine ⟨fun h => ?_, rfl⟩
  have hsame := h.inputs 1 (by decide) 10 (by decide) [0x30] [] (seeded_collision [])
  exact absurd hsame.1 (by decide)

end Separation

end BuildYourOwnStuff.Bloom
