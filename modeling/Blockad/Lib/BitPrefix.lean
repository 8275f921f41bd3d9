import Mathlib.Data.List.Basic

/-!
# `Blockad.Lib.BitPrefix`: prefixes of byte vectors, bit by bit

A vector of `n` bytes is a string of `8 * n` bits, the most significant bit of the first
byte first. `bit v i` is its bit `i`. `AgreeTo k v w` says that `v` and `w` have the same
first `k` bits, and `IsPrefixMask k m` that `m` has exactly its first `k` bits set.

* `land_mask_eq_land_mask`: masking compares prefixes. Two vectors are equal under a
  prefix mask exactly when they agree on the prefix.
* `land_mask_eq_self`: a vector is its own masked form exactly when it has no bit set past
  the prefix.
* `isPrefixMask_prefixBytes`: the usual byte-wise construction of a mask is a prefix mask.
-/

set_option autoImplicit false

namespace BitPrefix

variable {n : Nat}

/-- Bit `j` of a byte, the most significant bit being bit 0. -/
def byteBit (b : UInt8) (j : Nat) : Bool := b.toNat.testBit (7 - j)

/-- Bit `i` of a byte vector. -/
def bit (v : Vector UInt8 n) (i : Nat) : Bool := byteBit (v[i / 8]?.getD 0) (i % 8)

/-- The byte-wise and of two vectors. -/
def land (v w : Vector UInt8 n) : Vector UInt8 n := Vector.ofFn fun i => v[i] &&& w[i]

/-- `v` and `w` have the same first `k` bits. -/
def AgreeTo (k : Nat) (v w : Vector UInt8 n) : Prop := ∀ i < k, bit v i = bit w i

/-- `m` has its first `k` bits set and no other. -/
def IsPrefixMask (k : Nat) (m : Vector UInt8 n) : Prop :=
  ∀ i < 8 * n, bit m i = decide (i < k)

/-- Two bytes with the same bits are equal. -/
theorem byte_ext {a b : UInt8} (h : ∀ j < 8, byteBit a j = byteBit b j) : a = b := by
  apply UInt8.toNat_inj.mp
  apply Nat.eq_of_testBit_eq
  intro j
  by_cases hj : j < 8
  · have h7 := h (7 - j) (by omega)
    unfold byteBit at h7
    rwa [show 7 - (7 - j) = j by omega] at h7
  · have hpow : 2 ^ 8 ≤ 2 ^ j := Nat.pow_le_pow_right (by decide) (by omega)
    have ha := a.toNat_lt
    have hb := b.toNat_lt
    rw [Nat.testBit_lt_two_pow (by omega), Nat.testBit_lt_two_pow (by omega)]

/-- The bits of a conjunction are the conjunctions of the bits. -/
@[simp] theorem byteBit_and (a b : UInt8) (j : Nat) :
    byteBit (a &&& b) j = (byteBit a j && byteBit b j) := by
  simp [byteBit, UInt8.toNat_and]

/-- Bit `j` of byte `i`, for an index inside the vector. -/
theorem bit_eq_byteBit (v : Vector UInt8 n) {i j : Nat} (hi : i < n) (hj : j < 8) :
    bit v (8 * i + j) = byteBit v[i] j := by
  unfold bit
  rw [show (8 * i + j) / 8 = i by omega, show (8 * i + j) % 8 = j by omega,
    Vector.getElem?_eq_getElem hi, Option.getD_some]

/-- Two vectors with the same bits are equal. -/
theorem vector_ext {v w : Vector UInt8 n} (h : ∀ i < 8 * n, bit v i = bit w i) : v = w := by
  apply Vector.ext
  intro i hi
  apply byte_ext
  intro j hj
  rw [← bit_eq_byteBit v hi hj, ← bit_eq_byteBit w hi hj]
  exact h _ (by omega)

/-- The same for whole vectors. -/
@[simp] theorem bit_land (v w : Vector UInt8 n) (i : Nat) :
    bit (land v w) i = (bit v i && bit w i) := by
  unfold bit
  by_cases hi : i / 8 < n
  · simp [land, hi]
  · simp [hi, byteBit]

/-- Masking compares prefixes: under a mask of the first `k` bits, two vectors are equal
exactly when they agree on these bits. -/
theorem land_mask_eq_land_mask {k : Nat} {m : Vector UInt8 n} (hm : IsPrefixMask k m)
    (hk : k ≤ 8 * n) (v w : Vector UInt8 n) :
    land v m = land w m ↔ AgreeTo k v w := by
  constructor
  · intro h i hi
    have hbit : bit (land v m) i = bit (land w m) i := by rw [h]
    simpa [hm i (by omega), hi] using hbit
  · intro h
    apply vector_ext
    intro i hi
    rw [bit_land, bit_land, hm i hi]
    by_cases hik : i < k
    · rw [h i hik]
    · simp [hik]

/-- A vector is its own masked form exactly when it has no bit set past the prefix. -/
theorem land_mask_eq_self {k : Nat} {m : Vector UInt8 n} (hm : IsPrefixMask k m)
    (v : Vector UInt8 n) :
    land v m = v ↔ ∀ i < 8 * n, k ≤ i → bit v i = false := by
  constructor
  · intro h i hi hki
    rw [← h, bit_land, hm i hi]
    simp [show ¬ i < k by omega]
  · intro h
    apply vector_ext
    intro i hi
    rw [bit_land, hm i hi]
    by_cases hik : i < k
    · simp [hik]
    · simp [h i hi (by omega)]

/-- The mask byte at the edge of the prefix has its first `r` bits set. -/
theorem byteBit_edge {r j : Nat} (hr : r < 8) (hj : j < 8) :
    byteBit (UInt8.ofNat (0xFF <<< (8 - r))) j = decide (j < r) := by
  have hall : ∀ r < 8, ∀ j < 8,
      byteBit (UInt8.ofNat (0xFF <<< (8 - r))) j = decide (j < r) := by decide
  exact hall r hr j hj

/-- The byte-wise construction of a prefix mask: whole bytes of ones, one edge byte with
the remaining bits, and zeros. -/
theorem isPrefixMask_prefixBytes (k : Nat) :
    IsPrefixMask k (Vector.ofFn fun i : Fin n =>
      if i.val < k / 8 then (0xFF : UInt8)
      else if i.val = k / 8 then UInt8.ofNat (0xFF <<< (8 - k % 8))
      else 0) := by
  intro i hi
  have hdiv : i / 8 < n := by omega
  rw [show i = 8 * (i / 8) + i % 8 by omega, bit_eq_byteBit _ hdiv (Nat.mod_lt _ (by decide)),
    Vector.getElem_ofFn]
  have hlt := Nat.mod_lt i (show 0 < 8 by decide)
  generalize i / 8 = q at *
  generalize i % 8 = j at *
  have hones : ∀ j < 8, byteBit 0xFF j = true := by decide
  have hzeros : ∀ j < 8, byteBit 0 j = false := by decide
  dsimp only
  split
  · rw [hones j hlt, eq_comm, decide_eq_true_eq]
    omega
  · split
    · rw [byteBit_edge (Nat.mod_lt _ (by decide)) hlt]
      congr 1
      apply propext
      omega
    · rw [hzeros j hlt, eq_comm, decide_eq_false_iff_not]
      omega

end BitPrefix
