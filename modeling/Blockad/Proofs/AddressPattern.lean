import Blockad.Lib.BitPrefix
import Blockad.Model.Address

/-!
# `Blockad.Proofs.AddressPattern`: what a pattern matches

A pattern `ADDRESS/N` names a network, `ADDRESS` alone a single host. `NetworkOf` reads the
network off the pattern text: the address and the number of leading bits that count. An
accepted pattern has a network (`networkOf_of_assign`), and its mask covers exactly these
bits (`isPrefixMask_maskOf`).

`AddressPattern.matches` compares the masked address with the address of the pattern, which
`AddressPattern::assign` keeps unmasked. So the pattern matches its network when ADDRESS has
no bit set past the prefix, and nothing at all otherwise
(`matches_iff_of_aligned`, `not_matches_of_not_aligned`).
-/

set_option autoImplicit false

namespace Blockad.Proofs

open Bytes BitPrefix

/-- `s` is `ADDRESS` or `ADDRESS/N`: `addr` is the 128-bit form of ADDRESS, and the first
`k` bits are the network part. -/
inductive NetworkOf [Libc] : (s : Bytes) → (addr : In6Addr) → (k : Nat) → Prop
  | host4 {s : Bytes} {a : Vector UInt8 4} :
      chr '/' ∉ s → chr ':' ∉ s → Libc.inetPton4 s = some a → NetworkOf s (mapped4 a) 128
  | host6 {s : Bytes} {a : In6Addr} :
      chr '/' ∉ s → chr ':' ∈ s → Libc.inetPton6 s = some a → NetworkOf s a 128
  | net4 {text num : Bytes} {a : Vector UInt8 4} {n : Nat} :
      chr '/' ∉ text → chr ':' ∉ text → Libc.inetPton4 text = some a →
      strtol num = ⟨n, [], true, false⟩ → n ≤ 32 →
      NetworkOf (text ++ chr '/' :: num) (mapped4 a) (96 + n)
  | net6 {text num : Bytes} {a : In6Addr} {n : Nat} :
      chr '/' ∉ text → chr ':' ∈ text → Libc.inetPton6 text = some a →
      strtol num = ⟨n, [], true, false⟩ → n ≤ 128 →
      NetworkOf (text ++ chr '/' :: num) a n

/-- ADDRESS has no bit set past the network part. -/
def NetworkAligned (addr : In6Addr) (k : Nat) : Prop :=
  ∀ i < 128, k ≤ i → bit addr i = false

variable [Libc]

/-! ### Reading the pattern -/

/-- The conversion of a NUL-free address text: the two syntaxes. -/
theorem convert_eq_ok {s text : Bytes} {n : Option Nat} {addr : In6Addr} {v : Int}
    (h : AddressBase.convert s 0 n = .ok (addr, v)) (htext : s.take (n.getD s.length) = text)
    (hnul : 0 ∉ text) :
    (v = 6 ∧ chr ':' ∈ text ∧ Libc.inetPton6 text = some addr) ∨
      (v = 4 ∧ chr ':' ∉ text ∧ ∃ a, Libc.inetPton4 text = some a ∧ addr = mapped4 a) := by
  have hsub : (s.drop 0).take (min (n.getD s.length) (s.length - 0)) = text := by
    rw [← htext, List.drop_zero, Nat.sub_zero, List.take_eq_take_iff]
    omega
  unfold AddressBase.convert at h
  simp only [hsub, cstr_eq_self hnul] at h
  by_cases hc : chr ':' ∈ text
  · rw [if_pos (by simpa using hc)] at h
    split at h <;> cases h
    exact .inl ⟨rfl, hc, ‹_›⟩
  · rw [if_neg (by simpa using hc)] at h
    split at h <;> cases h
    exact .inr ⟨rfl, hc, _, ‹_›, rfl⟩

omit [Libc] in
/-- An accepted netmask size is the number after the slash, in range for the syntax, with
96 added for IPv4. -/
theorem maskBits_eq_ok {v n : Int} {maskString : Bytes}
    (h : AddressPattern.maskBits v maskString = .ok n) :
    ∃ k : Nat, strtol maskString = ⟨k, [], true, false⟩ ∧
      (v = 4 ∧ k ≤ 32 ∧ n = 96 + k ∨ v ≠ 4 ∧ k ≤ 128 ∧ n = k) := by
  unfold AddressPattern.maskBits at h
  generalize strtol maskString = r at h ⊢
  obtain ⟨value, rest, converted, erange⟩ := r
  dsimp only at h
  split at h
  · cases h
  rename_i herange
  split at h
  · cases h
  rename_i hbad
  obtain ⟨⟨rfl, rfl⟩, hvalue⟩ : (converted = true ∧ rest = []) ∧ 0 ≤ value := by
    simpa [not_or] using hbad
  obtain ⟨k, rfl⟩ := Int.eq_ofNat_of_zero_le hvalue
  refine ⟨k, by simpa using herange, ?_⟩
  split at h <;> split at h <;> cases h
  · exact .inl ⟨‹_›, by omega, by omega⟩
  · exact .inr ⟨‹_›, by omega, rfl⟩

/-- An accepted NUL-free pattern has a network, held as its address and the mask of its
prefix. -/
theorem networkOf_of_assign {s : Bytes} {p : AddressPattern} (hs : 0 ∉ s)
    (h : AddressPattern.assign s = .ok p) :
    ∃ k, NetworkOf s p.network k ∧ k ≤ 128 ∧ p.mask = AddressPattern.maskOf k := by
  unfold AddressPattern.assign at h
  dsimp only at h
  split at h
  · cases h
  rename_i network v hconv
  split at h
  · cases h
  cases hslash : s.idxOf? (chr '/') with
  | none =>
    -- The whole text is the address, and all bits count.
    have hno : chr '/' ∉ s := by simpa using hslash
    rw [hslash] at h hconv
    cases h
    rcases convert_eq_ok hconv (by simp) hs with ⟨-, hcolon, hpton⟩ | ⟨-, hcolon, a, hpton, rfl⟩
    · exact ⟨128, .host6 hno hcolon hpton, le_refl _, rfl⟩
    · exact ⟨128, .host4 hno hcolon hpton, le_refl _, rfl⟩
  | some slash =>
    rw [hslash] at h hconv
    dsimp only at h
    -- The first slash separates the address from the netmask.
    obtain ⟨text, num, rfl, rfl, hno⟩ := exists_of_idxOf?_eq_some hslash
    have hnum : cstr ((text ++ chr '/' :: num).drop (text.length + 1)) = num := by
      rw [List.drop_append, List.drop_eq_nil_of_le (by omega)]
      simpa using cstr_eq_self (s := num) fun h0 => hs (by simp [h0])
    have htext : 0 ∉ text := fun h0 => hs (by simp [h0])
    rw [hnum] at h
    split at h
    · cases h
    rename_i n hbits
    cases h
    obtain ⟨k, hk, hrange⟩ := maskBits_eq_ok hbits
    rcases convert_eq_ok hconv (by simp) htext with
      ⟨rfl, hcolon, hpton⟩ | ⟨rfl, hcolon, a, hpton, rfl⟩
    · obtain ⟨hk128, rfl⟩ : k ≤ 128 ∧ n = k := by simpa using hrange
      exact ⟨k, .net6 hno hcolon hpton hk hk128, hk128, rfl⟩
    · obtain ⟨hk32, rfl⟩ : k ≤ 32 ∧ n = 96 + k := by simpa using hrange
      refine ⟨96 + k, .net4 hno hcolon hpton hk hk32, by omega, ?_⟩
      rw [show (96 + (k : Int)).toNat = 96 + k by omega]

/-! ### Matching -/

omit [Libc] in
/-- The mask of an accepted pattern has exactly the bits of the prefix. -/
theorem isPrefixMask_maskOf (k : Nat) : IsPrefixMask k (AddressPattern.maskOf k) :=
  isPrefixMask_prefixBytes k

omit [Libc] in
/-- `AddressPattern::matches` compares the masked address with the network as it was
written. -/
theorem matches_iff_land {p : AddressPattern} {a : Address} :
    p.matches a = true ↔ land a.address p.mask = p.network := by
  unfold AddressPattern.matches
  simp only [List.all_eq_true, List.mem_finRange, forall_const, beq_iff_eq]
  constructor
  · intro h
    apply Vector.ext
    intro i hi
    simpa [land] using h ⟨i, hi⟩
  · intro h i
    rw [← h]
    simp [land]

omit [Libc] in
/-- A network without bits past the prefix: the pattern matches exactly the addresses that
share its first `k` bits. -/
theorem matches_iff_of_aligned {p : AddressPattern} {k : Nat} (hk : k ≤ 128)
    (hmask : p.mask = AddressPattern.maskOf k) (h : NetworkAligned p.network k) (a : Address) :
    p.matches a = true ↔ AgreeTo k a.address p.network := by
  have hm : IsPrefixMask k p.mask := hmask ▸ isPrefixMask_maskOf k
  rw [matches_iff_land, ← land_mask_eq_land_mask hm hk]
  rw [(land_mask_eq_self hm p.network).mpr h]

omit [Libc] in
/-- A network with a bit past the prefix: the pattern matches nothing. -/
theorem not_matches_of_not_aligned {p : AddressPattern} {k : Nat}
    (hmask : p.mask = AddressPattern.maskOf k) (h : ¬ NetworkAligned p.network k) (a : Address) :
    p.matches a = false := by
  have hm : IsPrefixMask k p.mask := hmask ▸ isPrefixMask_maskOf k
  rw [← Bool.not_eq_true, matches_iff_land]
  intro hland
  -- If the masked address is the network, the network has only bits of the mask.
  apply h
  intro i hi hki
  rw [← hland, bit_land, hm i hi]
  simp [show ¬ i < k by omega]

/-- **What an accepted pattern matches.** It matches its network, the addresses that share
the first `k` bits of ADDRESS, exactly when ADDRESS has no bit set past the prefix. It
matches ADDRESS itself under the same condition. -/
theorem matches_network_iff_aligned (s : Bytes) (hs : 0 ∉ s) (p : AddressPattern)
    (h : AddressPattern.assign s = .ok p) :
    ∃ addr k, NetworkOf s addr k ∧
      ((∀ a : Address, p.matches a = true ↔ AgreeTo k a.address addr) ↔ NetworkAligned addr k) ∧
      (p.matches ⟨addr⟩ = true ↔ NetworkAligned addr k) := by
  obtain ⟨k, hnet, hk, hmask⟩ := networkOf_of_assign hs h
  have hself : p.matches ⟨p.network⟩ = true ↔ NetworkAligned p.network k := by
    constructor
    · intro hmatch
      by_contra hna
      rw [not_matches_of_not_aligned hmask hna] at hmatch
      cases hmatch
    · intro ha
      rw [matches_iff_of_aligned hk hmask ha]
      exact fun _ _ => rfl
  refine ⟨p.network, k, hnet, ⟨?_, fun ha => matches_iff_of_aligned hk hmask ha⟩, hself⟩
  -- ADDRESS lies in its own network, so a pattern that matches the network matches it.
  intro hall
  exact hself.mp ((hall ⟨p.network⟩).mpr fun _ _ => rfl)

omit [Libc] in
/-- The pattern `10.0.0.0/8` is accepted, and `matches_network_iff_aligned` applies to it. -/
theorem matches_network_iff_aligned_ten :
    letI := Libc.noMatch
    ∃ addr k, NetworkOf (lit "10.0.0.0/8") addr k ∧
      ((∀ a : Address, (AddressPattern.mk (mapped4 #v[10, 0, 0, 0])
          (AddressPattern.maskOf 104)).matches a = true ↔ AgreeTo k a.address addr)
        ↔ NetworkAligned addr k) ∧
      ((AddressPattern.mk (mapped4 #v[10, 0, 0, 0]) (AddressPattern.maskOf 104)).matches ⟨addr⟩
        = true ↔ NetworkAligned addr k) :=
  letI := Libc.noMatch
  matches_network_iff_aligned (lit "10.0.0.0/8") (by decide) _ (by rfl)

omit [Libc] in
/-- The pattern `127.0.0.1/8` is accepted and its network is `127.0.0.0/8`, but it does not
match `127.0.0.1`, which shares the first 104 bits with itself. -/
theorem not_matches_own_address :
    letI := Libc.noMatch
    ∃ p, AddressPattern.assign (lit "127.0.0.1/8") = .ok p ∧
      NetworkOf (lit "127.0.0.1/8") (mapped4 #v[127, 0, 0, 1]) 104 ∧
      AgreeTo 104 (mapped4 #v[127, 0, 0, 1]) (mapped4 #v[127, 0, 0, 1]) ∧
      p.matches ⟨mapped4 #v[127, 0, 0, 1]⟩ = false :=
  letI := Libc.noMatch
  ⟨⟨mapped4 #v[127, 0, 0, 1], AddressPattern.maskOf 104⟩, by rfl,
    @NetworkOf.net4 _ (lit "127.0.0.1") (lit "8") _ 8
      (by decide) (by decide) (by rfl) (by rfl) (by decide),
    fun _ _ => rfl, by decide⟩

end Blockad.Proofs
