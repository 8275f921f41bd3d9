import Blockad.Lib.Strtol

/-!
# `Blockad.Lib.Decimal`: decimal numbers that are read back

`ofNat` writes a number in decimal, and `strtol` reads one. `strtol_ofNat` is the round trip, for
the numbers that a `long` can have, with anything but a digit behind the number.

Nothing here is about one program.
-/

set_option autoImplicit false

namespace Bytes

/-- The character of a decimal digit. -/
def decimalDigit (d : Nat) : UInt8 := chr '0' + UInt8.ofNat d

/-- A digit below ten is written as one byte, and read back from it. -/
theorem decimalDigit_read {d : Nat} (h : d < 10) :
    chr d.digitChar = decimalDigit d ∧ isDigit (decimalDigit d) = true ∧
      (decimalDigit d - chr '0').toNat = d := by
  revert d
  decide

/-- The digits are those of `Nat.toDigits`. -/
theorem ofNat_eq_map (n : Nat) : ofNat n = (Nat.toDigits 10 n).map chr := by
  unfold ofNat lit
  rw [Nat.toString_eq_ofList_toDigits, String.toList_ofList]

/-- A number below ten has one digit. -/
theorem ofNat_of_lt {n : Nat} (h : n < 10) : ofNat n = [decimalDigit n] := by
  rw [ofNat_eq_map, Nat.toDigits_of_lt_base h, List.map_singleton, (decimalDigit_read h).1]

/-- The last digit of a longer number. -/
theorem ofNat_of_le {n : Nat} (h : 10 ≤ n) :
    ofNat n = ofNat (n / 10) ++ [decimalDigit (n % 10)] := by
  have hlast := decimalDigit_read (Nat.mod_lt n (by decide : 10 > 0))
  rw [ofNat_eq_map, Nat.toDigits_of_base_le (by decide) h, List.map_append, ← ofNat_eq_map,
    List.map_singleton, hlast.1]

/-- Nothing but digits is written. -/
theorem isDigit_of_mem_ofNat {n : Nat} {c : UInt8} (hc : c ∈ ofNat n) : isDigit c = true := by
  induction n using Nat.strongRecOn with
  | ind n ih =>
    by_cases hn : n < 10
    · rw [ofNat_of_lt hn, List.mem_singleton] at hc
      rw [hc]
      exact (decimalDigit_read hn).2.1
    · rw [ofNat_of_le (by omega)] at hc
      rcases List.mem_append.mp hc with hc | hc
      · exact ih (n / 10) (by omega) hc
      · rw [List.mem_singleton.mp hc]
        exact (decimalDigit_read (Nat.mod_lt n (by decide))).2.1

/-- One more digit at the end counts once, and the ones before it ten times as much. -/
theorem digitsValue_append (ds : Bytes) (c : UInt8) :
    digitsValue (ds ++ [c]) = 10 * digitsValue ds + (c - chr '0').toNat := by
  unfold digitsValue
  rw [List.foldl_append]
  rfl

/-- **Round trip**: a number is read back from its digits. -/
theorem digitsValue_ofNat (n : Nat) : digitsValue (ofNat n) = n := by
  induction n using Nat.strongRecOn with
  | ind n ih =>
    by_cases hn : n < 10
    · rw [ofNat_of_lt hn]
      show 10 * 0 + (decimalDigit n - chr '0').toNat = n
      rw [(decimalDigit_read hn).2.2]
      omega
    · rw [ofNat_of_le (by omega), digitsValue_append, ih (n / 10) (by omega),
        (decimalDigit_read (Nat.mod_lt n (by decide))).2.2]
      omega

/-- Every number has a first digit. -/
theorem exists_ofNat_eq_cons (n : Nat) : ∃ c ds, ofNat n = c :: ds ∧ isDigit c = true := by
  cases hds : ofNat n with
  | nil =>
    have hvalue := digitsValue_ofNat n
    rw [hds] at hvalue
    obtain rfl : 0 = n := hvalue
    rw [ofNat_of_lt (by decide)] at hds
    cases hds
  | cons c ds => exact ⟨c, ds, rfl, isDigit_of_mem_ofNat (by rw [hds]; exact List.mem_cons_self)⟩

/-- A digit is neither white space nor a sign. -/
theorem isDigit_start : ∀ c : UInt8, isDigit c = true →
    isSpace c = false ∧ (c == chr '-') = false ∧ (c == chr '+') = false := by
  intro c hc
  have hlow : chr '0' ≤ c := by
    unfold isDigit at hc
    simpa using (Bool.and_eq_true_iff.mp hc).1
  have hnat : 48 ≤ c.toNat := hlow
  refine ⟨?_, ?_, ?_⟩
  · unfold isSpace
    have hspace : (c == chr ' ') = false := by
      rw [beq_eq_false_iff_ne]
      rintro rfl
      exact absurd hnat (by decide)
    have hcr : decide (c ≤ chr '\r') = false := by
      rw [decide_eq_false_iff_not]
      intro hle
      have hle' : c.toNat ≤ 13 := hle
      omega
    rw [hspace, hcr, Bool.and_false]
    rfl
  · rw [beq_eq_false_iff_ne]
    rintro rfl
    exact absurd hnat (by decide)
  · rw [beq_eq_false_iff_ne]
    rintro rfl
    exact absurd hnat (by decide)

/-- The reader stops after the digits, if what follows is not another digit. -/
theorem takeWhile_digits {ds rest : Bytes} (hds : ∀ c ∈ ds, isDigit c = true)
    (hrest : ∀ c ∈ rest.head?, isDigit c = false) :
    (ds ++ rest).takeWhile isDigit = ds ∧ (ds ++ rest).dropWhile isDigit = rest := by
  induction ds with
  | nil =>
    cases rest with
    | nil => exact ⟨rfl, rfl⟩
    | cons c rest =>
      have hc := hrest c rfl
      simp [hc]
  | cons c ds ih =>
    have hc := hds c List.mem_cons_self
    obtain ⟨htake, hdrop⟩ := ih fun d hd => hds d (List.mem_cons_of_mem c hd)
    simp [hc, htake, hdrop]

/-- **The round trip.** -/
theorem strtol_ofNat {n : Nat} (hn : (n : Int) ≤ longMax) {rest : Bytes}
    (hrest : ∀ c ∈ rest.head?, isDigit c = false) :
    strtol (ofNat n ++ rest) = ⟨n, rest, true, false⟩ := by
  obtain ⟨htake, hdrop⟩ := takeWhile_digits (fun c => @isDigit_of_mem_ofNat n c) hrest
  have hsigned : sign ((ofNat n ++ rest).dropWhile isSpace) = (false, ofNat n ++ rest) := by
    obtain ⟨c, ds, hds, hc⟩ := exists_ofNat_eq_cons n
    obtain ⟨hspace, hminus, hplus⟩ := isDigit_start c hc
    rw [hds, List.cons_append, List.dropWhile_cons_of_neg (by simp [hspace])]
    simp [sign, hminus, hplus]
  have hne : (ofNat n).isEmpty = false := by
    obtain ⟨c, ds, hds, -⟩ := exists_ofNat_eq_cons n
    rw [hds]
    rfl
  have hmin : ¬ ((n : Int) < longMin) := by
    unfold longMin
    omega
  unfold strtol
  rw [hsigned]
  dsimp only
  rw [htake, hdrop, hne, digitsValue_ofNat]
  simp [hmin, Int.not_lt.mpr hn]

end Bytes
