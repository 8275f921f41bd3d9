import Blockad.Model.BlockMethods
import Blockad.Proofs.Execute
import Mathlib.Tactic.IntervalCases

/-!
# `Blockad.Proofs.AddressText`: what a block method gets of an address

Reading an address tells the two syntaxes apart by a colon, and printing one by its first twelve
bytes. `is4_iff` says what these bytes mean; a text of either syntax is then read back
(`assign_ntop4`, `assign_ntop6`), also the IPv6 text of an address that has an IPv4 text.

* `Texts`: a text for an address, with the command and the line that the block methods make of it.
* `blocked_address_exact`: the texts of an address are read back as the address, and nothing else
  of a log line reaches the command or the file.
-/

set_option autoImplicit false

namespace Blockad.Proofs

open Bytes Prog

/-! ### The bytes of an address -/

/-- Four bytes are the vector of its four elements. -/
theorem eta4 (x : Vector UInt8 4) : #v[x.get 0, x.get 1, x.get 2, x.get 3] = x := by
  refine Vector.ext fun i hi => ?_
  have hcases : i = 0 ∨ i = 1 ∨ i = 2 ∨ i = 3 := by omega
  rcases hcases with rfl | rfl | rfl | rfl <;> rfl

/-- An address has an IPv4 text if it is in `::ffff:0:0/96`. -/
theorem is4_iff {a : Address} : a.is4 = true ↔ ∃ x, a.address = mapped4 x := by
  constructor
  · intro h
    unfold Address.is4 at h
    simp only [Bool.and_eq_true, List.all_eq_true, List.mem_finRange, beq_iff_eq,
      forall_const] at h
    obtain ⟨⟨hzero, h10⟩, h11⟩ := h
    refine ⟨#v[a.address[12], a.address[13], a.address[14], a.address[15]], ?_⟩
    refine Vector.ext fun i hi => ?_
    -- `is4` has one test for the first ten bytes, and two for the next ones.
    by_cases hlow : i < 10
    · have hbyte := hzero ⟨i, hlow⟩
      interval_cases i <;> exact hbyte
    · have hcases : i = 10 ∨ i = 11 ∨ i = 12 ∨ i = 13 ∨ i = 14 ∨ i = 15 := by omega
      rcases hcases with rfl | rfl | rfl | rfl | rfl | rfl
      · exact h10
      · exact h11
      all_goals rfl
  · rintro ⟨x, hx⟩
    unfold Address.is4
    rw [hx]
    rfl

/-- The command for an address text. -/
def rejectCommand (program text : Bytes) : List Bytes :=
  [program, lit "-I", lit "INPUT", lit "-j", lit "REJECT", lit "-s", text]

/-! ### Texts are read back -/

/-- The characters of an address text. -/
def IsTextChar (c : UInt8) : Prop := isLowerHex c = true ∨ c = chr '.' ∨ c = chr ':'

/-- The text of an address has no NUL. -/
theorem zero_notMem_of_textChars {s : Bytes} (h : ∀ c ∈ s, IsTextChar c) : 0 ∉ s := by
  intro hc
  obtain hhex | hdot | hcolon := h 0 hc
  · exact absurd hhex (by decide)
  · exact absurd hdot (by decide)
  · exact absurd hcolon (by decide)

section
variable [Libc]

/-- A text with a colon is read as an IPv6 address. -/
theorem assign_of_pton6 {s : Bytes} {x : In6Addr} (hnul : 0 ∉ s) (hcolon : chr ':' ∈ s)
    (h : Libc.inetPton6 s = some x) : Address.assign s = .ok ⟨x⟩ := by
  have hsub : (s.drop 0).take (min s.length (s.length - 0)) = s := by
    rw [List.drop_zero, Nat.sub_zero, Nat.min_self, List.take_length]
  have hconvert : AddressBase.convert s 0 none = .ok (x, 6) := by
    unfold AddressBase.convert
    simp only [Option.getD_none, hsub, cstr_eq_self hnul]
    rw [if_pos (by simpa using hcolon), h]
  unfold Address.assign
  rw [hconvert]
  rfl

/-- A text without a colon is read as an IPv4 address. -/
theorem assign_of_pton4 {s : Bytes} {x : Vector UInt8 4} (hnul : 0 ∉ s) (hcolon : chr ':' ∉ s)
    (h : Libc.inetPton4 s = some x) : Address.assign s = .ok ⟨mapped4 x⟩ := by
  have hsub : (s.drop 0).take (min s.length (s.length - 0)) = s := by
    rw [List.drop_zero, Nat.sub_zero, Nat.min_self, List.take_length]
  have hconvert : AddressBase.convert s 0 none = .ok (mapped4 x, 4) := by
    unfold AddressBase.convert
    simp only [Option.getD_none, hsub, cstr_eq_self hnul]
    rw [if_neg (by simpa using hcolon), h]
  unfold Address.assign
  rw [hconvert]
  rfl

variable [InetNtop] (law : LawfulNtop)

include law

/-- What `inet_ntop` writes for an IPv4 address. -/
theorem ntop4_textChar {x : Vector UInt8 4} {c : UInt8} (hc : c ∈ InetNtop.inetNtop4 x) :
    IsTextChar c := by
  obtain hdigit | hdot := law.ntop4_chars x c hc
  · exact .inl (by unfold isLowerHex; rw [hdigit]; rfl)
  · exact .inr (.inl hdot)

/-- The text of an IPv4 address has no colon, so that it is not read as IPv6. -/
theorem colon_notMem_ntop4 (x : Vector UInt8 4) : chr ':' ∉ InetNtop.inetNtop4 x := by
  intro hc
  obtain hdigit | hdot := law.ntop4_chars x _ hc
  · exact absurd hdigit (by decide)
  · exact absurd hdot (by decide)

/-- **Round trip** of an IPv4 address. -/
theorem assign_ntop4 (x : Vector UInt8 4) :
    Address.assign (InetNtop.inetNtop4 x) = .ok ⟨mapped4 x⟩ :=
  assign_of_pton4 (zero_notMem_of_textChars fun _ => ntop4_textChar law)
    (colon_notMem_ntop4 law x) (law.pton_ntop4 x)

/-- **Round trip** of an IPv6 address. -/
theorem assign_ntop6 (x : In6Addr) : Address.assign (InetNtop.inetNtop6 x) = .ok ⟨x⟩ :=
  assign_of_pton6 (zero_notMem_of_textChars (law.ntop6_chars x)) (law.ntop6_colon x)
    (law.pton_ntop6 x)

/-! ### The texts of an address -/

omit [Libc] law in
/-- `as4` writes the last four bytes of a mapped address. -/
theorem as4_eq {a : Address} {x : Vector UInt8 4} (h : a.address = mapped4 x) :
    a.as4 = .ok (InetNtop.inetNtop4 x) := by
  have h4 : a.is4 = true := is4_iff.mpr ⟨x, h⟩
  unfold Address.as4
  rw [h4, h]
  show Except.ok (InetNtop.inetNtop4 #v[x.get 0, x.get 1, x.get 2, x.get 3]) = _
  rw [eta4]

omit law in
/-- A text that is read back as the address, with what the block methods make of it: the program
of the command, and what stands around the text in the line. -/
structure Texts (a : Address) (program before after text : Bytes) : Prop where
  cstr_program : cstr program = program
  asString : a.asString = .ok text
  assign : Address.assign text = .ok a
  chars : ∀ c ∈ text, IsTextChar c
  command : BlockIptables.command a = .ok (rejectCommand program text)
  line : BlockHostsDeny.line a = .ok (lit "ALL: " ++ before ++ text ++ after ++ [nl])

/-- An address in `::ffff:0:0/96`. -/
theorem texts4 {a : Address} {x : Vector UInt8 4} (h : a.address = mapped4 x) :
    Texts a (lit "iptables") [] [] (InetNtop.inetNtop4 x) := by
  have h4 : a.is4 = true := is4_iff.mpr ⟨x, h⟩
  have hstring : a.asString = .ok (InetNtop.inetNtop4 x) := by
    unfold Address.asString
    rw [if_pos h4, as4_eq h]
  have hchars : ∀ c ∈ InetNtop.inetNtop4 x, IsTextChar c := fun _ => ntop4_textChar law
  refine ⟨rfl, hstring, ?_, hchars, ?_, ?_⟩
  · obtain ⟨address⟩ := a
    -- The text has no colon, so that it is read as an IPv4 address.
    rw [assign_ntop4 law]
    exact congrArg (fun y => Except.ok (Address.mk y)) h.symm
  · unfold BlockIptables.command
    rw [hstring, h4]
    rfl
  · unfold BlockHostsDeny.line
    rw [if_pos h4, as4_eq h]
    show Except.ok (lit "ALL: " ++ cstr (InetNtop.inetNtop4 x) ++ [nl]) = _
    rw [cstr_eq_self (zero_notMem_of_textChars hchars), List.append_nil, List.append_nil]

/-- Any other address. -/
theorem texts6 {a : Address} (h : a.is4 = false) :
    Texts a (lit "ip6tables") (lit "[") (lit "]") a.as6 := by
  have hstring : a.asString = .ok a.as6 := by
    unfold Address.asString
    rw [if_neg (by rw [h]; decide)]
  have hchars : ∀ c ∈ a.as6, IsTextChar c := law.ntop6_chars a.address
  refine ⟨rfl, hstring, assign_ntop6 law a.address, hchars, ?_, ?_⟩
  · unfold BlockIptables.command
    rw [hstring, h]
    rfl
  · unfold BlockHostsDeny.line
    rw [if_neg (by rw [h]; decide), cstr_eq_self (zero_notMem_of_textChars hchars)]
    simp only [List.append_assoc]
    rfl

/-- Every address has a text. -/
theorem exists_texts (a : Address) : ∃ program before after text,
    Texts a program before after text := by
  cases h4 : a.is4 with
  | true =>
    obtain ⟨x, hx⟩ := is4_iff.mp h4
    exact ⟨_, _, _, _, texts4 law hx⟩
  | false => exact ⟨_, _, _, _, texts6 law h4⟩

/-- The text is that of one address. -/
theorem asString_inj {a b : Address} : a.asString = b.asString ↔ a.address = b.address := by
  constructor
  · intro h
    obtain ⟨_, _, _, text, ha⟩ := exists_texts law a
    obtain ⟨_, _, _, text', hb⟩ := exists_texts law b
    -- Equal texts are read back as one address.
    have htext : text = text' := by
      rw [ha.asString, hb.asString] at h
      exact Except.ok.inj h
    have hassign := ha.assign
    rw [htext, hb.assign] at hassign
    exact congrArg Address.address (Except.ok.inj hassign).symm
  · intro h
    obtain ⟨x⟩ := a
    obtain ⟨y⟩ := b
    exact congrArg (fun z => Address.asString ⟨z⟩) h

end

/-! ### One implementation -/

/-- A property of all bytes can be tested. -/
theorem forall_byte {p : UInt8 → Bool}
    (h : (List.range 256).all (fun n => p (UInt8.ofNat n)) = true) (c : UInt8) : p c = true := by
  have hc := List.all_eq_true.mp h c.toNat (List.mem_range.mpr c.toNat_lt)
  rwa [UInt8.ofNat_toNat] at hc

/-- An octet is read back. -/
theorem octet_octetText (c : UInt8) : octet (octetText c) = some c :=
  eq_of_beq (@forall_byte (fun c => octet (octetText c) == some c) (by decide +kernel) c)

/-- It is written in decimal digits. -/
theorem octetText_digits (c : UInt8) : ∀ d ∈ octetText c, isDigit d = true :=
  List.all_eq_true.mp (@forall_byte (fun c => (octetText c).all isDigit) (by decide +kernel) c)

/-- A byte is written in lower case hexadecimal digits. -/
theorem hexText_digits (c : UInt8) : ∀ d ∈ hexText c, isLowerHex d = true :=
  List.all_eq_true.mp (@forall_byte (fun c => (hexText c).all isLowerHex) (by decide +kernel) c)

/-- It is read back from its two digits. -/
theorem hexByte_hexText (c : UInt8) :
    hexByte (digit (c.toNat / 16)) (digit (c.toNat % 16)) = some c :=
  eq_of_beq (@forall_byte (fun c => hexByte (digit (c.toNat / 16)) (digit (c.toNat % 16)) == some c)
    (by decide +kernel) c)

/-- A group of two bytes is read back. -/
theorem group_hexText (a b : UInt8) : group (hexText a ++ hexText b) = some (a, b) := by
  show (hexByte _ _ >>= fun x => hexByte _ _ >>= fun y => some (x, y)) = _
  rw [hexByte_hexText, hexByte_hexText]
  rfl

/-- A separator is no digit. -/
theorem notMem_of_digits {s : Bytes} {c : UInt8} (h : ∀ d ∈ s, isLowerHex d = true)
    (hc : isLowerHex c = false) : c ∉ s := by
  intro hmem
  rw [h c hmem] at hc
  cases hc

/-- Decimal digits are hexadecimal ones. -/
theorem isLowerHex_of_isDigit {c : UInt8} (h : isDigit c = true) : isLowerHex c = true := by
  unfold isLowerHex
  rw [h]
  rfl

/-- Four octets are read back. -/
theorem dottedQuad_quadText (x : Vector UInt8 4) : dottedQuad (quadText x) = some x := by
  have hparts : ∀ part ∈ x.toList.map octetText, chr '.' ∉ part := by
    intro part hpart
    obtain ⟨c, -, rfl⟩ := List.mem_map.mp hpart
    exact notMem_of_digits (fun d hd => isLowerHex_of_isDigit (octetText_digits c d hd)) (by decide)
  have hlist : x.toList = [x.get 0, x.get 1, x.get 2, x.get 3] := by
    conv_lhs => rw [← eta4 x]
    rfl
  unfold dottedQuad quadText
  rw [List.splitOn_intercalate _ hparts (by rw [hlist]; simp), hlist]
  -- Each part is read back on its own.
  simp only [List.map_cons, List.map_nil, octet_octetText]
  exact congrArg some (eta4 x)

/-- The groups of a text. -/
theorem groups_digits {x : Vector UInt8 16} {part : Bytes}
    (h : part ∈ [hexText (x.get 0) ++ hexText (x.get 1), hexText (x.get 2) ++ hexText (x.get 3),
      hexText (x.get 4) ++ hexText (x.get 5), hexText (x.get 6) ++ hexText (x.get 7),
      hexText (x.get 8) ++ hexText (x.get 9), hexText (x.get 10) ++ hexText (x.get 11),
      hexText (x.get 12) ++ hexText (x.get 13), hexText (x.get 14) ++ hexText (x.get 15)]) :
    ∀ d ∈ part, isLowerHex d = true := by
  have hgroup : ∀ a b : UInt8, ∀ d ∈ hexText a ++ hexText b, isLowerHex d = true := by
    intro a b d hd
    obtain hd | hd := List.mem_append.mp hd
    · exact hexText_digits a d hd
    · exact hexText_digits b d hd
  simp only [List.mem_cons, List.not_mem_nil, or_false] at h
  rcases h with rfl | rfl | rfl | rfl | rfl | rfl | rfl | rfl <;> exact hgroup _ _

/-- Eight groups are read back. -/
theorem fullGroups_groupsText (x : Vector UInt8 16) : fullGroups (groupsText x) = some x := by
  have hparts : ∀ part ∈ [hexText x[0] ++ hexText x[1], hexText x[2] ++ hexText x[3],
      hexText x[4] ++ hexText x[5], hexText x[6] ++ hexText x[7],
      hexText x[8] ++ hexText x[9], hexText x[10] ++ hexText x[11],
      hexText x[12] ++ hexText x[13], hexText x[14] ++ hexText x[15]], chr ':' ∉ part :=
    fun part hpart => notMem_of_digits (groups_digits hpart) (by decide)
  unfold fullGroups groupsText
  rw [List.splitOn_intercalate _ hparts (by simp)]
  simp only [List.map_cons, List.map_nil, group_hexText]
  refine congrArg some (Vector.ext fun i hi => ?_)
  interval_cases i <;> rfl

/-- What is in joined parts is in one of them, or it is the separator. -/
theorem mem_intercalate {sep c : UInt8} {parts : List Bytes} (h : c ∈ [sep].intercalate parts) :
    c = sep ∨ ∃ part ∈ parts, c ∈ part := by
  induction parts with
  | nil => cases h
  | cons part parts ih =>
    cases parts with
    | nil =>
      rw [List.intercalate_singleton] at h
      exact .inr ⟨part, List.mem_cons_self, h⟩
    | cons part' parts =>
      rw [List.intercalate_cons_cons, List.mem_append, List.mem_append,
        List.mem_singleton] at h
      rcases h with (h | h) | h
      · exact .inr ⟨part, List.mem_cons_self, h⟩
      · exact .inl h
      · obtain hsep | ⟨p, hp, hc⟩ := ih h
        · exact .inl hsep
        · exact .inr ⟨p, List.mem_cons_of_mem part hp, hc⟩

/-- The two functions of this text format keep the law. -/
theorem lawfulNtop_withGroups : @LawfulNtop Libc.withGroups InetNtop.withGroups := by
  refine @LawfulNtop.mk Libc.withGroups InetNtop.withGroups dottedQuad_quadText
    fullGroups_groupsText ?_ ?_ ?_
  · intro x c hc
    obtain hdot | ⟨part, hpart, hmem⟩ := mem_intercalate hc
    · exact .inr hdot
    · obtain ⟨b, -, rfl⟩ := List.mem_map.mp hpart
      exact .inl (octetText_digits b c hmem)
  · intro x c hc
    obtain hcolon | ⟨part, hpart, hmem⟩ := mem_intercalate hc
    · exact .inr (.inr hcolon)
    · exact .inl (groups_digits hpart c hmem)
  · intro x
    show chr ':' ∈ groupsText x
    unfold groupsText
    rw [List.intercalate_cons_cons]
    simp

end Blockad.Proofs
