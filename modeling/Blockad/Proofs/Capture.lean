import Blockad.Model.BlockingWatcher
import Blockad.Proofs.ConfFile

/-!
# `Blockad.Proofs.Capture`: when the capture of a match can be taken

`processLine` indexes the table of a match with the capture number of its pattern, without
a check of its own. The configuration reader has checked the number against the groups of
the pattern. But `Regex::execute` knows 64 groups only, and it strips the unused entries at
the end of its table, so the entry may be missing, or hold `-1`.

* `getElem?_stripUnused`: stripping keeps an entry in use where it is.
* `execute_eq_some_iff`: the table of a match, from the groups that took part in it.
* `capture_inRange_iff`: the entry is there and spans a part of the line exactly when the
  group is among the first 64 and took part in the match.
* `capturedText_of_inRange`: then `processLine` takes the captured text out of the line.
-/

set_option autoImplicit false

namespace Blockad.Proofs

open Bytes ConfFile BlockingWatcher

/-- The entry of the capture is in the table and spans a part of the line. -/
def CaptureInRange (ms : List RegMatch) (capture : Nat) (line : Bytes) : Prop :=
  ∃ m, ms[capture]? = some m ∧ 0 ≤ m.rmSo ∧ m.rmSo ≤ m.rmEo ∧ m.rmEo ≤ line.length

/-- Stripping the table keeps an entry in use where it is. -/
theorem getElem?_stripUnused (ms : List RegMatch) (i : Nat) (m : RegMatch) (hused : m.rmSo ≠ -1) :
    (Regex.stripUnused ms)[i]? = some m ↔ ms[i]? = some m := by
  have happend :=
    List.rdropWhile_append_rtakeWhile (p := fun m : RegMatch => m.rmSo == -1) (l := ms)
  unfold Regex.stripUnused
  set kept := ms.rdropWhile fun m => m.rmSo == -1 with hkept
  set dropped := ms.rtakeWhile fun m => m.rmSo == -1 with hdropped
  rw [← happend]
  by_cases hi : i < kept.length
  · rw [List.getElem?_append_left hi]
  · -- An entry that is dropped is not in use.
    rw [List.getElem?_append_right (by omega), List.getElem?_eq_none (by omega)]
    refine ⟨nofun, fun h => absurd ?_ hused⟩
    have hmem : m ∈ ms.rtakeWhile fun m => m.rmSo == -1 := hdropped ▸ List.mem_of_getElem? h
    simpa using List.mem_rtakeWhile_imp hmem

/-- An entry in use of the stripped table stands for a group that took part. -/
theorem exists_span_of_ofGroup {n : Nat} {group : Option (Span n)}
    (h : (RegMatch.ofGroup group).rmSo ≠ -1) : ∃ span, group = some span := by
  cases group with
  | none => exact absurd rfl h
  | some span => exact ⟨span, rfl⟩

/-- The table before it is stripped. -/
theorem getElem?_table {n i : Nat} {group : Nat → Option (Span n)} {m : RegMatch} :
    ((List.range 64).map fun i => RegMatch.ofGroup (group i))[i]? = some m ↔
      i < 64 ∧ RegMatch.ofGroup (group i) = m := by
  rw [List.getElem?_map]
  by_cases hi : i < 64
  · simp [hi]
  · simp [hi]

/-- An entry in range of the stripped table stands for one of the first 64 groups. -/
theorem exists_span_of_inRange {n capture : Nat} {group : Nat → Option (Span n)} {line : Bytes}
    (h : CaptureInRange
      (Regex.stripUnused ((List.range 64).map fun i => RegMatch.ofGroup (group i))) capture line) :
    capture < 64 ∧ ∃ span, group capture = some span ∧
      (Regex.stripUnused ((List.range 64).map fun i => RegMatch.ofGroup (group i)))[capture]?
        = some ⟨span.so, span.eo⟩ := by
  -- An offset that is not negative marks an entry in use.
  obtain ⟨entry, hentry, hpos, -⟩ := h
  have htable := hentry
  rw [getElem?_stripUnused _ _ _ (by omega), getElem?_table] at htable
  obtain ⟨hlt, rfl⟩ := htable
  have hused : (RegMatch.ofGroup (group capture)).rmSo ≠ -1 := by omega
  obtain ⟨span, hspan⟩ := exists_span_of_ofGroup hused
  rw [hspan] at hentry
  exact ⟨hlt, span, hspan, hentry⟩

variable [Libc]

/-- The table of a match. -/
theorem execute_eq_some_iff {r : Regex} {line : Bytes} {ms : List RegMatch} :
    r.execute line = some ms ↔ ∃ group, Libc.groups r.preg (cstr line) 0 = some group ∧
      Regex.stripUnused ((List.range 64).map fun i => RegMatch.ofGroup (group i)) = ms := by
  rw [Regex.execute, regexec, Option.map_map, Option.map_eq_some_iff]
  rfl

/-- The group took part in the match that `regexec` finds on the line. -/
def TookPart (r : Regex) (line : Bytes) (n : Nat) : Prop :=
  ∃ group span, Libc.groups r.preg (cstr line) 0 = some group ∧ group n = some span

/-- **When a capture can be taken.** A pattern of an accepted configuration names one of its
own groups. Its entry in the table of a match is there and spans a part of the line exactly
when the group is one of the first 64 and took part in the match. -/
theorem capture_inRange_iff {path : Bytes} {file : FileContent} {cf : ConfFile}
    (h : construct path file = .ok cf) {m : Match} (hm : m ∈ cf.patterns) :
    (1 ≤ m.capture ∧ m.capture ≤ m.regex.captures) ∧
      ∀ line ms, m.regex.execute line = some ms →
        (CaptureInRange ms m.capture line ↔ m.capture < 64 ∧ TookPart m.regex line m.capture) := by
  refine ⟨(valid_construct h).captures m hm, ?_⟩
  intro line ms hex
  obtain ⟨group, hgroup, rfl⟩ := execute_eq_some_iff.mp hex
  constructor
  · intro hrange
    obtain ⟨hlt, span, hspan, -⟩ := exists_span_of_inRange hrange
    exact ⟨hlt, group, span, hgroup, hspan⟩
  · rintro ⟨hlt, group', span, hgroup', hspan⟩
    obtain rfl : group' = group := Option.some.inj (hgroup'.symm.trans hgroup)
    refine ⟨RegMatch.ofGroup (some span), ?_, ?_, ?_, ?_⟩
    · rw [getElem?_stripUnused _ _ _ (by simp [RegMatch.ofGroup]), getElem?_table, hspan]
      exact ⟨hlt, rfl⟩
    · simp [RegMatch.ofGroup]
    · simpa [RegMatch.ofGroup] using span.so_le_eo
    · -- `regexec` sees the line up to its first NUL only.
      have hle := length_cstr_le line
      have heo := span.eo_le
      simp only [RegMatch.ofGroup]
      omega

section
omit [Libc]

/-- A library that matches `(a)|(b)` against texts that begin with the match. -/
abbrev alternation : Libc := Libc.ofGroups 2 fun s =>
  match s with
  | [] => none
  | c :: _ =>
    let span : Span _ := ⟨0, 1, by simp, by simp⟩
    if c == chr 'a' then some fun i => if i = 0 ∨ i = 1 then some span else none
    else if c == chr 'b' then some fun i => if i = 0 ∨ i = 2 then some span else none
    else none

/-- The directive `address '(a)|(b)' 2`. -/
def alternationText : Bytes := lit "address '(a)|(b)' 2"

/-- The configuration that it makes. -/
def alternationConfig : @ConfFile alternation :=
  letI := alternation
  { initial (lit "blockad.conf") with patterns := [⟨⟨(), regExtended⟩, 2⟩], lineno := 1 }

/-- A configuration with a group that need not take part in a match. -/
theorem construct_alternation :
    letI := alternation
    construct (lit "blockad.conf") (.ok (alternationText, none)) = .ok alternationConfig := by
  let _ := alternation
  have hlines : lines alternationText = [alternationText] := by decide
  rw [construct_eq_parseLines, hlines, parseLines, parseLine,
    Tokenizer.splitLine_eq_run]
  rfl

/-- A line that matches by the other branch. -/
theorem capture_inRange_iff_alternation :
    letI := alternation
    (1 ≤ 2 ∧ 2 ≤ 2) ∧ ∀ line ms, Regex.execute ⟨(), regExtended⟩ line = some ms →
      (CaptureInRange ms 2 line ↔ 2 < 64 ∧ TookPart ⟨(), regExtended⟩ line 2) := by
  let _ := alternation
  exact capture_inRange_iff construct_alternation (m := ⟨⟨(), regExtended⟩, 2⟩)
    List.mem_cons_self

/-- The line `a` matches, but its table has no entry 2: `processLine` reads past the end of
the vector. -/
theorem not_captureInRange_alternation :
    letI := alternation
    construct (lit "blockad.conf") (.ok (alternationText, none)) = .ok alternationConfig ∧
      Regex.execute ⟨(), regExtended⟩ (lit "a") = some [⟨0, 1⟩, ⟨0, 1⟩] ∧
      ¬ CaptureInRange [⟨0, 1⟩, ⟨0, 1⟩] 2 (lit "a") ∧
      capturedText (lit "a") [⟨0, 1⟩, ⟨0, 1⟩] 2 = .error .undefined := by
  refine ⟨construct_alternation, by decide, ?_, rfl⟩
  rintro ⟨m, hm, -⟩
  cases hm

end

omit [Libc] in
/-- A capture in range is taken out of the line. -/
theorem capturedText_of_inRange {ms : List RegMatch} {capture : Nat} {line : Bytes}
    (h : CaptureInRange ms capture line) : ∃ text, capturedText line ms capture = .ok text := by
  obtain ⟨m, hm, hpos, hle, hlen⟩ := h
  have hso : (decide (m.rmSo < 0) || decide ((line.length : Int) < m.rmSo)) = false := by
    simp; omega
  rw [capturedText, hm]
  dsimp only
  rw [hso]
  exact ⟨_, rfl⟩

end Blockad.Proofs
