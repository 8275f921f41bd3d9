import Mathlib.Data.List.TakeWhile

/-!
# `Blockad.Lib.Bytes`: byte strings, their C view and their lines

A `std::string` holds any bytes, NUL included. A C function that gets its `c_str()` sees
the bytes before the first NUL only (`cstr`). The character classes are those of the C
locale. `lines` splits a text into its lines, the way a line reader does: a non-empty
unterminated last line counts, and nothing follows a final newline.

Nothing here is about one program.
-/

set_option autoImplicit false

/-- The contents of a `std::string`. -/
abbrev Bytes := List UInt8

namespace Bytes

/-- The byte of a C character constant. -/
def chr (c : Char) : UInt8 := c.toNat.toUInt8

/-- The bytes of a C string literal. -/
def lit (s : String) : Bytes := s.toList.map chr

/-- The newline byte. -/
def nl : UInt8 := 10

/-- The decimal digits of a number. -/
def ofNat (n : Nat) : Bytes := lit (toString n)

/-! ### The C view -/

/-- The bytes a C function sees of `s.c_str()`. -/
def cstr (s : Bytes) : Bytes := s.takeWhile (· != 0)

/-- Without a NUL, the C view is the whole string. -/
theorem cstr_eq_self {s : Bytes} (h : 0 ∉ s) : cstr s = s := by
  unfold cstr
  rw [List.takeWhile_eq_self_iff]
  intro c hc
  simpa using fun h0 : c = 0 => h (h0 ▸ hc)

/-- The C view is never longer than the string. -/
theorem length_cstr_le (s : Bytes) : (cstr s).length ≤ s.length :=
  (List.takeWhile_prefix _).length_le

/-- The C view has no NUL. -/
theorem zero_notMem_cstr (s : Bytes) : 0 ∉ cstr s := by
  intro h
  simpa using List.mem_takeWhile_imp h

/-! ### Searching -/

/-- The position of the first `c` splits the string there. -/
theorem exists_of_idxOf?_eq_some {s : Bytes} {c : UInt8} {i : Nat} (h : s.idxOf? c = some i) :
    ∃ before after, s = before ++ c :: after ∧ before.length = i ∧ c ∉ before := by
  obtain ⟨hi, hc, hfirst⟩ := List.idxOf?_eq_some_iff.mp h
  refine ⟨s.take i, s.drop (i + 1), ?_, ?_, ?_⟩
  · rw [← hc, ← List.drop_eq_getElem_cons hi, List.take_append_drop]
  · rw [List.length_take]
    omega
  · intro hmem
    obtain ⟨j, hj, hji⟩ := List.getElem_of_mem hmem
    rw [List.getElem_take] at hji
    rw [List.length_take] at hj
    exact hfirst j (by omega) hji

/-! ### Character classes of the C locale -/

/-- `isspace`. -/
def isSpace (c : UInt8) : Bool := c == chr ' ' || (chr '\t' ≤ c && c ≤ chr '\r')

/-- `isdigit`. -/
def isDigit (c : UInt8) : Bool := chr '0' ≤ c && c ≤ chr '9'

/-- `isxdigit`. -/
def isXDigit (c : UInt8) : Bool :=
  isDigit c || (chr 'a' ≤ c && c ≤ chr 'f') || (chr 'A' ≤ c && c ≤ chr 'F')

/-! ### Lines -/

/-- The lines of `text`, when `line` was read already. -/
def linesFrom (line : Bytes) : Bytes → List Bytes
  | [] => if line.isEmpty then [] else [line]
  | c :: text => if c == nl then line :: linesFrom [] text else linesFrom (line ++ [c]) text

/-- The lines of a text, without their newlines. -/
def lines (text : Bytes) : List Bytes := linesFrom [] text

/-- At the end, a line that was begun is the last one. -/
@[simp] theorem linesFrom_nil (line : Bytes) :
    linesFrom line [] = if line.isEmpty then [] else [line] := rfl

/-- A newline ends the line, and any other byte belongs to it. -/
theorem linesFrom_cons (line : Bytes) (c : UInt8) (text : Bytes) :
    linesFrom line (c :: text)
      = if c == nl then line :: linesFrom [] text else linesFrom (line ++ [c]) text := rfl

/-- A line has no newline. -/
theorem nl_notMem_of_mem_linesFrom {line line' text : Bytes} (hline : nl ∉ line)
    (h : line' ∈ linesFrom line text) : nl ∉ line' := by
  induction text generalizing line with
  | nil =>
    rw [linesFrom_nil] at h
    split at h
    · cases h
    · rwa [List.mem_singleton.mp h]
  | cons c text ih =>
    rw [linesFrom_cons] at h
    split at h
    · rcases List.mem_cons.mp h with rfl | h
      · exact hline
      · exact ih List.not_mem_nil h
    · rename_i hc
      refine ih ?_ h
      simpa [hline] using fun heq : nl = c => hc (by simp [heq])

/-- A line with its newline is a text of one line. -/
theorem linesFrom_append_nl {line text : Bytes} (h : nl ∉ text) :
    linesFrom line (text ++ [nl]) = [line ++ text] := by
  induction text generalizing line with
  | nil => simp [linesFrom_cons]
  | cons c text ih =>
    have hc : (c == nl) = false := by simpa using fun heq : c = nl => h (by simp [heq])
    rw [List.cons_append, linesFrom_cons, hc]
    exact (ih fun hmem => h (List.mem_cons_of_mem c hmem)).trans (by simp)

end Bytes
