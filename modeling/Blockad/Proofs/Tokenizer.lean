import Blockad.Model.ConfFile

/-!
# `Blockad.Proofs.Tokenizer`: the line splitter as an automaton

`ConfFile::splitLine` and `ConfFile::parseString` are nested loops that share a position.
`Tokenizer.run` states what they do one byte at a time: a state says where in a token the
reader is, `step` reads one byte, and `finish` says what the end of the line means there.

* `splitLine_eq_run`: the loops compute the run of the automaton from `gap`.
* `splitLine_eq_outOfRange_iff`: the run of a line ends inside an escape exactly when
  `splitLine` throws `std::out_of_range`. The sources mean to report such a line as
  "unterminated escape sequence", but test the position with `>` where `>=` is needed.
* `splitLine_cases`: every other failure is a `SyntaxError` at the current line.

`hex` and `octal` hold the value of the digits read so far. The byte after them either
continues the escape or is read as if the escape had ended before it (`quoted`).
-/

set_option autoImplicit false

namespace Blockad.Proofs

open Bytes ConfFile

namespace Tokenizer

/-- Where in a line the reader is. `q` is the quote that closes the current string, and
`bit` what was decoded of the current token. -/
inductive Mode where
  | gap
  | word (bit : Bytes)
  | quoted (q : UInt8) (bit : Bytes)
  | escape (q : UInt8) (bit : Bytes)
  | hex (q : UInt8) (bit : Bytes) (value : Nat)
  | octal (q : UInt8) (bit : Bytes) (value : Nat) (digits : Nat)
  | comment
  deriving DecidableEq, Repr

/-- One byte between tokens. -/
def gapStep (c : UInt8) : Mode :=
  if c == chr '#' then .comment
  else if c == chr ' ' then .gap
  else if c == chr '"' || c == chr '\'' then .quoted c []
  else .word [c]

/-- One byte inside quotes: the finished tokens and the next mode. -/
def quotedStep (bits : List Bytes) (q : UInt8) (bit : Bytes) (c : UInt8) : List Bytes × Mode :=
  if c == q then (bits ++ [bit], .gap)
  else if c != chr '\\' || q == chr '\'' then (bits, .quoted q (bit ++ [c]))
  else (bits, .escape q bit)

/-- One byte after a backslash. -/
def escapeStep (q : UInt8) (bit : Bytes) (c : UInt8) : Except Bytes Mode :=
  match namedEscapes.lookup c with
  | some e => .ok (.quoted q (bit ++ [e]))
  | none =>
    if c == chr 'x' then .ok (.hex q bit 0)
    else if isOctal c then .ok (.octal q bit (c - chr '0').toNat 1)
    else .error (lit "unrecognized escape sequence")

/-- One byte: the finished tokens and the next mode, or the message of the syntax error. -/
def step (bits : List Bytes) : Mode → UInt8 → Except Bytes (List Bytes × Mode)
  | .gap, c => .ok (bits, gapStep c)
  | .word bit, c =>
    if c == chr ' ' then .ok (bits ++ [bit], .gap) else .ok (bits, .word (bit ++ [c]))
  | .quoted q bit, c => .ok (quotedStep bits q bit c)
  | .escape q bit, c => (escapeStep q bit c).map fun mode => (bits, mode)
  | .hex q bit value, c =>
    if isXDigit c then
      if 16 * value + decodeHex c > 255 then
        .error (lit "hexadeciaml escape sequence out of range")
      else .ok (bits, .hex q bit (16 * value + decodeHex c))
    else .ok (quotedStep bits q (bit ++ [UInt8.ofNat value]) c)
  | .octal q bit value digits, c =>
    if isOctal c then
      -- The range is checked after the third digit; two digits are always in range.
      if digits < 2 then .ok (bits, .octal q bit (value * 8 + (c - chr '0').toNat) (digits + 1))
      else if value * 8 + (c - chr '0').toNat > 255 then
        .error (lit "octal escape sequence out of range")
      else .ok (bits, .quoted q (bit ++ [UInt8.ofNat (value * 8 + (c - chr '0').toNat)]))
    else .ok (quotedStep bits q (bit ++ [UInt8.ofNat value]) c)
  | .comment, _ => .ok (bits, .comment)

/-- Where the reader stands after the rest of a line, unless it fails before. -/
def reach (bits : List Bytes) (mode : Mode) : Bytes → Option (List Bytes × Mode)
  | [] => some (bits, mode)
  | c :: rest =>
    match step bits mode c with
    | .error _ => none
    | .ok (bits, mode) => reach bits mode rest

variable [Libc]

/-- The end of the line. -/
def finish (cf : ConfFile) (bits : List Bytes) : Mode → Except Exn (List Bytes)
  | .gap => .ok bits
  | .word bit => .ok (bits ++ [bit])
  | .comment => .ok bits
  | .escape _ _ => .error .outOfRange
  | _ => .error (cf.syntaxError (lit "unterminated string literal"))

/-- The rest of a line. -/
def run (cf : ConfFile) (bits : List Bytes) (mode : Mode) : Bytes → Except Exn (List Bytes)
  | [] => finish cf bits mode
  | c :: rest =>
    match step bits mode c with
    | .error message => .error (cf.syntaxError message)
    | .ok (bits, mode) => run cf bits mode rest

variable (cf : ConfFile) (bits : List Bytes)

/-- At the end of the line. -/
@[simp] theorem run_nil (mode : Mode) : run cf bits mode [] = finish cf bits mode := rfl

/-- One more byte. -/
theorem run_cons (mode : Mode) (c : UInt8) (rest : Bytes) :
    run cf bits mode (c :: rest) = match step bits mode c with
      | .error message => .error (cf.syntaxError message)
      | .ok (bits, mode) => run cf bits mode rest := rfl

/-- A comment goes on to the end of the line. -/
@[simp] theorem run_comment (rest : Bytes) : run cf bits .comment rest = .ok bits := by
  induction rest with
  | nil => rfl
  | cons c rest ih => rw [run_cons]; exact ih

/-- Spaces between tokens. -/
@[simp] theorem run_gap_space (rest : Bytes) :
    run cf bits .gap (chr ' ' :: rest) = run cf bits .gap rest := rfl

/-- A byte that is no digit ends a hex escape before it. -/
theorem run_hex_cons {q c : UInt8} {bit rest : Bytes} {value : Nat} (hc : isXDigit c = false) :
    run cf bits (.hex q bit value) (c :: rest)
      = run cf bits (.quoted q (bit ++ [UInt8.ofNat value])) (c :: rest) := by
  simp [run_cons, step, hc]

/-- A byte that is no octal digit ends an octal escape before it. -/
theorem run_octal_cons {q c : UInt8} {bit rest : Bytes} {value digits : Nat}
    (hc : isOctal c = false) :
    run cf bits (.octal q bit value digits) (c :: rest)
      = run cf bits (.quoted q (bit ++ [UInt8.ofNat value])) (c :: rest) := by
  simp [run_cons, step, hc]

/-! ### The loops compute the run -/

section
variable (line : Bytes)

omit [Libc] in
/-- The bytes from a position inside the line on. -/
theorem drop_eq_cons {pos : Nat} (h : pos < line.length) :
    line.drop pos = (line)[pos] :: line.drop (pos + 1) :=
  List.drop_eq_getElem_cons h

/-- An unquoted token, up to the space that ends it. -/
theorem run_word (pos : Nat) (bit : Bytes) :
    run cf bits (.word bit) (line.drop pos)
      = run cf (bits ++ [(wordLoop line pos bit).2]) .gap
          (line.drop (wordLoop line pos bit).1) := by
  fun_induction wordLoop line pos bit with
  | case1 pos bit hlt hne ih =>
    have hc : ((line)[pos] == chr ' ') = false := by simpa using hne
    rw [drop_eq_cons line hlt, run_cons, step, hc]
    exact ih
  | case2 pos bit hlt hspace =>
    have hc : (line)[pos] = chr ' ' := by simpa using hspace
    rw [drop_eq_cons line hlt, hc, run_gap_space, run_cons, step]
    rfl
  | case3 pos bit hge =>
    rw [List.drop_eq_nil_of_le (by omega)]
    rfl

/-- A hex escape, up to the first byte that is no digit. -/
theorem run_hex (q : UInt8) (bit : Bytes) (pos value : Nat) :
    run cf bits (.hex q bit value) (line.drop pos)
      = match hexLoop cf line pos value with
        | .error e => .error e
        | .ok (v, pos') => run cf bits (.quoted q (bit ++ [UInt8.ofNat v])) (line.drop pos') := by
  fun_induction hexLoop cf line pos value with
  | case1 pos value hlt ch hdigit =>
    dsimp only
    rw [drop_eq_cons line hlt, run_hex_cons cf bits (by simpa using hdigit)]
  | case2 pos value hlt ch hdigit value' hbig =>
    have hc : isXDigit (line)[pos] = true := by simpa using hdigit
    rw [drop_eq_cons line hlt, run_cons, step, if_pos hc, if_pos hbig]
  | case3 pos value hlt ch hdigit value' hsmall ih =>
    have hc : isXDigit (line)[pos] = true := by simpa using hdigit
    rw [drop_eq_cons line hlt, run_cons, step, if_pos hc, if_neg hsmall]
    exact ih
  | case4 pos value hge =>
    dsimp only
    rw [List.drop_eq_nil_of_le (by omega)]
    rfl

omit [Libc] in
/-- No octal digit at a position: the line ends there, or another byte stands there. -/
theorem octalDigit_eq_none {pos : Nat} (h : octalDigit line pos = none) :
    line.drop pos = [] ∨ ∃ hlt : pos < line.length, isOctal (line)[pos] = false := by
  unfold octalDigit at h
  split at h
  · rename_i ch hget
    obtain ⟨hlt, rfl⟩ := List.getElem?_eq_some_iff.mp hget
    exact .inr ⟨hlt, by simpa using h⟩
  · rename_i hget
    exact .inl (List.drop_eq_nil_of_le (List.getElem?_eq_none_iff.mp hget))

omit [Libc] in
/-- An octal digit at a position. -/
theorem octalDigit_eq_some {pos d : Nat} (h : octalDigit line pos = some d) :
    ∃ hlt : pos < line.length, isOctal (line)[pos] = true ∧ d = ((line)[pos] - chr '0').toNat := by
  unfold octalDigit at h
  split at h
  · rename_i ch hget
    obtain ⟨hlt, rfl⟩ := List.getElem?_eq_some_iff.mp hget
    split at h <;> cases h
    exact ⟨hlt, ‹_›, rfl⟩
  · cases h

/-- Without a further digit, an octal escape of one or two digits ends. -/
theorem run_octal_stop {pos value digits : Nat} {q : UInt8} {bit : Bytes}
    (h : octalDigit line pos = none) :
    run cf bits (.octal q bit value digits) (line.drop pos)
      = run cf bits (.quoted q (bit ++ [UInt8.ofNat value])) (line.drop pos) := by
  rcases octalDigit_eq_none line h with hnil | ⟨hlt, hc⟩
  · rw [hnil]
    rfl
  · rw [drop_eq_cons line hlt, run_octal_cons cf bits hc]

omit [Libc] in
/-- The value of an octal digit. -/
theorem octal_value_lt {c : UInt8} (h : isOctal c = true) :
    (c - chr '0').toNat < 8 := by
  obtain ⟨hlo, hhi⟩ : chr '0' ≤ c ∧ c ≤ chr '7' := by simpa [isOctal] using h
  rw [UInt8.toNat_sub_of_le _ _ hlo]
  have hhi' : c.toNat ≤ 55 := UInt8.le_iff_toNat_le.mp hhi
  show c.toNat - 48 < 8
  omega

/-- An octal escape of one to three digits. Only three digits can be out of range. -/
theorem run_octal {pos value : Nat} {q : UInt8} {bit : Bytes} (hv : value < 8) :
    run cf bits (.octal q bit value 1) (line.drop pos)
      = if (octalLoop line pos value).1 > 255 then
          .error (cf.syntaxError (lit "octal escape sequence out of range"))
        else run cf bits (.quoted q (bit ++ [UInt8.ofNat (octalLoop line pos value).1]))
          (line.drop (octalLoop line pos value).2) := by
  unfold octalLoop
  split
  · rename_i hnone
    rw [if_neg (by dsimp only; omega)]
    exact run_octal_stop cf bits line hnone
  · rename_i d hd
    obtain ⟨hlt, hc, rfl⟩ := octalDigit_eq_some line hd
    have hd8 := octal_value_lt hc
    rw [drop_eq_cons line hlt, run_cons, step, if_pos hc, if_pos (by decide)]
    dsimp only
    split
    · rename_i hnone
      rw [if_neg (by dsimp only; omega)]
      exact run_octal_stop cf bits line hnone
    · rename_i d' hd'
      obtain ⟨hlt', hc', rfl⟩ := octalDigit_eq_some line hd'
      rw [drop_eq_cons line hlt', run_cons, step, if_pos hc', if_neg (by decide)]
      dsimp only
      by_cases hbig : (value * 8 + ((line)[pos] - chr '0').toNat) * 8
          + ((line)[pos + 1] - chr '0').toNat > 255
      · rw [if_pos hbig, if_pos hbig]
      · rw [if_neg hbig, if_neg hbig]

/-- An escape, from the byte after its backslash on. At the end of the line there is no
such byte. -/
theorem run_escape {pos : Nat} {q : UInt8} {bit : Bytes} (hpos : pos ≤ line.length) :
    run cf bits (.escape q bit) (line.drop pos)
      = match escape cf line pos with
        | .error e => .error e
        | .ok (c, pos') => run cf bits (.quoted q (bit ++ [c])) (line.drop pos') := by
  unfold escape
  rw [if_neg (by omega)]
  by_cases hlt : pos < line.length
  · have hat : charAt line pos = .ok (line)[pos] := by
      simp [charAt, List.getElem?_eq_getElem hlt]
    rw [hat, drop_eq_cons line hlt, run_cons, step, escapeStep]
    dsimp only
    cases hnamed : namedEscapes.lookup (line)[pos] with
    | some e => rfl
    | none =>
      dsimp only
      by_cases hx : (line)[pos] == chr 'x'
      · rw [if_pos hx, if_pos hx]
        dsimp only [Except.map]
        rw [run_hex cf bits line]
        cases hexLoop cf line (pos + 1) 0 <;> rfl
      · rw [if_neg hx, if_neg hx]
        by_cases hoct : isOctal (line)[pos] = true
        · rw [if_pos hoct, if_pos hoct]
          dsimp only [Except.map]
          rw [run_octal cf bits line (octal_value_lt hoct)]
          split <;> rfl
        · rw [if_neg hoct, if_neg hoct]
          rfl
  · -- The line stops right after the backslash.
    have hat : charAt line pos = .error .outOfRange := by
      simp [charAt, List.getElem?_eq_none (Nat.le_of_not_lt hlt)]
    rw [hat, List.drop_eq_nil_of_le (by omega)]
    rfl

/-- A quoted string, up to its close quote. -/
theorem run_quoted (q : UInt8) (pos : Nat) (bit : Bytes) :
    run cf bits (.quoted q bit) (line.drop pos)
      = match parseStringLoop cf line q pos bit with
        | .error e => .error e
        | .ok (pos', bit') => run cf (bits ++ [bit']) .gap (line.drop pos') := by
  -- The automaton makes the same case distinction byte by byte; only an escape takes several.
  fun_induction parseStringLoop cf line q pos bit with
  | case1 pos bit hlt ch hq =>
    rw [drop_eq_cons line hlt, run_cons, step, quotedStep, if_pos hq]
  | case2 pos bit hlt ch hq hplain ih =>
    rw [drop_eq_cons line hlt, run_cons, step, quotedStep, if_neg hq, if_pos hplain]
    exact ih
  | case3 pos bit hlt ch hq hplain e hesc =>
    rw [drop_eq_cons line hlt, run_cons, step, quotedStep, if_neg hq, if_neg hplain]
    dsimp only
    rw [run_escape cf bits line hlt, hesc]
  | case4 pos bit hlt ch hq hplain c p hesc ih =>
    rw [drop_eq_cons line hlt, run_cons, step, quotedStep, if_neg hq, if_neg hplain]
    dsimp only
    rw [run_escape cf bits line hlt, hesc]
    exact ih
  | case5 pos bit hge =>
    rw [List.drop_eq_nil_of_le (by omega)]
    rfl

/-- The loop of `splitLine` computes the run from a token position. -/
theorem splitLineLoop_eq_run (pos : Nat) :
    splitLineLoop cf line pos bits = run cf bits .gap (line.drop pos) := by
  fun_induction splitLineLoop cf line pos bits with
  | case1 pos bits hlt ch hcomment ih =>
    rw [ih, drop_eq_cons line hlt, run_cons, step, gapStep, if_pos hcomment]
    simp [finish]
  | case2 pos bits hlt ch hcomment hspace ih =>
    rw [ih, drop_eq_cons line hlt, run_cons, step, gapStep, if_neg hcomment, if_pos hspace]
  | case3 pos bits hlt ch hcomment hspace hquote e hstr =>
    rw [drop_eq_cons line hlt, run_cons, step, gapStep, if_neg hcomment, if_neg hspace,
      if_pos hquote]
    dsimp only
    rw [run_quoted cf bits line]
    unfold parseString at hstr
    rw [hstr]
  | case4 pos bits hlt ch hcomment hspace hquote p bit hstr ih =>
    rw [drop_eq_cons line hlt, run_cons, step, gapStep, if_neg hcomment, if_neg hspace,
      if_pos hquote]
    dsimp only
    rw [run_quoted cf bits line]
    unfold parseString at hstr
    rw [hstr, ih]
  | case5 pos bits hlt ch hcomment hspace hquote word ih =>
    rw [ih, drop_eq_cons line hlt, run_cons, step, gapStep, if_neg hcomment, if_neg hspace,
      if_neg hquote]
    dsimp only
    rw [run_word cf bits line]
  | case6 pos bits hge =>
    rw [List.drop_eq_nil_of_le (by omega)]
    rfl

/-- **The line splitter is the automaton.** -/
theorem splitLine_eq_run : splitLine cf line = run cf [] .gap line :=
  splitLineLoop_eq_run cf [] line 0

end

/-! ### How a run ends -/

/-- A run that does not fail on the way ends as the end of the line says. -/
theorem run_of_reach {bits bits' : List Bytes} {mode mode' : Mode} {rest : Bytes}
    (h : reach bits mode rest = some (bits', mode')) :
    run cf bits mode rest = finish cf bits' mode' := by
  induction rest generalizing bits mode with
  | nil => cases h; rfl
  | cons c rest ih =>
    rw [reach] at h
    rw [run_cons]
    split at h
    · cases h
    · exact ih h

/-- A run that fails on the way is a syntax error. -/
theorem run_of_reach_eq_none {bits : List Bytes} {mode : Mode} {rest : Bytes}
    (h : reach bits mode rest = none) :
    ∃ message, run cf bits mode rest = .error (cf.syntaxError message) := by
  induction rest generalizing bits mode with
  | nil => cases h
  | cons c rest ih =>
    rw [reach] at h
    rw [run_cons]
    split at h
    · exact ⟨_, rfl⟩
    · exact ih h

end Tokenizer

open Tokenizer

/-- The line stops inside an escape: read byte by byte, it ends right after a backslash in
a double-quoted string that is still open. -/
def StopsInEscape (line : Bytes) : Prop :=
  ∃ bits q bit, reach [] .gap line = some (bits, .escape q bit)

instance (line : Bytes) : Decidable (StopsInEscape line) :=
  match h : reach [] .gap line with
  | some (bits, .escape q bit) => isTrue ⟨bits, q, bit, h⟩
  | some (_, .gap) | some (_, .word _) | some (_, .quoted _ _) | some (_, .hex _ _ _)
  | some (_, .octal _ _ _ _) | some (_, .comment) | none =>
    isFalse fun ⟨_, _, _, h'⟩ => by simp [h] at h'

variable [Libc] (cf : ConfFile)

/-- How `splitLine` ends: with tokens, with a syntax error at the current line, or, exactly
on a line that stops inside an escape, with `std::out_of_range`. -/
theorem splitLine_cases (line : Bytes) :
    (¬ StopsInEscape line ∧ ∃ bits, ∀ cf, splitLine cf line = .ok bits) ∨
    (¬ StopsInEscape line ∧ ∃ message, splitLine cf line = .error (cf.syntaxError message)) ∨
    (StopsInEscape line ∧ ∀ cf, splitLine cf line = .error .outOfRange) := by
  simp only [splitLine_eq_run]
  cases hreach : reach [] .gap line with
  | none =>
    refine .inr (.inl ⟨?_, run_of_reach_eq_none cf hreach⟩)
    rintro ⟨_, _, _, h⟩
    rw [hreach] at h
    cases h
  | some state =>
    obtain ⟨bits, mode⟩ := state
    have hrun := fun cf => run_of_reach cf hreach
    simp only [hrun, StopsInEscape, hreach, Option.some.injEq, Prod.mk.injEq]
    cases mode with
    | gap => exact .inl ⟨by simp, bits, fun _ => rfl⟩
    | word bit => exact .inl ⟨by simp, bits ++ [bit], fun _ => rfl⟩
    | comment => exact .inl ⟨by simp, bits, fun _ => rfl⟩
    | escape q bit => exact .inr (.inr ⟨⟨bits, q, bit, rfl, rfl⟩, fun _ => rfl⟩)
    | quoted q bit => exact .inr (.inl ⟨by simp, _, rfl⟩)
    | hex q bit value => exact .inr (.inl ⟨by simp, _, rfl⟩)
    | octal q bit value digits => exact .inr (.inl ⟨by simp, _, rfl⟩)

/-- `splitLine` throws `std::out_of_range` exactly on a line that stops inside an escape. -/
theorem splitLine_eq_outOfRange_iff (line : Bytes) :
    splitLine cf line = .error .outOfRange ↔ StopsInEscape line := by
  rcases splitLine_cases cf line with ⟨hstop, bits, h⟩ | ⟨hstop, message, h⟩ | ⟨hstop, h⟩
  · simp [h cf, hstop]
  · simp [h, hstop, syntaxError]
  · simp [h cf, hstop]

end Blockad.Proofs
