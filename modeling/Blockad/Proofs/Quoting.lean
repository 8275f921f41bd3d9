import Mathlib.Data.List.Chain
import Blockad.Proofs.Tokenizer

/-!
# `Blockad.Proofs.Quoting`: every argument list can be written, and is read back

A `Line` is an argument list together with the way it is written: each argument as an
unquoted, single-quoted or double-quoted token, each byte of a double-quoted token in one of
its spellings, and any spaces and comment around the tokens. The conditions that make the
text unambiguous are fields of these types, so that every `Line` is one that a user may
write.

* `run_spelling`: one spelling inside double quotes adds its byte, or is refused when its
  value does not fit into a byte.
* `run_token`: a token adds its value to the arguments found so far.
* `splitLine_render`: the splitter returns the arguments of the line, and refuses it exactly
  when a numeric escape is out of range.

The proofs read the text with the automaton of `Blockad.Proofs.Tokenizer`. A numeric escape
ends only at the byte after it, so each lemma about a spelling names that byte.
-/

set_option autoImplicit false

namespace Blockad.Proofs.Quoting

open Bytes ConfFile Tokenizer

/-! ### Spellings -/

/-- The number that `v` becomes when the digits `ds` are appended to it. -/
def numeral (base v : Nat) (ds : List Nat) : Nat := ds.foldl (fun v d => base * v + d) v

/-- A hex digit: its value, and whether a letter is a capital. -/
structure HexDigit where
  value : Fin 16
  capital : Bool

/-- The character of a hex digit. -/
def HexDigit.char (d : HexDigit) : UInt8 :=
  if d.value < 10 then chr '0' + UInt8.ofNat d.value
  else (if d.capital then chr 'A' else chr 'a') + UInt8.ofNat (d.value - 10)

/-- The character of an octal digit. -/
def octalChar (d : Fin 8) : UInt8 := chr '0' + UInt8.ofNat d

/-- One way to write a byte between double quotes. -/
inductive Spelling where
  | literal (c : UInt8) (plain : c ≠ chr '"' ∧ c ≠ chr '\\')
  | named (e : UInt8 × UInt8) (known : e ∈ namedEscapes)
  | octal (ds : List (Fin 8)) (count : 1 ≤ ds.length ∧ ds.length ≤ 3)
  | hex (ds : List HexDigit) (some : ds ≠ [])

namespace Spelling

/-- The characters of the spelling. -/
def render : Spelling → Bytes
  | literal c _ => [c]
  | named e _ => [chr '\\', e.1]
  | octal ds _ => chr '\\' :: ds.map octalChar
  | hex ds _ => chr '\\' :: chr 'x' :: ds.map HexDigit.char

/-- The value that is written, which need not fit into a byte. -/
def value : Spelling → Nat
  | literal c _ => c.toNat
  | named e _ => e.2.toNat
  | octal ds _ => numeral 8 0 (ds.map Fin.val)
  | hex ds _ => numeral 16 0 (ds.map fun d => d.value.val)

/-- The character would be read as part of the spelling before it. -/
def absorbs : Spelling → UInt8 → Bool
  | octal ds _, c => ds.length < 3 && isOctal c
  | hex _ _, c => isXDigit c
  | _, _ => false

end Spelling

/-! ### Tokens and lines -/

/-- One argument as it is written. -/
inductive Token where
  | unquoted (text : Bytes) (nonempty : text ≠ []) (noSpace : chr ' ' ∉ text)
      (first : ∀ c ∈ text.head?, c ≠ chr '#' ∧ c ≠ chr '"' ∧ c ≠ chr '\'')
  | single (text : Bytes) (noQuote : chr '\'' ∉ text)
  | double (sps : List Spelling)
      (apart : sps.IsChain fun sp next => ∀ c ∈ next.render.head?, sp.absorbs c = false)

namespace Token

def render : Token → Bytes
  | unquoted text _ _ _ => text
  | single text _ => chr '\'' :: (text ++ [chr '\''])
  | double sps _ => chr '"' :: (sps.flatMap Spelling.render ++ [chr '"'])

/-- The argument. -/
def value : Token → Bytes
  | unquoted text _ _ _ => text
  | single text _ => text
  | double sps _ => sps.map fun sp => UInt8.ofNat sp.value

/-- All values fit into a byte. -/
def InRange : Token → Prop
  | double sps _ => ∀ sp ∈ sps, sp.value ≤ 255
  | _ => True

def isUnquoted : Token → Bool
  | unquoted _ _ _ _ => true
  | _ => false

end Token

/-- A token and the number of spaces after it. -/
abbrev Spaced := Token × Nat

/-- The text from a token position on. -/
def renderTokens : List Spaced → Option Bytes → Bytes
  | [], none => []
  | [], some comment => chr '#' :: comment
  | (t, spaces) :: rest, comment =>
    t.render ++ (List.replicate spaces (chr ' ') ++ renderTokens rest comment)

/-- An unquoted token needs a space after it, unless nothing follows. -/
def SpacedApart : List Spaced → Option Bytes → Prop
  | [], _ => True
  | (t, spaces) :: rest, comment =>
    (t.isUnquoted → spaces = 0 → rest = [] ∧ comment = none) ∧ SpacedApart rest comment

/-- A line as it is written. -/
structure Line where
  leading : Nat
  tokens : List Spaced
  comment : Option Bytes
  apart : SpacedApart tokens comment

namespace Line

def render (l : Line) : Bytes :=
  List.replicate l.leading (chr ' ') ++ renderTokens l.tokens l.comment

/-- The arguments. -/
def values (l : Line) : List Bytes := l.tokens.map fun t => t.1.value

def InRange (l : Line) : Prop := ∀ t ∈ l.tokens, t.1.InRange

end Line

/-! ### Reading a spelling -/

/-- Digits never make a number smaller. -/
theorem le_numeral {base : Nat} (hbase : 1 ≤ base) (v : Nat) (ds : List Nat) :
    v ≤ numeral base v ds := by
  induction ds generalizing v with
  | nil => exact le_refl v
  | cons d ds ih =>
    calc v ≤ base * v := Nat.le_mul_of_pos_left v hbase
      _ ≤ base * v + d := Nat.le_add_right _ _
      _ ≤ numeral base v (d :: ds) := ih (base * v + d)

/-- The reader recognizes a hex digit and its value. -/
theorem HexDigit.read (d : HexDigit) :
    isXDigit d.char = true ∧ decodeHex d.char = d.value.val := by
  obtain ⟨value, capital⟩ := d
  revert value capital
  decide

/-- The reader recognizes an octal digit and its value. -/
theorem octalChar_read (d : Fin 8) :
    isOctal (octalChar d) = true ∧ (octalChar d - chr '0').toNat = d.val := by
  revert d
  decide

/-- A closing quote is never read as part of an escape. -/
theorem Spelling.absorbs_quote (sp : Spelling) : sp.absorbs (chr '"') = false := by
  cases sp with
  | octal ds count => rw [absorbs, show isOctal (chr '"') = false by decide, Bool.and_false]
  | _ => rfl

/-- No spelling is empty. -/
theorem Spelling.render_eq_cons (sp : Spelling) : ∃ c text, sp.render = c :: text := by
  cases sp <;> exact ⟨_, _, rfl⟩

/-- After a backslash, an octal digit starts an octal escape. -/
theorem escapeStep_octalChar (q : UInt8) (bit : Bytes) (d : Fin 8) :
    escapeStep q bit (octalChar d) = .ok (.octal q bit d.val 1) := by
  have hname : ∀ d,
      namedEscapes.lookup (octalChar d) = none ∧ (octalChar d == chr 'x') = false := by
    decide
  rw [escapeStep, (hname d).1]
  simp [(hname d).2, octalChar_read]

/-- After a backslash, a named escape stands for its byte. -/
theorem escapeStep_named (q : UInt8) (bit : Bytes) {e : UInt8 × UInt8} (he : e ∈ namedEscapes) :
    escapeStep q bit e.1 = .ok (.quoted q (bit ++ [e.2])) := by
  have hlookup : (namedEscapes.all fun e => namedEscapes.lookup e.1 = some e.2) = true := by decide
  have he' : namedEscapes.lookup e.1 = some e.2 := by simpa using List.all_eq_true.mp hlookup e he
  rw [escapeStep, he']

variable [Libc] (cf : ConfFile) (bits : List Bytes)

/-- The digits of a hex escape are read, unless the value outgrows a byte. -/
theorem run_hexDigits (q : UInt8) (bit rest : Bytes) (ds : List HexDigit) {v : Nat}
    (hv : v ≤ 255) :
    (numeral 16 v (ds.map fun d => d.value.val) ≤ 255 ∧
      run cf bits (.hex q bit v) (ds.map HexDigit.char ++ rest)
        = run cf bits (.hex q bit (numeral 16 v (ds.map fun d => d.value.val))) rest) ∨
    (255 < numeral 16 v (ds.map fun d => d.value.val) ∧ ∃ message,
      run cf bits (.hex q bit v) (ds.map HexDigit.char ++ rest)
        = .error (cf.syntaxError message)) := by
  induction ds generalizing v with
  | nil => exact .inl ⟨hv, rfl⟩
  | cons d ds ih =>
    rw [List.map_cons, List.map_cons, List.cons_append, run_cons, step, if_pos d.read.1, d.read.2]
    by_cases hbig : 16 * v + d.value.val > 255
    · -- The escape is refused here, and the digits that follow only enlarge its value.
      refine .inr ⟨lt_of_lt_of_le hbig (le_numeral (by omega) _ _), ?_⟩
      rw [if_pos hbig]
      exact ⟨_, rfl⟩
    · rw [if_neg hbig]
      exact ih (Nat.le_of_not_lt hbig)

/-- The byte after an octal escape of fewer than three digits ends it. -/
theorem run_octalDigits (q : UInt8) (bit rest : Bytes) {c : UInt8} (d : Fin 8)
    (ds : List (Fin 8)) (hlen : ds.length ≤ 2) (hc : ds.length < 2 → isOctal c = false) :
    (numeral 8 d.val (ds.map Fin.val) ≤ 255 ∧
      run cf bits (.octal q bit d.val 1) (ds.map octalChar ++ c :: rest)
        = run cf bits (.quoted q (bit ++ [UInt8.ofNat (numeral 8 d.val (ds.map Fin.val))]))
            (c :: rest)) ∨
    (255 < numeral 8 d.val (ds.map Fin.val) ∧ ∃ message,
      run cf bits (.octal q bit d.val 1) (ds.map octalChar ++ c :: rest)
        = .error (cf.syntaxError message)) := by
  have hd := d.isLt
  -- Fewer than three digits fit into a byte, and the byte after them ends the escape.
  match ds, hlen with
  | [], _ =>
    exact .inl ⟨by simp [numeral]; omega, run_octal_cons cf bits (hc (by simp))⟩
  | [d₂], _ =>
    have hd₂ := d₂.isLt
    have hvalue : d.val * 8 + d₂.val = numeral 8 d.val ([d₂].map Fin.val) := by
      simp [numeral]; omega
    have hstep : step bits (.octal q bit d.val 1) (octalChar d₂)
        = .ok (bits, .octal q bit (numeral 8 d.val ([d₂].map Fin.val)) 2) := by
      simp [step, octalChar_read, hvalue]
    refine .inl ⟨by omega, ?_⟩
    rw [List.map_singleton, List.singleton_append, run_cons, hstep]
    exact run_octal_cons cf bits (hc (by simp))
  | [d₂, d₃], _ =>
    have hvalue : (d.val * 8 + d₂.val) * 8 + d₃.val = numeral 8 d.val ([d₂, d₃].map Fin.val) := by
      simp [numeral]; omega
    have hstep₂ : step bits (.octal q bit d.val 1) (octalChar d₂)
        = .ok (bits, .octal q bit (d.val * 8 + d₂.val) 2) := by
      simp [step, octalChar_read]
    have htext : [d₂, d₃].map octalChar ++ c :: rest = octalChar d₂ :: octalChar d₃ :: c :: rest :=
      rfl
    rw [htext, run_cons, hstep₂]
    dsimp only
    rw [run_cons, step, if_pos (octalChar_read d₃).1, if_neg (by omega), (octalChar_read d₃).2,
      hvalue]
    by_cases hbig : numeral 8 d.val ([d₂, d₃].map Fin.val) > 255
    · rw [if_pos hbig]
      exact .inr ⟨hbig, _, rfl⟩
    · rw [if_neg hbig]
      exact .inl ⟨Nat.le_of_not_lt hbig, rfl⟩

/-- One spelling, up to the byte after it: its byte is added to the string, or the value is
out of range and the line is refused. -/
theorem run_spelling (bit rest : Bytes) {c : UInt8} (sp : Spelling) (hc : sp.absorbs c = false) :
    (sp.value ≤ 255 ∧ run cf bits (.quoted (chr '"') bit) (sp.render ++ c :: rest)
        = run cf bits (.quoted (chr '"') (bit ++ [UInt8.ofNat sp.value])) (c :: rest)) ∨
    (255 < sp.value ∧ ∃ message,
      run cf bits (.quoted (chr '"') bit) (sp.render ++ c :: rest)
        = .error (cf.syntaxError message)) := by
  -- All spellings but a literal begin with the step into an escape.
  have hbackslash (text : Bytes) : run cf bits (.quoted (chr '"') bit) (chr '\\' :: text)
      = run cf bits (.escape (chr '"') bit) text := rfl
  cases sp with
  | literal b plain =>
    have hstep : step bits (.quoted (chr '"') bit) b
        = .ok (bits, .quoted (chr '"') (bit ++ [b])) := by
      simp [step, quotedStep, plain.1, plain.2]
    refine .inl ⟨Nat.le_of_lt_succ b.toNat_lt, ?_⟩
    rw [Spelling.render, List.singleton_append, run_cons, hstep, Spelling.value,
      UInt8.ofNat_toNat]
  | named e known =>
    refine .inl ⟨Nat.le_of_lt_succ e.2.toNat_lt, ?_⟩
    rw [Spelling.render, List.cons_append, hbackslash, List.singleton_append, run_cons, step,
      escapeStep_named _ _ known, Spelling.value, UInt8.ofNat_toNat]
    rfl
  | octal ds count =>
    obtain ⟨hpos, hlen⟩ := count
    cases ds with
    | nil => simp at hpos
    | cons d ds =>
      rw [Spelling.render, List.cons_append, hbackslash, List.map_cons, List.cons_append,
        run_cons, step, escapeStep_octalChar]
      have hvalue : Spelling.value (.octal (d :: ds) ⟨hpos, hlen⟩)
          = numeral 8 d.val (ds.map Fin.val) := by
        simp [Spelling.value, numeral]
      rw [hvalue]
      refine run_octalDigits cf bits _ bit rest d ds (Nat.le_of_succ_le_succ hlen) fun h => ?_
      simpa [Spelling.absorbs, show ds.length + 1 < 3 by omega] using hc
  | hex ds some =>
    rw [Spelling.render, List.cons_append, hbackslash, List.cons_append, run_cons]
    rcases run_hexDigits cf bits (chr '"') bit (c :: rest) ds (v := 0) (by omega) with
      ⟨hle, hrun⟩ | ⟨hgt, message, hrun⟩
    · exact .inl ⟨hle, hrun.trans (run_hex_cons cf bits hc)⟩
    · exact .inr ⟨hgt, message, hrun⟩

/-! ### Reading a token -/

/-- All spellings of a double-quoted token, and its closing quote. -/
theorem run_spellings (bit rest : Bytes) {sps : List Spelling}
    (apart : sps.IsChain fun sp next => ∀ c ∈ next.render.head?, sp.absorbs c = false) :
    ((∀ sp ∈ sps, sp.value ≤ 255) ∧
      run cf bits (.quoted (chr '"') bit) (sps.flatMap Spelling.render ++ chr '"' :: rest)
        = run cf (bits ++ [bit ++ sps.map fun sp => UInt8.ofNat sp.value]) .gap rest) ∨
    ((∃ sp ∈ sps, 255 < sp.value) ∧ ∃ message,
      run cf bits (.quoted (chr '"') bit) (sps.flatMap Spelling.render ++ chr '"' :: rest)
        = .error (cf.syntaxError message)) := by
  induction sps generalizing bit with
  | nil =>
    rw [List.map_nil, List.append_nil]
    exact .inl ⟨by simp, rfl⟩
  | cons sp sps ih =>
    -- The byte after the spelling starts the next one, or is the closing quote.
    obtain ⟨c, text, htext, hc⟩ : ∃ c text,
        sps.flatMap Spelling.render ++ chr '"' :: rest = c :: text ∧ sp.absorbs c = false := by
      cases sps with
      | nil => exact ⟨chr '"', rest, rfl, sp.absorbs_quote⟩
      | cons next sps =>
        obtain ⟨c, text, hnext⟩ := next.render_eq_cons
        have hhead := (List.isChain_cons_cons.mp apart).1 c (by simp [hnext])
        exact ⟨c, _, by rw [List.flatMap_cons, hnext]; rfl, hhead⟩
    rw [List.flatMap_cons, List.append_assoc, htext]
    rcases run_spelling cf bits bit text sp hc with ⟨hle, hrun⟩ | ⟨hgt, message, hrun⟩
    · rw [hrun, ← htext]
      rcases ih (bit ++ [UInt8.ofNat sp.value]) apart.of_cons with
        ⟨hall, hrest⟩ | ⟨⟨sp', hmem, hgt⟩, hrest⟩
      · refine .inl ⟨by simpa using ⟨hle, hall⟩, ?_⟩
        rw [hrest, List.map_cons, List.append_assoc, List.singleton_append]
      · exact .inr ⟨⟨sp', List.mem_cons_of_mem _ hmem, hgt⟩, hrest⟩
    · exact .inr ⟨⟨sp, List.mem_cons_self, hgt⟩, message, hrun⟩

/-- Between single quotes every byte stands for itself. -/
theorem run_single (bit rest : Bytes) {text : Bytes} (h : chr '\'' ∉ text) :
    run cf bits (.quoted (chr '\'') bit) (text ++ chr '\'' :: rest)
      = run cf (bits ++ [bit ++ text]) .gap rest := by
  induction text generalizing bit with
  | nil => rw [List.append_nil]; rfl
  | cons c text ih =>
    have hc : c ≠ chr '\'' := fun hc => h (by simp [hc])
    have hstep : step bits (.quoted (chr '\'') bit) c
        = .ok (bits, .quoted (chr '\'') (bit ++ [c])) := by
      simp [step, quotedStep, hc]
    rw [List.cons_append, run_cons, hstep]
    dsimp only
    rw [ih _ fun hmem => h (List.mem_cons_of_mem _ hmem), List.append_assoc, List.singleton_append]

/-- An unquoted token goes on to the next space or the end of the line. -/
theorem run_unquoted (bit : Bytes) {text rest : Bytes} (h : chr ' ' ∉ text)
    (hrest : ∀ c ∈ rest.head?, c = chr ' ') :
    run cf bits (.word bit) (text ++ rest) = run cf (bits ++ [bit ++ text]) .gap rest := by
  induction text generalizing bit with
  | nil =>
    rw [List.append_nil, List.nil_append]
    cases rest with
    | nil => rfl
    | cons c rest =>
      rw [hrest c rfl, run_gap_space, run_cons, step, if_pos (by rfl)]
  | cons c text ih =>
    have hc : c ≠ chr ' ' := fun hc => h (by simp [hc])
    rw [List.cons_append, run_cons, step, if_neg (by simpa using hc)]
    dsimp only
    rw [ih _ fun hmem => h (List.mem_cons_of_mem _ hmem), List.append_assoc, List.singleton_append]

/-- **One token.** Read from a token position, it adds its value to the arguments, or it is
refused because a value is out of range. -/
theorem run_token (t : Token) {rest : Bytes}
    (hrest : t.isUnquoted → ∀ c ∈ rest.head?, c = chr ' ') :
    (t.InRange ∧ run cf bits .gap (t.render ++ rest) = run cf (bits ++ [t.value]) .gap rest) ∨
    (¬ t.InRange ∧ ∃ message,
      run cf bits .gap (t.render ++ rest) = .error (cf.syntaxError message)) := by
  cases t with
  | unquoted text nonempty noSpace first =>
    cases text with
    | nil => exact absurd rfl nonempty
    | cons c text =>
      obtain ⟨hhash, hdouble, hsingle⟩ := first c rfl
      have hspace : c ≠ chr ' ' := fun hc => noSpace (by simp [hc])
      have hstep : step bits .gap c = .ok (bits, .word [c]) := by
        simp [step, gapStep, hhash, hdouble, hsingle, hspace]
      refine .inl ⟨trivial, ?_⟩
      rw [Token.render, List.cons_append, run_cons, hstep]
      exact run_unquoted cf bits [c] (fun h => noSpace (List.mem_cons_of_mem _ h)) (hrest rfl)
  | single text noQuote =>
    refine .inl ⟨trivial, ?_⟩
    rw [Token.render, List.cons_append, List.append_assoc]
    exact run_single cf bits [] rest noQuote
  | double sps apart =>
    rw [Token.render, List.cons_append, List.append_assoc]
    rcases run_spellings cf bits [] rest apart with ⟨hall, hrun⟩ | ⟨⟨sp, hmem, hgt⟩, hrun⟩
    · exact .inl ⟨hall, hrun⟩
    · exact .inr ⟨fun h => Nat.not_lt.mpr (h sp hmem) hgt, hrun⟩

/-! ### Reading a line -/

/-- Spaces between tokens are skipped. -/
theorem run_spaces (n : Nat) (rest : Bytes) :
    run cf bits .gap (List.replicate n (chr ' ') ++ rest) = run cf bits .gap rest := by
  induction n with
  | zero => rfl
  | succ n ih => rw [List.replicate_succ, List.cons_append, run_gap_space, ih]

/-- The tokens of a line, one after the other. -/
theorem run_tokens {tokens : List Spaced} {comment : Option Bytes}
    (apart : SpacedApart tokens comment) :
    ((∀ t ∈ tokens, t.1.InRange) ∧ run cf bits .gap (renderTokens tokens comment)
        = .ok (bits ++ tokens.map fun t => t.1.value)) ∨
    ((∃ t ∈ tokens, ¬ t.1.InRange) ∧ ∃ message,
      run cf bits .gap (renderTokens tokens comment) = .error (cf.syntaxError message)) := by
  induction tokens generalizing bits with
  | nil =>
    refine .inl ⟨by simp, ?_⟩
    rw [List.map_nil, List.append_nil]
    cases comment with
    | none => rfl
    | some text => exact run_comment cf bits text
  | cons t tokens ih =>
    obtain ⟨t, spaces⟩ := t
    obtain ⟨happart, hrest⟩ := apart
    have hspace : t.isUnquoted → ∀ c ∈ (List.replicate spaces (chr ' ')
        ++ renderTokens tokens comment).head?, c = chr ' ' := by
      intro hunquoted
      cases spaces with
      | zero =>
        obtain ⟨rfl, rfl⟩ := happart hunquoted rfl
        simp [renderTokens]
      | succ n => simp [List.replicate_succ]
    rw [renderTokens]
    rcases run_token cf bits t hspace with ⟨hin, hrun⟩ | ⟨hout, hrun⟩
    · rw [hrun, run_spaces]
      rcases ih (bits ++ [t.value]) hrest with ⟨hall, hok⟩ | ⟨⟨t', hmem, hout⟩, herr⟩
      · refine .inl ⟨List.forall_mem_cons.mpr ⟨hin, hall⟩, ?_⟩
        rw [hok, List.append_assoc, List.map_cons, List.singleton_append]
      · exact .inr ⟨⟨t', List.mem_cons_of_mem _ hmem, hout⟩, herr⟩
    · exact .inr ⟨⟨(t, spaces), List.mem_cons_self, hout⟩, hrun⟩

/-- **Quoting is complete and faithful.** However a list of arguments is written, the
splitter returns it, unless a numeric escape is out of range: then the line is refused with
a `SyntaxError`. -/
theorem splitLine_render (l : Line) :
    (l.InRange → splitLine cf l.render = .ok l.values) ∧
      (¬ l.InRange → ∃ message, splitLine cf l.render = .error (cf.syntaxError message)) := by
  rw [splitLine_eq_run, Line.render, run_spaces]
  rcases run_tokens cf [] l.apart with ⟨hall, hrun⟩ | ⟨⟨t, hmem, hout⟩, hrun⟩
  · exact ⟨fun _ => hrun, fun h => absurd hall h⟩
  · exact ⟨fun h => absurd (h t hmem) hout, fun _ => hrun⟩

/-! ### Every argument list has a spelling -/

section
omit [Libc]

/-- The three octal digits of a byte. -/
def octalSpelling (c : UInt8) : Spelling :=
  .octal [Fin.ofNat 8 (c.toNat / 64), Fin.ofNat 8 (c.toNat / 8), Fin.ofNat 8 c.toNat] (by simp)

/-- An octal escape stands for its byte. -/
theorem octalSpelling_value (c : UInt8) : (octalSpelling c).value = c.toNat := by
  have hc := c.toNat_lt
  simp only [octalSpelling, Spelling.value, numeral, List.map_cons, List.map_nil, List.foldl_cons,
    List.foldl_nil, Fin.val_ofNat]
  omega

/-- An argument with every byte in octal. -/
def octalToken (arg : Bytes) : Token :=
  .double (arg.map octalSpelling) <| by
    -- Three digits absorb nothing.
    induction arg with
    | nil => exact .nil
    | cons c arg ih => exact List.isChain_cons.mpr ⟨fun _ _ _ _ => rfl, ih⟩

/-- A token of octal escapes stands for its bytes. -/
theorem octalToken_value (arg : Bytes) : (octalToken arg).value = arg := by
  simp [octalToken, Token.value, Function.comp_def, octalSpelling_value]

/-- All of them are in range. -/
theorem octalToken_inRange (arg : Bytes) : (octalToken arg).InRange := by
  intro sp hsp
  obtain ⟨c, -, rfl⟩ := List.mem_map.mp hsp
  rw [octalSpelling_value]
  exact Nat.le_of_lt_succ c.toNat_lt

end

end Blockad.Proofs.Quoting
