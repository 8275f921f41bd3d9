import Blockad.Model.Address
import Blockad.Model.Regex
import Blockad.Model.StdioFile

/-!
# `Blockad.Model.ConfFile`: `ConfFile.cc` and the block method registry

The configuration reader as the sources have it. `splitLine` and `parseString` walk over a
line with a position, and read it with the bounds-checked `at` (`charAt`), which throws
`std::out_of_range`. `parseLine` runs one directive, `parse` the lines of the file with the
line counter that error messages show.

The loops are recursions on the rest of the line (`line.length - pos`) and of the file.
A `SyntaxError` carries the file, the line number and the message of `format`.
-/

set_option autoImplicit false

namespace Blockad

open Bytes

/-! ### Block methods -/

/-- A parameterized block method. -/
inductive BlockMethod where
  | iptables
  | hostsDeny (path : Bytes)
  deriving DecidableEq, Repr

/-- The registered block method types. -/
inductive BlockMethodType where
  | iptables
  | hostsDeny
  deriving DecidableEq, Repr

namespace BlockMethodType

/-- `BlockMethodType::find`. -/
def find (name : Bytes) : Option BlockMethodType :=
  if name == lit "hosts.deny" then some hostsDeny
  else if name == lit "iptables" then some iptables
  else none

/-- `create()`. -/
def createDefault : BlockMethodType → BlockMethod
  | iptables => .iptables
  | hostsDeny => .hostsDeny (lit "/etc/hosts.deny")

/-- `create(cf, bits)`, on the whole directive; an error is the message of the
`SyntaxError`. -/
def create : BlockMethodType → List Bytes → Except Bytes BlockMethod
  | iptables, bits =>
    if bits.length > 2 then .error (lit "excess arguments to 'block'")
    else .ok (createDefault iptables)
  | hostsDeny, bits =>
    if bits.length > 3 then .error (lit "excess arguments to 'block hosts.deny'")
    else match bits[2]? with
      | some path => .ok (.hostsDeny path)
      | none => .ok (createDefault hostsDeny)

end BlockMethodType

variable [Libc]

/-- `ConfFile::Match`. -/
structure Match where
  regex : Regex
  capture : Nat

/-- `ConfFile`. -/
structure ConfFile where
  files : List Bytes
  patterns : List Match
  exempted : List AddressPattern
  rateMax : Nat
  rateInterval : Nat
  block : BlockMethod
  path : Bytes
  lineno : Nat

namespace ConfFile

/-- `throw SyntaxError(this, message)`. -/
def syntaxError (cf : ConfFile) (message : Bytes) : Exn := .syntaxError cf.path cf.lineno message

/-- `line.at(pos)`. -/
def charAt (line : Bytes) (pos : Nat) : Except Exn UInt8 :=
  match (line)[pos]? with
  | some c => .ok c
  | none => .error .outOfRange

/-! ### Quoted strings -/

/-- The escapes that stand for one fixed byte, by the character after the backslash. -/
def namedEscapes : List (UInt8 × UInt8) :=
  [(chr 'a', 7), (chr 'b', 8), (chr 't', 9), (chr 'n', 10), (chr 'v', 11), (chr 'f', 12),
    (chr 'r', 13), (chr '\'', chr '\''), (chr '"', chr '"'), (chr '\\', chr '\\'),
    (chr '?', chr '?')]

/-- `decodeHex`. -/
def decodeHex (ch : UInt8) : Nat :=
  if isDigit ch then (ch - chr '0').toNat
  else if chr 'a' ≤ ch && ch ≤ chr 'f' then (ch - (chr 'a' - 10)).toNat
  else (ch - (chr 'A' - 10)).toNat

/-- The loop of a `\x` escape: the value and the position after its digits. -/
def hexLoop (cf : ConfFile) (line : Bytes) (pos value : Nat) : Except Exn (Nat × Nat) :=
  if h : pos < line.length then
    let ch := (line)[pos]
    if !isXDigit ch then .ok (value, pos)
    else
      let value := 16 * value + decodeHex ch
      -- Checked after each digit, so that the value never grows past an `int`
      if value > 255 then
        .error (cf.syntaxError (lit "hexadeciaml escape sequence out of range"))
      else hexLoop cf line (pos + 1) value
  else .ok (value, pos)
termination_by line.length - pos

/-- The octal digits. -/
def isOctal (ch : UInt8) : Bool := chr '0' ≤ ch && ch ≤ chr '7'

/-- The octal digit at `pos`, if there is one. -/
def octalDigit (line : Bytes) (pos : Nat) : Option Nat :=
  match (line)[pos]? with
  | some ch => if isOctal ch then some (ch - chr '0').toNat else none
  | none => none

/-- An octal escape whose first digit is `value`: the value and the position after it. -/
def octalLoop (line : Bytes) (pos value : Nat) : Nat × Nat :=
  match octalDigit line pos with
  | none => (value, pos)
  | some d =>
    match octalDigit line (pos + 1) with
    | none => (value * 8 + d, pos + 1)
    | some d' => ((value * 8 + d) * 8 + d', pos + 2)

/-- The escape that starts at `pos`, after its backslash: the byte and the position after
it. -/
def escape (cf : ConfFile) (line : Bytes) (pos : Nat) : Except Exn (UInt8 × Nat) :=
  -- The check lets the end of the line through, where `at` throws
  if pos > line.length then .error (cf.syntaxError (lit "unterminated escape sequence"))
  else match charAt line pos with
    | .error e => .error e
    | .ok ch =>
      match namedEscapes.lookup ch with
      | some c => .ok (c, pos + 1)
      | none =>
        if ch == chr 'x' then
          match hexLoop cf line (pos + 1) 0 with
          | .error e => .error e
          | .ok (value, pos) => .ok (UInt8.ofNat value, pos)
        else if isOctal ch then
          match octalLoop line (pos + 1) (ch - chr '0').toNat with
          | (value, pos) =>
            if value > 255 then
              .error (cf.syntaxError (lit "octal escape sequence out of range"))
            else .ok (UInt8.ofNat value, pos)
        else .error (cf.syntaxError (lit "unrecognized escape sequence"))

/-- A `\x` escape ends at or after its first digit. -/
theorem le_of_hexLoop {cf : ConfFile} {line : Bytes} {pos value v pos' : Nat}
    (h : hexLoop cf line pos value = .ok (v, pos')) : pos ≤ pos' := by
  fun_induction hexLoop cf line pos value with
  | case1 pos value hlt ch hdigit => cases h; exact le_refl _
  | case2 pos value hlt ch hdigit value' hbig => cases h
  | case3 pos value hlt ch hdigit value' hsmall ih => exact Nat.le_of_succ_le (ih h)
  | case4 pos value hge => cases h; exact le_refl _

omit [Libc] in
/-- An octal escape ends at or after its second digit. -/
theorem le_of_octalLoop (line : Bytes) (pos value : Nat) :
    pos ≤ (octalLoop line pos value).2 := by
  unfold octalLoop
  split
  · exact le_refl _
  · split <;> simp

/-- An escape ends after the character that follows its backslash. -/
theorem lt_of_escape {cf : ConfFile} {line : Bytes} {pos pos' : Nat} {c : UInt8}
    (h : escape cf line pos = .ok (c, pos')) : pos < pos' := by
  unfold escape at h
  split at h
  · cases h
  split at h
  · cases h
  split at h
  · cases h; omega
  split at h
  · split at h <;> cases h
    exact le_of_hexLoop ‹_›
  split at h
  · have hle := le_of_octalLoop line (pos + 1) (‹UInt8› - chr '0').toNat
    dsimp only at h
    split at h <;> cases h
    exact hle
  · cases h

/-- The loop of `parseString`, with `bit` decoded so far. -/
def parseStringLoop (cf : ConfFile) (line : Bytes) (q : UInt8) (pos : Nat) (bit : Bytes) :
    Except Exn (Nat × Bytes) :=
  if h : pos < line.length then
    let ch := (line)[pos]
    if ch == q then .ok (pos + 1, bit)
    -- For '' strings, all characters count as unescaped
    else if ch != chr '\\' || q == chr '\'' then
      parseStringLoop cf line q (pos + 1) (bit ++ [ch])
    else
      match hesc : escape cf line (pos + 1) with
      | .error e => .error e
      | .ok (c, pos') => parseStringLoop cf line q pos' (bit ++ [c])
  else .error (cf.syntaxError (lit "unterminated string literal"))
termination_by line.length - pos
decreasing_by
  · omega
  · have := lt_of_escape hesc
    omega

/-- `ConfFile::parseString`: the position after the close quote, and the string. -/
def parseString (cf : ConfFile) (line : Bytes) (pos : Nat) (q : UInt8) :
    Except Exn (Nat × Bytes) :=
  parseStringLoop cf line q pos []

/-- A quoted string ends after its first character. -/
theorem lt_of_parseStringLoop {cf : ConfFile} {line bit bit' : Bytes} {q : UInt8} {pos pos' : Nat}
    (h : parseStringLoop cf line q pos bit = .ok (pos', bit')) : pos < pos' := by
  fun_induction parseStringLoop cf line q pos bit with
  | case1 pos bit hlt ch hq => cases h; omega
  | case2 pos bit hlt ch hq hplain ih => have := ih h; omega
  | case3 pos bit hlt ch hq hplain e hesc => cases h
  | case4 pos bit hlt ch hq hplain c p hesc ih =>
    have := ih h
    have := lt_of_escape hesc
    omega
  | case5 pos bit hge => cases h

/-! ### Splitting a line -/

/-- The loop over an unquoted token: the position after it, and the token. -/
def wordLoop (line : Bytes) (pos : Nat) (bit : Bytes) : Nat × Bytes :=
  if h : pos < line.length then
    if (line)[pos] != chr ' ' then wordLoop line (pos + 1) (bit ++ [(line)[pos]])
    else (pos, bit)
  else (pos, bit)
termination_by line.length - pos

omit [Libc] in
/-- An unquoted token ends at or after its second character. -/
theorem le_of_wordLoop (line : Bytes) (pos : Nat) (bit : Bytes) :
    pos ≤ (wordLoop line pos bit).1 := by
  fun_induction wordLoop line pos bit with
  | case1 pos bit hlt hne ih => omega
  | case2 pos bit hlt hspace => exact le_refl _
  | case3 pos bit hge => exact le_refl _

/-- The loop of `splitLine`, with the tokens `bits` found so far. -/
def splitLineLoop (cf : ConfFile) (line : Bytes) (pos : Nat) (bits : List Bytes) :
    Except Exn (List Bytes) :=
  if h : pos < line.length then
    let ch := (line)[pos]
    -- A comment takes the rest of the line
    if ch == chr '#' then splitLineLoop cf line line.length bits
    else if ch == chr ' ' then splitLineLoop cf line (pos + 1) bits
    else if ch == chr '"' || ch == chr '\'' then
      match hstr : parseString cf line (pos + 1) ch with
      | .error e => .error e
      | .ok (pos', bit) => splitLineLoop cf line pos' (bits ++ [bit])
    else
      -- Quotes and `#` inside an unquoted token have no meaning
      let word := wordLoop line (pos + 1) [ch]
      splitLineLoop cf line word.1 (bits ++ [word.2])
  else .ok bits
termination_by line.length - pos
decreasing_by
  · omega
  · omega
  · have := lt_of_parseStringLoop hstr
    omega
  · have := le_of_wordLoop line (pos + 1) [(line)[pos]]
    omega

/-- `ConfFile::splitLine`. -/
def splitLine (cf : ConfFile) (line : Bytes) : Except Exn (List Bytes) :=
  splitLineLoop cf line 0 []

/-! ### Directives -/

/-- `watch PATH`. -/
def parseWatch (cf : ConfFile) : List Bytes → Except Exn ConfFile
  | [] => .error (cf.syntaxError (lit "missing argument to 'watch'"))
  | [file] => .ok { cf with files := cf.files ++ [file] }
  | _ => .error (cf.syntaxError (lit "excess arguments to 'watch'"))

/-- The optional capture number of an `address` directive. -/
def captureNumber (cf : ConfFile) : Option Bytes → Except Exn Int
  | none => .ok 1
  | some arg =>
    let c := strtol (cstr arg)
    if c.erange then
      .error (cf.syntaxError
        (lit "invalid capture argument to 'address': " ++ Libc.strerror .ERANGE))
    else if !c.converted || !c.rest.isEmpty || c.value < 1 || c.value > 0x7FFFFFFF then
      .error (cf.syntaxError (lit "invalid capture argument to 'address'"))
    else .ok c.value

/-- The pattern of an `address` directive, once its arguments are counted. -/
def addPattern (cf : ConfFile) (regexp : Bytes) (capture : Option Bytes) :
    Except Exn ConfFile :=
  match captureNumber cf capture with
  | .error e => .error e
  | .ok c =>
    match Regex.compile regexp with
    | .error e => .error e
    | .ok r =>
      -- Reject invalid regex and capture count combinations
      if r.captures = 0 then .error (cf.syntaxError (lit "no captures in regexp"))
      else if c.toNat > r.captures then .error (cf.syntaxError (lit "capture out of range"))
      else .ok { cf with patterns := cf.patterns ++ [⟨r, c.toNat⟩] }

/-- `address REGEXP [CAPTURE-NUMBER]`. -/
def parseAddress (cf : ConfFile) : List Bytes → Except Exn ConfFile
  | [] => .error (cf.syntaxError (lit "missing argument to 'address'"))
  | [regexp] => addPattern cf regexp none
  | [regexp, capture] => addPattern cf regexp (some capture)
  | _ => .error (cf.syntaxError (lit "excess arguments to 'address'"))

/-- The number of seconds of an interval name. -/
def interval (name : Bytes) : Option Nat :=
  if name == lit "/minute" || name == lit "/min" then some 60
  else if name == lit "/hour" then some (60 * 60)
  else if name == lit "/day" then some (60 * 60 * 24)
  else if name == lit "/week" then some (60 * 60 * 24 * 7)
  else none

/-- `rate COUNT/[minute|hour|day|week]`. -/
def parseRate (cf : ConfFile) : List Bytes → Except Exn ConfFile
  | [] => .error (cf.syntaxError (lit "missing argument to 'rate'"))
  | [arg] =>
    let count := strtol (cstr arg)
    if count.erange then
      .error (cf.syntaxError (lit "invalid count for 'rate': " ++ Libc.strerror .ERANGE))
    else if !count.converted || count.value < 1 || count.value > 0xFFFFFFFF then
      .error (cf.syntaxError (lit "invalid count for 'rate'"))
    else
      -- The interval is what `strtol` leaves behind the count
      match interval count.rest with
      | some seconds => .ok { cf with rateMax := count.value.toNat, rateInterval := seconds }
      | none => .error (cf.syntaxError (lit "invalid interval for 'rate'"))
  | _ => .error (cf.syntaxError (lit "excess arguments to 'rate'"))

/-- `exempt ADDRESS[/MASK]`. -/
def parseExempt (cf : ConfFile) : List Bytes → Except Exn ConfFile
  | [] => .error (cf.syntaxError (lit "missing argument to 'exempt'"))
  | [arg] =>
    match AddressPattern.assign arg with
    | .error e => .error e
    | .ok p => .ok { cf with exempted := cf.exempted ++ [p] }
  | _ => .error (cf.syntaxError (lit "excess arguments to 'exempt'"))

/-- `block METHOD`. The directive's own name comes first in what `create` counts. -/
def parseBlock (cf : ConfFile) : List Bytes → Except Exn ConfFile
  | [] => .error (cf.syntaxError (lit "missing argument to 'block'"))
  | method :: args =>
    match BlockMethodType.find method with
    | none => .error (cf.syntaxError (lit "unknown block method '" ++ method ++ lit "'"))
    | some type =>
      match type.create (lit "block" :: method :: args) with
      | .error message => .error (cf.syntaxError message)
      | .ok block => .ok { cf with block := block }

/-- The directive `name` with its arguments. -/
def directive (cf : ConfFile) (name : Bytes) (args : List Bytes) : Except Exn ConfFile :=
  if name == lit "watch" then parseWatch cf args
  else if name == lit "address" then parseAddress cf args
  else if name == lit "rate" then parseRate cf args
  else if name == lit "exempt" then parseExempt cf args
  else if name == lit "block" then parseBlock cf args
  else .error (cf.syntaxError (lit "unrecognized command '" ++ name ++ lit "'"))

/-- `ConfFile::parseLine`. -/
def parseLine (cf : ConfFile) (line : Bytes) : Except Exn ConfFile :=
  match splitLine cf line with
  | .error e => .error e
  -- Skip blank lines
  | .ok [] => .ok cf
  | .ok (name :: args) => directive cf name args

/-! ### The file -/

/-- The two handlers around `parseLine`: a `SyntaxError` leaves as it is, any other
`std::runtime_error` gets the location attached, and anything else is not caught. -/
def located (cf : ConfFile) : Exn → Exn
  | .syntaxError path lineno message => .syntaxError path lineno message
  | e => if e.isRuntimeError then cf.syntaxError e.what else e

/-- The loop of `ConfFile::parse`. -/
def parseLoop (cf : ConfFile) (f : StdioFile) : Except Exn ConfFile :=
  match _hread : f.readline with
  | .error e => .error e
  | .ok (false, _, _) => .ok cf
  | .ok (true, line, f') =>
    let cf := { cf with lineno := cf.lineno + 1 }
    match parseLine cf line with
    | .error e => .error (located cf e)
    | .ok cf => parseLoop cf f'
termination_by f.unread.length
decreasing_by exact StdioFile.length_of_readline _hread

/-- `ConfFile::parse`. -/
def parse (cf : ConfFile) (file : FileContent) : Except Exn ConfFile :=
  match StdioFile.openRead cf.path file with
  | .error e => .error e
  | .ok f => parseLoop { cf with lineno := 0 } f

/-- The configuration before the file is read. -/
def initial (path : Bytes) : ConfFile where
  files := []
  patterns := []
  exempted := []
  rateMax := 5
  rateInterval := 60 * 60
  block := BlockMethodType.createDefault .iptables
  path := path
  lineno := 0

/-- `ConfFile::ConfFile`: the configuration in the file at `path`. -/
def construct (path : Bytes) (file : FileContent) : Except Exn ConfFile :=
  parse (initial path) file

end ConfFile

end Blockad
