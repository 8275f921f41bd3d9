import Blockad.Proofs.Tokenizer

/-!
# `Blockad.Proofs.ConfFile`: what reading a configuration file does

A line either names a `Setting`, which changes the configuration in the same way whatever
was read before, or is refused. `parseLine_cases` states this for one line and
`parseLines_cases` for the file: the constructor yields a configuration when every line is
acceptable, and otherwise reports the first line that is not, by its number.

The one gap is the line that stops inside an escape. There `splitLine` throws
`std::out_of_range`, which is no `std::runtime_error`: `parse` does not give it a location,
and no handler of the program catches it (`construct_syntaxError_iff`).

`ConfigValid` is what every accepted configuration satisfies: each capture number names
a group of its pattern, and the rate is in range.
-/

set_option autoImplicit false

namespace Blockad.Proofs

open Bytes ConfFile

variable [Libc]

/-! ### The effect of a line -/

/-- What a line sets. -/
inductive Setting where
  | nothing
  | watch (file : Bytes)
  | address (m : Match)
  | rate (max interval : Nat)
  | exempt (p : AddressPattern)
  | block (b : BlockMethod)

namespace Setting

/-- The configuration after the line. -/
def apply (cf : ConfFile) : Setting → ConfFile
  | nothing => cf
  | watch file => { cf with files := cf.files ++ [file] }
  | address m => { cf with patterns := cf.patterns ++ [m] }
  | rate max interval => { cf with rateMax := max, rateInterval := interval }
  | exempt p => { cf with exempted := cf.exempted ++ [p] }
  | block b => { cf with block := b }

/-- A setting keeps the path of the file. -/
@[simp] theorem apply_path (cf : ConfFile) (d : Setting) : (d.apply cf).path = cf.path := by
  cases d <;> rfl

/-- It keeps the line number. -/
@[simp] theorem apply_lineno (cf : ConfFile) (d : Setting) :
    (d.apply cf).lineno = cf.lineno := by
  cases d <;> rfl

/-- What the checks of the directives promise. -/
def Valid : Setting → Prop
  | address m => 1 ≤ m.capture ∧ m.capture ≤ m.regex.captures
  | rate max interval => 1 ≤ max ∧ max ≤ 0xFFFFFFFF ∧ 0 < interval
  | _ => True

end Setting

/-- A reading step whose outcome does not depend on the configuration read so far: it
applies one valid setting, or it fails, and the failure is reported with the current
location. -/
def Uniform (f : ConfFile → Except Exn ConfFile) : Prop :=
  (∃ d : Setting, d.Valid ∧ ∀ cf, f cf = .ok (d.apply cf)) ∨
  (∀ cf, ∃ e message, f cf = .error e ∧ located cf e = cf.syntaxError message)

/-- A valid setting is applied. -/
theorem uniform_ok (d : Setting) (h : d.Valid) : Uniform fun cf => .ok (d.apply cf) :=
  .inl ⟨d, h, fun _ => rfl⟩

/-- A syntax error with a given message. -/
theorem uniform_syntaxError (message : Bytes) :
    Uniform fun cf => .error (cf.syntaxError message) :=
  .inr fun _ => ⟨_, message, rfl, rfl⟩

/-- An error of a helper class gets the location attached. -/
theorem uniform_error {e : Exn} (h : e.isRuntimeError = true)
    (hloc : ∀ path lineno message, e ≠ .syntaxError path lineno message) :
    Uniform fun _ => .error e := by
  refine .inr fun _ => ⟨e, e.what, rfl, ?_⟩
  cases e with
  | syntaxError path lineno message => exact absurd rfl (hloc path lineno message)
  | outOfRange => cases h
  | _ => rfl

/-! ### The directives -/

/-- `watch` is uniform. -/
theorem uniform_parseWatch : (args : List Bytes) → Uniform fun cf => parseWatch cf args
  | [] => uniform_syntaxError _
  | [file] => uniform_ok (.watch file) trivial
  | _ :: _ :: _ => uniform_syntaxError _

/-- The capture number does not depend on the configuration, and a failure to read it is
a syntax error. -/
theorem captureNumber_cases (capture : Option Bytes) :
    (∃ c : Int, 1 ≤ c ∧ ∀ cf, captureNumber cf capture = .ok c) ∨
    (∃ message, ∀ cf, captureNumber cf capture = .error (cf.syntaxError message)) := by
  cases capture with
  | none => exact .inl ⟨1, by omega, fun _ => rfl⟩
  | some arg =>
    unfold captureNumber
    dsimp only
    split
    · exact .inr ⟨_, fun _ => rfl⟩
    split
    · exact .inr ⟨_, fun _ => rfl⟩
    · rename_i hbad
      refine .inl ⟨_, ?_, fun _ => rfl⟩
      simp only [Bool.or_eq_true, decide_eq_true_eq, not_or] at hbad
      omega

/-- The error of a failed compilation is no syntax error of the configuration. -/
theorem compile_eq_error {regexp : Bytes} {e : Exn} (h : Regex.compile regexp = .error e) :
    ∃ text, e = .compilationError text := by
  unfold Regex.compile at h
  dsimp only at h
  split at h <;> cases h
  exact ⟨_, rfl⟩

/-- A pattern is compiled, and its capture is checked. -/
theorem uniform_addPattern (regexp : Bytes) (capture : Option Bytes) :
    Uniform fun cf => addPattern cf regexp capture := by
  unfold addPattern
  rcases captureNumber_cases capture with ⟨c, hc, hok⟩ | ⟨message, herr⟩
  · simp only [hok]
    cases hcomp : Regex.compile regexp with
    | error e =>
      obtain ⟨text, rfl⟩ := compile_eq_error hcomp
      exact uniform_error rfl (by simp)
    | ok r =>
      dsimp only
      split
      · exact uniform_syntaxError _
      split
      · exact uniform_syntaxError _
      -- Both checks were passed, so that the number is one of a group.
      · exact uniform_ok (.address ⟨r, c.toNat⟩)
          ⟨show 1 ≤ c.toNat by omega, show c.toNat ≤ r.captures by omega⟩
  · simp only [herr]
    exact uniform_syntaxError message

/-- `address` is uniform. -/
theorem uniform_parseAddress : (args : List Bytes) → Uniform fun cf => parseAddress cf args
  | [] => uniform_syntaxError _
  | [regexp] => uniform_addPattern regexp none
  | [regexp, capture] => uniform_addPattern regexp (some capture)
  | _ :: _ :: _ :: _ => uniform_syntaxError _

omit [Libc] in
/-- Every interval has a positive length. -/
theorem interval_pos {name : Bytes} {seconds : Nat} (h : interval name = some seconds) :
    0 < seconds := by
  unfold interval at h
  split at h
  · cases h; decide
  split at h
  · cases h; decide
  split at h
  · cases h; decide
  split at h
  · cases h; decide
  · cases h

/-- `rate` is uniform. -/
theorem uniform_parseRate : (args : List Bytes) → Uniform fun cf => parseRate cf args
  | [] => uniform_syntaxError _
  | [arg] => by
    unfold parseRate
    dsimp only
    split
    · exact uniform_syntaxError _
    split
    · exact uniform_syntaxError _
    · rename_i hbad
      simp only [Bool.or_eq_true, decide_eq_true_eq, not_or] at hbad
      cases hint : interval (Bytes.strtol (cstr arg)).rest with
      | none => exact uniform_syntaxError _
      | some seconds =>
        exact uniform_ok (.rate (Bytes.strtol (cstr arg)).value.toNat seconds)
          ⟨by omega, by omega, interval_pos hint⟩
  | _ :: _ :: _ => uniform_syntaxError _

/-- A text that is no address. -/
theorem convert_eq_error {s : Bytes} {pos : Nat} {n : Option Nat} {e : Exn}
    (h : AddressBase.convert s pos n = .error e) : e = .invalidAddress := by
  unfold AddressBase.convert at h
  dsimp only at h
  split at h <;> split at h <;> cases h <;> rfl

omit [Libc] in
/-- A netmask size that is out of range or no number. -/
theorem maskBits_eq_error {v : Int} {s : Bytes} {e : Exn}
    (h : AddressPattern.maskBits v s = .error e) : ∃ why, e = .invalidAddressPattern why := by
  unfold AddressPattern.maskBits at h
  dsimp only at h
  split at h
  · cases h; exact ⟨_, rfl⟩
  split at h
  · cases h; exact ⟨_, rfl⟩
  split at h <;> split at h <;> cases h <;> exact ⟨_, rfl⟩

/-- The two error classes of an address pattern. -/
theorem assign_eq_error {s : Bytes} {e : Exn} (h : AddressPattern.assign s = .error e) :
    e = .invalidAddress ∨ ∃ why, e = .invalidAddressPattern why := by
  unfold AddressPattern.assign at h
  dsimp only at h
  split at h
  · cases h
    exact .inl (convert_eq_error ‹_›)
  split at h
  · cases h
    exact .inr ⟨_, rfl⟩
  split at h
  · cases h
  split at h
  · cases h
    exact .inr (maskBits_eq_error ‹_›)
  · cases h

/-- `exempt` is uniform. -/
theorem uniform_parseExempt : (args : List Bytes) → Uniform fun cf => parseExempt cf args
  | [] => uniform_syntaxError _
  | [arg] => by
    unfold parseExempt
    dsimp only
    cases hassign : AddressPattern.assign arg with
    | error e =>
      rcases assign_eq_error hassign with rfl | ⟨why, rfl⟩
      · exact uniform_error rfl (by simp)
      · exact uniform_error rfl (by simp)
    | ok p => exact uniform_ok (.exempt p) trivial
  | _ :: _ :: _ => uniform_syntaxError _

/-- `block` is uniform. -/
theorem uniform_parseBlock : (args : List Bytes) → Uniform fun cf => parseBlock cf args
  | [] => uniform_syntaxError _
  | method :: args => by
    unfold parseBlock
    dsimp only
    cases BlockMethodType.find method with
    | none => exact uniform_syntaxError _
    | some type =>
      dsimp only
      cases type.create (lit "block" :: method :: args) with
      | error message => exact uniform_syntaxError message
      | ok b => exact uniform_ok (.block b) trivial

/-- **Every directive** is uniform. -/
theorem uniform_directive (name : Bytes) (args : List Bytes) :
    Uniform fun cf => directive cf name args := by
  unfold directive
  split
  · exact uniform_parseWatch args
  split
  · exact uniform_parseAddress args
  split
  · exact uniform_parseRate args
  split
  · exact uniform_parseExempt args
  split
  · exact uniform_parseBlock args
  · exact uniform_syntaxError _

/-- What a line does: one setting, a failure with the current location, or, exactly on a
line that stops inside an escape, `std::out_of_range`. -/
theorem parseLine_cases (line : Bytes) :
    (¬ StopsInEscape line ∧ Uniform fun cf => parseLine cf line) ∨
    (StopsInEscape line ∧ ∀ cf, parseLine cf line = .error .outOfRange) := by
  unfold parseLine
  by_cases hstop : StopsInEscape line
  · exact .inr ⟨hstop, fun cf => by rw [(splitLine_eq_outOfRange_iff cf line).mpr hstop]⟩
  -- The tokens do not depend on the configuration, so the line either has them or not.
  · refine .inl ⟨hstop, ?_⟩
    by_cases hok : ∃ bits, ∀ cf, splitLine cf line = .ok bits
    · obtain ⟨bits, hbits⟩ := hok
      simp only [hbits]
      cases bits with
      | nil => exact uniform_ok .nothing trivial
      | cons name args => exact uniform_directive name args
    · refine .inr fun cf => ?_
      rcases splitLine_cases cf line with ⟨-, h⟩ | ⟨-, message, h⟩ | ⟨h, -⟩
      · exact absurd h hok
      · exact ⟨_, message, by dsimp only; rw [h], rfl⟩
      · exact absurd h hstop

/-! ### The lines of a file -/

/-- The line is accepted, whatever was read before it. -/
def Acceptable (line : Bytes) : Prop := ∀ cf, ∃ cf', parseLine cf line = .ok cf'

/-- An acceptable line has a setting. -/
theorem Acceptable.setting {line : Bytes} (h : Acceptable line) :
    ∃ d : Setting, d.Valid ∧ ∀ cf, parseLine cf line = .ok (d.apply cf) := by
  rcases parseLine_cases line with ⟨-, hok | herr⟩ | ⟨-, hstop⟩
  · exact hok
  · obtain ⟨cf', hcf'⟩ := h (initial [])
    obtain ⟨e, message, he, -⟩ := herr (initial [])
    cases hcf'.symm.trans he
  · obtain ⟨cf', hcf'⟩ := h (initial [])
    rw [hstop] at hcf'
    cases hcf'

/-- The loop of `parse` over lines that are split already. -/
def parseLines (cf : ConfFile) : List Bytes → Except Exn ConfFile
  | [] => .ok cf
  | line :: rest =>
    let cf := { cf with lineno := cf.lineno + 1 }
    match parseLine cf line with
    | .error e => .error (located cf e)
    | .ok cf => parseLines cf rest

/-- The lines after one that is accepted. -/
theorem parseLines_of_ok {cf cf' : ConfFile} {line : Bytes} {rest : List Bytes}
    (h : parseLine { cf with lineno := cf.lineno + 1 } line = .ok cf') :
    parseLines cf (line :: rest) = parseLines cf' rest := by
  rw [parseLines]
  rw [h]

omit [Libc] in
/-- `readline` takes the first line off the text. -/
theorem lines_of_readlineFrom {path line unread line' rest : Bytes} {got : Bool}
    (h : StdioFile.readlineFrom path none line unread = .ok (got, line', rest)) :
    linesFrom line unread = if got then line' :: lines rest else [] := by
  induction unread generalizing line with
  | nil =>
    simp only [StdioFile.readlineFrom, Except.ok.injEq, Prod.mk.injEq] at h
    obtain ⟨rfl, rfl, rfl⟩ := h
    cases line <;> rfl
  | cons c unread ih =>
    rw [StdioFile.readlineFrom] at h
    rw [linesFrom_cons]
    split at h
    · cases h
      rw [if_pos ‹_›]
      rfl
    · rw [if_neg ‹_›]
      exact ih h

omit [Libc] in
/-- Without a read error, `readline` always returns. -/
theorem exists_readlineFrom (path line unread : Bytes) :
    ∃ r, StdioFile.readlineFrom path none line unread = .ok r := by
  induction unread generalizing line with
  | nil => exact ⟨_, rfl⟩
  | cons c unread ih =>
    rw [StdioFile.readlineFrom]
    split
    · exact ⟨_, rfl⟩
    · exact ih _

/-- `parse` runs over the lines of the file. -/
theorem parseLoop_eq_parseLines (cf : ConfFile) (path unread : Bytes) :
    parseLoop cf ⟨path, unread, none⟩ = parseLines cf (lines unread) := by
  -- Induction on the bytes that are left: each line that is read shortens them.
  induction hn : unread.length using Nat.strong_induction_on generalizing cf unread with
  | _ n ih =>
    obtain ⟨⟨got, line, rest⟩, hread⟩ := exists_readlineFrom path [] unread
    have hreadline : StdioFile.readline ⟨path, unread, none⟩
        = .ok (got, line, ⟨path, rest, none⟩) := by
      rw [StdioFile.readline, hread]
    rw [lines, lines_of_readlineFrom hread, parseLoop]
    split
    · rename_i e he
      cases hreadline.symm.trans he
    · rename_i hgot
      cases hreadline.symm.trans hgot
      rfl
    · rename_i line' f' hgot
      cases hreadline.symm.trans hgot
      have hlt := StdioFile.length_of_readline hgot
      rw [if_pos rfl, parseLines]
      dsimp only
      cases parseLine { cf with lineno := cf.lineno + 1 } line with
      | error e => rfl
      | ok cf' => exact ih rest.length (hn ▸ hlt) cf' rest rfl

/-- The constructor on a file that reads without an error. -/
theorem construct_eq_parseLines (path content : Bytes) :
    construct path (.ok (content, none)) = parseLines (initial path) (lines content) := by
  rw [construct, parse, StdioFile.openRead]
  exact parseLoop_eq_parseLines _ _ _

/-- The first unacceptable line stops the reading: with a `SyntaxError` that names its
number, or with `std::out_of_range` when it stops inside an escape. -/
theorem parseLines_cases (cf : ConfFile) (ls : List Bytes) :
    ((∀ line ∈ ls, Acceptable line) ∧ ∃ cf', parseLines cf ls = .ok cf') ∨
    (∃ before line after, ls = before ++ line :: after ∧ (∀ l ∈ before, Acceptable l) ∧
      ¬ Acceptable line ∧
      ((¬ StopsInEscape line ∧ ∃ message, parseLines cf ls
          = .error (.syntaxError cf.path (cf.lineno + before.length + 1) message)) ∨
        (StopsInEscape line ∧ parseLines cf ls = .error .outOfRange))) := by
  induction ls generalizing cf with
  | nil => exact .inl ⟨by simp, cf, rfl⟩
  | cons line rest ih =>
    rw [parseLines]
    rcases parseLine_cases line with ⟨hns, ⟨d, -, hd⟩ | herr⟩ | ⟨hstop, hout⟩
    · -- The line is acceptable, and the rest of the file decides.
      have hacc : Acceptable line := fun cf => ⟨_, hd cf⟩
      simp only [hd]
      rcases ih (d.apply { cf with lineno := cf.lineno + 1 }) with
        ⟨hall, cf', hok⟩ | ⟨before, l, after, rfl, hbefore, hl, hresult⟩
      · exact .inl ⟨by simpa using ⟨hacc, hall⟩, cf', hok⟩
      · refine .inr ⟨line :: before, l, after, rfl, by simpa using ⟨hacc, hbefore⟩, hl, ?_⟩
        rw [Setting.apply_path, Setting.apply_lineno] at hresult
        dsimp only at hresult
        rw [List.length_cons, show cf.lineno + (before.length + 1) + 1
          = cf.lineno + 1 + before.length + 1 by omega]
        exact hresult
    · -- The line is refused, at its own number.
      obtain ⟨e, message, he, hloc⟩ := herr { cf with lineno := cf.lineno + 1 }
      dsimp only at he hloc ⊢
      have hnacc : ¬ Acceptable line := by
        intro hacc
        obtain ⟨cf', hcf'⟩ := hacc { cf with lineno := cf.lineno + 1 }
        cases hcf'.symm.trans he
      refine .inr ⟨[], line, rest, rfl, by simp, hnacc, .inl ⟨hns, message, ?_⟩⟩
      rw [he]
      dsimp only
      rw [hloc]
      rfl
    · -- `located` lets `std::out_of_range` through.
      have hnacc : ¬ Acceptable line := by
        intro hacc
        obtain ⟨cf', hcf'⟩ := hacc (initial [])
        cases hcf'.symm.trans (hout _)
      refine .inr ⟨[], line, rest, rfl, by simp, hnacc, .inr ⟨hstop, ?_⟩⟩
      simp only [hout]
      rfl

/-- After acceptable lines, a line that stops inside an escape ends the reading with
`std::out_of_range`. -/
theorem parseLines_eq_outOfRange (cf : ConfFile) {before after : List Bytes} {line : Bytes}
    (hbefore : ∀ l ∈ before, Acceptable l) (hstop : StopsInEscape line) :
    parseLines cf (before ++ line :: after) = .error .outOfRange := by
  induction before generalizing cf with
  | nil =>
    rcases parseLine_cases line with ⟨hns, -⟩ | ⟨-, hout⟩
    · exact absurd hstop hns
    · rw [List.nil_append, parseLines, hout]
      rfl
  | cons l before ih =>
    obtain ⟨d, -, hd⟩ := (hbefore l (by simp)).setting
    rw [List.cons_append, parseLines, hd]
    exact ih _ fun l' hl' => hbefore l' (by simp [hl'])

/-- A `SyntaxError` for the first line of the file that is not acceptable. -/
def FirstBadLineReported (path content : Bytes) : Prop :=
  ∃ before line after message, lines content = before ++ line :: after ∧
    (∀ l ∈ before, Acceptable l) ∧ ¬ Acceptable line ∧
    construct path (.ok (content, none)) = .error (.syntaxError path (before.length + 1) message)

/-- **How reading a configuration file ends.** It yields a configuration, or reports the
first line that is not acceptable by its number, exactly when that line does not stop
inside an escape. -/
theorem construct_syntaxError_iff (path content : Bytes) :
    ((∃ cf, construct path (.ok (content, none)) = .ok cf ∧ ∀ line ∈ lines content, Acceptable line)
        ∨ FirstBadLineReported path content) ↔
      ∀ before line after, lines content = before ++ line :: after →
        (∀ l ∈ before, Acceptable l) → ¬ StopsInEscape line := by
  unfold FirstBadLineReported
  rw [construct_eq_parseLines]
  constructor
  · intro h before line after hlines hbefore hstop
    have hout : parseLines (initial path) (before ++ line :: after) = .error .outOfRange :=
      parseLines_eq_outOfRange _ hbefore hstop
    rw [← hlines] at hout
    rcases h with ⟨cf, hok, -⟩ | ⟨_, _, _, message, -, -, -, herr⟩
    · cases hok.symm.trans hout
    · cases herr.symm.trans hout
  · intro h
    rcases parseLines_cases (initial path) (lines content) with
      ⟨hall, cf', hok⟩ | ⟨before, line, after, hlines, hbefore, hline, hresult⟩
    · exact .inl ⟨cf', hok, hall⟩
    · rcases hresult with ⟨-, message, herr⟩ | ⟨hstop, -⟩
      · refine .inr ⟨before, line, after, message, hlines, hbefore, hline, ?_⟩
        rw [herr]
        simp [initial]
      · exact absurd hstop (h before line after hlines hbefore)

omit [Libc] in
/-- The file `watch "a\` with an escape cut off at its end: `std::out_of_range` leaves the
constructor, and it is not a `std::runtime_error`. -/
theorem construct_cut_escape :
    letI := Libc.noMatch
    construct (lit "blockad.conf") (.ok (lit "watch \"a\\", none)) = .error .outOfRange ∧
      Exn.isRuntimeError .outOfRange = false := by
  let _ := Libc.noMatch
  have hlines : lines (lit "watch \"a\\") = [] ++ lit "watch \"a\\" :: [] := by decide
  refine ⟨?_, rfl⟩
  rw [construct_eq_parseLines, hlines]
  exact parseLines_eq_outOfRange _ (by simp) (by decide)

/-! ### Accepted configurations -/

/-- What the checks promise of an accepted configuration. -/
structure ConfigValid (cf : ConfFile) : Prop where
  /-- Each capture number names a group of its pattern. -/
  captures : ∀ m ∈ cf.patterns, 1 ≤ m.capture ∧ m.capture ≤ m.regex.captures
  rateMax : 1 ≤ cf.rateMax ∧ cf.rateMax ≤ 0xFFFFFFFF
  rateInterval : 0 < cf.rateInterval

/-- A valid setting keeps the configuration valid. -/
theorem Setting.valid_apply {cf : ConfFile} {d : Setting} (hd : d.Valid)
    (h : ConfigValid cf) : ConfigValid (d.apply cf) := by
  cases d with
  | address m =>
    refine { h with captures := fun m' hm' => ?_ }
    rcases List.mem_append.mp hm' with hold | hnew
    · exact h.captures m' hold
    · rw [List.mem_singleton.mp hnew]
      exact hd
  | rate max interval =>
    exact { h with rateMax := ⟨hd.1, hd.2.1⟩, rateInterval := hd.2.2 }
  | nothing | watch _ | exempt _ | block _ => exact { h with }

/-- A line that is read keeps the configuration valid. -/
theorem valid_of_parseLine {cf cf' : ConfFile} {line : Bytes} (hcf : ConfigValid cf)
    (h : cf.parseLine line = .ok cf') : ConfigValid cf' := by
  rcases parseLine_cases line with ⟨-, ⟨d, hvalid, hd⟩ | herr⟩ | ⟨-, hout⟩
  · have hline : cf.parseLine line = _ := hd cf
    rw [h] at hline
    cases hline
    exact Setting.valid_apply hvalid hcf
  · obtain ⟨e, message, he, -⟩ := herr cf
    cases h.symm.trans he
  · cases h.symm.trans (hout cf)

/-- So does what is left of a file. -/
theorem valid_of_parseLoop {cf cf' : ConfFile} {f : StdioFile} (hcf : ConfigValid cf)
    (h : cf.parseLoop f = .ok cf') : ConfigValid cf' := by
  fun_induction ConfFile.parseLoop cf f with
  | case1 | case3 => cases h
  | case2 => cases h; exact hcf
  | case4 cf f line f' hread next next' hline ih =>
    have hnext : ConfigValid next := { hcf with }
    exact ih (valid_of_parseLine hnext hline) h

/-- **Every configuration the constructor yields is valid.** -/
theorem valid_construct {path : Bytes} {file : FileContent} {cf : ConfFile}
    (h : construct path file = .ok cf) : ConfigValid cf := by
  rw [construct, parse] at h
  split at h
  · cases h
  · refine valid_of_parseLoop ⟨?_, ?_, ?_⟩ h <;> simp [initial]

end Blockad.Proofs
