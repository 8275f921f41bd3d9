import Blockad.Lib.Decimal
import Blockad.Proofs.Directives
import Blockad.Proofs.Quoting

/-!
# `Blockad.Proofs.Settings`: configurations can be written down and read back

The program reads configurations and never writes one. `Settings` is what a configuration can
say, with the checks of the directives as fields, and `Settings.print` writes it as a file.

* `parseLine_written`: a directive with quoted arguments is read as it is.
* `construct_print`: what is written is read back, with nothing lost.
* `construct_normal_form`: every configuration that a file can have is one of these, so that no
  accepted configuration is out of the reach of the syntax.
-/

set_option autoImplicit false

namespace Blockad.Proofs

open Bytes ConfFile Quoting

/-! ### Settings -/

/-- The units of `rate`. -/
inductive RateUnit where
  | minute
  | hour
  | day
  | week
  deriving DecidableEq, Repr

namespace RateUnit

def name : RateUnit → Bytes
  | minute => lit "/minute"
  | hour => lit "/hour"
  | day => lit "/day"
  | week => lit "/week"

def seconds : RateUnit → Nat
  | minute => 60
  | hour => 60 * 60
  | day => 60 * 60 * 24
  | week => 60 * 60 * 24 * 7

/-- The name of a unit is read as its seconds. -/
theorem interval_name (u : RateUnit) : interval u.name = some u.seconds := by
  cases u <;> decide

/-- There are no other units. -/
theorem exists_of_interval {name : Bytes} {seconds : Nat} (h : interval name = some seconds) :
    ∃ u : RateUnit, u.seconds = seconds := by
  unfold interval at h
  split at h
  · exact ⟨minute, Option.some.inj h⟩
  split at h
  · exact ⟨hour, Option.some.inj h⟩
  split at h
  · exact ⟨day, Option.some.inj h⟩
  split at h
  · exact ⟨week, Option.some.inj h⟩
  · cases h

end RateUnit

/-- What `rate` can say. -/
structure RateSetting where
  max : Nat
  unit : RateUnit
  pos : 1 ≤ max
  fits : max ≤ 0xFFFFFFFF

section
variable [Libc]

/-- What `address` can say: a pattern by its text, and one of its groups. -/
structure AddressSetting where
  regexp : Bytes
  found : Match
  compiles : Regex.compile regexp = .ok found.regex
  pos : 1 ≤ found.capture
  fits : found.capture ≤ 0x7FFFFFFF
  inRange : found.capture ≤ found.regex.captures

/-- What `exempt` can say: a pattern by its text. -/
structure ExemptSetting where
  text : Bytes
  pattern : AddressPattern
  assigned : AddressPattern.assign text = .ok pattern

/-- What a configuration can say. -/
structure Settings where
  files : List Bytes
  patterns : List AddressSetting
  exempted : List ExemptSetting
  rate : RateSetting
  block : BlockMethod

/-- The configuration that says this. -/
def Settings.config (s : Settings) (path : Bytes) (lineno : Nat) : ConfFile where
  files := s.files
  patterns := s.patterns.map AddressSetting.found
  exempted := s.exempted.map ExemptSetting.pattern
  rateMax := s.rate.max
  rateInterval := s.rate.unit.seconds
  block := s.block
  path := path
  lineno := lineno

end

/-! ### One line -/

/-- An argument, quoted. A newline would end the line, so it is only written as an escape. -/
def quoted (arg : Bytes) : Token :=
  if h : chr '\'' ∉ arg ∧ nl ∉ arg then .single arg h.1 else octalToken arg

/-- A quoted argument has the value that it was made for. -/
theorem value_quoted (arg : Bytes) : (quoted arg).value = arg := by
  unfold quoted
  split
  · rfl
  · exact octalToken_value arg

/-- Its escapes are in range. -/
theorem inRange_quoted (arg : Bytes) : (quoted arg).InRange := by
  unfold quoted
  split
  · trivial
  · exact octalToken_inRange arg

/-- An octal escape has no newline in it. -/
theorem nl_notMem_octalSpelling (c : UInt8) : nl ∉ (octalSpelling c).render := by
  have hdigit (d : Fin 8) : nl ≠ octalChar d := by
    revert d
    decide
  simp only [octalSpelling, Spelling.render, List.map_cons, List.map_nil, List.mem_cons, not_or]
  exact ⟨by decide, hdigit _, hdigit _, hdigit _, List.not_mem_nil⟩

/-- A quoted argument is on one line, whatever its value. -/
theorem nl_notMem_quoted (arg : Bytes) : nl ∉ (quoted arg).render := by
  unfold quoted
  split
  · rename_i h
    simp [Token.render, h.2]
    decide
  · intro hmem
    simp only [octalToken, Token.render, List.mem_cons, List.mem_append, List.mem_flatMap,
      List.mem_map] at hmem
    rcases hmem with hmem | ⟨sp, ⟨c, -, rfl⟩, hmem⟩ | hmem | hmem
    · exact absurd hmem (by decide)
    · exact nl_notMem_octalSpelling c hmem
    · exact absurd hmem (by decide)
    · cases hmem

/-- The name of a directive, as it is written. -/
structure Keyword where
  name : Bytes
  nonempty : name ≠ []
  noSpace : chr ' ' ∉ name
  noNewline : nl ∉ name
  first : ∀ c ∈ name.head?, c ≠ chr '#' ∧ c ≠ chr '"' ∧ c ≠ chr '\''

/-- A directive. -/
structure Written where
  keyword : Keyword
  args : List Bytes

namespace Written

/-- The line of a directive. -/
def line (w : Written) : Line where
  leading := 0
  tokens := (.unquoted w.keyword.name w.keyword.nonempty w.keyword.noSpace w.keyword.first, 1) ::
    w.args.map fun arg => (quoted arg, 1)
  comment := none
  apart := by
    refine ⟨fun _ h => absurd h (by decide), ?_⟩
    induction w.args with
    | nil => trivial
    | cons arg args ih => exact ⟨fun _ h => absurd h (by decide), ih⟩

/-- The words of a line are its keyword and its arguments. -/
theorem values_line (w : Written) : w.line.values = w.keyword.name :: w.args := by
  have hargs : (w.args.map fun arg => (quoted arg, 1)).map (fun t : Spaced => t.1.value)
      = w.args := by
    rw [List.map_map]
    exact (List.map_congr_left fun arg _ => value_quoted arg).trans (List.map_id _)
  unfold Line.values line
  rw [List.map_cons, hargs]
  rfl

/-- All the escapes of a line are in range. -/
theorem inRange_line (w : Written) : w.line.InRange := by
  intro t ht
  rcases List.mem_cons.mp ht with rfl | ht
  · trivial
  · obtain ⟨arg, -, rfl⟩ := List.mem_map.mp ht
    exact inRange_quoted arg

/-- A line has no newline in it. -/
theorem nl_notMem_line (w : Written) : nl ∉ w.line.render := by
  have hargs : nl ∉ renderTokens (w.args.map fun arg => (quoted arg, 1)) none := by
    induction w.args with
    | nil => exact List.not_mem_nil
    | cons arg args ih =>
      simp only [List.map_cons, renderTokens, List.mem_append, List.replicate_one,
        List.mem_singleton, not_or]
      exact ⟨nl_notMem_quoted arg, by decide, ih⟩
  simp only [line, Line.render, List.replicate_zero, List.nil_append, renderTokens,
    List.replicate_one, List.mem_append, List.mem_singleton, not_or]
  exact ⟨w.keyword.noNewline, by decide, hargs⟩

end Written

/-- **A written line is read as the directive.** -/
theorem parseLine_written [Libc] (cf : ConfFile) (w : Written) :
    parseLine cf w.line.render = directive cf w.keyword.name w.args := by
  unfold parseLine
  rw [(splitLine_render cf w.line).1 w.inRange_line, w.values_line]

/-! ### The file -/

/-- The lines of a text whose lines end with newlines. -/
theorem lines_flatMap {α : Type} {line : α → Bytes} {xs : List α}
    (h : ∀ x ∈ xs, nl ∉ line x) : lines (xs.flatMap fun x => line x ++ [nl]) = xs.map line := by
  have hfirst (before text : Bytes) (rest : Bytes) (htext : nl ∉ text) :
      linesFrom before (text ++ nl :: rest) = (before ++ text) :: lines rest := by
    induction text generalizing before with
    | nil => simp [linesFrom_cons, lines]
    | cons c text ih =>
      have hc : (c == nl) = false := by simpa using fun heq : c = nl => htext (by simp [heq])
      rw [List.cons_append, linesFrom_cons, hc]
      have htext' : nl ∉ text := fun hmem => htext (List.mem_cons_of_mem c hmem)
      exact (ih _ htext').trans (by rw [List.append_assoc]; rfl)
  induction xs with
  | nil => rfl
  | cons x xs ih =>
    rw [List.flatMap_cons, List.append_assoc]
    show linesFrom [] (line x ++ nl :: xs.flatMap fun x => line x ++ [nl]) = _
    rw [hfirst [] _ _ (h x List.mem_cons_self), List.nil_append,
      ih fun y hy => h y (List.mem_cons_of_mem x hy)]
    rfl

/-- Digits have no NUL, and do not end the string. -/
theorem cstr_digits {n : Nat} {rest : Bytes} (h : 0 ∉ rest) :
    cstr (ofNat n ++ rest) = ofNat n ++ rest := by
  refine cstr_eq_self fun hmem => ?_
  rcases List.mem_append.mp hmem with hmem | hmem
  · exact absurd (isDigit_of_mem_ofNat hmem) (by decide)
  · exact h hmem

def watchKeyword : Keyword :=
  ⟨lit "watch", by decide, by decide, by decide, by rintro c ⟨⟩; decide⟩

def addressKeyword : Keyword :=
  ⟨lit "address", by decide, by decide, by decide, by rintro c ⟨⟩; decide⟩

def exemptKeyword : Keyword :=
  ⟨lit "exempt", by decide, by decide, by decide, by rintro c ⟨⟩; decide⟩

def rateKeyword : Keyword :=
  ⟨lit "rate", by decide, by decide, by decide, by rintro c ⟨⟩; decide⟩

def blockKeyword : Keyword :=
  ⟨lit "block", by decide, by decide, by decide, by rintro c ⟨⟩; decide⟩

/-- The arguments of `block`. -/
def blockWords : BlockMethod → List Bytes
  | .iptables => [lit "iptables"]
  | .hostsDeny path => [lit "hosts.deny", path]

section
variable [Libc]

/-- The directives that say all this, each with what it sets. -/
def Settings.directives (s : Settings) : List (Written × Setting) :=
  s.files.map (fun file => (⟨watchKeyword, [file]⟩, .watch file)) ++
  s.patterns.map (fun p =>
    (⟨addressKeyword, [p.regexp, ofNat p.found.capture]⟩, .address p.found)) ++
  s.exempted.map (fun p => (⟨exemptKeyword, [p.text]⟩, .exempt p.pattern)) ++
  [(⟨rateKeyword, [ofNat s.rate.max ++ s.rate.unit.name]⟩,
      .rate s.rate.max s.rate.unit.seconds),
    (⟨blockKeyword, blockWords s.block⟩, .block s.block)]

/-- A configuration file that says all this. -/
def Settings.print (s : Settings) : Bytes :=
  s.directives.flatMap fun d => d.1.line.render ++ [nl]

/-- The directive sets what it should set. -/
def Sets (d : Written × Setting) : Prop :=
  ∀ cf, directive cf d.1.keyword.name d.1.args = .ok (d.2.apply cf)

/-- What `watch` is dispatched to. -/
theorem directive_watch (cf : ConfFile) (args : List Bytes) :
    directive cf (lit "watch") args = parseWatch cf args := by
  unfold directive
  rw [if_pos (by decide)]

/-- What `address` is dispatched to. -/
theorem directive_address (cf : ConfFile) (args : List Bytes) :
    directive cf (lit "address") args = parseAddress cf args := by
  unfold directive
  rw [if_neg (by decide), if_pos (by decide)]

/-- What `rate` is dispatched to. -/
theorem directive_rate (cf : ConfFile) (args : List Bytes) :
    directive cf (lit "rate") args = parseRate cf args := by
  unfold directive
  rw [if_neg (by decide), if_neg (by decide), if_pos (by decide)]

/-- What `exempt` is dispatched to. -/
theorem directive_exempt (cf : ConfFile) (args : List Bytes) :
    directive cf (lit "exempt") args = parseExempt cf args := by
  unfold directive
  rw [if_neg (by decide), if_neg (by decide), if_neg (by decide), if_pos (by decide)]

/-- What `block` is dispatched to. -/
theorem directive_block (cf : ConfFile) (args : List Bytes) :
    directive cf (lit "block") args = parseBlock cf args := by
  unfold directive
  rw [if_neg (by decide), if_neg (by decide), if_neg (by decide), if_neg (by decide),
    if_pos (by decide)]

/-- A written `watch` adds its file. -/
theorem sets_watch (file : Bytes) : Sets (⟨watchKeyword, [file]⟩, .watch file) := by
  intro cf
  exact directive_watch cf [file]

/-- A written `address` adds its pattern, with the capture as a number. -/
theorem sets_address (p : AddressSetting) :
    Sets (⟨addressKeyword, [p.regexp, ofNat p.found.capture]⟩, .address p.found) := by
  intro cf
  have hpos := p.pos
  have hfits := p.fits
  have hrange := p.inRange
  have hstrtol : strtol (cstr (ofNat p.found.capture))
      = ⟨p.found.capture, [], true, false⟩ := by
    have hcstr := @cstr_digits p.found.capture [] List.not_mem_nil
    have hround := @strtol_ofNat p.found.capture (by unfold longMax; omega) [] nofun
    rw [List.append_nil] at hcstr hround
    rw [hcstr, hround]
  have hcapture : captureNumber cf (some (ofNat p.found.capture)) = .ok p.found.capture := by
    unfold captureNumber
    dsimp only
    rw [hstrtol]
    have hlow : ¬ ((p.found.capture : Int) < 1) := by omega
    have hhigh : ¬ ((p.found.capture : Int) > 0x7FFFFFFF) := by omega
    simp [hlow, hhigh]
  refine (directive_address cf _).trans ?_
  unfold parseAddress addPattern
  dsimp only
  rw [hcapture, p.compiles]
  dsimp only
  rw [if_neg (by omega), if_neg (by rw [Int.toNat_natCast]; omega), Int.toNat_natCast]
  rfl

/-- A written `exempt` adds its network. -/
theorem sets_exempt (p : ExemptSetting) :
    Sets (⟨exemptKeyword, [p.text]⟩, .exempt p.pattern) := by
  intro cf
  refine (directive_exempt cf _).trans ?_
  unfold parseExempt
  dsimp only
  rw [p.assigned]
  rfl

/-- A written `rate` sets both parts of the rate. -/
theorem sets_rate (r : RateSetting) :
    Sets (⟨rateKeyword, [ofNat r.max ++ r.unit.name]⟩, .rate r.max r.unit.seconds) := by
  intro cf
  have hpos := r.pos
  have hfits := r.fits
  have hunit : 0 ∉ r.unit.name ∧ ∀ c ∈ r.unit.name.head?, isDigit c = false := by
    cases r.unit <;> exact ⟨by decide, by rintro c ⟨⟩; decide⟩
  have hstrtol : strtol (cstr (ofNat r.max ++ r.unit.name))
      = ⟨r.max, r.unit.name, true, false⟩ := by
    rw [cstr_digits hunit.1, strtol_ofNat (by unfold longMax; omega) hunit.2]
  refine (directive_rate cf _).trans ?_
  unfold parseRate
  dsimp only
  rw [hstrtol]
  have hlow : ¬ ((r.max : Int) < 1) := by omega
  have hhigh : ¬ ((r.max : Int) > 0xFFFFFFFF) := by omega
  simp [hlow, hhigh, RateUnit.interval_name, Setting.apply]

/-- A written `block` sets its method. -/
theorem sets_block (b : BlockMethod) : Sets (⟨blockKeyword, blockWords b⟩, .block b) := by
  intro cf
  refine (directive_block cf _).trans ?_
  cases b with
  | iptables => rfl
  | hostsDeny path => rfl

/-- **Every directive** that is written is read as what it was written for. -/
theorem sets_directives (s : Settings) : ∀ d ∈ s.directives, Sets d := by
  intro d hd
  simp only [Settings.directives, List.mem_append, List.mem_map, List.mem_cons,
    List.not_mem_nil, or_false] at hd
  rcases hd with ((⟨file, -, rfl⟩ | ⟨p, -, rfl⟩) | ⟨p, -, rfl⟩) | rfl | rfl
  · exact sets_watch file
  · exact sets_address p
  · exact sets_exempt p
  · exact sets_rate s.rate
  · exact sets_block s.block

/-! ### Reading it back -/

/-- No setting looks at the line number. -/
theorem apply_with_lineno (cf : ConfFile) (d : Setting) (n : Nat) :
    d.apply { cf with lineno := n } = { d.apply cf with lineno := n } := by
  cases d <;> rfl

/-- What some directives set, one after the other. -/
def applyAll (cf : ConfFile) (ds : List (Written × Setting)) : ConfFile :=
  ds.foldl (fun cf d => d.2.apply cf) cf

/-- The same for any number of settings. -/
theorem applyAll_with_lineno (cf : ConfFile) (ds : List (Written × Setting)) (n : Nat) :
    applyAll { cf with lineno := n } ds = { applyAll cf ds with lineno := n } := by
  induction ds generalizing cf with
  | nil => rfl
  | cons d ds ih =>
    show applyAll (d.2.apply { cf with lineno := n }) ds = _
    rw [apply_with_lineno, ih]
    rfl

/-- Directives that set what they should set. -/
theorem parseLines_written {ds : List (Written × Setting)} (h : ∀ d ∈ ds, Sets d)
    (cf : ConfFile) :
    parseLines cf (ds.map fun d => d.1.line.render)
      = .ok { applyAll cf ds with lineno := cf.lineno + ds.length } := by
  induction ds generalizing cf with
  | nil => rfl
  | cons d ds ih =>
    have hline : parseLine { cf with lineno := cf.lineno + 1 } d.1.line.render
        = .ok { d.2.apply cf with lineno := cf.lineno + 1 } := by
      rw [parseLine_written, ← apply_with_lineno]
      exact h d List.mem_cons_self _
    rw [List.map_cons, parseLines_of_ok hline, ih fun d' hd' => h d' (List.mem_cons_of_mem d hd'),
      applyAll_with_lineno, List.length_cons]
    show Except.ok { applyAll (d.2.apply cf) ds with lineno := cf.lineno + 1 + ds.length } = _
    rw [Nat.add_assoc, Nat.add_comm 1]
    rfl

/-- Settings are applied one after the other. -/
theorem applyAll_append (cf : ConfFile) (ds ds' : List (Written × Setting)) :
    applyAll cf (ds ++ ds') = applyAll (applyAll cf ds) ds' := List.foldl_append

/-- The watched files are added in their order. -/
theorem applyAll_watch (cf : ConfFile) (files : List Bytes) (written : Bytes → Written) :
    applyAll cf (files.map fun file => (written file, .watch file))
      = { cf with files := cf.files ++ files } := by
  induction files generalizing cf with
  | nil => simp [applyAll]
  | cons file files ih =>
    exact (ih _).trans (by simp [Setting.apply])

/-- The patterns are added in their order. -/
theorem applyAll_address (cf : ConfFile) (ps : List AddressSetting)
    (written : AddressSetting → Written) :
    applyAll cf (ps.map fun p => (written p, .address p.found))
      = { cf with patterns := cf.patterns ++ ps.map AddressSetting.found } := by
  induction ps generalizing cf with
  | nil => simp [applyAll]
  | cons p ps ih =>
    exact (ih _).trans (by simp [Setting.apply])

/-- The exempted networks are added in their order. -/
theorem applyAll_exempt (cf : ConfFile) (ps : List ExemptSetting)
    (written : ExemptSetting → Written) :
    applyAll cf (ps.map fun p => (written p, .exempt p.pattern))
      = { cf with exempted := cf.exempted ++ ps.map ExemptSetting.pattern } := by
  induction ps generalizing cf with
  | nil => simp [applyAll]
  | cons p ps ih =>
    exact (ih _).trans (by simp [Setting.apply])

/-- The directives of some settings make the configuration that says them. -/
theorem applyAll_directives (s : Settings) (path : Bytes) (n : Nat) :
    { applyAll (initial path) s.directives with lineno := n } = s.config path n := by
  unfold Settings.directives
  rw [applyAll_append, applyAll_append, applyAll_append, applyAll_watch, applyAll_address,
    applyAll_exempt]
  rfl

/-- **The round trip.** What is written is read back: nothing is lost or changed, whatever bytes
the arguments have. -/
theorem construct_print (s : Settings) (path : Bytes) :
    construct path (.ok (s.print, none)) = .ok (s.config path s.directives.length) := by
  have hlines : lines s.print = s.directives.map fun d => d.1.line.render :=
    lines_flatMap fun d _ => d.1.nl_notMem_line
  rw [construct_eq_parseLines, hlines, parseLines_written (sets_directives s),
    applyAll_directives s path]
  simp [initial]

/-! ### What a file can say -/

/-- The configuration says what some settings say. -/
def SaidBy (path : Bytes) (cf : ConfFile) : Prop := ∃ s : Settings, cf = s.config path cf.lineno

/-- The initial configuration is that of some settings. -/
theorem saidBy_initial (path : Bytes) : SaidBy path (initial path) :=
  ⟨⟨[], [], [], ⟨5, .hour, by decide, by decide⟩, .iptables⟩, rfl⟩

/-- The line number is not part of the settings. -/
theorem SaidBy.with_lineno {path : Bytes} {cf : ConfFile} (h : SaidBy path cf) (n : Nat) :
    SaidBy path { cf with lineno := n } := by
  obtain ⟨s, hs⟩ := h
  exact ⟨s, by rw [hs]; rfl⟩

/-- A capture that is accepted fits into an `int`. -/
theorem captureNumber_le {cf : ConfFile} {capture : Option Bytes} {c : Int}
    (h : captureNumber cf capture = .ok c) : c ≤ 0x7FFFFFFF := by
  cases capture with
  | none =>
    obtain rfl := Except.ok.inj h
    decide
  | some arg =>
    unfold captureNumber at h
    dsimp only at h
    split at h
    · cases h
    split at h
    · cases h
    · rename_i hbad
      obtain rfl := Except.ok.inj h
      simp only [Bool.or_eq_true, decide_eq_true_eq, not_or] at hbad
      omega

variable {path : Bytes} {cf cf' : ConfFile}

/-- A pattern that is accepted can be written. -/
theorem SaidBy.addPattern {regexp : Bytes} {capture : Option Bytes} (h : SaidBy path cf)
    (hvalid : ConfigValid cf') (hrun : addPattern cf regexp capture = .ok cf') :
    SaidBy path cf' := by
  obtain ⟨s, hs⟩ := h
  obtain ⟨r, c, hr, hc, rfl⟩ := addPattern_eq_ok hrun
  obtain ⟨hpos, hrange⟩ := hvalid.captures ⟨r, c.toNat⟩ (by simp)
  have hle := captureNumber_le hc
  refine ⟨{ s with patterns := s.patterns ++
    [⟨regexp, ⟨r, c.toNat⟩, hr, hpos, by dsimp only; omega, hrange⟩] }, ?_⟩
  rw [hs]
  simp [Settings.config]

/-- **One directive.** -/
theorem SaidBy.directive {name : Bytes} {args : List Bytes} (h : SaidBy path cf)
    (hvalid : ConfigValid cf') (hrun : directive cf name args = .ok cf') : SaidBy path cf' := by
  unfold ConfFile.directive at hrun
  split at hrun
  · obtain ⟨s, hs⟩ := h
    obtain ⟨file, -, rfl⟩ := parseWatch_eq_ok hrun
    refine ⟨{ s with files := s.files ++ [file] }, ?_⟩
    rw [hs]
    rfl
  split at hrun
  · rcases args with _ | ⟨regexp, _ | ⟨capture, _ | ⟨excess, rest⟩⟩⟩
    · cases hrun
    · rw [parseAddress] at hrun
      exact h.addPattern hvalid hrun
    · rw [parseAddress] at hrun
      exact h.addPattern hvalid hrun
    · cases hrun
  split at hrun
  · obtain ⟨s, hs⟩ := h
    obtain ⟨count, seconds, hargs, rfl⟩ := parseRate_eq_ok hrun
    obtain ⟨hpos, hfits⟩ := hvalid.rateMax
    rcases args with _ | ⟨arg, _ | ⟨excess, rest⟩⟩
    · cases hargs
    · obtain ⟨seconds', hinterval, heq⟩ := Option.map_eq_some_iff.mp hargs
      obtain ⟨-, rfl⟩ := Prod.mk.inj heq
      obtain ⟨u, rfl⟩ := RateUnit.exists_of_interval hinterval
      refine ⟨{ s with rate := ⟨count, u, hpos, hfits⟩ }, ?_⟩
      rw [hs]
      rfl
    · cases hargs
  split at hrun
  · obtain ⟨s, hs⟩ := h
    rcases args with _ | ⟨arg, _ | ⟨excess, rest⟩⟩
    · cases hrun
    · obtain ⟨p, hargs, rfl⟩ := parseExempt_eq_ok hrun
      have hassign : AddressPattern.assign arg = .ok p := by
        cases hrun' : AddressPattern.assign arg with
        | error e =>
          rw [exemptArgs, hrun'] at hargs
          cases hargs
        | ok p' =>
          rw [exemptArgs, hrun'] at hargs
          rw [Option.some.inj hargs]
      refine ⟨{ s with exempted := s.exempted ++ [⟨arg, p, hassign⟩] }, ?_⟩
      rw [hs]
      simp [Settings.config]
    · cases hrun
  split at hrun
  · obtain ⟨s, hs⟩ := h
    obtain ⟨b, -, rfl⟩ := parseBlock_eq_ok hrun
    refine ⟨{ s with block := b }, ?_⟩
    rw [hs]
    rfl
  · cases hrun

/-- **One line.** What it sets can be written. -/
theorem SaidBy.parseLine {line : Bytes} (h : SaidBy path cf) (hcf : ConfigValid cf)
    (hrun : parseLine cf line = .ok cf') : SaidBy path cf' := by
  have hvalid := valid_of_parseLine hcf hrun
  unfold ConfFile.parseLine at hrun
  split at hrun
  · cases hrun
  · exact Except.ok.inj hrun ▸ h
  · exact h.directive hvalid hrun

/-- By induction over the lines. -/
theorem SaidBy.parseLines {ls : List Bytes} (h : SaidBy path cf) (hcf : ConfigValid cf)
    (hrun : parseLines cf ls = .ok cf') : SaidBy path cf' := by
  induction ls generalizing cf with
  | nil => exact Except.ok.inj hrun ▸ h
  | cons line ls ih =>
    have hcf' : ConfigValid { cf with lineno := cf.lineno + 1 } := { hcf with }
    cases hline : ConfFile.parseLine { cf with lineno := cf.lineno + 1 } line with
    | error e =>
      rw [Proofs.parseLines, hline] at hrun
      cases hrun
    | ok next =>
      rw [parseLines_of_ok hline] at hrun
      exact ih ((h.with_lineno _).parseLine hcf' hline) (valid_of_parseLine hcf' hline) hrun

/-- **Nothing else can be said.** Every accepted file has a normal form: some settings, whose
file is accepted too and means the same. -/
theorem construct_normal_form {content : Bytes}
    (h : construct path (.ok (content, none)) = .ok cf) :
    ∃ s : Settings, cf = s.config path cf.lineno ∧
      ∃ cf', construct path (.ok (s.print, none)) = .ok cf' ∧ SameConfig cf cf' := by
  have hinitial : ConfigValid (initial path) := by
    constructor <;> simp [initial]
  rw [construct_eq_parseLines] at h
  obtain ⟨s, hs⟩ := (saidBy_initial path).parseLines hinitial h
  refine ⟨s, hs, _, construct_print s path, ?_⟩
  unfold SameConfig
  rw [hs]
  rfl

end

/-- One file to watch, with a quote in its name. -/
def oneQuote : letI := Libc.noMatch; Settings :=
  letI := Libc.noMatch
  { files := [lit "it's"], patterns := [], exempted := [],
    rate := ⟨7, .day, Nat.le_of_ble_eq_true rfl, Nat.le_of_ble_eq_true rfl⟩, block := .iptables }

example : @Settings.print Libc.noMatch oneQuote
    = lit "watch \"\\151\\164\\047\\163\" \nrate '7/day' \nblock 'iptables' \n" := by
  decide

/-- A file with a quoted argument. -/
theorem construct_normal_form_oneQuote :
    letI := Libc.noMatch
    ∃ s : Settings, oneQuote.config (lit "conf") 3 = s.config (lit "conf") 3 ∧
      ∃ cf', construct (lit "conf") (.ok (s.print, none)) = .ok cf' ∧
        SameConfig (oneQuote.config (lit "conf") 3) cf' :=
  @construct_normal_form Libc.noMatch _ _ _ (@construct_print Libc.noMatch oneQuote (lit "conf"))

end Blockad.Proofs
