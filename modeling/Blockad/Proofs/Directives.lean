import Blockad.Proofs.ConfFile

/-!
# `Blockad.Proofs.Directives`: what a configuration file says

A configuration file means what its directives say, each on its own: `watch`, `address` and
`exempt` lines add up in file order, and the last `rate` and `block` line win. `Describes`
states this of a configuration, from the tokens of the lines alone.

* `describes_of_parseLine`: what one accepted line does.
* `describes_of_parseLines`: what a file does, by induction over its lines.
* `construct_directives`: a file is accepted exactly when each of its lines is, the
  configuration is the one described, and only the order inside each kind of directive counts.
-/

set_option autoImplicit false

namespace Blockad.Proofs

open Bytes ConfFile

variable [Libc]

/-! ### What a line says -/

/-- The tokens of a line, if it can be split. -/
def tokens (line : Bytes) : Option (List Bytes) := (splitLine (initial []) line).toOption

/-- The arguments of the directive `name`, if that is what the line is. -/
def arguments (name line : Bytes) : Option (List Bytes) :=
  match tokens line with
  | some (name' :: args) => if name' == name then some args else none
  | _ => none

/-- The file of a `watch` directive. -/
def watchArgs : List Bytes → Option Bytes
  | [file] => some file
  | _ => none

/-- The compiled pattern and the capture number of an `address` directive. -/
def addressArgs : List Bytes → Option Match
  | [regexp] => (Regex.compile regexp).toOption.map (⟨·, 1⟩)
  | [regexp, capture] =>
    (Regex.compile regexp).toOption.map (⟨·, (Bytes.strtol (cstr capture)).value.toNat⟩)
  | _ => none

/-- The address pattern of an `exempt` directive. -/
def exemptArgs : List Bytes → Option AddressPattern
  | [arg] => (AddressPattern.assign arg).toOption
  | _ => none

/-- The number that `strtol` reads in a `rate` directive, and the interval that follows it. -/
def rateArgs : List Bytes → Option (Int × Nat)
  | [arg] =>
    (interval (Bytes.strtol (cstr arg)).rest).map ((Bytes.strtol (cstr arg)).value, ·)
  | _ => none

/-- The block method of a `block` directive. -/
def blockArgs : List Bytes → Option BlockMethod
  | method :: args =>
    (BlockMethodType.find method).bind fun type =>
      (type.create (lit "block" :: method :: args)).toOption
  | [] => none

def watchOf (line : Bytes) : Option Bytes := (arguments (lit "watch") line).bind watchArgs

def addressOf (line : Bytes) : Option Match := (arguments (lit "address") line).bind addressArgs

def exemptOf (line : Bytes) : Option AddressPattern :=
  (arguments (lit "exempt") line).bind exemptArgs

def rateOf (line : Bytes) : Option (Int × Nat) := (arguments (lit "rate") line).bind rateArgs

def blockOf (line : Bytes) : Option BlockMethod := (arguments (lit "block") line).bind blockArgs

/-- The configuration `cf'` is what the lines make of `cf`. -/
structure Describes (cf cf' : ConfFile) (ls : List Bytes) : Prop where
  files : cf'.files = cf.files ++ ls.filterMap watchOf
  patterns : cf'.patterns = cf.patterns ++ ls.filterMap addressOf
  exempted : cf'.exempted = cf.exempted ++ ls.filterMap exemptOf
  rate : ((cf'.rateMax : Int), cf'.rateInterval)
    = (ls.filterMap rateOf).getLastD (cf.rateMax, cf.rateInterval)
  block : cf'.block = (ls.filterMap blockOf).getLastD cf.block
  path : cf'.path = cf.path

/-! ### One line -/

/-- The tokens do not depend on the configuration. -/
theorem tokens_of_splitLine {cf : ConfFile} {line : Bytes} {bits : List Bytes}
    (h : splitLine cf line = .ok bits) : tokens line = some bits := by
  rcases splitLine_cases cf line with ⟨-, bits', hbits⟩ | ⟨-, message, herr⟩ | ⟨-, herr⟩
  · obtain rfl : bits' = bits := Except.ok.inj ((hbits cf).symm.trans h)
    rw [tokens, hbits]
    rfl
  · cases herr.symm.trans h
  · cases (herr cf).symm.trans h

/-- A line with words is split into them. -/
theorem splitLine_of_tokens {line : Bytes} {bits : List Bytes} (h : tokens line = some bits)
    (cf : ConfFile) : splitLine cf line = .ok bits := by
  rcases splitLine_cases (initial []) line with
    ⟨-, bits', hbits⟩ | ⟨-, message, herr⟩ | ⟨-, herr⟩
  · rw [tokens, hbits] at h
    obtain rfl := Option.some.inj h
    exact hbits cf
  · rw [tokens, herr] at h
    cases h
  · rw [tokens, herr] at h
    cases h

omit [Libc] in
/-- The last one that counts, or the first line if no later one does. -/
theorem getLastD_filterMap_cons {α : Type} {f : Bytes → Option α} {line : Bytes} {ls : List Bytes}
    {a : α} :
    ((line :: ls).filterMap f).getLastD a = (ls.filterMap f).getLastD ((f line).getD a) := by
  cases hf : f line with
  | none => rw [List.filterMap_cons_none hf, Option.getD_none]
  | some b => rw [List.filterMap_cons_some hf, List.getLastD_cons, Option.getD_some]

/-- An accepted `watch` adds its file. -/
theorem parseWatch_eq_ok {cf cf' : ConfFile} {args : List Bytes}
    (h : parseWatch cf args = .ok cf') :
    ∃ file, watchArgs args = some file ∧ cf' = { cf with files := cf.files ++ [file] } := by
  match args with
  | [file] => exact ⟨file, rfl, (Except.ok.inj h).symm⟩
  | [] | _ :: _ :: _ => cases h

/-- An accepted capture is the number that `strtol` reads. -/
theorem captureNumber_eq_ok {cf : ConfFile} {arg : Bytes} {c : Int}
    (h : captureNumber cf (some arg) = .ok c) : c = (Bytes.strtol (cstr arg)).value := by
  unfold captureNumber at h
  dsimp only at h
  split at h
  · cases h
  split at h
  · cases h
  · exact (Except.ok.inj h).symm

/-- An accepted pattern compiles, and its capture is a number. -/
theorem addPattern_eq_ok {cf cf' : ConfFile} {regexp : Bytes} {capture : Option Bytes}
    (h : addPattern cf regexp capture = .ok cf') :
    ∃ r c, Regex.compile regexp = .ok r ∧ captureNumber cf capture = .ok c ∧
      cf' = { cf with patterns := cf.patterns ++ [⟨r, c.toNat⟩] } := by
  unfold addPattern at h
  cases hc : captureNumber cf capture with
  | error e => rw [hc] at h; cases h
  | ok c =>
    cases hr : Regex.compile regexp with
    | error e => rw [hc, hr] at h; cases h
    | ok r =>
      rw [hc, hr] at h
      dsimp only at h
      split at h
      · cases h
      split at h
      · cases h
      · exact ⟨r, c, rfl, rfl, (Except.ok.inj h).symm⟩

/-- An accepted `address` adds its pattern. -/
theorem parseAddress_eq_ok {cf cf' : ConfFile} {args : List Bytes}
    (h : parseAddress cf args = .ok cf') :
    ∃ m, addressArgs args = some m ∧ cf' = { cf with patterns := cf.patterns ++ [m] } := by
  match args with
  | [regexp] =>
    rw [parseAddress] at h
    obtain ⟨r, c, hr, hc, rfl⟩ := addPattern_eq_ok h
    obtain rfl : 1 = c := Except.ok.inj hc
    refine ⟨⟨r, 1⟩, ?_, rfl⟩
    rw [addressArgs, hr]
    rfl
  | [regexp, capture] =>
    rw [parseAddress] at h
    obtain ⟨r, c, hr, hc, rfl⟩ := addPattern_eq_ok h
    obtain rfl := captureNumber_eq_ok hc
    refine ⟨_, ?_, rfl⟩
    rw [addressArgs, hr]
    rfl
  | [] | _ :: _ :: _ :: _ => cases h

/-- An accepted `exempt` adds its network. -/
theorem parseExempt_eq_ok {cf cf' : ConfFile} {args : List Bytes}
    (h : parseExempt cf args = .ok cf') :
    ∃ p, exemptArgs args = some p ∧ cf' = { cf with exempted := cf.exempted ++ [p] } := by
  match args with
  | [arg] =>
    unfold parseExempt at h
    dsimp only at h
    cases hassign : AddressPattern.assign arg with
    | error e => rw [hassign] at h; cases h
    | ok p =>
      rw [hassign] at h
      refine ⟨p, ?_, (Except.ok.inj h).symm⟩
      rw [exemptArgs, hassign]
      rfl
  | [] | _ :: _ :: _ => cases h

/-- The count is stored as it was read: it is positive and fits. -/
theorem parseRate_eq_ok {cf cf' : ConfFile} {args : List Bytes} (h : parseRate cf args = .ok cf') :
    ∃ (count seconds : Nat), rateArgs args = some ((count : Int), seconds) ∧
      cf' = { cf with rateMax := count, rateInterval := seconds } := by
  match args with
  | [arg] =>
    unfold parseRate at h
    dsimp only at h
    split at h
    · cases h
    split at h
    · cases h
    · rename_i hbad
      simp only [Bool.or_eq_true, decide_eq_true_eq, not_or] at hbad
      cases hint : interval (Bytes.strtol (cstr arg)).rest with
      | none => rw [hint] at h; cases h
      | some seconds =>
        rw [hint] at h
        refine ⟨(Bytes.strtol (cstr arg)).value.toNat, seconds, ?_, (Except.ok.inj h).symm⟩
        rw [Int.toNat_of_nonneg (by omega)]
        show (interval _).map _ = _
        rw [hint]
        rfl
  | [] | _ :: _ :: _ => cases h

/-- An accepted `block` sets the method. -/
theorem parseBlock_eq_ok {cf cf' : ConfFile} {args : List Bytes}
    (h : parseBlock cf args = .ok cf') :
    ∃ b, blockArgs args = some b ∧ cf' = { cf with block := b } := by
  match args with
  | [] => cases h
  | method :: args =>
    unfold parseBlock at h
    dsimp only at h
    cases hfind : BlockMethodType.find method with
    | none => rw [hfind] at h; cases h
    | some type =>
      cases hcreate : type.create (lit "block" :: method :: args) with
      | error message =>
        rw [hfind] at h
        dsimp only at h
        rw [hcreate] at h
        cases h
      | ok b =>
        rw [hfind] at h
        dsimp only at h
        rw [hcreate] at h
        refine ⟨b, ?_, (Except.ok.inj h).symm⟩
        rw [blockArgs, hfind, Option.bind_some, hcreate]
        rfl

section
variable {line name : Bytes} {args : List Bytes} {α : Type} {f : List Bytes → Option α}

/-- The arguments of a directive with this name. -/
theorem bind_arguments (h : tokens line = some (name :: args)) :
    (arguments name line).bind f = f args := by
  simp [arguments, h]

/-- A directive with another name has none. -/
theorem bind_arguments_of_ne {name' : Bytes} (h : tokens line = some (name' :: args))
    (hne : (name' == name) = false) : (arguments name line).bind f = none := by
  simp [arguments, h, hne]

end

/-- One line, field by field. -/
theorem describes_singleton {cf cf' : ConfFile} {line : Bytes}
    (hfiles : cf'.files = cf.files ++ (watchOf line).toList)
    (hpatterns : cf'.patterns = cf.patterns ++ (addressOf line).toList)
    (hexempted : cf'.exempted = cf.exempted ++ (exemptOf line).toList)
    (hrate : ((cf'.rateMax : Int), cf'.rateInterval)
      = (rateOf line).getD (cf.rateMax, cf.rateInterval))
    (hblock : cf'.block = (blockOf line).getD cf.block) (hpath : cf'.path = cf.path) :
    Describes cf cf' [line] := by
  have hlist {α : Type} (f : Bytes → Option α) : [line].filterMap f = (f line).toList := by
    cases hf : f line with
    | none => exact List.filterMap_cons_none hf
    | some a => exact List.filterMap_cons_some hf
  refine ⟨?_, ?_, ?_, ?_, ?_, hpath⟩
  · rw [hlist, hfiles]
  · rw [hlist, hpatterns]
  · rw [hlist, hexempted]
  · rw [getLastD_filterMap_cons, hrate]
    rfl
  · rw [getLastD_filterMap_cons, hblock]
    rfl

/-- The effect of a directive. -/
theorem describes_of_directive {cf cf' : ConfFile} {line name : Bytes} {args : List Bytes}
    (hline : tokens line = some (name :: args)) (h : directive cf name args = .ok cf') :
    Describes cf cf' [line] := by
  -- A directive has no arguments of another one.
  have hwatch (hne : (name == lit "watch") = false) : watchOf line = none :=
    bind_arguments_of_ne hline hne
  have haddress (hne : (name == lit "address") = false) : addressOf line = none :=
    bind_arguments_of_ne hline hne
  have hrate (hne : (name == lit "rate") = false) : rateOf line = none :=
    bind_arguments_of_ne hline hne
  have hexempt (hne : (name == lit "exempt") = false) : exemptOf line = none :=
    bind_arguments_of_ne hline hne
  have hblock (hne : (name == lit "block") = false) : blockOf line = none :=
    bind_arguments_of_ne hline hne
  unfold directive at h
  split at h
  · obtain rfl : name = lit "watch" := eq_of_beq ‹_›
    obtain ⟨file, hargs, rfl⟩ := parseWatch_eq_ok h
    have hthis : watchOf line = some file := (bind_arguments hline).trans hargs
    apply describes_singleton <;> simp [hthis, haddress rfl, hrate rfl, hexempt rfl, hblock rfl]
  split at h
  · obtain rfl : name = lit "address" := eq_of_beq ‹_›
    obtain ⟨m, hargs, rfl⟩ := parseAddress_eq_ok h
    have hthis : addressOf line = some m := (bind_arguments hline).trans hargs
    apply describes_singleton <;> simp [hthis, hwatch rfl, hrate rfl, hexempt rfl, hblock rfl]
  split at h
  · obtain rfl : name = lit "rate" := eq_of_beq ‹_›
    obtain ⟨count, seconds, hargs, rfl⟩ := parseRate_eq_ok h
    have hthis : rateOf line = some ((count : Int), seconds) := (bind_arguments hline).trans hargs
    apply describes_singleton <;> simp [hthis, hwatch rfl, haddress rfl, hexempt rfl, hblock rfl]
  split at h
  · obtain rfl : name = lit "exempt" := eq_of_beq ‹_›
    obtain ⟨p, hargs, rfl⟩ := parseExempt_eq_ok h
    have hthis : exemptOf line = some p := (bind_arguments hline).trans hargs
    apply describes_singleton <;> simp [hthis, hwatch rfl, haddress rfl, hrate rfl, hblock rfl]
  split at h
  · obtain rfl : name = lit "block" := eq_of_beq ‹_›
    obtain ⟨b, hargs, rfl⟩ := parseBlock_eq_ok h
    have hthis : blockOf line = some b := (bind_arguments hline).trans hargs
    apply describes_singleton <;> simp [hthis, hwatch rfl, haddress rfl, hrate rfl, hexempt rfl]
  · cases h

/-- The effect of a line. -/
theorem describes_of_parseLine {cf cf' : ConfFile} {line : Bytes}
    (h : parseLine cf line = .ok cf') : Describes cf cf' [line] := by
  unfold parseLine at h
  cases hsplit : splitLine cf line with
  | error e => rw [hsplit] at h; cases h
  | ok bits =>
    rw [hsplit] at h
    have htokens := tokens_of_splitLine hsplit
    cases bits with
    | nil =>
      obtain rfl : cf = cf' := Except.ok.inj h
      have hnone (name : Bytes) : arguments name line = none := by rw [arguments, htokens]
      apply describes_singleton <;>
        simp [watchOf, addressOf, exemptOf, rateOf, blockOf, hnone]
    | cons name args => exact describes_of_directive htokens h

/-! ### The file -/

/-- **The effect of the lines of a file.** -/
theorem describes_of_parseLines {cf cf' : ConfFile} {ls : List Bytes}
    (h : parseLines cf ls = .ok cf') : Describes cf cf' ls := by
  induction ls generalizing cf with
  | nil =>
    obtain rfl : cf = cf' := Except.ok.inj h
    constructor <;> simp
  | cons line rest ih =>
    rw [parseLines] at h
    cases hline : parseLine { cf with lineno := cf.lineno + 1 } line with
    | error e => rw [hline] at h; cases h
    | ok next =>
      rw [hline] at h
      have hfirst := describes_of_parseLine hline
      have hrest := ih h
      have hcons {α : Type} (f : Bytes → Option α) :
          (line :: rest).filterMap f = [line].filterMap f ++ rest.filterMap f := by
        rw [← List.filterMap_append, List.singleton_append]
      refine ⟨?_, ?_, ?_, ?_, ?_, hrest.path.trans hfirst.path⟩
      · rw [hrest.files, hfirst.files, hcons, List.append_assoc]
      · rw [hrest.patterns, hfirst.patterns, hcons, List.append_assoc]
      · rw [hrest.exempted, hfirst.exempted, hcons, List.append_assoc]
      · rw [hrest.rate, hfirst.rate, getLastD_filterMap_cons, getLastD_filterMap_cons]
        rfl
      · rw [hrest.block, hfirst.block, getLastD_filterMap_cons, getLastD_filterMap_cons]
        rfl

omit [Libc] in
/-- A line of a file is the only one of a file of its own. -/
theorem lines_of_mem {content line : Bytes} (h : line ∈ lines content) :
    lines (line ++ [nl]) = [line] :=
  linesFrom_append_nl (nl_notMem_of_mem_linesFrom List.not_mem_nil h)

/-- A file is accepted when its lines are. -/
theorem parseLines_isOk_iff (cf : ConfFile) (ls : List Bytes) :
    (∃ cf', parseLines cf ls = .ok cf') ↔ ∀ line ∈ ls, Acceptable line := by
  constructor
  · rintro ⟨cf', h⟩
    rcases parseLines_cases cf ls with ⟨hall, -⟩ | ⟨_, _, _, -, -, -, herr⟩
    · exact hall
    · rcases herr with ⟨-, message, herr⟩ | ⟨-, herr⟩
      · cases h.symm.trans herr
      · cases h.symm.trans herr
  · intro hall
    rcases parseLines_cases cf ls with ⟨-, hok⟩ | ⟨before, line, after, rfl, -, hline, -⟩
    · exact hok
    · exact absurd (hall line (by simp)) hline

/-! ### Reordered lines -/

/-- The kinds of lines. A line that cannot be split is of no directive. -/
inductive Kind where
  | blank
  | broken
  | directive (name : Bytes)
  deriving DecidableEq, Repr

/-- The kind of a line. Comments are blank. -/
def kind (line : Bytes) : Kind :=
  match tokens line with
  | none => .broken
  | some [] => .blank
  | some (name :: _) => .directive name

/-- The same lines of each kind in the same order, but for blank ones. -/
def SameDirectives (ls ls' : List Bytes) : Prop :=
  ∀ k ≠ Kind.blank, ls.filter (kind · = k) = ls'.filter (kind · = k)

/-- The relation is symmetric. -/
theorem SameDirectives.symm {ls ls' : List Bytes} (h : SameDirectives ls ls') :
    SameDirectives ls' ls := fun k hk => (h k hk).symm

/-- What only lines of one kind have does not depend on the others. -/
theorem filterMap_filter_kind {α : Type} {f : Bytes → Option α} {k : Kind}
    (h : ∀ line, kind line ≠ k → f line = none) (ls : List Bytes) :
    (ls.filter (kind · = k)).filterMap f = ls.filterMap f := by
  induction ls with
  | nil => rfl
  | cons line ls ih =>
    by_cases hk : kind line = k
    · rw [List.filter_cons_of_pos (by simpa using hk), List.filterMap_cons, List.filterMap_cons, ih]
    · rw [List.filter_cons_of_neg (by simpa using hk), List.filterMap_cons_none (h line hk), ih]

/-- A line of another kind has none. -/
theorem bind_arguments_of_kind {α : Type} {f : List Bytes → Option α} {name line : Bytes}
    (h : kind line ≠ .directive name) : (arguments name line).bind f = none := by
  unfold kind at h
  unfold arguments
  split at h
  · rw [‹tokens line = none›]; rfl
  · rw [‹tokens line = some []›]; rfl
  · rename_i name' args htokens
    have hne : (name' == name) = false := by simpa using fun heq : name' = name => h (heq ▸ rfl)
    simp [htokens, hne]

/-- The lines of one name are read as the same ones, in the same order. -/
theorem SameDirectives.filterMap {α : Type} {f : List Bytes → Option α} {ls ls' : List Bytes}
    (h : SameDirectives ls ls') (name : Bytes) :
    ls.filterMap (fun line => (arguments name line).bind f)
      = ls'.filterMap (fun line => (arguments name line).bind f) := by
  have hkind (line : Bytes) (hne : kind line ≠ .directive name) :
      (arguments name line).bind f = none := bind_arguments_of_kind hne
  rw [← filterMap_filter_kind hkind ls, ← filterMap_filter_kind hkind ls',
    h (.directive name) (by simp)]

/-- A blank line is accepted. -/
theorem acceptable_of_blank {line : Bytes} (h : kind line = .blank) : Acceptable line := by
  intro cf
  unfold kind at h
  split at h
  · cases h
  · refine ⟨cf, ?_⟩
    rw [parseLine, splitLine_of_tokens ‹_› cf]
  · cases h

/-- So the lines of the other file are accepted too. -/
theorem SameDirectives.acceptable {ls ls' : List Bytes} (h : SameDirectives ls ls')
    (hls : ∀ line ∈ ls, Acceptable line) : ∀ line ∈ ls', Acceptable line := by
  intro line hline
  by_cases hblank : kind line = .blank
  · exact acceptable_of_blank hblank
  · refine hls line ?_
    have hmem : line ∈ ls'.filter (kind · = kind line) := by simp [hline]
    rw [← h (kind line) hblank] at hmem
    exact (List.mem_filter.mp hmem).1

/-- The configuration, but for the number of the line that was read last. -/
def SameConfig (cf cf' : ConfFile) : Prop := { cf' with lineno := cf.lineno } = cf

/-- **Lines of the same directives** make the same configuration. -/
theorem sameConfig_of_describes {cf₀ cf cf' : ConfFile} {ls ls' : List Bytes}
    (hls : SameDirectives ls ls') (h : Describes cf₀ cf ls) (h' : Describes cf₀ cf' ls') :
    SameConfig cf cf' := by
  have hfiles : cf'.files = cf.files := by
    rw [h'.files, h.files]
    exact congrArg _ (hls.symm.filterMap (f := watchArgs) _)
  have hpatterns : cf'.patterns = cf.patterns := by
    rw [h'.patterns, h.patterns]
    exact congrArg _ (hls.symm.filterMap (f := addressArgs) _)
  have hexempted : cf'.exempted = cf.exempted := by
    rw [h'.exempted, h.exempted]
    exact congrArg _ (hls.symm.filterMap (f := exemptArgs) _)
  have hrate : ((cf'.rateMax : Int), cf'.rateInterval) = ((cf.rateMax : Int), cf.rateInterval) := by
    rw [h'.rate, h.rate]
    exact congrArg (List.getLastD · _) (hls.symm.filterMap (f := rateArgs) _)
  have hblock : cf'.block = cf.block := by
    rw [h'.block, h.block]
    exact congrArg (List.getLastD · _) (hls.symm.filterMap (f := blockArgs) _)
  obtain ⟨hmax, hinterval⟩ := Prod.mk.inj hrate
  obtain ⟨files, patterns, exempted, rateMax, rateInterval, block, path, lineno⟩ := cf
  obtain ⟨files', patterns', exempted', rateMax', rateInterval', block', path', lineno'⟩ := cf'
  obtain rfl : rateMax' = rateMax := Int.ofNat.inj hmax
  cases hfiles; cases hpatterns; cases hexempted; cases hinterval; cases hblock
  cases h'.path.trans h.path.symm
  rfl

/-- **What a configuration file says.** It is accepted exactly when each of its lines is, on
its own. The configuration then has the files, patterns and exemptions of its lines in their
order, and the last rate, exactly as it was read, and the last block method, or the defaults.
Files with the same lines of each kind in the same order are accepted together, as the same
configuration. -/
theorem construct_directives (path content : Bytes) :
    ((∃ cf, construct path (.ok (content, none)) = .ok cf) ↔
      ∀ line ∈ lines content, ∃ cf, construct path (.ok (line ++ [nl], none)) = .ok cf) ∧
    (∀ cf, construct path (.ok (content, none)) = .ok cf →
      Describes (initial path) cf (lines content) ∧ 1 ≤ cf.rateMax ∧ cf.rateMax ≤ 0xFFFFFFFF) ∧
    ∀ content' cf, SameDirectives (lines content) (lines content') →
      construct path (.ok (content, none)) = .ok cf →
        ∃ cf', construct path (.ok (content', none)) = .ok cf' ∧ SameConfig cf cf' := by
  refine ⟨?_, ?_, ?_⟩
  · rw [construct_eq_parseLines, parseLines_isOk_iff]
    refine forall₂_congr fun line hline => ?_
    rw [construct_eq_parseLines, lines_of_mem hline, parseLines_isOk_iff]
    simp
  · intro cf h
    have hrate := (valid_construct h).rateMax
    rw [construct_eq_parseLines] at h
    exact ⟨describes_of_parseLines h, hrate⟩
  · intro content' cf hsame h
    rw [construct_eq_parseLines] at h
    have hall := hsame.acceptable ((parseLines_isOk_iff _ _).mp ⟨cf, h⟩)
    obtain ⟨cf', h'⟩ := (parseLines_isOk_iff (initial path) _).mpr hall
    refine ⟨cf', (construct_eq_parseLines _ _).trans h', ?_⟩
    exact sameConfig_of_describes hsame (describes_of_parseLines h) (describes_of_parseLines h')

end Blockad.Proofs
