import Blockad.Proofs.Capture
import Blockad.Proofs.Delivery
import Blockad.Proofs.Detection
import Blockad.Proofs.UpdateWatchers

/-!
# `Blockad.Proofs.Tolerance`: what a captured text that is no address does

`processLine` makes an `Address` of the captured text. The constructor throws when the text is
no address, and nothing between there and the end of `main` catches it. `tolerantLine` is the
handling that goes on with the next pattern.

* `assign_cases`: the texts that make an address.
* `zero_notMem_capturedText`: the captured text is one without a NUL.
* `check_tolerant_iff`: the pass of the daemon handles all lines that its watchers deliver
  like `tolerantLine` exactly when each pattern that matches one captures an address. With
  any other text on one of the lines, the daemon ends.
-/

set_option autoImplicit false

namespace Blockad.Proofs

open Bytes ConfFile BlockingWatcher Prog

variable [Libc]

/-! ### Texts -/

/-- A valid IPv4 or IPv6 address. Only the latter has colons. -/
def validAddress (text : Bytes) : Bool :=
  !text.contains 0 &&
    if text.contains (chr ':') then (Libc.inetPton6 text).isSome else (Libc.inetPton4 text).isSome

/-- **The texts that make an address**, and what the others do. -/
theorem assign_cases {text : Bytes} (h : 0 ∉ text) :
    (validAddress text = true ∧ ∃ a, Address.assign text = .ok a) ∨
      (validAddress text = false ∧ Address.assign text = .error .invalidAddress) := by
  have hsub : (text.drop 0).take (min ((none : Option Nat).getD text.length) (text.length - 0))
      = text := by simp
  unfold validAddress Address.assign AddressBase.convert
  dsimp only
  rw [hsub, cstr_eq_self h]
  have hnul : text.contains 0 = false := by simpa using h
  rw [hnul]
  by_cases hcolon : text.contains (chr ':') = true
  · rw [if_pos hcolon, if_pos hcolon]
    cases Libc.inetPton6 text <;> simp
  · rw [if_neg hcolon, if_neg hcolon]
    cases Libc.inetPton4 text <;> simp

/-- The captured text has no NUL: `regexec` does not see what follows one. -/
theorem zero_notMem_capturedText {r : Regex} {line text : Bytes} {ms : List RegMatch}
    {capture : Nat} (hex : r.execute line = some ms) (hrange : CaptureInRange ms capture line)
    (htext : capturedText line ms capture = .ok text) : 0 ∉ text := by
  obtain ⟨group, -, rfl⟩ := execute_eq_some_iff.mp hex
  obtain ⟨-, ⟨so, eo, hle, heo⟩, -, hentry⟩ := exists_span_of_inRange hrange
  have hprefix : cstr line <+: line := List.takeWhile_prefix _
  have hlen := length_cstr_le line
  rw [capturedText, hentry] at htext
  dsimp only at htext
  rw [if_neg (by simp; omega), if_neg (by omega)] at htext
  cases htext
  intro hmem
  refine zero_notMem_cstr line ?_
  -- The text lies in the first `eo` bytes, which `cstr` keeps.
  have heq : (line.drop (Int.toNat so)).take (Int.toNat (eo - so))
      = ((cstr line).take eo).drop so := by
    rw [List.prefix_iff_eq_take.mp hprefix, List.take_take, min_eq_left heo, List.drop_take]
    congr 1
    omega
  rw [heq] at hmem
  exact List.mem_of_mem_take (List.mem_of_mem_drop hmem)

/-! ### Lines -/

/-- The pattern does not match, or captures an address. -/
def capturesAddress (line : Bytes) (m : Match) : Bool :=
  match m.regex.execute line with
  | none => true
  | some ms =>
    match capturedText line ms m.capture with
    | .error _ => true
    | .ok text => validAddress text

/-- A pattern that captures no address is passed over. -/
def tolerantMatch (cf : ConfFile) (line : Bytes) (m : Match) : EStateM Halt Store Unit :=
  if capturesAddress line m then processMatch cf line m else pure ()

/-- The handling of a line that no text can stop. -/
def tolerantLine (cf : ConfFile) (line : Bytes) : EStateM Halt Store Unit :=
  cf.patterns.forM (tolerantMatch cf line)

/-- The captures of all matches on the line are in range. -/
def LineInRange (cf : ConfFile) (line : Bytes) : Prop :=
  ∀ m ∈ cf.patterns, ∀ ms, m.regex.execute line = some ms → CaptureInRange ms m.capture line

/-- The calls of `block` do not throw. -/
def BlocksReturn (store : Store) : Prop := ∀ n, ∃ blocked, (store.future n).block = .ok blocked

/-- A detection returns, if `block` does. -/
theorem returns_detectedAddress (cf : ConfFile) (a : Address) :
    Returns BlocksReturn (detectedAddress cf a) := by
  intro s hs
  show ∃ u s', (detectedAddress cf a).run s = _ ∧ _
  rw [detectedAddress_run]
  have hnext : BlocksReturn s.next := fun n => hs (n + 1)
  obtain ⟨blocked, hblock⟩ := hs 0
  split
  · exact ⟨_, _, rfl, hnext⟩
  split
  · exact ⟨_, _, rfl, hnext⟩
  dsimp only
  split
  · rw [hblock]
    cases blocked <;> exact ⟨_, _, rfl, hnext⟩
  · exact ⟨_, _, rfl, hnext⟩

/-- The program of a match, when its text was taken out of the line. -/
theorem processMatch_eq {cf : ConfFile} {line text : Bytes} {m : Match} {ms : List RegMatch}
    (hex : m.regex.execute line = some ms) (htext : capturedText line ms m.capture = .ok text) :
    processMatch cf line m = match Address.assign text with
      | .error e => throw (.thrown e)
      | .ok a => detectedAddress cf a := by
  unfold processMatch
  cases hassign : Address.assign text <;> simp only [hex, htext, hassign]

/-- **One pattern.** It goes on if it captures an address, and throws otherwise. -/
theorem processMatch_cases {cf : ConfFile} {line : Bytes} {m : Match} (h : LineInRange cf line)
    (hm : m ∈ cf.patterns) :
    (capturesAddress line m = true ∧ Returns BlocksReturn (processMatch cf line m)) ∨
      (capturesAddress line m = false ∧
        Throws BlocksReturn (.thrown .invalidAddress) (processMatch cf line m)) := by
  unfold capturesAddress
  cases hex : m.regex.execute line with
  | none =>
    refine .inl ⟨rfl, ?_⟩
    rw [processMatch, hex]
    exact .of_pure _
  | some ms =>
    obtain ⟨text, htext⟩ := capturedText_of_inRange (h m hm ms hex)
    have hnul := zero_notMem_capturedText hex (h m hm ms hex) htext
    dsimp only
    rw [htext, processMatch_eq hex htext]
    rcases assign_cases hnul with ⟨hvalid, a, hassign⟩ | ⟨hvalid, hassign⟩
    · rw [hassign]
      exact .inl ⟨hvalid, returns_detectedAddress cf a⟩
    · rw [hassign]
      exact .inr ⟨hvalid, fun s _ => ⟨s, rfl⟩⟩

/-- No text stops `tolerantLine`. -/
theorem returns_tolerantLine {cf : ConfFile} {line : Bytes} (h : LineInRange cf line) :
    Returns BlocksReturn (tolerantLine cf line) := by
  refine Returns.forM fun m hm => ?_
  unfold tolerantMatch
  rcases processMatch_cases h hm with ⟨hcaptures, hreturns⟩ | ⟨hcaptures, -⟩
  · rw [if_pos hcaptures]
    exact hreturns
  · rw [if_neg (by simp [hcaptures])]
    exact .of_pure _

/-- Where all captures are addresses, nothing has to be tolerated. -/
theorem processLine_eq_tolerantLine {cf : ConfFile} {line : Bytes}
    (h : ∀ m ∈ cf.patterns, capturesAddress line m = true) :
    processLine cf line = tolerantLine cf line := by
  refine forM_congr fun m hm => ?_
  rw [tolerantMatch, if_pos (h m hm)]

/-- A capture that is no address is thrown. -/
theorem throws_processLine {cf : ConfFile} {line : Bytes} (h : LineInRange cf line)
    (hbad : ∃ m ∈ cf.patterns, capturesAddress line m = false) :
    Throws BlocksReturn (.thrown .invalidAddress) (processLine cf line) := by
  obtain ⟨m, hm, hcaptures⟩ := hbad
  refine Throws.forM (fun m' hm' => (processMatch_cases h hm').imp And.right And.right)
    ⟨m, hm, ?_⟩
  exact ((processMatch_cases h hm).resolve_left (by simp [hcaptures])).2

/-! ### The pass of the daemon -/

variable {H W : Type} (os : Syscalls H W)

/-- The pass handles the lines that the watchers deliver without an end by a text: it ends
with the store that `tolerantLine` makes of them, and halts only if the watchers do. -/
def TextsTolerated (ready : Nat → Bool) (d : Daemon H W) : Prop :=
  ∀ store, BlocksReturn store → ∃ store',
    (delivered os ready d).forM (tolerantLine d.config) store = .ok () store' ∧
      Daemon.check os ready { d with store } = afterPass os ready d store'

/-- **When the texts are tolerated.** -/
theorem check_tolerant_iff (ready : Nat → Bool) (d : Daemon H W)
    (hrange : ∀ line ∈ delivered os ready d, LineInRange d.config line) :
    TextsTolerated os ready d ↔
      ∀ line ∈ delivered os ready d, ∀ m ∈ d.config.patterns, capturesAddress line m = true := by
  constructor
  · -- The first line with a text that is no address makes the daemon throw.
    intro h line hline m hm
    by_contra hbad
    have hthrows : Throws BlocksReturn (.thrown .invalidAddress)
        ((delivered os ready d).forM (processLine d.config)) := by
      refine Throws.forM (fun line' hline' => ?_) ⟨line, hline, ?_⟩
      · by_cases hall : ∀ m ∈ d.config.patterns, capturesAddress line' m = true
        · rw [processLine_eq_tolerantLine hall]
          exact .inl (returns_tolerantLine (hrange line' hline'))
        · refine .inr (throws_processLine (hrange line' hline') ?_)
          simpa using hall
      · exact throws_processLine (hrange line hline) ⟨m, hm, by simpa using hbad⟩
    -- A store whose calls of `block` return: the pass must throw there.
    let store : Store := { d.store with future := fun _ => ⟨0, .ok false⟩ }
    have hstore : BlocksReturn store := fun _ => ⟨false, rfl⟩
    obtain ⟨store', -, hcheck⟩ := h store hstore
    obtain ⟨s, hs⟩ := hthrows store hstore
    have hd := check_delivers os ready { d with store }
    unfold Delivers at hd
    have hsame : delivered os ready { d with store } = delivered os ready d := rfl
    rw [hsame, hs] at hd
    obtain ⟨d', hd'⟩ := hd
    -- But a pass over the watchers does not end with `InvalidAddress` by itself.
    have hhalt := watcherHalt_of_afterPass os (hcheck.symm.trans hd')
    exact hhalt
  · intro hall store hstore
    obtain ⟨_, store', hrun, -⟩ := Returns.forM (fun line hline =>
      returns_tolerantLine (hrange line hline)) store hstore
    refine ⟨store', hrun, ?_⟩
    have hd := check_delivers os ready { d with store }
    unfold Delivers at hd
    have hsame : (delivered os ready d).forM (processLine d.config) store = .ok () store' := by
      rw [← hrun, forM_congr fun line hline => processLine_eq_tolerantLine (hall line hline)]
    have hsame' : (delivered os ready { d with store }).forM (processLine d.config) store
        = .ok () store' := hsame
    rw [hsame'] at hd
    exact hd

section
omit [Libc]

/-- A library for the pattern `(.*)`, which matches every text as a whole. -/
abbrev greedy : Libc := Libc.ofGroups 1 fun s =>
  some fun i => if i ≤ 1 then some ⟨0, s.length, Nat.zero_le _, le_rfl⟩ else none

/-- A configuration with that pattern. -/
def greedyText : Bytes := lit "watch /log\naddress (.*)"

/-- What it makes. -/
def greedyConfig : @ConfFile greedy :=
  letI := greedy
  { initial (lit "blockad.conf") with
    files := [lit "/log"], patterns := [⟨⟨(), regExtended⟩, 1⟩], lineno := 2 }

/-- The configuration of the example is accepted. -/
theorem construct_greedy :
    letI := greedy
    construct (lit "blockad.conf") (.ok (greedyText, none)) = .ok greedyConfig := by
  let _ := greedy
  have hlines : lines greedyText = [lit "watch /log", lit "address (.*)"] := by decide
  have hwatch : parseLine { initial (lit "blockad.conf") with lineno := 1 } (lit "watch /log")
      = .ok { initial (lit "blockad.conf") with files := [lit "/log"], lineno := 1 } := by
    rw [parseLine, Tokenizer.splitLine_eq_run]
    rfl
  have haddress : parseLine { initial (lit "blockad.conf") with files := [lit "/log"], lineno := 2 }
      (lit "address (.*)") = .ok greedyConfig := by
    rw [parseLine, Tokenizer.splitLine_eq_run]
    rfl
  rw [construct_eq_parseLines, hlines]
  exact (parseLines_of_ok hwatch).trans (parseLines_of_ok haddress)

/-- A host that is given by its name. -/
def hostLine : Bytes := lit "a\n"

/-- A kernel where that line was written to the log. -/
def hostWritten : Syscalls Unit Unit :=
  { noFiles with
    readEvents := fun _ => pure [⟨1, .modify, []⟩]
    unread := fun _ _ _ => (hostLine, none) }

/-- A daemon that watches the log. -/
def greedyDaemon : @Daemon greedy Unit Unit :=
  letI := greedy
  { config := greedyConfig
    watchers := [
      { path := lit "/log", fp := some ⟨(), 0⟩, line := []
        own := { base := lit "log", dir := lit "/", ifd := 3, fileWd := 1, dirWd := 2 } }]
    store := { addressData := ∅, blockCalls := [], future := fun n => ⟨n, .ok false⟩ }
    world := () }

/-- The pass delivers the line of a host. -/
theorem delivered_greedyDaemon :
    letI := greedy
    delivered hostWritten (fun _ => true) greedyDaemon = [hostLine] := by
  rfl

/-- One line, and a pattern that matches all of it. -/
theorem check_tolerant_iff_greedy :
    letI := greedy
    TextsTolerated hostWritten (fun _ => true) greedyDaemon ↔
      ∀ line ∈ delivered hostWritten (fun _ => true) greedyDaemon,
        ∀ m ∈ greedyConfig.patterns, capturesAddress line m = true := by
  let _ := greedy
  refine check_tolerant_iff hostWritten (fun _ => true) greedyDaemon ?_
  intro line hline m hm ms hex
  rw [delivered_greedyDaemon, List.mem_singleton] at hline
  obtain rfl : m = ⟨⟨(), regExtended⟩, 1⟩ := List.mem_singleton.mp hm
  subst hline
  have hexec : Regex.execute ⟨(), regExtended⟩ hostLine = some [⟨0, 2⟩, ⟨0, 2⟩] := by decide
  obtain rfl := Option.some.inj (hexec.symm.trans hex)
  exact ⟨⟨0, 2⟩, rfl, by decide, by decide, by decide⟩

/-- The name of the host ends the daemon. -/
theorem not_textsTolerated_greedy :
    letI := greedy
    construct (lit "blockad.conf") (.ok (greedyText, none)) = .ok greedyConfig ∧
      Daemon.check hostWritten (fun _ => true) greedyDaemon = .error (.thrown .invalidAddress)
        greedyDaemon ∧
      ¬ TextsTolerated hostWritten (fun _ => true) greedyDaemon := by
  let _ := greedy
  have hcheck : Daemon.check hostWritten (fun _ => true) greedyDaemon
      = .error (.thrown .invalidAddress) greedyDaemon := by rfl
  refine ⟨construct_greedy, hcheck, ?_⟩
  intro h
  obtain ⟨store', -, hafter⟩ := h greedyDaemon.store fun n => ⟨false, rfl⟩
  cases hcheck.symm.trans hafter

end

end Blockad.Proofs
