import Blockad.Proofs.AddressPattern
import Blockad.Proofs.Configurations
import Blockad.Proofs.Directives

/-!
# `Blockad.Proofs.Exemptions`: exempted addresses are never blocked

From the text of the configuration file to the calls of `block`. An `exempt` directive is about the
addresses of a network, and the daemon reads its file again at each SIGHUP. The network has to be
written without bits past its prefix, since `AddressPattern::matches` finds nothing otherwise
(`Blockad.Proofs.AddressPattern`).

* `assign_of_networkOf`: a text with a network is accepted, and the pattern is that of the network.
* `exempted_of_exempts`: the pattern of a directive is in the configuration.
* `exempt_never_blocked`: while each configuration is read from a file with the directive, no
  address of its network is blocked.
-/

set_option autoImplicit false

namespace Blockad.Proofs

open Bytes BitPrefix ConfFile Prog Runs

section
variable [Libc]

/-! ### The network -/

omit [Libc] in
/-- The part of the text that is converted. -/
theorem substr_eq {s text : Bytes} {n : Option Nat} (htext : s.take (n.getD s.length) = text) :
    (s.drop 0).take (min (n.getD s.length) (s.length - 0)) = text := by
  rw [← htext, List.drop_zero, Nat.sub_zero, List.take_eq_take_iff]
  omega

/-- An address with a colon. -/
theorem convert_of_inetPton6 {s text : Bytes} {n : Option Nat} {addr : In6Addr}
    (htext : s.take (n.getD s.length) = text) (hnul : 0 ∉ text) (hcolon : chr ':' ∈ text)
    (h : Libc.inetPton6 text = some addr) : AddressBase.convert s 0 n = .ok (addr, 6) := by
  unfold AddressBase.convert
  simp only [substr_eq htext, cstr_eq_self hnul]
  rw [if_pos (by simpa using hcolon), h]

/-- An address without one. -/
theorem convert_of_inetPton4 {s text : Bytes} {n : Option Nat} {a : Vector UInt8 4}
    (htext : s.take (n.getD s.length) = text) (hnul : 0 ∉ text) (hcolon : chr ':' ∉ text)
    (h : Libc.inetPton4 text = some a) : AddressBase.convert s 0 n = .ok (mapped4 a, 4) := by
  unfold AddressBase.convert
  simp only [substr_eq htext, cstr_eq_self hnul]
  rw [if_neg (by simpa using hcolon), h]

omit [Libc] in
/-- The first slash. -/
theorem idxOf?_slash {text num : Bytes} (htext : chr '/' ∉ text) :
    (text ++ chr '/' :: num).idxOf? (chr '/') = some text.length := by
  rw [List.idxOf?_eq_some_iff]
  refine ⟨by simp, by simp, fun j hj heq => ?_⟩
  rw [List.getElem_append_left hj] at heq
  exact htext (heq ▸ List.getElem_mem hj)

/-- The pattern of a host. -/
theorem assign_of_host {s : Bytes} {v : Int} {addr : In6Addr} (hslash : chr '/' ∉ s) (hv : 0 ≤ v)
    (hconvert : AddressBase.convert s 0 none = .ok (addr, v)) :
    AddressPattern.assign s = .ok ⟨addr, AddressPattern.maskOf 128⟩ := by
  have hnone : s.idxOf? (chr '/') = none := by simpa using hslash
  unfold AddressPattern.assign
  simp only [hnone, hconvert, if_neg hv.not_gt]

/-- The pattern of a network. -/
theorem assign_of_net {text num : Bytes} {v : Int} {addr : In6Addr} {k : Nat}
    (hslash : chr '/' ∉ text) (hnul : 0 ∉ num) (hv : 0 ≤ v)
    (hconvert : AddressBase.convert (text ++ chr '/' :: num) 0 (some text.length)
      = .ok (addr, v))
    (hbits : AddressPattern.maskBits v num = .ok (k : Int)) :
    AddressPattern.assign (text ++ chr '/' :: num) = .ok ⟨addr, AddressPattern.maskOf k⟩ := by
  have hnum : (text ++ chr '/' :: num).drop (text.length + 1) = num := by simp
  unfold AddressPattern.assign
  simp only [idxOf?_slash hslash, hconvert, if_neg hv.not_gt, hnum, cstr_eq_self hnul, hbits,
    Int.toNat_natCast]

/-- **A text with a network is accepted.** The pattern has the address as it was written. -/
theorem assign_of_networkOf {s : Bytes} {addr : In6Addr} {k : Nat} (hs : 0 ∉ s)
    (h : NetworkOf s addr k) :
    AddressPattern.assign s = .ok ⟨addr, AddressPattern.maskOf k⟩ ∧ k ≤ 128 := by
  have hparts {text num : Bytes} (hnul : 0 ∉ text ++ chr '/' :: num) : 0 ∉ text ∧ 0 ∉ num :=
    ⟨fun h0 => hnul (by simp [h0]), fun h0 => hnul (by simp [h0])⟩
  cases h with
  | host4 hslash hcolon hpton =>
    exact ⟨assign_of_host hslash (by decide)
      (convert_of_inetPton4 (by simp) hs hcolon hpton), le_rfl⟩
  | host6 hslash hcolon hpton =>
    exact ⟨assign_of_host hslash (by decide)
      (convert_of_inetPton6 (by simp) hs hcolon hpton), le_rfl⟩
  | @net4 text num a n hslash hcolon hpton hstrtol hn =>
    obtain ⟨htext, hnum⟩ := hparts hs
    -- The v4-mapped form has 96 bits before those of the address.
    have hbits : AddressPattern.maskBits 4 num = .ok ((96 + n : Nat) : Int) := by
      have hle : ¬ (n : Int) > 32 := by omega
      have hneg : ¬ (n : Int) < 0 := by omega
      simp [AddressPattern.maskBits, hstrtol, hle, hneg]
      omega
    exact ⟨assign_of_net hslash hnum (by decide)
      (convert_of_inetPton4 (by simp) htext hcolon hpton) hbits, by omega⟩
  | @net6 text num a n hslash hcolon hpton hstrtol hn =>
    obtain ⟨htext, hnum⟩ := hparts hs
    have hbits : AddressPattern.maskBits 6 num = .ok (k : Int) := by
      have hle : ¬ (k : Int) > 128 := by omega
      simp [AddressPattern.maskBits, hstrtol, hle]
    exact ⟨assign_of_net hslash hnum (by decide)
      (convert_of_inetPton6 (by simp) htext hcolon hpton) hbits, hn⟩

/-! ### The directive -/

/-- The configuration was read from a file with the directive `exempt text`. -/
def Exempts (conffile text : Bytes) (cf : ConfFile) : Prop :=
  ∃ content, construct conffile (.ok (content, none)) = .ok cf ∧
    ∃ line ∈ Bytes.lines content, tokens line = some [lit "exempt", text]

/-- The pattern of the directive is in the configuration. -/
theorem exempted_of_exempts {conffile text : Bytes} {cf : ConfFile} {p : AddressPattern}
    (hassign : AddressPattern.assign text = .ok p) (h : Exempts conffile text cf) :
    p ∈ cf.exempted := by
  obtain ⟨content, hconstruct, line, hline, htokens⟩ := h
  rw [construct_eq_parseLines] at hconstruct
  have hexempt : exemptOf line = some p := by
    have hargs : exemptArgs [text] = some p := by
      rw [exemptArgs, hassign]
      rfl
    exact (bind_arguments htokens).trans hargs
  rw [(describes_of_parseLines hconstruct).exempted]
  exact List.mem_append_right _ (List.mem_filterMap.mpr ⟨line, hline, hexempt⟩)

/-- An address of the network is exempted. -/
theorem isExempted_of_exempts {conffile text : Bytes} {cf : ConfFile} {addr : In6Addr} {k : Nat}
    {a : Address} (htext : 0 ∉ text) (hnetwork : NetworkOf text addr k)
    (haligned : NetworkAligned addr k) (ha : AgreeTo k a.address addr)
    (h : Exempts conffile text cf) : isExempted cf a = true := by
  obtain ⟨hassign, hk⟩ := assign_of_networkOf htext hnetwork
  -- As a variable, since its mask is not to be computed.
  generalize hp : AddressPattern.mk addr (AddressPattern.maskOf k) = p at hassign
  have hmask : p.mask = AddressPattern.maskOf k := hp ▸ rfl
  obtain rfl : p.network = addr := hp ▸ rfl
  have hmatch : p.matches a = true := (matches_iff_of_aligned hk hmask haligned a).mpr ha
  exact List.any_eq_true.mpr ⟨p, exempted_of_exempts hassign h, hmatch⟩

/-- Reading goes on after the lines that were accepted. -/
theorem parseLines_append {cf cf' : ConfFile} {ls rest : List Bytes}
    (h : parseLines cf ls = .ok cf') : parseLines cf (ls ++ rest) = parseLines cf' rest := by
  induction ls generalizing cf with
  | nil =>
    obtain rfl : cf = cf' := Except.ok.inj h
    rfl
  | cons line ls ih =>
    rw [parseLines] at h
    cases hline : parseLine { cf with lineno := cf.lineno + 1 } line with
    | error e =>
      rw [hline] at h
      cases h
    | ok next =>
      rw [hline] at h
      rw [List.cons_append, parseLines_of_ok hline]
      exact ih h

/-! ### The runs -/

variable {H W : Type} {os : Syscalls H W} {conffile : Bytes} {capacity : Nat}

/-- **Exempted addresses are never blocked.** The configuration at the start has the directive
`exempt text`, and so does each that a reload puts in its place. Then `block` is not called for an
address of the network of `text`, which is written without bits past its prefix. -/
theorem exempt_never_blocked {text : Bytes} {addr : In6Addr} {k : Nat} {a : Address}
    {actions : List LoopAction} {s : MainLoop (Daemon H W)} (htext : 0 ∉ text)
    (hnetwork : NetworkOf text addr k) (haligned : NetworkAligned addr k)
    (ha : AgreeTo k a.address addr)
    (h : Run (fun s => (MainLoop.Installed s ∧ Prepared conffile s.data) ∧
        Exempts conffile text s.data.config)
      (fun s a s' => MainLoop.Step capacity (Daemon.body os conffile) s a s' ∧
        (a = .reloaded → Exempts conffile text s'.data.config)) actions s) :
    a ∉ s.data.store.blockCalls := by
  intro hcalled
  have hinit (t : MainLoop (Daemon H W)) (ht : (MainLoop.Installed t ∧ Prepared conffile t.data) ∧
      Exempts conffile text t.data.config) :
      ∃ r : MainLoop (Recorder H W), (Recorder.Started conffile r ∧
        Exempts conffile text r.data.daemon.config) ∧ viewed Recorder.daemon r = t := by
    obtain ⟨⟨hinstalled, hprepared⟩, hexempts⟩ := ht
    refine ⟨⟨t.point, t.pending, t.pipe, ⟨t.data, []⟩⟩, ⟨?_, hexempts⟩, rfl⟩
    exact ⟨⟨hinstalled.point, hinstalled.pipe⟩, hprepared, rfl⟩
  obtain ⟨r, hr, rfl⟩ := records_body.run hinit
    (fun _ a s' => a = .reloaded → Exempts conffile text s'.data.config) h
  obtain ⟨r₀, ⟨hstart, hexempts⟩, hfirst⟩ := hr.exists_first
  have hconfigs : Configs (Exempts conffile text) r₀.data := ⟨hexempts, by simp [hstart.lines]⟩
  obtain ⟨-, hlines⟩ := configs_of_run hconfigs hfirst
  -- A call has a line that counts for the address, but its configuration exempts the address.
  obtain ⟨entry, hentry, -, hexempted, -⟩ :=
    evidence_of_recordedAt (recordedAt_of_run hstart (hfirst.mono fun _ _ _ => And.left)) hcalled
  rw [isExempted_of_exempts htext hnetwork haligned ha (hlines entry hentry)] at hexempted
  exact Bool.noConfusion hexempted

/-- One turn of the inner loop, without a reload. -/
theorem run_exempting {text : Bytes} {d₀ d₁ d₂ d₃ : Daemon H W} (hprepared : Prepared conffile d₀)
    (hexempts : Exempts conffile text d₀.config) (hcreate : Daemon.create os d₀ = .ok () d₁)
    (hchange : d₂ = { d₁ with world := d₂.world })
    (hcheck : Daemon.check os (fun _ => true) d₂ = .ok () d₃) :
    Run (fun s => (MainLoop.Installed s ∧ Prepared conffile s.data) ∧
        Exempts conffile text s.data.config)
      (fun s a s' => MainLoop.Step capacity (Daemon.body os conffile) s a s' ∧
        (a = .reloaded → Exempts conffile text s'.data.config))
      readActions ⟨.checked false, false, 0, d₃⟩ := by
  have hinit : (MainLoop.Installed (⟨.installed, false, 0, d₀⟩ : MainLoop (Daemon H W)) ∧
      Prepared conffile d₀) ∧ Exempts conffile text d₀.config := ⟨⟨⟨rfl, rfl⟩, hprepared⟩, hexempts⟩
  have hrun : Run (fun s => (MainLoop.Installed s ∧ Prepared conffile s.data) ∧
        Exempts conffile text s.data.config) (MainLoop.Step capacity (Daemon.body os conffile))
      readActions ⟨.checked false, false, 0, d₃⟩ := run_turn hinit hcreate hchange hcheck
  have hreload : ∀ a ∈ readActions, a ≠ .reloaded := by simp [readActions]
  exact (hrun.guarded hreload).mono fun _ _ _ hstep => ⟨hstep.2, fun heq => absurd heq hstep.1⟩

/-! ### An exempted line -/

section
omit [Libc]

/-- The configuration of `Blockad.Proofs.Evidence`, which blocks on the two lines, and the
directive. -/
def exemptingText : Bytes := wholeLineText ++ lit "exempt 192.0.2.0/24\n"

/-- The configuration that it makes. -/
def exemptingConfig : @ConfFile wholeLine :=
  letI := wholeLine
  { wholeLineConfig with
    exempted := [⟨mapped4 #v[192, 0, 2, 0], AddressPattern.maskOf 120⟩], lineno := 4 }

/-- The daemon with this configuration, before it has watchers. -/
def exemptingDaemon : @Daemon wholeLine Handle Filesystem :=
  letI := wholeLine
  { wholeLineDaemon with config := exemptingConfig }

/-- When it has its watcher, and 192.0.2.1 is in two lines. -/
def exemptingLines : @Daemon wholeLine Handle Filesystem :=
  letI := wholeLine
  let d := stateOf (Daemon.create (kernel (lit "/log") 1) exemptingDaemon)
  { d with world := d.world.change (lit "log") (.append 0 (lit "192.0.2.1\n192.0.2.1\n")) }

/-- When they were read. -/
def exemptingRead : @Daemon wholeLine Handle Filesystem :=
  letI := wholeLine
  stateOf (Daemon.check (kernel (lit "/log") 1) (fun _ => true) exemptingLines)

/-- The configuration of the example is accepted. -/
theorem construct_exemptingText :
    letI := wholeLine
    construct (lit "blockad.conf") (.ok (exemptingText, none)) = .ok exemptingConfig := by
  let _ := wholeLine
  have hlines : lines exemptingText = lines wholeLineText ++ [lit "exempt 192.0.2.0/24"] := by
    decide
  have hexempt : parseLine { wholeLineConfig with lineno := 4 } (lit "exempt 192.0.2.0/24") =
      .ok exemptingConfig := by
    rw [parseLine, Tokenizer.splitLine_eq_run]
    rfl
  have hbefore := construct_wholeLineText
  rw [construct_eq_parseLines] at hbefore ⊢
  rw [hlines, parseLines_append hbefore]
  exact parseLines_of_ok hexempt

/-- It exempts the network of the address. -/
theorem exempts_exemptingConfig :
    letI := wholeLine
    Exempts (lit "blockad.conf") (lit "192.0.2.0/24") exemptingConfig := by
  let _ := wholeLine
  refine ⟨exemptingText, construct_exemptingText, lit "exempt 192.0.2.0/24", by decide, ?_⟩
  rw [tokens, Tokenizer.splitLine_eq_run]
  rfl

/-- Its watcher can be made. -/
theorem create_exemptingDaemon :
    letI := wholeLine
    Daemon.create (kernel (lit "/log") 1) exemptingDaemon
      = .ok () (stateOf (Daemon.create (kernel (lit "/log") 1) exemptingDaemon)) :=
  eq_ok_of_returned (by decide +kernel)

/-- The two lines are read in one pass. -/
theorem check_exemptingLines :
    letI := wholeLine
    Daemon.check (kernel (lit "/log") 1) (fun _ => true) exemptingLines = .ok () exemptingRead :=
  eq_ok_of_returned (by decide +kernel)

/-- The run of the example. -/
theorem run_exemptingRead :
    letI := wholeLine
    Run (fun s => (MainLoop.Installed s ∧ Prepared (lit "blockad.conf") s.data) ∧
        Exempts (lit "blockad.conf") (lit "192.0.2.0/24") s.data.config)
      (fun s a s' => MainLoop.Step 65536
          (Daemon.body (kernel (lit "/log") 1) (lit "blockad.conf")) s a s' ∧
        (a = .reloaded → Exempts (lit "blockad.conf") (lit "192.0.2.0/24") s'.data.config))
      readActions ⟨.checked false, false, 0, exemptingRead⟩ := by
  let _ := wholeLine
  have hprepared : Prepared (lit "blockad.conf") exemptingDaemon :=
    ⟨.ok (exemptingText, none), fun n => ⟨n, .ok true⟩, construct_exemptingText, rfl, rfl⟩
  exact run_exempting hprepared exempts_exemptingConfig create_exemptingDaemon rfl
    check_exemptingLines

/-- The text of the network is read. -/
theorem networkOf_exempted :
    letI := wholeLine
    NetworkOf (lit "192.0.2.0/24") (mapped4 #v[192, 0, 2, 0]) 120 :=
  letI := wholeLine
  @NetworkOf.net4 _ (lit "192.0.2.0") (lit "24") _ 24
    (by decide) (by decide) (by rfl) (by rfl) (by decide)

/-- The network has no bits beyond its mask. -/
theorem networkAligned_exempted : NetworkAligned (mapped4 #v[192, 0, 2, 0]) 120 := by
  unfold NetworkAligned
  decide

/-- The address is in the network. -/
theorem agreeTo_exempted : AgreeTo 120 (⟨mapped4 #v[192, 0, 2, 1]⟩ : Address).address
    (mapped4 #v[192, 0, 2, 0]) := by
  unfold AgreeTo
  decide

/-- Two lines, and no call of `block`. -/
theorem exempt_never_blocked_exemptingRead :
    letI := wholeLine
    ⟨mapped4 #v[192, 0, 2, 1]⟩ ∉ exemptingRead.store.blockCalls := by
  have hnever := @exempt_never_blocked wholeLine Handle Filesystem _ _ _ _ _ _ _ _ _ (by decide)
    networkOf_exempted networkAligned_exempted agreeTo_exempted run_exemptingRead
  dsimp only at hnever
  exact hnever

end

end

end Blockad.Proofs
