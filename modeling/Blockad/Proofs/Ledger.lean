import Blockad.Lib.Pieces
import Blockad.Proofs.BlockFailures

/-!
# `Blockad.Proofs.Ledger`: what the daemon did to the machine

The daemon changes the machine by its block methods only: commands are executed, and lines reach
the end of files. A ledger has an entry for each call of `block`, and accounts for all of it. An
entry is about one detection of the run, and says what the system calls of this detection decide.

* `entry_of_block`: what one call of `block` does is an entry for its address.
* `detection_entry`: a detection makes at most one entry, and none for a blocked address.
* `daemon_ledger`: over every run, the commands and the contents of the files are those of the
  entries, and no entry for an address follows a successful one.
* `hosts_deny_exact`: if the disk has room, the lines in `hosts.deny` are those of the blocked
  addresses, once each.
-/

set_option autoImplicit false

namespace Blockad.Proofs

open Bytes Prog Runs Pieces

/-! ### Entries -/

/-- A call of `block`: in which detection it was, whether it blocked the address, what was appended
to the file and which system calls were made. -/
structure LedgerEntry where
  detection : Nat
  method : BlockMethod
  address : Address
  blocked : Bool
  wrote : Bytes
  calls : List SysCall

namespace LedgerEntry

/-- What reached the file at `p`. -/
def wroteTo (p : Bytes) (entry : LedgerEntry) : Bytes :=
  match entry.method with
  | .iptables => []
  | .hostsDeny path => if p = cstr path then entry.wrote else []

/-- The entry is for its address, if its system calls are answered with `o`: only the command with
the text of the address is executed, with status zero if it is blocked, and only its line is
written, all of it if it is blocked. A command that ends is run, and its status is the result. The
line is written and the address is blocked exactly if no call of the append fails. -/
inductive Genuine [Libc] [InetNtop] (o : BlockOutcomes) : LedgerEntry → Prop where
  | iptables {n : Nat} {a : Address} {program before after text : Bytes} {blocked : Bool}
      {calls : List SysCall} (h : Texts a program before after text)
      (hforks : Forks (rejectCommand program text) calls)
      (hreturned : blocked = true → Returned (rejectCommand program text) 0 calls)
      (hruns : ∀ pid reads ws, Finishes o.execute pid reads ws →
        (ws ≠ 0 → (captured reads).length + 1 < o.execute.turns) →
          blocked = decide (ws = 0) ∧ Returned (rejectCommand program text) ws calls) :
      Genuine o ⟨n, .iptables, a, blocked, [], calls⟩
  | hostsDeny {n : Nat} {a : Address} {line wrote path : Bytes} {blocked : Bool}
      (h : BlockHostsDeny.line a = .ok line) (hpart : wrote <+: line)
      (hwhole : blocked = true → wrote = line)
      (hsucceeds : blocked = true ↔ AppendOutcomes.Succeed o.append) :
      Genuine o ⟨n, .hostsDeny path, a, blocked, wrote, []⟩

/-- The machine from one state to the next one, in which there is one entry more. -/
structure Posts (entry : LedgerEntry) (m m' : Host) : Prop where
  calls : m'.calls = m.calls ++ entry.calls
  files : ∀ p, m'.files p = m.files p ++ entry.wroteTo p

end LedgerEntry

open LedgerEntry

/-- The text is what was appended. -/
theorem posts_textAppended (n : Nat) (m : Host) (path text : Bytes) (a : Address)
    (blocked : Bool) :
    (⟨n, .hostsDeny path, a, blocked, text, []⟩ : LedgerEntry).Posts m
      (textAppended m path text) := by
  refine ⟨(List.append_nil _).symm, fun p => ?_⟩
  show (if p = cstr path then m.files p ++ text else m.files p) =
    m.files p ++ (if p = cstr path then text else [])
  split
  · rfl
  · rw [List.append_nil]

section
variable [Libc] [InetNtop] {a : Address} {program before after text : Bytes}

/-- An entry for what `block` did in the detection `n`. -/
structure IsEntry (n : Nat) (method : BlockMethod) (o : BlockOutcomes) (a : Address)
    (blocked : Bool) (m m' : Host) (entry : LedgerEntry) : Prop where
  genuine : entry.Genuine o
  posts : entry.Posts m m'
  detection_eq : entry.detection = n
  method_eq : entry.method = method
  address_eq : entry.address = a
  blocked_eq : entry.blocked = blocked

/-- The line is written, or a part of it. -/
theorem entry_of_hostsDeny (h : Texts a program before after text) (n : Nat) (path : Bytes)
    (o : BlockOutcomes) (m : Host) :
    Ends (fun blocked m' => ∃ entry, IsEntry n (.hostsDeny path) o a blocked m m' entry)
      (fun _ _ => False) (BlockHostsDeny.block o.append path a m) := by
  refine (hostsDeny_ends h.line o.append path m).mono ?_ fun _ _ => id
  rintro blocked m' (⟨rfl, hsucceed, rfl⟩ | ⟨rfl, hfail, k, message, rfl⟩)
  · have hsucceeds : true = true ↔ AppendOutcomes.Succeed o.append :=
      ⟨fun _ => hsucceed, fun _ => rfl⟩
    exact ⟨_, .hostsDeny h.line (List.prefix_refl _) (fun _ => rfl) hsucceeds,
      posts_textAppended n m path _ a true, rfl, rfl, rfl, rfl⟩
  · -- The message in the log is no change of a file.
    have hposts := posts_textAppended n m path
      ((lit "ALL: " ++ before ++ text ++ after ++ [nl]).take k) a false
    have hsucceeds : false = true ↔ AppendOutcomes.Succeed o.append :=
      ⟨nofun, fun hsucceed => absurd hsucceed hfail⟩
    exact ⟨⟨n, .hostsDeny path, a, false, _, []⟩,
      .hostsDeny h.line (List.take_prefix k _) nofun hsucceeds,
      ⟨hposts.calls, hposts.files⟩, rfl, rfl, rfl, rfl⟩

/-- The command is run, or a call failed before it was. -/
theorem entry_of_iptables (h : Texts a program before after text) (n : Nat) (debugging : Bool)
    (o : BlockOutcomes) (m : Host) :
    Ends (fun blocked m' => ∃ entry, IsEntry n .iptables o a blocked m m' entry)
      (fun _ m' => ∃ entry, IsEntry n .iptables o a false m m' entry)
      (BlockIptables.block debugging o.execute a m) := by
  have hends := executeArgv_ends o.execute debugging program (rejectCommand program text).tail
  have hforks := executeArgv_forks o.execute debugging program (rejectCommand program text).tail
  have hfinishes : ∀ pid reads ws, Finishes o.execute pid reads ws →
      (ws ≠ 0 → (captured reads).length + 1 < o.execute.turns) →
        ∃ s, Execute.executeArgv o.execute debugging (rejectCommand program text) = .ok ws s :=
    fun pid reads ws h hturns => executeArgv_of_finishes h hturns debugging program _
  rw [iptables_eq h]
  cases hrun : Execute.executeArgv o.execute debugging (rejectCommand program text) with
  | ok ws s =>
    have hreturned := (hends.ok hrun).1
    refine ⟨⟨n, .iptables, a, decide (ws = 0), [], s.calls⟩, .iptables h hreturned.forks ?_ ?_,
      ⟨rfl, fun p => (List.append_nil _).symm⟩, rfl, rfl, rfl, rfl⟩
    · intro hblocked
      rw [decide_eq_true_iff] at hblocked
      rw [hblocked] at hreturned
      exact hreturned
    · intro pid reads ws' h' hturns
      obtain ⟨s', hrun'⟩ := hfinishes pid reads ws' h' hturns
      rw [hrun'] at hrun
      cases hrun
      exact ⟨rfl, hreturned⟩
  | error stop s =>
    have hstate : stateOf (Execute.executeArgv o.execute debugging
        (rejectCommand program text)) = s := by
      rw [hrun, stateOf_error]
    rw [← hstate]
    refine ⟨⟨n, .iptables, a, false, [], _⟩, .iptables h hforks nofun ?_,
      ⟨rfl, fun p => (List.append_nil _).symm⟩, rfl, rfl, rfl, rfl⟩
    -- A command that ends throws nothing.
    intro pid reads ws' h' hturns
    obtain ⟨s', hrun'⟩ := hfinishes pid reads ws' h' hturns
    rw [hrun'] at hrun
    cases hrun

/-- **One call of `block`.** -/
theorem entry_of_block (h : Texts a program before after text) (n : Nat) (method : BlockMethod)
    (debugging : Bool) (o : BlockOutcomes) (m : Host) :
    Ends (fun blocked m' => ∃ entry, IsEntry n method o a blocked m m' entry)
      (fun _ m' => ∃ entry, IsEntry n method o a false m m' entry)
      (BlockMethod.block debugging o a method m) := by
  cases method with
  | hostsDeny path => exact (entry_of_hostsDeny h n path o m).mono (fun _ _ => id) fun _ _ => nofun
  | iptables => exact entry_of_iptables h n debugging o m

/-- The lines of the log do not matter. -/
theorem IsEntry.of_eq {n : Nat} {method : BlockMethod} {o : BlockOutcomes} {blocked : Bool}
    {m m' m₁ m₁' : Host} {entry : LedgerEntry} (h : IsEntry n method o a blocked m m' entry)
    (hcalls : m₁.calls = m.calls) (hfiles : m₁.files = m.files) (hcalls' : m₁'.calls = m'.calls)
    (hfiles' : m₁'.files = m'.files) : IsEntry n method o a blocked m₁ m₁' entry := by
  refine { h with posts := ⟨?_, fun p => ?_⟩ }
  · rw [hcalls', hcalls]
    exact h.posts.calls
  · rw [hfiles', hfiles]
    exact h.posts.files p

/-! ### One detection -/

variable (debugging : Bool) (cf : ConfFile)

/-- Every call of `block` makes one entry, whether it returns or throws. -/
theorem blockAddress_entry (h : Texts a program before after text) (n : Nat) (o : BlockOutcomes)
    (d : HostDaemon) :
    Ends (fun blocked d' => Called d a d' ∧
        ∃ entry, IsEntry n cf.block o a blocked d.host d'.host entry)
      (fun _ d' => Called d a d' ∧ ∃ entry, IsEntry n cf.block o a false d.host d'.host entry)
      (HostDaemon.blockAddress debugging cf a o d) := by
  let d₁ := logged d [⟨.info, lit "blocking " ++ text ++ []⟩]
  have hends := entry_of_block h n cf.block debugging o d₁.host
  unfold HostDaemon.blockAddress
  rw [bind_of_ok (logAbout_eq h _ _ _ d)]
  refine Ends.bind ?_
  refine Ends.bind ?_
  show Ends _ _ (HostDaemon.run _ _)
  unfold HostDaemon.run
  dsimp only
  cases hrun : BlockMethod.block debugging o a cf.block d₁.host with
  | error stop m' =>
    obtain ⟨entry, hentry⟩ := hends.error hrun
    exact ⟨⟨rfl, rfl, rfl⟩, entry, hentry.of_eq rfl rfl rfl rfl⟩
  | ok blocked m' =>
    obtain ⟨entry, hentry⟩ := hends.ok hrun
    cases blocked with
    | true => exact ⟨⟨rfl, rfl, rfl⟩, entry, hentry.of_eq rfl rfl rfl rfl⟩
    | false =>
      refine Ends.bind ?_
      rw [logAbout_eq h]
      exact ⟨⟨rfl, rfl, rfl⟩, entry, hentry.of_eq rfl rfl rfl rfl⟩

/-- What the detection `n` adds to the ledger. -/
inductive Booked (n : Nat) (cf : ConfFile) (a : Address) (d d' : HostDaemon) : Prop where
  | nothing (hfuture : d'.future = d.next.future)
      (hblocked : ∀ b, (d'.dataOf b).blocked = (d.dataOf b).blocked)
      (hcalls : d'.blockCalls = d.blockCalls) (hsystem : d'.host.calls = d.host.calls)
      (hfiles : d'.host.files = d.host.files)
  | entry {blocked : Bool} (entry : LedgerEntry) (hfuture : d'.future = d.next.future)
      (hopen : (d.dataOf a).blocked = false)
      (hentry : IsEntry n cf.block (d.future 0).outcomes a blocked d.host d'.host entry)
      (hblocked : ∀ b, (d'.dataOf b).blocked = if a = b then blocked else (d.dataOf b).blocked)
      (hcalls : d'.blockCalls = d.blockCalls ++ [a])

omit [Libc] [InetNtop] in
/-- A debug line is no call, and is written to no file. -/
theorem host_debugged (line : Bytes) (d : HostDaemon) :
    (debugged debugging line d).host.calls = d.host.calls ∧
      (debugged debugging line d).host.files = d.host.files := by
  cases debugging <;> exact ⟨rfl, rfl⟩

omit [Libc] [InetNtop] in
/-- A debug line is no detection. -/
theorem future_debugged (line : Bytes) (d : HostDaemon) :
    (debugged debugging line d).future = d.future := by
  cases debugging <;> rfl

/-- **One detection.** -/
theorem detection_entry (h : Texts a program before after text) (n : Nat) (d : HostDaemon) :
    Booked n cf a d (stateOf (HostDaemon.detectedAddress debugging cf a d)) := by
  rw [daemon_detectedAddress_run debugging cf h]
  dsimp only
  have hhost := host_debugged debugging (lit "detected " ++ text ++ []) d.next
  have hdata := dataOf_debugged debugging (lit "detected " ++ text ++ []) d.next
  have hcalls : (debugged debugging (lit "detected " ++ text ++ []) d.next).blockCalls =
      d.blockCalls := blockCalls_debugged debugging _ d.next
  have hfuture := future_debugged debugging (lit "detected " ++ text ++ []) d.next
  generalize debugged debugging (lit "detected " ++ text ++ []) d.next = d₀
    at hhost hdata hcalls hfuture ⊢
  by_cases hexempt : isExempted cf a = true
  · rw [if_pos hexempt]
    have hhost' := host_debugged debugging ([] ++ text ++ lit " is exempted") d₀
    refine .nothing ((future_debugged debugging _ d₀).trans hfuture) (fun b => ?_) ?_
      (hhost'.1.trans hhost.1) (hhost'.2.trans hhost.2)
    · show ((debugged debugging _ d₀).dataOf b).blocked = _
      rw [dataOf_debugged, hdata, daemon_dataOf_next]
    · exact (blockCalls_debugged debugging _ d₀).trans hcalls
  rw [if_neg hexempt]
  by_cases hblocked : (d.dataOf a).blocked = true
  · rw [if_pos hblocked]
    refine .nothing hfuture (fun b => ?_) hcalls hhost.1 hhost.2
    show (d₀.dataOf b).blocked = _
    rw [hdata, daemon_dataOf_next]
  rw [if_neg hblocked]
  have hopen : (d.dataOf a).blocked = false := by simpa using hblocked
  let d₁ := d₀.update a ⟨timesOf cf a d, false⟩
  -- The new time changes nothing of what the ledger is about.
  have hblocked₁ : ∀ b, (d₁.dataOf b).blocked = (d.dataOf b).blocked := by
    intro b
    rw [daemon_dataOf_update, hdata, daemon_dataOf_next]
    split
    · next hab => rw [← hab, hopen]
    · rfl
  by_cases hrate : cf.rateMax < (timesOf cf a d).length
  · rw [if_pos hrate]
    have hends := blockAddress_entry debugging cf h n (d.future 0).outcomes d₁
    cases hrun : HostDaemon.blockAddress debugging cf a (d.future 0).outcomes d₁ with
    | error stop d₂ =>
      obtain ⟨hcalled, entry, hentry⟩ := hends.error hrun
      refine .entry entry (hcalled.future.trans hfuture) hopen
        (hentry.of_eq hhost.1.symm hhost.2.symm rfl rfl) (fun b => ?_) ?_
      · show (d₂.dataOf b).blocked = _
        rw [dataOf_of_called hcalled, hblocked₁]
        split
        · next hab => rw [← hab, hopen]
        · rfl
      · exact hcalled.blockCalls.trans (congrArg (· ++ [a]) hcalls)
    | ok blocked d₂ =>
      obtain ⟨hcalled, entry, hentry⟩ := hends.ok hrun
      have hentry := hentry.of_eq hhost.1.symm hhost.2.symm rfl rfl
      have hfuture₂ := hcalled.future.trans hfuture
      have hcalls₂ := hcalled.blockCalls.trans (congrArg (· ++ [a]) hcalls)
      cases blocked with
      | false =>
        refine .entry entry hfuture₂ hopen hentry (fun b => ?_) hcalls₂
        show (d₂.dataOf b).blocked = _
        rw [dataOf_of_called hcalled, hblocked₁]
        split
        · next hab => rw [← hab, hopen]
        · rfl
      | true =>
        refine .entry entry hfuture₂ hopen hentry (fun b => ?_) hcalls₂
        show ((d₂.update a _).dataOf b).blocked = _
        rw [daemon_dataOf_update]
        split
        · rfl
        · rw [dataOf_of_called hcalled, hblocked₁]
  · rw [if_neg hrate]
    exact .nothing hfuture hblocked₁ hcalls hhost.1 hhost.2

/-! ### The ledger of a run -/

/-- The daemon before its first detection, with all that is to come. -/
structure Unused (host : Host) (future : Nat → Trial) (d : HostDaemon) : Prop where
  addressData : d.addressData = ∅
  blockCalls : d.blockCalls = []
  host_eq : d.host = host
  future_eq : d.future = future

/-- A detection under some configuration. It may end with an exception. -/
inductive HostStep : HostDaemon → ConfFile × Address → HostDaemon → Prop where
  | detected (cf : ConfFile) (a : Address) (d : HostDaemon) :
      HostStep d (cf, a) (stateOf (HostDaemon.detectedAddress debugging cf a d))

/-- The entries account for what is not as it was on the machine at the start, after `n`
detections. -/
structure Ledger (host : Host) (future : Nat → Trial) (n : Nat) (entries : List LedgerEntry)
    (d : HostDaemon) : Prop where
  /-- The detections so far took the first `n` of the trials. -/
  remaining : ∀ k, d.future k = future (n + k)
  /-- Each entry is one of another detection, and what this one decides. -/
  detections : ∀ entry ∈ entries, entry.detection < n
  inOrder : entries.Pairwise fun entry later => entry.detection < later.detection
  genuine : ∀ entry ∈ entries, entry.Genuine (future entry.detection).outcomes
  blockCalls : d.blockCalls = entries.map LedgerEntry.address
  calls : d.host.calls = host.calls ++ entries.flatMap LedgerEntry.calls
  files : ∀ p, d.host.files p = host.files p ++ entries.flatMap (wroteTo p)
  blocked : ∀ a, (d.dataOf a).blocked = true ↔
    ∃ entry ∈ entries, entry.address = a ∧ entry.blocked = true
  /-- No entry for an address follows a successful one. -/
  settled : entries.Pairwise fun entry later => entry.blocked = true → later.address ≠ entry.address

variable {debugging cf} {host : Host} {future : Nat → Trial} {n : Nat} {d d' : HostDaemon}
  {entries : List LedgerEntry}

/-- Before the first detection, the ledger is empty. -/
theorem ledger_of_unused (h : Unused host future d) : Ledger host future 0 [] d := by
  refine ⟨fun k => ?_, nofun, .nil, nofun, h.blockCalls, ?_, fun p => ?_, fun a => ?_, .nil⟩
  · rw [h.future_eq, Nat.zero_add]
  · rw [h.host_eq]
    exact (List.append_nil _).symm
  · rw [h.host_eq]
    exact (List.append_nil _).symm
  · have hdata : d.dataOf a = {} := by simp [HostDaemon.dataOf, h.addressData]
    rw [hdata]
    simp

/-- One detection takes one trial. -/
theorem Ledger.remaining_next (hl : Ledger host future n entries d)
    (hfuture : d'.future = d.next.future) (k : Nat) : d'.future k = future (n + 1 + k) := by
  rw [hfuture, Nat.add_assoc, Nat.add_comm 1 k]
  exact hl.remaining (k + 1)

/-- **The step lemma.** -/
theorem ledger_step (hl : Ledger host future n entries d) (h : Booked n cf a d d') :
    Ledger host future (n + 1) entries d' ∨ ∃ entry blocked,
      IsEntry n cf.block (d.future 0).outcomes a blocked d.host d'.host entry ∧
        Ledger host future (n + 1) (entries ++ [entry]) d' := by
  cases h with
  | nothing hfuture hblocked hcalls hsystem hfiles =>
    refine .inl { hl with
      remaining := hl.remaining_next hfuture
      detections := fun entry he => Nat.lt_succ_of_lt (hl.detections entry he)
      blockCalls := hcalls.trans hl.blockCalls
      calls := hsystem.trans hl.calls
      files := fun p => ?_
      blocked := fun b => ?_ }
    · rw [hfiles]
      exact hl.files p
    · rw [hblocked]
      exact hl.blocked b
  | @entry blocked entry hfuture hopen hentry hblocked hcalls =>
    refine .inr ⟨entry, blocked, hentry, hl.remaining_next hfuture, fun e he => ?_, ?_,
      fun e he => ?_, ?_, ?_, fun p => ?_, fun b => ?_, ?_⟩
    · rcases List.mem_append.mp he with he | he
      · exact Nat.lt_succ_of_lt (hl.detections e he)
      · rw [List.mem_singleton.mp he, hentry.detection_eq]
        exact Nat.lt_succ_self n
    · refine List.pairwise_append.mpr ⟨hl.inOrder, List.pairwise_singleton _ _, ?_⟩
      intro e he later hlater
      rw [List.mem_singleton.mp hlater, hentry.detection_eq]
      exact hl.detections e he
    · rcases List.mem_append.mp he with he | he
      · exact hl.genuine e he
      · have hgenuine := hentry.genuine
        rw [hl.remaining 0, Nat.add_zero] at hgenuine
        rw [List.mem_singleton.mp he, hentry.detection_eq]
        exact hgenuine
    · rw [hcalls, hl.blockCalls, List.map_append, List.map_singleton, hentry.address_eq]
    · rw [hentry.posts.calls, hl.calls, List.flatMap_append, List.flatMap_singleton,
        List.append_assoc]
    · rw [hentry.posts.files p, hl.files p, List.flatMap_append, List.flatMap_singleton,
        List.append_assoc]
    · simp only [List.mem_append, List.mem_singleton, or_and_right, exists_or, exists_eq_left,
        ← hl.blocked b, hblocked b, hentry.address_eq, hentry.blocked_eq]
      by_cases hab : a = b
      · rw [if_pos hab, ← hab, hopen]
        simp
      · rw [if_neg hab]
        simp [hab]
    · -- There was no successful entry for `a`, or it would be blocked.
      refine List.pairwise_append.mpr ⟨hl.settled, List.pairwise_singleton _ _, ?_⟩
      intro e he later hlater hsucceeded hsame
      rw [List.mem_singleton.mp hlater, hentry.address_eq] at hsame
      have hclosed := (hl.blocked a).mpr ⟨e, he, hsame.symm, hsucceeded⟩
      rw [hopen] at hclosed
      cases hclosed

/-- **The effects of the daemon are accounted for.** -/
theorem daemon_ledger (law : LawfulNtop)
    (h : Reachable (Unused host future) (HostStep debugging) d) :
    ∃ n entries, Ledger host future n entries d := by
  have hstart : ∀ d, Unused host future d → ∃ n entries, Ledger host future n entries d :=
    fun d hd => ⟨0, [], ledger_of_unused hd⟩
  refine h.invariant hstart ?_
  intro d i d' hd hstep
  obtain ⟨n, entries, hl⟩ := hd
  obtain ⟨cf, a, _⟩ := hstep
  obtain ⟨_, _, _, text, htexts⟩ := exists_texts law a
  rcases ledger_step hl (detection_entry debugging cf htexts n d) with hl' | ⟨entry, _, -, hl'⟩
  · exact ⟨n + 1, entries, hl'⟩
  · exact ⟨n + 1, entries ++ [entry], hl'⟩

end

/-- A configuration that blocks at the first detection, with a line in `hosts.deny`. -/
def strictDeny : @ConfFile Libc.withGroups :=
  @ConfFile.mk Libc.withGroups [] [] [] 0 60 (.hostsDeny (lit "/etc/hosts.deny")) [] 0

/-- There is room for each line, except for the first one. -/
def roomLater (n : Nat) : Trial :=
  ⟨1000 + n, if n = 0 then diskFull else { diskFull with append := ⟨.ok (), .ok (), .ok (), 0⟩ }⟩

/-- A daemon after a detection. -/
def detectedHost6 (d : HostDaemon) : HostDaemon :=
  stateOf (@HostDaemon.detectedAddress InetNtop.withGroups Libc.withGroups false strictDeny host6 d)

/-- Before the first detection. -/
def roomLaterStart : HostDaemon := ⟨∅, [], freshHost, roomLater⟩

/-- An append that fails, and one that succeeds. -/
theorem daemon_ledger_roomLater :
    ∃ n entries, @Ledger Libc.withGroups InetNtop.withGroups freshHost roomLater n entries
      (detectedHost6 (detectedHost6 roomLaterStart)) := by
  let _ := Libc.withGroups
  let _ := InetNtop.withGroups
  have hstart : Unused freshHost roomLater roomLaterStart := ⟨rfl, rfl, rfl, rfl⟩
  have hdetects : ∀ d, HostStep false d (strictDeny, host6) (detectedHost6 d) :=
    .detected strictDeny host6
  exact daemon_ledger lawfulNtop_withGroups
    (.next _ (.next _ (.start hstart) (hdetects _)) (hdetects _))

/-! ### The lines in `hosts.deny` -/

section
variable [Libc] [InetNtop] {debugging : Bool} {host : Host} {future : Nat → Trial} {d : HostDaemon}

/-- What stands around the text in the line. -/
theorem exists_bracketed (law : LawfulNtop) (a : Address) : ∃ program before after text,
    Texts a program before after text ∧
      (before = [] ∧ after = [] ∨ before = lit "[" ∧ after = lit "]") := by
  cases h4 : a.is4 with
  | true =>
    obtain ⟨x, hx⟩ := is4_iff.mp h4
    exact ⟨_, _, _, _, texts4 law hx, .inl ⟨rfl, rfl⟩⟩
  | false => exact ⟨_, _, _, _, texts6 law h4, .inr ⟨rfl, rfl⟩⟩

omit [Libc] [InetNtop] in
/-- A bracket is no part of the text of an address. -/
theorem not_isTextChar_bracket : ¬ IsTextChar (chr '[') := by
  unfold IsTextChar
  decide

/-- Equal lines are for one address. -/
theorem hostsDeny_line_inj (law : LawfulNtop) {a b : Address} {line : Bytes}
    (ha : BlockHostsDeny.line a = .ok line) (hb : BlockHostsDeny.line b = .ok line) : a = b := by
  obtain ⟨_, before, after, text, hta, haround⟩ := exists_bracketed law a
  obtain ⟨_, before', after', text', htb, haround'⟩ := exists_bracketed law b
  rw [hta.line] at ha
  rw [htb.line] at hb
  have hline := Except.ok.inj (ha.trans hb.symm)
  have hmiddle : before ++ text ++ after = before' ++ text' ++ after' := by
    simpa only [List.append_assoc, List.append_cancel_left_eq] using List.append_cancel_right hline
  have htext : text = text' := by
    obtain ⟨rfl, rfl⟩ | ⟨rfl, rfl⟩ := haround <;> obtain ⟨rfl, rfl⟩ | ⟨rfl, rfl⟩ := haround'
    · simpa using hmiddle
    · -- There is no bracket in the text of an address.
      refine absurd (hta.chars (chr '[') ?_) not_isTextChar_bracket
      rw [List.nil_append, List.append_nil] at hmiddle
      rw [hmiddle]
      exact List.mem_cons_self
    · refine absurd (htb.chars (chr '[') ?_) not_isTextChar_bracket
      rw [List.nil_append, List.append_nil] at hmiddle
      rw [← hmiddle]
      exact List.mem_cons_self
    · exact List.append_cancel_left (List.append_cancel_right hmiddle)
  have hassign := hta.assign
  rw [htext, htb.assign] at hassign
  exact (Except.ok.inj hassign).symm

/-- A line has its newline at its end only. -/
theorem isPiece_of_hostsDeny_line (law : LawfulNtop) {a : Address} {line : Bytes}
    (h : BlockHostsDeny.line a = .ok line) : IsPiece nl line := by
  obtain ⟨_, before, after, text, htexts, haround⟩ := exists_bracketed law a
  rw [htexts.line] at h
  refine ⟨_, (Except.ok.inj h).symm, ?_⟩
  have htext : nl ∉ text := by
    intro hnl
    have hchar := htexts.chars nl hnl
    unfold IsTextChar at hchar
    exact absurd hchar (by decide)
  obtain ⟨rfl, rfl⟩ | ⟨rfl, rfl⟩ := haround
  · simp only [List.mem_append, not_or]
    exact ⟨⟨⟨by decide, nofun⟩, htext⟩, nofun⟩
  · simp only [List.mem_append, not_or]
    exact ⟨⟨⟨by decide, by decide⟩, htext⟩, by decide⟩

/-- A line of `hosts.deny` in `path` is written without an error. -/
def Writes (path : Bytes) (d : HostDaemon) (i : ConfFile × Address) : Prop :=
  i.1.block = .hostsDeny path ∧ AppendOutcomes.Succeed (d.future 0).outcomes.append

/-- An entry of a run in which every line is written. -/
def WroteLine (path : Bytes) (entry : LedgerEntry) : Prop :=
  entry.method = .hostsDeny path ∧ entry.blocked = true

variable {path : Bytes}

/-- A line that is written without an error blocks its address. -/
theorem LedgerEntry.Genuine.blocked_of_succeed {o : BlockOutcomes} {entry : LedgerEntry}
    (h : entry.Genuine o) (hmethod : entry.method = .hostsDeny path)
    (hsucceed : AppendOutcomes.Succeed o.append) : entry.blocked = true := by
  cases h with
  | iptables => cases hmethod
  | hostsDeny hline hpart hwhole hsucceeds => exact hsucceeds.mpr hsucceed

/-- **Every entry** is a whole line, if every append succeeds. -/
theorem written_ledger (law : LawfulNtop)
    (h : Reachable (Unused host future) (Guarded (HostStep debugging) (Writes path)) d) :
    ∃ n entries, Ledger host future n entries d ∧ ∀ entry ∈ entries, WroteLine path entry := by
  have hstart : ∀ d, Unused host future d →
      ∃ n entries, Ledger host future n entries d ∧ ∀ entry ∈ entries, WroteLine path entry :=
    fun d hd => ⟨0, [], ledger_of_unused hd, nofun⟩
  refine h.invariant hstart ?_
  intro d i d' hd hstep
  obtain ⟨n, entries, hl, hwritten⟩ := hd
  obtain ⟨⟨hmethod, hsucceed⟩, hdetects⟩ := hstep
  obtain ⟨cf, a, _⟩ := hdetects
  obtain ⟨_, _, _, text, htexts⟩ := exists_texts law a
  rcases ledger_step hl (detection_entry debugging cf htexts n d) with
    hl' | ⟨entry, blocked, hentry, hl'⟩
  · exact ⟨n + 1, entries, hl', hwritten⟩
  · refine ⟨n + 1, entries ++ [entry], hl', fun e he => ?_⟩
    rcases List.mem_append.mp he with he | he
    · exact hwritten e he
    · have hline := hentry.method_eq.trans hmethod
      rw [List.mem_singleton.mp he]
      exact ⟨hline, hentry.genuine.blocked_of_succeed hline hsucceed⟩

/-- What such an entry wrote. -/
theorem wroteTo_of_wroteLine {o : BlockOutcomes} {entry : LedgerEntry}
    (hgenuine : entry.Genuine o) (h : WroteLine path entry) (p : Bytes) :
    BlockHostsDeny.line entry.address = .ok entry.wrote ∧ entry.calls = [] ∧
      entry.wroteTo p = if p = cstr path then entry.wrote else [] := by
  obtain ⟨hmethod, hblocked⟩ := h
  cases hgenuine with
  | iptables => cases hmethod
  | @hostsDeny n a line wrote path' blocked hline hpart hwhole hsucceeds =>
    cases hmethod
    rw [hwhole hblocked]
    exact ⟨hline, rfl, rfl⟩

/-- **`hosts.deny` is exact.** If every line is written without an error, then what the daemon adds
to the file are the lines of the addresses it blocked, in order and once each, and nothing else. -/
theorem hosts_deny_exact (law : LawfulNtop)
    (h : Reachable (Unused host future) (Guarded (HostStep debugging) (Writes path)) d) :
    ∃ added, d.host.files (cstr path) = host.files (cstr path) ++ added ∧ rest nl added = [] ∧
      (pieces nl added).map Except.ok = d.blockCalls.map BlockHostsDeny.line ∧
      (pieces nl added).Nodup ∧
      (∀ a line, BlockHostsDeny.line a = .ok line →
        ((d.dataOf a).blocked = true ↔ line ∈ pieces nl added)) ∧
      (∀ p, p ≠ cstr path → d.host.files p = host.files p) ∧ d.host.calls = host.calls := by
  obtain ⟨_, entries, hl, hwritten⟩ := written_ledger law h
  have hwrote : ∀ entry ∈ entries, ∀ p, BlockHostsDeny.line entry.address = .ok entry.wrote ∧
      entry.calls = [] ∧ entry.wroteTo p = if p = cstr path then entry.wrote else [] :=
    fun entry he => wroteTo_of_wroteLine (hl.genuine entry he) (hwritten entry he)
  have hpieces : ∀ line ∈ entries.map LedgerEntry.wrote, IsPiece nl line := by
    intro line hline
    obtain ⟨entry, he, rfl⟩ := List.mem_map.mp hline
    exact isPiece_of_hostsDeny_line law (hwrote entry he []).1
  refine ⟨(entries.map LedgerEntry.wrote).flatten, ?_, rest_flatten hpieces, ?_⟩
  · rw [hl.files, List.flatMap_def]
    congr 2
    refine List.map_congr_left fun entry he => ?_
    rw [(hwrote entry he _).2.2, if_pos rfl]
  rw [pieces_flatten hpieces]
  refine ⟨?_, ?_, fun a line hline => ?_, fun p hp => ?_, ?_⟩
  · rw [hl.blockCalls, List.map_map, List.map_map]
    exact List.map_congr_left fun entry he => (hwrote entry he []).1.symm
  · -- Equal lines would be entries for one address.
    refine List.pairwise_map.mpr (hl.settled.imp_of_mem fun {e e'} he he' hsettled hsame => ?_)
    have hline' := (hwrote e' he' []).1
    rw [← hsame] at hline'
    exact hsettled (hwritten e he).2 (hostsDeny_line_inj law hline' (hwrote e he []).1)
  · rw [hl.blocked, List.mem_map]
    constructor
    · rintro ⟨entry, he, rfl, -⟩
      exact ⟨entry, he, Except.ok.inj ((hwrote entry he []).1.symm.trans hline)⟩
    · rintro ⟨entry, he, rfl⟩
      exact ⟨entry, he, hostsDeny_line_inj law (hwrote entry he []).1 hline, (hwritten entry he).2⟩
  · rw [hl.files, List.flatMap_eq_nil_iff.mpr, List.append_nil]
    intro entry he
    rw [(hwrote entry he p).2.2, if_neg hp]
  · rw [hl.calls, List.flatMap_eq_nil_iff.mpr, List.append_nil]
    exact fun entry he => (hwrote entry he []).2.1

end

/-- There is room for each line. -/
def roomStart : HostDaemon := ⟨∅, [], freshHost, fun n => roomLater (n + 1)⟩

/-- Two detections of one address, and one line. -/
theorem hosts_deny_exact_room :
    ∃ added, (detectedHost6 (detectedHost6 roomStart)).host.files (lit "/etc/hosts.deny") =
        added ∧ rest nl added = [] ∧
      (pieces nl added).map Except.ok =
        [@BlockHostsDeny.line InetNtop.withGroups host6] := by
  let _ := Libc.withGroups
  let _ := InetNtop.withGroups
  have hstart : Unused freshHost roomStart.future roomStart := ⟨rfl, rfl, rfl, rfl⟩
  have hwrites : ∀ d : HostDaemon, AppendOutcomes.Succeed (d.future 0).outcomes.append →
      Guarded (HostStep false) (Writes (lit "/etc/hosts.deny")) d (strictDeny, host6)
        (detectedHost6 d) :=
    fun d hsucceed => ⟨⟨rfl, hsucceed⟩, .detected strictDeny host6 d⟩
  obtain ⟨added, hfile, hrest, hlines, -⟩ := hosts_deny_exact lawfulNtop_withGroups
    (.next _ (.next _ (.start hstart) (hwrites _ ⟨rfl, rfl, rfl⟩)) (hwrites _ ⟨rfl, rfl, rfl⟩))
  exact ⟨added, hfile, hrest, hlines⟩

end Blockad.Proofs
