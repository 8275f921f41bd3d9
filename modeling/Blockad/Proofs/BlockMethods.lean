import Blockad.Proofs.AddressText
import Blockad.Proofs.Dump

/-!
# `Blockad.Proofs.BlockMethods`: what `block` does

* `iptables_eq`: `BlockIptables::block` is one run of `execute`. `iptables_returns` is about a
  command that ends.
* `hostsDeny_ends`: `BlockHostsDeny::block` appends its line, or logs an error after a part of it.
* `Blocks`: what reaches the command and the file, whatever the system calls answer. If none of
  them fails, the command is run and the line is appended.
-/

set_option autoImplicit false

namespace Blockad.Proofs

open Bytes Prog

/-! ### `BlockIptables::block` -/

/-- The machine after `execute`. -/
def executed (m : Host) (s : Exec) : Host :=
  { m with log := m.log ++ s.log, calls := m.calls ++ s.calls }

/-- No argument of the command is cut at a NUL. -/
theorem rejectCommand_cstr {program text : Bytes} (h : cstr program = program)
    (htext : cstr text = text) :
    (rejectCommand program text).map cstr = rejectCommand program text := by
  simp only [rejectCommand, List.map_cons, List.map_nil, h, htext]
  rfl

section
variable [InetNtop] {a : Address} {program before after text : Bytes}

/-- The arguments reach the command as they are. -/
theorem iptables_eq [Libc] (h : Texts a program before after text) (debugging : Bool)
    (o : Outcomes) (m : Host) :
    BlockIptables.block debugging o a m =
      match Execute.executeArgv o debugging (rejectCommand program text) with
      | .ok ws s => .ok (decide (ws = 0)) (executed m s)
      | .error stop s => .error stop (executed m s) := by
  -- A NUL would end an argument early. There is none in an address text.
  have hexecute : Execute.execute o debugging (rejectCommand program text) =
      Execute.executeArgv o debugging (rejectCommand program text) := by
    unfold Execute.execute
    rw [rejectCommand_cstr h.cstr_program (cstr_eq_self (zero_notMem_of_textChars h.chars))]
  unfold BlockIptables.block
  rw [h.command]
  show (Host.execute debugging o (rejectCommand program text) >>= fun ws =>
    if ws ≠ 0 then pure false else pure true) m = _
  cases hrun : Execute.executeArgv o debugging (rejectCommand program text) with
  | ok ws s =>
    have hhost : Host.execute debugging o (rejectCommand program text) m =
        .ok ws (executed m s) := by
      unfold Host.execute
      rw [hexecute, hrun]
      rfl
    rw [bind_of_ok hhost]
    by_cases hws : ws = 0
    · rw [if_neg (not_not.mpr hws)]
      show _ = EStateM.Result.ok (decide (ws = 0)) _
      rw [decide_eq_true hws]
      rfl
    · rw [if_pos hws]
      show _ = EStateM.Result.ok (decide (ws = 0)) _
      rw [decide_eq_false hws]
      rfl
  | error stop s =>
    have hhost : Host.execute debugging o (rejectCommand program text) m =
        .error stop (executed m s) := by
      unfold Host.execute
      rw [hexecute, hrun]
      rfl
    rw [bind_of_error hhost]

/-- What the command is, and which calls there were. An exception is that of a call that failed. -/
theorem iptables_ends [Libc] (h : Texts a program before after text) (debugging : Bool)
    (o : Outcomes) (m : Host) :
    Ends (fun blocked m' => m'.files = m.files ∧ ∃ ws calls, blocked = decide (ws = 0) ∧
        m'.calls = m.calls ++ calls ∧ Returned (rejectCommand program text) ws calls)
      (fun stop m' => m'.files = m.files ∧ ∃ calls, m'.calls = m.calls ++ calls ∧
        (stop = .running ∧ Forks (rejectCommand program text) calls ∨
          ∃ e, stop = .thrown e ∧ Escaped (rejectCommand program text) e calls ∧ ¬ Unfailing o))
      (BlockIptables.block debugging o a m) := by
  have hends := executeArgv_ends o debugging program (rejectCommand program text).tail
  rw [iptables_eq h]
  cases hrun : Execute.executeArgv o debugging (rejectCommand program text) with
  | ok ws s => exact ⟨rfl, ws, s.calls, rfl, rfl, (hends.ok hrun).1⟩
  | error stop s => exact ⟨rfl, s.calls, rfl, hends.error hrun⟩

/-- A command that ends is run, and its status is the result. -/
theorem iptables_returns [Libc] (h : Texts a program before after text) (debugging : Bool)
    {o : Outcomes} {pid : Pid} {reads : List (Except Errno Bytes)} {ws : Int}
    (hfinishes : Finishes o pid reads ws)
    (hturns : ws ≠ 0 → (captured reads).length + 1 < o.turns) (m : Host) :
    ∃ m' calls, BlockIptables.block debugging o a m = .ok (decide (ws = 0)) m' ∧
      m'.files = m.files ∧ m'.calls = m.calls ++ calls ∧
        Returned (rejectCommand program text) ws calls := by
  have hends := executeArgv_ends o debugging program (rejectCommand program text).tail
  obtain ⟨s, hrun⟩ := executeArgv_of_finishes hfinishes hturns debugging program
    (rejectCommand program text).tail
  refine ⟨executed m s, s.calls, ?_, rfl, rfl, (hends.ok hrun).1⟩
  rw [iptables_eq h, show Execute.executeArgv o debugging (rejectCommand program text) = .ok ws s
    from hrun]

end

/-! ### `BlockHostsDeny::block` -/

/-- The machine after bytes were appended to a file. -/
def textAppended (m : Host) (path text : Bytes) : Host :=
  { m with files := fun p => if p = cstr path then m.files p ++ text else m.files p }

/-- No bytes. -/
theorem textAppended_nil (m : Host) (path : Bytes) : textAppended m path [] = m := by
  unfold textAppended
  simp only [List.append_nil, ite_self]

/-- Every call on the file succeeds. -/
structure AppendOutcomes.Succeed (o : AppendOutcomes) : Prop where
  fopen : o.fopen = .ok ()
  vfprintf : o.vfprintf = .ok ()
  fclose : o.fclose = .ok ()

section
variable [InetNtop] {a : Address} {line : Bytes}

/-- **The append**: the whole line if every call succeeds, or else a prefix of it. -/
theorem append_ends (h : BlockHostsDeny.line a = .ok line) (o : AppendOutcomes) (path : Bytes)
    (m : Host) :
    Ends (fun _ m' => AppendOutcomes.Succeed o ∧ m' = textAppended m path line)
      (fun stop m' => ¬ AppendOutcomes.Succeed o ∧ ∃ what errno n,
        stop = .thrown (.ioError what (some path) errno) ∧ m' = textAppended m path (line.take n))
      (BlockHostsDeny.append o path a m) := by
  unfold BlockHostsDeny.append
  rw [h]
  refine Ends.bind ?_
  unfold StdioFile.openAppend
  cases hfopen : o.fopen with
  | error errno =>
    -- Nothing reached the file.
    refine ⟨fun hsucceed => ?_, _, errno, 0, rfl, (textAppended_nil m path).symm⟩
    rw [hsucceed.fopen] at hfopen
    cases hfopen
  | ok u =>
    refine Ends.bind ?_
    refine Ends.bind ?_
    unfold StdioFile.printf
    cases hprintf : o.vfprintf with
    | error errno =>
      -- The destructor closes the file. A part of the line may be in it.
      refine ⟨fun hsucceed => ?_, _, errno, o.written, rfl, rfl⟩
      rw [hsucceed.vfprintf] at hprintf
      cases hprintf
    | ok u =>
      unfold StdioFile.closeAppend
      cases hfclose : o.fclose with
      | error errno =>
        -- The line is in the buffer, and it is `fclose` that fails to write all of it.
        refine ⟨fun hsucceed => ?_, _, errno, o.written, rfl, rfl⟩
        rw [hsucceed.fclose] at hfclose
        cases hfclose
      | ok u => exact ⟨⟨hfopen, hprintf, hfclose⟩, rfl⟩

/-- An `IOError` is a result. -/
theorem hostsDeny_ends [Libc] (h : BlockHostsDeny.line a = .ok line) (o : AppendOutcomes)
    (path : Bytes) (m : Host) :
    Ends (fun blocked m' =>
        blocked = true ∧ AppendOutcomes.Succeed o ∧ m' = textAppended m path line ∨
        blocked = false ∧ ¬ AppendOutcomes.Succeed o ∧ ∃ n message,
          m' = { textAppended m path (line.take n) with log := m.log ++ [⟨.error, message⟩] })
      (fun _ _ => False) (BlockHostsDeny.block o path a m) := by
  have hends := append_ends h o path m
  unfold BlockHostsDeny.block
  cases hrun : BlockHostsDeny.append o path a m with
  | ok u m' =>
    obtain ⟨hsucceed, hm'⟩ := hends.ok hrun
    exact .inl ⟨rfl, hsucceed, hm'⟩
  | error stop m' =>
    obtain ⟨hfail, what, errno, n, rfl, rfl⟩ := hends.error hrun
    -- `catch(IOError &)` catches each of these exceptions.
    exact .inr ⟨rfl, hfail, n, _, rfl⟩

end

/-! ### What reaches the command and the file -/

/-- What the block methods do with an address: the command is that for the text, and the line has
nothing else that depends on the address. -/
structure Blocks [Libc] [InetNtop] (a : Address) (program before after text : Bytes) : Prop
    extends Texts a program before after text where
  iptables : ∀ debugging o m,
    Ends (fun blocked m' => m'.files = m.files ∧ ∃ ws calls, blocked = decide (ws = 0) ∧
        m'.calls = m.calls ++ calls ∧ Returned (rejectCommand program text) ws calls)
      (fun stop m' => m'.files = m.files ∧ ∃ calls, m'.calls = m.calls ++ calls ∧
        (stop = .running ∧ Forks (rejectCommand program text) calls ∨
          ∃ e, stop = .thrown e ∧ Escaped (rejectCommand program text) e calls ∧
            ¬ Unfailing o.execute))
      (BlockMethod.block debugging o a .iptables m)
  /-- The command is run if it ends, and the address is blocked if its status is zero. -/
  runs : ∀ debugging o m pid reads ws, Finishes o.execute pid reads ws →
    (ws ≠ 0 → (captured reads).length + 1 < o.execute.turns) →
      ∃ m' calls, BlockMethod.block debugging o a .iptables m = .ok (decide (ws = 0)) m' ∧
        m'.files = m.files ∧ m'.calls = m.calls ++ calls ∧
          Returned (rejectCommand program text) ws calls
  hostsDeny : ∀ debugging o path m,
    Ends (fun blocked m' => m'.calls = m.calls ∧ ∃ n,
        m'.files = (textAppended m path
          ((lit "ALL: " ++ before ++ text ++ after ++ [nl]).take n)).files ∧
        (blocked = true → m'.files =
          (textAppended m path (lit "ALL: " ++ before ++ text ++ after ++ [nl])).files))
      (fun _ _ => False) (BlockMethod.block debugging o a (.hostsDeny path) m)
  /-- The line is appended if no call fails, and the address is blocked exactly then. -/
  appends : ∀ debugging o path m, ∃ blocked m',
    BlockMethod.block debugging o a (.hostsDeny path) m = .ok blocked m' ∧
      (blocked = true ↔ AppendOutcomes.Succeed o.append) ∧
      (AppendOutcomes.Succeed o.append → m' =
        textAppended m path (lit "ALL: " ++ before ++ text ++ after ++ [nl]))

section
variable [Libc] [InetNtop]

/-- The block methods, for an address with its texts. -/
theorem blocks_of_texts {a : Address} {program before after text : Bytes}
    (h : Texts a program before after text) : Blocks a program before after text := by
  refine { h with iptables := ?_, runs := ?_, hostsDeny := ?_, appends := ?_ }
  · intro debugging o m
    exact iptables_ends h debugging o.execute m
  · intro debugging o m pid reads ws hfinishes hturns
    exact iptables_returns h debugging hfinishes hturns m
  · intro debugging o path m
    refine (hostsDeny_ends h.line o.append path m).mono ?_ fun _ _ => id
    rintro blocked m' (⟨-, -, rfl⟩ | ⟨hblocked, -, n, message, rfl⟩)
    · refine ⟨rfl, (lit "ALL: " ++ before ++ text ++ after ++ [nl]).length, ?_, fun _ => rfl⟩
      rw [List.take_length]
    · refine ⟨rfl, n, rfl, fun htrue => ?_⟩
      rw [hblocked] at htrue
      cases htrue
  · intro debugging o path m
    obtain ⟨blocked, m', hrun, hresult⟩ := (hostsDeny_ends h.line o.append path m).exists_ok
    refine ⟨blocked, m', hrun, ?_⟩
    rcases hresult with ⟨hblocked, hsucceed, hm'⟩ | ⟨hblocked, hfail, -⟩
    · exact ⟨⟨fun _ => hsucceed, fun _ => hblocked⟩, fun _ => hm'⟩
    · refine ⟨⟨fun htrue => ?_, fun hsucceed => absurd hsucceed hfail⟩,
        fun hsucceed => absurd hsucceed hfail⟩
      rw [hblocked] at htrue
      cases htrue

/-- **The blocked address is the detected one.** The texts of an address are read back as this
address, and are equal for equal addresses. The command and the line are made of its IPv4 text if
it is in `::ffff:0:0/96`, and of its IPv6 text otherwise; the command is run and the line is
appended unless a call fails. -/
theorem blocked_address_exact (law : LawfulNtop) :
    (∀ s a, Address.assign s = .ok a →
      (∃ text, a.asString = .ok text ∧ Address.assign text = .ok a) ∧
        Address.assign a.as6 = .ok a) ∧
    (∀ s t a b, Address.assign s = .ok a → Address.assign t = .ok b →
      (a.asString = b.asString ↔ a.address = b.address)) ∧
    ∀ s a, Address.assign s = .ok a →
      (∀ x, a.address = mapped4 x → ∃ text, Libc.inetPton4 text = some x ∧
        a.asString = .ok text ∧ Blocks a (lit "iptables") [] [] text) ∧
      ((∀ x, a.address ≠ mapped4 x) → ∃ text, Libc.inetPton6 text = some a.address ∧
        a.asString = .ok text ∧ Blocks a (lit "ip6tables") (lit "[") (lit "]") text) := by
  refine ⟨fun s a _ => ⟨?_, ?_⟩, fun s t a b _ _ => asString_inj law, fun s a _ => ⟨?_, ?_⟩⟩
  · obtain ⟨_, _, _, text, htexts⟩ := exists_texts law a
    exact ⟨text, htexts.asString, htexts.assign⟩
  · exact assign_ntop6 law a.address
  · intro x hx
    have htexts := texts4 law hx
    exact ⟨_, law.pton_ntop4 x, htexts.asString, blocks_of_texts htexts⟩
  · intro hx
    have h4 : a.is4 = false := by
      cases h4 : a.is4 with
      | true =>
        obtain ⟨x, hmapped⟩ := is4_iff.mp h4
        exact absurd hmapped (hx x)
      | false => rfl
    have htexts := texts6 law h4
    exact ⟨_, law.pton_ntop6 a.address, htexts.asString, blocks_of_texts htexts⟩

end

/-- `2001:1db8:1111:2222:3333:4444:5555:6666`. -/
def host6 : Address :=
  ⟨#v[0x20, 0x01, 0x1d, 0xb8, 0x11, 0x11, 0x22, 0x22, 0x33, 0x33, 0x44, 0x44, 0x55, 0x55,
    0x66, 0x66]⟩

/-- An IPv6 address. -/
theorem blocked_address_exact_host6 :
    @Blocks Libc.withGroups InetNtop.withGroups host6 (lit "ip6tables") (lit "[") (lit "]")
      (lit "2001:1db8:1111:2222:3333:4444:5555:6666") := by
  have hassign : @Address.assign Libc.withGroups
      (lit "2001:1db8:1111:2222:3333:4444:5555:6666") = .ok host6 := by decide +kernel
  have hnot4 : ∀ x, host6.address ≠ mapped4 x := by
    intro x hx
    have h0 : host6.address[0] = 0 := by
      rw [hx]
      rfl
    exact absurd h0 (by decide)
  obtain ⟨text, -, hstring, hblocks⟩ :=
    (@blocked_address_exact Libc.withGroups InetNtop.withGroups lawfulNtop_withGroups).2.2 _ host6
      hassign |>.2 hnot4
  have htext : text = lit "2001:1db8:1111:2222:3333:4444:5555:6666" := by
    have hprinted : @Address.asString InetNtop.withGroups host6 =
        .ok (lit "2001:1db8:1111:2222:3333:4444:5555:6666") := by decide +kernel
    rw [hprinted] at hstring
    exact (Except.ok.inj hstring).symm
  rw [htext] at hblocks
  exact hblocks

end Blockad.Proofs
