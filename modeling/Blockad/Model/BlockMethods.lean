import Blockad.Model.AddressText
import Blockad.Model.BlockingWatcher
import Blockad.Model.Execute

/-!
# `Blockad.Model.BlockMethods`: `iptables.cc` and `hosts.deny.cc`

A block method runs a command, or appends a line to a file. A `BlockOutcomes` is what the system
calls of one `block` would answer, and a `Host` what they act on, with the log.

`HostDaemon` has the detections of `Blockad.Model.BlockingWatcher` again, over these block
methods and with the log. There the result of `block` was given; here it is computed.
-/

set_option autoImplicit false

namespace Blockad

open Bytes

/-! ### The machine -/

/-- What the calls on a file that is open for appending answer. If one of them fails, the first
`written` bytes may have reached the file. -/
structure AppendOutcomes where
  fopen : Except Errno Unit
  vfprintf : Except Errno Unit
  fclose : Except Errno Unit
  written : Nat

/-- What the system calls of `block` answer. -/
structure BlockOutcomes where
  execute : Outcomes
  append : AppendOutcomes

/-- The log, the system calls of `execute`, and the contents of the files by their paths. -/
structure Host where
  log : List LogLine
  calls : List SysCall
  files : Bytes → Bytes

namespace Host

/-- A program over the machine. -/
abbrev Prog := EStateM Stop Host

/-- A line is logged. -/
def logLine (priority : Priority) (text : Bytes) : Prog Unit :=
  modify fun m => { m with log := m.log ++ [⟨priority, text⟩] }

/-- Bytes reach the end of a file. -/
def append (path text : Bytes) : Prog Unit :=
  modify fun m => { m with
    files := fun p => if p = cstr path then m.files p ++ text else m.files p }

/-- A result that may be an exception. -/
def ofExcept {β : Type} : Except Exn β → Prog β
  | .error e => throw (.thrown e)
  | .ok b => pure b

/-- A command is executed. -/
def execute (debugging : Bool) (o : Outcomes) (command : List Bytes) : Prog Int := fun m =>
  match Execute.execute o debugging command with
  | .ok ws s => .ok ws { m with log := m.log ++ s.log, calls := m.calls ++ s.calls }
  | .error stop s => .error stop { m with log := m.log ++ s.log, calls := m.calls ++ s.calls }

end Host

/-! ### `StdioFile`, open for appending -/

namespace StdioFile

variable (o : AppendOutcomes) (path text : Bytes)

/-- `StdioFile::StdioFile(path, "a")`. -/
def openAppend : Host.Prog Unit :=
  match o.fopen with
  | .error errno => throw (.thrown (.ioError (lit "opening") (some path) errno))
  | .ok () => pure ()

/-- `StdioFile::printf`. After a failure the destructor closes the file. -/
def printf : Host.Prog Unit :=
  match o.vfprintf with
  | .error errno => do
    Host.append path (text.take o.written)
    throw (.thrown (.ioError (lit "writing") (some path) errno))
  | .ok () => pure ()

/-- `StdioFile::close`, of a file to which `text` was printed. -/
def closeAppend : Host.Prog Unit :=
  match o.fclose with
  | .error errno => do
    Host.append path (text.take o.written)
    throw (.thrown (.ioError (lit "closing") (some path) errno))
  | .ok () => Host.append path text

end StdioFile

/-! ### The methods -/

/-- The exceptions that `catch(IOError &)` catches. -/
def Exn.isIOError : Exn → Bool
  | .ioError .. => true
  | _ => false

section
variable [InetNtop]

/-- The command of `BlockIptables::block`. -/
def BlockIptables.command (a : Address) : Except Exn (List Bytes) := do
  let text ← a.asString
  return [if a.is4 then lit "iptables" else lit "ip6tables",
    lit "-I", lit "INPUT", lit "-j", lit "REJECT", lit "-s", text]

/-- `BlockIptables::block`. -/
def BlockIptables.block (debugging : Bool) (o : Outcomes) (a : Address) : Host.Prog Bool := do
  let command ← Host.ofExcept (BlockIptables.command a)
  let ws ← Host.execute debugging o command
  if ws ≠ 0 then return false
  else return true

/-- The line of `BlockHostsDeny::block`. -/
def BlockHostsDeny.line (a : Address) : Except Exn Bytes :=
  if a.is4 then do
    let text ← a.as4
    return lit "ALL: " ++ cstr text ++ [nl]
  else return lit "ALL: [" ++ cstr a.as6 ++ lit "]" ++ [nl]

/-- The body of `try` in `BlockHostsDeny::block`. -/
def BlockHostsDeny.append (o : AppendOutcomes) (path : Bytes) (a : Address) :
    Host.Prog Unit := do
  StdioFile.openAppend o path
  let line ← Host.ofExcept (BlockHostsDeny.line a)
  StdioFile.printf o path line
  StdioFile.closeAppend o path line

variable [Libc]

/-- `BlockHostsDeny::block`. -/
def BlockHostsDeny.block (o : AppendOutcomes) (path : Bytes) (a : Address) :
    Host.Prog Bool := fun m =>
  match BlockHostsDeny.append o path a m with
  | .ok () m => .ok true m
  | .error (.thrown e) m =>
    if e.isIOError then (Host.logLine .error (cstr e.what) >>= fun _ => pure false) m
    else .error (.thrown e) m
  | .error stop m => .error stop m

/-- `BlockMethod::block`. -/
def BlockMethod.block (debugging : Bool) (o : BlockOutcomes) (a : Address) :
    BlockMethod → Host.Prog Bool
  | .iptables => BlockIptables.block debugging o.execute a
  | .hostsDeny path => BlockHostsDeny.block o.append path a

end

/-! ### Detections -/

/-- What one detection gets from outside. -/
structure Trial where
  now : Int
  outcomes : BlockOutcomes

/-- The global store and the machine, with the trials that are still to come. -/
structure HostDaemon where
  addressData : AddressMap
  blockCalls : List Address
  host : Host
  future : Nat → Trial

namespace HostDaemon

/-- The data of an address, a new one if it has none. -/
def dataOf (d : HostDaemon) (a : Address) : AddressData := d.addressData.getD a {}

/-- The store with new data for an address. -/
def update (d : HostDaemon) (a : Address) (ad : AddressData) : HostDaemon :=
  { d with addressData := d.addressData.insert a ad }

/-- The store when the next trial is used up. -/
def next (d : HostDaemon) : HostDaemon := { d with future := fun n => d.future (n + 1) }

/-- A program over the machine. -/
def run {β : Type} (p : Host.Prog β) : EStateM Stop HostDaemon β := fun d =>
  match p d.host with
  | .ok b host => .ok b { d with host }
  | .error stop host => .error stop { d with host }

section
variable [InetNtop]

/-- A line of the log about an address. -/
def logAbout (priority : Priority) (before : Bytes) (a : Address) (after : Bytes) :
    EStateM Stop HostDaemon Unit :=
  run (Host.ofExcept a.asString >>= fun text =>
    Host.logLine priority (before ++ cstr text ++ after))

variable [Libc] (debugging : Bool) (cf : ConfFile) (a : Address)

/-- `BlockingWatcher::blockAddress`. -/
def blockAddress (o : BlockOutcomes) : EStateM Stop HostDaemon Bool := do
  logAbout .info (lit "blocking ") a []
  modify fun d => { d with blockCalls := d.blockCalls ++ [a] }
  if ← run (cf.block.block debugging o a) then return true
  else
    logAbout .error (lit "failed to block ") a []
    return false

/-- `BlockingWatcher::detectedAddress`. -/
def detectedAddress : EStateM Stop HostDaemon Unit := do
  let trial := (← get).future 0
  modify next
  if debugging then logAbout .debug (lit "detected ") a []
  -- Honor exemption list
  if cf.exempted.any (·.matches a) then
    if debugging then logAbout .debug [] a (lit " is exempted")
  else
    let ad := (← get).dataOf a
    -- Only consider addresses that have not yet been blocked
    unless ad.blocked do
      let times := BlockingWatcher.recordTime ad.times trial.now cf.rateInterval
      modify (·.update a { ad with times })
      -- See if the block rate has been exceeded
      if times.length > cf.rateMax then
        if ← blockAddress debugging cf a trial.outcomes then
          modify (·.update a { times, blocked := true })

end

end HostDaemon

end Blockad
