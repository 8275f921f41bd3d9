import Blockad.Model.ConfFile
import Mathlib.Data.Vector.Basic
import Std.Data.TreeMap.Lemmas

/-!
# `Blockad.Model.BlockingWatcher`: the detections of `blockad.cc`

`BlockingWatcher::processLine` tries the patterns of the configuration on one line, and
`detectedAddress` counts the detections of an address until it is blocked. Both may throw,
so they are programs over the global store, with `Halt` for what leaves them.

`time` and `BlockMethod::block` are outside the model: an `Attempt` is what one call of
`detectedAddress` would get from them. The store also keeps the calls of `block` that were
made, which the program itself does not look at.
-/

set_option autoImplicit false

namespace Blockad

open Bytes

/-! ### The store -/

/-- The order of the addresses is that of their bytes, as vectors. -/
theorem Address.cmp_eq : Address.cmp = compareOn Address.address := by
  funext a b
  exact Vector.compareLex_eq_compareLex_toList.symm

instance : Std.TransCmp Address.cmp := Address.cmp_eq ▸ inferInstance

instance : Std.LawfulEqCmp Address.cmp where
  eq_of_compare {a b} h := by
    rw [Address.cmp_eq] at h
    have haddress : a.address = b.address := Std.LawfulEqCmp.eq_of_compare h
    exact congrArg Address.mk haddress

/-- `AddressData`. A new one has seen no detection. -/
structure AddressData where
  times : List Int := []
  blocked : Bool := false
  deriving DecidableEq, Repr

/-- `std::map<Address, AddressData>`. -/
abbrev AddressMap := Std.TreeMap Address AddressData Address.cmp

/-- What one detection gets from outside: the time, and how a call of `block` ends. -/
structure Attempt where
  now : Int
  block : Except Exn Bool

/-- The global store, with the attempts that are still to come. -/
structure Store where
  addressData : AddressMap
  blockCalls : List Address
  future : Nat → Attempt

namespace Store

/-- The data of an address, a new one if it has none. -/
def dataOf (s : Store) (a : Address) : AddressData := s.addressData.getD a {}

/-- The store with new data for an address. -/
def update (s : Store) (a : Address) (ad : AddressData) : Store :=
  { s with addressData := s.addressData.insert a ad }

/-- The store when the next attempt is used up. -/
def next (s : Store) : Store := { s with future := fun n => s.future (n + 1) }

end Store

/-! ### Detections -/

namespace BlockingWatcher

variable [Libc]

/-- The detection times without the too old ones at the front, and with the latest. -/
def recordTime (times : List Int) (now : Int) (rateInterval : Nat) : List Int :=
  times.dropWhile (· < now - rateInterval) ++ [now]

/-- `BlockingWatcher::blockAddress`: whether the address is blocked now. -/
def blockAddress (a : Address) (block : Except Exn Bool) : EStateM Halt Store Bool := fun s =>
  let s := { s with blockCalls := s.blockCalls ++ [a] }
  match block with
  | .error e => .error (.thrown e) s
  | .ok blocked => .ok blocked s

/-- `BlockingWatcher::detectedAddress`. -/
def detectedAddress (cf : ConfFile) (a : Address) : EStateM Halt Store Unit := do
  let attempt := (← get).future 0
  modify Store.next
  -- Honor exemption list
  unless cf.exempted.any (·.matches a) do
    let ad := (← get).dataOf a
    -- Only consider addresses that have not yet been blocked
    unless ad.blocked do
      let times := recordTime ad.times attempt.now cf.rateInterval
      modify (·.update a { ad with times })
      -- See if the block rate has been exceeded
      if times.length > cf.rateMax then
        if ← blockAddress a attempt.block then
          modify (·.update a { times, blocked := true })

/-! ### Lines -/

/-- `std::string address(line, matches[m.capture].rm_so, …)`. The offsets are converted to
`size_t`, so that a negative one is beyond every string. -/
def capturedText (line : Bytes) (ms : List RegMatch) (capture : Nat) : Except Halt Bytes :=
  match ms[capture]? with
  | none => .error .undefined
  | some m =>
    if m.rmSo < 0 || line.length < m.rmSo then .error (.thrown .outOfRange)
    else
      let n := if m.rmEo < m.rmSo then line.length else (m.rmEo - m.rmSo).toNat
      .ok ((line.drop m.rmSo.toNat).take n)

/-- One turn of the loop of `BlockingWatcher::processLine`. -/
def processMatch (cf : ConfFile) (line : Bytes) (m : Match) : EStateM Halt Store Unit :=
  match m.regex.execute line with
  | none => pure ()
  | some ms =>
    match capturedText line ms m.capture with
    | .error h => throw h
    | .ok address =>
      match Address.assign address with
      | .error e => throw (.thrown e)
      | .ok a => detectedAddress cf a

/-- `BlockingWatcher::processLine`. -/
def processLine (cf : ConfFile) (line : Bytes) : EStateM Halt Store Unit :=
  cf.patterns.forM (processMatch cf line)

end BlockingWatcher

end Blockad
