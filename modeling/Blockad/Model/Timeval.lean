import Blockad.Model.PollingWatcher

/-!
# `Blockad.Model.Timeval`: `timeval.h`, and the wait of the main loop

A `PollingWatcher` has no descriptor. It has a time, in whole seconds, at which it wants to work
again. The main loop takes the earliest of these times as its limit, waits in `select` until
then, and runs the watchers whose time has come.

A `time_t` is an integer here: the sources never check for its overflow.
-/

set_option autoImplicit false

namespace Blockad

/-- `struct timeval`. -/
structure Timeval where
  sec : Int
  usec : Int
  deriving DecidableEq, Repr

namespace Timeval

/-- `operator-(const struct timeval &, const struct timeval &)`. -/
def sub (a b : Timeval) : Timeval :=
  let r : Timeval := ⟨a.sec - b.sec, a.usec - b.usec⟩
  if r.usec < 0 then ⟨r.sec - 1, r.usec + 1000000⟩ else r

/-- `operator-(time_t, const struct timeval &)`. -/
def timeSub (a : Int) (b : Timeval) : Timeval := sub ⟨a, 0⟩ b

/-- `operator<(const struct timeval &, time_t)`. -/
def ltTime (a : Timeval) (b : Int) : Bool := a.sec < b

/-- `operator>=(const struct timeval &, time_t)`. -/
def geTime (a : Timeval) (b : Int) : Bool := a.sec ≥ b

end Timeval

/-- `TIME_MAX`, for a 64-bit `time_t`. -/
def timeMax : Int := 0x7FFFFFFFFFFFFFFF

variable {H α W : Type}

/-- `PollingWatcher::pollfd`: the descriptor, and the new limit. -/
def PollingWatcher.pollfd (w : PollingWatcher H) (limit : Int) : Int × Int :=
  (-1, if limit > w.own.next then w.own.next else limit)

/-- The limit that the watchers leave before `select`. -/
def waitLimit (watchers : List (PollingWatcher H)) : Int :=
  watchers.foldl (fun limit w => (w.pollfd limit).2) timeMax

/-- The timeout of `select`, or `none` for a wait without one. -/
def selectTimeout (limit : Int) (now : Timeval) : Option Timeval :=
  if limit ≠ timeMax then
    let delta := Timeval.timeSub limit now
    if delta.ltTime 0 then some ⟨0, 0⟩ else some delta
  else none

/-- The test of the loop over the watchers after `select`. -/
def isDue (now : Timeval) (ready : Bool) (w : PollingWatcher H) : Bool :=
  let (fd, limit) := w.pollfd timeMax
  if fd ≥ 0 then ready else now.geTime limit

end Blockad
