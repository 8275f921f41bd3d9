import Blockad.Lib.Runs

/-!
# `Blockad.Lib.SelfPipe`: a signal handler that writes to a pipe

A signal requests a service. Its handler writes one byte to a pipe that does not block, and the
main program takes bytes from the pipe before it serves. Two things can be lost: a signal that is
generated while one is pending, and a byte that is written to a full pipe. No request is:
`not_lost_of_run` says that until the last request has been served, it is pending, it is in the
pipe, or the program owes a service.

Nothing here is about one program.
-/

set_option autoImplicit false

namespace SelfPipe

open Runs

/-- The signal, the number of bytes in the pipe, and whether the program has drained the pipe and
not served since. -/
structure State where
  pending : Bool
  bytes : Nat
  owed : Bool

/-- What happens. -/
inductive Act where
  | request
  | deliver
  | drain
  | serve
  | other

/-- One byte is written to a pipe that does not block. -/
def write (capacity bytes : Nat) : Nat := if bytes < capacity then bytes + 1 else bytes

/-- The protocol. -/
inductive Step (capacity : Nat) : State → Act → State → Prop where
  | request (s : State) : Step capacity s .request { s with pending := true }
  | deliver {s : State} (h : s.pending = true) :
      Step capacity s .deliver { s with pending := false, bytes := write capacity s.bytes }
  | drain (s : State) (n : Nat) :
      Step capacity s .drain { s with bytes := s.bytes - n, owed := true }
  | serve (s : State) : Step capacity s .serve { s with owed := false }
  | other (s : State) : Step capacity s .other s

/-- The request that came last is on its way, or it was served, or there was none. -/
def NotLost (acts : List Act) (s : State) : Prop :=
  s.pending = true ∨ 0 < s.bytes ∨ s.owed = true ∨
    Since (· = .request) (· = .serve) acts ∨ .request ∉ acts

variable {capacity : Nat}

/-- After a write there is something in the pipe, be it full or not. -/
theorem write_pos (hcapacity : 0 < capacity) (bytes : Nat) : 0 < write capacity bytes := by
  unfold write
  split <;> omega

/-- An action that is no request is no later request. -/
theorem notMem_append {acts : List Act} {a : Act} (h : .request ∉ acts) (ha : a ≠ .request) :
    .request ∉ acts ++ [a] := by
  intro hmem
  rcases List.mem_append.mp hmem with hmem | hmem
  · exact h hmem
  · exact ha (List.mem_singleton.mp hmem).symm

/-- No other action loses a request. -/
theorem NotLost.append {acts : List Act} {a : Act} {s : State} (h : NotLost acts s)
    (ha : a ≠ .request) : NotLost (acts ++ [a]) s := by
  rcases h with h | h | h | h | h
  · exact .inl h
  · exact .inr (.inl h)
  · exact .inr (.inr (.inl h))
  · exact .inr (.inr (.inr (.inl (h.append ha))))
  · exact .inr (.inr (.inr (.inr (notMem_append h ha))))

/-- **One step.** A request is pending until it is served. -/
theorem NotLost.step (hcapacity : 0 < capacity) {acts : List Act} {a : Act} {s s' : State}
    (h : NotLost acts s) (hstep : Step capacity s a s') : NotLost (acts ++ [a]) s' := by
  cases hstep with
  | request => exact .inl rfl
  | deliver => exact .inr (.inl (write_pos hcapacity _))
  | drain => exact .inr (.inr (.inl rfl))
  | serve => exact .inr (.inr (.inr (.inl (since_of_last rfl))))
  | other => exact h.append nofun

/-- **No request is lost.** -/
theorem not_lost_of_run (hcapacity : 0 < capacity) {init : State → Prop} {acts : List Act}
    {s : State} (h : Run init (Step capacity) acts s) : NotLost acts s :=
  h.invariant (fun _ _ => .inr (.inr (.inr (.inr List.not_mem_nil))))
    fun _ _ _ _ hs hstep => hs.step hcapacity hstep

end SelfPipe
