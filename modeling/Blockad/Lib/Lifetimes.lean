import Mathlib.Data.List.Basic

/-!
# `Blockad.Lib.Lifetimes`: logs about resources

A program acquires resources, uses them and releases them. Its log is `Safe` when nothing happens
to a resource after its release. `Held` is the invariant of a program that has at most one resource
at a time. It has one rule for each event, and `Held.allReleased` says what it means at the end.

Nothing here is about one program.
-/

set_option autoImplicit false

namespace Lifetimes

/-- What happens to a resource. -/
inductive Event where
  | acquired (id : Nat)
  | used (id : Nat)
  | released (id : Nat)
  deriving DecidableEq, Repr

/-- No resource is used or released after a release. -/
def Safe (log : List Event) : Prop :=
  log.Pairwise fun e e' => ∀ id, e = .released id → e' ≠ .used id ∧ e' ≠ .released id

/-- Each resource is released once. -/
def AllReleased (log : List Event) : Prop :=
  ∀ id, .acquired id ∈ log → log.count (.released id) = 1

/-- The resources of the log are numbered up to `next`, and `held` is the one that is not
released. -/
structure Held (log : List Event) (next : Nat) (held : Option Nat) : Prop where
  safe : Safe log
  acquired_lt : ∀ id, .acquired id ∈ log → id < next
  released_lt : ∀ id, .released id ∈ log → id < next
  once : ∀ id, .acquired id ∈ log → held ≠ some id → log.count (.released id) = 1
  live : ∀ id, held = some id → .acquired id ∈ log ∧ .released id ∉ log

/-- A new last element is related to all the elements before it. -/
theorem pairwise_concat {α : Type} {R : α → α → Prop} {as : List α} {a : α} :
    (as ++ [a]).Pairwise R ↔ as.Pairwise R ∧ ∀ b ∈ as, R b a := by
  rw [List.pairwise_append]
  constructor
  · rintro ⟨h, -, ha⟩
    exact ⟨h, fun b hb => ha b hb a (List.mem_singleton_self a)⟩
  · rintro ⟨h, ha⟩
    refine ⟨h, List.pairwise_singleton _ _, fun b hb a' ha' => ?_⟩
    rw [List.mem_singleton.mp ha']
    exact ha b hb

variable {log : List Event} {next id : Nat}

/-- A new event is safe if its resource was not released before. -/
theorem safe_concat {e : Event} :
    Safe (log ++ [e]) ↔
      Safe log ∧ ∀ id, .released id ∈ log → e ≠ .used id ∧ e ≠ .released id := by
  unfold Safe
  rw [pairwise_concat]
  constructor
  · rintro ⟨hlog, hlast⟩
    exact ⟨hlog, fun id hid => hlast _ hid id rfl⟩
  · rintro ⟨hlog, hlast⟩
    refine ⟨hlog, fun e' he' id heq => ?_⟩
    subst heq
    exact hlast id he'

/-- A second release. -/
theorem not_safe_of_release (h : .released id ∈ log) : ¬ Safe (log ++ [.released id]) :=
  fun hsafe => ((safe_concat.mp hsafe).2 id h).2 rfl

namespace Held

/-- Nothing is held at the start. -/
theorem empty : Held [] 0 none := ⟨.nil, nofun, nofun, nofun, nofun⟩

/-- The next resource is acquired while none is held. -/
theorem acquire (h : Held log next none) :
    Held (log ++ [.acquired next]) (next + 1) (some next) := by
  have hfresh : .released next ∉ log := fun hmem => absurd (h.released_lt _ hmem) (Nat.lt_irrefl _)
  refine ⟨safe_concat.mpr ⟨h.safe, fun _ _ => ⟨nofun, nofun⟩⟩, ?_, ?_, ?_, ?_⟩
  · intro id hid
    rcases List.mem_append.mp hid with hid | hid
    · have := h.acquired_lt id hid
      omega
    · cases List.mem_singleton.mp hid
      omega
  · intro id hid
    rcases List.mem_append.mp hid with hid | hid
    · have := h.released_lt id hid
      omega
    · cases List.mem_singleton.mp hid
  · intro id hid hne
    rcases List.mem_append.mp hid with hid | hid
    · rw [List.count_append, h.once id hid nofun]
      rfl
    · cases List.mem_singleton.mp hid
      exact absurd rfl hne
  · rintro _ ⟨⟩
    simp [hfresh]

/-- The resource that is held may be used. -/
theorem use (h : Held log next (some id)) : Held (log ++ [.used id]) next (some id) := by
  obtain ⟨hacquired, hlive⟩ := h.live id rfl
  refine ⟨safe_concat.mpr ⟨h.safe, fun id' hid' => ⟨?_, nofun⟩⟩, ?_, ?_, ?_, ?_⟩
  · rintro ⟨⟩
    exact hlive hid'
  · intro id' hid'
    exact h.acquired_lt id' (by simpa using hid')
  · intro id' hid'
    exact h.released_lt id' (by simpa using hid')
  · intro id' hid' hne
    rw [List.count_append, h.once id' (by simpa using hid') hne]
    rfl
  · rintro _ ⟨⟩
    simp [hacquired, hlive]

/-- After its release, nothing is held. -/
theorem release (h : Held log next (some id)) : Held (log ++ [.released id]) next none := by
  obtain ⟨hacquired, hlive⟩ := h.live id rfl
  refine ⟨safe_concat.mpr ⟨h.safe, fun id' hid' => ⟨nofun, ?_⟩⟩, ?_, ?_, ?_, nofun⟩
  · rintro ⟨⟩
    exact hlive hid'
  · intro id' hid'
    exact h.acquired_lt id' (by simpa using hid')
  · intro id' hid'
    rcases List.mem_append.mp hid' with hid' | hid'
    · exact h.released_lt id' hid'
    · cases List.mem_singleton.mp hid'
      exact h.acquired_lt id hacquired
  · intro id' hid' _
    rw [List.count_append, List.count_singleton]
    by_cases heq : id' = id
    · rw [heq, List.count_eq_zero_of_not_mem hlive, if_pos (by simp)]
    · have hne : (Event.released id == Event.released id') = false := by
        simpa using Ne.symm heq
      rw [h.once id' (by simpa using hid') (by simpa using Ne.symm heq), hne]
      rfl

/-- A program that has no resource left has released all of them. -/
theorem allReleased (h : Held log next none) : AllReleased log := fun id hid => h.once id hid nofun

end Held

end Lifetimes
