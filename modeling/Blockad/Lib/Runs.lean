/-!
# `Blockad.Lib.Runs`: reachable states and their invariants

A system is given by its initial states and its steps. `Reachable.invariant` is the rule
that every proof about runs uses: what holds initially and is preserved by each step holds
in every reachable state. Where a result is about the runs whose steps meet a condition,
the condition is part of the step relation (`Guarded`).

`Run` keeps what happened, for results about the order of events, and `Run.map` is the rule for
a system that another one simulates. `Since` says that an event came after all events of another
kind.

Nothing here is about one program.
-/

set_option autoImplicit false

namespace Runs

variable {σ ι : Type}

/-- The states of the runs from `init` with steps `step`, each labelled with what happens. -/
inductive Reachable (init : σ → Prop) (step : σ → ι → σ → Prop) : σ → Prop where
  | start {s : σ} (h : init s) : Reachable init step s
  | next {s s' : σ} (i : ι) (hs : Reachable init step s) (h : step s i s') : Reachable init step s'

/-- The steps that meet a condition on the state before them. -/
def Guarded (step : σ → ι → σ → Prop) (cond : σ → ι → Prop) (s : σ) (i : ι) (s' : σ) : Prop :=
  cond s i ∧ step s i s'

variable {init : σ → Prop} {step : σ → ι → σ → Prop}

/-- The invariant rule. -/
theorem Reachable.invariant {inv : σ → Prop} {s : σ} (h : Reachable init step s)
    (hinit : ∀ s, init s → inv s) (hstep : ∀ s i s', inv s → step s i s' → inv s') : inv s := by
  induction h with
  | start h => exact hinit _ h
  | next i _ h ih => exact hstep _ i _ ih h

/-- More initial states. -/
theorem Reachable.of_init {init' : σ → Prop} {s : σ} (h : Reachable init step s)
    (hinit : ∀ s, init s → init' s) : Reachable init' step s := by
  induction h with
  | start h => exact .start (hinit _ h)
  | next i _ h ih => exact .next i ih h

/-- A run whose steps meet a condition is a run. -/
theorem Reachable.of_guarded {cond : σ → ι → Prop} {s : σ}
    (h : Reachable init (Guarded step cond) s) : Reachable init step s := by
  induction h with
  | start h => exact .start h
  | next i _ h ih => exact .next i ih h.2

/-! ### Runs with their events -/

/-- The runs from `init` with steps `step`, and what happened in them. -/
inductive Run (init : σ → Prop) (step : σ → ι → σ → Prop) : List ι → σ → Prop where
  | start {s : σ} (h : init s) : Run init step [] s
  | next {is : List ι} {s s' : σ} {i : ι} (hs : Run init step is s) (h : step s i s') :
      Run init step (is ++ [i]) s'

/-- A run has a first state. -/
theorem Run.exists_first {is : List ι} {s : σ} (h : Run init step is s) :
    ∃ s₀, init s₀ ∧ Run (· = s₀) step is s := by
  induction h with
  | @start s h => exact ⟨s, h, .start rfl⟩
  | next _ h ih =>
    obtain ⟨s₀, hs₀, hrun⟩ := ih
    exact ⟨s₀, hs₀, .next hrun h⟩

/-- More initial states. -/
theorem Run.of_init {init' : σ → Prop} {is : List ι} {s : σ} (h : Run init step is s)
    (hinit : ∀ s, init s → init' s) : Run init' step is s := by
  induction h with
  | start h => exact .start (hinit _ h)
  | next _ h ih => exact .next ih h

/-- More steps. -/
theorem Run.mono {step' : σ → ι → σ → Prop} {is : List ι} {s : σ} (h : Run init step is s)
    (hstep : ∀ s i s', step s i s' → step' s i s') : Run init step' is s := by
  induction h with
  | start h => exact .start h
  | next _ h ih => exact .next ih (hstep _ _ _ h)

/-- A run in which only such events happen as meet a condition. -/
theorem Run.guarded {cond : ι → Prop} {is : List ι} {s : σ} (h : Run init step is s)
    (hall : ∀ i ∈ is, cond i) : Run init (Guarded step fun _ => cond) is s := by
  induction h with
  | start h => exact .start h
  | next _ h ih =>
    have hbefore := ih fun j hj => hall j (List.mem_append_left _ hj)
    exact .next hbefore ⟨hall _ (by simp), h⟩

/-- The invariant rule, for what holds of a state and of the events before it. -/
theorem Run.invariant {inv : List ι → σ → Prop} {is : List ι} {s : σ} (h : Run init step is s)
    (hinit : ∀ s, init s → inv [] s)
    (hstep : ∀ is s i s', inv is s → step s i s' → inv (is ++ [i]) s') : inv is s := by
  induction h with
  | start h => exact hinit _ h
  | next _ h ih => exact hstep _ _ _ _ ih h

/-- The simulation rule. -/
theorem Run.map {τ κ : Type} {init' : τ → Prop} {step' : τ → κ → τ → Prop} {view : σ → τ}
    {act : ι → κ} {is : List ι} {s : σ} (h : Run init step is s)
    (hinit : ∀ s, init s → init' (view s))
    (hstep : ∀ s i s', step s i s' → step' (view s) (act i) (view s')) :
    Run init' step' (is.map act) (view s) := by
  induction h with
  | start h => exact .start (hinit _ h)
  | next _ h ih =>
    rw [List.map_append]
    exact .next ih (hstep _ _ _ h)

/-- The steps of a kind that a run has are paid for: each of them lowers the rank, and only those of
another kind raise it again. This holds as long as nothing of `stop` happens. -/
theorem Run.countP_le {stop : ι → Prop} {inv : σ → Prop} {rank : σ → Nat} {own free : ι → Bool}
    {k : Nat} (hstep : ∀ s i s', inv s → step s i s' → ¬ stop i → inv s' ∧
      rank s' + (if own i then 1 else 0) ≤ rank s + if free i then k else 0)
    {s₀ s : σ} {is : List ι} (h : Run (· = s₀) step is s) (hs₀ : inv s₀)
    (hstop : ∀ i ∈ is, ¬ stop i) :
    inv s ∧ is.countP own + rank s ≤ rank s₀ + k * is.countP free := by
  induction h with
  | start h =>
    rw [h]
    exact ⟨hs₀, by simp⟩
  | @next is s s' i _ h ih =>
    obtain ⟨hinv, hle⟩ := ih fun j hj => hstop j (List.mem_append_left _ hj)
    obtain ⟨hinv', hlast⟩ := hstep s i s' hinv h (hstop i (List.mem_append_right _ (by simp)))
    have hown : [i].countP own = if own i then 1 else 0 := List.countP_singleton
    have hfree : k * [i].countP free = if free i then k else 0 := by
      rw [List.countP_singleton]
      split <;> simp
    rw [List.countP_append, List.countP_append, Nat.mul_add, hown, hfree]
    exact ⟨hinv', by omega⟩

/-- An event of the kind `q` came after all events of the kind `p`. -/
def Since (p q : ι → Prop) (is : List ι) : Prop :=
  ∃ before i after, is = before ++ i :: after ∧ q i ∧ ∀ j ∈ after, ¬ p j

variable {p q : ι → Prop} {is : List ι} {i : ι}

/-- An event of the kind `q` at the end came after all the others. -/
theorem since_of_last (hi : q i) : Since p q (is ++ [i]) := ⟨is, i, [], rfl, hi, nofun⟩

/-- An event that is not of the kind `p` may follow. -/
theorem Since.append (h : Since p q is) (hi : ¬ p i) : Since p q (is ++ [i]) := by
  obtain ⟨before, j, after, rfl, hj, hafter⟩ := h
  refine ⟨before, j, after ++ [i], by simp, hj, ?_⟩
  intro k hk
  rcases List.mem_append.mp hk with hk | hk
  · exact hafter k hk
  · rw [List.mem_singleton.mp hk]
    exact hi

/-- The same for a run whose steps are named by their actions. -/
theorem Since.of_map {κ : Type} {act : ι → κ} {p q : κ → Prop} (h : Since p q (is.map act)) :
    Since (fun i => p (act i)) (fun i => q (act i)) is := by
  obtain ⟨before, k, after, heq, hk, hafter⟩ := h
  obtain ⟨is₁, is₂, rfl, -, h₂⟩ := List.map_eq_append_iff.mp heq
  obtain ⟨i, is₃, rfl, rfl, rfl⟩ := List.map_eq_cons_iff.mp h₂
  exact ⟨is₁, i, is₃, rfl, hk, fun j hj => hafter _ (List.mem_map_of_mem hj)⟩

end Runs
