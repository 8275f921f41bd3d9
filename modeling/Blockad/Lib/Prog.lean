import Mathlib.Init

/-!
# `Blockad.Lib.Prog`: programs with state and exceptions

Rules for `EStateM` programs, whose result carries a state also after an exception.
`bind_eq_ok_iff` takes a sequence apart that ended normally. `Keeps` says that a program
leaves a part of the state alone, however it ends; it is proved along the structure of the
program. `Ends` gives what holds at the end, after a result and after an exception; its rules
follow the program from its first step on, and `Preserves` is the case of an invariant. `Returns`
and `Throws` say how a program ends, from the states of an invariant. `Mirrors` compares two
programs, on a state and on a part of it.

Nothing here is about one program.
-/

set_option autoImplicit false

namespace Prog

variable {ε σ α β γ : Type}

/-- The state at the end. -/
def stateOf : EStateM.Result ε σ α → σ
  | .ok _ s => s
  | .error _ s => s

/-- The state after a result. -/
@[simp] theorem stateOf_ok (a : α) (s : σ) : stateOf (.ok a s : EStateM.Result ε σ α) = s := rfl

/-- The state after an exception. -/
@[simp] theorem stateOf_error (e : ε) (s : σ) :
    stateOf (.error e s : EStateM.Result ε σ α) = s := rfl

/-- A sequence ends normally when both of its parts do. -/
theorem bind_eq_ok_iff {x : EStateM ε σ α} {f : α → EStateM ε σ β} {s s' : σ} {b : β} :
    (x >>= f) s = .ok b s' ↔ ∃ a s₁, x s = .ok a s₁ ∧ f a s₁ = .ok b s' := by
  show (match x s with | .ok a s₁ => f a s₁ | .error e s₁ => .error e s₁) = .ok b s' ↔ _
  cases x s <;> simp [and_assoc]

/-- A sequence after a first part that ended normally. -/
theorem bind_of_ok {x : EStateM ε σ α} {f : α → EStateM ε σ β} {s s₁ : σ} {a : α}
    (h : x s = .ok a s₁) : (x >>= f) s = f a s₁ := by
  show (match x s with | .ok a s₁ => f a s₁ | .error e s₁ => .error e s₁) = _
  rw [h]

/-- A sequence whose first part throws. -/
theorem bind_of_error {x : EStateM ε σ α} {f : α → EStateM ε σ β} {s s₁ : σ} {e : ε}
    (h : x s = .error e s₁) : (x >>= f) s = .error e s₁ := by
  show (match x s with | .ok a s₁ => f a s₁ | .error e s₁ => .error e s₁) = _
  rw [h]

/-- Programs that agree on a state can be followed by the same program. -/
theorem bind_congr_at {x y : EStateM ε σ α} {s : σ} (h : x s = y s) (f : α → EStateM ε σ β) :
    (x >>= f) s = (y >>= f) s := by
  show EStateM.bind x f s = EStateM.bind y f s
  unfold EStateM.bind
  rw [h]

/-- A map over a part that ended normally. -/
theorem map_of_ok {x : EStateM ε σ α} {f : α → β} {s s₁ : σ} {a : α} (h : x s = .ok a s₁) :
    (f <$> x) s = .ok (f a) s₁ := by
  show EStateM.map f x s = _
  rw [EStateM.map, h]

/-- A map over a part that threw. -/
theorem map_of_error {x : EStateM ε σ α} {f : α → β} {s s₁ : σ} {e : ε} (h : x s = .error e s₁) :
    (f <$> x) s = .error e s₁ := by
  show EStateM.map f x s = _
  rw [EStateM.map, h]

/-- Loops with the same turns. -/
theorem forM_congr {as : List α} {p q : α → EStateM ε σ PUnit} (h : ∀ a ∈ as, p a = q a) :
    as.forM p = as.forM q := by
  induction as with
  | nil => rfl
  | cons a as ih =>
    have hrest := ih fun b hb => h b (List.mem_cons_of_mem a hb)
    simp only [List.forM_eq_forM, List.forM_cons] at hrest ⊢
    rw [hrest, h a List.mem_cons_self]

/-! ### Frames -/

/-- The program leaves the view of the state as it is. -/
def Keeps (view : σ → γ) (p : EStateM ε σ α) : Prop := ∀ s, view (stateOf (p s)) = view s

namespace Keeps

variable {view : σ → γ}

/-- A result changes nothing. -/
theorem of_pure (a : α) : Keeps view (pure a : EStateM ε σ α) := fun _ => rfl

/-- An exception changes nothing. -/
theorem of_throw (e : ε) : Keeps view (throw e : EStateM ε σ α) := fun _ => rfl

/-- A change that the view does not show. -/
theorem of_modify {f : σ → σ} (h : ∀ s, view (f s) = view s) :
    Keeps view (modify f : EStateM ε σ PUnit) := h

/-- The view is kept by a sequence, if both of its parts keep it. -/
theorem bind {x : EStateM ε σ α} {f : α → EStateM ε σ β} (hx : Keeps view x)
    (hf : ∀ a, Keeps view (f a)) : Keeps view (x >>= f) := by
  intro s
  have hxs := hx s
  cases h : x s with
  | ok a s₁ =>
    rw [bind_of_ok h, hf a s₁]
    rw [h] at hxs
    exact hxs
  | error e s₁ =>
    rw [bind_of_error h]
    rw [h] at hxs
    exact hxs

/-- It is kept by a branch, if both of its sides keep it. -/
theorem ite {c : Prop} [Decidable c] {x y : EStateM ε σ α} (hx : Keeps view x)
    (hy : Keeps view y) : Keeps view (if c then x else y) := by
  split
  · exact hx
  · exact hy

/-- It is kept by a loop, if every turn keeps it. -/
theorem forM {as : List α} {f : α → EStateM ε σ PUnit} (h : ∀ a, Keeps view (f a)) :
    Keeps view (as.forM f) := by
  induction as with
  | nil => exact of_pure _
  | cons a as ih =>
    rw [List.forM_eq_forM, List.forM_cons]
    exact bind (h a) fun _ => ih

end Keeps

/-! ### What holds at the end -/

/-- `post` holds of a result, and `fail` of an exception. -/
def Ends (post : α → σ → Prop) (fail : ε → σ → Prop) : EStateM.Result ε σ α → Prop
  | .ok a s => post a s
  | .error e s => fail e s

namespace Ends

variable {post post' : α → σ → Prop} {fail fail' : ε → σ → Prop} {r : EStateM.Result ε σ α}

/-- A result meets its postcondition at once. -/
theorem of_pure {a : α} {s : σ} (h : post a s) :
    Ends post fail ((pure a : EStateM ε σ α) s) := h

/-- So does an exception. -/
theorem of_throw {e : ε} {s : σ} (h : fail e s) :
    Ends post fail ((throw e : EStateM ε σ α) s) := h

/-- The postconditions may be weakened. -/
theorem mono (h : Ends post fail r) (hpost : ∀ a s, post a s → post' a s)
    (hfail : ∀ e s, fail e s → fail' e s) : Ends post' fail' r := by
  cases r with
  | ok a s => exact hpost a s h
  | error e s => exact hfail e s h

/-- The second part runs from where the first one ended. -/
theorem bind {x : EStateM ε σ α} {f : α → EStateM ε σ β} {post : β → σ → Prop} {s : σ}
    (h : Ends (fun a s' => Ends post fail (f a s')) fail (x s)) :
    Ends post fail ((x >>= f) s) := by
  cases hx : x s with
  | ok a s' =>
    rw [bind_of_ok hx]
    rw [hx] at h
    exact h
  | error e s' =>
    rw [bind_of_error hx]
    rw [hx] at h
    exact h

/-- A branch ends as the side that is taken. -/
theorem ite {c : Prop} [Decidable c] {x y : EStateM ε σ α} {s : σ}
    (hx : c → Ends post fail (x s)) (hy : ¬ c → Ends post fail (y s)) :
    Ends post fail ((if c then x else y) s) := by
  by_cases hc : c
  · rw [if_pos hc]
    exact hx hc
  · rw [if_neg hc]
    exact hy hc

/-- What each turn preserves. -/
theorem forM {as : List α} {f : α → EStateM ε σ PUnit} {inv : σ → Prop} {s : σ}
    (hstep : ∀ a ∈ as, ∀ s, inv s → Ends (fun _ => inv) fail (f a s)) (h : inv s) :
    Ends (fun _ => inv) fail (as.forM f s) := by
  induction as generalizing s with
  | nil => exact h
  | cons a as ih =>
    rw [List.forM_eq_forM, List.forM_cons]
    refine bind ((hstep a List.mem_cons_self s h).mono (fun _ s' hs' => ?_) fun _ _ => id)
    exact ih (fun b hb => hstep b (List.mem_cons_of_mem a hb)) hs'

/-- What holds after the result of a run. -/
theorem ok {a : α} {s : σ} (h : Ends post fail r) (hr : r = .ok a s) : post a s := by
  rw [hr] at h
  exact h

/-- What holds after the exception of a run. -/
theorem error {e : ε} {s : σ} (h : Ends post fail r) (hr : r = .error e s) : fail e s := by
  rw [hr] at h
  exact h

/-- A program that cannot fail returns. -/
theorem exists_ok (h : Ends post (fun _ _ => False) r) : ∃ a s, r = .ok a s ∧ post a s := by
  cases r with
  | ok a s => exact ⟨a, s, rfl, h⟩
  | error e s => exact h.elim

end Ends

/-! ### Invariants -/

/-- The program keeps the invariant, and after an exception `fail` holds. -/
def Preserves (inv fail : σ → Prop) (p : EStateM ε σ α) : Prop :=
  ∀ s, inv s → Ends (fun _ => inv) (fun _ => fail) (p s)

namespace Preserves

variable {inv fail : σ → Prop}

/-- A result preserves the invariant. -/
theorem of_pure (a : α) : Preserves inv fail (pure a : EStateM ε σ α) := fun _ h => h

/-- An exception preserves what the invariant implies. -/
theorem of_throw (h : ∀ s, inv s → fail s) (e : ε) :
    Preserves inv fail (throw e : EStateM ε σ α) := h

/-- A sequence preserves the invariant, if both of its parts do. -/
theorem bind {x : EStateM ε σ α} {f : α → EStateM ε σ β} (hx : Preserves inv fail x)
    (hf : ∀ a, Preserves inv fail (f a)) : Preserves inv fail (x >>= f) :=
  fun s hs => .bind ((hx s hs).mono (fun a s' hs' => hf a s' hs') fun _ _ => id)

/-- A branch preserves it, if both of its sides do. -/
theorem ite {c : Prop} [Decidable c] {x y : EStateM ε σ α} (hx : Preserves inv fail x)
    (hy : Preserves inv fail y) : Preserves inv fail (if c then x else y) := by
  split
  · exact hx
  · exact hy

/-- A loop preserves it, if every turn does. -/
theorem forM {as : List α} {f : α → EStateM ε σ PUnit} (h : ∀ a, Preserves inv fail (f a)) :
    Preserves inv fail (as.forM f) :=
  fun _ hs => .forM (fun a _ => h a) hs

end Preserves

/-! ### How a program ends -/

/-- From every state of `inv`, the program ends normally in a state of `inv`. -/
def Returns (inv : σ → Prop) (p : EStateM ε σ α) : Prop :=
  ∀ s, inv s → ∃ a s', p s = .ok a s' ∧ inv s'

/-- From every state of `inv`, the program throws `e`. -/
def Throws (inv : σ → Prop) (e : ε) (p : EStateM ε σ α) : Prop :=
  ∀ s, inv s → ∃ s', p s = .error e s'

section
variable {inv : σ → Prop} {as : List α} {p : α → EStateM ε σ PUnit}

/-- A result is returned. -/
theorem Returns.of_pure (b : β) : Returns inv (pure b : EStateM ε σ β) :=
  fun s hs => ⟨b, s, rfl, hs⟩

/-- A loop returns, if every turn does. -/
theorem Returns.forM (h : ∀ a ∈ as, Returns inv (p a)) : Returns inv (as.forM p) := by
  induction as with
  | nil => exact .of_pure _
  | cons a as ih =>
    intro s hs
    obtain ⟨_, s₁, hrun, hs₁⟩ := h a List.mem_cons_self s hs
    obtain ⟨_, s', hrest, hs'⟩ := ih (fun b hb => h b (List.mem_cons_of_mem a hb)) s₁ hs₁
    exact ⟨.unit, s', (bind_of_ok hrun).trans hrest, hs'⟩

/-- A loop throws at its first turn that does. -/
theorem Throws.forM {e : ε} (h : ∀ a ∈ as, Returns inv (p a) ∨ Throws inv e (p a))
    (hthrows : ∃ a ∈ as, Throws inv e (p a)) : Throws inv e (as.forM p) := by
  induction as with
  | nil =>
    obtain ⟨a, ha, -⟩ := hthrows
    cases ha
  | cons a as ih =>
    intro s hs
    by_cases hhere : Throws inv e (p a)
    · obtain ⟨s', hrun⟩ := hhere s hs
      exact ⟨s', bind_of_error hrun⟩
    · obtain ⟨_, s₁, hrun, hs₁⟩ := (h a List.mem_cons_self).resolve_right hhere s hs
      have hlater : ∃ b ∈ as, Throws inv e (p b) := by
        obtain ⟨b, hb, hb'⟩ := hthrows
        rcases List.mem_cons.mp hb with rfl | hb
        · exact absurd hb' hhere
        · exact ⟨b, hb, hb'⟩
      obtain ⟨s', hrest⟩ := ih (fun b hb => h b (List.mem_cons_of_mem a hb)) hlater s₁ hs₁
      exact ⟨s', (bind_of_ok hrun).trans hrest⟩

end

/-! ### Two programs -/

section
variable {τ : Type}

/-- What is seen of a result. -/
def mapResult (f : α → β) (view : σ → τ) : EStateM.Result ε σ α → EStateM.Result ε τ β
  | .ok a s => .ok (f a) (view s)
  | .error e s => .error e (view s)

/-- The first program does what the second one does, as far as it is seen. -/
def Mirrors (f : α → β) (view : σ → τ) (p : EStateM ε σ α) (p' : EStateM ε τ β) : Prop :=
  ∀ s, mapResult f view (p s) = p' (view s)

namespace Mirrors

variable {view : σ → τ} {f : α → β}

/-- Results mirror each other. -/
theorem of_pure (a : α) : Mirrors f view (pure a : EStateM ε σ α) (pure (f a)) := fun _ => rfl

/-- The same exception on both sides. -/
theorem of_throw (e : ε) : Mirrors f view (throw e : EStateM ε σ α) (throw e) := fun _ => rfl

/-- Changes that the view translates into each other. -/
theorem of_modify {g : σ → σ} {g' : τ → τ} (h : ∀ s, view (g s) = g' (view s)) :
    Mirrors id view (modify g : EStateM ε σ PUnit) (modify g') := by
  intro s
  show EStateM.Result.ok _ (view (g s)) = .ok _ (g' (view s))
  rw [h]

/-- Sequences mirror each other, if their parts do. -/
theorem bind {α' β' : Type} {f' : α' → β'} {p : EStateM ε σ α} {p' : EStateM ε τ β}
    {q : α → EStateM ε σ α'} {q' : β → EStateM ε τ β'} (hp : Mirrors f view p p')
    (hq : ∀ a, Mirrors f' view (q a) (q' (f a))) :
    Mirrors f' view (p >>= q) (p' >>= q') := by
  intro s
  have hs := hp s
  cases hrun : p s with
  | ok a s₁ =>
    rw [hrun] at hs
    rw [bind_of_ok hrun, bind_of_ok hs.symm]
    exact hq a s₁
  | error e s₁ =>
    rw [hrun] at hs
    rw [bind_of_error hrun, bind_of_error hs.symm]
    rfl

/-- Branches mirror each other, if their sides do. -/
theorem ite {c : Prop} [Decidable c] {p q : EStateM ε σ α} {p' q' : EStateM ε τ β}
    (hp : Mirrors f view p p') (hq : Mirrors f view q q') :
    Mirrors f view (if c then p else q) (if c then p' else q') := by
  split
  · exact hp
  · exact hq

/-- Maps that the view translates into each other. -/
theorem map {γ γ' : Type} {p : EStateM ε σ α} {p' : EStateM ε τ β} (hp : Mirrors f view p p')
    {g : α → γ} {g' : β → γ'} {h : γ → γ'} (hg : ∀ a, h (g a) = g' (f a)) :
    Mirrors h view (g <$> p) (g' <$> p') := by
  intro s
  have hs := hp s
  cases hrun : p s with
  | ok a s₁ =>
    rw [hrun] at hs
    rw [map_of_ok hrun, map_of_ok hs.symm, ← hg a]
    rfl
  | error e s₁ =>
    rw [hrun] at hs
    rw [map_of_error hrun, map_of_error hs.symm]
    rfl

/-- Loops mirror each other, if their turns do. -/
theorem forM {as : List γ} {p : γ → EStateM ε σ PUnit} {p' : γ → EStateM ε τ PUnit}
    (h : ∀ a, Mirrors id view (p a) (p' a)) : Mirrors id view (as.forM p) (as.forM p') := by
  induction as with
  | nil => exact of_pure _
  | cons a as ih =>
    rw [List.forM_eq_forM, List.forM_eq_forM, List.forM_cons, List.forM_cons]
    exact bind (h a) fun _ => ih

/-- Both programs end normally, or none does. -/
theorem ok_iff {p : EStateM ε σ α} {p' : EStateM ε τ β} (h : Mirrors f view p p') {s : σ} :
    (∃ b t, p' (view s) = .ok b t) ↔ ∃ a s', p s = .ok a s' := by
  rw [← h s]
  cases p s <;> simp [mapResult]

end Mirrors

end

end Prog
