import Mathlib.Tactic

/-!
# Steps that may fail

A step passes a state on and may stop with an error.  `run_bind_eq_ok` takes a step that ended well
apart into its two halves, so that proofs about long steps never unfold the monad.
-/

namespace TripleStore

variable {ε σ α β : Type}

/-- Two steps end well when the first does and the second does from where the first ended. -/
theorem run_bind_eq_ok {x : EStateM ε σ α} {f : α → EStateM ε σ β} {s s' : σ} {b : β} :
    (x >>= f).run s = .ok b s' ↔ ∃ a s₁, x.run s = .ok a s₁ ∧ (f a).run s₁ = .ok b s' := by
  rw [EStateM.run_bind]
  cases h : x.run s with
  | ok a s₁ => simp
  | error e s₁ => simp

/-- A step behind one that ended well goes on from where that one ended. -/
theorem run_bind_of_ok {x : EStateM ε σ α} {f : α → EStateM ε σ β} {s s₁ : σ} {a : α}
    (h : x.run s = .ok a s₁) : (x >>= f).run s = (f a).run s₁ := by
  rw [EStateM.run_bind, h]

/-- A step behind one that failed is not taken. -/
theorem run_bind_of_error {x : EStateM ε σ α} {f : α → EStateM ε σ β} {s s₁ : σ} {e : ε}
    (h : x.run s = .error e s₁) : (x >>= f).run s = .error e s₁ := by
  rw [EStateM.run_bind, h]

@[simp] theorem run_map (f : α → β) (x : EStateM ε σ α) (s : σ) :
    (f <$> x).run s = match x.run s with
      | .ok a s' => .ok (f a) s'
      | .error e s' => .error e s' := rfl

@[simp] theorem run_fail (e : ε) (s : σ) : (throw e : EStateM ε σ α).run s = .error e s := rfl

theorem run_throw_ne_ok {e : ε} {s s' : σ} {b : α} :
    (throw e : EStateM ε σ α).run s ≠ .ok b s' := by
  intro h
  cases h

end TripleStore
