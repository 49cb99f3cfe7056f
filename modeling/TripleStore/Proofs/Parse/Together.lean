import TripleStore.Proofs.Steps

/-!
# Two readers side by side

Two readers, from two states, go together where both end well with the same result, or both stop with
the same error, and where the states that they end in belong together.

* `Together`: the relation, with a relation of states for each of the two ends.
* `Together.bind`: **readers that go together go on together.**
* `alongside`: a reader with notes beside its state, which it leaves as they are.
-/

namespace TripleStore

variable {ε σ τ γ α β : Type}

/-- A reader beside whose state there are notes, which it leaves as they are. -/
def alongside (r : EStateM ε σ α) : EStateM ε (σ × γ) α := fun s =>
  match r.run s.1 with
  | .ok a t => .ok a (t, s.2)
  | .error e t => .error e (t, s.2)

/-- Both readers end well with the same result, in states that `R` relates, or both stop with the same
error, in states that `E` relates. -/
def Together (R E : σ → τ → Prop) (x : EStateM ε σ α) (y : EStateM ε τ α) (s : σ) (t : τ) : Prop :=
  (∃ a s' t', x.run s = .ok a s' ∧ y.run t = .ok a t' ∧ R s' t') ∨
    ∃ e s' t', x.run s = .error e s' ∧ y.run t = .error e t' ∧ E s' t'

namespace Together

variable {R R' E : σ → τ → Prop} {x : EStateM ε σ α} {y : EStateM ε τ α}
  {f : α → EStateM ε σ β} {g : α → EStateM ε τ β} {s s' : σ} {t t' : τ} {a : α}

theorem of_ok (hx : x.run s = .ok a s') (hy : y.run t = .ok a t') (h : R s' t') :
    Together R E x y s t := .inl ⟨a, s', t', hx, hy, h⟩

theorem of_error {e : ε} (hx : x.run s = .error e s') (hy : y.run t = .error e t') (h : E s' t') :
    Together R E x y s t := .inr ⟨e, s', t', hx, hy, h⟩

theorem pure (h : R s t) :
    Together R E (Pure.pure a : EStateM ε σ α) (Pure.pure a) s t := of_ok rfl rfl h

theorem throw (h : E s t) (e : ε) :
    Together R E (MonadExcept.throw e : EStateM ε σ α) (MonadExcept.throw e) s t :=
  of_error rfl rfl h

/-- Behind first halves that end well, what counts is how the readers go on. -/
theorem bind_of_ok (hx : x.run s = .ok a s') (hy : y.run t = .ok a t')
    (hf : Together R E (f a) (g a) s' t') : Together R E (x >>= f) (y >>= g) s t := by
  rw [Together, run_bind_of_ok hx, run_bind_of_ok hy]
  exact hf

/-- The first reader may have a half of its own in front. -/
theorem bind_of_ok_left {z : EStateM ε σ β} {h : β → EStateM ε σ α} {b : β} (hz : z.run s = .ok b s')
    (hf : Together R E (h b) y s' t) : Together R E (z >>= h) y s t := by
  rw [Together, run_bind_of_ok hz]
  exact hf

/-- So may the second. -/
theorem bind_of_ok_right {z : EStateM ε τ β} {h : β → EStateM ε τ α} {b : β} (hz : z.run t = .ok b t')
    (hf : Together R E x (h b) s t') : Together R E x (z >>= h) s t := by
  rw [Together, run_bind_of_ok hz]
  exact hf

/-- **Readers that go together go on together**, from any two states that the first halves can end
in. -/
theorem bind (hx : Together R' E x y s t)
    (hf : ∀ a s' t', x.run s = .ok a s' → y.run t = .ok a t' → R' s' t' →
      Together R E (f a) (g a) s' t') : Together R E (x >>= f) (y >>= g) s t := by
  rcases hx with ⟨a, s', t', hxa, hya, h⟩ | ⟨e, s', t', hxe, hye, h⟩
  · exact bind_of_ok hxa hya (hf a s' t' hxa hya h)
  · exact of_error (run_bind_of_error hxe) (run_bind_of_error hye) h

/-- Readers that do not end well do not go on. -/
theorem bind_of_ne_ok (hx : Together R' E x y s t) (hne : ∀ a s', x.run s ≠ .ok a s') :
    Together R E (x >>= f) (y >>= g) s t :=
  hx.bind fun a s' _ hok _ _ => absurd hok (hne a s')

/-- Behind a reader that leaves the notes as they are, what counts is how the readers go on. -/
theorem bind_alongside {R E : σ × γ → σ → Prop} {r : EStateM ε σ β} {f : β → EStateM ε (σ × γ) α}
    {g : β → EStateM ε σ α} {s : σ} {notes : γ} (hstop : ∀ t, E (t, notes) t)
    (hf : ∀ a t, r.run s = .ok a t → Together R E (f a) (g a) (t, notes) t) :
    Together R E (alongside r >>= f) (r >>= g) (s, notes) s := by
  cases hr : r.run s with
  | ok a t =>
    have hx : (alongside r).run (s, notes) = .ok a (t, notes) := by
      show (match r.run s with | .ok a t => _ | .error e t => _) = _
      rw [hr]
    exact bind_of_ok hx hr (hf a t hr)
  | error e t =>
    have hx : (alongside r).run (s, notes) = .error e (t, notes) := by
      show (match r.run s with | .ok a t => _ | .error e t => _) = _
      rw [hr]
    exact of_error (run_bind_of_error hx) (run_bind_of_error hr) (hstop t)

end Together

end TripleStore
