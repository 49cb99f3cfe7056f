import TripleStore.Proofs.Repository.Ensures

/-!
# Calls one by one

A call in several steps moves only by its own steps: whatever other callers do, it stays where it
is.

* `Machine.visit_step`, `Machine.closing_step`: other moves leave a call as it is.
* `Machine.At`: how far a call that ends a writer has come, and in which world; with what its next
  step makes of it.
-/

namespace TripleStore

open Repository

/-- The moves of a call that locks a collection. -/
def Move.isOfVisit (j : Nat) : Move → Bool
  | .advance k => k = j
  | .giveWay k => k = j
  | _ => false

namespace Machine

variable {m : Machine} {j : Nat}

/-- Requests leave the calls in several steps alone. -/
theorem answer_calls (m : Machine) (r : Request) :
    (m.answer r).visits = m.visits ∧ (m.answer r).closings = m.closings := by
  unfold answer
  split <;> exact ⟨rfl, rfl⟩

/-- A step of a call that locks a collection does nothing, or the call comes to some point. -/
theorem moveVisit_eq (m : Machine) (k : Nat) (step : Action Progress) :
    m.moveVisit k step = m ∨ ∃ w p, m.moveVisit k step = { m with toWorld := w }.reached k p := by
  unfold moveVisit
  split
  · exact .inr ⟨_, _, rfl⟩
  · exact .inr ⟨_, _, rfl⟩
  · exact .inl rfl

/-- A step of a call that ends a writer does nothing, or the call comes to some point. -/
theorem proceed_eq (m : Machine) (k : Nat) :
    m.proceed k = m ∨ ∃ w p, m.proceed k = { m with toWorld := w }.settled k p := by
  unfold proceed
  split
  · exact .inr ⟨_, _, rfl⟩
  · exact .inr ⟨_, _, rfl⟩
  · exact .inl rfl

/-- In a step of a call that locks a collection, only this call comes further. -/
theorem moveVisit_calls (m : Machine) (k : Nat) (step : Action Progress) :
    (m.moveVisit k step).closings = m.closings ∧
      (m.moveVisit k step).visits.length = m.visits.length ∧
      (∀ j, ((m.moveVisit k step).visit j).writer = (m.visit j).writer) ∧
      ∀ j ≠ k, (m.moveVisit k step).visit j = m.visit j := by
  rcases moveVisit_eq m k step with he | ⟨w, p, he⟩
  · rw [he]
    exact ⟨rfl, rfl, fun _ => rfl, fun _ _ => rfl⟩
  obtain ⟨-, hc, hv⟩ := reached_eq { m with toWorld := w } k p
  have hvisit : ∀ j, (m.moveVisit k step).visit j = if j = k ∧ k < m.visits.length then
      { m.visit k with progress := p } else m.visit j := by
    intro j
    rw [he, visit, hv, getD_set]
    rfl
  refine ⟨?_, ?_, fun j => ?_, fun j hj => ?_⟩
  · rw [he, hc]
  · rw [he, hv, List.length_set]
  · rw [hvisit]
    split
    · rename_i hj
      rw [hj.1]
    · rfl
  · rw [hvisit, if_neg fun hx => hj hx.1]

/-- In a step of a call that ends a writer, only this call comes further. -/
theorem proceed_calls (m : Machine) (k : Nat) :
    (m.proceed k).visits = m.visits ∧ (m.proceed k).closings.length = m.closings.length ∧
      ∀ j ≠ k, (m.proceed k).closing j = m.closing j := by
  rcases proceed_eq m k with he | ⟨w, p, he⟩
  · rw [he]
    exact ⟨rfl, rfl, fun _ _ => rfl⟩
  obtain ⟨-, hv, hc⟩ := settled_eq { m with toWorld := w } k p
  refine ⟨?_, ?_, fun j hj => ?_⟩
  · rw [he, hv]
  · rw [he, hc, List.length_set]
  · rw [he, closing, hc, getD_set, if_neg fun hx => hj hx.1]
    rfl

/-- Calls that lock a collection are not lost. -/
theorem length_visits_step (m : Machine) (move : Move) :
    m.visits.length ≤ (m.step move).visits.length := by
  cases move with
  | ask r =>
    rw [step]
    split
    · rw [(answer_calls m r).1]
    · rfl
  | visit writer name deletes => simp [step]
  | advance k => exact (moveVisit_calls m k _).2.1.ge
  | giveWay k => exact (moveVisit_calls m k _).2.1.ge
  | close writer publishes => rfl
  | proceed k => rw [step, (proceed_calls m k).1]

/-- **Other moves leave a call that locks a collection as it is.** -/
theorem visit_step (hj : j < m.visits.length) {move : Move} (hm : move.isOfVisit j = false) :
    (m.step move).visit j = m.visit j := by
  cases move with
  | ask r =>
    rw [step]
    split
    · rw [visit, (answer_calls m r).1]
      rfl
    · rfl
  | visit writer name deletes => exact getD_append_left hj _ default
  | advance k => exact (moveVisit_calls m k _).2.2.2 j (Ne.symm (of_decide_eq_false hm))
  | giveWay k => exact (moveVisit_calls m k _).2.2.2 j (Ne.symm (of_decide_eq_false hm))
  | close writer publishes => rfl
  | proceed k =>
    rw [step, visit, (proceed_calls m k).1]
    rfl

/-- Calls that end a writer are not lost. -/
theorem length_closings_step (m : Machine) (move : Move) :
    m.closings.length ≤ (m.step move).closings.length := by
  cases move with
  | ask r =>
    rw [step]
    split
    · rw [(answer_calls m r).2]
    · rfl
  | visit writer name deletes => rfl
  | advance k => rw [step, (moveVisit_calls m k _).1]
  | giveWay k => rw [step, (moveVisit_calls m k _).1]
  | close writer publishes => simp [step]
  | proceed k => exact (proceed_calls m k).2.1.ge

/-- **Other moves leave a call that ends a writer as it is.** -/
theorem closing_step (hj : j < m.closings.length) {move : Move} (hm : move ≠ .proceed j) :
    (m.step move).closing j = m.closing j := by
  cases move with
  | ask r =>
    rw [step]
    split
    · rw [closing, (answer_calls m r).2]
      rfl
    · rfl
  | visit writer name deletes => rfl
  | advance k =>
    rw [step, closing, (moveVisit_calls m k _).1]
    rfl
  | giveWay k =>
    rw [step, closing, (moveVisit_calls m k _).1]
    rfl
  | close writer publishes => exact getD_append_left hj _ default
  | proceed k => exact (proceed_calls m k).2.2 j fun hk => hm (congrArg Move.proceed hk.symm)

end Machine

/-- A call that ends a writer has come to some point, and the world is in some state. -/
structure Machine.At (m : Machine) (k : Nat) (c : Closing) (w : World) : Prop where
  begun : k < m.closings.length
  call : m.closing k = c
  world : m.toWorld = w

namespace Machine.At

variable {m : Machine} {k : Nat} {c : Closing} {w w' : World}

theorem settled (h : m.At k c w) (p : Ending) (w' : World) :
    ({ m with toWorld := w' }.settled k p).At k { c with progress := p } w' := by
  obtain ⟨hworld, -, hclosings⟩ := settled_eq { m with toWorld := w' } k p
  refine ⟨?_, ?_, hworld⟩
  · rw [hclosings, List.length_set]
    exact h.begun
  · rw [closing, hclosings, getD_set, if_pos ⟨rfl, h.begun⟩]
    exact congrArg (fun c : Closing => { c with progress := p }) h.call

/-- The next step comes to something. -/
theorem ok (h : m.At k c w) {p : Ending} (hx : c.next.run w = .ok p w') :
    (m.proceed k).At k { c with progress := p } w' := by
  rw [proceed_ok (p := p) (w := w') (by rw [h.call, h.world, hx])]
  exact h.settled p w'

/-- The next step fails. -/
theorem failed (h : m.At k c w) {x : Error} (hx : c.next.run w = .error (.failed x) w') :
    (m.proceed k).At k { c with progress := .ended (.error x) } w' := by
  rw [proceed_failed (x := x) (w := w') (by rw [h.call, h.world, hx])]
  exact h.settled (.ended (.error x)) w'

/-- A call that is over does not move. -/
theorem run_ended {answer : Outcome Unit} (h : m.At k { c with progress := .ended answer } w)
    (n : Nat) : (m.run (List.replicate n (.proceed k))).At k { c with progress := .ended answer } w := by
  have hstay : m.proceed k = m :=
    proceed_waiting (w := m.toWorld) (by rw [h.call]; simp [Closing.next])
  induction n with
  | zero => exact h
  | succ n ih =>
    show ((m.proceed k).run (List.replicate n (.proceed k))).At k _ w
    rwa [hstay]

/-- A call that was begun just now. -/
theorem close (m : Machine) (id : Nat) (publishes : Bool) :
    (m.step (.close id publishes)).At m.closings.length { writer := id, publishes } m.toWorld := by
  refine ⟨?_, ?_, rfl⟩
  · show m.closings.length < (m.closings ++ [_]).length
    simp
  · show (m.closings ++ [_]).getD m.closings.length default = _
    rw [getD_concat, if_pos rfl]

end Machine.At

end TripleStore
