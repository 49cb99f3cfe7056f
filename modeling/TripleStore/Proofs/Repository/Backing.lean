import TripleStore.Proofs.Archive.Refinement
import TripleStore.Proofs.Repository.Ensures

/-!
# What the backing is told

A commit tells the backing its deletions and its stores, one in each step.  No other move makes a
difference to an archive.

* `Repository.task`: what the backing is told, with the graph that it is to keep.
* `Archived`: what the archive keeps, which most actions leave alone.
* `Machine.answer_backing`, `Machine.moveVisit_backing`, `Machine.proceed_backing`: requests, calls
  that lock a collection and calls that end a writer leave the archive as it is, the last ones
  unless they have something to tell.
* `Machine.proceed_publish`, `Machine.proceed_tell`, `Machine.proceed_finish`: the steps of a commit
  from its publication on.
-/

namespace TripleStore

open Repository

/-! ### Tasks for the backing -/

namespace Repository

/-- The name that the backing is told about. -/
def Telling.name : Telling → Iri
  | .delete name => name
  | .save name => name

theorem mem_tellings {w : Writer} {t : Telling} :
    t ∈ tellings w ↔ match t with
      | .delete name => name ∈ w.deleted
      | .save name => name ∈ w.staged.map Prod.fst := by
  rw [tellings, List.mem_append, List.mem_map, List.mem_map]
  cases t with
  | delete name => simp [Text.sort]
  | save name => simp [Named.names, Text.sort]

/-- What the backing is told about a writer, with the graph that it is to keep. -/
def task (s : Repository) (id : Nat) : Telling → Archive.Task
  | .delete name => .delete name
  | .save name =>
    .save (s.writer id).patience name (((s.writer id).staged.find s.stores name).getD .empty)

@[simp] theorem name_task (s : Repository) (id : Nat) (t : Telling) :
    (s.task id t).name = t.name := by
  cases t <;> rfl

end Repository

/-- Gives a backing something to do. -/
def Backing.perform (b : Backing) : Archive.Task → Outcome Unit × Backing
  | .save patience name g => b.save patience name g
  | .delete name => b.delete name

theorem Backing.perform_archive (medium : Medium) (task : Archive.Task) :
    (Backing.archive medium).perform task
      = ((task.perform medium).1, .archive (task.perform medium).2) := by
  cases task <;> rfl

namespace Repository

variable (w : World)

/-- A failure of the backing is reported, and only that. -/
theorem inform_backing (what : Text) (name : Iri) (records : List Record)
    (f : Backing → Outcome Unit × Backing) :
    ∃ errors host, (inform what name records f).run w = .ok errors ⟨w.repository, host⟩ ∧
      host.backing = (f w.host.backing).2 ∧ (errors = [] ↔ (f w.host.backing).1.isOk) := by
  cases ha : (f w.host.backing).1 with
  | ok u => exact ⟨[], _, by simp [inform, ha]; rfl, rfl, by simp [Except.isOk, Except.toBool]⟩
  | error x =>
    exact ⟨[.within (what ++ " " ++ name) x], _, by simp [inform, ha]; rfl, rfl,
      by simp [Except.isOk, Except.toBool]⟩

theorem tell_backing (id : Nat) (t : Telling) :
    ∃ errors host, (tell id t).run w = .ok errors ⟨w.repository, host⟩ ∧
      host.backing = (w.host.backing.perform (w.repository.task id t)).2 ∧
      (errors = [] ↔ (w.host.backing.perform (w.repository.task id t)).1.isOk) := by
  cases t with
  | delete name =>
    rw [tell]
    exact inform_backing w _ _ _ _
  | save name =>
    simp only [tell, EStateM.run_bind, EStateM.run_get]
    exact inform_backing w _ _ _ _

end Repository

/-! ### Actions that leave the archive alone -/

/-- An archive stands behind the repository, and this is what it keeps. -/
def Archived (medium : Medium) (w : World) : Prop := w.host.backing = .archive medium

variable {medium : Medium}

/-- Requests change nothing in an archive, nor does closing it. -/
theorem Archived.enduring : Enduring (Archived medium) where
  host _ _ h := h
  addReader _ h := h
  addWriter _ h := h
  putReader _ _ h := h
  patience _ _ _ h := h
  copying _ h := h
  close {w} h := by
    show w.host.backing.close.2 = .archive medium
    rw [show w.host.backing = .archive medium from h]
    rfl

namespace Retains

theorem publish (id : Nat) : Retains (Archived medium) (publish id) :=
  (openWriter id).bind fun _ => get_bind fun _ => .ite
    ((change fun _ h => h).bind fun _ => fail _)
    ((change fun _ h => h).bind fun _ => (log Archived.enduring _).bind fun _ =>
      get_bind fun _ => pure _)

theorem finish (id : Nat) (errors : List Error) : Retains (Archived medium) (finish id errors) := by
  refine (change fun _ h => h).bind fun _ => ?_
  cases Error.all errors with
  | some e => exact fail e
  | none => exact pure ()

/-- A call that ends a writer leaves the archive alone unless it has something to tell. -/
theorem closing {c : Closing} (hc : ∀ t rest errors, c.progress ≠ .telling (t :: rest) errors) :
    Retains (Archived medium) c.next := by
  rw [Closing.next]
  split
  · exact (change fun _ h => h).bind fun _ => pure _
  · exact .ite ((publish _).bind fun _ => pure _)
      (((openWriter _).bind fun _ => change fun _ h => h).bind fun _ => pure _)
  · rename_i t rest errors hp
    exact absurd hp (hc t rest errors)
  · exact (finish _ _).bind fun _ => pure _
  · exact throw _

end Retains

namespace Machine

variable {m : Machine} {k : Nat}

theorem answer_backing (r : Request) (h : m.host.backing = .archive medium) :
    (m.answer r).host.backing = .archive medium :=
  answer_keeps (Retains.request Archived.enduring r fun _ _ _ _ _ => .change fun _ h => h) h

theorem moveVisit_backing {step : Action Progress}
    (hs : m.moveVisit k step = m ∨ VisitStep m (m.moveVisit k step))
    (h : m.host.backing = .archive medium) :
    (m.moveVisit k step).host.backing = .archive medium := by
  rcases hs with he | hs
  · rw [he]
    exact h
  · generalize m.moveVisit k step = m' at hs ⊢
    cases hs <;> exact h

theorem proceed_backing (hp : ∀ t rest errors, (m.closing k).progress ≠ .telling (t :: rest) errors)
    (h : m.host.backing = .archive medium) : (m.proceed k).host.backing = .archive medium :=
  (proceed_keeps (C := fun _ => True) (Retains.closing hp) (fun _ => trivial) h
    fun _ _ => trivial).1

/-! ### The steps of a commit -/

/-- A call that ends a writer and is on the way was begun. -/
theorem lt_of_ending_ne (h : ∀ a, (m.closing k).progress ≠ .ended a) : k < m.closings.length := by
  by_contra hk
  rw [closing_eq_default hk] at h
  exact h _ rfl

/-- A commit publishes; all that its writer has left is to be told to an archive. -/
theorem proceed_publish (hp : (m.closing k).progress = .interrupting)
    (hc : (m.closing k).publishes = true)
    (hw : (m.repository.writer (m.closing k).writer).phase = .working)
    (ho : m.repository.closed = false) (hb : m.host.backing.isPresent) :
    ∃ host, m.proceed k = (({ m with
      repository := m.repository.publishing (m.closing k).writer, host }.closingAt k
        (.telling (tellings (m.repository.writer (m.closing k).writer)) [])).note
          (.published (m.closing k).writer)) := by
  let w := m.repository.writer (m.closing k).writer
  let host : Host := { m.host with journal := m.host.journal ++ [committed w] }
  have hx : (m.closing k).next.run m.toWorld
      = .ok (.telling (tellings w) []) ⟨m.repository.publishing (m.closing k).writer, host⟩ := by
    simp [Closing.next, hp, hc, publish, openWriter_run, hw, ho, hb, w, host]
  refine ⟨host, ?_⟩
  rw [proceed_ok hx, settled_published (by exact hp)]
  rfl

/-- A commit tells the backing something, and keeps in mind if that failed. -/
theorem proceed_tell {t : Telling} {rest : List Telling} {errors : List Error}
    (hp : (m.closing k).progress = .telling (t :: rest) errors) :
    ∃ more host, m.proceed k = { m with host }.closingAt k (.telling rest (errors ++ more)) ∧
      host.backing
        = (m.host.backing.perform (m.repository.task (m.closing k).writer t)).2 ∧
      (more = [] ↔
        (m.host.backing.perform (m.repository.task (m.closing k).writer t)).1.isOk) := by
  obtain ⟨more, host, hx, hb, hm⟩ := tell_backing m.toWorld (m.closing k).writer t
  refine ⟨more, host, ?_, hb, hm⟩
  rw [proceed_ok (by simp [Closing.next, hp, hx]; exact ⟨rfl, rfl⟩),
    settled_telling (by exact hp)]

/-- A commit has told the backing everything and answers. -/
theorem proceed_finish {errors : List Error} (hp : (m.closing k).progress = .telling [] errors) :
    m.proceed k = (({ m with
      repository := m.repository.concluding (m.closing k).writer }.closingAt k
        (.ended (verdict errors))).note (.closed (m.closing k) (verdict errors))) := by
  have hx := finish_run m.toWorld (m.closing k).writer errors
  rw [verdict]
  cases hall : Error.all errors with
  | some x =>
    rw [hall] at hx
    rw [proceed_failed (by simp [Closing.next, hp, hx]; exact ⟨rfl, rfl⟩), settled_ended]
    rfl
  | none =>
    rw [hall] at hx
    rw [proceed_ok (by simp [Closing.next, hp, hx]; exact ⟨rfl, rfl⟩), settled_ended]
    rfl

/-- A commit answers well exactly if nothing has failed. -/
theorem verdict_eq_ok {errors : List Error} : verdict errors = .ok () ↔ errors = [] := by
  rw [verdict]
  cases errors with
  | nil => simp [Error.all]
  | cons e rest =>
    cases rest with
    | nil => simp [Error.all]
    | cons f rest => cases h : Error.all (f :: rest) <;> simp [Error.all, h]

end Machine

end TripleStore
