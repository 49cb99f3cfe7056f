import TripleStore.Proofs.Repository.State
import TripleStore.Proofs.Steps
import TripleStore.Repository.Request

/-!
# What actions come to

An action ends well, fails or has to wait, and in each case leaves a world behind.  These are the
cases for the actions that others are made of.
-/

namespace TripleStore

namespace Repository

variable (w : World)

@[simp] theorem change_run (f : Repository → Repository) :
    (change f).run w = .ok () { w with repository := f w.repository } := rfl

@[simp] theorem log_run (records : List Record) :
    (log records).run w
      = .ok () { w with host := { w.host with journal := w.host.journal ++ records } } := rfl

@[simp] theorem fail_run {α : Type} (e : Error) :
    (fail e : Action α).run w = .error (.failed e) w := rfl

@[simp] theorem draw_run {α : Type} (f : Supply → α × Supply) :
    (draw f).run w
      = .ok (f w.host.supply).1 { w with host := { w.host with supply := (f w.host.supply).2 } } :=
  rfl

theorem openReader_run (id : Nat) :
    (openReader id).run w =
      if (w.repository.reader id).closed then .error (.failed .transactionClosed) w
      else .ok (w.repository.reader id) w := by
  cases h : (w.repository.reader id).closed <;> simp [openReader, h]

theorem openWriter_run (id : Nat) :
    (openWriter id).run w =
      match (w.repository.writer id).phase with
      | .working => .ok (w.repository.writer id) w
      | .committing => .error .waiting w
      | .ended => .error (.failed .transactionClosed) w := by
  cases h : (w.repository.writer id).phase <;> simp [openWriter, h]

theorem heed_run (p : Patience) :
    (heed p).run w = match p.exhausted? with
      | some e => .error (.failed e) w
      | none => .ok () w := by
  cases h : p.exhausted? <;> simp [heed, h]

theorem snapshot_run :
    snapshot.run w =
      if w.repository.closed then .error (.failed .storeClosed) w
      else .ok w.repository.published w := by
  cases h : w.repository.closed <;> simp [snapshot, h]

theorem enter_reading_run (h : ReadHandle) :
    (enter (.reading h)).run w =
      if (w.repository.reader h.reader).closed then .error (.failed .transactionClosed) w
      else .ok () w := by
  cases hc : (w.repository.reader h.reader).closed <;> simp [enter, openReader_run, hc]

theorem enter_writing_run (h : WriteHandle) :
    (enter (.writing h)).run w =
      match (w.repository.writer h.writer).phase with
      | .working => .ok () w
      | .committing => .error .waiting w
      | .ended => .error (.failed .transactionClosed) w := by
  cases hp : (w.repository.writer h.writer).phase <;> simp [enter, openWriter_run, hp]

/-- A handle is entered, or nothing happens. -/
theorem enter_cases (h : Handle) :
    (enter h).run w = .ok () w ∨ ∃ x, (enter h).run w = .error x w := by
  cases h with
  | reading h =>
    rw [enter_reading_run]
    cases (w.repository.reader h.reader).closed with
    | true => exact .inr ⟨_, rfl⟩
    | false => exact .inl rfl
  | writing h =>
    rw [enter_writing_run]
    cases (w.repository.writer h.writer).phase with
    | working => exact .inl rfl
    | committing => exact .inr ⟨_, rfl⟩
    | ended => exact .inr ⟨_, rfl⟩

theorem graphOf_run (h : Handle) :
    (graphOf h).run w = match (enter h).run w with
      | .ok _ w => .ok (w.repository.store h.store) w
      | .error e w => .error e w := by
  cases hr : (enter h).run w <;> simp [graphOf, hr]

/-! ### Requests to the repository and its transactions -/

/-- A transaction for reading sees what is published when it begins. -/
theorem read_run (p : Patience) :
    (∃ x, (Repository.read p).run w = .error x w) ∨
      (Repository.read p).run w = .ok w.repository.readers.length
        ⟨w.repository.addReader { directory := w.repository.published }, w.host⟩ := by
  cases hp : p.exhausted? with
  | some x => exact .inl ⟨.failed x, by simp [Repository.read, heed_run, hp]⟩
  | none =>
    cases hc : w.repository.closed with
    | true =>
      exact .inl ⟨.failed .storeClosed, by simp [Repository.read, heed_run, hp, snapshot_run, hc]⟩
    | false => exact .inr (by simp [Repository.read, heed_run, hp, snapshot_run, hc])

theorem write_run (p : Patience) :
    (∃ x, (write p).run w = .error x w) ∨
      (write p).run w = .ok w.repository.writers.length
        ⟨w.repository.addWriter { patience := p }, w.host⟩ := by
  cases hp : p.exhausted? with
  | some x => exact .inl ⟨.failed x, by simp [write, heed_run, hp]⟩
  | none =>
    cases hc : w.repository.closed with
    | true => exact .inl ⟨.failed .storeClosed, by simp [write, heed_run, hp, snapshot_run, hc]⟩
    | false => exact .inr (by simp [write, heed_run, hp, snapshot_run, hc])

/-- Closing marks the repository as closed, whatever the backing says. -/
theorem close_run :
    close.run w = .ok () w ∨ ∃ host,
      close.run w = .ok () ⟨{ w.repository with closed := true }, host⟩ ∨
      ∃ x, close.run w = .error (.failed x) ⟨{ w.repository with closed := true }, host⟩ := by
  cases hc : w.repository.closed with
  | true => exact .inl (by simp [close, hc])
  | false =>
    refine .inr ⟨{ w.host with backing := w.host.backing.close.2 }, ?_⟩
    cases ha : w.host.backing.close.1 with
    | ok u => exact .inl (by simp [close, hc, ha])
    | error x => exact .inr ⟨_, by simp [close, hc, ha]; rfl⟩

theorem readerCollections_run (id : Nat) :
    (readerCollections id).run w =
      if (w.repository.reader id).closed then .error (.failed .transactionClosed) w
      else .ok (w.repository.reader id).directory.names w := by
  cases hc : (w.repository.reader id).closed <;> simp [readerCollections, openReader_run, hc]

theorem readerCollection_run (id : Nat) (name : Iri) :
    (readerCollection id name).run w =
      if (w.repository.reader id).closed then .error (.failed .transactionClosed) w
      else match (w.repository.reader id).directory.lookup name with
        | some store => .ok ⟨id, name, store⟩ w
        | none => .error (.failed (.collectionNotFound name)) w := by
  cases hc : (w.repository.reader id).closed with
  | true => simp [readerCollection, openReader_run, hc]
  | false =>
    cases hl : (w.repository.reader id).directory.lookup name <;>
      simp [readerCollection, openReader_run, hc, hl]

theorem readerMatch_run (id : Nat) (p : Pattern) :
    (readerMatch id p).run w =
      if (w.repository.reader id).closed then .error (.failed .transactionClosed) w
      else .ok (.search (w.repository.reader id).directory p) w := by
  cases hc : (w.repository.reader id).closed <;> simp [readerMatch, openReader_run, hc]

theorem cancelReader_run (id : Nat) :
    (cancelReader id).run w =
      if (w.repository.reader id).closed then .error (.failed .transactionClosed) w
      else .ok () ⟨w.repository.putReader id { closed := true }, w.host⟩ := by
  cases hc : (w.repository.reader id).closed <;> simp [cancelReader, openReader_run, hc]

theorem writerCollections_run (id : Nat) :
    (∃ x, (writerCollections id).run w = .error x w) ∨
      (writerCollections id).run w = .ok (w.repository.published.amended
        (w.repository.writer id).deleted (w.repository.writer id).staged).names w := by
  cases hp : (w.repository.writer id).phase with
  | working =>
    cases hc : w.repository.closed with
    | true =>
      exact .inl ⟨.failed .storeClosed,
        by simp [writerCollections, view, openWriter_run, hp, snapshot_run, hc]⟩
    | false => exact .inr (by simp [writerCollections, view, openWriter_run, hp, snapshot_run, hc])
  | committing => exact .inl ⟨.waiting, by simp [writerCollections, openWriter_run, hp]⟩
  | ended =>
    exact .inl ⟨.failed .transactionClosed, by simp [writerCollections, openWriter_run, hp]⟩

/-- A writer searches copies of its own stores, beside what is published. -/
theorem writerMatch_run (id : Nat) (p : Pattern) :
    (∃ x, (writerMatch id p).run w = .error x w) ∨
      (w.repository.writer id).phase = .working ∧
        (writerMatch id p).run w = .ok
          (.search (w.repository.published.amended (w.repository.writer id).deleted
            ((w.repository.writer id).staged.numbered w.repository.stores.length)) p)
          ⟨w.repository.copying (w.repository.writer id), w.host⟩ := by
  cases hp : (w.repository.writer id).phase with
  | working =>
    cases hc : w.repository.closed with
    | true =>
      exact .inl ⟨.failed .storeClosed, by simp [writerMatch, openWriter_run, hp, snapshot_run, hc]⟩
    | false => exact .inr ⟨rfl, by simp [writerMatch, openWriter_run, hp, snapshot_run, hc]⟩
  | committing => exact .inl ⟨.waiting, by simp [writerMatch, openWriter_run, hp]⟩
  | ended => exact .inl ⟨.failed .transactionClosed, by simp [writerMatch, openWriter_run, hp]⟩

/-! ### Locking a collection -/

theorem reopen_run (id : Nat) (name : Iri) :
    (∃ x, (reopen id name).run w = .error x w) ∨ (reopen id name).run w = .ok none w ∨
      ∃ store, (w.repository.writer id).phase = .working ∧
        (w.repository.writer id).staged.lookup name = some store ∧
        (reopen id name).run w = .ok (some ⟨id, name, store⟩) w := by
  cases hp : (w.repository.writer id).phase with
  | working =>
    cases hl : (w.repository.writer id).staged.lookup name with
    | some store => exact .inr (.inr ⟨store, rfl, rfl, by simp [reopen, openWriter_run, hp, hl]⟩)
    | none =>
      cases hv : (Term.iri name).violation? with
      | some v => exact .inl ⟨.failed (.invalid v), by simp [reopen, openWriter_run, hp, hl, hv]⟩
      | none => exact .inr (.inl (by simp [reopen, openWriter_run, hp, hl, hv]))
  | committing => exact .inl ⟨.waiting, by simp [reopen, openWriter_run, hp]⟩
  | ended => exact .inl ⟨.failed .transactionClosed, by simp [reopen, openWriter_run, hp]⟩

theorem holds_run (id : Nat) (name : Iri) :
    (∃ x, (holds id name).run w = .error x w) ∨
      (holds id name).run w = .ok ((w.repository.writer id).held.contains name) w := by
  cases hp : (w.repository.writer id).phase with
  | working => exact .inr (by simp [holds, openWriter_run, hp])
  | committing => exact .inl ⟨.waiting, by simp [holds, openWriter_run, hp]⟩
  | ended => exact .inl ⟨.failed .transactionClosed, by simp [holds, openWriter_run, hp]⟩

theorem take_run (name : Iri) :
    (take name).run w =
      if name ∈ w.repository.locked then .ok false w
      else .ok true ⟨w.repository.lock name, w.host⟩ := by
  by_cases h : name ∈ w.repository.locked <;> simp [take, h]

theorem keep_run (id : Nat) (name : Iri) :
    (keep id name).run w =
      match (w.repository.writer id).phase with
      | .working => .ok () ⟨w.repository.revise id (Writer.keeping name), w.host⟩
      | .committing => .error .waiting w
      | .ended => .error (.failed .transactionClosed) ⟨w.repository.unlock [name], w.host⟩ := by
  cases hp : (w.repository.writer id).phase <;> simp [keep, hp]

theorem withdraw_run {α : Type} (id : Nat) (name : Iri) (taken : Bool) :
    (withdraw id name taken : Action α).run w = .error .waiting w ∨
      ∃ x, (withdraw id name taken : Action α).run w = .error (.failed x)
        ⟨if taken then w.repository.unlock [name] else w.repository, w.host⟩ := by
  cases hi : (w.repository.writer id).interruption with
  | none => exact .inl (by simp [withdraw, hi])
  | some e =>
    refine .inr ⟨withdrawal (w.repository.writer id) name e, ?_⟩
    cases taken <;> simp [withdraw, hi]

theorem stage_run (id : Nat) (name : Iri) :
    (∃ x, (stage id name).run w = .error x w) ∨ (w.repository.writer id).phase = .working ∧
      (stage id name).run w = match (w.repository.writer id).staged.lookup name with
        | some store => .ok ⟨id, name, store⟩ w
        | none => .ok ⟨id, name, w.repository.stores.length⟩
          ⟨w.repository.opening id name, w.host⟩ := by
  cases hp : (w.repository.writer id).phase with
  | working =>
    refine .inr ⟨rfl, ?_⟩
    cases hl : (w.repository.writer id).staged.lookup name <;>
      simp [stage, openWriter_run, hp, hl]
  | committing => exact .inl ⟨.waiting, by simp [stage, openWriter_run, hp]⟩
  | ended => exact .inl ⟨.failed .transactionClosed, by simp [stage, openWriter_run, hp]⟩

theorem unstage_run (id : Nat) (name : Iri) :
    (∃ x, (unstage id name).run w = .error x w) ∨ (w.repository.writer id).phase = .working ∧
      (unstage id name).run w
        = .ok () ⟨w.repository.revise id (Writer.deleting name), w.host⟩ := by
  cases hp : (w.repository.writer id).phase with
  | working => exact .inr ⟨rfl, by simp [unstage, openWriter_run, hp]⟩
  | committing => exact .inl ⟨.waiting, by simp [unstage, openWriter_run, hp]⟩
  | ended => exact .inl ⟨.failed .transactionClosed, by simp [unstage, openWriter_run, hp]⟩

/-! ### Ending a writer -/

theorem publish_run (id : Nat) :
    match (w.repository.writer id).phase with
    | .working =>
      if w.repository.closed then
        (publish id).run w = .error (.failed .storeClosed) ⟨w.repository.concluding id, w.host⟩
      else ∃ rest host, (publish id).run w = .ok rest ⟨w.repository.publishing id, host⟩
    | .committing => (publish id).run w = .error .waiting w
    | .ended => (publish id).run w = .error (.failed .transactionClosed) w := by
  cases hp : (w.repository.writer id).phase with
  | working =>
    cases hc : w.repository.closed with
    | true => simp [publish, openWriter_run, hp, hc]
    | false => simp [publish, openWriter_run, hp, hc]
  | committing => simp [publish, openWriter_run, hp]
  | ended => simp [publish, openWriter_run, hp]

theorem dismiss_run (id : Nat) :
    (dismiss id).run w =
      match (w.repository.writer id).phase with
      | .working => .ok () ⟨w.repository.discarding id, w.host⟩
      | .committing => .error .waiting w
      | .ended => .error (.failed .transactionClosed) w := by
  cases hp : (w.repository.writer id).phase <;> simp [dismiss, openWriter_run, hp]

/-- Telling the backing changes nothing in the repository; a failure says what was being done. -/
theorem inform_run (what : Text) (name : Iri) (records : List Record)
    (f : Backing → Outcome Unit × Backing) :
    ∃ errors host, (inform what name records f).run w = .ok errors ⟨w.repository, host⟩ ∧
      ∀ x ∈ errors, ∃ doing cause, x = Error.within doing cause := by
  cases ha : (f w.host.backing).1 with
  | ok u => exact ⟨[], _, by simp [inform, ha]; rfl, by simp⟩
  | error x => exact ⟨[.within (what ++ " " ++ name) x], _, by simp [inform, ha]; rfl, by simp⟩

theorem tell_run (id : Nat) (t : Telling) :
    ∃ errors host, (tell id t).run w = .ok errors ⟨w.repository, host⟩ ∧
      ∀ x ∈ errors, ∃ doing cause, x = Error.within doing cause := by
  cases t with
  | delete name =>
    rw [tell]
    exact inform_run w _ _ _ _
  | save name =>
    simp only [tell, EStateM.run_bind, EStateM.run_get]
    exact inform_run w _ _ _ _

theorem finish_run (id : Nat) (errors : List Error) :
    (finish id errors).run w = match Error.all errors with
      | some x => .error (.failed x) ⟨w.repository.concluding id, w.host⟩
      | none => .ok () ⟨w.repository.concluding id, w.host⟩ := by
  cases h : Error.all errors <;> simp [finish, h]

end Repository

open Repository

/-! ### Inquiries and edits -/

/-- What an inquiry finds out about a collection of some name with some graph. -/
def Inquiry.result (name : Iri) (g : Graph) : Inquiry → Answer
  | .subjects => .nodes g.subjects
  | .statementsFor n => .pairs (g.statementsFor n)
  | .size => .count g.size
  | .search p => .sequence (.found (matchIn name g p))

theorem Inquiry.act_run (q : Inquiry) (h : Handle) (w : World) :
    (q.act h).run w = match (enter h).run w with
      | .ok _ w => .ok (q.result h.name (w.repository.store h.store)) w
      | .error e w => .error e w := by
  cases q with
  | subjects =>
    cases hr : (enter h).run w <;> simp [act, Repository.subjects, graphOf_run, hr, result]
  | statementsFor n =>
    cases hr : (enter h).run w <;> simp [act, Repository.statementsFor, graphOf_run, hr, result]
  | size => cases hr : (enter h).run w <;> simp [act, Repository.size, graphOf_run, hr, result]
  | search p => cases hr : (enter h).run w <;> simp [act, handleMatch, graphOf_run, hr, result]

/-- An edit that ends well makes one change in the store of the handle, while the writer takes
calls; the change is the one that its answer tells. -/
theorem Edit.act_run (e : Edit) (h : WriteHandle) (w : World) :
    (∃ x, (e.act h).run w = .error x w) ∨
      ∃ a c host, e.change a = some c ∧ (w.repository.writer h.writer).phase = .working ∧
        (e.act h).run w = .ok a
          ⟨w.repository.putStore h.store (c.apply (w.repository.store h.store)), host⟩ := by
  have hen := enter_writing_run w h
  cases hp : (w.repository.writer h.writer).phase with
  | working =>
    rw [hp] at hen
    cases e with
    | add d =>
      cases hd : d.check with
      | ok _ => exact .inr ⟨.done, _, _, rfl, rfl, by simp [act, addStatement, hen, hd, make]; rfl⟩
      | error v => exact .inl ⟨.failed (.invalid v), by simp [act, addStatement, hen, hd]⟩
    | remove d => exact .inr ⟨.done, _, _, rfl, rfl, by simp [act, removeStatement, hen, make]; rfl⟩
    | removeSubject n =>
      exact .inr ⟨.done, _, _, rfl, rfl, by simp [act, Repository.removeSubject, hen, make]; rfl⟩
    | newEntity =>
      let g := w.repository.store h.store
      let drawn := freshEntity g (g.nodes.length + 1) w.host.supply
      exact .inr ⟨.label drawn.1, _, _, rfl, rfl, by
        simp [act, Repository.newEntity, make, graphOf_run, hen, Handle.store, drawn, g]; rfl⟩
    | merge source =>
      let drawn := (w.repository.store h.store).drawRenaming source.labelOrder w.host.supply
      exact .inr ⟨.renaming drawn.1, _, _, rfl, rfl, by
        simp [act, mergeGraph, make, graphOf_run, hen, Handle.store, drawn]; rfl⟩
  | committing =>
    rw [hp] at hen
    refine .inl ⟨.waiting, ?_⟩
    cases e <;> simp [act, addStatement, removeStatement, Repository.removeSubject,
      Repository.newEntity, mergeGraph, graphOf_run, hen]
  | ended =>
    rw [hp] at hen
    refine .inl ⟨.failed .transactionClosed, ?_⟩
    cases e <;> simp [act, addStatement, removeStatement, Repository.removeSubject,
      Repository.newEntity, mergeGraph, graphOf_run, hen]

end TripleStore
