import TripleStore.Proofs.Repository.Actions
import TripleStore.Repository.History

/-!
# What a move does

A move of a caller leaves the machine as it is, or it is a step of a request, of a call that locks a
collection or of a call that ends a writer.  The three relations say all that such a step can do,
with the conditions under which it does it; every invariant is derived from them.

* `RequestStep`, `VisitStep`, `ClosingStep`.
* `Machine.step_cases`: every move that does something is one of these.
* `Machine.run_induction`: what holds at the start and is kept by the three kinds of steps holds
  after all moves.
-/

namespace TripleStore

open Repository

/-- A change of a writer that concerns only the patience of its calls; calls that no longer wait
for locks do not wait afterwards. -/
def Mild (f : Writer → Writer) : Prop :=
  ∀ w, (f w).phase = w.phase ∧ (f w).held = w.held ∧ (f w).staged = w.staged
    ∧ (f w).deleted = w.deleted ∧ (w.interruption.isSome → (f w).interruption.isSome)

theorem mild_interrupted (e : Error) : Mild (Writer.interrupted e) := by
  intro w
  refine ⟨rfl, rfl, rfl, rfl, fun _ => ?_⟩
  show (w.interruption.or (some e)).isSome
  simp

theorem mild_abandoned (e : Error) (p : Patience) : Mild (Writer.abandoned e p) := by
  intro w
  unfold Writer.abandoned
  split
  · exact ⟨rfl, rfl, rfl, rfl, id⟩
  · exact mild_interrupted e w

theorem mild_timedOut : Mild Writer.timedOut := by
  intro w
  unfold Writer.timedOut
  split
  · exact mild_abandoned _ _ w
  · exact ⟨rfl, rfl, rfl, rfl, id⟩

/-! ### Steps -/

/-- Whether this answers a request that is no change to a collection. -/
def Event.isPlain : Event → Bool
  | .answered (.edit _ _) (.ok _) => false
  | .answered _ _ => true
  | _ => false

/-- What a request does. -/
inductive RequestStep (m : Machine) : Machine → Prop
  /-- It changes nothing and gives nothing out. -/
  | quiet {e : Event} (he : e.isPlain) : RequestStep m (m.note e)
  /-- A transaction for reading begins. -/
  | read {e : Event} (he : e.isPlain) :
      RequestStep m ({ m with
        repository := m.repository.addReader { directory := m.repository.published } }.note e)
  /-- A transaction for writing begins. -/
  | write {e : Event} (he : e.isPlain) (patience : Patience) :
      RequestStep m ({ m with repository := m.repository.addWriter { patience } }.note e)
  /-- The repository is closed. -/
  | close {e : Event} (he : e.isPlain) (host : Host) :
      RequestStep m ({ m with
        repository := { m.repository with closed := true }, host }.note e)
  /-- The patience of a writer's caller changes. -/
  | patience {e : Event} (he : e.isPlain) (id : Nat) {f : Writer → Writer} (hf : Mild f) :
      RequestStep m ({ m with repository := m.repository.revise id f }.note e)
  /-- A transaction for reading ends. -/
  | cancel (id : Nat) :
      RequestStep m ({ m with
        repository := m.repository.putReader id { closed := true } }.note
          (.answered (.cancelReader id) (.ok .done)))
  /-- A reader opens a collection. -/
  | collection {e : Event} (he : e.isPlain) {h : ReadHandle}
      (ho : (m.repository.reader h.reader).closed = false)
      (hl : (m.repository.reader h.reader).directory.lookup h.name = some h.store) :
      RequestStep m ({ m with handles := .reading h :: m.handles }.note e)
  /-- A reader searches its collections. -/
  | search {e : Event} (he : e.isPlain) {id : Nat} (p : Pattern)
      (ho : (m.repository.reader id).closed = false) :
      RequestStep m ({ m with
        sequences := .search (m.repository.reader id).directory p :: m.sequences }.note e)
  /-- A collection is searched. -/
  | found {e : Event} (he : e.isPlain) (l : List Draft) :
      RequestStep m ({ m with sequences := .found l :: m.sequences }.note e)
  /-- A writer searches copies of its collections. -/
  | copies {e : Event} (he : e.isPlain) {id : Nat} (p : Pattern)
      (hw : (m.repository.writer id).phase = .working) :
      RequestStep m ({ m with
        repository := m.repository.copying (m.repository.writer id)
        sequences := .search (m.repository.published.amended (m.repository.writer id).deleted
          ((m.repository.writer id).staged.numbered m.repository.stores.length)) p
            :: m.sequences }.note e)
  /-- A writer changes one of its stores. -/
  | edit {e : Event} {h : WriteHandle} {c : Change} (he : e.deed? = some (.edited h c))
      (hh : .writing h ∈ m.handles) (hw : (m.repository.writer h.writer).phase = .working)
      (host : Host) :
      RequestStep m ({ m with
        repository := m.repository.putStore h.store (c.apply (m.repository.store h.store))
        host }.note e)

/-- The machine when a call that locks a collection has come to some point. -/
def Machine.visitAt (m : Machine) (k : Nat) (p : Progress) : Machine :=
  { m with visits := m.visits.set k { m.visit k with progress := p } }

/-- What a step of a call that locks a collection does. -/
inductive VisitStep (m : Machine) : Machine → Prop
  /-- The call begins. -/
  | begin {v : Visit} (hv : v.progress = .begun) :
      VisitStep m { m with visits := m.visits ++ [v] }
  /-- It comes further without any lock; it is entitled if the writer holds the lock already. -/
  | move {k : Nat} (hk : k < m.visits.length) {p : Progress}
      (hg : (m.visit k).progress.isGranted = false) (hp : p.isGranted = false)
      (he : p = .entitled → (m.visit k).name ∈ (m.repository.writer (m.visit k).writer).held) :
      VisitStep m (m.visitAt k p)
  /-- It fails and had no lock. -/
  | fail {k : Nat} (hk : k < m.visits.length) (x : Error)
      (hg : (m.visit k).progress.isGranted = false) :
      VisitStep m ((m.visitAt k (.ended (.error x))).note (.visited (m.visit k) (.error x)))
  /-- It takes the lock. -/
  | grant {k : Nat} (hk : k < m.visits.length) (waited : Bool)
      (hg : (m.visit k).progress.isGranted = false)
      (hl : (m.visit k).name ∉ m.repository.locked) :
      VisitStep m ({ m with
        repository := m.repository.lock (m.visit k).name }.visitAt k (.granted waited))
  /-- It gives the lock back and fails. -/
  | lose {k : Nat} (hk : k < m.visits.length) (x : Error)
      (hg : (m.visit k).progress.isGranted = true) :
      VisitStep m (({ m with
        repository := m.repository.unlock [(m.visit k).name] }.visitAt k
          (.ended (.error x))).note (.visited (m.visit k) (.error x)))
  /-- The lock is noted as held. -/
  | keep {k : Nat} (hk : k < m.visits.length) (hg : (m.visit k).progress.isGranted = true)
      (hw : (m.repository.writer (m.visit k).writer).phase = .working) :
      VisitStep m ({ m with
        repository := m.repository.revise (m.visit k).writer
          (Writer.keeping (m.visit k).name) }.visitAt k .entitled)
  /-- The collection is open already. -/
  | reopen {k : Nat} (hk : k < m.visits.length) {store : Nat}
      (hg : (m.visit k).progress.isGranted = false)
      (hw : (m.repository.writer (m.visit k).writer).phase = .working)
      (hl : (m.repository.writer (m.visit k).writer).staged.lookup (m.visit k).name = some store) :
      VisitStep m (({ m with
        handles := .writing ⟨(m.visit k).writer, (m.visit k).name, store⟩ :: m.handles }.visitAt k
          (.ended (.ok (some ⟨(m.visit k).writer, (m.visit k).name, store⟩)))).note
            (.visited (m.visit k) (.ok (some ⟨(m.visit k).writer, (m.visit k).name, store⟩))))
  /-- The collection is opened. -/
  | stage {k : Nat} (hk : k < m.visits.length) (hg : (m.visit k).progress = .entitled)
      (hw : (m.repository.writer (m.visit k).writer).phase = .working)
      (hl : (m.repository.writer (m.visit k).writer).staged.lookup (m.visit k).name = none) :
      VisitStep m (({ m with
        repository := m.repository.opening (m.visit k).writer (m.visit k).name
        handles := .writing ⟨(m.visit k).writer, (m.visit k).name, m.repository.stores.length⟩
          :: m.handles }.visitAt k (.ended (.ok (some
            ⟨(m.visit k).writer, (m.visit k).name, m.repository.stores.length⟩)))).note
              (.visited (m.visit k) (.ok (some
                ⟨(m.visit k).writer, (m.visit k).name, m.repository.stores.length⟩))))
  /-- The collection is deleted. -/
  | unstage {k : Nat} (hk : k < m.visits.length) (hg : (m.visit k).progress = .entitled)
      (hw : (m.repository.writer (m.visit k).writer).phase = .working) :
      VisitStep m (({ m with
        repository := m.repository.revise (m.visit k).writer
          (Writer.deleting (m.visit k).name) }.visitAt k (.ended (.ok none))).note
            (.visited (m.visit k) (.ok none)))

/-- The machine when a call that ends a writer has come to some point. -/
def Machine.closingAt (m : Machine) (k : Nat) (p : Ending) : Machine :=
  { m with closings := m.closings.set k { m.closing k with progress := p } }

/-- What a commit answers when it has told the backing everything. -/
def verdict (errors : List Error) : Outcome Unit :=
  match Error.all errors with
  | some x => .error x
  | none => .ok ()

/-- What a step of a call that ends a writer does. -/
inductive ClosingStep (m : Machine) : Machine → Prop
  /-- The call begins. -/
  | begin {c : Closing} (hc : c.progress = .begun) :
      ClosingStep m { m with closings := m.closings ++ [c] }
  /-- It ends the waiting of the writer's calls. -/
  | interrupt {k : Nat} (hk : k < m.closings.length) (hp : (m.closing k).progress = .begun)
      {f : Writer → Writer} (hf : Mild f) :
      ClosingStep m ({ m with
        repository := m.repository.revise (m.closing k).writer f }.closingAt k .interrupting)
  /-- It publishes. -/
  | publish {k : Nat} (hk : k < m.closings.length) (hp : (m.closing k).progress = .interrupting)
      (hc : (m.closing k).publishes = true)
      (hw : (m.repository.writer (m.closing k).writer).phase = .working)
      (ho : m.repository.closed = false) (rest : List Telling) (host : Host) :
      ClosingStep m (({ m with
        repository := m.repository.publishing (m.closing k).writer, host }.closingAt k
          (.telling rest [])).note (.published (m.closing k).writer))
  /-- The repository is closed, so that nothing is published. -/
  | refuse {k : Nat} (hk : k < m.closings.length) (hp : (m.closing k).progress = .interrupting)
      (hc : (m.closing k).publishes = true)
      (hw : (m.repository.writer (m.closing k).writer).phase = .working)
      (ho : m.repository.closed = true) :
      ClosingStep m (({ m with
        repository := m.repository.concluding (m.closing k).writer }.closingAt k
          (.ended (.error .storeClosed))).note (.closed (m.closing k) (.error .storeClosed)))
  /-- It cancels. -/
  | dismiss {k : Nat} (hk : k < m.closings.length) (hp : (m.closing k).progress = .interrupting)
      (hc : (m.closing k).publishes = false)
      (hw : (m.repository.writer (m.closing k).writer).phase = .working) :
      ClosingStep m (({ m with
        repository := m.repository.discarding (m.closing k).writer }.closingAt k
          (.ended (.ok ()))).note (.closed (m.closing k) (.ok ())))
  /-- The writer is over already. -/
  | late {k : Nat} (hk : k < m.closings.length) (hp : (m.closing k).progress = .interrupting)
      (hw : (m.repository.writer (m.closing k).writer).phase = .ended) :
      ClosingStep m ((m.closingAt k (.ended (.error .transactionClosed))).note
        (.closed (m.closing k) (.error .transactionClosed)))
  /-- It tells the backing something. -/
  | tell {k : Nat} (hk : k < m.closings.length) {t : Telling} {rest : List Telling}
      {errors : List Error} (hp : (m.closing k).progress = .telling (t :: rest) errors)
      {more : List Error} (hm : ∀ x ∈ more, ∃ doing cause, x = .within doing cause) (host : Host) :
      ClosingStep m ({ m with host }.closingAt k (.telling rest (errors ++ more)))
  /-- It is over. -/
  | finish {k : Nat} (hk : k < m.closings.length) {errors : List Error}
      (hp : (m.closing k).progress = .telling [] errors) :
      ClosingStep m (({ m with
        repository := m.repository.concluding (m.closing k).writer }.closingAt k
          (.ended (verdict errors))).note (.closed (m.closing k) (verdict errors)))

/-! ### Requests -/

namespace Machine

variable {m : Machine} {r : Request}

theorem answer_ok {a : Answer} {w : World} (h : r.act.run m.toWorld = .ok a w) :
    m.answer r = { m with
      toWorld := w
      handles := a.handle?.toList ++ m.handles
      sequences := a.sequence?.toList ++ m.sequences }.note (.answered r (.ok a)) := by
  rw [answer, h]

theorem isPlain_answered_error (r : Request) (x : Error) :
    (Event.answered r (.error x)).isPlain := by
  cases r <;> rfl

/-- A request that fails or has to wait and leaves the world as it was. -/
theorem answer_error {x : Halt} (h : r.act.run m.toWorld = .error x m.toWorld) :
    m.answer r = m ∨ RequestStep m (m.answer r) := by
  rw [answer, h]
  cases x with
  | failed x => exact .inr (.quiet (isPlain_answered_error r x))
  | waiting => exact .inl rfl

/-- A request that is about something that was given out does one of its steps, or has to wait. -/
theorem answer_cases (hr : r.isFounded m.handles m.sequences) :
    m.answer r = m ∨ RequestStep m (m.answer r) := by
  cases r with
  | read p =>
    rcases read_run m.toWorld p with ⟨x, hx⟩ | hx
    · exact answer_error (x := x) (by simp [Request.act, hx])
    · rw [answer_ok (by simp [Request.act, hx]; exact ⟨rfl, rfl⟩)]
      exact .inr (.read rfl)
  | write p =>
    rcases write_run m.toWorld p with ⟨x, hx⟩ | hx
    · exact answer_error (x := x) (by simp [Request.act, hx])
    · rw [answer_ok (by simp [Request.act, hx]; exact ⟨rfl, rfl⟩)]
      exact .inr (.write rfl p)
  | close =>
    rcases close_run m.toWorld with hx | ⟨host, hx | ⟨x, hx⟩⟩
    · rw [answer_ok (by simp [Request.act, hx]; exact ⟨rfl, rfl⟩)]
      exact .inr (.quiet rfl)
    · rw [answer_ok (by simp [Request.act, hx]; exact ⟨rfl, rfl⟩)]
      exact .inr (.close rfl host)
    · have hrun : Request.close.act.run m.toWorld
          = .error (.failed x) ⟨{ m.repository with closed := true }, host⟩ := by
        simp [Request.act, hx]
      rw [answer, hrun]
      exact .inr (.close rfl host)
  | giveUp id => exact .inr (.patience rfl id (mild_abandoned .cancelled .cancelled))
  | runOut id => exact .inr (.patience rfl id mild_timedOut)
  | readerCollections id =>
    have hx := readerCollections_run m.toWorld id
    cases hc : (m.repository.reader id).closed with
    | true => exact answer_error (x := .failed .transactionClosed) (by simp [Request.act, hx, hc])
    | false =>
      rw [answer_ok (by simp [Request.act, hx, hc]; exact ⟨rfl, rfl⟩)]
      exact .inr (.quiet rfl)
  | readerCollection id name =>
    have hx := readerCollection_run m.toWorld id name
    cases hc : (m.repository.reader id).closed with
    | true => exact answer_error (x := .failed .transactionClosed) (by simp [Request.act, hx, hc])
    | false =>
      cases hl : (m.repository.reader id).directory.lookup name with
      | none =>
        exact answer_error (x := .failed (.collectionNotFound name))
          (by simp [Request.act, hx, hc, hl])
      | some store =>
        rw [answer_ok (by simp [Request.act, hx, hc, hl]; exact ⟨rfl, rfl⟩)]
        exact .inr (.collection rfl hc hl)
  | readerMatch id p =>
    have hx := readerMatch_run m.toWorld id p
    cases hc : (m.repository.reader id).closed with
    | true => exact answer_error (x := .failed .transactionClosed) (by simp [Request.act, hx, hc])
    | false =>
      rw [answer_ok (by simp [Request.act, hx, hc]; exact ⟨rfl, rfl⟩)]
      exact .inr (.search rfl p hc)
  | cancelReader id =>
    have hx := cancelReader_run m.toWorld id
    cases hc : (m.repository.reader id).closed with
    | true => exact answer_error (x := .failed .transactionClosed) (by simp [Request.act, hx, hc])
    | false =>
      rw [answer_ok (by simp [Request.act, hx, hc]; exact ⟨rfl, rfl⟩)]
      exact .inr (.cancel id)
  | writerCollections id =>
    rcases writerCollections_run m.toWorld id with ⟨x, hx⟩ | hx
    · exact answer_error (x := x) (by simp [Request.act, hx])
    · rw [answer_ok (by simp [Request.act, hx]; exact ⟨rfl, rfl⟩)]
      exact .inr (.quiet rfl)
  | writerMatch id p =>
    rcases writerMatch_run m.toWorld id p with ⟨x, hx⟩ | ⟨hw, hx⟩
    · exact answer_error (x := x) (by simp [Request.act, hx])
    · rw [answer_ok (by simp [Request.act, hx]; exact ⟨rfl, rfl⟩)]
      exact .inr (.copies rfl p hw)
  | inquire h q =>
    have hx := q.act_run h m.toWorld
    rcases enter_cases m.toWorld h with he | ⟨x, he⟩
    · rw [he] at hx
      rw [answer_ok (r := .inquire h q) hx]
      cases q with
      | search p => exact .inr (.found rfl _)
      | subjects => exact .inr (.quiet rfl)
      | statementsFor n => exact .inr (.quiet rfl)
      | size => exact .inr (.quiet rfl)
    · rw [he] at hx
      exact answer_error (r := .inquire h q) hx
  | edit h e =>
    have hh : Handle.writing h ∈ m.handles := by simpa [Request.isFounded] using hr
    rcases e.act_run h m.toWorld with ⟨x, hx⟩ | ⟨a, c, host, hc, hw, hx⟩
    · exact answer_error (r := .edit h e) hx
    · have hnone : a.handle? = none ∧ a.sequence? = none := by
        cases e <;> cases a <;> simp [Edit.change, Answer.handle?, Answer.sequence?] at hc ⊢
      have hd : (Event.answered (.edit h e) (.ok a)).deed? = some (.edited h c) := by
        simp [Event.deed?, hc]
      rw [answer_ok (r := .edit h e) hx, hnone.1, hnone.2]
      exact .inr (.edit hd hh hw host)
  | drain s =>
    rw [answer_ok (a := .statements (s.drain m.repository.stores)) (w := m.toWorld) rfl]
    exact .inr (.quiet rfl)

/-! ### Calls that lock a collection -/

variable {k : Nat}

theorem visit_eq_default (hk : ¬ k < m.visits.length) : m.visit k = default := by
  rw [visit, List.getD_eq_getElem?_getD, List.getElem?_eq_none (by omega)]
  rfl

/-- A call that is on the way was begun. -/
theorem lt_of_progress_ne (h : ∀ answer, (m.visit k).progress ≠ .ended answer) :
    k < m.visits.length := by
  by_contra hk
  rw [visit_eq_default hk] at h
  exact h _ rfl

theorem visit_visitAt (hk : k < m.visits.length) (p : Progress) (j : Nat) :
    (m.visitAt k p).visit j = if j = k then { m.visit k with progress := p } else m.visit j := by
  have h : (m.visitAt k p).visit j = if j = k ∧ k < m.visits.length then
      { m.visit k with progress := p } else m.visit j :=
    getD_set m.visits k j { m.visit k with progress := p } default
  simpa only [hk, and_true] using h

theorem moveVisit_ok {step : Action Progress} {p : Progress} {w : World}
    (h : step.run m.toWorld = .ok p w) :
    m.moveVisit k step = { m with toWorld := w }.reached k p := by
  rw [moveVisit, h]

theorem moveVisit_failed {step : Action Progress} {x : Error} {w : World}
    (h : step.run m.toWorld = .error (.failed x) w) :
    m.moveVisit k step = { m with toWorld := w }.reached k (.ended (.error x)) := by
  rw [moveVisit, h]

theorem moveVisit_waiting {step : Action Progress} {w : World}
    (h : step.run m.toWorld = .error .waiting w) : m.moveVisit k step = m := by
  rw [moveVisit, h]

/-- A call without a lock that fails or has to wait and leaves the world as it was. -/
theorem moveVisit_error (hk : k < m.visits.length) (hg : (m.visit k).progress.isGranted = false)
    {step : Action Progress} {x : Halt} (h : step.run m.toWorld = .error x m.toWorld) :
    m.moveVisit k step = m ∨ VisitStep m (m.moveVisit k step) := by
  cases x with
  | failed x =>
    rw [moveVisit_failed h]
    exact .inr (.fail hk x hg)
  | waiting => exact .inl (moveVisit_waiting h)

theorem isGranted_of_eq {p : Progress} (hp : (m.visit k).progress = p) (hg : p.isGranted = false) :
    (m.visit k).progress.isGranted = false := by
  rw [hp]
  exact hg

/-- A call that begins opens a collection again, or goes on to lock it. -/
theorem advance_begun (hk : k < m.visits.length) (hp : (m.visit k).progress = .begun)
    (turn : Bool) :
    m.moveVisit k ((m.visit k).next turn) = m ∨
      VisitStep m (m.moveVisit k ((m.visit k).next turn)) := by
  have hg := isGranted_of_eq hp rfl
  cases hd : (m.visit k).deletes with
  | true =>
    rw [moveVisit_ok (p := .queued) (w := m.toWorld) (by simp [Visit.next, hp, hd])]
    exact .inr (.move hk hg rfl (by simp))
  | false =>
    rcases reopen_run m.toWorld (m.visit k).writer (m.visit k).name with
      ⟨x, hx⟩ | hx | ⟨store, hw, hl, hx⟩
    · exact moveVisit_error hk hg (x := x) (by simp [Visit.next, hp, hd, hx])
    · rw [moveVisit_ok (p := .queued) (w := m.toWorld) (by simp [Visit.next, hp, hd, hx])]
      exact .inr (.move hk hg rfl (by simp))
    · rw [moveVisit_ok (p := .ended (.ok (some ⟨(m.visit k).writer, (m.visit k).name, store⟩)))
        (w := m.toWorld) (by simp [Visit.next, hp, hd, hx])]
      exact .inr (.reopen hk hg hw hl)

/-- A call whose turn it is asks for the lock unless its writer holds it. -/
theorem advance_queued (hk : k < m.visits.length) (hp : (m.visit k).progress = .queued)
    (turn : Bool) :
    m.moveVisit k ((m.visit k).next turn) = m ∨
      VisitStep m (m.moveVisit k ((m.visit k).next turn)) := by
  have hg := isGranted_of_eq hp rfl
  cases turn with
  | false => exact .inl (moveVisit_waiting (w := m.toWorld) (by simp [Visit.next, hp]))
  | true =>
    rcases holds_run m.toWorld (m.visit k).writer (m.visit k).name with ⟨x, hx⟩ | hx
    · exact moveVisit_error hk hg (x := x) (by simp [Visit.next, hp, hx])
    · by_cases hh : (m.visit k).name ∈ (m.repository.writer (m.visit k).writer).held
      · rw [moveVisit_ok (p := .entitled) (w := m.toWorld) (by simp [Visit.next, hp, hx, hh])]
        exact .inr (.move hk hg rfl fun _ => hh)
      · rw [moveVisit_ok (p := .asking) (w := m.toWorld) (by simp [Visit.next, hp, hx, hh])]
        exact .inr (.move hk hg rfl (by simp))

/-- A call that asks for a lock takes it if it is free. -/
theorem advance_asking (hk : k < m.visits.length) (hp : (m.visit k).progress = .asking)
    (turn : Bool) :
    m.moveVisit k ((m.visit k).next turn) = m ∨
      VisitStep m (m.moveVisit k ((m.visit k).next turn)) := by
  have hg := isGranted_of_eq hp rfl
  have hx := take_run m.toWorld (m.visit k).name
  by_cases hl : (m.visit k).name ∈ m.repository.locked
  · rw [moveVisit_ok (p := .waiting) (w := m.toWorld) (by simp [Visit.next, hp, hx, hl])]
    exact .inr (.move hk hg rfl (by simp))
  · rw [moveVisit_ok (p := .granted false) (w := ⟨m.repository.lock (m.visit k).name, m.host⟩)
      (by simp [Visit.next, hp, hx, hl])]
    exact .inr (.grant hk false hg hl)

/-- A call that waits for a lock takes it once it is free. -/
theorem advance_waiting (hk : k < m.visits.length) (hp : (m.visit k).progress = .waiting)
    (turn : Bool) :
    m.moveVisit k ((m.visit k).next turn) = m ∨
      VisitStep m (m.moveVisit k ((m.visit k).next turn)) := by
  have hg := isGranted_of_eq hp rfl
  have hx := take_run m.toWorld (m.visit k).name
  by_cases hl : (m.visit k).name ∈ m.repository.locked
  · exact .inl (moveVisit_waiting (w := m.toWorld) (by simp [Visit.next, hp, hx, hl]))
  · rw [moveVisit_ok (p := .granted true) (w := ⟨m.repository.lock (m.visit k).name, m.host⟩)
      (by simp [Visit.next, hp, hx, hl])]
    exact .inr (.grant hk true hg hl)

/-- A lock that was taken is noted as held, or given back if the writer has ended. -/
theorem advance_granted (hk : k < m.visits.length) {waited : Bool}
    (hp : (m.visit k).progress = .granted waited) (turn : Bool) :
    m.moveVisit k ((m.visit k).next turn) = m ∨
      VisitStep m (m.moveVisit k ((m.visit k).next turn)) := by
  have hg : (m.visit k).progress.isGranted = true := by
    rw [hp]
    rfl
  have hx := keep_run m.toWorld (m.visit k).writer (m.visit k).name
  cases hw : (m.repository.writer (m.visit k).writer).phase with
  | working =>
    rw [moveVisit_ok (p := .entitled)
      (w := ⟨m.repository.revise (m.visit k).writer (Writer.keeping (m.visit k).name), m.host⟩)
      (by simp [Visit.next, hp, hx, hw])]
    exact .inr (.keep hk hg hw)
  | committing =>
    exact .inl (moveVisit_waiting (w := m.toWorld) (by simp [Visit.next, hp, hx, hw]))
  | ended =>
    rw [moveVisit_failed (x := .transactionClosed)
      (w := ⟨m.repository.unlock [(m.visit k).name], m.host⟩) (by simp [Visit.next, hp, hx, hw])]
    exact .inr (.lose hk _ hg)

/-- A call whose writer holds the lock opens or deletes the collection. -/
theorem advance_entitled (hk : k < m.visits.length) (hp : (m.visit k).progress = .entitled)
    (turn : Bool) :
    m.moveVisit k ((m.visit k).next turn) = m ∨
      VisitStep m (m.moveVisit k ((m.visit k).next turn)) := by
  have hg := isGranted_of_eq hp rfl
  cases hd : (m.visit k).deletes with
  | true =>
    rcases unstage_run m.toWorld (m.visit k).writer (m.visit k).name with ⟨x, hx⟩ | ⟨hw, hx⟩
    · exact moveVisit_error hk hg (x := x) (by simp [Visit.next, hp, hd, hx])
    · rw [moveVisit_ok (p := .ended (.ok none))
        (w := ⟨m.repository.revise (m.visit k).writer (Writer.deleting (m.visit k).name), m.host⟩)
        (by simp [Visit.next, hp, hd, hx])]
      exact .inr (.unstage hk hp hw)
  | false =>
    rcases stage_run m.toWorld (m.visit k).writer (m.visit k).name with ⟨x, hx⟩ | ⟨hw, hx⟩
    · exact moveVisit_error hk hg (x := x) (by simp [Visit.next, hp, hd, hx])
    · cases hl : (m.repository.writer (m.visit k).writer).staged.lookup (m.visit k).name with
      | some store =>
        rw [moveVisit_ok (p := .ended (.ok (some ⟨(m.visit k).writer, (m.visit k).name, store⟩)))
          (w := m.toWorld) (by simp [Visit.next, hp, hd, hx, hl])]
        exact .inr (.reopen hk hg hw hl)
      | none =>
        rw [moveVisit_ok (p := .ended (.ok (some
            ⟨(m.visit k).writer, (m.visit k).name, m.repository.stores.length⟩)))
          (w := ⟨m.repository.opening (m.visit k).writer (m.visit k).name, m.host⟩)
          (by simp [Visit.next, hp, hd, hx, hl])]
        exact .inr (.stage hk hp hw hl)

/-- The next step of a call that locks a collection. -/
theorem advance_cases (turn : Bool) :
    m.moveVisit k ((m.visit k).next turn) = m ∨
      VisitStep m (m.moveVisit k ((m.visit k).next turn)) := by
  by_cases hk : k < m.visits.length
  swap
  · have hdef := visit_eq_default hk
    refine .inl (moveVisit_waiting (w := m.toWorld) ?_)
    rw [hdef]
    rfl
  cases hp : (m.visit k).progress with
  | begun => exact advance_begun hk hp turn
  | queued => exact advance_queued hk hp turn
  | asking => exact advance_asking hk hp turn
  | waiting => exact advance_waiting hk hp turn
  | granted waited => exact advance_granted hk hp turn
  | entitled => exact advance_entitled hk hp turn
  | ended answer => exact .inl (moveVisit_waiting (w := m.toWorld) (by simp [Visit.next, hp]))

/-- A call that does not wait for a lock cannot give way. -/
theorem moveVisit_giveWay (hw : (m.visit k).progress ≠ .waiting)
    (hg : (m.visit k).progress ≠ .granted true) : m.moveVisit k (m.visit k).giveWay = m := by
  refine moveVisit_waiting (w := m.toWorld) ?_
  rw [Visit.giveWay]
  split
  · rename_i hp
    exact absurd hp hw
  · rename_i hp
    exact absurd hp hg
  · rfl

/-- A call that had to wait for a lock fails. -/
theorem giveWay_cases :
    m.moveVisit k (m.visit k).giveWay = m ∨ VisitStep m (m.moveVisit k (m.visit k).giveWay) := by
  by_cases hw : (m.visit k).progress = .waiting
  · have hk : k < m.visits.length := lt_of_progress_ne (by rw [hw]; exact fun _ => nofun)
    have hg := isGranted_of_eq hw rfl
    rcases withdraw_run (α := Progress) m.toWorld (m.visit k).writer (m.visit k).name false with
      hx | ⟨x, hx⟩
    · exact .inl (moveVisit_waiting (w := m.toWorld) (by simp [Visit.giveWay, hw, hx]))
    · exact moveVisit_error hk hg (x := .failed x) (by simp [Visit.giveWay, hw, hx])
  by_cases hg : (m.visit k).progress = .granted true
  · have hk : k < m.visits.length := lt_of_progress_ne (by rw [hg]; exact fun _ => nofun)
    rcases withdraw_run (α := Progress) m.toWorld (m.visit k).writer (m.visit k).name true with
      hx | ⟨x, hx⟩
    · exact .inl (moveVisit_waiting (w := m.toWorld) (by simp [Visit.giveWay, hg, hx]))
    · rw [moveVisit_failed (x := x) (w := ⟨m.repository.unlock [(m.visit k).name], m.host⟩)
        (by simp [Visit.giveWay, hg, hx])]
      refine .inr (.lose hk x ?_)
      rw [hg]
      rfl
  exact .inl (moveVisit_giveWay hw hg)

/-! ### Calls that end a writer -/

theorem closing_eq_default (hk : ¬ k < m.closings.length) : m.closing k = default := by
  rw [closing, List.getD_eq_getElem?_getD, List.getElem?_eq_none (by omega)]
  rfl

theorem closing_closingAt (hk : k < m.closings.length) (p : Ending) (j : Nat) :
    (m.closingAt k p).closing j =
      if j = k then { m.closing k with progress := p } else m.closing j := by
  have h : (m.closingAt k p).closing j = if j = k ∧ k < m.closings.length then
      { m.closing k with progress := p } else m.closing j :=
    getD_set m.closings k j { m.closing k with progress := p } default
  simpa only [hk, and_true] using h

/-- Which writer a call ends, and how, stays the same. -/
theorem aim_closingAt (hk : k < m.closings.length) (p : Ending) (j : Nat) :
    ((m.closingAt k p).closing j).writer = (m.closing j).writer ∧
      ((m.closingAt k p).closing j).publishes = (m.closing j).publishes := by
  rw [closing_closingAt hk]
  split
  · rename_i hj
    rw [hj]
    exact ⟨rfl, rfl⟩
  · exact ⟨rfl, rfl⟩

theorem proceed_ok {p : Ending} {w : World} (h : (m.closing k).next.run m.toWorld = .ok p w) :
    m.proceed k = { m with toWorld := w }.settled k p := by
  rw [proceed, h]

theorem proceed_failed {x : Error} {w : World}
    (h : (m.closing k).next.run m.toWorld = .error (.failed x) w) :
    m.proceed k = { m with toWorld := w }.settled k (.ended (.error x)) := by
  rw [proceed, h]

theorem proceed_waiting {w : World} (h : (m.closing k).next.run m.toWorld = .error .waiting w) :
    m.proceed k = m := by
  rw [proceed, h]

theorem settled_ended (answer : Outcome Unit) :
    m.settled k (.ended answer)
      = (m.closingAt k (.ended answer)).note (.closed (m.closing k) answer) := by
  simp only [settled]
  cases (m.closing k).progress <;> rfl

theorem settled_interrupting : m.settled k .interrupting = m.closingAt k .interrupting := by
  simp only [settled]
  cases (m.closing k).progress <;> rfl

theorem settled_published {rest : List Telling} {errors : List Error}
    (hp : (m.closing k).progress = .interrupting) :
    m.settled k (.telling rest errors)
      = (m.closingAt k (.telling rest errors)).note (.published (m.closing k).writer) := by
  simp only [settled, hp]
  rfl

theorem settled_telling {t : Telling} {rest : List Telling} {errors more : List Error}
    (hp : (m.closing k).progress = .telling (t :: rest) errors) :
    m.settled k (.telling rest (errors ++ more))
      = m.closingAt k (.telling rest (errors ++ more)) := by
  simp only [settled, hp]
  rfl

/-- The step of a commit that has ended the waiting of its writer's calls. -/
theorem proceed_commit (hk : k < m.closings.length)
    (hp : (m.closing k).progress = .interrupting) (hc : (m.closing k).publishes = true) :
    m.proceed k = m ∨ ClosingStep m (m.proceed k) := by
  have hx := publish_run m.toWorld (m.closing k).writer
  cases hw : (m.repository.writer (m.closing k).writer).phase with
  | working =>
    rw [hw] at hx
    cases ho : m.repository.closed with
    | true =>
      rw [ho, if_pos rfl] at hx
      rw [proceed_failed (by simp [Closing.next, hp, hc, hx]; exact ⟨rfl, rfl⟩), settled_ended]
      exact .inr (.refuse hk hp hc hw ho)
    | false =>
      rw [ho] at hx
      obtain ⟨rest, host, hx⟩ := hx
      rw [proceed_ok (by simp [Closing.next, hp, hc, hx]; exact ⟨rfl, rfl⟩),
        settled_published (by exact hp)]
      exact .inr (.publish hk hp hc hw ho rest host)
  | committing =>
    rw [hw] at hx
    exact .inl (proceed_waiting (w := m.toWorld) (by simp [Closing.next, hp, hc, hx]))
  | ended =>
    rw [hw] at hx
    rw [proceed_failed (by simp [Closing.next, hp, hc, hx]; exact ⟨rfl, rfl⟩), settled_ended]
    exact .inr (.late hk hp hw)

/-- The step of a cancellation that has ended the waiting of its writer's calls. -/
theorem proceed_cancel (hk : k < m.closings.length)
    (hp : (m.closing k).progress = .interrupting) (hc : (m.closing k).publishes = false) :
    m.proceed k = m ∨ ClosingStep m (m.proceed k) := by
  have hx := dismiss_run m.toWorld (m.closing k).writer
  cases hw : (m.repository.writer (m.closing k).writer).phase with
  | working =>
    rw [hw] at hx
    rw [proceed_ok (by simp [Closing.next, hp, hc, hx]; exact ⟨rfl, rfl⟩), settled_ended]
    exact .inr (.dismiss hk hp hc hw)
  | committing =>
    rw [hw] at hx
    exact .inl (proceed_waiting (w := m.toWorld) (by simp [Closing.next, hp, hc, hx]))
  | ended =>
    rw [hw] at hx
    rw [proceed_failed (by simp [Closing.next, hp, hc, hx]; exact ⟨rfl, rfl⟩), settled_ended]
    exact .inr (.late hk hp hw)

/-- The next step of a call that ends a writer. -/
theorem proceed_cases : m.proceed k = m ∨ ClosingStep m (m.proceed k) := by
  by_cases hk : k < m.closings.length
  swap
  · have hdef := closing_eq_default hk
    refine .inl (proceed_waiting (w := m.toWorld) ?_)
    rw [hdef]
    rfl
  cases hp : (m.closing k).progress with
  | begun =>
    have hx : (m.closing k).next.run m.toWorld = .ok .interrupting
        ⟨m.repository.revise (m.closing k).writer (Writer.interrupted .cancelled), m.host⟩ := by
      simp [Closing.next, hp, interrupt]
    rw [proceed_ok hx]
    rw [settled_interrupting]
    exact .inr (.interrupt hk hp (mild_interrupted .cancelled))
  | interrupting =>
    cases hc : (m.closing k).publishes with
    | true => exact proceed_commit hk hp hc
    | false => exact proceed_cancel hk hp hc
  | telling rest errors =>
    cases rest with
    | nil =>
      have hx := finish_run m.toWorld (m.closing k).writer errors
      have hstep := ClosingStep.finish hk hp
      cases hall : Error.all errors with
      | some x =>
        rw [hall] at hx
        rw [proceed_failed (by simp [Closing.next, hp, hx]; exact ⟨rfl, rfl⟩), settled_ended]
        rw [verdict, hall] at hstep
        exact .inr hstep
      | none =>
        rw [hall] at hx
        rw [proceed_ok (by simp [Closing.next, hp, hx]; exact ⟨rfl, rfl⟩), settled_ended]
        rw [verdict, hall] at hstep
        exact .inr hstep
    | cons t rest =>
      obtain ⟨more, host, hx, hm⟩ := tell_run m.toWorld (m.closing k).writer t
      rw [proceed_ok (by simp [Closing.next, hp, hx]; exact ⟨rfl, rfl⟩),
        settled_telling (by exact hp)]
      exact .inr (.tell hk hp hm host)
  | ended a => exact .inl (proceed_waiting (w := m.toWorld) (by simp [Closing.next, hp]))

/-! ### Moves -/

/-- **Every move** leaves the machine as it is or is one of the steps. -/
theorem step_cases (m : Machine) (move : Move) :
    m.step move = m ∨ RequestStep m (m.step move) ∨ VisitStep m (m.step move)
      ∨ ClosingStep m (m.step move) := by
  cases move with
  | ask r =>
    rw [step]
    split
    · rename_i hr
      exact (answer_cases hr).imp_right .inl
    · exact .inl rfl
  | visit writer name deletes => exact .inr (.inr (.inl (.begin rfl)))
  | advance k => exact advance_cases _ |>.imp_right (.inr ∘ .inl)
  | giveWay k => exact giveWay_cases.imp_right (.inr ∘ .inl)
  | close writer publishes => exact .inr (.inr (.inr (.begin rfl)))
  | proceed k => exact proceed_cases.imp_right (.inr ∘ .inr)

/-- What every step keeps holds after all moves if it holds before them. -/
theorem run_of_step {P : Machine → Prop} (hstep : ∀ {m}, P m → ∀ move, P (m.step move))
    {m : Machine} (h : P m) (moves : List Move) : P (m.run moves) := by
  induction moves generalizing m with
  | nil => exact h
  | cons move moves ih => exact ih (hstep h move)

/-- The same with one case for each kind of step. -/
theorem run_induction {P : Machine → Prop}
    (request : ∀ {m m'}, P m → RequestStep m m' → P m')
    (visit : ∀ {m m'}, P m → VisitStep m m' → P m')
    (closing : ∀ {m m'}, P m → ClosingStep m m' → P m')
    (m : Machine) (h : P m) (moves : List Move) : P (m.run moves) := by
  refine run_of_step (fun {m} h move => ?_) h moves
  rcases step_cases m move with he | hs | hs | hs
  · rw [he]
    exact h
  · exact request h hs
  · exact visit h hs
  · exact closing h hs

end Machine

end TripleStore
