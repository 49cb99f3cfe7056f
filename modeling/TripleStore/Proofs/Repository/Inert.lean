import TripleStore.Proofs.Repository.Calls
import TripleStore.Proofs.Repository.Isolation

/-!
# Transactions that are over

A transaction that was committed or cancelled stays at its end, and its calls wait for no lock.  All
that is asked of it or of a collection that it opened is declined, and changes nothing; a call in
several steps may have to wait for its turn behind earlier calls of the same writer, but these come
to their end as well.

* `Repository.Onward`: what is over stays over, with one lemma for each kind of step.
* `Machine.over_of_ended`: **a writer is over once a call that ends it has answered**, whatever the
  answer.
* `Machine.Declines`, `Machine.VisitFails`, `Machine.ClosingFails`: requests and calls that come to
  nothing.
* `Machine.over_is_inert`: **nothing can be done with a transaction that is over**.
-/

namespace TripleStore

open Repository

/-! ### What is over stays over -/

/-- The calls of a writer that waits no longer do not wait again, and an end is final. -/
structure Writer.Onward (w w' : Writer) : Prop where
  interrupted : w.interruption.isSome → w'.interruption.isSome
  ended : w.phase = .ended → w'.phase = .ended

/-- From one state of a repository to a later one, no transaction is lost, and what is over stays
over. -/
structure Repository.Onward (s s' : Repository) : Prop where
  readers : s.readers.length ≤ s'.readers.length
  reader : ∀ id < s.readers.length, (s.reader id).closed = true → (s'.reader id).closed = true
  writers : s.writers.length ≤ s'.writers.length
  writer : ∀ id < s.writers.length, (s.writer id).Onward (s'.writer id)

namespace Repository.Onward

variable {s s' s'' : Repository}

theorem refl (s : Repository) : s.Onward s := ⟨le_rfl, fun _ _ => id, le_rfl, fun _ _ => ⟨id, id⟩⟩

theorem trans (h : s.Onward s') (h' : s'.Onward s'') : s.Onward s'' := by
  refine ⟨h.readers.trans h'.readers, fun id hid hc => ?_, h.writers.trans h'.writers,
    fun id hid => ⟨fun hi => ?_, fun he => ?_⟩⟩
  · exact h'.reader id (hid.trans_le h.readers) (h.reader id hid hc)
  · exact (h'.writer id (hid.trans_le h.writers)).interrupted ((h.writer id hid).interrupted hi)
  · exact (h'.writer id (hid.trans_le h.writers)).ended ((h.writer id hid).ended he)

theorem of_eq (hr : s'.readers = s.readers) (hw : s'.writers = s.writers) : s.Onward s' := by
  refine ⟨hr ▸ le_rfl, fun id _ => ?_, hw ▸ le_rfl, fun id _ => ?_⟩
  · rw [Repository.reader, Repository.reader, hr]
    exact fun hc => hc
  · rw [Repository.writer, Repository.writer, hw]
    exact ⟨fun hi => hi, fun he => he⟩

theorem revise (s : Repository) (id : Nat) {f : Writer → Writer}
    (hf : (s.writer id).Onward (f (s.writer id))) : s.Onward (s.revise id f) := by
  refine ⟨le_rfl, fun _ _ hc => hc, (length_writers_revise s id f).ge, fun j _ => ?_⟩
  rw [writer_revise]
  split
  · rename_i hj
    rw [hj.1]
    exact hf
  · exact ⟨fun hi => hi, fun he => he⟩

theorem mild (s : Repository) (id : Nat) {f : Writer → Writer} (hf : Mild f) :
    s.Onward (s.revise id f) := by
  obtain ⟨hp, -, -, -, hi⟩ := hf (s.writer id)
  exact revise s id ⟨hi, fun he => hp.trans he⟩

theorem concluding (s : Repository) (id : Nat) : s.Onward (s.concluding id) :=
  (revise s id (f := fun w => { w with phase := .ended, held := [] })
    ⟨fun hi => hi, fun _ => rfl⟩).trans (of_eq rfl rfl)

theorem addReader (s : Repository) (r : Reader) : s.Onward (s.addReader r) := by
  refine ⟨?_, fun id hid hc => ?_, le_rfl, fun _ _ => ⟨fun hi => hi, fun he => he⟩⟩
  · show s.readers.length ≤ (s.readers ++ [r]).length
    simp
  · rw [reader_addReader, if_neg (Nat.ne_of_lt hid)]
    exact hc

theorem addWriter (s : Repository) (w : Writer) : s.Onward (s.addWriter w) := by
  refine ⟨le_rfl, fun _ _ hc => hc, ?_, fun id hid => ?_⟩
  · show s.writers.length ≤ (s.writers ++ [w]).length
    simp
  · rw [writer_addWriter, if_neg (Nat.ne_of_lt hid)]
    exact ⟨fun hi => hi, fun he => he⟩

theorem cancel (s : Repository) (id : Nat) : s.Onward (s.putReader id { closed := true }) := by
  refine ⟨List.length_set.ge, fun j _ hc => ?_, le_rfl, fun _ _ => ⟨fun hi => hi, fun he => he⟩⟩
  rw [reader_putReader]
  split
  · rfl
  · exact hc

variable {m m' : Machine}

theorem request (hs : RequestStep m m') : m.repository.Onward m'.repository := by
  cases hs with
  | quiet he => exact refl _
  | read he => exact addReader _ _
  | write he patience => exact addWriter _ _
  | close he host => exact of_eq rfl rfl
  | patience he id hf => exact mild _ id hf
  | cancel id => exact cancel _ id
  | collection he ho hl => exact refl _
  | search he p ho => exact refl _
  | found he l => exact refl _
  | copies he p hw => exact of_eq rfl rfl
  | edit he hh hw host => exact of_eq rfl rfl

theorem visit (hs : VisitStep m m') : m.repository.Onward m'.repository := by
  cases hs with
  | begin hv => exact refl _
  | move hk hg hp he => exact refl _
  | fail hk x hg => exact refl _
  | grant hk waited hg hl => exact of_eq rfl rfl
  | lose hk x hg => exact of_eq rfl rfl
  | keep hk hg hw => exact revise _ _ ⟨fun hi => hi, fun he => he⟩
  | reopen hk hg hw hl => exact refl _
  | @stage k hk hg hw hl =>
    exact (revise _ _ (f := Writer.opening (m.visit k).name m.repository.stores.length)
      ⟨fun hi => hi, fun he => he⟩).trans (of_eq rfl rfl)
  | unstage hk hg hw => exact revise _ _ ⟨fun hi => hi, fun he => he⟩

theorem closing (hs : ClosingStep m m') : m.repository.Onward m'.repository := by
  cases hs with
  | begin hc => exact refl _
  | interrupt hk hp hf => exact mild _ _ hf
  | @publish k hk hp hc hw ho rest host =>
    refine (revise _ _ (f := fun w => { w with phase := .committing })
      ⟨fun hi => hi, fun he => ?_⟩).trans (of_eq rfl rfl)
    rw [hw] at he
    exact Phase.noConfusion he
  | refuse hk hp hc hw ho => exact concluding _ _
  | @dismiss k hk hp hc hw =>
    exact (revise _ _ (f := fun w => { w with staged := [], deleted := [] })
      ⟨fun hi => hi, fun he => he⟩).trans (concluding _ _)
  | late hk hp hw => exact refl _
  | tell hk hp hm host => exact refl _
  | finish hk hp => exact concluding _ _

theorem step (m : Machine) (move : Move) : m.repository.Onward (m.step move).repository := by
  rcases Machine.step_cases m move with he | hs | hs | hs
  · rw [he]
    exact refl _
  · exact request hs
  · exact visit hs
  · exact closing hs

/-- **What is over stays over**, whatever callers do. -/
theorem run (m : Machine) (moves : List Move) : m.repository.Onward (m.run moves).repository := by
  induction moves generalizing m with
  | nil => exact refl _
  | cons move moves ih => exact (step m move).trans (ih (m.step move))

end Repository.Onward

/-! ### The end of a writer -/

/-- A writer is over: it was begun, it has ended, and its calls do not wait for locks. -/
structure Machine.Over (m : Machine) (id : Nat) : Prop where
  begun : id < m.repository.writers.length
  ended : (m.repository.writer id).phase = .ended
  interrupted : (m.repository.writer id).interruption.isSome

theorem Machine.Over.run {m : Machine} {id : Nat} (h : m.Over id) (moves : List Move) :
    (m.run moves).Over id := by
  have ho := Repository.Onward.run m moves
  exact ⟨h.begun.trans_le ho.writers, (ho.writer id h.begun).ended h.ended,
    (ho.writer id h.begun).interrupted h.interrupted⟩

/-- A call that ends a writer is over only when the writer is. -/
theorem Closing.ended_of_next (c : Closing) (w : World) :
    match c.next.run w with
    | .ok (.ended _) w' => (w'.repository.writer c.writer).phase = .ended
    | .error (.failed _) w' => c.progress ≠ .begun → (w'.repository.writer c.writer).phase = .ended
    | _ => True := by
  have hconcluding : ((w.repository.concluding c.writer).writer c.writer).phase = .ended := by
    rw [phase_concluding, if_pos rfl]
  cases hp : c.progress with
  | begun => simp [Closing.next, hp, interrupt]
  | interrupting =>
    have hpub := publish_run w c.writer
    have hdis := dismiss_run w c.writer
    cases hw : (w.repository.writer c.writer).phase with
    | working =>
      rw [hw] at hpub hdis
      cases hc : c.publishes with
      | true =>
        cases ho : w.repository.closed with
        | true =>
          rw [ho, if_pos rfl] at hpub
          simpa [Closing.next, hp, hc, hpub] using hconcluding
        | false =>
          rw [ho] at hpub
          obtain ⟨rest, host, hpub⟩ := hpub
          simp [Closing.next, hp, hc, hpub]
      | false =>
        simp [Closing.next, hp, hc, hdis, phase_discarding]
    | committing =>
      rw [hw] at hpub hdis
      cases hc : c.publishes <;> simp [Closing.next, hp, hc, hpub, hdis]
    | ended =>
      rw [hw] at hpub hdis
      cases hc : c.publishes <;> simp [Closing.next, hp, hc, hpub, hdis, hw]
  | telling rest errors =>
    cases rest with
    | nil =>
      have hfin := finish_run w c.writer errors
      cases hall : Error.all errors with
      | some x =>
        rw [hall] at hfin
        simpa [Closing.next, hp, hfin] using hconcluding
      | none =>
        rw [hall] at hfin
        simpa [Closing.next, hp, hfin] using hconcluding
    | cons t rest =>
      obtain ⟨told, host, hx, -⟩ := tell_run w c.writer t
      simp [Closing.next, hp, hx]
  | ended answer => simp [Closing.next, hp]

/-- How far a call that ends a writer has come: it has not begun, or the calls of the writer no
longer wait; and if it has answered, the writer is over. -/
structure Machine.Ends (m : Machine) (id k : Nat) : Prop where
  known : id < m.repository.writers.length
  begun : k < m.closings.length
  writer : (m.closing k).writer = id
  interrupted : (m.closing k).progress = .begun ∨ (m.repository.writer id).interruption.isSome
  ended : ∀ answer, (m.closing k).progress = .ended answer →
    (m.repository.writer id).phase = .ended

namespace Machine.Ends

variable {m : Machine} {id k : Nat}

/-- The first step of the call ends the waiting of the writer's calls. -/
theorem interrupted_proceed (h : m.Ends id k) :
    ((m.proceed k).repository.writer id).interruption.isSome := by
  rcases h.interrupted with hp | hi
  · have hat : m.At k (m.closing k) m.toWorld := ⟨h.begun, rfl, rfl⟩
    have hx : (m.closing k).next.run m.toWorld = .ok .interrupting
        ⟨m.repository.revise id (Writer.interrupted .cancelled), m.host⟩ := by
      simp [Closing.next, hp, interrupt, h.writer]
    rw [(hat.ok hx).world, writer_revise_of_lt h.known, if_pos rfl]
    show (((m.repository.writer id).interruption).or (some Error.cancelled)).isSome
    simp
  · exact ((Repository.Onward.step m (.proceed k)).writer id h.known).interrupted hi

/-- Its own step brings the call further. -/
theorem proceed (h : m.Ends id k) : (m.proceed k).Ends id k := by
  have hat : m.At k (m.closing k) m.toWorld := ⟨h.begun, rfl, rfl⟩
  have hon : m.repository.Onward (m.proceed k).repository := .step m (.proceed k)
  have hknown := h.known.trans_le hon.writers
  have hnext := (m.closing k).ended_of_next m.toWorld
  rw [h.writer] at hnext
  cases hrun : (m.closing k).next.run m.toWorld with
  | ok p w =>
    have hat' := hat.ok hrun
    refine ⟨hknown, hat'.begun, by rw [hat'.call]; exact h.writer, .inr h.interrupted_proceed,
      fun answer hp => ?_⟩
    rw [hat'.call] at hp
    rw [hrun, show p = .ended answer from hp] at hnext
    rw [hat'.world]
    exact hnext
  | error x w =>
    cases x with
    | waiting => rwa [proceed_waiting hrun]
    | failed x =>
      have hat' := hat.failed hrun
      refine ⟨hknown, hat'.begun, by rw [hat'.call]; exact h.writer, .inr h.interrupted_proceed,
        fun answer _ => ?_⟩
      rw [hrun] at hnext
      rw [hat'.world]
      refine hnext fun hp => ?_
      -- the first step of the call never fails
      rw [Closing.next, hp] at hrun
      cases hrun

theorem step (h : m.Ends id k) (move : Move) : (m.step move).Ends id k := by
  by_cases hm : move = .proceed k
  · rw [hm]
    exact h.proceed
  have hon : m.repository.Onward (m.step move).repository := .step m move
  have hsame := closing_step h.begun hm
  refine ⟨h.known.trans_le hon.writers, h.begun.trans_le (length_closings_step m move), ?_, ?_, ?_⟩
  · rw [hsame]
    exact h.writer
  · rw [hsame]
    exact h.interrupted.imp_right (hon.writer id h.known).interrupted
  · rw [hsame]
    exact fun answer hp => (hon.writer id h.known).ended (h.ended answer hp)

theorem run (h : m.Ends id k) (moves : List Move) : (m.run moves).Ends id k :=
  run_of_step (P := fun m => m.Ends id k) step h moves

theorem close (hid : id < m.repository.writers.length) (publishes : Bool) :
    (m.step (.close id publishes)).Ends id m.closings.length := by
  have hat := At.close m id publishes
  refine ⟨hid, hat.begun, ?_, .inl ?_, fun answer hp => ?_⟩
  · rw [hat.call]
  · rw [hat.call]
  · rw [hat.call] at hp
    cases hp

end Machine.Ends

/-- **A writer is over once a call that ends it has answered**, whatever the answer. -/
theorem Machine.over_of_ended {m : Machine} {id : Nat} (hid : id < m.repository.writers.length)
    (publishes : Bool) (later : List Move) {answer : Outcome Unit}
    (ha : (((m.step (.close id publishes)).run later).closing m.closings.length).progress
      = .ended answer) : ((m.step (.close id publishes)).run later).Over id := by
  have h := (Ends.close hid publishes).run later
  refine ⟨h.known, h.ended answer ha, h.interrupted.resolve_left fun hp => ?_⟩
  rw [ha] at hp
  cases hp

/-! ### Requests -/

/-- Whether a request asks something of a writer or of a collection that it opened. -/
def Request.isWriting (id : Nat) : Request → Bool
  | .writerCollections i => i = id
  | .writerMatch i _ => i = id
  | .inquire (.writing h) _ => h.writer = id
  | .edit h _ => h.writer = id
  | _ => false

/-- A request is declined: the answer is that the transaction is closed, and that is all that
happens. -/
structure Machine.Declines (m : Machine) (r : Request) : Prop where
  reply : r.reply m.toWorld = some (.error .transactionClosed)
  step : r.isFounded m.handles m.sequences →
    m.step (.ask r) = m.note (.answered r (.error .transactionClosed))

namespace Machine

variable {m : Machine} {id : Nat}

theorem declines_of_run {r : Request}
    (h : r.act.run m.toWorld = .error (.failed .transactionClosed) m.toWorld) : m.Declines r := by
  refine ⟨by rw [Request.reply, h], fun hr => ?_⟩
  rw [step_ask hr, answer, h]

/-- A reader that is over declines everything. -/
theorem declines_of_closed (h : (m.repository.reader id).closed = true) {r : Request}
    (hr : r.isReading id ∨ r = .cancelReader id) : m.Declines r := by
  refine declines_of_run ?_
  rcases hr with hr | rfl
  · rcases Request.isReading_cases hr with rfl | ⟨name, rfl⟩ | ⟨p, rfl⟩ | ⟨x, q, rfl, rfl⟩
    · simp [Request.act, readerCollections_run, h]
    · simp [Request.act, readerCollection_run, h]
    · simp [Request.act, readerMatch_run, h]
    · simp [Request.act, Inquiry.act_run, enter_reading_run, h]
  · simp [Request.act, cancelReader_run, h]

/-- A reader is over once it was cancelled, whatever the answer. -/
theorem closed_cancelReader (hid : id < m.repository.readers.length) :
    ((m.step (.ask (.cancelReader id))).repository.reader id).closed = true := by
  rw [step_ask rfl]
  have hx := cancelReader_run m.toWorld id
  cases hc : (m.repository.reader id).closed with
  | true =>
    have hd := (declines_of_closed hc (r := .cancelReader id) (.inr rfl)).step rfl
    rw [step_ask rfl] at hd
    rw [hd]
    exact hc
  | false =>
    rw [answer_ok (by simp [Request.act, hx, hc]; exact ⟨rfl, rfl⟩)]
    show ((m.repository.putReader id { closed := true }).reader id).closed = true
    rw [reader_putReader, if_pos ⟨rfl, hid⟩]

/-- A writer that is over declines everything, whatever the arguments. -/
theorem Over.declines (h : m.Over id) {r : Request} (hr : r.isWriting id) : m.Declines r := by
  have hopen := openWriter_run m.toWorld id
  rw [h.ended] at hopen
  have henter : ∀ x : WriteHandle, x.writer = id →
      (enter (.writing x)).run m.toWorld = .error (.failed .transactionClosed) m.toWorld := by
    intro x hx
    rw [enter_writing_run, hx, h.ended]
  refine declines_of_run ?_
  cases r with
  | writerCollections i =>
    obtain rfl : i = id := of_decide_eq_true hr
    simp [Request.act, writerCollections, hopen]
  | writerMatch i p =>
    obtain rfl : i = id := of_decide_eq_true hr
    simp [Request.act, writerMatch, hopen]
  | inquire x q =>
    cases x with
    | reading x => cases hr
    | writing x => rw [Request.act, Inquiry.act_run, henter x (of_decide_eq_true hr)]
  | edit x e =>
    have hx := henter x (of_decide_eq_true hr)
    cases e <;> simp [Request.act, Edit.act, addStatement, removeStatement,
      Repository.removeSubject, Repository.newEntity, mergeGraph, graphOf_run, hx]
  | _ => cases hr

end Machine

/-! ### Calls that end a writer once more -/

/-- From one machine to the other, only calls and the history have changed. -/
structure Machine.SameWorld (m m' : Machine) : Prop where
  world : m'.toWorld = m.toWorld
  handles : m'.handles = m.handles
  sequences : m'.sequences = m.sequences

theorem Machine.SameWorld.refl (m : Machine) : m.SameWorld m := ⟨rfl, rfl, rfl⟩

/-- How far a call can come that ends a writer which is over. -/
inductive Ending.Futile : Ending → Prop
  | begun : Futile .begun
  | interrupting : Futile .interrupting
  | refused : Futile (.ended (.error .transactionClosed))

/-- A call that ends a writer comes to nothing: its steps change nothing, and two of them bring it
to the answer that the transaction is closed. -/
structure Machine.ClosingFails (m : Machine) (k : Nat) : Prop where
  futile : (m.closing k).progress.Futile
  idle : m.SameWorld (m.step (.proceed k))
  ends : ((m.run [.proceed k, .proceed k]).closing k).progress = .ended (.error .transactionClosed)

/-- A call that ends a writer was begun when the writer was over. -/
structure Machine.ClosingLate (m : Machine) (id k : Nat) : Prop where
  finished : m.Over id
  begun : k < m.closings.length
  writer : (m.closing k).writer = id
  futile : (m.closing k).progress.Futile

namespace Machine

variable {m : Machine} {id k : Nat}

/-- The calls of a writer that is over wait no less when they are told so again. -/
theorem Over.revise_interrupted (h : m.Over id) (e : Error) :
    m.repository.revise id (Writer.interrupted e) = m.repository := by
  obtain ⟨x, hx⟩ := Option.isSome_iff_exists.mp h.interrupted
  have hsame : (m.repository.writer id).interrupted e = m.repository.writer id := by
    show ({ m.repository.writer id with
      interruption := (m.repository.writer id).interruption.or (some e) } : Writer) = _
    rw [hx, Option.some_or, ← hx]
  have hset : m.repository.writers.set id (m.repository.writer id) = m.repository.writers := by
    rw [Repository.writer, List.getD_eq_getElem?_getD, List.getElem?_eq_getElem h.begun,
      Option.getD_some, List.set_getElem_self]
  rw [revise, hsame, hset]

namespace ClosingLate

theorem proceed_begun (h : m.ClosingLate id k) (hp : (m.closing k).progress = .begun) :
    m.proceed k = m.closingAt k .interrupting := by
  have hx : (m.closing k).next.run m.toWorld = .ok .interrupting m.toWorld := by
    simp [Closing.next, hp, interrupt, h.writer, h.finished.revise_interrupted]
  rw [proceed_ok hx, settled_interrupting]

theorem proceed_interrupting (h : m.ClosingLate id k)
    (hp : (m.closing k).progress = .interrupting) :
    m.proceed k = (m.closingAt k (.ended (.error .transactionClosed))).note
      (.closed (m.closing k) (.error .transactionClosed)) := by
  have hpub := publish_run m.toWorld id
  have hdis := dismiss_run m.toWorld id
  rw [h.finished.ended] at hpub hdis
  have hx : (m.closing k).next.run m.toWorld
      = .error (.failed .transactionClosed) m.toWorld := by
    cases hc : (m.closing k).publishes <;>
      simp [Closing.next, hp, hc, h.writer, hpub, hdis]
  rw [proceed_failed hx, settled_ended]

theorem proceed_ended {answer : Outcome Unit} (hp : (m.closing k).progress = .ended answer) :
    m.proceed k = m :=
  proceed_waiting (w := m.toWorld) (by simp [Closing.next, hp])

/-- Its own step brings the call further and changes nothing else. -/
theorem proceed (h : m.ClosingLate id k) :
    m.SameWorld (m.proceed k) ∧ (m.proceed k).ClosingLate id k := by
  have hover : (m.proceed k).Over id := h.finished.run [.proceed k]
  have hstay : ∀ {m' : Machine} {p : Ending}, p.Futile → m'.Over id → m'.closings
      = (m.closingAt k p).closings → m'.ClosingLate id k := by
    intro m' p hp hover hc
    have hcall : m'.closing k = { m.closing k with progress := p } := by
      rw [closing, hc]
      exact (closing_closingAt h.begun p k).trans (if_pos rfl)
    refine ⟨hover, ?_, by rw [hcall]; exact h.writer, by rw [hcall]; exact hp⟩
    rw [hc]
    exact h.begun.trans_eq List.length_set.symm
  cases hp : (m.closing k).progress with
  | begun =>
    have hstep := h.proceed_begun hp
    rw [hstep] at hover ⊢
    exact ⟨⟨rfl, rfl, rfl⟩, hstay .interrupting hover rfl⟩
  | interrupting =>
    have hstep := h.proceed_interrupting hp
    rw [hstep] at hover ⊢
    exact ⟨⟨rfl, rfl, rfl⟩, hstay .refused hover rfl⟩
  | telling rest errors =>
    have hf := h.futile
    rw [hp] at hf
    cases hf
  | ended answer =>
    rw [proceed_ended hp]
    exact ⟨.refl m, h⟩

theorem step (h : m.ClosingLate id k) (move : Move) : (m.step move).ClosingLate id k := by
  by_cases hm : move = .proceed k
  · rw [hm]
    exact h.proceed.2
  have hsame := closing_step h.begun hm
  refine ⟨h.finished.run [move], h.begun.trans_le (length_closings_step m move), ?_, ?_⟩
  · rw [hsame]
    exact h.writer
  · rw [hsame]
    exact h.futile

theorem run (h : m.ClosingLate id k) (moves : List Move) : (m.run moves).ClosingLate id k :=
  run_of_step (P := fun m => m.ClosingLate id k) step h moves

theorem close (h : m.Over id) (publishes : Bool) :
    (m.step (.close id publishes)).ClosingLate id m.closings.length := by
  have hat := At.close m id publishes
  refine ⟨h.run [.close id publishes], hat.begun, ?_, ?_⟩
  · rw [hat.call]
  · rw [hat.call]
    exact .begun

/-- From the second step on, the call has its answer. -/
theorem ends_of_interrupting (h : m.ClosingLate id k) (hp : (m.closing k).progress ≠ .begun) :
    ((m.proceed k).closing k).progress = .ended (.error .transactionClosed) := by
  have hf := h.futile
  cases hq : (m.closing k).progress with
  | begun => exact absurd hq hp
  | interrupting =>
    rw [h.proceed_interrupting hq]
    show ((m.closingAt k _).closing k).progress = _
    rw [closing_closingAt h.begun, if_pos rfl]
  | telling rest errors =>
    rw [hq] at hf
    cases hf
  | ended answer =>
    rw [proceed_ended hq, hq]
    rw [hq] at hf
    cases hf
    rfl

theorem fails (h : m.ClosingLate id k) : m.ClosingFails k := by
  refine ⟨h.futile, h.proceed.1, ?_⟩
  show (((m.proceed k).proceed k).closing k).progress = _
  refine h.proceed.2.ends_of_interrupting ?_
  by_cases hp : (m.closing k).progress = .begun
  · rw [h.proceed_begun hp, closing_closingAt h.begun, if_pos rfl]
    exact Ending.noConfusion
  · rw [h.ends_of_interrupting hp]
    exact Ending.noConfusion

end ClosingLate

end Machine

/-! ### Calls that lock a collection -/

/-- How far a call can come that locks a collection of a writer which is over. -/
inductive Progress.Futile : Progress → Prop
  | begun : Futile .begun
  | queued : Futile .queued
  | refused : Futile (.ended (.error .transactionClosed))

/-- A move of a call of a writer that locks a collection. -/
def Machine.IsOwn (m : Machine) (id : Nat) (move : Move) : Prop :=
  ∃ i, (m.visit i).writer = id ∧ move.isOfVisit i

/-- A call that locks a collection of a writer comes to nothing: its steps change nothing, and steps
of calls of its writer bring it to the answer that the transaction is closed. -/
structure Machine.VisitFails (m : Machine) (id k : Nat) : Prop where
  futile : (m.visit k).progress.Futile
  idle : ∀ move : Move, move.isOfVisit k → m.SameWorld (m.step move)
  ends : ∃ own : List Move, (∀ move ∈ own, m.IsOwn id move) ∧
    ((m.run own).visit k).progress = .ended (.error .transactionClosed)

/-- A call that locks a collection was begun when the writer was over. -/
structure Machine.VisitLate (m : Machine) (id k : Nat) : Prop where
  finished : m.Over id
  begun : k < m.visits.length
  writer : (m.visit k).writer = id
  futile : (m.visit k).progress.Futile

namespace Machine

variable {m : Machine} {id k : Nat}

/-! #### Earlier calls -/

theorem visit_moveVisit_ok (hk : k < m.visits.length) {step : Action Progress} {p : Progress}
    {w : World} (hx : step.run m.toWorld = .ok p w) :
    (m.moveVisit k step).visit k = { m.visit k with progress := p } := by
  rw [moveVisit_ok hx, visit, (reached_eq { m with toWorld := w } k p).2.2, getD_set,
    if_pos ⟨rfl, hk⟩]
  rfl

theorem visit_moveVisit_failed (hk : k < m.visits.length) {step : Action Progress} {x : Error}
    {w : World} (hx : step.run m.toWorld = .error (.failed x) w) :
    (m.moveVisit k step).visit k = { m.visit k with progress := .ended (.error x) } := by
  rw [moveVisit_failed hx, visit, (reached_eq { m with toWorld := w } k _).2.2, getD_set,
    if_pos ⟨rfl, hk⟩]
  rfl

/-- The moves of one call leave the others as they are. -/
theorem run_of_visit (m : Machine) {own : List Move} (hown : ∀ move ∈ own, move.isOfVisit k) :
    (m.run own).visits.length = m.visits.length ∧
      (∀ j, ((m.run own).visit j).writer = (m.visit j).writer) ∧
      ∀ j ≠ k, (m.run own).visit j = m.visit j := by
  induction own generalizing m with
  | nil => exact ⟨rfl, fun _ => rfl, fun _ _ => rfl⟩
  | cons move own ih =>
    have hstep : ∃ action, m.step move = m.moveVisit k action := by
      have hm := hown move List.mem_cons_self
      cases move with
      | advance i =>
        obtain rfl : i = k := of_decide_eq_true hm
        exact ⟨_, rfl⟩
      | giveWay i =>
        obtain rfl : i = k := of_decide_eq_true hm
        exact ⟨_, rfl⟩
      | _ => cases hm
    obtain ⟨action, hstep⟩ := hstep
    obtain ⟨-, hlen, hwriter, hother⟩ := moveVisit_calls m k action
    obtain ⟨hlen', hwriter', hother'⟩ :=
      ih (m.step move) fun move hm => hown move (List.mem_cons_of_mem _ hm)
    have hrun : m.run (move :: own) = (m.moveVisit k action).run own := by
      rw [← hstep]
      rfl
    rw [hstep] at hlen' hwriter' hother'
    rw [hrun]
    exact ⟨hlen'.trans hlen, fun j => (hwriter' j).trans (hwriter j),
      fun j hj => (hother' j hj).trans (hother j hj)⟩

/-- A lock that was taken for a writer that is over is given back. -/
theorem Over.advance_granted (h : m.Over id) (hk : k < m.visits.length)
    (hw : (m.visit k).writer = id) {waited : Bool} (hp : (m.visit k).progress = .granted waited) :
    ((m.step (.advance k)).visit k).progress = .ended (.error .transactionClosed) := by
  have hx := keep_run m.toWorld id (m.visit k).name
  rw [h.ended] at hx
  have hrun : ((m.visit k).next (m.mayAsk (m.visit k).writer)).run m.toWorld
      = .error (.failed .transactionClosed)
        ⟨m.repository.unlock [(m.visit k).name], m.host⟩ := by
    simp [Visit.next, hp, hw, hx]
  rw [step, visit_moveVisit_failed hk hrun]

/-- A call that waits for a lock gives way when its writer is over. -/
theorem Over.giveWay_waiting (h : m.Over id) (hk : k < m.visits.length)
    (hw : (m.visit k).writer = id) (hp : (m.visit k).progress = .waiting) :
    ∃ x, ((m.step (.giveWay k)).visit k).progress = .ended (.error x) := by
  obtain ⟨e, he⟩ := Option.isSome_iff_exists.mp h.interrupted
  have hrun : (m.visit k).giveWay.run m.toWorld
      = .error (.failed (withdrawal (m.repository.writer id) (m.visit k).name e)) m.toWorld := by
    simp [Visit.giveWay, hp, hw, withdraw, he]
  exact ⟨_, by rw [step, visit_moveVisit_failed hk hrun]⟩

/-- A call that asks for a lock gets it or waits for it. -/
theorem advance_asks (hk : k < m.visits.length) (hp : (m.visit k).progress = .asking) :
    ((m.step (.advance k)).visit k).progress = .waiting ∨
      ((m.step (.advance k)).visit k).progress = .granted false := by
  have hx := take_run m.toWorld (m.visit k).name
  by_cases hl : (m.visit k).name ∈ m.repository.locked
  · have hrun : ((m.visit k).next (m.mayAsk (m.visit k).writer)).run m.toWorld
        = .ok .waiting m.toWorld := by
      simp [Visit.next, hp, hx, hl]
    exact .inl (by rw [step, visit_moveVisit_ok hk hrun])
  · have hrun : ((m.visit k).next (m.mayAsk (m.visit k).writer)).run m.toWorld
        = .ok (.granted false) ⟨m.repository.lock (m.visit k).name, m.host⟩ := by
      simp [Visit.next, hp, hx, hl]
    exact .inr (by rw [step, visit_moveVisit_ok hk hrun])

/-- **A call of a writer that is over does not ask for its lock for ever.** -/
theorem Over.exists_settled (h : m.Over id) (hk : k < m.visits.length)
    (hw : (m.visit k).writer = id) :
    ∃ own : List Move, (∀ move ∈ own, move.isOfVisit k) ∧
      ((m.run own).visit k).progress.asks = false := by
  have hgranted : ∀ {m : Machine} {waited : Bool}, m.Over id → k < m.visits.length →
      (m.visit k).writer = id → (m.visit k).progress = .granted waited →
        ((m.run [.advance k]).visit k).progress.asks = false := by
    intro m waited h hk hw hp
    show ((m.step (.advance k)).visit k).progress.asks = false
    rw [h.advance_granted hk hw hp]
    rfl
  have hwaiting : ∀ {m : Machine}, m.Over id → k < m.visits.length → (m.visit k).writer = id →
      (m.visit k).progress = .waiting → ((m.run [.giveWay k]).visit k).progress.asks = false := by
    intro m h hk hw hp
    obtain ⟨x, hx⟩ := h.giveWay_waiting hk hw hp
    show ((m.step (.giveWay k)).visit k).progress.asks = false
    rw [hx]
    rfl
  cases hp : (m.visit k).progress with
  | asking =>
    have hown : ∀ move ∈ [Move.advance k], move.isOfVisit k := by simp [Move.isOfVisit]
    obtain ⟨hlen, hwriter, -⟩ := m.run_of_visit hown
    have h' := h.run [.advance k]
    have hk' := hk.trans_eq hlen.symm
    have hw' := (hwriter k).trans hw
    rcases advance_asks hk hp with hp' | hp'
    · exact ⟨[.advance k, .giveWay k], by simp [Move.isOfVisit], hwaiting h' hk' hw' hp'⟩
    · exact ⟨[.advance k, .advance k], by simp [Move.isOfVisit], hgranted h' hk' hw' hp'⟩
  | waiting =>
    exact ⟨[.giveWay k], by simp [Move.isOfVisit], hwaiting h hk hw hp⟩
  | granted waited =>
    exact ⟨[.advance k], by simp [Move.isOfVisit], hgranted h hk hw hp⟩
  | _ =>
    refine ⟨[], by simp, ?_⟩
    show (m.visit k).progress.asks = false
    rw [hp]
    rfl

/-- The calls of a writer that is over come to their ends one after the other. -/
theorem Over.exists_settled_below (h : m.Over id) {n : Nat} (hn : n ≤ m.visits.length) :
    ∃ own : List Move, (∀ move ∈ own, m.IsOwn id move) ∧
      (m.run own).visits.length = m.visits.length ∧
      (∀ j, ((m.run own).visit j).writer = (m.visit j).writer) ∧
      ∀ j < n, (m.visit j).writer = id → ((m.run own).visit j).progress.asks = false := by
  induction n with
  | zero => exact ⟨[], by simp, rfl, fun _ => rfl, fun j hj => absurd hj (by omega)⟩
  | succ n ih =>
    obtain ⟨own, hown, hlen, hwriter, hdone⟩ := ih (by omega)
    by_cases hw : (m.visit n).writer = id
    · obtain ⟨more, hmore, hsettled⟩ := (h.run own).exists_settled (k := n) (by omega)
        ((hwriter n).trans hw)
      obtain ⟨hlen', hwriter', hother⟩ := (m.run own).run_of_visit hmore
      have hrun : m.run (own ++ more) = (m.run own).run more := List.foldl_append
      refine ⟨own ++ more, fun move hm => ?_, ?_, fun j => ?_, fun j hj hjw => ?_⟩
      · rcases List.mem_append.mp hm with hm | hm
        · exact hown move hm
        · exact ⟨n, hw, hmore move hm⟩
      · rw [hrun, hlen', hlen]
      · rw [hrun, hwriter', hwriter]
      · rw [hrun]
        by_cases hjn : j = n
        · rw [hjn]
          exact hsettled
        · rw [hother j hjn]
          exact hdone j (by omega) hjw
    · refine ⟨own, hown, hlen, hwriter, fun j hj hjw => ?_⟩
      refine hdone j ?_ hjw
      have hjn : j ≠ n := fun he => hw (he ▸ hjw)
      omega

theorem mayAsk_iff :
    m.mayAsk id = true ↔ ∀ v ∈ m.visits, v.writer = id → v.progress.asks = false := by
  simp [mayAsk]

/-- A call that asks for no lock keeps nobody waiting. -/
theorem mayAsk_visitAt (h : m.mayAsk id = true) {p : Progress} (hp : p.asks = false) :
    (m.visitAt k p).mayAsk id = true := by
  rw [mayAsk_iff] at h ⊢
  intro v hv hw
  rcases List.mem_or_eq_of_mem_set hv with hv | rfl
  · exact h v hv hw
  · exact hp

/-- **A writer that is over does not keep its calls waiting**: steps of its calls bring it to the
point that any call may have its turn. -/
theorem Over.exists_turn (h : m.Over id) :
    ∃ own : List Move, (∀ move ∈ own, m.IsOwn id move) ∧ (m.run own).mayAsk id = true := by
  obtain ⟨own, hown, hlen, hwriter, hdone⟩ := h.exists_settled_below le_rfl
  refine ⟨own, hown, mayAsk_iff.mpr fun v hv hvw => ?_⟩
  obtain ⟨j, hj, rfl⟩ := List.mem_iff_getElem.mp hv
  have hget : (m.run own).visit j = (m.run own).visits[j] := by
    rw [visit, List.getD_eq_getElem?_getD, List.getElem?_eq_getElem hj, Option.getD_some]
  rw [← hget] at hvw ⊢
  exact hdone j (by omega) ((hwriter j).symm.trans hvw)

/-! #### Later calls -/

namespace VisitLate

/-- A call that deletes goes on to wait for its turn. -/
theorem advance_begun (hp : (m.visit k).progress = .begun) (hd : (m.visit k).deletes = true) :
    m.step (.advance k) = m.visitAt k .queued := by
  rw [step, moveVisit_ok (p := .queued) (w := m.toWorld) (by simp [Visit.next, hp, hd])]
  rfl

/-- A call that opens a collection, or has its turn, is refused. -/
theorem advance_refused (h : m.VisitLate id k)
    (hp : (m.visit k).progress = .begun ∧ (m.visit k).deletes = false ∨
      (m.visit k).progress = .queued ∧ m.mayAsk id = true) :
    m.step (.advance k) = (m.visitAt k (.ended (.error .transactionClosed))).note
      (.visited (m.visit k) (.error .transactionClosed)) := by
  have hopen := openWriter_run m.toWorld id
  rw [h.finished.ended] at hopen
  have hx : ((m.visit k).next (m.mayAsk (m.visit k).writer)).run m.toWorld
      = .error (.failed .transactionClosed) m.toWorld := by
    rcases hp with ⟨hp, hd⟩ | ⟨hp, ht⟩
    · simp [Visit.next, hp, hd, h.writer, reopen, hopen]
    · simp [Visit.next, hp, h.writer, ht, holds, hopen]
  rw [step, moveVisit_failed hx]
  rfl

theorem progress_refused (h : m.VisitLate id k)
    (hp : (m.visit k).progress = .begun ∧ (m.visit k).deletes = false ∨
      (m.visit k).progress = .queued ∧ m.mayAsk id = true) :
    ((m.step (.advance k)).visit k).progress = .ended (.error .transactionClosed) := by
  rw [h.advance_refused hp]
  show ((m.visitAt k _).visit k).progress = _
  rw [visit_visitAt h.begun, if_pos rfl]

theorem advance_idle
    (hp : (m.visit k).progress = .queued ∧ m.mayAsk (m.visit k).writer = false ∨
      ∃ answer, (m.visit k).progress = .ended answer) : m.step (.advance k) = m := by
  rw [step]
  refine moveVisit_waiting (w := m.toWorld) ?_
  rcases hp with ⟨hp, ht⟩ | ⟨answer, hp⟩
  · simp [Visit.next, hp, ht]
  · simp [Visit.next, hp]

theorem giveWay (h : m.VisitLate id k) : m.step (.giveWay k) = m := by
  have hf := h.futile
  refine moveVisit_giveWay ?_ ?_
  · intro hp
    rw [hp] at hf
    cases hf
  · intro hp
    rw [hp] at hf
    cases hf

/-- The call is still late when it has come further. -/
theorem stays (h : m.VisitLate id k) {m' : Machine} {p : Progress} (hp : p.Futile)
    (hover : m'.Over id) (hv : m'.visits = (m.visitAt k p).visits) : m'.VisitLate id k := by
  have hcall : m'.visit k = { m.visit k with progress := p } := by
    rw [visit, hv]
    exact (visit_visitAt h.begun p k).trans (if_pos rfl)
  refine ⟨hover, ?_, by rw [hcall]; exact h.writer, by rw [hcall]; exact hp⟩
  rw [hv]
  exact h.begun.trans_eq List.length_set.symm

/-- Its own step brings the call further and changes nothing else. -/
theorem advance (h : m.VisitLate id k) :
    m.SameWorld (m.step (.advance k)) ∧ (m.step (.advance k)).VisitLate id k := by
  have hover : (m.step (.advance k)).Over id := h.finished.run [.advance k]
  have hf := h.futile
  have hrefused : m.step (.advance k) = (m.visitAt k (.ended (.error .transactionClosed))).note
        (.visited (m.visit k) (.error .transactionClosed)) →
      m.SameWorld (m.step (.advance k)) ∧ (m.step (.advance k)).VisitLate id k := by
    intro hstep
    rw [hstep] at hover ⊢
    exact ⟨⟨rfl, rfl, rfl⟩, h.stays .refused hover rfl⟩
  cases hp : (m.visit k).progress with
  | begun =>
    cases hd : (m.visit k).deletes with
    | true =>
      rw [advance_begun hp hd] at hover ⊢
      exact ⟨⟨rfl, rfl, rfl⟩, h.stays .queued hover rfl⟩
    | false => exact hrefused (h.advance_refused (.inl ⟨hp, hd⟩))
  | queued =>
    cases ht : m.mayAsk id with
    | true => exact hrefused (h.advance_refused (.inr ⟨hp, ht⟩))
    | false =>
      rw [advance_idle (.inl ⟨hp, by rw [h.writer]; exact ht⟩)]
      exact ⟨.refl m, h⟩
  | ended answer =>
    rw [advance_idle (.inr ⟨answer, hp⟩)]
    exact ⟨.refl m, h⟩
  | _ =>
    rw [hp] at hf
    cases hf

/-- Its own moves change nothing but the call. -/
theorem own_step (h : m.VisitLate id k) {move : Move} (hm : move.isOfVisit k) :
    m.SameWorld (m.step move) ∧ (m.step move).VisitLate id k := by
  cases move with
  | advance i =>
    obtain rfl : i = k := of_decide_eq_true hm
    exact h.advance
  | giveWay i =>
    obtain rfl : i = k := of_decide_eq_true hm
    rw [h.giveWay]
    exact ⟨.refl m, h⟩
  | _ => cases hm

theorem step (h : m.VisitLate id k) (move : Move) : (m.step move).VisitLate id k := by
  cases hm : move.isOfVisit k with
  | true => exact (h.own_step hm).2
  | false =>
    have hsame := visit_step h.begun hm
    refine ⟨h.finished.run [move], h.begun.trans_le (length_visits_step m move), ?_, ?_⟩
    · rw [hsame]
      exact h.writer
    · rw [hsame]
      exact h.futile

theorem run (h : m.VisitLate id k) (moves : List Move) : (m.run moves).VisitLate id k :=
  run_of_step (P := fun m => m.VisitLate id k) step h moves

theorem begin (h : m.Over id) (name : Iri) (deletes : Bool) :
    (m.step (.visit id name deletes)).VisitLate id m.visits.length := by
  have hcall : (m.step (.visit id name deletes)).visit m.visits.length
      = { writer := id, name, deletes } := by
    show (m.visits ++ [_]).getD m.visits.length default = _
    rw [getD_concat, if_pos rfl]
  refine ⟨h.run [.visit id name deletes], ?_, by rw [hcall], by rw [hcall]; exact .begun⟩
  show m.visits.length < (m.visits ++ [_]).length
  simp

/-- A call that has its turn needs two steps to its answer. -/
theorem ends_of_turn (h : m.VisitLate id k) (ht : m.mayAsk id = true) :
    ((m.run [.advance k, .advance k]).visit k).progress = .ended (.error .transactionClosed) := by
  have hf := h.futile
  show (((m.step (.advance k)).step (.advance k)).visit k).progress = _
  cases hp : (m.visit k).progress with
  | begun =>
    cases hd : (m.visit k).deletes with
    | true =>
      rw [advance_begun hp hd]
      have hlate : (m.visitAt k .queued).VisitLate id k :=
        h.stays .queued (advance_begun hp hd ▸ h.finished.run [.advance k]) rfl
      refine hlate.progress_refused (.inr ⟨?_, mayAsk_visitAt ht rfl⟩)
      rw [visit_visitAt h.begun, if_pos rfl]
    | false =>
      have hend := h.progress_refused (.inl ⟨hp, hd⟩)
      rw [advance_idle (.inr ⟨_, hend⟩), hend]
  | queued =>
    have hend := h.progress_refused (.inr ⟨hp, ht⟩)
    rw [advance_idle (.inr ⟨_, hend⟩), hend]
  | ended answer =>
    rw [hp] at hf
    cases hf
    rw [advance_idle (.inr ⟨_, hp⟩), advance_idle (.inr ⟨_, hp⟩), hp]
  | _ =>
    rw [hp] at hf
    cases hf

/-- **A late call comes to nothing.** -/
theorem fails (h : m.VisitLate id k) : m.VisitFails id k := by
  refine ⟨h.futile, fun move hm => (h.own_step hm).1, ?_⟩
  obtain ⟨own, hown, hturn⟩ := h.finished.exists_turn
  refine ⟨own ++ [.advance k, .advance k], fun move hm => ?_, ?_⟩
  · rcases List.mem_append.mp hm with hm | hm
    · exact hown move hm
    · obtain rfl : move = .advance k := by simpa using hm
      exact ⟨k, h.writer, decide_eq_true rfl⟩
  · have hrun : m.run (own ++ [.advance k, .advance k])
        = (m.run own).run [.advance k, .advance k] := List.foldl_append
    rw [hrun]
    exact (h.run own).ends_of_turn hturn

end VisitLate

end Machine

/-! ### The main result -/

/-- **Nothing can be done with a transaction that is over.**  Whatever callers have done before and
do later:

* once a reader was cancelled, every request to it or to a collection that it opened is answered
  that the transaction is closed, and does nothing else;
* once a call that commits or cancels a writer has answered, whatever the answer was, the same holds
  for every request to the writer or to a collection that it opened, with any arguments; and every
  later call that opens or deletes a collection, commits or cancels comes to nothing: its steps
  change nothing, and it can always be brought to the answer that the transaction is closed. -/
theorem Machine.over_is_inert (c : Collections) (host : Host) (moves : List Move) :
    let m := (start c host).run moves
    (∀ id < m.repository.readers.length, ∀ later, ∀ r : Request,
      r.isReading id ∨ r = .cancelReader id →
        ((m.step (.ask (.cancelReader id))).run later).Declines r) ∧
    ∀ id < m.repository.writers.length, ∀ publishes later answer,
      let m₁ := (m.step (.close id publishes)).run later
      (m₁.closing m.closings.length).progress = .ended answer → ∀ more,
        let m₂ := m₁.run more
        (∀ r : Request, r.isWriting id → m₂.Declines r) ∧
        (∀ name deletes after,
          ((m₂.step (.visit id name deletes)).run after).VisitFails id m₂.visits.length) ∧
        ∀ again after,
          ((m₂.step (.close id again)).run after).ClosingFails m₂.closings.length := by
  intro m
  refine ⟨?_, ?_⟩
  · intro id hid later r hr
    have hclosed := closed_cancelReader hid
    have hlen := (Repository.Onward.step m (.ask (.cancelReader id))).readers
    have hlater := (Repository.Onward.run _ later).reader id (hid.trans_le hlen) hclosed
    exact declines_of_closed hlater hr
  · intro id hid publishes later answer m₁ ha more m₂
    have hover : m₂.Over id := (over_of_ended hid publishes later ha).run more
    exact ⟨fun r hr => hover.declines hr,
      fun name deletes after => ((VisitLate.begin hover name deletes).run after).fails,
      fun again after => ((ClosingLate.close hover again).run after).fails⟩

/-- A writer has committed, and its handle is used with a statement that breaks the rules. -/
theorem Machine.over_is_inert_commit :
    let m := (start [] {}).run [
      .ask (.write .unlimited),
      .visit 0 [97] false, .advance 0, .advance 0, .advance 0, .advance 0, .advance 0]
    let m₁ := (m.step (.close 0 true)).run [.proceed 0, .proceed 0, .proceed 0]
    m₁.handles = [.writing ⟨0, [97], 0⟩] ∧
      m₁.Declines (.edit ⟨0, [97], 0⟩ (.add (Triple.toDraft ⟨none, [], none⟩))) ∧
      (m₁.step (.visit 0 [32] true)).VisitFails 0 1 ∧ (m₁.step (.close 0 false)).ClosingFails 1 := by
  intro m m₁
  obtain ⟨hdeclines, hvisit, hclosing⟩ := (over_is_inert [] {} [
      .ask (.write .unlimited),
      .visit 0 [97] false, .advance 0, .advance 0, .advance 0, .advance 0, .advance 0]).2
    0 (by decide +kernel) true [.proceed 0, .proceed 0, .proceed 0] (.ok ()) (by rfl) []
  have hhandles : m₁.handles = [.writing ⟨0, [97], 0⟩] := by decide +kernel
  have hvisits : m₁.visits.length = 1 := by decide +kernel
  have hclosings : m₁.closings.length = 1 := by decide +kernel
  have hdeclines : ∀ r : Request, r.isWriting 0 → (m₁.run []).Declines r := hdeclines
  have hvisit : (((m₁.run []).step (.visit 0 [32] true)).run []).VisitFails 0
      (m₁.run []).visits.length := hvisit [32] true []
  have hclosing : (((m₁.run []).step (.close 0 false)).run []).ClosingFails
      (m₁.run []).closings.length := hclosing false []
  -- from here on the moves that led to the state must not be run again
  clear_value m₁
  refine ⟨hhandles, hdeclines _ rfl, ?_, ?_⟩
  · rw [← hvisits]
    exact hvisit
  · rw [← hclosings]
    exact hclosing

end TripleStore
