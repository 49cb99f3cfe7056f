import TripleStore.Proofs.Repository.Backing
import TripleStore.Proofs.Repository.Calls
import TripleStore.Proofs.Repository.Commits
import TripleStore.Proofs.Repository.Isolation
import TripleStore.Proofs.Repository.Locks
import TripleStore.Proofs.Text.Order

/-!
# A commit as a whole

A commit of a writer takes several steps.  Where nobody else moves in between, it amends what is
published by what the writer has staged and deleted, and leaves the other writers and all stores as
they are.

* `Machine.commit`: all the steps of a commit; `Repository.afterCommit`: what they come to.
* `Machine.commit_spec`: a commit of a writer that takes calls publishes, whatever the backing says.
* `Machine.writer_sees_what_it_publishes`: **a writer sees what its commit would publish**.
* `Machine.commits_commute`: **commits of writers that are open at the same time commute**.
-/

namespace TripleStore

open Repository

/-! ### Amendments in either order -/

namespace Directory

variable {d : Directory} {deleted deleted' : List Iri} {staged staged' : Directory}

/-- Two amendments that have no name in common may be made in either order. -/
theorem find_amended_comm (stores : List Graph)
    (h : ∀ {name i}, staged.lookup name = some i →
      staged'.lookup name = none ∧ name ∉ deleted')
    (h' : ∀ {name i}, staged'.lookup name = some i →
      staged.lookup name = none ∧ name ∉ deleted) :
    ((d.amended deleted staged).amended deleted' staged').find stores =
      ((d.amended deleted' staged').amended deleted staged).find stores := by
  funext name
  rw [find_amended, find_amended, find_amended, find_amended, find, find]
  cases hs : staged.lookup name with
  | some i =>
    obtain ⟨hnone, hdel⟩ := h hs
    simp [hnone, hdel]
  | none =>
    cases hs' : staged'.lookup name with
    | some j =>
      obtain ⟨-, hdel⟩ := h' hs'
      simp [hdel]
    | none => by_cases hd : name ∈ deleted <;> simp [hd]

/-- Where nothing that is staged first is touched later, the later amendment leaves it all. -/
theorem filter_staged
    (h : ∀ {name i}, staged.lookup name = some i →
      staged'.lookup name = none ∧ name ∉ deleted') :
    staged.filter (fun p => !deleted'.contains p.1 && (staged'.lookup p.1).isNone) = staged := by
  rw [List.filter_eq_self]
  intro p hp
  obtain ⟨i, hi⟩ := Option.isSome_iff_exists.mp
    (Named.lookup_isSome (List.mem_map_of_mem (f := Prod.fst) hp))
  obtain ⟨hnone, hdel⟩ := h hi
  simp [hnone, hdel]

/-- Two amendments that have no name in common come to the same names in either order. -/
theorem names_amended_comm
    (h : ∀ {name i}, staged.lookup name = some i →
      staged'.lookup name = none ∧ name ∉ deleted')
    (h' : ∀ {name i}, staged'.lookup name = some i →
      staged.lookup name = none ∧ name ∉ deleted) :
    ((d.amended deleted staged).amended deleted' staged').names =
      ((d.amended deleted' staged').amended deleted staged).names := by
  refine Text.sort_congr (List.Perm.map Prod.fst ?_)
  simp only [amended, List.filter_append, filter_staged h, filter_staged h', List.filter_filter]
  rw [← List.append_assoc, ← List.append_assoc]
  refine List.perm_append_comm.append (List.Perm.of_eq ?_)
  refine List.filter_congr fun p _ => ?_
  rw [Bool.and_comm]

end Directory

/-! ### The repository after a commit -/

namespace Repository

/-- The repository after a commit of a writer. -/
def afterCommit (id : Nat) (s : Repository) : Repository :=
  ((s.revise id (Writer.interrupted .cancelled)).publishing id).concluding id

variable {s : Repository} {id : Nat}

@[simp] theorem stores_afterCommit : (s.afterCommit id).stores = s.stores := rfl

@[simp] theorem closed_afterCommit : (s.afterCommit id).closed = s.closed := rfl

/-- The end of the waiting of its calls leaves a writer what it has staged and deleted. -/
theorem published_afterCommit :
    (s.afterCommit id).published =
      s.published.amended (s.writer id).deleted (s.writer id).staged := by
  show s.published.amended ((s.revise id (Writer.interrupted .cancelled)).writer id).deleted
    ((s.revise id (Writer.interrupted .cancelled)).writer id).staged = _
  rw [writer_revise]
  split
  · rfl
  · rfl

theorem writer_afterCommit_of_ne {j : Nat} (hj : j ≠ id) :
    (s.afterCommit id).writer j = s.writer j := by
  rw [afterCommit, writer_concluding, if_neg hj]
  have hpub : ((s.revise id (Writer.interrupted .cancelled)).publishing id).writer j
      = (s.revise id (Writer.interrupted .cancelled)).writer j := by
    exact (writer_revise _ id j fun w => { w with phase := .committing }).trans
      (if_neg fun hx => hj hx.1)
  rw [hpub, writer_revise, if_neg fun hx => hj hx.1]

end Repository

/-! ### The steps of a commit -/

namespace Machine.At

variable {m : Machine} {k : Nat} {w : World}

/-- From its publication on, a commit comes to its end by itself. -/
theorem run_telling {id n : Nat} {rest : List Telling} {errors : List Error}
    (hn : rest.length < n) (h : m.At k ⟨id, true, .telling rest errors⟩ w) :
    ∃ host more, Reported more ∧ (rest = [] → more = []) ∧
      (m.run (List.replicate n (.proceed k))).At k
        ⟨id, true, .ended (verdict (errors ++ more))⟩ ⟨w.repository.concluding id, host⟩ := by
  induction n generalizing m w rest errors with
  | zero => omega
  | succ n ih =>
    show ∃ host more, _ ∧ _ ∧ ((m.proceed k).run (List.replicate n (.proceed k))).At k _ _
    cases rest with
    | nil =>
      have hx := finish_run w id errors
      refine ⟨w.host, [], fun _ hx => absurd hx List.not_mem_nil, fun _ => rfl, ?_⟩
      rw [List.append_nil, verdict]
      cases hall : Error.all errors with
      | some x =>
        rw [hall] at hx
        exact run_ended (h.failed (by simp [Closing.next, hx])) n
      | none =>
        rw [hall] at hx
        exact run_ended (h.ok (by simp [Closing.next, hx])) n
    | cons t rest =>
      obtain ⟨told, host, hx, htold⟩ := tell_run w id t
      have hstep : (m.proceed k).At k ⟨id, true, .telling rest (errors ++ told)⟩
          ⟨w.repository, host⟩ := h.ok (by simp [Closing.next, hx])
      obtain ⟨host', more, hmore, -, hend⟩ := ih (by simpa using hn) hstep
      refine ⟨host', told ++ more, ?_, fun hrest => absurd hrest (List.cons_ne_nil t rest), ?_⟩
      · intro x hx
        rcases List.mem_append.mp hx with hx | hx
        · exact htold x hx
        · exact hmore x hx
      · rwa [← List.append_assoc]

end Machine.At

namespace Machine

variable {m : Machine} {id : Nat}

/-! ### The commit -/

/-- All the steps of a commit of a writer, while nobody else moves.  The backing is told at most one
thing for each deletion and each store; a move after the end of the commit does nothing. -/
def commit (m : Machine) (id : Nat) : Machine :=
  (m.step (.close id true)).run
    (List.replicate ((tellings (m.repository.writer id)).length + 3) (.proceed m.closings.length))

/-- **A commit of a writer that takes calls publishes**, whatever the backing says. -/
theorem commit_spec (hw : (m.repository.writer id).phase = .working)
    (ho : m.repository.closed = false) :
    ∃ host answer, Published answer ∧ (m.host.backing = .memory → answer = .ok ()) ∧
      (m.commit id).At m.closings.length ⟨id, true, .ended answer⟩
        ⟨m.repository.afterCommit id, host⟩ := by
  let s := m.repository.revise id (Writer.interrupted .cancelled)
  have hs : s.writer id = (m.repository.writer id).interrupted .cancelled := by
    rw [writer_revise_of_lt (lt_of_working hw), if_pos rfl]
  let rest := if m.host.backing.isPresent then tellings (m.repository.writer id) else []
  let k := m.closings.length
  have hinterrupted : ((m.step (.close id true)).proceed k).At k ⟨id, true, .interrupting⟩
      ⟨s, m.host⟩ := (At.close m id true).ok (by simp [Closing.next, interrupt, s])
  have hpublish : ∃ host, (publish id).run ⟨s, m.host⟩ = .ok rest ⟨s.publishing id, host⟩ := by
    have hw' : (s.writer id).phase = .working := by rw [hs]; exact hw
    have htell : tellings (s.writer id) = tellings (m.repository.writer id) := by rw [hs]; rfl
    have ho' : s.closed = false := ho
    exact ⟨_, by simp [publish, openWriter_run, hw', ho', htell, rest]; rfl⟩
  obtain ⟨host, hpublish⟩ := hpublish
  have hpublished : (((m.step (.close id true)).proceed k).proceed k).At k
      ⟨id, true, .telling rest []⟩ ⟨s.publishing id, host⟩ :=
    hinterrupted.ok (by simp [Closing.next, hpublish])
  have hlen : rest.length < (tellings (m.repository.writer id)).length + 1 := by
    show (if m.host.backing.isPresent then tellings (m.repository.writer id) else []).length < _
    split
    · omega
    · simp
  obtain ⟨host', more, hmore, hnone, hend⟩ := hpublished.run_telling hlen
  refine ⟨host', verdict more, published_verdict hmore, fun hb => ?_, hend⟩
  have hrest : rest = [] := by
    show (if m.host.backing.isPresent then _ else _) = _
    rw [hb]
    rfl
  rw [hnone hrest]
  rfl

/-- What a commit of a writer answers. -/
def commitAnswer? (m : Machine) (id : Nat) : Option (Outcome Unit) :=
  match ((m.commit id).closing m.closings.length).progress with
  | .ended answer => some answer
  | _ => none

theorem repository_commit (hw : (m.repository.writer id).phase = .working)
    (ho : m.repository.closed = false) :
    (m.commit id).repository = m.repository.afterCommit id := by
  obtain ⟨host, answer, -, -, h⟩ := commit_spec hw ho
  rw [h.world]

theorem commitAnswer?_eq (hw : (m.repository.writer id).phase = .working)
    (ho : m.repository.closed = false) :
    ∃ answer, m.commitAnswer? id = some answer ∧ Published answer ∧
      (m.host.backing = .memory → answer = .ok ()) := by
  obtain ⟨host, answer, hpub, hmem, h⟩ := commit_spec hw ho
  refine ⟨answer, ?_, hpub, hmem⟩
  rw [commitAnswer?, h.call]

/-- A commit is made of moves. -/
theorem commit_eq_run (m : Machine) (id : Nat) : ∃ moves, m.commit id = m.run moves :=
  ⟨.close id true :: List.replicate ((tellings (m.repository.writer id)).length + 3)
    (.proceed m.closings.length), rfl⟩

end Machine

/-! ### Repositories that nothing stands behind -/

/-- Nothing stands behind the repository. -/
def Unbacked (w : World) : Prop := w.host.backing = .memory

namespace Unbacked

theorem enduring : Enduring Unbacked where
  host _ _ h := h
  addReader _ h := h
  addWriter _ h := h
  putReader _ _ h := h
  patience _ _ _ h := h
  copying _ h := h
  close {w} h := by
    show w.host.backing.close.2 = .memory
    rw [show w.host.backing = .memory from h]
    rfl

theorem tell (id : Nat) (t : Telling) : Retains Unbacked (tell id t) := by
  intro w hw
  obtain ⟨errors, host, hrun, hback, -⟩ := tell_backing w id t
  rw [hrun]
  refine ⟨?_, trivial⟩
  show host.backing = .memory
  rw [hback, show w.host.backing = .memory from hw]
  cases t <;> rfl

theorem closing (c : Closing) : Retains Unbacked c.next := by
  rw [Closing.next]
  split
  · exact (Retains.change fun _ h => h).bind fun _ => .pure _
  · refine .ite (.bind ?_ fun _ => .pure _)
      (((Retains.openWriter _).bind fun _ => .change fun _ h => h).bind fun _ => .pure _)
    exact (Retains.openWriter _).bind fun _ => .get_bind fun _ => .ite
      ((Retains.change fun _ h => h).bind fun _ => .fail _)
      ((Retains.change fun _ h => h).bind fun _ => (Retains.log enduring _).bind fun _ =>
        .get_bind fun _ => .pure _)
  · exact (tell _ _).bind fun _ => .pure _
  · rename_i errors _
    refine (Retains.bind (.change fun _ h => h) fun _ => ?_).bind fun _ => .pure _
    cases Error.all errors with
    | some e => exact .fail e
    | none => exact .pure ()
  · exact .throw _

/-- Nothing comes to stand behind a repository. -/
theorem step {m : Machine} (h : Unbacked m.toWorld) (move : Move) :
    Unbacked (m.step move).toWorld := by
  have hvisit : ∀ {m' : Machine}, m' = m ∨ VisitStep m m' → Unbacked m'.toWorld := by
    intro m' hs
    rcases hs with rfl | hs
    · exact h
    · cases hs <;> exact h
  cases move with
  | ask r =>
    rw [Machine.step]
    split
    · exact Machine.answer_keeps (Retains.request enduring r fun _ _ _ _ _ => .change fun _ h => h) h
    · exact h
  | visit writer name deletes => exact h
  | advance k => exact hvisit (Machine.advance_cases _)
  | giveWay k => exact hvisit Machine.giveWay_cases
  | close writer publishes => exact h
  | proceed k =>
    exact (Machine.proceed_keeps (C := fun _ => True) ((closing _).ensures fun _ => trivial)
      (fun _ => trivial) h fun _ _ => trivial).1

theorem run {m : Machine} (h : Unbacked m.toWorld) (moves : List Move) :
    Unbacked (m.run moves).toWorld :=
  Machine.run_of_step (P := fun m => Unbacked m.toWorld) step h moves

end Unbacked

/-! ### The view of a writer -/

namespace Machine

variable {m : Machine} {id : Nat}

theorem reply_writerCollections (hw : (m.repository.writer id).phase = .working)
    (ho : m.repository.closed = false) :
    (Request.writerCollections id).reply m.toWorld = some (.ok (.names
      (m.repository.published.amended (m.repository.writer id).deleted
        (m.repository.writer id).staged).names)) := by
  simp [Request.reply, Request.act, writerCollections, view, openWriter_run, hw, snapshot_run, ho]

theorem reply_writerMatch (hw : (m.repository.writer id).phase = .working)
    (ho : m.repository.closed = false) (p : Pattern) :
    ∃ q, (Request.writerMatch id p).reply m.toWorld = some (.ok (.sequence q)) :=
  ⟨_, by simp [Request.reply, Request.act, writerMatch, openWriter_run, hw, snapshot_run, ho]; rfl⟩

/-- A reader begins on what is published. -/
theorem reply_read {patience : Patience} (hp : patience.exhausted? = none)
    (ho : m.repository.closed = false) :
    (Request.read patience).reply m.toWorld
        = some (.ok (.transaction m.repository.readers.length)) ∧
      (m.step (.ask (.read patience))).repository
        = m.repository.addReader { directory := m.repository.published } := by
  have hrun : (Request.read patience).act.run m.toWorld
      = .ok (.transaction m.repository.readers.length)
        ⟨m.repository.addReader { directory := m.repository.published }, m.host⟩ := by
    simp [Request.act, Repository.read, heed_run, hp, snapshot_run, ho]
  refine ⟨by rw [Request.reply, hrun], ?_⟩
  rw [step_ask rfl, answer_ok hrun]
  rfl

/-- **A writer sees what its commit would publish.**  Let a writer take calls of a repository that is
open, after whatever callers have done.  A commit of it, with nobody else moving, publishes; and a
reader that begins then is told the names that the writer is told before the commit.  For every
pattern the reader finds the statements that the writer finds before the commit, however late the
two searches are drained and whatever others do in the meantime. -/
theorem writer_sees_what_it_publishes (c : Collections) (host : Host) (moves : List Move) (id : Nat)
    (patience : Patience) (hp : patience.exhausted? = none)
    (hw : (((start c host).run moves).repository.writer id).phase = .working)
    (ho : ((start c host).run moves).repository.closed = false) :
    let m := (start c host).run moves
    (∃ answer, m.commitAnswer? id = some answer ∧ Published answer) ∧
    ∃ r, (Request.read patience).reply (m.commit id).toWorld = some (.ok (.transaction r)) ∧
      let m' := (m.commit id).step (.ask (.read patience))
      (∃ names, (Request.writerCollections id).reply m.toWorld = some (.ok (.names names)) ∧
        (Request.readerCollections r).reply m'.toWorld = some (.ok (.names names))) ∧
      ∀ p, ∃ q q', (Request.writerMatch id p).reply m.toWorld = some (.ok (.sequence q)) ∧
        (Request.readerMatch r p).reply m'.toWorld = some (.ok (.sequence q')) ∧
        ∀ later later' : Iri → List Move,
          q.drainAlong (fun name =>
            ((m.step (.ask (.writerMatch id p))).run (later name)).repository.stores) =
          q'.drainAlong (fun name =>
            ((m'.step (.ask (.readerMatch r p))).run (later' name)).repository.stores) := by
  intro m
  have hm : Apart m := .run c host moves
  have hrepo : (m.commit id).repository = m.repository.afterCommit id := repository_commit hw ho
  have hclosed : (m.commit id).repository.closed = false := by rw [hrepo]; exact ho
  obtain ⟨hread, hbegun⟩ := reply_read (m := m.commit id) hp hclosed
  let r := (m.commit id).repository.readers.length
  let m' := (m.commit id).step (.ask (.read patience))
  -- what the reader sees, and in which stores
  let seen := m.repository.published.amended (m.repository.writer id).deleted
    (m.repository.writer id).staged
  have hreader : m'.repository.reader r = { directory := seen } := by
    rw [hbegun, reader_addReader, if_pos rfl, hrepo, published_afterCommit]
  have hstores : m'.repository.stores = m.repository.stores := by
    rw [hbegun]
    show (m.commit id).repository.stores = _
    rw [hrepo, stores_afterCommit]
  have hm' : Apart m' := by
    obtain ⟨more, hmore⟩ := commit_eq_run m id
    show Apart ((m.commit id).step _)
    rw [hmore]
    exact (hm.after more).after [.ask (.read patience)]
  obtain ⟨answer, hanswer, hpub, -⟩ := commitAnswer?_eq hw ho
  refine ⟨⟨answer, hanswer, hpub⟩, r, hread, ⟨seen.names, reply_writerCollections hw ho, ?_⟩, ?_⟩
  · show (Request.readerCollections r).reply m'.toWorld = _
    simp [Request.reply, Request.act, readerCollections_run, hreader]
  intro p
  obtain ⟨q, hq⟩ := reply_writerMatch hw ho p
  have hrun : (Request.readerMatch r p).act.run m'.toWorld
      = .ok (.sequence (.search seen p)) m'.toWorld := by
    simp [Request.act, readerMatch_run, hreader]
  have hq' : (Request.readerMatch r p).reply m'.toWorld
      = some (.ok (.sequence (.search seen p))) := by
    rw [Request.reply, hrun]
  refine ⟨q, .search seen p, hq, hq', fun later later' => ?_⟩
  have hwriter := Steady.drainAlong (hm.after [.ask (.writerMatch id p)])
    (mem_sequences_of_reply rfl hq) later
  have hfound := Steady.drainAlong (hm'.after [.ask (.readerMatch r p)])
    (mem_sequences_of_reply rfl hq') later'
  have hsame : (m'.step (.ask (.readerMatch r p))).repository.stores = m.repository.stores := by
    rw [step_ask rfl, answer_ok hrun, ← hstores]
    rfl
  calc q.drainAlong _
      = q.drain (m.step (.ask (.writerMatch id p))).repository.stores := hwriter
    _ = (Sequence.search seen p).drain m.repository.stores := drain_writerMatch hm hq
    _ = (Sequence.search seen p).drain
          (m'.step (.ask (.readerMatch r p))).repository.stores := by rw [hsame]
    _ = (Sequence.search seen p).drainAlong _ := hfound.symm

/-- A writer has deleted one collection, created another and left a third alone. -/
theorem writer_sees_what_it_publishes_three :
    let t : Triple := ⟨some (.iri [98]), [98], some (.iri [98])⟩
    let m := (start [([97], Graph.empty.add t), ([98], .empty)] {}).run [
      .ask (.write .unlimited),
      .visit 0 [97] true, .advance 0, .advance 0, .advance 0, .advance 0, .advance 0,
      .visit 0 [99] false, .advance 1, .advance 1, .advance 1, .advance 1, .advance 1,
      .ask (.edit ⟨0, [99], 2⟩ (.add t.toDraft))]
    ∃ r, (Request.read .limited).reply (m.commit 0).toWorld = some (.ok (.transaction r)) ∧
      (Request.readerCollections r).reply ((m.commit 0).step (.ask (.read .limited))).toWorld
        = some (.ok (.names [[98], [99]])) := by
  intro t m
  obtain ⟨-, r, hread, ⟨names, hwriter, hreader⟩, -⟩ :=
    writer_sees_what_it_publishes [([97], Graph.empty.add t), ([98], .empty)] {} [
      .ask (.write .unlimited),
      .visit 0 [97] true, .advance 0, .advance 0, .advance 0, .advance 0, .advance 0,
      .visit 0 [99] false, .advance 1, .advance 1, .advance 1, .advance 1, .advance 1,
      .ask (.edit ⟨0, [99], 2⟩ (.add t.toDraft))] 0 .limited rfl (by decide +kernel)
      (by decide +kernel)
  have hnames : (Request.writerCollections 0).reply m.toWorld
      = some (.ok (.names [[98], [99]])) := by
    have hseen : m.repository.published.amended (m.repository.writer 0).deleted
        (m.repository.writer 0).staged = [([99], 2), ([98], 1)] := by decide +kernel
    rw [reply_writerCollections (by decide +kernel) (by decide +kernel), hseen]
    simp [Named.names, Text.sort, List.mergeSort, List.MergeSort.Internal.splitInTwo, Text.le]
  obtain rfl : names = [[98], [99]] := by
    have h := hwriter.symm.trans hnames
    simpa using h
  exact ⟨r, hread, hreader⟩

/-! ### Two commits -/

section

variable {a b : Nat}

/-- A commit leaves another writer as it is, and the repository open. -/
theorem working_commit (hab : a ≠ b) (hwa : (m.repository.writer a).phase = .working)
    (hwb : (m.repository.writer b).phase = .working) (ho : m.repository.closed = false) :
    (m.commit a).repository.writer b = m.repository.writer b ∧
      ((m.commit a).repository.writer b).phase = .working ∧
      (m.commit a).repository.closed = false := by
  rw [repository_commit hwa ho, writer_afterCommit_of_ne hab.symm]
  exact ⟨rfl, hwb, ho⟩

/-- What two commits publish, one after the other. -/
theorem repository_commit_commit (hab : a ≠ b) (hwa : (m.repository.writer a).phase = .working)
    (hwb : (m.repository.writer b).phase = .working) (ho : m.repository.closed = false) :
    ((m.commit a).commit b).repository.stores = m.repository.stores ∧
      ((m.commit a).commit b).repository.published =
        (m.repository.published.amended (m.repository.writer a).deleted
          (m.repository.writer a).staged).amended (m.repository.writer b).deleted
            (m.repository.writer b).staged := by
  obtain ⟨hsame, hwb', ho'⟩ := working_commit hab hwa hwb ho
  rw [repository_commit hwb' ho', stores_afterCommit, published_afterCommit, hsame,
    repository_commit hwa ho, published_afterCommit]
  exact ⟨rfl, rfl⟩

/-- Two commits answer, one after the other. -/
theorem answers_commit_commit (hab : a ≠ b) (hwa : (m.repository.writer a).phase = .working)
    (hwb : (m.repository.writer b).phase = .working) (ho : m.repository.closed = false) :
    ∃ first second, m.commitAnswer? a = some first ∧ (m.commit a).commitAnswer? b = some second ∧
      Published first ∧ Published second ∧
        (Unbacked m.toWorld → first = .ok () ∧ second = .ok ()) := by
  obtain ⟨-, hwb', ho'⟩ := working_commit hab hwa hwb ho
  obtain ⟨first, hfirst, hpub, hok⟩ := commitAnswer?_eq hwa ho
  obtain ⟨second, hsecond, hpub', hok'⟩ := commitAnswer?_eq hwb' ho'
  refine ⟨first, second, hfirst, hsecond, hpub, hpub', fun hu => ⟨hok hu, hok' ?_⟩⟩
  obtain ⟨moves, hmoves⟩ := commit_eq_run m a
  rw [hmoves]
  exact hu.run moves

end

/-- **Commits of writers that are open at the same time commute.**  Let two writers take calls of a
repository that is open, after whatever callers have done.  Whichever is committed first, in the end
the same names are published, each with the same graph.  Both commits publish in either order, and
all answer well if nothing stands behind the repository. -/
theorem commits_commute (c : Collections) (host : Host) (moves : List Move) {a b : Nat}
    (hab : a ≠ b) (hwa : (((start c host).run moves).repository.writer a).phase = .working)
    (hwb : (((start c host).run moves).repository.writer b).phase = .working)
    (ho : ((start c host).run moves).repository.closed = false) :
    let m := (start c host).run moves
    ((m.commit a).commit b).repository.contents = ((m.commit b).commit a).repository.contents ∧
      ((m.commit a).commit b).repository.published.names
        = ((m.commit b).commit a).repository.published.names ∧
      (∃ first second, m.commitAnswer? a = some first ∧ (m.commit a).commitAnswer? b = some second ∧
        Published first ∧ Published second ∧
          (host.backing = .memory → first = .ok () ∧ second = .ok ())) ∧
      ∃ first second, m.commitAnswer? b = some first ∧ (m.commit b).commitAnswer? a = some second ∧
        Published first ∧ Published second ∧
          (host.backing = .memory → first = .ok () ∧ second = .ok ()) := by
  intro m
  have hl : LocksKept m := .run c host moves
  obtain ⟨hstores, hpublished⟩ := repository_commit_commit hab hwa hwb ho
  obtain ⟨hstores', hpublished'⟩ := repository_commit_commit hab.symm hwb hwa ho
  -- what one of the two has staged is locked by it, so that the other has not touched it
  have hdisjoint : ∀ {name i}, (m.repository.writer a).staged.lookup name = some i →
      (m.repository.writer b).staged.lookup name = none ∧
        name ∉ (m.repository.writer b).deleted := hl.untouched hab hwa hwb
  have hdisjoint' : ∀ {name i}, (m.repository.writer b).staged.lookup name = some i →
      (m.repository.writer a).staged.lookup name = none ∧
        name ∉ (m.repository.writer a).deleted := hl.untouched hab.symm hwb hwa
  have hunbacked : host.backing = .memory → Unbacked m.toWorld :=
    fun hb => (show Unbacked (start c host).toWorld from hb).run moves
  refine ⟨?_, ?_, ?_, ?_⟩
  · rw [Repository.contents, Repository.contents, hstores, hstores', hpublished, hpublished']
    exact Directory.find_amended_comm m.repository.stores hdisjoint hdisjoint'
  · rw [hpublished, hpublished']
    exact Directory.names_amended_comm hdisjoint hdisjoint'
  · obtain ⟨first, second, ha, hb, hpub, hpub', hok⟩ := answers_commit_commit hab hwa hwb ho
    exact ⟨first, second, ha, hb, hpub, hpub', hok ∘ hunbacked⟩
  · obtain ⟨first, second, hb, ha, hpub, hpub', hok⟩ := answers_commit_commit hab.symm hwb hwa ho
    exact ⟨first, second, hb, ha, hpub, hpub', hok ∘ hunbacked⟩

/-- One writer has created a collection, the other one has deleted one. -/
theorem commits_commute_two :
    let m := (start [([97], .empty)] {}).run [
      .ask (.write .unlimited), .ask (.write .unlimited),
      .visit 0 [98] false, .advance 0, .advance 0, .advance 0, .advance 0, .advance 0,
      .visit 1 [97] true, .advance 1, .advance 1, .advance 1, .advance 1, .advance 1]
    ((m.commit 0).commit 1).repository.contents = ((m.commit 1).commit 0).repository.contents ∧
      ((m.commit 1).commit 0).repository.published.names = [[98]] := by
  intro m
  obtain ⟨hcontents, hnames, -⟩ := commits_commute [([97], .empty)] {} [
      .ask (.write .unlimited), .ask (.write .unlimited),
      .visit 0 [98] false, .advance 0, .advance 0, .advance 0, .advance 0, .advance 0,
      .visit 1 [97] true, .advance 1, .advance 1, .advance 1, .advance 1, .advance 1]
    (a := 0) (b := 1) (by decide) (by decide +kernel) (by decide +kernel) (by decide +kernel)
  refine ⟨hcontents, ?_⟩
  rw [← hnames]
  decide +kernel

end Machine

end TripleStore
