import TripleStore.Proofs.Repository.Commits
import TripleStore.Proofs.Repository.Locks
import TripleStore.Proofs.Repository.Stores

/-!
# Commits one after the other

A writer copies a collection when it first opens it, and publishes the copy much later.  In between
it keeps the lock, so that what it copied is still what is published when it commits.  Therefore
whatever the order of steps, what is published is what one gets when the committed writers do their
work one after the other, each upon what the one before has published.

* `Mirrors`: an account tells what a writer has staged and deleted and what its stores hold.
* `Replayed`: what is published is the replay of the ledger, and accounts mirror the writers that
  take calls; with one lemma for each kind of step.
* `Machine.serializable`: **the main result**, for all moves.
-/

namespace TripleStore

open Repository

/-! ### Accounts -/

theorem Work.replay_extended (w : Work) (c : Change) (published : Option Graph) :
    (w.extended w.store c).replay published = c.apply (w.replay published) := by
  rw [Work.extended, if_pos rfl, Work.replay, List.foldl_append]
  rfl

theorem Work.extended_of_ne {w : Work} {store : Nat} (h : w.store ≠ store) (c : Change) :
    w.extended store c = w := if_neg h

@[simp] theorem Work.store_extended (w : Work) (store : Nat) (c : Change) :
    (w.extended store c).store = w.store := by
  rw [Work.extended]
  split <;> rfl

theorem Account.lookup_edited (a : Account) (store : Nat) (c : Change) (name : Iri) :
    (a.edited store c).staged.lookup name =
      (a.staged.lookup name).map fun work => work.extended store c :=
  Named.lookup_map (fun work : Work => work.extended store c) a.staged name

/-- An account tells what a writer has staged and deleted, and how its stores have come about from
what is published. -/
structure Mirrors (s : Repository) (w : Writer) (a : Account) : Prop where
  staged : ∀ name, w.staged.lookup name = (a.staged.lookup name).map Work.store
  deleted : ∀ name, name ∈ a.deleted ↔ name ∈ w.deleted
  content : ∀ {name work}, a.staged.lookup name = some work →
    s.store work.store = work.replay (s.contents name)

namespace Mirrors

variable {s s' : Repository} {w w' : Writer} {a : Account}

theorem lookup_staged (h : Mirrors s w a) {name : Iri} {work : Work}
    (hl : a.staged.lookup name = some work) : w.staged.lookup name = some work.store := by
  rw [h.staged, hl]
  rfl

/-- Only the stores of the writer and what is published under their names matter. -/
theorem congr (h : Mirrors s w a) (hs : w'.staged = w.staged) (hd : w'.deleted = w.deleted)
    (hstore : ∀ {name i}, w.staged.lookup name = some i → s'.store i = s.store i ∧
      s'.contents name = s.contents name) : Mirrors s' w' a := by
  refine ⟨?_, ?_, ?_⟩
  · intro name
    rw [hs]
    exact h.staged name
  · intro name
    rw [hd]
    exact h.deleted name
  · intro name work hl
    obtain ⟨hi, hc⟩ := hstore (h.lookup_staged hl)
    rw [hi, hc]
    exact h.content hl

/-- A writer that has just begun has done nothing. -/
theorem new (s : Repository) (patience : Patience) : Mirrors s { patience } {} :=
  ⟨fun _ => rfl, fun _ => Iff.rfl, fun {_ _} hl => by cases hl⟩

/-- A collection is opened once more. -/
theorem reopened (h : Mirrors s w a) {k : WriteHandle}
    (hl : w.staged.lookup k.name = some k.store) : a.opened k = a := by
  rw [h.staged] at hl
  obtain ⟨work, hwork, -⟩ := Option.map_eq_some_iff.mp hl
  rw [Account.opened, hwork]

/-- A collection is opened in a new store. -/
theorem opened (h : Mirrors s w a) {k : WriteHandle} (hl : w.staged.lookup k.name = none)
    (hnew : s'.store k.store = s.original w k.name)
    (hold : ∀ {name i}, w.staged.lookup name = some i → s'.store i = s.store i)
    (hc : s'.contents = s.contents) : Mirrors s' (w.opening k.name k.store) (a.opened k) := by
  have hnone : a.staged.lookup k.name = none := by
    rw [h.staged, Option.map_eq_none_iff] at hl
    exact hl
  have hacc : a.opened k = {
      staged := a.staged.put k.name { store := k.store, afresh := a.deleted.contains k.name }
      deleted := a.deleted.filter (· ≠ k.name) } := by
    rw [Account.opened, hnone]
  have hdel : a.deleted.contains k.name = w.deleted.contains k.name := by
    rw [Bool.eq_iff_iff, List.contains_iff_mem, List.contains_iff_mem]
    exact h.deleted k.name
  rw [hacc]
  refine ⟨?_, ?_, ?_⟩
  · intro name
    rw [Writer.opening, Named.lookup_put, Named.lookup_put, h.staged]
    split <;> rfl
  · intro name
    simp only [Writer.opening, List.mem_filter, h.deleted]
  · intro name work hwork
    rw [hc]
    rw [Named.lookup_put] at hwork
    split at hwork
    · rename_i hname
      cases hwork
      rw [hname, hnew, Repository.original, ← hdel]
      rfl
    · rw [hold (h.lookup_staged hwork)]
      exact h.content hwork

/-- A collection is deleted. -/
theorem erased (h : Mirrors s w a) (name : Iri) : Mirrors s (w.deleting name) (a.erased name) := by
  refine ⟨?_, ?_, ?_⟩
  · intro other
    rw [Writer.deleting, Account.erased, Named.lookup_erase, Named.lookup_erase, h.staged]
    split <;> rfl
  · intro other
    simp only [Writer.deleting, Account.erased, mem_insertNew, h.deleted]
  · intro other work hl
    rw [Account.erased, Named.lookup_erase] at hl
    split at hl
    · cases hl
    · exact h.content hl

/-- A store is changed, and nothing that is published. -/
theorem edited (h : Mirrors s w a) {store : Nat} (c : Change) (hlt : store < s.stores.length)
    (hc : (s.putStore store (c.apply (s.store store))).contents = s.contents) :
    Mirrors (s.putStore store (c.apply (s.store store))) w (a.edited store c) := by
  refine ⟨?_, h.deleted, ?_⟩
  · intro name
    rw [Account.lookup_edited, h.staged, Option.map_map]
    congr 1
    funext work
    exact (work.store_extended store c).symm
  · intro name work hl
    rw [Account.lookup_edited] at hl
    obtain ⟨old, hold, rfl⟩ := Option.map_eq_some_iff.mp hl
    rw [hc, Work.store_extended, store_putStore]
    by_cases hs : old.store = store
    · subst hs
      -- the change comes last in the replay, as it does in the store
      rw [if_pos ⟨rfl, hlt⟩, Work.replay_extended, h.content hold]
    · rw [if_neg fun he => hs he.1, Work.extended_of_ne hs]
      exact h.content hold

/-- What the writer publishes is what its account says. -/
theorem apply_eq (h : Mirrors s w a) :
    a.apply s.contents = (s.published.amended w.deleted w.staged).find s.stores := by
  funext name
  rw [Directory.find_amended, Directory.find, h.staged, Account.apply]
  cases hl : a.staged.lookup name with
  | some work =>
    show some (work.replay (s.contents name)) = some (s.store work.store)
    rw [h.content hl]
  | none =>
    show _ = if name ∈ w.deleted then none else s.contents name
    simp only [List.contains_iff_mem, h.deleted]

end Mirrors

/-! ### The invariant -/

/-- What is published is the replay of the ledger, and the accounts of the writers that take calls
mirror them. -/
structure Replayed (initial : Iri → Option Graph) (m : Machine) : Prop where
  contents : m.repository.contents = m.ledger.replay initial
  mirrors : ∀ {id}, (m.repository.writer id).phase = .working →
    Mirrors m.repository (m.repository.writer id) (m.ledger.accounts id)
  blank : ∀ {id}, m.repository.writers.length ≤ id → m.ledger.accounts id = {}

/-- The same is published, and stores were at most added. -/
structure Repository.Extends (s s' : Repository) : Prop where
  published : s'.published = s.published
  stores : s.stores <+: s'.stores

theorem Repository.Extends.store {s s' : Repository} (h : Extends s s') {i : Nat}
    (hi : i < s.stores.length) : s'.store i = s.store i := by
  obtain ⟨more, hmore⟩ := h.stores
  rw [Repository.store, Repository.store, ← hmore]
  exact getD_append_left hi more .empty

namespace Apart

variable {m : Machine} {s : Repository}

theorem contents_extends (ha : Apart m) (h : Extends m.repository s) :
    s.contents = m.repository.contents := by
  funext name
  rw [Repository.contents, Repository.contents, h.published]
  exact Directory.find_congr fun i hl => h.store (ha.shown (.published hl)).1

theorem store_extends (ha : Apart m) (h : Extends m.repository s) {id : Nat} {name : Iri} {i : Nat}
    (hl : (m.repository.writer id).staged.lookup name = some i) :
    s.store i = m.repository.store i :=
  h.store (ha.known (ha.staged hl)).2

/-- A change to a store of a writer that takes calls is not seen by anyone else. -/
theorem store_putStore_of_ne (ha : Apart m) {w : WriteHandle} (hw : .writing w ∈ m.handles)
    {id : Nat} (hid : id ≠ w.writer) {name : Iri} {i : Nat}
    (hl : (m.repository.writer id).staged.lookup name = some i) (g : Graph) :
    (m.repository.putStore w.store g).store i = m.repository.store i := by
  have hne : i ≠ w.store := by
    rintro rfl
    have he : WriteHandle.mk id name w.store = w := ha.single (ha.staged hl) hw rfl
    exact hid (congrArg WriteHandle.writer he)
  rw [store_putStore, if_neg fun he => hne he.1]

theorem contents_putStore (ha : Apart m) {w : WriteHandle} (hw : .writing w ∈ m.handles)
    (hp : (m.repository.writer w.writer).phase = .working) (g : Graph) :
    (m.repository.putStore w.store g).contents = m.repository.contents := by
  funext name
  refine Directory.find_congr fun i hl => ?_
  have hne : i ≠ w.store := fun he => (ha.shown (.published hl)).2 w hw he.symm hp
  have h := m.repository.store_putStore w.store i g
  rw [if_neg fun he => hne he.1] at h
  exact h

end Apart

namespace Replayed

variable {initial : Iri → Option Graph} {m m' : Machine}

/-- Writers change at most in other things than their staged and deleted collections, or no longer
take calls. -/
theorem frame (h : Replayed initial m) (ha : Apart m)
    (he : Extends m.repository m'.repository) (hl : m'.ledger = m.ledger)
    (hlen : m.repository.writers.length ≤ m'.repository.writers.length)
    (hw : ∀ id, (m'.repository.writer id).phase = .working →
      (m.repository.writer id).phase = .working ∧
        (m'.repository.writer id).staged = (m.repository.writer id).staged ∧
        (m'.repository.writer id).deleted = (m.repository.writer id).deleted) :
    Replayed initial m' := by
  refine ⟨?_, ?_, ?_⟩
  · rw [ha.contents_extends he, hl]
    exact h.contents
  · intro id hp
    obtain ⟨hp, hs, hd⟩ := hw id hp
    rw [hl]
    exact (h.mirrors hp).congr hs hd fun hi =>
      ⟨ha.store_extends he hi, congrFun (ha.contents_extends he) _⟩
  · intro id hid
    rw [hl]
    exact h.blank (hlen.trans hid)

/-- One writer that takes calls and its account change. -/
theorem update (h : Replayed initial m) (ha : Apart m)
    (he : Extends m.repository m'.repository) {id : Nat} {f : Account → Account}
    (hl : m'.ledger = m.ledger.revise id f) (hp : (m.repository.writer id).phase = .working)
    (hlen : m'.repository.writers.length = m.repository.writers.length)
    (hw : ∀ j, j ≠ id → m'.repository.writer j = m.repository.writer j)
    (hm : Mirrors m.repository (m.repository.writer id) (m.ledger.accounts id) →
      Mirrors m'.repository (m'.repository.writer id) (f (m.ledger.accounts id))) :
    Replayed initial m' := by
  have hacc : ∀ j, m'.ledger.accounts j =
      if j = id then f (m.ledger.accounts j) else m.ledger.accounts j := by
    intro j
    rw [hl]
    rfl
  refine ⟨?_, ?_, ?_⟩
  · rw [ha.contents_extends he, hl]
    exact h.contents
  · intro j hj
    rw [hacc]
    by_cases hjid : j = id
    · subst hjid
      rw [if_pos rfl]
      exact hm (h.mirrors hp)
    · rw [if_neg hjid]
      rw [hw j hjid] at hj ⊢
      exact (h.mirrors hj).congr rfl rfl fun hi =>
        ⟨ha.store_extends he hi, congrFun (ha.contents_extends he) _⟩
  · intro j hj
    have hid := lt_of_working hp
    rw [hlen] at hj
    rw [hacc, if_neg (by omega)]
    exact h.blank hj

theorem addWriter (h : Replayed initial m) (patience : Patience)
    (hr : m'.repository = m.repository.addWriter { patience }) (hl : m'.ledger = m.ledger) :
    Replayed initial m' := by
  have hwriter : ∀ j, m'.repository.writer j =
      if j = m.repository.writers.length then { patience } else m.repository.writer j := by
    intro j
    rw [hr]
    exact m.repository.writer_addWriter j _
  refine ⟨?_, ?_, ?_⟩
  · rw [hr, hl]
    exact h.contents
  · intro j hj
    rw [hwriter] at hj ⊢
    rw [hl]
    split
    · -- nothing was entered yet for the number that the new writer gets
      rename_i hlen
      rw [h.blank hlen.ge]
      exact .new _ patience
    · rename_i hlen
      rw [if_neg hlen] at hj
      refine (h.mirrors hj).congr rfl rfl fun _ => ?_
      rw [hr]
      exact ⟨rfl, rfl⟩
  · intro j hj
    rw [hl]
    refine h.blank (le_trans ?_ hj)
    rw [hr]
    simp [Repository.addWriter]

/-- A writer changes one of its stores. -/
theorem edit (h : Replayed initial m) (ha : Apart m) {w : WriteHandle}
    (hw : .writing w ∈ m.handles) (hp : (m.repository.writer w.writer).phase = .working)
    (c : Change)
    (hr : m'.repository = m.repository.putStore w.store (c.apply (m.repository.store w.store)))
    (hl : m'.ledger = m.ledger.enter (.edited w c)) : Replayed initial m' := by
  have hcontents := ha.contents_putStore hw hp (c.apply (m.repository.store w.store))
  refine ⟨?_, ?_, ?_⟩
  · rw [hr, hl, hcontents]
    exact h.contents
  · intro j hj
    have hj' : (m.repository.writer j).phase = .working := by
      rw [hr] at hj
      exact hj
    rw [hr, hl]
    show Mirrors _ (m.repository.writer j)
      (if j = w.writer then (m.ledger.accounts j).edited w.store c else m.ledger.accounts j)
    by_cases hjw : j = w.writer
    · rw [if_pos hjw]
      exact (h.mirrors hj').edited c (ha.known hw).2 hcontents
    · -- no other writer has this store among its own
      rw [if_neg hjw]
      exact (h.mirrors hj').congr rfl rfl fun hi =>
        ⟨ha.store_putStore_of_ne hw hjw hi _, congrFun hcontents _⟩
  · intro j hj
    have hj' : m.repository.writers.length ≤ j := by
      rw [hr] at hj
      exact hj
    have hlt := lt_of_working hp
    rw [hl]
    show (if j = w.writer then _ else m.ledger.accounts j) = _
    rw [if_neg (by omega)]
    exact h.blank hj'

/-- A writer publishes.  The names that it changes are locked by it alone, so that all other writers
still build upon what is published. -/
theorem publishing (h : Replayed initial m) (hk : LocksKept m) {id : Nat}
    (hp : (m.repository.writer id).phase = .working)
    (hr : m'.repository = m.repository.publishing id)
    (hl : m'.ledger = m.ledger.enter (.published id)) : Replayed initial m' := by
  have hwriter := fun j => writer_publishing (lt_of_working hp) j
  have hcontents : ∀ name, (m.repository.publishing id).contents name =
      ((m.repository.writer id).staged.find m.repository.stores name).or
        (if name ∈ (m.repository.writer id).deleted then none else m.repository.contents name) :=
    fun name => Directory.find_amended _ _ _ _ name
  refine ⟨?_, ?_, ?_⟩
  · have hreplay : m'.ledger.replay initial =
        (m.ledger.accounts id).apply (m.ledger.replay initial) := by
      rw [hl, Ledger.replay, Ledger.enter, List.foldl_append]
      rfl
    rw [hreplay, ← h.contents, (h.mirrors hp).apply_eq, hr]
    rfl
  · intro j hj
    rw [hr] at hj ⊢
    rw [hl]
    show Mirrors _ _ (m.ledger.accounts j)
    rw [hwriter] at hj ⊢
    by_cases hjid : j = id
    · rw [if_pos hjid] at hj
      exact Phase.noConfusion hj
    · rw [if_neg hjid] at hj ⊢
      -- under a name that another writer has locked, the same is published as before
      refine (h.mirrors hj).congr rfl rfl fun {name i} hi => ⟨rfl, ?_⟩
      obtain ⟨hstaged, hdeleted⟩ := hk.untouched hjid hj hp hi
      rw [hcontents, Directory.find, hstaged, if_neg hdeleted]
      rfl
  · intro j hj
    rw [hl]
    have hj' : m.repository.writers.length ≤ j := by
      rw [hr] at hj
      exact hj.trans_eq' List.length_set
    exact h.blank hj'

/-! ### One lemma for each kind of step -/

/-- Nothing changes that matters. -/
theorem of_eq (h : Replayed initial m) (ha : Apart m)
    (hp : m'.repository.published = m.repository.published)
    (hs : m'.repository.stores = m.repository.stores)
    (hw : m'.repository.writers = m.repository.writers) (hl : m'.ledger = m.ledger) :
    Replayed initial m' := by
  refine h.frame ha ⟨hp, hs ▸ List.prefix_rfl⟩ hl (by rw [hw]) fun id hid => ?_
  rw [Repository.writer, Repository.writer, hw] at *
  exact ⟨hid, rfl, rfl⟩

/-- A writer changes in other things than its staged and deleted collections. -/
theorem revise (h : Replayed initial m) (ha : Apart m) {id : Nat} {f : Writer → Writer}
    (hp : (f (m.repository.writer id)).phase = (m.repository.writer id).phase)
    (hs : (f (m.repository.writer id)).staged = (m.repository.writer id).staged)
    (hd : (f (m.repository.writer id)).deleted = (m.repository.writer id).deleted)
    (hr : m'.repository = m.repository.revise id f) (hl : m'.ledger = m.ledger) :
    Replayed initial m' := by
  refine h.frame ha ?_ hl ?_ fun j hj => ?_
  · rw [hr]
    exact ⟨rfl, List.prefix_rfl⟩
  · rw [hr, length_writers_revise]
  · rw [hr, writer_revise] at hj ⊢
    split at hj
    · rename_i hjid
      rw [if_pos hjid, hjid.1]
      exact ⟨hp.symm.trans hj, hs, hd⟩
    · rename_i hjid
      rw [if_neg hjid]
      exact ⟨hj, rfl, rfl⟩

theorem mild (h : Replayed initial m) (ha : Apart m) {id : Nat} {f : Writer → Writer} (hf : Mild f)
    (hr : m'.repository = m.repository.revise id f) (hl : m'.ledger = m.ledger) :
    Replayed initial m' := by
  obtain ⟨hp, -, hs, hd, -⟩ := hf (m.repository.writer id)
  exact h.revise ha hp hs hd hr hl

/-- Some writer ends. -/
theorem concluding (h : Replayed initial m) (ha : Apart m) (id : Nat)
    (he : Extends m.repository m'.repository) (hl : m'.ledger = m.ledger)
    (hlen : m'.repository.writers.length = m.repository.writers.length)
    (hw : ∀ j, j ≠ id → m'.repository.writer j = m.repository.writer j)
    (hid : (m'.repository.writer id).phase = .ended) : Replayed initial m' := by
  refine h.frame ha he hl hlen.ge fun j hj => ?_
  by_cases hjid : j = id
  · rw [hjid, hid] at hj
    exact Phase.noConfusion hj
  · rw [hw j hjid] at hj ⊢
    exact ⟨hj, rfl, rfl⟩

theorem concluded (h : Replayed initial m) (ha : Apart m) (id : Nat)
    (hr : m'.repository = m.repository.concluding id) (hl : m'.ledger = m.ledger) :
    Replayed initial m' := by
  refine h.concluding ha id ?_ hl ?_ (fun j hj => ?_) ?_
  · rw [hr]
    exact ⟨rfl, List.prefix_rfl⟩
  · rw [hr, length_writers_concluding]
  · rw [hr, writer_concluding, if_neg hj]
  · rw [hr, phase_concluding, if_pos rfl]

theorem request (h : Replayed initial m) (ha : Apart m) (hs : RequestStep m m') :
    Replayed initial m' := by
  cases hs with
  | quiet he =>
    exact h.of_eq ha rfl rfl rfl (Machine.ledger_quiet rfl (Event.deed?_of_isPlain he))
  | read he =>
    exact h.of_eq ha rfl rfl rfl (Machine.ledger_quiet rfl (Event.deed?_of_isPlain he))
  | write he patience =>
    exact h.addWriter patience rfl (Machine.ledger_quiet rfl (Event.deed?_of_isPlain he))
  | close he host =>
    exact h.of_eq ha rfl rfl rfl (Machine.ledger_quiet rfl (Event.deed?_of_isPlain he))
  | patience he id hf =>
    exact h.mild ha hf rfl (Machine.ledger_quiet rfl (Event.deed?_of_isPlain he))
  | cancel id => exact h.of_eq ha rfl rfl rfl (Machine.ledger_quiet rfl rfl)
  | collection he ho hl =>
    exact h.of_eq ha rfl rfl rfl (Machine.ledger_quiet rfl (Event.deed?_of_isPlain he))
  | search he p ho =>
    exact h.of_eq ha rfl rfl rfl (Machine.ledger_quiet rfl (Event.deed?_of_isPlain he))
  | found he l =>
    exact h.of_eq ha rfl rfl rfl (Machine.ledger_quiet rfl (Event.deed?_of_isPlain he))
  | copies he p hw =>
    exact h.frame ha ⟨rfl, List.prefix_append _ _⟩
      (Machine.ledger_quiet rfl (Event.deed?_of_isPlain he)) le_rfl fun _ hp => ⟨hp, rfl, rfl⟩
  | edit he hh hw host => exact h.edit ha hh hw _ rfl (Machine.ledger_deed rfl he)

/-- A collection that is open already is opened once more. -/
theorem reopen (h : Replayed initial m) (ha : Apart m) {k : WriteHandle}
    (hp : (m.repository.writer k.writer).phase = .working)
    (hl : (m.repository.writer k.writer).staged.lookup k.name = some k.store)
    (hr : m'.repository = m.repository)
    (hd : m'.ledger = m.ledger.enter (.opened k)) : Replayed initial m' := by
  refine h.update ha ?_ (f := (·.opened k)) hd hp (by rw [hr]) (fun j _ => by rw [hr]) fun hm => ?_
  · rw [hr]
    exact ⟨rfl, List.prefix_rfl⟩
  · rw [hr, hm.reopened hl]
    exact hm

/-- A collection is opened in a new store. -/
theorem stage (h : Replayed initial m) (ha : Apart m) {id : Nat} {name : Iri}
    (hp : (m.repository.writer id).phase = .working)
    (hl : (m.repository.writer id).staged.lookup name = none)
    (hr : m'.repository = m.repository.opening id name)
    (hd : m'.ledger = m.ledger.enter (.opened ⟨id, name, m.repository.stores.length⟩)) :
    Replayed initial m' := by
  have he : Extends m.repository (m.repository.opening id name) :=
    ⟨rfl, List.prefix_append _ _⟩
  have hwriter := writer_opening (lt_of_working hp) name
  have hnew : (m.repository.opening id name).store m.repository.stores.length =
      m.repository.original (m.repository.writer id) name := by
    rw [Repository.store, Repository.opening, getD_concat, if_pos rfl]
  refine h.update ha (hr ▸ he) (f := (·.opened ⟨id, name, m.repository.stores.length⟩)) hd hp ?_
    (fun j hj => ?_) fun hm => ?_
  · rw [hr]
    exact List.length_set
  · rw [hr, hwriter, if_neg hj]
  · rw [hr, hwriter, if_pos rfl]
    exact hm.opened (k := ⟨id, name, m.repository.stores.length⟩) hl hnew
      (fun hi => ha.store_extends he hi) (ha.contents_extends he)

/-- A collection is deleted. -/
theorem unstage (h : Replayed initial m) (ha : Apart m) {id : Nat} {name : Iri}
    (hp : (m.repository.writer id).phase = .working)
    (hr : m'.repository = m.repository.revise id (Writer.deleting name))
    (hd : m'.ledger = m.ledger.enter (.deleted id name)) : Replayed initial m' := by
  have hwriter := fun j => writer_revise_of_lt (lt_of_working hp) j (Writer.deleting name)
  refine h.update ha ?_ (f := (·.erased name)) hd hp ?_ (fun j hj => ?_) fun hm => ?_
  · rw [hr]
    exact ⟨rfl, List.prefix_rfl⟩
  · rw [hr, length_writers_revise]
  · rw [hr, hwriter, if_neg hj]
  · rw [hr, hwriter, if_pos rfl]
    exact (hm.erased name).congr rfl rfl fun _ => ⟨rfl, rfl⟩

theorem visit (h : Replayed initial m) (ha : Apart m) (hs : VisitStep m m') :
    Replayed initial m' := by
  cases hs with
  | begin hv => exact h.of_eq ha rfl rfl rfl rfl
  | move hk hg hp he => exact h.of_eq ha rfl rfl rfl rfl
  | fail hk x hg => exact h.of_eq ha rfl rfl rfl (Machine.ledger_quiet rfl rfl)
  | grant hk waited hg hl => exact h.of_eq ha rfl rfl rfl rfl
  | lose hk x hg => exact h.of_eq ha rfl rfl rfl (Machine.ledger_quiet rfl rfl)
  | @keep k hk hg hw =>
    exact h.revise ha (f := Writer.keeping (m.visit k).name) rfl rfl rfl rfl rfl
  | reopen hk hg hw hl => exact h.reopen ha hw hl rfl (Machine.ledger_deed rfl rfl)
  | stage hk hg hw hl => exact h.stage ha hw hl rfl (Machine.ledger_deed rfl rfl)
  | unstage hk hg hw => exact h.unstage ha hw rfl (Machine.ledger_deed rfl rfl)

theorem closing (h : Replayed initial m) (hk : LocksKept m) (ha : Apart m)
    (hs : ClosingStep m m') : Replayed initial m' := by
  cases hs with
  | begin hc => exact h.of_eq ha rfl rfl rfl rfl
  | interrupt hk hp hf => exact h.mild ha hf rfl rfl
  | publish _ hp hc hw ho rest host => exact h.publishing hk hw rfl (Machine.ledger_deed rfl rfl)
  | @refuse k hk hp hc hw ho =>
    exact h.concluded ha (m.closing k).writer rfl (Machine.ledger_quiet rfl rfl)
  | @dismiss k hk hp hc hw =>
    refine h.concluding ha (m.closing k).writer ⟨rfl, List.prefix_rfl⟩
      (Machine.ledger_quiet rfl rfl) (length_writers_discarding _ _) (fun j hj => ?_) ?_
    · exact writer_discarding_of_ne _ hj
    · exact (phase_discarding _ _ _).trans (if_pos rfl)
  | late hk hp hw => exact h.of_eq ha rfl rfl rfl (Machine.ledger_quiet rfl rfl)
  | tell hk hp hm host => exact h.of_eq ha rfl rfl rfl rfl
  | @finish k hk errors hp =>
    exact h.concluded ha (m.closing k).writer rfl (Machine.ledger_quiet rfl rfl)

theorem start (c : Collections) (host : Host) :
    Replayed (fun name => c.lookup name) (Machine.start c host) := by
  refine ⟨contents_holding c, ?_, fun _ => rfl⟩
  intro id hp
  exact Phase.noConfusion hp

/-- The invariant holds after all moves; it rests on the locks and on the stores being kept apart.
-/
theorem run (c : Collections) (host : Host) (moves : List Move) :
    Replayed (fun name => c.lookup name) ((Machine.start c host).run moves) := by
  have h := Machine.run_induction
    (P := fun m => LocksKept m ∧ Apart m ∧ Replayed (fun name => c.lookup name) m)
    (fun ⟨hk, ha, h⟩ hs => ⟨hk.request hs, ha.request hs, h.request ha hs⟩)
    (fun ⟨hk, ha, h⟩ hs => ⟨hk.visit hs, ha.visit hs, h.visit ha hs⟩)
    (fun ⟨hk, ha, h⟩ hs => ⟨hk.closing hs, ha.closing hs, h.closing hk ha hs⟩)
    (Machine.start c host) ⟨.start c host, .start c host, start c host⟩ moves
  exact h.2.2

end Replayed

/-! ### The main result -/

/-- **Committed writers might have worked one after the other.**  Whatever the order in which the
calls of any number of writers do their steps, what is published is what was published at first
after the work of those that have published, in the order of publication: each takes away what it
left deleted, and makes its changes to what it left open from what the one before has left, or from
nothing where it had deleted the collection before.  A writer publishes at most once, and it has
done so exactly if a commit of it has answered so or is telling the backing; so none has that still
takes calls, was cancelled or found the repository closed. -/
theorem Machine.serializable (c : Collections) (host : Host) (moves : List Move) :
    let m := (Machine.start c host).run moves
    m.repository.contents = m.ledger.replay (fun name => c.lookup name) ∧
      m.ledger.writers.Nodup ∧
      (∀ id, id ∈ m.ledger.writers ↔
        (m.repository.writer id).phase = .committing ∨ m.Committed id) ∧
      ∀ id ∈ m.ledger.writers, (m.repository.writer id).phase ≠ .working ∧ ¬ m.Fruitless id := by
  intro m
  have h : Settled m := .run c host moves
  have hcontents := (Replayed.run c host moves).contents
  refine ⟨hcontents, h.nodup, h.mem, ?_⟩
  intro id hid
  exact ⟨fun hw => h.idle hw hid, fun hf => h.fruitless hf hid⟩

-- two writers of one collection: the second asks for the lock while the first works, gets it when
-- the first has committed, and is telling the backing at the end
example :
    ((Machine.start [] {}).run [
      .ask (.write .unlimited), .ask (.write .unlimited),
      .visit 0 [97] false, .advance 0, .advance 0, .advance 0, .advance 0, .advance 0,
      .visit 1 [97] false, .advance 1, .advance 1, .advance 1, .advance 1,
      .ask (.edit ⟨0, [97], 0⟩ (.removeSubject none)),
      .close 0 true, .proceed 0, .proceed 0, .proceed 0,
      .advance 1, .advance 1, .advance 1,
      .close 1 true, .proceed 1, .proceed 1]).ledger.writers = [0, 1] := by
  decide

end TripleStore
