import TripleStore.Proofs.Graph.History
import TripleStore.Proofs.Repository.Serial

/-!
# Statements that were added

A writer may open a collection, delete it and open it again.  The handle that it got first still
takes statements, but the store behind it is no longer the one that the writer will publish.

* `Current`: the collection of a handle was not deleted since the handle was given out.
* `Kept`: what was added through a current handle, and not removed, is in the store that the writer
  will publish; what is changed through another handle makes no difference to any account; with one
  lemma for each kind of step.
* `Machine.added_published_of_current`: **a statement that was added through a current handle is
  published, and one that was added through another handle is lost.**
* `Machine.added_through_old_handle`: such a loss.
-/

namespace TripleStore

open Repository

/-! ### What was done -/

/-- What all writers did, in order. -/
def Machine.deeds (m : Machine) : List Deed := m.history.filterMap Event.deed?

/-- The ledger in which some deeds were entered. -/
def Ledger.ofDeeds (deeds : List Deed) : Ledger := deeds.foldl Ledger.enter {}

/-- The collection of a handle was not deleted by its writer since the handle was given out. -/
def Current (h : WriteHandle) (deeds : List Deed) : Prop :=
  ∃ before after, deeds = before ++ .opened h :: after ∧ .deleted h.writer h.name ∉ after

/-- Whether a deed takes a triple away from the collection of a handle, or the collection itself. -/
def Deed.Undoes (h : WriteHandle) (t : Triple) : Deed → Prop
  | .deleted id name => id = h.writer ∧ name = h.name
  | .edited k c => k.writer = h.writer ∧ k.name = h.name ∧ c.Removes t
  | _ => False

/-- A triple was added through a handle that was current then, and nothing has undone this. -/
def Added (h : WriteHandle) (t : Triple) (deeds : List Deed) : Prop :=
  ∃ before after, deeds = before ++ .edited h (.add t) :: after ∧ Current h before ∧
    ∀ d ∈ after, ¬ d.Undoes h t

section Deeds

variable {h : WriteHandle} {t : Triple} {d : Deed} {deeds before after : List Deed}

theorem current_concat :
    Current h (deeds ++ [d]) ↔ d = .opened h ∨ Current h deeds ∧ d ≠ .deleted h.writer h.name := by
  constructor
  · rintro ⟨before, after, hd, hn⟩
    rcases concat_eq_append_cons hd with ⟨-, rfl, -⟩ | ⟨rest, rfl, rfl⟩
    · exact .inl rfl
    · refine .inr ⟨⟨before, rest, rfl, fun hm => hn (List.mem_append_left _ hm)⟩, ?_⟩
      rintro rfl
      exact hn (List.mem_append_right _ List.mem_cons_self)
  · rintro (rfl | ⟨⟨before, after, rfl, hn⟩, hd⟩)
    · exact ⟨deeds, [], rfl, List.not_mem_nil⟩
    · refine ⟨before, after ++ [d], by simp, ?_⟩
      rw [List.mem_append, List.mem_singleton, not_or]
      exact ⟨hn, fun he => hd he.symm⟩

/-- What neither opens nor deletes anything leaves all handles as they are. -/
theorem current_concat_of_ne (ho : d ≠ .opened h) (hd : d ≠ .deleted h.writer h.name) :
    Current h (deeds ++ [d]) ↔ Current h deeds := by
  rw [current_concat, or_iff_right ho, and_iff_left hd]

theorem added_concat (ha : Added h t (deeds ++ [d])) :
    (d = .edited h (.add t) ∧ Current h deeds) ∨ Added h t deeds ∧ ¬ d.Undoes h t := by
  obtain ⟨before, after, hd, hc, hn⟩ := ha
  rcases concat_eq_append_cons hd with ⟨rfl, rfl, -⟩ | ⟨rest, rfl, rfl⟩
  · exact .inl ⟨rfl, hc⟩
  · exact .inr ⟨⟨before, rest, rfl, hc, fun e he => hn e (List.mem_append_left _ he)⟩,
      hn d (List.mem_append_right _ List.mem_cons_self)⟩

/-- A handle through which something was added is current as long as that is not undone. -/
theorem Added.current (ha : Added h t deeds) : Current h deeds := by
  obtain ⟨before, after, rfl, ⟨first, second, rfl, hn⟩, hu⟩ := ha
  refine ⟨first, second ++ .edited h (.add t) :: after, by simp, ?_⟩
  rw [List.mem_append, List.mem_cons, not_or, not_or]
  exact ⟨hn, Deed.noConfusion, fun hm => hu _ hm ⟨rfl, rfl⟩⟩

end Deeds

/-! ### Accounts -/

namespace Account

variable {a : Account}

/-- A change to a store that is not one of the open ones makes no difference. -/
theorem edited_of_ne {store : Nat} (hne : ∀ p ∈ a.staged, p.2.store ≠ store) (c : Change) :
    a.edited store c = a := by
  have hmap : a.staged.map (fun p => (p.1, p.2.extended store c)) = a.staged := by
    conv_rhs => rw [← List.map_id a.staged]
    refine List.map_congr_left fun p hp => ?_
    rw [Work.extended_of_ne (hne p hp)]
    rfl
  rw [edited, hmap]

/-- Each name stands in an account once. -/
def Proper (a : Account) : Prop := (a.staged.map Prod.fst).Nodup

theorem Proper.opened (h : a.Proper) (k : WriteHandle) : (a.opened k).Proper := by
  rw [Account.opened]
  cases a.staged.lookup k.name with
  | some work => exact h
  | none =>
    show (k.name :: (a.staged.filter fun p => p.1 ≠ k.name).map Prod.fst).Nodup
    refine List.nodup_cons.mpr ⟨?_, h.sublist (List.filter_sublist.map Prod.fst)⟩
    simp

theorem Proper.erased (h : a.Proper) (name : Iri) : (a.erased name).Proper :=
  h.sublist (List.filter_sublist.map Prod.fst)

theorem Proper.edited (h : a.Proper) (store : Nat) (c : Change) : (a.edited store c).Proper := by
  show ((a.staged.map fun p => (p.1, p.2.extended store c)).map Prod.fst).Nodup
  rw [List.map_map]
  exact h

theorem Proper.lookup (h : a.Proper) {p : Iri × Work} (hp : p ∈ a.staged) :
    a.staged.lookup p.1 = some p.2 := by
  rw [List.lookup_eq_some_iff]
  obtain ⟨before, after, hs⟩ := List.append_of_mem hp
  refine ⟨before, after, hs, ?_⟩
  intro q hq
  rw [Proper, hs, List.map_append, List.map_cons] at h
  have hdis := (List.nodup_append.mp h).2.2 q.1 (List.mem_map_of_mem hq) p.1 List.mem_cons_self
  exact bne_iff_ne.mpr hdis.symm

end Account

theorem Ledger.proper_ofDeeds (deeds : List Deed) (id : Nat) :
    ((Ledger.ofDeeds deeds).accounts id).Proper := by
  induction deeds using List.reverseRecOn with
  | nil => exact List.nodup_nil
  | append_singleton deeds d ih =>
    rw [ofDeeds, List.foldl_append]
    show (((ofDeeds deeds).enter d).accounts id).Proper
    cases d with
    | opened k =>
      show (if id = k.writer then _ else _ : Account).Proper
      split
      · exact ih.opened k
      · exact ih
    | deleted j name =>
      show (if id = j then _ else _ : Account).Proper
      split
      · exact ih.erased name
      · exact ih
    | edited k c =>
      show (if id = k.writer then _ else _ : Account).Proper
      split
      · exact ih.edited k.store c
      · exact ih
    | published j => exact ih

namespace Machine

variable {m m' : Machine} {e : Event} {d : Deed}

theorem ledger_eq (m : Machine) : m.ledger = Ledger.ofDeeds m.deeds := rfl

theorem deeds_quiet (hh : m'.history = m.history ++ [e]) (he : e.deed? = none) :
    m'.deeds = m.deeds := by
  rw [deeds, hh, List.filterMap_append]
  simp [he, deeds]

theorem deeds_deed (hh : m'.history = m.history ++ [e]) (he : e.deed? = some d) :
    m'.deeds = m.deeds ++ [d] := by
  rw [deeds, hh, List.filterMap_append]
  simp [he, deeds]

theorem deeds_ne_concat {d' : Deed} {deeds : List Deed} (hd : m'.deeds = m.deeds ++ [d])
    (hne : d ≠ d') : m'.deeds ≠ deeds ++ [d'] := by
  rw [hd]
  exact fun h => hne (List.singleton_inj.mp (List.append_inj_right' h rfl))

end Machine

/-- What one writer keeps when it changes, all of them keep. -/
theorem apply_writer_eq {β : Type} (f : Writer → β) {s s' : Repository} {id : Nat} {w : Writer}
    (hw : ∀ j, s'.writer j = if j = id then w else s.writer j) (hf : f w = f (s.writer id))
    (j : Nat) : f (s'.writer j) = f (s.writer j) := by
  rw [hw]
  split
  · rename_i hj
    rw [hj, hf]
  · rfl

/-! ### The invariant -/

/-- What handles that are current or not lead to, and what became of what was added through them.
-/
structure Kept (m : Machine) : Prop where
  /-- A current handle was given out, and leads to the store that its writer has open. -/
  current : ∀ {h}, Current h m.deeds → .writing h ∈ m.handles ∧
    ((m.repository.writer h.writer).phase = .working →
      (m.repository.writer h.writer).staged.lookup h.name = some h.store)
  /-- Any other handle leads to a store that no writer has open. -/
  stale : ∀ {h}, .writing h ∈ m.handles → ¬ Current h m.deeds →
    ∀ id name, (m.repository.writer id).staged.lookup name ≠ some h.store
  /-- What was added and not undone is in the store. -/
  added : ∀ {h t}, Added h t m.deeds → (m.repository.writer h.writer).phase = .working →
    t ∈ (m.repository.store h.store).triples
  /-- When its writer has published, it is in what is published. -/
  published : ∀ {h t deeds}, m.deeds = deeds ++ [.published h.writer] → Added h t deeds →
    ∃ g, m.repository.contents h.name = some g ∧ t ∈ g.triples
  /-- What was changed through any other handle makes no difference. -/
  ignored : ∀ {h c before after}, m.deeds = before ++ .edited h c :: after → ¬ Current h before →
    Ledger.ofDeeds (before ++ [.edited h c]) = .ofDeeds before

namespace Kept

variable {initial : Iri → Option Graph} {m m' : Machine}

/-- Nothing was done: stores were at most added, and no writer has opened anything. -/
theorem calm (h : Kept m) (ha : Apart m) (hr : Replayed initial m) (hr' : Replayed initial m')
    (hd : m'.deeds = m.deeds) (he : m.repository.stores <+: m'.repository.stores)
    (hh : ∀ k, .writing k ∈ m'.handles ↔ .writing k ∈ m.handles)
    (hs : ∀ id name i, (m'.repository.writer id).staged.lookup name = some i →
      (m.repository.writer id).staged.lookup name = some i)
    (hw : ∀ id < m.repository.writers.length, (m'.repository.writer id).phase = .working →
      (m.repository.writer id).phase = .working ∧
        (m'.repository.writer id).staged = (m.repository.writer id).staged) : Kept m' := by
  refine ⟨?_, ?_, ?_, ?_, ?_⟩
  · intro k hk
    rw [hd] at hk
    obtain ⟨hk, hl⟩ := h.current hk
    refine ⟨(hh k).mpr hk, fun hp => ?_⟩
    obtain ⟨hp, hst⟩ := hw _ (ha.known hk).1 hp
    rw [hst]
    exact hl hp
  · intro k hk hc id name hl
    rw [hd] at hc
    exact h.stale ((hh k).mp hk) hc id name (hs id name _ hl)
  · intro k t hk hp
    rw [hd] at hk
    have hmem := (h.current hk.current).1
    obtain ⟨more, hmore⟩ := he
    rw [Repository.store, ← hmore, getD_append_left (ha.known hmem).2]
    exact h.added hk (hw _ (ha.known hmem).1 hp).1
  · intro k t deeds hds hk
    have hc : m'.repository.contents = m.repository.contents := by
      rw [hr'.contents, hr.contents, Machine.ledger_eq, Machine.ledger_eq, hd]
    rw [hd] at hds
    rw [hc]
    exact h.published hds hk
  · intro k c before after hds
    rw [hd] at hds
    exact h.ignored hds

/-- What was ignored before is ignored still when something else was done. -/
theorem ignored_concat (h : Kept m) {d : Deed} (hd : m'.deeds = m.deeds ++ [d])
    (hlast : ∀ k c, d = .edited k c → ¬ Current k m.deeds →
      Ledger.ofDeeds (m.deeds ++ [.edited k c]) = .ofDeeds m.deeds)
    {k : WriteHandle} {c : Change} {before after : List Deed}
    (hds : m'.deeds = before ++ .edited k c :: after) (hc : ¬ Current k before) :
    Ledger.ofDeeds (before ++ [.edited k c]) = .ofDeeds before := by
  rw [hd] at hds
  rcases concat_eq_append_cons hds with ⟨rfl, rfl, -⟩ | ⟨rest, -, hrest⟩
  · exact hlast k c rfl hc
  · exact h.ignored hrest hc

/-- A change through a handle that is not current makes no difference to the ledger. -/
theorem edit_of_stale (h : Kept m) (hr : Replayed initial m) {k : WriteHandle}
    (hk : .writing k ∈ m.handles) (hp : (m.repository.writer k.writer).phase = .working)
    (hc : ¬ Current k m.deeds) (c : Change) :
    Ledger.ofDeeds (m.deeds ++ [.edited k c]) = .ofDeeds m.deeds := by
  have hm := hr.mirrors hp
  have hprop := Ledger.proper_ofDeeds m.deeds k.writer
  -- no open collection of the writer is kept in this store
  have hne : ∀ p ∈ (m.ledger.accounts k.writer).staged, p.2.store ≠ k.store := by
    intro p hpm hst
    have hl := hm.lookup_staged (hprop.lookup hpm)
    rw [hst] at hl
    exact h.stale hk hc _ _ hl
  rw [Ledger.ofDeeds, List.foldl_append]
  show m.ledger.revise k.writer (·.edited k.store c) = m.ledger
  rw [Ledger.revise]
  congr 1
  funext i
  split
  · rename_i hi
    rw [hi, Account.edited_of_ne hne]
    rfl
  · rfl

/-- A writer changes one of its stores. -/
theorem edit (h : Kept m) (ha : Apart m) (hr : Replayed initial m) {k : WriteHandle} {c : Change}
    (hk : .writing k ∈ m.handles) (hp : (m.repository.writer k.writer).phase = .working)
    (hs : m'.repository = m.repository.putStore k.store (c.apply (m.repository.store k.store)))
    (hh : m'.handles = m.handles) (hd : m'.deeds = m.deeds ++ [.edited k c]) : Kept m' := by
  have hcur : ∀ {x}, Current x m'.deeds ↔ Current x m.deeds := by
    intro x
    rw [hd, current_concat_of_ne Deed.noConfusion Deed.noConfusion]
  have hwriter : ∀ id, m'.repository.writer id = m.repository.writer id := by
    intro id
    rw [hs]
    rfl
  refine ⟨?_, ?_, ?_, ?_, ?_⟩
  · intro x hx
    rw [hwriter, hh]
    exact h.current (hcur.mp hx)
  · intro x hx hc id name
    rw [hwriter]
    exact h.stale (hh ▸ hx) (fun hx => hc (hcur.mpr hx)) id name
  · intro x t hx hpx
    rw [hwriter] at hpx
    rw [hs, store_putStore]
    rw [hd] at hx
    rcases added_concat hx with ⟨he, -⟩ | ⟨hx, hu⟩
    · cases he
      rw [if_pos ⟨rfl, (ha.known hk).2⟩]
      exact Graph.mem_triples_add.mpr (.inr rfl)
    · have ht := h.added hx hpx
      split
      · -- a store is known to one handle only, so the change was made through this one
        rename_i hstore
        obtain rfl := ha.single (h.current hx.current).1 hk hstore.1
        exact Change.mem_triples_apply.mpr (.inr ⟨ht, fun hrem => hu ⟨rfl, rfl, hrem⟩⟩)
      · exact ht
  · intro x t deeds hds
    exact absurd hds (Machine.deeds_ne_concat hd Deed.noConfusion)
  · intro x c' before after
    refine h.ignored_concat hd fun y b hy hc => ?_
    cases hy
    exact h.edit_of_stale hr hk hp hc c

/-- A collection is opened once more. -/
theorem reopen (h : Kept m) {k : WriteHandle}
    (hl : (m.repository.writer k.writer).staged.lookup k.name = some k.store)
    (hs : m'.repository = m.repository)
    (hh : m'.handles = .writing k :: m.handles) (hd : m'.deeds = m.deeds ++ [.opened k]) :
    Kept m' := by
  refine ⟨?_, ?_, ?_, ?_, ?_⟩
  · intro x hx
    rw [hs, hh]
    rw [hd, current_concat] at hx
    rcases hx with hx | ⟨hx, -⟩
    · cases hx
      exact ⟨List.mem_cons_self, fun _ => hl⟩
    · exact ⟨List.mem_cons_of_mem _ (h.current hx).1, (h.current hx).2⟩
  · intro x hx hc
    rw [hd, current_concat, not_or] at hc
    rw [hs]
    rw [hh] at hx
    rcases List.mem_cons.mp hx with hx | hx
    · cases hx
      exact absurd rfl hc.1
    · exact h.stale hx fun hx => hc.2 ⟨hx, Deed.noConfusion⟩
  · intro x t hx hp
    rw [hs] at hp ⊢
    rw [hd] at hx
    rcases added_concat hx with ⟨he, -⟩ | ⟨hx, -⟩
    · cases he
    · exact h.added hx hp
  · intro x t deeds hds
    exact absurd hds (Machine.deeds_ne_concat hd Deed.noConfusion)
  · intro x c before after
    exact h.ignored_concat hd fun _ _ hy => Deed.noConfusion hy

/-- A collection is opened in a new store. -/
theorem stage (h : Kept m) (ha : Apart m) {id : Nat} {name : Iri}
    (hp : (m.repository.writer id).phase = .working)
    (hl : (m.repository.writer id).staged.lookup name = none)
    (hs : m'.repository = m.repository.opening id name)
    (hh : m'.handles = .writing ⟨id, name, m.repository.stores.length⟩ :: m.handles)
    (hd : m'.deeds = m.deeds ++ [.opened ⟨id, name, m.repository.stores.length⟩]) : Kept m' := by
  have hwriter : ∀ j, m'.repository.writer j = if j = id then
      (m.repository.writer id).opening name m.repository.stores.length
      else m.repository.writer j := by
    intro j
    rw [hs]
    exact writer_opening (lt_of_working hp) name j
  have hlook : ∀ j n, (m'.repository.writer j).staged.lookup n = if j = id ∧ n = name
      then some m.repository.stores.length else (m.repository.writer j).staged.lookup n := by
    intro j n
    rw [hwriter]
    by_cases hj : j = id
    · rw [if_pos hj, hj, Writer.opening, Named.lookup_put]
      simp only [true_and]
    · rw [if_neg hj, if_neg fun he => hj he.1]
  have hphase : ∀ j, (m'.repository.writer j).phase = (m.repository.writer j).phase :=
    apply_writer_eq Writer.phase hwriter rfl
  refine ⟨?_, ?_, ?_, ?_, ?_⟩
  · intro x hx
    rw [hh, hphase, hlook]
    rw [hd, current_concat] at hx
    rcases hx with hx | ⟨hx, -⟩
    · cases hx
      exact ⟨List.mem_cons_self, fun _ => if_pos ⟨rfl, rfl⟩⟩
    · obtain ⟨hmem, hlx⟩ := h.current hx
      refine ⟨List.mem_cons_of_mem _ hmem, fun hpx => ?_⟩
      split
      · -- the collection was not open
        rename_i hxid
        rw [← hxid.1, ← hxid.2, hlx hpx] at hl
        cases hl
      · exact hlx hpx
  · intro x hx hc j n
    rw [hd, current_concat, not_or] at hc
    rw [hh] at hx
    rw [hlook]
    rcases List.mem_cons.mp hx with hx | hx
    · cases hx
      exact absurd rfl hc.1
    · split
      · -- the store is new, so that no handle from before knows it
        intro he
        exact (ha.known hx).2.ne (Option.some.inj he).symm
      · exact h.stale hx (fun hx => hc.2 ⟨hx, Deed.noConfusion⟩) j n
  · intro x t hx hpx
    rw [hphase] at hpx
    rw [hd] at hx
    rcases added_concat hx with ⟨he, -⟩ | ⟨hx, -⟩
    · cases he
    · have hlt := (ha.known (h.current hx.current).1).2
      rw [hs, Repository.store, Repository.opening, getD_append_left hlt]
      exact h.added hx hpx
  · intro x t deeds hds
    exact absurd hds (Machine.deeds_ne_concat hd Deed.noConfusion)
  · intro x c before after
    exact h.ignored_concat hd fun _ _ hy => Deed.noConfusion hy

/-- A collection is deleted. -/
theorem unstage (h : Kept m) (ha : Apart m) {id : Nat} {name : Iri}
    (hp : (m.repository.writer id).phase = .working)
    (hs : m'.repository = m.repository.revise id (Writer.deleting name))
    (hh : m'.handles = m.handles) (hd : m'.deeds = m.deeds ++ [.deleted id name]) : Kept m' := by
  have hwriter : ∀ j, m'.repository.writer j = if j = id then
      (m.repository.writer id).deleting name else m.repository.writer j := by
    intro j
    rw [hs]
    exact writer_revise_of_lt (lt_of_working hp) j (Writer.deleting name)
  have hlook : ∀ j n, (m'.repository.writer j).staged.lookup n = if j = id ∧ n = name
      then none else (m.repository.writer j).staged.lookup n := by
    intro j n
    rw [hwriter]
    by_cases hj : j = id
    · rw [if_pos hj, hj, Writer.deleting, Named.lookup_erase]
      simp only [true_and]
    · rw [if_neg hj, if_neg fun he => hj he.1]
  have hphase : ∀ j, (m'.repository.writer j).phase = (m.repository.writer j).phase :=
    apply_writer_eq Writer.phase hwriter rfl
  refine ⟨?_, ?_, ?_, ?_, ?_⟩
  · intro x hx
    rw [hh, hphase, hlook]
    rw [hd, current_concat] at hx
    rcases hx with hx | ⟨hx, hne⟩
    · cases hx
    · refine ⟨(h.current hx).1, fun hpx => ?_⟩
      rw [if_neg fun he => hne (by rw [he.1, he.2])]
      exact (h.current hx).2 hpx
  · intro x hx hc j n
    rw [hd, current_concat, not_or, not_and, not_not] at hc
    rw [hh] at hx
    rw [hlook]
    split
    · intro he
      cases he
    · rename_i hjn
      intro hl
      by_cases hx' : Current x m.deeds
      · -- the handle was current until now, so that only this collection was kept in its store
        have hdel := hc.2 hx'
        have heq : WriteHandle.mk j n x.store = x := ha.single (ha.staged hl) hx rfl
        rw [← heq] at hdel
        cases hdel
        exact hjn ⟨rfl, rfl⟩
      · exact h.stale hx hx' j n hl
  · intro x t hx hpx
    rw [hphase] at hpx
    rw [hd] at hx
    rcases added_concat hx with ⟨he, -⟩ | ⟨hx, -⟩
    · cases he
    · rw [hs]
      exact h.added hx hpx
  · intro x t deeds hds
    exact absurd hds (Machine.deeds_ne_concat hd Deed.noConfusion)
  · intro x c before after
    exact h.ignored_concat hd fun _ _ hy => Deed.noConfusion hy

/-- A writer publishes what it has open. -/
theorem publishing (h : Kept m) {id : Nat} (hp : (m.repository.writer id).phase = .working)
    (hs : m'.repository = m.repository.publishing id) (hh : m'.handles = m.handles)
    (hd : m'.deeds = m.deeds ++ [.published id]) : Kept m' := by
  have hwriter : ∀ j, m'.repository.writer j = if j = id then
      { m.repository.writer id with phase := .committing } else m.repository.writer j := by
    intro j
    rw [hs]
    exact writer_publishing (lt_of_working hp) j
  have hstaged : ∀ j, (m'.repository.writer j).staged = (m.repository.writer j).staged :=
    apply_writer_eq Writer.staged hwriter rfl
  have hphase : ∀ j, (m'.repository.writer j).phase = .working →
      (m.repository.writer j).phase = .working := by
    intro j hj
    rw [hwriter] at hj
    split at hj
    · exact Phase.noConfusion hj
    · exact hj
  have hcur : ∀ {x}, Current x m'.deeds ↔ Current x m.deeds := by
    intro x
    rw [hd, current_concat_of_ne Deed.noConfusion Deed.noConfusion]
  refine ⟨?_, ?_, ?_, ?_, ?_⟩
  · intro x hx
    rw [hh, hstaged]
    obtain ⟨hmem, hl⟩ := h.current (hcur.mp hx)
    exact ⟨hmem, fun hpx => hl (hphase _ hpx)⟩
  · intro x hx hc j n
    rw [hstaged]
    exact h.stale (hh ▸ hx) (fun hx => hc (hcur.mpr hx)) j n
  · intro x t hx hpx
    rw [hd] at hx
    rcases added_concat hx with ⟨he, -⟩ | ⟨hx, -⟩
    · cases he
    · rw [hs]
      exact h.added hx (hphase _ hpx)
  · intro x t deeds hds hx
    rw [hd] at hds
    obtain ⟨rfl, hlast⟩ := List.append_inj' hds rfl
    cases hlast
    have hl := (h.current hx.current).2 hp
    refine ⟨m.repository.store x.store, ?_, h.added hx hp⟩
    rw [hs]
    show (m.repository.published.amended _ _).find m.repository.stores x.name = _
    rw [Directory.find_amended, Directory.find, hl]
    rfl
  · intro x c before after
    exact h.ignored_concat hd fun _ _ hy => Deed.noConfusion hy

/-! ### One lemma for each kind of step -/

/-- Nothing changes that matters. -/
theorem of_eq (h : Kept m) (ha : Apart m) (hr : Replayed initial m) (hr' : Replayed initial m')
    (hd : m'.deeds = m.deeds) (hs : m.repository.stores <+: m'.repository.stores)
    (hw : m'.repository.writers = m.repository.writers)
    (hh : ∀ k, .writing k ∈ m'.handles ↔ .writing k ∈ m.handles) : Kept m' := by
  have hwriter : ∀ id, m'.repository.writer id = m.repository.writer id := by
    intro id
    rw [Repository.writer, Repository.writer, hw]
  refine h.calm ha hr hr' hd hs hh (fun id name i hl => ?_) fun id _ hp => ?_
  · rw [hwriter] at hl
    exact hl
  · rw [hwriter] at hp ⊢
    exact ⟨hp, rfl⟩

/-- A writer changes in other things than its open collections, and does not take calls again. -/
theorem revise (h : Kept m) (ha : Apart m) (hr : Replayed initial m) (hr' : Replayed initial m')
    (hd : m'.deeds = m.deeds) (id : Nat) {f : Writer → Writer}
    (hf : (f (m.repository.writer id)).staged = (m.repository.writer id).staged)
    (hp : (f (m.repository.writer id)).phase = .working →
      (m.repository.writer id).phase = .working)
    (hs : m'.repository.stores = m.repository.stores)
    (hw : m'.repository.writers = (m.repository.revise id f).writers)
    (hh : m'.handles = m.handles) : Kept m' := by
  have hwriter : ∀ j, m'.repository.writer j = if j = id ∧ id < m.repository.writers.length
      then f (m.repository.writer id) else m.repository.writer j := by
    intro j
    rw [Repository.writer, hw]
    exact m.repository.writer_revise id j f
  have hstaged : ∀ j, (m'.repository.writer j).staged = (m.repository.writer j).staged := by
    intro j
    rw [hwriter]
    split
    · rename_i hj
      rw [hj.1, hf]
    · rfl
  refine h.calm ha hr hr' hd (hs ▸ List.prefix_rfl) (fun k => by rw [hh]) (fun j n i hl => ?_)
    fun j _ hpj => ?_
  · rw [hstaged] at hl
    exact hl
  · refine ⟨?_, hstaged j⟩
    rw [hwriter] at hpj
    split at hpj
    · rename_i hj
      rw [hj.1]
      exact hp hpj
    · exact hpj

theorem addWriter (h : Kept m) (ha : Apart m) (hr : Replayed initial m)
    (hr' : Replayed initial m') (hd : m'.deeds = m.deeds) (patience : Patience)
    (hs : m'.repository = m.repository.addWriter { patience }) (hh : m'.handles = m.handles) :
    Kept m' := by
  have hwriter : ∀ j, m'.repository.writer j = if j = m.repository.writers.length
      then { patience } else m.repository.writer j := by
    intro j
    rw [hs]
    exact m.repository.writer_addWriter j _
  refine h.calm ha hr hr' hd (hs ▸ List.prefix_rfl) (fun k => by rw [hh]) (fun j n i hl => ?_)
    fun j hj hpj => ?_
  · rw [hwriter] at hl
    split at hl
    · cases hl
    · exact hl
  · rw [hwriter, if_neg hj.ne] at hpj ⊢
    exact ⟨hpj, rfl⟩

/-- A writer discards what it has open. -/
theorem discarding (h : Kept m) (ha : Apart m) (hr : Replayed initial m)
    (hr' : Replayed initial m') (hd : m'.deeds = m.deeds) {id : Nat}
    (hw : (m.repository.writer id).phase = .working)
    (hs : m'.repository = m.repository.discarding id) (hh : m'.handles = m.handles) : Kept m' := by
  refine h.calm ha hr hr' hd (hs ▸ List.prefix_rfl) (fun k => by rw [hh]) (fun j n i hl => ?_)
    fun j _ hpj => ?_
  · rw [hs] at hl
    by_cases hj : j = id
    · rw [hj, Repository.discarding, writer_concluding, if_pos rfl,
        writer_revise_of_lt (lt_of_working hw), if_pos rfl] at hl
      cases hl
    · rw [writer_discarding_of_ne _ hj] at hl
      exact hl
  · rw [hs] at hpj ⊢
    by_cases hj : j = id
    · rw [phase_discarding, if_pos hj] at hpj
      exact Phase.noConfusion hpj
    · rw [writer_discarding_of_ne _ hj] at hpj ⊢
      exact ⟨hpj, rfl⟩

theorem request (h : Kept m) (ha : Apart m) (hr : Replayed initial m) (hs : RequestStep m m') :
    Kept m' := by
  have hr' := hr.request ha hs
  have hnew : ∀ (x : ReadHandle) k, Handle.writing k ∈ Handle.reading x :: m.handles ↔
      .writing k ∈ m.handles := by
    intro x k
    simp
  cases hs with
  | quiet he =>
    exact h.of_eq ha hr hr' (Machine.deeds_quiet rfl (Event.deed?_of_isPlain he)) List.prefix_rfl
      rfl fun _ => Iff.rfl
  | read he =>
    exact h.of_eq ha hr hr' (Machine.deeds_quiet rfl (Event.deed?_of_isPlain he)) List.prefix_rfl
      rfl fun _ => Iff.rfl
  | write he patience =>
    exact h.addWriter ha hr hr' (Machine.deeds_quiet rfl (Event.deed?_of_isPlain he)) patience
      rfl rfl
  | close he host =>
    exact h.of_eq ha hr hr' (Machine.deeds_quiet rfl (Event.deed?_of_isPlain he)) List.prefix_rfl
      rfl fun _ => Iff.rfl
  | patience he id hf =>
    obtain ⟨hp, -, hst, -⟩ := hf (m.repository.writer id)
    exact h.revise ha hr hr' (Machine.deeds_quiet rfl (Event.deed?_of_isPlain he)) _ hst
      (fun hw => hp ▸ hw) rfl rfl rfl
  | cancel id =>
    exact h.of_eq ha hr hr' (Machine.deeds_quiet rfl rfl) List.prefix_rfl rfl fun _ => Iff.rfl
  | collection he ho hl =>
    exact h.of_eq ha hr hr' (Machine.deeds_quiet rfl (Event.deed?_of_isPlain he)) List.prefix_rfl
      rfl (hnew _)
  | search he p ho =>
    exact h.of_eq ha hr hr' (Machine.deeds_quiet rfl (Event.deed?_of_isPlain he)) List.prefix_rfl
      rfl fun _ => Iff.rfl
  | found he l =>
    exact h.of_eq ha hr hr' (Machine.deeds_quiet rfl (Event.deed?_of_isPlain he)) List.prefix_rfl
      rfl fun _ => Iff.rfl
  | copies he p hw =>
    exact h.of_eq ha hr hr' (Machine.deeds_quiet rfl (Event.deed?_of_isPlain he))
      (List.prefix_append _ _) rfl fun _ => Iff.rfl
  | edit he hh hw host => exact h.edit ha hr hh hw rfl rfl (Machine.deeds_deed rfl he)

theorem visit (h : Kept m) (ha : Apart m) (hr : Replayed initial m) (hs : VisitStep m m') :
    Kept m' := by
  have hr' := hr.visit ha hs
  cases hs with
  | begin hv => exact h.of_eq ha hr hr' rfl List.prefix_rfl rfl fun _ => Iff.rfl
  | move hk hg hp he => exact h.of_eq ha hr hr' rfl List.prefix_rfl rfl fun _ => Iff.rfl
  | fail hk x hg =>
    exact h.of_eq ha hr hr' (Machine.deeds_quiet rfl rfl) List.prefix_rfl rfl fun _ => Iff.rfl
  | grant hk waited hg hl => exact h.of_eq ha hr hr' rfl List.prefix_rfl rfl fun _ => Iff.rfl
  | lose hk x hg =>
    exact h.of_eq ha hr hr' (Machine.deeds_quiet rfl rfl) List.prefix_rfl rfl fun _ => Iff.rfl
  | @keep k hk hg hw =>
    exact h.revise ha hr hr' rfl _ (f := Writer.keeping (m.visit k).name) rfl (fun hp => hp) rfl rfl
      rfl
  | reopen hk hg hw hl => exact h.reopen hl rfl rfl (Machine.deeds_deed rfl rfl)
  | stage hk hg hw hl => exact h.stage ha hw hl rfl rfl (Machine.deeds_deed rfl rfl)
  | unstage hk hg hw => exact h.unstage ha hw rfl rfl (Machine.deeds_deed rfl rfl)

theorem closing (h : Kept m) (hk : LocksKept m) (ha : Apart m) (hr : Replayed initial m)
    (hs : ClosingStep m m') : Kept m' := by
  have hr' := hr.closing hk ha hs
  cases hs with
  | begin hc => exact h.of_eq ha hr hr' rfl List.prefix_rfl rfl fun _ => Iff.rfl
  | @interrupt k hk hp f hf =>
    obtain ⟨hph, -, hst, -⟩ := hf (m.repository.writer (m.closing k).writer)
    exact h.revise ha hr hr' rfl _ hst (fun hw => hph ▸ hw) rfl rfl rfl
  | publish _ hp hc hw ho rest host => exact h.publishing hw rfl rfl (Machine.deeds_deed rfl rfl)
  | @refuse k hk hp hc hw ho =>
    exact h.revise ha hr hr' (Machine.deeds_quiet rfl rfl) (m.closing k).writer
      (f := fun w => { w with phase := .ended, held := [] }) rfl Phase.noConfusion rfl rfl rfl
  | dismiss hk hp hc hw =>
    exact h.discarding ha hr hr' (Machine.deeds_quiet rfl rfl) hw rfl rfl
  | late hk hp hw =>
    exact h.of_eq ha hr hr' (Machine.deeds_quiet rfl rfl) List.prefix_rfl rfl fun _ => Iff.rfl
  | tell hk hp hm host => exact h.of_eq ha hr hr' rfl List.prefix_rfl rfl fun _ => Iff.rfl
  | @finish k hk errors hp =>
    exact h.revise ha hr hr' (Machine.deeds_quiet rfl rfl) (m.closing k).writer
      (f := fun w => { w with phase := .ended, held := [] }) rfl Phase.noConfusion rfl rfl rfl

theorem start (c : Collections) (host : Host) : Kept (Machine.start c host) := by
  have hnil : (Machine.start c host).deeds = [] := rfl
  have hcur : ∀ h, ¬ Current h [] := by
    rintro h ⟨before, after, he, -⟩
    simp at he
  refine ⟨fun h => absurd h (hcur _), fun h => absurd h List.not_mem_nil,
    fun h => absurd h.current (hcur _), fun h => ?_, fun h => ?_⟩
  · rw [hnil] at h
    simp at h
  · rw [hnil] at h
    simp at h

theorem run (c : Collections) (host : Host) (moves : List Move) :
    Kept ((Machine.start c host).run moves) := by
  have h := Machine.run_induction
    (P := fun m => LocksKept m ∧ Apart m ∧ Replayed (fun name => c.lookup name) m ∧ Kept m)
    (fun ⟨hk, ha, hr, h⟩ hs =>
      ⟨hk.request hs, ha.request hs, hr.request ha hs, h.request ha hr hs⟩)
    (fun ⟨hk, ha, hr, h⟩ hs => ⟨hk.visit hs, ha.visit hs, hr.visit ha hs, h.visit ha hr hs⟩)
    (fun ⟨hk, ha, hr, h⟩ hs =>
      ⟨hk.closing hs, ha.closing hs, hr.closing hk ha hs, h.closing hk ha hr hs⟩)
    (Machine.start c host) ⟨.start c host, .start c host, .start c host, start c host⟩ moves
  exact h.2.2.2

end Kept

/-! ### The main result -/

/-- **What becomes of a statement that was added.**  Whatever all callers do: when a statement was
added through a handle, and its writer publishes before anything has undone this, then

* it is in the published collection if the collection was not deleted between the giving out of the
  handle and the adding;
* otherwise it is lost: what is published is what would have been published without it. -/
theorem Machine.added_published_of_current (c : Collections) (host : Host) (moves : List Move)
    (h : WriteHandle) (t : Triple) (before after : List Deed) :
    let m := (Machine.start c host).run moves
    m.deeds = before ++ .edited h (.add t) :: after ++ [.published h.writer] →
    (∀ d ∈ after, ¬ d.Undoes h t) →
      (Current h before → ∃ g, m.repository.contents h.name = some g ∧ g.contains t) ∧
      (¬ Current h before → m.repository.contents =
        (Ledger.ofDeeds (before ++ after ++ [.published h.writer])).replay
          fun name => c.lookup name) := by
  intro m hd hu
  have hkept : Kept m := .run c host moves
  refine ⟨fun hc => ?_, fun hc => ?_⟩
  · obtain ⟨g, hg, ht⟩ := hkept.published hd ⟨before, after, rfl, hc, hu⟩
    exact ⟨g, hg, Graph.contains_iff.mpr ht⟩
  · have hd' : m.deeds = before ++ .edited h (.add t) :: (after ++ [.published h.writer]) := by
      rw [hd, List.append_assoc, List.cons_append]
    have hsame := hkept.ignored hd' hc
    have hledger : m.ledger = Ledger.ofDeeds (before ++ after ++ [.published h.writer]) := by
      calc m.ledger
          = (after ++ [Deed.published h.writer]).foldl Ledger.enter
              (.ofDeeds (before ++ [.edited h (.add t)])) := by
            rw [m.ledger_eq, hd', Ledger.ofDeeds, Ledger.ofDeeds, ← List.foldl_append,
              List.append_assoc]
            rfl
        _ = Ledger.ofDeeds (before ++ after ++ [.published h.writer]) := by
            rw [hsame, Ledger.ofDeeds, Ledger.ofDeeds, ← List.foldl_append, List.append_assoc]
    rw [(Replayed.run c host moves).contents]
    exact congrArg (fun l => l.replay fun name => c.lookup name) hledger

/-- A statement that is added through the handle of a collection that was deleted and opened again
is accepted and lost. -/
theorem Machine.added_through_old_handle :
    let t : Triple := ⟨some (.iri [98]), [99], some (.iri [100])⟩
    let m := (Machine.start [] {}).run [
      .ask (.write .unlimited),
      .visit 0 [97] false, .advance 0, .advance 0, .advance 0, .advance 0, .advance 0,
      .visit 0 [97] true, .advance 1, .advance 1, .advance 1,
      .visit 0 [97] false, .advance 2, .advance 2, .advance 2,
      .ask (.edit ⟨0, [97], 0⟩ (.add t.toDraft)),
      .close 0 true, .proceed 0, .proceed 0]
    m.deeds = [.opened ⟨0, [97], 0⟩, .deleted 0 [97], .opened ⟨0, [97], 1⟩,
        .edited ⟨0, [97], 0⟩ (.add t), .published 0] ∧
      m.repository.contents [97] = some .empty := by
  decide +kernel

/-- The same statement added through the new handle, while the old one is used as well. -/
theorem Machine.added_through_new_handle :
    let t : Triple := ⟨some (.iri [98]), [99], some (.iri [100])⟩
    let u : Triple := ⟨some (.iri [98]), [99], some (.iri [101])⟩
    let m := (Machine.start [] {}).run [
      .ask (.write .unlimited),
      .visit 0 [97] false, .advance 0, .advance 0, .advance 0, .advance 0, .advance 0,
      .visit 0 [97] true, .advance 1, .advance 1, .advance 1,
      .visit 0 [97] false, .advance 2, .advance 2, .advance 2,
      .ask (.edit ⟨0, [97], 1⟩ (.add t.toDraft)), .ask (.edit ⟨0, [97], 0⟩ (.remove u.toDraft)),
      .close 0 true, .proceed 0, .proceed 0]
    ∃ g, m.repository.contents [97] = some g ∧ g.contains t := by
  intro t u m
  have hd : m.deeds = [.opened ⟨0, [97], 0⟩, .deleted 0 [97], .opened ⟨0, [97], 1⟩] ++
      .edited ⟨0, [97], 1⟩ (.add t) :: [.edited ⟨0, [97], 0⟩ (.remove u)] ++ [.published 0] := by
    decide +kernel
  -- from here on, only what was done matters and not by which moves
  obtain ⟨moves, hm⟩ : ∃ moves, m = (Machine.start [] {}).run moves := ⟨_, rfl⟩
  clear_value m
  subst hm
  refine (Machine.added_published_of_current [] {} moves ⟨0, [97], 1⟩ t _ _ hd ?_).1 ?_
  · intro d hm
    obtain rfl := List.mem_singleton.mp hm
    exact fun h => absurd (show u = t from h.2.2) (by decide)
  · exact ⟨[.opened ⟨0, [97], 0⟩, .deleted 0 [97]], [], rfl, List.not_mem_nil⟩

end TripleStore
