import TripleStore.Database.Basic
import TripleStore.Proofs.Repository.State

/-!
# What a transaction does to a database

Entries stand for the set of their keys and values.  A transaction is described by its writes in
order: what it sees is what it began with after these writes, and a commit makes them to whatever
the database holds by then.

* `Entries.mem_foldl_apply`: which entries there are after some writes, if no key is written with
  two values.
* `Transaction.commit_cases`: what a database holds after a commit.
-/

namespace TripleStore

namespace Entries

variable {e : Entries} {p : Text × Text} {key start : Text}

theorem mem_put {value : Text} : p ∈ e.put key value ↔ p = (key, value) ∨ p ∈ e ∧ p.1 ≠ key := by
  simp [put]

theorem mem_erase : p ∈ e.erase key ↔ p ∈ e ∧ p.1 ≠ key := by simp [erase]

theorem mem_apply {w : Text × Option Text} :
    p ∈ e.apply w ↔ (p.1 = w.1 ∧ w.2 = some p.2) ∨ p ∈ e ∧ p.1 ≠ w.1 := by
  obtain ⟨key, value⟩ := w
  cases value with
  | none => simp [apply, mem_erase]
  | some value =>
    rw [apply, mem_put, Prod.ext_iff]
    simp [eq_comm]

theorem mem_startingWith : p ∈ e.startingWith start ↔ p ∈ e ∧ start <+: p.1 := by
  simp [startingWith]

/-- A write to another key makes no difference to the keys that start with a text. -/
theorem startingWith_apply {w : Text × Option Text} (h : ¬ start <+: w.1) :
    (e.apply w).startingWith start = e.startingWith start := by
  have hfilter : ∀ e : Entries, ((e.filter (·.1 ≠ w.1)).filter fun p => start.isPrefixOf p.1)
      = e.filter fun p => start.isPrefixOf p.1 := by
    intro e
    rw [List.filter_filter]
    refine List.filter_congr fun p _ => ?_
    by_cases hp : start <+: p.1
    · have hne : p.1 ≠ w.1 := fun he => h (he ▸ hp)
      simp [hne]
    · simp [hp]
  obtain ⟨key, value⟩ := w
  refine congrArg (List.mergeSort · _) ?_
  cases value with
  | none => exact hfilter e
  | some value =>
    show ((key, value) :: e.filter (·.1 ≠ key)).filter _ = _
    rw [List.filter_cons, if_neg (by simpa using h)]
    exact hfilter e

theorem startingWith_foldl_apply {ws : List (Text × Option Text)}
    (h : ∀ w ∈ ws, ¬ start <+: w.1) :
    (ws.foldl apply e).startingWith start = e.startingWith start := by
  induction ws generalizing e with
  | nil => rfl
  | cons w ws ih =>
    rw [List.foldl_cons, ih fun u hu => h u (List.mem_cons_of_mem _ hu),
      startingWith_apply (h w List.mem_cons_self)]

/-! ### Many writes -/

/-- No key is written with two values. -/
def Consistent (ws : List (Text × Option Text)) : Prop :=
  ∀ w ∈ ws, ∀ u ∈ ws, w.1 = u.1 → w.2 = u.2

theorem mem_foldl_apply {ws : List (Text × Option Text)} (h : Consistent ws) :
    p ∈ ws.foldl apply e ↔ (p.1, some p.2) ∈ ws ∨ p ∈ e ∧ p.1 ∉ ws.map Prod.fst := by
  induction ws generalizing e with
  | nil => simp
  | cons w ws ih =>
    have hws : Consistent ws := fun a ha b hb =>
      h a (List.mem_cons_of_mem _ ha) b (List.mem_cons_of_mem _ hb)
    rw [List.foldl_cons, ih hws, mem_apply, List.mem_cons, List.map_cons, List.mem_cons]
    constructor
    · rintro (hp | ⟨⟨hk, hv⟩ | ⟨hp, hk⟩, hn⟩)
      · exact .inl (.inr hp)
      · exact .inl (.inl (Prod.ext hk hv.symm))
      · exact .inr ⟨hp, not_or.mpr ⟨hk, hn⟩⟩
    · rintro ((rfl | hp) | ⟨hp, hn⟩)
      · -- a later write to the same key has the same value
        by_cases hm : p.1 ∈ ws.map Prod.fst
        · obtain ⟨u, hu, hk⟩ := List.mem_map.mp hm
          have hv := h _ (List.mem_cons_of_mem _ hu) _ List.mem_cons_self hk
          exact .inl (Prod.ext hk hv ▸ hu)
        · exact .inr ⟨.inl ⟨rfl, rfl⟩, hm⟩
      · exact .inl hp
      · rw [not_or] at hn
        exact .inr ⟨.inr ⟨hp, hn.1⟩, hn.2⟩

/-! ### Keys that occur once -/

/-- No key occurs twice. -/
def Proper (e : Entries) : Prop := (e.map Prod.fst).Nodup

theorem Proper.apply (h : e.Proper) (w : Text × Option Text) : (e.apply w).Proper := by
  have herase : (e.erase w.1).Proper := h.sublist (List.filter_sublist.map Prod.fst)
  obtain ⟨key, value⟩ := w
  cases value with
  | none => exact herase
  | some value =>
    refine List.nodup_cons.mpr ⟨?_, herase⟩
    rintro hm
    obtain ⟨p, hp, hk⟩ := List.mem_map.mp hm
    exact (mem_erase.mp hp).2 hk

theorem Proper.foldl_apply (h : e.Proper) (ws : List (Text × Option Text)) :
    (ws.foldl Entries.apply e).Proper := by
  induction ws generalizing e with
  | nil => exact h
  | cons w ws ih => exact ih (h.apply w)

end Entries

namespace Transaction

variable {db db' : Database} {tx tx' : Transaction} {answer : Outcome Unit}

/-- The writes of a transaction, the earliest first. -/
def log (tx : Transaction) : List (Text × Option Text) := tx.writes.reverse

theorem view_eq (tx : Transaction) : tx.view = tx.log.foldl Entries.apply tx.snapshot := rfl

theorem write_eq_ok {key : Text} {value : Option Text} (h : tx.write db key value = .ok tx') :
    tx' = { tx with writes := (key, value) :: tx.writes } := by
  simp only [write] at h
  split_ifs at h
  exact (Except.ok.inj h).symm

@[simp] theorem log_noteRead (key : Text) : (tx.noteRead key).log = tx.log := by
  rw [noteRead]
  split <;> rfl

@[simp] theorem snapshot_noteRead (key : Text) : (tx.noteRead key).snapshot = tx.snapshot := by
  rw [noteRead]
  split <;> rfl

theorem noteRead_of_readOnly (h : tx.writable = false) (key : Text) : tx.noteRead key = tx := by
  rw [noteRead, h]
  rfl

theorem noteReads (found : Entries) (tx : Transaction) :
    (found.foldl (fun tx p => tx.noteRead p.1) tx).log = tx.log ∧
      (found.foldl (fun tx p => tx.noteRead p.1) tx).snapshot = tx.snapshot := by
  induction found generalizing tx with
  | nil => exact ⟨rfl, rfl⟩
  | cons p found ih =>
    rw [List.foldl_cons, (ih _).1, (ih _).2, log_noteRead, snapshot_noteRead]
    exact ⟨rfl, rfl⟩

theorem noteReads_of_readOnly (h : tx.writable = false) (found : Entries) :
    found.foldl (fun tx p => tx.noteRead p.1) tx = tx := by
  induction found with
  | nil => rfl
  | cons p found ih => rw [List.foldl_cons, noteRead_of_readOnly h, ih]

/-- A new transaction finds what the database holds. -/
theorem scan_begin (db : Database) (writable : Bool) (start : Text) :
    ((db.begin writable).scan start 0).1 = .ok (db.entries.startingWith start) := rfl

/-- A commit makes the writes of the transaction to what the database holds by then, or fails and
makes no difference to the database. -/
theorem commit_cases (h : tx.commit db = (answer, db', tx')) :
    (answer = .ok () ∧ db'.entries = tx.log.foldl Entries.apply db.entries) ∨
      (∃ e, answer = .error e) ∧ db' = db := by
  rw [commit] at h
  split_ifs at h with hw he hc
  · obtain ⟨rfl, rfl, rfl⟩ := h
    have hlog : tx.log = [] := by
      rw [log, List.isEmpty_iff.mp hw]
      rfl
    exact .inl ⟨rfl, by rw [hlog]; rfl⟩
  · obtain ⟨rfl, rfl, rfl⟩ := h
    exact .inr ⟨⟨_, rfl⟩, rfl⟩
  · obtain ⟨rfl, rfl, rfl⟩ := h
    exact .inr ⟨⟨_, rfl⟩, rfl⟩
  · obtain ⟨rfl, rfl, rfl⟩ := h
    exact .inl ⟨rfl, rfl⟩

end Transaction

end TripleStore
