import TripleStore.Proofs.Archive.Refinement
import TripleStore.Proofs.Key.Order

/-!
# The rows of a collection

What a collection keeps in a table is found by the key that all its rows start with.  This is right
because the rows of a table are made of equally many keys: then a text that starts with the key of a
collection is a row of that collection, whatever bytes the digests are made of.

* `Archive.parts`: how many keys make a row of a table.
* `Archive.Aligned`: all rows are made of so many keys; no write of the archive changes that, and so
  it holds after any tasks.
* `Archive.Aligned.mem_startingWith`: what starts with the key of a collection are its rows;
  `Archive.Finds` says so of a scan.
* `Archive.keys_are_ordered_tuples`: **keys stand for tuples**, as regards splitting, order and what
  is found by a first part.
-/

namespace TripleStore

namespace Archive

open Table (fullKey)

variable {e : Entries} {m : Medium} {w : Write} {ws : List Write}

/-- The number of keys that make a row of a table. -/
def parts : Table → Nat
  | .terms => 1
  | .collections => 1
  | .statements => 4
  | .subjects => 2

/-- The rows of each table are as long as their keys together. -/
def Aligned (e : Entries) : Prop := ∀ table, ∀ key ∈ rows e table, key.length = 17 * parts table

/-! ### Writes -/

/-- A write that erases, or makes a row of as many keys as belong to one. -/
def Fitting (w : Write) : Prop :=
  w.2 = none ∨ ∃ table keys, keys.length = parts table ∧ w.1 = fullKey table.code (joinKeys keys)

theorem Aligned.apply (h : Aligned e) (hw : Fitting w) : Aligned (e.apply w) := by
  rintro table key ⟨value, hmem⟩
  obtain ⟨hkey, hvalue⟩ | ⟨hmem, -⟩ := Entries.mem_apply.mp hmem
  · obtain hnone | ⟨table', keys, hlen, hrow⟩ := hw
    · cases hnone.symm.trans hvalue
    · obtain ⟨rfl, rfl⟩ := fullKey_inj.mp (hkey.trans hrow)
      rw [length_joinKeys, hlen]
  · exact h table key ⟨value, hmem⟩

theorem Aligned.foldl_apply (h : Aligned e) (hws : ∀ w ∈ ws, Fitting w) :
    Aligned (ws.foldl Entries.apply e) := by
  induction ws generalizing e with
  | nil => exact h
  | cons w ws ih =>
    obtain ⟨hw, hws⟩ := List.forall_mem_cons.mp hws
    exact ih (h.apply hw) hws

theorem fitting_termWrite (t : Term) : Fitting (termWrite t) :=
  .inr ⟨.terms, [.ofTerm t], rfl, by simp [termWrite, joinKeys]⟩

theorem fitting_nameWrite (name : Iri) : Fitting (nameWrite name) :=
  .inr ⟨.collections, [.ofTerm (.iri name)], rfl, by simp [nameWrite, joinKeys]⟩

theorem fitting_nodeWrite (collection : TermKey) (n : Node) : Fitting (nodeWrite collection n) :=
  .inr ⟨.subjects, [collection, .ofTerm n.toTerm], rfl, rfl⟩

theorem fitting_statementWrite (collection : TermKey) (n : Node) (p : Iri) (o : Term) :
    Fitting (statementWrite collection n p o) :=
  .inr ⟨.statements, [collection, .ofTerm n.toTerm, .ofTerm (.iri p), .ofTerm o], rfl, rfl⟩

theorem fitting_of_mem_clearAllWrites {collection : TermKey}
    (hw : w ∈ clearAllWrites e collection) : Fitting w :=
  .inl (snd_of_mem_clearAllWrites hw)

theorem fitting_of_mem_subjectWrites {collection : TermKey} {g : Graph} {n : Option Node}
    (hw : w ∈ subjectWrites collection g n) : Fitting w := by
  cases n with
  | none => cases hw
  | some n =>
    rw [subjectWrites, List.mem_append, List.mem_pair, List.mem_flatMap] at hw
    obtain (rfl | rfl) | ⟨pair, -, hw⟩ := hw
    · exact fitting_termWrite n.toTerm
    · exact fitting_nodeWrite collection n
    obtain rfl | ⟨o, -, rfl | rfl⟩ := mem_pairWrites.mp hw
    · exact fitting_termWrite (.iri pair.predicate)
    · exact fitting_termWrite o
    · exact fitting_statementWrite collection n pair.predicate o

theorem fitting_of_mem_saveWrites {name : Iri} {g : Graph} (hw : w ∈ saveWrites e name g) :
    Fitting w := by
  rw [saveWrites, List.mem_append, List.mem_append, List.mem_append, List.mem_singleton,
    List.mem_singleton, List.mem_flatMap] at hw
  obtain rfl | hw | rfl | ⟨n, -, hw⟩ := hw
  · exact fitting_termWrite (.iri name)
  · exact fitting_of_mem_clearAllWrites hw
  · exact fitting_nameWrite name
  · exact fitting_of_mem_subjectWrites hw

theorem fitting_of_mem_deleteWrites {name : Iri} (hw : w ∈ deleteWrites e name) : Fitting w := by
  rw [deleteWrites, List.mem_append, List.mem_singleton] at hw
  obtain hw | rfl := hw
  · exact fitting_of_mem_clearAllWrites hw
  · exact .inl rfl

/-! ### Tasks -/

theorem Aligned.perform (h : Aligned m.database.entries) (task : Task) :
    Aligned (task.perform m).2.database.entries := by
  rcases hrun : task.perform m with ⟨answer, m'⟩
  cases task with
  | save patience name g =>
    obtain ⟨-, -, hentries⟩ | ⟨-, hdb⟩ := save_cases hrun
    · rw [hentries]
      exact h.foldl_apply fun _ => fitting_of_mem_saveWrites
    · rw [hdb]
      exact h
  | delete name =>
    obtain ⟨-, -, hentries⟩ | ⟨-, hdb⟩ := delete_cases hrun
    · rw [hentries]
      exact h.foldl_apply fun _ => fitting_of_mem_deleteWrites
    · rw [hdb]
      exact h

theorem Aligned.performAll (h : Aligned m.database.entries) (tasks : List Task) :
    Aligned (performAll tasks m).2.database.entries := by
  induction tasks generalizing m with
  | nil => exact h
  | cons task tasks ih =>
    have htask := h.perform task
    rw [Archive.performAll]
    rcases hrun : task.perform m with ⟨⟨⟩ | ⟨⟩, m'⟩
    · rw [hrun] at htask
      exact ih htask
    · rw [hrun] at htask
      exact ih htask

theorem aligned_nil : Aligned [] := by
  rintro table key ⟨value, hmem⟩
  cases hmem

/-! ### Scans -/

/-- What starts with the key of a collection are its rows, and no others. -/
theorem Aligned.mem_startingWith (h : Aligned e) {table : Table} {n : Nat}
    (hn : parts table = n + 1) (c : TermKey) {row : Text × Text} :
    row ∈ e.startingWith (fullKey table.code c.bytes) ↔ row ∈ e ∧ ∃ keys : List TermKey,
      keys.length = n ∧ row.1 = fullKey table.code (joinKeys (c :: keys)) := by
  rw [Entries.mem_startingWith]
  refine and_congr_right fun hmem => ⟨?_, ?_⟩
  · rintro ⟨rest, hrest⟩
    obtain ⟨k, value⟩ := row
    obtain rfl : fullKey table.code (c.bytes ++ rest) = k := hrest
    -- the row is as long as its table asks for, so what follows the key is a row of keys as well
    have hlen := h table _ ⟨value, hmem⟩
    rw [hn] at hlen
    obtain ⟨keys, hkeys, hrow⟩ := startsWith_iff.mp ⟨hlen, List.prefix_append c.bytes rest⟩
    exact ⟨keys, hkeys, congrArg (fullKey table.code) hrow⟩
  · rintro ⟨keys, -, hrow⟩
    exact ⟨joinKeys keys, hrow.symm⟩

/-- A scan in a new transaction gives exactly the entries that have such a key. -/
def Finds (db : Database) (start : Text) (P : Text → Prop) : Prop :=
  ∀ writable, ∃ found, ((db.begin writable).scan start 0).1 = .ok found ∧
    ∀ row, row ∈ found ↔ row ∈ db.entries ∧ P row.1

theorem Aligned.finds_statements {db : Database} (h : Aligned db.entries) (c : TermKey) :
    Finds db (fullKey Table.statements.code c.bytes) fun key =>
      ∃ s p o, key = fullKey Table.statements.code (statementKey c s p o) := by
  refine fun writable => ⟨_, Transaction.scan_begin db writable _, fun row => ?_⟩
  exact (h.mem_startingWith (n := 3) rfl c).trans (and_congr_right fun _ => exists_three_keys)

theorem Aligned.finds_subjects {db : Database} (h : Aligned db.entries) (c : TermKey) :
    Finds db (fullKey Table.subjects.code c.bytes) fun key =>
      ∃ n, key = fullKey Table.subjects.code (joinKeys [c, n]) := by
  refine fun writable => ⟨_, Transaction.scan_begin db writable _, fun row => ?_⟩
  exact (h.mem_startingWith (n := 1) rfl c).trans (and_congr_right fun _ => exists_one_key)

/-! ### The main result -/

/-- **Keys stand for tuples.**  Four keys are joined and split without loss, and exactly the texts
of 68 bytes are split.  Bytewise, statement keys are ordered as their tuples.  Of the texts of 68
and of 34 bytes, those that start with the key of a collection are those that have it as their first
part.  Whatever tasks an archive has done, from an empty database on: its statements and nodes are
kept under keys of these lengths, and a scan by the key of a collection finds all of those with that
first part and none of the others. -/
theorem keys_are_ordered_tuples :
    (∀ c s p o, splitStatementKey (statementKey c s p o) = .ok (c, s, p, o)) ∧
    (∀ key, (∃ parts, splitStatementKey key = .ok parts) ↔ key.length = 68) ∧
    (∀ key c s p o, splitStatementKey key = .ok (c, s, p, o) ↔ statementKey c s p o = key) ∧
    (∀ c s p o c' s' p' o', Text.le (statementKey c s p o) (statementKey c' s' p' o') = true ↔
      toLex (c, toLex (s, toLex (p, o))) ≤ toLex (c', toLex (s', toLex (p', o')))) ∧
    (∀ c key, key.length = 68 ∧ c.bytes <+: key ↔ ∃ s p o, key = statementKey c s p o) ∧
    (∀ c key, key.length = 34 ∧ c.bytes <+: key ↔ ∃ n, key = joinKeys [c, n]) ∧
    ∀ (limit : Option Nat) (fault : Option Fault) (tasks : List Task),
      let db := (performAll tasks ⟨{ valueLimit := limit }, fault⟩).2.database
      rows db.entries .statements ⊆ {key | key.length = 68} ∧
      rows db.entries .subjects ⊆ {key | key.length = 34} ∧
      ∀ c : TermKey,
        (Finds db (fullKey Table.statements.code c.bytes) fun key =>
          ∃ s p o, key = fullKey Table.statements.code (statementKey c s p o)) ∧
        Finds db (fullKey Table.subjects.code c.bytes) fun key =>
          ∃ n, key = fullKey Table.subjects.code (joinKeys [c, n]) := by
  refine ⟨splitStatementKey_statementKey, fun _ => exists_splitStatementKey_iff,
    fun _ _ _ _ _ => splitStatementKey_eq_ok_iff, fun _ _ _ _ _ _ _ _ => statementKey_le_iff,
    fun _ _ => startsWith_iff_statementKey, fun _ _ => startsWith_iff_pair, ?_⟩
  intro limit fault tasks db
  have haligned : Aligned db.entries :=
    aligned_nil.performAll (m := ⟨{ valueLimit := limit }, fault⟩) tasks
  exact ⟨haligned .statements, haligned .subjects,
    fun c => ⟨haligned.finds_statements c, haligned.finds_subjects c⟩⟩

end Archive

end TripleStore
