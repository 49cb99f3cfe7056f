import Mathlib.Tactic
import TripleStore.Repository.Writer

/-!
# The state of a repository

What is found in a directory and in a repository after one thing in it was set.

* `Directory.lookup_amended`: which store a name has when a writer's deletions and stores are laid
  over a directory.
* `Directory.find_numbered`: copies of collections stand for the same graphs.
* `Repository.writer_revise`, `Repository.store_putStore` and their like: only what was set differs.
-/

namespace TripleStore

@[simp] theorem mem_insertNew {α : Type} [DecidableEq α] {a b : α} {l : List α} :
    b ∈ insertNew a l ↔ b ∈ l ∨ b = a := by
  rw [insertNew]
  split
  · rename_i ha
    exact (or_iff_left_of_imp fun hb => hb ▸ ha).symm
  · simp

/-! ### Things by name -/

namespace Named

variable {α : Type}

theorem lookup_filter (q : Iri → Bool) (c : Named α) (name : Iri) :
    (c.filter fun p => q p.1).lookup name = if q name then c.lookup name else none := by
  induction c with
  | nil => simp
  | cons p c ih =>
    obtain ⟨n, a⟩ := p
    by_cases hn : name = n
    · subst hn
      cases hq : q name with
      | true => simp [hq]
      | false => simpa [List.filter, hq] using ih
    · have hne : (name == n) = false := by simpa using hn
      cases hq : q n with
      | true => simpa [List.filter, List.lookup_cons, hq, hne] using ih
      | false => simpa [List.filter, List.lookup_cons, hq, hne] using ih

@[simp] theorem lookup_put (c : Named α) (name other : Iri) (a : α) :
    (c.put name a).lookup other = if other = name then some a else c.lookup other := by
  have hf := lookup_filter (fun n => decide (n ≠ name)) c other
  by_cases h : other = name
  · subst h
    simp [put]
  · have hne : (other == name) = false := by simpa using h
    simp only [put, List.lookup_cons, hne, if_neg h]
    rw [hf]
    simp [h]

@[simp] theorem lookup_erase (c : Named α) (name other : Iri) :
    (c.erase name).lookup other = if other = name then none else c.lookup other := by
  have hf := lookup_filter (fun n => decide (n ≠ name)) c other
  rw [erase, hf]
  by_cases h : other = name
  · simp [h]
  · simp [h]

@[simp] theorem lookup_map {β : Type} (f : α → β) (c : Named α) (name : Iri) :
    List.lookup name (c.map fun p => (p.1, f p.2)) = (c.lookup name).map f := by
  induction c with
  | nil => rfl
  | cons p c ih =>
    rw [List.map_cons, List.lookup_cons, List.lookup_cons]
    cases hp : name == p.1 with
    | true => rfl
    | false => exact ih

theorem mem_of_lookup {c : Named α} {name : Iri} {a : α} (h : c.lookup name = some a) :
    (name, a) ∈ c := by
  obtain ⟨before, after, rfl, -⟩ := List.lookup_eq_some_iff.mp h
  simp

/-- Where each name stands once, everything is found under its name. -/
theorem lookup_of_mem {c : Named α} (hc : (c.map Prod.fst).Nodup) {name : Iri} {a : α}
    (h : (name, a) ∈ c) : c.lookup name = some a := by
  induction c with
  | nil => exact absurd h List.not_mem_nil
  | cons p c ih =>
    obtain ⟨hn, htail⟩ := List.nodup_cons.mp hc
    rcases List.mem_cons.mp h with rfl | hm
    · simp
    · have hne : name ≠ p.1 := by
        rintro rfl
        exact hn (List.mem_map.mpr ⟨_, hm, rfl⟩)
      rw [List.lookup_cons, beq_false_of_ne hne]
      exact ih htail hm

theorem lookup_isSome {c : Named α} {name : Iri} (h : name ∈ c.map Prod.fst) :
    (c.lookup name).isSome := by
  rw [List.lookup_isSome_iff]
  obtain ⟨p, hp, rfl⟩ := List.mem_map.mp h
  exact ⟨p, hp, by simp⟩

theorem lookup_eq_none {c : Named α} {name : Iri} :
    c.lookup name = none ↔ name ∉ c.map Prod.fst := by
  rw [List.lookup_eq_none_iff]
  constructor
  · intro h hmem
    obtain ⟨p, hp, rfl⟩ := List.mem_map.mp hmem
    simpa using h p hp
  · intro h p hp
    rw [bne_iff_ne]
    rintro rfl
    exact h (List.mem_map_of_mem hp)

end Named

namespace Directory

@[simp] theorem lookup_amended (d : Directory) (deleted : List Iri) (staged : Directory)
    (name : Iri) :
    (d.amended deleted staged).lookup name =
      (staged.lookup name).or (if name ∈ deleted then none else d.lookup name) := by
  have hf := Named.lookup_filter
    (fun n => !deleted.contains n && (staged.lookup n).isNone) d name
  rw [amended, List.lookup_append, hf]
  cases staged.lookup name with
  | some i => simp
  | none => by_cases h : name ∈ deleted <;> simp [h]

theorem find_amended (d : Directory) (deleted : List Iri) (staged : Directory)
    (stores : List Graph) (name : Iri) :
    (d.amended deleted staged).find stores name =
      (staged.find stores name).or (if name ∈ deleted then none else d.find stores name) := by
  rw [find, lookup_amended, find, find]
  cases staged.lookup name with
  | some i => simp
  | none => by_cases h : name ∈ deleted <;> simp [h]

/-- A directory stands for the same collection in two lists of stores that agree on its store. -/
theorem find_congr {d : Directory} {stores stores' : List Graph} {name : Iri}
    (h : ∀ i, d.lookup name = some i → stores'.getD i .empty = stores.getD i .empty) :
    d.find stores' name = d.find stores name := by
  rw [find, find]
  cases hi : d.lookup name with
  | none => rfl
  | some i =>
    show some (stores'.getD i .empty) = some (stores.getD i .empty)
    rw [h i hi]

/-- Things that were put behind some stores, and are numbered from there on, are found there. -/
theorem find_numbered {α : Type} (f : α → Graph) (c : Named α) (stores : List Graph) (name : Iri) :
    find (c.numbered stores.length) (stores ++ c.map fun p => f p.2) name =
      (c.lookup name).map f := by
  induction c generalizing stores with
  | nil => rfl
  | cons p c ih =>
    have hmap : stores ++ (p :: c).map (fun p => f p.2)
        = (stores ++ [f p.2]) ++ c.map fun p => f p.2 := by simp
    have hnum : Named.numbered (p :: c) stores.length
        = (p.1, stores.length) :: Named.numbered c (stores ++ [f p.2]).length := by
      simp [Named.numbered, List.zipIdx_cons]
    rw [hmap, hnum, find, List.lookup_cons, List.lookup_cons]
    cases hp : name == p.1 with
    | true => simp
    | false => exact ih (stores ++ [f p.2])

theorem map_fst_numbered {α : Type} (c : Named α) (first : Nat) :
    (c.numbered first).map Prod.fst = c.map Prod.fst := by
  rw [Named.numbered, List.map_map]
  show (c.zipIdx first).map (Prod.fst ∘ Prod.fst) = _
  rw [← List.map_map, List.zipIdx_map_fst]

/-- Numbers instead of stores make no difference for the names. -/
theorem names_amended_numbered (d : Directory) (deleted : List Iri) (staged : Directory)
    (first : Nat) :
    (d.amended deleted (staged.numbered first)).names = (d.amended deleted staged).names := by
  have hnone : ∀ name, (List.lookup name (staged.numbered first)).isNone
      = (staged.lookup name).isNone := by
    intro name
    rw [Bool.eq_iff_iff, Option.isNone_iff_eq_none, Option.isNone_iff_eq_none,
      Named.lookup_eq_none, Named.lookup_eq_none, map_fst_numbered]
  rw [Named.names, Named.names, amended, amended, List.map_append, List.map_append,
    map_fst_numbered]
  simp only [hnone]

/-- The numbers from `first` on are the ones from there up to the number of things. -/
theorem lookup_numbered {α : Type} {c : Named α} {first : Nat} {name : Iri} {i : Nat}
    (h : List.lookup name (c.numbered first) = some i) : first ≤ i ∧ i < first + c.length := by
  have hmem := Named.mem_of_lookup h
  simp only [Named.numbered, List.mem_map, Prod.mk.injEq] at hmem
  obtain ⟨⟨p, j⟩, hp, -, rfl⟩ := hmem
  have hj := List.mem_zipIdx hp
  exact ⟨hj.1, hj.2.1⟩

end Directory

/-! ### Numbered things -/

section Numbered

variable {α : Type}

theorem getD_set (l : List α) (i j : Nat) (a d : α) :
    (l.set i a).getD j d = if j = i ∧ i < l.length then a else l.getD j d := by
  rw [List.getD_eq_getElem?_getD, List.getD_eq_getElem?_getD, List.getElem?_set]
  by_cases hij : i = j
  · subst hij
    by_cases hi : i < l.length
    · simp [hi]
    · simp [hi]
  · have hji : j ≠ i := fun h => hij h.symm
    simp [hij, hji]

theorem getD_concat (l : List α) (j : Nat) (a d : α) :
    (l ++ [a]).getD j d = if j = l.length then a else l.getD j d := by
  rw [List.getD_eq_getElem?_getD, List.getD_eq_getElem?_getD]
  by_cases hj : j = l.length
  · simp [hj]
  · rw [if_neg hj]
    by_cases hlt : j < l.length
    · rw [List.getElem?_append_left hlt]
    · rw [List.getElem?_eq_none (by simp; omega), List.getElem?_eq_none (by omega)]

theorem getD_append_left {l : List α} {j : Nat} (h : j < l.length) (l' : List α) (d : α) :
    (l ++ l').getD j d = l.getD j d := by
  rw [List.getD_eq_getElem?_getD, List.getD_eq_getElem?_getD, List.getElem?_append_left h]

end Numbered

/-! ### Repositories -/

namespace Repository

@[simp] theorem contents_holding (c : Collections) :
    (holding c).contents = fun n => c.lookup n := by
  funext name
  have h := Directory.find_numbered id c [] name
  simpa [contents, holding] using h

theorem store_putStore (s : Repository) (i j : Nat) (g : Graph) :
    (s.putStore i g).store j = if j = i ∧ i < s.stores.length then g else s.store j :=
  getD_set s.stores i j g .empty

theorem reader_addReader (s : Repository) (j : Nat) (r : Reader) :
    (s.addReader r).reader j = if j = s.readers.length then r else s.reader j :=
  getD_concat s.readers j r default

theorem writer_addWriter (s : Repository) (j : Nat) (w : Writer) :
    (s.addWriter w).writer j = if j = s.writers.length then w else s.writer j :=
  getD_concat s.writers j w default

theorem reader_putReader (s : Repository) (id j : Nat) (r : Reader) :
    (s.putReader id r).reader j = if j = id ∧ id < s.readers.length then r else s.reader j :=
  getD_set s.readers id j r default

theorem writer_revise (s : Repository) (id j : Nat) (f : Writer → Writer) :
    (s.revise id f).writer j =
      if j = id ∧ id < s.writers.length then f (s.writer id) else s.writer j :=
  getD_set s.writers id j (f (s.writer id)) default

theorem writer_revise_of_lt {s : Repository} {id : Nat} (h : id < s.writers.length) (j : Nat)
    (f : Writer → Writer) :
    (s.revise id f).writer j = if j = id then f (s.writer id) else s.writer j := by
  rw [writer_revise]
  simp only [h, and_true]

theorem phase_revise {s : Repository} {id : Nat} {f : Writer → Writer}
    (hf : (f (s.writer id)).phase = (s.writer id).phase) (j : Nat) :
    ((s.revise id f).writer j).phase = (s.writer j).phase := by
  rw [writer_revise]
  split
  · rename_i hj
    rw [hj.1, hf]
  · rfl

theorem writer_opening {s : Repository} {id : Nat} (h : id < s.writers.length) (name : Iri)
    (j : Nat) :
    (s.opening id name).writer j =
      if j = id then (s.writer id).opening name s.stores.length else s.writer j :=
  writer_revise_of_lt h j (Writer.opening name s.stores.length)

theorem writer_publishing {s : Repository} {id : Nat} (h : id < s.writers.length) (j : Nat) :
    (s.publishing id).writer j =
      if j = id then { s.writer id with phase := .committing } else s.writer j :=
  writer_revise_of_lt h j fun w => { w with phase := .committing }

@[simp] theorem length_writers_revise (s : Repository) (id : Nat) (f : Writer → Writer) :
    (s.revise id f).writers.length = s.writers.length := List.length_set

@[simp] theorem length_writers_concluding (s : Repository) (id : Nat) :
    (s.concluding id).writers.length = s.writers.length := List.length_set

theorem writer_eq_default {s : Repository} {id : Nat} (h : ¬ id < s.writers.length) :
    s.writer id = default := by
  rw [writer, List.getD_eq_getElem?_getD, List.getElem?_eq_none (by omega)]
  rfl

theorem writer_concluding (s : Repository) (id j : Nat) :
    (s.concluding id).writer j =
      if j = id then { s.writer id with phase := .ended, held := [] } else s.writer j := by
  have h : (s.concluding id).writer j = if j = id ∧ id < s.writers.length then
      { s.writer id with phase := .ended, held := [] } else s.writer j :=
    s.writer_revise id j fun w => { w with phase := .ended, held := [] }
  rw [h]
  by_cases hid : id < s.writers.length
  · simp only [hid, and_true]
  · -- a writer that was never begun counts as one that has ended
    simp only [hid, and_false, if_false]
    by_cases hj : j = id
    · rw [if_pos hj, hj, writer_eq_default hid]
      rfl
    · rw [if_neg hj]

theorem phase_concluding (s : Repository) (id j : Nat) :
    ((s.concluding id).writer j).phase = if j = id then .ended else (s.writer j).phase := by
  rw [writer_concluding]
  split <;> rfl

theorem writer_discarding_of_ne (s : Repository) {id j : Nat} (h : j ≠ id) :
    (s.discarding id).writer j = s.writer j := by
  rw [discarding, writer_concluding, if_neg h, writer_revise, if_neg fun hj => h hj.1]

theorem phase_discarding (s : Repository) (id j : Nat) :
    ((s.discarding id).writer j).phase = if j = id then .ended else (s.writer j).phase := by
  rw [discarding, phase_concluding, phase_revise rfl]

@[simp] theorem length_writers_discarding (s : Repository) (id : Nat) :
    (s.discarding id).writers.length = s.writers.length := by
  rw [discarding, length_writers_concluding, length_writers_revise]

/-- A writer that has not ended was begun. -/
theorem lt_of_phase_ne_ended {s : Repository} {id : Nat} (h : (s.writer id).phase ≠ .ended) :
    id < s.writers.length := by
  by_contra hid
  rw [writer_eq_default hid] at h
  exact h rfl

theorem lt_of_working {s : Repository} {id : Nat} (h : (s.writer id).phase = .working) :
    id < s.writers.length := by
  refine lt_of_phase_ne_ended ?_
  rw [h]
  exact Phase.noConfusion

theorem lt_of_committing {s : Repository} {id : Nat} (h : (s.writer id).phase = .committing) :
    id < s.writers.length := by
  refine lt_of_phase_ne_ended ?_
  rw [h]
  exact Phase.noConfusion

/-- A writer that holds a lock was begun. -/
theorem lt_of_mem_held {s : Repository} {id : Nat} {name : Iri}
    (h : name ∈ (s.writer id).held) : id < s.writers.length := by
  by_contra hid
  rw [writer_eq_default hid] at h
  exact List.not_mem_nil h

/-- A reader that is open was begun. -/
theorem lt_of_reader_open {s : Repository} {id : Nat} (h : (s.reader id).closed = false) :
    id < s.readers.length := by
  by_contra hid
  have hdef : s.reader id = default := by
    rw [reader, List.getD_eq_getElem?_getD, List.getElem?_eq_none (by omega)]
    rfl
  rw [hdef] at h
  exact Bool.noConfusion h

end Repository

end TripleStore
