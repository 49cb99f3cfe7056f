import TripleStore.Proofs.Repository.Calm

/-!
# A repository that is watched

What an archive should hold is read off the course of a repository: which commits have published,
what each of them has touched and published, and what the archive has kept of it.

* `Commit`: a commit that has published.
* `Happening`: a caller makes a move, or the storage begins to fail.
* `Watch`: a machine with its commits, and what they have published and had kept under each name.
* `Commit.latest_keeping`: when something more is kept of the commit that has touched a name last,
  one name changes.
-/

namespace TripleStore

open Repository

/-! ### Commits -/

/-- The names that a writer has open or has deleted. -/
def Writer.touched (w : Writer) : List Iri := w.deleted ++ w.staged.map Prod.fst

/-- A commit that has published. -/
structure Commit where
  writer : Nat
  /-- The names that the writer has left open or deleted. -/
  touched : List Iri
  /-- What was published right afterwards. -/
  contents : Iri → Option Graph
  /-- What the backing was told about the writer and has kept. -/
  kept : List Archive.Task := []

namespace Commit

/-- Whether the backing has kept what it was told about a name. -/
def keeps (c : Commit) (name : Iri) : Bool := c.kept.any (·.name = name)

/-- The commit when the backing has kept something more that it was told about a writer. -/
def keeping (id : Nat) (tasks : List Archive.Task) (c : Commit) : Commit :=
  if c.writer = id then { c with kept := c.kept ++ tasks } else c

/-- What the first commit of a kind has published under each name, or what was there before. -/
def latest (p : Commit → Iri → Bool) (commits : List Commit) (before : Iri → Option Graph)
    (name : Iri) : Option Graph :=
  (commits.find? (p · name)).elim (before name) (·.contents name)

variable {c : Commit} {commits : List Commit} {id : Nat} {tasks : List Archive.Task}
  {before : Iri → Option Graph} {name : Iri}

@[simp] theorem writer_keeping : (c.keeping id tasks).writer = c.writer := by
  rw [keeping]
  split <;> rfl

@[simp] theorem touched_keeping : (c.keeping id tasks).touched = c.touched := by
  rw [keeping]
  split <;> rfl

@[simp] theorem contents_keeping : (c.keeping id tasks).contents = c.contents := by
  rw [keeping]
  split <;> rfl

theorem keeping_of_ne (h : c.writer ≠ id) : c.keeping id tasks = c := if_neg h

@[simp] theorem keeping_nil : c.keeping id [] = c := by
  rw [keeping, List.append_nil]
  split <;> rfl

theorem mem_kept_keeping {task : Archive.Task} :
    task ∈ (c.keeping id tasks).kept ↔ task ∈ c.kept ∨ c.writer = id ∧ task ∈ tasks := by
  rw [keeping]
  split
  · rename_i h
    simp [h]
  · rename_i h
    simp [h]

theorem keeps_iff : c.keeps name ↔ ∃ task ∈ c.kept, task.name = name := by
  simp [keeps]

theorem keeps_keeping :
    (c.keeping id tasks).keeps name ↔
      c.keeps name ∨ c.writer = id ∧ ∃ task ∈ tasks, task.name = name := by
  simp only [keeps_iff, mem_kept_keeping]
  constructor
  · rintro ⟨task, hk | ⟨hid, ht⟩, hn⟩
    · exact .inl ⟨task, hk, hn⟩
    · exact .inr ⟨hid, task, ht, hn⟩
  · rintro (⟨task, hk, hn⟩ | ⟨hid, task, ht, hn⟩)
    · exact ⟨task, .inl hk, hn⟩
    · exact ⟨task, .inr ⟨hid, ht⟩, hn⟩

theorem latest_cons (p : Commit → Iri → Bool) :
    latest p (c :: commits) before name =
      if p c name then c.contents name else latest p commits before name := by
  rw [latest, List.find?_cons]
  cases p c name <;> rfl

/-- Commits of other writers keep what they keep. -/
theorem map_keeping_of_notMem (h : id ∉ commits.map writer) :
    commits.map (keeping id tasks) = commits := by
  conv_rhs => rw [← List.map_id commits]
  refine List.map_congr_left fun c hc => keeping_of_ne ?_
  rintro rfl
  exact h (List.mem_map_of_mem hc)

theorem find?_touched_keeping :
    (commits.map (keeping id tasks)).find? (name ∈ ·.touched) =
      (commits.find? (name ∈ ·.touched)).map (keeping id tasks) := by
  rw [List.find?_map]
  congr 2
  funext c
  simp

theorem latest_touched_keeping :
    latest (fun c name => name ∈ c.touched) (commits.map (keeping id tasks)) before =
      latest (fun c name => name ∈ c.touched) commits before := by
  funext name
  rw [latest, latest, find?_touched_keeping]
  cases commits.find? (name ∈ ·.touched) with
  | none => rfl
  | some c => exact congrFun contents_keeping name

/-- No two of the commits are of the same writer, and each has kept only what it has touched. -/
structure Fair (commits : List Commit) : Prop where
  nodup : (commits.map writer).Nodup
  touched : ∀ c ∈ commits, ∀ name, c.keeps name → name ∈ c.touched

theorem Fair.of_cons (h : Fair (c :: commits)) : Fair commits :=
  ⟨(List.nodup_cons.mp h.nodup).2, fun d hd => h.touched d (List.mem_cons_of_mem _ hd)⟩

theorem Fair.eq (h : Fair commits) {d : Commit} (hc : c ∈ commits) (hd : d ∈ commits)
    (hid : c.writer = d.writer) : c = d :=
  List.inj_on_of_nodup_map h.nodup hc hd hid

/-- **One name changes** when something more is kept of the commit that has touched it last. -/
theorem latest_keeping (h : Fair commits) {task : Archive.Task}
    (hc : commits.find? (task.name ∈ ·.touched) = some c) :
    latest keeps (commits.map (keeping c.writer [task])) before =
      Function.update (latest keeps commits before) task.name (c.contents task.name) := by
  induction commits with
  | nil => cases hc
  | cons d commits ih =>
    have hmem := List.mem_of_find?_eq_some hc
    funext name
    rw [List.map_cons, latest_cons]
    by_cases hd : d.writer = c.writer
    · -- this is the commit, and no later one is of the same writer
      obtain rfl : d = c := h.eq List.mem_cons_self hmem hd
      rw [map_keeping_of_notMem (List.nodup_cons.mp h.nodup).1, contents_keeping]
      by_cases hn : name = task.name
      · have hk : (d.keeping d.writer [task]).keeps name :=
          keeps_keeping.mpr (.inr ⟨rfl, task, List.mem_singleton_self _, hn.symm⟩)
        rw [if_pos hk, hn, Function.update_self]
      · have hk : (d.keeping d.writer [task]).keeps name = d.keeps name := by
          rw [Bool.eq_iff_iff, keeps_keeping]
          simp [Ne.symm hn]
        rw [hk, Function.update_of_ne hn, latest_cons]
    · -- a commit that has not touched the name does not keep it
      have hno : task.name ∉ d.touched := by
        intro ht
        rw [List.find?_cons_of_pos (by simpa using ht)] at hc
        exact hd (congrArg writer (Option.some.inj hc))
      rw [List.find?_cons_of_neg (by simpa using hno)] at hc
      rw [keeping_of_ne hd, ih h.of_cons hc]
      by_cases hn : name = task.name
      · have hk : ¬ d.keeps name := fun hk => hno (hn ▸ h.touched d List.mem_cons_self name hk)
        rw [if_neg hk, hn, Function.update_self, Function.update_self]
      · rw [Function.update_of_ne hn, Function.update_of_ne hn, latest_cons]

/-- The commit that has touched a name last, if the backing has kept that. -/
theorem latest_eq_of_keeps (h : Fair commits) (hc : commits.find? (name ∈ ·.touched) = some c)
    (hk : c.keeps name) : latest keeps commits before name = c.contents name := by
  induction commits with
  | nil => cases hc
  | cons d commits ih =>
    rw [latest_cons]
    by_cases hd : name ∈ d.touched
    · rw [List.find?_cons_of_pos (by simpa using hd)] at hc
      obtain rfl := Option.some.inj hc
      rw [if_pos hk]
    · rw [List.find?_cons_of_neg (by simpa using hd)] at hc
      rw [if_neg fun hk => hd (h.touched d List.mem_cons_self name hk)]
      exact ih h.of_cons hc

end Commit

/-! ### What happens -/

/-- Something that happens to a repository. -/
inductive Happening
  | move (move : Move)
  /-- From now on a call of the storage is to fail, or none. -/
  | trouble (fault : Option Fault)

/-- The machine when its storage is told to fail. -/
def Machine.troubled (m : Machine) (fault : Option Fault) : Machine :=
  { m with host := { m.host with backing := match m.host.backing with
    | .archive medium => .archive { medium with fault }
    | b => b } }

theorem Machine.backing_troubled {m : Machine} {medium : Medium}
    (hb : m.host.backing = .archive medium) (fault : Option Fault) :
    (m.troubled fault).host.backing = .archive { medium with fault } := by
  simp only [troubled, hb]

/-- What a backing keeps that is given something to do. -/
def Backing.kept (b : Backing) (task : Archive.Task) : List Archive.Task :=
  if (b.perform task).1.isOk then [task] else []

theorem Backing.mem_kept {b : Backing} {task task' : Archive.Task} :
    task' ∈ b.kept task ↔ (b.perform task).1.isOk ∧ task' = task := by
  rw [kept]
  split
  · rename_i h
    simp [h]
  · rename_i h
    simp [h]

/-- What the next step of a call that ends a writer gives the backing to do. -/
def Machine.task? (m : Machine) (k : Nat) : Option Archive.Task :=
  match (m.closing k).progress with
  | .telling (t :: _) _ => some (m.repository.task (m.closing k).writer t)
  | _ => none

/-- A machine that is watched. -/
structure Watch where
  machine : Machine
  /-- The commits that have published, the latest first. -/
  commits : List Commit := []

namespace Watch

/-- The commits after a step of a call that ends a writer: the backing may have kept something more,
or the writer has published. -/
def noted (w : Watch) (k : Nat) : List Commit :=
  let m := w.machine
  let id := (m.closing k).writer
  match m.task? k with
  | some task => w.commits.map (·.keeping id (m.host.backing.kept task))
  | none =>
    if (m.proceed k).ledger.writers = m.ledger.writers then w.commits
    else
      { writer := id
        touched := (m.repository.writer id).touched
        contents := (m.proceed k).repository.contents } :: w.commits

/-- What a happening makes of the machine and of what was noted about it. -/
def step (w : Watch) : Happening → Watch
  | .trouble fault => { w with machine := w.machine.troubled fault }
  | .move (.proceed k) => { machine := w.machine.step (.proceed k), commits := w.noted k }
  | .move move => { w with machine := w.machine.step move }

/-- The watch after the happenings, in the order of the list. -/
def run (w : Watch) (happenings : List Happening) : Watch := happenings.foldl step w

theorem machine_step_move (w : Watch) (move : Move) :
    (w.step (.move move)).machine = w.machine.step move := by
  cases move <;> rfl

/-- The commit that has touched a name last. -/
def lastTouching (w : Watch) (name : Iri) : Option Commit := w.commits.find? (name ∈ ·.touched)

/-- What the commits have published under each name, upon what was there before. -/
def published (w : Watch) (before : Iri → Option Graph) : Iri → Option Graph :=
  Commit.latest (fun c name => name ∈ c.touched) w.commits before

/-- What the last commit that has touched a name, and of which the backing has kept that, has
published under it, or what was there before. -/
def persisted (w : Watch) (before : Iri → Option Graph) : Iri → Option Graph :=
  Commit.latest Commit.keeps w.commits before

/-- All that the backing was told about the commits and has kept. -/
def kept (w : Watch) : List Archive.Task := w.commits.flatMap Commit.kept

theorem mem_kept {w : Watch} {task : Archive.Task} :
    task ∈ w.kept ↔ ∃ c ∈ w.commits, task ∈ c.kept := List.mem_flatMap

/-- What was kept once is never forgotten. -/
theorem kept_subset_step (w : Watch) (happening : Happening) :
    w.kept ⊆ (w.step happening).kept := by
  intro task htask
  obtain ⟨c, hc, ht⟩ := mem_kept.mp htask
  have hsame : ∀ {w' : Watch}, c ∈ w'.commits → task ∈ w'.kept := fun hc => mem_kept.mpr ⟨c, hc, ht⟩
  cases happening with
  | trouble fault => exact hsame hc
  | move move =>
    cases move with
    | proceed k =>
      show task ∈ (Watch.mk (w.machine.proceed k) (w.noted k)).kept
      rw [noted]
      split
      · exact mem_kept.mpr ⟨_, List.mem_map_of_mem hc, Commit.mem_kept_keeping.mpr (.inl ht)⟩
      · split
        · exact hsame hc
        · exact hsame (List.mem_cons_of_mem _ hc)
    | _ => exact hsame hc

end Watch

end TripleStore
