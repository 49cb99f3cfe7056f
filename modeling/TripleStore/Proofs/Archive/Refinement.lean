import TripleStore.Proofs.Archive.Load
import TripleStore.Proofs.Term.RoundTrip

/-!
# The archive as a map from names to graphs

Whatever is saved and deleted, one after the other: the tables hold under each name what the last
task left that concerned it, and loading gives that.

The key of a collection is made of the text of its name.  Texts tell the names apart that are saved,
but nothing is asked of a name that is only deleted: it may be written as another one, and then the
deletion removes what is kept under that one.

* `Archive.Task`: saving or deleting a collection; `Archive.performAll` does some tasks, of which
  some may fail.
* `Archive.latest` is what the last task about a name leaves under it, `Archive.remaining` what the
  last one leaves that concerns it; they differ where another name is deleted that is written the
  same (`Archive.remaining_cases`).
* `Archive.Readable`: the terms of the tasks are read back from their texts, and different texts
  have different digests.
* `Archive.Keeps`: the tables hold the collections of a map; one task that succeeds changes what it
  concerns, one that fails changes nothing.
* `Archive.load_performAll`: **loading gives exactly the names whose last task was to save, each
  with the nodes and triples of the graph that was saved**, if no other name was deleted that is
  written the same.
* `Archive.load_after_namesake`: such a deletion, after which loading does not give the graph.
-/

namespace TripleStore

namespace Archive

variable {T : Set Term} {N : Set Iri} {c : Iri → Option Graph} {g : Graph} {m m' : Medium}

/-! ### Tasks -/

/-- Something that an archive is told to do. -/
inductive Task
  | save (patience : Patience) (name : Iri) (g : Graph)
  | delete (name : Iri)
  deriving DecidableEq, Repr

namespace Task

/-- The name that a task is about. -/
def name : Task → Iri
  | .save _ name _ => name
  | .delete name => name

/-- The graph that a task leaves under its name, if any. -/
def left : Task → Option Graph
  | .save _ _ g => some g
  | .delete _ => none

/-- The terms that a task keeps the texts of. -/
def terms (task : Task) : Set Term := {t | ∃ g, task.left = some g ∧ t ∈ termsOf task.name g}

/-- Whether a task concerns a name: a save concerns the name it is given, a deletion all names that
are written as the one it is given. -/
def concerns : Task → Iri → Bool
  | .save _ name _, other => other = name
  | .delete name, other => renderIri other = renderIri name

theorem concerns_name (task : Task) : task.concerns task.name = true := by
  cases task <;> exact decide_eq_true rfl

/-- Does a task. -/
def perform : Task → Medium → Outcome Unit × Medium
  | .save patience name g => Archive.save patience name g
  | .delete name => Archive.delete name

end Task

/-- Does tasks one after the other: those that succeeded, and the medium afterwards. -/
def performAll : List Task → Medium → List Task × Medium
  | [], m => ([], m)
  | task :: tasks, m =>
    match task.perform m with
    | (.ok _, m) => ((task :: (performAll tasks m).1), (performAll tasks m).2)
    | (.error _, m) => performAll tasks m

theorem performAll_subset (tasks : List Task) (m : Medium) : (performAll tasks m).1 ⊆ tasks := by
  induction tasks generalizing m with
  | nil => exact List.Subset.refl _
  | cons task tasks ih =>
    rw [performAll]
    rcases task.perform m with ⟨⟨⟩ | ⟨⟩, m'⟩
    · exact List.subset_cons_of_subset task (ih m')
    · exact List.cons_subset_cons task (ih m')

/-- What the last task about a name leaves under it. -/
def latest (tasks : List Task) (name : Iri) : Option Graph :=
  (tasks.reverse.find? (·.name = name)).bind Task.left

/-- What some tasks leave under a name: that of the last task that concerns it. -/
def remaining (tasks : List Task) (name : Iri) : Option Graph :=
  (tasks.reverse.find? (·.concerns name)).bind Task.left

/-- The collections when a task is done. -/
def Task.apply (c : Iri → Option Graph) (task : Task) : Iri → Option Graph :=
  fun name => if task.concerns name then task.left else c name

theorem latest_concat (tasks : List Task) (task : Task) :
    latest (tasks ++ [task]) = Function.update (latest tasks) task.name task.left := by
  funext name
  rw [latest, List.reverse_append, List.reverse_singleton, List.singleton_append, List.find?_cons]
  by_cases h : name = task.name
  · simp [h]
  · simp [h, Ne.symm h, latest]

theorem remaining_concat (tasks : List Task) (task : Task) :
    remaining (tasks ++ [task]) = task.apply (remaining tasks) := by
  funext name
  rw [remaining, List.reverse_append, List.reverse_singleton, List.singleton_append,
    List.find?_cons, Task.apply]
  cases task.concerns name <;> rfl

theorem remaining_eq_foldl (tasks : List Task) :
    remaining tasks = tasks.foldl Task.apply fun _ => none := by
  induction tasks using List.reverseRecOn with
  | nil => rfl
  | append_singleton tasks task ih =>
    rw [remaining_concat, ih, List.foldl_append, List.foldl_cons, List.foldl_nil]

/-- Some task deletes another name that is written the same. -/
def Mistaken (tasks : List Task) (name : Iri) : Prop :=
  ∃ other, .delete other ∈ tasks ∧ other ≠ name ∧ renderIri other = renderIri name

theorem Mistaken.mono {tasks tasks' : List Task} {name : Iri} (h : Mistaken tasks name)
    (hsub : tasks ⊆ tasks') : Mistaken tasks' name := by
  obtain ⟨other, hmem, hother⟩ := h
  exact ⟨other, hsub hmem, hother⟩

/-- A task that is about another name changes nothing, or deletes a name that is written the
same. -/
theorem Task.apply_of_ne {c : Iri → Option Graph} {task : Task} {name : Iri}
    (hname : name ≠ task.name) :
    task.apply c name = c name ∨ task.apply c name = none ∧ Mistaken [task] name := by
  cases task with
  | save patience n g => exact .inl (if_neg (by simpa [concerns, Task.name] using hname))
  | delete n =>
    by_cases htext : renderIri name = renderIri n
    · exact .inr ⟨if_pos (decide_eq_true htext), n, List.mem_singleton_self _, hname.symm, htext.symm⟩
    · exact .inl (if_neg (by simpa [concerns] using htext))

theorem Task.apply_name {c : Iri → Option Graph} (task : Task) : task.apply c task.name = task.left :=
  if_pos task.concerns_name

/-- What remains under a name is what the last task about it has left, or nothing where another name
was deleted that is written the same. -/
theorem remaining_cases (tasks : List Task) (name : Iri) :
    remaining tasks name = latest tasks name ∨
      remaining tasks name = none ∧ Mistaken tasks name := by
  induction tasks using List.reverseRecOn with
  | nil => exact .inl rfl
  | append_singleton tasks task ih =>
    rw [remaining_concat, latest_concat]
    by_cases hname : name = task.name
    · rw [hname, Function.update_self]
      exact .inl task.apply_name
    rw [Function.update_of_ne hname]
    rcases Task.apply_of_ne hname with hsame | ⟨hnone, hmistaken⟩
    · rw [hsame]
      exact ih.imp_right (And.imp_right (·.mono (List.subset_append_left _ _)))
    · exact .inr ⟨hnone, hmistaken.mono (List.subset_append_right _ _)⟩

/-! ### What tasks may be about -/

/-- Terms that are read back from their texts and told apart by their keys, and names that have the
same key only if they are written the same. -/
structure Vocabulary (T : Set Term) (N : Set Iri) : Prop where
  read_back : ∀ t ∈ T, NTriples.parseTerm t.render = .ok t
  terms : Set.InjOn TermKey.ofTerm T
  names : ∀ a ∈ N, ∀ b ∈ N, TermKey.ofTerm (.iri a) = .ofTerm (.iri b) → renderIri a = renderIri b

/-- A task within a vocabulary. -/
structure Task.Fits (T : Set Term) (N : Set Iri) (task : Task) : Prop where
  name : task.name ∈ N
  terms : ∀ t ∈ task.terms, t ∈ T

/-- A task that leaves a graph all of whose nodes are registered, if any. -/
def Task.Orderly (task : Task) : Prop := ∀ g, task.left = some g → g.Registered

/-- The terms that some tasks keep the texts of. -/
def termsIn (tasks : List Task) : Set Term := {t | ∃ task ∈ tasks, t ∈ task.terms}

/-- The names that some tasks are about. -/
def namesIn (tasks : List Task) : Set Iri := {name | ∃ task ∈ tasks, task.name = name}

theorem Task.fits_of_mem {tasks : List Task} {task : Task} (htask : task ∈ tasks) :
    task.Fits (termsIn tasks) (namesIn tasks) :=
  ⟨⟨task, htask, rfl⟩, fun _ ht => ⟨task, htask, ht⟩⟩

/-- All terms that the tasks keep are read back from their texts, the names of what is saved among
them, and different texts have different digests.  A name that is only deleted need not be read
back. -/
structure Readable (tasks : List Task) : Prop where
  read_back : ∀ t ∈ termsIn tasks, NTriples.parseTerm t.render = .ok t
  digests : Set.InjOn digest (Term.render '' termsIn tasks ∪ renderIri '' namesIn tasks)

namespace Readable

variable {tasks : List Task}

theorem vocabulary (h : Readable tasks) : Vocabulary (termsIn tasks) (namesIn tasks) := by
  refine ⟨h.read_back, ?_, ?_⟩
  · refine TermKey.injOn_ofTerm ?_ (h.digests.mono Set.subset_union_left)
    intro t ht u hu htext
    have ht' := h.read_back t ht
    rw [show t.render = u.render from htext, h.read_back u hu] at ht'
    exact (Except.ok.inj ht').symm
  · intro name hname name' hname' hkey
    have hdigest : digest (renderIri name) = digest (renderIri name') :=
      (List.cons.inj (congrArg TermKey.bytes hkey)).2
    exact h.digests (.inr ⟨name, hname, rfl⟩) (.inr ⟨name', hname', rfl⟩) hdigest

theorem mono (h : Readable tasks) {tasks' : List Task} (hsub : tasks' ⊆ tasks) :
    Readable tasks' := by
  have hterms : termsIn tasks' ⊆ termsIn tasks := fun t ⟨task, htask, ht⟩ => ⟨task, hsub htask, ht⟩
  have hnames : namesIn tasks' ⊆ namesIn tasks := fun n ⟨task, htask, hn⟩ => ⟨task, hsub htask, hn⟩
  exact ⟨fun t ht => h.read_back t (hterms ht),
    h.digests.mono (Set.union_subset_union (Set.image_mono hterms) (Set.image_mono hnames))⟩

/-- Tasks about two names, and graphs in which these are the only terms. -/
theorem of_pair {a b : Iri}
    (hread : ∀ i ∈ [a, b], NTriples.parseTerm (Term.iri i).render = .ok (.iri i))
    (hdigests : digest (renderIri a) = digest (renderIri b) → renderIri a = renderIri b)
    (hnames : ∀ task ∈ tasks, task.name ∈ [a, b])
    (hleft : ∀ task ∈ tasks, ∀ g, task.left = some g →
      (∀ n ∈ g.nodes, n ∈ [some (Node.iri a), some (.iri b)]) ∧ ∀ t ∈ g.triples,
        t.predicate ∈ [a, b] ∧ t.object ∈ [some (Term.iri a), some (.iri b)]) :
    Readable tasks := by
  have hterms : ∀ t ∈ termsIn tasks, ∃ i ∈ [a, b], t = .iri i := by
    rintro t ⟨task, htask, g, hg, ht⟩
    obtain ⟨hnodes, htriples⟩ := hleft task htask g hg
    rcases ht with rfl | ⟨n, hn, rfl⟩ | ⟨u, hu, ht⟩
    · exact ⟨task.name, hnames task htask, rfl⟩
    · have h := hnodes _ hn
      simp only [List.mem_cons, List.not_mem_nil, or_false, Option.some.injEq] at h
      rcases h with rfl | rfl
      · exact ⟨a, by simp, rfl⟩
      · exact ⟨b, by simp, rfl⟩
    · obtain ⟨hp, ho⟩ := htriples u hu
      rcases ht with rfl | ht
      · exact ⟨_, hp, rfl⟩
      · rw [ht] at ho
        simp only [List.mem_cons, List.not_mem_nil, or_false, Option.some.injEq] at ho
        rcases ho with rfl | rfl
        · exact ⟨a, by simp, rfl⟩
        · exact ⟨b, by simp, rfl⟩
  have hpair : ∀ {i}, i ∈ [a, b] → i = a ∨ i = b := by simp
  refine ⟨?_, ?_⟩
  · intro t ht
    obtain ⟨i, hi, rfl⟩ := hterms t ht
    exact hread i hi
  · refine (Set.injOn_pair.mpr hdigests : Set.InjOn digest {renderIri a, renderIri b}).mono ?_
    rintro _ (⟨t, ht, rfl⟩ | ⟨_, ⟨task, htask, rfl⟩, rfl⟩)
    · obtain ⟨i, hi, rfl⟩ := hterms t ht
      exact (hpair hi).imp (congrArg renderIri) (congrArg renderIri)
    · exact (hpair (hnames task htask)).imp (congrArg renderIri) (congrArg renderIri)

end Readable

/-! ### Tasks and tables -/

/-- Registered nodes and nothing missing: everything is kept. -/
theorem Whole.storable (hw : Whole g) (hg : g.Registered) : Storable g := by
  refine ⟨hg, hw.nodes, fun t ht => ?_⟩
  have hn := hg.subject ht
  exact hw.objects t.subject hn t.pair ((Graph.mem_statementsFor hn).mpr ht)

/-- A task that fails makes no difference to the database. -/
theorem Task.database_of_failed {task : Task} {e : Error} (h : task.perform m = (.error e, m')) :
    m'.database = m.database := by
  cases task with
  | save patience name g =>
    obtain ⟨⟨_, ⟨⟩⟩, -⟩ | ⟨-, hdb⟩ := save_cases h
    exact hdb
  | delete name =>
    obtain ⟨⟨_, ⟨⟩⟩, -⟩ | ⟨-, hdb⟩ := delete_cases h
    exact hdb

/-- The tables hold the collections of a map, whose names belong to a vocabulary. -/
structure Keeps (T : Set Term) (N : Set Iri) (m : Medium) (c : Iri → Option Graph) : Prop where
  holds : Holds T m.database.entries c
  names : ∀ name, (c name).isSome → name ∈ N

namespace Keeps

theorem of_database (h : Keeps T N m c) (hdb : m'.database = m.database) : Keeps T N m' c :=
  ⟨hdb ▸ h.holds, h.names⟩

/-- A task that succeeds changes what it concerns. -/
theorem perform (h : Keeps T N m c) (hv : Vocabulary T N) {task : Task} (hfits : task.Fits T N)
    (horderly : task.Orderly) (hrun : task.perform m = (.ok (), m')) :
    Keeps T N m' (task.apply c) := by
  refine ⟨?_, ?_⟩
  · cases task with
    | save patience name g =>
      obtain ⟨-, hwhole, hentries⟩ | ⟨⟨_, ⟨⟩⟩, -⟩ := save_cases hrun
      have hg := hwhole.storable (horderly g rfl)
      have hmap : (Task.save patience name g).apply c = Function.update c name (some g) := by
        funext n
        simp only [Task.apply, Task.concerns, Task.left, Function.update_apply, decide_eq_true_eq]
      rw [hentries, hmap]
      refine h.holds.save h.holds rfl hv.terms hg fun t ht => ?_
      have hmem := hfits.terms t ⟨g, rfl, ht⟩
      exact ⟨hmem, hv.read_back t hmem⟩
    | delete name =>
      obtain ⟨-, -, hentries⟩ | ⟨⟨_, ⟨⟩⟩, -⟩ := delete_cases hrun
      -- the names that are held under the key are written as this one
      have hmap : (Task.delete name).apply c
          = fun n => if TermKey.ofTerm (.iri n) = .ofTerm (.iri name) then none else c n := by
        funext n
        simp only [Task.apply, Task.concerns, Task.left, decide_eq_true_eq]
        by_cases hsome : (c n).isSome
        · have hkey : renderIri n = renderIri name ↔
              TermKey.ofTerm (.iri n) = .ofTerm (.iri name) :=
            ⟨TermKey.ofTerm_iri_congr, hv.names n (h.names n hsome) name hfits.name⟩
          simp only [hkey]
        · simp only [Option.not_isSome_iff_eq_none.mp hsome, ite_self]
      rw [hentries, hmap]
      exact h.holds.erase hv.terms name
  · intro name hsome
    by_cases hn : name = task.name
    · exact hn ▸ hfits.name
    · rcases Task.apply_of_ne (c := c) hn with hsame | ⟨hnone, -⟩
      · rw [hsame] at hsome
        exact h.names name hsome
      · rw [hnone] at hsome
        cases hsome

/-- Many tasks are done one after the other. -/
theorem performAll (h : Keeps T N m c) (hv : Vocabulary T N) {tasks : List Task}
    (hfits : ∀ task ∈ (performAll tasks m).1, task.Fits T N)
    (horderly : ∀ task ∈ tasks, task.Orderly) :
    Keeps T N (performAll tasks m).2 ((performAll tasks m).1.foldl Task.apply c) := by
  induction tasks generalizing m c with
  | nil => exact h
  | cons task tasks ih =>
    obtain ⟨htask, htasks⟩ := List.forall_mem_cons.mp horderly
    rw [Archive.performAll] at *
    rcases hrun : task.perform m with ⟨⟨⟩ | ⟨⟩, m'⟩
    · rw [hrun] at hfits
      exact ih (h.of_database (Task.database_of_failed hrun)) hfits htasks
    · rw [hrun] at hfits
      have h' := h.perform hv (hfits task List.mem_cons_self) htask hrun
      exact ih h' (fun t ht => hfits t (List.mem_cons_of_mem _ ht)) htasks

end Keeps

/-- What an archive keeps that some tasks have filled, from an empty database on. -/
theorem Readable.keeps_performAll {tasks : List Task} (hr : Readable tasks) {m₀ : Medium}
    (hempty : m₀.database.entries = []) {past : List Task} (hpast : ∀ task ∈ past, task.Orderly)
    (hsub : (performAll past m₀).1 ⊆ tasks) :
    Keeps (termsIn tasks) (namesIn tasks) { (performAll past m₀).2 with fault := none }
      (remaining (performAll past m₀).1) := by
  have hnone : Keeps (termsIn tasks) (namesIn tasks) m₀ fun _ => none :=
    ⟨hempty ▸ .empty _, fun _ hsome => by cases hsome⟩
  rw [remaining_eq_foldl]
  exact (hnone.performAll hr.vocabulary (fun _ ht => Task.fits_of_mem (hsub ht)) hpast).of_database
    rfl

/-! ### The main result -/

/-- **The archive is a map from names to graphs.**  Whatever is saved and deleted, from an empty
database on: loading succeeds and gives exactly what remains, each graph with exactly its nodes and
triples.  Under a name that is not mistaken for another one that is deleted, this is what the last
task about the name has left that succeeded: the graph that was saved last, or nothing.  The terms
that these tasks keep are read back from their texts, and different texts have different digests;
tasks that fail do not matter, whatever they are about. -/
theorem load_performAll (m₀ : Medium) (hempty : m₀.database.entries = []) (tasks : List Task)
    (horderly : ∀ task ∈ tasks, task.Orderly) (hr : Readable (performAll tasks m₀).1)
    (patience : Patience) (hp : patience.exhausted? = none) :
    ∃ collections,
      (load patience { (performAll tasks m₀).2 with fault := none }).1 = .ok collections ∧
        (collections.map Prod.fst).Nodup ∧
        (∀ name, Option.Rel Graph.Same (collections.lookup name)
          (remaining (performAll tasks m₀).1 name)) ∧
        ∀ name, ¬ Mistaken (performAll tasks m₀).1 name →
          Option.Rel Graph.Same (collections.lookup name)
            (latest (performAll tasks m₀).1 name) := by
  have h := hr.keeps_performAll hempty horderly (List.Subset.refl _)
  obtain ⟨collections, hload, hnodup, hall⟩ := load_of_holds h.holds hr.vocabulary.terms rfl hp
  refine ⟨collections, congrArg Prod.fst hload, hnodup, hall, fun name hname => ?_⟩
  rcases remaining_cases (performAll tasks m₀).1 name with hsame | ⟨-, hmistaken⟩
  · exact hsame ▸ hall name
  · exact absurd hmistaken hname

/-- One collection is saved, a second one saved and deleted; the name of the second one is a node of
the first. -/
theorem load_performAll_two_names :
    let g := Graph.empty.add ⟨some (.iri [98]), [98], some (.iri [98])⟩
    let tasks : List Task := [.save .unlimited [97] g, .save .unlimited [98] .empty, .delete [98]]
    ∃ collections,
      (load .limited { (performAll tasks ⟨.inMemory, none⟩).2 with fault := none }).1
        = .ok collections ∧ (collections.map Prod.fst).Nodup ∧
        (∀ name, Option.Rel Graph.Same (collections.lookup name)
          (remaining (performAll tasks ⟨.inMemory, none⟩).1 name)) ∧
        ∀ name, ¬ Mistaken (performAll tasks ⟨.inMemory, none⟩).1 name →
          Option.Rel Graph.Same (collections.lookup name)
            (latest (performAll tasks ⟨.inMemory, none⟩).1 name) := by
  intro g tasks
  have hleft : ∀ task ∈ tasks, ∀ g', task.left = some g' → g' = g ∨ g' = .empty := by
    intro task htask g' hg'
    simp only [tasks, List.mem_cons, List.not_mem_nil, or_false] at htask
    obtain rfl | rfl | rfl := htask
    · exact .inl (Option.some.inj hg').symm
    · exact .inr (Option.some.inj hg').symm
    · cases hg'
  have horderly : ∀ task ∈ tasks, task.Orderly := by
    intro task htask g' hg'
    obtain rfl | rfl := hleft task htask g' hg'
    · exact (Graph.Registered.empty true).add _
    · exact .empty true
  have hreadable : Readable tasks := by
    refine .of_pair (a := [97]) (b := [98]) (by decide) (by decide +kernel) (by decide) ?_
    intro task htask g' hg'
    obtain rfl | rfl := hleft task htask g' hg'
    · decide
    · decide
  exact load_performAll ⟨.inMemory, none⟩ rfl tasks horderly
    (hreadable.mono (performAll_subset tasks _)) .limited rfl

/-- The names `a|` and a replacement character, and `a|` and a byte that is no character, are written
the same: deleting the second one removes what is kept under the first one, which is read back from
its text and was never deleted. -/
theorem load_after_namesake :
    let name : Iri := [97, 124, 0xEF, 0xBF, 0xBD]
    let tasks : List Task := [.save .unlimited name .empty, .delete [97, 124, 0xFF]]
    (performAll tasks ⟨.inMemory, none⟩).1 = tasks ∧ Readable tasks ∧
      latest tasks name = some .empty ∧
      (load .unlimited { (performAll tasks ⟨.inMemory, none⟩).2 with fault := none }).1
        = .ok [] := by
  intro name tasks
  have htext : renderIri [97, 124, 0xFF] = renderIri name := by decide
  have hreadable : Readable tasks := by
    have hterms : ∀ t ∈ termsIn tasks, t = .iri name := by
      rintro t ⟨task, htask, g, hg, ht⟩
      simp only [tasks, List.mem_cons, List.not_mem_nil, or_false] at htask
      obtain rfl | rfl := htask
      · obtain rfl := Option.some.inj hg
        rcases ht with rfl | ⟨n, hn, -⟩ | ⟨u, hu, -⟩
        · rfl
        · cases hn
        · cases hu
      · cases hg
    refine ⟨?_, (Set.injOn_singleton digest (renderIri name)).mono ?_⟩
    · intro t ht
      rw [hterms t ht]
      decide
    · rintro _ (⟨t, ht, rfl⟩ | ⟨_, ⟨task, htask, rfl⟩, rfl⟩)
      · rw [hterms t ht]
        rfl
      · simp only [tasks, List.mem_cons, List.not_mem_nil, or_false] at htask
        obtain rfl | rfl := htask
        · rfl
        · exact htext
  exact ⟨by decide +kernel, hreadable, by decide, by decide +kernel⟩

end Archive

end TripleStore
