import TripleStore.Proofs.Repository.Durable
import TripleStore.Proofs.Repository.Legible

/-!
# Opening a repository again

What callers hand in is checked on the way in, by the rules for terms, and read on the way out, by
the scanner of single terms.  The two do not agree on labels: the rules let in more than the scanner
reads, and such a label spoils all that the archive keeps.

* `Happening.isPlain`: nothing but plain text is handed in.
* `Watch.kept_legible`: then the archive keeps nothing that it cannot read.
* `Watch.openOn_run`: **then a repository can be opened again, and publishes the same.**
* `Machine.openOn_after_unread_label`: a label that is let in and not read.
-/

namespace TripleStore

open Repository

/-! ### What is kept -/

/-- What the archive keeps of the task is read back, and its name is in UTF-8. -/
structure Archive.Task.Legible (task : Archive.Task) : Prop where
  terms : ∀ t ∈ task.terms, NTriples.parseTerm t.render = .ok t
  name : Utf8.isWellFormed task.name = true

/-- Tasks that are legible can be told apart and read back if digests differ. -/
theorem Archive.Readable.of_legible {tasks : List Archive.Task}
    (h : ∀ task ∈ tasks, task.Legible)
    (hd : Set.InjOn digest (Term.render '' termsIn tasks ∪ renderIri '' namesIn tasks)) :
    Archive.Readable tasks := by
  refine ⟨?_, hd⟩
  rintro t ⟨task, htask, ht⟩
  exact (h task htask).terms t ht

/-- Names in UTF-8 are not mistaken for one another. -/
theorem Archive.not_mistaken_of_legible {tasks : List Archive.Task}
    (h : ∀ task ∈ tasks, task.Legible) {name : Iri} (hname : Utf8.isWellFormed name = true) :
    ¬ Archive.Mistaken tasks name := by
  rintro ⟨other, hmem, hne, htext⟩
  exact hne (renderIri_injOn (h _ hmem).name hname htext)

/-- What legible commits leave is what the tables hold. -/
theorem Commit.Account.tables_eq {commits : List Commit} {held tables : Iri → Option Graph}
    (h : Account commits held tables)
    (hlegible : ∀ task ∈ commits.flatMap kept, task.Legible)
    (hheld : ∀ name, (held name).isSome → Utf8.isWellFormed name = true) (name : Iri) :
    tables name = latest keeps commits held name := by
  rcases h name with hsame | ⟨hnone, hmistaken⟩
  · exact hsame
  -- nothing else could be left under a name that is mistaken for another one
  have hname : Utf8.isWellFormed name ≠ true :=
    fun hname => Archive.not_mistaken_of_legible hlegible hname hmistaken
  have hkeeps : commits.find? (·.keeps name) = none := by
    refine List.find?_eq_none.mpr fun c hc hk => ?_
    obtain ⟨task, htask, rfl⟩ := keeps_iff.mp hk
    exact hname (hlegible task (List.mem_flatMap.mpr ⟨c, hc, htask⟩)).name
  rw [hnone, latest, hkeeps]
  exact (Option.not_isSome_iff_eq_none.mp fun hsome => hname (hheld name hsome)).symm

/-- What a legible repository tells the backing. -/
theorem Repository.Legible.task {s : Repository} (h : s.Legible) (id : Nat) {t : Telling}
    (ht : t.isPlain = true) : (s.task id t).Legible := by
  cases t with
  | delete name =>
    refine ⟨?_, ht⟩
    rintro t ⟨g, hg, -⟩
    cases hg
  | save name =>
    obtain ⟨hutf8, hid⟩ := Bool.and_eq_true_iff.mp ht
    refine ⟨?_, hutf8⟩
    rintro t ⟨g, hg, ht⟩
    obtain rfl := Option.some.inj hg
    rcases ht with rfl | ht
    · exact Term.parseTerm_of_isPlain hutf8 (if_pos hid)
    · exact h.find _ name t ht

/-- Whether what is handed in is plain text. -/
def Happening.isPlain : Happening → Bool
  | .move m => m.isPlain
  | .trouble _ => true

namespace Watch

variable {w : Watch}

theorem legible_step (h : w.machine.Legible) (hk : ∀ task ∈ w.kept, task.Legible)
    {happening : Happening} (hp : happening.isPlain = true) :
    (w.step happening).machine.Legible ∧ ∀ task ∈ (w.step happening).kept, task.Legible := by
  cases happening with
  | trouble fault => exact ⟨⟨h.world, h.visits, h.closings⟩, hk⟩
  | move move =>
    rw [w.machine_step_move]
    refine ⟨h.step hp, ?_⟩
    cases move with
    | proceed k =>
      intro task htask
      obtain ⟨c, hc, ht⟩ := mem_kept.mp htask
      have hold : ∀ {c}, c ∈ w.commits → task ∈ c.kept → task.Legible :=
        fun hc ht => hk task (mem_kept.mpr ⟨_, hc, ht⟩)
      replace hc : c ∈ w.noted k := hc
      rw [noted] at hc
      split at hc
      · rename_i task' htask'
        obtain ⟨d, hd, rfl⟩ := List.mem_map.mp hc
        rcases Commit.mem_kept_keeping.mp ht with ht | ⟨-, ht⟩
        · exact hold hd ht
        · obtain rfl := (Backing.mem_kept.mp ht).2
          rw [Machine.task?] at htask'
          split at htask'
          · rename_i t rest errors hprog
            obtain rfl := Option.some.inj htask'
            exact h.world.task _ (h.closing k _ _ hprog t List.mem_cons_self)
          · cases htask'
      · split at hc
        · exact hold hc ht
        · rcases List.mem_cons.mp hc with rfl | hc
          · exact absurd ht List.not_mem_nil
          · exact hold hc ht
    | _ => exact hk

/-- **What the archive keeps can be read**, if nothing but plain text is handed in. -/
theorem kept_legible (h : w.machine.Legible) (hk : ∀ task ∈ w.kept, task.Legible)
    {happenings : List Happening} (hp : ∀ happening ∈ happenings, happening.isPlain = true) :
    ∀ task ∈ (w.run happenings).kept, task.Legible := by
  induction happenings generalizing w with
  | nil => exact hk
  | cons happening happenings ih =>
    obtain ⟨hfirst, hrest⟩ := List.forall_mem_cons.mp hp
    obtain ⟨hm, hk⟩ := legible_step h hk hfirst
    exact ih hm hk hrest

end Watch

/-! ### Opening again -/

/-- A repository is legible that was opened over an archive of legible tasks. -/
theorem Machine.Legible.of_openOn {m₀ : Medium} (hempty : m₀.database.entries = [])
    {past : List Archive.Task} (hpast : ∀ task ∈ past, task.Orderly)
    (hr : Archive.Readable (Archive.performAll past m₀).1) {patience : Patience}
    (hp : patience.exhausted? = none) {host₀ host : Host} {s : Repository}
    (hb : host₀.backing = .archive { (Archive.performAll past m₀).2 with fault := none })
    (hopen : openOn patience host₀ = (.ok s, host)) :
    Machine.Legible { repository := s, host } := by
  have hheld := hr.keeps_performAll hempty hpast (List.Subset.refl _)
  obtain ⟨loaded, host', hopen', -, hnodup, hsame⟩ := openOn_of_keeps hheld hr.vocabulary rfl hp hb
  obtain ⟨hs, rfl⟩ := Prod.mk.inj (hopen.symm.trans hopen')
  obtain rfl := Except.ok.inj hs
  refine ⟨⟨fun g hg => ?_, fun w hw => absurd hw List.not_mem_nil⟩,
    fun v hv => absurd hv List.not_mem_nil, fun c hc => absurd hc List.not_mem_nil⟩
  obtain ⟨name, g', hg', h⟩ := exists_same_of_mem hnodup hsame hg
  have hlegible : g'.Legible := fun t ht => (hheld.holds.terms hg' t (.inr ht)).2.1
  exact hlegible.mono (fun n => (h.nodes n).mp) fun t => (h.triples t).mp

/-- What no commit has touched is kept and published as at first. -/
theorem Durable.untouched {T : Set Term} {N : Set Iri} {opened held : Iri → Option Graph}
    {w : Watch} (h : Durable T N opened held w) (hm : w.machine.Ready) {name : Iri}
    (hnone : w.lastTouching name = none) :
    w.machine.repository.contents name = opened name ∧ w.persisted held name = held name := by
  have hno : ∀ c ∈ w.commits, name ∉ c.touched := by
    intro c hc hmem
    exact List.find?_eq_none.mp hnone c hc (by simpa using hmem)
  constructor
  · rw [h.contents, Watch.published, Commit.latest, show w.commits.find? _ = none from hnone]
    rfl
  · have hkeeps : w.commits.find? (·.keeps name) = none :=
      List.find?_eq_none.mpr fun c hc hk => hno c hc ((h.fair hm).touched c hc name hk)
    rw [Watch.persisted, Commit.latest, hkeeps]
    rfl

/-- **A repository can be opened again.**  A repository is opened over an archive that keeps nothing
that it cannot read.  Callers add statements, remove statements and nodes, make new nodes, open and
delete collections, commit and cancel, in any order of their steps, and the storage may fail now and
then; what they hand in is plain text.  Then opening another repository over the archive succeeds,
and it publishes under each name the same nodes and triples, provided that the last commit that has
touched the name has answered well.  Nothing else is asked of names and statements: those that break
the rules are turned away.  Different texts have different digests. -/
theorem Watch.openOn_run (m₀ : Medium) (hempty : m₀.database.entries = [])
    (past : List Archive.Task) (hpast : ∀ task ∈ past, task.Orderly)
    (hlegible : ∀ task ∈ (Archive.performAll past m₀).1, task.Legible)
    (patience patience' : Patience) (hp : patience.exhausted? = none)
    (hp' : patience'.exhausted? = none) (host₀ host : Host) (s : Repository)
    (hb : host₀.backing = .archive { (Archive.performAll past m₀).2 with fault := none })
    (hopen : openOn patience host₀ = (.ok s, host)) (happenings : List Happening)
    (hplain : ∀ happening ∈ happenings, happening.isPlain = true)
    (hdigests :
      let tasks := (Archive.performAll past m₀).1 ++
        (Watch.run ⟨{ repository := s, host }, []⟩ happenings).kept
      Set.InjOn digest
        (Term.render '' Archive.termsIn tasks ∪ renderIri '' Archive.namesIn tasks)) :
    let w := Watch.run ⟨{ repository := s, host }, []⟩ happenings
    ∃ medium, w.machine.host.backing = .archive medium ∧
      ∀ host₁ : Host, host₁.backing = .archive { medium with fault := none } →
        ∃ s' host', openOn patience' host₁ = (.ok s', host') ∧
          ∀ name, (∀ c, w.lastTouching name = some c → w.machine.Succeeded c.writer) →
            Option.Rel Graph.Same (s'.contents name) (w.machine.repository.contents name) := by
  intro w
  let done := (Archive.performAll past m₀).1
  have hpart : Archive.termsIn done ⊆ Archive.termsIn (done ++ w.kept) ∧
      Archive.namesIn done ⊆ Archive.namesIn (done ++ w.kept) :=
    ⟨fun t ⟨task, htask, ht⟩ => ⟨task, List.mem_append_left _ htask, ht⟩,
      fun n ⟨task, htask, hn⟩ => ⟨task, List.mem_append_left _ htask, hn⟩⟩
  have hfirst : Archive.Readable done := .of_legible hlegible
    (hdigests.mono (Set.union_subset_union (Set.image_mono hpart.1) (Set.image_mono hpart.2)))
  have hkept : ∀ task ∈ w.kept, task.Legible :=
    Watch.kept_legible (.of_openOn hempty hpast hfirst hp hb hopen)
      (fun task ht => absurd ht List.not_mem_nil) hplain
  have hr : Archive.Readable (done ++ w.kept) :=
    .of_legible (List.forall_mem_append.mpr ⟨hlegible, hkept⟩) hdigests
  obtain ⟨hdurable, hready, hsame⟩ := Durable.of_openOn hempty hpast hp hb hopen hr
    (List.subset_append_left _ _) (List.subset_append_right _ _)
  obtain ⟨medium, tables, hback, hkeeps, haccount⟩ := hdurable.disk
  have hheld : ∀ name, (Archive.remaining done name).isSome → Utf8.isWellFormed name = true := by
    intro name hsome
    obtain ⟨task, htask, rfl⟩ :=
      (hfirst.keeps_performAll hempty hpast (List.Subset.refl _)).names name hsome
    exact (hlegible task htask).name
  obtain rfl : tables = w.persisted (Archive.remaining done) :=
    funext (haccount.tables_eq hkept hheld)
  refine ⟨medium, hback, fun host₁ hb₁ => ?_⟩
  have hcalm : Archive.Keeps _ _ { medium with fault := none } _ := hkeeps.of_database rfl
  obtain ⟨loaded, host', hopen₁, -, -, hloaded⟩ := openOn_of_keeps hcalm hr.vocabulary rfl hp' hb₁
  refine ⟨.holding loaded, host', hopen₁, fun name hlast => ?_⟩
  rw [contents_holding]
  cases hc : w.lastTouching name with
  | none =>
    obtain ⟨hcontents, hpersisted⟩ := hdurable.untouched hready hc
    rw [hcontents]
    exact Graph.Same.of_common (hpersisted ▸ hloaded name) (hsame name)
  | some c =>
    rw [← hdurable.persisted_eq hready hc (hlast c hc)]
    exact hloaded name

/-- A label with an exclamation mark is let in and committed, and then nothing can be opened. -/
theorem Machine.openOn_after_unread_label :
    let t : Triple := ⟨some (.blank [97, 33]), [98], some (.blank [97, 33])⟩
    let host : Host := { backing := .archive ⟨.inMemory, none⟩ }
    let m := (Machine.start [] host).run [
      .ask (.write .unlimited),
      .visit 0 [98] false, .advance 0, .advance 0, .advance 0, .advance 0, .advance 0,
      .ask (.edit ⟨0, [98], 0⟩ (.add t.toDraft)),
      .close 0 true, .proceed 0, .proceed 0, .proceed 0, .proceed 0]
    m.history.filterMap Event.deed?
        = [.opened ⟨0, [98], 0⟩, .edited ⟨0, [98], 0⟩ (.add t), .published 0] ∧
      (m.history.any fun
        | .closed ⟨0, true, _⟩ (.ok ()) => true
        | _ => false) = true ∧
      m.repository.contents [98] = some (Graph.empty.add t) ∧
      (openOn .unlimited m.host).1.isOk = false := by
  decide +kernel

/-- A label that the scanner takes in is let in, one that breaks the rules is not, and the rest is
there when the repository is opened again. -/
theorem Watch.openOn_run_label :
    let t : Triple := ⟨some (.blank [97]), [98], some (.blank [97])⟩
    let u : Triple := ⟨some (.blank [97, 32]), [98], some (.iri [98])⟩
    let host₀ : Host := { backing := .archive ⟨.inMemory, none⟩ }
    let host : Host := { host₀ with journal := [opened Archive.name 0] }
    let happenings : List Happening :=
      [.ask (.write .unlimited),
        .visit 0 [98] false, .advance 0, .advance 0, .advance 0, .advance 0, .advance 0,
        .ask (.edit ⟨0, [98], 0⟩ (.add t.toDraft)), .ask (.edit ⟨0, [98], 0⟩ (.add u.toDraft)),
        .close 0 true, .proceed 0, .proceed 0, .proceed 0, .proceed 0].map .move
    let w := Watch.run ⟨{ repository := .holding [], host }, []⟩ happenings
    ∃ medium s' host', w.machine.host.backing = .archive medium ∧
      openOn .limited { backing := .archive { medium with fault := none } } = (.ok s', host') ∧
      ∃ g, s'.contents [98] = some g ∧ g.Same (Graph.empty.add t) := by
  intro t u host₀ host happenings w
  have hopen : openOn .unlimited host₀ = (.ok (.holding []), host) := by decide +kernel
  have hkept : w.kept = [.save .unlimited [98] (Graph.empty.add t)] := by decide +kernel
  have hcommits : w.commits.map Commit.writer = [0] := by decide +kernel
  have hcontents : w.machine.repository.contents [98] = some (Graph.empty.add t) := by
    decide +kernel
  have hclosed : (w.machine.history.any fun
      | .closed ⟨0, true, _⟩ (.ok ()) => true
      | _ => false) = true := by decide +kernel
  have hsucceeded : w.machine.Succeeded 0 := by
    obtain ⟨e, he, hok⟩ := List.any_eq_true.mp hclosed
    split at hok
    · exact ⟨_, he, rfl, rfl⟩
    · cases hok
  have hdigests : Set.InjOn digest (Term.render '' Archive.termsIn ([] ++ w.kept) ∪
      renderIri '' Archive.namesIn ([] ++ w.kept)) := by
    have hpair : Set.InjOn digest {renderIri [98], (Term.blank [97]).render} :=
      Set.injOn_pair.mpr fun h => absurd h (by decide +kernel)
    refine hpair.mono ?_
    rw [hkept]
    rintro _ (⟨t', ⟨task, htask, g, hg, ht⟩, rfl⟩ | ⟨_, ⟨task, htask, rfl⟩, rfl⟩)
    · obtain rfl := List.mem_singleton.mp htask
      obtain rfl := Option.some.inj hg
      rcases ht with rfl | ⟨n, hn, rfl⟩ | ⟨v, hv, rfl | ht⟩
      · exact .inl rfl
      · obtain rfl := Option.some.inj (List.mem_singleton.mp hn)
        exact .inr rfl
      · obtain rfl := List.mem_singleton.mp hv
        exact .inl rfl
      · obtain rfl := List.mem_singleton.mp hv
        obtain rfl := Option.some.inj ht
        exact .inr rfl
    · obtain rfl := List.mem_singleton.mp htask
      exact .inl rfl
  have hrun := Watch.openOn_run ⟨.inMemory, none⟩ rfl []
    (fun _ h => absurd h List.not_mem_nil) (fun _ h => absurd h List.not_mem_nil)
    .unlimited .limited rfl rfl host₀ host (.holding []) rfl hopen happenings (by decide) hdigests
  rw [show Watch.run ⟨{ repository := .holding [], host }, []⟩ happenings = w from rfl] at hrun
  obtain ⟨medium, hb, hreopen⟩ := hrun
  obtain ⟨s', host', hs', hsame⟩ :=
    hreopen { backing := .archive { medium with fault := none } } rfl
  refine ⟨medium, s', host', hb, hs', ?_⟩
  have h : Option.Rel Graph.Same (s'.contents [98]) (w.machine.repository.contents [98]) := by
    refine hsame [98] fun c hc => ?_
    have hmem := List.mem_map_of_mem (f := Commit.writer) (List.mem_of_find?_eq_some hc)
    rw [show c.writer = 0 from List.mem_singleton.mp (hcommits ▸ hmem)]
    exact hsucceeded
  rw [hcontents] at h
  exact Graph.Same.exists_of_rel h

end TripleStore
