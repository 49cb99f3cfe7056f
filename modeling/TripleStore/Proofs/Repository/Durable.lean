import TripleStore.Proofs.Repository.Watch

/-!
# What is published and what the archive keeps

A commit publishes at once and tells the archive afterwards, name by name, while others go on and
may publish and tell the archive as well.  Some of what the archive is told fails and stays
published.  Still both copies follow from the commits, because a commit keeps its locks until the
archive was told everything.

* `Machine.Ready`: the invariants that concern locks, stores and commits, and that all stores hold
  registered nodes only.
* `Pending`: what a commit rests on that is telling the archive.
* `Commit.Account`: the commits account for what the tables of the archive hold.
* `Durable`: the invariant, with one lemma for each kind of step.
* `Watch.load_run`: **the archive holds, under each name, what the last commit has published that
  has touched the name and of which the archive has kept that**, or nothing where it has kept the
  deletion of another name that is written the same.
* `Watch.persisted_copy_lost`: such a deletion, after which both copies differ.
-/

namespace TripleStore

open Repository

/-! ### Stores of registered nodes -/

theorem Graph.Registered.lasting : Graph.Lasting Graph.Registered := ⟨.empty true, fun h c => h.apply c⟩

/-- The nodes in all stores are registered. -/
def Repository.Sound (s : Repository) : Prop := ∀ g ∈ s.stores, g.Registered

namespace Repository.Sound

variable {s : Repository}

theorem task (h : s.Sound) (id : Nat) (t : Telling) : (s.task id t).Orderly := by
  intro g hg
  cases t with
  | delete name => cases hg
  | save name =>
    obtain rfl := Option.some.inj hg
    exact Repository.All.find h Graph.Registered.lasting _ name

end Repository.Sound

namespace Machine

variable {m m' : Machine}

/-- All that was shown about single steps. -/
structure Ready (m : Machine) : Prop where
  locks : LocksKept m
  apart : Apart m
  settled : Settled m
  sound : m.repository.Sound

namespace Ready

theorem step (h : m.Ready) (move : Move) : (m.step move).Ready :=
  run_induction (P := Ready)
    (fun h hs => ⟨h.locks.request hs, h.apart.request hs, h.settled.request hs,
      Repository.All.request h.sound Graph.Registered.lasting hs⟩)
    (fun h hs => ⟨h.locks.visit hs, h.apart.visit hs, h.settled.visit hs,
      Repository.All.visit h.sound Graph.Registered.lasting hs⟩)
    (fun h hs => ⟨h.locks.closing hs, h.apart.closing hs, h.settled.closing hs,
      Repository.All.closing h.sound hs⟩)
    m h [move]

theorem troubled (h : m.Ready) (fault : Option Fault) : (m.troubled fault).Ready :=
  ⟨h.locks.of_eq rfl rfl rfl, h.apart.of_eq rfl, h.settled.steady rfl rfl rfl fun _ => rfl, h.sound⟩

theorem happening {w : Watch} (h : w.machine.Ready) (happening : Happening) :
    (w.step happening).machine.Ready := by
  cases happening with
  | trouble fault => exact h.troubled fault
  | move move =>
    rw [w.machine_step_move]
    exact h.step move

theorem start {c : Collections} (hc : ∀ g ∈ c.map Prod.snd, g.Registered) (host : Host) :
    (Machine.start c host).Ready :=
  ⟨.start c host, .start c host, .start c host, hc⟩

end Ready

end Machine

/-! ### Commits that tell the archive -/

theorem touched_tellings {w : Writer} {name : Iri} :
    name ∈ w.touched ↔ ∃ t ∈ tellings w, t.name = name := by
  rw [Writer.touched, List.mem_append]
  constructor
  · rintro (hd | hs)
    · exact ⟨.delete name, mem_tellings.mpr hd, rfl⟩
    · exact ⟨.save name, mem_tellings.mpr hs, rfl⟩
  · rintro ⟨t, ht, rfl⟩
    have h := mem_tellings.mp ht
    cases t with
    | delete name => exact .inl h
    | save name => exact .inr h

/-- What a commit rests on that is telling the archive: what it has touched is still as it has
published it, and unless something has failed, the rest is all that the archive has not kept. -/
structure Pending (m : Machine) (commits : List Commit) (c : Commit) (rest : List Telling)
    (errors : List Error) : Prop where
  touched : c.touched = (m.repository.writer c.writer).touched
  last : ∀ name ∈ c.touched, commits.find? (name ∈ ·.touched) = some c
  current : ∀ name ∈ c.touched,
    m.repository.published.lookup name = (m.repository.writer c.writer).staged.lookup name
  ahead : ∀ t ∈ rest, t ∈ tellings (m.repository.writer c.writer)
  clean : errors = [] → ∀ name ∈ c.touched, c.keeps name ∨ ∃ t ∈ rest, t.name = name

/-- What a writer has open or deleted is locked by it alone. -/
theorem notMem_touched {m : Machine} (hl : LocksKept m) {i j : Nat} (hij : i ≠ j)
    (hi : (m.repository.writer i).phase ≠ .ended) (hj : (m.repository.writer j).phase ≠ .ended)
    {name : Iri} (hname : name ∈ (m.repository.writer i).touched) :
    name ∉ (m.repository.writer j).touched := by
  have hheld : ∀ {id}, (m.repository.writer id).phase ≠ .ended →
      name ∈ (m.repository.writer id).touched → m.Keeps (.writer id) name := by
    intro id hid hmem
    rcases List.mem_append.mp hmem with hd | hs
    · exact (hl.orderly id).deleted hid hd
    · exact (hl.orderly id).staged hid (Named.lookup_isSome hs)
  intro hname'
  exact hij (Keeper.writer.inj (hl.locking.alone (hheld hi hname) (hheld hj hname')))

/-- What is published under names that a writer does not touch, stays. -/
theorem lookup_publishing_of_notMem {s : Repository} {id : Nat} {name : Iri}
    (h : name ∉ (s.writer id).touched) :
    (s.publishing id).published.lookup name = s.published.lookup name := by
  rw [Writer.touched, List.mem_append, not_or] at h
  show (s.published.amended (s.writer id).deleted (s.writer id).staged).lookup name = _
  rw [Directory.lookup_amended, Named.lookup_eq_none.mpr h.2, if_neg h.1]
  rfl

/-- What is published under names that a writer touches, is what it leaves. -/
theorem lookup_publishing_of_mem {s : Repository} {id : Nat} {name : Iri}
    (h : name ∈ (s.writer id).touched) :
    (s.publishing id).published.lookup name = (s.writer id).staged.lookup name := by
  show (s.published.amended (s.writer id).deleted (s.writer id).staged).lookup name = _
  rw [Directory.lookup_amended]
  rcases List.mem_append.mp h with hd | hs
  · rw [if_pos hd, Option.or_none]
  · obtain ⟨i, hi⟩ := Option.isSome_iff_exists.mp (Named.lookup_isSome hs)
    rw [hi]
    rfl

namespace Pending

variable {m m' : Machine} {commits : List Commit} {c c' : Commit} {rest : List Telling}
  {errors : List Error} {id : Nat}

/-- A commit that has just published has everything to tell. -/
theorem begun (hid : c.writer = id) (htouched : c.touched = (m.repository.writer id).touched)
    (hw : (m.repository.writer id).phase = .working)
    (hm : m'.repository = m.repository.publishing id) (commits : List Commit) :
    Pending m' (c :: commits) c (tellings (m.repository.writer id)) [] := by
  have hself : m'.repository.writer c.writer
      = { m.repository.writer id with phase := .committing } := by
    rw [hm, writer_publishing (lt_of_working hw), if_pos hid]
  refine ⟨?_, ?_, ?_, ?_, ?_⟩
  · rw [hself, htouched]
    rfl
  · intro name hname
    exact List.find?_cons_of_pos (by simpa using hname)
  · intro name hname
    rw [hself, hm]
    exact lookup_publishing_of_mem (htouched ▸ hname)
  · rw [hself]
    exact fun t ht => ht
  · intro _ name hname
    exact .inr (touched_tellings.mp (htouched ▸ hname))

/-- Another writer publishes, which has its own names. -/
theorem publishing (h : Pending m commits c rest errors) (hl : LocksKept m)
    (hw : (m.repository.writer id).phase = .working)
    (hcom : (m.repository.writer c.writer).phase = .committing) (hne : c.writer ≠ id)
    (hm : m'.repository = m.repository.publishing id)
    (hnew : c'.touched = (m.repository.writer id).touched) :
    Pending m' (c' :: commits) c rest errors := by
  have hsame : m'.repository.writer c.writer = m.repository.writer c.writer := by
    rw [hm, writer_publishing (lt_of_working hw), if_neg hne]
  have hother : ∀ name ∈ c.touched, name ∉ (m.repository.writer id).touched := by
    intro name hname
    rw [h.touched] at hname
    exact notMem_touched hl hne (by rw [hcom]; decide) (by rw [hw]; decide) hname
  refine ⟨?_, ?_, ?_, ?_, h.clean⟩
  · rw [hsame]
    exact h.touched
  · intro name hname
    have hno : name ∉ c'.touched := hnew ▸ hother name hname
    rw [List.find?_cons_of_neg (by simpa using hno)]
    exact h.last name hname
  · intro name hname
    rw [hsame, hm, lookup_publishing_of_notMem (hother name hname)]
    exact h.current name hname
  · rw [hsame]
    exact h.ahead

/-- The archive is told to keep what is published. -/
theorem left (h : Pending m commits c rest errors) (hl : LocksKept m) {t : Telling}
    (ht : t ∈ rest) :
    t.name ∈ c.touched ∧ (m.repository.task c.writer t).left = m.repository.contents t.name := by
  have htell := h.ahead t ht
  have hmem : t.name ∈ c.touched := by
    rw [h.touched]
    exact touched_tellings.mpr ⟨t, htell, rfl⟩
  refine ⟨hmem, ?_⟩
  rw [Repository.contents, Directory.find, h.current _ hmem]
  cases t with
  | delete name =>
    have hno : ¬ ((m.repository.writer c.writer).staged.lookup name).isSome :=
      fun hs => (hl.orderly c.writer).disjoint hs (mem_tellings.mp htell)
    show none = ((m.repository.writer c.writer).staged.lookup name).map _
    rw [Option.not_isSome_iff_eq_none.mp hno]
    rfl
  | save name =>
    obtain ⟨i, hi⟩ := Option.isSome_iff_exists.mp (Named.lookup_isSome (mem_tellings.mp htell))
    show some (((m.repository.writer c.writer).staged.find m.repository.stores name).getD .empty)
      = ((m.repository.writer c.writer).staged.lookup name).map _
    rw [Directory.find, hi]
    rfl

/-- The archive has kept something more. -/
theorem keeping {rest' : List Telling} {errors' : List Error} {tasks : List Archive.Task}
    (h : Pending m commits c rest errors)
    (hm : m'.repository = m.repository) (hrest : ∀ t ∈ rest', t ∈ rest)
    (hclean : errors' = [] → ∀ name ∈ c.touched,
      (c.keeping id tasks).keeps name ∨ ∃ t ∈ rest', t.name = name) :
    Pending m' (commits.map (·.keeping id tasks)) (c.keeping id tasks) rest' errors' := by
  refine ⟨?_, ?_, ?_, ?_, ?_⟩
  · rw [Commit.touched_keeping, Commit.writer_keeping, hm]
    exact h.touched
  · intro name hname
    rw [Commit.touched_keeping] at hname
    rw [Commit.find?_touched_keeping, h.last name hname]
    rfl
  · rw [Commit.touched_keeping, Commit.writer_keeping, hm]
    exact h.current
  · rw [Commit.writer_keeping, hm]
    exact fun t ht => h.ahead t (hrest t ht)
  · rw [Commit.touched_keeping]
    exact hclean

/-- The archive was told the first thing of the rest. -/
theorem told {t : Telling} {more : List Error} {tasks : List Archive.Task}
    (h : Pending m commits c (t :: rest) errors) (hm : m'.repository = m.repository)
    (hid : c.writer = id) (hkept : more = [] → ∃ task ∈ tasks, task.name = t.name) :
    Pending m' (commits.map (·.keeping id tasks)) (c.keeping id tasks) rest (errors ++ more) := by
  refine h.keeping hm (fun t ht => List.mem_cons_of_mem _ ht) fun hnil name hname => ?_
  obtain ⟨herrors, hnone⟩ := List.append_eq_nil_iff.mp hnil
  rw [Commit.keeps_keeping]
  rcases h.clean herrors name hname with hold | ⟨t', ht', rfl⟩
  · exact .inl (.inl hold)
  · rcases List.mem_cons.mp ht' with rfl | ht'
    · exact .inl (.inr ⟨hid, hkept hnone⟩)
    · exact .inr ⟨t', ht', rfl⟩

end Pending

/-! ### Commits and tables -/

/-- The tables hold what the commits have left that the archive has kept, or nothing where it has
kept the deletion of another name that is written the same. -/
def Commit.Account (commits : List Commit) (held tables : Iri → Option Graph) : Prop :=
  ∀ name, tables name = Commit.latest Commit.keeps commits held name ∨
    tables name = none ∧ Archive.Mistaken (commits.flatMap Commit.kept) name

namespace Commit.Account

variable {T : Set Term} {N : Set Iri} {commits : List Commit} {held tables : Iri → Option Graph}

/-- A commit of which nothing was kept yet makes no difference. -/
theorem cons (h : Account commits held tables) {c : Commit} (hc : c.kept = []) :
    Account (c :: commits) held tables := by
  intro name
  have hno : c.keeps name = false := by rw [keeps, hc, List.any_nil]
  rw [latest_cons, hno, List.flatMap_cons, hc, List.nil_append]
  exact h name

theorem kept_subset_keeping (commits : List Commit) (id : Nat) (tasks : List Archive.Task) :
    commits.flatMap kept ⊆ (commits.map (keeping id tasks)).flatMap kept := by
  intro task htask
  obtain ⟨c, hc, ht⟩ := List.mem_flatMap.mp htask
  exact List.mem_flatMap.mpr ⟨_, List.mem_map_of_mem hc, mem_kept_keeping.mpr (.inl ht)⟩

/-- One more task is kept of the commit that has touched its name last. -/
theorem keeping (h : Account commits held tables) (hfair : Fair commits) {c : Commit}
    {task : Archive.Task} (hlast : commits.find? (task.name ∈ ·.touched) = some c)
    (hleft : task.left = c.contents task.name) :
    Account (commits.map (·.keeping c.writer [task])) held (task.apply tables) := by
  intro name
  rw [latest_keeping hfair hlast, ← hleft]
  by_cases hname : name = task.name
  · rw [hname, Function.update_self]
    exact .inl task.apply_name
  rw [Function.update_of_ne hname]
  rcases Archive.Task.apply_of_ne (c := tables) hname with hsame | ⟨hnone, hmistaken⟩
  · rw [hsame]
    exact (h name).imp_right (And.imp_right (·.mono (kept_subset_keeping commits _ _)))
  · refine .inr ⟨hnone, hmistaken.mono fun task' htask' => ?_⟩
    exact List.mem_flatMap.mpr ⟨_, List.mem_map_of_mem (List.mem_of_find?_eq_some hlast),
      mem_kept_keeping.mpr (.inr ⟨rfl, htask'⟩)⟩

/-- What an archive keeps that is given something to do. -/
theorem perform (h : Account commits held tables) {medium : Medium}
    (hkeeps : Archive.Keeps T N medium tables) (hv : Archive.Vocabulary T N)
    (hfair : Fair commits) {c : Commit} {task : Archive.Task}
    (hlast : commits.find? (task.name ∈ ·.touched) = some c)
    (hleft : task.left = c.contents task.name) (horderly : task.Orderly)
    (hfits : ∀ task' ∈ (Backing.archive medium).kept task, task'.Fits T N) :
    ∃ tables', Archive.Keeps T N (task.perform medium).2 tables' ∧
      Account (commits.map (·.keeping c.writer ((Backing.archive medium).kept task))) held
        tables' := by
  have hok : ((Backing.archive medium).perform task).1 = (task.perform medium).1 :=
    congrArg Prod.fst (Backing.perform_archive medium task)
  rcases hrun : task.perform medium with ⟨e | _, medium'⟩
  · have hnil : (Backing.archive medium).kept task = [] := by
      rw [Backing.kept, hok, hrun]
      rfl
    have hsame :
        commits.map (·.keeping c.writer ((Backing.archive medium).kept task)) = commits := by
      rw [hnil]
      simp
    rw [hsame]
    exact ⟨tables, hkeeps.of_database (Archive.Task.database_of_failed hrun), h⟩
  · have hone : (Backing.archive medium).kept task = [task] := by
      rw [Backing.kept, hok, hrun]
      rfl
    rw [hone] at hfits ⊢
    exact ⟨task.apply tables, hkeeps.perform hv (hfits task (List.mem_singleton_self _)) horderly
      hrun, h.keeping hfair hlast hleft⟩

end Commit.Account

/-! ### The invariant -/

/-- What is published and what the archive keeps follow from the commits; `opened` and `held` are
what was published and kept at first. -/
structure Durable (T : Set Term) (N : Set Iri) (opened held : Iri → Option Graph) (w : Watch) :
    Prop where
  writers : (w.commits.map Commit.writer).reverse = w.machine.ledger.writers
  contents : w.machine.repository.contents = w.published opened
  kept : ∀ c ∈ w.commits, ∀ task ∈ c.kept,
    task.name ∈ c.touched ∧ task.left = c.contents task.name
  pending : ∀ {k rest errors}, (w.machine.closing k).progress = .telling rest errors →
    ∀ c ∈ w.commits, c.writer = (w.machine.closing k).writer →
      Pending w.machine w.commits c rest errors
  succeeded : ∀ c ∈ w.commits, w.machine.Succeeded c.writer → ∀ name ∈ c.touched, c.keeps name
  disk : ∃ medium tables, w.machine.host.backing = .archive medium ∧
    Archive.Keeps T N medium tables ∧ Commit.Account w.commits held tables

namespace Durable

variable {T : Set Term} {N : Set Iri} {opened held : Iri → Option Graph} {w : Watch} {m' : Machine}

theorem fair (h : Durable T N opened held w) (hm : w.machine.Ready) : Commit.Fair w.commits := by
  refine ⟨?_, fun c hc name hk => ?_⟩
  · have hnodup := hm.settled.nodup
    rwa [← h.writers, List.nodup_reverse] at hnodup
  · obtain ⟨task, ht, rfl⟩ := Commit.keeps_iff.mp hk
    exact (h.kept c hc task ht).1

/-- A commit that is telling the archive has published. -/
theorem exists_commit (h : Durable T N opened held w) (hm : w.machine.Ready) {k : Nat}
    {rest : List Telling} {errors : List Error}
    (hp : (w.machine.closing k).progress = .telling rest errors) :
    ∃ c ∈ w.commits, c.writer = (w.machine.closing k).writer := by
  have hid := (hm.settled.mem _).mpr (.inl (hm.settled.telling hp).1)
  rw [← h.writers, List.mem_reverse] at hid
  obtain ⟨c, hc, he⟩ := List.mem_map.mp hid
  exact ⟨c, hc, he⟩

/-- Nothing happens that matters. -/
theorem calm (h : Durable T N opened held w) (hm : w.machine.Ready) (hc : Calm w.machine m')
    (hb : ∀ medium, w.machine.host.backing = .archive medium →
      ∃ medium', m'.host.backing = .archive medium' ∧ medium'.database = medium.database) :
    Durable T N opened held { w with machine := m' } where
  writers := h.writers.trans hc.writers.symm
  contents := hc.contents.trans h.contents
  kept := h.kept
  pending {k rest errors} hk c hmem hid := by
    have he := hc.telling hk
    rw [he] at hk hid
    have hp := h.pending hk c hmem hid
    have hcom := (hm.settled.telling hk).1
    rw [← hid] at hcom
    obtain ⟨-, hs, hd⟩ := hc.writer c.writer (lt_of_committing hcom)
      (by rw [hcom]; exact Phase.noConfusion)
    refine ⟨?_, hp.last, ?_, ?_, hp.clean⟩
    · rw [hp.touched, Writer.touched, Writer.touched, hs, hd]
    · rw [hc.published, hs]
      exact hp.current
    · rw [tellings, hs, hd]
      exact hp.ahead
  succeeded c hmem hs := h.succeeded c hmem (hc.succeeded hs)
  disk := by
    obtain ⟨medium, tables, hback, hkeeps, haccount⟩ := h.disk
    obtain ⟨medium', hback', hdb⟩ := hb medium hback
    exact ⟨medium', tables, hback', hkeeps.of_database hdb, haccount⟩

/-- What a commit has touched that is telling the archive, is still as it has published it. -/
theorem contents_of_pending (h : Durable T N opened held w) {c : Commit} {rest : List Telling}
    {errors : List Error} (hp : Pending w.machine w.commits c rest errors) {name : Iri}
    (hname : name ∈ c.touched) : w.machine.repository.contents name = c.contents name := by
  rw [h.contents, Watch.published, Commit.latest, hp.last name hname]
  rfl

/-- A commit has published: its names are locked, so that no other commit on the way has touched
them. -/
theorem publish (h : Durable T N opened held w) (hm : w.machine.Ready) {k : Nat}
    (hk : k < w.machine.closings.length)
    (hw : (w.machine.repository.writer (w.machine.closing k).writer).phase = .working)
    {host : Host} (hb : host.backing = w.machine.host.backing) :
    let id := (w.machine.closing k).writer
    let m' := (({ w.machine with
      repository := w.machine.repository.publishing id, host }.closingAt k
        (.telling (tellings (w.machine.repository.writer id)) [])).note (.published id))
    Durable T N opened held ⟨m',
      { writer := id
        touched := (w.machine.repository.writer id).touched
        contents := m'.repository.contents } :: w.commits⟩ := by
  intro id m'
  let new : Commit := ⟨id, (w.machine.repository.writer id).touched, m'.repository.contents, []⟩
  have hidle : ∀ c ∈ w.commits, c.writer ≠ id := by
    intro c hc he
    refine hm.settled.idle hw ?_
    rw [← h.writers, List.mem_reverse]
    exact List.mem_map.mpr ⟨c, hc, he⟩
  have hclosing : ∀ j, m'.closing j = if j = k then { w.machine.closing k with
      progress := .telling (tellings (w.machine.repository.writer id)) [] }
      else w.machine.closing j :=
    fun j => Machine.closing_closingAt
      (m := { w.machine with repository := w.machine.repository.publishing id, host }) hk _ j
  refine ⟨?_, ?_, ?_, ?_, ?_, ?_⟩
  · have hledger : m'.ledger = w.machine.ledger.enter (.published id) := Machine.ledger_deed rfl rfl
    rw [hledger, Ledger.writers_published, ← h.writers, List.map_cons, List.reverse_cons]
  · funext name
    show m'.repository.contents name = Commit.latest _ (new :: w.commits) opened name
    rw [Commit.latest_cons]
    by_cases hname : name ∈ new.touched
    · rw [if_pos (by simpa using hname)]
    · have hstays : m'.repository.published.lookup name
          = w.machine.repository.published.lookup name := lookup_publishing_of_notMem hname
      rw [if_neg (by simpa using hname), Repository.contents, Directory.find, hstays]
      exact congrFun h.contents name
  · intro c hc
    rcases List.mem_cons.mp hc with rfl | hc
    · exact fun _ ht => absurd ht List.not_mem_nil
    · exact h.kept c hc
  · intro j rest errors hj c hc hcid
    rw [hclosing] at hj hcid
    by_cases hjk : j = k
    · rw [if_pos hjk] at hj hcid
      obtain rfl : c = new := (List.mem_cons.mp hc).resolve_right fun hc => hidle c hc hcid
      obtain ⟨rfl, rfl⟩ := Ending.telling.inj hj
      exact .begun rfl rfl hw rfl w.commits
    · rw [if_neg hjk] at hj hcid
      have hcom := (hm.settled.telling hj).1
      rw [← hcid] at hcom
      have hne : c.writer ≠ id := by
        intro he
        rw [he, hw] at hcom
        exact Phase.noConfusion hcom
      have hmem : c ∈ w.commits := (List.mem_cons.mp hc).resolve_left fun he => hne (he ▸ rfl)
      exact (h.pending hj c hmem hcid).publishing hm.locks hw hcom hne rfl rfl
  · intro c hc hs
    obtain ⟨cl, hcl, hclid, hpub⟩ := hs
    have hcl' : .closed cl (.ok ()) ∈ w.machine.history :=
      (List.mem_append.mp hcl).resolve_right fun he => Event.noConfusion (List.mem_singleton.mp he)
    rcases List.mem_cons.mp hc with rfl | hc
    · -- the writer took calls until now, so that no commit of it has answered
      have hend := (hm.settled.ended hcl' fun he => by cases he).2
      rw [hclid, hw] at hend
      exact Phase.noConfusion hend
    · exact h.succeeded c hc ⟨cl, hcl', hclid, hpub⟩
  · obtain ⟨medium, tables, hback, hkeeps, haccount⟩ := h.disk
    exact ⟨medium, tables, hb.trans hback, hkeeps, haccount.cons rfl⟩

/-- A commit has told the archive something, and if that is kept, the tables change. -/
theorem told (h : Durable T N opened held w) (hm : w.machine.Ready)
    (hv : Archive.Vocabulary T N) {k : Nat} (hk : k < w.machine.closings.length) {t : Telling}
    {rest : List Telling} {errors : List Error}
    (hp : (w.machine.closing k).progress = .telling (t :: rest) errors)
    (hfits : ∀ task ∈ (w.step (.move (.proceed k))).kept, task.Fits T N) :
    Durable T N opened held (w.step (.move (.proceed k))) := by
  let task := w.machine.repository.task (w.machine.closing k).writer t
  let tasks := w.machine.host.backing.kept task
  obtain ⟨more, host, he, hb, hmore⟩ := Machine.proceed_tell hp
  obtain ⟨c, hc, hcid⟩ := h.exists_commit hm hp
  have hpending := h.pending hp c hc hcid
  obtain ⟨htouched, hleft⟩ := hpending.left hm.locks (List.mem_cons_self (a := t))
  rw [h.contents_of_pending hpending htouched, hcid] at hleft
  let m' := { w.machine with host }.closingAt k (.telling rest (errors ++ more))
  have hstep : w.step (.move (.proceed k)) = ⟨m', w.commits.map (·.keeping c.writer tasks)⟩ := by
    show Watch.mk (w.machine.proceed k) (w.noted k) = _
    rw [he, Watch.noted, Machine.task?, hp, hcid]
  have hclosing : ∀ j, m'.closing j =
      if j = k then { w.machine.closing k with progress := .telling rest (errors ++ more) }
      else w.machine.closing j :=
    fun j => Machine.closing_closingAt (m := { w.machine with host }) hk _ j
  rw [hstep] at hfits ⊢
  refine ⟨?_, ?_, ?_, ?_, ?_, ?_⟩
  · rw [List.map_map]
    exact (congrArg List.reverse (List.map_congr_left fun _ _ => Commit.writer_keeping)).trans
      h.writers
  · exact h.contents.trans Commit.latest_touched_keeping.symm
  · intro d' hd' task' htask'
    obtain ⟨d, hd, rfl⟩ := List.mem_map.mp hd'
    rw [Commit.touched_keeping, Commit.contents_keeping]
    rcases Commit.mem_kept_keeping.mp htask' with hold | ⟨hid, hnew⟩
    · exact h.kept d hd task' hold
    · obtain rfl : d = c := (h.fair hm).eq hd hc hid
      obtain rfl : task' = task := (Backing.mem_kept.mp hnew).2
      rw [name_task]
      exact ⟨htouched, hleft⟩
  · intro j rest' errors' hj d' hd' hdid
    obtain ⟨d, hd, rfl⟩ := List.mem_map.mp hd'
    rw [hclosing] at hj hdid
    rw [Commit.writer_keeping] at hdid
    by_cases hjk : j = k
    · rw [if_pos hjk] at hj hdid
      obtain ⟨rfl, rfl⟩ := Ending.telling.inj hj
      refine (h.pending hp d hd hdid).told rfl (hdid.trans hcid.symm) fun hnone => ?_
      exact ⟨task, Backing.mem_kept.mpr ⟨hmore.mp hnone, rfl⟩, name_task _ _ _⟩
    · rw [if_neg hjk] at hj hdid
      have hd' := h.pending hj d hd hdid
      refine hd'.keeping rfl (fun t ht => ht) fun hnil name hname => ?_
      exact (hd'.clean hnil name hname).imp_left fun hkept => Commit.keeps_keeping.mpr (.inl hkept)
  · intro d' hd' hs name hname
    obtain ⟨d, hd, rfl⟩ := List.mem_map.mp hd'
    rw [Commit.writer_keeping] at hs
    rw [Commit.touched_keeping] at hname
    exact Commit.keeps_keeping.mpr (.inl (h.succeeded d hd hs name hname))
  · obtain ⟨medium, tables, hback, hkeeps, haccount⟩ := h.disk
    have htasks : tasks = (Backing.archive medium).kept task := congrArg (·.kept task) hback
    rw [hback, Backing.perform_archive] at hb
    rw [htasks] at hfits ⊢
    have hperformed : ∃ tables', Archive.Keeps T N (task.perform medium).2 tables' ∧
        Commit.Account (w.commits.map (·.keeping c.writer ((Backing.archive medium).kept task)))
          held tables' := by
      refine haccount.perform hkeeps hv (h.fair hm) ?_ ?_ (hm.sound.task _ t) fun task' htask' => ?_
      · rw [name_task]
        exact hpending.last t.name htouched
      · rw [name_task]
        exact hleft
      · refine hfits task' (Watch.mem_kept.mpr ⟨_, List.mem_map_of_mem hc, ?_⟩)
        exact Commit.mem_kept_keeping.mpr (.inr ⟨rfl, htask'⟩)
    obtain ⟨tables', hkeeps', haccount'⟩ := hperformed
    exact ⟨(task.perform medium).2, tables', hb, hkeeps', haccount'⟩

/-- A call that ends a writer has answered; if all went well, everything was kept. -/
theorem closed (h : Durable T N opened held w) (cl : Closing) (a : Outcome Unit)
    (ha : a = .ok () → cl.publishes = true → ∀ c ∈ w.commits, c.writer = cl.writer →
      ∀ name ∈ c.touched, c.keeps name) :
    Durable T N opened held { w with machine := w.machine.note (.closed cl a) } where
  writers := h.writers.trans (congrArg Ledger.writers (Machine.ledger_quiet rfl rfl)).symm
  contents := h.contents
  kept := h.kept
  pending hk c hc hid :=
    let hp := h.pending hk c hc hid
    ⟨hp.touched, hp.last, hp.current, hp.ahead, hp.clean⟩
  succeeded c hc := by
    rintro ⟨cl', hcl, hid, hpub⟩
    rcases List.mem_append.mp hcl with hcl | hcl
    · exact h.succeeded c hc ⟨cl', hcl, hid, hpub⟩
    · obtain ⟨rfl, hok⟩ := Event.closed.inj (List.mem_singleton.mp hcl)
      exact ha hok.symm hpub c hc hid.symm
  disk := h.disk

/-- A commit has told the archive everything and answers. -/
theorem finish (h : Durable T N opened held w) (hm : w.machine.Ready) {k : Nat}
    (hk : k < w.machine.closings.length) {errors : List Error}
    (hp : (w.machine.closing k).progress = .telling [] errors) :
    Durable T N opened held (w.step (.move (.proceed k))) := by
  let id := (w.machine.closing k).writer
  let m' := { w.machine with repository := w.machine.repository.concluding id }.closingAt k
    (.ended (verdict errors))
  have he : w.machine.proceed k = m'.note (.closed (w.machine.closing k) (verdict errors)) :=
    Machine.proceed_finish hp
  have hcalm : Calm w.machine m' := (Calm.concluding hm.apart id).trans
    (Calm.closingAt (by exact hk) fun _ _ => Ending.noConfusion)
  have hledger : (w.machine.proceed k).ledger.writers = w.machine.ledger.writers := by
    rw [he, Machine.ledger_quiet (m := m') rfl rfl]
    exact hcalm.writers
  have hstep : w.step (.move (.proceed k))
      = ⟨m'.note (.closed (w.machine.closing k) (verdict errors)), w.commits⟩ := by
    show Watch.mk (w.machine.proceed k) (w.noted k) = _
    rw [Watch.noted, Machine.task?, hp]
    dsimp only
    rw [if_pos hledger, he]
  rw [hstep]
  refine closed (w := ⟨m', w.commits⟩) (h.calm hm hcalm fun medium hb => ⟨medium, hb, rfl⟩) _ _ ?_
  intro hok _ c hc hid name hname
  rcases (h.pending hp c hc hid).clean (Machine.verdict_eq_ok.mp hok) name hname
    with hkept | ⟨t, ht, -⟩
  · exact hkept
  · exact absurd ht List.not_mem_nil

/-- The other steps of a call that ends a writer. -/
theorem proceed (h : Durable T N opened held w) (hm : w.machine.Ready) {k : Nat}
    (htell : ∀ rest errors, (w.machine.closing k).progress ≠ .telling rest errors) :
    Durable T N opened held (w.step (.move (.proceed k))) := by
  have hquiet : w.machine.task? k = none := by
    rw [Machine.task?]
    split
    · rename_i hp
      exact absurd hp (htell _ _)
    · rfl
  have hback : ∀ medium, w.machine.host.backing = .archive medium →
      (w.machine.proceed k).host.backing = .archive medium :=
    fun medium => Machine.proceed_backing fun t rest errors => htell (t :: rest) errors
  have hstep : w.step (.move (.proceed k)) = ⟨w.machine.proceed k, w.noted k⟩ := rfl
  rw [hstep, Watch.noted, hquiet]
  dsimp only
  by_cases hpub : (w.machine.closing k).progress = .interrupting ∧
      (w.machine.closing k).publishes = true ∧
      (w.machine.repository.writer (w.machine.closing k).writer).phase = .working ∧
      w.machine.repository.closed = false
  · obtain ⟨hp, hc, hw, ho⟩ := hpub
    obtain ⟨medium, -, hb, -⟩ := h.disk
    obtain ⟨host, he⟩ := Machine.proceed_publish hp hc hw ho (by rw [hb]; rfl)
    have hk := Machine.lt_of_ending_ne fun a ha => Ending.noConfusion (hp.symm.trans ha)
    have hnew : (w.machine.proceed k).ledger.writers
        = w.machine.ledger.writers ++ [(w.machine.closing k).writer] := by
      rw [he, Machine.ledger_deed (m := w.machine) rfl rfl, Ledger.writers_published]
    have hhost := hback medium hb
    rw [if_neg (by rw [hnew]; simp)]
    rw [he] at hhost ⊢
    exact h.publish hm hk hw (hhost.trans hb.symm)
  · have hcalm := Calm.proceed hm.apart htell hpub
    rw [if_pos hcalm.writers]
    exact h.calm hm hcalm fun medium hb => ⟨medium, hback medium hb, rfl⟩

theorem move (h : Durable T N opened held w) (hm : w.machine.Ready)
    (hv : Archive.Vocabulary T N) (move : Move)
    (hfits : ∀ task ∈ (w.step (.move move)).kept, task.Fits T N) :
    Durable T N opened held (w.step (.move move)) := by
  have hcalm : ∀ {m' : Machine}, Calm w.machine m' →
      (∀ medium, w.machine.host.backing = .archive medium → m'.host.backing = .archive medium) →
      Durable T N opened held { w with machine := m' } :=
    fun hc hb => h.calm hm hc fun medium hback => ⟨medium, hb medium hback, rfl⟩
  cases move with
  | ask r =>
    show Durable T N opened held { w with machine := w.machine.step (.ask r) }
    rw [Machine.step]
    split
    · rename_i hr
      refine hcalm ?_ fun medium => Machine.answer_backing r
      rcases Machine.answer_cases hr with he | hs
      · exact he.symm ▸ Calm.refl _
      · exact Calm.request hm.apart hs
    · exact h
  | visit writer name deletes => exact hcalm (Calm.of_eq rfl rfl rfl) fun _ hb => hb
  | advance k =>
    have hs := Machine.advance_cases (m := w.machine) (k := k)
      (w.machine.mayAsk (w.machine.visit k).writer)
    exact hcalm (Calm.moveVisit hm.apart hs) fun medium => Machine.moveVisit_backing hs
  | giveWay k =>
    have hs := Machine.giveWay_cases (m := w.machine) (k := k)
    exact hcalm (Calm.moveVisit hm.apart hs) fun medium => Machine.moveVisit_backing hs
  | close writer publishes => exact hcalm (Calm.begun rfl) fun _ hb => hb
  | proceed k =>
    cases hp : (w.machine.closing k).progress with
    | telling rest errors =>
      have hk := Machine.lt_of_ending_ne fun a ha => Ending.noConfusion (hp.symm.trans ha)
      cases rest with
      | nil => exact h.finish hm hk hp
      | cons t rest => exact h.told hm hv hk hp hfits
    | _ => exact h.proceed hm fun rest errors he => Ending.noConfusion (hp.symm.trans he)

theorem step (h : Durable T N opened held w) (hm : w.machine.Ready)
    (hv : Archive.Vocabulary T N) (happening : Happening)
    (hfits : ∀ task ∈ (w.step happening).kept, task.Fits T N) :
    Durable T N opened held (w.step happening) := by
  cases happening with
  | move move => exact h.move hm hv move hfits
  | trouble fault =>
    refine h.calm hm (Calm.of_eq rfl rfl rfl) fun medium hb => ⟨{ medium with fault }, ?_, rfl⟩
    exact Machine.backing_troubled hb fault

theorem run (h : Durable T N opened held w) (hm : w.machine.Ready)
    (hv : Archive.Vocabulary T N) (happenings : List Happening)
    (hfits : ∀ task ∈ (w.run happenings).kept, task.Fits T N) :
    Durable T N opened held (w.run happenings) ∧ (w.run happenings).machine.Ready := by
  induction happenings using List.reverseRecOn with
  | nil => exact ⟨h, hm⟩
  | append_singleton happenings happening ih =>
    have hrun : w.run (happenings ++ [happening]) = (w.run happenings).step happening := by
      rw [Watch.run, List.foldl_append]
      rfl
    rw [hrun] at hfits ⊢
    obtain ⟨hd, hr⟩ := ih fun task ht =>
      hfits task ((w.run happenings).kept_subset_step happening ht)
    exact ⟨hd.step hr hv happening hfits, hr.happening happening⟩

end Durable

/-! ### The main result -/

/-- An archive that holds collections is opened, and they are published. -/
theorem Repository.openOn_of_keeps {T : Set Term} {N : Set Iri} {held : Iri → Option Graph}
    {medium : Medium} (h : Archive.Keeps T N medium held) (hv : Archive.Vocabulary T N)
    (hfault : medium.fault = none) {patience : Patience} (hp : patience.exhausted? = none)
    {host : Host} (hb : host.backing = .archive medium) :
    ∃ loaded host', openOn patience host = (.ok (.holding loaded), host') ∧
      host'.backing = .archive medium ∧
      (loaded.map Prod.fst).Nodup ∧
      ∀ name, Option.Rel Graph.Same (loaded.lookup name) (held name) := by
  obtain ⟨loaded, hload, hnodup, hsame⟩ := Archive.load_of_holds h.holds hv.terms hfault hp
  refine ⟨loaded, ?_⟩
  have hpresent : host.backing.isPresent = true := by
    rw [hb]
    rfl
  rw [openOn, if_pos hpresent]
  simp only [hb, Backing.load, hload]
  exact ⟨_, rfl, rfl, hnodup, hsame⟩

/-- A repository that was just opened. -/
theorem Durable.start {T : Set Term} {N : Set Iri} {held : Iri → Option Graph} {medium : Medium}
    (h : Archive.Keeps T N medium held) (loaded : Collections) {host : Host}
    (hb : host.backing = .archive medium) :
    Durable T N (fun name => loaded.lookup name) held ⟨.start loaded host, []⟩ where
  writers := rfl
  contents := contents_holding loaded
  kept _ hc := absurd hc List.not_mem_nil
  pending hk := Ending.noConfusion hk
  succeeded _ hc := absurd hc List.not_mem_nil
  disk := ⟨medium, held, hb, h, fun _ => .inl rfl⟩

/-- Each of the collections that were loaded stands for one that was held. -/
theorem exists_same_of_mem {loaded : Collections} {held : Iri → Option Graph}
    (hnodup : (loaded.map Prod.fst).Nodup)
    (hsame : ∀ name, Option.Rel Graph.Same (loaded.lookup name) (held name)) {g : Graph}
    (hg : g ∈ loaded.map Prod.snd) : ∃ name g', held name = some g' ∧ g.Same g' := by
  obtain ⟨⟨name, _⟩, hmem, rfl⟩ := List.mem_map.mp hg
  have h := hsame name
  rw [Named.lookup_of_mem hnodup hmem] at h
  generalize hc : held name = kept at h
  cases h with
  | some h => exact ⟨name, _, hc, h⟩

/-- A repository that was opened over an archive that some tasks have filled, and has been at work
since then. -/
theorem Durable.of_openOn {m₀ : Medium} (hempty : m₀.database.entries = [])
    {past : List Archive.Task} (hpast : ∀ task ∈ past, task.Orderly) {patience : Patience}
    (hp : patience.exhausted? = none) {host₀ host : Host} {s : Repository}
    (hb : host₀.backing = .archive { (Archive.performAll past m₀).2 with fault := none })
    (hopen : openOn patience host₀ = (.ok s, host)) {happenings : List Happening}
    {tasks : List Archive.Task} (hr : Archive.Readable tasks)
    (hdone : (Archive.performAll past m₀).1 ⊆ tasks)
    (hkept : (Watch.run ⟨{ repository := s, host }, []⟩ happenings).kept ⊆ tasks) :
    let w := Watch.run ⟨{ repository := s, host }, []⟩ happenings
    let held := Archive.remaining (Archive.performAll past m₀).1
    Durable (Archive.termsIn tasks) (Archive.namesIn tasks) s.contents held w ∧ w.machine.Ready ∧
      ∀ name, Option.Rel Graph.Same (s.contents name) (held name) := by
  intro w held
  have hheld := hr.keeps_performAll hempty hpast hdone
  obtain ⟨loaded, host', hopen', hb', hnodup, hsame⟩ :=
    openOn_of_keeps hheld hr.vocabulary rfl hp hb
  obtain ⟨hs, rfl⟩ := Prod.mk.inj (hopen.symm.trans hopen')
  obtain rfl := Except.ok.inj hs
  have hregistered : ∀ g ∈ loaded.map Prod.snd, g.Registered := by
    intro g hg
    obtain ⟨name, g', hg', h⟩ := exists_same_of_mem hnodup hsame hg
    exact h.registered (hheld.holds.storable hg').registered
  obtain ⟨hdurable, hready⟩ := (Durable.start hheld loaded hb').run (.start hregistered host)
    hr.vocabulary happenings fun _ ht => Archive.Task.fits_of_mem (hkept ht)
  rw [contents_holding]
  exact ⟨hdurable, hready, hsame⟩

/-- What was loaded stands for what was held. -/
theorem Watch.persisted_rel {w : Watch} {before held : Iri → Option Graph} {found : Option Graph}
    {name : Iri} (h : Option.Rel Graph.Same found (w.persisted held name))
    (hsame : Option.Rel Graph.Same (before name) (held name)) :
    Option.Rel Graph.Same found (w.persisted before name) := by
  rw [persisted, Commit.latest] at h ⊢
  cases hf : w.commits.find? (·.keeps name) with
  | none =>
    rw [hf] at h
    exact Graph.Same.of_common h hsame
  | some c =>
    rw [hf] at h
    exact h

/-- Where the last commit that has touched a name has answered well, both copies are the same. -/
theorem Durable.persisted_eq {T : Set Term} {N : Set Iri} {opened held : Iri → Option Graph}
    {w : Watch} (h : Durable T N opened held w) (hm : w.machine.Ready) {name : Iri} {c : Commit}
    (hlast : w.lastTouching name = some c) (hs : w.machine.Succeeded c.writer)
    (before : Iri → Option Graph) :
    w.persisted before name = w.machine.repository.contents name := by
  have htouched : name ∈ c.touched := by simpa using List.find?_some hlast
  have hkeeps := h.succeeded c (List.mem_of_find?_eq_some hlast) hs name htouched
  rw [Watch.lastTouching] at hlast
  rw [Watch.persisted, Commit.latest_eq_of_keeps (h.fair hm) hlast hkeeps, h.contents,
    Watch.published, Commit.latest, hlast]
  rfl

/-- What the archive fails to keep makes no difference to it. -/
theorem Machine.database_of_lost {m : Machine} {medium : Medium}
    (hb : m.host.backing = .archive medium) {k : Nat} {task : Archive.Task}
    (htask : m.task? k = some task) (hlost : m.host.backing.kept task = []) :
    ∃ medium', (m.step (.proceed k)).host.backing = .archive medium' ∧
      medium'.database = medium.database := by
  rw [task?] at htask
  split at htask
  · rename_i t rest errors hp
    obtain rfl := Option.some.inj htask
    obtain ⟨more, host, he, hback, -⟩ := proceed_tell hp
    rw [hb, Backing.perform_archive] at hback
    rw [hb, Backing.kept, Backing.perform_archive] at hlost
    refine ⟨_, (congrArg (fun m : Machine => m.host.backing) he).trans hback, ?_⟩
    rcases hrun : (m.repository.task (m.closing k).writer t).perform medium with ⟨e | _, medium'⟩
    · exact Archive.Task.database_of_failed hrun
    · rw [hrun] at hlost
      exact absurd hlost (List.cons_ne_nil _ _)
  · cases htask

/-- **Memory and disk.**  A repository is opened over an archive that was filled by some tasks.
Whatever callers do, in whatever order their steps come, and however often the storage fails
meanwhile: the archive can be loaded afterwards, and it holds, under each name, what the last commit
has published that has touched the name and of which the archive has kept that, or what was loaded
at first if there is no such commit.  So where the last commit that has touched a name has answered
well, the archive holds what is published.  Only where it has kept the deletion of another name that
is written the same, it may hold nothing.  A task that fails makes no difference to the archive.
All that the archive has kept is read back from its texts, and different texts have different
digests. -/
theorem Watch.load_run (m₀ : Medium) (hempty : m₀.database.entries = [])
    (past : List Archive.Task) (hpast : ∀ task ∈ past, task.Orderly)
    (patience patience' : Patience) (hp : patience.exhausted? = none)
    (hp' : patience'.exhausted? = none) (host₀ host : Host) (s : Repository)
    (hb : host₀.backing = .archive { (Archive.performAll past m₀).2 with fault := none })
    (hopen : openOn patience host₀ = (.ok s, host)) (happenings : List Happening)
    (hr : Archive.Readable ((Archive.performAll past m₀).1 ++
      (Watch.run ⟨{ repository := s, host }, []⟩ happenings).kept)) :
    let w := Watch.run ⟨{ repository := s, host }, []⟩ happenings
    let m := w.machine
    (w.commits.map Commit.writer).reverse = m.ledger.writers ∧
      m.repository.contents = w.published s.contents ∧
      (∀ c ∈ w.commits, ∀ task ∈ c.kept,
        task.name ∈ c.touched ∧ task.left = c.contents task.name) ∧
      ∃ medium, m.host.backing = .archive medium ∧
        (∃ found, (Archive.load patience' { medium with fault := none }).1 = .ok found ∧
          (found.map Prod.fst).Nodup ∧
          (∀ name, Option.Rel Graph.Same (found.lookup name) (w.persisted s.contents name) ∨
            found.lookup name = none ∧ Archive.Mistaken w.kept name) ∧
          ∀ name c, w.lastTouching name = some c → m.Succeeded c.writer →
            Option.Rel Graph.Same (found.lookup name) (m.repository.contents name) ∨
              found.lookup name = none ∧ Archive.Mistaken w.kept name) ∧
        ∀ k task, m.task? k = some task → m.host.backing.kept task = [] →
          ∃ medium', (m.step (.proceed k)).host.backing = .archive medium' ∧
            medium'.database = medium.database := by
  intro w m
  obtain ⟨hdurable, hready, hsame⟩ := Durable.of_openOn hempty hpast hp hb hopen hr
    (List.subset_append_left _ _) (List.subset_append_right _ _)
  obtain ⟨medium, tables, hback, hkeeps, haccount⟩ := hdurable.disk
  obtain ⟨found, hload, hnodup, hfound⟩ := Archive.load_of_holds
    (m := { medium with fault := none }) hkeeps.holds hr.vocabulary.terms rfl hp'
  have hpersisted : ∀ name, Option.Rel Graph.Same (found.lookup name)
      (w.persisted s.contents name) ∨ found.lookup name = none ∧ Archive.Mistaken w.kept name := by
    intro name
    have hname := hfound name
    rcases haccount name with htables | ⟨hnone, hmistaken⟩
    · rw [htables] at hname
      exact .inl (Watch.persisted_rel hname (hsame name))
    · rw [hnone] at hname
      exact .inr ⟨Graph.Same.eq_none_of_rel hname, hmistaken⟩
  refine ⟨hdurable.writers, hdurable.contents, hdurable.kept, medium, hback,
    ⟨found, congrArg Prod.fst hload, hnodup, hpersisted, fun name c hlast hsucc => ?_⟩,
    fun k task htask hlost => ?_⟩
  · have hsame := hdurable.persisted_eq hready hlast hsucc s.contents
    exact hsame ▸ hpersisted name
  · exact Machine.database_of_lost hback htask hlost

/-- Two writers commit at the same time, and the storage fails when the first one tells it. -/
theorem Watch.load_run_two_writers :
    let t : Triple := ⟨some (.iri [98]), [98], some (.iri [98])⟩
    let host₀ : Host := { backing := .archive ⟨.inMemory, none⟩ }
    let host : Host := { host₀ with journal := [opened Archive.name 0] }
    let happenings : List Happening :=
      [.ask (.write .unlimited), .ask (.write .unlimited),
        .visit 0 [98] false, .advance 0, .advance 0, .advance 0, .advance 0, .advance 0,
        .visit 1 [97] false, .advance 1, .advance 1, .advance 1, .advance 1, .advance 1,
        .ask (.edit ⟨1, [97], 1⟩ (.add t.toDraft)), .close 0 true, .close 1 true,
        .proceed 0, .proceed 1, .proceed 0, .proceed 1].map .move ++
      .trouble (some ⟨.commit, 1⟩) ::
      [.proceed 0, .proceed 1, .proceed 1, .proceed 0].map .move
    let w := Watch.run ⟨{ repository := .holding [], host }, []⟩ happenings
    ∃ medium found, w.machine.host.backing = .archive medium ∧
      (Archive.load .limited { medium with fault := none }).1 = .ok found ∧
      w.machine.repository.contents [98] = some .empty ∧ found.lookup [98] = none ∧
      ∃ g, found.lookup [97] = some g ∧ g.Same (Graph.empty.add t) := by
  intro t host₀ host happenings w
  have hopen : openOn .unlimited host₀ = (.ok (.holding []), host) := by decide +kernel
  have hkept : w.kept = [.save .unlimited [97] (Graph.empty.add t)] := by decide +kernel
  have hreadable : Archive.Readable
      ((Archive.performAll [] ⟨.inMemory, none⟩).1 ++ w.kept) := by
    rw [hkept, Archive.performAll, List.nil_append]
    refine .of_pair (a := [97]) (b := [98]) (by decide) (by decide +kernel) (by decide) ?_
    intro task htask g hg
    obtain rfl := List.mem_singleton.mp htask
    obtain rfl := Option.some.inj hg
    decide
  have hrun := Watch.load_run ⟨.inMemory, none⟩ rfl [] (fun _ h => absurd h List.not_mem_nil)
    .unlimited .limited rfl rfl host₀ host (.holding []) rfl hopen happenings hreadable
  rw [show Watch.run ⟨{ repository := .holding [], host }, []⟩ happenings = w from rfl] at hrun
  have hcontents : w.machine.repository.contents [98] = some .empty := by decide +kernel
  have hlost : w.persisted (Repository.contents (.holding [])) [98] = none := by decide +kernel
  have hsaved : w.persisted (Repository.contents (.holding [])) [97]
      = some (Graph.empty.add t) := by
    decide +kernel
  obtain ⟨-, -, -, medium, hb, ⟨found, hload, -, hfound, -⟩, -⟩ := hrun
  have hdeleted : ∀ name, ¬ Archive.Mistaken w.kept name := by
    rw [hkept]
    rintro name ⟨other, hmem, -⟩
    cases List.mem_singleton.mp hmem
  refine ⟨medium, found, hb, hload, hcontents, ?_, ?_⟩
  · have h := (hfound [98]).resolve_right fun h => hdeleted _ h.2
    rw [hlost] at h
    exact Graph.Same.eq_none_of_rel h
  · have h := (hfound [97]).resolve_right fun h => hdeleted _ h.2
    rw [hsaved] at h
    exact Graph.Same.exists_of_rel h

/-- A collection is committed under a name that is read back from its text, and then the deletion of
another name that is written the same.  Both commits answer well; the collection stays published, and
its persisted copy is gone. -/
theorem Watch.persisted_copy_lost :
    let name : Iri := [97, 124, 0xEF, 0xBF, 0xBD]
    let other : Iri := [97, 124, 0xFF]
    let host : Host := { backing := .archive ⟨.inMemory, none⟩ }
    let happenings : List Happening :=
      [.ask (.write .unlimited), .visit 0 name false, .advance 0, .advance 0, .advance 0,
        .advance 0, .advance 0, .close 0 true, .proceed 0, .proceed 0, .proceed 0, .proceed 0,
        .ask (.write .unlimited), .visit 1 other true, .advance 1, .advance 1, .advance 1,
        .advance 1, .advance 1, .close 1 true, .proceed 1, .proceed 1, .proceed 1,
        .proceed 1].map .move
    let w := Watch.run ⟨{ repository := .holding [], host }, []⟩ happenings
    NTriples.parseTerm (Term.iri name).render = .ok (.iri name) ∧
      (w.lastTouching name).map Commit.writer = some 0 ∧
      (∀ id ∈ [0, 1], (w.machine.history.any fun
        | .closed ⟨id', true, _⟩ (.ok ()) => id' = id
        | _ => false) = true) ∧
      w.kept = [.delete other, .save .unlimited name .empty] ∧
      w.persisted (Repository.contents (.holding [])) name = some .empty ∧
      w.machine.repository.contents name = some .empty ∧
      (w.machine.host.backing.load .unlimited).1 = .ok [] := by
  decide +kernel

end TripleStore
