import TripleStore.Proofs.Repository.Moves

/-!
# Stores that are read and stores that are written

Readers and writers share stores by their numbers: the store that a writer works on is the one that
it publishes, its old handles still know the number, and a search looks into the stores only when
its sequence is drained.  But a store that can be read by others is never again open for writing.

* `Machine.Shown`: the stores that can be read without a writer.
* `Apart`: a store that is shown is known only to handles of writers that take no calls any more,
  and two handles for writing that know the same store are the same; with one lemma for each kind
  of step.
* `Apart.run`: **this holds after all moves.**
* `Repository.All`: what changes keep is true of all stores; `Repository.All.run`.
-/

namespace TripleStore

open Repository

/-! ### Stores that are shown -/

/-- A store that can be read without a writer: it is published, or known to a reader, to a handle
for reading or to a sequence. -/
inductive Machine.Shown (m : Machine) : Nat → Prop
  | published {name : Iri} {i : Nat} (h : m.repository.published.lookup name = some i) : Shown m i
  | reader {id : Nat} {name : Iri} {i : Nat}
      (h : (m.repository.reader id).directory.lookup name = some i) : Shown m i
  | handle {h : ReadHandle} (hh : .reading h ∈ m.handles) : Shown m h.store
  | sequence {d : Directory} {p : Pattern} {name : Iri} {i : Nat}
      (hs : .search d p ∈ m.sequences) (h : d.lookup name = some i) : Shown m i

/-- Stores that are shown and stores that can be written are apart. -/
structure Apart (m : Machine) : Prop where
  /-- A store that is shown exists, and the writers that know it take no calls any more. -/
  shown : ∀ {i}, m.Shown i → i < m.repository.stores.length ∧
    ∀ h, .writing h ∈ m.handles → h.store = i →
      (m.repository.writer h.writer).phase ≠ .working
  /-- A handle for writing knows a writer and a store that exist. -/
  known : ∀ {h}, .writing h ∈ m.handles →
    h.writer < m.repository.writers.length ∧ h.store < m.repository.stores.length
  /-- A store is known to one handle for writing only. -/
  single : ∀ {h h'}, .writing h ∈ m.handles → .writing h' ∈ m.handles → h.store = h'.store → h = h'
  /-- A store that a writer has staged was given out to it. -/
  staged : ∀ {id name i}, (m.repository.writer id).staged.lookup name = some i →
    .writing ⟨id, name, i⟩ ∈ m.handles
  /-- A handle for reading stands for what its reader sees. -/
  window : ∀ {h}, .reading h ∈ m.handles → h.reader < m.repository.readers.length ∧
    ((m.repository.reader h.reader).closed = false →
      (m.repository.reader h.reader).directory.lookup h.name = some h.store)

/-- All that tells which stores are shown and which can be written. -/
def Machine.access (m : Machine) :
    Nat × Directory × List Reader × List Writer × List Handle × List Sequence :=
  (m.repository.stores.length, m.repository.published, m.repository.readers,
    m.repository.writers, m.handles, m.sequences)

namespace Apart

variable {m m' : Machine}

/-- Nothing new is shown and nothing new can be written. -/
theorem mono (h : Apart m)
    (hstores : m.repository.stores.length ≤ m'.repository.stores.length)
    (hpub : m'.repository.published = m.repository.published)
    (hread : ∀ id, m'.repository.reader id = m.repository.reader id
      ∨ m'.repository.reader id = { closed := true })
    (hreaders : m.repository.readers.length ≤ m'.repository.readers.length)
    (hhandles : m'.handles = m.handles)
    (hseq : ∀ d p, .search d p ∈ m'.sequences → .search d p ∈ m.sequences)
    (hwriters : m.repository.writers.length ≤ m'.repository.writers.length)
    (hstaged : ∀ id name i, (m'.repository.writer id).staged.lookup name = some i →
      (m.repository.writer id).staged.lookup name = some i)
    (hphase : ∀ id < m.repository.writers.length, (m'.repository.writer id).phase = .working →
      (m.repository.writer id).phase = .working) : Apart m' := by
  have hshown : ∀ {i}, m'.Shown i → m.Shown i := by
    intro i hi
    cases hi with
    | published hl => exact .published (hpub ▸ hl)
    | @reader id name _ hl =>
      rcases hread id with he | he
      · exact .reader (he ▸ hl)
      · rw [he] at hl
        cases hl
    | handle hh => exact .handle (hhandles ▸ hh)
    | sequence hs hl => exact .sequence (hseq _ _ hs) hl
  refine ⟨?_, ?_, ?_, ?_, ?_⟩
  · intro i hi
    obtain ⟨hlt, hno⟩ := h.shown (hshown hi)
    refine ⟨hlt.trans_le hstores, ?_⟩
    intro h₁ hh he hw
    rw [hhandles] at hh
    exact hno h₁ hh he (hphase _ (h.known hh).1 hw)
  · intro h₁ hh
    rw [hhandles] at hh
    exact ⟨(h.known hh).1.trans_le hwriters, (h.known hh).2.trans_le hstores⟩
  · intro h₁ h₂ hh hh'
    rw [hhandles] at hh hh'
    exact h.single hh hh'
  · intro id name i hl
    rw [hhandles]
    exact h.staged (hstaged id name i hl)
  · intro h₁ hh
    rw [hhandles] at hh
    obtain ⟨hlt, hopen⟩ := h.window hh
    refine ⟨hlt.trans_le hreaders, ?_⟩
    intro hc
    rcases hread h₁.reader with he | he
    · rw [he] at hc ⊢
      exact hopen hc
    · rw [he] at hc
      exact Bool.noConfusion hc

/-- Only writers change: what they have staged gets no more, and none takes calls again. -/
theorem of_writers (h : Apart m) (hs : m'.repository.stores.length = m.repository.stores.length)
    (hp : m'.repository.published = m.repository.published)
    (hr : m'.repository.readers = m.repository.readers) (hh : m'.handles = m.handles)
    (hq : m'.sequences = m.sequences)
    (hwriters : m.repository.writers.length ≤ m'.repository.writers.length)
    (hstaged : ∀ id name i, (m'.repository.writer id).staged.lookup name = some i →
      (m.repository.writer id).staged.lookup name = some i)
    (hphase : ∀ id < m.repository.writers.length, (m'.repository.writer id).phase = .working →
      (m.repository.writer id).phase = .working) : Apart m' :=
  h.mono hs.ge hp (fun id => .inl (by rw [Repository.reader, Repository.reader, hr]))
    (by rw [hr]) hh (fun d p hs => hq ▸ hs) hwriters hstaged hphase

theorem of_eq (h : Apart m) (ha : m'.access = m.access) : Apart m' := by
  simp only [Machine.access, Prod.mk.injEq] at ha
  obtain ⟨hs, hp, hr, hw, hh, hq⟩ := ha
  refine h.of_writers hs hp hr hh hq (by rw [hw]) ?_ ?_
  · intro id name i hl
    rw [Repository.writer, hw] at hl
    exact hl
  · intro id _ hph
    rw [Repository.writer, hw] at hph
    exact hph

/-- One writer changes: what it has staged gets no more, and it does not take calls again. -/
theorem revise (h : Apart m) (id : Nat) {f : Writer → Writer}
    (hs : ∀ name i, (f (m.repository.writer id)).staged.lookup name = some i →
      (m.repository.writer id).staged.lookup name = some i)
    (hp : (f (m.repository.writer id)).phase = .working →
      (m.repository.writer id).phase = .working) :
    Apart { m with repository := m.repository.revise id f } := by
  have hrev := m.repository.writer_revise id (f := f)
  refine h.of_writers rfl rfl rfl rfl rfl (length_writers_revise _ id f).ge (fun j name i hl => ?_)
    fun j _ hph => ?_
  · have hl' : ((m.repository.revise id f).writer j).staged.lookup name = some i := hl
    rw [hrev] at hl'
    split at hl'
    · rename_i hj
      rw [hj.1]
      exact hs name i hl'
    · exact hl'
  · have hph' : ((m.repository.revise id f).writer j).phase = .working := hph
    rw [hrev] at hph'
    split at hph'
    · rename_i hj
      rw [hj.1]
      exact hp hph'
    · exact hph'

theorem mild (h : Apart m) (id : Nat) {f : Writer → Writer} (hf : Mild f) :
    Apart { m with repository := m.repository.revise id f } := by
  obtain ⟨hp, -, hs, -⟩ := hf (m.repository.writer id)
  exact h.revise id (fun name i hl => hs ▸ hl) fun hw => hp ▸ hw

theorem concluding (h : Apart m) (id : Nat) :
    Apart { m with repository := m.repository.concluding id } :=
  (h.revise id (f := fun w => { w with phase := .ended, held := [] }) (fun _ _ hl => hl)
    Phase.noConfusion).of_eq rfl

/-- A transaction for reading begins: it is shown what is published. -/
theorem read (h : Apart m) :
    Apart { m with
      repository := m.repository.addReader { directory := m.repository.published } } := by
  let s := m.repository.addReader { directory := m.repository.published }
  have hreader : ∀ j, s.reader j = if j = m.repository.readers.length
      then { directory := m.repository.published } else m.repository.reader j :=
    fun j => m.repository.reader_addReader j _
  have hlen : s.readers.length = m.repository.readers.length + 1 := by
    simp [s, Repository.addReader]
  have hshown : ∀ {i}, Machine.Shown { m with repository := s } i → m.Shown i := by
    intro i hi
    cases hi with
    | published hl => exact .published hl
    | @reader id name _ hl =>
      have hl' : (s.reader id).directory.lookup name = some i := hl
      rw [hreader] at hl'
      split at hl'
      · exact .published hl'
      · exact .reader hl'
    | handle hh => exact .handle hh
    | sequence hs hl => exact .sequence hs hl
  refine ⟨fun hi => h.shown (hshown hi), h.known, h.single, h.staged, ?_⟩
  intro h₁ hh
  obtain ⟨hlt, hopen⟩ := h.window hh
  have hold : s.reader h₁.reader = m.repository.reader h₁.reader := by
    rw [hreader, if_neg (by omega)]
  refine ⟨?_, ?_⟩
  · show h₁.reader < s.readers.length
    omega
  · show (s.reader h₁.reader).closed = false →
      (s.reader h₁.reader).directory.lookup h₁.name = some h₁.store
    rw [hold]
    exact hopen

/-- A reader opens a collection. -/
theorem collection (h : Apart m) {w : ReadHandle}
    (ho : (m.repository.reader w.reader).closed = false)
    (hl : (m.repository.reader w.reader).directory.lookup w.name = some w.store) :
    Apart { m with handles := .reading w :: m.handles } := by
  have hwriting : ∀ {h₁}, Handle.writing h₁ ∈ Handle.reading w :: m.handles →
      .writing h₁ ∈ m.handles := fun hh => (List.mem_cons.mp hh).resolve_left Handle.noConfusion
  have hshown : ∀ {i}, Machine.Shown { m with handles := .reading w :: m.handles } i →
      m.Shown i := by
    intro i hi
    cases hi with
    | published hl => exact .published hl
    | reader hl => exact .reader hl
    | handle hh =>
      rcases List.mem_cons.mp hh with he | hh
      · cases he
        exact .reader hl
      · exact .handle hh
    | sequence hs hl => exact .sequence hs hl
  refine ⟨fun hi => ⟨(h.shown (hshown hi)).1,
    fun h₁ hh => (h.shown (hshown hi)).2 h₁ (hwriting hh)⟩, fun hh => h.known (hwriting hh),
    fun hh hh' => h.single (hwriting hh) (hwriting hh'),
    fun hs => List.mem_cons_of_mem _ (h.staged hs), ?_⟩
  intro h₁ hh
  rcases List.mem_cons.mp hh with he | hh
  · cases he
    exact ⟨lt_of_reader_open ho, fun _ => hl⟩
  · exact h.window hh

/-- A sequence is given out whose stores were shown already. -/
theorem sequence (h : Apart m) {q : Sequence}
    (hq : ∀ d p, q = .search d p → ∀ name i, d.lookup name = some i → m.Shown i) :
    Apart { m with sequences := q :: m.sequences } := by
  have hshown : ∀ {i}, Machine.Shown { m with sequences := q :: m.sequences } i → m.Shown i := by
    intro i hi
    cases hi with
    | published hl => exact .published hl
    | reader hl => exact .reader hl
    | handle hh => exact .handle hh
    | sequence hs hl =>
      rcases List.mem_cons.mp hs with he | hs
      · exact hq _ _ he.symm _ _ hl
      · exact .sequence hs hl
  exact ⟨fun hi => h.shown (hshown hi), h.known, h.single, h.staged, h.window⟩

/-- A writer searches copies of its stores, which nobody else knows. -/
theorem copies (h : Apart m) (w : Writer) (p : Pattern) :
    Apart { m with
      repository := m.repository.copying w
      sequences := .search (m.repository.published.amended w.deleted
        (w.staged.numbered m.repository.stores.length)) p :: m.sequences } := by
  let n := m.repository.stores.length
  have hlen : (m.repository.copying w).stores.length = n + w.staged.length := by
    simp [Repository.copying, n]
  have hold : ∀ {i}, Machine.Shown { m with
      repository := m.repository.copying w
      sequences := .search (m.repository.published.amended w.deleted
        (w.staged.numbered m.repository.stores.length)) p :: m.sequences } i →
      m.Shown i ∨ n ≤ i ∧ i < n + w.staged.length := by
    intro i hi
    cases hi with
    | published hl => exact .inl (.published hl)
    | reader hl => exact .inl (.reader hl)
    | handle hh => exact .inl (.handle hh)
    | @sequence d q name _ hs hl =>
      rcases List.mem_cons.mp hs with he | hs
      · cases he
        rw [Directory.lookup_amended, Option.or_eq_some_iff] at hl
        rcases hl with hl | ⟨-, hl⟩
        · exact .inr (Directory.lookup_numbered hl)
        · split at hl
          · cases hl
          · exact .inl (.published hl)
      · exact .inl (.sequence hs hl)
  refine ⟨?_, fun hh => ⟨(h.known hh).1, ?_⟩, h.single, h.staged, h.window⟩
  · intro i hi
    show i < (m.repository.copying w).stores.length ∧ _
    rcases hold hi with hi | ⟨hle, hlt⟩
    · exact ⟨by have := (h.shown hi).1; omega, (h.shown hi).2⟩
    · refine ⟨by omega, ?_⟩
      intro h₁ hh he
      have := (h.known hh).2
      omega
  · show _ < (m.repository.copying w).stores.length
    have := (h.known hh).2
    omega

theorem addWriter (h : Apart m) (patience : Patience) :
    Apart { m with repository := m.repository.addWriter { patience } } := by
  let s := m.repository.addWriter { patience }
  have hwriter : ∀ j, s.writer j = if j = m.repository.writers.length
      then { patience } else m.repository.writer j :=
    fun j => m.repository.writer_addWriter j _
  have hlen : s.writers.length = m.repository.writers.length + 1 := by
    simp [s, Repository.addWriter]
  refine h.of_writers rfl rfl rfl rfl rfl ?_ (fun id name i hl => ?_) fun id hid hph => ?_
  · show m.repository.writers.length ≤ s.writers.length
    omega
  · have hl' : (s.writer id).staged.lookup name = some i := hl
    rw [hwriter] at hl'
    split at hl'
    · cases hl'
    · exact hl'
  · have hph' : (s.writer id).phase = .working := hph
    rw [hwriter, if_neg (by omega)] at hph'
    exact hph'

theorem cancel (h : Apart m) (id : Nat) :
    Apart { m with repository := m.repository.putReader id { closed := true } } := by
  refine h.mono le_rfl rfl (fun j => ?_) List.length_set.ge rfl (fun _ _ hs => hs) le_rfl
    (fun _ _ _ hl => hl) fun _ _ hph => hph
  show (m.repository.putReader id { closed := true }).reader j = _ ∨
    (m.repository.putReader id { closed := true }).reader j = _
  rw [m.repository.reader_putReader]
  split
  · exact .inr rfl
  · exact .inl rfl

/-! ### One lemma for each kind of step -/

theorem request (h : Apart m) (hs : RequestStep m m') : Apart m' := by
  cases hs with
  | quiet he => exact h.of_eq rfl
  | read he => exact h.read.of_eq rfl
  | write he patience => exact (h.addWriter patience).of_eq rfl
  | close he host => exact h.of_eq rfl
  | patience he id hf => exact (h.mild id hf).of_eq rfl
  | cancel id => exact (h.cancel id).of_eq rfl
  | collection he ho hl => exact (h.collection ho hl).of_eq rfl
  | search he p ho =>
    refine (h.sequence fun d q hq name i hl => ?_).of_eq rfl
    cases hq
    exact .reader hl
  | found he l => exact (h.sequence fun d q hq => Sequence.noConfusion hq).of_eq rfl
  | copies he p hw => exact (h.copies _ p).of_eq rfl
  | @edit e w c he hh hw host =>
    refine h.of_eq ?_
    show ((m.repository.stores.set w.store _).length, _) = _
    rw [List.length_set]
    rfl

/-- A handle for writing is given out once more. -/
theorem reopen (h : Apart m) {w : WriteHandle} (hw : .writing w ∈ m.handles) :
    Apart { m with handles := .writing w :: m.handles } := by
  have hmem : ∀ {x}, x ∈ Handle.writing w :: m.handles → x ∈ m.handles := by
    intro x hx
    rcases List.mem_cons.mp hx with rfl | hx
    · exact hw
    · exact hx
  have hshown : ∀ {i}, Machine.Shown { m with handles := .writing w :: m.handles } i →
      m.Shown i := by
    intro i hi
    cases hi with
    | published hl => exact .published hl
    | reader hl => exact .reader hl
    | handle hh => exact .handle (hmem hh)
    | sequence hs hl => exact .sequence hs hl
  exact ⟨fun hi => ⟨(h.shown (hshown hi)).1, fun h₁ hh => (h.shown (hshown hi)).2 h₁ (hmem hh)⟩,
    fun hh => h.known (hmem hh), fun hh hh' => h.single (hmem hh) (hmem hh'),
    fun hs => List.mem_cons_of_mem _ (h.staged hs), fun hh => h.window (hmem hh)⟩

/-- A writer opens a collection in a new store, which nobody else knows. -/
theorem stage (h : Apart m) {id : Nat} (hid : id < m.repository.writers.length) (name : Iri) :
    Apart { m with
      repository := m.repository.opening id name
      handles := .writing ⟨id, name, m.repository.stores.length⟩ :: m.handles } := by
  let n := m.repository.stores.length
  let s := m.repository.opening id name
  have hwriter : ∀ j, s.writer j = if j = id then
      (m.repository.writer id).opening name n else m.repository.writer j :=
    writer_opening hid name
  have hlen : s.stores.length = n + 1 := by simp [s, n, Repository.opening]
  have hwlen : s.writers.length = m.repository.writers.length := List.length_set
  have hphase : ∀ j, (s.writer j).phase = (m.repository.writer j).phase := by
    intro j
    rw [hwriter]
    split
    · rename_i hj
      rw [hj]
      rfl
    · rfl
  have hcases : ∀ {h₁}, Handle.writing h₁ ∈ Handle.writing ⟨id, name, n⟩ :: m.handles →
      h₁ = ⟨id, name, n⟩ ∨ .writing h₁ ∈ m.handles := by
    intro h₁ hh
    rcases List.mem_cons.mp hh with he | hh
    · exact .inl (Handle.writing.inj he)
    · exact .inr hh
  have hshown : ∀ {i}, Machine.Shown { m with
      repository := s, handles := .writing ⟨id, name, n⟩ :: m.handles } i → m.Shown i := by
    intro i hi
    cases hi with
    | published hl => exact .published hl
    | reader hl => exact .reader hl
    | handle hh => exact .handle ((List.mem_cons.mp hh).resolve_left Handle.noConfusion)
    | sequence hs hl => exact .sequence hs hl
  refine ⟨?_, ?_, ?_, ?_, ?_⟩
  · intro i hi
    obtain ⟨hlt, hno⟩ := h.shown (hshown hi)
    refine ⟨?_, ?_⟩
    · show i < s.stores.length
      omega
    · intro h₁ hh he
      show (s.writer h₁.writer).phase ≠ .working
      rw [hphase]
      rcases hcases hh with rfl | hh
      · exact absurd he (Nat.ne_of_gt hlt)
      · exact hno h₁ hh he
  · intro h₁ hh
    show h₁.writer < s.writers.length ∧ h₁.store < s.stores.length
    rw [hwlen, hlen]
    rcases hcases hh with rfl | hh
    · exact ⟨hid, Nat.lt_succ_self n⟩
    · exact ⟨(h.known hh).1, (h.known hh).2.trans (Nat.lt_succ_self n)⟩
  · intro h₁ h₂ hh hh' he
    rcases hcases hh with rfl | hh
    · rcases hcases hh' with rfl | hh'
      · rfl
      · exact absurd he (Nat.ne_of_gt (h.known hh').2)
    · rcases hcases hh' with rfl | hh'
      · exact absurd he (Nat.ne_of_lt (h.known hh).2)
      · exact h.single hh hh' he
  · intro j k i hl
    have hl' : (s.writer j).staged.lookup k = some i := hl
    rw [hwriter] at hl'
    split at hl'
    · rename_i hj
      rw [Writer.opening, Named.lookup_put] at hl'
      split at hl'
      · rename_i hk
        cases hl'
        rw [hj, hk]
        exact List.mem_cons_self
      · rw [hj]
        exact List.mem_cons_of_mem _ (h.staged hl')
    · exact List.mem_cons_of_mem _ (h.staged hl')
  · intro h₁ hh
    exact h.window ((List.mem_cons.mp hh).resolve_left Handle.noConfusion)

theorem visit (h : Apart m) (hs : VisitStep m m') : Apart m' := by
  cases hs with
  | begin hv => exact h.of_eq rfl
  | move hk hg hp he => exact h.of_eq rfl
  | fail hk x hg => exact h.of_eq rfl
  | grant hk waited hg hl => exact h.of_eq rfl
  | lose hk x hg => exact h.of_eq rfl
  | @keep k hk hg hw =>
    exact (h.revise (m.visit k).writer (f := Writer.keeping (m.visit k).name) (fun _ _ hl => hl)
      fun hp => hp).of_eq rfl
  | reopen hk hg hw hl => exact (h.reopen (h.staged hl)).of_eq rfl
  | stage hk hg hw hl =>
    exact (h.stage (lt_of_working hw) _).of_eq rfl
  | @unstage k hk hg hw =>
    refine (h.revise (m.visit k).writer (f := Writer.deleting (m.visit k).name)
      (fun name i hl => ?_) fun hp => hp).of_eq rfl
    rw [Writer.deleting, Named.lookup_erase] at hl
    split at hl
    · cases hl
    · exact hl

/-- A writer publishes: its stores are shown from now on, and it takes no calls any more. -/
theorem publishing (h : Apart m) {id : Nat} (hid : id < m.repository.writers.length) :
    Apart { m with repository := m.repository.publishing id } := by
  let s := m.repository.publishing id
  let w := m.repository.writer id
  have hwriter : ∀ j, s.writer j = if j = id then
      { w with phase := .committing } else m.repository.writer j := writer_publishing hid
  have hphase : ∀ j, (s.writer j).phase = .working →
      j ≠ id ∧ (m.repository.writer j).phase = .working := by
    intro j hj
    rw [hwriter] at hj
    split at hj
    · exact Phase.noConfusion hj
    · exact ⟨‹_›, hj⟩
  have hstaged : ∀ j, (s.writer j).staged = (m.repository.writer j).staged := by
    intro j
    rw [hwriter]
    split
    · rename_i hj
      rw [hj]
    · rfl
  have hwlen : s.writers.length = m.repository.writers.length := List.length_set
  have hshown : ∀ {i}, Machine.Shown { m with repository := s } i →
      m.Shown i ∨ ∃ name, w.staged.lookup name = some i := by
    intro i hi
    cases hi with
    | @published name _ hl =>
      have hl' : (m.repository.published.amended w.deleted w.staged).lookup name = some i := hl
      rw [Directory.lookup_amended, Option.or_eq_some_iff] at hl'
      rcases hl' with hl' | ⟨-, hl'⟩
      · exact .inr ⟨name, hl'⟩
      · split at hl'
        · cases hl'
        · exact .inl (.published hl')
    | reader hl => exact .inl (.reader hl)
    | handle hh => exact .inl (.handle hh)
    | sequence hs hl => exact .inl (.sequence hs hl)
  refine ⟨?_, fun {h₁} hh => ⟨?_, (h.known hh).2⟩, h.single, ?_, h.window⟩
  · intro i hi
    rcases hshown hi with hi | ⟨name, hl⟩
    · obtain ⟨hlt, hno⟩ := h.shown hi
      exact ⟨hlt, fun h₁ hh he hw => hno h₁ hh he (hphase _ hw).2⟩
    · -- the store is known to the writer that publishes it, and to no other
      have hown := h.staged hl
      refine ⟨(h.known hown).2, ?_⟩
      intro h₁ hh he hw
      obtain rfl := h.single hh hown he
      exact (hphase _ hw).1 rfl
  · show h₁.writer < s.writers.length
    rw [hwlen]
    exact (h.known hh).1
  · intro j k i hl
    have hl' : (s.writer j).staged.lookup k = some i := hl
    rw [hstaged] at hl'
    exact h.staged hl'

theorem closing (h : Apart m) (hs : ClosingStep m m') : Apart m' := by
  cases hs with
  | begin hc => exact h.of_eq rfl
  | interrupt hk hp hf => exact (h.mild _ hf).of_eq rfl
  | publish hk hp hc hw ho rest host =>
    exact (h.publishing (lt_of_working hw)).of_eq rfl
  | refuse hk hp hc hw ho => exact (h.concluding _).of_eq rfl
  | @dismiss k hk hp hc hw =>
    have h₁ := h.revise (m.closing k).writer (f := fun w => { w with staged := [], deleted := [] })
      (fun _ _ hl => by cases hl) fun hp => hp
    exact (h₁.concluding (m.closing k).writer).of_eq rfl
  | late hk hp hw => exact h.of_eq rfl
  | tell hk hp hm host => exact h.of_eq rfl
  | finish hk hp => exact (h.concluding _).of_eq rfl

theorem start (c : Collections) (host : Host) : Apart (Machine.start c host) := by
  refine ⟨?_, fun hh => absurd hh List.not_mem_nil, fun hh => absurd hh List.not_mem_nil, ?_,
    fun hh => absurd hh List.not_mem_nil⟩
  · intro i hi
    refine ⟨?_, fun h hh => absurd hh List.not_mem_nil⟩
    cases hi with
    | @published name _ hl =>
      have hb := Directory.lookup_numbered hl
      show i < (c.map Prod.snd).length
      rw [List.length_map]
      omega
    | reader hl => cases hl
    | handle hh => exact absurd hh List.not_mem_nil
    | sequence hs => exact absurd hs List.not_mem_nil
  · intro id name i hl
    cases hl

theorem after (h : Apart m) (moves : List Move) : Apart (m.run moves) :=
  Machine.run_induction request visit closing m h moves

theorem run (c : Collections) (host : Host) (moves : List Move) :
    Apart ((Machine.start c host).run moves) := (start c host).after moves

end Apart

/-! ### What is true of all stores -/

/-- A property of graphs that the empty one has and that every change keeps. -/
structure Graph.Lasting (holds : Graph → Prop) : Prop where
  empty : holds .empty
  apply : ∀ {g}, holds g → ∀ c : Change, holds (c.apply g)

/-- All stores have the property. -/
def Repository.All (holds : Graph → Prop) (s : Repository) : Prop := ∀ g ∈ s.stores, holds g

namespace Repository.All

variable {holds : Graph → Prop} {s : Repository} {m m' : Machine}

theorem getD (h : s.All holds) (hp : Graph.Lasting holds) (i : Nat) :
    holds (s.stores.getD i .empty) := by
  rw [List.getD_eq_getElem?_getD]
  cases hi : s.stores[i]? with
  | none => exact hp.empty
  | some g => exact h g (List.mem_of_getElem? hi)

theorem find (h : s.All holds) (hp : Graph.Lasting holds) (d : Directory) (name : Iri) :
    holds ((d.find s.stores name).getD .empty) := by
  rw [Directory.find]
  cases d.lookup name with
  | none => exact hp.empty
  | some i => exact h.getD hp i

theorem request (h : m.repository.All holds) (hp : Graph.Lasting holds) (hs : RequestStep m m') :
    m'.repository.All holds := by
  cases hs with
  | copies he p hw =>
    intro g hg
    rcases List.mem_append.mp hg with hg | hg
    · exact h g hg
    · obtain ⟨q, -, rfl⟩ := List.mem_map.mp hg
      exact h.getD hp q.2
  | @edit e w c he hh hw host =>
    intro g hg
    rcases List.mem_or_eq_of_mem_set hg with hg | rfl
    · exact h g hg
    · exact hp.apply (h.getD hp w.store) c
  | _ => exact h

theorem visit (h : m.repository.All holds) (hp : Graph.Lasting holds) (hs : VisitStep m m') :
    m'.repository.All holds := by
  cases hs with
  | stage hk hg hw hl =>
    intro g hg
    rcases List.mem_append.mp hg with hg | hg
    · exact h g hg
    · obtain rfl := List.mem_singleton.mp hg
      rw [original]
      split
      · exact hp.empty
      · exact h.find hp _ _
  | _ => exact h

theorem closing (h : m.repository.All holds) (hs : ClosingStep m m') :
    m'.repository.All holds := by
  cases hs <;> exact h

/-- **What changes keep is true of all stores** after all moves. -/
theorem run (h : m.repository.All holds) (hp : Graph.Lasting holds) (moves : List Move) :
    (m.run moves).repository.All holds :=
  Machine.run_induction (P := fun m => m.repository.All holds) (fun h hs => h.request hp hs)
    (fun h hs => h.visit hp hs) (fun h hs => h.closing hs) m h moves

end Repository.All

end TripleStore
