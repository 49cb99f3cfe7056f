import TripleStore.Proofs.Repository.Moves

/-!
# Locks

A lock is taken in one step and noted as held by the writer in a later one, and both a commit and a
cancellation may come in between.  Still no lock is lost and none is taken twice: the lock of a name
is taken exactly while one writer holds it or one call has taken it for its writer.

* `Locking`: the taken locks are those that are kept, and each is kept by one keeper only; with the
  four ways in which keepers come and go.
* `Writer.Orderly`: what a writer has staged and deleted lies within its locks.
* `LocksKept`: the invariant, and one lemma for each kind of step.
* `Machine.locks_kept`: **the invariant holds after all moves**, in terms of writers.
-/

namespace TripleStore

open Repository

/-! ### Keepers -/

/-- Who keeps a lock: a writer that holds it, or a call that has taken it. -/
inductive Keeper
  | writer (id : Nat)
  | visit (k : Nat)

/-- The taken locks are those that are kept, and each has one keeper. -/
structure Locking (locked : List Iri) (keeps : Keeper → Iri → Prop) : Prop where
  kept : ∀ name, name ∈ locked ↔ ∃ x, keeps x name
  alone : ∀ {x y name}, keeps x name → keeps y name → x = y

namespace Locking

variable {locked : List Iri} {keeps keeps' : Keeper → Iri → Prop}

theorem congr (h : Locking locked keeps) (hk : ∀ y n, keeps' y n ↔ keeps y n) :
    Locking locked keeps' := by
  refine ⟨?_, ?_⟩
  · intro name
    rw [h.kept name]
    exact exists_congr fun y => (hk y name).symm
  · intro x y name hx hy
    exact h.alone ((hk x name).mp hx) ((hk y name).mp hy)

/-- A free lock gets a keeper. -/
theorem grant (h : Locking locked keeps) (x : Keeper) {name : Iri} (hfree : name ∉ locked)
    (hk : ∀ y n, keeps' y n ↔ keeps y n ∨ y = x ∧ n = name) : Locking (name :: locked) keeps' := by
  have hnone : ∀ y, ¬ keeps y name := fun y hy => hfree ((h.kept name).mpr ⟨y, hy⟩)
  refine ⟨?_, ?_⟩
  · intro n
    rw [List.mem_cons, h.kept n]
    constructor
    · intro hx
      rcases hx with rfl | ⟨y, hy⟩
      · exact ⟨x, (hk x n).mpr (.inr ⟨rfl, rfl⟩)⟩
      · exact ⟨y, (hk y n).mpr (.inl hy)⟩
    · intro hx
      obtain ⟨y, hy⟩ := hx
      rcases (hk y n).mp hy with hy | ⟨-, rfl⟩
      · exact .inr ⟨y, hy⟩
      · exact .inl rfl
  · intro y z n hy hz
    rcases (hk y n).mp hy with hy | ⟨rfl, rfl⟩
    · rcases (hk z n).mp hz with hz | ⟨-, rfl⟩
      · exact h.alone hy hz
      · exact absurd hy (hnone y)
    · rcases (hk z n).mp hz with hz | ⟨rfl, -⟩
      · exact absurd hz (hnone z)
      · rfl

/-- A keeper gives all its locks back. -/
theorem release (h : Locking locked keeps) (x : Keeper) (names : List Iri)
    (hn : ∀ n, n ∈ names ↔ keeps x n) (hk : ∀ y n, keeps' y n ↔ keeps y n ∧ y ≠ x) :
    Locking (locked.filter fun name => !names.contains name) keeps' := by
  refine ⟨?_, fun {y z n} hy hz => h.alone ((hk y n).mp hy).1 ((hk z n).mp hz).1⟩
  intro n
  simp only [List.mem_filter, List.contains_eq_mem, Bool.not_eq_true', decide_eq_false_iff_not]
  rw [h.kept n, hn n]
  constructor
  · intro hx
    obtain ⟨⟨y, hy⟩, hnot⟩ := hx
    refine ⟨y, (hk y n).mpr ⟨hy, ?_⟩⟩
    intro he
    rw [he] at hy
    exact hnot hy
  · intro hx
    obtain ⟨y, hy⟩ := hx
    obtain ⟨hy, hne⟩ := (hk y n).mp hy
    exact ⟨⟨y, hy⟩, fun hx => hne (h.alone hy hx)⟩

/-- The only lock of a keeper passes to another one. -/
theorem transfer (h : Locking locked keeps) (x z : Keeper) (name : Iri)
    (hx : ∀ n, keeps x n ↔ n = name)
    (hk : ∀ y n, keeps' y n ↔ keeps y n ∧ y ≠ x ∨ y = z ∧ n = name) : Locking locked keeps' := by
  have hname : keeps x name := (hx name).mpr rfl
  refine ⟨?_, ?_⟩
  · intro n
    rw [h.kept n]
    constructor
    · intro hx
      obtain ⟨y, hy⟩ := hx
      by_cases hyx : y = x
      · subst hyx
        obtain rfl := (hx n).mp hy
        exact ⟨z, (hk z n).mpr (.inr ⟨rfl, rfl⟩)⟩
      · exact ⟨y, (hk y n).mpr (.inl ⟨hy, hyx⟩)⟩
    · intro hx
      obtain ⟨y, hy⟩ := hx
      rcases (hk y n).mp hy with ⟨hy, -⟩ | ⟨-, rfl⟩
      · exact ⟨y, hy⟩
      · exact ⟨x, hname⟩
  · intro y w n hy hw
    rcases (hk y n).mp hy with ⟨hy, hyx⟩ | ⟨rfl, rfl⟩
    · rcases (hk w n).mp hw with ⟨hw, -⟩ | ⟨-, rfl⟩
      · exact h.alone hy hw
      · exact absurd (h.alone hy hname) hyx
    · rcases (hk w n).mp hw with ⟨hw, hwx⟩ | ⟨rfl, -⟩
      · exact absurd (h.alone hw hname) hwx
      · rfl

end Locking

/-- Whether a keeper keeps the lock of a name. -/
def Machine.Keeps (m : Machine) : Keeper → Iri → Prop
  | .writer id, name => name ∈ (m.repository.writer id).held
  | .visit k, name => (m.visit k).progress.isGranted = true ∧ name = (m.visit k).name

/-! ### Orderly writers -/

/-- A writer that has ended holds no lock; before that, what it has staged and deleted is locked,
and nothing is both. -/
structure Writer.Orderly (w : Writer) : Prop where
  ended : w.phase = .ended → w.held = []
  staged : w.phase ≠ .ended → ∀ {name}, (w.staged.lookup name).isSome → name ∈ w.held
  deleted : w.phase ≠ .ended → ∀ {name}, name ∈ w.deleted → name ∈ w.held
  disjoint : ∀ {name}, (w.staged.lookup name).isSome → name ∉ w.deleted

namespace Writer

variable {w : Writer}

theorem orderly_new (patience : Patience) : Orderly { patience } := by
  refine ⟨fun _ => rfl, ?_, ?_, ?_⟩
  · intro _ name hn
    exact Bool.noConfusion hn
  · intro _ name hn
    exact absurd hn List.not_mem_nil
  · intro name hn
    exact Bool.noConfusion hn

theorem Orderly.mild (h : w.Orderly) {f : Writer → Writer} (hf : Mild f) : (f w).Orderly := by
  obtain ⟨hp, hh, hs, hd, -⟩ := hf w
  refine ⟨?_, ?_, ?_, ?_⟩
  · rw [hp, hh]
    exact h.ended
  · rw [hp, hh, hs]
    exact h.staged
  · rw [hp, hh, hd]
    exact h.deleted
  · rw [hs, hd]
    exact h.disjoint

theorem Orderly.keeping (h : w.Orderly) (hw : w.phase = .working) (name : Iri) :
    (w.keeping name).Orderly := by
  have hne : w.phase ≠ .ended := by rw [hw]; decide
  refine ⟨fun he => absurd he hne, ?_, ?_, h.disjoint⟩
  · intro _ n hn
    exact List.mem_cons_of_mem _ (h.staged hne hn)
  · intro _ n hn
    exact List.mem_cons_of_mem _ (h.deleted hne hn)

theorem Orderly.opening (h : w.Orderly) (hw : w.phase = .working) {name : Iri}
    (hname : name ∈ w.held) (store : Nat) : (w.opening name store).Orderly := by
  have hne : w.phase ≠ .ended := by rw [hw]; decide
  have hlook : ∀ n, ((w.opening name store).staged.lookup n).isSome → n = name ∨
      (w.staged.lookup n).isSome ∧ n ≠ name := by
    intro n hn
    by_cases hnn : n = name
    · exact .inl hnn
    · refine .inr ⟨?_, hnn⟩
      simpa [Writer.opening, hnn] using hn
  have hdel : ∀ n, n ∈ (w.opening name store).deleted ↔ n ∈ w.deleted ∧ n ≠ name := by
    intro n
    simp [Writer.opening]
  refine ⟨fun he => absurd he hne, ?_, ?_, ?_⟩
  · intro _ n hn
    rcases hlook n hn with rfl | ⟨hn, -⟩
    · exact hname
    · exact h.staged hne hn
  · intro _ n hn
    exact h.deleted hne ((hdel n).mp hn).1
  · intro n hn
    rw [hdel]
    rcases hlook n hn with rfl | ⟨hn, -⟩
    · exact fun hd => hd.2 rfl
    · exact fun hd => h.disjoint hn hd.1

theorem Orderly.deleting (h : w.Orderly) (hw : w.phase = .working) {name : Iri}
    (hname : name ∈ w.held) : (w.deleting name).Orderly := by
  have hne : w.phase ≠ .ended := by rw [hw]; decide
  have hlook : ∀ n, ((w.deleting name).staged.lookup n).isSome →
      (w.staged.lookup n).isSome ∧ n ≠ name := by
    intro n hn
    by_cases hnn : n = name
    · simp [Writer.deleting, hnn] at hn
    · refine ⟨?_, hnn⟩
      simpa [Writer.deleting, hnn] using hn
  have hdel : ∀ n, n ∈ (w.deleting name).deleted → n ∈ w.deleted ∨ n = name := by
    intro n hn
    exact mem_insertNew.mp hn
  refine ⟨fun he => absurd he hne, ?_, ?_, ?_⟩
  · intro _ n hn
    exact h.staged hne (hlook n hn).1
  · intro _ n hn
    rcases hdel n hn with hn | rfl
    · exact h.deleted hne hn
    · exact hname
  · intro n hn hd
    obtain ⟨hn, hnn⟩ := hlook n hn
    rcases hdel n hd with hd | rfl
    · exact h.disjoint hn hd
    · exact hnn rfl

theorem Orderly.emptied (h : w.Orderly) : Orderly { w with staged := [], deleted := [] } :=
  ⟨h.ended, fun _ {_} hn => Bool.noConfusion hn, fun _ {_} hn => absurd hn List.not_mem_nil,
    fun {_} hn => Bool.noConfusion hn⟩

theorem Orderly.committing (h : w.Orderly) (hw : w.phase = .working) :
    Orderly { w with phase := .committing } := by
  have hne : w.phase ≠ .ended := by rw [hw]; decide
  exact ⟨fun he => Phase.noConfusion he, fun _ => h.staged hne, fun _ => h.deleted hne, h.disjoint⟩

theorem Orderly.concluded (h : w.Orderly) : Orderly { w with phase := .ended, held := [] } :=
  ⟨fun _ => rfl, fun hne => absurd rfl hne, fun hne => absurd rfl hne, h.disjoint⟩

end Writer

/-! ### The invariant -/

/-- A call that is entitled to a collection has a writer that holds the lock as long as it has not
ended. -/
def Machine.Entitled (m : Machine) : Prop :=
  ∀ k, (m.visit k).progress = .entitled →
    (m.visit k).writer < m.repository.writers.length ∧
      ((m.repository.writer (m.visit k).writer).phase ≠ .ended →
        (m.visit k).name ∈ (m.repository.writer (m.visit k).writer).held)

theorem Machine.Entitled.visitAt {m : Machine} (h : m.Entitled) {k : Nat}
    (hk : k < m.visits.length) {p : Progress}
    (he : p = .entitled → (m.visit k).name ∈ (m.repository.writer (m.visit k).writer).held) :
    (m.visitAt k p).Entitled := by
  intro j hj
  rw [visit_visitAt hk] at hj ⊢
  split at hj
  · rename_i hjk
    have hin := he hj
    rw [if_pos hjk]
    exact ⟨lt_of_mem_held hin, fun _ => hin⟩
  · rename_i hjk
    rw [if_neg hjk]
    exact h j hj

/-- The locks that are taken are kept, the writers are orderly, and entitled calls have their
locks. -/
structure LocksKept (m : Machine) : Prop where
  locking : Locking m.repository.locked m.Keeps
  orderly : ∀ id, (m.repository.writer id).Orderly
  entitled : m.Entitled

namespace LocksKept

variable {m m' : Machine}

/-- Only locks, writers and the calls that lock collections matter. -/
theorem of_eq (h : LocksKept m) (hl : m'.repository.locked = m.repository.locked)
    (hw : m'.repository.writers = m.repository.writers) (hv : m'.visits = m.visits) :
    LocksKept m' := by
  have hwriter : ∀ id, m'.repository.writer id = m.repository.writer id := by
    intro id
    rw [Repository.writer, Repository.writer, hw]
  have hvisit : ∀ k, m'.visit k = m.visit k := by
    intro k
    rw [Machine.visit, Machine.visit, hv]
  have hkeeps : ∀ y n, m'.Keeps y n ↔ m.Keeps y n := by
    intro y n
    cases y with
    | writer id => rw [Machine.Keeps, Machine.Keeps, hwriter]
    | visit k => rw [Machine.Keeps, Machine.Keeps, hvisit]
  refine ⟨?_, ?_, ?_⟩
  · rw [hl]
    exact h.locking.congr hkeeps
  · intro id
    rw [hwriter]
    exact h.orderly id
  · intro k
    rw [hvisit, hwriter, hw]
    exact h.entitled k

/-- A writer changes, but not in its locks and not in whether it has ended. -/
theorem revise (h : LocksKept m) (id : Nat) {f : Writer → Writer}
    (hh : (f (m.repository.writer id)).held = (m.repository.writer id).held)
    (hp : (f (m.repository.writer id)).phase ≠ .ended → (m.repository.writer id).phase ≠ .ended)
    (ho : (f (m.repository.writer id)).Orderly) :
    LocksKept { m with repository := m.repository.revise id f } := by
  have hrev := m.repository.writer_revise id (f := f)
  have hheld : ∀ j, ((m.repository.revise id f).writer j).held = (m.repository.writer j).held := by
    intro j
    rw [hrev]
    split
    · rename_i hj
      rw [hj.1, hh]
    · rfl
  refine ⟨?_, ?_, ?_⟩
  · refine h.locking.congr fun y n => ?_
    cases y with
    | writer j =>
      show n ∈ ((m.repository.revise id f).writer j).held ↔ n ∈ (m.repository.writer j).held
      rw [hheld]
    | visit k => exact Iff.rfl
  · intro j
    show ((m.repository.revise id f).writer j).Orderly
    rw [hrev]
    split
    · exact ho
    · exact h.orderly j
  · intro k hk
    obtain ⟨hlt, hin⟩ := h.entitled k hk
    refine ⟨(length_writers_revise _ id f).symm ▸ hlt, ?_⟩
    intro hph
    show (m.visit k).name ∈ ((m.repository.revise id f).writer (m.visit k).writer).held
    rw [hheld]
    refine hin ?_
    have hph' : ((m.repository.revise id f).writer (m.visit k).writer).phase ≠ .ended := hph
    rw [hrev] at hph'
    split at hph'
    · rename_i hj
      rw [hj.1]
      exact hp hph'
    · exact hph'

theorem mild (h : LocksKept m) (id : Nat) {f : Writer → Writer} (hf : Mild f) :
    LocksKept { m with repository := m.repository.revise id f } := by
  obtain ⟨hp, hh, -, -⟩ := hf (m.repository.writer id)
  exact h.revise id hh (fun hne => hp ▸ hne) ((h.orderly id).mild hf)

/-- A call without a lock comes further and stays without one. -/
theorem visitAt (h : LocksKept m) {k : Nat} (hk : k < m.visits.length) {p : Progress}
    (hg : (m.visit k).progress.isGranted = false) (hp : p.isGranted = false)
    (he : p = .entitled → (m.visit k).name ∈ (m.repository.writer (m.visit k).writer).held) :
    LocksKept (m.visitAt k p) := by
  refine ⟨?_, h.orderly, h.entitled.visitAt hk he⟩
  refine h.locking.congr fun y n => ?_
  cases y with
  | writer id => exact Iff.rfl
  | visit j =>
    rw [Machine.Keeps, Machine.Keeps, Machine.visit_visitAt hk]
    split
    · rename_i hjk
      rw [hjk, hg]
      simp [hp]
    · exact Iff.rfl

/-- A writer ends and its locks become free. -/
theorem concluding (h : LocksKept m) (id : Nat) :
    LocksKept { m with repository := m.repository.concluding id } := by
  have hwriter := m.repository.writer_concluding id
  refine ⟨?_, ?_, ?_⟩
  · refine h.locking.release (.writer id) (m.repository.writer id).held
      (fun n => Iff.rfl) fun y n => ?_
    cases y with
    | writer j =>
      show n ∈ ((m.repository.concluding id).writer j).held
        ↔ n ∈ (m.repository.writer j).held ∧ Keeper.writer j ≠ .writer id
      rw [hwriter]
      by_cases hj : j = id
      · simp [hj]
      · simp [hj]
    | visit k => exact ⟨fun hx => ⟨hx, Keeper.noConfusion⟩, fun hx => hx.1⟩
  · intro j
    show ((m.repository.concluding id).writer j).Orderly
    rw [hwriter]
    split
    · exact (h.orderly id).concluded
    · exact h.orderly j
  · intro k hk
    obtain ⟨hlt, hin⟩ := h.entitled k hk
    refine ⟨(length_writers_concluding _ id).symm ▸ hlt, ?_⟩
    intro hph
    have hph' : ((m.repository.concluding id).writer (m.visit k).writer).phase ≠ .ended := hph
    show (m.visit k).name ∈ ((m.repository.concluding id).writer (m.visit k).writer).held
    rw [hwriter] at hph' ⊢
    split at hph'
    · exact absurd rfl hph'
    · rename_i hj
      rw [if_neg hj]
      exact hin hph'

/-- A new writer. -/
theorem addWriter (h : LocksKept m) (patience : Patience) :
    LocksKept { m with repository := m.repository.addWriter { patience } } := by
  have hwriter := fun j => m.repository.writer_addWriter j { patience }
  have hnew : m.repository.writer m.repository.writers.length = default :=
    writer_eq_default (Nat.lt_irrefl _)
  refine ⟨?_, ?_, ?_⟩
  · refine h.locking.congr fun y n => ?_
    cases y with
    | writer j =>
      show n ∈ ((m.repository.addWriter { patience }).writer j).held
        ↔ n ∈ (m.repository.writer j).held
      rw [hwriter]
      split
      · rename_i hj
        rw [hj, hnew]
        exact Iff.rfl
      · exact Iff.rfl
    | visit k => exact Iff.rfl
  · intro j
    show ((m.repository.addWriter { patience }).writer j).Orderly
    rw [hwriter]
    split
    · exact Writer.orderly_new patience
    · exact h.orderly j
  · intro k hk
    obtain ⟨hlt, hin⟩ := h.entitled k hk
    have hlen : (m.repository.addWriter { patience }).writers.length
        = m.repository.writers.length + 1 := by simp [Repository.addWriter]
    have hold : (m.repository.addWriter { patience }).writer (m.visit k).writer
        = m.repository.writer (m.visit k).writer := by
      rw [hwriter, if_neg (by omega)]
    refine ⟨?_, ?_⟩
    · show (m.visit k).writer < (m.repository.addWriter { patience }).writers.length
      omega
    · show ((m.repository.addWriter { patience }).writer (m.visit k).writer).phase ≠ .ended →
        (m.visit k).name ∈ ((m.repository.addWriter { patience }).writer (m.visit k).writer).held
      rw [hold]
      exact hin

/-! ### One lemma for each kind of step -/

theorem request (h : LocksKept m) (hs : RequestStep m m') : LocksKept m' := by
  cases hs with
  | quiet he => exact h.of_eq rfl rfl rfl
  | read he => exact h.of_eq rfl rfl rfl
  | write he patience => exact (h.addWriter patience).of_eq rfl rfl rfl
  | close he host => exact h.of_eq rfl rfl rfl
  | patience he id hf => exact (h.mild id hf).of_eq rfl rfl rfl
  | cancel id => exact h.of_eq rfl rfl rfl
  | collection he ho hl => exact h.of_eq rfl rfl rfl
  | search he p ho => exact h.of_eq rfl rfl rfl
  | found he l => exact h.of_eq rfl rfl rfl
  | copies he p hw => exact h.of_eq rfl rfl rfl
  | edit he hh hw host => exact h.of_eq rfl rfl rfl

/-- A call takes a free lock. -/
theorem grant (h : LocksKept m) {k : Nat} (hk : k < m.visits.length) (waited : Bool)
    (hg : (m.visit k).progress.isGranted = false) (hl : (m.visit k).name ∉ m.repository.locked) :
    LocksKept ({ m with
      repository := m.repository.lock (m.visit k).name }.visitAt k (.granted waited)) := by
  let m₁ : Machine := { m with repository := m.repository.lock (m.visit k).name }
  have hvisit : ∀ j, (m₁.visitAt k (.granted waited)).visit j
      = if j = k then { m.visit k with progress := .granted waited } else m.visit j :=
    fun j => Machine.visit_visitAt (m := m₁) hk _ j
  refine ⟨?_, h.orderly, Machine.Entitled.visitAt (m := m₁) h.entitled hk Progress.noConfusion⟩
  refine h.locking.grant (.visit k) hl fun y n => ?_
  cases y with
  | writer id => exact ⟨.inl, fun hx => hx.resolve_right fun hy => Keeper.noConfusion hy.1⟩
  | visit j =>
    rw [Machine.Keeps, Machine.Keeps, hvisit]
    by_cases hjk : j = k
    · rw [if_pos hjk, hjk, hg]
      simp [Progress.isGranted]
    · rw [if_neg hjk]
      simp [hjk]

/-- A call gives its lock back. -/
theorem lose (h : LocksKept m) {k : Nat} (hk : k < m.visits.length) (x : Error)
    (hg : (m.visit k).progress.isGranted = true) :
    LocksKept ({ m with
      repository := m.repository.unlock [(m.visit k).name] }.visitAt k (.ended (.error x))) := by
  let m₁ : Machine := { m with repository := m.repository.unlock [(m.visit k).name] }
  have hvisit : ∀ j, (m₁.visitAt k (.ended (.error x))).visit j
      = if j = k then { m.visit k with progress := .ended (.error x) } else m.visit j :=
    fun j => Machine.visit_visitAt (m := m₁) hk _ j
  refine ⟨?_, h.orderly, Machine.Entitled.visitAt (m := m₁) h.entitled hk Progress.noConfusion⟩
  refine h.locking.release (.visit k) [(m.visit k).name] (fun n => ?_) fun y n => ?_
  · rw [Machine.Keeps, hg]
    simp
  · cases y with
    | writer id => exact ⟨fun hx => ⟨hx, Keeper.noConfusion⟩, fun hx => hx.1⟩
    | visit j =>
      rw [Machine.Keeps, Machine.Keeps, hvisit]
      by_cases hjk : j = k
      · rw [if_pos hjk]
        simp [hjk, Progress.isGranted]
      · rw [if_neg hjk]
        simp [hjk]

/-- The lock that a call has taken becomes one of its writer's locks. -/
theorem keep (h : LocksKept m) {k : Nat} (hk : k < m.visits.length)
    (hg : (m.visit k).progress.isGranted = true)
    (hw : (m.repository.writer (m.visit k).writer).phase = .working) :
    LocksKept ({ m with
      repository := m.repository.revise (m.visit k).writer
        (Writer.keeping (m.visit k).name) }.visitAt k .entitled) := by
  let m₁ : Machine := { m with
    repository := m.repository.revise (m.visit k).writer (Writer.keeping (m.visit k).name) }
  have hvisit : ∀ j, (m₁.visitAt k .entitled).visit j
      = if j = k then { m.visit k with progress := .entitled } else m.visit j :=
    fun j => Machine.visit_visitAt (m := m₁) hk _ j
  have hlt : (m.visit k).writer < m.repository.writers.length :=
    lt_of_working hw
  have hwriter : ∀ j, m₁.repository.writer j = if j = (m.visit k).writer then
      (m.repository.writer (m.visit k).writer).keeping (m.visit k).name
      else m.repository.writer j := fun j => writer_revise_of_lt hlt j _
  refine ⟨?_, ?_, ?_⟩
  · refine h.locking.transfer (.visit k) (.writer (m.visit k).writer) (m.visit k).name
      (fun n => ?_) fun y n => ?_
    · rw [Machine.Keeps, hg]
      simp
    · cases y with
      | writer j =>
        show n ∈ (m₁.repository.writer j).held ↔ _
        rw [hwriter, Machine.Keeps]
        by_cases hj : j = (m.visit k).writer
        · rw [if_pos hj, hj]
          simp [Writer.keeping, or_comm]
        · rw [if_neg hj]
          simp [hj]
      | visit j =>
        rw [Machine.Keeps, Machine.Keeps, hvisit]
        by_cases hjk : j = k
        · rw [if_pos hjk]
          simp [hjk, Progress.isGranted]
        · rw [if_neg hjk]
          simp [hjk]
  · intro j
    show (m₁.repository.writer j).Orderly
    rw [hwriter]
    split
    · exact (h.orderly _).keeping hw _
    · exact h.orderly j
  · refine Machine.Entitled.visitAt (m := m₁) (fun j hj => ?_) hk fun _ => ?_
    · obtain ⟨hlt', hin⟩ := h.entitled j hj
      refine ⟨hlt'.trans_eq (length_writers_revise _ _ _).symm, ?_⟩
      show (m₁.repository.writer (m.visit j).writer).phase ≠ .ended →
        (m.visit j).name ∈ (m₁.repository.writer (m.visit j).writer).held
      rw [hwriter]
      intro hph
      by_cases hjw : (m.visit j).writer = (m.visit k).writer
      · -- another call of the same writer, which only gets one more lock
        rw [if_pos hjw] at hph ⊢
        rw [← hjw] at hph ⊢
        exact List.mem_cons_of_mem _ (hin hph)
      · rw [if_neg hjw] at hph ⊢
        exact hin hph
    · show (m.visit k).name ∈ (m₁.repository.writer (m.visit k).writer).held
      rw [hwriter, if_pos rfl]
      exact List.mem_cons_self

/-- An entitled call of a writer that takes calls: the writer holds the lock. -/
theorem mem_held (h : LocksKept m) {k : Nat} (hg : (m.visit k).progress = .entitled)
    (hw : (m.repository.writer (m.visit k).writer).phase = .working) :
    (m.visit k).name ∈ (m.repository.writer (m.visit k).writer).held :=
  (h.entitled k hg).2 (by rw [hw]; decide)

/-- A call without a lock is over. -/
theorem visitEnded (h : LocksKept m) {k : Nat} (hk : k < m.visits.length)
    (hg : (m.visit k).progress.isGranted = false) (answer : Outcome (Option WriteHandle)) :
    LocksKept (m.visitAt k (.ended answer)) :=
  h.visitAt hk hg rfl Progress.noConfusion

/-- A call begins. -/
theorem visitBegun (h : LocksKept m) {v : Visit} (hv : v.progress = .begun) :
    LocksKept { m with visits := m.visits ++ [v] } := by
  let m₁ : Machine := { m with visits := m.visits ++ [v] }
  have hvisit : ∀ j, m₁.visit j = if j = m.visits.length then v else m.visit j :=
    fun j => getD_concat m.visits j v default
  have hnew : m.visit m.visits.length = default := Machine.visit_eq_default (Nat.lt_irrefl _)
  refine ⟨?_, h.orderly, ?_⟩
  · refine h.locking.congr fun y n => ?_
    cases y with
    | writer id => exact Iff.rfl
    | visit j =>
      rw [Machine.Keeps, Machine.Keeps, hvisit]
      by_cases hjk : j = m.visits.length
      · rw [if_pos hjk, hjk, hnew, hv]
        exact ⟨fun hx => Bool.noConfusion hx.1, fun hx => Bool.noConfusion hx.1⟩
      · rw [if_neg hjk]
  · intro j hj
    rw [hvisit] at hj ⊢
    by_cases hjk : j = m.visits.length
    · rw [if_pos hjk, hv] at hj
      exact Progress.noConfusion hj
    · rw [if_neg hjk] at hj ⊢
      exact h.entitled j hj

theorem visit (h : LocksKept m) (hs : VisitStep m m') : LocksKept m' := by
  cases hs with
  | begin hv => exact h.visitBegun hv
  | move hk hg hp he => exact h.visitAt hk hg hp he
  | fail hk x hg => exact (h.visitEnded hk hg (.error x)).of_eq rfl rfl rfl
  | grant hk waited hg hl => exact h.grant hk waited hg hl
  | lose hk x hg => exact (h.lose hk x hg).of_eq rfl rfl rfl
  | keep hk hg hw => exact h.keep hk hg hw
  | @reopen k hk store hg hw hl =>
    exact (h.visitEnded hk hg (.ok (some ⟨(m.visit k).writer, (m.visit k).name, store⟩))).of_eq
      rfl rfl rfl
  | @stage k hk hg hw hl =>
    have hg' : (m.visit k).progress.isGranted = false := by rw [hg]; rfl
    have h₁ := h.revise (m.visit k).writer
      (f := Writer.opening (m.visit k).name m.repository.stores.length) rfl (fun hne => hne)
      ((h.orderly _).opening hw (h.mem_held hg hw) _)
    exact (h₁.visitEnded hk hg' (.ok (some
      ⟨(m.visit k).writer, (m.visit k).name, m.repository.stores.length⟩))).of_eq rfl rfl rfl
  | @unstage k hk hg hw =>
    have hg' : (m.visit k).progress.isGranted = false := by rw [hg]; rfl
    have h₁ := h.revise (m.visit k).writer (f := Writer.deleting (m.visit k).name) rfl
      (fun hne => hne) ((h.orderly _).deleting hw (h.mem_held hg hw))
    exact (h₁.visitEnded hk hg' (.ok none)).of_eq rfl rfl rfl

theorem closing (h : LocksKept m) (hs : ClosingStep m m') : LocksKept m' := by
  cases hs with
  | begin hc => exact h.of_eq rfl rfl rfl
  | interrupt hk hp hf => exact (h.mild _ hf).of_eq rfl rfl rfl
  | @publish k hk hp hc hw ho rest host =>
    have hne : (m.repository.writer (m.closing k).writer).phase ≠ .ended := by rw [hw]; decide
    exact (h.revise (m.closing k).writer (f := fun w => { w with phase := .committing }) rfl
      (fun _ => hne) ((h.orderly _).committing hw)).of_eq rfl rfl rfl
  | refuse hk hp hc hw ho => exact (h.concluding _).of_eq rfl rfl rfl
  | @dismiss k hk hp hc hw =>
    have h₁ := h.revise (m.closing k).writer (f := fun w => { w with staged := [], deleted := [] })
      rfl (fun hne => hne) (h.orderly _).emptied
    exact (h₁.concluding (m.closing k).writer).of_eq rfl rfl rfl
  | late hk hp hw => exact h.of_eq rfl rfl rfl
  | tell hk hp hm host => exact h.of_eq rfl rfl rfl
  | finish hk hp => exact (h.concluding _).of_eq rfl rfl rfl

theorem start (c : Collections) (host : Host) : LocksKept (Machine.start c host) := by
  have hnone : ∀ y n, ¬ (Machine.start c host).Keeps y n := by
    intro y n hy
    cases y with
    | writer id => exact List.not_mem_nil hy
    | visit k => exact Bool.noConfusion hy.1
  refine ⟨⟨fun name => ?_, fun hx => absurd hx (hnone _ _)⟩, ?_, ?_⟩
  · exact ⟨fun hx => absurd hx List.not_mem_nil, fun ⟨y, hy⟩ => absurd hy (hnone y name)⟩
  · intro id
    exact ⟨fun _ => rfl, fun hne => absurd rfl hne, fun hne => absurd rfl hne,
      fun {_} hx => Bool.noConfusion hx⟩
  · intro k hk
    exact Progress.noConfusion hk

/-- What a writer has staged, no other writer that takes calls has staged or deleted. -/
theorem untouched (h : LocksKept m) {id j : Nat} (hj : j ≠ id)
    (hpj : (m.repository.writer j).phase = .working)
    (hp : (m.repository.writer id).phase = .working) {name : Iri} {i : Nat}
    (hi : (m.repository.writer j).staged.lookup name = some i) :
    (m.repository.writer id).staged.lookup name = none ∧
      name ∉ (m.repository.writer id).deleted := by
  have hnej : (m.repository.writer j).phase ≠ .ended := by rw [hpj]; decide
  have hne : (m.repository.writer id).phase ≠ .ended := by rw [hp]; decide
  have hheld : m.Keeps (.writer j) name := (h.orderly j).staged hnej (by rw [hi]; rfl)
  have hfree : ¬ m.Keeps (.writer id) name := by
    intro hid
    exact hj (Keeper.writer.inj (h.locking.alone hheld hid))
  refine ⟨?_, fun hd => hfree ((h.orderly id).deleted hne hd)⟩
  rw [← Option.not_isSome_iff_eq_none]
  exact fun hs => hfree ((h.orderly id).staged hne hs)

theorem run (c : Collections) (host : Host) (moves : List Move) :
    LocksKept ((Machine.start c host).run moves) :=
  Machine.run_induction request visit closing _ (start c host) moves

end LocksKept

/-! ### Locks and writers -/

namespace Machine

/-- Whether a writer has the lock of a name: it has not ended and holds the lock, or one of its
calls has taken the lock and it is not noted yet. -/
def HasLock (m : Machine) (id : Nat) (name : Iri) : Prop :=
  ((m.repository.writer id).phase ≠ .ended ∧ name ∈ (m.repository.writer id).held) ∨
    ∃ k, (m.visit k).writer = id ∧ (m.visit k).name = name
      ∧ (m.visit k).progress.isGranted = true

/-- A writer has a lock when it keeps it itself or through one of its calls. -/
theorem hasLock_iff {m : Machine} (h : LocksKept m) (id : Nat) (name : Iri) :
    m.HasLock id name ↔
      m.Keeps (.writer id) name ∨ ∃ k, (m.visit k).writer = id ∧ m.Keeps (.visit k) name := by
  constructor
  · intro hx
    rcases hx with ⟨-, hheld⟩ | ⟨k, hid, hname, hg⟩
    · exact .inl hheld
    · exact .inr ⟨k, hid, hg, hname.symm⟩
  · intro hx
    rcases hx with hheld | ⟨k, hid, hg, hname⟩
    · refine .inl ⟨fun hended => ?_, hheld⟩
      rw [Keeps, (h.orderly id).ended hended] at hheld
      exact List.not_mem_nil hheld
    · exact .inr ⟨k, hid, hname.symm, hg⟩

/-- No two writers have the same lock. -/
theorem hasLock_unique {m : Machine} (h : LocksKept m) {i j : Nat} {name : Iri}
    (hi : m.HasLock i name) (hj : m.HasLock j name) : i = j := by
  rw [hasLock_iff h] at hi hj
  rcases hi with hi | ⟨k, hk, hi⟩
  · rcases hj with hj | ⟨l, -, hj⟩
    · exact Keeper.writer.inj (h.locking.alone hi hj)
    · exact Keeper.noConfusion (h.locking.alone hi hj)
  · rcases hj with hj | ⟨l, hl, hj⟩
    · exact Keeper.noConfusion (h.locking.alone hi hj)
    · have hkl : k = l := Keeper.visit.inj (h.locking.alone hi hj)
      rw [← hk, ← hl, hkl]

/-- A lock is taken exactly while one writer has it. -/
theorem mem_locked_iff {m : Machine} (h : LocksKept m) (name : Iri) :
    name ∈ m.repository.locked ↔ ∃! id, m.HasLock id name := by
  rw [h.locking.kept]
  constructor
  · intro hx
    obtain ⟨y, hy⟩ := hx
    have hex : ∃ id, m.HasLock id name := by
      cases y with
      | writer id => exact ⟨id, (hasLock_iff h id name).mpr (.inl hy)⟩
      | visit k => exact ⟨(m.visit k).writer, (hasLock_iff h _ name).mpr (.inr ⟨k, rfl, hy⟩)⟩
    obtain ⟨id, hid⟩ := hex
    exact ⟨id, hid, fun j hj => hasLock_unique h hj hid⟩
  · intro hx
    obtain ⟨id, hid, -⟩ := hx
    rcases (hasLock_iff h id name).mp hid with hheld | ⟨k, -, hk⟩
    · exact ⟨_, hheld⟩
    · exact ⟨_, hk⟩

/-- **Locks.**  Whatever moves callers make, and in whatever order: the lock of a name is taken
exactly while one writer has it, which is open and holds it or is between taking and noting it; no
two writers have the same lock; a writer that has ended holds nothing; and what an open writer has
staged and what it has deleted are apart and lie within what it holds. -/
theorem locks_kept (c : Collections) (host : Host) (moves : List Move) :
    let m := (start c host).run moves
    (∀ name, name ∈ m.repository.locked ↔ ∃! id, m.HasLock id name) ∧
      (∀ i j name, m.HasLock i name → m.HasLock j name → i = j) ∧
      (∀ id, (m.repository.writer id).phase = .ended → (m.repository.writer id).held = []) ∧
      ∀ id, (m.repository.writer id).phase ≠ .ended →
        (∀ name ∈ (m.repository.writer id).staged.map Prod.fst,
          name ∉ (m.repository.writer id).deleted ∧ name ∈ (m.repository.writer id).held) ∧
        ∀ name ∈ (m.repository.writer id).deleted, name ∈ (m.repository.writer id).held := by
  intro m
  have h : LocksKept m := LocksKept.run c host moves
  refine ⟨mem_locked_iff h, fun i j name => hasLock_unique h, fun id => (h.orderly id).ended, ?_⟩
  intro id hopen
  refine ⟨?_, fun name => (h.orderly id).deleted hopen⟩
  intro name hname
  have hsome := Named.lookup_isSome hname
  exact ⟨(h.orderly id).disjoint hsome, (h.orderly id).staged hopen hsome⟩

end Machine

end TripleStore
