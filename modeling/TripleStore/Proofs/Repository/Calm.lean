import TripleStore.Proofs.Repository.Backing
import TripleStore.Proofs.Repository.Serial

/-!
# Moves that do not matter to a commit

While a commit tells the backing what its writer has left, other callers go on.  Their moves change
nothing that the commit rests on, unless they publish.

* `Calm`: the same is published, writers that take no calls keep what they have staged and deleted,
  and no commit comes further or publishes.
* `Calm.request`, `Calm.visit`, `Calm.proceed`: **all moves are calm but the steps of a commit from
  its publication on.**
-/

namespace TripleStore

open Repository

/-- A commit of a writer has answered that all went well. -/
def Machine.Succeeded (m : Machine) (id : Nat) : Prop :=
  ∃ c, .closed c (.ok ()) ∈ m.history ∧ c.writer = id ∧ c.publishes = true

/-- Nothing changes that a commit rests on. -/
structure Calm (m m' : Machine) : Prop where
  published : m'.repository.published = m.repository.published
  contents : m'.repository.contents = m.repository.contents
  length : m.repository.writers.length ≤ m'.repository.writers.length
  /-- A writer that takes no calls does not begin to take some, and leaves what it has left. -/
  writer : ∀ id < m.repository.writers.length, (m.repository.writer id).phase ≠ .working →
    (m'.repository.writer id).phase ≠ .working ∧
      (m'.repository.writer id).staged = (m.repository.writer id).staged ∧
      (m'.repository.writer id).deleted = (m.repository.writer id).deleted
  telling : ∀ {k rest errors}, (m'.closing k).progress = .telling rest errors →
    m'.closing k = m.closing k
  writers : m'.ledger.writers = m.ledger.writers
  succeeded : ∀ {id}, m'.Succeeded id → m.Succeeded id

namespace Calm

variable {m m' : Machine}

theorem refl (m : Machine) : Calm m m :=
  ⟨rfl, rfl, le_rfl, fun _ _ hw => ⟨hw, rfl, rfl⟩, fun _ => rfl, rfl, fun hs => hs⟩

theorem trans {m'' : Machine} (h : Calm m m') (h' : Calm m' m'') : Calm m m'' := by
  refine ⟨h'.published.trans h.published, h'.contents.trans h.contents, h.length.trans h'.length,
    fun id hid hw => ?_, fun {k _ _} hk => ?_, h'.writers.trans h.writers,
    fun hs => h.succeeded (h'.succeeded hs)⟩
  · obtain ⟨hw₁, hs₁, hd₁⟩ := h.writer id hid hw
    obtain ⟨hw₂, hs₂, hd₂⟩ := h'.writer id (hid.trans_le h.length) hw₁
    exact ⟨hw₂, hs₂.trans hs₁, hd₂.trans hd₁⟩
  · have he := h'.telling hk
    rw [he] at hk ⊢
    exact h.telling hk

/-- Only the host, the calls that lock a collection and what was given out change. -/
theorem of_eq (hr : m'.repository = m.repository) (hc : m'.closings = m.closings)
    (hh : m'.history = m.history) : Calm m m' := by
  refine ⟨by rw [hr], by rw [hr], by rw [hr], fun id _ hw => ?_, fun {k _ _} _ => ?_, ?_, ?_⟩
  · rw [hr]
    exact ⟨hw, rfl, rfl⟩
  · rw [Machine.closing, Machine.closing, hc]
  · rw [Machine.ledger, Machine.ledger, hh]
  · intro id
    rw [Machine.Succeeded, Machine.Succeeded, hh]
    exact fun hs => hs

/-- Something is noted that is neither a publication nor a commit that went well. -/
theorem note {e : Event} (he : ∀ id, e ≠ .published id)
    (hok : ∀ c, e = .closed c (.ok ()) → c.publishes = false) : Calm m (m.note e) := by
  refine ⟨rfl, rfl, le_rfl, fun _ _ hw => ⟨hw, rfl, rfl⟩, fun _ => rfl, ?_, ?_⟩
  · show (Ledger.ofHistory (m.history ++ [e])).writers = _
    cases hd : e.deed? with
    | none =>
      rw [Ledger.ofHistory_quiet hd]
      rfl
    | some d =>
      rw [Ledger.ofHistory_deed hd, Ledger.writers_enter]
      · rfl
      · rintro id rfl
        exact he id (Event.eq_published hd)
  · rintro id ⟨c, hc, hid, hpub⟩
    rcases List.mem_append.mp hc with hc | hc
    · exact ⟨c, hc, hid, hpub⟩
    · rw [hok c (List.mem_singleton.mp hc).symm] at hpub
      exact Bool.noConfusion hpub

/-- Something is noted that is not about the end of a writer. -/
theorem passing {e : Event} (he : e.isPassing) : Calm m (m.note e) := by
  refine note ?_ ?_
  · rintro id rfl
    exact Bool.noConfusion he
  · rintro c rfl
    exact Bool.noConfusion he

/-- A call that ends a writer comes further, but does not begin to tell the backing. -/
theorem closingAt {k : Nat} (hk : k < m.closings.length) {p : Ending}
    (hp : ∀ rest errors, p ≠ .telling rest errors) : Calm m (m.closingAt k p) := by
  refine ⟨rfl, rfl, le_rfl, fun _ _ hw => ⟨hw, rfl, rfl⟩, fun {j rest errors} hj => ?_, rfl,
    fun hs => hs⟩
  rw [Machine.closing_closingAt hk] at hj ⊢
  by_cases hjk : j = k
  · rw [if_pos hjk] at hj
    exact absurd hj (hp rest errors)
  · rw [if_neg hjk]

/-- A call that ends a writer begins. -/
theorem begun {c : Closing} (hc : c.progress = .begun) :
    Calm m { m with closings := m.closings ++ [c] } := by
  refine ⟨rfl, rfl, le_rfl, fun _ _ hw => ⟨hw, rfl, rfl⟩, fun {j rest errors} hj => ?_, rfl,
    fun hs => hs⟩
  have hclosing : ∀ j, Machine.closing { m with closings := m.closings ++ [c] } j =
      if j = m.closings.length then c else m.closing j :=
    fun j => getD_concat m.closings j c default
  rw [hclosing] at hj ⊢
  by_cases hjk : j = m.closings.length
  · rw [if_pos hjk, hc] at hj
    exact Ending.noConfusion hj
  · rw [if_neg hjk]

/-! ### Changes of the repository -/

variable {s : Repository}

/-- Stores are added, and all writers are as they were. -/
theorem grows (ha : Apart m) (he : Extends m.repository s)
    (hw : s.writers = m.repository.writers) : Calm m { m with repository := s } := by
  refine ⟨he.published, ha.contents_extends he, hw.symm ▸ le_rfl, fun id _ hid => ?_, fun _ => rfl,
    rfl, fun hs => hs⟩
  have hwriter : s.writer id = m.repository.writer id := by
    rw [Repository.writer, Repository.writer, hw]
  exact ⟨hwriter ▸ hid, by rw [hwriter], by rw [hwriter]⟩

/-- A writer changes that takes calls, or changes in other things than what it leaves. -/
theorem revise (ha : Apart m) {id : Nat} {f : Writer → Writer}
    (hf : (m.repository.writer id).phase ≠ .working →
      (f (m.repository.writer id)).phase ≠ .working ∧
        (f (m.repository.writer id)).staged = (m.repository.writer id).staged ∧
        (f (m.repository.writer id)).deleted = (m.repository.writer id).deleted)
    (he : Extends m.repository s) (hw : s.writers = (m.repository.revise id f).writers) :
    Calm m { m with repository := s } := by
  have hwriter : ∀ j, s.writer j = if j = id ∧ id < m.repository.writers.length
      then f (m.repository.writer id) else m.repository.writer j := by
    intro j
    rw [Repository.writer, hw]
    exact m.repository.writer_revise id j f
  refine ⟨he.published, ha.contents_extends he, ?_, fun j _ hj => ?_, fun _ => rfl, rfl,
    fun hs => hs⟩
  · show _ ≤ s.writers.length
    rw [hw, length_writers_revise]
  · show (s.writer j).phase ≠ .working ∧ (s.writer j).staged = _ ∧ (s.writer j).deleted = _
    rw [hwriter]
    split
    · rename_i hji
      rw [hji.1] at hj ⊢
      exact hf hj
    · exact ⟨hj, rfl, rfl⟩

theorem mild (ha : Apart m) (id : Nat) {f : Writer → Writer} (hf : Mild f) :
    Calm m { m with repository := m.repository.revise id f } := by
  obtain ⟨hp, -, hs, hd, -⟩ := hf (m.repository.writer id)
  exact revise ha (fun hw => ⟨hp.symm ▸ hw, hs, hd⟩) ⟨rfl, List.prefix_rfl⟩ rfl

theorem addWriter (ha : Apart m) (w : Writer) :
    Calm m { m with repository := m.repository.addWriter w } := by
  have he : Extends m.repository (m.repository.addWriter w) := ⟨rfl, List.prefix_rfl⟩
  refine ⟨rfl, ha.contents_extends he, ?_, fun id hid hw => ?_, fun _ => rfl, rfl,
    fun hs => hs⟩
  · show _ ≤ (m.repository.writers ++ [w]).length
    rw [List.length_append]
    exact Nat.le_add_right _ _
  · show ((m.repository.addWriter w).writer id).phase ≠ .working ∧ _
    rw [writer_addWriter, if_neg hid.ne]
    exact ⟨hw, rfl, rfl⟩

/-- A writer ends and leaves what it has left. -/
theorem concluding (ha : Apart m) (id : Nat) :
    Calm m { m with repository := m.repository.concluding id } :=
  revise (f := fun w => { w with phase := .ended, held := [] }) ha
    (fun _ => ⟨Phase.noConfusion, rfl, rfl⟩) ⟨rfl, List.prefix_rfl⟩ rfl

/-- A writer that takes calls ends and leaves nothing. -/
theorem discarding (ha : Apart m) {id : Nat} (hid : (m.repository.writer id).phase = .working) :
    Calm m { m with repository := m.repository.discarding id } := by
  refine ⟨rfl, ha.contents_extends ⟨rfl, List.prefix_rfl⟩, (length_writers_discarding _ _).ge,
    fun j _ hj => ?_, fun _ => rfl, rfl,
    fun hs => hs⟩
  have hne : j ≠ id := fun he => hj (he ▸ hid)
  show ((m.repository.discarding id).writer j).phase ≠ .working ∧ _
  rw [writer_discarding_of_ne _ hne]
  exact ⟨hj, rfl, rfl⟩

/-! ### One lemma for each kind of step -/

theorem plain {e : Event} (he : e.isPlain) : Calm m (m.note e) :=
  passing (Event.isPassing_of_isPlain he)

theorem request (ha : Apart m) (hs : RequestStep m m') : Calm m m' := by
  cases hs with
  | quiet he => exact plain he
  | read he =>
    exact (grows (s := m.repository.addReader { directory := m.repository.published }) ha
      ⟨rfl, List.prefix_rfl⟩ rfl).trans (plain he)
  | write he patience => exact (addWriter ha _).trans (plain he)
  | close he host =>
    have hclosed : Calm m { m with repository := { m.repository with closed := true }, host } :=
      (grows (s := { m.repository with closed := true }) ha ⟨rfl, List.prefix_rfl⟩ rfl).trans
        (of_eq rfl rfl rfl)
    exact hclosed.trans (plain he)
  | patience he id hf => exact (mild ha id hf).trans (plain he)
  | cancel id =>
    exact (grows (s := m.repository.putReader id { closed := true }) ha ⟨rfl, List.prefix_rfl⟩
      rfl).trans (plain rfl)
  | collection he ho hl => exact (plain he).trans (of_eq rfl rfl rfl)
  | search he p ho => exact (plain he).trans (of_eq rfl rfl rfl)
  | found he l => exact (plain he).trans (of_eq rfl rfl rfl)
  | @copies e he id p hw =>
    exact ((grows (s := m.repository.copying (m.repository.writer id)) ha
      ⟨rfl, List.prefix_append _ _⟩ rfl).trans (plain he)).trans (of_eq rfl rfl rfl)
  | @edit e h c he hh hw host =>
    have hcontents := ha.contents_putStore hh hw (c.apply (m.repository.store h.store))
    have h₁ : Calm m { m with
        repository := m.repository.putStore h.store (c.apply (m.repository.store h.store)) } :=
      ⟨rfl, hcontents, le_rfl, fun _ _ hw => ⟨hw, rfl, rfl⟩, fun _ => rfl, rfl, fun hs => hs⟩
    exact (h₁.trans (passing (Event.isPassing_of_edited he))).trans (of_eq rfl rfl rfl)

theorem visited (v : Visit) (a : Outcome (Option WriteHandle)) :
    Calm m (m.note (.visited v a)) := passing rfl

theorem visit (ha : Apart m) (hs : VisitStep m m') : Calm m m' := by
  cases hs with
  | begin hv => exact of_eq rfl rfl rfl
  | move hk hg hp he => exact of_eq rfl rfl rfl
  | fail hk x hg => exact (visited _ _).trans (of_eq rfl rfl rfl)
  | @grant k hk waited hg hl =>
    exact (grows (s := m.repository.lock (m.visit k).name) ha ⟨rfl, List.prefix_rfl⟩ rfl).trans
      (of_eq rfl rfl rfl)
  | @lose k hk x hg =>
    exact ((grows (s := m.repository.unlock [(m.visit k).name]) ha ⟨rfl, List.prefix_rfl⟩
      rfl).trans (visited (m.visit k) (.error x))).trans (of_eq rfl rfl rfl)
  | @keep k hk hg hw =>
    exact (revise (s := m.repository.revise (m.visit k).writer (Writer.keeping (m.visit k).name)) ha
      (fun hne => absurd hw hne) ⟨rfl, List.prefix_rfl⟩ rfl).trans (of_eq rfl rfl rfl)
  | @reopen k hk store hg hw hl => exact (visited (m.visit k) _).trans (of_eq rfl rfl rfl)
  | @stage k hk hg hw hl =>
    exact ((revise (s := m.repository.opening (m.visit k).writer (m.visit k).name) ha
      (fun hne => absurd hw hne) ⟨rfl, List.prefix_append _ _⟩ rfl).trans
        (visited (m.visit k) _)).trans (of_eq rfl rfl rfl)
  | @unstage k hk hg hw =>
    exact ((revise
      (s := m.repository.revise (m.visit k).writer (Writer.deleting (m.visit k).name)) ha
      (fun hne => absurd hw hne) ⟨rfl, List.prefix_rfl⟩ rfl).trans
        (visited (m.visit k) _)).trans (of_eq rfl rfl rfl)

theorem moveVisit (ha : Apart m) {k : Nat} {step : Action Progress}
    (hs : m.moveVisit k step = m ∨ VisitStep m (m.moveVisit k step)) :
    Calm m (m.moveVisit k step) := by
  rcases hs with he | hs
  · exact he.symm ▸ refl m
  · exact visit ha hs

/-- A call that ends a writer is over, and was no commit that went well. -/
theorem closed {k : Nat} (hk : k < m.closings.length) {a : Outcome Unit} {c : Closing}
    (ha : a = .ok () → c.publishes = false) :
    Calm m ((m.closingAt k (.ended a)).note (.closed c a)) := by
  refine (closingAt hk fun _ _ => Ending.noConfusion).trans (note (fun _ => Event.noConfusion) ?_)
  intro c' he
  obtain ⟨rfl, hok⟩ := Event.closed.inj he
  exact ha hok

/-- A commit that cannot publish: the writer is over or the repository is closed. -/
theorem proceed_late (ha : Apart m) {k : Nat} (hk : k < m.closings.length)
    (hp : (m.closing k).progress = .interrupting) (hc : (m.closing k).publishes = true)
    (hno : (m.repository.writer (m.closing k).writer).phase = .working →
      m.repository.closed ≠ false) : Calm m (m.proceed k) := by
  have hx := publish_run m.toWorld (m.closing k).writer
  cases hw : (m.repository.writer (m.closing k).writer).phase with
  | working =>
    rw [hw, eq_true_of_ne_false (hno hw), if_pos rfl] at hx
    rw [Machine.proceed_failed (by simp [Closing.next, hp, hc, hx]; exact ⟨rfl, rfl⟩),
      Machine.settled_ended]
    exact (concluding ha (m.closing k).writer).trans (closed (by exact hk) fun he => by cases he)
  | committing =>
    rw [hw] at hx
    rw [Machine.proceed_waiting (w := m.toWorld) (by simp [Closing.next, hp, hc, hx])]
    exact refl m
  | ended =>
    rw [hw] at hx
    rw [Machine.proceed_failed (by simp [Closing.next, hp, hc, hx]; exact ⟨rfl, rfl⟩),
      Machine.settled_ended]
    exact closed hk fun he => by cases he

/-- A cancellation. -/
theorem proceed_dismiss (ha : Apart m) {k : Nat} (hk : k < m.closings.length)
    (hp : (m.closing k).progress = .interrupting) (hc : (m.closing k).publishes = false) :
    Calm m (m.proceed k) := by
  have hx := dismiss_run m.toWorld (m.closing k).writer
  cases hw : (m.repository.writer (m.closing k).writer).phase with
  | working =>
    rw [hw] at hx
    rw [Machine.proceed_ok (by simp [Closing.next, hp, hc, hx]; exact ⟨rfl, rfl⟩),
      Machine.settled_ended]
    exact (discarding ha hw).trans (closed (by exact hk) fun _ => hc)
  | committing =>
    rw [hw] at hx
    rw [Machine.proceed_waiting (w := m.toWorld) (by simp [Closing.next, hp, hc, hx])]
    exact refl m
  | ended =>
    rw [hw] at hx
    rw [Machine.proceed_failed (by simp [Closing.next, hp, hc, hx]; exact ⟨rfl, rfl⟩),
      Machine.settled_ended]
    exact closed hk fun he => by cases he

/-- The steps of a call that ends a writer without publishing anything. -/
theorem proceed (ha : Apart m) {k : Nat}
    (htell : ∀ rest errors, (m.closing k).progress ≠ .telling rest errors)
    (hpub : ¬ ((m.closing k).progress = .interrupting ∧ (m.closing k).publishes = true ∧
      (m.repository.writer (m.closing k).writer).phase = .working ∧ m.repository.closed = false)) :
    Calm m (m.proceed k) := by
  by_cases hk : k < m.closings.length
  swap
  · have hdef := Machine.closing_eq_default hk
    rw [Machine.proceed_waiting (w := m.toWorld) (by rw [hdef]; rfl)]
    exact refl m
  cases hp : (m.closing k).progress with
  | begun =>
    have hx : (m.closing k).next.run m.toWorld = .ok .interrupting
        ⟨m.repository.revise (m.closing k).writer (Writer.interrupted .cancelled), m.host⟩ := by
      simp [Closing.next, hp, interrupt]
    rw [Machine.proceed_ok hx, Machine.settled_interrupting]
    exact (mild ha (m.closing k).writer (mild_interrupted .cancelled)).trans
      (closingAt (by exact hk) fun _ _ => Ending.noConfusion)
  | interrupting =>
    cases hc : (m.closing k).publishes with
    | true => exact proceed_late ha hk hp hc fun hw ho => hpub ⟨hp, hc, hw, ho⟩
    | false => exact proceed_dismiss ha hk hp hc
  | telling rest errors => exact absurd hp (htell rest errors)
  | ended a =>
    rw [Machine.proceed_waiting (w := m.toWorld) (by simp [Closing.next, hp])]
    exact refl m

end Calm

end TripleStore
