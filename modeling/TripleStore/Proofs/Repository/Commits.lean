import TripleStore.Proofs.Repository.Moves

/-!
# Which writers have published

A commit publishes in one step, tells the backing in others and answers in a last one.  The history
tells when a writer has published; this is compared with what the calls that end a writer answered.

* `Ledger.ofHistory_note`: a ledger grows with the history.
* `Machine.Committed`, `Machine.Fruitless`: what the answers of the calls that end a writer say.
* `Settled`: a writer has published exactly if a commit of it is telling the backing or has answered
  so, and none publishes twice; with one lemma for each kind of step.
* `Settled.run`: **it holds after all moves.**
-/

namespace TripleStore

open Repository

/-! ### Ledgers -/

namespace Ledger

theorem ofHistory_note (history : List Event) (e : Event) :
    ofHistory (history ++ [e]) = match e.deed? with
      | none => ofHistory history
      | some d => (ofHistory history).enter d := by
  rw [ofHistory, List.filterMap_append, List.foldl_append]
  cases h : e.deed? <;> simp [h, ofHistory]

theorem ofHistory_quiet {e : Event} (he : e.deed? = none) (history : List Event) :
    ofHistory (history ++ [e]) = ofHistory history := by
  rw [ofHistory_note, he]

theorem ofHistory_deed {e : Event} {d : Deed} (he : e.deed? = some d) (history : List Event) :
    ofHistory (history ++ [e]) = (ofHistory history).enter d := by
  rw [ofHistory_note, he]

/-- Only a publication changes who has published. -/
theorem writers_enter {l : Ledger} {d : Deed} (h : ∀ id, d ≠ .published id) :
    (l.enter d).writers = l.writers := by
  cases d with
  | published id => exact absurd rfl (h id)
  | opened x => rfl
  | deleted id name => rfl
  | edited x c => rfl

theorem writers_published (l : Ledger) (id : Nat) :
    (l.enter (.published id)).writers = l.writers ++ [id] := by
  simp [enter, writers]

end Ledger

/-- Whether this says nothing about the end of a writer. -/
def Event.isPassing : Event → Bool
  | .answered _ _ | .visited _ _ => true
  | _ => false

namespace Event

variable {e : Event}

theorem isPassing_of_isPlain (he : e.isPlain) : e.isPassing := by
  cases e with
  | answered r a => rfl
  | visited v a => rfl
  | published id => exact Bool.noConfusion he
  | closed c a => exact Bool.noConfusion he

theorem deed?_of_isPlain (he : e.isPlain) : e.deed? = none := by
  cases e with
  | answered r a =>
    cases r with
    | edit h x =>
      cases a with
      | ok y => exact Bool.noConfusion he
      | error x => rfl
    | _ => rfl
  | _ => exact Bool.noConfusion he

theorem isPassing_of_edited {h : WriteHandle} {c : Change} (he : e.deed? = some (.edited h c)) :
    e.isPassing := by
  cases e with
  | answered r a => rfl
  | visited v a => rfl
  | published id => cases he
  | closed c a => cases he

theorem ne_closed (he : e.isPassing) (c : Closing) (a : Outcome Unit) : .closed c a ≠ e := by
  intro hc
  rw [← hc] at he
  exact Bool.noConfusion he

/-- Only a publication is entered as one. -/
theorem eq_published {id : Nat} (hd : e.deed? = some (.published id)) : e = .published id := by
  unfold deed? at hd
  split at hd
  · obtain ⟨c, -, hc⟩ := Option.map_eq_some_iff.mp hd
    exact Deed.noConfusion hc
  · cases hd
  · cases hd
  · cases hd
    rfl
  · cases hd

end Event

theorem Machine.ledger_quiet {m m' : Machine} {e : Event} (hh : m'.history = m.history ++ [e])
    (he : e.deed? = none) : m'.ledger = m.ledger := by
  rw [ledger, hh]
  exact Ledger.ofHistory_quiet he m.history

theorem Machine.ledger_deed {m m' : Machine} {e : Event} {d : Deed}
    (hh : m'.history = m.history ++ [e]) (he : e.deed? = some d) :
    m'.ledger = m.ledger.enter d := by
  rw [ledger, hh]
  exact Ledger.ofHistory_deed he m.history

theorem Machine.writers_ledger_note (m : Machine) {e : Event} (he : e.isPassing) :
    (m.note e).ledger.writers = m.ledger.writers := by
  show (Ledger.ofHistory (m.history ++ [e])).writers = _
  rw [Ledger.ofHistory_note]
  cases hd : e.deed? with
  | none => rfl
  | some d =>
    refine Ledger.writers_enter fun id hid => ?_
    rw [hid] at hd
    rw [Event.eq_published hd] at he
    exact Bool.noConfusion he

/-! ### Answers of commits -/

/-- Whether an answer of a commit means that it has published. -/
def Published (answer : Outcome Unit) : Prop :=
  answer ≠ .error .storeClosed ∧ answer ≠ .error .transactionClosed

/-- What the backing fails with says what was being done. -/
def Reported (errors : List Error) : Prop :=
  ∀ x ∈ errors, ∃ doing cause, x = Error.within doing cause

theorem all_of_reported {errors : List Error} (h : Reported errors) {x : Error}
    (hx : Error.all errors = some x) : x ≠ .storeClosed ∧ x ≠ .transactionClosed := by
  induction errors generalizing x with
  | nil => cases hx
  | cons e rest ih =>
    obtain ⟨doing, cause, rfl⟩ := h e List.mem_cons_self
    cases rest with
    | nil =>
      cases hx
      exact ⟨Error.noConfusion, Error.noConfusion⟩
    | cons f rest =>
      rw [Error.all] at hx
      split at hx
      · cases hx
        exact ⟨Error.noConfusion, Error.noConfusion⟩
      · cases hx
        exact ⟨Error.noConfusion, Error.noConfusion⟩

theorem published_verdict {errors : List Error} (h : Reported errors) :
    Published (verdict errors) := by
  rw [verdict]
  split
  · rename_i x hx
    obtain ⟨h₁, h₂⟩ := all_of_reported h hx
    exact ⟨fun he => h₁ (Except.error.inj he), fun he => h₂ (Except.error.inj he)⟩
  · refine ⟨?_, ?_⟩
    · intro he
      cases he
    · intro he
      cases he

/-- A commit of a writer has answered that it has published. -/
def Machine.Committed (m : Machine) (id : Nat) : Prop :=
  ∃ c a, .closed c a ∈ m.history ∧ c.writer = id ∧ c.publishes = true ∧ Published a

/-- A writer was cancelled, or a commit of it has found the repository closed. -/
def Machine.Fruitless (m : Machine) (id : Nat) : Prop :=
  ∃ c a, .closed c a ∈ m.history ∧ c.writer = id ∧
    (c.publishes = false ∧ a ≠ .error .transactionClosed ∨ a = .error .storeClosed)

/-! ### The invariant -/

/-- The writers that have published are those that the answers of commits tell of and those with a
commit on the way.  A call that has ended a writer was the only one. -/
structure Settled (m : Machine) : Prop where
  nodup : m.ledger.writers.Nodup
  mem : ∀ id, id ∈ m.ledger.writers ↔
    (m.repository.writer id).phase = .committing ∨ m.Committed id
  telling : ∀ {k rest errors}, (m.closing k).progress = .telling rest errors →
    (m.repository.writer (m.closing k).writer).phase = .committing ∧
      (m.closing k).publishes = true ∧ Reported errors
  alone : ∀ {j k rest rest' errors errors'}, (m.closing j).progress = .telling rest errors →
    (m.closing k).progress = .telling rest' errors' →
      (m.closing j).writer = (m.closing k).writer → j = k
  ended : ∀ {c a}, .closed c a ∈ m.history → a ≠ .error .transactionClosed →
    c.writer < m.repository.writers.length ∧ (m.repository.writer c.writer).phase = .ended
  fruitless : ∀ {id}, m.Fruitless id → id ∉ m.ledger.writers

namespace Settled

variable {m m' : Machine}

/-- A writer that has published was begun. -/
theorem known (h : Settled m) {id : Nat} (hid : id ∈ m.ledger.writers) :
    id < m.repository.writers.length := by
  rcases (h.mem id).mp hid with hp | ⟨c, a, hc, rfl, -, hpub⟩
  · exact lt_of_committing hp
  · exact (h.ended hc hpub.2).1

/-- A writer that takes calls has not published. -/
theorem idle (h : Settled m) {id : Nat} (hw : (m.repository.writer id).phase = .working) :
    id ∉ m.ledger.writers := by
  intro hid
  rcases (h.mem id).mp hid with hp | ⟨c, a, hc, rfl, -, hpub⟩
  · rw [hw] at hp
    exact Phase.noConfusion hp
  · rw [(h.ended hc hpub.2).2] at hw
    exact Phase.noConfusion hw

/-- A writer that was cancelled or refused has ended. -/
theorem ended_of_fruitless (h : Settled m) {id : Nat} (hf : m.Fruitless id) :
    (m.repository.writer id).phase = .ended := by
  obtain ⟨c, a, hc, rfl, hca⟩ := hf
  refine (h.ended hc ?_).2
  rcases hca with hca | rfl
  · exact hca.2
  · nofun

/-- Nothing happens but that writers begin, or change in other things than their phase. -/
theorem phases (h : Settled m) (hc : m'.closings = m.closings) (hh : m'.history = m.history)
    (hlen : m.repository.writers.length ≤ m'.repository.writers.length)
    (hp : ∀ id < m.repository.writers.length,
      (m'.repository.writer id).phase = (m.repository.writer id).phase)
    (hnew : ∀ id, (m'.repository.writer id).phase = .committing →
      id < m.repository.writers.length) : Settled m' := by
  have hclosing : ∀ k, m'.closing k = m.closing k := by
    intro k
    rw [Machine.closing, Machine.closing, hc]
  have hledger : m'.ledger = m.ledger := by rw [Machine.ledger, Machine.ledger, hh]
  have hcommitted : ∀ id, m'.Committed id ↔ m.Committed id := by
    intro id
    rw [Machine.Committed, Machine.Committed, hh]
  have hphase : ∀ id, (m'.repository.writer id).phase = .committing ↔
      (m.repository.writer id).phase = .committing := by
    intro id
    constructor
    · intro hid
      rw [← hp id (hnew id hid)]
      exact hid
    · intro hid
      rw [hp id (lt_of_committing hid)]
      exact hid
  refine ⟨?_, ?_, ?_, ?_, ?_, ?_⟩
  · rw [hledger]
    exact h.nodup
  · intro id
    rw [hledger, hphase, hcommitted]
    exact h.mem id
  · intro k rest errors hk
    rw [hclosing] at hk ⊢
    rw [hphase]
    exact h.telling hk
  · intro j k _ _ _ _ hj hk
    rw [hclosing] at hj hk ⊢
    rw [hclosing]
    exact h.alone hj hk
  · intro c a hc ha
    rw [hh] at hc
    obtain ⟨hlt, hend⟩ := h.ended hc ha
    rw [hp _ hlt]
    exact ⟨hlt.trans_le hlen, hend⟩
  · intro id hf
    rw [hledger]
    rw [Machine.Fruitless, hh] at hf
    exact h.fruitless hf

/-- The phases of the writers are as they were. -/
theorem steady (h : Settled m) (hc : m'.closings = m.closings) (hh : m'.history = m.history)
    (hlen : m.repository.writers.length = m'.repository.writers.length)
    (hp : ∀ id, (m'.repository.writer id).phase = (m.repository.writer id).phase) : Settled m' :=
  h.phases hc hh hlen.le (fun id _ => hp id) fun id hid => by
    rw [hp] at hid
    exact lt_of_committing hid

/-- Something is noted that is not about the end of a writer. -/
theorem note (h : Settled m) {e : Event} (he : e.isPassing) : Settled (m.note e) := by
  have hledger := m.writers_ledger_note he
  have hmem : ∀ {c a}, Event.closed c a ∈ (m.note e).history ↔ .closed c a ∈ m.history := by
    intro c a
    show _ ∈ m.history ++ [e] ↔ _
    rw [List.mem_append, List.mem_singleton]
    exact or_iff_left (e.ne_closed he c a)
  refine ⟨?_, ?_, h.telling, h.alone, fun hc => h.ended (hmem.mp hc), ?_⟩
  · rw [hledger]
    exact h.nodup
  · intro id
    rw [hledger, h.mem id]
    simp only [Machine.Committed, hmem]
    rfl
  · intro id hf
    rw [hledger]
    simp only [Machine.Fruitless, hmem] at hf
    exact h.fruitless hf

/-- Something is noted that is not about the end of a writer, and the phases are as they were. -/
theorem passing (h : Settled m) {e : Event} (hc : m'.closings = m.closings)
    (hh : m'.history = m.history ++ [e]) (he : e.isPassing)
    (hlen : m.repository.writers.length = m'.repository.writers.length)
    (hp : ∀ id, (m'.repository.writer id).phase = (m.repository.writer id).phase) : Settled m' :=
  (h.note he).steady hc hh hlen hp

/-- A writer changes in other things than its phase. -/
theorem revise (h : Settled m) (id : Nat) {f : Writer → Writer}
    (hf : (f (m.repository.writer id)).phase = (m.repository.writer id).phase) :
    Settled { m with repository := m.repository.revise id f } :=
  h.steady rfl rfl (length_writers_revise _ id f).symm (phase_revise hf)

theorem addWriter (h : Settled m) (patience : Patience) :
    Settled { m with repository := m.repository.addWriter { patience } } := by
  have hwriter : ∀ j, (m.repository.addWriter { patience }).writer j =
      if j = m.repository.writers.length then { patience } else m.repository.writer j :=
    fun j => m.repository.writer_addWriter j _
  refine h.phases rfl rfl ?_ (fun id hid => ?_) fun id hid => ?_
  · simp [Repository.addWriter]
  · show ((m.repository.addWriter { patience }).writer id).phase = _
    rw [hwriter, if_neg hid.ne]
  · have hid' : ((m.repository.addWriter { patience }).writer id).phase = .committing := hid
    rw [hwriter] at hid'
    split at hid'
    · exact Phase.noConfusion hid'
    · exact lt_of_committing hid'

/-! ### One lemma for each kind of step -/

theorem request (h : Settled m) (hs : RequestStep m m') : Settled m' := by
  cases hs with
  | quiet he => exact h.note (Event.isPassing_of_isPlain he)
  | read he =>
    exact h.passing rfl rfl (Event.isPassing_of_isPlain he) rfl fun _ => rfl
  | write he patience => exact (h.addWriter patience).note (Event.isPassing_of_isPlain he)
  | close he host =>
    exact h.passing rfl rfl (Event.isPassing_of_isPlain he) rfl fun _ => rfl
  | patience he id hf => exact (h.revise id (hf _).1).note (Event.isPassing_of_isPlain he)
  | cancel id => exact h.passing rfl rfl rfl rfl fun _ => rfl
  | collection he ho hl =>
    exact h.passing rfl rfl (Event.isPassing_of_isPlain he) rfl fun _ => rfl
  | search he p ho =>
    exact h.passing rfl rfl (Event.isPassing_of_isPlain he) rfl fun _ => rfl
  | found he l => exact h.passing rfl rfl (Event.isPassing_of_isPlain he) rfl fun _ => rfl
  | copies he p hw =>
    exact h.passing rfl rfl (Event.isPassing_of_isPlain he) rfl fun _ => rfl
  | edit he hh hw host =>
    exact h.passing rfl rfl (Event.isPassing_of_edited he) rfl fun _ => rfl

theorem visit (h : Settled m) (hs : VisitStep m m') : Settled m' := by
  cases hs with
  | begin hv => exact h.steady rfl rfl rfl fun _ => rfl
  | move hk hg hp he => exact h.steady rfl rfl rfl fun _ => rfl
  | fail hk x hg => exact h.passing rfl rfl rfl rfl fun _ => rfl
  | grant hk waited hg hl => exact h.steady rfl rfl rfl fun _ => rfl
  | lose hk x hg => exact h.passing rfl rfl rfl rfl fun _ => rfl
  | @keep k hk hg hw =>
    have h₁ := h.revise (m.visit k).writer (f := Writer.keeping (m.visit k).name) rfl
    exact h₁.steady rfl rfl rfl fun _ => rfl
  | reopen hk hg hw hl => exact h.passing rfl rfl rfl rfl fun _ => rfl
  | @stage k hk hg hw hl =>
    have h₁ := h.revise (m.visit k).writer
      (f := Writer.opening (m.visit k).name m.repository.stores.length) rfl
    exact h₁.passing rfl rfl rfl rfl fun _ => rfl
  | @unstage k hk hg hw =>
    have h₁ := h.revise (m.visit k).writer (f := Writer.deleting (m.visit k).name) rfl
    exact h₁.passing rfl rfl rfl rfl fun _ => rfl

/-- A call that ends a writer comes further; it tells the backing only if it did so before. -/
theorem closingAt (h : Settled m) {k : Nat} (hk : k < m.closings.length) {p : Ending}
    (hp : ∀ {rest errors}, p = .telling rest errors → Reported errors ∧
      ∃ rest' errors', (m.closing k).progress = .telling rest' errors') :
    Settled (m.closingAt k p) := by
  have haim := fun j => Machine.aim_closingAt hk p j
  have hcases : ∀ {j rest errors}, ((m.closingAt k p).closing j).progress = .telling rest errors →
      Reported errors ∧ ∃ rest' errors', (m.closing j).progress = .telling rest' errors' := by
    intro j rest errors hj
    rw [Machine.closing_closingAt hk] at hj
    split at hj
    · rename_i hjk
      rw [hjk]
      exact hp hj
    · exact ⟨(h.telling hj).2.2, _, _, hj⟩
  refine ⟨h.nodup, h.mem, ?_, ?_, h.ended, h.fruitless⟩
  · intro j rest errors hj
    obtain ⟨hrep, rest', errors', ht⟩ := hcases hj
    obtain ⟨hphase, hpub, -⟩ := h.telling ht
    rw [(haim j).1, (haim j).2]
    exact ⟨hphase, hpub, hrep⟩
  · intro i j _ _ _ _ hi hj hij
    obtain ⟨-, _, _, hti⟩ := hcases hi
    obtain ⟨-, _, _, htj⟩ := hcases hj
    rw [(haim i).1, (haim j).1] at hij
    exact h.alone hti htj hij

/-- A call that ends a writer begins. -/
theorem closingBegun (h : Settled m) {c : Closing} (hc : c.progress = .begun) :
    Settled { m with closings := m.closings ++ [c] } := by
  have hclosing : ∀ j, Machine.closing { m with closings := m.closings ++ [c] } j =
      if j = m.closings.length then c else m.closing j :=
    fun j => getD_concat m.closings j c default
  have hold : ∀ {j rest errors},
      (Machine.closing { m with closings := m.closings ++ [c] } j).progress = .telling rest errors →
        Machine.closing { m with closings := m.closings ++ [c] } j = m.closing j := by
    intro j rest errors hj
    rw [hclosing] at hj ⊢
    split at hj
    · rw [hc] at hj
      exact Ending.noConfusion hj
    · rename_i hne
      rw [if_neg hne]
  refine ⟨h.nodup, h.mem, ?_, ?_, h.ended, h.fruitless⟩
  · intro j rest errors hj
    have he := hold hj
    rw [he] at hj ⊢
    exact h.telling hj
  · intro i j _ _ _ _ hi hj hij
    have hei := hold hi
    have hej := hold hj
    rw [hei] at hi hij
    rw [hej] at hj hij
    exact h.alone hi hj hij

/-- A writer publishes. -/
theorem publishing (h : Settled m) {k : Nat} (hk : k < m.closings.length)
    (hc : (m.closing k).publishes = true)
    (hw : (m.repository.writer (m.closing k).writer).phase = .working) (rest : List Telling) :
    Settled (({ m with
      repository := m.repository.publishing (m.closing k).writer }.closingAt k
        (.telling rest [])).note (.published (m.closing k).writer)) := by
  let id := (m.closing k).writer
  let m₁ : Machine := { m with repository := m.repository.publishing id }
  let m₂ := (m₁.closingAt k (.telling rest [])).note (.published id)
  have hid : id < m.repository.writers.length := lt_of_working hw
  have hphase : ∀ j, (m₂.repository.writer j).phase =
      if j = id then .committing else (m.repository.writer j).phase := by
    intro j
    show ((m.repository.publishing id).writer j).phase = _
    rw [writer_publishing hid]
    split <;> rfl
  have haim : ∀ j, (m₂.closing j).writer = (m.closing j).writer ∧
      (m₂.closing j).publishes = (m.closing j).publishes :=
    fun j => Machine.aim_closingAt (m := m₁) hk _ j
  have hledger : m₂.ledger.writers = m.ledger.writers ++ [id] := by
    show (Ledger.ofHistory (m.history ++ [.published id])).writers = _
    rw [Ledger.ofHistory_deed rfl, Ledger.writers_published]
    rfl
  have hmem : ∀ {c a}, Event.closed c a ∈ m₂.history ↔ .closed c a ∈ m.history := by
    intro c a
    show _ ∈ m.history ++ [_] ↔ _
    simp
  have hcommitted : ∀ j, m₂.Committed j ↔ m.Committed j := by
    intro j
    simp only [Machine.Committed, hmem]
  -- the writer still took calls, so that it has not ended and no other call has published it
  have hended : ∀ {j}, (m.repository.writer j).phase = .ended → j ≠ id := by
    rintro j hj rfl
    rw [hw] at hj
    exact Phase.noConfusion hj
  have hcases : ∀ {j rest errors}, (m₂.closing j).progress = .telling rest errors →
      j = k ∧ errors = [] ∨
        (m.closing j).progress = .telling rest errors ∧ (m.closing j).writer ≠ id := by
    intro j rest' errors hj
    have hclosing : m₂.closing j = if j = k then
        { m.closing k with progress := .telling rest [] } else m.closing j :=
      Machine.closing_closingAt (m := m₁) hk _ j
    rw [hclosing] at hj
    split at hj
    · rename_i hjk
      cases hj
      exact .inl ⟨hjk, rfl⟩
    · refine .inr ⟨hj, fun he => ?_⟩
      have hcom := (h.telling hj).1
      rw [he, hw] at hcom
      exact Phase.noConfusion hcom
  show Settled m₂
  refine ⟨?_, ?_, ?_, ?_, ?_, ?_⟩
  · rw [hledger, List.nodup_append_comm]
    exact List.nodup_cons.mpr ⟨h.idle hw, h.nodup⟩
  · intro j
    rw [hledger, List.mem_append, List.mem_singleton, h.mem j, hphase, hcommitted]
    by_cases hj : j = id
    · simp [hj]
    · simp [hj]
  · intro j _ _ hj
    rw [hphase, (haim j).1, (haim j).2]
    rcases hcases hj with ⟨rfl, rfl⟩ | ⟨hj, hne⟩
    · exact ⟨if_pos rfl, hc, fun x hx => absurd hx List.not_mem_nil⟩
    · rw [if_neg hne]
      exact h.telling hj
  · intro i j _ _ _ _ hi hj hij
    rw [(haim i).1, (haim j).1] at hij
    rcases hcases hi with ⟨rfl, -⟩ | ⟨hi, hnei⟩
    · rcases hcases hj with ⟨rfl, -⟩ | ⟨-, hnej⟩
      · rfl
      · exact absurd hij.symm hnej
    · rcases hcases hj with ⟨rfl, -⟩ | ⟨hj, -⟩
      · exact absurd hij hnei
      · exact h.alone hi hj hij
  · intro c a hca ha
    obtain ⟨hlt, hend⟩ := h.ended (hmem.mp hca) ha
    rw [hphase, if_neg (hended hend)]
    exact ⟨hlt.trans_eq (List.length_set).symm, hend⟩
  · intro j hf
    simp only [Machine.Fruitless, hmem] at hf
    rw [hledger, List.mem_append, List.mem_singleton, not_or]
    exact ⟨h.fruitless hf, hended (h.ended_of_fruitless hf)⟩

/-- A call has ended a writer and answers; the writer has published exactly if the call committed
and says so. -/
theorem concluding (h : Settled m) (c : Closing) (a : Outcome Unit) {s : Repository}
    (hlen : s.writers.length = m.repository.writers.length)
    (hphase : ∀ j, (s.writer j).phase =
      if j = c.writer then .ended else (m.repository.writer j).phase)
    (hlt : c.writer < m.repository.writers.length)
    (hnone : ∀ {k rest errors}, (m.closing k).progress = .telling rest errors →
      (m.closing k).writer ≠ c.writer)
    (ha : a ≠ .error .transactionClosed)
    (hmem : c.writer ∈ m.ledger.writers ↔ c.publishes = true ∧ Published a) :
    Settled ({ m with repository := s }.note (.closed c a)) := by
  let m₁ : Machine := { m with repository := s }.note (.closed c a)
  have hledger : m₁.ledger = m.ledger := Ledger.ofHistory_quiet rfl m.history
  have hhist : ∀ {c' a'}, Event.closed c' a' ∈ m₁.history ↔
      .closed c' a' ∈ m.history ∨ c' = c ∧ a' = a := by
    intro c' a'
    show _ ∈ m.history ++ [_] ↔ _
    simp
  show Settled m₁
  refine ⟨?_, ?_, ?_, h.alone, ?_, ?_⟩
  · rw [hledger]
    exact h.nodup
  · intro j
    show _ ↔ (s.writer j).phase = .committing ∨ _
    rw [hledger, hphase]
    constructor
    · intro hj
      by_cases hjc : j = c.writer
      · subst hjc
        obtain ⟨hpub, hans⟩ := hmem.mp hj
        exact .inr ⟨c, a, hhist.mpr (.inr ⟨rfl, rfl⟩), rfl, hpub, hans⟩
      · rw [if_neg hjc]
        rcases (h.mem j).mp hj with hcom | ⟨c', a', hc, hrest⟩
        · exact .inl hcom
        · exact .inr ⟨c', a', hhist.mpr (.inl hc), hrest⟩
    · intro hx
      rcases hx with hcom | ⟨c', a', hc, rfl, hpub, hans⟩
      · split at hcom
        · exact Phase.noConfusion hcom
        · exact (h.mem j).mpr (.inl hcom)
      · rcases hhist.mp hc with hc | ⟨rfl, rfl⟩
        · exact (h.mem _).mpr (.inr ⟨c', a', hc, rfl, hpub, hans⟩)
        · exact hmem.mpr ⟨hpub, hans⟩
  · intro k _ _ hk
    show (s.writer (m.closing k).writer).phase = .committing ∧ _
    rw [hphase, if_neg (hnone hk)]
    exact h.telling hk
  · intro c' a' hc ha'
    show c'.writer < s.writers.length ∧ (s.writer c'.writer).phase = .ended
    rw [hphase, hlen]
    rcases hhist.mp hc with hc | ⟨rfl, rfl⟩
    · obtain ⟨hlt', hend⟩ := h.ended hc ha'
      refine ⟨hlt', ?_⟩
      split
      · rfl
      · exact hend
    · exact ⟨hlt, if_pos rfl⟩
  · intro j hf hj
    rw [hledger] at hj
    obtain ⟨c', a', hc, rfl, hca⟩ := hf
    rcases hhist.mp hc with hc | ⟨rfl, rfl⟩
    · exact h.fruitless ⟨c', a', hc, rfl, hca⟩ hj
    · obtain ⟨hpub, hans⟩ := hmem.mp hj
      rcases hca with ⟨hca, -⟩ | hca
      · rw [hpub] at hca
        exact Bool.noConfusion hca
      · exact hans.1 hca

/-- A call finds that its writer was ended before. -/
theorem late (h : Settled m) (c : Closing) :
    Settled (m.note (.closed c (.error .transactionClosed))) := by
  let m₁ := m.note (.closed c (.error .transactionClosed))
  have hledger : m₁.ledger = m.ledger := Ledger.ofHistory_quiet rfl m.history
  have hold : ∀ {c' a'}, Event.closed c' a' ∈ m₁.history → a' ≠ .error .transactionClosed →
      .closed c' a' ∈ m.history := by
    intro c' a' hc ha
    rcases List.mem_append.mp hc with hc | hc
    · exact hc
    · cases List.mem_singleton.mp hc
      exact absurd rfl ha
  show Settled m₁
  refine ⟨?_, ?_, h.telling, h.alone, fun hc ha => h.ended (hold hc ha) ha, ?_⟩
  · rw [hledger]
    exact h.nodup
  · intro j
    rw [hledger, h.mem j]
    refine or_congr_right ⟨?_, ?_⟩
    · intro hx
      obtain ⟨c', a', hc, hrest⟩ := hx
      exact ⟨c', a', List.mem_append_left _ hc, hrest⟩
    · intro hx
      obtain ⟨c', a', hc, hid, hpub, hans⟩ := hx
      exact ⟨c', a', hold hc hans.2, hid, hpub, hans⟩
  · intro j hf
    rw [hledger]
    obtain ⟨c', a', hc, hid, hca⟩ := hf
    refine h.fruitless ⟨c', a', hold hc ?_, hid, hca⟩
    rcases hca with hca | rfl
    · exact hca.2
    · nofun

/-- A call has ended a writer that took calls, without publishing. -/
theorem closedUnpublished (h : Settled m) {k : Nat} (hk : k < m.closings.length) {a : Outcome Unit}
    (hw : (m.repository.writer (m.closing k).writer).phase = .working) {s : Repository}
    (hlen : s.writers.length = m.repository.writers.length)
    (hphase : ∀ j, (s.writer j).phase =
      if j = (m.closing k).writer then .ended else (m.repository.writer j).phase)
    (ha : a ≠ .error .transactionClosed) (hpub : ¬ ((m.closing k).publishes = true ∧ Published a)) :
    Settled (({ m with repository := s }.closingAt k (.ended a)).note
      (.closed (m.closing k) a)) := by
  have h₁ : Settled (m.closingAt k (.ended a)) := h.closingAt hk Ending.noConfusion
  refine h₁.concluding (m.closing k) a hlen hphase (lt_of_working hw)
    (fun {j _ _} hj he => ?_) ha (iff_of_false (h.idle hw) hpub)
  have hcom : (m.repository.writer ((m.closingAt k (.ended a)).closing j).writer).phase
      = .committing := (h₁.telling hj).1
  rw [he, hw] at hcom
  exact Phase.noConfusion hcom

/-- A commit has told the backing everything. -/
theorem finish (h : Settled m) {k : Nat} (hk : k < m.closings.length) {errors : List Error}
    (hp : (m.closing k).progress = .telling [] errors) :
    Settled (({ m with repository := m.repository.concluding (m.closing k).writer }.closingAt k
      (.ended (verdict errors))).note (.closed (m.closing k) (verdict errors))) := by
  obtain ⟨hcom, hpub, hrep⟩ := h.telling hp
  have hans := published_verdict hrep
  have h₁ : Settled (m.closingAt k (.ended (verdict errors))) :=
    h.closingAt hk Ending.noConfusion
  refine h₁.concluding (m.closing k) (verdict errors) (length_writers_concluding _ _)
    (phase_concluding _ _) (lt_of_committing hcom) (fun {j _ _} hj he => ?_)
    hans.2 (iff_of_true ((h.mem _).mpr (.inl hcom)) ⟨hpub, hans⟩)
  -- another call that tells the backing about this writer would be this one, which is over
  rw [Machine.closing_closingAt hk] at hj he
  split at hj
  · exact Ending.noConfusion hj
  · rename_i hjk
    rw [if_neg hjk] at he
    exact hjk (h.alone hj hp he)

theorem closing (h : Settled m) (hs : ClosingStep m m') : Settled m' := by
  cases hs with
  | begin hc => exact h.closingBegun hc
  | @interrupt k hk hp f hf =>
    have h₁ := h.revise (m.closing k).writer (hf _).1
    exact h₁.closingAt hk Ending.noConfusion
  | publish hk hp hc hw ho rest host =>
    exact (h.publishing hk hc hw rest).steady rfl rfl rfl fun _ => rfl
  | refuse hk hp hc hw ho =>
    exact h.closedUnpublished hk hw (length_writers_concluding _ _) (phase_concluding _ _)
      nofun fun hpub => hpub.2.1 rfl
  | @dismiss k hk hp hc hw =>
    refine h.closedUnpublished hk hw (length_writers_discarding _ _) (phase_discarding _ _) nofun
      fun hpub => ?_
    rw [hc] at hpub
    exact Bool.noConfusion hpub.1
  | late hk hp hw => exact (h.closingAt hk Ending.noConfusion).late _
  | @tell k hk t rest errors hp more hm host =>
    obtain ⟨-, -, hrep⟩ := h.telling hp
    refine Settled.steady (h.closingAt hk (p := .telling rest (errors ++ more)) ?_) rfl rfl rfl
      fun _ => rfl
    intro rest' errors' he
    cases he
    refine ⟨?_, _, _, hp⟩
    intro x hx
    rcases List.mem_append.mp hx with hx | hx
    · exact hrep x hx
    · exact hm x hx
  | finish hk hp => exact h.finish hk hp

theorem start (c : Collections) (host : Host) : Settled (Machine.start c host) := by
  have hhist : ∀ {e}, e ∉ (Machine.start c host).history := List.not_mem_nil
  refine ⟨List.nodup_nil, ?_, fun {k _ _} hk => Ending.noConfusion hk,
    fun {j _ _ _ _ _} hj => Ending.noConfusion hj, fun hc => absurd hc hhist, ?_⟩
  · intro id
    refine iff_of_false List.not_mem_nil ?_
    intro hx
    rcases hx with hp | ⟨c, a, hc, -⟩
    · exact Phase.noConfusion hp
    · exact hhist hc
  · rintro id ⟨c, a, hc, -⟩
    exact absurd hc hhist

theorem run (c : Collections) (host : Host) (moves : List Move) :
    Settled ((Machine.start c host).run moves) :=
  Machine.run_induction request visit closing _ (start c host) moves

end Settled

end TripleStore
