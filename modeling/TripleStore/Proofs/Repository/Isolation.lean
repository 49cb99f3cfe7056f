import TripleStore.Proofs.Repository.Stores

/-!
# Isolation of readers

A reader answers until it is cancelled as it did when it began, and a sequence holds what it held
when it was given out, whatever callers do in the meantime.  Both rest on the stores that can be
read and those that can be written being apart.

* `Steady`: what readers and sequences see stays as it is; with one lemma for each kind of step.
* `Request.reply`: what a request would be answered.
* `Machine.isolation`: **readers and sequences answer the same** at any later time.
-/

namespace TripleStore

open Repository

/-! ### What stays as it is -/

/-- A reader was cancelled. -/
def Machine.Cancelled (m : Machine) (id : Nat) : Prop :=
  Event.answered (.cancelReader id) (.ok .done) ∈ m.history

/-- From one machine to a later one, what the directory of a reader or of a sequence stands for
stays as it is, a reader until it is cancelled. -/
structure Steady (m m' : Machine) : Prop where
  history : ∀ e ∈ m.history, e ∈ m'.history
  sequences : ∀ q ∈ m.sequences, q ∈ m'.sequences
  search : ∀ {d p}, .search d p ∈ m.sequences → ∀ name,
    d.find m'.repository.stores name = d.find m.repository.stores name
  readers : m.repository.readers.length ≤ m'.repository.readers.length
  reader : ∀ id < m.repository.readers.length, m'.Cancelled id ∨
    m'.repository.reader id = m.repository.reader id ∧ ∀ name,
      (m.repository.reader id).directory.find m'.repository.stores name =
        (m.repository.reader id).directory.find m.repository.stores name

namespace Steady

variable {m m' m'' : Machine}

theorem refl (m : Machine) : Steady m m :=
  ⟨fun _ he => he, fun _ hq => hq, fun _ _ => rfl, le_rfl, fun _ _ => .inr ⟨rfl, fun _ => rfl⟩⟩

theorem trans (h : Steady m m') (h' : Steady m' m'') : Steady m m'' := by
  refine ⟨fun e he => h'.history e (h.history e he), fun q hq => h'.sequences q (h.sequences q hq),
    ?_, h.readers.trans h'.readers, ?_⟩
  · intro d p hq name
    rw [h'.search (h.sequences _ hq), h.search hq]
  · intro id hid
    rcases h.reader id hid with hc | ⟨he, hf⟩
    · exact .inl (h'.history _ hc)
    · rcases h'.reader id (hid.trans_le h.readers) with hc | ⟨he', hf'⟩
      · exact .inl hc
      · refine .inr ⟨he'.trans he, fun name => ?_⟩
        have := hf' name
        rw [he] at this
        rw [this, hf]

/-- It is enough that stores that are shown stay as they are. -/
theorem of_shown (hist : ∀ e ∈ m.history, e ∈ m'.history)
    (hseq : ∀ q ∈ m.sequences, q ∈ m'.sequences)
    (hstore : ∀ i, m.Shown i → m'.repository.store i = m.repository.store i)
    (hlen : m.repository.readers.length ≤ m'.repository.readers.length)
    (hread : ∀ id < m.repository.readers.length,
      m'.Cancelled id ∨ m'.repository.reader id = m.repository.reader id) : Steady m m' := by
  refine ⟨hist, hseq, ?_, hlen, ?_⟩
  · intro d p hq name
    exact Directory.find_congr fun i hl => hstore i (.sequence hq hl)
  · intro id hid
    refine (hread id hid).imp_right fun he => ⟨he, fun name => ?_⟩
    exact Directory.find_congr fun i hl => hstore i (.reader hl)

/-- No store that is shown is touched, and no reader. -/
theorem of_readers (h : Apart m) (extra : List Graph) (events : List Event)
    (hist : m'.history = m.history ++ events) (hseq : ∀ q ∈ m.sequences, q ∈ m'.sequences)
    (hs : m'.repository.stores = m.repository.stores ++ extra)
    (hr : m'.repository.readers = m.repository.readers) : Steady m m' := by
  refine of_shown (fun e he => ?_) hseq (fun i hi => ?_) (by rw [hr]) fun id _ => .inr ?_
  · rw [hist]
    exact List.mem_append_left _ he
  · rw [Repository.store, Repository.store, hs]
    exact getD_append_left (h.shown hi).1 extra .empty
  · rw [Repository.reader, Repository.reader, hr]

/-- A new reader leaves the others as they are. -/
theorem addReader (m : Machine) (r : Reader) (e : Event) :
    Steady m ({ m with repository := m.repository.addReader r }.note e) := by
  refine of_shown (fun _ he => List.mem_append_left _ he) (fun _ hq => hq) (fun _ _ => rfl) ?_
    fun id hid => .inr ?_
  · show m.repository.readers.length ≤ (m.repository.readers ++ [r]).length
    simp
  · show (m.repository.addReader r).reader id = _
    rw [reader_addReader, if_neg (Nat.ne_of_lt hid)]

/-- The end of a reader leaves the others as they are. -/
theorem cancel (m : Machine) (id : Nat) :
    Steady m ({ m with repository := m.repository.putReader id { closed := true } }.note
      (.answered (.cancelReader id) (.ok .done))) := by
  refine of_shown (fun _ he => List.mem_append_left _ he) (fun _ hq => hq) (fun _ _ => rfl)
    List.length_set.ge fun j _ => ?_
  by_cases hj : j = id
  · subst hj
    exact .inl (List.mem_append_right _ List.mem_cons_self)
  · refine .inr ?_
    show (m.repository.putReader id { closed := true }).reader j = _
    rw [reader_putReader, if_neg fun hx => hj hx.1]

/-- A writer that takes calls changes a store that is not shown. -/
theorem edit (h : Apart m) {w : WriteHandle} (hh : .writing w ∈ m.handles)
    (hw : (m.repository.writer w.writer).phase = .working) (g : Graph) (host : Host) (e : Event) :
    Steady m ({ m with repository := m.repository.putStore w.store g, host }.note e) := by
  refine of_shown (fun _ he => List.mem_append_left _ he) (fun _ hq => hq) (fun i hi => ?_) le_rfl
    fun _ _ => .inr rfl
  have hne : i ≠ w.store := fun he => (h.shown hi).2 w hh he.symm hw
  show (m.repository.putStore w.store g).store i = _
  rw [store_putStore, if_neg fun hx => hne hx.1]

theorem request (h : Apart m) (hs : RequestStep m m') : Steady m m' := by
  have hnil := (List.append_nil m.repository.stores).symm
  cases hs with
  | quiet he => exact of_readers h [] [_] rfl (fun _ hq => hq) hnil rfl
  | read he => exact addReader m _ _
  | write he patience => exact of_readers h [] [_] rfl (fun _ hq => hq) hnil rfl
  | close he host => exact of_readers h [] [_] rfl (fun _ hq => hq) hnil rfl
  | patience he id hf => exact of_readers h [] [_] rfl (fun _ hq => hq) hnil rfl
  | cancel id => exact cancel m id
  | collection he ho hl => exact of_readers h [] [_] rfl (fun _ hq => hq) hnil rfl
  | search he p ho =>
    exact of_readers h [] [_] rfl (fun _ hq => List.mem_cons_of_mem _ hq) hnil rfl
  | found he l => exact of_readers h [] [_] rfl (fun _ hq => List.mem_cons_of_mem _ hq) hnil rfl
  | copies he p hw => exact of_readers h _ [_] rfl (fun _ hq => List.mem_cons_of_mem _ hq) rfl rfl
  | edit he hh hw host => exact edit h hh hw _ host _

theorem visit (h : Apart m) (hs : VisitStep m m') : Steady m m' := by
  have hnil := (List.append_nil m.repository.stores).symm
  have hsame := (List.append_nil m.history).symm
  cases hs with
  | begin hv => exact of_readers h [] [] hsame (fun _ hq => hq) hnil rfl
  | move hk hg hp he => exact of_readers h [] [] hsame (fun _ hq => hq) hnil rfl
  | fail hk x hg => exact of_readers h [] [_] rfl (fun _ hq => hq) hnil rfl
  | grant hk waited hg hl => exact of_readers h [] [] hsame (fun _ hq => hq) hnil rfl
  | lose hk x hg => exact of_readers h [] [_] rfl (fun _ hq => hq) hnil rfl
  | keep hk hg hw => exact of_readers h [] [] hsame (fun _ hq => hq) hnil rfl
  | reopen hk hg hw hl => exact of_readers h [] [_] rfl (fun _ hq => hq) hnil rfl
  | stage hk hg hw hl => exact of_readers h [_] [_] rfl (fun _ hq => hq) rfl rfl
  | unstage hk hg hw => exact of_readers h [] [_] rfl (fun _ hq => hq) hnil rfl

theorem closing (h : Apart m) (hs : ClosingStep m m') : Steady m m' := by
  have hnil := (List.append_nil m.repository.stores).symm
  have hsame := (List.append_nil m.history).symm
  cases hs with
  | begin hc => exact of_readers h [] [] hsame (fun _ hq => hq) hnil rfl
  | interrupt hk hp hf => exact of_readers h [] [] hsame (fun _ hq => hq) hnil rfl
  | publish hk hp hc hw ho rest host => exact of_readers h [] [_] rfl (fun _ hq => hq) hnil rfl
  | refuse hk hp hc hw ho => exact of_readers h [] [_] rfl (fun _ hq => hq) hnil rfl
  | dismiss hk hp hc hw => exact of_readers h [] [_] rfl (fun _ hq => hq) hnil rfl
  | late hk hp hw => exact of_readers h [] [_] rfl (fun _ hq => hq) hnil rfl
  | tell hk hp hm host => exact of_readers h [] [] hsame (fun _ hq => hq) hnil rfl
  | finish hk hp => exact of_readers h [] [_] rfl (fun _ hq => hq) hnil rfl

/-- After any moves, readers and sequences see what they saw before. -/
theorem run (h : Apart m) (moves : List Move) : Steady m (m.run moves) := by
  have hboth : Apart (m.run moves) ∧ Steady m (m.run moves) :=
    Machine.run_induction (P := fun m' => Apart m' ∧ Steady m m')
      (fun hp hs => ⟨hp.1.request hs, hp.2.trans (request hp.1 hs)⟩)
      (fun hp hs => ⟨hp.1.visit hs, hp.2.trans (visit hp.1 hs)⟩)
      (fun hp hs => ⟨hp.1.closing hs, hp.2.trans (closing hp.1 hs)⟩) m ⟨h, refl m⟩ moves
  exact hboth.2

end Steady

/-! ### Sequences -/

/-- A search finds the same where its directory stands for the same collections. -/
theorem Sequence.drainAlong_congr {d d' : Directory} (p : Pattern)
    {stores stores' : Iri → List Graph} (hn : d.names = d'.names)
    (h : ∀ name, d.find (stores name) name = d'.find (stores' name) name) :
    (Sequence.search d p).drainAlong stores = (Sequence.search d' p).drainAlong stores' := by
  rw [drainAlong, drainAlong, hn]
  refine congrArg (fun f => d'.names.flatMap f) (funext fun name => ?_)
  rw [Directory.matching, Directory.matching, h name]

/-- **A sequence that was given out is fixed**: it holds the same however late it is drained, and
also when others move while it is being drained. -/
theorem Steady.drainAlong {m : Machine} (h : Apart m) {q : Sequence} (hq : q ∈ m.sequences)
    (later : Iri → List Move) :
    q.drainAlong (fun name => (m.run (later name)).repository.stores)
      = q.drain m.repository.stores := by
  cases q with
  | found l => rfl
  | search d p =>
    exact Sequence.drainAlong_congr p rfl fun name => (Steady.run h (later name)).search hq name

/-! ### Answers -/

namespace Request

/-- What a request is answered; nothing if it has to wait. -/
def reply (r : Request) (w : World) : Option (Outcome Answer) :=
  match r.act.run w with
  | .ok a _ => some (.ok a)
  | .error (.failed x) _ => some (.error x)
  | .error .waiting _ => none

/-- Whether a request asks something of a reader or of a collection that it opened. -/
def isReading (id : Nat) : Request → Bool
  | .readerCollections i => i = id
  | .readerCollection i _ => i = id
  | .readerMatch i _ => i = id
  | .inquire (.reading h) _ => h.reader = id
  | _ => false

theorem reply_eq_ok {r : Request} {w : World} {a : Answer} :
    r.reply w = some (.ok a) ↔ ∃ w', r.act.run w = .ok a w' := by
  rw [reply]
  rcases r.act.run w with ⟨b, w'⟩ | ⟨x, w'⟩
  · simp
  · cases x <;> simp

/-- The requests that are asked of a reader or of a collection that it opened. -/
theorem isReading_cases {r : Request} {id : Nat} (hr : r.isReading id) :
    r = .readerCollections id ∨ (∃ name, r = .readerCollection id name) ∨
      (∃ p, r = .readerMatch id p) ∨ ∃ h q, r = .inquire (.reading h) q ∧ h.reader = id := by
  cases r with
  | readerCollections i => exact .inl (congrArg _ (of_decide_eq_true hr))
  | readerCollection i name =>
    obtain rfl : i = id := of_decide_eq_true hr
    exact .inr (.inl ⟨name, rfl⟩)
  | readerMatch i p =>
    obtain rfl : i = id := of_decide_eq_true hr
    exact .inr (.inr (.inl ⟨p, rfl⟩))
  | inquire h q =>
    cases h with
    | reading h => exact .inr (.inr (.inr ⟨h, q, rfl, of_decide_eq_true hr⟩))
    | writing h => cases hr
  | _ => cases hr

/-- An inquiry gives out no search that goes on later. -/
theorem inquire_ne_search {h : Handle} {q : Inquiry} {w w' : World} {d : Directory} {p : Pattern} :
    (Request.inquire h q).act.run w ≠ .ok (.sequence (.search d p)) w' := by
  intro hrun
  rw [act, Inquiry.act_run] at hrun
  rcases enter_cases w h with hx | ⟨y, hx⟩
  · rw [hx] at hrun
    cases q <;> cases hrun
  · rw [hx] at hrun
    cases hrun

/-- A search that a reader gives out goes over what the reader sees. -/
theorem search_of_isReading {r : Request} {id : Nat} {w w' : World} {d : Directory} {p : Pattern}
    (hr : r.isReading id) (h : r.act.run w = .ok (.sequence (.search d p)) w') :
    w' = w ∧ d = (w.repository.reader id).directory := by
  rcases isReading_cases hr with rfl | ⟨name, rfl⟩ | ⟨q, rfl⟩ | ⟨x, q, rfl, -⟩
  · cases hc : (w.repository.reader id).closed <;> simp [act, readerCollections_run, hc] at h
  · cases hc : (w.repository.reader id).closed with
    | true => simp [act, readerCollection_run, hc] at h
    | false =>
      cases hl : (w.repository.reader id).directory.lookup name <;>
        simp [act, readerCollection_run, hc, hl] at h
  · cases hc : (w.repository.reader id).closed with
    | true => simp [act, readerMatch_run, hc] at h
    | false =>
      simp only [act, bind_pure_comp, run_map, readerMatch_run, hc] at h
      cases h
      exact ⟨rfl, rfl⟩
  · exact absurd h inquire_ne_search

end Request

namespace Machine

variable {m : Machine} {r : Request}

theorem step_ask (hr : r.isFounded m.handles m.sequences) : m.step (.ask r) = m.answer r := by
  rw [step, if_pos hr]

/-- A sequence that is an answer is given out. -/
theorem mem_sequences_of_reply (hr : r.isFounded m.handles m.sequences) {q : Sequence}
    (hq : r.reply m.toWorld = some (.ok (.sequence q))) : q ∈ (m.step (.ask r)).sequences := by
  obtain ⟨w, hrun⟩ := Request.reply_eq_ok.mp hq
  rw [step_ask hr, answer_ok hrun]
  exact List.mem_cons_self

/-- What a handle for reading stands for, while its reader sees the same. -/
theorem store_eq_of_find {m m' : Machine} {h : ReadHandle} {d : Directory}
    (hl : d.lookup h.name = some h.store)
    (hf : ∀ name, d.find m'.repository.stores name = d.find m.repository.stores name) :
    m'.repository.store h.store = m.repository.store h.store := by
  have hname := hf h.name
  rw [Directory.find, Directory.find, hl] at hname
  exact Option.some.inj hname

/-- A reader that sees the same answers the same. -/
theorem reply_eq_of_reader {m m' : Machine} (h : Apart m') {id : Nat}
    (hopen : (m.repository.reader id).closed = false)
    (he : m'.repository.reader id = m.repository.reader id)
    (hf : ∀ name, (m.repository.reader id).directory.find m'.repository.stores name =
      (m.repository.reader id).directory.find m.repository.stores name)
    (hr : r.isReading id) (hfound : r.isFounded m'.handles m'.sequences) :
    r.reply m'.toWorld = r.reply m.toWorld := by
  have hopen' : (m'.repository.reader id).closed = false := he ▸ hopen
  rcases Request.isReading_cases hr with rfl | ⟨name, rfl⟩ | ⟨p, rfl⟩ | ⟨w, q, rfl, rfl⟩
  · simp [Request.reply, Request.act, readerCollections_run, he, hopen]
  · cases hl : (m.repository.reader id).directory.lookup name <;>
      simp [Request.reply, Request.act, readerCollection_run, he, hopen, hl]
  · simp [Request.reply, Request.act, readerMatch_run, he, hopen]
  · -- the handle still leads to the store that the reader's directory has for its name
    have hmem : Handle.reading w ∈ m'.handles := by simpa [Request.isFounded] using hfound
    have hl := (h.window hmem).2 hopen'
    rw [he] at hl
    have hstore : m'.repository.store w.store = m.repository.store w.store :=
      store_eq_of_find hl hf
    simp [Request.reply, Request.act, Inquiry.act_run, enter_reading_run, hopen, hopen',
      Handle.store, hstore]

/-- What a transaction for reading sees when it has begun. -/
theorem step_read {p : Patience} {id : Nat}
    (hr : (Request.read p).reply m.toWorld = some (.ok (.transaction id))) :
    ((m.step (.ask (.read p))).repository.reader id).closed = false ∧
      id < (m.step (.ask (.read p))).repository.readers.length := by
  obtain ⟨w, hrun⟩ := Request.reply_eq_ok.mp hr
  rw [step_ask rfl, answer_ok hrun]
  rcases read_run m.toWorld p with ⟨x, hx⟩ | hx
  · simp [Request.act, hx] at hrun
  · simp only [Request.act, run_map, hx, EStateM.Result.ok.injEq, Answer.transaction.injEq,
      bind_pure_comp] at hrun
    obtain ⟨rfl, rfl⟩ := hrun
    constructor
    · show ((m.repository.addReader { directory := m.repository.published }).reader
        m.repository.readers.length).closed = false
      rw [reader_addReader, if_pos rfl]
    · show m.repository.readers.length < (m.repository.readers ++ [_]).length
      simp

/-- The sequences that a reader gives out hold what they held when the reader began, however late
they are drained. -/
theorem drainAlong_reader {m m' : Machine} (h : Apart m') {id : Nat}
    (he : m'.repository.reader id = m.repository.reader id)
    (hf : ∀ name, (m.repository.reader id).directory.find m'.repository.stores name =
      (m.repository.reader id).directory.find m.repository.stores name)
    (hr : r.isReading id) (hfound : r.isFounded m'.handles m'.sequences) {q : Sequence}
    (hq : r.reply m'.toWorld = some (.ok (.sequence q))) (later : Iri → List Move) :
    q.drainAlong (fun name => ((m'.step (.ask r)).run (later name)).repository.stores)
      = q.drain m.repository.stores := by
  have hmem := mem_sequences_of_reply hfound hq
  have happart : Apart (m'.step (.ask r)) := h.after [.ask r]
  rw [Steady.drainAlong happart hmem later]
  cases q with
  | found l => rfl
  | search d p =>
    refine Sequence.drainAlong_congr p rfl fun name => ?_
    obtain ⟨w, hrun⟩ := Request.reply_eq_ok.mp hq
    obtain ⟨rfl, rfl⟩ := Request.search_of_isReading hr hrun
    rw [step_ask hfound, answer_ok hrun]
    show (m'.repository.reader id).directory.find m'.repository.stores name = _
    rw [he]
    exact hf name

/-- The search of a writer finds what the writer sees when it is called. -/
theorem drain_writerMatch (h : Apart m) {id : Nat} {p : Pattern} {q : Sequence}
    (hq : (Request.writerMatch id p).reply m.toWorld = some (.ok (.sequence q))) :
    q.drain (m.step (.ask (.writerMatch id p))).repository.stores =
      (Sequence.search (m.repository.published.amended (m.repository.writer id).deleted
        (m.repository.writer id).staged) p).drain m.repository.stores := by
  obtain ⟨w, hrun⟩ := Request.reply_eq_ok.mp hq
  rw [step_ask rfl, answer_ok hrun]
  rcases writerMatch_run m.toWorld id p with ⟨x, hx⟩ | ⟨-, hx⟩
  · simp [Request.act, hx] at hrun
  simp only [Request.act, bind_pure_comp, run_map, hx] at hrun
  cases hrun
  show Sequence.drain (m.repository.copying (m.repository.writer id)).stores _ = _
  refine Sequence.drainAlong_congr p (Directory.names_amended_numbered _ _ _ _) fun name => ?_
  have hpub : m.repository.published.find
      (m.repository.copying (m.repository.writer id)).stores name
        = m.repository.published.find m.repository.stores name :=
    Directory.find_congr fun i hl => getD_append_left (h.shown (.published hl)).1 _ _
  have hown := Directory.find_numbered m.repository.store (m.repository.writer id).staged
    m.repository.stores name
  rw [Directory.find_amended, Directory.find_amended, hpub]
  exact congrArg (Option.or · _) hown

/-- The search of a collection finds what is in its store when it is called. -/
theorem reply_search {x : Handle} {p : Pattern} {q : Sequence}
    (hq : (Request.inquire x (.search p)).reply m.toWorld = some (.ok (.sequence q))) :
    q = .found (matchIn x.name (m.repository.store x.store) p) := by
  obtain ⟨w, hrun⟩ := Request.reply_eq_ok.mp hq
  rw [Request.act, Inquiry.act_run] at hrun
  rcases enter_cases m.toWorld x with hx | ⟨y, hx⟩
  · rw [hx] at hrun
    cases hrun
    rfl
  · rw [hx] at hrun
    cases hrun

/-- **Isolation.**  Whatever callers have done before and do later:

* a reader, and every collection that it opened, answers a request until the reader is cancelled as
  it would have when the reader began, and a sequence that is such an answer holds what it would
  have held then, however late it is drained and whatever others do while it is drained;
* every sequence holds what it held when it was given out;
* the search of a writer finds what the writer sees at the call, and the search of a collection
  finds what is in its store at the call. -/
theorem isolation (c : Collections) (host : Host) (moves : List Move) :
    let m := (start c host).run moves
    (∀ patience id, (Request.read patience).reply m.toWorld = some (.ok (.transaction id)) →
      let m₀ := m.step (.ask (.read patience))
      ∀ later, ¬ (m₀.run later).Cancelled id → ∀ r : Request, r.isReading id →
        r.isFounded (m₀.run later).handles (m₀.run later).sequences →
        r.reply (m₀.run later).toWorld = r.reply m₀.toWorld ∧
          ∀ q, r.reply (m₀.run later).toWorld = some (.ok (.sequence q)) →
            ∀ after : Iri → List Move, q.drainAlong (fun name =>
              (((m₀.run later).step (.ask r)).run (after name)).repository.stores)
                = q.drain m₀.repository.stores) ∧
    (∀ r : Request, r.isFounded m.handles m.sequences → ∀ q,
      r.reply m.toWorld = some (.ok (.sequence q)) → ∀ after : Iri → List Move,
        q.drainAlong (fun name => ((m.step (.ask r)).run (after name)).repository.stores)
          = q.drain (m.step (.ask r)).repository.stores) ∧
    (∀ id p q, (Request.writerMatch id p).reply m.toWorld = some (.ok (.sequence q)) →
      q.drain (m.step (.ask (.writerMatch id p))).repository.stores =
        (Sequence.search (m.repository.published.amended (m.repository.writer id).deleted
          (m.repository.writer id).staged) p).drain m.repository.stores) ∧
    ∀ x p q, (Request.inquire x (.search p)).reply m.toWorld = some (.ok (.sequence q)) →
      q = .found (matchIn x.name (m.repository.store x.store) p) := by
  intro m
  have hm : Apart m := Apart.run c host moves
  have hstep : ∀ r, Apart (m.step (.ask r)) := fun r => hm.after [.ask r]
  refine ⟨?_, ?_, fun id p q => drain_writerMatch hm, fun x p q => reply_search⟩
  · intro patience id hread m₀ later hc r hr hfound
    obtain ⟨hopen, hid⟩ := step_read hread
    have hlater : Apart (m₀.run later) := (hstep _).after later
    obtain ⟨he, hf⟩ := ((Steady.run (hstep _) later).reader id hid).resolve_left hc
    exact ⟨reply_eq_of_reader hlater hopen he hf hr hfound,
      fun q hq after => drainAlong_reader hlater he hf hr hfound hq after⟩
  · intro r hfound q hq after
    exact Steady.drainAlong (hstep r) (mem_sequences_of_reply hfound hq) after

end Machine

end TripleStore
