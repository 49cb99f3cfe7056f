import TripleStore.Archive.Basic
import TripleStore.Proofs.Database.Basic
import TripleStore.Proofs.Graph.Basic
import TripleStore.Proofs.Steps

/-!
# The writes of saving and deleting

What is done to save or delete a collection is followed step by step.  Each step either ends well
and has made certain writes in its transaction, or fails and has made no difference to the database;
only the commit at the end brings the writes there.

* `Archive.Writes` says this of a step; `Writes.bind` and `Writes.each` put steps together.
* `Archive.saveWrites` and `Archive.deleteWrites` are all writes of saving and deleting.
* `Archive.replace_commits` and `Archive.discard_commits`: **exactly these come to the database**,
  also when others have committed since the transaction began.
* `Archive.save_cases` and `Archive.delete_cases`: the same for a transaction of its own.
-/

namespace TripleStore

theorem Table.code_injective : Function.Injective Table.code := by
  intro a b h
  cases a <;> cases b <;> first | rfl | exact absurd h (by decide)

/-- A key, and the value that is written to it or none if it is erased. -/
abbrev Write := Text × Option Text

namespace Archive

variable {α β : Type} {s s' : Session} {ws us : List Write}

theorem doing_run (what : Text) (w : Work α) (s : Session) :
    (doing what w).run s = match w.run s with
      | .ok a s' => .ok a s'
      | .error e s' => .error (.within what e) s' := rfl

/-! ### Steps that write -/

/-- From one session to the next some writes were made, and nothing came to the database. -/
structure Adds (s s' : Session) (ws : List Write) : Prop where
  log : s'.transaction.log = s.transaction.log ++ ws
  snapshot : s'.transaction.snapshot = s.transaction.snapshot
  database : s'.medium.database = s.medium.database

theorem Adds.refl (s : Session) : Adds s s [] := ⟨(List.append_nil _).symm, rfl, rfl⟩

theorem Adds.trans {s'' : Session} (h : Adds s s' ws) (h' : Adds s' s'' us) :
    Adds s s'' (ws ++ us) := by
  refine ⟨?_, h'.snapshot.trans h.snapshot, h'.database.trans h.database⟩
  rw [h'.log, h.log, List.append_assoc]

/-- What a transaction sees after more writes. -/
theorem Adds.view (h : Adds s s' ws) :
    s'.transaction.view = ws.foldl Entries.apply s.transaction.view := by
  rw [Transaction.view_eq, h.log, h.snapshot, List.foldl_append, ← Transaction.view_eq]

/-- A step that ends well with such an answer when it has made such writes, or fails; then the
database is as it was. -/
def Writes (s : Session) (w : Work α) (ws : List Write) (R : α → Prop) : Prop :=
  match w.run s with
  | .ok a s' => R a ∧ Adds s s' ws
  | .error _ s' => s'.medium.database = s.medium.database

namespace Writes

variable {w : Work α} {R : α → Prop}

theorem of_ok {a : α} {t : Session} (hw : w.run s = .ok a t) (hR : R a) (h : Adds s t ws) :
    Writes s w ws R := by
  rw [Writes, hw]
  exact ⟨hR, h⟩

theorem of_error {e : Error} {t : Session} (hw : w.run s = .error e t)
    (h : t.medium.database = s.medium.database) : Writes s w ws R := by
  rw [Writes, hw]
  exact h

theorem pure {a : α} (hR : R a) : Writes s (pure a) [] R := of_ok rfl hR (.refl s)

theorem throw (e : Error) : Writes s (throw e : Work α) ws R := of_error rfl rfl

theorem mono {Q : α → Prop} (h : Writes s w ws R) (hR : ∀ a, R a → Q a) : Writes s w ws Q := by
  rw [Writes] at *
  cases hw : w.run s with
  | ok a s' =>
    rw [hw] at h
    exact ⟨hR a h.1, h.2⟩
  | error e s' =>
    rw [hw] at h
    exact h

theorem bind {f : α → Work β} {Q : β → Prop} (h : Writes s w ws R)
    (hf : ∀ a s', R a → Adds s s' ws → Writes s' (f a) us Q) :
    Writes s (w >>= f) (ws ++ us) Q := by
  rw [Writes, EStateM.run_bind]
  rw [Writes] at h
  cases hw : w.run s with
  | error e s' =>
    rw [hw] at h
    exact h
  | ok a s' =>
    rw [hw] at h
    have hs := hf a s' h.1 h.2
    rw [Writes] at hs
    show match (f a).run s' with
      | .ok b s'' => Q b ∧ Adds s s'' (ws ++ us)
      | .error _ s'' => s''.medium.database = s.medium.database
    cases hfa : (f a).run s' with
    | ok b s'' =>
      rw [hfa] at hs
      exact ⟨hs.1, h.2.trans hs.2⟩
    | error e s'' =>
      rw [hfa] at hs
      exact hs.trans h.2.database

/-- A step after one that writes nothing. -/
theorem andThen {f : α → Work β} {Q : β → Prop} (h : Writes s w [] R)
    (hf : ∀ a s', R a → Adds s s' [] → Writes s' (f a) us Q) : Writes s (w >>= f) us Q :=
  h.bind hf

/-- A step whose answer is changed at the end. -/
theorem andReturn {f : α → β} {Q : β → Prop} (h : Writes s w ws R) (hf : ∀ a, R a → Q (f a)) :
    Writes s (w >>= fun a => Pure.pure (f a)) ws Q := by
  rw [← List.append_nil ws]
  exact h.bind fun a _ ha _ => pure (hf a ha)

theorem get {f : Session → Work β} {Q : β → Prop} (h : Writes s (f s) ws Q) :
    Writes s (get >>= f) ws Q := h

theorem doing (h : Writes s w ws R) (what : Text) : Writes s (doing what w) ws R := by
  rw [Writes, doing_run]
  rw [Writes] at h
  cases hw : w.run s with
  | ok a s' =>
    rw [hw] at h
    exact h
  | error e s' =>
    rw [hw] at h
    exact h

/-- A loop makes the writes of its steps one after the other. -/
theorem each {l : List β} {f : β → PUnit → Work (ForInStep PUnit)} {u : β → List Write}
    {R : β → Prop}
    (h : ∀ b ∈ l, ∀ s, Writes s (f b ⟨⟩) (u b) fun r => r = .yield ⟨⟩ ∧ R b) (s : Session) :
    Writes s (forIn l ⟨⟩ f) (l.flatMap u) fun _ => ∀ b ∈ l, R b := by
  induction l generalizing s with
  | nil => exact pure fun b hb => absurd hb List.not_mem_nil
  | cons b l ih =>
    rw [List.forIn_cons, List.flatMap_cons]
    refine (h b List.mem_cons_self s).bind ?_
    rintro r s' ⟨rfl, hb⟩ -
    refine (ih (fun c hc => h c (List.mem_cons_of_mem _ hc)) s').mono ?_
    intro _ hl
    exact List.forall_mem_cons.mpr ⟨hb, hl⟩

end Writes

/-! ### Calls on the database -/

theorem fails_database (m : Medium) (c : Call) : (m.fails c).2.database = m.database := by
  rw [Medium.fails]
  split
  · rfl
  · split_ifs <;> rfl

theorem call_writes (c : Call) (s : Session) : Writes s (call c) [] fun _ => True := by
  have hdb := fails_database s.medium c
  cases hf : (s.medium.fails c).1 with
  | true =>
    refine Writes.of_error (e := .injectedFault) (t := ⟨(s.medium.fails c).2, s.transaction⟩) ?_ hdb
    simp [call, hf]
  | false =>
    refine Writes.of_ok (t := ⟨(s.medium.fails c).2, s.transaction⟩) (a := ()) ?_ trivial
      ⟨(List.append_nil _).symm, rfl, hdb⟩
    simp [call, hf]

/-- A call that adds a write, whatever it is. -/
theorem write_writes (c : Call) (key : Text) (value : Option Text) (s : Session) :
    Writes s (do
        call c
        let s ← get
        match s.transaction.write s.medium.database key value with
        | .ok transaction => set { s with transaction }
        | .error e => throw e) [(key, value)] fun _ => True := by
  refine (call_writes c s).andThen fun _ s' _ _ => ?_
  cases hw : s'.transaction.write s'.medium.database key value with
  | error e => exact .of_error (e := e) (t := s') (by simp [hw]) rfl
  | ok tx =>
    have htx := Transaction.write_eq_ok hw
    refine .of_ok (a := ()) (t := { s' with transaction := tx }) (by simp [hw]) trivial ?_
    exact ⟨by rw [htx]; exact List.reverse_cons, by rw [htx], rfl⟩

theorem setKey_writes (table : Table) (key value : Text) (s : Session) :
    Writes s (setKey table key value) [(Table.fullKey table.code key, some value)] fun _ => True :=
  write_writes .set (Table.fullKey table.code key) (some value) s

theorem deleteKey_writes (table : Table) (key : Text) (s : Session) :
    Writes s (deleteKey table key) [(Table.fullKey table.code key, none)] fun _ => True :=
  write_writes .delete (Table.fullKey table.code key) none s

/-- The entries of a table that start with a text, as a scan gives them. -/
def found (e : Entries) (table : Table) (start : Text) : Entries :=
  (e.startingWith (Table.fullKey table.code start)).map fun p => (p.1.drop 1, p.2)

theorem scanKeys_writes (table : Table) (start : Text) (s : Session) :
    Writes s (scanKeys table start) [] (· = found s.transaction.view table start) := by
  refine (call_writes .scan s).andThen fun _ s₁ _ h₁ => ?_
  have hview : s₁.transaction.view = s.transaction.view := h₁.view
  rw [← hview]
  refine Writes.get ?_
  cases hended : s₁.transaction.ended with
  | true =>
    exact .of_error (e := .discarded) (t := s₁) (by simp [Transaction.scan, hended]) rfl
  | false =>
    have hscan := Transaction.noteReads
      (s₁.transaction.view.startingWith (Table.fullKey table.code start))
      (s₁.transaction.noteRead (Table.fullKey table.code start))
    rw [Transaction.log_noteRead, Transaction.snapshot_noteRead] at hscan
    simp only [Transaction.scan, hended, Bool.false_eq_true, if_false, if_true]
    refine Writes.andThen (R := fun _ => True)
      (.of_ok rfl trivial ⟨hscan.1.trans (List.append_nil _).symm, hscan.2, rfl⟩) fun _ s₂ _ _ => ?_
    refine Writes.andThen (R := fun _ => True) ?_ fun _ s₃ _ _ => .pure rfl
    have hloop := Writes.each
      (l := s₁.transaction.view.startingWith (Table.fullKey table.code start))
      (f := fun _ _ => do call .value; pure (.yield ⟨⟩)) (u := fun _ => []) (R := fun _ => True)
      (fun _ _ s => (call_writes .value s).andThen fun _ _ _ _ => .pure ⟨rfl, trivial⟩) s₂
    rw [List.flatMap_eq_nil_iff.mpr fun _ _ => rfl] at hloop
    exact hloop.mono fun _ _ => trivial

/-- Scans of a table do not see writes to other tables. -/
theorem found_foldl_apply {table : Table} {start : Text} {e : Entries}
    (h : ∀ w ∈ ws, w.1.head? ≠ some table.code) :
    found (ws.foldl Entries.apply e) table start = found e table start := by
  rw [found, found, Entries.startingWith_foldl_apply]
  intro w hw hprefix
  obtain ⟨rest, hrest⟩ := hprefix
  refine h w hw ?_
  rw [← hrest]
  rfl

/-! ### Saving and deleting -/

/-- The write that keeps the text of a term. -/
def termWrite (t : Term) : Write :=
  (Table.fullKey Table.terms.code (TermKey.ofTerm t).bytes, some t.render)

/-- The write that keeps the name of a collection. -/
def nameWrite (name : Iri) : Write :=
  (Table.fullKey Table.collections.code (TermKey.ofTerm (.iri name)).bytes, some name)

/-- The write that keeps a node of a collection. -/
def nodeWrite (collection : TermKey) (n : Node) : Write :=
  (Table.fullKey Table.subjects.code (joinKeys [collection, .ofTerm n.toTerm]), some [])

/-- The write that keeps a statement of a collection. -/
def statementWrite (collection : TermKey) (n : Node) (p : Iri) (o : Term) : Write :=
  (Table.fullKey Table.statements.code
    (statementKey collection (.ofTerm n.toTerm) (.ofTerm (.iri p)) (.ofTerm o)), some [])

/-- The writes that keep a pair of a node; one without an object cannot be kept. -/
def pairWrites (collection : TermKey) (n : Node) (pair : Pair) : List Write :=
  termWrite (.iri pair.predicate) :: match pair.object with
    | none => []
    | some o => [termWrite o, statementWrite collection n pair.predicate o]

/-- The writes that keep a node with its pairs. -/
def subjectWrites (collection : TermKey) (g : Graph) : Option Node → List Write
  | none => []
  | some n => [termWrite n.toTerm, nodeWrite collection n]
      ++ ((g.statementsFor (some n)).getD []).flatMap (pairWrites collection n)

/-- The writes that delete what a table keeps of a collection. -/
def clearWrites (e : Entries) (table : Table) (collection : TermKey) : List Write :=
  (found e table collection.bytes).map fun p => (Table.fullKey table.code p.1, none)

/-- The writes that delete the statements and nodes of a collection. -/
def clearAllWrites (e : Entries) (collection : TermKey) : List Write :=
  clearWrites e .statements collection ++ clearWrites e .subjects collection

/-- All writes that save a graph in the place of what some entries keep of a collection. -/
def saveWrites (e : Entries) (name : Iri) (g : Graph) : List Write :=
  [termWrite (.iri name)] ++ (clearAllWrites e (.ofTerm (.iri name))
    ++ ([nameWrite name] ++ g.subjects.flatMap (subjectWrites (.ofTerm (.iri name)) g)))

/-- All writes that delete what some entries keep of a collection. -/
def deleteWrites (e : Entries) (name : Iri) : List Write :=
  clearAllWrites e (.ofTerm (.iri name))
    ++ [(Table.fullKey Table.collections.code (TermKey.ofTerm (.iri name)).bytes, none)]

theorem putTerm_writes (t : Term) (s : Session) :
    Writes s (putTerm (some t)) [termWrite t] (· = TermKey.ofTerm t) :=
  ((setKey_writes .terms (TermKey.ofTerm t).bytes t.render s).doing _).andReturn fun _ _ => rfl

theorem clearTable_writes (table : Table) (collection : TermKey) (s : Session) :
    Writes s (clearTable table collection) (clearWrites s.transaction.view table collection)
      fun _ => True := by
  refine (scanKeys_writes table collection.bytes s).andThen ?_
  rintro _ s₁ rfl h₁
  have hloop := Writes.each (l := found s.transaction.view table collection.bytes)
    (f := fun p _ => do
      doing ("failed to delete from " ++ table.name) (deleteKey table p.1)
      pure (.yield ⟨⟩))
    (u := fun p => [(Table.fullKey table.code p.1, none)]) (R := fun _ => True)
    (fun p _ s => ((deleteKey_writes table p.1 s).doing _).andReturn fun _ _ => ⟨rfl, trivial⟩) s₁
  rw [← List.map_eq_flatMap] at hloop
  exact hloop.andReturn fun _ _ => trivial

theorem putPair_writes (collection : TermKey) (n : Node) (pair : Pair) (s : Session) :
    Writes s (putPair collection (.ofTerm n.toTerm) pair) (pairWrites collection n pair)
      fun _ => pair.object.isSome := by
  obtain ⟨p, o⟩ := pair
  refine (putTerm_writes (.iri p) s).bind ?_
  rintro _ s₁ rfl -
  cases o with
  | none => exact .throw _
  | some o =>
    show Writes s₁ _ ([termWrite o] ++ [statementWrite collection n p o]) _
    refine (putTerm_writes o s₁).bind ?_
    rintro _ s₂ rfl -
    exact ((setKey_writes .statements _ [] s₂).doing _).mono fun _ _ => rfl

theorem putSubject_writes (collection : TermKey) (g : Graph) (n : Node) (s : Session) :
    Writes s (putSubject collection g (some n)) (subjectWrites collection g (some n))
      fun _ => ∀ pair ∈ (g.statementsFor (some n)).getD [], pair.object.isSome := by
  show Writes s _ ([termWrite n.toTerm] ++ ([nodeWrite collection n] ++ _)) _
  refine (putTerm_writes n.toTerm s).bind ?_
  rintro _ s₁ rfl -
  refine ((setKey_writes .subjects _ [] s₁).doing _).bind ?_
  intro _ s₂ _ _
  have hloop := Writes.each (l := (g.statementsFor (some n)).getD [])
    (f := fun pair _ => do
      putPair collection (.ofTerm n.toTerm) pair
      pure (.yield ⟨⟩))
    (u := pairWrites collection n) (R := fun pair => pair.object.isSome)
    (fun pair _ s => (putPair_writes collection n pair s).andReturn fun _ h => ⟨rfl, h⟩) s₂
  exact hloop.andReturn fun _ h => h

theorem clear_writes (collection : TermKey) (s : Session) :
    Writes s (clear collection) (clearAllWrites s.transaction.view collection) fun _ => True := by
  refine (clearTable_writes .statements collection s).bind fun _ s₁ _ h₁ => ?_
  have hsame : clearWrites s₁.transaction.view .subjects collection
      = clearWrites s.transaction.view .subjects collection := by
    rw [clearWrites, h₁.view, found_foldl_apply]
    · rfl
    · intro w hw
      obtain ⟨p, -, rfl⟩ := List.mem_map.mp hw
      exact show some Table.statements.code ≠ some Table.subjects.code by decide
  rw [← hsame]
  exact clearTable_writes .subjects collection s₁

theorem heed_writes (patience : Patience) (s : Session) :
    Writes s (heed patience) [] fun _ => True := by
  rw [heed]
  cases patience.exhausted? with
  | none => exact .pure trivial
  | some e => exact .throw e

/-- A graph in which nothing is missing that a save would look at. -/
structure Whole (g : Graph) : Prop where
  nodes : none ∉ g.nodes
  objects : ∀ n ∈ g.nodes, ∀ pair ∈ (g.statementsFor n).getD [], pair.object.isSome

/-- What a save has done before it commits. -/
def prepare (patience : Patience) (name : Iri) (g : Graph) : Work Unit := do
  let collection ← putTerm (some (.iri name))
  clear collection
  doing "failed to store collection" (setKey .collections collection.bytes name)
  for n in g.subjects do
    heed patience
    putSubject collection g n

theorem replace_eq (patience : Patience) (name : Iri) (g : Graph) :
    replace patience name g = (do
      prepare patience name g
      doing ("failed to commit collection " ++ renderIri name) commit) := by
  simp only [replace, prepare, bind_assoc, pure_bind]

theorem prepare_writes (patience : Patience) (name : Iri) (g : Graph) (s : Session) :
    Writes s (prepare patience name g) (saveWrites s.transaction.view name g)
      fun _ => Whole g := by
  refine (putTerm_writes (.iri name) s).bind ?_
  rintro _ s₁ rfl h₁
  have hfound : ∀ table ≠ Table.terms, ∀ start,
      found s₁.transaction.view table start = found s.transaction.view table start := by
    intro table ht start
    rw [h₁.view, found_foldl_apply]
    intro w hw
    obtain rfl := List.mem_singleton.mp hw
    exact fun h => ht (Table.code_injective (Option.some.inj h)).symm
  have hclear : clearAllWrites s.transaction.view (.ofTerm (.iri name))
      = clearAllWrites s₁.transaction.view (.ofTerm (.iri name)) := by
    rw [clearAllWrites, clearAllWrites, clearWrites, clearWrites, clearWrites, clearWrites,
      hfound .statements (by decide), hfound .subjects (by decide)]
  rw [hclear]
  refine (clear_writes (.ofTerm (.iri name)) s₁).bind fun _ s₂ _ _ => ?_
  refine ((setKey_writes .collections _ name s₂).doing _).bind fun _ s₃ _ _ => ?_
  have hloop := Writes.each (l := g.subjects)
    (f := fun n _ => do
      heed patience
      putSubject (.ofTerm (.iri name)) g n
      pure (.yield ⟨⟩))
    (u := subjectWrites (.ofTerm (.iri name)) g)
    (R := fun n => n.isSome ∧ ∀ pair ∈ (g.statementsFor n).getD [], pair.object.isSome)
    (fun n _ s => (heed_writes patience s).andThen fun _ s _ _ => by
      cases n with
      | none => exact .throw _
      | some n => exact (putSubject_writes _ g n s).andReturn fun _ h => ⟨rfl, rfl, h⟩) s₃
  refine hloop.andReturn fun _ h => ⟨fun hn => ?_, fun n hn => (h n (Graph.mem_subjects.mpr hn)).2⟩
  exact absurd (h none (Graph.mem_subjects.mpr hn)).1 (by decide)

/-! ### Commits -/

/-- A step that ends well when it has made some writes to what the database held, or fails; then the
database is as it was. -/
def Commits (s : Session) (w : Work α) (ws : List Write) (R : Prop) : Prop :=
  match w.run s with
  | .ok _ s' => R ∧ s'.medium.database.entries = ws.foldl Entries.apply s.medium.database.entries
  | .error _ s' => s'.medium.database = s.medium.database

theorem commit_commits (s : Session) : Commits s commit s.transaction.log True := by
  have hcall := call_writes .commit s
  rw [Writes] at hcall
  rw [Commits, commit, EStateM.run_bind]
  cases hc : (call .commit).run s with
  | error e s₁ =>
    rw [hc] at hcall
    exact hcall
  | ok a s₁ =>
    rw [hc] at hcall
    obtain ⟨-, hadds⟩ := hcall
    have hlog : s₁.transaction.log = s.transaction.log :=
      hadds.log.trans (List.append_nil _)
    rcases hcommit : s₁.transaction.commit s₁.medium.database with ⟨answer, db, tx⟩
    rcases Transaction.commit_cases hcommit with ⟨rfl, hdb⟩ | ⟨⟨e, rfl⟩, rfl⟩
    · simp [hcommit]
      rw [hdb, hlog, hadds.database]
    · simp [hcommit]
      exact hadds.database

theorem Commits.doing {w : Work α} {R : Prop} (h : Commits s w ws R) (what : Text) :
    Commits s (doing what w) ws R := by
  rw [Commits, doing_run]
  rw [Commits] at h
  cases hw : w.run s with
  | ok a s' =>
    rw [hw] at h
    exact h
  | error e s' =>
    rw [hw] at h
    exact h

/-- Writes that are committed at the end come to whatever the database holds by then. -/
theorem Writes.thenCommit {w : Work α} {c : Work β} {R : Prop} (h : Writes s w ws fun _ => R)
    (hc : ∀ s', Commits s' c s'.transaction.log True) :
    Commits s (w >>= fun _ => c) (s.transaction.log ++ ws) R := by
  rw [Commits, EStateM.run_bind]
  rw [Writes] at h
  cases hw : w.run s with
  | error e s₁ =>
    rw [hw] at h
    exact h
  | ok a s₁ =>
    rw [hw] at h
    obtain ⟨hR, hadds⟩ := h
    have hcommit := hc s₁
    rw [Commits] at hcommit
    show match c.run s₁ with
      | .ok _ s' => R ∧ s'.medium.database.entries = _
      | .error _ s' => s'.medium.database = s.medium.database
    cases hrun : c.run s₁ with
    | ok b s₂ =>
      rw [hrun] at hcommit
      rw [← hadds.log, ← hadds.database]
      exact ⟨hR, hcommit.2⟩
    | error e s₂ =>
      rw [hrun] at hcommit
      exact hcommit.trans hadds.database

/-- What a transaction in which nothing was written yet does when it saves a collection. -/
theorem replace_commits (patience : Patience) (name : Iri) (g : Graph)
    (hlog : s.transaction.log = []) :
    Commits s (replace patience name g) (saveWrites s.transaction.snapshot name g) (Whole g) := by
  have hview : s.transaction.view = s.transaction.snapshot := by
    rw [Transaction.view_eq, hlog]
    rfl
  have h := (prepare_writes patience name g s).thenCommit fun s' =>
    (commit_commits s').doing ("failed to commit collection " ++ renderIri name)
  rw [hlog, hview] at h
  rw [replace_eq]
  exact h

/-- What a transaction in which nothing was written yet does when it deletes a collection. -/
theorem discard_commits (name : Iri) (hlog : s.transaction.log = []) :
    Commits s (discard name) (deleteWrites s.transaction.snapshot name) True := by
  have hview : s.transaction.view = s.transaction.snapshot := by
    rw [Transaction.view_eq, hlog]
    rfl
  have h := ((clear_writes (.ofTerm (.iri name)) s).bind fun _ s₁ _ _ =>
    (deleteKey_writes .collections (TermKey.ofTerm (.iri name)).bytes s₁).doing
      "failed to delete collection").thenCommit commit_commits
  rw [hlog, hview, bind_assoc] at h
  exact h

theorem inTransaction_cases {w : Work α} {m m' : Medium} {answer : Outcome α} {R : Prop}
    (hw : ∀ m₁ : Medium, m₁.database = m.database → Commits ⟨m₁, m₁.database.begin true⟩ w ws R)
    (h : inTransaction true w m = (answer, m')) :
    ((∃ a, answer = .ok a) ∧ R ∧
        m'.database.entries = ws.foldl Entries.apply m.database.entries) ∨
      (∃ e, answer = .error e) ∧ m'.database = m.database := by
  have hdb := fails_database m .begin
  have hrun := hw (m.fails .begin).2 hdb
  rw [Commits] at hrun
  simp only [inTransaction] at h
  split_ifs at h with hf
  · obtain ⟨rfl, rfl⟩ := Prod.mk.inj h
    exact .inr ⟨⟨_, rfl⟩, hdb⟩
  · cases hr : w.run ⟨(m.fails .begin).2, (m.fails .begin).2.database.begin true⟩ with
    | ok a s =>
      rw [hr] at h hrun
      obtain ⟨rfl, rfl⟩ := Prod.mk.inj h
      rw [hdb] at hrun
      exact .inl ⟨⟨a, rfl⟩, hrun⟩
    | error e s =>
      rw [hr] at h hrun
      obtain ⟨rfl, rfl⟩ := Prod.mk.inj h
      exact .inr ⟨⟨e, rfl⟩, hrun.trans hdb⟩

/-- A save makes its writes, or fails and makes no difference. -/
theorem save_cases {patience : Patience} {name : Iri} {g : Graph} {m m' : Medium}
    {answer : Outcome Unit} (h : save patience name g m = (answer, m')) :
    ((∃ a, answer = .ok a) ∧ Whole g ∧ m'.database.entries
        = (saveWrites m.database.entries name g).foldl Entries.apply m.database.entries) ∨
      (∃ e, answer = .error e) ∧ m'.database = m.database := by
  refine inTransaction_cases (fun m₁ hm₁ => ?_) h
  rw [← hm₁]
  exact replace_commits (s := ⟨m₁, m₁.database.begin true⟩) patience name g rfl

/-- A deletion makes its writes, or fails and makes no difference. -/
theorem delete_cases {name : Iri} {m m' : Medium} {answer : Outcome Unit}
    (h : delete name m = (answer, m')) :
    ((∃ a, answer = .ok a) ∧ True ∧ m'.database.entries
        = (deleteWrites m.database.entries name).foldl Entries.apply m.database.entries) ∨
      (∃ e, answer = .error e) ∧ m'.database = m.database := by
  refine inTransaction_cases (fun m₁ hm₁ => ?_) h
  rw [← hm₁]
  exact discard_commits (s := ⟨m₁, m₁.database.begin true⟩) name rfl

end Archive

end TripleStore
