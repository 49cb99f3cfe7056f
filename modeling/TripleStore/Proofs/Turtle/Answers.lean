import TripleStore.Proofs.Parse.Together
import TripleStore.Proofs.Token.Answers
import TripleStore.Proofs.Turtle.Progress

/-!
# Turtle, read answer by answer

What is delivered of a document is told by the tokens up to its end: a reader never gives up the end of
the text, and so never asks what stands behind it.  The bounds on the steps depend on the length of the
stream, so the readers of nested structures are compared with two bounds, each large enough.

* `State.Served`: a state with a stream that serves the first one's; each reader, from both.
* `Adequate`, `adequateAt`: **steps enough for the readers of nested structures.**
* `readState_served`: **what stands behind the end is not read.**
-/

namespace TripleStore.Turtle

open TokenStream

/-- The same state with a stream that serves the first one's. -/
def State.Served (s s' : State) : Prop := ∃ S, s.stream.Serves S ∧ s' = { s with stream := S }

/-- Two readers read the same from two states, and leave them alike. -/
abbrev ServedAlike {α : Type} (x y : Parser α) (s s' : State) : Prop :=
  Together State.Served State.Served x y s s'

variable {α β : Type} {s s' : State} {f g : Token → Parser α} {n m : ℕ}

namespace State.Served

/-! ### Single tokens -/

theorem current_eq (h : s.Served s') : s'.stream.current = s.stream.current := by
  obtain ⟨S, hS, rfl⟩ := h
  exact hS.current_eq

theorem bind_current (h : s.Served s') (hf : ServedAlike (f s.stream.current) (g s.stream.current) s s') :
    ServedAlike (current >>= f) (current >>= g) s s' :=
  .bind_of_ok rfl (congrArg (EStateM.Result.ok · s') h.current_eq) hf

theorem bind_kind {f g : Kind → Parser α} (h : s.Served s')
    (hf : ServedAlike (f s.stream.current.kind) (g s.stream.current.kind) s s') :
    ServedAlike (kind >>= f) (kind >>= g) s s' :=
  .bind_of_ok rfl (congrArg (fun t : Token => EStateM.Result.ok t.kind s') h.current_eq) hf

theorem bind_get {f g : State → Parser α} (hf : ServedAlike (f s) (g s') s s') :
    ServedAlike (get >>= f) (get >>= g) s s' := hf

theorem bind_modify {p : State → State} {f g : Unit → Parser α}
    (hf : ServedAlike (f ()) (g ()) (p s) (p s')) : ServedAlike (modify p >>= f) (modify p >>= g) s s' :=
  .bind_of_ok rfl rfl hf

theorem unexpected (h : s.Served s') (expected : Text) :
    ServedAlike (unexpected expected : Parser α) (Turtle.unexpected expected) s s' :=
  h.bind_current (.throw h _)

theorem refuse (h : s.Served s') (t : Token) (remark : Text) (cause : Option Violation) :
    ServedAlike (refuse t remark cause : Parser α) (Turtle.refuse t remark cause) s s' := .throw h _

theorem advance (h : s.Served s') (hk : s.stream.current.kind ≠ .eof) :
    ServedAlike advance Turtle.advance s s' := by
  obtain ⟨S, hS, rfl⟩ := h
  refine bind_get ?_
  rcases hS.tail hk with ⟨e, hs, hs'⟩ | ⟨r, r', hs, hs', hr⟩
  · simp only [hs, hs']
    exact .throw ⟨S, hS, rfl⟩ _
  · simp only [hs, hs']
    exact .of_ok rfl rfl ⟨r', hr, rfl⟩

theorem expect {k : Kind} (hk : k ≠ .eof) (h : s.Served s') :
    ServedAlike (expect k) (Turtle.expect k) s s' := by
  refine h.bind_current ?_
  split_ifs with hkind
  · exact .bind (h.advance (by rw [hkind]; exact hk)) fun _ _ _ _ _ h => .pure h
  · exact h.unexpected _

theorem emit (h : s.Served s') (subject : Node) (predicate : Iri) (object : Term) :
    ServedAlike (emit subject predicate object) (Turtle.emit subject predicate object) s s' := by
  obtain ⟨S, hS, rfl⟩ := h
  exact .of_ok rfl rfl ⟨S, hS, rfl⟩

theorem anonymous (h : s.Served s') : ServedAlike anonymous Turtle.anonymous s s' := by
  obtain ⟨S, hS, rfl⟩ := h
  exact .of_ok rfl rfl ⟨S, hS, rfl⟩

/-! ### Names -/

theorem iriReference (h : s.Served s') : ServedAlike iriReference Turtle.iriReference s s' := by
  refine h.bind_current ?_
  split
  · next hk => exact .bind (h.advance (by rw [hk]; decide)) fun _ _ _ _ _ h => .pure h
  · next hk =>
    refine .bind (h.advance (by rw [hk]; decide)) fun _ t t' _ _ h => ?_
    obtain ⟨S, hS, rfl⟩ := h
    exact .of_ok rfl rfl ⟨S, hS, rfl⟩
  · exact h.unexpected _

theorem expand (h : s.Served s') (t : Token) : ServedAlike (expand t) (Turtle.expand t) s s' := by
  obtain ⟨S, hS, rfl⟩ := h
  rw [Turtle.expand]
  simp only
  refine bind_get ?_
  simp only
  split
  · exact .pure ⟨S, hS, rfl⟩
  · exact .throw ⟨S, hS, rfl⟩ _

theorem checkIri (h : s.Served s') (t : Token) (i : Iri) :
    ServedAlike (checkIri t i) (Turtle.checkIri t i) s s' := by
  rw [Turtle.checkIri]
  split
  · exact .pure h
  · exact h.refuse _ _ _

theorem iri (h : s.Served s') : ServedAlike iri Turtle.iri s s' := by
  refine h.bind_current ?_
  split
  · exact .bind h.iriReference fun i _ _ _ _ h => h.checkIri _ i
  · exact .bind h.iriReference fun i _ _ _ _ h => h.checkIri _ i
  · next hk =>
    refine .bind (h.expand _) fun i s₁ s₁' hexpand _ h₁ => ?_
    rw [s.eq_reading] at hexpand
    obtain rfl := (expand_eq_ok_iff.mp hexpand).2
    exact .bind (h₁.advance (by rw [stream_reading, hk]; decide)) fun _ _ _ _ _ h => h.checkIri _ i
  · exact h.unexpected _

theorem blankNode (h : s.Served s') : ServedAlike blankNode Turtle.blankNode s s' := by
  refine .bind (h.expect (by decide)) fun t s₁ s₁' _ _ h => ?_
  simp only
  split_ifs
  · exact .bind_of_ne_ok (h.refuse _ _ _) fun _ _ => run_throw_ne_ok
  · split
    · exact h.refuse _ _ _
    · obtain ⟨S, hS, rfl⟩ := h
      exact .of_ok rfl rfl ⟨S, hS, rfl⟩

theorem verb (h : s.Served s') : ServedAlike verb Turtle.verb s s' := by
  refine h.bind_kind ?_
  split
  · next hk => exact .bind (h.advance (by rw [hk]; decide)) fun _ _ _ _ _ h => .pure h
  · exact h.iri
  · exact h.iri
  · exact h.iri
  · exact h.unexpected _

theorem literal (h : s.Served s') (hk : s.stream.current.kind ≠ .eof) :
    ServedAlike literal Turtle.literal s s' := by
  refine h.bind_current ?_
  refine .bind (h.advance hk) fun _ s₁ s₁' _ _ h => ?_
  refine h.bind_current ?_
  split
  · next hk =>
    refine .bind (h.advance (by rw [hk]; decide)) fun _ s₁ s₁' _ _ h => ?_
    split
    · exact .pure h
    · exact h.refuse _ _ _
  · next hk =>
    refine .bind (h.advance (by rw [hk]; decide)) fun _ s₁ s₁' _ _ h => ?_
    exact .bind h.iri fun _ _ _ _ _ h => .pure h
  · exact .pure h

theorem literalToken (h : s.Served s') (hk : s.stream.current.kind ≠ .eof) (make : Text → Term) :
    ServedAlike (literalToken make) (Turtle.literalToken make) s s' :=
  h.bind_current (.bind (h.advance hk) fun _ _ _ _ _ h => .pure h)

end State.Served

/-! ### Nested structures -/

/-- A reader of nested structures that takes steps: with four of them for each token ahead, and `k`
more, it reads the same as with any other number that is large enough. -/
def Adequate (k : ℕ) (read : ℕ → Parser α) (n : ℕ) : Prop :=
  ∀ {s s' : State} {m : ℕ}, s.Served s' → 4 * s.stream.length + k ≤ n →
    4 * s.stream.length + k ≤ m → ServedAlike (read n) (read m) s s'

/-- The readers of nested structures with `n` steps left. -/
structure AdequateAt (n : ℕ) : Prop where
  predicates : ∀ subject, Adequate 3 (predicates subject) n
  objects : ∀ subject predicate, Adequate 3 (objects subject predicate) n
  object : Adequate 2 object n
  propertyList : Adequate 1 propertyList n
  items : ∀ last, Adequate 3 (items last) n
  collection : Adequate 1 collection n

theorem adequate_predicates (ih : AdequateAt n) (subject : Node) :
    Adequate 3 (predicates subject) (n + 1) := by
  intro s s' m h hn hm
  obtain ⟨m, rfl⟩ := Nat.exists_eq_succ_of_ne_zero (n := m) (by omega)
  rw [predicates, predicates]
  refine .bind h.verb fun predicate s₁ s₁' hverb _ h₁ => ?_
  have hlt₁ := lt_of_verb hverb
  refine .bind (ih.objects subject predicate h₁ (by omega) (by omega))
    fun _ s₂ s₂' hobjects _ h₂ => ?_
  have hlt₂ := lt_of_objects hobjects
  refine h₂.bind_kind ?_
  split_ifs with hsemicolon
  · obtain ⟨S, hS, rfl⟩ := h₂
    refine State.Served.bind_get ?_
    rcases hS.dropSemicolons with ⟨e, hs, hs'⟩ | ⟨r, r', hs, hs', hr⟩
    · simp only [hs, hs']
      exact .throw ⟨S, hS, rfl⟩ _
    · have hle := length_dropSemicolons_le hs
      have h₃ : State.Served { s₂ with stream := r } { s₂ with stream := r' } := ⟨r', hr, rfl⟩
      simp only [hs, hs']
      refine .bind_of_ok rfl rfl (h₃.bind_kind ?_)
      split_ifs
      · exact .pure h₃
      · exact ih.predicates subject h₃ (by simp only; omega) (by simp only; omega)
  · exact .pure h₂

theorem adequate_objects (ih : AdequateAt n) (subject : Node) (predicate : Iri) :
    Adequate 3 (objects subject predicate) (n + 1) := by
  intro s s' m h hn hm
  obtain ⟨m, rfl⟩ := Nat.exists_eq_succ_of_ne_zero (n := m) (by omega)
  rw [objects, objects]
  refine .bind (ih.object h (by omega) (by omega)) fun o s₁ s₁' hobject _ h₁ => ?_
  have hlt₁ := lt_of_object hobject
  refine .bind (h₁.emit _ _ _) fun _ s₂ s₂' hemit _ h₂ => ?_
  cases hemit
  refine h₂.bind_kind ?_
  split_ifs with hcomma
  · refine .bind (h₂.advance (by rw [hcomma]; decide)) fun _ s₃ s₃' hadvance _ h₃ => ?_
    have hlt₃ := lt_of_advance (by rw [hcomma]; decide) hadvance
    simp only at hlt₃
    exact ih.objects subject predicate h₃ (by omega) (by omega)
  · exact .pure h₂

theorem adequate_object (ih : AdequateAt n) : Adequate 2 object (n + 1) := by
  intro s s' m h hn hm
  obtain ⟨m, rfl⟩ := Nat.exists_eq_succ_of_ne_zero (n := m) (by omega)
  rw [object, object]
  refine h.bind_kind ?_
  cases hk : s.stream.current.kind
  case iriRef => exact .bind h.iri fun _ _ _ _ _ h => .pure h
  case relativeIri => exact .bind h.iri fun _ _ _ _ _ h => .pure h
  case prefixedName => exact .bind h.iri fun _ _ _ _ _ h => .pure h
  case blankNodeLabel => exact .bind h.blankNode fun _ _ _ _ _ h => .pure h
  case openBracket =>
    exact .bind (ih.propertyList h (by omega) (by omega)) fun _ _ _ _ _ h => .pure h
  case openParen =>
    exact .bind (ih.collection h (by omega) (by omega)) fun _ _ _ _ _ h => .pure h
  case stringLiteral => exact h.literal (by rw [hk]; decide)
  case longString => exact h.literal (by rw [hk]; decide)
  case integer => exact h.literalToken (by rw [hk]; decide) _
  case decimal => exact h.literalToken (by rw [hk]; decide) _
  case double => exact h.literalToken (by rw [hk]; decide) _
  case boolean => exact h.literalToken (by rw [hk]; decide) _
  all_goals exact h.unexpected _

theorem adequate_propertyList (ih : AdequateAt n) : Adequate 1 propertyList (n + 1) := by
  intro s s' m h hn hm
  obtain ⟨m, rfl⟩ := Nat.exists_eq_succ_of_ne_zero (n := m) (by omega)
  rw [propertyList, propertyList]
  refine .bind (h.expect (by decide)) fun _ s₁ s₁' hopen _ h₁ => ?_
  have hlt₁ := lt_of_expect (by decide) hopen
  refine .bind h₁.anonymous fun node s₂ s₂' hnode _ h₂ => ?_
  have hstream : s₂.stream = s₁.stream := by
    cases hnode
    rfl
  refine h₂.bind_kind ?_
  have hclose {t t' : State} (r : Node × Bool) (h : t.Served t') :
      ServedAlike (do let _ ← expect .closeBracket; return r) (do let _ ← expect .closeBracket; return r)
        t t' :=
    .bind (h.expect (by decide)) fun _ _ _ _ _ h => .pure h
  simp only
  split_ifs
  · exact hclose _ h₂
  · exact .bind (ih.predicates node h₂ (by rw [hstream]; omega) (by rw [hstream]; omega))
      fun _ _ _ _ _ h => hclose _ h

theorem adequate_items (ih : AdequateAt n) (last : Node) : Adequate 3 (items last) (n + 1) := by
  intro s s' m h hn hm
  obtain ⟨m, rfl⟩ := Nat.exists_eq_succ_of_ne_zero (n := m) (by omega)
  rw [items, items]
  refine h.bind_kind ?_
  split_ifs
  · exact h.emit _ _ _
  · refine .bind (ih.object h (by omega) (by omega)) fun item s₁ s₁' hobject _ h₁ => ?_
    have hlt₁ := lt_of_object hobject
    refine .bind h₁.anonymous fun cell s₂ s₂' hnode _ h₂ => ?_
    cases hnode
    refine .bind (h₂.emit _ _ _) fun _ s₃ s₃' hemit _ h₃ => ?_
    cases hemit
    refine .bind (h₃.emit _ _ _) fun _ s₄ s₄' hemit _ h₄ => ?_
    cases hemit
    exact ih.items _ h₄ (by simp only; omega) (by simp only; omega)

theorem adequate_collection (ih : AdequateAt n) : Adequate 1 collection (n + 1) := by
  intro s s' m h hn hm
  obtain ⟨m, rfl⟩ := Nat.exists_eq_succ_of_ne_zero (n := m) (by omega)
  rw [collection, collection]
  refine .bind (h.expect (by decide)) fun _ s₁ s₁' hopen _ h₁ => ?_
  have hlt₁ := lt_of_expect (by decide) hopen
  refine h₁.bind_kind ?_
  split_ifs
  · exact .bind (h₁.expect (by decide)) fun _ _ _ _ _ h => .pure h
  · refine .bind (ih.object h₁ (by omega) (by omega)) fun item s₂ s₂' hobject _ h₂ => ?_
    have hlt₂ := lt_of_object hobject
    refine .bind h₂.anonymous fun cell s₃ s₃' hnode _ h₃ => ?_
    cases hnode
    refine .bind (h₃.emit _ _ _) fun _ s₄ s₄' hemit _ h₄ => ?_
    cases hemit
    refine .bind (ih.items _ h₄ (by simp only; omega) (by simp only; omega)) fun _ _ _ _ _ h => ?_
    exact .bind (h.expect (by decide)) fun _ _ _ _ _ h => .pure h

/-- **Steps enough for the readers of nested structures** are the same for all bounds. -/
theorem adequateAt (n : ℕ) : AdequateAt n := by
  induction n with
  | zero =>
    have hnone {β : Type} {k : ℕ} {read : ℕ → Parser β} (hk : 0 < k) : Adequate k read 0 :=
      fun _ hn => by omega
    exact ⟨fun _ => hnone (by decide), fun _ _ => hnone (by decide), hnone (by decide),
      hnone (by decide), fun _ => hnone (by decide), hnone (by decide)⟩
  | succ n ih =>
    exact ⟨adequate_predicates ih, adequate_objects ih, adequate_object ih, adequate_propertyList ih,
      adequate_items ih, adequate_collection ih⟩

/-! ### Statements -/

namespace State.Served

/-- The bound on the steps is large enough for both streams. -/
theorem bind_depth {f g : ℕ → Parser α} (h : s.Served s')
    (hf : ∀ m, 4 * s.stream.length + 4 ≤ m → ServedAlike (f (4 * s.stream.length + 4)) (g m) s s') :
    ServedAlike (depth >>= f) (depth >>= g) s s' := by
  obtain ⟨S, hS, rfl⟩ := h
  have hle := hS.length_le
  exact hf (4 * S.length + 4) (by omega)

theorem subject (h : s.Served s') : ServedAlike subject Turtle.subject s s' := by
  refine h.bind_kind ?_
  split
  · exact .bind h.iri fun _ _ _ _ _ h => .pure h
  · exact .bind h.iri fun _ _ _ _ _ h => .pure h
  · exact .bind h.iri fun _ _ _ _ _ h => .pure h
  · exact h.blankNode
  · exact h.bind_depth fun m hm => (adequateAt _).collection h (by omega) (by omega)
  · exact h.unexpected _

theorem triples (h : s.Served s') : ServedAlike triples Turtle.triples s s' := by
  have hpredicates {t t' : State} (node : Node) (h : t.Served t') :
      ServedAlike (do predicates node (← depth)) (do predicates node (← depth)) t t' :=
    h.bind_depth fun m hm => (adequateAt _).predicates node h (by omega) (by omega)
  refine h.bind_kind ?_
  split_ifs
  · refine h.bind_depth fun m hm => ?_
    refine .bind ((adequateAt _).propertyList h (by omega) (by omega)) fun r _ _ _ _ h => ?_
    refine h.bind_kind ?_
    split_ifs
    · exact .pure h
    · exact hpredicates _ h
  · exact .bind h.subject fun node _ _ _ _ h => hpredicates node h

theorem directiveEnd (h : s.Served s') (directive : Token) :
    ServedAlike (directiveEnd directive) (Turtle.directiveEnd directive) s s' := by
  rw [Turtle.directiveEnd]
  split_ifs
  · exact .pure h
  · exact .bind (h.expect (by decide)) fun _ _ _ _ _ h => .pure h

theorem prefixDeclaration (h : s.Served s') :
    ServedAlike prefixDeclaration Turtle.prefixDeclaration s s' := by
  refine .bind (h.expect (by decide)) fun directive _ _ _ _ h => ?_
  refine h.bind_current ?_
  split_ifs with hname
  · rw [Turtle.declaresPrefix, decide_eq_true_eq] at hname
    refine .bind (h.advance (by rw [hname.1]; decide)) fun _ _ _ _ _ h => ?_
    refine .bind h.iriReference fun i s₁ s₁' _ _ h => ?_
    refine bind_modify (directiveEnd ?_ directive)
    obtain ⟨S, hS, rfl⟩ := h
    exact ⟨S, hS, rfl⟩
  · exact .bind_of_ne_ok (h.unexpected _) fun _ _ => unexpected_ne_ok

theorem baseDeclaration (h : s.Served s') : ServedAlike baseDeclaration Turtle.baseDeclaration s s' := by
  refine .bind (h.expect (by decide)) fun directive _ _ _ _ h => ?_
  refine .bind h.iriReference fun i s₁ s₁' _ _ h => ?_
  refine bind_modify (directiveEnd ?_ directive)
  obtain ⟨S, hS, rfl⟩ := h
  exact ⟨S, hS, rfl⟩

theorem statement (h : s.Served s') : ServedAlike statement Turtle.statement s s' := by
  refine bind_modify ?_
  have h : State.Served { s with emitted := [] } { s' with emitted := [] } := by
    obtain ⟨S, hS, rfl⟩ := h
    exact ⟨S, hS, rfl⟩
  refine h.bind_kind ?_
  split
  · exact .bind h.prefixDeclaration fun _ _ _ _ _ h => .pure h
  · exact .bind h.baseDeclaration fun _ _ _ _ _ h => .pure h
  · refine .bind h.triples fun _ _ _ _ _ h => ?_
    refine .bind (h.expect (by decide)) fun _ t t' _ _ h => ?_
    obtain ⟨S, hS, rfl⟩ := h
    exact .of_ok rfl rfl ⟨S, hS, rfl⟩

end State.Served

/-! ### Documents -/

/-- Blocks are delivered alike from both streams, if there are steps enough. -/
theorem deliver_served (h : s.Served s') (hn : s.stream.length < n) (hm : s.stream.length < m) :
    deliver m s' = deliver n s := by
  induction n generalizing s s' m with
  | zero => omega
  | succ n ih =>
    obtain ⟨m, rfl⟩ := Nat.exists_eq_succ_of_ne_zero (Nat.ne_zero_of_lt hm)
    rw [deliver, deliver, h.current_eq]
    have hsupply {t t' : State} (h : t.Served t') : t'.supply = t.supply := by
      obtain ⟨S, hS, rfl⟩ := h
      rfl
    split_ifs with heof
    · rw [hsupply h]
    · rcases h.statement with ⟨stmts, t, t', hx, hy, ht⟩ | ⟨e, t, t', hx, hy, ht⟩
      · have hlt := lt_of_statement hx
        have hlater : deliver m t' = deliver n t := ih ht (by omega) (by omega)
        rw [hx, hy]
        simp only [hsupply ht, hlater]
      · rw [hx, hy]
        simp only [hsupply ht]

/-- **What is delivered is told by the tokens up to the end**, whatever stands behind it. -/
theorem readState_served (h : s.Served s') : readState s' = readState s := by
  obtain ⟨S, hS, rfl⟩ := h
  rw [readState, readState]
  rcases hS.sound with ⟨e, hs, hs'⟩ | ⟨r, r', hs, hs', hr⟩
  · rw [hs, hs']
  · rw [hs, hs']
    have hle := hr.length_le
    have hread : State.Served { s with stream := r } { s with stream := r' } := ⟨r', hr, rfl⟩
    exact deliver_served hread (Nat.lt_succ_self _) (by simp only; omega)

end TripleStore.Turtle
