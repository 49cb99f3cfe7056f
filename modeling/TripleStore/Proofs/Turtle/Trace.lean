import TripleStore.Proofs.Parse.Together
import TripleStore.Proofs.Turtle.Progress

/-!
# Readers that keep a trace

The readers of nested structures go through the same loops again and again, and call each other.  Here
they are written once more, with a mark in a trace wherever a loop is entered once more or an object is
read.  Each mark tells how many tokens were left.  Without the trace they are the readers; and no mark is
made twice with the same number of tokens left, nor is any bound on the steps used up.

* `Mark`, `Trace`, `Traced.read`: the marks, and the readers that make them.
* `Falling`: the tokens become fewer from mark to mark.
* `tracedAt`: **what the readers of nested structures do to a trace.**
* `Traced.read_falling`: **the same blocks are delivered, with a falling trace.**
-/

namespace TripleStore.Turtle

open TokenStream

/-! ### Traces -/

/-- What is done again and again: a block, the turns of a loop over predicates, semicolons, objects and
items, and the reading of an object.  `spent` says that the steps are used up. -/
inductive Mark
  | block
  | predicates
  | semicolon
  | objects
  | item
  | object
  | spent
  deriving DecidableEq, Repr

/-- The marks that were made, in order, each with the number of tokens that were left. -/
abbrev Trace : Type := List (Mark × ℕ)

/-- A step of a reader that keeps a trace. -/
abbrev Tracer := EStateM ReadError (State × Trace)

namespace Traced

/-- A reader that makes no mark. -/
def unmarked {α : Type} (r : Parser α) : Tracer α := fun s =>
  match r.run s.1 with
  | .ok a t => .ok a (t, s.2)
  | .error e t => .error e (t, s.2)

/-- Makes a mark. -/
def mark (m : Mark) : Tracer Unit := modify fun s => (s.1, s.2 ++ [(m, s.1.stream.length)])

/-- The marks of the semicolons that a stream begins with. -/
def semicolonMarks : TokenStream → Trace
  | .token t rest =>
    if t.kind = .semicolon then (.semicolon, rest.length + 1) :: semicolonMarks rest else []
  | _ => []

/-- Gives up the semicolons at hand, one by one. -/
def semicolons : Tracer Unit := do
  let (s, trace) ← get
  set (s, trace ++ semicolonMarks s.stream)
  match s.stream.dropSemicolons with
  | .error e => throw (.lexical e)
  | .ok stream => set ({ s with stream }, trace ++ semicolonMarks s.stream)

mutual

/-- Reads predicates, with a mark for each. -/
def predicates (subject : Node) : (fuel : ℕ) → Tracer Unit
  | 0 => do
    mark .spent
    unmarked (unexpected "predicate")
  | fuel + 1 => do
    mark .predicates
    let predicate ← unmarked verb
    objects subject predicate fuel
    if (← unmarked kind) = .semicolon then
      semicolons
      let k ← unmarked kind
      if k = .period ∨ k = .closeBracket then return ()
      else predicates subject fuel

/-- Reads objects, with a mark for each. -/
def objects (subject : Node) (predicate : Iri) : (fuel : ℕ) → Tracer Unit
  | 0 => do
    mark .spent
    unmarked (unexpected "object")
  | fuel + 1 => do
    mark .objects
    let o ← object fuel
    unmarked (emit subject predicate o)
    if (← unmarked kind) = .comma then
      unmarked advance
      objects subject predicate fuel

/-- Reads an object, with a mark. -/
def object : (fuel : ℕ) → Tracer Term
  | 0 => do
    mark .spent
    unmarked (unexpected "object")
  | fuel + 1 => do
    mark .object
    match ← unmarked kind with
    | .iriRef | .relativeIri | .prefixedName => return .iri (← unmarked iri)
    | .blankNodeLabel => return (← unmarked blankNode).toTerm
    | .openBracket => return (← propertyList fuel).1.toTerm
    | .openParen => return (← collection fuel).toTerm
    | .stringLiteral | .longString => unmarked literal
    | .integer => unmarked (literalToken .integer)
    | .decimal => unmarked (literalToken .decimal)
    | .double => unmarked (literalToken .double)
    | .boolean => unmarked (literalToken fun text => .boolean (text == "true"))
    | _ => unmarked (unexpected "object")

/-- Reads properties in brackets. -/
def propertyList : (fuel : ℕ) → Tracer (Node × Bool)
  | 0 => do
    mark .spent
    unmarked (unexpected "object")
  | fuel + 1 => do
    let _ ← unmarked (expect .openBracket)
    let node ← unmarked anonymous
    let empty := (← unmarked kind) = .closeBracket
    if ¬ empty then predicates node fuel
    let _ ← unmarked (expect .closeBracket)
    return (node, empty)

/-- Reads the items of a list behind a cell, with a mark for each. -/
def items (last : Node) : (fuel : ℕ) → Tracer Unit
  | 0 => do
    mark .spent
    unmarked (unexpected "object")
  | fuel + 1 => do
    if (← unmarked kind) = .closeParen then
      unmarked (emit last Vocabulary.rest (.iri Vocabulary.nil))
    else
      mark .item
      let item ← object fuel
      let cell ← unmarked anonymous
      unmarked (emit last Vocabulary.rest cell.toTerm)
      unmarked (emit cell Vocabulary.first item)
      items cell fuel

/-- Reads a list in parentheses, with a mark for each item. -/
def collection : (fuel : ℕ) → Tracer Node
  | 0 => do
    mark .spent
    unmarked (unexpected "object")
  | fuel + 1 => do
    let _ ← unmarked (expect .openParen)
    if (← unmarked kind) = .closeParen then
      let _ ← unmarked (expect .closeParen)
      return .iri Vocabulary.nil
    else
      mark .item
      let item ← object fuel
      let cell ← unmarked anonymous
      unmarked (emit cell Vocabulary.first item)
      items cell fuel
      let _ ← unmarked (expect .closeParen)
      return cell

end

/-- Reads a subject that is not in brackets. -/
def subject : Tracer Node := do
  match ← unmarked kind with
  | .iriRef | .relativeIri | .prefixedName => return .iri (← unmarked iri)
  | .blankNodeLabel => unmarked blankNode
  | .openParen => collection (← unmarked depth)
  | _ => unmarked (unexpected "subject")

/-- Reads the triples of one subject. -/
def triples : Tracer Unit := do
  if (← unmarked kind) = .openBracket then
    let (node, empty) ← propertyList (← unmarked depth)
    if ¬ empty ∧ (← unmarked kind) = .period then return ()
    else predicates node (← unmarked depth)
  else
    let node ← subject
    predicates node (← unmarked depth)

/-- Reads a directive, or a block of triples with its full stop. -/
def statement : Tracer (List Statement) := do
  unmarked (modify fun s => { s with emitted := [] })
  match ← unmarked kind with
  | .prefixDirective =>
    unmarked prefixDeclaration
    return []
  | .baseDirective =>
    unmarked baseDeclaration
    return []
  | _ =>
    triples
    let _ ← unmarked (expect .period)
    return (← unmarked get).emitted

/-- Delivers at most `fuel` blocks, with a mark for each. -/
def deliver : (fuel : ℕ) → State × Trace → Delivery × Trace
  | 0, s => (.finish s.1.supply, s.2 ++ [(.spent, s.1.stream.length)])
  | fuel + 1, s =>
    if s.1.stream.current.kind = .eof then (.finish s.1.supply, s.2)
    else match statement.run (s.1, s.2 ++ [(.block, s.1.stream.length)]) with
      | .ok statements s => (.block statements s.1.supply (deliver fuel s).1, (deliver fuel s).2)
      | .error e s => (.failed e s.1.supply, s.2)

/-- Delivers the statements of a text, with the trace of their reading. -/
def read (text : Text) (supply : Supply) : Delivery × Trace :=
  match (ofText .turtle text).sound with
  | .error e => (.failed (.lexical e) supply, [])
  | .ok stream => deliver (stream.length + 1) ({ stream, supply }, [])

end Traced

/-! ### Falling traces -/

/-- The place of a mark in the order in which marks are made: with fewer tokens left it comes later, and
an object is read behind whatever else is marked with the same number left. -/
def markKey (p : Mark × ℕ) : ℕ := 2 * p.2 + if p.1 = .object then 0 else 1

/-- The keys of the marks fall, down to `k` at the least, and no steps are used up. -/
structure Falling (k : ℕ) (trace : Trace) : Prop where
  falls : trace.Pairwise fun p q => markKey q < markKey p
  above : ∀ p ∈ trace, k ≤ markKey p
  steps : ∀ p ∈ trace, p.1 ≠ .spent

namespace Falling

variable {k k' : ℕ} {trace : Trace}

theorem nil (k : ℕ) : Falling k [] :=
  ⟨.nil, fun _ hp => (nomatch hp), fun _ hp => (nomatch hp)⟩

theorem mono (h : Falling k trace) (hk : k' ≤ k) : Falling k' trace :=
  ⟨h.falls, fun p hp => hk.trans (h.above p hp), h.steps⟩

/-- A mark that is made in order. -/
theorem mark {p : Mark × ℕ} (h : Falling (markKey p + 1) trace) (hp : p.1 ≠ .spent) :
    Falling (markKey p) (trace ++ [p]) := by
  refine ⟨List.pairwise_append.mpr ⟨h.falls, List.pairwise_singleton _ _, ?_⟩, ?_, ?_⟩
  · intro q hq r hr
    rw [List.mem_singleton.mp hr]
    exact h.above q hq
  · intro q hq
    rcases List.mem_append.mp hq with hq | hq
    · exact (Nat.le_succ _).trans (h.above q hq)
    · rw [List.mem_singleton.mp hq]
  · intro q hq
    rcases List.mem_append.mp hq with hq | hq
    · exact h.steps q hq
    · rw [List.mem_singleton.mp hq]
      exact hp

/-- The turn of a loop, and an object. -/
theorem mark_loop {m : Mark} {n : ℕ} (h : Falling (2 * n + 2) trace) (hm : m ≠ .object ∧ m ≠ .spent) :
    Falling (2 * n + 1) (trace ++ [(m, n)]) := by
  have hkey : markKey (m, n) = 2 * n + 1 := by rw [markKey, if_neg hm.1]
  rw [← hkey]
  exact mark (by rwa [hkey]) hm.2

theorem mark_object {n : ℕ} (h : Falling (2 * n + 1) trace) :
    Falling (2 * n) (trace ++ [(.object, n)]) :=
  mark (p := (.object, n)) h nofun

/-- **Between two marks of one kind a token has been taken.** -/
theorem pairwise (h : Falling k trace) : trace.Pairwise fun p q => p.1 = q.1 → q.2 < p.2 := by
  refine h.falls.imp fun {p q} hkey hsame => ?_
  rw [markKey, markKey, hsame] at hkey
  omega

/-- Semicolons are given up in order. -/
theorem semicolonMarks {stream : TokenStream} (h : Falling (2 * stream.length + 2) trace) :
    Falling 0 (trace ++ Traced.semicolonMarks stream) ∧
      ∀ rest, stream.dropSemicolons = .ok rest →
        Falling (2 * rest.length + 2) (trace ++ Traced.semicolonMarks stream) := by
  induction stream generalizing trace with
  | done p =>
    rw [Traced.semicolonMarks.eq_def, List.append_nil]
    refine ⟨h.mono (Nat.zero_le _), fun rest hrest => ?_⟩
    cases hrest
    exact h
  | fault e =>
    rw [Traced.semicolonMarks.eq_def, List.append_nil]
    exact ⟨h.mono (Nat.zero_le _), fun rest hrest => nomatch hrest⟩
  | token t tail ih =>
    rw [Traced.semicolonMarks, dropSemicolons]
    split_ifs with hsemicolon
    · have hmark := h.mark_loop (m := .semicolon) (by decide)
      rw [List.append_cons]
      exact ih (hmark.mono (Nat.le_succ _))
    · rw [List.append_nil]
      refine ⟨h.mono (Nat.zero_le _), fun rest hrest => ?_⟩
      cases hrest
      exact h

end Falling

/-! ### Readers and their traces -/

/-- Where a reader ends well, more tokens than are left were left at every mark. -/
def Done (s : State × Trace) (t : State) : Prop := s.1 = t ∧ Falling (2 * t.stream.length + 2) s.2

/-- Where a reader stops with an error, all marks are in order. -/
def Stopped (s : State × Trace) (t : State) : Prop := s.1 = t ∧ Falling 0 s.2

variable {α β : Type} {s s' : State} {trace : Trace} {n k : ℕ}

namespace Traced

/-- A reader that makes no mark has the trace beside its state. -/
theorem unmarked_eq (r : Parser α) : unmarked r = alongside r := by
  funext s
  rw [unmarked, alongside]
  cases r.run s.1 <;> rfl

/-- Behind a reader that makes no mark the trace is what it was. -/
theorem bind_unmarked {r : Parser β} {f : β → Tracer α} {g : β → Parser α} (h : Falling k trace)
    (hf : ∀ a t, r.run s = .ok a t → Together Done Stopped (f a) (g a) (t, trace) t) :
    Together Done Stopped (unmarked r >>= f) (r >>= g) (s, trace) s := by
  rw [unmarked_eq]
  exact .bind_alongside (fun _ => ⟨rfl, h.mono (Nat.zero_le _)⟩) hf

theorem bind_mark {m : Mark} {f : Unit → Tracer α} {r : Parser α}
    (hf : Together Done Stopped (f ()) r (s, trace ++ [(m, s.stream.length)]) s) :
    Together Done Stopped (mark m >>= f) r (s, trace) s := .bind_of_ok_left rfl hf

/-- Behind a reader that lets its trace fall, the next one goes on with the trace that it left. -/
theorem bind_traced {x : Tracer β} {r : Parser β} {f : β → Tracer α} {g : β → Parser α}
    (hx : Together Done Stopped x r (s, trace) s)
    (hf : ∀ a t trace', r.run s = .ok a t → Falling (2 * t.stream.length + 2) trace' →
      Together Done Stopped (f a) (g a) (t, trace') t) :
    Together Done Stopped (x >>= f) (r >>= g) (s, trace) s := by
  refine .bind hx fun a p t _ hr hdone => ?_
  obtain ⟨t, trace'⟩ := p
  obtain ⟨rfl, hfalling⟩ := hdone
  exact hf a t trace' hr hfalling

/-- A reader that makes no mark takes a token, or fails. -/
theorem unmarked_done {r : Parser α} (h : Falling (2 * s.stream.length) trace)
    (hlt : ∀ a t, r.run s = .ok a t → t.stream.length < s.stream.length) :
    Together Done Stopped (unmarked r) r (s, trace) s := by
  have hr := bind_unmarked (s := s) (r := r) (f := pure) (g := pure) h fun a t ht => by
    have hfewer := hlt a t ht
    exact .pure ⟨rfl, h.mono (by omega)⟩
  rwa [bind_pure, bind_pure] at hr

theorem unexpected_done (expected : Text) (h : Falling k trace) :
    Together Done Stopped (unmarked (unexpected expected : Parser α)) (unexpected expected)
      (s, trace) s :=
  .of_error rfl rfl ⟨rfl, h.mono (Nat.zero_le _)⟩

/-- A reader of nested structures that takes steps: with four of them for each token ahead, and `k` more,
it lets a trace fall that has fallen so far.  No mark has yet been made with the tokens that are left, if
`j` is 2; if it is 1, only turns of loops have. -/
def Traces (j k : ℕ) (x : ℕ → Tracer α) (y : ℕ → Parser α) (n : ℕ) : Prop :=
  ∀ {s : State} {trace : Trace}, Falling (2 * s.stream.length + j) trace →
    4 * s.stream.length + k ≤ n → Together Done Stopped (x n) (y n) (s, trace) s

/-- The readers of nested structures with `n` steps left. -/
structure TracedAt (n : ℕ) : Prop where
  predicates : ∀ subject, Traces 2 3 (predicates subject) (Turtle.predicates subject) n
  objects : ∀ subject predicate,
    Traces 2 3 (objects subject predicate) (Turtle.objects subject predicate) n
  object : Traces 1 2 object Turtle.object n
  propertyList : Traces 0 1 propertyList Turtle.propertyList n
  items : ∀ last, Traces 2 3 (items last) (Turtle.items last) n
  collection : Traces 0 1 collection Turtle.collection n

theorem semicolons_run_of_ok {stream : TokenStream} (h : s.stream.dropSemicolons = .ok stream)
    (trace : Trace) :
    semicolons.run (s, trace)
      = .ok () ({ s with stream }, trace ++ semicolonMarks s.stream) := by
  show (match s.stream.dropSemicolons with | .error e => _ | .ok stream => _ : Tracer Unit).run _ = _
  rw [h]
  rfl

theorem semicolons_run_of_error {e : LexError} (h : s.stream.dropSemicolons = .error e)
    (trace : Trace) :
    semicolons.run (s, trace) = .error (.lexical e) (s, trace ++ semicolonMarks s.stream) := by
  show (match s.stream.dropSemicolons with | .error e => _ | .ok stream => _ : Tracer Unit).run _ = _
  rw [h]
  rfl

theorem traces_predicates (ih : TracedAt n) (subject : Node) :
    Traces 2 3 (predicates subject) (Turtle.predicates subject) (n + 1) := by
  intro s trace h hn
  rw [predicates, Turtle.predicates]
  refine bind_mark ?_
  refine bind_unmarked (h.mark_loop (by decide)) fun predicate s₁ hverb => ?_
  have hlt₁ := lt_of_verb hverb
  have h₁ := (h.mark_loop (m := .predicates) (by decide)).mono
    (by omega : 2 * s₁.stream.length + 2 ≤ _)
  refine bind_traced (ih.objects subject predicate h₁ (by omega)) fun _ s₂ trace₂ hobjects h₂ => ?_
  have hlt₂ := lt_of_objects hobjects
  refine bind_unmarked h₂ fun k t hkind => ?_
  cases hkind
  split_ifs with hsemicolon
  · obtain ⟨hstop, hgo⟩ := h₂.semicolonMarks
    refine .bind_of_ok_right (z := get) rfl ?_
    cases hdrop : s₂.stream.dropSemicolons with
    | error e =>
      have hx := semicolons_run_of_error hdrop trace₂
      exact .of_error (run_bind_of_error hx) rfl ⟨rfl, hstop⟩
    | ok stream =>
      have hle := length_dropSemicolons_le hdrop
      have h₃ := hgo stream hdrop
      have hx := semicolons_run_of_ok hdrop trace₂
      refine .bind_of_ok hx rfl (bind_unmarked h₃ fun k t hkind => ?_)
      cases hkind
      split_ifs
      · exact .pure ⟨rfl, h₃⟩
      · exact ih.predicates subject h₃ (by simp only; omega)
  · exact .pure ⟨rfl, h₂⟩

theorem traces_objects (ih : TracedAt n) (subject : Node) (predicate : Iri) :
    Traces 2 3 (objects subject predicate) (Turtle.objects subject predicate) (n + 1) := by
  intro s trace h hn
  rw [objects, Turtle.objects]
  refine bind_mark ?_
  refine bind_traced (ih.object (h.mark_loop (by decide)) (by omega))
    fun o s₁ trace₁ hobject h₁ => ?_
  have hlt₁ := lt_of_object hobject
  refine bind_unmarked h₁ fun _ t hemit => ?_
  cases hemit
  refine bind_unmarked (s := { s₁ with emitted := _ }) h₁ fun k t hkind => ?_
  cases hkind
  split_ifs with hcomma
  · refine bind_unmarked h₁ fun _ s₂ hadvance => ?_
    have hlt₂ := lt_of_advance (by rw [hcomma]; decide) hadvance
    simp only at hlt₂
    exact ih.objects subject predicate (h₁.mono (by omega)) (by omega)
  · exact .pure ⟨rfl, h₁⟩

theorem traces_object (ih : TracedAt n) : Traces 1 2 object Turtle.object (n + 1) := by
  intro s trace h hn
  rw [object, Turtle.object]
  refine bind_mark ?_
  have hmark := h.mark_object
  refine bind_unmarked hmark fun k t hkind => ?_
  cases hkind
  have hiri : Together Done Stopped (do return Term.iri (← unmarked iri)) (do return .iri (← iri))
      (s, trace ++ [(.object, s.stream.length)]) s :=
    bind_traced (unmarked_done hmark fun _ _ => lt_of_iri) fun _ _ _ _ h => .pure ⟨rfl, h⟩
  cases hk : s.stream.current.kind
  case iriRef => exact hiri
  case relativeIri => exact hiri
  case prefixedName => exact hiri
  case blankNodeLabel =>
    exact bind_traced (unmarked_done hmark fun _ _ => lt_of_blankNode) fun _ _ _ _ h => .pure ⟨rfl, h⟩
  case openBracket =>
    exact bind_traced (ih.propertyList hmark (by omega)) fun _ _ _ _ h => .pure ⟨rfl, h⟩
  case openParen =>
    exact bind_traced (ih.collection hmark (by omega)) fun _ _ _ _ h => .pure ⟨rfl, h⟩
  case stringLiteral => exact unmarked_done hmark fun _ _ => lt_of_literal (.inl hk)
  case longString => exact unmarked_done hmark fun _ _ => lt_of_literal (.inr hk)
  case integer => exact unmarked_done hmark fun _ _ => lt_of_literalToken (by rw [hk]; decide)
  case decimal => exact unmarked_done hmark fun _ _ => lt_of_literalToken (by rw [hk]; decide)
  case double => exact unmarked_done hmark fun _ _ => lt_of_literalToken (by rw [hk]; decide)
  case boolean => exact unmarked_done hmark fun _ _ => lt_of_literalToken (by rw [hk]; decide)
  all_goals exact unexpected_done _ hmark

theorem traces_propertyList (ih : TracedAt n) :
    Traces 0 1 propertyList Turtle.propertyList (n + 1) := by
  intro s trace h hn
  rw [propertyList, Turtle.propertyList]
  refine bind_unmarked h fun _ s₁ hopen => ?_
  have hlt₁ := lt_of_expect (by decide) hopen
  refine bind_unmarked h fun node s₂ hnode => ?_
  have hstream : s₂.stream = s₁.stream := by
    cases hnode
    rfl
  refine bind_unmarked h fun k t hkind => ?_
  cases hkind
  have hclose {t : State} {trace : Trace} (r : Node × Bool)
      (h : Falling (2 * t.stream.length) trace) :
      Together Done Stopped (do let _ ← unmarked (expect .closeBracket); return r)
        (do let _ ← expect .closeBracket; return r) (t, trace) t :=
    bind_traced (unmarked_done h fun _ _ => lt_of_expect (by decide)) fun _ _ _ _ h => .pure ⟨rfl, h⟩
  simp only
  split_ifs
  · exact hclose _ (h.mono (by rw [hstream]; omega))
  · exact bind_traced (ih.predicates node (h.mono (by rw [hstream]; omega)) (by rw [hstream]; omega))
      fun _ _ _ _ h => hclose _ (h.mono (by omega))

theorem traces_items (ih : TracedAt n) (last : Node) :
    Traces 2 3 (items last) (Turtle.items last) (n + 1) := by
  intro s trace h hn
  rw [items, Turtle.items]
  refine bind_unmarked h fun k t hkind => ?_
  cases hkind
  split_ifs
  · exact .of_ok rfl rfl ⟨rfl, h⟩
  · refine bind_mark ?_
    refine bind_traced (ih.object (h.mark_loop (by decide)) (by omega))
      fun item s₁ trace₁ hobject h₁ => ?_
    have hlt₁ := lt_of_object hobject
    refine bind_unmarked h₁ fun cell s₂ hnode => ?_
    cases hnode
    refine bind_unmarked h₁ fun _ s₃ hemit => ?_
    cases hemit
    refine bind_unmarked h₁ fun _ s₄ hemit => ?_
    cases hemit
    exact ih.items _ h₁ (by simp only; omega)

theorem traces_collection (ih : TracedAt n) : Traces 0 1 collection Turtle.collection (n + 1) := by
  intro s trace h hn
  rw [collection, Turtle.collection]
  refine bind_unmarked h fun _ s₁ hopen => ?_
  have hlt₁ := lt_of_expect (by decide) hopen
  have h₁ := h.mono (by omega : 2 * s₁.stream.length + 2 ≤ _)
  have hclose {t : State} {trace : Trace} (node : Node) (h : Falling (2 * t.stream.length) trace) :
      Together Done Stopped (do let _ ← unmarked (expect .closeParen); return node)
        (do let _ ← expect .closeParen; return node) (t, trace) t :=
    bind_traced (unmarked_done h fun _ _ => lt_of_expect (by decide)) fun _ _ _ _ h => .pure ⟨rfl, h⟩
  refine bind_unmarked h₁ fun k t hkind => ?_
  cases hkind
  split_ifs
  · exact hclose _ (h₁.mono (by omega))
  · refine bind_mark ?_
    refine bind_traced (ih.object (h₁.mark_loop (by decide)) (by omega))
      fun item s₂ trace₂ hobject h₂ => ?_
    have hlt₂ := lt_of_object hobject
    refine bind_unmarked h₂ fun cell s₃ hnode => ?_
    cases hnode
    refine bind_unmarked h₂ fun _ s₄ hemit => ?_
    cases hemit
    refine bind_traced (ih.items _ h₂ (by simp only; omega)) fun _ t trace' _ h => ?_
    exact hclose _ (h.mono (by omega))

/-- **What the readers of nested structures do to a trace**: with any number of steps left. -/
theorem tracedAt (n : ℕ) : TracedAt n := by
  induction n with
  | zero =>
    have hnone {β : Type} {j k : ℕ} {x : ℕ → Tracer β} {y : ℕ → Parser β} (hk : 0 < k) :
        Traces j k x y 0 := fun _ hn => by omega
    exact ⟨fun _ => hnone (by decide), fun _ _ => hnone (by decide), hnone (by decide),
      hnone (by decide), fun _ => hnone (by decide), hnone (by decide)⟩
  | succ n ih =>
    exact ⟨traces_predicates ih, traces_objects ih, traces_object ih, traces_propertyList ih,
      traces_items ih, traces_collection ih⟩

/-! ### Statements -/

theorem subject_traces (h : Falling (2 * s.stream.length) trace) :
    Together Done Stopped subject Turtle.subject (s, trace) s := by
  refine bind_unmarked h fun k t hkind => ?_
  cases hkind
  have hiri : Together Done Stopped (do return Node.iri (← unmarked iri)) (do return .iri (← iri))
      (s, trace) s :=
    bind_traced (unmarked_done h fun _ _ => lt_of_iri) fun _ _ _ _ h => .pure ⟨rfl, h⟩
  cases s.stream.current.kind
  case iriRef => exact hiri
  case relativeIri => exact hiri
  case prefixedName => exact hiri
  case blankNodeLabel => exact unmarked_done h fun _ _ => lt_of_blankNode
  case openParen =>
    refine bind_unmarked h fun m t hdepth => ?_
    cases hdepth
    exact (tracedAt _).collection h (by omega)
  all_goals exact unexpected_done _ h

theorem triples_traces (h : Falling (2 * s.stream.length) trace) :
    Together Done Stopped triples Turtle.triples (s, trace) s := by
  have hpredicates {s : State} {trace : Trace} (node : Node)
      (h : Falling (2 * s.stream.length + 2) trace) :
      Together Done Stopped (do predicates node (← unmarked depth))
        (do Turtle.predicates node (← depth)) (s, trace) s := by
    refine bind_unmarked h fun m t hdepth => ?_
    cases hdepth
    exact (tracedAt _).predicates node h (by omega)
  refine bind_unmarked h fun k t hkind => ?_
  cases hkind
  split_ifs
  · refine bind_unmarked h fun m t hdepth => ?_
    cases hdepth
    refine bind_traced ((tracedAt _).propertyList h (by omega)) fun r s₁ trace₁ _ h₁ => ?_
    refine bind_unmarked h₁ fun k t hkind => ?_
    cases hkind
    split_ifs
    · exact .pure ⟨rfl, h₁⟩
    · exact hpredicates _ h₁
  · exact bind_traced (subject_traces h) fun node s₁ trace₁ _ h₁ => hpredicates node h₁

theorem statement_traces (h : Falling (2 * s.stream.length) trace) :
    Together Done Stopped statement Turtle.statement (s, trace) s := by
  refine bind_unmarked h fun _ s₀ hclear => ?_
  have h₀ : Falling (2 * s₀.stream.length) trace := by
    cases hclear
    exact h
  refine bind_unmarked h₀ fun k t hkind => ?_
  cases hkind
  have htriples : Together Done Stopped
      (do triples; let _ ← unmarked (expect .period); return (← unmarked get).emitted)
      (do Turtle.triples; let _ ← expect .period; return (← get).emitted) (s₀, trace) s₀ := by
    refine bind_traced (triples_traces h₀) fun _ s₁ trace₁ _ h₁ => ?_
    refine bind_traced (unmarked_done (h₁.mono (by omega)) fun _ _ => lt_of_expect (by decide))
      fun _ s₂ trace₂ _ h₂ => ?_
    exact .of_ok rfl rfl ⟨rfl, h₂⟩
  cases s₀.stream.current.kind
  case prefixDirective =>
    exact bind_traced (unmarked_done h₀ fun _ _ => lt_of_prefixDeclaration)
      fun _ _ _ _ h => .pure ⟨rfl, h⟩
  case baseDirective =>
    exact bind_traced (unmarked_done h₀ fun _ _ => lt_of_baseDeclaration)
      fun _ _ _ _ h => .pure ⟨rfl, h⟩
  all_goals exact htriples

/-- **The same blocks are delivered, with a falling trace**, if there are steps enough. -/
theorem deliver_falling {fuel : ℕ} (h : Falling (2 * s.stream.length + 2) trace)
    (hfuel : s.stream.length < fuel) :
    (deliver fuel (s, trace)).1 = Turtle.deliver fuel s ∧ Falling 0 (deliver fuel (s, trace)).2 := by
  induction fuel generalizing s trace with
  | zero => omega
  | succ fuel ih =>
    rw [deliver, Turtle.deliver]
    split_ifs
    · exact ⟨rfl, h.mono (Nat.zero_le _)⟩
    · have hmark := (h.mark_loop (m := .block) (by decide)).mono (Nat.le_succ _)
      rcases statement_traces hmark with ⟨stmts, p, t, hx, hy, hdone⟩ | ⟨e, p, t, hx, hy, hstop⟩
      · obtain ⟨s₁, trace₁⟩ := p
        obtain ⟨rfl, h₁⟩ := hdone
        have hlt := lt_of_statement hy
        obtain ⟨hsame, hfalling⟩ := ih h₁ (by simp only at hlt ⊢; omega)
        simp only at hx hy ⊢
        rw [hx, hy]
        exact ⟨congrArg _ hsame, hfalling⟩
      · obtain ⟨s₁, trace₁⟩ := p
        obtain ⟨rfl, h₁⟩ := hstop
        simp only at hx hy ⊢
        rw [hx, hy]
        exact ⟨rfl, h₁⟩

theorem read_falling (text : Text) (supply : Supply) :
    (read text supply).1 = Turtle.read text supply ∧ Falling 0 (read text supply).2 := by
  rw [read, Turtle.read, readState]
  cases (ofText .turtle text).sound with
  | error e => exact ⟨rfl, .nil 0⟩
  | ok stream => exact deliver_falling (.nil _) (Nat.lt_succ_self _)

example : (read "<s> <p> 1, 2 ; ; a (3) ." {}).2 =
    [(.block, 12), (.predicates, 11), (.objects, 10), (.object, 10), (.objects, 8), (.object, 8),
      (.semicolon, 7), (.semicolon, 6), (.predicates, 5), (.objects, 4), (.object, 4), (.item, 3),
      (.object, 3)] := by
  decide +kernel

end Traced

end TripleStore.Turtle
