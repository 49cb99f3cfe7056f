import TripleStore.Proofs.Parse.Together
import TripleStore.Proofs.Turtle.Lists

/-!
# The lists of a document

Here the readers are written once more, with a note of every call of the reader of lists: what was
delivered before, the state it starts in, and the bound on its steps.  Without the notes they are the
readers.  A call that ends well reads a well-formed list if the nodes that are drawn next are unused where
it starts; so they are wherever it is called, since they are unused where a document begins and every
reader leaves them so.

* `Call`, `Notes`, `Recorded.readState`: the notes, and the readers that take them.
* `Notes.Keeps`: wherever the reader of lists was called, the nodes that were drawn next were unused.
* `recordsAt`: **the readers of nested structures keep such notes.**
* `lists_of_document`: **every list that is read in a document is well-formed.**
-/

namespace TripleStore.Turtle

open TokenStream

/-! ### Notes -/

/-- A call of the reader of lists: the statements of earlier blocks, the state it starts in, and the bound
on its steps. -/
structure Call where
  past : List Statement
  state : State
  fuel : ℕ

/-- What is noted of a reading: the statements of the blocks that are through, and the calls of the reader
of lists up to now, in order. -/
structure Notes where
  past : List Statement := []
  calls : List Call := []

/-- A step of a reader that takes notes. -/
abbrev Recorder := EStateM ReadError (State × Notes)

namespace Recorded

/-- Notes a call of the reader of lists. -/
def note (fuel : ℕ) : Recorder Unit :=
  modify fun s => (s.1, { s.2 with calls := s.2.calls ++ [⟨s.2.past, s.1, fuel⟩] })

mutual

/-- Reads predicates, with notes. -/
def predicates (subject : Node) : (fuel : ℕ) → Recorder Unit
  | 0 => alongside (unexpected "predicate")
  | fuel + 1 => do
    let predicate ← alongside verb
    objects subject predicate fuel
    if (← alongside kind) = .semicolon then
      let s ← alongside get
      match s.stream.dropSemicolons with
      | .error e => alongside (throw (.lexical e))
      | .ok stream =>
        alongside (set { s with stream })
        let k ← alongside kind
        if k = .period ∨ k = .closeBracket then return ()
        else predicates subject fuel

/-- Reads objects, with notes. -/
def objects (subject : Node) (predicate : Iri) : (fuel : ℕ) → Recorder Unit
  | 0 => alongside (unexpected "object")
  | fuel + 1 => do
    let o ← object fuel
    alongside (emit subject predicate o)
    if (← alongside kind) = .comma then
      alongside advance
      objects subject predicate fuel

/-- Reads an object, with notes. -/
def object : (fuel : ℕ) → Recorder Term
  | 0 => alongside (unexpected "object")
  | fuel + 1 => do
    match ← alongside kind with
    | .iriRef | .relativeIri | .prefixedName => return .iri (← alongside iri)
    | .blankNodeLabel => return (← alongside blankNode).toTerm
    | .openBracket => return (← propertyList fuel).1.toTerm
    | .openParen => return (← collection fuel).toTerm
    | .stringLiteral | .longString => alongside literal
    | .integer => alongside (literalToken .integer)
    | .decimal => alongside (literalToken .decimal)
    | .double => alongside (literalToken .double)
    | .boolean => alongside (literalToken fun text => .boolean (text == "true"))
    | _ => alongside (unexpected "object")

/-- Reads properties in brackets, with notes. -/
def propertyList : (fuel : ℕ) → Recorder (Node × Bool)
  | 0 => alongside (unexpected "object")
  | fuel + 1 => do
    let _ ← alongside (expect .openBracket)
    let node ← alongside anonymous
    let empty := (← alongside kind) = .closeBracket
    if ¬ empty then predicates node fuel
    let _ ← alongside (expect .closeBracket)
    return (node, empty)

/-- Reads the items of a list behind a cell, with notes. -/
def items (last : Node) : (fuel : ℕ) → Recorder Unit
  | 0 => alongside (unexpected "object")
  | fuel + 1 => do
    if (← alongside kind) = .closeParen then
      alongside (emit last Vocabulary.rest (.iri Vocabulary.nil))
    else
      let item ← object fuel
      let cell ← alongside anonymous
      alongside (emit last Vocabulary.rest cell.toTerm)
      alongside (emit cell Vocabulary.first item)
      items cell fuel

/-- Reads a list in parentheses, with a note in front. -/
def collection : (fuel : ℕ) → Recorder Node
  | 0 => do
    note 0
    alongside (unexpected "object")
  | fuel + 1 => do
    note (fuel + 1)
    let _ ← alongside (expect .openParen)
    if (← alongside kind) = .closeParen then
      let _ ← alongside (expect .closeParen)
      return .iri Vocabulary.nil
    else
      let item ← object fuel
      let cell ← alongside anonymous
      alongside (emit cell Vocabulary.first item)
      items cell fuel
      let _ ← alongside (expect .closeParen)
      return cell

end

/-- Reads a subject that is not in brackets, with notes. -/
def subject : Recorder Node := do
  match ← alongside kind with
  | .iriRef | .relativeIri | .prefixedName => return .iri (← alongside iri)
  | .blankNodeLabel => alongside blankNode
  | .openParen => collection (← alongside depth)
  | _ => alongside (unexpected "subject")

/-- Reads the triples of one subject, with notes. -/
def triples : Recorder Unit := do
  if (← alongside kind) = .openBracket then
    let (node, empty) ← propertyList (← alongside depth)
    if ¬ empty ∧ (← alongside kind) = .period then return ()
    else predicates node (← alongside depth)
  else
    let node ← subject
    predicates node (← alongside depth)

/-- Reads a directive, or a block of triples with its full stop, with notes. -/
def statement : Recorder (List Statement) := do
  alongside (modify fun s => { s with emitted := [] })
  match ← alongside kind with
  | .prefixDirective =>
    alongside prefixDeclaration
    return []
  | .baseDirective =>
    alongside baseDeclaration
    return []
  | _ =>
    triples
    let _ ← alongside (expect .period)
    return (← alongside get).emitted

/-- Delivers at most `fuel` blocks, and notes what they were. -/
def deliver : (fuel : ℕ) → State × Notes → Delivery × Notes
  | 0, s => (.finish s.1.supply, s.2)
  | fuel + 1, s =>
    if s.1.stream.current.kind = .eof then (.finish s.1.supply, s.2)
    else match statement.run s with
      | .ok statements s =>
        let later := deliver fuel (s.1, { s.2 with past := s.2.past ++ statements })
        (.block statements s.1.supply later.1, later.2)
      | .error e s => (.failed e s.1.supply, s.2)

/-- Delivers the blocks of a state, with the notes of their reading. -/
def readState (s : State) : Delivery × Notes :=
  match s.stream.sound with
  | .error e => (.failed (.lexical e) s.supply, {})
  | .ok stream => deliver (stream.length + 1) ({ s with stream }, {})

end Recorded

/-! ### Readers and their notes -/

/-- These statements are noted, and wherever the reader of lists was called, they began with what was
noted there, and the nodes that were drawn next were unused. -/
structure Notes.Keeps (notes : Notes) (past : List Statement) : Prop where
  noted : notes.past = past
  before : ∀ call ∈ notes.calls, call.past <+: past
  unused : ∀ call ∈ notes.calls, call.state.Unused call.past

/-- More statements are noted. -/
theorem Notes.Keeps.append {notes : Notes} {past : List Statement} (h : notes.Keeps past)
    (stmts : List Statement) :
    ({ notes with past := notes.past ++ stmts } : Notes).Keeps (past ++ stmts) :=
  ⟨congrArg (· ++ stmts) h.noted, fun call hcall => (h.before call hcall).trans (List.prefix_append _ _),
    h.unused⟩

/-- Where two readers end, in one state, the notes are kept. -/
def Kept (past : List Statement) (s : State × Notes) (t : State) : Prop :=
  s.1 = t ∧ s.2.Keeps past

/-- With its notes the reader does what it does without them, and keeps them. -/
abbrev RecordedAs {α : Type} (past : List Statement) (x : Recorder α) (y : Parser α) (s : State)
    (notes : Notes) : Prop :=
  Together (Kept past) (Kept past) x y (s, notes) s

variable {α β : Type} {past : List Statement} {s : State} {notes : Notes} {n : ℕ}

namespace Recorded

variable {x : Recorder β} {r y : Parser β} {f : β → Recorder α} {g : β → Parser α}

theorem bind_alongside (hk : notes.Keeps past)
    (hf : ∀ a t, r.run s = .ok a t → RecordedAs past (f a) (g a) t notes) :
    RecordedAs past (alongside r >>= f) (r >>= g) s notes :=
  .bind_alongside (fun _ => ⟨rfl, hk⟩) hf

theorem of_alongside (hk : notes.Keeps past) : RecordedAs past (alongside r) r s notes := by
  have h := bind_alongside (s := s) (r := r) (f := pure) (g := pure) hk fun _ _ _ => .pure ⟨rfl, hk⟩
  rwa [bind_pure, bind_pure] at h

/-- Behind a reader with notes, the next one goes on with the notes that it kept. -/
theorem bind_recorded (hx : RecordedAs past x y s notes)
    (hf : ∀ a t notes', y.run s = .ok a t → notes'.Keeps past →
      RecordedAs past (f a) (g a) t notes') :
    RecordedAs past (x >>= f) (y >>= g) s notes := by
  refine .bind hx fun a p t _ hy hkept => ?_
  obtain ⟨t, notes'⟩ := p
  obtain ⟨rfl, hk⟩ := hkept
  exact hf a t notes' hy hk

/-- **The reader of lists is called where the nodes that are drawn next are unused.** -/
theorem bind_note {fuel : ℕ} {f : Unit → Recorder α} {y : Parser α} (hk : notes.Keeps past)
    (hs : s.Unused past) (hf : ∀ notes', notes'.Keeps past → RecordedAs past (f ()) y s notes') :
    RecordedAs past (note fuel >>= f) y s notes := by
  have hbefore : notes.past <+: past := hk.noted ▸ List.prefix_rfl
  have hunused : s.Unused notes.past := hk.noted.symm ▸ hs
  exact .bind_of_ok_left rfl (hf _ ⟨hk.noted,
    List.forall_mem_append.mpr ⟨hk.before, List.forall_mem_singleton.mpr hbefore⟩,
    List.forall_mem_append.mpr ⟨hk.unused, List.forall_mem_singleton.mpr hunused⟩⟩)

/-- The readers of nested structures with `n` steps left. -/
structure RecordsAt (n : ℕ) : Prop where
  predicates : ∀ {past s notes subject}, notes.Keeps past → s.Unused past → s.Free subject.toTerm →
    RecordedAs past (predicates subject n) (Turtle.predicates subject n) s notes
  objects : ∀ {past s notes subject predicate}, notes.Keeps past → s.Unused past →
    s.Free subject.toTerm →
    RecordedAs past (objects subject predicate n) (Turtle.objects subject predicate n) s notes
  object : ∀ {past s notes}, notes.Keeps past → s.Unused past →
    RecordedAs past (object n) (Turtle.object n) s notes
  propertyList : ∀ {past s notes}, notes.Keeps past → s.Unused past →
    RecordedAs past (propertyList n) (Turtle.propertyList n) s notes
  items : ∀ {past s notes last}, notes.Keeps past → s.Unused past → s.Free last.toTerm →
    RecordedAs past (items last n) (Turtle.items last n) s notes
  collection : ∀ {past s notes}, notes.Keeps past → s.Unused past →
    RecordedAs past (collection n) (Turtle.collection n) s notes

theorem records_predicates (ih : RecordsAt n) {subject : Node} (hk : notes.Keeps past)
    (hs : s.Unused past) (hsubject : s.Free subject.toTerm) :
    RecordedAs past (predicates subject (n + 1)) (Turtle.predicates subject (n + 1)) s notes := by
  rw [predicates, Turtle.predicates]
  refine bind_alongside hk fun predicate s₁ hverb => ?_
  have h₁ := verb_leads hs hverb
  refine bind_recorded (ih.objects hk h₁.unused (h₁.free hsubject)) fun _ s₂ notes₂ hobjects hk₂ => ?_
  have h₂ := h₁.trans (objects_leads h₁.unused (h₁.free hsubject) hobjects)
  refine bind_alongside hk₂ fun k t hkind => ?_
  cases hkind
  split_ifs
  · refine bind_alongside hk₂ fun _ t hget => ?_
    cases hget
    cases hdrop : s₂.stream.dropSemicolons with
    | error e => exact of_alongside hk₂
    | ok stream =>
      have h₃ : s₂.Leads past { s₂ with stream } :=
        h₂.unused.leads rfl rfl rfl (length_dropSemicolons_le hdrop)
      refine bind_alongside hk₂ fun _ t hset => ?_
      cases hset
      refine bind_alongside hk₂ fun k t hkind => ?_
      cases hkind
      split_ifs
      · exact .pure ⟨rfl, hk₂⟩
      · exact ih.predicates hk₂ h₃.unused (h₃.free (h₂.free hsubject))
  · exact .pure ⟨rfl, hk₂⟩

theorem records_objects (ih : RecordsAt n) {subject : Node} {predicate : Iri} (hk : notes.Keeps past)
    (hs : s.Unused past) (hsubject : s.Free subject.toTerm) :
    RecordedAs past (objects subject predicate (n + 1)) (Turtle.objects subject predicate (n + 1)) s
      notes := by
  rw [objects, Turtle.objects]
  refine bind_recorded (ih.object hk hs) fun o s₁ notes₁ hobject hk₁ => ?_
  obtain ⟨h₁, ho⟩ := object_leads hs hobject
  refine bind_alongside hk₁ fun _ s₂ hemit => ?_
  have h₂ := h₁.trans (h₁.unused.emit (h₁.free hsubject) ho hemit)
  refine bind_alongside hk₁ fun k t hkind => ?_
  cases hkind
  split_ifs with hcomma
  · refine bind_alongside hk₁ fun _ s₃ hadvance => ?_
    have h₃ := advance_leads h₂.unused (by rw [hcomma]; decide) hadvance
    exact ih.objects hk₁ h₃.unused (h₃.free (h₂.free hsubject))
  · exact .pure ⟨rfl, hk₁⟩

theorem records_object (ih : RecordsAt n) (hk : notes.Keeps past) (hs : s.Unused past) :
    RecordedAs past (object (n + 1)) (Turtle.object (n + 1)) s notes := by
  rw [object, Turtle.object]
  refine bind_alongside hk fun k t hkind => ?_
  cases hkind
  have hiri : RecordedAs past (do return Term.iri (← alongside iri)) (do return .iri (← iri)) s notes :=
    bind_alongside hk fun _ _ _ => .pure ⟨rfl, hk⟩
  cases s.stream.current.kind
  case iriRef => exact hiri
  case relativeIri => exact hiri
  case prefixedName => exact hiri
  case blankNodeLabel => exact bind_alongside hk fun _ _ _ => .pure ⟨rfl, hk⟩
  case openBracket => exact bind_recorded (ih.propertyList hk hs) fun _ _ _ _ hk => .pure ⟨rfl, hk⟩
  case openParen => exact bind_recorded (ih.collection hk hs) fun _ _ _ _ hk => .pure ⟨rfl, hk⟩
  all_goals exact of_alongside hk

theorem records_propertyList (ih : RecordsAt n) (hk : notes.Keeps past) (hs : s.Unused past) :
    RecordedAs past (propertyList (n + 1)) (Turtle.propertyList (n + 1)) s notes := by
  rw [propertyList, Turtle.propertyList]
  refine bind_alongside hk fun _ s₁ hopen => ?_
  refine bind_alongside hk fun node s₂ hanonymous => ?_
  obtain ⟨h₂, hnode⟩ := bracket_leads hs hopen hanonymous
  refine bind_alongside hk fun k t hkind => ?_
  cases hkind
  have hclose {t : State} {notes : Notes} (r : Node × Bool) (hk : notes.Keeps past) :
      RecordedAs past (do let _ ← alongside (expect .closeBracket); return r)
        (do let _ ← expect .closeBracket; return r) t notes :=
    bind_alongside hk fun _ _ _ => .pure ⟨rfl, hk⟩
  simp only
  split_ifs
  · exact hclose _ hk
  · exact bind_recorded (ih.predicates hk h₂.unused hnode) fun _ _ _ _ hk => hclose _ hk

theorem records_items (ih : RecordsAt n) {last : Node} (hk : notes.Keeps past) (hs : s.Unused past)
    (hlast : s.Free last.toTerm) :
    RecordedAs past (items last (n + 1)) (Turtle.items last (n + 1)) s notes := by
  rw [items, Turtle.items]
  refine bind_alongside hk fun k t hkind => ?_
  cases hkind
  split_ifs
  · exact of_alongside hk
  · refine bind_recorded (ih.object hk hs) fun item s₁ notes₁ hobject hk₁ => ?_
    refine bind_alongside hk₁ fun cell s₂ hanonymous => ?_
    obtain ⟨h₂, hitem, hcell⟩ := item_leads hs hobject hanonymous
    refine bind_alongside hk₁ fun _ s₃ hemit => ?_
    have h₃ := h₂.unused.emit (h₂.free hlast) hcell hemit
    refine bind_alongside hk₁ fun _ s₄ hemit' => ?_
    have h₄ := h₃.unused.emit (h₃.free hcell) (h₃.free hitem) hemit'
    exact ih.items hk₁ h₄.unused (h₄.free (h₃.free hcell))

theorem records_collection (ih : RecordsAt n) (hk : notes.Keeps past) (hs : s.Unused past) :
    RecordedAs past (collection (n + 1)) (Turtle.collection (n + 1)) s notes := by
  rw [collection, Turtle.collection]
  refine bind_note hk hs fun notes hk => ?_
  refine bind_alongside hk fun _ s₁ hopen => ?_
  have h₁ := expect_leads hs (by decide) hopen
  have hclose {t : State} {notes : Notes} (node : Node) (hk : notes.Keeps past) :
      RecordedAs past (do let _ ← alongside (expect .closeParen); return node)
        (do let _ ← expect .closeParen; return node) t notes :=
    bind_alongside hk fun _ _ _ => .pure ⟨rfl, hk⟩
  refine bind_alongside hk fun k t hkind => ?_
  cases hkind
  split_ifs
  · exact hclose _ hk
  · refine bind_recorded (ih.object hk h₁.unused) fun item s₂ notes₂ hobject hk₂ => ?_
    refine bind_alongside hk₂ fun cell s₃ hanonymous => ?_
    obtain ⟨h₃, hitem, hcell⟩ := item_leads h₁.unused hobject hanonymous
    refine bind_alongside hk₂ fun _ s₄ hemit => ?_
    have h₄ := h₃.unused.emit hcell hitem hemit
    exact bind_recorded (ih.items hk₂ h₄.unused (h₄.free hcell)) fun _ _ _ _ hk => hclose _ hk

/-- **The readers of nested structures keep the notes**, with any number of steps left. -/
theorem recordsAt (n : ℕ) : RecordsAt n := by
  induction n with
  | zero =>
    refine ⟨fun hk _ _ => of_alongside hk, fun hk _ _ => of_alongside hk, fun hk _ => ?_, fun hk _ => ?_,
      fun hk _ _ => of_alongside hk, fun hk hs => bind_note hk hs fun _ hk => of_alongside hk⟩
    · rw [object, Turtle.object]
      exact of_alongside hk
    · rw [propertyList, Turtle.propertyList]
      exact of_alongside hk
  | succ n ih =>
    exact ⟨records_predicates ih, records_objects ih, records_object ih, records_propertyList ih,
      records_items ih, records_collection ih⟩

/-! ### Blocks -/

theorem records_subject (hk : notes.Keeps past) (hs : s.Unused past) :
    RecordedAs past subject Turtle.subject s notes := by
  refine bind_alongside hk fun k t hkind => ?_
  cases hkind
  have hiri : RecordedAs past (do return Node.iri (← alongside iri)) (do return .iri (← iri)) s notes :=
    bind_alongside hk fun _ _ _ => .pure ⟨rfl, hk⟩
  cases s.stream.current.kind
  case iriRef => exact hiri
  case relativeIri => exact hiri
  case prefixedName => exact hiri
  case openParen =>
    refine bind_alongside hk fun m t hdepth => ?_
    cases hdepth
    exact (recordsAt _).collection hk hs
  all_goals exact of_alongside hk

theorem records_triples (hk : notes.Keeps past) (hs : s.Unused past) :
    RecordedAs past triples Turtle.triples s notes := by
  have hpredicates {t : State} {notes : Notes} {node : Node} (hk : notes.Keeps past)
      (ht : t.Unused past) (hnode : t.Free node.toTerm) :
      RecordedAs past (do predicates node (← alongside depth))
        (do Turtle.predicates node (← depth)) t notes := by
    refine bind_alongside hk fun m t hdepth => ?_
    cases hdepth
    exact (recordsAt _).predicates hk ht hnode
  refine bind_alongside hk fun k t hkind => ?_
  cases hkind
  split_ifs
  · refine bind_alongside hk fun m t hdepth => ?_
    cases hdepth
    refine bind_recorded ((recordsAt _).propertyList hk hs) fun r s₁ notes₁ hlist hk₁ => ?_
    obtain ⟨h₁, hnode⟩ := propertyList_leads hs hlist
    refine bind_alongside hk₁ fun k t hkind => ?_
    cases hkind
    split_ifs
    · exact .pure ⟨rfl, hk₁⟩
    · exact hpredicates hk₁ h₁.unused hnode
  · refine bind_recorded (records_subject hk hs) fun node s₁ notes₁ hsubject hk₁ => ?_
    obtain ⟨h₁, hnode⟩ := subject_leads hs hsubject
    exact hpredicates hk₁ h₁.unused hnode

theorem records_statement (hk : notes.Keeps past)
    (hs : ({ s with emitted := [] } : State).Unused past) :
    RecordedAs past statement Turtle.statement s notes := by
  refine bind_alongside hk fun _ s₀ hclear => ?_
  cases hclear
  refine bind_alongside hk fun k t hkind => ?_
  cases hkind
  have htriples : RecordedAs past
      (do triples; let _ ← alongside (expect .period); return (← alongside get).emitted)
      (do Turtle.triples; let _ ← expect .period; return (← get).emitted)
      { s with emitted := [] } notes := by
    refine bind_recorded (records_triples hk hs) fun _ s₁ notes₁ _ hk₁ => ?_
    refine bind_alongside hk₁ fun _ s₂ _ => ?_
    exact bind_alongside hk₁ fun _ _ _ => .pure ⟨rfl, hk₁⟩
  cases s.stream.current.kind
  case prefixDirective => exact bind_alongside hk fun _ _ _ => .pure ⟨rfl, hk⟩
  case baseDirective => exact bind_alongside hk fun _ _ _ => .pure ⟨rfl, hk⟩
  all_goals exact htriples

/-- **The same blocks are delivered**, their statements are noted, and wherever the reader of lists is
called on the way, the nodes that are drawn next are unused. -/
theorem records_deliver {fuel : ℕ} (hk : notes.Keeps past)
    (hs : ({ s with emitted := [] } : State).Unused past) :
    (deliver fuel (s, notes)).1 = Turtle.deliver fuel s ∧
      (deliver fuel (s, notes)).2.Keeps (past ++ (Turtle.deliver fuel s).receive.statements) := by
  induction fuel generalizing past s notes with
  | zero =>
    rw [Turtle.deliver, Delivery.receive, List.append_nil]
    exact ⟨rfl, hk⟩
  | succ fuel ih =>
    rw [deliver, Turtle.deliver]
    split_ifs
    · rw [Delivery.receive, List.append_nil]
      exact ⟨rfl, hk⟩
    · rcases records_statement hk hs with ⟨stmts, p, t, hx, hy, hkept⟩ | ⟨e, p, t, hx, hy, hkept⟩
      · obtain ⟨t, notes'⟩ := p
        obtain ⟨rfl, hk'⟩ := hkept
        -- for the next block, the triples of this one are of an earlier block
        obtain ⟨hsame, hlater⟩ := ih (hk'.append stmts) (statement_unused hs hy)
        rw [hx, hy]
        refine ⟨congrArg _ hsame, ?_⟩
        rw [List.append_assoc] at hlater
        exact hlater
      · obtain ⟨t, notes'⟩ := p
        obtain ⟨rfl, hk'⟩ := hkept
        rw [hx, hy]
        refine ⟨rfl, ?_⟩
        rw [Delivery.receive, List.append_nil]
        exact hk'

end Recorded

/-! ### Lists -/

/-- **Every list that is read in a document is well-formed**, whatever tokens the document has, if there
are not so many that the counter could come round.  The reading with notes delivers what the reading
delivers, and what it notes as said before a call are the first of the statements delivered.  Where a call
of the reader of lists ends well, its tokens are those of its items in parentheses, and the triples that
were added are a list of different anonymous cells with these items, which no statement of an earlier
block, no triple from before in the same block and no item speaks of. -/
theorem lists_of_document (stream : TokenStream) (prefixes : List (Text × Text)) (base : Text)
    (supply : Supply) (hroom : stream.length < 2 ^ 64) :
    let reading := Recorded.readState { stream, prefixes, base, supply }
    reading.1 = readState { stream, prefixes, base, supply } ∧
      ∀ call ∈ reading.2.calls, call.past <+: reading.1.receive.statements ∧
        ∀ head s', (collection call.fuel).run call.state = .ok head s' →
          ∃ (opening : Leaf .openParen) (items : Items) (closing : Leaf .closeParen) (cells : List Cell)
            (added : List Statement),
            call.state.stream = after (opening.1 :: (items.tokens ++ [closing.1])) s'.stream ∧
            Spelled call.state call.past head s' items cells added := by
  intro reading
  have hstart := State.Unused.start stream prefixes base supply hroom
  have hnotes : ({} : Notes).Keeps [] :=
    ⟨rfl, fun _ hcall => absurd hcall List.not_mem_nil, fun _ hcall => absurd hcall List.not_mem_nil⟩
  obtain ⟨hsame, hkeeps⟩ : reading.1 = readState { stream, prefixes, base, supply } ∧
      reading.2.Keeps (readState { stream, prefixes, base, supply }).receive.statements := by
    simp only [reading, Recorded.readState, readState]
    cases hsound : stream.sound with
    | error e => exact ⟨rfl, hnotes⟩
    | ok stream' =>
      obtain ⟨-, rfl⟩ := sound_eq_ok.mp hsound
      exact Recorded.records_deliver hnotes hstart
  refine ⟨hsame, fun call hcall => ⟨?_, fun head s' h => ?_⟩⟩
  · rw [hsame]
    exact hkeeps.before call hcall
  · exact collection_spelled (hkeeps.unused call hcall) h

/-- The second list of a document, behind another block: with an empty list inside a property list, and with
a list as its last item. -/
theorem lists_of_document_nested :
    let stream := ofText .turtle "<x:s> <x:p> (2) . _:b <x:p> (1 [<x:q> ()] (<x:a>)) ."
    stream.length < 2 ^ 64 ∧
      ∃ call ∈ (Recorded.readState { stream, supply := { anonymous := 5 } }).2.calls,
      call.past.length = 3 ∧ ∃ head s', (collection call.fuel).run call.state = .ok head s' ∧
        head = .blank (anonymousLabel 7) ∧ ∃ cells added, s'.emitted = call.state.emitted ++ added ∧
          added.length = 9 ∧ Walk added head (contents cells) ∧
          ∀ cell ∈ cells, ∀ stmt ∈ call.past, ¬ stmt.Mentions cell.node := by
  intro stream
  have hroom : stream.length < 2 ^ 64 := by
    have hlength : stream.length = 20 := by decide +kernel
    rw [hlength]
    decide
  have hsecond : ((Recorded.readState { stream, supply := { anonymous := 5 } }).2.calls[1]?).any
      (fun call => decide (call.past.length = 3) &&
      match (collection call.fuel).run call.state with
      | .ok head s' => decide (head = .blank (anonymousLabel 7) ∧
          s'.emitted.length = call.state.emitted.length + 9)
      | .error _ _ => false) = true := by decide +kernel
  obtain ⟨call, hcall, hends⟩ := (Option.any_eq_true _ _).mp hsecond
  obtain ⟨hpast, hends⟩ := Bool.and_eq_true_iff.mp hends
  have hmem := List.mem_of_getElem? hcall
  refine ⟨hroom, call, hmem, of_decide_eq_true hpast, ?_⟩
  cases hrun : (collection call.fuel).run call.state with
  | error e s' =>
    rw [hrun] at hends
    cases hends
  | ok head s' =>
    rw [hrun] at hends
    obtain ⟨hhead, hlength⟩ := of_decide_eq_true hends
    have hlists := (lists_of_document stream [] [] { anonymous := 5 } hroom).2
    obtain ⟨_, _, _, cells, added, -, hspelled⟩ := (hlists call hmem).2 head s' hrun
    rw [hspelled.emitted, List.length_append] at hlength
    refine ⟨head, s', rfl, hhead, cells, added, hspelled.emitted, Nat.add_left_cancel hlength,
      hspelled.walk, ?_⟩
    exact fun cell hcell stmt hstmt => hspelled.new cell hcell stmt (List.mem_append_left _ hstmt)

end TripleStore.Turtle
