import TripleStore.Proofs.NTriples.Parser
import TripleStore.Proofs.Parse.Meaning

/-!
# The grammar of N-Triples

A document is a sequence of lines, each with a subject, a predicate, an object and a full stop:

    line    := subject IRI object '.'
    subject := IRI | label
    object  := IRI | label | string (tag | '^^' IRI)?

* `Document`: the documents, with `Document.tokens` and `Document.meaning`.
* `exists_document_of_parse`: **a text that was read is a document**, and means what was read.
* `parse_of_document`: **a document is read.**
-/

namespace TripleStore.NTriples

open TokenStream

/-! ### Trees -/

/-- A subject. -/
inductive Subject
  | iri (t : Leaf .iriRef)
  | label (t : Leaf .blankNodeLabel)

/-- What follows a string. -/
inductive Suffix
  | none
  | tag (t : Leaf .langTag)
  | datatype (mark : Leaf .typeTag) (t : Leaf .iriRef)

/-- An object. -/
inductive Object
  | iri (t : Leaf .iriRef)
  | label (t : Leaf .blankNodeLabel)
  | string (t : Leaf .stringLiteral) (suffix : Suffix)

/-- A line. -/
structure Line where
  subject : Subject
  predicate : Leaf .iriRef
  object : Object
  stop : Leaf .period

/-- The token that a subject is read from. -/
def Subject.tokens : Subject → List Token
  | iri t => [t.1]
  | label t => [t.1]

/-- The node of a subject. -/
def Subject.meaning : Subject → Meaning Node
  | iri t => return .iri (← Meaning.valid t.1.text)
  | label t => Meaning.labelled (t.1.text.drop 2)

/-- The tokens that a suffix is read from. -/
def Suffix.tokens : Suffix → List Token
  | none => []
  | tag t => [t.1]
  | datatype mark t => [mark.1, t.1]

/-- The literal of a value with this suffix. -/
def Suffix.meaning (value : Text) : Suffix → Meaning Term
  | none => return .plain value
  | tag t => .tagged value t.1.text
  | datatype _ t => return .typed value (← Meaning.valid t.1.text)

/-- The tokens that an object is read from. -/
def Object.tokens : Object → List Token
  | iri t => [t.1]
  | label t => [t.1]
  | string t suffix => t.1 :: suffix.tokens

/-- The term of an object. -/
def Object.meaning : Object → Meaning Term
  | iri t => return .iri (← Meaning.valid t.1.text)
  | label t => return (← Meaning.labelled (t.1.text.drop 2)).toTerm
  | string t suffix => suffix.meaning t.1.text

/-- The tokens that a line is read from. -/
def Line.tokens (line : Line) : List Token :=
  line.subject.tokens ++ line.predicate.1 :: (line.object.tokens ++ [line.stop.1])

/-- The statement of a line. -/
def Line.meaning (line : Line) : Meaning Statement := do
  let subject ← line.subject.meaning
  let predicate ← Meaning.valid line.predicate.1.text
  let object ← line.object.meaning
  return ⟨subject, predicate, object, none⟩

/-- A document. -/
abbrev Document : Type := List Line

namespace Document

/-- The tokens that a document is read from. -/
def tokens (d : Document) : List Token := d.flatMap Line.tokens

theorem tokens_cons (line : Line) (d : Document) :
    tokens (line :: d) = line.tokens ++ tokens d := List.flatMap_cons

/-- The statements of a document. -/
def meaning : Document → Meaning (List Statement)
  | [] => return []
  | line :: rest => do
    let stmt ← line.meaning
    return stmt :: (← meaning rest)

end Document

/-! ### Single tokens -/

/-- The state of a reader with labels met and tokens ahead. -/
def reading (l : Labels) (stream : TokenStream) : State := ⟨stream, l.scope, l.supply⟩

theorem stream_reading (l : Labels) (stream : TokenStream) : (reading l stream).stream = stream :=
  rfl

variable {l l' : Labels} {stream rest : TokenStream} {s' : State} {t : Token}

theorem current_reading (l : Labels) (stream : TokenStream) :
    current.run (reading l stream) = .ok stream.current (reading l stream) := rfl

/-- Giving up a token that is not the end. -/
theorem advance_passes (hk : stream.current.kind ≠ .eof) {u : Unit}
    (h : advance.run (reading l stream) = .ok u s') :
    ∃ rest, stream = .token stream.current rest ∧ rest.Sound ∧ s' = reading l rest := by
  obtain ⟨rest, hstream⟩ := eq_token_of_current hk
  refine ⟨rest, hstream, ?_⟩
  rw [hstream, advance, run_bind_eq_ok] at h
  obtain ⟨_, _, hget, h⟩ := h
  cases hget
  split at h
  · next r htail =>
    obtain ⟨hsound, rfl⟩ := sound_eq_ok.mp htail
    cases h
    exact ⟨hsound, rfl⟩
  · exact absurd h run_throw_ne_ok

theorem expect_eq_ok_iff {k : Kind} (hk : k ≠ .eof) :
    (expect k).run (reading l stream) = .ok t s' ↔
      ∃ rest, stream = .token t rest ∧ t.kind = k ∧ rest.Sound ∧ s' = reading l rest := by
  constructor
  · intro h
    obtain ⟨rfl, hkind⟩ := expect_eq_ok h
    rw [expect, run_bind_of_ok (current_reading l stream)] at h
    rw [stream_reading] at hkind
    rw [if_pos hkind] at h
    obtain ⟨_, s₁, hadv, hret⟩ := run_bind_eq_ok.mp h
    obtain ⟨rest, hstream, hsound, rfl⟩ := advance_passes (by rw [hkind]; exact hk) hadv
    cases hret
    exact ⟨rest, hstream, hkind, hsound, rfl⟩
  · intro h
    obtain ⟨rest, rfl, hkind, hsound, rfl⟩ := h
    exact expect_run hkind hsound

theorem iri_eq_ok_iff {i : Iri} :
    iri.run (reading l stream) = .ok i s' ↔
      ∃ (t : Leaf .iriRef) (rest : TokenStream) (l' : Labels), stream = .token t.1 rest ∧
        rest.Sound ∧ (Meaning.valid t.1.text).run l = some (i, l') ∧ s' = reading l' rest := by
  constructor
  · intro h
    obtain ⟨-, hv⟩ := iri_eq_ok h
    rw [iri, run_bind_eq_ok] at h
    obtain ⟨t, s₁, hexp, h⟩ := h
    obtain ⟨rest, hstream, hk, hsound, rfl⟩ := (expect_eq_ok_iff (by decide)).mp hexp
    split at h
    · cases h
      exact ⟨⟨t, hk⟩, rest, l, hstream, hsound,
        Meaning.run_valid_eq_some.mpr ⟨Term.violation?_iri.mp hv, rfl, rfl⟩, rfl⟩
    · exact absurd h run_throw_ne_ok
  · intro h
    obtain ⟨t, rest, l', rfl, hsound, hm, rfl⟩ := h
    obtain ⟨hid, rfl, rfl⟩ := Meaning.run_valid_eq_some.mp hm
    exact iri_run t.2 hid hsound

theorem blankNode_eq_ok_iff {n : Text} :
    (blankNode .scoped).run (reading l stream) = .ok n s' ↔
      ∃ (t : Leaf .blankNodeLabel) (rest : TokenStream) (l' : Labels), stream = .token t.1 rest ∧
        rest.Sound ∧ (Meaning.labelled (t.1.text.drop 2)).run l = some (.blank n, l') ∧
        s' = reading l' rest := by
  rw [blankNode, run_bind_eq_ok]
  constructor
  · intro h
    obtain ⟨t, s₁, hexp, h⟩ := h
    obtain ⟨rest, hstream, hk, hsound, rfl⟩ := (expect_eq_ok_iff (by decide)).mp hexp
    simp only at h
    split_ifs at h
    · obtain ⟨_, _, h, _⟩ := run_bind_eq_ok.mp h
      exact absurd h run_throw_ne_ok
    · split at h
      · next hv =>
        cases h
        exact ⟨⟨t, hk⟩, rest, _, hstream, hsound,
          Meaning.run_labelled_eq_some.mpr ⟨Term.violation?_blank.mp hv, rfl, rfl⟩, rfl⟩
      · exact absurd h run_throw_ne_ok
  · intro h
    obtain ⟨t, rest, l', rfl, hsound, hm, rfl⟩ := h
    obtain ⟨hid, hn, rfl⟩ := Meaning.run_labelled_eq_some.mp hm
    cases hn
    have hne : (t.1.text.drop 2).isEmpty = false := by
      cases hlabel : t.1.text.drop 2 with
      | nil =>
        rw [hlabel] at hid
        cases hid
      | cons b label => rfl
    refine ⟨t.1, reading l rest, (expect_eq_ok_iff (by decide)).mpr
      ⟨rest, rfl, t.2, hsound, rfl⟩, ?_⟩
    simp only [hne, Bool.false_eq_true, if_false, Term.violation?_blank.mpr hid]
    rfl

/-! ### What is read is in the grammar -/

theorem subject_sound {n : Node} (h : subject.run (reading l stream) = .ok n s') :
    ∃ (x : Subject) (rest : TokenStream) (l' : Labels), stream = after x.tokens rest ∧
      rest.Sound ∧ x.meaning.run l = some (n, l') ∧ s' = reading l' rest := by
  rw [subject, run_bind_of_ok (current_reading l stream)] at h
  split at h
  · obtain ⟨i, s₁, hiri, hret⟩ := run_bind_eq_ok.mp h
    obtain ⟨t, rest, l', rfl, hsound, hm, rfl⟩ := iri_eq_ok_iff.mp hiri
    cases hret
    exact ⟨.iri t, rest, l', rfl, hsound, Meaning.run_bind_eq_some.mpr ⟨i, l', hm, rfl⟩, rfl⟩
  · obtain ⟨label, s₁, hblank, hret⟩ := run_bind_eq_ok.mp h
    obtain ⟨t, rest, l', rfl, hsound, hm, rfl⟩ := blankNode_eq_ok_iff.mp hblank
    cases hret
    exact ⟨.label t, rest, l', rfl, hsound, hm, rfl⟩
  · exact absurd h unexpected_ne_ok

theorem literal_sound {u : Term} (h : literal.run (reading l stream) = .ok u s') :
    ∃ (t : Leaf .stringLiteral) (suffix : Suffix) (rest : TokenStream) (l' : Labels),
      stream = after (t.1 :: suffix.tokens) rest ∧ (suffix.meaning t.1.text).run l = some (u, l') ∧
      s' = reading l' rest := by
  rw [literal, run_bind_eq_ok] at h
  obtain ⟨value, s₁, hexp, h⟩ := h
  obtain ⟨rest, rfl, hvalue, -, rfl⟩ := (expect_eq_ok_iff (by decide)).mp hexp
  rw [run_bind_of_ok (current_reading l rest)] at h
  split at h
  · next htag =>
    obtain ⟨_, s₂, hadv, h⟩ := run_bind_eq_ok.mp h
    obtain ⟨rest', hrest, -, rfl⟩ := advance_passes (by rw [htag]; decide) hadv
    split at h
    · next hv =>
      cases h
      refine ⟨⟨value, hvalue⟩, .tag ⟨_, htag⟩, rest', l, ?_,
        Meaning.run_tagged_eq_some.mpr ⟨Term.violation?_lang.mp hv, rfl, rfl⟩, rfl⟩
      rw [Suffix.tokens, after_cons, after_cons, after_nil, ← hrest]
    · exact absurd h run_throw_ne_ok
  · next hmark =>
    obtain ⟨_, s₂, hadv, h⟩ := run_bind_eq_ok.mp h
    obtain ⟨rest', hrest, -, rfl⟩ := advance_passes (by rw [hmark]; decide) hadv
    obtain ⟨i, s₃, hiri, hret⟩ := run_bind_eq_ok.mp h
    obtain ⟨t, rest'', l', rfl, -, hm, rfl⟩ := iri_eq_ok_iff.mp hiri
    cases hret
    refine ⟨⟨value, hvalue⟩, .datatype ⟨_, hmark⟩ t, rest'', l', ?_,
      Meaning.run_bind_eq_some.mpr ⟨i, l', hm, rfl⟩, rfl⟩
    rw [Suffix.tokens, after_cons, after_cons, after_cons, after_nil, ← hrest]
  · cases h
    exact ⟨⟨value, hvalue⟩, .none, rest, l, rfl, rfl, rfl⟩

theorem object_sound {u : Term} (h : (object .scoped).run (reading l stream) = .ok u s') :
    ∃ (x : Object) (rest : TokenStream) (l' : Labels), stream = after x.tokens rest ∧
      x.meaning.run l = some (u, l') ∧ s' = reading l' rest := by
  rw [object, run_bind_of_ok (current_reading l stream)] at h
  split at h
  · obtain ⟨i, s₁, hiri, hret⟩ := run_bind_eq_ok.mp h
    obtain ⟨t, rest, l', rfl, -, hm, rfl⟩ := iri_eq_ok_iff.mp hiri
    cases hret
    exact ⟨.iri t, rest, l', rfl, Meaning.run_bind_eq_some.mpr ⟨i, l', hm, rfl⟩, rfl⟩
  · obtain ⟨label, s₁, hblank, hret⟩ := run_bind_eq_ok.mp h
    obtain ⟨t, rest, l', rfl, -, hm, rfl⟩ := blankNode_eq_ok_iff.mp hblank
    cases hret
    exact ⟨.label t, rest, l', rfl, Meaning.run_bind_eq_some.mpr ⟨_, l', hm, rfl⟩, rfl⟩
  · obtain ⟨t, suffix, rest, l', rfl, hm, rfl⟩ := literal_sound h
    exact ⟨.string t suffix, rest, l', rfl, hm, rfl⟩
  · exact absurd h unexpected_ne_ok

/-- **A statement that was read is a line.** -/
theorem statement_sound {stmt : Statement} (h : statement.run (reading l stream) = .ok stmt s') :
    ∃ (line : Line) (rest : TokenStream) (l' : Labels), stream = after line.tokens rest ∧
      rest.Sound ∧ line.meaning.run l = some (stmt, l') ∧ s' = reading l' rest := by
  rw [statement, run_bind_eq_ok] at h
  obtain ⟨n, s₁, hsubject, h⟩ := h
  obtain ⟨x, rest₁, l₁, rfl, -, hx, rfl⟩ := subject_sound hsubject
  obtain ⟨i, s₂, hiri, h⟩ := run_bind_eq_ok.mp h
  obtain ⟨p, rest₂, l₂, rfl, -, hp, rfl⟩ := iri_eq_ok_iff.mp hiri
  obtain ⟨u, s₃, hobject, h⟩ := run_bind_eq_ok.mp h
  obtain ⟨o, rest₃, l₃, rfl, ho, rfl⟩ := object_sound hobject
  obtain ⟨stop, s₄, hstop, hret⟩ := run_bind_eq_ok.mp h
  obtain ⟨rest, rfl, hk, hsound, rfl⟩ := (expect_eq_ok_iff (by decide)).mp hstop
  cases hret
  refine ⟨⟨x, p, o, ⟨stop, hk⟩⟩, rest, l₃, ?_, hsound, ?_, rfl⟩
  · rw [Line.tokens, after_append, after_cons, after_append, after_cons, after_nil]
  · refine Meaning.run_bind_eq_some.mpr ⟨n, l₁, hx, ?_⟩
    refine Meaning.run_bind_eq_some.mpr ⟨i, l₂, hp, ?_⟩
    exact Meaning.run_bind_eq_some.mpr ⟨u, l₃, ho, rfl⟩

theorem Line.length_tokens_pos (line : Line) : 0 < line.tokens.length := by
  rw [Line.tokens, List.length_append, List.length_cons]
  omega

/-- The statements that were read one after the other are a document, if there were steps enough to
come to the end of the stream. -/
theorem deliver_sound {fuel : ℕ} {stmts : List Statement} {supply : Supply} (hsound : stream.Sound)
    (hfuel : stream.length < fuel)
    (h : (deliver fuel (reading l stream)).collect = (.ok stmts, supply)) :
    ∃ (d : Document) (rest : TokenStream) (scope : Scope), stream = after d.tokens rest ∧
      rest.Sound ∧ rest.current.kind = .eof ∧ d.meaning.run l = some (stmts, ⟨scope, supply⟩) := by
  induction fuel generalizing l stream stmts with
  | zero => omega
  | succ fuel ih =>
    rw [deliver, stream_reading] at h
    split_ifs at h with heof
    · obtain ⟨rfl, rfl⟩ := Delivery.collect_finish_eq_ok.mp h
      exact ⟨[], stream, l.scope, rfl, hsound, heof, rfl⟩
    · split at h
      · next stmt s₁ hrun =>
        obtain ⟨line, rest, l', rfl, hrest, hline, rfl⟩ := statement_sound hrun
        obtain ⟨later, hlater, rfl⟩ := Delivery.collect_block_eq_ok.mp h
        have hpos := line.length_tokens_pos
        rw [length_after] at hfuel
        obtain ⟨d, rest', scope, rfl, hsound', heof', hd⟩ := ih hrest (by omega) hlater
        refine ⟨line :: d, rest', scope, ?_, hsound', heof', ?_⟩
        · rw [Document.tokens_cons, after_append]
        · refine Meaning.run_bind_eq_some.mpr ⟨stmt, l', hline, ?_⟩
          exact Meaning.run_bind_eq_some.mpr ⟨later, _, hd, rfl⟩
      · exact absurd h Delivery.collect_failed_ne_ok

/-! ### What is in the grammar is read -/

theorem Subject.complete (x : Subject) {n : Node} (hm : x.meaning.run l = some (n, l'))
    (hrest : rest.Sound) :
    subject.run (reading l (after x.tokens rest)) = .ok n (reading l' rest) := by
  rw [subject, run_bind_of_ok (current_reading l _)]
  cases x with
  | iri t =>
    obtain ⟨i, l₁, hi, hret⟩ := Meaning.run_bind_eq_some.mp hm
    obtain ⟨rfl, rfl⟩ := Meaning.run_pure_eq_some.mp hret
    rw [Subject.tokens, after_cons, after_nil]
    simp only [current_token, t.2]
    exact run_bind_of_ok (iri_eq_ok_iff.mpr ⟨t, rest, l₁, rfl, hrest, hi, rfl⟩)
  | label t =>
    obtain ⟨-, rfl, -⟩ := Meaning.run_labelled_eq_some.mp hm
    rw [Subject.tokens, after_cons, after_nil]
    simp only [current_token, t.2]
    exact run_bind_of_ok (blankNode_eq_ok_iff.mpr ⟨t, rest, l', rfl, hrest, hm, rfl⟩)

theorem literal_complete {t : Leaf .stringLiteral} {suffix : Suffix} {stop : Leaf .period}
    {u : Term} (hm : (suffix.meaning t.1.text).run l = some (u, l')) :
    literal.run (reading l (after (t.1 :: suffix.tokens) (.token stop.1 rest)))
      = .ok u (reading l' (.token stop.1 rest)) := by
  cases suffix with
  | none =>
    obtain ⟨rfl, rfl⟩ := Meaning.run_pure_eq_some.mp hm
    have hvalue : (expect .stringLiteral).run (reading l (.token t.1 (.token stop.1 rest)))
        = .ok t.1 (reading l (.token stop.1 rest)) := expect_run t.2 (sound_token _ _)
    rw [Suffix.tokens, after_cons, after_nil, literal, run_bind_of_ok hvalue,
      run_bind_of_ok (current_reading l _)]
    simp only [current_token, stop.2]
    rfl
  | tag tag =>
    obtain ⟨hv, rfl, rfl⟩ := Meaning.run_tagged_eq_some.mp hm
    exact literal_lang_run t.2 tag.2 hv (sound_token _ _)
  | datatype mark d =>
    obtain ⟨i, l₁, hi, hret⟩ := Meaning.run_bind_eq_some.mp hm
    obtain ⟨rfl, rfl⟩ := Meaning.run_pure_eq_some.mp hret
    obtain ⟨hid, rfl, rfl⟩ := Meaning.run_valid_eq_some.mp hi
    exact literal_typed_run t.2 mark.2 d.2 hid (sound_token _ _)

theorem Object.complete (x : Object) {stop : Leaf .period} {u : Term}
    (hm : x.meaning.run l = some (u, l')) :
    (object .scoped).run (reading l (after x.tokens (.token stop.1 rest)))
      = .ok u (reading l' (.token stop.1 rest)) := by
  rw [object, run_bind_of_ok (current_reading l _)]
  cases x with
  | iri t =>
    obtain ⟨i, l₁, hi, hret⟩ := Meaning.run_bind_eq_some.mp hm
    obtain ⟨rfl, rfl⟩ := Meaning.run_pure_eq_some.mp hret
    rw [Object.tokens, after_cons, after_nil]
    simp only [current_token, t.2]
    exact run_bind_of_ok (iri_eq_ok_iff.mpr ⟨t, _, l₁, rfl, sound_token _ _, hi, rfl⟩)
  | label t =>
    obtain ⟨n, l₁, hn, hret⟩ := Meaning.run_bind_eq_some.mp hm
    obtain ⟨rfl, rfl⟩ := Meaning.run_pure_eq_some.mp hret
    obtain ⟨-, rfl, -⟩ := Meaning.run_labelled_eq_some.mp hn
    rw [Object.tokens, after_cons, after_nil]
    simp only [current_token, t.2]
    exact run_bind_of_ok (blankNode_eq_ok_iff.mpr ⟨t, _, l₁, rfl, sound_token _ _, hn, rfl⟩)
  | string t suffix =>
    have hkind : (after (Object.string t suffix).tokens (.token stop.1 rest)).current.kind
        = .stringLiteral := t.2
    simp only [hkind]
    exact literal_complete hm

/-- A line is read up to its full stop, whatever stands behind it. -/
theorem Line.complete_stop (line : Line) {stmt : Statement}
    (hm : line.meaning.run l = some (stmt, l')) (rest : TokenStream) :
    statement.run (reading l (after line.tokens rest)) =
      (do let _ ← expect .period; return stmt : Parser Statement).run
        (reading l' (.token line.stop.1 rest)) := by
  obtain ⟨n, l₁, hsubject, hm⟩ := Meaning.run_bind_eq_some.mp hm
  obtain ⟨i, l₂, hpredicate, hm⟩ := Meaning.run_bind_eq_some.mp hm
  obtain ⟨u, l₃, hobject, hret⟩ := Meaning.run_bind_eq_some.mp hm
  obtain ⟨rfl, rfl⟩ := Meaning.run_pure_eq_some.mp hret
  have hiri : iri.run (reading l₁ (.token line.predicate.1
      (after line.object.tokens (.token line.stop.1 rest))))
      = .ok i (reading l₂ (after line.object.tokens (.token line.stop.1 rest))) :=
    iri_eq_ok_iff.mpr ⟨line.predicate, _, l₂, rfl, sound_after (sound_token _ _) _, hpredicate, rfl⟩
  rw [Line.tokens, after_append, after_cons, after_append, after_cons, after_nil, statement,
    run_bind_of_ok (line.subject.complete hsubject (sound_token _ _)), run_bind_of_ok hiri,
    run_bind_of_ok (line.object.complete hobject)]

/-- **A line is read.** -/
theorem Line.complete (line : Line) {stmt : Statement} (hm : line.meaning.run l = some (stmt, l'))
    (hrest : rest.Sound) :
    statement.run (reading l (after line.tokens rest)) = .ok stmt (reading l' rest) := by
  have hstop : (expect .period).run (reading l' (.token line.stop.1 rest))
      = .ok line.stop.1 (reading l' rest) := expect_run line.stop.2 hrest
  rw [line.complete_stop hm, run_bind_of_ok hstop]
  rfl

/-- **A line is lost to an error behind it**: its full stop is given up only when the token behind
it could be read. -/
theorem Line.fault (line : Line) {stmt : Statement} (hm : line.meaning.run l = some (stmt, l'))
    (e : LexError) :
    statement.run (reading l (after line.tokens (.fault e)))
      = .error (.lexical e) (reading l' (.token line.stop.1 (.fault e))) := by
  have hstop : (expect .period).run (reading l' (.token line.stop.1 (.fault e)))
      = .error (.lexical e) (reading l' (.token line.stop.1 (.fault e))) := by
    rw [expect, run_bind_of_ok (current_reading l' _), current_token, if_pos line.stop.2]
    rfl
  rw [line.complete_stop hm, run_bind_of_error hstop]

theorem Line.exists_token (line : Line) : ∃ t ts, line.tokens = t :: ts ∧ t.kind ≠ .eof := by
  rw [Line.tokens]
  cases line.subject with
  | _ t =>
    refine ⟨t.1, _, rfl, ?_⟩
    rw [t.2]
    decide

/-- A document is read line by line, if there are steps enough. -/
theorem deliver_complete (d : Document) {fuel : ℕ} {stmts : List Statement} {p : Position}
    (hm : d.meaning.run l = some (stmts, l')) (hfuel : d.tokens.length < fuel) :
    (deliver fuel (reading l (after d.tokens (.done p)))).collect = (.ok stmts, l'.supply) := by
  obtain ⟨fuel, rfl⟩ := Nat.exists_eq_succ_of_ne_zero (Nat.ne_zero_of_lt hfuel)
  induction d generalizing l stmts fuel with
  | nil =>
    obtain ⟨rfl, rfl⟩ := Meaning.run_pure_eq_some.mp hm
    exact Delivery.collect_finish_eq_ok.mpr ⟨rfl, rfl⟩
  | cons line d ih =>
    obtain ⟨stmt, l₁, hline, hm⟩ := Meaning.run_bind_eq_some.mp hm
    obtain ⟨later, l₂, hd, hret⟩ := Meaning.run_bind_eq_some.mp hm
    obtain ⟨rfl, rfl⟩ := Meaning.run_pure_eq_some.mp hret
    obtain ⟨t, ts, ht, hk⟩ := line.exists_token
    rw [Document.tokens_cons, ht, List.length_append, List.length_cons] at hfuel
    obtain ⟨fuel, rfl⟩ : ∃ m, fuel = m + 1 := Nat.exists_eq_succ_of_ne_zero (by omega)
    have hgo : (after line.tokens (after (Document.tokens d) (.done p))).current.kind ≠ .eof := by
      rw [ht]
      exact hk
    rw [Document.tokens_cons, after_append, deliver, stream_reading, if_neg hgo,
      line.complete hline (sound_after (sound_done p) _)]
    exact Delivery.collect_block_eq_ok.mpr ⟨later, ih hd fuel (by omega), rfl⟩

/-! ### Whole texts -/

section Text

variable {text : Text} {supply supply' : Supply} {stmts : List Statement}

/-- What is collected from a text without a lexical error at its beginning. -/
theorem parse_eq_deliver (h : (ofText .ntriples text).Sound) :
    parse text supply = (deliver ((ofText .ntriples text).length + 1)
      (reading ⟨{}, supply⟩ (ofText .ntriples text))).collect := by
  rw [parse, read, readStream, h]
  rfl

/-- **A text that was read is a document**, and means what was read. -/
theorem exists_document_of_parse (h : parse text supply = (.ok stmts, supply')) :
    ∃ (d : Document) (scope : Scope), (Lexer.start .ntriples text).Reads d.tokens ∧
      d.meaning.run ⟨{}, supply⟩ = some (stmts, ⟨scope, supply'⟩) := by
  have hsound : (ofText .ntriples text).Sound := by
    cases hstream : ofText .ntriples text with
    | fault e =>
      rw [parse, read, readStream, hstream] at h
      exact absurd h Delivery.collect_failed_ne_ok
    | done p => exact sound_done p
    | token t rest => exact sound_token t rest
  rw [parse_eq_deliver hsound] at h
  obtain ⟨d, rest, scope, hstream, hrest, heof, hm⟩ :=
    deliver_sound hsound (Nat.lt_succ_self _) h
  obtain ⟨p, rfl⟩ := eq_done_of_ofLexer hstream hrest heof
  exact ⟨d, scope, Lexer.reads_iff_ofText.mpr ⟨p, hstream⟩, hm⟩

/-- **A document is read.** -/
theorem parse_of_document {d : Document} (hreads : (Lexer.start .ntriples text).Reads d.tokens)
    (hm : d.meaning.run ⟨{}, supply⟩ = some (stmts, l')) :
    parse text supply = (.ok stmts, l'.supply) := by
  obtain ⟨p, hstream⟩ := Lexer.reads_iff_ofText.mp hreads
  have hsound : (ofText .ntriples text).Sound := by
    rw [hstream]
    exact sound_after (sound_done p) _
  rw [parse_eq_deliver hsound, hstream, length_after]
  exact deliver_complete d hm (Nat.lt_succ_self _)

end Text

end TripleStore.NTriples
