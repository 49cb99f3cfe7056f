import TripleStore.Proofs.NTriples.Grammar
import TripleStore.Proofs.Token.Seam
import TripleStore.Proofs.Turtle.Grammar

/-!
# Documents that stand somewhere else

What a document means does not depend on where its tokens stand.  A tree of either grammar is moved
with its tokens, and a moved tree means the same.

* `NTriples.Line.move`, `Turtle.Block.move`: a line and a block with their tokens somewhere else.
* `NTriples.Line.meaning_move`, `Turtle.Block.meaning_move`: **they mean the same.**
-/

namespace TripleStore

variable (f : Position → Position)

/-- A leaf whose token stands somewhere else. -/
def Leaf.move {k : Kind} (t : Leaf k) : Leaf k := ⟨t.1.move f, t.2⟩

/-! ### N-Triples -/

namespace NTriples

/-- A subject that stands somewhere else. -/
def Subject.move : Subject → Subject
  | iri t => iri (Leaf.move f t)
  | label t => label (Leaf.move f t)

theorem Subject.tokens_move (x : Subject) : (x.move f).tokens = x.tokens.map (Token.move f) := by
  cases x <;> rfl

theorem Subject.meaning_move (x : Subject) : (x.move f).meaning = x.meaning := by
  cases x <;> rfl

/-- A suffix that stands somewhere else. -/
def Suffix.move : Suffix → Suffix
  | none => none
  | tag t => tag (Leaf.move f t)
  | datatype mark t => datatype (Leaf.move f mark) (Leaf.move f t)

theorem Suffix.tokens_move (x : Suffix) : (x.move f).tokens = x.tokens.map (Token.move f) := by
  cases x <;> rfl

theorem Suffix.meaning_move (x : Suffix) (value : Text) :
    (x.move f).meaning value = x.meaning value := by
  cases x <;> rfl

/-- An object that stands somewhere else. -/
def Object.move : Object → Object
  | iri t => iri (Leaf.move f t)
  | label t => label (Leaf.move f t)
  | string t suffix => string (Leaf.move f t) (suffix.move f)

theorem Object.tokens_move (x : Object) : (x.move f).tokens = x.tokens.map (Token.move f) := by
  cases x with
  | string t suffix => exact congrArg _ (suffix.tokens_move f)
  | _ => rfl

theorem Object.meaning_move (x : Object) : (x.move f).meaning = x.meaning := by
  cases x with
  | string t suffix => exact suffix.meaning_move f t.1.text
  | _ => rfl

/-- A line that stands somewhere else. -/
def Line.move (line : Line) : Line :=
  ⟨line.subject.move f, Leaf.move f line.predicate, line.object.move f, Leaf.move f line.stop⟩

theorem Line.tokens_move (line : Line) : (line.move f).tokens = line.tokens.map (Token.move f) := by
  rw [tokens, tokens, List.map_append, List.map_cons, List.map_append, ← Subject.tokens_move,
    ← Object.tokens_move]
  rfl

/-- **A line means the same wherever it stands.** -/
theorem Line.meaning_move (line : Line) : (line.move f).meaning = line.meaning := by
  rw [meaning, meaning, ← line.subject.meaning_move f, ← line.object.meaning_move f]
  rfl

end NTriples

/-! ### Turtle -/

namespace Turtle

variable (c : Context)

/-- A reference that stands somewhere else. -/
def Reference.move : Reference → Reference
  | absolute t => absolute (Leaf.move f t)
  | relative t => relative (Leaf.move f t)

theorem Reference.tokens_move (x : Reference) :
    (x.move f).tokens = x.tokens.map (Token.move f) := by
  cases x <;> rfl

theorem Reference.resolve_move (x : Reference) : (x.move f).resolve c = x.resolve c := by
  cases x <;> rfl

/-- A name that stands somewhere else. -/
def Name.move : Name → Name
  | reference r => reference (r.move f)
  | prefixed t => prefixed (Leaf.move f t)

theorem Name.tokens_move (x : Name) : (x.move f).tokens = x.tokens.map (Token.move f) := by
  cases x with
  | reference r => exact r.tokens_move f
  | prefixed t => rfl

theorem Name.meaning_move (x : Name) : (x.move f).meaning c = x.meaning c := by
  cases x with
  | reference r => exact congrArg Meaning.valid (r.resolve_move f c)
  | prefixed t => rfl

/-- A verb that stands somewhere else. -/
def Verb.move : Verb → Verb
  | a t => a (Leaf.move f t)
  | name n => name (n.move f)

theorem Verb.tokens_move (x : Verb) : (x.move f).tokens = x.tokens.map (Token.move f) := by
  cases x with
  | a t => rfl
  | name n => exact n.tokens_move f

theorem Verb.meaning_move (x : Verb) : (x.move f).meaning c = x.meaning c := by
  cases x with
  | a t => rfl
  | name n => exact n.meaning_move f c

/-- A suffix that stands somewhere else. -/
def Suffix.move : Suffix → Suffix
  | none => none
  | tag t => tag (Leaf.move f t)
  | datatype mark n => datatype (Leaf.move f mark) (n.move f)

theorem Suffix.tokens_move (x : Suffix) : (x.move f).tokens = x.tokens.map (Token.move f) := by
  cases x with
  | datatype mark n => exact congrArg _ (n.tokens_move f)
  | _ => rfl

theorem Suffix.meaning_move (x : Suffix) (value : Text) :
    (x.move f).meaning c value = x.meaning c value := by
  cases x with
  | datatype mark n =>
    rw [move, meaning, meaning, n.meaning_move]
  | _ => rfl

/-- A number or truth value that stands somewhere else. -/
def Scalar.move : Scalar → Scalar
  | integer t => integer (Leaf.move f t)
  | decimal t => decimal (Leaf.move f t)
  | double t => double (Leaf.move f t)
  | boolean t => boolean (Leaf.move f t)

theorem Scalar.tokens_move (x : Scalar) : (x.move f).tokens = x.tokens.map (Token.move f) := by
  cases x <;> rfl

theorem Scalar.term_move (x : Scalar) : (x.move f).term = x.term := by
  cases x <;> rfl

mutual

/-- An object that stands somewhere else. -/
def Object.move : Object → Object
  | .name n => .name (n.move f)
  | .label t => .label (Leaf.move f t)
  | .brackets opening closing => .brackets (Leaf.move f opening) (Leaf.move f closing)
  | .properties opening ps closing =>
    .properties (Leaf.move f opening) ps.move (Leaf.move f closing)
  | .list opening items closing => .list (Leaf.move f opening) items.move (Leaf.move f closing)
  | .string t suffix => .string ⟨t.1.move f, t.2⟩ (suffix.move f)
  | .scalar s => .scalar (s.move f)

/-- The items of a list that stands somewhere else. -/
def Items.move : Items → Items
  | .nil => .nil
  | .cons o rest => .cons o.move rest.move

/-- Objects that stand somewhere else. -/
def Objects.move : Objects → Objects
  | .one o => .one o.move
  | .more o comma rest => .more o.move (Leaf.move f comma) rest.move

/-- Properties that stand somewhere else. -/
def Properties.move : Properties → Properties
  | .last v os semicolons => .last (v.move f) os.move (semicolons.map (Leaf.move f))
  | .more v os semicolon semicolons rest =>
    .more (v.move f) os.move (Leaf.move f semicolon) (semicolons.map (Leaf.move f)) rest.move

end

theorem tokens_semicolons (semicolons : List (Leaf .semicolon)) :
    (semicolons.map (Leaf.move f)).map (·.1) = (semicolons.map (·.1)).map (Token.move f) := by
  rw [List.map_map, List.map_map]
  rfl

mutual

theorem Object.tokens_move : (x : Object) → (x.move f).tokens = x.tokens.map (Token.move f)
  | .name n => n.tokens_move f
  | .label _ => rfl
  | .brackets _ _ => rfl
  | .properties opening ps closing => by
    rw [Object.move, Object.tokens, Object.tokens, ps.tokens_move, List.map_cons, List.map_append]
    rfl
  | .list opening items closing => by
    rw [Object.move, Object.tokens, Object.tokens, items.tokens_move, List.map_cons, List.map_append]
    rfl
  | .string t suffix => congrArg _ (suffix.tokens_move f)
  | .scalar s => s.tokens_move f

theorem Items.tokens_move : (x : Items) → (x.move f).tokens = x.tokens.map (Token.move f)
  | .nil => rfl
  | .cons o rest => by
    rw [Items.move, Items.tokens, Items.tokens, o.tokens_move, rest.tokens_move, List.map_append]

theorem Objects.tokens_move : (x : Objects) → (x.move f).tokens = x.tokens.map (Token.move f)
  | .one o => o.tokens_move
  | .more o comma rest => by
    rw [Objects.move, Objects.tokens, Objects.tokens, o.tokens_move, rest.tokens_move,
      List.map_append, List.map_cons]
    rfl

theorem Properties.tokens_move : (x : Properties) →
    (x.move f).tokens = x.tokens.map (Token.move f)
  | .last v os semicolons => by
    rw [Properties.move, Properties.tokens, Properties.tokens, v.tokens_move, os.tokens_move,
      tokens_semicolons, List.map_append, List.map_append]
  | .more v os semicolon semicolons rest => by
    rw [Properties.move, Properties.tokens, Properties.tokens, v.tokens_move, os.tokens_move,
      tokens_semicolons, rest.tokens_move, List.map_append, List.map_append, List.map_cons,
      List.map_append]
    rfl

end

mutual

theorem Object.meaning_move : (x : Object) → (x.move f).meaning c = x.meaning c
  | .name n => by rw [Object.move, Object.meaning, Object.meaning, n.meaning_move]
  | .label _ => rfl
  | .brackets _ _ => rfl
  | .properties _ ps _ => by
    rw [Object.move, Object.meaning, Object.meaning]
    simp only [ps.meaning_move]
  | .list _ items _ => by
    rw [Object.move, Object.meaning, Object.meaning, items.cells_move]
  | .string t suffix => by
    rw [Object.move, Object.meaning, Object.meaning, suffix.meaning_move]
    rfl
  | .scalar s => by rw [Object.move, Object.meaning, Object.meaning, s.term_move]

theorem Items.cells_move : (x : Items) → (x.move f).cells c = x.cells c
  | .nil => rfl
  | .cons o rest => by
    rw [Items.move, Items.cells, Items.cells, o.meaning_move, rest.cells_move]

theorem Objects.meaning_move (s : Node) (p : Iri) : (x : Objects) →
    (x.move f).meaning c s p = x.meaning c s p
  | .one o => by rw [Objects.move, Objects.meaning, Objects.meaning, o.meaning_move]
  | .more o _ rest => by
    rw [Objects.move, Objects.meaning, Objects.meaning, o.meaning_move, rest.meaning_move]

theorem Properties.meaning_move (s : Node) : (x : Properties) →
    (x.move f).meaning c s = x.meaning c s
  | .last v os _ => by
    rw [Properties.move, Properties.meaning, Properties.meaning, v.meaning_move]
    simp only [os.meaning_move]
  | .more v os _ _ rest => by
    rw [Properties.move, Properties.meaning, Properties.meaning, v.meaning_move]
    simp only [os.meaning_move, rest.meaning_move]

end

/-- A subject that stands somewhere else. -/
def Subject.move : Subject → Subject
  | name n => name (n.move f)
  | label t => label (Leaf.move f t)
  | list opening items closing => list (Leaf.move f opening) (items.move f) (Leaf.move f closing)

theorem Subject.tokens_move (x : Subject) : (x.move f).tokens = x.tokens.map (Token.move f) := by
  cases x with
  | name n => exact n.tokens_move f
  | label t => rfl
  | list opening items closing =>
    rw [move, tokens, tokens, items.tokens_move, List.map_cons, List.map_append]
    rfl

theorem Subject.meaning_move (x : Subject) : (x.move f).meaning c = x.meaning c := by
  cases x with
  | name n => rw [move, meaning, meaning, n.meaning_move]
  | label t => rfl
  | list opening items closing => rw [move, meaning, meaning, items.cells_move]

/-- Triples that stand somewhere else. -/
def Triples.move : Triples → Triples
  | subject s ps => subject (s.move f) (ps.move f)
  | properties opening inner closing =>
    properties (Leaf.move f opening) (inner.move f) (Leaf.move f closing)
  | both opening inner closing outer =>
    both (Leaf.move f opening) (inner.move f) (Leaf.move f closing) (outer.move f)
  | brackets opening closing ps =>
    brackets (Leaf.move f opening) (Leaf.move f closing) (ps.move f)

theorem Triples.tokens_move (x : Triples) : (x.move f).tokens = x.tokens.map (Token.move f) := by
  cases x with
  | subject s ps =>
    rw [move, tokens, tokens, s.tokens_move, ps.tokens_move, List.map_append]
  | properties opening inner closing =>
    rw [move, tokens, tokens, inner.tokens_move, List.map_cons, List.map_append]
    rfl
  | both opening inner closing outer =>
    rw [move, tokens, tokens, inner.tokens_move, outer.tokens_move, List.map_cons, List.map_append,
      List.map_cons]
    rfl
  | brackets opening closing ps =>
    rw [move, tokens, tokens, ps.tokens_move, List.map_cons, List.map_cons]
    rfl

theorem Triples.meaning_move (x : Triples) : (x.move f).meaning c = x.meaning c := by
  cases x with
  | subject s ps =>
    rw [move, meaning, meaning, s.meaning_move]
    simp only [ps.meaning_move]
  | properties opening inner closing =>
    rw [move, meaning, meaning]
    simp only [inner.meaning_move]
  | both opening inner closing outer =>
    rw [move, meaning, meaning]
    simp only [inner.meaning_move, outer.meaning_move]
  | brackets opening closing ps =>
    rw [move, meaning, meaning]
    simp only [ps.meaning_move]

/-- A directive that stands somewhere else. -/
def Directive.move : Directive → Directive
  | declare word name iri stop =>
    declare ⟨word.1.move f, word.2⟩ ⟨name.1.move f, name.2⟩ (iri.move f) (Leaf.move f stop)
  | bareDeclare word name iri =>
    bareDeclare ⟨word.1.move f, word.2⟩ ⟨name.1.move f, name.2⟩ (iri.move f)
  | base word iri stop => base ⟨word.1.move f, word.2⟩ (iri.move f) (Leaf.move f stop)
  | bareBase word iri => bareBase ⟨word.1.move f, word.2⟩ (iri.move f)

theorem Directive.tokens_move (x : Directive) :
    (x.move f).tokens = x.tokens.map (Token.move f) := by
  cases x with
  | declare word name iri stop =>
    rw [move, tokens, tokens, iri.tokens_move, List.map_cons, List.map_cons, List.map_append]
    rfl
  | bareDeclare word name iri =>
    rw [move, tokens, tokens, iri.tokens_move, List.map_cons, List.map_cons]
  | base word iri stop =>
    rw [move, tokens, tokens, iri.tokens_move, List.map_cons, List.map_append]
    rfl
  | bareBase word iri => rw [move, tokens, tokens, iri.tokens_move, List.map_cons]

theorem Directive.effect_move (x : Directive) : (x.move f).effect c = x.effect c := by
  cases x with
  | declare word name iri stop => rw [move, effect, effect, iri.resolve_move]; rfl
  | bareDeclare word name iri => rw [move, effect, effect, iri.resolve_move]; rfl
  | base word iri stop => rw [move, effect, effect, iri.resolve_move]
  | bareBase word iri => rw [move, effect, effect, iri.resolve_move]

/-- A block that stands somewhere else. -/
def Block.move : Block → Block
  | directive d => directive (d.move f)
  | triples t stop => triples (t.move f) (Leaf.move f stop)

theorem Block.tokens_move (x : Block) : (x.move f).tokens = x.tokens.map (Token.move f) := by
  cases x with
  | directive d => exact d.tokens_move f
  | triples t stop =>
    rw [move, tokens, tokens, t.tokens_move, List.map_append]
    rfl

/-- **A block means the same wherever it stands.** -/
theorem Block.meaning_move (x : Block) : (x.move f).meaning c = x.meaning c := by
  cases x with
  | directive d => rfl
  | triples t stop => exact t.meaning_move f c

theorem Block.effect_move (x : Block) : (x.move f).effect c = x.effect c := by
  cases x with
  | directive d => exact d.effect_move f c
  | triples t stop => rfl

end Turtle

end TripleStore
