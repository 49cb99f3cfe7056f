import TripleStore.Proofs.NTriples.Grammar
import TripleStore.Proofs.Token.Modes
import TripleStore.Proofs.Turtle.Parser

/-!
# Turtle extends N-Triples

A line of N-Triples is a block of Turtle with one predicate and one object.  Its tokens are the same
but for IRIs without a colon, which Turtle takes for relative; without a base they mean the same.

* `NTriples.Line.inTurtle`: a line as a block.
* `NTriples.Document.meaning_inTurtle`: the block means what the line means.
* `Turtle.parse_of_ntriples`: **whatever is read as N-Triples is read as Turtle, with the same
  statements, labels included, and the same supply left.**
-/

namespace TripleStore

namespace NTriples

open Turtle (Reference)

variable {l l' : Labels}

/-! ### Trees -/

/-- An IRI of N-Triples as a reference of Turtle. -/
def referenceInTurtle (t : Leaf .iriRef) : Reference :=
  if h : t.1.text.contains Ascii.colon then
    .absolute ⟨t.1.inTurtle, by simp only [Token.inTurtle, Kind.inTurtle, h, t.2]; decide⟩
  else .relative ⟨t.1.inTurtle, by simp only [Token.inTurtle, Kind.inTurtle, h, t.2]; decide⟩

theorem tokens_referenceInTurtle (t : Leaf .iriRef) :
    (referenceInTurtle t).tokens = [t.1.inTurtle] := by
  rw [referenceInTurtle]
  split_ifs <;> rfl

/-- Without a base, a relative IRI is the IRI itself. -/
theorem resolve_referenceInTurtle (t : Leaf .iriRef) :
    (referenceInTurtle t).resolve {} = t.1.text := by
  rw [referenceInTurtle]
  split_ifs <;> rfl

/-- A subject of N-Triples as one of Turtle. -/
def Subject.inTurtle : Subject → Turtle.Subject
  | iri t => .name (.reference (referenceInTurtle t))
  | label t => .label t

/-- A suffix of N-Triples as one of Turtle. -/
def Suffix.inTurtle : Suffix → Turtle.Suffix
  | none => .none
  | tag t => .tag t
  | datatype mark t => .datatype mark (.reference (referenceInTurtle t))

/-- An object of N-Triples as one of Turtle. -/
def Object.inTurtle : Object → Turtle.Object
  | iri t => .name (.reference (referenceInTurtle t))
  | label t => .label t
  | string t suffix => .string ⟨t.1, .inl t.2⟩ suffix.inTurtle

/-- A line of N-Triples as a block of Turtle. -/
def Line.inTurtle (line : Line) : Turtle.Block :=
  .triples (.subject line.subject.inTurtle
    (.last (.name (.reference (referenceInTurtle line.predicate))) (.one line.object.inTurtle) []))
    line.stop

/-- A document of N-Triples as one of Turtle. -/
def Document.inTurtle (d : Document) : Turtle.Document := d.map Line.inTurtle

/-! ### Tokens -/

theorem inTurtle_leaf {k : Kind} (hk : k ≠ .iriRef) (t : Leaf k) : t.1.inTurtle = t.1 :=
  Token.inTurtle_of_ne (by rw [t.2]; exact hk)

theorem Subject.tokens_inTurtle (x : Subject) :
    x.inTurtle.tokens = x.tokens.map Token.inTurtle := by
  cases x with
  | iri t => exact tokens_referenceInTurtle t
  | label t =>
    rw [Subject.tokens, List.map_singleton, inTurtle_leaf (by decide) t]
    rfl

theorem Suffix.tokens_inTurtle (x : Suffix) : x.inTurtle.tokens = x.tokens.map Token.inTurtle := by
  cases x with
  | none => rfl
  | tag t =>
    rw [Suffix.tokens, List.map_singleton, inTurtle_leaf (by decide) t]
    rfl
  | datatype mark t =>
    rw [Suffix.tokens, List.map_cons, List.map_singleton, inTurtle_leaf (by decide) mark]
    exact congrArg _ (tokens_referenceInTurtle t)

theorem Object.tokens_inTurtle (x : Object) : x.inTurtle.tokens = x.tokens.map Token.inTurtle := by
  cases x with
  | iri t => exact tokens_referenceInTurtle t
  | label t =>
    rw [Object.tokens, List.map_singleton, inTurtle_leaf (by decide) t]
    rfl
  | string t suffix =>
    rw [Object.tokens, List.map_cons, inTurtle_leaf (by decide) t, ← suffix.tokens_inTurtle]
    rfl

theorem Line.tokens_inTurtle (line : Line) :
    line.inTurtle.tokens = line.tokens.map Token.inTurtle := by
  rw [Line.tokens, List.map_append, List.map_cons, List.map_append, List.map_singleton,
    inTurtle_leaf (by decide) line.stop, ← line.subject.tokens_inTurtle,
    ← line.object.tokens_inTurtle]
  simp only [Line.inTurtle, Turtle.Block.tokens, Turtle.Triples.tokens, Turtle.Properties.tokens,
    Turtle.Verb.tokens, Turtle.Name.tokens, tokens_referenceInTurtle, Turtle.Objects.tokens,
    List.map_nil, List.append_nil, List.append_assoc, List.cons_append, List.nil_append]

theorem Document.tokens_inTurtle (d : Document) :
    d.inTurtle.tokens = d.tokens.map Token.inTurtle := by
  induction d with
  | nil => rfl
  | cons line d ih =>
    rw [Document.tokens_cons, List.map_append, ← ih, ← line.tokens_inTurtle]
    exact Turtle.Document.tokens_cons _ _

/-- A token that is no tag and no string may stand anywhere. -/
theorem orderly_leaf {k : Kind} {after : Bool} {ts : List Token} (t : Leaf k) (htag : k ≠ .langTag)
    (hstring : k.isString = false) (h : Orderly false ts) : Orderly after (t.1 :: ts) := by
  rw [Orderly, t.2, hstring]
  refine ⟨fun hk => absurd hk htag, fun hk => ?_, h⟩
  rw [hk] at hstring
  cases hstring

theorem Suffix.orderly (x : Suffix) (stop : Leaf .period) {ts : List Token}
    (h : Orderly false ts) : Orderly true (x.tokens ++ stop.1 :: ts) := by
  cases x with
  | none => exact orderly_leaf stop (by decide) rfl h
  | tag t =>
    refine ⟨fun _ => rfl, fun hk => absurd (t.2.symm.trans hk) (by decide), ?_⟩
    rw [t.2]
    exact orderly_leaf stop (by decide) rfl h
  | datatype mark t =>
    refine orderly_leaf mark (by decide) rfl ?_
    refine orderly_leaf t (by decide) rfl ?_
    exact orderly_leaf stop (by decide) rfl h

theorem Object.orderly (x : Object) (stop : Leaf .period) {ts : List Token}
    (h : Orderly false ts) : Orderly false (x.tokens ++ stop.1 :: ts) := by
  cases x with
  | iri t => exact orderly_leaf t (by decide) rfl (orderly_leaf stop (by decide) rfl h)
  | label t => exact orderly_leaf t (by decide) rfl (orderly_leaf stop (by decide) rfl h)
  | string t suffix =>
    refine ⟨fun hk => absurd (t.2.symm.trans hk) (by decide), fun _ => rfl, ?_⟩
    rw [t.2]
    exact suffix.orderly stop h

/-- Behind a line the order of tokens starts afresh. -/
theorem Line.orderly (line : Line) {ts : List Token} (h : Orderly false ts) :
    Orderly false (line.tokens ++ ts) := by
  have hbehind : Orderly false (line.predicate.1 :: (line.object.tokens ++ line.stop.1 :: ts)) :=
    orderly_leaf line.predicate (by decide) rfl (line.object.orderly line.stop h)
  rw [Line.tokens, List.append_assoc, List.cons_append, List.append_assoc, List.singleton_append]
  cases line.subject with
  | iri t => exact orderly_leaf t (by decide) rfl hbehind
  | label t => exact orderly_leaf t (by decide) rfl hbehind

/-- The tokens of a document are in order. -/
theorem Document.orderly (d : Document) : Orderly false d.tokens := by
  induction d with
  | nil => trivial
  | cons line d ih =>
    rw [Document.tokens_cons]
    exact line.orderly ih

/-! ### Meanings -/

theorem name_inTurtle {t : Leaf .iriRef} {i : Iri}
    (h : (Meaning.valid t.1.text).run l = some (i, l')) :
    ((Turtle.Name.reference (referenceInTurtle t)).meaning {}).run l = some (i, l') := by
  rw [Turtle.Name.meaning, resolve_referenceInTurtle]
  exact h

theorem Subject.meaning_inTurtle {x : Subject} {n : Node} (h : x.meaning.run l = some (n, l')) :
    (x.inTurtle.meaning {}).run l = some ((n, []), l') := by
  cases x with
  | iri t =>
    obtain ⟨i, l₁, hi, hret⟩ := Meaning.run_bind_eq_some.mp h
    obtain ⟨rfl, rfl⟩ := Meaning.run_pure_eq_some.mp hret
    exact Meaning.run_bind_eq_some.mpr ⟨i, l₁, name_inTurtle hi, rfl⟩
  | label t => exact Meaning.run_bind_eq_some.mpr ⟨n, l', h, rfl⟩

theorem Suffix.meaning_inTurtle {x : Suffix} {value : Text} {u : Term}
    (h : (x.meaning value).run l = some (u, l')) :
    (x.inTurtle.meaning {} value).run l = some (u, l') := by
  cases x with
  | none => exact h
  | tag t => exact h
  | datatype mark t =>
    obtain ⟨i, l₁, hi, hret⟩ := Meaning.run_bind_eq_some.mp h
    exact Meaning.run_bind_eq_some.mpr ⟨i, l₁, name_inTurtle hi, hret⟩

theorem Object.meaning_inTurtle {x : Object} {u : Term} (h : x.meaning.run l = some (u, l')) :
    (x.inTurtle.meaning {}).run l = some ((u, []), l') := by
  cases x with
  | iri t =>
    obtain ⟨i, l₁, hi, hret⟩ := Meaning.run_bind_eq_some.mp h
    obtain ⟨rfl, rfl⟩ := Meaning.run_pure_eq_some.mp hret
    exact Meaning.run_bind_eq_some.mpr ⟨i, l₁, name_inTurtle hi, rfl⟩
  | label t =>
    obtain ⟨n, l₁, hn, hret⟩ := Meaning.run_bind_eq_some.mp h
    obtain ⟨rfl, rfl⟩ := Meaning.run_pure_eq_some.mp hret
    exact Meaning.run_bind_eq_some.mpr ⟨n, l₁, hn, rfl⟩
  | string t suffix =>
    exact Meaning.run_bind_eq_some.mpr ⟨u, l', Suffix.meaning_inTurtle h, rfl⟩

/-- The block of a line has the statement of the line. -/
theorem Line.meaning_inTurtle {line : Line} {stmt : Statement}
    (h : line.meaning.run l = some (stmt, l')) :
    (line.inTurtle.meaning {}).run l = some ([stmt], l') := by
  obtain ⟨n, l₁, hsubject, h⟩ := Meaning.run_bind_eq_some.mp h
  obtain ⟨i, l₂, hpredicate, h⟩ := Meaning.run_bind_eq_some.mp h
  obtain ⟨u, l₃, hobject, hret⟩ := Meaning.run_bind_eq_some.mp h
  obtain ⟨rfl, rfl⟩ := Meaning.run_pure_eq_some.mp hret
  have hproperties : ((Turtle.Properties.last (.name (.reference
      (referenceInTurtle line.predicate))) (.one line.object.inTurtle) []).meaning {} n).run l₁
      = some ([⟨n, i, u, none⟩], l₃) := by
    refine Meaning.run_bind_eq_some.mpr ⟨i, l₂, name_inTurtle hpredicate, ?_⟩
    exact Meaning.run_bind_eq_some.mpr ⟨(u, []), l₃, Object.meaning_inTurtle hobject, rfl⟩
  refine Meaning.run_bind_eq_some.mpr ⟨(n, []), l₁, Subject.meaning_inTurtle hsubject, ?_⟩
  exact Meaning.run_bind_eq_some.mpr ⟨_, l₃, hproperties, rfl⟩

/-- **A document of N-Triples has the same statements in Turtle.** -/
theorem Document.meaning_inTurtle {d : Document} {stmts : List Statement}
    (h : d.meaning.run l = some (stmts, l')) :
    (d.inTurtle.meaning {}).run l = some (stmts, l') := by
  induction d generalizing l stmts with
  | nil => exact h
  | cons line d ih =>
    obtain ⟨stmt, l₁, hline, h⟩ := Meaning.run_bind_eq_some.mp h
    obtain ⟨later, l₂, hlater, hret⟩ := Meaning.run_bind_eq_some.mp h
    obtain ⟨rfl, rfl⟩ := Meaning.run_pure_eq_some.mp hret
    refine Meaning.run_bind_eq_some.mpr ⟨[stmt], l₁, Line.meaning_inTurtle hline, ?_⟩
    exact Meaning.run_bind_eq_some.mpr ⟨later, l₂, ih hlater, rfl⟩

end NTriples

namespace Turtle

/-- **Whatever is read as N-Triples is read as Turtle**: from the same supply the same statements
come out, fresh labels included, and the supply is left in the same state. -/
theorem parse_of_ntriples {text : Text} {supply supply' : Supply} {stmts : List Statement}
    (h : NTriples.parse text supply = (.ok stmts, supply')) :
    parse text supply = (.ok stmts, supply') := by
  obtain ⟨d, scope, hreads, hm⟩ := NTriples.exists_document_of_parse h
  have hturtle : (Lexer.start .turtle text).Reads d.inTurtle.tokens := by
    rw [d.tokens_inTurtle]
    exact hreads.inTurtle (Lexer.mirrors_start text) d.orderly
  exact parse_of_document hturtle
    (Document.denotes_eq_some.mpr ⟨scope, NTriples.Document.meaning_inTurtle hm⟩)

/-- Two lines with a label, a relative IRI, a tag that names a directive and an empty string. -/
theorem parse_of_ntriples_lines :
    parse "_:b <p> \"\"@prefix .\n<x:s> <p> _:b ." {} =
      (.ok [⟨.blank "b_1", "p", .lang "" "prefix", none⟩, ⟨.iri "x:s", "p", .blank "b_1", none⟩],
        { labels := 1 }) :=
  parse_of_ntriples (by decide +kernel)

end Turtle

end TripleStore
