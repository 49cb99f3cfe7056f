import TripleStore.Proofs.NTriples.Grammar
import TripleStore.Proofs.Parse.Pairing
import TripleStore.Proofs.Turtle.Grammar

/-!
# Documents in two readings

Tree by tree, for both grammars: a part of a document means the same in two readings, but for the
labels, and where it has no meaning in the one it has none in the other.  The context of Turtle is the
same in both.

* `NTriples.Line.agree`, `NTriples.Document.agree`, `Turtle.Block.agree`, `Turtle.Document.agree`.
-/

namespace TripleStore

open Meaning (Agree)

variable {ρ : Pairing}

/-! ### N-Triples -/

namespace NTriples

theorem Subject.agree (x : Subject) : Agree ρ (Node.Paired ρ.label) x.meaning x.meaning := by
  cases x with
  | iri t =>
    refine .bind (.valid _) fun i j hij => ?_
    subst hij
    exact .pure (.iri i)
  | label t => exact .labelled _

theorem Suffix.agree (x : Suffix) (value : Text) :
    Agree ρ (Term.Paired ρ.label) (x.meaning value) (x.meaning value) := by
  cases x with
  | none => exact .pure (.other nofun)
  | tag t => exact .tagged _ _
  | datatype mark t =>
    refine .bind (.valid _) fun i j hij => ?_
    subst hij
    exact .pure (.other nofun)

theorem Object.agree (x : Object) : Agree ρ (Term.Paired ρ.label) x.meaning x.meaning := by
  cases x with
  | iri t =>
    refine .bind (.valid _) fun i j hij => ?_
    subst hij
    exact .pure (.other nofun)
  | label t => exact .bind (.labelled _) fun _ _ hn => .pure hn.toTerm
  | string t suffix => exact suffix.agree _

theorem Line.agree (line : Line) :
    Agree ρ (Statement.Paired ρ.label) line.meaning line.meaning :=
  .bind line.subject.agree fun _ _ hs => .bind (.valid _) fun _ _ hp =>
    .bind line.object.agree fun _ _ ho => .pure ⟨hs, hp.symm, ho, rfl, rfl⟩

/-- **A document means the same in two readings, but for the labels.** -/
theorem Document.agree (d : Document) : Agree ρ ρ.Statements d.meaning d.meaning := by
  induction d with
  | nil => exact .pure .nil
  | cons line d ih =>
    exact .bind line.agree fun _ _ hline => .bind ih fun _ _ hd => .pure (.cons hline hd)

end NTriples

/-! ### Turtle -/

namespace Turtle

variable {c : Context}

theorem Name.agree (x : Name) : Agree ρ Eq (x.meaning c) (x.meaning c) := by
  cases x with
  | reference r => exact .valid _
  | prefixed t =>
    rw [Name.meaning]
    simp only
    split
    · exact .valid _
    · exact .failure

theorem Verb.agree (x : Verb) : Agree ρ Eq (x.meaning c) (x.meaning c) := by
  cases x with
  | a t => exact .pure rfl
  | name n => exact n.agree

theorem Suffix.agree (x : Suffix) (value : Text) :
    Agree ρ (Term.Paired ρ.label) (x.meaning c value) (x.meaning c value) := by
  cases x with
  | none => exact .pure (.other nofun)
  | tag t => exact .tagged _ _
  | datatype mark n =>
    refine .bind n.agree fun i j hij => ?_
    subst hij
    exact .pure (.other nofun)

theorem Scalar.term_ne_blank (x : Scalar) (l : Text) : x.term ≠ .blank l := by
  cases x <;> exact nofun

theorem triple_paired {s s' : Node} {p : Iri} {o o' : Term} (hs : s.Paired ρ.label s')
    (ho : o.Paired ρ.label o') : (triple s p o).Paired ρ.label (triple s' p o') :=
  ⟨hs, rfl, ho, rfl, rfl⟩

/-- A term with the statements inside it. -/
abbrev PairedObject (ρ : Pairing) (a b : Term × List Statement) : Prop :=
  a.1.Paired ρ.label b.1 ∧ ρ.Statements a.2 b.2

/-- A node with the statements inside it. -/
abbrev PairedSubject (ρ : Pairing) (a b : Node × List Statement) : Prop :=
  a.1.Paired ρ.label b.1 ∧ ρ.Statements a.2 b.2

/-- A cell of a list. -/
structure Cell.Paired (ρ : Pairing) (a b : Cell) : Prop where
  inner : ρ.Statements a.inner b.inner
  item : a.item.Paired ρ.label b.item
  node : a.node.Paired ρ.label b.node

theorem cellsBehind_paired {cells cells' : List Cell} {last last' : Node}
    (h : List.Forall₂ (Cell.Paired ρ) cells cells') (hlast : last.Paired ρ.label last') :
    ρ.Statements (cellsBehind last cells) (cellsBehind last' cells') := by
  induction h generalizing last last' with
  | nil => exact .cons (triple_paired hlast (.other nofun)) .nil
  | cons hcell hcells ih =>
    exact List.rel_append hcell.inner (.cons (triple_paired hlast hcell.node.toTerm)
      (.cons (triple_paired hcell.node hcell.item) (ih hcell.node)))

theorem spellList_paired {cells cells' : List Cell} (h : List.Forall₂ (Cell.Paired ρ) cells cells') :
    PairedSubject ρ (spellList cells) (spellList cells') := by
  cases h with
  | nil => exact ⟨.iri _, .nil⟩
  | cons hcell hcells =>
    exact ⟨hcell.node, List.rel_append hcell.inner (.cons (triple_paired hcell.node hcell.item)
      (cellsBehind_paired hcells hcell.node))⟩

mutual

/-- An object, and the statements inside it. -/
theorem Object.agree : (x : Object) → Agree ρ (PairedObject ρ) (x.meaning c) (x.meaning c)
  | .name n => .bind n.agree fun _ _ hij => .pure ⟨hij ▸ .other nofun, .nil⟩
  | .label _ => .bind (.labelled _) fun _ _ hn => .pure ⟨hn.toTerm, .nil⟩
  | .brackets _ _ => .bind .anonymous fun _ _ hn => .pure ⟨hn.toTerm, .nil⟩
  | .properties _ ps _ => .bind .anonymous fun _ _ hn => .bind (ps.agree hn) fun _ _ hps =>
      .pure ⟨hn.toTerm, hps⟩
  | .list _ items _ => .bind items.agree fun _ _ hcells =>
      .pure ⟨(spellList_paired hcells).1.toTerm, (spellList_paired hcells).2⟩
  | .string _ suffix => .bind (suffix.agree _) fun _ _ ht => .pure ⟨ht, .nil⟩
  | .scalar s => .pure ⟨.other s.term_ne_blank, .nil⟩

/-- The cells of a list. -/
theorem Items.agree : (x : Items) →
    Agree ρ (List.Forall₂ (Cell.Paired ρ)) (x.cells c) (x.cells c)
  | .nil => .pure .nil
  | .cons o rest => .bind o.agree fun _ _ ho => .bind .anonymous fun _ _ hn =>
      .bind rest.agree fun _ _ hrest => .pure (.cons ⟨ho.2, ho.1, hn⟩ hrest)

/-- The statements with these objects. -/
theorem Objects.agree {s s' : Node} {p : Iri} (hs : s.Paired ρ.label s') : (x : Objects) →
    Agree ρ ρ.Statements (x.meaning c s p) (x.meaning c s' p)
  | .one o => .bind o.agree fun _ _ ho =>
      .pure (List.rel_append ho.2 (.cons (triple_paired hs ho.1) .nil))
  | .more o _ rest => .bind o.agree fun _ _ ho => .bind (rest.agree hs) fun _ _ hrest =>
      .pure (List.rel_append ho.2 (.cons (triple_paired hs ho.1) hrest))

/-- The statements with these predicates and objects. -/
theorem Properties.agree {s s' : Node} (hs : s.Paired ρ.label s') : (x : Properties) →
    Agree ρ ρ.Statements (x.meaning c s) (x.meaning c s')
  | .last v os _ => .bind v.agree fun _ _ hp => hp ▸ os.agree hs
  | .more v os _ _ rest => .bind v.agree fun _ _ hp => hp ▸ .bind (os.agree hs) fun _ _ hos =>
      .bind (rest.agree hs) fun _ _ hrest => .pure (List.rel_append hos hrest)

end

theorem Subject.agree (x : Subject) : Agree ρ (PairedSubject ρ) (x.meaning c) (x.meaning c) := by
  cases x with
  | name n => exact .bind n.agree fun i j hij => .pure ⟨hij ▸ .iri i, .nil⟩
  | label t => exact .bind (.labelled _) fun _ _ hn => .pure ⟨hn, .nil⟩
  | list opening items closing =>
    exact .bind items.agree fun _ _ hcells => .pure (spellList_paired hcells)

theorem Triples.agree (x : Triples) : Agree ρ ρ.Statements (x.meaning c) (x.meaning c) := by
  cases x with
  | subject s ps =>
    exact .bind s.agree fun _ _ hs => .bind (ps.agree hs.1) fun _ _ hps =>
      .pure (List.rel_append hs.2 hps)
  | properties opening inner closing => exact .bind .anonymous fun _ _ hn => inner.agree hn
  | both opening inner closing outer =>
    exact .bind .anonymous fun _ _ hn => .bind (inner.agree hn) fun _ _ hinner =>
      .bind (outer.agree hn) fun _ _ houter => .pure (List.rel_append hinner houter)
  | brackets opening closing ps => exact .bind .anonymous fun _ _ hn => ps.agree hn

/-- **A block means the same in two readings, but for the labels.** -/
theorem Block.agree (x : Block) : Agree ρ ρ.Statements (x.meaning c) (x.meaning c) := by
  cases x with
  | directive d => exact .pure .nil
  | triples t stop => exact t.agree

/-- **A document means the same in two readings, but for the labels.** -/
theorem Document.agree (d : Document) : Agree ρ ρ.Statements (d.meaning c) (d.meaning c) := by
  induction d generalizing c with
  | nil => exact .pure .nil
  | cons block d ih =>
    exact .bind block.agree fun _ _ hblock => .bind ih fun _ _ hd =>
      .pure (List.rel_append hblock hd)

end Turtle

end TripleStore
