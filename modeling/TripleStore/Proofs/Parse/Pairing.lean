import TripleStore.Proofs.Parse.Meaning

/-!
# Two readings side by side

The same document is read twice, with different labels known at the beginning.  What is known may
differ all the way, and so may the labels of the nodes, but nothing else: where the one reading has a
meaning the other has one, and the two differ in their labels only.

* `Pairing`: what may be known at the same time in two readings, and which labels go together.
* `Node.Paired`, `Term.Paired`, `Statement.Paired`: the same but for labels that go together.
* `Meaning.Agree`: **two meanings that go together whenever what is known does.**  The rules for it
  follow the ways in which meanings are put together.
* `Pairing.any`: the pairing of two readings of which nothing is known.
-/

namespace TripleStore

/-! ### Pairings -/

/-- What may be known at the same time in two readings, and which labels of nodes go together.  New
labels have to go together whenever they are drawn at the same time. -/
structure Pairing where
  known : Labels → Labels → Prop
  label : Text → Text → Prop
  anonymous : ∀ {l m : Labels}, known l m →
    label l.supply.drawAnonymous.1 m.supply.drawAnonymous.1 ∧
      known ⟨l.scope, l.supply.drawAnonymous.2⟩ ⟨m.scope, m.supply.drawAnonymous.2⟩
  resolve : ∀ {l m : Labels} (text : Text), known l m →
    label (l.scope.resolve l.supply text).1 (m.scope.resolve m.supply text).1 ∧
      known ⟨(l.scope.resolve l.supply text).2.1, (l.scope.resolve l.supply text).2.2⟩
        ⟨(m.scope.resolve m.supply text).2.1, (m.scope.resolve m.supply text).2.2⟩

/-- Two readings of which nothing is known. -/
def Pairing.any : Pairing where
  known _ _ := True
  label _ _ := True
  anonymous _ := ⟨trivial, trivial⟩
  resolve _ _ := ⟨trivial, trivial⟩

variable {q : Text → Text → Prop}

/-- The same node, or two nodes whose labels go together. -/
inductive Node.Paired (q : Text → Text → Prop) : Node → Node → Prop
  | iri (i : Iri) : Paired q (.iri i) (.iri i)
  | blank {a b : Text} : q a b → Paired q (.blank a) (.blank b)

/-- The same term, or two nodes whose labels go together. -/
inductive Term.Paired (q : Text → Text → Prop) : Term → Term → Prop
  | blank {a b : Text} : q a b → Paired q (.blank a) (.blank b)
  | other {t : Term} : (∀ l, t ≠ .blank l) → Paired q t t

/-- Two statements outside of any graph that are the same but for labels that go together. -/
structure Statement.Paired (q : Text → Text → Prop) (s t : Statement) : Prop where
  subject : s.subject.Paired q t.subject
  predicate : t.predicate = s.predicate
  object : s.object.Paired q t.object
  graph : s.graph = none ∧ t.graph = none

/-- Lists of such statements. -/
abbrev Pairing.Statements (ρ : Pairing) : List Statement → List Statement → Prop :=
  List.Forall₂ (Statement.Paired ρ.label)

theorem Node.Paired.toTerm {n m : Node} (h : n.Paired q m) : n.toTerm.Paired q m.toTerm := by
  cases h with
  | iri i => exact .other nofun
  | blank h => exact .blank h

/-- Statements without labels go together with themselves only. -/
theorem Statement.Paired.eq {s t : Statement} (h : s.Paired q t)
    (hs : ∀ l, s.subject ≠ .blank l ∧ s.object ≠ .blank l) : t = s := by
  obtain ⟨hsubject, hpredicate, hobject, hgraph, hgraph'⟩ := h
  obtain ⟨subject, predicate, object, graph⟩ := s
  obtain ⟨subject', predicate', object', graph'⟩ := t
  cases hpredicate
  cases hgraph
  cases hgraph'
  cases hsubject with
  | blank h => exact absurd rfl (hs _).1
  | iri i =>
    cases hobject with
    | blank h => exact absurd rfl (hs _).2
    | other _ => rfl

theorem Pairing.eq_of_statements {ρ : Pairing} {stmts stmts' : List Statement}
    (h : ρ.Statements stmts stmts')
    (hs : ∀ s ∈ stmts, ∀ l, s.subject ≠ .blank l ∧ s.object ≠ .blank l) : stmts' = stmts := by
  induction h with
  | nil => rfl
  | cons hpaired _ ih =>
    obtain ⟨hfirst, hlater⟩ := List.forall_mem_cons.mp hs
    rw [hpaired.eq hfirst, ih hlater]

/-! ### Meanings -/

namespace Meaning

variable {α β γ δ : Type} {ρ : Pairing} {R : α → β → Prop} {R' : γ → δ → Prop} {x : Meaning α}
  {y : Meaning β}

/-- Whenever what is known goes together, both have a meaning or neither has, and the meanings go
together, as does what is known behind them. -/
def Agree (ρ : Pairing) (R : α → β → Prop) (x : Meaning α) (y : Meaning β) : Prop :=
  ∀ l m, ρ.known l m →
    Option.Rel (fun p q => R p.1 q.1 ∧ ρ.known p.2 q.2) (x.run l) (y.run m)

/-- Where the one reading has a meaning, the other has one that goes together with it. -/
theorem Agree.run (h : Agree ρ R x y) {l m l' : Labels} {a : α} (hl : ρ.known l m)
    (hx : x.run l = some (a, l')) : ∃ b m', y.run m = some (b, m') ∧ R a b ∧ ρ.known l' m' := by
  have hrel := h l m hl
  rw [hx] at hrel
  cases hy : y.run m with
  | none =>
    rw [hy] at hrel
    cases hrel
  | some p =>
    rw [hy] at hrel
    obtain ⟨hR, hknown⟩ : R a p.1 ∧ ρ.known l' p.2 := by
      cases hrel
      assumption
    exact ⟨p.1, p.2, rfl, hR, hknown⟩

namespace Agree

theorem pure {a : α} {b : β} (h : R a b) : Agree ρ R (Pure.pure a) (Pure.pure b) :=
  fun _ _ hl => .some ⟨h, hl⟩

theorem bind {f : α → Meaning γ} {f' : β → Meaning δ} (hx : Agree ρ R x y)
    (hf : ∀ a b, R a b → Agree ρ R' (f a) (f' b)) : Agree ρ R' (x >>= f) (y >>= f') := by
  intro l m hl
  have hrel := hx l m hl
  rw [StateT.run_bind, StateT.run_bind]
  generalize x.run l = o at hrel
  generalize y.run m = o' at hrel
  cases hrel with
  | none => exact .none
  | some h => exact hf _ _ h.1 _ _ h.2

theorem failure : Agree ρ R failure failure := fun _ _ _ => .none

theorem valid (i : Iri) : Agree ρ Eq (Meaning.valid i) (Meaning.valid i) := by
  intro l m hl
  rw [StateT.run, StateT.run, Meaning.valid, Meaning.valid]
  split_ifs
  · exact .some ⟨rfl, hl⟩
  · exact .none

theorem tagged (value tag : Text) :
    Agree ρ (Term.Paired ρ.label) (Meaning.tagged value tag) (Meaning.tagged value tag) := by
  intro l m hl
  rw [StateT.run, StateT.run, Meaning.tagged, Meaning.tagged]
  split_ifs
  · have hne : ∀ l, Term.lang value tag ≠ .blank l := by
      intro l h
      cases h
    exact .some ⟨.other hne, hl⟩
  · exact .none

theorem anonymous : Agree ρ (Node.Paired ρ.label) Meaning.anonymous Meaning.anonymous := by
  intro l m hl
  obtain ⟨hlabel, hknown⟩ := ρ.anonymous hl
  exact .some ⟨.blank hlabel, hknown⟩

theorem labelled (label : Text) :
    Agree ρ (Node.Paired ρ.label) (Meaning.labelled label) (Meaning.labelled label) := by
  intro l m hl
  obtain ⟨hlabel, hknown⟩ := ρ.resolve label hl
  rw [StateT.run, StateT.run, Meaning.labelled, Meaning.labelled]
  split_ifs
  · exact .some ⟨.blank hlabel, hknown⟩
  · exact .none

end Agree

end Meaning

end TripleStore
