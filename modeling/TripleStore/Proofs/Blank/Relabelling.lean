import TripleStore.Proofs.Blank.Fresh
import TripleStore.Proofs.Parse.Meaning

/-!
# Labels within one document

A document gives every label a node on first use and keeps to it.  So there is one map for the whole
document that sends each label to the label of its node, and a node's label is the label of the
document with a number behind it: the map is injective.

* `Labels.node`, `Labels.term`, `Labels.statement`, `Labels.statements`: statements with their labels
  replaced, one after the other.
* `Scope.naming`: the map of a scope; `Scope.Numbered.naming_injective`.
* `Labels.statements_eq`: **all labels are replaced by one map.**
-/

namespace TripleStore

/-! ### Replacing labels by a map -/

/-- A node with its label replaced. -/
def Node.mapLabel (f : Text → Text) : Node → Node
  | .iri i => .iri i
  | .blank l => .blank (f l)

/-- A term with its label replaced. -/
def Term.mapLabel (f : Text → Text) : Term → Term
  | .blank l => .blank (f l)
  | t => t

/-- A statement outside of any graph, with its labels replaced. -/
def Statement.mapLabels (f : Text → Text) (s : Statement) : Statement :=
  ⟨s.subject.mapLabel f, s.predicate, s.object.mapLabel f, none⟩

/-! ### The map of a scope -/

namespace Scope

/-- Every node of the scope is its label with a number behind it. -/
def Numbered (scope : Scope) : Prop :=
  ∀ label node, scope.find? label = some node → ∃ n : UInt64, node = numbered label n.toNat

/-- The later scope keeps to the nodes of the earlier one. -/
def Keeps (scope later : Scope) : Prop :=
  ∀ label node, scope.find? label = some node → later.find? label = some node

/-- The map that sends every label of a scope to its node. -/
def naming (scope : Scope) (label : Text) : Text := (scope.find? label).getD (numbered label 0)

theorem numbered_empty : Numbered {} := fun _ _ h => nomatch h

theorem Keeps.refl (scope : Scope) : scope.Keeps scope := fun _ _ h => h

theorem Keeps.trans {s₁ s₂ s₃ : Scope} (h : s₁.Keeps s₂) (h' : s₂.Keeps s₃) : s₁.Keeps s₃ :=
  fun label node hnode => h' label node (h label node hnode)

theorem Numbered.naming_eq {scope : Scope} (h : scope.Numbered) (label : Text) :
    ∃ n : UInt64, scope.naming label = numbered label n.toNat := by
  rw [naming]
  cases hnode : scope.find? label with
  | none => exact ⟨0, rfl⟩
  | some node => exact h label node hnode

/-- **Different labels have different nodes.** -/
theorem Numbered.naming_injective {scope : Scope} (h : scope.Numbered) :
    Function.Injective scope.naming := by
  intro a b hab
  obtain ⟨m, hm⟩ := h.naming_eq a
  obtain ⟨n, hn⟩ := h.naming_eq b
  rw [hm, hn] at hab
  exact (numbered_inj.mp hab).1

theorem naming_of_find {scope : Scope} {label node : Text} (h : scope.find? label = some node) :
    scope.naming label = node := by
  rw [naming, h]
  rfl

variable (scope : Scope) (supply : Supply) (label : Text)

theorem find?_resolve :
    (scope.resolve supply label).2.1.find? label = some (scope.resolve supply label).1 := by
  rw [resolve]
  cases h : scope.find? label with
  | some node => exact h
  | none =>
    show List.lookup label ((label, _) :: scope.known) = _
    rw [List.lookup_cons, beq_self_eq_true]

theorem keeps_resolve : scope.Keeps (scope.resolve supply label).2.1 := by
  intro other node hnode
  rw [resolve]
  cases h : scope.find? label with
  | some _ => exact hnode
  | none =>
    show List.lookup other ((label, _) :: scope.known) = _
    have hne : (other == label) = false := by
      rw [beq_eq_false_iff_ne]
      intro heq
      rw [heq, h] at hnode
      cases hnode
    rw [List.lookup_cons, hne]
    exact hnode

theorem Numbered.resolve {scope : Scope} (h : scope.Numbered) (supply : Supply) (label : Text) :
    (scope.resolve supply label).2.1.Numbered := by
  rw [Scope.resolve]
  cases hfind : scope.find? label with
  | some _ => exact h
  | none =>
    intro other node hnode
    change List.lookup other ((label, _) :: scope.known) = some node at hnode
    rw [List.lookup_cons] at hnode
    cases heq : other == label with
    | true =>
      rw [heq] at hnode
      cases hnode
      rw [eq_of_beq heq]
      exact ⟨supply.labels + 1, rfl⟩
    | false =>
      rw [heq] at hnode
      exact h other node hnode

end Scope

/-! ### Replacing labels one after the other -/

namespace Labels

/-- A node with its label replaced by that of its node. -/
def node (l : Labels) : Node → Node × Labels
  | .iri i => (.iri i, l)
  | .blank label =>
    (.blank (l.scope.resolve l.supply label).1,
      ⟨(l.scope.resolve l.supply label).2.1, (l.scope.resolve l.supply label).2.2⟩)

/-- A term with its label replaced by that of its node. -/
def term (l : Labels) (t : Term) : Term × Labels :=
  match t with
  | .blank label => ((l.node (.blank label)).1.toTerm, (l.node (.blank label)).2)
  | t => (t, l)

/-- A statement with its labels replaced, outside of any graph. -/
def statement (l : Labels) (s : Statement) : Statement × Labels :=
  let (subject, l) := l.node s.subject
  let (object, l) := l.term s.object
  (⟨subject, s.predicate, object, none⟩, l)

/-- Statements with their labels replaced, one after the other. -/
def statements (l : Labels) : List Statement → List Statement × Labels
  | [] => ([], l)
  | s :: rest =>
    let (s, l) := l.statement s
    let (rest, l) := l.statements rest
    (s :: rest, l)

/-- What replacing labels keeps: the nodes met before, and their numbers. -/
structure Goes (l l' : Labels) : Prop where
  keeps : l.scope.Keeps l'.scope
  numbered : l.scope.Numbered → l'.scope.Numbered

theorem Goes.refl (l : Labels) : l.Goes l := ⟨Scope.Keeps.refl _, id⟩

theorem Goes.trans {l₁ l₂ l₃ : Labels} (h : l₁.Goes l₂) (h' : l₂.Goes l₃) : l₁.Goes l₃ :=
  ⟨h.keeps.trans h'.keeps, fun hn => h'.numbered (h.numbered hn)⟩

theorem node_goes (l : Labels) (n : Node) : l.Goes (l.node n).2 := by
  cases n with
  | iri i => exact .refl l
  | blank label => exact ⟨Scope.keeps_resolve _ _ _, fun h => h.resolve _ _⟩

theorem node_eq (l : Labels) (n : Node) {later : Scope} (h : (l.node n).2.scope.Keeps later) :
    (l.node n).1 = n.mapLabel later.naming := by
  cases n with
  | iri i => rfl
  | blank label =>
    have hfind := h _ _ (Scope.find?_resolve l.scope l.supply label)
    rw [Node.mapLabel, Scope.naming_of_find hfind]
    rfl

theorem term_goes (l : Labels) (t : Term) : l.Goes (l.term t).2 := by
  cases t with
  | blank label => exact l.node_goes (.blank label)
  | _ => exact .refl l

theorem term_eq (l : Labels) (t : Term) {later : Scope} (h : (l.term t).2.scope.Keeps later) :
    (l.term t).1 = t.mapLabel later.naming := by
  cases t with
  | blank label =>
    rw [term, l.node_eq (.blank label) h]
    rfl
  | _ => rfl

theorem statement_goes (l : Labels) (s : Statement) : l.Goes (l.statement s).2 :=
  (l.node_goes s.subject).trans ((l.node s.subject).2.term_goes s.object)

theorem statement_eq (l : Labels) (s : Statement) {later : Scope}
    (h : (l.statement s).2.scope.Keeps later) :
    (l.statement s).1 = s.mapLabels later.naming := by
  have hsubject := l.node_eq s.subject (((l.node s.subject).2.term_goes s.object).keeps.trans h)
  have hobject := (l.node s.subject).2.term_eq s.object h
  rw [Statement.mapLabels, ← hsubject, ← hobject]
  rfl

theorem statements_goes (l : Labels) (stmts : List Statement) : l.Goes (l.statements stmts).2 := by
  induction stmts generalizing l with
  | nil => exact .refl l
  | cons s rest ih => exact (l.statement_goes s).trans (ih (l.statement s).2)

/-- **All labels are replaced by one map**, that of the scope at the end. -/
theorem statements_eq (l : Labels) (stmts : List Statement) {later : Scope}
    (h : (l.statements stmts).2.scope.Keeps later) :
    (l.statements stmts).1 = stmts.map (Statement.mapLabels later.naming) := by
  induction stmts generalizing l with
  | nil => rfl
  | cons s rest ih =>
    have hfirst := l.statement_eq s (((l.statement s).2.statements_goes rest).keeps.trans h)
    have hrest := ih (l.statement s).2 h
    rw [List.map_cons, ← hfirst, ← hrest]
    rfl

end Labels

end TripleStore
