import TripleStore.Proofs.Graph.Merge

/-!
# What a graph has been through

The effect of a change depends on what came before it: removing a node takes the triples of other
nodes along, a triple that goes leaves its nodes behind, and what went may come again.  All this comes
down to one law for the triples and one for the nodes: what came in and has not gone since is there.

* `Stands`: something came in at some point of a history and has not gone since.
* `Change.mem_triples_apply`, `Change.mem_nodes_apply`: all that a change does.
* `Graph.shows_of_history`: **every listing of a graph shows what its history says.**
* `Graph.nodes_at_positions`: **a node that is not registered is neither subject nor object**, whatever
  the graph has been through; `Graph.predicate_unregistered`: it may well be a predicate.
-/

namespace TripleStore

/-! ### What stands at the end of a history -/

/-- A list that ends with `d` and has `a` in it ends with `a` or has it before. -/
theorem concat_eq_append_cons {α : Type} {l before after : List α} {a d : α}
    (h : l ++ [d] = before ++ a :: after) :
    (l = before ∧ d = a ∧ after = []) ∨ ∃ rest, after = rest ++ [d] ∧ l = before ++ a :: rest := by
  rcases List.eq_nil_or_concat after with rfl | ⟨rest, e, rfl⟩
  · obtain ⟨h₁, h₂⟩ := List.append_inj' h rfl
    exact .inl ⟨h₁, List.singleton_inj.mp h₂, rfl⟩
  · have h' : l ++ [d] = (before ++ a :: rest) ++ [e] := by
      rw [h, List.concat_eq_append, List.append_assoc]
      rfl
    obtain ⟨h₁, h₂⟩ := List.append_inj' h' rfl
    obtain rfl := List.singleton_inj.mp h₂
    exact .inr ⟨rest, List.concat_eq_append, h₁⟩

/-- Something came in at some point of a history, and nothing since has made it go. -/
def Stands {α : Type} (comes goes : α → Prop) (history : List α) : Prop :=
  ∃ before a after, history = before ++ a :: after ∧ comes a ∧ ∀ d ∈ after, ¬ goes d

theorem not_stands_nil {α : Type} {comes goes : α → Prop} : ¬ Stands comes goes [] := by
  intro h
  obtain ⟨before, a, after, h, -⟩ := h
  exact absurd h (by simp)

theorem stands_concat {α : Type} {comes goes : α → Prop} {history : List α} {d : α} :
    Stands comes goes (history ++ [d]) ↔ comes d ∨ Stands comes goes history ∧ ¬ goes d := by
  constructor
  · intro h
    obtain ⟨before, a, after, h, ha, hafter⟩ := h
    rcases concat_eq_append_cons h with ⟨-, rfl, -⟩ | ⟨rest, rfl, rfl⟩
    · exact .inl ha
    · refine .inr ⟨⟨before, a, rest, rfl, ha, fun e he => ?_⟩, ?_⟩
      · exact hafter e (List.mem_append_left _ he)
      · exact hafter d (List.mem_append_right _ List.mem_cons_self)
  · intro h
    rcases h with hd | ⟨⟨before, a, after, rfl, ha, hafter⟩, hd⟩
    · exact ⟨history, d, [], rfl, hd, fun _ h => absurd h List.not_mem_nil⟩
    · refine ⟨before, a, after ++ [d], by simp, ha, fun e he => ?_⟩
      rcases List.mem_append.mp he with he | he
      · exact hafter e he
      · rw [List.mem_singleton.mp he]
        exact hd

/-- What holds of a state after a history, if every step makes it hold or not as it comes and goes. -/
theorem foldl_iff_stands {σ α : Type} (P : σ → Prop) {apply : σ → α → σ} {comes goes : α → Prop}
    {start : σ} (hstart : ¬ P start)
    (hstep : ∀ s a, P (apply s a) ↔ comes a ∨ P s ∧ ¬ goes a) (history : List α) :
    P (history.foldl apply start) ↔ Stands comes goes history := by
  induction history using List.reverseRecOn with
  | nil => exact iff_of_false hstart not_stands_nil
  | append_singleton history a ih => rw [List.foldl_concat, hstep, ih, stands_concat]

/-! ### What a change does -/

/-- Whether a node is the subject of a triple, or its object. -/
def Triple.Has (t : Triple) (n : Option Node) : Prop :=
  n = t.subject ∨ ∃ k, t.object = some k.toTerm ∧ n = some k

theorem Triple.mem_nodes {t : Triple} {n : Option Node} : n ∈ t.nodes ↔ t.Has n := by
  rw [nodes, List.mem_cons, List.mem_map, Has]
  simp only [Option.mem_toList, Option.bind_eq_some_iff, Term.toNode?_eq_some]
  refine or_congr_right ⟨?_, ?_⟩
  · intro h
    obtain ⟨k, ⟨o, ho, rfl⟩, rfl⟩ := h
    exact ⟨k, ho, rfl⟩
  · intro h
    obtain ⟨k, ho, rfl⟩ := h
    exact ⟨k, ⟨_, ho, rfl⟩, rfl⟩

namespace Change

variable {c : Change} {g : Graph} {t : Triple} {n : Option Node}

/-- Whether a change brings a triple in. -/
def Adds (t : Triple) : Change → Prop
  | .add u => u = t
  | .embed source r => t ∈ source.triples.map r.triple
  | _ => False

/-- Whether a change takes a triple away. -/
def Removes (t : Triple) : Change → Prop
  | .remove u => u = t
  | .removeNode n => n = t.subject ∨ n.map Node.toTerm = t.object
  | _ => False

/-- Whether a change registers a node: as such, as a subject or as an object. -/
def Registers (n : Option Node) : Change → Prop
  | .addNode m => m = n
  | .add t => t.Has n
  | .embed source r =>
    n ∈ source.nodes.map (Option.map r.node) ∨ ∃ t ∈ source.triples.map r.triple, t.Has n
  | _ => False

/-- Whether a change takes a node out of the registered ones. -/
def Unregisters (n : Option Node) : Change → Prop
  | .removeNode m => m = n
  | _ => False

/-- The triples after a change. -/
theorem mem_triples_apply :
    t ∈ (c.apply g).triples ↔ c.Adds t ∨ t ∈ g.triples ∧ ¬ c.Removes t := by
  cases c with
  | add u => simp [apply, Adds, Removes, or_comm, eq_comm]
  | remove u => simp [apply, Adds, Removes, eq_comm]
  | addNode n => simp [apply, Adds, Removes]
  | removeNode n => simp [apply, Adds, Removes, eq_comm]
  | embed source r =>
    rw [apply, Graph.mem_triples_embed]
    simp [Adds, Removes, or_comm]

/-- The nodes after a change. -/
theorem mem_nodes_apply :
    n ∈ (c.apply g).nodes ↔ c.Registers n ∨ n ∈ g.nodes ∧ ¬ c.Unregisters n := by
  cases c with
  | add t =>
    rw [apply, Graph.mem_nodes_add_iff, Triple.mem_nodes]
    simp [Registers, Unregisters, or_comm]
  | remove t => simp [apply, Graph.remove, Registers, Unregisters]
  | addNode m => simp [apply, Registers, Unregisters, or_comm, eq_comm]
  | removeNode m => simp [apply, Registers, Unregisters, eq_comm]
  | embed source r =>
    rw [apply, Graph.embed, Graph.mem_nodes_addAll, Graph.mem_nodes_addNodes, or_assoc, or_comm]
    simp only [Triple.mem_nodes, Registers, Unregisters, List.mem_map (b := n), eq_comm (a := n),
      not_false_eq_true, and_true]

end Change

namespace Graph

variable {g : Graph}

/-! ### The law of the history -/

theorem Registered.applyAll (h : g.Registered) (changes : List Change) :
    (changes.foldl Change.apply g).Registered := by
  induction changes generalizing g with
  | nil => exact h
  | cons c changes ih => exact ih (h.apply c)

theorem Distinct.applyAll (h : g.Distinct) (changes : List Change) :
    (changes.foldl Change.apply g).Distinct := by
  induction changes generalizing g with
  | nil => exact h
  | cons c changes ih => exact ih (h.apply c)

/-- **Every listing of a graph shows what its history says**: the triples and the nodes that came in
and have not gone since, and nothing twice.

A change may bring in a node or an object that is missing.  That is no term and has no text to sort
by; of such a history this says which nodes and triples the graph holds, and not that they can be put
in the order of their texts. -/
theorem shows_of_history (reports : Bool) (changes : List Change) :
    (changes.foldl Change.apply { reports }).Shows
      (fun t => Stands (Change.Adds t) (Change.Removes t) changes)
      (fun n => Stands (Change.Registers n) (Change.Unregisters n) changes) := by
  have hshows := ((Registered.empty reports).applyAll changes).shows
    ((Distinct.empty reports).applyAll changes)
  have htriples : ∀ t, t ∈ (changes.foldl Change.apply { reports }).triples ↔
      Stands (Change.Adds t) (Change.Removes t) changes := by
    intro t
    have hstart : t ∉ ({ reports } : Graph).triples := List.not_mem_nil
    refine foldl_iff_stands (fun g : Graph => t ∈ g.triples) hstart (fun g c => ?_) changes
    exact Change.mem_triples_apply
  have hnodes : ∀ n, n ∈ (changes.foldl Change.apply { reports }).nodes ↔
      Stands (Change.Registers n) (Change.Unregisters n) changes := by
    intro n
    have hstart : n ∉ ({ reports } : Graph).nodes := List.not_mem_nil
    refine foldl_iff_stands (fun g : Graph => n ∈ g.nodes) hstart (fun g c => ?_) changes
    exact Change.mem_nodes_apply
  simp only [htriples, hnodes] at hshows
  exact hshows

/-! ### Nodes in the positions of a triple -/

/-- **Whatever a graph has been through, the nodes in its triples are registered**: the object of a
triple is, if it is a node; what is not registered is neither subject nor object; and neither is a
node that was removed. -/
theorem nodes_at_positions (h : g.Reachable) :
    (∀ t, g.contains t → ∀ k : Node, t.object = some k.toTerm → g.hasNode (some k)) ∧
    (∀ k : Node, g.hasNode (some k) = false → ∀ t, g.contains t →
      t.subject ≠ some k ∧ t.object ≠ some k.toTerm) ∧
    (∀ (n : Option Node) (t : Triple), (g.removeNode n).contains t →
      t.subject ≠ n ∧ t.object ≠ n.map Node.toTerm) := by
  have hobject : ∀ t, g.contains t → ∀ k : Node, t.object = some k.toTerm → g.hasNode (some k) := by
    intro t ht k hk
    refine hasNode_iff.mpr (h.registered.object (contains_iff.mp ht) ?_)
    rw [hk, Option.bind_some, Term.toNode?_toTerm]
  refine ⟨hobject, fun k hk t ht => ⟨fun hs => ?_, fun ho => ?_⟩, fun n t ht => ?_⟩
  · have hmem := hasNode_iff.mpr (h.registered.subject (contains_iff.mp ht))
    rw [hs, hk] at hmem
    cases hmem
  · rw [hobject t ht k ho] at hk
    cases hk
  · exact (mem_triples_removeNode.mp (contains_iff.mp ht)).2

/-- A blank node that came with a merge, under its old label and under its new one. -/
theorem nodes_at_positions_merged :
    let source := Graph.empty.add ⟨some (.iri "s"), "p", some (.blank "x")⟩
    let listing : List (Option Node × List Pair) :=
      [(some (.iri "s"), [⟨"p", some (.blank "x")⟩]), (some (.blank "x"), [])]
    let g := (Graph.empty.mergeAlong listing {}).target
    g.Reachable ∧ source.Lists listing ∧ g.contains ⟨some (.iri "s"), "p", some (.blank "x_1")⟩ ∧
      g.hasNode (some (.blank "x_1")) ∧
      (∀ t, g.contains t → t.subject ≠ some (.blank "x") ∧ t.object ≠ some (.blank "x")) ∧
      (∀ t, (g.removeNode (some (.blank "x_1"))).contains t →
        t.subject ≠ some (.blank "x_1") ∧ t.object ≠ some (.blank "x_1")) := by
  intro source listing g
  have hlisting : source.Lists listing := ⟨by decide, by decide⟩
  have hg : g.Reachable :=
    (Reachable.empty true).merge ((Reachable.empty true).change (.add _)) hlisting {}
  have hmem : g.contains ⟨some (.iri "s"), "p", some (.blank "x_1")⟩ := by decide
  obtain ⟨hobject, habsent, hremoved⟩ := nodes_at_positions hg
  exact ⟨hg, hlisting, hmem, hobject _ hmem (.blank "x_1") rfl,
    habsent (.blank "x") (by decide), hremoved (some (.blank "x_1"))⟩

/-- A predicate is not registered for being one. -/
theorem predicate_unregistered :
    let g := Graph.empty.add ⟨some (.iri "a"), "p", some (.iri "b")⟩
    g.Reachable ∧ g.contains ⟨some (.iri "a"), "p", some (.iri "b")⟩ ∧
      g.hasNode (some (.iri "p")) = false :=
  ⟨(Reachable.empty true).change (.add _), by decide, by decide⟩

end Graph

end TripleStore
