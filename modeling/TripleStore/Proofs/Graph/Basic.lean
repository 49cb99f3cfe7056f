import TripleStore.Proofs.Repository.State
import TripleStore.Repository.Collection

/-!
# Graphs as sets

A graph stands for the set of its triples and the set of its registered nodes; every operation is
described by what it does to these two.

* `Graph.Registered`: the nodes of all triples are registered; **every change keeps this**
  (`Graph.Registered.apply`).
* `Graph.Same`: two graphs stand for the same sets.
-/

namespace TripleStore

theorem Term.toNode?_eq_some {t : Term} {n : Node} : t.toNode? = some n ↔ t = n.toTerm := by
  cases t <;> cases n <;> simp [Term.toNode?, Node.toTerm]

theorem Term.toNode?_toTerm (n : Node) : n.toTerm.toNode? = some n := by
  cases n <;> rfl

theorem Node.toTerm_injective : Function.Injective Node.toTerm := by
  intro m n h
  have hm := Term.toNode?_toTerm m
  rw [h, Term.toNode?_toTerm] at hm
  exact (Option.some.inj hm).symm

theorem Node.toTerm_eq_blank {n : Node} {l : Text} : n.toTerm = .blank l ↔ n = .blank l := by
  cases n <;> simp [toTerm]

namespace Graph

variable {g g' : Graph} {t u : Triple} {n m : Option Node}

theorem contains_iff : g.contains t ↔ t ∈ g.triples := by simp [contains]

theorem hasNode_iff : g.hasNode n ↔ n ∈ g.nodes := by simp [hasNode]

theorem mem_subjects : n ∈ g.subjects ↔ n ∈ g.nodes := List.mem_mergeSort

theorem mem_pairsOf {admits : Pair → Bool} {pair : Pair} :
    pair ∈ g.pairsOf n admits ↔
      ⟨n, pair.predicate, pair.object⟩ ∈ g.triples ∧ admits pair = true := by
  rw [pairsOf, List.mem_mergeSort, List.mem_filter, List.mem_map]
  refine and_congr_left fun _ => ?_
  constructor
  · rintro ⟨t, ht, rfl⟩
    obtain ⟨hmem, hsubject⟩ := List.mem_filter.mp ht
    obtain rfl := of_decide_eq_true hsubject
    exact hmem
  · intro ht
    exact ⟨_, List.mem_filter.mpr ⟨ht, decide_eq_true rfl⟩, rfl⟩

theorem mem_statementsFor (hn : n ∈ g.nodes) {pair : Pair} :
    pair ∈ (g.statementsFor n).getD [] ↔ ⟨n, pair.predicate, pair.object⟩ ∈ g.triples := by
  rw [statementsFor, if_pos (hasNode_iff.mpr hn), Option.getD_some, mem_pairsOf, and_iff_left rfl]

/-! ### Additions -/

@[simp] theorem mem_nodes_addNode : m ∈ (g.addNode n).nodes ↔ m ∈ g.nodes ∨ m = n := mem_insertNew

@[simp] theorem triples_addNode : (g.addNode n).triples = g.triples := rfl

@[simp] theorem mem_nodes_addObject {o : Option Term} :
    m ∈ (g.addObject o).nodes ↔ m ∈ g.nodes ∨ ∃ k, o.bind Term.toNode? = some k ∧ m = some k := by
  rw [addObject]
  cases h : o.bind Term.toNode? with
  | none => simp
  | some k => simp

@[simp] theorem triples_addObject {o : Option Term} : (g.addObject o).triples = g.triples := by
  rw [addObject]
  cases o.bind Term.toNode? <;> rfl

@[simp] theorem mem_triples_add : t ∈ (g.add u).triples ↔ t ∈ g.triples ∨ t = u := by
  rw [add]
  simp

@[simp] theorem mem_nodes_add : m ∈ (g.add u).nodes ↔
    m ∈ g.nodes ∨ m = u.subject ∨ ∃ k, u.object.bind Term.toNode? = some k ∧ m = some k := by
  have h : (g.add u).nodes = ((g.addNode u.subject).addObject u.object).nodes := rfl
  rw [h, mem_nodes_addObject, mem_nodes_addNode, or_assoc]

theorem mem_triples_addAll {ts : List Triple} :
    t ∈ (g.addAll ts).triples ↔ t ∈ g.triples ∨ t ∈ ts := by
  induction ts generalizing g with
  | nil => simp [addAll]
  | cons u ts ih =>
    have h : g.addAll (u :: ts) = (g.add u).addAll ts := rfl
    rw [h, ih, mem_triples_add, List.mem_cons, or_assoc]

theorem triples_addNodes (ns : List (Option Node)) (f : Option Node → Option Node) (g : Graph) :
    (ns.foldl (fun g n => g.addNode (f n)) g).triples = g.triples := by
  induction ns generalizing g with
  | nil => rfl
  | cons n ns ih => exact ih (g.addNode (f n))

theorem mem_triples_embed {source : Graph} {r : Renaming} :
    t ∈ (g.embed source r).triples ↔ t ∈ g.triples ∨ t ∈ source.triples.map r.triple := by
  rw [embed, mem_triples_addAll, triples_addNodes source.nodes fun n => n.map r.node]

/-! ### Removals -/

@[simp] theorem mem_triples_remove : t ∈ (g.remove u).triples ↔ t ∈ g.triples ∧ t ≠ u := by
  simp [remove]

@[simp] theorem mem_triples_removeNode : t ∈ (g.removeNode n).triples ↔
    t ∈ g.triples ∧ t.subject ≠ n ∧ t.object ≠ n.map Node.toTerm := by
  simp [removeNode]

@[simp] theorem mem_nodes_removeNode : m ∈ (g.removeNode n).nodes ↔ m ∈ g.nodes ∧ m ≠ n := by
  simp [removeNode]

/-! ### Registered nodes -/

/-- The nodes of all triples are registered. -/
structure Registered (g : Graph) : Prop where
  subject : ∀ {t}, t ∈ g.triples → t.subject ∈ g.nodes
  object : ∀ {t}, t ∈ g.triples → ∀ {k}, t.object.bind Term.toNode? = some k → some k ∈ g.nodes

namespace Registered

theorem empty (reports : Bool) : Registered { reports } :=
  ⟨fun h => absurd h List.not_mem_nil, fun h => absurd h List.not_mem_nil⟩

theorem addNode (h : Registered g) (n : Option Node) : Registered (g.addNode n) :=
  ⟨fun ht => mem_nodes_addNode.mpr (.inl (h.subject ht)),
    fun ht _ hk => mem_nodes_addNode.mpr (.inl (h.object ht hk))⟩

theorem add (h : Registered g) (u : Triple) : Registered (g.add u) := by
  refine ⟨?_, ?_⟩
  · intro t ht
    rw [mem_nodes_add]
    rcases mem_triples_add.mp ht with ht | rfl
    · exact .inl (h.subject ht)
    · exact .inr (.inl rfl)
  · intro t ht k hk
    rw [mem_nodes_add]
    rcases mem_triples_add.mp ht with ht | rfl
    · exact .inl (h.object ht hk)
    · exact .inr (.inr ⟨k, hk, rfl⟩)

theorem addAll (h : Registered g) (ts : List Triple) : Registered (g.addAll ts) := by
  induction ts generalizing g with
  | nil => exact h
  | cons u ts ih => exact ih (h.add u)

theorem embed (h : Registered g) (source : Graph) (r : Renaming) :
    Registered (g.embed source r) := by
  have hnodes : ∀ (ns : List (Option Node)) {g : Graph}, Registered g →
      Registered (ns.foldl (fun g n => g.addNode (n.map r.node)) g) := by
    intro ns
    induction ns with
    | nil => exact fun h => h
    | cons n ns ih => exact fun h => ih (h.addNode _)
  exact (hnodes source.nodes h).addAll _

theorem remove (h : Registered g) (u : Triple) : Registered (g.remove u) :=
  ⟨fun ht => h.subject (mem_triples_remove.mp ht).1,
    fun ht => h.object (mem_triples_remove.mp ht).1⟩

theorem removeNode (h : Registered g) (n : Option Node) : Registered (g.removeNode n) := by
  refine ⟨?_, ?_⟩
  · intro t ht
    obtain ⟨ht, hs, -⟩ := mem_triples_removeNode.mp ht
    exact mem_nodes_removeNode.mpr ⟨h.subject ht, hs⟩
  · intro t ht k hk
    obtain ⟨ht, -, ho⟩ := mem_triples_removeNode.mp ht
    refine mem_nodes_removeNode.mpr ⟨h.object ht hk, ?_⟩
    rintro rfl
    -- a triple whose object is the node that goes would have gone with it
    obtain ⟨o, hto, hok⟩ := Option.bind_eq_some_iff.mp hk
    rw [hto, Term.toNode?_eq_some.mp hok] at ho
    exact ho rfl

theorem apply (h : Registered g) (c : Change) : Registered (c.apply g) := by
  cases c with
  | add t => exact h.add t
  | remove t => exact h.remove t
  | addNode n => exact h.addNode n
  | removeNode n => exact h.removeNode n
  | embed source r => exact h.embed source r

end Registered

/-! ### Graphs that stand for the same sets -/

/-- The same triples and the same registered nodes. -/
structure Same (g g' : Graph) : Prop where
  nodes : ∀ n, n ∈ g.nodes ↔ n ∈ g'.nodes
  triples : ∀ t, t ∈ g.triples ↔ t ∈ g'.triples

theorem Same.symm (h : g.Same g') : g'.Same g :=
  ⟨fun n => (h.nodes n).symm, fun t => (h.triples t).symm⟩

theorem Same.trans {g'' : Graph} (h : g.Same g') (h' : g'.Same g'') : g.Same g'' :=
  ⟨fun n => (h.nodes n).trans (h'.nodes n), fun t => (h.triples t).trans (h'.triples t)⟩

theorem Same.registered (h : g.Same g') (hg : g'.Registered) : g.Registered :=
  ⟨fun ht => (h.nodes _).mpr (hg.subject ((h.triples _).mp ht)),
    fun ht _ hk => (h.nodes _).mpr (hg.object ((h.triples _).mp ht) hk)⟩

theorem Same.exists_of_rel {a : Option Graph} (h : Option.Rel Same a (some g)) :
    ∃ g', a = some g' ∧ g'.Same g := by
  cases h with
  | some h => exact ⟨_, rfl, h⟩

theorem Same.eq_none_of_rel {a : Option Graph} (h : Option.Rel Same a none) : a = none := by
  cases h
  rfl

/-- Two that stand for the same as a third one. -/
theorem Same.of_common {a b c : Option Graph} (ha : Option.Rel Same a c)
    (hb : Option.Rel Same b c) : Option.Rel Same a b := by
  cases ha with
  | none =>
    cases hb
    exact .none
  | some ha =>
    cases hb with
    | some hb => exact .some (ha.trans hb.symm)

end Graph

end TripleStore
