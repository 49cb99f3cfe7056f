import TripleStore.Graph.Match
import TripleStore.Proofs.Graph.Basic

/-!
# What the listings of a graph show

Every listing of a graph is computed on its own from the triples and the registered nodes.  As long as
nothing is held twice and the nodes of all triples are registered, each of them shows just what the
triples and the nodes tell, and everything once.

* `Graph.Distinct`: nothing is held twice; **every change keeps this** (`Graph.Distinct.apply`).
* `Enumerates`: a list holds just what has a property, each once.
* `Graph.Shows`: what all listings of a graph have to agree on; `Graph.Registered.shows`: **they do.**
-/

namespace TripleStore

/-- The list holds just what has the property, each once. -/
def Enumerates {α : Type} (l : List α) (p : α → Prop) : Prop := l.Nodup ∧ ∀ a, a ∈ l ↔ p a

/-! ### Lists without repetitions -/

section

variable {α : Type} [DecidableEq α] {a b : α} {l : List α}

theorem nodup_insertNew (h : l.Nodup) (a : α) : (insertNew a l).Nodup := by
  rw [insertNew]
  split_ifs with ha
  · exact h
  · refine List.nodup_append.mpr ⟨h, List.nodup_singleton a, fun b hb c hc => ?_⟩
    rw [List.mem_singleton.mp hc]
    exact fun heq => ha (heq ▸ hb)

theorem mem_foldl_insertNew (ls acc : List α) :
    a ∈ ls.foldl (fun acc a => insertNew a acc) acc ↔ a ∈ acc ∨ a ∈ ls := by
  induction ls generalizing acc with
  | nil => simp
  | cons b ls ih => rw [List.foldl_cons, ih, mem_insertNew, List.mem_cons, or_assoc]

theorem mem_foldl_insertNew_nil (ls : List α) :
    a ∈ ls.foldl (fun acc a => insertNew a acc) [] ↔ a ∈ ls := by
  rw [mem_foldl_insertNew]
  exact or_iff_right List.not_mem_nil

theorem nodup_foldl_insertNew (ls : List α) {acc : List α} (h : acc.Nodup) :
    (ls.foldl (fun acc a => insertNew a acc) acc).Nodup := by
  induction ls generalizing acc with
  | nil => exact h
  | cons b ls ih => exact ih (nodup_insertNew h b)

omit [DecidableEq α] in
theorem enumerates_mergeSort (h : l.Nodup) (le : α → α → Bool) :
    Enumerates (l.mergeSort le) (· ∈ l) :=
  ⟨(List.mergeSort_perm l le).nodup_iff.mpr h, fun _ => List.mem_mergeSort⟩

theorem enumerates_sortedSet (le : α → α → Bool) (l : List α) :
    Enumerates (sortedSet le l) (· ∈ l) := by
  refine ⟨?_, fun a => ?_⟩
  · exact (List.mergeSort_perm _ le).nodup_iff.mpr (nodup_foldl_insertNew l List.nodup_nil)
  · rw [sortedSet, List.mem_mergeSort, mem_foldl_insertNew_nil]

end

theorem Enumerates.congr {α : Type} {l : List α} {p q : α → Prop} (h : Enumerates l p)
    (hpq : ∀ a, p a ↔ q a) : Enumerates l q :=
  ⟨h.1, fun a => (h.2 a).trans (hpq a)⟩

namespace Graph

variable {g : Graph} {n : Option Node}

/-! ### Nothing is held twice -/

/-- No node and no triple is held twice. -/
structure Distinct (g : Graph) : Prop where
  nodes : g.nodes.Nodup
  triples : g.triples.Nodup

namespace Distinct

theorem empty (reports : Bool) : Distinct { reports } := ⟨List.nodup_nil, List.nodup_nil⟩

theorem addNode (h : Distinct g) (n : Option Node) : Distinct (g.addNode n) :=
  ⟨nodup_insertNew h.nodes n, h.triples⟩

theorem addObject (h : Distinct g) (o : Option Term) : Distinct (g.addObject o) := by
  rw [Graph.addObject]
  cases o.bind Term.toNode? with
  | none => exact h
  | some n => exact h.addNode n

theorem add (h : Distinct g) (t : Triple) : Distinct (g.add t) := by
  have hnodes := (h.addNode t.subject).addObject t.object
  exact ⟨hnodes.nodes, nodup_insertNew hnodes.triples t⟩

theorem addAll (h : Distinct g) (ts : List Triple) : Distinct (g.addAll ts) := by
  induction ts generalizing g with
  | nil => exact h
  | cons t ts ih => exact ih (h.add t)

theorem embed (h : Distinct g) (source : Graph) (r : Renaming) : Distinct (g.embed source r) := by
  have hnodes : ∀ (ns : List (Option Node)) {g : Graph}, Distinct g →
      Distinct (ns.foldl (fun g n => g.addNode (n.map r.node)) g) := by
    intro ns
    induction ns with
    | nil => exact fun h => h
    | cons n ns ih => exact fun h => ih (h.addNode _)
  exact (hnodes source.nodes h).addAll _

theorem remove (h : Distinct g) (t : Triple) : Distinct (g.remove t) :=
  ⟨h.nodes, h.triples.filter _⟩

theorem removeNode (h : Distinct g) (n : Option Node) : Distinct (g.removeNode n) :=
  ⟨h.nodes.filter _, h.triples.filter _⟩

theorem apply (h : Distinct g) (c : Change) : Distinct (c.apply g) := by
  cases c with
  | add t => exact h.add t
  | remove t => exact h.remove t
  | addNode n => exact h.addNode n
  | removeNode n => exact h.removeNode n
  | embed source r => exact h.embed source r

end Distinct

/-! ### The pairs of a subject -/

theorem nodup_pairsOf (h : g.triples.Nodup) (n : Option Node) (admits : Pair → Bool) :
    (g.pairsOf n admits).Nodup := by
  refine (List.mergeSort_perm _ _).nodup_iff.mpr (List.Nodup.filter _ ?_)
  refine (List.nodup_map_iff_inj_on (h.filter _)).mpr fun t ht u hu heq => ?_
  obtain ⟨subject, predicate, object⟩ := t
  obtain ⟨subject', predicate', object'⟩ := u
  have hsubject : subject = n := of_decide_eq_true (List.mem_filter.mp ht).2
  have hsubject' : subject' = n := of_decide_eq_true (List.mem_filter.mp hu).2
  obtain ⟨rfl, rfl⟩ := Pair.mk.inj heq
  rw [hsubject, hsubject']

/-! ### All statements -/

/-- The statements of a graph as they are listed. -/
theorem mem_statements (hg : g.Registered) {d : Draft} :
    d ∈ g.statements ↔ ∃ t ∈ g.triples, d = t.toDraft := by
  rw [statements, matching, candidates, List.mem_flatMap]
  constructor
  · intro h
    obtain ⟨n, -, h⟩ := h
    obtain ⟨pair, hpair, rfl⟩ := List.mem_map.mp h
    exact ⟨_, (mem_pairsOf.mp hpair).1, rfl⟩
  · intro h
    obtain ⟨t, ht, rfl⟩ := h
    refine ⟨t.subject, mem_subjects.mpr (hg.subject ht), List.mem_map.mpr ⟨t.pair, ?_, rfl⟩⟩
    exact mem_pairsOf.mpr ⟨ht, rfl⟩

theorem nodup_statements (h : g.Distinct) : g.statements.Nodup := by
  have hsubjects : g.subjects.Nodup := (List.mergeSort_perm _ _).nodup_iff.mpr h.nodes
  rw [statements, matching, candidates, List.nodup_flatMap]
  constructor
  · intro n _
    refine (nodup_pairsOf h.triples n _).map fun p q hpq => ?_
    obtain ⟨-, hpredicate, hobject, -⟩ := Draft.mk.inj hpq
    exact Pair.mk.injEq .. ▸ ⟨hpredicate, hobject⟩
  · -- statements of two subjects differ in their subjects
    refine hsubjects.imp fun {m n} hmn d hm hn => hmn ?_
    obtain ⟨p, -, rfl⟩ := List.mem_map.mp hm
    obtain ⟨q, -, hq⟩ := List.mem_map.mp hn
    exact (congrArg Draft.subject hq).symm

theorem toDraft_injective : Function.Injective Triple.toDraft := by
  intro t u h
  obtain ⟨hsubject, hpredicate, hobject, -⟩ := Draft.mk.inj h
  exact Triple.mk.injEq .. ▸ ⟨hsubject, hpredicate, hobject⟩

/-- The number of triples is that of the statements that are listed. -/
theorem size_eq (hg : g.Registered) (h : g.Distinct) : g.size = g.statements.length := by
  have hperm : g.statements.Perm (g.triples.map Triple.toDraft) := by
    refine (List.perm_ext_iff_of_nodup (nodup_statements h)
      (h.triples.map toDraft_injective)).mpr fun d => ?_
    rw [mem_statements hg, List.mem_map]
    simp only [eq_comm]
  rw [hperm.length_eq, List.length_map, size]

/-! ### All listings -/

/-- What a graph shows when it stands for the triples `T` and the nodes `N`: all that can be asked of
it agrees with them, and nothing is listed twice. -/
structure Shows (g : Graph) (T : Triple → Prop) (N : Option Node → Prop) : Prop where
  contains : ∀ t, g.contains t ↔ T t
  hasNode : ∀ n, g.hasNode n ↔ N n
  statements : Enumerates g.statements fun d => ∃ t, T t ∧ d = t.toDraft
  size : g.size = g.statements.length
  subjects : Enumerates g.subjects N
  /-- The pairs of a registered node. -/
  pairs : ∀ n, N n → ∃ l, g.statementsFor n = some l ∧
    Enumerates l fun p => T ⟨n, p.predicate, p.object⟩
  noPairs : ∀ n, ¬ N n → g.statementsFor n = none
  predicates : Enumerates g.predicates fun i => ∃ t, T t ∧ t.predicate = i
  objects : Enumerates g.objects fun o => ∃ t, T t ∧ t.object = o
  iris : Enumerates g.iris fun i =>
    N (some (.iri i)) ∨ ∃ t, T t ∧ (t.predicate = i ∨ t.object = some (.iri i))
  literals : Enumerates g.literals fun l => l.isLiteral ∧ ∃ t, T t ∧ t.object = some l

theorem mem_nodeIris {i : Iri} :
    i ∈ g.nodes.filterMap (·.bind (·.toTerm.toIri?)) ↔ some (.iri i) ∈ g.nodes := by
  have hiri : ∀ n : Option Node, n.bind (·.toTerm.toIri?) = some i ↔ n = some (.iri i) := by
    intro n
    rcases n with _ | _ | _ <;> simp [Node.toTerm, Term.toIri?]
  simp [List.mem_filterMap, hiri]

theorem mem_objectIris {i : Iri} :
    i ∈ g.triples.filterMap (·.object.bind Term.toIri?) ↔
      ∃ t ∈ g.triples, t.object = some (.iri i) := by
  have hiri : ∀ o : Option Term, o.bind Term.toIri? = some i ↔ o = some (.iri i) := by
    intro o
    rcases o with _ | _ | _ | _ | _ <;> simp [Term.toIri?]
  simp [List.mem_filterMap, hiri]

/-- **All that is listed agrees with the triples and the nodes.** -/
theorem Registered.shows (hg : g.Registered) (h : g.Distinct) :
    g.Shows (· ∈ g.triples) (· ∈ g.nodes) where
  contains := fun _ => contains_iff
  hasNode := fun _ => hasNode_iff
  statements := ⟨nodup_statements h, fun _ => mem_statements hg⟩
  size := size_eq hg h
  subjects := enumerates_mergeSort h.nodes _
  pairs := by
    intro n hn
    refine ⟨_, if_pos (hasNode_iff.mpr hn), nodup_pairsOf h.triples n _, fun p => ?_⟩
    rw [mem_pairsOf]
    exact and_iff_left rfl
  noPairs := fun n hn => if_neg fun hmem => hn (hasNode_iff.mp hmem)
  predicates := (enumerates_sortedSet _ _).congr fun _ => List.mem_map
  objects := (enumerates_sortedSet _ _).congr fun _ => List.mem_map
  iris := by
    refine (enumerates_sortedSet _ _).congr fun i => ?_
    rw [List.mem_append, List.mem_append, mem_nodeIris, mem_objectIris, List.mem_map, or_assoc]
    refine or_congr_right ?_
    constructor
    · intro hi
      rcases hi with ⟨t, ht, hi⟩ | ⟨t, ht, hi⟩
      · exact ⟨t, ht, .inl hi⟩
      · exact ⟨t, ht, .inr hi⟩
    · intro hi
      obtain ⟨t, ht, hi | hi⟩ := hi
      · exact .inl ⟨t, ht, hi⟩
      · exact .inr ⟨t, ht, hi⟩
  literals := by
    refine (enumerates_sortedSet _ _).congr fun l => ?_
    rw [List.mem_filter, List.mem_filterMap, and_comm]

end Graph

end TripleStore
