import Mathlib
import TripleStore.Key.Term
import TripleStore.Proofs.Graph.Merge
import TripleStore.Proofs.Term.Order

/-!
# Listings in order

A graph is kept in no order; every listing is sorted by the texts of terms.  A match lists the
statements of a fixed subject without a look at the others, tests predicates and objects pair by
pair, and sorts what is left.  It comes to the same as a filter over the list of all statements.

* `Graph.matching_eq_filter`: **a match is what a filter leaves of all statements.**
* `Graph.pairwise_statements`: subject by subject, then predicate by predicate, then object by object.
* `Graph.Rearranges.listsAlike`: what is enumerated in another order is listed as before.
* `Graph.texts_tell_terms_apart`: **all of this is because no two terms have the same text.**
-/

namespace TripleStore

/-- Whether all texts of a triple are UTF-8. -/
def Triple.isUtf8 (t : Triple) : Bool := t.subject.all Node.isUtf8 && t.pair.isUtf8

/-- Whether all texts of a graph are UTF-8. -/
def Graph.isUtf8 (g : Graph) : Bool :=
  g.nodes.all (·.all Node.isUtf8) && g.triples.all Triple.isUtf8

/-- The order of statements: by subject, then by predicate, then by object. -/
def Draft.Precedes (d e : Draft) : Prop :=
  Before (presentLe Node.le) d.subject e.subject ∨
    d.subject = e.subject ∧ (Before iriLe d.predicate e.predicate ∨
      d.predicate = e.predicate ∧ Before (presentLe Term.le) d.object e.object)

/-! ### Sorted sets -/

section

variable {α : Type} [DecidableEq α] {le : α → α → Bool} {p : α → Prop} {l l' : List α}

/-- The sorted set of things that are told apart depends only on what they are. -/
theorem sortedSet_congr (h : Ranks le) (hp : Separates le p) (hl : ∀ a ∈ l, p a)
    (hmem : ∀ a, a ∈ l ↔ a ∈ l') : sortedSet le l = sortedSet le l' := by
  refine h.mergeSort_eq_of_perm hp (fun a ha => hl a ((mem_foldl_insertNew_nil l).mp ha)) ?_
  refine (List.perm_ext_iff_of_nodup (nodup_foldl_insertNew l List.nodup_nil)
    (nodup_foldl_insertNew l' List.nodup_nil)).mpr fun a => ?_
  rw [mem_foldl_insertNew_nil, mem_foldl_insertNew_nil, hmem]

theorem sortsInto_sortedSet (h : Ranks le) (hp : Separates le p) (hl : ∀ a ∈ l, p a) :
    SortsInto le (sortedSet le l) :=
  h.sortsInto hp fun a ha => hl a ((mem_foldl_insertNew_nil l).mp ha)

end

namespace Graph

variable {g g' : Graph} {p : Pattern} {n : Option Node}

/-! ### Matches -/

theorem flatMap_filter {α β : Type} (q : α → Bool) (f : α → List β) (l : List α) :
    (l.filter q).flatMap f = l.flatMap fun a => if q a then f a else [] := by
  induction l with
  | nil => rfl
  | cons a l ih =>
    rw [List.filter_cons, List.flatMap_cons, ← ih]
    split_ifs
    · rw [List.flatMap_cons]
    · rw [List.nil_append]

theorem pairsOf_eq_filter (g : Graph) (n : Option Node) (admits : Pair → Bool) :
    g.pairsOf n admits = (g.pairsOf n fun _ => true).filter admits := by
  rw [pairsOf, pairsOf, Pair.ranks.filter_mergeSort, List.filter_filter]
  simp

/-- The subjects that can match are those that agree with the pattern. -/
theorem candidates_eq_filter (h : g.Distinct) (p : Pattern) :
    g.candidates p = g.subjects.filter fun n => agrees p.subject (n.map Node.toTerm) := by
  have hnodup : g.subjects.Nodup := (List.mergeSort_perm _ _).nodup_iff.mpr h.nodes
  rw [candidates]
  cases hs : p.subject with
  | none => exact (List.filter_eq_self.mpr fun _ _ => rfl).symm
  | some t =>
    cases ht : t.toNode? with
    | none =>
      -- a literal agrees with no node
      simp only [ht]
      refine (List.filter_eq_nil_iff.mpr fun n _ hn => ?_).symm
      obtain ⟨k, rfl, rfl⟩ := Option.map_eq_some_iff.mp (of_decide_eq_true hn)
      rw [Term.toNode?_toTerm] at ht
      cases ht
    | some k =>
      obtain rfl := Term.toNode?_eq_some.mp ht
      have hagrees : (fun n : Option Node => agrees (some k.toTerm) (n.map Node.toTerm))
          = fun n => decide (n = some k) := by
        funext n
        cases n with
        | none => rfl
        | some n => simp [agrees, Node.toTerm_injective.eq_iff]
      simp only [ht, hagrees, List.filter_eq]
      split_ifs with hk
      · have hmem : some k ∈ g.subjects := mem_subjects.mpr (hasNode_iff.mp hk)
        rw [List.count_eq_one_of_mem hnodup hmem, List.replicate_one]
      · have hmem : some k ∉ g.subjects := fun hmem => hk (hasNode_iff.mpr (mem_subjects.mp hmem))
        rw [List.count_eq_zero_of_not_mem hmem, List.replicate_zero]

/-- The statements of one subject. -/
theorem filter_matchingAt (g : Graph) (p : Pattern) (n : Option Node) :
    (g.matchingAt {} n).filter p.accepts =
      if agrees p.subject (n.map Node.toTerm) then g.matchingAt p n else [] := by
  have haccepts : ∀ pair : Pair, p.accepts ⟨n, pair.predicate, pair.object, none⟩ =
      (agrees p.subject (n.map Node.toTerm) && p.acceptsPair pair) := by
    intro pair
    rw [Pattern.accepts, Pattern.acceptsPair, Bool.and_assoc]
  rw [matchingAt, matchingAt, List.filter_map]
  simp only [Function.comp_def, haccepts]
  split_ifs with hn
  · simp only [hn, Bool.true_and]
    rw [g.pairsOf_eq_filter n p.acceptsPair]
    rfl
  · simp [hn]

/-- **A match is what a filter leaves of all statements**, in their order. -/
theorem matching_eq_filter (h : g.Distinct) (p : Pattern) :
    g.matching p = g.statements.filter p.accepts := by
  rw [statements, matching, matching, List.filter_flatMap, candidates_eq_filter h]
  simp only [filter_matchingAt]
  exact flatMap_filter _ _ _

/-! ### The order of statements -/

theorem isUtf8_iff : g.isUtf8 = true ↔
    (∀ n ∈ g.nodes, n.all Node.isUtf8 = true) ∧ ∀ t ∈ g.triples, t.isUtf8 = true := by
  rw [isUtf8, Bool.and_eq_true, List.all_eq_true, List.all_eq_true]

theorem isUtf8_of_mem_triples (h : g.isUtf8 = true) {t : Triple} (ht : t ∈ g.triples) :
    t.subject.all Node.isUtf8 = true ∧ Utf8.isWellFormed t.predicate = true ∧
      t.object.all Term.isUtf8 = true := by
  have hparts := (isUtf8_iff.mp h).2 t ht
  rw [Triple.isUtf8, Pair.isUtf8, Bool.and_eq_true, Bool.and_eq_true] at hparts
  exact hparts

theorem isUtf8_of_mem_pairsOf (h : g.isUtf8 = true) {admits : Pair → Bool} :
    ∀ pair ∈ g.pairsOf n admits, pair.isUtf8 = true := by
  intro pair hpair
  have hparts := isUtf8_of_mem_triples h (mem_pairsOf.mp hpair).1
  rw [Pair.isUtf8, Bool.and_eq_true]
  exact hparts.2

theorem before_subjects (h : g.Distinct) (hutf8 : g.isUtf8 = true) :
    g.subjects.Pairwise (Before (presentLe Node.le)) :=
  Node.ranks.present.before_mergeSort Node.separates.present (isUtf8_iff.mp hutf8).1 h.nodes

theorem before_pairsOf (h : g.Distinct) (hutf8 : g.isUtf8 = true) (n : Option Node)
    (admits : Pair → Bool) : (g.pairsOf n admits).Pairwise (Before Pair.le) := by
  refine Pair.ranks.before_mergeSort Pair.separates (fun pair hpair => ?_) ?_
  · exact isUtf8_of_mem_pairsOf hutf8 pair (List.mem_mergeSort.mpr hpair)
  · exact (List.mergeSort_perm _ _).nodup_iff.mp (nodup_pairsOf h.triples n admits)

/-- Statements are listed subject by subject, those of a subject predicate by predicate, and those of
a predicate object by object. -/
theorem pairwise_statements (h : g.Distinct) (hutf8 : g.isUtf8 = true) :
    g.statements.Pairwise Draft.Precedes := by
  rw [statements, matching, candidates, List.pairwise_flatMap]
  constructor
  · intro n _
    refine List.pairwise_map.mpr ((before_pairsOf h hutf8 n _).imp_of_mem fun {a b} ha hb hab => ?_)
    exact .inr ⟨rfl, Pair.before_cases (isUtf8_of_mem_pairsOf hutf8 a ha)
      (isUtf8_of_mem_pairsOf hutf8 b hb) hab⟩
  · refine (before_subjects h hutf8).imp fun {m n} hmn d hd e he => ?_
    obtain ⟨a, -, rfl⟩ := List.mem_map.mp hd
    obtain ⟨b, -, rfl⟩ := List.mem_map.mp he
    exact .inl hmn

/-! ### Other orders of enumeration -/

/-- The same nodes and the same triples, enumerated in another order. -/
structure Rearranges (g g' : Graph) : Prop where
  nodes : g.nodes.Perm g'.nodes
  triples : g.triples.Perm g'.triples

/-- All listings of two graphs are the same. -/
structure ListsAlike (g g' : Graph) : Prop where
  subjects : g.subjects = g'.subjects
  statementsFor : ∀ n, g.statementsFor n = g'.statementsFor n
  predicates : g.predicates = g'.predicates
  objects : g.objects = g'.objects
  iris : g.iris = g'.iris
  literals : g.literals = g'.literals
  matching : ∀ p, g.matching p = g'.matching p

theorem isUtf8_of_mem_predicates (h : g.isUtf8 = true) :
    ∀ i ∈ g.triples.map (·.predicate), Utf8.isWellFormed i = true := by
  intro i hi
  obtain ⟨t, ht, rfl⟩ := List.mem_map.mp hi
  exact (isUtf8_of_mem_triples h ht).2.1

theorem isUtf8_of_mem_objects (h : g.isUtf8 = true) :
    ∀ o ∈ g.triples.map (·.object), o.all Term.isUtf8 = true := by
  intro o ho
  obtain ⟨t, ht, rfl⟩ := List.mem_map.mp ho
  exact (isUtf8_of_mem_triples h ht).2.2

theorem isUtf8_of_mem_iris (h : g.isUtf8 = true) : ∀ i ∈ g.nodes.filterMap (·.bind (·.toTerm.toIri?))
    ++ g.triples.map (·.predicate) ++ g.triples.filterMap (·.object.bind Term.toIri?),
    Utf8.isWellFormed i = true := by
  intro i hi
  rw [List.mem_append, List.mem_append, mem_nodeIris, mem_objectIris, List.mem_map] at hi
  rcases hi with (hi | ⟨t, ht, rfl⟩) | ⟨t, ht, hi⟩
  · exact (isUtf8_iff.mp h).1 _ hi
  · exact (isUtf8_of_mem_triples h ht).2.1
  · have hobject := (isUtf8_of_mem_triples h ht).2.2
    rwa [hi] at hobject

theorem isUtf8_of_mem_literals (h : g.isUtf8 = true) :
    ∀ l ∈ (g.triples.filterMap (·.object)).filter Term.isLiteral, l.isUtf8 = true := by
  intro l hl
  obtain ⟨t, ht, hl⟩ := List.mem_filterMap.mp (List.mem_filter.mp hl).1
  have hobject := (isUtf8_of_mem_triples h ht).2.2
  rwa [hl] at hobject

theorem Rearranges.pairsOf (h : g.Rearranges g') (hutf8 : g.isUtf8 = true) (n : Option Node)
    (admits : Pair → Bool) : g.pairsOf n admits = g'.pairsOf n admits := by
  refine Pair.ranks.mergeSort_eq_of_perm Pair.separates (fun pair hpair => ?_) ?_
  · exact isUtf8_of_mem_pairsOf hutf8 pair (List.mem_mergeSort.mpr hpair)
  · exact ((h.triples.filter _).map Triple.pair).filter admits

/-- **What is enumerated in another order is listed as before.** -/
theorem Rearranges.listsAlike (h : g.Rearranges g') (hutf8 : g.isUtf8 = true) :
    g.ListsAlike g' := by
  have hsubjects : g.subjects = g'.subjects :=
    Node.ranks.present.mergeSort_eq_of_perm Node.separates.present (isUtf8_iff.mp hutf8).1 h.nodes
  have hregistered : ∀ n, g.hasNode n = g'.hasNode n := by
    intro n
    rw [Bool.eq_iff_iff, hasNode_iff, hasNode_iff, h.nodes.mem_iff]
  refine ⟨hsubjects, fun n => ?_, ?_, ?_, ?_, ?_, fun p => ?_⟩
  · rw [statementsFor, statementsFor, hregistered, h.pairsOf hutf8]
  · refine sortedSet_congr ranks_iriLe separates_iriLe (isUtf8_of_mem_predicates hutf8) fun i => ?_
    exact (h.triples.map _).mem_iff
  · refine sortedSet_congr Term.ranks.present Term.separates.present (isUtf8_of_mem_objects hutf8)
      fun o => ?_
    exact (h.triples.map _).mem_iff
  · refine sortedSet_congr ranks_iriLe separates_iriLe (isUtf8_of_mem_iris hutf8) fun i => ?_
    exact (((h.nodes.filterMap _).append (h.triples.map _)).append (h.triples.filterMap _)).mem_iff
  · refine sortedSet_congr Term.ranks Term.separates (isUtf8_of_mem_literals hutf8) fun l => ?_
    exact ((h.triples.filterMap _).filter _).mem_iff
  · have hcandidates : g.candidates p = g'.candidates p := by
      simp only [candidates, hsubjects, hregistered]
    have hat : g.matchingAt p = g'.matchingAt p := by
      funext n
      rw [matchingAt, matchingAt, h.pairsOf hutf8]
    rw [Graph.matching, Graph.matching, hcandidates, hat]

/-- The listings that are sorted sets do not depend on how these sets are enumerated. -/
structure SetsSorted (g : Graph) : Prop where
  predicates : SortsInto iriLe g.predicates
  objects : SortsInto (presentLe Term.le) g.objects
  iris : SortsInto iriLe g.iris
  literals : SortsInto Term.le g.literals

theorem setsSorted (hutf8 : g.isUtf8 = true) : g.SetsSorted where
  predicates := sortsInto_sortedSet ranks_iriLe separates_iriLe (isUtf8_of_mem_predicates hutf8)
  objects :=
    sortsInto_sortedSet Term.ranks.present Term.separates.present (isUtf8_of_mem_objects hutf8)
  iris := sortsInto_sortedSet ranks_iriLe separates_iriLe (isUtf8_of_mem_iris hutf8)
  literals := sortsInto_sortedSet Term.ranks Term.separates (isUtf8_of_mem_literals hutf8)

/-- **A match is what a filter leaves of all statements**, in the same order: subject by subject, then
predicate by predicate, then object by object, each before the next.  So it is for every pattern, and
in whatever order the graph is enumerated for the match. -/
theorem match_agrees_with_filter (hg : g.Reachable) (hutf8 : g.isUtf8 = true) (p : Pattern) :
    (∀ g', g.Rearranges g' → g'.matching p = g.statements.filter p.accepts) ∧
      (g.matching p).Pairwise Draft.Precedes := by
  have hfilter := matching_eq_filter hg.distinct p
  constructor
  · intro g' h
    rw [← (h.listsAlike hutf8).matching p, hfilter]
  · rw [hfilter]
    exact (pairwise_statements hg.distinct hutf8).filter _

/-- A match for a node and a literal, in a graph of two subjects that is enumerated backwards. -/
theorem match_agrees_with_filter_backwards :
    let t : Triple := ⟨some (.iri "b"), "p", some (.blank "x")⟩
    let u : Triple := ⟨some (.iri "a"), "p", some (.lang "v" "en")⟩
    let g := (Graph.empty.add t).add u
    let g' : Graph := { nodes := g.nodes.reverse, triples := [u, t] }
    let p : Pattern := { subject := some (.iri "a"), object := some (.lang "v" "en") }
    g'.matching p = g.statements.filter p.accepts ∧
      g.statements.filter p.accepts = [u.toDraft] ∧ g.statements = [u.toDraft, t.toDraft] ∧
      g.statements.Pairwise Draft.Precedes := by
  intro t u g g' p
  have hg : g.Reachable := ((Reachable.empty true).change (.add t)).change (.add u)
  have hutf8 : g.isUtf8 = true := by decide
  have hback : g.Rearranges g' := ⟨(List.reverse_perm _).symm, by decide⟩
  have hall : g.statements = [u.toDraft, t.toDraft] := by cbv
  refine ⟨(match_agrees_with_filter hg hutf8 p).1 g' hback, ?_, hall,
    (match_agrees_with_filter hg hutf8 {}).2⟩
  rw [hall]
  decide

/-- **Terms in UTF-8 are told apart by their texts, valid or not.**  So they stand in a strict total
order, and so do pairs; what a graph lists does not depend on the order in which its nodes and triples
or the sets made of them are enumerated; and different terms have different texts in the dictionary. -/
theorem texts_tell_terms_apart :
    (∀ a b : Term, a.isUtf8 = true → b.isUtf8 = true → a.render = b.render → a = b) ∧
      IsStrictTotalOrder {t : Term // t.isUtf8 = true} (fun a b => Before Term.le a.1 b.1) ∧
      IsStrictTotalOrder {p : Pair // p.isUtf8 = true} (fun a b => Before Pair.le a.1 b.1) ∧
      (∀ g g' : Graph, g.isUtf8 = true → g.Rearranges g' → g.ListsAlike g' ∧ g.SetsSorted) ∧
      ∀ a b : Term, a.isUtf8 = true → b.isUtf8 = true → a ≠ b →
        ∃ key text key' text', encodeTerm (some a) = .ok (key, text) ∧
          encodeTerm (some b) = .ok (key', text') ∧ text ≠ text' := by
  refine ⟨fun a b ha hb h => Term.render_injOn ha hb h, Term.ranks.isStrictTotalOrder Term.separates,
    Pair.ranks.isStrictTotalOrder Pair.separates, fun g g' hutf8 h => ?_, fun a b ha hb hne => ?_⟩
  · exact ⟨h.listsAlike hutf8, setsSorted hutf8⟩
  · refine ⟨_, _, _, _, rfl, rfl, fun h => hne ?_⟩
    exact Term.render_injOn ha hb h

/-- Stray bytes are not written as they are where something else must be escaped, so two literals that
are not both in UTF-8 can have the same text. -/
example : (Term.lang [0xFF, 34] "en").render = (Term.lang [0xEF, 0xBF, 0xBD, 34] "en").render := by
  decide

end Graph

end TripleStore
