import TripleStore.Proofs.Graph.Listing

/-!
# Listings where texts tie

Texts in UTF-8 tell terms apart.  Other terms may have the same text; they rank alike, and a sort may
leave them in any order, depending on how the graph is enumerated and on the sort itself.

* `Graph.outcomes`: the lists in which the statements that match a pattern may come out.
* `Graph.mem_outcomes_iff`: **they are the matches in the graph, enumerated in some order**, so a sort
  that leaves ties in an order of its own makes no list that a stable one could not make.
* `Graph.outcomes_eq_image`: what may come out of a match is what a filter leaves of what may come out
  of a listing of everything.
* `Graph.perm_of_mem_outcomes`, `Graph.outcomes_eq_singleton`: all these lists hold the same
  statements, and in UTF-8 there is only one of them.
-/

namespace TripleStore

namespace Graph

variable {g g' : Graph} {p : Pattern} {l l' : List Draft} {n : Option Node}

/-- The lists in which the statements that match a pattern may come out: subject by subject, those of
a subject pair by pair, both sorted, and what ranks alike in any order. -/
def outcomes (g : Graph) (p : Pattern) : Set (List Draft) :=
  {l | ∃ (subjects : List (Option Node)) (pairs : Option Node → List Pair),
    (subjects.Perm (g.candidates p) ∧
      subjects.Pairwise fun a b => presentLe Node.le a b = true) ∧
    (∀ n ∈ subjects, (pairs n).Perm (g.pairsOf n p.acceptsPair) ∧
      (pairs n).Pairwise fun a b => a.le b = true) ∧
    l = subjects.flatMap fun n => (pairs n).map fun pair => ⟨n, pair.predicate, pair.object, none⟩}

/-! ### Matches in rearranged graphs -/

theorem Rearranges.distinct (h : g.Rearranges g') (hg : g.Distinct) : g'.Distinct :=
  ⟨h.nodes.nodup_iff.mp hg.nodes, h.triples.nodup_iff.mp hg.triples⟩

theorem Rearranges.candidates_perm (h : g.Rearranges g') (p : Pattern) :
    (g'.candidates p).Perm (g.candidates p) := by
  have hregistered : ∀ n, g'.hasNode n = g.hasNode n := by
    intro n
    rw [Bool.eq_iff_iff, hasNode_iff, hasNode_iff, h.nodes.mem_iff]
  rw [candidates, candidates]
  cases p.subject with
  | none =>
    exact (List.mergeSort_perm _ _).trans (h.nodes.symm.trans (List.mergeSort_perm _ _).symm)
  | some t => simp only [hregistered, List.Perm.refl]

theorem Rearranges.pairsOf_perm (h : g.Rearranges g') (n : Option Node) (admits : Pair → Bool) :
    (g'.pairsOf n admits).Perm (g.pairsOf n admits) := by
  refine (List.mergeSort_perm _ _).trans (List.Perm.trans ?_ (List.mergeSort_perm _ _).symm)
  exact ((h.triples.symm.filter _).map Triple.pair).filter admits

theorem pairwise_candidates (g : Graph) (p : Pattern) :
    (g.candidates p).Pairwise fun a b => presentLe Node.le a b = true := by
  rw [candidates]
  split
  · exact Node.ranks.present.pairwise_mergeSort _
  · split
    · exact List.Pairwise.nil
    · split_ifs
      · exact List.pairwise_singleton _ _
      · exact List.Pairwise.nil

/-- What a match gives in a rearranged graph may come out. -/
theorem Rearranges.matching_mem_outcomes (h : g.Rearranges g') (p : Pattern) :
    g'.matching p ∈ g.outcomes p :=
  ⟨g'.candidates p, fun n => g'.pairsOf n p.acceptsPair,
    ⟨h.candidates_perm p, g'.pairwise_candidates p⟩,
    fun n _ => ⟨h.pairsOf_perm n _, Pair.ranks.pairwise_mergeSort _⟩, rfl⟩

/-! ### A graph enumerated as it is to be listed -/

/-- A graph whose subjects and triples are enumerated in some order; all triples that are not
mentioned come last. -/
def enumerated (g : Graph) (nodes : List (Option Node)) (triples : List Triple) : Graph :=
  { g with nodes, triples := triples ++ g.triples.filter (· ∉ triples) }

theorem rearranges_enumerated (hg : g.Distinct) {nodes : List (Option Node)}
    {triples : List Triple} (hnodes : nodes.Perm g.nodes) (hnodup : triples.Nodup)
    (hsub : triples ⊆ g.triples) : g.Rearranges (g.enumerated nodes triples) := by
  refine ⟨hnodes.symm, List.Perm.symm ?_⟩
  have hfirst : triples.Perm (g.triples.filter (· ∈ triples)) := by
    refine (List.perm_ext_iff_of_nodup hnodup (hg.triples.filter _)).mpr fun t => ?_
    rw [List.mem_filter, decide_eq_true_eq]
    exact ⟨fun ht => ⟨hsub ht, ht⟩, And.right⟩
  have hall := List.filter_append_perm (· ∈ triples) g.triples
  refine List.Perm.trans (hfirst.append_right _) ?_
  simpa using hall

/-- Of a list of triples that goes subject by subject, those of one subject. -/
theorem filter_subject_flatMap {subjects : List (Option Node)} (hnodup : subjects.Nodup)
    (hn : n ∈ subjects) (pairs : Option Node → List Pair) :
    ((subjects.flatMap fun m => (pairs m).map fun pair =>
      (⟨m, pair.predicate, pair.object⟩ : Triple)).filter (·.subject = n)).map Triple.pair
      = pairs n := by
  have hat : ∀ m, ((pairs m).map fun pair => (⟨m, pair.predicate, pair.object⟩ : Triple)).filter
      (·.subject = n) = if decide (m = n) then (pairs n).map fun pair =>
        (⟨n, pair.predicate, pair.object⟩ : Triple) else [] := by
    intro m
    by_cases hm : m = n <;> simp [hm, List.filter_map, Function.comp_def]
  have hone : subjects.filter (fun m => decide (m = n)) = [n] := by
    rw [List.filter_eq, List.count_eq_one_of_mem hnodup hn, List.replicate_one]
  rw [List.filter_flatMap, List.flatMap_congr fun m _ => hat m, ← flatMap_filter, hone,
    List.flatMap_singleton, List.map_map]
  exact List.map_id _

/-- The pairs of a subject in a graph that enumerates first what a pattern admits, sorted. -/
theorem pairsOf_enumerated {subjects nodes : List (Option Node)} (hnodup : subjects.Nodup)
    {pairs : Option Node → List Pair}
    (hpairs : ∀ n ∈ subjects, (pairs n).Perm (g.pairsOf n p.acceptsPair) ∧
      (pairs n).Pairwise fun a b => a.le b = true) (hn : n ∈ subjects) :
    (g.enumerated nodes (subjects.flatMap fun m => (pairs m).map fun pair =>
      ⟨m, pair.predicate, pair.object⟩)).pairsOf n p.acceptsPair = pairs n := by
  have hmem : ∀ pair, pair ∈ pairs n ↔
      ⟨n, pair.predicate, pair.object⟩ ∈ g.triples ∧ p.acceptsPair pair = true :=
    fun pair => (hpairs n hn).1.mem_iff.trans mem_pairsOf
  have hadmitted : (pairs n).filter p.acceptsPair = pairs n :=
    List.filter_eq_self.mpr fun pair hpair => ((hmem pair).mp hpair).2
  have hrest : ((((g.triples.filter (· ∉ subjects.flatMap fun m => (pairs m).map fun pair =>
      (⟨m, pair.predicate, pair.object⟩ : Triple))).filter (·.subject = n)).map
        Triple.pair).filter p.acceptsPair) = [] := by
    refine List.filter_eq_nil_iff.mpr fun pair hpair haccepts => ?_
    obtain ⟨t, hmem', rfl⟩ := List.mem_map.mp hpair
    obtain ⟨hfiltered, hsubject⟩ := List.mem_filter.mp hmem'
    obtain ⟨ht, hnot⟩ := List.mem_filter.mp hfiltered
    obtain rfl := of_decide_eq_true hsubject
    refine of_decide_eq_true hnot (List.mem_flatMap.mpr ⟨_, hn, List.mem_map.mpr ⟨t.pair, ?_, rfl⟩⟩)
    exact (hmem t.pair).mpr ⟨ht, haccepts⟩
  rw [pairsOf, enumerated]
  simp only [List.filter_append, List.map_append]
  rw [filter_subject_flatMap hnodup hn, hrest, hadmitted, List.append_nil]
  exact List.mergeSort_of_pairwise (hpairs n hn).2

/-- The subjects of a graph that enumerates first what a pattern admits, sorted. -/
theorem candidates_enumerated {subjects : List (Option Node)} {triples : List Triple}
    (hperm : subjects.Perm (g.candidates p))
    (hsorted : subjects.Pairwise fun a b => presentLe Node.le a b = true) :
    (g.enumerated (if p.subject = none then subjects else g.nodes) triples).candidates p
      = subjects := by
  rw [candidates] at hperm ⊢
  cases hs : p.subject with
  | none => exact List.mergeSort_of_pairwise hsorted
  | some t =>
    rw [hs] at hperm
    rw [if_neg (Option.some_ne_none t)]
    -- there is one of them at most, and only the registered nodes matter
    cases hn : t.toNode? with
    | none =>
      simp only [hn] at hperm ⊢
      exact hperm.eq_nil.symm
    | some n =>
      have hregistered : (g.enumerated g.nodes triples).hasNode (some n) = g.hasNode (some n) := rfl
      simp only [hn, hregistered] at hperm ⊢
      split_ifs at hperm ⊢
      · exact (List.perm_singleton.mp hperm).symm
      · exact hperm.eq_nil.symm

theorem nodup_candidates (hg : g.Distinct) (p : Pattern) : (g.candidates p).Nodup := by
  rw [candidates_eq_filter hg]
  exact ((List.mergeSort_perm _ _).nodup_iff.mpr hg.nodes).filter _

/-- **What may come out of a match is what a match gives in the graph, enumerated in some order.** -/
theorem mem_outcomes_iff (hg : g.Distinct) :
    l ∈ g.outcomes p ↔ ∃ g', g.Rearranges g' ∧ g'.matching p = l := by
  refine ⟨?_, fun ⟨g', h, hl⟩ => hl ▸ h.matching_mem_outcomes p⟩
  rintro ⟨subjects, pairs, ⟨hperm, hsorted⟩, hpairs, rfl⟩
  have hnodup : subjects.Nodup := hperm.nodup_iff.mpr (nodup_candidates hg p)
  let triples : List Triple := subjects.flatMap fun m => (pairs m).map fun pair =>
    ⟨m, pair.predicate, pair.object⟩
  have hnodes : (if p.subject = none then subjects else g.nodes).Perm g.nodes := by
    split_ifs with hs
    · rw [candidates, hs] at hperm
      exact hperm.trans (List.mergeSort_perm _ _)
    · exact List.Perm.refl _
  have htriples : triples.Nodup := by
    refine List.nodup_flatMap.mpr ⟨fun m hm => ?_, hnodup.imp fun {m n} hmn => ?_⟩
    · refine List.Nodup.map (fun a b hab => ?_) ?_
      · cases a
        cases b
        simpa using hab
      · exact (hpairs m hm).1.nodup_iff.mpr (nodup_pairsOf hg.triples m _)
    · rintro t hm hn
      obtain ⟨_, -, rfl⟩ := List.mem_map.mp hm
      obtain ⟨_, -, ht⟩ := List.mem_map.mp hn
      exact hmn (congrArg Triple.subject ht).symm
  have hsub : triples ⊆ g.triples := by
    intro t ht
    obtain ⟨m, hm, ht⟩ := List.mem_flatMap.mp ht
    obtain ⟨pair, hpair, rfl⟩ := List.mem_map.mp ht
    exact (mem_pairsOf.mp ((hpairs m hm).1.mem_iff.mp hpair)).1
  refine ⟨_, rearranges_enumerated hg hnodes htriples hsub, ?_⟩
  rw [matching, candidates_enumerated hperm hsorted]
  refine List.flatMap_congr fun m hm => ?_
  rw [matchingAt, pairsOf_enumerated hnodup hpairs hm]

/-! ### Matches and filters -/

/-- What may come out of a match is what a filter leaves of what may come out of a listing of all
statements. -/
theorem outcomes_eq_image (hg : g.Distinct) (p : Pattern) :
    g.outcomes p = (·.filter p.accepts) '' g.outcomes {} := by
  have hfilter : ∀ {g'}, g.Rearranges g' → g'.matching p = (g'.matching {}).filter p.accepts :=
    fun h => matching_eq_filter (h.distinct hg) p
  ext l
  rw [mem_outcomes_iff hg, Set.mem_image]
  constructor
  · rintro ⟨g', h, rfl⟩
    exact ⟨g'.matching {}, h.matching_mem_outcomes {}, (hfilter h).symm⟩
  · rintro ⟨l₀, h₀, rfl⟩
    obtain ⟨g', h, rfl⟩ := (mem_outcomes_iff hg).mp h₀
    exact ⟨g', h, hfilter h⟩

/-- All lists that may come out hold the same statements. -/
theorem perm_of_mem_outcomes (h : l ∈ g.outcomes p) (h' : l' ∈ g.outcomes p) : l.Perm l' := by
  obtain ⟨subjects, pairs, ⟨hperm, -⟩, hpairs, rfl⟩ := h
  obtain ⟨subjects', pairs', ⟨hperm', -⟩, hpairs', rfl⟩ := h'
  have hsubjects := hperm.trans hperm'.symm
  refine hsubjects.flatMap fun n hn => ?_
  exact ((hpairs n hn).1.trans (hpairs' n (hsubjects.mem_iff.mp hn)).1.symm).map _

/-- In UTF-8 only one list may come out. -/
theorem outcomes_eq_singleton (hg : g.Distinct) (hutf8 : g.isUtf8 = true) (p : Pattern) :
    g.outcomes p = {g.matching p} := by
  ext l
  rw [mem_outcomes_iff hg, Set.mem_singleton_iff]
  constructor
  · rintro ⟨g', h, rfl⟩
    exact ((h.listsAlike hutf8).matching p).symm
  · rintro rfl
    exact ⟨g, ⟨List.Perm.refl _, List.Perm.refl _⟩, rfl⟩

/-- Stray bytes are not told apart where something else must be escaped, so statements with these
objects may come out in either order. -/
example :
    (Term.iri [97, 124, 0xFF]).le (.iri [97, 124, 0xFE]) = true ∧
      (Term.iri [97, 124, 0xFE]).le (.iri [97, 124, 0xFF]) = true := by
  decide

end Graph

end TripleStore
