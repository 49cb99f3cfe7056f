import Mathlib.Data.Finset.Card
import TripleStore.Proofs.Graph.Merge

/-!
# The search for a fresh label ends

The search draws one label after the other until it comes to one that is no node of the graph.  Nothing
bounds it.  It ends because all labels that it draws differ, so that each of those it passes over is
another blank node of the graph.  What the graph holds may have labels of the same shape, up to the number
of its blank nodes, and while a merge is under way it holds what the merge has added already.

* `Graph.Searches`: the search, without a bound.
* `Graph.blankSubjects`: the labels of the blank nodes that are registered.
* `Graph.upcoming`: the labels that the search would draw, all of them different.
* `Graph.exists_first_free`: the first free label comes soon enough.
* `Graph.search_ends`: **the search ends after as many tries as there are blank nodes, and one more.**
-/

namespace TripleStore

namespace Graph

variable {g : Graph} {base new : Text} {tries fuel : ℕ} {supply supply' : Supply}

/-- Draws labels for `base` until one is no node of the graph: `tries` of them, the last of which is
`new`, and `supply'` is what is left. -/
inductive Searches (g : Graph) (base : Text) : (tries : ℕ) → Supply → Text → Supply → Prop
  | found {supply : Supply} : g.hasNode (some (.blank (supply.drawLabel base).1)) = false →
      Searches g base 1 supply (supply.drawLabel base).1 (supply.drawLabel base).2
  | taken {tries : ℕ} {supply supply' : Supply} {new : Text} :
      g.hasNode (some (.blank (supply.drawLabel base).1)) = true →
      Searches g base tries (supply.drawLabel base).2 new supply' →
      Searches g base (tries + 1) supply new supply'

/-- The labels of the blank nodes that are registered. -/
def blankSubjects (g : Graph) : Finset Text :=
  (g.nodes.filterMap fun n => n.bind (·.toTerm.label?)).toFinset

theorem mem_blankSubjects {l : Text} : l ∈ g.blankSubjects ↔ some (.blank l) ∈ g.nodes := by
  rw [blankSubjects, List.mem_toFinset, List.mem_filterMap]
  constructor
  · rintro ⟨n, hn, hl⟩
    obtain ⟨k, rfl, hk⟩ := Option.bind_eq_some_iff.mp hl
    cases k with
    | iri i => cases hk
    | blank l' =>
      cases hk
      exact hn
  · exact fun hn => ⟨_, hn, rfl⟩

theorem card_blankSubjects_le (g : Graph) : g.blankSubjects.card ≤ g.nodes.length :=
  (List.toFinset_card_le _).trans (List.length_filterMap_le _ _)

/-! ### The search and its bounded form -/

theorem Searches.pos (h : g.Searches base tries supply new supply') : 0 < tries := by
  cases h with
  | found _ => exact Nat.one_pos
  | taken _ _ => exact Nat.succ_pos _

/-- **With enough fuel the bounded search is the search.** -/
theorem Searches.freshLabel_eq (h : g.Searches base tries supply new supply')
    (hfuel : tries ≤ fuel + 1) :
    g.freshLabel base fuel supply = (new, supply') ∧ g.freshDraws base fuel supply = tries := by
  induction h generalizing fuel with
  | found hfree =>
    cases fuel with
    | zero => exact ⟨rfl, rfl⟩
    | succ fuel =>
      rw [freshLabel, freshDraws]
      simp only [hfree]
      exact ⟨rfl, rfl⟩
  | taken htaken hsearch ih =>
    have hpos := hsearch.pos
    obtain ⟨fuel, rfl⟩ := Nat.exists_eq_succ_of_ne_zero (by omega : fuel ≠ 0)
    obtain ⟨hlabel, hdraws⟩ := ih (Nat.le_of_succ_le_succ hfuel)
    rw [freshLabel, freshDraws]
    simp only [htaken, if_true]
    exact ⟨hlabel, by rw [hdraws]⟩

/-- The search ends at the first free label. -/
theorem searches_of_first_free (hroom : supply.labels.toNat + tries < 2 ^ 64) (hpos : 0 < tries)
    (htaken : ∀ i, 0 < i → i < tries →
      some (.blank (numbered base (supply.labels.toNat + i))) ∈ g.nodes)
    (hfree : some (.blank (numbered base (supply.labels.toNat + tries))) ∉ g.nodes) :
    g.Searches base tries supply (numbered base (supply.labels.toNat + tries))
      { supply with labels := .ofNat (supply.labels.toNat + tries) } := by
  obtain ⟨later, rfl⟩ := Nat.exists_eq_succ_of_ne_zero hpos.ne'
  clear hpos
  induction later generalizing supply with
  | zero =>
    have hcount := Supply.toNat_labels_succ hroom
    have hnone : g.hasNode (some (.blank (supply.drawLabel base).1)) = false := by
      rw [Supply.drawLabel_eq, hcount]
      exact Bool.eq_false_iff.mpr fun h => hfree (hasNode_iff.mp h)
    have hsearch := Searches.found hnone
    rwa [Supply.drawLabel_eq, ← UInt64.ofNat_toNat (x := supply.labels + 1), UInt64.toNat_ofNat',
      hcount, Nat.mod_eq_of_lt hroom] at hsearch
  | succ later ih =>
    have hcount : (supply.labels + 1).toNat = supply.labels.toNat + 1 :=
      Supply.toNat_labels_succ (by omega)
    have hnode : g.hasNode (some (.blank (supply.drawLabel base).1)) = true := by
      rw [Supply.drawLabel_eq, hcount]
      exact hasNode_iff.mpr (htaken 1 Nat.one_pos (by omega))
    -- one number on, there is one label less to be tried
    have hshift (i : ℕ) : (supply.labels + 1).toNat + i = supply.labels.toNat + (i + 1) := by omega
    have hrest := @ih { supply with labels := supply.labels + 1 }
    simp only [hshift] at hrest
    exact .taken hnode (hrest hroom (fun i hi hlt => htaken (i + 1) (Nat.succ_pos i) (by omega)) hfree)

/-! ### The first free label -/

/-- The labels with the `n` numbers that come next. -/
def upcoming (base : Text) (count n : ℕ) : Finset Text :=
  (Finset.range n).image fun i => numbered base (count + (i + 1))

theorem card_upcoming (base : Text) (count n : ℕ) : (upcoming base count n).card = n := by
  rw [upcoming, Finset.card_image_of_injective, Finset.card_range]
  intro i j hij
  have hnumber := (numbered_inj.mp hij).2
  omega

/-- **Of the labels with the next numbers, one more than there are blank nodes, one is free.** -/
theorem exists_first_free (g : Graph) (base : Text) (count : ℕ) :
    ∃ tries, 0 < tries ∧ tries ≤ g.blankSubjects.card + 1 ∧
      (∀ i, 0 < i → i < tries → some (.blank (numbered base (count + i))) ∈ g.nodes) ∧
      some (.blank (numbered base (count + tries))) ∉ g.nodes := by
  classical
  have hmore : g.blankSubjects.card < (upcoming base count (g.blankSubjects.card + 1)).card := by
    rw [card_upcoming]
    exact Nat.lt_succ_self _
  obtain ⟨l, hl, hfree⟩ := Finset.exists_mem_notMem_of_card_lt_card hmore
  obtain ⟨i, hi, rfl⟩ := Finset.mem_image.mp hl
  have hexists : ∃ n, 0 < n ∧ some (.blank (numbered base (count + n))) ∉ g.nodes :=
    ⟨i + 1, Nat.succ_pos i, fun h => hfree (mem_blankSubjects.mpr h)⟩
  refine ⟨Nat.find hexists, (Nat.find_spec hexists).1, ?_, fun j hj hlt => ?_,
    (Nat.find_spec hexists).2⟩
  · have hle : Nat.find hexists ≤ i + 1 :=
      Nat.find_min' hexists ⟨Nat.succ_pos i, fun h => hfree (mem_blankSubjects.mpr h)⟩
    exact hle.trans (Nat.succ_le_of_lt (Finset.mem_range.mp hi))
  · exact not_not.mp fun h => Nat.find_min hexists hlt ⟨hj, h⟩

/-! ### The search ends -/

/-- **The search for a fresh label ends** after at most one try more than there are blank nodes, if the
counter does not start over, and the label that it gives is no node of the graph.  Fuel for as many tries
as there are blank nodes changes nothing; so the label is the one that a merge gives to a blank node of
its source when its target has come to be this graph. -/
theorem search_ends (g : Graph) (l : Text) (supply : Supply)
    (hroom : supply.labels.toNat + g.subjects.length + 1 < 2 ^ 64) :
    ∃ tries ≤ g.blankSubjects.card + 1, ∃ new supply',
      g.Searches (labelBase l) tries supply new supply' ∧
      new = numbered (labelBase l) (supply.labels.toNat + tries) ∧
      some (.blank new) ∉ g.subjects ∧
      (∀ fuel, g.blankSubjects.card ≤ fuel →
        g.freshLabel (labelBase l) fuel supply = (new, supply') ∧
          g.freshDraws (labelBase l) fuel supply = tries) ∧
      ∀ m : Merging, m.target = g → m.supply = supply → m.names.lookup l = none →
        m.meet l = { m with
          names := (l, new) :: m.names, supply := supply', draws := m.draws + tries } := by
  obtain ⟨tries, hpos, hle, htaken, hfree⟩ :=
    exists_first_free g (labelBase l) supply.labels.toNat
  have hcard := g.card_blankSubjects_le
  have hlength : g.subjects.length = g.nodes.length := List.length_mergeSort _
  have hsearch := searches_of_first_free (by omega) hpos htaken hfree
  have hbounded (fuel : ℕ) (hfuel : g.blankSubjects.card ≤ fuel) :=
    hsearch.freshLabel_eq (hle.trans (Nat.succ_le_succ hfuel))
  refine ⟨tries, hle, _, _, hsearch, rfl, fun hmem => hfree (List.mem_mergeSort.mp hmem), hbounded, ?_⟩
  rintro m rfl rfl hnew
  obtain ⟨hlabel, hdraws⟩ := hbounded (m.target.nodes.length + 1) (by omega)
  rw [Merging.meet, hnew]
  simp only [hlabel, hdraws]

/-- The first two labels are taken, and the third is that of an IRI only. -/
theorem search_ends_third_try :
    let g : Graph := { nodes := [some (.blank "x_2"), some (.iri "x_3"), some (.blank "x_1")] }
    let supply : Supply := {}
    supply.labels.toNat + g.subjects.length + 1 < 2 ^ 64 ∧
      g.Searches (labelBase "x_7") 3 supply "x_3" { labels := 3 } ∧ some (.blank "x_3") ∉ g.subjects := by
  intro g supply
  have hroom : supply.labels.toNat + g.subjects.length + 1 < 2 ^ 64 := by
    rw [subjects, List.length_mergeSort]
    decide
  obtain ⟨tries, -, new, supply', hsearch, -, hfree, hfuel, -⟩ := search_ends g "x_7" supply hroom
  obtain ⟨hlabel, hdraws⟩ := hfuel 3 (card_blankSubjects_le g)
  have hgiven : g.freshLabel (labelBase "x_7") 3 supply = (("x_3" : Text), ⟨0, 3, 0⟩) := by
    decide
  have hthird : g.freshDraws (labelBase "x_7") 3 supply = 3 := by decide
  rw [hgiven] at hlabel
  rw [hthird] at hdraws
  cases hlabel
  cases hdraws
  exact ⟨hroom, hsearch, hfree⟩

end Graph

end TripleStore
