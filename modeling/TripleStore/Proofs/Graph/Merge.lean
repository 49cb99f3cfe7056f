import Mathlib.Data.List.TakeWhile
import TripleStore.Graph.Merge
import TripleStore.Proofs.Blank.Fresh
import TripleStore.Proofs.Graph.Views

/-!
# Merges are fresh embeddings

A merge takes the source into the target under new names for its blank nodes.  The new names are
numbered, and as long as the counter does not start over no number comes twice; a number is passed
over when the label with it is a node of the target already.  Only registered nodes are looked at:
that no other position of the target holds the label is due to `Graph.Registered`.

* `freshLabel_eq`, `freshLabel_notMem`: what the search for a fresh label gives.
* `Renaming.Fresh`: labels of different numbers, none of them a node of the target.
* `Merging.Steady`: what a merge keeps while the source is being listed.
* `Merging.Takes`: what a merge takes in with a part of the listing, also while others draw labels.
* `Graph.Reachable`: the graphs that changes and merges lead to; their nodes are registered, and
  nothing is held twice.
* `Graph.merge_embeds_fresh`: **whatever the order of the listing, a merge is an embedding under
  fresh names.**
-/

namespace TripleStore

/-! ### Labels without their number -/

/-- What is left of a label when one final low line with digits is taken away, if there is one. -/
def StripsNumber (label base : Text) : Prop :=
  (∃ digits : Text, digits ≠ [] ∧ (∀ b ∈ digits, Ascii.isDigit b = true) ∧
    label = base ++ Ascii.underscore :: digits) ∨
  (base = label ∧ ∀ front digits : Text, digits ≠ [] → (∀ b ∈ digits, Ascii.isDigit b = true) →
    label ≠ front ++ Ascii.underscore :: digits)

/-- The digits at the end of a text, and what stands before them. -/
theorem exists_digits_suffix (t : Text) : ∃ digits : Text,
    t = (t.reverse.dropWhile Ascii.isDigit).reverse ++ digits ∧
      ∀ b ∈ digits, Ascii.isDigit b = true := by
  refine ⟨(t.reverse.takeWhile Ascii.isDigit).reverse, ?_, ?_⟩
  · rw [← List.reverse_append, List.takeWhile_append_dropWhile, List.reverse_reverse]
  · intro b hb
    rw [List.mem_reverse] at hb
    exact List.mem_takeWhile_imp hb

/-- Digits behind a low line are all the digits at the end of a text. -/
theorem dropWhile_reverse_numbered {front digits : Text}
    (hdigits : ∀ b ∈ digits, Ascii.isDigit b = true) :
    (front ++ Ascii.underscore :: digits).reverse.dropWhile Ascii.isDigit
      = Ascii.underscore :: front.reverse := by
  have hrev : ∀ b ∈ digits.reverse, Ascii.isDigit b = true := by
    intro b hb
    exact hdigits b (List.mem_reverse.mp hb)
  rw [List.reverse_append, List.reverse_cons, List.append_assoc, List.dropWhile_append_of_pos hrev]
  rfl

theorem labelBase_strips (label : Text) : StripsNumber label (labelBase label) := by
  obtain ⟨digits, hsplit, hdigits⟩ := exists_digits_suffix label
  have hother : ∀ front digits' : Text, (∀ b ∈ digits', Ascii.isDigit b = true) →
      label = front ++ Ascii.underscore :: digits' →
      label.reverse.dropWhile Ascii.isDigit = Ascii.underscore :: front.reverse := by
    intro front digits' hdigits' h
    rw [h, dropWhile_reverse_numbered hdigits']
  unfold labelBase
  cases hfront : label.reverse.dropWhile Ascii.isDigit with
  | nil =>
    refine .inr ⟨rfl, fun front digits' _ hdigits' h => ?_⟩
    rw [hother front digits' hdigits' h] at hfront
    exact absurd hfront (List.cons_ne_nil _ _)
  | cons b rest =>
    simp only
    rw [hfront] at hsplit
    rw [List.reverse_cons, List.append_assoc, List.singleton_append] at hsplit
    split_ifs with hb
    · obtain ⟨rfl, hlen⟩ := hb
      refine .inl ⟨digits, ?_, hdigits, hsplit⟩
      rintro rfl
      have := congrArg List.length hsplit
      simp only [List.length_append, List.length_reverse, List.length_cons, List.length_nil] at this hlen
      omega
    · refine .inr ⟨rfl, fun front digits' hne hdigits' h => hb ?_⟩
      have heq := hother front digits' hdigits' h
      rw [hfront] at heq
      obtain ⟨rfl, rfl⟩ := List.cons.inj heq
      refine ⟨rfl, ?_⟩
      have hpos := List.length_pos_iff.mpr hne
      rw [h]
      simp only [List.length_append, List.length_reverse, List.length_cons]
      omega

/-- What is left of an identifier is one, unless nothing is left. -/
theorem isIdentifier_of_strips {label base : Text} (h : StripsNumber label base)
    (hid : isIdentifier label = true) : base = [] ∨ isIdentifier base = true := by
  rcases h with ⟨digits, -, -, rfl⟩ | ⟨rfl, -⟩
  · cases base with
    | nil => exact .inl rfl
    | cons b base =>
      right
      rw [List.cons_append, isIdentifier, Bool.and_eq_true, Bool.not_eq_true', List.any_append,
        Bool.or_eq_false_iff] at hid
      rw [isIdentifier, hid.1, hid.2.1]
      rfl
  · exact .inr hid

/-! ### The search for a fresh label -/

namespace Graph

variable {g : Graph} {base : Text} {supply : Supply} {fuel : ℕ}

theorem freshDraws_pos (g : Graph) (base : Text) (fuel : ℕ) (supply : Supply) :
    0 < g.freshDraws base fuel supply := by
  cases fuel with
  | zero => exact Nat.one_pos
  | succ fuel =>
    rw [freshDraws]
    simp only
    split_ifs <;> omega

/-- The search ends with the label of the last number drawn. -/
theorem freshLabel_eq (h : supply.labels.toNat + g.freshDraws base fuel supply < 2 ^ 64) :
    (g.freshLabel base fuel supply).1
        = numbered base (supply.labels.toNat + g.freshDraws base fuel supply) ∧
      (g.freshLabel base fuel supply).2.labels.toNat
        = supply.labels.toNat + g.freshDraws base fuel supply := by
  induction fuel generalizing supply with
  | zero =>
    rw [freshDraws] at h ⊢
    rw [freshLabel, Supply.drawLabel_eq, Supply.toNat_labels_succ h]
    exact ⟨rfl, rfl⟩
  | succ fuel ih =>
    have hpos := g.freshDraws_pos base (fuel + 1) supply
    have hsucc : (supply.labels + 1).toNat = supply.labels.toNat + 1 :=
      Supply.toNat_labels_succ (by omega)
    rw [freshDraws, Supply.drawLabel_eq] at h ⊢
    rw [freshLabel, Supply.drawLabel_eq]
    simp only at h ⊢
    split_ifs at h ⊢ with htaken
    · have hleft : (supply.labels + 1).toNat
          + g.freshDraws base fuel { supply with labels := supply.labels + 1 } < 2 ^ 64 := by omega
      have hrest := @ih { supply with labels := supply.labels + 1 } hleft
      simp only [hsucc] at hrest
      rw [Nat.add_right_comm, Nat.add_assoc] at hrest
      exact hrest
    · rw [hsucc]
      exact ⟨rfl, rfl⟩

/-- Every label that the search passes over is a node of the graph. -/
theorem mem_nodes_of_lt_freshDraws
    (h : supply.labels.toNat + g.freshDraws base fuel supply < 2 ^ 64) {i : ℕ} (hi : 0 < i)
    (hlt : i < g.freshDraws base fuel supply) :
    some (.blank (numbered base (supply.labels.toNat + i))) ∈ g.nodes := by
  induction fuel generalizing supply i with
  | zero =>
    rw [freshDraws] at hlt
    omega
  | succ fuel ih =>
    have hsucc : (supply.labels + 1).toNat = supply.labels.toNat + 1 :=
      Supply.toNat_labels_succ (by omega)
    rw [freshDraws, Supply.drawLabel_eq] at h hlt
    simp only at h hlt
    split_ifs at h hlt with htaken
    · rw [hsucc] at htaken
      by_cases hone : i = 1
      · rw [hone]
        exact hasNode_iff.mp htaken
      · have hleft : (supply.labels + 1).toNat
            + g.freshDraws base fuel { supply with labels := supply.labels + 1 } < 2 ^ 64 := by omega
        have hrest := @ih { supply with labels := supply.labels + 1 } hleft (i - 1) (by omega) (by omega)
        simp only [hsucc] at hrest
        rwa [show supply.labels.toNat + 1 + (i - 1) = supply.labels.toNat + i by omega] at hrest
    · omega

/-- The search ends at a label that is no node, or when its bound is used up. -/
theorem notMem_or_freshDraws_eq
    (h : supply.labels.toNat + g.freshDraws base fuel supply < 2 ^ 64) :
    some (.blank (g.freshLabel base fuel supply).1) ∉ g.nodes ∨
      g.freshDraws base fuel supply = fuel + 1 := by
  induction fuel generalizing supply with
  | zero => exact .inr rfl
  | succ fuel ih =>
    have hpos := g.freshDraws_pos base (fuel + 1) supply
    have hsucc : (supply.labels + 1).toNat = supply.labels.toNat + 1 :=
      Supply.toNat_labels_succ (by omega)
    rw [freshDraws, Supply.drawLabel_eq] at h ⊢
    rw [freshLabel, Supply.drawLabel_eq]
    simp only at h ⊢
    split_ifs at h ⊢ with htaken
    · have hleft : (supply.labels + 1).toNat
          + g.freshDraws base fuel { supply with labels := supply.labels + 1 } < 2 ^ 64 := by omega
      have hrest := @ih { supply with labels := supply.labels + 1 } hleft
      exact hrest.imp_right fun hdraws => by rw [hdraws]
    · exact .inl fun hmem => htaken (hasNode_iff.mpr hmem)

/-- Of labels that all differ, one more than there are nodes, one is no node. -/
theorem exists_notMem_nodes (g : Graph) (label : ℕ → Text)
    (hlabel : Set.InjOn label (Set.Iic g.nodes.length)) :
    ∃ i ≤ g.nodes.length, some (.blank (label i)) ∉ g.nodes := by
  by_contra hall
  push Not at hall
  have hnodup : ((List.range (g.nodes.length + 1)).map fun i =>
      some (Node.blank (label i))).Nodup := by
    refine (List.nodup_map_iff_inj_on List.nodup_range).mpr fun i hi j hj hij => ?_
    have hi := Nat.lt_succ_iff.mp (List.mem_range.mp hi)
    have hj := Nat.lt_succ_iff.mp (List.mem_range.mp hj)
    exact hlabel hi hj (Node.blank.inj (Option.some.inj hij))
  have hsubset : ((List.range (g.nodes.length + 1)).map fun i =>
      some (Node.blank (label i))) ⊆ g.nodes := by
    intro n hn
    obtain ⟨i, hi, rfl⟩ := List.mem_map.mp hn
    exact hall i (Nat.lt_succ_iff.mp (List.mem_range.mp hi))
  have hle := (List.subperm_of_subset hnodup hsubset).length_le
  rw [List.length_map, List.length_range] at hle
  omega

/-- **With more tries than the graph has nodes, the search ends at a label that is none of them.** -/
theorem freshLabel_notMem (h : supply.labels.toNat + g.freshDraws base fuel supply < 2 ^ 64)
    (hfuel : g.nodes.length < fuel) : some (.blank (g.freshLabel base fuel supply).1) ∉ g.nodes := by
  rcases notMem_or_freshDraws_eq h with hfree | hdraws
  · exact hfree
  · -- otherwise all labels that were tried are nodes
    obtain ⟨i, hi, hfree⟩ := g.exists_notMem_nodes
      (fun i => numbered base (supply.labels.toNat + (i + 1))) fun i _ j _ hij => by
        have hnumber := (numbered_inj.mp hij).2
        omega
    exact absurd (mem_nodes_of_lt_freshDraws h (by omega) (by omega)) hfree

end Graph

/-! ### Fresh names -/

/-- New labels whose numbers lie behind `low` and not behind `high`, all different and none of them
a node of the graph. -/
structure Renaming.Fresh (g : Graph) (r : Renaming) (low high : ℕ) : Prop where
  numbers : ∀ p ∈ r, ∃ n, low < n ∧ n ≤ high ∧ p.2 = numbered (labelBase p.1) n
  free : ∀ p ∈ r, some (.blank p.2) ∉ g.nodes
  apart : (r.map Prod.snd).Nodup

namespace Renaming.Fresh

variable {g : Graph} {r r' : Renaming} {low mid high : ℕ}

theorem nil (g : Graph) (low high : ℕ) : Fresh g [] low high :=
  ⟨fun _ h => absurd h List.not_mem_nil, fun _ h => absurd h List.not_mem_nil, List.nodup_nil⟩

theorem single (g : Graph) {l new : Text} {n : ℕ} (hlow : low < n)
    (hnew : new = numbered (labelBase l) n) (hfree : some (.blank new) ∉ g.nodes) :
    Fresh g [(l, new)] low n := by
  refine ⟨?_, ?_, List.nodup_singleton _⟩
  · intro p hp
    rw [List.mem_singleton.mp hp]
    exact ⟨n, hlow, le_rfl, hnew⟩
  · intro p hp
    rw [List.mem_singleton.mp hp]
    exact hfree

/-- Names from two stretches of numbers, whichever of them stands in front. -/
theorem append (h : Fresh g r low mid) (h' : Fresh g r' mid high) (hlow : low ≤ mid)
    (hhigh : mid ≤ high) : Fresh g (r ++ r') low high ∧ Fresh g (r' ++ r) low high := by
  have hnumbers : ∀ p, p ∈ r ∨ p ∈ r' →
      ∃ n, low < n ∧ n ≤ high ∧ p.2 = numbered (labelBase p.1) n := by
    intro p hp
    rcases hp with hp | hp
    · obtain ⟨n, hn, hn', heq⟩ := h.numbers p hp
      exact ⟨n, hn, by omega, heq⟩
    · obtain ⟨n, hn, hn', heq⟩ := h'.numbers p hp
      exact ⟨n, by omega, hn', heq⟩
  have hfree : ∀ p, p ∈ r ∨ p ∈ r' → some (.blank p.2) ∉ g.nodes :=
    fun p hp => hp.elim (h.free p) (h'.free p)
  have hapart : ∀ a ∈ r.map Prod.snd, ∀ b ∈ r'.map Prod.snd, a ≠ b := by
    intro a ha b hb hab
    obtain ⟨p, hp, rfl⟩ := List.mem_map.mp ha
    obtain ⟨q, hq, rfl⟩ := List.mem_map.mp hb
    obtain ⟨n, -, hn, hpn⟩ := h.numbers p hp
    obtain ⟨n', hn', -, hqn⟩ := h'.numbers q hq
    rw [hpn, hqn] at hab
    have := (numbered_inj.mp hab).2
    omega
  constructor
  · refine ⟨fun p hp => hnumbers p (List.mem_append.mp hp),
      fun p hp => hfree p (List.mem_append.mp hp), ?_⟩
    rw [List.map_append]
    exact List.nodup_append.mpr ⟨h.apart, h'.apart, hapart⟩
  · refine ⟨fun p hp => hnumbers p (List.mem_append.mp hp).symm,
      fun p hp => hfree p (List.mem_append.mp hp).symm, ?_⟩
    rw [List.map_append]
    exact List.nodup_append.mpr ⟨h'.apart, h.apart, fun a ha b hb => (hapart b hb a ha).symm⟩

/-- Names that are no nodes of a graph are no nodes of one that has fewer. -/
theorem anti {g' : Graph} (h : Fresh g r low high) (hsub : ∀ n ∈ g'.nodes, n ∈ g.nodes) :
    Fresh g' r low high :=
  ⟨h.numbers, fun p hp hmem => h.free p hp (hsub _ hmem), h.apart⟩

theorem injOn (h : Fresh g r low high) : Set.InjOn r.label {l | (r.lookup l).isSome} := by
  intro l hl l' hl' heq
  obtain ⟨new, hnew⟩ := Option.isSome_iff_exists.mp hl
  obtain ⟨new', hnew'⟩ := Option.isSome_iff_exists.mp hl'
  rw [label, label, hnew, hnew', Option.getD_some, Option.getD_some] at heq
  have hpair := List.inj_on_of_nodup_map h.apart (Named.mem_of_lookup hnew)
    (Named.mem_of_lookup hnew') heq
  exact congrArg Prod.fst hpair

end Renaming.Fresh

/-! ### Names in a given order -/

namespace Graph

/-- One name, as it is drawn against a graph. -/
theorem fresh_single {g : Graph} {supply : Supply} (l : Text)
    (h : supply.labels.toNat
      + g.freshDraws (labelBase l) (g.nodes.length + 1) supply < 2 ^ 64) :
    Renaming.Fresh g [(l, (g.freshLabel (labelBase l) (g.nodes.length + 1) supply).1)]
      supply.labels.toNat
      (supply.labels.toNat + g.freshDraws (labelBase l) (g.nodes.length + 1) supply) := by
  have hpos := g.freshDraws_pos (labelBase l) (g.nodes.length + 1) supply
  exact .single g (by omega) (freshLabel_eq h).1 (freshLabel_notMem h (Nat.lt_succ_self _))

theorem drawRenaming_fresh (g : Graph) (order : List Text) {supply : Supply}
    (h : supply.labels.toNat + g.renamingDraws order supply < 2 ^ 64) :
    (g.drawRenaming order supply).1.Fresh g supply.labels.toNat
        (supply.labels.toNat + g.renamingDraws order supply) ∧
      ∀ l ∈ order, ((g.drawRenaming order supply).1.lookup l).isSome := by
  induction order generalizing supply with
  | nil => exact ⟨.nil g _ _, fun _ hl => absurd hl List.not_mem_nil⟩
  | cons l rest ih =>
    rw [renamingDraws] at h ⊢
    have hfirst : supply.labels.toNat
        + g.freshDraws (labelBase l) (g.nodes.length + 1) supply < 2 ^ 64 := by omega
    have hcounter := (freshLabel_eq hfirst).2
    have hleft : (g.freshLabel (labelBase l) (g.nodes.length + 1) supply).2.labels.toNat
        + g.renamingDraws rest (g.freshLabel (labelBase l) (g.nodes.length + 1) supply).2
          < 2 ^ 64 := by omega
    obtain ⟨hlater, hmet⟩ := ih hleft
    rw [hcounter] at hlater
    constructor
    · rw [← Nat.add_assoc]
      exact ((fresh_single l hfirst).append hlater (by omega) (by omega)).1
    · intro l' hl'
      rw [drawRenaming, List.lookup_cons]
      cases hbeq : l' == l with
      | true => rfl
      | false => exact hmet l' ((List.mem_cons.mp hl').resolve_left (by simpa using hbeq))

end Graph

/-! ### Names as the source is listed -/

namespace Merging

variable {m m' : Merging}

/-- A merge that went on: names that were given stay. -/
def Keeps (m m' : Merging) : Prop :=
  ∀ l new, m.names.lookup l = some new → m'.names.lookup l = some new

theorem Keeps.refl (m : Merging) : m.Keeps m := fun _ _ h => h

theorem Keeps.trans {m'' : Merging} (h : m.Keeps m') (h' : m'.Keeps m'') : m.Keeps m'' :=
  fun l new hl => h' l new (h l new hl)

theorem keeps_meet (m : Merging) (l : Text) : m.Keeps (m.meet l) := by
  unfold meet
  cases hl : m.names.lookup l with
  | some new => exact .refl m
  | none =>
    intro l' new hl'
    have hne : (l' == l) = false := by
      rw [beq_eq_false_iff_ne]
      rintro rfl
      rw [hl] at hl'
      cases hl'
    show List.lookup l' (_ :: m.names) = some new
    rw [List.lookup_cons, hne]
    exact hl'

theorem keeps_meetTerm (m : Merging) (t : Option Term) : m.Keeps (m.meetTerm t) := by
  unfold meetTerm
  cases t.bind Term.label? with
  | some l => exact m.keeps_meet l
  | none => exact .refl m

/-- What a merge into `g` keeps while the counter, which stood at `low`, does not start over. -/
structure Steady (g : Graph) (low : ℕ) (m : Merging) : Prop where
  held : ∀ n ∈ g.nodes, n ∈ m.target.nodes
  counter : m.supply.labels.toNat = low + m.draws
  fresh : m.names.Fresh g low (low + m.draws)

/-- More labels were drawn, and nothing else has happened to the counter. -/
structure GoesOn (m m' : Merging) : Prop where
  draws : m.draws ≤ m'.draws
  steady : ∀ g low, low + m'.draws < 2 ^ 64 → m.Steady g low → m'.Steady g low

namespace GoesOn

theorem refl (m : Merging) : m.GoesOn m := ⟨le_rfl, fun _ _ _ h => h⟩

theorem trans {m'' : Merging} (h : m.GoesOn m') (h' : m'.GoesOn m'') : m.GoesOn m'' := by
  have hdraws := h'.draws
  exact ⟨h.draws.trans hdraws,
    fun g low hlow hm => h'.steady g low hlow (h.steady g low (by omega) hm)⟩

/-- The target grows and nothing is drawn. -/
theorem target {g : Graph} (hsub : ∀ n ∈ m.target.nodes, n ∈ g.nodes) :
    m.GoesOn { m with target := g } :=
  ⟨le_rfl, fun _ _ _ h => ⟨fun n hn => hsub n (h.held n hn), h.counter, h.fresh⟩⟩

theorem meet (m : Merging) (l : Text) : m.GoesOn (m.meet l) := by
  unfold Merging.meet
  cases hl : m.names.lookup l with
  | some new => exact refl m
  | none =>
    refine ⟨Nat.le_add_right _ _, ?_⟩
    intro g low hlow hm
    simp only [← Nat.add_assoc] at hlow
    rw [← hm.counter] at hlow
    -- a label that is no node of the target is no node of the graph it started from
    have hsingle := (Graph.fresh_single (g := m.target) l hlow).anti hm.held
    refine ⟨hm.held, ?_, ?_⟩
    · show (Graph.freshLabel _ _ _ _).2.labels.toNat = _
      rw [(Graph.freshLabel_eq hlow).2, hm.counter, Nat.add_assoc]
    · rw [hm.counter] at hsingle
      rw [← Nat.add_assoc]
      exact (hm.fresh.append hsingle (by omega) (by omega)).2

theorem meetTerm (m : Merging) (t : Option Term) : m.GoesOn (m.meetTerm t) := by
  unfold Merging.meetTerm
  cases t.bind Term.label? with
  | some l => exact meet m l
  | none => exact refl m

theorem addPair (subject : Option Node) (m : Merging) (p : Pair) :
    m.GoesOn (Merging.addPair subject m p) :=
  (meetTerm m p.object).trans (target fun _ hn => Graph.mem_nodes_add.mpr (.inl hn))

theorem addPairs (subject : Option Node) (m : Merging) (ps : List Pair) :
    m.GoesOn (ps.foldl (Merging.addPair subject) m) := by
  induction ps generalizing m with
  | nil => exact refl m
  | cons p ps ih => exact (addPair subject m p).trans (ih _)

theorem addSubjects (m : Merging) (listing : List (Option Node × List Pair)) :
    m.GoesOn (listing.foldl addSubject m) := by
  induction listing generalizing m with
  | nil => exact refl m
  | cons e listing ih =>
    have hsubject := (meetTerm m (e.1.map Node.toTerm)).trans (target (g := (m.meetTerm
      (e.1.map Node.toTerm)).target.addNode (e.1.map (m.meetTerm (e.1.map Node.toTerm)).names.node))
      fun _ hn => Graph.mem_nodes_addNode.mpr (.inl hn))
    exact (hsubject.trans (addPairs _ _ e.2)).trans (ih _)

end GoesOn

/-! ### What was taken in -/

/-- Whether a node of the source, if it is blank, has its new name. -/
def Knows (m : Merging) (k : Option Node) : Prop :=
  ∀ l, k = some (.blank l) → (m.names.lookup l).isSome

theorem Keeps.knows (h : m.Keeps m') {k : Option Node} (hk : m.Knows k) : m'.Knows k := by
  intro l hl
  obtain ⟨new, hnew⟩ := Option.isSome_iff_exists.mp (hk l hl)
  rw [h l new hnew]
  rfl

theorem Keeps.label_eq (h : m.Keeps m') {l : Text} (hl : (m.names.lookup l).isSome) :
    m'.names.label l = m.names.label l := by
  obtain ⟨new, hnew⟩ := Option.isSome_iff_exists.mp hl
  rw [Renaming.label, Renaming.label, hnew, h l new hnew]

/-- A name that was given stays. -/
theorem Keeps.node_eq (h : m.Keeps m') {k : Option Node} (hk : m.Knows k) :
    k.map m'.names.node = k.map m.names.node := by
  cases k with
  | none => rfl
  | some k =>
    cases k with
    | iri i => rfl
    | blank l =>
      show some (Node.blank (m'.names.label l)) = some (Node.blank (m.names.label l))
      rw [h.label_eq (hk l rfl)]

/-- The term of an object under names that know it. -/
theorem Keeps.term_eq (h : m.Keeps m') {t : Option Term}
    (ht : ∀ k, t.bind Term.toNode? = some k → m.Knows (some k)) :
    t.map m'.names.term = t.map m.names.term := by
  cases t with
  | none => rfl
  | some t =>
    cases t with
    | blank l =>
      show some (Term.blank (m'.names.label l)) = some (Term.blank (m.names.label l))
      rw [h.label_eq (ht (.blank l) rfl l rfl)]
    | iri i => rfl
    | lang v tag => rfl
    | typed v d => rfl

end Merging

/-- The nodes that adding a triple registers. -/
def Triple.nodes (t : Triple) : List (Option Node) :=
  t.subject :: (t.object.bind Term.toNode?).toList.map some

theorem Triple.subject_mem_nodes (t : Triple) : t.subject ∈ t.nodes := List.mem_cons_self

theorem Triple.object_mem_nodes {t : Triple} {k : Node} (h : t.object.bind Term.toNode? = some k) :
    some k ∈ t.nodes := by
  simp [Triple.nodes, h]

/-- The node of an object under new names. -/
theorem Renaming.toNode?_term (r : Renaming) (t : Option Term) :
    (t.map r.term).bind Term.toNode? = (t.bind Term.toNode?).map r.node := by
  cases t with
  | none => rfl
  | some t => cases t <;> rfl

/-- The nodes of a triple under new names. -/
theorem Renaming.nodes_triple (r : Renaming) (t : Triple) :
    (r.triple t).nodes = t.nodes.map (Option.map r.node) := by
  rw [Triple.nodes, Renaming.triple, Renaming.toNode?_term, Triple.nodes]
  cases t.object.bind Term.toNode? <;> rfl

namespace Graph

variable {g : Graph} {t u : Triple} {r : Renaming} {n : Option Node}

theorem length_nodes_addNode_le (g : Graph) (n : Option Node) :
    g.nodes.length ≤ (g.addNode n).nodes.length := by
  show _ ≤ (insertNew n g.nodes).length
  rw [insertNew]
  split_ifs
  · rfl
  · simp

theorem length_nodes_add_le (g : Graph) (t : Triple) :
    g.nodes.length ≤ (g.add t).nodes.length := by
  refine (g.length_nodes_addNode_le t.subject).trans ?_
  show _ ≤ ((g.addNode t.subject).addObject t.object).nodes.length
  unfold addObject
  cases t.object.bind Term.toNode? with
  | none => rfl
  | some n => exact length_nodes_addNode_le _ _

theorem length_nodes_addAll_le (g : Graph) (ts : List Triple) :
    g.nodes.length ≤ (g.addAll ts).nodes.length := by
  induction ts generalizing g with
  | nil => rfl
  | cons t ts ih => exact (g.length_nodes_add_le t).trans (ih (g.add t))

theorem mem_nodes_add_iff : n ∈ (g.add t).nodes ↔ n ∈ g.nodes ∨ n ∈ t.nodes := by
  rw [mem_nodes_add, Triple.nodes, List.mem_cons, List.mem_map]
  simp only [Option.mem_toList, eq_comm]

/-- The nodes after triples were added one after the other. -/
theorem mem_nodes_addAll {ts : List Triple} :
    n ∈ (g.addAll ts).nodes ↔ n ∈ g.nodes ∨ ∃ t ∈ ts, n ∈ t.nodes := by
  induction ts generalizing g with
  | nil => simp [addAll]
  | cons t ts ih =>
    have h : g.addAll (t :: ts) = (g.add t).addAll ts := rfl
    rw [h, ih, mem_nodes_add_iff, or_assoc]
    simp

theorem mem_nodes_add_triple :
    n ∈ (g.add (r.triple u)).nodes ↔ n ∈ g.nodes ∨ ∃ k ∈ u.nodes, n = k.map r.node := by
  rw [mem_nodes_add_iff, r.nodes_triple, List.mem_map]
  simp only [eq_comm]

end Graph

namespace Merging

variable {m m' : Merging}

/-- A merge that went on by taking in nodes and triples of the source. -/
structure Takes (m m' : Merging) (nodes : List (Option Node)) (triples : List Triple) : Prop where
  keeps : m.Keeps m'
  grows : m.target.nodes.length ≤ m'.target.nodes.length
  known : ∀ k ∈ nodes, m'.Knows k
  covered : ∀ u ∈ triples, ∀ k ∈ u.nodes, k ∈ nodes
  nodes : ∀ n, n ∈ m'.target.nodes ↔ n ∈ m.target.nodes ∨ ∃ k ∈ nodes, n = k.map m'.names.node
  triples : ∀ t, t ∈ m'.target.triples ↔
    t ∈ m.target.triples ∨ ∃ u ∈ triples, t = m'.names.triple u

namespace Takes

theorem refl (m : Merging) : m.Takes m [] [] := by
  refine ⟨.refl m, le_rfl, ?_, ?_, ?_, ?_⟩
  all_goals simp

theorem trans {m'' : Merging} {ns ns' : List (Option Node)} {ts ts' : List Triple}
    (h : m.Takes m' ns ts) (h' : m'.Takes m'' ns' ts') :
    m.Takes m'' (ns ++ ns') (ts ++ ts') := by
  have htriple : ∀ u ∈ ts, m''.names.triple u = m'.names.triple u := by
    intro u hu
    have hsubject := h.known _ (h.covered u hu _ u.subject_mem_nodes)
    have hobject : ∀ k, u.object.bind Term.toNode? = some k → m'.Knows (some k) :=
      fun k hk => h.known _ (h.covered u hu _ (Triple.object_mem_nodes hk))
    rw [Renaming.triple, Renaming.triple, h'.keeps.node_eq hsubject, h'.keeps.term_eq hobject]
  refine ⟨h.keeps.trans h'.keeps, h.grows.trans h'.grows, ?_, ?_, ?_, ?_⟩
  · intro k hk
    rcases List.mem_append.mp hk with hk | hk
    · exact h'.keeps.knows (h.known k hk)
    · exact h'.known k hk
  · intro u hu k hk
    rw [List.mem_append]
    rcases List.mem_append.mp hu with hu | hu
    · exact .inl (h.covered u hu k hk)
    · exact .inr (h'.covered u hu k hk)
  · intro n
    rw [h'.nodes, h.nodes, or_assoc]
    refine or_congr_right ?_
    constructor
    · intro hn
      rcases hn with ⟨k, hk, rfl⟩ | ⟨k, hk, rfl⟩
      · exact ⟨k, List.mem_append_left _ hk, (h'.keeps.node_eq (h.known k hk)).symm⟩
      · exact ⟨k, List.mem_append_right _ hk, rfl⟩
    · intro hn
      obtain ⟨k, hk, rfl⟩ := hn
      rcases List.mem_append.mp hk with hk | hk
      · exact .inl ⟨k, hk, h'.keeps.node_eq (h.known k hk)⟩
      · exact .inr ⟨k, hk, rfl⟩
  · intro t
    rw [h'.triples, h.triples, or_assoc]
    refine or_congr_right ?_
    constructor
    · intro ht
      rcases ht with ⟨u, hu, rfl⟩ | ⟨u, hu, rfl⟩
      · exact ⟨u, List.mem_append_left _ hu, (htriple u hu).symm⟩
      · exact ⟨u, List.mem_append_right _ hu, rfl⟩
    · intro ht
      obtain ⟨u, hu, rfl⟩ := ht
      rcases List.mem_append.mp hu with hu | hu
      · exact .inl ⟨u, hu, htriple u hu⟩
      · exact .inr ⟨u, hu, rfl⟩

end Takes

theorem meet_knows (m : Merging) (l : Text) : ((m.meet l).names.lookup l).isSome := by
  unfold meet
  cases hl : m.names.lookup l with
  | some new =>
    simp only
    rw [hl]
    rfl
  | none =>
    show (List.lookup l (_ :: m.names)).isSome
    rw [List.lookup_cons_self]
    rfl

theorem meetTerm_knows (m : Merging) {t : Option Term} {k : Node}
    (hk : t.bind Term.toNode? = some k) : (m.meetTerm t).Knows (some k) := by
  intro l hl
  cases hl
  obtain ⟨u, rfl, hu⟩ := Option.bind_eq_some_iff.mp hk
  rw [Term.toNode?_eq_some] at hu
  subst hu
  exact m.meet_knows l

theorem target_meetTerm (m : Merging) (t : Option Term) : (m.meetTerm t).target = m.target := by
  unfold meetTerm
  cases t.bind Term.label? with
  | none => rfl
  | some l =>
    show (m.meet l).target = m.target
    unfold meet
    cases m.names.lookup l <;> rfl

/-- A pair is added once its object has a name, under which it is added as well. -/
theorem addPair_eq {k : Option Node} (hk : m.Knows k) (p : Pair) :
    addPair (k.map m.names.node) m p = { m.meetTerm p.object with
      target := m.target.add ((m.meetTerm p.object).names.triple ⟨k, p.predicate, p.object⟩) } := by
  rw [addPair, Renaming.triple, (m.keeps_meetTerm p.object).node_eq hk, target_meetTerm]

/-- One pair more, for a subject that has its name. -/
theorem addPair_takes {k : Option Node} (hk : m.Knows k) (p : Pair) :
    m.Takes (addPair (k.map m.names.node) m p) (Triple.nodes ⟨k, p.predicate, p.object⟩)
      [⟨k, p.predicate, p.object⟩] := by
  have hmeet := m.keeps_meetTerm p.object
  rw [addPair_eq hk p]
  refine ⟨hmeet, Graph.length_nodes_add_le .., ?_, ?_, ?_, ?_⟩
  · intro k' hk'
    rcases List.mem_cons.mp hk' with rfl | hk'
    · exact hmeet.knows hk
    · simp only [List.mem_map, Option.mem_toList] at hk'
      obtain ⟨n, hn, rfl⟩ := hk'
      exact meetTerm_knows m hn
  · intro u hu k' hk'
    rwa [List.mem_singleton.mp hu] at hk'
  · intro n
    exact Graph.mem_nodes_add_triple
  · intro t
    simp

/-- A merge with one subject more, before its pairs. -/
def register (m : Merging) (k : Option Node) : Merging :=
  { m.meetTerm (k.map Node.toTerm) with
    target := (m.meetTerm (k.map Node.toTerm)).target.addNode
      (k.map (m.meetTerm (k.map Node.toTerm)).names.node) }

theorem register_takes (m : Merging) (k : Option Node) : m.Takes (m.register k) [k] [] := by
  have hk : (m.meetTerm (k.map Node.toTerm)).Knows k := by
    cases k with
    | none => exact fun _ h => absurd h (by simp)
    | some k => exact meetTerm_knows m (Term.toNode?_toTerm k)
  refine ⟨m.keeps_meetTerm (k.map Node.toTerm), ?_, ?_, ?_, ?_, ?_⟩
  · rw [← m.target_meetTerm (k.map Node.toTerm)]
    exact Graph.length_nodes_addNode_le ..
  · intro k' hk'
    rw [List.mem_singleton.mp hk']
    exact hk
  · simp
  · intro n
    simp [register, target_meetTerm]
  · simp [register, target_meetTerm]

/-! ### Merges while others draw labels -/

/-- Something that is listed, and the supply as it stands when it is taken: others may have drawn
labels since the last one.  If they draw while a name is looked for, it is the supply before the last
try that counts. -/
abbrev Paced (α : Type) := Supply × α

/-- A listing with the supplies. -/
abbrev PacedListing := List (Paced (Option Node) × List (Paced Pair))

/-- A listing without the supplies. -/
def unpaced (e : Paced (Option Node) × List (Paced Pair)) : Option Node × List Pair :=
  (e.1.2, e.2.map Prod.snd)

/-- A merge under way, when others have drawn labels. -/
def amid (m : Merging) (supply : Supply) : Merging := { m with supply }

/-- Adds a pair of a subject that has its new name already. -/
def addPairAmid (subject : Option Node) (m : Merging) (p : Paced Pair) : Merging :=
  addPair subject (m.amid p.1) p.2

/-- Adds a subject with its pairs. -/
def addSubjectAmid (m : Merging) (e : Paced (Option Node) × List (Paced Pair)) : Merging :=
  let m := (m.amid e.1.1).register e.1.2
  e.2.foldl (addPairAmid (e.1.2.map m.names.node)) m

theorem exists_pacedPairs (subject : Option Node) (m : Merging) (ps : List Pair) :
    ∃ paced : List (Paced Pair), paced.map Prod.snd = ps ∧
      paced.foldl (addPairAmid subject) m = ps.foldl (addPair subject) m := by
  induction ps generalizing m with
  | nil => exact ⟨[], rfl, rfl⟩
  | cons p ps ih =>
    obtain ⟨paced, rfl, hpaced⟩ := ih (addPair subject m p)
    exact ⟨(m.supply, p) :: paced, rfl, hpaced⟩

/-- Where nobody else draws, the supply is what the merge itself has left of it. -/
theorem exists_paced (m : Merging) (listing : List (Option Node × List Pair)) :
    ∃ paced : PacedListing, paced.map unpaced = listing ∧
      paced.foldl addSubjectAmid m = listing.foldl addSubject m := by
  induction listing generalizing m with
  | nil => exact ⟨[], rfl, rfl⟩
  | cons e listing ih =>
    obtain ⟨k, ps⟩ := e
    obtain ⟨paced, rfl, hpaced⟩ := ih (m.addSubject (k, ps))
    obtain ⟨pairs, rfl, hpairs⟩ := exists_pacedPairs (k.map (m.register k).names.node) (m.register k) ps
    refine ⟨((m.supply, k), pairs) :: paced, rfl, ?_⟩
    rw [List.foldl_cons, List.foldl_cons, ← hpaced]
    exact congrArg (List.foldl addSubjectAmid · paced) hpairs

/-- Draws by others change nothing that was taken in. -/
theorem Takes.of_amid {s : Supply} {ns : List (Option Node)} {us : List Triple}
    (h : (m.amid s).Takes m' ns us) : m.Takes m' ns us :=
  ⟨h.keeps, h.grows, h.known, h.covered, h.nodes, h.triples⟩

theorem addPairsAmid_takes {k : Option Node} (hk : m.Knows k) (ps : List (Paced Pair)) :
    m.Takes (ps.foldl (addPairAmid (k.map m.names.node)) m)
      ((ps.map Prod.snd).flatMap fun p => Triple.nodes ⟨k, p.predicate, p.object⟩)
      ((ps.map Prod.snd).map fun p => ⟨k, p.predicate, p.object⟩) := by
  induction ps generalizing m with
  | nil => exact .refl m
  | cons p ps ih =>
    have hfirst : m.Takes (addPairAmid (k.map m.names.node) m p) _ _ :=
      .of_amid (addPair_takes (m := m.amid p.1) hk p.2)
    have hrest := ih (hfirst.keeps.knows hk)
    rw [hfirst.keeps.node_eq hk] at hrest
    exact hfirst.trans hrest

/-- One subject more, with its pairs. -/
theorem addSubjectAmid_takes (m : Merging) (e : Paced (Option Node) × List (Paced Pair)) :
    m.Takes (m.addSubjectAmid e)
      ((unpaced e).1 ::
        (unpaced e).2.flatMap fun p => Triple.nodes ⟨(unpaced e).1, p.predicate, p.object⟩)
      ((unpaced e).2.map fun p => ⟨(unpaced e).1, p.predicate, p.object⟩) := by
  have hnode := ((m.amid e.1.1).register_takes e.1.2).of_amid
  exact hnode.trans (addPairsAmid_takes (hnode.known _ List.mem_cons_self) e.2)

theorem addSubjectsAmid_takes (m : Merging) (paced : PacedListing) :
    m.Takes (paced.foldl addSubjectAmid m)
      ((paced.map unpaced).flatMap fun e =>
        e.1 :: e.2.flatMap fun p => Triple.nodes ⟨e.1, p.predicate, p.object⟩)
      ((paced.map unpaced).flatMap fun e => e.2.map fun p => ⟨e.1, p.predicate, p.object⟩) := by
  induction paced generalizing m with
  | nil => exact .refl m
  | cons e paced ih => exact (m.addSubjectAmid_takes e).trans (ih (m.addSubjectAmid e))

theorem addSubjects_takes (m : Merging) (listing : List (Option Node × List Pair)) :
    m.Takes (listing.foldl addSubject m)
      (listing.flatMap fun e =>
        e.1 :: e.2.flatMap fun p => Triple.nodes ⟨e.1, p.predicate, p.object⟩)
      (listing.flatMap fun e => e.2.map fun p => ⟨e.1, p.predicate, p.object⟩) := by
  obtain ⟨paced, rfl, hpaced⟩ := m.exists_paced listing
  rw [← hpaced]
  exact m.addSubjectsAmid_takes paced

end Merging

/-! ### Merges -/

namespace Graph

variable {g source merged : Graph} {supply : Supply} {r : Renaming}

/-- Whether a label is that of a blank node in some position of a graph. -/
def Mentions (g : Graph) (l : Text) : Prop :=
  some (.blank l) ∈ g.nodes ∨
    ∃ t ∈ g.triples, t.subject = some (.blank l) ∨ t.object = some (.blank l)

/-- Where the nodes of all triples are registered, to look at the registered nodes is enough. -/
theorem Registered.mentions_iff (h : g.Registered) {l : Text} :
    g.Mentions l ↔ some (.blank l) ∈ g.nodes := by
  refine ⟨fun hl => ?_, .inl⟩
  rcases hl with hl | ⟨t, ht, hs | ho⟩
  · exact hl
  · rw [← hs]
    exact h.subject ht
  · exact h.object ht (k := .blank l) (by rw [ho]; rfl)

theorem Registered.nodes_subset (h : g.Registered) {t : Triple} (ht : t ∈ g.triples) :
    ∀ k ∈ t.nodes, k ∈ g.nodes := by
  intro k hk
  rcases List.mem_cons.mp hk with rfl | hk
  · exact h.subject ht
  · simp only [List.mem_map, Option.mem_toList] at hk
    obtain ⟨n, hn, rfl⟩ := hk
    exact h.object ht hn

/-- The blank nodes of a graph have their place in the order of its labels. -/
theorem mem_labelOrder {l : Text} (h : some (.blank l) ∈ g.nodes) : l ∈ g.labelOrder := by
  rw [labelOrder, Text.sort, List.mem_mergeSort, blankLabels, mem_foldl_insertNew]
  exact .inr (List.mem_append_left _ (List.mem_filterMap.mpr ⟨_, h, rfl⟩))

/-- A listing of a graph: its nodes in some order, each with its pairs in some order. -/
structure Lists (source : Graph) (listing : List (Option Node × List Pair)) : Prop where
  nodes : (listing.map Prod.fst).Perm source.nodes
  pairs : ∀ e ∈ listing, e.2.Perm ((source.triples.filter (·.subject = e.1)).map Triple.pair)

/-- What the addition of nodes and of triples keeps, a merge keeps at every point of the listing. -/
theorem addSubjectsAmid_keeps {holds : Graph → Prop} (hnode : ∀ g n, holds g → holds (g.addNode n))
    (hadd : ∀ g t, holds g → holds (g.add t)) {m : Merging} (h : holds m.target)
    (paced : Merging.PacedListing) : holds (paced.foldl Merging.addSubjectAmid m).target := by
  have hpairs : ∀ (subject : Option Node) (ps : List (Merging.Paced Pair)) {m : Merging},
      holds m.target → holds (ps.foldl (Merging.addPairAmid subject) m).target := by
    intro subject ps
    induction ps with
    | nil => exact fun h => h
    | cons p ps ih =>
      intro m h
      have hmeet := (m.amid p.1).target_meetTerm p.2.object
      refine ih (hadd _ _ ?_)
      rw [hmeet]
      exact h
  induction paced generalizing m with
  | nil => exact h
  | cons e paced ih =>
    have hmeet := (m.amid e.1.1).target_meetTerm (e.1.2.map Node.toTerm)
    refine ih (hpairs _ e.2 (hnode _ _ ?_))
    rw [hmeet]
    exact h

theorem mergeAlong_keeps {holds : Graph → Prop} (hnode : ∀ g n, holds g → holds (g.addNode n))
    (hadd : ∀ g t, holds g → holds (g.add t)) {m : Merging} (h : holds m.target)
    (listing : List (Option Node × List Pair)) :
    holds (listing.foldl Merging.addSubject m).target := by
  obtain ⟨paced, -, hpaced⟩ := m.exists_paced listing
  rw [← hpaced]
  exact addSubjectsAmid_keeps hnode hadd h paced

/-- What a merge leaves is registered at every point of the listing. -/
theorem Registered.addSubjectsAmid {m : Merging} (h : m.target.Registered)
    (paced : Merging.PacedListing) :
    (paced.foldl Merging.addSubjectAmid m).target.Registered :=
  addSubjectsAmid_keeps (fun _ n hg => hg.addNode n) (fun _ t hg => hg.add t) h paced

theorem Registered.addSubjects {m : Merging} (h : m.target.Registered)
    (listing : List (Option Node × List Pair)) :
    (listing.foldl Merging.addSubject m).target.Registered :=
  mergeAlong_keeps (fun _ n hg => hg.addNode n) (fun _ t hg => hg.add t) h listing

/-- The graphs that come about: by changes from an empty one, and by merges along any listing. -/
inductive Reachable : Graph → Prop
  | empty (reports : Bool) : Reachable { reports }
  | change {g : Graph} (hg : Reachable g) (c : Change) : Reachable (c.apply g)
  | merge {g source : Graph} (hg : Reachable g) (hs : Reachable source)
      {listing : List (Option Node × List Pair)} (hl : source.Lists listing) (supply : Supply) :
      Reachable (g.mergeAlong listing supply).target

theorem Reachable.registered (h : g.Reachable) : g.Registered := by
  induction h with
  | empty reports => exact Registered.empty reports
  | change _ c ih => exact ih.apply c
  | @merge g source _ _ listing _ supply ihg _ =>
    exact Registered.addSubjects (m := { target := g, supply }) ihg listing

theorem Reachable.distinct (h : g.Reachable) : g.Distinct := by
  induction h with
  | empty reports => exact Distinct.empty reports
  | change _ c ih => exact ih.apply c
  | @merge g source _ _ listing _ supply ihg _ =>
    exact mergeAlong_keeps (m := { target := g, supply }) (fun _ n hg => hg.addNode n)
      (fun _ t hg => hg.add t) ihg listing

/-- The merged graph is the target beside the source under the names `r`: different names for
different blank nodes, none of which the target mentions, each made of the old label without its
number and a number that the counter had not come to yet. -/
structure EmbedsFresh (g source : Graph) (supply : Supply) (merged : Graph) (r : Renaming) :
    Prop where
  injective : Set.InjOn r.label {l | source.Mentions l}
  fresh : ∀ l, source.Mentions l → ¬ g.Mentions (r.label l)
  nodes : ∀ n, n ∈ merged.nodes ↔ n ∈ g.nodes ∨ ∃ k ∈ source.nodes, n = k.map r.node
  triples : ∀ t, t ∈ merged.triples ↔ t ∈ g.triples ∨ ∃ u ∈ source.triples, t = r.triple u
  shape : ∀ l, source.Mentions l → ∃ base n, StripsNumber l base ∧ supply.labels.toNat < n ∧
    r.label l = numbered base n
  valid : ∀ l, source.Mentions l → isIdentifier l = true → isIdentifier (r.label l) = true

/-- Fresh names for all blank nodes of the source are what an embedding needs. -/
theorem EmbedsFresh.of_fresh (hg : g.Registered) {high : ℕ}
    (hr : r.Fresh g supply.labels.toNat high)
    (hknown : ∀ l, source.Mentions l → (r.lookup l).isSome)
    (hnodes : ∀ n, n ∈ merged.nodes ↔ n ∈ g.nodes ∨ ∃ k ∈ source.nodes, n = k.map r.node)
    (htriples : ∀ t, t ∈ merged.triples ↔ t ∈ g.triples ∨ ∃ u ∈ source.triples, t = r.triple u) :
    g.EmbedsFresh source supply merged r := by
  have hentry : ∀ l, source.Mentions l → (l, r.label l) ∈ r := by
    intro l hl
    obtain ⟨new, hnew⟩ := Option.isSome_iff_exists.mp (hknown l hl)
    rw [Renaming.label, hnew]
    exact Named.mem_of_lookup hnew
  refine ⟨hr.injOn.mono hknown, ?_, hnodes, htriples, ?_, ?_⟩
  · intro l hl hmention
    exact hr.free _ (hentry l hl) (hg.mentions_iff.mp hmention)
  · intro l hl
    obtain ⟨n, hlow, -, hn⟩ := hr.numbers _ (hentry l hl)
    exact ⟨labelBase l, n, labelBase_strips l, hlow, hn⟩
  · intro l hl hid
    obtain ⟨n, -, -, hn⟩ := hr.numbers _ (hentry l hl)
    rw [show r.label l = numbered (labelBase l) n from hn]
    exact isIdentifier_numbered (isIdentifier_of_strips (labelBase_strips l) hid) n

/-- What a listing of a graph holds, node by node and triple by triple. -/
theorem Lists.mem_triples {listing : List (Option Node × List Pair)} (hs : source.Registered)
    (h : source.Lists listing) (u : Triple) :
    (u ∈ listing.flatMap fun e => e.2.map fun p => ⟨e.1, p.predicate, p.object⟩) ↔
      u ∈ source.triples := by
  simp only [List.mem_flatMap, List.mem_map]
  constructor
  · intro hu
    obtain ⟨e, he, p, hp, rfl⟩ := hu
    obtain ⟨t, ht, rfl⟩ := List.mem_map.mp ((h.pairs e he).mem_iff.mp hp)
    obtain ⟨hmem, hsubject⟩ := List.mem_filter.mp ht
    rw [← of_decide_eq_true hsubject]
    exact hmem
  · intro hu
    obtain ⟨e, he, hsubject⟩ := List.mem_map.mp (h.nodes.mem_iff.mpr (hs.subject hu))
    refine ⟨e, he, u.pair, (h.pairs e he).mem_iff.mpr ?_, ?_⟩
    · exact List.mem_map_of_mem (List.mem_filter.mpr ⟨hu, decide_eq_true hsubject.symm⟩)
    · rw [hsubject]
      rfl

theorem Lists.mem_nodes {listing : List (Option Node × List Pair)} (hs : source.Registered)
    (h : source.Lists listing) (k : Option Node) :
    (k ∈ listing.flatMap fun e =>
        e.1 :: e.2.flatMap fun p => Triple.nodes ⟨e.1, p.predicate, p.object⟩) ↔
      k ∈ source.nodes := by
  simp only [List.mem_flatMap, List.mem_cons]
  constructor
  · intro hk
    obtain ⟨e, he, rfl | ⟨p, hp, hk⟩⟩ := hk
    · exact h.nodes.mem_iff.mp (List.mem_map_of_mem he)
    · have hu := (h.mem_triples hs ⟨e.1, p.predicate, p.object⟩).mp
        (List.mem_flatMap.mpr ⟨e, he, List.mem_map.mpr ⟨p, hp, rfl⟩⟩)
      exact hs.nodes_subset hu k hk
  · intro hk
    obtain ⟨e, he, rfl⟩ := List.mem_map.mp (h.nodes.mem_iff.mpr hk)
    exact ⟨e, he, .inl rfl⟩

/-- The nodes after nodes were registered one after the other. -/
theorem mem_nodes_addNodes (ns : List (Option Node)) (g : Graph) (n : Option Node) :
    n ∈ (ns.foldl (fun g n => g.addNode (n.map r.node)) g).nodes ↔
      n ∈ g.nodes ∨ ∃ k ∈ ns, n = k.map r.node := by
  induction ns generalizing g with
  | nil => simp
  | cons k ns ih =>
    rw [List.foldl_cons, ih, mem_nodes_addNode]
    simp [or_assoc]

/-- The nodes after triples were added under new names. -/
theorem mem_nodes_addTriples (us : List Triple) (g : Graph) (n : Option Node) :
    n ∈ (g.addAll (us.map r.triple)).nodes ↔
      n ∈ g.nodes ∨ ∃ u ∈ us, ∃ k ∈ u.nodes, n = k.map r.node := by
  rw [mem_nodes_addAll]
  simp [r.nodes_triple, eq_comm]

theorem mem_nodes_embed (hs : source.Registered) (n : Option Node) :
    n ∈ (g.embed source r).nodes ↔ n ∈ g.nodes ∨ ∃ k ∈ source.nodes, n = k.map r.node := by
  rw [embed, mem_nodes_addTriples, mem_nodes_addNodes]
  refine or_iff_left_of_imp fun hn => ?_
  obtain ⟨u, hu, k, hk, rfl⟩ := hn
  exact .inr ⟨k, hs.nodes_subset hu k hk, rfl⟩

/-- A merge with all names drawn first. -/
theorem mergeInOrder_embedsFresh (hg : g.Registered) (hs : source.Registered) {order : List Text}
    (horder : order.Perm source.labelOrder)
    (hdraws : supply.labels.toNat + g.renamingDraws order supply < 2 ^ 64) :
    ∃ r, g.EmbedsFresh source supply (g.mergeInOrder source order supply).1 r := by
  obtain ⟨hfresh, hknown⟩ := drawRenaming_fresh g order hdraws
  refine ⟨(g.drawRenaming order supply).1, .of_fresh hg hfresh ?_ (mem_nodes_embed hs) ?_⟩
  · intro l hl
    exact hknown l (horder.mem_iff.mpr (mem_labelOrder (hs.mentions_iff.mp hl)))
  · intro t
    rw [mergeInOrder, mem_triples_embed, List.mem_map]
    simp only [eq_comm]

/-- **Whatever the order in which the source is listed, a merge embeds it under fresh names**, and so
it does when the names are given in any order of the labels before anything is added.  All that is
asked of the counter is that it does not start over while the names are drawn.

The merge of graphs of terms is meant.  A node or an object that is missing is no term and cannot be
merged; of graphs that hold one, this says what becomes of the terms beside it. -/
theorem merge_embeds_fresh (hg : g.Reachable) (hs : source.Reachable) (supply : Supply) :
    (∀ listing, source.Lists listing →
      supply.labels.toNat + (g.mergeAlong listing supply).draws < 2 ^ 64 →
        ∃ r, g.EmbedsFresh source supply (g.mergeAlong listing supply).target r) ∧
    (∀ order, order.Perm source.labelOrder →
      supply.labels.toNat + g.renamingDraws order supply < 2 ^ 64 →
        ∃ r, g.EmbedsFresh source supply (g.mergeInOrder source order supply).1 r) := by
  have hg := hg.registered
  have hs := hs.registered
  constructor
  · intro listing hlisting hdraws
    have htakes := Merging.addSubjects_takes { target := g, supply } listing
    have hsteady := (Merging.GoesOn.addSubjects _ listing).steady g supply.labels.toNat hdraws
      ⟨fun _ hn => hn, rfl, .nil g _ _⟩
    refine ⟨(g.mergeAlong listing supply).names, .of_fresh hg hsteady.fresh ?_ ?_ ?_⟩
    · intro l hl
      exact htakes.known _ ((hlisting.mem_nodes hs _).mpr (hs.mentions_iff.mp hl)) l rfl
    · intro n
      simp only [mergeAlong, htakes.nodes, hlisting.mem_nodes hs]
    · intro t
      simp only [mergeAlong, htakes.triples, hlisting.mem_triples hs]
  · exact fun order horder hdraws => mergeInOrder_embedsFresh hg hs horder hdraws

/-- Two blank nodes whose labels have the same text before their numbers, listed one before the
other, come into a graph that holds the first label that is tried. -/
theorem merge_embeds_fresh_collision :
    let g := Graph.empty.addNode (some (.blank "x_1"))
    let source := Graph.empty.add ⟨some (.blank "x_7"), "p", some (.blank "x")⟩
    let listing : List (Option Node × List Pair) :=
      [(some (.blank "x"), []), (some (.blank "x_7"), [⟨"p", some (.blank "x")⟩])]
    (∃ r, g.EmbedsFresh source {} (g.mergeAlong listing {}).target r) ∧
      (∃ r, g.EmbedsFresh source {} (g.merge source {}).1 r) ∧
      (g.mergeAlong listing {}).target.contains ⟨some (.blank "x_3"), "p", some (.blank "x_2")⟩ := by
  intro g source listing
  have hg : g.Reachable := (Reachable.empty true).change (.addNode _)
  have hs : source.Reachable := (Reachable.empty true).change (.add _)
  have horder : source.labelOrder = [("x" : Text), ("x_7" : Text)] := by cbv
  refine ⟨(merge_embeds_fresh hg hs {}).1 listing ⟨?_, ?_⟩ ?_,
    (merge_embeds_fresh hg hs {}).2 source.labelOrder (.refl _) ?_, ?_⟩
  · decide
  · decide
  · decide
  · rw [horder]
    decide
  · decide

end Graph

end TripleStore
