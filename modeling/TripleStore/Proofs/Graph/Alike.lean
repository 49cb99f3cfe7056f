import Mathlib.Data.List.Forall2
import Mathlib.Data.Set.Function
import TripleStore.Proofs.Blank.Relabelling
import TripleStore.Proofs.Graph.Merge

/-!
# Graphs that are the same but for their labels

Blank nodes are told apart by their labels, but the labels themselves mean nothing: two graphs are
alike when a bijection of their labels makes the one the other.  The union of graphs that share no
blank node depends on them up to this only, for a map on each of their labels gives one map on all.

* `Graph.Alike`: graphs that are the same up to a bijection of their labels; an equivalence.
* `Graph.relabel`: a graph with its labels replaced.
* `Graph.UnionOf`: the union of graphs no two of which share a blank node.
* `Graph.UnionOf.alike`: **unions of graphs that are alike, one by one, are alike.**
-/

namespace TripleStore

/-! ### Triples with their labels replaced -/

/-- A triple with its labels replaced. -/
def Triple.mapLabels (f : Text → Text) (t : Triple) : Triple :=
  ⟨t.subject.map (Node.mapLabel f), t.predicate, t.object.map (Term.mapLabel f)⟩

theorem Statement.triple_mapLabels (f : Text → Text) (s : Statement) :
    (s.mapLabels f).triple = s.triple.mapLabels f := rfl

/-- Whether a label is that of the subject or of the object. -/
def Triple.Mentions (t : Triple) (l : Text) : Prop :=
  t.subject = some (.blank l) ∨ t.object = some (.blank l)

theorem Node.map_mapLabel_eq_blank {f : Text → Text} {k : Option Node} {l : Text} :
    k.map (mapLabel f) = some (.blank l) ↔ ∃ b, k = some (.blank b) ∧ f b = l := by
  rcases k with _ | _ | _ <;> simp [mapLabel]

theorem Term.map_mapLabel_eq_blank {f : Text → Text} {t : Option Term} {l : Text} :
    t.map (mapLabel f) = some (.blank l) ↔ ∃ b, t = some (.blank b) ∧ f b = l := by
  rcases t with _ | _ | _ <;> simp [mapLabel]

theorem Node.map_mapLabel_congr {f f' : Text → Text} {k : Option Node}
    (h : ∀ l, k = some (.blank l) → f l = f' l) : k.map (mapLabel f) = k.map (mapLabel f') := by
  rcases k with _ | _ | l
  · rfl
  · rfl
  · exact congrArg (fun b => some (Node.blank b)) (h l rfl)

theorem Term.map_mapLabel_congr {f f' : Text → Text} {t : Option Term}
    (h : ∀ l, t = some (.blank l) → f l = f' l) : t.map (mapLabel f) = t.map (mapLabel f') := by
  rcases t with _ | t
  · rfl
  · cases t with
    | blank l => exact congrArg (fun b => some (Term.blank b)) (h l rfl)
    | _ => rfl

@[simp]
theorem Node.mapLabel_id : mapLabel id = id := by
  funext n
  cases n <;> rfl

@[simp]
theorem Term.mapLabel_id : mapLabel id = id := by
  funext t
  cases t <;> rfl

@[simp]
theorem Node.mapLabel_comp (f g : Text → Text) : mapLabel g ∘ mapLabel f = mapLabel (g ∘ f) := by
  funext n
  cases n <;> rfl

@[simp]
theorem Term.mapLabel_comp (f g : Text → Text) : mapLabel g ∘ mapLabel f = mapLabel (g ∘ f) := by
  funext t
  cases t <;> rfl

namespace Triple

theorem mentions_mapLabels {f : Text → Text} {t : Triple} {l : Text} :
    (t.mapLabels f).Mentions l ↔ ∃ b, t.Mentions b ∧ f b = l := by
  show _ = _ ∨ _ = _ ↔ _
  simp only [mapLabels, Node.map_mapLabel_eq_blank, Term.map_mapLabel_eq_blank, Mentions, or_and_right,
    exists_or]

theorem mapLabels_congr {f f' : Text → Text} {t : Triple} (h : ∀ l, t.Mentions l → f l = f' l) :
    t.mapLabels f = t.mapLabels f' := by
  rw [mapLabels, mapLabels, Node.map_mapLabel_congr fun l hl => h l (.inl hl),
    Term.map_mapLabel_congr fun l hl => h l (.inr hl)]

@[simp]
theorem mapLabels_id (t : Triple) : t.mapLabels id = t := by
  simp [mapLabels]

@[simp]
theorem mapLabels_mapLabels (f g : Text → Text) (t : Triple) :
    (t.mapLabels f).mapLabels g = t.mapLabels (g ∘ f) := by
  simp [mapLabels]

end Triple

/-! ### Graphs that are alike -/

namespace Graph

variable {g g' g'' : Graph} {f f' : Text → Text}

/-- The labels of the blank nodes in all positions of a graph. -/
def labels (g : Graph) : Set Text := {l | g.Mentions l}

/-- The second graph is the first one with its labels replaced, different ones by different ones. -/
structure AlikeBy (f : Text → Text) (g g' : Graph) : Prop where
  labels : Set.BijOn f g.labels g'.labels
  nodes : ∀ n, n ∈ g'.nodes ↔ ∃ k ∈ g.nodes, k.map (Node.mapLabel f) = n
  triples : ∀ t, t ∈ g'.triples ↔ ∃ u ∈ g.triples, u.mapLabels f = t

/-- The graphs are the same up to a bijection of their labels. -/
def Alike (g g' : Graph) : Prop := ∃ f, AlikeBy f g g'

/-- Whatever replaces the labels in nodes and triples replaces the labels of the graph. -/
theorem labels_eq_image (hnodes : ∀ n, n ∈ g'.nodes ↔ ∃ k ∈ g.nodes, k.map (Node.mapLabel f) = n)
    (htriples : ∀ t, t ∈ g'.triples ↔ ∃ u ∈ g.triples, u.mapLabels f = t) :
    g'.labels = f '' g.labels := by
  ext l
  constructor
  · intro hl
    rcases hl with hl | ⟨t, ht, hl⟩
    · obtain ⟨k, hk, hl⟩ := (hnodes _).mp hl
      obtain ⟨b, rfl, rfl⟩ := Node.map_mapLabel_eq_blank.mp hl
      exact ⟨b, .inl hk, rfl⟩
    · obtain ⟨u, hu, rfl⟩ := (htriples t).mp ht
      obtain ⟨b, hb, rfl⟩ := Triple.mentions_mapLabels.mp hl
      exact ⟨b, .inr ⟨u, hu, hb⟩, rfl⟩
  · intro hl
    obtain ⟨b, hb | ⟨u, hu, hb⟩, rfl⟩ := hl
    · exact .inl ((hnodes _).mpr ⟨_, hb, rfl⟩)
    · exact .inr ⟨_, (htriples _).mpr ⟨u, hu, rfl⟩, Triple.mentions_mapLabels.mpr ⟨b, hb, rfl⟩⟩

/-- That different labels are replaced by different ones is all there is to show. -/
theorem AlikeBy.of_injOn (hf : Set.InjOn f g.labels)
    (hnodes : ∀ n, n ∈ g'.nodes ↔ ∃ k ∈ g.nodes, k.map (Node.mapLabel f) = n)
    (htriples : ∀ t, t ∈ g'.triples ↔ ∃ u ∈ g.triples, u.mapLabels f = t) : AlikeBy f g g' := by
  refine ⟨?_, hnodes, htriples⟩
  rw [labels_eq_image hnodes htriples]
  exact hf.bijOn_image

theorem map_node_congr (h : Set.EqOn f f' g.labels) {k : Option Node} (hk : k ∈ g.nodes) :
    k.map (Node.mapLabel f) = k.map (Node.mapLabel f') :=
  Node.map_mapLabel_congr fun _ hl => h (.inl (hl ▸ hk))

theorem map_triple_congr (h : Set.EqOn f f' g.labels) {u : Triple} (hu : u ∈ g.triples) :
    u.mapLabels f = u.mapLabels f' :=
  Triple.mapLabels_congr fun _ hl => h (.inr ⟨u, hu, hl⟩)

/-- What a map does to other labels is of no matter. -/
theorem AlikeBy.congr (h : AlikeBy f g g') (heq : Set.EqOn f f' g.labels) : AlikeBy f' g g' := by
  refine ⟨h.labels.congr heq, fun n => ?_, fun t => ?_⟩
  · rw [h.nodes]
    exact exists_congr fun k => and_congr_right fun hk => by rw [map_node_congr heq hk]
  · rw [h.triples]
    exact exists_congr fun u => and_congr_right fun hu => by rw [map_triple_congr heq hu]

theorem Alike.refl (g : Graph) : g.Alike g :=
  ⟨id, Set.bijOn_id _, fun _ => by simp, fun _ => by simp⟩

theorem Alike.trans (h : g.Alike g') (h' : g'.Alike g'') : g.Alike g'' := by
  obtain ⟨f, hf⟩ := h
  obtain ⟨f', hf'⟩ := h'
  refine ⟨f' ∘ f, hf'.labels.comp hf.labels, fun n => ?_, fun t => ?_⟩
  · simp [hf'.nodes, hf.nodes]
  · simp [hf'.triples, hf.triples]

theorem Alike.symm (h : g.Alike g') : g'.Alike g := by
  obtain ⟨f, hf⟩ := h
  have hinv := hf.labels.invOn_invFunOn
  generalize Function.invFunOn f g.labels = back at hinv
  -- what the first graph holds is left as it is when its labels are replaced and put back
  have hid : Set.EqOn (back ∘ f) id g.labels := hinv.1
  refine ⟨back, hf.labels.symm hinv.symm, fun n => ?_, fun t => ?_⟩
  · have hback : ∀ k ∈ g.nodes, (k.map (Node.mapLabel f)).map (Node.mapLabel back) = k := by
      intro k hk
      rw [Option.map_map, Node.mapLabel_comp, map_node_congr hid hk, Node.mapLabel_id, Option.map_id,
        id]
    simp only [hf.nodes, exists_exists_and_eq_and]
    constructor
    · intro hn
      exact ⟨n, hn, hback n hn⟩
    · intro hn
      obtain ⟨k, hk, rfl⟩ := hn
      rwa [hback k hk]
  · have hback : ∀ u ∈ g.triples, (u.mapLabels f).mapLabels back = u := by
      intro u hu
      rw [Triple.mapLabels_mapLabels, map_triple_congr hid hu, Triple.mapLabels_id]
    simp only [hf.triples, exists_exists_and_eq_and]
    constructor
    · intro ht
      exact ⟨t, ht, hback t ht⟩
    · intro ht
      obtain ⟨u, hu, rfl⟩ := ht
      rwa [hback u hu]

/-- A graph with its labels replaced. -/
def relabel (f : Text → Text) (g : Graph) : Graph :=
  { g with
    nodes := g.nodes.map (Option.map (Node.mapLabel f))
    triples := g.triples.map (Triple.mapLabels f) }

theorem alikeBy_relabel (hf : Set.InjOn f g.labels) : AlikeBy f g (g.relabel f) :=
  .of_injOn hf (fun _ => List.mem_map) fun _ => List.mem_map

theorem labels_relabel (f : Text → Text) (g : Graph) : (g.relabel f).labels = f '' g.labels :=
  labels_eq_image (fun _ => List.mem_map) fun _ => List.mem_map

/-! ### Unions -/

/-- Graphs that share no blank node. -/
def Apart (g g' : Graph) : Prop := ∀ l ∈ g.labels, l ∉ g'.labels

theorem Apart.symm (h : g.Apart g') : g'.Apart g := fun l hl' hl => h l hl hl'

/-- A graph is the union of others, no two of which share a blank node. -/
structure UnionOf (g : Graph) (copies : List Graph) : Prop where
  apart : copies.Pairwise Apart
  nodes : ∀ n, n ∈ g.nodes ↔ ∃ c ∈ copies, n ∈ c.nodes
  triples : ∀ t, t ∈ g.triples ↔ ∃ c ∈ copies, t ∈ c.triples

variable {copies copies' : List Graph}

/-- Of two lists that go together, what stands in the one has its like in the other. -/
theorem exists_of_forall₂ {α β : Type} {R : α → β → Prop} {as : List α} {bs : List β}
    (h : List.Forall₂ R as bs) {a : α} (ha : a ∈ as) : ∃ b ∈ bs, R a b := by
  induction h with
  | nil => exact absurd ha List.not_mem_nil
  | @cons a' b as bs hab _ ih =>
    rcases List.mem_cons.mp ha with rfl | ha
    · exact ⟨b, List.mem_cons_self, hab⟩
    · obtain ⟨b', hb', h⟩ := ih ha
      exact ⟨b', List.mem_cons_of_mem b hb', h⟩

theorem UnionOf.perm (h : g.UnionOf copies) (hperm : copies.Perm copies') : g.UnionOf copies' := by
  refine ⟨(hperm.pairwise_iff fun h => h.symm).mp h.apart, fun n => ?_, fun t => ?_⟩
  · simp only [h.nodes, hperm.mem_iff]
  · simp only [h.triples, hperm.mem_iff]

theorem UnionOf.mem_labels (h : g.UnionOf copies) {l : Text} :
    l ∈ g.labels ↔ ∃ c ∈ copies, l ∈ c.labels := by
  constructor
  · intro hl
    rcases hl with hl | ⟨t, ht, hl⟩
    · obtain ⟨c, hc, hl⟩ := (h.nodes _).mp hl
      exact ⟨c, hc, .inl hl⟩
    · obtain ⟨c, hc, ht⟩ := (h.triples t).mp ht
      exact ⟨c, hc, .inr ⟨t, ht, hl⟩⟩
  · intro hl
    obtain ⟨c, hc, hl | ⟨t, ht, hl⟩⟩ := hl
    · exact .inl ((h.nodes _).mpr ⟨c, hc, hl⟩)
    · exact .inr ⟨t, (h.triples t).mpr ⟨c, hc, ht⟩, hl⟩

/-- **Graphs that are alike one by one are so by one map**, if they share no blank nodes. -/
theorem exists_alikeBy (h : List.Forall₂ Alike copies copies') (hapart : copies.Pairwise Apart) :
    ∃ f, List.Forall₂ (AlikeBy f) copies copies' := by
  induction h with
  | nil => exact ⟨id, .nil⟩
  | @cons c c' copies copies' hc _ ih =>
    obtain ⟨hfirst, hapart⟩ := List.pairwise_cons.mp hapart
    obtain ⟨f, hf⟩ := hc
    obtain ⟨f', hf'⟩ := ih hapart
    -- the map of the first graph on its labels, and that of the others on all others
    classical
    refine ⟨c.labels.piecewise f f', .cons (hf.congr (Set.piecewise_eqOn _ f f').symm) ?_⟩
    refine ((List.forall₂_and_left _ _).mpr ⟨hfirst, hf'⟩).imp fun d d' hd => ?_
    refine hd.2.congr fun l hl => ?_
    exact (Set.piecewise_eq_of_notMem _ _ _ (hd.1.symm l hl)).symm

/-- Labels of different graphs are replaced by labels of different graphs. -/
theorem injOn_of_forall₂ (h : List.Forall₂ (AlikeBy f) copies copies')
    (hapart : copies'.Pairwise Apart) : Set.InjOn f {l | ∃ c ∈ copies, l ∈ c.labels} := by
  induction h with
  | nil => exact fun l hl => absurd hl (by simp)
  | @cons c c' copies copies' hc hrest ih =>
    obtain ⟨hfirst, hapart⟩ := List.pairwise_cons.mp hapart
    have hne : ∀ l ∈ c.labels, ∀ d ∈ copies, ∀ l' ∈ d.labels, f l ≠ f l' := by
      intro l hl d hd l' hl' heq
      obtain ⟨d', hd', hdd'⟩ := exists_of_forall₂ hrest hd
      exact hfirst d' hd' (f l) (hc.labels.mapsTo hl) (heq ▸ hdd'.labels.mapsTo hl')
    intro l hl l' hl' heq
    obtain ⟨d, hd, hl⟩ := hl
    obtain ⟨d', hd', hl'⟩ := hl'
    rcases List.mem_cons.mp hd with rfl | hmem <;> rcases List.mem_cons.mp hd' with rfl | hmem'
    · exact hc.labels.injOn hl hl' heq
    · exact absurd heq (hne l hl d' hmem' l' hl')
    · exact absurd heq.symm (hne l' hl' d hmem l hl)
    · exact ih hapart ⟨d, hmem, hl⟩ ⟨d', hmem', hl'⟩ heq

/-- What is replaced in each of the graphs is replaced in all that they hold. -/
theorem exists_mem_congr {α : Type} {holds : Graph → α → Prop} {F : α → α}
    (h : List.Forall₂ (AlikeBy f) copies copies')
    (hF : ∀ c c', AlikeBy f c c' → ∀ a, holds c' a ↔ ∃ b, holds c b ∧ F b = a) (a : α) :
    (∃ c' ∈ copies', holds c' a) ↔ ∃ b, (∃ c ∈ copies, holds c b) ∧ F b = a := by
  constructor
  · intro ha
    obtain ⟨c', hc', ha⟩ := ha
    obtain ⟨c, hc, hcc'⟩ := exists_of_forall₂ h.flip hc'
    obtain ⟨b, hb, rfl⟩ := (hF c c' hcc' a).mp ha
    exact ⟨b, ⟨c, hc, hb⟩, rfl⟩
  · intro ha
    obtain ⟨b, ⟨c, hc, hb⟩, rfl⟩ := ha
    obtain ⟨c', hc', hcc'⟩ := exists_of_forall₂ h hc
    exact ⟨c', hc', (hF c c' hcc' _).mpr ⟨b, hb, rfl⟩⟩

/-- **Unions of graphs that are alike, one by one, are alike.** -/
theorem UnionOf.alike (hg : g.UnionOf copies) (hg' : g'.UnionOf copies')
    (h : List.Forall₂ Alike copies copies') : g.Alike g' := by
  obtain ⟨f, hf⟩ := exists_alikeBy h hg.apart
  refine ⟨f, .of_injOn ?_ (fun n => ?_) fun t => ?_⟩
  · exact (injOn_of_forall₂ hf hg'.apart).mono fun l hl => hg.mem_labels.mp hl
  · rw [hg'.nodes, exists_mem_congr hf fun _ _ h => h.nodes]
    simp only [hg.nodes]
  · rw [hg'.triples, exists_mem_congr hf fun _ _ h => h.triples]
    simp only [hg.triples]

end Graph

end TripleStore
