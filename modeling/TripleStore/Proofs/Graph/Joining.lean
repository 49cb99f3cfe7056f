import TripleStore.Proofs.Graph.Alike

/-!
# Merges wherever the counter stands

While a graph is merged, others may draw labels: the merge finds the counter anywhere at each of its
steps, also behind its largest number and at 0 again.  Numbers do not tell its names apart then, but
the search does: a name is given while all names before it are nodes of the target, and it is none of
these.  All that is asked for is that there are more numbers than nodes.

* `Graph.finds_of_room`: **the search for a fresh label ends well, wherever the counter stands.**
* `Merging.Apart`: what a merge keeps at every step; its names are told apart.
* `Graph.Joins`: a graph beside another one whose labels were replaced.
* `Graph.Merges`: the ways to merge graphs; `Graph.Merges.joins`: **all of them join the graphs.**
-/

namespace TripleStore

/-! ### The search for a fresh label -/

namespace Graph

variable {g : Graph} {base : Text}

/-- The search for a fresh label ends with one that is no node. -/
def Finds (g : Graph) (base : Text) (supply : Supply) : Prop :=
  ∃ n, (g.freshLabel base (g.nodes.length + 1) supply).1 = numbered base n ∧
    some (.blank (numbered base n)) ∉ g.nodes

/-- The label that is tried after `i` others. -/
def attempt (base : Text) (supply : Supply) (i : ℕ) : Text :=
  numbered base (supply.labels + 1 + i.toUInt64).toNat

theorem attempt_inj {supply : Supply} {i j : ℕ} (hi : i < 2 ^ 64) (hj : j < 2 ^ 64)
    (h : attempt base supply i = attempt base supply j) : i = j := by
  have hnumber := UInt64.toNat_inj.mp (numbered_inj.mp h).2
  have hcount : i.toUInt64 = j.toUInt64 := by grind
  have hcount := congrArg UInt64.toNat hcount
  simp only [Nat.toUInt64_eq, UInt64.toNat_ofNat'] at hcount
  rwa [Nat.mod_eq_of_lt hi, Nat.mod_eq_of_lt hj] at hcount

/-- The search ends with a label that is no node, or all that it has tried are nodes. -/
theorem freshLabel_or_taken (fuel : ℕ) (supply : Supply) :
    (∃ n, (g.freshLabel base fuel supply).1 = numbered base n ∧
        some (.blank (numbered base n)) ∉ g.nodes) ∨
      ∀ i < fuel, some (.blank (attempt base supply i)) ∈ g.nodes := by
  induction fuel generalizing supply with
  | zero => exact .inr fun i hi => absurd hi (Nat.not_lt_zero i)
  | succ fuel ih =>
    rw [freshLabel, Supply.drawLabel_eq]
    simp only
    split_ifs with htaken
    · refine (ih _).imp_right fun hlater i hi => ?_
      cases i with
      | zero => simpa [attempt] using hasNode_iff.mp htaken
      | succ i =>
        have hnumber : supply.labels + 1 + 1 + i.toUInt64 = supply.labels + 1 + (i + 1).toUInt64 := by
          simp only [Nat.toUInt64_eq, UInt64.ofNat_add]
          grind
        have hmem := hlater i (by omega)
        rwa [attempt, hnumber] at hmem
    · exact .inl ⟨_, rfl, fun hmem => htaken (hasNode_iff.mpr hmem)⟩

/-- **The search for a fresh label ends well, wherever the counter stands**, if there are more numbers
than nodes. -/
theorem finds_of_room (hroom : g.nodes.length < 2 ^ 64) (base : Text) (supply : Supply) :
    g.Finds base supply := by
  refine (freshLabel_or_taken _ supply).resolve_right fun htaken => ?_
  -- otherwise all labels that were tried are nodes
  obtain ⟨i, hi, hfree⟩ := g.exists_notMem_nodes (attempt base supply) fun i hi j hj hij => by
    have hi := Set.mem_Iic.mp hi
    have hj := Set.mem_Iic.mp hj
    exact attempt_inj (by omega) (by omega) hij
  exact hfree (htaken i (Nat.lt_succ_iff.mpr hi))

end Graph

/-! ### Names that are told apart -/

/-- Different names for different labels out of `D`, each made of the label without its number and a
number. -/
structure Renaming.Apart (D : Text → Prop) (r : Renaming) : Prop where
  drawn : ∀ p ∈ r, D p.1
  numbers : ∀ p ∈ r, ∃ n, p.2 = numbered (labelBase p.1) n
  keys : (r.map Prod.fst).Nodup
  values : (r.map Prod.snd).Nodup

/-- The name of a label that has one. -/
theorem Renaming.mem_of_isSome {r : Renaming} {l : Text} (h : (r.lookup l).isSome) :
    (l, r.label l) ∈ r := by
  obtain ⟨new, hnew⟩ := Option.isSome_iff_exists.mp h
  rw [label, hnew]
  exact Named.mem_of_lookup hnew

namespace Renaming.Apart

variable {D : Text → Prop} {r : Renaming} {l : Text}

theorem nil (D : Text → Prop) : Apart D [] :=
  ⟨fun _ h => absurd h List.not_mem_nil, fun _ h => absurd h List.not_mem_nil, List.nodup_nil,
    List.nodup_nil⟩

theorem cons (h : Apart D r) (hl : D l) (hnew : r.lookup l = none) {n : ℕ}
    (hfree : numbered (labelBase l) n ∉ r.map Prod.snd) :
    Apart D ((l, numbered (labelBase l) n) :: r) :=
  ⟨List.forall_mem_cons.mpr ⟨hl, h.drawn⟩, List.forall_mem_cons.mpr ⟨⟨n, rfl⟩, h.numbers⟩,
    List.nodup_cons.mpr ⟨Named.lookup_eq_none.mp hnew, h.keys⟩,
    List.nodup_cons.mpr ⟨hfree, h.values⟩⟩

theorem injOn (h : Apart D r) : Set.InjOn r.label {l | (r.lookup l).isSome} := by
  intro l hl l' hl' heq
  have hpair := List.inj_on_of_nodup_map h.values (mem_of_isSome hl) (mem_of_isSome hl') heq
  exact congrArg Prod.fst hpair

end Renaming.Apart

/-! ### Names in the order of a listing -/

namespace Merging

variable {D : Text → Prop} {g : Graph} {bound : ℕ} {m : Merging}

/-- What a merge of labels out of `D` into `g` keeps: the names are told apart, and they are the
blank nodes that have come in. -/
structure Apart (D : Text → Prop) (g : Graph) (m : Merging) : Prop where
  names : m.names.Apart D
  free : ∀ v ∈ m.names.map Prod.snd, some (.blank v) ∉ g.nodes
  nodes : ∀ l, some (.blank l) ∈ m.target.nodes ↔
    some (.blank l) ∈ g.nodes ∨ l ∈ m.names.map Prod.snd

/-- As long as the target has no more nodes than `bound`, every search of a merge of labels out of
`D` into `g` ends well. -/
def Ends (D : Text → Prop) (g : Graph) (bound : ℕ) : Prop :=
  ∀ m : Merging, m.Apart D g → m.target.nodes.length ≤ bound → ∀ l, D l →
    m.names.lookup l = none → m.target.Finds (labelBase l) m.supply

theorem ends_of_room (D : Text → Prop) (g : Graph) (hroom : bound < 2 ^ 64) : Ends D g bound :=
  fun m _ hbound l _ _ => Graph.finds_of_room (by omega) (labelBase l) m.supply

theorem Apart.start (D : Text → Prop) (g : Graph) (supply : Supply) :
    Apart D g { target := g, supply } :=
  ⟨.nil D, fun _ h => absurd h List.not_mem_nil, fun _ => by simp⟩

theorem Apart.amid (h : m.Apart D g) (supply : Supply) : (m.amid supply).Apart D g :=
  ⟨h.names, h.free, h.nodes⟩

/-- A label that is met keeps the names apart; what has a name then is in the target already, or is
that label. -/
theorem Apart.meet (hends : Ends D g bound) (h : m.Apart D g)
    (hbound : m.target.nodes.length ≤ bound) {l : Text} (hl : D l) :
    (m.meet l).names.Apart D ∧
      (∀ v ∈ (m.meet l).names.map Prod.snd, some (.blank v) ∉ g.nodes) ∧
      ∀ v, (some (.blank v) ∈ g.nodes ∨ v ∈ (m.meet l).names.map Prod.snd) ↔
        some (.blank v) ∈ m.target.nodes ∨ v = (m.meet l).names.label l := by
  unfold Merging.meet
  cases hnew : m.names.lookup l with
  | some new =>
    refine ⟨h.names, h.free, fun v => ?_⟩
    rw [← h.nodes]
    refine (or_iff_left_of_imp fun hv => ?_).symm
    rw [hv, h.nodes]
    exact .inr (List.mem_map_of_mem (Renaming.mem_of_isSome (by rw [hnew]; rfl)))
  | none =>
    obtain ⟨n, hfresh, hfree⟩ := hends m h hbound l hl hnew
    obtain ⟨hold, hnames⟩ := not_or.mp (mt (h.nodes _).mpr hfree)
    simp only [hfresh]
    refine ⟨h.names.cons hl hnew hnames, ?_, fun v => ?_⟩
    · rw [List.map_cons]
      exact List.forall_mem_cons.mpr ⟨hold, h.free⟩
    · rw [h.nodes, List.map_cons, List.mem_cons, Renaming.label, List.lookup_cons_self,
        Option.getD_some, or_assoc, or_comm (b := v = _)]

/-- Nodes come into the target once the label among them has its name. -/
theorem Apart.take (hends : Ends D g bound) (h : m.Apart D g)
    (hbound : m.target.nodes.length ≤ bound) {t : Option Term}
    (ht : ∀ l, t = some (.blank l) → D l) {g' : Graph} {ks : List (Option Node)}
    (hmem : ∀ l, t = some (.blank l) → some (.blank l) ∈ ks)
    (hknown : ∀ k ∈ ks, (m.meetTerm t).Knows k)
    (hnodes : ∀ n, n ∈ g'.nodes ↔
      n ∈ m.target.nodes ∨ ∃ k ∈ ks, n = k.map (m.meetTerm t).names.node) :
    Apart D g { m.meetTerm t with target := g' } := by
  have hmet : (m.meetTerm t).names.Apart D ∧
      (∀ v ∈ (m.meetTerm t).names.map Prod.snd, some (.blank v) ∉ g.nodes) ∧
      ∀ v, (some (.blank v) ∈ g.nodes ∨ v ∈ (m.meetTerm t).names.map Prod.snd) ↔
        some (.blank v) ∈ m.target.nodes ∨
          ∃ l, t = some (.blank l) ∧ v = (m.meetTerm t).names.label l := by
    cases t with
    | none => exact ⟨h.names, h.free, fun v => by simp [Merging.meetTerm, h.nodes]⟩
    | some t =>
      cases t with
      | blank l =>
        obtain ⟨hnames, hfree, hvalues⟩ := h.meet hends hbound (ht l rfl)
        exact ⟨hnames, hfree, fun v => by simpa [Merging.meetTerm, Term.label?] using hvalues v⟩
      | _ => exact ⟨h.names, h.free, fun v => by simp [Merging.meetTerm, Term.label?, h.nodes]⟩
  obtain ⟨hnames, hfree, hvalues⟩ := hmet
  refine ⟨hnames, hfree, fun v => ?_⟩
  rw [hnodes]
  constructor
  · intro hv
    rcases hv with hv | ⟨k, hk, hv⟩
    · exact (hvalues v).mpr (.inl hv)
    · obtain ⟨n, rfl, hn⟩ := Option.map_eq_some_iff.mp hv.symm
      cases n with
      | iri i => cases hn
      | blank l =>
        rw [← Node.blank.inj hn]
        exact .inr (List.mem_map_of_mem (Renaming.mem_of_isSome (hknown _ hk l rfl)))
  · intro hv
    rcases (hvalues v).mp hv with hv | ⟨l, hl, rfl⟩
    · exact .inl hv
    · exact .inr ⟨_, hmem l hl, rfl⟩

theorem addPairAmid_eq {k : Option Node} (hk : m.Knows k) (p : Paced Pair) :
    addPairAmid (k.map m.names.node) m p = { (m.amid p.1).meetTerm p.2.object with
      target := m.target.add
        (((m.amid p.1).meetTerm p.2.object).names.triple ⟨k, p.2.predicate, p.2.object⟩) } :=
  addPair_eq (m := m.amid p.1) hk p.2

theorem Apart.addPairsAmid (hends : Ends D g bound) (h : m.Apart D g) {k : Option Node}
    (hk : m.Knows k) {ps : List (Paced Pair)}
    (hps : ∀ p ∈ ps.map Prod.snd, ∀ l, p.object = some (.blank l) → D l)
    (hbound : (ps.foldl (addPairAmid (k.map m.names.node)) m).target.nodes.length ≤ bound) :
    (ps.foldl (addPairAmid (k.map m.names.node)) m).Apart D g := by
  induction ps generalizing m with
  | nil => exact h
  | cons p ps ih =>
    obtain ⟨hp, hps⟩ := List.forall_mem_cons.mp hps
    have hgrows := (addPairsAmid_takes hk (p :: ps)).grows
    have htakes : (m.amid p.1).Takes (addPairAmid (k.map m.names.node) m p) _ _ :=
      addPair_takes (m := m.amid p.1) hk p.2
    have hfirst : (addPairAmid (k.map m.names.node) m p).Apart D g := by
      rw [addPairAmid_eq hk p] at htakes ⊢
      refine (h.amid p.1).take hends (hgrows.trans hbound) hp (fun l hl => ?_) htakes.known htakes.nodes
      exact Triple.object_mem_nodes (t := ⟨k, p.2.predicate, p.2.object⟩) (by rw [hl]; rfl)
    have hkeeps : m.Keeps (addPairAmid (k.map m.names.node) m p) := htakes.keeps
    have hrest := ih hfirst (hkeeps.knows hk) hps
    rw [hkeeps.node_eq hk] at hrest
    exact hrest hbound

/-- **Along a listing all names stay apart**, whatever others draw. -/
theorem Apart.addSubjectsAmid (hends : Ends D g bound) (h : m.Apart D g)
    {paced : PacedListing}
    (hsubjects : ∀ e ∈ paced.map unpaced, ∀ l, e.1 = some (.blank l) → D l)
    (hobjects : ∀ e ∈ paced.map unpaced, ∀ p ∈ e.2, ∀ l, p.object = some (.blank l) → D l)
    (hbound : (paced.foldl addSubjectAmid m).target.nodes.length ≤ bound) :
    (paced.foldl addSubjectAmid m).Apart D g := by
  induction paced generalizing m with
  | nil => exact h
  | cons e paced ih =>
    obtain ⟨hsubject, hsubjects⟩ := List.forall_mem_cons.mp hsubjects
    obtain ⟨hobject, hobjects⟩ := List.forall_mem_cons.mp hobjects
    have hterm : ∀ l, e.1.2.map Node.toTerm = some (.blank l) → e.1.2 = some (.blank l) := by
      intro l hl
      obtain ⟨n, hn, hterm⟩ := Option.map_eq_some_iff.mp hl
      rw [hn, Node.toTerm_eq_blank.mp hterm]
    have htakes := (m.amid e.1.1).register_takes e.1.2
    have hknown := htakes.known _ List.mem_cons_self
    have hlater := (addSubjectsAmid_takes (m.addSubjectAmid e) paced).grows.trans hbound
    have hpairs := (addPairsAmid_takes hknown e.2).grows.trans hlater
    have hregister : ((m.amid e.1.1).register e.1.2).Apart D g := by
      refine (h.amid e.1.1).take hends (htakes.grows.trans hpairs)
        (fun l hl => hsubject l (hterm l hl)) (fun l hl => ?_) htakes.known htakes.nodes
      rw [hterm l hl]
      exact List.mem_singleton_self _
    exact ih (hregister.addPairsAmid hends hknown hobject hlater) hsubjects hobjects hbound

end Merging

/-! ### Joined graphs -/

theorem Renaming.node_eq (r : Renaming) : r.node = Node.mapLabel r.label := by
  funext n
  cases n <;> rfl

theorem Renaming.term_eq (r : Renaming) : r.term = Term.mapLabel r.label := by
  funext t
  cases t <;> rfl

theorem Renaming.triple_eq (r : Renaming) : r.triple = Triple.mapLabels r.label := by
  funext t
  rw [triple, Triple.mapLabels, r.node_eq, r.term_eq]

namespace Graph

variable {g source merged : Graph} {r : Renaming}

/-- A graph beside a source whose labels were replaced: different ones by different ones, and none of
them by a label of the graph. -/
structure Joins (f : Text → Text) (g source merged : Graph) : Prop where
  injective : Set.InjOn f source.labels
  fresh : ∀ l ∈ source.labels, f l ∉ g.labels
  nodes : ∀ n, n ∈ merged.nodes ↔ n ∈ g.nodes ∨ ∃ k ∈ source.nodes, k.map (Node.mapLabel f) = n
  triples : ∀ t, t ∈ merged.triples ↔ t ∈ g.triples ∨ ∃ u ∈ source.triples, u.mapLabels f = t

/-- What a merge under a renaming brings in. -/
theorem Joins.of_renaming (hinj : Set.InjOn r.label {l | source.Mentions l})
    (hfresh : ∀ l, source.Mentions l → ¬ g.Mentions (r.label l))
    (hnodes : ∀ n, n ∈ merged.nodes ↔ n ∈ g.nodes ∨ ∃ k ∈ source.nodes, n = k.map r.node)
    (htriples : ∀ t, t ∈ merged.triples ↔ t ∈ g.triples ∨ ∃ u ∈ source.triples, t = r.triple u) :
    Joins r.label g source merged := by
  refine ⟨hinj, hfresh, fun n => ?_, fun t => ?_⟩
  · simp only [hnodes, r.node_eq, eq_comm]
  · simp only [htriples, r.triple_eq, eq_comm]

/-- Merges along a listing, while others draw labels. -/
def mergeAmid (g : Graph) (paced : Merging.PacedListing) (supply : Supply) : Merging :=
  paced.foldl Merging.addSubjectAmid { target := g, supply }

/-- The ways to merge a source into a graph: along a listing, while others draw labels; or with all
names drawn first, in some order and without the counter starting over. -/
inductive Merges (g source : Graph) : Graph → Prop
  | along {paced : Merging.PacedListing} (hlisting : source.Lists (paced.map Merging.unpaced))
      (supply : Supply) :
      Merges g source (g.mergeAmid paced supply).target
  | inOrder {order : List Text} {supply : Supply} (horder : order.Perm source.labelOrder)
      (hdraws : supply.labels.toNat + g.renamingDraws order supply < 2 ^ 64) :
      Merges g source (g.mergeInOrder source order supply).1

/-- A merge along a listing gives its names in the order of the listing. -/
theorem mergeAlong_merges {listing : List (Option Node × List Pair)} (hlisting : source.Lists listing)
    (supply : Supply) : g.Merges source (g.mergeAlong listing supply).target := by
  obtain ⟨paced, rfl, hpaced⟩ := Merging.exists_paced { target := g, supply } listing
  rw [mergeAlong, ← hpaced]
  exact .along hlisting supply

theorem length_nodes_embed_le (g source : Graph) (r : Renaming) :
    g.nodes.length ≤ (g.embed source r).nodes.length := by
  refine le_trans ?_ (length_nodes_addAll_le _ _)
  induction source.nodes generalizing g with
  | nil => rfl
  | cons n ns ih => exact (g.length_nodes_addNode_le _).trans (ih _)

theorem Merges.grows (h : g.Merges source merged) : g.nodes.length ≤ merged.nodes.length := by
  cases h with
  | @along paced _ supply => exact (Merging.addSubjectsAmid_takes { target := g, supply } paced).grows
  | inOrder => exact length_nodes_embed_le ..

theorem Merges.registered (h : g.Merges source merged) (hg : g.Registered) : merged.Registered := by
  cases h with
  | @along paced _ supply => exact Registered.addSubjectsAmid (m := { target := g, supply }) hg paced
  | inOrder => exact hg.embed _ _

/-- What a merge along a listing gives, where the search for a name ends well. -/
theorem mergeAmid_apart (hs : source.Registered) {D : Text → Prop}
    (hdrawn : ∀ l, some (.blank l) ∈ source.nodes → D l)
    {paced : Merging.PacedListing} (hlisting : source.Lists (paced.map Merging.unpaced))
    (supply : Supply)
    (hends : Merging.Ends D g (g.mergeAmid paced supply).target.nodes.length) :
    (g.mergeAmid paced supply).Apart D g := by
  refine (Merging.Apart.start D g supply).addSubjectsAmid hends ?_ ?_ le_rfl
  · intro e he l hl
    exact hdrawn l (hl ▸ hlisting.nodes.mem_iff.mp (List.mem_map_of_mem he))
  · intro e he p hp l hl
    have hmem := (hlisting.mem_triples hs ⟨e.1, p.predicate, p.object⟩).mp
      (List.mem_flatMap.mpr ⟨e, he, List.mem_map.mpr ⟨p, hp, rfl⟩⟩)
    exact hdrawn l (hs.object hmem (k := .blank l) (by rw [hl]; rfl))

/-- **Merges join the graphs**, if there are more numbers than nodes in the end. -/
theorem Merges.joins (h : g.Merges source merged) (hg : g.Registered) (hs : source.Registered)
    (hroom : merged.nodes.length < 2 ^ 64) : ∃ f, Joins f g source merged := by
  cases h with
  | @along paced hlisting supply =>
    have htakes := Merging.addSubjectsAmid_takes { target := g, supply } paced
    have hapart := mergeAmid_apart hs (fun _ _ => trivial) hlisting supply
      (Merging.ends_of_room (fun _ => True) g hroom)
    have hknown : ∀ l, source.Mentions l → ((g.mergeAmid paced supply).names.lookup l).isSome :=
      fun l hl => htakes.known _ ((hlisting.mem_nodes hs _).mpr (hs.mentions_iff.mp hl)) l rfl
    refine ⟨_, .of_renaming (hapart.names.injOn.mono hknown) (fun l hl hmention => ?_)
      (fun n => ?_) fun t => ?_⟩
    · exact hapart.free _ (List.mem_map_of_mem (Renaming.mem_of_isSome (hknown l hl)))
        (hg.mentions_iff.mp hmention)
    · simp only [mergeAmid, htakes.nodes, hlisting.mem_nodes hs]
    · simp only [mergeAmid, htakes.triples, hlisting.mem_triples hs]
  | inOrder horder hdraws =>
    obtain ⟨r, hr⟩ := mergeInOrder_embedsFresh hg hs horder hdraws
    exact ⟨_, .of_renaming hr.injective hr.fresh hr.nodes hr.triples⟩

end Graph

end TripleStore
