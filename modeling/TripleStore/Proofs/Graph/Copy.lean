import TripleStore.Proofs.Graph.Joining
import TripleStore.Proofs.Parse.Plain

/-!
# Merges into an empty graph

The labels that were drawn for a document leave little room for trouble: without their numbers at
most two of them are the same text, that of an anonymous node and that of a node of the document.  So
the search for a fresh label is over at the second try, wherever the counter stands, and nothing has
to be asked of the counter.

* `labelBase_numbered`, `labelBase_anonymous`: drawn labels without their numbers.
* `Scope.Draws.eq_of_labelBase`: no three drawn labels have the same text before their numbers.
* `Graph.finds_of_sparse`: where at most one label with a text and a number is taken, the search
  for a fresh one ends well.
* `Merging.ends_of_draws`: so all searches of a merge of drawn labels into an empty graph end well.
* `Graph.mergeAlong_copies`, `Graph.merge_copies`: **a merge into an empty graph gives a copy of the
  source under different names for different nodes.**
-/

namespace TripleStore

/-! ### Drawn labels without their numbers -/

theorem labelBase_numbered (base : Text) (n : ℕ) : labelBase (numbered base n) = base := by
  have hdigits : ∀ b ∈ Text.ofNat n, Ascii.isDigit b = true := fun _ => Text.isDigit_ofNat
  have hne : Text.ofNat n ≠ [] := by
    intro h
    exact Nat.toDigits_ne_nil (List.map_eq_nil_iff.mp h)
  rcases labelBase_strips (numbered base n) with ⟨digits, -, hdigits', h⟩ | ⟨-, hnone⟩
  · exact (append_cons_inj_of_notMem (underscore_notMem_of_isDigit hdigits)
      (underscore_notMem_of_isDigit hdigits') ((numbered_eq base n).symm.trans h)).1.symm
  · exact absurd (numbered_eq base n) (hnone base _ hne hdigits)

theorem labelBase_anonymous (n : UInt64) : labelBase (anonymousLabel n) = anonymousLabel n := by
  rcases labelBase_strips (anonymousLabel n) with ⟨digits, -, -, h⟩ | ⟨h, -⟩
  · refine absurd ?_ (underscore_notMem_anonymousLabel n)
    rw [h]
    simp
  · exact h

namespace Scope

variable {scope : Scope} {l l₁ l₂ : Text}

/-- A drawn label is the text before its number, or the node of that text. -/
theorem Draws.cases_labelBase (h : scope.Draws l) (hscope : scope.Numbered) :
    l = labelBase l ∨ scope.find? (labelBase l) = some l := by
  rcases h with ⟨n, rfl⟩ | ⟨label, hlabel⟩
  · exact .inl (labelBase_anonymous n).symm
  · obtain ⟨n, rfl⟩ := hscope label l hlabel
    rw [labelBase_numbered]
    exact .inr hlabel

/-- **No three drawn labels have the same text before their numbers.** -/
theorem Draws.eq_of_labelBase (h : scope.Draws l) (h₁ : scope.Draws l₁) (h₂ : scope.Draws l₂)
    (hscope : scope.Numbered) (hbase₁ : labelBase l₁ = labelBase l)
    (hbase₂ : labelBase l₂ = labelBase l) (hne₁ : l₁ ≠ l) (hne₂ : l₂ ≠ l) : l₁ = l₂ := by
  have hcases := h.cases_labelBase hscope
  have hcases₁ := h₁.cases_labelBase hscope
  have hcases₂ := h₂.cases_labelBase hscope
  rw [hbase₁] at hcases₁
  rw [hbase₂] at hcases₂
  rcases hcases with h | h
  · -- `l` is the text itself, so both others are its node
    have hnode₁ := hcases₁.resolve_left fun heq => hne₁ (heq.trans h.symm)
    have hnode₂ := hcases₂.resolve_left fun heq => hne₂ (heq.trans h.symm)
    exact Option.some.inj (hnode₁.symm.trans hnode₂)
  · -- `l` is the node of the text, so both others are the text itself
    have htext₁ := hcases₁.resolve_right fun heq => hne₁ (Option.some.inj (heq.symm.trans h))
    have htext₂ := hcases₂.resolve_right fun heq => hne₂ (Option.some.inj (heq.symm.trans h))
    exact htext₁.trans htext₂.symm

end Scope

/-! ### The search for a fresh label -/

namespace Graph

variable {g : Graph} {base : Text}

/-- At most one label with this text before its number is a node. -/
def Sparse (g : Graph) (base : Text) : Prop :=
  ∀ m n, some (.blank (numbered base m)) ∈ g.nodes → some (.blank (numbered base n)) ∈ g.nodes →
    m = n

/-- The search ends well: the second number that is tried differs from the first one, wherever the
counter stands. -/
theorem finds_of_sparse (h : g.Sparse base) (supply : Supply) : g.Finds base supply := by
  refine (freshLabel_or_taken _ supply).resolve_right fun htaken => ?_
  have hfirst := htaken 0 (Nat.succ_pos _)
  have hsecond := htaken 1 (Nat.succ_lt_succ (List.length_pos_of_mem hfirst))
  have hsame : attempt base supply 0 = attempt base supply 1 :=
    congrArg (numbered base) (h _ _ hfirst hsecond)
  exact absurd (attempt_inj (by decide) (by decide) hsame) (by decide)

end Graph

/-! ### Names that are told apart -/

namespace Renaming.Apart

variable {scope : Scope} {r : Renaming} {l : Text}

/-- A label that has no name yet shares its text with at most one that has. -/
theorem eq_of_labelBase (h : Apart scope.Draws r) (hscope : scope.Numbered) (hl : scope.Draws l)
    (hnew : r.lookup l = none) {m n : ℕ} (hm : numbered (labelBase l) m ∈ r.map Prod.snd)
    (hn : numbered (labelBase l) n ∈ r.map Prod.snd) : m = n := by
  have hentry : ∀ k, numbered (labelBase l) k ∈ r.map Prod.snd →
      ∃ p ∈ r, p.2 = numbered (labelBase l) k ∧ labelBase p.1 = labelBase l ∧ p.1 ≠ l := by
    intro k hk
    obtain ⟨p, hp, hvalue⟩ := List.mem_map.mp hk
    obtain ⟨j, hj⟩ := h.numbers p hp
    refine ⟨p, hp, hvalue, (numbered_inj.mp (hj.symm.trans hvalue)).1, fun heq => ?_⟩
    exact Named.lookup_eq_none.mp hnew (heq ▸ List.mem_map_of_mem hp)
  obtain ⟨p, hp, hpm, hpbase, hpne⟩ := hentry m hm
  obtain ⟨q, hq, hqn, hqbase, hqne⟩ := hentry n hn
  have hkey : p.1 = q.1 :=
    hl.eq_of_labelBase (h.drawn p hp) (h.drawn q hq) hscope hpbase hqbase hpne hqne
  have hpair : p = q := List.inj_on_of_nodup_map h.keys hp hq hkey
  rw [hpair] at hpm
  exact (numbered_inj.mp (hpm.symm.trans hqn)).2

end Renaming.Apart

/-- **All searches of a merge of drawn labels into an empty graph end well**, however many nodes there
are. -/
theorem Merging.ends_of_draws {scope : Scope} (hscope : scope.Numbered) (reports : Bool)
    (bound : ℕ) : Merging.Ends scope.Draws { reports } bound := by
  intro m h _ l hl hnew
  have hvalue : ∀ v, some (.blank v) ∈ m.target.nodes → v ∈ m.names.map Prod.snd :=
    fun v hv => ((h.nodes v).mp hv).resolve_left List.not_mem_nil
  refine Graph.finds_of_sparse (fun a b ha hb => ?_) m.supply
  exact h.names.eq_of_labelBase hscope hl hnew (hvalue _ ha) (hvalue _ hb)

/-! ### Copies -/

/-- All blank nodes of a graph have labels that were drawn for a document. -/
def Graph.Drawn (scope : Scope) (g : Graph) : Prop :=
  ∀ l, some (.blank l) ∈ g.nodes → scope.Draws l

namespace Graph

/-- A graph holds the triples of another under different names for different blank nodes, each made
of the old label without its number and a new number. -/
structure Copies (source copy : Graph) (r : Renaming) : Prop where
  injective : Set.InjOn r.label {l | some (.blank l) ∈ source.nodes}
  shape : ∀ l, some (.blank l) ∈ source.nodes → ∃ n, r.label l = numbered (labelBase l) n
  triples : ∀ t, t ∈ copy.triples ↔ ∃ u ∈ source.triples, t = r.triple u

variable {source : Graph} {scope : Scope}

/-- **A merge into an empty graph copies the source**, in whatever order it is listed. -/
theorem mergeAlong_copies (hs : source.Registered) (hdrawn : source.Drawn scope)
    (hscope : scope.Numbered) {listing : List (Option Node × List Pair)}
    (hlisting : source.Lists listing) (reports : Bool) (supply : Supply) :
    ∃ r, source.Copies (Graph.mergeAlong { reports } listing supply).target r := by
  obtain ⟨paced, rfl, hpaced⟩ := Merging.exists_paced { target := { reports }, supply } listing
  rw [mergeAlong, ← hpaced]
  have htakes := Merging.addSubjectsAmid_takes { target := { reports }, supply } paced
  have hapart := mergeAmid_apart hs hdrawn hlisting supply
    (Merging.ends_of_draws hscope reports _)
  have hknown : ∀ l, some (.blank l) ∈ source.nodes →
      ((Graph.mergeAmid { reports } paced supply).names.lookup l).isSome :=
    fun l hl => htakes.known _ ((hlisting.mem_nodes hs _).mpr hl) l rfl
  refine ⟨_, hapart.names.injOn.mono hknown, ?_, fun t => ?_⟩
  · intro l hl
    exact hapart.names.numbers _ (Renaming.mem_of_isSome (hknown l hl))
  · simp [htakes.triples, hlisting.mem_triples hs, mergeAmid]

/-- Names that are drawn before anything is added: the numbers follow one another. -/
theorem lookup_drawRenaming (reports : Bool) {order : List Text} {l : Text} (hl : l ∈ order)
    (supply : Supply) :
    (Graph.drawRenaming { reports } order supply).1.lookup l
      = some (numbered (labelBase l) (supply.labels + 1 + (order.idxOf l).toUInt64).toNat) := by
  induction order generalizing supply with
  | nil => exact absurd hl List.not_mem_nil
  | cons a order ih =>
    have hfirst : Graph.freshLabel { reports } (labelBase a) 1 supply
        = supply.drawLabel (labelBase a) := rfl
    rw [drawRenaming, List.length_nil, Nat.zero_add, hfirst, Supply.drawLabel_eq]
    by_cases ha : l = a
    · subst ha
      rw [List.lookup_cons_self, List.idxOf_cons_self]
      simp
    · have hne : (l == a) = false := beq_false_of_ne ha
      have hindex : (List.idxOf l (a :: order)).toUInt64 = (order.idxOf l).toUInt64 + 1 := by
        rw [List.idxOf_cons_ne order (Ne.symm ha)]
        simp
      have hnumber : supply.labels + 1 + 1 + (order.idxOf l).toUInt64
          = supply.labels + 1 + ((order.idxOf l).toUInt64 + 1) := by grind
      simp only [List.lookup_cons, hne]
      rw [ih ((List.mem_cons.mp hl).resolve_left ha), hindex, hnumber]

/-- **A merge with its names drawn in byte order copies the source** as well, as long as there are
enough numbers for all of its blank nodes. -/
theorem merge_copies (hlabels : source.labelOrder.length ≤ 2 ^ 64)
    (reports : Bool) (supply : Supply) :
    ∃ r, source.Copies (Graph.merge { reports } source supply).1 r := by
  have hname : ∀ l, some (.blank l) ∈ source.nodes →
      (Graph.drawRenaming { reports } source.labelOrder supply).1.label l = numbered (labelBase l)
        (supply.labels + 1 + (source.labelOrder.idxOf l).toUInt64).toNat := by
    intro l hl
    rw [Renaming.label, lookup_drawRenaming reports (mem_labelOrder hl), Option.getD_some]
  refine ⟨(Graph.drawRenaming { reports } source.labelOrder supply).1, ?_, ?_, fun t => ?_⟩
  · intro l hl l' hl' heq
    rw [hname l hl, hname l' hl'] at heq
    have hnumber := UInt64.toNat_inj.mp (numbered_inj.mp heq).2
    have hindex : (source.labelOrder.idxOf l).toUInt64 = (source.labelOrder.idxOf l').toUInt64 := by
      grind
    have hlt := List.idxOf_lt_length_of_mem (mem_labelOrder hl)
    have hlt' := List.idxOf_lt_length_of_mem (mem_labelOrder hl')
    have hsame := congrArg UInt64.toNat hindex
    simp only [Nat.toUInt64_eq, UInt64.toNat_ofNat'] at hsame
    rw [Nat.mod_eq_of_lt (by omega), Nat.mod_eq_of_lt (by omega)] at hsame
    exact (List.idxOf_inj (mem_labelOrder hl)).mp hsame
  · exact fun l hl => ⟨_, hname l hl⟩
  · rw [merge, mergeInOrder, mem_triples_embed, List.mem_map]
    simp [eq_comm]

end Graph

end TripleStore
