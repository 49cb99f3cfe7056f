import TripleStore.Proofs.Blank.Relabelling
import TripleStore.Proofs.Parse.Pairing

/-!
# The same document, read from another supply

A reading draws the same labels whatever the counters of the supply stand at, only that their numbers
are shifted.  The counters go on modulo 2⁶⁴, and so does the shift: it is undone by the opposite one,
also where a reading comes round to a number that it has drawn before.

* `Shift.label`: a label with its number shifted; other labels stay.  `Shift.label_injective`.
* `Shift.pairing`: **a reading and the one from shifted counters go together.**
* `Statement.Paired.eq_mapLabels`: statements that go together are the same but for the shift.
-/

namespace TripleStore

/-! ### Labels of anonymous nodes -/

/-- The label of an anonymous node. -/
def anonymousLabel (n : UInt64) : Text := "ANON" ++ Text.ofNat n.toNat

theorem Supply.drawAnonymous_eq (s : Supply) :
    s.drawAnonymous = (anonymousLabel (s.anonymous + 1), { s with anonymous := s.anonymous + 1 }) :=
  rfl

theorem anonymousLabel_injective : Function.Injective anonymousLabel := by
  intro m n h
  exact UInt64.toNat_inj.mp (Text.ofNat_injective (List.append_cancel_left h))

theorem underscore_notMem_anonymousLabel (n : UInt64) :
    Ascii.underscore ∉ anonymousLabel n := by
  intro h
  rcases List.mem_append.mp h with h | h
  · exact absurd h (by decide +kernel)
  · exact underscore_notMem_of_isDigit (fun _ => Text.isDigit_ofNat) h

/-- Anonymous nodes are told apart from those with a label of the document. -/
theorem numbered_ne_anonymousLabel (base : Text) (k : ℕ) (n : UInt64) :
    numbered base k ≠ anonymousLabel n := by
  intro h
  refine underscore_notMem_anonymousLabel n ?_
  rw [← h, numbered_eq]
  simp

/-! ### Shifted labels -/

/-- How far the counters of one supply are ahead of those of another. -/
structure Shift where
  anonymous : UInt64
  numbers : UInt64
  /-- The number of entities, of which a reading takes no notice. -/
  entities : ℕ

namespace Shift

variable (σ : Shift)

/-- A label of the document with its number. -/
def numberedPair (p : Text × UInt64) : Text := numbered p.1 p.2.toNat

theorem numberedPair_injective : Function.Injective numberedPair := by
  intro p q h
  obtain ⟨hbase, hn⟩ := numbered_inj.mp h
  exact Prod.ext hbase (UInt64.toNat_inj.mp hn)

/-- A label that a reading has drawn, with its number shifted; other labels stay as they are. -/
noncomputable def label : Text → Text :=
  Function.extend numberedPair (fun p => numbered p.1 (p.2 + σ.numbers).toNat)
    (Function.extend anonymousLabel (fun n => anonymousLabel (n + σ.anonymous)) id)

theorem label_numbered (base : Text) (n : UInt64) :
    σ.label (numbered base n.toNat) = numbered base (n + σ.numbers).toNat :=
  numberedPair_injective.extend_apply _ _ (base, n)

theorem label_anonymous (n : UInt64) :
    σ.label (anonymousLabel n) = anonymousLabel (n + σ.anonymous) := by
  have hother : ¬ ∃ p, numberedPair p = anonymousLabel n := by
    rintro ⟨p, hp⟩
    exact numbered_ne_anonymousLabel _ _ _ hp
  rw [label, Function.extend_apply' _ _ _ hother]
  exact anonymousLabel_injective.extend_apply _ _ n

theorem label_other {l : Text} (h : ¬ ∃ p, numberedPair p = l) (h' : ¬ ∃ n, anonymousLabel n = l) :
    σ.label l = l := by
  rw [label, Function.extend_apply' _ _ _ h, Function.extend_apply' _ _ _ h', id]

/-- The shift that undoes another. -/
def opposite : Shift := ⟨0 - σ.anonymous, 0 - σ.numbers, σ.entities⟩

theorem label_opposite_label (l : Text) : σ.opposite.label (σ.label l) = l := by
  have hback : ∀ n k : UInt64, n + k + (0 - k) = n := by grind
  by_cases h : ∃ p, numberedPair p = l
  · obtain ⟨p, rfl⟩ := h
    rw [numberedPair, label_numbered, label_numbered, opposite, hback]
  · by_cases h' : ∃ n, anonymousLabel n = l
    · obtain ⟨n, rfl⟩ := h'
      rw [label_anonymous, label_anonymous, opposite, hback]
    · rw [label_other σ h h', label_other _ h h']

/-- **Shifted labels are told apart.** -/
theorem label_injective : Function.Injective σ.label :=
  Function.LeftInverse.injective σ.label_opposite_label

/-! ### Shifted readings -/

/-- A supply with its counters shifted. -/
def supply (s : Supply) : Supply :=
  ⟨s.anonymous + σ.anonymous, s.labels + σ.numbers, σ.entities⟩

/-- The shift from one supply to another. -/
def between (s s' : Supply) : Shift :=
  ⟨s'.anonymous - s.anonymous, s'.labels - s.labels, s'.entities⟩

theorem supply_between (s s' : Supply) : (between s s').supply s = s' := by
  have hahead : ∀ n k : UInt64, n + (k - n) = k := by grind
  rw [supply, between, hahead, hahead]

/-- The nodes of a scope with their labels shifted. -/
noncomputable def scope (scope : Scope) : Scope :=
  ⟨scope.known.map fun p => (p.1, σ.label p.2)⟩

/-- The labels of a document, shifted. -/
noncomputable def labels (l : Labels) : Labels := ⟨σ.scope l.scope, σ.supply l.supply⟩

theorem find?_scope (scope : Scope) (label : Text) :
    (σ.scope scope).find? label = (scope.find? label).map σ.label := by
  obtain ⟨known⟩ := scope
  show List.lookup label (known.map fun p => (p.1, σ.label p.2)) = (List.lookup label known).map _
  induction known with
  | nil => rfl
  | cons p known ih =>
    rw [List.map_cons, List.lookup_cons, List.lookup_cons, ih]
    cases label == p.1 <;> rfl

theorem resolve_scope (l : Labels) (label : Text) :
    (σ.scope l.scope).resolve (σ.supply l.supply) label
      = (σ.label (l.scope.resolve l.supply label).1,
          σ.scope (l.scope.resolve l.supply label).2.1,
          σ.supply (l.scope.resolve l.supply label).2.2) := by
  rw [Scope.resolve, Scope.resolve, find?_scope]
  cases l.scope.find? label with
  | some node => rfl
  | none =>
    have hnumber : l.supply.labels + σ.numbers + 1 = l.supply.labels + 1 + σ.numbers := by grind
    simp only [Option.map_none, Supply.drawLabel_eq, supply, scope, List.map_cons, label_numbered,
      hnumber]

/-- A reading and the one from shifted counters. -/
noncomputable def pairing : Pairing where
  known l m := m = σ.labels l
  label a b := b = σ.label a
  anonymous := by
    rintro l m rfl
    have hnumber : l.supply.anonymous + σ.anonymous + 1 = l.supply.anonymous + 1 + σ.anonymous := by
      grind
    simp only [labels, Supply.drawAnonymous_eq, supply, label_anonymous, hnumber, and_self]
  resolve := by
    rintro l m text rfl
    simp only [labels, resolve_scope, and_self]

/-- What is known at the beginning of a reading from another supply. -/
theorem known_between (s s' : Supply) : (between s s').pairing.known ⟨{}, s⟩ ⟨{}, s'⟩ := by
  show (⟨{}, s'⟩ : Labels) = ⟨{}, (between s s').supply s⟩
  rw [supply_between]

end Shift

/-! ### Shifted statements -/

theorem Node.Paired.eq_mapLabel {f : Text → Text} {n m : Node}
    (h : n.Paired (fun a b => b = f a) m) : m = n.mapLabel f := by
  cases h with
  | iri i => rfl
  | blank h => exact congrArg Node.blank h

theorem Term.Paired.eq_mapLabel {f : Text → Text} {t u : Term}
    (h : t.Paired (fun a b => b = f a) u) : u = t.mapLabel f := by
  cases h with
  | blank h => exact congrArg Term.blank h
  | other hne =>
    cases t with
    | blank l => exact absurd rfl (hne l)
    | _ => rfl

theorem Statement.Paired.eq_mapLabels {f : Text → Text} {s t : Statement}
    (h : s.Paired (fun a b => b = f a) t) : t = s.mapLabels f := by
  obtain ⟨hsubject, hpredicate, hobject, -, hgraph⟩ := h
  obtain ⟨subject, predicate, object, graph⟩ := t
  rw [Statement.mapLabels, ← hsubject.eq_mapLabel, ← hobject.eq_mapLabel, ← hpredicate, ← hgraph]

end TripleStore
