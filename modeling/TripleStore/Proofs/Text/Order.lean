import Mathlib.Tactic
import TripleStore.Proofs.Sorting
import TripleStore.Text.Basic

/-!
# The order of texts

Texts are ordered byte by byte, and of two texts one always comes first; so a listing depends on
what is listed and how often, not on the order in which it was collected.

* `Text.le_trans`, `Text.le_total`, `Text.le_antisymm`.
* `Text.le_append`: texts that start equally long are ordered by how they start first.
* `Text.sort_congr`: texts in another order have the same listing.
-/

namespace TripleStore.Text

theorem le_cons {a b : UInt8} {s t : Text} :
    le (a :: s) (b :: t) = true ↔ a.toNat < b.toNat ∨ a = b ∧ le s t = true := by
  simp [le, UInt8.lt_iff_toNat_lt]

theorem le_trans {s t u : Text} (h : le s t = true) (h' : le t u = true) : le s u = true := by
  induction s generalizing t u with
  | nil => rfl
  | cons a s ih =>
    cases t with
    | nil => cases h
    | cons b t =>
      cases u with
      | nil => cases h'
      | cons c u =>
        rw [le_cons] at h h' ⊢
        rcases h with h | ⟨rfl, h⟩
        · refine .inl ?_
          rcases h' with h' | ⟨rfl, -⟩
          · exact h.trans h'
          · exact h
        · exact h'.imp_right fun h' => ⟨h'.1, ih h h'.2⟩

theorem le_total (s t : Text) : le s t = true ∨ le t s = true := by
  induction s generalizing t with
  | nil => exact .inl rfl
  | cons a s ih =>
    cases t with
    | nil => exact .inr rfl
    | cons b t =>
      rw [le_cons, le_cons]
      rcases Nat.lt_trichotomy a.toNat b.toNat with h | h | h
      · exact .inl (.inl h)
      · obtain rfl := UInt8.toNat_inj.mp h
        exact (ih t).imp (fun h => .inr ⟨rfl, h⟩) fun h => .inr ⟨rfl, h⟩
      · exact .inr (.inl h)

theorem le_antisymm {s t : Text} (h : le s t = true) (h' : le t s = true) : s = t := by
  induction s generalizing t with
  | nil =>
    cases t with
    | nil => rfl
    | cons b t => cases h'
  | cons a s ih =>
    cases t with
    | nil => cases h
    | cons b t =>
      rw [le_cons] at h h'
      rcases h with h | ⟨rfl, h⟩
      · rcases h' with h' | ⟨rfl, -⟩
        · omega
        · omega
      · rcases h' with h' | ⟨-, h'⟩
        · omega
        · rw [ih h h']

/-- Texts that start equally long are ordered by how they start, and by the rest where they start
alike. -/
theorem le_append {s s' t t' : Text} (h : s.length = s'.length) :
    le (s ++ t) (s' ++ t') = true ↔ ¬ le s' s = true ∨ s = s' ∧ le t t' = true := by
  induction s generalizing s' with
  | nil =>
    obtain rfl := List.length_eq_zero_iff.mp h.symm
    simp [le]
  | cons a s ih =>
    cases s' with
    | nil => cases h
    | cons b s' =>
      rw [List.cons_append, List.cons_append, le_cons, ih (Nat.succ.inj h), le_cons,
        List.cons.injEq]
      rcases Nat.lt_trichotomy a.toNat b.toNat with hab | hab | hab
      · have hne : b ≠ a := by
          rintro rfl
          exact Nat.lt_irrefl _ hab
        simp [hab, hab.le, hne]
      · obtain rfl := UInt8.toNat_inj.mp hab
        simp
      · have hne : a ≠ b := by
          rintro rfl
          exact Nat.lt_irrefl _ hab
        simp [hab, hab.le, hne]

theorem ranks : Ranks le :=
  ⟨fun _ _ _ => le_trans, fun s t => Bool.or_eq_true_iff.mpr (le_total s t)⟩

theorem separates : Separates le fun _ => True := fun _ _ _ _ => le_antisymm

/-- Texts in another order have the same listing. -/
theorem sort_congr {texts texts' : List Text} (h : texts.Perm texts') :
    sort texts = sort texts' :=
  ranks.mergeSort_eq_of_perm separates (fun _ _ => trivial) h

end TripleStore.Text
