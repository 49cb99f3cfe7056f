import Mathlib.Data.List.Perm.Basic
import Mathlib.Order.Defs.Unbundled

/-!
# Orders to sort by

A sort goes by a test that says of two things whether the first may come before the second.  Two
different things may rank alike; where none do, the sorted list depends only on what is sorted.

* `Ranks`: the tests that a sort can go by; `Ranks.comap` and `Ranks.lex` make new ones.
* `Separates`: no two things with a property rank alike; `Ranks.isStrictTotalOrder`.
* `Ranks.filter_mergeSort`: what is sorted and then filtered could have been filtered first.
* `Ranks.mergeSort_eq_of_perm`: **things that are told apart are sorted in one way only.**
-/

namespace TripleStore

variable {α β : Type} {le : α → α → Bool} {p : α → Prop} {l l' : List α}

/-- A test that a sort can go by: of any two things one may come first. -/
structure Ranks (le : α → α → Bool) : Prop where
  trans : ∀ a b c, le a b = true → le b c = true → le a c = true
  total : ∀ a b, (le a b || le b a) = true

/-- Things with the property that rank alike are the same. -/
def Separates (le : α → α → Bool) (p : α → Prop) : Prop :=
  ∀ ⦃a⦄, p a → ∀ ⦃b⦄, p b → le a b = true → le b a = true → a = b

/-- Sorting gives the list, in whatever order its members are taken. -/
def SortsInto (le : α → α → Bool) (l : List α) : Prop :=
  ∀ l' : List α, l'.Perm l → l'.mergeSort le = l

/-- The first comes before the second, and may not come after it. -/
def Before (le : α → α → Bool) (a b : α) : Prop := le b a = false

/-- Things go by what is read off them. -/
theorem Separates.comap {f : β → α} {q : β → Prop} (h : Separates le p)
    (hf : ∀ b, q b → p (f b)) (hinj : ∀ b, q b → ∀ c, q c → f b = f c → b = c) :
    Separates (fun b c => le (f b) (f c)) q :=
  fun b hb c hc hbc hcb => hinj b hb c hc (h (hf b hb) (hf c hc) hbc hcb)

namespace Ranks

theorem le_of_before (h : Ranks le) {a b : α} (hab : Before le a b) : le a b = true := by
  have htotal := h.total a b
  rwa [show le b a = false from hab, Bool.or_false] at htotal

theorem refl (h : Ranks le) (a : α) : le a a = true := by
  have htotal := h.total a a
  rwa [Bool.or_self] at htotal

theorem comap (h : Ranks le) (f : β → α) : Ranks fun b c => le (f b) (f c) :=
  ⟨fun _ _ _ => h.trans _ _ _, fun _ _ => h.total _ _⟩

/-- Things go by a key first, and by a second test where they have the same key. -/
theorem lex [DecidableEq β] {first : β → β → Bool} (hfirst : Ranks first)
    (hkeys : Separates first fun _ => True) (h : Ranks le) (key : α → β) :
    Ranks fun a b => if key a = key b then le a b else first (key a) (key b) := by
  refine ⟨fun a b c hab hbc => ?_, fun a b => ?_⟩
  · by_cases hb : key a = key b
    · rw [if_pos hb] at hab
      by_cases hc : key b = key c
      · rw [if_pos hc] at hbc
        rw [if_pos (hb.trans hc)]
        exact h.trans a b c hab hbc
      · rw [if_neg hc] at hbc
        rw [hb, if_neg hc]
        exact hbc
    · rw [if_neg hb] at hab
      by_cases hc : key b = key c
      · rw [← hc, if_neg hb]
        exact hab
      · rw [if_neg hc] at hbc
        -- the key of `a` is not that of `c`, or `b` would have it too
        have hac : key a ≠ key c := by
          intro heq
          rw [← heq] at hbc
          exact hb (hkeys trivial trivial hab hbc)
        rw [if_neg hac]
        exact hfirst.trans _ _ _ hab hbc
  · by_cases hab : key a = key b
    · rw [if_pos hab, if_pos hab.symm]
      exact h.total a b
    · rw [if_neg hab, if_neg (Ne.symm hab)]
      exact hfirst.total _ _

/-- Things that are told apart stand in a strict total order. -/
theorem isStrictTotalOrder (h : Ranks le) (hp : Separates le p) :
    IsStrictTotalOrder {a // p a} fun a b => Before le a.1 b.1 where
  trichotomous := by
    intro a b hab hba
    have hle : le a.1 b.1 = true := by simpa [Before] using hba
    have hge : le b.1 a.1 = true := by simpa [Before] using hab
    exact Subtype.ext (hp a.2 b.2 hle hge)
  irrefl := by
    intro a ha
    exact Bool.false_ne_true (ha.symm.trans (h.refl a.1))
  trans := by
    intro a b c hab hbc
    refine Bool.eq_false_iff.mpr fun hca => ?_
    have hcb := h.trans _ _ _ hca (h.le_of_before hab)
    exact Bool.false_ne_true (hbc.symm.trans hcb)

/-! ### Sorted lists -/

theorem pairwise_mergeSort (h : Ranks le) (l : List α) :
    (l.mergeSort le).Pairwise fun a b => le a b = true :=
  List.pairwise_mergeSort h.trans h.total l

/-- Of things that are told apart, each comes before the next. -/
theorem before_mergeSort (h : Ranks le) (hp : Separates le p) (hl : ∀ a ∈ l, p a)
    (hnodup : l.Nodup) : (l.mergeSort le).Pairwise (Before le) := by
  have hne : (l.mergeSort le).Nodup := (List.mergeSort_perm l le).nodup_iff.mpr hnodup
  refine ((h.pairwise_mergeSort l).and hne).imp_of_mem fun {a b} ha hb hab => ?_
  refine Bool.eq_false_iff.mpr fun hba => hab.2 ?_
  exact hp (hl a (List.mem_mergeSort.mp ha)) (hl b (List.mem_mergeSort.mp hb)) hab.1 hba

/-- **Things that are told apart are sorted in one way only**, however they were collected. -/
theorem mergeSort_eq_of_perm (h : Ranks le) (hp : Separates le p) (hl : ∀ a ∈ l, p a)
    (hperm : l.Perm l') : l.mergeSort le = l'.mergeSort le := by
  refine List.Perm.eq_of_pairwise (fun a b ha hb => ?_) (h.pairwise_mergeSort l)
    (h.pairwise_mergeSort l') ?_
  · exact hp (hl a (List.mem_mergeSort.mp ha)) (hl b (hperm.mem_iff.mpr (List.mem_mergeSort.mp hb)))
  · exact (List.mergeSort_perm l le).trans (hperm.trans (List.mergeSort_perm l' le).symm)

theorem sortsInto (h : Ranks le) (hp : Separates le p) (hl : ∀ a ∈ l, p a) :
    SortsInto le (l.mergeSort le) := by
  intro l' hperm
  exact (h.mergeSort_eq_of_perm hp hl (hperm.trans (List.mergeSort_perm l le)).symm).symm

/-- A sorted list falls into what comes before a thing and what does not; a thing that stands in
front of what is sorted comes between the two. -/
theorem mergeSort_cons (h : Ranks le) (a : α) (l : List α) :
    (l.mergeSort le).filter (fun b => !le a b) ++ (l.mergeSort le).filter (le a) = l.mergeSort le ∧
      (a :: l).mergeSort le =
        (l.mergeSort le).filter (fun b => !le a b) ++ a :: (l.mergeSort le).filter (le a) := by
  obtain ⟨before, after, hsorted, hrest, hbefore⟩ := List.mergeSort_cons h.trans h.total a l
  have hafter : ∀ b ∈ after, le a b = true := by
    have hpairwise := h.pairwise_mergeSort (a :: l)
    rw [hsorted] at hpairwise
    exact (List.pairwise_cons.mp (List.pairwise_append.mp hpairwise).2.1).1
  have hnotBefore : ∀ b ∈ before, ¬ le a b = true := by simpa using hbefore
  have hnotAfter : ∀ b ∈ after, ¬ (!le a b) = true := by simpa using hafter
  have hfirst : (l.mergeSort le).filter (fun b => !le a b) = before := by
    rw [hrest, List.filter_append, List.filter_eq_self.mpr hbefore,
      List.filter_eq_nil_iff.mpr hnotAfter, List.append_nil]
  have hlast : (l.mergeSort le).filter (le a) = after := by
    rw [hrest, List.filter_append, List.filter_eq_nil_iff.mpr hnotBefore,
      List.filter_eq_self.mpr hafter, List.nil_append]
  rw [hfirst, hlast]
  exact ⟨hrest.symm, hsorted⟩

/-- What is sorted and then filtered could have been filtered first, also where things rank
alike: the sort leaves these as they stand. -/
theorem filter_mergeSort (h : Ranks le) (q : α → Bool) (l : List α) :
    (l.mergeSort le).filter q = (l.filter q).mergeSort le := by
  induction l with
  | nil => rw [List.filter_nil, List.mergeSort_nil, List.filter_nil]
  | cons a l ih =>
    obtain ⟨hparts, hcons⟩ := h.mergeSort_cons a (l.filter q)
    rw [(h.mergeSort_cons a l).2, List.filter_append, List.filter_cons, List.filter_cons,
      List.filter_comm q, List.filter_comm q, ih]
    split_ifs
    · exact hcons.symm
    · exact hparts

end Ranks

end TripleStore
