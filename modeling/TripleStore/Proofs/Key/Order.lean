import TripleStore.Proofs.Key.Term
import TripleStore.Proofs.Text.Order
import Mathlib.Data.Prod.Lex

/-!
# The order of statement keys

Keys stand one after the other without anything between them.  Since all are equally long, a text of
the right length can be read as a row of keys in one way only, and two rows are ordered by the first
key in which they differ.

* `exists_joinKeys`: every text of the right length is a row of keys.
* `splitStatementKey_eq_ok_iff`: splitting and joining undo each other.
* `statementKey_le_iff`: **the byte order of statement keys is the lexicographic order of their
  parts.**
* `startsWith_iff`: of the texts of a length, those that start with a key are the rows whose first
  key is that one.
-/

namespace TripleStore

variable {key : Text} {c s p o : TermKey}

/-! ### Rows of keys -/

/-- Every text of the right length is a row of keys. -/
theorem exists_joinKeys {n : Nat} (h : key.length = 17 * n) :
    ∃ keys : List TermKey, keys.length = n ∧ joinKeys keys = key := by
  induction n generalizing key with
  | zero => exact ⟨[], rfl, (List.length_eq_zero_iff.mp h).symm⟩
  | succ n ih =>
    have hfirst : (key.take 17).length = 17 := by
      rw [List.length_take]
      omega
    have hrest : (key.drop 17).length = 17 * n := by
      rw [List.length_drop]
      omega
    obtain ⟨keys, hlen, hkeys⟩ := ih hrest
    refine ⟨⟨key.take 17, hfirst⟩ :: keys, congrArg (· + 1) hlen, ?_⟩
    rw [joinKeys_cons, hkeys]
    exact List.take_append_drop 17 key

/-- Of the texts of a length, those that start with a key are the rows whose first key is that
one. -/
theorem startsWith_iff {n : Nat} : key.length = 17 * (n + 1) ∧ c.bytes <+: key ↔
    ∃ keys : List TermKey, keys.length = n ∧ key = joinKeys (c :: keys) := by
  constructor
  · rintro ⟨hlen, hprefix⟩
    obtain ⟨keys, hkeys, rfl⟩ := exists_joinKeys hlen
    obtain ⟨first, rest, rfl⟩ := List.exists_cons_of_length_eq_add_one hkeys
    obtain rfl := TermKey.prefix_joinKeys_iff.mp hprefix
    exact ⟨rest, Nat.succ.inj hkeys, rfl⟩
  · rintro ⟨keys, rfl, rfl⟩
    exact ⟨length_joinKeys _, TermKey.prefix_joinKeys_iff.mpr rfl⟩

theorem exists_three_keys {P : List TermKey → Prop} :
    (∃ keys, keys.length = 3 ∧ P keys) ↔ ∃ s p o, P [s, p, o] := by
  simp [List.length_eq_three, ← exists_and_right]

theorem exists_one_key {P : List TermKey → Prop} :
    (∃ keys, keys.length = 1 ∧ P keys) ↔ ∃ n, P [n] := by
  simp [List.length_eq_one_iff, ← exists_and_right]

theorem startsWith_iff_statementKey : key.length = 68 ∧ c.bytes <+: key ↔
    ∃ s p o, key = statementKey c s p o :=
  (startsWith_iff (n := 3)).trans exists_three_keys

theorem startsWith_iff_pair : key.length = 34 ∧ c.bytes <+: key ↔ ∃ n, key = joinKeys [c, n] :=
  (startsWith_iff (n := 1)).trans exists_one_key

/-! ### Splitting -/

/-- A text is split exactly if it has the length of a statement key. -/
theorem exists_splitStatementKey_iff :
    (∃ parts, splitStatementKey key = .ok parts) ↔ key.length = 68 := by
  constructor
  · rintro ⟨parts, h⟩
    rw [splitStatementKey] at h
    split_ifs at h with hlen
    exact hlen
  · intro hlen
    exact ⟨_, if_pos hlen⟩

/-- Only statement keys are split, and each into the parts that it is joined from. -/
theorem splitStatementKey_eq_ok_iff :
    splitStatementKey key = .ok (c, s, p, o) ↔ statementKey c s p o = key := by
  constructor
  · intro h
    have hlen := exists_splitStatementKey_iff.mp ⟨_, h⟩
    obtain ⟨keys, hkeys, rfl⟩ := exists_joinKeys (n := 4) hlen
    obtain ⟨c', s', p', o', rfl⟩ := List.length_eq_four.mp hkeys
    have hparts := (splitStatementKey_statementKey c' s' p' o').symm.trans h
    cases hparts
    rfl
  · rintro rfl
    exact splitStatementKey_statementKey c s p o

/-! ### The order -/

namespace TermKey

/-- Keys are ordered as their bytes. -/
instance : LinearOrder TermKey where
  le a b := Text.le a.bytes b.bytes = true
  le_refl a := Text.ranks.refl a.bytes
  le_trans _ _ _ := Text.le_trans
  le_total a b := Text.le_total a.bytes b.bytes
  le_antisymm _ _ h h' := bytes_injective (Text.le_antisymm h h')
  toDecidableLE _ _ := inferInstanceAs (Decidable (_ = true))
  toDecidableEq := inferInstance

theorem le_iff {a b : TermKey} : a ≤ b ↔ Text.le a.bytes b.bytes = true := Iff.rfl

/-- Texts that start with keys are ordered by these, and by the rest where these are the same. -/
theorem append_le_append_iff {a b : TermKey} {t u : Text} :
    Text.le (a.bytes ++ t) (b.bytes ++ u) = true ↔ a < b ∨ a = b ∧ Text.le t u = true := by
  rw [Text.le_append (a.size.trans b.size.symm), ← le_iff, not_le, bytes_injective.eq_iff]

end TermKey

/-- Statement keys are ordered by their collections, then by their subjects, then by their
predicates and then by their objects. -/
theorem statementKey_le_iff {c' s' p' o' : TermKey} :
    Text.le (statementKey c s p o) (statementKey c' s' p' o') = true ↔
      toLex (c, toLex (s, toLex (p, o))) ≤ toLex (c', toLex (s', toLex (p', o'))) := by
  simp only [statementKey, joinKeys_cons, TermKey.append_le_append_iff, Prod.Lex.toLex_le_toLex]
  -- nothing follows the objects, so there it is the objects that decide
  have hlast : Text.le (joinKeys []) (joinKeys []) = true := rfl
  simp only [hlast, and_true, le_iff_lt_or_eq]

end TripleStore
