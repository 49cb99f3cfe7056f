import Mathlib.Data.FinEnum
import Mathlib.Tactic
import TripleStore.Blank.Scope
import TripleStore.Term.Valid

/-!
# Numbered labels

A fresh label is an old text, a low line and a number.  The digits behind the last low line give the
number back and what stands before it gives the text back, whatever low lines and digits the text
holds itself.

* `numbered_inj`: **the text and the number of a fresh label are told by the label.**
* `isIdentifier_numbered`: a number behind an identifier, or behind nothing, makes an identifier.
-/

namespace TripleStore

/-! ### Decimal numerals -/

namespace Text

theorem bounds_of_mem_toDigits {n : ℕ} {c : Char} (hc : c ∈ Nat.toDigits 10 n) :
    48 ≤ c.toNat ∧ c.toNat ≤ 57 := by
  have hdigit := Nat.isDigit_of_mem_toDigits (by decide) (by decide) hc
  simp only [Char.isDigit, Bool.and_eq_true, decide_eq_true_eq, ge_iff_le] at hdigit
  exact hdigit

theorem isDigit_ofNat {n : ℕ} {b : UInt8} (hb : b ∈ ofNat n) : Ascii.isDigit b = true := by
  obtain ⟨c, hc, rfl⟩ := List.mem_map.mp hb
  obtain ⟨hlow, hhigh⟩ := bounds_of_mem_toDigits hc
  rw [Ascii.isDigit, Bool.and_eq_true, decide_eq_true_eq, decide_eq_true_eq,
    UInt8.le_iff_toNat_le, UInt8.le_iff_toNat_le, Nat.toUInt8_eq, UInt8.toNat_ofNat',
    Nat.mod_eq_of_lt (by omega)]
  exact ⟨hlow, hhigh⟩

theorem ofNat_injective : Function.Injective ofNat := by
  intro m n h
  have hchars : ∀ k, (ofNat k).map (fun b => Char.ofNat b.toNat) = Nat.toDigits 10 k := by
    intro k
    rw [ofNat, List.map_map]
    refine (List.map_congr_left fun c hc => ?_).trans (List.map_id _)
    have hhigh := (bounds_of_mem_toDigits hc).2
    rw [Function.comp_apply, Nat.toUInt8_eq, UInt8.toNat_ofNat', Nat.mod_eq_of_lt (by omega),
      Char.ofNat_toNat, id]
  have hdigits : Nat.toDigits 10 m = Nat.toDigits 10 n := by rw [← hchars, ← hchars, h]
  calc
    m = Nat.ofDigitChars 10 (Nat.toDigits 10 m) 0 := Nat.ofDigitChars_ten_toDigits.symm
    _ = Nat.ofDigitChars 10 (Nat.toDigits 10 n) 0 := by rw [hdigits]
    _ = n := Nat.ofDigitChars_ten_toDigits

end Text

/-! ### A text with a number behind it -/

/-- A text with a low line and a number behind it. -/
def numbered (base : Text) (n : ℕ) : Text := base ++ "_" ++ Text.ofNat n

theorem numbered_eq (base : Text) (n : ℕ) :
    numbered base n = base ++ Ascii.underscore :: Text.ofNat n := by
  rw [numbered, List.append_assoc]
  rfl

/-- Where a byte does not stand in two texts, it divides them from what stands before it. -/
theorem append_cons_inj_of_notMem {b : UInt8} {s s' t t' : Text} (ht : b ∉ t) (ht' : b ∉ t')
    (h : s ++ b :: t = s' ++ b :: t') : s = s' ∧ t = t' := by
  have key : ∀ {s s' t t' : Text}, b ∉ t → s ++ b :: t = s' ++ b :: t' → ∀ u, s' = s ++ u →
      s = s' ∧ t = t' := by
    intro s s' t t' ht h u hu
    subst hu
    rw [List.append_assoc, List.append_cancel_left_eq] at h
    cases u with
    | nil => exact ⟨(List.append_nil s).symm, (List.cons.inj h).2⟩
    | cons c u =>
      refine absurd ?_ ht
      rw [(List.cons.inj h).2]
      simp
  rcases List.append_eq_append_iff.mp h with ⟨u, hu, -⟩ | ⟨u, hu, -⟩
  · exact key ht h u hu
  · obtain ⟨hs, ht⟩ := key ht' h.symm u hu
    exact ⟨hs.symm, ht.symm⟩

theorem underscore_notMem_of_isDigit {t : Text} (h : ∀ b ∈ t, Ascii.isDigit b = true) :
    Ascii.underscore ∉ t := fun hb => absurd (h _ hb) (by decide)

/-- **The text and the number of a fresh label are told by the label.** -/
theorem numbered_inj {base base' : Text} {n n' : ℕ} :
    numbered base n = numbered base' n' ↔ base = base' ∧ n = n' := by
  constructor
  · intro h
    rw [numbered_eq, numbered_eq] at h
    obtain ⟨hbase, hn⟩ := append_cons_inj_of_notMem
      (underscore_notMem_of_isDigit fun _ => Text.isDigit_ofNat)
      (underscore_notMem_of_isDigit fun _ => Text.isDigit_ofNat) h
    exact ⟨hbase, Text.ofNat_injective hn⟩
  · rintro ⟨rfl, rfl⟩
    rfl

theorem isForbidden_of_isDigit {b : UInt8} (h : Ascii.isDigit b = true) : isForbidden b = false := by
  have hall : ∀ b : UInt8, Ascii.isDigit b = true → isForbidden b = false := by decide +kernel
  exact hall b h

/-- A number behind an identifier, or behind nothing, makes an identifier. -/
theorem isIdentifier_numbered {base : Text} (h : base = [] ∨ isIdentifier base = true) (n : ℕ) :
    isIdentifier (numbered base n) = true := by
  have hdigits : (Text.ofNat n).any isForbidden = false := by
    rw [List.any_eq_false]
    intro b hb
    rw [isForbidden_of_isDigit (Text.isDigit_ofNat hb)]
    decide
  rw [numbered_eq]
  cases base with
  | nil =>
    rw [List.nil_append, isIdentifier, hdigits]
    decide
  | cons b base =>
    have hb := h.resolve_left (List.cons_ne_nil _ _)
    rw [isIdentifier, Bool.and_eq_true] at hb
    rw [List.cons_append, isIdentifier, Bool.and_eq_true, List.any_append, List.any_cons, hdigits]
    refine ⟨hb.1, ?_⟩
    rw [Bool.not_eq_true'] at hb ⊢
    rw [hb.2]
    decide

/-! ### Draws from the supply -/

namespace Supply

/-- The supply behind a number of draws. -/
theorem drawLabel_eq (s : Supply) (base : Text) :
    s.drawLabel base = (numbered base (s.labels + 1).toNat, { s with labels := s.labels + 1 }) :=
  rfl

/-- A counter that does not start over counts on. -/
theorem toNat_labels_succ {s : Supply} (h : s.labels.toNat + 1 < 2 ^ 64) :
    (s.labels + 1).toNat = s.labels.toNat + 1 := by
  rw [UInt64.toNat_add]
  exact Nat.mod_eq_of_lt h

end Supply

end TripleStore
