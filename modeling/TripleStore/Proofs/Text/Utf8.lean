import TripleStore.Text.Utf8
import Mathlib.Data.FinEnum
import Mathlib.Tactic

/-!
# Well-formed UTF-8

The bytes that spell a code point, as a relation beside the reader: `Utf8.Spells` lists the four
forms of a sequence, and `Utf8.sequence?` finds exactly those.  A text is read one sequence or one
stray byte at a time, which is the induction that every statement about code points follows.

* `Spells.encodeScalar_eq`: writing the code point of a sequence gives the sequence.
* `Spells.scalars_append`: the code points of a text that begins with a sequence.
* `repaired_eq_self_iff`: replacing the stray bytes leaves exactly the well-formed texts alone.
* `isWellFormed_cut`: a well-formed text is cut into well-formed ones, or within a sequence.
-/

namespace TripleStore.Utf8

theorem isContinuation_iff (b : UInt8) :
    Ascii.isContinuation b = true ↔ 0x80 ≤ b.toNat ∧ b.toNat ≤ 0xBF := by
  revert b; decide +kernel

theorem toUInt8_of_eq {n : ℕ} {b : UInt8} (h : n = b.toNat) : n.toUInt8 = b := by
  subst h; simp

theorem isSecond_iff (a b : UInt8) : isSecond a b = true ↔
    (if a.toNat = 0xE0 then 0xA0 else if a.toNat = 0xF0 then 0x90 else 0x80) ≤ b.toNat ∧
    b.toNat ≤ (if a.toNat = 0xED then 0x9F else if a.toNat = 0xF4 then 0x8F else 0xBF) := by
  unfold isSecond secondRange
  have e : ∀ n : UInt8, a = n ↔ a.toNat = n.toNat := fun n => UInt8.toNat_inj.symm
  simp only [Bool.and_eq_true, decide_eq_true_eq, UInt8.le_iff_toNat_le, e]
  simp only [UInt8.reduceToNat]
  split_ifs <;> simp_all

theorem isSecond_bounds {a b : UInt8} (h : isSecond a b = true) :
    0x80 ≤ b.toNat ∧ b.toNat ≤ 0xBF := by
  rw [isSecond_iff] at h
  split_ifs at h <;> omega

/-- The code point of a sequence of one to four bytes -/
inductive Spells : ℕ → Text → Prop
  | one {a : UInt8} : a.toNat < 0x80 → Spells a.toNat [a]
  | two {a b : UInt8} : 0xC2 ≤ a.toNat → a.toNat ≤ 0xDF → isSecond a b = true →
      Spells (a.toNat % 32 * 64 + payload b) [a, b]
  | three {a b c : UInt8} : 0xE0 ≤ a.toNat → a.toNat ≤ 0xEF → isSecond a b = true →
      Ascii.isContinuation c = true →
      Spells (a.toNat % 16 * 4096 + payload b * 64 + payload c) [a, b, c]
  | four {a b c d : UInt8} : 0xF0 ≤ a.toNat → a.toNat ≤ 0xF4 → isSecond a b = true →
      Ascii.isContinuation c = true → Ascii.isContinuation d = true →
      Spells (a.toNat % 8 * 262144 + payload b * 4096 + payload c * 64 + payload d) [a, b, c, d]

theorem sequence?_spells {a : UInt8} {rest : Text} {c w : ℕ} (h : sequence? a rest = some (c, w)) :
    ∃ tail, rest = tail ++ rest.drop (w - 1) ∧ w = tail.length + 1 ∧ Spells c (a :: tail) := by
  unfold sequence? at h
  simp only [UInt8.lt_iff_toNat_lt, UInt8.le_iff_toNat_le, Bool.and_eq_true, decide_eq_true_eq,
    UInt8.reduceToNat] at h
  split_ifs at h with h1 h2 h3 h4
  · cases h
    exact ⟨[], rfl, rfl, .one h1⟩
  · cases rest with
    | nil => cases h
    | cons b rest =>
      simp only at h
      split_ifs at h with hb
      cases h
      exact ⟨[b], rfl, rfl, .two h2.1 h2.2 hb⟩
  · match rest, h with
    | b :: c' :: rest, h =>
      simp only at h
      split_ifs at h with hb
      cases h
      exact ⟨[b, c'], rfl, rfl, .three h3.1 h3.2 hb.1 hb.2⟩
  · match rest, h with
    | b :: c' :: d :: rest, h =>
      simp only at h
      split_ifs at h with hb
      cases h
      exact ⟨[b, c', d], rfl, rfl, .four h4.1 h4.2 hb.1.1 hb.1.2 hb.2⟩

theorem Spells.encodeScalar_eq {c : ℕ} {t : Text} (h : Spells c t) : encodeScalar c = t := by
  unfold encodeScalar
  cases h with
  | one ha => rw [if_pos ha, toUInt8_of_eq rfl]
  | @two a b ha ha' hb =>
    have hb' := isSecond_bounds hb
    unfold payload
    rw [if_neg (by omega), if_pos (by omega), toUInt8_of_eq (b := a) (by omega),
      toUInt8_of_eq (b := b) (by omega)]
  | @three a b c ha ha' hb hc =>
    have hb' := isSecond_bounds hb
    rw [isContinuation_iff] at hc
    rw [isSecond_iff] at hb
    have hlow : a.toNat = 0xE0 → 0xA0 ≤ b.toNat := by intro h; simpa [h] using hb.1
    unfold payload
    rw [if_neg (by omega), if_neg (by omega), if_pos (by omega), toUInt8_of_eq (b := a) (by omega),
      toUInt8_of_eq (b := b) (by omega), toUInt8_of_eq (b := c) (by omega)]
  | @four a b c d ha ha' hb hc hd =>
    have hb' := isSecond_bounds hb
    rw [isContinuation_iff] at hc hd
    rw [isSecond_iff] at hb
    have hlow : a.toNat = 0xF0 → 0x90 ≤ b.toNat := by intro h; simpa [h] using hb.1
    unfold payload
    rw [if_neg (by omega), if_neg (by omega), if_neg (by omega),
      toUInt8_of_eq (b := a) (by omega), toUInt8_of_eq (b := b) (by omega),
      toUInt8_of_eq (b := c) (by omega), toUInt8_of_eq (b := d) (by omega)]
theorem Spells.sequence?_eq {c : ℕ} {a : UInt8} {tail : Text} (h : Spells c (a :: tail))
    (t : Text) : sequence? a (tail ++ t) = some (c, tail.length + 1) := by
  unfold sequence?
  simp only [UInt8.lt_iff_toNat_lt, UInt8.le_iff_toNat_le, Bool.and_eq_true, decide_eq_true_eq,
    UInt8.reduceToNat]
  cases h with
  | one ha => rw [if_pos ha]; rfl
  | two ha ha' hb => rw [if_neg (by omega), if_pos ⟨ha, ha'⟩]; simp [hb]
  | three ha ha' hb hc =>
    rw [if_neg (by omega), if_neg (by omega), if_pos ⟨ha, ha'⟩]; simp [hb, hc]
  | four ha ha' hb hc hd =>
    rw [if_neg (by omega), if_neg (by omega), if_neg (by omega), if_pos ⟨ha, ha'⟩]
    simp [hb, hc, hd]

theorem Spells.ne_nil {c : ℕ} {s : Text} (h : Spells c s) : s ≠ [] := by
  cases h <;> simp

/-- A code point below U+0080 is its own byte; all bytes of a longer sequence lie above. -/
theorem Spells.ascii_or_high {c : ℕ} {s : Text} (h : Spells c s) :
    (c < 0x80 ∧ s = [c.toUInt8]) ∨ (0x80 ≤ c ∧ ∀ b ∈ s, 0x80 ≤ b.toNat) := by
  cases h with
  | one ha => exact .inl ⟨ha, by rw [toUInt8_of_eq rfl]⟩
  | @two a b ha ha' hb =>
    have hb' := isSecond_bounds hb
    refine .inr ⟨by unfold payload; omega, ?_⟩
    simp only [List.mem_cons, List.not_mem_nil, or_false, forall_eq_or_imp, forall_eq]
    omega
  | @three a b c ha ha' hb hc =>
    have hb' := isSecond_bounds hb
    rw [isContinuation_iff] at hc
    rw [isSecond_iff] at hb
    have hlow : a.toNat = 0xE0 → 0xA0 ≤ b.toNat := by intro h; simpa [h] using hb.1
    refine .inr ⟨by unfold payload; omega, ?_⟩
    simp only [List.mem_cons, List.not_mem_nil, or_false, forall_eq_or_imp, forall_eq]
    omega
  | @four a b c d ha ha' hb hc hd =>
    have hb' := isSecond_bounds hb
    rw [isContinuation_iff] at hc hd
    rw [isSecond_iff] at hb
    have hlow : a.toNat = 0xF0 → 0x90 ≤ b.toNat := by intro h; simpa [h] using hb.1
    refine .inr ⟨by unfold payload; omega, ?_⟩
    simp only [List.mem_cons, List.not_mem_nil, or_false, forall_eq_or_imp, forall_eq]
    omega

/-! ### Texts as code points one after the other -/

theorem scalarsFrom_eq (skip : ℕ) (t : Text) : scalarsFrom skip t = scalars (t.drop skip) := by
  induction t generalizing skip with
  | nil => simp [scalars, scalarsFrom]
  | cons a rest ih =>
    cases skip with
    | zero => rfl
    | succ skip => rw [scalarsFrom, ih, List.drop_succ_cons]

theorem isWellFormedFrom_eq (skip : ℕ) (t : Text) :
    isWellFormedFrom skip t = isWellFormed (t.drop skip) := by
  induction t generalizing skip with
  | nil => simp [isWellFormed, isWellFormedFrom]
  | cons a rest ih =>
    cases skip with
    | zero => rfl
    | succ skip => rw [isWellFormedFrom, ih, List.drop_succ_cons]

theorem Spells.read_eq {c : ℕ} {a : UInt8} {tail : Text} (h : Spells c (a :: tail)) (t : Text) :
    read a (tail ++ t) = (c, tail.length + 1) := by
  rw [read, h.sequence?_eq, Option.getD_some]

theorem Spells.scalars_append {c : ℕ} {s : Text} (h : Spells c s) (t : Text) :
    scalars (s ++ t) = c :: scalars t := by
  obtain ⟨a, tail, rfl⟩ := List.exists_cons_of_ne_nil h.ne_nil
  rw [List.cons_append, scalars, scalarsFrom, h.read_eq, scalarsFrom_eq, Nat.add_sub_cancel,
    List.drop_left]

theorem Spells.isWellFormed_append {c : ℕ} {s : Text} (h : Spells c s) (t : Text) :
    isWellFormed (s ++ t) = isWellFormed t := by
  obtain ⟨a, tail, rfl⟩ := List.exists_cons_of_ne_nil h.ne_nil
  rw [List.cons_append, isWellFormed, isWellFormedFrom, h.sequence?_eq]
  simp only
  rw [isWellFormedFrom_eq, Nat.add_sub_cancel, List.drop_left]

/-- A code point takes at least one byte, and no more than there are. -/
theorem width_bounds {a : UInt8} {rest : Text} {c width : ℕ} (h : read a rest = (c, width)) :
    1 ≤ width ∧ width ≤ rest.length + 1 := by
  rw [read] at h
  cases hsequence : sequence? a rest with
  | none =>
    rw [hsequence] at h
    cases h
    exact ⟨le_rfl, Nat.succ_le_succ (Nat.zero_le _)⟩
  | some p =>
    rw [hsequence, Option.getD_some] at h
    subst h
    obtain ⟨tail, hrest, rfl, -⟩ := sequence?_spells hsequence
    have hlength := congrArg List.length hrest
    rw [List.length_append] at hlength
    omega

theorem scalars_stray {a : UInt8} {t : Text} (h : sequence? a t = none) :
    scalars (a :: t) = replacementScalar :: scalars t := by
  rw [scalars, scalarsFrom, scalarsFrom_eq, read, h]
  rfl

theorem isWellFormed_stray {a : UInt8} {t : Text} (h : sequence? a t = none) :
    isWellFormed (a :: t) = false := by
  rw [isWellFormed, isWellFormedFrom, h]

/-- A text is read one well-formed sequence or one stray byte at a time. -/
@[elab_as_elim]
theorem sequence_induction {motive : Text → Prop} (t : Text) (nil : motive [])
    (spelled : ∀ c s t, Spells c s → motive t → motive (s ++ t))
    (stray : ∀ a t, sequence? a t = none → motive t → motive (a :: t)) : motive t := by
  induction hn : t.length using Nat.strong_induction_on generalizing t with
  | _ n ih =>
    subst hn
    cases t with
    | nil => exact nil
    | cons a rest =>
      cases hs : sequence? a rest with
      | none => exact stray a rest hs (ih _ (by simp) rest rfl)
      | some p =>
        obtain ⟨tail, htail, -, hsp⟩ := sequence?_spells (c := p.1) (w := p.2) hs
        rw [htail]
        refine spelled p.1 (a :: tail) _ hsp (ih _ ?_ _ rfl)
        rw [List.length_drop, List.length_cons]
        omega

/-- What stands for a stray byte takes three bytes itself. -/
theorem spells_replacement : Spells replacementScalar [0xEF, 0xBF, 0xBD] :=
  Spells.three (a := 0xEF) (b := 0xBF) (c := 0xBD) (by decide) (by decide) (by decide) (by decide)

/-- Every code point that is read from a text has a spelling. -/
theorem exists_spells_of_mem {c : ℕ} {t : Text} (h : c ∈ scalars t) : ∃ s, Spells c s := by
  induction t using sequence_induction with
  | nil => simp [scalars, scalarsFrom] at h
  | spelled d s t hs ih =>
    rw [hs.scalars_append, List.mem_cons] at h
    rcases h with rfl | h
    · exact ⟨s, hs⟩
    · exact ih h
  | stray a t hs ih =>
    rw [scalars_stray hs, List.mem_cons] at h
    rcases h with rfl | h
    · exact ⟨_, spells_replacement⟩
    · exact ih h

/-- An ASCII code point that is read from a text is one of its bytes. -/
theorem mem_of_mem_scalars {c : ℕ} {t : Text} (h : c ∈ scalars t) (hc : c < 0x80) :
    c.toUInt8 ∈ t := by
  induction t using sequence_induction with
  | nil => simp [scalars, scalarsFrom] at h
  | spelled d s t hs ih =>
    rw [hs.scalars_append, List.mem_cons] at h
    rcases h with rfl | h
    · rcases hs.ascii_or_high with ⟨-, rfl⟩ | ⟨hhigh, -⟩
      · simp
      · omega
    · exact List.mem_append_right s (ih h)
  | stray a t hs ih =>
    rw [scalars_stray hs, List.mem_cons] at h
    rcases h with rfl | h
    · exact absurd hc (by decide)
    · exact List.mem_cons_of_mem a (ih h)

/-- The text with every stray byte replaced. -/
def repaired (t : Text) : Text := (scalars t).flatMap encodeScalar

theorem length_le_length_repaired (t : Text) : t.length ≤ (repaired t).length := by
  induction t using sequence_induction with
  | nil => simp
  | spelled c s t hs ih =>
    unfold repaired at ih ⊢
    rw [hs.scalars_append, List.flatMap_cons, hs.encodeScalar_eq, List.length_append,
      List.length_append]
    omega
  | stray a t hs ih =>
    unfold repaired at ih ⊢
    rw [scalars_stray hs, List.flatMap_cons, spells_replacement.encodeScalar_eq, List.length_append]
    simp only [List.length_cons, List.length_nil]
    omega

/-- **Only well-formed texts survive the repair of stray bytes.** -/
theorem repaired_eq_self_iff (t : Text) : repaired t = t ↔ isWellFormed t = true := by
  induction t using sequence_induction with
  | nil => exact iff_of_true rfl rfl
  | spelled c s t hs ih =>
    rw [hs.isWellFormed_append, ← ih]
    unfold repaired
    rw [hs.scalars_append, List.flatMap_cons, hs.encodeScalar_eq, List.append_cancel_left_eq]
  | stray a t hs ih =>
    refine iff_of_false (fun h => ?_) (by rw [isWellFormed_stray hs]; decide)
    -- the stray byte alone makes the text two bytes longer
    have hlen := congrArg List.length h
    have hle := length_le_length_repaired t
    unfold repaired at hlen hle
    rw [scalars_stray hs, List.flatMap_cons, spells_replacement.encodeScalar_eq,
      List.length_append] at hlen
    simp only [List.length_cons, List.length_nil] at hlen
    omega

/-! ### Cutting well-formed texts -/

/-- A well-formed text in front does not matter. -/
theorem isWellFormed_append {s : Text} (hs : isWellFormed s = true) (t : Text) :
    isWellFormed (s ++ t) = isWellFormed t := by
  induction s using sequence_induction with
  | nil => rfl
  | spelled c u s hu ih =>
    rw [hu.isWellFormed_append] at hs
    rw [List.append_assoc, hu.isWellFormed_append, ih hs]
  | stray a s hstray _ =>
    rw [isWellFormed_stray hstray] at hs
    cases hs

theorem scalars_append {s : Text} (hs : isWellFormed s = true) (t : Text) :
    scalars (s ++ t) = scalars s ++ scalars t := by
  induction s using sequence_induction with
  | nil => rfl
  | spelled c u s hu ih =>
    rw [hu.isWellFormed_append] at hs
    rw [List.append_assoc, hu.scalars_append, hu.scalars_append, ih hs, List.cons_append]
  | stray a s hstray _ =>
    rw [isWellFormed_stray hstray] at hs
    cases hs

theorem Spells.isWellFormed {c : ℕ} {s : Text} (h : Spells c s) : isWellFormed s = true := by
  have happend := h.isWellFormed_append []
  rw [List.append_nil] at happend
  rw [happend]
  rfl

theorem isWellFormed_singleton {b : UInt8} (hb : b.toNat < 0x80) : isWellFormed [b] = true :=
  (Spells.one hb).isWellFormed

theorem isWellFormed_of_ascii {t : Text} (h : ∀ b ∈ t, b.toNat < 0x80) : isWellFormed t = true := by
  induction t with
  | nil => rfl
  | cons b t ih =>
    obtain ⟨hb, ht⟩ := List.forall_mem_cons.mp h
    rw [← List.singleton_append, isWellFormed_append (isWellFormed_singleton hb)]
    exact ih ht

/-- Behind the first byte of a sequence all bytes continue it. -/
theorem Spells.isContinuation_of_mem {c : ℕ} {a : UInt8} {tail : Text} (h : Spells c (a :: tail)) :
    ∀ b ∈ tail, Ascii.isContinuation b = true := by
  cases h with
  | one _ => exact fun _ hb => absurd hb List.not_mem_nil
  | two _ _ hb => simpa using (isContinuation_iff _).mpr (isSecond_bounds hb)
  | three _ _ hb hc => simpa [hc] using (isContinuation_iff _).mpr (isSecond_bounds hb)
  | four _ _ hb hc hd => simpa [hc, hd] using (isContinuation_iff _).mpr (isSecond_bounds hb)

/-- **Both parts of a well-formed text are well-formed, wherever it is cut**, unless the cut goes
through a sequence and the second part begins with a byte that continues it. -/
theorem isWellFormed_cut {t : Text} (ht : isWellFormed t = true) (n : ℕ) :
    (isWellFormed (t.take n) = true ∧ isWellFormed (t.drop n) = true) ∨
      ∃ b rest, t.drop n = b :: rest ∧ Ascii.isContinuation b = true := by
  induction t using sequence_induction generalizing n with
  | nil => simp [ht]
  | spelled c s t hs ih =>
    rw [hs.isWellFormed_append] at ht
    by_cases hn : s.length ≤ n
    · obtain ⟨m, rfl⟩ := Nat.exists_eq_add_of_le hn
      rw [List.take_length_add_append, List.drop_length_add_append, hs.isWellFormed_append]
      exact ih ht m
    · obtain ⟨a, tail, rfl⟩ := List.exists_cons_of_ne_nil hs.ne_nil
      cases n with
      | zero => exact .inl ⟨rfl, by rwa [List.drop_zero, hs.isWellFormed_append]⟩
      | succ n =>
        have hlt : n < tail.length := by simpa using hn
        refine .inr ⟨tail[n], tail.drop (n + 1) ++ t, ?_, ?_⟩
        · rw [List.cons_append, List.drop_succ_cons, List.drop_append_of_le_length hlt.le,
            List.drop_eq_getElem_cons hlt, List.cons_append]
        · exact hs.isContinuation_of_mem _ (List.getElem_mem hlt)
  | stray a t hstray _ =>
    rw [isWellFormed_stray hstray] at ht
    cases ht

/-- A byte below U+0080 in a well-formed text stands between two well-formed texts. -/
theorem isWellFormed_split {s t : Text} {b : UInt8} (hb : b.toNat < 0x80)
    (h : isWellFormed (s ++ b :: t) = true) : isWellFormed s = true ∧ isWellFormed t = true := by
  rcases isWellFormed_cut h s.length with ⟨hs, ht⟩ | ⟨b', rest, hdrop, hcont⟩
  · rw [List.take_left] at hs
    rw [List.drop_left, ← List.singleton_append,
      isWellFormed_append (isWellFormed_singleton hb)] at ht
    exact ⟨hs, ht⟩
  · rw [List.drop_left] at hdrop
    cases hdrop
    have hlow := ((isContinuation_iff _).mp hcont).1
    omega

/-- Every code point has a sequence that spells it. -/
theorem spells_encodeScalar {n : ℕ} (h : isScalar n = true) : Spells n (encodeScalar n) := by
  have hbound : n < 0xD800 ∨ (0xE000 ≤ n ∧ n ≤ 0x10FFFF) := by
    simpa [isScalar] using h
  have hbyte : ∀ k < 256, k.toUInt8.toNat = k := by
    intro k hk
    rw [Nat.toUInt8_eq, UInt8.toNat_ofNat', Nat.mod_eq_of_lt (by omega)]
  have htail : ∀ k, Ascii.isContinuation (0x80 + k % 64).toUInt8 = true := by
    intro k
    rw [isContinuation_iff, hbyte _ (by omega)]
    omega
  have hpayload : ∀ k, payload (0x80 + k % 64).toUInt8 = k % 64 := by
    intro k
    rw [payload, hbyte _ (by omega)]
    omega
  unfold encodeScalar
  split_ifs with h1 h2 h3
  · have hs := Spells.one (a := n.toUInt8) (by rw [hbyte n (by omega)]; exact h1)
    rwa [hbyte n (by omega)] at hs
  · have ha := hbyte (0xC0 + n / 64) (by omega)
    have hs := Spells.two (a := (0xC0 + n / 64).toUInt8) (b := (0x80 + n % 64).toUInt8)
      (by omega) (by omega) (by rw [isSecond_iff, ha, hbyte _ (by omega)]; split_ifs <;> omega)
    rwa [ha, hpayload, show (0xC0 + n / 64) % 32 * 64 + n % 64 = n by omega] at hs
  · have ha := hbyte (0xE0 + n / 4096) (by omega)
    have hs := Spells.three (a := (0xE0 + n / 4096).toUInt8) (b := (0x80 + n / 64 % 64).toUInt8)
      (by omega) (by omega) (by rw [isSecond_iff, ha, hbyte _ (by omega)]; split_ifs <;> omega)
      (htail n)
    rwa [ha, hpayload, hpayload,
      show (0xE0 + n / 4096) % 16 * 4096 + n / 64 % 64 * 64 + n % 64 = n by omega] at hs
  · have ha := hbyte (0xF0 + n / 262144) (by omega)
    have hs := Spells.four (a := (0xF0 + n / 262144).toUInt8)
      (b := (0x80 + n / 4096 % 64).toUInt8) (by omega) (by omega)
      (by rw [isSecond_iff, ha, hbyte _ (by omega)]; split_ifs <;> omega)
      (htail (n / 64)) (htail n)
    rwa [ha, hpayload, hpayload, hpayload, show (0xF0 + n / 262144) % 8 * 262144
      + n / 4096 % 64 * 4096 + n / 64 % 64 * 64 + n % 64 = n by omega] at hs

end TripleStore.Utf8
