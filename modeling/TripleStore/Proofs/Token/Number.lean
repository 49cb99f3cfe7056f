import Mathlib.Computability.Language
import TripleStore.Proofs.NTriples.Parser
import TripleStore.Proofs.Token.Seam

/-!
# Numbers

A number has one of three forms, each a regular language.  A text may begin with several words of
these languages, and what a point or a letter behind digits belongs to is only seen further on; the
scanner decides it by looking ahead and by giving an exponent without digits back.

* `Number.integer`, `Number.decimal`, `Number.double`: the three forms, which have no word in common
  (`Number.kind_of_mem_form`).
* `Scanner.number_parts`: the scanner on a sign, digits and what stands behind them.
* `Scanner.mem_form_of_number`: what is read has the form that its kind says.
* `Scanner.exists_number_of_mem_form`: where a number stands, no shorter one is read.
* `Scanner.longest_of_number`: what is read is the longest number that stands there.
* `Lexer.number_is_longest_match`: **a number is the longest beginning of a text that has one of the
  forms.**
-/

namespace TripleStore

open scoped Computability

/-! ### The forms of numbers -/

namespace Number

/-- One decimal digit. -/
def digit : Language UInt8 := {s | ∃ b, Ascii.isDigit b = true ∧ s = [b]}

/-- Digits, at least one. -/
def digits : Language UInt8 := digit * digit∗

/-- A sign or nothing. -/
def sign : Language UInt8 := 1 + {[Ascii.plus]} + {[Ascii.minus]}

/-- A decimal point. -/
def point : Language UInt8 := {[Ascii.dot]}

/-- `[eE][+-]?[0-9]+` -/
def exponent : Language UInt8 := ({[101]} + {[69]}) * sign * digits

/-- `[+-]?[0-9]+` -/
def integer : Language UInt8 := sign * digits

/-- `[+-]?[0-9]*\.[0-9]+` -/
def decimal : Language UInt8 := sign * digit∗ * point * digits

/-- `[+-]?([0-9]+(\.[0-9]*)?|\.[0-9]+)[eE][+-]?[0-9]+` -/
def double : Language UInt8 :=
  sign * (digits * (1 + point * digit∗) + point * digits) * exponent

/-- The form of the numbers of a kind; other kinds have no numbers. -/
def form : Kind → Language UInt8
  | .integer => integer
  | .decimal => decimal
  | .double => double
  | _ => 0

/-- The text is what a number may begin with: a digit, a sign, or a point with a digit. -/
def Begins (t : Text) : Prop :=
  ∃ b rest, t = b :: rest ∧ (Ascii.isDigit b = true ∨ b = Ascii.plus ∨ b = Ascii.minus ∨
    (b = Ascii.dot ∧ ∃ d ∈ rest.head?, Ascii.isDigit d = true))

/-- The longest beginning of a text that has one of the forms, and the kind of the one that it has. -/
structure Longest (t s : Text) (k : Kind) : Prop where
  beginning : s <+: t
  form_iff : ∀ k', s ∈ form k' ↔ k' = k
  longest : ∀ s' k', s' <+: t → s' ∈ form k' → s'.length ≤ s.length

variable {s t e : Text}

/-! ### Words of the forms -/

theorem mem_kstar_digit : s ∈ digit∗ ↔ ∀ b ∈ s, Ascii.isDigit b = true := by
  rw [Language.mem_kstar]
  constructor
  · rintro ⟨words, rfl, hwords⟩ b hb
    obtain ⟨w, hw, hbw⟩ := List.mem_flatten.mp hb
    obtain ⟨d, hd, rfl⟩ := hwords w hw
    rwa [List.mem_singleton.mp hbw]
  · intro h
    refine ⟨s.map fun b => [b], ?_, fun w hw => ?_⟩
    · rw [← List.flatMap_def, List.flatMap_singleton']
    · obtain ⟨b, hb, rfl⟩ := List.mem_map.mp hw
      exact ⟨b, h b hb, rfl⟩

theorem mem_digits : s ∈ digits ↔ s ≠ [] ∧ ∀ b ∈ s, Ascii.isDigit b = true := by
  rw [digits, Language.mem_mul]
  constructor
  · rintro ⟨_, ⟨b, hb, rfl⟩, ds, hds, rfl⟩
    exact ⟨List.cons_ne_nil b ds, List.forall_mem_cons.mpr ⟨hb, mem_kstar_digit.mp hds⟩⟩
  · rintro ⟨hne, h⟩
    obtain ⟨b, ds, rfl⟩ := List.exists_cons_of_ne_nil hne
    obtain ⟨hb, hds⟩ := List.forall_mem_cons.mp h
    exact ⟨[b], ⟨b, hb, rfl⟩, ds, mem_kstar_digit.mpr hds, rfl⟩

theorem mem_sign : s ∈ sign ↔ s = [] ∨ s = [Ascii.plus] ∨ s = [Ascii.minus] := by
  rw [sign, Language.mem_add, Language.mem_add, Language.mem_one, or_assoc]
  exact Iff.rfl

theorem mem_exponent : e ∈ exponent ↔ ∃ b, (b = 101 ∨ b = 69) ∧ ∃ σ ∈ sign, ∃ ds ∈ digits,
    e = b :: (σ ++ ds) := by
  rw [exponent, Language.mem_mul]
  constructor
  · rintro ⟨front, hfront, ds, hds, rfl⟩
    obtain ⟨mark, hmark, σ, hσ, rfl⟩ := Language.mem_mul.mp hfront
    rcases hmark with rfl | rfl
    · exact ⟨101, .inl rfl, σ, hσ, ds, hds, rfl⟩
    · exact ⟨69, .inr rfl, σ, hσ, ds, hds, rfl⟩
  · rintro ⟨b, hb, σ, hσ, ds, hds, rfl⟩
    refine ⟨b :: σ, Language.mem_mul.mpr ⟨[b], ?_, σ, hσ, rfl⟩, ds, hds, rfl⟩
    rcases hb with rfl | rfl
    · exact .inl rfl
    · exact .inr rfl

theorem mem_integer : s ∈ integer ↔ ∃ σ ∈ sign, ∃ ds ∈ digits, s = σ ++ ds := by
  rw [integer, Language.mem_mul]
  simp only [eq_comm]

theorem mem_decimal : s ∈ decimal ↔ ∃ σ ∈ sign, ∃ ds ∈ digit∗, ∃ fs ∈ digits,
    s = σ ++ (ds ++ Ascii.dot :: fs) := by
  rw [decimal, Language.mem_mul]
  constructor
  · rintro ⟨_, hpoint, fs, hfs, rfl⟩
    obtain ⟨_, hwhole, _, rfl, rfl⟩ := Language.mem_mul.mp hpoint
    obtain ⟨σ, hσ, ds, hds, rfl⟩ := Language.mem_mul.mp hwhole
    exact ⟨σ, hσ, ds, hds, fs, hfs, by simp⟩
  · rintro ⟨σ, hσ, ds, hds, fs, hfs, rfl⟩
    refine ⟨σ ++ ds ++ [Ascii.dot], ?_, fs, hfs, by simp⟩
    exact Language.append_mem_mul (Language.append_mem_mul hσ hds) rfl

/-- The digits of a number with an exponent: without a point, or with digits on one side of it. -/
theorem mem_double : s ∈ double ↔ ∃ σ ∈ sign, ∃ ds ∈ digit∗, ∃ fs ∈ digit∗, ∃ e ∈ exponent,
    (ds ≠ [] ∧ s = σ ++ (ds ++ e)) ∨
      ((ds ≠ [] ∨ fs ≠ []) ∧ s = σ ++ (ds ++ Ascii.dot :: (fs ++ e))) := by
  have hstar {w : Text} (h : w ∈ digits) : w ∈ digit∗ := mem_kstar_digit.mpr (mem_digits.mp h).2
  have hplus {w : Text} (h : w ∈ digit∗) (hne : w ≠ []) : w ∈ digits :=
    mem_digits.mpr ⟨hne, mem_kstar_digit.mp h⟩
  have hpoint : [Ascii.dot] ∈ point := rfl
  rw [double, Language.mem_mul]
  constructor
  · rintro ⟨_, hfront, e, he, rfl⟩
    obtain ⟨σ, hσ, _, hmantissa, rfl⟩ := Language.mem_mul.mp hfront
    rcases hmantissa with ⟨ds, hds, _, htail, rfl⟩ | ⟨_, rfl, fs, hfs, rfl⟩
    · rcases htail with rfl | ⟨_, rfl, fs, hfs, rfl⟩
      · exact ⟨σ, hσ, ds, hstar hds, [], Language.nil_mem_kstar _, e, he,
          .inl ⟨(mem_digits.mp hds).1, by simp⟩⟩
      · exact ⟨σ, hσ, ds, hstar hds, fs, hfs, e, he,
          .inr ⟨.inl (mem_digits.mp hds).1, by simp⟩⟩
    · exact ⟨σ, hσ, [], Language.nil_mem_kstar _, fs, hstar hfs, e, he,
        .inr ⟨.inr (mem_digits.mp hfs).1, by simp⟩⟩
  · rintro ⟨σ, hσ, ds, hds, fs, hfs, e, he, ⟨hne, rfl⟩ | ⟨hne, rfl⟩⟩
    · refine ⟨σ ++ (ds ++ []), Language.append_mem_mul hσ (.inl ?_), e, he, by simp⟩
      exact Language.append_mem_mul (hplus hds hne) (.inl rfl)
    · refine ⟨σ ++ (ds ++ ([Ascii.dot] ++ fs)), Language.append_mem_mul hσ ?_, e, he, by simp⟩
      by_cases hds' : ds = []
      · subst hds'
        have hne := hne.resolve_left fun h => h rfl
        rw [List.nil_append]
        exact .inr (Language.append_mem_mul hpoint (hplus hfs hne))
      · exact .inl (Language.append_mem_mul (hplus hds hds')
          (.inr (Language.append_mem_mul hpoint hfs)))

/-! ### The kind of a number -/

/-- The kind that a number has, as its letter and its point tell. -/
def kindOf (s : Text) : Kind :=
  if 101 ∈ s ∨ 69 ∈ s then .double else if Ascii.dot ∈ s then .decimal else .integer

/-- **No text has two of the forms.** -/
theorem kind_of_mem_form {k : Kind} (h : s ∈ form k) : k = kindOf s := by
  have hsign {σ : Text} (hσ : σ ∈ sign) : 101 ∉ σ ∧ 69 ∉ σ ∧ Ascii.dot ∉ σ := by
    rcases mem_sign.mp hσ with rfl | rfl | rfl
    all_goals decide
  have hdigit {ds : Text} (hds : ∀ b ∈ ds, Ascii.isDigit b = true) :
      101 ∉ ds ∧ 69 ∉ ds ∧ Ascii.dot ∉ ds :=
    ⟨fun h => absurd (hds _ h) (by decide), fun h => absurd (hds _ h) (by decide),
      fun h => absurd (hds _ h) (by decide)⟩
  cases k with
  | integer =>
    obtain ⟨σ, hσ, ds, hds, rfl⟩ := mem_integer.mp h
    have hds := hdigit (mem_digits.mp hds).2
    simp [kindOf, hsign hσ, hds]
  | decimal =>
    obtain ⟨σ, hσ, ds, hds, fs, hfs, rfl⟩ := mem_decimal.mp h
    have hds := hdigit (mem_kstar_digit.mp hds)
    have hfs := hdigit (mem_digits.mp hfs).2
    have hdot : ¬ (101 = Ascii.dot ∨ 69 = Ascii.dot) := by decide
    simp [kindOf, hsign hσ, hds, hfs, hdot]
  | double =>
    obtain ⟨_, _, _, _, _, _, e, he, hs⟩ := mem_double.mp h
    obtain ⟨b, hb, _, _, _, _, rfl⟩ := mem_exponent.mp he
    rcases hs with ⟨-, rfl⟩ | ⟨-, rfl⟩
    · rcases hb with rfl | rfl <;> simp [kindOf]
    · rcases hb with rfl | rfl <;> simp [kindOf]
  | _ => exact absurd h (Language.notMem_zero s)

end Number

/-! ### Reading the parts of a number -/

namespace Scanner

open Number (digits sign exponent mem_kstar_digit mem_digits mem_sign mem_exponent)

variable {σ ds fs e r t u : Text} {x : Lexeme}

theorem digitCount_append (hds : ∀ b ∈ ds, Ascii.isDigit b = true) (u : Text) :
    digitCount (ds ++ u) = ds.length + digitCount u := by
  rw [digitCount, List.takeWhile_append_of_pos hds, List.length_append, digitCount]

theorem signLength_append (hσ : σ ∈ sign) (hu : signLength u = 0) :
    signLength (σ ++ u) = σ.length := by
  rcases mem_sign.mp hσ with rfl | rfl | rfl
  · exact hu
  · rfl
  · rfl

theorem signLength_digits (hds : ds ∈ digits) (u : Text) : signLength (ds ++ u) = 0 := by
  obtain ⟨hne, hall⟩ := mem_digits.mp hds
  obtain ⟨b, ds, rfl⟩ := List.exists_cons_of_ne_nil hne
  have hb : ¬ (b = Ascii.plus ∨ b = Ascii.minus) := by
    rintro (rfl | rfl)
    all_goals exact absurd (hall _ List.mem_cons_self) (by decide)
  exact if_neg hb

theorem take_signLength (t : Text) :
    t.take (signLength t) ∈ sign ∧ (t.take (signLength t)).length = signLength t := by
  refine ⟨mem_sign.mpr ?_, List.length_take_of_le (signLength_le t)⟩
  cases t with
  | nil => exact .inl rfl
  | cons b t =>
    rw [signLength]
    split_ifs with hb
    · rcases hb with rfl | rfl
      · exact .inr (.inl rfl)
      · exact .inr (.inr rfl)
    · exact .inl rfl

theorem take_digitCount (t : Text) : ∀ b ∈ t.take (digitCount t), Ascii.isDigit b = true := by
  rw [digitCount, ← List.prefix_iff_eq_take.mp (List.takeWhile_prefix _)]
  exact fun b hb => List.mem_takeWhile_imp hb

theorem take_digitCount_mem (h : 0 < digitCount t) : t.take (digitCount t) ∈ digits := by
  refine mem_digits.mpr ⟨fun hnil => ?_, take_digitCount t⟩
  have hlength := congrArg List.length hnil
  rw [List.length_take_of_le (digitCount_le t), List.length_nil] at hlength
  omega

theorem digitCount_drop (t : Text) : digitCount (t.drop (digitCount t)) = 0 := by
  have hcount := digitCount_append (take_digitCount t) (t.drop (digitCount t))
  rw [List.take_append_drop, List.length_take_of_le (digitCount_le t)] at hcount
  omega

/-- An exponent is read with all digits that follow it. -/
theorem exponentLength_append (he : e ∈ exponent) (u : Text) :
    exponentLength (e ++ u) = e.length + digitCount u := by
  obtain ⟨b, hb, σ, hσ, ds, hds, rfl⟩ := mem_exponent.mp he
  obtain ⟨hne, hall⟩ := mem_digits.mp hds
  have hpos := List.length_pos_iff.mpr hne
  rw [List.cons_append, List.append_assoc, exponentLength, if_pos hb,
    signLength_append hσ (signLength_digits hds u)]
  simp only [List.drop_left, digitCount_append hall, List.length_cons, List.length_append]
  rw [if_neg (by omega)]
  omega

/-- What is read as an exponent is one. -/
theorem take_exponentLength_mem (h : 0 < exponentLength t) : t.take (exponentLength t) ∈ exponent := by
  cases t with
  | nil => cases h
  | cons b t =>
    rw [exponentLength] at h ⊢
    simp only at h ⊢
    by_cases hb : b = 101 ∨ b = 69
    swap
    · rw [if_neg hb] at h
      cases h
    rw [if_pos hb] at h ⊢
    by_cases hnone : digitCount (t.drop (signLength t)) = 0
    · rw [if_pos hnone] at h
      cases h
    rw [if_neg hnone]
    refine mem_exponent.mpr ⟨b, hb, _, (take_signLength t).1, _,
      take_digitCount_mem (Nat.pos_of_ne_zero hnone), ?_⟩
    rw [Nat.add_assoc, Nat.add_comm 1, List.take_succ_cons, List.take_add]

theorem exponent_length_pos (he : e ∈ exponent) : 0 < e.length := by
  obtain ⟨b, -, σ, -, ds, -, rfl⟩ := mem_exponent.mp he
  exact Nat.succ_pos _

/-- An exponent begins with a letter. -/
theorem head_of_mem_exponent (he : e ∈ exponent) (u : Text) :
    digitCount (e ++ u) = 0 ∧ ∀ whole, fractionLength whole (e ++ u) = 0 := by
  obtain ⟨b, hb, σ, -, ds, -, rfl⟩ := mem_exponent.mp he
  rcases hb with rfl | rfl
  · exact ⟨rfl, fun _ => rfl⟩
  · exact ⟨rfl, fun _ => rfl⟩

/-- What may stand from the point on: nothing, a point in front of an exponent, or a point with
digits. -/
theorem fractionLength_cases (whole : ℕ) (t : Text) :
    fractionLength whole t = 0 ∨
      (∃ u, t = Ascii.dot :: u ∧ 0 < whole ∧ 0 < exponentLength u ∧ fractionLength whole t = 1) ∨
      ∃ fs ∈ digits, ∃ u, t = Ascii.dot :: (fs ++ u) ∧ fractionLength whole t = 1 + fs.length := by
  cases t with
  | nil => exact .inl rfl
  | cons b t =>
    rw [fractionLength]
    split_ifs with hb hdigits hexponent
    · refine .inr (.inr ⟨_, take_digitCount_mem hdigits, t.drop (digitCount t), ?_, ?_⟩)
      · rw [hb, List.take_append_drop]
      · rw [List.length_take_of_le (digitCount_le t)]
    · exact .inr (.inl ⟨t, by rw [hb], hexponent.1, hexponent.2, rfl⟩)
    · exact .inl rfl
    · exact .inl rfl

/-! ### The scanner of numbers -/

/-- **The scanner on a sign, digits and what stands behind them.** -/
theorem number_parts (hsign : signLength (σ ++ (ds ++ r)) = σ.length)
    (hds : ∀ b ∈ ds, Ascii.isDigit b = true) (hr : digitCount r = 0) :
    number (σ ++ (ds ++ r)) =
      let fraction := fractionLength ds.length r
      let exponent := exponentLength (r.drop fraction)
      if ds = [] ∧ fraction = 0 then
        .error ⟨0, Utf8.firstScalar (σ ++ (ds ++ r)), "expected digits in number", 0⟩
      else
        .ok ⟨if 0 < exponent then .double else if 0 < fraction then .decimal else .integer,
          σ ++ (ds ++ (r.take fraction ++ (r.drop fraction).take exponent)),
          σ.length + (ds.length + (fraction + exponent)), false⟩ := by
  have hwhole : digitCount (ds ++ r) = ds.length := by rw [digitCount_append hds, hr, Nat.add_zero]
  have hdrop (n : ℕ) : (σ ++ (ds ++ r)).drop (σ.length + (ds.length + n)) = r.drop n := by
    rw [List.drop_length_add_append, List.drop_length_add_append]
  have htake (n : ℕ) : (σ ++ (ds ++ r)).take (σ.length + (ds.length + n)) = σ ++ (ds ++ r.take n) := by
    rw [List.take_length_add_append, List.take_length_add_append]
  have hbehind := hdrop 0
  rw [List.drop_zero, Nat.add_zero] at hbehind
  rw [number]
  simp only [hsign, List.drop_left, hwhole, hbehind, Nat.add_assoc, hdrop, htake, List.take_add,
    List.length_eq_zero_iff]

/-- Every text is a sign, digits and what stands behind them. -/
theorem exists_number_parts (t : Text) : ∃ σ ∈ sign, ∃ ds r, t = σ ++ (ds ++ r) ∧
    signLength (σ ++ (ds ++ r)) = σ.length ∧ (∀ b ∈ ds, Ascii.isDigit b = true) ∧
    digitCount r = 0 := by
  obtain ⟨hsign, hlength⟩ := take_signLength t
  have ht : t.take (signLength t) ++ ((t.drop (signLength t)).take (digitCount (t.drop (signLength t)))
      ++ (t.drop (signLength t)).drop (digitCount (t.drop (signLength t)))) = t := by
    rw [List.take_append_drop, List.take_append_drop]
  exact ⟨_, hsign, _, _, ht.symm, by rw [ht, hlength], take_digitCount _, digitCount_drop _⟩

/-- A number is read as it stands. -/
theorem text_of_number (h : number t = .ok x) : x.text = t.take x.size ∧ x.bare = false := by
  rw [number] at h
  simp only at h
  split_ifs at h
  all_goals
    cases h
    exact ⟨rfl, rfl⟩

/-- **What is read has the form that its kind says.** -/
theorem mem_form_of_number (h : number t = .ok x) : x.text ∈ Number.form x.kind := by
  obtain ⟨σ, hσ, ds, r, rfl, hsign, hds, hr⟩ := exists_number_parts t
  rw [number_parts hsign hds hr] at h
  simp only at h
  by_cases hnone : ds = [] ∧ fractionLength ds.length r = 0
  · rw [if_pos hnone] at h
    cases h
  rw [if_neg hnone] at h
  cases h
  have hds' := mem_kstar_digit.mpr hds
  rcases fractionLength_cases ds.length r with
    hzero | ⟨u, rfl, hwhole, hexponent, hone⟩ | ⟨fs, hfs, u, rfl, hmany⟩
  · -- no point
    have hne : ds ≠ [] := fun h => hnone ⟨h, hzero⟩
    simp only [hzero, List.take_zero, List.drop_zero, List.nil_append, lt_self_iff_false, if_false]
    by_cases hexponent : 0 < exponentLength r
    · rw [if_pos hexponent]
      exact Number.mem_double.mpr ⟨σ, hσ, ds, hds', [], Language.nil_mem_kstar _, _,
        take_exponentLength_mem hexponent, .inl ⟨hne, rfl⟩⟩
    · rw [if_neg hexponent, Nat.eq_zero_of_not_pos hexponent, List.take_zero, List.append_nil]
      exact Number.mem_integer.mpr ⟨σ, hσ, ds, mem_digits.mpr ⟨hne, hds⟩, rfl⟩
  · -- a point in front of an exponent
    simp only [hone, List.take_succ_cons, List.take_zero, List.drop_one, List.tail_cons,
      if_pos hexponent]
    exact Number.mem_double.mpr ⟨σ, hσ, ds, hds', [], Language.nil_mem_kstar _, _,
      take_exponentLength_mem hexponent, .inr ⟨.inl (List.length_pos_iff.mp hwhole), rfl⟩⟩
  · -- a point with digits
    have hne := (mem_digits.mp hfs).1
    simp only [hmany, Nat.add_comm 1, List.take_succ_cons, List.drop_succ_cons, List.take_left,
      List.drop_left, Nat.succ_pos, if_true]
    by_cases hexponent : 0 < exponentLength u
    · rw [if_pos hexponent]
      exact Number.mem_double.mpr ⟨σ, hσ, ds, hds', fs, mem_kstar_digit.mpr (mem_digits.mp hfs).2, _,
        take_exponentLength_mem hexponent, .inr ⟨.inr hne, rfl⟩⟩
    · rw [if_neg hexponent, Nat.eq_zero_of_not_pos hexponent, List.take_zero, List.append_nil]
      exact Number.mem_decimal.mpr ⟨σ, hσ, ds, hds', fs, hfs, rfl⟩

/-- A number is read where there are digits before the point, or something from the point on. -/
theorem exists_number (hσ : σ ∈ sign) (hds : ∀ b ∈ ds, Ascii.isDigit b = true) (hr : digitCount r = 0)
    (hsign : ds ≠ [] ∨ signLength r = 0) (hsome : ds ≠ [] ∨ 0 < fractionLength ds.length r) :
    ∃ x, number (σ ++ (ds ++ r)) = .ok x ∧ x.size = σ.length + (ds.length +
      (fractionLength ds.length r + exponentLength (r.drop (fractionLength ds.length r)))) := by
  have hfirst : signLength (ds ++ r) = 0 := by
    by_cases hne : ds = []
    · rw [hne]
      exact hsign.resolve_left fun h => h hne
    · exact signLength_digits (mem_digits.mpr ⟨hne, hds⟩) r
  refine ⟨_, (number_parts (signLength_append hσ hfirst) hds hr).trans (if_neg fun h => ?_), rfl⟩
  exact hsome.elim (fun hne => hne h.1) fun hpos => by omega

/-- A point with digits is read with all digits that follow. -/
theorem fractionLength_digits (hfs : fs ∈ digits) (whole : ℕ) (u : Text) :
    fractionLength whole (Ascii.dot :: (fs ++ u)) = 1 + (fs.length + digitCount u) := by
  obtain ⟨hne, hall⟩ := mem_digits.mp hfs
  have hpos := List.length_pos_iff.mpr hne
  rw [fractionLength, if_pos rfl, digitCount_append hall, if_pos (by omega)]

/-- In front of an exponent a point is read with digits on one side of it. -/
theorem fractionLength_exponent (he : e ∈ exponent) (hfs : ∀ b ∈ fs, Ascii.isDigit b = true)
    {whole : ℕ} (hsome : 0 < whole ∨ fs ≠ []) (u : Text) :
    fractionLength whole (Ascii.dot :: (fs ++ (e ++ u))) = 1 + fs.length := by
  by_cases hne : fs = []
  · have hwhole := hsome.resolve_right fun h => h hne
    have hexponent := exponentLength_append he u
    have hpos := exponent_length_pos he
    rw [hne, List.nil_append, fractionLength, if_pos rfl, (head_of_mem_exponent he u).1,
      if_neg (lt_irrefl 0), if_pos ⟨hwhole, by omega⟩, List.length_nil]
  · rw [fractionLength_digits (mem_digits.mpr ⟨hne, hfs⟩), (head_of_mem_exponent he u).1, Nat.add_zero]

/-- **Where a number stands, one is read, and none that is shorter.** -/
theorem exists_number_of_mem_form {s : Text} {k : Kind} (h : s ∈ Number.form k) (u : Text) :
    ∃ x, number (s ++ u) = .ok x ∧ s.length ≤ x.size := by
  cases k with
  | integer =>
    obtain ⟨σ, hσ, ds, hds, rfl⟩ := Number.mem_integer.mp h
    obtain ⟨hne, hall⟩ := mem_digits.mp hds
    -- the digits go on behind `s` as far as they can
    have hall' : ∀ b ∈ ds ++ u.take (digitCount u), Ascii.isDigit b = true := fun b hb =>
      (List.mem_append.mp hb).elim (hall b) (take_digitCount u b)
    have hne' : ds ++ u.take (digitCount u) ≠ [] := List.append_ne_nil_of_left_ne_nil hne _
    obtain ⟨x, hx, hsize⟩ := exists_number hσ hall' (digitCount_drop u) (.inl hne') (.inl hne')
    rw [List.append_assoc ds, List.take_append_drop] at hx
    refine ⟨x, by rw [List.append_assoc, hx], ?_⟩
    rw [hsize, List.length_append, List.length_append]
    omega
  | decimal =>
    obtain ⟨σ, hσ, ds, hds, fs, hfs, rfl⟩ := Number.mem_decimal.mp h
    have hfraction := fractionLength_digits hfs ds.length u
    obtain ⟨x, hx, hsize⟩ := exists_number (r := Ascii.dot :: (fs ++ u)) hσ (mem_kstar_digit.mp hds)
      rfl (.inr rfl) (.inr (by omega))
    refine ⟨x, by simpa using hx, ?_⟩
    rw [hsize, hfraction]
    simp only [List.length_append, List.length_cons]
    omega
  | double =>
    obtain ⟨σ, hσ, ds, hds, fs, hfs, e, he, hs⟩ := Number.mem_double.mp h
    have hds := mem_kstar_digit.mp hds
    have hexponent := exponentLength_append he u
    obtain ⟨hcount, hnone⟩ := head_of_mem_exponent he u
    rcases hs with ⟨hne, rfl⟩ | ⟨hne, rfl⟩
    · obtain ⟨x, hx, hsize⟩ := exists_number hσ hds hcount (.inl hne) (.inl hne)
      refine ⟨x, by simpa using hx, ?_⟩
      rw [hsize, hnone, List.drop_zero, hexponent]
      simp only [List.length_append]
      omega
    · have hfraction := fractionLength_exponent he (mem_kstar_digit.mp hfs)
        (hne.imp_left List.length_pos_iff.mpr) u
      obtain ⟨x, hx, hsize⟩ := exists_number (r := Ascii.dot :: (fs ++ (e ++ u))) hσ hds rfl
        (.inr rfl) (.inr (by omega))
      refine ⟨x, by simpa using hx, ?_⟩
      rw [hsize, hfraction, Nat.add_comm 1, List.drop_succ_cons, List.drop_left, hexponent]
      simp only [List.length_append, List.length_cons]
      omega
  | _ => exact absurd h (Language.notMem_zero s)

/-- **A number is read where one stands, and it is the longest.** -/
theorem longest_of_number (h : number t = .ok x) : Number.Longest t x.text x.kind := by
  have htext := (text_of_number h).1
  have hform := mem_form_of_number h
  refine ⟨htext ▸ List.take_prefix _ _, fun k => ⟨fun hk => ?_, fun hk => hk ▸ hform⟩, ?_⟩
  · rw [Number.kind_of_mem_form hk, ← Number.kind_of_mem_form hform]
  · rintro s k ⟨u, rfl⟩ hs
    obtain ⟨y, hy, hle⟩ := exists_number_of_mem_form hs u
    rw [h] at hy
    cases hy
    rwa [htext, List.length_take_of_le (size_le_of_number h)]

end Scanner

/-! ### The next token -/

namespace Lexer

variable {l : Lexer}

/-- Where a text begins like a number, nothing is skipped, and the scanner of numbers is chosen. -/
theorem scan_of_begins (hmode : l.mode = .turtle) (hbegins : Number.Begins l.rest) :
    l.skipBlank = l ∧ ∃ b rest, l.rest = b :: rest ∧
      Scanner.scan l.mode l.afterString b rest = Scanner.number l.rest := by
  obtain ⟨b, rest, hrest, hb⟩ := hbegins
  refine ⟨?_, b, rest, hrest, ?_⟩
  · have hblank : blankLength false l.rest = 0 := by
      rw [hrest]
      rcases hb with hb | rfl | rfl | ⟨rfl, -⟩
      · exact blankLength_of_isDigit hb rest
      · rfl
      · rfl
      · rfl
    rw [skipBlank, hblank, advance_zero]
  · rw [hmode, hrest]
    refine Scanner.scan_number _ ?_
    rcases hb with hb | hb | hb | ⟨hb, d, hd, hdigit⟩
    · exact .inr (.inl hb)
    · exact .inr (.inr (.inl hb))
    · exact .inr (.inr (.inr hb))
    · refine .inl ⟨hb, ?_⟩
      obtain ⟨rest, rfl⟩ := List.head?_eq_some_iff.mp hd
      rw [Scanner.digitCount, List.takeWhile_cons, hdigit]
      exact Nat.succ_pos _

theorem next_of_number (hmode : l.mode = .turtle) (hbegins : Number.Begins l.rest) {x : Lexeme}
    (hx : Scanner.number l.rest = .ok x) :
    l.next = (.ok ⟨x.kind, x.text, l.position, false⟩,
      { l.advance x.text.length with last := some x.kind }) := by
  obtain ⟨hskip, b, rest, hrest, hscan⟩ := scan_of_begins hmode hbegins
  obtain ⟨htext, hbare⟩ := Scanner.text_of_number hx
  rw [next_scan (by rw [hskip, hrest]) (hscan.trans hx), hskip, hbare, htext,
    List.length_take_of_le (Scanner.size_le_of_number hx)]

/-- The scanner of numbers passes over nothing where it fails. -/
theorem next_of_no_number (hmode : l.mode = .turtle) (hbegins : Number.Begins l.rest) {misfit : Misfit}
    (hmisfit : Scanner.number l.rest = .error misfit) :
    l.next = (.error ⟨l.position, misfit.char, misfit.detail⟩, l) := by
  obtain ⟨hskip, b, rest, hrest, hscan⟩ := scan_of_begins hmode hbegins
  rw [next_misfit (by rw [hskip, hrest]) (hscan.trans hmisfit), hskip]
  rw [Scanner.number] at hmisfit
  simp only at hmisfit
  split_ifs at hmisfit
  cases hmisfit
  rw [advance_zero]
  rfl

/-- **A number is the longest beginning of the text that has one of the forms**, and the lexer goes on
right behind it.  Where no beginning of the text has one of them, there is an error at the place of the
lexer, and the lexer stays there. -/
theorem number_is_longest_match (hmode : l.mode = .turtle) (hbegins : Number.Begins l.rest) :
    ((∃ s k, s <+: l.rest ∧ s ∈ Number.form k) → ∃ s k, Number.Longest l.rest s k ∧
      l.next = (.ok ⟨k, s, l.position, false⟩, { l.advance s.length with last := some k })) ∧
    ((∃ e, l.next.1 = .error e) ↔ ∀ s k, s <+: l.rest → s ∉ Number.form k) ∧
    (∀ e, l.next.1 = .error e → e.position = l.position ∧ l.next.2 = l) := by
  cases hnumber : Scanner.number l.rest with
  | ok x =>
    have hlongest := Scanner.longest_of_number hnumber
    have hform := (hlongest.form_iff x.kind).mpr rfl
    rw [next_of_number hmode hbegins hnumber]
    refine ⟨fun _ => ⟨x.text, x.kind, hlongest, rfl⟩, ⟨?_, fun hnone => ?_⟩, ?_⟩
    · rintro ⟨e, he⟩
      cases he
    · exact absurd hform (hnone _ _ hlongest.beginning)
    · intro e he
      cases he
  | error misfit =>
    have hnone : ∀ s k, s <+: l.rest → s ∉ Number.form k := by
      rintro s k ⟨u, hu⟩ hs
      obtain ⟨x, hx, -⟩ := Scanner.exists_number_of_mem_form hs u
      rw [hu, hnumber] at hx
      cases hx
    rw [next_of_no_number hmode hbegins hnumber]
    refine ⟨?_, iff_of_true ⟨_, rfl⟩ hnone, ?_⟩
    · rintro ⟨s, k, hprefix, hs⟩
      exact absurd hs (hnone s k hprefix)
    · intro e he
      cases he
      exact ⟨rfl, rfl⟩

/-- An exponent without digits is left, and so is a point behind a number that has one. -/
theorem number_is_longest_match_decimal :
    let l : Lexer := ⟨.turtle, "+.5e+.", ⟨7, 2, 3⟩, some .iriRef⟩
    l.mode = .turtle ∧ Number.Begins l.rest ∧ (∃ s k, Number.Longest l.rest s k ∧
      l.next = (.ok ⟨k, s, l.position, false⟩, { l.advance s.length with last := some k })) ∧
      l.next.1 = .ok ⟨.decimal, "+.5", ⟨7, 2, 3⟩, false⟩ := by
  intro l
  have hbegins : Number.Begins l.rest := ⟨_, _, rfl, .inr (.inl rfl)⟩
  refine ⟨rfl, hbegins, (number_is_longest_match rfl hbegins).1 ⟨"+.5", .decimal, ?_, ?_⟩, ?_⟩
  · decide
  · have hdigits : [53] ∈ Number.digits := ⟨[53], ⟨53, rfl, rfl⟩, [], Language.nil_mem_kstar _, rfl⟩
    exact Number.mem_decimal.mpr ⟨[Ascii.plus], Number.mem_sign.mpr (.inr (.inl rfl)), [],
      Language.nil_mem_kstar _, [53], hdigits, rfl⟩
  · decide

/-- A point directly in front of an exponent belongs to the number. -/
example : (Lexer.mk .turtle "1.e5." .start none).next.1 = .ok ⟨.double, "1.e5", .start, false⟩ := by
  rfl

/-- A sign alone is no number. -/
example : (Lexer.mk .turtle "-.e5" .start none).next.2 = ⟨.turtle, "-.e5", .start, none⟩ := by
  decide

end Lexer

end TripleStore
