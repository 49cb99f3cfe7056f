import TripleStore.Proofs.Text.Utf8
import TripleStore.Term.Render
import TripleStore.Term.Valid
import TripleStore.Token.Scanner

/-!
# Scanning what was written

The scanners of strings, IRIs and labels on the texts that the canonical spelling of terms puts
before them.  Each scanner is followed over one code point first, for any text behind it, and then
over a whole text.

* `stringBody_escapeLiteral`: the value of a literal is read up to its closing quote.
* `iriBody_escapeIri`: an IRI without forbidden bytes is read up to its closing bracket.
* `nameLength_eq_iff`: the texts that a label takes in as a whole.

A text in which something had to be escaped comes back with its stray bytes replaced
(`Render.readBack`).
-/

namespace TripleStore

namespace Render

/-- What is read back of a text that was written with escapes: the text itself where nothing had to
be escaped, and the text without stray bytes otherwise. -/
def readBack (escape? : ℕ → Option Text) (t : Text) : Text :=
  if t.any fun b => (escape? b.toNat).isSome then Utf8.repaired t else t

theorem readBack_eq_self_iff (escape? : ℕ → Option Text) (t : Text) :
    readBack escape? t = t ↔ Utf8.isWellFormed t = true ∨ ∀ b ∈ t, escape? b.toNat = none := by
  unfold readBack
  split_ifs with h
  · rw [Utf8.repaired_eq_self_iff]
    refine ⟨.inl, fun h' => h'.resolve_right fun hnone => ?_⟩
    obtain ⟨b, hb, hsome⟩ := List.any_eq_true.mp h
    rw [hnone b hb] at hsome
    exact absurd hsome (by decide)
  · refine iff_of_true rfl (.inr fun b hb => ?_)
    by_contra hsome
    exact h (List.any_eq_true.mpr ⟨b, hb, Option.isSome_iff_ne_none.mpr hsome⟩)

end Render

namespace Scanner

/-! ### Strings -/

theorem stringBody_skip (mark : UInt8) (long : Bool) (s t : Text) (n : ℕ) :
    stringBody mark long s.length n (s ++ t) = stringBody mark long 0 (n + s.length) t := by
  induction s generalizing n with
  | nil => rfl
  | cons a s ih =>
    rw [List.length_cons, List.cons_append, stringBody, ih, Nat.add_right_comm, Nat.add_assoc]

theorem ne_of_literalEscape?_eq_none {b : UInt8} (h : Render.literalEscape? b.toNat = none) :
    b ≠ Ascii.quote ∧ b ≠ Ascii.backslash ∧ b ≠ Ascii.lineFeed ∧ b ≠ Ascii.carriageReturn := by
  refine ⟨?_, ?_, ?_, ?_⟩
  all_goals
    intro hb
    rw [hb] at h
    exact absurd h (by decide)

theorem literalEscape?_high {b : UInt8} (h : 0x80 ≤ b.toNat) :
    Render.literalEscape? b.toNat = none := by
  unfold Render.literalEscape?
  split
  all_goals first | rfl | omega

theorem stringBody_plain {s t : Text} (hs : ∀ b ∈ s, Render.literalEscape? b.toNat = none) {n : ℕ}
    {value : Text} {size : ℕ}
    (h : stringBody Ascii.quote false 0 (n + s.length) t = .ok (value, size)) :
    stringBody Ascii.quote false 0 n (s ++ t) = .ok (s ++ value, size) := by
  induction s generalizing n with
  | nil => exact h
  | cons b s ih =>
    obtain ⟨h1, h2, h3, h4⟩ := ne_of_literalEscape?_eq_none (hs b List.mem_cons_self)
    have hrest := ih (fun c hc => hs c (List.mem_cons_of_mem b hc)) (n := n + 1) (by
      rw [← h, List.length_cons]; congr 1; omega)
    rw [List.cons_append, stringBody.eq_def]
    simp only [Bool.false_eq_true, false_and, if_false, not_false_eq_true, true_and, h1, h2, h3, h4,
      or_self, hrest]
    rfl

theorem stringBody_escape {x : UInt8} (hx : x ≠ 117 ∧ x ≠ 85) {n : ℕ} {t value : Text} {size : ℕ}
    (h : stringBody Ascii.quote false 0 (n + 2) t = .ok (value, size)) :
    stringBody Ascii.quote false 0 n (Ascii.backslash :: x :: t)
      = .ok (letterEscape x :: value, size) := by
  have hskip := stringBody_skip Ascii.quote false [x] t (n + 1)
  rw [List.length_singleton, List.singleton_append, h] at hskip
  rw [stringBody]
  simp only [Bool.false_eq_true, false_and, if_false, not_false_eq_true, true_and, hx.1, hx.2,
    or_self]
  rw [if_neg (by decide), if_neg (by decide), if_pos trivial, hskip]
  rfl

/-- The bytes that a code point is written with between quotes. -/
def spelledInString (c : ℕ) : Text := (Render.literalEscape? c).getD (encodeScalar c)

theorem literalEscape?_eq_some {c : ℕ} {e : Text} (h : Render.literalEscape? c = some e) :
    ∃ x : UInt8, e = [Ascii.backslash, x] ∧ x ≠ 117 ∧ x ≠ 85 ∧
      encodeScalar c = [letterEscape x] := by
  unfold Render.literalEscape? at h
  split at h
  · cases h; exact ⟨34, by decide⟩
  · cases h; exact ⟨92, by decide⟩
  · cases h; exact ⟨110, by decide⟩
  · cases h; exact ⟨114, by decide⟩
  · cases h; exact ⟨116, by decide⟩
  · cases h; exact ⟨98, by decide⟩
  · cases h; exact ⟨102, by decide⟩
  · cases h

/-- Reading one code point as it is written between quotes gives its bytes. -/
theorem stringBody_spelled {c : ℕ} {s : Text} (hs : Utf8.Spells c s) {n : ℕ} {t value : Text}
    {size : ℕ}
    (h : stringBody Ascii.quote false 0 (n + (spelledInString c).length) t = .ok (value, size)) :
    stringBody Ascii.quote false 0 n (spelledInString c ++ t)
      = .ok (encodeScalar c ++ value, size) := by
  unfold spelledInString at h ⊢
  cases he : Render.literalEscape? c with
  | some e =>
    obtain ⟨x, rfl, hx, hx', hc⟩ := literalEscape?_eq_some he
    rw [he] at h
    rw [hc]
    exact stringBody_escape ⟨hx, hx'⟩ h
  | none =>
    rw [he] at h
    rw [Option.getD_none]
    refine stringBody_plain (fun b hb => ?_) h
    rw [hs.encodeScalar_eq] at hb
    rcases hs.ascii_or_high with ⟨hlow, rfl⟩ | ⟨-, hhigh⟩
    · rw [List.mem_singleton] at hb
      subst hb
      rwa [Nat.toUInt8_eq, UInt8.toNat_ofNat', Nat.mod_eq_of_lt (by omega)]
    · exact literalEscape?_high (hhigh b hb)

theorem stringBody_spelledAll {cs : List ℕ} (hcs : ∀ c ∈ cs, ∃ s, Utf8.Spells c s) (n : ℕ)
    (rest : Text) :
    stringBody Ascii.quote false 0 n (cs.flatMap spelledInString ++ Ascii.quote :: rest)
      = .ok (cs.flatMap encodeScalar, n + (cs.flatMap spelledInString).length + 1) := by
  induction cs generalizing n with
  | nil =>
    rw [List.flatMap_nil, List.nil_append, stringBody.eq_def]
    simp
  | cons c cs ih =>
    obtain ⟨s, hs⟩ := hcs c List.mem_cons_self
    have hrest := ih (fun d hd => hcs d (List.mem_cons_of_mem c hd))
      (n + (spelledInString c).length)
    rw [List.flatMap_cons, List.flatMap_cons, List.append_assoc, stringBody_spelled hs hrest,
      List.length_append, Nat.add_assoc n]

/-- **A literal is read up to its closing quote.** -/
theorem stringBody_escapeLiteral (v rest : Text) (n : ℕ) :
    stringBody Ascii.quote false 0 n (escapeLiteral v ++ Ascii.quote :: rest)
      = .ok (Render.readBack Render.literalEscape? v, n + (escapeLiteral v).length + 1) := by
  unfold escapeLiteral Render.escapeWith Render.readBack
  split_ifs with h
  · exact stringBody_spelledAll (fun c hc => Utf8.exists_spells_of_mem hc) n rest
  · have hplain : ∀ b ∈ v, Render.literalEscape? b.toNat = none := by
      intro b hb
      by_contra hsome
      exact h (List.any_eq_true.mpr ⟨b, hb, Option.isSome_iff_ne_none.mpr hsome⟩)
    have hclose : stringBody Ascii.quote false 0 (n + v.length) (Ascii.quote :: rest)
        = .ok ([], n + v.length + 1) := by
      rw [stringBody.eq_def]
      simp
    rw [stringBody_plain hplain hclose, List.append_nil]

/-! ### IRIs -/

theorem iriBody_skip (s t : Text) (n : ℕ) :
    iriBody s.length n (s ++ t) = iriBody 0 (n + s.length) t := by
  induction s generalizing n with
  | nil => rfl
  | cons a s ih =>
    rw [List.length_cons, List.cons_append, iriBody, ih, Nat.add_right_comm, Nat.add_assoc]

theorem ne_of_isForbidden_eq_false {b : UInt8} (h : isForbidden b = false) :
    b ≠ Ascii.greaterThan ∧ b ≠ Ascii.backslash ∧ b ≠ Ascii.lineFeed ∧ b ≠ Ascii.carriageReturn ∧
      b ≠ Ascii.space ∧ b ≠ Ascii.tab ∧ b ≠ Ascii.lessThan ∧ b ≠ Ascii.quote := by
  refine ⟨?_, ?_, ?_, ?_, ?_, ?_, ?_, ?_⟩
  all_goals
    intro hb
    rw [hb] at h
    exact absurd h (by decide)

theorem isForbidden_high {b : UInt8} (h : 0x80 ≤ b.toNat) : isForbidden b = false := by
  rw [isForbidden, decide_eq_false_iff_not]
  intro hb
  rcases hb with rfl | rfl | rfl | rfl | rfl | rfl | rfl | rfl | rfl | rfl | rfl | rfl | rfl | rfl
    | rfl | rfl | rfl
  all_goals exact absurd h (by decide)

theorem iriBody_plain {s t : Text} (hs : ∀ b ∈ s, isForbidden b = false) {n : ℕ} {iri : Text}
    {size : ℕ} (h : iriBody 0 (n + s.length) t = .ok (iri, size)) :
    iriBody 0 n (s ++ t) = .ok (s ++ iri, size) := by
  induction s generalizing n with
  | nil => exact h
  | cons b s ih =>
    obtain ⟨h1, h2, h3, h4, h5, h6, h7, h8⟩ := ne_of_isForbidden_eq_false (hs b List.mem_cons_self)
    have hrest := ih (fun c hc => hs c (List.mem_cons_of_mem b hc)) (n := n + 1) (by
      rw [← h, List.length_cons]; congr 1; omega)
    rw [List.cons_append, iriBody]
    simp only [h1, h2, h3, h4, h5, h6, h7, h8, or_self, if_false, hrest]
    rfl

theorem iriEscape?_eq_some {c : ℕ} {e : Text} (h : Render.iriEscape? c = some e) :
    ∃ digits : Text, e = Ascii.backslash :: 117 :: digits ∧ digits.length = 4 ∧
      Hex.value? digits = some c ∧ Utf8.isScalar c = true := by
  unfold Render.iriEscape? at h
  split_ifs at h with hc
  cases h
  refine ⟨Hex.paddedUpper 4 c, ?_, ?_⟩
  · rfl
  · rcases hc with rfl | rfl | rfl | rfl | rfl | rfl | rfl | rfl | rfl | rfl
    all_goals decide

theorem iriBody_escape {c : ℕ} {digits t iri : Text} {n size : ℕ} (hlen : digits.length = 4)
    (hvalue : Hex.value? digits = some c) (hc : Utf8.isScalar c = true)
    (h : iriBody 0 (n + 6) t = .ok (iri, size)) :
    iriBody 0 n (Ascii.backslash :: 117 :: digits ++ t) = .ok (encodeScalar c ++ iri, size) := by
  have hnum : numericEscape (117 :: digits ++ t) = .ok (c, 5) := by
    rw [List.cons_append, numericEscape, if_pos (.inl rfl)]
    have htake : (digits ++ t).take 4 = digits := by rw [← hlen, List.take_left]
    simp only [if_pos, htake, hlen, lt_irrefl, if_false, hvalue, hc]
  have hskip := iriBody_skip (117 :: digits) t (n + 1)
  rw [List.length_cons, hlen] at hskip
  rw [List.cons_append, iriBody, if_neg (by decide), if_pos rfl, hnum]
  simp only
  rw [hskip, h]
  rfl

/-- The bytes that a code point is written with between angle brackets. -/
def spelledInIri (c : ℕ) : Text := (Render.iriEscape? c).getD (encodeScalar c)

/-- Reading one code point as it is written between angle brackets gives its bytes. -/
theorem iriBody_spelled {c : ℕ} {s : Text} (hs : Utf8.Spells c s)
    (hc : c < 0x80 → isForbidden c.toUInt8 = false) {n : ℕ} {t iri : Text} {size : ℕ}
    (h : iriBody 0 (n + (spelledInIri c).length) t = .ok (iri, size)) :
    iriBody 0 n (spelledInIri c ++ t) = .ok (encodeScalar c ++ iri, size) := by
  unfold spelledInIri at h ⊢
  cases he : Render.iriEscape? c with
  | some e =>
    obtain ⟨digits, rfl, hlen, hvalue, hscalar⟩ := iriEscape?_eq_some he
    rw [he, Option.getD_some, List.length_cons, List.length_cons, hlen] at h
    exact iriBody_escape hlen hvalue hscalar h
  | none =>
    rw [he] at h
    rw [Option.getD_none]
    refine iriBody_plain (fun b hb => ?_) h
    rw [hs.encodeScalar_eq] at hb
    rcases hs.ascii_or_high with ⟨hlow, rfl⟩ | ⟨-, hhigh⟩
    · rw [List.mem_singleton] at hb
      rw [hb]
      exact hc hlow
    · exact isForbidden_high (hhigh b hb)

theorem iriBody_spelledAll {cs : List ℕ}
    (hcs : ∀ c ∈ cs, (∃ s, Utf8.Spells c s) ∧ (c < 0x80 → isForbidden c.toUInt8 = false))
    (n : ℕ) (rest : Text) :
    iriBody 0 n (cs.flatMap spelledInIri ++ Ascii.greaterThan :: rest)
      = .ok (cs.flatMap encodeScalar, n + (cs.flatMap spelledInIri).length + 1) := by
  induction cs generalizing n with
  | nil =>
    rw [List.flatMap_nil, List.nil_append, iriBody, if_pos rfl]
    rfl
  | cons c cs ih =>
    obtain ⟨⟨s, hs⟩, hc⟩ := hcs c List.mem_cons_self
    have hrest := ih (fun d hd => hcs d (List.mem_cons_of_mem c hd)) (n + (spelledInIri c).length)
    rw [List.flatMap_cons, List.flatMap_cons, List.append_assoc, iriBody_spelled hs hc hrest,
      List.length_append, Nat.add_assoc n]

/-- **An IRI without forbidden bytes is read up to its closing bracket.** -/
theorem iriBody_escapeIri {i : Iri} (hi : ∀ b ∈ i, isForbidden b = false) (rest : Text) (n : ℕ) :
    iriBody 0 n (escapeIri i ++ Ascii.greaterThan :: rest)
      = .ok (Render.readBack Render.iriEscape? i, n + (escapeIri i).length + 1) := by
  unfold escapeIri Render.escapeWith Render.readBack
  split_ifs with h
  · exact iriBody_spelledAll (fun c hc => ⟨Utf8.exists_spells_of_mem hc,
      fun hlow => hi _ (Utf8.mem_of_mem_scalars hc hlow)⟩) n rest
  · have hclose : iriBody 0 (n + i.length) (Ascii.greaterThan :: rest)
        = .ok ([], n + i.length + 1) := by
      rw [iriBody, if_pos rfl]
    rw [iriBody_plain hi hclose, List.append_nil]

/-! ### Labels -/

theorem nameLength_skip (p : Bool) (s t : Text) (n best : ℕ) :
    nameLength p s.length n best (s ++ t) = nameLength p 0 (n + s.length) best t := by
  induction s generalizing n with
  | nil => rfl
  | cons a s ih =>
    rw [List.length_cons, List.cons_append, nameLength, ih, Nat.add_right_comm, Nat.add_assoc]

theorem nameLength_name {c : ℕ} {s : Text} (hs : Utf8.Spells c s) (hc : isNameScalar c = true)
    (n best : ℕ) (t : Text) :
    nameLength false 0 n best (s ++ t) = nameLength false 0 (n + s.length) (n + s.length) t := by
  obtain ⟨a, tail, rfl⟩ := List.exists_cons_of_ne_nil hs.ne_nil
  rw [List.cons_append, nameLength, hs.read_eq]
  simp only [Bool.false_eq_true, false_and, if_false, hc, true_or, if_true, Nat.add_sub_cancel]
  rw [nameLength_skip, List.length_cons]
  congr 1
  omega

theorem nameLength_dot (n best : ℕ) (t : Text) :
    nameLength false 0 n best (Ascii.dot :: t) = nameLength false 0 (n + 1) best t := by
  have hs : Utf8.Spells 46 [Ascii.dot] := Utf8.Spells.one (a := 46) (by decide)
  have hread := hs.read_eq t
  rw [List.nil_append] at hread
  rw [nameLength, hread]
  simp only [Bool.false_eq_true, false_and, if_false, or_false]
  rw [if_neg (by decide), if_pos trivial]

theorem nameLength_other {c : ℕ} {s : Text} (hs : Utf8.Spells c s) (hc : isNameScalar c = false)
    (hdot : c ≠ 46) (n best : ℕ) (t : Text) : nameLength false 0 n best (s ++ t) = best := by
  obtain ⟨a, tail, rfl⟩ := List.exists_cons_of_ne_nil hs.ne_nil
  have ha : a ≠ Ascii.dot := by
    rintro rfl
    rcases hs.ascii_or_high with ⟨hlow, heq⟩ | ⟨-, hhigh⟩
    · rw [List.cons.injEq] at heq
      have := congrArg UInt8.toNat heq.1
      rw [Nat.toUInt8_eq, UInt8.toNat_ofNat', Nat.mod_eq_of_lt (by omega)] at this
      exact hdot this.symm
    · exact absurd (hhigh _ List.mem_cons_self) (by decide)
  rw [List.cons_append, nameLength, hs.read_eq]
  simp only [Bool.false_eq_true, false_and, if_false, hc, or_self, ha]

theorem high_of_sequence?_eq_none {a : UInt8} {t : Text} (h : Utf8.sequence? a t = none) :
    0x80 ≤ a.toNat := by
  by_contra hlow
  have := (Utf8.Spells.one (a := a) (by omega)).sequence?_eq t
  rw [List.nil_append, h] at this
  cases this

/-- A byte that is not ASCII goes on with a label or a name, or ends it. -/
theorem nameLength_high {a : UInt8} (ha : 0x80 ≤ a.toNat) (named : Bool) (n best : ℕ) (t : Text) :
    nameLength named 0 n best (a :: t) =
      if isNameScalar (Utf8.read a t).1 then
        nameLength named ((Utf8.read a t).2 - 1) (n + 1) (n + (Utf8.read a t).2) t
      else best := by
  have hother : a ≠ Ascii.backslash ∧ a ≠ Ascii.colon ∧ a ≠ Ascii.percent ∧ a ≠ Ascii.dot := by
    refine ⟨?_, ?_, ?_, ?_⟩
    all_goals
      rintro rfl
      exact absurd ha (by decide)
  obtain ⟨hback, hcolon, hpercent, hdot⟩ := hother
  rw [nameLength]
  simp only [hback, hcolon, hpercent, hdot, false_and, and_false, or_false, if_false]

theorem nameLength_stray {named : Bool} {a : UInt8} {t : Text} (h : Utf8.sequence? a t = none)
    (n best : ℕ) : nameLength named 0 n best (a :: t) = best := by
  have hread : Utf8.read a t = (replacementScalar, 1) := by rw [Utf8.read, h]; rfl
  rw [nameLength_high (high_of_sequence?_eq_none h), hread, if_neg (by decide)]

/-- No byte of a name character is a dot. -/
theorem dot_not_mem_of_name {c : ℕ} {s : Text} (hs : Utf8.Spells c s) (hc : isNameScalar c = true) :
    Ascii.dot ∉ s := by
  intro hmem
  rcases hs.ascii_or_high with ⟨hlow, rfl⟩ | ⟨-, hhigh⟩
  · rw [List.mem_singleton] at hmem
    have hdot : (46 : ℕ) = c := by
      have := congrArg UInt8.toNat hmem
      rwa [Nat.toUInt8_eq, UInt8.toNat_ofNat', Nat.mod_eq_of_lt (by omega)] at this
    subst hdot
    exact absurd hc (by decide)
  · exact absurd (hhigh _ hmem) (by decide)

/-- A label or a name takes in no more than there is. -/
theorem nameLength_le {named : Bool} {skip n best : ℕ} {t : Text} (hskip : skip ≤ t.length)
    (hbest : best ≤ n + skip) : nameLength named skip n best t ≤ n + t.length := by
  fun_induction nameLength named skip n best t with
  | case1 skip n best => exact hbest.trans (Nat.add_le_add_left hskip n)
  | case2 skip n best b rest ih =>
    rw [List.length_cons] at hskip ⊢
    have := ih (by omega) (by omega)
    omega
  | case3 n best b rest c width hread hescape ih =>
    have hpos := List.length_pos_iff.mpr hescape.2.2
    rw [List.length_cons]
    have := ih (by omega) (by omega)
    omega
  | case4 n best b rest c width hread hescape hname ih =>
    obtain ⟨hpos, hwidth⟩ := Utf8.width_bounds hread
    rw [List.length_cons]
    have := ih (by omega) (by omega)
    omega
  | case5 n best rest c width hread hescape hname ih =>
    rw [List.length_cons]
    have := ih (by omega) (by omega)
    omega
  | case6 n best b rest c width hread hescape hname hdot => omega

/-- A label takes in a whole text if the text holds nothing but name characters and dots and does
not end in a dot. -/
theorem nameLength_eq_iff (t : Text) (n best : ℕ) (hbest : best ≤ n) :
    nameLength false 0 n best t = n + t.length ↔
      (∀ c ∈ Utf8.scalars t, isNameScalar c = true ∨ c = 46) ∧ t.getLast? ≠ some Ascii.dot ∧
        (t = [] → best = n) := by
  induction t using Utf8.sequence_induction generalizing n best with
  | nil => simp [nameLength, Utf8.scalars, Utf8.scalarsFrom]
  | spelled c s t hs ih =>
    rw [List.length_append, ← Nat.add_assoc, hs.scalars_append]
    simp only [List.mem_cons, forall_eq_or_imp, List.append_eq_nil_iff, hs.ne_nil, false_and,
      false_imp_iff, and_true]
    cases hc : isNameScalar c with
    | true =>
      rw [nameLength_name hs hc, ih (n + s.length) (n + s.length) le_rfl]
      simp only [true_or, true_and, imp_true_iff, and_true]
      have hlast : (s ++ t).getLast? ≠ some Ascii.dot ↔ t.getLast? ≠ some Ascii.dot := by
        have hs' : s.getLast? ≠ some Ascii.dot := fun h =>
          dot_not_mem_of_name hs hc (List.mem_of_getLast? h)
        rw [List.getLast?_append]
        cases t.getLast? <;> simp [hs']
      rw [hlast]
    | false =>
      by_cases hdot : c = 46
      · subst hdot
        rcases hs.ascii_or_high with ⟨-, rfl⟩ | ⟨hhigh, -⟩
        · have hstep := nameLength_dot n best t
          change nameLength false 0 n best (Ascii.dot :: t) = _ ↔ _
          rw [hstep]
          have := ih (n + 1) best (by omega)
          simp only [List.length_singleton, this, or_true, true_and]
          -- a final dot is given back, so something has to follow this one
          cases t with
          | nil => simp; omega
          | cons b t => simp
        · omega
      · rw [nameLength_other hs hc hdot]
        simp only [Bool.false_eq_true, hdot, or_self, false_and, iff_false]
        have := List.length_pos_iff.mpr hs.ne_nil
        omega
  | stray a t hs ih =>
    rw [nameLength_stray hs, Utf8.scalars_stray hs]
    simp only [List.mem_cons, forall_eq_or_imp, List.length_cons]
    refine iff_of_false (by omega) (fun h => ?_)
    exact absurd h.1.1 (by decide)

end Scanner

end TripleStore
