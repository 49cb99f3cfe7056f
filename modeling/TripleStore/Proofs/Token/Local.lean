import TripleStore.Proofs.Token.Modes
import TripleStore.Proofs.Token.Scanner

/-!
# What scanners look at

No scanner looks past white space or the sign of a comment: a token in front of one is read as at the
end of a text.  A number, a label or a name may give back bytes that it has looked at, and gives back
the same ones.  Only a backslash at the very end of a text is another matter: it is no part of a name,
while a backslash in front of a blank is.  Behind a name it is a dead end, where nothing can be read.

* `blankBytes`: the bytes that white space and comments begin with.
* `Scanner.number_seam`, `Scanner.iri_seam`, `Scanner.string_seam`, `Scanner.name_seam`: the scanners,
  in front of a blank, and how far they come.
* `Scanner.nameLength_seam`: **a name ends at the same place, unless it leaves a dead end.**
* `Scanner.scan_seam`: **a token in front of a blank is read as at the end of a text.**
* `Scanner.size_le`: no token is longer than the text that it begins.
* `blankLength_seam_of_lt`, `blankLength_seam_of_eq`: white space and comments with more text behind them.
-/

namespace TripleStore

/-! ### What scanners look at -/

/-- The bytes that white space and comments begin with. -/
def blankBytes : List UInt8 :=
  [Ascii.space, Ascii.tab, Ascii.lineFeed, Ascii.carriageReturn, Ascii.hash]

variable {c : UInt8}

/-- A property of all of these bytes. -/
@[elab_as_elim]
theorem of_mem_blankBytes {p : UInt8 → Prop} (hc : c ∈ blankBytes)
    (h : p Ascii.space ∧ p Ascii.tab ∧ p Ascii.lineFeed ∧ p Ascii.carriageReturn ∧ p Ascii.hash) :
    p c := by
  simp only [blankBytes, List.mem_cons, List.not_mem_nil, or_false] at hc
  rcases hc with rfl | rfl | rfl | rfl | rfl
  · exact h.1
  · exact h.2.1
  · exact h.2.2.1
  · exact h.2.2.2.1
  · exact h.2.2.2.2

namespace Utf8

/-- A blank is no part of a longer sequence. -/
theorem sequence?_seam (hc : c ∈ blankBytes) (a : UInt8) (rest w : Text) :
    sequence? a (rest ++ c :: w) = sequence? a rest := by
  have hsecond : isSecond a c = false := by
    by_contra h
    have hbounds := isSecond_bounds (Bool.not_eq_false _ ▸ h)
    have hascii : ¬ 0x80 ≤ c.toNat := of_mem_blankBytes hc (by decide)
    exact hascii hbounds.1
  have hcontinuation : Ascii.isContinuation c = false := of_mem_blankBytes hc (by decide)
  rcases rest with _ | ⟨b, _ | ⟨c, _ | ⟨d, rest⟩⟩⟩
  · rcases w with _ | ⟨x, _ | ⟨y, w⟩⟩
    all_goals simp [sequence?, hsecond]
  · rcases w with _ | ⟨x, w⟩
    all_goals simp [sequence?, hcontinuation]
  · simp [sequence?, hcontinuation]
  · simp [sequence?]

theorem read_seam (hc : c ∈ blankBytes) (a : UInt8) (rest w : Text) :
    read a (rest ++ c :: w) = read a rest := by
  rw [read, read, sequence?_seam hc]

theorem read_blank (hc : c ∈ blankBytes) (w : Text) : read c w = (c.toNat, 1) := by
  have hascii : c < 0x80 := of_mem_blankBytes hc (by decide)
  rw [read, sequence?.eq_def, if_pos hascii, Option.getD_some]

end Utf8

namespace Scanner

variable {mode : Mode} {after : Bool} {b mark : UInt8} {t rest : Text} {x : Lexeme}

theorem head?_seam (h : b ≠ c) (rest w : Text) :
    (rest ++ c :: w).head? = some b ↔ rest.head? = some b := by
  cases rest with
  | nil => simp [h.symm]
  | cons a rest => rfl

theorem takeWhile_seam {p : UInt8 → Bool} (hp : p c = false) (t w : Text) :
    (t ++ c :: w).takeWhile p = t.takeWhile p := by
  induction t with
  | nil => rw [List.nil_append, List.takeWhile_cons, hp]; rfl
  | cons a t ih => rw [List.cons_append, List.takeWhile_cons, List.takeWhile_cons, ih]

theorem runLength_seam (h : mark ≠ c) (t w : Text) :
    runLength mark (t ++ c :: w) = runLength mark t := by
  rw [runLength, runLength, takeWhile_seam (p := (· == mark)) (beq_false_of_ne h.symm)]

theorem runLength_le (mark : UInt8) (t : Text) : runLength mark t ≤ t.length :=
  (List.takeWhile_prefix _).length_le

/-! ### Numbers -/

theorem digitCount_seam (hc : c ∈ blankBytes) (t w : Text) :
    digitCount (t ++ c :: w) = digitCount t := by
  have hdigit : Ascii.isDigit c = false := of_mem_blankBytes hc (by decide)
  rw [digitCount, digitCount, takeWhile_seam hdigit]

theorem digitCount_le (t : Text) : digitCount t ≤ t.length :=
  (List.takeWhile_prefix _).length_le

theorem signLength_seam (hc : c ∈ blankBytes) (t w : Text) :
    signLength (t ++ c :: w) = signLength t := by
  have hsign : ¬ (c = Ascii.plus ∨ c = Ascii.minus) := of_mem_blankBytes hc (by decide)
  cases t with
  | nil => exact if_neg hsign
  | cons b t => rfl

theorem signLength_le (t : Text) : signLength t ≤ t.length := by
  cases t with
  | nil => exact le_rfl
  | cons b t =>
    rw [signLength, List.length_cons]
    split_ifs <;> omega

theorem exponentLength_seam (hc : c ∈ blankBytes) (t w : Text) :
    exponentLength (t ++ c :: w) = exponentLength t := by
  have hletter : ¬ (c = 101 ∨ c = 69) := of_mem_blankBytes hc (by decide)
  cases t with
  | nil => exact if_neg hletter
  | cons b t =>
    rw [List.cons_append, exponentLength, exponentLength]
    simp only [signLength_seam hc, List.drop_append_of_le_length (signLength_le t),
      digitCount_seam hc]

theorem exponentLength_le (t : Text) : exponentLength t ≤ t.length := by
  cases t with
  | nil => exact le_rfl
  | cons b t =>
    have hdigits := digitCount_le (t.drop (signLength t))
    have hsign := signLength_le t
    rw [List.length_drop] at hdigits
    rw [exponentLength, List.length_cons]
    simp only
    split_ifs <;> omega

theorem fractionLength_seam (hc : c ∈ blankBytes) (whole : ℕ) (t w : Text) :
    fractionLength whole (t ++ c :: w) = fractionLength whole t := by
  have hdot : c ≠ Ascii.dot := of_mem_blankBytes hc (by decide)
  cases t with
  | nil => exact if_neg hdot
  | cons b t =>
    rw [List.cons_append, fractionLength, fractionLength, digitCount_seam hc, exponentLength_seam hc]

theorem fractionLength_le (whole : ℕ) (t : Text) : fractionLength whole t ≤ t.length := by
  cases t with
  | nil => exact le_rfl
  | cons b t =>
    have hdigits := digitCount_le t
    rw [fractionLength, List.length_cons]
    split_ifs <;> omega

/-- The parts of a number stand one behind the other. -/
theorem mantissa_le (t : Text) :
    signLength t + digitCount (t.drop (signLength t)) ≤ t.length ∧
      signLength t + digitCount (t.drop (signLength t)) +
        fractionLength (digitCount (t.drop (signLength t)))
          (t.drop (signLength t + digitCount (t.drop (signLength t)))) ≤ t.length := by
  have hsign := signLength_le t
  have hwhole := digitCount_le (t.drop (signLength t))
  rw [List.length_drop] at hwhole
  have hfraction := fractionLength_le (digitCount (t.drop (signLength t)))
    (t.drop (signLength t + digitCount (t.drop (signLength t))))
  rw [List.length_drop] at hfraction
  omega

theorem size_le_of_number (h : number t = .ok x) : x.size ≤ t.length := by
  have hmantissa := (mantissa_le t).2
  rw [number] at h
  simp only at h
  split_ifs at h
  all_goals
    cases h
    have hexponent := exponentLength_le (t.drop (signLength t + digitCount (t.drop (signLength t)) +
      fractionLength (digitCount (t.drop (signLength t)))
        (t.drop (signLength t + digitCount (t.drop (signLength t))))))
    rw [List.length_drop] at hexponent
    simp only
    omega

theorem number_seam (hc : c ∈ blankBytes) (h : number t = .ok x) (w : Text) :
    number (t ++ c :: w) = .ok x := by
  obtain ⟨hwhole, hmantissa⟩ := mantissa_le t
  have hsize := size_le_of_number h
  rw [number] at h ⊢
  simp only [signLength_seam hc, List.drop_append_of_le_length (signLength_le t), digitCount_seam hc,
    List.drop_append_of_le_length hwhole, fractionLength_seam hc,
    List.drop_append_of_le_length hmantissa, exponentLength_seam hc] at h ⊢
  split_ifs at h ⊢
  all_goals
    cases h
    rw [List.take_append_of_le_length hsize]

/-! ### IRIs and strings -/

theorem numericEscape_append {p : ℕ × ℕ} (h : numericEscape rest = .ok p) (u : Text) :
    numericEscape (rest ++ u) = .ok p := by
  cases rest with
  | nil => cases h
  | cons mark rest =>
    rw [List.cons_append, numericEscape]
    rw [numericEscape] at h
    by_cases hmark : mark = 117 ∨ mark = 85
    swap
    · rw [if_neg hmark] at h
      cases h
    rw [if_pos hmark] at h ⊢
    generalize (if mark = 117 then 4 else 8) = count at h ⊢
    simp only at h ⊢
    by_cases hshort : (rest.take count).length < count
    · rw [if_pos hshort] at h
      cases h
    have hcount : count ≤ rest.length := by
      rw [List.length_take] at hshort
      omega
    rwa [List.take_append_of_le_length hcount]

/-- An IRI that is closed is the same whatever stands behind it. -/
theorem iriBody_append {skip n : ℕ} {p : Text × ℕ} (h : iriBody skip n t = .ok p) (u : Text) :
    iriBody skip n (t ++ u) = .ok p ∧ p.2 ≤ n + t.length := by
  fun_induction iriBody skip n t generalizing p with
  | case1 => cases h
  | case2 n skip b rest ih =>
    obtain ⟨hbody, hle⟩ := ih h
    rw [List.length_cons]
    exact ⟨hbody, by omega⟩
  | case3 n rest =>
    cases h
    rw [List.cons_append, iriBody, if_pos rfl, List.length_cons]
    exact ⟨rfl, by simp only; omega⟩
  | case4 => cases h
  | case5 n rest code width hcode hb ih =>
    obtain ⟨q, hq, rfl⟩ := map_eq_ok.mp h
    obtain ⟨hbody, hle⟩ := ih hq
    rw [List.cons_append, iriBody, if_neg hb, if_pos rfl, numericEscape_append hcode, List.length_cons]
    exact ⟨map_eq_ok.mpr ⟨q, hbody, rfl⟩, by simp only; omega⟩
  | case6 => cases h
  | case7 => cases h
  | case8 n b rest h1 h2 h3 h4 ih =>
    obtain ⟨q, hq, rfl⟩ := map_eq_ok.mp h
    obtain ⟨hbody, hle⟩ := ih hq
    rw [List.cons_append, iriBody, if_neg h1, if_neg h2, if_neg h3, if_neg h4, List.length_cons]
    exact ⟨map_eq_ok.mpr ⟨q, hbody, rfl⟩, by simp only; omega⟩

/-- A string that is closed is the same in front of a byte that makes no run of quotes longer. -/
theorem stringBody_seam (hmark : mark ≠ c) {long : Bool} {skip n : ℕ} {p : Text × ℕ}
    (h : stringBody mark long skip n t = .ok p) (w : Text) :
    stringBody mark long skip n (t ++ c :: w) = .ok p ∧ p.2 ≤ n + t.length := by
  fun_induction stringBody mark long skip n t generalizing p with
  | case1 => cases h
  | case2 n skip b rest ih =>
    obtain ⟨hbody, hle⟩ := ih h
    rw [List.length_cons]
    exact ⟨hbody, by omega⟩
  | case3 n b rest hb =>
    cases h
    have hrun := runLength_le mark rest
    rw [List.cons_append, stringBody.eq_def, List.length_cons]
    simp only [runLength_seam hmark, if_pos hb]
    exact ⟨trivial, by omega⟩
  | case4 n b rest h1 h2 =>
    cases h
    rw [List.cons_append, stringBody.eq_def, List.length_cons]
    simp only [runLength_seam hmark, if_neg h1, if_pos h2]
    exact ⟨trivial, by omega⟩
  | case5 => cases h
  | case6 => cases h
  | case7 n next rest hnext char detail h1 h2 hcode h3 =>
    simp only [hcode] at h
    cases h
  | case8 n next rest hnext code width h1 h2 hcode h3 ih =>
    simp only [hcode] at h
    obtain ⟨q, hq, rfl⟩ := map_eq_ok.mp h
    obtain ⟨hbody, hle⟩ := ih hq
    have hrun := runLength_seam hmark (next :: rest) w
    have hcode' := numericEscape_append hcode (c :: w)
    rw [List.cons_append] at hrun hcode' hbody
    rw [List.cons_append, List.cons_append, stringBody.eq_def, List.length_cons]
    simp only [hrun, if_neg h1, if_neg h2, if_neg h3, if_true, if_pos hnext, hcode', hbody]
    exact ⟨rfl, by omega⟩
  | case9 n next rest h1 h2 h3 hnext ih =>
    obtain ⟨q, hq, rfl⟩ := map_eq_ok.mp h
    obtain ⟨hbody, hle⟩ := ih hq
    have hrun := runLength_seam hmark (next :: rest) w
    rw [List.cons_append] at hrun hbody
    rw [List.cons_append, List.cons_append, stringBody.eq_def, List.length_cons]
    simp only [hrun, if_neg h1, if_neg h2, if_neg h3, if_neg hnext, if_true, hbody]
    exact ⟨rfl, by omega⟩
  | case10 n b rest h1 h2 h3 h4 ih =>
    obtain ⟨q, hq, rfl⟩ := map_eq_ok.mp h
    obtain ⟨hbody, hle⟩ := ih hq
    rw [List.cons_append, stringBody.eq_def, List.length_cons]
    simp only [runLength_seam hmark, if_neg h1, if_neg h2, if_neg h3, if_neg h4]
    exact ⟨map_eq_ok.mpr ⟨q, hbody, rfl⟩, by omega⟩

theorem iri_seam (h : iri mode rest = .ok x) (w : Text) :
    iri mode (rest ++ c :: w) = .ok x ∧ x.size ≤ rest.length + 1 := by
  obtain ⟨p, hp, rfl⟩ := map_eq_ok.mp h
  obtain ⟨hbody, hle⟩ := iriBody_append hp (c :: w)
  exact ⟨map_eq_ok.mpr ⟨p, hbody, rfl⟩, by simp only; omega⟩

theorem string_seam (hmark : mark ≠ c) (h : string mode mark rest = .ok x) (w : Text) :
    string mode mark (rest ++ c :: w) = .ok x ∧ x.size ≤ rest.length + 1 := by
  rw [string] at h ⊢
  rw [runLength_seam hmark]
  split_ifs at h ⊢ with hlong
  · obtain ⟨p, hp, rfl⟩ := map_eq_ok.mp h
    obtain ⟨hbody, hle⟩ := stringBody_seam hmark hp w
    have hrun := runLength_le mark rest
    rw [List.length_drop] at hle
    rw [List.drop_append_of_le_length (by omega)]
    exact ⟨map_eq_ok.mpr ⟨p, hbody, rfl⟩, by simp only; omega⟩
  · obtain ⟨p, hp, rfl⟩ := map_eq_ok.mp h
    obtain ⟨hbody, hle⟩ := stringBody_seam hmark hp w
    exact ⟨map_eq_ok.mpr ⟨p, hbody, rfl⟩, by simp only; omega⟩

theorem afterAt_seam (hc : c ∈ blankBytes) (h : afterAt mode after rest = .ok x) (w : Text) :
    afterAt mode after (rest ++ c :: w) = .ok x ∧ x.size ≤ rest.length + 1 := by
  have hword : (rest.takeWhile isTagByte).length ≤ rest.length :=
    (List.takeWhile_prefix _).length_le
  have htag : isTagByte c = false := of_mem_blankBytes hc (by decide)
  rw [afterAt] at h ⊢
  rw [takeWhile_seam htag]
  split_ifs at h ⊢
  all_goals
    cases h
    exact ⟨rfl, Nat.succ_le_succ hword⟩

/-! ### Labels and names -/

/-- Dots, and a backslash that ends the text: no token can be read there. -/
def DeadEnd (t : Text) : Prop := ∃ k, t = List.replicate k Ascii.dot ++ [Ascii.backslash]

theorem deadEnd_cons (h : DeadEnd t) : DeadEnd (Ascii.dot :: t) := by
  obtain ⟨k, rfl⟩ := h
  exact ⟨k + 1, rfl⟩

/-- A place behind the first byte, counted from in front of it. -/
theorem drop_cons_sub {n m : ℕ} (h : n + 1 ≤ m) (b : UInt8) (t : Text) :
    (b :: t).drop (m - n) = t.drop (m - (n + 1)) := by
  obtain ⟨k, rfl⟩ := Nat.exists_eq_add_of_le h
  rw [Nat.add_sub_cancel_left, Nat.add_assoc, Nat.add_sub_cancel_left, Nat.add_comm, List.drop_succ_cons]

/-- **A label or a name ends in front of a blank as it does at the end of a text**, unless what it
leaves is a dead end. -/
theorem nameLength_seam (hc : c ∈ blankBytes) (named : Bool) {skip n best : ℕ}
    (hskip : skip ≤ t.length) (w : Text) (hbest : best ≤ n + skip) :
    nameLength named skip n best (t ++ c :: w) = nameLength named skip n best t ∨
      (named = true ∧
        DeadEnd (t.drop (max (nameLength named skip n best t) (n + skip) - n))) := by
  fun_induction nameLength named skip n best t with
  | case1 skip n best =>
    obtain rfl : skip = 0 := Nat.le_zero.mp hskip
    have hback : c ≠ Ascii.backslash := of_mem_blankBytes hc (by decide)
    have hscalar : ¬ isNameScalar c.toNat = true := of_mem_blankBytes hc (by decide)
    have hname : ¬ (c = Ascii.colon ∨ c = Ascii.percent) := of_mem_blankBytes hc (by decide)
    have hdot : c ≠ Ascii.dot := of_mem_blankBytes hc (by decide)
    refine .inl ?_
    rw [List.nil_append, nameLength, Utf8.read_blank hc]
    simp only
    rw [if_neg fun h => hback h.2.1, if_neg fun h => h.elim hscalar fun h => hname h.2, if_neg hdot]
  | case2 skip n best b rest ih =>
    rw [List.cons_append, nameLength]
    have hshift : n + 1 + skip = n + (skip + 1) := by omega
    refine (ih (Nat.le_of_succ_le_succ hskip) (by omega)).imp_right fun h => ⟨h.1, ?_⟩
    rw [drop_cons_sub (by omega), ← hshift]
    exact h.2
  | case3 n best b rest scalar width hread hescape ih =>
    have hstep : nameLength named 0 n best (b :: (rest ++ c :: w))
        = nameLength named 1 (n + 1) (n + 2) (rest ++ c :: w) := by
      rw [nameLength, Utf8.read_seam hc, hread]
      exact if_pos ⟨hescape.1, hescape.2.1,
        List.append_ne_nil_of_right_ne_nil _ (List.cons_ne_nil _ _)⟩
    have hle : n + 2 ≤ nameLength named 1 (n + 1) (n + 2) rest := le_nameLength le_rfl
    rw [List.cons_append, hstep]
    refine (ih (List.length_pos_iff.mpr hescape.2.2) le_rfl).imp_right fun h => ⟨h.1, ?_⟩
    rw [Nat.max_eq_left (by omega)] at h ⊢
    rw [drop_cons_sub (by omega)]
    exact h.2
  | case4 n best b rest scalar width hread hescape hname ih =>
    obtain ⟨hpos, hwidth⟩ := Utf8.width_bounds hread
    have hback : b ≠ Ascii.backslash := by
      rintro rfl
      cases hread
      rcases hname with hname | ⟨-, hname⟩
      · exact absurd hname (by decide)
      · exact absurd hname (by decide)
    have hstep : nameLength named 0 n best (b :: (rest ++ c :: w))
        = nameLength named (width - 1) (n + 1) (n + width) (rest ++ c :: w) := by
      rw [nameLength, Utf8.read_seam hc, hread]
      simp only
      rw [if_neg (fun h => hback h.2.1), if_pos hname]
    have hle : n + width ≤ nameLength named (width - 1) (n + 1) (n + width) rest :=
      le_nameLength (by omega)
    rw [List.cons_append, hstep]
    refine (ih (by omega) (by omega)).imp_right fun h => ⟨h.1, ?_⟩
    rw [Nat.max_eq_left (by omega)] at h ⊢
    rw [drop_cons_sub (by omega)]
    exact h.2
  | case5 n best rest scalar width hread hescape hname ih =>
    have hstep : nameLength named 0 n best (Ascii.dot :: (rest ++ c :: w))
        = nameLength named 0 (n + 1) best (rest ++ c :: w) := by
      rw [nameLength, Utf8.read_seam hc, hread]
      simp only
      rw [if_neg (fun h => absurd h.2.1 (by decide)), if_neg hname, if_pos trivial]
    rw [List.cons_append, hstep]
    refine (ih (Nat.zero_le _) (by omega)).imp_right fun h => ⟨h.1, ?_⟩
    rcases Nat.lt_or_ge n (nameLength named 0 (n + 1) best rest) with hlt | hge
    · rw [Nat.max_eq_left (by omega)] at h ⊢
      rw [drop_cons_sub (by omega)]
      exact h.2
    · rw [Nat.max_eq_right (by omega), Nat.add_zero, Nat.sub_self, List.drop_zero] at h ⊢
      exact deadEnd_cons h.2
  | case6 n best b rest scalar width hread hescape hname hdot =>
    by_cases hback : named = true ∧ b = Ascii.backslash
    · obtain ⟨hnamed, rfl⟩ := hback
      have hrest : rest = [] := by
        by_contra hne
        exact hescape ⟨hnamed, rfl, hne⟩
      subst hrest
      refine .inr ⟨hnamed, ?_⟩
      rw [Nat.max_eq_right hbest, Nat.add_zero, Nat.sub_self]
      exact ⟨0, rfl⟩
    · refine .inl ?_
      rw [List.cons_append, nameLength, Utf8.read_seam hc, hread]
      simp only
      rw [if_neg (fun h => hback ⟨h.1, h.2.1⟩), if_neg hname, if_neg hdot]

theorem blankLabel_seam (hc : c ∈ blankBytes) (h : 2 ≤ t.length) (w : Text) :
    blankLabel (t ++ c :: w) = blankLabel t ∧ (blankLabel t).size ≤ t.length := by
  have hsize : nameLength false 0 2 2 (t.drop 2) ≤ 2 + (t.drop 2).length :=
    nameLength_le (Nat.zero_le _) le_rfl
  have hseam := nameLength_seam hc false (Nat.zero_le (t.drop 2).length) w (Nat.le_refl (2 + 0))
  rw [List.length_drop, Nat.add_sub_cancel' h] at hsize
  rw [or_iff_left (fun h => Bool.false_ne_true h.1)] at hseam
  refine ⟨?_, hsize⟩
  rw [blankLabel, blankLabel, List.drop_append_of_le_length h, hseam,
    List.take_append_of_le_length hsize]

theorem name_seam (hc : c ∈ blankBytes) (h : name t = .ok x) (hend : ¬ DeadEnd (t.drop x.size)) (w : Text) :
    name (t ++ c :: w) = .ok x ∧ x.size ≤ t.length := by
  have hsize : nameLength true 0 0 0 t ≤ 0 + t.length := nameLength_le (Nat.zero_le _) le_rfl
  have hseam := nameLength_seam hc true (Nat.zero_le t.length) w (Nat.le_refl (0 + 0))
  rw [Nat.zero_add] at hsize
  rw [size_of_name h] at hend ⊢
  rw [Nat.add_zero, Nat.max_eq_left (Nat.zero_le _), Nat.sub_zero,
    or_iff_left (fun h => hend h.2)] at hseam
  refine ⟨?_, hsize⟩
  rw [name] at h ⊢
  rwa [hseam, List.take_append_of_le_length hsize]

/-- No token begins with a backslash. -/
theorem scan_backslash (mode : Mode) (after : Bool) (v : Text) : scan mode after Ascii.backslash v =
    .error ⟨0, Utf8.firstScalar (Ascii.backslash :: v), "unexpected character", 0⟩ := by
  cases mode <;> rfl

/-- In front of dots and a backslash a dot is a full stop. -/
theorem scan_dots (k : ℕ) (v : Text) :
    scan mode after Ascii.dot (List.replicate k Ascii.dot ++ Ascii.backslash :: v)
      = .ok (single .period Ascii.dot) := by
  have hzero : digitCount (List.replicate k Ascii.dot ++ Ascii.backslash :: v) = 0 := by
    refine digitCount_eq_zero fun b hb => ?_
    cases k with
    | zero => cases hb; decide
    | succ k => cases hb; decide
  show (if mode = .turtle ∧ 0 < digitCount _ then _ else _) = _
  rw [hzero, if_neg fun h => absurd h.2 (Nat.lt_irrefl 0)]

/-! ### All tokens -/

theorem scanTurtle_seam (hc : c ∈ blankBytes) (h : scanTurtle b rest = .ok x)
    (hend : ¬ DeadEnd ((b :: rest).drop x.size)) (w : Text) :
    scanTurtle b (rest ++ c :: w) = .ok x ∧ x.size ≤ rest.length + 1 := by
  rw [scanTurtle] at h ⊢
  cases hb : bracket? b with
  | some kind =>
    rw [hb] at h
    cases h
    exact ⟨rfl, Nat.succ_le_succ (Nat.zero_le _)⟩
  | none =>
    rw [hb] at h
    simp only at h ⊢
    split_ifs at h ⊢
    · exact ⟨number_seam hc h w, size_le_of_number h⟩
    · exact name_seam hc h hend w

/-- **A token in front of a blank is read as at the end of a text**, unless what it leaves there is a
dead end. -/
theorem scan_seam (hc : c ∈ blankBytes) (h : scan mode after b rest = .ok x)
    (hend : ¬ DeadEnd ((b :: rest).drop x.size)) (w : Text) :
    scan mode after b (rest ++ c :: w) = .ok x ∧ x.size ≤ rest.length + 1 := by
  have hone : 1 ≤ rest.length + 1 := Nat.succ_le_succ (Nat.zero_le _)
  have hmarks : Ascii.colon ≠ c ∧ Ascii.caret ≠ c ∧ Ascii.quote ≠ c ∧ Ascii.apostrophe ≠ c :=
    of_mem_blankBytes hc (by decide)
  -- the blank is no colon behind an underscore and no caret behind a caret
  have hhead : rest.head? = some Ascii.colon ∨ rest.head? = some Ascii.caret → 1 ≤ rest.length := by
    cases rest with
    | nil => exact fun h => h.elim nofun nofun
    | cons a rest => exact fun _ => Nat.succ_le_succ (Nat.zero_le _)
  rw [scan] at h ⊢
  simp only [head?_seam hmarks.1, head?_seam hmarks.2.1, digitCount_seam hc]
  by_cases hiri : b = Ascii.lessThan
  · rw [if_pos hiri] at h ⊢
    exact iri_seam h w
  rw [if_neg hiri] at h ⊢
  by_cases hlabel : b = Ascii.underscore ∧ rest.head? = some Ascii.colon
  · rw [if_pos hlabel] at h ⊢
    have htwo := hhead (.inl hlabel.2)
    cases h
    obtain ⟨heq, hle⟩ := blankLabel_seam hc (t := b :: rest) (Nat.succ_le_succ htwo) w
    exact ⟨congrArg _ heq, hle⟩
  rw [if_neg hlabel] at h ⊢
  by_cases hquote : b = Ascii.quote
  · rw [if_pos hquote] at h ⊢
    exact string_seam (hquote ▸ hmarks.2.2.1) h w
  rw [if_neg hquote] at h ⊢
  by_cases hsingle : b = Ascii.apostrophe ∧ mode = .turtle
  · rw [if_pos hsingle] at h ⊢
    exact string_seam (hsingle.1 ▸ hmarks.2.2.2) h w
  rw [if_neg hsingle] at h ⊢
  by_cases htag : b = Ascii.atSign
  · rw [if_pos htag] at h ⊢
    exact afterAt_seam hc h w
  rw [if_neg htag] at h ⊢
  by_cases hcaret : b = Ascii.caret
  · rw [if_pos hcaret] at h ⊢
    by_cases hcarets : rest.head? = some Ascii.caret
    · rw [if_pos hcarets] at h ⊢
      have htwo := hhead (.inr hcarets)
      cases h
      exact ⟨rfl, Nat.succ_le_succ htwo⟩
    · rw [if_neg hcarets] at h
      cases h
  rw [if_neg hcaret] at h ⊢
  by_cases hdot : b = Ascii.dot
  · rw [if_pos hdot] at h ⊢
    split_ifs at h ⊢
    · exact ⟨number_seam hc h w, size_le_of_number h⟩
    · cases h
      exact ⟨rfl, hone⟩
  rw [if_neg hdot] at h ⊢
  by_cases hsemicolon : b = Ascii.semicolon
  · rw [if_pos hsemicolon] at h ⊢
    cases h
    exact ⟨rfl, hone⟩
  rw [if_neg hsemicolon] at h ⊢
  by_cases hcomma : b = Ascii.comma
  · rw [if_pos hcomma] at h ⊢
    cases h
    exact ⟨rfl, hone⟩
  rw [if_neg hcomma] at h ⊢
  by_cases hmode : mode = .turtle
  · rw [if_pos hmode] at h ⊢
    exact scanTurtle_seam hc h hend w
  · rw [if_neg hmode] at h
    cases h

/-- **No token is longer than the text that it begins.** -/
theorem size_le (h : scan mode after b rest = .ok x) : x.size ≤ rest.length + 1 := by
  have hone : 1 ≤ rest.length + 1 := Nat.succ_le_succ (Nat.zero_le _)
  have hquote : Ascii.quote ≠ Ascii.lineFeed := by decide
  have hapostrophe : Ascii.apostrophe ≠ Ascii.lineFeed := by decide
  have hblank : Ascii.lineFeed ∈ blankBytes := by decide
  have hname : ∀ {t : Text} {y : Lexeme}, name t = .ok y → y.size ≤ t.length := by
    intro t y hy
    rw [size_of_name hy, ← Nat.zero_add t.length]
    exact nameLength_le (Nat.zero_le _) le_rfl
  cases scanned_of_scan h with
  | iri h => exact (iri_seam (c := Ascii.lineFeed) h []).2
  | label hcolon =>
    obtain ⟨rest, rfl⟩ := List.head?_eq_some_iff.mp hcolon
    exact (blankLabel_seam (t := Ascii.underscore :: Ascii.colon :: rest) hblank
      (Nat.le_add_left 2 rest.length) []).2
  | string h => exact (string_seam hquote h []).2
  | singleQuoted _ h => exact (string_seam hapostrophe h []).2
  | tag h => exact (afterAt_seam hblank h []).2
  | typeTag hcaret =>
    obtain ⟨rest, rfl⟩ := List.head?_eq_some_iff.mp hcaret
    exact Nat.le_add_left 2 rest.length
  | fraction _ h => exact size_le_of_number h
  | period => exact hone
  | semicolon => exact hone
  | comma => exact hone
  | other _ h =>
    rw [scanTurtle] at h
    split at h
    · cases h
      exact hone
    · split_ifs at h
      · exact size_le_of_number h
      · exact hname h

end Scanner

/-! ### White space -/

section Blank

variable {comment : Bool} {t : Text}

theorem blankLength_le (comment : Bool) (t : Text) : blankLength comment t ≤ t.length := by
  fun_induction blankLength comment t with
  | case1 => exact le_rfl
  | case2 => rw [List.length_cons]; omega
  | case3 => rw [List.length_cons]; omega
  | case4 => rw [List.length_cons]; omega
  | case5 => rw [List.length_cons]; omega
  | case6 => exact Nat.zero_le _

/-- White space and comments that end before the text does end there with more text behind it. -/
theorem blankLength_seam_of_lt (h : blankLength comment t < t.length) (w : Text) :
    blankLength comment (t ++ w) = blankLength comment t := by
  fun_induction blankLength comment t with
  | case1 => exact absurd h (Nat.lt_irrefl 0)
  | case2 rest ih =>
    rw [List.length_cons] at h
    rw [List.cons_append, blankLength, if_pos rfl, ih (by omega)]
  | case3 b rest hb ih =>
    rw [List.length_cons] at h
    rw [List.cons_append, blankLength, if_neg hb, ih (by omega)]
  | case4 b rest hb ih =>
    rw [List.length_cons] at h
    rw [List.cons_append, blankLength, if_pos hb, ih (by omega)]
  | case5 rest hb ih =>
    rw [List.length_cons] at h
    rw [List.cons_append, blankLength, if_neg hb, if_pos rfl, ih (by omega)]
  | case6 b rest hb hb' => rw [List.cons_append, blankLength, if_neg hb, if_neg hb']

/-- White space and comments up to the end of a text go on behind it; the line feed ends a
comment. -/
theorem blankLength_seam_of_eq (h : blankLength comment t = t.length) (w : Text) :
    blankLength comment (t ++ Ascii.lineFeed :: w) = t.length + (1 + blankLength false w) := by
  fun_induction blankLength comment t with
  | case1 comment =>
    cases comment with
    | false => rw [List.nil_append, blankLength, if_pos (by decide), List.length_nil, Nat.zero_add]
    | true => rw [List.nil_append, blankLength, if_pos rfl, List.length_nil, Nat.zero_add]
  | case2 rest ih =>
    rw [List.length_cons] at h ⊢
    rw [List.cons_append, blankLength, if_pos rfl, ih (by omega)]
    omega
  | case3 b rest hb ih =>
    rw [List.length_cons] at h ⊢
    rw [List.cons_append, blankLength, if_neg hb, ih (by omega)]
    omega
  | case4 b rest hb ih =>
    rw [List.length_cons] at h ⊢
    rw [List.cons_append, blankLength, if_pos hb, ih (by omega)]
    omega
  | case5 rest hb ih =>
    rw [List.length_cons] at h ⊢
    rw [List.cons_append, blankLength, if_neg hb, if_pos rfl, ih (by omega)]
    omega
  | case6 b rest hb hb' => cases h

end Blank

end TripleStore
