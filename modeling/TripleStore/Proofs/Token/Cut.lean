import TripleStore.Proofs.Token.Local

/-!
# A token is told by its own bytes

What stands behind a token decides where the token ends, but nothing else: cut off anywhere behind the
token, the text begins with the same token.  A scanner that looks further finds less there than it
found before, and so gives back what it gave back before.

* `takeWhile_cut`, `le_takeWhile_append`: runs of bytes, with and without more behind them.
* `Scanner.number_cut`, `Scanner.iriBody_cut`, `Scanner.stringBody_cut`, `Scanner.nameLength_cut`: the
  scanners, cut off behind what they take.
* `Scanner.scan_cut`: **a token is read from its own bytes.**
* `blankLength_cut`: white space and comments, cut off behind where they end.
-/

namespace TripleStore

/-! ### Runs of bytes -/

section Runs

variable {p : UInt8 → Bool} {t v : Text}

/-- A run that ends within a text is not made longer by what stands behind. -/
theorem takeWhile_cut (h : ((t ++ v).takeWhile p).length ≤ t.length) :
    (t ++ v).takeWhile p = t.takeWhile p := by
  induction t with
  | nil => exact List.eq_nil_of_length_eq_zero (Nat.le_zero.mp h)
  | cons b t ih =>
    rw [List.cons_append, List.takeWhile_cons] at h ⊢
    rw [List.takeWhile_cons]
    cases hb : p b with
    | false => rfl
    | true =>
      rw [hb, if_pos rfl, List.length_cons, List.length_cons] at h
      rw [if_pos rfl, if_pos rfl, ih (Nat.le_of_succ_le_succ h)]

theorem le_takeWhile_append (p : UInt8 → Bool) (t v : Text) :
    (t.takeWhile p).length ≤ ((t ++ v).takeWhile p).length := by
  induction t with
  | nil => exact Nat.zero_le _
  | cons b t ih =>
    rw [List.cons_append, List.takeWhile_cons, List.takeWhile_cons]
    cases p b with
    | false => exact le_rfl
    | true => exact Nat.succ_le_succ ih

end Runs

namespace Utf8

/-- A sequence is told by its own bytes. -/
theorem sequence?_cut {a : UInt8} {t v : Text} {c width : ℕ}
    (h : sequence? a (t ++ v) = some (c, width)) (hle : width ≤ t.length + 1) :
    sequence? a t = some (c, width) := by
  obtain ⟨tail, htail, rfl, hspells⟩ := sequence?_spells h
  have hprefix : tail <+: t :=
    List.prefix_of_prefix_length_le ⟨_, htail.symm⟩ (List.prefix_append t v) (by omega)
  obtain ⟨rest, rfl⟩ := hprefix
  exact hspells.sequence?_eq rest

/-- A sequence is the same whatever stands behind it. -/
theorem sequence?_append {a : UInt8} {t : Text} {c width : ℕ} (h : sequence? a t = some (c, width))
    (v : Text) : sequence? a (t ++ v) = some (c, width) := by
  obtain ⟨tail, htail, rfl, hspells⟩ := sequence?_spells h
  rw [htail, List.append_assoc]
  exact hspells.sequence?_eq _

/-- The scalar that a text begins with is the same without what stands behind, or it reaches beyond the
text and cannot be read there. -/
theorem read_cut (a : UInt8) (t v : Text) : read a (t ++ v) = read a t ∨
    (sequence? a t = none ∧ t.length + 1 < (read a (t ++ v)).2) := by
  rw [read, read]
  cases hshort : sequence? a t with
  | some p => exact .inl (by rw [sequence?_append hshort])
  | none =>
    cases hlong : sequence? a (t ++ v) with
    | none => exact .inl rfl
    | some p =>
      refine .inr ⟨rfl, ?_⟩
      by_contra hle
      rw [sequence?_cut hlong (Nat.le_of_not_lt hle)] at hshort
      cases hshort

end Utf8

namespace Scanner

variable {mode : Mode} {after : Bool} {b mark : UInt8} {t v rest : Text} {x : Lexeme}

theorem runLength_cut (h : runLength mark (t ++ v) ≤ t.length) :
    runLength mark (t ++ v) = runLength mark t := congrArg List.length (takeWhile_cut h)

theorem digitCount_cut (h : digitCount (t ++ v) ≤ t.length) : digitCount (t ++ v) = digitCount t :=
  congrArg List.length (takeWhile_cut h)

theorem digitCount_le_append (t v : Text) : digitCount t ≤ digitCount (t ++ v) :=
  le_takeWhile_append _ t v

/-! ### Numbers -/

theorem signLength_cut (h : signLength (t ++ v) ≤ t.length) : signLength (t ++ v) = signLength t := by
  cases t with
  | nil => exact Nat.le_zero.mp h
  | cons b t => rfl

/-- An exponent has a letter and at least one digit. -/
theorem exponentLength_cases (t : Text) : exponentLength t = 0 ∨ 2 ≤ exponentLength t := by
  cases t with
  | nil => exact .inl rfl
  | cons b t =>
    rw [exponentLength]
    simp only
    split_ifs with hb hnone
    · exact .inl rfl
    · exact .inr (by omega)
    · exact .inl rfl

/-- An exponent that ends within a text is the same without what stands behind. -/
theorem exponentLength_cut (h : exponentLength (t ++ v) ≤ t.length) :
    exponentLength (t ++ v) = exponentLength t := by
  match t with
  | [] => exact Nat.le_zero.mp h
  | [b] =>
    have hnone : exponentLength [b] = 0 := by
      have hle := exponentLength_le [b]
      exact (exponentLength_cases [b]).resolve_right (by rw [List.length_singleton] at hle; omega)
    rw [hnone]
    exact (exponentLength_cases _).resolve_right (by rw [List.length_singleton] at h; omega)
  | b :: c :: t =>
    have hsign : signLength (c :: t ++ v) = signLength (c :: t) := rfl
    have hle := signLength_le (c :: t)
    rw [List.cons_append, exponentLength, List.length_cons] at h
    rw [List.cons_append, exponentLength, exponentLength]
    simp only [hsign, List.drop_append_of_le_length hle] at h ⊢
    by_cases hb : b = 101 ∨ b = 69
    swap
    · rw [if_neg hb, if_neg hb]
    rw [if_pos hb] at h ⊢
    rw [if_pos hb]
    by_cases hnone : digitCount ((c :: t).drop (signLength (c :: t)) ++ v) = 0
    · have hfewer := digitCount_le_append ((c :: t).drop (signLength (c :: t))) v
      rw [if_pos hnone, if_pos (by omega)]
    · rw [if_neg hnone] at h
      rw [digitCount_cut (by rw [List.length_drop]; omega)]

/-- Where an exponent stands, one stands there with more behind it. -/
theorem exponentLength_append_pos (h : 0 < exponentLength t) (v : Text) :
    0 < exponentLength (t ++ v) := by
  match t with
  | [] => cases h
  | [b] =>
    have hle := exponentLength_le [b]
    rw [List.length_singleton] at hle
    have := exponentLength_cases [b]
    omega
  | b :: c :: t =>
    have hsign : signLength (c :: t ++ v) = signLength (c :: t) := rfl
    rw [List.cons_append, exponentLength]
    rw [exponentLength] at h
    simp only [hsign, List.drop_append_of_le_length (signLength_le (c :: t))] at h ⊢
    have hfewer := digitCount_le_append ((c :: t).drop (signLength (c :: t))) v
    split_ifs at h ⊢
    all_goals omega

/-- The part of a number behind the point is the same without what stands behind, if that is true of the
exponent behind it. -/
theorem fractionLength_cut {whole : ℕ}
    (h : fractionLength whole (t ++ v) +
      exponentLength ((t ++ v).drop (fractionLength whole (t ++ v))) ≤ t.length) :
    fractionLength whole (t ++ v) = fractionLength whole t := by
  cases t with
  | nil => exact Nat.le_zero.mp (Nat.le_of_add_right_le h)
  | cons b t =>
    have hfewer := digitCount_le_append t v
    rw [List.cons_append, fractionLength, List.length_cons] at h
    rw [List.cons_append, fractionLength, fractionLength]
    by_cases hb : b = Ascii.dot
    swap
    · rw [if_neg hb, if_neg hb]
    rw [if_pos hb] at h ⊢
    rw [if_pos hb]
    by_cases hdigits : 0 < digitCount (t ++ v)
    · rw [if_pos hdigits] at h ⊢
      have hsame : digitCount (t ++ v) = digitCount t := digitCount_cut (by omega)
      rw [← hsame, if_pos hdigits]
    · have hnone : ¬ 0 < digitCount t := by omega
      rw [if_neg hdigits] at h ⊢
      rw [if_neg hnone]
      by_cases hexponent : 0 < whole ∧ 0 < exponentLength (t ++ v)
      · rw [if_pos hexponent, List.drop_one, List.tail_cons] at h
        have hsame : exponentLength (t ++ v) = exponentLength t := exponentLength_cut (by omega)
        rw [← hsame]
      · rw [if_neg hexponent, if_neg fun hpos => hexponent
          ⟨hpos.1, exponentLength_append_pos hpos.2 v⟩]

/-- The parts of a number, one behind the other. -/
theorem size_of_number (h : number t = .ok x) :
    x.size = signLength t + digitCount (t.drop (signLength t)) +
      fractionLength (digitCount (t.drop (signLength t)))
        (t.drop (signLength t + digitCount (t.drop (signLength t)))) +
      exponentLength (t.drop (signLength t + digitCount (t.drop (signLength t)) +
        fractionLength (digitCount (t.drop (signLength t)))
          (t.drop (signLength t + digitCount (t.drop (signLength t)))))) := by
  rw [number] at h
  simp only at h
  split_ifs at h
  all_goals
    cases h
    rfl

theorem number_cut (h : number (t ++ v) = .ok x) (hsize : x.size ≤ t.length) :
    number t = .ok x := by
  have hdrop {n : ℕ} (hn : n ≤ t.length) : (t ++ v).drop n = t.drop n ++ v :=
    List.drop_append_of_le_length hn
  have hparts := size_of_number h
  -- part by part, from the first on, each lies within the text
  have hsign : signLength (t ++ v) = signLength t := signLength_cut (by omega)
  have hfirst := signLength_le t
  simp only [hsign, hdrop hfirst] at hparts
  have hwhole : digitCount (t.drop (signLength t) ++ v) = digitCount (t.drop (signLength t)) :=
    digitCount_cut (by rw [List.length_drop]; omega)
  have hsecond := (mantissa_le t).1
  simp only [hwhole, hdrop hsecond] at hparts
  generalize hrest : t.drop (signLength t + digitCount (t.drop (signLength t))) = rest at hparts
  have hlength := congrArg List.length hrest
  rw [List.length_drop] at hlength
  have hfraction : fractionLength (digitCount (t.drop (signLength t))) (rest ++ v)
      = fractionLength (digitCount (t.drop (signLength t))) rest := by
    refine fractionLength_cut ?_
    rw [← hrest, ← hdrop hsecond, List.drop_drop, hrest, hdrop hsecond, hrest]
    omega
  have hthird := (mantissa_le t).2
  rw [hrest] at hthird
  simp only [hfraction, hdrop hthird] at hparts
  have hexponent : exponentLength (t.drop (signLength t + digitCount (t.drop (signLength t)) +
        fractionLength (digitCount (t.drop (signLength t))) rest) ++ v)
      = exponentLength (t.drop (signLength t + digitCount (t.drop (signLength t)) +
        fractionLength (digitCount (t.drop (signLength t))) rest)) :=
    exponentLength_cut (by rw [List.length_drop]; omega)
  rw [hexponent] at hparts
  rw [number] at h ⊢
  simp only [hsign, hdrop hfirst, hwhole, hdrop hsecond, hrest, hfraction, hdrop hthird,
    hexponent] at h ⊢
  split_ifs at h ⊢
  all_goals
    cases h
    rw [List.take_append_of_le_length hsize]

/-- A point alone is no number. -/
theorem digitCount_pos_of_number (h : number (Ascii.dot :: rest) = .ok x) : 0 < digitCount rest := by
  by_contra hnone
  have hsign : signLength (Ascii.dot :: rest) = 0 := rfl
  have hwhole : digitCount (Ascii.dot :: rest) = 0 := rfl
  have hfraction : fractionLength 0 (Ascii.dot :: rest) = 0 := by
    rw [fractionLength, if_pos rfl, if_neg hnone, if_neg fun h => absurd h.1 (Nat.lt_irrefl 0)]
  rw [number] at h
  simp only [hsign, hwhole, Nat.add_zero, List.drop_zero, hfraction, and_self, if_true] at h
  cases h

/-! ### IRIs and strings -/

theorem width_pos_of_numericEscape {code width : ℕ} (h : numericEscape rest = .ok (code, width)) :
    0 < width := by
  cases rest with
  | nil => cases h
  | cons mark rest =>
    rw [numericEscape] at h
    simp only at h
    split_ifs at h
    all_goals
      split at h
      · split_ifs at h
        cases h
        exact Nat.succ_pos _
      · cases h

theorem numericEscape_cut {code width : ℕ} (h : numericEscape (rest ++ v) = .ok (code, width))
    (hwidth : width ≤ rest.length) : numericEscape rest = .ok (code, width) := by
  have hpos := width_pos_of_numericEscape h
  cases rest with
  | nil =>
    rw [List.length_nil] at hwidth
    omega
  | cons mark rest =>
    rw [List.cons_append, numericEscape] at h
    rw [numericEscape]
    by_cases hmark : mark = 117 ∨ mark = 85
    swap
    · rw [if_neg hmark] at h
      cases h
    rw [if_pos hmark] at h ⊢
    generalize (if mark = 117 then 4 else 8) = count at h ⊢
    simp only at h ⊢
    have hcount : count ≤ rest.length := by
      split_ifs at h
      split at h
      · split_ifs at h
        cases h
        exact Nat.le_of_succ_le_succ hwidth
      · cases h
    rwa [List.take_append_of_le_length hcount] at h

/-- An IRI that is closed within a text is the same without what stands behind. -/
theorem iriBody_cut {skip n : ℕ} {p : Text × ℕ} (h : iriBody skip n (t ++ v) = .ok p)
    (hle : p.2 ≤ n + t.length) : iriBody skip n t = .ok p := by
  induction t generalizing skip n p with
  | nil =>
    have hlt := lt_of_iriBody h
    rw [List.length_nil] at hle
    omega
  | cons b t ih =>
    have hlt := lt_of_iriBody h
    rw [List.length_cons] at hle
    cases skip with
    | succ skip => exact ih h (by omega)
    | zero =>
      rw [List.cons_append, iriBody] at h
      rw [iriBody]
      by_cases hclose : b = Ascii.greaterThan
      · rwa [if_pos hclose] at h ⊢
      rw [if_neg hclose] at h ⊢
      by_cases hescape : b = Ascii.backslash
      · rw [if_pos hescape] at h ⊢
        split at h
        · cases h
        · next code width hcode =>
          obtain ⟨q, hq, rfl⟩ := map_eq_ok.mp h
          have hwidth := lt_of_iriBody hq
          simp only at hle
          rw [numericEscape_cut hcode (by omega)]
          exact map_eq_ok.mpr ⟨q, ih hq (by omega), rfl⟩
      rw [if_neg hescape] at h ⊢
      split_ifs at h ⊢
      obtain ⟨q, hq, rfl⟩ := map_eq_ok.mp h
      simp only at hle
      exact map_eq_ok.mpr ⟨q, ih hq (by omega), rfl⟩

/-- A string that begins with an escape goes on behind it. -/
theorem lt_of_stringBody_backslash (hmark : mark ≠ Ascii.backslash) {long : Bool} {n : ℕ}
    {p : Text × ℕ} (h : stringBody mark long 0 n (Ascii.backslash :: t) = .ok p) : n + 2 < p.2 := by
  rw [stringBody.eq_def] at h
  simp only at h
  rw [if_neg fun hlong => hmark hlong.2.1.symm, if_neg fun hshort => hmark hshort.2.symm,
    if_neg fun hline => absurd hline.2 (by decide), if_pos trivial] at h
  cases t with
  | nil => cases h
  | cons next t =>
    simp only at h
    split_ifs at h with hnumeric
    · cases hcode : numericEscape (next :: t) with
      | error e =>
        rw [hcode] at h
        cases h
      | ok code =>
        rw [hcode] at h
        obtain ⟨q, hq, rfl⟩ := map_eq_ok.mp h
        have hlt := lt_of_stringBody hq
        have hwidth := width_pos_of_numericEscape hcode
        simp only
        omega
    · obtain ⟨q, hq, rfl⟩ := map_eq_ok.mp h
      have hlt := lt_of_stringBody hq
      simp only
      omega

/-- A string that is closed within a text is the same without what stands behind. -/
theorem stringBody_cut (hmark : mark ≠ Ascii.backslash) {long : Bool} {skip n : ℕ} {p : Text × ℕ}
    (h : stringBody mark long skip n (t ++ v) = .ok p) (hle : p.2 ≤ n + t.length) :
    stringBody mark long skip n t = .ok p := by
  induction t generalizing skip n p with
  | nil =>
    have hlt := lt_of_stringBody h
    rw [List.length_nil] at hle
    omega
  | cons b t ih =>
    have hlt := lt_of_stringBody h
    have hfewer : runLength mark t ≤ runLength mark (t ++ v) := le_takeWhile_append _ t v
    rw [List.length_cons] at hle
    cases skip with
    | succ skip =>
      rw [List.cons_append, stringBody] at h
      rw [stringBody]
      exact ih h (by omega)
    | zero =>
      have hwhole := h
      rw [List.cons_append, stringBody.eq_def] at h
      rw [stringBody.eq_def]
      simp only at h ⊢
      by_cases hlong : long = true ∧ b = mark ∧ 2 ≤ runLength mark (t ++ v)
      · rw [if_pos hlong] at h
        cases h
        simp only at hle
        have hsame : runLength mark (t ++ v) = runLength mark t := runLength_cut (by omega)
        rw [← hsame, if_pos hlong]
      rw [if_neg hlong] at h
      rw [if_neg fun hl => hlong ⟨hl.1, hl.2.1, hl.2.2.trans hfewer⟩]
      by_cases hshort : ¬ long = true ∧ b = mark
      · rwa [if_pos hshort] at h ⊢
      rw [if_neg hshort] at h ⊢
      by_cases hline : ¬ long = true ∧ (b = Ascii.lineFeed ∨ b = Ascii.carriageReturn)
      · rw [if_pos hline] at h
        cases h
      rw [if_neg hline] at h ⊢
      by_cases hescape : b = Ascii.backslash
      swap
      · rw [if_neg hescape] at h ⊢
        obtain ⟨q, hq, rfl⟩ := map_eq_ok.mp h
        simp only at hle
        exact map_eq_ok.mpr ⟨q, ih hq (by omega), rfl⟩
      rw [if_pos hescape] at h ⊢
      cases t with
      | nil =>
        -- the backslash would be the last byte, but the string goes on behind it
        have hbeyond := lt_of_stringBody_backslash hmark (hescape ▸ hwhole)
        rw [List.length_nil] at hle
        omega
      | cons next t =>
        simp only [List.cons_append] at h ⊢
        by_cases hnumeric : next = 117 ∨ next = 85
        · rw [if_pos hnumeric] at h ⊢
          split at h
          · cases h
          · next code width hcode =>
            obtain ⟨q, hq, rfl⟩ := map_eq_ok.mp h
            have hwidth := lt_of_stringBody hq
            simp only at hle
            have hcut : numericEscape (next :: t) = .ok (code, width) :=
              numericEscape_cut hcode (by omega)
            rw [hcut]
            exact map_eq_ok.mpr ⟨q, ih hq (by omega), rfl⟩
        · rw [if_neg hnumeric] at h ⊢
          obtain ⟨q, hq, rfl⟩ := map_eq_ok.mp h
          simp only at hle
          exact map_eq_ok.mpr ⟨q, ih hq (by omega), rfl⟩

theorem iri_cut (h : iri mode (rest ++ v) = .ok x) (hsize : x.size ≤ rest.length + 1) :
    iri mode rest = .ok x := by
  obtain ⟨p, hp, rfl⟩ := map_eq_ok.mp h
  simp only at hsize
  exact map_eq_ok.mpr ⟨p, iriBody_cut hp (by omega), rfl⟩

theorem string_cut (hmark : mark ≠ Ascii.backslash) (h : string mode mark (rest ++ v) = .ok x)
    (hsize : x.size ≤ rest.length + 1) : string mode mark rest = .ok x := by
  have hfewer : runLength mark rest ≤ runLength mark (rest ++ v) := le_takeWhile_append _ rest v
  rw [string] at h ⊢
  by_cases hlong : mode = .turtle ∧ 2 ≤ runLength mark (rest ++ v)
  · rw [if_pos hlong] at h
    obtain ⟨p, hp, rfl⟩ := map_eq_ok.mp h
    have hlt := lt_of_stringBody hp
    simp only at hsize
    obtain ⟨r, hr⟩ := exists_of_le_runLength hlong.2
    obtain ⟨r', rfl⟩ : [mark, mark] <+: rest := by
      have hlength : [mark, mark].length ≤ rest.length := by
        rw [List.length_cons, List.length_singleton]
        omega
      exact List.prefix_of_prefix_length_le ⟨r, hr.symm⟩ (List.prefix_append rest v) hlength
    have htwo : 2 ≤ runLength mark ([mark, mark] ++ r') := by
      simp [runLength]
    rw [if_pos ⟨hlong.1, htwo⟩]
    have hle : p.2 ≤ 3 + r'.length := by
      simp only [List.cons_append, List.nil_append, List.length_cons] at hsize
      omega
    exact map_eq_ok.mpr ⟨p, stringBody_cut hmark hp hle, rfl⟩
  · rw [if_neg hlong] at h
    rw [if_neg fun hl => hlong ⟨hl.1, hl.2.trans hfewer⟩]
    obtain ⟨p, hp, rfl⟩ := map_eq_ok.mp h
    simp only at hsize
    exact map_eq_ok.mpr ⟨p, stringBody_cut hmark hp (by omega), rfl⟩

theorem afterAt_cut (h : afterAt mode after (rest ++ v) = .ok x) (hsize : x.size ≤ rest.length + 1) :
    afterAt mode after rest = .ok x := by
  have hword : ((rest ++ v).takeWhile isTagByte).length + 1 = x.size := by
    rw [afterAt] at h
    split_ifs at h
    all_goals
      cases h
      rfl
  rw [afterAt, takeWhile_cut (by omega)] at h
  rw [afterAt]
  split_ifs at h ⊢
  all_goals exact h

/-! ### Labels and names -/

/-- A label or a name ends where it is sure to end, or goes on beyond the bytes that are passed. -/
theorem nameLength_cases (named : Bool) {skip n best : ℕ} (hbest : best ≤ n + skip) (t : Text) :
    nameLength named skip n best t = best ∨ n + skip < nameLength named skip n best t := by
  fun_induction nameLength named skip n best t with
  | case1 => exact .inl rfl
  | case2 n best skip b rest ih => exact (ih (by omega)).imp_right fun h => by omega
  | case3 n best b rest c width hread hescape ih =>
    have hle : n + 2 ≤ nameLength named 1 (n + 1) (n + 2) rest := le_nameLength le_rfl
    exact .inr (by omega)
  | case4 n best b rest c width hread hescape hname ih =>
    obtain ⟨hpos, -⟩ := Utf8.width_bounds hread
    have hle : n + width ≤ nameLength named (width - 1) (n + 1) (n + width) rest :=
      le_nameLength (by omega)
    exact .inr (by omega)
  | case5 n best rest c width hread hescape hname ih => exact (ih (by omega)).imp_right fun h => by omega
  | case6 => exact .inl rfl

/-- A label or a name that ends within a text is the same without what stands behind. -/
theorem nameLength_cut (named : Bool) {skip n best : ℕ} (hskip : skip ≤ t.length)
    (hbest : best ≤ n + skip) (h : nameLength named skip n best (t ++ v) ≤ n + t.length) :
    nameLength named skip n best (t ++ v) = nameLength named skip n best t := by
  induction t generalizing skip n best with
  | nil =>
    obtain rfl : skip = 0 := Nat.le_zero.mp hskip
    rw [List.length_nil] at h
    exact (nameLength_cases named hbest v).resolve_right (by rw [List.nil_append] at h; omega)
  | cons b t ih =>
    rw [List.length_cons] at h hskip
    cases skip with
    | succ skip =>
      rw [List.cons_append, nameLength] at h ⊢
      rw [nameLength]
      exact ih (by omega) (by omega) (by omega)
    | zero =>
      rw [List.cons_append] at h ⊢
      rcases Utf8.read_cut b t v with hread | ⟨hnone, hbeyond⟩
      swap
      · -- a scalar that reaches beyond the text is no part of the name, and its first byte is none
        rw [nameLength_high (high_of_sequence?_eq_none hnone)] at h ⊢
        by_cases hname : isNameScalar (Utf8.read b (t ++ v)).1 = true
        · rw [if_pos hname] at h
          have hle : n + (Utf8.read b (t ++ v)).2 ≤ nameLength named ((Utf8.read b (t ++ v)).2 - 1)
              (n + 1) (n + (Utf8.read b (t ++ v)).2) (t ++ v) := le_nameLength (by omega)
          omega
        · rw [if_neg hname, nameLength_stray hnone]
      rw [nameLength, hread] at h ⊢
      rw [nameLength]
      simp only at h ⊢
      by_cases hescape : named = true ∧ b = Ascii.backslash ∧ t ++ v ≠ []
      · rw [if_pos hescape] at h ⊢
        have hle : n + 2 ≤ nameLength named 1 (n + 1) (n + 2) (t ++ v) := le_nameLength le_rfl
        have hpos : 0 < t.length := by omega
        rw [if_pos ⟨hescape.1, hescape.2.1, List.length_pos_iff.mp hpos⟩]
        exact ih hpos le_rfl (by omega)
      have hkept : ¬ (named = true ∧ b = Ascii.backslash ∧ t ≠ []) :=
        fun hk => hescape ⟨hk.1, hk.2.1, List.append_ne_nil_of_left_ne_nil hk.2.2 v⟩
      rw [if_neg hescape] at h ⊢
      rw [if_neg hkept]
      by_cases hname : isNameScalar (Utf8.read b t).1 = true ∨
          named = true ∧ (b = Ascii.colon ∨ b = Ascii.percent)
      · rw [if_pos hname] at h ⊢
        rw [if_pos hname]
        obtain ⟨hpos, hwidth⟩ :=
          Utf8.width_bounds (rfl : Utf8.read b t = ((Utf8.read b t).1, (Utf8.read b t).2))
        have hle : n + (Utf8.read b t).2 ≤ nameLength named ((Utf8.read b t).2 - 1) (n + 1)
            (n + (Utf8.read b t).2) (t ++ v) := le_nameLength (by omega)
        exact ih (by omega) (by omega) (by omega)
      rw [if_neg hname] at h ⊢
      rw [if_neg hname]
      by_cases hdot : b = Ascii.dot
      · rw [if_pos hdot] at h ⊢
        rw [if_pos hdot]
        exact ih (Nat.zero_le _) (by omega) (by omega)
      · rw [if_neg hdot, if_neg hdot]

theorem blankLabel_cut (hcolon : 2 ≤ t.length) (hsize : (blankLabel (t ++ v)).size ≤ t.length) :
    blankLabel (t ++ v) = blankLabel t := by
  have hdrop : (t ++ v).drop 2 = t.drop 2 ++ v := List.drop_append_of_le_length hcolon
  have hle : nameLength false 0 2 2 ((t ++ v).drop 2) ≤ t.length := hsize
  have hsame : nameLength false 0 2 2 (t.drop 2 ++ v) = nameLength false 0 2 2 (t.drop 2) :=
    nameLength_cut false (Nat.zero_le _) le_rfl (by rw [← hdrop, List.length_drop]; omega)
  rw [hdrop, hsame] at hle
  rw [blankLabel, blankLabel, hdrop, hsame, List.take_append_of_le_length hle]

theorem name_cut (h : name (t ++ v) = .ok x) (hsize : x.size ≤ t.length) : name t = .ok x := by
  rw [size_of_name h] at hsize
  have hsame : nameLength true 0 0 0 (t ++ v) = nameLength true 0 0 0 t :=
    nameLength_cut true (Nat.zero_le _) le_rfl (by omega)
  rw [hsame] at hsize
  rw [name] at h ⊢
  rwa [hsame, List.take_append_of_le_length hsize] at h

/-! ### All tokens -/

theorem scanTurtle_cut (h : scanTurtle b (rest ++ v) = .ok x) (hsize : x.size ≤ rest.length + 1) :
    scanTurtle b rest = .ok x := by
  rw [scanTurtle] at h ⊢
  cases hb : bracket? b with
  | some kind =>
    rw [hb] at h
    exact h
  | none =>
    rw [hb] at h
    simp only at h ⊢
    split_ifs at h ⊢
    · exact number_cut (t := b :: rest) h hsize
    · exact name_cut (t := b :: rest) h hsize

/-- **A token is read from its own bytes**: cut off behind it, the text begins with the same token. -/
theorem scan_cut (h : scan mode after b (rest ++ v) = .ok x) (hsize : x.size ≤ rest.length + 1) :
    scan mode after b rest = .ok x := by
  -- the byte behind the first, where a token has one
  have hhead {c : UInt8} (hc : (rest ++ v).head? = some c) (htwo : 2 ≤ rest.length + 1) :
      rest.head? = some c := by
    cases rest with
    | nil => exact absurd htwo (by decide)
    | cons a rest => exact hc
  have hback {c : UInt8} (hc : rest.head? = some c) : (rest ++ v).head? = some c := by
    rw [List.head?_append, hc]
    rfl
  rw [scan] at h ⊢
  by_cases hiri : b = Ascii.lessThan
  · rw [if_pos hiri] at h ⊢
    exact iri_cut h hsize
  rw [if_neg hiri] at h ⊢
  by_cases hlabel : b = Ascii.underscore ∧ (rest ++ v).head? = some Ascii.colon
  · rw [if_pos hlabel] at h
    have htwo : 2 ≤ (blankLabel (b :: (rest ++ v))).size := le_nameLength le_rfl
    cases h
    have hlength : 2 ≤ (b :: rest).length := htwo.trans hsize
    rw [if_pos ⟨hlabel.1, hhead hlabel.2 hlength⟩]
    exact congrArg Except.ok (blankLabel_cut (t := b :: rest) hlength hsize).symm
  rw [if_neg hlabel] at h
  rw [if_neg fun hl => hlabel ⟨hl.1, hback hl.2⟩]
  by_cases hquote : b = Ascii.quote
  · rw [if_pos hquote] at h ⊢
    exact string_cut (by rw [hquote]; decide) h hsize
  rw [if_neg hquote] at h ⊢
  by_cases hsingle : b = Ascii.apostrophe ∧ mode = .turtle
  · rw [if_pos hsingle] at h ⊢
    exact string_cut (by rw [hsingle.1]; decide) h hsize
  rw [if_neg hsingle] at h ⊢
  by_cases htag : b = Ascii.atSign
  · rw [if_pos htag] at h ⊢
    exact afterAt_cut h hsize
  rw [if_neg htag] at h ⊢
  by_cases hcaret : b = Ascii.caret
  · rw [if_pos hcaret] at h ⊢
    by_cases hcarets : (rest ++ v).head? = some Ascii.caret
    · rw [if_pos hcarets] at h
      cases h
      rw [if_pos (hhead hcarets hsize)]
    · rw [if_neg hcarets] at h
      cases h
  rw [if_neg hcaret] at h ⊢
  by_cases hdot : b = Ascii.dot
  · rw [if_pos hdot] at h ⊢
    have hfewer := digitCount_le_append rest v
    by_cases hdigits : mode = .turtle ∧ 0 < digitCount (rest ++ v)
    · rw [if_pos hdigits] at h
      have hnumber := number_cut (t := b :: rest) h hsize
      rwa [if_pos ⟨hdigits.1, digitCount_pos_of_number (hdot ▸ hnumber)⟩]
    · rw [if_neg hdigits] at h
      rw [if_neg fun hd => hdigits ⟨hd.1, by omega⟩]
      exact h
  rw [if_neg hdot] at h ⊢
  by_cases hmode : mode = .turtle
  · rw [if_pos hmode] at h ⊢
    split_ifs at h ⊢
    · exact h
    · exact h
    · exact scanTurtle_cut h hsize
  · rw [if_neg hmode] at h ⊢
    split_ifs at h ⊢
    · exact h
    · exact h

end Scanner

/-! ### White space -/

/-- White space and comments that end within a text are the same without what stands behind. -/
theorem blankLength_cut {comment : Bool} {t v : Text} (h : blankLength comment (t ++ v) < t.length) :
    blankLength comment (t ++ v) = blankLength comment t := by
  fun_induction blankLength comment t with
  | case1 => cases h
  | case2 rest ih =>
    rw [List.cons_append, blankLength, if_pos rfl, List.length_cons] at h
    rw [List.cons_append, blankLength, if_pos rfl, ih (by omega)]
  | case3 b rest hb ih =>
    rw [List.cons_append, blankLength, if_neg hb, List.length_cons] at h
    rw [List.cons_append, blankLength, if_neg hb, ih (by omega)]
  | case4 b rest hb ih =>
    rw [List.cons_append, blankLength, if_pos hb, List.length_cons] at h
    rw [List.cons_append, blankLength, if_pos hb, ih (by omega)]
  | case5 rest hb ih =>
    rw [List.cons_append, blankLength, if_neg hb, if_pos rfl, List.length_cons] at h
    rw [List.cons_append, blankLength, if_neg hb, if_pos rfl, ih (by omega)]
  | case6 b rest hb hb' => rw [List.cons_append, blankLength, if_neg hb, if_neg hb']

end TripleStore
