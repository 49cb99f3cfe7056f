import Mathlib.Data.List.DropRight
import TripleStore.Proofs.Text.Utf8
import TripleStore.Proofs.Token.Stream

/-!
# Places in a text

A lexer counts lines and columns while it goes along; both can be told from the text alone.  Whatever
tokens and errors it comes across, it stands where its offset says, and every place that it reports
is one of the text.

The scanners of labels, names and numbers go further than what they take in, and come back.  On the
way back columns are counted but lines are not, which is enough: they give back no line feed.

* `Position.LiesIn`: line and column are those of the offset, which lies within the text.
* `Lexer.Follows`: the lexer has gone through what stands before its rest; **every step keeps this.**
* `Scanner.gives_back`: what a scanner gives back holds no line feed; `Lexer.nextByWay_eq`.
* `Lexer.places_are_those_of_the_text`: **all places are those of the text.**
-/

namespace TripleStore

/-! ### Places -/

namespace Text

/-- What stands behind the last line feed of a text. -/
def lastLine (t : Text) : Text := t.rtakeWhile (· != Ascii.lineFeed)

theorem lastLine_lineFeed (t : Text) : lastLine (t ++ [Ascii.lineFeed]) = [] :=
  List.rtakeWhile_concat_neg _ t Ascii.lineFeed (by decide)

theorem lastLine_concat (t : Text) {b : UInt8} (hb : b ≠ Ascii.lineFeed) :
    lastLine (t ++ [b]) = lastLine t ++ [b] :=
  List.rtakeWhile_concat_pos _ t b (by simpa using hb)

end Text

namespace Position

/-- The place is one of the text: the offset lies within it, the line is one more than the line feeds
before it, and the column is one more than the bytes behind the last of these that take one. -/
def LiesIn (p : Position) (text : Text) : Prop :=
  ∃ k ≤ text.length, p.offset = k ∧ p.line = 1 + (text.take k).count Ascii.lineFeed ∧
    p.column = 1 + (Text.lastLine (text.take k)).countP fun b => !Ascii.isContinuation b

theorem after_append (p : Position) (s t : Text) : p.after (s ++ t) = (p.after s).after t :=
  List.foldl_append

/-- What is counted from the beginning of a text on. -/
theorem after_start (t : Text) : start.after t = ⟨t.length, 1 + t.count Ascii.lineFeed,
    1 + (Text.lastLine t).countP fun b => !Ascii.isContinuation b⟩ := by
  induction t using List.reverseRecOn with
  | nil => rfl
  | append_singleton t b ih =>
    have hstep : start.after (t ++ [b]) = (start.after t).step b := after_append start t [b]
    rw [hstep, ih, step]
    by_cases hline : b = Ascii.lineFeed
    · subst hline
      rw [if_pos rfl, Text.lastLine_lineFeed]
      simp [add_assoc]
    · rw [if_neg hline, Text.lastLine_concat t hline, List.countP_append, List.count_append]
      have hcount : List.count Ascii.lineFeed [b] = 0 :=
        List.count_singleton.trans (if_neg (by simpa using hline))
      cases hb : Ascii.isContinuation b with
      | true => simp [hb, hcount]
      | false => simp [hb, hcount, add_assoc]

/-- The place behind a beginning of the text is one of the text. -/
theorem liesIn_after {before text : Text} (h : before <+: text) :
    (start.after before).LiesIn text := by
  rw [LiesIn, after_start]
  refine ⟨before.length, h.length_le, rfl, ?_⟩
  rw [← List.prefix_iff_eq_take.mp h]
  exact ⟨rfl, rfl⟩

end Position

/-! ### The way of a lexer -/

namespace Lexer

variable {l : Lexer} {text : Text}

/-- The lexer has gone through what stands before its rest. -/
def Follows (l : Lexer) (text : Text) : Prop :=
  ∃ before, text = before ++ l.rest ∧ l.position = Position.start.after before

theorem follows_start (mode : Mode) (text : Text) : (start mode text).Follows text :=
  ⟨[], rfl, rfl⟩

/-- The place behind some more bytes is one of the text. -/
theorem Follows.liesIn_after (h : l.Follows text) (n : ℕ) :
    (l.position.after (l.rest.take n)).LiesIn text := by
  obtain ⟨before, htext, hposition⟩ := h
  rw [hposition, ← Position.after_append]
  refine Position.liesIn_after ⟨l.rest.drop n, ?_⟩
  rw [List.append_assoc, List.take_append_drop, htext]

theorem Follows.liesIn (h : l.Follows text) : l.position.LiesIn text := h.liesIn_after 0

theorem Follows.rest_eq (h : l.Follows text) : l.rest = text.drop l.position.offset.toNat := by
  obtain ⟨before, htext, hposition⟩ := h
  rw [hposition, Position.after_start, Int.toNat_natCast, htext, List.drop_left]

theorem Follows.advance (h : l.Follows text) (n : ℕ) : (l.advance n).Follows text := by
  obtain ⟨before, htext, hposition⟩ := h
  refine ⟨before ++ l.rest.take n, ?_, ?_⟩
  · rw [Lexer.advance, List.append_assoc, List.take_append_drop, htext]
  · rw [Lexer.advance, hposition, ← Position.after_append]

theorem Follows.skipBlank (h : l.Follows text) : l.skipBlank.Follows text := h.advance _

/-- What may come next, and where it leaves the lexer: the end, a token or an error. -/
theorem next_results (l : Lexer) :
    l.next = (.ok ⟨.eof, [], l.skipBlank.position, false⟩, { l.skipBlank with last := some .eof }) ∨
      (∃ x : Lexeme, l.next = (.ok ⟨x.kind, x.text, l.skipBlank.position, x.bare⟩,
        { l.skipBlank.advance x.size with last := some x.kind })) ∨
      ∃ misfit : Misfit, l.next = (.error ⟨l.skipBlank.position.after
        (l.skipBlank.rest.take misfit.offset), misfit.char, misfit.detail⟩,
          l.skipBlank.advance misfit.size) := by
  rw [next, token]
  split
  · exact .inl rfl
  · split
    · next x _ => exact .inr (.inl ⟨x, rfl⟩)
    · next misfit _ => exact .inr (.inr ⟨misfit, rfl⟩)

/-- **A token or an error leaves the lexer at its place**, and stands at a place of the text. -/
theorem Follows.next (h : l.Follows text) :
    l.next.2.Follows text ∧ (∀ t, l.next.1 = .ok t → t.position.LiesIn text) ∧
      ∀ e, l.next.1 = .error e → e.position.LiesIn text := by
  have hblank := h.skipBlank
  rcases l.next_results with hnext | ⟨x, hnext⟩ | ⟨misfit, hnext⟩
  · rw [hnext]
    refine ⟨hblank, fun t ht => ?_, fun e he => ?_⟩
    · cases ht
      exact hblank.liesIn
    · cases he
  · rw [hnext]
    refine ⟨hblank.advance x.size, fun t ht => ?_, fun e he => ?_⟩
    · cases ht
      exact hblank.liesIn
    · cases he
  · rw [hnext]
    refine ⟨hblank.advance misfit.size, fun t ht => ?_, fun e he => ?_⟩
    · cases ht
    · cases he
      exact hblank.liesIn_after misfit.offset

/-- The lexer after it was asked `n` times, whatever it answered. -/
def asked (n : ℕ) (l : Lexer) : Lexer := (fun l => l.next.2)^[n] l

theorem Follows.asked (h : l.Follows text) (n : ℕ) : (l.asked n).Follows text := by
  induction n with
  | zero => exact h
  | succ n ih =>
    rw [Lexer.asked, Function.iterate_succ_apply']
    exact ih.next.1

end Lexer

/-! ### The way back -/

namespace Position

/-- The place before a byte that is given back; the line stays. -/
def stepBack (p : Position) (b : UInt8) : Position :=
  { p with
    offset := p.offset - 1
    column := if Ascii.isContinuation b then p.column else p.column - 1 }

/-- The place before some bytes that are given back, the last one first. -/
def back (p : Position) (bytes : Text) : Position := bytes.foldr (fun b p => p.stepBack b) p

/-- Without a line feed on the way, the way back leads to where the way forth began. -/
theorem back_after (p : Position) {bytes : Text} (h : ∀ b ∈ bytes, b ≠ Ascii.lineFeed) :
    (p.after bytes).back bytes = p := by
  induction bytes generalizing p with
  | nil => rfl
  | cons b bytes ih =>
    have hrest := ih (p.step b) fun c hc => h c (List.mem_cons_of_mem _ hc)
    show ((((p.step b).after bytes).back bytes)).stepBack b = p
    rw [hrest, step, if_neg (h b List.mem_cons_self)]
    cases hb : Ascii.isContinuation b with
    | true => simp [stepBack, hb]
    | false => simp [stepBack, hb]

end Position

namespace Scanner

/-- How far the scanner of labels and names goes, `n` bytes into the token: on over dots, which it
gives back where they end the name. -/
def nameReach (prefixed : Bool) : (skip n : ℕ) → Text → ℕ
  | _, n, [] => n
  | skip + 1, n, _ :: rest => nameReach prefixed skip (n + 1) rest
  | 0, n, b :: rest =>
    let (c, width) := Utf8.read b rest
    if prefixed ∧ b = Ascii.backslash ∧ rest ≠ [] then nameReach prefixed 1 (n + 1) rest
    else if isNameScalar c ∨ (prefixed ∧ (b = Ascii.colon ∨ b = Ascii.percent)) then
      nameReach prefixed (width - 1) (n + 1) rest
    else if b = Ascii.dot then nameReach prefixed 0 (n + 1) rest
    else n

/-- How far the scanner of numbers goes over what looks like an exponent, with digits or without. -/
def exponentReach : Text → ℕ
  | b :: rest =>
    if b = 101 ∨ b = 69 then 1 + signLength rest + digitCount (rest.drop (signLength rest)) else 0
  | [] => 0

/-- How far the scanner of numbers goes. -/
def numberReach (t : Text) : ℕ :=
  let sign := signLength t
  let whole := digitCount (t.drop sign)
  let fraction := fractionLength whole (t.drop (sign + whole))
  let mantissa := sign + whole + fraction
  if whole = 0 ∧ fraction = 0 then sign else mantissa + exponentReach (t.drop mantissa)

/-- How far the scanner goes that is chosen for `b :: rest`, when `size` bytes are passed over in the
end: most scanners go no further. -/
def reach (mode : Mode) (b : UInt8) (rest : Text) (size : ℕ) : ℕ :=
  if b = Ascii.underscore ∧ rest.head? = some Ascii.colon then nameReach false 0 2 (rest.drop 1)
  else if mode = .turtle then
    if (b = Ascii.dot ∧ 0 < digitCount rest) ∨ Ascii.isDigit b ∨ b = Ascii.plus ∨ b = Ascii.minus then
      numberReach (b :: rest)
    else if b = Ascii.colon ∨ 0x80 ≤ b ∨ Ascii.isLetter b then nameReach true 0 0 (b :: rest)
    else size
  else size

/-- The number of bytes that are passed over, whatever comes of it. -/
def passed : Except Misfit Lexeme → ℕ
  | .ok x => x.size
  | .error misfit => misfit.size

/-- A scanner that goes `reach` bytes on takes in `size` of them, and no line feed is among those that
it gives back. -/
structure GivesBack (t : Text) (size reach : ℕ) : Prop where
  le : size ≤ reach
  ne : ∀ i, size ≤ i → i < reach → t[i]? ≠ some Ascii.lineFeed

theorem GivesBack.refl (t : Text) (n : ℕ) : GivesBack t n n := ⟨le_rfl, by omega⟩

/-- A label or a name gives back dots. -/
theorem nameLength_gives_back {prefixed : Bool} {skip n best : ℕ} {t whole : Text}
    (ht : whole.drop n = t) (hskip : skip ≤ t.length) (hbest : best ≤ n + skip)
    (hdots : ∀ i, best ≤ i → i < n + skip → whole[i]? = some Ascii.dot) :
    nameLength prefixed skip n best t ≤ nameReach prefixed skip n t ∧
      ∀ i, nameLength prefixed skip n best t ≤ i → i < nameReach prefixed skip n t →
        whole[i]? = some Ascii.dot := by
  have hstep : ∀ {n : ℕ} {b : UInt8} {rest : Text}, whole.drop n = b :: rest →
      whole[n]? = some b ∧ whole.drop (n + 1) = rest := by
    intro n b rest h
    rw [← List.head?_drop, ← List.drop_drop, h]
    exact ⟨rfl, rfl⟩
  fun_induction nameLength prefixed skip n best t with
  | case1 skip n best =>
    rw [nameReach]
    simp only [List.length_nil, Nat.le_zero] at hskip
    subst hskip
    exact ⟨hbest, hdots⟩
  | case2 skip n best b rest ih =>
    rw [nameReach]
    rw [List.length_cons] at hskip
    exact ih (hstep ht).2 (by omega) (by omega) fun i hi hlt => hdots i hi (by omega)
  | case3 n best b rest c width hread hescape ih =>
    have hpos := List.length_pos_iff.mpr hescape.2.2
    rw [nameReach]
    simp only [if_pos hescape]
    exact ih (hstep ht).2 (by omega) (by omega) (by omega)
  | case4 n best b rest c width hread hescape hname ih =>
    obtain ⟨hpos, hwidth⟩ := Utf8.width_bounds hread
    rw [nameReach, hread]
    simp only [if_neg hescape, if_pos hname]
    exact ih (hstep ht).2 (by omega) (by omega) (by omega)
  | case5 n best rest c width hread hescape hname ih =>
    rw [nameReach, hread]
    simp only [if_neg hescape, if_neg hname, if_true]
    refine ih (hstep ht).2 (by omega) (by omega) fun i hi hlt => ?_
    rcases Nat.lt_or_ge i n with hlt' | hge
    · exact hdots i hi (by omega)
    · rw [show i = n by omega]
      exact (hstep ht).1
  | case6 n best b rest c width hread hescape hname hdot =>
    rw [nameReach, hread]
    simp only [if_neg hescape, if_neg hname, if_neg hdot]
    exact ⟨hbest, hdots⟩

theorem GivesBack.of_dots {t : Text} {size reach : ℕ} (h : size ≤ reach ∧
    ∀ i, size ≤ i → i < reach → t[i]? = some Ascii.dot) : GivesBack t size reach := by
  refine ⟨h.1, fun i hi hlt => ?_⟩
  rw [h.2 i hi hlt]
  decide

/-- A sign is no line feed. -/
theorem sign_ne {t : Text} {i : ℕ} (h : i < signLength t) : t[i]? ≠ some Ascii.lineFeed := by
  cases t with
  | nil => cases h
  | cons b rest =>
    rw [signLength] at h
    split_ifs at h with hb
    · rw [Nat.lt_one_iff.mp h, List.getElem?_cons_zero]
      rcases hb with rfl | rfl
      · decide
      · decide
    · cases h

/-- Where no digits follow, the letter of an exponent and its sign are given back. -/
theorem exponent_gives_back (t : Text) : GivesBack t (exponentLength t) (exponentReach t) := by
  cases t with
  | nil => exact .refl _ _
  | cons b rest =>
    rw [exponentLength, exponentReach]
    by_cases hb : b = 101 ∨ b = 69
    · rw [if_pos hb, if_pos hb]
      dsimp only
      split_ifs with hdigits
      · refine ⟨Nat.zero_le _, fun i _ hi => ?_⟩
        cases i with
        | zero =>
          rw [List.getElem?_cons_zero]
          rcases hb with rfl | rfl
          · decide
          · decide
        | succ i =>
          rw [List.getElem?_cons_succ]
          exact sign_ne (by omega)
      · exact .refl _ _
    · rw [if_neg hb, if_neg hb]
      exact .refl _ _

theorem GivesBack.behind {t : Text} {n size reach : ℕ} (h : GivesBack (t.drop n) size reach) :
    GivesBack t (n + size) (n + reach) := by
  refine ⟨Nat.add_le_add_left h.le n, fun i hi hlt => ?_⟩
  have hne := h.ne (i - n) (by omega) (by omega)
  rwa [List.getElem?_drop, show n + (i - n) = i by omega] at hne

theorem number_gives_back (t : Text) : GivesBack t (passed (number t)) (numberReach t) := by
  rw [number, numberReach]
  dsimp only
  generalize hwhole : digitCount (t.drop (signLength t)) = whole
  generalize fractionLength whole (t.drop (signLength t + whole)) = fraction
  by_cases hnone : whole = 0 ∧ fraction = 0
  · rw [if_pos hnone, if_pos hnone]
    exact ⟨Nat.zero_le _, fun i _ hi => sign_ne hi⟩
  · rw [if_neg hnone, if_neg hnone]
    exact (exponent_gives_back _).behind

theorem name_gives_back (t : Text) : GivesBack t (passed (name t)) (nameReach true 0 0 t) := by
  have hsize : passed (name t) = nameLength true 0 0 0 t := by
    rw [name]
    split_ifs <;> rfl
  rw [hsize]
  exact .of_dots (nameLength_gives_back rfl (Nat.zero_le _) le_rfl (by omega))

theorem label_gives_back (t : Text) :
    GivesBack t (blankLabel t).size (nameReach false 0 2 (t.drop 2)) :=
  .of_dots (nameLength_gives_back rfl (Nat.zero_le _) le_rfl (by omega))

/-- The bytes that have a scanner of their own. -/
def marks : List UInt8 :=
  [Ascii.lessThan, Ascii.underscore, Ascii.quote, Ascii.apostrophe, Ascii.atSign, Ascii.caret,
    Ascii.dot, Ascii.semicolon, Ascii.comma, Ascii.openBracket, Ascii.closeBracket, Ascii.openParen,
    Ascii.closeParen]

theorem notMem_marks {b : UInt8} (test : UInt8 → Bool) (htest : marks.any test = false)
    (hb : test b = true) : b ∉ marks := by
  intro hmem
  have hany : marks.any test = true := List.any_eq_true.mpr ⟨b, hmem, hb⟩
  exact Bool.false_ne_true (htest.symm.trans hany)

/-- Numbers and names are what is left. -/
theorem scan_unmarked (after : Bool) {b : UInt8} (rest : Text) (h : b ∉ marks) :
    scan .turtle after b rest =
      if Ascii.isDigit b || b == Ascii.plus || b == Ascii.minus then number (b :: rest)
      else if b == Ascii.colon || 0x80 ≤ b || Ascii.isLetter b then name (b :: rest)
      else .error ⟨0, Utf8.firstScalar (b :: rest), "unexpected character", 0⟩ := by
  simp only [marks, List.mem_cons, List.not_mem_nil, or_false, not_or] at h
  obtain ⟨h60, h95, h34, h39, h64, h94, h46, h59, h44, h91, h93, h40, h41⟩ := h
  have hbracket : bracket? b = none := by
    rw [bracket?, if_neg h91, if_neg h93, if_neg h40, if_neg h41]
  rw [scan, if_neg h60, if_neg fun h => h95 h.1, if_neg h34, if_neg fun h => h39 h.1, if_neg h64,
    if_neg h94, if_neg h46, if_neg h59, if_neg h44, if_pos rfl, scanTurtle, hbracket]

theorem scan_number (after : Bool) {b : UInt8} {rest : Text}
    (h : (b = Ascii.dot ∧ 0 < digitCount rest) ∨ Ascii.isDigit b ∨ b = Ascii.plus ∨ b = Ascii.minus) :
    scan .turtle after b rest = number (b :: rest) := by
  rcases h with ⟨rfl, hdigits⟩ | h
  · rw [scan, if_neg (by decide), if_neg (fun h => absurd h.1 (by decide)), if_neg (by decide),
      if_neg (fun h => absurd h.1 (by decide)), if_neg (by decide), if_neg (by decide), if_pos rfl,
      if_pos ⟨rfl, hdigits⟩]
  · have htest : (Ascii.isDigit b || b == Ascii.plus || b == Ascii.minus) = true := by
      simpa [or_assoc] using h
    have hmarks := notMem_marks (fun b => Ascii.isDigit b || b == Ascii.plus || b == Ascii.minus)
      (by decide) htest
    rw [scan_unmarked after rest hmarks, if_pos htest]

theorem scan_name (after : Bool) {b : UInt8} {rest : Text}
    (hnumber : ¬ (Ascii.isDigit b ∨ b = Ascii.plus ∨ b = Ascii.minus))
    (h : b = Ascii.colon ∨ 0x80 ≤ b ∨ Ascii.isLetter b) :
    scan .turtle after b rest = name (b :: rest) := by
  have htest : (b == Ascii.colon || 0x80 ≤ b || Ascii.isLetter b) = true := by
    simpa [or_assoc] using h
  have hnone : ¬ (Ascii.isDigit b || b == Ascii.plus || b == Ascii.minus) = true := by
    simpa [or_assoc] using hnumber
  have hmarks := notMem_marks (fun b => b == Ascii.colon || 0x80 ≤ b || Ascii.isLetter b)
    (by decide) htest
  rw [scan_unmarked after rest hmarks, if_neg hnone, if_pos htest]

/-- **What a scanner gives back holds no line feed.** -/
theorem gives_back (mode : Mode) (after : Bool) (b : UInt8) (rest : Text) :
    GivesBack (b :: rest) (passed (scan mode after b rest))
      (reach mode b rest (passed (scan mode after b rest))) := by
  rw [reach]
  by_cases hlabel : b = Ascii.underscore ∧ rest.head? = some Ascii.colon
  · rw [if_pos hlabel, scan, if_pos hlabel]
    obtain ⟨rfl, -⟩ := hlabel
    exact label_gives_back (Ascii.underscore :: rest)
  · rw [if_neg hlabel]
    by_cases hmode : mode = .turtle
    · subst hmode
      rw [if_pos rfl]
      split_ifs with hnumber hname
      · rw [scan_number after hnumber]
        exact number_gives_back _
      · rw [scan_name after (fun h => hnumber (.inr h)) hname]
        exact name_gives_back _
      · exact .refl _ _
    · rw [if_neg hmode]
      exact .refl _ _

end Scanner

namespace Lexer

/-- The lexer after it went `reach` bytes on and came back to the byte `size`. -/
def roam (l : Lexer) (reach size : ℕ) : Lexer :=
  { l with
    rest := l.rest.drop size
    position := (l.position.after (l.rest.take reach)).back ((l.rest.take reach).drop size) }

/-- Where the next token or error leaves the lexer, by the way that its scanner goes. -/
def nextByWay (l : Lexer) : Lexer :=
  let l := l.skipBlank
  match l.rest with
  | [] => { l with last := some .eof }
  | b :: rest =>
    match Scanner.scan l.mode l.afterString b rest with
    | .ok x => { l.roam (Scanner.reach l.mode b rest x.size) x.size with last := some x.kind }
    | .error misfit => l.roam (Scanner.reach l.mode b rest misfit.size) misfit.size

/-- What lies between two places holds no line feed if nothing between their offsets is one. -/
theorem ne_of_mem_between {t : Text} {size reach : ℕ} (h : Scanner.GivesBack t size reach) :
    ∀ b ∈ (t.take reach).drop size, b ≠ Ascii.lineFeed := by
  intro b hb
  obtain ⟨i, hi⟩ := List.mem_iff_getElem?.mp hb
  rw [List.getElem?_drop, List.getElem?_take] at hi
  split_ifs at hi with hlt
  intro hline
  rw [hline] at hi
  exact h.ne (size + i) (Nat.le_add_right _ _) hlt hi

theorem roam_eq_advance {l : Lexer} {size reach : ℕ} (h : Scanner.GivesBack l.rest size reach) :
    l.roam reach size = l.advance size := by
  have hsplit : l.rest.take reach = l.rest.take size ++ (l.rest.take reach).drop size := by
    conv_lhs => rw [← List.take_append_drop size (l.rest.take reach), List.take_take,
      Nat.min_eq_left h.le]
  have hposition : (l.position.after (l.rest.take reach)).back ((l.rest.take reach).drop size)
      = l.position.after (l.rest.take size) := by
    rw [congrArg l.position.after hsplit, Position.after_append,
      Position.back_after _ (ne_of_mem_between h)]
  rw [roam, hposition, advance]

/-- **The way there and back ends where the token does.** -/
theorem nextByWay_eq (l : Lexer) : l.nextByWay = l.next.2 := by
  rw [nextByWay, next, token]
  cases hrest : l.skipBlank.rest with
  | nil => rfl
  | cons b rest =>
    have hway := Scanner.gives_back l.skipBlank.mode l.skipBlank.afterString b rest
    rw [← hrest] at hway
    simp only
    cases hscan : Scanner.scan l.skipBlank.mode l.skipBlank.afterString b rest with
    | ok x =>
      rw [hscan] at hway
      exact congrArg (fun m : Lexer => { m with last := some x.kind }) (roam_eq_advance hway)
    | error misfit =>
      rw [hscan] at hway
      exact roam_eq_advance hway

/-- **All places are those of the text**, in both modes, after any number of tokens and errors.  The
lexer stands at the offset that it has come to, with the line and the column of that offset; the
next token or error has a place of the text; and the lexer goes on from where its scanner has come
back to. -/
theorem places_are_those_of_the_text (mode : Mode) (text : Text) (n : ℕ) :
    let l := (start mode text).asked n
    l.position.LiesIn text ∧ l.rest = text.drop l.position.offset.toNat ∧
      (∀ t, l.next.1 = .ok t → t.position.LiesIn text) ∧
      (∀ e, l.next.1 = .error e → e.position.LiesIn text) ∧
      (start mode text).asked (n + 1) = l.nextByWay := by
  intro l
  have hl : l.Follows text := (follows_start mode text).asked n
  obtain ⟨-, htokens, herrors⟩ := hl.next
  refine ⟨hl.liesIn, hl.rest_eq, htokens, herrors, ?_⟩
  rw [asked, Function.iterate_succ_apply', nextByWay_eq]
  rfl

/-- An escape in a name takes in a line feed, and the full stop behind the name is given back. -/
example : ((start .turtle [97, 58, 92, 10, 98, 46]).next.2).position = ⟨5, 2, 2⟩ := by
  decide

end Lexer

end TripleStore
