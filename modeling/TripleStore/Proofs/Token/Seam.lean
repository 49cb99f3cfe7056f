import TripleStore.Proofs.Token.Local
import TripleStore.Proofs.Token.Position

/-!
# A text behind another one

A line feed stands between two texts.  A lexer reads the tokens of the first text as if it stood
alone, and comes to the second as to a text of its own, only that its tokens stand somewhere else.

* `Lexer.next_seam`, `Lexer.next_seam_eof`: a token of the first text, and what follows its last one.
* `TokenStream.move`, `Lexer.Moved.ofLexer`: the tokens of a text that stands somewhere else.
* `TokenStream.ofText_seam`: **the tokens of two texts are those of the first, then those of the
  second.**
-/

namespace TripleStore

/-! ### Places -/

namespace Position

/-- A place of a text that stands at `e`, where a line begins. -/
def beyond (e p : Position) : Position := ⟨e.offset + p.offset, e.line + (p.line - 1), p.column⟩

theorem step_beyond (e p : Position) (b : UInt8) : (e.beyond p).step b = e.beyond (p.step b) := by
  rw [step, step]
  split_ifs
  · simp only [beyond, mk.injEq, and_true]
    omega
  · simp only [beyond, mk.injEq, and_true]
    omega
  · simp only [beyond, mk.injEq, and_true]
    omega

theorem after_beyond (e p : Position) (t : Text) : (e.beyond p).after t = e.beyond (p.after t) := by
  induction t generalizing p with
  | nil => rfl
  | cons b t ih =>
    show ((e.beyond p).step b).after t = _
    rw [step_beyond, ih]
    rfl

/-- A text that stands behind a line feed begins there. -/
theorem beyond_start (p : Position) (t : Text) :
    (p.after (t ++ [Ascii.lineFeed])).beyond start = p.after (t ++ [Ascii.lineFeed]) := by
  rw [after_append]
  show (beyond ((p.after t).step Ascii.lineFeed) start) = (p.after t).step Ascii.lineFeed
  simp [step, beyond, start]

end Position

/-- A token at another place. -/
def Token.move (f : Position → Position) (t : Token) : Token := { t with position := f t.position }

/-- A lexical error at another place. -/
def LexError.move (f : Position → Position) (e : LexError) : LexError :=
  { e with position := f e.position }

namespace TokenStream

/-- A stream whose text stands somewhere else. -/
def move (f : Position → Position) : TokenStream → TokenStream
  | .done p => .done (f p)
  | .fault e => .fault (e.move f)
  | .token t rest => .token (t.move f) (rest.move f)

theorem move_after (f : Position → Position) (ts : List Token) (rest : TokenStream) :
    (after ts rest).move f = after (ts.map (Token.move f)) (rest.move f) := by
  induction ts with
  | nil => rfl
  | cons t ts ih => rw [after_cons, move, ih, List.map_cons, after_cons]

/-- A bound on the number of tokens that is larger than the number of bytes is never used up. -/
theorem ofLexer_stable {l : Lexer} {m n : ℕ} (hm : l.rest.length < m) (hn : l.rest.length < n) :
    ofLexer m l = ofLexer n l := by
  induction m generalizing l n with
  | zero => omega
  | succ m ih =>
    obtain ⟨n, rfl⟩ := Nat.exists_eq_succ_of_ne_zero (Nat.ne_zero_of_lt hn)
    rw [ofLexer, ofLexer]
    split
    · rfl
    · next t l' hnext =>
      split_ifs with hk
      · rfl
      · have hlt := Lexer.next_shortens hnext hk
        have hlater : ofLexer m l' = ofLexer n l' := ih (by omega) (by omega)
        rw [hlater]

end TokenStream

namespace Lexer

open Scanner (DeadEnd)

variable {l m : Lexer} {t : Token} {ts : List Token}

/-- A text that can be read to its end does not begin with dots and a backslash. -/
theorem Reads.rest_ne_dots (h : l.Reads ts) (k : ℕ) (v : Text) :
    l.rest ≠ List.replicate k Ascii.dot ++ Ascii.backslash :: v := by
  intro hrest
  induction k generalizing l ts with
  | zero =>
    have hskip : l.skipBlank.rest = Ascii.backslash :: v := skipBlank_rest_of_head hrest rfl
    obtain ⟨t, m, hnext⟩ := h.exists_next
    rcases next_cases hnext with ⟨hnil, -, -⟩ | ⟨b, rest, x, hcons, hx, -, -⟩
    · rw [hskip] at hnil
      cases hnil
    · rw [hskip] at hcons
      cases hcons
      rw [Scanner.scan_backslash] at hx
      cases hx
  | succ k ih =>
    have hskip := skipBlank_rest_of_head (b := Ascii.dot) hrest rfl
    have hnext := next_scan hskip (Scanner.scan_dots k v)
    cases h with
    | done hnext' hk =>
      rw [hnext] at hnext'
      cases hnext'
      cases hk
    | token hnext' hk hlater =>
      rw [hnext] at hnext'
      cases hnext'
      refine ih hlater ?_
      rw [advance, hskip]
      rfl

theorem Reads.not_deadEnd (h : l.Reads ts) : ¬ DeadEnd l.rest :=
  fun ⟨k, hk⟩ => h.rest_ne_dots k [] hk

theorem next_misfit {b : UInt8} {rest : Text} {misfit : Misfit} (h : l.skipBlank.rest = b :: rest)
    (hx : Scanner.scan l.mode l.afterString b rest = .error misfit) :
    l.next = (.error ⟨l.skipBlank.position.after (l.skipBlank.rest.take misfit.offset), misfit.char,
      misfit.detail⟩, l.skipBlank.advance misfit.size) := by
  rw [next, token]
  split
  · next hrest =>
    rw [h] at hrest
    cases hrest
  · next hrest =>
    rw [h] at hrest
    cases hrest
    have hscan : Scanner.scan l.skipBlank.mode l.skipBlank.afterString b rest = .error misfit := hx
    rw [hscan]

/-- Reading on does not change where a text ends. -/
theorem end_next (h : l.next = (.ok t, m)) (s : Text) :
    m.position.after (m.rest ++ s) = l.position.after (l.rest ++ s) := by
  have hadvance (l : Lexer) (n : ℕ) :
      (l.advance n).position.after ((l.advance n).rest ++ s) = l.position.after (l.rest ++ s) := by
    rw [advance, ← Position.after_append, ← List.append_assoc, List.take_append_drop]
  rcases next_cases h with ⟨-, -, rfl⟩ | ⟨b, rest, x, -, -, -, rfl⟩
  · exact hadvance l _
  · exact (hadvance l.skipBlank _).trans (hadvance l _)

/-- The same lexer with another text behind its own. -/
def joined (l : Lexer) (w : Text) : Lexer := { l with rest := l.rest ++ w }

/-- The lexer at the beginning of a text that stands behind a line feed. -/
def beyond (l : Lexer) (w : Text) : Lexer :=
  { l with rest := w, position := l.position.after (l.rest ++ [Ascii.lineFeed]) }

theorem advance_joined {n : ℕ} (hn : n ≤ l.rest.length) (w : Text) :
    (l.joined w).advance n = (l.advance n).joined w := by
  rw [advance, joined, List.drop_append_of_le_length hn, List.take_append_of_le_length hn]
  rfl

theorem skipBlank_joined_of_lt (h : blankLength false l.rest < l.rest.length) (w : Text) :
    (l.joined w).skipBlank = l.skipBlank.joined w := by
  rw [skipBlank, joined, blankLength_seam_of_lt h]
  exact advance_joined h.le w

theorem skipBlank_joined_of_eq (h : blankLength false l.rest = l.rest.length) (w : Text) :
    (l.joined (Ascii.lineFeed :: w)).skipBlank = (l.beyond w).skipBlank := by
  have hdrop : (l.rest ++ Ascii.lineFeed :: w).drop (l.rest.length + (1 + blankLength false w))
      = w.drop (blankLength false w) := by
    rw [List.drop_length_add_append, Nat.add_comm 1, List.drop_succ_cons]
  have htake : (l.rest ++ Ascii.lineFeed :: w).take (l.rest.length + (1 + blankLength false w))
      = l.rest ++ [Ascii.lineFeed] ++ w.take (blankLength false w) := by
    rw [List.take_length_add_append, Nat.add_comm 1, List.take_succ_cons, List.append_assoc,
      List.singleton_append]
  rw [skipBlank, skipBlank, joined, blankLength_seam_of_eq h, advance, advance, beyond, hdrop, htake,
    Position.after_append]

/-- **A token is read in front of a blank as at the end of a text.** -/
theorem next_seam {c : UInt8} (hc : c ∈ blankBytes) (h : l.next = (.ok t, m)) (hk : t.kind ≠ .eof)
    (hend : ¬ DeadEnd m.rest) (w : Text) :
    (l.joined (c :: w)).next = (.ok t, m.joined (c :: w)) := by
  rcases next_cases h with ⟨-, rfl, -⟩ | ⟨b, rest, x, hrest, hx, rfl, rfl⟩
  · exact absurd rfl hk
  · have hlt : blankLength false l.rest < l.rest.length := by
      have hlength := congrArg List.length hrest
      rw [skipBlank, advance, List.length_drop, List.length_cons] at hlength
      omega
    have hskip := skipBlank_joined_of_lt hlt (c :: w)
    have hbehind : (l.skipBlank.advance x.size).rest = (b :: rest).drop x.size := by
      rw [advance, hrest]
    simp only [hbehind] at hend
    obtain ⟨hscan, hsize⟩ := Scanner.scan_seam hc hx hend w
    have hjoined : (l.joined (c :: w)).skipBlank.rest = b :: (rest ++ c :: w) := by
      rw [hskip, joined, hrest, List.cons_append]
    rw [next_scan hjoined hscan, hskip, advance_joined (by rw [hrest]; exact hsize)]
    rfl

/-- At the end of a text, what is read is the token that the other text begins with. -/
theorem next_seam_eof (h : l.next = (.ok t, m)) (hk : t.kind = .eof) (w : Text) :
    (l.joined (Ascii.lineFeed :: w)).next = (l.beyond w).next := by
  rcases next_cases h with ⟨hnil, -, -⟩ | ⟨b, rest, x, -, hx, rfl, -⟩
  · rw [skipBlank, advance, List.drop_eq_nil_iff] at hnil
    rw [next, next, skipBlank_joined_of_eq (Nat.le_antisymm (blankLength_le _ _) hnil)]
  · exact absurd hk (Scanner.kind_ne_eof_of_scan hx)

/-- Two lexers in front of the same text, every place of which stands at another one for the
second. -/
structure Moved (f : Position → Position) (l l' : Lexer) : Prop where
  mode : l'.mode = l.mode
  rest : l'.rest = l.rest
  places : ∀ n, l'.position.after (l.rest.take n) = f (l.position.after (l.rest.take n))
  afterString : l'.afterString = l.afterString

namespace Moved

variable {f : Position → Position} {l' : Lexer}

theorem position (h : l.Moved f l') : l'.position = f l.position := h.places 0

theorem advance (h : l.Moved f l') (n : ℕ) : (l.advance n).Moved f (l'.advance n) := by
  refine ⟨h.mode, ?_, fun m => ?_, h.afterString⟩
  · rw [Lexer.advance, Lexer.advance, h.rest]
  · rw [Lexer.advance, Lexer.advance, h.rest]
    dsimp only
    rw [← Position.after_append, ← Position.after_append, ← List.take_add]
    exact h.places (n + m)

theorem skipBlank (h : l.Moved f l') : l.skipBlank.Moved f l'.skipBlank := by
  rw [Lexer.skipBlank, Lexer.skipBlank, h.rest]
  exact h.advance _

/-- Two such lexers read the same token, or meet the same error, each at its own place. -/
theorem next (h : l.Moved f l') :
    match l.next with
    | (.ok t, m) => ∃ m', l'.next = (.ok (t.move f), m') ∧ m.Moved f m'
    | (.error e, _) => ∃ m', l'.next = (.error (e.move f), m') := by
  have hskip := h.skipBlank
  cases hrest : l.skipBlank.rest with
  | nil =>
    rw [next_end hrest]
    refine ⟨{ l'.skipBlank with last := some .eof }, ?_, hskip.mode, hskip.rest, hskip.places, rfl⟩
    rw [next_end (hskip.rest.trans hrest), hskip.position]
    rfl
  | cons b rest =>
    have hrest' := hskip.rest.trans hrest
    cases hx : Scanner.scan l.mode l.afterString b rest with
    | ok x =>
      have hadvance := hskip.advance x.size
      have hx' := hx
      rw [← h.mode, ← h.afterString] at hx'
      rw [next_scan hrest hx]
      refine ⟨{ l'.skipBlank.advance x.size with last := some x.kind }, ?_, hadvance.mode,
        hadvance.rest, hadvance.places, rfl⟩
      rw [next_scan hrest' hx', hskip.position]
      rfl
    | error misfit =>
      have hx' := hx
      rw [← h.mode, ← h.afterString] at hx'
      rw [next_misfit hrest hx]
      refine ⟨l'.skipBlank.advance misfit.size, ?_⟩
      rw [next_misfit hrest' hx', hskip.rest, hskip.places]
      rfl

/-- **The tokens of a text that stands somewhere else.** -/
theorem ofLexer (h : l.Moved f l') (fuel : ℕ) :
    TokenStream.ofLexer fuel l' = (TokenStream.ofLexer fuel l).move f := by
  induction fuel generalizing l l' with
  | zero => exact congrArg TokenStream.done h.position
  | succ fuel ih =>
    have hnext := h.next
    rw [TokenStream.ofLexer, TokenStream.ofLexer]
    rcases hl : l.next with ⟨t | t, m⟩
    · rw [hl] at hnext
      obtain ⟨m', hl'⟩ := hnext
      rw [hl']
      rfl
    · rw [hl] at hnext
      obtain ⟨m', hl', hm⟩ := hnext
      rw [hl']
      by_cases hk : t.kind = .eof
      · simp only [Token.move, hk, if_true, TokenStream.move]
      · simp only [Token.move, hk, if_false, TokenStream.move, ih hm]

end Moved

/-- At the end of a text whose last token is no string, the other text is read as from its own
beginning. -/
theorem beyond_moved (hl : l.afterString = false) (w : Text) :
    (start l.mode w).Moved (l.position.after (l.rest ++ [Ascii.lineFeed])).beyond (l.beyond w) := by
  refine ⟨rfl, rfl, fun n => ?_, hl⟩
  rw [← Position.after_beyond]
  exact congrArg (Position.after · (w.take n)) (Position.beyond_start _ _).symm

/-- **The tokens of two texts are those of the first, then those of the second**, from any place of
the first text on. -/
theorem Reads.ofLexer_seam (h : l.Reads ts) (hts : ∀ t ∈ ts.getLast?, t.kind.isString = false)
    (hl : ts = [] → l.afterString = false) (w : Text) {m n : ℕ}
    (hm : (l.joined (Ascii.lineFeed :: w)).rest.length < m) (hn : w.length < n) :
    TokenStream.ofLexer m (l.joined (Ascii.lineFeed :: w)) = TokenStream.after ts ((TokenStream.ofLexer n
      (start l.mode w)).move (l.position.after (l.rest ++ [Ascii.lineFeed])).beyond) := by
  induction h generalizing m with
  | @done l l' t hnext hk =>
    have hlength : w.length < m := by
      rw [joined, List.length_append, List.length_cons] at hm
      omega
    have hsame : TokenStream.ofLexer m (l.joined (Ascii.lineFeed :: w))
        = TokenStream.ofLexer m (l.beyond w) := by
      obtain ⟨m, rfl⟩ := Nat.exists_eq_succ_of_ne_zero (Nat.ne_zero_of_lt hlength)
      rw [TokenStream.ofLexer, TokenStream.ofLexer, next_seam_eof hnext hk]
    rw [hsame, (beyond_moved (hl rfl) w).ofLexer,
      TokenStream.ofLexer_stable (l := start l.mode w) hlength hn]
    rfl
  | @token l l' t ts hnext hk hlater ih =>
    obtain ⟨m, rfl⟩ := Nat.exists_eq_succ_of_ne_zero (Nat.ne_zero_of_lt hm)
    have hjoined := next_seam (c := Ascii.lineFeed) (by decide) hnext hk hlater.not_deadEnd w
    have hlt := next_shortens hjoined hk
    have hplace : l'.position.after (l'.rest ++ [Ascii.lineFeed])
        = l.position.after (l.rest ++ [Ascii.lineFeed]) := end_next hnext _
    have hlast : ∀ u ∈ ts.getLast?, u.kind.isString = false := by
      intro u hu
      exact hts u (by rw [List.getLast?_cons, hu]; rfl)
    have hempty : ts = [] → l'.afterString = false := by
      rintro rfl
      rw [afterString_next hnext]
      exact hts t rfl
    rw [TokenStream.ofLexer, hjoined]
    simp only [hk, if_false]
    rw [ih hlast hempty (by omega), hplace, mode_next hnext]
    rfl

end Lexer

/-- **The tokens of two texts are those of the first, then those of the second**, where the first can
be read to its end and its last token is no string. -/
theorem TokenStream.ofText_seam {mode : Mode} {t : Text} {ts : List Token} {p : Position}
    (h : ofText mode t = after ts (.done p)) (hts : ∀ u ∈ ts.getLast?, u.kind.isString = false)
    (w : Text) :
    ofText mode (t ++ Ascii.lineFeed :: w)
      = after ts ((ofText mode w).move (Position.start.after (t ++ [Ascii.lineFeed])).beyond) :=
  (Lexer.reads_iff_ofText.mpr ⟨p, h⟩).ofLexer_seam hts (fun _ => rfl) w (Nat.lt_succ_self _)
    (Nat.lt_succ_self _)

end TripleStore
