import TripleStore.Proofs.Token.Local
import TripleStore.Proofs.Token.Position

/-!
# The tokens cover the text

A lexer passes over every byte of its text once.  What it passes over between two tokens is white
space and comments, what a token takes is not empty, and the end is reported when nothing but white
space and comments is left, and then again and again.

* `Blank`: white space and comments; `blank_take`, `Blank.blankLength_append`: what is skipped.
* `Lexer.next_token`, `Lexer.next_end_iff`, `Lexer.next_again`: one answer of a lexer.
* `Tiled`: a text cut into tokens and what stands between them; `Lexer.Reads.tiled`.
* `Lexer.tokens_cover_text`: **the tokens cover the text.**
-/

namespace TripleStore

/-! ### White space and comments -/

/-- White space and comments.  A comment runs from its sign to its line feed; only where the text ends,
which `final` says, the last one may do without. -/
inductive Blank : (final : Bool) → Text → Prop
  | nil {final : Bool} : Blank final []
  | white {final : Bool} {b : UInt8} {t : Text} :
      b = Ascii.space ∨ b = Ascii.tab ∨ b = Ascii.lineFeed ∨ b = Ascii.carriageReturn →
      Blank final t → Blank final (b :: t)
  | comment {final : Bool} {c t : Text} : Ascii.lineFeed ∉ c → Blank final t →
      Blank final (Ascii.hash :: (c ++ Ascii.lineFeed :: t))
  | last {c : Text} : Ascii.lineFeed ∉ c → Blank true (Ascii.hash :: c)

/-- The sign of a comment that has been passed already. -/
def commentSign (comment : Bool) : Text := if comment then [Ascii.hash] else []

/-- A comment may be longer at its beginning. -/
theorem Blank.comment_cons {final : Bool} {b : UInt8} {t : Text} (hb : b ≠ Ascii.lineFeed)
    (h : Blank final (Ascii.hash :: t)) : Blank final (Ascii.hash :: b :: t) := by
  cases h with
  | white hwhite _ => exact absurd hwhite (by decide)
  | @comment _ c t hc ht =>
    have hbc : Ascii.lineFeed ∉ b :: c := List.not_mem_cons_of_ne_of_not_mem hb.symm hc
    exact .comment hbc ht
  | last hc => exact .last (List.not_mem_cons_of_ne_of_not_mem hb.symm hc)

/-- **What is skipped is white space and comments**; the last comment is cut off by the end of the
text or not at all. -/
theorem blank_take (comment : Bool) (t : Text) {final : Bool}
    (hfinal : blankLength comment t = t.length → final = true) :
    Blank final (commentSign comment ++ t.take (blankLength comment t)) := by
  fun_induction blankLength comment t with
  | case1 comment =>
    cases comment with
    | false => exact .nil
    | true =>
      rw [hfinal rfl]
      exact .last List.not_mem_nil
  | case2 rest ih =>
    rw [Nat.add_comm, List.take_succ_cons]
    rw [List.length_cons] at hfinal
    exact .comment List.not_mem_nil (ih fun h => hfinal (by omega))
  | case3 b rest hb ih =>
    rw [Nat.add_comm, List.take_succ_cons]
    rw [List.length_cons] at hfinal
    exact .comment_cons hb (ih fun h => hfinal (by omega))
  | case4 b rest hb ih =>
    rw [Nat.add_comm, List.take_succ_cons]
    rw [List.length_cons] at hfinal
    exact .white hb (ih fun h => hfinal (by omega))
  | case5 rest hb ih =>
    rw [Nat.add_comm, List.take_succ_cons]
    rw [List.length_cons] at hfinal
    exact ih fun h => hfinal (by omega)
  | case6 b rest hb hb' => exact .nil

theorem blankLength_white {b : UInt8}
    (hb : b = Ascii.space ∨ b = Ascii.tab ∨ b = Ascii.lineFeed ∨ b = Ascii.carriageReturn) (t : Text) :
    blankLength false (b :: t) = 1 + blankLength false t := by
  rw [blankLength, if_pos hb]

theorem blankLength_hash (t : Text) :
    blankLength false (Ascii.hash :: t) = 1 + blankLength true t := by
  rw [blankLength, if_neg (by decide), if_pos rfl]

/-- A comment is skipped up to its line feed. -/
theorem blankLength_comment {c : Text} (hc : Ascii.lineFeed ∉ c) (t : Text) :
    blankLength true (c ++ Ascii.lineFeed :: t) = c.length + 1 + blankLength false t := by
  induction c with
  | nil => rw [List.nil_append, blankLength, if_pos rfl, List.length_nil, Nat.zero_add]
  | cons b c ih =>
    obtain ⟨hb, hc⟩ := List.ne_and_not_mem_of_not_mem_cons hc
    rw [List.cons_append, blankLength, if_neg hb.symm, ih hc, List.length_cons]
    omega

/-- A comment without a line feed is skipped up to the end of the text. -/
theorem blankLength_open {c : Text} (hc : Ascii.lineFeed ∉ c) : blankLength true c = c.length := by
  induction c with
  | nil => rfl
  | cons b c ih =>
    obtain ⟨hb, hc⟩ := List.ne_and_not_mem_of_not_mem_cons hc
    rw [blankLength, if_neg hb.symm, ih hc, List.length_cons, Nat.add_comm]

namespace Blank

/-- **White space and comments are skipped**, whatever stands behind them. -/
theorem blankLength_append {final : Bool} {g : Text} (h : Blank final g) (hfinal : final = false)
    (t : Text) : blankLength false (g ++ t) = g.length + blankLength false t := by
  induction h with
  | nil => rw [List.nil_append, List.length_nil, Nat.zero_add]
  | white hb _ ih =>
    rw [List.cons_append, blankLength_white hb, ih hfinal, List.length_cons]
    omega
  | @comment _ c g hc _ ih =>
    rw [List.cons_append, List.append_assoc, List.cons_append, blankLength_hash,
      blankLength_comment hc, ih hfinal, List.length_cons, List.length_append, List.length_cons]
    omega
  | last _ => cases hfinal

/-- White space and comments at the end of a text are skipped. -/
theorem blankLength_eq {final : Bool} {g : Text} (h : Blank final g) :
    blankLength false g = g.length := by
  induction h with
  | nil => rfl
  | white hb _ ih => rw [blankLength_white hb, ih, List.length_cons, Nat.add_comm]
  | @comment _ c g hc _ ih =>
    rw [blankLength_hash, blankLength_comment hc, ih, List.length_cons, List.length_append,
      List.length_cons]
    omega
  | last hc => rw [blankLength_hash, blankLength_open hc, List.length_cons, Nat.add_comm]

end Blank

/-! ### One answer -/

theorem Position.offset_after (p : Position) (t : Text) :
    (p.after t).offset = p.offset + t.length := by
  induction t generalizing p with
  | nil => exact (Int.add_zero _).symm
  | cons b t ih =>
    have hstep : (p.step b).offset = p.offset + 1 := by
      rw [step]
      split_ifs <;> rfl
    show ((p.step b).after t).offset = _
    rw [ih, hstep, List.length_cons]
    push_cast
    ring

namespace Lexer

variable {l l' : Lexer} {t : Token} {ts : List Token}

/-- What stands in front of the next token, and where that token begins. -/
theorem skipBlank_rest (l : Lexer) :
    l.rest = l.rest.take (blankLength false l.rest) ++ l.skipBlank.rest :=
  (List.take_append_drop _ _).symm

/-- **A token stands behind white space and takes at least one byte**; the next token is looked for
behind it. -/
theorem next_token (h : l.next = (.ok t, l')) (hk : t.kind ≠ .eof) :
    ∃ gap word, l.rest = gap ++ word ++ l'.rest ∧ Blank false gap ∧ word ≠ [] ∧
      t.position = l.position.after gap ∧ l'.position = t.position.after word := by
  rcases next_cases h with ⟨-, rfl, -⟩ | ⟨b, rest, x, hrest, hx, rfl, rfl⟩
  · exact absurd rfl hk
  · have hlong : blankLength false l.rest ≠ l.rest.length := by
      intro heq
      rw [skipBlank, advance, heq, List.drop_length] at hrest
      cases hrest
    have hword : l.skipBlank.rest.take x.size ≠ [] := by
      rw [hrest, Ne, List.take_eq_nil_iff, not_or]
      exact ⟨Nat.ne_of_gt (Scanner.size_pos hx), List.cons_ne_nil b rest⟩
    refine ⟨l.rest.take (blankLength false l.rest), l.skipBlank.rest.take x.size, ?_,
      blank_take false l.rest fun heq => absurd heq hlong, hword, rfl, rfl⟩
    rw [List.append_assoc]
    exact l.skipBlank_rest.trans (congrArg _ (List.take_append_drop _ _).symm)

/-- **The end is reported exactly where only white space and comments are left.** -/
theorem next_end_iff : (∃ t l', l.next = (.ok t, l') ∧ t.kind = .eof) ↔ Blank true l.rest := by
  constructor
  · rintro ⟨t, l', h, hk⟩
    rcases next_cases h with ⟨hnil, -, -⟩ | ⟨b, rest, x, -, hx, rfl, -⟩
    · have hblank : Blank true (l.rest.take (blankLength false l.rest)) :=
        blank_take false l.rest fun _ => rfl
      have htake := l.skipBlank_rest
      rw [hnil, List.append_nil] at htake
      rw [htake]
      exact hblank
    · exact absurd hk (Scanner.kind_ne_eof_of_scan hx)
  · intro h
    have hnil : l.skipBlank.rest = [] := by
      rw [skipBlank, advance, h.blankLength_eq, List.drop_length]
    exact ⟨_, _, next_end hnil, rfl⟩

theorem skipBlank_nil (h : l.rest = []) : l.skipBlank = l := by
  obtain ⟨mode, rest, position, last⟩ := l
  cases h
  rfl

/-- **The end is reported again and again**, at the end of the text. -/
theorem next_again (h : l.next = (.ok t, l')) (hk : t.kind = .eof) :
    t.position = l.position.after l.rest ∧ l'.next = (.ok t, l') := by
  rcases next_cases h with ⟨hnil, rfl, rfl⟩ | ⟨b, rest, x, -, hx, rfl, -⟩
  · have htake := l.skipBlank_rest
    rw [hnil, List.append_nil] at htake
    refine ⟨congrArg l.position.after htake.symm, ?_⟩
    have hskip : ({ l.skipBlank with last := some .eof } : Lexer).skipBlank
        = { l.skipBlank with last := some .eof } := skipBlank_nil hnil
    have hend := next_end (l := { l.skipBlank with last := some .eof })
      ((congrArg Lexer.rest hskip).trans hnil)
    rw [hskip] at hend
    exact hend
  · exact absurd hk (Scanner.kind_ne_eof_of_scan hx)

end Lexer

/-! ### All answers -/

/-- A text, at an offset of the document, cut into tokens and what stands in front of each of them;
white space and comments are left behind the last one. -/
inductive Tiled : (offset : Int) → List Token → Text → Prop
  | done {offset : Int} {gap : Text} : Blank true gap → Tiled offset [] gap
  | token {offset : Int} {t : Token} {ts : List Token} {gap word rest : Text} : Blank false gap →
      word ≠ [] → t.position.offset = offset + gap.length →
      Tiled (t.position.offset + word.length) ts rest → Tiled offset (t :: ts) (gap ++ word ++ rest)

namespace Lexer

open TokenStream

/-- **The tokens that a lexer gives up to the end cut its text in pieces.** -/
theorem Reads.tiled {l : Lexer} {ts : List Token} (h : l.Reads ts) :
    Tiled l.position.offset ts l.rest := by
  induction h with
  | done hnext hk => exact .done (next_end_iff.mp ⟨_, _, hnext, hk⟩)
  | token hnext hk _ ih =>
    obtain ⟨gap, word, hrest, hgap, hword, hposition, hbehind⟩ := next_token hnext hk
    rw [hbehind, Position.offset_after] at ih
    rw [hrest]
    exact .token hgap hword (by rw [hposition, Position.offset_after]) ih

theorem asked_add (m n : ℕ) (l : Lexer) : l.asked (m + n) = (l.asked n).asked m :=
  Function.iterate_add_apply _ m n l

/-- What has been reported at the end of the text stays as it is. -/
theorem asked_of_end {l : Lexer} {t : Token} (h : l.next = (.ok t, l)) (k : ℕ) : l.asked k = l := by
  induction k with
  | zero => rfl
  | succ k ih =>
    rw [asked_add k 1 l]
    have hone : l.asked 1 = l := congrArg Prod.snd h
    rw [hone, ih]

/-- **The tokens cover the text**, in both modes, after any number of answers.  The lexer stands in
front of what its offset says.  A token has white space and comments in front of it and takes at least
one byte, and the next one is looked for where it ends.  The end is reported exactly where nothing but
white space and comments is left, and from then on always, at the same place.  A text that can be read
to its end is cut into its tokens and what is skipped between them. -/
theorem tokens_cover_text (mode : Mode) (text : Text) (n : ℕ) :
    let l := (start mode text).asked n
    l.rest = text.drop l.position.offset.toNat ∧
      (∀ t l', l.next = (.ok t, l') → t.kind ≠ .eof →
        ∃ gap word, l.rest = gap ++ word ++ l'.rest ∧ Blank false gap ∧ word ≠ [] ∧
          t.position.offset = l.position.offset + gap.length ∧
          l'.position.offset = t.position.offset + word.length) ∧
      ((∃ t l', l.next = (.ok t, l') ∧ t.kind = .eof) ↔ Blank true l.rest) ∧
      (∀ t l', l.next = (.ok t, l') → t.kind = .eof →
        t.position.offset = text.length ∧ ∀ k, (l.asked k).next = (.ok t, l')) ∧
      ∀ ts p, ofText mode text = after ts (.done p) → Tiled 0 ts text := by
  intro l
  have hl : l.Follows text := (follows_start mode text).asked n
  refine ⟨hl.rest_eq, fun t l' hnext hk => ?_, next_end_iff, fun t l' hnext hk => ?_,
    fun ts p hts => (reads_iff_ofText.mpr ⟨p, hts⟩).tiled⟩
  · obtain ⟨gap, word, hrest, hgap, hword, hposition, hbehind⟩ := next_token hnext hk
    exact ⟨gap, word, hrest, hgap, hword, by rw [hposition, Position.offset_after],
      by rw [hbehind, Position.offset_after]⟩
  · obtain ⟨hposition, hagain⟩ := next_again hnext hk
    obtain ⟨before, htext, hbefore⟩ := hl
    refine ⟨?_, fun k => ?_⟩
    · rw [hposition, hbefore, ← Position.after_append, ← htext, Position.after_start]
    · cases k with
      | zero => exact hnext
      | succ k =>
        have hone : l.asked 1 = l' := congrArg Prod.snd hnext
        rw [asked_add k 1 l, hone, asked_of_end hagain, hagain]

end Lexer

end TripleStore
