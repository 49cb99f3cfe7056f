import TripleStore.Proofs.Token.Cover
import TripleStore.Proofs.Token.Cut
import TripleStore.Proofs.Token.Seam

/-!
# Space between tokens

White space and comments may be put in front of any token of a text, and at its end.  The tokens in
front of that place end where they ended, since each is told by its own bytes and a blank makes none
longer; the tokens behind it are read as before, only that they stand somewhere else.

* `Blank.append`: white space behind white space.
* `Lexer.next_cut`, `Lexer.next_spaced`: a token in front of the place.
* `Lexer.Moved.reads`: the tokens behind the place.
* `Position.replaced`: where a place stands when what stands in front of it changes.
* `Lexer.Reads.spaced`, `TokenStream.exists_ofText_spaced`: **the tokens of a text with more space.**
-/

namespace TripleStore

/-! ### White space behind white space -/

namespace Blank

theorem weaken {final : Bool} {w : Text} (h : Blank final w) : Blank true w := by
  induction h with
  | nil => exact .nil
  | white hb _ ih => exact .white hb ih
  | comment hc _ ih => exact .comment hc ih
  | last hc => exact .last hc

/-- An open comment takes in what stands behind it, up to a line feed. -/
theorem open_append {final : Bool} {c w : Text} (hc : Ascii.lineFeed ∉ c) (hw : Blank final w) :
    Blank true (Ascii.hash :: (c ++ w)) := by
  induction hw generalizing c with
  | nil =>
    rw [List.append_nil]
    exact .last hc
  | @white _ b t hb ht ih =>
    by_cases hline : b = Ascii.lineFeed
    · rw [hline]
      exact .comment hc ht.weaken
    · have hlonger : Ascii.lineFeed ∉ c ++ [b] := by
        rw [List.mem_append, List.mem_singleton, not_or]
        exact ⟨hc, Ne.symm hline⟩
      rw [List.append_cons]
      exact ih hlonger
  | @comment _ d t hd ht _ =>
    have hlonger : Ascii.lineFeed ∉ c ++ Ascii.hash :: d := by
      rw [List.mem_append, not_or]
      exact ⟨hc, List.not_mem_cons_of_ne_of_not_mem (by decide) hd⟩
    have hsame : c ++ Ascii.hash :: (d ++ Ascii.lineFeed :: t)
        = (c ++ Ascii.hash :: d) ++ Ascii.lineFeed :: t := by
      rw [List.append_assoc, List.cons_append]
    rw [hsame]
    exact .comment hlonger ht.weaken
  | @last d hd =>
    refine .last ?_
    rw [List.mem_append, not_or]
    exact ⟨hc, List.not_mem_cons_of_ne_of_not_mem (by decide) hd⟩

theorem append {final : Bool} {g w : Text} (h : Blank final g) (hw : Blank final w) :
    Blank final (g ++ w) := by
  induction h with
  | nil => exact hw
  | white hb _ ih => exact .white hb (ih hw)
  | @comment _ c t hc _ ih =>
    rw [List.cons_append, List.append_assoc, List.cons_append]
    exact .comment hc (ih hw)
  | last hc => exact open_append hc hw

/-- White space and comments begin with a byte that ends every token. -/
theorem head_mem {final : Bool} {b : UInt8} {w : Text} (h : Blank final (b :: w)) :
    b ∈ blankBytes := by
  cases h with
  | white hb _ => rcases hb with rfl | rfl | rfl | rfl <;> decide
  | comment => decide
  | last => decide

end Blank

/-! ### One token -/

namespace Lexer

variable {l l' m : Lexer} {t : Token} {ts : List Token} {v w : Text}

theorem offset_advance {n : ℕ} (hn : n ≤ l.rest.length) :
    (l.advance n).position.offset = l.position.offset + n := by
  rw [advance, Position.offset_after, List.length_take_of_le hn]

/-- **A token that ends within a text is read there without what stands behind.** -/
theorem next_cut (h : (l.joined v).next = (.ok t, m)) (hk : t.kind ≠ .eof)
    (hle : m.position.offset ≤ l.position.offset + l.rest.length) :
    ∃ m₀, l.next = (.ok t, m₀) ∧ m = m₀.joined v := by
  rcases next_cases h with ⟨-, rfl, -⟩ | ⟨b, rest, x, hrest, hx, rfl, rfl⟩
  · exact absurd rfl hk
  have hpos := Scanner.size_pos hx
  have hsize : x.size ≤ (l.joined v).skipBlank.rest.length := by
    rw [hrest]
    exact Scanner.size_le hx
  have hskipped : blankLength false (l.rest ++ v) + x.size ≤ l.rest.length := by
    have hwhole := offset_advance (blankLength_le false (l.joined v).rest)
    have hplace : ((l.joined v).skipBlank.advance x.size).position.offset
        = l.position.offset + blankLength false (l.rest ++ v) + x.size := by
      rw [offset_advance hsize]
      exact congrArg (· + (x.size : ℤ)) hwhole
    simp only [hplace] at hle
    omega
  have hblank : blankLength false (l.rest ++ v) = blankLength false l.rest :=
    blankLength_cut (by omega)
  have hskip := skipBlank_joined_of_lt (l := l) (by omega) v
  have hwithin : x.size ≤ l.skipBlank.rest.length := by
    rw [skipBlank, advance, List.length_drop]
    omega
  obtain ⟨rest₀, hrest₀, rfl⟩ : ∃ rest₀, l.skipBlank.rest = b :: rest₀ ∧ rest = rest₀ ++ v := by
    rw [hskip] at hrest
    cases hl : l.skipBlank.rest with
    | nil =>
      rw [hl] at hwithin
      exact absurd hpos (Nat.not_lt.mpr hwithin)
    | cons b₀ rest₀ =>
      rw [joined, hl] at hrest
      cases hrest
      exact ⟨rest₀, rfl, rfl⟩
  rw [hrest₀] at hwithin
  rw [hskip, advance_joined (by rw [hrest₀]; exact hwithin)]
  exact ⟨_, next_scan hrest₀ (Scanner.scan_cut hx hwithin), rfl⟩

/-- **In front of the place, a token is read with more space behind it** as it was read before. -/
theorem next_spaced (hw : Blank false w) (h : (l.joined v).next = (.ok t, m)) (hk : t.kind ≠ .eof)
    (hle : m.position.offset ≤ l.position.offset + l.rest.length) (hlater : m.Reads ts) :
    ∃ m₀, l.next = (.ok t, m₀) ∧ m = m₀.joined v ∧
      (l.joined (w ++ v)).next = (.ok t, m₀.joined (w ++ v)) := by
  obtain ⟨m₀, hnext, rfl⟩ := next_cut h hk hle
  refine ⟨m₀, hnext, rfl, ?_⟩
  cases w with
  | nil => exact h
  | cons b w =>
    refine next_seam hw.head_mem hnext hk (fun hend => ?_) (w ++ v)
    obtain ⟨k, hrest⟩ := hend
    refine hlater.rest_ne_dots k v ?_
    rw [joined, hrest, List.append_assoc, List.singleton_append]

/-! ### The tokens behind the place -/

/-- What is read depends on the answers only. -/
theorem Reads.of_next_eq (h : l.Reads ts) (hnext : l'.next = l.next) : l'.Reads ts := by
  cases h with
  | done h hk => exact .done (hnext.trans h) hk
  | token h hk hlater => exact .token (hnext.trans h) hk hlater

/-- The tokens of a text that stands somewhere else. -/
theorem Moved.reads {f : Position → Position} (hmoved : l.Moved f l') (h : l.Reads ts) :
    l'.Reads (ts.map (Token.move f)) := by
  induction h generalizing l' with
  | done hnext hk =>
    have hanswer := hmoved.next
    rw [hnext] at hanswer
    obtain ⟨m', hnext', -⟩ := hanswer
    exact .done hnext' hk
  | token hnext hk _ ih =>
    have hanswer := hmoved.next
    rw [hnext] at hanswer
    obtain ⟨m', hnext', hm⟩ := hanswer
    exact .token hnext' hk (ih hm)

/-- The same lexer behind its text, in front of another one. -/
def past (l : Lexer) (v : Text) : Lexer := { l with rest := v, position := l.position.after l.rest }

/-- White space is passed over. -/
theorem next_joined_of_blank (h : Blank false l.rest) (v : Text) :
    (l.joined v).next = (l.past v).next := by
  have hskip : (l.joined v).skipBlank = (l.past v).skipBlank := by
    rw [skipBlank, skipBlank, joined, h.blankLength_append rfl, advance, advance, past,
      List.drop_length_add_append, List.take_length_add_append, Position.after_append]
  rw [next, next, hskip]

/-- **Where only white space is left in front of the place**, all tokens stand behind it. -/
theorem Reads.spaced_here (h : (l.joined v).Reads ts) (hblank : Blank false l.rest)
    (hw : Blank false w) {f : Position → Position}
    (hbehind : ∀ k, l.position.after (l.rest ++ (w ++ v.take k))
      = f (l.position.after (l.rest ++ v.take k))) :
    (l.joined (w ++ v)).Reads (ts.map (Token.move f)) := by
  have hmoved : (l.past v).Moved f ((l.joined w).past v) := by
    refine ⟨rfl, rfl, fun k => ?_, rfl⟩
    show (l.position.after (l.rest ++ w)).after (v.take k) = f ((l.position.after l.rest).after _)
    rw [← Position.after_append, ← Position.after_append, List.append_assoc]
    exact hbehind k
  have hsame : l.joined (w ++ v) = (l.joined w).joined v := by
    rw [joined, joined, joined, List.append_assoc]
  have hspace : Blank false (l.joined w).rest := hblank.append hw
  rw [hsame]
  exact (hmoved.reads (h.of_next_eq (next_joined_of_blank hblank v).symm)).of_next_eq
    (next_joined_of_blank hspace v)

/-! ### All tokens -/

theorem Reads.offset_le (h : l.Reads ts) (ht : t ∈ ts) : l.position.offset ≤ t.position.offset := by
  induction h with
  | done => cases ht
  | token hnext hk _ ih =>
    obtain ⟨gap, word, -, -, -, hposition, hbehind⟩ := next_token hnext hk
    have hgap := congrArg Position.offset hposition
    have hword := congrArg Position.offset hbehind
    rw [Position.offset_after] at hgap hword
    rcases List.mem_cons.mp ht with rfl | ht
    · omega
    · have := ih ht
      omega

/-- **The tokens of a text with more space in front of one of them, or at its end.**  The map `f` of
places moves those behind the space, and no other. -/
theorem Reads.spaced (hw : Blank false w) {f : Position → Position} (h : (l.joined v).Reads ts)
    (hplace : l.position.offset + l.rest.length ∈ ts.map (fun t => t.position.offset) ∨ v = [])
    (hfront : ∀ p : Position, p.offset < l.position.offset + l.rest.length → f p = p)
    (hbehind : ∀ k, l.position.after (l.rest ++ (w ++ v.take k))
      = f (l.position.after (l.rest ++ v.take k))) :
    (l.joined (w ++ v)).Reads (ts.map (Token.move f)) := by
  generalize hL : l.joined v = L at h
  induction h generalizing l with
  | @done L L' t hnext hk =>
    obtain rfl : v = [] := hplace.resolve_left List.not_mem_nil
    have hblank : Blank true L.rest := next_end_iff.mp ⟨t, L', hnext, hk⟩
    have hmore : Blank true (l.joined (w ++ [])).rest := by
      rw [← hL, joined, List.append_nil] at hblank
      rw [joined, List.append_nil]
      exact hblank.append hw.weaken
    obtain ⟨t', m, hnext', hk'⟩ := next_end_iff.mpr hmore
    exact .done hnext' hk'
  | @token L m t ts hnext hk hlater ih =>
    subst hL
    obtain ⟨gap, word, hrest, hgap, hword, hposition, hpast⟩ := next_token hnext hk
    have hstart := congrArg Position.offset hposition
    have hend := congrArg Position.offset hpast
    rw [Position.offset_after] at hstart hend
    have hpos := List.length_pos_iff.mpr hword
    have hlength := congrArg List.length hrest
    simp only [joined, List.length_append] at hstart hlength
    by_cases hhere : t.position.offset = l.position.offset + l.rest.length
    · -- the token is the one that the space is put in front of
      have hgap' : gap.length = l.rest.length := by omega
      rw [joined, List.append_assoc] at hrest
      obtain ⟨rfl, rfl⟩ := List.append_inj hrest.symm hgap'
      exact (Reads.token hnext hk hlater).spaced_here hgap hw hbehind
    · -- the token ends in front of the space
      have hle : m.position.offset ≤ l.position.offset + l.rest.length := by
        rcases hplace with hplace | rfl
        · rw [List.map_cons] at hplace
          obtain ⟨u, hu, huplace⟩ := List.mem_map.mp
            ((List.mem_cons.mp hplace).resolve_left (Ne.symm hhere))
          rw [← huplace]
          exact hlater.offset_le hu
        · rw [List.length_nil] at hlength
          omega
      obtain ⟨m₀, hnext₀, rfl, hspaced⟩ := next_spaced hw hnext hk hle hlater
      have hsame (s : Text) : m₀.position.after (m₀.rest ++ s) = l.position.after (l.rest ++ s) :=
        end_next hnext₀ s
      have hplace₀ : m₀.position.offset + m₀.rest.length = l.position.offset + l.rest.length := by
        have := congrArg Position.offset (hsame [])
        rwa [Position.offset_after, Position.offset_after, List.append_nil, List.append_nil] at this
      have hthere : t.move f = t := by
        rw [Token.move, hfront t.position (by omega)]
      rw [List.map_cons, hthere]
      refine .token hspaced hk (ih ?_ ?_ ?_ rfl)
      · rw [hplace₀]
        refine hplace.imp_left fun h => ?_
        rw [List.map_cons] at h
        exact (List.mem_cons.mp h).resolve_left (Ne.symm hhere)
      · rwa [hplace₀]
      · intro k
        rw [hsame, hsame]
        exact hbehind k

/-- The tokens of a text stand at places of the text. -/
theorem Reads.liesIn {text : Text} (hl : l.Follows text) (h : l.Reads ts) :
    ∀ t ∈ ts, t.position.LiesIn text := by
  induction h with
  | done => exact fun _ ht => nomatch ht
  | token hnext _ _ ih =>
    obtain ⟨hfollows, hlies, -⟩ := hl.next
    rw [hnext] at hfollows hlies
    exact List.forall_mem_cons.mpr ⟨hlies _ rfl, ih hfollows⟩

open TokenStream in
/-- The end of a text is reported at its end. -/
theorem end_of_ofLexer {fuel : ℕ} {p : Position} (hfuel : l.rest.length < fuel)
    (h : ofLexer fuel l = after ts (.done p)) : p = l.position.after l.rest := by
  have hreads := reads_of_ofLexer hfuel h
  induction hreads generalizing fuel with
  | done hnext hk =>
    obtain ⟨fuel, rfl⟩ := Nat.exists_eq_succ_of_ne_zero (Nat.ne_zero_of_lt hfuel)
    rw [ofLexer, hnext] at h
    simp only [hk, if_true] at h
    rw [← (next_again hnext hk).1]
    exact (TokenStream.done.inj h).symm
  | token hnext hk _ ih =>
    obtain ⟨fuel, rfl⟩ := Nat.exists_eq_succ_of_ne_zero (Nat.ne_zero_of_lt hfuel)
    have hlt := next_shortens hnext hk
    have hplace := end_next hnext []
    rw [ofLexer, hnext] at h
    simp only [hk, if_false] at h
    rw [ih (by omega) (TokenStream.token.inj h).2]
    rwa [List.append_nil, List.append_nil] at hplace

end Lexer

/-! ### Places -/

namespace Position

variable {u v w w' : Text} {p : Position}

/-- Where a place of `u ++ w ++ v` stands when `w'` stands there instead of `w`. -/
def replaced (u w w' v : Text) (p : Position) : Position :=
  if p.offset < u.length then p
  else start.after (u ++ (w' ++ v.take (p.offset.toNat - (u.length + w.length))))

theorem replaced_front (h : p.offset < u.length) : replaced u w w' v p = p := if_pos h

theorem replaced_behind (k : ℕ) : replaced u w w' v (start.after (u ++ (w ++ v.take k)))
    = start.after (u ++ (w' ++ v.take k)) := by
  have hlength : (u ++ (w ++ v.take k)).length = u.length + w.length + (v.take k).length := by
    rw [List.length_append, List.length_append, Nat.add_assoc]
  have hoffset : (start.after (u ++ (w ++ v.take k))).offset
      = (u.length + w.length + (v.take k).length : ℕ) := by
    rw [after_start, hlength]
  rw [replaced, if_neg (by omega), hoffset, Int.toNat_natCast, Nat.add_sub_cancel_left,
    ← List.prefix_iff_eq_take.mp (List.take_prefix k v)]

theorem LiesIn.exists_take {text : Text} (h : p.LiesIn text) : ∃ k, p = start.after (text.take k) := by
  obtain ⟨k, hk, hoffset, hline, hcolumn⟩ := h
  refine ⟨k, ?_⟩
  rw [after_start, List.length_take_of_le hk, ← hoffset, ← hline, ← hcolumn]

/-- What is put in can be taken out again. -/
theorem replaced_replaced (h : p.LiesIn (u ++ v)) (w : Text) :
    replaced u w [] v (replaced u [] w v p) = p := by
  by_cases hfront : p.offset < u.length
  · rw [replaced_front hfront, replaced_front hfront]
  · obtain ⟨k, rfl⟩ := h.exists_take
    have hk : u.length ≤ k := by
      rw [after_start, List.length_take] at hfront
      simp only at hfront
      omega
    have htake : (u ++ v).take k = u ++ ([] ++ v.take (k - u.length)) := by
      rw [List.take_append, List.take_of_length_le hk, List.nil_append]
    rw [htake, replaced_behind, replaced_behind]

end Position

/-- **The tokens of a text with more space**: each is the same token, perhaps at another place. -/
theorem TokenStream.exists_ofText_spaced {mode : Mode} {u v w : Text} {ts : List Token}
    {p : Position} (h : ofText mode (u ++ v) = after ts (.done p))
    (hplace : (u.length : ℤ) ∈ ts.map (fun t => t.position.offset) ++ [p.offset])
    (hw : Blank false w) :
    ∃ p', ofText mode (u ++ (w ++ v))
      = after (ts.map (Token.move (Position.replaced u [] w v))) (.done p') := by
  have hreads : ((Lexer.start mode u).joined v).Reads ts := Lexer.reads_iff_ofText.mpr ⟨p, h⟩
  have hend : p = Position.start.after (u ++ v) := Lexer.end_of_ofLexer (Nat.lt_succ_self _) h
  refine Lexer.reads_iff_ofText.mp (hreads.spaced hw ?_ (fun q hq => ?_) (fun k => ?_))
  · rw [hend, Position.after_start] at hplace
    show (0 : ℤ) + u.length ∈ _ ∨ v = []
    rw [Int.zero_add]
    refine (List.mem_append.mp hplace).imp_right fun hlast => ?_
    have hlength := List.mem_singleton.mp hlast
    simp only [List.length_append] at hlength
    exact List.eq_nil_of_length_eq_zero (by omega)
  · exact Position.replaced_front (by simpa [Lexer.start, Position.start] using hq)
  · exact (Position.replaced_behind (w := []) k).symm

end TripleStore
