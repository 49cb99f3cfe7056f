import TripleStore.Proofs.Document.Concat
import TripleStore.Proofs.Token.Spacing

/-!
# Documents with more space

White space and comments between the tokens of a document change nothing but the places of what
stands behind them, and no statement tells the place that it was read from.

* `Format.collect_moved`: a document whose tokens stand somewhere else.
* `Format.read_spaced`: **space between tokens does not matter.**
-/

namespace TripleStore

open TokenStream Position

/-- What is told of a token apart from its place. -/
def Token.content (t : Token) : Kind × Text × Bool := (t.kind, t.text, t.bare)

theorem Token.content_move (g : Position → Position) (ts : List Token) :
    (ts.map (Token.move g)).map Token.content = ts.map Token.content := by
  rw [List.map_map]
  rfl

namespace Format

variable {f : Format} {s : Setting} {ts : List Token} {stmts : List Statement} {left : Supply}

/-- **A document whose tokens stand somewhere else** is accepted with the same statements. -/
theorem collect_moved {text text' : Text} {p p' : Position} (g : Position → Position)
    (h : ofText f.mode text = after ts (.done p))
    (h' : ofText f.mode text' = after (ts.map (Token.move g)) (.done p'))
    (hread : (f.readIn s text).collect = (.ok stmts, left)) :
    (f.readIn s text').collect = (.ok stmts, left) := by
  obtain ⟨us, blocks, q, htokens, hruns, hblocks⟩ := exists_runs hread
  obtain rfl : us = ts := by
    have htwice := congrArg TokenStream.tokens (htokens.symm.trans h)
    rw [tokens_after, tokens_after] at htwice
    exact List.append_cancel_right htwice
  rw [hblocks, Delivery.collect_behind_finish] at hread
  rw [readIn_eq_run, run_text h' (hruns.move g), Delivery.collect_behind_finish, hread]

/-- **Space between tokens does not matter**, in both formats.  Where a text can be read to its end,
white space and closed comments may be put in front of any of its tokens, or at its end: the text can
still be read to its end, with the same tokens, and from any supply it is accepted if and only if it
was accepted before, with the same statements and the same supply left. -/
theorem read_spaced (f : Format) {u v w : Text} {p : Position}
    (h : ofText f.mode (u ++ v) = after ts (.done p))
    (hplace : (u.length : ℤ) ∈ ts.map (fun t => t.position.offset) ++ [p.offset])
    (hw : Blank false w) :
    (∃ ts' p', ofText f.mode (u ++ w ++ v) = after ts' (.done p') ∧
      ts'.map Token.content = ts.map Token.content) ∧
    ∀ supply stmts left, (f.read (u ++ w ++ v) supply).collect = (.ok stmts, left) ↔
      (f.read (u ++ v) supply).collect = (.ok stmts, left) := by
  obtain ⟨p', h'⟩ := exists_ofText_spaced h hplace hw
  rw [List.append_assoc]
  refine ⟨⟨_, p', h', Token.content_move _ _⟩, fun supply stmts left => ?_⟩
  -- the tokens stand where they stood when the space is taken out again
  have hlies : ∀ t ∈ ts, t.position.LiesIn (u ++ v) :=
    (Lexer.reads_iff_ofText.mpr ⟨p, h⟩).liesIn (Lexer.follows_start _ _)
  have hback : (ts.map (Token.move (replaced u [] w v))).map (Token.move (replaced u w [] v)) = ts := by
    rw [List.map_map]
    refine (List.map_congr_left fun t ht => ?_).trans (List.map_id ts)
    show { t with position := replaced u w [] v (replaced u [] w v t.position) } = t
    rw [replaced_replaced (hlies t ht)]
  rw [read_eq_readIn, read_eq_readIn]
  constructor
  · exact collect_moved (replaced u w [] v) h' (by rw [hback]; exact h)
  · exact collect_moved (replaced u [] w v) h h'

/-- A comment between a number and the full stop behind it. -/
theorem read_spaced_number :
    let u : Text := "<x:s> <x:p> 1.5"
    let w : Text := Ascii.space :: Ascii.hash :: ("one" ++ [Ascii.lineFeed])
    let ts : List Token := [⟨.iriRef, "x:s", ⟨0, 1, 1⟩, false⟩, ⟨.iriRef, "x:p", ⟨6, 1, 7⟩, false⟩,
      ⟨.decimal, "1.5", ⟨12, 1, 13⟩, false⟩, ⟨.period, ".", ⟨15, 1, 16⟩, false⟩]
    ofText .turtle (u ++ ".") = after ts (.done ⟨16, 1, 17⟩) ∧
      (u.length : ℤ) ∈ ts.map (fun t => t.position.offset) ++ [16] ∧ Blank false w ∧
      (∃ ts' p', ofText .turtle (u ++ w ++ ".") = after ts' (.done p') ∧
        ts'.map Token.content = ts.map Token.content) ∧
      (Format.turtle.read (u ++ w ++ ".") {}).collect
        = (.ok [⟨.iri "x:s", "x:p", .decimal "1.5", none⟩], {}) := by
  intro u w ts
  have h : ofText .turtle (u ++ ".") = after ts (.done ⟨16, 1, 17⟩) := by decide +kernel
  have hplace : (u.length : ℤ) ∈ ts.map (fun t => t.position.offset) ++ [16] := by decide +kernel
  have hw : Blank false w := .white (.inl rfl) (.comment (by decide) .nil)
  have hread : (Format.turtle.read (u ++ ".") {}).collect
      = (.ok [⟨.iri "x:s", "x:p", .decimal "1.5", none⟩], {}) := by decide +kernel
  obtain ⟨htokens, hstatements⟩ := read_spaced .turtle h hplace hw
  exact ⟨h, hplace, hw, htokens, (hstatements _ _ _).mpr hread⟩

end Format

end TripleStore
