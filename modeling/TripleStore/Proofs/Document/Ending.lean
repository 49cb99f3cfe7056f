import TripleStore.Proofs.Document.Blocks
import TripleStore.Proofs.NTriples.Answers
import TripleStore.Proofs.Turtle.Answers
import TripleStore.Proofs.Turtle.Trace

/-!
# Reading comes to an end

Reading a text, malformed or not, ends with an error or at the end of the text.  A lexer is asked no more
often than the text has bytes, and once more; and a reader that goes through a loop again has fewer tokens
ahead than before.

* `Format.readTokens`: reading from any token stream, such as the answers of a lexer.
* `Format.accepted_to_end`: a text that is accepted is read up to its end.
* `Format.read_ends`: **reading comes to an end.**
-/

namespace TripleStore

open TokenStream

namespace Format

/-- Delivers the statements of a token stream. -/
def readTokens : Format → TokenStream → Supply → Delivery
  | .ntriples, stream, supply => NTriples.readStream stream {} supply
  | .turtle, stream, supply => Turtle.readState { stream, supply }

theorem readTokens_ofText (f : Format) (text : Text) (supply : Supply) :
    f.readTokens (ofText f.mode text) supply = f.read text supply := by
  cases f <;> rfl

/-- What stands behind the end of a text is not read. -/
theorem readTokens_served (f : Format) {stream stream' : TokenStream} (h : stream.Serves stream')
    (supply : Supply) : f.readTokens stream' supply = f.readTokens stream supply := by
  cases f with
  | ntriples => exact NTriples.readStream_served h {} supply
  | turtle => exact Turtle.readState_served ⟨stream', h, rfl⟩

/-- A text is refused with an error, or all its tokens are those of blocks that were read. -/
theorem accepted_to_end (f : Format) (text : Text) (supply : Supply) :
    (∃ e, (f.read text supply).receive.error = some e) ∨
      ∃ ts blocks p s', ofText f.mode text = after ts (.done p) ∧
        f.Runs (.start supply) ts blocks s' := by
  cases herror : (f.read text supply).receive.error with
  | some e => exact .inl ⟨e, rfl⟩
  | none =>
    have haccepted : (f.readIn (.start supply) text).collect
        = (.ok (f.read text supply).receive.statements, (f.read text supply).receive.supply) := by
      rw [← read_eq_readIn, Delivery.collect]
      simp only [herror]
    obtain ⟨ts, blocks, p, htokens, hruns, -⟩ := exists_runs haccepted
    exact .inr ⟨ts, blocks, p, _, htokens, hruns⟩

/-- **Reading comes to an end**, for every text, malformed or not, and in both formats.

The first answers of the lexer, as many as the text has bytes and one more, tell all that is delivered:
whatever would be answered to further calls, it is not asked for.  The reading ends with an error, or at the
end of the text, all tokens of which are those of blocks that were read.

In Turtle, marks are made whenever a block is begun, a loop over predicates, semicolons, objects or items is
entered once more, or an object is read.  Between two marks of one kind a token has been taken: fewer are
left at the second.  And no reader comes to the bound on its steps. -/
theorem read_ends (f : Format) (text : Text) (supply : Supply) :
    (∀ later, f.readTokens (answers (text.length + 1) (.start f.mode text) later) supply
      = f.read text supply) ∧
    ((∃ e, (f.read text supply).receive.error = some e) ∨
      ∃ ts blocks p s', ofText f.mode text = after ts (.done p) ∧
        f.Runs (.start supply) ts blocks s') ∧
    (Turtle.Traced.read text supply).1 = Turtle.read text supply ∧
    (Turtle.Traced.read text supply).2.Pairwise (fun m m' => m.1 = m'.1 → m'.2 < m.2) ∧
    ∀ m ∈ (Turtle.Traced.read text supply).2, m.1 ≠ .spent := by
  obtain ⟨hsame, hfalling⟩ := Turtle.Traced.read_falling text supply
  refine ⟨fun later => ?_, f.accepted_to_end text supply, hsame, hfalling.pairwise, hfalling.steps⟩
  have hserves : (ofText f.mode text).Serves (answers (text.length + 1) (.start f.mode text) later) :=
    serves_answers (Nat.lt_succ_self _) (Nat.lt_succ_self _) later
  rw [f.readTokens_served hserves, readTokens_ofText]

end Format

end TripleStore
