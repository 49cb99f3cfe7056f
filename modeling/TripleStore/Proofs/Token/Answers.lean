import TripleStore.Proofs.Token.Modes

/-!
# The answers of a lexer, one call after the other

A token stream ends with the text.  A reader that asks a lexer call by call gets the end as an answer
like any other, and could go on asking.

* `TokenStream.answers`: the first answers of a lexer, with anything in place of the later ones.
* `TokenStream.Serves`: streams that give the same tokens up to the end; what stands at hand, behind it,
  and behind semicolons.
* `TokenStream.serves_answers`: **as many answers as the text has bytes, and one more, are all that its
  tokens tell.**
-/

namespace TripleStore.TokenStream

variable {s s' : TokenStream}

/-- The first answers of a lexer, one for each call; `later` stands for what further calls would
give. -/
def answers : (calls : ℕ) → Lexer → (later : TokenStream) → TokenStream
  | 0, _, later => later
  | calls + 1, l, later =>
    match l.next with
    | (.error e, _) => .fault e
    | (.ok t, l) => .token t (answers calls l later)

/-- The second stream gives what the first does up to its end, which is a token of the second, and then
anything. -/
inductive Serves : TokenStream → TokenStream → Prop
  | done {p : Position} {later : TokenStream} : Serves (.done p) (.token ⟨.eof, [], p, false⟩ later)
  | fault {e : LexError} : Serves (.fault e) (.fault e)
  | token {t : Token} {rest rest' : TokenStream} : t.kind ≠ .eof → Serves rest rest' →
      Serves (.token t rest) (.token t rest')

/-- The same error twice, or two streams one of which serves the other. -/
def SameError (x x' : Except LexError TokenStream) : Prop :=
  (∃ e, x = .error e ∧ x' = .error e) ∨ ∃ r r', x = .ok r ∧ x' = .ok r' ∧ r.Serves r'

namespace Serves

theorem current_eq (h : s.Serves s') : s'.current = s.current := by
  cases h <;> rfl

theorem length_le (h : s.Serves s') : s.length ≤ s'.length := by
  induction h with
  | done => exact Nat.zero_le _
  | fault => exact le_rfl
  | token _ _ ih => exact Nat.succ_le_succ ih

theorem sound (h : s.Serves s') : SameError s.sound s'.sound := by
  cases h with
  | done => exact .inr ⟨_, _, rfl, rfl, .done⟩
  | fault => exact .inl ⟨_, rfl, rfl⟩
  | token hk h => exact .inr ⟨_, _, rfl, rfl, .token hk h⟩

/-- Behind a token both streams go on in the same way; the end is not given up. -/
theorem tail (h : s.Serves s') (hk : s.current.kind ≠ .eof) : SameError s.tail s'.tail := by
  cases h with
  | done => exact absurd rfl hk
  | fault => exact absurd rfl hk
  | token _ h => exact h.sound

theorem dropSemicolons (h : s.Serves s') : SameError s.dropSemicolons s'.dropSemicolons := by
  induction h with
  | done => exact .inr ⟨_, _, rfl, rfl, .done⟩
  | fault => exact .inl ⟨_, rfl, rfl⟩
  | @token t rest rest' hk h ih =>
    rw [TokenStream.dropSemicolons, TokenStream.dropSemicolons]
    split_ifs with hsemicolon
    · exact ih
    · exact .inr ⟨_, _, rfl, rfl, .token hk h⟩

end Serves

/-- **The tokens of a text are told by as many answers as it has bytes, and one more.** -/
theorem serves_answers {l : Lexer} {fuel calls : ℕ} (hfuel : l.rest.length < fuel)
    (hcalls : l.rest.length < calls) (later : TokenStream) :
    (ofLexer fuel l).Serves (answers calls l later) := by
  induction calls generalizing l fuel with
  | zero => omega
  | succ calls ih =>
    obtain ⟨fuel, rfl⟩ := Nat.exists_eq_succ_of_ne_zero (Nat.ne_zero_of_lt hfuel)
    rw [ofLexer, answers]
    rcases hnext : l.next with ⟨e | t, m⟩
    · exact .fault
    · by_cases hk : t.kind = .eof
      · simp only [hk, if_true]
        rcases Lexer.next_cases hnext with ⟨-, rfl, -⟩ | ⟨b, rest, x, -, hx, rfl, -⟩
        · exact .done
        · exact absurd hk (Scanner.kind_ne_eof_of_scan hx)
      · have hlt := Lexer.next_shortens hnext hk
        simp only [hk, if_false]
        exact .token hk (ih (by omega) (by omega))

end TripleStore.TokenStream
