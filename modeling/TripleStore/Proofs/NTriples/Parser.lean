import TripleStore.NTriples.Parser
import TripleStore.Proofs.Steps

/-!
# Terms that were read

What the steps of the N-Triples reader give when they end well: the text of the token at hand, and
never a term that breaks a rule.

* `parseTerm_valid`: whatever is read as a term breaks no rule.
* `parseTerm_eq_ok_iff`: a text is one term if a term is read and no token is left.
* `ofLexer_scan`, `ofLexer_nil`: the tokens of a text, one by one.
-/

namespace TripleStore

namespace Lexer

theorem advance_zero (l : Lexer) : l.advance 0 = l := by
  simp [advance, Position.after]

/-- The next token where no white space stands. -/
theorem next_ok {l : Lexer} {b : UInt8} {rest : Text} {x : Lexeme} (hrest : l.rest = b :: rest)
    (hb : blankLength false (b :: rest) = 0)
    (hx : Scanner.scan l.mode l.afterString b rest = .ok x) :
    l.next = (.ok ⟨x.kind, x.text, l.position, x.bare⟩,
      { l.advance x.size with last := some x.kind }) := by
  rw [next, skipBlank, hrest, hb, advance_zero, token, hrest]
  simp only [hx]

end Lexer

namespace TokenStream

/-- The stream at a token, if the scanner reads one where no white space stands. -/
theorem ofLexer_scan {l : Lexer} {b : UInt8} {rest : Text} {x : Lexeme} {n : ℕ} (hn : 0 < n)
    (hrest : l.rest = b :: rest) (hb : blankLength false (b :: rest) = 0)
    (hx : Scanner.scan l.mode l.afterString b rest = .ok x) (hk : x.kind ≠ .eof) :
    ofLexer n l = .token ⟨x.kind, x.text, l.position, x.bare⟩
      (ofLexer (n - 1) { l.advance x.size with last := some x.kind }) := by
  obtain ⟨n, rfl⟩ := Nat.exists_eq_succ_of_ne_zero (by omega : n ≠ 0)
  rw [ofLexer, Lexer.next_ok hrest hb hx]
  simp [hk]

theorem ofLexer_nil {l : Lexer} {n : ℕ} (h : l.rest = []) : ofLexer n l = .done l.position := by
  cases n with
  | zero => rfl
  | succ n =>
    rw [ofLexer, Lexer.next, Lexer.skipBlank, h, blankLength, Lexer.advance_zero, Lexer.token, h]
    rfl

end TokenStream

namespace NTriples

variable {α : Type}

theorem plain_violation? (v : Text) : (Term.plain v).violation? = none := by
  rw [Term.plain, Term.violation?, if_pos (by decide)]

theorem current_run (s : State) : current.run s = .ok s.stream.current s := rfl

theorem unexpected_ne_ok {expected : Text} {s s' : State} {a : α} :
    (unexpected expected : Parser α).run s ≠ .ok a s' := by
  intro h
  rw [unexpected, run_bind_eq_ok] at h
  obtain ⟨_, _, _, h⟩ := h
  exact run_throw_ne_ok h

theorem expect_eq_ok {kind : Kind} {s s' : State} {t : Token} (h : (expect kind).run s = .ok t s') :
    t = s.stream.current ∧ t.kind = kind := by
  rw [expect, run_bind_eq_ok] at h
  obtain ⟨t', s₁, hcur, h⟩ := h
  rw [current_run] at hcur
  cases hcur
  split_ifs at h with hk
  · rw [run_bind_eq_ok] at h
    obtain ⟨_, _, _, h⟩ := h
    cases h
    exact ⟨rfl, hk⟩
  · exact absurd h unexpected_ne_ok

theorem iri_eq_ok {s s' : State} {i : Iri} (h : iri.run s = .ok i s') :
    i = s.stream.current.text ∧ (Term.iri i).violation? = none := by
  rw [iri, run_bind_eq_ok] at h
  obtain ⟨t, s₁, hexp, h⟩ := h
  obtain ⟨rfl, -⟩ := expect_eq_ok hexp
  split at h
  · next hv => cases h; exact ⟨rfl, hv⟩
  · exact absurd h run_throw_ne_ok

theorem blankNode_verbatim_eq_ok {s s' : State} {l : Text}
    (h : (blankNode .verbatim).run s = .ok l s') :
    l = s.stream.current.text.drop 2 ∧ (Term.blank l).violation? = none := by
  rw [blankNode, run_bind_eq_ok] at h
  obtain ⟨t, s₁, hexp, h⟩ := h
  obtain ⟨rfl, -⟩ := expect_eq_ok hexp
  simp only at h
  split_ifs at h
  · rw [run_bind_eq_ok] at h
    obtain ⟨_, _, h, _⟩ := h
    exact absurd h run_throw_ne_ok
  · split at h
    · next hv => cases h; exact ⟨rfl, hv⟩
    · exact absurd h run_throw_ne_ok

theorem literal_eq_ok {s s' : State} {u : Term} (h : literal.run s = .ok u s') :
    u.violation? = none ∧ u.lexical? = some s.stream.current.text := by
  rw [literal, run_bind_eq_ok] at h
  obtain ⟨v, s₁, hexp, h⟩ := h
  obtain ⟨rfl, -⟩ := expect_eq_ok hexp
  rw [run_bind_eq_ok] at h
  obtain ⟨t, s₂, hcur, h⟩ := h
  rw [current_run] at hcur
  cases hcur
  split at h
  · rw [run_bind_eq_ok] at h
    obtain ⟨_, _, _, h⟩ := h
    split at h
    · next hv => cases h; exact ⟨hv, rfl⟩
    · exact absurd h run_throw_ne_ok
  · rw [run_bind_eq_ok] at h
    obtain ⟨_, s₃, _, h⟩ := h
    rw [run_bind_eq_ok] at h
    obtain ⟨d, s₄, hd, h⟩ := h
    obtain ⟨-, hv⟩ := iri_eq_ok hd
    cases h
    refine ⟨?_, rfl⟩
    simp only [Term.violation?] at hv ⊢
    split_ifs at hv with hid
    rw [if_pos hid]
  · cases h
    exact ⟨plain_violation? _, rfl⟩

/-! The object of a statement is read by its first token. -/

theorem object_eq_ok_of_iri {naming : Naming} {s s' : State} {u : Term}
    (hk : s.stream.current.kind = .iriRef) :
    (object naming).run s = .ok u s' ↔ ∃ i, iri.run s = .ok i s' ∧ u = .iri i := by
  rw [object, run_bind_eq_ok]
  simp only [current_run, EStateM.Result.ok.injEq, existsAndEq, true_and, hk, run_bind_eq_ok]
  constructor
  · rintro ⟨i, s₁, hi, h⟩
    cases h
    exact ⟨i, hi, rfl⟩
  · rintro ⟨i, hi, rfl⟩
    exact ⟨i, s', hi, rfl⟩

theorem object_eq_ok_of_blank {naming : Naming} {s s' : State} {u : Term}
    (hk : s.stream.current.kind = .blankNodeLabel) :
    (object naming).run s = .ok u s' ↔ ∃ l, (blankNode naming).run s = .ok l s' ∧ u = .blank l := by
  rw [object, run_bind_eq_ok]
  simp only [current_run, EStateM.Result.ok.injEq, existsAndEq, true_and, hk, run_bind_eq_ok]
  constructor
  · rintro ⟨l, s₁, hl, h⟩
    cases h
    exact ⟨l, hl, rfl⟩
  · rintro ⟨l, hl, rfl⟩
    exact ⟨l, s', hl, rfl⟩

theorem object_eq_ok_of_string {naming : Naming} {s s' : State} {u : Term}
    (hk : s.stream.current.kind = .stringLiteral) :
    (object naming).run s = .ok u s' ↔ literal.run s = .ok u s' := by
  rw [object, run_bind_eq_ok]
  simp only [current_run, EStateM.Result.ok.injEq, existsAndEq, true_and, hk]

theorem object_verbatim_valid {s s' : State} {u : Term} (h : (object .verbatim).run s = .ok u s') :
    u.violation? = none := by
  have hkind : s.stream.current.kind = .iriRef ∨ s.stream.current.kind = .blankNodeLabel ∨
      s.stream.current.kind = .stringLiteral := by
    by_contra hother
    simp only [not_or] at hother
    rw [object, run_bind_eq_ok] at h
    obtain ⟨t, s₁, hcur, h⟩ := h
    cases hcur
    split at h
    · next hk => exact hother.1 hk
    · next hk => exact hother.2.1 hk
    · next hk => exact hother.2.2 hk
    · exact unexpected_ne_ok h
  rcases hkind with hk | hk | hk
  · obtain ⟨i, hi, rfl⟩ := (object_eq_ok_of_iri hk).mp h
    exact (iri_eq_ok hi).2
  · obtain ⟨l, hl, rfl⟩ := (object_eq_ok_of_blank hk).mp h
    exact (blankNode_verbatim_eq_ok hl).2
  · exact (literal_eq_ok ((object_eq_ok_of_string hk).mp h)).1

/-! ### Running the reader -/

section Run

variable {t : Token} {rest rest' : TokenStream} {scope : Scope} {supply : Supply}

theorem advance_run (hrest : rest.sound = .ok rest') :
    advance.run ⟨.token t rest, scope, supply⟩ = .ok () ⟨rest', scope, supply⟩ := by
  rw [advance, run_bind_eq_ok]
  refine ⟨_, _, rfl, ?_⟩
  simp only [TokenStream.tail, hrest]
  rfl

theorem expect_run {kind : Kind} (ht : t.kind = kind) (hrest : rest.sound = .ok rest') :
    (expect kind).run ⟨.token t rest, scope, supply⟩ = .ok t ⟨rest', scope, supply⟩ := by
  rw [expect, run_bind_eq_ok]
  refine ⟨t, _, rfl, ?_⟩
  rw [if_pos ht, run_bind_eq_ok]
  exact ⟨(), ⟨rest', scope, supply⟩, advance_run hrest, rfl⟩

theorem iri_run (ht : t.kind = .iriRef) (hv : isIdentifier t.text = true)
    (hrest : rest.sound = .ok rest') :
    iri.run ⟨.token t rest, scope, supply⟩ = .ok t.text ⟨rest', scope, supply⟩ := by
  rw [iri, run_bind_eq_ok]
  refine ⟨t, _, expect_run ht hrest, ?_⟩
  rw [show (Term.iri t.text).violation? = none from if_pos hv]
  rfl

theorem blankNode_run (ht : t.kind = .blankNodeLabel) (hv : isIdentifier (t.text.drop 2) = true)
    (hrest : rest.sound = .ok rest') :
    (blankNode .verbatim).run ⟨.token t rest, scope, supply⟩
      = .ok (t.text.drop 2) ⟨rest', scope, supply⟩ := by
  have hne : (t.text.drop 2).isEmpty = false := by
    cases h : t.text.drop 2 with
    | nil => rw [h] at hv; exact absurd hv (by decide)
    | cons b l => rfl
  rw [blankNode, run_bind_eq_ok]
  refine ⟨t, _, expect_run ht hrest, ?_⟩
  simp only [hne, Bool.false_eq_true, if_false]
  rw [show (Term.blank (t.text.drop 2)).violation? = none from if_pos hv]
  rfl

theorem literal_plain_run {p : Position} (ht : t.kind = .stringLiteral) :
    literal.run ⟨.token t (.done p), scope, supply⟩
      = .ok (.plain t.text) ⟨.done p, scope, supply⟩ := by
  rw [literal, run_bind_eq_ok]
  refine ⟨t, _, expect_run ht rfl, ?_⟩
  rfl

theorem literal_lang_run {t' : Token} (ht : t.kind = .stringLiteral) (ht' : t'.kind = .langTag)
    (hv : isLanguageTag t'.text = true) (hrest : rest.sound = .ok rest') :
    literal.run ⟨.token t (.token t' rest), scope, supply⟩
      = .ok (.lang t.text t'.text) ⟨rest', scope, supply⟩ := by
  rw [literal, run_bind_eq_ok]
  refine ⟨t, _, expect_run ht rfl, ?_⟩
  rw [run_bind_eq_ok]
  refine ⟨t', _, rfl, ?_⟩
  simp only [ht']
  rw [run_bind_eq_ok]
  refine ⟨(), ⟨rest', scope, supply⟩, advance_run hrest, ?_⟩
  rw [show (Term.lang t.text t'.text).violation? = none from if_pos hv]
  rfl

theorem literal_typed_run {t' d : Token} (ht : t.kind = .stringLiteral) (ht' : t'.kind = .typeTag)
    (hd : d.kind = .iriRef) (hv : isIdentifier d.text = true) (hrest : rest.sound = .ok rest') :
    literal.run ⟨.token t (.token t' (.token d rest)), scope, supply⟩
      = .ok (.typed t.text d.text) ⟨rest', scope, supply⟩ := by
  rw [literal, run_bind_eq_ok]
  refine ⟨t, _, expect_run ht rfl, ?_⟩
  rw [run_bind_eq_ok]
  refine ⟨t', _, rfl, ?_⟩
  simp only [ht']
  rw [run_bind_eq_ok]
  refine ⟨(), ⟨.token d rest, scope, supply⟩, advance_run rfl, ?_⟩
  rw [run_bind_eq_ok]
  exact ⟨d.text, _, iri_run hd hv hrest, rfl⟩

/-- A literal with a datatype that was read has the datatype that was written. -/
theorem literal_typed_eq_ok {t' d : Token} {u : Term} {s : State} (ht' : t'.kind = .typeTag)
    (h : literal.run ⟨.token t (.token t' (.token d rest)), scope, supply⟩ = .ok u s) :
    u = .typed t.text d.text := by
  rw [literal, run_bind_eq_ok] at h
  obtain ⟨t₁, s₁, hexp, h⟩ := h
  obtain ⟨rfl, hk⟩ := expect_eq_ok hexp
  rw [expect_run hk rfl] at hexp
  cases hexp
  rw [run_bind_eq_ok] at h
  obtain ⟨t₂, s₂, hcur, h⟩ := h
  cases hcur
  simp only [TokenStream.current, ht'] at h
  rw [run_bind_eq_ok] at h
  obtain ⟨_, s₃, hadv, h⟩ := h
  rw [advance_run rfl] at hadv
  cases hadv
  rw [run_bind_eq_ok] at h
  obtain ⟨i, s₄, hi, h⟩ := h
  cases h
  rw [(iri_eq_ok hi).1]
  rfl

end Run

/-! ### The whole of a text as one term -/

/-- A text is one term if a term is read from its tokens and no token is left. -/
theorem parseTerm_eq_ok_iff {text : Text} {u : Term} :
    parseTerm text = .ok u ↔ ∃ stream s, (TokenStream.ofText .ntriples text).sound = .ok stream ∧
      (object .verbatim).run ⟨stream, {}, {}⟩ = .ok u s ∧ s.stream.current.kind = .eof := by
  have hterm (stream : TokenStream) (s : State) : term.run ⟨stream, {}, {}⟩ = .ok u s ↔
      (object .verbatim).run ⟨stream, {}, {}⟩ = .ok u s ∧ s.stream.current.kind = .eof := by
    rw [term, run_bind_eq_ok]
    constructor
    · rintro ⟨u', s₁, hobj, h⟩
      rw [run_bind_eq_ok] at h
      obtain ⟨t, s₂, hcur, h⟩ := h
      cases hcur
      split_ifs at h with hk
      · cases h
        exact ⟨hobj, hk⟩
      · exact absurd h unexpected_ne_ok
    · rintro ⟨hobj, hk⟩
      refine ⟨u, s, hobj, run_bind_eq_ok.mpr ⟨_, s, current_run s, ?_⟩⟩
      rw [if_pos hk]
      rfl
  simp only [← hterm]
  unfold parseTerm
  cases (TokenStream.ofText .ntriples text).sound with
  | error e => simp
  | ok stream =>
    simp only [Except.ok.injEq, exists_and_left, exists_eq_left']
    cases term.run ⟨stream, {}, {}⟩ with
    | ok u' s => simp
    | error e s => simp

/-- **Whatever is read as a term breaks no rule.** -/
theorem parseTerm_valid {text : Text} {u : Term} (h : parseTerm text = .ok u) :
    u.violation? = none := by
  obtain ⟨stream, s, -, hobj, -⟩ := parseTerm_eq_ok_iff.mp h
  exact object_verbatim_valid hobj

end NTriples

end TripleStore
