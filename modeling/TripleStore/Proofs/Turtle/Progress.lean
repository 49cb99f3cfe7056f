import TripleStore.Proofs.Turtle.Complete
import TripleStore.Proofs.Turtle.Sound

/-!
# Reading takes tokens

Every reader of Turtle that ends well has taken at least one token, and none has put one back.

* `lt_of_expect`, `lt_of_iri`, `lt_of_verb`, `lt_of_literal`: the readers that take a few tokens.
* `lt_of_object`, `lt_of_objects`: the readers of nested structures.
-/

namespace TripleStore.Turtle

open TokenStream

variable {s s' : State} {stream rest : TokenStream} {ts : List Token} {u : Unit} {n : ℕ}

/-- The parts that a state is made of. -/
theorem State.eq_reading (s : State) :
    s = reading ⟨s.prefixes, s.base⟩ ⟨s.scope, s.supply⟩ s.stream s.emitted := rfl

theorem length_lt_of_after (h : stream = after ts rest) (hts : ts ≠ []) :
    rest.length < stream.length := by
  have hpos := List.length_pos_of_ne_nil hts
  rw [h, length_after]
  omega

theorem length_lt_of_token {t : Token} (h : stream = .token t rest) :
    rest.length < stream.length := by
  rw [h]
  exact Nat.lt_succ_self _

/-! ### A few tokens -/

/-- Giving up a token changes nothing but the tokens that are left. -/
theorem exists_eq_of_advance (hk : s.stream.current.kind ≠ .eof) (h : advance.run s = .ok u s') :
    ∃ rest, s' = { s with stream := rest } ∧ rest.length < s.stream.length := by
  rw [s.eq_reading] at h
  obtain ⟨rest, hstream, -, rfl⟩ := advance_eq_ok hk h
  exact ⟨rest, rfl, length_lt_of_token hstream⟩

/-- Nor does reading a token of a kind. -/
theorem exists_eq_of_expect {k : Kind} (hk : k ≠ .eof) {t : Token} (h : (expect k).run s = .ok t s') :
    ∃ rest, s' = { s with stream := rest } ∧ rest.length < s.stream.length := by
  rw [s.eq_reading] at h
  obtain ⟨rest, hstream, -, -, rfl⟩ := (expect_eq_ok_iff hk).mp h
  exact ⟨rest, rfl, length_lt_of_token hstream⟩

theorem lt_of_advance (hk : s.stream.current.kind ≠ .eof) (h : advance.run s = .ok u s') :
    s'.stream.length < s.stream.length := by
  obtain ⟨rest, rfl, hlt⟩ := exists_eq_of_advance hk h
  exact hlt

theorem lt_of_expect {k : Kind} (hk : k ≠ .eof) {t : Token} (h : (expect k).run s = .ok t s') :
    s'.stream.length < s.stream.length := by
  obtain ⟨rest, rfl, hlt⟩ := exists_eq_of_expect hk h
  exact hlt

theorem Name.tokens_ne_nil (x : Name) : x.tokens ≠ [] := by
  obtain ⟨t, ht, -⟩ := x.exists_token
  rw [ht]
  exact List.cons_ne_nil _ _

theorem lt_of_iri {i : Iri} (h : iri.run s = .ok i s') :
    s'.stream.length < s.stream.length := by
  rw [s.eq_reading] at h
  obtain ⟨x, rest, l', hstream, -, -, rfl⟩ := iri_eq_ok_iff.mp h
  exact length_lt_of_after hstream x.tokens_ne_nil

theorem lt_of_verb {i : Iri} (h : verb.run s = .ok i s') :
    s'.stream.length < s.stream.length := by
  rw [s.eq_reading] at h
  obtain ⟨v, rest, l', hstream, -, -, rfl⟩ := verb_eq_ok_iff.mp h
  obtain ⟨t, ht, -⟩ := v.exists_token
  exact length_lt_of_after hstream (by rw [ht]; exact List.cons_ne_nil _ _)

theorem lt_of_blankNode {node : Node} (h : blankNode.run s = .ok node s') :
    s'.stream.length < s.stream.length := by
  rw [s.eq_reading] at h
  obtain ⟨t, rest, l', hstream, -, -, rfl⟩ := blankNode_eq_ok_iff.mp h
  exact length_lt_of_token hstream

theorem lt_of_literal {t : Term}
    (hk : s.stream.current.kind = .stringLiteral ∨ s.stream.current.kind = .longString)
    (h : literal.run s = .ok t s') : s'.stream.length < s.stream.length := by
  rw [s.eq_reading] at h
  obtain ⟨v, suffix, rest, l', hstream, -, rfl⟩ := literal_sound hk h
  exact length_lt_of_after hstream (List.cons_ne_nil _ _)

theorem lt_of_literalToken {make : Text → Term} {t : Term} (hk : s.stream.current.kind ≠ .eof)
    (h : (literalToken make).run s = .ok t s') : s'.stream.length < s.stream.length := by
  rw [s.eq_reading] at h
  obtain ⟨rest, hstream, -, rfl⟩ := literalToken_sound hk h
  exact length_lt_of_token hstream

/-! ### Nested structures -/

theorem lt_of_object {t : Term} (h : (object n).run s = .ok t s') :
    s'.stream.length < s.stream.length := by
  rw [s.eq_reading] at h
  obtain ⟨o, rest, l', inner, hstream, -, rfl⟩ := (soundAt n).object _ _ _ _ _ _ h
  exact length_lt_of_after hstream (List.ne_nil_of_length_pos o.length_tokens_pos)

theorem lt_of_objects {subject : Node} {predicate : Iri}
    (h : (objects subject predicate n).run s = .ok u s') : s'.stream.length < s.stream.length := by
  rw [s.eq_reading] at h
  obtain ⟨os, rest, l', stmts, hstream, -, rfl⟩ := (soundAt n).objects _ _ _ _ _ _ _ _ h
  refine length_lt_of_after hstream (List.ne_nil_of_length_pos ?_)
  cases os with
  | one o =>
    rw [Objects.tokens]
    exact o.length_tokens_pos
  | more o comma os =>
    rw [Objects.tokens, List.length_append]
    exact Nat.add_pos_left o.length_tokens_pos _

theorem length_dropSemicolons_le (h : stream.dropSemicolons = .ok rest) :
    rest.length ≤ stream.length := by
  obtain ⟨semicolons, rfl⟩ := eq_after_of_dropSemicolons h
  rw [length_after]
  exact Nat.le_add_left _ _

/-! ### Statements -/

theorem Directive.tokens_ne_nil (d : Directive) : d.tokens ≠ [] := by
  cases d <;> exact List.cons_ne_nil _ _

theorem lt_of_prefixDeclaration (h : prefixDeclaration.run s = .ok u s') :
    s'.stream.length < s.stream.length := by
  rw [s.eq_reading] at h
  obtain ⟨d, rest, hstream, -, rfl⟩ := prefixDeclaration_sound h
  exact length_lt_of_after hstream d.tokens_ne_nil

theorem lt_of_baseDeclaration (h : baseDeclaration.run s = .ok u s') :
    s'.stream.length < s.stream.length := by
  rw [s.eq_reading] at h
  obtain ⟨d, rest, hstream, -, rfl⟩ := baseDeclaration_sound h
  exact length_lt_of_after hstream d.tokens_ne_nil

theorem lt_of_statement {stmts : List Statement} (h : statement.run s = .ok stmts s') :
    s'.stream.length < s.stream.length := by
  rw [s.eq_reading] at h
  obtain ⟨b, rest, l', out, hstream, -, -, rfl⟩ := statement_sound h
  exact length_lt_of_after hstream b.tokens_ne_nil

end TripleStore.Turtle
