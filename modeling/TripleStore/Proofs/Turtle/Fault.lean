import TripleStore.Proofs.Turtle.Complete

/-!
# Errors behind a block

The last token of a block is given up only when the token behind it could be read.  So a lexical
error directly behind a block makes the block fail, whatever it says; the labels that it has drawn
are drawn all the same.

* `Block.fault`: **a block is lost to an error behind it.**
-/

namespace TripleStore.Turtle

open TokenStream

variable {c : Context} {l l' : Labels} {out : List Statement} {t : Token} {e : LexError}

/-! ### Single tokens -/

theorem advance_fault : advance.run (reading c l (.token t (.fault e)) out)
    = .error (.lexical e) (reading c l (.token t (.fault e)) out) := rfl

theorem expect_fault {k : Kind} (leaf : Leaf k) :
    (expect k).run (reading c l (.token leaf.1 (.fault e)) out)
      = .error (.lexical e) (reading c l (.token leaf.1 (.fault e)) out) := by
  rw [expect, run_bind_of_ok current_run, current_token, if_pos leaf.2,
    run_bind_of_error advance_fault]

theorem iriReference_fault (r : Reference) :
    iriReference.run (reading c l (after r.tokens (.fault e)) out)
      = .error (.lexical e) (reading c l (after r.tokens (.fault e)) out) := by
  rw [iriReference, run_bind_of_ok current_run]
  cases r with
  | absolute t =>
    simp only [Reference.tokens, after_cons, after_nil, current_token, t.2]
    exact run_bind_of_error advance_fault
  | relative t =>
    simp only [Reference.tokens, after_cons, after_nil, current_token, t.2]
    exact run_bind_of_error advance_fault

theorem directiveEnd_fault {directive : Token} (h : directive.bare = false) (stop : Leaf .period) :
    (directiveEnd directive).run (reading c l (.token stop.1 (.fault e)) out)
      = .error (.lexical e) (reading c l (.token stop.1 (.fault e)) out) := by
  rw [directiveEnd, if_pos (by rw [h]; exact Bool.false_ne_true),
    run_bind_of_error (expect_fault stop)]

/-! ### Directives -/

theorem statement_prefix_fault {stream : TokenStream} {s : State}
    (hk : stream.current.kind = .prefixDirective)
    (h : prefixDeclaration.run (reading c l stream []) = .error (.lexical e) s) :
    statement.run (reading c l stream out) = .error (.lexical e) s := by
  rw [statement, run_bind_of_ok clear_run, run_bind_of_ok kind_run]
  simp only [hk]
  exact run_bind_of_error h

theorem statement_base_fault {stream : TokenStream} {s : State}
    (hk : stream.current.kind = .baseDirective)
    (h : baseDeclaration.run (reading c l stream []) = .error (.lexical e) s) :
    statement.run (reading c l stream out) = .error (.lexical e) s := by
  rw [statement, run_bind_of_ok clear_run, run_bind_of_ok kind_run]
  simp only [hk]
  exact run_bind_of_error h

/-- A directive is lost to an error behind it. -/
theorem Directive.fault (d : Directive) (e : LexError) :
    ∃ s, statement.run (reading c l (after d.tokens (.fault e)) out) = .error (.lexical e) s ∧
      s.supply = l.supply := by
  cases d with
  | declare word name iri stop =>
    have htokens : after (Directive.declare word name iri stop).tokens (.fault e)
        = after (word.1 :: name.1 :: iri.tokens) (.token stop.1 (.fault e)) := by
      rw [Directive.tokens, ← List.cons_append, ← List.cons_append, after_append]
      rfl
    have hrun : prefixDeclaration.run
        (reading c l (after (word.1 :: name.1 :: iri.tokens) (.token stop.1 (.fault e))) [])
        = .error (.lexical e) (reading
          { c with prefixes := (name.1.text.dropLast, iri.resolve c) :: c.prefixes } l
          (.token stop.1 (.fault e)) []) :=
      (prefixDeclaration_run word.2.1 name iri (sound_token _ _)).trans
        (directiveEnd_fault word.2.2 stop)
    rw [htokens]
    exact ⟨_, statement_prefix_fault word.2.1 hrun, rfl⟩
  | bareDeclare word name iri =>
    have hname : ¬ ¬ declaresPrefix name.1 := not_not_intro name.2
    obtain ⟨first, hfirst, -⟩ := iri.exists_token
    have hrun : prefixDeclaration.run
        (reading c l (after (word.1 :: name.1 :: iri.tokens) (.fault e)) [])
        = .error (.lexical e) (reading c l (after iri.tokens (.fault e)) []) := by
      rw [after_cons, after_cons, prefixDeclaration,
        run_bind_of_ok (expect_run (by decide) ⟨word.1, word.2.1⟩ (sound_token _ _)),
        run_bind_of_ok current_run, current_token, if_neg hname,
        run_bind_of_ok (advance_run (by rw [hfirst]; exact sound_token _ _))]
      exact run_bind_of_error (iriReference_fault iri)
    exact ⟨_, statement_prefix_fault word.2.1 hrun, rfl⟩
  | base word iri stop =>
    have htokens : after (Directive.base word iri stop).tokens (.fault e)
        = after (word.1 :: iri.tokens) (.token stop.1 (.fault e)) := by
      rw [Directive.tokens, ← List.cons_append, after_append]
      rfl
    have hrun : baseDeclaration.run
        (reading c l (after (word.1 :: iri.tokens) (.token stop.1 (.fault e))) [])
        = .error (.lexical e) (reading { c with base := iri.resolve c } l
          (.token stop.1 (.fault e)) []) :=
      (baseDeclaration_run word.2.1 iri (sound_token _ _)).trans
        (directiveEnd_fault word.2.2 stop)
    rw [htokens]
    exact ⟨_, statement_base_fault word.2.1 hrun, rfl⟩
  | bareBase word iri =>
    obtain ⟨first, hfirst, -⟩ := iri.exists_token
    have hrun : baseDeclaration.run (reading c l (after (word.1 :: iri.tokens) (.fault e)) [])
        = .error (.lexical e) (reading c l (after iri.tokens (.fault e)) []) := by
      rw [after_cons, baseDeclaration, run_bind_of_ok (expect_run (by decide)
        ⟨word.1, word.2.1⟩ (by rw [hfirst]; exact sound_token _ _))]
      exact run_bind_of_error (iriReference_fault iri)
    exact ⟨_, statement_base_fault word.2.1 hrun, rfl⟩

/-! ### Blocks -/

/-- **A block is lost to an error behind it.** -/
theorem Block.fault (b : Block) {stmts : List Statement}
    (hm : (b.meaning c).run l = some (stmts, l')) (e : LexError) :
    ∃ s, statement.run (reading c l (after b.tokens (.fault e)) out) = .error (.lexical e) s ∧
      s.supply = l'.supply := by
  cases b with
  | directive d =>
    obtain ⟨rfl, rfl⟩ := Meaning.run_pure_eq_some.mp hm
    exact d.fault e
  | triples t stop =>
    have hrun : statement.run (reading c l (after (Block.triples t stop).tokens (.fault e)) out)
        = .error (.lexical e) (reading c l' (.token stop.1 (.fault e)) stmts) :=
      (t.complete_stop hm (.fault e)).trans (run_bind_of_error (expect_fault stop))
    exact ⟨_, hrun, rfl⟩

/-- The last token of a block is a full stop or an IRI. -/
theorem Block.exists_last (b : Block) :
    ∃ ts t, b.tokens = ts ++ [t] ∧ t.kind.isString = false := by
  have hperiod (stop : Leaf .period) : stop.1.kind.isString = false := by
    rw [stop.2]
    rfl
  have hreference (r : Reference) : ∃ t, r.tokens = [t] ∧ t.kind.isString = false := by
    obtain ⟨t, ht, hk | hk⟩ := r.exists_token
    · exact ⟨t, ht, by rw [hk]; rfl⟩
    · exact ⟨t, ht, by rw [hk]; rfl⟩
  cases b with
  | directive d =>
    cases d with
    | declare word name iri stop => exact ⟨word.1 :: name.1 :: iri.tokens, stop.1, rfl, hperiod stop⟩
    | bareDeclare word name iri =>
      obtain ⟨t, ht, hk⟩ := hreference iri
      exact ⟨[word.1, name.1], t, by rw [Block.tokens, Directive.tokens, ht]; rfl, hk⟩
    | base word iri stop => exact ⟨word.1 :: iri.tokens, stop.1, rfl, hperiod stop⟩
    | bareBase word iri =>
      obtain ⟨t, ht, hk⟩ := hreference iri
      exact ⟨[word.1], t, by rw [Block.tokens, Directive.tokens, ht]; rfl, hk⟩
  | triples t stop => exact ⟨t.tokens, stop.1, rfl, hperiod stop⟩

end TripleStore.Turtle
