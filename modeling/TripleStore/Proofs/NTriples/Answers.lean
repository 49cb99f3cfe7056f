import TripleStore.Proofs.NTriples.Grammar
import TripleStore.Proofs.Parse.Together
import TripleStore.Proofs.Token.Answers

/-!
# N-Triples, read answer by answer

What is delivered of a document is told by the tokens up to its end: a reader never gives up the end of
the text, and so never asks what stands behind it.

* `State.Served`: a state with a stream that serves the first one's; each reader, from both.
* `readStream_served`: **what stands behind the end is not read.**
-/

namespace TripleStore.NTriples

open TokenStream

/-- The same state with a stream that serves the first one's. -/
def State.Served (s s' : State) : Prop := ∃ S, s.stream.Serves S ∧ s' = { s with stream := S }

/-- A reader reads the same from two states, and leaves them alike. -/
abbrev ServedAlike {α : Type} (x y : Parser α) (s s' : State) : Prop :=
  Together State.Served State.Served x y s s'

variable {α : Type} {s s' : State} {f g : Token → Parser α} {n m : ℕ}

namespace State.Served

theorem current_eq (h : s.Served s') : s'.stream.current = s.stream.current := by
  obtain ⟨S, hS, rfl⟩ := h
  exact hS.current_eq

theorem bind_current (h : s.Served s') (hf : ServedAlike (f s.stream.current) (g s.stream.current) s s') :
    ServedAlike (current >>= f) (current >>= g) s s' :=
  .bind_of_ok rfl (congrArg (EStateM.Result.ok · s') h.current_eq) hf

theorem bind_get {f g : State → Parser α} (hf : ServedAlike (f s) (g s') s s') :
    ServedAlike (get >>= f) (get >>= g) s s' := hf

theorem unexpected (h : s.Served s') (expected : Text) :
    ServedAlike (unexpected expected : Parser α) (NTriples.unexpected expected) s s' :=
  h.bind_current (.throw h _)

theorem invalid (h : s.Served s') (t : Token) (v : Violation) :
    ServedAlike (invalid t v : Parser α) (NTriples.invalid t v) s s' := .throw h _

theorem advance (h : s.Served s') (hk : s.stream.current.kind ≠ .eof) :
    ServedAlike advance NTriples.advance s s' := by
  obtain ⟨S, hS, rfl⟩ := h
  refine bind_get ?_
  rcases hS.tail hk with ⟨e, hs, hs'⟩ | ⟨r, r', hs, hs', hr⟩
  · simp only [hs, hs']
    exact .throw ⟨S, hS, rfl⟩ _
  · simp only [hs, hs']
    exact .of_ok rfl rfl ⟨r', hr, rfl⟩

theorem expect {k : Kind} (hk : k ≠ .eof) (h : s.Served s') :
    ServedAlike (expect k) (NTriples.expect k) s s' := by
  refine h.bind_current ?_
  split_ifs with hkind
  · exact .bind (h.advance (by rw [hkind]; exact hk)) fun _ _ _ _ _ h => .pure h
  · exact h.unexpected _

theorem iri (h : s.Served s') : ServedAlike iri NTriples.iri s s' := by
  refine .bind (h.expect (by decide)) fun t _ _ _ _ h => ?_
  split
  · exact .pure h
  · exact h.invalid _ _

theorem blankNode (h : s.Served s') (naming : Naming) :
    ServedAlike (blankNode naming) (NTriples.blankNode naming) s s' := by
  refine .bind (h.expect (by decide)) fun t _ _ _ _ h => ?_
  simp only
  split_ifs
  · exact .of_error rfl rfl h
  · split
    · obtain ⟨S, hS, rfl⟩ := h
      cases naming
      · exact .of_ok rfl rfl ⟨S, hS, rfl⟩
      · exact .pure ⟨S, hS, rfl⟩
    · exact h.invalid _ _

theorem literal (h : s.Served s') : ServedAlike literal NTriples.literal s s' := by
  refine .bind (h.expect (by decide)) fun value _ _ _ _ h => ?_
  refine h.bind_current ?_
  split
  · next hk =>
    refine .bind (h.advance (by rw [hk]; decide)) fun _ _ _ _ _ h => ?_
    split
    · exact .pure h
    · exact h.invalid _ _
  · next hk =>
    refine .bind (h.advance (by rw [hk]; decide)) fun _ _ _ _ _ h => ?_
    exact .bind h.iri fun _ _ _ _ _ h => .pure h
  · exact .pure h

theorem subject (h : s.Served s') : ServedAlike subject NTriples.subject s s' := by
  refine h.bind_current ?_
  split
  · exact .bind h.iri fun _ _ _ _ _ h => .pure h
  · exact .bind (h.blankNode _) fun _ _ _ _ _ h => .pure h
  · exact h.unexpected _

theorem object (h : s.Served s') (naming : Naming) :
    ServedAlike (object naming) (NTriples.object naming) s s' := by
  refine h.bind_current ?_
  split
  · exact .bind h.iri fun _ _ _ _ _ h => .pure h
  · exact .bind (h.blankNode _) fun _ _ _ _ _ h => .pure h
  · exact h.literal
  · exact h.unexpected _

theorem statement (h : s.Served s') : ServedAlike statement NTriples.statement s s' := by
  refine .bind h.subject fun _ _ _ _ _ h => ?_
  refine .bind h.iri fun _ _ _ _ _ h => ?_
  refine .bind (h.object _) fun _ _ _ _ _ h => ?_
  exact .bind (h.expect (by decide)) fun _ _ _ _ _ h => .pure h

end State.Served

/-- Statements are delivered alike from both streams, if there are steps enough. -/
theorem deliver_served (h : s.Served s') (hn : s.stream.length < n) (hm : s.stream.length < m) :
    deliver m s' = deliver n s := by
  induction n generalizing s s' m with
  | zero => omega
  | succ n ih =>
    obtain ⟨m, rfl⟩ := Nat.exists_eq_succ_of_ne_zero (Nat.ne_zero_of_lt hm)
    rw [deliver, deliver, h.current_eq]
    have hsupply {t t' : State} (h : t.Served t') : t'.supply = t.supply := by
      obtain ⟨S, hS, rfl⟩ := h
      rfl
    split_ifs with heof
    · rw [hsupply h]
    · rcases h.statement with ⟨stmt, t, t', hx, hy, ht⟩ | ⟨e, t, t', hx, hy, ht⟩
      · have hlt : t.stream.length < s.stream.length := by
          have hread : statement.run (reading ⟨s.scope, s.supply⟩ s.stream) = .ok stmt t := hx
          obtain ⟨line, rest, l', hstream, -, -, rfl⟩ := statement_sound hread
          have hpos := line.length_tokens_pos
          rw [hstream, length_after, stream_reading]
          omega
        have hlater : deliver m t' = deliver n t := ih ht (by omega) (by omega)
        rw [hx, hy]
        simp only [hsupply ht, hlater]
      · rw [hx, hy]
        simp only [hsupply ht]

/-- **What is delivered is told by the tokens up to the end**, whatever stands behind it. -/
theorem readStream_served {stream stream' : TokenStream} (h : stream.Serves stream') (scope : Scope)
    (supply : Supply) : readStream stream' scope supply = readStream stream scope supply := by
  rw [readStream, readStream]
  rcases h.sound with ⟨e, hs, hs'⟩ | ⟨r, r', hs, hs', hr⟩
  · rw [hs, hs']
  · rw [hs, hs']
    have hle := hr.length_le
    have hread : State.Served ⟨r, scope, supply⟩ ⟨r', scope, supply⟩ := ⟨r', hr, rfl⟩
    exact deliver_served hread (Nat.lt_succ_self _) (by simp only; omega)

end TripleStore.NTriples
