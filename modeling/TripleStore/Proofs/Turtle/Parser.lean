import TripleStore.Proofs.Turtle.Complete
import TripleStore.Proofs.Turtle.Sound

/-!
# Reading a whole Turtle document

A text is read without an error exactly when its tokens are those of a document of the grammar that
means something, and then the statements are those that the document means, in the order of the
grammar and with the labels that the grammar draws.

* `exists_document_of_parse`: a text that was read is a document.
* `parse_of_document`: a document is read.
* `parse_eq_ok_iff`: **reading Turtle is the grammar and its meaning.**
-/

namespace TripleStore.Turtle

open TokenStream

variable {text : Text} {supply supply' : Supply} {stmts : List Statement}

theorem Document.denotes_eq_some {d : Document} :
    d.denotes supply = some (stmts, supply') ↔
      ∃ scope, (d.meaning {}).run ⟨{}, supply⟩ = some (stmts, ⟨scope, supply'⟩) := by
  rw [Document.denotes, Option.map_eq_some_iff]
  constructor
  · intro h
    obtain ⟨⟨stmts', labels⟩, hm, hpair⟩ := h
    cases hpair
    exact ⟨labels.scope, hm⟩
  · intro h
    obtain ⟨scope, hm⟩ := h
    exact ⟨_, hm, rfl⟩

/-- What is collected from a text without a lexical error at its beginning. -/
theorem parse_eq_deliver (h : (ofText .turtle text).Sound) :
    parse text supply = (deliver ((ofText .turtle text).length + 1)
      (reading {} ⟨{}, supply⟩ (ofText .turtle text) [])).collect := by
  rw [parse, read, readState, h]
  rfl

/-- A text that was read is a document. -/
theorem exists_document_of_parse (h : parse text supply = (.ok stmts, supply')) :
    ∃ d : Document, (Lexer.start .turtle text).Reads d.tokens ∧
      d.denotes supply = some (stmts, supply') := by
  have hsound : (ofText .turtle text).Sound := by
    cases hstream : ofText .turtle text with
    | fault e =>
      rw [parse, read, readState, hstream] at h
      exact absurd h Delivery.collect_failed_ne_ok
    | done p => exact sound_done p
    | token t rest => exact sound_token t rest
  rw [parse_eq_deliver hsound] at h
  obtain ⟨d, rest, scope, hstream, hrest, heof, hm⟩ :=
    deliver_sound hsound (Nat.lt_succ_self _) h
  obtain ⟨p, rfl⟩ := eq_done_of_ofLexer hstream hrest heof
  exact ⟨d, Lexer.reads_iff_ofText.mpr ⟨p, hstream⟩, Document.denotes_eq_some.mpr ⟨scope, hm⟩⟩

/-- A document is read. -/
theorem parse_of_document {d : Document} (hreads : (Lexer.start .turtle text).Reads d.tokens)
    (hd : d.denotes supply = some (stmts, supply')) :
    parse text supply = (.ok stmts, supply') := by
  obtain ⟨p, hstream⟩ := Lexer.reads_iff_ofText.mp hreads
  obtain ⟨scope, hm⟩ := Document.denotes_eq_some.mp hd
  have hsound : (ofText .turtle text).Sound := by
    rw [hstream]
    exact sound_after (sound_done p) _
  rw [parse_eq_deliver hsound, hstream, length_after]
  exact deliver_complete d hm (Nat.lt_succ_self _)

/-- **Reading Turtle is the grammar and its meaning**: a text is read without an error just when the
lexer comes to its end without one and the tokens are those of a document that means something, and
then the statements and the state of the supply are what the document denotes. -/
theorem parse_eq_ok_iff (text : Text) (supply supply' : Supply) (stmts : List Statement) :
    parse text supply = (.ok stmts, supply') ↔
      ∃ tokens, (Lexer.start .turtle text).Reads tokens ∧
        ∃ d : Document, d.tokens = tokens ∧ d.denotes supply = some (stmts, supply') := by
  constructor
  · intro h
    obtain ⟨d, hreads, hd⟩ := exists_document_of_parse h
    exact ⟨d.tokens, hreads, d, rfl, hd⟩
  · intro h
    obtain ⟨tokens, hreads, d, rfl, hd⟩ := h
    exact parse_of_document hreads hd

end TripleStore.Turtle
