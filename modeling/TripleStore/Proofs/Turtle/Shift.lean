import TripleStore.Document.Format
import TripleStore.Proofs.Parse.Shift
import TripleStore.Proofs.Turtle.Pairing
import TripleStore.Proofs.Turtle.Parser

/-!
# Documents read from another supply

A document means the same from every supply, but for the shift of its labels, and where it has no
meaning from the one supply it has none from the other.

* `Shift.statements`: statements with the labels shifted.
* `Format.collect_shift`: **a text that is read from one supply is read from every other.**
-/

namespace TripleStore

/-- The statements of a part of a document with the labels shifted. -/
noncomputable def Shift.statements (σ : Shift) (stmts : List Statement) : List Statement :=
  stmts.map (Statement.mapLabels σ.label)

theorem Shift.eq_statements {σ : Shift} {stmts stmts' : List Statement}
    (h : σ.pairing.Statements stmts stmts') : stmts' = σ.statements stmts := by
  induction h with
  | nil => rfl
  | cons hs _ ih =>
    rw [ih, hs.eq_mapLabels]
    rfl

/-- What agrees in every two readings has shifted statements from another supply. -/
theorem Meaning.Agree.run_between {s s' : Supply} {x : Meaning (List Statement)}
    {stmts : List Statement} {l : Labels}
    (hx : Agree (Shift.between s s').pairing (Shift.between s s').pairing.Statements x x)
    (h : x.run ⟨{}, s⟩ = some (stmts, l)) :
    x.run ⟨{}, s'⟩
      = some ((Shift.between s s').statements stmts, (Shift.between s s').labels l) := by
  obtain ⟨stmts', l', hrun, hstmts, hknown⟩ := hx.run (Shift.known_between s s') h
  rw [hrun, Shift.eq_statements hstmts, show l' = _ from hknown]

/-! ### Texts -/

variable {text : Text} {stmts : List Statement} {left : Supply}

theorem NTriples.parse_shift {supply : Supply} (h : parse text supply = (.ok stmts, left))
    (other : Supply) :
    parse text other = (.ok ((Shift.between supply other).statements stmts),
      (Shift.between supply other).supply left) := by
  obtain ⟨d, scope, hreads, hm⟩ := exists_document_of_parse h
  exact parse_of_document hreads (d.agree.run_between hm)

theorem Turtle.parse_shift {supply : Supply} (h : parse text supply = (.ok stmts, left))
    (other : Supply) :
    parse text other = (.ok ((Shift.between supply other).statements stmts),
      (Shift.between supply other).supply left) := by
  obtain ⟨d, hreads, hd⟩ := exists_document_of_parse h
  obtain ⟨scope, hm⟩ := Document.denotes_eq_some.mp hd
  exact parse_of_document hreads
    (Document.denotes_eq_some.mpr ⟨_, d.agree.run_between hm⟩)

/-- **A text that is read from one supply is read from every other**, with the labels shifted by as
much as the supplies are apart. -/
theorem Format.collect_shift {format : Format} {supply : Supply}
    (h : (format.read text supply).collect = (.ok stmts, left)) (other : Supply) :
    (format.read text other).collect = (.ok ((Shift.between supply other).statements stmts),
      (Shift.between supply other).supply left) := by
  cases format with
  | ntriples => exact NTriples.parse_shift h other
  | turtle => exact Turtle.parse_shift h other

end TripleStore
