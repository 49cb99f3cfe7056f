import TripleStore.Proofs.Graph.Basic
import TripleStore.Proofs.Sorting
import TripleStore.Proofs.Term.Plain
import TripleStore.Proofs.Text.Order

/-!
# Terms told apart by their text

A listing goes by the texts of terms, a dictionary keeps these texts, and keys are made of them.  Two
terms must therefore never have the same text, valid or not.  They do not, as long as their texts are
UTF-8: the value of a literal is read off its text up to the closing quote, whatever stands behind
it, and what stands behind it tells the tag or the datatype.

* `Term.isUtf8`: all texts of a term are UTF-8, its label and its tag among them.
* `Term.render_injOn`: **such terms have different texts.**
* `Term.separates`, `Pair.separates`: such terms and pairs never rank alike.
-/

namespace TripleStore

/-- Whether all texts of a term are UTF-8. -/
def Term.isUtf8 : Term → Bool
  | .iri i => Utf8.isWellFormed i
  | .blank l => Utf8.isWellFormed l
  | .lang v tag => Utf8.isWellFormed v && Utf8.isWellFormed tag
  | .typed v d => Utf8.isWellFormed v && Utf8.isWellFormed d

/-- Whether all texts of a node are UTF-8. -/
def Node.isUtf8 (n : Node) : Bool := n.toTerm.isUtf8

/-- Whether all texts of a pair are UTF-8. -/
def Pair.isUtf8 (p : Pair) : Bool := (Term.iri p.predicate).isUtf8 && p.object.all Term.isUtf8

/-! ### The texts of terms -/

/-- The value of a literal is told by its text, whatever follows the closing quote. -/
theorem escapeLiteral_append_inj {v w rest rest' : Text} (hv : Utf8.isWellFormed v = true)
    (hw : Utf8.isWellFormed w = true)
    (h : escapeLiteral v ++ Ascii.quote :: rest = escapeLiteral w ++ Ascii.quote :: rest') :
    v = w ∧ rest = rest' := by
  have hread := Scanner.stringBody_escapeLiteral v rest 0
  rw [h, Scanner.stringBody_escapeLiteral, readBack_of_isWellFormed _ hv,
    readBack_of_isWellFormed _ hw] at hread
  obtain rfl : w = v := (Prod.mk.inj (Except.ok.inj hread)).1
  exact ⟨rfl, (List.cons.inj (List.append_cancel_left h)).2⟩

namespace Term

/-- What follows the closing quote of a literal. -/
def ending : Term → Text
  | .lang _ tag => Ascii.atSign :: tag
  | .typed _ d => if d = Vocabulary.string then [] else Ascii.caret :: Ascii.caret :: renderIri d
  | _ => []

theorem render_literal {t : Term} {v : Text} (h : t.lexical? = some v) :
    t.render = Ascii.quote :: (escapeLiteral v ++ Ascii.quote :: t.ending) := by
  cases t with
  | iri i => cases h
  | blank l => cases h
  | lang w tag =>
    obtain rfl := Option.some.inj h
    exact render_lang w tag
  | typed w d =>
    obtain rfl := Option.some.inj h
    by_cases hd : d = Vocabulary.string
    · subst hd
      rw [render_plain, ending, if_pos rfl]
    · rw [render_typed w hd, ending, if_neg hd, renderIri_eq]

/-- Literals with the same value and the same text behind it are the same. -/
theorem eq_of_ending_eq {a b : Term} {v : Text} (ha : a.isUtf8 = true) (hb : b.isUtf8 = true)
    (hav : a.lexical? = some v) (hbv : b.lexical? = some v) (h : a.ending = b.ending) :
    a = b := by
  -- a datatype is written behind carets or not at all, so nothing of it looks like a tag
  have htag : ∀ tag d, Ascii.atSign :: tag ≠ (typed v d).ending := by
    intro tag d htag
    rw [ending] at htag
    split_ifs at htag
    exact absurd (List.cons.inj htag).1 (by decide)
  cases a with
  | iri i => cases hav
  | blank l => cases hav
  | lang w tag =>
    obtain rfl := Option.some.inj hav
    cases b with
    | iri i => cases hbv
    | blank l => cases hbv
    | lang w' tag' =>
      obtain rfl := Option.some.inj hbv
      rw [(List.cons.inj h).2]
    | typed w' d =>
      obtain rfl := Option.some.inj hbv
      exact absurd h (htag tag d)
  | typed w d =>
    obtain rfl := Option.some.inj hav
    cases b with
    | iri i => cases hbv
    | blank l => cases hbv
    | lang w' tag =>
      obtain rfl := Option.some.inj hbv
      exact absurd h.symm (htag tag d)
    | typed w' d' =>
      obtain rfl := Option.some.inj hbv
      rw [isUtf8, Bool.and_eq_true] at ha hb
      rw [ending, ending] at h
      split_ifs at h with hd hd' hd'
      · rw [hd, hd']
      · have hiri : renderIri d = renderIri d' := (List.cons.inj (List.cons.inj h).2).2
        rw [renderIri_injOn ha.2 hb.2 hiri]

theorem isWellFormed_of_lexical? {t : Term} {v : Text} (ht : t.isUtf8 = true)
    (hv : t.lexical? = some v) : Utf8.isWellFormed v = true := by
  cases t with
  | iri i => cases hv
  | blank l => cases hv
  | lang w tag =>
    obtain rfl := Option.some.inj hv
    exact (Bool.and_eq_true_iff.mp ht).1
  | typed w d =>
    obtain rfl := Option.some.inj hv
    exact (Bool.and_eq_true_iff.mp ht).1

/-- The byte that the text of a term begins with. -/
def mark : Term → UInt8
  | .iri _ => Ascii.lessThan
  | .blank _ => Ascii.underscore
  | .lang _ _ => Ascii.quote
  | .typed _ _ => Ascii.quote

theorem head?_render (t : Term) : t.render.head? = some t.mark := by
  cases t with
  | iri i => rfl
  | blank l => rfl
  | lang v tag => rw [render_lang, List.head?_cons, mark]
  | typed v d => rw [render_literal (v := v) rfl, List.head?_cons, mark]

/-- **Terms in UTF-8 have different texts**, valid or not. -/
theorem render_injOn : Set.InjOn render {t | t.isUtf8 = true} := by
  intro a ha b hb h
  have hmark : a.mark = b.mark := by
    have hhead := congrArg List.head? h
    rw [head?_render, head?_render] at hhead
    exact Option.some.inj hhead
  have hliteral : ∀ v w, a.lexical? = some v → b.lexical? = some w → a = b := by
    intro v w hv hw
    rw [render_literal hv, render_literal hw] at h
    obtain ⟨rfl, hrest⟩ := escapeLiteral_append_inj (isWellFormed_of_lexical? ha hv)
      (isWellFormed_of_lexical? hb hw) (List.cons.inj h).2
    exact eq_of_ending_eq ha hb hv hw hrest
  cases a with
  | iri i =>
    cases b with
    | iri j => rw [renderIri_injOn ha hb h]
    | blank _ | lang _ _ | typed _ _ => exact absurd hmark (by rw [mark, mark]; decide)
  | blank l =>
    cases b with
    | blank l' =>
      rw [render_blank, render_blank] at h
      rw [(List.cons.inj (List.cons.inj h).2).2]
    | iri _ | lang _ _ | typed _ _ => exact absurd hmark (by rw [mark, mark]; decide)
  | lang v tag =>
    cases b with
    | lang w _ | typed w _ => exact hliteral v w rfl rfl
    | iri _ | blank _ => exact absurd hmark (by rw [mark, mark]; decide)
  | typed v d =>
    cases b with
    | lang w _ | typed w _ => exact hliteral v w rfl rfl
    | iri _ | blank _ => exact absurd hmark (by rw [mark, mark]; decide)

end Term

/-! ### The order of terms -/

namespace Term

theorem le_eq (a b : Term) : a.le b =
    if a.kind.code = b.kind.code then Text.le a.render b.render
    else decide (a.kind.code ≤ b.kind.code) := by
  rw [le]
  split_ifs with h
  · simp [h]
  · simp [h, UInt8.le_iff_lt_or_eq]

theorem ranks : Ranks Term.le := by
  have hcodes : Ranks fun x y : UInt8 => decide (x ≤ y) :=
    ⟨by simpa using fun _ _ _ => UInt8.le_trans, by simpa using UInt8.le_total⟩
  have hseparates : Separates (fun x y : UInt8 => decide (x ≤ y)) fun _ => True := by
    intro x _ y _ hxy hyx
    exact UInt8.le_antisymm (of_decide_eq_true hxy) (of_decide_eq_true hyx)
  rw [show Term.le = _ from funext₂ le_eq]
  exact .lex hcodes hseparates (Text.ranks.comap render) fun t => t.kind.code

/-- Terms that come one before the other both ways have the same text. -/
theorem render_eq_of_le {a b : Term} (h : a.le b = true) (h' : b.le a = true) :
    a.render = b.render := by
  rw [le_eq] at h h'
  split_ifs at h with hcode
  · rw [if_pos hcode.symm] at h'
    exact Text.le_antisymm h h'
  · rw [if_neg (Ne.symm hcode)] at h'
    exact absurd (UInt8.le_antisymm (of_decide_eq_true h) (of_decide_eq_true h')) hcode

theorem separates : Separates Term.le (·.isUtf8 = true) :=
  fun _ ha _ hb h h' => render_injOn ha hb (render_eq_of_le h h')

end Term

theorem Node.ranks : Ranks Node.le := Term.ranks.comap toTerm

theorem Node.separates : Separates Node.le (·.isUtf8 = true) :=
  Term.separates.comap (fun _ h => h) fun _ _ _ _ h => toTerm_injective h

theorem iriLe_eq (a b : Iri) : iriLe a b = Text.le (renderIri a) (renderIri b) := by
  rw [iriLe, Term.le_eq]
  exact if_pos rfl

theorem ranks_iriLe : Ranks iriLe := Term.ranks.comap Term.iri

theorem separates_iriLe : Separates iriLe (Utf8.isWellFormed · = true) :=
  Term.separates.comap (fun _ h => h) fun _ _ _ _ h => Term.iri.inj h

/-! ### The order of pairs -/

section

variable {α : Type} {le : α → α → Bool}

theorem Ranks.present (h : Ranks le) : Ranks (presentLe le) := by
  refine ⟨fun a b c hab hbc => ?_, fun a b => ?_⟩
  · cases a with
    | none => rfl
    | some a =>
      cases b with
      | none => cases hab
      | some b =>
        cases c with
        | none => cases hbc
        | some c => exact h.trans a b c hab hbc
  · cases a with
    | none => rfl
    | some a =>
      cases b with
      | none => rfl
      | some b => exact h.total a b

theorem Separates.present {p : α → Bool} (h : Separates le (p · = true)) :
    Separates (presentLe le) (·.all p = true) := by
  intro a ha b hb hab hba
  cases a with
  | none =>
    cases b with
    | none => rfl
    | some b => cases hba
  | some a =>
    cases b with
    | none => cases hab
    | some b => exact congrArg some (h ha hb hab hba)

end

namespace Pair

theorem le_eq (a b : Pair) : a.le b =
    if renderIri a.predicate = renderIri b.predicate then presentLe Term.le a.object b.object
    else Text.le (renderIri a.predicate) (renderIri b.predicate) := by
  rw [le, iriLe_eq]

theorem ranks : Ranks Pair.le := by
  rw [show Pair.le = _ from funext₂ le_eq]
  exact .lex Text.ranks Text.separates (Term.ranks.present.comap object)
    fun p => renderIri p.predicate

theorem separates : Separates Pair.le (·.isUtf8 = true) := by
  intro a ha b hb hab hba
  rw [isUtf8, Bool.and_eq_true] at ha hb
  rw [le_eq] at hab hba
  split_ifs at hab with hpredicate
  · rw [if_pos hpredicate.symm] at hba
    have hobject := Term.separates.present ha.2 hb.2 hab hba
    exact Pair.mk.injEq .. ▸ ⟨renderIri_injOn ha.1 hb.1 hpredicate, hobject⟩
  · rw [if_neg (Ne.symm hpredicate)] at hba
    exact absurd (Text.le_antisymm hab hba) hpredicate

/-- Pairs go by their predicates first, and by their objects where they have the same one. -/
theorem before_cases {a b : Pair} (ha : a.isUtf8 = true) (hb : b.isUtf8 = true)
    (h : Before Pair.le a b) : Before iriLe a.predicate b.predicate ∨
      a.predicate = b.predicate ∧ Before (presentLe Term.le) a.object b.object := by
  rw [isUtf8, Bool.and_eq_true] at ha hb
  rw [Before, le_eq] at h
  split_ifs at h with hpredicate
  · exact .inr ⟨renderIri_injOn ha.1 hb.1 hpredicate.symm, h⟩
  · refine .inl ?_
    rw [Before, iriLe_eq]
    exact h

end Pair

end TripleStore
