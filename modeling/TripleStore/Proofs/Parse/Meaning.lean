import TripleStore.Parse.Delivery
import TripleStore.Proofs.Steps
import TripleStore.Proofs.Token.Stream

/-!
# What documents mean

The grammars of the two formats are given by parse trees whose leaves are tokens.  A tree has the
tokens it stands for, from left to right, and a meaning: the statements it spells out.  A meaning
depends on the labels met before it and on the supply of fresh ones; a tree that breaks a rule for
IRIs, labels or language tags has none.

* `Leaf`: a token of a kind, as a leaf of a tree.
* `Meaning`: what a part of a document means.
* `TokenStream.Sound`: a stream that does not start with an error.
* `Delivery.collect_block_eq_ok`: what is collected from a delivery, block by block.
-/

namespace TripleStore

/-- A token of a kind. -/
abbrev Leaf (k : Kind) : Type := { t : Token // t.kind = k }

/-- The labels that a document has used so far, and the supply of fresh ones. -/
structure Labels where
  scope : Scope := {}
  supply : Supply
  deriving DecidableEq, Repr

/-- What a part of a document means, given the labels used before it. -/
abbrev Meaning := StateT Labels Option

namespace Meaning

variable {α β : Type} {l l' : Labels}

/-- A fresh node for a place without a label. -/
def anonymous : Meaning Node := fun l =>
  some (.blank l.supply.drawAnonymous.1, ⟨l.scope, l.supply.drawAnonymous.2⟩)

/-- The node of a label, which has to be valid. -/
def labelled (label : Text) : Meaning Node := fun l =>
  if isIdentifier label then
    let (node, scope, supply) := l.scope.resolve l.supply label
    some (.blank node, ⟨scope, supply⟩)
  else none

/-- An IRI that has to be valid. -/
def valid (iri : Iri) : Meaning Iri := fun l => if isIdentifier iri then some (iri, l) else none

/-- A literal with a language tag, which has to be valid. -/
def tagged (value tag : Text) : Meaning Term := fun l =>
  if isLanguageTag tag then some (.lang value tag, l) else none

/-- A part of a document in two halves means something when both halves do. -/
theorem run_bind_eq_some {x : Meaning α} {f : α → Meaning β} {b : β} :
    (x >>= f).run l = some (b, l') ↔ ∃ a l₁, x.run l = some (a, l₁) ∧ (f a).run l₁ = some (b, l') := by
  rw [StateT.run_bind, Option.bind_eq_bind, Option.bind_eq_some_iff]
  constructor
  · intro h
    obtain ⟨⟨a, l₁⟩, hx, hf⟩ := h
    exact ⟨a, l₁, hx, hf⟩
  · intro h
    obtain ⟨a, l₁, hx, hf⟩ := h
    exact ⟨(a, l₁), hx, hf⟩

theorem run_pure_eq_some {a b : α} :
    (pure a : Meaning α).run l = some (b, l') ↔ a = b ∧ l = l' := by
  rw [StateT.run_pure, Option.pure_def, Option.some.injEq, Prod.mk.injEq]

theorem run_anonymous_eq_some {n : Node} :
    anonymous.run l = some (n, l') ↔
      n = .blank l.supply.drawAnonymous.1 ∧ l' = ⟨l.scope, l.supply.drawAnonymous.2⟩ := by
  rw [StateT.run, anonymous, Option.some.injEq, Prod.mk.injEq, eq_comm, eq_comm (a := l')]

theorem run_labelled_eq_some {label : Text} {n : Node} :
    (labelled label).run l = some (n, l') ↔ isIdentifier label ∧
      n = .blank (l.scope.resolve l.supply label).1 ∧
      l' = ⟨(l.scope.resolve l.supply label).2.1, (l.scope.resolve l.supply label).2.2⟩ := by
  rw [StateT.run, labelled]
  split_ifs with h
  · simp [h, eq_comm]
  · simp [h]

theorem run_valid_eq_some {i j : Iri} :
    (valid i).run l = some (j, l') ↔ isIdentifier i ∧ j = i ∧ l' = l := by
  rw [StateT.run, valid]
  split_ifs with h
  · simp [h, eq_comm]
  · simp [h]

theorem run_tagged_eq_some {value tag : Text} {t : Term} :
    (tagged value tag).run l = some (t, l') ↔
      isLanguageTag tag ∧ t = .lang value tag ∧ l' = l := by
  rw [StateT.run, tagged]
  split_ifs with h
  · simp [h, eq_comm]
  · simp [h]

end Meaning

namespace Term

theorem violation?_iri {i : Iri} : (Term.iri i).violation? = none ↔ isIdentifier i := by
  rw [violation?]
  split_ifs with h
  · simp [h]
  · simp [h]

theorem violation?_blank {l : Text} : (Term.blank l).violation? = none ↔ isIdentifier l := by
  rw [violation?]
  split_ifs with h
  · simp [h]
  · simp [h]

theorem violation?_lang {v tag : Text} :
    (Term.lang v tag).violation? = none ↔ isLanguageTag tag := by
  rw [violation?]
  split_ifs with h
  · simp [h]
  · simp [h]

theorem violation?_typed {v : Text} {d : Iri} :
    (Term.typed v d).violation? = none ↔ isIdentifier d := by
  rw [violation?]
  split_ifs with h
  · simp [h]
  · simp [h]

end Term

/-! ### Streams -/

namespace TokenStream

/-- The stream does not start with an error. -/
def Sound (s : TokenStream) : Prop := s.sound = .ok s

theorem sound_eq_ok {s s' : TokenStream} : s.sound = .ok s' ↔ s.Sound ∧ s' = s := by
  cases s <;> simp [Sound, sound, eq_comm]

theorem sound_done (p : Position) : (done p).Sound := rfl

theorem sound_token (t : Token) (s : TokenStream) : (token t s).Sound := rfl

theorem sound_after {rest : TokenStream} (h : rest.Sound) (ts : List Token) :
    (after ts rest).Sound := by
  cases ts with
  | nil => exact h
  | cons t ts => exact sound_token t _

theorem current_token (t : Token) (s : TokenStream) : (token t s).current = t := rfl

/-- A stream whose token at hand is not the end starts with that token. -/
theorem eq_token_of_current {s : TokenStream} (h : s.current.kind ≠ .eof) :
    ∃ rest, s = .token s.current rest := by
  cases s with
  | done p => exact absurd rfl h
  | fault e => exact absurd rfl h
  | token t rest => exact ⟨rest, rfl⟩

/-- Where the tokens of a lexer have come to the end, the text has, or there is an error. -/
theorem eq_done_of_ofLexer {l : Lexer} {fuel : ℕ} {ts : List Token} {rest : TokenStream}
    (h : ofLexer fuel l = after ts rest) (hrest : rest.Sound) (hk : rest.current.kind = .eof) :
    ∃ p, rest = .done p := by
  induction ts generalizing l fuel with
  | nil =>
    rw [after_nil] at h
    cases fuel with
    | zero => exact ⟨_, h.symm⟩
    | succ fuel =>
      rw [ofLexer] at h
      split at h
      · rw [← h] at hrest
        cases hrest
      · split_ifs at h with ht
        · exact ⟨_, h.symm⟩
        · rw [← h] at hk
          exact absurd hk ht
  | cons t ts ih =>
    cases fuel with
    | zero => cases h
    | succ fuel =>
      rw [ofLexer] at h
      split at h
      · cases h
      · split_ifs at h with ht
        · cases h
        · exact ih (TokenStream.token.inj h).2

end TokenStream

/-! ### Deliveries -/

namespace Delivery

variable {supply supply' : Supply} {out stmts : List Statement} {later : Delivery}

theorem collect_finish_eq_ok :
    (finish supply).collect = (.ok stmts, supply') ↔ stmts = [] ∧ supply' = supply := by
  simp [collect, receive, eq_comm]

theorem collect_failed_ne_ok {e : ReadError} :
    (failed e supply).collect ≠ (.ok stmts, supply') := by
  simp [collect, receive]

/-- **All statements of a delivery are those of its first block and all statements of the rest.** -/
theorem collect_block_eq_ok :
    (block out supply later).collect = (.ok stmts, supply') ↔
      ∃ r, later.collect = (.ok r, supply') ∧ stmts = out ++ r := by
  simp only [collect, receive]
  cases h : later.receive.error with
  | some e => simp
  | none => simp [eq_comm, and_comm]

end Delivery

end TripleStore
