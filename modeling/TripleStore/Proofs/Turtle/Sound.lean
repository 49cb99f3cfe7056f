import TripleStore.Proofs.Turtle.Steps

/-!
# What is read is in the grammar

Wherever a reader of Turtle ends well, the tokens that it has passed are those of a tree of the
grammar, and what it gives, the triples that it has emitted included, is what the tree means.  The
readers of nested structures call each other with fewer and fewer steps left, so their part is one
induction on the number of steps.

* `soundAt`: **whatever the readers of nested structures give is meant by a tree.**
* `statement_sound`: a block that was read is a directive or triples with their full stop.
* `deliver_sound`: the blocks that were read one after the other are a document.
-/

namespace TripleStore.Turtle

open TokenStream

variable {c : Context} {l : Labels} {stream : TokenStream} {out : List Statement} {s' : State}
  {n : ℕ}

/-! ### Literals and separators -/

theorem literal_sound {t : Term}
    (hk : stream.current.kind = .stringLiteral ∨ stream.current.kind = .longString)
    (h : literal.run (reading c l stream out) = .ok t s') :
    ∃ (v : StringLeaf) (suffix : Suffix) (rest : TokenStream) (l' : Labels),
      stream = after (v.1 :: suffix.tokens) rest ∧
      (suffix.meaning c v.1.text).run l = some (t, l') ∧ s' = reading c l' rest out := by
  rw [literal, run_bind_eq_ok] at h
  obtain ⟨value, s₁, hvalue, h⟩ := h
  obtain ⟨rfl, rfl⟩ := current_eq_ok.mp hvalue
  obtain ⟨_, s₂, hadv, h⟩ := run_bind_eq_ok.mp h
  have heof : stream.current.kind ≠ .eof := by
    rcases hk with hk | hk
    all_goals
      rw [hk]
      decide
  obtain ⟨rest, hstream, -, rfl⟩ := advance_eq_ok heof hadv
  obtain ⟨next, s₃, hnext, h⟩ := run_bind_eq_ok.mp h
  obtain ⟨rfl, rfl⟩ := current_eq_ok.mp hnext
  split at h
  · next htag =>
    obtain ⟨_, s₄, hadv', h⟩ := run_bind_eq_ok.mp h
    obtain ⟨rest', hrest, -, rfl⟩ := advance_eq_ok (by rw [htag]; decide) hadv'
    split at h
    · next hv =>
      cases h
      refine ⟨⟨_, hk⟩, .tag ⟨_, htag⟩, rest', l, ?_,
        Meaning.run_tagged_eq_some.mpr ⟨Term.violation?_lang.mp hv, rfl, rfl⟩, rfl⟩
      rw [Suffix.tokens, after_cons, after_cons, after_nil, ← hrest]
      exact hstream
    · exact absurd h run_throw_ne_ok
  · next hmark =>
    obtain ⟨_, s₄, hadv', h⟩ := run_bind_eq_ok.mp h
    obtain ⟨rest', hrest, -, rfl⟩ := advance_eq_ok (by rw [hmark]; decide) hadv'
    obtain ⟨datatype, s₅, hiri, hret⟩ := run_bind_eq_ok.mp h
    obtain ⟨name, rest'', l', hname, -, hmeaning, rfl⟩ := iri_eq_ok_iff.mp hiri
    cases hret
    refine ⟨⟨_, hk⟩, .datatype ⟨_, hmark⟩ name, rest'', l', ?_,
      Meaning.run_bind_eq_some.mpr ⟨_, _, hmeaning, rfl⟩, rfl⟩
    rw [Suffix.tokens, after_cons, after_cons, ← hname, ← hrest]
    exact hstream
  · cases h
    exact ⟨⟨_, hk⟩, .none, rest, l, hstream, rfl, rfl⟩

theorem literalToken_sound {make : Text → Term} {t : Term} (hk : stream.current.kind ≠ .eof)
    (h : (literalToken make).run (reading c l stream out) = .ok t s') :
    ∃ rest, stream = .token stream.current rest ∧ t = make stream.current.text ∧
      s' = reading c l rest out := by
  rw [literalToken, run_bind_eq_ok] at h
  obtain ⟨value, s₁, hvalue, h⟩ := h
  obtain ⟨rfl, rfl⟩ := current_eq_ok.mp hvalue
  obtain ⟨_, s₂, hadv, hret⟩ := run_bind_eq_ok.mp h
  obtain ⟨rest, hstream, -, rfl⟩ := advance_eq_ok hk hadv
  cases hret
  exact ⟨rest, hstream, rfl, rfl⟩

theorem eq_after_of_dropSemicolons {rest : TokenStream} (h : stream.dropSemicolons = .ok rest) :
    ∃ semicolons : List (Leaf .semicolon), stream = after (semicolons.map (·.1)) rest := by
  induction stream with
  | fault e => cases h
  | done p =>
    cases h
    exact ⟨[], rfl⟩
  | token t tail ih =>
    rw [dropSemicolons] at h
    split_ifs at h with ht
    · obtain ⟨semicolons, rfl⟩ := ih h
      exact ⟨⟨t, ht⟩ :: semicolons, rfl⟩
    · cases h
      exact ⟨[], rfl⟩

/-- The stream behind semicolons, one of which is at hand. -/
theorem exists_semicolons {rest : TokenStream} (hk : stream.current.kind = .semicolon)
    (h : stream.dropSemicolons = .ok rest) :
    ∃ (semicolon : Leaf .semicolon) (semicolons : List (Leaf .semicolon)),
      stream = after (semicolon.1 :: semicolons.map (·.1)) rest := by
  obtain ⟨tail, hstream⟩ := eq_token_of_current (s := stream) (by rw [hk]; decide)
  rw [hstream, dropSemicolons, if_pos hk] at h
  obtain ⟨semicolons, rfl⟩ := eq_after_of_dropSemicolons h
  exact ⟨⟨_, hk⟩, semicolons, hstream⟩

/-! ### Nested structures -/

/-- Whatever is read as properties within `n` steps is meant by a tree. -/
def SoundPredicates (n : ℕ) : Prop :=
  ∀ (c : Context) (l : Labels) (stream : TokenStream) (out : List Statement) (subject : Node)
    (u : Unit) (s' : State), (predicates subject n).run (reading c l stream out) = .ok u s' →
    ∃ (ps : Properties) (rest : TokenStream) (l' : Labels) (stmts : List Statement),
      stream = after ps.tokens rest ∧ (ps.meaning c subject).run l = some (stmts, l') ∧
      s' = reading c l' rest (out ++ stmts)

/-- Whatever is read as objects within `n` steps is meant by a tree. -/
def SoundObjects (n : ℕ) : Prop :=
  ∀ (c : Context) (l : Labels) (stream : TokenStream) (out : List Statement) (subject : Node)
    (predicate : Iri) (u : Unit) (s' : State),
    (objects subject predicate n).run (reading c l stream out) = .ok u s' →
    ∃ (os : Objects) (rest : TokenStream) (l' : Labels) (stmts : List Statement),
      stream = after os.tokens rest ∧ (os.meaning c subject predicate).run l = some (stmts, l') ∧
      s' = reading c l' rest (out ++ stmts)

/-- Whatever is read as an object within `n` steps is meant by a tree. -/
def SoundObject (n : ℕ) : Prop :=
  ∀ (c : Context) (l : Labels) (stream : TokenStream) (out : List Statement) (t : Term)
    (s' : State), (object n).run (reading c l stream out) = .ok t s' →
    ∃ (o : Object) (rest : TokenStream) (l' : Labels) (inner : List Statement),
      stream = after o.tokens rest ∧ (o.meaning c).run l = some ((t, inner), l') ∧
      s' = reading c l' rest (out ++ inner)

/-- Whatever is read in brackets within `n` steps is nothing, or properties that a tree means. -/
def SoundPropertyList (n : ℕ) : Prop :=
  ∀ (c : Context) (l : Labels) (stream : TokenStream) (out : List Statement) (node : Node)
    (empty : Bool) (s' : State),
    (propertyList n).run (reading c l stream out) = .ok (node, empty) s' →
    ∃ (opening : Leaf .openBracket) (closing : Leaf .closeBracket) (rest : TokenStream)
      (l₁ : Labels), Meaning.anonymous.run l = some (node, l₁) ∧
      (empty = true ∧ stream = after [opening.1, closing.1] rest ∧ s' = reading c l₁ rest out ∨
        empty = false ∧ ∃ (ps : Properties) (l' : Labels) (stmts : List Statement),
          stream = after (opening.1 :: (ps.tokens ++ [closing.1])) rest ∧
          (ps.meaning c node).run l₁ = some (stmts, l') ∧ s' = reading c l' rest (out ++ stmts))

/-- Whatever is read as items behind a cell within `n` steps is meant by a tree. -/
def SoundItems (n : ℕ) : Prop :=
  ∀ (c : Context) (l : Labels) (stream : TokenStream) (out : List Statement) (last : Node)
    (u : Unit) (s' : State), (items last n).run (reading c l stream out) = .ok u s' →
    ∃ (its : Items) (rest : TokenStream) (l' : Labels) (cells : List Cell),
      stream = after its.tokens rest ∧ (its.cells c).run l = some (cells, l') ∧
      s' = reading c l' rest (out ++ cellsBehind last cells)

/-- Whatever is read as a list within `n` steps is meant by a tree. -/
def SoundCollection (n : ℕ) : Prop :=
  ∀ (c : Context) (l : Labels) (stream : TokenStream) (out : List Statement) (node : Node)
    (s' : State), (collection n).run (reading c l stream out) = .ok node s' →
    ∃ (opening : Leaf .openParen) (its : Items) (closing : Leaf .closeParen) (rest : TokenStream)
      (l' : Labels) (cells : List Cell),
      stream = after (opening.1 :: (its.tokens ++ [closing.1])) rest ∧
      (its.cells c).run l = some (cells, l') ∧ node = (spellList cells).1 ∧
      s' = reading c l' rest (out ++ (spellList cells).2)

/-- The readers of nested structures with `n` steps left. -/
structure SoundAt (n : ℕ) : Prop where
  predicates : SoundPredicates n
  objects : SoundObjects n
  object : SoundObject n
  propertyList : SoundPropertyList n
  items : SoundItems n
  collection : SoundCollection n

theorem soundPredicates_succ (ih : SoundAt n) : SoundPredicates (n + 1) := by
  intro c l stream out subject u s' h
  rw [predicates, run_bind_eq_ok] at h
  obtain ⟨predicate, s₁, hverb, h⟩ := h
  obtain ⟨v, rest, l₁, rfl, -, hv, rfl⟩ := verb_eq_ok_iff.mp hverb
  obtain ⟨_, s₂, hobjects, h⟩ := run_bind_eq_ok.mp h
  obtain ⟨os, rest, l₂, stmts, rfl, hos, rfl⟩ := ih.objects _ _ _ _ _ _ _ _ hobjects
  obtain ⟨k, s₃, hkind, h⟩ := run_bind_eq_ok.mp h
  obtain ⟨rfl, rfl⟩ := kind_eq_ok.mp hkind
  split_ifs at h with hsemicolon
  · obtain ⟨_, _, hget, h⟩ := run_bind_eq_ok.mp h
    cases hget
    split at h
    · exact absurd h run_throw_ne_ok
    · next rest' hdrop =>
      obtain ⟨semicolon, semicolons, hrest⟩ := exists_semicolons hsemicolon hdrop
      obtain ⟨_, _, hset, h⟩ := run_bind_eq_ok.mp h
      cases hset
      obtain ⟨k, s₃, hkind', h⟩ := run_bind_eq_ok.mp h
      have hstate : s₃ = reading c l₂ rest' (out ++ stmts) := (kind_eq_ok.mp hkind').2
      rw [hstate] at h
      split_ifs at h with hend
      · cases h
        refine ⟨.last v os (semicolon :: semicolons), rest', l₂, stmts, ?_,
          Meaning.run_bind_eq_some.mpr ⟨predicate, l₁, hv, hos⟩, rfl⟩
        rw [Properties.tokens, after_append, after_append, hrest]
        rfl
      · obtain ⟨ps, rest, l₃, stmts', rfl, hps, rfl⟩ := ih.predicates _ _ _ _ _ _ _ h
        refine ⟨.more v os semicolon semicolons ps, rest, l₃, stmts ++ stmts', ?_, ?_, ?_⟩
        · rw [Properties.tokens, after_append, after_append, hrest, after_cons, after_cons,
            after_append]
        · refine Meaning.run_bind_eq_some.mpr ⟨predicate, l₁, hv, ?_⟩
          refine Meaning.run_bind_eq_some.mpr ⟨stmts, l₂, hos, ?_⟩
          exact Meaning.run_bind_eq_some.mpr ⟨stmts', l₃, hps, rfl⟩
        · rw [List.append_assoc]
  · cases h
    refine ⟨.last v os [], rest, l₂, stmts, ?_,
      Meaning.run_bind_eq_some.mpr ⟨predicate, l₁, hv, hos⟩, rfl⟩
    rw [Properties.tokens, List.map_nil, List.append_nil, after_append]

theorem soundObjects_succ (ih : SoundAt n) : SoundObjects (n + 1) := by
  intro c l stream out subject predicate u s' h
  rw [objects, run_bind_eq_ok] at h
  obtain ⟨t, s₁, hobject, h⟩ := h
  obtain ⟨o, rest, l₁, inner, rfl, ho, rfl⟩ := ih.object _ _ _ _ _ _ hobject
  obtain ⟨_, s₂, hemit, h⟩ := run_bind_eq_ok.mp h
  obtain rfl := emit_eq_ok.mp hemit
  obtain ⟨k, s₃, hkind, h⟩ := run_bind_eq_ok.mp h
  obtain ⟨rfl, rfl⟩ := kind_eq_ok.mp hkind
  split_ifs at h with hcomma
  · obtain ⟨_, s₄, hadv, h⟩ := run_bind_eq_ok.mp h
    obtain ⟨rest', hrest, -, rfl⟩ := advance_eq_ok (by rw [hcomma]; decide) hadv
    obtain ⟨os, rest'', l₂, stmts, rfl, hos, rfl⟩ := ih.objects _ _ _ _ _ _ _ _ h
    refine ⟨.more o ⟨_, hcomma⟩ os, rest'', l₂, inner ++ triple subject predicate t :: stmts,
      ?_, ?_, ?_⟩
    · rw [Objects.tokens, after_append, after_cons, ← hrest]
    · refine Meaning.run_bind_eq_some.mpr ⟨(t, inner), l₁, ho, ?_⟩
      exact Meaning.run_bind_eq_some.mpr ⟨stmts, l₂, hos, rfl⟩
    · simp only [List.append_assoc, List.cons_append, List.nil_append]
  · cases h
    refine ⟨.one o, rest, l₁, inner ++ [triple subject predicate t], rfl,
      Meaning.run_bind_eq_some.mpr ⟨(t, inner), l₁, ho, rfl⟩, ?_⟩
    rw [List.append_assoc]

theorem soundPropertyList_succ (ih : SoundAt n) : SoundPropertyList (n + 1) := by
  intro c l stream out node empty s' h
  rw [propertyList, run_bind_eq_ok] at h
  obtain ⟨opening, s₁, hopen, h⟩ := h
  obtain ⟨rest, rfl, hopening, -, rfl⟩ := (expect_eq_ok_iff (by decide)).mp hopen
  obtain ⟨node', s₂, hnode, h⟩ := run_bind_eq_ok.mp h
  obtain ⟨l₁, hanonymous, rfl⟩ := anonymous_eq_ok.mp hnode
  obtain ⟨k, s₃, hkind, h⟩ := run_bind_eq_ok.mp h
  obtain ⟨rfl, rfl⟩ := kind_eq_ok.mp hkind
  by_cases hempty : rest.current.kind = .closeBracket
  · simp only [hempty, not_true_eq_false, if_false, decide_true] at h
    obtain ⟨closing, s₄, hclose, hret⟩ := run_bind_eq_ok.mp h
    obtain ⟨rest', rfl, hclosing, -, rfl⟩ := (expect_eq_ok_iff (by decide)).mp hclose
    cases hret
    exact ⟨⟨opening, hopening⟩, ⟨closing, hclosing⟩, rest', l₁, hanonymous, .inl ⟨rfl, rfl, rfl⟩⟩
  · simp only [hempty, not_false_eq_true, if_true, decide_false] at h
    obtain ⟨_, s₄, hpredicates, h⟩ := run_bind_eq_ok.mp h
    obtain ⟨ps, rest', l₂, stmts, rfl, hps, rfl⟩ := ih.predicates _ _ _ _ _ _ _ hpredicates
    obtain ⟨closing, s₅, hclose, hret⟩ := run_bind_eq_ok.mp h
    obtain ⟨rest'', rfl, hclosing, -, rfl⟩ := (expect_eq_ok_iff (by decide)).mp hclose
    cases hret
    refine ⟨⟨opening, hopening⟩, ⟨closing, hclosing⟩, rest'', l₁, hanonymous,
      .inr ⟨rfl, ps, l₂, stmts, ?_, hps, rfl⟩⟩
    rw [after_cons, after_append]
    rfl

theorem soundItems_succ (ih : SoundAt n) : SoundItems (n + 1) := by
  intro c l stream out last u s' h
  rw [items, run_bind_eq_ok] at h
  obtain ⟨k, s₁, hkind, h⟩ := h
  obtain ⟨rfl, rfl⟩ := kind_eq_ok.mp hkind
  split_ifs at h with hclose
  · obtain rfl := emit_eq_ok.mp h
    exact ⟨.nil, stream, l, [], rfl, rfl, rfl⟩
  · obtain ⟨t, s₂, hobject, h⟩ := run_bind_eq_ok.mp h
    obtain ⟨o, rest, l₁, inner, rfl, ho, rfl⟩ := ih.object _ _ _ _ _ _ hobject
    obtain ⟨node, s₃, hnode, h⟩ := run_bind_eq_ok.mp h
    obtain ⟨l₂, hanonymous, rfl⟩ := anonymous_eq_ok.mp hnode
    obtain ⟨_, s₄, hemit, h⟩ := run_bind_eq_ok.mp h
    obtain rfl := emit_eq_ok.mp hemit
    obtain ⟨_, s₅, hemit', h⟩ := run_bind_eq_ok.mp h
    obtain rfl := emit_eq_ok.mp hemit'
    obtain ⟨its, rest', l₃, cells, rfl, hits, rfl⟩ := ih.items _ _ _ _ _ _ _ h
    refine ⟨.cons o its, rest', l₃, ⟨inner, t, node⟩ :: cells, ?_, ?_, ?_⟩
    · rw [Items.tokens, after_append]
    · refine Meaning.run_bind_eq_some.mpr ⟨(t, inner), l₁, ho, ?_⟩
      refine Meaning.run_bind_eq_some.mpr ⟨node, l₂, hanonymous, ?_⟩
      exact Meaning.run_bind_eq_some.mpr ⟨cells, l₃, hits, rfl⟩
    · simp only [cellsBehind, List.append_assoc, List.cons_append, List.nil_append]

theorem soundCollection_succ (ih : SoundAt n) : SoundCollection (n + 1) := by
  intro c l stream out node s' h
  rw [collection, run_bind_eq_ok] at h
  obtain ⟨opening, s₁, hopen, h⟩ := h
  obtain ⟨rest, rfl, hopening, -, rfl⟩ := (expect_eq_ok_iff (by decide)).mp hopen
  obtain ⟨k, s₂, hkind, h⟩ := run_bind_eq_ok.mp h
  obtain ⟨rfl, rfl⟩ := kind_eq_ok.mp hkind
  split_ifs at h with hempty
  · obtain ⟨closing, s₃, hclose, hret⟩ := run_bind_eq_ok.mp h
    obtain ⟨rest', rfl, hclosing, -, rfl⟩ := (expect_eq_ok_iff (by decide)).mp hclose
    cases hret
    refine ⟨⟨opening, hopening⟩, .nil, ⟨closing, hclosing⟩, rest', l, [], rfl, rfl, rfl, ?_⟩
    rw [spellList, List.append_nil]
  · obtain ⟨t, s₃, hobject, h⟩ := run_bind_eq_ok.mp h
    obtain ⟨o, rest', l₁, inner, rfl, ho, rfl⟩ := ih.object _ _ _ _ _ _ hobject
    obtain ⟨cell, s₄, hnode, h⟩ := run_bind_eq_ok.mp h
    obtain ⟨l₂, hanonymous, rfl⟩ := anonymous_eq_ok.mp hnode
    obtain ⟨_, s₅, hemit, h⟩ := run_bind_eq_ok.mp h
    obtain rfl := emit_eq_ok.mp hemit
    obtain ⟨_, s₆, hitems, h⟩ := run_bind_eq_ok.mp h
    obtain ⟨its, rest'', l₃, cells, rfl, hits, rfl⟩ := ih.items _ _ _ _ _ _ _ hitems
    obtain ⟨closing, s₇, hclose, hret⟩ := run_bind_eq_ok.mp h
    obtain ⟨rest', rfl, hclosing, -, rfl⟩ := (expect_eq_ok_iff (by decide)).mp hclose
    cases hret
    refine ⟨⟨opening, hopening⟩, .cons o its, ⟨closing, hclosing⟩, rest', l₃,
      ⟨inner, t, node⟩ :: cells, ?_, ?_, rfl, ?_⟩
    · rw [Items.tokens, after_cons, after_append, after_append]
      rfl
    · refine Meaning.run_bind_eq_some.mpr ⟨(t, inner), l₁, ho, ?_⟩
      refine Meaning.run_bind_eq_some.mpr ⟨node, l₂, hanonymous, ?_⟩
      exact Meaning.run_bind_eq_some.mpr ⟨cells, l₃, hits, rfl⟩
    · simp only [spellList, List.append_assoc, List.cons_append, List.nil_append]

theorem name_sound {t : Term}
    (h : (do return Term.iri (← iri) : Parser Term).run (reading c l stream out) = .ok t s') :
    ∃ (o : Object) (rest : TokenStream) (l' : Labels) (inner : List Statement),
      stream = after o.tokens rest ∧ (o.meaning c).run l = some ((t, inner), l') ∧
      s' = reading c l' rest (out ++ inner) := by
  obtain ⟨i, s₁, hiri, hret⟩ := run_bind_eq_ok.mp h
  obtain ⟨name, rest, l', rfl, -, hmeaning, rfl⟩ := iri_eq_ok_iff.mp hiri
  cases hret
  refine ⟨.name name, rest, l', [], rfl, Meaning.run_bind_eq_some.mpr ⟨i, l', hmeaning, rfl⟩, ?_⟩
  rw [List.append_nil]

theorem string_sound {t : Term}
    (hk : stream.current.kind = .stringLiteral ∨ stream.current.kind = .longString)
    (h : literal.run (reading c l stream out) = .ok t s') :
    ∃ (o : Object) (rest : TokenStream) (l' : Labels) (inner : List Statement),
      stream = after o.tokens rest ∧ (o.meaning c).run l = some ((t, inner), l') ∧
      s' = reading c l' rest (out ++ inner) := by
  obtain ⟨v, suffix, rest, l', rfl, hsuffix, rfl⟩ := literal_sound hk h
  refine ⟨.string v suffix, rest, l', [], rfl,
    Meaning.run_bind_eq_some.mpr ⟨t, l', hsuffix, rfl⟩, ?_⟩
  rw [List.append_nil]

theorem scalar_sound {t : Term} {rest : TokenStream} (scalar : Scalar)
    (hstream : stream = after scalar.tokens rest) (ht : t = scalar.term)
    (hs : s' = reading c l rest out) :
    ∃ (o : Object) (rest : TokenStream) (l' : Labels) (inner : List Statement),
      stream = after o.tokens rest ∧ (o.meaning c).run l = some ((t, inner), l') ∧
      s' = reading c l' rest (out ++ inner) := by
  refine ⟨.scalar scalar, rest, l, [], hstream, ?_, ?_⟩
  · rw [ht]
    rfl
  · rw [hs, List.append_nil]

theorem soundObject_succ (ih : SoundAt n) : SoundObject (n + 1) := by
  intro c l stream out t s' h
  rw [object, run_bind_eq_ok] at h
  obtain ⟨k, s₁, hkind, h⟩ := h
  obtain ⟨rfl, rfl⟩ := kind_eq_ok.mp hkind
  split at h
  · exact name_sound h
  · exact name_sound h
  · exact name_sound h
  · obtain ⟨node, s₂, hblank, hret⟩ := run_bind_eq_ok.mp h
    obtain ⟨leaf, rest, l', rfl, -, hmeaning, rfl⟩ := blankNode_eq_ok_iff.mp hblank
    cases hret
    refine ⟨.label leaf, rest, l', [], rfl,
      Meaning.run_bind_eq_some.mpr ⟨node, l', hmeaning, rfl⟩, ?_⟩
    rw [List.append_nil]
  · obtain ⟨⟨node, empty⟩, s₂, hlist, hret⟩ := run_bind_eq_ok.mp h
    obtain ⟨opening, closing, rest, l₁, hanonymous, hcases⟩ :=
      ih.propertyList _ _ _ _ _ _ _ hlist
    cases hret
    rcases hcases with ⟨-, rfl, rfl⟩ | ⟨-, ps, l', stmts, rfl, hps, rfl⟩
    · refine ⟨.brackets opening closing, rest, l₁, [], rfl,
        Meaning.run_bind_eq_some.mpr ⟨node, l₁, hanonymous, rfl⟩, ?_⟩
      rw [List.append_nil]
    · refine ⟨.properties opening ps closing, rest, l', stmts, rfl, ?_, rfl⟩
      refine Meaning.run_bind_eq_some.mpr ⟨node, l₁, hanonymous, ?_⟩
      exact Meaning.run_bind_eq_some.mpr ⟨stmts, l', hps, rfl⟩
  · obtain ⟨node, s₂, hlist, hret⟩ := run_bind_eq_ok.mp h
    obtain ⟨opening, its, closing, rest, l', cells, rfl, hits, rfl, rfl⟩ :=
      ih.collection _ _ _ _ _ _ hlist
    cases hret
    exact ⟨.list opening its closing, rest, l', _, rfl,
      Meaning.run_bind_eq_some.mpr ⟨cells, l', hits, rfl⟩, rfl⟩
  · next hk => exact string_sound (.inl hk) h
  · next hk => exact string_sound (.inr hk) h
  · next hk =>
    obtain ⟨rest, hstream, ht, hs⟩ := literalToken_sound (by rw [hk]; decide) h
    exact scalar_sound (.integer ⟨_, hk⟩) hstream ht hs
  · next hk =>
    obtain ⟨rest, hstream, ht, hs⟩ := literalToken_sound (by rw [hk]; decide) h
    exact scalar_sound (.decimal ⟨_, hk⟩) hstream ht hs
  · next hk =>
    obtain ⟨rest, hstream, ht, hs⟩ := literalToken_sound (by rw [hk]; decide) h
    exact scalar_sound (.double ⟨_, hk⟩) hstream ht hs
  · next hk =>
    obtain ⟨rest, hstream, ht, hs⟩ := literalToken_sound (by rw [hk]; decide) h
    exact scalar_sound (.boolean ⟨_, hk⟩) hstream ht hs
  · exact absurd h unexpected_ne_ok

theorem soundAt_zero : SoundAt 0 where
  predicates := fun _ _ _ _ _ _ _ h => absurd h unexpected_ne_ok
  objects := fun _ _ _ _ _ _ _ _ h => absurd h unexpected_ne_ok
  object := fun _ _ _ _ _ _ h => absurd h unexpected_ne_ok
  propertyList := fun _ _ _ _ _ _ _ h => absurd h unexpected_ne_ok
  items := fun _ _ _ _ _ _ _ h => absurd h unexpected_ne_ok
  collection := fun _ _ _ _ _ _ h => absurd h unexpected_ne_ok

/-- **Whatever the readers of nested structures give is meant by a tree.** -/
theorem soundAt (n : ℕ) : SoundAt n := by
  induction n with
  | zero => exact soundAt_zero
  | succ n ih =>
    exact ⟨soundPredicates_succ ih, soundObjects_succ ih, soundObject_succ ih,
      soundPropertyList_succ ih, soundItems_succ ih, soundCollection_succ ih⟩

/-! ### Blocks -/

theorem subject_sound {node : Node} (h : subject.run (reading c l stream out) = .ok node s') :
    ∃ (s : Subject) (rest : TokenStream) (l' : Labels) (inner : List Statement),
      stream = after s.tokens rest ∧ (s.meaning c).run l = some ((node, inner), l') ∧
      s' = reading c l' rest (out ++ inner) := by
  rw [subject, run_bind_eq_ok] at h
  obtain ⟨k, s₁, hkind, h⟩ := h
  obtain ⟨rfl, rfl⟩ := kind_eq_ok.mp hkind
  have hname (h : (do return Node.iri (← iri) : Parser Node).run (reading c l stream out)
      = .ok node s') : ∃ (s : Subject) (rest : TokenStream) (l' : Labels)
      (inner : List Statement), stream = after s.tokens rest ∧
      (s.meaning c).run l = some ((node, inner), l') ∧ s' = reading c l' rest (out ++ inner) := by
    obtain ⟨i, s₂, hiri, hret⟩ := run_bind_eq_ok.mp h
    obtain ⟨name, rest, l', rfl, -, hmeaning, rfl⟩ := iri_eq_ok_iff.mp hiri
    cases hret
    refine ⟨.name name, rest, l', [], rfl,
      Meaning.run_bind_eq_some.mpr ⟨i, l', hmeaning, rfl⟩, ?_⟩
    rw [List.append_nil]
  split at h
  · exact hname h
  · exact hname h
  · exact hname h
  · obtain ⟨leaf, rest, l', rfl, -, hmeaning, rfl⟩ := blankNode_eq_ok_iff.mp h
    refine ⟨.label leaf, rest, l', [], rfl,
      Meaning.run_bind_eq_some.mpr ⟨node, l', hmeaning, rfl⟩, ?_⟩
    rw [List.append_nil]
  · obtain ⟨n, s₂, hdepth, h⟩ := run_bind_eq_ok.mp h
    cases hdepth
    obtain ⟨opening, its, closing, rest, l', cells, rfl, hits, rfl, rfl⟩ :=
      (soundAt _).collection _ _ _ _ _ _ h
    exact ⟨.list opening its closing, rest, l', _, rfl,
      Meaning.run_bind_eq_some.mpr ⟨cells, l', hits, rfl⟩, rfl⟩
  · exact absurd h unexpected_ne_ok

theorem triples_sound {u : Unit} (h : triples.run (reading c l stream out) = .ok u s') :
    ∃ (t : Triples) (rest : TokenStream) (l' : Labels) (stmts : List Statement),
      stream = after t.tokens rest ∧ (t.meaning c).run l = some (stmts, l') ∧
      s' = reading c l' rest (out ++ stmts) := by
  rw [triples, run_bind_eq_ok] at h
  obtain ⟨k, s₁, hkind, h⟩ := h
  obtain ⟨rfl, rfl⟩ := kind_eq_ok.mp hkind
  split_ifs at h with hbracket
  · obtain ⟨n, s₂, hdepth, h⟩ := run_bind_eq_ok.mp h
    cases hdepth
    obtain ⟨⟨node, empty⟩, s₃, hlist, h⟩ := run_bind_eq_ok.mp h
    obtain ⟨opening, closing, rest, l₁, hanonymous, hcases⟩ :=
      (soundAt _).propertyList _ _ _ _ _ _ _ hlist
    rcases hcases with ⟨rfl, rfl, rfl⟩ | ⟨rfl, inner, l₂, stmts, rfl, hinner, rfl⟩
    · obtain ⟨k, s₄, hkind', h⟩ := run_bind_eq_ok.mp h
      obtain ⟨rfl, rfl⟩ := kind_eq_ok.mp hkind'
      simp only [not_true_eq_false, false_and, if_false] at h
      obtain ⟨n, s₅, hdepth, h⟩ := run_bind_eq_ok.mp h
      cases hdepth
      obtain ⟨ps, rest', l₂, stmts, rfl, hps, rfl⟩ := (soundAt _).predicates _ _ _ _ _ _ _ h
      exact ⟨.brackets opening closing ps, rest', l₂, stmts, rfl,
        Meaning.run_bind_eq_some.mpr ⟨node, l₁, hanonymous, hps⟩, rfl⟩
    · obtain ⟨k, s₄, hkind', h⟩ := run_bind_eq_ok.mp h
      obtain ⟨rfl, rfl⟩ := kind_eq_ok.mp hkind'
      simp only [Bool.false_eq_true, not_false_eq_true, true_and] at h
      split_ifs at h with hperiod
      · cases h
        exact ⟨.properties opening inner closing, rest, l₂, stmts, rfl,
          Meaning.run_bind_eq_some.mpr ⟨node, l₁, hanonymous, hinner⟩, rfl⟩
      · obtain ⟨n, s₅, hdepth, h⟩ := run_bind_eq_ok.mp h
        cases hdepth
        obtain ⟨outer, rest', l₃, stmts', rfl, houter, rfl⟩ :=
          (soundAt _).predicates _ _ _ _ _ _ _ h
        refine ⟨.both opening inner closing outer, rest', l₃, stmts ++ stmts', ?_, ?_, ?_⟩
        · rw [Triples.tokens, after_cons, after_cons, after_append, after_append]
          rfl
        · refine Meaning.run_bind_eq_some.mpr ⟨node, l₁, hanonymous, ?_⟩
          refine Meaning.run_bind_eq_some.mpr ⟨stmts, l₂, hinner, ?_⟩
          exact Meaning.run_bind_eq_some.mpr ⟨stmts', l₃, houter, rfl⟩
        · rw [List.append_assoc]
  · obtain ⟨node, s₂, hsubject, h⟩ := run_bind_eq_ok.mp h
    obtain ⟨s, rest, l₁, inner, rfl, hs, rfl⟩ := subject_sound hsubject
    obtain ⟨n, s₃, hdepth, h⟩ := run_bind_eq_ok.mp h
    cases hdepth
    obtain ⟨ps, rest', l₂, stmts, rfl, hps, rfl⟩ := (soundAt _).predicates _ _ _ _ _ _ _ h
    refine ⟨.subject s ps, rest', l₂, inner ++ stmts, ?_, ?_, ?_⟩
    · rw [Triples.tokens, after_append]
    · refine Meaning.run_bind_eq_some.mpr ⟨(node, inner), l₁, hs, ?_⟩
      exact Meaning.run_bind_eq_some.mpr ⟨stmts, l₂, hps, rfl⟩
    · rw [List.append_assoc]

/-- The full stop of a directive is read unless the directive is a bare word. -/
theorem directiveEnd_sound {directive : Token} {u : Unit}
    (h : (directiveEnd directive).run (reading c l stream out) = .ok u s') :
    (directive.bare = true ∧ s' = reading c l stream out) ∨
      (directive.bare = false ∧ ∃ (stop : Leaf .period) (rest : TokenStream),
        stream = .token stop.1 rest ∧ rest.Sound ∧ s' = reading c l rest out) := by
  rw [directiveEnd] at h
  split_ifs at h with hbare
  · cases h
    exact .inl ⟨hbare, rfl⟩
  · obtain ⟨stop, s₁, hstop, hret⟩ := run_bind_eq_ok.mp h
    obtain ⟨rest, hstream, hk, hsound, rfl⟩ := (expect_eq_ok_iff (by decide)).mp hstop
    cases hret
    exact .inr ⟨Bool.eq_false_of_not_eq_true hbare, ⟨stop, hk⟩, rest, hstream, hsound, rfl⟩

theorem prefixDeclaration_sound {u : Unit}
    (h : prefixDeclaration.run (reading c l stream out) = .ok u s') :
    ∃ (d : Directive) (rest : TokenStream), stream = after d.tokens rest ∧ rest.Sound ∧
      s' = reading (d.effect c) l rest out := by
  rw [prefixDeclaration, run_bind_eq_ok] at h
  obtain ⟨word, s₁, hword, h⟩ := h
  obtain ⟨rest, rfl, hk, -, rfl⟩ := (expect_eq_ok_iff (by decide)).mp hword
  obtain ⟨name, s₂, hcur, h⟩ := run_bind_eq_ok.mp h
  obtain ⟨rfl, rfl⟩ := current_eq_ok.mp hcur
  split_ifs at h with hname
  · have hpname : rest.current.kind = .prefixedName := by
      rw [declaresPrefix, decide_eq_true_eq] at hname
      exact hname.1
    obtain ⟨_, s₃, hadv, h⟩ := run_bind_eq_ok.mp h
    obtain ⟨rest', hrest, -, rfl⟩ := advance_eq_ok (by rw [hpname]; decide) hadv
    obtain ⟨i, s₄, hiri, h⟩ := run_bind_eq_ok.mp h
    obtain ⟨r, rest'', rfl, hsound, rfl, rfl⟩ := iriReference_eq_ok_iff.mp hiri
    obtain ⟨_, s₅, hmodify, h⟩ := run_bind_eq_ok.mp h
    cases hmodify
    have hend : (directiveEnd word).run (reading { c with
        prefixes := (rest.current.text.dropLast, r.resolve c) :: c.prefixes } l rest'' out)
        = .ok u s' := h
    rcases directiveEnd_sound hend with ⟨hbare, rfl⟩ | ⟨hbare, stop, tail, rfl, htail, rfl⟩
    · refine ⟨.bareDeclare ⟨word, hk, hbare⟩ ⟨_, hname⟩ r, rest'', ?_, hsound, rfl⟩
      rw [Directive.tokens, after_cons, after_cons, ← hrest]
    · refine ⟨.declare ⟨word, hk, hbare⟩ ⟨_, hname⟩ r stop, tail, ?_, htail, rfl⟩
      rw [Directive.tokens, after_cons, after_cons, after_append, after_cons, after_nil, ← hrest]
  · obtain ⟨_, _, hrefused, _⟩ := run_bind_eq_ok.mp h
    exact absurd hrefused unexpected_ne_ok

theorem baseDeclaration_sound {u : Unit}
    (h : baseDeclaration.run (reading c l stream out) = .ok u s') :
    ∃ (d : Directive) (rest : TokenStream), stream = after d.tokens rest ∧ rest.Sound ∧
      s' = reading (d.effect c) l rest out := by
  rw [baseDeclaration, run_bind_eq_ok] at h
  obtain ⟨word, s₁, hword, h⟩ := h
  obtain ⟨rest, rfl, hk, -, rfl⟩ := (expect_eq_ok_iff (by decide)).mp hword
  obtain ⟨i, s₂, hiri, h⟩ := run_bind_eq_ok.mp h
  obtain ⟨r, rest', rfl, hsound, rfl, rfl⟩ := iriReference_eq_ok_iff.mp hiri
  obtain ⟨_, s₃, hmodify, h⟩ := run_bind_eq_ok.mp h
  cases hmodify
  have hend : (directiveEnd word).run (reading { c with base := r.resolve c } l rest' out)
      = .ok u s' := h
  rcases directiveEnd_sound hend with ⟨hbare, rfl⟩ | ⟨hbare, stop, tail, rfl, htail, rfl⟩
  · exact ⟨.bareBase ⟨word, hk, hbare⟩ r, rest', rfl, hsound, rfl⟩
  · refine ⟨.base ⟨word, hk, hbare⟩ r stop, tail, ?_, htail, rfl⟩
    rw [Directive.tokens, after_cons, after_append, after_cons, after_nil]

/-- **A block that was read is a directive or triples with their full stop.** -/
theorem statement_sound {stmts : List Statement}
    (h : statement.run (reading c l stream out) = .ok stmts s') :
    ∃ (b : Block) (rest : TokenStream) (l' : Labels) (out' : List Statement),
      stream = after b.tokens rest ∧ rest.Sound ∧ (b.meaning c).run l = some (stmts, l') ∧
      s' = reading (b.effect c) l' rest out' := by
  rw [statement, run_bind_eq_ok] at h
  obtain ⟨_, s₁, hclear, h⟩ := h
  cases hclear
  obtain ⟨k, s₂, hkind, h⟩ := run_bind_eq_ok.mp h
  obtain ⟨rfl, rfl⟩ : k = stream.current.kind ∧ s₂ = reading c l stream [] :=
    kind_eq_ok.mp hkind
  split at h
  · obtain ⟨_, s₃, hdirective, hret⟩ := run_bind_eq_ok.mp h
    obtain ⟨d, rest, rfl, hsound, rfl⟩ := prefixDeclaration_sound hdirective
    cases hret
    exact ⟨.directive d, rest, l, [], rfl, hsound, rfl, rfl⟩
  · obtain ⟨_, s₃, hdirective, hret⟩ := run_bind_eq_ok.mp h
    obtain ⟨d, rest, rfl, hsound, rfl⟩ := baseDeclaration_sound hdirective
    cases hret
    exact ⟨.directive d, rest, l, [], rfl, hsound, rfl, rfl⟩
  · obtain ⟨_, s₃, htriples, h⟩ := run_bind_eq_ok.mp h
    obtain ⟨t, rest, l', out', rfl, ht, rfl⟩ := triples_sound htriples
    obtain ⟨stop, s₄, hstop, h⟩ := run_bind_eq_ok.mp h
    obtain ⟨rest', rfl, hk, hsound, rfl⟩ := (expect_eq_ok_iff (by decide)).mp hstop
    obtain ⟨_, _, hget, hret⟩ := run_bind_eq_ok.mp h
    cases hget
    cases hret
    refine ⟨.triples t ⟨stop, hk⟩, rest', l', _, ?_, hsound, ht, rfl⟩
    rw [Block.tokens, after_append]
    rfl

/-! ### Documents -/

/-- Every block takes a token. -/
theorem Block.tokens_ne_nil (b : Block) : b.tokens ≠ [] := by
  cases b with
  | directive d => cases d <;> exact List.cons_ne_nil _ _
  | triples t stop => exact List.append_ne_nil_of_right_ne_nil _ (List.cons_ne_nil _ _)

/-- **The blocks that were read one after the other are a document**, if there were steps enough to
come to the end of the stream. -/
theorem deliver_sound {fuel : ℕ} {stmts : List Statement} {supply : Supply} (hsound : stream.Sound)
    (hfuel : stream.length < fuel)
    (h : (deliver fuel (reading c l stream out)).collect = (.ok stmts, supply)) :
    ∃ (d : Document) (rest : TokenStream) (scope : Scope), stream = after d.tokens rest ∧
      rest.Sound ∧ rest.current.kind = .eof ∧
      (d.meaning c).run l = some (stmts, ⟨scope, supply⟩) := by
  induction fuel generalizing c l stream out stmts with
  | zero => omega
  | succ fuel ih =>
    rw [deliver] at h
    split_ifs at h with heof
    · obtain ⟨rfl, rfl⟩ := Delivery.collect_finish_eq_ok.mp h
      exact ⟨[], stream, l.scope, rfl, hsound, heof, rfl⟩
    · split at h
      · next stmts' s₁ hrun =>
        obtain ⟨b, rest, l', out', rfl, hrest, hb, rfl⟩ := statement_sound hrun
        obtain ⟨later, hlater, rfl⟩ := Delivery.collect_block_eq_ok.mp h
        have hpos := List.length_pos_of_ne_nil b.tokens_ne_nil
        rw [length_after] at hfuel
        obtain ⟨d, rest', scope, rfl, hsound', heof', hd⟩ := ih hrest (by omega) hlater
        refine ⟨b :: d, rest', scope, ?_, hsound', heof', ?_⟩
        · rw [Document.tokens_cons, after_append]
        · refine Meaning.run_bind_eq_some.mpr ⟨stmts', l', hb, ?_⟩
          exact Meaning.run_bind_eq_some.mpr ⟨later, _, hd, rfl⟩
      · exact absurd h Delivery.collect_failed_ne_ok

end TripleStore.Turtle
