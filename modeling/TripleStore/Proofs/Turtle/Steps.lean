import TripleStore.Proofs.Turtle.Grammar

/-!
# The steps of the Turtle reader

A state of the reader is given by a context, the labels met so far, the tokens ahead and the triples
of the block at hand.  For the steps that read a single name, label or reference, ending well and
having a tree of the grammar ahead are the same.

* `reading`: the state of a reader.
* `iri_eq_ok_iff`, `blankNode_eq_ok_iff`, `verb_eq_ok_iff`: **what is read is what the grammar says
  is ahead.**
-/

namespace TripleStore.Turtle

open TokenStream

/-- The state of a reader in a context, with tokens ahead and triples behind. -/
def reading (c : Context) (l : Labels) (stream : TokenStream) (out : List Statement) : State :=
  ⟨stream, c.prefixes, c.base, l.scope, l.supply, out⟩

theorem stream_reading (c : Context) (l : Labels) (stream : TokenStream) (out : List Statement) :
    (reading c l stream out).stream = stream := rfl

variable {α : Type} {c : Context} {l l' : Labels} {stream rest : TokenStream}
  {out : List Statement} {s' : State} {t : Token}

/-! ### Single tokens -/

theorem unexpected_ne_ok {expected : Text} {s : State} {a : α} :
    (unexpected expected : Parser α).run s ≠ .ok a s' := by
  intro h
  rw [unexpected, run_bind_eq_ok] at h
  obtain ⟨_, _, _, h⟩ := h
  exact run_throw_ne_ok h

theorem current_run : current.run (reading c l stream out) =
    .ok stream.current (reading c l stream out) := rfl

theorem kind_run : kind.run (reading c l stream out) =
    .ok stream.current.kind (reading c l stream out) := rfl

theorem current_eq_ok :
    current.run (reading c l stream out) = .ok t s' ↔
      t = stream.current ∧ s' = reading c l stream out := by
  rw [current_run, EStateM.Result.ok.injEq, eq_comm, eq_comm (a := s')]

theorem kind_eq_ok {k : Kind} :
    kind.run (reading c l stream out) = .ok k s' ↔
      k = stream.current.kind ∧ s' = reading c l stream out := by
  rw [kind_run, EStateM.Result.ok.injEq, eq_comm, eq_comm (a := s')]

theorem advance_run (h : rest.Sound) :
    advance.run (reading c l (.token t rest) out) = .ok () (reading c l rest out) := by
  rw [advance, run_bind_eq_ok]
  refine ⟨_, _, rfl, ?_⟩
  have htail : (reading c l (.token t rest) out).stream.tail = .ok rest := h
  simp only [htail]
  rfl

/-- Giving up a token that is not the end. -/
theorem advance_eq_ok (hk : stream.current.kind ≠ .eof) {u : Unit}
    (h : advance.run (reading c l stream out) = .ok u s') :
    ∃ rest, stream = .token stream.current rest ∧ rest.Sound ∧ s' = reading c l rest out := by
  obtain ⟨rest, hstream⟩ := eq_token_of_current hk
  refine ⟨rest, hstream, ?_⟩
  rw [hstream, advance, run_bind_eq_ok] at h
  obtain ⟨_, _, hget, h⟩ := h
  cases hget
  split at h
  · next r htail =>
    obtain ⟨hsound, rfl⟩ := sound_eq_ok.mp htail
    cases h
    exact ⟨hsound, rfl⟩
  · exact absurd h run_throw_ne_ok

/-- Reading a token of a kind is having one ahead. -/
theorem expect_eq_ok_iff {k : Kind} (hk : k ≠ .eof) :
    (expect k).run (reading c l stream out) = .ok t s' ↔
      ∃ rest, stream = .token t rest ∧ t.kind = k ∧ rest.Sound ∧ s' = reading c l rest out := by
  rw [expect, run_bind_eq_ok]
  constructor
  · intro h
    obtain ⟨t', s₁, hcur, h⟩ := h
    obtain ⟨rfl, rfl⟩ := current_eq_ok.mp hcur
    split_ifs at h with hkind
    · obtain ⟨_, s₂, hadv, hret⟩ := run_bind_eq_ok.mp h
      obtain ⟨rest, hstream, hsound, rfl⟩ := advance_eq_ok (by rw [hkind]; exact hk) hadv
      cases hret
      exact ⟨rest, hstream, hkind, hsound, rfl⟩
    · exact absurd h unexpected_ne_ok
  · intro h
    obtain ⟨rest, rfl, hkind, hsound, rfl⟩ := h
    refine ⟨t, _, current_run, ?_⟩
    rw [if_pos hkind]
    exact run_bind_eq_ok.mpr ⟨(), _, advance_run hsound, rfl⟩

/-- A leaf of the grammar is read where it is ahead. -/
theorem expect_run {k : Kind} (hk : k ≠ .eof) (leaf : Leaf k) (h : rest.Sound) :
    (expect k).run (reading c l (.token leaf.1 rest) out) = .ok leaf.1 (reading c l rest out) :=
  (expect_eq_ok_iff hk).mpr ⟨rest, rfl, leaf.2, h, rfl⟩

theorem emit_run {subject : Node} {predicate : Iri} {object : Term} :
    (emit subject predicate object).run (reading c l stream out) =
      .ok () (reading c l stream (out ++ [triple subject predicate object])) := rfl

theorem emit_eq_ok {subject : Node} {predicate : Iri} {object : Term} {u : Unit} :
    (emit subject predicate object).run (reading c l stream out) = .ok u s' ↔
      s' = reading c l stream (out ++ [triple subject predicate object]) := by
  rw [emit_run, EStateM.Result.ok.injEq, eq_comm (a := s')]
  exact and_iff_right rfl

/-- A fresh node is drawn as the grammar draws it. -/
theorem anonymous_eq_ok {n : Node} :
    anonymous.run (reading c l stream out) = .ok n s' ↔
      ∃ l', Meaning.anonymous.run l = some (n, l') ∧ s' = reading c l' stream out := by
  have hrun : anonymous.run (reading c l stream out) =
      .ok (.blank l.supply.drawAnonymous.1)
        (reading c ⟨l.scope, l.supply.drawAnonymous.2⟩ stream out) := rfl
  rw [hrun, EStateM.Result.ok.injEq]
  constructor
  · intro h
    exact ⟨_, Meaning.run_anonymous_eq_some.mpr ⟨h.1.symm, rfl⟩, h.2.symm⟩
  · intro h
    obtain ⟨l', hm, hs⟩ := h
    obtain ⟨rfl, rfl⟩ := Meaning.run_anonymous_eq_some.mp hm
    exact ⟨rfl, hs.symm⟩

/-! ### Names -/

theorem Reference.exists_token (r : Reference) :
    ∃ t, r.tokens = [t] ∧ (t.kind = .iriRef ∨ t.kind = .relativeIri) := by
  cases r with
  | absolute t => exact ⟨t.1, rfl, .inl t.2⟩
  | relative t => exact ⟨t.1, rfl, .inr t.2⟩

theorem Name.exists_token (n : Name) :
    ∃ t, n.tokens = [t] ∧
      (t.kind = .iriRef ∨ t.kind = .relativeIri ∨ t.kind = .prefixedName) := by
  cases n with
  | reference r =>
    obtain ⟨t, ht, hk⟩ := r.exists_token
    exact ⟨t, ht, hk.imp_right .inl⟩
  | prefixed t => exact ⟨t.1, rfl, .inr (.inr t.2)⟩

theorem iriReference_eq_ok_iff {i : Iri} :
    iriReference.run (reading c l stream out) = .ok i s' ↔
      ∃ (r : Reference) (rest : TokenStream), stream = after r.tokens rest ∧ rest.Sound ∧
        i = r.resolve c ∧ s' = reading c l rest out := by
  rw [iriReference, run_bind_eq_ok]
  constructor
  · intro h
    obtain ⟨t, s₁, hcur, h⟩ := h
    obtain ⟨rfl, rfl⟩ := current_eq_ok.mp hcur
    split at h
    · next hk =>
      obtain ⟨_, s₂, hadv, hret⟩ := run_bind_eq_ok.mp h
      obtain ⟨rest, hstream, hsound, rfl⟩ := advance_eq_ok (by rw [hk]; decide) hadv
      cases hret
      exact ⟨.absolute ⟨_, hk⟩, rest, hstream, hsound, rfl, rfl⟩
    · next hk =>
      obtain ⟨_, s₂, hadv, hret⟩ := run_bind_eq_ok.mp h
      obtain ⟨rest, hstream, hsound, rfl⟩ := advance_eq_ok (by rw [hk]; decide) hadv
      cases hret
      exact ⟨.relative ⟨_, hk⟩, rest, hstream, hsound, rfl, rfl⟩
    · exact absurd h unexpected_ne_ok
  · intro h
    obtain ⟨r, rest, rfl, hsound, rfl, rfl⟩ := h
    refine ⟨_, _, current_run, ?_⟩
    cases r with
    | absolute t =>
      simp only [Reference.tokens, after_cons, TokenStream.current, t.2]
      exact run_bind_eq_ok.mpr ⟨(), _, advance_run hsound, rfl⟩
    | relative t =>
      simp only [Reference.tokens, after_cons, TokenStream.current, t.2]
      exact run_bind_eq_ok.mpr ⟨(), _, advance_run hsound, rfl⟩

theorem checkIri_eq_ok_iff {i j : Iri} {s : State} :
    (checkIri t i).run s = .ok j s' ↔ isIdentifier i ∧ j = i ∧ s' = s := by
  rw [checkIri]
  cases hv : (Term.iri i).violation? with
  | none =>
    show (EStateM.Result.ok i s : EStateM.Result ReadError State Iri) = _ ↔ _
    rw [EStateM.Result.ok.injEq, eq_comm, eq_comm (a := s)]
    exact (and_iff_right (Term.violation?_iri.mp hv)).symm
  | some v =>
    constructor
    · intro h
      exact absurd h run_throw_ne_ok
    · intro h
      rw [Term.violation?_iri.mpr h.1] at hv
      cases hv

/-- A prefixed name is expanded as the grammar does it. -/
theorem expand_eq_ok_iff {i : Iri} :
    (expand t).run (reading c l stream out) = .ok i s' ↔
      (∃ space, c.prefixes.lookup ((Text.cut Ascii.colon t.text).getD (t.text, [])).1 = some space ∧
        i = space ++ ((Text.cut Ascii.colon t.text).getD (t.text, [])).2) ∧
      s' = reading c l stream out := by
  have hget : (get : Parser State).run (reading c l stream out)
      = .ok (reading c l stream out) (reading c l stream out) := rfl
  rw [expand]
  simp only
  rw [run_bind_of_ok hget]
  simp only [reading]
  cases hspace : c.prefixes.lookup ((Text.cut Ascii.colon t.text).getD (t.text, [])).1 with
  | none =>
    constructor
    · intro h
      exact absurd h run_throw_ne_ok
    · intro h
      obtain ⟨⟨_, hsome, _⟩, _⟩ := h
      cases hsome
  | some space =>
    rw [EStateM.run_pure, EStateM.Result.ok.injEq]
    constructor
    · intro h
      exact ⟨⟨space, rfl, h.1.symm⟩, h.2.symm⟩
    · intro h
      obtain ⟨⟨_, hsome, hi⟩, hs⟩ := h
      cases hsome
      exact ⟨hi.symm, hs.symm⟩

theorem Name.meaning_prefixed_eq_some {t : Leaf .prefixedName} {i : Iri} :
    ((Name.prefixed t).meaning c).run l = some (i, l') ↔
      (∃ space, c.prefixes.lookup ((Text.cut Ascii.colon t.1.text).getD (t.1.text, [])).1
          = some space ∧
        i = space ++ ((Text.cut Ascii.colon t.1.text).getD (t.1.text, [])).2) ∧
      isIdentifier i ∧ l' = l := by
  rw [Name.meaning]
  simp only
  cases hspace : c.prefixes.lookup ((Text.cut Ascii.colon t.1.text).getD (t.1.text, [])).1 with
  | none =>
    constructor
    · intro h
      cases h
    · intro h
      obtain ⟨⟨_, hsome, _⟩, _⟩ := h
      cases hsome
  | some space =>
    simp only [Meaning.run_valid_eq_some, Option.some.injEq, exists_eq_left']
    constructor
    · intro h
      obtain ⟨hid, rfl, hl⟩ := h
      exact ⟨rfl, hid, hl⟩
    · intro h
      obtain ⟨rfl, hid, hl⟩ := h
      exact ⟨hid, rfl, hl⟩

/-- **An IRI is read where the grammar has one ahead.** -/
theorem iri_eq_ok_iff {i : Iri} :
    iri.run (reading c l stream out) = .ok i s' ↔
      ∃ (n : Name) (rest : TokenStream) (l' : Labels), stream = after n.tokens rest ∧ rest.Sound ∧
        (n.meaning c).run l = some (i, l') ∧ s' = reading c l' rest out := by
  rw [iri, run_bind_eq_ok]
  constructor
  · intro h
    obtain ⟨t, s₁, hcur, h⟩ := h
    obtain ⟨rfl, rfl⟩ := current_eq_ok.mp hcur
    split at h
    · obtain ⟨j, s₂, href, hcheck⟩ := run_bind_eq_ok.mp h
      obtain ⟨r, rest, hstream, hsound, rfl, rfl⟩ := iriReference_eq_ok_iff.mp href
      obtain ⟨hid, rfl, rfl⟩ := checkIri_eq_ok_iff.mp hcheck
      exact ⟨.reference r, rest, l, hstream, hsound,
        Meaning.run_valid_eq_some.mpr ⟨hid, rfl, rfl⟩, rfl⟩
    · obtain ⟨j, s₂, href, hcheck⟩ := run_bind_eq_ok.mp h
      obtain ⟨r, rest, hstream, hsound, rfl, rfl⟩ := iriReference_eq_ok_iff.mp href
      obtain ⟨hid, rfl, rfl⟩ := checkIri_eq_ok_iff.mp hcheck
      exact ⟨.reference r, rest, l, hstream, hsound,
        Meaning.run_valid_eq_some.mpr ⟨hid, rfl, rfl⟩, rfl⟩
    · next hk =>
      obtain ⟨j, s₂, hexpand, h⟩ := run_bind_eq_ok.mp h
      obtain ⟨hj, rfl⟩ := expand_eq_ok_iff.mp hexpand
      obtain ⟨_, s₃, hadv, hcheck⟩ := run_bind_eq_ok.mp h
      obtain ⟨rest, hstream, hsound, rfl⟩ := advance_eq_ok (by rw [hk]; decide) hadv
      obtain ⟨hid, rfl, rfl⟩ := checkIri_eq_ok_iff.mp hcheck
      exact ⟨.prefixed ⟨_, hk⟩, rest, l, hstream, hsound,
        Name.meaning_prefixed_eq_some.mpr ⟨hj, hid, rfl⟩, rfl⟩
    · exact absurd h unexpected_ne_ok
  · intro h
    obtain ⟨n, rest, l', rfl, hsound, hm, rfl⟩ := h
    refine ⟨_, _, current_run, ?_⟩
    cases n with
    | reference r =>
      obtain ⟨hid, rfl, rfl⟩ := Meaning.run_valid_eq_some.mp hm
      have href : iriReference.run (reading c l' (after r.tokens rest) out) =
          .ok (r.resolve c) (reading c l' rest out) :=
        iriReference_eq_ok_iff.mpr ⟨r, rest, rfl, hsound, rfl, rfl⟩
      obtain ⟨t, ht, hk⟩ := r.exists_token
      rw [Name.tokens]
      rw [ht, after_cons] at href ⊢
      rcases hk with hk | hk
      all_goals
        simp only [TokenStream.current, hk]
        exact run_bind_eq_ok.mpr ⟨_, _, href, checkIri_eq_ok_iff.mpr ⟨hid, rfl, rfl⟩⟩
    | prefixed t =>
      obtain ⟨hi, hid, rfl⟩ := Name.meaning_prefixed_eq_some.mp hm
      simp only [Name.tokens, after_cons, TokenStream.current, t.2]
      refine run_bind_eq_ok.mpr ⟨i, _, expand_eq_ok_iff.mpr ⟨hi, rfl⟩, ?_⟩
      exact run_bind_eq_ok.mpr ⟨(), _, advance_run hsound,
        checkIri_eq_ok_iff.mpr ⟨hid, rfl, rfl⟩⟩

/-- **A label is read where there is a valid one ahead.** -/
theorem blankNode_eq_ok_iff {n : Node} :
    blankNode.run (reading c l stream out) = .ok n s' ↔
      ∃ (t : Leaf .blankNodeLabel) (rest : TokenStream) (l' : Labels), stream = .token t.1 rest ∧
        rest.Sound ∧ (Meaning.labelled (t.1.text.drop 2)).run l = some (n, l') ∧
        s' = reading c l' rest out := by
  rw [blankNode, run_bind_eq_ok]
  constructor
  · intro h
    obtain ⟨t, s₁, hexp, h⟩ := h
    obtain ⟨rest, hstream, hk, hsound, rfl⟩ := (expect_eq_ok_iff (by decide)).mp hexp
    simp only at h
    split_ifs at h
    · obtain ⟨_, _, h, _⟩ := run_bind_eq_ok.mp h
      exact absurd h run_throw_ne_ok
    · split at h
      · exact absurd h run_throw_ne_ok
      · next hv =>
        cases h
        exact ⟨⟨t, hk⟩, rest, _, hstream, hsound,
          Meaning.run_labelled_eq_some.mpr ⟨Term.violation?_blank.mp hv, rfl, rfl⟩, rfl⟩
  · intro h
    obtain ⟨t, rest, l', rfl, hsound, hm, rfl⟩ := h
    obtain ⟨hid, rfl, rfl⟩ := Meaning.run_labelled_eq_some.mp hm
    have hne : (t.1.text.drop 2).isEmpty = false := by
      cases hlabel : t.1.text.drop 2 with
      | nil =>
        rw [hlabel] at hid
        cases hid
      | cons b label => rfl
    refine ⟨t.1, _, expect_run (by decide) t hsound, ?_⟩
    simp only [hne, Bool.false_eq_true, if_false, Term.violation?_blank.mpr hid]
    rfl

/-- **A predicate is read where the grammar has a verb ahead.** -/
theorem verb_eq_ok_iff {i : Iri} :
    verb.run (reading c l stream out) = .ok i s' ↔
      ∃ (v : Verb) (rest : TokenStream) (l' : Labels), stream = after v.tokens rest ∧ rest.Sound ∧
        (v.meaning c).run l = some (i, l') ∧ s' = reading c l' rest out := by
  rw [verb, run_bind_eq_ok]
  constructor
  · intro h
    obtain ⟨k, s₁, hkind, h⟩ := h
    obtain ⟨rfl, rfl⟩ := kind_eq_ok.mp hkind
    split at h
    · next hk =>
      obtain ⟨_, s₂, hadv, hret⟩ := run_bind_eq_ok.mp h
      obtain ⟨rest, hstream, hsound, rfl⟩ := advance_eq_ok (by rw [hk]; decide) hadv
      cases hret
      exact ⟨.a ⟨_, hk⟩, rest, l, hstream, hsound, rfl, rfl⟩
    all_goals first
      | exact absurd h unexpected_ne_ok
      | obtain ⟨n, rest, l', hn⟩ := iri_eq_ok_iff.mp h
        exact ⟨.name n, rest, l', hn⟩
  · intro h
    obtain ⟨v, rest, l', rfl, hsound, hm, rfl⟩ := h
    refine ⟨_, _, kind_run, ?_⟩
    cases v with
    | a t =>
      obtain ⟨rfl, rfl⟩ := Meaning.run_pure_eq_some.mp hm
      simp only [Verb.tokens, after_cons, TokenStream.current, t.2]
      exact run_bind_eq_ok.mpr ⟨(), _, advance_run hsound, rfl⟩
    | name n =>
      have hiri : iri.run (reading c l (after n.tokens rest) out) = .ok i (reading c l' rest out) :=
        iri_eq_ok_iff.mpr ⟨n, rest, l', rfl, hsound, hm, rfl⟩
      obtain ⟨t, ht, hk⟩ := n.exists_token
      rw [Verb.tokens]
      rw [ht, after_cons] at hiri ⊢
      rcases hk with hk | hk | hk
      all_goals
        simp only [TokenStream.current, hk]
        exact hiri

end TripleStore.Turtle
