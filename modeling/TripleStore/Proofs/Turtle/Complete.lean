import TripleStore.Proofs.Turtle.Steps

/-!
# What is in the grammar is read

A tree that means something is read, and its meaning is given, wherever its tokens are ahead of the
reader and what follows them cannot be taken for a part of the tree.  With `n` tokens ahead, `4 * n`
steps are enough for an object.

* `EndsObject`, `EndsObjects`, `EndsProperties`: what may follow.
* `Object.complete`, `Objects.complete`, `Properties.complete`, `Items.complete`: **the trees of
  nested structures are read.**
* `Block.complete`: a block is read.
* `deliver_complete`: a document is read block by block.
-/

namespace TripleStore.Turtle

open TokenStream

variable {c : Context} {l l₁ l' : Labels} {stream rest : TokenStream} {out : List Statement}
  {n : ℕ}

/-! ### What may follow -/

/-- A kind that cannot go on an object. -/
def EndsObject (k : Kind) : Prop := k ≠ .langTag ∧ k ≠ .typeTag

/-- A kind that cannot go on a list of objects. -/
def EndsObjects (k : Kind) : Prop := EndsObject k ∧ k ≠ .comma

/-- A kind that ends properties. -/
def EndsProperties (k : Kind) : Prop := k = .period ∨ k = .closeBracket

/-- A kind that a name or a verb begins with. -/
def BeginsVerb (k : Kind) : Prop :=
  k = .a ∨ k = .iriRef ∨ k = .relativeIri ∨ k = .prefixedName

theorem EndsProperties.ne_semicolon {k : Kind} (h : EndsProperties k) : k ≠ .semicolon := by
  rcases h with rfl | rfl <;> decide

theorem EndsProperties.endsObjects {k : Kind} (h : EndsProperties k) : EndsObjects k := by
  rcases h with rfl | rfl
  all_goals
    refine ⟨⟨?_, ?_⟩, ?_⟩
    all_goals decide

theorem endsObjects_semicolon : EndsObjects .semicolon := by
  refine ⟨⟨?_, ?_⟩, ?_⟩
  all_goals decide

theorem endsObjects_semicolons (semicolons : List (Leaf .semicolon))
    (h : EndsObjects rest.current.kind) :
    EndsObjects (after (semicolons.map (·.1)) rest).current.kind := by
  cases semicolons with
  | nil => exact h
  | cons semicolon semicolons =>
    rw [List.map_cons, after_cons, current_token, semicolon.2]
    exact endsObjects_semicolon

theorem BeginsVerb.not_endsProperties {k : Kind} (h : BeginsVerb k) : ¬ EndsProperties k := by
  rcases h with rfl | rfl | rfl | rfl
  all_goals
    rw [EndsProperties]
    decide

theorem BeginsVerb.ne_semicolon {k : Kind} (h : BeginsVerb k) : k ≠ .semicolon := by
  rcases h with rfl | rfl | rfl | rfl <;> decide

theorem Verb.exists_token (v : Verb) : ∃ t, v.tokens = [t] ∧ BeginsVerb t.kind := by
  cases v with
  | a t => exact ⟨t.1, rfl, .inl t.2⟩
  | name n =>
    obtain ⟨t, ht, hk⟩ := n.exists_token
    exact ⟨t, ht, .inr hk⟩

theorem Properties.exists_token (ps : Properties) :
    ∃ t ts, ps.tokens = t :: ts ∧ BeginsVerb t.kind := by
  cases ps with
  | last v os semicolons =>
    obtain ⟨t, ht, hk⟩ := v.exists_token
    rw [Properties.tokens, ht]
    exact ⟨t, _, rfl, hk⟩
  | more v os semicolon semicolons rest =>
    obtain ⟨t, ht, hk⟩ := v.exists_token
    rw [Properties.tokens, ht]
    exact ⟨t, _, rfl, hk⟩

theorem Properties.beginsVerb (ps : Properties) :
    BeginsVerb (after ps.tokens rest).current.kind := by
  obtain ⟨t, ts, ht, hk⟩ := ps.exists_token
  rw [ht]
  exact hk

theorem Scalar.exists_token (s : Scalar) :
    ∃ t, s.tokens = [t] ∧ EndsObject t.kind ∧ t.kind ≠ .closeParen := by
  cases s with
  | _ t =>
    refine ⟨t.1, rfl, ?_⟩
    rw [t.2, EndsObject]
    decide

/-- An object can follow another one, and is not the end of a list. -/
theorem Object.exists_token (o : Object) :
    ∃ t ts, o.tokens = t :: ts ∧ EndsObject t.kind ∧ t.kind ≠ .closeParen := by
  cases o with
  | name n =>
    obtain ⟨t, ht, hk⟩ := n.exists_token
    refine ⟨t, [], ht, ?_⟩
    rcases hk with hk | hk | hk
    all_goals
      rw [hk, EndsObject]
      decide
  | string t suffix =>
    refine ⟨t.1, suffix.tokens, by rw [Object.tokens], ?_⟩
    rcases t.2 with hk | hk
    all_goals
      rw [hk, EndsObject]
      decide
  | scalar s =>
    obtain ⟨t, ht, hk⟩ := s.exists_token
    exact ⟨t, [], by rw [Object.tokens, ht], hk⟩
  | label t =>
    refine ⟨t.1, [], by rw [Object.tokens], ?_⟩
    rw [t.2, EndsObject]
    decide
  | brackets opening closing =>
    refine ⟨opening.1, _, by rw [Object.tokens], ?_⟩
    rw [opening.2, EndsObject]
    decide
  | properties opening ps closing =>
    refine ⟨opening.1, _, by rw [Object.tokens], ?_⟩
    rw [opening.2, EndsObject]
    decide
  | list opening its closing =>
    refine ⟨opening.1, _, by rw [Object.tokens], ?_⟩
    rw [opening.2, EndsObject]
    decide

theorem Object.length_tokens_pos (o : Object) : 0 < o.tokens.length := by
  obtain ⟨t, ts, ht, -⟩ := o.exists_token
  rw [ht]
  exact Nat.succ_pos _

theorem Object.ne_closeParen (o : Object) : (after o.tokens rest).current.kind ≠ .closeParen := by
  obtain ⟨t, ts, ht, -, hk⟩ := o.exists_token
  rw [ht]
  exact hk

theorem Items.endsObject (its : Items) (closing : Leaf .closeParen) (rest : TokenStream) :
    EndsObject (after its.tokens (.token closing.1 rest)).current.kind := by
  cases its with
  | nil =>
    rw [Items.tokens, after_nil, TokenStream.current, closing.2, EndsObject]
    decide
  | cons o its =>
    obtain ⟨t, ts, ht, hk, -⟩ := o.exists_token
    rw [Items.tokens, ht]
    exact hk

theorem dropSemicolons_after (semicolons : List (Leaf .semicolon)) (hrest : rest.Sound)
    (hk : rest.current.kind ≠ .semicolon) :
    (after (semicolons.map (·.1)) rest).dropSemicolons = .ok rest := by
  induction semicolons with
  | nil =>
    cases rest with
    | done p => rfl
    | fault e => cases hrest
    | token t tail => exact if_neg hk
  | cons semicolon semicolons ih =>
    rw [List.map_cons, after_cons, dropSemicolons, if_pos semicolon.2, ih]

/-! ### Literals -/

theorem literal_complete {v : StringLeaf} {suffix : Suffix} {t : Term}
    (hm : (suffix.meaning c v.1.text).run l = some (t, l')) (hrest : rest.Sound)
    (hend : EndsObject rest.current.kind) :
    literal.run (reading c l (after (v.1 :: suffix.tokens) rest) out)
      = .ok t (reading c l' rest out) := by
  rw [after_cons, literal, run_bind_eq_ok]
  refine ⟨v.1, _, current_run, ?_⟩
  refine run_bind_eq_ok.mpr ⟨(), _, advance_run (sound_after hrest suffix.tokens), ?_⟩
  refine run_bind_eq_ok.mpr ⟨_, _, current_run, ?_⟩
  cases suffix with
  | none =>
    obtain ⟨rfl, rfl⟩ := Meaning.run_pure_eq_some.mp hm
    rw [Suffix.tokens, after_nil]
    split
    · next hk => exact absurd hk hend.1
    · next hk => exact absurd hk hend.2
    · rfl
  | tag tag =>
    obtain ⟨hv, rfl, rfl⟩ := Meaning.run_tagged_eq_some.mp hm
    simp only [Suffix.tokens, after_cons, after_nil, TokenStream.current, tag.2]
    refine run_bind_eq_ok.mpr ⟨(), _, advance_run hrest, ?_⟩
    simp only [Term.violation?_lang.mpr hv]
    rfl
  | datatype mark name =>
    obtain ⟨datatype, l₁, hname, hret⟩ := Meaning.run_bind_eq_some.mp hm
    obtain ⟨rfl, rfl⟩ := Meaning.run_pure_eq_some.mp hret
    simp only [Suffix.tokens, after_cons, TokenStream.current, mark.2]
    refine run_bind_eq_ok.mpr ⟨(), _, advance_run (sound_after hrest name.tokens), ?_⟩
    exact run_bind_eq_ok.mpr
      ⟨datatype, _, iri_eq_ok_iff.mpr ⟨name, rest, l₁, rfl, hrest, hname, rfl⟩, rfl⟩

theorem literalToken_complete {make : Text → Term} {t : Token} (hrest : rest.Sound) :
    (literalToken make).run (reading c l (.token t rest) out)
      = .ok (make t.text) (reading c l rest out) := by
  rw [literalToken, run_bind_eq_ok]
  refine ⟨t, _, current_run, ?_⟩
  exact run_bind_eq_ok.mpr ⟨(), _, advance_run hrest, rfl⟩

/-! ### Nested structures -/

theorem propertyList_empty_run {opening : Leaf .openBracket} {closing : Leaf .closeBracket}
    {node : Node} (hm : Meaning.anonymous.run l = some (node, l')) (hrest : rest.Sound) :
    (propertyList (n + 1)).run (reading c l (after [opening.1, closing.1] rest) out)
      = .ok (node, true) (reading c l' rest out) := by
  rw [after_cons, after_cons, after_nil, propertyList, run_bind_eq_ok]
  refine ⟨opening.1, _, expect_run (by decide) opening (sound_token _ _), ?_⟩
  refine run_bind_eq_ok.mpr ⟨node, _, anonymous_eq_ok.mpr ⟨l', hm, rfl⟩, ?_⟩
  refine run_bind_eq_ok.mpr ⟨_, _, kind_run, ?_⟩
  simp only [TokenStream.current, closing.2, not_true_eq_false, if_false, decide_true]
  exact run_bind_eq_ok.mpr ⟨closing.1, _, expect_run (by decide) closing hrest, rfl⟩

/-- Properties in brackets are read if the properties are. -/
theorem propertyList_filled_run {opening : Leaf .openBracket} {closing : Leaf .closeBracket}
    {ps : Properties} {node : Node} {stmts : List Statement}
    (hm : Meaning.anonymous.run l = some (node, l₁)) (hrest : rest.Sound)
    (hps : (predicates node n).run (reading c l₁ (after ps.tokens (.token closing.1 rest)) out)
      = .ok () (reading c l' (.token closing.1 rest) (out ++ stmts))) :
    (propertyList (n + 1)).run
        (reading c l (after (opening.1 :: (ps.tokens ++ [closing.1])) rest) out)
      = .ok (node, false) (reading c l' rest (out ++ stmts)) := by
  obtain ⟨t, ts, ht, hverb⟩ := ps.exists_token
  have hopen : (after ps.tokens (.token closing.1 rest)).current.kind ≠ .closeBracket := by
    rw [ht, after_cons]
    exact fun hk => hverb.not_endsProperties (.inr hk)
  rw [after_cons, after_append, after_cons, after_nil, propertyList, run_bind_eq_ok]
  refine ⟨opening.1, _,
    expect_run (by decide) opening (sound_after (sound_token _ _) ps.tokens), ?_⟩
  refine run_bind_eq_ok.mpr ⟨node, _, anonymous_eq_ok.mpr ⟨l₁, hm, rfl⟩, ?_⟩
  refine run_bind_eq_ok.mpr ⟨_, _, kind_run, ?_⟩
  simp only [hopen, not_false_eq_true, if_true, decide_false]
  refine run_bind_eq_ok.mpr ⟨(), _, hps, ?_⟩
  exact run_bind_eq_ok.mpr ⟨closing.1, _, expect_run (by decide) closing hrest, rfl⟩

/-! Objects that hold no others -/

theorem object_name_run {name : Name} {i : Iri} (hm : (name.meaning c).run l = some (i, l'))
    (hrest : rest.Sound) :
    (object (n + 1)).run (reading c l (after name.tokens rest) out)
      = .ok (.iri i) (reading c l' rest out) := by
  have hiri : iri.run (reading c l (after name.tokens rest) out) = .ok i (reading c l' rest out) :=
    iri_eq_ok_iff.mpr ⟨name, rest, l', rfl, hrest, hm, rfl⟩
  obtain ⟨t, ht, hk⟩ := name.exists_token
  rw [ht, after_cons] at hiri ⊢
  rw [object, run_bind_eq_ok]
  refine ⟨_, _, kind_run, ?_⟩
  rcases hk with hk | hk | hk
  all_goals
    simp only [TokenStream.current, hk]
    exact run_bind_eq_ok.mpr ⟨i, _, hiri, rfl⟩

theorem object_label_run {t : Leaf .blankNodeLabel} {node : Node}
    (hm : (Meaning.labelled (t.1.text.drop 2)).run l = some (node, l')) (hrest : rest.Sound) :
    (object (n + 1)).run (reading c l (.token t.1 rest) out)
      = .ok node.toTerm (reading c l' rest out) := by
  rw [object, run_bind_eq_ok]
  refine ⟨_, _, kind_run, ?_⟩
  simp only [TokenStream.current, t.2]
  exact run_bind_eq_ok.mpr
    ⟨node, _, blankNode_eq_ok_iff.mpr ⟨t, rest, l', rfl, hrest, hm, rfl⟩, rfl⟩

theorem object_string_run {v : StringLeaf} {suffix : Suffix} {t : Term}
    (hm : (suffix.meaning c v.1.text).run l = some (t, l')) (hrest : rest.Sound)
    (hend : EndsObject rest.current.kind) :
    (object (n + 1)).run (reading c l (after (v.1 :: suffix.tokens) rest) out)
      = .ok t (reading c l' rest out) := by
  have hliteral : literal.run (reading c l (after (v.1 :: suffix.tokens) rest) out)
      = .ok t (reading c l' rest out) := literal_complete hm hrest hend
  rw [after_cons] at hliteral ⊢
  rw [object, run_bind_eq_ok]
  refine ⟨_, _, kind_run, ?_⟩
  rcases v.2 with hk | hk
  all_goals
    simp only [TokenStream.current, hk]
    exact hliteral

theorem object_scalar_run {s : Scalar} (hrest : rest.Sound) :
    (object (n + 1)).run (reading c l (after s.tokens rest) out)
      = .ok s.term (reading c l rest out) := by
  cases s with
  | _ t =>
    rw [Scalar.tokens, after_cons, after_nil, object, run_bind_eq_ok]
    refine ⟨_, _, kind_run, ?_⟩
    simp only [TokenStream.current, t.2]
    exact literalToken_complete hrest

/-- An object in brackets is read as what stands in the brackets is. -/
theorem object_propertyList_run {opening : Leaf .openBracket} {node : Node} {empty : Bool}
    {s' : State} (h : (propertyList n).run (reading c l (.token opening.1 rest) out)
      = .ok (node, empty) s') :
    (object (n + 1)).run (reading c l (.token opening.1 rest) out) = .ok node.toTerm s' := by
  rw [object, run_bind_eq_ok]
  refine ⟨_, _, kind_run, ?_⟩
  simp only [TokenStream.current, opening.2]
  exact run_bind_eq_ok.mpr ⟨(node, empty), s', h, rfl⟩

theorem object_collection_run {opening : Leaf .openParen} {node : Node} {s' : State}
    (h : (collection n).run (reading c l (.token opening.1 rest) out) = .ok node s') :
    (object (n + 1)).run (reading c l (.token opening.1 rest) out) = .ok node.toTerm s' := by
  rw [object, run_bind_eq_ok]
  refine ⟨_, _, kind_run, ?_⟩
  simp only [TokenStream.current, opening.2]
  exact run_bind_eq_ok.mpr ⟨node, s', h, rfl⟩

/-! Properties, one predicate at a time -/

theorem Verb.complete (v : Verb) {i : Iri} (hm : (v.meaning c).run l = some (i, l'))
    (hrest : rest.Sound) :
    verb.run (reading c l (after v.tokens rest) out) = .ok i (reading c l' rest out) :=
  verb_eq_ok_iff.mpr ⟨v, rest, l', rfl, hrest, hm, rfl⟩

section Predicates

variable {subject : Node} {predicate : Iri} {s s₁ s' : State}
  {semicolons : List (Leaf .semicolon)}

/-- Behind objects and semicolons, the reader looks whether another predicate follows. -/
theorem predicates_semicolons_run {semicolon : Leaf .semicolon}
    (hverb : verb.run s = .ok predicate s₁)
    (hobjects : (objects subject predicate n).run s₁
      = .ok () (reading c l (after (semicolon.1 :: semicolons.map (·.1)) rest) out))
    (hrest : rest.Sound) (hk : rest.current.kind ≠ .semicolon) :
    (predicates subject (n + 1)).run s =
      (if rest.current.kind = .period ∨ rest.current.kind = .closeBracket then pure ()
        else predicates subject n : Parser Unit).run (reading c l rest out) := by
  have hdrop : dropSemicolons
      (reading c l (after (semicolon.1 :: semicolons.map (·.1)) rest) out).stream = .ok rest :=
    dropSemicolons_after (semicolon :: semicolons) hrest hk
  have hget : (get : Parser State).run
      (reading c l (after (semicolon.1 :: semicolons.map (·.1)) rest) out)
      = .ok (reading c l (after (semicolon.1 :: semicolons.map (·.1)) rest) out)
        (reading c l (after (semicolon.1 :: semicolons.map (·.1)) rest) out) := rfl
  have hset : (set (reading c l rest out) : Parser Unit).run
      (reading c l (after (semicolon.1 :: semicolons.map (·.1)) rest) out)
      = .ok () (reading c l rest out) := rfl
  have hfirst : (after (semicolon.1 :: semicolons.map (·.1)) rest).current.kind = .semicolon :=
    semicolon.2
  rw [predicates, run_bind_of_ok hverb, run_bind_of_ok hobjects, run_bind_of_ok kind_run,
    if_pos hfirst, run_bind_of_ok hget, hdrop]
  exact (run_bind_of_ok hset).trans (run_bind_of_ok kind_run)

/-- The last predicate is read with the semicolons behind its objects. -/
theorem predicates_last_run (hverb : verb.run s = .ok predicate s₁)
    (hobjects : (objects subject predicate n).run s₁
      = .ok () (reading c l (after (semicolons.map (·.1)) rest) out))
    (hrest : rest.Sound) (hend : EndsProperties rest.current.kind) :
    (predicates subject (n + 1)).run s = .ok () (reading c l rest out) := by
  cases semicolons with
  | nil =>
    rw [predicates, run_bind_of_ok hverb, run_bind_of_ok hobjects, run_bind_of_ok kind_run,
      List.map_nil, after_nil, if_neg hend.ne_semicolon]
    rfl
  | cons semicolon semicolons =>
    have hstop : rest.current.kind = .period ∨ rest.current.kind = .closeBracket := hend
    rw [predicates_semicolons_run hverb hobjects hrest hend.ne_semicolon, if_pos hstop]
    rfl

/-- A predicate with another one behind its semicolons. -/
theorem predicates_more_run {semicolon : Leaf .semicolon} (hverb : verb.run s = .ok predicate s₁)
    (hobjects : (objects subject predicate n).run s₁
      = .ok () (reading c l (after (semicolon.1 :: semicolons.map (·.1)) rest) out))
    (hrest : rest.Sound) (hk : BeginsVerb rest.current.kind)
    (hps : (predicates subject n).run (reading c l rest out) = .ok () s') :
    (predicates subject (n + 1)).run s = .ok () s' := by
  have hgo : ¬ (rest.current.kind = .period ∨ rest.current.kind = .closeBracket) :=
    hk.not_endsProperties
  rw [predicates_semicolons_run hverb hobjects hrest hk.ne_semicolon, if_neg hgo, hps]

end Predicates

mutual

/-- **An object is read.** -/
theorem Object.complete (o : Object) {c : Context} {l l' : Labels} {rest : TokenStream}
    {out inner : List Statement} {t : Term} {n : ℕ} (hn : 4 * o.tokens.length ≤ n)
    (hm : (o.meaning c).run l = some ((t, inner), l')) (hrest : rest.Sound)
    (hend : EndsObject rest.current.kind) :
    (object n).run (reading c l (after o.tokens rest) out)
      = .ok t (reading c l' rest (out ++ inner)) := by
  have hpos := o.length_tokens_pos
  obtain ⟨n, rfl⟩ : ∃ m, n = m + 2 := ⟨n - 2, by omega⟩
  match o with
  | .name name =>
    obtain ⟨i, l₁, hname, hret⟩ := Meaning.run_bind_eq_some.mp hm
    obtain ⟨hpair, rfl⟩ := Meaning.run_pure_eq_some.mp hret
    cases hpair
    rw [List.append_nil]
    exact object_name_run hname hrest
  | .label leaf =>
    obtain ⟨node, l₁, hlabel, hret⟩ := Meaning.run_bind_eq_some.mp hm
    obtain ⟨hpair, rfl⟩ := Meaning.run_pure_eq_some.mp hret
    cases hpair
    rw [List.append_nil]
    exact object_label_run hlabel hrest
  | .brackets opening closing =>
    obtain ⟨node, l₁, hnode, hret⟩ := Meaning.run_bind_eq_some.mp hm
    obtain ⟨hpair, rfl⟩ := Meaning.run_pure_eq_some.mp hret
    cases hpair
    rw [List.append_nil]
    exact object_propertyList_run (propertyList_empty_run hnode hrest)
  | .properties opening ps closing =>
    obtain ⟨node, l₁, hnode, hret⟩ := Meaning.run_bind_eq_some.mp hm
    obtain ⟨inner', l₂, hps, hret⟩ := Meaning.run_bind_eq_some.mp hret
    obtain ⟨hpair, rfl⟩ := Meaning.run_pure_eq_some.mp hret
    cases hpair
    rw [Object.tokens, List.length_cons, List.length_append, List.length_singleton] at hn
    have hread : (predicates node n).run
        (reading c l₁ (after ps.tokens (.token closing.1 rest)) out)
        = .ok () (reading c l₂ (.token closing.1 rest) (out ++ inner)) :=
      ps.complete (by omega) hps (sound_token _ _) (.inr closing.2)
    exact object_propertyList_run (propertyList_filled_run hnode hrest hread)
  | .list opening its closing =>
    obtain ⟨cells, l₁, hits, hret⟩ := Meaning.run_bind_eq_some.mp hm
    obtain ⟨hpair, rfl⟩ := Meaning.run_pure_eq_some.mp hret
    cases hpair
    rw [Object.tokens, List.length_cons, List.length_append, List.length_singleton] at hn
    exact object_collection_run (its.collection_complete (by omega) hits hrest)
  | .string v suffix =>
    obtain ⟨t', l₁, hsuffix, hret⟩ := Meaning.run_bind_eq_some.mp hm
    obtain ⟨hpair, rfl⟩ := Meaning.run_pure_eq_some.mp hret
    cases hpair
    rw [List.append_nil]
    exact object_string_run hsuffix hrest hend
  | .scalar s =>
    obtain ⟨hpair, rfl⟩ := Meaning.run_pure_eq_some.mp hm
    cases hpair
    rw [List.append_nil]
    exact object_scalar_run hrest

/-- **A list is read.** -/
theorem Items.collection_complete (its : Items) {opening : Leaf .openParen}
    {closing : Leaf .closeParen} {c : Context} {l l' : Labels} {rest : TokenStream}
    {out : List Statement} {cells : List Cell} {n : ℕ} (hn : 4 * its.tokens.length + 2 ≤ n)
    (hm : (its.cells c).run l = some (cells, l')) (hrest : rest.Sound) :
    (collection n).run (reading c l (after (opening.1 :: (its.tokens ++ [closing.1])) rest) out)
      = .ok (spellList cells).1 (reading c l' rest (out ++ (spellList cells).2)) := by
  obtain ⟨n, rfl⟩ : ∃ m, n = m + 1 := Nat.exists_eq_succ_of_ne_zero (by omega)
  rw [after_cons, after_append, after_cons, after_nil, collection, run_bind_eq_ok]
  refine ⟨opening.1, _, expect_run (by decide) opening
    (sound_after (sound_token _ _) its.tokens), ?_⟩
  refine run_bind_eq_ok.mpr ⟨_, _, kind_run, ?_⟩
  match its with
  | .nil =>
    obtain ⟨rfl, rfl⟩ := Meaning.run_pure_eq_some.mp hm
    rw [Items.tokens, after_nil, current_token, if_pos closing.2, spellList, List.append_nil]
    exact run_bind_eq_ok.mpr ⟨closing.1, _, expect_run (by decide) closing hrest, rfl⟩
  | .cons o its =>
    obtain ⟨⟨item, inner⟩, l₁, ho, hm⟩ := Meaning.run_bind_eq_some.mp hm
    obtain ⟨node, l₂, hnode, hm⟩ := Meaning.run_bind_eq_some.mp hm
    obtain ⟨cells', l₃, hits, hret⟩ := Meaning.run_bind_eq_some.mp hm
    obtain ⟨rfl, rfl⟩ := Meaning.run_pure_eq_some.mp hret
    have hpos := o.length_tokens_pos
    rw [Items.tokens, List.length_append] at hn
    rw [Items.tokens, after_append, if_neg o.ne_closeParen]
    refine run_bind_eq_ok.mpr ⟨item, _, o.complete (by omega) ho
      (sound_after (sound_token _ _) its.tokens) (its.endsObject closing rest), ?_⟩
    refine run_bind_eq_ok.mpr ⟨node, _, anonymous_eq_ok.mpr ⟨l₂, hnode, rfl⟩, ?_⟩
    refine run_bind_eq_ok.mpr ⟨(), _, emit_run, ?_⟩
    refine run_bind_eq_ok.mpr ⟨(), _, its.complete (by omega) hits, ?_⟩
    refine run_bind_eq_ok.mpr ⟨closing.1, _, expect_run (by decide) closing hrest, ?_⟩
    simp only [spellList, List.append_assoc, List.cons_append, List.nil_append]
    rfl

/-- **The items of a list are read.** -/
theorem Items.complete (its : Items) {closing : Leaf .closeParen} {c : Context} {l l' : Labels}
    {rest : TokenStream} {out : List Statement} {last : Node} {cells : List Cell} {n : ℕ}
    (hn : 4 * its.tokens.length + 1 ≤ n) (hm : (its.cells c).run l = some (cells, l')) :
    (items last n).run (reading c l (after its.tokens (.token closing.1 rest)) out)
      = .ok () (reading c l' (.token closing.1 rest) (out ++ cellsBehind last cells)) := by
  obtain ⟨n, rfl⟩ : ∃ m, n = m + 1 := Nat.exists_eq_succ_of_ne_zero (by omega)
  rw [items, run_bind_eq_ok]
  refine ⟨_, _, kind_run, ?_⟩
  match its with
  | .nil =>
    obtain ⟨rfl, rfl⟩ := Meaning.run_pure_eq_some.mp hm
    rw [Items.tokens, after_nil, current_token, if_pos closing.2]
    exact emit_run
  | .cons o its =>
    obtain ⟨⟨item, inner⟩, l₁, ho, hm⟩ := Meaning.run_bind_eq_some.mp hm
    obtain ⟨node, l₂, hnode, hm⟩ := Meaning.run_bind_eq_some.mp hm
    obtain ⟨cells', l₃, hits, hret⟩ := Meaning.run_bind_eq_some.mp hm
    obtain ⟨rfl, rfl⟩ := Meaning.run_pure_eq_some.mp hret
    have hpos := o.length_tokens_pos
    rw [Items.tokens, List.length_append] at hn
    rw [Items.tokens, after_append, if_neg o.ne_closeParen]
    refine run_bind_eq_ok.mpr ⟨item, _, o.complete (by omega) ho
      (sound_after (sound_token _ _) its.tokens) (its.endsObject closing rest), ?_⟩
    refine run_bind_eq_ok.mpr ⟨node, _, anonymous_eq_ok.mpr ⟨l₂, hnode, rfl⟩, ?_⟩
    refine run_bind_eq_ok.mpr ⟨(), _, emit_run, ?_⟩
    refine run_bind_eq_ok.mpr ⟨(), _, emit_run, ?_⟩
    rw [its.complete (by omega) hits]
    simp only [cellsBehind, List.append_assoc, List.cons_append, List.nil_append]

/-- **Objects are read.** -/
theorem Objects.complete (os : Objects) {c : Context} {l l' : Labels} {rest : TokenStream}
    {out stmts : List Statement} {subject : Node} {predicate : Iri} {n : ℕ}
    (hn : 4 * os.tokens.length + 1 ≤ n)
    (hm : (os.meaning c subject predicate).run l = some (stmts, l')) (hrest : rest.Sound)
    (hend : EndsObjects rest.current.kind) :
    (objects subject predicate n).run (reading c l (after os.tokens rest) out)
      = .ok () (reading c l' rest (out ++ stmts)) := by
  obtain ⟨n, rfl⟩ : ∃ m, n = m + 1 := Nat.exists_eq_succ_of_ne_zero (by omega)
  rw [objects, run_bind_eq_ok]
  match os with
  | .one o =>
    obtain ⟨⟨object, inner⟩, l₁, ho, hret⟩ := Meaning.run_bind_eq_some.mp hm
    obtain ⟨rfl, rfl⟩ := Meaning.run_pure_eq_some.mp hret
    rw [Objects.tokens] at hn
    refine ⟨object, _, o.complete (by omega) ho hrest hend.1, ?_⟩
    refine run_bind_eq_ok.mpr ⟨(), _, emit_run, ?_⟩
    refine run_bind_eq_ok.mpr ⟨_, _, kind_run, ?_⟩
    rw [if_neg hend.2, List.append_assoc]
    rfl
  | .more o comma os =>
    obtain ⟨⟨object, inner⟩, l₁, ho, hm⟩ := Meaning.run_bind_eq_some.mp hm
    obtain ⟨stmts', l₂, hos, hret⟩ := Meaning.run_bind_eq_some.mp hm
    obtain ⟨rfl, rfl⟩ := Meaning.run_pure_eq_some.mp hret
    rw [Objects.tokens, List.length_append, List.length_cons] at hn
    have hcomma : EndsObject comma.1.kind := by
      rw [comma.2, EndsObject]
      decide
    rw [Objects.tokens, after_append, after_cons]
    refine ⟨object, _, o.complete (by omega) ho (sound_token _ _) hcomma, ?_⟩
    refine run_bind_eq_ok.mpr ⟨(), _, emit_run, ?_⟩
    refine run_bind_eq_ok.mpr ⟨_, _, kind_run, ?_⟩
    rw [current_token, if_pos comma.2]
    refine run_bind_eq_ok.mpr ⟨(), _, advance_run (sound_after hrest os.tokens), ?_⟩
    rw [os.complete (by omega) hos hrest hend]
    simp only [List.append_assoc, List.cons_append, List.nil_append]

/-- **Properties are read.** -/
theorem Properties.complete (ps : Properties) {c : Context} {l l' : Labels} {rest : TokenStream}
    {out stmts : List Statement} {subject : Node} {n : ℕ} (hn : 4 * ps.tokens.length ≤ n + 2)
    (hm : (ps.meaning c subject).run l = some (stmts, l')) (hrest : rest.Sound)
    (hend : EndsProperties rest.current.kind) :
    (predicates subject n).run (reading c l (after ps.tokens rest) out)
      = .ok () (reading c l' rest (out ++ stmts)) := by
  obtain ⟨first, others, hfirst, -⟩ := ps.exists_token
  obtain ⟨n, rfl⟩ : ∃ m, n = m + 1 := by
    rw [hfirst, List.length_cons] at hn
    exact Nat.exists_eq_succ_of_ne_zero (by omega)
  match ps with
  | .last v os semicolons =>
    obtain ⟨predicate, l₁, hv, hos⟩ := Meaning.run_bind_eq_some.mp hm
    obtain ⟨t, ht, -⟩ := v.exists_token
    rw [Properties.tokens, ht, List.length_append, List.length_append, List.length_singleton] at hn
    rw [Properties.tokens, after_append, after_append]
    have hfollows := endsObjects_semicolons semicolons hend.endsObjects
    exact predicates_last_run (v.complete hv (sound_after (sound_after hrest _) _))
      (os.complete (by omega) hos (sound_after hrest _) hfollows) hrest hend
  | .more v os semicolon semicolons ps =>
    obtain ⟨predicate, l₁, hv, hm⟩ := Meaning.run_bind_eq_some.mp hm
    obtain ⟨stmts', l₂, hos, hm⟩ := Meaning.run_bind_eq_some.mp hm
    obtain ⟨stmts'', l₃, hps, hret⟩ := Meaning.run_bind_eq_some.mp hm
    obtain ⟨rfl, rfl⟩ := Meaning.run_pure_eq_some.mp hret
    obtain ⟨t, ht, -⟩ := v.exists_token
    rw [Properties.tokens, ht, List.length_append, List.length_append, List.length_singleton,
      List.length_cons, List.length_append] at hn
    rw [Properties.tokens, after_append, after_append, ← List.cons_append, after_append,
      ← List.append_assoc]
    have hsemicolon : EndsObjects semicolon.1.kind := by
      rw [semicolon.2]
      exact endsObjects_semicolon
    exact predicates_more_run (v.complete hv (sound_after (sound_token _ _) _))
      (os.complete (by omega) hos (sound_token _ _) hsemicolon) (sound_after hrest _)
      ps.beginsVerb (ps.complete (by omega) hps hrest hend)

end

/-! ### Blocks -/

theorem depth_run : depth.run (reading c l stream out) =
    .ok (4 * stream.length + 4) (reading c l stream out) := rfl

/-- A kind that triples may begin with: there is a token, and it is no directive. -/
def BeginsTriples (k : Kind) : Prop := k ≠ .eof ∧ k ≠ .prefixDirective ∧ k ≠ .baseDirective

theorem Subject.exists_token (s : Subject) :
    ∃ t ts, s.tokens = t :: ts ∧ t.kind ≠ .openBracket ∧ BeginsTriples t.kind := by
  cases s with
  | name n =>
    obtain ⟨t, ht, hk⟩ := n.exists_token
    refine ⟨t, [], ht, ?_⟩
    rcases hk with hk | hk | hk
    all_goals
      rw [hk, BeginsTriples]
      decide
  | label t =>
    refine ⟨t.1, [], rfl, ?_⟩
    rw [t.2, BeginsTriples]
    decide
  | list opening its closing =>
    refine ⟨opening.1, _, rfl, ?_⟩
    rw [opening.2, BeginsTriples]
    decide

theorem Subject.complete (s : Subject) {node : Node} {inner : List Statement}
    (hm : (s.meaning c).run l = some ((node, inner), l')) (hrest : rest.Sound) :
    subject.run (reading c l (after s.tokens rest) out)
      = .ok node (reading c l' rest (out ++ inner)) := by
  rw [subject, run_bind_of_ok kind_run]
  cases s with
  | name name =>
    obtain ⟨i, l₁, hname, hret⟩ := Meaning.run_bind_eq_some.mp hm
    obtain ⟨hpair, rfl⟩ := Meaning.run_pure_eq_some.mp hret
    cases hpair
    have hiri : iri.run (reading c l (after name.tokens rest) out) = .ok i (reading c l₁ rest out) :=
      iri_eq_ok_iff.mpr ⟨name, rest, l₁, rfl, hrest, hname, rfl⟩
    obtain ⟨t, ht, hk⟩ := name.exists_token
    rw [Subject.tokens, List.append_nil]
    rw [ht, after_cons] at hiri ⊢
    rcases hk with hk | hk | hk
    all_goals
      simp only [current_token, hk]
      exact run_bind_of_ok hiri
  | label t =>
    obtain ⟨node, l₁, hlabel, hret⟩ := Meaning.run_bind_eq_some.mp hm
    obtain ⟨hpair, rfl⟩ := Meaning.run_pure_eq_some.mp hret
    cases hpair
    rw [Subject.tokens, after_cons, after_nil, List.append_nil]
    simp only [current_token, t.2]
    exact blankNode_eq_ok_iff.mpr ⟨t, rest, l₁, rfl, hrest, hlabel, rfl⟩
  | list opening its closing =>
    obtain ⟨cells, l₁, hits, hret⟩ := Meaning.run_bind_eq_some.mp hm
    obtain ⟨hpair, rfl⟩ := Meaning.run_pure_eq_some.mp hret
    obtain ⟨rfl, rfl⟩ := Prod.ext_iff.mp hpair
    have hlength : (after (opening.1 :: (its.tokens ++ [closing.1])) rest).length
        = its.tokens.length + 2 + rest.length := by
      rw [length_after, List.length_cons, List.length_append, List.length_singleton]
    have hlist : (collection (4 * (after (opening.1 :: (its.tokens ++ [closing.1])) rest).length
        + 4)).run (reading c l (after (opening.1 :: (its.tokens ++ [closing.1])) rest) out)
        = .ok (spellList cells).1 (reading c l₁ rest (out ++ (spellList cells).2)) :=
      its.collection_complete (by omega) hits hrest
    rw [Subject.tokens]
    rw [after_cons] at hlist ⊢
    simp only [current_token, opening.2]
    exact (run_bind_of_ok depth_run).trans hlist

/-- Properties are read within the bound that the reader takes for its stream. -/
theorem Properties.complete_depth (ps : Properties) {subject : Node} {stmts : List Statement}
    (hm : (ps.meaning c subject).run l = some (stmts, l')) (hrest : rest.Sound)
    (hend : EndsProperties rest.current.kind) :
    (do predicates subject (← depth) : Parser Unit).run (reading c l (after ps.tokens rest) out)
      = .ok () (reading c l' rest (out ++ stmts)) := by
  rw [run_bind_of_ok depth_run]
  refine ps.complete ?_ hm hrest hend
  rw [length_after]
  omega

/-- What stands in brackets decides whether more properties are read. -/
theorem triples_brackets_run {opening : Leaf .openBracket} {ts : List Token} {node : Node}
    {empty : Bool} {out' : List Statement}
    (h : (propertyList (4 * (after (opening.1 :: ts) stream).length + 4)).run
      (reading c l (after (opening.1 :: ts) stream) out)
      = .ok (node, empty) (reading c l' rest out')) :
    triples.run (reading c l (after (opening.1 :: ts) stream) out) =
      (if ¬ empty ∧ rest.current.kind = .period then pure ()
        else do predicates node (← depth) : Parser Unit).run (reading c l' rest out') := by
  have hopen : (after (opening.1 :: ts) stream).current.kind = .openBracket := opening.2
  rw [triples, run_bind_of_ok kind_run, if_pos hopen, run_bind_of_ok depth_run, run_bind_of_ok h]
  exact run_bind_of_ok kind_run

/-- Properties in brackets are read. -/
theorem Properties.brackets_complete (ps : Properties) {opening : Leaf .openBracket}
    {closing : Leaf .closeBracket} {node : Node} {stmts : List Statement}
    (hnode : Meaning.anonymous.run l = some (node, l₁))
    (hm : (ps.meaning c node).run l₁ = some (stmts, l')) (hrest : rest.Sound) :
    (propertyList (4 * (after (opening.1 :: (ps.tokens ++ [closing.1])) rest).length + 4)).run
        (reading c l (after (opening.1 :: (ps.tokens ++ [closing.1])) rest) out)
      = .ok (node, false) (reading c l' rest (out ++ stmts)) := by
  refine propertyList_filled_run hnode hrest
    (ps.complete ?_ hm (sound_token _ _) (.inr closing.2))
  rw [length_after, List.length_cons, List.length_append]
  omega

/-- **The triples of one subject are read up to their full stop.** -/
theorem Triples.complete (t : Triples) {stmts : List Statement}
    (hm : (t.meaning c).run l = some (stmts, l')) (hrest : rest.Sound)
    (hend : rest.current.kind = .period) :
    triples.run (reading c l (after t.tokens rest) out)
      = .ok () (reading c l' rest (out ++ stmts)) := by
  cases t with
  | subject s ps =>
    obtain ⟨⟨node, inner⟩, l₁, hs, hm⟩ := Meaning.run_bind_eq_some.mp hm
    obtain ⟨stmts', l₂, hps, hret⟩ := Meaning.run_bind_eq_some.mp hm
    obtain ⟨rfl, rfl⟩ := Meaning.run_pure_eq_some.mp hret
    have hopen : (after (Triples.subject s ps).tokens rest).current.kind ≠ .openBracket := by
      obtain ⟨t, ts, ht, hk, -⟩ := s.exists_token
      rw [Triples.tokens, ht]
      exact hk
    rw [triples, run_bind_of_ok kind_run, if_neg hopen, Triples.tokens, after_append,
      run_bind_of_ok (s.complete hs (sound_after hrest ps.tokens)), ← List.append_assoc]
    exact ps.complete_depth hps hrest (.inl hend)
  | properties opening inner closing =>
    obtain ⟨node, l₁, hnode, hinner⟩ := Meaning.run_bind_eq_some.mp hm
    have halone : ¬ (false = true) ∧ rest.current.kind = .period := ⟨Bool.false_ne_true, hend⟩
    rw [Triples.tokens,
      triples_brackets_run (inner.brackets_complete hnode hinner hrest), if_pos halone]
    rfl
  | both opening inner closing outer =>
    obtain ⟨node, l₁, hnode, hm⟩ := Meaning.run_bind_eq_some.mp hm
    obtain ⟨stmts₁, l₂, hinner, hm⟩ := Meaning.run_bind_eq_some.mp hm
    obtain ⟨stmts₂, l₃, houter, hret⟩ := Meaning.run_bind_eq_some.mp hm
    obtain ⟨rfl, rfl⟩ := Meaning.run_pure_eq_some.mp hret
    have hmore : ¬ (¬ (false = true) ∧ (after outer.tokens rest).current.kind = .period) :=
      fun h => outer.beginsVerb.not_endsProperties (.inl h.2)
    have htokens : (Triples.both opening inner closing outer).tokens
        = opening.1 :: (inner.tokens ++ [closing.1]) ++ outer.tokens := by
      rw [Triples.tokens, List.cons_append, List.append_assoc, List.singleton_append]
    rw [htokens, after_append, triples_brackets_run
      (inner.brackets_complete hnode hinner (sound_after hrest outer.tokens)), if_neg hmore,
      ← List.append_assoc]
    exact outer.complete_depth houter hrest (.inl hend)
  | brackets opening closing ps =>
    obtain ⟨node, l₁, hnode, hps⟩ := Meaning.run_bind_eq_some.mp hm
    have hmore : ¬ (¬ (true = true) ∧ (after ps.tokens rest).current.kind = .period) :=
      fun h => h.1 rfl
    have htokens : (Triples.brackets opening closing ps).tokens
        = [opening.1, closing.1] ++ ps.tokens := rfl
    rw [htokens, after_append, triples_brackets_run
      (propertyList_empty_run hnode (sound_after hrest ps.tokens)), if_neg hmore]
    exact ps.complete_depth hps hrest (.inl hend)

theorem directiveEnd_bare_run {directive : Token} (h : directive.bare = true) :
    (directiveEnd directive).run (reading c l stream out) = .ok () (reading c l stream out) := by
  rw [directiveEnd, if_neg (not_not_intro h)]
  rfl

theorem directiveEnd_stop_run {directive : Token} (h : directive.bare = false)
    (stop : Leaf .period) (hrest : rest.Sound) :
    (directiveEnd directive).run (reading c l (.token stop.1 rest) out)
      = .ok () (reading c l rest out) := by
  rw [directiveEnd, if_pos (by rw [h]; exact Bool.false_ne_true),
    run_bind_of_ok (expect_run (by decide) stop hrest)]
  rfl

/-- A declaration of a prefix is read up to its end. -/
theorem prefixDeclaration_run {word : Token} (hword : word.kind = .prefixDirective)
    (name : Namespace) (r : Reference) (hrest : rest.Sound) :
    prefixDeclaration.run (reading c l (after (word :: name.1 :: r.tokens) rest) out) =
      (directiveEnd word).run (reading
        { c with prefixes := (name.1.text.dropLast, r.resolve c) :: c.prefixes } l rest out) := by
  have hname : ¬ ¬ declaresPrefix name.1 := not_not_intro name.2
  have href : iriReference.run (reading c l (after r.tokens rest) out)
      = .ok (r.resolve c) (reading c l rest out) :=
    iriReference_eq_ok_iff.mpr ⟨r, rest, rfl, hrest, rfl, rfl⟩
  rw [after_cons, after_cons, prefixDeclaration,
    run_bind_of_ok (expect_run (by decide) ⟨word, hword⟩ (sound_token _ _)),
    run_bind_of_ok current_run, current_token, if_neg hname,
    run_bind_of_ok (advance_run (sound_after hrest r.tokens)), run_bind_of_ok href]
  rfl

/-- A declaration of the base is read up to its end. -/
theorem baseDeclaration_run {word : Token} (hword : word.kind = .baseDirective)
    (r : Reference) (hrest : rest.Sound) :
    baseDeclaration.run (reading c l (after (word :: r.tokens) rest) out) =
      (directiveEnd word).run (reading { c with base := r.resolve c } l rest out) := by
  have href : iriReference.run (reading c l (after r.tokens rest) out)
      = .ok (r.resolve c) (reading c l rest out) :=
    iriReference_eq_ok_iff.mpr ⟨r, rest, rfl, hrest, rfl, rfl⟩
  rw [after_cons, baseDeclaration,
    run_bind_of_ok (expect_run (by decide) ⟨word, hword⟩ (sound_after hrest r.tokens)),
    run_bind_of_ok href]
  rfl

/-- Every block begins with nothing emitted. -/
theorem clear_run : (modify fun s => { s with emitted := [] } : Parser Unit).run
    (reading c l stream out) = .ok () (reading c l stream []) := rfl

theorem statement_prefix_run {s' : State} (hk : stream.current.kind = .prefixDirective)
    (h : prefixDeclaration.run (reading c l stream []) = .ok () s') :
    statement.run (reading c l stream out) = .ok [] s' := by
  rw [statement, run_bind_of_ok clear_run, run_bind_of_ok kind_run]
  simp only [hk]
  rw [run_bind_of_ok h]
  rfl

theorem statement_base_run {s' : State} (hk : stream.current.kind = .baseDirective)
    (h : baseDeclaration.run (reading c l stream []) = .ok () s') :
    statement.run (reading c l stream out) = .ok [] s' := by
  rw [statement, run_bind_of_ok clear_run, run_bind_of_ok kind_run]
  simp only [hk]
  rw [run_bind_of_ok h]
  rfl

/-- **A directive is read, and holds from then on.** -/
theorem Directive.complete (d : Directive) (hrest : rest.Sound) :
    statement.run (reading c l (after d.tokens rest) out)
      = .ok [] (reading (d.effect c) l rest []) := by
  cases d with
  | declare word name iri stop =>
    have htokens : after (Directive.declare word name iri stop).tokens rest
        = after (word.1 :: name.1 :: iri.tokens) (.token stop.1 rest) := by
      rw [Directive.tokens, ← List.cons_append, ← List.cons_append, after_append]
      rfl
    refine statement_prefix_run word.2.1 ?_
    rw [htokens, prefixDeclaration_run word.2.1 name iri (sound_token _ _)]
    exact directiveEnd_stop_run word.2.2 stop hrest
  | bareDeclare word name iri =>
    refine statement_prefix_run word.2.1 ?_
    rw [Directive.tokens, prefixDeclaration_run word.2.1 name iri hrest]
    exact directiveEnd_bare_run word.2.2
  | base word iri stop =>
    have htokens : after (Directive.base word iri stop).tokens rest
        = after (word.1 :: iri.tokens) (.token stop.1 rest) := by
      rw [Directive.tokens, ← List.cons_append, after_append]
      rfl
    refine statement_base_run word.2.1 ?_
    rw [htokens, baseDeclaration_run word.2.1 iri (sound_token _ _)]
    exact directiveEnd_stop_run word.2.2 stop hrest
  | bareBase word iri =>
    refine statement_base_run word.2.1 ?_
    rw [Directive.tokens, baseDeclaration_run word.2.1 iri hrest]
    exact directiveEnd_bare_run word.2.2

theorem Triples.exists_token (t : Triples) :
    ∃ first ts, t.tokens = first :: ts ∧ BeginsTriples first.kind := by
  cases t with
  | subject s ps =>
    obtain ⟨first, ts, hs, -, hk⟩ := s.exists_token
    rw [Triples.tokens, hs]
    exact ⟨first, _, rfl, hk⟩
  | properties opening inner closing =>
    refine ⟨opening.1, _, rfl, ?_⟩
    rw [opening.2, BeginsTriples]
    decide
  | both opening inner closing outer =>
    refine ⟨opening.1, _, rfl, ?_⟩
    rw [opening.2, BeginsTriples]
    decide
  | brackets opening closing ps =>
    refine ⟨opening.1, _, rfl, ?_⟩
    rw [opening.2, BeginsTriples]
    decide

/-- Triples are read up to their full stop, whatever stands behind it. -/
theorem Triples.complete_stop (t : Triples) {stop : Leaf .period} {stmts : List Statement}
    (hm : (t.meaning c).run l = some (stmts, l')) (rest : TokenStream) :
    statement.run (reading c l (after (Block.triples t stop).tokens rest) out) =
      (do let _ ← expect .period; return (← get).emitted : Parser (List Statement)).run
        (reading c l' (.token stop.1 rest) stmts) := by
  obtain ⟨first, ts, hfirst, -, hdeclares, hbase⟩ := t.exists_token
  have hread : Turtle.triples.run (reading c l (after t.tokens (.token stop.1 rest)) [])
      = .ok () (reading c l' (.token stop.1 rest) stmts) :=
    t.complete hm (sound_token _ _) stop.2
  have hkind : (after t.tokens (.token stop.1 rest)).current.kind = first.kind := by
    rw [hfirst]
    rfl
  rw [Block.tokens, after_append, after_cons, after_nil, statement, run_bind_of_ok clear_run,
    run_bind_of_ok kind_run, hkind]
  split
  · next hk => exact absurd hk hdeclares
  · next hk => exact absurd hk hbase
  · rw [run_bind_of_ok hread]

/-- **A block is read**, and its statements are given. -/
theorem Block.complete (b : Block) {stmts : List Statement}
    (hm : (b.meaning c).run l = some (stmts, l')) (hrest : rest.Sound) :
    ∃ out', statement.run (reading c l (after b.tokens rest) out)
      = .ok stmts (reading (b.effect c) l' rest out') := by
  cases b with
  | directive d =>
    obtain ⟨rfl, rfl⟩ := Meaning.run_pure_eq_some.mp hm
    exact ⟨[], d.complete hrest⟩
  | triples t stop =>
    refine ⟨stmts, ?_⟩
    rw [t.complete_stop hm, run_bind_of_ok (expect_run (by decide) stop hrest)]
    rfl

theorem Block.exists_token (b : Block) : ∃ t ts, b.tokens = t :: ts ∧ t.kind ≠ .eof := by
  cases b with
  | directive d =>
    cases d with
    | _ word =>
      refine ⟨word.1, _, rfl, ?_⟩
      rw [word.2.1]
      decide
  | triples t stop =>
    obtain ⟨first, ts, hfirst, hk⟩ := t.exists_token
    rw [Block.tokens, hfirst]
    exact ⟨first, _, rfl, hk.1⟩

/-- **A document is read block by block**, if there are steps enough. -/
theorem deliver_complete (d : Document) {fuel : ℕ} {stmts : List Statement} {p : Position}
    (hm : (d.meaning c).run l = some (stmts, l')) (hfuel : d.tokens.length < fuel) :
    (deliver fuel (reading c l (after d.tokens (.done p)) out)).collect
      = (.ok stmts, l'.supply) := by
  obtain ⟨fuel, rfl⟩ := Nat.exists_eq_succ_of_ne_zero (Nat.ne_zero_of_lt hfuel)
  induction d generalizing c l out stmts fuel with
  | nil =>
    obtain ⟨rfl, rfl⟩ := Meaning.run_pure_eq_some.mp hm
    exact Delivery.collect_finish_eq_ok.mpr ⟨rfl, rfl⟩
  | cons b d ih =>
    obtain ⟨stmts₁, l₁, hb, hm⟩ := Meaning.run_bind_eq_some.mp hm
    obtain ⟨stmts₂, l₂, hd, hret⟩ := Meaning.run_bind_eq_some.mp hm
    obtain ⟨rfl, rfl⟩ := Meaning.run_pure_eq_some.mp hret
    obtain ⟨t, ts, ht, hk⟩ := b.exists_token
    rw [Document.tokens_cons, ht, List.length_append, List.length_cons] at hfuel
    obtain ⟨fuel, rfl⟩ : ∃ m, fuel = m + 1 := Nat.exists_eq_succ_of_ne_zero (by omega)
    obtain ⟨out', hrun⟩ : ∃ out', statement.run
        (reading c l (after b.tokens (after (Document.tokens d) (.done p))) out)
        = .ok stmts₁ (reading (b.effect c) l₁ (after (Document.tokens d) (.done p)) out') :=
      b.complete hb (sound_after (sound_done p) _)
    have hgo : (after b.tokens (after (Document.tokens d) (.done p))).current.kind ≠ .eof := by
      rw [ht]
      exact hk
    rw [Document.tokens_cons, after_append, deliver, stream_reading, if_neg hgo, hrun]
    exact Delivery.collect_block_eq_ok.mpr ⟨stmts₂, ih hd fuel (by omega), rfl⟩

end TripleStore.Turtle
