import TripleStore.Document.Format
import TripleStore.Proofs.Parse.Plain
import TripleStore.Proofs.Repository.State
import TripleStore.Proofs.Token.Plain
import TripleStore.Proofs.Turtle.Extension

/-!
# The statements of a document

Tree by tree, whatever a document says breaks no rule, and can be written down again if its texts
can: the names it puts together are checked, the texts of its literals are texts of its tokens, and
the nodes it makes are drawn from the supply.

* `Context.MadeOf`: a context whose prefixes stand for texts of a class.
* `Turtle.Document.yields`: **a document made of texts of a class has statements made of them.**
* `Format.exists_holds`: **the statements of a text in UTF-8 can be written down**, and their labels
  were drawn for the text.
-/

namespace TripleStore

open Meaning (Yields)
open Utf8 (isWellFormed isWellFormed_append)

/-- All statements are within a scope. -/
def Scope.Holds (scope : Scope) (stmts : List Statement) : Prop := ∀ s ∈ stmts, s.Within scope

/-- All statements are made of texts of a class, with labels of the scope. -/
def Scope.Bears (scope : Scope) (T : TextClass) (stmts : List Statement) : Prop :=
  ∀ s ∈ stmts, s.Among scope T

namespace Scope.Bears

variable {scope later : Scope} {T : TextClass} {stmts more : List Statement}

theorem nil : scope.Bears T [] := fun _ hs => absurd hs List.not_mem_nil

theorem append (h : scope.Bears T stmts) (h' : scope.Bears T more) :
    scope.Bears T (stmts ++ more) :=
  fun s hs => (List.mem_append.mp hs).elim (h s) (h' s)

theorem cons {s : Statement} (hs : s.Among scope T) (h : scope.Bears T stmts) :
    scope.Bears T (s :: stmts) :=
  List.forall_mem_cons.mpr ⟨hs, h⟩

theorem mono (h : scope.Bears T stmts) (hlater : scope.Keeps later) : later.Bears T stmts :=
  fun s hs => (h s hs).mono hlater

end Scope.Bears

/-- The text of a token is of a class, and a label is one that the scanner takes in. -/
structure Token.MadeOf (T : TextClass) (t : Token) : Prop where
  text : T.holds t.text
  label : t.kind = .blankNodeLabel → Scanner.isLabel (t.text.drop 2) = true

theorem Token.Plain.madeOf {t : Token} (h : t.Plain) :
    t.MadeOf .utf8 := ⟨h.utf8, h.label⟩

namespace Turtle

/-- The IRIs that are put in front of others are of a class of texts. -/
structure Context.MadeOf (T : TextClass) (c : Context) : Prop where
  prefixes : ∀ p ∈ c.prefixes, T.holds p.2
  base : T.holds c.base

variable {T : TextClass} {c : Context} {base scope : Scope}

theorem Context.madeOf_empty : Context.MadeOf T {} :=
  ⟨fun _ h => absurd h List.not_mem_nil, T.nil⟩

/-! ### Names and literals -/

theorem Reference.resolve_madeOf {r : Reference} (hc : c.MadeOf T)
    (hr : ∀ t ∈ r.tokens, t.MadeOf T) : T.holds (r.resolve c) := by
  cases r with
  | absolute t => exact (hr t.1 (List.mem_singleton_self _)).text
  | relative t => exact T.append hc.base (hr t.1 (List.mem_singleton_self _)).text

theorem Name.yields {x : Name} (hc : c.MadeOf T) (hx : ∀ t ∈ x.tokens, t.MadeOf T) :
    Yields base (x.meaning c) fun scope i => scope.Allows T (.iri i) := by
  cases x with
  | reference r => exact .valid (Reference.resolve_madeOf hc hx)
  | prefixed t =>
    have htext : T.holds t.1.text := (hx t.1 (List.mem_singleton_self _)).text
    have hname : T.holds ((Text.cut Ascii.colon t.1.text).getD (t.1.text, [])).2 := by
      cases hcut : Text.cut Ascii.colon t.1.text with
      | none => exact T.nil
      | some p => exact T.cut hcut htext
    rw [Name.meaning]
    simp only
    split
    · next space hspace =>
      exact .valid (T.append (hc.prefixes _ (Named.mem_of_lookup hspace)) hname)
    · exact .failure

theorem Verb.yields {x : Verb} (hc : c.MadeOf T) (hx : ∀ t ∈ x.tokens, t.MadeOf T) :
    Yields base (x.meaning c) fun scope i => scope.Allows T (.iri i) := by
  cases x with
  | a t => exact .pure fun _ _ => Scope.allows_vocabulary (by simp [Vocabulary.names])
  | name n => exact n.yields hc hx

theorem Suffix.yields {x : Suffix} {value : Text} (hc : c.MadeOf T)
    (hvalue : T.holds value) (hx : ∀ t ∈ x.tokens, t.MadeOf T) :
    Yields base (x.meaning c value) fun scope t => scope.Allows T t := by
  cases x with
  | none =>
    refine .pure fun _ _ => Scope.allows_typed hvalue ?_
    exact Scope.allows_vocabulary (by simp [Vocabulary.names])
  | tag t => exact .tagged hvalue _
  | datatype mark n =>
    have hn : ∀ t ∈ n.tokens, t.MadeOf T := fun t ht => hx t (List.mem_cons_of_mem _ ht)
    exact .bind (n.yields hc hn) fun scope _ i hi => .pure fun later hlater =>
      Scope.allows_typed hvalue (hi.mono hlater)

theorem Scalar.allows {x : Scalar} (hx : ∀ t ∈ x.tokens, t.MadeOf T) : scope.Allows T x.term := by
  cases x with
  | boolean t =>
    refine Scope.allows_typed ?_ (Scope.allows_vocabulary (by simp [Vocabulary.names]))
    refine T.ascii fun b hb => ?_
    cases hvalue : t.1.text == "true" with
    | true =>
      rw [hvalue] at hb
      exact (by decide +kernel : ∀ b ∈ Text.ofBool true, b.toNat < 0x80) b hb
    | false =>
      rw [hvalue] at hb
      exact (by decide +kernel : ∀ b ∈ Text.ofBool false, b.toNat < 0x80) b hb
  | _ t =>
    refine Scope.allows_typed (hx t.1 (List.mem_singleton_self _)).text ?_
    exact Scope.allows_vocabulary (by simp [Vocabulary.names])

/-! ### Nested structures -/

/-- A list whose cells are as a document makes them. -/
def Cell.Among (scope : Scope) (T : TextClass) (cell : Cell) : Prop :=
  scope.Bears T cell.inner ∧ scope.Allows T cell.item ∧ scope.Allows T cell.node.toTerm

theorem Cell.Among.mono {later : Scope} {cell : Cell} (h : cell.Among scope T)
    (hlater : scope.Keeps later) : cell.Among later T :=
  ⟨h.1.mono hlater, h.2.1.mono hlater, h.2.2.mono hlater⟩

theorem allows_lists (scope : Scope) : scope.Allows T (.iri Vocabulary.first) ∧
    scope.Allows T (.iri Vocabulary.rest) ∧ scope.Allows T (.iri Vocabulary.nil) :=
  ⟨Scope.allows_vocabulary (by simp [Vocabulary.names]),
    Scope.allows_vocabulary (by simp [Vocabulary.names]),
    Scope.allows_vocabulary (by simp [Vocabulary.names])⟩

theorem triple_among {s : Node} {p : Iri} {o : Term} (hs : scope.Allows T s.toTerm)
    (hp : scope.Allows T (.iri p)) (ho : scope.Allows T o) : (triple s p o).Among scope T :=
  ⟨hs, hp, ho, rfl⟩

theorem bears_cellsBehind {last : Node} {cells : List Cell} (hlast : scope.Allows T last.toTerm)
    (h : ∀ cell ∈ cells, cell.Among scope T) : scope.Bears T (cellsBehind last cells) := by
  obtain ⟨hfirst, hrest, hnil⟩ := allows_lists (T := T) scope
  induction cells generalizing last with
  | nil => exact .cons (triple_among hlast hrest hnil) .nil
  | cons cell cells ih =>
    obtain ⟨⟨hinner, hitem, hnode⟩, hcells⟩ := List.forall_mem_cons.mp h
    exact hinner.append (.cons (triple_among hlast hrest hnode)
      (.cons (triple_among hnode hfirst hitem) (ih hnode hcells)))

theorem bears_spellList {cells : List Cell} (h : ∀ cell ∈ cells, cell.Among scope T) :
    scope.Allows T (spellList cells).1.toTerm ∧ scope.Bears T (spellList cells).2 := by
  obtain ⟨hfirst, -, hnil⟩ := allows_lists (T := T) scope
  cases cells with
  | nil => exact ⟨hnil, .nil⟩
  | cons cell cells =>
    obtain ⟨⟨hinner, hitem, hnode⟩, hcells⟩ := List.forall_mem_cons.mp h
    exact ⟨hnode, hinner.append
      (.cons (triple_among hnode hfirst hitem) (bears_cellsBehind hnode hcells))⟩

mutual

/-- The term of an object and the statements inside it. -/
theorem Object.yields {base : Scope} (hc : c.MadeOf T) : (x : Object) → (∀ t ∈ x.tokens, t.MadeOf T) →
    Yields base (x.meaning c) fun scope a => scope.Allows T a.1 ∧ scope.Bears T a.2
  | .name n, hx =>
    .bind (n.yields hc hx) fun _ _ _ hi => .pure fun _ hlater => ⟨hi.mono hlater, .nil⟩
  | .label t, hx =>
    .bind (.labelled T ((hx t.1 (List.mem_singleton_self _)).label t.2)) fun _ _ _ hn =>
      .pure fun _ hlater => ⟨hn.mono hlater, .nil⟩
  | .brackets _ _, _ =>
    .bind (.anonymous T) fun _ _ _ hn => .pure fun _ hlater => ⟨hn.mono hlater, .nil⟩
  | .properties _ ps _, hx => by
    have hinner : ∀ t ∈ ps.tokens, t.MadeOf T := fun t ht => hx t (by simp [Object.tokens, ht])
    refine .bind (.anonymous T) fun scope hbase n hn => ?_
    refine .bind (ps.yields hc hn hinner) fun scope' hscope stmts hstmts => ?_
    exact .pure fun later hlater => ⟨hn.mono (hscope.trans hlater), hstmts.mono hlater⟩
  | .list _ items _, hx => by
    have hinner : ∀ t ∈ items.tokens, t.MadeOf T := fun t ht => hx t (by simp [Object.tokens, ht])
    refine .bind (items.yields hc hinner) fun scope hbase cells hcells => ?_
    exact .pure fun later hlater =>
      bears_spellList fun cell hcell => (hcells cell hcell).mono hlater
  | .string t suffix, hx => by
    have hvalue : T.holds t.1.text := (hx t.1 List.mem_cons_self).text
    have hsuffix : ∀ u ∈ suffix.tokens, u.MadeOf T := fun u hu => hx u (List.mem_cons_of_mem _ hu)
    refine .bind (suffix.yields hc hvalue hsuffix) fun scope hbase v hv => ?_
    exact .pure fun later hlater => ⟨hv.mono hlater, .nil⟩
  | .scalar s, hx => .pure fun _ _ => ⟨s.allows hx, .nil⟩

/-- The cells of a list. -/
theorem Items.yields {base : Scope} (hc : c.MadeOf T) : (x : Items) → (∀ t ∈ x.tokens, t.MadeOf T) →
    Yields base (x.cells c) fun scope cells => ∀ cell ∈ cells, cell.Among scope T
  | .nil, _ => .pure fun _ _ _ hcell => absurd hcell List.not_mem_nil
  | .cons o rest, hx => by
    have ho : ∀ t ∈ o.tokens, t.MadeOf T := fun t ht => hx t (List.mem_append_left _ ht)
    have hrest : ∀ t ∈ rest.tokens, t.MadeOf T := fun t ht => hx t (List.mem_append_right _ ht)
    refine .bind (o.yields hc ho) fun scope hbase a ha => ?_
    refine .bind (.anonymous T) fun scope' hscope n hn => ?_
    refine .bind (rest.yields hc hrest) fun scope'' hscope' cells hcells => ?_
    refine .pure fun later hlater => List.forall_mem_cons.mpr ⟨?_, fun cell hcell => ?_⟩
    · have hpast := hscope'.trans hlater
      exact ⟨ha.2.mono (hscope.trans hpast), ha.1.mono (hscope.trans hpast), hn.mono hpast⟩
    · exact (hcells cell hcell).mono hlater

/-- The statements with these objects. -/
theorem Objects.yields {base : Scope} {subject : Node} {predicate : Iri} (hc : c.MadeOf T)
    (hs : base.Allows T subject.toTerm) (hp : base.Allows T (.iri predicate)) :
    (x : Objects) → (∀ t ∈ x.tokens, t.MadeOf T) →
    Yields base (x.meaning c subject predicate) fun scope stmts => scope.Bears T stmts
  | .one o, hx => by
    refine .bind (o.yields hc hx) fun scope hbase a ha => ?_
    refine .pure fun later hlater => (ha.2.mono hlater).append (.cons ?_ .nil)
    exact triple_among (hs.mono (hbase.trans hlater)) (hp.mono (hbase.trans hlater))
      (ha.1.mono hlater)
  | .more o comma rest, hx => by
    have ho : ∀ t ∈ o.tokens, t.MadeOf T := fun t ht => hx t (List.mem_append_left _ ht)
    have hrest : ∀ t ∈ rest.tokens, t.MadeOf T :=
      fun t ht => hx t (List.mem_append_right _ (List.mem_cons_of_mem _ ht))
    refine .bind (o.yields hc ho) fun scope hbase a ha => ?_
    refine .bind (rest.yields hc (hs.mono hbase) (hp.mono hbase) hrest)
      fun scope' hscope stmts hstmts => ?_
    refine .pure fun later hlater => ?_
    have hpast := hscope.trans hlater
    refine (ha.2.mono hpast).append (.cons ?_ (hstmts.mono hlater))
    exact triple_among (hs.mono (hbase.trans hpast)) (hp.mono (hbase.trans hpast))
      (ha.1.mono hpast)

/-- The statements with these predicates and objects. -/
theorem Properties.yields {base : Scope} {subject : Node} (hc : c.MadeOf T)
    (hs : base.Allows T subject.toTerm) : (x : Properties) → (∀ t ∈ x.tokens, t.MadeOf T) →
    Yields base (x.meaning c subject) fun scope stmts => scope.Bears T stmts
  | .last v os semicolons, hx => by
    have hv : ∀ t ∈ v.tokens, t.MadeOf T := fun t ht => hx t (by simp [Properties.tokens, ht])
    have hos : ∀ t ∈ os.tokens, t.MadeOf T := fun t ht => hx t (by simp [Properties.tokens, ht])
    refine .bind (v.yields hc hv) fun scope hbase p hp => ?_
    exact os.yields hc (hs.mono hbase) hp hos
  | .more v os semicolon semicolons rest, hx => by
    have hv : ∀ t ∈ v.tokens, t.MadeOf T := fun t ht => hx t (by simp [Properties.tokens, ht])
    have hos : ∀ t ∈ os.tokens, t.MadeOf T := fun t ht => hx t (by simp [Properties.tokens, ht])
    have hrest : ∀ t ∈ rest.tokens, t.MadeOf T := fun t ht => hx t (by simp [Properties.tokens, ht])
    refine .bind (v.yields hc hv) fun scope hbase p hp => ?_
    refine .bind (os.yields hc (hs.mono hbase) hp hos) fun scope' hscope stmts hstmts => ?_
    refine .bind (rest.yields hc (hs.mono (hbase.trans hscope)) hrest)
      fun scope'' hscope' more hmore => ?_
    exact .pure fun later hlater => (hstmts.mono (hscope'.trans hlater)).append (hmore.mono hlater)

end

/-! ### Documents -/

theorem Subject.yields {x : Subject} (hc : c.MadeOf T) (hx : ∀ t ∈ x.tokens, t.MadeOf T) :
    Yields base (x.meaning c) fun scope a => scope.Allows T a.1.toTerm ∧ scope.Bears T a.2 := by
  cases x with
  | name n =>
    refine .bind (n.yields hc hx) fun scope hbase i hi => ?_
    exact .pure fun later hlater => ⟨hi.mono hlater, .nil⟩
  | label t =>
    have hlabel := (hx t.1 (List.mem_singleton_self _)).label t.2
    refine .bind (.labelled T hlabel) fun scope hbase n hn => ?_
    exact .pure fun later hlater => ⟨hn.mono hlater, .nil⟩
  | list opening items closing =>
    have hinner : ∀ t ∈ items.tokens, t.MadeOf T := fun t ht => hx t (by simp [Subject.tokens, ht])
    refine .bind (items.yields hc hinner) fun scope hbase cells hcells => ?_
    exact .pure fun later hlater =>
      bears_spellList fun cell hcell => (hcells cell hcell).mono hlater

theorem Triples.yields {x : Triples} (hc : c.MadeOf T) (hx : ∀ t ∈ x.tokens, t.MadeOf T) :
    Yields base (x.meaning c) fun scope stmts => scope.Bears T stmts := by
  cases x with
  | subject s ps =>
    have hs : ∀ t ∈ s.tokens, t.MadeOf T := fun t ht => hx t (List.mem_append_left _ ht)
    have hps : ∀ t ∈ ps.tokens, t.MadeOf T := fun t ht => hx t (List.mem_append_right _ ht)
    refine .bind (s.yields hc hs) fun scope hbase a ha => ?_
    refine .bind (ps.yields hc ha.1 hps) fun scope' hscope stmts hstmts => ?_
    exact .pure fun later hlater => (ha.2.mono (hscope.trans hlater)).append (hstmts.mono hlater)
  | properties opening inner closing =>
    have hinner : ∀ t ∈ inner.tokens, t.MadeOf T := fun t ht => hx t (by simp [Triples.tokens, ht])
    exact .bind (.anonymous T) fun scope hbase n hn => inner.yields hc hn hinner
  | both opening inner closing outer =>
    have hinner : ∀ t ∈ inner.tokens, t.MadeOf T := fun t ht => hx t (by simp [Triples.tokens, ht])
    have houter : ∀ t ∈ outer.tokens, t.MadeOf T := fun t ht => hx t (by simp [Triples.tokens, ht])
    refine .bind (.anonymous T) fun scope hbase n hn => ?_
    refine .bind (inner.yields hc hn hinner) fun scope' hscope stmts hstmts => ?_
    refine .bind (outer.yields hc (hn.mono hscope) houter) fun scope'' hscope' more hmore => ?_
    exact .pure fun later hlater => (hstmts.mono (hscope'.trans hlater)).append (hmore.mono hlater)
  | brackets opening closing ps =>
    have hps : ∀ t ∈ ps.tokens, t.MadeOf T := fun t ht => hx t (by simp [Triples.tokens, ht])
    exact .bind (.anonymous T) fun scope hbase n hn => ps.yields hc hn hps

/-- A directive puts texts of the class in front of others. -/
theorem Directive.effect_madeOf {x : Directive} (hc : c.MadeOf T) (hx : ∀ t ∈ x.tokens, t.MadeOf T) :
    (x.effect c).MadeOf T := by
  cases x with
  | declare word name iri stop =>
    have hiri := iri.resolve_madeOf hc fun t ht => hx t (by simp [Directive.tokens, ht])
    exact ⟨List.forall_mem_cons.mpr ⟨hiri, hc.prefixes⟩, hc.base⟩
  | bareDeclare word name iri =>
    have hiri := iri.resolve_madeOf hc fun t ht => hx t (by simp [Directive.tokens, ht])
    exact ⟨List.forall_mem_cons.mpr ⟨hiri, hc.prefixes⟩, hc.base⟩
  | base word iri stop =>
    exact ⟨hc.prefixes, iri.resolve_madeOf hc fun t ht => hx t (by simp [Directive.tokens, ht])⟩
  | bareBase word iri =>
    exact ⟨hc.prefixes, iri.resolve_madeOf hc fun t ht => hx t (by simp [Directive.tokens, ht])⟩

theorem Block.effect_madeOf {x : Block} (hc : c.MadeOf T) (hx : ∀ t ∈ x.tokens, t.MadeOf T) :
    (x.effect c).MadeOf T := by
  cases x with
  | directive d => exact d.effect_madeOf hc hx
  | triples t stop => exact hc

theorem Block.yields {x : Block} (hc : c.MadeOf T) (hx : ∀ t ∈ x.tokens, t.MadeOf T) :
    Yields base (x.meaning c) fun scope stmts => scope.Bears T stmts := by
  cases x with
  | directive d => exact .pure fun _ _ => .nil
  | triples t stop => exact t.yields hc fun u hu => hx u (List.mem_append_left _ hu)

/-- **A document made of texts of a class has valid statements made of them**, with labels that were
drawn for it. -/
theorem Document.yields {d : Document} (hc : c.MadeOf T) (hd : ∀ t ∈ d.tokens, t.MadeOf T) :
    Yields base (d.meaning c) fun scope stmts => scope.Bears T stmts := by
  induction d generalizing c base with
  | nil => exact .pure fun _ _ => .nil
  | cons block d ih =>
    have hblock : ∀ t ∈ block.tokens, t.MadeOf T := fun t ht => hd t (List.mem_append_left _ ht)
    have hrest : ∀ t ∈ tokens d, t.MadeOf T := fun t ht => hd t (List.mem_append_right _ ht)
    refine .bind (block.yields hc hblock) fun scope hbase stmts hstmts => ?_
    refine .bind (ih (block.effect_madeOf hc hblock) hrest) fun scope' hscope more hmore => ?_
    exact .pure fun later hlater => (hstmts.mono (hscope.trans hlater)).append (hmore.mono hlater)

end Turtle

/-! ### Texts -/

/-- A text that is read in either format has the tokens of a document of Turtle. -/
theorem Format.exists_document {format : Format} {text : Text} {supply left : Supply}
    {stmts : List Statement} (h : (format.read text supply).collect = (.ok stmts, left)) :
    ∃ (d : Turtle.Document) (scope : Scope), (Lexer.start .turtle text).Reads d.tokens ∧
      (d.meaning {}).run ⟨{}, supply⟩ = some (stmts, ⟨scope, left⟩) := by
  cases format with
  | ntriples =>
    obtain ⟨d, scope, hreads, hm⟩ := NTriples.exists_document_of_parse h
    refine ⟨d.inTurtle, scope, ?_, NTriples.Document.meaning_inTurtle hm⟩
    rw [d.tokens_inTurtle]
    exact hreads.inTurtle (Lexer.mirrors_start text) d.orderly
  | turtle =>
    obtain ⟨d, hreads, hd⟩ := Turtle.exists_document_of_parse h
    obtain ⟨scope, hm⟩ := Turtle.Document.denotes_eq_some.mp hd
    exact ⟨d, scope, hreads, hm⟩

/-- **The statements of a text in UTF-8 can be written down**, and their labels were drawn for the
text, those of one label of the text only once. -/
theorem Format.exists_holds {format : Format} {text : Text} {supply left : Supply}
    {stmts : List Statement} (hutf8 : isWellFormed text = true)
    (h : (format.read text supply).collect = (.ok stmts, left)) :
    ∃ scope : Scope, scope.Plain ∧ scope.Holds stmts := by
  obtain ⟨d, scope, hreads, hm⟩ := Format.exists_document h
  have hmade : ∀ t ∈ d.tokens, t.MadeOf .utf8 := fun t ht => (hreads.plain hutf8 t ht).madeOf
  obtain ⟨hscope, -, hstmts⟩ := Turtle.Document.yields Turtle.Context.madeOf_empty hmade ⟨{}, supply⟩
    stmts ⟨scope, left⟩ (.refl {}) Scope.plain_empty hm
  exact ⟨scope, hscope, fun s hs => (hstmts s hs).within⟩

end TripleStore
