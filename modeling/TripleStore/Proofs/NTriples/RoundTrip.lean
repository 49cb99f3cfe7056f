import TripleStore.Proofs.Blank.Relabelling
import TripleStore.Proofs.NTriples.Grammar
import TripleStore.Proofs.NTriples.Writer
import TripleStore.Proofs.Term.RoundTrip
import TripleStore.Proofs.Token.Modes

/-!
# Statements written and read back

The lines of statements are followed through the lexer.  A space behind a term ends it, whatever the
term is, so the tokens of a line are those of its terms and the full stop; a line feed and the
beginning of the next line are told apart from them.  What comes back are the statements without
their graphs and with their labels replaced by one map.

* `Lexer.Passes`: tokens that a lexer gives on its way to another place.
* `exists_line`: the tokens of the line of a statement.
* `exists_document`: the tokens of the lines of statements.
* `parse_write`: **what is written is read back.**
-/

namespace TripleStore

/-! ### Terms with a space behind them -/

namespace Scanner

/-- A label ends at a space. -/
theorem nameLength_space {l : Text} (hname : ∀ c ∈ Utf8.scalars l, isNameScalar c = true ∨ c = 46)
    (hlast : l.getLast? ≠ some Ascii.dot) (rest : Text) {n best : ℕ} (hbest : l = [] → best = n) :
    nameLength false 0 n best (l ++ Ascii.space :: rest) = n + l.length := by
  induction l using Utf8.sequence_induction generalizing n best with
  | nil =>
    have hspace : Utf8.Spells 32 [Ascii.space] := Utf8.Spells.one (a := 32) (by decide)
    rw [hbest rfl]
    exact nameLength_other hspace (by decide) (by decide) n n rest
  | spelled c s t hs ih =>
    rw [hs.scalars_append] at hname
    have hname' : ∀ c ∈ Utf8.scalars t, isNameScalar c = true ∨ c = 46 :=
      fun d hd => hname d (List.mem_cons_of_mem c hd)
    have hlast' : t.getLast? ≠ some Ascii.dot := by
      intro hdot
      rw [List.getLast?_append, hdot] at hlast
      exact hlast rfl
    rw [List.append_assoc, List.length_append, ← Nat.add_assoc]
    rcases hname c List.mem_cons_self with hc | rfl
    · rw [nameLength_name hs hc]
      exact ih hname' hlast' (fun _ => rfl)
    · rcases hs.ascii_or_high with ⟨-, rfl⟩ | ⟨hhigh, -⟩
      · -- the dot belongs to the label because something follows it there
        have hne : t ≠ [] := by
          rintro rfl
          exact hlast rfl
        have hstep := nameLength_dot n best (t ++ Ascii.space :: rest)
        exact hstep.trans (ih hname' hlast' fun hnil => absurd hnil hne)
      · omega
  | stray a t hs ih =>
    rw [Utf8.scalars_stray hs] at hname
    exact absurd (hname _ List.mem_cons_self) (by decide)

theorem scan_label_space {l : Text} (hname : ∀ c ∈ Utf8.scalars l, isNameScalar c = true ∨ c = 46)
    (hlast : l.getLast? ≠ some Ascii.dot) (after : Bool) (rest : Text) :
    scan .ntriples after Ascii.underscore (Ascii.colon :: (l ++ Ascii.space :: rest))
      = .ok ⟨.blankNodeLabel, Ascii.underscore :: Ascii.colon :: l, l.length + 2, false⟩ := by
  have hsize : nameLength false 0 2 2 (l ++ Ascii.space :: rest) = l.length + 2 :=
    (nameLength_space hname hlast rest fun _ => rfl).trans (Nat.add_comm _ _)
  have hlabel : (Ascii.underscore :: Ascii.colon :: (l ++ Ascii.space :: rest)).take (l.length + 2)
      = Ascii.underscore :: Ascii.colon :: l := by
    rw [List.take_succ_cons, List.take_succ_cons, List.take_left]
  rw [scan_label, blankLabel]
  simp only [List.drop_succ_cons, List.drop_zero, hsize, hlabel]

theorem scan_tag_space {tag : Text} (htag : ∀ b ∈ tag, isTagByte b = true) (hne : tag ≠ [])
    (after : Bool) (rest : Text) :
    scan .ntriples after Ascii.atSign (tag ++ Ascii.space :: rest)
      = .ok ⟨.langTag, tag, tag.length + 1, false⟩ := by
  have hword : (tag ++ Ascii.space :: rest).takeWhile isTagByte = tag := by
    rw [List.takeWhile_append_of_pos htag, List.takeWhile_cons, if_neg (by decide), List.append_nil]
  show afterAt .ntriples after (tag ++ Ascii.space :: rest) = _
  simp only [afterAt, hword, List.isEmpty_iff, hne, reduceCtorEq, false_and, if_false]

theorem scan_stop (after : Bool) (rest : Text) :
    scan .ntriples after Ascii.dot rest = .ok (single .period Ascii.dot) := rfl

end Scanner

/-! ### From one place to another -/

namespace Lexer

variable {l l' l'' : Lexer}

/-- The lexer gives the tokens `ts` on its way to `l'`. -/
def Passes (l : Lexer) (ts : List Token) (l' : Lexer) : Prop :=
  ∀ us, l'.Reads us → l.Reads (ts ++ us)

theorem Passes.trans {ts us : List Token} (h : l.Passes ts l') (h' : l'.Passes us l'') :
    l.Passes (ts ++ us) l'' := by
  intro vs hvs
  rw [List.append_assoc]
  exact h _ (h' _ hvs)

/-- A lexer of N-Triples in front of a text, white space left out. -/
structure At (l : Lexer) (text : Text) : Prop where
  mode : l.mode = .ntriples
  rest : l.skipBlank.rest = text

theorem At.start {text : Text} (h : blankLength false text = 0) : (start .ntriples text).At text := by
  refine ⟨rfl, ?_⟩
  rw [skipBlank, advance, Lexer.start, h, List.drop_zero]

/-- A token that the text begins with is given, and the lexer goes on behind it. -/
theorem At.scan {k : Kind} (hk : k ≠ .eof) {b : UInt8} {rest text : Text} {size : ℕ} {bare : Bool}
    (h : l.At (b :: rest))
    (hx : ∀ after, Scanner.scan .ntriples after b rest = .ok ⟨k, text, size, bare⟩) :
    ∃ (t : Leaf k) (l' : Lexer), l.Passes [t.1] l' ∧ t.1.text = text ∧ l'.mode = .ntriples ∧
      l'.rest = (b :: rest).drop size := by
  have hscan : Scanner.scan l.mode l.afterString b rest = .ok ⟨k, text, size, bare⟩ := by
    rw [h.mode]
    exact hx _
  refine ⟨⟨⟨k, text, l.skipBlank.position, bare⟩, rfl⟩,
    { l.skipBlank.advance size with last := some k }, ?_, rfl, h.mode, ?_⟩
  · intro us hus
    exact .token (next_scan h.rest hscan) hk hus
  · rw [advance, h.rest]

theorem at_of_rest {text : Text} (hmode : l.mode = .ntriples) (hrest : l.rest = text)
    (h : blankLength false text = 0) : l.At text := by
  refine ⟨hmode, ?_⟩
  rw [skipBlank, advance, hrest, h, List.drop_zero]

/-- White space in front of a text that begins with none is left out. -/
theorem at_of_blank {b : UInt8} {text : Text} (hmode : l.mode = .ntriples)
    (hrest : l.rest = b :: text) (hb : b = Ascii.space ∨ b = Ascii.lineFeed)
    (h : blankLength false text = 0) : l.At text := by
  have hone : blankLength false (b :: text) = 1 := by
    rcases hb with rfl | rfl
    all_goals
      rw [blankLength, if_pos (by decide), h]
  refine ⟨hmode, ?_⟩
  rw [skipBlank, advance, hrest, hone, List.drop_one, List.tail_cons]

end Lexer

namespace NTriples

variable {l : Lexer} {tail : Text}

/-! ### The tokens of terms -/

theorem exists_iri {i : Iri} (hid : isIdentifier i = true)
    (hback : Render.readBack Render.iriEscape? i = i) (h : l.At (renderIri i ++ tail)) :
    ∃ (t : Leaf .iriRef) (l' : Lexer), l.Passes [t.1] l' ∧ t.1.text = i ∧ l'.mode = .ntriples ∧
      l'.rest = tail := by
  rw [renderIri_eq, List.cons_append, List.append_assoc, List.singleton_append] at h
  obtain ⟨t, l', hpasses, htext, hmode, hrest⟩ := h.scan (by decide)
    (fun after => Scanner.scan_iri (isForbidden_of_isIdentifier hid) after tail)
  refine ⟨t, l', hpasses, htext.trans hback, hmode, hrest.trans ?_⟩
  rw [List.drop_succ_cons, List.drop_append, List.drop_eq_nil_of_le (by omega), List.nil_append]
  rw [Nat.add_sub_cancel_left]
  rfl

theorem exists_label {label : Text}
    (hname : ∀ c ∈ Utf8.scalars label, Scanner.isNameScalar c = true ∨ c = 46)
    (hlast : label.getLast? ≠ some Ascii.dot)
    (h : l.At (Ascii.underscore :: Ascii.colon :: (label ++ Ascii.space :: tail))) :
    ∃ (t : Leaf .blankNodeLabel) (l' : Lexer), l.Passes [t.1] l' ∧ t.1.text.drop 2 = label ∧
      l'.mode = .ntriples ∧ l'.rest = Ascii.space :: tail := by
  obtain ⟨t, l', hpasses, htext, hmode, hrest⟩ := h.scan (by decide)
    (fun after => Scanner.scan_label_space hname hlast after tail)
  refine ⟨t, l', hpasses, by rw [htext]; rfl, hmode, hrest.trans ?_⟩
  rw [List.drop_succ_cons, List.drop_succ_cons, List.drop_left]

theorem exists_string {v : Text} (hback : Render.readBack Render.literalEscape? v = v)
    (h : l.At (Ascii.quote :: (escapeLiteral v ++ Ascii.quote :: tail))) :
    ∃ (t : Leaf .stringLiteral) (l' : Lexer), l.Passes [t.1] l' ∧ t.1.text = v ∧
      l'.mode = .ntriples ∧ l'.rest = tail := by
  obtain ⟨t, l', hpasses, htext, hmode, hrest⟩ := h.scan (by decide)
    (fun after => Scanner.scan_string v after tail)
  refine ⟨t, l', hpasses, htext.trans hback, hmode, hrest.trans ?_⟩
  rw [List.drop_succ_cons, List.drop_append, List.drop_eq_nil_of_le (by omega), List.nil_append]
  rw [Nat.add_sub_cancel_left]
  rfl

theorem exists_tag {tag : Text} (htag : isLanguageTag tag = true)
    (h : l.At (Ascii.atSign :: (tag ++ Ascii.space :: tail))) :
    ∃ (t : Leaf .langTag) (l' : Lexer), l.Passes [t.1] l' ∧ t.1.text = tag ∧
      l'.mode = .ntriples ∧ l'.rest = Ascii.space :: tail := by
  obtain ⟨hne, hbytes⟩ := isTagByte_of_isLanguageTag htag
  obtain ⟨t, l', hpasses, htext, hmode, hrest⟩ := h.scan (by decide)
    (fun after => Scanner.scan_tag_space hbytes hne after tail)
  refine ⟨t, l', hpasses, htext, hmode, hrest.trans ?_⟩
  rw [List.drop_succ_cons, List.drop_left]

theorem exists_typeTag (h : l.At (Ascii.caret :: Ascii.caret :: tail)) :
    ∃ (t : Leaf .typeTag) (l' : Lexer), l.Passes [t.1] l' ∧ l'.mode = .ntriples ∧
      l'.rest = tail := by
  obtain ⟨t, l', hpasses, -, hmode, hrest⟩ := h.scan (by decide)
    (fun after => Scanner.scan_typeTag after tail)
  exact ⟨t, l', hpasses, hmode, hrest⟩

theorem exists_stop (h : l.At (Ascii.dot :: tail)) :
    ∃ (t : Leaf .period) (l' : Lexer), l.Passes [t.1] l' ∧ l'.mode = .ntriples ∧
      l'.rest = tail := by
  obtain ⟨t, l', hpasses, -, hmode, hrest⟩ := h.scan (by decide)
    (fun after => Scanner.scan_stop after tail)
  exact ⟨t, l', hpasses, hmode, hrest⟩

/-- The tokens of a subject that is read back. -/
theorem exists_subject (n : Node) (hn : parseTerm n.render = .ok n.toTerm)
    (h : l.At (n.render ++ Ascii.space :: tail)) :
    ∃ (x : Subject) (l' : Lexer), l.Passes x.tokens l' ∧ l'.mode = .ntriples ∧
      l'.rest = Ascii.space :: tail ∧ ∀ labels, x.meaning.run labels = some (labels.node n) := by
  have hvalid := parseTerm_valid hn
  cases n with
  | iri i =>
    have hid := Term.violation?_iri.mp hvalid
    obtain ⟨t, l', hpasses, rfl, hmode, hrest⟩ :=
      exists_iri hid ((parseTerm_iri_iff hid).mp hn) h
    refine ⟨.iri t, l', hpasses, hmode, hrest, fun labels => ?_⟩
    exact Meaning.run_bind_eq_some.mpr
      ⟨_, _, Meaning.run_valid_eq_some.mpr ⟨hid, rfl, rfl⟩, rfl⟩
  | blank label =>
    have hid := Term.violation?_blank.mp hvalid
    obtain ⟨hname, hlast⟩ := (parseTerm_blank_iff hid).mp hn
    obtain ⟨t, l', hpasses, rfl, hmode, hrest⟩ := exists_label hname hlast h
    refine ⟨.label t, l', hpasses, hmode, hrest, fun labels => ?_⟩
    exact Meaning.run_labelled_eq_some.mpr ⟨hid, rfl, rfl⟩

/-- The tokens of an object that is read back. -/
theorem exists_object (u : Term) (hu : parseTerm u.render = .ok u)
    (h : l.At (u.render ++ Ascii.space :: tail)) :
    ∃ (x : Object) (l' : Lexer), l.Passes x.tokens l' ∧ l'.mode = .ntriples ∧
      l'.rest = Ascii.space :: tail ∧ ∀ labels, x.meaning.run labels = some (labels.term u) := by
  have hvalid := parseTerm_valid hu
  cases u with
  | iri i =>
    have hid := Term.violation?_iri.mp hvalid
    obtain ⟨t, l', hpasses, rfl, hmode, hrest⟩ :=
      exists_iri hid ((parseTerm_iri_iff hid).mp hu) h
    refine ⟨.iri t, l', hpasses, hmode, hrest, fun labels => ?_⟩
    exact Meaning.run_bind_eq_some.mpr
      ⟨_, _, Meaning.run_valid_eq_some.mpr ⟨hid, rfl, rfl⟩, rfl⟩
  | blank label =>
    have hid := Term.violation?_blank.mp hvalid
    obtain ⟨hname, hlast⟩ := (parseTerm_blank_iff hid).mp hu
    obtain ⟨t, l', hpasses, rfl, hmode, hrest⟩ := exists_label hname hlast h
    refine ⟨.label t, l', hpasses, hmode, hrest, fun labels => ?_⟩
    exact Meaning.run_bind_eq_some.mpr
      ⟨_, _, Meaning.run_labelled_eq_some.mpr ⟨hid, rfl, rfl⟩, rfl⟩
  | lang v tag =>
    have htag := Term.violation?_lang.mp hvalid
    have hback := (parseTerm_lang_iff htag).mp hu
    rw [Term.render_lang, List.cons_append, List.append_assoc, List.cons_append,
      List.cons_append] at h
    obtain ⟨t, l₁, hpasses, rfl, hmode, hrest⟩ := exists_string hback h
    obtain ⟨t', l', hpasses', rfl, hmode', hrest'⟩ :=
      exists_tag htag (Lexer.at_of_rest hmode hrest rfl)
    refine ⟨.string t (.tag t'), l', hpasses.trans hpasses', hmode', hrest', fun labels => ?_⟩
    exact Meaning.run_tagged_eq_some.mpr ⟨htag, rfl, rfl⟩
  | typed v d =>
    have hid := Term.violation?_typed.mp hvalid
    obtain ⟨hdatatype, hback⟩ := (parseTerm_typed_iff hid).mp hu
    by_cases hd : d = Vocabulary.string
    · -- the datatype of plain strings is not written
      subst hd
      rw [Term.render_plain, List.cons_append, List.append_assoc, List.singleton_append] at h
      obtain ⟨t, l', hpasses, rfl, hmode, hrest⟩ := exists_string hback h
      exact ⟨.string t .none, l', hpasses, hmode, hrest, fun labels => rfl⟩
    · rw [Term.render_typed v hd, ← renderIri_eq, List.cons_append, List.append_assoc,
        List.cons_append, List.cons_append, List.cons_append] at h
      obtain ⟨t, l₁, hpasses, rfl, hmode, hrest⟩ := exists_string hback h
      obtain ⟨mark, l₂, hpasses₁, hmode₁, hrest₁⟩ :=
        exists_typeTag (Lexer.at_of_rest hmode hrest rfl)
      obtain ⟨t', l', hpasses₂, rfl, hmode₂, hrest₂⟩ :=
        exists_iri hid hdatatype (Lexer.at_of_rest hmode₁ hrest₁ rfl)
      refine ⟨.string t (.datatype mark t'), l', hpasses.trans (hpasses₁.trans hpasses₂), hmode₂,
        hrest₂, fun labels => ?_⟩
      exact Meaning.run_bind_eq_some.mpr
        ⟨_, _, Meaning.run_valid_eq_some.mpr ⟨hid, rfl, rfl⟩, rfl⟩

/-! ### The tokens of statements -/

/-- The terms of a statement are read back. -/
structure ReadBack (s : Statement) : Prop where
  subject : parseTerm s.subject.render = .ok s.subject.toTerm
  predicate : parseTerm (Term.iri s.predicate).render = .ok (.iri s.predicate)
  object : parseTerm s.object.render = .ok s.object

/-- No term begins with white space or a comment. -/
theorem blankLength_render (t : Term) (tail : Text) : blankLength false (t.render ++ tail) = 0 := by
  cases t with
  | iri i => rfl
  | blank label => rfl
  | lang v tag =>
    rw [Term.render_lang]
    rfl
  | typed v d =>
    rw [Term.render, List.append_assoc, List.append_assoc]
    rfl

theorem renderTriple_append (s : Statement) (tail : Text) :
    s.renderTriple ++ tail = s.subject.render ++ Ascii.space ::
      ((Term.iri s.predicate).render ++ Ascii.space ::
        (s.object.render ++ Ascii.space :: Ascii.dot :: tail)) := by
  show s.subject.render ++ [Ascii.space] ++ (Term.iri s.predicate).render ++ [Ascii.space]
    ++ s.object.render ++ [Ascii.space, Ascii.dot] ++ tail = _
  simp only [List.append_assoc, List.cons_append, List.nil_append]

/-- The tokens of the line of a statement. -/
theorem exists_line {s : Statement} (hs : ReadBack s) (h : l.At (s.renderTriple ++ tail)) :
    ∃ (line : Line) (l' : Lexer), l.Passes line.tokens l' ∧ l'.mode = .ntriples ∧ l'.rest = tail ∧
      ∀ labels, line.meaning.run labels = some (labels.statement s) := by
  have hid := Term.violation?_iri.mp (parseTerm_valid hs.predicate)
  rw [renderTriple_append] at h
  obtain ⟨subject, l₁, hpasses₁, hmode₁, hrest₁, hsubject⟩ := exists_subject _ hs.subject h
  have hat₁ := Lexer.at_of_blank hmode₁ hrest₁ (.inl rfl) (blankLength_render (.iri s.predicate) _)
  obtain ⟨predicate, l₂, hpasses₂, hpredicate, hmode₂, hrest₂⟩ :=
    exists_iri hid ((parseTerm_iri_iff hid).mp hs.predicate) hat₁
  have hat₂ := Lexer.at_of_blank hmode₂ hrest₂ (.inl rfl) (blankLength_render s.object _)
  obtain ⟨object, l₃, hpasses₃, hmode₃, hrest₃, hobject⟩ := exists_object _ hs.object hat₂
  have hat₃ := Lexer.at_of_blank hmode₃ hrest₃ (.inl rfl) rfl
  obtain ⟨stop, l₄, hpasses₄, hmode₄, hrest₄⟩ := exists_stop hat₃
  refine ⟨⟨subject, predicate, object, stop⟩, l₄,
    hpasses₁.trans (hpasses₂.trans (hpasses₃.trans hpasses₄)), hmode₄, hrest₄, fun labels => ?_⟩
  refine Meaning.run_bind_eq_some.mpr ⟨_, _, hsubject labels, ?_⟩
  refine Meaning.run_bind_eq_some.mpr
    ⟨_, _, Meaning.run_valid_eq_some.mpr ⟨hpredicate ▸ hid, rfl, rfl⟩, ?_⟩
  refine Meaning.run_bind_eq_some.mpr ⟨_, _, hobject _, ?_⟩
  rw [hpredicate]
  rfl

/-- The lines of statements do not begin with white space or a comment. -/
theorem blankLength_lines (stmts : List Statement) :
    blankLength false (render (stmts.map Statement.toDraft)) = 0 := by
  cases stmts with
  | nil => rfl
  | cons s stmts =>
    rw [List.map_cons, render, List.flatMap_cons, List.append_assoc]
    exact (congrArg _ (renderTriple_append s _)).trans (blankLength_render s.subject.toTerm _)

/-- The tokens of the lines of statements. -/
theorem exists_document {stmts : List Statement} (hs : ∀ s ∈ stmts, ReadBack s)
    (h : l.At (render (stmts.map Statement.toDraft))) :
    ∃ d : Document, l.Reads d.tokens ∧
      ∀ labels, d.meaning.run labels = some (labels.statements stmts) := by
  induction stmts generalizing l with
  | nil =>
    have hend := Lexer.next_end h.rest
    exact ⟨[], .done hend rfl, fun labels => rfl⟩
  | cons s stmts ih =>
    rw [List.map_cons, render, List.flatMap_cons, List.append_assoc, List.singleton_append] at h
    obtain ⟨line, l', hpasses, hmode, hrest, hline⟩ := exists_line (hs s List.mem_cons_self) h
    have hat := Lexer.at_of_blank hmode hrest (.inr rfl) (blankLength_lines stmts)
    obtain ⟨d, hreads, hd⟩ := ih (fun s' hs' => hs s' (List.mem_cons_of_mem s hs')) hat
    refine ⟨line :: d, ?_, fun labels => ?_⟩
    · rw [Document.tokens_cons]
      exact hpasses _ hreads
    · refine Meaning.run_bind_eq_some.mpr ⟨_, _, hline labels, ?_⟩
      exact Meaning.run_bind_eq_some.mpr ⟨_, _, hd _, rfl⟩

/-- The lines of statements are read with the labels replaced one after the other. -/
theorem parse_render {stmts : List Statement} (hs : ∀ s ∈ stmts, ReadBack s) (supply : Supply) :
    parse (render (stmts.map Statement.toDraft)) supply
      = (.ok (Labels.statements ⟨{}, supply⟩ stmts).1,
          (Labels.statements ⟨{}, supply⟩ stmts).2.supply) := by
  obtain ⟨d, hreads, hd⟩ := exists_document hs (Lexer.At.start (blankLength_lines stmts))
  exact parse_of_document hreads (hd ⟨{}, supply⟩)

/-- **What is written is read back.**  All statements are written to a sink that takes everything,
and reading gives them without their graphs, in their order, with every label replaced by one
injective map that puts a number behind it. -/
theorem parse_write {stmts : List Statement} (hs : ∀ s ∈ stmts, ReadBack s) (supply : Supply) :
    (write ⟨none, []⟩ (stmts.map Statement.toDraft)).count = stmts.length ∧
      (write ⟨none, []⟩ (stmts.map Statement.toDraft)).error = none ∧
      ∃ (f : Text → Text) (supply' : Supply), Function.Injective f ∧
        (∀ label, ∃ n : UInt64, f label = label ++ "_" ++ Text.ofNat n.toNat) ∧
        parse (write ⟨none, []⟩ (stmts.map Statement.toDraft)).sink.taken supply
          = (.ok (stmts.map (Statement.mapLabels f)), supply') := by
  rw [write_unlimited]
  refine ⟨List.length_map _, rfl, ?_⟩
  have hnumbered := (Labels.statements_goes ⟨{}, supply⟩ stmts).numbered Scope.numbered_empty
  have hread := parse_render hs supply
  rw [Labels.statements_eq _ stmts (Scope.Keeps.refl _)] at hread
  exact ⟨_, _, hnumbered.naming_injective, hnumbered.naming_eq, hread⟩

/-- Two statements that share a label, one of them in a graph. -/
theorem parse_write_shared :
    ∃ (f : Text → Text) (supply' : Supply), Function.Injective f ∧
      (∀ label, ∃ n : UInt64, f label = label ++ "_" ++ Text.ofNat n.toNat) ∧
      parse (write ⟨none, []⟩ [⟨some (.blank "a.b"), "p", some (.lang "\"#\n" "en"), none⟩,
          ⟨some (.iri "x:s"), "p", some (.blank "a.b"), some (.iri "x:g")⟩]).sink.taken {}
        = (.ok [⟨.blank (f "a.b"), "p", .lang "\"#\n" "en", none⟩,
            ⟨.iri "x:s", "p", .blank (f "a.b"), none⟩], supply') := by
  have hs : ∀ s ∈ ([⟨.blank "a.b", "p", .lang "\"#\n" "en", none⟩,
      ⟨.iri "x:s", "p", .blank "a.b", some (.iri "x:g")⟩] : List Statement), ReadBack s := by
    intro s hmem
    rcases List.mem_pair.mp hmem with rfl | rfl
    · exact ⟨by decide +kernel, by decide +kernel, by decide +kernel⟩
    · exact ⟨by decide +kernel, by decide +kernel, by decide +kernel⟩
  exact (parse_write hs {}).2.2

end NTriples

end TripleStore
