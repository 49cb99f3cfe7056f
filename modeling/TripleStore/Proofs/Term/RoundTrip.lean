import TripleStore.Key.Term
import TripleStore.Proofs.NTriples.Parser
import TripleStore.Proofs.Token.Scanner
import Mathlib.Data.List.TakeWhile

/-!
# Terms written and read back

The canonical text of a term is followed through the scanner, the token stream and the reader of
single terms.  What comes back is compared with what was written, for every term, valid or not.

* `Term.Legible` says which terms come back: those that break no rule, whose label the scanner takes
  in as a whole, and whose stray bytes stand in no text that needs an escape.
* `Term.read_back_iff_legible`: exactly these are read back from their text, and from the key and
  text that they are stored under.
-/

namespace TripleStore

theorem renderIri_eq (i : Iri) :
    renderIri i = Ascii.lessThan :: (escapeIri i ++ [Ascii.greaterThan]) := rfl

theorem Term.render_blank (l : Text) :
    (Term.blank l).render = Ascii.underscore :: Ascii.colon :: l := rfl

theorem Term.render_lang (v tag : Text) : (Term.lang v tag).render
    = Ascii.quote :: (escapeLiteral v ++ Ascii.quote :: Ascii.atSign :: tag) := by
  show Text.ofString "\"" ++ escapeLiteral v ++ Text.ofString "\"@" ++ tag = _
  rw [List.append_assoc, List.append_assoc]
  rfl

theorem Term.render_plain (v : Text) : (Term.typed v Vocabulary.string).render
    = Ascii.quote :: (escapeLiteral v ++ [Ascii.quote]) := by
  rw [Term.render, if_pos rfl, List.append_nil]
  rfl

theorem Term.render_typed (v : Text) {d : Iri} (hd : d ≠ Vocabulary.string) :
    (Term.typed v d).render
      = Ascii.quote :: (escapeLiteral v ++ Ascii.quote :: Ascii.caret :: Ascii.caret
          :: Ascii.lessThan :: (escapeIri d ++ [Ascii.greaterThan])) := by
  rw [Term.render, if_neg hd, renderIri_eq]
  show Text.ofString "\"" ++ escapeLiteral v ++ Text.ofString "\"" ++ _ = _
  rw [List.append_assoc, List.append_assoc]
  rfl

/-! ### The tokens of a term -/

namespace Scanner

theorem scan_iri {i : Iri} (hi : ∀ b ∈ i, isForbidden b = false) (after : Bool) (rest : Text) :
    scan .ntriples after Ascii.lessThan (escapeIri i ++ Ascii.greaterThan :: rest)
      = .ok ⟨.iriRef, Render.readBack Render.iriEscape? i, (escapeIri i).length + 2, false⟩ := by
  rw [scan, if_pos rfl, iri, iriBody_escapeIri hi]
  simp only [Except.map, reduceCtorEq, false_and, if_false]
  congr 2
  omega

theorem scan_string (v : Text) (after : Bool) (rest : Text) :
    scan .ntriples after Ascii.quote (escapeLiteral v ++ Ascii.quote :: rest)
      = .ok ⟨.stringLiteral, Render.readBack Render.literalEscape? v, (escapeLiteral v).length + 2,
          false⟩ := by
  rw [scan, if_neg (by decide), if_neg (fun h => absurd h.1 (by decide)), if_pos rfl, string,
    if_neg (fun h => nomatch h.1), stringBody_escapeLiteral]
  simp only [Except.map]
  congr 2
  omega

theorem scan_label (l : Text) (after : Bool) :
    scan .ntriples after Ascii.underscore (Ascii.colon :: l)
      = .ok (blankLabel (Ascii.underscore :: Ascii.colon :: l)) := by
  rw [scan, if_neg (by decide), if_pos ⟨rfl, rfl⟩]

theorem scan_typeTag (after : Bool) (rest : Text) :
    scan .ntriples after Ascii.caret (Ascii.caret :: rest) = .ok ⟨.typeTag, "^^", 2, false⟩ := rfl

theorem scan_tag {tag : Text} (htag : ∀ b ∈ tag, isTagByte b = true) (hne : tag ≠ [])
    (after : Bool) :
    scan .ntriples after Ascii.atSign tag = .ok ⟨.langTag, tag, tag.length + 1, false⟩ := by
  have hword : tag.takeWhile isTagByte = tag := List.takeWhile_eq_self_iff.mpr htag
  rw [scan, if_neg (by decide), if_neg (fun h => absurd h.1 (by decide)), if_neg (by decide),
    if_neg (fun h => absurd h.1 (by decide)), if_pos rfl, afterAt]
  simp only [hword, List.isEmpty_iff, hne, reduceCtorEq, false_and, if_false]

end Scanner

namespace TokenStream

theorem ofText_iri {i : Iri} (hi : ∀ b ∈ i, isForbidden b = false) :
    ∃ p, ofText .ntriples (renderIri i)
      = .token ⟨.iriRef, Render.readBack Render.iriEscape? i, .start, false⟩ (.done p) := by
  rw [renderIri_eq, ofText,
    ofLexer_scan (Nat.succ_pos _) rfl rfl (Scanner.scan_iri hi _ []) (by simp)]
  refine ⟨_, congrArg _ (ofLexer_nil ?_)⟩
  simp [Lexer.advance, Lexer.start]

theorem ofText_blank (l : Text) :
    ∃ rest, ofText .ntriples (Term.blank l).render
      = .token ⟨.blankNodeLabel, (Term.blank l).render.take (Scanner.nameLength false 0 2 2 l),
          .start, false⟩ rest ∧
        (Scanner.nameLength false 0 2 2 l = 2 + l.length → ∃ p, rest = .done p) := by
  rw [Term.render_blank, ofText,
    ofLexer_scan (Nat.succ_pos _) rfl rfl (Scanner.scan_label l _) (by simp [Scanner.blankLabel])]
  refine ⟨_, rfl, fun h => ⟨_, ofLexer_nil ?_⟩⟩
  simp only [Lexer.advance, Lexer.start, Scanner.blankLabel]
  rw [List.drop_eq_nil_iff]
  show _ ≤ Scanner.nameLength false 0 2 2 l
  rw [h]
  simp
  omega

theorem ofText_lang (v : Text) {tag : Text} (htag : ∀ b ∈ tag, Scanner.isTagByte b = true)
    (hne : tag ≠ []) : ∃ p q, ofText .ntriples (Term.lang v tag).render
      = .token ⟨.stringLiteral, Render.readBack Render.literalEscape? v, .start, false⟩
          (.token ⟨.langTag, tag, p, false⟩ (.done q)) := by
  rw [Term.render_lang, ofText,
    ofLexer_scan (Nat.succ_pos _) rfl rfl (Scanner.scan_string v _ _) (by simp),
    ofLexer_scan (b := Ascii.atSign) (by simp) (by simp [Lexer.advance, Lexer.start]) rfl
      (Scanner.scan_tag htag hne true) (by simp),
    ofLexer_nil (by simp [Lexer.advance, Lexer.start])]
  exact ⟨_, _, rfl⟩

theorem ofText_plain (v : Text) : ∃ p, ofText .ntriples (Term.typed v Vocabulary.string).render
      = .token ⟨.stringLiteral, Render.readBack Render.literalEscape? v, .start, false⟩
          (.done p) := by
  rw [Term.render_plain, ofText,
    ofLexer_scan (Nat.succ_pos _) rfl rfl (Scanner.scan_string v _ _) (by simp),
    ofLexer_nil (by simp [Lexer.advance, Lexer.start])]
  exact ⟨_, rfl⟩

theorem ofText_typed (v : Text) {d : Iri} (hd : ∀ b ∈ d, isForbidden b = false)
    (hne : d ≠ Vocabulary.string) : ∃ p q r, ofText .ntriples (Term.typed v d).render
      = .token ⟨.stringLiteral, Render.readBack Render.literalEscape? v, .start, false⟩
          (.token ⟨.typeTag, "^^", p, false⟩
            (.token ⟨.iriRef, Render.readBack Render.iriEscape? d, q, false⟩ (.done r))) := by
  rw [Term.render_typed v hne, ofText,
    ofLexer_scan (Nat.succ_pos _) rfl rfl (Scanner.scan_string v _ _) (by simp),
    ofLexer_scan (b := Ascii.caret) (by simp) (by simp [Lexer.advance, Lexer.start]; rfl) rfl
      (Scanner.scan_typeTag true _) (by simp),
    ofLexer_scan (b := Ascii.lessThan) (by simp) (by simp [Lexer.advance, Lexer.start]) rfl
      (Scanner.scan_iri hd false []) (by simp),
    ofLexer_nil (by simp [Lexer.advance, Lexer.start])]
  exact ⟨_, _, _, rfl⟩

end TokenStream

/-! ### What the rules say about bytes -/

theorem isForbidden_of_isIdentifier {i : Iri} (h : isIdentifier i = true) :
    ∀ b ∈ i, isForbidden b = false := by
  have hfirst : ∀ b : UInt8, (Ascii.isLetter b || b == Ascii.underscore) = true →
      isForbidden b = false := by
    intro b hb
    rw [isForbidden, decide_eq_false_iff_not]
    intro hf
    rcases hf with rfl | rfl | rfl | rfl | rfl | rfl | rfl | rfl | rfl | rfl | rfl | rfl | rfl
      | rfl | rfl | rfl | rfl
    all_goals exact absurd hb (by decide)
  cases i with
  | nil => exact absurd h (by decide)
  | cons a rest =>
    rw [isIdentifier, Bool.and_eq_true, Bool.not_eq_true'] at h
    intro b hb
    rcases List.mem_cons.mp hb with rfl | hb
    · exact hfirst b h.1
    · exact eq_false_of_ne_true (List.any_eq_false.mp h.2 b hb)

theorem Text.mem_splitOn (b c : UInt8) (t : Text) (hc : c ∈ t) :
    c = b ∨ ∃ part ∈ Text.splitOn b t, c ∈ part := by
  induction t with
  | nil => cases hc
  | cons a t ih =>
    rw [Text.splitOn]
    split_ifs with hab
    · rcases List.mem_cons.mp hc with rfl | hc
      · exact .inl hab
      · rcases ih hc with h | ⟨part, hpart, h⟩
        · exact .inl h
        · exact .inr ⟨part, List.mem_cons_of_mem _ hpart, h⟩
    · split
      · next hnil =>
        rcases List.mem_cons.mp hc with rfl | hc
        · exact .inr ⟨[c], List.mem_singleton_self _, List.mem_singleton_self _⟩
        · rcases ih hc with h | ⟨part, hpart, h⟩
          · exact .inl h
          · rw [hnil] at hpart; cases hpart
      · next p ps hcons =>
        rcases List.mem_cons.mp hc with rfl | hc
        · exact .inr ⟨_, List.mem_cons_self, List.mem_cons_self⟩
        · rcases ih hc with h | ⟨part, hpart, h⟩
          · exact .inl h
          · rw [hcons] at hpart
            rcases List.mem_cons.mp hpart with rfl | hpart
            · exact .inr ⟨_, List.mem_cons_self, List.mem_cons_of_mem _ h⟩
            · exact .inr ⟨part, List.mem_cons_of_mem _ hpart, h⟩

theorem isTagByte_of_isLanguageTag {tag : Text} (h : isLanguageTag tag = true) :
    tag ≠ [] ∧ ∀ b ∈ tag, Scanner.isTagByte b = true := by
  constructor
  · rintro rfl
    exact absurd h (by decide)
  · intro b hb
    rw [isLanguageTag] at h
    rcases Text.mem_splitOn Ascii.minus b tag hb with rfl | ⟨part, hpart, hb⟩
    · decide
    · split at h
      · exact absurd h (by decide)
      · next first groups hsplit =>
        rw [hsplit] at hpart
        simp only [Bool.and_eq_true, List.all_eq_true] at h
        rcases List.mem_cons.mp hpart with rfl | hpart
        · rw [Scanner.isTagByte, h.1.2 b hb]; rfl
        · rw [Scanner.isTagByte, (h.2 part hpart).2 b hb]; rfl

/-- What a term must satisfy for its text to be read back. -/
structure Term.Legible (t : Term) : Prop where
  valid : t.violation? = none
  label : ∀ l, t = .blank l → (∀ c ∈ Utf8.scalars l, Scanner.isNameScalar c = true ∨ c = 46) ∧
    l.getLast? ≠ some Ascii.dot
  iri : ∀ i, (t = .iri i ∨ ∃ v, t = .typed v i) →
    Utf8.isWellFormed i = true ∨ (Ascii.bar ∉ i ∧ Ascii.caret ∉ i)
  value : ∀ v, t.lexical? = some v → Utf8.isWellFormed v = true ∨
    ∀ b ∈ v, b ∉ [Ascii.quote, Ascii.backslash, Ascii.lineFeed, Ascii.carriageReturn, Ascii.tab,
      Ascii.backspace, Ascii.formFeed]

theorem readBack_iri_eq_self_iff {i : Iri} (hi : ∀ b ∈ i, isForbidden b = false) :
    Render.readBack Render.iriEscape? i = i ↔
      Utf8.isWellFormed i = true ∨ (Ascii.bar ∉ i ∧ Ascii.caret ∉ i) := by
  have hescape : ∀ b : UInt8, isForbidden b = false →
      (Render.iriEscape? b.toNat = none ↔ b ≠ Ascii.bar ∧ b ≠ Ascii.caret) := by decide +kernel
  rw [Render.readBack_eq_self_iff]
  refine or_congr_right ⟨fun h => ⟨fun hb => ?_, fun hb => ?_⟩, fun h b hb => ?_⟩
  · exact ((hescape _ (hi _ hb)).mp (h _ hb)).1 rfl
  · exact ((hescape _ (hi _ hb)).mp (h _ hb)).2 rfl
  · refine (hescape b (hi b hb)).mpr ⟨?_, ?_⟩
    · rintro rfl; exact h.1 hb
    · rintro rfl; exact h.2 hb

theorem readBack_literal_eq_self_iff (v : Text) :
    Render.readBack Render.literalEscape? v = v ↔ Utf8.isWellFormed v = true ∨
      ∀ b ∈ v, b ∉ [Ascii.quote, Ascii.backslash, Ascii.lineFeed, Ascii.carriageReturn, Ascii.tab,
        Ascii.backspace, Ascii.formFeed] := by
  have hescape : ∀ b : UInt8, Render.literalEscape? b.toNat = none ↔ b ∉ [Ascii.quote,
      Ascii.backslash, Ascii.lineFeed, Ascii.carriageReturn, Ascii.tab, Ascii.backspace,
      Ascii.formFeed] := by decide +kernel
  rw [Render.readBack_eq_self_iff]
  exact or_congr_right (forall₂_congr fun b _ => hescape b)

namespace NTriples

/-! ### One variant at a time -/

theorem parseTerm_iri_iff {i : Iri} (hv : isIdentifier i = true) :
    parseTerm (Term.iri i).render = .ok (.iri i) ↔ Render.readBack Render.iriEscape? i = i := by
  obtain ⟨p, hstream⟩ := TokenStream.ofText_iri (isForbidden_of_isIdentifier hv)
  rw [show (Term.iri i).render = renderIri i from rfl, parseTerm_eq_ok_iff, hstream]
  constructor
  · rintro ⟨_, s, ⟨⟩, hobj, -⟩
    obtain ⟨i', hi', h⟩ := (object_eq_ok_of_iri rfl).mp hobj
    cases h
    exact (iri_eq_ok hi').1.symm
  · intro h
    rw [h]
    refine ⟨_, ⟨.done p, {}, {}⟩, rfl, (object_eq_ok_of_iri rfl).mpr ⟨i, ?_, rfl⟩, rfl⟩
    exact iri_run rfl hv rfl

theorem parseTerm_blank_iff {l : Text} (hv : isIdentifier l = true) :
    parseTerm (Term.blank l).render = .ok (.blank l) ↔
      (∀ c ∈ Utf8.scalars l, Scanner.isNameScalar c = true ∨ c = 46) ∧
        l.getLast? ≠ some Ascii.dot := by
  have hlabel := Scanner.nameLength_eq_iff l 2 2 le_rfl
  simp only [implies_true, and_true] at hlabel
  obtain ⟨rest, hstream, hrest⟩ := TokenStream.ofText_blank l
  rw [← hlabel, parseTerm_eq_ok_iff, hstream]
  constructor
  · rintro ⟨_, s, ⟨⟩, hobj, -⟩
    obtain ⟨l', hl', h⟩ := (object_eq_ok_of_blank rfl).mp hobj
    cases h
    -- the label that came back is as long as the part that was taken in
    have hlen := congrArg List.length (blankNode_verbatim_eq_ok hl').1
    have hle : Scanner.nameLength false 0 2 2 l ≤ 2 + l.length :=
      Scanner.nameLength_le (Nat.zero_le _) le_rfl
    have hpos : 0 < l.length := by
      cases l with
      | nil => exact absurd hv (by decide)
      | cons b l => simp
    simp only [TokenStream.current, List.length_drop, List.length_take, Term.render_blank,
      List.length_cons] at hlen
    omega
  · intro h
    obtain ⟨p, rfl⟩ := hrest h
    rw [h, List.take_of_length_le (by simp [Term.render_blank]; omega)]
    refine ⟨_, ⟨.done p, {}, {}⟩, rfl, (object_eq_ok_of_blank rfl).mpr ⟨l, ?_, rfl⟩, rfl⟩
    exact blankNode_run rfl hv rfl

/-- A text whose first token is a string is one term if the literal at its front is. -/
theorem parseTerm_literal_iff {text : Text} {t : Token} {rest : TokenStream} {u : Term}
    (ht : t.kind = .stringLiteral)
    (hstream : TokenStream.ofText .ntriples text = .token t rest) :
    parseTerm text = .ok u ↔ ∃ s, literal.run ⟨.token t rest, {}, {}⟩ = .ok u s ∧
      s.stream.current.kind = .eof := by
  rw [parseTerm_eq_ok_iff, hstream]
  constructor
  · rintro ⟨_, s, ⟨⟩, hobj, heof⟩
    exact ⟨s, (object_eq_ok_of_string (by exact ht)).mp hobj, heof⟩
  · rintro ⟨s, hlit, heof⟩
    exact ⟨_, s, rfl, (object_eq_ok_of_string (by exact ht)).mpr hlit, heof⟩

theorem parseTerm_lang_iff {v tag : Text} (hv : isLanguageTag tag = true) :
    parseTerm (Term.lang v tag).render = .ok (.lang v tag) ↔
      Render.readBack Render.literalEscape? v = v := by
  obtain ⟨hne, hbytes⟩ := isTagByte_of_isLanguageTag hv
  obtain ⟨p, q, hstream⟩ := TokenStream.ofText_lang v hbytes hne
  rw [parseTerm_literal_iff rfl hstream]
  constructor
  · rintro ⟨s, hlit, -⟩
    exact (Option.some.inj (literal_eq_ok hlit).2).symm
  · intro h
    rw [h]
    exact ⟨_, literal_lang_run rfl rfl hv rfl, rfl⟩

theorem parseTerm_typed_iff {v : Text} {d : Iri} (hv : isIdentifier d = true) :
    parseTerm (Term.typed v d).render = .ok (.typed v d) ↔
      Render.readBack Render.iriEscape? d = d ∧ Render.readBack Render.literalEscape? v = v := by
  by_cases hd : d = Vocabulary.string
  · -- the datatype of plain strings is not written and comes back by itself
    subst hd
    have hself : Render.readBack Render.iriEscape? Vocabulary.string = Vocabulary.string := by
      decide
    obtain ⟨p, hstream⟩ := TokenStream.ofText_plain v
    rw [parseTerm_literal_iff rfl hstream, and_iff_right hself]
    constructor
    · rintro ⟨s, hlit, -⟩
      exact (Option.some.inj (literal_eq_ok hlit).2).symm
    · intro h
      rw [h]
      exact ⟨_, literal_plain_run rfl, rfl⟩
  · obtain ⟨p, q, r, hstream⟩ := TokenStream.ofText_typed v (isForbidden_of_isIdentifier hv) hd
    rw [parseTerm_literal_iff rfl hstream]
    constructor
    · rintro ⟨s, hlit, -⟩
      have h := literal_typed_eq_ok rfl hlit
      rw [Term.typed.injEq] at h
      exact ⟨h.2.symm, h.1.symm⟩
    · rintro ⟨hd', hv'⟩
      rw [hd', hv']
      exact ⟨_, literal_typed_run rfl rfl rfl hv rfl, rfl⟩

end NTriples

/-- The variant in a key is that of its term, so only the text decides what is read back. -/
theorem decodeTerm_encodeTerm_iff (t : Term) :
    (encodeTerm (some t)).bind (fun p => decodeTerm p.1 p.2) = .ok t ↔
      NTriples.parseTerm t.render = .ok t := by
  show decodeTerm (.ofTerm t) t.render = .ok t ↔ _
  rw [decodeTerm]
  cases h : NTriples.parseTerm t.render with
  | error e => simp
  | ok u =>
    simp only [Except.ok.injEq]
    constructor
    · intro h'
      split_ifs at h' with hk
      exact Except.ok.inj h'
    · rintro rfl
      exact if_pos rfl

/-- **A term is read back from its text, and from the key and text that it is stored under, if and
only if it is legible.** -/
theorem Term.read_back_iff_legible (t : Term) :
    (NTriples.parseTerm t.render = .ok t ↔ t.Legible) ∧
      ((encodeTerm (some t)).bind (fun p => decodeTerm p.1 p.2) = .ok t ↔ t.Legible) := by
  rw [decodeTerm_encodeTerm_iff, and_self]
  suffices h : t.violation? = none → (NTriples.parseTerm t.render = .ok t ↔ t.Legible) from
    ⟨fun ht => (h (NTriples.parseTerm_valid ht)).mp ht, fun ht => (h ht.valid).mpr ht⟩
  intro hvalid
  cases t with
  | iri i =>
    have hv : isIdentifier i = true := by simpa [Term.violation?] using hvalid
    rw [NTriples.parseTerm_iri_iff hv, readBack_iri_eq_self_iff (isForbidden_of_isIdentifier hv)]
    constructor
    · intro h
      refine ⟨hvalid, by simp, ?_, by simp [lexical?]⟩
      rintro _ (⟨⟨⟩⟩ | ⟨_, ⟨⟩⟩)
      exact h
    · intro h
      exact h.iri i (.inl rfl)
  | blank l =>
    have hv : isIdentifier l = true := by simpa [Term.violation?] using hvalid
    rw [NTriples.parseTerm_blank_iff hv]
    constructor
    · intro h
      refine ⟨hvalid, ?_, by simp, by simp [lexical?]⟩
      rintro _ ⟨⟩
      exact h
    · intro h
      exact h.label l rfl
  | lang v tag =>
    have hv : isLanguageTag tag = true := by simpa [Term.violation?] using hvalid
    rw [NTriples.parseTerm_lang_iff hv, readBack_literal_eq_self_iff]
    constructor
    · intro h
      refine ⟨hvalid, by simp, by simp, ?_⟩
      rintro _ ⟨⟩
      exact h
    · intro h
      exact h.value v rfl
  | typed v d =>
    have hv : isIdentifier d = true := by simpa [Term.violation?] using hvalid
    rw [NTriples.parseTerm_typed_iff hv, readBack_literal_eq_self_iff,
      readBack_iri_eq_self_iff (isForbidden_of_isIdentifier hv)]
    constructor
    · intro h
      refine ⟨hvalid, by simp, ?_, ?_⟩
      · rintro _ (⟨⟨⟩⟩ | ⟨_, ⟨⟩⟩)
        exact h.1
      · rintro _ ⟨⟩
        exact h.2
    · intro h
      exact ⟨h.iri d (.inr ⟨v, rfl⟩), h.value v rfl⟩

end TripleStore
