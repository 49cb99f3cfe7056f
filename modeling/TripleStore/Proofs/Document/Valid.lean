import TripleStore.Proofs.Document.Blocks
import TripleStore.Proofs.Turtle.Plain

/-!
# What is delivered is valid

Every statement that a reader delivers breaks no rule and stands outside of any graph, whatever
bytes the text holds and whether or not the reading fails later on.  The labels of its nodes are
texts that the scanner takes in as a whole, so they can be written down and read again.

* `TokenStream.madeOf_ofLexer`: the labels of a text are made of name characters and inner dots.
* `Format.Takes.bears`: **a block of valid tokens has valid statements.**
* `Format.walk_among`: the blocks that are delivered, up to the end or to an error.
* `Format.receive_valid`: **whatever is delivered is valid.**
-/

namespace TripleStore

/-! ### Labels of tokens -/

namespace Scanner

/-- A label that was scanned is one that the scanner takes in as a whole. -/
theorem isLabel_of_scan {mode : Mode} {after : Bool} {b : UInt8} {rest : Text} {x : Lexeme}
    (h : scan mode after b rest = .ok x) (hk : x.kind = .blankNodeLabel) :
    isLabel (x.text.drop 2) = true := by
  cases scanned_of_scan h with
  | iri h =>
    obtain ⟨p, -, rfl⟩ := map_eq_ok.mp h
    simp only at hk
    split_ifs at hk
  | label _ => exact isLabel_blankLabel _
  | string h => exact absurd hk (ordinary_of_string h).2
  | singleQuoted _ h => exact absurd hk (ordinary_of_string h).2
  | tag h => exact absurd hk (ordinary_of_afterAt h).2
  | fraction _ h => exact absurd hk (ordinary_of_number h).2
  | other _ h => exact absurd hk (ordinary_of_scanTurtle h).2
  | _ => cases hk

end Scanner

namespace TokenStream

/-- The tokens of a stream. -/
def tokens : TokenStream → List Token
  | .done _ => []
  | .fault _ => []
  | .token t rest => t :: rest.tokens

theorem tokens_after (ts : List Token) (rest : TokenStream) :
    (after ts rest).tokens = ts ++ rest.tokens := by
  induction ts with
  | nil => rfl
  | cons t ts ih => rw [after_cons, tokens, ih, List.cons_append]

/-- **The labels of a text are labels**, whatever bytes the text holds. -/
theorem madeOf_ofLexer (fuel : ℕ) (l : Lexer) :
    ∀ t ∈ (ofLexer fuel l).tokens, t.MadeOf .all := by
  induction fuel generalizing l with
  | zero => exact fun _ ht => absurd ht List.not_mem_nil
  | succ fuel ih =>
    rw [ofLexer]
    split
    · exact fun _ ht => absurd ht List.not_mem_nil
    · next t l' hnext =>
      split_ifs with heof
      · exact fun _ ht => absurd ht List.not_mem_nil
      · refine List.forall_mem_cons.mpr ⟨⟨trivial, fun hk => ?_⟩, ih l'⟩
        rcases Lexer.next_cases hnext with ⟨-, rfl, -⟩ | ⟨b, rest, x, -, hx, rfl, -⟩
        · cases hk
        · exact Scanner.isLabel_of_scan hx hk

end TokenStream

theorem Token.MadeOf.inTurtle {T : TextClass} {t : Token} (h : t.MadeOf T) :
    t.inTurtle.MadeOf T := by
  refine ⟨h.text, fun hk => h.label ?_⟩
  by_cases hiri : t.kind = .iriRef
  · rw [Token.inTurtle, hiri, Kind.inTurtle] at hk
    split_ifs at hk
  · rwa [Token.inTurtle_of_ne hiri] at hk

theorem Turtle.Context.madeOf_all (c : Turtle.Context) : c.MadeOf .all :=
  ⟨fun _ _ => trivial, trivial⟩

/-! ### Statements that were delivered -/

theorem Statement.Among.violation? {scope : Scope} {T : TextClass} {s : Statement}
    (h : s.Among scope T) : s.violation? = none := by
  show (s.subject.toTerm.violation? <|> (Term.iri s.predicate).violation? <|> s.object.violation? <|>
    s.graph.bind fun g => g.toTerm.violation?) = none
  rw [h.subject.valid, h.predicate.valid, h.object.valid, h.graph]
  rfl

/-- The labels of a statement can be written down and read again. -/
theorem Statement.Among.readable {scope : Scope} {T : TextClass} {s : Statement}
    (h : s.Among scope T) {l : Text} (hl : s.subject = .blank l ∨ s.object = .blank l) :
    Scanner.isLabel l = true ∧ NTriples.parseTerm (Term.blank l).render = .ok (.blank l) := by
  have hallowed : scope.Allows T (.blank l) := by
    rcases hl with hl | hl
    · have hsubject := h.subject
      rwa [hl] at hsubject
    · have hobject := h.object
      rwa [hl] at hobject
  exact ⟨hallowed.made, Term.parseTerm_of_isPlain hallowed.made hallowed.valid⟩

namespace Format

variable {f : Format} {s s' : Setting} {stream : TokenStream} {stmts : List Statement}

/-- **A block of valid tokens has valid statements**, and what is known behind it can be written
down. -/
theorem Takes.bears {ts : List Token} (h : f.Takes s ts stmts s') (hs : s.labels.scope.Plain)
    (hts : ∀ t ∈ ts, t.MadeOf .all) :
    s'.labels.scope.Plain ∧ s'.labels.scope.Bears .all stmts := by
  cases h with
  | @line _ line stmt l' hm =>
    have hmade : ∀ t ∈ line.inTurtle.tokens, t.MadeOf .all := by
      intro t ht
      rw [line.tokens_inTurtle] at ht
      obtain ⟨u, hu, rfl⟩ := List.mem_map.mp ht
      exact (hts u hu).inTurtle
    obtain ⟨hplain, -, hbears⟩ := Turtle.Block.yields (Turtle.Context.madeOf_all {}) hmade s.labels
      [stmt] l' (.refl _) hs (NTriples.Line.meaning_inTurtle hm)
    exact ⟨hplain, hbears⟩
  | @turtle _ b stmts l' hm =>
    obtain ⟨hplain, -, hbears⟩ := Turtle.Block.yields s.context.madeOf_all hts s.labels stmts l'
      (.refl _) hs hm
    exact ⟨hplain, hbears⟩

/-- The statements of all blocks that are delivered are valid, also where an error follows. -/
theorem walk_among (fuel : ℕ) (hs : s.labels.scope.Plain)
    (hstream : ∀ t ∈ stream.tokens, t.MadeOf .all) :
    ∀ stmt ∈ (f.walk fuel s stream).1.receive.statements, ∃ scope, stmt.Among scope .all := by
  induction fuel generalizing s stream with
  | zero => exact fun _ hstmt => absurd hstmt List.not_mem_nil
  | succ fuel ih =>
    rw [walk]
    split_ifs with heof
    · exact fun _ hstmt => absurd hstmt List.not_mem_nil
    · cases hblock : f.block s stream with
      | error e => exact fun _ hstmt => absurd hstmt List.not_mem_nil
      | ok a =>
        obtain ⟨stmts, s', rest⟩ := a
        obtain ⟨ts, rfl, -, htakes⟩ := takes_of_block hblock
        rw [TokenStream.tokens_after] at hstream
        obtain ⟨hplain, hbears⟩ := htakes.bears hs fun t ht => hstream t (List.mem_append_left _ ht)
        have hlater := ih hplain fun t ht => hstream t (List.mem_append_right _ ht)
        intro stmt hstmt
        rcases List.mem_append.mp hstmt with hstmt | hstmt
        · exact ⟨s'.labels.scope, hbears stmt hstmt⟩
        · exact hlater stmt hstmt

/-- **Whatever is delivered is valid**: a statement that is read from any bytes, in either format,
breaks no rule and stands outside of any graph, and its labels are made of name characters and inner
dots, so that they are read again where they are written.  An error behind it does not matter. -/
theorem receive_valid (format : Format) (text : Text) (supply : Supply) {stmt : Statement}
    (h : stmt ∈ (format.read text supply).receive.statements) :
    stmt.violation? = none ∧ stmt.graph = none ∧
      ∀ l, stmt.subject = .blank l ∨ stmt.object = .blank l →
        (∀ c ∈ Utf8.scalars l, Scanner.isNameScalar c = true ∨ c = 46) ∧
        l.getLast? ≠ some Ascii.dot ∧
        NTriples.parseTerm (Term.blank l).render = .ok (.blank l) := by
  rw [read_eq_readIn, readIn_eq_run, run] at h
  obtain ⟨scope, hamong⟩ : ∃ scope, stmt.Among scope .all := by
    cases hsound : (TokenStream.ofText format.mode text).sound with
    | error e =>
      rw [hsound] at h
      exact absurd h List.not_mem_nil
    | ok stream =>
      obtain ⟨-, rfl⟩ := TokenStream.sound_eq_ok.mp hsound
      rw [hsound] at h
      exact walk_among _ Scope.plain_empty (TokenStream.madeOf_ofLexer _ _) stmt h
  refine ⟨hamong.violation?, hamong.graph, fun l hl => ?_⟩
  obtain ⟨hlabel, hread⟩ := hamong.readable hl
  obtain ⟨hscalars, hlast⟩ := Scanner.isLabel_iff.mp hlabel
  exact ⟨hscalars, hlast, hread⟩

/-- A label with a dot and an escaped character, in front of a byte that is no UTF-8. -/
theorem receive_valid_before_error :
    let stmt : Statement := ⟨.blank "a.b_1", "x:A", .lang "q" "en", none⟩
    let text : Text := Text.ofString "_:a.b <x:\\u0041> \"q\"@en . [" ++ [0xFF]
    stmt ∈ (Format.turtle.read text {}).receive.statements ∧
      (Format.turtle.read text {}).receive.error ≠ none ∧ stmt.violation? = none ∧
      NTriples.parseTerm (Term.blank "a.b_1").render = .ok (.blank "a.b_1") := by
  intro stmt text
  have h : stmt ∈ (Format.turtle.read text {}).receive.statements := by decide +kernel
  obtain ⟨hvalid, -, hlabels⟩ := receive_valid .turtle text {} h
  exact ⟨h, by decide +kernel, hvalid, (hlabels "a.b_1" (.inl rfl)).2.2⟩

end Format

end TripleStore
