import TripleStore.Proofs.Token.Stream

/-!
# The two modes of the lexer

The lexer of Turtle takes more for a token than the lexer of N-Triples: strings in three quotes,
numbers that begin with a point, directives after an at sign.  Where the tokens of N-Triples stand in
an order that its documents have, none of this is met, and the two lexers give the same tokens,
except that Turtle calls an IRI without a colon relative.

* `Token.inTurtle`: a token of N-Triples as Turtle has it.
* `Orderly`: tags only behind strings, and no string behind a string.
* `Scanner.scan_turtle`: one token in both modes.
* `Lexer.Reads.inTurtle`: **where the tokens of N-Triples are in order, Turtle has the same.**
-/

namespace TripleStore

/-- The kind that Turtle gives to a token of N-Triples. -/
def Kind.inTurtle (k : Kind) (text : Text) : Kind :=
  if k = .iriRef ∧ ¬ text.contains Ascii.colon then .relativeIri else k

/-- A token of N-Triples as Turtle has it. -/
def Token.inTurtle (t : Token) : Token := { t with kind := t.kind.inTurtle t.text }

/-- A token of N-Triples, as it was scanned, as Turtle has it. -/
def Lexeme.inTurtle (x : Lexeme) : Lexeme := { x with kind := x.kind.inTurtle x.text }

theorem Kind.inTurtle_of_ne {k : Kind} (h : k ≠ .iriRef) (text : Text) : k.inTurtle text = k :=
  if_neg fun hk => h hk.1

theorem Token.inTurtle_of_ne {t : Token} (h : t.kind ≠ .iriRef) : t.inTurtle = t := by
  rw [Token.inTurtle, Kind.inTurtle_of_ne h]

theorem Lexeme.inTurtle_of_ne {x : Lexeme} (h : x.kind ≠ .iriRef) : x.inTurtle = x := by
  rw [Lexeme.inTurtle, Kind.inTurtle_of_ne h]

theorem Kind.isString_inTurtle (k : Kind) (text : Text) :
    (k.inTurtle text).isString = k.isString := by
  rw [Kind.inTurtle]
  split_ifs with h
  · rw [h.1]
    rfl
  · rfl

theorem Kind.inTurtle_eq_eof (k : Kind) (text : Text) : k.inTurtle text = .eof ↔ k = .eof := by
  rw [Kind.inTurtle]
  split_ifs with h
  · rw [h.1]
    decide
  · exact Iff.rfl

/-- Tags stand only behind strings, and no string stands behind a string; `after` says that the
token before was a string. -/
def Orderly : (after : Bool) → List Token → Prop
  | _, [] => True
  | after, t :: ts => (t.kind = .langTag → after = true) ∧
      (t.kind = .stringLiteral → after = false) ∧ Orderly t.kind.isString ts

/-! ### One token -/

namespace Scanner

theorem not_turtle {p : Prop} : ¬ (Mode.ntriples = .turtle ∧ p) := fun h => absurd h.1 (by decide)

theorem kind_of_string {rest : Text} {x : Lexeme} {mark : UInt8}
    (h : string .ntriples mark rest = .ok x) : x.kind = .stringLiteral := by
  rw [string, if_neg not_turtle] at h
  obtain ⟨p, -, rfl⟩ := map_eq_ok.mp h
  rfl

theorem iri_turtle {rest : Text} {x : Lexeme} (h : iri .ntriples rest = .ok x) :
    iri .turtle rest = .ok x.inTurtle := by
  obtain ⟨p, hp, rfl⟩ := map_eq_ok.mp h
  refine map_eq_ok.mpr ⟨p, hp, ?_⟩
  simp [Lexeme.inTurtle, Kind.inTurtle]

theorem string_turtle {mark : UInt8} {rest : Text} {x : Lexeme}
    (h : string .ntriples mark rest = .ok x) (hshort : runLength mark rest < 2) :
    string .turtle mark rest = .ok x.inTurtle := by
  have hkind := kind_of_string h
  rw [Lexeme.inTurtle_of_ne (by rw [hkind]; decide)]
  rw [string, if_neg not_turtle] at h
  rw [string, if_neg (fun hm => by omega), h]

theorem afterAt_turtle {after : Bool} {rest : Text} {x : Lexeme}
    (h : afterAt .ntriples after rest = .ok x) (hafter : after = true) :
    afterAt .turtle after rest = .ok x.inTurtle := by
  rw [afterAt] at h ⊢
  simp only [reduceCtorEq, false_and, if_false, hafter, not_true_eq_false, and_false] at h ⊢
  split_ifs at h ⊢
  cases h
  rfl

theorem kind_of_afterAt {after : Bool} {rest : Text} {x : Lexeme}
    (h : afterAt .ntriples after rest = .ok x) : x.kind = .langTag := by
  rw [afterAt] at h
  simp only [reduceCtorEq, false_and, if_false] at h
  split_ifs at h
  cases h
  rfl

theorem exists_of_le_runLength {b : UInt8} {t : Text} (h : 2 ≤ runLength b t) :
    ∃ r, t = b :: b :: r := by
  match t with
  | [] => simp [runLength] at h
  | [a] => cases hab : a == b <;> simp [runLength, hab] at h
  | a :: a' :: r =>
    cases hab : a == b with
    | false => simp [runLength, hab] at h
    | true =>
      cases hab' : a' == b with
      | false => simp [runLength, hab, hab'] at h
      | true =>
        rw [eq_of_beq hab, eq_of_beq hab']
        exact ⟨r, rfl⟩

theorem isDigit_of_scan {after : Bool} {b : UInt8} {rest : Text} {x : Lexeme}
    (h : scan .ntriples after b rest = .ok x) : Ascii.isDigit b = false := by
  cases scanned_of_scan h with
  | singleQuoted hmode _ => cases hmode
  | fraction hmode _ => cases hmode
  | other hmode _ => cases hmode
  | _ => decide

/-- Two quotes behind an opening quote are read as an empty string with a quote behind it, so a
string without a quote behind it is no long one. -/
theorem runLength_lt_of_string {mark : UInt8} {rest : Text} {x : Lexeme}
    (h : string .ntriples mark rest = .ok x)
    (hbehind : ((mark :: rest).drop x.size).head? ≠ some mark) : runLength mark rest < 2 := by
  by_contra hlong
  obtain ⟨r, rfl⟩ := exists_of_le_runLength (Nat.le_of_not_lt hlong)
  rw [string, if_neg not_turtle] at h
  obtain ⟨p, hp, rfl⟩ := map_eq_ok.mp h
  have hsize : p.2 = 2 := by
    rw [stringBody, if_neg (fun hm => absurd hm.1 (by decide)), if_pos ⟨Bool.false_ne_true, rfl⟩] at hp
    cases hp
    rfl
  rw [hsize] at hbehind
  exact hbehind rfl

theorem digitCount_eq_zero {t : Text} (h : ∀ b, t.head? = some b → Ascii.isDigit b = false) :
    digitCount t = 0 := by
  cases t with
  | nil => rfl
  | cons b t =>
    rw [digitCount, List.takeWhile_cons, h b rfl]
    rfl

/-- **A token of N-Triples is one of Turtle**, unless it is a tag that could be a directive, a string
that could be the beginning of a longer one or a point that could be the beginning of a number. -/
theorem scan_turtle {after : Bool} {b : UInt8} {rest : Text} {x : Lexeme}
    (h : scan .ntriples after b rest = .ok x) (htag : x.kind = .langTag → after = true)
    (hstring : x.kind = .stringLiteral → ((b :: rest).drop x.size).head? ≠ some Ascii.quote)
    (hpoint : x.kind = .period →
      ∀ d, ((b :: rest).drop x.size).head? = some d → Ascii.isDigit d = false) :
    scan .turtle after b rest = .ok x.inTurtle := by
  cases scanned_of_scan h with
  | iri h => exact iri_turtle h
  | label hcolon =>
    rw [scan, if_neg (by decide), if_pos ⟨rfl, hcolon⟩]
    rfl
  | string h => exact string_turtle h (runLength_lt_of_string h (hstring (kind_of_string h)))
  | singleQuoted hmode _ => cases hmode
  | tag h => exact afterAt_turtle h (htag (kind_of_afterAt h))
  | typeTag hcarets =>
    show (if rest.head? = some Ascii.caret then _ else _) = _
    rw [if_pos hcarets]
    rfl
  | fraction hmode _ => cases hmode
  | period =>
    have hzero : digitCount rest = 0 := digitCount_eq_zero (hpoint rfl)
    show (if Mode.turtle = .turtle ∧ 0 < digitCount rest then _ else _) = _
    rw [hzero, if_neg (fun hm => absurd hm.2 (Nat.lt_irrefl 0))]
    rfl
  | semicolon => rfl
  | comma => rfl
  | other hmode _ => cases hmode

end Scanner

/-! ### The next token -/

namespace Lexer

variable {l l' m : Lexer} {t : Token}

/-- What reading a token comes to: the end of the text, or a token that was scanned. -/
theorem next_cases (h : l.next = (.ok t, m)) :
    (l.skipBlank.rest = [] ∧ t = ⟨.eof, [], l.skipBlank.position, false⟩ ∧
        m = { l.skipBlank with last := some .eof }) ∨
      ∃ b rest x, l.skipBlank.rest = b :: rest ∧
        Scanner.scan l.mode l.afterString b rest = .ok x ∧
        t = ⟨x.kind, x.text, l.skipBlank.position, x.bare⟩ ∧
        m = { l.skipBlank.advance x.size with last := some x.kind } := by
  rw [next, token] at h
  split at h
  · next hrest =>
    cases h
    exact .inl ⟨hrest, rfl, rfl⟩
  · next b rest hrest =>
    split at h
    · next x hx =>
      cases h
      exact .inr ⟨b, rest, x, hrest, hx, rfl, rfl⟩
    · cases h

theorem next_end (h : l.skipBlank.rest = []) :
    l.next = (.ok ⟨.eof, [], l.skipBlank.position, false⟩,
      { l.skipBlank with last := some .eof }) := by
  rw [next, token]
  split
  · rfl
  · next hrest =>
    rw [h] at hrest
    cases hrest

theorem next_scan {b : UInt8} {rest : Text} {x : Lexeme} (h : l.skipBlank.rest = b :: rest)
    (hx : Scanner.scan l.mode l.afterString b rest = .ok x) :
    l.next = (.ok ⟨x.kind, x.text, l.skipBlank.position, x.bare⟩,
      { l.skipBlank.advance x.size with last := some x.kind }) := by
  rw [next, token]
  split
  · next hrest =>
    rw [h] at hrest
    cases hrest
  · next hrest =>
    rw [h] at hrest
    cases hrest
    have hscan : Scanner.scan l.skipBlank.mode l.skipBlank.afterString b rest = .ok x := hx
    rw [hscan]

theorem afterString_next (h : l.next = (.ok t, m)) : m.afterString = t.kind.isString := by
  rcases next_cases h with ⟨-, rfl, rfl⟩ | ⟨b, rest, x, -, -, rfl, rfl⟩
  · rfl
  · rfl

theorem mode_next (h : l.next = (.ok t, m)) : m.mode = l.mode := by
  rcases next_cases h with ⟨-, -, rfl⟩ | ⟨b, rest, x, -, -, -, rfl⟩
  · rfl
  · rfl

/-- The tokens of two lexers in the two modes stand at the same place of the same text. -/
structure Mirrors (l l' : Lexer) : Prop where
  ntriples : l.mode = .ntriples
  turtle : l'.mode = .turtle
  rest : l'.rest = l.rest
  position : l'.position = l.position
  afterString : l'.afterString = l.afterString

theorem mirrors_start (text : Text) : (start .ntriples text).Mirrors (start .turtle text) :=
  ⟨rfl, rfl, rfl, rfl, rfl⟩

theorem Mirrors.skipBlank (h : l.Mirrors l') : l.skipBlank.Mirrors l'.skipBlank := by
  refine ⟨h.ntriples, h.turtle, ?_, ?_, h.afterString⟩
  · rw [Lexer.skipBlank, Lexer.skipBlank, advance, advance, h.rest]
  · rw [Lexer.skipBlank, Lexer.skipBlank, advance, advance, h.rest, h.position]

/-- **The next token in both modes**, where nothing behind it makes it another one in Turtle. -/
theorem Mirrors.next (hm : l.Mirrors l') (h : l.next = (.ok t, m))
    (htag : t.kind = .langTag → l.afterString = true)
    (hstring : t.kind = .stringLiteral → m.rest.head? ≠ some Ascii.quote)
    (hpoint : t.kind = .period → ∀ b, m.rest.head? = some b → Ascii.isDigit b = false) :
    ∃ m', l'.next = (.ok t.inTurtle, m') ∧ m.Mirrors m' := by
  have hskip := hm.skipBlank
  rcases next_cases h with ⟨hrest, rfl, rfl⟩ | ⟨b, rest, x, hrest, hx, rfl, rfl⟩
  · refine ⟨{ l'.skipBlank with last := some .eof }, ?_, ?_⟩
    · rw [next_end (by rw [hskip.rest, hrest]), hskip.position]
      rfl
    · exact ⟨hskip.ntriples, hskip.turtle, hskip.rest, hskip.position, rfl⟩
  · rw [hm.ntriples] at hx
    have hbehind : (l.skipBlank.advance x.size).rest = (b :: rest).drop x.size := by
      rw [advance, hrest]
    simp only [hbehind] at hstring hpoint
    have hturtle := Scanner.scan_turtle hx htag hstring hpoint
    rw [← hm.afterString, ← hm.turtle] at hturtle
    refine ⟨{ l'.skipBlank.advance x.size with last := some x.inTurtle.kind }, ?_, ?_⟩
    · rw [next_scan (hskip.rest.trans hrest) hturtle, hskip.position]
      rfl
    · refine ⟨hskip.ntriples, hskip.turtle, ?_, ?_, Kind.isString_inTurtle _ _⟩
      · rw [advance, advance, hskip.rest]
      · rw [advance, advance, hskip.rest, hskip.position]

/-! ### All tokens -/

theorem blankLength_of_isDigit {b : UInt8} (h : Ascii.isDigit b = true) (rest : Text) :
    blankLength false (b :: rest) = 0 := by
  have hwhite : ¬ (b = Ascii.space ∨ b = Ascii.tab ∨ b = Ascii.lineFeed
      ∨ b = Ascii.carriageReturn) := by
    intro hb
    rcases hb with rfl | rfl | rfl | rfl
    all_goals exact absurd h (by decide)
  have hhash : b ≠ Ascii.hash := by
    intro hb
    rw [hb] at h
    exact absurd h (by decide)
  rw [blankLength, if_neg hwhite, if_neg hhash]

theorem skipBlank_rest_of_head {b : UInt8} {rest : Text} (h : l.rest = b :: rest)
    (hb : blankLength false (b :: rest) = 0) : l.skipBlank.rest = b :: rest := by
  rw [Lexer.skipBlank, advance, h, hb, List.drop_zero]

/-- A reading that goes on to the end has a next token. -/
theorem Reads.exists_next {ts : List Token} (h : l.Reads ts) : ∃ t m, l.next = (.ok t, m) := by
  cases h with
  | done hnext _ => exact ⟨_, _, hnext⟩
  | token hnext _ _ => exact ⟨_, _, hnext⟩

/-- No digit begins a token of N-Triples. -/
theorem Reads.isDigit_head {ts : List Token} (h : l.Reads ts) (hmode : l.mode = .ntriples)
    {b : UInt8} {rest : Text} (hb : l.rest = b :: rest) : Ascii.isDigit b = false := by
  by_contra hdigit
  rw [Bool.not_eq_false] at hdigit
  have hrest := skipBlank_rest_of_head hb (blankLength_of_isDigit hdigit rest)
  obtain ⟨t, m, hnext⟩ := h.exists_next
  rcases next_cases hnext with ⟨hnil, -, -⟩ | ⟨b', rest', x, hcons, hx, -, -⟩
  · rw [hrest] at hnil
    cases hnil
  · rw [hrest] at hcons
    cases hcons
    rw [hmode] at hx
    exact absurd (hdigit.symm.trans (Scanner.isDigit_of_scan hx)) (by decide)

/-- A quote at hand begins a string, so there is none where no string may stand. -/
theorem Reads.head_ne_quote {ts : List Token} (h : l.Reads ts) (hmode : l.mode = .ntriples)
    (ho : Orderly true ts) (rest : Text) : l.rest ≠ Ascii.quote :: rest := by
  intro hquote
  have hrest : l.skipBlank.rest = Ascii.quote :: rest := skipBlank_rest_of_head hquote rfl
  have hkind {t : Token} {m : Lexer} (hnext : l.next = (.ok t, m)) : t.kind = .stringLiteral := by
    rcases next_cases hnext with ⟨hnil, -, -⟩ | ⟨b', rest', x, hcons, hx, rfl, -⟩
    · rw [hrest] at hnil
      cases hnil
    · rw [hrest] at hcons
      cases hcons
      rw [hmode] at hx
      exact Scanner.kind_of_string hx
  cases h with
  | done hnext hk => exact absurd ((hkind hnext).symm.trans hk) (by decide)
  | token hnext _ _ => exact absurd (ho.2.1 (hkind hnext)) (by decide)

/-- **Where the tokens of N-Triples are in order, Turtle has the same.** -/
theorem Reads.inTurtle {ts : List Token} (h : l.Reads ts) (hm : l.Mirrors l')
    (ho : Orderly l.afterString ts) : l'.Reads (ts.map Token.inTurtle) := by
  induction h generalizing l' with
  | @done l m t hnext hk =>
    obtain ⟨m', hnext', -⟩ := hm.next hnext (fun h => absurd (hk.symm.trans h) (by decide))
      (fun h => absurd (hk.symm.trans h) (by decide))
      (fun h => absurd (hk.symm.trans h) (by decide))
    exact .done hnext' ((Kind.inTurtle_eq_eof _ _).mpr hk)
  | @token l m t ts hnext hk hrest ih =>
    obtain ⟨htag, -, hlater⟩ := ho
    have hmode : m.mode = .ntriples := by
      rw [mode_next hnext]
      exact hm.ntriples
    have hquote : t.kind = .stringLiteral → m.rest.head? ≠ some Ascii.quote := by
      intro hstring hhead
      obtain ⟨rest, hrest'⟩ := List.head?_eq_some_iff.mp hhead
      rw [hstring] at hlater
      exact hrest.head_ne_quote hmode hlater rest hrest'
    have hdigit : t.kind = .period → ∀ b, m.rest.head? = some b → Ascii.isDigit b = false := by
      intro _ b hhead
      obtain ⟨rest, hrest'⟩ := List.head?_eq_some_iff.mp hhead
      exact hrest.isDigit_head hmode hrest'
    obtain ⟨m', hnext', hm'⟩ := hm.next hnext htag hquote hdigit
    have hk' : t.inTurtle.kind ≠ .eof := fun h => hk ((Kind.inTurtle_eq_eof _ _).mp h)
    rw [← afterString_next hnext] at hlater
    exact .token hnext' hk' (ih hm' hlater)

end Lexer

end TripleStore
