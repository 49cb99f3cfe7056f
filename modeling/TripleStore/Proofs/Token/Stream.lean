import Mathlib.Tactic
import TripleStore.Token.Stream

/-!
# The tokens of a text

A lexer that is asked again and again gives tokens until it comes to the end of its text or to a
place where none can be read.  Every token takes at least one byte, so the bound of a token stream,
which is the length of the text, is never used up.

* `Lexer.Reads`: the tokens that a lexer gives up to the end of its text.
* `Lexer.next_shortens`: **a token leaves less of the text than there was.**
* `Lexer.reads_iff_ofText`: a token stream without an error is the tokens that the lexer gives.
-/

namespace TripleStore

/-! ### The size of a token -/

namespace Scanner

theorem map_eq_ok {α β : Type} {x : Except Misfit α} {f : α → β} {b : β} :
    x.map f = .ok b ↔ ∃ a, x = .ok a ∧ f a = b := by
  cases x with
  | error e => simp [Except.map]
  | ok a => simp [Except.map]

/-- The end of an IRI lies behind the bytes that are passed. -/
theorem lt_of_iriBody {skip n : ℕ} {t : Text} {p : Text × ℕ} (h : iriBody skip n t = .ok p) :
    n + skip < p.2 := by
  fun_induction iriBody skip n t generalizing p with
  | case1 => cases h
  | case2 n skip b rest ih =>
    have := ih h
    omega
  | case3 n rest =>
    cases h
    exact Nat.lt_succ_self _
  | case4 => cases h
  | case5 n rest code width hcode hb ih =>
    obtain ⟨q, hq, rfl⟩ := map_eq_ok.mp h
    have hlt := ih hq
    simp only
    omega
  | case6 => cases h
  | case7 => cases h
  | case8 n b rest h1 h2 h3 h4 ih =>
    obtain ⟨q, hq, rfl⟩ := map_eq_ok.mp h
    have hlt := ih hq
    simp only
    omega

/-- The end of a string lies behind the bytes that are passed. -/
theorem lt_of_stringBody {mark : UInt8} {long : Bool} {skip n : ℕ} {t : Text} {p : Text × ℕ}
    (h : stringBody mark long skip n t = .ok p) : n + skip < p.2 := by
  fun_induction stringBody mark long skip n t generalizing p with
  | case1 => cases h
  | case2 n skip b rest ih =>
    have := ih h
    omega
  | case3 n b rest hb =>
    cases h
    simp only
    omega
  | case4 n b rest h1 h2 =>
    cases h
    exact Nat.lt_succ_self _
  | case5 => cases h
  | case6 => cases h
  | case7 n next rest hnext char detail h1 h2 hcode h3 =>
    simp only [hcode] at h
    cases h
  | case8 n next rest hnext code width h1 h2 hcode h3 ih =>
    simp only [hcode] at h
    obtain ⟨q, hq, rfl⟩ := map_eq_ok.mp h
    have hlt := ih hq
    simp only
    omega
  | case9 n next rest h1 h2 h3 hnext ih =>
    obtain ⟨q, hq, rfl⟩ := map_eq_ok.mp h
    have hlt := ih hq
    simp only
    omega
  | case10 n b rest h1 h2 h3 h4 ih =>
    obtain ⟨q, hq, rfl⟩ := map_eq_ok.mp h
    have hlt := ih hq
    simp only
    omega

/-- What is sure to belong to a name is not given back. -/
theorem le_nameLength {named : Bool} {skip n best : ℕ} {t : Text} (h : best ≤ n + skip) :
    best ≤ nameLength named skip n best t := by
  fun_induction nameLength named skip n best t with
  | case1 => exact le_rfl
  | case2 n best skip b rest ih => exact ih (by omega)
  | case3 n best b rest c width hread hescape ih =>
    have := ih (by omega)
    omega
  | case4 n best b rest c width hread hescape hname ih =>
    have := ih (by omega)
    omega
  | case5 n best rest c width hread hescape hname ih => exact ih (by omega)
  | case6 => exact le_rfl

theorem size_of_name {t : Text} {x : Lexeme} (h : name t = .ok x) :
    x.size = nameLength true 0 0 0 t := by
  rw [name] at h
  split_ifs at h
  all_goals
    cases h
    rfl

theorem size_pos_of_name {t : Text} {x : Lexeme} (h : name t = .ok x) : 0 < x.size := by
  rw [size_of_name h, Nat.pos_iff_ne_zero]
  intro hzero
  -- nothing is neither a name nor one of the words that mean something
  rw [name, hzero, List.take_zero] at h
  exact absurd h (by simp +decide)

theorem size_pos_of_number {t : Text} {x : Lexeme} (h : number t = .ok x) : 0 < x.size := by
  rw [number] at h
  simp only at h
  split_ifs at h with hnone
  all_goals
    cases h
    simp only
    omega

theorem size_pos_of_string {mode : Mode} {mark : UInt8} {rest : Text} {x : Lexeme}
    (h : string mode mark rest = .ok x) : 0 < x.size := by
  rw [string] at h
  split_ifs at h
  all_goals
    obtain ⟨p, hp, rfl⟩ := map_eq_ok.mp h
    have hlt := lt_of_stringBody hp
    exact Nat.zero_lt_of_lt hlt

theorem size_pos_of_afterAt {mode : Mode} {after : Bool} {rest : Text} {x : Lexeme}
    (h : afterAt mode after rest = .ok x) : 0 < x.size := by
  rw [afterAt] at h
  split_ifs at h
  all_goals
    cases h
    exact Nat.succ_pos _

theorem size_pos_of_scanTurtle {b : UInt8} {rest : Text} {x : Lexeme}
    (h : scanTurtle b rest = .ok x) : 0 < x.size := by
  rw [scanTurtle] at h
  split at h
  · cases h
    exact Nat.one_pos
  · split_ifs at h
    · exact size_pos_of_number h
    · exact size_pos_of_name h

/-- What a token can be: its first byte tells which scanner has read it. -/
inductive Scanned (mode : Mode) (after : Bool) : UInt8 → Text → Lexeme → Prop
  | iri {rest : Text} {x : Lexeme} : iri mode rest = .ok x → Scanned mode after Ascii.lessThan rest x
  | label {rest : Text} : rest.head? = some Ascii.colon →
      Scanned mode after Ascii.underscore rest (blankLabel (Ascii.underscore :: rest))
  | string {rest : Text} {x : Lexeme} : string mode Ascii.quote rest = .ok x →
      Scanned mode after Ascii.quote rest x
  | singleQuoted {rest : Text} {x : Lexeme} : mode = .turtle →
      Scanner.string mode Ascii.apostrophe rest = .ok x → Scanned mode after Ascii.apostrophe rest x
  | tag {rest : Text} {x : Lexeme} : afterAt mode after rest = .ok x →
      Scanned mode after Ascii.atSign rest x
  | typeTag {rest : Text} : rest.head? = some Ascii.caret →
      Scanned mode after Ascii.caret rest ⟨.typeTag, "^^", 2, false⟩
  | fraction {rest : Text} {x : Lexeme} : mode = .turtle → number (Ascii.dot :: rest) = .ok x →
      Scanned mode after Ascii.dot rest x
  | period {rest : Text} : Scanned mode after Ascii.dot rest (single .period Ascii.dot)
  | semicolon {rest : Text} :
      Scanned mode after Ascii.semicolon rest (single .semicolon Ascii.semicolon)
  | comma {rest : Text} : Scanned mode after Ascii.comma rest (single .comma Ascii.comma)
  | other {b : UInt8} {rest : Text} {x : Lexeme} : mode = .turtle → scanTurtle b rest = .ok x →
      Scanned mode after b rest x

theorem scanned_of_scan {mode : Mode} {after : Bool} {b : UInt8} {rest : Text} {x : Lexeme}
    (h : scan mode after b rest = .ok x) : Scanned mode after b rest x := by
  rw [scan] at h
  by_cases hiri : b = Ascii.lessThan
  · subst hiri
    rw [if_pos rfl] at h
    exact .iri h
  rw [if_neg hiri] at h
  by_cases hlabel : b = Ascii.underscore ∧ rest.head? = some Ascii.colon
  · rw [if_pos hlabel] at h
    obtain ⟨rfl, hcolon⟩ := hlabel
    cases h
    exact .label hcolon
  rw [if_neg hlabel] at h
  by_cases hquote : b = Ascii.quote
  · subst hquote
    rw [if_pos rfl] at h
    exact .string h
  rw [if_neg hquote] at h
  by_cases hsingle : b = Ascii.apostrophe ∧ mode = .turtle
  · rw [if_pos hsingle] at h
    obtain ⟨rfl, hmode⟩ := hsingle
    exact .singleQuoted hmode h
  rw [if_neg hsingle] at h
  by_cases htag : b = Ascii.atSign
  · subst htag
    rw [if_pos rfl] at h
    exact .tag h
  rw [if_neg htag] at h
  by_cases hcaret : b = Ascii.caret
  · subst hcaret
    rw [if_pos rfl] at h
    split at h
    · next hcarets =>
      cases h
      exact .typeTag hcarets
    · cases h
  rw [if_neg hcaret] at h
  by_cases hdot : b = Ascii.dot
  · subst hdot
    rw [if_pos rfl] at h
    split at h
    · next hfraction => exact .fraction hfraction.1 h
    · cases h
      exact .period
  rw [if_neg hdot] at h
  by_cases hsemicolon : b = Ascii.semicolon
  · subst hsemicolon
    rw [if_pos rfl] at h
    cases h
    exact .semicolon
  rw [if_neg hsemicolon] at h
  by_cases hcomma : b = Ascii.comma
  · subst hcomma
    rw [if_pos rfl] at h
    cases h
    exact .comma
  rw [if_neg hcomma] at h
  by_cases hmode : mode = .turtle
  · rw [if_pos hmode] at h
    exact .other hmode h
  · rw [if_neg hmode] at h
    cases h

/-! ### The kind of a token -/

end Scanner

/-- Neither the end of a text nor a label. -/
def Kind.Ordinary (k : Kind) : Prop := k ≠ .eof ∧ k ≠ .blankNodeLabel

namespace Scanner

theorem ordinary_of_afterAt {mode : Mode} {after : Bool} {rest : Text} {x : Lexeme}
    (h : afterAt mode after rest = .ok x) : x.kind.Ordinary := by
  rw [afterAt] at h
  split_ifs at h
  all_goals
    cases h
    exact ⟨nofun, nofun⟩

theorem ordinary_of_string {mode : Mode} {mark : UInt8} {rest : Text} {x : Lexeme}
    (h : string mode mark rest = .ok x) : x.kind.Ordinary := by
  rw [string] at h
  split_ifs at h
  all_goals
    obtain ⟨p, -, rfl⟩ := map_eq_ok.mp h
    exact ⟨nofun, nofun⟩

theorem ordinary_of_number {t : Text} {x : Lexeme} (h : number t = .ok x) : x.kind.Ordinary := by
  rw [number] at h
  simp only at h
  split_ifs at h
  all_goals
    cases h
    exact ⟨nofun, nofun⟩

theorem ordinary_of_name {t : Text} {x : Lexeme} (h : name t = .ok x) : x.kind.Ordinary := by
  rw [name] at h
  split_ifs at h
  all_goals
    cases h
    exact ⟨nofun, nofun⟩

theorem ordinary_of_scanTurtle {b : UInt8} {rest : Text} {x : Lexeme}
    (h : scanTurtle b rest = .ok x) : x.kind.Ordinary := by
  rw [scanTurtle] at h
  split at h
  · next kind hkind =>
    cases h
    rw [bracket?] at hkind
    split_ifs at hkind
    all_goals
      cases hkind
      exact ⟨nofun, nofun⟩
  · split_ifs at h
    · exact ordinary_of_number h
    · exact ordinary_of_name h

/-- Where a token is read, the text has not come to its end. -/
theorem kind_ne_eof_of_scan {mode : Mode} {after : Bool} {b : UInt8} {rest : Text} {x : Lexeme}
    (h : scan mode after b rest = .ok x) : x.kind ≠ .eof := by
  cases scanned_of_scan h with
  | iri h =>
    obtain ⟨p, -, rfl⟩ := map_eq_ok.mp h
    simp only
    split_ifs <;> exact nofun
  | string h => exact (ordinary_of_string h).1
  | singleQuoted _ h => exact (ordinary_of_string h).1
  | tag h => exact (ordinary_of_afterAt h).1
  | fraction _ h => exact (ordinary_of_number h).1
  | other _ h => exact (ordinary_of_scanTurtle h).1
  | _ => exact nofun

/-! ### The size of any token -/

/-- **Every token takes at least one byte.** -/
theorem size_pos {mode : Mode} {after : Bool} {b : UInt8} {rest : Text} {x : Lexeme}
    (h : scan mode after b rest = .ok x) : 0 < x.size := by
  cases scanned_of_scan h with
  | iri h =>
    obtain ⟨p, hp, rfl⟩ := map_eq_ok.mp h
    exact Nat.zero_lt_of_lt (lt_of_iriBody hp)
  | label _ =>
    have hle : 2 ≤ nameLength false 0 2 2 ((Ascii.underscore :: rest).drop 2) := le_nameLength le_rfl
    exact Nat.zero_lt_of_lt hle
  | string h => exact size_pos_of_string h
  | singleQuoted _ h => exact size_pos_of_string h
  | tag h => exact size_pos_of_afterAt h
  | typeTag _ => exact Nat.two_pos
  | fraction _ h => exact size_pos_of_number h
  | period => exact Nat.one_pos
  | semicolon => exact Nat.one_pos
  | comma => exact Nat.one_pos
  | other _ h => exact size_pos_of_scanTurtle h

end Scanner

/-! ### Tokens one after the other -/

namespace Lexer

/-- The tokens that a lexer gives up to the end of its text, where there is no error before it. -/
inductive Reads : Lexer → List Token → Prop
  | done {l l' : Lexer} {t : Token} : l.next = (.ok t, l') → t.kind = .eof → Reads l []
  | token {l l' : Lexer} {t : Token} {ts : List Token} : l.next = (.ok t, l') → t.kind ≠ .eof →
      Reads l' ts → Reads l (t :: ts)

/-- **A token leaves less of the text than there was.** -/
theorem next_shortens {l l' : Lexer} {t : Token} (h : l.next = (.ok t, l')) (hk : t.kind ≠ .eof) :
    l'.rest.length < l.rest.length := by
  have hskip : l.skipBlank.rest.length ≤ l.rest.length := by
    simp [skipBlank, advance]
  rw [next, token] at h
  split at h
  · cases h
    exact absurd rfl hk
  · next b rest hrest =>
    split at h
    · next x hx =>
      cases h
      have hpos := Scanner.size_pos hx
      rw [hrest, List.length_cons] at hskip
      simp only [advance, hrest, List.length_drop, List.length_cons]
      omega
    · cases h

end Lexer

namespace TokenStream

/-- Tokens in front of a stream. -/
def after (ts : List Token) (rest : TokenStream) : TokenStream := ts.foldr .token rest

theorem after_nil (rest : TokenStream) : after [] rest = rest := rfl

theorem after_cons (t : Token) (ts : List Token) (rest : TokenStream) :
    after (t :: ts) rest = .token t (after ts rest) := rfl

theorem after_append (ts us : List Token) (rest : TokenStream) :
    after (ts ++ us) rest = after ts (after us rest) := by
  rw [after, after, after, List.foldr_append]

theorem length_after (ts : List Token) (rest : TokenStream) :
    (after ts rest).length = ts.length + rest.length := by
  induction ts with
  | nil => rw [after_nil, List.length_nil, Nat.zero_add]
  | cons t ts ih =>
    rw [after_cons, length, ih, List.length_cons]
    omega

end TokenStream

namespace Lexer

open TokenStream

theorem ofLexer_of_reads {l : Lexer} {ts : List Token} (h : l.Reads ts) {fuel : ℕ}
    (hfuel : l.rest.length < fuel) : ∃ p, ofLexer fuel l = after ts (.done p) := by
  induction h generalizing fuel with
  | done hnext hk =>
    obtain ⟨fuel, rfl⟩ := Nat.exists_eq_succ_of_ne_zero (Nat.ne_zero_of_lt hfuel)
    rw [ofLexer, hnext]
    simp only [hk, if_true]
    exact ⟨_, rfl⟩
  | token hnext hk _ ih =>
    obtain ⟨fuel, rfl⟩ := Nat.exists_eq_succ_of_ne_zero (Nat.ne_zero_of_lt hfuel)
    have hlt := next_shortens hnext hk
    obtain ⟨p, hp⟩ := ih (Nat.lt_of_lt_of_le hlt (Nat.le_of_lt_succ hfuel))
    rw [ofLexer, hnext]
    simp only [hk, if_false, hp]
    exact ⟨p, rfl⟩

theorem reads_of_ofLexer {l : Lexer} {ts : List Token} {fuel : ℕ} {p : Position}
    (hfuel : l.rest.length < fuel) (h : ofLexer fuel l = after ts (.done p)) : l.Reads ts := by
  induction fuel generalizing l ts with
  | zero => omega
  | succ fuel ih =>
    rw [ofLexer] at h
    split at h
    · cases ts <;> cases h
    · next t l' hnext =>
      split_ifs at h with hk
      · cases ts with
        | nil => exact .done hnext hk
        | cons t ts => cases h
      · cases ts with
        | nil => cases h
        | cons t' ts =>
          obtain ⟨rfl, hrest⟩ := TokenStream.token.inj h
          have hlt := next_shortens hnext hk
          exact .token hnext hk (ih (by omega) hrest)

/-- **A token stream without an error is the tokens that the lexer gives.** -/
theorem reads_iff_ofText {mode : Mode} {text : Text} {ts : List Token} :
    (start mode text).Reads ts ↔ ∃ p, ofText mode text = after ts (.done p) := by
  have hfuel : (start mode text).rest.length < text.length + 1 := Nat.lt_succ_self _
  constructor
  · intro h
    exact ofLexer_of_reads h hfuel
  · intro h
    obtain ⟨p, hp⟩ := h
    exact reads_of_ofLexer hfuel hp

end Lexer

end TripleStore
