import TripleStore.Proofs.Term.Plain
import TripleStore.Proofs.Token.Modes

/-!
# The tokens of texts in UTF-8

Escapes can put any code point into a token, and a backslash takes any byte along with it, but what
comes out is UTF-8 if the text is.  Where a prefixed name ends in the middle of a sequence, behind a
backslash, the text cannot be read any further: no token begins with a byte that continues one.

The scanners go byte by byte, so their invariants speak of what stands in front of the bytes at hand:
whatever makes a well-formed text with those bytes makes one with what is read from them.

* `Scanner.stringBody_wellFormed`, `Scanner.iriBody_wellFormed`, `Scanner.unescapeName_wellFormed`.
* `Scanner.nameLength_label`: what is taken for a label is one, in any text.
* `Token.Plain`: the text of a token is UTF-8, and that of a label token holds a label.
* `Lexer.Reads.plain`: **the tokens of a text in UTF-8 are plain.**
-/

namespace TripleStore

/-- The text of a token of this kind is UTF-8, and that of a label holds one. -/
structure Kind.Plain (k : Kind) (text : Text) : Prop where
  utf8 : Utf8.isWellFormed text = true
  label : k = .blankNodeLabel → Scanner.isLabel (text.drop 2) = true

/-- A token that is no label only has to be UTF-8. -/
theorem Kind.Plain.of_utf8 {k : Kind} {text : Text} (h : Utf8.isWellFormed text = true)
    (hk : decide (k = .blankNodeLabel) = false) : k.Plain text :=
  ⟨h, fun heq => absurd heq (of_decide_eq_false hk)⟩

/-- The text of a token is as the kind of the token demands. -/
def Token.Plain (t : Token) : Prop := t.kind.Plain t.text

namespace Scanner

open Utf8 (isWellFormed isWellFormed_append isWellFormed_split isWellFormed_singleton)

/-! ### Escapes -/

theorem ascii_of_hexValue? {b : UInt8} {n : ℕ} (h : Ascii.hexValue? b = some n) :
    b.toNat < 0x80 := by
  have hall : ∀ b : UInt8, (Ascii.hexValue? b).isSome → b.toNat < 0x80 := by decide +kernel
  exact hall b (by rw [h]; rfl)

theorem ascii_of_value? {t : Text} {n : ℕ} (h : Hex.value? t = some n) :
    ∀ b ∈ t, b.toNat < 0x80 := by
  induction t using List.reverseRecOn generalizing n with
  | nil => exact fun _ hb => absurd hb List.not_mem_nil
  | append_singleton t b ih =>
    rw [Hex.value?, List.foldl_append] at h
    obtain ⟨acc, hacc, h⟩ := Option.bind_eq_some_iff.mp h
    obtain ⟨digit, hdigit, -⟩ := Option.bind_eq_some_iff.mp h
    intro b' hb'
    rcases List.mem_append.mp hb' with hb' | hb'
    · exact ih hacc b' hb'
    · rw [List.mem_singleton.mp hb']
      exact ascii_of_hexValue? hdigit

/-- A numeric escape takes bytes below U+0080 and gives a code point. -/
theorem numericEscape_ok {rest : Text} {code width : ℕ}
    (h : numericEscape rest = .ok (code, width)) :
    (∀ b ∈ rest.take width, b.toNat < 0x80) ∧ Utf8.isScalar code = true := by
  cases rest with
  | nil => cases h
  | cons mark rest =>
    rw [numericEscape] at h
    split at h
    · next hmark =>
      generalize (if mark = 117 then 4 else 8) = count at h
      simp only at h
      split at h
      · cases h
      · split at h
        · next value hvalue =>
          split_ifs at h with hscalar
          cases h
          refine ⟨fun b hb => ?_, hscalar⟩
          rw [List.take_succ_cons] at hb
          rcases List.mem_cons.mp hb with rfl | hb
          · rcases hmark with rfl | rfl <;> decide
          · exact ascii_of_value? hvalue b hb
        · cases h
    · cases h

/-- What stands behind an escape is well-formed, and so is what the escape stands for. -/
theorem numericEscape_wellFormed {rest : Text} {code width : ℕ}
    (h : numericEscape rest = .ok (code, width)) (hrest : isWellFormed rest = true) :
    isWellFormed (encodeScalar code) = true ∧ isWellFormed (rest.drop width) = true := by
  obtain ⟨hascii, hscalar⟩ := numericEscape_ok h
  refine ⟨(Utf8.spells_encodeScalar hscalar).isWellFormed, ?_⟩
  rwa [← List.take_append_drop width rest,
    isWellFormed_append (Utf8.isWellFormed_of_ascii hascii)] at hrest

/-- A byte that is taken as it is moves to what stands in front. -/
theorem isWellFormed_move {u rest : Text} {b : UInt8} (h : isWellFormed (u ++ b :: rest) = true) :
    isWellFormed ((u ++ [b]) ++ rest) = true := by
  rwa [List.append_assoc, List.singleton_append]

/-! ### Strings and IRIs -/

/-- The byte that stands for the one behind a backslash may stand in its place. -/
theorem letterEscape_wellFormed {u rest : Text} {b : UInt8} (hu : isWellFormed u = true)
    (h : isWellFormed (b :: rest) = true) :
    isWellFormed ((u ++ [letterEscape b]) ++ rest) = true := by
  have hall : ∀ b : UInt8, letterEscape b = b ∨ (b.toNat < 0x80 ∧ (letterEscape b).toNat < 0x80) := by
    decide +kernel
  rw [List.append_assoc, isWellFormed_append hu, List.singleton_append]
  rcases hall b with heq | ⟨hlow, hlow'⟩
  · rwa [heq]
  · rw [← List.singleton_append, isWellFormed_append (isWellFormed_singleton hlow)] at h
    rwa [← List.singleton_append, isWellFormed_append (isWellFormed_singleton hlow')]

/-- **The value of a string is well-formed** behind whatever makes a well-formed text with the bytes
that it is read from. -/
theorem stringBody_wellFormed {mark : UInt8} {long : Bool} {skip n : ℕ} {t : Text} {p : Text × ℕ}
    (hmark : mark.toNat < 0x80) (h : stringBody mark long skip n t = .ok p) {u : Text}
    (ht : isWellFormed (u ++ t.drop skip) = true) : isWellFormed (u ++ p.1) = true := by
  fun_induction stringBody mark long skip n t generalizing p u with
  | case1 => cases h
  | case2 n skip b rest ih => exact ih h ht
  | case3 n b rest hb =>
    cases h
    obtain ⟨hu, -⟩ := isWellFormed_split (by rw [hb.2.1]; exact hmark) ht
    rw [isWellFormed_append hu]
    refine Utf8.isWellFormed_of_ascii fun b' hb' => ?_
    rw [List.eq_of_mem_replicate hb']
    exact hmark
  | case4 n b rest h1 h2 =>
    cases h
    rw [List.append_nil]
    exact (isWellFormed_split (by rw [h2.2]; exact hmark) ht).1
  | case5 => cases h
  | case6 => cases h
  | case7 n next rest hnext char detail h1 h2 hcode h3 =>
    simp only [hcode] at h
    cases h
  | case8 n next rest hnext code width h1 h2 hcode h3 ih =>
    simp only [hcode] at h
    obtain ⟨q, hq, rfl⟩ := map_eq_ok.mp h
    obtain ⟨hu, hrest⟩ := isWellFormed_split (by decide) ht
    obtain ⟨hscalar, hbehind⟩ := numericEscape_wellFormed hcode hrest
    have hvalue := ih hq (u := []) hbehind
    rwa [isWellFormed_append hu, isWellFormed_append hscalar]
  | case9 n next rest h1 h2 h3 hnext ih =>
    obtain ⟨q, hq, rfl⟩ := map_eq_ok.mp h
    obtain ⟨hu, hrest⟩ := isWellFormed_split (by decide) ht
    have hvalue := ih hq (letterEscape_wellFormed hu hrest)
    rwa [List.append_assoc] at hvalue
  | case10 n b rest h1 h2 h3 h4 ih =>
    obtain ⟨q, hq, rfl⟩ := map_eq_ok.mp h
    have hvalue := ih hq (isWellFormed_move ht)
    rwa [List.append_assoc] at hvalue

/-- **An IRI is well-formed** behind whatever makes a well-formed text with the bytes that it is read
from. -/
theorem iriBody_wellFormed {skip n : ℕ} {t : Text} {p : Text × ℕ}
    (h : iriBody skip n t = .ok p) {u : Text} (ht : isWellFormed (u ++ t.drop skip) = true) :
    isWellFormed (u ++ p.1) = true := by
  fun_induction iriBody skip n t generalizing p u with
  | case1 => cases h
  | case2 n skip b rest ih => exact ih h ht
  | case3 n rest =>
    cases h
    rw [List.append_nil]
    exact (isWellFormed_split (by decide) ht).1
  | case4 => cases h
  | case5 n rest code width hcode hb ih =>
    obtain ⟨q, hq, rfl⟩ := map_eq_ok.mp h
    obtain ⟨hu, hrest⟩ := isWellFormed_split (by decide) ht
    obtain ⟨hscalar, hbehind⟩ := numericEscape_wellFormed hcode hrest
    have hvalue := ih hq (u := []) hbehind
    rwa [isWellFormed_append hu, isWellFormed_append hscalar]
  | case6 => cases h
  | case7 => cases h
  | case8 n b rest h1 h2 h3 h4 ih =>
    obtain ⟨q, hq, rfl⟩ := map_eq_ok.mp h
    have hvalue := ih hq (isWellFormed_move ht)
    rwa [List.append_assoc] at hvalue

/-! ### Names and labels -/

/-- A name is well-formed without its backslashes, behind whatever makes a well-formed text with the
name. -/
theorem unescapeName_wellFormed {t u : Text} (ht : isWellFormed (u ++ t) = true) :
    isWellFormed (u ++ unescapeName t) = true := by
  fun_induction unescapeName t generalizing u with
  | case1 => exact ht
  | case2 b => exact ht
  | case3 c rest ih =>
    obtain ⟨hu, hrest⟩ := isWellFormed_split (by decide) ht
    have hname := ih (isWellFormed_move (by rwa [isWellFormed_append hu]))
    rwa [List.append_assoc] at hname
  | case4 b c rest hb ih =>
    have hname := ih (isWellFormed_move ht)
    rwa [List.append_assoc] at hname

/-- A code point in front of a label makes a longer one; a dot needs something behind it. -/
theorem isLabel_spelled {c : ℕ} {s t : Text} (hs : Utf8.Spells c s)
    (hc : isNameScalar c = true ∨ (c = 46 ∧ t ≠ [])) (ht : isLabel t = true) :
    isLabel (s ++ t) = true := by
  rw [isLabel_iff] at ht ⊢
  obtain ⟨hscalars, hlast⟩ := ht
  rw [hs.scalars_append, List.forall_mem_cons]
  refine ⟨⟨hc.imp_right And.left, hscalars⟩, ?_⟩
  cases t with
  | nil =>
    rw [List.append_nil]
    intro hdot
    rcases hc with hname | ⟨-, hne⟩
    · exact dot_not_mem_of_name hs hname (List.mem_of_getLast? hdot)
    · exact hne rfl
  | cons b t =>
    rwa [List.getLast?_append_of_ne_nil s (List.cons_ne_nil b t)]

/-- **What a label takes in is a label**, unless it takes in nothing. -/
theorem nameLength_label (t : Text) (n best : ℕ) :
    nameLength false 0 n best t = best ∨
      ∃ k, nameLength false 0 n best t = n + k ∧ t.take k ≠ [] ∧ isLabel (t.take k) = true := by
  induction t using Utf8.sequence_induction generalizing n best with
  | nil => exact .inl rfl
  | spelled c s t hs ih =>
    cases hc : isNameScalar c with
    | true =>
      rw [nameLength_name hs hc]
      rcases ih (n + s.length) (n + s.length) with hstop | ⟨k, hk, hne, hlabel⟩
      · refine .inr ⟨s.length, hstop, ?_, ?_⟩
        · rw [List.take_left]
          exact hs.ne_nil
        · rw [List.take_left, ← List.append_nil s]
          exact isLabel_spelled hs (.inl hc) rfl
      · refine .inr ⟨s.length + k, by omega, ?_, ?_⟩
        · rw [List.take_length_add_append]
          exact List.append_ne_nil_of_right_ne_nil s hne
        · rw [List.take_length_add_append]
          exact isLabel_spelled hs (.inl hc) hlabel
    | false =>
      by_cases hdot : c = 46
      · subst hdot
        obtain ⟨-, rfl⟩ | ⟨hhigh, -⟩ := hs.ascii_or_high
        · change nameLength false 0 n best (Ascii.dot :: t) = best ∨ ∃ k,
            nameLength false 0 n best (Ascii.dot :: t) = n + k ∧ (Ascii.dot :: t).take k ≠ [] ∧
              isLabel ((Ascii.dot :: t).take k) = true
          rw [nameLength_dot]
          rcases ih (n + 1) best with hstop | ⟨k, hk, hne, hlabel⟩
          · exact .inl hstop
          · refine .inr ⟨k + 1, by omega, List.cons_ne_nil _ _, ?_⟩
            exact isLabel_spelled hs (.inr ⟨rfl, hne⟩) hlabel
        · omega
      · exact .inl (nameLength_other hs hc hdot n best t)
  | stray a t hs _ => exact .inl (nameLength_stray hs n best)

/-- The text of a label token is a label behind its first two bytes. -/
theorem isLabel_blankLabel (t : Text) : isLabel ((blankLabel t).text.drop 2) = true := by
  have htext : (blankLabel t).text.drop 2
      = (t.drop 2).take (nameLength false 0 2 2 (t.drop 2) - 2) := List.drop_take ..
  rw [htext]
  rcases nameLength_label (t.drop 2) 2 2 with hnone | ⟨k, hk, -, hlabel⟩
  · rw [hnone]
    rfl
  · rwa [hk, Nat.add_sub_cancel_left]

/-! ### Bytes that continue a sequence -/

theorem sequence?_of_isContinuation {b : UInt8} (hb : Ascii.isContinuation b = true)
    (rest : Text) : Utf8.sequence? b rest = none := by
  have hbounds := (Utf8.isContinuation_iff b).mp hb
  unfold Utf8.sequence?
  simp only [UInt8.lt_iff_toNat_lt, UInt8.le_iff_toNat_le, Bool.and_eq_true, decide_eq_true_eq,
    UInt8.reduceToNat]
  rw [if_neg (by omega), if_neg (by omega), if_neg (by omega), if_neg (by omega)]

/-- **No token begins with a byte that continues a sequence.** -/
theorem isContinuation_of_scan {mode : Mode} {after : Bool} {b : UInt8} {rest : Text} {x : Lexeme}
    (h : scan mode after b rest = .ok x) : Ascii.isContinuation b = false := by
  cases scanned_of_scan h with
  | other _ h =>
    by_contra hb
    rw [Bool.not_eq_false] at hb
    have hplain : ∀ b : UInt8, Ascii.isContinuation b = true → bracket? b = none ∧
        (Ascii.isDigit b || b == Ascii.plus || b == Ascii.minus) = false := by decide +kernel
    obtain ⟨hbracket, hnumber⟩ := hplain b hb
    rw [scanTurtle, hbracket, hnumber] at h
    simp only [Bool.false_eq_true, if_false] at h
    split_ifs at h with hhead
    have hsize : x.size = nameLength true 0 0 0 (b :: rest) := size_of_name h
    have hpos := size_pos_of_name h
    rw [nameLength_stray (sequence?_of_isContinuation hb rest)] at hsize
    omega
  | _ => decide

/-! ### Single tokens -/

theorem string_plain {mode : Mode} {mark : UInt8} {rest : Text} {x : Lexeme}
    (hmark : mark.toNat < 0x80) (h : string mode mark rest = .ok x)
    (hrest : isWellFormed rest = true) : x.kind.Plain x.text := by
  rw [string] at h
  split_ifs at h with hlong
  · obtain ⟨p, hp, rfl⟩ := map_eq_ok.mp h
    obtain ⟨r, rfl⟩ := exists_of_le_runLength hlong.2
    have hr : isWellFormed r = true := (isWellFormed_split (s := [mark]) hmark hrest).2
    exact .of_utf8 (stringBody_wellFormed hmark hp (u := []) hr) rfl
  · obtain ⟨p, hp, rfl⟩ := map_eq_ok.mp h
    exact .of_utf8 (stringBody_wellFormed hmark hp (u := []) hrest) rfl

theorem afterAt_plain {mode : Mode} {after : Bool} {rest : Text} {x : Lexeme}
    (h : afterAt mode after rest = .ok x) : x.kind.Plain x.text := by
  have htag : ∀ b : UInt8, isTagByte b = true → b.toNat < 0x80 := by decide +kernel
  have hdirective : isWellFormed "@prefix" = true := by decide +kernel
  have hbase : isWellFormed "@base" = true := by decide +kernel
  rw [afterAt] at h
  split_ifs at h
  · cases h
    exact .of_utf8 hdirective rfl
  · cases h
    exact .of_utf8 hbase rfl
  · cases h
    exact .of_utf8 (Utf8.isWellFormed_of_ascii fun b hb => htag b (List.mem_takeWhile_imp hb)) rfl

theorem number_plain {t : Text} {x : Lexeme} (h : number t = .ok x)
    (ht : isWellFormed (t.take x.size) = true) : x.kind.Plain x.text := by
  rw [number] at h
  simp only at h
  split_ifs at h
  all_goals
    cases h
    exact .of_utf8 ht rfl

theorem name_plain {t : Text} {x : Lexeme} (h : name t = .ok x)
    (ht : isWellFormed (t.take x.size) = true) : x.kind.Plain x.text := by
  rw [name] at h
  split_ifs at h
  · cases h
    exact .of_utf8 (unescapeName_wellFormed (u := []) ht) rfl
  all_goals
    cases h
    exact .of_utf8 ht rfl

theorem scanTurtle_plain {b : UInt8} {rest : Text} {x : Lexeme} (h : scanTurtle b rest = .ok x)
    (ht : isWellFormed ((b :: rest).take x.size) = true) : x.kind.Plain x.text := by
  have hbracket : ∀ b : UInt8, (bracket? b).isSome → b.toNat < 0x80 := by decide +kernel
  rw [scanTurtle] at h
  split at h
  · next kind hkind =>
    cases h
    refine ⟨isWellFormed_singleton (hbracket b (by rw [hkind]; rfl)), fun hk => ?_⟩
    have hne : ∀ b : UInt8, bracket? b ≠ some .blankNodeLabel := by decide +kernel
    exact absurd (hkind.trans (congrArg some hk)) (hne b)
  · split_ifs at h
    · exact number_plain h ht
    · exact name_plain h ht

/-- **A token of bytes in UTF-8 is plain.** -/
theorem scan_plain {mode : Mode} {after : Bool} {b : UInt8} {rest : Text} {x : Lexeme}
    (h : scan mode after b rest = .ok x) (hall : isWellFormed (b :: rest) = true)
    (ht : isWellFormed ((b :: rest).take x.size) = true) : x.kind.Plain x.text := by
  have hrest (hb : b.toNat < 0x80) : isWellFormed rest = true :=
    (isWellFormed_split (s := []) hb hall).2
  cases scanned_of_scan h with
  | iri h =>
    obtain ⟨p, hp, rfl⟩ := map_eq_ok.mp h
    refine ⟨iriBody_wellFormed hp (u := []) (hrest (by decide)), fun hk => ?_⟩
    simp only at hk
    split_ifs at hk
  | label _ => exact ⟨ht, fun _ => isLabel_blankLabel _⟩
  | string h => exact string_plain (by decide) h (hrest (by decide))
  | singleQuoted _ h => exact string_plain (by decide) h (hrest (by decide))
  | tag h => exact afterAt_plain h
  | typeTag _ => exact .of_utf8 (by decide +kernel) rfl
  | fraction _ h => exact number_plain h ht
  | period => exact .of_utf8 (by decide) rfl
  | semicolon => exact .of_utf8 (by decide) rfl
  | comma => exact .of_utf8 (by decide) rfl
  | other _ h => exact scanTurtle_plain h ht

end Scanner

/-! ### All tokens -/

namespace Lexer

open Utf8 (isWellFormed)

variable {l : Lexer} {ts : List Token}

/-- Where a text is read to its end, no byte at hand continues a sequence. -/
theorem Reads.isContinuation_head (h : l.Reads ts) {b : UInt8} {rest : Text}
    (hrest : l.skipBlank.rest = b :: rest) : Ascii.isContinuation b = false := by
  obtain ⟨t, m, hnext⟩ := h.exists_next
  rcases next_cases hnext with ⟨hnil, -, -⟩ | ⟨b', rest', x, hcons, hx, -, -⟩
  · rw [hrest] at hnil
    cases hnil
  · rw [hrest] at hcons
    cases hcons
    exact Scanner.isContinuation_of_scan hx

/-- No white space and no comment begins with a byte that continues a sequence. -/
theorem blankLength_of_isContinuation {b : UInt8} (hb : Ascii.isContinuation b = true)
    (rest : Text) : blankLength false (b :: rest) = 0 := by
  have hall : ∀ b : UInt8, Ascii.isContinuation b = true →
      ¬ (b = Ascii.space ∨ b = Ascii.tab ∨ b = Ascii.lineFeed ∨ b = Ascii.carriageReturn) ∧
        b ≠ Ascii.hash := by decide +kernel
  obtain ⟨hwhite, hhash⟩ := hall b hb
  rw [blankLength, if_neg hwhite, if_neg hhash]

/-- White space and comments end between two sequences. -/
theorem Reads.skipBlank_wellFormed (h : l.Reads ts) (hl : isWellFormed l.rest = true) :
    isWellFormed l.skipBlank.rest = true := by
  rcases Utf8.isWellFormed_cut hl (blankLength false l.rest) with ⟨-, hrest⟩ | ⟨b, rest, hdrop, hb⟩
  · exact hrest
  · rw [h.isContinuation_head hdrop] at hb
    cases hb

/-- **The tokens of a text in UTF-8 are plain.** -/
theorem Reads.plain (h : l.Reads ts) (hl : isWellFormed l.rest = true) : ∀ t ∈ ts, t.Plain := by
  induction h with
  | done _ _ => exact fun _ ht => absurd ht List.not_mem_nil
  | @token l l' t ts hnext hk hlater ih =>
    have hskip := (Reads.token hnext hk hlater).skipBlank_wellFormed hl
    rcases next_cases hnext with ⟨-, rfl, -⟩ | ⟨b, rest, x, hrest, hx, rfl, rfl⟩
    · exact absurd rfl hk
    · rw [hrest] at hskip
      -- a token that ended within a sequence would be the last one
      obtain ⟨htake, hdrop⟩ : isWellFormed ((b :: rest).take x.size) = true ∧
          isWellFormed ((b :: rest).drop x.size) = true := by
        refine (Utf8.isWellFormed_cut hskip x.size).resolve_right ?_
        intro hwithin
        obtain ⟨b', rest', heq, hb'⟩ := hwithin
        have hlast : (l.skipBlank.advance x.size).rest = b' :: rest' := by
          rw [← heq, ← hrest]
          rfl
        have hhead := hlater.isContinuation_head
          (skipBlank_rest_of_head hlast (blankLength_of_isContinuation hb' rest'))
        rw [hb'] at hhead
        cases hhead
      refine List.forall_mem_cons.mpr ⟨?_, ih ?_⟩
      · exact Scanner.scan_plain hx hskip htake
      · show isWellFormed (l.skipBlank.rest.drop x.size) = true
        rw [hrest]
        exact hdrop

end Lexer

end TripleStore
