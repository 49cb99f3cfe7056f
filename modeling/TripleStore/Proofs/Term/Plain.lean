import TripleStore.Blank.Supply
import TripleStore.Proofs.Term.RoundTrip

/-!
# Terms in plain text

The rules for terms leave open which bytes are UTF-8, and let labels hold more than the scanner of
labels takes in.  Where neither is made use of, the rules are enough: a term that obeys them is read
back from its text.

* `Term.isPlain`, `Draft.isPlain`: texts in UTF-8, and labels that the scanner takes in as a whole.
* `Term.parseTerm_of_isPlain`: **a plain term that breaks no rule is read back.**
* `renderIri_injOn`: IRIs in UTF-8 have different texts, also where they break the rules.
-/

namespace TripleStore

/-- Whether the scanner takes in a text as a label. -/
def Scanner.isLabel (l : Text) : Bool :=
  (Utf8.scalars l).all (fun c => isNameScalar c || c = 46) && l.getLast? != some Ascii.dot

theorem Scanner.isLabel_iff {l : Text} : isLabel l = true ↔
    (∀ c ∈ Utf8.scalars l, isNameScalar c = true ∨ c = 46) ∧ l.getLast? ≠ some Ascii.dot := by
  simp [isLabel]

/-- Whether the texts of a term are UTF-8, and its label is one that the scanner takes in. -/
def Term.isPlain : Term → Bool
  | .iri i => Utf8.isWellFormed i
  | .blank l => Scanner.isLabel l
  | .lang v _ => Utf8.isWellFormed v
  | .typed v d => Utf8.isWellFormed v && Utf8.isWellFormed d

/-- Whether the terms of a draft are plain, apart from its graph. -/
def Draft.isPlain (d : Draft) : Bool :=
  d.subject.all (·.toTerm.isPlain) && (Term.iri d.predicate).isPlain && d.object.all Term.isPlain

theorem readBack_of_isWellFormed {t : Text} (escape? : ℕ → Option Text)
    (h : Utf8.isWellFormed t = true) : Render.readBack escape? t = t :=
  (Render.readBack_eq_self_iff escape? t).mpr (.inl h)

/-- **A plain term that breaks no rule is read back from its text.** -/
theorem Term.parseTerm_of_isPlain {t : Term} (hp : t.isPlain = true) (hv : t.violation? = none) :
    NTriples.parseTerm t.render = .ok t := by
  cases t with
  | iri i =>
    have hi : isIdentifier i = true := by simpa [violation?] using hv
    exact (NTriples.parseTerm_iri_iff hi).mpr (readBack_of_isWellFormed _ hp)
  | blank l =>
    have hl : isIdentifier l = true := by simpa [violation?] using hv
    exact (NTriples.parseTerm_blank_iff hl).mpr (Scanner.isLabel_iff.mp hp)
  | lang v tag =>
    have htag : isLanguageTag tag = true := by simpa [violation?] using hv
    exact (NTriples.parseTerm_lang_iff htag).mpr (readBack_of_isWellFormed _ hp)
  | typed v d =>
    have hd : isIdentifier d = true := by simpa [violation?] using hv
    obtain ⟨hv, hd'⟩ := Bool.and_eq_true_iff.mp hp
    exact (NTriples.parseTerm_typed_iff hd).mpr
      ⟨readBack_of_isWellFormed _ hd', readBack_of_isWellFormed _ hv⟩

/-! ### Statements -/

theorem Draft.violation?_of_check {d : Draft} {s : Statement} (h : d.check = .ok s) :
    d.violation? = none := by
  rw [Draft.check] at h
  cases hv : d.violation? with
  | none => rfl
  | some v =>
    rw [hv] at h
    cases h

/-- What is known of a statement that breaks no rule. -/
theorem Draft.valid_of_violation? {d : Draft} (hv : d.violation? = none) :
    (∃ n, d.subject = some n ∧ n.toTerm.violation? = none) ∧
      (Term.iri d.predicate).violation? = none ∧ ∃ o, d.object = some o ∧ o.violation? = none := by
  rw [Draft.violation?] at hv
  cases hs : d.subject with
  | none =>
    rw [hs] at hv
    cases hv
  | some n =>
    rw [hs] at hv
    simp only [Option.orElse_eq_orElse, Option.orElse_eq_or, Option.or_eq_none_iff] at hv
    obtain ⟨hn, hp, ho, -⟩ := hv
    refine ⟨⟨n, rfl, hn⟩, hp, ?_⟩
    cases hobj : d.object with
    | none =>
      rw [hobj] at ho
      cases ho
    | some o =>
      rw [hobj] at ho
      exact ⟨o, rfl, ho⟩

/-- The terms of a plain statement that breaks no rule are read back. -/
theorem Draft.parseTerm_of_isPlain {d : Draft} (hp : d.isPlain = true) (hv : d.violation? = none) :
    (∀ n, d.subject = some n → NTriples.parseTerm n.toTerm.render = .ok n.toTerm) ∧
      NTriples.parseTerm (renderIri d.predicate) = .ok (.iri d.predicate) ∧
      ∀ o, d.object = some o → NTriples.parseTerm o.render = .ok o := by
  obtain ⟨⟨n, hs, hn⟩, hpred, o, hobj, ho⟩ := Draft.valid_of_violation? hv
  rw [Draft.isPlain, hs, hobj] at hp
  simp only [Option.all_some, Bool.and_eq_true] at hp
  obtain ⟨⟨hpn, hpp⟩, hpo⟩ := hp
  refine ⟨fun n' hn' => ?_, Term.parseTerm_of_isPlain hpp hpred, fun o' ho' => ?_⟩
  · obtain rfl := Option.some.inj (hs.symm.trans hn')
    exact Term.parseTerm_of_isPlain hpn hn
  · obtain rfl := Option.some.inj (hobj.symm.trans ho')
    exact Term.parseTerm_of_isPlain hpo ho

/-! ### Labels of new nodes -/

/-- Bytes that may stand anywhere in a label. -/
def isWordByte (b : UInt8) : Bool :=
  b.toNat < 0x80 && Scanner.isNameScalar b.toNat && !isForbidden b

theorem Utf8.scalars_of_ascii {t : Text} (h : ∀ b ∈ t, b.toNat < 0x80) :
    scalars t = t.map UInt8.toNat := by
  induction t with
  | nil => rfl
  | cons b t ih =>
    obtain ⟨hb, ht⟩ := List.forall_mem_cons.mp h
    have hs := (Spells.one hb).scalars_append t
    rw [List.singleton_append] at hs
    rw [hs, ih ht, List.map_cons]

theorem isLabel_of_isWordByte {l : Text} (h : ∀ b ∈ l, isWordByte b = true) :
    Scanner.isLabel l = true := by
  have hword : ∀ b ∈ l, b.toNat < 0x80 ∧ Scanner.isNameScalar b.toNat = true := by
    intro b hb
    have hw := h b hb
    rw [isWordByte, Bool.and_eq_true, Bool.and_eq_true, decide_eq_true_eq] at hw
    exact hw.1
  rw [Scanner.isLabel_iff, Utf8.scalars_of_ascii fun b hb => (hword b hb).1]
  constructor
  · intro c hc
    obtain ⟨b, hb, rfl⟩ := List.mem_map.mp hc
    exact .inl (hword b hb).2
  · intro hlast
    exact absurd (h _ (List.mem_of_getLast? hlast)) (by decide)

/-- The label of a new node is read back. -/
theorem Supply.parseTerm_drawEntity (s : Supply) :
    NTriples.parseTerm (Term.blank s.drawEntity.1).render = .ok (.blank s.drawEntity.1) := by
  have hdigit : ∀ k, k < 16 → isWordByte (Ascii.hexDigit k) = true := by decide
  have hstem : ∀ b ∈ Text.ofString "ntity_", isWordByte b = true := by decide +kernel
  have hrest : ∀ b ∈ Text.ofString "ntity_" ++ Hex.padded 32 (identifier (s.entities + 1)),
      isWordByte b = true := by
    intro b hb
    rcases List.mem_append.mp hb with hb | hb
    · exact hstem b hb
    · obtain ⟨i, -, rfl⟩ := List.mem_map.mp hb
      exact hdigit _ (Nat.mod_lt _ (by decide))
  have hlabel : s.drawEntity.1 = 101 :: (Text.ofString "ntity_" ++
      Hex.padded 32 (identifier (s.entities + 1))) := rfl
  rw [hlabel]
  refine Term.parseTerm_of_isPlain (isLabel_of_isWordByte ?_) ?_
  · intro b hb
    rcases List.mem_cons.mp hb with rfl | hb
    · decide
    · exact hrest b hb
  · have hid : isIdentifier (101 :: (Text.ofString "ntity_" ++
        Hex.padded 32 (identifier (s.entities + 1)))) = true := by
      rw [isIdentifier, Bool.and_eq_true, Bool.not_eq_true', List.any_eq_false]
      refine ⟨by decide, fun b hb => ?_⟩
      have hw := hrest b hb
      rw [isWordByte, Bool.and_eq_true] at hw
      simpa using hw.2
    simp [Term.violation?, hid]

/-! ### Texts of IRIs -/

namespace Scanner

/-- The code point at the front of what is written between angle brackets is told apart from
others, whatever follows. -/
theorem spelledInIri_append_inj {c d : ℕ} {s s' t t' : Text} (hc : Utf8.Spells c s)
    (hd : Utf8.Spells d s') (h : spelledInIri c ++ t = spelledInIri d ++ t') : c = d ∧ t = t' := by
  -- a byte that is not written as an escape is no backslash
  have hplain : ∀ {e : ℕ} {u v w : Text}, Utf8.Spells e u → Render.iriEscape? e = none →
      u ++ v ≠ Ascii.backslash :: w := by
    intro e u v w hu he heq
    rcases hu.ascii_or_high with ⟨hlow, rfl⟩ | ⟨-, hhigh⟩
    · have hb := congrArg UInt8.toNat (List.cons.inj heq).1
      rw [Nat.toUInt8_eq, UInt8.toNat_ofNat', Nat.mod_eq_of_lt (by omega)] at hb
      rw [show e = 92 from hb] at he
      exact absurd he (by decide)
    · obtain ⟨b, u, rfl⟩ := List.exists_cons_of_ne_nil hu.ne_nil
      have hb := hhigh b List.mem_cons_self
      rw [(List.cons.inj heq).1] at hb
      exact absurd hb (by decide)
  unfold spelledInIri at h
  cases hce : Render.iriEscape? c with
  | some e =>
    obtain ⟨digits, rfl, hlen, hvalue, -⟩ := iriEscape?_eq_some hce
    cases hde : Render.iriEscape? d with
    | some e' =>
      obtain ⟨digits', rfl, hlen', hvalue', -⟩ := iriEscape?_eq_some hde
      rw [hce, hde] at h
      obtain ⟨hdigits, ht⟩ := List.append_inj
        (List.cons.inj (List.cons.inj h).2).2 (hlen.trans hlen'.symm)
      rw [hdigits, hvalue'] at hvalue
      exact ⟨(Option.some.inj hvalue).symm, ht⟩
    | none =>
      rw [hce, hde, Option.getD_none, hd.encodeScalar_eq] at h
      exact absurd h.symm (hplain hd hde)
  | none =>
    rw [hce, Option.getD_none, hc.encodeScalar_eq] at h
    cases hde : Render.iriEscape? d with
    | some e' =>
      obtain ⟨digits', rfl, -⟩ := iriEscape?_eq_some hde
      rw [hde] at h
      exact absurd h (hplain hc hce)
    | none =>
      rw [hde, Option.getD_none, hd.encodeScalar_eq] at h
      obtain ⟨a, s, rfl⟩ := List.exists_cons_of_ne_nil hc.ne_nil
      obtain ⟨b, s', rfl⟩ := List.exists_cons_of_ne_nil hd.ne_nil
      obtain ⟨rfl, hrest⟩ := List.cons.inj h
      have hfirst := hc.sequence?_eq t
      rw [show s ++ t = s' ++ t' from hrest, hd.sequence?_eq t'] at hfirst
      obtain ⟨rfl, hlen⟩ := Prod.mk.inj (Option.some.inj hfirst)
      exact ⟨rfl, (List.append_inj hrest (by omega)).2⟩

theorem flatMap_spelledInIri_inj {cs ds : List ℕ} (hcs : ∀ c ∈ cs, ∃ s, Utf8.Spells c s)
    (hds : ∀ d ∈ ds, ∃ s, Utf8.Spells d s) (h : cs.flatMap spelledInIri = ds.flatMap spelledInIri) :
    cs = ds := by
  have hne : ∀ {c s}, Utf8.Spells c s → spelledInIri c ≠ [] := by
    intro c s hc
    unfold spelledInIri
    cases he : Render.iriEscape? c with
    | some e =>
      obtain ⟨digits, rfl, -⟩ := iriEscape?_eq_some he
      exact List.cons_ne_nil _ _
    | none =>
      rw [Option.getD_none, hc.encodeScalar_eq]
      exact hc.ne_nil
  induction cs generalizing ds with
  | nil =>
    cases ds with
    | nil => rfl
    | cons d ds =>
      obtain ⟨s, hd⟩ := hds d List.mem_cons_self
      exact absurd (List.append_eq_nil_iff.mp h.symm).1 (hne hd)
  | cons c cs ih =>
    obtain ⟨s, hc⟩ := hcs c List.mem_cons_self
    cases ds with
    | nil => exact absurd (List.append_eq_nil_iff.mp h).1 (hne hc)
    | cons d ds =>
      obtain ⟨s', hd⟩ := hds d List.mem_cons_self
      rw [List.flatMap_cons, List.flatMap_cons] at h
      obtain ⟨rfl, hrest⟩ := spelledInIri_append_inj hc hd h
      rw [ih (fun c hc => hcs c (List.mem_cons_of_mem _ hc))
        (fun d hd => hds d (List.mem_cons_of_mem _ hd)) hrest]

end Scanner

theorem escapeIri_of_isWellFormed {i : Iri} (h : Utf8.isWellFormed i = true) :
    escapeIri i = (Utf8.scalars i).flatMap Scanner.spelledInIri := by
  unfold escapeIri Render.escapeWith
  split_ifs with hany
  · rfl
  · -- nothing is escaped, so each code point is written as it is
    have hnone : ∀ c ∈ Utf8.scalars i, Render.iriEscape? c = none := by
      intro c hc
      by_contra hsome
      have hlow : c < 0x80 := by
        rw [Render.iriEscape?] at hsome
        split_ifs at hsome with hcases
        · omega
        · exact absurd rfl hsome
      refine hany (List.any_eq_true.mpr ⟨_, Utf8.mem_of_mem_scalars hc hlow, ?_⟩)
      rw [Nat.toUInt8_eq, UInt8.toNat_ofNat', Nat.mod_eq_of_lt (by omega)]
      exact Option.isSome_iff_ne_none.mpr hsome
    have hsame : (Utf8.scalars i).flatMap Scanner.spelledInIri = Utf8.repaired i := by
      refine List.flatMap_congr fun c hc => ?_
      rw [Scanner.spelledInIri, hnone c hc, Option.getD_none]
    rw [hsame, (Utf8.repaired_eq_self_iff i).mpr h]

/-- **IRIs in UTF-8 have different texts.** -/
theorem renderIri_injOn : Set.InjOn renderIri {i | Utf8.isWellFormed i = true} := by
  intro i hi j hj h
  rw [renderIri_eq, renderIri_eq] at h
  have hescaped := (List.append_inj' (List.cons.inj h).2 rfl).1
  rw [escapeIri_of_isWellFormed hi, escapeIri_of_isWellFormed hj] at hescaped
  have hscalars := Scanner.flatMap_spelledInIri_inj (fun _ => Utf8.exists_spells_of_mem)
    (fun _ => Utf8.exists_spells_of_mem) hescaped
  rw [← (Utf8.repaired_eq_self_iff i).mpr hi, ← (Utf8.repaired_eq_self_iff j).mpr hj,
    Utf8.repaired, Utf8.repaired, hscalars]

end TripleStore
