import TripleStore.Proofs.Parse.Shift
import TripleStore.Proofs.Term.Plain

/-!
# Terms that a document can hold

The labels of a document's nodes come from the supply: an anonymous node has a number, and a label of
the document has one behind it.  Such labels can be written down again, and so can every other term
that a document in UTF-8 holds.

Which texts a document is made of matters little to this: it may be any class of texts that reading
does not lead out of, such as the texts in UTF-8, or all texts.

* `TextClass`: the classes of texts that reading does not lead out of.
* `Scope.Plain`: a scope whose labels can be written down, each with a number behind it.
* `Scope.Allows`, `Statement.Among`: valid terms and statements made of texts of a class, with labels
  that were drawn for a document; `Scope.Admits`, `Statement.Within` for the texts in UTF-8.
* `Meaning.Yields`: what comes out of a part of a document, with one rule for each way of putting
  meanings together.
-/

namespace TripleStore

/-! ### Labels with numbers -/

theorem isWordByte_underscore : isWordByte Ascii.underscore = true := by decide

theorem isWordByte_of_isDigit {b : UInt8} (h : Ascii.isDigit b = true) : isWordByte b = true := by
  have hall : ∀ b : UInt8, Ascii.isDigit b = true → isWordByte b = true := by decide +kernel
  exact hall b h

namespace Scanner

/-- A label is UTF-8. -/
theorem isWellFormed_of_isLabel {l : Text} (h : isLabel l = true) :
    Utf8.isWellFormed l = true := by
  have hscalars := (isLabel_iff.mp h).1
  clear h
  induction l using Utf8.sequence_induction with
  | nil => rfl
  | spelled c s t hs ih =>
    rw [hs.isWellFormed_append]
    rw [hs.scalars_append] at hscalars
    exact ih fun d hd => hscalars d (List.mem_cons_of_mem c hd)
  | stray a t hstray _ =>
    rw [Utf8.scalars_stray hstray] at hscalars
    exact absurd (hscalars _ List.mem_cons_self) (by decide)

/-- A label goes on with letters, digits and low lines. -/
theorem isLabel_append {l w : Text} (hl : isLabel l = true) (hw : ∀ b ∈ w, isWordByte b = true)
    (hne : w ≠ []) : isLabel (l ++ w) = true := by
  have hword := isLabel_iff.mp (isLabel_of_isWordByte hw)
  rw [isLabel_iff, Utf8.scalars_append (isWellFormed_of_isLabel hl)]
  refine ⟨fun c hc => ?_, ?_⟩
  · rcases List.mem_append.mp hc with hc | hc
    · exact (isLabel_iff.mp hl).1 c hc
    · exact hword.1 c hc
  · rw [List.getLast?_append_of_ne_nil l hne]
    exact hword.2

theorem isLabel_numbered {l : Text} (hl : isLabel l = true) (n : ℕ) :
    isLabel (numbered l n) = true := by
  rw [numbered_eq]
  refine isLabel_append hl (fun b hb => ?_) (List.cons_ne_nil _ _)
  rcases List.mem_cons.mp hb with rfl | hb
  · exact isWordByte_underscore
  · exact isWordByte_of_isDigit (Text.isDigit_ofNat hb)

end Scanner

theorem isWordByte_of_mem_anonymousLabel {n : UInt64} {b : UInt8} (hb : b ∈ anonymousLabel n) :
    isWordByte b = true := by
  have hstem : ∀ b ∈ Text.ofString "ANON", isWordByte b = true := by decide +kernel
  rcases List.mem_append.mp hb with hb | hb
  · exact hstem b hb
  · exact isWordByte_of_isDigit (Text.isDigit_ofNat hb)

theorem isIdentifier_anonymousLabel (n : UInt64) : isIdentifier (anonymousLabel n) = true := by
  have hcons : anonymousLabel n = 65 :: (Text.ofString "NON" ++ Text.ofNat n.toNat) := rfl
  have hword : ∀ b ∈ anonymousLabel n, isWordByte b = true :=
    fun b hb => isWordByte_of_mem_anonymousLabel hb
  rw [hcons] at hword ⊢
  rw [isIdentifier, Bool.and_eq_true, Bool.not_eq_true', List.any_eq_false]
  refine ⟨by decide, fun b hb => ?_⟩
  have hb := hword b (List.mem_cons_of_mem _ hb)
  rw [isWordByte, Bool.and_eq_true] at hb
  simpa using hb.2

/-! ### Classes of texts -/

/-- The two parts of a text that is cut at a byte. -/
theorem Text.eq_of_cut {b : UInt8} {t : Text} {p : Text × Text} (h : Text.cut b t = some p) :
    t = p.1 ++ b :: p.2 := by
  induction t generalizing p with
  | nil => cases h
  | cons c t ih =>
    rw [Text.cut] at h
    split_ifs at h with hc
    · cases h
      rw [hc]
      rfl
    · obtain ⟨q, hq, rfl⟩ := Option.map_eq_some_iff.mp h
      rw [ih hq]
      rfl

/-- A class of texts that reading does not lead out of: texts are put together, and a prefixed name
is cut at its colon. -/
structure TextClass where
  holds : Text → Prop
  ascii : ∀ {t : Text}, (∀ b ∈ t, b.toNat < 0x80) → holds t
  append : ∀ {s t : Text}, holds s → holds t → holds (s ++ t)
  cut : ∀ {t : Text} {p : Text × Text}, Text.cut Ascii.colon t = some p → holds t → holds p.2

namespace TextClass

/-- All texts. -/
def all : TextClass := ⟨fun _ => True, fun _ => trivial, fun _ _ => trivial, fun _ _ => trivial⟩

/-- The texts in UTF-8. -/
def utf8 : TextClass where
  holds t := Utf8.isWellFormed t = true
  ascii := Utf8.isWellFormed_of_ascii
  append := by
    intro s t hs ht
    rwa [Utf8.isWellFormed_append hs]
  cut := by
    intro t p hcut ht
    rw [Text.eq_of_cut hcut] at ht
    exact (Utf8.isWellFormed_split (by decide) ht).2

theorem nil (T : TextClass) : T.holds [] := T.ascii fun _ h => absurd h List.not_mem_nil

end TextClass

/-- The texts of a term are of a class, and its label is one that the scanner takes in. -/
def Term.MadeOf (T : TextClass) : Term → Prop
  | .iri i => T.holds i
  | .blank l => Scanner.isLabel l
  | .lang v _ => T.holds v
  | .typed v d => T.holds v ∧ T.holds d

theorem Term.madeOf_utf8_iff {t : Term} : t.MadeOf .utf8 ↔ t.isPlain = true := by
  cases t with
  | typed v d =>
    rw [isPlain, Bool.and_eq_true]
    exact Iff.rfl
  | _ => exact Iff.rfl

/-- The names that stand in statements without standing in the text. -/
def Vocabulary.names : List Iri := [string, integer, decimal, double, boolean, type, first, rest, nil]

/-! ### Labels that were drawn for a document -/

namespace Scope

/-- The labels of a scope can be written down, and every node is its label with a number behind it. -/
structure Plain (scope : Scope) : Prop where
  numbered : scope.Numbered
  valid : ∀ label node, scope.find? label = some node → isIdentifier label = true
  label : ∀ label node, scope.find? label = some node → Scanner.isLabel label = true

/-- The label of an anonymous node, or of a node of the scope. -/
def Draws (scope : Scope) (l : Text) : Prop :=
  (∃ n, l = anonymousLabel n) ∨ ∃ label, scope.find? label = some l

/-- A term that breaks no rule and is made of texts of a class; its label was drawn for a
document. -/
structure Allows (scope : Scope) (T : TextClass) (t : Term) : Prop where
  valid : t.violation? = none
  made : t.MadeOf T
  drawn : ∀ l, t = .blank l → scope.Draws l

/-- A term that breaks no rule and can be written down; its label was drawn for a document. -/
structure Admits (scope : Scope) (t : Term) : Prop where
  valid : t.violation? = none
  plain : t.isPlain = true
  drawn : ∀ l, t = .blank l → scope.Draws l

variable {scope later : Scope}

theorem plain_empty : Plain {} :=
  ⟨numbered_empty, (fun _ _ h => nomatch h), (fun _ _ h => nomatch h)⟩

theorem Plain.resolve (h : scope.Plain) (supply : Supply) {label : Text}
    (hid : isIdentifier label = true) (hlabel : Scanner.isLabel label = true) :
    (scope.resolve supply label).2.1.Plain := by
  have hknown : ∀ other node, (scope.resolve supply label).2.1.find? other = some node →
      isIdentifier other = true ∧ Scanner.isLabel other = true := by
    intro other node hnode
    rw [Scope.resolve] at hnode
    cases hfind : scope.find? label with
    | some _ =>
      rw [hfind] at hnode
      exact ⟨h.valid other node hnode, h.label other node hnode⟩
    | none =>
      rw [hfind] at hnode
      change List.lookup other ((label, _) :: scope.known) = some node at hnode
      rw [List.lookup_cons] at hnode
      cases heq : other == label with
      | true =>
        rw [eq_of_beq heq]
        exact ⟨hid, hlabel⟩
      | false =>
        rw [heq] at hnode
        exact ⟨h.valid other node hnode, h.label other node hnode⟩
  exact ⟨h.numbered.resolve supply label, fun l n hn => (hknown l n hn).1,
    fun l n hn => (hknown l n hn).2⟩

theorem Draws.mono {l : Text} (h : scope.Draws l) (hlater : scope.Keeps later) : later.Draws l := by
  rcases h with hanonymous | ⟨label, hlabel⟩
  · exact .inl hanonymous
  · exact .inr ⟨label, hlater label l hlabel⟩

theorem allows_utf8_iff {t : Term} :
    scope.Allows .utf8 t ↔ scope.Admits t :=
  ⟨fun h => ⟨h.valid, Term.madeOf_utf8_iff.mp h.made, h.drawn⟩,
    fun h => ⟨h.valid, Term.madeOf_utf8_iff.mpr h.plain, h.drawn⟩⟩

variable {T : TextClass}

theorem Allows.mono {t : Term} (h : scope.Allows T t) (hlater : scope.Keeps later) :
    later.Allows T t :=
  ⟨h.valid, h.made, fun l hl => (h.drawn l hl).mono hlater⟩

/-- A term without a label is allowed as soon as it is valid and made of the right texts. -/
theorem allows_of_ne_blank {t : Term} (hv : t.violation? = none) (hm : t.MadeOf T)
    (hne : ∀ l, t ≠ .blank l) : scope.Allows T t :=
  ⟨hv, hm, fun l hl => absurd hl (hne l)⟩

theorem allows_iri {i : Iri} (hid : isIdentifier i = true) (hi : T.holds i) : scope.Allows T (.iri i) :=
  allows_of_ne_blank (Term.violation?_iri.mpr hid) hi fun _ h => nomatch h

theorem allows_typed {v : Text} {d : Iri} (hv : T.holds v) (hd : scope.Allows T (.iri d)) :
    scope.Allows T (.typed v d) :=
  allows_of_ne_blank (Term.violation?_typed.mpr (Term.violation?_iri.mp hd.valid)) ⟨hv, hd.made⟩
    fun _ h => nomatch h

theorem allows_vocabulary {i : Iri} (h : i ∈ Vocabulary.names) :
    scope.Allows T (.iri i) := by
  have hall : ∀ i ∈ Vocabulary.names, isIdentifier i = true ∧ i.all (· < 0x80) = true := by
    decide +kernel
  obtain ⟨hid, hascii⟩ := hall i h
  refine allows_iri hid (T.ascii fun b hb => ?_)
  exact UInt8.lt_iff_toNat_lt.mp (of_decide_eq_true (List.all_eq_true.mp hascii b hb))

theorem allows_anonymous (n : UInt64) : scope.Allows T (.blank (anonymousLabel n)) := by
  refine ⟨Term.violation?_blank.mpr (isIdentifier_anonymousLabel n),
    isLabel_of_isWordByte fun b hb => isWordByte_of_mem_anonymousLabel hb, fun l hl => ?_⟩
  exact .inl ⟨n, (Term.blank.inj hl).symm⟩

/-- A node of a plain scope. -/
theorem Plain.allows (h : scope.Plain) {label node : Text}
    (hnode : scope.find? label = some node) : scope.Allows T (.blank node) := by
  obtain ⟨n, hn⟩ := h.numbered label node hnode
  have hid := isIdentifier_numbered (.inr (h.valid label node hnode)) n.toNat
  have hlabel := Scanner.isLabel_numbered (h.label label node hnode) n.toNat
  rw [← hn] at hid hlabel
  refine ⟨Term.violation?_blank.mpr hid, hlabel, fun l hl => ?_⟩
  exact .inr ⟨label, by rw [hnode, Term.blank.inj hl]⟩

end Scope

/-- A statement outside of any graph whose terms are allowed. -/
structure Statement.Among (scope : Scope) (T : TextClass) (s : Statement) : Prop where
  subject : scope.Allows T s.subject.toTerm
  predicate : scope.Allows T (.iri s.predicate)
  object : scope.Allows T s.object
  graph : s.graph = none

/-- A statement outside of any graph whose terms are admitted. -/
structure Statement.Within (scope : Scope) (s : Statement) : Prop where
  subject : scope.Admits s.subject.toTerm
  predicate : scope.Admits (.iri s.predicate)
  object : scope.Admits s.object
  graph : s.graph = none

theorem Statement.Among.mono {scope later : Scope} {T : TextClass} {s : Statement}
    (h : s.Among scope T) (hlater : scope.Keeps later) : s.Among later T :=
  ⟨h.subject.mono hlater, h.predicate.mono hlater, h.object.mono hlater, h.graph⟩

theorem Statement.Among.within {scope : Scope} {s : Statement}
    (h : s.Among scope .utf8) : s.Within scope :=
  ⟨Scope.allows_utf8_iff.mp h.subject, Scope.allows_utf8_iff.mp h.predicate,
    Scope.allows_utf8_iff.mp h.object, h.graph⟩

/-! ### What comes out of a part of a document -/

namespace Meaning

variable {α β : Type} {base : Scope} {P : Scope → α → Prop} {Q : Scope → β → Prop}
  {T : TextClass}

/-- From any plain scope that keeps to the nodes of `base`, the scope stays plain and keeps to its
nodes, and what comes out has the property `P` of the scope behind it. -/
def Yields (base : Scope) (x : Meaning α) (P : Scope → α → Prop) : Prop :=
  ∀ l a l', base.Keeps l.scope → l.scope.Plain → x.run l = some (a, l') →
    l'.scope.Plain ∧ l.scope.Keeps l'.scope ∧ P l'.scope a

namespace Yields

theorem pure {a : α} (h : ∀ scope, base.Keeps scope → P scope a) :
    Yields base (Pure.pure a) P := by
  intro l b l' hbase hl hrun
  obtain ⟨rfl, rfl⟩ := run_pure_eq_some.mp hrun
  exact ⟨hl, .refl _, h _ hbase⟩

theorem bind {x : Meaning α} {f : α → Meaning β} (hx : Yields base x P)
    (hf : ∀ scope, base.Keeps scope → ∀ a, P scope a → Yields scope (f a) Q) :
    Yields base (x >>= f) Q := by
  intro l b l'' hbase hl hrun
  obtain ⟨a, l', ha, hb⟩ := run_bind_eq_some.mp hrun
  obtain ⟨hl', hkeeps, hP⟩ := hx l a l' hbase hl ha
  obtain ⟨hl'', hkeeps', hQ⟩ := hf l'.scope (hbase.trans hkeeps) a hP l' b l'' (.refl _) hl' hb
  exact ⟨hl'', hkeeps.trans hkeeps', hQ⟩

theorem failure : Yields base (Alternative.failure : Meaning α) P := by
  intro l a l' _ _ hrun
  cases hrun

theorem valid {i : Iri} (hi : T.holds i) :
    Yields base (Meaning.valid i) fun scope i => scope.Allows T (.iri i) := by
  intro l j l' _ hl hrun
  obtain ⟨hid, rfl, rfl⟩ := run_valid_eq_some.mp hrun
  exact ⟨hl, .refl _, Scope.allows_iri hid hi⟩

theorem tagged {value : Text} (hvalue : T.holds value) (tag : Text) :
    Yields base (Meaning.tagged value tag) fun scope t => scope.Allows T t := by
  intro l t l' _ hl hrun
  obtain ⟨htag, rfl, rfl⟩ := run_tagged_eq_some.mp hrun
  exact ⟨hl, .refl _,
    Scope.allows_of_ne_blank (Term.violation?_lang.mpr htag) hvalue fun _ h => nomatch h⟩

theorem anonymous (T : TextClass) : Yields base Meaning.anonymous fun scope n => scope.Allows T n.toTerm := by
  intro l n l' _ hl hrun
  obtain ⟨rfl, rfl⟩ := run_anonymous_eq_some.mp hrun
  exact ⟨hl, .refl _, Scope.allows_anonymous _⟩

theorem labelled (T : TextClass) {label : Text} (hlabel : Scanner.isLabel label = true) :
    Yields base (Meaning.labelled label) fun scope n => scope.Allows T n.toTerm := by
  intro l n l' _ hl hrun
  obtain ⟨hid, rfl, rfl⟩ := run_labelled_eq_some.mp hrun
  have hplain := hl.resolve l.supply hid hlabel
  exact ⟨hplain, Scope.keeps_resolve _ _ _, hplain.allows (Scope.find?_resolve _ _ _)⟩

end Yields

end Meaning

end TripleStore
