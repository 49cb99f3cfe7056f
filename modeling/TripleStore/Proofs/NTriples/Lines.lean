import TripleStore.Proofs.Blank.Relabelling
import TripleStore.Proofs.NTriples.Grammar

/-!
# The lines of N-Triples, spelled out

A document of N-Triples means something just when its IRIs, labels and tags are valid.  Then every
line is one statement, and a label stands for one node throughout: the label with a number behind
it, where the numbers go on from the supply in the order in which the labels come up.

* `Labels.meetAll`: the labels and the supply behind some labels; `find?_meetAll` gives the nodes.
* `Meaning.Spells`: a part of a document that is valid or not, whatever comes before it.
* `Line.Valid`, `Line.statement`: when a line means something, and what.
* `Document.node`: the node of a label; `Document.node_injective`.
* `parse_ok_iff_lines`: **what is read as N-Triples are valid lines, a statement for each.**
-/

namespace TripleStore

/-! ### Labels met one after the other -/

/-- A map sends every label of the scope to its node. -/
def Scope.Follows (scope : Scope) (node : Text → Text) : Prop :=
  ∀ label n, scope.find? label = some n → n = node label

theorem Scope.Keeps.follows {scope later : Scope} {node : Text → Text} (h : scope.Keeps later)
    (hlater : later.Follows node) : scope.Follows node :=
  fun label n hn => hlater label n (h label n hn)

namespace Labels

/-- What is known behind a label. -/
def meet (l : Labels) (label : Text) : Labels := (l.node (.blank label)).2

/-- What is known behind some labels. -/
def meetAll (l : Labels) (labels : List Text) : Labels := labels.foldl meet l

theorem meetAll_append (l : Labels) (labels more : List Text) :
    l.meetAll (labels ++ more) = (l.meetAll labels).meetAll more := List.foldl_append

theorem keeps_meetAll (l : Labels) (labels : List Text) :
    l.scope.Keeps (l.meetAll labels).scope := by
  induction labels generalizing l with
  | nil => exact .refl _
  | cons label labels ih => exact (l.node_goes (.blank label)).keeps.trans (ih (l.meet label))

theorem meet_known {l : Labels} {label n : Text} (h : l.scope.find? label = some n) :
    l.meet label = l := by
  rw [meet, node, Scope.resolve, h]

theorem meet_unknown {l : Labels} {label : Text} (h : l.scope.find? label = none) :
    l.meet label = ⟨⟨(label, numbered label (l.supply.labels + 1).toNat) :: l.scope.known⟩,
      { l.supply with labels := l.supply.labels + 1 }⟩ := by
  rw [meet, node, Scope.resolve, h, Supply.drawLabel_eq]

/-- The node of a label in a document with these labels: the number goes on from the supply by as
many different labels as have come up before. -/
def nodeAmong (supply : Supply) (labels : List Text) (label : Text) : Text :=
  numbered label (supply.labels + 1 + UInt64.ofNat (labels.eraseDups.idxOf label)).toNat

theorem eraseDups_concat_known {labels : List Text} {label : Text} (h : label ∈ labels) :
    (labels ++ [label]).eraseDups = labels.eraseDups := by
  rw [List.eraseDups_append]
  simp [List.removeAll, h]

theorem eraseDups_concat_unknown {labels : List Text} {label : Text} (h : label ∉ labels) :
    (labels ++ [label]).eraseDups = labels.eraseDups ++ [label] := by
  rw [List.eraseDups_append]
  simp [List.removeAll, h, List.eraseDups_cons]

/-- The node of a label stays when more labels come up. -/
theorem nodeAmong_concat {supply : Supply} {labels : List Text} {label : Text} (h : label ∈ labels)
    (other : Text) : nodeAmong supply (labels ++ [other]) label = nodeAmong supply labels label := by
  by_cases hother : other ∈ labels
  · rw [nodeAmong, eraseDups_concat_known hother, nodeAmong]
  · rw [nodeAmong, eraseDups_concat_unknown hother,
      List.idxOf_append_of_mem (List.mem_eraseDups.mpr h), nodeAmong]

/-- **What is known behind the first labels of a document**: each has its node, and the supply has
gone on by the number of different labels. -/
theorem find?_meetAll (supply : Supply) (labels : List Text) :
    (∀ label, (meetAll ⟨{}, supply⟩ labels).scope.find? label
        = if label ∈ labels then some (nodeAmong supply labels label) else none) ∧
      (meetAll ⟨{}, supply⟩ labels).supply
        = { supply with labels := supply.labels + UInt64.ofNat labels.eraseDups.length } := by
  induction labels using List.reverseRecOn with
  | nil =>
    refine ⟨fun label => rfl, ?_⟩
    show supply = _
    rw [List.eraseDups_nil, List.length_nil, show UInt64.ofNat 0 = 0 from rfl, UInt64.add_zero]
  | append_singleton labels new ih =>
    obtain ⟨hfind, hsupply⟩ := ih
    rw [meetAll_append, show ∀ l : Labels, l.meetAll [new] = l.meet new from fun _ => rfl]
    by_cases hnew : new ∈ labels
    · -- the label has its node
      rw [meet_known (hfind new |>.trans (if_pos hnew)), eraseDups_concat_known hnew]
      refine ⟨fun label => ?_, hsupply⟩
      rw [hfind]
      by_cases hlabel : label ∈ labels
      · rw [if_pos hlabel, if_pos (List.mem_append_left _ hlabel), nodeAmong_concat hlabel]
      · have hne : label ∉ labels ++ [new] := by
          intro h
          rcases List.mem_append.mp h with h | h
          · exact hlabel h
          · rw [List.mem_singleton.mp h] at hlabel
            exact hlabel hnew
        rw [if_neg hlabel, if_neg hne]
    · -- the label gets the next number
      rw [meet_unknown (hfind new |>.trans (if_neg hnew)), hsupply]
      have hnumber : supply.labels + UInt64.ofNat labels.eraseDups.length + 1
          = supply.labels + 1 + UInt64.ofNat labels.eraseDups.length := by grind
      constructor
      · intro label
        show List.lookup label ((new, _) :: _) = _
        rw [List.lookup_cons]
        by_cases hlabel : label = new
        · subst hlabel
          rw [beq_self_eq_true, if_pos (by simp), nodeAmong, eraseDups_concat_unknown hnew,
            List.idxOf_append_of_notMem (fun h => hnew (List.mem_eraseDups.mp h)),
            List.idxOf_cons_self, Nat.add_zero, hnumber]
        · rw [beq_eq_false_iff_ne.mpr hlabel]
          show (meetAll ⟨{}, supply⟩ labels).scope.find? label = _
          rw [hfind]
          by_cases hmem : label ∈ labels
          · rw [if_pos hmem, if_pos (List.mem_append_left _ hmem), nodeAmong_concat hmem]
          · rw [if_neg hmem, if_neg (by simp [hmem, hlabel])]
      · rw [eraseDups_concat_unknown hnew, List.length_append, List.length_singleton]
        have hnext : supply.labels + UInt64.ofNat labels.eraseDups.length + 1
            = supply.labels + UInt64.ofNat (labels.eraseDups.length + 1) := by
          rw [UInt64.ofNat_add, UInt64.add_assoc]
          rfl
        rw [hnext]

end Labels

/-! ### Parts that are valid or not -/

namespace Meaning

variable {α β : Type}

/-- A part of a document means something just when it is valid, whatever labels came before; then
it meets its own labels, and what it stands for is told by their nodes. -/
structure Spells (x : Meaning α) (valid : Prop) (labels : List Text)
    (value : (Text → Text) → α) : Prop where
  exists_run : valid → ∀ l, ∃ a l', x.run l = some (a, l')
  of_run : ∀ {l a l'}, x.run l = some (a, l') → valid ∧ l' = l.meetAll labels ∧
    ∀ node, l'.scope.Follows node → a = value node

namespace Spells

variable {x : Meaning α} {f : α → Meaning β} {v w : Prop} {labels more : List Text}
  {value : (Text → Text) → α} {next : α → (Text → Text) → β}

theorem pure (a : α) : Spells (Pure.pure a) True [] fun _ => a where
  exists_run := fun _ l => ⟨a, l, rfl⟩
  of_run := by
    intro l b l' h
    obtain ⟨rfl, rfl⟩ := run_pure_eq_some.mp h
    exact ⟨trivial, rfl, fun _ _ => rfl⟩

theorem bind (hx : Spells x v labels value) (hf : ∀ a, Spells (f a) w more (next a)) :
    Spells (x >>= f) (v ∧ w) (labels ++ more) fun node => next (value node) node where
  exists_run := by
    intro hvalid l
    obtain ⟨a, l₁, ha⟩ := hx.exists_run hvalid.1 l
    obtain ⟨b, l₂, hb⟩ := (hf a).exists_run hvalid.2 l₁
    exact ⟨b, l₂, run_bind_eq_some.mpr ⟨a, l₁, ha, hb⟩⟩
  of_run := by
    intro l b l' h
    obtain ⟨a, l₁, ha, hb⟩ := run_bind_eq_some.mp h
    obtain ⟨hv, rfl, hvalue⟩ := hx.of_run ha
    obtain ⟨hw, rfl, hnext⟩ := (hf a).of_run hb
    refine ⟨⟨hv, hw⟩, (l.meetAll_append labels more).symm, fun node hnode => ?_⟩
    rw [← hvalue node ((Labels.keeps_meetAll _ more).follows hnode)]
    exact hnext node hnode

theorem map (hx : Spells x v labels value) (g : α → β) :
    Spells (x >>= fun a => Pure.pure (g a)) v labels fun node => g (value node) where
  exists_run := fun hvalid l =>
    (hx.exists_run hvalid l).imp' g fun _ ⟨l', h⟩ => ⟨l', run_bind_eq_some.mpr ⟨_, l', h, rfl⟩⟩
  of_run := by
    intro l b l' h
    obtain ⟨a, l₁, ha, hb⟩ := run_bind_eq_some.mp h
    obtain ⟨rfl, rfl⟩ := run_pure_eq_some.mp hb
    obtain ⟨hv, hlabels, hvalue⟩ := hx.of_run ha
    exact ⟨hv, hlabels, fun node hnode => congrArg g (hvalue node hnode)⟩

theorem valid (i : Iri) : Spells (Meaning.valid i) (isIdentifier i) [] fun _ => i where
  exists_run := fun h l => ⟨i, l, run_valid_eq_some.mpr ⟨h, rfl, rfl⟩⟩
  of_run := by
    intro l j l' h
    obtain ⟨hid, rfl, rfl⟩ := run_valid_eq_some.mp h
    exact ⟨hid, rfl, fun _ _ => rfl⟩

theorem tagged (text tag : Text) :
    Spells (Meaning.tagged text tag) (isLanguageTag tag) [] fun _ => .lang text tag where
  exists_run := fun h l => ⟨.lang text tag, l, run_tagged_eq_some.mpr ⟨h, rfl, rfl⟩⟩
  of_run := by
    intro l t l' h
    obtain ⟨htag, rfl, rfl⟩ := run_tagged_eq_some.mp h
    exact ⟨htag, rfl, fun _ _ => rfl⟩

theorem labelled (label : Text) :
    Spells (Meaning.labelled label) (isIdentifier label) [label] fun node =>
      .blank (node label) where
  exists_run := fun h l => ⟨_, _, run_labelled_eq_some.mpr ⟨h, rfl, rfl⟩⟩
  of_run := by
    intro l n l' h
    obtain ⟨hid, rfl, rfl⟩ := run_labelled_eq_some.mp h
    refine ⟨hid, rfl, fun node hnode => ?_⟩
    exact congrArg Node.blank (hnode label _ (Scope.find?_resolve _ _ _))

end Spells

end Meaning

/-! ### Lines -/

namespace NTriples

open Meaning (Spells)

/-- A subject that breaks no rule; a valid label is not empty. -/
def Subject.Valid : Subject → Prop
  | iri t => isIdentifier t.1.text
  | label t => isIdentifier (t.1.text.drop 2)

/-- A suffix that breaks no rule. -/
def Suffix.Valid : Suffix → Prop
  | none => True
  | tag t => isLanguageTag t.1.text
  | datatype _ t => isIdentifier t.1.text

/-- An object that breaks no rule; a valid label is not empty. -/
def Object.Valid : Object → Prop
  | iri t => isIdentifier t.1.text
  | label t => isIdentifier (t.1.text.drop 2)
  | string _ suffix => suffix.Valid

/-- A line whose IRIs, labels and tags are valid. -/
def Line.Valid (line : Line) : Prop :=
  line.subject.Valid ∧ isIdentifier line.predicate.1.text ∧ line.object.Valid

/-- The label of a subject, if it has one. -/
def Subject.labels : Subject → List Text
  | iri _ => []
  | label t => [t.1.text.drop 2]

/-- The label of an object, if it has one. -/
def Object.labels : Object → List Text
  | iri _ => []
  | label t => [t.1.text.drop 2]
  | string _ _ => []

/-- The labels of a line. -/
def Line.labels (line : Line) : List Text := line.subject.labels ++ line.object.labels

/-- The node of a subject, given those of labels. -/
def Subject.node (node : Text → Text) : Subject → Node
  | iri t => .iri t.1.text
  | label t => .blank (node (t.1.text.drop 2))

/-- The literal of a value with this suffix; without one it is a plain string. -/
def Suffix.term (value : Text) : Suffix → Term
  | none => .typed value Vocabulary.string
  | tag t => .lang value t.1.text
  | datatype _ t => .typed value t.1.text

/-- The term of an object, given the nodes of labels. -/
def Object.term (node : Text → Text) : Object → Term
  | iri t => .iri t.1.text
  | label t => .blank (node (t.1.text.drop 2))
  | string t suffix => suffix.term t.1.text

/-- The statement of a line, given the nodes of labels. -/
def Line.statement (node : Text → Text) (line : Line) : Statement :=
  ⟨line.subject.node node, line.predicate.1.text, line.object.term node, none⟩

theorem Subject.spells (x : Subject) :
    Spells x.meaning x.Valid x.labels fun node => x.node node := by
  cases x with
  | iri t => exact (Spells.valid _).map Node.iri
  | label t => exact .labelled _

theorem Suffix.spells (x : Suffix) (value : Text) :
    Spells (x.meaning value) x.Valid [] fun _ => x.term value := by
  cases x with
  | none => exact .pure _
  | tag t => exact .tagged _ _
  | datatype mark t => exact (Spells.valid _).map (Term.typed value)

theorem Object.spells (x : Object) :
    Spells x.meaning x.Valid x.labels fun node => x.term node := by
  cases x with
  | iri t => exact (Spells.valid _).map Term.iri
  | label t => exact (Spells.labelled _).map Node.toTerm
  | string t suffix => exact suffix.spells _

/-- **A line is one statement as soon as it is valid.** -/
theorem Line.spells (line : Line) :
    Spells line.meaning line.Valid line.labels fun node => line.statement node := by
  have hobject (n : Node) (i : Iri) :
      Spells (do return ⟨n, i, ← line.object.meaning, none⟩ : Meaning Statement)
        line.object.Valid line.object.labels fun node => ⟨n, i, line.object.term node, none⟩ :=
    line.object.spells.map fun t => Statement.mk n i t none
  have hpredicate (n : Node) := (Spells.valid line.predicate.1.text).bind (hobject n)
  exact line.subject.spells.bind hpredicate

namespace Document

/-- A document of valid lines. -/
def Valid (d : Document) : Prop := ∀ line ∈ d, line.Valid

/-- The labels of a document, in order and as often as they stand there. -/
def labels (d : Document) : List Text := d.flatMap Line.labels

/-- The node of a label: the label with a number behind it.  The first label that comes up gets the
next number of the supply, and so do the others, one after the other. -/
def node (d : Document) (supply : Supply) (label : Text) : Text :=
  numbered label (supply.labels + 1 + UInt64.ofNat (d.labels.eraseDups.idxOf label)).toNat

/-- **Different labels have different nodes.** -/
theorem node_injective (d : Document) (supply : Supply) : Function.Injective (d.node supply) :=
  fun _ _ h => (numbered_inj.mp h).1

theorem spells (d : Document) :
    Spells d.meaning d.Valid d.labels fun node => d.map (Line.statement node) := by
  induction d with
  | nil =>
    refine ⟨fun _ l => ⟨[], l, rfl⟩, fun h => ?_⟩
    obtain ⟨-, hrun⟩ := (Spells.pure ([] : List Statement)).of_run h
    exact ⟨fun _ hline => absurd hline List.not_mem_nil, hrun⟩
  | cons line d ih =>
    have hcons : Spells (meaning (line :: d)) (line.Valid ∧ Valid d) (labels (line :: d)) fun node =>
        (line :: d).map (Line.statement node) :=
      line.spells.bind fun stmt => ih.map fun later => stmt :: later
    refine ⟨fun h => hcons.exists_run (List.forall_mem_cons.mp h), fun h => ?_⟩
    obtain ⟨hvalid, hrun⟩ := hcons.of_run h
    exact ⟨List.forall_mem_cons.mpr hvalid, hrun⟩

/-- **What a document means on its own.** -/
theorem meaning_eq_some_iff {d : Document} {supply : Supply} {stmts : List Statement}
    {l : Labels} :
    d.meaning.run ⟨{}, supply⟩ = some (stmts, l) ↔
      d.Valid ∧ stmts = d.map (Line.statement (d.node supply)) ∧
        l = Labels.meetAll ⟨{}, supply⟩ d.labels := by
  have hfollows : (Labels.meetAll ⟨{}, supply⟩ d.labels).scope.Follows (d.node supply) := by
    intro label n hn
    rw [(Labels.find?_meetAll supply d.labels).1] at hn
    split_ifs at hn
    exact (Option.some.inj hn).symm
  constructor
  · intro h
    obtain ⟨hvalid, rfl, hvalue⟩ := d.spells.of_run h
    exact ⟨hvalid, hvalue _ hfollows, rfl⟩
  · intro h
    obtain ⟨hvalid, rfl, rfl⟩ := h
    obtain ⟨stmts, l, hrun⟩ := d.spells.exists_run hvalid ⟨{}, supply⟩
    obtain ⟨-, rfl, hvalue⟩ := d.spells.of_run hrun
    rw [hrun, hvalue _ hfollows]

end Document

/-- **What is read as N-Triples are valid lines**: a text is read without an error just when the
lexer comes to its end without one and the tokens are those of valid lines.  Then there is one
statement for each line, in order; all occurrences of a label have the same node, with one of the
next numbers of the supply, and different labels have different nodes. -/
theorem parse_ok_iff_lines (text : Text) (supply : Supply) :
    (∀ stmts supply', parse text supply = (.ok stmts, supply') ↔
      ∃ tokens, (Lexer.start .ntriples text).Reads tokens ∧
        ∃ d : Document, d.tokens = tokens ∧ d.Valid ∧
          stmts = d.map (Line.statement (d.node supply)) ∧
          supply' = { supply with
            labels := supply.labels + UInt64.ofNat d.labels.eraseDups.length }) ∧
      ∀ d : Document, Function.Injective (d.node supply) := by
  refine ⟨fun stmts supply' => ⟨fun h => ?_, fun h => ?_⟩, fun d => d.node_injective supply⟩
  · obtain ⟨d, scope, hreads, hm⟩ := exists_document_of_parse h
    obtain ⟨hvalid, hstmts, hl⟩ := Document.meaning_eq_some_iff.mp hm
    refine ⟨d.tokens, hreads, d, rfl, hvalid, hstmts, ?_⟩
    rw [← (Labels.find?_meetAll supply d.labels).2, ← hl]
  · obtain ⟨tokens, hreads, d, rfl, hvalid, hstmts, hleft⟩ := h
    have hm := Document.meaning_eq_some_iff.mpr ⟨hvalid, hstmts, rfl⟩
    rw [parse_of_document hreads hm, (Labels.find?_meetAll supply d.labels).2, hleft]

end NTriples

end TripleStore
