import TripleStore.Proofs.Parse.Shift
import TripleStore.Proofs.Turtle.Progress

/-!
# Lists in parentheses

A list is spelled out in cells.  Each cell gets its node behind its item, so whatever a nested structure
draws lies between two cells, and no cell stands for anything else: about a cell there are exactly two
triples, one with its item and one with the next cell, and no other triple of a nested structure or of
what was read before speaks of it.

* `Minted`: labels that were drawn between two draws of anonymous nodes; `Meaning.Mints`: what a part
  of a document draws, with one rule for each way of putting meanings together.
* `Linked`: cells whose nodes were drawn one behind the other; `Items.mints`: **so are those of a list.**
* `Walk`: a way from cell to cell, where all triples about a cell are known; `Linked.walk_spellList`.
* `State.Unused`: the nodes that are drawn next have been used nowhere, neither in earlier blocks nor in
  the block at hand; `State.Leads`: so they stay.
* `object_leads`, `predicates_leads`, `triples_leads`, `statement_unused`: **reading keeps them unused.**
* `Spelled`: what a list is spelled out in; `collection_spelled`: **a list that was read is well-formed.**
-/

namespace TripleStore

/-! ### Labels that were drawn -/

/-- The label of the anonymous node that is drawn as the `i`-th one behind the number `a`. -/
def mintedLabel (a : UInt64) (i : ℕ) : Text := anonymousLabel (a + UInt64.ofNat i)

theorem mintedLabel_inj {a : UInt64} {i j : ℕ} (hi : i < 2 ^ 64) (hj : j < 2 ^ 64)
    (h : mintedLabel a i = mintedLabel a j) : i = j := by
  have hsum : a + UInt64.ofNat i = a + UInt64.ofNat j := anonymousLabel_injective h
  have hnumber : UInt64.ofNat i = UInt64.ofNat j := by
    have hback : ∀ n : UInt64, a + n - a = n := by grind
    rw [← hback (UInt64.ofNat i), hsum, hback]
  have hvalue := congrArg UInt64.toNat hnumber
  rwa [UInt64.toNat_ofNat_of_lt' hi, UInt64.toNat_ofNat_of_lt' hj] at hvalue

/-- A label that was drawn for a label of the document, or for an anonymous node behind the first `m`
and among the first `n`. -/
def Minted (a : UInt64) (m n : ℕ) (l : Text) : Prop :=
  (∃ base k, l = numbered base k) ∨ ∃ i, m < i ∧ i ≤ n ∧ l = mintedLabel a i

/-- The label of the term, if it has one, was drawn between the two draws. -/
def Term.Minted (a : UInt64) (m n : ℕ) (t : Term) : Prop := ∀ l, t = .blank l → TripleStore.Minted a m n l

/-- Subject and object of the statement were drawn between the two draws, as far as they have labels;
or the subject is the given one. -/
structure Statement.MintedFor (a : UInt64) (m n : ℕ) (subject : Node) (s : Statement) : Prop where
  subject : s.subject = subject ∨ s.subject.toTerm.Minted a m n
  object : s.object.Minted a m n

/-- Subject and object of the statement were drawn between the two draws, as far as they have
labels. -/
structure Statement.Minted (a : UInt64) (m n : ℕ) (s : Statement) : Prop where
  subject : s.subject.toTerm.Minted a m n
  object : s.object.Minted a m n

variable {a : UInt64} {m m' n n' : ℕ}

theorem Minted.mono {l : Text} (h : Minted a m n l) (hm : m' ≤ m) (hn : n ≤ n') : Minted a m' n' l := by
  rcases h with h | ⟨i, hi, hi', h⟩
  · exact .inl h
  · exact .inr ⟨i, by omega, by omega, h⟩

/-- A node that was drawn at another time. -/
theorem not_minted {i : ℕ} (hi : i ≤ m ∨ n < i) (hlarge : i < 2 ^ 64) (hn : n < 2 ^ 64) :
    ¬ Minted a m n (mintedLabel a i) := by
  rintro (⟨base, k, h⟩ | ⟨j, hj, hj', h⟩)
  · exact numbered_ne_anonymousLabel _ _ _ h.symm
  · have heq := mintedLabel_inj hlarge (by omega) h
    omega

namespace Term.Minted

theorem mono {t : Term} (h : t.Minted a m n) (hm : m' ≤ m) (hn : n ≤ n') : t.Minted a m' n' :=
  fun l hl => (h l hl).mono hm hn

theorem of_ne_blank {t : Term} (h : ∀ l, t ≠ .blank l) : t.Minted a m n :=
  fun l hl => absurd hl (h l)

/-- The node that is drawn next. -/
theorem next (hm : m < n) : (Node.blank (mintedLabel a (m + 1))).toTerm.Minted a m n := by
  intro l hl
  cases hl
  exact .inr ⟨m + 1, Nat.lt_succ_self m, hm, rfl⟩

theorem ne {t : Term} {i : ℕ} (h : t.Minted a m n) (hi : i ≤ m ∨ n < i) (hlarge : i < 2 ^ 64)
    (hn : n < 2 ^ 64) : t ≠ (Node.blank (mintedLabel a i)).toTerm :=
  fun heq => not_minted hi hlarge hn (h _ heq)

end Term.Minted

namespace Statement

variable {s : Statement} {subject : Node}

theorem Minted.mono (h : s.Minted a m n) (hm : m' ≤ m) (hn : n ≤ n') : s.Minted a m' n' :=
  ⟨h.subject.mono hm hn, h.object.mono hm hn⟩

theorem MintedFor.mono (h : s.MintedFor a m n subject) (hm : m' ≤ m) (hn : n ≤ n') :
    s.MintedFor a m' n' subject :=
  ⟨h.subject.imp_right fun hs => hs.mono hm hn, h.object.mono hm hn⟩

theorem Minted.mintedFor (h : s.Minted a m n) (subject : Node) : s.MintedFor a m n subject :=
  ⟨.inr h.subject, h.object⟩

theorem MintedFor.minted (h : s.MintedFor a m n subject) (hs : subject.toTerm.Minted a m n) :
    s.Minted a m n := by
  refine ⟨?_, h.object⟩
  rcases h.subject with heq | hminted
  · rw [heq]
    exact hs
  · exact hminted

/-- The statement speaks of a node. -/
def Mentions (s : Statement) (node : Node) : Prop := s.subject = node ∨ s.object = node.toTerm

theorem Minted.not_mentions {i : ℕ} (h : s.Minted a m n) (hi : i ≤ m ∨ n < i) (hlarge : i < 2 ^ 64)
    (hn : n < 2 ^ 64) : ¬ s.Mentions (.blank (mintedLabel a i)) := by
  rintro (heq | heq)
  · exact h.subject.ne hi hlarge hn (congrArg Node.toTerm heq)
  · exact h.object.ne hi hlarge hn heq

end Statement

/-! ### What a part of a document draws -/

/-- The labels stand behind the first `m` draws of anonymous nodes. -/
structure Labels.Stands (a : UInt64) (m : ℕ) (l : Labels) : Prop where
  number : l.supply.anonymous = a + UInt64.ofNat m
  scope : l.scope.Numbered

namespace Meaning

variable {α β : Type} {P : ℕ → α → Prop} {Q : ℕ → β → Prop}

/-- Behind the first `m` draws it makes some more, and what comes out has the property `P` of the number
of draws then. -/
def Mints (a : UInt64) (m : ℕ) (x : Meaning α) (P : ℕ → α → Prop) : Prop :=
  ∀ l r l', l.Stands a m → x.run l = some (r, l') → ∃ n, m ≤ n ∧ l'.Stands a n ∧ P n r

namespace Mints

theorem pure {r : α} (h : P m r) : Mints a m (Pure.pure r) P := by
  intro l r' l' hl hrun
  obtain ⟨rfl, rfl⟩ := run_pure_eq_some.mp hrun
  exact ⟨m, le_rfl, hl, h⟩

theorem bind {x : Meaning α} {f : α → Meaning β} (hx : Mints a m x P)
    (hf : ∀ n r, m ≤ n → P n r → Mints a n (f r) Q) : Mints a m (x >>= f) Q := by
  intro l r l'' hl hrun
  obtain ⟨b, l', hb, hr⟩ := run_bind_eq_some.mp hrun
  obtain ⟨n, hmn, hl', hP⟩ := hx l b l' hl hb
  obtain ⟨n', hnn', hl'', hQ⟩ := hf n b hmn hP l' r l'' hl' hr
  exact ⟨n', hmn.trans hnn', hl'', hQ⟩

theorem imp {P' : ℕ → α → Prop} {x : Meaning α} (hx : Mints a m x P)
    (h : ∀ n r, m ≤ n → P n r → P' n r) : Mints a m x P' := by
  intro l r l' hl hrun
  obtain ⟨n, hmn, hl', hP⟩ := hx l r l' hl hrun
  exact ⟨n, hmn, hl', h n r hmn hP⟩

theorem failure : Mints a m (Alternative.failure : Meaning α) P := by
  intro l r l' _ hrun
  cases hrun

theorem valid (i : Iri) : Mints a m (Meaning.valid i) fun n _ => n = m := by
  intro l j l' hl hrun
  obtain ⟨-, -, rfl⟩ := run_valid_eq_some.mp hrun
  exact ⟨m, le_rfl, hl, rfl⟩

theorem tagged (value tag : Text) :
    Mints a m (Meaning.tagged value tag) fun n t => n = m ∧ ∀ l, t ≠ .blank l := by
  intro l t l' hl hrun
  obtain ⟨-, rfl, rfl⟩ := run_tagged_eq_some.mp hrun
  exact ⟨m, le_rfl, hl, rfl, nofun⟩

theorem anonymous : Mints a m Meaning.anonymous fun n node =>
    n = m + 1 ∧ node = .blank (mintedLabel a (m + 1)) := by
  intro l node l' hl hrun
  obtain ⟨rfl, rfl⟩ := run_anonymous_eq_some.mp hrun
  have hnumber : l.supply.anonymous + 1 = a + UInt64.ofNat (m + 1) := by
    rw [hl.number, UInt64.ofNat_add, UInt64.add_assoc]
    rfl
  rw [Supply.drawAnonymous_eq, hnumber]
  exact ⟨m + 1, Nat.le_succ m, ⟨rfl, hl.scope⟩, rfl, rfl⟩

theorem labelled (label : Text) : Mints a m (Meaning.labelled label) fun n node =>
    n = m ∧ node.toTerm.Minted a m n := by
  intro l node l' hl hrun
  obtain ⟨-, rfl, rfl⟩ := run_labelled_eq_some.mp hrun
  have hscope := hl.scope.resolve l.supply label
  obtain ⟨k, hk⟩ := hscope label _ (Scope.find?_resolve l.scope l.supply label)
  refine ⟨m, le_rfl, ⟨?_, hscope⟩, rfl, ?_⟩
  · rw [← hl.number, Scope.resolve]
    cases l.scope.find? label <;> rfl
  · intro t ht
    cases ht
    exact .inl ⟨label, _, hk⟩

end Mints

end Meaning

namespace Turtle

open Meaning (Mints)

variable {c : Context}

/-! ### What objects draw -/

theorem Name.mints (x : Name) : Mints a m (x.meaning c) fun n _ => n = m := by
  cases x with
  | reference r => exact .valid _
  | prefixed t =>
    rw [Name.meaning]
    simp only
    split
    · exact .valid _
    · exact .failure

theorem Verb.mints (x : Verb) : Mints a m (x.meaning c) fun n _ => n = m := by
  cases x with
  | a t => exact .pure rfl
  | name n => exact n.mints

theorem Suffix.mints (x : Suffix) (value : Text) :
    Mints a m (x.meaning c value) fun n t => n = m ∧ ∀ l, t ≠ .blank l := by
  cases x with
  | none => exact .pure ⟨rfl, nofun⟩
  | tag t => exact .tagged _ _
  | datatype mark name => exact .bind name.mints fun n i _ hn => .pure ⟨hn, nofun⟩

/-- Cells whose nodes were drawn one behind the other, each behind its item. -/
inductive Linked (a : UInt64) : ℕ → List Cell → ℕ → Prop
  | nil {m : ℕ} : Linked a m [] m
  | cons {m k n : ℕ} {cell : Cell} {cells : List Cell} : m ≤ k → cell.item.Minted a m k →
      (∀ s ∈ cell.inner, s.Minted a m k) → cell.node = .blank (mintedLabel a (k + 1)) →
      Linked a (k + 1) cells n → Linked a m (cell :: cells) n

theorem Linked.le {cells : List Cell} (h : Linked a m cells n) : m ≤ n := by
  induction h with
  | nil => exact le_rfl
  | cons hk _ _ _ _ ih => omega

/-- The triples of linked cells speak of what was drawn with them, and of the cell before. -/
theorem Linked.minted_cellsBehind {cells : List Cell} (h : Linked a m cells n) (last : Node) :
    ∀ s ∈ cellsBehind last cells, s.MintedFor a m n last := by
  induction h generalizing last with
  | nil =>
    intro s hs
    rw [List.mem_singleton.mp hs]
    exact ⟨.inl rfl, .of_ne_blank nofun⟩
  | @cons m k n cell cells hk hitem hinner hnode hcells ih =>
    have hle := hcells.le
    have hcell : cell.node.toTerm.Minted a m n := by
      rw [hnode]
      exact (Term.Minted.next (m := k) hle).mono hk le_rfl
    rw [cellsBehind]
    refine List.forall_mem_append.mpr
      ⟨fun s hs => ((hinner s hs).mono le_rfl (by omega)).mintedFor last, ?_⟩
    refine List.forall_mem_cons.mpr ⟨⟨.inl rfl, hcell⟩, ?_⟩
    refine List.forall_mem_cons.mpr ⟨⟨.inr hcell, hitem.mono le_rfl (by omega)⟩, fun s hs => ?_⟩
    exact (((ih cell.node s hs).mono (by omega) le_rfl).minted hcell).mintedFor last

/-- A list and its triples were drawn with its cells. -/
theorem Linked.minted_spellList {cells : List Cell} (h : Linked a m cells n) :
    (spellList cells).1.toTerm.Minted a m n ∧ ∀ s ∈ (spellList cells).2, s.Minted a m n := by
  cases h with
  | nil => exact ⟨.of_ne_blank nofun, fun s hs => absurd hs List.not_mem_nil⟩
  | @cons _ k _ cell cells hk hitem hinner hnode hcells =>
    have hle := hcells.le
    have hcell : cell.node.toTerm.Minted a m n := by
      rw [hnode]
      exact (Term.Minted.next (m := k) hle).mono hk le_rfl
    refine ⟨hcell, List.forall_mem_append.mpr ⟨fun s hs => (hinner s hs).mono le_rfl (by omega), ?_⟩⟩
    refine List.forall_mem_cons.mpr ⟨⟨hcell, hitem.mono le_rfl (by omega)⟩, fun s hs => ?_⟩
    exact ((hcells.minted_cellsBehind cell.node s hs).mono (by omega) le_rfl).minted hcell

theorem Name.length_tokens (x : Name) : x.tokens.length = 1 := by
  rcases x with (_ | _) | _
  all_goals rfl

theorem Scalar.minted (x : Scalar) : x.term.Minted a m n := by
  cases x
  all_goals exact .of_ne_blank nofun

mutual

/-- An object draws fewer nodes than it has tokens, and speaks of these only. -/
theorem Object.mints : (x : Object) → {m : ℕ} → Mints a m (x.meaning c) fun n p =>
    n + 1 ≤ m + x.tokens.length ∧ p.1.Minted a m n ∧ ∀ s ∈ p.2, s.Minted a m n
  | .name name, m => by
    rw [Object.meaning, Object.tokens, name.length_tokens]
    refine .bind name.mints fun n i _ hn => .pure ⟨by omega, .of_ne_blank nofun, ?_⟩
    exact fun s hs => absurd hs List.not_mem_nil
  | .label t, m => by
    rw [Object.meaning, Object.tokens]
    refine .bind (.labelled _) fun n node _ hn => .pure ⟨by simp [hn.1], hn.1 ▸ hn.2, ?_⟩
    exact fun s hs => absurd hs List.not_mem_nil
  | .brackets opening closing, m => by
    rw [Object.meaning, Object.tokens]
    refine .bind .anonymous fun n node _ hn => .pure ⟨by simp [hn.1], ?_, ?_⟩
    · rw [hn.1, hn.2]
      exact .next (Nat.lt_succ_self m)
    · exact fun s hs => absurd hs List.not_mem_nil
  | .properties opening ps closing, m => by
    rw [Object.meaning, Object.tokens]
    refine .bind .anonymous fun n node _ hn => ?_
    obtain ⟨rfl, rfl⟩ := hn
    refine .bind (ps.mints (.blank (mintedLabel a (m + 1)))) fun n' stmts hle hps => .pure ?_
    have hnode : (Node.blank (mintedLabel a (m + 1))).toTerm.Minted a m n' := .next hle
    refine ⟨?_, hnode, fun s hs => ((hps.2 s hs).mono (Nat.le_succ m) le_rfl).minted hnode⟩
    rw [List.length_cons, List.length_append, List.length_singleton]
    have := hps.1
    omega
  | .list opening its closing, m => by
    rw [Object.meaning, Object.tokens]
    refine .bind its.mints fun n cells _ hits => .pure ⟨?_, hits.2.minted_spellList⟩
    rw [List.length_cons, List.length_append, List.length_singleton]
    have := hits.1
    omega
  | .string t suffix, m => by
    rw [Object.meaning, Object.tokens, List.length_cons]
    refine .bind (suffix.mints _) fun n t _ hn => .pure ⟨by omega, .of_ne_blank hn.2, ?_⟩
    exact fun s hs => absurd hs List.not_mem_nil
  | .scalar s, m => by
    rw [Object.meaning, Object.tokens]
    refine .pure ⟨?_, s.minted, fun s hs => absurd hs List.not_mem_nil⟩
    cases s
    all_goals exact le_rfl

/-- The cells of a list are linked. -/
theorem Items.mints : (x : Items) → {m : ℕ} → Mints a m (x.cells c) fun n cells =>
    n ≤ m + x.tokens.length ∧ Linked a m cells n
  | .nil, m => .pure ⟨Nat.le_add_right _ _, .nil⟩
  | .cons o rest, m => by
    rw [Items.cells, Items.tokens, List.length_append]
    refine .bind o.mints fun k p hk ho => .bind .anonymous fun _ node _ hn => ?_
    obtain ⟨rfl, rfl⟩ := hn
    refine .bind rest.mints fun n cells _ hcells => .pure ⟨by omega, ?_⟩
    exact .cons hk ho.2.1 ho.2.2 rfl hcells.2

/-- Statements speak of their subject and of what was drawn for their objects. -/
theorem Objects.mints (subject : Node) (predicate : Iri) : (x : Objects) → {m : ℕ} →
    Mints a m (x.meaning c subject predicate) fun n stmts =>
      n + 1 ≤ m + x.tokens.length ∧ ∀ s ∈ stmts, s.MintedFor a m n subject
  | .one o, m => by
    rw [Objects.meaning, Objects.tokens]
    refine .bind o.mints fun n p _ ho => .pure ⟨ho.1, ?_⟩
    refine List.forall_mem_append.mpr ⟨fun s hs => (ho.2.2 s hs).mintedFor subject, ?_⟩
    exact List.forall_mem_singleton.mpr ⟨.inl rfl, ho.2.1⟩
  | .more o comma rest, m => by
    rw [Objects.meaning, Objects.tokens, List.length_append, List.length_cons]
    refine .bind o.mints fun k p hk ho => ?_
    refine .bind (rest.mints subject predicate) fun n stmts hn hrest => .pure ⟨by omega, ?_⟩
    refine List.forall_mem_append.mpr
      ⟨fun s hs => ((ho.2.2 s hs).mono le_rfl hn).mintedFor subject, ?_⟩
    refine List.forall_mem_cons.mpr ⟨⟨.inl rfl, ho.2.1.mono le_rfl hn⟩, ?_⟩
    exact fun s hs => (hrest.2 s hs).mono hk le_rfl

/-- Statements speak of their subject and of what was drawn for their objects. -/
theorem Properties.mints (subject : Node) : (x : Properties) → {m : ℕ} →
    Mints a m (x.meaning c subject) fun n stmts =>
      n + 1 ≤ m + x.tokens.length ∧ ∀ s ∈ stmts, s.MintedFor a m n subject
  | .last v os semicolons, m => by
    rw [Properties.meaning, Properties.tokens, List.length_append, List.length_append]
    refine .bind v.mints fun _ p _ hv => ?_
    subst hv
    exact (os.mints subject p).imp fun n stmts _ hos => ⟨by omega, hos.2⟩
  | .more v os semicolon semicolons rest, m => by
    rw [Properties.meaning, Properties.tokens, List.length_append, List.length_append,
      List.length_cons, List.length_append]
    refine .bind v.mints fun _ p _ hv => ?_
    subst hv
    refine .bind (os.mints subject p) fun k stmts hk hos => ?_
    refine .bind (rest.mints subject) fun n more hn hrest => .pure ⟨by omega, ?_⟩
    refine List.forall_mem_append.mpr ⟨fun s hs => (hos.2 s hs).mono le_rfl hn, ?_⟩
    exact fun s hs => (hrest.2 s hs).mono hk le_rfl

end

/-! ### From cell to cell -/

/-- The statements about a node. -/
def about (node : Node) (stmts : List Statement) : List Statement :=
  stmts.filter fun s => s.subject = node

theorem about_append (node : Node) (stmts more : List Statement) :
    about node (stmts ++ more) = about node stmts ++ about node more :=
  List.filter_append _ _

theorem about_triple (node : Node) (p : Iri) (o : Term) (stmts : List Statement) :
    about node (triple node p o :: stmts) = triple node p o :: about node stmts :=
  List.filter_cons_of_pos (decide_eq_true rfl)

theorem about_eq_nil {node : Node} {stmts : List Statement} (h : ∀ s ∈ stmts, s.subject ≠ node) :
    about node stmts = [] :=
  List.filter_eq_nil_iff.mpr fun s hs heq => h s hs (of_decide_eq_true heq)

/-- A way from cell to cell, up to the empty list: about a cell there are two triples, the one with its
item and the one with the next cell. -/
inductive Walk (stmts : List Statement) : Node → List (Node × Term) → Prop
  | nil : Walk stmts (.iri Vocabulary.nil) []
  | cons {cell next : Node} {item : Term} {later : List (Node × Term)} :
      about cell stmts =
        [triple cell Vocabulary.first item, triple cell Vocabulary.rest next.toTerm] →
      Walk stmts next later → Walk stmts cell ((cell, item) :: later)

/-- The nodes and items of cells. -/
def contents (cells : List Cell) : List (Node × Term) := cells.map fun cell => (cell.node, cell.item)

theorem subject_ne_of_minted {s : Statement} {i : ℕ} (h : s.subject.toTerm.Minted a m n)
    (hi : i ≤ m ∨ n < i) (hlarge : i < 2 ^ 64) (hn : n < 2 ^ 64) :
    s.subject ≠ .blank (mintedLabel a i) :=
  fun heq => h.ne hi hlarge hn (congrArg Node.toTerm heq)

/-- About the cell in front of linked cells there is the triple with the next cell. -/
theorem Linked.about_cellsBehind {cells : List Cell} (h : Linked a m cells n) (hn : n < 2 ^ 64) :
    about (.blank (mintedLabel a m)) (cellsBehind (.blank (mintedLabel a m)) cells)
      = [triple (.blank (mintedLabel a m)) Vocabulary.rest (spellList cells).1.toTerm] := by
  cases h with
  | nil => exact about_triple _ _ _ []
  | @cons _ k _ cell cells hk hitem hinner hnode hcells =>
    have hle := hcells.le
    have hcell : cell.node.toTerm.Minted a k n := by
      rw [hnode]
      exact .next hle
    have hinner' : about (.blank (mintedLabel a m)) cell.inner = [] :=
      about_eq_nil fun s hs => subject_ne_of_minted (hinner s hs).subject (.inl le_rfl) (by omega)
        (by omega)
    have hbehind : ∀ s ∈ triple cell.node Vocabulary.first cell.item :: cellsBehind cell.node cells,
        s.subject ≠ .blank (mintedLabel a m) := by
      refine List.forall_mem_cons.mpr ⟨?_, fun s hs => ?_⟩
      · exact subject_ne_of_minted (s := triple cell.node _ _) hcell (.inl hk) (by omega) hn
      · have hminted := (hcells.minted_cellsBehind cell.node s hs).mono (Nat.le_succ k) le_rfl
        exact subject_ne_of_minted (hminted.minted hcell).subject (.inl hk) (by omega) hn
    rw [cellsBehind, about_append, hinner', about_triple, about_eq_nil hbehind]
    rfl

/-- About a cell there are the triple with its item and the one with the next cell. -/
theorem Linked.about_cell {cells : List Cell} (h : Linked a m cells n) (hn : n < 2 ^ 64) (item : Term)
    {front : List Statement}
    (hfront : ∀ s ∈ front, ∀ i, m ≤ i → i ≤ n → s.subject ≠ .blank (mintedLabel a i)) :
    about (.blank (mintedLabel a m)) (front ++ triple (.blank (mintedLabel a m)) Vocabulary.first item
        :: cellsBehind (.blank (mintedLabel a m)) cells)
      = [triple (.blank (mintedLabel a m)) Vocabulary.first item,
          triple (.blank (mintedLabel a m)) Vocabulary.rest (spellList cells).1.toTerm] := by
  rw [about_append, about_eq_nil fun s hs => hfront s hs m le_rfl h.le, about_triple,
    h.about_cellsBehind hn]
  rfl

/-- **From a cell on, the way leads through all cells behind it**, whatever triples about other nodes
stand in front. -/
theorem Linked.walk {cells : List Cell} (h : Linked a m cells n) (hn : n < 2 ^ 64) (item : Term)
    (front : List Statement)
    (hfront : ∀ s ∈ front, ∀ i, m ≤ i → i ≤ n → s.subject ≠ .blank (mintedLabel a i)) :
    Walk (front ++ triple (.blank (mintedLabel a m)) Vocabulary.first item ::
        cellsBehind (.blank (mintedLabel a m)) cells)
      (.blank (mintedLabel a m)) ((.blank (mintedLabel a m), item) :: contents cells) := by
  induction h generalizing item front with
  | nil => exact .cons (Linked.nil.about_cell hn item hfront) .nil
  | @cons m k n cell cells hk hitem hinner hnode hcells ih =>
    have hle := hcells.le
    have hlast : ∀ i, k + 1 ≤ i → i ≤ n →
        Node.blank (mintedLabel a m) ≠ .blank (mintedLabel a i) := by
      intro i hi hi' heq
      have := mintedLabel_inj (by omega) (by omega) (Node.blank.inj heq)
      omega
    have hinner' : ∀ s ∈ cell.inner, ∀ i, k + 1 ≤ i → i ≤ n → s.subject ≠ .blank (mintedLabel a i) :=
      fun s hs i hi hi' => subject_ne_of_minted (hinner s hs).subject (.inr hi) (by omega) (by omega)
    have hlater := ih hn cell.item (front ++ triple (.blank (mintedLabel a m))
      Vocabulary.first item :: (cell.inner ++ [triple (.blank (mintedLabel a m)) Vocabulary.rest
        cell.node.toTerm])) (List.forall_mem_append.mpr
          ⟨fun s hs i hi => hfront s hs i (by omega), List.forall_mem_cons.mpr
            ⟨hlast, List.forall_mem_append.mpr ⟨hinner', List.forall_mem_singleton.mpr hlast⟩⟩⟩)
    rw [← hnode] at hlater
    refine .cons ((Linked.cons hk hitem hinner hnode hcells).about_cell hn item hfront) ?_
    simp only [cellsBehind, List.append_assoc, List.cons_append, List.nil_append] at hlater ⊢
    exact hlater

/-- **The triples of linked cells lead from the first cell through all of them to the empty list.** -/
theorem Linked.walk_spellList {cells : List Cell} (h : Linked a m cells n) (hn : n < 2 ^ 64) :
    Walk (spellList cells).2 (spellList cells).1 (contents cells) := by
  cases h with
  | nil => exact .nil
  | @cons _ k _ cell cells hk hitem hinner hnode hcells =>
    have hle := hcells.le
    have hwalk := hcells.walk hn cell.item cell.inner fun s hs i hi hi' =>
      subject_ne_of_minted (hinner s hs).subject (.inr hi) (by omega) (by omega)
    rw [← hnode] at hwalk
    exact hwalk

/-- The triples inside the items of a list are among its triples. -/
theorem inner_cellsBehind {cells : List Cell} {cell : Cell} (h : cell ∈ cells) (last : Node) :
    ∀ s ∈ cell.inner, s ∈ cellsBehind last cells := by
  induction cells generalizing last with
  | nil => exact absurd h List.not_mem_nil
  | cons first cells ih =>
    intro s hs
    rw [cellsBehind]
    rcases List.mem_cons.mp h with rfl | h
    · exact List.mem_append_left _ hs
    · exact List.mem_append_right _
        (List.mem_cons_of_mem _ (List.mem_cons_of_mem _ (ih h first.node s hs)))

theorem inner_spellList {cells : List Cell} {cell : Cell} (h : cell ∈ cells) :
    ∀ s ∈ cell.inner, s ∈ (spellList cells).2 := by
  cases cells with
  | nil => exact absurd h List.not_mem_nil
  | cons first cells =>
    intro s hs
    rw [spellList]
    rcases List.mem_cons.mp h with rfl | h
    · exact List.mem_append_left _ hs
    · exact List.mem_append_right _ (List.mem_cons_of_mem _ (inner_cellsBehind h first.node s hs))

/-! ### Cells told apart -/

/-- A cell is one of the nodes that were drawn. -/
theorem Linked.exists_node {cells : List Cell} (h : Linked a m cells n) :
    ∀ cell ∈ cells, ∃ i, m < i ∧ i ≤ n ∧ cell.node = .blank (mintedLabel a i) := by
  induction h with
  | nil => exact fun _ hcell => absurd hcell List.not_mem_nil
  | @cons m k n cell cells hk _ _ hnode hcells ih =>
    refine List.forall_mem_cons.mpr ⟨⟨k + 1, by omega, hcells.le, hnode⟩, fun other hother => ?_⟩
    obtain ⟨i, hi, hi', hother⟩ := ih other hother
    exact ⟨i, by omega, hi', hother⟩

/-- What the items of linked cells are, and what they speak of, was drawn with the cells. -/
theorem Linked.items_minted {cells : List Cell} (h : Linked a m cells n) :
    ∀ cell ∈ cells, cell.item.Minted a m n ∧ ∀ s ∈ cell.inner, s.Minted a m n := by
  induction h with
  | nil => exact fun _ hcell => absurd hcell List.not_mem_nil
  | @cons m k n cell cells hk hitem hinner _ hcells ih =>
    have hle := hcells.le
    refine List.forall_mem_cons.mpr ⟨⟨hitem.mono le_rfl (by omega),
      fun s hs => (hinner s hs).mono le_rfl (by omega)⟩, fun other hother => ?_⟩
    exact ⟨(ih other hother).1.mono (by omega) le_rfl,
      fun s hs => ((ih other hother).2 s hs).mono (by omega) le_rfl⟩

theorem Linked.nodup {cells : List Cell} (h : Linked a m cells n) (hn : n < 2 ^ 64) :
    (cells.map Cell.node).Nodup := by
  induction h with
  | nil => exact .nil
  | @cons m k n cell cells _ _ _ hnode hcells ih =>
    refine List.nodup_cons.mpr ⟨fun hmem => ?_, ih hn⟩
    obtain ⟨other, hother, heq⟩ := List.mem_map.mp hmem
    obtain ⟨i, hi, hi', hother⟩ := hcells.exists_node other hother
    rw [hother, hnode] at heq
    have := mintedLabel_inj (by omega) (by omega) (Node.blank.inj heq)
    omega

/-- **No item is a cell or speaks of one.** -/
theorem Linked.apart {cells : List Cell} (h : Linked a m cells n) (hn : n < 2 ^ 64) :
    ∀ cell ∈ cells, ∀ other ∈ cells,
      other.item ≠ cell.node.toTerm ∧ ∀ s ∈ other.inner, ¬ s.Mentions cell.node := by
  induction h with
  | nil => exact fun _ hcell => absurd hcell List.not_mem_nil
  | @cons m k n cell cells hk hitem hinner hnode hcells ih =>
    have hle := hcells.le
    have hfirst : ∀ i, k < i → i ≤ n → cell.item ≠ (Node.blank (mintedLabel a i)).toTerm ∧
        ∀ s ∈ cell.inner, ¬ s.Mentions (.blank (mintedLabel a i)) := fun i hi hi' =>
      ⟨hitem.ne (.inr hi) (by omega) (by omega),
        fun s hs => (hinner s hs).not_mentions (.inr hi) (by omega) (by omega)⟩
    refine List.forall_mem_cons.mpr ⟨List.forall_mem_cons.mpr ⟨?_, fun other hother => ?_⟩,
      fun later hlater => List.forall_mem_cons.mpr ⟨?_, ih hn later hlater⟩⟩
    · rw [hnode]
      exact hfirst (k + 1) (Nat.lt_succ_self k) hle
    · obtain ⟨hitem', hinner'⟩ := hcells.items_minted other hother
      rw [hnode]
      exact ⟨hitem'.ne (.inl le_rfl) (by omega) hn,
        fun s hs => (hinner' s hs).not_mentions (.inl le_rfl) (by omega) hn⟩
    · obtain ⟨i, hi, hi', hnode'⟩ := hcells.exists_node later hlater
      rw [hnode']
      exact hfirst i (by omega) hi'

/-! ### Labels that are yet to be drawn -/

/-- The term is none of the nodes that are drawn next, one for each token that is left. -/
def State.Free (s : State) (t : Term) : Prop :=
  ∀ i, 0 < i → i ≤ s.stream.length → t ≠ (Node.blank (mintedLabel s.supply.anonymous i)).toTerm

/-- The nodes that are drawn next have been used nowhere: neither the statements of earlier blocks speak
of them nor the triples of the block at hand, the labels of the document do not stand for them, and the
counter does not come round. -/
structure State.Unused (s : State) (past : List Statement) : Prop where
  room : s.stream.length < 2 ^ 64
  scope : s.scope.Numbered
  free : ∀ stmt ∈ past ++ s.emitted, s.Free stmt.subject.toTerm ∧ s.Free stmt.object

/-- Going on, the reader has drawn `n` nodes and given up as many tokens at least. -/
structure State.Goes (s s' : State) (n : ℕ) : Prop where
  number : s'.supply.anonymous = s.supply.anonymous + UInt64.ofNat n
  scope : s'.scope.Numbered
  length : n + s'.stream.length ≤ s.stream.length

/-- The nodes that are drawn next are still unused, and none of them is what none of them was before. -/
structure State.Leads (s : State) (past : List Statement) (s' : State) : Prop where
  unused : s'.Unused past
  free : ∀ {t : Term}, s.Free t → s'.Free t

namespace State

variable {s s' s'' : State} {past stmts : List Statement} {t : Term}

theorem mintedLabel_add (a : UInt64) (n i : ℕ) :
    mintedLabel (a + UInt64.ofNat n) i = mintedLabel a (n + i) := by
  rw [mintedLabel, mintedLabel, UInt64.ofNat_add, UInt64.add_assoc]

/-- What is not drawn next is not drawn later. -/
theorem Goes.free (h : s.Goes s' n) (ht : s.Free t) : s'.Free t := by
  intro i hi hi'
  have hlength := h.length
  rw [h.number, mintedLabel_add]
  exact ht (n + i) (by omega) (by omega)

/-- What was drawn is not drawn again. -/
theorem Goes.free_of_minted (h : s.Goes s' n) (hs : s.Unused past)
    (ht : t.Minted s.supply.anonymous 0 n) : s'.Free t := by
  intro i hi hi'
  have hlength := h.length
  have hroom := hs.room
  rw [h.number, mintedLabel_add]
  exact ht.ne (.inr (by omega)) (by omega) (by omega)

/-- The nodes that are drawn next stay unused where what was said is known not to speak of them. -/
theorem Goes.leads (h : s.Goes s' n) (hs : s.Unused past) (hemitted : s'.emitted = s.emitted ++ stmts)
    (hstmts : ∀ stmt ∈ stmts, s'.Free stmt.subject.toTerm ∧ s'.Free stmt.object) : s.Leads past s' := by
  have hlength := h.length
  refine ⟨⟨Nat.lt_of_le_of_lt (by omega) hs.room, h.scope, ?_⟩, h.free⟩
  rw [hemitted, ← List.append_assoc]
  exact List.forall_mem_append.mpr
    ⟨fun stmt hstmt => ⟨h.free (hs.free stmt hstmt).1, h.free (hs.free stmt hstmt).2⟩, hstmts⟩

/-- So they do where nothing was said. -/
theorem Goes.leads_of_silent (h : s.Goes s' n) (hs : s.Unused past) (hemitted : s'.emitted = s.emitted) :
    s.Leads past s' := by
  have hnothing : s'.emitted = s.emitted ++ [] := by rw [hemitted, List.append_nil]
  exact h.leads hs hnothing fun _ hstmt => absurd hstmt List.not_mem_nil

/-- So they do where what was said speaks of what was drawn. -/
theorem Goes.leads_of_minted (h : s.Goes s' n) (hs : s.Unused past)
    (hemitted : s'.emitted = s.emitted ++ stmts)
    (hstmts : ∀ stmt ∈ stmts, stmt.Minted s.supply.anonymous 0 n) : s.Leads past s' :=
  h.leads hs hemitted fun stmt hstmt =>
    ⟨h.free_of_minted hs (hstmts stmt hstmt).subject, h.free_of_minted hs (hstmts stmt hstmt).object⟩

/-- So they do where it also speaks of a subject that is none of them. -/
theorem Goes.leads_of_mintedFor {subject : Node} (h : s.Goes s' n) (hs : s.Unused past)
    (hsubject : s.Free subject.toTerm) (hemitted : s'.emitted = s.emitted ++ stmts)
    (hstmts : ∀ stmt ∈ stmts, stmt.MintedFor s.supply.anonymous 0 n subject) : s.Leads past s' := by
  refine h.leads hs hemitted fun stmt hstmt => ⟨?_, h.free_of_minted hs (hstmts stmt hstmt).object⟩
  rcases (hstmts stmt hstmt).subject with heq | hminted
  · rw [heq]
    exact h.free hsubject
  · exact h.free_of_minted hs hminted

/-- With a token more given up than nodes drawn, there is one to be drawn. -/
theorem Goes.draw {node : Node} (h : s.Goes s' n) (hspare : n + s'.stream.length < s.stream.length)
    (hnode : anonymous.run s' = .ok node s'') :
    s.Goes s'' (n + 1) ∧ node.toTerm.Minted s.supply.anonymous 0 (n + 1) ∧
      s''.emitted = s'.emitted := by
  have hnumber : s'.supply.anonymous + 1 = s.supply.anonymous + UInt64.ofNat (n + 1) := by
    rw [h.number, UInt64.ofNat_add, UInt64.add_assoc]
    rfl
  cases hnode
  refine ⟨⟨hnumber, h.scope, by simp only; omega⟩,
    fun l hl => .inr ⟨n + 1, Nat.succ_pos n, le_rfl, ?_⟩, rfl⟩
  rw [mintedLabel, ← hnumber]
  exact (Term.blank.inj hl).symm

theorem Leads.trans (h : s.Leads past s') (h' : s'.Leads past s'') : s.Leads past s'' :=
  ⟨h'.unused, fun ht => h'.free (h.free ht)⟩

/-- Giving up tokens is going on. -/
theorem Unused.goes (hs : s.Unused past) (hsupply : s'.supply = s.supply) (hscope : s'.scope = s.scope)
    (hlength : s'.stream.length ≤ s.stream.length) : s.Goes s' 0 := by
  refine ⟨?_, hscope ▸ hs.scope, by omega⟩
  rw [hsupply]
  exact (UInt64.add_zero _).symm

/-- Tokens that are given up were for nodes that are not drawn. -/
theorem Unused.leads (hs : s.Unused past) (hsupply : s'.supply = s.supply) (hscope : s'.scope = s.scope)
    (hemitted : s'.emitted = s.emitted) (hlength : s'.stream.length ≤ s.stream.length) :
    s.Leads past s' :=
  (hs.goes hsupply hscope hlength).leads_of_silent hs hemitted

/-- A triple that does not speak of the nodes that are drawn next leaves them unused. -/
theorem Unused.emit {subject : Node} {predicate : Iri} {object : Term} {u : Unit} (hs : s.Unused past)
    (hsubject : s.Free subject.toTerm) (hobject : s.Free object)
    (h : (emit subject predicate object).run s = .ok u s') : s.Leads past s' := by
  cases h
  refine ⟨⟨hs.room, hs.scope, ?_⟩, fun ht => ht⟩
  rw [← List.append_assoc]
  exact List.forall_mem_append.mpr ⟨hs.free, List.forall_mem_singleton.mpr ⟨hsubject, hobject⟩⟩

/-- At the end of a block its triples are among those of earlier blocks. -/
theorem Unused.clear (hs : s.Unused past) :
    ({ s with emitted := [] } : State).Unused (past ++ s.emitted) := by
  refine ⟨hs.room, hs.scope, ?_⟩
  rw [List.append_nil]
  exact hs.free

/-- Where reading begins, nothing has been used yet. -/
theorem Unused.start (stream : TokenStream) (prefixes : List (Text × Text)) (base : Text)
    (supply : Supply) (hroom : stream.length < 2 ^ 64) :
    ({ stream, prefixes, base, supply } : State).Unused [] :=
  ⟨hroom, Scope.numbered_empty, fun _ hstmt => absurd hstmt List.not_mem_nil⟩

end State

section Readers

open TokenStream

variable {α : Type} {l' : Labels} {ts : List Token} {rest : TokenStream} {out past : List Statement}
  {s s' s'' : State} {u : Unit} {fuel : ℕ}

/-- No node has been drawn yet. -/
theorem State.Unused.stands (hs : s.Unused past) :
    Labels.Stands s.supply.anonymous 0 ⟨s.scope, s.supply⟩ :=
  ⟨(UInt64.add_zero _).symm, hs.scope⟩

/-- A part of a document that draws no more nodes than it has tokens lets the reader go on. -/
theorem goes_of_mints {P : ℕ → α → Prop} {x : Meaning α} {r : α} (hs : s.Unused past)
    (hstream : s.stream = after ts rest) (hx : Mints s.supply.anonymous 0 x P)
    (hrun : x.run ⟨s.scope, s.supply⟩ = some (r, l')) (hlength : ∀ n, P n r → n ≤ ts.length) :
    ∃ n, P n r ∧ s.Goes (reading c l' rest out) n := by
  obtain ⟨n, -, hl', hP⟩ := hx _ r l' hs.stands hrun
  have hle := hlength n hP
  refine ⟨n, hP, hl'.number, hl'.scope, ?_⟩
  rw [hstream, stream_reading, length_after]
  omega

/-! ### What the readers leave unused -/

theorem expect_leads {k : Kind} {t : Token} (hs : s.Unused past) (hk : k ≠ .eof)
    (h : (expect k).run s = .ok t s') : s.Leads past s' := by
  obtain ⟨rest, rfl, hlt⟩ := exists_eq_of_expect hk h
  exact hs.leads rfl rfl rfl hlt.le

theorem advance_leads (hs : s.Unused past) (hk : s.stream.current.kind ≠ .eof)
    (h : advance.run s = .ok u s') : s.Leads past s' := by
  obtain ⟨rest, rfl, hlt⟩ := exists_eq_of_advance hk h
  exact hs.leads rfl rfl rfl hlt.le

theorem verb_leads {i : Iri} (hs : s.Unused past) (h : verb.run s = .ok i s') : s.Leads past s' := by
  rw [s.eq_reading] at h
  obtain ⟨v, rest, l', hstream, -, hmeaning, rfl⟩ := verb_eq_ok_iff.mp h
  obtain ⟨n, -, hgoes⟩ := goes_of_mints hs hstream v.mints hmeaning fun n hn => by omega
  exact hgoes.leads_of_silent hs rfl

/-- The node of a property list is drawn behind its bracket. -/
theorem bracket_leads {t : Token} {node : Node} (hs : s.Unused past)
    (h : (expect .openBracket).run s = .ok t s') (hnode : anonymous.run s' = .ok node s'') :
    s.Leads past s'' ∧ s''.Free node.toTerm := by
  obtain ⟨rest, rfl, hlt⟩ := exists_eq_of_expect (by decide) h
  have hbracket : s.Goes { s with stream := rest } 0 := hs.goes rfl rfl hlt.le
  obtain ⟨hgoes, hminted, hemitted⟩ := hbracket.draw (by simpa using hlt) hnode
  exact ⟨hgoes.leads_of_silent hs hemitted, hgoes.free_of_minted hs hminted⟩

/-- An object gives up more tokens than it draws nodes. -/
theorem object_goes {t : Term} (hs : s.Unused past) (h : (object fuel).run s = .ok t s') :
    ∃ (n : ℕ) (inner : List Statement), s.Goes s' n ∧ n + s'.stream.length < s.stream.length ∧
      t.Minted s.supply.anonymous 0 n ∧ s'.emitted = s.emitted ++ inner ∧
      ∀ stmt ∈ inner, stmt.Minted s.supply.anonymous 0 n := by
  obtain ⟨o, rest, l', inner, hstream, hmeaning, rfl⟩ :=
    (soundAt fuel).object ⟨s.prefixes, s.base⟩ ⟨s.scope, s.supply⟩ s.stream s.emitted t s' h
  obtain ⟨n, ⟨hfewer, ht, hinner⟩, hgoes⟩ := goes_of_mints hs hstream o.mints hmeaning
    fun n hn => by omega
  refine ⟨n, inner, hgoes, ?_, ht, rfl, hinner⟩
  rw [hstream, stream_reading, length_after]
  omega

/-- An object that was read leaves the nodes that are drawn next unused. -/
theorem object_leads {t : Term} (hs : s.Unused past) (h : (object fuel).run s = .ok t s') :
    s.Leads past s' ∧ s'.Free t := by
  obtain ⟨n, inner, hgoes, -, ht, hemitted, hinner⟩ := object_goes hs h
  exact ⟨hgoes.leads_of_minted hs hemitted hinner, hgoes.free_of_minted hs ht⟩

/-- So do an item of a list and its cell. -/
theorem item_leads {item : Term} {cell : Node} (hs : s.Unused past)
    (h : (object fuel).run s = .ok item s') (hcell : anonymous.run s' = .ok cell s'') :
    s.Leads past s'' ∧ s''.Free item ∧ s''.Free cell.toTerm := by
  obtain ⟨n, inner, hgoes, hspare, hitem, hemitted, hinner⟩ := object_goes hs h
  -- the token that the object has to spare pays for the cell
  obtain ⟨hgoes, hminted, hsame⟩ := hgoes.draw hspare hcell
  have hn := Nat.le_succ n
  exact ⟨hgoes.leads_of_minted hs (hsame.trans hemitted)
      fun stmt hstmt => (hinner stmt hstmt).mono le_rfl hn,
    hgoes.free_of_minted hs (hitem.mono le_rfl hn), hgoes.free_of_minted hs hminted⟩

theorem objects_leads {subject : Node} {predicate : Iri} (hs : s.Unused past)
    (hsubject : s.Free subject.toTerm) (h : (objects subject predicate fuel).run s = .ok u s') :
    s.Leads past s' := by
  obtain ⟨os, rest, l', stmts, hstream, hmeaning, rfl⟩ := (soundAt fuel).objects
    ⟨s.prefixes, s.base⟩ ⟨s.scope, s.supply⟩ s.stream s.emitted subject predicate u s' h
  obtain ⟨n, ⟨-, hstmts⟩, hgoes⟩ := goes_of_mints hs hstream (os.mints subject predicate) hmeaning
    fun n hn => by omega
  exact hgoes.leads_of_mintedFor hs hsubject rfl hstmts

theorem predicates_leads {subject : Node} (hs : s.Unused past) (hsubject : s.Free subject.toTerm)
    (h : (predicates subject fuel).run s = .ok u s') : s.Leads past s' := by
  obtain ⟨ps, rest, l', stmts, hstream, hmeaning, rfl⟩ := (soundAt fuel).predicates
    ⟨s.prefixes, s.base⟩ ⟨s.scope, s.supply⟩ s.stream s.emitted subject u s' h
  obtain ⟨n, ⟨-, hstmts⟩, hgoes⟩ := goes_of_mints hs hstream (ps.mints subject) hmeaning
    fun n hn => by omega
  exact hgoes.leads_of_mintedFor hs hsubject rfl hstmts

theorem propertyList_leads {r : Node × Bool} (hs : s.Unused past)
    (h : (propertyList fuel).run s = .ok r s') : s.Leads past s' ∧ s'.Free r.1.toTerm := by
  cases fuel with
  | zero => exact absurd h unexpected_ne_ok
  | succ fuel =>
    rw [propertyList, run_bind_eq_ok] at h
    obtain ⟨_, s₁, hopen, h⟩ := h
    obtain ⟨node, s₂, hanonymous, h⟩ := run_bind_eq_ok.mp h
    obtain ⟨h₂, hnode⟩ := bracket_leads hs hopen hanonymous
    obtain ⟨k, s₃, hkind, h⟩ := run_bind_eq_ok.mp h
    cases hkind
    simp only at h
    split_ifs at h
    · obtain ⟨_, s₄, hclose, h⟩ := run_bind_eq_ok.mp h
      cases h
      have h₄ := expect_leads h₂.unused (by decide) hclose
      exact ⟨h₂.trans h₄, h₄.free hnode⟩
    · obtain ⟨_, s₃, hpredicates, h⟩ := run_bind_eq_ok.mp h
      obtain ⟨_, s₄, hclose, h⟩ := run_bind_eq_ok.mp h
      cases h
      have h₃ := predicates_leads h₂.unused hnode hpredicates
      have h₄ := expect_leads h₃.unused (by decide) hclose
      exact ⟨(h₂.trans h₃).trans h₄, h₄.free (h₃.free hnode)⟩

/-- A subject draws no more nodes than it has tokens, and speaks of these only. -/
theorem Subject.mints (x : Subject) : Mints a m (x.meaning c) fun n p =>
    n ≤ m + x.tokens.length ∧ p.1.toTerm.Minted a m n ∧ ∀ s ∈ p.2, s.Minted a m n := by
  cases x with
  | name name =>
    refine .bind name.mints fun n i _ hn => .pure ⟨by omega, .of_ne_blank nofun, ?_⟩
    exact fun s hs => absurd hs List.not_mem_nil
  | label t =>
    refine .bind (.labelled _) fun n node _ hn => .pure ⟨by omega, hn.1 ▸ hn.2, ?_⟩
    exact fun s hs => absurd hs List.not_mem_nil
  | list opening items closing =>
    refine .bind items.mints fun n cells _ hits => .pure ⟨?_, hits.2.minted_spellList⟩
    rw [Subject.tokens, List.length_cons, List.length_append]
    have := hits.1
    omega

theorem subject_leads {node : Node} (hs : s.Unused past) (h : subject.run s = .ok node s') :
    s.Leads past s' ∧ s'.Free node.toTerm := by
  rw [s.eq_reading] at h
  obtain ⟨x, rest, l', inner, hstream, hmeaning, rfl⟩ := subject_sound h
  obtain ⟨n, ⟨-, hnode, hinner⟩, hgoes⟩ := goes_of_mints hs hstream x.mints hmeaning
    fun n hn => by omega
  exact ⟨hgoes.leads_of_minted hs rfl hinner, hgoes.free_of_minted hs hnode⟩

theorem triples_leads (hs : s.Unused past) (h : triples.run s = .ok u s') : s.Leads past s' := by
  rw [triples, run_bind_eq_ok] at h
  obtain ⟨k, s₁, hkind, h⟩ := h
  cases hkind
  split_ifs at h
  · obtain ⟨_, _, hdepth, h⟩ := run_bind_eq_ok.mp h
    cases hdepth
    obtain ⟨⟨node, empty⟩, s₂, hlist, h⟩ := run_bind_eq_ok.mp h
    obtain ⟨h₂, hnode⟩ := propertyList_leads hs hlist
    obtain ⟨k, s₃, hkind, h⟩ := run_bind_eq_ok.mp h
    cases hkind
    split_ifs at h
    · cases h
      exact h₂
    · obtain ⟨_, _, hdepth, h⟩ := run_bind_eq_ok.mp h
      cases hdepth
      exact h₂.trans (predicates_leads h₂.unused hnode h)
  · obtain ⟨node, s₂, hsubject, h⟩ := run_bind_eq_ok.mp h
    obtain ⟨h₂, hnode⟩ := subject_leads hs hsubject
    obtain ⟨_, _, hdepth, h⟩ := run_bind_eq_ok.mp h
    cases hdepth
    exact h₂.trans (predicates_leads h₂.unused hnode h)

/-- **Behind a block the nodes that are drawn next are unused by its statements too.** -/
theorem statement_unused {stmts : List Statement} (hs : ({ s with emitted := [] } : State).Unused past)
    (h : statement.run s = .ok stmts s') : ({ s' with emitted := [] } : State).Unused (past ++ stmts) := by
  -- a directive draws nothing and says nothing
  have hdirective {c : Context} {d : Directive} {rest : TokenStream}
      (hstream : s.stream = after d.tokens rest) :
      ({ reading c ⟨s.scope, s.supply⟩ rest [] with emitted := [] } : State).Unused (past ++ []) := by
    have hleads : State.Leads _ past (reading c ⟨s.scope, s.supply⟩ rest []) :=
      hs.leads rfl rfl rfl (length_lt_of_after hstream d.tokens_ne_nil).le
    rw [List.append_nil]
    exact hleads.unused
  rw [s.eq_reading, statement, run_bind_eq_ok] at h
  obtain ⟨_, s₀, hclear, h⟩ := h
  cases hclear
  obtain ⟨k, s₁, hkind, h⟩ := run_bind_eq_ok.mp h
  obtain ⟨rfl, rfl⟩ : k = s.stream.current.kind ∧
      s₁ = reading ⟨s.prefixes, s.base⟩ ⟨s.scope, s.supply⟩ s.stream [] := kind_eq_ok.mp hkind
  split at h
  · obtain ⟨_, s₂, hdeclared, h⟩ := run_bind_eq_ok.mp h
    obtain ⟨d, rest, hstream, -, rfl⟩ := prefixDeclaration_sound hdeclared
    cases h
    exact hdirective hstream
  · obtain ⟨_, s₂, hdeclared, h⟩ := run_bind_eq_ok.mp h
    obtain ⟨d, rest, hstream, -, rfl⟩ := baseDeclaration_sound hdeclared
    cases h
    exact hdirective hstream
  · obtain ⟨_, s₂, htriples, h⟩ := run_bind_eq_ok.mp h
    obtain ⟨_, s₃, hperiod, h⟩ := run_bind_eq_ok.mp h
    obtain ⟨_, _, hget, h⟩ := run_bind_eq_ok.mp h
    cases hget
    cases h
    have h₂ := triples_leads hs htriples
    exact (expect_leads h₂.unused (by decide) hperiod).unused.clear

/-! ### Lists that were read -/

/-- What it says of the reader of lists that it went from `s` to `s'`, having found `items` and given
`head`: each item has a cell; about a cell there are exactly two of the triples that were added, one
with the item and one with the next cell, and from the head they lead through all cells, in order, to the
empty list, which has no triples. -/
structure Spelled (s : State) (past : List Statement) (head : Node) (s' : State) (items : Items)
    (cells : List Cell) (added : List Statement) : Prop where
  /-- The cells hold what the items mean. -/
  items : (items.cells ⟨s.prefixes, s.base⟩).run ⟨s.scope, s.supply⟩
    = some (cells, ⟨s'.scope, s'.supply⟩)
  emitted : s'.emitted = s.emitted ++ added
  empty : cells = [] → head = .iri Vocabulary.nil ∧ added = []
  walk : Walk added head (contents cells)
  nodup : (cells.map Cell.node).Nodup
  anonymous : ∀ cell ∈ cells, ∃ k, cell.node = .blank (anonymousLabel k)
  /-- No statement from before speaks of a cell. -/
  new : ∀ cell ∈ cells, ∀ stmt ∈ past ++ s.emitted, ¬ stmt.Mentions cell.node
  inner : ∀ cell ∈ cells, ∀ stmt ∈ cell.inner, stmt ∈ added
  /-- No item is a cell, nor does what is said inside of an item speak of one. -/
  apart : ∀ cell ∈ cells, ∀ other ∈ cells, other.item ≠ cell.node.toTerm ∧
    ∀ stmt ∈ other.inner, ¬ stmt.Mentions cell.node

/-- **A list that was read is well-formed**, where the nodes that are drawn next are unused.  Its tokens
are those of its items between parentheses. -/
theorem collection_spelled {head : Node} (hs : s.Unused past)
    (h : (collection fuel).run s = .ok head s') :
    ∃ (opening : Leaf .openParen) (items : Items) (closing : Leaf .closeParen) (cells : List Cell)
      (added : List Statement),
      s.stream = after (opening.1 :: (items.tokens ++ [closing.1])) s'.stream ∧
      Spelled s past head s' items cells added := by
  obtain ⟨opening, its, closing, rest, l', cells, hstream, hmeaning, rfl, rfl⟩ :=
    (soundAt fuel).collection ⟨s.prefixes, s.base⟩ ⟨s.scope, s.supply⟩ s.stream s.emitted head s' h
  obtain ⟨n, -, -, hfewer, hlinked⟩ := its.mints _ _ _ hs.stands hmeaning
  have hle : n ≤ s.stream.length := by
    rw [hstream, length_after, List.length_cons, List.length_append]
    omega
  have hroom := hs.room
  have hn : n < 2 ^ 64 := by omega
  refine ⟨opening, its, closing, cells, _, hstream, hmeaning, rfl, ?_, hlinked.walk_spellList hn,
    hlinked.nodup hn, fun cell hcell => ?_, fun cell hcell stmt hstmt => ?_,
    fun cell hcell => inner_spellList hcell, hlinked.apart hn⟩
  · rintro rfl
    exact ⟨rfl, rfl⟩
  · obtain ⟨i, -, -, hnode⟩ := hlinked.exists_node cell hcell
    exact ⟨_, hnode⟩
  · obtain ⟨i, hi, hi', hnode⟩ := hlinked.exists_node cell hcell
    obtain ⟨hsubject, hobject⟩ := hs.free stmt hstmt
    rw [hnode]
    rintro (heq | heq)
    · exact hsubject i hi (by omega) (congrArg Node.toTerm heq)
    · exact hobject i hi (by omega) heq

end Readers

end Turtle

end TripleStore
