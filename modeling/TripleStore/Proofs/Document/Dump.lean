import TripleStore.Document.Load
import TripleStore.Proofs.Graph.Copy
import TripleStore.Proofs.NTriples.RoundTrip
import TripleStore.Proofs.Turtle.Plain
import TripleStore.Proofs.Turtle.Shift

/-!
# Documents that are loaded and written out again

A document goes through four changes of labels on its way through a repository: it is read with
labels of its own, its nodes are renamed when the graph is merged into a collection, and what is
written out is read with labels of its own once more, which are again not those it was written with.
Each change is one to one on the labels that are there, so they are together; and each stage gives
terms that the next one can carry.

* `SameButForLabels`: two sets of statements that are the same up to a bijection of their labels.
* `Graph.exists_dumped`: the statements of a graph as they are written out.
* `Document.dump_of_load`: **what is loaded can be written out and read back**, and is the same but
  for the labels.
-/

namespace TripleStore

/-! ### Statements up to their labels -/

/-- The labels of a statement. -/
def Statement.labels (s : Statement) : Set Text :=
  {l | s.subject = .blank l ∨ s.object = .blank l ∨ s.graph = some (.blank l)}

/-- The labels of statements. -/
def labelsOf (stmts : List Statement) : Set Text := {l | ∃ s ∈ stmts, l ∈ s.labels}

/-- A statement with its labels replaced, that of its graph included. -/
def Statement.relabelled (f : Text → Text) (s : Statement) : Statement :=
  { s.mapLabels f with graph := s.graph.map (Node.mapLabel f) }

/-- The statements of the two lists, whatever their order, are the same up to a bijection of their
labels. -/
def SameButForLabels (stmts stmts' : List Statement) : Prop :=
  ∃ f : Text → Text, Set.BijOn f (labelsOf stmts) (labelsOf stmts') ∧
    ∀ s, s ∈ stmts' ↔ ∃ u ∈ stmts, s = u.relabelled f

theorem Statement.relabelled_eq (f : Text → Text) {s : Statement} (h : s.graph = none) :
    s.relabelled f = s.mapLabels f := by
  rw [relabelled, h]
  rfl

theorem Node.mapLabel_toTerm (f : Text → Text) (n : Node) :
    (n.mapLabel f).toTerm = n.toTerm.mapLabel f := by
  cases n <;> rfl

theorem Node.mapLabel_eq_blank {f : Text → Text} {n : Node} {l : Text} :
    n.mapLabel f = .blank l ↔ ∃ k, n = .blank k ∧ f k = l := by
  cases n <;> simp [mapLabel]

theorem Term.mapLabel_eq_blank {f : Text → Text} {t : Term} {l : Text} :
    t.mapLabel f = .blank l ↔ ∃ k, t = .blank k ∧ f k = l := by
  cases t <;> simp [mapLabel]

theorem Statement.labels_relabelled (f : Text → Text) (s : Statement) :
    (s.relabelled f).labels = f '' s.labels := by
  ext l
  show ((s.subject.mapLabel f = .blank l) ∨ (s.object.mapLabel f = .blank l) ∨
    (s.graph.map (Node.mapLabel f) = some (.blank l))) ↔ _
  simp only [Option.map_eq_some_iff, Node.mapLabel_eq_blank, Term.mapLabel_eq_blank, Set.mem_image,
    labels, Set.mem_ofPred_eq]
  constructor
  · rintro (⟨k, hk, rfl⟩ | ⟨k, hk, rfl⟩ | ⟨n, hn, k, rfl, rfl⟩)
    · exact ⟨k, .inl hk, rfl⟩
    · exact ⟨k, .inr (.inl hk), rfl⟩
    · exact ⟨k, .inr (.inr hn), rfl⟩
  · rintro ⟨k, hk | hk | hk, rfl⟩
    · exact .inl ⟨k, hk, rfl⟩
    · exact .inr (.inl ⟨k, hk, rfl⟩)
    · exact .inr (.inr ⟨_, hk, k, rfl, rfl⟩)

/-- A map that is one to one on the labels makes the statements the same but for the labels. -/
theorem SameButForLabels.of_injOn {stmts stmts' : List Statement} {f : Text → Text}
    (hf : Set.InjOn f (labelsOf stmts)) (h : ∀ s, s ∈ stmts' ↔ ∃ u ∈ stmts, s = u.relabelled f) :
    SameButForLabels stmts stmts' := by
  have himage : labelsOf stmts' = f '' labelsOf stmts := by
    ext l
    constructor
    · intro hl
      obtain ⟨s, hs, hl⟩ := hl
      obtain ⟨u, hu, rfl⟩ := (h s).mp hs
      rw [Statement.labels_relabelled] at hl
      obtain ⟨k, hk, rfl⟩ := hl
      exact ⟨k, ⟨u, hu, hk⟩, rfl⟩
    · intro hl
      obtain ⟨k, ⟨u, hu, hk⟩, rfl⟩ := hl
      refine ⟨u.relabelled f, (h _).mpr ⟨u, hu, rfl⟩, ?_⟩
      rw [Statement.labels_relabelled]
      exact Set.mem_image_of_mem f hk
  refine ⟨f, ?_, h⟩
  rw [himage]
  exact hf.bijOn_image

theorem Statement.relabelled_relabelled (f g : Text → Text) (s : Statement) :
    (s.relabelled f).relabelled g = s.relabelled (g ∘ f) := by
  obtain ⟨subject, predicate, object, graph⟩ := s
  rcases graph with _ | _ | _ <;> cases subject <;> cases object <;> rfl

theorem SameButForLabels.trans {stmts stmts' stmts'' : List Statement}
    (h : SameButForLabels stmts stmts') (h' : SameButForLabels stmts' stmts'') :
    SameButForLabels stmts stmts'' := by
  obtain ⟨f, hf, hmem⟩ := h
  obtain ⟨g, hg, hmem'⟩ := h'
  refine ⟨g ∘ f, hg.comp hf, fun s => ?_⟩
  rw [hmem']
  constructor
  · intro hs
    obtain ⟨v, hv, rfl⟩ := hs
    obtain ⟨u, hu, rfl⟩ := (hmem v).mp hv
    exact ⟨u, hu, u.relabelled_relabelled f g⟩
  · intro hs
    obtain ⟨u, hu, rfl⟩ := hs
    exact ⟨_, (hmem _).mpr ⟨u, hu, rfl⟩, (u.relabelled_relabelled f g).symm⟩

/-- Statements outside of any graph with their labels shifted. -/
theorem SameButForLabels.shift (σ : Shift) {stmts : List Statement}
    (h : ∀ s ∈ stmts, s.graph = none) : SameButForLabels stmts (σ.statements stmts) := by
  refine .of_injOn σ.label_injective.injOn fun s => ?_
  rw [Shift.statements, List.mem_map]
  constructor
  · intro hs
    obtain ⟨u, hu, rfl⟩ := hs
    exact ⟨u, hu, (u.relabelled_eq σ.label (h u hu)).symm⟩
  · intro hs
    obtain ⟨u, hu, rfl⟩ := hs
    exact ⟨u, hu, (u.relabelled_eq σ.label (h u hu)).symm⟩

/-- Labels that are replaced twice. -/
theorem Statement.mapLabels_mapLabels (f g : Text → Text) (s : Statement) :
    (s.mapLabels f).mapLabels g = s.mapLabels (g ∘ f) := by
  obtain ⟨subject, predicate, object, graph⟩ := s
  cases subject <;> cases object <;> rfl

/-! ### All statements of a graph -/

/-- Drafts in which nothing is missing. -/
theorem exists_map_toDraft {drafts : List Draft} (h : ∀ d ∈ drafts, ∃ s : Statement, d = s.toDraft) :
    ∃ stmts : List Statement, drafts = stmts.map Statement.toDraft := by
  induction drafts with
  | nil => exact ⟨[], rfl⟩
  | cons d drafts ih =>
    obtain ⟨⟨s, rfl⟩, hrest⟩ := List.forall_mem_cons.mp h
    obtain ⟨stmts, rfl⟩ := ih hrest
    exact ⟨s :: stmts, rfl⟩

theorem Statement.toDraft_injective : Function.Injective Statement.toDraft := by
  intro s s' h
  obtain ⟨subject, predicate, object, graph⟩ := s
  cases h
  rfl

/-- **The statements of a collection as they are written out**, where every triple is that of a
statement. -/
theorem Graph.exists_dumped {g : Graph} (hg : g.Registered) {S : Statement → Prop}
    (hS : ∀ t, t ∈ g.triples ↔ ∃ s, S s ∧ t = s.triple) (name : Iri) :
    ∃ stmts : List Statement, matchIn name g {} = stmts.map Statement.toDraft ∧
      ∀ s', s' ∈ stmts ↔ ∃ s, S s ∧ s' = s.inGraph (.iri name) := by
  have hdrafts : ∀ d, d ∈ matchIn name g {} ↔ ∃ s, S s ∧ d = (s.inGraph (.iri name)).toDraft := by
    intro d
    show d ∈ g.statements.map (·.inGraph (.iri name)) ↔ _
    rw [List.mem_map]
    constructor
    · intro h
      obtain ⟨e, he, rfl⟩ := h
      obtain ⟨t, ht, rfl⟩ := (mem_statements hg).mp he
      obtain ⟨s, hs, rfl⟩ := (hS t).mp ht
      exact ⟨s, hs, rfl⟩
    · intro h
      obtain ⟨s, hs, rfl⟩ := h
      exact ⟨_, (mem_statements hg).mpr ⟨s.triple, (hS _).mpr ⟨s, hs, rfl⟩, rfl⟩, rfl⟩
  obtain ⟨stmts, hstmts⟩ := exists_map_toDraft fun d hd => by
    obtain ⟨s, -, hs⟩ := (hdrafts d).mp hd
    exact ⟨_, hs⟩
  refine ⟨stmts, hstmts, fun s' => ?_⟩
  rw [← List.mem_map_of_injective Statement.toDraft_injective, ← hstmts, hdrafts]
  simp only [Statement.toDraft_injective.eq_iff]

/-! ### Loading -/

/-- What is collected from a delivery is received without an error. -/
theorem Delivery.receive_of_collect {d : Delivery} {stmts : List Statement} {left : Supply}
    (h : d.collect = (.ok stmts, left)) : d.receive = ⟨stmts, none, left⟩ := by
  unfold collect at h
  generalize d.receive = r at h ⊢
  obtain ⟨received, error, supply⟩ := r
  cases error with
  | some e => cases h
  | none =>
    cases h
    rfl

namespace Graph

/-- The graph of statements, one after the other. -/
def ofStatements (reports : Bool) (stmts : List Statement) : Graph :=
  Graph.addAll { reports } (stmts.map Statement.triple)

theorem registered_ofStatements (reports : Bool) (stmts : List Statement) :
    (ofStatements reports stmts).Registered :=
  (Registered.empty reports).addAll _

theorem mem_triples_ofStatements {reports : Bool} {stmts : List Statement} {t : Triple} :
    t ∈ (ofStatements reports stmts).triples ↔ ∃ s ∈ stmts, t = s.triple := by
  rw [ofStatements, mem_triples_addAll, List.mem_map]
  simp [eq_comm]

theorem blank_mem_nodes_triple {s : Statement} {l : Text} :
    some (.blank l) ∈ s.triple.nodes ↔ s.subject = .blank l ∨ s.object = .blank l := by
  have hsubject : some (Node.blank l) = some s.subject ↔ s.subject = .blank l := by
    rw [Option.some.injEq, eq_comm]
  have hobject : some (Node.blank l) ∈ ((some s.object).bind Term.toNode?).toList.map some ↔
      s.object = .blank l := by
    simp [Term.toNode?_eq_some, Node.toTerm]
  show some (Node.blank l) ∈ some s.subject :: ((some s.object).bind Term.toNode?).toList.map some ↔ _
  rw [List.mem_cons, hsubject, hobject]

variable {reports : Bool} {stmts : List Statement} {scope : Scope}

/-- The blank nodes of a graph of statements have the labels of the statements. -/
theorem blank_mem_ofStatements {l : Text} :
    some (.blank l) ∈ (ofStatements reports stmts).nodes ↔
      ∃ s ∈ stmts, s.subject = .blank l ∨ s.object = .blank l := by
  rw [ofStatements, mem_nodes_addAll]
  simp [blank_mem_nodes_triple]

theorem labelsOf_subset (h : scope.Holds stmts) :
    labelsOf stmts ⊆ {l | some (.blank l) ∈ (ofStatements reports stmts).nodes} := by
  intro l hl
  obtain ⟨s, hs, hsubject | hobject | hgraph⟩ := hl
  · exact blank_mem_ofStatements.mpr ⟨s, hs, .inl hsubject⟩
  · exact blank_mem_ofStatements.mpr ⟨s, hs, .inr hobject⟩
  · rw [(h s hs).graph] at hgraph
    cases hgraph

/-- The labels of statements that were read were drawn for them. -/
theorem drawn_ofStatements (h : scope.Holds stmts) : (ofStatements reports stmts).Drawn scope := by
  intro l hl
  obtain ⟨s, hs, hsubject | hobject⟩ := blank_mem_ofStatements.mp hl
  · exact (h s hs).subject.drawn l (by rw [hsubject]; rfl)
  · exact (h s hs).object.drawn l hobject

end Graph

/-! ### Terms under their new names -/

/-- What is left of a drawn label without its number can be written down. -/
theorem Scope.Plain.labelBase {scope : Scope} (h : scope.Plain) {l : Text} (hl : scope.Draws l) :
    isIdentifier (TripleStore.labelBase l) = true ∧ Scanner.isLabel (TripleStore.labelBase l) = true := by
  rcases hl with ⟨n, rfl⟩ | ⟨label, hlabel⟩
  · rw [labelBase_anonymous]
    exact ⟨isIdentifier_anonymousLabel n,
      isLabel_of_isWordByte fun b hb => isWordByte_of_mem_anonymousLabel hb⟩
  · obtain ⟨n, rfl⟩ := h.numbered label l hlabel
    rw [labelBase_numbered]
    exact ⟨h.valid label _ hlabel, h.label label _ hlabel⟩

/-- A term under its new name is read back. -/
theorem Scope.Admits.parseTerm_renamed {scope : Scope} {t : Term} {f : Text → Text}
    (ht : scope.Admits t) (hscope : scope.Plain)
    (hf : ∀ l, t = .blank l → ∃ n, f l = numbered (labelBase l) n) :
    NTriples.parseTerm (t.mapLabel f).render = .ok (t.mapLabel f) := by
  cases t with
  | blank l =>
    obtain ⟨n, hn⟩ := hf l rfl
    obtain ⟨hid, hlabel⟩ := hscope.labelBase (ht.drawn l rfl)
    rw [Term.mapLabel, hn]
    exact Term.parseTerm_of_isPlain (Scanner.isLabel_numbered hlabel n)
      (Term.violation?_blank.mpr (isIdentifier_numbered (.inr hid) n))
  | _ => exact Term.parseTerm_of_isPlain ht.plain ht.valid

theorem Renaming.triple_mapLabels (r : Renaming) (s : Statement) :
    r.triple s.triple = (s.mapLabels r.label).triple := by
  rw [r.triple_eq, s.triple_mapLabels]

/-! ### Writing out what was loaded -/

/-- The statements of a collection are written out without an error, and what is written is read
back, from whatever supply, as these statements but for their labels. -/
def Graph.WritesBack (g : Graph) (name : Iri) (stmts : List Statement) : Prop :=
  (NTriples.write ⟨none, []⟩ (matchIn name g {})).error = none ∧
    ∀ supply, ∃ result left,
      NTriples.parse (NTriples.write ⟨none, []⟩ (matchIn name g {})).sink.taken supply
          = (.ok result, left) ∧
        SameButForLabels stmts result

section

variable {reports : Bool} {stmts : List Statement} {scope : Scope} {copy : Graph} {r : Renaming}

/-- The statements of a copy are read back. -/
theorem Graph.Copies.readBack (h : (ofStatements reports stmts).Copies copy r)
    (hscope : scope.Plain) (hstmts : scope.Holds stmts) (name : Iri) {s : Statement}
    (hs : s ∈ stmts) : NTriples.ReadBack ((s.mapLabels r.label).inGraph (.iri name)) := by
  have hshape : ∀ l, s.subject = .blank l ∨ s.object = .blank l →
      ∃ n, r.label l = numbered (labelBase l) n :=
    fun l hl => h.shape l (blank_mem_ofStatements.mpr ⟨s, hs, hl⟩)
  have hwithin := hstmts s hs
  refine ⟨?_, ?_, ?_⟩
  · have hsubject := hwithin.subject.parseTerm_renamed (f := r.label) hscope fun l hl =>
      hshape l (.inl (Node.toTerm_eq_blank.mp hl))
    rw [← Node.mapLabel_toTerm] at hsubject
    exact hsubject
  · exact Term.parseTerm_of_isPlain hwithin.predicate.plain hwithin.predicate.valid
  · exact hwithin.object.parseTerm_renamed hscope fun l hl => hshape l (.inr hl)

/-- **A copy of a graph of statements is written out and read back** with the labels of the
statements changed one to one. -/
theorem Graph.Copies.writesBack (h : (ofStatements reports stmts).Copies copy r)
    (hcopy : copy.Registered) (hscope : scope.Plain) (hstmts : scope.Holds stmts) (name : Iri) :
    copy.WritesBack name stmts := by
  have htriples : ∀ t, t ∈ copy.triples ↔
      ∃ s, (∃ u ∈ stmts, s = u.mapLabels r.label) ∧ t = s.triple := by
    intro t
    rw [h.triples]
    constructor
    · intro ht
      obtain ⟨u, hu, rfl⟩ := ht
      obtain ⟨s, hs, rfl⟩ := mem_triples_ofStatements.mp hu
      exact ⟨_, ⟨s, hs, rfl⟩, r.triple_mapLabels s⟩
    · intro ht
      obtain ⟨_, ⟨s, hs, rfl⟩, rfl⟩ := ht
      exact ⟨s.triple, mem_triples_ofStatements.mpr ⟨s, hs, rfl⟩, (r.triple_mapLabels s).symm⟩
  obtain ⟨dumped, hdumped, hmem⟩ := exists_dumped hcopy htriples name
  have hback : ∀ s ∈ dumped, NTriples.ReadBack s := by
    intro s hs
    obtain ⟨_, ⟨u, hu, rfl⟩, rfl⟩ := (hmem s).mp hs
    exact h.readBack hscope hstmts name hu
  rw [WritesBack, hdumped, NTriples.write_unlimited]
  refine ⟨rfl, fun supply => ?_⟩
  have hread := NTriples.parse_render hback supply
  have hnumbered := (Labels.statements_goes ⟨{}, supply⟩ dumped).numbered Scope.numbered_empty
  have hg := hnumbered.naming_injective
  rw [Labels.statements_eq _ dumped (Scope.Keeps.refl _)] at hread
  generalize (Labels.statements ⟨{}, supply⟩ dumped).2.scope.naming = g at hread hg
  refine ⟨_, _, hread, .of_injOn (f := g ∘ r.label) ?_ fun s => ?_⟩
  · exact hg.comp_injOn (h.injective.mono (labelsOf_subset hstmts))
  · rw [List.mem_map]
    constructor
    · intro hs
      obtain ⟨s', hs', rfl⟩ := hs
      obtain ⟨_, ⟨u, hu, rfl⟩, rfl⟩ := (hmem s').mp hs'
      refine ⟨u, hu, ?_⟩
      rw [u.relabelled_eq _ (hstmts u hu).graph]
      exact Statement.mapLabels_mapLabels r.label g u
    · intro hs
      obtain ⟨u, hu, rfl⟩ := hs
      rw [u.relabelled_eq _ (hstmts u hu).graph]
      exact ⟨_, (hmem _).mpr ⟨_, ⟨u, hu, rfl⟩, rfl⟩, Statement.mapLabels_mapLabels r.label g u⟩

/-- Merging the graph of statements that were read into an empty graph, along any listing. -/
theorem Graph.mergeAlong_writesBack (hscope : scope.Plain) (hstmts : scope.Holds stmts)
    {listing : List (Option Node × List Pair)} (hlisting : (ofStatements reports stmts).Lists listing)
    (name : Iri) (reports' : Bool) (supply : Supply) :
    (Graph.mergeAlong { reports := reports' } listing supply).target.WritesBack name stmts := by
  obtain ⟨r, hcopies⟩ := Graph.mergeAlong_copies (registered_ofStatements reports stmts)
    (drawn_ofStatements hstmts) hscope.numbered hlisting reports' supply
  have hcopy := Registered.addSubjects (m := { target := { reports := reports' }, supply })
    (Registered.empty reports') listing
  exact hcopies.writesBack hcopy hscope hstmts name

/-- Merging it with all names drawn first. -/
theorem Graph.merge_writesBack (hscope : scope.Plain) (hstmts : scope.Holds stmts)
    (hlabels : (ofStatements reports stmts).labelOrder.length ≤ 2 ^ 64) (name : Iri)
    (reports' : Bool) (supply : Supply) :
    (Graph.merge { reports := reports' } (ofStatements reports stmts) supply).1.WritesBack name
      stmts := by
  obtain ⟨r, hcopies⟩ := Graph.merge_copies hlabels reports' supply
  have hcopy : (Graph.merge { reports := reports' } (ofStatements reports stmts)
      supply).1.Registered := (Registered.empty reports').embed _ _
  exact hcopies.writesBack hcopy hscope hstmts name

end

/-- Statements that are the same but for their labels are read back from the same output. -/
theorem Graph.WritesBack.of_same {g : Graph} {name : Iri} {stmts stmts' : List Statement}
    (h : g.WritesBack name stmts') (hsame : SameButForLabels stmts stmts') :
    g.WritesBack name stmts := by
  refine ⟨h.1, fun supply => ?_⟩
  obtain ⟨result, left, hread, hresult⟩ := h.2 supply
  exact ⟨result, left, hread, hsame.trans hresult⟩

namespace Document

variable {format : Format} {text : Text} {supply left : Supply} {stmts : List Statement}

/-- Loading from another supply gives the statements with their labels shifted. -/
theorem load_shift (h : (format.read text supply).collect = (.ok stmts, left)) (reports : Bool)
    (other : Supply) :
    load format text { reports } other
      = ⟨stmts.length, Graph.ofStatements reports ((Shift.between supply other).statements stmts),
          (Shift.between supply other).supply left, none⟩ := by
  have hreceive := Delivery.receive_of_collect (Format.collect_shift h other)
  have hlength : ((Shift.between supply other).statements stmts).length = stmts.length :=
    List.length_map _
  rw [load, loadLimited, Delivery.receiveLimited, if_pos rfl, hreceive]
  simp only [hlength, Option.map_none]
  rfl

/-- **What is loaded can be written out and read back.**  A text in UTF-8 that is read in a format,
whatever the supply, is loaded into an empty graph without an error.  If that graph is merged into an
empty collection, along any listing of it or with all names drawn first, where there are enough
numbers for its blank nodes, then the statements of the collection are written out without an error,
and what is written is read back as the statements of the text, up to a bijection of the labels. -/
theorem dump_of_load (hutf8 : Utf8.isWellFormed text = true)
    (h : (format.read text supply).collect = (.ok stmts, left)) (name : Iri) (reports : Bool)
    (other : Supply) :
    (load format text { reports } other).error = none ∧
      (∀ listing, (load format text { reports } other).graph.Lists listing →
        ∀ reports' supply', (Graph.mergeAlong { reports := reports' } listing
          supply').target.WritesBack name stmts) ∧
      ((load format text { reports } other).graph.labelOrder.length ≤ 2 ^ 64 →
        ∀ reports' supply', (Graph.merge { reports := reports' }
          (load format text { reports } other).graph supply').1.WritesBack name stmts) := by
  obtain ⟨_, -, hstmts⟩ := Format.exists_holds hutf8 h
  obtain ⟨scope, hscope, hshifted⟩ := Format.exists_holds hutf8 (Format.collect_shift h other)
  have hsame := SameButForLabels.shift (Shift.between supply other) fun s hs => (hstmts s hs).graph
  rw [load_shift h reports other]
  refine ⟨rfl, fun listing hlisting reports' supply' => ?_, fun hlabels reports' supply' => ?_⟩
  · exact (Graph.mergeAlong_writesBack hscope hshifted hlisting name reports' supply').of_same hsame
  · exact (Graph.merge_writesBack hscope hshifted hlabels name reports' supply').of_same hsame

/-- A label with a dot, a blank node without a label and an unknown escape, read from one supply,
loaded from another and merged from a third. -/
theorem dump_of_load_escapes :
    let text : Text := "_:a.b <p> [ <q> \"\\q\\u0041\"@en ] ."
    let stmts : List Statement := [⟨.blank "ANON1", "q", .lang "qA" "en", none⟩,
      ⟨.blank "a.b_1", "p", .blank "ANON1", none⟩]
    let loaded := load .turtle text Graph.empty { anonymous := 2, labels := 5 }
    let listing : List (Option Node × List Pair) :=
      [(some (.blank "a.b_6"), [⟨"p", some (.blank "ANON3")⟩]),
        (some (.blank "ANON3"), [⟨"q", some (.lang "qA" "en")⟩])]
    Utf8.isWellFormed text = true ∧ loaded.error = none ∧
      (Graph.empty.mergeAlong listing { labels := 9 }).target.WritesBack "x:c" stmts ∧
      (Graph.empty.merge loaded.graph {}).1.WritesBack "x:c" stmts := by
  intro text stmts loaded listing
  have hutf8 : Utf8.isWellFormed text = true := by decide +kernel
  have h : (Format.turtle.read text {}).collect = (.ok stmts, { anonymous := 1, labels := 1 }) := by
    decide +kernel
  have hlisting : loaded.graph.Lists listing := ⟨by decide +kernel, by decide +kernel⟩
  have hlabels : loaded.graph.labelOrder.length ≤ 2 ^ 64 := by
    rw [Graph.labelOrder, Text.sort, List.length_mergeSort]
    decide +kernel
  obtain ⟨herror, hmerge, hdrawn⟩ :=
    dump_of_load hutf8 h "x:c" true { anonymous := 2, labels := 5 }
  exact ⟨hutf8, herror, hmerge listing hlisting true _, hdrawn hlabels true _⟩

end Document

end TripleStore
