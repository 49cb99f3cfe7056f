import TripleStore.Proofs.Repository.Backing
import TripleStore.Proofs.Term.Plain

/-!
# What a repository accepts can be read back

Names and statements are checked when they are let in.  If they are plain text, then all that is in
the stores, and every name that the backing is told to save, is read back from its text.

* `Edit.isPlain`, `Move.isPlain`: nothing but plain text is let in, and no graph is merged.
* `Graph.Legible`, `Repository.Legible`, `Machine.Legible`: what can be read back; one lemma for
  each change, for each action and for each kind of move.
* `Machine.Legible.step`: **every plain move keeps a machine legible.**
-/

namespace TripleStore

open Repository

/-! ### Graphs -/

/-- The terms of the graph are read back from their texts. -/
def Graph.Legible (g : Graph) : Prop := ∀ t ∈ g.terms, NTriples.parseTerm t.render = .ok t

/-- Whether a statement is plain text if it is let in; merging lets in whatever there is. -/
def Edit.isPlain : Edit → Bool
  | .add d => d.violation?.isSome || d.isPlain
  | .merge _ => false
  | _ => true

namespace Graph.Legible

variable {g g' : Graph}

theorem empty (reports : Bool) : Graph.Legible { reports } := by
  rintro t (⟨n, hn, -⟩ | ⟨u, hu, -⟩)
  · exact absurd hn List.not_mem_nil
  · exact absurd hu List.not_mem_nil

/-- A graph that holds no more. -/
theorem mono (h : g.Legible) (hnodes : ∀ n ∈ g'.nodes, n ∈ g.nodes)
    (htriples : ∀ t ∈ g'.triples, t ∈ g.triples) : g'.Legible := by
  rintro t (⟨n, hn, rfl⟩ | ⟨u, hu, ht⟩)
  · exact h _ (.inl ⟨n, hnodes _ hn, rfl⟩)
  · exact h _ (.inr ⟨u, htriples _ hu, ht⟩)

theorem addNode (h : g.Legible) {n : Node}
    (hn : NTriples.parseTerm n.toTerm.render = .ok n.toTerm) : (g.addNode (some n)).Legible := by
  rintro t (⟨n', hn', rfl⟩ | ht)
  · rcases mem_nodes_addNode.mp hn' with hn' | heq
    · exact h _ (.inl ⟨n', hn', rfl⟩)
    · obtain rfl := Option.some.inj heq
      exact hn
  · exact h _ (.inr ht)

theorem add (h : g.Legible) {u : Triple}
    (hs : ∀ n, u.subject = some n → NTriples.parseTerm n.toTerm.render = .ok n.toTerm)
    (hp : NTriples.parseTerm (renderIri u.predicate) = .ok (.iri u.predicate))
    (ho : ∀ o, u.object = some o → NTriples.parseTerm o.render = .ok o) : (g.add u).Legible := by
  rintro t (⟨n, hn, rfl⟩ | ⟨v, hv, ht⟩)
  · rcases mem_nodes_add.mp hn with hn | hn | ⟨k, hk, heq⟩
    · exact h _ (.inl ⟨n, hn, rfl⟩)
    · exact hs n hn.symm
    · -- the object of the triple, which is registered if it is a node
      obtain rfl := Option.some.inj heq
      obtain ⟨o, hobj, hnode⟩ := Option.bind_eq_some_iff.mp hk
      exact ho _ (Term.toNode?_eq_some.mp hnode ▸ hobj)
  · rcases mem_triples_add.mp hv with hv | rfl
    · exact h _ (.inr ⟨v, hv, ht⟩)
    · rcases ht with rfl | ht
      · exact hp
      · exact ho t ht

/-- The changes of plain edits keep a graph legible. -/
theorem apply (h : g.Legible) {e : Edit} {c : Change} (he : e.isPlain = true) (hc : e.Makes c) :
    (c.apply g).Legible := by
  cases hc with
  | add hd =>
    have hv := Draft.violation?_of_check hd
    rw [Edit.isPlain, hv] at he
    obtain ⟨hs, hp, ho⟩ := Draft.parseTerm_of_isPlain he hv
    exact h.add hs hp ho
  | remove d => exact h.mono (fun _ hn => hn) fun _ ht => (mem_triples_remove.mp ht).1
  | removeSubject n =>
    exact h.mono (fun _ hn => (mem_nodes_removeNode.mp hn).1)
      fun _ ht => (mem_triples_removeNode.mp ht).1
  | newEntity supply => exact h.addNode supply.parseTerm_drawEntity
  | merge source r => exact absurd he Bool.false_ne_true

end Graph.Legible

/-! ### Repositories -/

/-- Whether a name is in UTF-8, and obeys the rules if a collection is to be saved under it. -/
def Repository.Telling.isPlain : Telling → Bool
  | .delete name => Utf8.isWellFormed name
  | .save name => Utf8.isWellFormed name && isIdentifier name

/-- About a writer that leaves nothing the backing is told nothing. -/
theorem notMem_tellings {w : Writer} (hs : w.staged = []) (hd : w.deleted = []) (t : Telling) :
    t ∉ tellings w := by
  intro ht
  have hmem := mem_tellings.mp ht
  cases t with
  | delete name => exact absurd (hd ▸ hmem) List.not_mem_nil
  | save name => exact absurd (hs ▸ hmem) List.not_mem_nil

/-- The stores are legible, and so is all that the backing will be told about the writers. -/
structure Repository.Legible (s : Repository) : Prop where
  stores : ∀ g ∈ s.stores, g.Legible
  writers : ∀ w ∈ s.writers, ∀ t ∈ tellings w, t.isPlain = true

namespace Repository.Legible

variable {s : Repository}

theorem store (h : s.Legible) (i : Nat) : (s.store i).Legible := by
  rw [Repository.store, List.getD_eq_getElem?_getD]
  cases hi : s.stores[i]? with
  | none => exact .empty true
  | some g => exact h.stores g (List.mem_of_getElem? hi)

theorem find (h : s.Legible) (d : Directory) (name : Iri) :
    ((d.find s.stores name).getD .empty).Legible := by
  rw [Directory.find]
  cases d.lookup name with
  | none => exact .empty true
  | some i => exact h.store i

theorem writer (h : s.Legible) (id : Nat) : ∀ t ∈ tellings (s.writer id), t.isPlain = true := by
  rw [Repository.writer, List.getD_eq_getElem?_getD]
  cases hi : s.writers[id]? with
  | none => exact fun t ht => absurd ht (notMem_tellings rfl rfl t)
  | some w => exact h.writers w (List.mem_of_getElem? hi)

theorem of_eq (h : s.Legible) {s' : Repository} (hs : s'.stores = s.stores)
    (hw : s'.writers = s.writers) : s'.Legible := ⟨hs ▸ h.stores, hw ▸ h.writers⟩

theorem revise (h : s.Legible) (id : Nat) {f : Writer → Writer}
    (hf : ∀ t ∈ tellings (f (s.writer id)), t.isPlain = true) : (s.revise id f).Legible := by
  refine ⟨h.stores, fun w hw => ?_⟩
  rcases List.mem_or_eq_of_mem_set hw with hw | rfl
  · exact h.writers w hw
  · exact hf

theorem deleting (h : s.Legible) (id : Nat) {name : Iri} (hname : Utf8.isWellFormed name = true) :
    (s.revise id (Writer.deleting name)).Legible := by
  refine h.revise id fun t ht => ?_
  have hmem := mem_tellings.mp ht
  cases t with
  | delete name' =>
    rcases mem_insertNew.mp hmem with hmem | rfl
    · exact h.writer id _ (mem_tellings.mpr hmem)
    · exact hname
  | save name' =>
    obtain ⟨p, hp, rfl⟩ := List.mem_map.mp hmem
    exact h.writer id (.save p.1)
      (mem_tellings.mpr (List.mem_map_of_mem (List.mem_of_mem_filter hp)))

theorem opening (h : s.Legible) (id : Nat) {name : Iri}
    (hname : (Telling.save name).isPlain = true) : (s.opening id name).Legible := by
  have hstores : ∀ g ∈ s.stores ++ [s.original (s.writer id) name], g.Legible := by
    intro g hg
    rcases List.mem_append.mp hg with hg | hg
    · exact h.stores g hg
    · obtain rfl := List.mem_singleton.mp hg
      rw [original]
      split
      · exact .empty true
      · exact h.find _ name
  refine ⟨hstores, (h.revise id fun t ht => ?_).writers⟩
  have hmem := mem_tellings.mp ht
  cases t with
  | delete name' => exact h.writer id _ (mem_tellings.mpr (List.mem_of_mem_filter hmem))
  | save name' =>
    obtain ⟨p, hp, rfl⟩ := List.mem_map.mp hmem
    rcases List.mem_cons.mp hp with rfl | hp
    · exact hname
    · exact h.writer id (.save p.1)
        (mem_tellings.mpr (List.mem_map_of_mem (List.mem_of_mem_filter hp)))

theorem publishing (h : s.Legible) (id : Nat) : (s.publishing id).Legible :=
  (h.revise id (f := fun w => { w with phase := .committing }) (h.writer id)).of_eq rfl rfl

theorem concluding (h : s.Legible) (id : Nat) : (s.concluding id).Legible :=
  (h.revise id (f := fun w => { w with phase := .ended, held := [] }) (h.writer id)).of_eq rfl rfl

theorem discarding (h : s.Legible) (id : Nat) : (s.discarding id).Legible :=
  (h.revise id (f := fun w => { w with staged := [], deleted := [] })
    fun t ht => absurd ht (notMem_tellings rfl rfl t)).concluding id

end Repository.Legible

/-! ### Actions -/

/-- The repository is legible. -/
abbrev World.Legible (w : World) : Prop := w.repository.Legible

theorem World.Legible.enduring : Enduring World.Legible where
  host _ _ h := h
  addReader _ h := ⟨h.stores, h.writers⟩
  addWriter patience h := by
    refine ⟨h.stores, fun w hw => ?_⟩
    rcases List.mem_append.mp hw with hw | hw
    · exact h.writers w hw
    · obtain rfl := List.mem_singleton.mp hw
      exact fun t ht => absurd ht (notMem_tellings rfl rfl t)
  putReader _ _ h := ⟨h.stores, h.writers⟩
  patience {w} id f hf h := by
    obtain ⟨-, -, hs, hd, -⟩ := hf (w.repository.writer id)
    refine Repository.Legible.revise h id ?_
    rw [tellings, hs, hd]
    exact h.writer id
  copying writer h := by
    refine ⟨fun g hg => ?_, h.writers⟩
    rcases List.mem_append.mp hg with hg | hg
    · exact h.stores g hg
    · obtain ⟨p, -, rfl⟩ := List.mem_map.mp hg
      exact h.store p.2
  close h := ⟨h.stores, h.writers⟩

/-- Whether a call has passed the check of its name and is not over. -/
def Progress.isUnderWay : Progress → Bool
  | .begun | .ended _ => false
  | _ => true

/-- The name is in UTF-8, and obeys the rules if the call is about to open the collection. -/
structure Visit.Legible (v : Visit) : Prop where
  name : Utf8.isWellFormed v.name = true
  checked : v.deletes = false → v.progress.isUnderWay = true → isIdentifier v.name = true

/-- The backing will be told legible things. -/
def Closing.Legible (c : Closing) : Prop :=
  ∀ rest errors, c.progress = .telling rest errors → ∀ t ∈ rest, t.isPlain = true

namespace Visit.Legible

variable {v : Visit}

theorem ended (h : v.Legible) (a : Outcome (Option WriteHandle)) :
    Visit.Legible { v with progress := .ended a } :=
  ⟨h.name, fun _ hp => absurd hp Bool.false_ne_true⟩

theorem underWay (h : v.Legible) (hp : v.progress.isUnderWay = true) (p : Progress) :
    Visit.Legible { v with progress := p } := ⟨h.name, fun hd _ => h.checked hd hp⟩

end Visit.Legible

namespace World.Legible

theorem reopen (id : Nat) (name : Iri) :
    Ensures World.Legible (reopen id name) fun o => o = none → isIdentifier name = true := by
  refine (Ensures.openWriter id).bind fun w _ => ?_
  cases w.staged.lookup name with
  | some store => exact .pure fun ho => by cases ho
  | none =>
    dsimp only
    cases hv : (Term.iri name).violation? with
    | some v => exact .fail _
    | none => exact .pure fun _ => by simpa [Term.violation?] using hv

theorem take (name : Iri) : Retains World.Legible (take name) := by
  refine .get_bind fun _ => .ite (.pure _) (.bind (.change fun _ hw => ?_) fun _ => .pure _)
  exact hw.of_eq rfl rfl

theorem keep (id : Nat) (name : Iri) : Retains World.Legible (keep id name) := by
  refine .get_bind fun w => ?_
  dsimp only
  cases (w.repository.writer id).phase with
  | working => exact .change fun _ hw => Repository.Legible.revise hw id (hw.writer id)
  | committing => exact .throw _
  | ended => exact .bind (.change fun _ hw => hw.of_eq rfl rfl) fun _ => .fail _

theorem withdraw (id : Nat) (name : Iri) (taken : Bool) :
    Retains World.Legible (withdraw id name taken : Action Progress) := by
  intro w hw
  rcases withdraw_run (α := Progress) w id name taken with hx | ⟨x, hx⟩
  · rw [hx]
    exact hw
  · rw [hx]
    cases taken with
    | true => exact hw.of_eq rfl rfl
    | false => exact hw

theorem stage (id : Nat) {name : Iri} (hname : (Telling.save name).isPlain = true) :
    Retains World.Legible (stage id name) := by
  refine (Retains.openWriter id).bind fun w => ?_
  cases w.staged.lookup name with
  | some store => exact .pure _
  | none =>
    exact .get_bind fun _ => .bind (.change fun _ hw => hw.opening id hname) fun _ => .pure _

theorem unstage (id : Nat) {name : Iri} (hname : Utf8.isWellFormed name = true) :
    Retains World.Legible (unstage id name) :=
  (Retains.openWriter id).bind fun _ => .change fun _ hw => hw.deleting id hname

/-- The next step of a call that locks a collection. -/
theorem visitNext {v : Visit} (hv : v.Legible) (turn : Bool) :
    Ensures World.Legible (v.next turn) fun p => Visit.Legible { v with progress := p } := by
  rw [Visit.next]
  split
  · -- only a name that obeys the rules gets beyond this
    by_cases hd : v.deletes = true
    · rw [if_pos hd]
      exact .pure ⟨hv.name, fun h => absurd (hd.symm.trans h) Bool.false_ne_true.symm⟩
    · rw [if_neg hd]
      refine (reopen v.writer v.name).bind fun o ho => ?_
      cases o with
      | some h => exact .pure (hv.ended _)
      | none => exact .pure ⟨hv.name, fun _ _ => ho rfl⟩
  · rename_i hp
    refine Retains.ensures ?_ (hv.underWay (by rw [hp]; rfl))
    have hholds : Retains World.Legible (holds v.writer v.name) :=
      (Retains.openWriter _).bind fun _ => .pure _
    exact .ite (hholds.bind fun _ => .ite (.pure _) (.pure _)) (.bind (.throw _) fun _ =>
      hholds.bind fun _ => .ite (.pure _) (.pure _))
  · rename_i hp
    refine Retains.ensures ?_ (hv.underWay (by rw [hp]; rfl))
    exact (take v.name).bind fun _ => .ite (.pure _) (.pure _)
  · rename_i hp
    refine Retains.ensures ?_ (hv.underWay (by rw [hp]; rfl))
    exact (take v.name).bind fun _ => .ite (.pure _) (.throw _)
  · rename_i hp
    refine Retains.ensures ?_ (hv.underWay (by rw [hp]; rfl))
    exact (keep v.writer v.name).bind fun _ => .pure _
  · rename_i hp
    by_cases hd : v.deletes = true
    · rw [if_pos hd]
      exact Ensures.bind (unstage v.writer hv.name) fun _ _ => .pure (hv.ended _)
    · rw [if_neg hd]
      have hchecked := hv.checked (Bool.eq_false_iff.mpr hd) (by rw [hp]; rfl)
      have hname : (Telling.save v.name).isPlain = true :=
        Bool.and_eq_true_iff.mpr ⟨hv.name, hchecked⟩
      exact Ensures.bind (stage v.writer hname) fun _ _ => .pure (hv.ended _)
  · exact .throw _

theorem visitGiveWay {v : Visit} (hv : v.Legible) :
    Ensures World.Legible v.giveWay fun p => Visit.Legible { v with progress := p } := by
  rw [Visit.giveWay]
  split
  · rename_i hp
    exact (withdraw v.writer v.name false).ensures (hv.underWay (by rw [hp]; rfl))
  · rename_i hp
    exact (withdraw v.writer v.name true).ensures (hv.underWay (by rw [hp]; rfl))
  · exact .throw _

/-- What is left to tell when a writer has published. -/
theorem publish (id : Nat) :
    Ensures World.Legible (publish id) fun rest => ∀ t ∈ rest, t.isPlain = true := by
  refine (Ensures.openWriter id).bind ?_
  rintro _ ⟨w, hw, rfl⟩
  have hpublish : Retains World.Legible (change (publishing id)) :=
    .change fun _ h => h.publishing id
  have hconclude : Retains World.Legible (change (concluding id)) :=
    .change fun _ h => h.concluding id
  refine .get_bind fun _ _ => .ite (Ensures.bind hconclude fun _ _ => .fail _) ?_
  refine Ensures.bind hpublish fun _ _ => Ensures.bind (Retains.log enduring _) fun _ _ => ?_
  refine .get_bind fun w' _ => .pure ?_
  split
  · exact hw.writer id
  · exact fun t ht => absurd ht List.not_mem_nil

theorem tell (id : Nat) (t : Telling) : Retains World.Legible (tell id t) := by
  intro w hw
  obtain ⟨errors, host, hx, -⟩ := tell_run w id t
  rw [hx]
  exact ⟨hw, trivial⟩

theorem finish (id : Nat) (errors : List Error) : Retains World.Legible (finish id errors) := by
  refine .bind (.change fun _ h => h.concluding id) fun _ => ?_
  cases Error.all errors with
  | some e => exact .fail e
  | none => exact .pure ()

/-- The next step of a call that ends a writer. -/
theorem closingNext {c : Closing} (hc : c.Legible) :
    Ensures World.Legible c.next fun p => Closing.Legible { c with progress := p } := by
  have hquiet : ∀ {p : Ending}, (∀ rest errors, p ≠ .telling rest errors) →
      Closing.Legible { c with progress := p } :=
    fun hp rest errors he => absurd he (hp rest errors)
  rw [Closing.next]
  split
  · have hinterrupt : Retains World.Legible (interrupt c.writer) :=
      .change fun _ h => Repository.Legible.revise h c.writer (h.writer c.writer)
    exact Ensures.bind hinterrupt fun _ _ => .pure (hquiet fun _ _ => Ending.noConfusion)
  · refine .ite ((publish c.writer).bind fun rest hrest => .pure ?_) ?_
    · rintro _ _ ⟨⟩
      exact hrest
    · have hdismiss : Retains World.Legible (dismiss c.writer) :=
        (Retains.openWriter _).bind fun _ => .change fun _ h => h.discarding c.writer
      exact Ensures.bind hdismiss fun _ _ => .pure (hquiet fun _ _ => Ending.noConfusion)
  · rename_i t rest errors hp
    refine Ensures.bind (tell c.writer t) fun more _ => .pure ?_
    rintro _ _ ⟨⟩ t' ht'
    exact hc _ _ hp t' (List.mem_cons_of_mem _ ht')
  · exact Ensures.bind (finish c.writer _) fun _ _ => .pure (hquiet fun _ _ => Ending.noConfusion)
  · exact .throw _

end World.Legible

/-! ### Machines -/

/-- Whether a move lets in nothing but plain text. -/
def Move.isPlain : Move → Bool
  | .ask (.edit _ e) => e.isPlain
  | .visit _ name _ => Utf8.isWellFormed name
  | _ => true

/-- The repository is legible, and so are the calls that are under way. -/
structure Machine.Legible (m : Machine) : Prop where
  world : m.toWorld.Legible
  visits : ∀ v ∈ m.visits, v.Legible
  closings : ∀ c ∈ m.closings, c.Legible

namespace Machine.Legible

variable {m : Machine}

theorem visit (h : m.Legible) (k : Nat) : (m.visit k).Legible := by
  rw [Machine.visit, List.getD_eq_getElem?_getD]
  cases hk : m.visits[k]? with
  | none => exact ⟨rfl, fun _ hp => absurd hp Bool.false_ne_true⟩
  | some v => exact h.visits v (List.mem_of_getElem? hk)

theorem closing (h : m.Legible) (k : Nat) : (m.closing k).Legible := by
  rw [Machine.closing, List.getD_eq_getElem?_getD]
  cases hk : m.closings[k]? with
  | none => exact fun _ _ hp => Ending.noConfusion hp
  | some c => exact h.closings c (List.mem_of_getElem? hk)

theorem answer (h : m.Legible) {r : Request} (hr : (Move.ask r).isPlain = true) :
    (m.answer r).Legible := by
  have hcalls : (m.answer r).visits = m.visits ∧ (m.answer r).closings = m.closings := by
    rw [Machine.answer]
    split <;> exact ⟨rfl, rfl⟩
  have hact : Retains World.Legible r.act := by
    refine .request World.Legible.enduring r fun handle e c he hc => .change fun w hw => ?_
    subst he
    refine ⟨fun g hg => ?_, hw.writers⟩
    rcases List.mem_or_eq_of_mem_set hg with hg | rfl
    · exact hw.stores g hg
    · exact (hw.store handle.store).apply hr hc
  exact ⟨answer_keeps hact h.world, hcalls.1.symm ▸ h.visits, hcalls.2.symm ▸ h.closings⟩

theorem moveVisit (h : m.Legible) {k : Nat} {step : Action Progress}
    (hs : Ensures World.Legible step fun p => Visit.Legible { m.visit k with progress := p }) :
    (m.moveVisit k step).Legible := by
  obtain ⟨hw, hv, hc⟩ := moveVisit_keeps hs (fun _ => (h.visit k).ended _) h.world h.visits
  exact ⟨hw, hv, hc.symm ▸ h.closings⟩

/-- **Every plain move keeps a machine legible.** -/
theorem step (h : m.Legible) {move : Move} (hm : move.isPlain = true) : (m.step move).Legible := by
  cases move with
  | ask r =>
    rw [Machine.step]
    split
    · exact h.answer hm
    · exact h
  | visit writer name deletes =>
    refine ⟨h.world, fun v hv => ?_, h.closings⟩
    rcases List.mem_append.mp hv with hv | hv
    · exact h.visits v hv
    · obtain rfl := List.mem_singleton.mp hv
      exact ⟨hm, fun _ hp => absurd hp Bool.false_ne_true⟩
  | advance k => exact h.moveVisit (World.Legible.visitNext (h.visit k) _)
  | giveWay k => exact h.moveVisit (World.Legible.visitGiveWay (h.visit k))
  | close writer publishes =>
    refine ⟨h.world, h.visits, fun c hc => ?_⟩
    rcases List.mem_append.mp hc with hc | hc
    · exact h.closings c hc
    · obtain rfl := List.mem_singleton.mp hc
      exact fun _ _ hp => Ending.noConfusion hp
  | proceed k =>
    obtain ⟨hw, hc, hv⟩ := proceed_keeps (World.Legible.closingNext (h.closing k))
      (fun _ _ _ hp => Ending.noConfusion hp) h.world h.closings
    exact ⟨hw, hv.symm ▸ h.visits, hc⟩

end Machine.Legible

end TripleStore
