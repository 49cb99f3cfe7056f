import TripleStore.Proofs.Repository.Moves

/-!
# What calls keep

An action keeps a property of the world if the short actions do that it is made of.

* `Ensures`: an action keeps a property, and what comes out of it has another one; `Retains` asks
  nothing of what comes out.  There is one lemma for each way of making actions, and for each action
  that only looks at the repository.
* `Enduring`: a property that survives all that requests do apart from edits, and `Edit.Makes`: the
  changes that an edit may make.
* `Retains.request`: **requests keep an enduring property**, if the changes of their edits do;
  `Machine.moveVisit_keeps` and `Machine.proceed_keeps` carry over what the steps of other calls
  keep.
-/

namespace TripleStore

open Repository

/-- The action keeps `P`, whether it ends well or not; if it does, `Q` holds of what comes out. -/
def Ensures {α : Type} (P : World → Prop) (a : Action α) (Q : α → Prop) : Prop :=
  ∀ w, P w → match a.run w with
    | .ok x w' => P w' ∧ Q x
    | .error _ w' => P w'

/-- The action keeps `P`. -/
def Retains {α : Type} (P : World → Prop) (a : Action α) : Prop := Ensures P a fun _ => True

section

variable {α β : Type} {P : World → Prop} {a b : Action α} {f : α → Action β}

namespace Ensures

variable {Q : α → Prop} {R : β → Prop}

theorem pure {x : α} (hx : Q x) : Ensures P (pure x) Q := fun _ hw => ⟨hw, hx⟩

theorem throw (x : Halt) : Ensures P (throw x : Action α) Q := fun _ hw => hw

theorem fail (e : Error) : Ensures P (fail e : Action α) Q := fun _ hw => hw

theorem bind (ha : Ensures P a Q) (hf : ∀ x, Q x → Ensures P (f x) R) : Ensures P (a >>= f) R := by
  intro w hw
  rw [EStateM.run_bind]
  have h := ha w hw
  cases hr : a.run w with
  | ok x w' =>
    rw [hr] at h
    exact hf x h.2 w' h.1
  | error x w' =>
    rw [hr] at h
    exact h

theorem get_bind {f : World → Action β} (hf : ∀ w, P w → Ensures P (f w) R) :
    Ensures P (do let w ← get; f w) R := fun w hw => hf w hw w hw

theorem ite {p : Prop} [Decidable p] (ha : Ensures P a Q) (hb : Ensures P b Q) :
    Ensures P (if p then a else b) Q := by
  split
  · exact ha
  · exact hb

theorem weaken {Q' : α → Prop} (h : Ensures P a Q) (hQ : ∀ x, Q x → Q' x) : Ensures P a Q' := by
  intro w hw
  have hr := h w hw
  split at hr
  · exact ⟨hr.1, hQ _ hr.2⟩
  · exact hr

/-- A writer that takes calls was seen in a world that has the property. -/
theorem openWriter (id : Nat) :
    Ensures P (openWriter id) fun x => ∃ w, P w ∧ x = w.repository.writer id := by
  refine get_bind fun w hw => ?_
  dsimp only
  cases (w.repository.writer id).phase with
  | working => exact pure ⟨w, hw, rfl⟩
  | committing => exact throw _
  | ended => exact fail _

end Ensures

namespace Retains

theorem pure (x : α) : Retains P (pure x) := Ensures.pure trivial

theorem throw (x : Halt) : Retains P (throw x : Action α) := Ensures.throw x

theorem fail (e : Error) : Retains P (fail e : Action α) := Ensures.fail e

theorem bind (ha : Retains P a) (hf : ∀ x, Retains P (f x)) : Retains P (a >>= f) :=
  Ensures.bind ha fun x _ => hf x

theorem get_bind {f : World → Action β} (hf : ∀ w, Retains P (f w)) :
    Retains P (do let w ← get; f w) := Ensures.get_bind fun w _ => hf w

theorem ite {p : Prop} [Decidable p] (ha : Retains P a) (hb : Retains P b) :
    Retains P (if p then a else b) := Ensures.ite ha hb

theorem ensures {Q : α → Prop} (h : Retains P a) (hQ : ∀ x, Q x) : Ensures P a Q :=
  Ensures.weaken h fun x _ => hQ x

theorem change {g : Repository → Repository}
    (hg : ∀ w, P w → P { w with repository := g w.repository }) : Retains P (change g) :=
  fun w hw => ⟨hg w hw, trivial⟩

/-! ### Looking at the repository -/

theorem heed (p : Patience) : Retains P (heed p) := by
  rw [Repository.heed]
  cases p.exhausted? with
  | some e => exact fail e
  | none => exact pure ()

theorem snapshot : Retains P snapshot := get_bind fun _ => .ite (fail _) (pure _)

theorem openReader (id : Nat) : Retains P (openReader id) :=
  get_bind fun _ => .ite (fail _) (pure _)

theorem openWriter (id : Nat) : Retains P (openWriter id) :=
  (Ensures.openWriter id).weaken fun _ _ => trivial

theorem enter (h : Handle) : Retains P (enter h) := by
  cases h with
  | reading h => exact (openReader h.reader).bind fun _ => pure ()
  | writing h => exact (openWriter h.writer).bind fun _ => pure ()

theorem graphOf (h : Handle) : Retains P (graphOf h) :=
  (enter h).bind fun _ => get_bind fun _ => pure _

theorem inquiry (q : Inquiry) (h : Handle) : Retains P (q.act h) := by
  cases q with
  | subjects => exact ((graphOf h).bind fun _ => pure _).bind fun _ => pure _
  | statementsFor n => exact ((graphOf h).bind fun _ => pure _).bind fun _ => pure _
  | size => exact ((graphOf h).bind fun _ => pure _).bind fun _ => pure _
  | search p => exact ((graphOf h).bind fun _ => pure _).bind fun _ => pure _

end Retains

end

/-! ### Requests -/

/-- A property that survives all that requests do to the world apart from edits. -/
structure Enduring (P : World → Prop) : Prop where
  host : ∀ {w : World} supply journal, P w → P { w with host := { w.host with supply, journal } }
  addReader : ∀ {w : World} r, P w → P { w with repository := w.repository.addReader r }
  addWriter : ∀ {w : World} patience,
    P w → P { w with repository := w.repository.addWriter { patience } }
  putReader : ∀ {w : World} id r, P w → P { w with repository := w.repository.putReader id r }
  patience : ∀ {w : World} id {f}, Mild f → P w →
    P { w with repository := w.repository.revise id f }
  copying : ∀ {w : World} writer, P w → P { w with repository := w.repository.copying writer }
  close : ∀ {w : World}, P w → P ⟨{ w.repository with closed := true },
    { w.host with backing := w.host.backing.close.2 }⟩

/-- The changes that an edit may make. -/
inductive Edit.Makes : Edit → Change → Prop
  | add {d : Draft} {s : Statement} (hd : d.check = .ok s) : Makes (.add d) (.add d.triple)
  | remove (d : Draft) : Makes (.remove d) (.remove d.triple)
  | removeSubject (n : Option Node) : Makes (.removeSubject n) (.removeNode n)
  | newEntity (supply : Supply) : Makes .newEntity (.addNode (some (.blank supply.drawEntity.1)))
  | merge (source : Graph) (r : Renaming) : Makes (.merge source) (.embed source r)

/-- A new node gets one of the labels that are drawn for entities. -/
theorem Repository.freshEntity_eq (g : Graph) (fuel : Nat) (supply : Supply) :
    ∃ supply' : Supply, (freshEntity g fuel supply).1 = supply'.drawEntity.1 := by
  induction fuel generalizing supply with
  | zero => exact ⟨supply, rfl⟩
  | succ fuel ih =>
    simp only [freshEntity]
    split
    · exact ih _
    · exact ⟨supply, rfl⟩

section

variable {α : Type} {P : World → Prop}

theorem Ensures.draw {Q : α → Prop} {f : Supply → α × Supply} (hP : Enduring P)
    (hf : ∀ s, Q (f s).1) : Ensures P (draw f) Q := fun _ hw => ⟨hP.host _ _ hw, hf _⟩

namespace Retains

theorem log (hP : Enduring P) (records : List Record) : Retains P (log records) :=
  fun _ hw => ⟨hP.host _ _ hw, trivial⟩

/-- An edit keeps what the changes keep that it may make. -/
theorem edit (hP : Enduring P) {h : WriteHandle} {e : Edit}
    (hmake : ∀ c, e.Makes c → Retains P (make h c)) : Retains P (e.act h) := by
  cases e with
  | add d =>
    refine ((enter (.writing h)).bind fun _ => ?_).bind fun _ => pure _
    cases hd : d.check with
    | ok s => exact hmake _ (.add hd)
    | error v => exact fail _
  | remove d => exact ((enter (.writing h)).bind fun _ => hmake _ (.remove d)).bind fun _ => pure _
  | removeSubject n =>
    exact ((enter (.writing h)).bind fun _ => hmake _ (.removeSubject n)).bind fun _ => pure _
  | newEntity =>
    refine ((graphOf (.writing h)).bind fun g => ?_).bind fun _ => pure _
    have hdraw : Ensures P (draw (freshEntity g (g.nodes.length + 1)))
        fun label => ∃ supply : Supply, label = supply.drawEntity.1 :=
      .draw hP (freshEntity_eq g (g.nodes.length + 1))
    refine hdraw.bind ?_
    rintro _ ⟨supply, rfl⟩
    exact (hmake _ (.newEntity supply)).bind fun _ => pure _
  | merge source =>
    refine ((graphOf (.writing h)).bind fun g => ?_).bind fun _ => pure _
    have hdraw : Retains P (draw (g.drawRenaming source.labelOrder)) :=
      Ensures.draw hP fun _ => trivial
    exact hdraw.bind fun r => (log hP _).bind fun _ =>
      (hmake _ (.merge source r)).bind fun _ => pure _

theorem close (hP : Enduring P) : Retains P close := by
  intro w hw
  have hclosed := hP.close hw
  cases hc : w.repository.closed with
  | true => simpa [Repository.close, hc] using hw
  | false =>
    cases ha : w.host.backing.close.1 with
    | ok u => simpa [Repository.close, hc, ha] using hclosed
    | error x => simpa [Repository.close, hc, ha] using hclosed

/-- **A request keeps an enduring property** if the changes do that it may make. -/
theorem request (hP : Enduring P) (r : Request)
    (hmake : ∀ h e c, r = .edit h e → e.Makes c → Retains P (make h c)) : Retains P r.act := by
  cases r with
  | read p =>
    exact ((heed p).bind fun _ => snapshot.bind fun _ => get_bind fun _ =>
      (change fun _ => hP.addReader _).bind fun _ => pure _).bind fun _ => pure _
  | write p =>
    exact ((heed p).bind fun _ => snapshot.bind fun _ => get_bind fun _ =>
      (change fun _ => hP.addWriter p).bind fun _ => pure _).bind fun _ => pure _
  | close => exact (close hP).bind fun _ => pure _
  | giveUp id => exact (change fun _ => hP.patience id (mild_abandoned _ _)).bind fun _ => pure _
  | runOut id => exact (change fun _ => hP.patience id mild_timedOut).bind fun _ => pure _
  | readerCollections id => exact ((openReader id).bind fun _ => pure _).bind fun _ => pure _
  | readerCollection id name =>
    refine ((openReader id).bind fun d => ?_).bind fun _ => pure _
    cases d.directory.lookup name with
    | some i => exact pure _
    | none => exact fail _
  | readerMatch id p => exact ((openReader id).bind fun _ => pure _).bind fun _ => pure _
  | cancelReader id =>
    exact ((openReader id).bind fun _ => change fun _ => hP.putReader id _).bind fun _ => pure _
  | writerCollections id =>
    exact ((openWriter id).bind fun _ => (snapshot.bind fun _ => pure _).bind fun _ => pure _).bind
      fun _ => pure _
  | writerMatch id p =>
    exact ((openWriter id).bind fun w => snapshot.bind fun _ => get_bind fun _ =>
      (change fun _ => hP.copying w).bind fun _ => pure _).bind fun _ => pure _
  | inquire h q => exact inquiry q h
  | edit h e => exact edit hP fun c => hmake h e c rfl
  | drain s => exact get_bind fun _ => pure _

end Retains

end

namespace Machine

variable {P : World → Prop} {m : Machine} {k : Nat}

theorem answer_keeps {r : Request} (h : Retains P r.act) (hm : P m.toWorld) :
    P (m.answer r).toWorld := by
  have hr := h m.toWorld hm
  rw [answer]
  split
  · rename_i he
    rw [he] at hr
    exact hr.1
  · rename_i he
    rw [he] at hr
    exact hr
  · exact hm

/-! ### Calls in several steps -/

theorem reached_eq (m : Machine) (k : Nat) (p : Progress) :
    (m.reached k p).toWorld = m.toWorld ∧ (m.reached k p).closings = m.closings ∧
      (m.reached k p).visits = m.visits.set k { m.visit k with progress := p } := by
  unfold reached
  split <;> exact ⟨rfl, rfl, rfl⟩

theorem settled_eq (m : Machine) (k : Nat) (p : Ending) :
    (m.settled k p).toWorld = m.toWorld ∧ (m.settled k p).visits = m.visits ∧
      (m.settled k p).closings = m.closings.set k { m.closing k with progress := p } := by
  unfold settled
  dsimp only
  split <;> exact ⟨rfl, rfl, rfl⟩

/-- A step of a call that locks a collection keeps a property of the world and one of such calls. -/
theorem moveVisit_keeps {V : Visit → Prop} {step : Action Progress}
    (h : Ensures P step fun p => V { m.visit k with progress := p })
    (hfail : ∀ x, V { m.visit k with progress := .ended (.error x) }) (hm : P m.toWorld)
    (hv : ∀ v ∈ m.visits, V v) :
    P (m.moveVisit k step).toWorld ∧ (∀ v ∈ (m.moveVisit k step).visits, V v) ∧
      (m.moveVisit k step).closings = m.closings := by
  have hreached : ∀ {w p}, P w → V { m.visit k with progress := p } →
      let m' := { m with toWorld := w }.reached k p
      P m'.toWorld ∧ (∀ v ∈ m'.visits, V v) ∧ m'.closings = m.closings := by
    intro w p hw hp
    obtain ⟨hworld, hclosings, hvisits⟩ := reached_eq { m with toWorld := w } k p
    refine ⟨hworld ▸ hw, fun v hmem => ?_, hclosings⟩
    rw [hvisits] at hmem
    rcases List.mem_or_eq_of_mem_set hmem with hmem | rfl
    · exact hv v hmem
    · exact hp
  have hr := h m.toWorld hm
  rw [moveVisit]
  split
  · rename_i he
    rw [he] at hr
    exact hreached hr.1 hr.2
  · rename_i he
    rw [he] at hr
    exact hreached hr (hfail _)
  · exact ⟨hm, hv, rfl⟩

/-- A step of a call that ends a writer keeps a property of the world and one of such calls. -/
theorem proceed_keeps {C : Closing → Prop}
    (h : Ensures P (m.closing k).next fun p => C { m.closing k with progress := p })
    (hfail : ∀ x, C { m.closing k with progress := .ended (.error x) }) (hm : P m.toWorld)
    (hc : ∀ c ∈ m.closings, C c) :
    P (m.proceed k).toWorld ∧ (∀ c ∈ (m.proceed k).closings, C c) ∧
      (m.proceed k).visits = m.visits := by
  have hsettled : ∀ {w p}, P w → C { m.closing k with progress := p } →
      let m' := { m with toWorld := w }.settled k p
      P m'.toWorld ∧ (∀ c ∈ m'.closings, C c) ∧ m'.visits = m.visits := by
    intro w p hw hp
    obtain ⟨hworld, hvisits, hclosings⟩ := settled_eq { m with toWorld := w } k p
    refine ⟨hworld ▸ hw, fun c hmem => ?_, hvisits⟩
    rw [hclosings] at hmem
    rcases List.mem_or_eq_of_mem_set hmem with hmem | rfl
    · exact hc c hmem
    · exact hp
  have hr := h m.toWorld hm
  rw [proceed]
  split
  · rename_i he
    rw [he] at hr
    exact hsettled hr.1 hr.2
  · rename_i he
    rw [he] at hr
    exact hsettled hr (hfail _)
  · exact ⟨hm, hc, rfl⟩

end Machine

end TripleStore
