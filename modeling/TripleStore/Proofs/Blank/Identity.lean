import TripleStore.Proofs.Parse.Shift

/-!
# Who gets the same label

Labels are given out by four kinds of calls, from one supply and any number of scopes.  The labels
themselves are all there is to tell the nodes apart: a label of a document may look like one that was
given out, and the two counters know nothing of each other.

* `Registry.answer`, `Registry.answers`: what a call gives out, and what calls give out one after the
  other.
* `Registry.Accounts`: what has been given out so far, and where the counters stand; **every call
  keeps it** (`Registry.Accounts.answer`).
* `Registry.same_label_iff`: **two calls give out the same label only if they resolve the same label in
  the same scope**, and then they do.
-/

namespace TripleStore

/-- A call that gives out a label; scopes go by numbers. -/
inductive Naming
  /-- The node of a label of a document. -/
  | resolve (scope : ℕ) (label : Text)
  /-- A node without a label, asked of a scope. -/
  | anonymousIn (scope : ℕ)
  | anonymous
  | fresh (label : Text)
  deriving DecidableEq, Repr

/-- The supply that all labels come from, and the scopes. -/
structure Registry where
  supply : Supply
  scopes : ℕ → Scope := fun _ => {}

namespace Registry

/-- What a call gives out. -/
def answer (s : Registry) : Naming → Text × Registry
  | .resolve k label =>
    let (node, scope, supply) := (s.scopes k).resolve s.supply label
    (node, { supply, scopes := Function.update s.scopes k scope })
  | .anonymousIn _ | .anonymous =>
    let (node, supply) := s.supply.drawAnonymous
    (node, { s with supply })
  | .fresh label =>
    let (node, supply) := s.supply.drawLabel label
    (node, { s with supply })

/-- What calls give out, one after the other. -/
def answers (s : Registry) : List Naming → List Text
  | [] => []
  | c :: rest => (s.answer c).1 :: (s.answer c).2.answers rest

theorem length_answers (s : Registry) (calls : List Naming) :
    (s.answers calls).length = calls.length := by
  induction calls generalizing s with
  | nil => rfl
  | cons c rest ih => rw [answers, List.length_cons, ih, List.length_cons]

end Registry

/-! ### Counters that have gone on -/

/-- A number that a counter has come to on its way from `low` to `high`, modulo 2⁶⁴. -/
def Passed (low high n : UInt64) : Prop := (n - low).toNat ≤ (high - low).toNat

/-- A counter that has not come round is one further behind its start with every draw. -/
theorem toNat_succ_sub {low high : UInt64} (h : (high - low).toNat + 1 < 2 ^ 64) :
    (high + 1 - low).toNat = (high - low).toNat + 1 := by
  have hsucc : high + 1 - low = high - low + 1 := by grind
  rw [hsucc, UInt64.toNat_add]
  exact Nat.mod_eq_of_lt h

/-- The next number is none of those that the counter has come to. -/
theorem Passed.ne_succ {low high n : UInt64} (hn : Passed low high n)
    (h : (high - low).toNat + 1 < 2 ^ 64) : n ≠ high + 1 := by
  rintro rfl
  rw [Passed, toNat_succ_sub h] at hn
  omega

theorem Passed.succ {low high n : UInt64} (hn : Passed low high n)
    (h : (high - low).toNat + 1 < 2 ^ 64) : Passed low (high + 1) n := by
  rw [Passed, toNat_succ_sub h]
  exact Nat.le_succ_of_le hn

/-! ### Labels that were drawn -/

namespace Supply

variable {low high high' : Supply} {base t : Text}

/-- A label that was drawn while the counters went from `low` to `high`. -/
def Drawn (low high : Supply) (t : Text) : Prop :=
  (∃ base n, Passed low.labels high.labels n ∧ t = numbered base n.toNat) ∨
    ∃ n, Passed low.anonymous high.anonymous n ∧ t = anonymousLabel n

/-- A draw that takes the counters from `high` to `high'`: the label is one that was not drawn
before, and the counters go on by one at most. -/
structure Gives (low high high' : Supply) (t : Text) : Prop where
  new : ¬ Drawn low high t
  drawn : Drawn low high' t
  mono : ∀ u, Drawn low high u → Drawn low high' u
  labels : (high'.labels - low.labels).toNat ≤ (high.labels - low.labels).toNat + 1
  anonymous : (high'.anonymous - low.anonymous).toNat ≤ (high.anonymous - low.anonymous).toNat + 1

theorem gives_drawLabel (h : (high.labels - low.labels).toNat + 1 < 2 ^ 64) (base : Text) :
    Gives low high (high.drawLabel base).2 (high.drawLabel base).1 := by
  rw [drawLabel_eq]
  refine ⟨?_, ?_, ?_, (toNat_succ_sub h).le, Nat.le_succ _⟩
  · intro hdrawn
    rcases hdrawn with ⟨base', n, hn, heq⟩ | ⟨n, -, heq⟩
    · exact hn.ne_succ h (UInt64.toNat_inj.mp (numbered_inj.mp heq).2.symm)
    · exact numbered_ne_anonymousLabel _ _ _ heq
  · exact .inl ⟨base, high.labels + 1, le_rfl, rfl⟩
  · intro u hu
    exact hu.imp_left fun ⟨base', n, hn, heq⟩ => ⟨base', n, hn.succ h, heq⟩

theorem gives_drawAnonymous (h : (high.anonymous - low.anonymous).toNat + 1 < 2 ^ 64) :
    Gives low high high.drawAnonymous.2 high.drawAnonymous.1 := by
  rw [drawAnonymous_eq]
  refine ⟨?_, ?_, ?_, Nat.le_succ _, (toNat_succ_sub h).le⟩
  · intro hdrawn
    rcases hdrawn with ⟨base, n, -, heq⟩ | ⟨n, hn, heq⟩
    · exact numbered_ne_anonymousLabel _ _ _ heq.symm
    · exact hn.ne_succ h (anonymousLabel_injective heq.symm)
  · exact .inr ⟨high.anonymous + 1, le_rfl, rfl⟩
  · intro u hu
    exact hu.imp_right fun ⟨n, hn, heq⟩ => ⟨n, hn.succ h, heq⟩

end Supply

/-! ### Calls one after the other -/

/-- A scope with one label more. -/
theorem Scope.find?_added {scope : Scope} {label node label' node' : Text}
    (h : scope.find? label = none) :
    (⟨(label, node) :: scope.known⟩ : Scope).find? label' = some node' ↔
      scope.find? label' = some node' ∨ label = label' ∧ node' = node := by
  show List.lookup label' ((label, node) :: scope.known) = some node' ↔ _
  rw [List.lookup_cons]
  by_cases hlabel : label = label'
  · subst hlabel
    rw [beq_self_eq_true, h]
    simp [eq_comm]
  · rw [beq_false_of_ne (Ne.symm hlabel)]
    simp [hlabel, find?]

namespace Registry

variable {low : Supply} {past : List (Naming × Text)} {s s' : Registry} {c : Naming} {t : Text}

/-- A label that its scope knows. -/
theorem answer_known {k : ℕ} {label node : Text} (h : (s.scopes k).find? label = some node) :
    s.answer (.resolve k label) = (node, s) := by
  simp [answer, Scope.resolve, h]

/-- A label that its scope does not know. -/
theorem answer_unknown {k : ℕ} {label : Text} (h : (s.scopes k).find? label = none) :
    s.answer (.resolve k label) = ((s.supply.drawLabel label).1,
      ⟨(s.supply.drawLabel label).2, Function.update s.scopes k
        ⟨(label, (s.supply.drawLabel label).1) :: (s.scopes k).known⟩⟩) := by
  rw [answer, Scope.resolve, h]

/-- Whether two calls resolve the same label in the same scope. -/
def SameLabel (c d : Naming) : Prop :=
  ∃ scope label, c = .resolve scope label ∧ d = .resolve scope label

/-- Of two calls with what they gave out: the labels are equal only where they have to be. -/
def Told (a b : Naming × Text) : Prop := a.2 = b.2 ↔ SameLabel a.1 b.1

instance : Std.Symm Told where
  symm a b h := by
    rw [Told, eq_comm, show a.2 = b.2 ↔ SameLabel a.1 b.1 from h]
    exact ⟨fun ⟨k, l, ha, hb⟩ => ⟨k, l, hb, ha⟩, fun ⟨k, l, hb, ha⟩ => ⟨k, l, ha, hb⟩⟩

/-- What was given out since the counters stood at `low`, call by call: the scopes know what was
resolved, the counters have not come round, and equal labels are accounted for. -/
structure Accounts (low : Supply) (past : List (Naming × Text)) (s : Registry) : Prop where
  known : ∀ k label node,
    (s.scopes k).find? label = some node ↔ (.resolve k label, node) ∈ past
  labels : (s.supply.labels - low.labels).toNat ≤ past.length
  anonymous : (s.supply.anonymous - low.anonymous).toNat ≤ past.length
  drawn : ∀ e ∈ past, low.Drawn s.supply e.2
  told : past.Pairwise Told

namespace Accounts

theorem start (supply : Supply) : Accounts supply [] { supply } where
  known := fun k label node => by simp [Scope.find?]
  labels := by simp
  anonymous := by simp
  drawn := fun _ h => absurd h List.not_mem_nil
  told := .nil

/-- A label that its scope knows is given out again. -/
theorem again (h : Accounts low past s) {k : ℕ} {label : Text}
    (hknown : (s.scopes k).find? label = some t) :
    Accounts low (past ++ [(.resolve k label, t)]) s := by
  have hmem := (h.known k label t).mp hknown
  refine ⟨?_, ?_, ?_, ?_, ?_⟩
  · intro k' label' node
    rw [h.known, List.mem_append, List.mem_singleton]
    exact (or_iff_left_of_imp fun heq => heq ▸ hmem).symm
  · rw [List.length_append]
    exact Nat.le_add_right_of_le h.labels
  · rw [List.length_append]
    exact Nat.le_add_right_of_le h.anonymous
  · intro e he
    rcases List.mem_append.mp he with he | he
    · exact h.drawn e he
    · rw [List.mem_singleton.mp he]
      exact h.drawn _ hmem
  · refine List.pairwise_append.mpr ⟨h.told, List.pairwise_singleton _ _, fun a ha b hb => ?_⟩
    rw [List.mem_singleton.mp hb, Told]
    constructor
    · intro heq
      by_cases hsame : a = (.resolve k label, t)
      · rw [hsame]
        exact ⟨k, label, rfl, rfl⟩
      · exact (h.told.forall ha hmem hsame).mp heq
    · intro hsame
      obtain ⟨k', label', hcall, heq⟩ := hsame
      cases heq
      have hnode := (h.known k label a.2).mpr (hcall ▸ ha)
      rw [hknown] at hnode
      exact (Option.some.inj hnode).symm

/-- A label is drawn for a call whose scope, if it asks one, does not know its label. -/
theorem draw (h : Accounts low past s) (hgives : low.Gives s.supply s'.supply t)
    (hnew : ∀ e ∈ past, ¬ SameLabel e.1 c)
    (hknown : ∀ k label node, (s'.scopes k).find? label = some node ↔
      (s.scopes k).find? label = some node ∨ c = .resolve k label ∧ node = t) :
    Accounts low (past ++ [(c, t)]) s' := by
  refine ⟨?_, ?_, ?_, ?_, ?_⟩
  · intro k label node
    rw [hknown, h.known, List.mem_append, List.mem_singleton, Prod.mk.injEq, eq_comm (a := c)]
  · rw [List.length_append]
    exact hgives.labels.trans (Nat.add_le_add_right h.labels 1)
  · rw [List.length_append]
    exact hgives.anonymous.trans (Nat.add_le_add_right h.anonymous 1)
  · intro e he
    rcases List.mem_append.mp he with he | he
    · exact hgives.mono _ (h.drawn e he)
    · rw [List.mem_singleton.mp he]
      exact hgives.drawn
  · refine List.pairwise_append.mpr ⟨h.told, List.pairwise_singleton _ _, fun a ha b hb => ?_⟩
    rw [List.mem_singleton.mp hb]
    refine iff_of_false (fun heq => hgives.new ?_) (hnew a ha)
    rw [← show a.2 = t from heq]
    exact h.drawn a ha

/-- A label is drawn for a call that asks no scope for a label. -/
theorem drawPlain (h : Accounts low past s) {supply : Supply} (hgives : low.Gives s.supply supply t)
    (hc : ∀ k label, c ≠ .resolve k label) :
    Accounts low (past ++ [(c, t)]) { s with supply } := by
  refine h.draw hgives ?_ fun k label node => ?_
  · intro e _ hsame
    obtain ⟨k, label, -, heq⟩ := hsame
    exact hc k label heq
  · exact (or_iff_left fun heq => hc k label heq.1).symm

/-- **Every call keeps the accounts**, as long as no counter can have come round. -/
theorem answer (h : Accounts low past s) (hroom : past.length + 1 < 2 ^ 64) (c : Naming) :
    Accounts low (past ++ [(c, (s.answer c).1)]) (s.answer c).2 := by
  have hlabels : (s.supply.labels - low.labels).toNat + 1 < 2 ^ 64 := by
    have := h.labels
    omega
  have hanonymous : (s.supply.anonymous - low.anonymous).toNat + 1 < 2 ^ 64 := by
    have := h.anonymous
    omega
  cases c with
  | resolve k label =>
    cases hfind : (s.scopes k).find? label with
    | some node =>
      rw [answer_known hfind]
      exact h.again hfind
    | none =>
      rw [answer_unknown hfind]
      refine h.draw (Supply.gives_drawLabel hlabels label) ?_ fun k' label' node => ?_
      · rintro ⟨c, t⟩ he ⟨k', label', rfl, heq⟩
        cases heq
        rw [(h.known k label t).mpr he] at hfind
        cases hfind
      · simp only [Naming.resolve.injEq]
        by_cases hk : k = k'
        · subst hk
          rw [Function.update_self, Scope.find?_added hfind, and_iff_right rfl]
        · rw [Function.update_of_ne (Ne.symm hk)]
          simp [hk]
  | anonymousIn k => exact h.drawPlain (Supply.gives_drawAnonymous hanonymous) nofun
  | anonymous => exact h.drawPlain (Supply.gives_drawAnonymous hanonymous) nofun
  | fresh label => exact h.drawPlain (Supply.gives_drawLabel hlabels label) nofun

/-- What is told of the calls so far is told of all, when no counter comes round on the way. -/
theorem told_answers (h : Accounts low past s) {calls : List Naming}
    (hroom : past.length + calls.length < 2 ^ 64) :
    (past ++ calls.zip (s.answers calls)).Pairwise Told := by
  induction calls generalizing past s with
  | nil =>
    rw [List.zip_nil_left, List.append_nil]
    exact h.told
  | cons c rest ih =>
    rw [List.length_cons] at hroom
    have hfirst := h.answer (by omega) c
    have hrest := ih hfirst (by rw [List.length_append, List.length_singleton]; omega)
    rw [List.append_assoc] at hrest
    exact hrest

end Accounts

/-- Every call gives out a label, and **two calls give out the same one if and only if they resolve
the same label in the same scope**, whatever labels the document has and wherever the counters stand,
as long as there are fewer calls than numbers.  So a label that a scope has not met yet never leads to
a node that was given out before, whatever the label looks like. -/
theorem same_label_iff (supply : Supply) {calls : List Naming} (h : calls.length < 2 ^ 64) :
    (answers { supply } calls).length = calls.length ∧
    (∀ i j, i < j → j < calls.length →
      ((answers { supply } calls)[i]? = (answers { supply } calls)[j]? ↔
        ∃ scope label, calls[i]? = some (.resolve scope label) ∧
          calls[j]? = some (.resolve scope label))) ∧
    (∀ j scope label, calls[j]? = some (.resolve scope label) →
      .resolve scope label ∉ calls.take j →
        ∀ i < j, (answers { supply } calls)[i]? ≠ (answers { supply } calls)[j]?) := by
  have hlength := length_answers { supply } calls
  have htold : (calls.zip (answers { supply } calls)).Pairwise Told :=
    (Accounts.start supply).told_answers (by simpa using h)
  have hpair : ∀ i j, i < j → j < calls.length →
      ((answers { supply } calls)[i]? = (answers { supply } calls)[j]? ↔
        ∃ scope label, calls[i]? = some (.resolve scope label) ∧
          calls[j]? = some (.resolve scope label)) := by
    intro i j hij hj
    have hentry := List.pairwise_iff_getElem.mp htold i j (by simp; omega) (by simp; omega) hij
    simp only [List.getElem_zip, Told, SameLabel] at hentry
    rw [List.getElem?_eq_getElem (by omega), List.getElem?_eq_getElem (by omega), Option.some.injEq,
      hentry, List.getElem?_eq_getElem (by omega), List.getElem?_eq_getElem hj]
    simp only [Option.some.injEq]
  refine ⟨hlength, hpair, fun j scope label hcall hnew i hij heq => hnew ?_⟩
  have hj : j < calls.length := (List.getElem?_eq_some_iff.mp hcall).1
  obtain ⟨scope', label', hi, hj'⟩ := (hpair i j hij hj).mp heq
  rw [hcall] at hj'
  cases hj'
  exact List.mem_iff_getElem?.mpr ⟨i, by rw [List.getElem?_take_of_lt hij, hi]⟩

/-- Labels that look like those that were given out, in two scopes and beside them, from counters
that come round on the way. -/
theorem same_label_iff_lookalikes :
    let start : Registry := { supply := { anonymous := 2, labels := 0xFFFFFFFFFFFFFFFF } }
    let calls : List Naming := [.resolve 0 "x", .anonymousIn 0, .resolve 1 "x_0", .fresh "x",
      .resolve 0 "ANON3", .anonymous, .resolve 1 "x", .resolve 0 "x"]
    calls.length < 2 ^ 64 ∧
      start.answers calls = ["x_0", "ANON3", "x_0_1", "x_2", "ANON3_3", "ANON4", "x_4", "x_0"] ∧
      (start.answers calls)[0]? = (start.answers calls)[7]? ∧
      (start.answers calls)[2]? ≠ (start.answers calls)[0]? ∧
      (∀ i < 4, (start.answers calls)[i]? ≠ (start.answers calls)[4]?) := by
  intro start calls
  have hlength : calls.length < 2 ^ 64 := by decide
  obtain ⟨-, hpair, hnew⟩ := same_label_iff { anonymous := 2, labels := 0xFFFFFFFFFFFFFFFF } hlength
  refine ⟨hlength, by decide +kernel, (hpair 0 7 (by decide) (by decide)).mpr ⟨0, _, rfl, rfl⟩, ?_, ?_⟩
  · exact (hnew 2 1 _ rfl (by decide) 0 (by decide)).symm
  · exact hnew 4 0 _ rfl (by decide)

end Registry

end TripleStore
