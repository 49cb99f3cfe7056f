import TripleStore.Proofs.Archive.Tables

/-!
# Reading what the tables hold

A transaction that only reads and whose calls do not fail stays as it is, so each step of loading
just gives its answer.  The terms that were read once are remembered; what is remembered is what the
dictionary holds.

* `Archive.Still`: such a session.
* `Archive.Trusted`: what may be remembered.
* `Archive.loadCollection_run`: a collection that is held comes back with the same triples and
  nodes.
* `Archive.load_of_holds`: **loading gives exactly the collections that the tables hold.**
-/

namespace TripleStore

namespace Archive

open Table (fullKey)

variable {T : Set Term} {s : Session} {c : Iri → Option Graph} {name : Iri} {g : Graph}
  {known : Known} {α β γ : Type}

/-! ### Steps that only read -/

/-- A transaction that only reads, on a medium none of whose calls is told to fail. -/
structure Still (s : Session) : Prop where
  fault : s.medium.fault = none
  readOnly : s.transaction.writable = false
  going : s.transaction.ended = false
  writes : s.transaction.writes = []

namespace Still

theorem call (h : Still s) (k : Call) : (Archive.call k).run s = .ok () s := by
  have hfails : s.medium.fails k = (false, s.medium) := by rw [Medium.fails, h.fault]
  simp [Archive.call, hfails]

theorem view (h : Still s) : s.transaction.view = s.transaction.snapshot := by
  rw [Transaction.view, h.writes]
  rfl

theorem getKey (h : Still s) {table : Table} {key value : Text}
    (hv : s.transaction.snapshot.lookup (fullKey table.code key) = some value) :
    (Archive.getKey table key).run s = .ok value s := by
  have hget : s.transaction.get (fullKey table.code key) = (.ok value, s.transaction) := by
    simp [Transaction.get, h.going, h.writes, hv, Transaction.noteRead_of_readOnly h.readOnly]
  rw [Archive.getKey, EStateM.run_bind, h.call]
  simp [hget]

/-- A loop over calls. -/
theorem calls (h : Still s) (k : Call) (l : List α) :
    (forIn l (⟨⟩ : PUnit) (fun _ _ => do Archive.call k; pure (.yield ⟨⟩)) : Work PUnit).run s
      = .ok ⟨⟩ s := by
  induction l with
  | nil => rfl
  | cons a l ih =>
    rw [List.forIn_cons, bind_assoc, EStateM.run_bind, h.call]
    exact ih

theorem scanKeys (h : Still s) (table : Table) (start : Text) :
    (Archive.scanKeys table start).run s = .ok (found s.transaction.snapshot table start) s := by
  have hscan : s.transaction.scan (fullKey table.code start) 0
      = (.ok (s.transaction.snapshot.startingWith (fullKey table.code start)), s.transaction) := by
    simp only [Transaction.scan, h.going, Bool.false_eq_true, if_false, if_true, h.view,
      Transaction.noteRead_of_readOnly h.readOnly, Transaction.noteReads_of_readOnly h.readOnly]
  rw [Archive.scanKeys, EStateM.run_bind, h.call]
  simp only [EStateM.run_bind, EStateM.run_get, hscan, EStateM.run_set, h.calls]
  rfl

end Still

/-- A loop all of whose steps give an answer; the invariant may look at what is still to be done. -/
theorem foldlM_run {f : β → α → Work β} {l : List α} (I : List α → β → Prop)
    (hstep : ∀ a ∈ l, ∀ rest b, I (a :: rest) b → ∃ b', (f b a).run s = .ok b' s ∧ I rest b')
    {b : β} (hb : I l b) : ∃ b', (l.foldlM f b).run s = .ok b' s ∧ I [] b' := by
  induction l generalizing b with
  | nil => exact ⟨b, rfl, hb⟩
  | cons a l ih =>
    obtain ⟨b₁, hrun, hb₁⟩ := hstep a List.mem_cons_self l b hb
    obtain ⟨b₂, hrun₂, hb₂⟩ := ih (fun x hx => hstep x (List.mem_cons_of_mem _ hx)) hb₁
    refine ⟨b₂, ?_, hb₂⟩
    rw [List.foldlM_cons, EStateM.run_bind, hrun]
    exact hrun₂

/-- Such a loop with something after it. -/
theorem foldlM_bind_run {f : β → α → Work β} {k : β → Work γ} {l : List α} {Q : γ → Prop}
    (I : List α → β → Prop)
    (hstep : ∀ a ∈ l, ∀ rest b, I (a :: rest) b → ∃ b', (f b a).run s = .ok b' s ∧ I rest b')
    {b : β} (hb : I l b) (hk : ∀ b, I [] b → ∃ c, (k b).run s = .ok c s ∧ Q c) :
    ∃ c, (l.foldlM f b >>= k).run s = .ok c s ∧ Q c := by
  obtain ⟨b', hrun, hb'⟩ := foldlM_run I hstep hb
  rw [EStateM.run_bind, hrun]
  exact hk b' hb'

/-! ### Terms -/

/-- The terms of the collections of a map. -/
def heldTerms (c : Iri → Option Graph) : Set Term :=
  {t | ∃ name g, c name = some g ∧ t ∈ termsOf name g}

/-- What is remembered are held terms under their own keys. -/
def Trusted (c : Iri → Option Graph) (known : Known) : Prop :=
  ∀ p ∈ known, p.2 ∈ heldTerms c ∧ p.1 = .ofTerm p.2

theorem lookup_run (hs : Still s) (h : Holds T s.transaction.snapshot c)
    (hT : Set.InjOn TermKey.ofTerm T) (hknown : Trusted c known) {t : Term} (ht : t ∈ heldTerms c) :
    ∃ known', (lookup (.ofTerm t) known).run s = .ok (t, known') s ∧ Trusted c known' := by
  have hmem : ∀ u ∈ heldTerms c, u ∈ T := by
    rintro u ⟨name, g, hg, hu⟩
    exact (h.terms hg u hu).1
  rw [lookup]
  cases hl : known.lookup (.ofTerm t) with
  | some u =>
    obtain ⟨before, after, rfl, -⟩ := List.lookup_eq_some_iff.mp hl
    obtain ⟨hu, hk⟩ := hknown (.ofTerm t, u) (by simp)
    obtain rfl : t = u := hT (hmem t ht) (hmem u hu) hk
    exact ⟨_, rfl, hknown⟩
  | none =>
    obtain ⟨name, g, hg, htg⟩ := ht
    obtain ⟨-, hread, hentry⟩ := h.terms hg t htg
    have hget : Archive.getKey .terms (TermKey.ofTerm t).bytes s = .ok t.render s :=
      hs.getKey (Named.lookup_of_mem h.proper hentry)
    refine ⟨(.ofTerm t, t) :: known, ?_, ?_⟩
    · refine run_bind_eq_ok.mpr ⟨t.render, s, ?_, by rw [decodeTerm_ofTerm hread]; rfl⟩
      simp only [EStateM.run, hget]
    · intro p hp
      obtain rfl | hp := List.mem_cons.mp hp
      · exact ⟨⟨name, g, hg, htg⟩, rfl⟩
      · exact hknown p hp

/-! ### Collections -/

theorem mem_keys_found {e : Entries} {table : Table} {start key : Text} :
    key ∈ (found e table start).map Prod.fst ↔ key ∈ rows e table ∧ start <+: key := by
  rw [found, List.map_map, List.mem_map]
  constructor
  · rintro ⟨⟨k, value⟩, hp, rfl⟩
    obtain ⟨hp, rest, hrest⟩ := Entries.mem_startingWith.mp hp
    obtain rfl : table.code :: (start ++ rest) = k := hrest
    exact ⟨⟨value, hp⟩, List.prefix_append _ _⟩
  · rintro ⟨⟨value, hp⟩, ⟨rest, rfl⟩⟩
    exact ⟨_, Entries.mem_startingWith.mpr ⟨hp, ⟨rest, rfl⟩⟩, rfl⟩

namespace Holds

variable {e : Entries}

/-- The rows that are found for a collection are those that belong to it. -/
theorem mem_keys_found (h : Holds T e c) (hT : Set.InjOn TermKey.ofTerm T) (hg : c name = some g)
    {table : Table} (ht : table ∈ [Table.statements, Table.subjects]) {key : Text} :
    key ∈ (found e table (TermKey.ofTerm (.iri name)).bytes).map Prod.fst ↔
      key ∈ keptRows name g table := by
  have hname : Sole c name := h.sole hT (h.terms hg _ (.inl rfl)).1
  rw [Archive.mem_keys_found, h.rows_of hname ht, hg]
  simp

theorem mem_of_node (h : Holds T e c) (hg : c name = some g) {n : Node} (hn : some n ∈ g.nodes) :
    n.toTerm ∈ T := (h.terms hg _ (.inr (.inl ⟨n, hn, rfl⟩))).1

/-- The rows of different nodes differ. -/
theorem node_eq (h : Holds T e c) (hT : Set.InjOn TermKey.ofTerm T) (hg : c name = some g)
    {n n' : Node} (hn : some n ∈ g.nodes) (hn' : some n' ∈ g.nodes)
    (hkey : TermKey.ofTerm n.toTerm = .ofTerm n'.toTerm) : n = n' :=
  Node.toTerm_injective (hT (h.mem_of_node hg hn) (h.mem_of_node hg hn') hkey)

/-- The rows of different statements differ. -/
theorem statement_eq (h : Holds T e c) (hT : Set.InjOn TermKey.ofTerm T) (hg : c name = some g)
    {n n' : Node} {p p' : Iri} {o o' : Term} (ht : ⟨some n, p, some o⟩ ∈ g.triples)
    (ht' : ⟨some n', p', some o'⟩ ∈ g.triples)
    (hkey : statementKey (.ofTerm (.iri name)) (.ofTerm n.toTerm) (.ofTerm (.iri p)) (.ofTerm o)
      = statementKey (.ofTerm (.iri name)) (.ofTerm n'.toTerm) (.ofTerm (.iri p')) (.ofTerm o')) :
    n = n' ∧ p = p' ∧ o = o' := by
  have hpredicate : ∀ {t}, t ∈ g.triples → Term.iri t.predicate ∈ T := fun ht =>
    (h.terms hg _ (.inr (.inr ⟨_, ht, .inl rfl⟩))).1
  have hobject : ∀ {t o}, t ∈ g.triples → t.object = some o → o ∈ T := fun ht ho =>
    (h.terms hg _ (.inr (.inr ⟨_, ht, .inr ho⟩))).1
  have hsubject : ∀ {t}, t ∈ g.triples → t.subject ∈ g.nodes := (h.storable hg).registered.subject
  have hkeys := joinKeys_injective hkey
  simp only [List.cons.injEq, and_true, true_and] at hkeys
  obtain ⟨hn, hp, ho⟩ := hkeys
  exact ⟨h.node_eq hT hg (hsubject ht) (hsubject ht') hn,
    Term.iri.inj (hT (hpredicate ht) (hpredicate ht') hp),
    hT (hobject ht rfl) (hobject ht' rfl) ho⟩

end Holds

section Collection

variable (hs : Still s) (h : Holds T s.transaction.snapshot c) (hT : Set.InjOn TermKey.ofTerm T)
  (hg : c name = some g)

include hs h hT hg

theorem loadSubject_run (acc : Graph) (hknown : Trusted c known) {n : Node}
    (hn : some n ∈ g.nodes) :
    ∃ known', (loadSubject (acc, known)
        (joinKeys [.ofTerm (.iri name), .ofTerm n.toTerm])).run s
      = .ok (acc.addNode (some n), known') s ∧ Trusted c known' := by
  have ht : n.toTerm ∈ heldTerms c := ⟨name, g, hg, .inr (.inl ⟨n, hn, rfl⟩)⟩
  obtain ⟨known', hrun, hknown'⟩ := lookup_run hs h hT hknown ht
  refine ⟨known', ?_, hknown'⟩
  have hkey : TermKey.ofBytes ((joinKeys [.ofTerm (.iri name), .ofTerm n.toTerm]).drop
      TermKey.width) = .ofTerm n.toTerm := by
    rw [joinKeys_cons, TermKey.width, TermKey.drop_append]
    simp
  rw [loadSubject, hkey, EStateM.run_bind, hrun]
  simp only [Term.toNode?_toTerm]
  rfl

theorem loadStatement_run (acc : Graph) (hknown : Trusted c known) {n : Node} {p : Iri} {o : Term}
    (ht : ⟨some n, p, some o⟩ ∈ g.triples) :
    ∃ known', (loadStatement (acc, known) (statementKey (.ofTerm (.iri name)) (.ofTerm n.toTerm)
        (.ofTerm (.iri p)) (.ofTerm o))).run s
      = .ok (acc.add ⟨some n, p, some o⟩, known') s ∧ Trusted c known' := by
  have hn : n.toTerm ∈ heldTerms c :=
    ⟨name, g, hg, .inr (.inl ⟨n, (h.storable hg).registered.subject ht, rfl⟩)⟩
  have hp : Term.iri p ∈ heldTerms c := ⟨name, g, hg, .inr (.inr ⟨_, ht, .inl rfl⟩)⟩
  have ho : o ∈ heldTerms c := ⟨name, g, hg, .inr (.inr ⟨_, ht, .inr rfl⟩)⟩
  obtain ⟨known₁, hrun₁, hknown₁⟩ := lookup_run hs h hT hknown hn
  obtain ⟨known₂, hrun₂, hknown₂⟩ := lookup_run hs h hT hknown₁ hp
  obtain ⟨known₃, hrun₃, hknown₃⟩ := lookup_run hs h hT hknown₂ ho
  refine ⟨known₃, ?_, hknown₃⟩
  simp only [loadStatement, splitStatementKey_statementKey, EStateM.run_bind, hrun₁, hrun₂, hrun₃,
    Term.toNode?_toTerm]
  rfl

theorem loadSubjects_run (hknown : Trusted c known) :
    ∃ acc, ((found s.transaction.snapshot .subjects (TermKey.ofTerm (.iri name)).bytes).foldlM
        (fun acc p => loadSubject acc p.1) (Graph.empty, known)).run s = .ok acc s ∧
      Trusted c acc.2 ∧ acc.1.triples = [] ∧ ∀ n, n ∈ acc.1.nodes ↔ n ∈ g.nodes := by
  have hrow : ∀ key, key ∈ (found s.transaction.snapshot .subjects
      (TermKey.ofTerm (.iri name)).bytes).map Prod.fst ↔ key ∈ keptRows name g .subjects :=
    fun key => h.mem_keys_found hT hg (by simp)
  -- the rows that are still to be read make up for the nodes that are not there yet
  obtain ⟨acc, hrun, hacc, htriples, hsub, hall⟩ := foldlM_run (s := s)
    (f := fun acc p => loadSubject acc p.1)
    (l := found s.transaction.snapshot .subjects (TermKey.ofTerm (.iri name)).bytes)
    (b := (Graph.empty, known))
    (fun rest acc => Trusted c acc.2 ∧ acc.1.triples = [] ∧ (∀ n ∈ acc.1.nodes, n ∈ g.nodes) ∧
      ∀ n, some n ∈ g.nodes → some n ∈ acc.1.nodes ∨
        joinKeys [.ofTerm (.iri name), .ofTerm n.toTerm] ∈ rest.map Prod.fst)
    (by
      rintro ⟨key, v⟩ hp rest ⟨acc, known⟩ ⟨hknown, htriples, hsub, hall⟩
      obtain ⟨n, hn, rfl⟩ := (hrow key).mp (List.mem_map_of_mem hp)
      obtain ⟨known', hrun, hknown'⟩ := loadSubject_run hs h hT hg acc hknown hn
      refine ⟨_, hrun, hknown', htriples, ?_, ?_⟩
      · intro m hm
        obtain hm | rfl := Graph.mem_nodes_addNode.mp hm
        · exact hsub m hm
        · exact hn
      · intro m hm
        obtain hm' | hm' := hall m hm
        · exact .inl (Graph.mem_nodes_addNode.mpr (.inl hm'))
        obtain hkey | hm' := List.mem_cons.mp hm'
        · have hkeys := joinKeys_injective hkey
          simp only [List.cons.injEq, and_true, true_and] at hkeys
          rw [h.node_eq hT hg hm hn hkeys]
          exact .inl (Graph.mem_nodes_addNode.mpr (.inr rfl))
        · exact .inr hm')
    ⟨hknown, rfl, fun n hn => absurd hn List.not_mem_nil,
      fun n hn => .inr ((hrow _).mpr ⟨n, hn, rfl⟩)⟩
  refine ⟨acc, hrun, hacc, htriples, fun n => ⟨hsub n, fun hn => ?_⟩⟩
  cases n with
  | none => exact absurd hn (h.storable hg).nodes
  | some n => exact (hall n hn).resolve_right List.not_mem_nil

theorem loadStatements_run {acc : Graph} (hknown : Trusted c known) (hacc : acc.triples = [])
    (hnodes : ∀ n, n ∈ acc.nodes ↔ n ∈ g.nodes) :
    ∃ acc', ((found s.transaction.snapshot .statements (TermKey.ofTerm (.iri name)).bytes).foldlM
        (fun acc p => loadStatement acc p.1) (acc, known)).run s = .ok acc' s ∧
      Trusted c acc'.2 ∧ acc'.1.Same g := by
  have hrow : ∀ key, key ∈ (found s.transaction.snapshot .statements
      (TermKey.ofTerm (.iri name)).bytes).map Prod.fst ↔ key ∈ keptRows name g .statements :=
    fun key => h.mem_keys_found hT hg (by simp)
  have hobject := (h.storable hg).objects
  have hregistered := (h.storable hg).registered
  obtain ⟨acc', hrun, hknown', hnodes', hsub, hall⟩ := foldlM_run (s := s)
    (f := fun acc p => loadStatement acc p.1)
    (l := found s.transaction.snapshot .statements (TermKey.ofTerm (.iri name)).bytes)
    (b := (acc, known))
    (fun rest acc => Trusted c acc.2 ∧ (∀ n, n ∈ acc.1.nodes ↔ n ∈ g.nodes) ∧
      (∀ t ∈ acc.1.triples, t ∈ g.triples) ∧
      ∀ n p o, ⟨some n, p, some o⟩ ∈ g.triples → ⟨some n, p, some o⟩ ∈ acc.1.triples ∨
        statementKey (.ofTerm (.iri name)) (.ofTerm n.toTerm) (.ofTerm (.iri p)) (.ofTerm o)
          ∈ rest.map Prod.fst)
    (by
      rintro ⟨key, v⟩ hp rest ⟨acc, known⟩ ⟨hknown, hnodes, hsub, hall⟩
      obtain ⟨n, p, o, ht, rfl⟩ := (hrow key).mp (List.mem_map_of_mem hp)
      obtain ⟨known', hrun, hknown'⟩ := loadStatement_run hs h hT hg acc hknown ht
      refine ⟨_, hrun, hknown', ?_, ?_, ?_⟩
      · -- the nodes of the triple are registered already
        intro m
        rw [Graph.mem_nodes_add, ← hnodes]
        refine or_iff_left_of_imp ?_
        rintro (rfl | ⟨k, hk, rfl⟩)
        · exact (hnodes _).mpr (hregistered.subject ht)
        · exact (hnodes _).mpr (hregistered.object ht hk)
      · intro t ht'
        obtain ht' | rfl := Graph.mem_triples_add.mp ht'
        · exact hsub t ht'
        · exact ht
      · intro n' p' o' ht'
        obtain hm | hm := hall n' p' o' ht'
        · exact .inl (Graph.mem_triples_add.mpr (.inl hm))
        obtain hkey | hm := List.mem_cons.mp hm
        · obtain ⟨rfl, rfl, rfl⟩ := h.statement_eq hT hg ht' ht hkey
          exact .inl (Graph.mem_triples_add.mpr (.inr rfl))
        · exact .inr hm)
    ⟨hknown, hnodes, fun t ht => absurd (hacc ▸ ht) List.not_mem_nil,
      fun n p o ht => .inr ((hrow _).mpr ⟨n, p, o, ht, rfl⟩)⟩
  refine ⟨acc', hrun, hknown', hnodes', fun t => ⟨hsub t, fun ht => ?_⟩⟩
  obtain ⟨n, hn, -⟩ := (h.storable hg).subject ht
  obtain ⟨o, ho⟩ := Option.isSome_iff_exists.mp ((h.storable hg).objects t ht)
  obtain ⟨s, p, o'⟩ := t
  obtain rfl : s = some n := hn
  obtain rfl : o' = some o := ho
  exact (hall n p o ht).resolve_right List.not_mem_nil

theorem loadCollection_run (hknown : Trusted c known) :
    ∃ acc, (loadCollection (TermKey.ofTerm (.iri name)).bytes known).run s = .ok acc s ∧
      Trusted c acc.2 ∧ acc.1.Same g := by
  obtain ⟨⟨acc, known₁⟩, hrun₁, hknown₁, htriples, hnodes⟩ := loadSubjects_run hs h hT hg hknown
  obtain ⟨acc', hrun₂, hknown₂, hsame⟩ := loadStatements_run hs h hT hg hknown₁ htriples hnodes
  refine ⟨acc', ?_, hknown₂, hsame⟩
  rw [loadCollection, EStateM.run_bind, hs.scanKeys]
  simp only [EStateM.run_bind, hrun₁, hs.scanKeys, hrun₂]

end Collection

/-! ### All collections -/

/-- The entries that are found of the names are those of the map. -/
theorem mem_found_names {e : Entries} (h : Holds T e c) {key : Text} :
    (key, name) ∈ found e .collections [] ↔
      (c name).isSome ∧ key = (TermKey.ofTerm (.iri name)).bytes := by
  rw [← h.names, found, List.mem_map]
  constructor
  · rintro ⟨⟨k, value⟩, hp, hk⟩
    obtain ⟨hp, rest, hrest⟩ := Entries.mem_startingWith.mp hp
    obtain rfl : Table.collections.code :: rest = k := hrest
    obtain ⟨rfl, rfl⟩ := Prod.mk.inj hk
    exact hp
  · intro hp
    exact ⟨_, Entries.mem_startingWith.mpr ⟨hp, ⟨_, rfl⟩⟩, rfl⟩

/-- Every collection is the one of the map under its name, and no name is missing but those that
are still to be read. -/
structure Recorded (c : Iri → Option Graph) (rest : Entries)
    (acc : List (Iri × Graph) × Known) : Prop where
  trusted : Trusted c acc.2
  nodup : (acc.1.map Prod.fst).Nodup
  same : ∀ {name g'}, acc.1.lookup name = some g' → ∃ g, c name = some g ∧ g'.Same g
  all : ∀ {name}, (c name).isSome → (acc.1.lookup name).isSome ∨ name ∈ rest.map Prod.snd

theorem Recorded.record {rest : Entries} {acc : List (Iri × Graph) × Known} {key : Text}
    (hr : Recorded c ((key, name) :: rest) acc) (hg : c name = some g) {g' : Graph}
    (hsame : g'.Same g) (hknown : Trusted c known) :
    Recorded c rest (record acc.1 name g', known) := by
  have hput : ∀ other, (Archive.record acc.1 name g').lookup other
      = if other = name then some g' else acc.1.lookup other := fun other =>
    Named.lookup_put acc.1 name other g'
  refine ⟨hknown, ?_, ?_, ?_⟩
  · refine List.nodup_cons.mpr ⟨?_, hr.nodup.sublist (List.filter_sublist.map Prod.fst)⟩
    simp
  · intro other g'' hl
    rw [hput] at hl
    split_ifs at hl with ho
    · obtain rfl := Option.some.inj hl
      exact ⟨g, ho ▸ hg, hsame⟩
    · exact hr.same hl
  · intro other ho
    rw [hput]
    split_ifs with hn
    · exact .inl rfl
    · obtain hl | hl := hr.all ho
      · exact .inl hl
      · exact .inr ((List.mem_cons.mp hl).resolve_left hn)

theorem loadEntries_run (hs : Still s) (h : Holds T s.transaction.snapshot c)
    (hT : Set.InjOn TermKey.ofTerm T) {patience : Patience} (hp : patience.exhausted? = none) :
    ∃ collections, (loadEntries patience (found s.transaction.snapshot .collections [])).run s
        = .ok collections s ∧ (collections.map Prod.fst).Nodup ∧
      ∀ name, Option.Rel Graph.Same (collections.lookup name) (c name) := by
  have hheed : (heed patience).run s = .ok () s := by
    rw [heed, hp]
    rfl
  rw [loadEntries]
  refine foldlM_bind_run (Recorded c) ?_ ?_ ?_
  · rintro ⟨key, name⟩ hp rest ⟨acc, known⟩ hr
    obtain ⟨hsome, rfl⟩ := (mem_found_names h).mp hp
    obtain ⟨g, hg⟩ := Option.isSome_iff_exists.mp hsome
    obtain ⟨⟨g', known'⟩, hrun, hknown', hsame⟩ := loadCollection_run hs h hT hg hr.trusted
    refine ⟨_, ?_, hr.record hg hsame hknown'⟩
    have hdoing : ∀ what, (doing what (loadCollection (TermKey.ofTerm (.iri name)).bytes
        known)).run s = .ok (g', known') s := by
      intro what
      rw [doing_run, hrun]
    simp only [EStateM.run_bind, hheed, hdoing]
    rfl
  · refine ⟨fun p hp => absurd hp List.not_mem_nil, List.nodup_nil, fun hl => (by cases hl),
      fun hsome => ?_⟩
    exact .inr (List.mem_map.mpr ⟨_, (mem_found_names h).mpr ⟨hsome, rfl⟩, rfl⟩)
  · rintro ⟨collections, known⟩ hr
    refine ⟨collections, rfl, hr.nodup, fun name => ?_⟩
    cases hl : collections.lookup name with
    | some g' =>
      obtain ⟨g, hg, hsame⟩ := hr.same hl
      rw [hg]
      exact .some hsame
    | none =>
      cases hc : c name with
      | none => exact .none
      | some g =>
        obtain hsome | hmem := hr.all (Option.isSome_of_eq_some hc)
        · rw [hl] at hsome
          cases hsome
        · exact absurd hmem List.not_mem_nil

/-- **Loading gives exactly the collections that the tables hold.** -/
theorem load_of_holds {m : Medium} (h : Holds T m.database.entries c)
    (hT : Set.InjOn TermKey.ofTerm T) (hfault : m.fault = none) {patience : Patience}
    (hp : patience.exhausted? = none) :
    ∃ collections, load patience m = (.ok collections, m) ∧ (collections.map Prod.fst).Nodup ∧
      ∀ name, Option.Rel Graph.Same (collections.lookup name) (c name) := by
  have hs : Still ⟨m, m.database.begin false⟩ := ⟨hfault, rfl, rfl, rfl⟩
  obtain ⟨collections, hrun, hall⟩ := loadEntries_run hs h hT hp
  refine ⟨collections, ?_, hall⟩
  have hfails : m.fails .begin = (false, m) := by rw [Medium.fails, hfault]
  rw [load, inTransaction, hfails]
  simp only [Bool.false_eq_true, if_false, EStateM.run_bind, hs.scanKeys, hrun]

end Archive

end TripleStore
