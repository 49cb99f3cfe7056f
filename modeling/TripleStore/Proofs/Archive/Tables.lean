import TripleStore.Proofs.Archive.Work
import TripleStore.Proofs.Key.Term

/-!
# What the tables hold

The four tables stand for a map from names to graphs.  Rows of different collections are told apart
by the key they start with, while all collections share the texts of terms.

* `Archive.rows`: the keys of a table; `Archive.keptRows`: those that belong to a collection.
* `Archive.Holds`: the tables hold exactly the collections of a map, and the text of each of their
  terms.
* `Archive.Holds.save` and `Archive.Holds.delete`: **the writes of saving and deleting set one name
  of that map**, also when others have committed since the transaction began, as long as they left
  this name alone.
* `Archive.Holds.erase`: a deletion goes by the key of its name, so it removes what is held under
  any name that has this key.
-/

namespace TripleStore

/-- The terms of a graph. -/
def Graph.terms (g : Graph) : Set Term :=
  {t | (∃ n, some n ∈ g.nodes ∧ t = n.toTerm) ∨
    ∃ u ∈ g.triples, t = .iri u.predicate ∨ u.object = some t}

namespace Archive

open Table (fullKey)

variable {T : Set Term} {e e₀ e₁ : Entries} {c c₀ c₁ : Iri → Option Graph} {name : Iri} {g : Graph}

/-- The terms of a collection, its name among them. -/
def termsOf (name : Iri) (g : Graph) : Set Term := insert (.iri name) g.terms

/-- The keys of a table, without the byte of the table. -/
def rows (e : Entries) (table : Table) : Set Text :=
  {key | ∃ value, (fullKey table.code key, value) ∈ e}

/-- The keys of a table that belong to a collection. -/
def keptRows (name : Iri) (g : Graph) : Table → Set Text
  | .subjects => {key | ∃ n, some n ∈ g.nodes ∧
      key = joinKeys [.ofTerm (.iri name), .ofTerm n.toTerm]}
  | .statements => {key | ∃ n p o, ⟨some n, p, some o⟩ ∈ g.triples ∧
      key = statementKey (.ofTerm (.iri name)) (.ofTerm n.toTerm) (.ofTerm (.iri p)) (.ofTerm o)}
  | _ => ∅

/-- A graph of which a save keeps everything. -/
structure Storable (g : Graph) : Prop where
  registered : g.Registered
  nodes : none ∉ g.nodes
  objects : ∀ t ∈ g.triples, t.object.isSome

theorem Storable.subject (hg : Storable g) {t : Triple} (ht : t ∈ g.triples) :
    ∃ n, t.subject = some n ∧ some n ∈ g.nodes := by
  have hmem := hg.registered.subject ht
  cases hs : t.subject with
  | none => exact absurd (hs ▸ hmem) hg.nodes
  | some n => exact ⟨n, rfl, hs ▸ hmem⟩

/-- The tables hold exactly the collections of a map, with the texts of their terms. -/
structure Holds (T : Set Term) (e : Entries) (c : Iri → Option Graph) : Prop where
  proper : e.Proper
  storable : ∀ {name g}, c name = some g → Storable g
  names : ∀ key name, (fullKey Table.collections.code key, name) ∈ e ↔
    (c name).isSome ∧ key = (TermKey.ofTerm (.iri name)).bytes
  rows : ∀ table ∈ [Table.statements, Table.subjects], ∀ key,
    key ∈ rows e table ↔ ∃ name g, c name = some g ∧ key ∈ keptRows name g table
  terms : ∀ {name g}, c name = some g → ∀ t ∈ termsOf name g, t ∈ T ∧
    NTriples.parseTerm t.render = .ok t ∧
      (fullKey Table.terms.code (TermKey.ofTerm t).bytes, t.render) ∈ e

/-- Nothing is held at first. -/
theorem Holds.empty (T : Set Term) : Holds T [] fun _ => none := by
  refine ⟨List.nodup_nil, fun h => (by cases h), ?_, ?_, fun h => (by cases h)⟩
  · intro key name
    simp
  · intro table _ key
    simp [Archive.rows]

/-- The key of a name is that of no other collection. -/
def Sole (c : Iri → Option Graph) (name : Iri) : Prop :=
  ∀ name', (c name').isSome → TermKey.ofTerm (.iri name') = .ofTerm (.iri name) → name' = name

theorem Holds.sole (h : Holds T e c) (hT : Set.InjOn TermKey.ofTerm T) (hname : .iri name ∈ T) :
    Sole c name := by
  intro name' hsome hkey
  obtain ⟨g, hg⟩ := Option.isSome_iff_exists.mp hsome
  have hname' := (h.terms hg _ (.inl rfl)).1
  exact Term.iri.inj (hT hname' hname hkey)

theorem fullKey_inj {a b : Table} {k k' : Text} :
    fullKey a.code k = fullKey b.code k' ↔ a = b ∧ k = k' := by
  constructor
  · intro h
    obtain ⟨hc, hk⟩ := List.cons.inj h
    exact ⟨Table.code_injective hc, hk⟩
  · rintro ⟨rfl, rfl⟩
    rfl

/-- The rows of a collection start with its key and with no other. -/
theorem prefix_keptRows {table : Table} {key : Text} (h : key ∈ keptRows name g table)
    (k : TermKey) : k.bytes <+: key ↔ k = .ofTerm (.iri name) := by
  cases table with
  | subjects =>
    obtain ⟨n, -, rfl⟩ := h
    exact TermKey.prefix_joinKeys_iff
  | statements =>
    obtain ⟨n, p, o, -, rfl⟩ := h
    exact TermKey.prefix_joinKeys_iff
  | terms => exact absurd h id
  | collections => exact absurd h id

/-! ### Which writes there are -/

theorem mem_keys {k : Text} {ws : List Write} : k ∈ ws.map Prod.fst ↔ ∃ v, (k, v) ∈ ws := by
  simp

/-- The keys that a clearance erases. -/
theorem mem_clearWrites {table : Table} {collection : TermKey} {w : Write} :
    w ∈ clearWrites e table collection ↔
      ∃ key ∈ rows e table, collection.bytes <+: key ∧ w = (fullKey table.code key, none) := by
  rw [clearWrites, found, List.map_map, List.mem_map]
  constructor
  · rintro ⟨p, hp, rfl⟩
    obtain ⟨hp, rest, hrest⟩ := Entries.mem_startingWith.mp hp
    obtain ⟨key, value⟩ := p
    obtain rfl : table.code :: (collection.bytes ++ rest) = key := hrest
    exact ⟨collection.bytes ++ rest, ⟨value, hp⟩, List.prefix_append _ _, rfl⟩
  · rintro ⟨key, ⟨value, hp⟩, ⟨rest, rfl⟩, rfl⟩
    exact ⟨_, Entries.mem_startingWith.mpr ⟨hp, ⟨rest, rfl⟩⟩, rfl⟩

theorem mem_clearAllWrites {collection : TermKey} {w : Write} :
    w ∈ clearAllWrites e collection ↔ ∃ table ∈ [Table.statements, Table.subjects],
      ∃ key ∈ rows e table, collection.bytes <+: key ∧ w = (fullKey table.code key, none) := by
  rw [clearAllWrites, List.mem_append, mem_clearWrites, mem_clearWrites]
  simp

/-- What a save of a graph keeps. -/
def keptWrites (name : Iri) (g : Graph) : List Write :=
  termWrite (.iri name) :: nameWrite name ::
    g.subjects.flatMap (subjectWrites (.ofTerm (.iri name)) g)

theorem mem_pairWrites {collection : TermKey} {n : Node} {pair : Pair} {w : Write} :
    w ∈ pairWrites collection n pair ↔ w = termWrite (.iri pair.predicate) ∨
      ∃ o, pair.object = some o ∧
        (w = termWrite o ∨ w = statementWrite collection n pair.predicate o) := by
  obtain ⟨p, o⟩ := pair
  cases o <;> simp [pairWrites]

theorem mem_subjectWrites {collection : TermKey} {n : Node} (hn : some n ∈ g.nodes) {w : Write} :
    w ∈ subjectWrites collection g (some n) ↔
      w = termWrite n.toTerm ∨ w = nodeWrite collection n ∨
        ∃ p o, ⟨some n, p, o⟩ ∈ g.triples ∧ w ∈ pairWrites collection n ⟨p, o⟩ := by
  rw [subjectWrites, List.mem_append, List.mem_flatMap, List.mem_cons, List.mem_singleton, or_assoc]
  refine or_congr_right (or_congr_right ?_)
  constructor
  · rintro ⟨⟨p, o⟩, hpair, hw⟩
    exact ⟨p, o, (Graph.mem_statementsFor hn).mp hpair, hw⟩
  · rintro ⟨p, o, ht, hw⟩
    exact ⟨⟨p, o⟩, (Graph.mem_statementsFor hn).mpr ht, hw⟩

/-- A save keeps the name, the texts of all terms and the rows of the collection. -/
theorem mem_keptWrites (hg : Storable g) {w : Write} :
    w ∈ keptWrites name g ↔ w = nameWrite name ∨ (∃ t ∈ termsOf name g, w = termWrite t) ∨
      ∃ table ∈ [Table.statements, Table.subjects], ∃ key ∈ keptRows name g table,
        w = (fullKey table.code key, some []) := by
  have hwrites : ∀ n, some n ∈ g.nodes → w ∈ subjectWrites (.ofTerm (.iri name)) g (some n) →
      w ∈ keptWrites name g := fun n hn hw =>
    List.mem_cons_of_mem _ (List.mem_cons_of_mem _
      (List.mem_flatMap.mpr ⟨some n, Graph.mem_subjects.mpr hn, hw⟩))
  constructor
  · intro hw
    rw [keptWrites, List.mem_cons, List.mem_cons, List.mem_flatMap] at hw
    obtain rfl | rfl | ⟨n, hn, hw⟩ := hw
    · exact .inr (.inl ⟨_, .inl rfl, rfl⟩)
    · exact .inl rfl
    rw [Graph.mem_subjects] at hn
    cases n with
    | none => exact absurd hn hg.nodes
    | some n =>
      obtain rfl | rfl | ⟨p, o, ht, hw⟩ := (mem_subjectWrites hn).mp hw
      · exact .inr (.inl ⟨_, .inr (.inl ⟨n, hn, rfl⟩), rfl⟩)
      · exact .inr (.inr ⟨.subjects, by simp, _, ⟨n, hn, rfl⟩, rfl⟩)
      obtain rfl | ⟨o, rfl, rfl | rfl⟩ := mem_pairWrites.mp hw
      · exact .inr (.inl ⟨_, .inr (.inr ⟨_, ht, .inl rfl⟩), rfl⟩)
      · exact .inr (.inl ⟨_, .inr (.inr ⟨_, ht, .inr rfl⟩), rfl⟩)
      · exact .inr (.inr ⟨.statements, by simp, _, ⟨n, p, o, ht, rfl⟩, rfl⟩)
  · rintro (rfl | ⟨t, rfl | ⟨n, hn, rfl⟩ | ⟨⟨s, p, o⟩, ht, hto⟩, rfl⟩ |
      ⟨table, htable, key, hkey, rfl⟩)
    · exact List.mem_cons_of_mem _ List.mem_cons_self
    · exact List.mem_cons_self
    · exact hwrites n hn ((mem_subjectWrites hn).mpr (.inl rfl))
    · obtain ⟨n, rfl, hn⟩ := hg.subject ht
      refine hwrites n hn ((mem_subjectWrites hn).mpr (.inr (.inr ⟨p, o, ht, ?_⟩)))
      rcases hto with rfl | rfl
      · exact mem_pairWrites.mpr (.inl rfl)
      · exact mem_pairWrites.mpr (.inr ⟨t, rfl, .inl rfl⟩)
    · rw [List.mem_pair] at htable
      obtain rfl | rfl := htable
      · obtain ⟨n, p, o, ht, rfl⟩ := hkey
        obtain ⟨_, ⟨⟩, hn⟩ := hg.subject ht
        refine hwrites n hn ((mem_subjectWrites hn).mpr (.inr (.inr ⟨p, some o, ht, ?_⟩)))
        exact mem_pairWrites.mpr (.inr ⟨o, rfl, .inr rfl⟩)
      · obtain ⟨n, hn, rfl⟩ := hkey
        exact hwrites n hn ((mem_subjectWrites hn).mpr (.inr (.inl rfl)))

theorem name_mem_keptWrites (hg : Storable g) {key : Text} {v : Option Text} :
    (fullKey Table.collections.code key, v) ∈ keptWrites name g ↔
      key = (TermKey.ofTerm (.iri name)).bytes ∧ v = some name := by
  rw [mem_keptWrites hg]
  constructor
  · rintro (h | ⟨t, -, h⟩ | ⟨table, ht, _, _, h⟩)
    · obtain ⟨hk, rfl⟩ := Prod.mk.inj h
      exact ⟨(fullKey_inj.mp hk).2, rfl⟩
    · exact absurd (fullKey_inj.mp (Prod.mk.inj h).1).1 (by decide)
    · obtain ⟨rfl, -⟩ := fullKey_inj.mp (Prod.mk.inj h).1
      exact absurd ht (by decide)
  · rintro ⟨rfl, rfl⟩
    exact .inl rfl

theorem row_mem_keptWrites (hg : Storable g) {table : Table}
    (ht : table ∈ [Table.statements, Table.subjects]) {key : Text} {v : Option Text} :
    (fullKey table.code key, v) ∈ keptWrites name g ↔
      key ∈ keptRows name g table ∧ v = some [] := by
  rw [mem_keptWrites hg]
  constructor
  · rintro (h | ⟨t, -, h⟩ | ⟨table', -, key', hkey, h⟩)
    · obtain ⟨rfl, -⟩ := fullKey_inj.mp (Prod.mk.inj h).1
      exact absurd ht (by decide)
    · obtain ⟨rfl, -⟩ := fullKey_inj.mp (Prod.mk.inj h).1
      exact absurd ht (by decide)
    · obtain ⟨hk, rfl⟩ := Prod.mk.inj h
      obtain ⟨rfl, rfl⟩ := fullKey_inj.mp hk
      exact ⟨hkey, rfl⟩
  · rintro ⟨hkey, rfl⟩
    exact .inr (.inr ⟨table, ht, key, hkey, rfl⟩)

theorem term_mem_keptWrites (hg : Storable g) {key : Text} {v : Option Text} :
    (fullKey Table.terms.code key, v) ∈ keptWrites name g ↔
      ∃ t ∈ termsOf name g, key = (TermKey.ofTerm t).bytes ∧ v = some t.render := by
  rw [mem_keptWrites hg]
  constructor
  · rintro (h | ⟨t, ht, h⟩ | ⟨table, ht, _, _, h⟩)
    · exact absurd (fullKey_inj.mp (Prod.mk.inj h).1).1 (by decide)
    · obtain ⟨hk, rfl⟩ := Prod.mk.inj h
      exact ⟨t, ht, (fullKey_inj.mp hk).2, rfl⟩
    · obtain ⟨rfl, -⟩ := fullKey_inj.mp (Prod.mk.inj h).1
      exact absurd ht (by decide)
  · rintro ⟨t, ht, rfl, rfl⟩
    exact .inr (.inl ⟨t, ht, rfl⟩)

/-- Terms that have the same key are the same, so no key gets two values. -/
theorem consistent_keptWrites (hT : Set.InjOn TermKey.ofTerm T) (hg : Storable g)
    (hterms : ∀ t ∈ termsOf name g, t ∈ T) : Entries.Consistent (keptWrites name g) := by
  rintro w hw ⟨k, v⟩ hu rfl
  obtain rfl | ⟨t, ht, rfl⟩ | ⟨table, ht, key, -, rfl⟩ := (mem_keptWrites hg).mp hw
  · exact ((name_mem_keptWrites hg).mp hu).2.symm
  · obtain ⟨t', ht', hkey, rfl⟩ := (term_mem_keptWrites hg).mp hu
    obtain rfl := hT (hterms t ht) (hterms t' ht') (TermKey.bytes_injective hkey)
    rfl
  · exact ((row_mem_keptWrites hg ht).mp hu).2.symm

/-- The row of a table is erased if it starts with the key of the collection. -/
theorem mem_keys_clearAllWrites {collection : TermKey} {table : Table} {key : Text} :
    fullKey table.code key ∈ (clearAllWrites e collection).map Prod.fst ↔
      table ∈ [Table.statements, Table.subjects] ∧ key ∈ rows e table ∧
        collection.bytes <+: key := by
  rw [List.mem_map]
  constructor
  · rintro ⟨w, hw, hk⟩
    obtain ⟨table', htable, key', hkey, hprefix, rfl⟩ := mem_clearAllWrites.mp hw
    obtain ⟨rfl, rfl⟩ := fullKey_inj.mp hk
    exact ⟨htable, hkey, hprefix⟩
  · rintro ⟨htable, hkey, hprefix⟩
    exact ⟨_, mem_clearAllWrites.mpr ⟨table, htable, key, hkey, hprefix, rfl⟩, rfl⟩

theorem snd_of_mem_clearAllWrites {collection : TermKey} {w : Write}
    (hw : w ∈ clearAllWrites e collection) : w.2 = none := by
  obtain ⟨table, -, key, -, -, rfl⟩ := mem_clearAllWrites.mp hw
  rfl

/-- The entries after a save: what it keeps, and what it neither keeps nor clears. -/
theorem mem_saved (hT : Set.InjOn TermKey.ofTerm T) (hg : Storable g)
    (hterms : ∀ t ∈ termsOf name g, t ∈ T) {p : Text × Text} :
    p ∈ (saveWrites e₀ name g).foldl Entries.apply e₁ ↔ (p.1, some p.2) ∈ keptWrites name g ∨
      p ∈ e₁ ∧ p.1 ∉ (keptWrites name g).map Prod.fst ∧
        p.1 ∉ (clearAllWrites e₀ (.ofTerm (.iri name))).map Prod.fst := by
  have hkept := consistent_keptWrites hT hg hterms
  -- the text of the name is written before the tables are cleared, all else after
  have hterm : (termWrite (.iri name)).1 ∉
      (clearAllWrites e₀ (.ofTerm (.iri name))).map Prod.fst := by
    intro h
    exact absurd (mem_keys_clearAllWrites.mp h).1 (by decide)
  have hfirst : Entries.Consistent
      (termWrite (.iri name) :: clearAllWrites e₀ (.ofTerm (.iri name))) := by
    intro w hw u hu h
    obtain rfl | hw := List.mem_cons.mp hw
    · obtain rfl | hu := List.mem_cons.mp hu
      · rfl
      · exact absurd (h ▸ List.mem_map_of_mem hu) hterm
    · obtain rfl | hu := List.mem_cons.mp hu
      · exact absurd (h ▸ List.mem_map_of_mem hw) hterm
      · rw [snd_of_mem_clearAllWrites hw, snd_of_mem_clearAllWrites hu]
  have hsecond : Entries.Consistent (keptWrites name g).tail := fun w hw u hu =>
    hkept w (List.mem_cons_of_mem _ hw) u (List.mem_cons_of_mem _ hu)
  have hsplit : saveWrites e₀ name g = (termWrite (.iri name) ::
      clearAllWrites e₀ (.ofTerm (.iri name))) ++ (keptWrites name g).tail := rfl
  have hcons : keptWrites name g = termWrite (.iri name) :: (keptWrites name g).tail := rfl
  rw [hsplit, List.foldl_append, Entries.mem_foldl_apply hsecond, Entries.mem_foldl_apply hfirst,
    List.map_cons, List.mem_cons, List.mem_cons]
  constructor
  · rintro (hp | ⟨(hp | hp) | ⟨hp, hn⟩, hs⟩)
    · exact .inl (List.mem_cons_of_mem _ hp)
    · exact .inl (hp ▸ List.mem_cons_self)
    · exact absurd (snd_of_mem_clearAllWrites hp) (by simp)
    · rw [not_or] at hn
      refine .inr ⟨hp, ?_, hn.2⟩
      rw [hcons, List.map_cons, List.mem_cons, not_or]
      exact ⟨hn.1, hs⟩
  · rintro (hp | ⟨hp, hs, hn⟩)
    · obtain hp | hp := List.mem_cons.mp (hcons ▸ hp)
      · by_cases hs : p.1 ∈ (keptWrites name g).tail.map Prod.fst
        · obtain ⟨u, hu, hk⟩ := List.mem_map.mp hs
          have hv := hkept u (List.mem_cons_of_mem _ hu) _ List.mem_cons_self
            (hk.trans (congrArg Prod.fst hp))
          have heq : u = (p.1, some p.2) := Prod.ext hk (hv.trans (congrArg Prod.snd hp).symm)
          exact .inl (heq ▸ hu)
        · exact .inr ⟨.inl (.inl hp), hs⟩
      · exact .inl hp
    · rw [hcons, List.map_cons, List.mem_cons, not_or] at hs
      exact .inr ⟨.inr ⟨hp, not_or.mpr ⟨hs.1, hn⟩⟩, hs.2⟩

/-- The entries after a deletion: what it does not erase. -/
theorem mem_deleted {p : Text × Text} :
    p ∈ (deleteWrites e₀ name).foldl Entries.apply e₁ ↔
      p ∈ e₁ ∧ p.1 ≠ fullKey Table.collections.code (TermKey.ofTerm (.iri name)).bytes ∧
        p.1 ∉ (clearAllWrites e₀ (.ofTerm (.iri name))).map Prod.fst := by
  have hnone : ∀ w ∈ deleteWrites e₀ name, w.2 = none := by
    intro w hw
    obtain hw | hw := List.mem_append.mp hw
    · exact snd_of_mem_clearAllWrites hw
    · obtain rfl := List.mem_singleton.mp hw
      rfl
  have hwrites : Entries.Consistent (deleteWrites e₀ name) := fun w hw u hu _ =>
    (hnone w hw).trans (hnone u hu).symm
  rw [Entries.mem_foldl_apply hwrites]
  constructor
  · rintro (hp | ⟨hp, hn⟩)
    · exact absurd (hnone _ hp) (by simp)
    · rw [deleteWrites, List.map_append, List.mem_append, not_or] at hn
      exact ⟨hp, fun h => hn.2 (List.mem_singleton.mpr h), hn.1⟩
  · rintro ⟨hp, hne, hn⟩
    refine .inr ⟨hp, ?_⟩
    rw [deleteWrites, List.map_append, List.mem_append, not_or]
    exact ⟨hn, fun h => hne (List.mem_singleton.mp h)⟩

/-! ### What is held afterwards -/

namespace Holds

/-- The rows that start with the key of a collection are those of the collection. -/
theorem rows_of (h : Holds T e c) (hname : Sole c name) {table : Table}
    (ht : table ∈ [Table.statements, Table.subjects]) {key : Text} :
    key ∈ Archive.rows e table ∧ (TermKey.ofTerm (.iri name)).bytes <+: key ↔
      ∃ g, c name = some g ∧ key ∈ keptRows name g table := by
  rw [h.rows table ht]
  constructor
  · rintro ⟨⟨name', g, hg, hkey⟩, hprefix⟩
    have hsame := (prefix_keptRows hkey _).mp hprefix
    obtain rfl := hname name' (Option.isSome_iff_exists.mpr ⟨g, hg⟩) hsame.symm
    exact ⟨g, hg, hkey⟩
  · rintro ⟨g, hg, hkey⟩
    exact ⟨⟨name, g, hg, hkey⟩, (prefix_keptRows hkey _).mpr rfl⟩

/-- The other rows are those of the other collections. -/
theorem rows_of_others (h : Holds T e c) (hname : Sole c name) {table : Table}
    (ht : table ∈ [Table.statements, Table.subjects]) {key : Text} :
    key ∈ Archive.rows e table ∧ ¬ (TermKey.ofTerm (.iri name)).bytes <+: key ↔
      ∃ name' g, name' ≠ name ∧ c name' = some g ∧ key ∈ keptRows name' g table := by
  rw [h.rows table ht]
  constructor
  · rintro ⟨⟨name', g, hg, hkey⟩, hprefix⟩
    refine ⟨name', g, ?_, hg, hkey⟩
    rintro rfl
    exact hprefix ((prefix_keptRows hkey _).mpr rfl)
  · rintro ⟨name', g, hne, hg, hkey⟩
    refine ⟨⟨name', g, hg, hkey⟩, fun hprefix => hne ?_⟩
    have hsame := (prefix_keptRows hkey _).mp hprefix
    exact hname name' (Option.isSome_iff_exists.mpr ⟨g, hg⟩) hsame.symm

/-- Rows of another transaction's making that start with the key of a collection were there when
this one began, if the collection is held as it was then. -/
theorem cleared (h₀ : Holds T e₀ c₀) (h₁ : Holds T e₁ c₁) (hsame : c₀ name = c₁ name)
    (hname : Sole c₁ name) {table : Table} (ht : table ∈ [Table.statements, Table.subjects])
    {key : Text} (hkey : key ∈ Archive.rows e₁ table) :
    fullKey table.code key ∈ (clearAllWrites e₀ (.ofTerm (.iri name))).map Prod.fst ↔
      (TermKey.ofTerm (.iri name)).bytes <+: key := by
  rw [mem_keys_clearAllWrites]
  constructor
  · rintro ⟨-, -, hprefix⟩
    exact hprefix
  · intro hprefix
    obtain ⟨g, hg, hrow⟩ := (h₁.rows_of hname ht).mp ⟨hkey, hprefix⟩
    exact ⟨ht, (h₀.rows table ht key).mpr ⟨name, g, hsame.trans hg, hrow⟩, hprefix⟩

theorem rows_saved (h₀ : Holds T e₀ c₀) (h₁ : Holds T e₁ c₁) (hsame : c₀ name = c₁ name)
    (hT : Set.InjOn TermKey.ofTerm T) (hg : Storable g) (hterms : ∀ t ∈ termsOf name g, t ∈ T)
    {table : Table} (ht : table ∈ [Table.statements, Table.subjects]) {key : Text} :
    key ∈ Archive.rows ((saveWrites e₀ name g).foldl Entries.apply e₁) table ↔
      key ∈ keptRows name g table ∨
        key ∈ Archive.rows e₁ table ∧ ¬ (TermKey.ofTerm (.iri name)).bytes <+: key := by
  have hcleared : key ∈ Archive.rows e₁ table → _ :=
    h₀.cleared h₁ hsame (h₁.sole hT (hterms _ (.inl rfl))) ht
  constructor
  · rintro ⟨v, hv⟩
    obtain hv | ⟨hv, -, hn⟩ := (mem_saved hT hg hterms).mp hv
    · exact .inl ((row_mem_keptWrites hg ht).mp hv).1
    · exact .inr ⟨⟨v, hv⟩, fun hprefix => hn ((hcleared ⟨v, hv⟩).mpr hprefix)⟩
  · rintro (hkey | ⟨⟨v, hv⟩, hprefix⟩)
    · exact ⟨[], (mem_saved hT hg hterms).mpr (.inl ((row_mem_keptWrites hg ht).mpr ⟨hkey, rfl⟩))⟩
    · refine ⟨v, (mem_saved hT hg hterms).mpr (.inr ⟨hv, fun hk => hprefix ?_, fun hk => ?_⟩)⟩
      · obtain ⟨_, hk⟩ := mem_keys.mp hk
        exact (prefix_keptRows ((row_mem_keptWrites hg ht).mp hk).1 _).mpr rfl
      · exact hprefix ((hcleared ⟨v, hv⟩).mp hk)

theorem rows_deleted (h₀ : Holds T e₀ c₀) (h₁ : Holds T e₁ c₁) (hsame : c₀ name = c₁ name)
    (hname : Sole c₁ name) {table : Table} (ht : table ∈ [Table.statements, Table.subjects])
    {key : Text} :
    key ∈ Archive.rows ((deleteWrites e₀ name).foldl Entries.apply e₁) table ↔
      key ∈ Archive.rows e₁ table ∧ ¬ (TermKey.ofTerm (.iri name)).bytes <+: key := by
  have hcleared : key ∈ Archive.rows e₁ table → _ := h₀.cleared h₁ hsame hname ht
  constructor
  · rintro ⟨v, hv⟩
    obtain ⟨hv, -, hn⟩ := mem_deleted.mp hv
    exact ⟨⟨v, hv⟩, fun hprefix => hn ((hcleared ⟨v, hv⟩).mpr hprefix)⟩
  · rintro ⟨⟨v, hv⟩, hprefix⟩
    refine ⟨v, mem_deleted.mpr ⟨hv, fun hk => ?_, fun hk => ?_⟩⟩
    · obtain ⟨rfl, -⟩ := fullKey_inj.mp hk
      exact absurd ht (by decide)
    · exact hprefix ((hcleared ⟨v, hv⟩).mp hk)

/-- The collections of a map in which one name is set are that one and the others. -/
theorem exists_update {x : Option Graph} {P : Iri → Graph → Prop} :
    (∃ name' g', Function.update c name x name' = some g' ∧ P name' g') ↔
      (∃ g, x = some g ∧ P name g) ∨ ∃ name' g', name' ≠ name ∧ c name' = some g' ∧ P name' g' := by
  constructor
  · rintro ⟨name', g', hg', hP⟩
    by_cases hn : name' = name
    · subst hn
      rw [Function.update_self] at hg'
      exact .inl ⟨g', hg', hP⟩
    · rw [Function.update_of_ne hn] at hg'
      exact .inr ⟨name', g', hn, hg', hP⟩
  · rintro (⟨g', hg', hP⟩ | ⟨name', g', hn, hg', hP⟩)
    · exact ⟨name, g', by rw [Function.update_self, hg'], hP⟩
    · exact ⟨name', g', by rw [Function.update_of_ne hn, hg'], hP⟩

theorem save (h₀ : Holds T e₀ c₀) (h₁ : Holds T e₁ c₁) (hsame : c₀ name = c₁ name)
    (hT : Set.InjOn TermKey.ofTerm T) (hg : Storable g)
    (hterms : ∀ t ∈ termsOf name g, t ∈ T ∧ NTriples.parseTerm t.render = .ok t) :
    Holds T ((saveWrites e₀ name g).foldl Entries.apply e₁)
      (Function.update c₁ name (some g)) := by
  have hmemT : ∀ t ∈ termsOf name g, t ∈ T := fun t ht => (hterms t ht).1
  have hname : Sole c₁ name := h₁.sole hT (hmemT _ (.inl rfl))
  have hclear : ∀ table ∉ [Table.statements, Table.subjects], ∀ key, fullKey table.code key ∉
      (clearAllWrites e₀ (.ofTerm (.iri name))).map Prod.fst := fun table ht key h =>
    ht (mem_keys_clearAllWrites.mp h).1
  refine ⟨h₁.proper.foldl_apply _, ?_, ?_, ?_, ?_⟩
  · intro name' g' hg'
    by_cases hn : name' = name
    · rw [hn, Function.update_self] at hg'
      obtain rfl := Option.some.inj hg'
      exact hg
    · rw [Function.update_of_ne hn] at hg'
      exact h₁.storable hg'
  · intro key name'
    rw [mem_saved hT hg hmemT, name_mem_keptWrites hg, h₁.names, mem_keys]
    simp only [name_mem_keptWrites hg, hclear .collections (by decide), not_false_eq_true, and_true,
      Option.some.injEq]
    by_cases hn : name' = name
    · subst hn
      simp
    · rw [Function.update_of_ne hn]
      constructor
      · rintro (⟨-, h⟩ | ⟨h, -⟩)
        · exact absurd h hn
        · exact h
      · rintro ⟨hsome, rfl⟩
        refine .inr ⟨⟨hsome, rfl⟩, ?_⟩
        rintro ⟨_, hk, -⟩
        exact hn (hname name' hsome (TermKey.bytes_injective hk))
  · intro table ht key
    rw [h₀.rows_saved h₁ hsame hT hg hmemT ht, h₁.rows_of_others hname ht, exists_update]
    simp
  · intro name' g' hg' t ht
    by_cases hn : name' = name
    · rw [hn, Function.update_self] at hg'
      obtain rfl := Option.some.inj hg'
      subst hn
      refine ⟨(hterms t ht).1, (hterms t ht).2, (mem_saved hT hg hmemT).mpr (.inl ?_)⟩
      exact (term_mem_keptWrites hg).mpr ⟨t, ht, rfl, rfl⟩
    · rw [Function.update_of_ne hn] at hg'
      obtain ⟨htT, hread, hmem⟩ := h₁.terms hg' t ht
      refine ⟨htT, hread, (mem_saved hT hg hmemT).mpr ?_⟩
      by_cases hk : fullKey Table.terms.code (TermKey.ofTerm t).bytes ∈
          (keptWrites name g).map Prod.fst
      · -- the same text is written once more
        obtain ⟨v, hv⟩ := mem_keys.mp hk
        obtain ⟨u, hu, hkey, -⟩ := (term_mem_keptWrites hg).mp hv
        obtain rfl := hT htT (hmemT u hu) (TermKey.bytes_injective hkey)
        exact .inl ((term_mem_keptWrites hg).mpr ⟨t, hu, rfl, rfl⟩)
      · exact .inr ⟨hmem, hk, hclear .terms (by decide) _⟩

theorem delete (h₀ : Holds T e₀ c₀) (h₁ : Holds T e₁ c₁) (hsame : c₀ name = c₁ name)
    (hname : Sole c₁ name) :
    Holds T ((deleteWrites e₀ name).foldl Entries.apply e₁) (Function.update c₁ name none) := by
  have hclear : ∀ table ∉ [Table.statements, Table.subjects], ∀ key, fullKey table.code key ∉
      (clearAllWrites e₀ (.ofTerm (.iri name))).map Prod.fst := fun table ht key h =>
    ht (mem_keys_clearAllWrites.mp h).1
  have hold : ∀ {name' g'}, Function.update c₁ name none name' = some g' → c₁ name' = some g' := by
    intro name' g' hg'
    by_cases hn : name' = name
    · rw [hn, Function.update_self] at hg'
      cases hg'
    · rwa [Function.update_of_ne hn] at hg'
  refine ⟨h₁.proper.foldl_apply _, fun hg' => h₁.storable (hold hg'), ?_, ?_, ?_⟩
  · intro key name'
    rw [mem_deleted, h₁.names]
    by_cases hn : name' = name
    · subst hn
      rw [Function.update_self]
      constructor
      · rintro ⟨⟨-, rfl⟩, hne, -⟩
        exact absurd rfl hne
      · rintro ⟨h, -⟩
        cases h
    · rw [Function.update_of_ne hn]
      constructor
      · rintro ⟨h, -⟩
        exact h
      · rintro ⟨hsome, rfl⟩
        refine ⟨⟨hsome, rfl⟩, fun hk => hn ?_, hclear .collections (by decide) _⟩
        exact hname name' hsome (TermKey.bytes_injective (fullKey_inj.mp hk).2)
  · intro table ht key
    rw [h₀.rows_deleted h₁ hsame hname ht, h₁.rows_of_others hname ht, exists_update]
    simp
  · intro name' g' hg' t ht
    obtain ⟨htT, hread, hmem⟩ := h₁.terms (hold hg') t ht
    refine ⟨htT, hread, mem_deleted.mpr ⟨hmem, fun hk => ?_, hclear .terms (by decide) _⟩⟩
    exact absurd (fullKey_inj.mp hk).1 (by decide)

/-- A deletion removes whatever is held under the key of the name, which may be of another name. -/
theorem erase (h : Holds T e c) (hT : Set.InjOn TermKey.ofTerm T) (name : Iri) :
    Holds T ((deleteWrites e name).foldl Entries.apply e) fun n =>
      if TermKey.ofTerm (.iri n) = .ofTerm (.iri name) then none else c n := by
  -- the writes depend on the key alone, so they are those of a name that is held, if there is one
  obtain ⟨n, hkey, hsole⟩ : ∃ n, TermKey.ofTerm (.iri n) = .ofTerm (.iri name) ∧ Sole c n := by
    by_cases hheld : ∃ n, (c n).isSome ∧ TermKey.ofTerm (.iri n) = .ofTerm (.iri name)
    · obtain ⟨n, hsome, hkey⟩ := hheld
      obtain ⟨g, hg⟩ := Option.isSome_iff_exists.mp hsome
      exact ⟨n, hkey, h.sole hT (h.terms hg _ (.inl rfl)).1⟩
    · exact ⟨name, rfl, fun n hsome hkey => absurd ⟨n, hsome, hkey⟩ hheld⟩
  have hwrites : deleteWrites e name = deleteWrites e n := by
    rw [deleteWrites, deleteWrites, hkey]
  have hmap : (fun n' => if TermKey.ofTerm (.iri n') = .ofTerm (.iri name) then none else c n')
      = Function.update c n none := by
    funext n'
    by_cases hn : n' = n
    · rw [hn, Function.update_self, if_pos hkey]
    · rw [Function.update_of_ne hn]
      split_ifs with hkey'
      · rw [eq_comm, ← Option.not_isSome_iff_eq_none]
        exact fun hsome => hn (hsole n' hsome (hkey'.trans hkey.symm))
      · rfl
  rw [hwrites, hmap]
  exact h.delete h rfl hsole

end Holds

end Archive

end TripleStore
