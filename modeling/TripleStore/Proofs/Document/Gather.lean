import TripleStore.Document.Files
import TripleStore.Proofs.Document.Dump

/-!
# Files that are gathered in any order

Files are loaded each into a graph of its own, and the graphs are merged as they are ready.  Where
that happens side by side, the order of the merges is left to chance, and so are the numbers of all
labels: a reading or a merge finds the counters wherever others have left them.  What is gathered is
the union of one copy for each file all the same, and unions of copies of the same graphs are alike.

* `Document.load_alike`: a document is loaded as the same graph but for its labels, from any supply.
* `FileLoader.Gathers`: what comes about when files are gathered, in some order.
* `FileLoader.loadFiles_gathers`: files that are loaded one after the other are gathered.
* `FileLoader.gathered_alike`: **the order makes no difference but for the labels.**
-/

namespace TripleStore

/-! ### Graphs of statements with their labels replaced -/

theorem Triple.nodes_mapLabels (f : Text → Text) (t : Triple) :
    (t.mapLabels f).nodes = t.nodes.map (Option.map (Node.mapLabel f)) := by
  obtain ⟨subject, predicate, object⟩ := t
  rcases object with _ | _ | _ <;> rfl

namespace Graph

variable {g g' : Graph}

theorem mem_nodes_ofStatements {reports : Bool} {stmts : List Statement} {n : Option Node} :
    n ∈ (ofStatements reports stmts).nodes ↔ ∃ s ∈ stmts, n ∈ s.triple.nodes := by
  rw [ofStatements, mem_nodes_addAll]
  simp

/-- The graph of statements with their labels replaced. -/
theorem alike_ofStatements {f : Text → Text} (hf : Function.Injective f) (reports : Bool)
    (stmts : List Statement) :
    (ofStatements reports stmts).Alike (ofStatements reports (stmts.map (Statement.mapLabels f))) := by
  refine ⟨f, .of_injOn hf.injOn (fun n => ?_) fun t => ?_⟩
  · simp only [mem_nodes_ofStatements, List.mem_map, exists_exists_and_eq_and,
      Statement.triple_mapLabels, Triple.nodes_mapLabels]
    constructor
    · intro hn
      obtain ⟨s, hs, k, hk, rfl⟩ := hn
      exact ⟨k, ⟨s, hs, hk⟩, rfl⟩
    · intro hn
      obtain ⟨k, ⟨s, hs, hk⟩, rfl⟩ := hn
      exact ⟨s, hs, k, hk, rfl⟩
  · simp [mem_triples_ofStatements, Statement.triple_mapLabels, eq_comm]

/-- Registered nodes stay so when labels are replaced. -/
theorem Registered.of_alike (hg : g.Registered) (h : g.Alike g') : g'.Registered := by
  obtain ⟨f, hf⟩ := h
  constructor
  · intro t ht
    obtain ⟨u, hu, rfl⟩ := (hf.triples t).mp ht
    exact (hf.nodes _).mpr ⟨u.subject, hg.subject hu, rfl⟩
  · intro t ht k hk
    obtain ⟨u, hu, rfl⟩ := (hf.triples t).mp ht
    have hmem : some k ∈ (u.mapLabels f).nodes := Triple.object_mem_nodes hk
    rw [Triple.nodes_mapLabels] at hmem
    obtain ⟨n, hn, hnk⟩ := List.mem_map.mp hmem
    exact (hf.nodes _).mpr ⟨n, hg.nodes_subset hu n hn, hnk⟩

/-- A graph joined to a union is one more copy beside the others. -/
theorem UnionOf.join {copies : List Graph} {source merged : Graph} {f : Text → Text}
    (h : g.UnionOf copies) (hjoin : Joins f g source merged) :
    merged.UnionOf (source.relabel f :: copies) := by
  refine ⟨List.pairwise_cons.mpr ⟨fun c hc l hl hlc => ?_, h.apart⟩, fun n => ?_, fun t => ?_⟩
  · rw [labels_relabel] at hl
    obtain ⟨b, hb, rfl⟩ := hl
    exact hjoin.fresh b hb (h.mem_labels.mpr ⟨c, hc, hlc⟩)
  · rw [hjoin.nodes, h.nodes, List.exists_mem_cons_iff, or_comm]
    exact or_congr_left List.mem_map.symm
  · rw [hjoin.triples, h.triples, List.exists_mem_cons_iff, or_comm]
    exact or_congr_left List.mem_map.symm

end Graph

/-! ### Loading from any supply -/

/-- What is loaded without an error is the graph of the statements that were read. -/
theorem Document.eq_of_error_eq_none {format : Format} {text : Text} {reports : Bool}
    {supply : Supply} (h : (load format text { reports } supply).error = none) :
    ∃ stmts, (format.read text supply).collect
        = (.ok stmts, (load format text { reports } supply).supply) ∧
      (load format text { reports } supply).graph = Graph.ofStatements reports stmts := by
  refine ⟨(format.read text supply).receive.statements, ?_, rfl⟩
  have herror : (format.read text supply).receive.error = none := Option.map_eq_none_iff.mp h
  rw [Delivery.collect, herror]
  rfl

namespace FileLoader

variable {l : FileLoader} {path : Text} {supply left : Supply} {loaded copy copy' : Graph} {count : ℕ}

/-- A graph is that of a file up to a bijection of the labels: whatever the supply, the file is loaded
without an error, and what is loaded is the same but for the labels. -/
def Copied (l : FileLoader) (path : Text) (copy : Graph) : Prop :=
  ∀ supply, ∃ loaded count left, l.loadFile path supply = (.ok (loaded, count), left) ∧
    loaded.Alike copy

/-- A file that is loaded holds a document without an error. -/
theorem loadFile_eq_ok (h : l.loadFile path supply = (.ok (loaded, count), left)) :
    ∃ format content stmts, l.formatOf path = .ok format ∧ l.tree.find path = .ok (.file content) ∧
      (format.read content supply).collect = (.ok stmts, left) ∧
      loaded = Graph.ofStatements true stmts := by
  unfold loadFile at h
  cases hformat : l.formatOf path with
  | error e => simp [hformat] at h
  | ok format =>
    cases hfind : l.tree.find path with
    | error e => simp [hformat, hfind] at h
    | ok entry =>
      cases entry with
      | directory => simp [hformat, hfind, Document.unreadable] at h
      | file content =>
        simp only [hformat, hfind] at h
        cases herror : (Document.load format content .empty supply).error with
        | some e => simp [herror] at h
        | none =>
          obtain ⟨stmts, hcollect, hgraph⟩ := Document.eq_of_error_eq_none herror
          simp only [herror, Prod.mk.injEq, Except.ok.injEq] at h
          obtain ⟨⟨rfl, -⟩, rfl⟩ := h
          exact ⟨format, content, stmts, rfl, rfl, hcollect, hgraph⟩

/-- **A file that is loaded from one supply is loaded from all**, with other labels. -/
theorem copied_of_loadFile (h : l.loadFile path supply = (.ok (loaded, count), left)) :
    l.Copied path loaded := by
  intro other
  obtain ⟨format, content, stmts, hformat, hfind, hcollect, rfl⟩ := loadFile_eq_ok h
  have hload := Document.load_shift hcollect true other
  have hfile : l.loadFile path other = (.ok (Graph.ofStatements true
      ((Shift.between supply other).statements stmts), stmts.length),
        (Shift.between supply other).supply left) := by
    rw [loadFile, hformat, hfind]
    simp only [Graph.empty, hload]
  exact ⟨_, _, _, hfile, (Graph.alike_ofStatements (Shift.label_injective _) true stmts).symm⟩

theorem Copied.of_alike (h : l.Copied path copy) (halike : copy.Alike copy') :
    l.Copied path copy' := by
  intro supply
  obtain ⟨loaded, count, left, hload, hcopy⟩ := h supply
  exact ⟨loaded, count, left, hload, hcopy.trans halike⟩

/-- All copies of a file are alike. -/
theorem Copied.alike (h : l.Copied path copy) (h' : l.Copied path copy') : copy.Alike copy' := by
  obtain ⟨loaded, count, left, hload, hcopy⟩ := h {}
  obtain ⟨loaded', count', left', hload', hcopy'⟩ := h' {}
  rw [hload] at hload'
  cases hload'
  exact hcopy.symm.trans hcopy'

theorem Copied.forall₂_alike {paths : List Text} {copies copies' : List Graph}
    (h : List.Forall₂ l.Copied paths copies) (h' : List.Forall₂ l.Copied paths copies') :
    List.Forall₂ Graph.Alike copies copies' := by
  induction h generalizing copies' with
  | nil =>
    cases h'
    exact .nil
  | cons hcopy _ ih =>
    obtain - | ⟨hcopy', hrest'⟩ := h'
    exact .cons (hcopy.alike hcopy') (ih hrest')

theorem registered_of_loadFile (h : l.loadFile path supply = (.ok (loaded, count), left)) :
    loaded.Registered := by
  obtain ⟨-, -, stmts, -, -, -, rfl⟩ := loadFile_eq_ok h
  exact Graph.registered_ofStatements true stmts

/-! ### Gathering files -/

/-- What comes about when files are gathered, the last one first: each is loaded from any supply and
merged in any way.  As others may draw labels while it is read, its graph is that of a reading of its
own but for the numbers of the labels. -/
inductive Gathers (l : FileLoader) : List Text → Graph → Prop
  | start (reports : Bool) : Gathers l [] { reports }
  | next {paths : List Text} {path : Text} {g loaded scratch merged : Graph} {supply left : Supply}
      {count : ℕ} (h : Gathers l paths g)
      (hload : l.loadFile path supply = (.ok (loaded, count), left))
      (hscratch : loaded.Alike scratch) (hmerge : g.Merges scratch merged) :
      Gathers l (path :: paths) merged

variable {paths paths' done : List Text} {g g' : Graph}

theorem Gathers.registered (h : l.Gathers paths g) : g.Registered := by
  induction h with
  | start reports => exact .empty reports
  | next _ _ _ hmerge ih => exact hmerge.registered ih

/-- The counter does not start over while one more file is merged. -/
def CountsOn (l : FileLoader) (p : Progress) (path : Text) : Prop :=
  ∀ scratch count left, l.loadFile path p.supply = (.ok (scratch, count), left) →
    left.labels.toNat + p.graph.renamingDraws scratch.labelOrder left < 2 ^ 64

/-- Nor while several are, one after the other. -/
def CountsOnFrom (l : FileLoader) (patience : Patience) : Progress → List Text → Prop
  | _, [] => True
  | p, path :: rest => l.CountsOn p path ∧ CountsOnFrom l patience (l.step patience p path).2 rest

variable {patience : Patience} {p : Progress}

theorem step_gathers (hpatience : patience.exhausted? = none) (h : l.Gathers done p.graph)
    (hcopied : ∃ copy, l.Copied path copy) (hcounts : l.CountsOn p path) :
    ∃ p', l.step patience p path = (.ok (), p') ∧ l.Gathers (path :: done) p'.graph := by
  obtain ⟨copy, hcopied⟩ := hcopied
  obtain ⟨scratch, count, left, hload, -⟩ := hcopied p.supply
  have hmerge : p.graph.Merges scratch (p.graph.merge scratch left).1 :=
    .inOrder (.refl _) (hcounts _ _ _ hload)
  have hstep : l.step patience p path = (.ok (), ⟨(p.graph.merge scratch left).1,
      (p.graph.merge scratch left).2,
      p.journal ++ [.merged scratch.mergeReport, FileLoader.loaded path count]⟩) := by
    rw [step, hpatience]
    simp only [hload]
  exact ⟨_, hstep, h.next hload (.refl _) hmerge⟩

theorem loadFrom_gathers (hpatience : patience.exhausted? = none) (h : l.Gathers done p.graph)
    (hcopied : ∀ path ∈ paths, ∃ copy, l.Copied path copy)
    (hcounts : l.CountsOnFrom patience p paths) :
    ∃ g, (l.loadFrom patience p paths).1 = .ok g ∧ l.Gathers (paths.reverse ++ done) g := by
  induction paths generalizing p done with
  | nil => exact ⟨p.graph, rfl, h⟩
  | cons path paths ih =>
    obtain ⟨hfirst, hcopied⟩ := List.forall_mem_cons.mp hcopied
    obtain ⟨p', hstep, hp'⟩ := step_gathers hpatience h hfirst hcounts.1
    have hrest : l.CountsOnFrom patience p' paths := by
      have hrest := hcounts.2
      rwa [hstep] at hrest
    rw [loadFrom, hstep, List.reverse_cons, List.append_assoc]
    exact ih hp' hcopied hrest

/-- **Files that are loaded one after the other are gathered**, as long as the counter does not start
over in one of the merges. -/
theorem loadFiles_gathers (hpatience : patience.exhausted? = none)
    (hcopied : ∀ path ∈ paths, ∃ copy, l.Copied path copy)
    (hcounts : l.CountsOnFrom patience { supply } paths) :
    ∃ g, (l.loadFiles patience paths supply).1 = .ok g ∧ l.Gathers paths.reverse g := by
  have h := loadFrom_gathers hpatience (.start true) hcopied hcounts
  rwa [List.append_nil] at h

/-- **What is gathered is the union of one copy for each file**, and no two of them share a blank
node. -/
theorem Gathers.exists_copies (h : l.Gathers paths g) (hroom : g.nodes.length < 2 ^ 64) :
    ∃ copies, List.Forall₂ l.Copied paths copies ∧ g.UnionOf copies := by
  induction h with
  | start reports => exact ⟨[], .nil, .nil, by simp, by simp⟩
  | @next paths path g loaded scratch merged _ _ _ h hload hscratch hmerge ih =>
    obtain ⟨copies, hcopies, hunion⟩ := ih (hmerge.grows.trans_lt hroom)
    obtain ⟨f, hjoin⟩ := hmerge.joins h.registered
      ((registered_of_loadFile hload).of_alike hscratch) hroom
    have hcopy : l.Copied path (scratch.relabel f) :=
      ((copied_of_loadFile hload).of_alike hscratch).of_alike
        ⟨f, Graph.alikeBy_relabel hjoin.injective⟩
    exact ⟨_, .cons hcopy hcopies, hunion.join hjoin⟩

/-- **The order in which files are gathered makes no difference but for the labels.**  What is
gathered is the union of one copy for each file, up to a bijection of its labels, and no two of the
copies share a blank node; and all that is gathered from the same files, in whatever orders, wherever
the counters stand and whatever the orders of the listings, is the same up to a bijection of the
labels.  There only must be more numbers than nodes, as for all that fits into memory. -/
theorem gathered_alike (h : l.Gathers paths g) (h' : l.Gathers paths' g')
    (hperm : paths.Perm paths') (hroom : g.nodes.length < 2 ^ 64)
    (hroom' : g'.nodes.length < 2 ^ 64) :
    (∃ copies, List.Forall₂ l.Copied paths copies ∧ g.UnionOf copies) ∧ g.Alike g' := by
  obtain ⟨copies, hcopies, hunion⟩ := h.exists_copies hroom
  obtain ⟨copies', hcopies', hunion'⟩ := h'.exists_copies hroom'
  -- the copies of the second run, in the order of the first
  obtain ⟨sorted, hsorted, hperm'⟩ := List.perm_comp_forall₂ hperm hcopies'
  exact ⟨⟨copies, hcopies, hunion⟩,
    hunion.alike (hunion'.perm hperm'.symm) (Copied.forall₂_alike hcopies hsorted)⟩

/-- Two files that share a label.  The second run comes to the second file first; its counter starts
over before the label of that file is merged, stands there again when the shared label is met for the
first file, and is at 41 when the node without a label is. -/
theorem gathered_alike_two :
    let l : FileLoader := { tree := { entries :=
      [(["a.ttl"], .file "_:x <p> [] ."), (["b.ttl"], .file "_:x <p> <o> .")] } }
    let g : Graph :=
      { nodes := [some (.blank "x_2"), some (.blank "ANON1_3"), some (.blank "x_5"), some (.iri "o")]
        triples := [⟨some (.blank "x_2"), "p", some (.blank "ANON1_3")⟩,
          ⟨some (.blank "x_5"), "p", some (.iri "o")⟩] }
    let g' : Graph :=
      { nodes := [some (.blank "x_0"), some (.iri "o"), some (.blank "x_1"), some (.blank "ANON8_42")]
        triples := [⟨some (.blank "x_0"), "p", some (.iri "o")⟩,
          ⟨some (.blank "x_1"), "p", some (.blank "ANON8_42")⟩] }
    l.Gathers ["b.ttl", "a.ttl"] g ∧ l.Gathers ["a.ttl", "b.ttl"] g' ∧
      (∃ copies, List.Forall₂ l.Copied ["b.ttl", "a.ttl"] copies ∧ g.UnionOf copies) ∧ g.Alike g' := by
  intro l g g'
  have hfirst : l.Gathers ["a.ttl"]
      (Graph.empty.add ⟨some (.blank "x_2"), "p", some (.blank "ANON1_3")⟩) := by
    have hload : l.loadFile "a.ttl" {} = (.ok (Graph.empty.add
        ⟨some (.blank "x_1"), "p", some (.blank "ANON1")⟩, 1), { anonymous := 1, labels := 1 }) := by
      decide +kernel
    refine .next (.start true) hload (.refl _) ?_
    have hlists : (Graph.empty.add ⟨some (.blank "x_1"), "p", some (.blank "ANON1")⟩).Lists
        [(some (.blank "x_1"), [⟨"p", some (.blank "ANON1")⟩]), (some (.blank "ANON1"), [])] :=
      ⟨by decide +kernel, by decide +kernel⟩
    convert Graph.mergeAlong_merges hlists { labels := 1 }
    decide +kernel
  have h : l.Gathers ["b.ttl", "a.ttl"] g := by
    have hload : l.loadFile "b.ttl" { anonymous := 1, labels := 3 } = (.ok (Graph.empty.add
        ⟨some (.blank "x_4"), "p", some (.iri "o")⟩, 1), { anonymous := 1, labels := 4 }) := by
      decide +kernel
    refine .next hfirst hload (.refl _) ?_
    have hlists : (Graph.empty.add ⟨some (.blank "x_4"), "p", some (.iri "o")⟩).Lists
        [(some (.blank "x_4"), [⟨"p", some (.iri "o")⟩]), (some (.iri "o"), [])] :=
      ⟨by decide +kernel, by decide +kernel⟩
    convert Graph.mergeAlong_merges hlists { labels := 4 }
    decide +kernel
  have hfirst' : l.Gathers ["b.ttl"] (Graph.empty.add ⟨some (.blank "x_0"), "p", some (.iri "o")⟩) := by
    have hload : l.loadFile "b.ttl" {} = (.ok (Graph.empty.add
        ⟨some (.blank "x_1"), "p", some (.iri "o")⟩, 1), { labels := 1 }) := by
      decide +kernel
    refine .next (.start true) hload (.refl _) ?_
    have hlists : (Graph.empty.add ⟨some (.blank "x_1"), "p", some (.iri "o")⟩).Lists
        (List.map Merging.unpaced [(({ labels := 0 - 1 }, some (.blank "x_1")),
          [({}, ⟨"p", some (.iri "o")⟩)]), (({}, some (.iri "o")), [])]) :=
      ⟨by decide +kernel, by decide +kernel⟩
    convert Graph.Merges.along hlists {}
    decide +kernel
  have h' : l.Gathers ["a.ttl", "b.ttl"] g' := by
    have hload : l.loadFile "a.ttl" { anonymous := 7, labels := 6 } = (.ok (Graph.empty.add
        ⟨some (.blank "x_7"), "p", some (.blank "ANON8")⟩, 1), { anonymous := 8, labels := 7 }) := by
      decide +kernel
    refine .next hfirst' hload (.refl _) ?_
    have hlists : (Graph.empty.add ⟨some (.blank "x_7"), "p", some (.blank "ANON8")⟩).Lists
        (List.map Merging.unpaced [(({ labels := 0 - 1 }, some (.blank "x_7")),
          [({ labels := 41 }, ⟨"p", some (.blank "ANON8")⟩)]), (({}, some (.blank "ANON8")), [])]) :=
      ⟨by decide +kernel, by decide +kernel⟩
    convert Graph.Merges.along hlists {}
    decide +kernel
  exact ⟨h, h', gathered_alike h h' (.swap _ _ []) (by decide) (by decide)⟩

end FileLoader

end TripleStore
