import ProgramAnalysis.Proofs.Graph.Canonical

/-!
The tables of a graph never disagree, whatever edits it is made by. One table of edges is the other
turned round, and neither mentions what is no vertex, so that no search meets a vertex without an
entry.
-/

namespace ProgramAnalysis.Graph

open List

variable {graph : Graph}

/-! ### What is looked up -/

theorem Coherent.mem_targets (coherent : graph.Coherent) (target : w ∈ graph.targets) :
    graph.hasVertex w = true := by
  obtain ⟨ends, listed, mem⟩ := mem_flatMap.mp target
  obtain ⟨⟨v, _⟩, entry, rfl⟩ := mem_map.mp listed
  have found := (Table.mem_entries_iff (graph.keys_outgoing ▸ coherent.distinct)).mp entry
  refine (coherent.ends (u := v) ?_).2
  rw [after, found]
  exact mem

theorem Coherent.mem_known (coherent : graph.Coherent) (known : v ∈ graph.known) :
    graph.hasVertex v = true :=
  (mem_append.mp known).elim mem_ordered_iff.mp coherent.mem_targets

theorem Coherent.mem_reachable (coherent : graph.Coherent)
    (answered : graph.reachable v = .ok reached) (mem : w ∈ reached) :
    graph.hasVertex w = true := by
  cases (Graph.mem_reachable answered).mp mem with
  | start edge | step _ edge => exact coherent.closed _ _ edge

/-! ### Edits that fail -/

/-- A new vertex must be new, and what else is mentioned must be a vertex. -/
def Edit.Applies (graph : Graph) : Edit → Prop
  | insertVertex v _ => graph.hasVertex v = false
  | insertEdge source target => graph.hasVertex source = true ∧ graph.hasVertex target = true
  | remove v => graph.hasVertex v = true

theorem edit_eq_ok_iff (edit : Edit) :
    (∃ built, graph.edit edit = .ok built) ↔ edit.Applies graph := by
  constructor
  · rintro ⟨built, done⟩
    cases edit with
    | insertVertex v label => exact (insertVertex_eq_ok done).1
    | insertEdge source target => exact ⟨(insertEdge_eq_ok done).1, (insertEdge_eq_ok done).2.1⟩
    | remove v =>
      by_contra missing
      cases done.symm.trans (if_neg missing)
  · intro applies
    cases edit with
    | insertVertex v label => exact ⟨_, if_neg (Bool.eq_false_iff.mp applies)⟩
    | insertEdge source target => exact insertEdge_of_hasVertex applies.1 applies.2
    | remove v => exact exists_remove applies

theorem build_concat (edits : List Edit) (edit : Edit) :
    build (edits ++ [edit]) = ((build edits).edit edit).toOption.getD (build edits) :=
  foldl_append

/-! ### Adding and removing a vertex -/

/-- Edges that are added where possible are some of the edges, all added. -/
theorem exists_drawn (edges : List (Nat × Nat)) (graph : Graph) :
    ∃ drawn ⊆ edges, drawn.foldlM (fun graph edge => graph.insertEdge edge.1 edge.2) graph =
      .ok ((edges.map fun edge => Edit.insertEdge edge.1 edge.2).foldl
        (fun graph edit => (graph.edit edit).toOption.getD graph) graph) := by
  induction edges generalizing graph with
  | nil => exact ⟨[], Subset.refl _, rfl⟩
  | cons edge rest ih =>
    cases first : graph.insertEdge edge.1 edge.2 with
    | error fault =>
      obtain ⟨drawn, among, same⟩ := ih graph
      refine ⟨drawn, subset_cons_of_subset edge among, same.trans ?_⟩
      rw [map_cons, foldl_cons, edit, first]
      rfl
    | ok extended =>
      obtain ⟨drawn, among, same⟩ := ih extended
      refine ⟨edge :: drawn, cons_subset_cons edge among, ?_⟩
      rw [foldlM_cons, first, map_cons, foldl_cons, edit, first]
      exact same

theorem build_remove {edits : List Edit} {v : Nat} (fresh : (build edits).hasVertex v = false)
    (label : String) {edges : List (Nat × Nat)}
    (touching : ∀ edge ∈ edges, edge.1 = v ∨ edge.2 = v) :
    build (edits ++ .insertVertex v label ::
      (edges.map fun edge => .insertEdge edge.1 edge.2) ++ [.remove v]) = build edits := by
  obtain ⟨withVertex, vertex⟩ : ∃ built, (build edits).insertVertex v label = .ok built :=
    (edit_eq_ok_iff (.insertVertex v label)).mpr fresh
  obtain ⟨drawn, among, inserted⟩ := exists_drawn edges withVertex
  have removed := remove_insertEdges (coherent_build edits) vertex
    (fun edge mem => touching edge (among mem)) inserted
  have grown : build (edits ++ .insertVertex v label ::
      edges.map fun edge => .insertEdge edge.1 edge.2) =
      (edges.map fun edge => Edit.insertEdge edge.1 edge.2).foldl
        (fun graph edit => (graph.edit edit).toOption.getD graph) withVertex := by
    rw [build, foldl_append, foldl_cons, ← build, edit, vertex]
    rfl
  rw [build_concat, grown, edit, removed]
  rfl

/-- Whatever edits a graph is made by, its three tables have the same keys, a vertex is among the
successors of another exactly if that other is among its predecessors, and both ends of an edge are
vertices. So every vertex that is met when what can be reached, a cycle or an order is looked for
has its entry. An edit fails exactly if it does not apply, and then changes nothing; and adding a
vertex with any edges that touch it and removing it again leaves the graph as it was. -/
theorem tables_agree (edits : List Edit) :
    let graph := build edits
    (graph.outgoing.keys = graph.labels.keys ∧ graph.incoming.keys = graph.labels.keys) ∧
    (∀ v w, (∃ targets, graph.successors v = .ok targets ∧ w ∈ targets) ↔
      ∃ sources, graph.predecessors w = .ok sources ∧ v ∈ sources) ∧
    (∀ v w, graph.hasEdge v w = true → graph.hasVertex v = true ∧ graph.hasVertex w = true) ∧
    (∀ w, (∃ v reached, graph.reachable v = .ok reached ∧ w ∈ reached) ∨ w ∈ graph.known ∨
        (∃ pending arrangement, Arrangement.Passes graph pending arrangement ∧
          w ∈ arrangement.ready) →
      ∃ targets, graph.successors w = .ok targets) ∧
    (∀ edit : Edit, (∃ built, graph.edit edit = .ok built) ↔ edit.Applies graph) ∧
    (∀ edit : Edit, ¬ edit.Applies graph → build (edits ++ [edit]) = graph) ∧
    ∀ v label, graph.hasVertex v = false → ∀ edges : List (Nat × Nat),
      (∀ edge ∈ edges, edge.1 = v ∨ edge.2 = v) →
        build (edits ++ .insertVertex v label ::
          (edges.map fun edge => .insertEdge edge.1 edge.2) ++ [.remove v]) = graph := by
  intro graph
  have coherent : graph.Coherent := coherent_build edits
  refine ⟨⟨graph.keys_outgoing, graph.keys_incoming⟩, fun v w => ?_,
    fun v w edge => coherent.ends (of_decide_eq_true edge), fun w met => exists_successors ?_,
    edit_eq_ok_iff, fun edit inapplicable => ?_,
    fun v label fresh edges => build_remove fresh label⟩
  · rw [← mem_after_iff, ← mem_before_iff, coherent.mirrored]
  · rcases met with ⟨v, reached, answered, mem⟩ | known | ⟨pending, arrangement, passes, ready⟩
    · exact coherent.mem_reachable answered mem
    · exact coherent.mem_known known
    · exact (passes.counted coherent).1.vertices w (.inr ready)
  · rw [build_concat]
    cases done : (build edits).edit edit with
    | error fault => rfl
    | ok built => exact absurd ((edit_eq_ok_iff edit).mp ⟨built, done⟩) inapplicable

end ProgramAnalysis.Graph
