import ProgramAnalysis.Graph
import ProgramAnalysis.Proofs.Step
import ProgramAnalysis.Proofs.Table

/-!
What building does to a graph: which vertices and edges there are when a vertex, an edge or several
were added, seen from both ends of edges, and when adding succeeds.
-/

namespace ProgramAnalysis.Graph

open Table

variable {graph built : Graph} {v w : Nat}

/-! ### Tables of edges -/

theorem hasVertex_iff_outgoing :
    graph.hasVertex v = true ↔ ∃ targets, graph.outgoing.get? v = some targets := by
  rw [hasVertex, contains, ← mem_keys_iff, ← graph.keys_outgoing, mem_keys_iff,
    Option.isSome_iff_exists]

theorem hasVertex_iff_incoming :
    graph.hasVertex v = true ↔ ∃ sources, graph.incoming.get? v = some sources := by
  rw [hasVertex, contains, ← mem_keys_iff, ← graph.keys_incoming, mem_keys_iff,
    Option.isSome_iff_exists]

theorem exists_successors (isVertex : graph.hasVertex v = true) :
    ∃ targets, graph.successors v = .ok targets := by
  obtain ⟨targets, found⟩ := hasVertex_iff_outgoing.mp isVertex
  exact ⟨targets, by rw [successors, endsOf, found]⟩

theorem get?_eq_none (missing : graph.hasVertex v = false) :
    graph.outgoing.get? v = none ∧ graph.incoming.get? v = none := by
  constructor
  · rw [Option.eq_none_iff_forall_ne_some]
    exact fun ends found => Bool.eq_false_iff.mp missing (hasVertex_iff_outgoing.mpr ⟨ends, found⟩)
  · rw [Option.eq_none_iff_forall_ne_some]
    exact fun ends found => Bool.eq_false_iff.mp missing (hasVertex_iff_incoming.mpr ⟨ends, found⟩)

theorem mem_after : w ∈ graph.after v ↔ w ∈ (graph.outgoing.get? v).getD .empty := Iff.rfl

theorem mem_before : v ∈ graph.before w ↔ v ∈ (graph.incoming.get? w).getD .empty := Iff.rfl

theorem mem_after_iff :
    w ∈ graph.after v ↔ ∃ targets, graph.successors v = .ok targets ∧ w ∈ targets := by
  rw [mem_after, successors, endsOf]
  cases graph.outgoing.get? v with
  | none => simp [SortedSet.empty, SortedSet.mem_def]
  | some targets => simp

theorem mem_before_iff :
    v ∈ graph.before w ↔ ∃ sources, graph.predecessors w = .ok sources ∧ v ∈ sources := by
  rw [mem_before, predecessors, endsOf]
  cases graph.incoming.get? w with
  | none => simp [SortedSet.empty, SortedSet.mem_def]
  | some sources => simp

theorem hasVertex_of_after (edge : w ∈ graph.after v) : graph.hasVertex v = true := by
  cases known : graph.hasVertex v with
  | true => rfl
  | false =>
    rw [mem_after, (get?_eq_none known).1] at edge
    cases edge

theorem hasVertex_of_before (edge : v ∈ graph.before w) : graph.hasVertex w = true := by
  cases known : graph.hasVertex w with
  | true => rfl
  | false =>
    rw [mem_before, (get?_eq_none known).2] at edge
    cases edge

/-! ### Adding a vertex -/

section Vertex

variable {label : String} (inserted : graph.insertVertex v label = .ok built)
include inserted

theorem insertVertex_eq_ok :
    graph.hasVertex v = false ∧ built.labels = graph.labels.insert v label ∧
      built.outgoing = graph.outgoing.insert v .empty ∧
      built.incoming = graph.incoming.insert v .empty := by
  unfold insertVertex at inserted
  split at inserted
  · cases inserted
  · next fresh =>
    cases inserted
    exact ⟨Bool.eq_false_iff.mpr fresh, rfl, rfl, rfl⟩

theorem hasVertex_insertVertex (w : Nat) :
    built.hasVertex w = true ↔ w = v ∨ graph.hasVertex w = true := by
  rw [hasVertex, contains, (insertVertex_eq_ok inserted).2.1, get?_insert]
  split
  · next same => simp [same]
  · next other => simp [Ne.symm other, hasVertex, contains]

theorem mem_after_insertVertex (u w : Nat) : w ∈ built.after u ↔ w ∈ graph.after u := by
  obtain ⟨fresh, _, outgoing, _⟩ := insertVertex_eq_ok inserted
  rw [mem_after, mem_after, outgoing, get?_insert]
  split
  · next same => rw [← same, (get?_eq_none fresh).1, Option.getD_some, Option.getD_none]
  · rfl

theorem mem_before_insertVertex (u w : Nat) : u ∈ built.before w ↔ u ∈ graph.before w := by
  obtain ⟨fresh, _, _, incoming⟩ := insertVertex_eq_ok inserted
  rw [mem_before, mem_before, incoming, get?_insert]
  split
  · next same => rw [← same, (get?_eq_none fresh).2, Option.getD_some, Option.getD_none]
  · rfl

end Vertex

/-! ### Adding edges -/

variable {source target : Nat}

theorem insertEdge_of_hasVertex (isSource : graph.hasVertex source = true)
    (isTarget : graph.hasVertex target = true) :
    ∃ built, graph.insertEdge source target = .ok built := by
  unfold insertEdge
  rw [dif_pos isSource, dif_pos isTarget]
  exact ⟨_, rfl⟩

section Edge

variable (inserted : graph.insertEdge source target = .ok built)
include inserted

theorem insertEdge_eq_ok :
    graph.hasVertex source = true ∧ graph.hasVertex target = true ∧ built.labels = graph.labels ∧
      built.outgoing = graph.outgoing.update source .empty (·.insert target) ∧
      built.incoming = graph.incoming.update target .empty (·.insert source) := by
  unfold insertEdge at inserted
  split at inserted
  · next isSource =>
    split at inserted
    · next isTarget =>
      cases inserted
      exact ⟨isSource, isTarget, rfl, rfl, rfl⟩
    · cases inserted
  · cases inserted

theorem mem_after_insertEdge (u w : Nat) :
    w ∈ built.after u ↔ w ∈ graph.after u ∨ (u = source ∧ w = target) := by
  rw [mem_after, (insertEdge_eq_ok inserted).2.2.2.1]
  exact mem_getD_update

theorem mem_before_insertEdge (u w : Nat) :
    u ∈ built.before w ↔ u ∈ graph.before w ∨ (w = target ∧ u = source) := by
  rw [mem_before, (insertEdge_eq_ok inserted).2.2.2.2]
  exact mem_getD_update

end Edge

variable {edges : List (Nat × Nat)}

theorem insertEdges_of_hasVertex
    (inside : ∀ edge ∈ edges, graph.hasVertex edge.1 = true ∧ graph.hasVertex edge.2 = true) :
    ∃ built, edges.foldlM (fun graph edge => graph.insertEdge edge.1 edge.2) graph = .ok built := by
  induction edges generalizing graph with
  | nil => exact ⟨graph, rfl⟩
  | cons edge rest ih =>
    obtain ⟨isSource, isTarget⟩ := inside edge List.mem_cons_self
    obtain ⟨extended, first⟩ := insertEdge_of_hasVertex isSource isTarget
    rw [List.foldlM_cons, first]
    refine ih fun other mem => ?_
    rw [hasVertex, hasVertex, (insertEdge_eq_ok first).2.2.1]
    exact inside other (List.mem_cons_of_mem edge mem)

theorem insertEdges_eq_ok
    (inserted : edges.foldlM (fun graph edge => graph.insertEdge edge.1 edge.2) graph = .ok built) :
    (∀ w, built.hasVertex w = graph.hasVertex w) ∧
      ∀ u w, w ∈ built.after u ↔ w ∈ graph.after u ∨ (u, w) ∈ edges := by
  induction edges generalizing graph with
  | nil =>
    cases inserted
    simp
  | cons edge rest ih =>
    rw [List.foldlM_cons] at inserted
    obtain ⟨extended, first, inserted⟩ := except_bind_eq_ok.mp inserted
    obtain ⟨vertices, edges⟩ := ih inserted
    refine ⟨fun w => ?_, fun u w => ?_⟩
    · rw [vertices, hasVertex, hasVertex, (insertEdge_eq_ok first).2.2.1]
    · rw [edges, mem_after_insertEdge first, or_assoc, List.mem_cons, Prod.ext_iff]

end ProgramAnalysis.Graph
