import ProgramAnalysis.Proofs.Graph.Building

/-!
Taking a vertex out again. A vertex keeps its edges from both ends, and the two ends agree
(`Coherent`). So removing it finds all of its edges, and removing what was added with any edges
gives the graph that was there before.
-/

namespace ProgramAnalysis

open SortedSet

/-- Tables of sets with the same keys and the same members are equal. -/
theorem Table.ext_of_mem {table other : Table Nat (SortedSet Nat)} (distinct : table.keys.Nodup)
    (keys : table.keys = other.keys) (members : ∀ key a,
      a ∈ (table.get? key).getD .empty ↔ a ∈ (other.get? key).getD .empty) : table = other := by
  refine ext_of_get? distinct keys fun key => ?_
  have known : (table.get? key).isSome ↔ (other.get? key).isSome := by
    rw [← mem_keys_iff, ← mem_keys_iff, keys]
  have same := SortedSet.ext (members key)
  cases here : table.get? key <;> cases there : other.get? key <;> simp_all

namespace Graph

variable {graph built : Graph} {v : Nat}

/-- Vertices are different, and an edge is known at both its ends. -/
structure Coherent (graph : Graph) : Prop where
  distinct : graph.labels.keys.Nodup
  mirrored : ∀ v w, w ∈ graph.after v ↔ v ∈ graph.before w

theorem coherent_empty : empty.Coherent := by
  refine ⟨List.nodup_nil, fun v w => ?_⟩
  exact iff_of_false nofun nofun

theorem Coherent.ends (coherent : graph.Coherent) {u w : Nat} (edge : w ∈ graph.after u) :
    graph.hasVertex u = true ∧ graph.hasVertex w = true :=
  ⟨hasVertex_of_after edge, hasVertex_of_before ((coherent.mirrored u w).mp edge)⟩

/-! ### Building keeps ends in agreement -/

variable {label : String}

theorem Coherent.insertVertex (coherent : graph.Coherent)
    (inserted : graph.insertVertex v label = .ok built) : built.Coherent := by
  refine ⟨?_, fun u w => ?_⟩
  · rw [(insertVertex_eq_ok inserted).2.1]
    exact Table.nodup_keys_insert coherent.distinct
  · rw [mem_after_insertVertex inserted, mem_before_insertVertex inserted, coherent.mirrored]

variable {source target : Nat}

theorem Coherent.insertEdge (coherent : graph.Coherent)
    (inserted : graph.insertEdge source target = .ok built) : built.Coherent := by
  refine ⟨?_, fun v w => ?_⟩
  · rw [(insertEdge_eq_ok inserted).2.2.1]
    exact coherent.distinct
  · rw [mem_after_insertEdge inserted, mem_before_insertEdge inserted, coherent.mirrored,
      and_comm (a := v = source)]

variable {edges : List (Nat × Nat)}

theorem Coherent.insertEdges (coherent : graph.Coherent)
    (inserted : edges.foldlM (fun graph edge => graph.insertEdge edge.1 edge.2) graph = .ok built) :
    built.Coherent ∧ built.labels = graph.labels := by
  induction edges generalizing graph with
  | nil =>
    cases inserted
    exact ⟨coherent, rfl⟩
  | cons edge rest ih =>
    rw [List.foldlM_cons] at inserted
    obtain ⟨extended, first, inserted⟩ := except_bind_eq_ok.mp inserted
    obtain ⟨coherent', labels⟩ := ih (coherent.insertEdge first) inserted
    exact ⟨coherent', labels.trans (insertEdge_eq_ok first).2.2.1⟩

/-! ### Removing -/

/-- Taking a vertex off some others takes it off nothing else. -/
theorem mem_detach (v : Nat) (others : List Nat) (edges : Table Nat (SortedSet Nat)) (w a : Nat) :
    a ∈ ((detach v others edges).get? w).getD .empty ↔
      a ∈ (edges.get? w).getD .empty ∧ ¬ (w ∈ others ∧ a = v) := by
  induction others generalizing edges with
  | nil => simp [detach]
  | cons other rest ih =>
    have first : a ∈ ((edges.adjust other (·.filter (· ≠ v))).get? w).getD .empty ↔
        a ∈ (edges.get? w).getD .empty ∧ ¬ (w = other ∧ a = v) := by
      rw [Table.get?_adjust]
      split
      · next here =>
        subst here
        cases edges.get? other with
        | none => simp [SortedSet.empty, mem_def]
        | some ends => simp
      · next elsewhere => simp [Ne.symm elsewhere]
    show a ∈ ((detach v rest (edges.adjust other _)).get? w).getD .empty ↔ _
    rw [ih, first, List.mem_cons, and_assoc, or_and_right, not_or]

theorem exists_remove (isVertex : graph.hasVertex v = true) :
    ∃ rest, graph.remove v = .ok rest := by
  unfold remove
  rw [if_pos isVertex]
  exact ⟨_, rfl⟩

section Removing

variable (coherent : graph.Coherent) (removed : graph.remove v = .ok built)
include removed

theorem remove_eq_ok : built.labels = graph.labels.erase v ∧
    built.incoming = (detach v (graph.after v) graph.incoming).erase v ∧
    built.outgoing = detach v
      (((detach v (graph.after v) graph.incoming).get? v).getD .empty).toList
      (graph.outgoing.erase v) := by
  unfold remove at removed
  split at removed
  · cases removed
    exact ⟨rfl, rfl, rfl⟩
  · cases removed

include coherent

theorem mem_before_remove (u w : Nat) :
    u ∈ built.before w ↔ u ∈ graph.before w ∧ u ≠ v ∧ w ≠ v := by
  rw [mem_before, (remove_eq_ok removed).2.1, Table.get?_erase]
  split
  · next here => simp [here, SortedSet.empty, mem_def]
  · next other =>
    rw [mem_detach, ← mem_before, ← coherent.mirrored]
    constructor
    · rintro ⟨edge, kept⟩
      exact ⟨edge, fun same => kept ⟨same ▸ edge, same⟩, Ne.symm other⟩
    · rintro ⟨edge, apart, _⟩
      exact ⟨edge, fun gone => apart gone.2⟩

theorem mem_after_remove (u w : Nat) : w ∈ built.after u ↔ w ∈ graph.after u ∧ u ≠ v ∧ w ≠ v := by
  rw [mem_after, (remove_eq_ok removed).2.2, mem_detach, Table.get?_erase]
  split
  · next here => simp [here, SortedSet.empty, mem_def]
  · next other =>
    rw [← mem_after]
    constructor
    · rintro ⟨edge, kept⟩
      refine ⟨edge, Ne.symm other, fun same => kept ⟨?_, same⟩⟩
      -- The source is among those that are told, for it is not the vertex itself.
      rw [← mem_def, mem_detach]
      exact ⟨(coherent.mirrored u v).mp (same ▸ edge), fun loop => other loop.2.symm⟩
    · rintro ⟨edge, _, apart⟩
      exact ⟨edge, fun gone => apart gone.2⟩

theorem Coherent.remove : built.Coherent := by
  refine ⟨?_, fun u w => ?_⟩
  · rw [(remove_eq_ok removed).1]
    exact Table.nodup_keys_erase coherent.distinct
  · rw [mem_after_remove coherent removed, mem_before_remove coherent removed, coherent.mirrored]

end Removing

/-! ### Removing what was added -/

theorem Coherent.ext {other : Graph} (coherent : graph.Coherent) (coherent' : other.Coherent)
    (labels : graph.labels = other.labels) (edges : ∀ u w, w ∈ graph.after u ↔ w ∈ other.after u) :
    graph = other := by
  have outgoing : graph.outgoing = other.outgoing := by
    refine Table.ext_of_mem (graph.keys_outgoing ▸ coherent.distinct) ?_ edges
    rw [graph.keys_outgoing, other.keys_outgoing, labels]
  have incoming : graph.incoming = other.incoming := by
    refine Table.ext_of_mem (graph.keys_incoming ▸ coherent.distinct) ?_ fun w u => ?_
    · rw [graph.keys_incoming, other.keys_incoming, labels]
    · exact (coherent.mirrored u w).symm.trans ((edges u w).trans (coherent'.mirrored u w))
  cases graph
  cases other
  cases labels
  cases outgoing
  cases incoming
  rfl

/-- A vertex that was added with edges that touch it is removed without a trace. -/
theorem remove_insertEdges (coherent : graph.Coherent) {withVertex : Graph}
    (vertex : graph.insertVertex v label = .ok withVertex)
    (touching : ∀ edge ∈ edges, edge.1 = v ∨ edge.2 = v)
    (inserted : edges.foldlM (fun graph edge => graph.insertEdge edge.1 edge.2) withVertex =
      .ok built) : built.remove v = .ok graph := by
  obtain ⟨fresh, labels, _⟩ := insertVertex_eq_ok vertex
  obtain ⟨coherentBuilt, sameLabels⟩ := (coherent.insertVertex vertex).insertEdges inserted
  have isVertex : built.hasVertex v = true := by
    rw [(insertEdges_eq_ok inserted).1, hasVertex_insertVertex vertex]
    exact .inl rfl
  obtain ⟨rest, removed⟩ := exists_remove isVertex
  rw [removed]
  refine congrArg Except.ok ((coherentBuilt.remove removed).ext coherent ?_ fun u w => ?_)
  · have unknown : v ∉ graph.labels.keys := fun known =>
      Bool.eq_false_iff.mp fresh (Table.mem_keys_iff.mp known)
    rw [(remove_eq_ok removed).1, sameLabels, labels]
    exact Table.erase_insert unknown
  · rw [mem_after_remove coherentBuilt removed, (insertEdges_eq_ok inserted).2,
      mem_after_insertVertex vertex]
    constructor
    · rintro ⟨old | new, notSource, notTarget⟩
      · exact old
      · exact absurd (touching _ new) (not_or.mpr ⟨notSource, notTarget⟩)
    · intro old
      obtain ⟨isSource, isTarget⟩ := coherent.ends old
      exact ⟨.inl old, fun same => Bool.eq_false_iff.mp fresh (same ▸ isSource),
        fun same => Bool.eq_false_iff.mp fresh (same ▸ isTarget)⟩

end Graph

end ProgramAnalysis
