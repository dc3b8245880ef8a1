import ProgramAnalysis.Proofs.Graph.Completeness
import ProgramAnalysis.Proofs.Graph.Edits

/-!
The order that is made of a graph is the least of its orders, and it is missing exactly if there is
a cycle to be found. The vertex placed next is the smallest that is ready, and whatever another
order has in its place is ready as well.
-/

namespace ProgramAnalysis.Graph

open List

variable {graph : Graph} {order : List Nat} {v w : Nat}

theorem Coherent.closed (coherent : graph.Coherent) : graph.Closed :=
  fun _ _ edge => (coherent.ends edge).2

/-! ### Orders of a graph -/

/-- A list has every vertex once, and every edge leads forward in it. -/
structure Arranges (graph : Graph) (order : List Nat) : Prop where
  distinct : order.Nodup
  complete : ∀ v, v ∈ order ↔ graph.hasVertex v = true
  forward : ∀ v w, graph.hasEdge v w = true → order.idxOf v < order.idxOf w

/-- A vertex that is not placed while all its predecessors are. -/
structure Free (graph : Graph) (placed : List Nat) (v : Nat) : Prop where
  isVertex : graph.hasVertex v = true
  unplaced : v ∉ placed
  supported : ∀ u ∈ graph.before v, u ∈ placed

/-- Every place of a list has the least vertex that is free there. -/
def Greedy (graph : Graph) (order : List Nat) : Prop :=
  ∀ front v back, order = front ++ v :: back →
    graph.Free front v ∧ ∀ w, graph.Free front w → v ≤ w

theorem Greedy.concat (greedy : graph.Greedy order) (free : graph.Free order v)
    (least : ∀ w, graph.Free order w → v ≤ w) : graph.Greedy (order ++ [v]) := by
  intro front u back split
  rcases eq_nil_or_concat back with rfl | ⟨between, last, rfl⟩
  · obtain ⟨rfl, same⟩ := append_inj' split rfl
    cases same
    exact ⟨free, least⟩
  · rw [concat_eq_append, ← cons_append, ← append_assoc] at split
    exact greedy front u between (append_inj' split rfl).1

theorem Arranges.free (arranges : graph.Arranges order) (coherent : graph.Coherent)
    (split : order = front ++ v :: back) : graph.Free front v := by
  have apart : v ∉ front := fun earlier =>
    (nodup_append.mp (split ▸ arranges.distinct)).2.2 v earlier v mem_cons_self rfl
  refine ⟨(arranges.complete v).mp (split ▸ mem_append_right _ mem_cons_self), apart,
    fun u mem => ?_⟩
  have sooner := arranges.forward u v (decide_eq_true ((coherent.mirrored u v).mpr mem))
  by_contra absent
  rw [split, idxOf_append_of_notMem absent, idxOf_append_of_notMem apart, idxOf_cons_self] at sooner
  omega

/-- What takes the least free vertex at every place comes before any other order of the graph: at
the first difference the other one has a vertex that was free as well. -/
theorem Greedy.least (greedy : graph.Greedy order) (coherent : graph.Coherent)
    (arranges : graph.Arranges other) : order = other ∨ List.Lex (· < ·) order other := by
  have rest (front back back' : List Nat) (mine : order = front ++ back)
      (theirs : other = front ++ back') : back = back' ∨ List.Lex (· < ·) back back' := by
    induction back generalizing front back' with
    | nil =>
      cases back' with
      | nil => exact .inl rfl
      | cons w back' => exact .inr .nil
    | cons v back ih =>
      obtain ⟨free, least⟩ := greedy front v back mine
      cases back' with
      | nil =>
        have mem := (arranges.complete v).mpr free.isVertex
        rw [theirs, append_nil] at mem
        exact absurd mem free.unplaced
      | cons w back' =>
        rcases Nat.eq_or_lt_of_le (least w (arranges.free coherent theirs)) with rfl | below
        · refine (ih (front ++ [v]) back' (by simp [mine]) (by simp [theirs])).imp ?_ .cons
          exact fun same => by rw [same]
        · exact .inr (.rel below)
  exact rest [] order other rfl rfl

theorem Greedy.forward (greedy : graph.Greedy order) (coherent : graph.Coherent)
    (edge : w ∈ graph.after v) (listed : w ∈ order) : order.idxOf v < order.idxOf w := by
  obtain ⟨front, back, rfl⟩ := append_of_mem listed
  obtain ⟨free, _⟩ := greedy front w back rfl
  have earlier := free.supported v ((coherent.mirrored v w).mp edge)
  rw [idxOf_append_of_mem earlier, idxOf_append_of_notMem free.unplaced]
  exact Nat.lt_of_lt_of_le (idxOf_lt_length_of_mem earlier) (Nat.le_add_right _ _)

theorem Arranges.acyclic (arranges : graph.Arranges order) (v : Nat) :
    ¬ Relation.TransGen (fun u w => graph.hasEdge u w = true) v v := by
  have onward {v w : Nat} (leads : Relation.TransGen (fun u w => graph.hasEdge u w = true) v w) :
      order.idxOf v < order.idxOf w := by
    induction leads with
    | single edge => exact arranges.forward _ _ edge
    | tail _ edge ih => exact Nat.lt_trans ih (arranges.forward _ _ edge)
  exact fun around => Nat.lt_irrefl _ (onward around)

/-! ### Making an order -/

namespace Arrangement

/-- What making an order of a graph passes through: the edges out of the vertex placed last that are
to be settled still, and the arrangement at that moment. -/
inductive Passes (graph : Graph) : List Nat → Arrangement → Prop where
  | start : Passes graph [] (start graph)
  | pick {arrangement : Arrangement} {v : Nat} {others : List Nat} : Passes graph [] arrangement →
      arrangement.ready.toList = v :: others → Passes graph (graph.after v) (arrangement.pick v)
  | settle {arrangement : Arrangement} {v : Nat} {rest : List Nat} :
      Passes graph (v :: rest) arrangement → Passes graph rest (arrangement.settle v)

variable {pending : List Nat} {arrangement : Arrangement}

theorem Passes.settleAll (passes : Passes graph pending arrangement) :
    Passes graph [] (pending.foldl Arrangement.settle arrangement) := by
  induction pending generalizing arrangement with
  | nil => exact passes
  | cons v rest ih => exact ih passes.settle

theorem Passes.rounds (count : Nat) (passes : Passes graph [] arrangement) :
    Passes graph [] (rounds graph count arrangement) := by
  induction count generalizing arrangement with
  | zero => exact passes
  | succ count ih =>
    unfold Arrangement.rounds
    split
    · exact passes
    · next listed => exact ih (passes.pick listed).settleAll

theorem mem_ready_of_toList (listed : arrangement.ready.toList = v :: others) :
    v ∈ arrangement.ready := by
  rw [SortedSet.mem_def, listed]
  exact mem_cons_self

theorem Passes.counted (coherent : graph.Coherent) (passes : Passes graph pending arrangement) :
    Orderly graph arrangement ∧ Counted graph pending arrangement ∧ pending.Nodup ∧
      ∀ w ∈ pending, graph.hasVertex w = true := by
  induction passes with
  | start => exact ⟨orderly_start graph, counted_start graph, .nil, fun _ none => by cases none⟩
  | pick _ listed ih =>
    obtain ⟨orderly, counted, _, _⟩ := ih
    have ready := mem_ready_of_toList listed
    exact ⟨orderly.pick ready, counted.pick coherent (orderly.apart _ ready), nodup_after graph _,
      coherent.closed _⟩
  | settle _ ih =>
    obtain ⟨orderly, counted, distinct, vertices⟩ := ih
    obtain ⟨fresh, distinct⟩ := nodup_cons.mp distinct
    have isVertex := vertices _ mem_cons_self
    exact ⟨orderly.settle isVertex, counted.settle fresh isVertex, distinct,
      fun w mem => vertices w (mem_cons_of_mem _ mem)⟩

theorem Passes.hasVertex_of_awaited {count : Int} (passes : Passes graph pending arrangement)
    (found : arrangement.awaited.get? w = some count) : graph.hasVertex w = true := by
  induction passes generalizing count with
  | start =>
    obtain ⟨sources, isVertex, _⟩ := Option.map_eq_some_iff.mp
      ((get?_awaited graph w).symm.trans found)
    exact hasVertex_iff_incoming.mpr ⟨sources, isVertex⟩
  | pick _ _ ih => exact ih found
  | settle _ ih =>
    unfold Arrangement.settle at found
    split at found
    · exact ih found
    · next v _ had =>
      rw [Table.get?_insert] at found
      split at found
      · next same => exact ih (same ▸ had)
      · exact ih found

theorem Passes.nonneg (coherent : graph.Coherent) (passes : Passes graph pending arrangement)
    {count : Int} (found : arrangement.awaited.get? w = some count) : 0 ≤ count := by
  have counts := (passes.counted coherent).2.1.counts w (passes.hasVertex_of_awaited found)
  rw [found] at counts
  cases counts
  split <;> omega

/-- With nothing left to settle, the ready vertices are the free ones. -/
theorem Passes.mem_ready_iff (coherent : graph.Coherent) (passes : Passes graph [] arrangement) :
    v ∈ arrangement.ready ↔ graph.Free arrangement.placed v := by
  obtain ⟨orderly, counted, _⟩ := passes.counted coherent
  have supported : missing graph arrangement.placed v = 0 ↔
      ∀ u ∈ graph.before v, u ∈ arrangement.placed := by
    rw [missing, countP_eq_zero]
    simp
  constructor
  · intro ready
    have isVertex := orderly.vertices v (.inr ready)
    refine ⟨isVertex, orderly.apart v ready, supported.mp ?_⟩
    obtain ⟨count, small, found⟩ := orderly.settled v (.inr ready)
    rw [counted.counts v isVertex] at found
    cases found
    simp only [not_mem_nil, if_false] at small
    omega
  · intro free
    exact counted.free v free.isVertex not_mem_nil free.unplaced (supported.mpr free.supported)

theorem placed_settle (arrangement : Arrangement) (v : Nat) :
    (arrangement.settle v).placed = arrangement.placed := placed_settleAll [v] arrangement

theorem Passes.greedy (coherent : graph.Coherent) (passes : Passes graph pending arrangement) :
    graph.Greedy arrangement.placed := by
  induction passes with
  | start =>
    exact fun front v back split =>
      absurd (append_eq_nil_iff.mp split.symm).2 (cons_ne_nil v back)
  | @pick arrangement v others earlier listed ih =>
    refine ih.concat ((earlier.mem_ready_iff coherent).mp (mem_ready_of_toList listed)) ?_
    intro w free
    have ready := (earlier.mem_ready_iff coherent).mpr free
    have ascending := arrangement.ready.ascending
    rw [SortedSet.mem_def, listed] at ready
    rw [listed] at ascending
    rcases mem_cons.mp ready with rfl | later
    · exact Nat.le_refl _
    · exact Nat.le_of_lt (Nat.compare_eq_lt.mp (rel_of_pairwise_cons ascending later))
  | settle _ ih => rwa [placed_settle]

end Arrangement

section Made

variable (coherent : graph.Coherent) (made : graph.topologicalOrder = .ok order)
include coherent made

theorem greedy_topologicalOrder : graph.Greedy order := by
  unfold topologicalOrder at made
  dsimp only at made
  split at made
  · cases made
    exact (Arrangement.Passes.start.rounds graph.size).greedy coherent
  · cases made

theorem arranges_topologicalOrder : graph.Arranges order := by
  have complete := mem_topologicalOrder coherent.closed made
  refine ⟨(topologicalOrder_perm coherent.closed made).nodup_iff.mpr coherent.distinct, complete,
    fun v w edge => ?_⟩
  have edge := of_decide_eq_true edge
  exact (greedy_topologicalOrder coherent made).forward coherent edge
    ((complete w).mpr (coherent.closed v w edge))

end Made

theorem findCycle?_eq_none_iff (coherent : graph.Coherent) :
    graph.findCycle? = none ↔ ∃ order, graph.topologicalOrder = .ok order := by
  constructor
  · exact fun none => exists_topologicalOrder coherent coherent.closed (wellFounded_after none)
  · rintro ⟨order, made⟩
    have acyclic := (arranges_topologicalOrder coherent made).acyclic
    simp only [hasEdge, decide_eq_true_iff] at acyclic
    exact findCycle?_eq_none.mpr acyclic

/-! ### Graphs however they were built -/

/-- Whatever edits a graph is made by, it has an order exactly if no vertex leads back to itself.
The order has every vertex once, every edge leads forward in it, and it is the least of all lists of
which this holds. While it is made, no counter is below zero. -/
theorem topologicalOrder_canonical (edits : List Edit) :
    let graph := build edits
    ((∃ order, graph.topologicalOrder = .ok order) ↔
      ∀ v, ¬ Relation.TransGen (fun u w => graph.hasEdge u w = true) v v) ∧
    (∀ order, graph.topologicalOrder = .ok order →
      graph.Arranges order ∧
        ∀ other, graph.Arranges other → order = other ∨ List.Lex (· < ·) order other) ∧
    (∀ count, Arrangement.Passes graph [] (.rounds graph count (.start graph))) ∧
    ∀ pending arrangement, Arrangement.Passes graph pending arrangement →
      ∀ v count, arrangement.awaited.get? v = some count → 0 ≤ count := by
  intro graph
  have coherent : graph.Coherent := coherent_build edits
  refine ⟨?_, fun order made => ?_, fun count => Arrangement.Passes.start.rounds count,
    fun _ _ passes _ _ found => passes.nonneg coherent found⟩
  · rw [← findCycle?_eq_none_iff coherent, findCycle?_eq_none]
    simp only [hasEdge, decide_eq_true_iff]
  · exact ⟨arranges_topologicalOrder coherent made, fun other arranges =>
      (greedy_topologicalOrder coherent made).least coherent arranges⟩

/-- Whatever edits a graph is made by, a cycle is found exactly if some vertex leads back to itself,
which is exactly if there is no order. What is found has at least two entries, ends where it starts
and meets no vertex twice before that, and every entry has an edge to the next. -/
theorem findCycle_exact (edits : List Edit) :
    let graph := build edits
    (graph.findCycle? = none ↔
      ∀ v, ¬ Relation.TransGen (fun u w => graph.hasEdge u w = true) v v) ∧
    (∀ cycle, graph.findCycle? = some cycle →
      2 ≤ cycle.length ∧ cycle.head? = cycle.getLast? ∧ cycle.dropLast.Nodup ∧
        cycle.IsChain fun u w => graph.hasEdge u w = true) ∧
    (graph.findCycle? = none ↔ ∃ order, graph.topologicalOrder = .ok order) := by
  intro graph
  simp only [hasEdge, decide_eq_true_iff]
  refine ⟨findCycle?_eq_none, fun cycle found => ?_, findCycle?_eq_none_iff (coherent_build edits)⟩
  obtain ⟨⟨⟨v, between, rfl⟩, chain⟩, simple⟩ := simple_of_cycle found
  exact ⟨by simp, List.getLast?_concat.symm, simple, chain⟩

end ProgramAnalysis.Graph
