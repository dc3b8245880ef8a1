import Mathlib.Data.Finset.Card
import ProgramAnalysis.Proofs.Graph.Ordering
import ProgramAnalysis.Proofs.Graph.Removal

/-!
Graphs without a cycle are ordered completely. What is counted for a vertex are the predecessors
that are not placed (`Counted`). Of the vertices that are left, one of least rank has none of these,
and is ready.
-/

namespace ProgramAnalysis

open List Table

theorem SortedSet.nodup_toList (s : SortedSet Nat) : s.toList.Nodup :=
  s.ascending.imp fun {a b} less same => by
    subst same
    rw [Nat.compare_eq_lt] at less
    exact Nat.lt_irrefl a less

namespace Graph

variable {graph : Graph} {v w : Nat}

/-! ### Ranks -/

open Classical in
/-- How many vertices lead to a vertex. -/
noncomputable def rank (graph : Graph) (v : Nat) : Nat :=
  (graph.ordered.toFinset.filter fun u =>
    Relation.TransGen (fun a b => b ∈ graph.after a) u v).card

theorem rank_lt_rank (acyclic : WellFounded graph.Follows) (edge : w ∈ graph.after v) :
    graph.rank v < graph.rank w := by
  classical
  refine Finset.card_lt_card (Finset.ssubset_iff_subset_ne.mpr ⟨fun u mem => ?_, fun same => ?_⟩)
  · rw [Finset.mem_filter] at mem ⊢
    exact ⟨mem.1, mem.2.tail edge⟩
  · have mem : v ∈ graph.ordered.toFinset.filter fun u =>
        Relation.TransGen (fun a b => b ∈ graph.after a) u w := by
      rw [Finset.mem_filter, mem_toFinset, mem_ordered_iff]
      exact ⟨hasVertex_of_after edge, .single edge⟩
    rw [← same, Finset.mem_filter] at mem
    exact not_transGen_self acyclic v mem.2

theorem rank_lt_of_vertices (acyclic : WellFounded graph.Follows)
    (vertices : ∀ v, graph.hasVertex v = true ↔ v < bound) (inside : v < bound) :
    graph.rank v < bound := by
  classical
  rw [← Finset.card_range bound]
  refine Finset.card_lt_card (Finset.ssubset_iff_subset_ne.mpr ⟨fun u mem => ?_, fun same => ?_⟩)
  · rw [Finset.mem_filter, mem_toFinset, mem_ordered_iff, vertices] at mem
    exact Finset.mem_range.mpr mem.1
  · have mem := Finset.mem_range.mpr inside
    rw [← same, Finset.mem_filter] at mem
    exact not_transGen_self acyclic v mem.2

/-! ### Counting what is awaited -/

namespace Arrangement

/-- How many of the predecessors of a vertex are not placed. -/
def missing (graph : Graph) (placed : List Nat) (w : Nat) : Nat :=
  (graph.before w).countP (· ∉ placed)

/-- What is awaited for a vertex are the predecessors that are not placed, and one more if it is to
be settled still. A vertex is ready once that is none. -/
structure Counted (graph : Graph) (pending : List Nat) (arrangement : Arrangement) : Prop where
  counts : ∀ w, graph.hasVertex w = true → arrangement.awaited.get? w =
    some ((missing graph arrangement.placed w : Int) + if w ∈ pending then 1 else 0)
  free : ∀ w, graph.hasVertex w = true → w ∉ pending → w ∉ arrangement.placed →
    missing graph arrangement.placed w = 0 → w ∈ arrangement.ready

theorem counted_start (graph : Graph) : Counted graph [] (start graph) where
  counts w isVertex := by
    obtain ⟨sources, found⟩ := hasVertex_iff_incoming.mp isVertex
    have counts := get?_awaited graph w
    rw [found] at counts
    refine counts.trans ?_
    have all : missing graph [] w = sources.size := by
      rw [missing, before, found]
      exact countP_eq_length.mpr fun _ _ => decide_eq_true not_mem_nil
    show some _ = some ((missing graph [] w : Int) + _)
    rw [all, if_neg not_mem_nil, Int.add_zero]
  free w isVertex _ _ none := by
    refine SortedSet.mem_ofList.mpr (mem_filter.mpr ⟨mem_ordered_iff.mpr isVertex, ?_⟩)
    rw [List.isEmpty_iff, eq_nil_iff_forall_not_mem]
    exact fun u mem => countP_eq_zero.mp none u mem (decide_eq_true not_mem_nil)

variable {arrangement : Arrangement}

theorem Counted.settle (counted : Counted graph (v :: rest) arrangement) (fresh : v ∉ rest)
    (isVertex : graph.hasVertex v = true) : Counted graph rest (arrangement.settle v) := by
  have found := counted.counts v isVertex
  rw [if_pos mem_cons_self] at found
  unfold Arrangement.settle
  rw [found]
  dsimp only
  constructor
  · intro w isVertex'
    dsimp only
    rw [get?_insert]
    split
    · next same =>
      subst same
      rw [if_neg fresh]
      congr 1
      omega
    · next other => rw [counted.counts w isVertex']; simp [Ne.symm other]
  · intro w isVertex' settled unplaced none
    dsimp only at unplaced none ⊢
    by_cases same : w = v
    · subst same
      rw [none, if_pos (by simp)]
      exact SortedSet.mem_insert.mpr (.inl rfl)
    · have ready := counted.free w isVertex' (by simp [same, settled]) unplaced none
      split
      · exact SortedSet.mem_insert.mpr (.inr ready)
      · exact ready

theorem placed_settleAll (others : List Nat) (arrangement : Arrangement) :
    (others.foldl Arrangement.settle arrangement).placed = arrangement.placed := by
  induction others generalizing arrangement with
  | nil => rfl
  | cons w rest ih =>
    rw [foldl_cons, ih, Arrangement.settle]
    split <;> rfl

theorem Counted.settleAll (counted : Counted graph others arrangement) (distinct : others.Nodup)
    (areVertices : ∀ w ∈ others, graph.hasVertex w = true) :
    Counted graph [] (others.foldl Arrangement.settle arrangement) := by
  induction others generalizing arrangement with
  | nil => exact counted
  | cons w rest ih =>
    obtain ⟨fresh, distinct⟩ := nodup_cons.mp distinct
    exact ih (counted.settle fresh (areVertices w mem_cons_self)) distinct
      fun u mem => areVertices u (mem_cons_of_mem w mem)

theorem nodup_before (graph : Graph) (w : Nat) : (graph.before w).Nodup := by
  exact SortedSet.nodup_toList _

theorem nodup_after (graph : Graph) (v : Nat) : (graph.after v).Nodup := by
  exact SortedSet.nodup_toList _

/-- Placing a vertex leaves one predecessor less to be placed for those it leads to. -/
theorem missing_concat (coherent : graph.Coherent) {placed : List Nat} (unplaced : v ∉ placed)
    (w : Nat) : missing graph placed w =
      missing graph (placed ++ [v]) w + if w ∈ graph.after v then 1 else 0 := by
  simp only [coherent.mirrored v w, missing]
  have distinct := nodup_before graph w
  generalize graph.before w = predecessors at distinct
  induction predecessors with
  | nil => rfl
  | cons u rest ih =>
    obtain ⟨fresh, distinct⟩ := nodup_cons.mp distinct
    have others := ih distinct
    by_cases same : u = v
    · subst same
      rw [if_neg fresh] at others
      rw [countP_cons, others, countP_cons]
      simp [unplaced]
    · have unmoved : (u ∈ placed ++ [v]) = (u ∈ placed) := by simp [same]
      simp only [countP_cons, unmoved, others, mem_cons, Ne.symm same, false_or]
      omega

theorem Counted.pick (coherent : graph.Coherent) (counted : Counted graph [] arrangement)
    (unplaced : v ∉ arrangement.placed) :
    Counted graph (graph.after v) (arrangement.pick v) := by
  refine ⟨fun w isVertex => ?_, fun w isVertex apart waiting none => ?_⟩
  · show arrangement.awaited.get? w = some ((missing graph (arrangement.placed ++ [v]) w : Int) + _)
    rw [counted.counts w isVertex, missing_concat coherent unplaced w, if_neg not_mem_nil,
      Int.add_zero]
    congr 1
    split <;> simp
  · change w ∉ arrangement.placed ++ [v] at waiting
    rw [mem_append, not_or, mem_singleton] at waiting
    have ready := counted.free w isVertex not_mem_nil waiting.1 (by
      rw [missing_concat coherent unplaced w, if_neg apart]
      exact none)
    exact SortedSet.mem_filter.mpr ⟨ready, decide_eq_true waiting.2⟩

theorem Counted.place (coherent : graph.Coherent) (closed : graph.Closed)
    (counted : Counted graph [] arrangement) (unplaced : v ∉ arrangement.placed) :
    Counted graph [] (place graph arrangement v) :=
  (counted.pick coherent unplaced).settleAll (nodup_after graph v) (closed v)

/-- Rounds end with everything counted, and there were as many as asked for unless nothing was left
to place. -/
theorem Counted.rounds (coherent : graph.Coherent) (closed : graph.Closed) (count : Nat)
    (counted : Counted graph [] arrangement) (orderly : Orderly graph arrangement) :
    let last := Arrangement.rounds graph count arrangement
    Counted graph [] last ∧
      (last.ready.toList = [] ∨ last.placed.length = arrangement.placed.length + count) := by
  induction count generalizing arrangement with
  | zero => exact ⟨counted, .inr rfl⟩
  | succ count ih =>
    unfold Arrangement.rounds
    split
    · next none => exact ⟨counted, .inl none⟩
    · next v rest listed =>
      have ready : v ∈ arrangement.ready := by
        rw [SortedSet.mem_def, listed]
        exact mem_cons_self
      obtain ⟨still, ended⟩ := ih
        (counted.place coherent closed (orderly.apart v ready)) (orderly.place ready (closed v))
      refine ⟨still, ended.imp_right fun placed => ?_⟩
      rw [placed, Arrangement.place, placed_settleAll, length_append, length_singleton,
        Nat.add_assoc, Nat.add_comm 1]

theorem Counted.all_placed (coherent : graph.Coherent) (acyclic : WellFounded graph.Follows)
    (counted : Counted graph [] arrangement) (stuck : arrangement.ready.toList = [])
    (isVertex : graph.hasVertex w = true) :
    w ∈ arrangement.placed := by
  induction rank : graph.rank w using Nat.strongRecOn generalizing w with
  | ind lower ih =>
    by_contra unplaced
    have none : missing graph arrangement.placed w = 0 := by
      refine countP_eq_zero.mpr fun u mem => ?_
      have edge := (coherent.mirrored u w).mpr mem
      have placed := ih _ (rank ▸ rank_lt_rank acyclic edge) (hasVertex_of_after edge) rfl
      simp [placed]
    have ready := counted.free w isVertex not_mem_nil unplaced none
    rw [SortedSet.mem_def, stuck] at ready
    cases ready

end Arrangement

theorem exists_topologicalOrder (coherent : graph.Coherent) (closed : graph.Closed)
    (acyclic : WellFounded graph.Follows) : ∃ order, graph.topologicalOrder = .ok order := by
  let last := Arrangement.rounds graph graph.size (.start graph)
  obtain ⟨counted, ended⟩ := (Arrangement.counted_start graph).rounds coherent closed graph.size
    (Arrangement.orderly_start graph)
  have orderly := (Arrangement.orderly_start graph).rounds closed graph.size
  have size : graph.labels.keys.length = graph.size := length_map _
  have full : last.placed.length = graph.size := by
    rcases ended with stuck | placed
    · have among : last.placed ⊆ graph.labels.keys := fun v placed =>
        mem_keys_iff.mpr (orderly.vertices v (.inl placed))
      have all : graph.labels.keys ⊆ last.placed := fun v mem =>
        counted.all_placed coherent acyclic stuck (mem_keys_iff.mp mem)
      rw [← size]
      exact Nat.le_antisymm (subperm_of_subset orderly.distinct among).length_le
        (subperm_of_subset coherent.distinct all).length_le
    · exact placed.trans (Nat.zero_add _)
  exact ⟨last.placed, if_pos full⟩

end Graph

end ProgramAnalysis
