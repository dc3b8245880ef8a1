import ProgramAnalysis.Proofs.Graph.Cycles
import Mathlib.Data.List.Perm.Subperm

/-!
An order that is made covers the whole graph. Nothing is awaited for a vertex that is placed or
ready (`Orderly`), and there is an order only if as many were placed as there are.
-/

namespace ProgramAnalysis

open SortedSet List Table

theorem Table.get?_mapValues {κ β γ : Type} [DecidableEq κ] (f : β → γ) (entries : List (κ × β))
    (key : κ) :
    (Table.mk (entries.map fun entry => (entry.1, f entry.2))).get? key =
      ((Table.mk entries).get? key).map f := by
  show find key (entries.map fun entry => (entry.1, f entry.2)) = (find key entries).map f
  induction entries with
  | nil => rfl
  | cons entry rest ih =>
    obtain ⟨k, value⟩ := entry
    rw [map_cons, find, find]
    split
    · rfl
    · exact ih

namespace Graph

variable {graph : Graph}

variable {v : Nat}

namespace Arrangement

/-- The arrangement with a ready vertex placed and the edges out of it not settled yet. -/
def pick (arrangement : Arrangement) (v : Nat) : Arrangement :=
  { arrangement with
    placed := arrangement.placed ++ [v]
    ready := arrangement.ready.filter (· ≠ v) }

/-- What holds of an order being made: no vertex is placed twice, ready vertices are not placed, and
nothing is awaited for a vertex that is ready or placed. -/
structure Orderly (graph : Graph) (arrangement : Arrangement) : Prop where
  distinct : arrangement.placed.Nodup
  apart : ∀ v ∈ arrangement.ready, v ∉ arrangement.placed
  vertices : ∀ v, v ∈ arrangement.placed ∨ v ∈ arrangement.ready → graph.hasVertex v = true
  settled : ∀ v, v ∈ arrangement.placed ∨ v ∈ arrangement.ready →
    ∃ count ≤ 0, arrangement.awaited.get? v = some count

theorem get?_awaited (graph : Graph) (v : Nat) : (start graph).awaited.get? v =
    (graph.incoming.get? v).map fun sources => (sources.size : Int) :=
  get?_mapValues (fun sources : SortedSet Nat => (sources.size : Int)) graph.incoming.entries v

theorem orderly_start (graph : Graph) : Orderly graph (start graph) := by
  have ready (v : Nat) (mem : v ∈ (start graph).ready) :
      graph.hasVertex v = true ∧ graph.before v = [] := by
    obtain ⟨listed, alone⟩ := List.mem_filter.mp (mem_ofList.mp mem)
    exact ⟨mem_ordered_iff.mp listed, List.isEmpty_iff.mp alone⟩
  refine ⟨nodup_nil, fun v _ none => (nomatch none), fun v mem => ?_, fun v mem => ?_⟩
  · exact (ready v (mem.resolve_left fun none => nomatch none)).1
  · obtain ⟨isVertex, alone⟩ := ready v (mem.resolve_left fun none => nomatch none)
    obtain ⟨sources, found⟩ := hasVertex_iff_incoming.mp isVertex
    rw [before, found] at alone
    have none : sources.toList = [] := alone
    refine ⟨sources.size, ?_, ?_⟩
    · rw [SortedSet.size, none]
      exact le_refl _
    · exact (get?_awaited graph v).trans (by rw [found]; rfl)

variable {arrangement : Arrangement}

/-- One step: a vertex stops waiting for one of its predecessors. -/
theorem Orderly.settle (orderly : Orderly graph arrangement) (isVertex : graph.hasVertex v = true) :
    Orderly graph (arrangement.settle v) := by
  unfold Arrangement.settle
  split
  · exact orderly
  · next count found =>
    have counted (w : Nat) (least : Int) (small : least ≤ 0)
        (had : arrangement.awaited.get? w = some least) :
        ∃ now ≤ 0, (arrangement.awaited.insert v (count - 1)).get? w = some now := by
      rw [get?_insert]
      split
      · next same =>
        subst same
        rw [found] at had
        cases had
        exact ⟨count - 1, by omega, rfl⟩
      · exact ⟨least, small, had⟩
    by_cases last : count = 1
    · have unplaced : v ∉ arrangement.placed := by
        intro placed
        obtain ⟨least, small, had⟩ := orderly.settled v (.inl placed)
        rw [found] at had
        cases had
        omega
      simp only [last, if_true]
      refine ⟨orderly.distinct, fun w mem => ?_, fun w mem => ?_, fun w mem => ?_⟩
      · rcases mem_insert.mp mem with rfl | earlier
        · exact unplaced
        · exact orderly.apart w earlier
      · rcases mem with placed | mem
        · exact orderly.vertices w (.inl placed)
        · rcases mem_insert.mp mem with rfl | earlier
          · exact isVertex
          · exact orderly.vertices w (.inr earlier)
      · subst last
        rcases mem with placed | mem
        · obtain ⟨least, small, had⟩ := orderly.settled w (.inl placed)
          exact counted w least small had
        · rcases mem_insert.mp mem with rfl | earlier
          · exact ⟨0, le_refl _, by rw [get?_insert, if_pos rfl]; rfl⟩
          · obtain ⟨least, small, had⟩ := orderly.settled w (.inr earlier)
            exact counted w least small had
    · simp only [last, if_false]
      refine ⟨orderly.distinct, orderly.apart, orderly.vertices, fun w mem => ?_⟩
      obtain ⟨least, small, had⟩ := orderly.settled w mem
      exact counted w least small had

theorem Orderly.settleAll (orderly : Orderly graph arrangement) {others : List Nat}
    (areVertices : ∀ v ∈ others, graph.hasVertex v = true) :
    Orderly graph (others.foldl Arrangement.settle arrangement) := by
  induction others generalizing arrangement with
  | nil => exact orderly
  | cons v rest ih =>
    rw [foldl_cons]
    exact ih (orderly.settle (areVertices v mem_cons_self))
      fun w mem => areVertices w (mem_cons_of_mem v mem)

theorem Orderly.pick (orderly : Orderly graph arrangement) (ready : v ∈ arrangement.ready) :
    Orderly graph (arrangement.pick v) := by
  refine ⟨?_, fun w mem => ?_, fun w mem => ?_, fun w mem => ?_⟩
  · exact nodup_append.mpr ⟨orderly.distinct, by simp, fun a placed b last => by
      rcases mem_singleton.mp last with rfl
      exact fun same => orderly.apart b ready (same ▸ placed)⟩
  · obtain ⟨wasReady, other⟩ := List.mem_filter.mp mem
    intro placed
    rcases mem_append.mp placed with earlier | last
    · exact orderly.apart w wasReady earlier
    · exact absurd (mem_singleton.mp last) (by simpa using other)
  all_goals
    have before : w ∈ arrangement.placed ∨ w ∈ arrangement.ready := by
      rcases mem with placed | mem
      · rcases mem_append.mp placed with earlier | last
        · exact .inl earlier
        · exact .inr (mem_singleton.mp last ▸ ready)
      · exact .inr (List.mem_filter.mp mem).1
  · exact orderly.vertices w before
  · exact orderly.settled w before

theorem Orderly.place (orderly : Orderly graph arrangement) (ready : v ∈ arrangement.ready)
    (closed : ∀ w ∈ graph.after v, graph.hasVertex w = true) :
    Orderly graph (place graph arrangement v) := (orderly.pick ready).settleAll closed

theorem Orderly.rounds (closed : ∀ v w, w ∈ graph.after v → graph.hasVertex w = true) (count : Nat)
    (orderly : Orderly graph arrangement) :
    Orderly graph (rounds graph count arrangement) := by
  induction count generalizing arrangement with
  | zero => exact orderly
  | succ count ih =>
    unfold Arrangement.rounds
    split
    · exact orderly
    · next v rest listed =>
      have ready : v ∈ arrangement.ready := by
        rw [mem_def, listed]
        exact mem_cons_self
      exact ih (orderly.place ready (closed v))

end Arrangement

/-- Every edge ends at a vertex. -/
def Closed (graph : Graph) : Prop := ∀ v w, w ∈ graph.after v → graph.hasVertex w = true

variable {order : List Nat}

/-- An order that is made lists every vertex, and each of them once. -/
theorem topologicalOrder_perm (closed : graph.Closed) (made : graph.topologicalOrder = .ok order) :
    order.Perm graph.labels.keys := by
  unfold topologicalOrder at made
  have orderly := (Arrangement.orderly_start graph).rounds closed graph.size
  dsimp only at made
  split at made
  · next full =>
    cases made
    have among : (Arrangement.rounds graph graph.size (.start graph)).placed ⊆
        graph.labels.keys := by
      intro v placed
      exact mem_keys_iff.mpr (orderly.vertices v (.inl placed))
    refine (subperm_of_subset orderly.distinct among).perm_of_length_le ?_
    rw [full, Table.keys, length_map]
    exact le_refl _
  · cases made

theorem mem_topologicalOrder (closed : graph.Closed) (made : graph.topologicalOrder = .ok order)
    (v : Nat) :
    v ∈ order ↔ graph.hasVertex v = true := by
  rw [(topologicalOrder_perm closed made).mem_iff, mem_keys_iff]
  rfl

/-! ### What is reached from a vertex -/

theorem mem_reachable (answered : graph.reachable v = .ok reached) :
    w ∈ reached ↔ Reachable graph.after (graph.after v) w := by
  unfold reachable at answered
  cases found : graph.successors v with
  | error fault => simp [found, bind, Except.bind] at answered
  | ok targets =>
    simp only [found, bind, Except.bind, pure, Except.pure, Except.ok.injEq] at answered
    rw [← answered, mem_ofList]
    exact Reachability.mem_closure graph.confined_after (graph.after v) _ w

end Graph

end ProgramAnalysis
