import ProgramAnalysis.Proofs.Graph.Canonical
import ProgramAnalysis.Proofs.Registration

/-!
The dependents of a task are exactly the tasks that it feeds, directly or not, in an order in which
they can run. Registration keeps a graph whose edges are the feeding declarations and which has no
cycle; what is reached from a vertex is the transitive closure of its edges, and the dependents are
this part of the order of the whole graph.
-/

namespace ProgramAnalysis

open List

theorem reachable_after_iff {graph : Graph} : Reachable graph.after (graph.after v) w ↔
      Relation.TransGen (fun a b => b ∈ graph.after a) v w := by
  constructor
  · intro reached
    induction reached with
    | start edge => exact .single edge
    | step _ edge ih => exact .tail ih edge
  · intro leads
    induction leads with
    | single edge => exact .start edge
    | tail _ edge ih => exact .step ih edge

/-- Leaving out others does not change which of two entries is first. -/
theorem idxOf_filter_lt {l : List Nat} (keepU : keep u = true) (keepW : keep w = true)
    (sooner : l.idxOf u < l.idxOf w) : (l.filter keep).idxOf u < (l.filter keep).idxOf w := by
  induction l with
  | nil => exact absurd sooner (Nat.lt_irrefl _)
  | cons a l ih =>
    by_cases atU : a = u
    · subst atU
      have other : a ≠ w := by
        rintro rfl
        exact Nat.lt_irrefl _ sooner
      rw [filter_cons_of_pos keepU, idxOf_cons_self, idxOf_cons_ne _ other]
      exact Nat.succ_pos _
    · have atW : a ≠ w := by
        rintro rfl
        rw [idxOf_cons_self] at sooner
        exact Nat.not_lt_zero _ sooner
      rw [idxOf_cons_ne _ atU, idxOf_cons_ne _ atW] at sooner
      have later := ih (Nat.lt_of_succ_lt_succ sooner)
      by_cases kept : keep a = true
      · rw [filter_cons_of_pos kept, idxOf_cons_ne _ atU, idxOf_cons_ne _ atW]
        exact Nat.succ_lt_succ later
      · rwa [filter_cons_of_neg kept]

namespace Schedule

variable {τ : Type} {schedule : Schedule τ}

theorem Consistent.feedsAt_eq (consistent : schedule.Consistent) :
    FeedsAt schedule.declarations = fun a b => b ∈ schedule.graph.after a := by
  funext a b
  rw [consistent.edges, feedsAt_declarations]

/-- Dependents are found for every task, in the order made of the whole graph. -/
theorem Consistent.exists_dependents (consistent : schedule.Consistent)
    (registered : i < schedule.slots.length) :
    ∃ reached order, schedule.graph.Arranges order ∧
      schedule.dependents i = .ok (order.filter (· ∈ (reached : SortedSet Nat))) := by
  obtain ⟨targets, known⟩ := Graph.exists_successors
    ((consistent.vertices i).mpr (length_declarations schedule ▸ registered))
  obtain ⟨order, made⟩ :=
    Graph.exists_topologicalOrder consistent.coherent consistent.closed consistent.acyclic
  exact ⟨_, order, Graph.arranges_topologicalOrder consistent.coherent made,
    except_bind_eq_ok.mpr ⟨_, except_bind_eq_ok.mpr ⟨targets, known, rfl⟩,
      except_bind_eq_ok.mpr ⟨order, made, rfl⟩⟩⟩

/-- Whatever tasks were offered, the dependents of a registered one are found, and are listed
without repetition. They are exactly the other tasks at the end of a chain in which each task makes
something that the next one needs, and a task comes before those that need something it makes. -/
theorem dependents_exact {τ : Type} (offered : List (Declaration × τ)) (i : Nat)
    (registered : i < (registerAll offered).slots.length) :
    let declared := (registerAll offered).declarations
    ∃ found, (registerAll offered).dependents i = .ok found ∧ found.Nodup ∧
      (∀ j, j ∈ found ↔ j ≠ i ∧ Relation.TransGen (FeedsAt declared) i j) ∧
      ∀ u ∈ found, ∀ w ∈ found, FeedsAt declared u w → found.idxOf u < found.idxOf w := by
  intro declared
  have consistent := consistent_registerAll offered
  obtain ⟨reached, order, arranges, answered⟩ := consistent.exists_dependents registered
  refine ⟨_, answered, arranges.distinct.filter _, fun j => ?_, fun u listed w listed' feeds => ?_⟩
  · rw [mem_dependents consistent answered, reachable_after_iff, consistent.feedsAt_eq,
      iff_and_self]
    rintro leads rfl
    exact Graph.not_transGen_self consistent.acyclic j leads
  · rw [consistent.feedsAt_eq] at feeds
    exact idxOf_filter_lt (List.mem_filter.mp listed).2 (List.mem_filter.mp listed').2
      (arranges.forward u w (decide_eq_true feeds))

/-- Two tasks use what a first one makes, a task registered before them all uses both, and one task
stands apart. -/
theorem dependents_exact_shared :
    let offered : List (Declaration × Unit) :=
      [(⟨"report", ["calls", "types"], []⟩, ()), (⟨"calls", ["facts"], ["calls"]⟩, ()),
        (⟨"facts", [], ["facts"]⟩, ()), (⟨"types", ["facts"], ["types"]⟩, ()),
        (⟨"trace", [], ["trace"]⟩, ())]
    2 < (registerAll offered).slots.length ∧ (registerAll offered).dependents 2 = .ok [1, 3, 0] ∧
      ∀ j ∈ [1, 3, 0], Relation.TransGen (FeedsAt (registerAll offered).declarations) 2 j := by
  intro offered
  have registered : 2 < (registerAll offered).slots.length := by decide +kernel
  have answered : (registerAll offered).dependents 2 = .ok [1, 3, 0] := by decide +kernel
  obtain ⟨found, same, _, exactly, _⟩ := dependents_exact offered 2 registered
  cases answered.symm.trans same
  exact ⟨registered, answered, fun j listed => ((exactly j).mp listed).2⟩

end Schedule

end ProgramAnalysis
