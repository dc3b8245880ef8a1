import ProgramAnalysis.CallGraph.Build
import ProgramAnalysis.Proofs.Reachability

/-!
What a built call graph holds: the nodes that the roots reach and the calls that are made there. It
depends on the roots and on these calls only (`build_congr`).
-/

namespace ProgramAnalysis.CallGraph

open List

variable {plain : PlainCallGraph} {policy : ContextPolicy} {receivers : Receivers}

theorem mem_nodes_build : node ∈ (build plain policy receivers).nodes ↔
      Reachable (calleesOf plain policy receivers) (rootNodes plain) node := by
  rw [← Reachability.mem_closure (confined_calleesOf plain policy receivers) (rootNodes plain)
    fun _ => possible_of_root]
  exact SortedSet.mem_ofList

theorem mem_callsOf : call ∈ callsOf plain policy receivers node ↔
      call.site.context = node.context ∧ call.site.handle ∈ plain.sitesOf node.handle ∧
        call.callee.handle ∈ plain.targetsOf call.site.handle ∧
        call.callee.context ∈ calleeContexts plain policy receivers
          call.site call.callee.handle := by
  constructor
  · intro made
    obtain ⟨i, atSite, made⟩ := mem_flatMap.mp made
    obtain ⟨method, target, made⟩ := mem_flatMap.mp made
    obtain ⟨context, given, rfl⟩ := mem_map.mp made
    exact ⟨rfl, atSite, target, given⟩
  · obtain ⟨⟨before, i⟩, context, method⟩ := call
    rintro ⟨rfl, atSite, target, given⟩
    exact mem_flatMap.mpr ⟨i, atSite, mem_flatMap.mpr ⟨method, target,
      mem_map.mpr ⟨context, given, rfl⟩⟩⟩

theorem mem_calleesOf : callee ∈ calleesOf plain policy receivers node ↔
      ∃ i ∈ plain.sitesOf node.handle, callee.handle ∈ plain.targetsOf i ∧
        callee.context ∈ calleeContexts plain policy receivers ⟨node.context, i⟩ callee.handle := by
  unfold calleesOf
  rw [mem_map]
  constructor
  · rintro ⟨⟨site, _⟩, made, rfl⟩
    obtain ⟨same, atSite, target, given⟩ := mem_callsOf.mp made
    obtain ⟨context, i⟩ := site
    cases same
    exact ⟨i, atSite, target, given⟩
  · rintro ⟨i, atSite, target, given⟩
    exact ⟨⟨⟨node.context, i⟩, callee⟩, mem_callsOf.mpr ⟨rfl, atSite, target, given⟩, rfl⟩

theorem calleeContexts_callSite (k : Nat) (site : InContext) (callee : MethodId) :
    calleeContexts plain (.callSite k) receivers site callee =
      [if plain.isInsensitive callee then .epsilon else .push k site.handle site.context] := by
  unfold calleeContexts
  split <;> rfl

theorem mem_contexts {graph : CallGraph} :
    context ∈ graph.contexts m ↔ ⟨context, m⟩ ∈ graph.nodes := by
  unfold contexts
  rw [SortedSet.mem_ofList, mem_map]
  constructor
  · rintro ⟨⟨_, _⟩, kept, rfl⟩
    obtain ⟨mem, same⟩ := mem_filter.mp kept
    cases of_decide_eq_true same
    exact mem
  · intro mem
    exact ⟨⟨context, m⟩, mem_filter.mpr ⟨mem, decide_eq_true rfl⟩, rfl⟩

theorem mem_calls_build : call ∈ (build plain policy receivers).calls ↔
      ∃ node ∈ (build plain policy receivers).nodes,
        call ∈ callsOf plain policy receivers node := by
  show call ∈ (reached plain policy receivers).flatMap _ ↔ _
  rw [mem_flatMap]
  refine exists_congr fun node => and_congr_left fun _ => ?_
  exact SortedSet.mem_ofList.symm

/-- Plain graphs with the same roots and policies that make the same calls build the same graph. -/
theorem build_congr {plain' : PlainCallGraph} (roots : plain.roots = plain'.roots)
    (calls : callsOf plain policy receivers = callsOf plain' policy' receivers') :
    build plain policy receivers = build plain' policy' receivers' := by
  have starts : rootNodes plain = rootNodes plain' := by
    rw [rootNodes, rootNodes, roots]
  have callees : calleesOf plain policy receivers = calleesOf plain' policy' receivers' := by
    funext node
    rw [calleesOf, calleesOf, calls]
  have nodes : reached plain policy receivers = reached plain' policy' receivers' :=
    Reachability.closure_congr _ _ _ _ callees starts
  rw [build, build, nodes, calls, starts]

end ProgramAnalysis.CallGraph
