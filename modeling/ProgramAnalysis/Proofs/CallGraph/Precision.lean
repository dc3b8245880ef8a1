import ProgramAnalysis.Proofs.CallGraph.Build

/-!
Keeping more call sites refines a call graph and loses nothing. Cutting contexts to the smaller
bound commutes with calling. So it takes each node and each call of the larger graph to one of the
smaller, and nothing in the smaller graph is missed.
-/

namespace ProgramAnalysis

open List Context

/-! ### Cutting contexts -/

namespace Context

theorem truncate_epsilon (k : Nat) : truncate k epsilon = epsilon := take_nil

theorem truncate_push {k k' : Nat} (le : k ≤ k') (site : InstId) (context : Context) :
    truncate k (push k' site context) = push k site (truncate k context) := by
  cases k with
  | zero => rfl
  | succ k =>
    rw [truncate, push, push, truncate, take_take, Nat.min_eq_left le, take_succ_cons,
      take_succ_cons, take_take, Nat.min_eq_left (Nat.le_succ k)]

theorem push_zero (site : InstId) (context : Context) : push 0 site context = epsilon := rfl

end Context

/-- A node or site with only the most recent sites of its context. -/
def InContext.truncate (k : Nat) (node : InContext) : InContext :=
  ⟨node.context.truncate k, node.handle⟩

namespace CallGraph

/-- A call with both contexts cut. -/
def truncateCall (k : Nat) (call : Call) : Call :=
  ⟨call.site.truncate k, call.callee.truncate k⟩

/-- The nodes and the calls of one graph are those of another with every context cut to its `k`
most recent sites. -/
structure IsTruncation (k : Nat) (coarse fine : CallGraph) : Prop where
  nodes : ∀ context method, ⟨context, method⟩ ∈ coarse.nodes ↔
    ∃ longer : Context, ⟨longer, method⟩ ∈ fine.nodes ∧ longer.truncate k = context
  calls : ∀ context site context' method,
    coarse.mayCall ⟨context, site⟩ ⟨context', method⟩ = true ↔
      ∃ longer longer' : Context, longer.truncate k = context ∧ longer'.truncate k = context' ∧
        fine.mayCall ⟨longer, site⟩ ⟨longer', method⟩ = true

variable {k k' : Nat} (plain : PlainCallGraph) (receivers : Receivers)

/-! ### Cutting commutes with calling -/

theorem calleeContexts_truncate (le : k ≤ k') (site : InContext) (callee : MethodId) :
    calleeContexts plain (.callSite k) receivers (site.truncate k) callee =
      (calleeContexts plain (.callSite k') receivers site callee).map (truncate k) := by
  unfold calleeContexts
  split
  · rw [map_singleton, truncate_epsilon]
  · show [push k site.handle (site.context.truncate k)] = _
    rw [map_singleton, truncate_push le]

theorem callsOf_truncate (le : k ≤ k') (node : InContext) :
    callsOf plain (.callSite k) receivers (node.truncate k) =
      (callsOf plain (.callSite k') receivers node).map (truncateCall k) := by
  unfold callsOf
  rw [map_flatMap]
  refine congrArg (fun f => List.flatMap f (plain.sitesOf node.handle)) (funext fun i => ?_)
  show (plain.targetsOf i).flatMap _ = ((plain.targetsOf i).flatMap _).map (truncateCall k)
  rw [map_flatMap]
  refine congrArg (fun f => List.flatMap f (plain.targetsOf i)) (funext fun callee => ?_)
  have contexts := calleeContexts_truncate plain receivers le ⟨node.context, i⟩ callee
  rw [InContext.truncate] at contexts
  rw [InContext.truncate, contexts, map_map, map_map]
  rfl

theorem calleesOf_truncate (le : k ≤ k') (node : InContext) :
    calleesOf plain (.callSite k) receivers (node.truncate k) =
      (calleesOf plain (.callSite k') receivers node).map (InContext.truncate k) := by
  rw [calleesOf, calleesOf, callsOf_truncate plain receivers le, map_map, map_map]
  rfl

theorem rootNodes_truncate (k : Nat) :
    rootNodes plain = (rootNodes plain).map (InContext.truncate k) := by
  rw [rootNodes, map_map]
  refine congrArg (fun f => List.map f plain.roots) (funext fun root => ?_)
  rw [Function.comp_apply, InContext.truncate, truncate_epsilon]

/-! ### Cutting whole graphs -/

theorem mem_nodes_truncate (le : k ≤ k') (node : InContext) :
    node ∈ (build plain (.callSite k) receivers).nodes ↔
      ∃ longer ∈ (build plain (.callSite k') receivers).nodes, longer.truncate k = node := by
  rw [mem_nodes_build, reachable_map_iff (rootNodes_truncate plain k)
    (calleesOf_truncate plain receivers le)]
  refine exists_congr fun longer => and_congr_left fun _ => ?_
  exact mem_nodes_build.symm

theorem mem_calls_truncate (le : k ≤ k') (call : Call) :
    call ∈ (build plain (.callSite k) receivers).calls ↔
      ∃ longer ∈ (build plain (.callSite k') receivers).calls, truncateCall k longer = call := by
  rw [mem_calls_build]
  constructor
  · rintro ⟨node, mem, made⟩
    obtain ⟨longer, reached, rfl⟩ := (mem_nodes_truncate plain receivers le node).mp mem
    rw [callsOf_truncate plain receivers le] at made
    obtain ⟨longerCall, makes, rfl⟩ := mem_map.mp made
    exact ⟨longerCall, mem_calls_build.mpr ⟨longer, reached, makes⟩, rfl⟩
  · rintro ⟨longerCall, made, rfl⟩
    obtain ⟨longer, reached, makes⟩ := mem_calls_build.mp made
    refine ⟨longer.truncate k,
      (mem_nodes_truncate plain receivers le _).mpr ⟨longer, reached, rfl⟩, ?_⟩
    rw [callsOf_truncate plain receivers le]
    exact mem_map_of_mem makes

theorem build_isTruncation (le : k ≤ k') :
    IsTruncation k (build plain (.callSite k) receivers)
      (build plain (.callSite k') receivers) where
  nodes := by
    intro context method
    rw [mem_nodes_truncate plain receivers le]
    constructor
    · rintro ⟨⟨longer, handle⟩, reached, same⟩
      obtain ⟨rfl, rfl⟩ := InContext.mk.inj same
      exact ⟨longer, reached, rfl⟩
    · rintro ⟨longer, reached, rfl⟩
      exact ⟨⟨longer, method⟩, reached, rfl⟩
  calls := by
    intro context site context' method
    simp only [mayCall, decide_eq_true_iff]
    rw [mem_calls_truncate plain receivers le]
    constructor
    · rintro ⟨⟨⟨longer, i⟩, longer', m⟩, made, same⟩
      obtain ⟨sites, callees⟩ := Call.mk.inj same
      obtain ⟨rfl, rfl⟩ := InContext.mk.inj sites
      obtain ⟨rfl, rfl⟩ := InContext.mk.inj callees
      exact ⟨longer, longer', rfl, rfl, made⟩
    · rintro ⟨longer, longer', rfl, rfl, made⟩
      exact ⟨_, made, rfl⟩

theorem build_callSite_zero :
    build plain (.callSite 0) receivers = build plain .insensitive receivers := by
  have contexts : calleeContexts plain (.callSite 0) receivers =
      calleeContexts plain .insensitive receivers := by
    funext site callee
    rw [calleeContexts, calleeContexts, push_zero]
  refine build_congr rfl (funext fun node => ?_)
  rw [callsOf, callsOf, contexts]

/-- Every method that is reached keeping `k'` sites is reached keeping `k`, and the other way
round, whichever of the two is larger. -/
theorem reaches_method_iff (k k' : Nat) (method : MethodId) :
    (∃ context, ⟨context, method⟩ ∈ (build plain (.callSite k) receivers).nodes) ↔
      ∃ context, ⟨context, method⟩ ∈ (build plain (.callSite k') receivers).nodes := by
  have insensitive (bound : Nat) :
      (∃ context, ⟨context, method⟩ ∈ (build plain (.callSite bound) receivers).nodes) ↔
        ∃ context, ⟨context, method⟩ ∈ (build plain (.callSite 0) receivers).nodes := by
    have cut := (build_isTruncation plain receivers (Nat.zero_le bound)).nodes
    constructor
    · rintro ⟨context, reached⟩
      exact ⟨_, (cut _ method).mpr ⟨context, reached, rfl⟩⟩
    · rintro ⟨context, reached⟩
      obtain ⟨longer, found, _⟩ := (cut context method).mp reached
      exact ⟨longer, found⟩
  rw [insensitive k, insensitive k']

/-- Call-site sensitivity with a larger bound refines the one with a smaller bound and loses
nothing: cutting the contexts of the larger graph gives the smaller one, node by node and call by
call. Bound zero is the insensitive graph, and the methods reached do not depend on the bound. -/
theorem callSite_refines {k k' : Nat} (plain : PlainCallGraph) (receivers : Receivers)
    (le : k ≤ k') :
    IsTruncation k (build plain (.callSite k) receivers)
        (build plain (.callSite k') receivers) ∧
      build plain (.callSite 0) receivers = build plain .insensitive receivers ∧
      ∀ j j' method,
        (∃ context, ⟨context, method⟩ ∈ (build plain (.callSite j) receivers).nodes) ↔
          ∃ context, ⟨context, method⟩ ∈ (build plain (.callSite j') receivers).nodes :=
  ⟨build_isTruncation plain receivers le, build_callSite_zero plain receivers,
    reaches_method_iff plain receivers⟩

/-- A method that calls itself, entered through two sites of the root. -/
theorem callSite_refines_recursive :
    1 ≤ 3 ∧ IsTruncation 1
      (build ((((PlainCallGraph.ofRoots [0]).addCall 0 1 1).addCall 0 2 1).addCall 1 3 1)
        (.callSite 1) .empty)
      (build ((((PlainCallGraph.ofRoots [0]).addCall 0 1 1).addCall 0 2 1).addCall 1 3 1)
        (.callSite 3) .empty) :=
  ⟨by decide, (callSite_refines _ .empty (by decide)).1⟩

end CallGraph

end ProgramAnalysis
