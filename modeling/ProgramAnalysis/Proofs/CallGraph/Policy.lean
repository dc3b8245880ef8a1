import ProgramAnalysis.Proofs.CallGraph.Build
import ProgramAnalysis.Proofs.CallGraph.Plain

/-!
What a policy promises of the nodes of a built graph: how long their contexts are, and where the
contexts come from (`Respects`). The promise is kept by the roots and by every call that is made at
a node which keeps it, whatever the rest of the graph is like.
-/

namespace ProgramAnalysis

open List

namespace PlainCallGraph

/-- The graphs that can be put together. -/
inductive Assembled : PlainCallGraph → Prop where
  | ofRoots (roots : List MethodId) : Assembled (.ofRoots roots)
  | ofProgram (program : Program) (remap : Remap) : Assembled (.ofProgram program remap)
  | addCall {graph : PlainCallGraph} (caller : MethodId) (site : InstId) (callee : MethodId) :
    Assembled graph → Assembled (graph.addCall caller site callee)
  | setStatic {graph : PlainCallGraph} (method : MethodId) :
    Assembled graph → Assembled (graph.setStatic method)
  | setInsensitive {graph : PlainCallGraph} (method : MethodId) :
    Assembled graph → Assembled (graph.setInsensitive method)

/-- Roots are insensitive, and no later step makes them sensitive. -/
theorem Assembled.isInsensitive_of_root {plain : PlainCallGraph} (assembled : plain.Assembled)
    (isRoot : root ∈ plain.roots) : plain.isInsensitive root = true := by
  induction assembled with
  | ofRoots roots => exact decide_eq_true (SortedSet.mem_ofList.mpr isRoot)
  | ofProgram program remap =>
    rw [roots_ofProgram] at isRoot
    exact isInsensitive_of_mem_roots remap isRoot
  | addCall caller site callee _ ih => exact ih isRoot
  | setStatic method _ ih => exact ih isRoot
  | setInsensitive method _ ih =>
    have marked := of_decide_eq_true (ih isRoot)
    exact decide_eq_true (SortedSet.mem_insert.mpr (.inr marked))

end PlainCallGraph

namespace CallGraph

/-- What a policy promises of a context that a method is reached in. -/
def Respects (plain : PlainCallGraph) (receivers : Receivers) (context : Context) (m : MethodId) :
    ContextPolicy → Prop
  | .insensitive => context = .epsilon
  | .callSite k => context.length ≤ k ∧
      (1 ≤ k → plain.isInsensitive m = false → ∃ site earlier caller, context = site :: earlier ∧
        site ∈ plain.sitesOf caller ∧ m ∈ plain.targetsOf site)
  | .object k => context.length ≤ k ∧
      (context ≠ .epsilon → ∃ site object, receivers.get? site = some object ∧
        ∃ received ∈ object.contexts, context = received.truncate k)

variable {plain : PlainCallGraph} {policy : ContextPolicy} {receivers : Receivers}

theorem Respects.epsilon (insensitive : plain.isInsensitive m = true) :
    Respects plain receivers .epsilon m policy := by
  cases policy with
  | insensitive => rfl
  | callSite k =>
    refine ⟨Nat.zero_le k, fun _ sensitive => ?_⟩
    rw [insensitive] at sensitive
    cases sensitive
  | object k => exact ⟨Nat.zero_le k, fun other => absurd rfl other⟩

theorem Respects.call {after : Context} (respects : Respects plain receivers before m policy)
    (atSite : i ∈ plain.sitesOf m) (target : callee ∈ plain.targetsOf i)
    (given : after ∈ calleeContexts plain policy receivers ⟨before, i⟩ callee) :
    Respects plain receivers after callee policy := by
  unfold calleeContexts at given
  split at given
  · next insensitive =>
    obtain rfl := mem_singleton.mp given
    exact .epsilon insensitive
  · cases policy with
    | insensitive => exact mem_singleton.mp given
    | callSite k =>
      obtain rfl := mem_singleton.mp given
      refine ⟨length_take_le k _, fun positive _ => ?_⟩
      obtain ⟨k, rfl⟩ := Nat.exists_eq_add_of_le' positive
      exact ⟨i, before.take k, m, rfl, atSite, target⟩
    | object k =>
      dsimp only at given
      split at given
      · -- A static callee runs in the caller's context, whatever that has come through.
        obtain rfl := mem_singleton.mp given
        exact respects
      · split at given
        · next object found =>
          obtain ⟨received, among, rfl⟩ := mem_map.mp given
          exact ⟨length_take_le k _, fun _ => ⟨_, object, found, received, among, rfl⟩⟩
        · cases given

theorem respects_of_reachable (assembled : plain.Assembled)
    (reached : Reachable (calleesOf plain policy receivers) (rootNodes plain) node) :
    Respects plain receivers node.context node.handle policy := by
  induction reached with
  | start begins =>
    obtain ⟨root, isRoot, rfl⟩ := mem_map.mp begins
    exact .epsilon (assembled.isInsensitive_of_root isRoot)
  | step _ called ih =>
    obtain ⟨i, atSite, target, given⟩ := mem_calleesOf.mp called
    exact ih.call atSite target given

/-- An insensitive method is reached in the empty context only. -/
theorem epsilon_of_isInsensitive
    (reached : Reachable (calleesOf plain policy receivers) (rootNodes plain) node)
    (insensitive : plain.isInsensitive node.handle = true) : node.context = .epsilon := by
  cases reached with
  | start begins =>
    obtain ⟨root, _, rfl⟩ := mem_map.mp begins
    rfl
  | step _ called =>
    obtain ⟨i, _, _, given⟩ := mem_calleesOf.mp called
    unfold calleeContexts at given
    rw [if_pos insensitive] at given
    exact mem_singleton.mp given

/-- Every node of a built graph keeps what the policy promises. Insensitive methods, the roots among
them, have the empty context under any policy. -/
theorem nodes_respect_policy {plain : PlainCallGraph} (assembled : plain.Assembled)
    (policy : ContextPolicy) (receivers : Receivers) {context : Context} {m : MethodId}
    (member : ⟨context, m⟩ ∈ (build plain policy receivers).nodes) :
    Respects plain receivers context m policy ∧
      (plain.isInsensitive m = true → context = .epsilon) ∧
      (m ∈ plain.roots → plain.isInsensitive m = true ∧ context = .epsilon) := by
  have reached := mem_nodes_build.mp member
  have epsilon := epsilon_of_isInsensitive reached
  refine ⟨respects_of_reachable assembled reached, epsilon, fun isRoot => ?_⟩
  have insensitive := assembled.isInsensitive_of_root isRoot
  exact ⟨insensitive, epsilon insensitive⟩

/-- The entry calls a method, which hands its object's context on to a static method that calls
itself. -/
abbrev handingOn : PlainCallGraph :=
  ((((PlainCallGraph.ofRoots [0]).addCall 0 1 1).addCall 1 2 2).addCall 2 3 2).setStatic 2

/-- The object that receives the call has contexts of any length. -/
abbrev handedOn : Receivers := Table.empty.insert ⟨[], 1⟩ (.ofList [[7, 8, 9], [5]])

theorem nodes_respect_policy_handingOn :
    handingOn.Assembled ∧ ⟨[7, 8], 2⟩ ∈ (build handingOn (.object 2) handedOn).nodes ∧
      Respects handingOn handedOn [7, 8] 2 (.object 2) ∧
      ⟨[3, 3, 2], 2⟩ ∈ (build handingOn (.callSite 3) handedOn).nodes ∧
      Respects handingOn handedOn [3, 3, 2] 2 (.callSite 3) := by
  have assembled : handingOn.Assembled :=
    .setStatic 2 (.addCall 2 3 2 (.addCall 1 2 2 (.addCall 0 1 1 (.ofRoots [0]))))
  have object : ⟨[7, 8], 2⟩ ∈ (build handingOn (.object 2) handedOn).nodes := by
    refine mem_nodes_build.mpr (.step (a := ⟨[7, 8], 2⟩) (.step (a := ⟨[7, 8], 1⟩)
      (.step (a := ⟨[], 0⟩) (.start ?_) ?_) ?_) ?_) <;> decide
  have callSite : ⟨[3, 3, 2], 2⟩ ∈ (build handingOn (.callSite 3) handedOn).nodes := by
    refine mem_nodes_build.mpr (.step (a := ⟨[3, 2, 1], 2⟩) (.step (a := ⟨[2, 1], 2⟩)
      (.step (a := ⟨[1], 1⟩) (.step (a := ⟨[], 0⟩) (.start ?_) ?_) ?_) ?_) ?_) <;> decide
  exact ⟨assembled, object, (nodes_respect_policy assembled _ _ object).1, callSite,
    (nodes_respect_policy assembled _ _ callSite).1⟩

end CallGraph

end ProgramAnalysis
