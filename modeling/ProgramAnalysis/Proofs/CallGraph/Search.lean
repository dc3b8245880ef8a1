import Mathlib.Data.List.Perm.Subperm
import Mathlib.Logic.Function.Iterate
import Mathlib.Order.Bounds.Defs
import Mathlib.Order.SetNotation
import ProgramAnalysis.Proofs.CallGraph.Build
import ProgramAnalysis.Proofs.CallGraph.Plain

/-!
A built call graph as the result of a search that takes nodes off a queue, notes their calls from
both ends and queues the callees it has not met. Two invariants go with it, one about nodes
(`Visited`) and one about calls (`Recorded`). When the queue is empty they say that the least closed
nodes were found and the calls between them noted.
-/

namespace ProgramAnalysis.CallGraph

open List

section Least

variable (plain : PlainCallGraph) (policy : ContextPolicy) (receivers : Receivers)

/-- Some nodes hold the roots in the empty context and whatever they call. -/
structure Closed (nodes : Set InContext) : Prop where
  roots : ∀ root ∈ plain.roots, ⟨.epsilon, root⟩ ∈ nodes
  calls : ∀ context m, ⟨context, m⟩ ∈ nodes → ∀ i ∈ plain.sitesOf m, ∀ callee ∈ plain.targetsOf i,
    ∀ after ∈ calleeContexts plain policy receivers ⟨context, i⟩ callee, ⟨after, callee⟩ ∈ nodes

theorem isLeast_nodes : IsLeast {nodes | Closed plain policy receivers nodes}
      {node | node ∈ (build plain policy receivers).nodes} := by
  constructor
  · constructor
    · intro root isRoot
      exact mem_nodes_build.mpr (.start (mem_map.mpr ⟨root, isRoot, rfl⟩))
    · intro context m mem i atSite callee target after given
      refine mem_nodes_build.mpr (.step (mem_nodes_build.mp mem) ?_)
      exact mem_calleesOf.mpr ⟨i, atSite, target, given⟩
  · intro nodes closed node mem
    have reached := mem_nodes_build.mp mem
    clear mem
    induction reached with
    | start begins =>
      obtain ⟨root, isRoot, rfl⟩ := mem_map.mp begins
      exact closed.roots root isRoot
    | step _ called ih =>
      obtain ⟨i, atSite, target, given⟩ := mem_calleesOf.mp called
      exact closed.calls _ _ ih i atSite _ target _ given

end Least

/-! ### Searching -/

/-- A search under way: the nodes met, those of them whose calls are to be followed, and the calls
followed by site and by callee. -/
structure Search where
  nodes : SortedSet InContext := .empty
  queue : List InContext := []
  targets : Table InContext (SortedSet InContext) := .empty
  callers : Table InContext (SortedSet InContext) := .empty

namespace Search

def targetsOf (search : Search) (site : InContext) : SortedSet InContext :=
  (search.targets.get? site).getD .empty

def callersOf (search : Search) (node : InContext) : SortedSet InContext :=
  (search.callers.get? node).getD .empty

/-- Queues a node that is met for the first time. -/
def meet (search : Search) (node : InContext) : Search :=
  if node ∈ search.nodes then search
  else { search with nodes := search.nodes.insert node, queue := search.queue ++ [node] }

/-- Records a call in both tables and meets the callee. -/
def follow (search : Search) (call : Call) : Search :=
  { search with
    targets := search.targets.update call.site .empty (·.insert call.callee)
    callers := search.callers.update call.callee .empty (·.insert call.site) }.meet call.callee

/-- The search that has met the roots. -/
def start (plain : PlainCallGraph) : Search := (rootNodes plain).foldl meet {}

/-- Follows the calls of the node in front. -/
def turn (plain : PlainCallGraph) (policy : ContextPolicy) (receivers : Receivers)
    (search : Search) : Search :=
  match search.queue with
  | [] => search
  | node :: rest =>
    (callsOf plain policy receivers node).foldl follow { search with queue := rest }

variable {search : Search} {node other site : InContext} {call : Call}

theorem mem_nodes_meet : other ∈ (search.meet node).nodes ↔
    other ∈ search.nodes ∨ other = node := by
  unfold meet
  split
  · next known =>
    refine ⟨.inl, ?_⟩
    rintro (mem | rfl)
    · exact mem
    · exact known
  · exact SortedSet.mem_insert.trans or_comm

theorem mem_nodes_follow :
    other ∈ (search.follow call).nodes ↔ other ∈ search.nodes ∨ other = call.callee :=
  mem_nodes_meet

theorem mem_nodes_foldl_follow (calls : List Call) : other ∈ (calls.foldl follow search).nodes ↔
      other ∈ search.nodes ∨ other ∈ calls.map (·.callee) := by
  induction calls generalizing search with
  | nil => simp
  | cons call rest ih =>
    rw [foldl_cons, ih, mem_nodes_follow, map_cons, mem_cons, or_assoc]

theorem mem_nodes_start : other ∈ (start plain).nodes ↔ other ∈ rootNodes plain := by
  have all (nodes : List InContext) (search : Search) :
      other ∈ (nodes.foldl meet search).nodes ↔ other ∈ search.nodes ∨ other ∈ nodes := by
    induction nodes generalizing search with
    | nil => simp
    | cons node rest ih =>
      rw [foldl_cons, ih, mem_nodes_meet, mem_cons, or_assoc]
  rw [start, all]
  exact or_iff_right not_mem_nil

/-! ### Nodes and the queue -/

/-- The nodes met are those that are done and those that are queued, and no node is among them
twice. -/
structure Visited (search : Search) (done : List InContext) : Prop where
  nodes : ∀ node, node ∈ search.nodes ↔ node ∈ done ++ search.queue
  nodup : (done ++ search.queue).Nodup

namespace Visited

variable {done : List InContext}

theorem meet (visited : search.Visited done) : (search.meet node).Visited done := by
  unfold Search.meet
  split
  · exact visited
  · next fresh =>
    rw [visited.nodes] at fresh
    constructor
    · intro other
      rw [SortedSet.mem_insert, visited.nodes, ← append_assoc,
        mem_append (t := [node]), mem_singleton, or_comm]
    · rw [← append_assoc, nodup_append]
      refine ⟨visited.nodup, pairwise_singleton _ _, fun other mem last isLast same => ?_⟩
      rw [same, mem_singleton.mp isLast] at mem
      exact fresh mem

theorem foldl_follow (visited : search.Visited done) (calls : List Call) :
    (calls.foldl follow search).Visited done := by
  induction calls generalizing search with
  | nil => exact visited
  | cons call rest ih =>
    have recorded : Visited { search with
        targets := search.targets.update call.site .empty (·.insert call.callee)
        callers := search.callers.update call.callee .empty (·.insert call.site) } done :=
      ⟨visited.nodes, visited.nodup⟩
    exact ih recorded.meet

theorem start (plain : PlainCallGraph) : (start plain).Visited [] := by
  have all (nodes : List InContext) (search : Search) (visited : search.Visited []) :
      (nodes.foldl Search.meet search).Visited [] := by
    induction nodes generalizing search with
    | nil => exact visited
    | cons node rest ih => exact ih _ visited.meet
  exact all _ _ ⟨fun node => Iff.rfl, nodup_nil⟩

end Visited

/-! ### Calls -/

/-- Both tables hold certain calls. -/
structure Recorded (search : Search) (calls : List Call) : Prop where
  targets : ∀ site node, node ∈ search.targetsOf site ↔ ⟨site, node⟩ ∈ calls
  callers : ∀ site node, site ∈ search.callersOf node ↔ ⟨site, node⟩ ∈ calls

theorem targets_meet : (search.meet node).targets = search.targets := by
  unfold meet
  split <;> rfl

theorem callers_meet : (search.meet node).callers = search.callers := by
  unfold meet
  split <;> rfl

namespace Recorded

variable {calls : List Call}

theorem follow (recorded : search.Recorded calls) (call : Call) :
    (search.follow call).Recorded (calls ++ [call]) := by
  obtain ⟨from_, to_⟩ := call
  constructor
  · intro site node
    rw [mem_append, mem_singleton, Call.mk.injEq, ← recorded.targets]
    unfold targetsOf
    rw [Search.follow, targets_meet]
    exact Table.mem_getD_update
  · intro site node
    rw [mem_append, mem_singleton, Call.mk.injEq, ← recorded.callers, and_comm]
    unfold callersOf
    rw [Search.follow, callers_meet]
    exact Table.mem_getD_update

theorem foldl_follow (recorded : search.Recorded calls) (more : List Call) :
    (more.foldl Search.follow search).Recorded (calls ++ more) := by
  induction more generalizing search calls with
  | nil => rwa [append_nil]
  | cons call rest ih =>
    have rest := ih (recorded.follow call)
    rwa [append_assoc] at rest

theorem start (plain : PlainCallGraph) : (start plain).Recorded [] := by
  have all (nodes : List InContext) (search : Search) (recorded : search.Recorded []) :
      (nodes.foldl meet search).Recorded [] := by
    induction nodes generalizing search with
    | nil => exact recorded
    | cons node rest ih =>
      refine ih _ ⟨fun site other => ?_, fun site other => ?_⟩
      · rw [← recorded.targets, targetsOf, targetsOf, targets_meet]
      · rw [← recorded.callers, callersOf, callersOf, callers_meet]
  exact all _ {} ⟨fun _ _ => ⟨nofun, nofun⟩, fun _ _ => ⟨nofun, nofun⟩⟩

end Recorded

/-! ### The whole search -/

section Run

variable {plain : PlainCallGraph} {policy : ContextPolicy} {receivers : Receivers}
  {done : List InContext}

variable (plain policy receivers) in
/-- Where a search stands whose calls have been followed from some nodes: it has met the roots and
all callees of these nodes, and nothing that cannot be reached. -/
structure Searched (search : Search) (done : List InContext) : Prop where
  visited : search.Visited done
  recorded : search.Recorded (done.flatMap (callsOf plain policy receivers))
  reached : ∀ node ∈ search.nodes,
    Reachable (calleesOf plain policy receivers) (rootNodes plain) node
  roots : ∀ node ∈ rootNodes plain, node ∈ search.nodes
  followed : ∀ node ∈ done, ∀ callee ∈ calleesOf plain policy receivers node, callee ∈ search.nodes

namespace Searched

theorem start : Searched plain policy receivers (start plain) [] where
  visited := .start plain
  recorded := .start plain
  reached _ mem := .start (mem_nodes_start.mp mem)
  roots _ mem := mem_nodes_start.mpr mem
  followed _ mem := nomatch mem

/-- One turn of the search finishes the first node in the queue. -/
theorem turn (searched : Searched plain policy receivers search done)
    (queue : search.queue = node :: rest) :
    Searched plain policy receivers (search.turn plain policy receivers) (done ++ [node]) := by
  have known : node ∈ search.nodes := by
    rw [searched.visited.nodes, queue]
    exact mem_append_right _ mem_cons_self
  unfold Search.turn
  rw [queue]
  dsimp only
  have nodes (other : InContext) := @mem_nodes_foldl_follow { search with queue := rest } other
    (callsOf plain policy receivers node)
  constructor
  · refine Visited.foldl_follow ⟨fun other => ?_, ?_⟩ _
    · rw [searched.visited.nodes, queue, append_assoc]
      rfl
    · have nodup := searched.visited.nodup
      rwa [queue, append_cons] at nodup
  · rw [flatMap_append, flatMap_singleton]
    have recorded : Recorded { search with queue := rest }
        (done.flatMap (callsOf plain policy receivers)) :=
      ⟨searched.recorded.targets, searched.recorded.callers⟩
    exact recorded.foldl_follow _
  · intro other mem
    rcases (nodes other).mp mem with met | called
    · exact searched.reached other met
    · exact .step (searched.reached node known) called
  · exact fun root isRoot => (nodes root).mpr (.inl (searched.roots root isRoot))
  · intro caller mem callee called
    rcases mem_append.mp mem with earlier | now
    · exact (nodes callee).mpr (.inl (searched.followed caller earlier callee called))
    · obtain rfl := mem_singleton.mp now
      exact (nodes callee).mpr (.inr called)

theorem length_le (searched : Searched plain policy receivers search done) :
    done.length ≤ (CallGraph.reached plain policy receivers).length := by
  refine List.Subperm.length_le (List.Nodup.subperm (nodup_append.mp searched.visited.nodup).1 ?_)
  intro node mem
  refine (Reachability.mem_closure _ _ _ _).mpr (searched.reached node ?_)
  exact (searched.visited.nodes node).mpr (mem_append_left _ mem)

variable (plain policy receivers) in
theorem iterate (rounds : Nat) : ∃ done, Searched plain policy receivers
        ((Search.turn plain policy receivers)^[rounds] (Search.start plain)) done ∧
      (((Search.turn plain policy receivers)^[rounds] (Search.start plain)).queue = [] ∨
        done.length = rounds) := by
  induction rounds with
  | zero => exact ⟨[], .start, .inr rfl⟩
  | succ rounds ih =>
    obtain ⟨done, searched, status⟩ := ih
    rw [Function.iterate_succ_apply']
    generalize (Search.turn plain policy receivers)^[rounds] (Search.start plain) = search at *
    cases queue : search.queue with
    | nil =>
      have stays : search.turn plain policy receivers = search := by
        unfold Search.turn
        rw [queue]
      rw [stays]
      exact ⟨done, searched, .inl queue⟩
    | cons node rest =>
      refine ⟨done ++ [node], searched.turn queue, .inr ?_⟩
      rcases status with empty | length
      · rw [queue] at empty
        cases empty
      · rw [length_append, length, length_singleton]

theorem nodes_eq (searched : Searched plain policy receivers search done)
    (empty : search.queue = []) : search.nodes = (build plain policy receivers).nodes := by
  have nodes (node : InContext) : node ∈ search.nodes ↔ node ∈ done := by
    rw [searched.visited.nodes, empty, append_nil]
  refine SortedSet.ext fun node => ⟨fun mem => ?_, fun mem => ?_⟩
  · exact mem_nodes_build.mpr (searched.reached node mem)
  · have reached := mem_nodes_build.mp mem
    clear mem
    induction reached with
    | start begins => exact searched.roots _ begins
    | step _ called ih =>
      exact searched.followed _ ((nodes _).mp ih) _ called

theorem mem_calls (searched : Searched plain policy receivers search done)
    (empty : search.queue = []) :
    call ∈ done.flatMap (callsOf plain policy receivers) ↔
      call ∈ (build plain policy receivers).calls := by
  rw [mem_calls_build, mem_flatMap, ← searched.nodes_eq empty]
  refine exists_congr fun node => and_congr_left fun _ => ?_
  rw [searched.visited.nodes, empty, append_nil]

end Searched

end Run

end Search

theorem mem_targets {graph : CallGraph} :
    node ∈ graph.targets site ↔ ⟨site, node⟩ ∈ graph.calls := by
  unfold targets
  rw [SortedSet.mem_ofList]
  simp only [mem_map, mem_filter, decide_eq_true_iff]
  constructor
  · rintro ⟨call, ⟨mem, rfl⟩, rfl⟩
    exact mem
  · intro mem
    exact ⟨_, ⟨mem, rfl⟩, rfl⟩

theorem mem_callers {graph : CallGraph} :
    site ∈ graph.callers node ↔ ⟨site, node⟩ ∈ graph.calls := by
  unfold callers
  rw [SortedSet.mem_ofList]
  simp only [mem_map, mem_filter, decide_eq_true_iff]
  constructor
  · rintro ⟨call, ⟨mem, rfl⟩, rfl⟩
    exact mem
  · intro mem
    exact ⟨_, ⟨mem, rfl⟩, rfl⟩

variable (plain : PlainCallGraph) (policy : ContextPolicy) (receivers : Receivers)

/-- The search ends, with the nodes of the graph and with its calls in both tables. -/
theorem exists_searched :
    ∃ rounds last, (Search.turn plain policy receivers)^[rounds] (.start plain) = last ∧
      last.queue = [] ∧ last.nodes = (build plain policy receivers).nodes ∧
      (∀ site, last.targetsOf site = (build plain policy receivers).targets site) ∧
      ∀ node, last.callersOf node = (build plain policy receivers).callers node := by
  obtain ⟨done, searched, status⟩ := Search.Searched.iterate plain policy receivers
    ((reached plain policy receivers).length + 1)
  have empty := status.resolve_right fun length => by
    have bound := searched.length_le
    omega
  refine ⟨_, _, rfl, empty, searched.nodes_eq empty, fun site => ?_, fun node => ?_⟩
  · refine SortedSet.ext fun node => ?_
    rw [searched.recorded.targets, searched.mem_calls empty, mem_targets]
  · refine SortedSet.ext fun site => ?_
    rw [searched.recorded.callers, searched.mem_calls empty, mem_callers]

/-- A built graph holds exactly what can be reached: the least closed nodes and the calls between
them, seen alike from callers and from callees. A breadth-first search over any graph ends with
it. -/
theorem build_exact (plain : PlainCallGraph) (policy : ContextPolicy) (receivers : Receivers) :
    IsLeast {nodes | Closed plain policy receivers nodes}
        {node | node ∈ (build plain policy receivers).nodes} ∧
      (∀ c i d callee, ⟨d, callee⟩ ∈ (build plain policy receivers).targets ⟨c, i⟩ ↔
        ∃ m, ⟨c, m⟩ ∈ (build plain policy receivers).nodes ∧ i ∈ plain.sitesOf m ∧
          callee ∈ plain.targetsOf i ∧ d ∈ calleeContexts plain policy receivers ⟨c, i⟩ callee) ∧
      (∀ site node,
        (site ∈ (build plain policy receivers).callers node ↔
          node ∈ (build plain policy receivers).targets site) ∧
        (node ∈ (build plain policy receivers).targets site ↔
          (build plain policy receivers).mayCall site node = true)) ∧
      ∃ rounds last, (Search.turn plain policy receivers)^[rounds] (.start plain) = last ∧
        last.queue = [] ∧ last.nodes = (build plain policy receivers).nodes ∧
        (∀ site, last.targetsOf site = (build plain policy receivers).targets site) ∧
        ∀ node, last.callersOf node = (build plain policy receivers).callers node := by
  refine ⟨isLeast_nodes plain policy receivers, ?_, ?_, exists_searched plain policy receivers⟩
  · intro c i d callee
    rw [mem_targets, mem_calls_build]
    constructor
    · rintro ⟨⟨context, m⟩, member, made⟩
      obtain ⟨same, atSite, target, given⟩ := mem_callsOf.mp made
      cases same
      exact ⟨m, member, atSite, target, given⟩
    · rintro ⟨m, member, atSite, target, given⟩
      exact ⟨⟨c, m⟩, member, mem_callsOf.mpr ⟨rfl, atSite, target, given⟩⟩
  · intro site node
    rw [mem_callers, mem_targets, mayCall, decide_eq_true_iff]
    exact ⟨Iff.rfl, Iff.rfl⟩

end ProgramAnalysis.CallGraph
