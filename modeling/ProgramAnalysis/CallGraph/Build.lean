import ProgramAnalysis.Context.Bounded
import ProgramAnalysis.Context.Located
import ProgramAnalysis.Program.Remap
import ProgramAnalysis.Reachability
import ProgramAnalysis.Store

/-!
Building a call graph with contexts from a plain one.
-/

namespace ProgramAnalysis

/-- Call sites of methods and targets of call sites. -/
structure PlainCallGraph where
  roots : List MethodId
  sites : Table MethodId (SortedSet InstId)
  targets : Table InstId (SortedSet MethodId)
  statics : SortedSet MethodId
  insensitive : SortedSet MethodId

namespace PlainCallGraph

/-- A graph without calls. -/
def ofRoots (roots : List MethodId) : PlainCallGraph where
  roots := roots
  sites := .empty
  targets := .empty
  statics := .empty
  insensitive := .ofList roots

instance : Inhabited PlainCallGraph := ⟨ofRoots []⟩

def addSite (graph : PlainCallGraph) (caller : MethodId) (site : InstId) : PlainCallGraph :=
  { graph with sites := graph.sites.update caller .empty (·.insert site) }

/-- Adds a method that a site may call. -/
def addTarget (graph : PlainCallGraph) (site : InstId) (callee : MethodId) : PlainCallGraph :=
  { graph with targets := graph.targets.update site .empty (·.insert callee) }

def addCall (graph : PlainCallGraph) (caller : MethodId) (site : InstId) (callee : MethodId) :
    PlainCallGraph :=
  (graph.addSite caller site).addTarget site callee

def setStatic (graph : PlainCallGraph) (method : MethodId) : PlainCallGraph :=
  { graph with statics := graph.statics.insert method }

def setInsensitive (graph : PlainCallGraph) (method : MethodId) : PlainCallGraph :=
  { graph with insensitive := graph.insensitive.insert method }

def isStatic (graph : PlainCallGraph) (method : MethodId) : Bool := method ∈ graph.statics

def isInsensitive (graph : PlainCallGraph) (method : MethodId) : Bool := method ∈ graph.insensitive

/-- The call sites of a method. -/
def sitesOf (graph : PlainCallGraph) (method : MethodId) : List InstId :=
  ((graph.sites.get? method).getD .empty).toList

/-- The methods a site may call. -/
def targetsOf (graph : PlainCallGraph) (site : InstId) : List MethodId :=
  ((graph.targets.get? site).getD .empty).toList

/-! ### From a program -/

/-- Notes whether a method is static and whether it never gets a context. -/
def addMethod (graph : PlainCallGraph) (entry : Method × MethodId) : PlainCallGraph :=
  let (method, m) := entry
  let graph := if method.isStatic then graph.setStatic m else graph
  if method.isAbstract || method.isClassInitializer then graph.setInsensitive m else graph

/-- The graph without calls of a program: its roots, and which methods are static or never get a
context. -/
def ofMethods (program : Program) : PlainCallGraph :=
  program.methods.zipIdx.foldl addMethod (ofRoots program.roots)

/-- The calls one instruction makes, its targets replaced through a remap. -/
def addInstruction (program : Program) (remap : Remap) (graph : PlainCallGraph)
    (entry : InstId × Instruction) : PlainCallGraph :=
  let (site, instruction) := entry
  match instruction.operation with
  | .invoke targets _ =>
    (targets.filterMap (remap.apply program)).foldl (fun graph => graph.addTarget site)
      (graph.addSite instruction.method site)
  | _ => graph

/-- The graph of a program, its calls replaced through a remap. -/
def ofProgram (program : Program) (remap : Remap) : PlainCallGraph :=
  program.numberedInstructions.foldl (addInstruction program remap) (ofMethods program)

/-! ### From relations -/

/-- The graph of the open relations `MI` and `IM`. -/
def ofStore (program : Program) (store : Store) : Except Fault PlainCallGraph := do
  let methods ← store.domain .method "M"
  let sites ← store.domain .instruction "I"
  let containment ← (← store.relation "MI").columns 0 1
  let withSites ← containment.foldlM (fun graph (m, i) => do
    return graph.addSite (← methods.element m) (← sites.element i)) (ofMethods program)
  let calls ← (← store.relation "IM").columns 0 1
  calls.foldlM (fun graph (i, m) => do
    return graph.addTarget (← sites.element i) (← methods.element m)) withSites

end PlainCallGraph

/-- A call from a site in a context to a method in a context. -/
structure Call where
  site : InContext
  callee : InContext
  deriving DecidableEq, Repr, Inhabited

/-- What is reached, in which contexts, and through which calls. -/
structure CallGraph where
  roots : SortedSet InContext
  nodes : SortedSet InContext
  calls : List Call

namespace CallGraph

instance : Inhabited CallGraph := ⟨⟨.empty, .empty, []⟩⟩

/-- What a site calls. -/
def targets (graph : CallGraph) (site : InContext) : SortedSet InContext :=
  .ofList ((graph.calls.filter (·.site = site)).map (·.callee))

/-- The sites that call a node. -/
def callers (graph : CallGraph) (node : InContext) : SortedSet InContext :=
  .ofList ((graph.calls.filter (·.callee = node)).map (·.site))

def mayCall (graph : CallGraph) (site node : InContext) : Bool := ⟨site, node⟩ ∈ graph.calls

/-- The contexts in which a method is reached. -/
def contexts (graph : CallGraph) (method : MethodId) : SortedSet Context :=
  .ofList ((graph.nodes.toList.filter (·.handle = method)).map (·.context))

/-! ### From relations -/

/-- The nodes that an open relation lists by their indices. -/
def storedNodes (store : Store) (name : String) (contexts : Domain .context)
    (methods : Domain .method) : Except Fault (SortedSet InContext) := do
  let pairs ← (← store.relation name).columns 0 1
  return .ofList (← pairs.mapM fun (c, m) => do
    return ⟨← contexts.element c, ← methods.element m⟩)

/-- The call that a tuple of indices stands for. -/
def storedCall (contexts : Domain .context) (sites : Domain .instruction)
    (methods : Domain .method) (tuple : Tuple) : Except Fault Call := do
  let component := Relation.component tuple
  let site : InContext := ⟨← contexts.element (component 0), ← sites.element (component 1)⟩
  return ⟨site, ⟨← contexts.element (component 2), ← methods.element (component 3)⟩⟩

/-- The graph of the open relations `rootCM`, `reachableCM` and `CICM`. -/
def ofStore (store : Store) : Except Fault CallGraph := do
  let contexts ← store.domain .context "C"
  let sites ← store.domain .instruction "I"
  let methods ← store.domain .method "M"
  let roots ← storedNodes store "rootCM" contexts methods
  let nodes ← storedNodes store "reachableCM" contexts methods
  let tuples ← (← store.relation "CICM").contents
  let calls ← tuples.toList.mapM (storedCall contexts sites methods)
  return { roots, nodes, calls }

/-- Closes what a graph is read off. -/
def release : Step Store Unit := do
  Store.closeRelation "rootCM"
  Store.closeRelation "reachableCM"
  Store.closeRelation "CICM"

end CallGraph

/-- How a callee gets its contexts. -/
inductive ContextPolicy where
  | insensitive
  /-- The caller's context and the call site, the `k` most recent sites of it. -/
  | callSite (k : Nat)
  /-- The contexts of the receiving objects, the `k` most recent sites of each. -/
  | object (k : Nat)
  deriving DecidableEq, Repr, Inhabited

/-- The objects that may receive a call at a site in a context. -/
abbrev Receivers := Table InContext AbstractObject

namespace CallGraph

/-- The contexts in which a site in a context calls a method. -/
def calleeContexts (plain : PlainCallGraph) (policy : ContextPolicy) (receivers : Receivers)
    (site : InContext) (callee : MethodId) : List Context :=
  if plain.isInsensitive callee then [.epsilon]
  else match policy with
    | .insensitive => [.epsilon]
    | .callSite k => [.push k site.handle site.context]
    | .object k =>
      if plain.isStatic callee then [site.context]
      else match receivers.get? site with
        | some object => object.contexts.toList.map (Context.truncate k)
        | none => []

/-- The calls made from a node. -/
def callsOf (plain : PlainCallGraph) (policy : ContextPolicy) (receivers : Receivers)
    (node : InContext) : List Call :=
  (plain.sitesOf node.handle).flatMap fun i =>
    let site : InContext := ⟨node.context, i⟩
    (plain.targetsOf i).flatMap fun callee =>
      (calleeContexts plain policy receivers site callee).map fun context =>
        ⟨site, context, callee⟩

/-- The nodes called from a node. -/
def calleesOf (plain : PlainCallGraph) (policy : ContextPolicy) (receivers : Receivers)
    (node : InContext) : List InContext :=
  (callsOf plain policy receivers node).map (·.callee)

/-- The roots, without contexts. -/
def rootNodes (plain : PlainCallGraph) : List InContext :=
  plain.roots.map fun root => ⟨.epsilon, root⟩

/-! ### Every node lies in a finite collection -/

def allSites (plain : PlainCallGraph) : List InstId :=
  plain.sites.values.flatMap (·.toList)

def allMethods (plain : PlainCallGraph) : List MethodId :=
  plain.roots ++ plain.targets.values.flatMap (·.toList)

/-- The contexts a policy can build. -/
def allContexts (plain : PlainCallGraph) (policy : ContextPolicy) (receivers : Receivers) :
    List Context :=
  match policy with
  | .insensitive => [.epsilon]
  | .callSite k => Context.upTo (allSites plain) k
  | .object k =>
    .epsilon :: receivers.values.flatMap fun object =>
      object.contexts.toList.map (Context.truncate k)

/-- The nodes whose method and context can occur. -/
def possible (plain : PlainCallGraph) (policy : ContextPolicy) (receivers : Receivers) :
    List InContext :=
  InContext.product (allContexts plain policy receivers) (allMethods plain)

theorem epsilon_mem_allContexts (plain : PlainCallGraph) (policy : ContextPolicy)
    (receivers : Receivers) : Context.epsilon ∈ allContexts plain policy receivers := by
  cases policy with
  | insensitive => simp [allContexts]
  | callSite k =>
    refine Context.mem_upTo (by simp [Context.epsilon]) ?_
    intro site none
    cases none
  | object k => simp [allContexts]

theorem mem_allSites {plain : PlainCallGraph} {method : MethodId} {site : InstId}
    (member : site ∈ plain.sitesOf method) : site ∈ allSites plain := by
  unfold PlainCallGraph.sitesOf at member
  cases found : plain.sites.get? method with
  | none => simp [found, SortedSet.empty] at member
  | some sites =>
    rw [found] at member
    exact List.mem_flatMap.mpr ⟨sites, Table.mem_values_of_get? found, member⟩

theorem mem_allMethods {plain : PlainCallGraph} {site : InstId} {callee : MethodId}
    (member : callee ∈ plain.targetsOf site) : callee ∈ allMethods plain := by
  unfold PlainCallGraph.targetsOf at member
  cases found : plain.targets.get? site with
  | none => simp [found, SortedSet.empty] at member
  | some methods =>
    rw [found] at member
    exact List.mem_append_right _
      (List.mem_flatMap.mpr ⟨methods, Table.mem_values_of_get? found, member⟩)

theorem mem_allContexts_of_calleeContexts {plain : PlainCallGraph} {policy : ContextPolicy}
    {receivers : Receivers} {site : InContext} {callee : MethodId} {context : Context}
    (before : site.context ∈ allContexts plain policy receivers)
    (known : site.handle ∈ allSites plain)
    (member : context ∈ calleeContexts plain policy receivers site callee) :
    context ∈ allContexts plain policy receivers := by
  unfold calleeContexts at member
  split at member
  · rcases List.mem_singleton.mp member with rfl
    exact epsilon_mem_allContexts plain policy receivers
  · cases policy with
    | insensitive =>
      rcases List.mem_singleton.mp member with rfl
      exact epsilon_mem_allContexts plain _ receivers
    | callSite k =>
      rcases List.mem_singleton.mp member with rfl
      exact Context.push_mem_upTo (Nat.le_refl k) known (Context.known_of_mem_upTo before)
    | object k =>
      dsimp only at member
      split at member
      · rcases List.mem_singleton.mp member with rfl
        exact before
      · split at member
        · next object found =>
          exact List.mem_cons_of_mem _
            (List.mem_flatMap.mpr ⟨object, Table.mem_values_of_get? found, member⟩)
        · cases member

/-- Calls never leave the possible nodes. -/
theorem confined_calleesOf (plain : PlainCallGraph) (policy : ContextPolicy)
    (receivers : Receivers) :
    Confined (calleesOf plain policy receivers) fun _ => possible plain policy receivers := by
  intro node inside callee member
  obtain ⟨call, made, rfl⟩ := List.mem_map.mp member
  obtain ⟨i, atSite, made⟩ := List.mem_flatMap.mp made
  obtain ⟨method, target, made⟩ := List.mem_flatMap.mp made
  obtain ⟨context, given, rfl⟩ := List.mem_map.mp made
  obtain ⟨known, _⟩ := InContext.mem_product.mp inside
  have atNode : (InContext.mk node.context i).context ∈ allContexts plain policy receivers := known
  exact InContext.mem_product.mpr
    ⟨mem_allContexts_of_calleeContexts atNode (mem_allSites atSite) given, mem_allMethods target⟩

theorem possible_of_root {plain : PlainCallGraph} {policy : ContextPolicy} {receivers : Receivers}
    {node : InContext} (member : node ∈ rootNodes plain) :
    node ∈ possible plain policy receivers := by
  obtain ⟨root, isRoot, rfl⟩ := List.mem_map.mp member
  exact InContext.mem_product.mpr
    ⟨epsilon_mem_allContexts plain policy receivers, List.mem_append_left _ isRoot⟩

/-! ### Building -/

/-- The nodes that calls lead to from the roots. -/
def reached (plain : PlainCallGraph) (policy : ContextPolicy) (receivers : Receivers) :
    List InContext :=
  Reachability.closure (calleesOf plain policy receivers)
    (confined_calleesOf plain policy receivers) (rootNodes plain) fun _ => possible_of_root

/-- The call graph of everything the roots reach. -/
def build (plain : PlainCallGraph) (policy : ContextPolicy) (receivers : Receivers) : CallGraph :=
  let nodes := reached plain policy receivers
  { roots := .ofList (rootNodes plain)
    nodes := .ofList nodes
    calls := nodes.flatMap (callsOf plain policy receivers) }

end CallGraph

end ProgramAnalysis
