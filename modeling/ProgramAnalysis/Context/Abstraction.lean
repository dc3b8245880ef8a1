import ProgramAnalysis.Context.Family
import ProgramAnalysis.Facts.Relations
import ProgramAnalysis.Refinement

/-!
The abstraction under which methods are analysed, and its contexts.
-/

namespace ProgramAnalysis

/-- How precise the analysis has become. -/
structure Abstraction where
  runs : Nat := 0
  promoted : SortedSet MethodId := .empty
  refined : SortedSet VarId := .empty
  /-- By how much object contexts through a site have grown. -/
  objectRaises : Table InstId Nat := .empty
  /-- By how much call-site contexts through a site have grown. -/
  callRaises : Table InstId Nat := .empty
  deriving DecidableEq

namespace Abstraction

/-- How many sites an object context through a site keeps. -/
def objectDepth (abstraction : Abstraction) (options : Options) (site : InstId) : Nat :=
  (options.objectDepth + (abstraction.objectRaises.get? site).getD 0) % Numeral.sizeLimit

/-- How many sites a call-site context through a site keeps. -/
def callDepth (abstraction : Abstraction) (options : Options) (site : InstId) : Nat :=
  (options.callDepth + (abstraction.callRaises.get? site).getD 0) % Numeral.sizeLimit

/-! ### Refining -/

/-- Takes one named element into account. -/
def refine (abstraction : Abstraction) (store : Store) (index : Nat) :
    Refined → Except Fault Abstraction
  | .allocations => do
    let site ← (← store.domain .instruction "H").element index
    return { abstraction with objectRaises := abstraction.objectRaises.update site 0 (· + 1) }
  | .invokes => do
    let site ← (← store.domain .instruction "I").element index
    return { abstraction with callRaises := abstraction.callRaises.update site 0 (· + 1) }
  | .methods => do
    let method ← (← store.domain .method "M").element index
    return { abstraction with promoted := abstraction.promoted.insert method }
  | .vars => do
    let var ← (← store.domain .var "V").element index
    return { abstraction with refined := abstraction.refined.insert var }

def onStore {α : Type} (step : Step Store α) : Step (Store × Abstraction) α :=
  Step.onPart Prod.fst (fun s store => (store, s.2)) step

/-- Takes everything one relation names into account. A relation that was never saved names
nothing. -/
def applyRelation (refined : Refined) : Step (Store × Abstraction) Unit := do
  let (store, _) ← get
  if store.hasRelation refined.relation && store.isSaved refined.relation then
    let indices ← onStore do
      let relation ← Store.loadRelation refined.relation
      let indices ← Step.ofExcept (relation.column 0)
      Store.closeRelation refined.relation
      return indices
    for index in indices do
      let (store, abstraction) ← get
      set (store, ← Step.ofExcept (abstraction.refine store index refined))

/-- Takes everything into account that the last step named. -/
def applyRefinements : Step (Store × Abstraction) Unit :=
  Refined.all.forM applyRelation

/-! ### Planning -/

/-- What contexts are computed from: domains, which sites call which methods, and which
allocations a variable may point to. -/
structure Input where
  methods : Domain .method
  invokes : Domain .instruction
  allocations : Domain .instruction
  vars : Domain .var
  calls : List (Nat × Nat)
  pointsTo : List (Nat × Nat)
  deriving DecidableEq

/-- Reads what contexts are computed from. -/
def readInput : Step Store Input := do
  let methods ← Store.query (·.domain .method "M")
  let invokes ← Store.query (·.domain .instruction "I")
  let allocations ← Store.query (·.domain .instruction "H")
  let vars ← Store.query (·.domain .var "V")
  let calls ← Store.takePairs "IM"
  let pointsTo ← Store.takePairs "VH"
  return { methods, invokes, allocations, vars, calls, pointsTo }

/-- How a method is analysed if it is sensitive at all. -/
def configuredKind (options : Options) (program : Program) (m : MethodId) :
    Except Fault ContextKind := do
  let method ← (program.method m).mapError Fault.program
  if program.main = some m || method.isClassInitializer || method.isAbstract then
    return .insensitive
  else if method.isStatic then
    return options.staticKind
  else
    return options.instanceKind

/-- How one method is analysed. -/
structure MethodPlan where
  method : MethodId
  /-- Before any refinement. -/
  initial : ContextKind
  kind : ContextKind
  origin : Origin
  deriving DecidableEq

variable (abstraction : Abstraction) (options : Options) (program : Program) (input : Input)

/-- A site with the method around it, if that is numbered. -/
def place (depth : InstId → Nat) (index : Nat) (site : InstId) :
    Except Fault (Option ContextSite) := do
  return (← enclosingMethod program input.methods site).map fun method =>
    { index, site, method, depth := depth site }

/-- The sites that may call a method. -/
def callersOf (m : Nat) : List Nat :=
  (input.calls.filter (·.2 = m)).map (·.1)

/-- The allocations a variable may point to. -/
def allocationsOf (v : Nat) : List Nat :=
  (input.pointsTo.filter (·.1 = v)).map (·.2)

/-- The index of the receiver variable of a method, if it has one that is numbered. -/
def receiverOf (method : MethodId) : Except Fault (Option Nat) := do
  match (← (program.method method).mapError Fault.program).receiver? with
  | some this => input.vars.indexOf this
  | none => return none

/-- Where a method gets its contexts from, according to how it is analysed. -/
def originOf (m : Nat) (method : MethodId) : ContextKind → Except Fault Origin
  | .insensitive => return .start
  | .callSite => do
    let places ← (callersOf input m).filterMapM fun i => do
      place program input (abstraction.callDepth options) i (← input.invokes.element i)
    return .through places
  | .object => do
    let receiver ← receiverOf program input method
    let places ← (receiver.toList.flatMap (allocationsOf input)).filterMapM fun h => do
      place program input (abstraction.objectDepth options) h (← input.allocations.element h)
    return .through places
  | .copy => do
    let callers ← (callersOf input m).filterMapM fun i => do
      enclosingMethod program input.methods (← input.invokes.element i)
    return .copying callers

/-- A method is sensitive from the start unless there is refinement, and then once promoted. -/
def planMethod (m : Nat) (method : MethodId) : Except Fault MethodPlan := do
  let configured ← configuredKind options program method
  let initial := if options.maxIterations > 0 then .insensitive else configured
  let kind := if method ∈ abstraction.promoted then configured else initial
  let origin ← originOf abstraction options program input m method kind
  return { method, initial, kind, origin }

/-- How each numbered method is analysed. -/
def plan : Except Fault (List MethodPlan) :=
  input.methods.indexed.mapM fun (m, method) =>
    planMethod abstraction options program input m method

/-! ### Results -/

/-- The call sites that may call a call-site sensitive method. -/
def sensitiveInvokes (plans : List MethodPlan) : List Nat :=
  (input.calls.filter fun call =>
    (plans[call.2]?).any fun plan => plan.kind = .callSite).map (·.1)

/-- The variables that have contexts: those of methods that are sensitive from the start, and those
that were refined. -/
def sensitiveVariables (plans : List MethodPlan) : List VarId :=
  abstraction.refined.toList ++ plans.flatMap fun plan =>
    if plan.initial = .insensitive then []
    else ((program.methods[plan.method]?).map (·.vars)).getD []

/-- Numbers the contexts before and after each site, and pairs their indices with each other and
with the site. -/
def number : List (ContextSite × Context) → Domain .context →
    Domain .context × List Tuple × List Tuple
  | [], contexts => (contexts, [], [])
  | (place, context) :: rest, contexts =>
    let (contexts, old) := contexts.add context
    let (contexts, new) := contexts.add (place.extend context)
    let (contexts, steps, reached) := number rest contexts
    (contexts, [old, new] :: steps, [new, place.index] :: reached)

/-- The contexts of every method, as the least solution of the plans. -/
def familyOf (plans : List MethodPlan) : ContextFamily :=
  ContextFamily.solve (plans.map (·.origin))

/-- The call sites through which contexts are entered. -/
def invokePlaces (plans : List MethodPlan) : Except Fault (List ContextSite) :=
  let sensitive := sensitiveInvokes input plans
  (input.invokes.indexed.filter (·.1 ∈ sensitive)).filterMapM fun (i, site) =>
    place program input (abstraction.callDepth options) i site

/-- The allocation sites that lie in a numbered method. -/
def allocationPlaces : Except Fault (List ContextSite) :=
  input.allocations.indexed.filterMapM fun (h, site) =>
    place program input (abstraction.objectDepth options) h site

/-- Every site with every context of the method around it. -/
def expand (family : ContextFamily) (places : List ContextSite) : List (ContextSite × Context) :=
  places.flatMap fun place =>
    (family.contextsOf place.method).toList.map fun context => (place, context)

/-- Numbers the empty context and then every context after a site. -/
def numberReached (steps : List (ContextSite × Context)) : Domain .context :=
  Domain.ofList "C" (Context.epsilon :: steps.map fun (place, context) => place.extend context)

/-- What is published: the numbered contexts and the relations over them. -/
structure Result where
  contexts : Domain .context
  relations : List (String × List Tuple)

/-- The indices of the methods that are analysed in one way. -/
def ofKind (plans : List MethodPlan) (kind : ContextKind) : List Tuple :=
  plans.zipIdx.filterMap fun (plan, m) => if plan.kind = kind then some [m] else none

/-- Everything that follows from the input. -/
def result : Except Fault Result := do
  let plans ← plan abstraction options program input
  let family := familyOf plans
  let throughInvokes := expand family (← invokePlaces abstraction options program input plans)
  let throughAllocations := expand family (← allocationPlaces abstraction options program input)
  let numbered := numberReached (throughInvokes ++ throughAllocations)
  let (numbered, callSteps, calls) := number throughInvokes numbered
  let (numbered, allocationSteps, allocated) := number throughAllocations numbered
  let vars := sensitiveVariables abstraction program plans
  let insensitive := input.vars.indexed.filterMap fun (v, var) =>
    if var ∈ vars then none else some [v]
  return {
    contexts := numbered
    relations := [
      ("CC", callSteps ++ allocationSteps), ("CI", calls), ("CH", allocated),
      ("epsilonM", ofKind plans .insensitive), ("kcfaSenM", ofKind plans .callSite),
      ("kobjSenM", ofKind plans .object), ("ctxtCpyM", ofKind plans .copy),
      ("epsilonV", insensitive)] }

/-- Saves the contexts, then fills the relations one after the other. -/
def Result.publish (result : Result) : Step Store Unit := do
  modify (·.putDomain result.contexts)
  Store.saveDomain "C"
  for (name, tuples) in result.relations do
    Store.fillRelation name tuples

/-- Reads the input and publishes the result. -/
def compute (abstraction : Abstraction) (options : Options) (program : Program) :
    Step Store Unit := do
  let input ← readInput
  let result ← Step.ofExcept (result abstraction options program input)
  result.publish

/-- Runs once more: from the second time on, what was named since is taken into account first. -/
def run (options : Options) (program : Program) : Step (Store × Abstraction) Unit := do
  if options.instanceKind = .copy then throw (.option ⟨"inst.ctxt.kind", .copyInstance⟩)
  if options.staticKind = .object then throw (.option ⟨"stat.ctxt.kind", .objectStatic⟩)
  if (← get).2.runs = 0 then
    modify fun (store, _) => (store, {})
  else
    applyRefinements
  onStore (compute (← get).2 options program)
  modify fun (store, abstraction) =>
    (store, { abstraction with runs := abstraction.runs + 1 })

/-- What has to be there before contexts are computed. -/
def consumes : List String := ["M", "V", "H", "I", "IM", "VH"]

def produces : List String :=
  ["C", "CC", "CH", "CI", "epsilonM", "kcfaSenM", "kobjSenM", "ctxtCpyM", "epsilonV"]

/-- Everything a run declares, including what it only reads. -/
def signatures : List (String × Signature) :=
  [("CC", ⟨["C0", "C1"], "C0xC1"⟩), ("CH", ⟨["C0", "H0"], "C0_H0"⟩),
    ("CI", ⟨["C0", "I0"], "C0_I0"⟩), ("epsilonM", ⟨["M0"], "M0"⟩),
    ("kcfaSenM", ⟨["M0"], "M0"⟩), ("kobjSenM", ⟨["M0"], "M0"⟩),
    ("ctxtCpyM", ⟨["M0"], "M0"⟩), ("epsilonV", ⟨["V0"], "V0"⟩)] ++
  Refined.all.map (fun refined => (refined.relation, refined.signature)) ++
  [("IM", ⟨["I0", "M0"], "I0xM0"⟩), ("VH", ⟨["V0", "H0"], "V0_H0"⟩)]

end Abstraction

end ProgramAnalysis
