import ProgramAnalysis.Session.Basic

/-!
The tasks that come with the library, by name.
-/

namespace ProgramAnalysis

/-- Makes a task from what is on disk and the options. -/
abbrev TaskFactory := Disk → Options → Except Fault Task

/-- Ways to make tasks, by ascending name. -/
structure Registry where
  factories : List (String × TaskFactory)

namespace Registry

def empty : Registry := ⟨[]⟩

def names (registry : Registry) : List String := registry.factories.map (·.1)

/-- Puts an entry at its place among those with ascending names. -/
def place (name : String) (factory : TaskFactory) :
    List (String × TaskFactory) → List (String × TaskFactory)
  | [] => [(name, factory)]
  | entry :: rest =>
    if (compare name entry.1).isLT then (name, factory) :: entry :: rest
    else entry :: place name factory rest

/-- Adds a factory under a free name. -/
def add (registry : Registry) (name : String) (factory : TaskFactory) : Except Fault Registry :=
  if name ∈ registry.names then .error (.duplicateTask name)
  else .ok ⟨place name factory registry.factories⟩

/-- Creates the task of a name. -/
def create (registry : Registry) (name : String) : TaskFactory := fun disk options =>
  match registry.factories.lookup name with
  | some factory => factory disk options
  | none => .error (.taskNotFound name)

/-- Creates every task, in order of registration, until one cannot be. -/
def createAll (registry : Registry) (disk : Disk) (options : Options) :
    Except Fault (List Task) :=
  registry.factories.mapM fun entry => entry.2 disk options

/-! ### The tasks of this library -/

/-- The task of the call targets, which is created from the configured remap. -/
def invokeTargets : TaskFactory := fun disk options => do
  let remap ← match options.remapFile with
    | some path => Remap.ofFile disk path
    | none => pure .empty
  return .ofRelation .invokeTargets remap

def always (task : Task) : TaskFactory := fun _ _ => .ok task

def domains : List FactDomain :=
  [.methods, .invokes, .allocations, .vars, .accesses, .fields, .locks, .types]

def relations : List FactRelation :=
  [.methodInvokes, .methodAllocations, .methodVariables, .methodReceiver, .invokeReceiver,
    .accessedField, .castTarget]

/-- The tasks every session can register by name. -/
def builtin : Registry :=
  let entries : List (String × TaskFactory) :=
    domains.map (fun domain => (domain.name, always (.ofDomain domain))) ++
    relations.map (fun relation => (relation.name, always (.ofRelation relation .empty))) ++
    [(FactRelation.invokeTargets.name, invokeTargets), ("ctxts", always .contexts),
      ("monosite", fun _ options =>
        .ok (.ofRefinement (.monosite options.maxIterations))),
      ("downcast", fun _ options =>
        .ok (.ofRefinement (.downcast options.maxIterations))),
      ("dynamic-thread-escape", fun _ options =>
        .ok (.ofEscape (.ofOptions options)))]
  ⟨entries.foldl (fun placed entry => place entry.1 entry.2 placed) []⟩

end Registry

namespace Session

/-- Adds one task of this library. -/
def registerBuiltin (name : String) : Step Session Unit := do
  let session ← get
  let task ← Step.ofExcept (Registry.builtin.create name session.store.disk session.options)
  register task

/-- Adds all tasks of this library, and one for every Datalog program in the configured
directories. -/
def registerAll : Step Session Unit := do
  let session ← get
  Step.ofExcept (session.options.validate.mapError Fault.option)
  let tasks ← Step.ofExcept (Registry.builtin.createAll session.store.disk session.options)
  tasks.forM register
  session.options.datalogPath.forM registerDatalogDirectory

end Session

end ProgramAnalysis
