import ProgramAnalysis.Graph

/-!
Which tasks there are, what each needs and makes, and which have run.
-/

namespace ProgramAnalysis

/-- What a task is called, what it needs and what it makes. -/
structure Declaration where
  name : String
  consumes : List String
  produces : List String
  deriving DecidableEq, Repr, Inhabited

/-- A declared task, and the task itself unless it is running. -/
structure Slot (τ : Type) extends Declaration where
  task : Option τ

/-- Where tasks are found: by name, by what they make and by what they need. -/
structure Lookup where
  byName : Table String Nat
  producers : Table String Nat
  consumers : Table String (List Nat)

namespace Lookup

def empty : Lookup := ⟨.empty, .empty, .empty⟩

/-- Enters a task under its index, in the place of whatever was found there before. -/
def enter (lookup : Lookup) (index : Nat) (declaration : Declaration) : Lookup where
  byName := lookup.byName.insert declaration.name index
  producers := declaration.produces.foldl (fun table artifact => table.insert artifact index)
    lookup.producers
  consumers := declaration.consumes.foldl
    (fun table artifact => table.update artifact [] (· ++ [index])) lookup.consumers

/-- What is found after some tasks were entered one after the other. -/
def ofList (declared : List Declaration) : Lookup :=
  declared.zipIdx.foldl (fun lookup entry => lookup.enter entry.2 entry.1) empty

theorem ofList_concat (declared : List Declaration) (declaration : Declaration) :
    ofList (declared ++ [declaration]) = (ofList declared).enter declared.length declaration := by
  simp [ofList, List.zipIdx_append]

end Lookup

/-- Declared tasks, where they are found, the dependencies between them, and which have run. The
tables tell of the tasks in the slots and of no others. -/
structure Schedule (τ : Type) where
  slots : List (Slot τ)
  lookup : Lookup
  graph : Graph
  done : SortedSet Nat
  entered : lookup = .ofList (slots.map (·.toDeclaration))

namespace Schedule

variable {τ : Type}

def empty : Schedule τ := ⟨[], .empty, .empty, .empty, rfl⟩

instance : Inhabited (Schedule τ) := ⟨empty⟩

/-- What the tasks declare, by index. -/
def declarations (schedule : Schedule τ) : List Declaration :=
  schedule.slots.map (·.toDeclaration)

/-! ### Finding tasks -/

/-- The index of the task with a name. -/
def find? (schedule : Schedule τ) (name : String) : Option Nat :=
  schedule.lookup.byName.get? name

def hasTask (schedule : Schedule τ) (name : String) : Bool := (schedule.find? name).isSome

def index (schedule : Schedule τ) (name : String) : Except Fault Nat :=
  match schedule.find? name with
  | some index => .ok index
  | none => .error (.taskNotFound name)

def names (schedule : Schedule τ) : List String := schedule.slots.map (·.name)

def nameAt (schedule : Schedule τ) (index : Nat) : String :=
  (schedule.slots[index]?.map (·.name)).getD ""

/-- The task that makes something. -/
def producer? (schedule : Schedule τ) (artifact : String) : Option Nat :=
  schedule.lookup.producers.get? artifact

/-- The tasks that need something. -/
def consumers (schedule : Schedule τ) (artifact : String) : List Nat :=
  (schedule.lookup.consumers.get? artifact).getD []

/-! ### Registering -/

/-- The edges a new task brings: from the makers of what it needs, to those who need what it makes.
-/
def newEdges (schedule : Schedule τ) (declaration : Declaration) : List (Nat × Nat) :=
  let fresh := schedule.slots.length
  let needed := declaration.consumes.flatMap fun artifact =>
    ((schedule.producer? artifact).map fun index => (index, fresh)).toList ++
      (if artifact ∈ declaration.produces then [(fresh, fresh)] else [])
  let made := declaration.produces.flatMap fun artifact =>
    (schedule.consumers artifact).map fun index => (fresh, index)
  needed ++ made

/-- The first of some artifacts that is made already, and the task that makes it. -/
def firstMade? (schedule : Schedule τ) (artifacts : List String) : Option (String × Nat) :=
  artifacts.findSome? fun artifact =>
    (schedule.producer? artifact).map fun index => (artifact, index)

/-- Why a task is refused whatever its dependencies are: its name is taken, or something it makes is
made already. -/
def refusal? (schedule : Schedule τ) (declaration : Declaration) : Option Fault :=
  if schedule.hasTask declaration.name then some (.duplicateTask declaration.name)
  else (schedule.firstMade? declaration.produces).map fun (artifact, first) =>
    .duplicateProducer artifact (schedule.nameAt first) declaration.name

/-- A change of the graph that leaves the schedule as it was if it fails. -/
def changeGraph (change : Graph → Except Fault Graph) : Step (Schedule τ) Unit := do
  let schedule ← get
  set { schedule with graph := ← Step.ofExcept (change schedule.graph) }

/-- Adds the vertex of a new task and the edges the task brings. -/
def drawTask (declaration : Declaration) : Step (Schedule τ) Unit := do
  let schedule ← get
  changeGraph (·.insertVertex schedule.slots.length declaration.name)
  (schedule.newEdges declaration).forM fun edge => changeGraph (·.insertEdge edge.1 edge.2)

/-- Adds a task after those that are there, and enters it. -/
def push (schedule : Schedule τ) (declaration : Declaration) (task : τ) : Schedule τ :=
  { schedule with
    slots := schedule.slots ++ [{ declaration with task := some task }]
    lookup := schedule.lookup.enter schedule.slots.length declaration
    entered := by
      rw [List.map_append, schedule.entered]
      simpa using (Lookup.ofList_concat (schedule.slots.map (·.toDeclaration)) declaration).symm }

/-- Adds a task unless it is refused. The graph is extended first; if this closes a cycle, the new
vertex is taken out again. -/
def enroll (declaration : Declaration) (task : τ) : Step (Schedule τ) Unit := do
  let schedule ← get
  match schedule.refusal? declaration with
  | some fault => throw fault
  | none =>
    drawTask declaration
    match (← get).graph.findCycle? with
    | some cycle =>
      let fresh := schedule.slots.length
      changeGraph (·.remove fresh)
      throw (.cyclicTasks (cycle.map fun v =>
        if v = fresh then declaration.name else schedule.nameAt v))
    | none => modify (·.push declaration task)

/-! ### Running -/

def isDone (schedule : Schedule τ) (index : Nat) : Bool := index ∈ schedule.done

def markDone (schedule : Schedule τ) (index : Nat) : Schedule τ :=
  { schedule with done := schedule.done.insert index }

/-- Forgets that a task ran. -/
def reset (schedule : Schedule τ) (index : Nat) : Schedule τ :=
  { schedule with done := schedule.done.filter (· ≠ index) }

def resetAll (schedule : Schedule τ) : Schedule τ := { schedule with done := .empty }

theorem map_toDeclaration_modify (slots : List (Slot τ)) (index : Nat) (task : Option τ) :
    (slots.modify index fun slot => { slot with task }).map (·.toDeclaration) =
      slots.map (·.toDeclaration) := by
  refine List.ext_getElem? fun i => ?_
  rw [List.getElem?_map, List.getElem?_map, List.getElem?_modify]
  cases slots[i]? with
  | none => rfl
  | some slot =>
    show some (if index = i then { slot with task } else slot).toDeclaration = _
    split <;> rfl

/-- Fills or empties a slot, whose declaration stays. -/
def put (schedule : Schedule τ) (index : Nat) (task : Option τ) : Schedule τ :=
  { schedule with
    slots := schedule.slots.modify index fun slot => { slot with task }
    entered := by rw [map_toDeclaration_modify, schedule.entered] }

/-- Takes a task out of its slot, where it must be. -/
def take (index : Nat) : Step (Schedule τ) τ := do
  let schedule ← get
  match schedule.slots[index]?.bind (·.task) with
  | some task =>
    set (schedule.put index none)
    return task
  | none => throw (.taskRunning (schedule.nameAt index))

/-- Puts a task back. -/
def restore (schedule : Schedule τ) (index : Nat) (task : τ) : Schedule τ :=
  schedule.put index (some task)

/-! ### Dependents -/

/-- Every task that needs what a task makes, directly or not, in an order in which they can run. -/
def dependents (schedule : Schedule τ) (index : Nat) : Except Fault (List Nat) := do
  let reached ← schedule.graph.reachable index
  return (← schedule.graph.topologicalOrder).filter (· ∈ reached)

end Schedule

end ProgramAnalysis
