import ProgramAnalysis.Solver.Command
import ProgramAnalysis.Task

/-!
A session: the options and the program, the store, the tasks and what has been done with them.
-/

namespace ProgramAnalysis

/-- What happened to a task, or to a Datalog program. -/
inductive JournalEntry where
  | started (task : String)
  | finished (task : String)
  | failed (task : String)
  | solved (file : String)
  deriving DecidableEq, Repr

/-- What is analysed and how, what was made, the tasks, and how loops and runs went. -/
structure Session where
  options : Options
  program : Program
  store : Store
  schedule : Schedule Task
  solver : Solver
  outcomes : Table String Refinement.Outcome
  journal : List JournalEntry

namespace Session

/-- A session without tasks. -/
def create (options : Options) (program : Program) (disk : Disk)
    (machine : Machine := Shell.machine) : Session where
  options := options
  program := program
  store := .onDirectory disk options.workDir
  schedule := .empty
  solver := .command machine (.ofOptions options)
  outcomes := .empty
  journal := []

def onStore {α : Type} (step : Step Store α) : Step Session α :=
  Step.onPart Session.store (fun session store => { session with store }) step

/-- Asks without changing anything. -/
def query {α : Type} (f : Session → Except Fault α) : Step Session α := fun session =>
  match f session with
  | .ok a => .ok a session
  | .error fault => .error fault session

def note (entry : JournalEntry) : Step Session Unit :=
  modify fun session => { session with journal := session.journal ++ [entry] }

/-! ### Registering tasks -/

/-- Checks the signatures a task gives against each other and against what is declared already. -/
def checkRelations (session : Session) (task : String) (earlier : List (String × Signature)) :
    List (String × Signature) → Except Fault Unit
  | [] => .ok ()
  | (relation, signature) :: rest => do
    if let some (_, other) := earlier.find? (·.1 = relation) then
      if other.columns ≠ signature.columns then
        throw (.schema relation (.declaredTwice task other signature))
    if let some existing := session.store.relations.get? relation then
      if existing.signature.columns ≠ signature.columns then
        throw (.schema relation (.declaredOtherwise task signature existing.signature))
    session.checkRelations task (earlier ++ [(relation, signature)]) rest

def declare (name : String) (signature : Signature) : Step Session Unit := do
  let store ← query (·.store.declare name signature)
  modify fun session => { session with store }

/-- Adds a task and declares its relations. -/
def register (task : Task) : Step Session Unit := do
  query fun session => session.checkRelations task.name [] task.relations
  Step.onPart Session.schedule (fun session schedule => { session with schedule })
    (Schedule.enroll task.toDeclaration task)
  for (name, signature) in task.relations do
    declare name signature

/-- Adds the task that a Datalog program declares. -/
def registerDatalog (file text : String) : Step Session Unit := do
  let header ← Step.ofExcept ((Datalog.parse file text).mapError Fault.datalog)
  register (.ofDatalog header)

/-- Adds a task for every Datalog program in a directory. -/
def registerDatalogDirectory (dir : String) : Step Session Unit := do
  let names ← query (·.store.disk.folderNames dir)
  for name in names.filter (Path.extension? · = some "datalog") do
    let file := Path.join dir name
    registerDatalog file (← query (·.store.disk.readText file))

/-! ### Tasks and their dependents -/

def isDone (session : Session) (name : String) : Except Fault Bool :=
  (session.schedule.index name).map session.schedule.isDone

/-- Forgets that a task ran. Tasks that depend on it are left alone. -/
def reset (name : String) : Step Session Unit := do
  let index ← query (·.schedule.index name)
  modify fun session => { session with schedule := session.schedule.reset index }

/-- The names of the tasks that need what a task makes, directly or not. -/
def dependents (session : Session) (name : String) : Except Fault (List String) := do
  let index ← session.schedule.index name
  return (← session.schedule.dependents index).map session.schedule.nameAt

/-- Forgets that the tasks that depend on one ran, and says which. -/
def resetDependents (name : String) : Step Session (List String) := do
  let names ← query (·.dependents name)
  names.forM reset
  return names

/-! ### Solving -/

/-- Gives a Datalog program to the solver. -/
def solve (file : String) : Step Session Unit := do
  let session ← get
  match session.solver with
  | .command machine command =>
    onStore (Store.onDisk (command.run file session.store.dir machine))
  | .prepared answers calls =>
    note (.solved file)
    let earlier := (calls.get? file).getD 0
    let solver := .prepared answers (calls.insert file (earlier + 1))
    modify fun session => { session with solver }
    let answer := (((answers.get? file).getD [])[earlier]?).getD {}
    onStore (Store.onDisk (answer.give session.store.dir))

end Session

end ProgramAnalysis
