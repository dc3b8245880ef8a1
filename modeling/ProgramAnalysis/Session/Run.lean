import ProgramAnalysis.Session.Basic

/-!
Running tasks.
-/

namespace ProgramAnalysis.Session

/-- A way to run tasks, which bodies are given. -/
abbrev Runner := String → Step Session Unit

/-! ### Refinement loops -/

/-- How many things of one sort the last step named. -/
def refinedSize (refined : Refined) : Step Session Nat := onStore do
  let relation ← Store.loadRelation refined.relation
  let size ← Step.ofExcept relation.size
  Store.closeRelation refined.relation
  return size

/-- Forgets that contexts were computed, and everything that depends on them. -/
def invalidate (contexts : String) : Step Session Unit := do
  let names ← query (·.dependents contexts)
  reset contexts
  names.forM reset

/-- Runs the client, and unless no rounds are left judges its results and refines, until nothing is
named. -/
def driveFrom (run : Runner) (loop : Refinement) :
    Nat → Refinement.Outcome → Step Session Refinement.Outcome
  | 0, outcome => do
    run loop.base
    return { outcome with iterations := outcome.iterations + 1 }
  | rounds + 1, outcome => do
    run loop.base
    run loop.feedback
    run loop.refinement
    let sizes ← Refined.reported.mapM refinedSize
    let outcome := { outcome with
      iterations := outcome.iterations + 1
      refinements := outcome.refinements ++ [sizes] }
    if sizes.all (· = 0) then
      return { outcome with converged := true }
    else
      invalidate loop.contexts
      driveFrom run loop rounds outcome

/-- Drives a loop from its first round on. -/
def driveWith (run : Runner) (loop : Refinement) : Step Session Refinement.Outcome :=
  driveFrom run loop loop.maxIterations {}

/-! ### Bodies -/

/-- Performs one action of a script that has run some times before. -/
def act (run : Runner) (runs : Nat) : Action → Step Session Unit
  | .fail reason failing =>
    if failing.all (·.contains runs) then throw (.gaveUp reason) else return
  | .run task => run task
  | .reset task => reset task
  | .putDomain any =>
    modify fun session => { session with store := session.store.putDomain any.domain }
  | .fill relation tuples => onStore (Store.fillRelation relation tuples)
  | .fillByRun relation tuples => onStore (Store.fillRelation relation (tuples[runs]?.getD []))
  | .work step => onStore step
  | .tolerate action => fun session =>
    match act run runs action session with
    | .ok _ after | .error _ after => .ok () after

/-- Computes contexts with the store of the session. -/
def runContexts : Step (Abstraction × Session) Unit := do
  let (_, session) ← get
  Step.onPart (fun s => (s.2.store, s.1))
    (fun s changed => (changed.2, { s.2 with store := changed.1 }))
    (Abstraction.run session.options session.program)

/-- Does what a body says. The body itself may change: a script counts its runs, and an abstraction
becomes more precise. -/
def perform (run : Runner) : Step (Body × Session) Unit := do
  let (body, session) ← get
  let onSession (step : Step Session Unit) : Step (Body × Session) Unit :=
    Step.onPart Prod.snd (fun s session => (s.1, session)) step
  match body with
  | .script actions runs =>
    modify fun s => (.script actions (runs + 1), s.2)
    onSession (actions.forM (act run runs))
  | .domain domain => onSession (onStore (domain.publish session.options session.program))
  | .relation relation remap => onSession (onStore (relation.publish remap session.program))
  | .contexts abstraction =>
    Step.onPart (fun s => (abstraction, s.2)) (fun _ s => (.contexts s.1, s.2)) runContexts
  | .refinement loop => onSession do
    let outcome ← driveWith run loop
    modify fun session =>
      { session with outcomes := session.outcomes.insert loop.name outcome }
  | .datalog file outputs => onSession do
    outputs.forM fun output => onStore (Store.closeRelation output)
    solve file
  | .escape setup => onSession (onStore setup.run)

/-! ### Runs -/

/-- Puts a task back with what has become of its body. -/
def restore (session : Session) (index : Nat) (task : Task) (body : Body) : Session :=
  { session with schedule := session.schedule.restore index { task with body } }

/-- Takes a task out of its slot, does what its body says, and puts it back. It counts as done if
that went well. -/
def runBody (run : Runner) (index : Nat) : Step Session Unit := do
  let task ← Step.onPart Session.schedule (fun session schedule => { session with schedule })
    (Schedule.take index)
  note (.started task.name)
  fun session =>
    match perform run (task.body, session) with
    | .ok _ (body, after) =>
      let restored := after.restore index task body
      let finished := { restored with schedule := restored.schedule.markDone index }
      note (.finished task.name) finished
    | .error fault (body, after) =>
      match note (.failed task.name) (after.restore index task body) with
      | .ok _ noted | .error _ noted => .error fault noted

/-- The name of the task that makes what another needs. -/
def producerOf (session : Session) (artifact consumer : String) : Except Fault String :=
  match session.schedule.producer? artifact with
  | some producer => .ok (session.schedule.nameAt producer)
  | none => .error (.noProducer artifact consumer)

/-- What has to be made before a task runs. -/
def needs (session : Session) (index : Nat) : List String :=
  ((session.schedule.slots[index]?).map (·.consumes)).getD []

/-- Runs a task after everything it needs, unless it has run. `launch` runs the task at an index,
and `depth` bounds how long a chain of needs can be. -/
def runAfterNeeds (launch : Nat → Step Session Unit) : Nat → Runner
  | 0, _ => throw .cyclicGraph
  | depth + 1, name => do
    let index ← query (·.schedule.index name)
    let session ← get
    unless session.schedule.isDone index do
      for artifact in session.needs index do
        let producer ← query (·.producerOf artifact name)
        runAfterNeeds launch depth producer
      launch index

/-- No chain of needs is longer. -/
def depthBound (session : Session) : Nat := session.schedule.slots.length + 1

/-- Runs the task at an index while some slots are still full. Its body may run further tasks, with
one slot less. -/
def launch : Nat → Nat → Step Session Unit
  | 0, index => do
    throw (.taskRunning ((← get).schedule.nameAt index))
  | full + 1, index => do
    let depth := (← get).depthBound
    runBody (runAfterNeeds (launch full) depth) index

/-- Runs a task after everything it needs, unless it has run in this session. -/
def run (name : String) : Step Session Unit := do
  let session ← get
  runAfterNeeds (launch session.schedule.slots.length) session.depthBound name

def drive (loop : Refinement) : Step Session Refinement.Outcome := driveWith run loop

end ProgramAnalysis.Session
