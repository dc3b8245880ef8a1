import ProgramAnalysis.Shell.Parse

/-!
Running a text as a script, in a process that is waited for or in one that is not.
-/

namespace ProgramAnalysis.Shell

variable (r : Runner)

/-! ### Texts -/

def runLines (mode : Mode) : Nat → Source → Nat → Run Nat
  | 0, _, code => return code
  | fuel + 1, source, code => do
    match nextLine { source with aliases := (← get).aliases } with
    | .error fault =>
      modify ({ · with line := fault.line })
      fail ("Syntax error: " ++ fault.message)
    | .ok none => return code
    | .ok (some (.sequence [], rest)) => runLines mode fuel rest code
    | .ok (some (command, rest)) =>
      r mode command
      runLines mode fuel rest (← get).status

def runText (mode : Mode) (text : String) : Run Nat :=
  runLines r mode (text.length + 1) (Source.ofText text 1) 0

/-! ### Signals and endings -/

def runAction (action : String) : Run Unit := do
  let status := (← get).status
  modify ({ · with interrupted := some status })
  let _ ← runText r {} action
  modify ({ · with interrupted := none, status })

def deliver : Run Unit := do
  let p ← get
  let (own, others) := p.world.signals.partition (·.1 = p.realNumber)
  if !own.isEmpty then
    changeWorld ({ · with signals := others })
    for (_, signal) in own do
      match p.traps.get? signal with
      | some action =>
        if signal = 9 then throw (.killed signal)
        if action ≠ "" then runAction r action
      | none => if isFatal signal then throw (.killed signal)

def endingOf (p : Process) : Ending → Ending
  | .exited code | .returned code => .exited (code % 256)
  | .killed signal => .killed signal
  | .failed => .exited 2
  | .broke _ | .continued _ => .exited (p.status % 256)

def toTheEnd (run : Run Unit) : Run Ending := fun p =>
  let (ending, after) : Ending × Process := match run p with
    | .ok _ after => (.exited (after.status % 256), after)
    | .error ending after => (endingOf after ending, after)
  match ending, after.traps.get? 0 with
  | .exited code, some action =>
    let ready := { after with traps := after.traps.erase 0, status := code, command := none }
    match runAction r action ready with
    | .ok _ after | .error (.returned _) after => .ok ending after
    | .error other after => .ok (endingOf after other) after
  | _, _ => .ok ending after

def mostTurns : Nat := 10000

def Job.process (job : Job) (world : World) (horizon : Option Int) : Process :=
  { job.situation with
    world := { world with
      clock := job.time, horizon, pausedUntil := none, isBlocked := false, deadline := none } }

def Job.at (job : Job) (p : Process) : Job :=
  { job with situation := p.toSituation, time := p.world.clock }

def World.resumed (after before : World) : World :=
  { after with
    clock := before.clock, horizon := before.horizon, pausedUntil := before.pausedUntil,
    isBlocked := before.isBlocked, deadline := before.deadline }

def Job.ended (job : Job) (r : Runner) (before : World) (run : Run Unit) (p : Process) : World :=
  match toTheEnd r run p with
  | .ok ending after | .error ending after =>
    { after.world.resumed before with ended := (job.number, ending) :: after.world.ended }

def Job.run (horizon : Option Int) (before : World) :
    List Command → Job → World → World
  | [], job, world => job.ended r before (return) (job.process world horizon)
  | command :: rest, job, world =>
    let (ending, after) : Option Ending × Process :=
      match r { last := rest.isEmpty } command (job.process world horizon) with
      | .ok _ after => (none, after)
      | .error ending after => (some ending, after)
    match after.world.pausedUntil, ending with
    | some wake, _ =>
      { world.resumed before with
        jobs := world.jobs ++ [{ job with commands := command :: rest, wake }] }
    | none, none => Job.run horizon before rest (job.at after) after.world
    | none, some ending => job.ended r before (throw ending) after

def World.earliest? (world : World) (others : List Nat) : Option Job :=
  ((world.jobs.filter (!others.contains ·.number)).mergeSort fun a b =>
    a.wake < b.wake || (a.wake = b.wake && a.number ≤ b.number)).head?

/-- Runs a job as far as it goes, and tells whether it got on. -/
def advanceJob (job : Job) : Run Bool := do
  let world := (← get).world
  if world.clock < job.wake then sleepFor (job.wake - world.clock)
  let world := (← get).world
  let without := { world with jobs := world.jobs.filter (·.number ≠ job.number) }
  changeWorld fun _ => job.run r (some (max job.wake job.time)) world job.commands without
  return !(← get).world.jobs.any fun other =>
    other.number = job.number && other.wake = job.wake &&
      other.commands.length = job.commands.length

def awaitJobs (isDone : World → Job → Bool) : Nat → List Nat → Run Unit
  | 0, _ => return
  | fuel + 1, stuck => do
    let world := (← get).world
    let some job := world.earliest? stuck | return
    if isDone world job then return
    let moved ← advanceJob r job
    awaitJobs isDone fuel (if moved then [] else job.number :: stuck)

def advanceJobs : Run Unit := do
  let time := (← get).world.clock
  awaitJobs r (fun _ job => time < job.wake) mostTurns []

def awaitAny : Nat → List Nat → Run Bool
  | 0, _ => return false
  | fuel + 1, stuck => do
    let some job := (← get).world.earliest? stuck | return false
    if ← advanceJob r job then return true else awaitAny fuel (job.number :: stuck)

def retrying (run : Run Unit) : Nat → Run Unit
  | 0 => run
  | fuel + 1 => fun before =>
    let result := run before
    let isBlocked := match result with
      | .ok _ after | .error _ after => after.world.isBlocked
    if !isBlocked then result
    else
      (do
        if ← awaitAny r before.world.jobs.length [] then retrying run fuel
        else ensuring run (changeWorld ({ · with isBlocked := false })) :
        Run Unit) before

def finishJobs : Run Unit := awaitJobs r (fun _ _ => false) mostTurns []

/-! ### Starting -/

def Command.parts : Command → List Command
  | .sequence commands => commands
  | command => [command]

def startJob (commands : List Command) (descriptors : Table Nat Nat) : Run Unit := do
  let p ← get
  let number := p.world.next
  let situation := { p.toSituation with
    descriptors, realNumber := number, living := number :: p.living, jobs := [], status := 0
    traps := ⟨p.traps.entries.filter (·.2 = "")⟩, loops := 0, isBackground := true }
  let time := p.world.clock
  let job : Job := { number, owner := p.realNumber, commands, situation, time, wake := time }
  set { p with
    world := { p.world with next := number + 1, jobs := p.world.jobs ++ [job] }
    jobs := number :: p.jobs
    lastJob := some number
    status := 0 }

/-! ### Waiting -/

def waitUntil (isDone : World → Bool) : Run (Option Nat) := do
  let own := (← get).realNumber
  awaitJobs r (fun world _ => isDone world || world.signals.any (·.1 = own)) mostTurns []
  return ((← get).world.signals.find? (·.1 = own)).map (128 + ·.2)

def waitForJob (number : Nat) : Run Nat := do
  if !(← get).jobs.contains number then return 127
  if let some code ← waitUntil r (!·.jobs.any (·.number = number)) then return code
  return (((← get).world.ended.lookup number).map Ending.code).getD 127

def waitForAll : Run Nat := do
  let own := (← get).realNumber
  return (← waitUntil r (!·.jobs.any (·.owner = own))).getD 0

def subshell (run : Run Unit) : Run Ending := do
  if !(← get).world.jobs.isEmpty then advanceJobs r
  let number := (← get).world.next
  changeWorld ({ · with next := number + 1 })
  let ended ← nested (toTheEnd r do
    modify fun p => { p with
      realNumber := number
      living := number :: p.living
      jobs := []
      traps := ⟨p.traps.entries.filter (·.2 = "")⟩ }
    run)
  deliver r
  return match ended with
    | .ok ending | .error ending => ending

def setEnding (ending : Ending) : Run Unit := do
  match ending with
  | .exited code => setStatus code
  | .killed signal =>
    if signal ≠ 2 ∧ signal ≠ 13 then complain (signalDescription signal)
    setStatus (128 + signal)
  | _ => setStatus 2

end ProgramAnalysis.Shell
