import ProgramAnalysis.Shell.Program

/-!
Running commands.
-/

namespace ProgramAnalysis.Shell

/-! ### Commands that run others -/

def naming (name : String) (run : Run α) : Run α := do
  let saved := (← get).command
  modify ({ · with command := some name })
  ensuring run (modify ({ · with command := saved }))

variable (r : Runner) (mode : Mode)

def Mode.inner : Mode := { mode with last := false }

def restored (vars : Table String Variable) (name : String) :
    Option Variable → Table String Variable
  | some known => vars.insert name known
  | none => vars.erase name

def call (body : Command) (args : List String) : Run Unit := do
  let before ← get
  let restore : Run Unit := modify fun p =>
    { p with
      vars := p.shadowed.foldl (fun vars (name, old) => restored vars name old) p.vars
      shadowed := before.shadowed
      options := p.shadowedOptions.getD p.options
      shadowedOptions := before.shadowedOptions
      arguments := before.arguments
      loops := before.loops
      functionDepth := before.functionDepth }
  set { before with
    arguments := args, loops := 0, functionDepth := before.functionDepth + 1, shadowed := [],
    shadowedOptions := none }
  ensuring (fun p =>
    match r mode.inner body p with
    | .error (.returned code) after => .ok () { after with status := code }
    | result => result) restore

def source (args : List String) : Run Nat := do
  let name :: _ := args | return 0
  let p ← get
  let isPath := name.toList.contains '/'
  let candidates := if isPath then [name]
    else (Text.splitAt ':' ((p.value? "PATH").getD "")).map fun folder =>
      Files.inside (if folder = "" then "." else folder) name
  let some path := candidates.find? fun path => (p.find? path).isSome
    | fail (if isPath then "cannot open " ++ name ++ ": No such file" else name ++ ": not found")
  let text := (← readFile path).toOption.getD ""
  naming name fun p =>
    match runText r mode.inner text p with
    | .error (.returned code) after => .ok code after
    | result => result

variable (args : List String)

def givenCode : Run Nat := do
  if let arg :: _ := args then return ← Builtin.natural arg
  let p ← get
  return p.interrupted.getD p.status

def leaveLoops (ending : Nat → Ending) (args : List String) : Run Nat := do
  let count ← (args.head?.map Builtin.natural).getD (pure 1)
  if count = 0 then fail ("Illegal number: " ++ args.headD "")
  let loops := (← get).loops
  if loops = 0 then return 0
  setStatus 0
  throw (ending (min count loops))

def controlNames : List String := ["command", "hash", "type", "wait"]

def describe (brief : Bool) (name : String) : Run Nat := do
  let p ← get
  let present (text : String) : Run Nat := tell (text ++ "\n")
  if name ∈ Parse.reservedWords then present (if brief then name else name ++ " is a shell keyword")
  else if let some value := p.aliases.get? name then
    if brief then Builtin.put "command" ("alias " ++ Builtin.aliasLine name value)
    else present (name ++ " is an alias for " ++ value)
  else if (p.functions.get? name).isSome then
    present (if brief then name else name ++ " is a shell function")
  else if (builtin? name).isSome ∨ name ∈ Parse.specialCommands ∨ name ∈ controlNames then
    let kind := if name ∈ Parse.specialCommands ∨ name = "local" then " is a special shell builtin"
      else " is a shell builtin"
    present (if brief then name else name ++ kind)
  else
    match Program.search p "" name with
    | .ok found => present (if brief then found.path else name ++ " is " ++ found.path)
    | .error _ =>
      if !brief then emit (name ++ ": not found\n")
      return 127

def wait : Run Nat := do
  if args.isEmpty then return ← waitForAll r
  let mut code := 0
  for arg in args do code ← waitForJob r (← Builtin.natural arg)
  return code

def control? (name : String) (args : List String) : Option (Run Nat) :=
  match name with
  | "eval" => some (runText r mode.inner (" ".intercalate args))
  | "." => some (source r mode args)
  | "exit" => some do throw (.exited (← givenCode args))
  | "return" => some do throw (.returned (← givenCode args))
  | "break" => some (leaveLoops .broke args)
  | "continue" => some (leaveLoops .continued args)
  | "type" => some (forEach (describe false) args)
  | "hash" => some (return 0)
  | "wait" => some (wait r args)
  | _ => none

/-! ### Simple commands -/

inductive Target where
  | function (body : Command)
  | builtin (special : Bool)
  | program

def target (p : Process) (bare : Bool) (name : String) : Target :=
  let special := name ∈ Parse.specialCommands
  let isBuiltin := special || (builtin? name).isSome || name ∈ controlNames
  if special then .builtin (!bare)
  else
    match p.functions.get? name, bare with
    | some body, false => .function body
    | _, _ => if isBuiltin then .builtin (name = "local" && !bare) else .program

def expandArgument (declares : Bool) (word : Word) : Run (List String) := do
  match Parse.assignment? word, declares with
  | some (name, value), true => return [name ++ "=" ++ (← expandWhole r .assigned value)]
  | _, _ => expandFields r word

def expandWords (declares : Bool) (words : List Word) : Run (List String) := do
  return (← words.mapM (expandArgument r declares)).flatten

def declares? (fields : List String) : Option Bool :=
  (fields.dropWhile (· ∈ ["command", "-p", "--"])).head?.map
    (· ∈ ["alias", "export", "local", "readonly"])

def expandCommand (r : Runner) (before : List String) : List Word → Run (List String)
  | [] => return before
  | word :: rest => do
    let fields := before ++ (← expandFields r word)
    match declares? fields with
    | none => expandCommand r fields rest
    | some declares => return fields ++ (← expandWords r declares rest)

def assignAll (r : Runner) (exported : Bool) : List (String × Word) → Run (List String)
  | [] => return []
  | (name, word) :: rest => do
    let value ← expandWhole r .assigned word
    assign name value
    if exported then
      modify fun p =>
        { p with vars := p.vars.insert name { value := some value, exported := true } }
    return (name ++ "=" ++ value) :: (← assignAll r exported rest)

def keepingVars (names : List String) (run : Run α) : Run α := do
  let before := (← get).vars
  ensuring run (modify fun p => { p with
    vars := names.foldl (fun vars name => restored vars name (before.get? name)) p.vars })

def trace (stream : Option Nat) (words : List String) : Run Unit := do
  let p ← get
  if p.options.contains 'x' then
    if let (some number, some target) := (stream, stream.bind (p.world.streams[·]?)) then
      writeTo number target ((p.value? "PS4").getD "" ++ " ".intercalate words ++ "\n")

def runBuiltin (special : Bool) (name : String) (args : List String) : Run Unit := do
  let run := ((control? r mode name args).orElse fun _ => (builtin? name).map (· args)).getD
    (return 127)
  let named : Run Unit := do setStatus (← naming name run)
  if special then named
  else fun p =>
    match named p with
    | .error .failed after => .ok () { after with status := 2 }
    | result => result

def invoke (r : Runner) (mode : Mode) : Nat → Bool → String → List String → Run Unit
  | 0, _, _, _ => return
  | fuel + 1, bare, name, args => do
    match name, bare, args with
    | "command", _, args =>
      match args with
      | [] => setStatus 0
      | "-v" :: names => setStatus (← forEach (describe true) (names.take 1))
      | "-V" :: names => setStatus (← forEach (describe false) (names.take 1))
      | "-p" :: name :: rest | "--" :: name :: rest => invoke r mode fuel true name rest
      | name :: rest =>
        match name.toList with
        | '-' :: c :: _ => runBuiltinFailure ("Illegal option -" ++ String.singleton c)
        | _ => invoke r mode fuel true name rest
    | "exec", _, [] => setStatus 0
    | "exec", _, program :: rest =>
      naming "exec" do
        match Program.search (← get) "" program with
        | .error _ =>
          spawn r true program rest
          throw (.exited (← get).status)
        | .ok _ => spawn r true program rest
    | name, bare, args =>
      match target (← get) bare name with
      | .function body => call r mode body args
      | .builtin special => runBuiltin r mode special name args
      | .program =>
        let hasTraps := !(← get).traps.isEmpty
        spawn r (mode.last && !hasTraps) name args
where
  runBuiltinFailure (message : String) : Run Unit := do
    naming "command" (warn message)
    setStatus 2

def runSimple (line : Nat) (assignments : List (String × Word)) (words : List Word)
    (redirects : List Redirect) : Run Unit := do
  modify ({ · with line, substituted := 0 })
  let fields ← expandCommand r [] words
  let before ← get
  let errors := before.descriptors.get? 2
  match fields with
  | [] =>
    if ← keepingDescriptors (redirectAll r redirects) then
      let assigned ← assignAll r false assignments
      if !assigned.isEmpty then trace errors assigned
      setStatus (← get).substituted
    else setStatus 2
  | name :: args =>
    let isSpecial := target before false name matches .builtin true
    let run : Run Unit := do
      if ← redirectAll r redirects then
        let names := if isSpecial then [] else assignments.map (·.1)
        keepingVars names do
          let assigned ← assignAll r (!isSpecial) assignments
          trace errors (assigned ++ name :: args)
          invoke r mode (args.length + 2) false name args
      else
        setStatus 2
        if isSpecial then throw .failed
    if name = "exec" ∧ args.isEmpty then run else keepingDescriptors run

def patience : Nat := 10000000

def aeon : Int := 1000000000000000000

/-! ### Commands -/

def endIfFailed : Run Unit := do
  let p ← get
  if !mode.tested ∧ p.status ≠ 0 ∧ p.options.contains 'e' then throw (.exited p.status)

def loopPart (run : Run Bool) : Run Bool := fun p =>
  match run p with
  | .error (.broke (count + 2)) after => .error (.broke (count + 1)) after
  | .error (.broke _) after => .ok false after
  | .error (.continued (count + 2)) after => .error (.continued (count + 1)) after
  | .error (.continued _) after => .ok true after
  | result => result

def iterate (run : Run Bool) : Nat → Run Unit
  | 0 => sleepFor aeon
  | count + 1 => do if ← run then iterate run count

def loopBound : Run Nat := do
  let p ← get
  return if p.isBackground || p.world.deadline.isSome then 20000 else patience

def inLoop (run : Run Unit) : Run Unit := do
  let loops := (← get).loops
  modify ({ · with loops := loops + 1 })
  ensuring run (modify ({ · with loops }))

def runEach (name : String) (body : Run Unit) : List String → Run Unit
  | [] => return
  | value :: rest => do
    let goesOn ← loopPart do
      assign name value
      body
      return true
    if goesOn then runEach name body rest

def chooseCase (text : String) (cases : List (List Word × Command)) : Run (Option Command) := do
  let found ← cases.findM? fun (patterns, _) => patterns.anyM fun pattern => do
    return (Pattern.ofGlyphs (← expandGlyphs r .first pattern)).isMatch text.toList
  return found.map (·.2)

variable (number : Nat)

def isStarved : Run Bool := do
  match (← get).world.streams[number]? with
  | some { channel := .pipe pipe, .. } => return pipe.isStarved
  | _ => return false

def cut : Run Unit := do
  if let some stream := (← get).world.streams[number]? then
    if let .pipe pipe := stream.channel then
      setStream number { stream with channel := .pipe { pipe with isCut := true } }

def runStages (r : Runner) (mode : Mode) (limit : Nat) (input : Option Nat) :
    List Command → Run Bool
  | [] => return false
  | stage :: rest => do
    let pipe : Stream :=
      { channel := .pipe { limit := some limit }, readable := true, writable := true }
    let output ← if rest.isEmpty then pure none else some <$> openStream pipe
    let ending ← subshell r do
      if let some stream := input then setDescriptor 0 stream
      if let some stream := output then setDescriptor 1 stream
      r { tested := mode.tested, last := true } stage
    setEnding ending
    let starved ← (input.map isStarved).getD (pure false)
    let some stream := output | return starved
    if starved then cut stream
    runStages r mode limit output rest

def pipeLimits : List Nat := [65536, 1048576, 8388608]

def runPipeline (r : Runner) (mode : Mode) (stages : List Command) : List Nat → Run Unit
  | [] => return
  | limit :: larger => do
    let before ← get
    let starved ← runStages r mode limit none stages
    if starved ∧ !larger.isEmpty then
      set before
      runPipeline r mode stages larger

def runSequence (r : Runner) (mode : Mode) : List Command → Run Unit
  | [] => return
  | [last] => r mode last
  | first :: rest => do
    r { mode with last := false } first
    runSequence r mode rest

def commandOf (words : List String) : Command :=
  .simple 1 [] (words.map fun word => [.text word true]) []

/-- The descriptors after redirections, if those succeed. -/
def descriptorsBy (redirects : List Redirect) : Run (Option (Table Nat Nat)) :=
  keepingDescriptors do
    if ← redirectAll r redirects then return some (← get).descriptors else return none

def runStep : Command → Run Unit
  | .simple line assignments words redirects => do
    let time := (← get).world.clock
    retrying r (runSimple r mode line assignments words redirects) 1000
    let world := (← get).world
    if world.clock ≠ time ∧ !world.jobs.isEmpty then advanceJobs r
    deliver r
    endIfFailed mode
  | .sequence commands => runSequence r mode commands
  | .pipeline stages => do
    runPipeline r mode stages pipeLimits
    endIfFailed mode
  | .negate command => do
    r { tested := true } command
    setStatus (if (← get).status = 0 then 1 else 0)
  | .both first second => do
    r { tested := true } first
    if (← get).status = 0 then r mode second
  | .either first second => do
    r { tested := true } first
    if (← get).status ≠ 0 then r mode second
  | .branch condition yes no => do
    r { tested := true } condition
    if (← get).status = 0 then r mode yes else (no.map (r mode)).getD (setStatus 0)
  | .loop expected condition body => inLoop do
    setStatus 0
    iterate (loopPart do
      let code := (← get).status
      r { tested := true } condition
      let goesOn := ((← get).status == 0) == expected
      if goesOn then r mode.inner body else setStatus code
      return goesOn) (← loopBound)
  | .each line name words body => do
    modify ({ · with line })
    let fields ← expandWords r false words
    setStatus 0
    inLoop (runEach name (r mode.inner body) fields)
  | .select line word cases => do
    modify ({ · with line })
    let text ← expandWhole r .first word
    let body? ← chooseCase r text cases
    setStatus 0
    if let some body := body? then r mode body
  | .nested line command redirects => do
    modify ({ · with line })
    match ← descriptorsBy r redirects with
    | none => setStatus 2
    | some descriptors =>
      let ending ← subshell r do
        modify ({ · with descriptors })
        r { tested := mode.tested, last := true } command
      setEnding ending
    endIfFailed mode
  | .background command => do
    let nowhere ← openStream { channel := .nowhere, readable := true, writable := false }
    let (commands, redirects) := match command with
      | .nested _ inner redirects | .redirected _ inner redirects => (inner.parts, redirects)
      | _ => (command.parts, [])
    let applied ← keepingDescriptors do
      setDescriptor 0 nowhere
      descriptorsBy r redirects
    match applied with
    | some descriptors => startJob commands descriptors
    | none => startJob [commandOf ["exit", "2"]] (← get).descriptors
  | .redirected line command redirects => do
    modify ({ · with line })
    keepingDescriptors do
      if ← redirectAll r redirects then r mode.inner command else setStatus 2
  | .define name body => do
    modify fun p => { p with functions := p.functions.insert name body, status := 0 }

def runCommand : Nat → Runner
  | 0 => fun _ _ => throw (.exited 2)
  | depth + 1 => fun mode command => do
    if (← get).world.pausedUntil.isSome then throw (.killed 0)
    if !(← hasOption 'n') then runStep (runCommand depth) mode command

/-! ### Runs -/

structure Start where
  program : String
  arguments : List String
  environment : List (String × String)

structure Outcome where
  ending : Ending
  disk : Disk
  errors : String

def startTime : Int := 1767225600000000000

variable (start : Start) (disk : Disk)

def firstProcess : Process :=
  let nowhere : Stream := { channel := .nowhere, readable := true, writable := true }
  let errors : Stream := { channel := .errors, readable := false, writable := true }
  let exported (value : String) : Variable := { value := some value, exported := true }
  let common := [("PATH", exported standardPath), ("HOME", exported "/root")]
  let given := start.environment.map fun (name, value) => (name, exported value)
  { world :=
      { tree := (Program.machine startTime).withDisk disk startTime
        streams := #[nowhere, nowhere, errors]
        next := 3
        clock := startTime }
    folder := FileTree.top
    shownFolder := FileTree.top
    vars := .ofList (common ++ given)
    zero := start.program
    arguments := start.arguments
    number := 2
    realNumber := 2
    living := [2]
    descriptors := .ofList [(0, 0), (1, 1), (2, 2)] }

def start? : Option Outcome :=
  let p := firstProcess start disk
  let r := runCommand patience
  match Program.search p "" start.program with
  | .error _ => none
  | .ok found =>
    let run := runProgram r mostLaunches start.program found start.arguments
    match toTheEnd r run p with
    | .ok ending after | .error ending after =>
      match finishJobs r after with
      | .ok _ after | .error _ after =>
        some { ending, disk := after.world.tree.toDisk disk, errors := after.world.errors }

end ProgramAnalysis.Shell
