import ProgramAnalysis.Disk
import ProgramAnalysis.Shell.Pattern
import Std.Data.HashMap

/-!
A process that runs a script, on a machine with files. All processes of a run have a world in
common.
-/

namespace ProgramAnalysis.Shell

inductive Refusal where
  | missing
  | notFolder
  | isFolder
  | taken
  | notEmpty
  | tooLong
  | denied
  | closed
  | looped
  | invalid
  deriving DecidableEq

def Refusal.message : Refusal → String
  | missing => "No such file or directory"
  | notFolder => "Not a directory"
  | isFolder => "Is a directory"
  | taken => "File exists"
  | notEmpty => "Directory not empty"
  | tooLong => "File name too long"
  | denied => "Permission denied"
  | closed => "Bad file descriptor"
  | looped => "Too many levels of symbolic links"
  | invalid => "Invalid argument"

inductive Kind where
  | file (content : String)
  | folder
  | link (target : String)
  | queue (content : Chars)
  | device
  deriving DecidableEq

structure Node where
  kind : Kind
  mode : Nat
  modified : Int
  deriving DecidableEq

structure FileTree where
  nodes : Array Node
  places : Std.HashMap Location Nat

namespace FileTree

def mostLinks : Nat := 40

/-! ### Looking -/

variable (tree : FileTree) (loc : Location)

def number? : Option Nat := tree.places[loc]?

def node? : Option Node := do tree.nodes[← tree.number? loc]?

def kind? : Option Kind := (tree.node? loc).map (·.kind)

variable (number : Nat)

def kindOf? : Option Kind := (tree.nodes[number]?).map (·.kind)

def inner? : Location → Location → Option Location
  | [], loc => some loc
  | name :: rest, first :: loc => if name = first then inner? rest loc else none
  | _ :: _, [] => none

def isBefore (a b : Location) : Bool := (compare a b).isLE

def below : List Location :=
  (tree.places.keys.filter fun other => (inner? loc other).isSome).mergeSort isBefore

def names : List String :=
  let inside := tree.places.keys.filter fun other => other ≠ [] && other.dropLast = loc
  (inside.filterMap List.getLast?).mergeSort fun a b => (compare (ofText a) (ofText b)).isLE

def nameCount : Nat :=
  match tree.kind? loc, tree.number? loc with
  | some .folder, _ =>
    ((tree.names loc).filter fun name => tree.kind? (loc ++ [name]) = some .folder).length + 2
  | _, some number => (tree.places.values.filter (· = number)).length
  | _, none => 0

def walk (tree : FileTree) (follows : Bool) (links : Nat) (loc : Location) :
    List String → Except Refusal Location
  | [] => .ok loc
  | part :: rest =>
    match tree.kind? loc with
    | none => .error .missing
    | some .folder =>
      if part = "." then walk tree follows links loc rest
      else if part = ".." then walk tree follows links loc.dropLast rest
      else if !Path.isNameable part then .error .tooLong
      else
        match tree.kind? (loc ++ [part]) with
        | some (.link target) =>
          if rest.isEmpty ∧ !follows then .ok (loc ++ [part])
          else
            match links with
            | 0 => .error .looped
            | links + 1 =>
              let start := if Path.isAbsolute target then [] else loc
              walk tree follows links start (Path.parts (toText target) ++ rest)
        | _ => walk tree follows links (loc ++ [part]) rest
    | some _ => .error .notFolder
termination_by parts => (links, parts.length)

/-! ### Changing -/

def put (node : Node) : FileTree :=
  { nodes := tree.nodes.push node, places := tree.places.insert loc tree.nodes.size }

def join (number : Nat) : FileTree := { tree with places := tree.places.insert loc number }

def erase : FileTree := { tree with places := tree.places.erase loc }

def change (f : Node → Node) : FileTree := { tree with nodes := tree.nodes.modify number f }

def move (source target : Location) : FileTree :=
  let moved := tree.below source
  let cleared := (tree.below target).foldl erase (moved.foldl erase tree)
  moved.foldl (fun changed loc =>
    match inner? source loc, tree.number? loc with
    | some inner, some number => changed.join (target ++ inner) number
    | _, _ => changed) cleared

/-! ### The files of a session -/

def top : Location := ["tmp", "session", "files"]

def isOuter : Bool := loc.head? = some ".." || loc.head? = some "/"

def withDisk (disk : Disk) (time : Int) : FileTree :=
  disk.entries.entries.foldl (fun tree (loc, entry) =>
    if isOuter loc then tree
    else
      tree.put (top ++ loc) (match entry with
        | .folder => { kind := .folder, mode := 0o755, modified := time }
        | .file content =>
          { kind := .file (charsOfBytes content.bytes), mode := 0o644, modified := time }))
    ([top.dropLast, top].foldl (fun tree folder =>
      tree.put folder { kind := .folder, mode := 0o755, modified := time }) tree)

def entryAt? : Option Entry :=
  let final := (tree.walk true mostLinks [] loc).toOption.getD loc
  match (tree.kind? final).orElse fun _ => tree.kind? loc with
  | none => none
  | some .folder => some .folder
  | some (.file content) => some (.file (.ofBytes (bytesOfChars content)))
  | some _ => some (.file (.text ""))

def toDisk (before : Disk) : Disk :=
  let outer := before.entries.entries.filter fun (loc, _) => isOuter loc
  let inside := (tree.below top).filterMap fun loc =>
    match inner? top loc, tree.entryAt? loc with
    | some (name :: rest), some entry => some (name :: rest, entry)
    | _, _ => none
  ⟨⟨outer ++ inside⟩⟩

end FileTree

inductive RedirectKind where
  | output
  | replace
  | append
  | input
  | both
  deriving DecidableEq

mutual

inductive Part where
  | text (s : String) (quoted : Bool)
  | parameter (name : String) (form : Form) (quoted : Bool)
  | substitution (command : Command) (quoted : Bool)
  | arithmetic (expression : List Part) (quoted : Bool)

inductive Form where
  | value
  | length
  | orElse (orEmpty : Bool) (word : List Part)
  | orAssign (orEmpty : Bool) (word : List Part)
  | orComplain (orEmpty : Bool) (word : List Part)
  | instead (orEmpty : Bool) (word : List Part)
  | trimmed (atEnd longest : Bool) (pattern : List Part)
  | malformed

inductive Redirect where
  | file (descriptor : Nat) (kind : RedirectKind) (target : List Part)
  | duplicate (descriptor : Nat) (target : List Part)
  | document (descriptor : Nat) (body : List Part)

inductive Command where
  | simple (line : Nat) (assignments : List (String × List Part)) (words : List (List Part))
      (redirects : List Redirect)
  | sequence (commands : List Command)
  | pipeline (stages : List Command)
  | negate (command : Command)
  | both (first second : Command)
  | either (first second : Command)
  | branch (condition yes : Command) (no : Option Command)
  | loop (expected : Bool) (condition body : Command)
  | each (line : Nat) (name : String) (words : List (List Part)) (body : Command)
  | select (line : Nat) (word : List Part) (cases : List (List (List Part) × Command))
  | nested (line : Nat) (command : Command) (redirects : List Redirect)
  | background (command : Command)
  | redirected (line : Nat) (command : Command) (redirects : List Redirect)
  | define (name : String) (body : Command)

end

abbrev Word := List Part

def Command.nothing : Command := .sequence []

instance : Inhabited Command := ⟨.nothing⟩

instance : Inhabited Part := ⟨.text "" false⟩

inductive RedirectOperator where
  | file (kind : RedirectKind)
  | duplicate
  | document (stripTabs : Bool)

inductive Token where
  | finish
  | newline
  | semicolon
  | background
  | both
  | pipe
  | either
  | opening
  | closing
  | endCase
  | redirect (descriptor : Nat) (operator : RedirectOperator)
  | word (word : Word) (reserved : Option String)

namespace Token

def name : Token → String
  | finish => "end of file"
  | newline => "newline"
  | semicolon => "\";\""
  | background => "\"&\""
  | both => "\"&&\""
  | pipe => "\"|\""
  | either => "\"||\""
  | opening => "\"(\""
  | closing => "\")\""
  | endCase => "\";;\""
  | redirect .. => "redirection"
  | word _ none => "word"
  | word _ (some reserved) => "\"" ++ reserved ++ "\""

def endsList : Token → Bool
  | finish | closing | endCase => true
  | word _ (some reserved) =>
    reserved ∈ ["do", "done", "elif", "else", "esac", "fi", "then", "\x7d"]
  | _ => false

def isReserved (expected : String) : Token → Bool
  | word _ (some reserved) => reserved = expected
  | _ => false

end Token

/-! ### The world -/

structure Pipe where
  front : Chars := []
  back : List String := []
  size : Nat := 0
  limit : Option Nat := none
  isCut : Bool := false
  isStarved : Bool := false

namespace Pipe

def ofText (text : String) : Pipe := { front := text.toList, size := text.length }

def content (pipe : Pipe) : Chars :=
  if pipe.back.isEmpty then pipe.front else pipe.front ++ (String.join pipe.back.reverse).toList

def append (pipe : Pipe) (text : String) : Pipe :=
  { pipe with back := text :: pipe.back, size := pipe.size + text.length }

end Pipe

inductive Channel where
  | nowhere
  | errors
  | node (number : Nat)
  | pipe (pipe : Pipe)

structure Stream where
  channel : Channel
  readable : Bool
  writable : Bool
  appends : Bool := false
  offset : Nat := 0

structure Variable where
  value : Option String
  exported : Bool := false
  fixed : Bool := false
  deriving DecidableEq

inductive Ending where
  | exited (code : Nat)
  | killed (signal : Nat)
  | failed
  | broke (loops : Nat)
  | continued (loops : Nat)
  | returned (code : Nat)
  deriving DecidableEq

/-- What a process has to itself. -/
structure Situation where
  folder : Location
  vars : Table String Variable
  functions : Table String Command := .empty
  shadowed : List (String × Option Variable) := []
  shadowedOptions : Option Chars := none
  zero : String
  arguments : List String
  status : Nat := 0
  substituted : Nat := 0
  options : Chars := []
  number : Nat
  realNumber : Nat
  living : List Nat
  jobs : List Nat := []
  lastJob : Option Nat := none
  optionOffset : Nat := 0
  descriptors : Table Nat Nat
  command : Option String := none
  line : Nat := 1
  loops : Nat := 0
  functionDepth : Nat := 0
  traps : Table Nat String := .empty
  interrupted : Option Nat := none
  shownFolder : Location
  umask : Nat := 0o022
  aliases : Table String String := .empty
  isBackground : Bool := false

structure Job where
  number : Nat
  owner : Nat
  commands : List Command
  situation : Situation
  time : Int
  wake : Int

structure World where
  tree : FileTree
  streams : Array Stream
  errors : String := ""
  signals : List (Nat × Nat) := []
  next : Nat
  clock : Int
  horizon : Option Int := none
  pausedUntil : Option Int := none
  isBlocked : Bool := false
  deadline : Option Int := none
  jobs : List Job := []
  ended : List (Nat × Ending) := []

def Ending.code : Ending → Nat
  | .exited code | .returned code => code % 256
  | .killed signal => 128 + signal
  | _ => 2

variable (loc : Location)

def absolutePath : String := ofText ("/" ++ "/".intercalate loc)

/-! ### Processes -/

structure Process extends Situation where
  world : World

abbrev Run (α : Type) := EStateM Ending Process α

structure Mode where
  tested : Bool := false
  last : Bool := false
  deriving DecidableEq

abbrev Runner := Mode → Command → Run Unit

def changeWorld (f : World → World) : Run Unit := modify fun p => { p with world := f p.world }

def setStatus (code : Nat) : Run Unit := modify ({ · with status := code })

def hasOption (option : Char) : Run Bool := do return (← get).options.contains option

def ensuring (run : Run α) (after : Run Unit) : Run α := fun p =>
  match run p with
  | .ok a p => (do after; return a) p
  | .error ending p => (do after; throw ending) p

def nested (run : Run α) : Run (Except Ending α) := fun before =>
  match run before with
  | .ok a after => .ok (.ok a) { before with world := after.world }
  | .error ending after => .ok (.error ending) { before with world := after.world }

/-! ### Files -/

variable (p : Process)

def Process.locateBy (follows : Bool) (path : String) : Except Refusal Location :=
  let text := toText path
  if path = "" then .error .missing
  else if !Path.isAskable text then .error .tooLong
  else
    p.world.tree.walk follows FileTree.mostLinks
      (if Path.isAbsolute path then [] else p.folder) (Path.parts text)

variable (path : String)

def Process.locate : Except Refusal Location := p.locateBy true path

def Process.find? : Option Node := do p.world.tree.node? (← (p.locate path).toOption)

def Process.kind? : Option Kind := (p.find? path).map (·.kind)

def Process.hasFolder : Bool := p.kind? path = some .folder

def changeTree (f : FileTree → FileTree) : Run Unit :=
  changeWorld fun w => { w with tree := f w.tree }

def makeNode (kind : Kind) (mode : Nat) : Run Unit := do
  let p ← get
  let mode := if kind matches .link _ then 0o777 else mode - (mode &&& p.umask)
  let node : Node := { kind, mode, modified := p.world.clock }
  changeTree (·.put loc node)

def changeNode (f : Node → Node) : Run Unit :=
  changeTree fun tree => ((tree.number? loc).map (tree.change · f)).getD tree

def setContent (content : String) : Run Unit := do
  let world := (← get).world
  if (world.tree.number? loc).isNone then makeNode loc (.file content) 0o666
  else changeNode loc ({ · with kind := .file content, modified := world.clock })

/-! ### Streams -/

variable (descriptor : Nat)

def Process.stream? : Option Stream := do p.world.streams[← p.descriptors.get? descriptor]?

variable (stream : Stream)

def openStream : Run Nat := do
  let number := (← get).world.streams.size
  changeWorld fun w => { w with streams := w.streams.push stream }
  return number

variable (number : Nat)

def setStream (stream : Stream) : Run Unit :=
  changeWorld fun w => { w with streams := w.streams.set! number stream }

variable (descriptor : Nat)

def setDescriptor (stream : Nat) : Run Unit :=
  modify fun p => { p with descriptors := p.descriptors.insert descriptor stream }

def closeDescriptor : Run Unit :=
  modify fun p => { p with descriptors := p.descriptors.erase descriptor }

def overwrite (old : String) (offset : Nat) (text : String) : String :=
  let length := old.length
  if length = offset then old ++ text
  else if length < offset then
    old ++ String.ofList (List.replicate (offset - length) (Char.ofNat 0)) ++ text
  else
    let chars := old.toList
    String.ofList (chars.take offset ++ text.toList ++ chars.drop (offset + text.length))

variable (text : String)

def writeTo (stream : Stream) (text : String) : Run Unit := do
  match stream.channel with
  | .nowhere => return
  | .errors => changeWorld fun w => { w with errors := w.errors ++ text }
  | .pipe pipe =>
    let filled := pipe.append text
    if filled.limit.any (· < filled.size) then
      setStream number { stream with channel := .pipe { filled with isCut := true } }
      throw (.killed 13)
    else setStream number { stream with channel := .pipe filled }
  | .node target =>
    let world := (← get).world
    match world.tree.kindOf? target with
    | some (.file old) =>
      let offset := if stream.appends then old.length else stream.offset
      let kind := .file (overwrite old offset text)
      changeTree (·.change target ({ · with kind, modified := world.clock }))
      setStream number { stream with offset := offset + text.length }
    | some (.queue content) =>
      changeTree (·.change target ({ · with kind := .queue (content ++ text.toList) }))
    | _ => return

def write : Run Bool := do
  let p ← get
  if let (some number, some stream) := (p.descriptors.get? descriptor, p.stream? descriptor) then
    if stream.writable then
      writeTo number stream text
      return true
  return false

def pauseUntil (time : Int) : Run Unit := do
  if (← get).isBackground then
    changeWorld ({ · with pausedUntil := some time })
    throw (.killed 0)
  else changeWorld ({ · with isBlocked := true })

def sleepFor (duration : Int) : Run Unit := do
  let world := (← get).world
  let target := world.clock + duration
  let stop := world.deadline.filter (· < target)
  let time := stop.getD target
  if world.horizon.any (· < time) then pauseUntil time
  changeWorld ({ · with clock := time })
  if stop.isSome then throw (.killed 15)

def readBy (count : Chars → Nat) : Run (Except Refusal Chars) := do
  let p ← get
  match p.descriptors.get? descriptor, p.stream? descriptor with
  | some number, some stream =>
    if !stream.readable then return .error .closed
    match stream.channel with
    | .nowhere | .errors => return .ok []
    | .pipe pipe =>
      let content := pipe.content
      let taken := count content
      let rest := content.drop taken
      let isStarved := pipe.isCut && rest.isEmpty && content.length < taken
      let pipe := { pipe with front := rest, back := [], isStarved := pipe.isStarved || isStarved }
      setStream number { stream with channel := .pipe pipe }
      if isStarved then throw (.killed 13)
      return .ok (content.take taken)
    | .node target =>
      match p.world.tree.kindOf? target with
      | some .folder => return .error .isFolder
      | some (.file content) =>
        let rest := content.toList.drop stream.offset
        let taken := rest.take (count rest)
        setStream number { stream with offset := stream.offset + taken.length }
        return .ok taken
      | some (.queue content) =>
        if content.isEmpty ∧ stream.offset = 0 then pauseUntil p.world.clock
        let taken := content.take (count content)
        changeTree (·.change target ({ · with kind := .queue (content.drop taken.length) }))
        setStream number { stream with offset := stream.offset + taken.length }
        return .ok taken
      | _ => return .ok []
  | _, _ => return .error .closed

def awaitMore : Run Unit := do
  if let some { channel := .pipe _, .. } := (← get).stream? descriptor then
    let _ ← readBy descriptor (·.length + 1)

def readAll : Run (Except Refusal String) := do
  return (← readBy descriptor (·.length + 1)).map String.ofList

def readLine : Run Chars := do
  let line ← readBy descriptor fun rest => (rest.takeWhile (· ≠ '\n')).length + 1
  return line.toOption.getD []

def Process.isSeekable : Bool :=
  match p.stream? descriptor with
  | some { channel := .node target, .. } => (p.world.tree.kindOf? target matches some (.file _))
  | _ => false

/-! ### Complaints -/

variable (message : String)

def complain : Run Unit := do let _ ← write 2 (message ++ "\n")

def warn : Run Unit := do
  let p ← get
  let about := (p.command.map (· ++ ": ")).getD ""
  complain (p.zero ++ ": " ++ toString p.line ++ ": " ++ about ++ message)

def fail (message : String) : Run α := do
  warn message
  setStatus 2
  throw .failed

/-! ### Variables -/

def Process.value? (name : String) : Option String := (p.vars.get? name).bind (·.value)

variable (name : String)

def assign (value : String) : Run Unit := do
  if name = "OPTIND" then modify ({ · with optionOffset := 0 })
  let p ← get
  let known := (p.vars.get? name).getD { value := none, exported := p.options.contains 'a' }
  if known.fixed then fail (name ++ ": is read only")
  set { p with vars := p.vars.insert name { known with value := some value } }

def variablePlace : Nat :=
  let codes := name.toList.map Char.toNat
  codes.foldl (· + ·) (16 * codes.headD 0) % 39

def Process.environment : List (String × String) :=
  p.vars.entries.filterMap fun (name, known) =>
    if known.exported then known.value.map (name, ·) else none

def Process.handingOn : Process :=
  { p with vars := ⟨p.vars.entries.mergeSort fun a b => variablePlace a.1 ≤ variablePlace b.1⟩ }

/-! ### Signals -/

def signalNames : List String :=
  ["HUP", "INT", "QUIT", "ILL", "TRAP", "ABRT", "BUS", "FPE", "KILL", "USR1", "SEGV", "USR2",
    "PIPE", "ALRM", "TERM", "STKFLT", "CHLD", "CONT", "STOP", "TSTP", "TTIN", "TTOU", "URG", "XCPU",
    "XFSZ", "VTALRM", "PROF", "WINCH", "POLL", "PWR", "SYS"]

def forEach (run : String → Run Nat) : List String → Run Nat
  | [] => return 0
  | arg :: rest => do
    let first ← run arg
    return max first (← forEach run rest)

def signalDescription : Nat → String
  | 1 => "Hangup"
  | 3 => "Quit"
  | 6 => "Aborted"
  | 7 => "Bus error"
  | 8 => "Floating point exception"
  | 9 => "Killed"
  | 10 => "User defined signal 1"
  | 11 => "Segmentation fault"
  | 12 => "User defined signal 2"
  | 14 => "Alarm clock"
  | 15 => "Terminated"
  | number => "Signal " ++ toString number

def isFatal (signal : Nat) : Bool := signal ≠ 0 && signal ∉ [17, 18, 19, 20, 21, 22, 23, 28]

def signal? : Option Nat :=
  if name.toList.all Char.isDigit then name.toNat?.filter (· < 65)
  else ("EXIT" :: signalNames).idxOf? name.toUpper

end ProgramAnalysis.Shell
