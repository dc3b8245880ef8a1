import ProgramAnalysis.Shell.Utility.Files

/-!
The programs that look for files, and for lines in them.
-/

namespace ProgramAnalysis.Shell

namespace Find

/-! ### Expressions -/

inductive Step where
  | like (isPath fold : Bool) (pattern : String)
  | kind (letters : Chars)
  | size (order : Ordering) (value unit : Nat)
  | empty
  | newer (time : Int)
  | always (result : Bool)
  | prune
  | print (finish : String)
  | delete
  | execute (words : List String)
  | executeAll (index : Nat)

inductive Query where
  | step (step : Step)
  | not (query : Query)
  | both (first second : Query)
  | either (first second : Query)

structure Scope where
  least : Nat := 0
  most : Option Nat := none
  deepFirst : Bool := false
  batches : List (List String) := []
  acts : Bool := false

/-! ### Reading -/

variable (α : Type)

abbrev Reader := StateT (List String × Scope) (EStateM Ending Process) α

namespace Reader

def wrong {α : Type} (message : String) : Reader α := (refuse "find" message 1 : Run α)

def next? : Reader (Option String) := do
  let (words, scope) ← get
  set (words.tail, scope)
  return words.head?

def change (f : Scope → Scope) : Reader Unit := modify fun (words, scope) => (words, f scope)

variable (name : String)

def argument : Reader String := do
  let some word ← next? | wrong ("missing argument to \x60" ++ name ++ "'")
  return word

def depth : Reader Nat := do
  let word ← argument name
  let some n := natural? word
    | wrong ("Expected a positive decimal integer argument to " ++ name ++ ", but got " ++
        quoted word)
  return n

def size : Reader Step := do
  let word ← argument name
  let (order, digits) := match word.toList with
    | '+' :: rest => (Ordering.gt, rest)
    | '-' :: rest => (Ordering.lt, rest)
    | chars => (Ordering.eq, chars)
  let unit := match digits.getLastD ' ' with
    | 'c' => 1
    | 'k' => 1024
    | 'M' => 1048576
    | _ => 512
  let digits := if (digits.getLastD ' ').isDigit then digits else digits.dropLast
  let some value := natural? (String.ofList digits)
    | wrong ("Invalid argument \x60" ++ word ++ "' to " ++ name)
  return .size order value unit

def commandOf? (before : String) : List String → Option (List String × Bool × List String)
  | [] => none
  | word :: rest =>
    if word = ";" then some ([], false, rest)
    else if word = "+" ∧ before = "\x7b\x7d" then some ([], true, rest)
    else (commandOf? word rest).map fun (words, later) => (word :: words, later)

def command : Reader Step := do
  let (words, scope) ← get
  match commandOf? "" words with
  | none => wrong ("missing argument to \x60" ++ name ++ "'")
  | some (words, false, rest) =>
    set (rest, { scope with acts := true })
    return .execute words
  | some (words, true, rest) =>
    set (rest, { scope with acts := true, batches := scope.batches ++ [words.dropLast] })
    return .executeAll scope.batches.length

def reference : Reader Node := do
  let path ← argument name
  let some node := (← (get : Run Process)).find? path
    | wrong (quoted path ++ ": " ++ Refusal.missing.message)
  return node

def step (name : String) : Reader Step := do
  let acting (step : Step) : Reader Step := do
    change ({ · with acts := true })
    return step
  let setting (f : Scope → Scope) : Reader Step := do
    change f
    return .always true
  match name with
  | "-name" => return .like false false (← argument name)
  | "-path" | "-wholename" => return .like true false (← argument name)
  | "-type" => return .kind (← argument name).toList
  | "-size" => size name
  | "-empty" => return .empty
  | "-newer" => return .newer (← reference name).modified
  | "-prune" => return .prune
  | "-print" => acting (.print "\n")
  | "-print0" => acting (.print (String.singleton (Char.ofNat 0)))
  | "-delete" =>
    change ({ · with deepFirst := true })
    acting .delete
  | "-exec" => command name
  | "-maxdepth" =>
    let most ← depth name
    setting ({ · with most })
  | "-mindepth" =>
    let least ← depth name
    setting ({ · with least })
  | "-depth" => setting ({ · with deepFirst := true })
  | _ => wrong ("unknown predicate \x60" ++ name ++ "'")

def isExpression (word : String) : Bool :=
  match word.toList with
  | '-' :: _ :: _ => true
  | _ => word ∈ ["(", ")", "!"]

def accept (words : List String) : Reader Bool := do
  let isNext := (← get).1.head?.any words.contains
  if isNext then modify fun (words, scope) => (words.tail, scope)
  return isNext

mutual

def operand : Nat → Reader Query
  | 0 => wrong "invalid expression"
  | fuel + 1 => do
    match ← next? with
    | none => wrong "invalid expression"
    | some "(" =>
      let inner ← alternatives fuel
      if ← accept [")"] then return inner
      wrong "invalid expression; I was expecting to find a ')' somewhere but did not see one."
    | some word =>
      if word = "!" ∨ word = "-not" then return .not (← operand fuel)
      if !isExpression word then wrong ("paths must precede expression: \x60" ++ word ++ "'")
      return .step (← step word)

def more : Nat → Query → Reader Query
  | 0, first => return first
  | fuel + 1, first => do
    if (← get).1.head?.all (["-o", "-or", ")"].contains ·) then return first
    let _ ← accept ["-a", "-and"]
    more fuel (.both first (← operand fuel))

def alternatives : Nat → Reader Query
  | 0 => wrong "invalid expression"
  | fuel + 1 => do
    let first ← more fuel (← operand fuel)
    if ← accept ["-o", "-or"] then return .either first (← alternatives fuel)
    return first

end

def query (size : Nat) : Reader Query := do
  if (← get).1.isEmpty then return .step (.always true)
  alternatives (4 * size + 4)

end Reader

structure Candidate where
  path : String
  location : Location
  node : Node

def kindLetter (kind : Kind) : Char :=
  if kind matches .file _ then 'f' else Listing.kindLetter kind

structure Progress where
  pruned : Bool := false
  code : Nat := 0
  out : List String := []
  batches : Array (List String) := #[]

abbrev Work := StateT Progress (EStateM Ending Process) α

namespace Work

def flush : Work Unit := do
  let progress ← get
  set { progress with out := [] }
  if !progress.out.isEmpty then emit (String.join progress.out.reverse)

def fault (message : String) : Work Unit := do
  flush
  complain ("find: " ++ message)
  modify ({ · with code := 1 })

def tree : Work FileTree := do return (← (get : Run Process)).world.tree

end Work

variable (launcher : Launcher)

def runCommand (words : List String) : Work Bool := do
  Work.flush
  match ← launcher words with
  | .ended code => return code = 0
  | .killed _ => return false
  | .refused why =>
    complain ("find: " ++ quoted (words.headD "") ++ ": " ++ why.message)
    return false

variable (candidate : Candidate)

def remove : Work Bool := do
  if !((← Work.tree).names candidate.location).isEmpty then
    Work.fault ("cannot delete " ++ quoted candidate.path ++ ": " ++ Refusal.notEmpty.message)
    return false
  changeTree (·.erase candidate.location)
  return true

def perform : Step → Work Bool
  | .like isPath fold pattern =>
    let name := if isPath then candidate.path else Paths.baseName candidate.path
    return Pattern.isLike pattern name fold
  | .kind letters => return letters.contains (kindLetter candidate.node.kind)
  | .size order value unit =>
    return compare ((Listing.lengthOf candidate.node + unit - 1) / unit) value = order
  | .empty => do
    let names := (← Work.tree).names candidate.location
    return match candidate.node.kind with
      | .file content => content = ""
      | .folder => names.isEmpty
      | _ => false
  | .newer time => return time < candidate.node.modified
  | .always result => return result
  | .prune => do
    modify ({ · with pruned := true })
    return true
  | .print finish => do
    modify fun progress => { progress with out := (candidate.path ++ finish) :: progress.out }
    return true
  | .delete => remove candidate
  | .execute words => runCommand launcher (words.map (·.replace "\x7b\x7d" candidate.path))
  | .executeAll index => do
    modify fun progress => { progress with
      batches := progress.batches.modify index (· ++ [candidate.path]) }
    return true

def holds (launcher : Launcher) (candidate : Candidate) : Query → Work Bool
  | .step step => perform launcher candidate step
  | .not query => do return !(← holds launcher candidate query)
  | .both first second => holds launcher candidate first <&&> holds launcher candidate second
  | .either first second => holds launcher candidate first <||> holds launcher candidate second

def visit (launcher : Launcher) (query : Query) (scope : Scope) :
    Nat → Nat → String → Location → Work Unit
  | 0, _, _, _ => return
  | fuel + 1, depth, path, loc => do
    let some node := (← Work.tree).node? loc | return
    let candidate : Candidate := { path, location := loc, node }
    let look : Work Unit := do if scope.least ≤ depth then let _ ← holds launcher candidate query
    let descend : Work Unit := do
      if node.kind = .folder ∧ scope.most.all (depth < ·) then
        for name in (← Work.tree).names loc do
          let below := Files.inside path (ofText name)
          visit launcher query scope fuel (depth + 1) below (loc ++ [name])
    modify ({ · with pruned := false })
    if scope.deepFirst then
      descend
      look
    else
      look
      if !(← get).pruned then descend

def searchAll (query : Query) (scope : Scope) (starts : List String) : Work Nat := do
  for start in starts do
    match ← Files.found start false with
    | .ok loc => visit launcher query scope 64 0 start loc
    | .error why => Work.fault (quoted start ++ ": " ++ why.message)
  Work.flush
  for (words, files) in scope.batches.zip (← get).batches.toList do
    if !files.isEmpty then
      if !(← runCommand launcher (words ++ files)) then modify ({ · with code := 1 })
  return (← get).code

def find : Utility := fun args => do
  let starts := args.takeWhile fun arg => !Reader.isExpression arg || arg = ")"
  let words := args.drop starts.length
  let (query, _, scope) ← (Reader.query words.length).run (words, {})
  let query := if scope.acts then query else .both query (.step (.print "\n"))
  let progress : Progress := { batches := Array.replicate scope.batches.length [] }
  (searchAll launcher query scope (if starts.isEmpty then ["."] else starts)).run' progress

end Find

namespace Grep

/-! ### Matching -/

structure Report where
  regex : Option Regex
  call : Invocation
  before : Nat
  after : Nat

namespace Report

variable (report : Report)

def has (flag : Char) : Bool := report.call.has flag

variable (line : Chars)

def subject : Subject :=
  { Subject.ofBytes line with fold := report.has 'i' || report.has 'y' }

variable (subject : Subject)

def isWhole (start stop : Nat) : Bool :=
  (!report.has 'x' || (start = 0 && stop = subject.text.size)) &&
    (!report.has 'w' || !((start ≠ 0 && subject.isWordAt (start - 1)) || subject.isWordAt stop))

def find? (start : Nat) : Option (Nat × Nat) := do
  let regex ← report.regex
  (List.range' start (subject.text.size + 1 - start)).findSome? fun start =>
    let ends := (regex.matchesAt subject start).map (·.1)
    (ends.find? (report.isWhole subject start)).map (start, ·)

def spans (report : Report) (subject : Subject) : Nat → Nat → List (Nat × Nat)
  | 0, _ => []
  | fuel + 1, place =>
    match report.find? subject place with
    | none => []
    | some (start, stop) =>
      if start < stop then (start, stop) :: spans report subject fuel stop
      else spans report subject fuel (start + 1)

def selects : Bool := (report.find? (report.subject line) 0).isSome != report.has 'v'

end Report

/-! ### Files -/

structure Scan where
  number : Nat := 1
  offset : Nat := 0
  count : Nat := 0
  held : List (Nat × Nat × Chars) := []
  pending : Nat := 0
  lastShown : Option Nat := none
  out : List String := []

namespace Report

variable (report : Report)

def isBrief : Bool := ['q', 'l', 'L'].any report.has

def showsLines : Bool := !report.isBrief && !report.has 'c'

variable (title : Option String) (mark : Char)

def line (number offset : Nat) (text : Chars) : String :=
  let front := title.toList ++ (if report.has 'n' then [toString number] else []) ++
    if report.has 'b' then [toString offset] else []
  String.join (front.map (·.push mark)) ++ (String.ofList text).push '\n'

def put (scan : Scan) (entry : Nat × Nat × Chars) : Scan :=
  let (number, offset, text) := entry
  let isApart := (report.before > 0 || report.after > 0) &&
    scan.lastShown.any fun last => last + 1 < number
  let shown :=
    if !report.has 'o' then [report.line title mark number offset text]
    else if mark = ':' ∧ !report.has 'v' then
      let subject := report.subject text
      (report.spans subject (text.length + 2) 0).map fun (start, stop) =>
        report.line title mark number (offset + start) (subject.slice start stop)
    else []
  { scan with
    out := shown.reverse ++ (if isApart then ["--\n"] else []) ++ scan.out
    lastShown := some number }

def search (report : Report) (title : Option String) : Nat → Scan → Chars → Scan × Option Chars
  | 0, scan, _ => (scan, none)
  | fuel + 1, scan, text =>
    let isFull := (report.call.number? 'm').any (· ≤ scan.count)
    if isFull ∧ scan.pending = 0 then (scan, some text)
    else if text.isEmpty then (scan, none)
    else
      let (line, rest) := text.span (· ≠ '\n')
      let rest := rest.tail
      let entry := (scan.number, scan.offset, line)
      let next : Scan :=
        { scan with number := scan.number + 1, offset := scan.offset + line.length + 1 }
      if report.selects line then
        if isFull then (scan, some text)
        else
          let counted := { next with count := scan.count + 1 }
          if report.isBrief then (counted, some rest)
          else if !report.showsLines then report.search title fuel counted rest
          else
            let shown := scan.held.reverse.foldl (report.put title '-') counted
            let shown := report.put title ':' shown entry
            report.search title fuel { shown with held := [], pending := report.after } rest
      else if scan.pending > 0 then
        let shown := report.put title '-' next entry
        report.search title fuel { shown with pending := scan.pending - 1 } rest
      else
        let held := if report.showsLines then (entry :: scan.held).take report.before else []
        report.search title fuel { next with held } rest

end Report

def searchFile (report : Report) (titled : Bool) (name : String) : Run (Option Bool) := do
  match ← Feed.start name with
  | .error why =>
    if !report.has 's' then complain ("grep: " ++ name ++ ": " ++ why.message)
    return none
  | .ok feed =>
    let label := if name = "-" then "(standard input)" else name
    let title := if titled then some label else none
    let (scan, rest) := report.search title (feed.rest.length + 2) {} feed.rest
    let isFound := scan.count > 0
    emit (if report.has 'q' then ""
      else if report.has 'l' ∨ report.has 'L' then
        if isFound = report.has 'l' then label.push '\n' else ""
      else if report.has 'c' then
        String.join (title.toList.map (·.push ':')) ++ toString scan.count ++ "\n"
      else String.join scan.out.reverse)
    match rest with
    | some rest => ({ feed with rest } : Feed).leave
    | none => feed.exhaust
    return some isFound

def filesOf (call : Invocation) (p : Process) (names : List String) : List (String × Bool) :=
  let recursive := call.has 'r' || call.has 'R'
  let names := if names.isEmpty then [if recursive then "." else "-"] else names
  names.flatMap fun name =>
    let folder? := (p.locate name).toOption.filter fun start =>
      recursive && name ≠ "-" && p.world.tree.kind? start = some .folder
    folder?.elim [(name, false)] fun start =>
      (p.world.tree.below start).filterMap fun loc =>
        match p.world.tree.kind? loc, FileTree.inner? start loc with
        | some (.file _), some inner =>
          let path := Files.pathBelow name inner
          let isShort := name = "." && call.operands.length ≤ 1
          some (if isShort then (Text.dropStart? "./" path).getD path else path, true)
        | _, _ => none

def regexOf (kind : Char) (patterns : List String) : Except String (Option Regex) := do
  let regexes ← patterns.mapM fun pattern =>
    if kind = 'F' then pure (Regex.literal pattern)
    else Regex.read { extended := kind = 'E' } pattern.toList
  return regexes.tail.foldl (fun first next => first.map (.either · next)) regexes.head?

def usage (message : String) : Run α := do
  complain (message ++ "Usage: grep [OPTION]... PATTERNS [FILE]...\n" ++
    "Try 'grep --help' for more information.")
  throw (.exited 2)

def grepAs (kind : Char) : Utility := fun args => do
  match Invocation.read "EFGivwxcLloqsbHhnarRye:f:m:A:B:C:" args with
  | .error message => usage ("grep: " ++ message ++ "\n")
  | .ok call =>
    let mut patterns := []
    let mut names := call.operands
    for (flag, value) in call.flags do
      if flag = 'e' then patterns := patterns ++ Text.splitAt '\n' value
      if flag = 'f' then
        match ← readFile value with
        | .ok text => patterns := patterns ++ linesOf text
        | .error why => refuse "grep" (value ++ ": " ++ why.message) 2
    if !call.has 'e' ∧ !call.has 'f' then
      if names.isEmpty then usage ""
      patterns := Text.splitAt '\n' (names.headD "")
      names := names.tail
    let regex ← orRefuse "grep" 2 (regexOf ((call.lastOf? ['E', 'F', 'G']).getD kind) patterns)
    let context (flag : Char) : Nat := (call.number? flag <|> call.number? 'C').getD 0
    let report : Report := { regex, call, before := context 'B', after := context 'A' }
    let isTitled (inFolder : Bool) : Bool :=
      ((call.lastOf? ['H', 'h']).map (· == 'H')).getD (names.length > 1 || inFolder)
    let mut anyFound := false
    let mut anyFault := false
    for (name, inFolder) in filesOf call (← get) names do
      if !(anyFound && call.has 'q') then
        match ← searchFile report (isTitled inFolder) name with
        | some isFound => anyFound := anyFound || isFound
        | none => anyFault := true
    if anyFault ∧ !(anyFound && call.has 'q') then return 2
    return if anyFound then 0 else 1

end Grep

end ProgramAnalysis.Shell
