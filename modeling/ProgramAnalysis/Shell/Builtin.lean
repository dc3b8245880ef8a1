import ProgramAnalysis.Shell.Expand
import ProgramAnalysis.Shell.Format

/-!
The commands that are part of the shell and need nothing but its process.
-/

namespace ProgramAnalysis.Shell

open String (ofList)

namespace Condition

inductive Role where
  | finish
  | operand
  | unary (operator : String)
  | binary (operator : String)
  | both
  | either
  | not
  | opening
  | closing
  deriving DecidableEq

def unaryOperators : List String :=
  ["-r", "-w", "-x", "-e", "-f", "-d", "-c", "-b", "-p", "-u", "-g", "-k", "-s", "-t", "-z", "-n",
    "-h", "-O", "-G", "-L", "-S"]

def binaryOperators : List String :=
  ["=", "!=", "<", ">", "-eq", "-ne", "-gt", "-ge", "-lt", "-le", "-nt", "-ot", "-ef"]

def role : List String → Role
  | [] => .finish
  | word :: rest =>
    let isOperand := match rest with
      | [] => true
      | [_] => false
      | next :: _ => next ∈ binaryOperators
    if word ∈ unaryOperators then if isOperand then .operand else .unary word
    else if word ∈ binaryOperators then .binary word
    else if word = "-a" then .both
    else if word = "-o" then .either
    else if word = "!" then .not
    else if word = "(" then if rest.isEmpty then .operand else .opening
    else if word = ")" then .closing
    else .operand

inductive Fault where
  | noArgument (operator : String)
  | leftOver (word : String)
  | notNumber (word : String)
  | unclosed
  deriving DecidableEq

def Fault.message : Fault → String
  | noArgument operator => about operator "argument expected"
  | leftOver word => about word "unexpected operator"
  | notNumber word => "Illegal number: " ++ word
  | unclosed => "closing paren expected"
where
  about (word message : String) : String := if word = "" then message else word ++ ": " ++ message

abbrev Tester (α : Type) := EStateM Fault (List String) α

def number (word : String) : Tester Int := do
  let (isNegative, body) := signOf (word.toList.dropWhile isSpace)
  let (digits, rest) := body.span Char.isDigit
  let value : Int := (if isNegative then -1 else 1) * digitsValue 10 digits
  if digits.isEmpty ∨ !rest.all isSpace ∨ wrap value ≠ value then throw (.notNumber word)
  return value

variable (p : Process)

def file (operator path : String) : Bool :=
  let follows := operator ≠ "-h" && operator ≠ "-L"
  match (p.locateBy follows path).toOption.bind p.world.tree.node? with
  | none => false
  | some node =>
    match operator, node.kind with
    | "-d", .folder | "-f", .file _ | "-c", .device | "-p", .queue _ | "-h", .link _
    | "-L", .link _ | "-s", .folder => true
    | "-s", .file content => content ≠ ""
    | "-x", .folder => true
    | "-x", _ => node.mode &&& 0o111 ≠ 0
    | "-u", _ => node.mode &&& 0o4000 ≠ 0
    | "-g", _ => node.mode &&& 0o2000 ≠ 0
    | "-k", _ => node.mode &&& 0o1000 ≠ 0
    | operator, _ => operator ∈ ["-e", "-r", "-w", "-O", "-G"]

def unary (operator word : String) : Bool :=
  match operator with
  | "-z" => word = ""
  | "-n" => word ≠ ""
  | "-t" => false
  | _ => file p operator word

def binary (operator a b : String) : Tester Bool := do
  let isNewer (a b : String) : Bool := match p.find? a, p.find? b with
    | some x, some y => x.modified > y.modified
    | _, _ => false
  match operator with
  | "=" => return a = b
  | "!=" => return a ≠ b
  | "<" => return a < b
  | ">" => return b < a
  | "-nt" => return isNewer a b
  | "-ot" => return isNewer b a
  | "-ef" =>
    let number? (path : String) : Option Nat := (p.locate path).toOption.bind p.world.tree.number?
    return (number? a).isSome && number? a = number? b
  | _ =>
    let x ← number a
    let y ← number b
    return match operator with
      | "-eq" => x = y
      | "-ne" => x ≠ y
      | "-gt" => x > y
      | "-ge" => x ≥ y
      | "-lt" => x < y
      | _ => x ≤ y

mutual

def alternatives : Nat → Role → Tester Bool
  | 0, _ => return false
  | fuel + 1, first => do
    let left ← conjunction fuel first
    if role (← get).tail ≠ .either then return left
    modify (List.drop 2)
    return left || (← alternatives fuel (role (← get)))

def conjunction : Nat → Role → Tester Bool
  | 0, _ => return false
  | fuel + 1, first => do
    let left ← negation fuel first
    if role (← get).tail ≠ .both then return left
    modify (List.drop 2)
    return left && (← conjunction fuel (role (← get)))

def negation : Nat → Role → Tester Bool
  | 0, _ => return false
  | fuel + 1, .not => do
    let next := role (← get).tail
    if next ≠ .finish then modify List.tail
    return !(← negation fuel next)
  | fuel + 1, other => primary fuel other

def primary : Nat → Role → Tester Bool
  | 0, _ => return false
  | fuel + 1, first => do
    match first with
    | .finish => return false
    | .opening =>
      modify List.tail
      let next := role (← get)
      if next = .closing then return false
      let inner ← alternatives fuel next
      modify List.tail
      if role (← get) ≠ .closing then throw .unclosed
      return inner
    | .unary operator =>
      modify List.tail
      let word :: _ ← get | throw (.noArgument operator)
      return unary p operator word
    | _ =>
      let words ← get
      let first := words.headD ""
      let .binary operator := role words.tail | return first ≠ ""
      set (words.drop 2)
      let second :: _ := words.drop 2 | throw (.noArgument operator)
      binary p operator first second

end

def evaluateFrom (first : Role) (words : List String) : Except Fault Bool :=
  let tester : Tester Bool := do
    let value ← alternatives p (4 * words.length + 4) first
    let word :: _ :: _ ← get | return value
    throw (.leftOver word)
  valueOf (tester words)

end Condition

def conditionOf (p : Process) (negated : Bool) : List String → Except Condition.Fault Bool
  | [] => .ok negated
  | first :: rest =>
    let words := first :: rest
    let isShort := rest.length = 2 ∨ rest.length = 3
    let value (role : Condition.Role) (words : List String) : Except Condition.Fault Bool :=
      (Condition.evaluateFrom p role words).map (· != negated)
    if rest.length = 2 ∧ rest.headD "" ∈ Condition.binaryOperators then value .operand words
    else if isShort ∧ first = "(" ∧ rest.getLast? = some ")" then
      value (Condition.role rest.dropLast) rest.dropLast
    else if isShort ∧ first = "!" then conditionOf p true rest
    else value (Condition.role words) words

def condition (p : Process) (words : List String) : Except Condition.Fault Bool :=
  if words.isEmpty then .ok false else conditionOf p false words

namespace Builtin

def put (name text : String) : Run Nat := do
  if text = "" then return 0
  if ← write 1 text then return 0
  warn (name ++ ": I/O error")
  return 1

variable (arg : String)

def natural : Run Nat := do
  let (digits, rest) := (arg.toList.dropWhile isSpace).span Char.isDigit
  let value := digitsValue 10 digits
  if !digits.isEmpty ∧ rest.all isSpace ∧ value ≤ 2147483647 then return value
  fail ("Illegal number: " ++ arg)

def options (letters : String) : List String → Run (Chars × List String)
  | [] => return ([], [])
  | arg :: rest =>
    match arg.toList with
    | ['-', '-'] => return ([], rest)
    | '-' :: flag :: others => do
      if let some bad := (flag :: others).find? (!letters.toList.contains ·) then
        fail ("Illegal option -" ++ String.singleton bad)
      let (flags, args) ← options letters rest
      return (flag :: others ++ flags, args)
    | _ => return ([], arg :: rest)

def quoted (value : String) : String :=
  "\"'\"".intercalate ((Text.splitAt '\'' value).map fun text => "'" ++ text ++ "'")

/-! ### Writing -/

variable (args : List String)

def echo : Run Nat := put "echo" (Shell.echo args)

def printf : Run Nat := do
  let format :: args := (← options "" args).2 | fail "usage: printf format [arg ...]"
  let formatted := Shell.printf format args
  for complaint in formatted.complaints do warn complaint.message
  return max (← put "printf" formatted.written) formatted.status

def test : Run Nat := do
  match condition (← get) args with
  | .ok value => return (!value).toNat
  | .error fault => fail fault.message

def bracket : Run Nat := do
  if args.getLast? = some "]" then test args.dropLast else fail "missing ]"

/-! ### Places -/

variable (path : String)

def follow (start : Location) : Location :=
  (Path.pieces (toText path)).foldl (fun loc part =>
    if part = "." then loc
    else if part = ".." then loc.dropLast
    else loc ++ [part]) (if Path.isAbsolute path then [] else start)

def mark (change : Variable → Variable) (name : String) : Run Unit :=
  modify fun p => { p with vars := p.vars.update name { value := none } change }

def enter (physical : Bool) : Run Bool := do
  let p ← get
  let shown := follow path p.shownFolder
  let reached := if physical then p.locate path
    else p.world.tree.walk true FileTree.mostLinks [] shown
  match reached with
  | .error _ => return false
  | .ok loc =>
    if p.world.tree.kind? loc ≠ some .folder then return false
    let shown := if physical then loc else shown
    modify ({ · with folder := loc, shownFolder := shown })
    for (name, value) in [("OLDPWD", p.shownFolder), ("PWD", shown)] do
      assign name (absolutePath value)
      mark ({ · with exported := true }) name
    return true

def cd : Run Nat := do
  let (flags, operands) ← options "LP" (if args = ["-"] then [] else args)
  let p ← get
  let physical := flags.getLast? = some 'P'
  let target := match args, operands with
    | ["-"], _ => (p.value? "OLDPWD").getD "."
    | _, [] => (p.value? "HOME").getD "."
    | _, path :: _ => if path = "" then "." else path
  let first := (Text.splitAt '/' target).headD ""
  let folders := if first = "" ∨ first = "." ∨ first = ".." then [""]
    else match p.value? "CDPATH" with
      | some list => Text.splitAt ':' list ++ [""]
      | none => [""]
  let announce (isFound : Bool) : Run Nat := do
    if isFound ∨ args = ["-"] then put "cd" (absolutePath (← get).shownFolder ++ "\n") else return 0
  for folder in folders do
    if ← enter (if folder = "" then target else folder ++ "/" ++ target) physical then
      return ← announce (folder ≠ "")
  fail ("can't cd to " ++ target)

def pwd : Run Nat := do
  let (flags, _) ← options "LP" args
  let p ← get
  let folder := if flags.getLast? = some 'P' then p.folder else p.shownFolder
  put "pwd" (absolutePath folder ++ "\n")

/-! ### Variables -/

def checkName (name : String) : Run Unit := do
  if !isName name then fail (name ++ ": bad variable name")

def nameAndValue : Run (String × Option String) := do
  let (name, value) := match Text.cutAt? '=' arg with
    | some (name, value) => (name, some value)
    | none => (arg, none)
  checkName name
  return (name, value)

def declare (change : Variable → Variable) (args : List String) : Run Nat := do
  let (_, args) ← options "p" args
  for arg in args do
    let (name, value) ← nameAndValue arg
    if let some value := value then assign name value
    mark change name
  return 0

def exportVars : List String → Run Nat := declare ({ · with exported := true })

def readonly : List String → Run Nat := declare ({ · with fixed := true })

def localVars : Run Nat := do
  if (← get).functionDepth = 0 then fail "not in a function"
  for arg in args do
    if arg = "-" then
      modify fun p => { p with shadowedOptions := some (p.shadowedOptions.getD p.options) }
    else
      let (name, value) ← nameAndValue arg
      modify fun p => { p with shadowed := (name, p.vars.get? name) :: p.shadowed }
      if let some value := value then assign name value
  return 0

def unset : Run Nat := do
  let (flags, names) ← options "fv" args
  for name in names do
    if flags.contains 'f' then modify fun p => { p with functions := p.functions.erase name }
    else
      checkName name
      if ((← get).vars.get? name).any (·.fixed) then fail (name ++ ": is read only")
      modify fun p => { p with vars := p.vars.erase name }
  return 0

def shift : Run Nat := do
  let count ← (args.head?.map natural).getD (pure 1)
  let p ← get
  if count > p.arguments.length then fail "can't shift that many"
  set { p with arguments := p.arguments.drop count }
  return 0

/-! ### Options of the shell -/

def optionNames : List (Char × String) :=
  [('e', "errexit"), ('f', "noglob"), ('I', "ignoreeof"), ('i', "interactive"), ('m', "monitor"),
    ('n', "noexec"), ('s', "stdin"), ('x', "xtrace"), ('v', "verbose"), ('V', "vi"), ('E', "emacs"),
    ('C', "noclobber"), ('a', "allexport"), ('b', "notify"), ('u', "nounset")]

def setOption (on : Bool) (flag : Char) : Run Unit :=
  modify fun p =>
    let chosen (other : Char) : Bool := if other = flag then on else p.options.contains other
    { p with options := (optionNames.map (·.1)).reverse.filter chosen }

def setOptions : Nat → List String → Run (Option (List String))
  | 0, _ | _, [] => return none
  | fuel + 1, arg :: rest => do
    match arg.toList with
    | ['-'] => return if rest.isEmpty then none else some rest
    | ['-', '-'] => return some rest
    | sign :: flag :: flags =>
      if sign ≠ '-' ∧ sign ≠ '+' then return some (arg :: rest)
      else if flags.isEmpty ∧ flag = 'o' then
        let name :: later := rest | return none
        let some (flag, _) := optionNames.find? (·.2 = name)
          | fail ("Illegal option " ++ arg ++ " " ++ name)
        setOption (sign = '-') flag
        setOptions fuel later
      else
        for flag in flag :: flags do
          if optionNames.any (·.1 = flag) then setOption (sign = '-') flag
          else fail ("Illegal option " ++ String.singleton sign ++ String.singleton flag)
        setOptions fuel rest
    | _ => return some (arg :: rest)

def setArguments : Run Nat := do
  if let some arguments ← setOptions (args.length + 1) args then modify ({ · with arguments })
  return 0

/-! ### Reading -/

def readMarked (raw : Bool) : Nat → Run (List (Char × Bool) × Bool)
  | 0 => return ([], false)
  | fuel + 1 => do
    let line ← readLine 0
    let complete := line.getLast? = some '\n'
    let (marked, joins) := mark (if complete then line.dropLast else line)
    if joins ∧ complete then
      let (rest, complete) ← readMarked raw fuel
      return (marked ++ rest, complete)
    else return (marked, complete)
where
  mark : Chars → List (Char × Bool) × Bool
    | [] => ([], false)
    | c :: rest =>
      if raw ∨ c ≠ '\\' then (mark rest).map ((c, false) :: ·) id
      else
        match rest with
        | [] => ([], true)
        | c :: later => (mark later).map ((c, true) :: ·) id

variable (separators : Chars)

def isSeparator (entry : Char × Bool) : Bool := !entry.2 && separators.contains entry.1

def isFiller (entry : Char × Bool) : Bool := isSeparator separators entry && isGap entry.1

def cutField (chars : List (Char × Bool)) : List (Char × Bool) × List (Char × Bool) :=
  let (field, rest) := chars.span (!isSeparator separators ·)
  let rest := rest.dropWhile (isFiller separators)
  (field, if rest.head?.any (isSeparator separators) then rest.tail.dropWhile (isFiller separators)
    else rest)

def distribute : List String → List (Char × Bool) → List (String × String)
  | [], _ => []
  | [name], chars =>
    let trimmed := (chars.reverse.dropWhile (isFiller separators)).reverse
    let (field, rest) := cutField separators trimmed
    [(name, ofList ((if rest.isEmpty then field else trimmed).map (·.1)))]
  | name :: names, chars =>
    let (field, rest) := cutField separators chars
    (name, ofList (field.map (·.1))) :: distribute names rest

def read : Run Nat := do
  let (flags, names) ← options "r" args
  if names.isEmpty then fail "arg count"
  for name in names do checkName name
  let (chars, complete) ← readMarked (flags.contains 'r') 100000
  let separators := (← get).separators
  for (name, value) in distribute separators names (chars.dropWhile (isFiller separators)) do
    assign name value
  return (!complete).toNat

structure OptionStep where
  name : String
  value : Option String := none
  done : Nat
  offset : Nat := 0
  complaint : Option String := none

def optionStep (letters : String) (given : List String) (flag : Char) (rest : Chars)
    (done offset : Nat) : OptionStep :=
  let silent := letters.toList.head? = some ':'
  let name := String.singleton flag
  let offset := if rest.isEmpty then 0 else offset + 1
  match if flag = ':' then [] else letters.toList.dropWhile (· ≠ flag) with
  | _ :: ':' :: _ =>
    if !rest.isEmpty then { name, value := some (ofList rest), done }
    else
      match given[done]? with
      | some value => { name, value := some value, done := done + 1 }
      | none =>
        if silent then { name := ":", value := some name, done }
        else { name := "?", done, complaint := some ("No arg for -" ++ name ++ " option") }
  | _ :: _ => { name, value := some "", done, offset }
  | [] =>
    if silent then { name := "?", value := some name, done, offset }
    else { name := "?", done, offset, complaint := some ("Illegal option -" ++ name) }

def getopts : Run Nat := do
  let letters :: name :: rest := args | fail "Usage: getopts optstring var [arg...]"
  let p ← get
  let given := if rest.isEmpty then p.arguments else rest
  let done := ((p.value? "OPTIND").bind String.toNat?).getD 1 - 1
  let finish (value : String) (done offset : Nat) : Run Unit := do
    assign "OPTIND" (toString (done + 1))
    assign name value
    modify ({ · with optionOffset := offset })
  let current := (given.getD (done - 1) "").toList.drop p.optionOffset
  let (chars, done, offset) := if done = 0 ∨ p.optionOffset = 0 ∨ current.isEmpty then
      match (given.getD done "").toList with
      | '-' :: c :: later => (c :: later, done + 1, 1)
      | _ => ([], done, 0)
    else (current, done, p.optionOffset)
  let flag :: rest := if chars = ['-'] ∧ offset = 1 then [] else chars
    | finish "?" done 0
      return 1
  let step := optionStep letters given flag rest done offset
  if let some complaint := step.complaint then complain complaint
  match step.value with
  | some value => assign "OPTARG" value
  | none => modify fun p => { p with vars := p.vars.erase "OPTARG" }
  finish step.name step.done step.offset
  return 0

/-! ### Signals and jobs -/

def sendTo (signal : Nat) (target : String) : Run Nat := do
  let number ← natural target
  if (← get).living.contains number then
    changeWorld fun w => { w with signals := w.signals ++ [(number, signal)] }
    return 0
  warn "No such process\n"
  return 1

def kill : Run Nat := do
  let usage : Run Nat :=
    fail "Usage: kill [-s sigspec | -signum | -sigspec] [pid | job]... or\nkill -l [exitstatus]"
  let send (signal : Nat) (targets : List String) : Run Nat :=
    if targets.isEmpty then usage else forEach (sendTo signal) targets
  match args with
  | [] => usage
  | "-l" :: rest =>
    let number ← natural (rest.headD "")
    put "kill" ((signalNames.getD (number % 128 - 1) (toString number)) ++ "\n")
  | "-s" :: name :: rest =>
    let some signal := signal? name | fail ("invalid signal number or name: " ++ name)
    send signal rest
  | first :: rest =>
    match first.toList with
    | '-' :: c :: name =>
      let some signal := signal? (ofList (c :: name))
        | fail ("Illegal option -" ++ String.singleton c)
      send signal rest
    | _ => send 15 args

def trapName (signal : Nat) : String :=
  if signal = 0 then "EXIT" else signalNames.getD (signal - 1) (toString signal)

def trap : Run Nat := do
  match args with
  | [] =>
    let traps := (← get).traps.entries.mergeSort fun a b => a.1 ≤ b.1
    put "trap" (String.join (traps.map fun (signal, action) =>
      "trap -- " ++ quoted action ++ " " ++ trapName signal ++ "\n"))
  | action :: names =>
    for name in names do
      let some signal := signal? name
        | complain ("trap: " ++ name ++ ": bad trap")
          return 1
      modify fun p => { p with traps :=
        if action = "-" then p.traps.erase signal else p.traps.insert signal action }
    return 0

def umask (args : List String) : Run Nat := do
  let (flags, operands) ← options "S" args
  let mask := (← get).umask
  match operands with
  | [] =>
    if flags.contains 'S' then
      let place (name : String) (shift : Nat) : String :=
        let kept := (Mode.letters (7 - mask / shift % 8)).toList.filter (· ≠ '-')
        name ++ "=" ++ ofList kept
      put "umask" (",".intercalate [place "u" 64, place "g" 8, place "o" 1] ++ "\n")
    else put "umask" (ofList ((Mode.octal mask).toList.leftpad 4 '0') ++ "\n")
  | mode :: _ =>
    let set (mask : Nat) : Run Nat := do
      modify ({ · with umask := mask &&& 0o777 })
      return 0
    if mode.toList.head?.any Char.isDigit then
      if mode.toList.all (digitValue · < 8) then set (digitsValue 8 mode.toList)
      else fail ("Illegal number: " ++ mode)
    else
      let some kept := Mode.changed? 0 false mode (Mode.without 0o777 mask)
        | fail ("Illegal mode: " ++ mode)
      set (Mode.without 0o777 kept)

def aliasLine (name value : String) : String := name ++ "=" ++ quoted value ++ "\n"

def aliases : List String → Run Nat := forEach fun arg => do
  let p ← get
  match Text.cutAt? '=' arg, p.aliases.get? arg with
  | some (name, value), _ =>
    set { p with aliases := p.aliases.insert name value }
    return 0
  | none, some value => put "alias" (aliasLine arg value)
  | none, none =>
    complain ("alias: " ++ arg ++ " not found")
    return 1

def unalias : List String → Run Nat := forEach fun name => do
  let p ← get
  if p.aliases.contains name then
    set { p with aliases := p.aliases.erase name }
    return 0
  complain ("unalias: " ++ name ++ " not found")
  return 1

def table : List (String × (List String → Run Nat)) :=
  [(":", fun _ => return 0), ("true", fun _ => return 0), ("false", fun _ => return 1),
    ("alias", aliases), ("unalias", unalias), ("echo", echo), ("printf", printf), ("test", test),
    ("[", bracket), ("cd", cd), ("chdir", cd), ("pwd", pwd), ("export", exportVars),
    ("readonly", readonly), ("local", localVars), ("unset", unset), ("shift", shift),
    ("set", setArguments), ("read", read), ("getopts", getopts), ("kill", kill), ("trap", trap),
    ("umask", umask)]

end Builtin

def builtin? (name : String) : Option (List String → Run Nat) := Builtin.table.lookup name

end ProgramAnalysis.Shell
