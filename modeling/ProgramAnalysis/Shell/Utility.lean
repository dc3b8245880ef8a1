import ProgramAnalysis.Shell.Arithmetic
import ProgramAnalysis.Shell.Process

/-!
What the programs a script can run have in common: how they read their options, how they complain,
and where they get their input from.
-/

namespace ProgramAnalysis.Shell

open String (ofList)

abbrev Utility := List String → Run Nat

inductive Launch where
  | ended (code : Nat)
  | killed (signal : Nat)
  | refused (why : Refusal)

abbrev Launcher := List String → Run Launch

def Launch.code : Launch → Nat
  | .ended code => code
  | .killed signal => 128 + signal
  | .refused .denied => 126
  | .refused _ => 127

/-! ### Options -/

variable (text : String)

def natural? : Option Nat :=
  let digits := text.toList
  if digits.isEmpty ∨ !digits.all Char.isDigit then none else some (digitsValue 10 digits)

structure Invocation where
  flags : List (Char × String) := []
  operands : List String := []

namespace Invocation

variable (call : Invocation) (flag : Char)

def has : Bool := call.flags.any (·.1 = flag)

def values : List String :=
  call.flags.filterMap fun (other, value) => if other = flag then some value else none

def value? : Option String := (call.values flag).getLast?

def number? : Option Nat := (call.value? flag).bind natural?

def withFlags (flags : List (Char × String)) : Invocation :=
  { call with flags := flags ++ call.flags }

def lastOf? (flags : Chars) : Option Char :=
  (call.flags.reverse.find? fun (flag, _) => flags.contains flag).map (·.1)

/-- The flags of an argument. Those with a value are marked by a colon, or by a question mark where
the value can only stand in the same argument. -/
def cluster (known : String) : Chars → List String →
    Except String (List (Char × String) × List String)
  | [], args => .ok ([], args)
  | flag :: rest, args =>
    match known.toList.dropWhile (· ≠ flag), rest, args with
    | [], _, _ => .error ("invalid option -- '" ++ String.singleton flag ++ "'")
    | _ :: '?' :: _, value, args | _ :: ':' :: _, value@(_ :: _), args =>
      .ok ([(flag, ofList value)], args)
    | _ :: ':' :: _, [], value :: args => .ok ([(flag, value)], args)
    | _ :: ':' :: _, [], [] =>
      .error ("option requires an argument -- '" ++ String.singleton flag ++ "'")
    | _, _, _ => (cluster known rest args).map fun (flags, args) => ((flag, "") :: flags, args)

def longOption (longs : List (String × Char)) (arg : String) (args : List String) :
    Except String ((Char × String) × List String) :=
  let text := ofList (arg.toList.drop 2)
  let (name, given) := match Text.cutAt? '=' text with
    | some (name, value) => (name, value :: args)
    | none => (text, args)
  match longs.lookup name, given with
  | none, _ => .error ("unrecognized option '" ++ arg ++ "'")
  | some flag, value :: rest => .ok ((flag, value), rest)
  | some _, [] => .error ("option '" ++ arg ++ "' requires an argument")

/-- Reads arguments. Where the known flags start with a plus sign, the first operand ends them. -/
def readFrom (known : String) (longs : List (String × Char)) :
    Nat → List String → Except String Invocation
  | 0, _ | _, [] => .ok {}
  | fuel + 1, arg :: args => do
    match arg.toList with
    | ['-', '-'] => return { operands := args }
    | '-' :: '-' :: _ =>
      let (option, args) ← longOption longs arg args
      return (← readFrom known longs fuel args).withFlags [option]
    | '-' :: flag :: rest =>
      let (flags, args) ← cluster known (flag :: rest) args
      return (← readFrom known longs fuel args).withFlags flags
    | _ =>
      if known.front = '+' then return { operands := arg :: args }
      let later ← readFrom known longs fuel args
      return { later with operands := arg :: later.operands }

def read (known : String) (args : List String) : Except String Invocation :=
  readFrom known [] (args.length + 1) args

end Invocation

/-! ### Complaints -/

def fault (program message : String) : Run Nat := do
  complain (program ++ ": " ++ message)
  return 1

def refuse (program message : String) (code : Nat) : Run α := do
  complain (program ++ ": " ++ message)
  throw (.exited code)

def orRefuse (program : String) (code : Nat) : Except String α → Run α
  | .ok a => return a
  | .error message => refuse program message code

def misuse (program message : String) (code : Nat) : Run α :=
  refuse program (message ++ "\nTry '" ++ program ++ " --help' for more information.") code

def orMisuse (program message : String) (code : Nat) : Option α → Run α
  | some a => return a
  | none => misuse program message code

variable (name known : String)

def withLongOptions (longs : List (String × Char)) (code : Nat) (run : Invocation → Run Nat) :
    Utility := fun args =>
  match Invocation.readFrom known longs (args.length + 1) args with
  | .ok call => run call
  | .error message => misuse name message code

def withOptions (code : Nat) (run : Invocation → Run Nat) : Utility :=
  withLongOptions name known [] code run

variable (c : Char)

def escapedByte : Chars :=
  match ("\x07\x08\t\n\x0b\x0c\r".toList.zip "abtnvfr".toList).lookup c with
  | some letter => ['\\', letter]
  | none => '\\' :: (Nat.toDigits 8 c.toNat).leftpad 3 '0'

def inQuotes : String :=
  if !name.toList.contains '\'' then "'" ++ name ++ "'"
  else if !name.toList.any ("\"$\x60\\!".toList.contains ·) then "\"" ++ name ++ "\""
  else "'" ++ name.replace "'" "'\\''" ++ "'"

def quoted : String :=
  let shown := name.toList.flatMap fun c =>
    if c = '\\' then ['\\', '\\'] else if isVisible c then [c] else escapedByte c
  ofText "‘" ++ ofList shown ++ ofText "’"

def atMost (count : Nat) (name : String) (call : Invocation) : Run Unit := do
  if let some extra := call.operands[count]? then misuse name ("extra operand " ++ quoted extra) 1

def quoteIfNeeded : String :=
  let isUsual (c : Char) : Bool :=
    c.isAlphanum || "%+,-./:@_\x7b\x7d]#~".toList.contains c || c.toNat ≥ 0x80
  let startsUsual := name ∉ ["", "\x7b", "\x7d"] && name.front ≠ '#' && name.front ≠ '~'
  if startsUsual ∧ name.toList.all isUsual then name else inQuotes name

def Refusal.on (why : Refusal) (path : String) : String := inQuotes path ++ ": " ++ why.message

def Refusal.onName (why : Refusal) (path : String) : String :=
  quoteIfNeeded path ++ ": " ++ why.message

def withOperands (run : Invocation → String → Run Nat) : Utility :=
  withOptions name known 1 fun call => do
    if call.operands.isEmpty then misuse name "missing operand" 1
    forEach (run call) call.operands

def emit : Run Unit := do let _ ← write 1 text

def tell : Run Nat := do
  emit text
  return 0

def writeFile (path text : String) (appends : Bool) : Run (Except Refusal Unit) := do
  let tree := (← get).world.tree
  match (← get).locate path with
  | .error why => return .error why
  | .ok ["dev", "stdout"] => emit text
  | .ok ["dev", "stderr"] => let _ ← write 2 text
  | .ok loc =>
    match tree.kind? loc with
    | some .folder => return .error .isFolder
    | some .device => pure ()
    | some (.queue content) =>
      changeNode loc ({ · with kind := .queue (content ++ text.toList) })
    | some (.file old) => setContent loc (if appends then old ++ text else text)
    | _ => setContent loc text
  return .ok ()

/-! ### Input -/

def readFile : Run (Except Refusal String) := do
  if name = "-" ∨ name = "/dev/stdin" then return ← readAll 0
  let tree := (← get).world.tree
  match (← get).locate name with
  | .error why => return .error why
  | .ok ["dev", "zero"] => return .ok (ofList (List.replicate 65536 (Char.ofNat 0)))
  | .ok loc =>
    match tree.kind? loc with
    | some (.file content) => return .ok content
    | some .folder => return .error .isFolder
    | some (.queue content) =>
      if content.isEmpty then pauseUntil (← get).world.clock
      changeNode loc ({ · with kind := .queue [] })
      return .ok (ofList content)
    | some _ => return .ok ""
    | none => return .error .missing

def unreadable (program name : String) (why : Refusal) : String :=
  program ++ ": " ++ why.onName name

def textIn (program name : String) : Run String := do
  match ← readFile name with
  | .ok text => return text
  | .error why => refuse program (why.onName name) 1

variable (names : List String)

def orInput : List String := if names.isEmpty then ["-"] else names

variable (complaint : String → Refusal → String)

def readFiles (names : List String) : Run (List String × Nat) := do
  let mut found := []
  let mut code := 0
  for name in orInput names do
    match ← readFile name with
    | .ok text => found := found ++ [text]
    | .error why =>
      complain (complaint name why)
      code := 1
  return (found, code)

/-! ### Reading piece by piece -/

structure Feed where
  rest : Chars
  isLive : Bool := false

namespace Feed

def start (name : String) : Run (Except Refusal Feed) := do
  if name = "-" ∨ name = "/dev/stdin" then
    return (← readBy 0 List.length).map fun rest => { rest, isLive := true }
  else return (← readFile name).map fun text => { rest := text.toList }

def exhaust (feed : Feed) : Run Unit := do if feed.isLive then awaitMore 0

def leave (feed : Feed) : Run Unit := do
  let p ← get
  if let (some number, some stream) := (p.descriptors.get? 0, p.stream? 0) then
    if feed.isLive ∧ p.isSeekable 0 then
      setStream number { stream with offset := stream.offset - feed.rest.length }

end Feed

def forFiles (names : List String) (shown : String → String) : Run Nat :=
  forEach (fun name => do
    match ← Feed.start name with
    | .ok feed =>
      emit (shown (ofList feed.rest))
      feed.exhaust
      return 0
    | .error why =>
      complain (complaint name why)
      return 1) (orInput names)

/-! ### Lines -/

def linesOf : List String :=
  let pieces := Text.splitAt '\n' text
  if pieces.getLast? = some "" then pieces.dropLast else pieces

def ofLines (lines : List String) : String := String.join (lines.map (· ++ "\n"))

def fullLines : List String :=
  let pieces := Text.splitAt '\n' text
  pieces.dropLast.map (· ++ "\n") ++ pieces.getLast?.toList.filter (· ≠ "")

def wordsBy (isGap : Char → Bool) : List Chars :=
  (Text.pieces isGap text.toList).filter (!·.isEmpty)

def padLeft (width : Nat) (text : String) : String := ofList (text.toList.leftpad width ' ')

/-! ### Amounts -/

def unitSize? : Chars → Option Nat
  | [] => some 1
  | ['b'] => some 512
  | ['k'] | ['K'] => some 1024
  | ['M'] => some 1048576
  | _ => none

def amountIn (what text : String) : Except String Nat :=
  let (digits, unit) := text.toList.span Char.isDigit
  match digits.isEmpty, unitSize? unit with
  | false, some size => .ok (digitsValue 10 digits * size)
  | _, _ => .error (what ++ ": " ++ quoted text)

end ProgramAnalysis.Shell
