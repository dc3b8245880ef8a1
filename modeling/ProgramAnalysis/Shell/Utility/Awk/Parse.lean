import ProgramAnalysis.Shell.Format

/-!
Programs for processing records and fields, and how they are read.
-/

namespace ProgramAnalysis.Shell

namespace Awk

/-- An expression. Operators are known by their signs, and texts are joined by an empty one. -/
inductive Expr where
  | number (x : Float)
  | text (s : String)
  | pattern (regex : Regex)
  | name (s : String)
  | element (array : String) (indices : List Expr)
  | field (index : Expr)
  | update (sign : String) (target value : Expr)
  | step (target : Expr) (change : Float) (givesOld : Bool)
  | choose (condition yes no : Expr)
  | negate (a : Expr)
  | minus (a : Expr)
  | binary (sign : String) (a b : Expr)
  | isIn (indices : List Expr) (array : String)
  | call (function : String) (args : List Expr)
  | read (target : Option Expr)
  | group (items : List Expr)

instance : Inhabited Expr := ⟨.text ""⟩

def Expr.record : Expr := .field (.number 0.0)

inductive Statement where
  | evaluate (e : Expr)
  | print (isFormatted : Bool) (items : List Expr)
  | branch (condition : Expr) (yes no : Statement)
  | loop (condition : Expr) (step body : Statement)
  | loopIn (name array : String) (body : Statement)
  | block (statements : List Statement)
  | jump (word : String)
  | exit (code : Option Expr)
  | give (value : Expr)
  | forget (array : String) (indices : List Expr)

instance : Inhabited Statement := ⟨.block []⟩

/-- An action for the records from one that fits the first condition to one that fits the last. -/
structure Rule where
  first : Option Expr
  last : Option Expr
  action : Statement

structure Function where
  params : List String
  body : Statement

structure Program where
  starts : List Statement := []
  rules : List Rule := []
  finishes : List Statement := []
  functions : List (String × Function) := []

/-- A token. Keywords and the end of a line are signs, and the end of the program is an empty
one. -/
inductive Token where
  | number (x : Float)
  | text (s : String)
  | pattern (source : String)
  | name (s : String)
  | function (s : String)
  | sign (s : String)

namespace Scan

def keywords : List String :=
  ["BEGIN", "END", "function", "if", "else", "while", "for", "break", "continue", "next",
    "exit", "return", "delete", "in", "getline", "print", "printf"]

def builtins : List String :=
  ["length", "substr", "index", "split", "sub", "gsub", "sprintf", "int", "tolower", "toupper"]

def signs : List String :=
  ["&&", "||", "==", "!=", "<=", ">=", ">>", "!~", "+=", "-=", "*=", "/=", "%=", "^=", "++", "--",
    "\x7b", "\x7d", "(", ")", "[", "]", ";", ",", "+", "-", "*", "/", "%", "^", "!", "<", ">", "|",
    "?", ":", "~", "$", "=", "\n"]

def endsValue : Token → Bool
  | .sign s => s ∈ [")", "]", "++", "--", "$"]
  | .function s => s = "length"
  | _ => true

def unescape : Nat → Chars → Chars
  | 0, _ | _, [] => []
  | fuel + 1, '\\' :: '"' :: rest => '"' :: unescape fuel rest
  | fuel + 1, '\\' :: rest =>
    let (c, later) := (escape? rest).getD ('\\', rest)
    c :: unescape fuel later
  | fuel + 1, c :: rest => c :: unescape fuel rest

def upTo? (mark : Char) : Chars → Option (Chars × Chars)
  | '\\' :: c :: rest => (upTo? mark rest).map (·.map (['\\', c] ++ ·) id)
  | c :: rest =>
    if c = mark then some ([], rest) else (upTo? mark rest).map (·.map (c :: ·) id)
  | [] => none

def word (s : String) (rest : Chars) : Token :=
  if s ∈ keywords then .sign s
  else if s ∈ builtins ∨ rest.head? = some '(' then .function s
  else .name s

def tokens : Nat → Token → Chars → Option (List Token)
  | 0, _, _ | _, _, [] => some []
  | fuel + 1, last, c :: rest => do
    let chars := c :: rest
    let more (token : Token) (later : Chars) : Option (List Token) :=
      (tokens fuel token later).map (token :: ·)
    match c, rest with
    | '\\', '\n' :: later => tokens fuel last later
    | '#', _ => tokens fuel last (rest.dropWhile (· ≠ '\n'))
    | '"', _ =>
      let (text, later) ← upTo? '"' rest
      more (.text (String.ofList (unescape (text.length + 1) text))) later
    | _, _ =>
      if isBlank c then tokens fuel last rest
      else if c.isDigit ∨ c = '.' then
        let (value, power, later) ← Floating.decimal? chars
        more (.number (Floating.ofDecimal false value power)) later
      else if c.isAlpha ∨ c = '_' then
        let (name, later) := chars.span fun c => c.isAlphanum || c = '_'
        more (word (String.ofList name) later) later
      else if c = '/' ∧ !endsValue last then
        let (source, later) ← upTo? '/' rest
        more (.pattern ((String.ofList source).replace "\\/" "/")) later
      else
        let sign ← signs.find? fun sign => sign.toList.isPrefixOf chars
        more (.sign sign) (chars.drop sign.length)

def ofText (text : String) : Option (List Token) :=
  tokens (text.length + 2) (.sign "\n") (text.toList ++ ['\n'])

end Scan

structure Reading where
  rest : List Token
  inPrint : Bool := false

abbrev Reader (α : Type) := StateT Reading Option α

namespace Reader

/-! ### Tokens -/

def peek : Reader Token := do return (← get).rest.headD (.sign "")

def next : Reader Token := do
  let token ← peek
  modify fun reading => { reading with rest := reading.rest.tail }
  return token

def isSign (s : String) : Reader Bool := do
  let .sign other ← peek | return false
  return s = other

def accept (s : String) : Reader Bool := do
  let isNext ← isSign s
  if isNext then let _ ← next
  return isNext

def expect (s : String) : Reader Unit := do if !(← accept s) then failure

def skip (isSkipped : String → Bool) : Nat → Reader Unit
  | 0 => return
  | fuel + 1 => do
    if let .sign s ← peek then
      if isSkipped s then
        let _ ← next
        skip isSkipped fuel

def bound : Reader Nat := do return (← get).rest.length + 1

def skipNewlines : Reader Unit := do skip (· = "\n") (← bound)

def closed (reader : Reader α) : Reader α := do
  let outer ← get
  modify ({ · with inPrint := false })
  let result ← reader
  modify ({ · with inPrint := outer.inPrint })
  return result

def nameNext : Reader String := do
  let .name s ← next | failure
  return s

/-! ### Regular expressions -/

def spelling : Regex.Spelling := { extended := true, escapes := true, words := false }

def regexOf? (source : String) : Option Regex := (Regex.read spelling source.toList).toOption

/-! ### Expressions -/

def isTarget : Expr → Bool
  | .name _ | .element .. | .field _ => true
  | _ => false

def begins (signs : List String) : Token → Bool
  | .sign s => s ∈ ["$", "!", "(", "++", "--"] ++ signs
  | _ => true

def levels : List (List String) :=
  [["||"], ["&&"], ["in"], ["~", "!~"], ["<", "<=", "==", "!=", ">", ">="], [""], ["+", "-"],
    ["*", "/", "%"]]

def chain (operand : Reader Expr) (signs : List String) : Nat → Expr → Reader Expr
  | 0, left => return left
  | fuel + 1, left => do
    let sign := match ← peek with
      | .sign s => s
      | _ => ""
    if signs = [""] then
      if !begins [] (← peek) then return left
      return ← chain operand signs fuel (.binary "" left (← operand))
    if !signs.contains sign ∨ (sign = ">" ∧ (← get).inPrint) then return left
    let _ ← next
    if sign = "in" then
      let indices := match left with
        | .group items => items
        | other => [other]
      return ← chain operand signs fuel (.isIn indices (← nameNext))
    if sign = "||" ∨ sign = "&&" then skipNewlines
    chain operand signs fuel (.binary sign left (← operand))

def listOf (item : Reader Expr) : Nat → Reader (List Expr)
  | 0 => return []
  | fuel + 1 => do
    skipNewlines
    if !begins ["-", "+", "getline"] (← peek) then return []
    let first ← item
    if ← accept "," then return first :: (← listOf item fuel) else return [first]

def inside (item : Reader Expr) (last : String) : Reader (List Expr) := do
  let items ← closed (listOf item (← bound))
  skipNewlines
  expect last
  return items

mutual

def expression : Nat → Reader Expr
  | 0 => failure
  | fuel + 1 => do
    let condition ← binary fuel levels
    if !(← accept "?") then return condition
    let yes ← expression fuel
    expect ":"
    return .choose condition yes (← expression fuel)

def binary : Nat → List (List String) → Reader Expr
  | 0, _ => failure
  | fuel + 1, [] => unary fuel
  | fuel + 1, signs :: stronger => do
    let operand := binary fuel stronger
    let first ← operand
    chain operand signs (← bound) first

def unary : Nat → Reader Expr
  | 0 => failure
  | fuel + 1 => do
    if ← accept "!" then return .negate (← unary fuel)
    if ← accept "-" then return .minus (← unary fuel)
    let base ← stepped fuel
    if ← accept "^" then return .binary "^" base (← unary fuel) else return base

def stepped : Nat → Reader Expr
  | 0 => failure
  | fuel + 1 => do
    if ← accept "++" then return .step (← primary fuel) 1.0 false
    if ← accept "--" then return .step (← primary fuel) (-1.0) false
    let value ← primary fuel
    if !isTarget value then return value
    if ← accept "++" then return .step value 1.0 true
    if ← accept "--" then return .step value (-1.0) true
    for sign in ["=", "+=", "-=", "*=", "/=", "%=", "^="] do
      if ← accept sign then return .update sign value (← expression fuel)
    return value

def primary : Nat → Reader Expr
  | 0 => failure
  | fuel + 1 => do
    match ← next with
    | .number x => return .number x
    | .text s => return .text s
    | .pattern source => return .pattern (← regexOf? source)
    | .sign "$" => return .field (← primary fuel)
    | .sign "(" =>
      match ← inside (expression fuel) ")" with
      | [one] => return one
      | several => return .group several
    | .name s =>
      if ← accept "[" then return .element s (← inside (expression fuel) "]") else return .name s
    | .function s =>
      if ← accept "(" then return .call s (← inside (expression fuel) ")") else return .call s []
    | .sign "getline" =>
      match ← peek with
      | .name _ | .sign "$" => return .read (some (← primary fuel))
      | _ => return .read none
    | _ => failure

end

def depth : Nat := 20000

def full : Reader Expr := expression depth

/-! ### Statements -/

def isEnd : Reader Bool := do
  let .sign s ← peek | return false
  return s ∈ [";", "\x7d", "\n", "", ">", ">>"]

def endOfStatement : Reader Unit := do
  if !((← accept ";") || (← accept "\n") || (← isSign "\x7d")) then failure

def printed (isFormatted : Bool) : Reader Statement := do
  modify ({ · with inPrint := true })
  let items ← if ← isEnd then pure [] else listOf full (← bound)
  let items := match items with
    | [.group several] => several
    | _ => items
  modify ({ · with inPrint := false })
  return .print isFormatted items

def simple : Reader Statement := do
  if ← accept "print" then return ← printed false
  if ← accept "printf" then return ← printed true
  if ← accept "delete" then
    let array ← nameNext
    return .forget array (← if ← accept "[" then inside full "]" else pure [])
  return .evaluate (← full)

def guarded : Reader Expr := do
  expect "("
  let condition ← full
  expect ")"
  return condition

def optional (missing : α) (last : String) (reader : Reader α) : Reader α := do
  let value ← if ← isSign last then pure missing else reader
  expect last
  return value

mutual

def statement : Nat → Reader Statement
  | 0 => failure
  | fuel + 1 => do
    skipNewlines
    let ended (statement : Statement) : Reader Statement := do
      endOfStatement
      return statement
    if ← isSign "\x7b" then return ← block fuel
    if ← accept ";" then return .block []
    if ← accept "if" then
      let condition ← guarded
      let yes ← statement fuel
      skipNewlines
      let no ← if ← accept "else" then statement fuel else pure (.block [])
      return .branch condition yes no
    if ← accept "while" then
      let condition ← guarded
      return .loop condition (.block []) (← statement fuel)
    if ← accept "for" then
      expect "("
      match (← get).rest with
      | .name name :: .sign "in" :: .name array :: .sign ")" :: rest =>
        modify ({ · with rest })
        return .loopIn name array (← statement fuel)
      | _ =>
        let start ← optional (.block []) ";" simple
        let condition ← optional (.number 1.0) ";" full
        let step ← optional (.block []) ")" simple
        return .block [start, .loop condition step (← statement fuel)]
    for word in ["next", "break", "continue"] do if ← accept word then return ← ended (.jump word)
    if ← accept "exit" then return ← ended (.exit (← if ← isEnd then pure none else some <$> full))
    if ← accept "return" then return ← ended (.give (← if ← isEnd then pure (.text "") else full))
    ended (← simple)

def block : Nat → Reader Statement
  | 0 => failure
  | fuel + 1 => do
    expect "\x7b"
    let statements ← statements fuel
    expect "\x7d"
    return .block statements

def statements : Nat → Reader (List Statement)
  | 0 => return []
  | fuel + 1 => do
    skip (fun s => s = "\n" || s = ";") (← bound)
    match ← peek with
    | .sign "\x7d" | .sign "" => return []
    | _ =>
      let first ← statement fuel
      return first :: (← statements fuel)

end

/-! ### Programs -/

def function : Reader (String × Function) := do
  let .function name ← next | failure
  expect "("
  let params := (← inside full ")").filterMap fun
    | .name s => some s
    | _ => none
  skipNewlines
  return (name, { params, body := ← block depth })

def items : Nat → Program → Reader Program
  | 0, program => return program
  | fuel + 1, program => do
    skip (fun s => s = "\n" || s = ";") (← bound)
    if ← isSign "" then return program
    if ← accept "BEGIN" then items fuel { program with starts := program.starts ++ [← block depth] }
    else if ← accept "END" then
      items fuel { program with finishes := program.finishes ++ [← block depth] }
    else if ← accept "function" then
      items fuel { program with functions := program.functions ++ [← function] }
    else
      let first ← if ← isSign "\x7b" then pure none else some <$> full
      let last ← if ← accept "," then some <$> full else pure none
      let action ← if ← isSign "\x7b" then block depth else pure (.print false [])
      items fuel { program with rules := program.rules ++ [⟨first, last, action⟩] }

end Reader

def Program.ofText? (text : String) : Option Program := do
  let tokens ← Scan.ofText text
  (Reader.items (tokens.length + 1) {}).run' { rest := tokens }

end Awk

end ProgramAnalysis.Shell
