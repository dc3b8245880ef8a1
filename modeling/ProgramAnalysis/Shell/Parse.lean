import ProgramAnalysis.Shell.Process

/-!
Reading scripts: characters with their lines, words with their quotes, and commands.
-/

namespace ProgramAnalysis.Shell

structure SyntaxFault where
  line : Nat
  message : String
  deriving DecidableEq

abbrev Mark := Char × Nat

structure Source where
  rest : List Mark
  lastLine : Nat := 1
  held : Option Token := none
  aliases : Table String String := .empty
  replaced : List (String × Nat) := []
  replacesNext : Option Nat := none

abbrev Parser (α : Type) := EStateM SyntaxFault Source α

namespace Source

def number (line : Nat) : Chars → List Mark × Nat
  | [] => ([], line)
  | c :: rest =>
    (number (if c = '\n' then line + 1 else line) rest).map ((c, line) :: ·) id

def ofText (script : String) (line : Nat) : Source :=
  let (rest, lastLine) := number line script.toList
  { rest, lastLine }

def line (source : Source) : Nat :=
  (source.rest.head?.map (·.2)).getD source.lastLine

end Source

namespace Parser

def fault (message : String) : Parser α := do throw ⟨(← get).line, message⟩

def unexpected (token : Token) (expected : Option Token) : Parser α :=
  fault (token.name ++ " unexpected" ++
    expected.elim "" fun other => " (expecting " ++ other.name ++ ")")

def skipJoins : List Mark → List Mark
  | ('\\', _) :: ('\n', _) :: rest => skipJoins rest
  | marks => marks

def peek? : Parser (Option Char) := do
  modify fun source => { source with rest := skipJoins source.rest }
  return (← get).rest.head?.map (·.1)

def drop : Parser Unit := modify fun source => { source with rest := source.rest.tail }

def take? : Parser (Option Char) := do
  let next := (← get).rest.head?.map (·.1)
  drop
  return next

def next? : Parser (Option Char) := do
  let next ← peek?
  drop
  return next

def loop (step : Parser (Option α)) : Nat → Parser (List α)
  | 0 => return []
  | fuel + 1 => do
    let some a ← step | return []
    return a :: (← loop step fuel)

def bound : Parser Nat := do return (← get).rest.length + 1

/-- What a parser gives until it gives nothing. -/
def many (step : Parser (Option α)) : Parser (List α) := do loop step (← bound)

variable (inside : Char → Bool)

def nextIf : Parser (Option Char) := do
  let next := (← peek?).filter inside
  if next.isSome then drop
  return next

def takeWhile : Parser String := do
  return String.ofList (← many (nextIf inside))

def within (marks : List Mark) (parser : Parser α) : Parser α := do
  let outer ← get
  set { outer with
    rest := marks, lastLine := outer.line, held := none, replaced := [], replacesNext := none }
  let result ← parser
  set outer
  return result

def putBack (token : Token) : Parser Unit := modify ({ · with held := some token })

def leave (token : Token) (a : α) : Parser α := do
  putBack token
  return a

def heldOr (next : Parser Token) : Parser Token := do
  let some token := (← get).held | next
  modify ({ · with held := none })
  return token

end Parser

structure Grammar where
  commands : Parser Command
  block : Parser Command
  command : Parser Command
  dollar : Bool → Parser Part

def backquote : Char := Char.ofNat 96

variable (c : Char)

def endsWord : Bool := " \t\n;&|<>()".toList.contains c

def startsName : Bool := c.isAlpha || c == '_'

def continuesName : Bool := c.isAlphanum || c == '_'

def isName (name : String) : Bool :=
  name.toList.head?.any startsName && name.toList.all continuesName

def isSpecial : Bool := "#?$!-*@".toList.contains c || c.isDigit

def joinTexts : List Part → List Part
  | [] => []
  | .text s quoted :: rest =>
    match joinTexts rest with
    | .text t other :: later =>
      if quoted = other then .text (s ++ t) quoted :: later
      else .text s quoted :: .text t other :: later
    | later => .text s quoted :: later
  | part :: rest => part :: joinTexts rest

namespace Words

open ProgramAnalysis.Shell.Parser

variable (g : Grammar)

def charPart (c : Char) (quoted : Bool) : Part := .text (String.singleton c) quoted

/-! ### Quotations -/

def parts (step : Parser (Option (List Part))) : Parser (List Part) := do
  return (← many step).flatten

def single : Parser String := do
  return String.ofList (← many do
    match ← take? with
    | none => fault "Unterminated quoted string"
    | some '\'' => return none
    | next => return next)

variable (inDouble : Bool)

def backquoted : Parser (List Mark) := do
  return (← many do
    let first :: rest := (← get).rest | fault "EOF in backquote substitution"
    drop
    if first.1 = backquote then return none
    if first.1 ≠ '\\' then return some [first]
    let second :: _ := rest | fault "EOF in backquote substitution"
    drop
    let c := second.1
    if c = '\n' then return some []
    let isProtected := c = '\\' || c = '$' || c = backquote || (inDouble && c = '"')
    return some (if isProtected then [second] else [first, second])).flatten

def oldSubstitution (quoted : Bool) : Parser Part := do
  return .substitution (← within (← backquoted quoted) g.commands) quoted

inductive Quotation where
  | quotes
  | document
  | braces
  deriving DecidableEq

def Quotation.protects (quotation : Quotation) (c : Char) : Bool :=
  c = '\\' || c = '$' || c = backquote || (c = '"' && quotation ≠ .document) ||
    (c = '\x7d' && quotation = .braces)

def quotedPart (quotation : Quotation) (c : Char) : Parser (List Part) := do
  if c = '$' then return [← g.dollar true]
  if c = backquote then return [← oldSubstitution g true]
  let next ← if c = '\\' then nextIf quotation.protects else pure none
  return [charPart (next.getD c) true]

def double : Parser (List Part) := parts do
  match ← next? with
  | none => fault "Unterminated quoted string"
  | some '"' => return none
  | some c => return some (← quotedPart g .quotes c)

def quotation (inner : List Part) : List Part :=
  match inner with
  | [.parameter "@" .value true] => inner
  | _ => .text "" true :: inner

def document : Parser (List Part) := parts do
  let some c ← next? | return none
  return some (← quotedPart g .document c)

/-! ### Words -/

def plainPart (c : Char) : Parser (List Part) := do
  if c = '\\' then return [charPart ((← take?).getD c) true]
  else if c = '\'' then return [.text (← single) true]
  else if c = '"' then return quotation (← double g)
  else if c = '$' then return [← g.dollar false]
  else if c = backquote then return [← oldSubstitution g false]
  else return [charPart c false]

def plain : Parser (List Part) := parts do
  let some c ← nextIf (!endsWord ·) | return none
  return some (← plainPart g c)

/-! ### Parameters -/

def braced (inDouble : Bool) : Parser (List Part) := parts do
  match ← next? with
  | none => fault "Missing '\x7d'"
  | some '\x7d' => return none
  | some c =>
    if !inDouble then return some (← plainPart g c)
    return some (← if c = '"' then pure [] else quotedPart g .braces c)

def form (inDouble : Bool) : Parser Form := do
  let choice (orEmpty : Bool) : Parser Form := do
    let sign ← next?
    let word := joinTexts (← braced g inDouble)
    return match sign with
      | some '-' => .orElse orEmpty word
      | some '=' => .orAssign orEmpty word
      | some '?' => .orComplain orEmpty word
      | some '+' => .instead orEmpty word
      | _ => .malformed
  match ← peek? with
  | some '\x7d' => drop; return .value
  | some ':' => drop; choice true
  | some '%' | some '#' =>
    let first ← next?
    let longest := (← peek?) = first
    if longest then drop
    return .trimmed (first = some '%') longest (joinTexts (← braced g false))
  | _ => choice false

def bracedParameter (quoted : Bool) : Parser Part := do
  let rest (name : String) : Parser Part := do return .parameter name (← form g quoted) quoted
  let skip (name : String) : Parser Part := do
    let _ ← braced g quoted
    return .parameter name .malformed quoted
  let some c ← peek? | fault "Missing '\x7d'"
  if startsName c then rest (← takeWhile continuesName)
  else if c.isDigit then rest (← takeWhile Char.isDigit)
  else if c = '#' then
    drop
    let some next ← peek? | fault "Missing '\x7d'"
    let isAlone := next ≠ '\x7d' && isSpecial next &&
      (← get).rest.tail.head?.map (·.1) = some '\x7d'
    if !continuesName next ∧ !isAlone then return ← rest "#"
    let measured ← if continuesName next then takeWhile continuesName
      else do pure (String.ofList (← next?).toList)
    if (← nextIf (· = '\x7d')).isNone then return ← skip measured
    return .parameter measured .length quoted
  else if isSpecial c then
    drop
    rest (String.singleton c)
  else skip ""

/-! ### Substitutions -/

def arithmetic (depth : Nat) : Nat → Parser (List Part)
  | 0 => fault "Missing '))'"
  | fuel + 1 => do
    match ← next? with
    | none => fault "Missing '))'"
    | some '(' => return charPart '(' true :: (← arithmetic (depth + 1) fuel)
    | some ')' =>
      if depth = 0 then if (← nextIf (· = ')')).isSome then return []
      return charPart ')' true :: (← arithmetic (depth - 1) fuel)
    | some c => return (← quotedPart g .quotes c) ++ (← arithmetic depth fuel)

def dollar (quoted : Bool) : Parser Part := do
  match ← peek? with
  | some '(' =>
    drop
    if (← nextIf (· = '(')).isSome then
      return .arithmetic (joinTexts (← arithmetic g 0 (← bound))) quoted
    let body ← g.commands
    match ← heldOr (pure .finish) with
    | .closing => return .substitution body quoted
    | token => unexpected token (some .closing)
  | some '\x7b' => drop; bracedParameter g quoted
  | next =>
    if next.any startsName then return .parameter (← takeWhile continuesName) .value quoted
    let some c ← nextIf isSpecial | return .text "$" quoted
    return .parameter (String.singleton c) .value quoted

/-! ### Documents -/

def delimiter : Parser (String × Bool) := do
  let pieces ← many do
    let some c ← nextIf (!endsWord ·) | return none
    if c = '\\' then return some (((← take?).map String.singleton).getD "", true)
    if c = '\'' then return some (← single, true)
    if c = '"' then
      let inner ← takeWhile (· ≠ '"')
      drop
      return some (inner, true)
    return some (String.singleton c, false)
  return (String.join (pieces.map (·.1)), pieces.any (·.2))

def cutLine (marks : List Mark) : List Mark × List Mark :=
  let (line, rest) := marks.span (·.1 ≠ '\n')
  (line ++ rest.take 1, rest.tail)

def isJoined (line : List Mark) : Bool :=
  match line.reverse with
  | ('\n', _) :: before => (before.takeWhile (·.1 = '\\')).length % 2 == 1
  | _ => false

def cutDocument (mark : String) (stripTabs literal : Bool) :
    Nat → Bool → List Mark → List Mark × List Mark
  | 0, _, marks => ([], marks)
  | _ + 1, _, [] => ([], [])
  | fuel + 1, joined, marks =>
    let (line, rest) := cutLine marks
    let line := if stripTabs ∧ !joined then line.dropWhile (·.1 = '\t') else line
    let text := String.ofList ((line.filter (·.1 ≠ '\n')).map (·.1))
    if text = mark ∧ !joined then ([], rest)
    else
      (cutDocument mark stripTabs literal fuel (!literal && isJoined line) rest).map (line ++ ·) id

def readDocument (stripTabs : Bool) : Parser Word := do
  let (mark, literal) ← delimiter
  let source ← get
  let (line, later) := cutLine source.rest
  let (body, rest) := cutDocument mark stripTabs literal (later.length + 1) false later
  set { source with rest := line ++ rest }
  if literal then return [.text (String.ofList (body.map (·.1))) true]
  else return joinTexts (← within body (document g))

end Words

namespace Parse

open ProgramAnalysis.Shell.Parser

variable (g : Grammar)

/-! ### Tokens -/

def skipBlanks : Parser Unit := do
  let _ ← many (nextIf isBlank)
  if (← peek?) = some '#' then
    modify fun source => { source with rest := source.rest.dropWhile (·.1 ≠ '\n') }

def ifNext (c : Char) (yes no : Token) : Parser Token := do
  return if (← nextIf (· = c)).isSome then yes else no

def redirectOperator (first : Char) (descriptor : Option Nat) : Parser Token := do
  let operator : RedirectOperator ←
    match first, ← peek? with
    | '>', some '>' => drop; pure (.file .append)
    | '>', some '|' => drop; pure (.file .replace)
    | '>', some '&' => drop; pure .duplicate
    | '>', _ => pure (.file .output)
    | _, some '<' => drop; pure (.document (← nextIf (· = '-')).isSome)
    | _, some '&' => drop; pure .duplicate
    | _, some '>' => drop; pure (.file .both)
    | _, _ => pure (.file .input)
  return .redirect (descriptor.getD (if first = '>' then 1 else 0)) operator

def nextToken : Parser Token := do
  skipBlanks
  match ← peek? with
  | none => return .finish
  | some '\n' => drop; return .newline
  | some '&' => drop; ifNext '&' .both .background
  | some '|' => drop; ifNext '|' .either .pipe
  | some ';' => drop; ifNext ';' .endCase .semicolon
  | some '(' => drop; return .opening
  | some ')' => drop; return .closing
  | some '<' => drop; redirectOperator '<' none
  | some '>' => drop; redirectOperator '>' none
  | some _ =>
    let word := joinTexts (← Words.plain g)
    if let ([.text s false], some c) := (word, ← peek?) then
      if let [digit] := s.toList then
        if digit.isDigit ∧ (c = '<' ∨ c = '>') then
          drop
          return ← redirectOperator c (some (digit.toNat - '0'.toNat))
    return .word word none

def reservedWords : List String :=
  ["!", "case", "do", "done", "elif", "else", "esac", "fi", "for", "if", "in", "then", "until",
    "while", "\x7b", "\x7d"]

def reserve : Token → Token
  | .word [.text s false] none => .word [.text s false] (if s ∈ reservedWords then some s else none)
  | token => token

def heldOrNext : Parser Token := heldOr (nextToken g)

def skipNewlines : Nat → Token → Parser Token
  | fuel + 1, .newline => do skipNewlines fuel (← nextToken g)
  | _, token => return token

def replaceAlias (skips : Bool) : Nat → Token → Parser Token
  | 0, token => return token
  | fuel + 1, token => do
    let token ← if skips then skipNewlines g (← bound) token else pure token
    let token := reserve token
    let .word [.text s false] none := token | return token
    let source ← get
    let some value := source.aliases.get? s | return token
    let left := source.rest.length
    if source.replaced.any fun (name, length) => name = s && length ≤ left then return token
    let chars := value.toList
    let gap := (chars.reverse.takeWhile isBlank).length
    set { source with
      rest := chars.map (·, source.line) ++ source.rest
      replaced := (s, left) :: source.replaced
      replacesNext := if gap = 0 then none else some (left + gap) }
    replaceAlias skips fuel (← nextToken g)

def aliased (skips : Bool) (token : Token) : Parser Token := do
  replaceAlias g skips ((← get).aliases.entries.length + 1) token

def token : Parser Token := do
  let source ← get
  let next ← heldOrNext g
  if source.held.isSome ∨ !source.replacesNext.any (source.rest.length ≤ ·) then return next
  modify ({ · with replacesNext := none })
  aliased g false next

def commandToken : Parser Token := do aliased g false (← heldOrNext g)

def lineToken : Parser Token := do aliased g true (← heldOrNext g)

def expect (word : String) : Parser Unit := do
  let next ← lineToken g
  if !next.isReserved word then unexpected next (some (.word [] (some word)))

/-! ### Redirections -/

def redirect (descriptor : Nat) (operator : RedirectOperator) : Parser Redirect := do
  let word : Parser Word := do
    match ← token g with
    | .word word _ => return word
    | other => unexpected other none
  match operator with
  | .document stripTabs =>
    skipBlanks
    if (← peek?).all endsWord then unexpected (← nextToken g) none
    return .document descriptor (← Words.readDocument g stripTabs)
  | .file kind => return .file descriptor kind (← word)
  | .duplicate => return .duplicate descriptor (← word)

def redirects : Parser (List Redirect) := many do
  match ← commandToken g with
  | .redirect descriptor operator => return some (← redirect g descriptor operator)
  | other => leave other none

/-! ### Simple commands -/

def assignment? : Word → Option (String × Word)
  | .text s false :: rest =>
    match s.toList.span (· ≠ '=') with
    | (name, '=' :: value) =>
      if isName (String.ofList name) then
        let first := if value.isEmpty then [] else [Part.text (String.ofList value) false]
        some (String.ofList name, first ++ rest)
      else none
    | _ => none
  | _ => none

def specialCommands : List String :=
  [":", ".", "break", "continue", "eval", "exec", "exit", "export", "readonly", "return", "set",
    "shift", "times", "trap", "unset"]

def simple (line : Nat) : Nat → List (String × Word) → List Word → List Redirect → Parser Command
  | 0, assignments, words, redirects => return .simple line assignments words redirects
  | fuel + 1, assignments, words, redirects => do
    match ← token g with
    | .word word _ =>
      match words, assignment? word with
      | [], some assigned =>
        putBack (← aliased g false (← token g))
        simple line fuel (assignments ++ [assigned]) [] redirects
      | _, _ => simple line fuel assignments (words ++ [word]) redirects
    | .redirect descriptor operator =>
      let next ← redirect g descriptor operator
      simple line fuel assignments words (redirects ++ [next])
    | next =>
      match next, assignments, words, redirects with
      | .opening, [], [word], [] =>
        match ← token g with
        | .closing =>
          let [.text name false] := word | fault "Bad function name"
          if !isName name ∨ name ∈ specialCommands then fault "Bad function name"
          putBack (← lineToken g)
          return .define name (← g.command)
        | other => unexpected other (some .closing)
      | _, _, _, _ => leave next (.simple line assignments words redirects)

/-! ### Compound commands -/

def conditional : Nat → Parser Command
  | 0 => fault "end of file unexpected"
  | fuel + 1 => do
    let condition ← g.block
    expect g "then"
    let yes ← g.block
    let next ← lineToken g
    if next.isReserved "elif" then return .branch condition yes (some (← conditional fuel))
    else if next.isReserved "else" then
      let no ← g.block
      expect g "fi"
      return .branch condition yes (some no)
    else if next.isReserved "fi" then return .branch condition yes none
    else unexpected next (some (.word [] (some "fi")))

def loopBody : Parser Command := do
  expect g "do"
  let body ← g.block
  expect g "done"
  return body

def each (line : Nat) : Parser Command := do
  let .word [.text name false] _ ← token g | fault "Bad for loop variable"
  if !isName name then fault "Bad for loop variable"
  let next ← lineToken g
  let words ←
    if next.isReserved "in" then do
      let words ← many do
        match ← token g with
        | .word word _ => return some word
        | other => leave other none
      match ← token g with
      | .newline | .semicolon => pure words
      | other => unexpected other none
    else do
      if !(next matches .semicolon) then putBack next
      pure [[.parameter "@" .value true]]
  return .each line name words (← loopBody g)

def patterns : Nat → Token → Parser (List Word)
  | 0, _ => return []
  | fuel + 1, first => do
    let word := match first with
      | .word word _ => word
      | _ => []
    match ← token g with
    | .pipe => return word :: (← patterns fuel (← token g))
    | .closing => return [word]
    | other => unexpected other (some .closing)

def selectCases : Nat → Parser (List (List Word × Command))
  | 0 => return []
  | fuel + 1 => do
    let next ← lineToken g
    if next.isReserved "esac" then return []
    let first ← if next matches .opening then token g else pure next
    let alternatives ← patterns g (← bound) first
    let body ← g.commands
    match ← lineToken g with
    | .endCase => return (alternatives, body) :: (← selectCases fuel)
    | other =>
      if other.isReserved "esac" then return [(alternatives, body)]
      unexpected other (some .endCase)

def select (line : Nat) : Parser Command := do
  match ← token g with
  | .word word _ =>
    expect g "in"
    return .select line word (← selectCases g (← bound))
  | other => unexpected other (some (.word [] none))

def compound (line : Nat) (first : Token) : String → Parser Command
  | "if" => do conditional g (← bound)
  | "for" => each g line
  | "case" => select g line
  | "while" => repeated true
  | "until" => repeated false
  | "\x7b" => do
    let body ← g.block
    expect g "\x7d"
    return body
  | _ => unexpected first none
where
  repeated (expected : Bool) : Parser Command := do
    let condition ← g.block
    return .loop expected condition (← loopBody g)

def command : Parser Command := do
  let line := (← get).line
  let first ← lineToken g
  match first with
  | .word _ none | .redirect .. =>
    let line := (← get).line
    putBack first
    simple g line (← bound) [] [] []
  | .opening =>
    let body ← g.block
    match ← lineToken g with
    | .closing => return .nested line body (← redirects g)
    | other => unexpected other (some .closing)
  | .word _ (some reserved) =>
    let body ← compound g line first reserved
    match ← redirects g with
    | [] => return body
    | others => return .redirected line body others
  | other => unexpected other none

def stages : Parser (List Command) := many do
  match ← token g with
  | .pipe =>
    putBack (← lineToken g)
    return some (← command g)
  | other => leave other none

def pipeline : Parser Command := do
  let next ← commandToken g
  let negated := next.isReserved "!"
  putBack (← if negated then commandToken g else pure next)
  let first ← command g
  let body := match ← stages g with
    | [] => first
    | others => .pipeline (first :: others)
  return if negated then .negate body else body

def continued : Parser Command := do
  putBack (← lineToken g)
  pipeline g

def joined : Nat → Command → Parser Command
  | 0, first => return first
  | fuel + 1, first => do
    match ← token g with
    | .both => joined fuel (.both first (← continued g))
    | .either => joined fuel (.either first (← continued g))
    | other => leave other first

inductive Extent where
  | line
  | block
  | open
  deriving DecidableEq

def commandsFrom (extent : Extent) : Nat → List Command → Parser (List Command)
  | 0, commands => return commands
  | fuel + 1, commands => do
    let next ← if extent = .line then commandToken g else lineToken g
    match next with
    | .newline => return commands
    | .finish => leave .finish commands
    | next =>
      putBack next
      if next.endsList ∧ (extent = .open ∨ (extent = .block ∧ !commands.isEmpty)) then
        return commands
      let chain ← joined g (← bound) (← pipeline g)
      match ← token g with
      | .background => commandsFrom extent fuel (commands ++ [.background chain])
      | .semicolon => commandsFrom extent fuel (commands ++ [chain])
      | .newline =>
        putBack .newline
        commandsFrom extent fuel (commands ++ [chain])
      | .finish => leave .finish (commands ++ [chain])
      | other =>
        if extent = .line then unexpected other none
        leave other (commands ++ [chain])

def ofList : List Command → Command
  | [only] => only
  | commands => .sequence commands

def commands (extent : Extent) : Parser Command := do
  return ofList (← commandsFrom g extent (← bound) [])

end Parse

namespace Grammar

def ofDepth : Nat → Grammar
  | 0 =>
    let deep {α : Type} : Parser α := Parser.fault "nested too deeply"
    { commands := deep, block := deep, command := deep, dollar := fun _ => deep }
  | depth + 1 =>
    let inner := ofDepth depth
    { commands := Parse.commands inner .open
      block := Parse.commands inner .block
      command := Parse.command inner
      dollar := Words.dollar inner }

end Grammar

def nextLine (source : Source) : Except SyntaxFault (Option (Command × Source)) :=
  if source.rest.isEmpty then .ok none
  else
    match Parse.commands (Grammar.ofDepth (source.rest.length + 1)) .line source with
    | .ok command rest =>
      .ok (some (command, { rest with held := none, replaced := [], replacesNext := none }))
    | .error fault _ => .error fault

end ProgramAnalysis.Shell
