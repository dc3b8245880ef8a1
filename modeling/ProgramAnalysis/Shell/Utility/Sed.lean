import ProgramAnalysis.Shell.Format
import ProgramAnalysis.Shell.Utility

/-!
Editing lines by a script, whose commands are done to one line after the other.
-/

namespace ProgramAnalysis.Shell

open String (ofList)

namespace Sed

/-! ### What a script says -/

structure Expression where
  regex : Regex
  fold : Bool := false
  deriving Inhabited

inductive Place where
  | line (number : Nat)
  | last
  | found (expression : Option Expression)

inductive Limit where
  | place (place : Place)
  | more (count : Nat)

inductive Piece where
  | char (c : Char)
  | group (number : Nat)
  | casing (letter : Char)

structure Substitution where
  expression : Option Expression := none
  replacement : List Piece := []
  nth : Nat := 1
  everywhere : Bool := false
  prints : Bool := false
  fold : Bool := false
  target : Option String := none

inductive Action where
  | simple (letter : Char)
  | text (letter : Char) (text : String)
  | named (letter : Char) (name : String)
  | quit (prints : Bool) (code : Nat)
  | substitute (substitution : Substitution)
  | translate (source target : Chars)

structure Command where
  first : Option Place := none
  second : Option Limit := none
  negated : Bool := false
  action : Action

/-! ### Reading -/

structure Input where
  rest : Chars
  consumed : Nat := 0
  depth : Nat := 0

variable (α : Type)

abbrev Reader := EStateM String Input α

namespace Reader

def peek? : Reader (Option Char) := do return (← get).rest.head?

def take (count : Nat) : Reader Chars := do
  let input ← get
  let taken := input.rest.take count
  set { input with rest := input.rest.drop count, consumed := input.consumed + taken.length }
  return taken

def next? : Reader (Option Char) := do return (← take 1).head?

def takeWhile (isTaken : Char → Bool) : Reader Chars := do
  take ((← get).rest.takeWhile isTaken).length

def skipBlanks : Reader Unit := do let _ ← takeWhile isBlank

def number : Reader Nat := do return digitsValue 10 (← takeWhile Char.isDigit)

def endOfCommand : Reader Unit := do
  skipBlanks
  match ← peek? with
  | none | some '\x7d' | some '#' => return
  | some c =>
    let _ ← next?
    if c ≠ '\n' ∧ c ≠ ';' then throw "extra characters after command"

/-! ### Characters -/

def upTo (inSource : Bool) (delimiter : Char) : Nat → Reader (Option Chars)
  | 0 => return none
  | fuel + 1 => do
    let before (taken : Chars) : Reader (Option Chars) := do
      return (← upTo inSource delimiter fuel).map (taken ++ ·)
    match ← next? with
    | none | some '\n' => return none
    | some '\\' =>
      match ← next? with
      | none => return none
      | some c =>
        let isPlain := if inSource then c = delimiter || c = '\n' else c = delimiter && c ≠ '&'
        before (if isPlain then [c] else ['\\', c])
    | some c => if c = delimiter then return some [] else before [c]

def pieces : Chars → List Piece
  | '\\' :: c :: rest =>
    (if c.isDigit then .group (c.toNat - '0'.toNat)
      else if "LUluE".toList.contains c then .casing c
      else .char ((Regex.control? c).getD c)) :: pieces rest
  | '&' :: rest => .group 0 :: pieces rest
  | c :: rest => .char c :: pieces rest
  | [] => []

variable (extended : Bool)

def expression (text : Chars) (fold : Bool) : Reader (Option Expression) := do
  if text.isEmpty then return none
  let regex ← MonadExcept.ofExcept (Regex.read { extended, escapes := true } text)
  return some { regex, fold }

/-! ### Addresses -/

def foundPlace (count : Nat) : Reader (Option Place) := do
  let delimiter := (← take count).getD (count - 1) '/'
  let some text ← upTo true delimiter ((← get).rest.length + 1)
    | throw "unterminated address regex"
  let letters ← takeWhile (· = 'I')
  return some (.found (← expression extended text !letters.isEmpty))

def place? : Reader (Option Place) := do
  match ← peek? with
  | some '$' =>
    let _ ← next?
    return some .last
  | some '/' => foundPlace extended 1
  | some '\\' => foundPlace extended 2
  | some c => if c.isDigit then return some (.line (← number)) else return none
  | none => return none

def limit : Reader Limit := do
  skipBlanks
  if (← peek?) = some '+' then
    let _ ← next?
    return .more (← number)
  let some place ← place? extended | throw "unexpected \x60,'"
  return .place place

/-! ### Commands -/

def plainChars : Chars → Chars
  | '\\' :: c :: rest => ((Regex.control? c).getD c) :: plainChars rest
  | c :: rest => c :: plainChars rest
  | [] => []

def lines : Chars → Chars
  | '\\' :: c :: rest => '\\' :: c :: lines rest
  | '\n' :: _ | [] => []
  | c :: rest => c :: lines rest

def shownText : Reader String := do
  skipBlanks
  if (← peek?) = some '\\' then
    let _ ← next?
    if (← peek?) = some '\n' then let _ ← next?
  let text := lines (← get).rest
  modify fun input => { input with rest := input.rest.drop (text.length + 1) }
  return ofList (plainChars text ++ ['\n'])

def path : Reader String := do
  skipBlanks
  let name ← takeWhile (· ≠ '\n')
  if name.isEmpty then throw "missing filename in r/R/w/W commands"
  let _ ← next?
  return ofList name

def labelName : Reader String := do
  skipBlanks
  return ofList (← takeWhile fun c => !(isGap c || c = ';' || c = '\x7d'))

def flags : Nat → Substitution → Reader Substitution
  | 0, known => return known
  | fuel + 1, known => do
    match ← peek? with
    | none | some '\x7d' | some '#' => return known
    | some c =>
      if c.isDigit then return ← flags fuel { known with nth := ← number }
      let _ ← next?
      match c with
      | '\n' | ';' => return known
      | ' ' | '\t' => flags fuel known
      | 'i' | 'I' => flags fuel { known with fold := true }
      | 'g' => flags fuel { known with everywhere := true }
      | 'p' => flags fuel { known with prints := true }
      | 'w' => return { known with target := some (← path) }
      | _ => throw "unknown option to \x60s'"

variable (letter : Char)

def twoTexts : Reader (Chars × Chars) := do
  let fuel := (← get).rest.length + 1
  if let some delimiter ← next? then
    if let some source ← upTo (letter = 's') delimiter fuel then
      if let some target ← upTo false delimiter fuel then return (source, target)
  throw ("unterminated \x60" ++ letter.toString ++ "' command")

def action : Reader Action := do
  match letter with
  | '\x7b' =>
    modify fun input => { input with depth := input.depth + 1 }
    return .simple letter
  | '\x7d' =>
    if (← get).depth = 0 then throw "unexpected \x60\x7d'"
    modify fun input => { input with depth := input.depth - 1 }
  | '#' => let _ ← takeWhile (· ≠ '\n')
  | 'a' | 'i' | 'c' => return .text letter (← shownText)
  | ':' | 'b' | 't' | 'T' => return .named letter (← labelName)
  | 'r' | 'w' => return .named letter (← path)
  | 'q' | 'Q' =>
    skipBlanks
    let code ← number
    endOfCommand
    return .quit (letter = 'q') code
  | 's' =>
    let (source, target) ← twoTexts letter
    let known ← flags ((← get).rest.length + 1) { replacement := pieces target }
    return .substitute { known with expression := ← expression extended source known.fold }
  | 'y' =>
    let (source, target) ← twoTexts letter
    endOfCommand
    return .translate (plainChars source) (plainChars target)
  | c =>
    if !"dpPnN=hHgGxl".toList.contains c then throw ("unknown command: \x60" ++ c.toString ++ "'")
  endOfCommand
  return .simple letter

def command? : Reader (Option Command) := do
  let _ ← takeWhile fun c => isGap c || c = ';'
  if (← peek?).isNone then return none
  let first ← place? extended
  skipBlanks
  let second ← if first.isSome ∧ (← peek?) = some ',' then do
      let _ ← next?
      pure (some (← limit extended))
    else pure none
  let marks ← takeWhile fun c => isBlank c || c = '!'
  let some letter ← next? | throw "missing command"
  return some { first, second, negated := marks.contains '!', action := ← action extended letter }

def commands (extended : Bool) : Nat → Reader (List Command)
  | 0 => return []
  | fuel + 1 => do
    match ← command? extended with
    | none =>
      if (← get).depth > 0 then throw "unmatched \x60\x7b'"
      return []
    | some command => return command :: (← commands extended fuel)

end Reader

/-! ### Scripts -/

structure Script where
  commands : Array Command
  ends : Array Nat
  labels : List (String × Nat)

namespace Script

def blockEnd : Nat → Nat → List Command → Nat
  | _, place, [] => place
  | depth, place, command :: rest =>
    match command.action, depth with
    | .simple '\x7d', 0 => place
    | .simple '\x7d', depth + 1 => blockEnd depth (place + 1) rest
    | .simple '\x7b', depth => blockEnd (depth + 1) (place + 1) rest
    | _, depth => blockEnd depth (place + 1) rest

def ofCommands (commands : List Command) : Script where
  commands := commands.toArray
  ends := (commands.zipIdx.map fun (command, i) =>
    match command.action with
    | .simple '\x7b' => blockEnd 0 (i + 1) (commands.drop (i + 1))
    | _ => i).toArray
  labels := commands.zipIdx.filterMap fun (command, i) =>
    match command.action with
    | .named ':' name => some (name, i)
    | _ => none

def targets (script : Script) : List String :=
  (script.commands.toList.filterMap fun command =>
    match command.action with
    | .named 'w' path => some path
    | .substitute substitution => substitution.target
    | _ => none).eraseDups

end Script

structure Settings where
  script : Script
  quiet : Bool
  inPlace : Option String

inductive Range where
  | waiting
  | active (stop : Option Nat)
  | closed

structure State where
  buffer : Chars := []
  isWhole : Bool := true
  held : Chars := []
  number : Nat := 0
  ranges : Array Range
  replaced : Bool := false
  later : List (String ⊕ String) := []
  lastUsed : Option Expression := none
  names : List String
  feed : Option Feed := none
  name : String := "-"
  out : List String := []
  isMissing : Bool := false
  code : Nat := 0

abbrev Edit := StateT State (EStateM Ending Process) α

namespace Edit

/-! ### Output -/

variable (settings : Settings)

def flush : Edit Unit := do
  let s ← get
  if settings.inPlace.isNone then
    set { s with out := [] }
    emit (String.join s.out.reverse)

def put (text : String) : Edit Unit :=
  modify fun s => { s with
    out := text :: (if s.isMissing then "\n" :: s.out else s.out), isMissing := false }

def putLine (line : Chars) (isWhole : Bool) : Edit Unit := do
  put (ofList (if isWhole then line ++ ['\n'] else line))
  modify ({ · with isMissing := !isWhole })

def showBuffer : Edit Unit := do
  let s ← get
  putLine s.buffer s.isWhole

def showLater : Edit Unit := do
  let s ← get
  set { s with later := [] }
  for item in s.later do
    match item with
    | .inl text => put text
    | .inr path => if let .ok text ← readFile path then if text ≠ "" then put text

/-! ### Input -/

def closeFile : Edit Unit := do
  let s ← get
  match settings.inPlace, s.feed with
  | some suffix, some _ =>
    if suffix ≠ "" then
      if let .ok old ← readFile s.name then let _ ← writeFile (s.name ++ suffix) old false
    let _ ← writeFile s.name (String.join s.out.reverse) false
    set { s with out := [], feed := none, isMissing := false }
  | _, _ => set { s with feed := none }

def openFile (name : String) : Edit Unit := do
  match ← Feed.start name with
  | .ok feed =>
    modify fun s => { s with
      feed := some feed, name
      number := if settings.inPlace.isSome then 0 else s.number }
  | .error why =>
    flush settings
    let cannot := if why = .isFolder then "couldn't" else "can't"
    complain ("sed: " ++ cannot ++ " read " ++ name ++ ": " ++ why.message)
    modify ({ · with code := 2 })

def fill (settings : Settings) : Nat → Edit Bool
  | 0 => return false
  | fuel + 1 => do
    let s ← get
    match s.feed with
    | some feed =>
      if !feed.rest.isEmpty then return true
      if feed.isLive then
        flush settings
        feed.exhaust
      closeFile settings
      if s.names.isEmpty then return false else fill settings fuel
    | none =>
      let name :: rest := s.names | return false
      set { s with names := rest }
      openFile settings name
      fill settings fuel

def isLast : Edit Bool := do
  let s ← get
  if s.feed.any fun feed => !feed.rest.isEmpty then return false
  if settings.inPlace.isSome then return true
  return !(← fill settings (2 * s.names.length + 3))

def readLine (appends : Bool) : Edit Bool := do
  showLater
  modify ({ · with replaced := false })
  if !(← fill settings (2 * (← get).names.length + 3)) then return false
  let s ← get
  let some feed := s.feed | return false
  let (line, rest) := feed.rest.span (· ≠ '\n')
  set { s with
    buffer := if appends then s.buffer ++ '\n' :: line else line
    isWhole := !rest.isEmpty
    number := s.number + 1
    feed := some { feed with rest := rest.tail } }
  return true

/-! ### Matching -/

def used (expression : Option Expression) : Edit Expression := do
  if expression.isSome then modify ({ · with lastUsed := expression })
  return (← get).lastUsed.getD default

def subjectOf (expression : Expression) (text : Chars) : Subject :=
  { Subject.ofBytes text with fold := expression.fold }

def isAt : Place → Edit Bool
  | .line number => do return (← get).number = number
  | .last => isLast settings
  | .found expression => do
    let expression ← used expression
    return expression.regex.isIn (subjectOf expression (← get).buffer)

variable (place : Nat)

def setRange (range : Range) : Edit Unit :=
  modify fun s => { s with ranges := s.ranges.set! place range }

def begins (first : Place) (second : Limit) : Edit Bool := do
  if !(← isAt settings first) then return false
  let number := (← get).number
  let upTo (stop : Nat) : Edit Bool := do
    if number < stop then setRange place (.active (some stop))
    return true
  match second with
  | .more count => upTo (number + count)
  | .place (.line stop) => upTo stop
  | .place _ =>
    setRange place (.active none)
    return true

variable (command : Command)

def applies : Edit Bool := do
  match command.first, command.second with
  | none, _ => return true
  | some first, none => isAt settings first
  | some first, some second =>
    let number := (← get).number
    let isLine := first matches .line _
    let finished : Range := if isLine then .closed else .waiting
    match (← get).ranges.getD place .waiting with
    | .closed => return false
    | .waiting => begins settings place first second
    | .active (some stop) =>
      if number < stop then return true
      setRange place finished
      if number = stop then return true
      else if isLine then return false
      else begins settings place first second
    | .active none =>
      if let .place target := second then
        if ← isAt settings target then setRange place finished
      return true

/-! ### Replacing -/

def changeCase : Char → Char → Char
  | 'U', c | 'u', c => c.toUpper
  | 'L', c | 'l', c => c.toLower
  | _, c => c

variable (subject : Subject)

def replacementOf (found : Regex.Match) (pieces : List Piece) : Chars :=
  let add (s : Chars × Char × Char) (chars : Chars) : Chars × Char × Char :=
    chars.foldl (fun (out, mode, once) c =>
      (changeCase (if once = 'E' then mode else once) c :: out, mode, 'E')) s
  (pieces.foldl (fun s piece =>
    match piece with
    | .char c => add s [c]
    | .group number =>
      (found.group? number).elim s fun (start, stop) => add s (subject.slice start stop)
    | .casing letter =>
      let (out, mode, once) := s
      if letter = 'u' ∨ letter = 'l' then (out, mode, letter)
      else (out, letter, if letter = 'E' then 'E' else once))
    (([], 'E', 'E') : Chars × Char × Char)).1.reverse

def replaceIn (regex : Regex) (substitution : Substitution) : Option Chars :=
  let chosen := (regex.allMatches subject).drop (substitution.nth - 1)
  let chosen := if substitution.everywhere then chosen else chosen.take 1
  if chosen.isEmpty then none
  else
    let (out, place) := chosen.foldl (fun (out, place) found =>
      (out ++ [subject.slice place found.start,
        replacementOf subject found substitution.replacement], found.stop))
      (([], 0) : List Chars × Nat)
    some (out.flatten ++ subject.slice place subject.text.size)

def writeLine (path : String) : Edit Unit := do
  let _ ← writeFile path (ofList ((← get).buffer ++ ['\n'])) true

def substitute (substitution : Substitution) : Edit Unit := do
  let expression ← used substitution.expression
  let s ← get
  let some changed := replaceIn (subjectOf expression s.buffer) expression.regex substitution
    | return
  set { s with buffer := changed, replaced := true }
  if substitution.prints then showBuffer
  if let some path := substitution.target then writeLine path

/-! ### Commands -/

def listed (c : Char) : Chars :=
  if c = '\\' then ['\\', '\\']
  else if ' ' ≤ c ∧ c ≤ '~' then [c]
  else escapedByte c

def listing (text : Chars) : String := ofList (text.flatMap listed) ++ "$\n"

inductive Flow where
  | next
  | goto (place : Nat)
  | finish
  | quit (shows : Bool) (code : Nat)

def performSimple (letter : Char) : Edit Flow := do
  let s ← get
  match letter with
  | 'd' => return .finish
  | 'p' => showBuffer
  | 'P' => putLine (s.buffer.takeWhile (· ≠ '\n')) true
  | 'l' => put (listing s.buffer)
  | '=' => put (toString s.number ++ "\n")
  | 'n' | 'N' =>
    if ← isLast settings then return .quit true 0
    if letter = 'n' ∧ !settings.quiet then showBuffer
    if !(← readLine settings (letter = 'N')) then return .quit (letter = 'N') 0
  | 'h' => set { s with held := s.buffer }
  | 'H' => set { s with held := s.held ++ '\n' :: s.buffer }
  | 'g' => set { s with buffer := s.held }
  | 'G' => set { s with buffer := s.buffer ++ '\n' :: s.held }
  | 'x' => set { s with buffer := s.held, held := s.buffer }
  | _ => pure ()
  return .next

def perform : Edit Flow := do
  let s ← get
  match command.action with
  | .simple letter => return ← performSimple settings letter
  | .text 'a' text => set { s with later := s.later ++ [Sum.inl text] }
  | .text 'i' text => put text
  | .text _ text =>
    let isActive := s.ranges.getD place .waiting matches .active _
    if command.negated ∨ command.second.isNone ∨ !isActive then put text
    return .finish
  | .named ':' _ => pure ()
  | .named 'r' path => set { s with later := s.later ++ [Sum.inr path] }
  | .named 'w' path => writeLine path
  | .named letter name =>
    if letter ≠ 'b' then set { s with replaced := false }
    if letter = 'b' ∨ s.replaced = (letter = 't') then
      return .goto ((settings.script.labels.lookup name).getD settings.script.commands.size)
  | .quit shows code => return .quit shows code
  | .substitute substitution => substitute substitution
  | .translate source target =>
    set { s with buffer := s.buffer.map fun c => ((source.zip target).lookup c).getD c }
  return .next

def close (code : Nat) : Edit Nat := do
  let s ← get
  match settings.inPlace, s.feed with
  | some _, some _ => closeFile settings
  | _, some feed =>
    flush settings
    feed.leave
  | _, none => flush settings
  if code = 0 then return (← get).code else return code

def run (settings : Settings) : Nat → Nat → Edit Nat
  | 0, _ => return 1
  | fuel + 1, place => do
    let script := settings.script
    let newCycle (shows : Bool) : Edit Nat := do
      if shows ∧ !settings.quiet then showBuffer
      showLater
      if ← readLine settings false then run settings fuel 0
      else
        flush settings
        return (← get).code
    match script.commands[place]? with
    | none => newCycle true
    | some command =>
      if (← applies settings place command) = command.negated then
        run settings fuel (script.ends.getD place place + 1)
      else
        match ← perform settings place command with
        | .next => run settings fuel (place + 1)
        | .goto target => run settings fuel target
        | .finish => newCycle false
        | .quit shows code =>
          if shows then
            if !settings.quiet then showBuffer
            showLater
          close settings code

end Edit

/-! ### The program -/

variable (call : Invocation)

def givenParts : Run (Except String (List String)) := do
  let mut parts := []
  for (flag, value) in call.flags do
    if flag = 'e' then parts := parts ++ [value]
    if flag = 'f' then
      match ← readFile value with
      | .ok text => parts := parts ++ [(Text.dropEnd? "\n" text).getD text]
      | .error why => return .error ("couldn't open file " ++ value ++ ": " ++ why.message)
  return .ok parts

def usage (message : Option String) : Run Nat := do
  if let some text := message then complain ("sed: " ++ text)
  complain "Usage: sed [OPTION]... \x7bscript-only-if-no-other-script\x7d [input-file]..."
  return 1

def patience : Nat := 20000000

def edit (parts names : List String) : Run Nat := do
  let text := "\n".intercalate parts
  let extended := call.has 'E' || call.has 'r'
  match Reader.commands extended (text.length + 2) { rest := text.toList } with
  | .error message input =>
    complain ("sed: -e expression #1, char " ++ toString input.consumed ++ ": " ++ message)
    return 1
  | .ok commands _ =>
    let script := Script.ofCommands commands
    for path in script.targets do let _ ← writeFile path "" false
    let settings : Settings := { script, quiet := call.has 'n', inPlace := call.value? 'i' }
    let s : State :=
      { ranges := (commands.map fun command =>
          match command.first with
          | some (.line 0) => Range.active none
          | _ => Range.waiting).toArray
        names := orInput names }
    let work : Edit Nat := do
      if ← Edit.readLine settings false then Edit.run settings patience 0 else return (← get).code
    return (← work s).1

def sed : Utility := fun args => do
  match Invocation.read "nEre:f:i?" args with
  | .error message => usage (some message)
  | .ok call =>
    match ← givenParts call with
    | .error message =>
      complain ("sed: " ++ message)
      return 4
    | .ok parts =>
      if call.has 'e' ∨ call.has 'f' then return ← edit call parts call.operands
      let script :: names := call.operands | usage none
      edit call [script] names

end Sed

end ProgramAnalysis.Shell
