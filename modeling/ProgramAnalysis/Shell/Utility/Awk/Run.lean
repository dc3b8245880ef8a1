import ProgramAnalysis.Shell.Expand
import ProgramAnalysis.Shell.Utility
import ProgramAnalysis.Shell.Utility.Awk.Parse

/-!
Running programs for processing records: the rules for the start, for each record, and for the end.
-/

namespace ProgramAnalysis.Shell

open String (ofList)

namespace Awk

inductive Value where
  | blank
  | number (x : Float)
  | text (s : String)
  | input (s : String)

/-! ### Numbers -/

def looksLike? (s : String) : Option Float := do
  let (x, rest) ← Floating.read? s.toList
  if rest.all isSpace then some x else none

def wholeOf (x : Float) : Int := (Floating.toInt? (Floating.truncate x)).getD 0

def Value.toNumber : Value → Float
  | blank => 0.0
  | number x => x
  | text s | input s => ((Floating.read? s.toList).map (·.1)).getD 0.0

/-! ### Formats -/

def extent (cs : Chars) (args : List Value) : Int × Chars × List Value :=
  match cs with
  | '*' :: rest => (wholeOf (args.headD .blank).toNumber, rest, args.tail)
  | _ =>
    let (digits, rest) := cs.span Char.isDigit
    (digitsValue 10 digits, rest, args)

def converted (layout : Layout) (textOf : Value → String) (letter : Char) (value : Value) :
    String :=
  match letter with
  | 's' => layout.fill (layout.cut (textOf value).toList)
  | 'c' =>
    layout.fill (match value with
      | .number x => String.singleton (Char.ofNat (wholeOf x % 256).toNat)
      | value => ofList ((textOf value).toList.take 1))
  | 'd' | 'i' => layout.decimal (wholeOf value.toNumber)
  | 'u' | 'o' | 'x' | 'X' => layout.natural letter (wholeOf value.toNumber).toNat
  | _ => layout.real letter value.toNumber

def formatFrom (textOf : Value → String) : Nat → Chars → List Value → Chars
  | 0, _, _ | _, [], _ => []
  | fuel + 1, '%' :: '%' :: rest, args => '%' :: formatFrom textOf fuel rest args
  | fuel + 1, '%' :: cs, args =>
    let (layout, cs) := Formatter.flags {} cs
    let (width, cs, args) := extent cs args
    let layout := { layout with width := width.natAbs, left := layout.left || width < 0 }
    let (layout, cs, args) := match cs with
      | '.' :: cs =>
        let (size, cs, args) := extent cs args
        ({ layout with precision := some size.toNat }, cs, args)
      | cs => (layout, cs, args)
    (converted layout textOf (cs.headD 's') (args.headD .blank)).toList
      ++ formatFrom textOf fuel cs.tail args.tail
  | fuel + 1, c :: rest, args => c :: formatFrom textOf fuel rest args

/-! ### Texts -/

variable (format : String)

def numberText (x : Float) : String :=
  match (Floating.toInt? x).filter (·.natAbs ≤ 2147483647) with
  | some n => toString n
  | none => ofList (formatFrom (fun _ => "") (format.length + 1) format.toList [.number x])

def Value.toText : Value → String
  | blank => ""
  | number x => numberText format x
  | text s | input s => s

def formatted (convert format : String) (args : List Value) : String :=
  ofList (formatFrom (Value.toText convert) (format.length + 1) format.toList args)

/-! ### Comparing -/

def Value.comparable? : Value → Option Float
  | blank => some 0.0
  | number x => some x
  | text _ => none
  | input s => looksLike? s

def Value.isTrue (value : Value) : Bool :=
  match value.comparable? with
  | some x => x != 0.0
  | none => value.toText "" ≠ ""

def compared (sign format : String) (a b : Value) : Bool :=
  let (less, equal, greater) : Bool × Bool × Bool := match a.comparable?, b.comparable? with
    | some x, some y => (x < y, x == y, y < x)
    | _, _ =>
      let (x, y) := (a.toText format, b.toText format)
      (x < y, x = y, y < x)
  match sign with
  | "<" => less
  | "<=" => less || equal
  | "==" => equal
  | "!=" => !equal
  | ">" => greater
  | _ => greater || equal

def calculated (sign : String) (a b : Float) : Float :=
  match sign.front with
  | '+' => a + b
  | '-' => a - b
  | '*' => a * b
  | '/' => a / b
  | '%' => Floating.remainder a b
  | _ => Float.pow a b

/-! ### Arrays -/

def hashOf (s : String) : Nat :=
  let chars := s.toList
  let size := chars.length
  let counted := if size ≤ 10 then chars
    else ((chars.take 5).zip (chars.drop (size - 5))).flatMap fun (front, back) => [front, back]
  (counted.foldl (fun (sum, hash) c =>
    let sum := (2 * sum + c.toNat) % 4294967296
    (sum, (hash + sum) % 4294967296)) (size, size)).2

/-- An array. Its indices are kept with the newest first, and visited by a part of their hash. -/
structure Store where
  values : Std.HashMap String Value := {}
  keys : List String := []

namespace Store

variable (store : Store) (key : String)

def get : Value := store.values.getD key .blank

def set (value : Value) : Store :=
  { values := store.values.insert key value,
    keys := if store.values.contains key then store.keys else key :: store.keys }

def erase : Store :=
  { values := store.values.erase key, keys := store.keys.erase key }

def ofPairs (pairs : List (String × Value)) : Store :=
  pairs.foldl (fun store (key, value) => store.set key value) {}

def ofValues (start : Nat) (items : List String) : Store :=
  ofPairs ((items.zipIdx start).map fun (item, n) => (toString n, .input item))

def indices : List String :=
  store.keys.mergeSort fun a b => hashOf a % 64 ≤ hashOf b % 64

end Store

/-! ### State -/

inductive Slot where
  | unset
  | scalar (value : Value)
  | array (number : Nat)

inductive Separator where
  | blanks
  | nothing
  | char (c : Char)
  | regex (regex : Regex)

structure Machine where
  process : Process
  functions : List (String × Function) := []
  globals : Std.HashMap String Slot := {}
  frame : List (String × Slot) := []
  arrays : Array Store := #[]
  record : Value := .blank
  fields : Array Value := #[]
  separator : Separator := .blanks
  operands : List String := []
  feed : Option Feed := none
  sawFile : Bool := false
  pending : List String := []
  size : Nat := 0
  active : List Nat := []
  code : Nat := 0

inductive Stop where
  | jumped (word : String)
  | given (value : Value)
  | failed
  | ended (ending : Ending)

abbrev Act (α : Type) := EStateM Stop Machine α

def lift (run : Run α) : Act α := fun m =>
  match run m.process with
  | .ok a p => .ok a { m with process := p }
  | .error ending p => .error (.ended ending) { m with process := p }

def attempt (body : Act α) (handle : Stop → Option α) : Act α := fun m =>
  match body m with
  | .ok a m => .ok a m
  | .error stop m =>
    match handle stop with
    | some a => .ok a m
    | none => .error stop m

namespace Machine

/-! ### Variables -/

def slot (m : Machine) (name : String) : Slot :=
  (m.frame.lookup name).getD (m.globals.getD name .unset)

def setSlot (m : Machine) (name : String) (slot : Slot) : Machine :=
  if m.frame.any (·.1 = name) then
    { m with frame := m.frame.map fun known => if known.1 = name then (name, slot) else known }
  else { m with globals := m.globals.insert name slot }

def value (m : Machine) (name : String) : Value :=
  match m.slot name with
  | .scalar value => value
  | _ => .blank

def setValue (m : Machine) (name : String) (value : Value) : Machine :=
  m.setSlot name (.scalar value)

def convert (m : Machine) : String := (m.value "CONVFMT").toText ""

def textOf (m : Machine) (value : Value) : String := value.toText m.convert

def text (m : Machine) (name : String) : String := m.textOf (m.value name)

/-! ### Fields -/

def separatorOf (s : String) : Separator :=
  match s.toList with
  | [' '] => .blanks
  | [] => .nothing
  | [c] => .char c
  | _ => .regex ((Reader.regexOf? s).getD default)

def between (subject : Subject) (start : Nat) : List Regex.Match → List String
  | [] => [ofList (subject.slice start subject.text.size)]
  | found :: rest =>
    ofList (subject.slice start found.start) :: between subject found.stop rest

def pieces (separator : Separator) (text : String) : List String :=
  if text = "" then []
  else
    match separator with
    | .blanks => (wordsBy text isGap).map ofList
    | .nothing => text.toList.map String.singleton
    | .char c => Text.splitAt c text
    | .regex regex =>
      let subject := Subject.ofBytes text.toList
      between subject 0 ((regex.allMatches subject).filter fun found => found.start < found.stop)

def setRecord (m : Machine) (value : Value) : Machine :=
  let fields := ((pieces m.separator (m.textOf value)).map Value.input).toArray
  { m with record := value, fields }

def rebuilt (m : Machine) : Machine :=
  let fields := m.fields.toList.map m.textOf
  { m with record := .input ((m.text "OFS").intercalate fields) }

def field (m : Machine) (number : Nat) : Value :=
  if number = 0 then m.record else m.fields.getD (number - 1) .blank

def withFields (m : Machine) (count : Nat) : Machine :=
  { m with fields := ((m.fields.toList.take count).rightpad count .blank).toArray }

def setField (m : Machine) (number : Nat) (value : Value) : Machine :=
  if number = 0 then m.setRecord value
  else
    let m := if m.fields.size < number then m.withFields number else m
    { m with fields := m.fields.set! (number - 1) value }.rebuilt

end Machine

/-! ### Variables -/

def refuse (message : String) : Act α := do
  let _ ← lift (write 2 ("awk: " ++ message ++ "\n"))
  throw .failed

def assignName (name : String) (value : Value) : Act Unit :=
  modify fun m =>
    let assigned := m.setValue name value
    match name with
    | "NF" => (assigned.withFields (wholeOf value.toNumber).toNat).rebuilt
    | "FS" => { assigned with separator := Machine.separatorOf (m.textOf value) }
    | _ => assigned

def valueOf (name : String) : Act Value := do
  let m ← get
  if name = "NF" then return .number (Float.ofNat m.fields.size)
  return m.value name

def arrayOf (name : String) : Act Nat := do
  let m ← get
  match m.slot name with
  | .array number => return number
  | _ =>
    let number := m.arrays.size
    set { m.setSlot name (.array number) with arrays := m.arrays.push {} }
    return number

def changeArray (number : Nat) (f : Store → Store) : Act Unit :=
  modify fun m => { m with arrays := m.arrays.modify number f }

/-! ### Output -/

def flushOutput : Act Unit := do
  let m ← get
  set { m with pending := [], size := 0 }
  lift (emit (String.join m.pending.reverse))

def put (text : String) : Act Unit := do
  modify fun m => { m with pending := text :: m.pending, size := m.size + text.length }
  if (← get).size > 4096 then flushOutput

/-! ### Records -/

def takeRecord (feed : Feed) : Act (Option (String × Feed)) := do
  let last := ((← get).text "RS").toList.headD '\n'
  let (line, rest) := feed.rest.span (· ≠ last)
  if rest.isEmpty then
    if feed.isLive then
      flushOutput
      lift feed.exhaust
    if line.isEmpty then return none
  return some (ofList line, { feed with rest := rest.tail })

def openInput (name : String) : Act Feed := do
  match ← lift (Feed.start name) with
  | .ok feed => return feed
  | .error .closed => return { rest := [] }
  | .error why => refuse ("cannot open \"" ++ name ++ "\" (" ++ why.message ++ ")")

def assignment? (argument : String) : Option (String × String) := do
  let (name, value) ← Text.cutAt? '=' argument
  if isName name then some (name, ofList (Scan.unescape (value.length + 1) value.toList)) else none

def nextFile : List String → Act Bool
  | [] => do if (← get).sawFile then return false else start "-"
  | operand :: rest => do
    match assignment? operand with
    | some (name, value) =>
      assignName name (.input value)
      nextFile rest
    | none =>
      modify ({ · with operands := rest })
      if operand = "" then nextFile rest else start operand
where
  start (name : String) : Act Bool := do
    let feed ← openInput name
    modify fun m =>
      let m := { m with feed := some feed, sawFile := true }
      (m.setValue "FILENAME" (.input name)).setValue "FNR" (.number 0.0)
    return true

def countUp (name : String) : Act Unit :=
  modify fun m => m.setValue name (.number ((m.value name).toNumber + 1.0))

def takeMain : Nat → Act (Option String)
  | 0 => return none
  | fuel + 1 => do
    let m ← get
    match m.feed with
    | some feed =>
      match ← takeRecord feed with
      | some (record, feed) =>
        modify ({ · with feed := some feed })
        countUp "NR"
        countUp "FNR"
        return some record
      | none =>
        modify ({ · with feed := none })
        takeMain fuel
    | none => if ← nextFile m.operands then takeMain fuel else return none

def mostFiles : Nat := 1000000

inductive Place where
  | name (s : String)
  | element (array : Nat) (key : String)
  | field (number : Nat)

namespace Place

def read : Place → Act Value
  | name s => valueOf s
  | element array key => do
    let value := ((← get).arrays.getD array {}).get key
    changeArray array (·.set key value)
    return value
  | field number => do return (← get).field number

def write (value : Value) : Place → Act Unit
  | name s => assignName s value
  | element array key => changeArray array (·.set key value)
  | field number => modify fun m => m.setField number value

end Place

/-! ### Functions on values -/

def truth (b : Bool) : Value := .number (if b then 1.0 else 0.0)

def count (n : Nat) : Value := .number (Float.ofNat n)

def indexOf (part : Chars) : Nat → Chars → Nat
  | place, [] => if part.isEmpty then place else 0
  | place, c :: rest => if part.isPrefixOf (c :: rest) then place else indexOf part (place + 1) rest

def partOf (text : String) (start : Int) (length : Option Int) : String :=
  let length := length.map fun length => if start < 0 then length - start else length
  let rest := text.toList.drop (start - 1).toNat
  ofList (rest.take (length.elim rest.length Int.toNat))

def replacement (found : Chars) : Chars → Chars
  | '\\' :: '&' :: rest => '&' :: replacement found rest
  | '&' :: rest => found ++ replacement found rest
  | c :: rest => c :: replacement found rest
  | [] => []

def replaced (subject : Subject) (inserted : Chars) (start : Nat) : List Regex.Match → Chars
  | [] => subject.slice start subject.text.size
  | found :: rest =>
    subject.slice start found.start
      ++ replacement (subject.slice found.start found.stop) inserted
      ++ replaced subject inserted found.stop rest

variable (body : Act Unit)

def turn : Act Bool :=
  attempt (do body; return true) fun
    | .jumped "continue" => some true
    | .jumped "break" => some false
    | _ => none

def looping (body : Act Bool) : Nat → Act Unit
  | 0 => return
  | fuel + 1 => do if ← body then looping body fuel

def mostTurns : Nat := 1000000000000

def applyBuiltin (m : Machine) (name : String) (args : List Value) : Value :=
  let text (n : Nat) : String := m.textOf (args.getD n .blank)
  let number (n : Nat) : Float := (args.getD n .blank).toNumber
  match name with
  | "index" => count (indexOf (text 1).toList 1 (text 0).toList)
  | "substr" =>
    let length := if args.length < 3 then none else some (wholeOf (number 2))
    .text (partOf (text 0) (wholeOf (number 1)) length)
  | "tolower" => .text (text 0).toLower
  | "toupper" => .text (text 0).toUpper
  | "sprintf" => .text (formatted m.convert (text 0) args.tail)
  | "int" => .number (Floating.truncate (number 0))
  | _ => .blank

/-! ### Expressions and statements -/

mutual

def evaluate : Nat → Expr → Act Value
  | 0, _ => refuse "run time error: function call nesting is too deep"
  | fuel + 1, expr => do
    let number (e : Expr) : Act Float := do return (← evaluate fuel e).toNumber
    let holds (e : Expr) : Act Bool := do return (← evaluate fuel e).isTrue
    let update (target : Expr) (f : Float → Float) : Act (Float × Float) := do
      let place ← placeOf fuel target
      let old := (← place.read).toNumber
      place.write (.number (f old))
      return (old, f old)
    match expr with
    | .number x => return .number x
    | .text s => return .text s
    | .pattern regex =>
      return truth (regex.isIn (Subject.ofBytes (← textFor fuel .record).toList))
    | .name _ | .element .. | .field _ => (← placeOf fuel expr).read
    | .update "=" target e =>
      let place ← placeOf fuel target
      let value ← evaluate fuel e
      place.write value
      return value
    | .update sign target e =>
      let change ← number e
      return .number (← update target (calculated sign · change)).2
    | .step target change givesOld =>
      let (old, changed) ← update target (· + change)
      return .number (if givesOld then old else changed)
    | .choose condition yes no => evaluate fuel (if ← holds condition then yes else no)
    | .negate a => return truth !(← holds a)
    | .minus a => return .number (-(← number a))
    | .binary "&&" a b => return truth (← holds a <&&> holds b)
    | .binary "||" a b => return truth (← holds a <||> holds b)
    | .binary "" a b =>
      let x ← textFor fuel a
      return .text (x ++ (← textFor fuel b))
    | .binary sign a b =>
      if sign = "~" ∨ sign = "!~" then
        let subject ← textFor fuel a
        let regex ← regexFor fuel b
        return truth (regex.isIn (Subject.ofBytes subject.toList) != (sign = "!~"))
      let x ← evaluate fuel a
      let y ← evaluate fuel b
      if "<=>!".toList.contains sign.front then return truth (compared sign (← get).convert x y)
      return .number (calculated sign x.toNumber y.toNumber)
    | .isIn indices name =>
      let key ← keyFor fuel indices
      let array ← arrayOf name
      return truth (((← get).arrays.getD array {}).values.contains key)
    | .call name args =>
      match (← get).functions.lookup name with
      | some function => callFunction fuel function args
      | none => callBuiltin fuel name args
    | .read target =>
      let some record ← takeMain mostFiles | return .number 0.0
      (← placeOf fuel (target.getD .record)).write (.input record)
      return .number 1.0
    | .group items => return .text (← keyFor fuel items)

def textFor : Nat → Expr → Act String
  | 0, _ => return ""
  | fuel + 1, e => do
    let value ← evaluate fuel e
    return (← get).textOf value

def placeOf : Nat → Expr → Act Place
  | 0, _ => return .name ""
  | fuel + 1, expr => do
    match expr with
    | .name s => return .name s
    | .element name indices =>
      let key ← keyFor fuel indices
      return .element (← arrayOf name) key
    | .field index =>
      let number := wholeOf (← evaluate fuel index).toNumber
      if number < 0 then refuse ("run time error: negative field index $" ++ toString number)
      return .field number.toNat
    | _ => return .name ""

def keyFor : Nat → List Expr → Act String
  | 0, _ => return ""
  | fuel + 1, indices => do
    let texts ← indices.mapM (textFor fuel)
    return ((← get).text "SUBSEP").intercalate texts

def regexFor : Nat → Expr → Act Regex
  | 0, _ => return default
  | _, .pattern regex => return regex
  | fuel + 1, e => do
    let some regex := Reader.regexOf? (← textFor fuel e)
      | refuse "run time error: regular expression compile failed"
    return regex

def callFunction : Nat → Function → List Expr → Act Value
  | 0, _, _ => return .blank
  | fuel + 1, function, args => do
    let slots ← args.mapM fun arg => do return Slot.scalar (← evaluate fuel arg)
    let outer := (← get).frame
    let frame := function.params.zip (slots.rightpad function.params.length .unset)
    modify ({ · with frame })
    let value ← attempt (do execute fuel function.body; return .blank) fun
      | .given value => some value
      | _ => none
    modify ({ · with frame := outer })
    return value

def callBuiltin : Nat → String → List Expr → Act Value
  | 0, _, _ => return .blank
  | fuel + 1, name, args => do
    match name, args with
    | "length", _ => return count (← textFor fuel (args.headD .record)).length
    | "split", subject :: .name array :: rest =>
      let subject ← textFor fuel subject
      let separator ← match rest with
        | [] => do pure (← get).separator
        | .pattern regex :: _ => pure (.regex regex)
        | e :: _ => do pure (Machine.separatorOf (← textFor fuel e))
      let number ← arrayOf array
      let items := Machine.pieces separator subject
      changeArray number fun _ => Store.ofValues 1 items
      return count items.length
    | _, _ =>
      if name = "sub" ∨ name = "gsub" then
        let regex ← regexFor fuel (args.getD 0 default)
        let inserted ← textFor fuel (args.getD 1 default)
        let place ← placeOf fuel (args.getD 2 .record)
        let value ← place.read
        let subject := Subject.ofBytes ((← get).textOf value).toList
        let found := if name = "sub" then (regex.find? subject 0).toList
          else regex.allMatches subject
        if !found.isEmpty then
          place.write (.text (ofList (replaced subject inserted.toList 0 found)))
        return count found.length
      else
        let values ← args.mapM (evaluate fuel)
        return applyBuiltin (← get) name values

def execute : Nat → Statement → Act Unit
  | 0, _ => refuse "run time error: function call nesting is too deep"
  | fuel + 1, statement => do
    let holds (e : Expr) : Act Bool := do return (← evaluate fuel e).isTrue
    match statement with
    | .evaluate e => let _ ← evaluate fuel e
    | .print isFormatted items =>
      let values ← (if items.isEmpty then [.record] else items).mapM (evaluate fuel)
      let m ← get
      let line := (m.text "OFS").intercalate (values.map (·.toText (m.text "OFMT")))
      put (if isFormatted then
          formatted m.convert (m.textOf (values.headD .blank)) values.tail
        else line ++ m.text "ORS")
    | .branch condition yes no => execute fuel (if ← holds condition then yes else no)
    | .loop condition step body =>
      looping (do
        if !(← holds condition) then return false
        if !(← turn (execute fuel body)) then return false
        execute fuel step
        return true) mostTurns
    | .loopIn name array body =>
      let number ← arrayOf array
      for index in ((← get).arrays.getD number {}).indices do
        assignName name (.text index)
        if !(← turn (execute fuel body)) then break
    | .block statements => statements.forM (execute fuel)
    | .jump word => throw (.jumped word)
    | .exit code =>
      if let some code := code then
        let code := wholeOf (← evaluate fuel code).toNumber
        modify ({ · with code := (code % 256).toNat })
      throw (.jumped "exit")
    | .give value => throw (.given (← evaluate fuel value))
    | .forget name indices =>
      let key ← keyFor fuel indices
      let number ← arrayOf name
      changeArray number fun store => if indices.isEmpty then {} else store.erase key

end

/-! ### Rules -/

def mostNesting : Nat := 100000

def perform (statement : Statement) : Act Unit := do
  modify ({ · with frame := [] })
  execute mostNesting statement

def applies (number : Nat) (rule : Rule) : Act Bool := do
  let holds (e : Option Expr) : Act Bool := do
    return (← evaluate mostNesting (e.getD (.number 1.0))).isTrue
  let isActive := (← get).active.contains number
  let isUsed ← pure isActive <||> holds rule.first
  if isUsed then
    let isOver ← holds rule.last
    modify fun m => { m with
      active := if isOver then m.active.filter (· ≠ number)
        else if isActive then m.active else number :: m.active }
  return isUsed

variable (rules : List Rule)

def useRules : Act Unit :=
  rules.zipIdx.forM fun (rule, number) => do if ← applies number rule then perform rule.action

def useRulesOnAll : Act Unit :=
  looping (do
    let some record ← takeMain mostFiles | return false
    modify fun m => m.setRecord (.input record)
    attempt (do useRules rules; return true) fun
      | .jumped "next" => some true
      | _ => none) mostTurns

def catchExit : Act Bool :=
  attempt (do body; return true) fun
    | .jumped "exit" => some false
    | _ => none

def Program.run (program : Program) : Act Unit := do
  let goesOn ← catchExit (program.starts.forM perform)
  if !(program.rules.isEmpty && program.finishes.isEmpty) then
    if goesOn then let _ ← catchExit (useRulesOnAll program.rules)
    let _ ← catchExit (program.finishes.forM perform)

def toTheEnd : Act Nat := do
  let code ← attempt (do body; return (← get).code) fun
    | .failed => some 2
    | _ => none
  flushOutput
  return code

/-! ### Arguments -/

def firstValues : List (String × Value) :=
  [("CONVFMT", .text "%.6g"), ("FNR", .number 0.0), ("FS", .text " "), ("NR", .number 0.0),
    ("OFMT", .text "%.6g"), ("OFS", .text " "), ("ORS", .text "\n"),
    ("RS", .text "\n"), ("SUBSEP", .text "\x1c")]

def firstMachine (p : Process) (operands : List String) (program : Program) : Machine :=
  let arguments := Store.ofValues 0 ("awk" :: operands)
  let environment := Store.ofPairs (p.environment.map fun (name, value) => (name, .input value))
  let m : Machine :=
    { process := p, operands, functions := program.functions, arrays := #[arguments, environment] }
  let m := firstValues.foldl (fun m (name, value) => m.setValue name value) m
  let m := m.setValue "ARGC" (.number (Float.ofNat (operands.length + 1)))
  (m.setSlot "ARGV" (.array 0)).setSlot "ENVIRON" (.array 1)

def runWith (call : Invocation) (program : Program) : Act Unit := do
  for (letter, value) in call.flags do
    if let some (name, value) := assignment? (if letter = 'F' then "FS=" ++ value else value) then
      assignName name (.input value)
  program.run

def awk : Utility := fun args => do
  let .ok call := Invocation.read "+F:v:" args
    | Shell.refuse "awk" ("not an option: " ++ args.headD "") 2
  let operands := call.operands.tail
  let some program := Program.ofText? (call.operands.headD "")
    | Shell.refuse "awk" "line 1: syntax error" 2
  match toTheEnd (runWith call program) (firstMachine (← get) operands program) with
  | .ok code m =>
    set m.process
    return code
  | .error stop m =>
    set m.process
    match stop with
    | .ended ending => throw ending
    | _ => return 2

end Awk

end ProgramAnalysis.Shell
