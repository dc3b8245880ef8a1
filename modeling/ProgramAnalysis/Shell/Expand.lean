import ProgramAnalysis.Shell.Arithmetic
import ProgramAnalysis.Shell.Jobs

/-!
Expanding words, and redirections.
-/

namespace ProgramAnalysis.Shell

open String (ofList)

/-! ### Parameters -/

variable (p : Process) (name : String)

def Process.parameter? : Option String :=
  match name with
  | "#" => some (toString p.arguments.length)
  | "?" => some (toString p.status)
  | "$" => some (toString p.number)
  | "!" => p.lastJob.map toString
  | "-" => some (ofList p.options)
  | _ =>
    if name.toList.all Char.isDigit then (p.zero :: p.arguments)[name.toNat?.getD 0]?
    else p.value? name

def Process.separators : Chars := ((p.value? "IFS").getD " \t\n").toList

def Process.joint : String := ofList (p.separators.take 1)

/-! ### Arithmetic -/

def evaluate (text : String) : Expression → Run Int
  | .number n => return n
  | .name s => variableValue s
  | .negate e => do return wrap (-(← evaluate text e))
  | .complement e => do return wrap (-(← evaluate text e) - 1)
  | .not e => do return if (← evaluate text e) = 0 then 1 else 0
  | .binary operator left right => do
    let a ← evaluate text left
    if operator = .both ∧ a = 0 then return 0
    else if operator = .either ∧ a ≠ 0 then return 1
    else apply operator a (← evaluate text right)
  | .choose condition yes no => do
    if (← evaluate text condition) ≠ 0 then evaluate text yes else evaluate text no
  | .assign s operator e => do
    let b ← evaluate text e
    let value ← match operator with
      | some operator => do apply operator (← variableValue s) b
      | none => pure b
    assign s (toString value)
    return value
where
  variableValue (s : String) : Run Int := do
    let some value := (← get).value? s | return 0
    let some n := integer? value | fail ("Illegal number: " ++ value)
    return n
  apply (operator : Operator) (a b : Int) : Run Int := do
    let some n := operator.apply a b
      | fail ("arithmetic expression: division by zero: \"" ++ text ++ "\"")
    return n

def evaluateText (text : String) : Run Int := do
  match Expression.ofText text with
  | .ok expression => evaluate text expression
  | .error cause => fail ("arithmetic expression: " ++ cause ++ ": \"" ++ text ++ "\"")

/-! ### Items -/

inductive Item where
  | glyph (glyph : Glyph) (splits : Bool)
  | boundary
  | mark

namespace Item

variable (quoted : Bool)

def ofValue (value : String) : List Item :=
  value.toList.map fun c => glyph ⟨c, quoted⟩ (!quoted)

def ofArguments (arguments : List String) : List Item :=
  (arguments.map fun argument =>
    (if quoted then [mark] else []) ++ ofValue quoted argument).intersperse [boundary] |>.flatten

def ofText (splits : Bool) (text : String) : List Item :=
  (if quoted then [mark] else []) ++ text.toList.map fun c => glyph ⟨c, quoted⟩ (splits && !quoted)

def glyphs (joint : String) : List Item → List Glyph
  | [] => []
  | glyph g _ :: rest => g :: glyphs joint rest
  | boundary :: rest => joint.toList.map (⟨·, true⟩) ++ glyphs joint rest
  | mark :: rest => glyphs joint rest

end Item

variable (glyphs : List Glyph)

def textOf : String := ofList (glyphs.map (·.char))

structure Fields where
  complete : List (List Glyph) := []
  current : Option (List Glyph) := none
  afterGap : Bool := false

namespace Fields

def finish (fields : Fields) : Fields :=
  match fields.current with
  | some glyphs => { complete := glyphs.reverse :: fields.complete }
  | none => { fields with afterGap := false }

def add (separators : Chars) (fields : Fields) : Item → Fields
  | .boundary => fields.finish
  | .mark => { fields with current := some (fields.current.getD []), afterGap := false }
  | .glyph g splits =>
    if splits ∧ separators.contains g.char then
      if isGap g.char then
        if fields.current.isSome then { fields.finish with afterGap := true } else fields
      else if fields.current.isNone ∧ fields.afterGap then { fields with afterGap := false }
      else { fields with current := some (fields.current.getD []) }.finish
    else { fields with current := some (g :: fields.current.getD []), afterGap := false }

end Fields

def splitItems (separators : Chars) (items : List Item) : List (List Glyph) :=
  (items.foldl (Fields.add separators) {}).finish.complete.reverse

/-! ### Words -/

variable (r : Runner)

def substitute (command : Command) : Run String := do
  let status := (← get).status
  let pipe ← openStream { channel := .pipe {}, readable := true, writable := true }
  let ending ← subshell r do
    setDescriptor 1 pipe
    modify ({ · with command := none })
    r { last := true } command
  setEnding ending
  modify fun p => { p with substituted := p.status, status }
  let written := match (← get).world.streams[pipe]? with
    | some { channel := .pipe pipe, .. } => pipe.content.filter (· ≠ Char.ofNat 0)
    | _ => []
  return ofList (written.reverse.dropWhile (· = '\n')).reverse

def failUnset (name : String) : Run α := fail (name ++ ": parameter not set")

variable (name : String)

def parameterValue : Run String := do
  let p ← get
  let some value := p.parameter? name
    | if p.options.contains 'u' then failUnset name else return ""
  return value

def isPresent (orEmpty : Bool) : Run Bool := do
  let p ← get
  if name = "@" ∨ name = "*" then
    return !p.arguments.isEmpty && !(orEmpty && p.arguments.all (· = ""))
  return (p.parameter? name).any fun value => !(orEmpty && value = "")

def wholeValue : Run String := do
  let p ← get
  if name = "@" ∨ name = "*" then return p.joint.intercalate p.arguments else parameterValue name

def parameterItems (quoted : Bool) : Run (List Item) := do
  let p ← get
  if name = "@" ∨ (name = "*" ∧ !quoted) then return Item.ofArguments quoted p.arguments
  else return Item.ofValue quoted (← wholeValue name)

/-! ### Home folders -/

inductive Tilde where
  | never
  | first
  | assigned
  | afterColon
  deriving DecidableEq

namespace Tilde

def later : Tilde → Tilde
  | never | first => never
  | assigned | afterColon => afterColon

def inner (tilde : Tilde) (quoted : Bool) : Tilde :=
  if quoted then never
  else match tilde with
    | assigned | afterColon => assigned
    | _ => first

end Tilde

def homeOf? : Option String :=
  if name = "" then p.value? "HOME" else none

def withTildes (homeOf? : String → Option String) (splits isLast : Bool) :
    Nat → Tilde → Chars → List Item
  | 0, _, chars => Item.ofText false splits (ofList chars)
  | fuel + 1, tilde, chars =>
    let isColon (c : Char) : Bool := c = ':' && tilde ≠ .first
    let text (chars : Chars) : List Item := Item.ofText false splits (ofList chars)
    let plain : List Item :=
      match tilde = .never || tilde = .first, chars.span (· ≠ ':') with
      | false, (before, colon :: rest) =>
        text (before ++ [colon]) ++ withTildes homeOf? splits isLast fuel .assigned rest
      | _, _ => text chars
    match chars with
    | '~' :: rest =>
      if tilde = .never ∨ tilde = .afterColon then plain
      else
        let (name, after) := rest.span fun c => c ≠ '/' && !isColon c
        if after.isEmpty ∧ !isLast then plain
        else
          match homeOf? (ofList name) with
          | none => plain
          | some home =>
            Item.ofValue true home ++ withTildes homeOf? splits isLast fuel tilde.later after
    | _ => plain

/-! ### Parts of words -/

mutual

def expandParts (r : Runner) (splits : Bool) (tilde : Tilde) : List Part → Run (List Item)
  | [] => return []
  | part :: rest => do
    let items ← expandPart r splits tilde rest.isEmpty part
    return items ++ (← expandParts r splits tilde.later rest)

def expandPart (r : Runner) (splits : Bool) (tilde : Tilde) (isLast : Bool) :
    Part → Run (List Item)
  | .text s quoted => do
    if quoted then return Item.ofText quoted splits s
    else return withTildes (homeOf? (← get)) splits isLast (s.length + 1) tilde s.toList
  | .parameter name form quoted => expandForm r tilde name quoted form
  | .substitution command quoted => do return Item.ofValue quoted (← substitute r command)
  | .arithmetic expression quoted => do
    let text := textOf (Item.glyphs " " (← expandParts r false .never expression))
    return Item.ofValue quoted (toString (← evaluateText text))

def expandForm (r : Runner) (tilde : Tilde) (name : String) (quoted : Bool) :
    Form → Run (List Item)
  | .value => parameterItems name quoted
  | .length => do return Item.ofValue quoted (toString (← wholeValue name).length)
  | .orElse orEmpty word => do
    if ← isPresent name orEmpty then parameterItems name quoted
    else expandParts r (!quoted) (tilde.inner quoted) word
  | .orAssign orEmpty word => do
    if ← isPresent name orEmpty then parameterItems name quoted
    else
      let p ← get
      let value := textOf (Item.glyphs p.joint (← expandParts r false (tilde.inner quoted) word))
      assign name value
      return Item.ofValue quoted value
  | .orComplain orEmpty word => do
    if ← isPresent name orEmpty then parameterItems name quoted
    else
      let p ← get
      let text := textOf (Item.glyphs p.joint (← expandParts r false (tilde.inner quoted) word))
      if !word.isEmpty then fail (name ++ ": " ++ text)
      else if orEmpty then fail (name ++ ": parameter not set or null")
      else failUnset name
  | .instead orEmpty word => do
    if ← isPresent name orEmpty then expandParts r (!quoted) (tilde.inner quoted) word
    else return []
  | .trimmed atEnd longest pattern => do
    let p ← get
    let value ← wholeValue name
    let glyphs := Item.glyphs p.joint (← expandParts r false .first pattern)
    return Item.ofValue quoted ((Pattern.ofGlyphs glyphs).trim atEnd longest value)
  | .malformed => fail "Bad substitution"

end

/-! ### Files that match -/

def splitPath : List Glyph → List (List Glyph)
  | [] => [[]]
  | glyph :: rest =>
    match splitPath rest with
    | [] => [[glyph]]
    | first :: others =>
      if glyph.char = '/' then [] :: first :: others else (glyph :: first) :: others

def matchingPaths (p : Process) (before : String) : List (List Glyph) → List String
  | [] => []
  | piece :: rest =>
    let pattern := Pattern.ofGlyphs piece
    let found : List String :=
      if pattern.isPlain then [textOf piece]
      else
        let loc? := (p.locate (if before = "" then "." else before)).toOption
        (loc?.filter (p.world.tree.kind? · = some .folder)).elim [] fun loc =>
          let startsWithDot := piece.head?.map (·.char) = some '.'
          let names := (p.world.tree.names loc).map ofText
          let names := if startsWithDot then "." :: ".." :: names else names
          names.filter fun name =>
            (startsWithDot || name.toList.head? ≠ some '.') && pattern.isMatch name.toList
    found.flatMap fun name =>
      let path := before ++ name
      match rest with
      | [] =>
        let known := (p.locateBy false path).toOption.bind p.world.tree.number?
        if path = "" ∨ known.isNone then [] else [path]
      | _ :: _ => matchingPaths p (path ++ "/") rest

def matchFiles : List String :=
  if p.options.contains 'f' ∨ (Pattern.ofGlyphs glyphs).isPlain then [textOf glyphs]
  else
    match matchingPaths p "" (splitPath glyphs) with
    | [] => [textOf glyphs]
    | paths => paths.mergeSort fun a b => (compare a b).isLE

variable (word : Word)

def expandFields : Run (List String) := do
  let items ← expandParts r false .first word
  let p ← get
  return (splitItems p.separators items).flatMap (matchFiles p)

variable (tilde : Tilde)

def expandGlyphs (word : Word) : Run (List Glyph) := do
  let items ← expandParts r false tilde word
  return Item.glyphs (← get).joint items

def expandWhole (word : Word) : Run String := do
  return textOf (← expandGlyphs r tilde word)

def openFile (kind : RedirectKind) (path : String) : Run (Except Refusal Stream) := do
  let p ← get
  let reads := kind = .input ∨ kind = .both
  let writes := kind ≠ .input
  match p.locate path with
  | .error why => return .error why
  | .ok loc =>
    let standard (descriptor : Nat) : Except Refusal Stream :=
      (p.stream? descriptor).elim (.error .missing) .ok
    let opened : Run (Except Refusal Stream) := do
      let some number := (← get).world.tree.number? loc | return .error .missing
      return .ok { channel := .node number, readable := reads, writable := writes,
                   appends := kind = .append }
    match loc with
    | ["dev", "stdin"] => return standard 0
    | ["dev", "stdout"] => return standard 1
    | ["dev", "stderr"] => return standard 2
    | _ =>
      match p.world.tree.kind? loc with
      | some .folder => if writes then return .error .isFolder else opened
      | some (.file _) =>
        if kind = .output ∨ kind = .replace then setContent loc ""
        opened
      | some .device => return .ok { channel := .nowhere, readable := reads, writable := writes }
      | some _ => opened
      | none =>
        if kind = .input then return .error .missing
        setContent loc ""
        opened

def redirect (clobbers : Bool) : Redirect → Run Bool
  | .document descriptor body => fun p =>
    match expandWhole r .never body p with
    | .ok text after =>
      (do
        let stream ←
          openStream { channel := .pipe (.ofText text), readable := true, writable := false }
        setDescriptor descriptor stream
        return true : Run Bool) after
    | .error .failed after => .ok false after
    | .error ending after => .error ending after
  | .duplicate descriptor target => do
    let text ← expandWhole r .first target
    match text.toList with
    | ['-'] =>
      closeDescriptor descriptor
      return true
    | [digit] =>
      if !digit.isDigit then fail "Syntax error: Bad fd number"
      let some stream := (← get).descriptors.get? (digit.toNat - '0'.toNat)
        | warn (text ++ ": " ++ Refusal.closed.message)
          return false
      setDescriptor descriptor stream
      return true
    | _ => fail "Syntax error: Bad fd number"
  | .file descriptor kind target => do
    let path ← expandWhole r .first target
    let p ← get
    let isProtected := kind = .output && !clobbers &&
      (p.find? path).any fun node => node.kind matches .file _
    let opened ← if isProtected then pure (.error .taken) else openFile kind path
    match opened with
    | .ok stream =>
      setDescriptor descriptor (← openStream stream)
      return true
    | .error why =>
      let (verb, missing) := if kind = .input then ("open", "No such file")
        else ("create", "Directory nonexistent")
      let reason := if why = .missing ∨ why = .notFolder then missing else why.message
      warn ("cannot " ++ verb ++ " " ++ path ++ ": " ++ reason)
      return false

def redirectAll (r : Runner) : List Redirect → Run Bool
  | [] => return true
  | first :: rest => do
    if ← redirect r (!(← hasOption 'C')) first then redirectAll r rest else return false

def keepingDescriptors (run : Run α) : Run α := do
  let saved := (← get).descriptors
  ensuring run (modify ({ · with descriptors := saved }))

end ProgramAnalysis.Shell
