import ProgramAnalysis.Shell.Format
import ProgramAnalysis.Shell.Utility

/-!
The programs that make, change, list and remove files and folders.
-/

namespace ProgramAnalysis.Shell

open String (ofList)

namespace Files

variable (path : String)

def withoutSlashes : String :=
  let kept := (path.toList.reverse.dropWhile (· = '/')).reverse
  if kept.isEmpty then path else ofList kept

def lastName : String := (Text.splitAt '/' (withoutSlashes path)).getLastD ""

def inside (folder name : String) : String :=
  if folder.toList.getLast? = some '/' then folder ++ name else folder ++ "/" ++ name

def found (follows : Bool) : Run (Except Refusal Location) := do
  let p ← get
  return do
    let loc ← p.locateBy follows path
    if (p.world.tree.number? loc).isNone then throw .missing
    return loc

/-! ### Making folders -/

def makeAt (kind : Kind) (mode : Nat) : Run (Except Refusal Unit) := do
  let p ← get
  match p.locateBy false (withoutSlashes path) with
  | .error why => return .error why
  | .ok loc =>
    if (p.world.tree.number? loc).isSome then return .error .taken
    else
      makeNode loc kind mode
      return .ok ()

def pathsTo : List String :=
  let pieces := Text.splitAt '/' (withoutSlashes path)
  ((List.range pieces.length).map fun count => "/".intercalate (pieces.take (count + 1))).filter
    (· ≠ "")

def uncreated (why : Refusal) : Run Nat :=
  fault "mkdir" ("cannot create directory " ++ quoted path ++ ": " ++ why.message)

def makeMissing : List String → Run Nat
  | [] => return 0
  | path :: rest => do
    if (← get).hasFolder path then return ← makeMissing rest
    match ← makeAt path .folder 0o777 with
    | .ok _ => makeMissing rest
    | .error why => uncreated path (if why = .taken ∧ !rest.isEmpty then .notFolder else why)

def mkdir : Utility := withOperands "mkdir" "p" fun call path => do
  if call.has 'p' ∧ path ≠ "" then return ← makeMissing (pathsTo path)
  match ← makeAt path .folder 0o777 with
  | .ok _ => return 0
  | .error why => uncreated path why

def removeFolder : Run Nat := do
  let complainAbout (why : Refusal) : Run Nat :=
    fault "rmdir" ("failed to remove " ++ why.on path)
  match ← found (withoutSlashes path) false with
  | .error why => complainAbout why
  | .ok loc =>
    let tree := (← get).world.tree
    if tree.kind? loc ≠ some .folder then complainAbout .notFolder
    else if lastName path = "." then complainAbout .invalid
    else if (tree.names loc).isEmpty then
      changeTree (·.erase loc)
      return 0
    else complainAbout .notEmpty

def rmdir : Utility := withOperands "rmdir" "p" fun call path => do
  for one in if call.has 'p' then (pathsTo path).reverse else [path] do
    if (← removeFolder one) ≠ 0 then return 1
  return 0

/-! ### Removing -/

def pathBelow (inner : Location) : String :=
  inner.foldl (fun path name => inside path (ofText name)) path

def removeBelow : Nat → Location → Run Unit
  | 0, _ => return
  | fuel + 1, loc => do
    for name in (← get).world.tree.names loc do removeBelow fuel (loc ++ [name])
    changeTree (·.erase loc)

def removeOne (call : Invocation) (path : String) : Run Nat := do
  let cannot (why : Refusal) : Run Nat := fault "rm" ("cannot remove " ++ why.on path)
  match ← found (withoutSlashes path) false with
  | .error why =>
    if call.has 'f' ∧ (why = .missing ∨ why = .notFolder) then return 0 else cannot why
  | .ok loc =>
    let tree := (← get).world.tree
    let isFolder := tree.kind? loc = some .folder
    let deletes := call.has 'r' || call.has 'R'
    if isFolder ∧ deletes ∧ lastName path ∈ [".", ".."] then
      fault "rm" ("refusing to remove '.' or '..' directory: skipping " ++ inQuotes path)
    else if isFolder ∧ !deletes ∧ !call.has 'd' then cannot .isFolder
    else if isFolder ∧ !deletes ∧ !(tree.names loc).isEmpty then cannot .notEmpty
    else
      removeBelow ((tree.below loc).length + 1) loc
      return 0

def rm : Utility := withOptions "rm" "rRfd" 1 fun call => do forEach (removeOne call) call.operands

def mkfifo : Utility := withOperands "mkfifo" "" fun _ path => do
  match ← makeAt path (.queue []) 0o666 with
  | .ok _ => return 0
  | .error why => fault "mkfifo" ("cannot create fifo " ++ why.on path)

end Files

namespace Paths

/-! ### Names -/

def baseName (path : String) : String :=
  ((Text.splitAt '/' path).filter (· ≠ "")).getLastD (if path = "" then "" else "/")

def folderName (path : String) : String :=
  let chars := path.toList.reverse.dropWhile (· = '/')
  let above := (chars.dropWhile (· ≠ '/')).dropWhile (· = '/')
  if !above.isEmpty then ofList above.reverse
  else if Path.isAbsolute path then "/"
  else "."

def basename : Utility := withLongOptions "basename" "+as:" [("suffix", 's')] 1 fun call => do
  let many := call.has 'a' || call.has 's'
  if !many then atMost 2 "basename" call
  let suffix := (if many then call.value? 's' else call.operands[1]?).getD ""
  for path in if many then call.operands else call.operands.take 1 do
    let name := baseName path
    let front := (Text.dropEnd? suffix name).getD ""
    emit ((if front = "" then name else front) ++ "\n")
  return 0

def dirname : Utility := withOperands "dirname" "" fun _ path =>
  tell (folderName path ++ "\n")

/-! ### Places -/

def canonical (exists? : Bool) (path : String) : Run (Except Refusal Location) := do
  let p ← get
  return do
    let loc ← p.locate (if exists? then path else Files.withoutSlashes path)
    let kind? := p.world.tree.kind? loc
    if exists? ∧ kind?.isNone then throw .missing
    if path.toList.getLast? = some '/' ∧ kind?.isSome ∧ kind? ≠ some .folder then throw .notFolder
    return loc

def readlink : Utility := withOperands "readlink" "efn" fun call path => do
  let p ← get
  let target? ← if call.has 'e' ∨ call.has 'f' then do
      pure ((← canonical (call.has 'e') path).toOption.map absolutePath)
    else pure (match (p.locateBy false path).toOption.bind p.world.tree.kind? with
      | some (.link target) => some target
      | _ => none)
  let some target := target? | return 1
  tell (target ++ if call.has 'n' ∧ call.operands.length = 1 then "" else "\n")

def relative (base loc : Location) : String :=
  let common := ((base.zip loc).takeWhile fun (a, b) => a = b).length
  let parts := List.replicate (base.length - common) ".." ++ loc.drop common
  if parts.isEmpty then "." else ofText ("/".intercalate parts)

def realpath : Utility :=
  withLongOptions "realpath" "e" [("relative-to", 'ρ')] 1 fun call => do
    let resolve (path : String) (use : Location → Run Nat) : Run Nat := do
      match ← canonical (call.has 'e') path with
      | .error why => fault "realpath" (why.onName path)
      | .ok loc => use loc
    let display (view : Location → String) : Run Nat :=
      forEach (resolve · fun loc => tell (view loc ++ "\n")) call.operands
    match call.value? 'ρ' with
    | none => display absolutePath
    | some base => resolve base fun start => display (relative start)

end Paths

namespace Attributes

/-! ### Times -/

def givenTime (call : Invocation) : Run Int := do
  let second : Int := 1000000000
  let now := (← get).world.clock
  let (text, time) := match call.value? 't', call.value? 'd' with
    | some stamp, _ => (stamp, (Moment.ofStamp? stamp).map fun moment => moment.toSeconds * second)
    | none, some text => (text, (Moment.ofText? text).map (· * second))
    | none, none => ("", some now)
  let some time := time | refuse "touch" ("invalid date format " ++ quoted text) 1
  return time

def touch : Utility := withOptions "touch" "acmd:t:" 1 fun call => do
  let time ← givenTime call
  forEach (fun path => do
    let p ← get
    let isBelow := path.toList.getLast? = some '/'
    let cannot (why : Refusal) : Run Nat := do
      if call.has 'c' then return 0
      fault "touch" ((if isBelow then "setting times of " else "cannot touch ") ++ why.on path)
    match p.locate path with
    | .error why => cannot why
    | .ok loc =>
      if (p.world.tree.number? loc).isNone then
        if call.has 'c' ∨ isBelow then return ← cannot .missing
        setContent loc ""
      if call.has 'm' ∨ !call.has 'a' then changeNode loc ({ · with modified := time })
      return 0) call.operands

/-! ### Modes -/

def chmod : Utility := withOptions "chmod" "Rf" 1 fun call => do
  let mask := (← get).umask
  let text :: paths := call.operands | misuse "chmod" "missing operand" 1
  if (Mode.changed? mask false text 0).isNone then
    misuse "chmod" ("invalid mode: " ++ quoted text) 1
  forEach (fun path => do
    match ← Files.found path true with
    | .error why =>
      if call.has 'f' then return 1
      fault "chmod" ("cannot access " ++ why.on path)
    | .ok loc =>
      let tree := (← get).world.tree
      for place in if call.has 'R' then tree.below loc else [loc] do
        if let some node := tree.node? place then
          if let .link _ := node.kind then continue
          let mode := Mode.changed? mask (node.kind = .folder) text node.mode
          changeNode place ({ · with mode := mode.getD node.mode })
      return 0) paths

end Attributes

namespace Copying

open Files

/-! ### Copying -/

structure Style where
  recursive : Bool := false
  keepsLinks : Bool := false
  keepsAll : Bool := false

variable (style : Style)

def copyNode (target : Location) (node : Node) : Run Unit := do
  let p ← get
  match node.kind, p.world.tree.number? target with
  | .folder, some _ => return
  | .folder, none => makeNode target .folder node.mode
  | .file content, some _ => setContent target content
  | kind, _ => makeNode target kind node.mode
  if style.keepsAll then
    changeNode target ({ · with mode := node.mode, modified := node.modified })

def copyAll (loc goal : Location) : Run Unit := do
  let tree := (← get).world.tree
  for place in tree.below loc do
    let node? := if style.keepsLinks then tree.node? place
      else (tree.walk true FileTree.mostLinks [] place).toOption.bind tree.node?
    if let (some inner, some node) := (FileTree.inner? loc place, node?) then
      if inner = [] ∨ (FileTree.inner? goal place).isNone then copyNode style (goal ++ inner) node

def placesFor (name source target : String) (follows : Bool) (cannot : Bool → Refusal → String)
    (transfer : Location → Location → Node → Run Nat) : Run Nat := do
  let p ← get
  let places : Except String (Location × Location × Node) := do
    let noSource (why : Refusal) : String := "cannot stat " ++ why.on source
    let loc ← (p.locateBy follows source).mapError noSource
    let some node := p.world.tree.node? loc | throw (noSource .missing)
    let isFolder := node.kind = .folder
    let path := if isFolder then withoutSlashes target else target
    let goal ← (p.locateBy (name = "cp") path).mapError fun why => cannot isFolder
      (if target.toList.getLast? = some '/' then .notFolder else why)
    return (loc, goal, node)
  match places with
  | .error message => fault name message
  | .ok (loc, goal, node) => transfer loc goal node

def copyTo (source target : String) : Run Nat := do
  let cannot (isFolder : Bool) (why : Refusal) : String :=
    "cannot create " ++ (if isFolder then "directory " else "regular file ") ++ why.on target
  if (← get).hasFolder source ∧ !style.recursive then
    return ← fault "cp" ("-r not specified; omitting directory " ++ inQuotes source)
  placesFor "cp" source target (!style.keepsLinks) cannot fun loc goal node => do
    copyAll style loc goal
    if node.kind = .folder ∧ (FileTree.inner? loc goal).isSome then
      return ← fault "cp" ("cannot copy a directory, " ++ inQuotes source ++ ", into itself, " ++
        inQuotes target)
    return 0

/-! ### Moving -/

def moveTo (source target : String) : Run Nat := do
  let cannot (_ : Bool) (why : Refusal) : String :=
    "cannot move " ++ inQuotes source ++ " to " ++ why.on target
  placesFor "mv" (withoutSlashes source) target false cannot fun loc goal node => do
    if node.kind = .folder ∧ (FileTree.inner? loc goal).isSome then
      return ← fault "mv" ("cannot move " ++ inQuotes source ++ " to a subdirectory of itself, " ++
        inQuotes target)
    changeTree (·.move loc goal)
    return 0

/-! ### Several files -/

def transferAll (name : String) (operands : List String)
    (transfer : String → String → Run Nat) : Run Nat := do
  match operands with
  | [] => misuse name "missing file operand" 1
  | [only] => misuse name ("missing destination file operand after " ++ inQuotes only) 1
  | operands =>
    let target := operands.getLastD ""
    match (← get).hasFolder target, operands.dropLast with
    | true, sources =>
      forEach (fun source => transfer source (inside target (lastName source))) sources
    | false, [source] => transfer source target
    | false, _ =>
      let why : Refusal := if ((← get).find? target).isSome then .notFolder else .missing
      fault name ("target " ++ why.on target)

def cp : Utility := withOptions "cp" "adfLnpPrR" 1 fun call => do
  let recursive := call.has 'r' || call.has 'R' || call.has 'a'
  let keeps := call.has 'a' || call.has 'd' || call.has 'P'
  let style : Style :=
    { recursive, keepsLinks := (keeps || recursive) && !call.has 'L'
      keepsAll := call.has 'a' || call.has 'p' }
  transferAll "cp" call.operands (copyTo style)

def mv : Utility := withOptions "mv" "f" 1 fun call => transferAll "mv" call.operands moveTo

/-! ### Links -/

def linkTo (call : Invocation) (source target : String) : Run Nat := do
  let p ← get
  let tree := p.world.tree
  let symbolic := call.has 's'
  let cannot (why : Refusal) : Run Nat :=
    fault "ln" ("failed to create " ++ (if symbolic then "symbolic" else "hard") ++ " link " ++
      why.on target)
  let finish (goal : Location) (run : Run Unit) : Run Nat := do
    let there := (tree.number? goal).isSome
    if there ∧ !call.has 'f' then return ← cannot .taken
    if there then changeTree (·.erase goal)
    run
    return 0
  match p.locateBy false target, ← found source false with
  | .error why, _ => cannot why
  | .ok goal, source? =>
    if symbolic then return ← finish goal (makeNode goal (.link source) 0o777)
    match source? with
    | .error why => fault "ln" ("failed to access " ++ why.on source)
    | .ok loc =>
      if tree.kind? loc = some .folder then
        return ← fault "ln" (source ++ ": hard link not allowed for directory")
      finish goal (changeTree (·.join goal ((tree.number? loc).getD 0)))

def ln : Utility := withOptions "ln" "fs" 1 fun call => do
  match call.operands with
  | [only] => linkTo call only ("./" ++ lastName only)
  | operands => transferAll "ln" operands (linkTo call)

end Copying

namespace Listing

structure Item where
  name : String
  location : Location
  node : Node

variable (node : Node)

def lengthOf : Nat :=
  match node.kind with
  | .file content => content.length
  | .folder => 4096
  | .link target => target.length
  | _ => 0

def blocksOf : Nat :=
  match node.kind with
  | .file _ | .folder => (lengthOf node + 4095) / 4096 * 4
  | _ => 0

def kindLetter : Kind → Char
  | .file _ => '-'
  | .folder => 'd'
  | .link _ => 'l'
  | .queue _ => 'p'
  | .device => 'c'

def modeText : String :=
  String.singleton (kindLetter node.kind) ++ Mode.inLetters node.mode

variable (tree : FileTree) (loc : Location)

def targetOf? : Option Location :=
  (tree.walk true FileTree.mostLinks [] loc).toOption.filter fun loc => (tree.number? loc).isSome

/-! ### Order -/

variable (call : Invocation)

def order : Option Char := call.lastOf? ['S', 't', 'U']

def compareItems (a b : Item) : Ordering :=
  let byName := compare a.name b.name
  match order call with
  | some 'U' => .eq
  | some 't' => (compare b.node.modified a.node.modified).then byName
  | some _ => (compare (lengthOf b.node) (lengthOf a.node)).then byName
  | none => byName

def arrange (items : List Item) : List Item :=
  let sorted := items.mergeSort fun a b => (compareItems call a b).isLE
  if call.has 'r' ∧ order call ≠ some 'U' then sorted.reverse else sorted

/-! ### Layout -/

def mark (node : Node) : String :=
  if !call.has 'F' then ""
  else match node.kind with
    | .folder => "/"
    | .link _ => "@"
    | .queue _ => "|"
    | .file _ => if node.mode &&& 0o111 ≠ 0 then "*" else ""
    | _ => ""

def timeText (now modified : Int) : String :=
  let seconds := modified.fdiv 1000000000
  let present := now.fdiv 1000000000
  let isRecent := present - 15778476 < seconds && seconds ≤ present
  let form := if isRecent then "%b %e %H:%M" else "%b %e  %Y"
  (Moment.ofSeconds seconds).format form

def widest (texts : List String) : Nat :=
  texts.foldl (fun width text => max width (charCount text)) 0

def label (tree : FileTree) (item : Item) : String :=
  match item.node.kind, call.has 'l' with
  | .link target, true =>
    let node? := (targetOf? tree item.location).bind tree.node?
    item.name ++ " -> " ++ target ++ (node?.map (mark call)).getD ""
  | _, _ => item.name ++ mark call item.node

def listing (p : Process) (items others : List Item) : String :=
  let tree := p.world.tree
  let all := if call.has 'l' then items ++ others else []
  let right (texts : List String) : List String := texts.map (padLeft (widest texts) · ++ " ")
  let rows := [all.map fun item => modeText item.node ++ " ",
    right (all.map fun item => toString (tree.nameCount item.location)),
    all.map fun _ => "root root ",
    right (all.map fun item =>
      if item.node.kind = .device then "1, 3" else toString (lengthOf item.node)),
    right (all.map fun item => timeText p.world.clock item.node.modified)]
  ofLines (items.zipIdx.map fun (item, i) =>
    String.join (rows.map (·.getD i "")) ++ label call tree item)

def contents (tree : FileTree) (loc : Location) : List Item :=
  let item (name : String) (loc : Location) : Option Item :=
    (tree.node? loc).map fun node => { name, location := loc, node }
  let hidden := call.lastOf? ['a', 'A']
  let names := (tree.names loc).filter fun name => hidden.isSome || name.front ≠ '.'
  let dots := if hidden = some 'a' then [item "." loc, item ".." loc.dropLast] else []
  arrange call ((dots ++ names.map fun name => item (ofText name) (loc ++ [name])).reduceOption)

def blocks (call : Invocation) (p : Process) :
    Nat → String → Location → List (String × String)
  | 0, _, _ => []
  | fuel + 1, path, loc =>
    let items := contents call p.world.tree loc
    let total := if call.has 'l' then
        "total " ++ toString (items.map fun item => blocksOf item.node).sum ++ "\n"
      else ""
    let inner := items.filter fun item =>
      call.has 'R' && item.node.kind = .folder && item.name ∉ [".", ".."]
    (path, total ++ listing call p items []) :: inner.flatMap fun item =>
      blocks call p fuel (Files.inside path item.name) item.location

def ls : Utility := withOptions "ls" "adlrtAFRSU1" 2 fun call => do
  let operands := if call.operands.isEmpty then ["."] else call.operands
  let p ← get
  let tree := p.world.tree
  -- A link that is asked for by its name can stand for the folder it leads to.
  let follows := !(call.has 'd' || call.has 'F' || call.has 'l')
  let mut code := 0
  let mut found : List Item := []
  for path in operands do
    match ← Files.found path false with
    | .error why =>
      complain ("ls: cannot access " ++ why.on path)
      code := 2
    | .ok itself =>
      let target? := (targetOf? tree itself).filter fun target =>
        follows && tree.kind? target = some .folder
      let loc := target?.getD itself
      if let some node := tree.node? loc then
        found := found ++ [{ name := path, location := loc, node }]
  let (folders, files) := (arrange call found).partition fun item =>
    item.node.kind = .folder && !call.has 'd'
  let shown := folders.flatMap fun item => blocks call p 64 item.name item.location
  let titled := operands.length > 1 || call.has 'R'
  let texts := shown.map fun (path, text) => if titled then path ++ ":\n" ++ text else text
  let front := if files.isEmpty then [] else [listing call p files folders]
  emit ("\n".intercalate (front ++ texts))
  return code

end Listing

namespace Dd

structure Request where
  input : Option String := none
  output : Option String := none
  size : Nat := 512
  skip : Nat := 0
  seek : Nat := 0
  count : Option Nat := none
  conversions : List String := []
  status : String := ""

variable (request : Request)

def operand? (arg : String) : Option Request := do
  let (key, value) ← Text.cutAt? '=' arg
  let number := (amountIn "" value).toOption
  match key with
  | "if" => return { request with input := some value }
  | "of" => return { request with output := some value }
  | "bs" => return { request with size := ← number }
  | "skip" => return { request with skip := ← number }
  | "seek" => return { request with seek := ← number }
  | "count" => return { request with count := some (← number) }
  | "status" => return { request with status := value }
  | "conv" => return { request with conversions := Text.splitAt ',' value }
  | _ => none

def unopened (name : String) (why : Refusal) : Run α :=
  refuse "dd" ("failed to open " ++ why.on name) 1

def take : Run Chars := do
  let skip := request.skip * request.size
  let most := request.count.map (· * request.size)
  match request.input with
  | some name =>
    match ← readFile name with
    | .ok text =>
      let rest := text.toList.drop skip
      return rest.take (most.getD rest.length)
    | .error why => unopened name why
  | none =>
    let _ ← readBy 0 fun _ => skip
    return (← readBy 0 fun rest => most.getD (rest.length + 1)).toOption.getD []

def put (text : String) : Run Unit := do
  match request.output with
  | none => emit text
  | some name =>
    let place := request.seek * request.size
    let old := match (← get).kind? name with
      | some (.file content) => content
      | _ => ""
    let isKept := request.conversions.contains "notrunc"
    let before := if isKept then old else ofList (old.toList.take place)
    let result := if text = "" ∧ before.length = place then before else overwrite before place text
    if let .error why ← writeFile name result false then unopened name why

def dd : Utility := fun args => do
  let some request := args.foldlM operand? {}
    | misuse "dd" ("unrecognized operand " ++ inQuotes (args.headD "")) 1
  let chars ← take request
  put request (ofList chars)
  if request.status ≠ "none" then
    let size := request.size
    let tally := toString (chars.length / size) ++ if chars.length % size = 0 then "+0" else "+1"
    complain (tally ++ " records in\n" ++ tally ++ " records out")
    if request.status ≠ "noxfer" then
      complain (toString chars.length ++ " bytes copied, 1e-05 s, 1.0 MB/s")
  return 0

end Dd

namespace Split

def suffix (digits : Chars) : Nat → Nat → Chars
  | 0, _ => []
  | width + 1, n => suffix digits width (n / digits.length) ++ [digits.getD (n % digits.length) 'a']

def split : Utility := fun args =>
  let args := args.flatMap fun arg =>
    match arg.toList with
    | '-' :: c :: rest => if c.isDigit then ["-l", ofList (c :: rest)] else [arg]
    | _ => [arg]
  withOptions "split" "da:l:" 1 (fun call => do
    let digits := (if call.has 'd' then "0123456789" else "abcdefghijklmnopqrstuvwxyz").toList
    let name := call.operands.headD "-"
    let count ← orRefuse "split" 1
      (amountIn "invalid number of lines" ((call.value? 'l').getD "1000"))
    let text ← match ← readFile name with
      | .ok text => pure text
      | .error why =>
        refuse "split" ("cannot open " ++ inQuotes name ++ " for reading: " ++ why.message) 1
    let pieces := (chunks count (text.length + 1) (fullLines text)).map String.join
    for (piece, index) in pieces.zipIdx do
      let width := (call.number? 'a').getD 2
      let target := call.operands.getD 1 "x" ++ ofList (suffix digits width index)
      if let .error why ← writeFile target piece false then
        refuse "split" (why.onName target) 1
    return 0) args

end Split

end ProgramAnalysis.Shell
