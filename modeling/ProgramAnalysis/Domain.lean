import ProgramAnalysis.Disk
import ProgramAnalysis.Element

/-!
Domains: dense numberings of entities.
-/

namespace ProgramAnalysis

/-- A numbering of elements of one kind: the element with index `i` is the `i`-th of the list. -/
structure Domain (kind : ElementKind) where
  name : String
  elements : List kind.Elem := []
  filled : Bool := false
  deriving DecidableEq

namespace Domain

variable {kind : ElementKind}

def size (domain : Domain kind) : Nat := domain.elements.length

/-- The index of an element, which is added at the end if it is not there yet. -/
def add (domain : Domain kind) (element : kind.Elem) : Domain kind × Nat :=
  match domain.elements.idxOf? element with
  | some index => ({ domain with filled := true }, index)
  | none =>
    ({ domain with elements := domain.elements ++ [element], filled := true }, domain.size)

/-- Adds elements one after the other. -/
def addAll (domain : Domain kind) (elements : List kind.Elem) : Domain kind :=
  elements.foldl (fun domain element => (domain.add element).1) domain

def ofList (name : String) (elements : List kind.Elem) : Domain kind :=
  Domain.addAll { name } elements

/-- The index of an element, if it has one. -/
def indexOf (domain : Domain kind) (element : kind.Elem) : Except Fault (Option Nat) :=
  if domain.filled then .ok (domain.elements.idxOf? element)
  else .error (.domainNotReady domain.name)

/-- The element with an index. -/
def element (domain : Domain kind) (index : Nat) : Except Fault kind.Elem :=
  if domain.filled then
    match domain.elements[index]? with
    | some element => .ok element
    | none => .error (.noElement domain.name index)
  else
    .error (.domainNotReady domain.name)

def render (domain : Domain kind) (index : Nat) : Except Fault String :=
  (domain.element index).map (kind.encode ·)

/-- The domain as a computed one, even without elements. -/
def setFilled (domain : Domain kind) : Domain kind := { domain with filled := true }

/-- The domain as it was created. -/
def clear (domain : Domain kind) : Domain kind := { name := domain.name }

def indexed (domain : Domain kind) : List (Nat × kind.Elem) :=
  (List.range domain.size).zip domain.elements

/-! ### Files -/

def mapName (name : String) : String := name ++ ".map"

def headerName (name : String) : String := name ++ ".dom"

/-- The file of the elements, one a line. -/
def mapText (domain : Domain kind) : String :=
  String.join (domain.elements.map fun element => kind.encode element ++ "\n")

/-- The file that tells the size. -/
def headerText (domain : Domain kind) : String :=
  domain.name ++ " " ++ toString domain.size ++ " " ++ mapName domain.name ++ "\n"

/-- Writes both files. -/
def save (domain : Domain kind) (dir : String) : Step Disk Unit := do
  Disk.saveText dir (mapName domain.name) domain.mapText
  Disk.change (·.write (Path.join dir (headerName domain.name)) (.text domain.headerText))

/-- Adds the elements written on some lines. The lines before a faulty one count. -/
def readLines : List (Option String) → Step (Domain kind) Unit
  | [] => modify setFilled
  | none :: _ => throw .file
  | some line :: rest => do
    let element ← Step.ofExcept (kind.decode line)
    let domain ← get
    let (extended, index) := domain.add element
    set extended
    if index ≠ domain.size then throw (.repeatedElement domain.name)
    readLines rest

/-- Reads the elements back. The domain is cleared as soon as there is something to read. -/
def load (dir : String) (disk : Disk) : Step (Domain kind) Unit := do
  let path := Path.join dir (mapName (← get).name)
  if !disk.holds path then throw (.domainNotReady (← get).name)
  modify clear
  let content ← Step.ofExcept (disk.read path)
  readLines content.lines

/-- The size a saved header records, if there is one. -/
def savedSize (disk : Disk) (dir name : String) : Except Fault (Option Nat) := do
  let path := Path.join dir (headerName name)
  if !disk.holds path then return none
  match Text.words (← disk.readText path) with
  | owner :: size :: _ =>
    if owner = name then return some (← (Numeral.readSize size).mapError Fault.numeral)
    else throw (.malformedHeader name)
  | _ => throw (.malformedHeader name)

/-! ### Reports -/

/-- An element in the report, under its number. -/
def reportLine (domain : Domain kind) (program : Program) (index : Nat) (element : kind.Elem) :
    String :=
  let opening := "<" ++ domain.name ++ " id=\"" ++ domain.name ++ toString index ++ "\""
  match kind.attributes program element with
  | "" => opening ++ "/>\n"
  | attributes => opening ++ " " ++ attributes ++ "/>\n"

/-- The report: an XML list of the elements with their attributes. -/
def report (domain : Domain kind) (program : Program) : String :=
  "<" ++ domain.name ++ "list>\n" ++
    String.join (domain.indexed.map fun entry => domain.reportLine program entry.1 entry.2) ++
    "</" ++ domain.name ++ "list>\n"

def saveReport (domain : Domain kind) (dir : String) (program : Program) : Step Disk Unit :=
  Disk.saveText dir (domain.name ++ ".xml") (domain.report program)

end Domain

end ProgramAnalysis
