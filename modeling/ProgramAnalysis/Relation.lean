import ProgramAnalysis.Disk
import ProgramAnalysis.SortedSet

/-!
Relations: sets of tuples of indices, one component for each column of a signature.
-/

namespace ProgramAnalysis

abbrev Tuple := List Nat

/-- A named relation. `tuples` is absent while the relation is closed. -/
structure Relation where
  name : String
  signature : Signature
  tuples : Option (SortedSet Tuple) := none

namespace Relation

instance : Inhabited Relation := ⟨{ name := "", signature := default }⟩

def isOpen (relation : Relation) : Bool := relation.tuples.isSome

def arity (relation : Relation) : Nat := relation.signature.arity

/-- The tuples of an open relation. -/
def contents (relation : Relation) : Except Fault (SortedSet Tuple) :=
  match relation.tuples with
  | some tuples => .ok tuples
  | none => .error (.relationNotReady relation.name)

def close (relation : Relation) : Relation := { relation with tuples := none }

/-- Adds a tuple of the right length and says whether it is new. -/
def add (relation : Relation) (tuple : Tuple) : Except Fault (Relation × Bool) := do
  let tuples ← relation.contents
  if tuple.length ≠ relation.arity then
    throw (.schema relation.name (.tupleArity tuple.length relation.arity))
  return ({ relation with tuples := some (tuples.insert tuple) }, tuple ∉ tuples)

/-- Adds tuples until one cannot be added, and counts the new ones. -/
def addAll : List Tuple → Step Relation Nat
  | [] => return 0
  | tuple :: rest => do
    let (extended, fresh) ← Step.ofExcept ((← get).add tuple)
    set extended
    let others ← addAll rest
    return (if fresh then 1 else 0) + others

def holds (relation : Relation) (tuple : Tuple) : Except Fault Bool := do
  return tuple ∈ (← relation.contents)

def size (relation : Relation) : Except Fault Nat := do
  return (← relation.contents).size

/-! ### Columns -/

def checkColumn (relation : Relation) (column : Nat) : Except Fault Unit :=
  if column < relation.arity then .ok ()
  else .error (.schema relation.name (.noColumn column relation.arity))

def component (tuple : Tuple) (column : Nat) : Nat := tuple.getD column 0

/-- The distinct values of a column, in the order of the tuples. -/
def column (relation : Relation) (column : Nat) : Except Fault (List Nat) := do
  relation.checkColumn column
  return ((← relation.contents).toList.map (component · column)).eraseDups

/-- The distinct pairs of values of two columns, in the order of the tuples. -/
def columns (relation : Relation) (first second : Nat) : Except Fault (List (Nat × Nat)) := do
  relation.checkColumn first
  relation.checkColumn second
  return ((← relation.contents).toList.map fun tuple =>
    (component tuple first, component tuple second)).eraseDups

/-- The tuples with a value in a column. -/
def select (relation : Relation) (column value : Nat) : Except Fault (List Tuple) := do
  relation.checkColumn column
  return (← relation.contents).toList.filter (component · column = value)

/-! ### Files -/

def filePath (relation : Relation) (dir : String) : String :=
  Path.join dir (relation.name ++ ".tuples")

/-- Opens a relation without tuples and removes its file. -/
def zero (relation : Relation) (dir : String) : Step Disk Relation := do
  let path := relation.filePath dir
  if (← get).holds path then Disk.change (·.remove path)
  return { relation with tuples := some .empty }

def tupleText (tuple : Tuple) : String := " ".intercalate (tuple.map toString)

/-- Columns with their sizes, the order, and a tuple a line. -/
def fileText (relation : Relation) (sizes : List Nat) (tuples : SortedSet Tuple) : String :=
  let header := (relation.signature.columns.zip sizes).map fun entry =>
    entry.1 ++ ":" ++ toString entry.2
  "# " ++ " ".intercalate header ++ "\n" ++
    "# order=" ++ relation.signature.order ++ "\n" ++
    String.join (tuples.toList.map fun tuple => tupleText tuple ++ "\n")

/-- Writes the file of an open relation, given the sizes of the domains of its columns. -/
def save (relation : Relation) (dir : String) (sizes : List Nat) : Step Disk Unit := do
  let tuples ← Step.ofExcept relation.contents
  Disk.saveText dir (relation.name ++ ".tuples") (relation.fileText sizes tuples)

/-- Compares the columns on the first line with those declared. -/
def checkHeader (relation : Relation) (line : String) : Except Fault Unit :=
  match Text.dropStart? "#" line with
  | none => .error (.schema relation.name .missingHeader)
  | some rest =>
    let saved := (Text.words rest).map (Text.before ':')
    if saved.length ≠ relation.arity then
      .error (.schema relation.name (.savedArity saved.length relation.arity))
    else
      match (saved.zip relation.signature.columns).find? fun entry => entry.1 ≠ entry.2 with
      | none => .ok ()
      | some (saved, declared) => .error (.schema relation.name (.savedColumn saved declared))

/-- The first component that is not below its size. -/
def outside? (tuple : Tuple) (sizes : List Nat) : Option (Nat × Nat) :=
  (((List.range tuple.length).zip (tuple.zip sizes)).find? fun entry =>
    entry.2.2 ≤ entry.2.1).map fun entry => (entry.1, entry.2.2)

/-- Reads a line after the first; blank lines and comments hold no tuple. -/
def readTuple (relation : Relation) (sizes : List Nat) (line : String) :
    Except Fault (Option Tuple) := do
  let line := Text.trim line
  if line = "" || (Text.dropStart? "#" line).isSome then return none
  let tuple ← (Text.words line).mapM fun word => (Numeral.readSize word).mapError Fault.numeral
  if tuple.length ≠ relation.arity then throw (.schema relation.name (.malformedTuple line))
  match outside? tuple sizes with
  | none => return some tuple
  | some (component, size) =>
    throw (.schema relation.name
      (.outsideDomain component line (relation.signature.columns.getD component "") size))

/-- Adds the tuples of some lines, unless one of them is neither a tuple nor skipped. -/
def readTuples (relation : Relation) (sizes : List Nat) (tuples : SortedSet Tuple) :
    List (Option String) → Except Fault (SortedSet Tuple)
  | [] => .ok tuples
  | none :: _ => .error .file
  | some line :: rest => do
    match ← relation.readTuple sizes line with
    | none => readTuples relation sizes tuples rest
    | some tuple => readTuples relation sizes (tuples.insert tuple) rest

/-- Reads the lines of a file. A file without lines has an empty first line. -/
def readLines (relation : Relation) (sizes : List Nat) :
    List (Option String) → Except Fault (SortedSet Tuple)
  | [] => do
    relation.checkHeader ""
    return .empty
  | none :: _ => .error .file
  | some header :: rest => do
    relation.checkHeader header
    relation.readTuples sizes .empty rest

/-- Opens a relation with the tuples of its file. -/
def load (relation : Relation) (dir : String) (sizes : List Nat) (disk : Disk) :
    Except Fault Relation := do
  let path := relation.filePath dir
  if !disk.holds path then throw (.relationNotReady relation.name)
  let content ← disk.read path
  return { relation with tuples := some (← relation.readLines sizes content.lines) }

end Relation

end ProgramAnalysis
