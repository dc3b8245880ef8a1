import ProgramAnalysis.Fault
import ProgramAnalysis.Table

/-!
The files a session works on.
-/

namespace ProgramAnalysis

/-- The names on the way from the top to a file or folder. What lies elsewhere is reached by `..` in
front, or by a slash for the root of everything. -/
abbrev Location := List String

/-- What a file holds: text, or bytes that are not UTF-8. -/
inductive Content where
  | text (s : String)
  | binary (bytes : List UInt8)
  deriving DecidableEq, Inhabited

namespace Content

def ofBytes (bytes : List UInt8) : Content :=
  match Text.decode? bytes with
  | some s => text s
  | none => binary bytes

def bytes : Content → List UInt8
  | text s => Text.encode s
  | binary bytes => bytes

def text? : Content → Option String
  | text s => some s
  | binary _ => none

/-- The lines of a file, `none` for one that is not UTF-8. -/
def lines : Content → List (Option String)
  | text s => (Text.lines s).map some
  | binary bytes => Text.linesOfBytes bytes

end Content

/-- What stands at a location. -/
inductive Entry where
  | file (content : Content)
  | folder
  deriving DecidableEq, Inhabited

/-- Files and folders by location. The top, all above it and the root are always folders. -/
structure Disk where
  entries : Table Location Entry
  deriving Inhabited

namespace Path

def isAbsolute (path : String) : Bool := (Text.dropStart? "/" path).isSome

def join (dir name : String) : String :=
  if isAbsolute name || dir = "" then name
  else if (Text.dropEnd? "/" dir).isSome then dir ++ name
  else dir ++ "/" ++ name

/-- The parts of a path between its slashes. -/
def pieces (path : String) : List String := (Text.splitAt '/' path).filter (· ≠ "")

/-- The parts of a path. A trailing slash asks for a folder, as a trailing `.` does. -/
def parts (path : String) : List String :=
  let last := (Text.splitAt '/' path).getLast?.getD ""
  if last = "" then pieces path ++ ["."] else pieces path

/-- The parts of a path that say more than to stay: a `.` only counts at the front. -/
def components (path : String) : List String :=
  match pieces path with
  | [] => []
  | first :: rest => first :: rest.filter (· ≠ ".")

/-- The path made of some parts, from where another path starts. -/
def ofComponents (path : String) (parts : List String) : String :=
  (if isAbsolute path then "/" else "") ++ "/".intercalate parts

def parent (path : String) : String := ofComponents path (components path).dropLast

/-- A path and the paths to what is above it, the nearest first. -/
def ancestry (path : String) : List String :=
  if path = "" then []
  else
    let above := (components path).dropLast
    path :: (List.range above.length).reverse.map fun count =>
      ofComponents path (above.take (count + 1))

/-- Whether a file system can hold a name. -/
def isNameable (name : String) : Bool := name.utf8ByteSize ≤ 255

/-- Whether a file system can be asked about a path at all. -/
def isAskable (path : String) : Bool :=
  path.utf8ByteSize < 4096 && path.toList.all (· ≠ Char.ofNat 0)

/-- The part of a file name after its last dot, if something stands before that dot. -/
def extension? (name : String) : Option String :=
  let pieces := Text.splitAt '.' name
  match pieces.dropLast with
  | [] | [""] => none
  | _ => pieces.getLast?

end Path

namespace Disk

def empty : Disk := ⟨.empty⟩

/-- Whether a location is the top, above it, or the root. -/
def isUpper (location : Location) : Bool := location.all (· = "..") || location = ["/"]

def entry? (disk : Disk) (location : Location) : Option Entry :=
  if isUpper location then some .folder else disk.entries.get? location

/-- The folder around a location. -/
def above (location : Location) : Location :=
  if location = ["/"] then location
  else if isUpper location then location ++ [".."]
  else location.dropLast

def start (path : String) : Location := if Path.isAbsolute path then ["/"] else []

/-- Why a path leads nowhere: something on the way is not there, or there is no such way. -/
inductive Obstacle where
  | missing
  | blocked
  deriving DecidableEq, Repr

/-- Follows the parts of a path from a location. The place reached need not exist. -/
def walk (disk : Disk) (location : Location) : List String → Except Obstacle Location
  | [] => .ok location
  | part :: rest =>
    match disk.entry? location with
    | none => .error .missing
    | some (.file _) => .error .blocked
    | some .folder =>
      if part = "." then disk.walk location rest
      else if part = ".." then disk.walk (above location) rest
      else if Path.isNameable part then disk.walk (location ++ [part]) rest
      else .error .blocked

/-- The location a path names, if everything before it is there. -/
def locate (disk : Disk) (path : String) : Except Obstacle Location :=
  if path = "" then .error .missing
  else if !Path.isAskable path then .error .blocked
  else disk.walk (start path) (Path.parts path)

def locate? (disk : Disk) (path : String) : Option Location := (disk.locate path).toOption

/-- What is found at the end of a path. -/
def find? (disk : Disk) (path : String) : Option Entry := do
  disk.entry? (← disk.locate? path)

def holds (disk : Disk) (path : String) : Bool := (disk.find? path).isSome

def hasFolder (disk : Disk) (path : String) : Bool := disk.find? path = some .folder

def read (disk : Disk) (path : String) : Except Fault Content :=
  match disk.find? path with
  | some (.file content) => .ok content
  | _ => .error .file

def readText (disk : Disk) (path : String) : Except Fault String := do
  match (← disk.read path).text? with
  | some text => return text
  | none => throw .file

/-- Writes a file, replacing one that is there. Its folder must exist. -/
def write (disk : Disk) (path : String) (content : Content) : Except Fault Disk :=
  match disk.locate? path with
  | none => .error .file
  | some location =>
    if disk.entry? location = some .folder then .error .file
    else .ok ⟨disk.entries.insert location (.file content)⟩

/-- Deletes a file. Folders stay. -/
def remove (disk : Disk) (path : String) : Except Fault Disk :=
  match disk.locate? path with
  | none => .error .file
  | some location =>
    match disk.entry? location with
    | some (.file _) => .ok ⟨disk.entries.erase location⟩
    | _ => .error .file

/-- Makes one folder. Everything above it must be there, and it must not. -/
def makeFolder (disk : Disk) (path : String) : Except Obstacle Disk := do
  if !Path.isAskable path then throw .blocked
  let pieces := Path.pieces path
  let location ← disk.walk (start path) (pieces.dropLast ++ ["."])
  match pieces.getLast? with
  | none | some "." | some ".." => throw .blocked
  | some name =>
    let inner := location ++ [name]
    if Path.isNameable name ∧ disk.entry? inner = none then
      return ⟨disk.entries.insert inner .folder⟩
    else throw .blocked

/-- The names of what lies in a folder, ascending. -/
def folderNames (disk : Disk) (path : String) : Except Fault (List String) :=
  match disk.locate? path with
  | none => .error .file
  | some location =>
    if disk.entry? location ≠ some .folder then .error .file
    else
      let inner := disk.entries.keys.filter fun l => l ≠ [] && l.dropLast = location
      .ok ((inner.filterMap List.getLast?).mergeSort fun a b => (compare a b).isLE)

/-- The paths of all files below the top, ascending. -/
def files (disk : Disk) : List String :=
  let paths := disk.entries.entries.filterMap fun
    | (location, .file _) =>
      if location.head? = some ".." ∨ location.head? = some "/" then none
      else some ("/".intercalate location)
    | (_, .folder) => none
  paths.mergeSort fun a b => (compare a b).isLE

/-! ### As steps -/

/-- A change that leaves the disk as it was if it fails. -/
def change (f : Disk → Except Fault Disk) : Step Disk Unit := fun disk =>
  match f disk with
  | .ok changed => .ok () changed
  | .error fault => .error fault disk

/-- Makes the first of some folders, each of which lies in the next one. Those that are missing are
made from the outermost on, and stay if one of them cannot be made. -/
def makeFolders : List String → Step Disk Unit
  | [] => return
  | path :: above => do
    match (← get).makeFolder path with
    | .ok disk => set disk
    | .error .blocked => if !(← get).hasFolder path then throw .file
    | .error .missing =>
      makeFolders above
      match (← get).makeFolder path with
      | .ok disk => set disk
      | .error _ => if !(← get).hasFolder path then throw .file

/-- Makes a folder and everything above it, as far as they are missing. -/
def createFolders (path : String) : Step Disk Unit := makeFolders (Path.ancestry path)

/-- Writes a file, making the folders around it first. -/
def writeInFolder (path : String) (content : Content) : Step Disk Unit := do
  createFolders (Path.parent path)
  change (·.write path content)

/-- Writes a file in a folder, which is made if it is missing. -/
def saveText (dir name text : String) : Step Disk Unit := do
  createFolders dir
  change (·.write (Path.join dir name) (.text text))

end Disk

end ProgramAnalysis
