import ProgramAnalysis.Disk

/-!
Replacement of call targets.
-/

namespace ProgramAnalysis

/-- Signatures of call targets and of what replaces them. -/
structure Remap where
  table : Table String String
  deriving Inhabited

namespace Remap

def empty : Remap := ⟨.empty⟩

def isEmpty (remap : Remap) : Bool := remap.table.isEmpty

def insert (remap : Remap) (source replacement : String) : Remap :=
  ⟨remap.table.insert source replacement⟩

/-- Takes the lines up from the left, given the number of the first. -/
def readLines (remap : Remap) (number : Nat) : List String → Except Fault Remap
  | [] => .ok remap
  | line :: rest =>
    match Text.words (Text.before '#' line) with
    | [] => readLines remap (number + 1) rest
    | [source, replacement] => readLines (remap.insert source replacement) (number + 1) rest
    | _ => .error (.malformedRemap number)

/-- Reads the text form, the later of two lines for one source winning. -/
def parse (text : String) : Except Fault Remap := readLines empty 1 (Text.lines text)

def ofFile (disk : Disk) (path : String) : Except Fault Remap := do
  parse (← disk.readText path)

/-- The method called instead of `target`: `target` itself when it is not replaced, and none when
the replacement is not in the program. -/
def apply (remap : Remap) (program : Program) (target : MethodId) : Option MethodId :=
  match program.methods[target]? with
  | none => some target
  | some method =>
    match remap.table.get? method.signature with
    | none => some target
    | some replacement => program.methodBySignature? replacement

end Remap

end ProgramAnalysis
