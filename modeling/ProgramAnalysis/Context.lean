import ProgramAnalysis.Fault
import ProgramAnalysis.SortedSet

/-!
Abstract contexts and abstract objects.
-/

namespace ProgramAnalysis

/-- A sequence of call or allocation sites, the most recent first. -/
abbrev Context := List InstId

namespace Context

/-- The context of methods analysed insensitively. -/
def epsilon : Context := []

/-- The `k` most recent sites after going through `site`. -/
def push (k : Nat) (site : InstId) (context : Context) : Context := (site :: context).take k

/-- The `k` most recent sites. -/
def truncate (k : Nat) (context : Context) : Context := context.take k

/-- A context as it is shown to people, such as `[i3,i5]`. -/
def shown (context : Context) : String :=
  "[" ++ ",".intercalate (context.map Entity.instruction.showHandle) ++ "]"

/-- A context as it is written to a file: its sites with blanks between them. -/
def encode (context : Context) : String := " ".intercalate (context.map toString)

/-- Reads a context back from a file. -/
def decode (text : String) : Except Fault Context :=
  (Text.words text).mapM fun word => (Numeral.readSize word).mapError Fault.numeral

def attributes (program : Program) (context : Context) : String :=
  "sites=\"" ++
    Text.escape (",".intercalate (context.map program.describeInstruction)) ++ "\""

end Context

/-- The contexts an object may have been allocated in. -/
structure AbstractObject where
  contexts : SortedSet Context
  deriving DecidableEq

namespace AbstractObject

instance : Inhabited AbstractObject := ⟨⟨.empty⟩⟩

def ofList (contexts : List Context) : AbstractObject := ⟨.ofList contexts⟩

def isEmpty (object : AbstractObject) : Bool := object.contexts.isEmpty

/-- Adds a context and says whether it is new. -/
def insert (object : AbstractObject) (context : Context) : AbstractObject × Bool :=
  (⟨object.contexts.insert context⟩, context ∉ object.contexts)

/-- Whether two objects may be one: they share a context. -/
def mayAlias (first second : AbstractObject) : Bool :=
  first.contexts.toList.any (· ∈ second.contexts)

def shown (object : AbstractObject) : String :=
  "\x7b" ++ ",".intercalate (object.contexts.toList.map Context.shown) ++ "\x7d"

end AbstractObject

end ProgramAnalysis
