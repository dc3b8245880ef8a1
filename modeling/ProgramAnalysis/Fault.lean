import ProgramAnalysis.Datalog
import ProgramAnalysis.Options.Basic
import ProgramAnalysis.Program.Basic
import ProgramAnalysis.Trace.Event

/-!
Everything that can go wrong in a session, by cause.
-/

namespace ProgramAnalysis

/-- How a relation disagrees with what is declared of it. -/
inductive SchemaCause where
  | tupleArity (given declared : Nat)
  | noColumn (column arity : Nat)
  | missingHeader
  | savedArity (saved declared : Nat)
  | savedColumn (saved declared : String)
  | malformedTuple (line : String)
  | outsideDomain (component : Nat) (line column : String) (size : Nat)
  | redeclared (earlier later : Signature)
  | declaredTwice (task : String) (earlier later : Signature)
  | declaredOtherwise (task : String) (given existing : Signature)
  deriving DecidableEq, Repr

namespace SchemaCause

def message : SchemaCause → String
  | tupleArity given declared =>
    "tuple of arity " ++ toString given ++ " added to relation of arity " ++ toString declared
  | noColumn column arity =>
    "column " ++ toString column ++ " of relation with arity " ++ toString arity
  | missingHeader => "missing header"
  | savedArity saved declared =>
    "persisted arity " ++ toString saved ++ " but declared " ++ toString declared
  | savedColumn saved declared => "persisted column " ++ saved ++ " but declared " ++ declared
  | malformedTuple line => "malformed tuple `" ++ line ++ "`"
  | outsideDomain component line column size =>
    "component " ++ toString component ++ " of `" ++ line ++ "` is outside domain " ++ column ++
      " of size " ++ toString size
  | redeclared earlier later => "declared as " ++ earlier.render ++ " and as " ++ later.render
  | declaredTwice task earlier later =>
    "task " ++ task ++ " declares it as both " ++ earlier.render ++ " and " ++ later.render
  | declaredOtherwise task given existing =>
    "task " ++ task ++ " declares " ++ given.render ++ " but it is " ++ existing.render

end SchemaCause

/-- Why something could not be done. -/
inductive Fault where
  | domainNotReady (name : String)
  | relationNotReady (name : String)
  | noProducer (artifact consumer : String)
  | schema (relation : String) (cause : SchemaCause)
  | cyclicTasks (names : List String)
  | solverFailed (code : Option Int) (errors : String)
  | trace (fault : Trace.Fault)
  | taskNotFound (name : String)
  | taskRunning (name : String)
  | duplicateTask (name : String)
  | duplicateProducer (artifact first second : String)
  | noElement (domain : String) (index : Nat)
  | datalog (fault : DatalogFault)
  | option (fault : OptionFault)
  | program (fault : ProgramFault)
  | noVertex (vertex : Nat)
  | file
  | json
  | numeral (fault : NumeralFault)
  | signature (fault : SignatureFault)
  | repeatedElement (domain : String)
  | malformedHeader (domain : String)
  | otherElements (domain : String)
  | malformedRemap (line : Nat)
  | duplicateVertex (vertex : Nat)
  | cyclicGraph
  | gaveUp (reason : String)
  deriving DecidableEq, Repr

namespace Fault

def message : Fault → String
  | domainNotReady name => "domain " ++ name ++ " is not ready"
  | relationNotReady name => "relation " ++ name ++ " is not ready"
  | noProducer artifact consumer =>
    artifact ++ " (consumed by " ++ consumer ++ ", no producer) is not ready"
  | schema relation cause => "Schema mismatch in relation " ++ relation ++ ": " ++ cause.message
  | cyclicTasks names => "Cyclic dependency between tasks: " ++ " -> ".intercalate names
  | solverFailed code errors =>
    let shown := match code with
      | some n => "Some(" ++ toString n ++ ")"
      | none => "None"
    "Solver failed (exit code " ++ shown ++ "): " ++ errors
  | trace fault => "Trace protocol error: " ++ fault.message
  | taskNotFound name => "No task named " ++ name
  | taskRunning name => "Task " ++ name ++ " is already running"
  | duplicateTask name => "A task named " ++ name ++ " is already registered"
  | duplicateProducer artifact first second =>
    "Artifact " ++ artifact ++ " is produced by both " ++ first ++ " and " ++ second
  | noElement domain index => "Domain " ++ domain ++ " has no element " ++ toString index
  | datalog fault => fault.file ++ ":" ++ toString fault.line ++ ": " ++ fault.cause.message
  | option fault => "Invalid value for option " ++ fault.key ++ ": " ++ fault.cause.message
  | program fault => "Invalid program: " ++ fault.message
  | noVertex vertex => "The vertex id " ++ toString vertex ++ " does not exist in the graph"
  | file => "Io error"
  | json => "Json error"
  | numeral fault => "ParseIntError: " ++ fault.message
  | signature fault => fault.message
  | repeatedElement domain => "domain " ++ domain ++ " has a repeated element"
  | malformedHeader domain => "malformed header in " ++ domain ++ ".dom"
  | otherElements domain => "domain " ++ domain ++ " holds a different element type"
  | malformedRemap line =>
    "method remap line " ++ toString line ++ ": expected `source replacement`"
  | duplicateVertex vertex => "duplicate vertex " ++ toString vertex
  | cyclicGraph => "dependency graph contains a cycle"
  | gaveUp reason => reason

end Fault

/-! ### Steps -/

/-- An operation on a state that may fail, and leaves a state either way. -/
abbrev Step (σ α : Type) := EStateM Fault σ α

namespace Step

variable {σ τ α : Type}

/-- Takes a step with a part of the state. -/
def onPart (part : σ → τ) (replace : σ → τ → σ) (step : Step τ α) : Step σ α := fun s =>
  match step (part s) with
  | .ok a t => .ok a (replace s t)
  | .error fault t => .error fault (replace s t)

/-- A computation that changes nothing. -/
def ofExcept (result : Except Fault α) : Step σ α :=
  match result with
  | .ok a => pure a
  | .error fault => throw fault

/-- The state a step leaves if it succeeds. -/
def leaves (step : Step σ α) (s : σ) : Except Fault σ :=
  match step s with
  | .ok _ after => .ok after
  | .error fault _ => .error fault

end Step

end ProgramAnalysis
