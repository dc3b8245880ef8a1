import ProgramAnalysis.Context.Abstraction
import ProgramAnalysis.Escape
import ProgramAnalysis.Schedule
import ProgramAnalysis.Trace.Reader

/-!
Tasks: what a session can run.
-/

namespace ProgramAnalysis

/-- One action of a script. `runs` counts the earlier runs of the script. -/
inductive Action where
  /-- Fails, in every run or in some. -/
  | fail (reason : String) (runs : Option (List Nat))
  | run (task : String)
  | reset (task : String)
  | putDomain (domain : AnyDomain)
  | fill (relation : String) (tuples : List Tuple)
  /-- Fills a relation with other tuples in each run, and with none after the last. -/
  | fillByRun (relation : String) (tuples : List (List Tuple))
  /-- Does anything at all with the store. -/
  | work (step : Step Store Unit)
  /-- Does something and goes on even if it fails. -/
  | tolerate (action : Action)

/-- What the replay of a trace is told. -/
structure EscapeSetup where
  traceFile : Option String
  blockSize : Nat
  flowInsensitive : Bool
  deriving DecidableEq, Repr, Inhabited

/-- What a task does when it is run. -/
inductive Body where
  | script (actions : List Action) (runs : Nat)
  | domain (domain : FactDomain)
  | relation (relation : FactRelation) (remap : Remap)
  | contexts (abstraction : Abstraction)
  | refinement (refinement : Refinement)
  | datalog (file : String) (outputs : List String)
  | escape (setup : EscapeSetup)

/-- What a session can run: a declaration, the relations it declares, and what it does. -/
structure Task extends Declaration where
  relations : List (String × Signature)
  body : Body

namespace EscapeSetup

def ofOptions (options : Options) : EscapeSetup where
  traceFile := options.traceFile
  blockSize := options.traceBlockSize
  flowInsensitive := options.flowInsensitiveEscape

/-- What a trace leads to, if it can be read to its end. -/
def replay (reader : Trace.Reader) (start : Escape) : Except Fault Escape :=
  (reader.process (fun event => modify (·.replay event)) 0).leaves start

/-- Replays the trace and publishes the accesses it visited and those that escape. -/
def run (setup : EscapeSetup) : Step Store Unit := do
  match setup.traceFile with
  | none => throw (.option ⟨"trace.file", .nothingToAnalyse⟩)
  | some path =>
    let accessBound ← Store.query (·.domainSize "E")
    let siteBound ← Store.query (·.domainSize "H")
    let reader ← Store.query fun store => Trace.Reader.ofFile store.disk path setup.blockSize
    let replayed ← Step.ofExcept (replay reader { accessBound, siteBound })
    let escaping :=
      if setup.flowInsensitive then replayed.flowInsensitive else replayed.flowSensitive
    Store.fillRelation "visitedE" (replayed.visited.toList.map fun e => [e])
    Store.fillRelation "escE" (escaping.toList.map fun e => [e])

end EscapeSetup

namespace Task

def ofDomain (domain : FactDomain) : Task where
  name := domain.name
  consumes := []
  produces := [domain.name]
  relations := []
  body := .domain domain

def ofRelation (relation : FactRelation) (remap : Remap) : Task where
  name := relation.name
  consumes := relation.signature.domains
  produces := [relation.name]
  relations := [(relation.name, relation.signature)]
  body := .relation relation remap

/-- Computes contexts, with nothing refined yet. -/
def contexts : Task where
  name := "ctxts"
  consumes := Abstraction.consumes
  produces := Abstraction.produces
  relations := Abstraction.signatures
  body := .contexts {}

def ofRefinement (refinement : Refinement) : Task where
  name := refinement.name
  consumes := []
  produces := []
  relations := Refined.reported.map fun refined => (refined.relation, refined.signature)
  body := .refinement refinement

/-- Solves a Datalog program. -/
def ofDatalog (header : Datalog.Header) : Task where
  name := header.name
  consumes := header.consumes
  produces := header.produces
  relations := header.relations
  body := .datalog header.file (header.outputs.map (·.1))

def ofEscape (setup : EscapeSetup) : Task where
  name := "dynamic-thread-escape"
  consumes := ["E", "H"]
  produces := ["visitedE", "escE"]
  relations := [("visitedE", ⟨["E0"], "E0"⟩), ("escE", ⟨["E0"], "E0"⟩)]
  body := .escape setup

end Task

end ProgramAnalysis
