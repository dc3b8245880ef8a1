import ProgramAnalysis.Program.Remap
import ProgramAnalysis.Store

/-!
The relations that are read off a program, each over two domains that must have been computed.
-/

namespace ProgramAnalysis

/-- The domains that are read off a program. -/
inductive FactDomain where
  | methods
  | invokes
  | allocations
  | vars
  | accesses
  | fields
  | locks
  | types
  deriving DecidableEq, Repr, Inhabited

namespace FactDomain

def name : FactDomain → String
  | methods => "M"
  | invokes => "I"
  | allocations => "H"
  | vars => "V"
  | accesses => "E"
  | fields => "F"
  | locks => "L"
  | types => "T"

def kind : FactDomain → ElementKind
  | methods => .method
  | invokes | allocations | accesses | locks => .instruction
  | vars => .var
  | fields => .field
  | types => .type

def instructionsWhere (program : Program) (keep : Instruction → Bool) : List InstId :=
  (program.numberedInstructions.filter fun entry => keep entry.2).map (·.1)

/-- The elements in order. The entry method is met again among all methods, which changes
nothing. -/
def elements (program : Program) : (domain : FactDomain) → List domain.kind.Elem
  | methods => program.main.toList ++ program.methodIds
  | invokes => instructionsWhere program Instruction.isInvoke
  | allocations => instructionsWhere program Instruction.isAllocation
  | vars => List.range program.vars.length
  | accesses => instructionsWhere program Instruction.isHeapAccess
  | fields => none :: (List.range program.fields.length).map some
  | locks => instructionsWhere program Instruction.isLock
  | types => List.range program.types.length

/-- The elements of a domain, in the order of the program. -/
def ofProgram (domain : FactDomain) (program : Program) : Domain domain.kind :=
  Domain.ofList domain.name (domain.elements program)

/-- From this verbosity on, domains are also described in reports. -/
def reportingLevel : Nat := 2

def publish (domain : FactDomain) (options : Options) (program : Program) : Step Store Unit := do
  modify (·.putDomain (domain.ofProgram program))
  Store.saveDomain domain.name
  if options.verbose ≥ reportingLevel then
    Store.saveDomainReport domain.name options.outDir program

end FactDomain

/-- The relations that are read off a program. -/
inductive FactRelation where
  /-- `MI(m,i)`: method `m` contains call site `i`. -/
  | methodInvokes
  /-- `MH(m,h)`: method `m` contains allocation site `h`. -/
  | methodAllocations
  /-- `MV(m,v)`: `v` is a variable of `m`. -/
  | methodVariables
  /-- `thisMV(m,v)`: `v` is the receiver of instance method `m`. -/
  | methodReceiver
  /-- `IM(i,m)`: call site `i` may call `m`. -/
  | invokeTargets
  /-- `IinvkArg0(i,v)`: `v` is the receiver at call site `i`. -/
  | invokeReceiver
  /-- `EF(e,f)`: heap access `e` touches field `f`, or array elements. -/
  | accessedField
  /-- `checkCastVT(v,t)`: `v` is cast to `t`. -/
  | castTarget
  deriving DecidableEq, Repr, Inhabited

/-- The index of the method around an instruction, if it has one. -/
def enclosingMethod (program : Program) (methods : Domain .method) (i : InstId) :
    Except Fault (Option Nat) := do
  let instruction ← (program.instruction i).mapError Fault.program
  methods.indexOf instruction.method

namespace FactRelation

def name : FactRelation → String
  | methodInvokes => "MI"
  | methodAllocations => "MH"
  | methodVariables => "MV"
  | methodReceiver => "thisMV"
  | invokeTargets => "IM"
  | invokeReceiver => "IinvkArg0"
  | accessedField => "EF"
  | castTarget => "checkCastVT"

def signature : FactRelation → Signature
  | methodInvokes => ⟨["M0", "I0"], "I0xM0"⟩
  | methodAllocations => ⟨["M0", "H0"], "M0_H0"⟩
  | methodVariables | methodReceiver => ⟨["M0", "V0"], "M0_V0"⟩
  | invokeTargets => ⟨["I0", "M0"], "I0xM0"⟩
  | invokeReceiver => ⟨["I0", "V0"], "I0_V0"⟩
  | accessedField => ⟨["E0", "F0"], "E0_F0"⟩
  | castTarget => ⟨["V0", "T0"], "V0_T0"⟩

/-- The indices of those elements that a domain has, each after a first component. -/
def pairWith {kind : ElementKind} (first : Nat) (domain : Domain kind)
    (elements : List kind.Elem) : Except Fault (List (Nat × Nat)) :=
  elements.filterMapM fun element => do
    return (← domain.indexOf element).map fun index => (first, index)

/-- The sites with the method each lies in. -/
def contained (program : Program) (methods : Domain .method) (sites : Domain .instruction) :
    Except Fault (List (Nat × Nat)) :=
  sites.indexed.filterMapM fun (index, i) => do
    return (← enclosingMethod program methods i).map fun m => (m, index)

/-- The entities that entries of a table mention, for each entry that is numbered. -/
def pairsOf {α : Type} {kind : ElementKind} (entity : Entity) (table : List α)
    (items : List (Nat × Nat)) (domain : Domain kind) (select : α → List kind.Elem) :
    Except Fault (List (Nat × Nat)) := do
  let pairs ← items.mapM fun (index, i) => do
    let entry ← (Program.entry entity table i).mapError Fault.program
    pairWith index domain (select entry)
  return pairs.flatten

/-- The methods a call may reach, replaced through a remap. -/
def targets (program : Program) (remap : Remap) (instruction : Instruction) : List MethodId :=
  match instruction.operation with
  | .invoke targets _ => targets.filterMap (remap.apply program)
  | _ => []

/-- The variable a method is called on. -/
def receiver (instruction : Instruction) : List VarId :=
  match instruction.operation with
  | .invoke _ receiver => receiver.toList
  | _ => []

/-- The pair of a cast, if both ends are numbered. -/
def cast (vars : Domain .var) (types : Domain .type) (instruction : Instruction) :
    Except Fault (Option (Nat × Nat)) := do
  match instruction.operation with
  | .cast var target =>
    let v ← vars.indexOf var
    let t ← types.indexOf target
    return v.bind fun v => t.map fun t => (v, t)
  | _ => return none

/-- The pairs of indices that are related. -/
def pairs (relation : FactRelation) (remap : Remap) (program : Program) (store : Store) :
    Except Fault (List (Nat × Nat)) := do
  match relation with
  | methodInvokes =>
    contained program (← store.domain .method "M") (← store.domain .instruction "I")
  | methodAllocations =>
    contained program (← store.domain .method "M") (← store.domain .instruction "H")
  | methodVariables =>
    let methods ← store.domain .method "M"
    pairsOf .method program.methods methods.indexed (← store.domain .var "V") Method.vars
  | methodReceiver =>
    let methods ← store.domain .method "M"
    pairsOf .method program.methods methods.indexed (← store.domain .var "V") fun method =>
      method.receiver?.toList
  | invokeTargets =>
    let sites ← store.domain .instruction "I"
    pairsOf .instruction program.instructions sites.indexed (← store.domain .method "M")
      (targets program remap)
  | invokeReceiver =>
    let sites ← store.domain .instruction "I"
    pairsOf .instruction program.instructions sites.indexed (← store.domain .var "V") receiver
  | accessedField =>
    let accesses ← store.domain .instruction "E"
    pairsOf .instruction program.instructions accesses.indexed (← store.domain .field "F")
      fun instruction => [instruction.accessedField?]
  | castTarget =>
    let vars ← store.domain .var "V"
    let types ← store.domain .type "T"
    program.instructions.filterMapM (cast vars types)

def publish (relation : FactRelation) (remap : Remap) (program : Program) : Step Store Unit := do
  let pairs ← Store.query (relation.pairs remap program)
  Store.fillRelation relation.name (pairs.map fun pair => [pair.1, pair.2])

end FactRelation

end ProgramAnalysis
