import ProgramAnalysis.Text.Basic

/-!
The program under analysis: methods, instructions, variables, fields and types, each addressed by a
handle, which is its index in the program's table of such entities.
-/

namespace ProgramAnalysis

abbrev MethodId := Nat
abbrev InstId := Nat
abbrev VarId := Nat
abbrev FieldId := Nat
abbrev TypeId := Nat

/-- What handles stand for. -/
inductive Entity where
  | method
  | instruction
  | var
  | field
  | type
  deriving DecidableEq, Repr

namespace Entity

def name : Entity → String
  | method => "method"
  | instruction => "instruction"
  | var => "variable"
  | field => "field"
  | type => "type"

def letter : Entity → String
  | method => "m"
  | instruction => "i"
  | var => "v"
  | field => "f"
  | type => "t"

/-- A handle as it is shown to people, such as `m3`. -/
def showHandle (entity : Entity) (index : Nat) : String := entity.letter ++ toString index

end Entity

/-- What is wrong with a program, or with a handle used on it. -/
inductive ProgramFault where
  | outOfRange (entity : Entity) (index count : Nat)
  | missing (entity : Entity) (index : Nat)
  deriving DecidableEq, Repr

namespace ProgramFault

def message : ProgramFault → String
  | outOfRange entity index count =>
    entity.name ++ " handle " ++ toString index ++ " out of range (" ++ toString count ++
      " defined)"
  | missing entity index => "no " ++ entity.name ++ " " ++ entity.showHandle index

end ProgramFault

/-! ### Entities -/

/-- A method. `vars` are its reference-typed locals; in an instance method the first of them
is the receiver. -/
structure Method where
  signature : String
  file : Option String := none
  line : Option Nat := none
  isStatic : Bool := false
  isClassInitializer : Bool := false
  isAbstract : Bool := false
  vars : List VarId := []
  instructions : List InstId := []
  deriving DecidableEq, Repr, Inhabited

/-- The variable that holds the object a method is called on. -/
def Method.receiver? (method : Method) : Option VarId :=
  if method.isStatic then none else method.vars.head?

/-- What an instruction does. The targets of a call are the methods it may resolve to. -/
inductive Operation where
  | invoke (targets : List MethodId) (receiver : Option VarId)
  | new (result : VarId) (type : Option TypeId)
  | newArray (result : VarId)
  | fieldRead (base : VarId) (field : FieldId)
  | fieldWrite (base : VarId) (field : FieldId)
  | arrayRead (base : VarId)
  | arrayWrite (base : VarId)
  | staticWrite (field : FieldId)
  | lock (var : VarId)
  | cast (var : VarId) (target : TypeId)
  | other
  deriving DecidableEq, Repr, Inhabited

/-- An instruction, in the method that contains it. -/
structure Instruction where
  method : MethodId
  line : Option Nat := none
  operation : Operation
  deriving DecidableEq, Repr, Inhabited

namespace Instruction

def isInvoke (instruction : Instruction) : Bool :=
  match instruction.operation with
  | .invoke .. => true
  | _ => false

def isAllocation (instruction : Instruction) : Bool :=
  match instruction.operation with
  | .new .. | .newArray .. => true
  | _ => false

def isHeapAccess (instruction : Instruction) : Bool :=
  match instruction.operation with
  | .fieldRead .. | .fieldWrite .. | .arrayRead .. | .arrayWrite .. => true
  | _ => false

def isLock (instruction : Instruction) : Bool :=
  match instruction.operation with
  | .lock .. => true
  | _ => false

/-- The field a heap access touches; array elements are no field. -/
def accessedField? (instruction : Instruction) : Option FieldId :=
  match instruction.operation with
  | .fieldRead _ field | .fieldWrite _ field => some field
  | _ => none

end Instruction

/-- A local variable of a method. -/
structure Variable where
  name : String
  method : MethodId
  deriving DecidableEq, Repr, Inhabited

/-- A field, with the type that owns it if there is one. -/
structure Field where
  name : String
  owner : Option TypeId := none
  deriving DecidableEq, Repr, Inhabited

structure TypeName where
  name : String
  deriving DecidableEq, Repr, Inhabited

/-- All entities, each at the index that is its handle. -/
structure Program where
  main : Option MethodId := none
  methods : List Method := []
  instructions : List Instruction := []
  vars : List Variable := []
  fields : List Field := []
  types : List TypeName := []
  deriving DecidableEq, Repr, Inhabited

/-! ### Handles in range -/

/-- The handles an operation uses. -/
def Operation.handles : Operation → List (Entity × Nat)
  | .invoke targets receiver =>
    targets.map (.method, ·) ++ receiver.toList.map (.var, ·)
  | .new result type => (.var, result) :: type.toList.map (.type, ·)
  | .newArray result => [(.var, result)]
  | .fieldRead base field | .fieldWrite base field => [(.var, base), (.field, field)]
  | .arrayRead base | .arrayWrite base => [(.var, base)]
  | .staticWrite field => [(.field, field)]
  | .lock var => [(.var, var)]
  | .cast var target => [(.var, var), (.type, target)]
  | .other => []

namespace Program

/-- How many entities of a sort there are. -/
def count (program : Program) : Entity → Nat
  | .method => program.methods.length
  | .instruction => program.instructions.length
  | .var => program.vars.length
  | .field => program.fields.length
  | .type => program.types.length

/-- Every handle that must be in range, in the order of checking. The owner of a field is not
among them. -/
def handles (program : Program) : List (Entity × Nat) :=
  program.main.toList.map (.method, ·) ++
    (program.methods.flatMap fun method =>
      method.vars.map (.var, ·) ++ method.instructions.map (.instruction, ·)) ++
    program.vars.map (fun var => (.method, var.method)) ++
    (program.instructions.flatMap fun instruction =>
      (.method, instruction.method) :: instruction.operation.handles)

/-- Every handle is in range. -/
def Valid (program : Program) : Prop :=
  ∀ handle ∈ program.handles, handle.2 < program.count handle.1

instance (program : Program) : Decidable program.Valid :=
  inferInstanceAs (Decidable (∀ handle ∈ program.handles, handle.2 < program.count handle.1))

/-- Reports the first handle out of range. -/
def validate (program : Program) : Except ProgramFault Unit :=
  match program.handles.find? fun handle => !decide (handle.2 < program.count handle.1) with
  | none => .ok ()
  | some (entity, index) => .error (.outOfRange entity index (program.count entity))

/-! ### Looking entities up -/

/-- The entry of a table, or the fault that there is none. -/
def entry {α : Type} (entity : Entity) (table : List α) (index : Nat) : Except ProgramFault α :=
  match table[index]? with
  | some a => .ok a
  | none => .error (.missing entity index)

def method (program : Program) (m : MethodId) : Except ProgramFault Method :=
  entry .method program.methods m

def instruction (program : Program) (i : InstId) : Except ProgramFault Instruction :=
  entry .instruction program.instructions i

def var (program : Program) (v : VarId) : Except ProgramFault Variable :=
  entry .var program.vars v

def field (program : Program) (f : FieldId) : Except ProgramFault Field :=
  entry .field program.fields f

def typeName (program : Program) (t : TypeId) : Except ProgramFault TypeName :=
  entry .type program.types t

def methodIds (program : Program) : List MethodId := List.range program.methods.length

def numberedInstructions (program : Program) : List (InstId × Instruction) :=
  (List.range program.instructions.length).zip program.instructions

/-- The first method with a signature. -/
def methodBySignature? (program : Program) (signature : String) : Option MethodId :=
  program.methods.findIdx? (·.signature = signature)

/-- Where execution may begin: the entry method, then every other class initializer. -/
def roots (program : Program) : List MethodId :=
  program.main.toList ++
    ((program.methodIds.zip program.methods).filter fun entry =>
      entry.2.isClassInitializer && some entry.1 ≠ program.main).map (·.1)

end Program

end ProgramAnalysis

namespace ProgramAnalysis.Program

/-- A line number, or nothing for an unknown one. -/
def showLine (line : Option Nat) : String := (line.map toString).getD ""

/-- The attributes of a method, empty for a handle out of range. The signature is escaped, the file
name is not. -/
def methodAttributes (program : Program) (m : MethodId) : String :=
  match program.methods[m]? with
  | none => ""
  | some method =>
    "sign=\"" ++ Text.escape method.signature ++ "\" file=\"" ++ method.file.getD "" ++
      "\" line=\"" ++ showLine method.line ++ "\""

/-- The attributes of an instruction, empty for a handle out of range. -/
def instructionAttributes (program : Program) (i : InstId) : String :=
  match program.instructions[i]? with
  | none => ""
  | some instruction =>
    "line=\"" ++ showLine instruction.line ++ "\" Mid=\"M" ++ toString instruction.method ++ "\""

/-- An instruction as `line@method`, with a question mark for what is unknown. -/
def describeInstruction (program : Program) (i : InstId) : String :=
  match program.instructions[i]? with
  | none => Entity.instruction.showHandle i
  | some instruction =>
    let line := (instruction.line.map toString).getD "?"
    let method := (program.methods[instruction.method]?.map (·.signature)).getD "?"
    line ++ "@" ++ method

end ProgramAnalysis.Program
