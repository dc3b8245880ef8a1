import ProgramAnalysis.Fault
import ProgramAnalysis.Json.Decode

/-!
Taking a program in: it must have the form of a program, and then every handle must be in range.
-/

namespace ProgramAnalysis

open Json (ofNat ofOption ofList)

/-! ### Kinds of instruction -/

namespace Operation

def kindNames : List String :=
  ["invoke", "new", "new_array", "field_read", "field_write", "array_read", "array_write",
    "static_write", "lock", "cast", "other"]

def kindName : Operation → String
  | invoke .. => "invoke"
  | new .. => "new"
  | newArray .. => "new_array"
  | fieldRead .. => "field_read"
  | fieldWrite .. => "field_write"
  | arrayRead .. => "array_read"
  | arrayWrite .. => "array_write"
  | staticWrite .. => "static_write"
  | lock .. => "lock"
  | cast .. => "cast"
  | other => "other"

/-- The members that describe an operation, its kind first. -/
def members (operation : Operation) : List (String × Json) :=
  ("kind", .string operation.kindName) ::
    match operation with
    | invoke targets receiver =>
      [("targets", ofList ofNat targets), ("receiver", ofOption ofNat receiver)]
    | new result type => [("result", ofNat result), ("class", ofOption ofNat type)]
    | newArray result => [("result", ofNat result)]
    | fieldRead base field | fieldWrite base field =>
      [("base", ofNat base), ("field", ofNat field)]
    | arrayRead base | arrayWrite base => [("base", ofNat base)]
    | staticWrite field => [("field", ofNat field)]
    | lock var => [("variable", ofNat var)]
    | cast var target => [("variable", ofNat var), ("target", ofNat target)]
    | other => []

/-- The name of a kind, written as its name or as its number in the list of names. -/
def kindTag? : Json → Option String
  | .string name => if name ∈ kindNames then some name else none
  | .integer (.ofNat index) => kindNames[index]?
  | _ => none

/-- An operation whose one field is a handle. -/
def ofHandle? (name : String) (make : Nat → Operation) (fields : Json) : Option Operation := do
  let record ← fields.record? [name]
  return make (← record.required? name Json.size?)

/-- An operation whose two fields are handles. -/
def ofHandles? (first second : String) (make : Nat → Nat → Operation) (fields : Json) :
    Option Operation := do
  let record ← fields.record? [first, second]
  return make (← record.required? first Json.size?) (← record.required? second Json.size?)

/-- Reads an operation from its kind and the fields of that kind. -/
def ofFields? (kind : String) (fields : Json) : Option Operation :=
  match kind with
  | "invoke" => do
    let record ← fields.record? ["targets", "receiver"]
    return invoke (← record.required? "targets" (Json.list? Json.size?))
      (← record.withDefault? "receiver" none (Json.nullable? Json.size?))
  | "new" => do
    let record ← fields.record? ["result", "class"]
    return new (← record.required? "result" Json.size?)
      (← record.withDefault? "class" none (Json.nullable? Json.size?))
  | "new_array" => ofHandle? "result" newArray fields
  | "field_read" => ofHandles? "base" "field" fieldRead fields
  | "field_write" => ofHandles? "base" "field" fieldWrite fields
  | "array_read" => ofHandle? "base" arrayRead fields
  | "array_write" => ofHandle? "base" arrayWrite fields
  | "static_write" => ofHandle? "field" staticWrite fields
  | "lock" => ofHandle? "variable" lock fields
  | "cast" => ofHandles? "variable" "target" cast fields
  | "other" => some other
  | _ => none

end Operation

/-! ### Entities -/

namespace Method

def toJson (method : Method) : Json :=
  .object [
    ("signature", .string method.signature),
    ("file", ofOption .string method.file),
    ("line", ofOption ofNat method.line),
    ("is_static", .bool method.isStatic),
    ("is_class_initializer", .bool method.isClassInitializer),
    ("is_abstract", .bool method.isAbstract),
    ("variables", ofList ofNat method.vars),
    ("instructions", ofList ofNat method.instructions)]

def ofJson? (value : Json) : Option Method := do
  let record ← value.record? ["signature", "file", "line", "is_static", "is_class_initializer",
    "is_abstract", "variables", "instructions"]
  return {
    signature := ← record.required? "signature" Json.string?
    file := ← record.withDefault? "file" none (Json.nullable? Json.string?)
    line := ← record.withDefault? "line" none (Json.nullable? Json.word32?)
    isStatic := ← record.withDefault? "is_static" false Json.bool?
    isClassInitializer := ← record.withDefault? "is_class_initializer" false Json.bool?
    isAbstract := ← record.withDefault? "is_abstract" false Json.bool?
    vars := ← record.withDefault? "variables" [] (Json.list? Json.size?)
    instructions := ← record.withDefault? "instructions" [] (Json.list? Json.size?) }

end Method

namespace Instruction

def toJson (instruction : Instruction) : Json :=
  .object (("method", ofNat instruction.method) :: ("line", ofOption ofNat instruction.line) ::
    instruction.operation.members)

/-- How deeply a member that is set aside may be nested. -/
def memberDepth : Nat := 124

def canSetAside (value : Json) : Bool := value.isPlain && value.depth ≤ memberDepth

def ofJson? : Json → Option Instruction
  | .object members => do
    let record ← Json.record? ["method", "line"] (.object members)
    let rest := members.filter fun member => member.1 ≠ "method" && member.1 ≠ "line"
    if rest.any fun member => !canSetAside member.2 then none
    let tag ← Json.record? ["kind"] (.object rest)
    let kind ← tag.required? "kind" Operation.kindTag?
    return {
      method := ← record.required? "method" Json.size?
      line := ← record.withDefault? "line" none (Json.nullable? Json.word32?)
      operation := ← Operation.ofFields? kind (.object (rest.filter (·.1 ≠ "kind"))) }
  | _ => none

end Instruction

namespace Variable

def toJson (var : Variable) : Json :=
  .object [("name", .string var.name), ("method", ofNat var.method)]

def ofJson? (value : Json) : Option Variable := do
  let record ← value.record? ["name", "method"]
  return {
    name := ← record.required? "name" Json.string?
    method := ← record.required? "method" Json.size? }

end Variable

namespace Field

def toJson (field : Field) : Json :=
  .object [("name", .string field.name), ("class", ofOption ofNat field.owner)]

def ofJson? (value : Json) : Option Field := do
  let record ← value.record? ["name", "class"]
  return {
    name := ← record.required? "name" Json.string?
    owner := ← record.withDefault? "class" none (Json.nullable? Json.size?) }

end Field

namespace TypeName

def toJson (type : TypeName) : Json := .object [("name", .string type.name)]

def ofJson? (value : Json) : Option TypeName := do
  let record ← value.record? ["name"]
  return { name := ← record.required? "name" Json.string? }

end TypeName

/-! ### Programs -/

namespace Program

def toJson (program : Program) : Json :=
  .object [
    ("main", ofOption ofNat program.main),
    ("methods", ofList Method.toJson program.methods),
    ("instructions", ofList Instruction.toJson program.instructions),
    ("variables", ofList Variable.toJson program.vars),
    ("fields", ofList Field.toJson program.fields),
    ("types", ofList TypeName.toJson program.types)]

def ofJson? (value : Json) : Option Program := do
  let record ← value.record? ["main", "methods", "instructions", "variables", "fields", "types"]
  return {
    main := ← record.optional? "main" Json.size?
    methods := ← record.withDefault? "methods" [] (Json.list? Method.ofJson?)
    instructions := ← record.withDefault? "instructions" [] (Json.list? Instruction.ofJson?)
    vars := ← record.withDefault? "variables" [] (Json.list? Variable.ofJson?)
    fields := ← record.withDefault? "fields" [] (Json.list? Field.ofJson?)
    types := ← record.withDefault? "types" [] (Json.list? TypeName.ofJson?) }

end Program

end ProgramAnalysis

namespace ProgramAnalysis.Program

/-- The program a value stands for, if its handles are in range. -/
def accept (value : Json) : Except Fault Program :=
  match ofJson? value with
  | none => .error .json
  | some program =>
    match program.validate with
    | .ok _ => .ok program
    | .error fault => .error (.program fault)

/-- Reads a program. -/
def ofText (text : String) : Except Fault Program :=
  match Json.read? text with
  | none => .error .json
  | some value => accept value

end ProgramAnalysis.Program
