import ProgramAnalysis.Context

/-!
What domains number.
-/

namespace ProgramAnalysis

/-- What the elements of a domain are. -/
inductive ElementKind where
  | method
  | instruction
  | var
  | type
  | field
  | text
  | context
  deriving DecidableEq, Repr

namespace ElementKind

abbrev Elem : ElementKind → Type
  | method => MethodId
  | instruction => InstId
  | var => VarId
  | type => TypeId
  | field => Option FieldId
  | text => String
  | context => Context

instance (kind : ElementKind) : DecidableEq kind.Elem :=
  match kind with
  | method | instruction | var | type => inferInstanceAs (DecidableEq Nat)
  | field => inferInstanceAs (DecidableEq (Option Nat))
  | text => inferInstanceAs (DecidableEq String)
  | context => inferInstanceAs (DecidableEq (List Nat))

/-- An element as a line of a file. -/
def encode : (kind : ElementKind) → kind.Elem → String
  | method, handle | instruction, handle | var, handle | type, handle => toString (handle : Nat)
  | field, none => "-"
  | field, some handle => toString (handle : Nat)
  | text, s => s
  | context, sites => Context.encode sites

/-- Reads a handle, blanks around it dropped. -/
def decodeHandle (line : String) : Except Fault Nat :=
  (Numeral.readSize (Text.trim line)).mapError Fault.numeral

/-- Reads an element back. -/
def decode : (kind : ElementKind) → String → Except Fault kind.Elem
  | method, line | instruction, line | var, line | type, line => decodeHandle line
  | field, line => if Text.trim line = "-" then .ok none else (decodeHandle line).map some
  | text, line => .ok line
  | context, line => Context.decode line

/-- The attributes of an element in a report. Only methods, instructions and contexts have any. -/
def attributes (program : Program) : (kind : ElementKind) → kind.Elem → String
  | method, m => program.methodAttributes m
  | instruction, i => program.instructionAttributes i
  | context, sites => Context.attributes program sites
  | var, _ | type, _ | field, _ | text, _ => ""

end ElementKind

end ProgramAnalysis
