import ProgramAnalysis.Signature
import ProgramAnalysis.Text.Alphanumeric

/-!
The header of a Datalog program.
-/

namespace ProgramAnalysis

/-- What is wrong with a line. -/
inductive DatalogCause where
  | missingName
  | malformed (line : String)
  | badRelation (line : String)
  | noDomain (column relation : String)
  | badDomain (domain relation : String)
  | repeatedDomain (column relation : String)
  | uncovered (order relation : String)
  | signature (fault : SignatureFault)
  deriving DecidableEq, Repr

namespace DatalogCause

def message : DatalogCause → String
  | missingName => "missing `# name=` header"
  | malformed line => "malformed relation declaration `" ++ line ++ "`"
  | badRelation line => "bad relation name in `" ++ line ++ "`"
  | noDomain column relation => "column `" ++ column ++ "` of " ++ relation ++ " has no domain"
  | badDomain domain relation => "bad domain `" ++ domain ++ "` in " ++ relation
  | repeatedDomain column relation => "domain " ++ column ++ " used twice in " ++ relation
  | uncovered order relation =>
    "variable order " ++ order ++ " does not cover the columns of " ++ relation
  | signature fault => fault.message

end DatalogCause

/-- A fault, and the line of the program it is in. -/
structure DatalogFault where
  file : String
  line : Nat
  cause : DatalogCause
  deriving DecidableEq, Repr

namespace Datalog

/-! ### Declarations -/

/-- A relation the program declares, before its order is known. -/
structure Declaration where
  name : String
  columns : List String
  output : Bool
  deriving DecidableEq, Repr

/-- Whether a text is a name: letters and digits of any script, and underscores. -/
def isName (s : String) : Bool :=
  s ≠ "" && s.toList.all fun c => Text.isAlphanumeric c || c == '_'

/-- The first number whose column of `domain` is not taken. -/
def freeNumber (domain : String) (taken : List String) : Nat :=
  ((List.range (taken.length + 1)).find? fun n => domain ++ toString n ∉ taken).getD 0

/-- The column a written domain stands for: itself if it carries a number, else with the first
free one. -/
def columnOf (domain : String) (taken : List String) : String :=
  if Signature.major domain = domain then domain ++ toString (freeNumber domain taken) else domain

/-- Reads columns written `name:domain`, giving a number to a domain written without one. -/
def readColumns (relation : String) (taken : List String) :
    List String → Except DatalogCause (List String)
  | [] => .ok taken
  | written :: rest =>
    match Text.cutAt? ':' written with
    | none => .error (.noDomain written relation)
    | some (_, domain) =>
      if !isName domain then .error (.badDomain domain relation)
      else
        let column := columnOf domain taken
        if column ∈ taken then .error (.repeatedDomain column relation)
        else readColumns relation (taken ++ [column]) rest

/-- The declaration without its last word, and whether that word was `output`. -/
def direction? (written : String) : Option (Bool × String) :=
  match Text.dropEnd? "output" written with
  | some head => some (true, head)
  | none => (Text.dropEnd? "input" written).map fun head => (false, head)

/-- Reads a line as a declaration; a line that is no declaration, such as a fact, gives `none`.
Blanks within the line do not matter. -/
def readDeclaration (line : String) : Except DatalogCause (Option Declaration) :=
  match direction? (Text.compact line) with
  | none => .ok none
  | some (output, head) =>
    match Text.cutAt? '(' head with
    | none => .ok none
    | some (name, rest) =>
      match Text.dropEnd? ")" rest with
      | none => .error (.malformed line)
      | some columns =>
        if !isName name then .error (.badRelation line)
        else do
          let columns ← readColumns name [] (Text.splitAt ',' columns)
          return some ⟨name, columns, output⟩

/-! ### Orders -/

/-- The groups of an order: between underscores, the names between crosses. -/
def orderGroups (order : String) : List (List String) :=
  (Text.splitAt '_' order).map (Text.splitAt 'x')

/-- What is left of the groups of an order on some columns. -/
def restrictGroups (columns : List String) (groups : List (List String)) : List (List String) :=
  (groups.map fun group => group.filter (· ∈ columns)).filter (· ≠ [])

/-- An order restricted to some columns, if it names as many of them as there are. -/
def restrictOrder? (order : String) (columns : List String) : Option String :=
  let groups := restrictGroups columns (orderGroups order)
  if groups.flatten.length = columns.length then
    some ("_".intercalate (groups.map fun group => "x".intercalate group))
  else
    none

/-! ### Headers -/

/-- What one line of a program contributes to its header. -/
inductive Entry where
  | name (text : String)
  | order (text : String)
  | declaration (declared : Declaration)
  | nothing
  deriving DecidableEq, Repr

namespace Entry

def name? : Entry → Option String
  | name text => some text
  | _ => none

def order? : Entry → Option String
  | order text => some text
  | _ => none

def declared? : Entry → Option Declaration
  | declaration declared => some declared
  | _ => none

end Entry

/-- Rules, blank lines, comments and other directives contribute nothing. -/
def readLine (line : String) : Except DatalogCause Entry :=
  let line := Text.trim line
  match Text.dropStart? "#" line with
  | some comment =>
    match Text.dropStart? "name=" (Text.trim comment) with
    | some name => .ok (.name (Text.trim name))
    | none => .ok .nothing
  | none =>
    match Text.dropStart? ".bddvarorder" line with
    | some order => .ok (.order (Text.trim order))
    | none =>
      if line = "" || (Text.dropStart? "." line).isSome || Text.holds ":-" line then .ok .nothing
      else do
        match ← readDeclaration line with
        | some declared => return .declaration declared
        | none => return .nothing

/-- A Datalog program as a task: its name, where it is, its variable order, the domains of its
relations, and the relations it reads and writes. -/
structure Header where
  name : String
  file : String
  order : Option String
  domains : List String
  inputs : List (String × Signature)
  outputs : List (String × Signature)
  deriving DecidableEq, Repr, Inhabited

/-- Reads every line, keeping the number of each. -/
def readLines (file : String) (number : Nat) :
    List String → Except DatalogFault (List (Nat × Entry))
  | [] => .ok []
  | line :: rest =>
    match readLine line with
    | .error cause => .error ⟨file, number, cause⟩
    | .ok entry => do return (number, entry) :: (← readLines file (number + 1) rest)

/-- The order of a declared relation: the program's variable order restricted to its columns, or the
columns as they stand if there is none. -/
def orderFor (order : Option String) (declared : Declaration) : Except DatalogCause String :=
  match order with
  | none => .ok ("_".intercalate declared.columns)
  | some order =>
    match restrictOrder? order declared.columns with
    | some restricted => .ok restricted
    | none => .error (.uncovered order declared.name)

/-- A declared relation has to fit the variable order of the program. -/
def signatureOf (order : Option String) (declared : Declaration) :
    Except DatalogCause Signature := do
  let restricted ← orderFor order declared
  (Signature.make declared.columns restricted).mapError .signature

/-- The declared relations with their signatures and directions, in textual order. -/
def signatures (file : String) (order : Option String) :
    List (Nat × Declaration) → Except DatalogFault (List (Bool × String × Signature))
  | [] => .ok []
  | (number, declared) :: rest =>
    match signatureOf order declared with
    | .error cause => .error ⟨file, number, cause⟩
    | .ok signature => do
      return (declared.output, declared.name, signature) :: (← signatures file order rest)

/-- Reads the header of a program. The last name and the last variable order count. -/
def parse (file text : String) : Except DatalogFault Header := do
  let entries ← readLines file 1 (Text.lines text)
  let names := entries.filterMap fun entry => entry.2.name?
  let orders := entries.filterMap fun entry => entry.2.order?
  let declared := entries.filterMap fun entry => entry.2.declared?.map (entry.1, ·)
  match names.getLast? with
  | none => throw ⟨file, 1, .missingName⟩
  | some name =>
    let relations ← signatures file orders.getLast? declared
    return {
      name
      file
      order := orders.getLast?
      domains := (relations.flatMap fun relation => relation.2.2.domains).eraseDups
      inputs := (relations.filter (!·.1)).map (·.2)
      outputs := (relations.filter (·.1)).map (·.2) }

namespace Header

/-- The domains of all columns, then the relations read. -/
def consumes (header : Header) : List String :=
  header.domains ++ header.inputs.map (·.1)

def produces (header : Header) : List String := header.outputs.map (·.1)

def relations (header : Header) : List (String × Signature) := header.inputs ++ header.outputs

end Header

end Datalog

end ProgramAnalysis
