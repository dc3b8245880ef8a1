import ProgramAnalysis.Text.Basic

/-!
Signatures of relations.
-/

namespace ProgramAnalysis

/-- Why a list of columns and an order do not make a signature. -/
inductive SignatureFault where
  | badColumn (column : String)
  | repeatedColumn (column : String)
  | unknownInOrder (order column : String)
  | repeatedInOrder (order column : String)
  | uncovered (order : String)
  | noOrder (text : String)
  deriving DecidableEq, Repr

namespace SignatureFault

def message : SignatureFault → String
  | badColumn column => "bad minor domain name " ++ column ++ " in signature"
  | repeatedColumn column => "domain " ++ column ++ " repeated in signature"
  | unknownInOrder order column => "order " ++ order ++ " names unknown domain " ++ column
  | repeatedInOrder order column => "order " ++ order ++ " names " ++ column ++ " twice"
  | uncovered order => "order " ++ order ++ " does not cover every column"
  | noOrder text => "signature " ++ text ++ " has no order"

end SignatureFault

/-- The columns of a relation and their physical order. -/
structure Signature where
  columns : List String
  order : String
  deriving DecidableEq, Repr, Inhabited

namespace Signature

/-! ### Column names -/

/-- The characters of a column name without its trailing ASCII digits. -/
def majorChars (cs : List Char) : List Char :=
  (cs.reverse.dropWhile Char.isDigit).reverse

/-- The domain of a column: its name without the trailing ASCII digits. -/
def major (column : String) : String :=
  String.ofList (majorChars column.toList)

/-- Whether a name is a domain name followed by at least one digit. -/
def isColumn (name : String) : Bool :=
  major name ≠ "" && major name ≠ name

def orderNames (order : String) : List String :=
  ((Text.pieces (fun c => c == '_' || c == 'x') order.toList).filter (· ≠ [])).map String.ofList

/-! ### Making a signature -/

/-- Checks the columns from the left, given those already accepted. -/
def checkColumns (accepted : List String) : List String → Except SignatureFault Unit
  | [] => .ok ()
  | column :: rest =>
    if !isColumn column then .error (.badColumn column)
    else if column ∈ accepted then .error (.repeatedColumn column)
    else checkColumns (accepted ++ [column]) rest

/-- Checks the names of an order from the left, given those already met. -/
def checkOrder (columns : List String) (order : String) (met : List String) :
    List String → Except SignatureFault Unit
  | [] => if met.length = columns.length then .ok () else .error (.uncovered order)
  | name :: rest =>
    if name ∉ columns then .error (.unknownInOrder order name)
    else if name ∈ met then .error (.repeatedInOrder order name)
    else checkOrder columns order (met ++ [name]) rest

/-- Checks the columns and the order. -/
def make (columns : List String) (order : String) : Except SignatureFault Signature := do
  checkColumns [] columns
  checkOrder columns order [] (orderNames order)
  return ⟨columns, order⟩

/-- The signature whose order lists the columns as they stand, none interleaved. -/
def sequential (columns : List String) : Except SignatureFault Signature :=
  make columns ("_".intercalate columns)

/-- Reads the written form. Blanks around the column names and the order are dropped. -/
def parse (text : String) : Except SignatureFault Signature :=
  match Text.cutAt? ':' text with
  | none => .error (.noOrder text)
  | some (columns, order) => make ((Text.splitAt ',' columns).map Text.trim) (Text.trim order)

/-! ### Parts of a signature -/

def render (signature : Signature) : String :=
  ",".intercalate signature.columns ++ ":" ++ signature.order

def arity (signature : Signature) : Nat := signature.columns.length

/-- The domain of each column. -/
def domains (signature : Signature) : List String := signature.columns.map major

end Signature

end ProgramAnalysis
