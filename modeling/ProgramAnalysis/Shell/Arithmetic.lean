import ProgramAnalysis.Shell.Pattern

/-!
Arithmetic expressions and the modes of files.
-/

namespace ProgramAnalysis.Shell

def wrap (n : Int) : Int := Int.bmod n 18446744073709551616

def largest : Nat := 9223372036854775807

inductive Operator where
  | add | subtract | multiply | divide | remainder
  | shiftLeft | shiftRight
  | less | lessEqual | greater | greaterEqual | equal | different
  | bitAnd | bitXor | bitOr
  | both | either
  deriving DecidableEq

inductive Expression where
  | number (n : Int)
  | name (s : String)
  | negate (e : Expression)
  | complement (e : Expression)
  | not (e : Expression)
  | binary (operator : Operator) (left right : Expression)
  | choose (condition yes no : Expression)
  | assign (s : String) (operator : Option Operator) (e : Expression)

namespace Operator

def rank : Operator → Nat
  | multiply | divide | remainder => 10
  | add | subtract => 9
  | shiftLeft | shiftRight => 8
  | less | lessEqual | greater | greaterEqual => 7
  | equal | different => 6
  | bitAnd => 5
  | bitXor => 4
  | bitOr => 3
  | both => 2
  | either => 1

def spellings : List (String × Operator) :=
  [("<<", shiftLeft), (">>", shiftRight), ("<=", lessEqual), (">=", greaterEqual), ("==", equal),
    ("!=", different), ("&&", both), ("||", either), ("<", less), (">", greater), ("+", add),
    ("-", subtract), ("*", multiply), ("/", divide), ("%", remainder), ("&", bitAnd),
    ("^", bitXor), ("|", bitOr)]

def read? (text : Chars) : Option (Operator × Chars) :=
  spellings.findSome? fun (spelling, operator) =>
    (spelling.toList.isPrefixOf? text).map (operator, ·)

def canAssign (operator : Operator) : Bool :=
  operator.rank ≥ 8 || operator = bitAnd || operator = bitXor || operator = bitOr

def apply (operator : Operator) (a b : Int) : Option Int :=
  let ofBool (condition : Bool) : Int := if condition then 1 else 0
  let left := Int64.ofInt a
  let right := Int64.ofInt b
  let power := Int.ofNat (Nat.pow 2 (b % 64).toNat)
  if (operator = divide ∨ operator = remainder) ∧ b = 0 then none
  else some (match operator with
    | add => wrap (a + b)
    | subtract => wrap (a - b)
    | multiply => wrap (a * b)
    | divide => wrap (a.tdiv b)
    | remainder => wrap (a.tmod b)
    | shiftLeft => wrap (a * power)
    | shiftRight => a.fdiv power
    | less => ofBool (a < b)
    | lessEqual => ofBool (a ≤ b)
    | greater => ofBool (a > b)
    | greaterEqual => ofBool (a ≥ b)
    | equal => ofBool (a = b)
    | different => ofBool (a ≠ b)
    | bitAnd => (left &&& right).toInt
    | bitXor => (left ^^^ right).toInt
    | bitOr => (left ||| right).toInt
    | both => ofBool (a ≠ 0 && b ≠ 0)
    | either => ofBool (a ≠ 0 || b ≠ 0))

end Operator

/-! ### Numbers -/

def readNatural (text : Chars) : Nat × Chars :=
  let digits (base : Nat) (text : Chars) : Nat × Chars :=
    (digitsValue base (text.takeWhile (digitValue · < base)), text.dropWhile (digitValue · < base))
  match text with
  | '0' :: x :: c :: rest =>
    if (x = 'x' ∨ x = 'X') ∧ digitValue c < 16 then digits 16 (c :: rest) else digits 8 text
  | '0' :: _ => digits 8 text
  | _ => digits 10 text

def signOf : Chars → Bool × Chars
  | '-' :: rest => (true, rest)
  | '+' :: rest => (false, rest)
  | chars => (false, chars)

def readInteger? (text : Chars) : Option (Int × Chars) :=
  let (isNegative, digits) := signOf (text.dropWhile isSpace)
  let (size, rest) := readNatural digits
  if digits.head?.any Char.isDigit then some (if isNegative then -size else size, rest) else none

def integer? (text : String) : Option Int := do
  if text.toList.all isSpace then return 0
  let (value, rest) ← readInteger? text.toList
  if rest.all isSpace then some (max (-largest - 1) (min largest value)) else none

/-! ### Reading -/

abbrev ExpressionReader (α : Type) := EStateM String Chars α

namespace ExpressionReader

def rest : ExpressionReader Chars := do
  modify (List.dropWhile isGap)
  get

def expect (c : Char) : ExpressionReader Unit := do
  if (← rest).head? = some c then modify List.tail
  else throw ("expecting '" ++ String.singleton c ++ "'")

def assignment? (text : Chars) : Option (Option Operator × Chars) :=
  match text with
  | '=' :: '=' :: _ => none
  | '=' :: later => some (none, later)
  | _ =>
    match Operator.read? text with
    | some (operator, '=' :: later) =>
      if operator.canAssign then some (some operator, later) else none
    | _ => none

mutual

def primary : Nat → ExpressionReader Expression
  | 0 => throw "expecting primary"
  | fuel + 1 => do
    match ← rest with
    | '(' :: later =>
      set later
      let inner ← full fuel
      expect ')'
      return inner
    | '-' :: later =>
      set later
      return .negate (← primary fuel)
    | '+' :: later =>
      set later
      primary fuel
    | '~' :: later =>
      set later
      return .complement (← primary fuel)
    | '!' :: later =>
      set later
      return .not (← primary fuel)
    | text =>
      let (name, later) := text.span fun c => c.isAlphanum || c == '_'
      if text.head?.any Char.isDigit then
        let (value, later) := readNatural text
        set later
        return .number (min value largest)
      if name.isEmpty then throw "expecting primary"
      set later
      let some (operator, after) := assignment? (← rest) | return .name (String.ofList name)
      set after
      return .assign (String.ofList name) operator (← full fuel)

def operators : Nat → Nat → Expression → ExpressionReader Expression
  | 0, _, left => return left
  | fuel + 1, least, left => do
    match Operator.read? (← rest) with
    | none => return left
    | some (operator, later) =>
      if operator.rank < least ∨ (later.head? = some '=' ∧ operator.canAssign) then return left
      else
        set later
        let right ← operators fuel (operator.rank + 1) (← primary fuel)
        operators fuel least (.binary operator left right)

def full : Nat → ExpressionReader Expression
  | 0 => throw "expecting primary"
  | fuel + 1 => do
    let condition ← operators fuel 1 (← primary fuel)
    match ← rest with
    | '?' :: later =>
      set later
      let yes ← full fuel
      expect ':'
      return .choose condition yes (← full fuel)
    | _ => return condition

end

end ExpressionReader

def Expression.ofText (text : String) : Except String Expression :=
  let reader : ExpressionReader Expression := do
    let expression ← ExpressionReader.full (3 * text.length + 3)
    if !(← ExpressionReader.rest).isEmpty then throw "expecting EOF"
    return expression
  valueOf (reader text.toList)

namespace Mode

def without (mode other : Nat) : Nat := mode - (mode &&& other)

def who : Char → Nat
  | 'u' => 0o4700
  | 'g' => 0o2070
  | 'o' => 0o1007
  | _ => 0o7777

def permission (old : Nat) (isFolder : Bool) : Char → Option Nat
  | 'r' => some 0o444
  | 'w' => some 0o222
  | 'x' => some 0o111
  | 'X' => some (if isFolder || old &&& 0o111 ≠ 0 then 0o111 else 0)
  | 's' => some 0o6000
  | 't' => some 0o1000
  | 'u' => some ((old / 64 % 8) * 73)
  | 'g' => some ((old / 8 % 8) * 73)
  | 'o' => some ((old % 8) * 73)
  | _ => none

def lasting (isFolder : Bool) (mentioned : Nat) : Nat :=
  if isFolder then without 0o6000 mentioned else 0

def operate (operator : Char) (places : Option Nat) (mask : Nat) (isFolder : Bool)
    (bits mentioned mode : Nat) : Option Nat :=
  let kept := lasting isFolder mentioned
  let chosen := without (match places with
    | some places => bits &&& places
    | none => without bits mask) kept
  match operator with
  | '+' => some (mode ||| chosen)
  | '-' => some (without mode chosen)
  | '=' => some (without mode (without (places.getD 0o7777) kept) ||| chosen)
  | _ => none

def operations (places : Option Nat) (mask : Nat) (isFolder : Bool) : Nat → Chars → Nat → Option Nat
  | 0, _, _ => none
  | _ + 1, [], mode => some mode
  | fuel + 1, operator :: rest, mode =>
    let meant := rest.takeWhile fun c => c ≠ '+' && c ≠ '-' && c ≠ '='
    let later := rest.drop meant.length
    if !meant.isEmpty ∧ meant.all (digitValue · < 8) then
      let value := digitsValue 8 meant
      if places.isSome ∨ value > 0o7777 ∨ !later.isEmpty then none
      else operate operator (some 0o7777) 0 isFolder value 0o7777 mode
    else
      match meant.mapM (permission mode isFolder) with
      | none => none
      | some bits =>
        let bits := bits.foldl (· ||| ·) 0
        let mentioned := bits &&& places.getD 0o7777
        (operate operator places mask isFolder bits mentioned mode).bind
          (operations places mask isFolder fuel later)

def clause (mask : Nat) (isFolder : Bool) (text : Chars) (mode : Nat) : Option Nat :=
  let names := text.takeWhile fun c => "ugoa".toList.contains c
  let rest := text.drop names.length
  let places := if names.isEmpty then none else some ((names.map who).foldl (· ||| ·) 0)
  if rest.isEmpty then none else operations places mask isFolder (rest.length + 1) rest mode

def changed? (mask : Nat) (isFolder : Bool) (text : String) (mode : Nat) : Option Nat :=
  let chars := text.toList
  if chars.isEmpty then none
  else if chars.all (digitValue · < 8) then
    let value := digitsValue 8 chars
    let kept := if chars.length < 5 then lasting isFolder value else 0
    if value ≤ 0o7777 then some (value ||| (mode &&& kept)) else none
  else
    (Text.splitAt ',' text).foldl (fun mode part =>
      mode.bind (clause mask isFolder part.toList)) (some mode)

def octal (mode : Nat) : String := String.ofList (Nat.toDigits 8 mode)

def letters (bits : Nat) : String :=
  String.ofList ((['r', 'w', 'x'].zip [4, 2, 1]).map fun (c, bit) =>
    if bits / bit % 2 = 1 then c else '-')

def inLetters (mode : Nat) : String :=
  letters (mode / 64) ++ letters (mode / 8) ++ letters mode

end Mode

end ProgramAnalysis.Shell
