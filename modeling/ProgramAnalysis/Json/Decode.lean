import ProgramAnalysis.Text.Basic

/-!
JSON text: its words, the values it stands for, and what is made of them.
-/

namespace ProgramAnalysis

/-- A JSON value. `decimal` is a number literal with a fraction or an exponent, or one that no
64-bit integer can hold, standing for about `significand * 10 ^ exponent`; `unpaired` is a string
that holds half of a surrogate pair, which no text can hold, or an object with such a string for a
key. -/
inductive Json where
  | null
  | bool (value : Bool)
  | integer (value : Int)
  | decimal (significand : Nat) (exponent : Int)
  | string (text : String)
  | unpaired
  | array (items : List Json)
  | object (members : List (String × Json))
  deriving Inhabited

namespace Json

/-! ### Writing -/

def hexDigits (n : Nat) : List Char :=
  [n / 4096 % 16, n / 256 % 16, n / 16 % 16, n % 16].map Nat.digitChar

def quoteChar (c : Char) : List Char :=
  if c = '"' then ['\\', '"']
  else if c = '\\' then ['\\', '\\']
  else if c.toNat < 32 then '\\' :: 'u' :: hexDigits c.toNat
  else [c]

def quote (s : String) : String :=
  "\"" ++ String.ofList (s.toList.flatMap quoteChar) ++ "\""

mutual

/-- The value as JSON text without blanks. -/
def render : Json → String
  | null => "null"
  | bool true => "true"
  | bool false => "false"
  | integer value => toString value
  | decimal significand exponent => toString significand ++ "e" ++ toString exponent
  | string text => quote text
  | unpaired => "\"\\ud800\""
  | array items => "[" ++ ",".intercalate (renderItems items) ++ "]"
  | object members => "\x7b" ++ ",".intercalate (renderMembers members) ++ "\x7d"

def renderItems : List Json → List String
  | [] => []
  | item :: rest => item.render :: renderItems rest

def renderMembers : List (String × Json) → List String
  | [] => []
  | (key, value) :: rest => (quote key ++ ":" ++ value.render) :: renderMembers rest

end

/-! ### Limits a buffered value must keep -/

mutual

/-- How many arrays and objects are nested in a value. -/
def depth : Json → Nat
  | array items => depthItems items + 1
  | object members => depthMembers members + 1
  | _ => 0

def depthItems : List Json → Nat
  | [] => 0
  | item :: rest => max item.depth (depthItems rest)

def depthMembers : List (String × Json) → Nat
  | [] => 0
  | (_, value) :: rest => max value.depth (depthMembers rest)

end

/-- The double nearest to a number, the even one of two. Its first 53 bits are kept. -/
def nearestDouble (n : Nat) : Nat :=
  let dropped := n.log2 + 1 - 53
  let kept := n >>> dropped
  let rest := n - kept <<< dropped
  let half := (1 <<< dropped) / 2
  let up := dropped > 0 && (rest > half || (rest = half && kept % 2 = 1))
  (if up then kept + 1 else kept) <<< dropped

/-- The numbers from here on round to infinity. -/
def infinityBound : Nat := 1 <<< 1024 - 1 <<< 970

/-- Whether a significand, rounded to a double and multiplied with the double nearest to a power of
ten, is finite. The greatest power of ten that is a double has the exponent 308. -/
def fitsDouble (significand : Nat) (exponent : Int) : Bool :=
  if exponent < 0 ∨ significand = 0 then true
  else if exponent > 308 then false
  else nearestDouble significand * nearestDouble (Nat.pow 10 exponent.toNat) < infinityBound

mutual

/-- Whether every string of a value is text and every number fits a double. -/
def isPlain : Json → Bool
  | unpaired => false
  | decimal significand exponent => fitsDouble significand exponent
  | array items => plainItems items
  | object members => plainMembers members
  | _ => true

def plainItems : List Json → Bool
  | [] => true
  | item :: rest => item.isPlain && plainItems rest

def plainMembers : List (String × Json) → Bool
  | [] => true
  | (_, value) :: rest => value.isPlain && plainMembers rest

end

end Json

end ProgramAnalysis

namespace ProgramAnalysis.Json

/-- A word of JSON text: punctuation, or a value that is no array or object. -/
inductive Token where
  | openArray
  | closeArray
  | openObject
  | closeObject
  | comma
  | colon
  | scalar (value : Json)
  deriving Inhabited

/-! ### Strings -/

def unit? (a b c d : Char) : Option Nat := do
  return ((← Text.hexDigit? a) * 16 + (← Text.hexDigit? b)) * 256 +
    (← Text.hexDigit? c) * 16 + (← Text.hexDigit? d)

/-- What a string literal holds: characters, or 16-bit units from its `\u` escapes. -/
inductive Piece where
  | char (c : Char)
  | unit (value : Nat)

def letterEscape? : Char → Option Char
  | '"' => some '"'
  | '\\' => some '\\'
  | '/' => some '/'
  | 'b' => some (Char.ofNat 8)
  | 'f' => some (Char.ofNat 12)
  | 'n' => some '\n'
  | 'r' => some '\r'
  | 't' => some '\t'
  | _ => none

def literalPieces : List Char → Option (List Piece)
  | [] => some []
  | '\\' :: 'u' :: a :: b :: c :: d :: rest => do
    let value ← unit? a b c d
    return .unit value :: (← literalPieces rest)
  | '\\' :: letter :: rest => do
    let c ← letterEscape? letter
    return .char c :: (← literalPieces rest)
  | ['\\'] => none
  | c :: rest => do
    if c.toNat < 32 then none
    return .char c :: (← literalPieces rest)

/-- Joins surrogate pairs. A half without its other half cannot be joined. -/
def joinPieces : List Piece → Option (List Char)
  | [] => some []
  | .char c :: rest => do return c :: (← joinPieces rest)
  | .unit high :: .unit low :: rest =>
    if 0xD800 ≤ high ∧ high < 0xDC00 then
      if 0xDC00 ≤ low ∧ low < 0xE000 then do
        let c := Char.ofNat (0x10000 + (high - 0xD800) * 0x400 + (low - 0xDC00))
        return c :: (← joinPieces rest)
      else none
    else if 0xDC00 ≤ high ∧ high < 0xE000 then none
    else do return Char.ofNat high :: (← joinPieces (.unit low :: rest))
  | .unit value :: rest =>
    if 0xD800 ≤ value ∧ value < 0xE000 then none
    else do return Char.ofNat value :: (← joinPieces rest)

def literal? (raw : List Char) : Option Json := do
  match joinPieces (← literalPieces raw) with
  | some cs => return .string (String.ofList cs)
  | none => return .unpaired

/-! ### Numbers and words -/

def digitsValue (digits : List Char) : Nat :=
  digits.foldl (fun value c => value * 10 + (c.toNat - 48)) 0

/-- Appends digits to a significand as long as it fits 64 bits, and says how many are left over. -/
def appendDigits (significand : Nat) : List Char → Nat × Nat
  | [] => (significand, 0)
  | c :: rest =>
    let longer := significand * 10 + (c.toNat - 48)
    if longer < Numeral.sizeLimit then appendDigits longer rest
    else (significand, rest.length + 1)

/-- An exponent: an optional sign and at least one digit. -/
def exponent? (cs : List Char) : Option Int :=
  let (negative, digits) : Bool × List Char :=
    match cs with
    | '-' :: rest => (true, rest)
    | '+' :: rest => (false, rest)
    | rest => (false, rest)
  if digits.isEmpty || digits.any (!·.isDigit) then none
  else
    let value : Int := digitsValue digits
    some (if negative then -value else value)

def smallestInteger : Nat := 9223372036854775808

/-- Reads a number literal: an optional minus sign, an integer part without leading zeros, an
optional fraction and an optional exponent. Digits that make the significand longer than 64 bits are
dropped; those before the point still count as places. -/
def number? (cs : List Char) : Option Json := do
  let (negative, unsigned) : Bool × List Char :=
    match cs with
    | '-' :: rest => (true, rest)
    | rest => (false, rest)
  let whole := unsigned.takeWhile Char.isDigit
  let afterWhole := unsigned.dropWhile Char.isDigit
  if whole.isEmpty || (whole.length > 1 && whole.head? = some '0') then none
  let (hasFraction, afterPoint) : Bool × List Char :=
    match afterWhole with
    | '.' :: rest => (true, rest)
    | rest => (false, rest)
  let fraction := if hasFraction then afterPoint.takeWhile Char.isDigit else []
  let afterFraction := if hasFraction then afterPoint.dropWhile Char.isDigit else afterPoint
  if hasFraction && fraction.isEmpty then none
  let exponent : Option Int ←
    match afterFraction with
    | [] => some none
    | 'e' :: rest | 'E' :: rest => (exponent? rest).map some
    | _ => none
  let (front, dropped) := appendDigits 0 whole
  let (significand, ignored) := appendDigits front fraction
  let isInteger := !hasFraction && exponent.isNone && dropped = 0
  if isInteger && !negative then return .integer significand
  else if isInteger && 0 < significand && significand ≤ smallestInteger then
    return .integer (-significand)
  else
    return .decimal significand (exponent.getD 0 + dropped - (fraction.length - ignored))

def word? : List Char → Option Json
  | ['t', 'r', 'u', 'e'] => some (.bool true)
  | ['f', 'a', 'l', 's', 'e'] => some (.bool false)
  | ['n', 'u', 'l', 'l'] => some .null
  | _ => none

/-! ### Cutting text into words -/

def isNumberChar (c : Char) : Bool :=
  c.isDigit || c = '-' || c = '+' || c = '.' || c = 'e' || c = 'E'

/-- What is being collected, its characters last first. A number is told from a bare word by its
first character. -/
inductive Collecting where
  | nothing
  | string (raw : List Char)
  | escape (raw : List Char)
  | number (raw : List Char)
  | word (raw : List Char)

def Collecting.finish? : Collecting → Option (List Token)
  | .nothing => some []
  | .string _ | .escape _ => none
  | .number raw => (number? raw.reverse).map fun value => [.scalar value]
  | .word raw => (word? raw.reverse).map fun value => [.scalar value]

def punctuation? : Char → Option (List Token)
  | '[' => some [.openArray]
  | ']' => some [.closeArray]
  | '\x7b' => some [.openObject]
  | '\x7d' => some [.closeObject]
  | ',' => some [.comma]
  | ':' => some [.colon]
  | ' ' | '\n' | '\r' | '\t' => some []
  | _ => none

/-- What a character starts when nothing is being collected. -/
def begin? (c : Char) : Option (Collecting × List Token) :=
  match punctuation? c with
  | some tokens => some (.nothing, tokens)
  | none =>
    if c = '"' then some (.string [], [])
    else if c.isDigit || c = '-' then some (.number [c], [])
    else if c.isAlpha then some (.word [c], [])
    else none

/-- Takes one character up: what is being collected afterwards, and the tokens that ended. -/
def take? (state : Collecting) (c : Char) : Option (Collecting × List Token) :=
  match state with
  | .nothing => begin? c
  | .string raw =>
    if c = '"' then (literal? raw.reverse).map fun value => (.nothing, [.scalar value])
    else if c = '\\' then some (.escape (c :: raw), [])
    else some (.string (c :: raw), [])
  | .escape raw => some (.string (c :: raw), [])
  | .number raw =>
    if isNumberChar c then some (.number (c :: raw), [])
    else do
      let ended ← state.finish?
      let (next, tokens) ← begin? c
      return (next, ended ++ tokens)
  | .word raw =>
    if c.isAlpha then some (.word (c :: raw), [])
    else do
      let ended ← state.finish?
      let (next, tokens) ← begin? c
      return (next, ended ++ tokens)

def tokensFrom? (state : Collecting) : List Char → Option (List Token)
  | [] => state.finish?
  | c :: rest => do
    let (next, ended) ← take? state c
    return ended ++ (← tokensFrom? next rest)

def tokens? (text : String) : Option (List Token) :=
  tokensFrom? .nothing text.toList

/-- An array or object that is still open, its contents last first. An object also holds the key
that waits for its value. Keys are kept as they were read, for only a complete object is judged. -/
inductive Open where
  | array (items : List Json)
  | object (members : List (Json × Json)) (key : Option Json)

/-- An object with these members, if all of its keys are text. -/
def ofMembers (members : List (Json × Json)) : Json :=
  let readable := members.mapM fun
    | (.string key, value) => some (key, value)
    | _ => none
  match readable with
  | some members => .object members
  | none => .unpaired

/-- Which tokens may come next. -/
inductive Expecting where
  | value
  | valueOrClose
  | key
  | keyOrClose
  | colon
  | commaOrClose
  | nothing
  deriving DecidableEq

/-- A document being read: what is open, innermost first, and what may follow. -/
structure Reading where
  stack : List Open
  expecting : Expecting
  result : Option Json

/-- Puts a finished value into the innermost open array or object, or makes it the document. -/
def Reading.give? (reading : Reading) (value : Json) : Option Reading :=
  match reading.stack with
  | [] => some ⟨[], .nothing, some value⟩
  | .array items :: outer => some ⟨.array (value :: items) :: outer, .commaOrClose, none⟩
  | .object members (some key) :: outer =>
    some ⟨.object ((key, value) :: members) none :: outer, .commaOrClose, none⟩
  | .object _ none :: _ => none

/-- Takes up one token, if it may stand here. -/
def Reading.take? (reading : Reading) (token : Token) : Option Reading :=
  let expectsValue := reading.expecting = .value || reading.expecting = .valueOrClose
  let expectsKey := reading.expecting = .key || reading.expecting = .keyOrClose
  match token with
  | .openArray =>
    if expectsValue then some ⟨.array [] :: reading.stack, .valueOrClose, none⟩ else none
  | .openObject =>
    if expectsValue then some ⟨.object [] none :: reading.stack, .keyOrClose, none⟩ else none
  | .closeArray =>
    if reading.expecting = .valueOrClose || reading.expecting = .commaOrClose then
      match reading.stack with
      | .array items :: outer =>
        Reading.give? { reading with stack := outer } (.array items.reverse)
      | _ => none
    else none
  | .closeObject =>
    if reading.expecting = .keyOrClose || reading.expecting = .commaOrClose then
      match reading.stack with
      | .object members none :: outer =>
        Reading.give? { reading with stack := outer } (ofMembers members.reverse)
      | _ => none
    else none
  | .comma =>
    if reading.expecting = .commaOrClose then
      match reading.stack with
      | .array _ :: _ => some { reading with expecting := .value }
      | .object _ _ :: _ => some { reading with expecting := .key }
      | [] => none
    else none
  | .colon => if reading.expecting = .colon then some { reading with expecting := .value } else none
  | .scalar value =>
    if expectsValue then reading.give? value
    else if expectsKey then
      match value, reading.stack with
      | .string _, .object members none :: outer | .unpaired, .object members none :: outer =>
        some ⟨.object members (some value) :: outer, .colon, none⟩
      | _, _ => none
    else none

/-- The document a text holds, if it is JSON. -/
def read? (text : String) : Option Json := do
  let reading ← (← tokens? text).foldlM Reading.take? ⟨[], .value, none⟩
  reading.result

/-! ### Values -/

/-- An integer literal that is not negative and below `limit`. -/
def natBelow? (limit : Nat) : Json → Option Nat
  | integer value => if 0 ≤ value ∧ value.toNat < limit then some value.toNat else none
  | _ => none

/-- A handle, an index or a size. -/
def size? (value : Json) : Option Nat := value.natBelow? Numeral.sizeLimit

/-- A source line or a verbosity level. -/
def word32? (value : Json) : Option Nat := value.natBelow? Numeral.wordLimit

def bool? : Json → Option Bool
  | bool value => some value
  | _ => none

def string? : Json → Option String
  | string text => some text
  | _ => none

def list? {α : Type} (item? : Json → Option α) : Json → Option (List α)
  | array items => items.mapM item?
  | _ => none

/-- Reads a value that may be null. -/
def nullable? {α : Type} (value? : Json → Option α) : Json → Option (Option α)
  | null => some none
  | value => (value? value).map some

/-! ### Records -/

def underKey (key : String) (members : List (String × Json)) : List Json :=
  (members.filter (·.1 = key)).map (·.2)

/-- The fields of a record as they were written: the value of each field, if there is one, and
whether they were given by position. -/
structure Record where
  field? : String → Option Json
  positional : Bool

/-- Reads a record from an object with distinct fields, or from an array by position. -/
def record? (names : List String) : Json → Option Record
  | object members =>
    if names.any fun name => (underKey name members).length > 1 then none
    else some ⟨fun name => (underKey name members).head?, false⟩
  | array items =>
    if items.length > names.length then none
    else some ⟨fun name => (names.zip items).lookup name, true⟩
  | _ => none

namespace Record

variable {α : Type}

def required? (record : Record) (name : String) (value? : Json → Option α) : Option α := do
  value? (← record.field? name)

/-- A field that stands for `default` when it is left out. -/
def withDefault? (record : Record) (name : String) (default : α) (value? : Json → Option α) :
    Option α :=
  match record.field? name with
  | none => some default
  | some value => value? value

/-- A field that may be null, and may be left out of an object. -/
def optional? (record : Record) (name : String) (value? : Json → Option α) : Option (Option α) :=
  match record.field? name with
  | none => if record.positional then none else some none
  | some value => value.nullable? value?

end Record

def ofOption {α : Type} (write : α → Json) : Option α → Json
  | none => null
  | some a => write a

def ofNat (n : Nat) : Json := integer n

def ofList {α : Type} (write : α → Json) (l : List α) : Json := array (l.map write)

end ProgramAnalysis.Json
