/-!
Text: cutting it apart, its lines, numerals, bytes and markup.
-/

namespace ProgramAnalysis.Text

/-! ### Cutting at a class of characters -/

/-- The stretches of `cs` between the characters that satisfy `cut`, empty ones included. There is
always one more piece than there are cuts. -/
def pieces (cut : Char → Bool) : List Char → List (List Char)
  | [] => [[]]
  | c :: rest =>
    if cut c then
      [] :: pieces cut rest
    else
      match pieces cut rest with
      | [] => [[c]]
      | first :: others => (c :: first) :: others

def splitAt (separator : Char) (s : String) : List String :=
  (pieces (· == separator) s.toList).map String.ofList

/-- A text cut at the first occurrence of a character, which belongs to neither half. -/
def cutAt? (separator : Char) (s : String) : Option (String × String) :=
  match s.toList.dropWhile (· != separator) with
  | [] => none
  | _ :: after => some (String.ofList (s.toList.takeWhile (· != separator)), String.ofList after)

/-- The part of a text before the first occurrence of a character, all of it if there is none. -/
def before (separator : Char) (s : String) : String :=
  String.ofList (s.toList.takeWhile (· != separator))

/-! ### Fixed beginnings and endings -/

/-- What follows `start`, if the text begins with it. -/
def dropStart? (start s : String) : Option String :=
  (start.toList.isPrefixOf? s.toList).map String.ofList

/-- What stands before `ending`, if the text ends with it. -/
def dropEnd? (ending s : String) : Option String :=
  (ending.toList.reverse.isPrefixOf? s.toList.reverse).map fun front =>
    String.ofList front.reverse

def occursIn (part : List Char) : List Char → Bool
  | [] => part.isEmpty
  | c :: rest => part.isPrefixOf (c :: rest) || occursIn part rest

/-- Whether the text holds `part` somewhere. -/
def holds (part s : String) : Bool :=
  occursIn part.toList s.toList

/-! ### The pieces put back together -/

theorem pieces_ne_nil (cut : Char → Bool) (cs : List Char) : pieces cut cs ≠ [] := by
  cases cs with
  | nil => simp [pieces]
  | cons c rest =>
    rw [pieces]
    split
    · simp
    · split <;> simp

/-- The Unicode property `White_Space`. -/
def isBlank (c : Char) : Bool :=
  let n := c.toNat
  (9 ≤ n && n ≤ 13) || n == 0x20 || n == 0x85 || n == 0xA0 || n == 0x1680 ||
    (0x2000 ≤ n && n ≤ 0x200A) || n == 0x2028 || n == 0x2029 || n == 0x202F || n == 0x205F ||
    n == 0x3000

/-- The characters without the blanks at either end. -/
def trimChars (cs : List Char) : List Char :=
  ((cs.dropWhile isBlank).reverse.dropWhile isBlank).reverse

/-- The text without blanks around it. -/
def trim (s : String) : String :=
  String.ofList (trimChars s.toList)

/-- The longest stretches without a blank. -/
def wordsChars (cs : List Char) : List (List Char) :=
  (pieces isBlank cs).filter (· ≠ [])

/-- The words of a text: its longest stretches without a blank, in order. -/
def words (s : String) : List String :=
  (wordsChars s.toList).map String.ofList

def compact (s : String) : String :=
  String.ofList (s.toList.filter (!isBlank ·))

/-- A line without the one carriage return that belongs to its ending. -/
def dropReturn (line : List Char) : List Char :=
  if line.getLast? = some '\r' then line.dropLast else line

def linesChars (cs : List Char) : List (List Char) :=
  let parts := pieces (· == '\n') cs
  let closed := parts.dropLast.map dropReturn
  match parts.getLast? with
  | some [] | none => closed
  | some last => closed ++ [last]

def lines (s : String) : List String :=
  (linesChars s.toList).map String.ofList

/-- Bytes cut at every line feed; the last piece is what follows the last line feed. -/
def piecesOfBytes : List UInt8 → List (List UInt8)
  | [] => [[]]
  | b :: rest =>
    if b = 10 then
      [] :: piecesOfBytes rest
    else
      match piecesOfBytes rest with
      | [] => [[b]]
      | first :: others => (b :: first) :: others

def decode? (bytes : List UInt8) : Option String :=
  String.fromUTF8? bytes.toByteArray

def encode (s : String) : List UInt8 :=
  s.toUTF8.data.toList

/-- The lines of a byte string, each decoded on its own. -/
def linesOfBytes (bytes : List UInt8) : List (Option String) :=
  let parts := piecesOfBytes bytes
  let closed := parts.dropLast.map fun line =>
    (decode? line).map fun s => String.ofList (dropReturn s.toList)
  match parts.getLast? with
  | some [] | none => closed
  | some last => closed ++ [decode? last]

end ProgramAnalysis.Text

namespace ProgramAnalysis

/-- Why a text is not a numeral below the limit. -/
inductive NumeralFault where
  | empty
  | invalidDigit
  | tooLarge
  deriving DecidableEq, Repr

namespace NumeralFault

def message : NumeralFault → String
  | empty => "cannot parse integer from empty string"
  | invalidDigit => "invalid digit found in string"
  | tooLarge => "number too large to fit in target type"

end NumeralFault

namespace Numeral

/-- Handles, indices and sizes are 64 bits wide, so they are below this. -/
def sizeLimit : Nat := 18446744073709551616

/-- Source lines and verbosity levels are 32 bits wide, so they are below this. -/
def wordLimit : Nat := 4294967296

def digit? (c : Char) : Option Nat :=
  if '0' ≤ c ∧ c ≤ '9' then some (c.toNat - '0'.toNat) else none

/-- Takes the digits of `cs` up, starting from the value read so far. -/
def accumulate (limit : Nat) : Nat → List Char → Except NumeralFault Nat
  | value, [] => .ok value
  | value, c :: rest =>
    match digit? c with
    | none => .error .invalidDigit
    | some d =>
      if value * 10 + d < limit then
        accumulate limit (value * 10 + d) rest
      else
        .error .tooLarge

def readChars (limit : Nat) : List Char → Except NumeralFault Nat
  | [] => .error .empty
  | ['+'] => .error .invalidDigit
  | '+' :: digits => accumulate limit 0 digits
  | digits => accumulate limit 0 digits

/-- Reads a numeral below a limit. -/
def read (limit : Nat) (s : String) : Except NumeralFault Nat :=
  readChars limit s.toList

def readSize (s : String) : Except NumeralFault Nat :=
  read sizeLimit s

end Numeral

end ProgramAnalysis

namespace ProgramAnalysis.Text

def hexDigit? (c : Char) : Option Nat :=
  if '0' ≤ c ∧ c ≤ '9' then some (c.toNat - '0'.toNat)
  else if 'a' ≤ c ∧ c ≤ 'f' then some (c.toNat - 'a'.toNat + 10)
  else if 'A' ≤ c ∧ c ≤ 'F' then some (c.toNat - 'A'.toNat + 10)
  else none

def hexPair (byte : UInt8) : List Char :=
  [Nat.digitChar (byte.toNat / 16), Nat.digitChar (byte.toNat % 16)]

def toHex (bytes : List UInt8) : String := String.ofList (bytes.flatMap hexPair)

/-- The bytes that some digits write, if they come in pairs. -/
def hexBytes? : List Char → Option (List UInt8)
  | [] => some []
  | [_] => none
  | high :: low :: rest => do
    let byte := UInt8.ofNat ((← hexDigit? high) * 16 + (← hexDigit? low))
    return byte :: (← hexBytes? rest)

def ofHex? (text : String) : Option (List UInt8) := hexBytes? text.toList

def replaceChar (old : Char) (new : String) (cs : List Char) : List Char :=
  cs.flatMap fun c => if c = old then new.toList else [c]

/-- A text as the value of an attribute. Ampersands are replaced first. -/
def escape (s : String) : String :=
  String.ofList (replaceChar '"' "&quot;" (replaceChar '>' "&gt;" (replaceChar '<' "&lt;"
    (replaceChar '&' "&amp;" s.toList))))

/-- How a character goes on after its first byte: how many bytes follow, and between which bounds
the first of them lies. -/
def continuation? (lead : UInt8) : Option (Nat × UInt8 × UInt8) :=
  if 0xC2 ≤ lead ∧ lead ≤ 0xDF then some (1, 0x80, 0xBF)
  else if lead = 0xE0 then some (2, 0xA0, 0xBF)
  else if lead = 0xED then some (2, 0x80, 0x9F)
  else if 0xE1 ≤ lead ∧ lead ≤ 0xEF then some (2, 0x80, 0xBF)
  else if lead = 0xF0 then some (3, 0x90, 0xBF)
  else if 0xF1 ≤ lead ∧ lead ≤ 0xF3 then some (3, 0x80, 0xBF)
  else if lead = 0xF4 then some (3, 0x80, 0x8F)
  else none

/-- The bytes at the front that continue a character, at most `count` of them. -/
def continuing (low high : UInt8) : Nat → List UInt8 → List UInt8
  | count + 1, byte :: rest =>
    if low ≤ byte ∧ byte ≤ high then byte :: continuing 0x80 0xBF count rest else []
  | _, _ => []

/-- The code point with these bytes, given the bits its first byte contributes. -/
def codePoint (first : Nat) (others : List UInt8) : Nat :=
  others.foldl (fun value byte => value * 64 + byte.toNat % 64) first

/-- The bits the first byte of a character of several bytes contributes. -/
def leadBits (lead : UInt8) (count : Nat) : Nat := lead.toNat % (64 >>> count)

/-- The characters of bytes, with replacement characters where they are no UTF-8. -/
def lossyChars (bytes : List UInt8) : List Char :=
  match bytes with
  | [] => []
  | lead :: rest =>
    if lead < 0x80 then Char.ofNat lead.toNat :: lossyChars rest
    else match continuation? lead with
      | none => Char.ofNat 0xFFFD :: lossyChars rest
      | some (count, low, high) =>
        let others := continuing low high count rest
        let read :=
          if others.length = count then Char.ofNat (codePoint (leadBits lead count) others)
          else Char.ofNat 0xFFFD
        read :: lossyChars (rest.drop others.length)
termination_by bytes.length
decreasing_by all_goals simp; try omega

/-- The text of bytes, with replacement characters where they are no UTF-8. -/
def decodeLossy (bytes : List UInt8) : String := String.ofList (lossyChars bytes)

end ProgramAnalysis.Text
