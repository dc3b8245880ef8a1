import ProgramAnalysis.Shell.Format
import ProgramAnalysis.Shell.Utility

/-!
The programs that calculate, tell what is around a script, or run others under other conditions.
-/

namespace ProgramAnalysis.Shell

open String (ofList)

namespace Numbers

/-! ### Sequences -/

structure Decimal where
  digits : Int
  power : Int
  places : Nat
  width : Nat

namespace Decimal

def ofText? (text : String) : Option Decimal := do
  let chars := text.toList.dropWhile isSpace
  let isNegative := chars.head? = some '-'
  let body := if isNegative then chars.tail else chars
  let (digits, power, rest) ← Floating.decimal? body
  if !rest.isEmpty then none
  let mantissa := body.takeWhile fun c => c.isDigit || c = '.'
  let places := ((mantissa.dropWhile (· ≠ '.')).drop 1).length
  let width := (if isNegative then 1 else 0) + mantissa.length
  return { digits := if isNegative then -Int.ofNat digits else digits, power, places, width }

def scaled (number : Decimal) (power : Nat) : Int :=
  number.digits * Int.ofNat (Nat.pow 10 ((number.power + power).toNat))

end Decimal

def withPlaces (places width : Nat) (value : Int) : String :=
  let sign := if value < 0 then "-" else ""
  let body := Floating.withPoint (toString value.natAbs).toList places false
  sign ++ ofList (body.leftpad (width - sign.length) '0')

def splitNumbers : List String → List String × List String
  | [] => ([], [])
  | arg :: rest =>
    let isNumber := match arg.toList with
      | '-' :: c :: _ => c.isDigit || c = '.'
      | _ => true
    if isNumber then ([], arg :: rest)
    else if arg = "-s" ∨ arg = "-f" then
      match rest with
      | value :: rest => (splitNumbers rest).map ([arg, value] ++ ·) id
      | [] => ([arg], [])
    else (splitNumbers rest).map (arg :: ·) id

def seq : Utility := fun args => do
  let (options, operands) := splitNumbers args
  withOptions "seq" "ws:f:" 1 (fun call => do
    atMost 3 "seq" { operands }
    let numbers ← operands.mapM fun arg =>
      orMisuse "seq" ("invalid floating point argument: " ++ quoted arg) 1 (Decimal.ofText? arg)
    let one : Decimal := { digits := 1, power := 0, places := 0, width := 1 }
    let last := numbers.getLastD one
    let first := if numbers.length = 1 then one else numbers.headD one
    let step := if numbers.length = 3 then numbers.getD 1 one else one
    let power := [first, step, last].foldl (fun most number => max most (-number.power).toNat) 0
    let start := first.scaled power
    let stride := step.scaled power
    let stop := last.scaled power
    let size := if stride > 0 then (stop - start).fdiv stride + 1
      else (start - stop).fdiv (-stride) + 1
    let places := max first.places step.places
    let point (number : Decimal) : Nat := if number.places = 0 ∧ places ≠ 0 then 1 else 0
    let width := if call.has 'w' then
        max (first.width + (places - first.places) + point first)
          (last.width + places - last.places + point last -
            (if last.places ≠ 0 ∧ places = 0 then 1 else 0))
      else 0
    let shown := (List.range size.toNat).map fun (i : Nat) =>
      let value := start + stride * i
      let text := withPlaces places width (value.tdiv (Int.ofNat (Nat.pow 10 (power - places))))
      ((call.value? 'f').map fun format => (Shell.printf format [text]).written).getD text
    if !shown.isEmpty then emit (((call.value? 's').getD "\n").intercalate shown ++ "\n")
    return 0) options

def factorsFrom : Nat → Nat → Nat → List Nat
  | 0, _, n => [n]
  | fuel + 1, divisor, n =>
    if n < 2 then []
    else if n < divisor * divisor then [n]
    else if n % divisor = 0 then divisor :: factorsFrom fuel divisor (n / divisor)
    else factorsFrom fuel (divisor + 1) n

def factor : Utility := withOptions "factor" "" 1 fun call => do
  let words := call.operands.flatMap (wordsBy · isSpace)
  forEach (fun word => do
    match natural? ((Text.dropStart? "+" word).getD word) with
    | some n =>
      let factors := factorsFrom 10000000 2 n
      tell (toString n ++ ":" ++ String.join (factors.map fun p => " " ++ toString p) ++ "\n")
    | none => fault "factor" (quoted word ++ " is not a valid positive integer"))
    (words.map ofList)

end Numbers

namespace Units

def letters : Chars := "KMGTPEZYRQ".toList

def read (base : Nat) (text : String) : Except String Nat := do
  let (digits, rest) := text.toList.span Char.isDigit
  if digits.isEmpty then throw ("invalid number: " ++ quoted text)
  let value := digitsValue 10 digits
  let letter :: _ := rest | return value
  let some power := letters.idxOf? letter | throw ("invalid suffix in input: " ++ quoted text)
  return value * Nat.pow base (power + 1)

def powerOf (base value : Nat) : Nat → Nat
  | 0 => 0
  | fuel + 1 => if value < base ∨ base < 2 then 0 else powerOf base (value / base) fuel + 1

def render (base value : Nat) : String :=
  match powerOf base value 10 with
  | 0 => toString value
  | power + 1 =>
    -- Rounded up, with one decimal place below ten.
    let unit := Nat.pow base (power + 1)
    let tenths := (10 * value + unit - 1) / unit
    let whole := (value + unit - 1) / unit
    let letter (power : Nat) : String := String.singleton (letters.getD power 'Q')
    if tenths < 100 then toString (tenths / 10) ++ "." ++ toString (tenths % 10) ++ letter power
    else if whole < base then toString whole ++ letter power
    else "1.0" ++ letter (power + 1)

def baseFor : Option String → Nat
  | some "si" => 1000
  | some "iec" => 1024
  | _ => 1

def numfmt : Utility := withLongOptions "numfmt" "" [("from", 'φ'), ("to", 'τ')] 1 fun call => do
  let lines ← if call.operands.isEmpty then do pure (linesOf (← textIn "numfmt" "-"))
    else pure call.operands
  for line in lines do
    let value ← orRefuse "numfmt" 2 (read (baseFor (call.value? 'φ')) line)
    emit (render (baseFor (call.value? 'τ')) value ++ "\n")
  return 0

end Units

namespace Digest

/-! ### Words -/

def turnLeft (count word : UInt32) : UInt32 := word <<< count ||| word >>> (32 - count)

def bigEndian : Nat → Nat → List Nat
  | 0, _ => []
  | count + 1, n => bigEndian count (n / 256) ++ [n % 256]

variable (bytes : List Nat)

def ofBigEndian : Nat := bytes.foldl (fun n byte => n * 256 + byte) 0

/-- Digests a message in rounds on the words of its blocks. Numbers are written in the order that is
given for big-endian ones. -/
def digest (order : List Nat → List Nat) (extend : Array UInt32 → Array UInt32) (rounds : Nat)
    (round : Array UInt32 → List UInt32 → Nat → List UInt32) (start : List UInt32)
    (bytes : List Nat) : List Nat :=
  let gap := (119 - bytes.length % 64) % 64
  let message := bytes ++ 0x80 :: List.replicate gap 0 ++ order (bigEndian 8 (8 * bytes.length))
  let final := (chunks 64 message.length message).foldl (fun state block =>
    let given := (chunks 4 16 block).map fun word => UInt32.ofNat (ofBigEndian (order word))
    let words := extend given.toArray
    List.zipWith (· + ·) state ((List.range rounds).foldl (round words) state)) start
  final.flatMap fun word => order (bigEndian 4 word.toNat)

def fraction (x : Float) : UInt32 := ((x - x.floor) * 4294967296.0).toUInt32

def choice (a b c : UInt32) : UInt32 := (a &&& b) ||| (~~~a &&& c)

def majority (a b c : UInt32) : UInt32 := (a &&& b) ||| (a &&& c) ||| (b &&& c)

/-! ### Secure digests -/

variable (words : Array UInt32) (state : List UInt32) (index : Nat)

def sha1Round : List UInt32 :=
  match state with
  | [a, b, c, d, e] =>
    let (mixed, constant) :=
      if index < 20 then (choice b c d, 0x5A827999)
      else if index < 40 then (b ^^^ c ^^^ d, 0x6ED9EBA1)
      else if index < 60 then (majority b c d, 0x8F1BBCDC)
      else (b ^^^ c ^^^ d, 0xCA62C1D6)
    [turnLeft 5 a + mixed + e + constant + words.getD index 0, a, turnLeft 30 b, c, d]
  | _ => state

def sha1 : List Nat → List Nat :=
  let extend (given : Array UInt32) : Array UInt32 := (List.range 64).foldl (fun words index =>
    let word (offset : Nat) : UInt32 := words.getD (index + offset) 0
    words.push (turnLeft 1 (word 13 ^^^ word 8 ^^^ word 2 ^^^ word 0))) given
  digest (fun bytes => bytes) extend 80 sha1Round
    [0x67452301, 0xEFCDAB89, 0x98BADCFE, 0x10325476, 0xC3D2E1F0]

/-! ### Other digests -/

def md5Turns : List UInt32 := [7, 12, 17, 22, 5, 9, 14, 20, 4, 11, 16, 23, 6, 10, 15, 21]

def md5Round : List UInt32 :=
  match state with
  | [a, b, c, d] =>
    let (mixed, place) :=
      if index < 16 then (choice b c d, index)
      else if index < 32 then (choice d b c, 5 * index + 1)
      else if index < 48 then (b ^^^ c ^^^ d, 3 * index + 5)
      else (c ^^^ (b ||| ~~~d), 7 * index)
    let sum := a + mixed + fraction (Float.ofNat (index + 1)).sin.abs + words.getD (place % 16) 0
    [d, b + turnLeft (md5Turns.getD (index / 16 * 4 + index % 4) 0) sum, b, c]
  | _ => state

def md5 : List Nat → List Nat :=
  digest List.reverse (fun given => given) 64 md5Round
    [0x67452301, 0xEFCDAB89, 0x98BADCFE, 0x10325476]

def crcByte (remainder : UInt32) (byte : Nat) : UInt32 :=
  (List.range 8).foldl (fun r _ => if r ≥ 0x80000000 then 2 * r ^^^ 0x04C11DB7 else 2 * r)
    (remainder ^^^ UInt32.ofNat byte <<< 24)

def crc : Nat :=
  let length := (bigEndian 8 bytes.length).dropWhile (· = 0)
  (~~~(bytes ++ length.reverse).foldl crcByte 0).toNat

end Digest

namespace Checksums

def bytesOf (text : String) : List Nat := text.toList.map Char.toNat

variable (program : String)

def showEach (line : String → String → String) : Utility :=
  withOptions program "t" 1 fun call => forEach (fun name => do
    match ← readFile name with
    | .error why => fault program (why.onName name)
    | .ok text =>
      let title := if call.operands.isEmpty ∧ program = "cksum" then "" else " " ++ name
      tell (line title text ++ "\n")) (orInput call.operands)

def digestProgram (hash : List Nat → List Nat) : Utility :=
  showEach program fun name text =>
    ofList ((hash (bytesOf text)).flatMap fun byte => (Nat.toDigits 16 byte).leftpad 2 '0') ++
      " " ++ name

def cksum : Utility := showEach "cksum" fun name text =>
  toString (Digest.crc (bytesOf text)) ++ " " ++ toString text.length ++ name

/-! ### Bytes in letters -/

def letters : Chars := "ABCDEFGHIJKLMNOPQRSTUVWXYZabcdefghijklmnopqrstuvwxyz0123456789+/".toList

def encodeGroup (bytes : List Nat) : Chars :=
  let value := Digest.ofBigEndian bytes <<< (8 * (3 - bytes.length))
  (List.range 4).map fun index =>
    if index ≤ bytes.length then letters.getD ((value >>> (6 * (3 - index))) % 64) '=' else '='

def decodeGroup (group : Chars) : List Nat × Bool :=
  let (given, rest) := group.span letters.contains
  let count := given.length * 6 / 8
  let value := (given.foldl (fun value c => value * 64 + letters.findIdx (· = c)) 0) <<<
    (6 * (4 - given.length))
  ((Digest.bigEndian 3 value).take count,
    given.length ≥ 2 && rest.all (· = '=') && group.length = 4)

def decode : Nat → Chars → List Nat × Bool
  | 0, _ | _, [] => ([], true)
  | fuel + 1, given =>
    let (bytes, isProper) := decodeGroup (given.take 4)
    if isProper then (decode fuel (given.drop 4)).map (bytes ++ ·) id else (bytes, false)

def base64 : Utility := withOptions "base64" "dw:" 1 fun call => do
  atMost 1 "base64" call
  let given := (call.value? 'w').getD "76"
  let some width := natural? given | refuse "base64" ("invalid wrap size: " ++ quoted given) 1
  let name := call.operands.headD "-"
  if (← get).hasFolder name then refuse "base64" "read error: Is a directory" 1
  let text ← textIn "base64" name
  if call.has 'd' then
    let given := text.toList.filter (· ≠ '\n')
    let (bytes, isProper) := decode (given.length + 1) given
    emit (ofList (bytes.map Char.ofNat))
    if !isProper then refuse "base64" "invalid input" 1
  else
    let bytes := bytesOf text
    let shown := (chunks 3 (bytes.length + 1) bytes).flatMap encodeGroup
    if width = 0 then emit (ofList shown)
    else emit (ofLines ((chunks width (shown.length + 1) shown).map ofList))
  return 0

end Checksums

namespace Surroundings

/-! ### Time -/

def duration? (text : String) : Option Int := do
  let (value, rest) ← Floating.read? text.toList
  if value < 0 ∨ value.isNaN then none
  let unit ← match rest with
    | [] | ['s'] => some 1
    | ['m'] => some 60
    | ['h'] => some 3600
    | ['d'] => some 86400
    | _ => none
  return (← Floating.toInt? (Floating.truncate (value * 1000000000.0))) * unit

def sleep : Utility := withOptions "sleep" "" 1 fun call => do
  let durations ← call.operands.mapM fun arg =>
    orMisuse "sleep" ("invalid time interval " ++ quoted arg) 1 (duration? arg)
  sleepFor (durations.foldl (· + ·) 0)
  return 0

def date : Utility := withOptions "date" "ud:" 1 fun call => do
  let given := call.operands.filterMap (Text.dropStart? "+")
  let time ← match call.value? 'd' with
    | none => do pure ((← get).world.clock.fdiv 1000000000)
    | some text =>
      orRefuse "date" 1 ((Moment.ofText? text).elim (.error ("invalid date " ++ quoted text)) .ok)
  tell ((Moment.ofSeconds time).format (given.headD "%a %b %e %H:%M:%S %Z %Y") ++ "\n")

/-! ### Variables -/

def printenv : Utility := withOptions "printenv" "0" 2 fun call => do
  let environment := (← get).environment
  let finish := if call.has '0' then String.singleton (Char.ofNat 0) else "\n"
  if call.operands.isEmpty then
    emit (String.join (environment.map fun (name, value) => name ++ "=" ++ value ++ finish))
  forEach (fun name => do
    let some value := environment.lookup name | return 1
    tell (value ++ finish)) call.operands

/-! ### The user and the machine -/

def id : Utility := withOptions "id" "agGnru" 1 fun call =>
  forEach (fun name => do
    if name ≠ "root" then return ← fault "id" (quoted name ++ ": no such user")
    tell (if ['u', 'g', 'G'].any call.has then if call.has 'n' then "root\n" else "0\n"
      else "uid=0(root) gid=0(root) groups=0(root)\n"))
    (if call.operands.isEmpty then ["root"] else call.operands)

def telling (name line : String) : Utility := withOptions name "" 1 fun call => do
  atMost 0 name call
  tell (line ++ "\n")

end Surroundings

namespace Launching

variable (launcher : Launcher)

def launchOr (complaint : String) (words : List String) : Run Nat := do
  let launch ← launcher words
  if let .refused why := launch then complain (complaint ++ ": " ++ why.message)
  if let .killed signal := launch then throw (.killed signal)
  return launch.code

def nohup : Utility := fun args =>
  launchOr launcher ("nohup: failed to run command " ++ inQuotes (args.headD "")) args

/-! ### Variables -/

def env : Utility := withOptions "env" "+iu:" 125 fun call => do
  let hasDash := call.operands.head? = some "-"
  let rest := if hasDash then call.operands.tail else call.operands
  if hasDash || call.has 'i' then modify ({ · with vars := .empty })
  for name in call.values 'u' do modify fun p => { p with vars := p.vars.erase name }
  let isSetting (word : String) : Bool := word.toList.contains '='
  for word in rest.takeWhile isSetting do
    if let some (name, value) := Text.cutAt? '=' word then
      modify fun p => { p with
        vars := p.vars.insert name { value := some value, exported := true } }
  match rest.dropWhile isSetting with
  | [] => Surroundings.printenv []
  | words => launchOr launcher ("env: " ++ quoted (words.headD "")) words

/-! ### Time -/

def timeout : Utility := withOptions "timeout" "+s:k:" 125 fun call => do
  let time :: words@(_ :: _) := call.operands
    | do
      complain "Try 'timeout --help' for more information."
      return 125
  let signal? := signal? ((call.value? 's').getD "TERM")
  let (some duration, some signal) := (Surroundings.duration? time, signal?)
    | misuse "timeout" ("invalid time interval " ++ quoted time) 125
  let before := (← get).world
  let deadline := before.clock + duration
  let isOwn := duration ≠ 0 && before.deadline.all (deadline < ·)
  if isOwn then changeWorld ({ · with deadline := some deadline })
  let launch ← launcher words
  changeWorld ({ · with deadline := before.deadline })
  match launch, isOwn && deadline ≤ (← get).world.clock with
  | .refused why, _ =>
    let what := "failed to run command " ++ quoted (words.headD "") ++ ": " ++ why.message
    refuse "timeout" what launch.code
  | .killed 15, true => if signal = 9 then throw (.killed 9) else return 124
  | .killed other, _ => throw (.killed other)
  | .ended code, _ => return code

end Launching

namespace Xargs

/-! ### Words -/

/-- The words of the input, each with whether it ends a line, and what is wrong with what
follows. -/
abbrev Found := List (String × Bool) × Option String

def words (byLine : Bool) : Nat → Option Chars → Chars → Found
  | 0, _, _ => ([], none)
  | _ + 1, begun, [] =>
    (((begun.filter (!·.isEmpty)).map fun chars => (ofList chars.reverse, true)).toList, none)
  | fuel + 1, begun, c :: rest =>
    let chars := begun.getD []
    let close (endsLine : Bool) : Found :=
      (words byLine fuel none rest).map ((ofList chars.reverse, endsLine) :: ·) id
    if isSpace c ∧ begun.isNone then words byLine fuel begun rest
    else if c = '\n' then close true
    else if isBlank c ∧ !byLine then close false
    else if c = '\'' ∨ c = '"' then
      match rest.span fun d => d ≠ c && d ≠ '\n' with
      | (_, '\n' :: _) | (_, []) => ([], some "unmatched quote")
      | (inside, _ :: later) => words byLine fuel (some (inside.reverse ++ chars)) later
    else
      match c, rest with
      | '\\', d :: later => words byLine fuel (some (d :: chars)) later
      | '\\', [] => words byLine fuel begun []
      | _, _ => words byLine fuel (some (c :: chars)) rest

structure Plan where
  perCommand : Option Nat := none
  lines : Option Nat := none
  mark : Option String := none

def Plan.heed (plan : Plan) : Char × String → Plan
  | ('n', value) =>
    if plan.mark.isSome ∧ value = "1" then plan else { perCommand := natural? value }
  | ('L', value) => { lines := natural? value }
  | ('I', value) => { mark := some value }
  | _ => plan

def share (plan : Plan) : List (String × Bool) → Nat → List String → List (List String)
  | [], _, group => if group.isEmpty then [] else [group.reverse]
  | (text, endsLine) :: rest, lines, group =>
    let lines := if endsLine then lines + 1 else lines
    let current := text :: group
    if plan.perCommand = some current.length || (endsLine && plan.lines.any (· ≤ lines)) then
      current.reverse :: share plan rest 0 []
    else share plan rest lines current

def runAll (launcher : Launcher) : List (List String) → Nat → Run Nat
  | [], code => return code
  | line :: rest, code => do
    match ← launcher line with
    | .ended 0 => runAll launcher rest code
    | .ended _ => runAll launcher rest 123
    | .killed _ => return 125
    | .refused why => refuse "xargs" (line.headD "" ++ ": " ++ why.message) 127

def xargs (launcher : Launcher) : Utility := withOptions "xargs" "+rI:L:n:P:" 1 fun call => do
  let plan := call.flags.foldl Plan.heed {}
  let .ok text ← readAll 0 | return 1
  let (items, wrong) := words plan.mark.isSome (2 * text.length + 2) none text.toList
  let command := if call.operands.isEmpty then ["echo"] else call.operands
  let lines := match plan.mark with
    | some mark => items.map fun (text, _) =>
      command.take 1 ++ command.tail.map fun word => word.replace mark text
    | none =>
      let groups := share plan items 0 []
      let isAlone := groups.isEmpty && wrong.isNone && !call.has 'r'
      (if isAlone then [[]] else groups).map (command ++ ·)
  let code ← runAll launcher lines 0
  if let some message := wrong then refuse "xargs" message 1
  return code

end Xargs

end ProgramAnalysis.Shell
