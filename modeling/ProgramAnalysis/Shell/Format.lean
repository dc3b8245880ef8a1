import ProgramAnalysis.Shell.Arithmetic

/-!
Numbers with fractions, dates, and what `echo` and `printf` write.
-/

namespace ProgramAnalysis.Shell

open String (ofList)

namespace Floating

inductive Parts where
  | notNumber
  | infinite
  | finite (size : Nat) (exponent : Int)

variable (x : Float)

def split : Bool × Parts :=
  let bits := x.toBits.toNat
  let isNegative := bits / 9223372036854775808 = 1
  let exponent := bits / 4503599627370496 % 2048
  let fraction := bits % 4503599627370496
  let parts : Parts :=
    if exponent = 2047 then if fraction = 0 then .infinite else .notNumber
    else if exponent = 0 then .finite fraction (-1074)
    else .finite (fraction + 4503599627370496) (Int.ofNat exponent - 1075)
  (isNegative, parts)

def ratio (size : Nat) (exponent : Int) : Nat × Nat :=
  if exponent ≥ 0 then (size * Nat.pow 2 exponent.toNat, 1) else (size, Nat.pow 2 (-exponent).toNat)

def nearest (numerator denominator : Nat) : Nat :=
  let whole := numerator / denominator
  let twice := 2 * (numerator % denominator)
  if twice < denominator ∨ (twice = denominator ∧ whole % 2 = 0) then whole else whole + 1

variable (fraction : Nat × Nat) (power : Int)

def scaled : Nat :=
  if power ≥ 0 then nearest (fraction.1 * Nat.pow 10 power.toNat) fraction.2
  else nearest fraction.1 (fraction.2 * Nat.pow 10 (-power).toNat)

def withPoint (digits : Chars) (places : Nat) (marked : Bool) : Chars :=
  let digits := digits.leftpad (places + 1) '0'
  let (whole, fraction) := digits.splitAt (digits.length - places)
  whole ++ if places = 0 && !marked then [] else '.' :: fraction

variable (places : Nat)

def fixed (marked : Bool) : Chars :=
  withPoint (toString (scaled fraction places)).toList places marked

def magnitude : Int :=
  let guess := Int.ofNat (toString fraction.1).length - Int.ofNat (toString fraction.2).length
  let isAbove (power : Int) : Bool :=
    if power ≥ 0 then fraction.1 < fraction.2 * Nat.pow 10 power.toNat
    else fraction.1 * Nat.pow 10 (-power).toNat < fraction.2
  if isAbove guess then guess - 1 else guess

def leading : Chars × Int :=
  if fraction.1 = 0 then (List.replicate (places + 1) '0', 0)
  else
    let power := magnitude fraction
    let digits := scaled fraction (Int.ofNat places - power)
    if digits = Nat.pow 10 (places + 1) then ((toString (digits / 10)).toList, power + 1)
    else ((toString digits).toList, power)

def exponentText (upper : Bool) : Chars :=
  (if upper then 'E' else 'e') :: (if power < 0 then '-' else '+') ::
    (toString power.natAbs).toList.leftpad 2 '0'

variable (text : Chars)

def withoutZeros : Chars :=
  if text.contains '.' then
    let kept := text.reverse.dropWhile (· = '0')
    (if kept.head? = some '.' then kept.tail else kept).reverse
  else text

def general (precision : Nat) (upper marked : Bool) : Chars :=
  let count := max 1 precision
  let (digits, power) := leading fraction (count - 1)
  let trim (text : Chars) : Chars := if marked then text else withoutZeros text
  if -4 ≤ power ∧ power < Int.ofNat count then
    trim (fixed fraction (Int.ofNat count - 1 - power).toNat marked)
  else trim (withPoint digits (count - 1) marked) ++ exponentText power upper

def digits (letter : Char) (precision : Option Nat) (marked : Bool) (parts : Parts) : Chars :=
  let upper := letter.isUpper
  match parts with
  | .infinite => "inf".toList
  | .notNumber => "nan".toList
  | .finite size exponent =>
    let fraction := ratio size exponent
    let places := precision.getD 6
    match letter.toLower with
    | 'f' => fixed fraction places marked
    | 'e' =>
      let (digits, power) := leading fraction places
      withPoint digits places marked ++ exponentText power upper
    | _ => general fraction places upper marked

def isFinite : Parts → Bool
  | .finite .. => true
  | _ => false

/-! ### Reading -/

def ofDecimal (isNegative : Bool) (digits : Nat) (power : Int) : Float :=
  let size := if digits = 0 then 0.0
    else if power ≥ 0 then
      if power > 400 then 1.0 / 0.0 else Float.ofScientific digits false power.toNat
    else if power < -2000 then 0.0
    else Float.ofScientific digits true (-power).toNat
  if isNegative then -size else size

def decimal? : Option (Nat × Int × Chars) :=
  let (whole, rest) := text.span Char.isDigit
  let (fraction, rest) := if rest.head? = some '.' then rest.tail.span Char.isDigit else ([], rest)
  let value := digitsValue 10 (whole ++ fraction)
  let power := -Int.ofNat fraction.length
  let (isNegative, later) := signOf rest.tail
  let (digits, later) := later.span Char.isDigit
  if whole.isEmpty ∧ fraction.isEmpty then none
  else if digits.isEmpty ∨ rest.head?.all (fun e => e ≠ 'e' && e ≠ 'E') then
    some (value, power, rest)
  else
    let size := Int.ofNat (digitsValue 10 digits)
    some (value, power + (if isNegative then -size else size), later)

def read? : Option (Float × Chars) :=
  let (isNegative, body) := signOf (text.dropWhile isSpace)
  (decimal? body).map fun (value, power, rest) => (ofDecimal isNegative value power, rest)

/-! ### Arithmetic -/

def remainder (a b : Float) : Float :=
  match split a, split b with
  | (isNegative, .finite x e), (_, .finite y f) =>
    if y = 0 then 0.0 / 0.0
    else
      let least := min e f
      let left := x * Nat.pow 2 (e - least).toNat % (y * Nat.pow 2 (f - least).toNat)
      let size := (Float.ofNat left).scaleB least
      if isNegative then -size else size
  | (_, .finite ..), (_, .infinite) => a
  | _, _ => 0.0 / 0.0

def toInt? : Option Int :=
  match split x with
  | (isNegative, .finite size exponent) =>
    let (numerator, denominator) := ratio size exponent
    if numerator % denominator = 0 then
      let value := Int.ofNat (numerator / denominator)
      some (if isNegative then -value else value)
    else none
  | _ => none

def truncate : Float := if x < 0 then x.ceil else x.floor

end Floating

structure Moment where
  year : Int
  month : Nat
  day : Nat
  hour : Nat := 0
  minute : Nat := 0
  second : Nat := 0
  deriving DecidableEq

namespace Moment

def daysFromDate (year : Int) (month day : Nat) : Int :=
  let year := if month ≤ 2 then year - 1 else year
  let era := year.fdiv 400
  let yearOfEra := year - era * 400
  let monthFromMarch : Int := (month + 9) % 12
  let dayOfYear := (153 * monthFromMarch + 2) / 5 + day - 1
  let dayOfEra := yearOfEra * 365 + yearOfEra / 4 - yearOfEra / 100 + dayOfYear
  era * 146097 + dayOfEra - 719468

def dateFromDays (days : Int) : Int × Nat × Nat :=
  let shifted := days + 719468
  let era := shifted.fdiv 146097
  let dayOfEra := shifted - era * 146097
  let yearOfEra := (dayOfEra - dayOfEra / 1460 + dayOfEra / 36524 - dayOfEra / 146096) / 365
  let dayOfYear := dayOfEra - (365 * yearOfEra + yearOfEra / 4 - yearOfEra / 100)
  let monthFromMarch := (5 * dayOfYear + 2) / 153
  let day := dayOfYear - (153 * monthFromMarch + 2) / 5 + 1
  let month := if monthFromMarch < 10 then monthFromMarch + 3 else monthFromMarch - 9
  let year := yearOfEra + era * 400 + if month ≤ 2 then 1 else 0
  (year, month.toNat, day.toNat)

variable (moment : Moment)

def toSeconds : Int :=
  daysFromDate moment.year moment.month moment.day * 86400 + moment.hour * 3600 +
    moment.minute * 60 + moment.second

def ofSeconds (seconds : Int) : Moment :=
  let days := seconds.fdiv 86400
  let rest := (seconds - days * 86400).toNat
  let (year, month, day) := dateFromDays days
  { year, month, day, hour := rest / 3600, minute := rest / 60 % 60, second := rest % 60 }

def weekday : Nat :=
  ((daysFromDate moment.year moment.month moment.day + 4).emod 7).toNat

def yearDay : Nat :=
  (daysFromDate moment.year moment.month moment.day - daysFromDate moment.year 1 1 + 1).toNat

def dayNames : List String :=
  ["Sunday", "Monday", "Tuesday", "Wednesday", "Thursday", "Friday", "Saturday"]

def monthNames : List String :=
  ["January", "February", "March", "April", "May", "June", "July", "August", "September",
    "October", "November", "December"]

/-! ### Formats -/

def piece (letter : Char) : String :=
  let month := monthNames.getD (moment.month - 1) ""
  let day := dayNames.getD moment.weekday ""
  let short (name : String) : String := ofList (name.toList.take 3)
  let filled (fill : Char) (width n : Nat) : String :=
    ofList ((toString n).toList.leftpad width fill)
  match letter with
  | '%' => "%"
  | 'Y' => toString moment.year
  | 'y' => filled '0' 2 (moment.year.emod 100).toNat
  | 'm' => filled '0' 2 moment.month
  | 'd' => filled '0' 2 moment.day
  | 'e' => filled ' ' 2 moment.day
  | 'H' => filled '0' 2 moment.hour
  | 'M' => filled '0' 2 moment.minute
  | 'S' => filled '0' 2 moment.second
  | 's' => toString moment.toSeconds
  | 'j' => filled '0' 3 moment.yearDay
  | 'a' => short day
  | 'A' => day
  | 'b' | 'h' => short month
  | 'B' => month
  | 'u' => toString ((moment.weekday + 6) % 7 + 1)
  | 'Z' => "UTC"
  | _ => "%" ++ String.singleton letter

def formatWith (moment : Moment) : Nat → Chars → Chars
  | 0, _ | _, [] => []
  | fuel + 1, '%' :: letter :: rest =>
    let shown := match letter with
      | 'F' => formatWith moment fuel "%Y-%m-%d".toList
      | 'T' => formatWith moment fuel "%H:%M:%S".toList
      | _ => (moment.piece letter).toList
    shown ++ formatWith moment fuel rest
  | fuel + 1, c :: rest => c :: formatWith moment fuel rest

def format (form : String) : String :=
  ofList (formatWith moment (form.length + 24) form.toList)

/-! ### Reading -/

def isValid : Bool :=
  1 ≤ moment.month && moment.month ≤ 12 && 1 ≤ moment.day && moment.hour < 24 &&
    moment.minute < 60 && moment.second < 61 &&
    (dateFromDays (daysFromDate moment.year moment.month moment.day)).2.2 = moment.day

variable (text : String)

def ofStamp? : Option Moment := do
  let digits := text.toList
  let number (start count : Nat) : Nat := digitsValue 10 ((digits.drop start).take count)
  let moment : Moment :=
    { year := number 0 4, month := number 4 2, day := number 6 2, hour := number 8 2,
      minute := number 10 2, second := 0 }
  if digits.length = 12 ∧ digits.all Char.isDigit ∧ moment.isValid then some moment else none

def ofText? : Option Int := do
  let numbers (c : Char) (word : String) : Option (List Nat) :=
    (Text.splitAt c word).mapM String.toNat?
  let (date, time) ← match Text.words text with
    | [word] => some (word, "00:00")
    | [date, time] => some (date, time)
    | _ => none
  if let some stamp := Text.dropStart? "@" date then return ← stamp.toInt?
  let [year, month, day] ← numbers '-' date | none
  let hour :: minute :: seconds ← numbers ':' time | none
  let moment : Moment := { year, month, day, hour, minute, second := seconds.headD 0 }
  if moment.isValid then some moment.toSeconds else none

end Moment

/-! ### Escapes -/

def octal (count : Nat) (cs : Chars) : Char × Chars :=
  let digits := (cs.take count).takeWhile (digitValue · < 8)
  (Char.ofNat (digitsValue 8 digits % 256), cs.drop digits.length)

def escape? (cs : Chars) : Option (Char × Chars) :=
  match cs with
  | [] => none
  | c :: rest =>
    if digitValue c < 8 then some (octal 3 cs)
    else (letterEscape? c).map (·, rest)

def escapes : Nat → Chars → Chars × Bool
  | 0, _ | _, [] => ([], false)
  | fuel + 1, c :: rest =>
    if c = '\\' ∧ rest.head? = some 'c' then ([], true)
    else
      let (c, later) := match c, rest with
        | '\\', '0' :: later => octal 3 later
        | '\\', _ => (escape? rest).getD (c, rest)
        | _, _ => (c, rest)
      let (others, stopped) := escapes fuel later
      (c :: others, stopped)

def echo (args : List String) : String :=
  let (args, ending) := match args with
    | "-n" :: rest => (rest, "")
    | args => (args, "\n")
  let text := (" ".intercalate args).toList
  let (chars, stopped) := escapes (text.length + 1) text
  ofList chars ++ if stopped then "" else ending

/-! ### Formats -/

inductive Complaint where
  | notNumber (arg : String)
  | leftover (arg : String)
  | outOfRange (arg : String)
  | badDirective (directive : String)
  | endsEarly
  deriving DecidableEq

def Complaint.message : Complaint → String
  | notNumber arg => arg ++ ": expected numeric value"
  | leftover arg => arg ++ ": not completely converted"
  | outOfRange arg => arg ++ ": Numerical result out of range"
  | badDirective directive => directive ++ ": invalid directive"
  | endsEarly => "missing format character"

structure Formatted where
  written : String := ""
  complaints : List Complaint := []
  args : List String
  status : Nat := 0

abbrev Formatter (α : Type) := EStateM Unit Formatted α

structure Layout where
  left : Bool := false
  plus : Bool := false
  space : Bool := false
  zeros : Bool := false
  marked : Bool := false
  width : Nat := 0
  precision : Option Nat := none

namespace Layout

variable (layout : Layout)

def fill (text : String) : String :=
  let gap := ofList (List.replicate (layout.width - text.length) ' ')
  if layout.left then text ++ gap else gap ++ text

def number (sign digits : String) (isZero : Bool) : String :=
  let zeros (count : Nat) : String := ofList (List.replicate count '0')
  let digits := if isZero ∧ layout.precision = some 0 then "" else digits
  let digits := zeros (layout.precision.getD 0 - digits.length) ++ digits
  if layout.zeros ∧ !layout.left ∧ layout.precision.isNone then
    sign ++ zeros (layout.width - sign.length - digits.length) ++ digits
  else layout.fill (sign ++ digits)

def sign (isNegative : Bool) : String :=
  if isNegative then "-" else if layout.plus then "+" else if layout.space then " " else ""

def decimal (value : Int) : String :=
  layout.number (layout.sign (value < 0)) (toString value.natAbs) (value = 0)

variable (letter : Char)

def natural (value : Nat) : String :=
  let (base, mark) := match letter with
    | 'o' => (8, "0")
    | 'x' => (16, "0x")
    | 'X' => (16, "0X")
    | _ => (10, "")
  let digits := Nat.toDigits base value
  let digits := if letter = 'X' then digits.map Char.toUpper else digits
  layout.number (if layout.marked ∧ value ≠ 0 then mark else "") (ofList digits) (value = 0)

def real (value : Float) : String :=
  let (isNegative, parts) := Floating.split value
  let digits := ofList (Floating.digits letter layout.precision layout.marked parts)
  let sign := layout.sign isNegative
  if layout.zeros ∧ !layout.left ∧ Floating.isFinite parts then
    sign ++ ofList (List.replicate (layout.width - sign.length - digits.length) '0') ++ digits
  else layout.fill (sign ++ digits)

def cut (text : Chars) : String :=
  ofList (text.take (layout.precision.getD text.length))

end Layout

namespace Formatter

def emit (text : String) : Formatter Unit :=
  modify fun state => { state with written := state.written ++ text }

def complain (complaint : Complaint) : Formatter Unit :=
  modify fun state => { state with complaints := state.complaints ++ [complaint], status := 1 }

def refuse (complaint : Complaint) : Formatter α := do
  complain complaint
  modify ({ · with status := 2 })
  throw ()

def argument? : Formatter (Option String) := do
  let next := (← get).args.head?
  modify fun state => { state with args := state.args.tail }
  return next

def numeral (ofNat : Nat → α) (read? : Chars → Option (α × Chars)) (isOutside : α → Bool) :
    Formatter α := do
  let some arg ← argument? | return ofNat 0
  match arg.toList, read? arg.toList with
  | '"' :: rest, _ | '\'' :: rest, _ => return ofNat (rest.headD (Char.ofNat 0)).toNat
  | _, some (value, rest) =>
    if !rest.isEmpty then complain (.leftover arg)
    else if isOutside value then complain (.outOfRange arg)
    return value
  | _, none =>
    if arg ≠ "" then complain (.notNumber arg)
    return ofNat 0

def integer (smallest largest : Int) (outside : Option Int) : Formatter Int := do
  let within (value : Int) : Int := max smallest (min largest value)
  let value ← numeral Int.ofNat readInteger? fun value => value ≠ within value
  return if value = within value then value else outside.getD (within value)

def signed : Formatter Int := integer (-9223372036854775808) 9223372036854775807 none

def unsigned : Formatter Nat := do
  let most := 18446744073709551615
  let value ← integer (-most) most (some most)
  return (value % 18446744073709551616).toNat

def real : Formatter Float := numeral Float.ofNat Floating.read? fun _ => false

def flags (layout : Layout) : Chars → Layout × Chars
  | '-' :: rest => flags { layout with left := true } rest
  | '+' :: rest => flags { layout with plus := true } rest
  | ' ' :: rest => flags { layout with space := true } rest
  | '0' :: rest => flags { layout with zeros := true } rest
  | '#' :: rest => flags { layout with marked := true } rest
  | rest => (layout, rest)

def size (cs : Chars) : Formatter (Int × Chars) := do
  match cs with
  | '*' :: rest => return (← signed, rest)
  | _ => return (Int.ofNat (digitsValue 10 (cs.takeWhile Char.isDigit)), cs.dropWhile Char.isDigit)

def conversion (layout : Layout) (directive : String) (letter : Char) : Formatter Unit := do
  match letter with
  | 's' => emit (layout.fill (layout.cut ((← argument?).getD "").toList))
  | 'c' =>
    let arg := (← argument?).getD ""
    emit (layout.fill (String.singleton (arg.toList.headD (Char.ofNat 0))))
  | 'b' =>
    let arg := ((← argument?).getD "").toList
    let (text, stopped) := escapes (arg.length + 1) arg
    emit (layout.fill (layout.cut text))
    if stopped then throw ()
  | 'd' | 'i' => emit (layout.decimal (← signed))
  | 'u' | 'o' | 'x' | 'X' => emit (layout.natural letter (← unsigned))
  | 'e' | 'E' | 'f' | 'F' | 'g' | 'G' => emit (layout.real letter (← real))
  | _ => refuse (.badDirective directive)

def directive (cs : Chars) : Formatter Chars := do
  let (layout, afterFlags) := flags {} cs
  let (width, afterWidth) ← size afterFlags
  let layout := { layout with width := width.natAbs, left := layout.left || width < 0 }
  let (layout, rest) ← match afterWidth with
    | '.' :: later => do
      let (precision, rest) ← size later
      let precision := if precision < 0 then none else some precision.toNat
      pure ({ layout with precision }, rest)
    | rest => pure (layout, rest)
  match rest with
  | [] => refuse .endsEarly
  | letter :: later =>
    let read := cs.take (cs.length - later.length)
    conversion layout (ofList ('%' :: read)) letter
    return later

def once : Nat → Chars → Formatter Unit
  | 0, _ | _, [] => return
  | fuel + 1, '%' :: '%' :: rest => do
    emit "%"
    once fuel rest
  | fuel + 1, '%' :: rest => do once fuel (← directive rest)
  | fuel + 1, c :: rest => do
    let (c, later) := if c = '\\' then (escape? rest).getD (c, rest) else (c, rest)
    emit (String.singleton c)
    once fuel later

def repeated (format : Chars) : Nat → Formatter Unit
  | 0 => return
  | passes + 1 => do
    let before := (← get).args
    once (format.length + 1) format
    let after := (← get).args
    if !after.isEmpty ∧ after.length < before.length then repeated format passes

end Formatter

def printf (format : String) (args : List String) : Formatted :=
  match Formatter.repeated format.toList (args.length + 1) { args } with
  | .ok _ state | .error _ state => state

end ProgramAnalysis.Shell
