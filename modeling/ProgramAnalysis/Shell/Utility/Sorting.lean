import ProgramAnalysis.Shell.Utility.Files

/-!
The programs that sort, compare and join lines and columns.
-/

namespace ProgramAnalysis.Shell

open String (ofList)

namespace Columns

/-! ### Sets of characters -/

def unescape : Nat → Chars → List (Char × Bool)
  | 0, _ | _, [] => []
  | fuel + 1, '\\' :: c :: rest =>
    let (read, later) := (escape? (c :: rest)).getD (c, rest)
    (read, true) :: unescape fuel later
  | fuel + 1, c :: rest => (c, false) :: unescape fuel rest

abbrev SetPart := Chars ⊕ Char

def bytes : Chars := (List.range 256).map Char.ofNat

def bracketed? (chars : List (Char × Bool)) : Option (SetPart × List (Char × Bool)) :=
  let upTo (rest : List (Char × Bool)) : Chars :=
    (rest.takeWhile fun (c, _) => c.isAlphanum).map (·.1)
  match chars with
  | ('[', false) :: (':', _) :: rest =>
    let name := upTo rest
    match rest.drop name.length with
    | (':', _) :: (']', _) :: later =>
      some (.inl (bytes.filter (inClass (ofList name))), later)
    | _ => none
  | ('[', false) :: (c, _) :: ('*', false) :: rest =>
    let digits := upTo rest
    match rest.drop digits.length with
    | (']', _) :: later =>
      let count := digitsValue 10 digits
      some (if digits.isEmpty then .inr c else .inl (List.replicate count c), later)
    | _ => none
  | _ => none

def setParts : Nat → List (Char × Bool) → List SetPart
  | 0, _ | _, [] => []
  | fuel + 1, (a, escaped) :: rest =>
    let (part, later) := match bracketed? ((a, escaped) :: rest), rest with
      | some read, _ => read
      | none, ('-', false) :: (b, _) :: later =>
        (.inl ((List.range' a.toNat (b.toNat + 1 - a.toNat)).map Char.ofNat), later)
      | none, _ => (.inl [a], rest)
    part :: setParts fuel later

def charsOf (length : Nat) (parts : List SetPart) : Chars :=
  let known := parts.foldl (fun sum part => sum + part.elim List.length fun _ => 0) 0
  parts.flatMap fun part => part.elim (fun chars => chars) (List.replicate (length - known) ·)

def readSet (text : String) : List SetPart :=
  let chars := unescape (text.length + 1) text.toList
  setParts (chars.length + 1) chars

def squeeze (isInside : Char → Bool) (chars : Chars) : Chars :=
  (chars.foldl (fun (kept : Chars) c =>
    if kept.head? = some c && isInside c then kept else c :: kept) []).reverse

def tr : Utility := withOptions "tr" "+cCdst" 1 fun call => do
  let first :: rest := call.operands | misuse "tr" "missing operand" 1
  let given := charsOf 0 (readSet first)
  let first := if call.has 'c' || call.has 'C' then bytes.filter (!given.contains ·) else given
  let second := charsOf first.length (readSet (rest.headD ""))
  let kept := if call.has 't' then first.take second.length else first
  let pairs := kept.zipIdx.map fun (c, i) => (c, second.getD i (second.getLastD ' '))
  let chart := (bytes.map fun c => (pairs.reverse.lookup c).getD c).toArray
  let _ ← forFiles (unreadable "tr") [] fun text =>
    let changed := if call.has 'd' then text.toList.filter (!first.contains ·)
      else if rest.isEmpty then text.toList
      else text.toList.map fun c => chart.getD c.toNat c
    ofList (if call.has 's' then
        squeeze (if rest.isEmpty then first else second).contains changed
      else changed)
  return 0

/-! ### Parts of lines -/

def range? (text : String) : Option (Nat × Option Nat) :=
  match Text.cutAt? '-' text with
  | none => (natural? text).map fun n => (n, some n)
  | some ("", last) => (natural? last).map fun last => (1, some last)
  | some (first, "") => (natural? first).map (·, none)
  | some (first, last) => do return (← natural? first, some (← natural? last))

def cut : Utility := withOptions "cut" "snb:c:d:f:" 1 fun call => do
  let isFields := call.has 'f'
  let some list := ['b', 'c', 'f'].findSome? call.value?
    | misuse "cut" "you must specify a list of bytes, characters, or fields" 1
  let what := if isFields then "invalid field value " else "invalid byte/character position "
  let ranges ← orMisuse "cut" (what ++ quoted list) 1 ((Text.splitAt ',' list).mapM range?)
  let delimiter := ((call.value? 'd').getD "\t").toList.headD (Char.ofNat 0)
  let isKept (n : Nat) : Bool := ranges.any fun (first, last) => first ≤ n && last.all (n ≤ ·)
  let kept {α : Type} (pieces : List α) : List α :=
    ((pieces.zipIdx 1).filter fun (_, i) => isKept i).map (·.1)
  let shown (line : String) : Option String :=
    let pieces := Text.splitAt delimiter line
    if !isFields then some (ofList (kept line.toList))
    else if pieces.length = 1 then if call.has 's' then none else some line
    else some ((String.singleton delimiter).intercalate (kept pieces))
  forFiles (unreadable "cut") call.operands fun text => ofLines ((linesOf text).filterMap shown)

/-! ### Putting lines together -/

def delimiters : Chars → List String
  | '\\' :: '0' :: rest => "" :: delimiters rest
  | '\\' :: c :: rest => String.singleton ((letterEscape? c).getD c) :: delimiters rest
  | c :: rest => String.singleton c :: delimiters rest
  | [] => []

def joinBy (delimiters : Array String) (cells : List String) : String :=
  String.join (cells.zipIdx.map fun (cell, i) =>
    (if i = 0 then "" else delimiters.getD ((i - 1) % delimiters.size) "") ++ cell)

def paste : Utility := withOptions "paste" "sd:" 1 fun call => do
  let delimiters := (delimiters ((call.value? 'd').getD "\t").toList).toArray
  let names := orInput call.operands
  if call.has 's' then
    let (texts, code) ← readFiles (unreadable "paste") names
    emit (ofLines (texts.map fun text => joinBy delimiters (linesOf text)))
    return code
  -- The lines of the input are dealt out to the columns that are made of it.
  let input ← if names.contains "-" then do pure (linesOf ((← readAll 0).toOption.getD ""))
    else pure []
  let columns ← names.zipIdx.mapM fun (name, i) => do
    if name ≠ "-" then return (linesOf (← textIn "paste" name)).toArray
    let isDealt (j : Nat) : Bool := j % names.count "-" = (names.take i).count "-"
    return ((input.zipIdx.filter (isDealt ·.2)).map (·.1)).toArray
  let height := columns.foldl (fun height column => max height column.size) 0
  tell (ofLines ((List.range height).map fun i =>
    joinBy delimiters (columns.map fun column => column.getD i "")))

end Columns

namespace Joining

/-! ### Comparing -/

def compareLines (a b : List String) : List (Char × String) :=
  match a, b with
  | [], b => b.map ('2', ·)
  | a, [] => a.map ('1', ·)
  | x :: a, y :: b =>
    match compare x y with
    | .lt => ('1', x) :: compareLines a (y :: b)
    | .gt => ('2', y) :: compareLines (x :: a) b
    | .eq => ('3', x) :: compareLines a b
termination_by a.length + b.length

def withTwo (name known : String) (run : Invocation → String → String → Run Nat) : Utility :=
  withOptions name known 1 fun call => do
    atMost 2 name call
    match call.operands with
    | [first, second] => run call (← textIn name first) (← textIn name second)
    | [only] => misuse name ("missing operand after " ++ quoted only) 1
    | _ => misuse name "missing operand" 1

def comm : Utility := withTwo "comm" "123" fun call first second => do
  let shown := (compareLines (linesOf first) (linesOf second)).filterMap fun (column, line) =>
    if call.has column then none
    else some ("".pushn '\t' (['1', '2'].countP fun c => c < column && !call.has c) ++ line)
  tell (ofLines shown)

/-! ### Joining -/

abbrev Row := List String

/-- How lines are joined and shown. The parts of a result are a file and a field of it, and file 0
is what both have in common. -/
structure Plan where
  firstField : Nat
  secondField : Nat
  separator : Option Char
  fold : Bool
  filler : String
  shape : List (Char × Nat)

namespace Plan

variable (plan : Plan)

def rows (text : String) : List Row :=
  (linesOf text).map fun line =>
    match plan.separator with
    | some c => Text.splitAt c line
    | none => (wordsBy line isBlank).map ofList

def keyOf (field : Nat) (row : Row) : String :=
  if plan.fold then (row.getD field "").toLower else row.getD field ""

def result (a b : Row) : String :=
  let fill (field : Option String) : String := (field.filter (· ≠ "")).getD plan.filler
  let key := if a.isEmpty then b[plan.secondField]? else a[plan.firstField]?
  let fields := if plan.shape.isEmpty then
      (key :: (a.eraseIdx plan.firstField ++ b.eraseIdx plan.secondField).map some).map fill
    else plan.shape.map fun (file, index) => fill (match file with
      | '1' => a[index]?
      | '2' => b[index]?
      | _ => key)
  (String.singleton (plan.separator.getD ' ')).intercalate fields

def joined (plan : Plan) (shows : Char → Bool) (pairs : Bool) :
    Nat → List Row → List Row → List String
  | fuel + 1, x :: xs, y :: ys =>
    let key := plan.keyOf plan.firstField x
    match compare key (plan.keyOf plan.secondField y) with
    | .lt => alone '1' [x] ++ joined plan shows pairs fuel xs (y :: ys)
    | .gt => alone '2' [y] ++ joined plan shows pairs fuel (x :: xs) ys
    | .eq =>
      let first := (x :: xs).takeWhile fun row => plan.keyOf plan.firstField row = key
      let second := (y :: ys).takeWhile fun row => plan.keyOf plan.secondField row = key
      (if pairs then first.flatMap fun x => second.map (plan.result x) else []) ++
        joined plan shows pairs fuel ((x :: xs).drop first.length) ((y :: ys).drop second.length)
  | _, xs, ys => alone '1' xs ++ alone '2' ys
where
  alone (file : Char) (rows : List Row) : List String :=
    if !shows file then []
    else rows.map fun row => if file = '1' then plan.result row [] else plan.result [] row

end Plan

def planOf (call : Invocation) : Plan :=
  let field (flag : Char) : Nat := ((call.number? flag).or (call.number? 'j')).getD 1 - 1
  let shape := (call.values 'o').flatMap fun text =>
    (Text.pieces (fun c => c = ',' || c = ' ') text.toList).map fun word =>
      (word.headD '0', digitsValue 10 (word.drop 2) - 1)
  { firstField := field '1', secondField := field '2', fold := call.has 'i'
    separator := (call.value? 't').bind (·.toList.head?)
    filler := (call.value? 'e').getD "", shape }

def join : Utility := withTwo "join" "ia:e:v:o:1:2:j:t:" fun call first second => do
  let plan := planOf call
  let only := call.values 'v'
  let shows (file : Char) : Bool := (call.values 'a' ++ only).contains (String.singleton file)
  let a := plan.rows first
  let b := plan.rows second
  tell (ofLines (plan.joined shows only.isEmpty (a.length + b.length + 1) a b))

end Joining

namespace Versions

def rank : Chars → Int
  | [] => -1
  | c :: _ =>
    if c.isDigit then 0
    else if c.isAlpha then c.toNat
    else if c = '~' then -2
    else c.toNat + 256

def compareNames : Nat → Chars → Chars → Ordering × Chars × Chars
  | 0, a, b => (.eq, a, b)
  | fuel + 1, a, b =>
    let isOther (chars : Chars) : Bool := chars.head?.any fun c => !c.isDigit
    if isOther a || isOther b then
      match compare (rank a) (rank b) with
      | .eq => compareNames fuel a.tail b.tail
      | order => (order, [], [])
    else (.eq, a, b)

def compareParts : Nat → Chars → Chars → Ordering
  | 0, _, _ => .eq
  | fuel + 1, a, b =>
    if a.isEmpty ∧ b.isEmpty then .eq
    else
      match compareNames (a.length + b.length + 1) a b with
      | (.eq, a, b) =>
        let (x, a) := a.span Char.isDigit
        let (y, b) := b.span Char.isDigit
        (compare (digitsValue 10 x) (digitsValue 10 y)).then (compareParts fuel a b)
      | (order, _, _) => order

def compareAll (a b : Chars) : Ordering := compareParts (a.length + b.length + 2) a b

end Versions

namespace Sorting

/-! ### Numbers in text -/

structure Written where
  value : Int
  places : Nat
  unit : Int

namespace Written

def ofChars (chars : Chars) : Written :=
  let body := chars.dropWhile isGap
  let sign : Int := if body.head? = some '-' then -1 else 1
  let (whole, rest) := (if sign < 0 then body.tail else body).span Char.isDigit
  let (fraction, rest) := if rest.head? = some '.' then rest.tail.span Char.isDigit else ([], rest)
  let size := digitsValue 10 (whole ++ fraction)
  let letter := if rest.head? = some 'k' then 'K' else rest.headD ' '
  let unit := if size = 0 then 0 else ("KMGTPEZYRQ".toList.idxOf? letter).elim 0 (· + 1)
  { value := sign * size, places := fraction.length, unit := sign * unit }

def compareBy (withUnits : Bool) (a b : Written) : Ordering :=
  (if withUnits then compare a.unit b.unit else .eq).then
    (compare (a.value * Int.ofNat (Nat.pow 10 b.places))
      (b.value * Int.ofNat (Nat.pow 10 a.places)))

end Written

def compareGeneral (a b : Chars) : Ordering :=
  match Floating.read? (a.dropWhile isSpace), Floating.read? (b.dropWhile isSpace) with
  | some (x, _), some (y, _) => if x < y then .lt else if x > y then .gt else .eq
  | x, y => compare x.isSome y.isSome

def month (chars : Chars) : Nat :=
  let name := ofList (((chars.dropWhile isGap).take 3).map Char.toUpper)
  let months := ["JAN", "FEB", "MAR", "APR", "MAY", "JUN", "JUL", "AUG", "SEP", "OCT", "NOV", "DEC"]
  (months.idxOf? name).elim 0 (· + 1)

/-! ### Keys -/

structure Key where
  startField : Nat := 0
  startChar : Nat := 0
  stop : Option (Nat × Nat) := none
  skipsAtStart : Bool := false
  skipsAtStop : Bool := false
  flags : Chars := []

namespace Key

def dropFields (separator : Option Char) (keepsLast : Bool) : Nat → Chars → Chars
  | 0, chars => chars
  | count + 1, chars =>
    dropFields separator keepsLast count (match separator with
      | some c =>
        let rest := chars.dropWhile (· ≠ c)
        if count = 0 ∧ keepsLast then rest else rest.tail
      | none => (chars.dropWhile isGap).dropWhile (!isGap ·))

def extract (key : Key) (separator : Option Char) (line : Chars) : Chars :=
  let place (skips : Bool) (field char : Nat) : Chars :=
    let rest := dropFields separator false field line
    (if skips then rest.dropWhile isGap else rest).drop char
  let start := place key.skipsAtStart key.startField key.startChar
  match key.stop with
  | none => start
  | some (field, char) =>
    let rest := if char = 0 then dropFields separator true (field + 1) line
      else place key.skipsAtStop field char
    start.take (start.length - rest.length)

def compareBy (flags : Chars) (a b : Chars) : Ordering :=
  let has := flags.contains
  let order :=
    if has 'n' || has 'h' then
      Written.compareBy (!has 'n') (Written.ofChars a) (Written.ofChars b)
    else if has 'g' then compareGeneral a b
    else if has 'M' then compare (month a) (month b)
    else
      let counts (c : Char) : Bool :=
        (!has 'd' || c.isAlphanum || isGap c) && (!has 'i' || (' ' ≤ c && c ≤ '~'))
      let prepare (chars : Chars) : Chars :=
        (chars.filter counts).map fun c => if has 'f' then c.toUpper else c
      if has 'V' then Versions.compareAll (prepare a) (prepare b)
      else compare (ofList (prepare a)) (ofList (prepare b))
  if has 'r' then order.swap else order

def number (chars : Chars) : Option (Nat × Chars) :=
  let (digits, rest) := chars.span Char.isDigit
  if digits.isEmpty then none else some (digitsValue 10 digits, rest)

def orderLetters : Chars := "bdfgiMhnrV".toList

def position (start : Nat) (chars : Chars) : Except String (Nat × Nat × Chars × Chars) :=
  match number chars with
  | none =>
    .error ("invalid number at field start: invalid count at start of " ++ quoted (ofList chars))
  | some (field, rest) =>
    let (char, rest) := match rest with
      | '.' :: rest => (number rest).getD (start, rest)
      | _ => (start, rest)
    .ok (field - 1, char - start, rest.span orderLetters.contains)

def ofText (text : String) : Except String Key := do
  let (startField, startChar, letters, rest) ← position 1 text.toList
  let key : Key := { startField, startChar, skipsAtStart := letters.contains 'b', flags := letters }
  match rest with
  | [] => return key
  | ',' :: rest =>
    let (field, char, later, _) ← position 0 rest
    return { key with
      stop := some (field, char), skipsAtStop := later.contains 'b', flags := letters ++ later }
  | _ => throw ("stray character in field spec: invalid field specification " ++ quoted text)

end Key

/-! ### Lines -/

structure Order where
  keys : List Key
  separator : Option Char
  isReversed : Bool
  isFinal : Bool

structure Prepared where
  line : String
  parts : List Chars

variable (order : Order)

def Order.prepare (line : String) : Prepared :=
  { line, parts := order.keys.map fun key => key.extract order.separator line.toList }

def Order.compareKeys (a b : Prepared) : Ordering :=
  (order.keys.zip (a.parts.zip b.parts)).foldl (fun result (key, x, y) =>
    result.then (Key.compareBy key.flags x y)) .eq

def Order.compare (a b : Prepared) : Ordering :=
  let whole := if order.isReversed then Ord.compare b.line a.line else Ord.compare a.line b.line
  if order.isFinal then (order.compareKeys a b).then whole else order.compareKeys a b

def orderOf (call : Invocation) : Except String Order := do
  let letters := Key.orderLetters.filter call.has
  let separator := (call.value? 't').bind (·.toList.head?)
  let keys ← (call.values 'k').mapM Key.ofText
  let inherit (key : Key) : Key :=
    if key.flags.isEmpty then
      { key with
        flags := letters
        skipsAtStart := letters.contains 'b'
        skipsAtStop := letters.contains 'b' }
    else key
  let keys := keys.map inherit
  let keys := if keys.isEmpty ∧ !(letters.filter (· ≠ 'r')).isEmpty then [inherit {}] else keys
  return {
    keys, separator
    isReversed := letters.contains 'r'
    isFinal := keys.isEmpty || !(call.has 's' || call.has 'u') }

def sort : Utility := withOptions "sort" "bcCdfghiMmnrsuVk:o:t:" 2 fun call => do
  let order ← orRefuse "sort" 2 (orderOf call)
  let (texts, code) ←
    readFiles (fun name why => "sort: cannot read: " ++ why.onName name) call.operands
  if code ≠ 0 then return 2
  let files := texts.map fun text => (linesOf text).map order.prepare
  let lines := files.flatten
  let isSame (a b : Prepared) : Bool :=
    if order.keys.isEmpty then a.line = b.line else order.compareKeys a b = .eq
  let isLE (a b : Prepared) : Bool := (order.compare a b).isLE
  if call.has 'c' || call.has 'C' then
    let some index := (lines.zip lines.tail).findIdx? fun (a, b) =>
        !isLE a b || (call.has 'u' && isSame a b)
      | return 0
    if call.has 'c' then
      complain ("sort: " ++ call.operands.headD "-" ++ ":" ++ toString (index + 2) ++
        ": disorder: " ++ (lines[index + 1]?.map (·.line)).getD "")
    return 1
  let sorted := if call.has 'm' then files.foldl (fun a b => List.merge a b isLE) []
    else lines.mergeSort isLE
  let kept := if call.has 'u' then (sorted.splitBy isSame).filterMap List.head? else sorted
  let path := (call.value? 'o').getD "/dev/stdout"
  if let .error why ← writeFile path (ofLines (kept.map (·.line))) false then
    refuse "sort" ("open failed: " ++ path ++ ": " ++ why.message) 2
  return 0

/-! ### Lines that repeat -/

def uniq : Utility := withOptions "uniq" "cduif:s:w:" 1 fun call => do
  let text ← textIn "uniq" (call.operands.headD "-")
  let part (line : String) : Chars :=
    let fields := Key.dropFields none false ((call.number? 'f').getD 0) line.toList
    let rest := fields.drop ((call.number? 's').getD 0)
    let rest := rest.take ((call.number? 'w').getD rest.length)
    rest.map fun c => if call.has 'i' then c.toLower else c
  let runs := (linesOf text).splitBy fun a b => part a = part b
  let kept := runs.filter fun members =>
    (!call.has 'd' || members.length > 1) && (!call.has 'u' || members.length = 1)
  let shown := kept.map fun members =>
    (if call.has 'c' then padLeft 7 (toString members.length) ++ " " else "") ++ members.headD ""
  let path := call.operands.getD 1 "/dev/stdout"
  if let .error why ← writeFile path (ofLines shown) false then
    refuse "uniq" (why.onName path) 1
  return 0

end Sorting

namespace Precedence

structure Item where
  name : String
  count : Nat := 0
  later : List Nat := []
  shown : Bool := false

abbrev Items := Array Item

def ofPairs (words : List String) : Items :=
  let names := (words.mergeSort fun a b => (compare a b).isLE).eraseReps
  go (Std.HashMap.ofList names.zipIdx) (names.map fun name => { name }).toArray words
where
  go (places : Std.HashMap String Nat) (items : Items) : List String → Items
    | a :: b :: rest =>
      let first := places.getD a 0
      let second := places.getD b 0
      let items := if first = second then items
        else
          (items.modify second fun item => { item with count := item.count + 1 }).modify first
            fun item => { item with later := second :: item.later }
      go places items rest
    | _ => items

def ready (items : Items) : List Nat :=
  (List.range items.size).filter fun i => (items[i]?).any fun item => item.count = 0 && !item.shown

def showReady : Nat → List Nat → Items → List String → List String × Items
  | 0, _, items, shown | _, [], items, shown => (shown, items)
  | fuel + 1, first :: queue, items, shown =>
    match items[first]? with
    | none => (shown, items)
    | some item =>
      let items := items.modify first ({ · with shown := true })
      let (items, freed) := item.later.foldl (fun (items, freed) next =>
        let items : Items := items.modify next fun item => { item with count := item.count - 1 }
        if (items[next]?).any (·.count = 0) then (items, next :: freed) else (items, freed))
        (items, ([] : List Nat))
      showReady fuel (queue ++ freed.reverse) items (item.name :: shown)

def tsort : Utility := withOptions "tsort" "" 1 fun call => do
  atMost 1 "tsort" call
  let file := call.operands.headD "-"
  let items := ofPairs ((wordsBy (← textIn "tsort" file) isSpace).map ofList)
  let (shown, items) := showReady (items.size + 1) (ready items) items []
  emit (ofLines shown.reverse)
  if !items.all (·.shown) then refuse "tsort" (quoteIfNeeded file ++ ": input contains a loop:") 1
  return 0

end Precedence

namespace Sampling

def nextSeed (seed : Nat) : Nat :=
  (seed * 6364136223846793005 + 1442695040888963407) % 18446744073709551616

def drawn (seed bound : Nat) : Nat := seed / 8589934592 % bound

def pick (items : Array String) (place seed : Nat) : Nat → List String
  | 0 => []
  | count + 1 =>
    if place ≥ items.size then []
    else
      let items := items.swapIfInBounds place (place + drawn seed (items.size - place))
      items.getD place "" :: pick items (place + 1) (nextSeed seed) count

def range? (text : String) : Option (List String) := do
  let (low, high) ← Text.cutAt? '-' text
  let low ← natural? low
  let high ← natural? high
  if high + 1 < low then none
  else some ((List.range' low (high + 1 - low)).map fun (n : Nat) => toString n)

def shuf : Utility := withOptions "shuf" "ei:n:" 1 fun call => do
  let items ← match call.value? 'i', call.has 'e' with
    | some text, _ =>
      let some items := range? text | refuse "shuf" ("invalid input range: " ++ quoted text) 1
      pure items
    | none, true => pure call.operands
    | none, false => do pure (linesOf (← textIn "shuf" (call.operands.headD "-")))
  let seed := nextSeed ((← get).world.clock.natAbs + (← get).realNumber)
  tell (ofLines (pick items.toArray 0 seed ((call.number? 'n').getD items.length)))

end Sampling

namespace Compare

def misused (name message : String) : Run α :=
  refuse name (message ++ "\n" ++ name ++ ": Try '" ++ name ++ " --help' for more information.") 2

def withTwo (name flags : String) (run : Invocation → String → String → String → String → Run Nat) :
    Utility := fun args => do
  match Invocation.read flags args with
  | .error message => misused name message
  | .ok call =>
    let first :: rest := call.operands | misused name ("missing operand after '" ++ name ++ "'")
    if rest.isEmpty ∧ name = "diff" then misused name ("missing operand after '" ++ first ++ "'")
    let second := rest.headD "-"
    let a ← readFile first
    let b ← readFile second
    if let (.ok a, .ok b) := (a, b) then return ← run call first second a b
    for (file, side) in [(first, a), (second, b)] do
      if let .error why := side then complain (unreadable name file why)
    return 2

/-! ### Byte by byte -/

def tellShorter (name : String) (before : Chars) : Run Unit := do
  let feeds := (before.filter (· = '\n')).length
  let place := if before.isEmpty then " which is empty"
    else " after byte " ++ toString before.length ++
      (if before.getLast? = some '\n' then ", line " ++ toString feeds
        else ", in line " ++ toString (feeds + 1))
  complain ("cmp: EOF on " ++ name ++ place)

def cmp : Utility := withTwo "cmp" "s" fun call first second a b => do
  if a = b then return 0
  if call.has 's' then return 1
  match (a.toList.zip b.toList).findIdx? fun (x, y) => x ≠ y with
  | some index =>
    let line := ((a.toList.take index).filter (· = '\n')).length + 1
    emit (first ++ " " ++ second ++ " differ: byte " ++ toString (index + 1) ++ ", line " ++
      toString line ++ "\n")
  | none => if a.length < b.length then tellShorter first a.toList else tellShorter second b.toList
  return 1

/-! ### Line by line -/

def countsBefore (b : Array String) (line : String) (below : Array Nat) : Array Nat :=
  ((List.range b.size).foldr (fun j counts => counts.push
    (if b.getD j "" = line then below.getD (j + 1) 0 + 1
      else max (below.getD j 0) (counts.back?.getD 0))) #[0]).reverse

def keptCounts (a b : Array String) : Array (Array Nat) :=
  (a.foldr (fun line rows => rows.push (countsBefore b line (rows.back?.getD #[])))
    #[Array.replicate (b.size + 1) 0]).reverse

def rangeText (first count : Nat) : String :=
  if count = 0 then toString first
  else toString (first + 1) ++ if count = 1 then "" else "," ++ toString (first + count)

def changeText (a b : Array String) (oldStart oldStop newStart newStop : Nat) : String :=
  let deleted := oldStop - oldStart
  let inserted := newStop - newStart
  let letter := if deleted = 0 then "a" else if inserted = 0 then "d" else "c"
  let marked (mark : String) (lines : Array String) : String :=
    String.join (lines.toList.map fun line =>
      mark ++ line ++
        if line.toList.getLast? = some '\n' then "" else "\n\\ No newline at end of file\n")
  rangeText oldStart deleted ++ letter ++ rangeText newStart inserted ++ "\n" ++
    marked "< " (a.extract oldStart oldStop) ++ (if letter = "c" then "---\n" else "") ++
    marked "> " (b.extract newStart newStop)

def changesFrom (a b : Array String) (kept : Array (Array Nat)) :
    Nat → Nat → Nat → Nat → Nat → List String
  | 0, _, _, _, _ => []
  | fuel + 1, i, j, oldStart, newStart =>
    let count (i j : Nat) : Nat := (kept.getD i #[]).getD j 0
    let change := if oldStart < i ∨ newStart < j then [changeText a b oldStart i newStart j] else []
    if i < a.size ∧ j < b.size ∧ a.getD i "" = b.getD j "" then
      change ++ changesFrom a b kept fuel (i + 1) (j + 1) (i + 1) (j + 1)
    else if i < a.size ∧ (j = b.size ∨ count i (j + 1) ≤ count (i + 1) j) then
      changesFrom a b kept fuel (i + 1) j oldStart newStart
    else if j < b.size then changesFrom a b kept fuel i (j + 1) oldStart newStart
    else change

def diff : Utility := withTwo "diff" "q" fun call first second a b => do
  if a = b then return 0
  if call.has 'q' then emit ("Files " ++ first ++ " and " ++ second ++ " differ\n")
  else
    let old := (fullLines a).toArray
    let new := (fullLines b).toArray
    emit (String.join (changesFrom old new (keptCounts old new) (old.size + new.size + 2) 0 0 0 0))
  return 1

end Compare

end ProgramAnalysis.Shell
