import ProgramAnalysis.Shell.Utility

/-!
The programs that show text, or parts of it, in one layout or another.
-/

namespace ProgramAnalysis.Shell

open String (ofList)

namespace Show

/-! ### Whole files -/

def visible (c : Char) : Chars :=
  let low (n : Nat) : Chars :=
    if n < 32 then ['^', Char.ofNat (n + 64)]
    else if n = 127 then ['^', '?']
    else [Char.ofNat n]
  if c = '\n' ∨ c = '\t' then [c]
  else if c.toNat < 128 then low c.toNat
  else 'M' :: '-' :: low (c.toNat - 128)

structure Numbering where
  count : Nat := 0
  empties : Nat := 0
  atStart : Bool := true

def shownLine (call : Invocation) (state : Numbering) (line : String) : Numbering × String :=
  let has (flag : Char) : Bool := call.has flag || ("vTE".toList.contains flag && call.has 'A')
  let isWhole := line.toList.getLast? = some '\n'
  let body := if isWhole then line.toList.dropLast else line.toList
  let isEmpty := isWhole && body.isEmpty && state.atStart
  let empties := if isEmpty then state.empties + 1 else 0
  if has 's' ∧ empties > 1 then ({ state with empties }, "")
  else
    let numbered := state.atStart && (if has 'b' then !isEmpty else has 'n')
    let count := if numbered then state.count + 1 else state.count
    let number := if numbered then padLeft 6 (toString count) ++ "\t" else ""
    let shown := body.flatMap fun c =>
      if c = '\t' ∧ has 'T' then ['^', 'I'] else if has 'v' then visible c else [c]
    let finish := if isWhole then if has 'E' then "$\n" else "\n" else ""
    ({ count, empties, atStart := isWhole }, number ++ ofList shown ++ finish)

def cat : Utility := withOptions "cat" "AbEnsTuv" 1 fun call => do
  let isPlain := call.flags.all (·.1 = 'u')
  let mut code := 0
  let mut state : Numbering := {}
  for name in orInput call.operands do
    match ← Feed.start name with
    | .error why =>
      complain (unreadable "cat" name why)
      code := 1
    | .ok feed =>
      let text := ofList feed.rest
      let (next, parts) := if isPlain then (state, [text])
        else (fullLines text).foldl (fun (state, parts) line =>
          let (next, shown) := shownLine call state line
          (next, shown :: parts)) (state, ([] : List String))
      state := next
      if !(← write 1 (String.join parts.reverse)) then
        refuse "cat" "write error: Bad file descriptor" 1
      feed.exhaust
  return code

def tac : Utility := withOptions "tac" "" 1 fun call => do
  let (texts, code) ← readFiles (fun name why =>
    "tac: failed to open " ++ inQuotes name ++ " for reading: " ++ why.message) call.operands
  emit (String.join (texts.map fun text => String.join (fullLines text).reverse))
  return code

def rev : Utility := withOptions "rev" "" 1 fun call =>
  forFiles (fun name why => "rev: cannot open " ++ name ++ ": " ++ why.message) call.operands
    fun text => "\n".intercalate ((Text.splitAt '\n' text).map fun line =>
      ofList line.toList.reverse)

def tee : Utility := withOptions "tee" "a" 1 fun call => do
  let text := ofList ((← readBy 0 List.length).toOption.getD [])
  let code ← forEach (fun path => do
    match ← writeFile path text (call.has 'a') with
    | .ok _ => return 0
    | .error why => fault "tee" (why.onName path)) call.operands
  emit text
  awaitMore 0
  return code

def repeatBlock (block : String) : Nat → Run Unit
  | 0 => return
  | count + 1 => do if ← write 1 block then repeatBlock block count

def yes : Utility := fun args => do
  let line := (if args.isEmpty then "y" else " ".intercalate args) ++ "\n"
  repeatBlock (String.join (List.replicate (max 1 (8192 / line.length)) line)) 4096
  return 0

/-! ### Beginnings and ends -/

def part (atEnd isOffset : Bool) (count : Nat) (pieces : List α) : List α :=
  match atEnd, isOffset with
  | false, false => pieces.take count
  | false, true => pieces.take (pieces.length - count)
  | true, false => pieces.drop (pieces.length - count)
  | true, true => pieces.drop (count - 1)

def firstLines? : Nat → Chars → Chars → Option (Chars × Chars)
  | 0, taken, rest => some (taken.reverse, rest)
  | _ + 1, _, [] => none
  | count + 1, taken, c :: rest =>
    firstLines? (if c = '\n' then count else count + 1) (c :: taken) rest

def showExcerpts (name : String) (atEnd : Bool) (call : Invocation) : Run Nat := do
  let flag := (call.lastOf? ['c', 'n']).getD 'n'
  let (isOffset, digits) := match ((call.value? flag).getD "10").toList with
    | '+' :: rest => (atEnd, rest)
    | '-' :: rest => (!atEnd, rest)
    | digits => (false, digits)
  let what := "invalid number of " ++ if flag = 'c' then "bytes" else "lines"
  let count ← orRefuse name 1 (amountIn what (ofList digits))
  let names := orInput call.operands
  let titled := (names.length > 1 && !call.has 'q') || call.has 'v'
  let mut code := 0
  let mut isFirst := true
  for file in names do
    match ← Feed.start file with
    | .error why =>
      let what := if why = .isFolder then "error reading " ++ inQuotes file
        else "cannot open " ++ inQuotes file ++ " for reading"
      complain (name ++ ": " ++ what ++ ": " ++ why.message)
      code := 1
    | .ok feed =>
      let front? := if atEnd || isOffset then none
        else if flag = 'n' then firstLines? count [] feed.rest
        else if feed.rest.length < count then none
        else some (feed.rest.splitAt count)
      if front?.isNone then feed.exhaust
      if titled then
        let title := if file = "-" then "standard input" else file
        emit ((if isFirst then "" else "\n") ++ "==> " ++ title ++ " <==\n")
      match front? with
      | some (front, rest) =>
        emit (ofList front)
        ({ feed with rest } : Feed).leave
      | none => emit (if flag = 'c' then ofList (part atEnd isOffset count feed.rest)
        else String.join (part atEnd isOffset count (fullLines (ofList feed.rest))))
    isFirst := false
  return code

def spellCount (signs : Chars) : List String → List String
  | [] => []
  | arg :: rest =>
    let (number, letters) := arg.toList.tail.span Char.isDigit
    let sign := arg.toList.headD ' '
    if signs.contains sign ∧ !number.isEmpty then
      let flag := if letters.contains 'c' then "-c" else "-n"
      flag :: ofList (if sign = '+' then '+' :: number else number) :: rest
    else arg :: rest

def head : Utility := fun args =>
  withOptions "head" "qvn:c:" 1 (showExcerpts "head" false) (spellCount ['-'] args)

def tail : Utility := fun args =>
  withOptions "tail" "qvn:c:" 1 (showExcerpts "tail" true) (spellCount ['-', '+'] args)

/-! ### Counting -/

def counts (text : String) : List (Char × Nat) :=
  let chars := text.toList
  let (lines, words, _) := chars.foldl (fun (lines, words, inWord) c =>
    if isSpace c then (if c = '\n' then lines + 1 else lines, words, false)
    else if isVisible c then (lines, if inWord then words else words + 1, true)
    else (lines, words, inWord)) (0, 0, false)
  [('l', lines), ('w', words), ('m', charCount text), ('c', text.length)]

def countWidth (p : Process) (names : List String) : Nat :=
  let size? (name : String) : Option (Option Nat) :=
    let node := if name = "-" then
        match p.stream? 0 with
        | some { channel := .node number, .. } => some (p.world.tree.kindOf? number)
        | _ => some none
      else (p.find? name).map fun node => some node.kind
    node.map fun kind =>
      match kind with
      | some (.file content) => some content.length
      | _ => none
  match names.head?.bind size? with
  | none => 1
  | some _ =>
    let known := names.filterMap size?
    let total := known.foldl (fun sum size => sum + size.getD 0) 0
    max (toString total).length (if known.contains none then 7 else 1)

def wc : Utility := withOptions "wc" "lwcm" 1 fun call => do
  let names := orInput call.operands
  let kinds := ['l', 'w', 'm', 'c'].filter call.has
  let kinds := if kinds.isEmpty then ['l', 'w', 'c'] else kinds
  let p ← get
  let width := if names.length = 1 ∧ kinds.length = 1 then 1 else countWidth p names
  let line (values : List (Char × Nat)) (name : String) : String :=
    let shown := (values.filter (kinds.contains ·.1)).map (padLeft width <| toString ·.2)
    " ".intercalate shown ++ (if name = "" then "" else " " ++ name) ++ "\n"
  let mut code := 0
  let mut totals := counts ""
  for name in names do
    let read ← readFile name
    if let .error why := read then
      complain (unreadable "wc" name why)
      code := 1
    if read.toBool ∨ (← get).hasFolder name then
      let values := counts (read.toOption.getD "")
      emit (line values (if call.operands.isEmpty then "" else name))
      totals := (totals.zip values).map fun ((kind, a), (_, b)) => (kind, a + b)
  if names.length > 1 then emit (line totals "total")
  return code

/-! ### Numbered lines -/

def nl : Utility := withOptions "nl" "b:i:n:s:v:w:" 1 fun call => do
  let amount (flag : Char) (usual : Nat) : Nat := (call.number? flag).getD usual
  let width := amount 'w' 6
  let separator := (call.value? 's').getD "\t"
  let shown (n : Nat) : String := match call.value? 'n' with
    | some "ln" => ofList ((toString n).toList.rightpad width ' ')
    | some "rz" => ofList ((toString n).toList.leftpad width '0')
    | _ => padLeft width (toString n)
  let isNumbered (line : String) : Bool := match (call.value? 'b').getD "t" with
    | "a" => true
    | "t" => line ≠ ""
    | _ => false
  let (texts, code) ← readFiles (unreadable "nl") call.operands
  let (out, _) := (texts.flatMap linesOf).foldl (fun (out, count) line =>
    if isNumbered line then (out ++ [shown count ++ separator ++ line], count + amount 'i' 1)
    else (out ++ [padLeft (width + separator.length) "" ++ line], count))
    (([], amount 'v' 1) : List String × Nat)
  emit (ofLines out)
  return code

/-! ### Width -/

def advance (column : Nat) (c : Char) : Nat :=
  match c with
  | '\x08' => column - 1
  | '\r' => 0
  | '\t' => column + 8 - column % 8
  | _ => column + 1

def foldLine (width : Nat) (spaces : Bool) : Nat → Chars → Nat → Chars → List Chars
  | 0, gathered, _, rest => [gathered.reverse ++ rest]
  | _, gathered, _, [] => [gathered.reverse]
  | fuel + 1, gathered, column, c :: rest =>
    let next := advance column c
    if next ≤ width then foldLine width spaces fuel (c :: gathered) next rest
    else
      let (after, before) := gathered.span (!isBlank ·)
      if spaces ∧ !before.isEmpty then
        let column := after.reverse.foldl advance 0
        before.reverse :: foldLine width spaces fuel after column (c :: rest)
      else if gathered.isEmpty then foldLine width spaces fuel [c] next rest
      else gathered.reverse :: foldLine width spaces fuel [] 0 (c :: rest)

def fold : Utility := withOptions "fold" "sw:" 1 fun call => do
  let width ← orRefuse "fold" 1 (amountIn "invalid number of columns" ((call.value? 'w').getD "80"))
  forFiles (unreadable "fold") call.operands fun text =>
    "\n".intercalate ((Text.splitAt '\n' text).flatMap fun line =>
      (foldLine width (call.has 's') (3 * line.length + 3) [] 0 line.toList).map ofList)

def nextStop (size column : Nat) : Nat := column + (size - column % size)

def expand : Utility := withOptions "expand" "t:" 1 fun call =>
  let expandChar : Chars × Nat → Char → Chars × Nat
    | (out, _), '\n' => ('\n' :: out, 0)
    | (out, column), '\t' =>
      let stop := nextStop ((call.number? 't').getD 8) column
      (List.replicate (stop - column) ' ' ++ out, stop)
    | (out, column), c => (c :: out, column + 1)
  forFiles (unreadable "expand") call.operands fun text =>
    ofList (text.toList.foldl expandChar ([], 0)).1.reverse

structure Blanks where
  out : Chars := []
  converts : Bool := true
  column : Nat := 0
  pending : Chars := []
  beforeStop : Bool := false
  afterBlank : Bool := true

namespace Blanks

variable (blanks : Blanks)

def release : Blanks :=
  if blanks.pending.isEmpty then blanks
  else
    let waiting := blanks.pending.reverse
    let waiting := if waiting.length > 1 && blanks.beforeStop then '\t' :: waiting.tail else waiting
    { blanks with out := waiting.reverse ++ blanks.out, pending := [], beforeStop := false }

def put (all isBlank : Bool) (c : Char) : Blanks :=
  let released := blanks.release
  { released with
    out := c :: released.out
    afterBlank := isBlank
    converts := released.converts && (all || isBlank) }

def push (size : Nat) (all : Bool) (blanks : Blanks) (c : Char) : Blanks :=
  if c = '\n' then { out := '\n' :: blanks.release.out }
  else if !blanks.converts then { blanks with out := c :: blanks.out }
  else if isBlank c then
    let stop := nextStop size blanks.column
    let column := if c = '\t' then stop else blanks.column + 1
    if c = ' ' ∧ !(blanks.afterBlank && column = stop) then
      { blanks with
        column
        pending := c :: blanks.pending
        beforeStop := blanks.beforeStop || column = stop
        afterBlank := true }
    else
      let pending := if blanks.beforeStop then ['\t'] else []
      { blanks with column, pending }.put all true '\t'
  else { blanks with column := blanks.column + 1 }.put all false c

end Blanks

def unexpand : Utility := withOptions "unexpand" "at:" 1 fun call =>
  let push := Blanks.push ((call.number? 't').getD 8) (call.has 'a' || call.has 't')
  forFiles (unreadable "unexpand") call.operands fun text =>
    ofList (text.toList.foldl push {}).release.out.reverse

end Show

namespace Dump

structure Form where
  look : Char := 'o'
  size : Nat := 2

namespace Form

variable (form : Form)

def base : Nat :=
  match form.look with
  | 'x' => 16
  | 'd' | 'u' => 10
  | _ => 8

def width : Nat :=
  let bound := Nat.pow 256 form.size
  match form.look with
  | 'c' => 3
  | 'd' => (toString (bound / 2)).length + 1
  | _ => (Nat.toDigits form.base (bound - 1)).length

def digits (base width n : Nat) : String := ofList ((Nat.toDigits base n).leftpad width '0')

def characterText (byte : Nat) : String :=
  match ([0, 7, 8, 9, 10, 11, 12, 13].zip "0abtnvfr".toList).lookup byte with
  | some letter => "\\" ++ String.singleton letter
  | none => if 32 ≤ byte ∧ byte < 127 then String.singleton (Char.ofNat byte) else digits 8 3 byte

def text (bytes : List Nat) : String :=
  let number := bytes.foldr (fun byte n => byte + 256 * n) 0
  match form.look with
  | 'c' => characterText number
  | 'u' => toString number
  | 'd' => toString (Int.bmod number (Nat.pow 256 form.size))
  | _ => digits form.base form.width number

def ofFlag (flag : Char) (value : String) : Form :=
  match flag, value.toList with
  | 'b', _ => { size := 1 }
  | 'c', _ | 't', 'c' :: _ => { look := 'c', size := 1 }
  | 'x', _ => { look := 'x' }
  | 'd', _ => { look := 'u' }
  | 't', look :: size => { look, size := if size.isEmpty then 4 else digitsValue 10 size }
  | _, _ => form

end Form

def offsetText (radix : String) (offset : Nat) : String :=
  match radix with
  | "d" => Form.digits 10 7 offset
  | "x" => Form.digits 16 6 offset
  | "n" => ""
  | _ => Form.digits 8 7 offset

def showLines (radix : String) (form : Form) (lines : List (List Nat)) (start : Nat) :
    List String × Nat :=
  let (shown, offset, _) := lines.foldl (fun (shown, offset, last) line =>
    let parts := chunks form.size (line.length + 1) line
    let text := offsetText radix offset ++
      String.join (parts.map fun part => padLeft (form.width + 1) (form.text part))
    -- Lines like the one before are shown once, as a star.
    let shown := if last ≠ some line ∨ line.length < 16 then text :: shown
      else if shown.head? = some "*" then shown else "*" :: shown
    (shown, offset + line.length, some line))
    (([], start, none) : List String × Nat × Option (List Nat))
  (shown.reverse, offset)

def od : Utility := withOptions "od" "bcdxA:t:N:j:" 1 fun call => do
  let (texts, code) ← readFiles (unreadable "od") call.operands
  let radix := (call.value? 'A').getD "o"
  let form := call.flags.foldl (fun form (flag, value) => form.ofFlag flag value) ({} : Form)
  let start := (call.number? 'j').getD 0
  let all := ((String.join texts).toList.map Char.toNat).drop start
  let bytes := all.take ((call.number? 'N').getD all.length)
  let (shown, offset) := showLines radix form (chunks 16 (bytes.length + 1) bytes) start
  emit (ofLines (shown ++ if radix = "n" then [] else [offsetText radix offset]))
  return code

end Dump

namespace Paragraphs

/-! ### Words and lines -/

structure Word where
  text : Chars
  space : Nat
  opens : Bool
  isMarked : Bool
  isSentence : Bool
  isFinal : Bool
  deriving Inhabited

structure Line where
  column : Nat
  words : List Word

def columnAfter (column : Nat) : Chars → Nat × Chars
  | ' ' :: rest => columnAfter (column + 1) rest
  | '\t' :: rest => columnAfter ((column / 8 + 1) * 8) rest
  | rest => (column, rest)

def isMark (c : Char) : Bool := 32 < c.toNat && c.toNat < 127 && !c.isAlphanum

def wordsFrom (atEnd : Bool) : Nat → Nat → Chars → List Word
  | 0, _, _ | _, _, [] => []
  | fuel + 1, column, c :: rest =>
    let (text, rest) := (c :: rest).span (!isSpace ·)
    let column := column + text.length
    let (next, later) := columnAfter column rest
    let last := (text.reverse.dropWhile fun c => ")]'\"".toList.contains c).headD c
    let isSentence := ".?!".toList.contains last
    let isLast := later.isEmpty
    let isFinal := (isLast && atEnd) || (isSentence && (isLast || column + 1 < next))
    let space := if isLast then (if isFinal then 2 else 1) else next - column
    { text, space, isSentence, isFinal
      opens := "(['\x60\"".toList.contains c
      isMarked := isMark (text.getLastD c) } :: wordsFrom atEnd fuel next later

def Line.ofText (atEnd : Bool) (raw : Chars) : Line :=
  let (column, rest) := columnAfter 0 raw
  { column, words := wordsFrom atEnd (rest.length + 1) column rest }

/-! ### Costs -/

structure Widths where
  most : Nat
  goal : Nat

def startCost (before : Option Word) (earlier : Option Word) (word : Word) : Int :=
  let first : Int := match before with
    | none => 0
    | some last =>
      if last.isSentence then (if last.isFinal then -2500 else 360000)
      else if last.isMarked then -1600
      else if earlier.any (·.isFinal) then 40000 / (last.text.length + 2)
      else 0
  let second : Int := if word.opens then -1600
    else if word.isFinal then 22500 / (word.text.length + 2)
    else 0
  4900 + first + second

structure Choice where
  cost : Int
  next : Nat
  length : Nat
  deriving Inhabited

variable (widths : Widths)

def lineCost (count : Nat) (choices : Array Choice) (next length : Nat) : Int :=
  if next = count then 0
  else
    let choice := choices.getD next default
    let short : Int := widths.goal - length
    let ragged : Int := length - choice.length
    100 * short * short + if choice.next = count then 0 else 50 * ragged * ragged

def bestEnd (widths : Widths) (words : Array Word) (choices : Array Choice) :
    Nat → Nat → Nat → Option Choice → Option Choice
  | 0, _, _, best => best
  | fuel + 1, next, length, best =>
    let cost := lineCost widths words.size choices next length + (choices.getD next default).cost
    let best := if best.any (·.cost ≤ cost) then best else some { cost, next, length }
    if next = words.size then best
    else
      let length := length + (words.getD (next - 1) default).space
        + (words.getD next default).text.length
      if length < widths.most then bestEnd widths words choices fuel (next + 1) length best
      else best

def choicesOf (indent : Nat) (words : Array Word) : Array Choice :=
  let count := words.size
  let empty := Array.replicate (count + 1) ({ cost := 0, next := count, length := 0 } : Choice)
  (List.range count).reverse.foldl (fun choices start =>
    let word := words.getD start default
    let best := (bestEnd widths words choices (count + 1) (start + 1)
      (indent + word.text.length) none).getD default
    let before := if start = 0 then none else words[start - 1]?
    let earlier := if start < 2 then none else words[start - 2]?
    choices.set! start { best with cost := best.cost + startCost before earlier word }) empty

/-! ### Output -/

def spell : List Word → Chars
  | [] => []
  | [word] => word.text
  | word :: rest => word.text ++ List.replicate word.space ' ' ++ spell rest

def linesFrom (indent : Nat) (words : Array Word) (choices : Array Choice) :
    Nat → Nat → List Chars
  | 0, _ => []
  | fuel + 1, place =>
    if words.size ≤ place then []
    else
      let next := (choices.getD place default).next
      let line := List.replicate indent ' ' ++ spell ((words.toList.drop place).take (next - place))
      line :: linesFrom indent words choices fuel next

def fill (widths : Widths) : Nat → List Line → List Chars
  | 0, _ | _, [] => []
  | fuel + 1, line :: rest =>
    if line.words.isEmpty then [] :: fill widths fuel rest
    else
      let (more, later) := rest.span fun next => next.column = line.column && !next.words.isEmpty
      let words := (line :: more).flatMap (·.words)
      let words := words.toArray.modify (words.length - 1)
        ({ · with isSentence := true, isFinal := true })
      let choices := choicesOf widths line.column words
      linesFrom line.column words choices (words.size + 1) 0 ++ fill widths fuel later

def fmt : Utility := withOptions "fmt" "w:" 1 fun call =>
  let most := (call.number? 'w').getD 75
  let widths : Widths := { most, goal := most * 187 / 200 }
  forFiles (unreadable "fmt") call.operands fun text =>
    let pieces := linesOf text
    let isOpen := text.toList.getLast? ≠ some '\n'
    let lines := pieces.zipIdx.map fun (piece, i) =>
      Line.ofText (isOpen && i + 1 = pieces.length) piece.toList
    ofLines ((fill widths (lines.length + 1) lines).map ofList)

end Paragraphs

end ProgramAnalysis.Shell
