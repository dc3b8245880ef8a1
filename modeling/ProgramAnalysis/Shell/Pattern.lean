import ProgramAnalysis.Text.Basic

/-!
Bytes as text, and the patterns and regular expressions that are looked for in it.
-/

namespace ProgramAnalysis.Shell

abbrev Chars := List Char

def charsOfBytes (bytes : List UInt8) : String :=
  String.ofList (bytes.map fun byte => Char.ofNat byte.toNat)

def bytesOfChars (chars : String) : List UInt8 := chars.toList.map fun c => UInt8.ofNat c.toNat

def ofText (text : String) : String := charsOfBytes (Text.encode text)

def toText (chars : String) : String := Text.decodeLossy (bytesOfChars chars)

def chunks (size : Nat) : Nat → List α → List (List α)
  | 0, _ | _, [] => []
  | fuel + 1, items => items.take size :: chunks size fuel (items.drop size)

/-- The value of a computation, without the state that it leaves. -/
def valueOf : EStateM.Result ε σ α → Except ε α
  | .ok a _ => .ok a
  | .error fault _ => .error fault

def charCount (text : String) : Nat :=
  (text.toList.filter fun c => c.toNat < 0x80 || 0xC0 ≤ c.toNat).length

structure Glyph where
  char : Char
  quoted : Bool
  deriving DecidableEq

inductive CharSet where
  | range (first last : Char)
  | class (name : String)

def isBlank (c : Char) : Bool := c = ' ' || c = '\t'

def isGap (c : Char) : Bool := isBlank c || c = '\n'

def isSpace (c : Char) : Bool := c = ' ' || ('\t' ≤ c && c.toNat ≤ 13)

def digitValue (c : Char) : Nat :=
  if c.isDigit then c.toNat - '0'.toNat
  else if c.isAlpha then c.toLower.toNat - 'a'.toNat + 10
  else 99

def digitsValue (base : Nat) (digits : Chars) : Nat :=
  digits.foldl (fun value c => value * base + digitValue c) 0

def letterEscape? (c : Char) : Option Char :=
  ("abefnrtv\\".toList.zip "\x07\x08\x1b\x0c\n\r\t\x0b\\".toList).lookup c

def inClass (name : String) (c : Char) : Bool :=
  match name with
  | "alpha" => c.isAlpha
  | "digit" => c.isDigit
  | "alnum" => c.isAlphanum
  | "upper" => c.isUpper
  | "lower" => c.isLower
  | "space" => isSpace c
  | "blank" => isBlank c
  | "punct" => ' ' < c && c ≤ '~' && !c.isAlphanum
  | "print" => ' ' ≤ c && c ≤ '~'
  | "graph" => ' ' < c && c ≤ '~'
  | "cntrl" => c < ' ' || c.toNat = 127
  | "xdigit" => c.isDigit || ('a' ≤ c && c ≤ 'f') || ('A' ≤ c && c ≤ 'F')
  | _ => false

def CharSet.contains (c : Char) : CharSet → Bool
  | range first last => first ≤ c && c ≤ last
  | .class name => inClass name c

def isVisible (c : Char) : Bool := inClass "print" c || c.toNat ≥ 0x80

inductive PatternPiece where
  | any
  | one
  | exactly (c : Char)
  | among (negated : Bool) (sets : List CharSet)

abbrev Pattern := List PatternPiece

namespace Pattern

variable (glyphs : List Glyph)

def className? : Option (String × List Glyph) :=
  let name := glyphs.takeWhile fun glyph => glyph.char.isAlpha
  match glyphs.drop name.length with
  | ⟨':', _⟩ :: ⟨']', _⟩ :: rest => some (String.ofList (name.map (·.char)), rest)
  | _ => none

def sets? : Nat → Bool → List Glyph → Option (List CharSet × List Glyph)
  | 0, _, _ | _, _, [] => none
  | fuel + 1, first, glyph :: rest =>
    let more (set : CharSet) (later : List Glyph) : Option (List CharSet × List Glyph) :=
      (sets? fuel false later).map fun (sets, after) => (set :: sets, after)
    let isClosing (glyph : Glyph) : Bool := glyph = ⟨']', false⟩
    if isClosing glyph ∧ !first then some ([], rest)
    else
      match glyph, rest, className? rest.tail with
      | ⟨'[', false⟩, ⟨':', _⟩ :: _, some (name, after) => more (.class name) after
      | _, ⟨'-', false⟩ :: last :: later, _ =>
        if isClosing last then more (.range glyph.char glyph.char) rest
        else more (.range glyph.char last.char) later
      | _, _, _ => more (.range glyph.char glyph.char) rest

def read : Nat → List Glyph → Pattern
  | 0, _ | _, [] => []
  | fuel + 1, ⟨c, true⟩ :: rest => .exactly c :: read fuel rest
  | fuel + 1, ⟨'*', false⟩ :: rest => .any :: read fuel rest
  | fuel + 1, ⟨'?', false⟩ :: rest => .one :: read fuel rest
  | fuel + 1, ⟨'\\', false⟩ :: next :: rest => .exactly next.char :: read fuel rest
  | fuel + 1, ⟨'[', false⟩ :: rest =>
    let (negated, inside) := match rest with
      | ⟨'!', false⟩ :: later => (true, later)
      | _ => (false, rest)
    match sets? (rest.length + 1) true inside with
    | some (sets, after) => .among negated sets :: read fuel after
    | none => .exactly '[' :: read fuel rest
  | fuel + 1, glyph :: rest => .exactly glyph.char :: read fuel rest

def ofGlyphs : Pattern := read (glyphs.length + 1) glyphs

def tails : Chars → List Chars
  | [] => [[]]
  | c :: rest => (c :: rest) :: tails rest

def isMatch : Pattern → Chars → Bool
  | [], text => text.isEmpty
  | .any :: rest, text => (tails text).any (isMatch rest)
  | .one :: rest, _ :: text => isMatch rest text
  | .exactly d :: rest, c :: text => c == d && isMatch rest text
  | .among negated sets :: rest, c :: text =>
    sets.any (·.contains c) != negated && isMatch rest text
  | _ :: _, [] => false

def quotedGlyphs : Chars → List Glyph
  | '\\' :: c :: rest => ⟨c, true⟩ :: quotedGlyphs rest
  | '[' :: '^' :: rest => ⟨'[', false⟩ :: ⟨'!', false⟩ :: quotedGlyphs rest
  | c :: rest => ⟨c, false⟩ :: quotedGlyphs rest
  | [] => []

def isLike (pattern text : String) (fold : Bool) : Bool :=
  let lower (chars : Chars) : Chars := if fold then chars.map Char.toLower else chars
  (ofGlyphs (quotedGlyphs (lower pattern.toList))).isMatch (lower text.toList)

variable (pattern : Pattern)

def isPlain : Bool :=
  pattern.all fun
    | .exactly _ => true
    | _ => false

def trim (atEnd longest : Bool) (text : String) : String :=
  let chars := text.toList
  let counts := List.range (chars.length + 1)
  let counts := if longest then counts.reverse else counts
  let trimmed := counts.findSome? fun count =>
    if atEnd then
      let kept := chars.length - count
      if pattern.isMatch (chars.drop kept) then some (chars.take kept) else none
    else if pattern.isMatch (chars.take count) then some (chars.drop count)
    else none
  String.ofList (trimmed.getD chars)

end Pattern

inductive Edge where
  | lineStart
  | lineEnd
  | wordStart
  | wordEnd
  | wordEdge
  | wordInside
  deriving DecidableEq

inductive Regex where
  | nothing
  | char (c : Char)
  | any
  | among (negated : Bool) (sets : List CharSet)
  | edge (edge : Edge)
  | sequence (first second : Regex)
  | either (first second : Regex)
  | repeated (inner : Regex) (least : Nat) (most : Option Nat)
  | group (number : Nat) (inner : Regex)
  | again (number : Nat)
  deriving Inhabited

structure Subject where
  text : Array Char
  fold : Bool := false

namespace Subject

def ofBytes (bytes : Chars) : Subject := { text := bytes.toArray }

variable (subject : Subject)

def isSame (a b : Char) : Bool :=
  a = b || (subject.fold && a.toLower = b.toLower)

variable (place : Nat)

def isWordAt : Bool :=
  (subject.text[place]?).any fun c => c.isAlphanum || c == '_'

def isAt (edge : Edge) : Bool :=
  let before := place ≠ 0 && subject.isWordAt (place - 1)
  let here := subject.isWordAt place
  match edge with
  | .lineStart => place = 0
  | .lineEnd => place = subject.text.size
  | .wordStart => !before && here
  | .wordEnd => before && !here
  | .wordEdge => before != here
  | .wordInside => before = here

def slice (start stop : Nat) : Chars := (subject.text.extract start stop).toList

end Subject

namespace Regex

/-! ### All ways to match -/

abbrev Groups := List (Nat × Nat × Nat)

abbrev Reached := Nat × Groups

variable (subject : Subject)

def isAmong (sets : List CharSet) (c : Char) : Bool :=
  sets.any fun set =>
    set.contains c || (subject.fold && (set.contains c.toLower || set.contains c.toUpper))

def single? : Regex → Option (Char → Bool)
  | char c => some (subject.isSame c)
  | any => some fun _ => true
  | among negated sets => some fun c => isAmong subject sets c != negated
  | _ => none

def runLength (subject : Subject) (isInside : Char → Bool) (place : Nat) : Nat → Nat
  | 0 => 0
  | most + 1 =>
    if (subject.text[place]?).any isInside then runLength subject isInside (place + 1) most + 1
    else 0

def fresh (merges : Bool) (known : List Reached) : List Reached → List Reached
  | [] => []
  | way :: rest =>
    let isKnown := known.any fun other => other.1 = way.1 && (merges || other.2 == way.2)
    if isKnown then fresh merges known rest else way :: fresh merges (way :: known) rest

def tidy (merges : Bool) (ways : List Reached) : List Reached :=
  (fresh merges [] ways).mergeSort fun a b => b.1 ≤ a.1

def turns (merges : Bool) (step : List Reached → List Reached) :
    Nat → List Reached → List Reached → List Reached
  | 0, _, known => known
  | count + 1, latest, known =>
    let next := fresh merges known (step latest)
    if next.isEmpty then known else turns merges step count next (known ++ next)

def ways (merges : Bool) (subject : Subject) : Regex → Reached → List Reached
  | nothing, reached => [reached]
  | edge kind, reached => if subject.isAt reached.1 kind then [reached] else []
  | sequence first second, reached =>
    tidy merges ((ways merges subject first reached).flatMap (ways merges subject second))
  | either first second, reached =>
    tidy merges (ways merges subject first reached ++ ways merges subject second reached)
  | repeated inner least most, reached =>
    match single? subject inner with
    | some isInside =>
      let length := runLength subject isInside reached.1 (most.getD subject.text.size)
      (List.range' least (length + 1 - least)).reverse.map fun n => (reached.1 + n, reached.2)
    | none =>
      let step (latest : List Reached) : List Reached :=
        tidy merges (latest.flatMap (ways merges subject inner))
      let first := Nat.repeat step least [reached]
      let more := most.getD (least + subject.text.size + 1) - least
      tidy merges (turns merges step more first first)
  | group number inner, reached =>
    (ways merges subject inner reached).map fun (place, groups) =>
      (place, (number, reached.1, place) :: groups)
  | again number, (place, groups) =>
    match groups.lookup number with
    | some (start, stop) =>
      let sought := subject.slice start stop
      let end_ := place + sought.length
      let isHere := end_ ≤ subject.text.size &&
        ((subject.slice place end_).zip sought).all fun (a, b) => subject.isSame b a
      if isHere then [(end_, groups)] else []
    | none => []
  | regex, (place, groups) =>
    match single? subject regex with
    | some isInside => if (subject.text[place]?).any isInside then [(place + 1, groups)] else []
    | none => []

def refersBack : Regex → Bool
  | sequence first second | either first second => refersBack first || refersBack second
  | repeated inner _ _ | group _ inner => refersBack inner
  | again _ => true
  | _ => false

/-! ### Matches -/

structure Match where
  start : Nat
  stop : Nat
  groups : Groups

def Match.group? (found : Match) (number : Nat) : Option (Nat × Nat) :=
  if number = 0 then some (found.start, found.stop)
  else found.groups.lookup number

variable (regex : Regex) (subject : Subject) (start : Nat)

def matchesAt : List Reached :=
  ways (!regex.refersBack) subject regex (start, [])

def find? : Option Match :=
  (List.range' start (subject.text.size + 1 - start)).findSome? fun start =>
    (matchesAt regex subject start).head?.map fun (stop, groups) => { start, stop, groups }

def isIn : Bool := (regex.find? subject 0).isSome

def matchesFrom (regex : Regex) (subject : Subject) : Nat → Nat → Option Nat → List Match
  | 0, _, _ => []
  | fuel + 1, place, last =>
    match regex.find? subject place with
    | none => []
    | some found =>
      if found.start < found.stop then
        found :: matchesFrom regex subject fuel found.stop (some found.stop)
      else
        let later := matchesFrom regex subject fuel (found.start + 1) last
        if last = some found.start then later else found :: later

def allMatches : List Match :=
  matchesFrom regex subject (subject.text.size + 2) 0 none

/-! ### Reading -/

structure Spelling where
  extended : Bool
  escapes : Bool := false
  words : Bool := true

abbrev Reader (α : Type) := EStateM String (Chars × Nat) α

inductive Piece where
  | finish
  | opening
  | closing
  | alternative
  | bounds (least : Nat) (most : Option Nat) (spelled : Char)
  | atom (regex : Regex)

def control? (c : Char) : Option Char :=
  if "be\\".toList.contains c then none else letterEscape? c

def wordSets : List CharSet := [.class "alnum", .range '_' '_']

def wordEscape? : Char → Option Regex
  | 'w' => some (.among false wordSets)
  | 'W' => some (.among true wordSets)
  | 's' => some (.among false [.class "space"])
  | 'S' => some (.among true [.class "space"])
  | 'b' => some (.edge .wordEdge)
  | 'B' => some (.edge .wordInside)
  | '<' => some (.edge .wordStart)
  | '>' => some (.edge .wordEnd)
  | _ => none

def bounds? (close : Chars) (text : Chars) : Option (Nat × Option Nat × Chars) :=
  let number (digits : Chars) : Option Nat :=
    if digits.isEmpty then none else some (digitsValue 10 digits)
  let first := text.takeWhile Char.isDigit
  let rest := text.drop first.length
  let finish (least : Nat) (most : Option Nat) (rest : Chars) :
      Option (Nat × Option Nat × Chars) :=
    (close.isPrefixOf? rest).map (least, most, ·)
  match rest with
  | ',' :: later =>
    let second := later.takeWhile Char.isDigit
    finish ((number first).getD 0) (number second) (later.drop second.length)
  | _ => (number first).bind fun count => finish count (some count) rest

def sets (spelling : Spelling) : Nat → Bool → Chars → Except String (List CharSet × Chars)
  | 0, _, _ | _, _, [] => .error "Unmatched [, [^, [:, [., or [="
  | fuel + 1, isFirst, c :: rest =>
    let more (set : CharSet) (later : Chars) : Except String (List CharSet × Chars) :=
      (sets spelling fuel false later).map fun (others, after) => (set :: others, after)
    let item (c : Char) (rest : Chars) : Except String (List CharSet × Chars) :=
      match rest with
      | '-' :: last :: later =>
        if last = ']' then more (.range c c) rest
        else if last < c then .error "Invalid range end"
        else more (.range c last) later
      | _ => more (.range c c) rest
    match c, rest with
    | ']', _ => if isFirst then item ']' rest else .ok ([], rest)
    | '[', ':' :: later =>
      let name := later.takeWhile Char.isAlpha
      match later.drop name.length with
      | ':' :: ']' :: after => more (.class (String.ofList name)) after
      | _ => item '[' rest
    | '\\', c :: later =>
      match control? c with
      | some code => if spelling.escapes then item code later else item '\\' rest
      | none => item '\\' rest
    | _, _ => item c rest

variable (spelling : Spelling) (text : Chars)

def piece : Except String (Piece × Chars) :=
  let special (c : Char) (rest : Chars) : Except String (Piece × Chars) :=
    match c with
    | '(' => .ok (.opening, rest)
    | ')' => .ok (.closing, rest)
    | '|' => .ok (.alternative, rest)
    | '+' => .ok (.bounds 1 none '+', rest)
    | '?' => .ok (.bounds 0 (some 1) '?', rest)
    | '\x7b' =>
      match bounds? (if spelling.extended then ['\x7d'] else ['\\', '\x7d']) rest with
      | some (least, most, later) => .ok (.bounds least most '\x7b', later)
      | none =>
        if spelling.extended then .ok (.atom (.char c), rest)
        else .error "Invalid content of \\\x7b\\\x7d"
    | c => .ok (.atom (.char c), rest)
  match text with
  | [] => .ok (.finish, [])
  | ['\\'] => .error "Trailing backslash"
  | '\\' :: c :: rest =>
    if c.isDigit ∧ c ≠ '0' ∧ spelling.words then .ok (.atom (.again (c.toNat - '0'.toNat)), rest)
    else
      match control? c, wordEscape? c with
      | some code, _ => .ok (.atom (.char (if spelling.escapes then code else c)), rest)
      | none, some regex => .ok (.atom (if spelling.words then regex else .char c), rest)
      | none, none => if spelling.extended then .ok (.atom (.char c), rest) else special c rest
  | '.' :: rest => .ok (.atom .any, rest)
  | '[' :: rest =>
    let (negated, inside) := match rest with
      | '^' :: later => (true, later)
      | _ => (false, rest)
    if inside.isEmpty then .error "Invalid regular expression"
    else
      (sets spelling (inside.length + 1) true inside).map fun (sets, after) =>
        (.atom (.among negated sets), after)
  | '*' :: rest => .ok (.bounds 0 none '*', rest)
  | c :: rest =>
    if !spelling.extended then .ok (.atom (.char c), rest)
    else
      match c with
      | '^' => .ok (.atom (.edge .lineStart), rest)
      | '$' => .ok (.atom (.edge .lineEnd), rest)
      | c => special c rest

def endsHere (rest : Chars) : Bool :=
  match piece spelling rest with
  | .ok (.finish, _) | .ok (.closing, _) | .ok (.alternative, _) => true
  | _ => false

def sequenceOf (parts : List Regex) : Regex :=
  match parts with
  | [] => .nothing
  | [only] => only
  | first :: rest => .sequence first (sequenceOf rest)

def readFrom (spelling : Spelling) : Nat → Nat → List Regex → Reader Regex
  | 0, _, _ => throw "Regular expression too big"
  | fuel + 1, depth, done => do
    let (text, number) ← get
    match piece spelling text with
    | .error message => throw message
    | .ok (piece, rest) =>
      set (rest, number)
      match piece with
      | .finish => if depth = 0 then return sequenceOf done.reverse else throw "Unmatched ( or \\("
      | .closing => if depth ≠ 0 then return sequenceOf done.reverse else throw "Unmatched ) or \\)"
      | .opening =>
        set (rest, number + 1)
        let inner ← readFrom spelling fuel (depth + 1) []
        readFrom spelling fuel depth (.group number inner :: done)
      | .alternative => return .either (sequenceOf done.reverse) (← readFrom spelling fuel depth [])
      | .bounds least most spelled =>
        match done with
        | [] | .edge _ :: _ =>
          readFrom spelling fuel depth (if spelling.extended then done else .char spelled :: done)
        | last :: before => readFrom spelling fuel depth (.repeated last least most :: before)
      | .atom (.again earlier) =>
        if number ≤ earlier then throw "Invalid back reference"
        readFrom spelling fuel depth (.again earlier :: done)
      | .atom atom =>
        let atom : Regex :=
          if spelling.extended then atom
          else if text.head? = some '^' ∧ done.isEmpty then .edge .lineStart
          else if text.head? = some '$' ∧ endsHere spelling rest then .edge .lineEnd
          else atom
        readFrom spelling fuel depth (atom :: done)

def read : Except String Regex :=
  valueOf (readFrom spelling (2 * text.length + 2) 0 [] (text, 1))

def literal (text : String) : Regex := sequenceOf (text.toList.map .char)

end Regex

end ProgramAnalysis.Shell
