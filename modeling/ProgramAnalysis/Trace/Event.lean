/-!
The events of a trace.
-/

namespace ProgramAnalysis.Trace.Word

/-- The four bytes of a word, greatest first. -/
def encode (word : Int32) : List UInt8 :=
  let n := word.toUInt32.toNat
  [.ofNat (n / 16777216), .ofNat (n / 65536), .ofNat (n / 256), .ofNat n]

/-- The word of four bytes. -/
def decode (a b c d : UInt8) : Int32 :=
  (UInt32.ofNat (((a.toNat * 256 + b.toNat) * 256 + c.toNat) * 256 + d.toNat)).toInt32

theorem decode_encode (word : Int32) :
    decode (.ofNat (word.toUInt32.toNat / 16777216)) (.ofNat (word.toUInt32.toNat / 65536))
      (.ofNat (word.toUInt32.toNat / 256)) (.ofNat word.toUInt32.toNat) = word := by
  have bounded : word.toUInt32.toNat < 4294967296 := word.toUInt32.toNat_lt
  have digits : ((word.toUInt32.toNat / 16777216 % 256 * 256 + word.toUInt32.toNat / 65536 % 256) *
      256 + word.toUInt32.toNat / 256 % 256) * 256 + word.toUInt32.toNat % 256 =
      word.toUInt32.toNat := by omega
  simp only [decode, UInt8.toNat_ofNat', Nat.reducePow]
  rw [digits, UInt32.ofNat_toNat]
  rfl

theorem encode_decode (a b c d : UInt8) : encode (decode a b c d) = [a, b, c, d] := by
  have boundA := a.toNat_lt
  have boundB := b.toNat_lt
  have boundC := c.toNat_lt
  have boundD := d.toNat_lt
  have whole : (decode a b c d).toUInt32.toNat =
      ((a.toNat * 256 + b.toNat) * 256 + c.toNat) * 256 + d.toNat := by
    have back : (decode a b c d).toUInt32 =
        UInt32.ofNat (((a.toNat * 256 + b.toNat) * 256 + c.toNat) * 256 + d.toNat) := rfl
    rw [back, UInt32.toNat_ofNat']
    omega
  have byte : ∀ (n : Nat) (x : UInt8), n % 256 = x.toNat → UInt8.ofNat n = x := by
    intro n x same
    apply UInt8.toNat_inj.mp
    simpa using same
  simp only [encode, whole]
  rw [byte _ a (by omega), byte _ b (by omega), byte _ c (by omega), byte _ d (by omega)]

end ProgramAnalysis.Trace.Word

namespace ProgramAnalysis.Trace

/-- What can happen. -/
inductive EventKind where
  | new
  | newArray
  | fieldRead
  | fieldWrite
  | arrayRead
  | arrayWrite
  | staticWrite
  | acquireLock
  | threadStart
  | threadSpawn
  | methodEnter
  | methodLeave
  deriving DecidableEq, Repr

namespace EventKind

/-- All kinds, by ascending opcode. -/
def all : List EventKind :=
  [new, newArray, fieldRead, fieldWrite, arrayRead, arrayWrite, staticWrite, acquireLock,
    threadStart, threadSpawn, methodEnter, methodLeave]

def index : EventKind → Nat
  | new => 0
  | newArray => 1
  | fieldRead => 2
  | fieldWrite => 3
  | arrayRead => 4
  | arrayWrite => 5
  | staticWrite => 6
  | acquireLock => 7
  | threadStart => 8
  | threadSpawn => 9
  | methodEnter => 10
  | methodLeave => 11

/-- The word a frame of this kind starts with. -/
def opcode (kind : EventKind) : Int32 := Int32.ofNat (kind.index + 1)

def ofOpcode? (opcode : Int32) : Option EventKind := all.find? fun kind => kind.opcode = opcode

/-- How many operands follow the opcode. -/
def arity : EventKind → Nat
  | staticWrite | threadStart | threadSpawn => 1
  | new | newArray | acquireLock | methodEnter | methodLeave => 2
  | fieldRead | arrayRead => 3
  | fieldWrite | arrayWrite => 4

def name : EventKind → String
  | new => "NEW"
  | newArray => "NEW_ARRAY"
  | fieldRead => "FIELD_READ"
  | fieldWrite => "FIELD_WRITE"
  | arrayRead => "ARRAY_READ"
  | arrayWrite => "ARRAY_WRITE"
  | staticWrite => "STATIC_WRITE"
  | acquireLock => "ACQUIRE_LOCK"
  | threadStart => "THREAD_START"
  | threadSpawn => "THREAD_SPAWN"
  | methodEnter => "METHOD_ENTER"
  | methodLeave => "METHOD_LEAVE"

def ofName? (name : String) : Option EventKind := all.find? (·.name = name)

end EventKind

/-- What happened, with the words that tell where and to what. -/
inductive Event where
  | new (site object : Int32)
  | newArray (site object : Int32)
  | fieldRead (access base field : Int32)
  | fieldWrite (access base field value : Int32)
  | arrayRead (access base index : Int32)
  | arrayWrite (access base index value : Int32)
  | staticWrite (value : Int32)
  | acquireLock (site object : Int32)
  | threadStart (object : Int32)
  | threadSpawn (object : Int32)
  | methodEnter (object method : Int32)
  | methodLeave (object method : Int32)
  deriving DecidableEq, Repr

namespace Event

def kind : Event → EventKind
  | new .. => .new
  | newArray .. => .newArray
  | fieldRead .. => .fieldRead
  | fieldWrite .. => .fieldWrite
  | arrayRead .. => .arrayRead
  | arrayWrite .. => .arrayWrite
  | staticWrite .. => .staticWrite
  | acquireLock .. => .acquireLock
  | threadStart .. => .threadStart
  | threadSpawn .. => .threadSpawn
  | methodEnter .. => .methodEnter
  | methodLeave .. => .methodLeave

def operands : Event → List Int32
  | new site object | newArray site object | acquireLock site object => [site, object]
  | fieldRead access base field => [access, base, field]
  | fieldWrite access base field value => [access, base, field, value]
  | arrayRead access base index => [access, base, index]
  | arrayWrite access base index value => [access, base, index, value]
  | staticWrite value => [value]
  | threadStart object | threadSpawn object => [object]
  | methodEnter object method | methodLeave object method => [object, method]

/-- The event of a kind with these operands, if there are as many as the kind has. -/
def ofOperands? : EventKind → List Int32 → Option Event
  | .new, [site, object] => some (new site object)
  | .newArray, [site, object] => some (newArray site object)
  | .fieldRead, [access, base, field] => some (fieldRead access base field)
  | .fieldWrite, [access, base, field, value] => some (fieldWrite access base field value)
  | .arrayRead, [access, base, index] => some (arrayRead access base index)
  | .arrayWrite, [access, base, index, value] => some (arrayWrite access base index value)
  | .staticWrite, [value] => some (staticWrite value)
  | .acquireLock, [site, object] => some (acquireLock site object)
  | .threadStart, [object] => some (threadStart object)
  | .threadSpawn, [object] => some (threadSpawn object)
  | .methodEnter, [object, method] => some (methodEnter object method)
  | .methodLeave, [object, method] => some (methodLeave object method)
  | _, _ => none

/-- The event as a line of text: its kind and its operands. -/
def render (event : Event) : String :=
  event.kind.name ++ " " ++
    " ".intercalate (event.operands.map fun operand => toString operand.toInt)

theorem length_operands (event : Event) : event.operands.length = event.kind.arity := by
  cases event <;> rfl

theorem ofOperands?_operands (event : Event) :
    ofOperands? event.kind event.operands = some event := by
  cases event <;> rfl

end Event

/-- What is wrong with a trace. -/
inductive Fault where
  | unknownOpcode (opcode : Int32) (offset : Nat)
  | truncated (kind : Option EventKind) (offset : Nat)
  | idsExhausted
  deriving DecidableEq, Repr

namespace Fault

def message : Fault → String
  | unknownOpcode opcode offset =>
    "unknown opcode " ++ toString opcode.toInt ++ " at byte " ++ toString offset
  | truncated kind offset =>
    "trace ends inside the " ++ (kind.map EventKind.name).getD "opcode of a" ++
      " frame at byte " ++ toString offset
  | idsExhausted => "every object id is taken"

end Fault

/-! ### Schemes -/

/-- Which kinds of event an instrumented program emits: one bit for each kind, in the order of
their opcodes. -/
abbrev Scheme := BitVec 12

namespace Scheme

/-- The scheme of a single kind. -/
def only (kind : EventKind) : Scheme := BitVec.ofNat 12 (1 <<< kind.index)

def none : Scheme := 0

def all : Scheme := BitVec.allOnes 12

def heap : Scheme :=
  only .fieldRead ||| only .fieldWrite ||| only .arrayRead ||| only .arrayWrite

def alloc : Scheme := only .new ||| only .newArray

def selects (scheme : Scheme) (kind : EventKind) : Bool := scheme.getLsbD kind.index

/-- Whether a scheme selects everything another one does. -/
def includes (scheme other : Scheme) : Bool := other &&& scheme == other

def kinds (scheme : Scheme) : List EventKind := EventKind.all.filter scheme.selects

end Scheme

end ProgramAnalysis.Trace
