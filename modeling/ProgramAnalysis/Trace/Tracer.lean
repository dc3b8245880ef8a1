import ProgramAnalysis.Trace.Reader
import Std.Data.HashMap

/-!
The producing side of a trace, which an instrumented program calls.
-/

namespace ProgramAnalysis.Trace

/-- A block being filled, and the chunks handed on so far. -/
structure BlockWriter where
  blockSize : Nat
  block : List UInt8 := []
  chunks : List (List UInt8) := []

namespace BlockWriter

/-- Hands bytes on. Handing on nothing makes no chunk. -/
def handOn (writer : BlockWriter) (bytes : List UInt8) : BlockWriter :=
  if bytes.isEmpty then writer else { writer with chunks := writer.chunks ++ [bytes] }

/-- Appends a word, handing on the full blocks this makes. -/
def put (writer : BlockWriter) (word : Int32) : BlockWriter :=
  let bytes := writer.block ++ Word.encode word
  if bytes.length < writer.blockSize then { writer with block := bytes }
  else
    let full := bytes.length - bytes.length % writer.blockSize
    { writer.handOn (bytes.take full) with block := bytes.drop full }

def flush (writer : BlockWriter) : BlockWriter :=
  { writer.handOn writer.block with block := [] }

/-- The bytes handed on. -/
def written (writer : BlockWriter) : List UInt8 := writer.chunks.flatten

end BlockWriter

/-- A trace being written, and how many events it holds. -/
structure Writer where
  out : BlockWriter
  events : Nat := 0

namespace Writer

/-- An empty trace. Blocks must not be too small. -/
def create (blockSize : Nat) : Except ProgramAnalysis.Fault Writer :=
  if blockSize < smallestBlock then .error (.option ⟨"trace.block.size", .blockTooSmall blockSize⟩)
  else .ok { out := { blockSize } }

def write (writer : Writer) (event : Event) : Writer where
  out := event.operands.foldl BlockWriter.put (writer.out.put event.kind.opcode)
  events := writer.events + 1

def flush (writer : Writer) : Writer := { writer with out := writer.out.flush }

end Writer

/-- A runtime object: its address, and its number among all objects ever created. -/
structure Object where
  address : Nat
  serial : Nat
  deriving DecidableEq, Repr, Inhabited

/-- The live objects of a program, by address. -/
structure Memory where
  live : Std.HashMap Nat Nat := ∅
  created : Nat := 0

namespace Memory

/-- Creates an object at a free address. -/
def create (memory : Memory) (address : Nat) : Memory × Object :=
  ({ live := memory.live.insert address memory.created, created := memory.created + 1 },
    ⟨address, memory.created⟩)

def isLive (memory : Memory) (object : Object) : Bool :=
  memory.live[object.address]? == some object.serial

/-- Drops an object, which frees its address. -/
def drop (memory : Memory) (object : Object) : Memory :=
  if memory.isLive object then { memory with live := memory.live.erase object.address } else memory

end Memory

/-- An id, and the object it was given to. -/
structure IdEntry where
  id : Nat
  object : Object

/-- The ids given to objects, by address. -/
structure ObjectIds where
  next : Nat := 1
  entries : Std.HashMap Nat IdEntry := ∅
  sinceSweep : Nat := 0

namespace ObjectIds

/-- After how many new entries those of dropped objects are swept out. -/
def sweepInterval : Nat := 4096

/-- The greatest word; it is never given out. -/
def lastWord : Nat := 2147483647

/-- Sweeps the entries of dropped objects out if it is time to. -/
def sweep (memory : Memory) (ids : ObjectIds) : ObjectIds :=
  if ids.sinceSweep < sweepInterval then ids
  else { ids with entries := ids.entries.filter fun _ entry => memory.isLive entry.object,
                  sinceSweep := 0 }

/-- The id under which a live object is entered. -/
def find? (memory : Memory) (ids : ObjectIds) (object : Object) : Option Nat :=
  match ids.entries[object.address]? with
  | some entry => if memory.isLive entry.object then some entry.id else none
  | none => none

/-- The id of a live object, a new one if it has none. -/
def idOf (memory : Memory) (object : Object) : Step ObjectIds Nat := do
  let ids ← get
  match find? memory ids object with
  | some id => return id
  | none =>
    if ids.next < lastWord then
      let extended : ObjectIds :=
        { next := ids.next + 1
          entries := ids.entries.insert object.address ⟨ids.next, object⟩
          sinceSweep := ids.sinceSweep + 1 }
      set (sweep memory extended)
      return ids.next
    else
      throw (.trace .idsExhausted)

/-- How many objects that have an id are alive. -/
def live (memory : Memory) (ids : ObjectIds) : Nat :=
  (ids.entries.filter fun _ entry => memory.isLive entry.object).size

def shown (id : Int) : String := "o" ++ toString id

end ObjectIds

/-- What an instrumented program tells: which object it has allocated, or by their ids what it does
with objects. -/
inductive Call where
  | newObject (site : Int32) (object : Object)
  | newArray (site : Int32) (array : Object)
  | fieldRead (access base field : Int32)
  | fieldWrite (access base field value : Int32)
  | arrayRead (access base index : Int32)
  | arrayWrite (access base index value : Int32)
  | staticWrite (value : Int32)
  | acquireLock (site object : Int32)
  | threadStart (thread : Int32)
  | threadSpawn (thread : Int32)
  | methodEnter (receiver method : Int32)
  | methodLeave (receiver method : Int32)

/-- A trace in progress: the ids given out, the frames written, and the kinds recorded. -/
structure Tracer where
  ids : ObjectIds := {}
  writer : Writer
  scheme : Scheme

namespace Tracer

def create (blockSize : Nat) (scheme : Scheme) : Except ProgramAnalysis.Fault Tracer := do
  return { writer := ← Writer.create blockSize, scheme }

def idOf (memory : Memory) (object : Object) : Step Tracer Nat :=
  Step.onPart Tracer.ids (fun tracer ids => { tracer with ids }) (ObjectIds.idOf memory object)

/-- Records an event if its kind is selected. -/
def record (tracer : Tracer) (event : Event) : Tracer :=
  if tracer.scheme.selects event.kind then { tracer with writer := tracer.writer.write event }
  else tracer

/-- Records an allocation. An object gets its id here only if the kind is selected. -/
def allocated (memory : Memory) (kind : EventKind) (event : Int32 → Event) (object : Object) :
    Step Tracer Unit := do
  if (← get).scheme.selects kind then
    let id ← idOf memory object
    modify (·.record (event (Int32.ofNat id)))

def newObject (memory : Memory) (site : Int32) (object : Object) : Step Tracer Unit :=
  allocated memory .new (Event.new site) object

def newArray (memory : Memory) (site : Int32) (object : Object) : Step Tracer Unit :=
  allocated memory .newArray (Event.newArray site) object

/-- Takes note of what the program tells. -/
def report (memory : Memory) (call : Call) : Step Tracer Unit :=
  let emit (event : Event) : Step Tracer Unit := modify (·.record event)
  match call with
  | .newObject site object => newObject memory site object
  | .newArray site array => newArray memory site array
  | .fieldRead access base field => emit (.fieldRead access base field)
  | .fieldWrite access base field value => emit (.fieldWrite access base field value)
  | .arrayRead access base index => emit (.arrayRead access base index)
  | .arrayWrite access base index value => emit (.arrayWrite access base index value)
  | .staticWrite value => emit (.staticWrite value)
  | .acquireLock site object => emit (.acquireLock site object)
  | .threadStart thread => emit (.threadStart thread)
  | .threadSpawn thread => emit (.threadSpawn thread)
  | .methodEnter receiver method => emit (.methodEnter receiver method)
  | .methodLeave receiver method => emit (.methodLeave receiver method)

/-- The whole trace. -/
def finish (tracer : Tracer) : List UInt8 := tracer.writer.flush.out.written

/-! ### Tracing to a file -/

/-- Starts a trace in a file, which is emptied. -/
def startFile (path : String) (blockSize : Nat) (scheme : Scheme) : Step Disk Tracer := do
  Disk.change (·.write path (.text ""))
  Step.ofExcept (create blockSize scheme)

/-- Starts the trace that the options ask for. -/
def startConfigured (options : Options) (scheme : Scheme) : Step Disk (Tracer × String) := do
  match options.traceFile with
  | none => throw (.option ⟨"trace.file", .noTraceFile⟩)
  | some path => return (← startFile path options.traceBlockSize scheme, path)

/-- Writes the whole trace to its file. -/
def finishFile (tracer : Tracer) (path : String) : Step Disk Unit :=
  Disk.change (·.write path (.ofBytes tracer.finish))

end Tracer

end ProgramAnalysis.Trace
