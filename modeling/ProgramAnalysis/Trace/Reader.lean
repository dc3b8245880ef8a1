import ProgramAnalysis.Disk

/-!
Reading a trace.
-/

namespace ProgramAnalysis.Trace

/-- A frame: the opcode, then the operands. -/
def encodeEvent (event : Event) : List UInt8 :=
  Word.encode event.kind.opcode ++ event.operands.flatMap Word.encode

def encodeEvents (events : List Event) : List UInt8 := events.flatMap encodeEvent

/-- A trace being read: what has not been fetched yet, what is left of the block fetched last, and
how many bytes the words read so far take. -/
structure Reader where
  blockSize : Nat
  source : List UInt8
  block : List UInt8 := []
  offset : Nat := 0
  deriving DecidableEq

/-- What reading a frame gives. -/
inductive Reading where
  | finished
  | event (event : Event) (after : Reader)
  | broken (fault : Trace.Fault) (after : Reader)

namespace Reader

/-- A reader at the start of a trace. Blocks without room never bring any bytes, so the trace then
looks empty. -/
def ofBytes (blockSize : Nat) (bytes : List UInt8) : Reader :=
  { blockSize, source := bytes }

def ofFile (disk : Disk) (path : String) (blockSize : Nat) :
    Except ProgramAnalysis.Fault Reader := do
  return ofBytes blockSize (← disk.read path).bytes

/-! ### Bytes -/

/-- The bytes that are still to be read. -/
def remaining (reader : Reader) : List UInt8 := reader.block ++ reader.source

/-- Fetches the next block if the last one is used up. -/
def fill (reader : Reader) : Reader :=
  if reader.block.isEmpty then
    { reader with
      block := reader.source.take reader.blockSize
      source := reader.source.drop reader.blockSize }
  else reader

theorem remaining_fill (reader : Reader) : reader.fill.remaining = reader.remaining := by
  unfold fill
  split
  · next used =>
    have none : reader.block = [] := List.isEmpty_iff.mp used
    simp [remaining, none]
  · rfl

/-- Takes as many bytes as are asked for, or all there are. -/
def take (reader : Reader) : Nat → List UInt8 × Reader
  | 0 => ([], reader)
  | count + 1 =>
    match reader.fill.block with
    | [] => ([], reader.fill)
    | byte :: rest =>
      let (bytes, after) := take { reader.fill with block := rest } count
      (byte :: bytes, after)

/-- The bytes taken and those left are those there were, in order. -/
theorem take_append_remaining (reader : Reader) (count : Nat) :
    (reader.take count).1 ++ (reader.take count).2.remaining = reader.remaining := by
  induction count generalizing reader with
  | zero => rfl
  | succ count ih =>
    rw [← remaining_fill reader, take]
    split
    · rfl
    · next byte rest front =>
      have later := ih { reader.fill with block := rest }
      have whole : reader.fill.remaining = byte :: (rest ++ reader.fill.source) := by
        rw [remaining, front, List.cons_append]
      rw [whole]
      exact congrArg (byte :: ·) later

/-! ### Words -/

/-- Reads a word. If there is none, what is left is used up. -/
def word (reader : Reader) : Option Int32 × Reader :=
  match reader.take 4 with
  | ([a, b, c, d], after) =>
    (some (Word.decode a b c d), { after with offset := after.offset + 4 })
  | (_, after) => (none, after)

/-- Reads some words, or nothing if the trace ends before the last of them. -/
def words (reader : Reader) : Nat → Option (List Int32) × Reader
  | 0 => (some [], reader)
  | count + 1 =>
    match reader.word with
    | (none, after) => (none, after)
    | (some first, after) =>
      let (others, last) := after.words count
      (others.map (first :: ·), last)

theorem length_word_le (reader : Reader) :
    reader.word.2.remaining.length ≤ reader.remaining.length := by
  have parts := congrArg List.length (take_append_remaining reader 4)
  rw [List.length_append] at parts
  unfold word
  split <;> next taken =>
    rw [taken] at parts
    exact Nat.le.intro (Nat.add_comm _ _ ▸ parts)

theorem length_word_lt {reader after : Reader} {word : Int32}
    (found : reader.word = (some word, after)) :
    after.remaining.length + 4 = reader.remaining.length := by
  have parts := congrArg List.length (take_append_remaining reader 4)
  unfold Reader.word at found
  split at found
  · next a b c d rest taken =>
    rw [taken] at parts
    cases found
    simp only [List.length_append, List.length_cons, List.length_nil] at parts
    rw [← parts, Nat.add_comm]
    rfl
  · cases found

theorem length_words_le (reader : Reader) (count : Nat) :
    (reader.words count).2.remaining.length ≤ reader.remaining.length := by
  induction count generalizing reader with
  | zero => exact Nat.le_refl _
  | succ count ih =>
    have first := length_word_le reader
    rw [words]
    split
    · next after read =>
      rw [read] at first
      exact first
    · next word after read =>
      rw [read] at first
      exact Nat.le_trans (ih after) first

/-! ### Frames -/

/-- Reads a frame. -/
def read (reader : Reader) : Reading :=
  if reader.fill.block.isEmpty then .finished
  else match reader.word with
    | (none, after) => .broken (.truncated none reader.offset) after
    | (some opcode, after) =>
      match EventKind.ofOpcode? opcode with
      | none => .broken (.unknownOpcode opcode reader.offset) after
      | some kind =>
        match after.words kind.arity with
        | (none, last) => .broken (.truncated (some kind) reader.offset) last
        | (some operands, last) =>
          match Event.ofOperands? kind operands with
          | none => .broken (.truncated none reader.offset) last
          | some event => .event event last

/-- Reading an event leaves less to read. -/
theorem length_read {reader after : Reader} {event : Event}
    (found : reader.read = .event event after) :
    after.remaining.length < reader.remaining.length := by
  unfold read at found
  split at found
  · cases found
  · split at found
    · cases found
    · next opcode middle one =>
      have shorter := length_word_lt one
      split at found
      · cases found
      · next kind _ =>
        have later := length_words_le middle kind.arity
        split at found
        · cases found
        · next operands last more =>
          rw [more] at later
          split at found
          · cases found
          · cases found
            dsimp only at later
            omega

/-- Hands every event to a handler until the trace ends or something fails, and counts them. -/
def process {σ : Type} (handle : Event → Step σ Unit) (reader : Reader) (count : Nat) :
    Step σ Nat :=
  match _found : reader.read with
  | .finished => return count
  | .broken fault _ => throw (.trace fault)
  | .event event after => do
    handle event
    process handle after (count + 1)
termination_by reader.remaining.length
decreasing_by exact length_read _found

/-- Writes a trace as text, an event a line. -/
def print (reader : Reader) : Step String Nat :=
  reader.process (fun event => modify (· ++ event.render ++ "\n")) 0

end Reader

end ProgramAnalysis.Trace
