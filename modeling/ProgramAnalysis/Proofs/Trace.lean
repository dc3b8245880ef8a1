import ProgramAnalysis.Proofs.Step
import ProgramAnalysis.Trace.Tracer

/-!
The grammar of traces, and traces on their way through a file. What is read is told by the grammar
(`Frames`), for all bytes and not only for those that were written as a trace: a reader that faces
some bytes (`Faces`) gives the events of their frames and then the end or the fault, however long
its blocks are. What is written for some events has these events as its frames, so that reading
undoes writing.
-/

namespace ProgramAnalysis.Trace

open List EventKind Word Reader Writer BlockWriter

/-! ### Opcodes and operands -/

theorem EventKind.mem_all (kind : EventKind) : kind ∈ EventKind.all := by
  cases kind <;> decide

theorem EventKind.opcode_injective {kind other : EventKind} (same : kind.opcode = other.opcode) :
    kind = other := by
  revert same
  cases kind <;> cases other <;> decide

theorem EventKind.ofOpcode?_eq_some {opcode : Int32} :
    ofOpcode? opcode = some kind ↔ kind.opcode = opcode := by
  unfold ofOpcode?
  constructor
  · intro found
    simpa using find?_some found
  · rintro rfl
    cases found : EventKind.all.find? fun other => other.opcode = kind.opcode with
    | none =>
      have missing := find?_eq_none.mp found kind kind.mem_all
      exact absurd (decide_eq_true rfl) missing
    | some other =>
      have same : other.opcode = kind.opcode := by simpa using find?_some found
      rw [opcode_injective same]

/-- Operands make up an event of a kind only if they are the operands of that event. -/
theorem Event.ofOperands?_eq_some {kind : EventKind} {operands : List Int32} :
    Event.ofOperands? kind operands = some event ↔
      event.kind = kind ∧ event.operands = operands := by
  constructor
  · intro made
    unfold Event.ofOperands? at made
    split at made <;> cases made <;> exact ⟨rfl, rfl⟩
  · rintro ⟨rfl, rfl⟩
    exact event.ofOperands?_operands

/-! ### The grammar -/

/-- Bytes that start at an offset, the events of their frames up to the end or the first fault, and
this fault if there is one. -/
inductive Frames : Nat → List UInt8 → List Event → Option Fault → Prop where
  | ended (offset : Nat) : Frames offset [] [] none
  | cutOpcode {offset : Nat} {bytes : List UInt8} : bytes ≠ [] → bytes.length < 4 →
    Frames offset bytes [] (some (.truncated none offset))
  | unknown {offset : Nat} {opcode : Int32} {rest : List UInt8} :
    (∀ kind : EventKind, kind.opcode ≠ opcode) →
    Frames offset (encode opcode ++ rest) [] (some (.unknownOpcode opcode offset))
  | cutOperands {offset : Nat} {kind : EventKind} {rest : List UInt8} :
    rest.length < 4 * kind.arity →
    Frames offset (encode kind.opcode ++ rest) [] (some (.truncated (some kind) offset))
  | frame {offset : Nat} {event : Event} {rest : List UInt8} {events : List Event}
    {ending : Option Fault} : Frames (offset + 4 + 4 * event.kind.arity) rest events ending →
    Frames offset (encodeEvent event ++ rest) (event :: events) ending

theorem length_flatMap_encode (words : List Int32) :
    (words.flatMap encode).length = 4 * words.length := by
  induction words with
  | nil => rfl
  | cons word rest ih =>
    rw [flatMap_cons, length_append, ih, length_cons, Nat.mul_succ, Nat.add_comm]
    rfl

theorem length_encodeEvent (event : Event) :
    (encodeEvent event).length = 4 + 4 * event.kind.arity := by
  rw [encodeEvent, length_append, length_flatMap_encode, event.length_operands]
  rfl

theorem exists_word {bytes : List UInt8} (enough : 4 ≤ bytes.length) :
    ∃ word rest, bytes = encode word ++ rest := by
  rcases bytes with _ | ⟨a, _ | ⟨b, _ | ⟨c, _ | ⟨d, rest⟩⟩⟩⟩
  iterate 4 simp at enough
  exact ⟨decode a b c d, rest, by rw [encode_decode]; rfl⟩

variable {count : Nat}

theorem exists_words {bytes : List UInt8} (enough : 4 * count ≤ bytes.length) :
    ∃ (words : List Int32) (rest : List UInt8), words.length = count ∧
      bytes = words.flatMap encode ++ rest := by
  induction count generalizing bytes with
  | zero => exact ⟨[], bytes, rfl, rfl⟩
  | succ count ih =>
    have one : 4 ≤ bytes.length := by omega
    obtain ⟨word, others, rfl⟩ := exists_word one
    have left : 4 * count ≤ others.length := by
      rw [length_append] at enough
      have four : (encode word).length = 4 := rfl
      omega
    obtain ⟨words, rest, counted, rfl⟩ := ih left
    exact ⟨word :: words, rest, by rw [length_cons, counted], by rw [flatMap_cons, append_assoc]⟩

variable {kind : EventKind}

theorem exists_event {operands : List Int32} (counted : operands.length = kind.arity) :
    ∃ event : Event, event.kind = kind ∧ event.operands = operands := by
  cases made : Event.ofOperands? kind operands with
  | some event => exact ⟨event, Event.ofOperands?_eq_some.mp made⟩
  | none =>
    -- with as many operands as the kind has, one of the first twelve cases applies
    rcases operands with _ | ⟨a, _ | ⟨b, _ | ⟨c, _ | ⟨d, _ | ⟨e, more⟩⟩⟩⟩⟩ <;>
      cases kind <;> simp [arity, Event.ofOperands?] at counted made

/-- Whatever the bytes are, the grammar says what they are read as. -/
theorem exists_frames (offset : Nat) (bytes : List UInt8) :
    ∃ events ending, Frames offset bytes events ending := by
  induction size : bytes.length using Nat.strongRecOn generalizing offset bytes with
  | ind total ih =>
    by_cases none : bytes = []
    · subst none
      exact ⟨[], _, .ended offset⟩
    by_cases short : bytes.length < 4
    · exact ⟨[], _, .cutOpcode none short⟩
    obtain ⟨opcode, rest, rfl⟩ := exists_word (Nat.le_of_not_lt short)
    by_cases known : ∃ kind : EventKind, kind.opcode = opcode
    · obtain ⟨kind, rfl⟩ := known
      by_cases cut : rest.length < 4 * kind.arity
      · exact ⟨[], _, .cutOperands cut⟩
      obtain ⟨operands, rest, counted, rfl⟩ := exists_words (Nat.le_of_not_lt cut)
      obtain ⟨event, rfl, rfl⟩ := exists_event counted
      rw [← append_assoc, ← encodeEvent] at size ⊢
      have smaller : rest.length < total := by
        rw [← size, length_append, length_encodeEvent]
        omega
      obtain ⟨events, ending, frames⟩ := ih rest.length smaller _ rest rfl
      exact ⟨event :: events, ending, .frame frames⟩
    · exact ⟨[], _, .unknown fun kind same => known ⟨kind, same⟩⟩

/-- Where reading ends well, there was nothing but the frames of the events met. -/
theorem frames_none_iff {offset : Nat} {bytes : List UInt8} {events : List Event} :
    Frames offset bytes events none ↔ bytes = encodeEvents events := by
  constructor
  · intro frames
    generalize ended : none = ending at frames
    induction frames with
    | ended => rfl
    | frame _ ih =>
      rw [ih ended]
      rfl
    | _ => cases ended
  · rintro rfl
    induction events generalizing offset with
    | nil => exact .ended offset
    | cons event rest ih => exact .frame ih

/-! ### Bytes and words -/

namespace Reader

variable {reader after : Reader} {offset : Nat} {bytes rest : List UInt8}

/-- Blocks have room, and these are the bytes still to be read, from this offset on. -/
structure Faces (reader : Reader) (offset : Nat) (bytes : List UInt8) : Prop where
  room : 0 < reader.blockSize
  here : reader.offset = offset
  remaining : reader.remaining = bytes

theorem fill_keeps (reader : Reader) :
    reader.fill.blockSize = reader.blockSize ∧ reader.fill.offset = reader.offset := by
  unfold fill
  split <;> exact ⟨rfl, rfl⟩

/-- A block is fetched as long as there are bytes left. -/
theorem block_fill_eq_nil (room : 0 < reader.blockSize) :
    reader.fill.block = [] ↔ reader.remaining = [] := by
  unfold fill remaining
  split
  · next used =>
    have none : reader.block = [] := List.isEmpty_iff.mp used
    simp [none, Nat.ne_of_gt room]
  · next unused =>
    have some : reader.block ≠ [] := fun none => unused (List.isEmpty_iff.mpr none)
    simp [some]

theorem take_keeps (reader : Reader) (count : Nat) :
    (reader.take count).2.blockSize = reader.blockSize ∧
      (reader.take count).2.offset = reader.offset := by
  induction count generalizing reader with
  | zero => exact ⟨rfl, rfl⟩
  | succ count ih =>
    obtain ⟨size, here⟩ := fill_keeps reader
    rw [take]
    split
    · exact ⟨size, here⟩
    · next byte left front =>
      obtain ⟨size', here'⟩ := ih { reader.fill with block := left }
      exact ⟨size'.trans size, here'.trans here⟩

/-- Wherever blocks end, as many bytes are taken as are asked for, if there are so many. -/
theorem take_fst (room : 0 < reader.blockSize) (count : Nat) :
    (reader.take count).1 = reader.remaining.take count := by
  induction count generalizing reader with
  | zero => rfl
  | succ count ih =>
    rw [take]
    split
    · next none =>
      rw [(block_fill_eq_nil room).mp none]
      rfl
    · next byte left front =>
      have whole : reader.remaining = byte :: (left ++ reader.fill.source) := by
        rw [← remaining_fill, remaining, front, cons_append]
      have roomLeft : 0 < ({ reader.fill with block := left } : Reader).blockSize := by
        rwa [← (fill_keeps reader).1] at room
      rw [whole, take_succ_cons]
      exact congrArg (byte :: ·) (ih roomLeft)

theorem Faces.word {word : Int32} (faces : reader.Faces offset (encode word ++ rest)) :
    ∃ after, reader.word = (some word, after) ∧ after.Faces (offset + 4) rest := by
  obtain ⟨room, rfl, remaining⟩ := faces
  obtain ⟨size, here⟩ := take_keeps reader 4
  have front : (reader.take 4).1 = encode word := by
    rw [take_fst room, remaining]
    rfl
  have back : (reader.take 4).2.remaining = rest := by
    have parts := take_append_remaining reader 4
    rw [front, remaining] at parts
    exact append_cancel_left parts
  have taken : reader.take 4 = (encode word, (reader.take 4).2) := Prod.ext front rfl
  refine ⟨{ (reader.take 4).2 with offset := (reader.take 4).2.offset + 4 }, ?_,
    size ▸ room, congrArg (· + 4) here, back⟩
  unfold Reader.word
  rw [taken]
  exact Prod.ext (congrArg some (decode_encode word)) rfl

theorem Faces.words {words : List Int32}
    (faces : reader.Faces offset (words.flatMap encode ++ rest)) :
    ∃ after, reader.words words.length = (some words, after) ∧
      after.Faces (offset + 4 * words.length) rest := by
  induction words generalizing reader offset with
  | nil => exact ⟨reader, rfl, faces⟩
  | cons first others ih =>
    rw [flatMap_cons, append_assoc] at faces
    obtain ⟨between, one, faces⟩ := faces.word
    obtain ⟨after, more, faces⟩ := ih faces
    refine ⟨after, ?_, ?_⟩
    · rw [length_cons, Reader.words, one]
      simp only [more]
      rfl
    · rwa [length_cons, Nat.mul_succ, Nat.add_comm _ 4, ← Nat.add_assoc]

theorem word_of_short (short : reader.remaining.length < 4) :
    ∃ after, reader.word = (none, after) := by
  cases found : reader.word with
  | mk word after =>
    cases word with
    | none => exact ⟨after, rfl⟩
    | some word =>
      have enough := length_word_lt found
      omega

theorem words_of_short {count : Nat} (short : reader.remaining.length < 4 * count) :
    ∃ after, reader.words count = (none, after) := by
  induction count generalizing reader with
  | zero => cases short
  | succ count ih =>
    rw [Reader.words]
    split
    · next after _ => exact ⟨after, rfl⟩
    · next word between found =>
      have shorter := length_word_lt found
      obtain ⟨after, missing⟩ := @ih between (by omega)
      rw [missing]
      exact ⟨after, rfl⟩

/-! ### Reading what the grammar says -/

theorem Faces.more (faces : reader.Faces offset bytes) (some : bytes ≠ []) :
    reader.fill.block.isEmpty = false := by
  rwa [isEmpty_eq_false_iff, Ne, block_fill_eq_nil faces.room, faces.remaining]

theorem Faces.read (faces : reader.Faces offset (encodeEvent event ++ rest)) :
    ∃ after, reader.read = .event event after ∧
      after.Faces (offset + 4 + 4 * event.kind.arity) rest := by
  have more := faces.more (cons_ne_nil _ _)
  rw [encodeEvent, append_assoc] at faces
  obtain ⟨between, opcode, faces⟩ := faces.word
  obtain ⟨after, operands, faces⟩ := faces.words
  rw [event.length_operands] at operands faces
  refine ⟨after, ?_, faces⟩
  unfold Reader.read
  simp only [more, opcode, ofOpcode?_eq_some.mpr rfl, operands,
    event.ofOperands?_operands, Bool.false_eq_true, if_false]

theorem read_eq_finished (room : 0 < reader.blockSize) :
    reader.read = .finished ↔ reader.remaining = [] := by
  rw [← block_fill_eq_nil room, ← List.isEmpty_iff]
  unfold Reader.read
  split
  · next ended => simp [ended]
  · next more =>
    refine iff_of_false (fun ended => ?_) more
    split at ended
    · cases ended
    · split at ended
      · cases ended
      · split at ended
        · cases ended
        · split at ended <;> cases ended

/-- What asking for one event after the other gives until the trace ends or a fault is found: the
events, and the fault if there is one. -/
def results (reader : Reader) : List Event × Option Fault :=
  match _found : reader.read with
  | .finished => ([], none)
  | .broken fault _ => ([], some fault)
  | .event event after => (event :: after.results.1, after.results.2)
termination_by reader.remaining.length
decreasing_by all_goals exact length_read _found

theorem results_of_finished (ended : reader.read = .finished) : reader.results = ([], none) := by
  rw [results]
  split
  · rfl
  · next found => cases ended.symm.trans found
  · next found => cases ended.symm.trans found

variable {fault : Fault} {event : Event}

theorem results_of_broken (broken : reader.read = .broken fault after) :
    reader.results = ([], some fault) := by
  rw [results]
  split
  · next found => cases broken.symm.trans found
  · next found =>
    cases broken.symm.trans found
    rfl
  · next found => cases broken.symm.trans found

theorem results_of_event (found : reader.read = .event event after) :
    reader.results = (event :: after.results.1, after.results.2) := by
  rw [results]
  split
  · next other => cases found.symm.trans other
  · next other => cases found.symm.trans other
  · next other =>
    cases found.symm.trans other
    rfl

theorem read_of_cutOpcode (faces : reader.Faces offset bytes) (some : bytes ≠ [])
    (short : bytes.length < 4) : ∃ after, reader.read = .broken (.truncated none offset) after := by
  obtain ⟨after, missing⟩ := @word_of_short reader (by rwa [faces.remaining])
  refine ⟨after, ?_⟩
  unfold Reader.read
  simp only [faces.more some, missing, faces.here, Bool.false_eq_true, if_false]

theorem read_of_unknown {opcode : Int32} (faces : reader.Faces offset (encode opcode ++ rest))
    (unknown : ∀ kind : EventKind, kind.opcode ≠ opcode) :
    ∃ after, reader.read = .broken (.unknownOpcode opcode offset) after := by
  obtain ⟨after, found, _⟩ := faces.word
  have noKind : ofOpcode? opcode = none := by
    cases known : ofOpcode? opcode with
    | none => rfl
    | some kind => exact absurd (ofOpcode?_eq_some.mp known) (unknown kind)
  refine ⟨after, ?_⟩
  unfold Reader.read
  simp only [faces.more (cons_ne_nil _ _), found, noKind, faces.here, Bool.false_eq_true, if_false]

theorem read_of_cutOperands {kind : EventKind}
    (faces : reader.Faces offset (encode kind.opcode ++ rest))
    (short : rest.length < 4 * kind.arity) :
    ∃ after, reader.read = .broken (.truncated (some kind) offset) after := by
  obtain ⟨between, found, faces'⟩ := faces.word
  obtain ⟨after, missing⟩ := @words_of_short between kind.arity (by rwa [faces'.remaining])
  refine ⟨after, ?_⟩
  unfold Reader.read
  simp only [faces.more (cons_ne_nil _ _), found, ofOpcode?_eq_some.mpr rfl, missing, faces.here,
    Bool.false_eq_true, if_false]

variable {events : List Event} {ending : Option Fault}

theorem results_of_frames (frames : Frames offset bytes events ending)
    (faces : reader.Faces offset bytes) : reader.results = (events, ending) := by
  induction frames generalizing reader with
  | ended => exact results_of_finished ((read_eq_finished faces.room).mpr faces.remaining)
  | cutOpcode some short =>
    obtain ⟨after, broken⟩ := read_of_cutOpcode faces some short
    exact results_of_broken broken
  | unknown unknown =>
    obtain ⟨after, broken⟩ := read_of_unknown faces unknown
    exact results_of_broken broken
  | cutOperands short =>
    obtain ⟨after, broken⟩ := read_of_cutOperands faces short
    exact results_of_broken broken
  | frame _ ih =>
    obtain ⟨after, found, faces⟩ := faces.read
    rw [results_of_event found, ih faces]

theorem results_eq_iff {blockSize : Nat} (room : 1 ≤ blockSize) :
    (ofBytes blockSize bytes).results = (events, ending) ↔ Frames 0 bytes events ending := by
  have start : (ofBytes blockSize bytes).Faces 0 bytes := ⟨room, rfl, rfl⟩
  constructor
  · intro found
    obtain ⟨events', ending', frames⟩ := exists_frames 0 bytes
    cases (results_of_frames frames start).symm.trans found
    exact frames
  · exact fun frames => results_of_frames frames start

/-! ### Handing events on -/

/-- Gives events to a handler one after the other, and then ends with their number or a fault. -/
def hand {σ : Type} (handle : Event → Step σ Unit) (count : Nat) (events : List Event)
    (ending : Option Fault) : Step σ Nat := do
  events.forM handle
  match ending with
  | none => return count + events.length
  | some fault => throw (.trace fault)

theorem hand_cons {σ : Type} (handle : Event → Step σ Unit) (count : Nat) (event : Event)
    (events : List Event) (ending : Option Fault) :
    hand handle count (event :: events) ending =
      handle event >>= fun _ => hand handle (count + 1) events ending := by
  unfold hand
  rw [length_cons, Nat.add_assoc, Nat.add_comm 1]
  exact bind_assoc (handle event) (fun _ => events.forM handle) _

theorem process_eq_hand {σ : Type} (handle : Event → Step σ Unit) (reader : Reader) (count : Nat) :
    reader.process handle count = hand handle count reader.results.1 reader.results.2 := by
  fun_induction process handle reader count with
  | case1 reader count ended =>
    rw [results_of_finished ended]
    rfl
  | case2 reader count fault after broken =>
    rw [results_of_broken broken]
    rfl
  | case3 reader count event after found ih =>
    rw [results_of_event found, ih, hand_cons]

/-- A handler that takes events into account one by one leaves what taking all of them does. -/
theorem leaves_process {σ : Type} (f : σ → Event → σ) (start : σ) (reader : Reader) (count : Nat) :
    (reader.process (fun event => modify (f · event)) count).leaves start =
      match reader.results.2 with
      | none => .ok (reader.results.1.foldl f start)
      | some fault => .error (.trace fault) := by
  rw [process_eq_hand]
  generalize reader.results.1 = events
  induction events generalizing start count with
  | nil => cases reader.results.2 <;> rfl
  | cons event rest ih =>
    rw [hand_cons]
    exact ih (f start event) (count + 1)

/-- Appends an event to those met before. -/
def gather (event : Event) : Step (List Event) Unit := modify (· ++ [event])

end Reader

/-! ### Writing -/

namespace BlockWriter

/-- All bytes a writer was given: those handed on, and the waiting block. -/
def content (writer : BlockWriter) : List UInt8 := writer.written ++ writer.block

theorem written_handOn (writer : BlockWriter) (bytes : List UInt8) :
    (writer.handOn bytes).written = writer.written ++ bytes := by
  unfold handOn
  split
  · next none => rw [List.isEmpty_iff.mp none, append_nil]
  · simp [written]

/-- A word is appended to what was given before, whether it fills a block or not. -/
theorem content_put (writer : BlockWriter) (word : Int32) :
    (writer.put word).content = writer.content ++ encode word := by
  unfold put
  dsimp only
  split
  · simp only [content, append_assoc]
    rfl
  · show (writer.handOn _).written ++ _ = _
    rw [written_handOn, append_assoc, take_append_drop, content, append_assoc]

theorem content_foldl_put (writer : BlockWriter) (words : List Int32) :
    (words.foldl put writer).content = writer.content ++ words.flatMap encode := by
  induction words generalizing writer with
  | nil => exact (append_nil _).symm
  | cons word rest ih =>
    rw [foldl_cons, ih, content_put, append_assoc, flatMap_cons]

theorem written_flush (writer : BlockWriter) : writer.flush.written = writer.content :=
  written_handOn writer writer.block

end BlockWriter

namespace Writer

theorem content_foldl_write (writer : Writer) (events : List Event) :
    (events.foldl write writer).out.content = writer.out.content ++ encodeEvents events := by
  induction events generalizing writer with
  | nil => exact (append_nil _).symm
  | cons event rest ih =>
    have frame : (writer.write event).out.content = writer.out.content ++ encodeEvent event := by
      rw [write, content_foldl_put, content_put, append_assoc, encodeEvent]
    rw [foldl_cons, ih, frame, append_assoc]
    rfl

end Writer

/-! ### There and back -/

/-- The bytes of a trace that is written in blocks of a size and flushed at its end. -/
def writeAll (blockSize : Nat) (events : List Event) :
    Except ProgramAnalysis.Fault (List UInt8) := do
  let writer ← create blockSize
  return (events.foldl write writer).flush.out.written

/-- The events of a trace that is read in blocks of a size, if it ends well. -/
def readAll (blockSize : Nat) (bytes : List UInt8) : Except ProgramAnalysis.Fault (List Event) :=
  ((ofBytes blockSize bytes).process gather 0).leaves []

/-- Whatever the size of blocks, the written form of events is the sequence of their frames. -/
theorem writeAll_eq {blockSize : Nat} (large : 8 ≤ blockSize) (events : List Event) :
    writeAll blockSize events = .ok (encodeEvents events) := by
  have created : create blockSize = .ok { out := { blockSize } } := if_neg (Nat.not_lt.mpr large)
  rw [writeAll, created]
  show Except.ok (events.foldl write { out := { blockSize } }).out.flush.written = _
  rw [written_flush, content_foldl_write]
  rfl

theorem readAll_eq (blockSize : Nat) (bytes : List UInt8) : readAll blockSize bytes =
      match (ofBytes blockSize bytes).results.2 with
      | none => .ok (ofBytes blockSize bytes).results.1
      | some fault => .error (.trace fault) := by
  have listed (events : List Event) :
      events.foldl (fun met event => met ++ [event]) [] = events := by
    simp [← flatMap_def]
  refine (leaves_process (fun met event => met ++ [event]) [] _ 0).trans ?_
  rw [listed]

/-- A trace is read without a fault exactly if it is a sequence of frames. -/
theorem readAll_eq_ok {blockSize : Nat} (room : 1 ≤ blockSize) {bytes : List UInt8}
    {events : List Event} : readAll blockSize bytes = .ok events ↔ bytes = encodeEvents events := by
  rw [readAll_eq, ← @frames_none_iff 0, ← results_eq_iff room, Prod.ext_iff]
  cases (ofBytes blockSize bytes).results.2 <;> simp

/-- Reading is the inverse of writing, whatever the sizes of the blocks. Every list of events can be
written; bytes are read to a clean end as some events if and only if they are what writing these
events makes. -/
theorem readAll_iff_writeAll (writeSize readSize : Nat) (large : 8 ≤ writeSize)
    (room : 1 ≤ readSize) :
    (∀ events, ∃ bytes, writeAll writeSize events = .ok bytes) ∧
      ∀ bytes events, readAll readSize bytes = .ok events ↔
        writeAll writeSize events = .ok bytes := by
  refine ⟨fun events => ⟨_, writeAll_eq large events⟩, fun bytes events => ?_⟩
  rw [readAll_eq_ok room, writeAll_eq large, Except.ok.injEq, eq_comm]

/-- Blocks of nine bytes are written and blocks of three are read, so frames and words straddle both
kinds. -/
theorem readAll_iff_writeAll_straddling :
    8 ≤ 9 ∧ 1 ≤ 3 ∧
      writeAll 9 [.threadStart (-2), .staticWrite 258] =
        .ok [0, 0, 0, 9, 255, 255, 255, 254, 0, 0, 0, 7, 0, 0, 1, 2] ∧
      readAll 3 [0, 0, 0, 9, 255, 255, 255, 254, 0, 0, 0, 7, 0, 0, 1, 2] =
        .ok [.threadStart (-2), .staticWrite 258] := by
  have written : writeAll 9 [.threadStart (-2), .staticWrite 258] =
      .ok [0, 0, 0, 9, 255, 255, 255, 254, 0, 0, 0, 7, 0, 0, 1, 2] := by rfl
  exact ⟨by decide, by decide, written,
    ((readAll_iff_writeAll 9 3 (by decide) (by decide)).2 _ _).mpr written⟩

end ProgramAnalysis.Trace
