import ProgramAnalysis.Proofs.Trace

/-!
Traces that are cut off, and readers that go on after faults. A cut leaves the frames before it
whole, and what is left of the next one is a fault (`frames_take`). Every call that meets a fault
uses up bytes, so that going on comes to the end.
-/

namespace ProgramAnalysis.Trace

open List Word EventKind Reader

/-! ### Traces that are cut off -/

/-- Where the frame of the event at an index ends. -/
def frameEnd (events : List Event) (i : Nat) : Nat := (encodeEvents (events.take (i + 1))).length

/-- A frame that is cut off is a fault, unless nothing is left of it. -/
theorem frames_take_event (offset : Nat) (event : Event) {cut : Nat}
    (inside : cut < 4 + 4 * event.kind.arity) :
    ∃ ending, Frames offset ((encodeEvent event).take cut) [] ending ∧
      (ending = none ↔ cut = 0) := by
  have size := length_encodeEvent event
  by_cases zero : cut = 0
  · subst zero
    exact ⟨none, .ended offset, iff_of_true rfl rfl⟩
  have broken {fault : Fault} : some fault = none ↔ cut = 0 :=
    iff_of_false (Option.some_ne_none fault) zero
  by_cases short : cut < 4
  · refine ⟨_, .cutOpcode ?_ ?_, broken⟩
    · rw [Ne, take_eq_nil_iff]
      rintro (none | none)
      · exact zero none
      · rw [none, length_nil] at size
        omega
    · rw [length_take]
      omega
  · have front : (encodeEvent event).take cut =
        encode event.kind.opcode ++ (event.operands.flatMap encode).take (cut - 4) := by
      rw [encodeEvent, take_append, take_of_length_le (Nat.le_of_not_lt short)]
      rfl
    rw [front]
    refine ⟨_, .cutOperands ?_, broken⟩
    rw [length_take]
    omega

/-- A trace that is cut off is read as the events whose frames are whole, and ends well exactly if
it was cut between two frames. -/
theorem frames_take (offset : Nat) (events : List Event) (cut : Nat) :
    ∃ whole ending, Frames offset ((encodeEvents events).take cut) (events.take whole) ending ∧
      (∀ i < events.length, i < whole ↔ frameEnd events i ≤ cut) ∧
      (cut ≤ (encodeEvents events).length →
        (ending = none ↔ ∃ k, (encodeEvents (events.take k)).length = cut)) := by
  induction events generalizing offset cut with
  | nil =>
    refine ⟨0, none, ?_, nofun, fun inside => ⟨fun _ => ⟨0, ?_⟩, fun _ => rfl⟩⟩
    · rw [show (encodeEvents []).take cut = [] from take_nil]
      exact .ended offset
    · exact (Nat.le_zero.mp inside).symm
  | cons event rest ih =>
    have size := length_encodeEvent event
    have start (k : Nat) : (encodeEvents ((event :: rest).take (k + 1))).length =
        4 + 4 * event.kind.arity + (encodeEvents (rest.take k)).length := by
      rw [take_succ_cons, encodeEvents, flatMap_cons, length_append, size]
      rfl
    have total : (encodeEvents (event :: rest)).length =
        4 + 4 * event.kind.arity + (encodeEvents rest).length := by
      rw [encodeEvents, flatMap_cons, length_append, size]
      rfl
    have bytes : (encodeEvents (event :: rest)).take cut = (encodeEvent event).take cut ++
          (encodeEvents rest).take (cut - (4 + 4 * event.kind.arity)) := by
      rw [encodeEvents, flatMap_cons, take_append, size]
      rfl
    rw [bytes]
    -- The cut falls inside the first frame, or behind it and then into the rest of the trace.
    by_cases inFirst : cut < 4 + 4 * event.kind.arity
    · obtain ⟨ending, frames, ended⟩ := frames_take_event offset event inFirst
      rw [show cut - (4 + 4 * event.kind.arity) = 0 by omega, take_zero, append_nil]
      refine ⟨0, ending, frames, fun i _ => ?_, fun _ => ended.trans ⟨?_, ?_⟩⟩
      · rw [frameEnd, start]
        omega
      · rintro rfl
        exact ⟨0, rfl⟩
      · rintro ⟨_ | k, same⟩
        · exact same.symm
        · rw [start] at same
          omega
    · obtain ⟨whole, ending, frames, among, boundary⟩ := ih
        (offset + 4 + 4 * event.kind.arity) (cut - (4 + 4 * event.kind.arity))
      rw [take_of_length_le (by rw [size]; omega)]
      refine ⟨whole + 1, ending, .frame frames, fun i below => ?_, fun inside => ?_⟩
      · rw [frameEnd, start]
        cases i with
        | zero =>
          have nothing : (encodeEvents (rest.take 0)).length = 0 := rfl
          omega
        | succ i =>
          have earlier := among i (Nat.lt_of_succ_lt_succ below)
          rw [frameEnd] at earlier
          omega
      · rw [boundary (by omega)]
        constructor
        · rintro ⟨k, same⟩
          exact ⟨k + 1, by rw [start]; omega⟩
        · rintro ⟨_ | k, same⟩
          · have nothing : (encodeEvents ((event :: rest).take 0)).length = 0 := rfl
            omega
          · rw [start] at same
            exact ⟨k, by omega⟩

namespace Reader

variable {reader after : Reader} {fault : Fault}

/-! ### Calling on -/

/-- The reader after some more calls, whatever they give. -/
def afterCalls : Nat → Reader → Reader
  | 0, reader => reader
  | calls + 1, reader =>
    match reader.read with
    | .finished => reader
    | .event _ after | .broken _ after => afterCalls calls after

/-- Bytes are used up as soon as some are asked for, if there are any. -/
theorem length_take_lt (more : reader.fill.block ≠ []) (count : Nat) :
    (reader.take (count + 1)).2.remaining.length < reader.remaining.length := by
  have parts := congrArg List.length (take_append_remaining reader (count + 1))
  have taken : (reader.take (count + 1)).1 ≠ [] := by
    rw [take]
    split
    · next none => exact absurd none more
    · exact cons_ne_nil _ _
  have some := length_pos_iff.mpr taken
  rw [length_append] at parts
  omega

theorem length_word_lt_of_more (more : reader.fill.block ≠ []) :
    reader.word.2.remaining.length < reader.remaining.length := by
  have less := length_take_lt more 3
  unfold Reader.word
  split <;> next taken =>
    rw [taken] at less
    exact less

theorem length_broken (found : reader.read = .broken fault after) :
    after.remaining.length < reader.remaining.length := by
  unfold read at found
  split at found
  · cases found
  · next more =>
    have less := length_word_lt_of_more fun none => more (List.isEmpty_iff.mpr none)
    split at found
    · next one =>
      cases found
      rwa [one] at less
    · next opcode between one =>
      rw [one] at less
      split at found
      · cases found
        exact less
      · next kind _ =>
        have later := length_words_le between kind.arity
        split at found
        · next missing =>
          cases found
          rw [missing] at later
          exact Nat.lt_of_le_of_lt later less
        · next missing =>
          rw [missing] at later
          split at found
          · cases found
            exact Nat.lt_of_le_of_lt later less
          · cases found

/-- A caller who goes on after faults reaches the end, with at most one call for each byte. -/
theorem exists_finished (reader : Reader) :
    ∃ calls ≤ reader.remaining.length, (reader.afterCalls calls).read = .finished := by
  induction size : reader.remaining.length using Nat.strongRecOn generalizing reader with
  | ind total ih =>
    have onward {after : Reader} (less : after.remaining.length < reader.remaining.length)
        (next : ∀ calls, reader.afterCalls (calls + 1) = after.afterCalls calls) :
        ∃ calls ≤ total, (reader.afterCalls calls).read = .finished := by
      obtain ⟨calls, bound, ended⟩ := ih _ (size ▸ less) after rfl
      exact ⟨calls + 1, by omega, by rw [next, ended]⟩
    cases found : reader.read with
    | finished => exact ⟨0, Nat.zero_le _, found⟩
    | event event after =>
      exact onward (length_read found) fun calls => by rw [afterCalls, found]
    | broken fault after =>
      exact onward (length_broken found) fun calls => by rw [afterCalls, found]

end Reader

/-- Blocks of any size with room show the same trace. A reader gives the events that the grammar
finds in the bytes and then the end or the fault that it finds. So a trace that is cut off somewhere
gives the events whose frames are whole, and ends well exactly if it was cut between two frames. A
handler is given these events and no others. A fault uses up bytes, and who goes on after faults
reaches the end. -/
theorem reading_follows_frames (blockSize : Nat) (room : 1 ≤ blockSize) :
    (∀ bytes events ending, (Reader.ofBytes blockSize bytes).results = (events, ending) ↔
      Frames 0 bytes events ending) ∧
    (∀ events cut, cut ≤ (encodeEvents events).length → ∃ whole ending,
      (Reader.ofBytes blockSize ((encodeEvents events).take cut)).results =
        (events.take whole, ending) ∧
      (∀ i < events.length, i < whole ↔ frameEnd events i ≤ cut) ∧
      (ending = none ↔ ∃ k, (encodeEvents (events.take k)).length = cut)) ∧
    (∀ (σ : Type) (handle : Event → Step σ Unit) bytes,
      (Reader.ofBytes blockSize bytes).process handle 0 =
        Reader.hand handle 0 (Reader.ofBytes blockSize bytes).results.1
          (Reader.ofBytes blockSize bytes).results.2) ∧
    (∀ (reader after : Reader) fault, reader.read = .broken fault after →
      after.remaining.length < reader.remaining.length) ∧
    ∀ bytes, ∃ calls ≤ bytes.length,
      ((Reader.ofBytes blockSize bytes).afterCalls calls).read = .finished := by
  refine ⟨fun bytes events ending => Reader.results_eq_iff room, fun events cut inside => ?_,
    fun σ handle bytes => Reader.process_eq_hand handle _ 0,
    fun reader after fault => Reader.length_broken,
    fun bytes => Reader.exists_finished (.ofBytes blockSize bytes)⟩
  obtain ⟨whole, ending, frames, among, boundary⟩ := frames_take 0 events cut
  exact ⟨whole, ending, (Reader.results_eq_iff room).mpr frames, among, boundary inside⟩

/-- Blocks of three bytes, so that words and frames straddle them. A word that is no opcode follows
the first frame; and of two frames the second is cut off inside its last operand. -/
theorem reading_follows_frames_interrupted :
    1 ≤ 3 ∧
    Frames 0 [0, 0, 0, 9, 0, 0, 0, 5, 0, 0, 0, 13, 0, 0] [.threadStart 5]
      (some (.unknownOpcode 13 8)) ∧
    ∃ whole ending, (Reader.ofBytes 3 ((encodeEvents [.threadStart 5, .new 1 2]).take 18)).results =
        ([Event.threadStart 5, .new 1 2].take whole, ending) ∧ whole = 1 ∧
      ending = some (.truncated (some .new) 8) := by
  obtain ⟨grammar, cutting, _⟩ := reading_follows_frames 3 (by decide)
  obtain ⟨whole, ending, found, among, _⟩ := cutting [.threadStart 5, .new 1 2] 18 (by decide)
  have first : 0 < whole := (among 0 (by decide)).mpr (by decide)
  have second : ¬ 1 < whole := fun inside => absurd ((among 1 (by decide)).mp inside) (by decide)
  have read : (Reader.ofBytes 3 ((encodeEvents [.threadStart 5, .new 1 2]).take 18)).results =
      ([.threadStart 5], some (.truncated (some .new) 8)) := by
    decide +kernel
  refine ⟨by decide, (grammar _ _ _).mp (by decide +kernel), whole, ending, found, by omega, ?_⟩
  exact (congrArg Prod.snd found).symm.trans (congrArg Prod.snd read)

end ProgramAnalysis.Trace
