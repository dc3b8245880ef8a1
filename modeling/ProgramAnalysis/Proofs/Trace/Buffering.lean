import ProgramAnalysis.Proofs.Trace
import Mathlib.Data.List.Induction

/-!
Words on their way into blocks: none is lost, repeated or moved, wherever the blocks end. A request
puts its word behind all others and hands on what fills a block, or everything; what was handed on
followed by what waits only grows by that word.
-/

namespace ProgramAnalysis.Trace.BlockWriter

open List Word

/-- What a writer of blocks can be asked for. -/
inductive Request where
  | put (word : Int32)
  | flush

def Request.word? : Request → Option Int32
  | put word => some word
  | flush => none

/-- Puts a word or flushes. -/
def serve (writer : BlockWriter) : Request → BlockWriter
  | .put word => writer.put word
  | .flush => writer.flush

/-- A new writer after some requests. -/
def serveAll (blockSize : Nat) (requests : List Request) : BlockWriter :=
  requests.foldl serve { blockSize }

/-- The bytes of all words put. -/
def bytesOf (requests : List Request) : List UInt8 :=
  (requests.filterMap Request.word?).flatMap encode

/-! ### One request -/

theorem blockSize_serve (writer : BlockWriter) (request : Request) :
    (writer.serve request).blockSize = writer.blockSize := by
  have handOn (bytes : List UInt8) : (writer.handOn bytes).blockSize = writer.blockSize := by
    unfold BlockWriter.handOn
    split <;> rfl
  cases request with
  | flush => exact handOn _
  | put word =>
    show (writer.put word).blockSize = _
    unfold put
    dsimp only
    split
    · rfl
    · exact handOn _

theorem content_serve (writer : BlockWriter) (request : Request) :
    (writer.serve request).content = writer.content ++ bytesOf [request] := by
  cases request with
  | flush =>
    show writer.flush.written ++ [] = _
    rw [written_flush]
    rfl
  | put word =>
    rw [serve, content_put]
    simp [bytesOf, Request.word?]

theorem length_block_serve {writer : BlockWriter} (room : 0 < writer.blockSize)
    (request : Request) :
    (writer.serve request).block.length < writer.blockSize := by
  cases request with
  | flush => exact room
  | put word =>
    show (writer.put word).block.length < _
    unfold put
    dsimp only
    split
    · next fits => exact fits
    · -- What stays behind is the remainder that the full blocks leave.
      rw [length_drop, Nat.sub_sub_self (Nat.mod_le _ _)]
      exact Nat.mod_lt _ room

/-- A word brings full blocks to be handed on, or nothing. -/
theorem chunks_put (writer : BlockWriter) (word : Int32) :
    ∃ full, (writer.put word).chunks = writer.chunks ++ full ∧
      ∀ chunk ∈ full, writer.blockSize ∣ chunk.length := by
  unfold put handOn
  dsimp only
  split
  · exact ⟨[], (append_nil _).symm, fun _ none => by cases none⟩
  · split
    · exact ⟨[], (append_nil _).symm, fun _ none => by cases none⟩
    · refine ⟨_, rfl, fun chunk mem => ?_⟩
      rw [mem_singleton.mp mem, length_take, Nat.min_eq_left (Nat.sub_le _ _)]
      exact Nat.dvd_sub_mod _

/-! ### Any requests -/

theorem blockSize_serveAll (blockSize : Nat) (requests : List Request) :
    (serveAll blockSize requests).blockSize = blockSize :=
  foldlRecOn requests serve (motive := fun writer => writer.blockSize = blockSize) rfl
    fun writer same request _ => (blockSize_serve writer request).trans same

theorem serveAll_concat (blockSize : Nat) (requests : List Request) (request : Request) :
    serveAll blockSize (requests ++ [request]) = (serveAll blockSize requests).serve request :=
  foldl_append

theorem content_serveAll (blockSize : Nat) (requests : List Request) :
    (serveAll blockSize requests).content = bytesOf requests := by
  induction requests using reverseRecOn with
  | nil => rfl
  | append_singleton earlier request ih =>
    rw [serveAll_concat, content_serve, ih]
    simp [bytesOf]

theorem length_block_serveAll {blockSize : Nat} (room : 0 < blockSize) (requests : List Request) :
    (serveAll blockSize requests).block.length < blockSize := by
  rcases eq_nil_or_concat requests with rfl | ⟨earlier, request, rfl⟩
  · exact room
  · have size := blockSize_serveAll blockSize earlier
    rw [concat_eq_append, serveAll_concat]
    exact Nat.lt_of_lt_of_eq (length_block_serve (Nat.lt_of_lt_of_eq room size.symm) request) size

theorem chunks_puts (blockSize : Nat) (requests : List Request) (words : List Int32) :
    ∃ full, (serveAll blockSize (requests ++ words.map .put)).chunks =
        (serveAll blockSize requests).chunks ++ full ∧
      ∀ chunk ∈ full, blockSize ∣ chunk.length := by
  induction words using reverseRecOn with
  | nil => exact ⟨[], by simp, fun _ none => by cases none⟩
  | append_singleton earlier word ih =>
    obtain ⟨before, handed, whole⟩ := ih
    obtain ⟨now, more, whole'⟩ :=
      chunks_put (serveAll blockSize (requests ++ earlier.map .put)) word
    refine ⟨before ++ now, ?_, fun chunk mem => ?_⟩
    · rw [map_append, ← append_assoc, ← append_assoc, ← handed, ← more]
      exact congrArg chunks (serveAll_concat ..)
    · rw [blockSize_serveAll] at whole'
      exact (mem_append.mp mem).elim (whole chunk) (whole' chunk)

/-- Whatever the size of blocks and whatever words are put and flushed, what was handed on and what
waits are together the words put, in order. What waits is less than a block. From any moment until
the next flush only whole blocks are handed on. Closing leaves exactly the words put, so that it is
the same for all sizes and all places of flushes. -/
theorem buffering_exact (blockSize : Nat) (room : 0 < blockSize) (requests : List Request) :
    let writer := serveAll blockSize requests
    writer.written ++ writer.block = bytesOf requests ∧
    writer.block.length < blockSize ∧
    (∀ words : List Int32, ∃ full,
      (serveAll blockSize (requests ++ words.map .put)).chunks = writer.chunks ++ full ∧
        ∀ chunk ∈ full, blockSize ∣ chunk.length) ∧
    writer.flush.written = bytesOf requests ∧
    ∀ otherSize, 0 < otherSize → ∀ others : List Request,
      others.filterMap Request.word? = requests.filterMap Request.word? →
        (serveAll otherSize others).flush.written = writer.flush.written := by
  intro writer
  have closed (size : Nat) (requests : List Request) :
      (serveAll size requests).flush.written = bytesOf requests := by
    rw [written_flush, content_serveAll]
  refine ⟨content_serveAll blockSize requests, length_block_serveAll room requests,
    chunks_puts blockSize requests, closed blockSize requests, fun _ _ others same => ?_⟩
  rw [closed, closed, bytesOf, bytesOf, same]

/-- Blocks of nine bytes end within a word, and a flush moves where they end. -/
theorem buffering_exact_straddling :
    let requests : List Request := [.put 1, .put 2, .flush, .put 3, .put (-2), .put 258]
    0 < 9 ∧ (serveAll 9 requests).chunks =
        [[0, 0, 0, 1, 0, 0, 0, 2], [0, 0, 0, 3, 255, 255, 255, 254, 0]] ∧
      (serveAll 9 requests).block = [0, 1, 2] ∧
      (serveAll 9 requests).flush.written =
        [0, 0, 0, 1, 0, 0, 0, 2, 0, 0, 0, 3, 255, 255, 255, 254, 0, 0, 1, 2] := by
  intro requests
  obtain ⟨_, _, _, closed, _⟩ := buffering_exact 9 (by decide) requests
  exact ⟨by decide, by decide +kernel, by decide +kernel, closed.trans (by decide +kernel)⟩

end ProgramAnalysis.Trace.BlockWriter
