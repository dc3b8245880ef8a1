import ProgramAnalysis.Session.Basic

/-!
Runs as the journal of a session shows them: when a task was entered for the last time and how this
ended (`LastRun`), and which of two tasks ran first (`RanBefore`). Notes about other tasks do not
change either.
-/

namespace ProgramAnalysis

open List

/-- The task that a note is about. -/
def JournalEntry.task? : JournalEntry → Option String
  | .started task | .finished task | .failed task => some task
  | .solved _ => none

/-- The task was entered for the last time at `start`, and that run ended well at `stop`. -/
structure LastRun (journal : List JournalEntry) (name : String) (start stop : Nat) : Prop where
  started : journal[start]? = some (.started name)
  finished : journal[stop]? = some (.finished name)
  ordered : start < stop
  last : ∀ (i : Nat) (entry : JournalEntry), journal[i]? = some entry → start < i → i ≠ stop →
    entry.task? ≠ some name

/-- The last run of the first task had ended well when the last run of the second started, which
ended well too. -/
def RanBefore (journal : List JournalEntry) (first second : String) : Prop :=
  ∃ start stop start' stop',
    LastRun journal first start stop ∧ LastRun journal second start' stop' ∧ stop < start'

variable {journal notes : List JournalEntry} {name first second : String} {start stop : Nat}

theorem LastRun.stop_lt_length (ran : LastRun journal name start stop) : stop < journal.length :=
  (List.getElem?_eq_some_iff.mp ran.finished).1

theorem LastRun.start_lt_length (ran : LastRun journal name start stop) : start < journal.length :=
  Nat.lt_trans ran.ordered ran.stop_lt_length

theorem LastRun.append (ran : LastRun journal name start stop)
    (others : ∀ entry ∈ notes, entry.task? ≠ some name) :
    LastRun (journal ++ notes) name start stop where
  started := by rw [getElem?_append_left ran.start_lt_length, ran.started]
  finished := by rw [getElem?_append_left ran.stop_lt_length, ran.finished]
  ordered := ran.ordered
  last := by
    intro i entry found later other
    rw [getElem?_append] at found
    split at found
    · exact ran.last i entry found later other
    · exact others entry (mem_of_getElem? found)

theorem RanBefore.append (before : RanBefore journal first second)
    (notFirst : ∀ entry ∈ notes, entry.task? ≠ some first)
    (notSecond : ∀ entry ∈ notes, entry.task? ≠ some second) :
    RanBefore (journal ++ notes) first second := by
  obtain ⟨start, stop, start', stop', ran, ran', earlier⟩ := before
  exact ⟨start, stop, start', stop', ran.append notFirst, ran'.append notSecond, earlier⟩

/-- A task that finishes, with nothing noted about it since it was entered, has just run. -/
theorem lastRun_finished (others : ∀ entry ∈ notes, entry.task? ≠ some name) :
    LastRun (journal ++ .started name :: (notes ++ [.finished name])) name journal.length
      (journal.length + 1 + notes.length) where
  started := by simp
  finished := by simp [Nat.add_assoc, Nat.add_comm 1]
  ordered := by omega
  last := by
    intro i entry found later other
    obtain ⟨k, rfl⟩ : ∃ k, i = journal.length + (k + 1) := ⟨i - journal.length - 1, by omega⟩
    rw [getElem?_append_right (Nat.le_add_right _ _), Nat.add_sub_cancel_left,
      getElem?_cons_succ, getElem?_append] at found
    split at found
    · exact others entry (mem_of_getElem? found)
    · next beyond =>
      obtain ⟨inside, _⟩ := List.getElem?_eq_some_iff.mp found
      rw [length_singleton] at inside
      omega

/-- A task whose last run ended well has no failure noted after which nothing was noted about it. -/
theorem LastRun.not_failed (ran : LastRun (earlier ++ .failed name :: later) name start stop)
    (silent : ∀ entry ∈ later, entry.task? ≠ some name) : False := by
  have atFailure : (earlier ++ .failed name :: later)[earlier.length]? = some (.failed name) := by
    simp
  have failedFirst : ¬ earlier.length < stop := by
    intro beyond
    obtain ⟨k, rfl⟩ : ∃ k, stop = earlier.length + (k + 1) := ⟨stop - earlier.length - 1, by omega⟩
    have finished := ran.finished
    rw [getElem?_append_right (Nat.le_add_right _ _), Nat.add_sub_cancel_left,
      getElem?_cons_succ] at finished
    exact silent _ (mem_of_getElem? finished) rfl
  rcases Nat.lt_or_eq_of_le (Nat.le_of_not_lt failedFirst) with stopped | same
  · exact ran.last _ _ atFailure (Nat.lt_trans ran.ordered stopped) (by omega) rfl
  · have finished := ran.finished
    rw [same, atFailure] at finished
    cases finished

end ProgramAnalysis
