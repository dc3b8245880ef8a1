import ProgramAnalysis.Proofs.Schedule
import ProgramAnalysis.Proofs.Session.Journal
import ProgramAnalysis.Session.Run

/-!
When a session is up to date. A done task is stale if something it needs was made anew after it ran.
In a sound session none is (`Current`), registration is consistent, and every task in a slot is
contained (`Task.Contained`): its body leaves the schedule alone, or it drives a loop and neither
needs nor makes anything.
-/

namespace ProgramAnalysis

open Schedule List

/-! ### Bodies that leave the schedule alone -/

/-- Whether an action runs or resets tasks. -/
def Action.callsBack : Action → Bool
  | .run _ | .reset _ => true
  | .tolerate action => action.callsBack
  | .fail _ _ | .putDomain _ | .fill _ _ | .fillByRun _ _ | .work _ => false

/-- Whether a body runs or resets tasks. -/
def Body.callsBack : Body → Bool
  | .script actions _ => actions.any Action.callsBack
  | .refinement _ => true
  | .domain _ | .relation _ _ | .contexts _ | .datalog _ _ | .escape _ => false

/-- A task whose body leaves the schedule alone, or one that drives a refinement loop. -/
inductive Task.Contained : Task → Prop where
  | quiet {task : Task} : task.body.callsBack = false → task.Contained
  | driver (loop : Refinement) : (Task.ofRefinement loop).Contained

namespace Schedule

variable {τ : Type}

/-- The slot at an index is empty: its task is running. -/
def Vacant (schedule : Schedule τ) (i : Nat) : Prop :=
  ∃ slot, schedule.slots[i]? = some slot ∧ slot.task = none

variable {schedule : Schedule τ}

theorem Vacant.lt_length (vacant : schedule.Vacant i) : i < schedule.declarations.length := by
  obtain ⟨slot, found, _⟩ := vacant
  rw [length_declarations]
  exact (List.getElem?_eq_some_iff.mp found).1

theorem vacant_put_none (registered : i < schedule.declarations.length) :
    (schedule.put i none).Vacant i := by
  rw [length_declarations] at registered
  refine ⟨{ schedule.slots[i] with task := none }, ?_, rfl⟩
  rw [put, List.getElem?_modify, getElem?_eq_getElem registered]
  simp

variable {task : Option τ}

theorem Vacant.put (vacant : schedule.Vacant j) (other : i ≠ j) :
    (schedule.put i task).Vacant j := by
  obtain ⟨slot, found, empty⟩ := vacant
  refine ⟨slot, ?_, empty⟩
  rw [Schedule.put, List.getElem?_modify, found]
  simp [other]

/-- A slot after a task was put somewhere is an old one, or the one at that place. -/
theorem mem_slots_put (mem : slot ∈ (schedule.put i task).slots) : slot ∈ schedule.slots ∨
      ∃ old, schedule.slots[i]? = some old ∧ slot = { old with task := task } := by
  obtain ⟨j, found⟩ := mem_iff_getElem?.mp mem
  rw [put, List.getElem?_modify] at found
  obtain ⟨old, atIndex, changed⟩ := Option.map_eq_some_iff.mp found
  split at changed
  · next same =>
    subst same
    exact .inr ⟨old, atIndex, changed.symm⟩
  · subst changed
    exact .inl (mem_of_getElem? atIndex)

end Schedule

namespace Session

/-! ### Current and sound sessions -/

/-- No done task is stale. -/
def Current (session : Session) : Prop :=
  ∀ i ∈ session.schedule.done, ∀ artifact, session.schedule.Needs i artifact →
    ∃ p, session.schedule.producer? artifact = some p ∧ p ∈ session.schedule.done ∧
      RanBefore session.journal (session.schedule.nameAt p) (session.schedule.nameAt i)

/-- Every task in a slot is the one declared there, and contained. -/
def AllContained (schedule : Schedule Task) : Prop :=
  ∀ slot ∈ schedule.slots, ∀ task, slot.task = some task →
    task.toDeclaration = slot.toDeclaration ∧ task.Contained

/-- What every request to a session of contained tasks keeps. -/
structure Sound (session : Session) : Prop where
  consistent : session.schedule.Consistent
  contained : AllContained session.schedule
  registered : ∀ i ∈ session.schedule.done, i < session.schedule.declarations.length
  completed : ∀ i ∈ session.schedule.done,
    ∃ start stop, LastRun session.journal (session.schedule.nameAt i) start stop
  current : session.Current

theorem Sound.ranBefore {session : Session} (sound : session.Sound)
    (isDone : i ∈ session.schedule.done) (edge : i ∈ session.schedule.graph.after p) :
    p ∈ session.schedule.done ∧
      RanBefore session.journal (session.schedule.nameAt p) (session.schedule.nameAt i) := by
  obtain ⟨artifact, makes, needs⟩ := (sound.consistent.edges p i).mp edge
  obtain ⟨maker, found, makerDone, before⟩ := sound.current i isDone artifact needs
  obtain rfl : maker = p :=
    sound.consistent.makers maker p artifact (makes_of_producer? found) makes
  exact ⟨makerDone, before⟩

/-- Tasks may stop being done, if those that need what they make do as well, and notes may be
made about tasks that are not done afterwards. -/
theorem Sound.of_closed {before after : Session} (sound : before.Sound)
    (declared : after.schedule.declarations = before.schedule.declarations)
    (graph : after.schedule.graph = before.schedule.graph)
    (contained : AllContained after.schedule)
    (fewer : ∀ i ∈ after.schedule.done, i ∈ before.schedule.done)
    (closed : ∀ i ∈ after.schedule.done, ∀ p, i ∈ before.schedule.graph.after p →
      p ∈ before.schedule.done → p ∈ after.schedule.done)
    (noted : after.journal = before.journal ++ notes)
    (others : ∀ i ∈ after.schedule.done, ∀ entry ∈ notes,
      entry.task? ≠ some (before.schedule.nameAt i)) : after.Sound where
  consistent := sound.consistent.congr declared graph
  contained := contained
  registered i isDone := by
    rw [declared]
    exact sound.registered i (fewer i isDone)
  completed i isDone := by
    obtain ⟨start, stop, ran⟩ := sound.completed i (fewer i isDone)
    rw [nameAt_congr declared, noted]
    exact ⟨start, stop, ran.append (others i isDone)⟩
  current i isDone artifact needs := by
    rw [needs_congr declared] at needs
    obtain ⟨p, found, makerDone, ranBefore⟩ := sound.current i (fewer i isDone) artifact needs
    have edge : i ∈ before.schedule.graph.after p :=
      (sound.consistent.edges p i).mpr ⟨artifact, makes_of_producer? found, needs⟩
    have stillDone := closed i isDone p edge makerDone
    refine ⟨p, by rwa [producer?_congr declared], stillDone, ?_⟩
    rw [nameAt_congr declared, nameAt_congr declared, noted]
    exact ranBefore.append (others p stillDone) (others i isDone)

theorem sound_of_empty {session : Session} (empty : session.schedule = .empty) : session.Sound where
  consistent := by
    rw [empty]
    exact consistent_empty
  contained := by
    rw [empty]
    intro slot mem
    cases mem
  registered := by
    rw [empty]
    intro i isDone
    cases isDone
  completed := by
    rw [empty]
    intro i isDone
    cases isDone
  current := by
    unfold Current
    rw [empty]
    intro i isDone
    cases isDone

/-! ### Taking a task out of its slot and putting it back -/

theorem AllContained.put_none {schedule : Schedule Task} (contained : AllContained schedule)
    (i : Nat) : AllContained (schedule.put i none) := by
  intro slot mem task full
  rcases mem_slots_put mem with old | ⟨old, _, rfl⟩
  · exact contained slot old task full
  · cases full

theorem AllContained.restore {schedule : Schedule Task} (contained : AllContained schedule)
    {task : Task} (declared : schedule.declarations[i]? = some task.toDeclaration)
    (safe : task.Contained) : AllContained (schedule.restore i task) := by
  intro slot mem other full
  rcases mem_slots_put mem with old | ⟨old, atIndex, rfl⟩
  · exact contained slot old other full
  · cases full
    rw [getElem?_declarations, atIndex] at declared
    exact ⟨(Option.some.inj declared).symm, safe⟩

section Running

variable {session : Session} (sound : session.Sound) {i : Nat}
  (registered : i < session.schedule.declarations.length)
  (undone : i ∉ session.schedule.done)
include sound registered undone

variable {entry : JournalEntry}

theorem other_name (about : entry.task? = some (session.schedule.nameAt i)) :
    ∀ j ∈ session.schedule.done, entry.task? ≠ some (session.schedule.nameAt j) := by
  intro j isDone same
  rw [about, Option.some.injEq] at same
  have one := sound.consistent.nameAt_injective registered (sound.registered j isDone) same
  exact undone (one ▸ isDone)

/-- A task that is not done may be taken out of its slot, or put back, and a note made about it. -/
theorem Sound.put (contained : AllContained (session.schedule.put i task))
    (about : entry.task? = some (session.schedule.nameAt i)) :
    Session.Sound { session with
      schedule := session.schedule.put i task
      journal := session.journal ++ [entry] } := by
  refine sound.of_closed (declarations_put _ _ _) rfl contained (fun _ isDone => isDone)
    (fun _ _ _ _ makerDone => makerDone) rfl ?_
  intro j isDone note mem
  obtain rfl := mem_singleton.mp mem
  exact other_name sound registered undone about j isDone

/-- A task may be marked as done when it has just run, if everything it needs had been made. -/
theorem Sound.finish (contained : AllContained (session.schedule.restore i task))
    (ran : LastRun (session.journal ++ [.finished (session.schedule.nameAt i)])
      (session.schedule.nameAt i) start stop)
    (met : ∀ artifact, session.schedule.Needs i artifact → ∃ p,
      session.schedule.producer? artifact = some p ∧ p ∈ session.schedule.done ∧
        ∃ start' stop', LastRun session.journal (session.schedule.nameAt p) start' stop' ∧
          stop' < start) :
    Session.Sound { session with
      schedule := (session.schedule.restore i task).markDone i
      journal := session.journal ++ [.finished (session.schedule.nameAt i)] } := by
  have about : (JournalEntry.finished (session.schedule.nameAt i)).task? =
      some (session.schedule.nameAt i) := rfl
  have restored := sound.put registered undone contained about
  have declared : (session.schedule.restore i task).declarations = session.schedule.declarations :=
    declarations_put _ _ _
  have marked : ∀ j, j ∈ ((session.schedule.restore i task).markDone i).done ↔
      j = i ∨ j ∈ session.schedule.done := fun j => SortedSet.mem_insert
  refine ⟨restored.consistent.congr rfl rfl, contained, ?_, ?_, ?_⟩
  · intro j isDone
    rcases (marked j).mp isDone with rfl | old
    · exact Nat.lt_of_lt_of_eq registered (congrArg List.length declared).symm
    · exact restored.registered j old
  · intro j isDone
    rcases (marked j).mp isDone with rfl | old
    · exact ⟨start, stop, (nameAt_congr declared j).symm ▸ ran⟩
    · exact restored.completed j old
  · intro j isDone artifact needs
    rcases (marked j).mp isDone with rfl | old
    · obtain ⟨p, found, makerDone, start', stop', ran', earlier⟩ :=
        met artifact ((needs_congr declared).mp needs)
      refine ⟨p, (producer?_congr declared artifact).trans found,
        (marked p).mpr (.inr makerDone), start', stop', start, stop, ?_, ?_, earlier⟩
      · refine (nameAt_congr declared p).symm ▸ ran'.append ?_
        intro entry mem
        obtain rfl := mem_singleton.mp mem
        exact other_name sound registered undone about p makerDone
      · exact (nameAt_congr declared j).symm ▸ ran
    · obtain ⟨p, found, makerDone, before⟩ := restored.current j old artifact needs
      exact ⟨p, found, (marked p).mpr (.inr makerDone), before⟩

end Running

end Session

end ProgramAnalysis
