import Mathlib.Data.List.Nodup
import ProgramAnalysis.Proofs.Session.Recursion

/-!
Which bodies a run executes. Those of the missing tasks: what was asked for, and what is needed by
missing tasks and not done (`Missing`). They are executed one after the other, each when all that it
needs is done (`Executions`), until none is missing or something is in the way (`Obstacle`). Bodies
that leave the schedule alone are required throughout.
-/

namespace ProgramAnalysis.Session

open List Schedule Step

variable {session before after : Session} {order : List Nat} {i j p root : Nat}

/-! ### What has to run -/

/-- Tasks that are not under way have bodies that leave the schedule alone. -/
def Quiescent (session : Session) : Prop :=
  ∀ slot ∈ session.schedule.slots, ∀ task, slot.task = some task → task.body.callsBack = false

instance (session : Session) : Decidable session.Quiescent :=
  inferInstanceAs (Decidable (∀ slot ∈ session.schedule.slots, ∀ task ∈ slot.task,
    task.body.callsBack = false))

/-- One task makes something that another needs. -/
def Supplies (session : Session) (p i : Nat) : Prop :=
  ∃ artifact, session.schedule.Needs i artifact ∧ session.schedule.producer? artifact = some p

/-- What has to run when a task is asked for: the task, and whatever supplies a task that has to
run, unless it is done. -/
inductive Missing (session : Session) (root : Nat) : Nat → Prop where
  | asked : root ∉ session.schedule.done → session.Missing root root
  | supplier {i p : Nat} : session.Missing root i → session.Supplies p i →
    p ∉ session.schedule.done → session.Missing root p

theorem Supplies.congr (supplies : before.Supplies p i)
    (declared : after.schedule.declarations = before.schedule.declarations) :
    after.Supplies p i := by
  obtain ⟨artifact, needs, found⟩ := supplies
  exact ⟨artifact, (needs_congr declared).mpr needs,
    (producer?_congr declared artifact).trans found⟩

theorem Supplies.edge (supplies : session.Supplies p i) (consistent : session.schedule.Consistent) :
    i ∈ session.schedule.graph.after p := by
  obtain ⟨artifact, needs, found⟩ := supplies
  exact (consistent.edges p i).mpr ⟨artifact, makes_of_producer? found, needs⟩

theorem Missing.depends (missing : session.Missing root i) :
    Relation.ReflTransGen session.Supplies i root := by
  induction missing with
  | asked => exact .refl
  | supplier _ supplies _ ih => exact .head supplies ih

theorem upstream_of_depends (consistent : session.schedule.Consistent)
    (depends : Relation.ReflTransGen session.Supplies i root) : session.Upstream i root := by
  induction depends with
  | refl => exact .refl session i
  | tail _ supplies ih => exact .step ih (supplies.edge consistent)

theorem Missing.earlier (missing : after.Missing p i) (consumer : before.Missing root j)
    (supplies : before.Supplies p j)
    (declared : after.schedule.declarations = before.schedule.declarations)
    (kept : ∀ k ∈ before.schedule.done, k ∈ after.schedule.done) : before.Missing root i := by
  induction missing with
  | asked undone => exact .supplier consumer supplies fun isDone => undone (kept _ isDone)
  | supplier _ supplies undone ih =>
    exact .supplier ih (supplies.congr declared.symm) fun isDone => undone (kept _ isDone)

/-! ### Executions -/

/-- The body of a task that was not done was run to success, when all it needs had been made. -/
structure Execution (i : Nat) (before after : Session) : Prop where
  undone : i ∉ before.schedule.done
  met : ∀ artifact, before.schedule.Needs i artifact → before.Made artifact before
  performed : ∃ slot task body left, before.schedule.slots[i]? = some slot ∧
    slot.task = some task ∧ task.body.callsBack = false ∧
    perform run (task.body, before.enter i) = .ok () (body, left) ∧ after = left.leave i task body

/-- Tasks were executed one after the other. -/
inductive Executions : List Nat → Session → Session → Prop where
  | nil (session : Session) : Executions [] session session
  | cons {i : Nat} {order : List Nat} {first second third : Session} : Execution i first second →
    Executions order second third → Executions (i :: order) first third

/-- What keeps a task from being executed in the end. -/
inductive Obstacle (i : Nat) (before : Session) : Session → Prop where
  | unmade {artifact : String} : before.schedule.Needs i artifact →
    before.schedule.producer? artifact = none → Obstacle i before before
  | underway : before.schedule.Vacant i → Obstacle i before before
  | broke {slot : Slot Task} {task : Task} {body : Body} {left : Session} {fault : Fault} :
    before.schedule.slots[i]? = some slot → slot.task = some task → task.body.callsBack = false →
    perform run (task.body, before.enter i) = .error fault (body, left) →
    Obstacle i before (left.abandon i task body)

/-- What is noted about tasks. -/
def taskNotes (session : Session) : List JournalEntry := session.journal.filter (·.task?.isSome)

/-- The notes on bodies that were executed one after the other and all ended in one way. -/
def notesOn (session : Session) (ending : String → JournalEntry) (order : List Nat) :
    List JournalEntry :=
  order.flatMap fun i => [.started (session.schedule.nameAt i), ending (session.schedule.nameAt i)]

theorem notesOn_congr (declared : after.schedule.declarations = before.schedule.declarations)
    (ending : String → JournalEntry) (order : List Nat) :
    after.notesOn ending order = before.notesOn ending order := by
  simp only [notesOn, nameAt_congr declared]

/-- A task that is put back into its slot may have another body that leaves the schedule alone. -/
theorem Quiescent.restore (quiescent : session.Quiescent) (i : Nat) {task : Task}
    {schedule : Schedule Task} (quiet : task.body.callsBack = false)
    (slots : schedule.slots = ((session.schedule.put i none).restore i task).slots) :
    ∀ slot ∈ schedule.slots, ∀ task, slot.task = some task → task.body.callsBack = false := by
  intro slot mem other held
  rw [slots] at mem
  rcases mem_slots_put mem with inside | ⟨_, _, rfl⟩
  · rcases mem_slots_put inside with old | ⟨_, _, rfl⟩
    · exact quiescent slot old other held
    · cases held
  · cases held
    exact quiet

theorem Quiet.taskNotes (quiet : before.Quiet after) : after.taskNotes = before.taskNotes := by
  obtain ⟨_, notes, noted, silent⟩ := quiet
  have none : notes.filter (·.task?.isSome) = [] :=
    filter_eq_nil_iff.mpr fun entry mem => by rw [silent entry mem]; decide
  rw [Session.taskNotes, noted, filter_append, none, append_nil, Session.taskNotes]

namespace Execution

theorem mem_done (execution : Execution i before after) :
    j ∈ after.schedule.done ↔ j = i ∨ j ∈ before.schedule.done := by
  obtain ⟨slot, task, body, left, _, _, quiet, performed, rfl⟩ := execution.performed
  rw [Turn.schedule_leave quiet performed]
  exact SortedSet.mem_insert

theorem alike (execution : Execution i before after) : before.Alike after := by
  obtain ⟨slot, task, body, left, atIndex, held, quiet, performed, rfl⟩ := execution.performed
  refine (Left.finished atIndex held performed ?_).alike
  exact (lasting_alike _).quiet (.refl _) ((perform_quiet quiet _).of_ok performed).2

theorem quiescent (execution : Execution i before after) (quiescent : before.Quiescent) :
    after.Quiescent := by
  obtain ⟨slot, task, body, left, _, _, quiet, performed, rfl⟩ := execution.performed
  have still : ({ task with body } : Task).body.callsBack = false :=
    ((perform_quiet quiet _).of_ok performed).1
  refine quiescent.restore i still ?_
  rw [Turn.schedule_leave quiet performed]
  rfl

theorem registered (execution : Execution i before after) :
    i < before.schedule.declarations.length := by
  obtain ⟨slot, _, _, _, atIndex, _⟩ := execution.performed
  rw [length_declarations]
  exact (List.getElem?_eq_some_iff.mp atIndex).1

theorem taskNotes (execution : Execution i before after) (intact : before.Intact) :
    after.taskNotes = before.taskNotes ++ before.notesOn .finished [i] := by
  obtain ⟨slot, task, body, left, atIndex, held, quiet, performed, rfl⟩ := execution.performed
  have silent := ((perform_quiet quiet _).of_ok performed).2.taskNotes
  unfold Session.taskNotes enter at silent
  rw [Session.taskNotes, leave, filter_append, silent, filter_append, append_assoc,
    intact.nameAt atIndex held, notesOn, flatMap_singleton, intact.nameAt atIndex held]
  rfl

end Execution

namespace Executions

theorem append (executions : Executions order first second)
    (further : Executions order' second third) : Executions (order ++ order') first third := by
  induction executions with
  | nil => exact further
  | cons execution _ ih => exact .cons execution (ih further)

theorem alike (executions : Executions order before after) : before.Alike after := by
  induction executions with
  | nil => exact .refl _
  | cons execution _ ih => exact execution.alike.trans ih

theorem quiescent (executions : Executions order before after) (quiescent : before.Quiescent) :
    after.Quiescent := by
  induction executions with
  | nil => exact quiescent
  | cons execution _ ih => exact ih (execution.quiescent quiescent)

theorem mem_done (executions : Executions order before after) :
    j ∈ after.schedule.done ↔ j ∈ before.schedule.done ∨ j ∈ order := by
  induction executions with
  | nil => simp
  | cons execution _ ih =>
    rw [ih, execution.mem_done, mem_cons]
    tauto

/-- Nothing is executed that was done, so nothing is executed twice. -/
theorem nodup (executions : Executions order before after) :
    order.Nodup ∧ ∀ i ∈ order, i ∉ before.schedule.done := by
  induction executions with
  | nil => exact ⟨.nil, nofun⟩
  | cons execution _ ih =>
    obtain ⟨distinct, fresh⟩ := ih
    refine ⟨nodup_cons.mpr ⟨fun again => ?_, distinct⟩, fun k mem isDone => ?_⟩
    · exact fresh _ again (execution.mem_done.mpr (.inl rfl))
    · rcases mem_cons.mp mem with rfl | later
      · exact execution.undone isDone
      · exact fresh k later (execution.mem_done.mpr (.inr isDone))

/-- What an executed task needs was made by a task that was done, or that was executed earlier. -/
theorem met (executions : Executions order before after) (split : order = earlier ++ i :: later)
    (needs : before.schedule.Needs i artifact) :
    ∃ p, before.schedule.producer? artifact = some p ∧
      (p ∈ before.schedule.done ∨ p ∈ earlier) := by
  induction executions generalizing earlier with
  | nil => simp at split
  | cons execution _ ih =>
    cases earlier with
    | nil =>
      cases split
      obtain ⟨p, found, isDone⟩ := execution.met artifact needs
      exact ⟨p, found, .inl isDone⟩
    | cons first earlier =>
      cases split
      have declared := execution.alike.declared
      obtain ⟨p, found, known⟩ := ih rfl ((needs_congr declared).mpr needs)
      refine ⟨p, (producer?_congr declared artifact).symm.trans found, ?_⟩
      rw [execution.mem_done] at known
      rw [mem_cons]
      tauto

theorem taskNotes (executions : Executions order before after) (intact : before.Intact) :
    after.taskNotes = before.taskNotes ++ before.notesOn .finished order := by
  induction executions with
  | nil => exact (append_nil _).symm
  | cons execution _ ih =>
    rw [ih (intact.congr execution.alike), execution.taskNotes intact,
      notesOn_congr execution.alike.declared, append_assoc]
    rfl

theorem idxOf_lt (executions : Executions order before after) (supplies : before.Supplies p i)
    (among : p ∈ order) (among' : i ∈ order) : order.idxOf p < order.idxOf i := by
  obtain ⟨artifact, needs, found⟩ := supplies
  obtain ⟨distinct, fresh⟩ := executions.nodup
  obtain ⟨earlier, later, rfl⟩ := append_of_mem among'
  obtain ⟨q, found', known⟩ := executions.met rfl needs
  obtain rfl := Option.some.inj (found.symm.trans found')
  have first : p ∈ earlier := known.resolve_left (fresh p among)
  have last : i ∉ earlier := fun again =>
    disjoint_of_nodup_append distinct again mem_cons_self
  rw [idxOf_append_of_mem first, idxOf_append_of_notMem last, idxOf_cons_self]
  exact idxOf_lt_length_of_mem first

/-- Executed tasks come after those that supply them directly or through other executed tasks. -/
theorem idxOf_lt_of_transGen (executions : Executions order before after)
    (chain : Relation.TransGen (fun p i => p ∈ order ∧ i ∈ order ∧ before.Supplies p i) p i) :
    order.idxOf p < order.idxOf i := by
  induction chain with
  | single link => exact executions.idxOf_lt link.2.2 link.1 link.2.1
  | tail _ link ih =>
    exact ih.trans (executions.idxOf_lt link.2.2 link.1 link.2.1)

/-- Once a task is done, everything that was missing for it has been executed. -/
theorem mem_of_missing (executions : Executions order before after)
    (isDone : root ∈ after.schedule.done) (missing : before.Missing root i) : i ∈ order := by
  induction missing with
  | asked undone => exact (executions.mem_done.mp isDone).resolve_left undone
  | supplier _ supplies undone ih =>
    obtain ⟨artifact, needs, found⟩ := supplies
    obtain ⟨earlier, later, rfl⟩ := append_of_mem ih
    obtain ⟨q, found', known⟩ := executions.met rfl needs
    obtain rfl := Option.some.inj (found.symm.trans found')
    exact mem_append_left _ (known.resolve_left undone)

end Executions

/-! ### Runs -/

/-- Missing tasks were executed. -/
def Progress (root : Nat) (before after : Session) (order : List Nat) : Prop :=
  Executions order before after ∧ ∀ i ∈ order, before.Missing root i

/-- Missing tasks were executed, and the task that was asked for is done. -/
def Fulfilled (root : Nat) (before after : Session) : Prop :=
  ∃ order, Progress root before after order ∧ root ∈ after.schedule.done

/-- Missing tasks were executed, up to one at which there was an obstacle. -/
def Stopped (root : Nat) (before after : Session) : Prop :=
  ∃ order between i, Progress root before between order ∧ before.Missing root i ∧
    i ∉ between.schedule.done ∧ Obstacle i between after

/-- Missing tasks were executed, but not the one that was asked for. -/
def Prepared (root : Nat) (before after : Session) : Prop :=
  ∃ order, Progress root before after order ∧ root ∉ order

theorem Progress.refl (root : Nat) (session : Session) : Progress root session session [] :=
  ⟨.nil session, nofun⟩

theorem Progress.missing_concat (progress : Progress root before after order)
    (missing : before.Missing root i) : ∀ k ∈ order ++ [i], before.Missing root k := by
  intro k mem
  rcases mem_append.mp mem with first | last
  · exact progress.2 k first
  · rwa [mem_singleton.mp last]

theorem Progress.nodup_concat (progress : Progress root before after order)
    (undone : i ∉ after.schedule.done) : (order ++ [i]).Nodup := by
  refine nodup_append_comm.mp (nodup_cons.mpr ⟨fun again => ?_, progress.1.nodup.1⟩)
  exact undone (progress.1.mem_done.mpr (.inr again))

/-- When a run succeeds, everything that a missing task needs has a maker. -/
theorem Fulfilled.producer (fulfilled : Fulfilled root before after)
    (missing : before.Missing root i) (needs : before.schedule.Needs i artifact) :
    ∃ p, before.schedule.producer? artifact = some p := by
  obtain ⟨order, progress, isDone⟩ := fulfilled
  obtain ⟨earlier, later, split⟩ := append_of_mem (progress.1.mem_of_missing isDone missing)
  obtain ⟨p, found, _⟩ := progress.1.met split needs
  exact ⟨p, found⟩

theorem ends_runBody_quiescent (intact : session.Intact) (quiescent : session.Quiescent)
    (registered : i < session.schedule.declarations.length) (undone : i ∉ session.schedule.done)
    (met : ∀ artifact, session.schedule.Needs i artifact → session.Made artifact session) :
    (runBody run i).Ends session (fun _ => Execution i session) (Obstacle i session) := by
  unfold Ends
  rcases vacant_or_full registered with vacant | ⟨slot, task, atIndex, held⟩
  · rw [runBody_of_vacant run vacant]
    exact .underway vacant
  · have quiet := quiescent slot (mem_of_getElem? atIndex) task held
    rw [runBody_of_full run intact atIndex held]
    cases performed : perform run (task.body, session.enter i) with
    | ok _ end_ => exact ⟨undone, met, slot, task, _, _, atIndex, held, quiet, performed, rfl⟩
    | error fault end_ => exact .broke atIndex held quiet performed

section Preparing

variable {between : Session} (undone : root ∉ session.schedule.done)
  (prepared : Prepared root session between)
include undone prepared

theorem Prepared.notDone : root ∉ between.schedule.done := by
  obtain ⟨order, progress, absent⟩ := prepared
  exact fun isDone => (progress.1.mem_done.mp isDone).elim undone absent

theorem Prepared.missing (supplies : session.Supplies p root) (missing : between.Missing p i) :
    session.Missing root i := by
  obtain ⟨order, progress, _⟩ := prepared
  exact missing.earlier (.asked undone) supplies progress.1.alike.declared
    fun k isDone => progress.1.mem_done.mpr (.inl isDone)

theorem Prepared.fulfilled (consistent : session.schedule.Consistent)
    (supplies : session.Supplies p root) (fulfilled : Fulfilled p between after) :
    Prepared root session after ∧ p ∈ after.schedule.done ∧
      ∀ k ∈ between.schedule.done, k ∈ after.schedule.done := by
  obtain ⟨order', further, isDone⟩ := fulfilled
  have missing := fun i mem => prepared.missing undone supplies (further.2 i mem)
  obtain ⟨order, progress, absent⟩ := prepared
  refine ⟨⟨order ++ order', ⟨progress.1.append further.1, fun i mem => ?_⟩, fun again => ?_⟩,
    isDone, fun k known => further.1.mem_done.mpr (.inl known)⟩
  · exact (mem_append.mp mem).elim (progress.2 i) (missing i)
  · -- a task that is missing for its own supplier would be on a cycle
    rcases mem_append.mp again with first | second
    · exact absent first
    · have alike := progress.1.alike
      have upstream := upstream_of_depends (consistent.congr alike.declared alike.graph)
        (further.2 root second).depends
      rw [Upstream, alike.graph] at upstream
      exact Graph.not_reachable_of_edge consistent.acyclic (supplies.edge consistent) upstream

theorem Prepared.stopped (supplies : session.Supplies p root) (stopped : Stopped p between after) :
    Stopped root session after := by
  obtain ⟨order', stop, i, further, missing, notDone, obstacle⟩ := stopped
  have missing' (k : Nat) := prepared.missing undone supplies (i := k)
  obtain ⟨order, progress, _⟩ := prepared
  refine ⟨order ++ order', stop, i, ⟨progress.1.append further.1, fun k mem => ?_⟩,
    missing' i missing, notDone, obstacle⟩
  exact (mem_append.mp mem).elim (progress.2 k) fun later => missing' k (further.2 k later)

theorem Prepared.make (intact : session.Intact) (needs : session.schedule.Needs root artifact)
    (runs : ∀ p producer, session.Supplies p root → between.schedule.find? producer = some p →
      (run producer).Ends between (fun _ => Fulfilled p between) (Stopped p between)) :
    (query (·.producerOf artifact name) >>= run).Ends between
      (fun _ after => Prepared root session after ∧ session.Made artifact after ∧
        ∀ other, session.Made other between → session.Made other after) (Stopped root session) := by
  obtain ⟨order, progress, _⟩ := id prepared
  have declared := progress.1.alike.declared
  have needs' := (needs_congr declared).mpr needs
  refine Ends.bind (ends_query (fun producer answered => ?_) fun fault answered => ?_)
  · obtain ⟨p, found, _, named⟩ :=
      producerOf_eq_ok (intact.congr progress.1.alike).consistent needs' answered
    rw [producer?_congr declared] at found
    have supplies : session.Supplies p root := ⟨artifact, needs, found⟩
    refine (runs p producer supplies named).mono (fun _ after fulfilled => ?_)
      fun _ => prepared.stopped undone supplies
    obtain ⟨prepared', isDone, kept⟩ :=
      prepared.fulfilled undone intact.consistent supplies fulfilled
    refine ⟨prepared', ⟨p, found, isDone⟩, ?_⟩
    rintro other ⟨q, found', known⟩
    exact ⟨q, found', kept q known⟩
  · have unmade : between.schedule.producer? artifact = none := by
      unfold producerOf at answered
      split at answered
      · cases answered
      · next none => exact none
    exact ⟨order, between, root, progress, .asked undone, prepared.notDone undone,
      .unmade needs' unmade⟩

theorem Prepared.launch (intact : session.Intact) (quiescent : session.Quiescent)
    (registered : root < session.schedule.declarations.length)
    (met : ∀ artifact, between.schedule.Needs root artifact → between.Made artifact between) :
    (runBody run root).Ends between (fun _ => Fulfilled root session) (Stopped root session) := by
  have notDone := prepared.notDone undone
  obtain ⟨order, progress, _⟩ := prepared
  have alike := progress.1.alike
  have declared := alike.declared
  refine (ends_runBody_quiescent (intact.congr alike) (progress.1.quiescent quiescent)
    (by rwa [declared]) notDone met).mono (fun _ after execution => ?_) fun after obstacle => ?_
  · exact ⟨order ++ [root], ⟨progress.1.append (.cons execution (.nil after)),
      progress.missing_concat (.asked undone)⟩, execution.mem_done.mpr (.inl rfl)⟩
  · exact ⟨order, between, root, progress, .asked undone, notDone, obstacle⟩

end Preparing

/-- A run executes missing tasks until the one that was asked for is done, or stops at an
obstacle. -/
theorem ends_run_missing (intact : session.Intact) (name : String) :
    session.Quiescent → ∀ root, session.schedule.find? name = some root →
      (run name).Ends session (fun _ => Fulfilled root session) (Stopped root session) := by
  refine run_induction (fun name session intact ofNeeds _ quiescent root found => ?_) intact name
  unfold Ends
  rw [run_eq_runVia intact name]
  refine ends_runOnce (Prepared root session) found (fun isDone => ⟨[], .refl root session, isDone⟩)
    ⟨[], .refl root session, not_mem_nil⟩ ?_
    (fun undone artifact between needs prepared => ?_) fun undone between prepared met =>
      prepared.launch undone intact quiescent (lt_of_find? found) met
  · rintro between ⟨order, progress, _⟩
    exact progress.1.alike.declared
  · refine prepared.make undone intact needs fun p producer supplies named => ?_
    obtain ⟨order, progress, _⟩ := prepared
    have alike := progress.1.alike
    exact ofNeeds root p producer between found (supplies.edge intact.consistent)
      ((alike.find? producer).symm.trans named) alike (progress.1.quiescent quiescent) p named

/-! ### What was executed -/

/-- Of the tasks in a list, those that supply others, directly or through tasks in the list, come
before these. -/
def SuppliedFirst (session : Session) (order : List Nat) : Prop :=
  ∀ p i, Relation.TransGen (fun p i => p ∈ order ∧ i ∈ order ∧ session.Supplies p i) p i →
    order.idxOf p < order.idxOf i

/-- An obstacle is a body that failed, or there is no body that could be executed. Either way
nothing becomes done. -/
theorem Obstacle.noted (obstacle : Obstacle i before after) (intact : before.Intact) :
    after.schedule.done = before.schedule.done ∧
      (after.taskNotes = before.taskNotes ++ before.notesOn .failed [i] ∨
        after.taskNotes = before.taskNotes ∧ (before.schedule.Vacant i ∨
          ∃ artifact, before.schedule.Needs i artifact ∧
            before.schedule.producer? artifact = none)) := by
  cases obstacle with
  | unmade needs unmade => exact ⟨rfl, .inr ⟨rfl, .inr ⟨_, needs, unmade⟩⟩⟩
  | underway vacant => exact ⟨rfl, .inr ⟨rfl, .inl vacant⟩⟩
  | @broke slot task body left fault atIndex held quiet performed =>
    have silent := ((perform_quiet quiet _).of_error performed).2
    refine ⟨?_, .inl ?_⟩
    · show left.schedule.done = _
      rw [silent.schedule]
      rfl
    · have noted := silent.taskNotes
      unfold taskNotes enter at noted
      rw [taskNotes, abandon, filter_append, noted, filter_append, append_assoc,
        intact.nameAt atIndex held, notesOn, flatMap_singleton, intact.nameAt atIndex held]
      rfl

/-- A task is asked for in a session where bodies leave the schedule alone, whatever is done. If the
run succeeds, the bodies executed are those of the missing tasks, each once, and each after the
executed tasks that supply it directly or through other executed tasks; and these tasks become done.
If it fails, the tasks that become done are those whose bodies succeeded; after them at most one
body was executed, which failed; and if none failed, then a missing task is under way or needs
something that no task makes. Such a need of a missing task always makes the run fail. -/
theorem run_executes_missing {session : Session} {root : Nat} (reached : session.Reached)
    (quiescent : session.Quiescent) (done : SortedSet Nat) {name : String}
    (found : session.schedule.find? name = some root) :
    let start : Session := { session with schedule := { session.schedule with done } }
    (∀ after, run name start = .ok () after → ∃ order : List Nat,
      after.taskNotes = start.taskNotes ++ session.notesOn .finished order ∧ order.Nodup ∧
      (∀ i, i ∈ order ↔ start.Missing root i) ∧ session.SuppliedFirst order ∧
      ∀ i, i ∈ after.schedule.done ↔ i ∈ done ∨ i ∈ order) ∧
    (∀ fault after, run name start = .error fault after → ∃ order failed : List Nat,
      after.taskNotes =
        start.taskNotes ++ session.notesOn .finished order ++ session.notesOn .failed failed ∧
      failed.length ≤ 1 ∧ (order ++ failed).Nodup ∧
      (∀ i ∈ order ++ failed, start.Missing root i) ∧ session.SuppliedFirst order ∧
      (∀ i, i ∈ after.schedule.done ↔ i ∈ done ∨ i ∈ order) ∧
      (failed = [] → ∃ i, start.Missing root i ∧ (session.schedule.Vacant i ∨
        ∃ artifact, session.schedule.Needs i artifact ∧
          session.schedule.producer? artifact = none))) ∧
    ∀ i artifact, start.Missing root i → session.schedule.Needs i artifact →
      session.schedule.producer? artifact = none →
      ∃ fault after, run name start = .error fault after := by
  intro start
  have intact : start.Intact := reached.intact.congr ⟨rfl, rfl⟩
  have ends := ends_run_missing intact name quiescent root found
  refine ⟨fun after running => ?_, fun fault after running => ?_,
    fun i artifact missing needs unmade => ?_⟩
  · obtain ⟨order, progress, isDone⟩ := ends.of_ok running
    exact ⟨order, progress.1.taskNotes intact, progress.1.nodup.1,
      fun i => ⟨progress.2 i, progress.1.mem_of_missing isDone⟩,
      fun _ _ => progress.1.idxOf_lt_of_transGen, fun _ => progress.1.mem_done⟩
  · obtain ⟨order, between, i, progress, missing, undone, obstacle⟩ := ends.of_error running
    have alike := progress.1.alike
    obtain ⟨sameDone, noted⟩ := obstacle.noted (intact.congr alike)
    have executed := progress.1.taskNotes intact
    have marked (k : Nat) : k ∈ after.schedule.done ↔ k ∈ done ∨ k ∈ order := by
      rw [sameDone]
      exact progress.1.mem_done
    have ordered : session.SuppliedFirst order := fun _ _ => progress.1.idxOf_lt_of_transGen
    rcases noted with failed | ⟨silent, cause⟩
    · refine ⟨order, [i], ?_, Nat.le_refl 1, progress.nodup_concat undone,
        progress.missing_concat missing, ordered, marked, by simp⟩
      rw [failed, executed, notesOn_congr alike.declared]
      rfl
    · refine ⟨order, [], ?_, Nat.zero_le 1, ?_, ?_, ordered, marked, fun _ => ⟨i, missing, ?_⟩⟩
      · rw [silent, executed]
        exact (List.append_nil _).symm
      · rw [List.append_nil]
        exact progress.1.nodup.1
      · rw [List.append_nil]
        exact progress.2
      · refine cause.imp (Schedule.vacant_of_outline alike.outline).mp ?_
        rintro ⟨artifact, needs, unmade⟩
        exact ⟨artifact, (Schedule.needs_congr alike.declared).mp needs,
          (Schedule.producer?_congr alike.declared artifact).symm.trans unmade⟩
  · cases outcome : run name start with
    | error fault after => exact ⟨fault, after, rfl⟩
    | ok _ after =>
      obtain ⟨p, found'⟩ := (ends.of_ok outcome).producer missing needs
      cases unmade.symm.trans found'

/-- A report that needs a view and the facts behind it, where the view is made from an index of the
facts. -/
def reportTasks : List Task :=
  [idleTask "facts" [] ["F"], idleTask "index" ["F"] ["X"], idleTask "view" ["X"] ["V"],
    idleTask "report" ["V", "F"] []]

/-- The session in which these tasks are registered. -/
def reporting : Session := (create default default default).serveAll (reportTasks.map .register)

/-- The same session when only the index is done. -/
def indexed : Session :=
  { reporting with schedule := { reporting.schedule with done := .ofList [1] } }

theorem reached_reporting : reporting.Reached :=
  .registered _ (.registered _ (.registered _ (.registered _ (.created _ _ _ _))))

theorem quiescent_reporting : reporting.Quiescent := by decide +kernel

theorem run_indexed : ∃ after, run "report" indexed = .ok () after ∧
    after.taskNotes = indexed.notesOn .finished [2, 0, 3] := by
  have evaluated : ((run "report").outcome indexed).map (·.2.taskNotes) =
      .ok (indexed.notesOn .finished [2, 0, 3]) := by decide +kernel
  obtain ⟨_, after, running, noted⟩ := exists_of_outcome evaluated
  exact ⟨after, running, noted⟩

/-- The view depends on the facts, but through the index, which is done: it is made first. -/
theorem run_before_hidden_supplier :
    (∃ after, run "report" indexed = .ok () after ∧
      after.taskNotes = indexed.notesOn .finished [2, 0, 3]) ∧
    Relation.TransGen indexed.Supplies 0 2 := by
  refine ⟨run_indexed, .tail (b := 1) (.single ⟨"F", ?_, ?_⟩) ⟨"X", ?_, ?_⟩⟩
  · decide +kernel
  · decide +kernel
  · decide +kernel
  · decide +kernel

theorem run_executes_missing_indexed :
    ∃ after order, run "report" indexed = .ok () after ∧
      after.taskNotes = indexed.taskNotes ++ reporting.notesOn .finished order ∧
      order.Nodup ∧ (∀ i, i ∈ order ↔ indexed.Missing 3 i) ∧ reporting.SuppliedFirst order ∧
      ∀ i, i ∈ after.schedule.done ↔ i ∈ SortedSet.ofList [1] ∨ i ∈ order := by
  obtain ⟨after, running, _⟩ := run_indexed
  obtain ⟨succeeds, _, _⟩ := run_executes_missing reached_reporting quiescent_reporting
    (.ofList [1]) (show reporting.schedule.find? "report" = some 3 by decide +kernel)
  obtain ⟨order, executed⟩ := succeeds after running
  exact ⟨after, order, running, executed⟩

end ProgramAnalysis.Session
