import ProgramAnalysis.Proofs.Session.Recursion

/-!
How runs nest. While a body is under way the slot of its task is empty, and a body is only entered
from a full slot. So no body is entered inside itself, each nested run has one slot less to enter,
and the depth at which runs must end is decided by the number of tasks. Slots are filled again at
either end of a body, and only success makes a task done.
-/

namespace ProgramAnalysis.Session

open Schedule

variable {session before after : Session} {active : List Nat} {i : Nat}

/-- What can happen to a session during a run while the bodies of some tasks are active: nothing is
noted about any task and the schedule is left alone, a task is forgotten, or a body that is not
active is entered, is active meanwhile, and succeeds or fails. -/
inductive Course : List Nat → Session → Session → Prop where
  | quiet {active : List Nat} {before after : Session} : before.Quiet after →
    Course active before after
  | forget {active : List Nat} (session : Session) (i : Nat) :
    Course active session { session with schedule := session.schedule.reset i }
  | trans {active : List Nat} {first second third : Session} : Course active first second →
    Course active second third → Course active first third
  | finished {active : List Nat} {before left : Session} {i : Nat} {slot : Slot Task} {task : Task}
    {body : Body} : i ∉ active → before.schedule.slots[i]? = some slot → slot.task = some task →
    perform run (task.body, before.enter i) = .ok () (body, left) →
    Course (i :: active) (before.enter i) left → Course active before (left.leave i task body)
  | failed {active : List Nat} {before left : Session} {i : Nat} {slot : Slot Task} {task : Task}
    {body : Body} {fault : Fault} : i ∉ active → before.schedule.slots[i]? = some slot →
    slot.task = some task → perform run (task.body, before.enter i) = .error fault (body, left) →
    Course (i :: active) (before.enter i) left → Course active before (left.abandon i task body)

theorem Course.refl (active : List Nat) (session : Session) : Course active session session :=
  .quiet (.refl session)

/-- A session that is alike to an earlier one, and came about from it during a run. -/
def Underway (active : List Nat) (before after : Session) : Prop :=
  before.Alike after ∧ Course active before after

theorem lasting_underway (active : List Nat) (session : Session) :
    Lasting (Underway active session) where
  quiet kept quiet := ⟨(lasting_alike session).quiet kept.1 quiet, kept.2.trans (.quiet quiet)⟩
  forget i kept := ⟨(lasting_alike session).forget i kept.1, kept.2.trans (.forget _ i)⟩

/-- Runs that are part of the course from where they start are part of a longer one. -/
theorem Underway.run {name : String} (intact : before.Intact)
    (underway : Underway active before after)
    (course : (run name).Always after (Course active after)) :
    (run name).Always after (Underway active before) :=
  ((alike_run (intact.congr underway.1) name).and course).mono
    (fun _ _ later => ⟨underway.1.trans later.1, underway.2.trans later.2⟩)
    fun _ later => ⟨underway.1.trans later.1, underway.2.trans later.2⟩

/-- The run of a task that is not active is part of the course, if the runs inside its body are. -/
theorem Left.underway (idle : ¬ session.schedule.Vacant i → i ∉ active)
    (left : Left run session i (Underway (i :: active) (session.enter i)) after) :
    Underway active session after := by
  have full {slot : Slot Task} {task : Task} (atIndex : session.schedule.slots[i]? = some slot)
      (held : slot.task = some task) : ¬ session.schedule.Vacant i := by
    rintro ⟨other, found, empty⟩
    rw [atIndex, Option.some.injEq] at found
    rw [← found, held] at empty
    cases empty
  cases left with
  | refused => exact ⟨.refl session, .refl active session⟩
  | finished atIndex held performed kept =>
    exact ⟨(Left.finished atIndex held performed kept.1).alike,
      .finished (idle (full atIndex held)) atIndex held performed kept.2⟩
  | failed atIndex held performed kept =>
    exact ⟨(Left.failed atIndex held performed kept.1).alike,
      .failed (idle (full atIndex held)) atIndex held performed kept.2⟩

/-- A run takes its course among the tasks that are not under way. -/
theorem course_run (intact : session.Intact) (name : String) :
    ∀ active, (∀ i ∈ active, session.schedule.Vacant i) →
      (run name).Always session (Course active session) := by
  refine run_induction (fun name session intact ofNeeds ofBody active vacant => ?_) intact name
  have agree : Agree (Underway active session) (runVia run name) (runVia run name) := by
    refine agree_runOnce intact (fun _ kept => kept.1) (fun i p producer found edge named between
      kept => ⟨rfl, kept.run intact (ofNeeds i p producer between found edge named kept.1 active
        fun j mem => (vacant_of_outline kept.1.outline).mpr (vacant j mem))⟩) ?_
    intro i found between kept
    have intact' := intact.congr kept.1
    have registered := lt_of_find? ((kept.1.find? name).trans found)
    have inside (full : ¬ between.schedule.Vacant i) (other : String) :
        Agree (Underway (i :: active) (between.enter i)) (run other) (run other) := by
      intro later entered
      refine ⟨rfl, entered.run (intact'.enter i) (ofBody i other later found
        (by rwa [← vacant_of_outline kept.1.outline]) ((kept.1.enter i).trans entered.1)
        (i :: active) fun j mem => (vacant_of_outline entered.1.outline).mpr ?_)⟩
      by_cases here : i = j
      · exact here ▸ vacant_put_none registered
      · have old := vacant j ((List.mem_cons.mp mem).resolve_left (Ne.symm here))
        exact ((vacant_of_outline kept.1.outline).mpr old).put here
    have idle (full : ¬ between.schedule.Vacant i) : i ∉ active := fun mem =>
      full ((vacant_of_outline kept.1.outline).mpr (vacant i mem))
    refine ⟨rfl, (agree_runBody intact' registered (lasting_underway _ _)
      ⟨.refl _, .refl _ _⟩ inside).2.mono (fun _ _ left => ?_) fun _ left => ?_⟩
    · exact ⟨kept.1.trans (left.underway idle).1, kept.2.trans (left.underway idle).2⟩
    · exact ⟨kept.1.trans (left.underway idle).1, kept.2.trans (left.underway idle).2⟩
  unfold Step.Always Step.Ends
  rw [run_eq_runVia intact name]
  exact (agree session ⟨.refl session, .refl active session⟩).2.mono (fun _ _ => And.right)
    fun _ => And.right

/-- A task is asked for in any session that can be reached, also by a body. The run comes to an end:
nothing depends on what would happen at a depth that only the number of tasks decides. It runs
things the way it runs itself, and where a task is under way its body is not entered again. Every
task is afterwards in its slot exactly if it was before. No body was entered while it was active,
and a task became done only when its body succeeded. -/
theorem runs_nest {session : Session} (reached : session.Reached) (name : String) :
    let after := (run name).final session
    (∀ bottom depth, session.depthBound * session.depthBound ≤ depth →
      nested bottom depth name session = run name session) ∧
    run name session = runVia run name session ∧
    (∀ i, session.schedule.Vacant i → ∀ runner, runBody runner i session =
      .error (.taskRunning (session.schedule.nameAt i)) session) ∧
    after.schedule.outline = session.schedule.outline ∧
    ∀ active, (∀ i ∈ active, session.schedule.Vacant i) → Course active session after := by
  intro after
  have intact := reached.intact
  refine ⟨fun bottom depth deep => ?_, run_eq_runVia intact name,
    fun i vacant runner => runBody_of_vacant runner vacant, (alike_run intact name).final.outline,
    fun active vacant => (course_run intact name active vacant).final⟩
  exact (agree_run_nested bottom intact deep name session (.refl session)).1.symm

/-- A task whose body asks for another one and goes on if that fails, and the other one, whose body
asks for the first. -/
def askingTasks : List Task :=
  [{ name := "ask", consumes := [], produces := [], relations := [],
      body := .script [.tolerate (.run "answer"), .reset "answer"] 0 },
    { name := "answer", consumes := [], produces := [], relations := [],
      body := .script [.run "ask"] 0 }]

/-- The session with these tasks. -/
abbrev asking : Session := (create default default default).serveAll (askingTasks.map .register)

theorem runs_nest_asking :
    asking.Reached ∧
    ((run "ask").final asking).journal =
      [.started "ask", .started "answer", .failed "answer", .finished "ask"] ∧
    ((run "ask").final asking).schedule.outline = asking.schedule.outline ∧
    Course [] asking ((run "ask").final asking) := by
  have reached : asking.Reached := .registered _ (.registered _ (.created _ _ _ _))
  have noted : ((run "ask").final asking).journal =
      [.started "ask", .started "answer", .failed "answer", .finished "ask"] := by
    decide +kernel
  obtain ⟨_, _, _, outline, course⟩ := runs_nest reached "ask"
  exact ⟨reached, noted, outline, course [] fun _ member => absurd member List.not_mem_nil⟩

end ProgramAnalysis.Session
