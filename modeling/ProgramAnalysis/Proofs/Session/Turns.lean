import Mathlib.Logic.Relation
import ProgramAnalysis.Proofs.Session.Runs

/-!
What happened during a run of a task that needs or makes something. Tasks upstream of it took their
turns one after the other (`Turn`), each when all that it needs was done, and each was done
afterwards. What turns keep, the run keeps.
-/

namespace ProgramAnalysis.Session

open Schedule Step List

variable {session before after : Session} {i j root : Nat}

/-! ### Paths -/

theorem Upstream.refl (session : Session) (i : Nat) : session.Upstream i i :=
  .start (mem_singleton.mpr rfl)

theorem Upstream.cons (edge : i ∈ session.schedule.graph.after p)
    (upstream : session.Upstream i root) : session.Upstream p root := by
  induction upstream with
  | start mem =>
    obtain rfl := mem_singleton.mp mem
    exact .step (Upstream.refl session p) edge
  | step _ edge ih => exact .step ih edge

theorem Sound.done_of_upstream (sound : session.Sound) (upstream : session.Upstream i root)
    (isDone : root ∈ session.schedule.done) : i ∈ session.schedule.done := by
  induction upstream with
  | start mem => exact mem_singleton.mp mem ▸ isDone
  | step _ edge ih => exact ih (sound.ranBefore isDone edge).1

/-- A task that needs or makes something. -/
def Engaged (session : Session) (i : Nat) : Prop :=
  ∃ artifact, session.schedule.Needs i artifact ∨ session.schedule.Makes i artifact

theorem Engaged.congr (engaged : before.Engaged i)
    (declared : after.schedule.declarations = before.schedule.declarations) : after.Engaged i := by
  obtain ⟨artifact, touches⟩ := engaged
  exact ⟨artifact, touches.imp (needs_congr declared).mpr (makes_congr declared).mpr⟩

/-- A task that is in its slot is quiet, if it is upstream of one that needs or makes something. -/
theorem Sound.quiet_of_upstream (sound : session.Sound) (upstream : session.Upstream i root)
    (engaged : session.Engaged root) (atIndex : session.schedule.slots[i]? = some slot)
    (full : slot.task = some task) : task.body.callsBack = false := by
  obtain ⟨sameDeclaration, contained⟩ := sound.contained slot (mem_of_getElem? atIndex) task full
  have declared : session.schedule.declarations[i]? = some task.toDeclaration := by
    rw [getElem?_declarations, atIndex, sameDeclaration]
    rfl
  cases contained with
  | quiet quiet => exact quiet
  | driver loop =>
    -- the task touches something, because the first edge on the way to the root starts at it
    have touches : session.Engaged i := by
      rcases reachable_singleton_iff.mp upstream with rfl | reached
      · exact engaged
      · obtain ⟨next, edge⟩ := reached.exists_start
        obtain ⟨artifact, makes, _⟩ := (sound.consistent.edges i next).mp edge
        exact ⟨artifact, .inr makes⟩
    obtain ⟨artifact, ⟨other, found, mem⟩ | ⟨other, found, mem⟩⟩ := touches
    · cases declared.symm.trans found
      cases mem
    · cases declared.symm.trans found
      cases mem

/-! ### One turn -/

/-- The session after the body of a task was left successfully: the task is put back with a changed
body, and is done. -/
def leave (left : Session) (i : Nat) (task : Task) (body : Body) : Session :=
  { left with
    schedule := (left.schedule.restore i { task with body }).markDone i
    journal := left.journal ++ [.finished task.name] }

/-- A body that succeeded was entered with its task out of the slot. -/
theorem runBody_eq_ok {run : Runner} (sound : session.Sound)
    (running : runBody run i session = .ok () after) :
    ∃ slot task body left, session.schedule.slots[i]? = some slot ∧ slot.task = some task ∧
      perform run (task.body, session.enter i) = .ok () (body, left) ∧
      after = left.leave i task body := by
  obtain ⟨task, _, taking, rest⟩ := bind_eq_ok.mp running
  obtain ⟨⟨slot, atIndex, full⟩, rfl⟩ := (ends_take session i).of_ok taking
  obtain ⟨_, entered, noted, rest⟩ := bind_eq_ok.mp rest
  have named : session.schedule.nameAt i = task.name := by
    rw [nameAt, atIndex, (sound.contained slot (mem_of_getElem? atIndex) task full).1]
    rfl
  obtain rfl : entered = session.enter i := by
    cases noted
    rw [enter, named]
  refine ⟨slot, task, ?_⟩
  cases outcome : perform run (task.body, session.enter i) with
  | ok _ end_ =>
    rw [outcome] at rest
    cases rest
    exact ⟨end_.1, end_.2, atIndex, full, rfl, by rw [leave, ← named]; rfl⟩
  | error fault end_ =>
    rw [outcome] at rest
    cases rest

/-- A task was run when everything it needs had been made, and its body left the schedule alone. -/
structure Turn (i : Nat) (before after : Session) : Prop where
  sound : before.Sound
  undone : i ∉ before.schedule.done
  met : ∀ p, i ∈ before.schedule.graph.after p → p ∈ before.schedule.done
  ran : Ran i (· = i) before after
  performed : ∃ run slot task body left,
    before.schedule.slots[i]? = some slot ∧ slot.task = some task ∧ task.body.callsBack = false ∧
      perform run (task.body, before.enter i) = .ok () (body, left) ∧ after = left.leave i task body

namespace Turn

theorem schedule_leave {run : Runner} {task : Task} (quiet : task.body.callsBack = false)
    (performed : perform run (task.body, before.enter i) = .ok () (body, left)) :
    (left.leave i task body).schedule =
      ((before.schedule.put i none).restore i { task with body }).markDone i := by
  have still := ((perform_quiet quiet _).of_ok performed).2.schedule
  rw [leave, still]
  rfl

theorem mem_done (turn : Turn i before after) :
    j ∈ after.schedule.done ↔ j = i ∨ j ∈ before.schedule.done := by
  obtain ⟨run, slot, task, body, left, _, _, quiet, performed, rfl⟩ := turn.performed
  rw [schedule_leave quiet performed]
  exact SortedSet.mem_insert

theorem slots_other (turn : Turn i before after) (other : j ≠ i) :
    after.schedule.slots[j]? = before.schedule.slots[j]? := by
  obtain ⟨run, slot, task, body, left, _, _, quiet, performed, rfl⟩ := turn.performed
  rw [schedule_leave quiet performed]
  simp [markDone, Schedule.restore, put, other.symm]

end Turn

theorem turn_launch (sound : before.Sound) (undone : i ∉ before.schedule.done)
    (met : ∀ artifact, before.schedule.Needs i artifact → before.Made artifact before)
    (upstream : before.Upstream i root) (engaged : before.Engaged root)
    (launched : launch full i before = .ok () after) : Turn i before after := by
  have ran := ((launches_launch full before i sound undone met).of_ok launched).1
  cases full with
  | zero =>
    obtain ⟨_, _, got, thrown⟩ := bind_eq_ok.mp launched
    cases thrown
  | succ full =>
    rw [launch, get_bind] at launched
    obtain ⟨slot, task, body, left, atIndex, inSlot, performed, same⟩ :=
      runBody_eq_ok sound launched
    refine ⟨sound, undone, fun maker edge => ?_, ran, _, slot, task, body, left, atIndex, inSlot,
      sound.quiet_of_upstream upstream engaged atIndex inSlot, performed, same⟩
    obtain ⟨artifact, makes, needs⟩ := (sound.consistent.edges maker i).mp edge
    obtain ⟨other, found, isDone⟩ := met artifact needs
    rwa [← sound.consistent.makers other maker artifact (makes_of_producer? found) makes]

/-! ### Runs -/

/-- Tasks upstream of one took turns. -/
def Turns (root : Nat) : Session → Session → Prop :=
  Relation.ReflTransGen fun before after => ∃ i, before.Upstream i root ∧ Turn i before after

theorem turns_runAfterNeeds (full depth : Nat) (sound : session.Sound)
    (found : session.schedule.find? name = some i) (upstream : session.Upstream i root)
    (engaged : session.Engaged root) :
    (runAfterNeeds (launch full) depth name).Ends session (fun _ => Turns root session)
      fun _ => True := by
  induction depth generalizing session name i with
  | zero => exact Ends.throw trivial
  | succ depth ih =>
    refine ends_runOnce (fun between => Preparing i session between ∧ Turns root session between)
      found (fun _ => .refl) ⟨⟨sound, .refl session, fun _ => id, fun _ => .inl⟩, .refl⟩
      (fun _ kept => kept.1.continues.declared) (fun undone artifact between needs kept => ?_)
      fun undone between kept met => Ends.of_forall_ok fun _ after launched => ?_
    · obtain ⟨preparing, turns⟩ := kept
      have declared := preparing.continues.declared
      have taken : (query (·.producerOf artifact name) >>= runAfterNeeds (launch full) depth).Ends
          between (fun _ => Turns root session) fun _ => True := by
        refine Ends.bind (ends_query (fun producer answered => ?_) fun _ _ => trivial)
        obtain ⟨p, _, edge, named⟩ :=
          producerOf_eq_ok preparing.sound.consistent ((needs_congr declared).mpr needs) answered
        have further : between.Upstream p root := by
          refine .cons edge ?_
          rwa [Upstream, preparing.continues.graph]
        exact (ih preparing.sound named further (engaged.congr declared)).mono
          (fun _ _ => turns.trans) fun _ => id
      refine ((preparing.step (runs_runAfterNeeds (launches_launch full) depth) needs).and
        taken).mono ?_ fun _ _ => trivial
      rintro _ after ⟨⟨preparing', made⟩, turns'⟩
      exact ⟨⟨preparing', turns'⟩, made⟩
    · obtain ⟨preparing, turns⟩ := kept
      have upstream : between.Upstream i root := by rwa [Upstream, preparing.continues.graph]
      exact turns.tail ⟨i, upstream, turn_launch preparing.sound (preparing.undone sound undone) met
        upstream (engaged.congr preparing.continues.declared) launched⟩

theorem turns_run (sound : session.Sound) (found : session.schedule.find? name = some root)
    (engaged : session.Engaged root) (running : run name session = .ok () after) :
    Turns root session after ∧ after.Sound ∧ session.Continues after ∧
      root ∈ after.schedule.done := by
  obtain ⟨ran, isDone⟩ := (ends_run sound found).of_ok running
  rw [run, get_bind] at running
  exact ⟨(turns_runAfterNeeds _ _ sound found (.refl session root) engaged).of_ok running,
    ran.sound, ran.continues, isDone⟩

end ProgramAnalysis.Session
