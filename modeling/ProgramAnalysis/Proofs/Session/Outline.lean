import ProgramAnalysis.Proofs.Session.Turns

/-!
Sessions with the same tasks in the same slots (`Alike`). A body may change when it is performed,
but its task comes back to its slot, so a run leaves a session alike. Two ways to run tasks that
agree wherever something holds make bodies agree there as well (`Agree`), as long as it lasts.
-/

namespace ProgramAnalysis

open List Step Schedule

/-! ### Outlines -/

/-- A task without what it does. -/
def Task.blank (task : Task) : Task := { task with body := .script [] 0 }

variable {slot : Slot Task} {task : Task}

namespace Schedule

variable {schedule other : Schedule Task} {i : Nat}

/-- The slots, with tasks without what they do. -/
def outline (schedule : Schedule Task) : List (Slot Task) :=
  schedule.slots.map fun slot => { slot with task := slot.task.map Task.blank }

theorem declarations_of_outline (same : other.outline = schedule.outline) :
    other.declarations = schedule.declarations := by
  have declared (schedule : Schedule Task) :
      schedule.declarations = schedule.outline.map (·.toDeclaration) := by
    rw [outline, map_map]
    rfl
  rw [declared, declared, same]

theorem vacant_iff : schedule.Vacant i ↔
    ∃ slot, schedule.outline[i]? = some slot ∧ slot.task = none := by
  rw [Vacant, outline, getElem?_map]
  cases schedule.slots[i]? with
  | none => simp
  | some slot => simp

theorem vacant_of_outline (same : other.outline = schedule.outline) :
    other.Vacant i ↔ schedule.Vacant i := by
  rw [vacant_iff, vacant_iff, same]

theorem vacant_or_full (registered : i < schedule.declarations.length) :
    schedule.Vacant i ∨ ∃ slot task, schedule.slots[i]? = some slot ∧ slot.task = some task := by
  rw [length_declarations] at registered
  have atIndex := getElem?_eq_getElem registered
  cases held : schedule.slots[i].task with
  | none => exact .inl ⟨_, atIndex, held⟩
  | some task => exact .inr ⟨_, task, atIndex, held⟩

theorem getElem?_outline_put (task : Option Task) (j : Nat) :
    (schedule.put i task).outline[j]? = (schedule.outline[j]?).map fun slot =>
      if i = j then { slot with task := task.map Task.blank } else slot := by
  rw [outline, outline, put, getElem?_map, getElem?_map, getElem?_modify]
  cases schedule.slots[j]? with
  | none => rfl
  | some slot =>
    simp only [Option.map_some]
    split <;> rfl

theorem outline_restore (atIndex : schedule.slots[i]? = some slot) (held : slot.task = some task)
    (same : other.outline = (schedule.put i none).outline) :
    (other.restore i { task with body }).outline = schedule.outline := by
  refine ext_getElem? fun j => ?_
  rw [restore, getElem?_outline_put, same, getElem?_outline_put]
  by_cases here : i = j
  · subst here
    have outlined : schedule.outline[i]? = some { slot with task := some task.blank } := by
      rw [outline, getElem?_map, atIndex, Option.map_some, held]
      rfl
    rw [outlined]
    simp only [Option.map_some, if_true]
    rfl
  · cases schedule.outline[j]? with
    | none => rfl
    | some slot => simp only [Option.map_some, if_neg here]

end Schedule

namespace Session

variable {α β : Type} {session before after left : Session} {holds : Session → Prop} {i : Nat}

/-- The same tasks are in the same slots, whatever their bodies have become. -/
structure Alike (before after : Session) : Prop where
  outline : after.schedule.outline = before.schedule.outline
  graph : after.schedule.graph = before.schedule.graph

namespace Alike

theorem refl (session : Session) : session.Alike session := ⟨rfl, rfl⟩

theorem trans {first : Session} (alike : first.Alike second) (alike' : second.Alike third) :
    first.Alike third :=
  ⟨alike'.outline.trans alike.outline, alike'.graph.trans alike.graph⟩

theorem declared (alike : before.Alike after) :
    after.schedule.declarations = before.schedule.declarations :=
  declarations_of_outline alike.outline

theorem find? (alike : before.Alike after) (name : String) :
    after.schedule.find? name = before.schedule.find? name :=
  Schedule.find?_congr alike.declared name

end Alike

/-- Registration was consistent, and every task in a slot is the one declared there. -/
structure Intact (session : Session) : Prop where
  consistent : session.schedule.Consistent
  matched : ∀ slot ∈ session.schedule.outline, ∀ task, slot.task = some task →
    task.toDeclaration = slot.toDeclaration

theorem Intact.congr (intact : before.Intact) (alike : before.Alike after) : after.Intact where
  consistent := intact.consistent.congr alike.declared alike.graph
  matched := by
    rw [alike.outline]
    exact intact.matched

theorem Intact.enter (intact : session.Intact) (i : Nat) : (session.enter i).Intact where
  consistent := intact.consistent.congr (declarations_enter session i) rfl
  matched := by
    intro slot mem task held
    obtain ⟨j, found⟩ := mem_iff_getElem?.mp mem
    rw [Session.enter, getElem?_outline_put] at found
    obtain ⟨old, atIndex, rfl⟩ := Option.map_eq_some_iff.mp found
    split at held
    · cases held
    · next other =>
      rw [if_neg other]
      exact intact.matched old (mem_of_getElem? atIndex) task held

theorem Intact.nameAt (intact : session.Intact) (atIndex : session.schedule.slots[i]? = some slot)
    (held : slot.task = some task) :
    session.schedule.nameAt i = task.name := by
  have outlined : { slot with task := slot.task.map Task.blank } ∈ session.schedule.outline :=
    mem_map.mpr ⟨slot, mem_of_getElem? atIndex, rfl⟩
  have same := intact.matched _ outlined task.blank (by rw [held]; rfl)
  rw [Schedule.nameAt, atIndex]
  exact (congrArg Declaration.name same).symm

/-! ### Steps that agree -/

/-- Neither work on the store nor forgetting that a task ran disturbs what holds. -/
structure Lasting (holds : Session → Prop) : Prop where
  quiet : ∀ {before after : Session}, holds before → before.Quiet after → holds after
  forget : ∀ {session : Session} (i : Nat), holds session →
    holds { session with schedule := session.schedule.reset i }

theorem lasting_alike (session : Session) : Lasting session.Alike where
  quiet alike quiet := alike.trans ⟨by rw [quiet.schedule], by rw [quiet.schedule]⟩
  forget _ alike := alike.trans ⟨rfl, rfl⟩

/-- Two steps do the same wherever something holds, and it still holds afterwards. -/
def Agree (holds : Session → Prop) (step step' : Step Session α) : Prop :=
  ∀ session, holds session → step session = step' session ∧ step.Always session holds

theorem Agree.bind (agree : Agree holds step step') (agree' : ∀ a, Agree holds (f a) (f' a)) :
    Agree holds (step >>= f) (step' >>= f') := by
  intro session holding
  obtain ⟨same, always⟩ := agree session holding
  refine ⟨?_, Ends.bind (always.mono (fun a t kept => (agree' a t kept).2) fun _ => id)⟩
  cases outcome : step session with
  | ok a between =>
    rw [bind_of_ok outcome, bind_of_ok (same.symm.trans outcome)]
    exact (agree' a between (always.of_ok outcome)).1
  | error fault between =>
    rw [bind_of_error outcome, bind_of_error (same.symm.trans outcome)]

variable {ι : Type} {items : List ι}

theorem agree_forM (each : ∀ item, Agree holds (f item) (f' item)) :
    Agree holds (items.forM f) (items.forM f') := by
  induction items with
  | nil => exact fun _ holding => ⟨rfl, holding⟩
  | cons item rest ih => exact (each item).bind fun _ => ih

theorem agree_forIn (each : ∀ item ∈ items, Agree holds (f item ⟨⟩) (f' item ⟨⟩)) :
    Agree holds (forIn items PUnit.unit f) (forIn items PUnit.unit f') := by
  induction items with
  | nil => exact fun _ holding => ⟨rfl, holding⟩
  | cons item rest ih =>
    rw [forIn_cons, forIn_cons]
    refine (each item mem_cons_self).bind fun next => ?_
    cases next with
    | done => exact fun _ holding => ⟨rfl, holding⟩
    | yield => exact ih fun other mem => each other (.tail _ mem)

theorem agree_query_bind {f : Session → Except Fault α} {g g' : α → Step Session β}
    (each : ∀ session a, holds session → f session = .ok a → Agree holds (g a) (g' a)) :
    Agree holds (query f >>= g) (query f >>= g') := by
  intro session holding
  unfold Always Ends
  cases answer : f session with
  | ok a =>
    have asked : query f session = .ok a session := by rw [query, answer]
    rw [bind_of_ok asked, bind_of_ok asked]
    exact each session a holding answer session holding
  | error fault =>
    have asked : query f session = .error fault session := by rw [query, answer]
    rw [bind_of_error asked, bind_of_error asked]
    exact ⟨rfl, holding⟩

theorem agree_get_bind (each : ∀ session, holds session → Agree holds (g session) (g' session)) :
    Agree holds (get >>= g) (get >>= g') := fun session holding =>
  each session holding session holding

section Bodies

variable (lasting : Lasting holds)
include lasting

theorem Silent.agree (silent : Silent step) : Agree holds step step :=
  fun session holding => ⟨rfl, (silent session).mono (fun _ _ => lasting.quiet holding)
    fun _ => lasting.quiet holding⟩

theorem agree_reset (name : String) : Agree holds (reset name) (reset name) :=
  (Silent.agree lasting (silent_query _)).bind fun i _ holding => ⟨rfl, lasting.forget i holding⟩

theorem agree_invalidate (contexts : String) :
    Agree holds (invalidate contexts) (invalidate contexts) :=
  (Silent.agree lasting (silent_query _)).bind fun _ =>
    (agree_reset lasting contexts).bind fun _ => agree_forM (agree_reset lasting)

variable {run run' : Runner} (agree : ∀ name, Agree holds (run name) (run' name))
include agree

theorem agree_driveFrom (loop : Refinement) (rounds : Nat) (outcome : Refinement.Outcome) :
    Agree holds (driveFrom run loop rounds outcome) (driveFrom run' loop rounds outcome) := by
  induction rounds generalizing outcome with
  | zero => exact (agree loop.base).bind fun _ => Silent.agree lasting (silent_pure _)
  | succ rounds ih =>
    refine (agree loop.base).bind fun _ => (agree loop.feedback).bind fun _ =>
      (agree loop.refinement).bind fun _ =>
        (Silent.agree lasting (silent_mapM silent_refinedSize)).bind fun sizes => ?_
    dsimp only
    split
    · exact Silent.agree lasting (silent_pure _)
    · exact (agree_invalidate lasting loop.contexts).bind fun _ => ih _

theorem agree_act (runs : Nat) (action : Action) :
    Agree holds (act run runs action) (act run' runs action) := by
  induction action with
  | run task => exact agree task
  | reset task => exact agree_reset lasting task
  | tolerate action ih =>
    intro session holding
    obtain ⟨same, always⟩ := ih session holding
    refine ⟨?_, always_tolerate always⟩
    unfold act
    rw [same]
  | fail | putDomain | fill | fillByRun | work => exact Silent.agree lasting (silent_act rfl)

/-- To a body it makes no difference which of two ways to run tasks it is given, if they agree. -/
theorem agree_perform (body : Body) (holding : holds session) :
    perform run (body, session) = perform run' (body, session) ∧
      (perform run).Always (body, session) fun end_ => holds end_.2 := by
  have onSession {step step' : Step Session Unit} (agree : Agree holds step step') (body : Body) :
      let part := onPart Prod.snd fun (s : Body × Session) session => (s.1, session)
      part step (body, session) = part step' (body, session) ∧
        (part step).Always (body, session) fun end_ => holds end_.2 := by
    obtain ⟨same, always⟩ := agree session holding
    refine ⟨?_, Ends.onPart always⟩
    simp only [onPart, same]
  cases body with
  | script actions runs =>
    refine onSession (agree_forM fun action => ?_) (.script actions (runs + 1))
    exact agree_act lasting agree runs action
  | refinement loop =>
    refine onSession ((agree_driveFrom lasting agree loop _ _).bind fun _ => ?_) (.refinement loop)
    exact Silent.agree lasting (silent_modify (fun _ => rfl) fun _ => rfl)
  | _ =>
    exact ⟨rfl, (perform_quiet rfl session).mono (fun _ _ kept => lasting.quiet holding kept.2)
      fun _ kept => lasting.quiet holding kept.2⟩

end Bodies

/-! ### Runs of one task -/

/-- The session after the body of a task failed: the task is put back with a changed body. -/
def abandon (left : Session) (i : Nat) (task : Task) (body : Body) : Session :=
  { left with
    schedule := left.schedule.restore i { task with body }
    journal := left.journal ++ [.failed task.name] }

theorem runBody_of_vacant (run : Runner) (vacant : session.schedule.Vacant i) :
    runBody run i session = .error (.taskRunning (session.schedule.nameAt i)) session := by
  obtain ⟨slot, atIndex, empty⟩ := vacant
  have missing : Schedule.take i session.schedule =
      .error (.taskRunning (session.schedule.nameAt i)) session.schedule := by
    unfold Schedule.take
    rw [get_bind, atIndex, Option.bind_some, empty]
    rfl
  refine bind_of_error ?_
  rw [onPart, missing]

/-- A task in its slot is taken out, does what its body says, and is put back. -/
theorem runBody_of_full (run : Runner) (intact : session.Intact)
    (atIndex : session.schedule.slots[i]? = some slot) (held : slot.task = some task) :
    runBody run i session = match perform run (task.body, session.enter i) with
      | .ok _ (body, left) => .ok () (left.leave i task body)
      | .error fault (body, left) => .error fault (left.abandon i task body) := by
  have taken : Schedule.take i session.schedule = .ok task (session.schedule.put i none) := by
    refine bind_eq_ok.mpr ⟨session.schedule, session.schedule, rfl, ?_⟩
    rw [atIndex, Option.bind_some, held]
    rfl
  show EStateM.bind _ _ session = _
  rw [EStateM.bind, onPart, taken, enter, intact.nameAt atIndex held]
  rfl

/-- What the run of a task leaves: nothing happened because the task was under way, or its body was
left, in a session of which something holds, and the task was put back. -/
inductive Left (run : Runner) (session : Session) (i : Nat) (holds : Session → Prop) :
    Session → Prop where
  | refused : session.schedule.Vacant i → Left run session i holds session
  | finished {slot : Slot Task} {task : Task} {body : Body} {left : Session} :
    session.schedule.slots[i]? = some slot → slot.task = some task →
    perform run (task.body, session.enter i) = .ok () (body, left) → holds left →
    Left run session i holds (left.leave i task body)
  | failed {slot : Slot Task} {task : Task} {body : Body} {left : Session} {fault : Fault} :
    session.schedule.slots[i]? = some slot → slot.task = some task →
    perform run (task.body, session.enter i) = .error fault (body, left) → holds left →
    Left run session i holds (left.abandon i task body)

theorem Left.alike {run : Runner} (left : Left run session i (session.enter i).Alike after) :
    session.Alike after := by
  cases left with
  | refused => exact .refl session
  | finished atIndex held _ alike | failed atIndex held _ alike =>
    exact ⟨outline_restore atIndex held alike.outline, alike.graph⟩

theorem agree_runBody {run : Runner} (intact : session.Intact)
    (registered : i < session.schedule.declarations.length) (lasting : Lasting holds)
    (start : holds (session.enter i))
    (agree : ¬ session.schedule.Vacant i → ∀ name, Agree holds (run name) (run' name)) :
    runBody run i session = runBody run' i session ∧
      (runBody run i).Always session (Left run session i holds) := by
  unfold Always Ends
  by_cases vacant : session.schedule.Vacant i
  · rw [runBody_of_vacant run vacant, runBody_of_vacant run' vacant]
    exact ⟨rfl, .refused vacant⟩
  · obtain ⟨slot, task, atIndex, held⟩ := (vacant_or_full registered).resolve_left vacant
    obtain ⟨same, always⟩ := agree_perform lasting (agree vacant) task.body start
    rw [runBody_of_full run intact atIndex held, runBody_of_full run' intact atIndex held, ← same]
    refine ⟨rfl, ?_⟩
    cases outcome : perform run (task.body, session.enter i) with
    | ok _ end_ => exact .finished atIndex held outcome (always.of_ok outcome)
    | error fault end_ => exact .failed atIndex held outcome (always.of_error outcome)

/-- Runs inside the body of a task that leave tasks where they are make no difference to that. -/
theorem agree_runBody_alike {run : Runner} (intact : session.Intact)
    (registered : i < session.schedule.declarations.length)
    (agree : ¬ session.schedule.Vacant i → ∀ name,
      Agree (session.enter i).Alike (run name) (run' name)) :
    runBody run i session = runBody run' i session ∧
      (runBody run i).Always session session.Alike := by
  obtain ⟨same, always⟩ := agree_runBody intact registered (lasting_alike _) (.refl _) agree
  exact ⟨same, always.mono (fun _ _ => Left.alike) fun _ => Left.alike⟩

end Session

end ProgramAnalysis
