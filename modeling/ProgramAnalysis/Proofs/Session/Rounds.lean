import ProgramAnalysis.Proofs.Session.Demand
import ProgramAnalysis.Proofs.Session.Refining

/-!
How refinement loops end: nothing is named any more, or the limit is met, and the outcome tells
which (`Truthful`). At the start of each round everything that depends on contexts has been
forgotten, so that client, judge and refiner are executed once in it.
-/

namespace ProgramAnalysis

open List Step

/-- How a loop may end that is allowed some rounds: nothing was named at the end of one of them, or
something was named in each and the client was run once more. -/
inductive Refinement.Outcome.Truthful (limit : Nat) (outcome : Refinement.Outcome) : Prop where
  | settled (earlier : List (List Nat)) (last : List Nat) : outcome.converged = true →
    1 ≤ outcome.iterations → outcome.iterations ≤ limit →
    outcome.refinements.length = outcome.iterations → outcome.refinements = earlier ++ [last] →
    (∀ sizes ∈ earlier, ∃ size ∈ sizes, size ≠ 0) → (∀ size ∈ last, size = 0) →
    outcome.Truthful limit
  | gaveUp : outcome.converged = false → outcome.iterations = limit + 1 →
    outcome.refinements.length = limit →
    (∀ sizes ∈ outcome.refinements, ∃ size ∈ sizes, size ≠ 0) → outcome.Truthful limit

namespace Session

variable {session before after : Session} {loop : Refinement} {order : List Nat}
  {c b f r i : Nat}

/-! ### The end of a loop -/

/-- A loop that may go on without end. It is followed for some rounds, and then it does as `endless`
says. -/
def loopFrom (run : Runner) (endless : Refinement.Outcome → Step Session Refinement.Outcome)
    (loop : Refinement) : Nat → Refinement.Outcome → Step Session Refinement.Outcome
  | 0, outcome => endless outcome
  | rounds + 1, outcome => do
    run loop.base
    let outcome := { outcome with iterations := outcome.iterations + 1 }
    if outcome.iterations > loop.maxIterations then
      return outcome
    else
      run loop.feedback
      run loop.refinement
      let sizes ← Refined.reported.mapM refinedSize
      let outcome := { outcome with refinements := outcome.refinements ++ [sizes] }
      if sizes.all (· = 0) then
        return { outcome with converged := true }
      else
        invalidate loop.contexts
        loopFrom run endless loop rounds outcome

variable {rounds : Nat} {outcome : Refinement.Outcome}

/-- A loop is over before it has gone through more rounds than it may. -/
theorem loopFrom_eq_driveFrom {run : Runner}
    (limit : outcome.iterations + left = loop.maxIterations) (enough : left < rounds) :
    loopFrom run endless loop rounds outcome = driveFrom run loop left outcome := by
  induction left generalizing rounds outcome with
  | zero =>
    obtain ⟨rounds, rfl⟩ := Nat.exists_eq_succ_of_ne_zero (Nat.ne_of_gt enough)
    have beyond : outcome.iterations + 1 > loop.maxIterations := by omega
    simp only [loopFrom, driveFrom, if_pos beyond]
  | succ left ih =>
    obtain ⟨rounds, rfl⟩ := Nat.exists_eq_succ_of_ne_zero (Nat.ne_of_gt (Nat.zero_lt_of_lt enough))
    have within : ¬ outcome.iterations + 1 > loop.maxIterations := by omega
    have further (sizes : List Nat) := @ih rounds
      ⟨outcome.iterations + 1, outcome.converged, outcome.refinements ++ [sizes]⟩
      (by rw [← limit, Nat.add_right_comm, Nat.add_assoc]) (Nat.lt_of_succ_lt_succ enough)
    simp only [loopFrom, driveFrom, if_neg within, further]

variable {result : Refinement.Outcome}

/-- If something was named in each round so far, then the outcome is truthful in the end. -/
theorem truthful_driveFrom (unsettled : outcome.converged = false)
    (listed : outcome.refinements.length = outcome.iterations)
    (named : ∀ sizes ∈ outcome.refinements, ∃ size ∈ sizes, size ≠ 0)
    (driving : driveFrom run loop rounds outcome session = .ok result after) :
    result.Truthful (outcome.iterations + rounds) := by
  induction rounds generalizing outcome session with
  | zero =>
    obtain ⟨_, _, _, finished⟩ := bind_eq_ok.mp driving
    cases finished
    exact .gaveUp unsettled rfl listed named
  | succ rounds ih =>
    obtain ⟨refined, store, _, _, _, ended⟩ := driveFrom_succ_eq_ok driving
    have longer : (outcome.refinements ++ [sizesOf refined.store]).length =
        outcome.iterations + 1 := by
      rw [length_append, listed, length_singleton]
    rcases ended with ⟨nothing, _, rfl⟩ | ⟨next, something, _, further⟩
    · refine .settled outcome.refinements _ rfl (Nat.le_add_left 1 _) ?_ longer rfl named ?_
      · exact Nat.add_le_add_left (Nat.le_add_left 1 rounds) _
      · simpa using nothing
    · rw [Nat.add_comm rounds, ← Nat.add_assoc]
      refine ih ?_ ?_ ?_ further
      · exact unsettled
      · exact longer
      · refine forall_mem_append.mpr ⟨named, ?_⟩
        simpa using something

/-! ### What is executed -/

/-- How often the body of a task was entered. -/
def executions (session : Session) (name : String) : Nat := session.journal.count (.started name)

theorem executions_eq (session : Session) (name : String) :
    session.executions name = session.taskNotes.count (.started name) := by
  rw [taskNotes, count_filter rfl, executions]

variable {name : String}

theorem Execution.executions (execution : Execution j before after) (intact : before.Intact)
    (found : before.schedule.find? name = some i) :
    after.executions name = before.executions name + if j = i then 1 else 0 := by
  obtain ⟨declaration, atIndex, named⟩ := Schedule.find?_eq_some found
  have same : before.schedule.nameAt j = name ↔ j = i := by
    rw [← named, ← Schedule.nameAt_of_getElem? atIndex]
    exact ⟨intact.consistent.nameAt_injective execution.registered (lt_of_find? found),
      congrArg before.schedule.nameAt⟩
  rw [executions_eq, executions_eq, execution.taskNotes intact, count_append]
  simp [notesOn, count_cons, same]

/-- A task is executed as often as it is among those that are executed. -/
theorem Executions.executions (executions : Executions order before after) (intact : before.Intact)
    (found : before.schedule.find? name = some i) :
    after.executions name = before.executions name + order.count i := by
  induction executions with
  | nil => rfl
  | cons execution _ ih =>
    have alike := execution.alike
    rw [ih (intact.congr alike) ((alike.find? name).trans found),
      execution.executions intact found, count_cons]
    simp only [beq_iff_eq]
    omega

/-! ### Rounds -/

/-- A loop before a round: bodies leave the schedule alone, the tasks of the loop depend on its
contexts and are not done, and the client does not depend on the others. -/
structure Turning (loop : Refinement) (c b f r : Nat) (session : Session) : Prop where
  intact : session.Intact
  quiescent : session.Quiescent
  contexts : session.schedule.find? loop.contexts = some c
  base : session.schedule.find? loop.base = some b
  feedback : session.schedule.find? loop.feedback = some f
  refinement : session.schedule.find? loop.refinement = some r
  downstream : ∀ i ∈ [b, f, r], i ∉ session.schedule.done ∧ session.Upstream c i
  apart : ∀ i ∈ [f, r], ¬ Relation.ReflTransGen session.Supplies i b

theorem Turning.invalidate {next : Session} (turning : Turning loop c b f r session)
    (executions : Executions order session before) (quiet : before.Quiet after)
    (forgetting : invalidate loop.contexts after = .ok () next) :
    Turning loop c b f r next ∧ next.journal = after.journal := by
  have alike := (lasting_alike _).quiet executions.alike quiet
  have intact := turning.intact.congr alike
  obtain ⟨c', found, done, rfl, kept⟩ :=
    (ends_invalidate intact.consistent loop.contexts).of_ok forgetting
  obtain rfl := Option.some.inj (turning.contexts.symm.trans ((alike.find? _).symm.trans found))
  have quiescent : after.Quiescent := by
    unfold Quiescent
    rw [quiet.schedule]
    exact executions.quiescent turning.quiescent
  refine ⟨⟨intact.congr ⟨rfl, rfl⟩, quiescent, found, (alike.find? _).trans turning.base,
    (alike.find? _).trans turning.feedback, (alike.find? _).trans turning.refinement,
    fun i mem => ?_, fun i mem depends => ?_⟩, rfl⟩
  · have upstream : after.Upstream c i := by
      rw [Upstream, alike.graph]
      exact (turning.downstream i mem).2
    exact ⟨fun isDone => ((kept i).mp isDone).2 upstream, upstream⟩
  · exact turning.apart i mem
      (depends.lift id fun _ _ supplies => Supplies.congr supplies alike.declared.symm)

theorem executions_run (intact : session.Intact) (quiescent : session.Quiescent)
    (found : session.schedule.find? name = some i) (running : run name session = .ok () after) :
    ∃ order, Executions order session after ∧ i ∈ after.schedule.done ∧
      ∀ j ∈ order, Relation.ReflTransGen session.Supplies j i := by
  obtain ⟨order, progress, isDone⟩ := (ends_run_missing intact name quiescent i found).of_ok running
  exact ⟨order, progress.1, isDone, fun j mem => (progress.2 j mem).depends⟩

theorem Turning.run_base (turning : Turning loop c b f r session)
    (running : run loop.base session = .ok () after) :
    after.executions loop.base = session.executions loop.base + 1 ∧
      ∀ name ∈ [loop.feedback, loop.refinement],
        after.executions name = session.executions name := by
  obtain ⟨order, executions, isDone, needed⟩ :=
    executions_run turning.intact turning.quiescent turning.base running
  have once : order.count b = 1 := by
    refine count_eq_one_of_mem executions.nodup.1 ?_
    exact (executions.mem_done.mp isDone).resolve_left (turning.downstream b (by simp)).1
  have never {i : Nat} {name : String} (mem : i ∈ [f, r])
      (found : session.schedule.find? name = some i) :
      after.executions name = session.executions name := by
    rw [executions.executions turning.intact found,
      count_eq_zero.mpr fun among => turning.apart i mem (needed i among), Nat.add_zero]
  refine ⟨by rw [executions.executions turning.intact turning.base, once], ?_⟩
  simp only [forall_mem_cons]
  exact ⟨never (by simp) turning.feedback, never (by simp) turning.refinement,
    fun _ mem => absurd mem not_mem_nil⟩

theorem Turning.refineOnce (turning : Turning loop c b f r session)
    (refining : refineOnce loop session = .ok () after) :
    ∃ order, Executions order session after ∧
      ∀ name ∈ [loop.base, loop.feedback, loop.refinement],
        after.executions name = session.executions name + 1 := by
  obtain ⟨_, first, running, rest⟩ := bind_eq_ok.mp refining
  obtain ⟨_, second, judging, naming⟩ := bind_eq_ok.mp rest
  obtain ⟨ran, executions, baseDone, _⟩ :=
    executions_run turning.intact turning.quiescent turning.base running
  have alike := executions.alike
  obtain ⟨judged, executions', feedbackDone, _⟩ := executions_run (turning.intact.congr alike)
    (executions.quiescent turning.quiescent) ((alike.find? _).trans turning.feedback) judging
  have together := executions.append executions'
  have alike' := together.alike
  obtain ⟨named, executions'', refinementDone, _⟩ := executions_run (turning.intact.congr alike')
    (together.quiescent turning.quiescent) ((alike'.find? _).trans turning.refinement) naming
  have all := together.append executions''
  have isDone : ∀ i ∈ [b, f, r], i ∈ after.schedule.done := by
    have kept {i : Nat} (isDone : i ∈ second.schedule.done) : i ∈ after.schedule.done :=
      executions''.mem_done.mpr (.inl isDone)
    simp only [forall_mem_cons]
    exact ⟨kept (executions'.mem_done.mpr (.inl baseDone)), kept feedbackDone,
      refinementDone, nofun⟩
  have once {i : Nat} {name : String} (mem : i ∈ [b, f, r])
      (found : session.schedule.find? name = some i) :
      after.executions name = session.executions name + 1 := by
    rw [all.executions turning.intact found, count_eq_one_of_mem all.nodup.1]
    exact (all.mem_done.mp (isDone i mem)).resolve_left (turning.downstream i mem).1
  refine ⟨_, all, ?_⟩
  simp only [forall_mem_cons]
  exact ⟨once (by simp) turning.base, once (by simp) turning.feedback,
    once (by simp) turning.refinement, fun _ mem => absurd mem not_mem_nil⟩

/-- How often the tasks of a loop are run, whichever way it ends. -/
theorem Turning.executions_driveFrom (turning : Turning loop c b f r session)
    (driving : driveFrom run loop rounds outcome session = .ok result after) :
    after.executions loop.base + outcome.iterations =
        session.executions loop.base + result.iterations ∧
      ∀ name ∈ [loop.feedback, loop.refinement],
        after.executions name + outcome.refinements.length =
          session.executions name + result.refinements.length := by
  induction rounds generalizing session outcome with
  | zero =>
    obtain ⟨_, between, running, finished⟩ := bind_eq_ok.mp driving
    cases finished
    obtain ⟨client, others⟩ := turning.run_base running
    refine ⟨?_, fun name mem => by rw [others name mem]⟩
    rw [client, Nat.add_assoc, Nat.add_comm 1]
  | succ rounds ih =>
    obtain ⟨refined, store, refining, _, _, ended⟩ := driveFrom_succ_eq_ok driving
    obtain ⟨order, executions, once⟩ := turning.refineOnce refining
    obtain ⟨base, others⟩ := forall_mem_cons.mp once
    rcases ended with ⟨_, rfl, rfl⟩ | ⟨next, _, forgetting, further⟩
    · refine ⟨?_, fun name mem => ?_⟩
      · show refined.executions loop.base + _ = _
        rw [base, Nat.add_assoc, Nat.add_comm 1]
      · show refined.executions name + _ = _
        rw [others name mem, length_append, Nat.add_assoc, Nat.add_comm 1]
        rfl
    · have quiet : refined.Quiet { refined with store } := .of_eq rfl rfl
      obtain ⟨turning', noted⟩ := turning.invalidate executions quiet forgetting
      have same (name : String) : next.executions name = refined.executions name :=
        congrArg (List.count _) noted
      obtain ⟨onward, onward'⟩ := ih turning' further
      refine ⟨?_, fun name mem => ?_⟩
      · rw [same, base] at onward
        dsimp only at onward
        omega
      · have counted := onward' name mem
        rw [same, others name mem, length_append, length_singleton] at counted
        omega

/-- A loop is driven in any session that can be reached. It comes to an end: however deep runs may
nest and however many rounds it is followed, beyond what the number of tasks and the limit of the
loop decide nothing depends on what would happen there. Its outcome tells how it ended. If bodies
leave the schedule alone, the tasks of the loop depend on its contexts and are not done at the
start, and the client is none of the others and does not depend on them, then the client was
executed once in each iteration, and the others once for each step that is listed. -/
theorem drive_truthful {session : Session} (reached : session.Reached) (loop : Refinement) :
    (∀ bottom endless depth rounds, session.depthBound * session.depthBound ≤ depth →
      loop.maxIterations < rounds →
      loopFrom (nested bottom depth) endless loop rounds {} session = drive loop session) ∧
    ∀ outcome after, drive loop session = .ok outcome after →
      outcome.Truthful loop.maxIterations ∧
      ∀ c b f r, session.Quiescent → session.schedule.find? loop.contexts = some c →
        session.schedule.find? loop.base = some b → session.schedule.find? loop.feedback = some f →
        session.schedule.find? loop.refinement = some r →
        (∀ i ∈ [b, f, r], i ∉ session.schedule.done ∧ Relation.TransGen session.Supplies c i) →
        (∀ i ∈ [f, r], ¬ Relation.ReflTransGen session.Supplies i b) →
        after.executions loop.base = session.executions loop.base + outcome.iterations ∧
        ∀ name ∈ [loop.feedback, loop.refinement],
          after.executions name = session.executions name + outcome.refinements.length := by
  have intact := reached.intact
  refine ⟨fun bottom endless depth rounds deep enough => ?_, fun outcome after driving => ⟨?_, ?_⟩⟩
  · rw [loopFrom_eq_driveFrom (Nat.zero_add _) enough]
    exact (agree_driveFrom (lasting_alike session) (agree_run_nested bottom intact deep) loop _ _
      session (.refl session)).1.symm
  · have truthful := truthful_driveFrom rfl rfl (fun _ member => absurd member List.not_mem_nil)
      driving
    rwa [Nat.zero_add] at truthful
  · intro c b f r quiescent contexts base feedback refinement downstream apart
    have turning : Turning loop c b f r session :=
      ⟨intact, quiescent, contexts, base, feedback, refinement, fun i member =>
        ⟨(downstream i member).1, upstream_of_depends intact.consistent
          (downstream i member).2.to_reflTransGen⟩, apart⟩
    exact turning.executions_driveFrom driving

theorem reached_sharpening : sharpening.Reached :=
  .registered _ (.registered _ (.registered _ (.registered _ (.registered _ (.created _ _ _ _)))))

theorem drive_truthful_sharpening :
    ∃ after, drive sharpeningLoop sharpening = .ok ⟨2, false, [[1, 0, 0, 0]]⟩ after ∧
      Refinement.Outcome.Truthful 1 ⟨2, false, [[1, 0, 0, 0]]⟩ ∧
      after.executions "client" = 2 ∧ after.executions "judge" = 1 ∧
      after.executions "refiner" = 1 := by
  obtain ⟨after, driving, _⟩ := drive_sharpening
  have first : sharpening.Supplies 1 2 := ⟨"C", by decide +kernel, by decide +kernel⟩
  have second : sharpening.Supplies 2 3 := ⟨"P", by decide +kernel, by decide +kernel⟩
  have third : sharpening.Supplies 2 4 := ⟨"P", by decide +kernel, by decide +kernel⟩
  have waiting : ∀ i ∈ [2, 3, 4], i ∉ sharpening.schedule.done := by decide +kernel
  have downstream : ∀ i ∈ [2, 3, 4], Relation.TransGen sharpening.Supplies 1 i := by
    simp only [List.forall_mem_cons]
    exact ⟨.single first, .tail (.single first) second, .tail (.single first) third,
      fun _ member => absurd member List.not_mem_nil⟩
  have apart : ∀ i ∈ [3, 4], ¬ Relation.ReflTransGen sharpening.Supplies i 2 := by
    intro i member depends
    have makes : ∀ j ∈ [3, 4], ∀ artifact, sharpening.schedule.producer? artifact ≠ some j := by
      intro j among artifact found
      obtain ⟨declaration, atIndex, made⟩ := Schedule.makes_of_producer? found
      have nothing : ∀ j ∈ [3, 4], ∀ declaration ∈ sharpening.schedule.declarations[j]?,
          declaration.produces = [] := by decide +kernel
      rw [nothing j among declaration atIndex] at made
      cases made
    rcases depends.cases_head with rfl | ⟨j, supplies, _⟩
    · exact absurd member (by decide)
    · obtain ⟨artifact, _, found⟩ := supplies
      exact makes i member artifact found
  obtain ⟨_, ended⟩ := drive_truthful reached_sharpening sharpeningLoop
  obtain ⟨truthful, counted⟩ := ended _ after driving
  obtain ⟨client, others⟩ := counted 1 2 3 4 (by decide +kernel) (by decide +kernel)
    (by decide +kernel) (by decide +kernel) (by decide +kernel)
    (fun i member => ⟨waiting i member, downstream i member⟩) apart
  have before : ∀ name ∈ ["client", "judge", "refiner"], sharpening.executions name = 0 := by
    decide +kernel
  refine ⟨after, driving, truthful, ?_, ?_, ?_⟩
  · exact client.trans (congrArg (· + 2) (before "client" (by decide)))
  · exact (others "judge" (by decide)).trans (congrArg (· + 1) (before "judge" (by decide)))
  · exact (others "refiner" (by decide)).trans (congrArg (· + 1) (before "refiner" (by decide)))

end Session

end ProgramAnalysis
