import ProgramAnalysis.Proofs.Session.Bodies

/-!
What running a task does to a sound session. The task is out of its slot while its body is under way
(`enter`). Whether the run succeeds or not the session stays sound, and a task that makes something
only lets tasks upstream of it become done (`Ran`). One statement about what runs the needs of a
task (`Runs`) is passed down through nested runs.
-/

namespace ProgramAnalysis.Session

open Schedule Step

variable {session after : Session} {i : Nat} {task : Task}

/-! ### Entering and leaving a body -/

/-- The session when the body of a task is entered. -/
def enter (session : Session) (i : Nat) : Session :=
  { session with
    schedule := session.schedule.put i none
    journal := session.journal ++ [.started (session.schedule.nameAt i)] }

theorem declarations_enter (session : Session) (i : Nat) :
    (session.enter i).schedule.declarations = session.schedule.declarations :=
  declarations_put _ _ _

theorem Sound.enter (sound : session.Sound) (registered : i < session.schedule.declarations.length)
    (undone : i ∉ session.schedule.done) : (session.enter i).Sound :=
  sound.put registered undone (sound.contained.put_none i) rfl

/-- What is known when the body of a task was left: the task is not done yet, nothing was noted
about it, and other tasks that were under way still are. -/
theorem leave_facts (registered : i < session.schedule.declarations.length)
    (undone : i ∉ session.schedule.done) (continues : (session.enter i).Continues after) :
    i ∉ after.schedule.done ∧ ∃ notes,
      after.journal =
        session.journal ++ .started (session.schedule.nameAt i) :: notes ∧
      (∀ entry ∈ notes, entry.task? ≠ some (session.schedule.nameAt i)) ∧
      ∀ j, session.schedule.Vacant j → i ≠ j → ∀ entry ∈ notes,
        entry.task? ≠ some (session.schedule.nameAt j) := by
  have empty : (session.enter i).schedule.Vacant i := vacant_put_none registered
  obtain ⟨notes, noted, others⟩ := continues.noted
  refine ⟨fun isDone => undone (continues.undone i empty isDone), notes, ?_, ?_, ?_⟩
  · rw [noted, enter, List.append_assoc, List.singleton_append]
  · rw [← nameAt_congr (declarations_enter session i)]
    exact others i empty
  · intro j vacant other
    rw [← nameAt_congr (declarations_enter session i)]
    exact others j (vacant.put other)

/-- Entering a body, leaving it and putting the task back continues the session, if the task was in
its slot. -/
theorem continues_leave (sound : session.Sound)
    (registered : i < session.schedule.declarations.length) (undone : i ∉ session.schedule.done)
    (full : ¬ session.schedule.Vacant i) (continues : (session.enter i).Continues after)
    {final : Session} {entry : JournalEntry}
    (about : entry.task? = some (session.schedule.nameAt i))
    (slots : final.schedule.slots = (after.schedule.restore i task).slots)
    (graph : final.schedule.graph = after.schedule.graph)
    (only : ∀ j ∈ final.schedule.done, j = i ∨ j ∈ after.schedule.done)
    (journal : final.journal = after.journal ++ [entry]) : session.Continues final := by
  obtain ⟨_, notes, noted, _, others⟩ := leave_facts registered undone continues
  have declared : final.schedule.declarations = after.schedule.declarations := by
    rw [declarations, slots]
    exact declarations_put _ _ _
  have another {j : Nat} (vacant : session.schedule.Vacant j) : i ≠ j := by
    rintro rfl
    exact full vacant
  refine ⟨?_, graph.trans continues.graph, ?_, ?_,
    .started (session.schedule.nameAt i) :: (notes ++ [entry]), ?_, ?_⟩
  · rw [declared, continues.declared, declarations_enter]
  · intro j vacant
    have still : (after.schedule.restore i task).Vacant j :=
      (continues.vacant j (vacant.put (another vacant))).put (another vacant)
    unfold Vacant at *
    rwa [slots]
  · intro j vacant isDone
    rcases only j isDone with rfl | old
    · exact absurd rfl (another vacant)
    · exact continues.undone j (vacant.put (another vacant)) old
  · rw [journal, noted, List.append_assoc, List.cons_append]
  · intro j vacant note mem same
    have named : session.schedule.nameAt i ≠ session.schedule.nameAt j := fun sameName =>
      another vacant (sound.consistent.nameAt_injective registered vacant.lt_length sameName)
    rcases List.mem_cons.mp mem with rfl | mem
    · exact named (Option.some.inj same)
    · rcases List.mem_append.mp mem with earlier | last
      · exact others j vacant (another vacant) note earlier same
      · rw [List.mem_singleton.mp last, about, Option.some.injEq] at same
        exact named same

/-! ### One run -/

/-- No task stopped being done, and those that became done are among some. -/
structure Advances (among : Nat → Prop) (before after : Session) : Prop where
  kept : ∀ i ∈ before.schedule.done, i ∈ after.schedule.done
  only : ∀ i ∈ after.schedule.done, i ∈ before.schedule.done ∨ among i

/-- What a run of a task leaves behind, whether it succeeded or not. If the task makes something,
then it does not drive a refinement loop, and only tasks among some become done. -/
structure Ran (i : Nat) (among : Nat → Prop) (before after : Session) : Prop where
  sound : after.Sound
  continues : before.Continues after
  advances : ∀ artifact, before.schedule.Makes i artifact → Advances among before after

theorem Ran.refl (sound : session.Sound) : Ran i among session session :=
  ⟨sound, .refl session, fun _ _ => ⟨fun _ => id, fun _ => .inl⟩⟩

/-- The task that made an artifact before is done now. -/
def Made (before : Session) (artifact : String) (after : Session) : Prop :=
  ∃ p, before.schedule.producer? artifact = some p ∧ p ∈ after.schedule.done

/-- A task is run, and is done afterwards if and only if that succeeds. -/
def Attempts (among : Nat → Prop) (i : Nat) (session : Session) (step : Step Session Unit) : Prop :=
  step.Ends session (fun _ after => Ran i among session after ∧ i ∈ after.schedule.done)
    fun after => Ran i among session after ∧ i ∉ after.schedule.done

theorem ends_take (session : Session) (i : Nat) :
    (onPart Session.schedule (fun session schedule => { session with schedule })
      (take i)).Ends session
      (fun task after => (∃ slot, session.schedule.slots[i]? = some slot ∧ slot.task = some task) ∧
        after = { session with schedule := session.schedule.put i none })
      (fun after => after = session) := by
  refine Ends.onPart (Ends.bind (Ends.get ?_))
  split
  · next task found =>
    obtain ⟨slot, atIndex, full⟩ := Option.bind_eq_some_iff.mp found
    exact Ends.bind ⟨⟨slot, atIndex, full⟩, rfl⟩
  · exact Ends.throw rfl

section Leaving

variable {task' : Task} (sound : session.Sound)
  (declared : session.schedule.declarations[i]? = some task.toDeclaration)
  (undone : i ∉ session.schedule.done) (full : ¬ session.schedule.Vacant i)
  (leftSound : after.Sound) (continues : (session.enter i).Continues after)
  (quiet : (session.enter i).Quiet after ∨ task.consumes = [] ∧ task.produces = [])
  (same : task'.toDeclaration = task.toDeclaration) (contained : task'.Contained)

include declared quiet in
theorem quiet_of_touches
    (touches : session.schedule.Needs i artifact ∨ session.schedule.Makes i artifact) :
    (session.enter i).Quiet after := by
  rcases quiet with quiet | ⟨needless, useless⟩
  · exact quiet
  · rcases touches with ⟨declaration, found, mem⟩ | ⟨declaration, found, mem⟩
    · cases declared.symm.trans found
      rw [needless] at mem
      cases mem
    · cases declared.symm.trans found
      rw [useless] at mem
      cases mem

include declared leftSound continues same contained in
theorem contained_leave : AllContained (after.schedule.restore i task') := by
  refine leftSound.contained.restore ?_ contained
  rw [continues.declared, declarations_enter, declared, same]

include sound declared undone full continues quiet in
/-- A task is put back after its body was left, and at most it became done since. -/
theorem ran_leave {final : Session} {entry : JournalEntry} (finalSound : final.Sound)
    (about : entry.task? = some (session.schedule.nameAt i))
    (slots : final.schedule.slots = (after.schedule.restore i task').slots)
    (graph : final.schedule.graph = after.schedule.graph)
    (only : ∀ j ∈ final.schedule.done, j = i ∨ j ∈ after.schedule.done)
    (kept : ∀ j ∈ after.schedule.done, j ∈ final.schedule.done)
    (journal : final.journal = after.journal ++ [entry]) : Ran i (· = i) session final := by
  refine ⟨finalSound, continues_leave sound (lt_of_getElem? declared) undone full continues about
    slots graph only journal, fun artifact makes => ?_⟩
  have still : after.schedule.done = session.schedule.done := by
    rw [(quiet_of_touches declared quiet (.inr makes)).schedule]
    rfl
  rw [still] at only kept
  exact ⟨kept, fun j isDone => (only j isDone).symm⟩

include sound declared undone full leftSound continues quiet same contained in
theorem ran_failed : Ran i (· = i) session { after with
    schedule := after.schedule.restore i task'
    journal := after.journal ++ [.failed (session.schedule.nameAt i)] } := by
  have registered := lt_of_getElem? declared
  have declarations := continues.declared.trans (declarations_enter session i)
  obtain ⟨stillUndone, _⟩ := leave_facts registered undone continues
  refine ran_leave sound declared undone full continues quiet ?_ rfl rfl rfl (fun _ => .inr)
    (fun _ => id) rfl
  refine leftSound.put (by rwa [declarations]) stillUndone
    (contained_leave declared leftSound continues same contained) ?_
  rw [nameAt_congr declarations]
  rfl

include sound declared undone full leftSound continues quiet same contained in
theorem ran_finished
    (met : ∀ artifact, session.schedule.Needs i artifact → session.Made artifact session) :
    Ran i (· = i) session { after with
      schedule := (after.schedule.restore i task').markDone i
      journal := after.journal ++ [.finished (session.schedule.nameAt i)] } := by
  have registered := lt_of_getElem? declared
  have declarations := continues.declared.trans (declarations_enter session i)
  have marked : ∀ j, j ∈ ((after.schedule.restore i task').markDone i).done ↔
      j = i ∨ j ∈ after.schedule.done := fun j => SortedSet.mem_insert
  obtain ⟨stillUndone, notes, noted, others, _⟩ := leave_facts registered undone continues
  refine ran_leave sound declared undone full continues quiet ?_ rfl rfl rfl
    (fun j => (marked j).mp) (fun j isDone => (marked j).mpr (.inr isDone)) rfl
  have ran : LastRun (after.journal ++ [.finished (session.schedule.nameAt i)])
      (session.schedule.nameAt i) session.journal.length
      (session.journal.length + 1 + notes.length) := by
    rw [noted, List.append_assoc, List.cons_append]
    exact lastRun_finished others
  rw [← nameAt_congr declarations] at ran ⊢
  refine leftSound.finish (by rwa [declarations]) stillUndone
    (contained_leave declared leftSound continues same contained) ran ?_
  intro artifact needs
  rw [needs_congr declarations] at needs
  obtain ⟨p, found, makerDone⟩ := met artifact needs
  obtain ⟨start, stop, ran'⟩ := sound.completed p makerDone
  obtain ⟨still, silentNotes, silentlyNoted, silent⟩ :=
    quiet_of_touches declared quiet (.inl needs)
  refine ⟨p, by rwa [producer?_congr declarations], ?_, start, stop, ?_, ran'.stop_lt_length⟩
  · exact (congrArg done still).symm ▸ makerDone
  · rw [nameAt_congr declarations, silentlyNoted, enter, List.append_assoc]
    refine ran'.append fun entry mem => ?_
    rcases List.mem_append.mp mem with first | later
    · rw [List.mem_singleton.mp first]
      exact other_name sound registered undone rfl p makerDone
    · rw [silent entry later]
      exact nofun

end Leaving

/-- A task whose needs are met is done after its body exactly if that succeeds. -/
theorem ends_runBody {run : Runner} (safe : ∀ name, Safe (run name)) (sound : session.Sound)
    (undone : i ∉ session.schedule.done)
    (met : ∀ artifact, session.schedule.Needs i artifact → session.Made artifact session) :
    Attempts (· = i) i session (runBody run i) := by
  refine Ends.bind ((ends_take session i).mono ?_ ?_)
  · rintro task _ ⟨⟨slot, atIndex, inSlot⟩, rfl⟩
    obtain ⟨sameDeclaration, contained⟩ :=
      sound.contained slot (List.mem_of_getElem? atIndex) task inSlot
    have declared : session.schedule.declarations[i]? = some task.toDeclaration := by
      rw [getElem?_declarations, atIndex, sameDeclaration]
      rfl
    have registered := lt_of_getElem? declared
    have named : session.schedule.nameAt i = task.name := nameAt_of_getElem? declared
    have full : ¬ session.schedule.Vacant i := by
      rintro ⟨other, sameSlot, empty⟩
      rw [atIndex, Option.some.injEq] at sameSlot
      rw [← sameSlot, inSlot] at empty
      cases empty
    rw [← named]
    have body := perform_contained safe contained (sound.enter registered undone)
    refine Ends.bind (Ends.modify ?_)
    show Ends _ (session.enter i) _ _
    unfold Ends
    beta_reduce
    cases outcome : perform run (task.body, session.enter i) with
    | error fault left =>
      obtain ⟨stays, leftSound, continues, quiet⟩ := body.of_error outcome
      exact ⟨ran_failed sound declared undone full leftSound continues quiet rfl stays,
        (leave_facts registered undone continues).1⟩
    | ok _ left =>
      obtain ⟨stays, leftSound, continues, quiet⟩ := body.of_ok outcome
      exact ⟨ran_finished sound declared undone full leftSound continues quiet rfl stays met,
        SortedSet.mem_insert.mpr (.inl rfl)⟩
  · rintro _ rfl
    exact ⟨.refl sound, undone⟩

/-! ### Running what a task needs first -/

/-- The second task is the first, or needs what it makes, directly or not. -/
def Upstream (session : Session) (j i : Nat) : Prop :=
  Reachable session.schedule.graph.after [j] i

/-- What is expected of something that runs the task at an index once its needs are met. -/
def Launches (launch : Nat → Step Session Unit) : Prop :=
  ∀ (session : Session) (i : Nat), session.Sound → i ∉ session.schedule.done →
    (∀ artifact, session.schedule.Needs i artifact → session.Made artifact session) →
    Attempts (· = i) i session (launch i)

/-- What is expected of something that runs the task with a name. -/
def Runs (run : Runner) : Prop :=
  ∀ (session : Session) (name : String) (i : Nat), session.Sound →
    session.schedule.find? name = some i →
    (run name).Ends session
      (fun _ after => Ran i (session.Upstream · i) session after ∧ i ∈ after.schedule.done)
      (fun after => Ran i (session.Upstream · i) session after)

/-- The state of a session while what a task needs is being made: only tasks upstream of the task
became done. -/
structure Preparing (i : Nat) (before after : Session) : Prop where
  sound : after.Sound
  continues : before.Continues after
  advances : Advances (fun j => ∃ p, i ∈ before.schedule.graph.after p ∧ before.Upstream j p)
    before after

theorem Preparing.ran (preparing : Preparing i session after) :
    Ran i (session.Upstream · i) session after := by
  refine ⟨preparing.sound, preparing.continues, fun _ _ => ⟨preparing.advances.kept, ?_⟩⟩
  intro j isDone
  rcases preparing.advances.only j isDone with old | ⟨p, edge, upstream⟩
  · exact .inl old
  · exact .inr (.step upstream edge)

theorem Preparing.undone (preparing : Preparing i session after) (sound : session.Sound)
    (undone : i ∉ session.schedule.done) : i ∉ after.schedule.done := by
  intro isDone
  rcases preparing.advances.only i isDone with old | ⟨p, edge, upstream⟩
  · exact undone old
  · exact Graph.not_reachable_of_edge sound.consistent.acyclic edge upstream

theorem producerOf_eq_ok (consistent : session.schedule.Consistent)
    (needs : session.schedule.Needs i artifact)
    (answered : session.producerOf artifact consumer = .ok producer) :
    ∃ p, session.schedule.producer? artifact = some p ∧ i ∈ session.schedule.graph.after p ∧
      session.schedule.find? producer = some p := by
  unfold producerOf at answered
  split at answered
  · next p found =>
    cases answered
    have makes := makes_of_producer? found
    refine ⟨p, found, (consistent.edges p i).mpr ⟨artifact, makes, needs⟩, ?_⟩
    obtain ⟨declaration, atIndex, _⟩ := makes
    rw [nameAt_of_getElem? atIndex]
    exact consistent.find?_of_getElem? atIndex
  · cases answered

theorem mem_needs : artifact ∈ session.needs i ↔ session.schedule.Needs i artifact := by
  unfold needs Needs
  rw [getElem?_declarations]
  cases session.schedule.slots[i]? with
  | none => simp
  | some slot => simp

theorem Preparing.step {run : Runner} (runs : Runs run) (preparing : Preparing i session between)
    (needs : session.schedule.Needs i artifact) :
    (query (·.producerOf artifact name) >>= run).Ends between
      (fun _ after => Preparing i session after ∧ session.Made artifact after ∧
        ∀ other, session.Made other between → session.Made other after) (Preparing i session) := by
  refine Ends.bind (ends_query (fun producer answered => ?_) fun _ _ => preparing)
  have declared := preparing.continues.declared
  have graph := preparing.continues.graph
  obtain ⟨p, found, edge, named⟩ :=
    producerOf_eq_ok preparing.sound.consistent ((needs_congr declared).mpr needs) answered
  have makes := makes_of_producer? found
  have prepared (after : Session) (ran : Ran p (between.Upstream · p) between after) :
      Preparing i session after := by
    have advances := ran.advances artifact makes
    refine ⟨ran.sound, preparing.continues.trans ran.continues,
      fun j isDone => advances.kept j (preparing.advances.kept j isDone), fun j isDone => ?_⟩
    rcases advances.only j isDone with old | upstream
    · exact preparing.advances.only j old
    · refine .inr ⟨p, graph ▸ edge, ?_⟩
      rwa [Upstream, graph] at upstream
  refine (runs between _ p preparing.sound named).mono ?_ prepared
  rintro _ after ⟨ran, isDone⟩
  refine ⟨prepared after ran, ⟨p, ?_, isDone⟩, ?_⟩
  · rwa [← producer?_congr declared]
  · rintro other ⟨q, foundOther, otherDone⟩
    exact ⟨q, foundOther, (ran.advances artifact makes).kept q otherDone⟩

/-- Runs a task after everything it needs, unless it has run. `inner` runs what it needs. -/
def runOnce (inner : Runner) (launch : Nat → Step Session Unit) (name : String) :
    Step Session Unit := do
  let index ← query (·.schedule.index name)
  let session ← get
  unless session.schedule.isDone index do
    for artifact in session.needs index do
      let producer ← query (·.producerOf artifact name)
      inner producer
    launch index

/-- A task that was not done is launched in a session in which everything it needs is made, one
after the other. -/
theorem ends_runOnce {inner : Runner} {launch : Nat → Step Session Unit} (prepared : Session → Prop)
    (found : session.schedule.find? name = some i)
    (ran : i ∈ session.schedule.done → finished () session) (start : prepared session)
    (declared : ∀ between, prepared between →
      between.schedule.declarations = session.schedule.declarations)
    (makes : i ∉ session.schedule.done → ∀ artifact between, session.schedule.Needs i artifact →
      prepared between → (query (·.producerOf artifact name) >>= inner).Ends between
        (fun _ after => prepared after ∧ session.Made artifact after ∧
          ∀ other, session.Made other between → session.Made other after) failed)
    (launches : i ∉ session.schedule.done → ∀ between, prepared between →
      (∀ artifact, between.schedule.Needs i artifact → between.Made artifact between) →
      (launch i).Ends between finished failed) :
    (runOnce inner launch name).Ends session finished failed := by
  refine Ends.bind (ends_query (fun j answered => ?_) fun fault answered => ?_)
  · obtain rfl : i = j := by
      rw [index, found] at answered
      exact Except.ok.inj answered
    refine Ends.bind (Ends.get ?_)
    split
    · next isDone => exact ran (of_decide_eq_true isDone)
    · next undone =>
      have undone : i ∉ session.schedule.done := fun isDone => undone (decide_eq_true isDone)
      refine Ends.bind ((@Ends.forIn _ _ _ _ _ _ _ session.Made
        (fun artifact mem between kept => ?_)
        start).mono ?_ fun _ => id)
      · simp only [← bind_assoc]
        exact Ends.bind ((makes undone artifact between (mem_needs.mp mem) kept).mono
          (fun _ _ kept' => ⟨rfl, kept'⟩) fun _ => id)
      · rintro _ between ⟨kept, met, _⟩
        refine launches undone between kept fun artifact needs => ?_
        have same := declared between kept
        obtain ⟨p, made, isDone⟩ := met artifact (mem_needs.mpr ((needs_congr same).mp needs))
        exact ⟨p, (producer?_congr same artifact).trans made, isDone⟩
  · rw [index, found] at answered
    cases answered

theorem attempts_runAfterNeeds {launch : Nat → Step Session Unit} (launches : Launches launch)
    (runs : Runs (runAfterNeeds launch depth)) (sound : session.Sound)
    (found : session.schedule.find? name = some i) :
    Attempts (session.Upstream · i) i session (runAfterNeeds launch (depth + 1) name) := by
  have start : Preparing i session session := ⟨sound, .refl session, fun _ => id, fun _ => .inl⟩
  refine ends_runOnce (Preparing i session) found (fun isDone => ⟨.refl sound, isDone⟩) start
    (fun _ preparing => preparing.continues.declared)
    (fun undone artifact between needs preparing =>
      (preparing.step runs needs).mono (fun _ _ => id) fun after preparing =>
        ⟨preparing.ran, preparing.undone sound undone⟩) fun undone between preparing met => ?_
  have ran (after : Session) (ran : Ran i (· = i) between after) :
      Ran i (session.Upstream · i) session after := by
    refine ⟨ran.sound, preparing.continues.trans ran.continues, fun artifact makes => ?_⟩
    have advances := preparing.ran.advances artifact makes
    have advances' := ran.advances artifact ((makes_congr preparing.continues.declared).mpr makes)
    refine ⟨fun j isDone => advances'.kept j (advances.kept j isDone), fun j isDone => ?_⟩
    rcases advances'.only j isDone with old | rfl
    · exact advances.only j old
    · exact .inr (.start (List.mem_singleton.mpr rfl))
  exact (launches between i preparing.sound (preparing.undone sound undone) met).mono
    (fun _ after kept => ⟨ran after kept.1, kept.2⟩) fun after kept => ⟨ran after kept.1, kept.2⟩

/-! ### Nested runs -/

theorem runs_runAfterNeeds {launch : Nat → Step Session Unit} (launches : Launches launch)
    (depth : Nat) : Runs (runAfterNeeds launch depth) := by
  induction depth with
  | zero => exact fun session name i sound _ => Ends.throw (.refl sound)
  | succ depth ih =>
    intro session name i sound found
    exact (attempts_runAfterNeeds launches ih sound found).mono (fun _ _ => id) fun _ => And.left

theorem safe_runAfterNeeds {launch : Nat → Step Session Unit} (launches : Launches launch)
    (depth : Nat) (name : String) : Safe (runAfterNeeds launch depth name) := by
  intro session sound
  cases found : session.schedule.find? name with
  | some i =>
    exact (runs_runAfterNeeds launches depth session name i sound found).mono
      (fun _ _ kept => ⟨kept.1.sound, kept.1.continues⟩) fun _ kept => ⟨kept.sound, kept.continues⟩
  | none =>
    cases depth with
    | zero => exact Ends.throw ⟨sound, .refl session⟩
    | succ depth =>
      rw [runAfterNeeds]
      refine Ends.bind (ends_query (fun i answered => ?_) fun _ _ => ⟨sound, .refl session⟩)
      rw [index, found] at answered
      cases answered

theorem launches_launch (full : Nat) : Launches (launch full) := by
  induction full with
  | zero =>
    intro session i sound undone _
    exact Ends.bind (Ends.get (Ends.throw ⟨.refl sound, undone⟩))
  | succ full ih =>
    intro session i sound undone met
    refine Ends.bind (Ends.get ?_)
    exact ends_runBody (safe_runAfterNeeds ih session.depthBound) sound undone met

theorem ends_run (sound : session.Sound) (found : session.schedule.find? name = some i) :
    Attempts (session.Upstream · i) i session (run name) :=
  Ends.bind (Ends.get (attempts_runAfterNeeds (launches_launch _)
    (runs_runAfterNeeds (launches_launch _) _) sound found))

theorem safe_run (name : String) : Safe (run name) := fun session sound =>
  Ends.bind (Ends.get (safe_runAfterNeeds (launches_launch _) _ name session sound))

theorem safe_drive (loop : Refinement) : Safe (drive loop) := safe_driveFrom safe_run loop _ _

end ProgramAnalysis.Session
