import ProgramAnalysis.Proofs.Reachability
import ProgramAnalysis.Proofs.Session.Sound

/-!
What bodies do to a session. Most of them only work on the store and on the solver (`Silent`). The
others also run tasks and forget that tasks ran. All of them keep a session sound (`Safe`), if what
runs tasks for them does.
-/

namespace ProgramAnalysis.Session

open Step Schedule List

variable {α β : Type}

/-! ### Steps that leave the schedule alone -/

/-- The schedule is the same, and no note was made about a task. -/
structure Quiet (before after : Session) : Prop where
  schedule : after.schedule = before.schedule
  noted : ∃ notes, after.journal = before.journal ++ notes ∧ ∀ entry ∈ notes, entry.task? = none

variable {before after : Session}

theorem Quiet.of_eq (schedule : after.schedule = before.schedule)
    (journal : after.journal = before.journal) : before.Quiet after :=
  ⟨schedule, [], by rw [journal, append_nil], nofun⟩

theorem Quiet.refl (session : Session) : session.Quiet session := .of_eq rfl rfl

variable {first second third : Session}

theorem Quiet.trans (quiet : first.Quiet second) (quiet' : second.Quiet third) :
    first.Quiet third := by
  obtain ⟨schedule, notes, noted, silent⟩ := quiet
  obtain ⟨schedule', notes', noted', silent'⟩ := quiet'
  refine ⟨schedule'.trans schedule, notes ++ notes', ?_, ?_⟩
  · rw [noted', noted, append_assoc]
  · intro entry mem
    rcases mem_append.mp mem with earlier | later
    · exact silent entry earlier
    · exact silent' entry later

/-- A step that leaves the schedule alone. -/
def Silent (step : Step Session α) : Prop := ∀ session, step.Always session session.Quiet

theorem silent_pure (a : α) : Silent (pure a) := Quiet.refl

theorem silent_throw (fault : Fault) : Silent (throw fault : Step Session α) := Quiet.refl

variable {step : Step Session α} {f : α → Step Session β}

theorem Silent.bind (silent : Silent step) (silent' : ∀ a, Silent (f a)) : Silent (step >>= f) := by
  intro session
  refine Ends.bind ((silent session).mono (fun a between quiet => ?_) fun _ => id)
  exact (silent' a between).mono (fun _ _ => quiet.trans) fun _ => quiet.trans

variable {ι : Type} {items : List ι}

theorem silent_forM {f : ι → Step Session PUnit} (each : ∀ item ∈ items, Silent (f item)) :
    Silent (items.forM f) := by
  intro session
  refine Ends.forM (fun item mem between quiet => ?_) (Quiet.refl session)
  exact (each item mem between).mono (fun _ _ => quiet.trans) fun _ => quiet.trans

theorem silent_mapM {f : ι → Step Session α} (each : ∀ item, Silent (f item)) :
    Silent (items.mapM f) := by
  induction items with
  | nil => exact silent_pure []
  | cons item rest ih =>
    rw [mapM_cons]
    exact (each item).bind fun _ => ih.bind fun _ => silent_pure _

variable {session : Session}

theorem ends_query {f : Session → Except Fault α} {done : α → Session → Prop}
    (onDone : ∀ a, f session = .ok a → done a session)
    (onFailed : ∀ fault, f session = .error fault → failed session) :
    (query f).Ends session done failed := by
  unfold Ends query
  cases answer : f session with
  | ok a => exact onDone a answer
  | error fault => exact onFailed fault answer

theorem silent_query (f : Session → Except Fault α) : Silent (query f) := fun session =>
  ends_query (fun _ _ => Quiet.refl session) fun _ _ => Quiet.refl session

theorem silent_modify (schedule : ∀ session, (change session).schedule = session.schedule)
    (journal : ∀ session, (change session).journal = session.journal) : Silent (modify change) :=
  fun session => Quiet.of_eq (schedule session) (journal session)

theorem silent_onStore (step : Step Store α) : Silent (onStore step) := by
  intro session
  refine Ends.onPart ?_
  unfold Ends
  cases step session.store with
  | ok | error => exact .of_eq rfl rfl

theorem silent_note_solved (file : String) : Silent (note (.solved file)) := by
  intro session
  refine ⟨rfl, [.solved file], rfl, ?_⟩
  intro entry mem
  rw [mem_singleton.mp mem]
  rfl

theorem silent_solve (file : String) : Silent (solve file) := by
  intro session
  refine Ends.bind (Ends.get ?_)
  cases session.solver with
  | command => exact silent_onStore _ session
  | prepared answers calls =>
    refine ((silent_note_solved file).bind fun _ => Silent.bind ?_ fun _ => ?_) session
    · exact silent_modify (fun _ => rfl) fun _ => rfl
    · exact silent_onStore _

variable {run : Runner}

/-- What always holds after an action holds as well if its failure is tolerated. -/
theorem always_tolerate {action : Action} {session : Session} {post : Session → Prop}
    (always : (act run runs action).Always session post) :
    (act run runs (.tolerate action)).Always session post := by
  unfold act Always Ends
  dsimp only
  cases outcome : act run runs action session with
  | ok a after => exact always.of_ok outcome
  | error fault after => exact always.of_error outcome

theorem silent_act {action : Action} (quiet : action.callsBack = false) :
    Silent (act run runs action) := by
  induction action with
  | fail reason failing =>
    unfold act
    split
    · exact silent_throw _
    · exact silent_pure _
  | run | reset => cases quiet
  | putDomain any => exact silent_modify (fun _ => rfl) fun _ => rfl
  | fill | fillByRun | work => exact silent_onStore _
  | tolerate action ih => exact fun session => always_tolerate (ih quiet session)

/-! ### Steps that keep a session sound -/

/-- Declarations and dependencies are the same, and tasks that are under way stay so: they do not
become done, and no note was made about them. -/
structure Continues (before after : Session) : Prop where
  declared : after.schedule.declarations = before.schedule.declarations
  graph : after.schedule.graph = before.schedule.graph
  vacant : ∀ i, before.schedule.Vacant i → after.schedule.Vacant i
  undone : ∀ i, before.schedule.Vacant i → i ∈ after.schedule.done → i ∈ before.schedule.done
  noted : ∃ notes, after.journal = before.journal ++ notes ∧
    ∀ i, before.schedule.Vacant i → ∀ entry ∈ notes,
      entry.task? ≠ some (before.schedule.nameAt i)

theorem Quiet.continues (quiet : before.Quiet after) : before.Continues after := by
  obtain ⟨schedule, notes, noted, silent⟩ := quiet
  constructor
  · rw [schedule]
  · rw [schedule]
  · rw [schedule]
    exact fun _ => id
  · rw [schedule]
    exact fun _ _ => id
  · refine ⟨notes, noted, fun i _ entry mem same => ?_⟩
    rw [silent entry mem] at same
    cases same

theorem Continues.refl (session : Session) : session.Continues session := (Quiet.refl _).continues

theorem Continues.trans (continues : first.Continues second) (continues' : second.Continues third) :
    first.Continues third := by
  obtain ⟨declared, graph, vacant, undone, notes, noted, others⟩ := continues
  obtain ⟨declared', graph', vacant', undone', notes', noted', others'⟩ := continues'
  refine ⟨declared'.trans declared, graph'.trans graph, fun i empty => vacant' i (vacant i empty),
    fun i empty isDone => undone i empty (undone' i (vacant i empty) isDone), notes ++ notes',
    ?_, ?_⟩
  · rw [noted', noted, append_assoc]
  · intro i empty entry mem
    rcases mem_append.mp mem with earlier | later
    · exact others i empty entry earlier
    · rw [← nameAt_congr declared]
      exact others' i (vacant i empty) entry later

/-- A step that keeps a session sound, whether it succeeds or not. -/
def Safe (step : Step Session α) : Prop :=
  ∀ session, session.Sound → step.Always session fun after => after.Sound ∧ session.Continues after

theorem Sound.of_quiet (sound : before.Sound) (quiet : before.Quiet after) : after.Sound := by
  obtain ⟨schedule, notes, noted, silent⟩ := quiet
  refine sound.of_closed (congrArg declarations schedule)
    (congrArg graph schedule) (schedule ▸ sound.contained) (fun i => schedule ▸ id)
    (fun i _ p _ => schedule ▸ id) noted ?_
  intro i _ entry mem same
  rw [silent entry mem] at same
  cases same

theorem Silent.safe (silent : Silent step) : Safe step := by
  intro session sound
  exact (silent session).mono (fun _ after quiet => ⟨sound.of_quiet quiet, quiet.continues⟩)
    fun after quiet => ⟨sound.of_quiet quiet, quiet.continues⟩

theorem Safe.bind (safe : Safe step) (safe' : ∀ a, Safe (f a)) : Safe (step >>= f) := by
  intro session sound
  refine Ends.bind ((safe session sound).mono (fun a between kept => ?_) fun _ => id)
  exact (safe' a between kept.1).mono
    (fun _ _ kept' => ⟨kept'.1, kept.2.trans kept'.2⟩)
    fun _ kept' => ⟨kept'.1, kept.2.trans kept'.2⟩

/-! ### Forgetting that tasks ran -/

variable {i : Nat} {name : String}

theorem reset_eq_ok (found : session.schedule.find? name = some i) :
    reset name session = .ok () { session with schedule := session.schedule.reset i } := by
  have answer : query (·.schedule.index name) session = .ok i session := by
    rw [query, index, found]
  exact bind_eq_ok.mpr ⟨i, session, answer, rfl⟩

variable {indices : List Nat}

theorem forM_reset_eq_ok
    (named : ∀ i ∈ indices, session.schedule.find? (session.schedule.nameAt i) = some i) :
    (indices.map session.schedule.nameAt).forM reset session =
      .ok () { session with schedule := indices.foldl Schedule.reset session.schedule } := by
  induction indices generalizing session with
  | nil => rfl
  | cons i rest ih =>
    refine bind_eq_ok.mpr ⟨(), _, reset_eq_ok (named i mem_cons_self), ?_⟩
    exact @ih { session with schedule := session.schedule.reset i }
      fun j mem => named j (mem_cons_of_mem i mem)

theorem dependents_eq_ok {names : List String} (answered : session.dependents name = .ok names) :
    ∃ i indices, session.schedule.find? name = some i ∧
      session.schedule.dependents i = .ok indices ∧
      names = indices.map session.schedule.nameAt := by
  obtain ⟨i, found, rest⟩ := except_bind_eq_ok.mp answered
  obtain ⟨indices, reached, same⟩ := except_bind_eq_ok.mp rest
  cases same
  refine ⟨i, indices, ?_, reached, rfl⟩
  unfold index at found
  split at found
  · next j answer =>
    cases found
    exact answer
  · cases found

theorem find?_nameAt (consistent : session.schedule.Consistent) {j : Nat}
    (reached : Reachable session.schedule.graph.after (session.schedule.graph.after i) j) :
    session.schedule.find? (session.schedule.nameAt j) = some j := by
  have registered : j < session.schedule.declarations.length := by
    cases reached with
    | start edge | step _ edge => exact (consistent.vertices j).mp (consistent.closed _ _ edge)
  obtain ⟨declaration, atIndex⟩ := exists_of_lt registered
  rw [nameAt_of_getElem? atIndex]
  exact consistent.find?_of_getElem? atIndex

theorem invalidate_eq_ok {session : Session} (consistent : session.schedule.Consistent)
    {contexts : String} {i : Nat} {indices : List Nat}
    (found : session.schedule.find? contexts = some i)
    (reached : session.schedule.dependents i = .ok indices) :
    invalidate contexts session = .ok () { session with
      schedule := { session.schedule with
        done := session.schedule.done.filter (· ∉ i :: indices) } } := by
  have answered : session.dependents contexts = .ok (indices.map session.schedule.nameAt) := by
    rw [dependents, index, found]
    exact except_bind_eq_ok.mpr ⟨i, rfl, except_bind_eq_ok.mpr ⟨indices, reached, rfl⟩⟩
  have asked : query (·.dependents contexts) session =
      .ok (indices.map session.schedule.nameAt) session := by
    rw [query, answered]
  rw [← foldl_reset]
  refine bind_eq_ok.mpr ⟨_, session, asked, bind_eq_ok.mpr ⟨(), _, reset_eq_ok found, ?_⟩⟩
  refine @forM_reset_eq_ok { session with schedule := session.schedule.reset i } indices ?_
  intro j mem
  exact find?_nameAt consistent ((mem_dependents consistent reached).mp mem)

theorem ends_invalidate (consistent : session.schedule.Consistent) (contexts : String) :
    (invalidate contexts).Ends session
      (fun _ after => ∃ i, session.schedule.find? contexts = some i ∧
        ∃ done, after = { session with schedule := { session.schedule with done } } ∧
          ∀ j, j ∈ done ↔ j ∈ session.schedule.done ∧
            ¬ Reachable session.schedule.graph.after [i] j)
      (fun after => after = session) := by
  cases answered : session.dependents contexts with
  | error fault =>
    refine Ends.bind (ends_query (fun names other => ?_) fun _ _ => rfl)
    rw [answered] at other
    cases other
  | ok names =>
    obtain ⟨i, indices, found, reached, _⟩ := dependents_eq_ok answered
    unfold Ends
    rw [invalidate_eq_ok consistent found reached]
    refine ⟨i, found, _, rfl, fun j => ?_⟩
    rw [SortedSet.mem_filter, decide_eq_true_iff, mem_cons,
      mem_dependents consistent reached, reachable_singleton_iff]

/-- Forgetting contexts keeps a session sound: all tasks that depend on them are forgotten too. -/
theorem safe_invalidate (contexts : String) : Safe (invalidate contexts) := by
  intro session sound
  refine (ends_invalidate sound.consistent contexts).mono ?_ ?_
  · rintro _ _ ⟨i, _, done, rfl, kept⟩
    refine ⟨sound.of_closed rfl rfl sound.contained (fun j isDone => ((kept j).mp isDone).1) ?_
      (append_nil _).symm nofun, rfl, rfl, fun _ => id,
      fun j _ isDone => ((kept j).mp isDone).1, [], (append_nil _).symm, nofun⟩
    intro j isDone p edge makerDone
    exact (kept p).mpr ⟨makerDone, fun reached => ((kept j).mp isDone).2 (.step reached edge)⟩
  · rintro _ rfl
    exact ⟨sound, .refl _⟩

/-! ### Bodies -/

theorem silent_refinedSize (refined : Refined) : Silent (refinedSize refined) := silent_onStore _

theorem safe_driveFrom (safe : ∀ name, Safe (run name)) (loop : Refinement) (rounds : Nat)
    (outcome : Refinement.Outcome) : Safe (driveFrom run loop rounds outcome) := by
  induction rounds generalizing outcome with
  | zero => exact (safe loop.base).bind fun _ => (silent_pure _).safe
  | succ rounds ih =>
    refine (safe loop.base).bind fun _ => (safe loop.feedback).bind fun _ =>
      (safe loop.refinement).bind fun _ =>
      (silent_mapM silent_refinedSize).safe.bind fun sizes => ?_
    dsimp only
    split
    · exact (silent_pure _).safe
    · exact (safe_invalidate loop.contexts).bind fun _ => ih _

/-- A body that leaves the schedule alone still does so after it changed. -/
theorem perform_quiet {body : Body} (quiet : body.callsBack = false) (session : Session) :
    (perform run).Always (body, session) fun end_ =>
      end_.1.callsBack = false ∧ session.Quiet end_.2 := by
  have onSession {step : Step Session Unit} (silent : Silent step) {body : Body}
      (quiet : body.callsBack = false) :
      (onPart Prod.snd (fun (s : Body × Session) session => (s.1, session)) step).Always
        (body, session) fun end_ => end_.1.callsBack = false ∧ session.Quiet end_.2 :=
    Ends.onPart ((silent session).mono (fun _ _ kept => ⟨quiet, kept⟩)
      fun _ kept => ⟨quiet, kept⟩)
  refine Ends.bind ?_
  cases body with
  | script actions runs =>
    refine Ends.bind (onSession (silent_forM fun action mem => ?_) quiet)
    exact silent_act (Bool.eq_false_iff.mpr fun calls =>
      Bool.eq_false_iff.mp quiet (any_eq_true.mpr ⟨action, mem, calls⟩))
  | domain | relation | escape => exact onSession (silent_onStore _) quiet
  | contexts abstraction =>
    refine Ends.onPart (Ends.bind (Ends.onPart ?_))
    unfold Ends
    cases Abstraction.run session.options session.program (session.store, abstraction) with
    | ok | error => exact ⟨rfl, .of_eq rfl rfl⟩
  | refinement loop => cases quiet
  | datalog file outputs =>
    exact onSession ((silent_forM fun _ _ => silent_onStore _).bind fun _ =>
      silent_solve file) quiet

/-- What the body of a contained task does: the task stays contained and the session sound, and
unless the task needs and makes nothing the schedule is left alone. -/
theorem perform_contained (safe : ∀ name, Safe (run name)) {task : Task}
    (contained : task.Contained) (sound : session.Sound) :
    (perform run).Always (task.body, session) fun end_ =>
      Task.Contained { task with body := end_.1 } ∧ end_.2.Sound ∧ session.Continues end_.2 ∧
        (session.Quiet end_.2 ∨ task.consumes = [] ∧ task.produces = []) := by
  cases contained with
  | quiet quiet =>
    have kept (end_ : Body × Session) (holds : end_.1.callsBack = false ∧ session.Quiet end_.2) :
        Task.Contained { task with body := end_.1 } ∧ end_.2.Sound ∧ session.Continues end_.2 ∧
          (session.Quiet end_.2 ∨ task.consumes = [] ∧ task.produces = []) :=
      ⟨.quiet holds.1, sound.of_quiet holds.2, holds.2.continues, .inl holds.2⟩
    exact (perform_quiet quiet session).mono (fun _ => kept) kept
  | driver loop =>
    have looped : Safe (do
        let outcome ← driveWith run loop
        modify fun session =>
          { session with outcomes := session.outcomes.insert loop.name outcome }) :=
      (safe_driveFrom safe loop _ _).bind fun _ =>
        Silent.safe (silent_modify (fun _ => rfl) fun _ => rfl)
    refine Ends.bind (Ends.onPart ?_)
    exact (looped session sound).mono
      (fun _ _ kept => ⟨.driver loop, kept.1, kept.2, .inr ⟨rfl, rfl⟩⟩)
      fun _ kept => ⟨.driver loop, kept.1, kept.2, .inr ⟨rfl, rfl⟩⟩

end ProgramAnalysis.Session
