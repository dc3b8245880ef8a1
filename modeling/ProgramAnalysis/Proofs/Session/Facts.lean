import ProgramAnalysis.Proofs.CallGraph.Sources
import ProgramAnalysis.Proofs.Session.Staleness
import ProgramAnalysis.Proofs.Session.Turns

/-!
Sessions whose tasks read facts off the program. Such a task works on the store only. It leaves the
facts of other tasks in place, so that after any runs the relations of done tasks hold what is so of
the program, and can be loaded.
-/

namespace ProgramAnalysis

open Schedule Step FactRelation

/-- A task that reads facts off the program, call targets being replaced through a remap. -/
inductive Task.IsFact (remap : Remap) : Task → Prop where
  | domain (domain : FactDomain) : IsFact remap (.ofDomain domain)
  | relation (relation : FactRelation) (used : Remap) :
    (relation = .invokeTargets → used = remap) → IsFact remap (.ofRelation relation used)

namespace Session

variable {program : Program} {remap : Remap} {session before after : Session} {i root : Nat}
  {name : String}

/-! ### Bodies -/

theorem perform_fact {run : Runner} {task : Task} {end_ : Body × Session}
    (fact : task.IsFact remap) (factual : session.store.Factual session.program)
    (performed : perform run (task.body, session) = .ok () end_) :
    ∃ store, end_ = (task.body, { session with store }) ∧ store.Factual session.program ∧
      ∀ relation : FactRelation, relation.name = task.name ∨
        relation.RecordedBy remap session.program session.store →
          relation.RecordedBy remap session.program store := by
  obtain ⟨_, _, got, rest⟩ := bind_eq_ok.mp performed
  cases got
  cases fact with
  | domain domain =>
    obtain ⟨_, stepping, rfl⟩ := onPart_eq_ok.mp rest
    obtain ⟨store, publishing, rfl⟩ := onPart_eq_ok.mp stepping
    obtain ⟨factual', keeps⟩ := factual.publish_domain publishing
    refine ⟨store, rfl, factual', fun relation either => either.elim (fun same => ?_) (keeps _)⟩
    exact absurd same (by cases relation <;> cases domain <;> decide)
  | relation relation used same =>
    obtain ⟨_, stepping, rfl⟩ := onPart_eq_ok.mp rest
    obtain ⟨store, publishing, rfl⟩ := onPart_eq_ok.mp stepping
    rw [publish_remap same] at publishing
    obtain ⟨factual', recorded, keeps⟩ := factual.publish_relation publishing
    refine ⟨store, rfl, factual', fun other either => either.elim (fun same => ?_) (keeps _)⟩
    rwa [eq_of_fileOf (congrArg Store.fileOf same)]

/-! ### Turns -/

theorem isDone_eq_ok : session.isDone name = .ok true ↔
    ∃ i, session.schedule.find? name = some i ∧ i ∈ session.schedule.done := by
  unfold isDone index
  cases session.schedule.find? name with
  | none => simp [Except.map]
  | some i => simp [Except.map, Schedule.isDone]

/-- All tasks read facts off a program, and what those that are done have made is there. -/
structure Published (program : Program) (remap : Remap) (session : Session) : Prop where
  sound : session.Sound
  isProgram : session.program = program
  tasks : ∀ slot ∈ session.schedule.slots, ∀ task, slot.task = some task → task.IsFact remap
  producing : ∀ declaration ∈ session.schedule.declarations,
    declaration.name ∈ declaration.produces
  factual : session.store.Factual program
  recorded : ∀ relation : FactRelation, session.isDone relation.name = .ok true →
    relation.RecordedBy remap program session.store

theorem Turn.published (turn : Turn i before after) (published : before.Published program remap) :
    after.Published program remap := by
  have sound := turn.ran.sound
  have declared := turn.ran.continues.declared
  have isDoneAfter {j : Nat} := @Turn.mem_done _ _ _ j turn
  obtain ⟨run, slot, task, body, left, atIndex, full, quiet, performed, rfl⟩ := turn.performed
  have isSlot := List.mem_of_getElem? atIndex
  obtain rfl := published.isProgram
  obtain ⟨store, leaves, factual, recorded⟩ := @perform_fact _ (before.enter i) _ _ _
    (published.tasks slot isSlot task full) published.factual performed
  have schedule := Turn.schedule_leave quiet performed
  cases leaves
  refine ⟨sound, rfl, ?_, declared ▸ published.producing, factual, fun relation isDone =>
    recorded relation ?_⟩
  · intro other mem changed inSlot
    rw [schedule] at mem
    rcases mem_slots_put mem with old | ⟨_, _, rfl⟩
    · rcases mem_slots_put old with old | ⟨_, _, rfl⟩
      · exact published.tasks other old changed inSlot
      · cases inSlot
    · cases inSlot
      exact published.tasks slot isSlot task full
  · obtain ⟨j, found, isDone⟩ := isDone_eq_ok.mp isDone
    rw [find?_congr declared] at found
    rcases isDoneAfter.mp isDone with rfl | earlier
    · obtain ⟨declaration, there, named⟩ := find?_eq_some found
      rw [getElem?_declarations, atIndex, Option.map_some, Option.some.injEq] at there
      rw [← (turn.sound.contained slot isSlot task full).1] at there
      exact .inl (there ▸ named.symm)
    · exact .inr (published.recorded relation (isDone_eq_ok.mpr ⟨j, found, earlier⟩))

theorem Turns.published (turns : Turns root before after)
    (published : before.Published program remap) : after.Published program remap := by
  induction turns with
  | refl => exact published
  | tail _ step ih =>
    obtain ⟨_, _, turn⟩ := step
    exact turn.published ih

/-! ### Requests -/

theorem exists_find?_of_run (running : run name session = .ok () after) :
    ∃ root, session.schedule.find? name = some root := by
  obtain ⟨_, _, got, rest⟩ := bind_eq_ok.mp running
  cases got
  rw [depthBound, runAfterNeeds] at rest
  obtain ⟨root, _, queried, _⟩ := bind_eq_ok.mp rest
  have ends : (query (·.schedule.index name)).Ends session
      (fun root _ => session.schedule.index name = .ok root) fun _ => True :=
    ends_query (fun _ => id) fun _ _ => trivial
  have answered := ends.of_ok queried
  unfold index at answered
  split at answered
  · next found => exact ⟨_, found⟩
  · cases answered

theorem Published.run (published : session.Published program remap)
    (running : run name session = .ok () after) : after.Published program remap := by
  obtain ⟨root, found⟩ := exists_find?_of_run running
  obtain ⟨declaration, there, _⟩ := find?_eq_some found
  have makes : session.schedule.Makes root declaration.name :=
    ⟨declaration, there, published.producing declaration (List.mem_of_getElem? there)⟩
  exact (turns_run published.sound found ⟨_, .inr makes⟩ running).1.published published

/-- Facts were published, or could be: no task has run yet. -/
structure Enrolled (program : Program) (remap : Remap) (session : Session) : Prop where
  published : session.Published program remap
  idle : ∀ i, i ∉ session.schedule.done

theorem Enrolled.of_idle (sound : session.Sound) (isProgram : session.program = program)
    (tasks : ∀ slot ∈ session.schedule.slots, ∀ task, slot.task = some task → task.IsFact remap)
    (producing : ∀ declaration ∈ session.schedule.declarations,
      declaration.name ∈ declaration.produces)
    (factual : session.store.Factual program) (idle : ∀ i, i ∉ session.schedule.done) :
    session.Enrolled program remap := by
  refine ⟨⟨sound, isProgram, tasks, producing, factual, fun relation isDone => ?_⟩, idle⟩
  obtain ⟨i, _, isDone⟩ := isDone_eq_ok.mp isDone
  exact absurd isDone (idle i)

theorem keeps_declare_fact (relation : FactRelation) :
    Keeps (Enrolled program remap) (declare relation.name relation.signature) := by
  intro session enrolled
  refine Ends.bind (ends_query (fun store answered => ?_) fun _ _ => enrolled)
  obtain ⟨⟨sound, isProgram, tasks, producing, factual, _⟩, idle⟩ := enrolled
  exact Ends.modify (.of_idle (sound.of_quiet (.of_eq rfl rfl)) isProgram tasks producing
    (factual.declare answered) idle)

theorem Enrolled.register (enrolled : session.Enrolled program remap) {task : Task}
    (fact : task.IsFact remap) : (register task).Always session (Enrolled program remap) := by
  obtain ⟨⟨sound, isProgram, tasks, producing, factual, _⟩, idle⟩ := id enrolled
  have contained : task.Contained := by
    cases fact <;> exact .quiet rfl
  refine always_register sound.consistent enrolled (fun extended enrolled => ?_) ?_
  · obtain ⟨slots, sameDone⟩ := Schedule.slots_of_enroll enrolled
    refine .of_idle (sound.extend contained enrolled) isProgram
      (forall_task_extended slots tasks fact) ?_ factual fun i isDone => idle i (sameDone ▸ isDone)
    intro declaration mem
    rw [declarations_extended slots] at mem
    rcases List.mem_append.mp mem with old | last
    · exact producing declaration old
    · rw [List.mem_singleton.mp last]
      cases fact <;> exact List.mem_singleton.mpr rfl
  · cases fact with
    | domain => exact nofun
    | relation relation =>
      intro entry mem
      rw [List.mem_singleton.mp mem]
      exact keeps_declare_fact relation

/-! ### The call graph of a session -/

section Agreement

variable {options : Options} {disk : Disk} {machine : Machine} {tasks : List Task}
  {names : List String}
  {registered : Session} {between store : Store} {containment targets : Relation}

/-- The call graph that is read off the relations after the tasks that compute them have run, and
the relations were loaded again, gives the same answers as the one read off the program, and both
give the same graph with contexts. -/
theorem callGraph_of_relations {program : Program} {remap : Remap} {options : Options}
    {disk : Disk} {machine : Machine} {tasks : List Task} {names : List String}
    {registered session : Session} {between store : Store} {containment targets : Relation}
    (accepted : program.validate = .ok ()) (facts : ∀ task ∈ tasks, task.IsFact remap)
    (registering : tasks.forM register (create options program disk machine) = .ok () registered)
    (running : names.forM run registered = .ok () session)
    (ranSites : session.isDone "MI" = .ok true) (ranCalls : session.isDone "IM" = .ok true)
    (loadingSites : Store.loadRelation "MI" session.store = .ok containment between)
    (loadingCalls : Store.loadRelation "IM" between = .ok targets store) :
    ∃ graph, PlainCallGraph.ofStore program store = .ok graph ∧
      graph.Agrees (.ofProgram program remap) ∧
      ∀ policy receivers, CallGraph.build graph policy receivers =
        CallGraph.build (.ofProgram program remap) policy receivers := by
  have enrolled : Enrolled program remap (create options program disk machine) :=
    .of_idle (sound_of_empty rfl) rfl nofun nofun ⟨nofun, nofun⟩ nofun
  have start : Enrolled program remap registered :=
    (Step.Ends.forM (fun task member _ enrolled => enrolled.register (facts task member))
      enrolled).of_ok registering
  have published : session.Published program remap :=
    (Step.Ends.forM (fun _ _ _ published => Step.Ends.of_forall_ok fun _ _ running =>
      published.run running) start.published).of_ok running
  obtain ⟨graph, read, agrees⟩ := PlainCallGraph.exists_ofStore
    (Program.valid_of_validate accepted) published.factual
    (published.recorded .methodInvokes ranSites) (published.recorded .invokeTargets ranCalls)
    loadingSites loadingCalls
  exact ⟨graph, read, agrees, agrees.build_eq⟩

/-- A program whose entry is not its first method. One call has a native method among its targets
that is replaced by a model, one has a target that is replaced by nothing, and one has no target. -/
abbrev relinking : Program where
  main := some 1
  methods := [{ signature := "native" }, { signature := "main", isStatic := true },
    { signature := "model" }, { signature := "gone" }]
  instructions := [⟨1, none, .invoke [0, 2, 0] none⟩, ⟨2, none, .invoke [] none⟩,
    ⟨1, none, .invoke [3] none⟩]

abbrev relinkingRemap : Remap := (Remap.empty.insert "native" "model").insert "gone" "nowhere"

abbrev relinkingTasks : List Task :=
  [.ofRelation .invokeTargets relinkingRemap, .ofDomain .invokes, .ofRelation .methodInvokes .empty,
    .ofDomain .methods]

/-- The session in which these tasks are registered. -/
def relinked : Session :=
  (relinkingTasks.forM register).final (create { workDir := "" } relinking .empty)

theorem register_relinking :
    relinkingTasks.forM register (create { workDir := "" } relinking .empty) = .ok () relinked := by
  have evaluated : ((relinkingTasks.forM register).outcome
      (create { workDir := "" } relinking .empty)).map (·.1) = .ok () := by decide +kernel
  obtain ⟨_, session, registered, _⟩ := Step.exists_of_outcome evaluated
  rw [relinked, final_of_ok registered, registered]

/-- The tasks are run, and both relations loaded again. -/
theorem run_relinked : ((["IM", "MI"].forM run).outcome relinked).map (fun ran =>
      (ran.2.isDone "MI", ran.2.isDone "IM",
        ((Store.loadRelation "MI").outcome ran.2.store).map fun loaded =>
          ((Store.loadRelation "IM").outcome loaded.2).map fun _ => ())) =
    .ok (.ok true, .ok true, .ok (.ok ())) := by
  decide +kernel

theorem callGraph_of_relations_relinked :
    ∃ session containment between targets store graph,
      ["IM", "MI"].forM run relinked = .ok () session ∧
      Store.loadRelation "MI" session.store = .ok containment between ∧
      Store.loadRelation "IM" between = .ok targets store ∧
      PlainCallGraph.ofStore relinking store = .ok graph ∧
      graph.roots = [1] ∧ graph.sitesOf 1 = [0, 2] ∧ graph.targetsOf 0 = [2] ∧
      graph.targetsOf 2 = [] ∧
      CallGraph.build graph (.callSite 1) .empty =
        CallGraph.build (.ofProgram relinking relinkingRemap) (.callSite 1) .empty := by
  have facts : ∀ task ∈ relinkingTasks, task.IsFact relinkingRemap := by
    simp only [relinkingTasks, List.forall_mem_cons]
    exact ⟨.relation _ _ fun _ => rfl, .domain _, .relation _ _ nofun, .domain _, nofun⟩
  obtain ⟨_, session, running, shown⟩ := Step.exists_of_outcome run_relinked
  obtain ⟨ranSites, shown⟩ := Prod.mk.inj shown
  obtain ⟨ranCalls, shown⟩ := Prod.mk.inj shown
  obtain ⟨containment, between, loadingSites, shown⟩ := Step.exists_of_outcome shown
  obtain ⟨targets, store, loadingCalls, _⟩ := Step.exists_of_outcome shown
  obtain ⟨graph, read, agrees, builds⟩ := callGraph_of_relations rfl facts register_relinking
    running ranSites ranCalls loadingSites loadingCalls
  refine ⟨session, containment, between, targets, store, graph, running, loadingSites,
    loadingCalls, read, agrees.roots, ?_, ?_, ?_, builds _ _⟩
  · exact (agrees.sitesOf 1).trans (by decide)
  · exact (agrees.targetsOf 0).trans (by decide)
  · exact (agrees.targetsOf 2).trans (by decide)

end Agreement

end Session

end ProgramAnalysis
