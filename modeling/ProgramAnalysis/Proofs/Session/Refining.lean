import ProgramAnalysis.Proofs.Session.Numbered
import ProgramAnalysis.Proofs.Session.Staleness
import ProgramAnalysis.Proofs.Session.Turns

/-!
A refinement loop takes every step into account exactly once. Contexts are due between a step and
the next computation (`Due`), and then reflect it (`Renewed`). All tasks of the loop need what the
contexts task makes (`Wired`), so that each round computes contexts before anything is named, and
forgets them once something was.
-/

namespace ProgramAnalysis.Session

open Step List Schedule Refined

variable {session after : Session} {c root : Nat} {steps : List Store}

/-! ### Sessions whose domains are distinct -/

/-- Domains number every element once, and the bodies of tasks keep it so. -/
structure Tidy (session : Session) : Prop where
  numbered : session.Numbered
  proper : ∀ slot ∈ session.schedule.slots, ∀ task, slot.task = some task → task.body.Proper

theorem Turn.tidy (turn : Turn i before after) (tidy : before.Tidy) : after.Tidy := by
  obtain ⟨run, slot, task, body, left, atIndex, full, quiet, performed, rfl⟩ := turn.performed
  have numbered : (before.enter i).Numbered := tidy.numbered
  obtain ⟨proper, leftNumbered⟩ := numbered_perform quiet
    (tidy.proper slot (mem_of_getElem? atIndex) task full) numbered performed
  refine ⟨leftNumbered, fun other mem changed inSlot => ?_⟩
  rw [Turn.schedule_leave quiet performed] at mem
  rcases mem_slots_put mem with old | ⟨_, _, rfl⟩
  · rcases mem_slots_put old with old | ⟨_, _, rfl⟩
    · exact tidy.proper other old changed inSlot
    · cases inSlot
  · cases inSlot
    exact proper

/-- A sound session in which nothing has run. -/
structure Unstarted (session : Session) : Prop where
  sound : session.Sound
  tidy : session.Tidy
  idle : ∀ i, i ∉ session.schedule.done

theorem keeps_declare (name : String) (sig : Signature) : Keeps Unstarted (declare name sig) := by
  intro session unstarted
  refine Ends.bind (ends_query (fun store answered => ?_) fun _ _ => unstarted)
  have sameDomains : store.domains = session.store.domains := by
    unfold Store.declare at answered
    split at answered
    · cases answered
      rfl
    · split at answered
      · cases answered
        rfl
      · cases answered
  refine Ends.modify ⟨unstarted.sound.of_quiet (.of_eq rfl rfl), ⟨?_, unstarted.tidy.proper⟩,
    unstarted.idle⟩
  have numbered := unstarted.tidy.numbered
  unfold Numbered Store.Numbered at *
  rwa [sameDomains]

theorem Unstarted.register (unstarted : session.Unstarted) {task : Task}
    (contained : task.Contained) (proper : task.body.Proper) :
    (register task).Always session Unstarted := by
  refine always_register unstarted.sound.consistent unstarted (fun extended enrolled => ?_)
    fun entry _ => keeps_declare entry.1 entry.2
  obtain ⟨slots, sameDone⟩ := Schedule.slots_of_enroll enrolled
  refine ⟨unstarted.sound.extend contained enrolled, ⟨unstarted.tidy.numbered,
    Schedule.forall_task_extended slots unstarted.tidy.proper proper⟩, fun i isDone => ?_⟩
  exact unstarted.idle i (sameDone ▸ isDone)

theorem unstarted_registered {start : Session} (empty : start.schedule = .empty)
    (fresh : start.store.domains = .empty) {tasks : List Task}
    (contained : ∀ task ∈ tasks, task.Contained) (proper : ∀ task ∈ tasks, task.body.Proper) :
    (start.serveAll (tasks.map .register)).Unstarted := by
  have first : start.Unstarted := by
    refine ⟨sound_of_empty empty, ⟨?_, ?_⟩, ?_⟩
    · intro name any found
      rw [fresh] at found
      cases found
    · rw [empty]
      exact nofun
    · rw [empty]
      exact nofun
  rw [serveAll, foldl_map]
  refine List.foldlRecOn tasks _ first fun session unstarted task mem => ?_
  exact (unstarted.register (contained task mem) (proper task mem)).final

/-! ### Contexts that are due, and contexts that were renewed -/

/-- The abstraction of the task at an index, if it is one that computes contexts. -/
def abstractionAt? (session : Session) (c : Nat) : Option Abstraction := do
  let slot ← session.schedule.slots[c]?
  match (← slot.task).body with
  | .contexts abstraction => some abstraction
  | _ => none

/-- The abstraction of the task with a name, if it is one that computes contexts. -/
def abstraction? (session : Session) (name : String) : Option Abstraction :=
  (session.schedule.find? name).bind session.abstractionAt?

variable {abstraction : Abstraction}

theorem abstractionAt?_eq_some : session.abstractionAt? c = some abstraction ↔ ∃ slot task,
      session.schedule.slots[c]? = some slot ∧ slot.task = some task ∧
        task.body = .contexts abstraction := by
  constructor
  · intro found
    obtain ⟨slot, atIndex, rest⟩ := Option.bind_eq_some_iff.mp found
    obtain ⟨task, full, body⟩ := Option.bind_eq_some_iff.mp rest
    split at body
    · next same =>
      cases body
      exact ⟨slot, task, atIndex, full, same⟩
    · cases body
  · rintro ⟨slot, task, atIndex, full, body⟩
    refine Option.bind_eq_some_iff.mpr ⟨slot, atIndex, Option.bind_eq_some_iff.mpr ⟨task, full, ?_⟩⟩
    rw [body]

/-- What the next computation of contexts will do: start from nothing, or take the last of some
steps into account. In that case nothing but contexts and what depends on them has to be made before
a task is run. -/
inductive Pending (c root : Nat) (session : Session) : Abstraction → List Store → Prop where
  | first {abstraction : Abstraction} : abstraction.runs = 0 → Pending c root session abstraction []
  | later {abstraction : Abstraction} {earlier : List Store} {last : Store} :
    abstraction.runs ≠ 0 → abstraction.Reflects earlier → last.SameData session.store →
    (∀ i, session.Upstream i root → i ∈ session.schedule.done ∨ session.Upstream c i) →
    Pending c root session abstraction (earlier ++ [last])

/-- Contexts have to be computed before a task is run, and will then reflect some steps. -/
structure Due (c root : Nat) (steps : List Store) (session : Session) : Prop where
  tidy : session.Tidy
  undone : c ∉ session.schedule.done
  pending : ∃ abstraction, session.abstractionAt? c = some abstraction ∧
    Pending c root session abstraction steps

/-- Contexts have been computed and reflect some steps. -/
structure Renewed (c : Nat) (steps : List Store) (session : Session) : Prop where
  tidy : session.Tidy
  isDone : c ∈ session.schedule.done
  reflecting : ∃ abstraction, session.abstractionAt? c = some abstraction ∧
    abstraction.runs ≠ 0 ∧ abstraction.Reflects steps

/-! ### Turns -/

theorem Turn.abstractionAt?_other (turn : Turn i before after) (other : c ≠ i) :
    after.abstractionAt? c = before.abstractionAt? c := by
  rw [abstractionAt?, turn.slots_other other]
  rfl

/-- When the task that computes contexts has its turn, its abstraction is renewed. -/
theorem Turn.renews (turn : Turn c before after)
    (found : before.abstractionAt? c = some abstraction) :
    ∃ refined, after.abstractionAt? c = some refined ∧
      Abstraction.run before.options before.program (before.store, abstraction) =
        .ok () (after.store, refined) := by
  obtain ⟨slot, task, atIndex, full, body⟩ := abstractionAt?_eq_some.mp found
  obtain ⟨run, slot', task', changed, left, atIndex', full', quiet, performed, rfl⟩ :=
    turn.performed
  obtain rfl := Option.some.inj (atIndex.symm.trans atIndex')
  obtain rfl := Option.some.inj (full.symm.trans full')
  have schedule := Turn.schedule_leave quiet performed
  rw [body] at performed
  obtain ⟨refined, store, same, running⟩ := perform_contexts performed
  cases same
  refine ⟨refined, abstractionAt?_eq_some.mpr
    ⟨{ slot with task := some { task with body := .contexts refined } }, _, ?_, rfl, rfl⟩, running⟩
  rw [schedule]
  simp [markDone, Schedule.restore, put, atIndex]

theorem Due.turn_contexts (due : Due c root steps before) (turn : Turn c before after) :
    Renewed c steps after := by
  obtain ⟨abstraction, found, pending⟩ := due.pending
  obtain ⟨refined, found', running⟩ := turn.renews found
  refine ⟨turn.tidy due.tidy, turn.mem_done.mpr (.inl rfl), refined, found', ?_⟩
  cases pending with
  | first none => exact Abstraction.reflects_first_run none running
  | later runs reflects same _ =>
    obtain ⟨runs', reflects'⟩ := reflects.run runs due.tidy.numbered running
    exact ⟨runs', reflects'.congr_last same.symm⟩

/-- Once something was refined, no other task has its turn before contexts are computed: it would be
downstream of them, and what it needs is not made. -/
theorem Due.turn_other (due : Due c root steps before) (turn : Turn i before after)
    (upstream : before.Upstream i root) (other : c ≠ i) : Due c root steps after := by
  obtain ⟨abstraction, found, pending⟩ := due.pending
  have undone : c ∉ after.schedule.done := by
    rw [turn.mem_done]
    rintro (same | isDone)
    · exact other same
    · exact due.undone isDone
  refine ⟨turn.tidy due.tidy, undone, abstraction, ?_, ?_⟩
  · rw [turn.abstractionAt?_other other, found]
  · cases pending with
    | first none => exact .first none
    | later runs reflects same settled =>
      rcases settled i upstream with isDone | downstream
      · exact absurd isDone turn.undone
      · cases downstream with
        | start mem => exact absurd (mem_singleton.mp mem).symm other
        | step reached edge =>
          exact absurd (turn.sound.done_of_upstream reached (turn.met _ edge)) due.undone

theorem Renewed.turn (renewed : Renewed c steps before) (turn : Turn i before after) :
    Renewed c steps after := by
  have other : c ≠ i := by
    rintro rfl
    exact turn.undone renewed.isDone
  refine ⟨turn.tidy renewed.tidy, turn.mem_done.mpr (.inr renewed.isDone), ?_⟩
  rw [turn.abstractionAt?_other other]
  exact renewed.reflecting

theorem Renewed.turns (renewed : Renewed c steps before) (turns : Turns root before after) :
    Renewed c steps after := by
  induction turns with
  | refl => exact renewed
  | tail _ step ih =>
    obtain ⟨i, _, turn⟩ := step
    exact ih.turn turn

theorem Due.turns (due : Due c root steps before) (turns : Turns root before after) :
    Due c root steps after ∨ Renewed c steps after := by
  induction turns with
  | refl => exact .inl due
  | tail _ step ih =>
    obtain ⟨i, upstream, turn⟩ := step
    rcases ih with due | renewed
    · by_cases same : c = i
      · subst same
        exact .inr (due.turn_contexts turn)
      · exact .inl (due.turn_other turn upstream same)
    · exact .inr (renewed.turn turn)

theorem Turns.mem_done (turns : Turns root before after) (isDone : i ∈ before.schedule.done) :
    i ∈ after.schedule.done := by
  induction turns with
  | refl => exact isDone
  | tail _ step ih =>
    obtain ⟨_, _, turn⟩ := step
    exact turn.mem_done.mpr (.inr ih)

/-! ### Rounds -/

/-- The tasks of a loop are there, and need what its contexts task makes, directly or not. -/
structure Wired (loop : Refinement) (c : Nat) (session : Session) : Prop where
  contexts : session.schedule.find? loop.contexts = some c
  tasks : ∀ name ∈ [loop.base, loop.feedback, loop.refinement], ∃ root,
    session.schedule.find? name = some root ∧
      Reachable session.schedule.graph.after (session.schedule.graph.after c) root

variable {loop : Refinement}

theorem Wired.continues (wired : Wired loop c before) (continues : before.Continues after) :
    Wired loop c after := by
  constructor
  · rw [Schedule.find?_congr continues.declared]
    exact wired.contexts
  · intro name mem
    rw [Schedule.find?_congr continues.declared, continues.graph]
    exact wired.tasks name mem

/-- The dependents of the contexts task are wired to it. -/
theorem Sound.wired (sound : session.Sound) {names : List String}
    (found : session.schedule.find? loop.contexts = some c)
    (answered : session.dependents loop.contexts = .ok names)
    (among : ∀ name ∈ [loop.base, loop.feedback, loop.refinement], name ∈ names) :
    Wired loop c session := by
  refine ⟨found, fun name mem => ?_⟩
  obtain ⟨c', indices, found', reached, rfl⟩ := dependents_eq_ok answered
  obtain rfl := Option.some.inj (found.symm.trans found')
  obtain ⟨root, dependent, rfl⟩ := mem_map.mp (among name mem)
  have downstream := (mem_dependents sound.consistent reached).mp dependent
  exact ⟨root, find?_nameAt sound.consistent downstream, downstream⟩

theorem Wired.turns (wired : Wired loop c session) (sound : session.Sound)
    (mem : name ∈ [loop.base, loop.feedback, loop.refinement])
    (running : run name session = .ok () after) :
    ∃ root, session.schedule.find? name = some root ∧ session.Upstream c root ∧
      Turns root session after ∧ after.Sound ∧ session.Continues after ∧
      root ∈ after.schedule.done := by
  obtain ⟨root, found, downstream⟩ := wired.tasks name mem
  obtain ⟨q, needed⟩ : ∃ q, root ∈ session.schedule.graph.after q := by
    cases downstream with
    | start edge => exact ⟨c, edge⟩
    | step _ edge => exact ⟨_, edge⟩
  obtain ⟨artifact, _, needs⟩ := (sound.consistent.edges q root).mp needed
  exact ⟨root, found, reachable_singleton_iff.mpr (.inr downstream),
    turns_run sound found ⟨artifact, .inl needs⟩ running⟩

theorem Due.run (due : Due c root steps session) (wired : Wired loop c session)
    (sound : session.Sound) (found : session.schedule.find? loop.base = some root)
    (running : run loop.base session = .ok () after) :
    after.Sound ∧ session.Continues after ∧ Renewed c steps after ∧ root ∈ after.schedule.done := by
  obtain ⟨root', found', upstream, turns, sound', continues, isDone⟩ :=
    wired.turns sound mem_cons_self running
  obtain rfl := Option.some.inj (found.symm.trans found')
  refine ⟨sound', continues, ?_, isDone⟩
  rcases due.turns turns with stillDue | renewed
  · refine absurd (sound'.done_of_upstream ?_ isDone) stillDue.undone
    rwa [Upstream, continues.graph]
  · exact renewed

/-- Runs the client, judges its results and refines. -/
def refineOnce (loop : Refinement) : Step Session Unit := do
  run loop.base
  run loop.feedback
  run loop.refinement

theorem Due.refineOnce (due : Due c root steps session) (wired : Wired loop c session)
    (sound : session.Sound) (found : session.schedule.find? loop.base = some root)
    (refining : refineOnce loop session = .ok () after) :
    after.Sound ∧ session.Continues after ∧ Renewed c steps after ∧ root ∈ after.schedule.done := by
  obtain ⟨_, first, running, rest⟩ := bind_eq_ok.mp refining
  obtain ⟨_, second, judging, naming⟩ := bind_eq_ok.mp rest
  obtain ⟨sound, continues, renewed, isDone⟩ := due.run wired sound found running
  obtain ⟨_, _, _, turns, sound', continues', _⟩ :=
    (wired.continues continues).turns sound (.tail _ (.head _)) judging
  obtain ⟨_, _, _, turns', sound'', continues'', _⟩ :=
    (wired.continues (continues.trans continues')).turns sound' (.tail _ (.tail _ (.head _))) naming
  exact ⟨sound'', (continues.trans continues').trans continues'',
    (renewed.turns turns).turns turns', turns'.mem_done (turns.mem_done isDone)⟩

/-! ### Between rounds -/

/-- How many things of each sort are named in a store. -/
def sizesOf (store : Store) : List Nat :=
  reported.map fun part => (store.tuplesOf part.relation).length

theorem refinedSize_eq_ok (counting : refinedSize part session = .ok size after) :
    size = (session.store.tuplesOf part.relation).length ∧
      ∃ store, after = { session with store } ∧ session.store.SameData store := by
  unfold refinedSize onStore at counting
  obtain ⟨store, loading, rfl⟩ := onPart_eq_ok.mp counting
  obtain ⟨rel, _, opening, rest⟩ := bind_eq_ok.mp loading
  obtain ⟨_, number, rest⟩ := ofExcept_bind_eq_ok.mp rest
  obtain ⟨_, _, closing, finished⟩ := bind_eq_ok.mp rest
  cases finished
  obtain ⟨tuples, contents, same⟩ := except_bind_eq_ok.mp number
  cases same
  refine ⟨?_, store, rfl, (Store.loadRelation_eq_ok opening).1.trans
    (Store.closeRelation_eq_ok closing)⟩
  rw [Store.tuplesOf_eq (Store.loadRelation_eq_ok_iff.mp opening).1 contents]
  rfl

theorem mapM_refinedSize_eq_ok {parts : List Refined}
    (counting : parts.mapM refinedSize session = .ok sizes after) :
    sizes = (parts.map fun part => (session.store.tuplesOf part.relation).length) ∧
      ∃ store, after = { session with store } ∧ session.store.SameData store := by
  induction parts generalizing session sizes with
  | nil =>
    cases counting
    exact ⟨rfl, _, rfl, .refl _⟩
  | cons part rest ih =>
    rw [mapM_cons] at counting
    obtain ⟨size, between, first, later⟩ := bind_eq_ok.mp counting
    obtain ⟨others, _, further, listed⟩ := bind_eq_ok.mp later
    cases listed
    obtain ⟨rfl, store, rfl, same⟩ := refinedSize_eq_ok first
    obtain ⟨rfl, store', rfl, same'⟩ := ih further
    refine ⟨?_, store', rfl, same.trans same'⟩
    simp only [map_cons, same.tuplesOf]

variable {store : Store}

theorem tuplesOf_of_sizesOf (none : (sizesOf store).all (· = 0) = true) (part : Refined) :
    store.tuplesOf part.relation = [] := by
  have listed : part ∈ reported := by
    cases part <;> decide
  have zero := all_eq_true.mp none _ (mem_map_of_mem listed)
  exact eq_nil_of_length_eq_zero (of_decide_eq_true zero)

theorem Renewed.of_sameData (renewed : Renewed c steps session)
    (same : session.store.SameData store) : Renewed c steps { session with store } :=
  ⟨⟨same.numbered renewed.tidy.numbered, renewed.tidy.proper⟩, renewed.isDone, renewed.reflecting⟩

/-- Forgetting renewed contexts makes them due, with what is named now as a further step. -/
theorem Renewed.invalidate (renewed : Renewed c steps session) (wired : Wired loop c session)
    (sound : session.Sound) (isDone : root ∈ session.schedule.done) {last : Store}
    (same : last.SameData session.store)
    (forgetting : invalidate loop.contexts session = .ok () after) :
    Due c root (steps ++ [last]) after := by
  obtain ⟨c', found, done, rfl, kept⟩ :=
    (ends_invalidate sound.consistent loop.contexts).of_ok forgetting
  obtain rfl := Option.some.inj (wired.contexts.symm.trans found)
  obtain ⟨abstraction, there, runs, reflects⟩ := renewed.reflecting
  refine ⟨⟨renewed.tidy.numbered, renewed.tidy.proper⟩,
    fun still => ((kept c).mp still).2 (Upstream.refl session c), abstraction, there,
    .later runs reflects same fun i upstream => ?_⟩
  -- everything upstream of the client was done, so what is not done now was forgotten
  have wasDone : i ∈ session.schedule.done := sound.done_of_upstream upstream isDone
  by_cases downstream : session.Upstream c i
  · exact .inr downstream
  · exact .inl ((kept i).mpr ⟨wasDone, downstream⟩)

/-! ### Loops -/

/-- Goes through a loop up to the end of the refinement step with a number, counting from zero. -/
def refinementStep (loop : Refinement) : Nat → Step Session Unit
  | 0 => refineOnce loop
  | count + 1 => do
    refineOnce loop
    let _ ← reported.mapM refinedSize
    invalidate loop.contexts
    refinementStep loop count

variable {outcome : Refinement.Outcome}

/-- A round that refines. It is the last one if nothing was named, and otherwise contexts are
forgotten before the next. -/
theorem driveFrom_succ_eq_ok
    (driving : driveFrom run loop (rounds + 1) outcome session = .ok result after) :
    ∃ refined store, refineOnce loop session = .ok () refined ∧
      refined.store.SameData store ∧
      reported.mapM refinedSize refined =
        .ok (sizesOf refined.store) { refined with store } ∧
      ((sizesOf refined.store).all (· = 0) = true ∧ after = { refined with store } ∧
          result = ⟨outcome.iterations + 1, true, outcome.refinements ++ [sizesOf refined.store]⟩ ∨
        ∃ next, ¬ (sizesOf refined.store).all (· = 0) = true ∧
          invalidate loop.contexts { refined with store } = .ok () next ∧
          driveFrom run loop rounds
            { outcome with
              iterations := outcome.iterations + 1
              refinements := outcome.refinements ++ [sizesOf refined.store] } next =
            .ok result after) := by
  obtain ⟨_, first, running, rest⟩ := bind_eq_ok.mp driving
  obtain ⟨_, second, judging, rest⟩ := bind_eq_ok.mp rest
  obtain ⟨_, refined, naming, rest⟩ := bind_eq_ok.mp rest
  obtain ⟨sizes, _, counting, rest⟩ := bind_eq_ok.mp rest
  obtain ⟨counts, store, rfl, same⟩ := mapM_refinedSize_eq_ok counting
  obtain rfl : sizes = sizesOf refined.store := counts
  have refining : refineOnce loop session = .ok () refined :=
    bind_eq_ok.mpr ⟨(), first, running, bind_eq_ok.mpr ⟨(), second, judging, naming⟩⟩
  refine ⟨refined, store, refining, same, counting, ?_⟩
  dsimp only at rest
  split at rest
  · next nothing =>
    cases rest
    exact .inl ⟨nothing, rfl, rfl⟩
  · next something =>
    obtain ⟨_, next, forgetting, further⟩ := bind_eq_ok.mp rest
    exact .inr ⟨next, something, forgetting, further⟩

/-- What a loop leaves behind when its contexts are due: the steps it took, and contexts that
reflect these steps after the earlier ones. -/
theorem Due.driveFrom (due : Due c root steps session) (wired : Wired loop c session)
    (sound : session.Sound) (found : session.schedule.find? loop.base = some root)
    (driving : driveFrom Session.run loop rounds outcome session = .ok result after) :
    ∃ reached : List Session,
      (∀ j step, reached[j]? = some step → refinementStep loop j session = .ok () step) ∧
      result.refinements = outcome.refinements ++ reached.map (sizesOf ·.store) ∧
      after.schedule.declarations = session.schedule.declarations ∧
      ∃ abstraction, after.abstractionAt? c = some abstraction ∧
        abstraction.Reflects (steps ++ reached.map (·.store)) := by
  induction rounds generalizing session outcome steps with
  | zero =>
    obtain ⟨_, _, running, finished⟩ := bind_eq_ok.mp driving
    cases finished
    obtain ⟨_, continues, renewed, _⟩ := due.run wired sound found running
    obtain ⟨abstraction, there, _, reflects⟩ := renewed.reflecting
    refine ⟨[], fun j step mem => ?_, (append_nil _).symm, continues.declared, abstraction,
      there, ?_⟩
    · cases mem
    · rwa [map_nil, append_nil]
  | succ rounds ih =>
    obtain ⟨refined, store, refining, same, counting, ended⟩ := driveFrom_succ_eq_ok driving
    obtain ⟨soundRefined, continues, renewed, isDone⟩ := due.refineOnce wired sound found refining
    rcases ended with ⟨nothing, rfl, rfl⟩ | ⟨next, _, forgetting, further⟩
    · obtain ⟨abstraction, there, _, reflects⟩ := renewed.reflecting
      refine ⟨[refined], fun j step mem => ?_, by rw [map_singleton], continues.declared,
        abstraction, there, ?_⟩
      · cases j with
        | zero =>
          cases mem
          exact refining
        | succ j => cases mem
      · rw [map_singleton]
        exact reflects.concat_of_empty (tuplesOf_of_sizesOf nothing)
    · have quiet : refined.Quiet { refined with store } := .of_eq rfl rfl
      have counted := continues.trans quiet.continues
      have soundCounted := soundRefined.of_quiet quiet
      have dueNext := (renewed.of_sameData same).invalidate (wired.continues counted) soundCounted
        isDone same forgetting
      obtain ⟨soundNext, forgot⟩ := (safe_invalidate loop.contexts _ soundCounted).of_ok forgetting
      have onward := counted.trans forgot
      obtain ⟨reached, states, listed, declared, abstraction, there, reflects⟩ :=
        ih dueNext (wired.continues onward) soundNext
          (by rwa [Schedule.find?_congr onward.declared]) further
      refine ⟨refined :: reached, fun j step mem => ?_, ?_, declared.trans onward.declared,
        abstraction, there, ?_⟩
      · cases j with
        | zero =>
          cases mem
          exact refining
        | succ j =>
          exact bind_eq_ok.mpr ⟨(), refined, refining, bind_eq_ok.mpr
            ⟨_, _, counting, bind_eq_ok.mpr ⟨(), next, forgetting, states j step mem⟩⟩⟩
      · rw [listed, append_assoc, map_cons, singleton_append]
      · rwa [append_assoc] at reflects

/-- How many of some steps named an element. -/
def timesNamed (part : Refined) (reached : List Session) (element : part.kind.Elem) : Nat :=
  reached.countP (element ∈ part.named ·.store)

/-- Start without tasks and domains, register contained tasks, and drive a loop whose client, judge
and refiner need what its contexts task makes, directly or not. Whatever an earlier session has left
on disk, if the loop succeeds then every step it took counts exactly once: contexts through a site
keep one site more for each step that named it, and exactly the methods and variables that some step
named have become sensitive. -/
theorem refinements_applied_once (start : Session) (empty : start.schedule = .empty)
    (fresh : start.store.domains = .empty) (tasks : List Task)
    (contained : ∀ task ∈ tasks, task.Contained) (proper : ∀ task ∈ tasks, task.body.Proper)
    (loop : Refinement) (names : List String) (outcome : Refinement.Outcome) (after : Session) :
    let session := start.serveAll (tasks.map .register)
    session.abstraction? loop.contexts = some {} → session.dependents loop.contexts = .ok names →
    (∀ name ∈ [loop.base, loop.feedback, loop.refinement], name ∈ names) →
    drive loop session = .ok outcome after →
    ∃ (reached : List Session) (abstraction : Abstraction),
      (∀ j step, reached[j]? = some step → refinementStep loop j session = .ok () step) ∧
      outcome.refinements = reached.map (sizesOf ·.store) ∧
      after.abstraction? loop.contexts = some abstraction ∧
      (∀ (options : Options) (site : InstId),
        options.objectDepth + timesNamed .allocations reached site < Numeral.sizeLimit →
        abstraction.objectDepth options site =
          options.objectDepth + timesNamed .allocations reached site) ∧
      (∀ (options : Options) (site : InstId),
        options.callDepth + timesNamed .invokes reached site < Numeral.sizeLimit →
        abstraction.callDepth options site =
          options.callDepth + timesNamed .invokes reached site) ∧
      (∀ method, method ∈ abstraction.promoted ↔
        ∃ step ∈ reached, method ∈ Refined.methods.named step.store) ∧
      ∀ program plans var, var ∈ Abstraction.sensitiveVariables abstraction program plans ↔
        var ∈ Abstraction.sensitiveVariables {} program plans ∨
          ∃ step ∈ reached, var ∈ Refined.vars.named step.store := by
  intro session there answered among driving
  have unstarted : session.Unstarted := unstarted_registered empty fresh contained proper
  obtain ⟨c, found, atIndex⟩ := Option.bind_eq_some_iff.mp there
  have wired := unstarted.sound.wired found answered among
  obtain ⟨root, foundBase, _⟩ := wired.tasks loop.base List.mem_cons_self
  have due : Due c root [] session :=
    ⟨unstarted.tidy, unstarted.idle c, {}, atIndex, .first rfl⟩
  obtain ⟨reached, states, listed, declared, abstraction, atIndex', reflects⟩ :=
    due.driveFrom wired unstarted.sound foundBase driving
  rw [List.nil_append] at reflects
  refine ⟨reached, abstraction, states, listed, ?_, fun options site small => ?_,
    fun options site small => ?_, fun method => ?_, fun program plans var => ?_⟩
  · rw [abstraction?, Schedule.find?_congr declared, found]
    exact atIndex'
  · rw [(reflects.depths site).1, List.countP_map]
    exact Nat.mod_eq_of_lt small
  · rw [(reflects.depths site).2, List.countP_map]
    exact Nat.mod_eq_of_lt small
  · simp [reflects .methods method]
  · rw [Abstraction.mem_sensitiveVariables, reflects .vars var, or_comm]
    simp

/-- A task that publishes the domains of a program with one allocation site. -/
def sharpeningFacts : Task where
  name := "facts"
  consumes := []
  produces := ["M", "V", "H", "I", "IM", "VH"]
  relations := []
  body := .script [.putDomain ⟨.method, ⟨"M", [], false⟩⟩, .putDomain ⟨.var, ⟨"V", [], false⟩⟩,
    .putDomain ⟨.instruction, ⟨"H", [0], false⟩⟩, .putDomain ⟨.instruction, ⟨"I", [], false⟩⟩] 0

/-- A refiner that names the allocation site whenever it is run. -/
def sharpeningRefiner : Task where
  name := "refiner"
  consumes := ["P"]
  produces := []
  relations := []
  body := .script [.fill "refineH" [[0]]] 0

def sharpeningTasks : List Task :=
  [sharpeningFacts, .contexts, idleTask "client" ["C"] ["P"], idleTask "judge" ["P"] [],
    sharpeningRefiner]

/-- A session over what an earlier one has left on disk, which named the site as well. -/
def sharpeningStart : Session :=
  create { workDir := "" } { instructions := [⟨0, none, .new 0 none⟩] }
    ⟨⟨[(["IM.tuples"], .file (.text "# I0:0 M0:0\n# order=I0xM0\n")),
      (["VH.tuples"], .file (.text "# V0:0 H0:1\n# order=V0_H0\n")),
      (["refineH.tuples"], .file (.text "# H0:1\n# order=H0\n0\n")),
      (["refineI.tuples"], .file (.text "# I0:0\n# order=I0\n")),
      (["refineM.tuples"], .file (.text "# M0:0\n# order=M0\n")),
      (["refineV.tuples"], .file (.text "# V0:0\n# order=V0\n"))]⟩⟩

/-- A loop that may take one step. -/
def sharpeningLoop : Refinement := ⟨"sharpening", "client", "judge", "refiner", "ctxts", 1⟩

/-- The session in which these tasks are registered. -/
abbrev sharpening : Session := sharpeningStart.serveAll (sharpeningTasks.map .register)

theorem proper_sharpening : ∀ task ∈ sharpeningTasks, task.Contained ∧ task.body.Proper := by
  intro task mem
  simp only [sharpeningTasks, mem_cons, not_mem_nil, or_false] at mem
  rcases mem with rfl | rfl | rfl | rfl | rfl
  · exact ⟨.quiet rfl, by simp [sharpeningFacts, Body.Proper, Action.Proper]⟩
  · exact ⟨.quiet rfl, trivial⟩
  · exact ⟨.quiet rfl, by simp [idleTask, Body.Proper]⟩
  · exact ⟨.quiet rfl, by simp [idleTask, Body.Proper]⟩
  · exact ⟨.quiet rfl, by simp [sharpeningRefiner, Body.Proper, Action.Proper]⟩

theorem drive_sharpening :
    ∃ after, drive sharpeningLoop sharpening = .ok ⟨2, false, [[1, 0, 0, 0]]⟩ after ∧
      ∃ step, refineOnce sharpeningLoop sharpening = .ok () step ∧
        allocations.named step.store = [0] := by
  have evaluated : ((drive sharpeningLoop).outcome sharpening).map (·.1) =
      .ok ⟨2, false, [[1, 0, 0, 0]]⟩ := by decide +kernel
  have evaluatedStep : ((refineOnce sharpeningLoop).outcome sharpening).map
      (allocations.named ·.2.store) = .ok [0] := by decide +kernel
  obtain ⟨_, after, driving, rfl⟩ := exists_of_outcome evaluated
  obtain ⟨_, step, refining, named⟩ := exists_of_outcome evaluatedStep
  exact ⟨after, driving, step, refining, named⟩

theorem refinements_applied_once_sharpening :
    ∃ after abstraction,
      drive sharpeningLoop (sharpeningStart.serveAll (sharpeningTasks.map .register)) =
        .ok ⟨2, false, [[1, 0, 0, 0]]⟩ after ∧
      after.abstraction? "ctxts" = some abstraction ∧ abstraction.objectDepth {} 0 = 2 := by
  have contained := fun task member => (proper_sharpening task member).1
  have proper := fun task member => (proper_sharpening task member).2
  have there : sharpening.abstraction? "ctxts" = some {} := by decide +kernel
  have dependents : sharpening.dependents "ctxts" = .ok ["client", "judge", "refiner"] := by
    decide +kernel
  obtain ⟨after, driving, step, refining, named⟩ := drive_sharpening
  obtain ⟨steps, abstraction, states, listed, there', depths, _⟩ :=
    refinements_applied_once sharpeningStart rfl rfl sharpeningTasks contained proper sharpeningLoop
      _ _ after there dependents (by decide) driving
  refine ⟨after, abstraction, driving, there', ?_⟩
  obtain ⟨only, rfl, _⟩ := List.map_eq_singleton_iff.mp listed.symm
  cases (states 0 only rfl).symm.trans refining
  have once : timesNamed .allocations [step] 0 = 1 := by
    rw [timesNamed, List.countP_singleton, named]
    decide
  have depth := depths {} 0
  rw [once] at depth
  exact depth (by decide)

end ProgramAnalysis.Session
