import ProgramAnalysis.Proofs.Registration
import ProgramAnalysis.Proofs.Session.Runs

/-!
No done task is ever stale. A session without tasks is sound, and every request keeps it sound: a
new task is not done, a run meets all needs first, and forgetting a task forgets whatever depends on
it.
-/

namespace ProgramAnalysis.Session

open List Schedule Step Session

variable {session : Session}

/-! ### Registering -/

/-- Adding a task to a schedule keeps a session sound: what done tasks need was made by others, so
the new task is not the maker of any of it. -/
theorem Sound.extend (sound : session.Sound) {task : Task} (contained : task.Contained)
    (enrolled : enroll task.toDeclaration task session.schedule = .ok () extended) :
    Sound { session with schedule := extended } := by
  obtain ⟨slots, sameDone⟩ := slots_of_enroll enrolled
  have declarations := declarations_extended slots
  have consistent := sound.consistent.of_enroll enrolled
  have old {i : Nat} (isDone : i ∈ extended.done) : i ∈ session.schedule.done := sameDone ▸ isDone
  have inside {i : Nat} (below : i < session.schedule.declarations.length) :
      extended.declarations[i]? = session.schedule.declarations[i]? := by
    rw [declarations, getElem?_append_left below]
  have named {i : Nat} (below : i < session.schedule.declarations.length) :
      extended.nameAt i = session.schedule.nameAt i := by
    rw [nameAt_eq, nameAt_eq, inside below]
  refine ⟨consistent, forall_task_extended slots sound.contained ⟨rfl, contained⟩, ?_, ?_, ?_⟩
  · intro i isDone
    rw [declarations, length_append]
    exact Nat.lt_add_right _ (sound.registered i (old isDone))
  · intro i isDone
    show ∃ start stop, LastRun session.journal (extended.nameAt i) start stop
    rw [named (sound.registered i (old isDone))]
    exact sound.completed i (old isDone)
  · intro i isDone artifact needs
    have below := sound.registered i (old isDone)
    have needsBefore : session.schedule.Needs i artifact := by
      rwa [Needs, inside below] at needs
    obtain ⟨p, found, makerDone, before⟩ := sound.current i (old isDone) artifact needsBefore
    have makes := (makes_extended slots p artifact).mpr (.inl (makes_of_producer? found))
    refine ⟨p, consistent.producer?_of_makes makes, sameDone.symm ▸ makerDone, ?_⟩
    show RanBefore session.journal (extended.nameAt p) (extended.nameAt i)
    rwa [named below, named (sound.registered p makerDone)]

theorem silent_declare (name : String) (sig : Signature) : Silent (declare name sig) :=
  (silent_query _).bind fun _ => silent_modify (fun _ => rfl) fun _ => rfl

/-- Registering a task keeps what adding it to the schedule and declaring its relations keep. -/
theorem always_register {task : Task} (consistent : session.schedule.Consistent)
    (initially : holds session)
    (extends_ : ∀ extended, enroll task.toDeclaration task session.schedule = .ok () extended →
      holds { session with schedule := extended })
    (declares : ∀ entry ∈ task.relations, Keeps holds (declare entry.1 entry.2)) :
    (register task).Always session holds := by
  refine Ends.bind (ends_query (fun _ _ => ?_) fun _ _ => initially)
  refine Ends.bind (Ends.onPart ((consistent.ends_enroll task.toDeclaration task).mono
    (fun _ extended enrolled => ?_) ?_))
  case refine_2 =>
    rintro _ rfl
    exact initially
  refine Keeps.bind (keeps_forIn fun entry mem => ?_) (fun _ => keeps_pure _) _
    (extends_ extended enrolled)
  exact (declares entry mem).bind fun _ => keeps_pure _

theorem sound_register (sound : session.Sound) {task : Task} (contained : task.Contained) :
    (register task).Always session Sound := by
  refine always_register sound.consistent sound (fun _ => sound.extend contained) ?_
  intro entry _ session sound
  exact (silent_declare entry.1 entry.2 session).mono (fun _ _ => sound.of_quiet)
    fun _ => sound.of_quiet

/-! ### Requests -/

/-- What a session can be asked for. -/
inductive Request where
  | register (task : Task)
  | run (task : String)
  | drive (loop : Refinement)
  | invalidate (contexts : String)

/-- The session after a request, whether that succeeded or not. -/
def serve (session : Session) : Request → Session
  | .register task => (Session.register task).final session
  | .run task => (run task).final session
  | .drive loop => (drive loop).final session
  | .invalidate contexts => (invalidate contexts).final session

/-- The session after some requests, one after the other. -/
def serveAll (session : Session) (requests : List Request) : Session :=
  requests.foldl serve session

theorem Sound.serve (sound : session.Sound)
    (contained : ∀ task, request = .register task → task.Contained) :
    (session.serve request).Sound := by
  cases request with
  | register task => exact (sound_register sound (contained task rfl)).final
  | run task => exact (safe_run task session sound).final.1
  | drive loop => exact (safe_drive loop session sound).final.1
  | invalidate contexts => exact (safe_invalidate contexts session sound).final.1

/-- A task that has nothing to do. -/
def idleTask (name : String) (consumes produces : List String) : Task where
  name := name
  consumes := consumes
  produces := produces
  relations := []
  body := .script [] 0

theorem Sound.serveAll (sound : session.Sound)
    (contained : ∀ task, .register task ∈ requests → task.Contained) :
    (session.serveAll requests).Sound := by
  induction requests generalizing session with
  | nil => exact sound
  | cons request rest ih =>
    refine ih (sound.serve ?_) fun task later =>
      contained task (mem_cons_of_mem request later)
    rintro task rfl
    exact contained task mem_cons_self

theorem Sound.undone_of_failed (sound : session.Sound)
    (failed : session.journal = earlier ++ .failed (session.schedule.nameAt i) :: later)
    (silent : ∀ entry ∈ later, entry.task? ≠ some (session.schedule.nameAt i)) :
    i ∉ session.schedule.done := by
  intro isDone
  obtain ⟨start, stop, ran⟩ := sound.completed i isDone
  rw [failed] at ran
  exact ran.not_failed silent

theorem Sound.mem_done_run (sound : session.Sound) (found : session.schedule.find? name = some i) :
    i ∈ (session.serve (.run name)).schedule.done ↔ ∃ after, run name session = .ok () after := by
  have ends := ends_run sound found
  show i ∈ ((run name).final session).schedule.done ↔ _
  cases outcome : run name session with
  | ok _ after =>
    rw [final_of_ok outcome]
    exact iff_of_true (ends.of_ok outcome).2 ⟨after, rfl⟩
  | error fault after =>
    rw [final_of_error outcome]
    refine iff_of_false (ends.of_error outcome).2 ?_
    rintro ⟨_, impossible⟩
    cases impossible

/-- Start without tasks. Whatever contained tasks are registered and run, whichever refinement loops
are driven and contexts forgotten, no done task is stale: everything it needs was made by a done
task whose last run had ended when its own last run started. A task whose last run failed is not
done, and a task that is asked for is done afterwards exactly if the request succeeded. -/
theorem never_stale (start : Session) (empty : start.schedule = .empty) (requests : List Request)
    (contained : ∀ task, .register task ∈ requests → task.Contained) :
    let session := start.serveAll requests
    session.Current ∧
      (∀ i earlier later, session.journal =
          earlier ++ .failed (session.schedule.nameAt i) :: later →
        (∀ entry ∈ later, entry.task? ≠ some (session.schedule.nameAt i)) →
        i ∉ session.schedule.done) ∧
      ∀ name i, session.schedule.find? name = some i →
        (i ∈ (session.serve (.run name)).schedule.done ↔
          ∃ after, run name session = .ok () after) := by
  intro session
  have sound : session.Sound := (sound_of_empty empty).serveAll contained
  exact ⟨sound.current, fun _ _ _ => sound.undone_of_failed, fun _ _ => sound.mem_done_run⟩

/-- Two tasks of which one needs what the other makes, and a loop that runs the second. -/
def renewalTasks : List Task :=
  [{ name := "maker", consumes := [], produces := ["points"], relations := [],
     body := .script [] 0 },
   { name := "user", consumes := ["points"], produces := [], relations := [],
     body := .script [] 0 },
   .ofRefinement ⟨"loop", "user", "user", "user", "maker", 0⟩]

/-- The maker is forgotten after it was used, and the loop asks for its user again. -/
def renewal : List Request :=
  renewalTasks.map .register ++ [.run "user", .invalidate "maker", .run "loop"]

theorem contained_renewal : ∀ task, .register task ∈ renewal → task.Contained := by
  intro task mem
  simp only [renewal, renewalTasks, map_cons, map_nil, cons_append, nil_append,
    mem_cons, Request.register.injEq, reduceCtorEq, not_mem_nil, or_false] at mem
  rcases mem with rfl | rfl | rfl
  · exact .quiet rfl
  · exact .quiet rfl
  · exact .driver _

/-- The session that serves these requests. -/
abbrev renewed : Session := (create default default default).serveAll renewal

theorem done_renewed : renewed.schedule.done.toList = [0, 1, 2] := by decide +kernel

theorem needs_renewed : renewed.schedule.Needs 1 "points" := by decide +kernel

theorem never_stale_renewed :
    1 ∈ renewed.schedule.done ∧ renewed.schedule.Needs 1 "points" ∧
      ∃ p, renewed.schedule.producer? "points" = some p ∧ p ∈ renewed.schedule.done ∧
        RanBefore renewed.journal (renewed.schedule.nameAt p) (renewed.schedule.nameAt 1) := by
  have isDone : 1 ∈ renewed.schedule.done := by
    rw [SortedSet.mem_def, done_renewed]
    decide
  have current := (never_stale (create default default default) rfl renewal contained_renewal).1
  exact ⟨isDone, needs_renewed, current 1 isDone "points" needs_renewed⟩

end ProgramAnalysis.Session
