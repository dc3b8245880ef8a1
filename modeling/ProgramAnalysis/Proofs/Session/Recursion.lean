import ProgramAnalysis.Proofs.Graph.Completeness
import ProgramAnalysis.Proofs.Session.Outline
import ProgramAnalysis.Proofs.Session.Staleness

/-!
Runs end, whatever bodies ask for. Entering a body takes its task out, so that the number of full
slots bounds how deep runs can nest, and cutting runs off at any depth beyond it makes no
difference. The bound in the definition of running is therefore never met, and runs satisfy the
equation without it (`run_eq_runVia`).
-/

namespace ProgramAnalysis.Session

open List Schedule

variable {session before after : Session} {name : String} {i : Nat}

/-! ### What can still nest -/

/-- How many tasks are in their slots. -/
def held (session : Session) : Nat := session.schedule.outline.countP (·.task.isSome)

/-- A bound on how deep runs can nest when a task is asked for. -/
noncomputable def allowance (session : Session) (name : String) : Nat :=
  session.held * session.schedule.declarations.length +
    match session.schedule.find? name with
    | some i => session.schedule.graph.rank i + 1
    | none => 0

theorem Alike.held (alike : before.Alike after) : after.held = before.held := by
  rw [Session.held, alike.outline, Session.held]

theorem Alike.depthBound (alike : before.Alike after) : after.depthBound = before.depthBound := by
  rw [Session.depthBound, Session.depthBound, ← length_declarations, alike.declared,
    length_declarations]

theorem Alike.allowance (alike : before.Alike after) (name : String) :
    after.allowance name = before.allowance name := by
  rw [Session.allowance, Session.allowance, alike.held, alike.declared, alike.find? name,
    alike.graph]

theorem Alike.enter (alike : before.Alike after) (i : Nat) :
    (before.enter i).Alike (after.enter i) := by
  refine ⟨ext_getElem? fun j => ?_, alike.graph⟩
  rw [Session.enter, Session.enter, getElem?_outline_put, getElem?_outline_put, alike.outline]

theorem depthBound_enter (session : Session) (i : Nat) :
    (session.enter i).depthBound = session.depthBound := by
  rw [depthBound, depthBound, ← length_declarations, declarations_enter, length_declarations]

theorem held_enter (registered : i < session.schedule.declarations.length)
    (full : ¬ session.schedule.Vacant i) : (session.enter i).held + 1 = session.held := by
  rw [vacant_iff] at full
  have inside : i < session.schedule.outline.length := by
    rwa [outline, length_map, ← length_declarations]
  have emptied : (session.enter i).schedule.outline =
      session.schedule.outline.set i { session.schedule.outline[i] with task := none } := by
    refine ext_getElem? fun j => ?_
    rw [enter, getElem?_outline_put, getElem?_set]
    by_cases here : i = j
    · subst here
      simp [inside]
    · simp [here]
  have isHeld : session.schedule.outline[i].task.isSome = true := by
    cases task : session.schedule.outline[i].task with
    | none => exact absurd ⟨_, getElem?_eq_getElem inside, task⟩ full
    | some task => rfl
  have some : 0 < session.schedule.outline.countP (·.task.isSome) :=
    countP_pos_iff.mpr ⟨_, getElem_mem inside, isHeld⟩
  rw [held, emptied, countP_set inside, held, isHeld]
  simp
  omega

theorem held_le (session : Session) : session.held ≤ session.schedule.declarations.length := by
  rw [held, length_declarations, ← length_map, ← outline]
  exact countP_le_length

theorem lt_of_find? (found : session.schedule.find? name = some i) :
    i < session.schedule.declarations.length := by
  obtain ⟨declaration, atIndex, _⟩ := find?_eq_some found
  exact lt_of_getElem? atIndex

namespace Intact

variable (intact : session.Intact)
include intact

theorem rank_lt (registered : i < session.schedule.declarations.length) :
    session.schedule.graph.rank i < session.schedule.declarations.length :=
  Graph.rank_lt_of_vertices intact.consistent.acyclic intact.consistent.vertices registered

theorem allowance_le (name : String) : session.allowance name ≤
    (session.held + 1) * session.schedule.declarations.length := by
  rw [allowance, Nat.add_mul, Nat.one_mul]
  refine Nat.add_le_add_left ?_ _
  split
  · next i found => exact intact.rank_lt (lt_of_find? found)
  · exact Nat.zero_le _

theorem allowance_lt (name : String) :
    session.allowance name < session.depthBound * session.depthBound := by
  refine Nat.lt_of_le_of_lt (intact.allowance_le name) ?_
  rw [depthBound, ← length_declarations]
  exact Nat.mul_lt_mul_of_le_of_lt (Nat.succ_le_succ session.held_le) (Nat.lt_succ_self _)
    (Nat.succ_pos _)

theorem allowance_need (found : session.schedule.find? name = some i)
    (edge : i ∈ session.schedule.graph.after p) (named : session.schedule.find? producer = some p) :
    session.allowance producer < session.allowance name := by
  rw [allowance, allowance, named, found]
  exact Nat.add_lt_add_left (Nat.succ_lt_succ (Graph.rank_lt_rank intact.consistent.acyclic edge)) _

theorem allowance_enter (found : session.schedule.find? name = some i)
    (full : ¬ session.schedule.Vacant i) (other : String) :
    (session.enter i).allowance other < session.allowance name := by
  have bound := (intact.enter i).allowance_le other
  rw [held_enter (lt_of_find? found) full, declarations_enter] at bound
  rw [allowance.eq_def session, found]
  exact Nat.lt_of_le_of_lt bound (Nat.lt_add_of_pos_right (Nat.succ_pos _))

end Intact

/-- What runs do is shown from what the runs of makers do that come before them, and from what the
runs do that their bodies ask for. -/
@[elab_as_elim]
theorem run_induction {motive : String → Session → Prop}
    (step : ∀ name (session : Session), session.Intact →
      (∀ i p producer after, session.schedule.find? name = some i →
        i ∈ session.schedule.graph.after p → session.schedule.find? producer = some p →
        session.Alike after → motive producer after) →
      (∀ i other after, session.schedule.find? name = some i → ¬ session.schedule.Vacant i →
        (session.enter i).Alike after → motive other after) →
      motive name session)
    (intact : session.Intact) (name : String) : motive name session := by
  induction left : session.allowance name using Nat.strongRecOn generalizing session name with
  | ind allowance ih =>
    refine step name session intact ?_ ?_
    · intro i p producer after found edge named alike
      refine ih _ ?_ (intact.congr alike) producer rfl
      rw [← left, alike.allowance]
      exact intact.allowance_need found edge named
    · intro i other after found full alike
      refine ih _ ?_ ((intact.enter i).congr alike) other rfl
      rw [← left, alike.allowance]
      exact intact.allowance_enter found full other

/-! ### Runs without bounds -/

/-- Runs a task, where `inner` runs what it needs and whatever its body asks for. -/
def runVia (inner : Runner) : Runner := runOnce inner (runBody inner)

/-- Runs that nest so deep, and below that do as `bottom` says. -/
def nested (bottom : Runner) : Nat → Runner
  | 0 => bottom
  | depth + 1 => runVia (nested bottom depth)

/-- Two ways to run things agree on a task if they agree on what makes its needs, and on itself. -/
theorem agree_runOnce {holds : Session → Prop} {inner inner' : Runner}
    {launch launch' : Nat → Step Session Unit} (intact : session.Intact)
    (among : ∀ after, holds after → session.Alike after)
    (needs : ∀ i p producer, session.schedule.find? name = some i →
      i ∈ session.schedule.graph.after p → session.schedule.find? producer = some p →
      Agree holds (inner producer) (inner' producer))
    (launches : ∀ i, session.schedule.find? name = some i → Agree holds (launch i) (launch' i)) :
    Agree holds (runOnce inner launch name) (runOnce inner' launch' name) := by
  refine agree_query_bind fun start i kept answer => agree_get_bind fun asked kept' => ?_
  have found : session.schedule.find? name = some i := by
    rw [← (among start kept).find? name]
    unfold index at answer
    split at answer
    · next found =>
      cases answer
      exact found
    · cases answer
  split
  · exact fun _ holding => ⟨rfl, holding⟩
  · refine (agree_forIn fun artifact mem => ?_).bind fun _ => launches i found
    refine agree_query_bind fun between producer kept'' answer => ?_
    have alike := among between kept''
    have needed : between.schedule.Needs i artifact :=
      (needs_congr (alike.declared.trans (among asked kept').declared.symm)).mpr (mem_needs.mp mem)
    obtain ⟨p, _, edge, named⟩ := producerOf_eq_ok (intact.congr alike).consistent needed answer
    rw [alike.graph] at edge
    rw [alike.find?] at named
    exact (needs i p producer found edge named).bind fun _ _ holding => ⟨rfl, holding⟩

theorem launch_eq_runBody (enough : session.held ≤ full)
    (registered : i < session.schedule.declarations.length) :
    launch full i session =
      runBody (runAfterNeeds (launch (full - 1)) session.depthBound) i session := by
  cases full with
  | succ full => rfl
  | zero =>
    have vacant : session.schedule.Vacant i := by
      by_contra full
      have entered := held_enter registered full
      omega
    rw [runBody_of_vacant _ vacant]
    rfl

/-- What is alike to a session is alike to those it is alike to. -/
theorem Alike.lift {step step' : Step Session Unit} (alike : before.Alike after)
    (done : step after = step' after ∧ step.Always after after.Alike) :
    step after = step' after ∧ step.Always after before.Alike :=
  ⟨done.1, done.2.mono (fun _ _ => alike.trans) fun _ => alike.trans⟩

/-- The bounds that a session sets itself make no difference, nor does what is at the bottom. -/
theorem agree_nested (bottom : Runner) (intact : session.Intact) (name : String) :
    ∀ full depth deep, session.held ≤ full → 0 < depth →
      (∀ i, session.schedule.find? name = some i → session.schedule.graph.rank i < depth) →
      session.allowance name < deep →
      runAfterNeeds (launch full) depth name session = nested bottom deep name session ∧
        (runAfterNeeds (launch full) depth name).Always session session.Alike := by
  refine run_induction (fun name session intact ofNeeds ofBody => ?_) intact name
  intro full depth deep enough positive above deepEnough
  obtain ⟨depth, rfl⟩ : ∃ less, depth = less + 1 := ⟨depth - 1, by omega⟩
  obtain ⟨deep, rfl⟩ : ∃ less, deep = less + 1 := ⟨deep - 1, by omega⟩
  have ofMakers (i p : Nat) (producer : String) (found : session.schedule.find? name = some i)
      (edge : i ∈ session.schedule.graph.after p)
      (named : session.schedule.find? producer = some p) :
      Agree session.Alike (runAfterNeeds (launch full) depth producer)
        (nested bottom deep producer) := by
    intro between alike
    have lower := Graph.rank_lt_rank intact.consistent.acyclic edge
    have below := above i found
    have less := intact.allowance_need found edge named
    refine alike.lift (ofNeeds i p producer between found edge named alike full depth deep
      (by rwa [alike.held]) (by omega) (fun j again => ?_) (by rw [alike.allowance]; omega))
    rw [alike.find?, named, Option.some.injEq] at again
    rw [alike.graph, ← again]
    omega
  have ofTask (i : Nat) (found : session.schedule.find? name = some i) :
      Agree session.Alike (launch full i) (runBody (nested bottom deep) i) := by
    intro between alike
    have registered := lt_of_find? ((alike.find? name).trans found)
    unfold Step.Always Step.Ends
    rw [launch_eq_runBody (by rwa [alike.held]) registered]
    refine alike.lift (agree_runBody_alike (intact.congr alike) registered
      fun notVacant other inside entered => entered.lift ?_)
    have full' : ¬ session.schedule.Vacant i := by
      rwa [← vacant_of_outline alike.outline]
    have alike' := (alike.enter i).trans entered
    have fewer := held_enter (lt_of_find? found) full'
    have less := intact.allowance_enter found full' other
    refine ofBody i other inside found full' alike' (full - 1) between.depthBound deep
      (by rw [alike'.held]; omega) (Nat.succ_pos _) (fun j known => ?_)
      (by rw [alike'.allowance]; omega)
    have bound := ((intact.enter i).congr alike').rank_lt (lt_of_find? known)
    rw [alike'.declared, declarations_enter, length_declarations] at bound
    rw [alike.depthBound, depthBound]
    omega
  exact agree_runOnce intact (fun _ => id) ofMakers ofTask session (.refl session)

theorem agree_run_nested (bottom : Runner) (intact : session.Intact) {depth : Nat}
    (deep : session.depthBound * session.depthBound ≤ depth) (name : String) :
    Agree session.Alike (run name) (nested bottom depth name) := by
  intro after alike
  have intact' := intact.congr alike
  have bound := intact'.allowance_lt name
  rw [alike.depthBound] at bound
  have room := after.held_le
  rw [length_declarations] at room
  refine alike.lift (agree_nested bottom intact' name _ after.depthBound depth room
    (Nat.succ_pos _) (fun i found => ?_) (by omega))
  have below := intact'.rank_lt (lt_of_find? found)
  rw [length_declarations] at below
  exact Nat.lt_succ_of_lt below

/-- A run leaves every task in its slot that was there, and no other. -/
theorem alike_run (intact : session.Intact) (name : String) :
    (run name).Always session session.Alike :=
  (agree_run_nested run intact (Nat.le_refl _) name session (.refl session)).2

/-- A run does what it does by running things the same way. -/
theorem run_eq_runVia (intact : session.Intact) (name : String) :
    run name session = runVia run name session := by
  let depth := session.depthBound * session.depthBound
  have agree (other : String) : Agree session.Alike (run other) (nested run depth other) :=
    agree_run_nested run intact (Nat.le_refl _) other
  have ofTask (i : Nat) (found : session.schedule.find? name = some i) :
      Agree session.Alike (runBody run i) (runBody (nested run depth) i) := by
    intro between alike
    have bound : (between.enter i).depthBound = session.depthBound := by
      rw [depthBound_enter, alike.depthBound]
    refine alike.lift (agree_runBody_alike (intact.congr alike)
      (lt_of_find? ((alike.find? name).trans found)) fun _ => ?_)
    exact agree_run_nested run ((intact.congr alike).enter i) (by rw [bound])
  have deeper := (agree_run_nested run intact (Nat.le_succ depth) name session (.refl session)).1
  rw [deeper]
  exact (agree_runOnce intact (fun _ => id) (fun _ _ producer _ _ _ => agree producer)
    ofTask session (.refl session)).1.symm

/-! ### Reached sessions -/

/-- What a session can have become since it was created: tasks were registered, run and forgotten,
loops were driven, the body of a task is under way, and whatever else the schedule has no part
in. -/
inductive Reached : Session → Prop where
  | created (options : Options) (program : Program) (disk : Disk) (machine : Machine) :
    Reached (create options program disk machine)
  | registered {session : Session} (task : Task) : Reached session →
    Reached ((register task).final session)
  | ran {session : Session} (name : String) : Reached session → Reached ((run name).final session)
  | forgot {session : Session} (name : String) : Reached session →
    Reached ((reset name).final session)
  | drove {session : Session} (loop : Refinement) : Reached session →
    Reached ((drive loop).final session)
  | entered {session : Session} (i : Nat) : Reached session → Reached (session.enter i)
  | changed {before after : Session} : Reached before → after.schedule = before.schedule →
    Reached after

theorem Intact.register (intact : session.Intact) (task : Task) :
    (register task).Always session Intact := by
  refine always_register intact.consistent intact (fun extended enrolled => ?_) ?_
  · obtain ⟨slots, _⟩ := Schedule.slots_of_enroll enrolled
    refine ⟨intact.consistent.of_enroll enrolled, ?_⟩
    show ∀ slot ∈ extended.outline, _
    rw [outline, slots, map_append]
    intro slot mem other inSlot
    rcases mem_append.mp mem with old | last
    · exact intact.matched slot old other inSlot
    · obtain rfl := mem_singleton.mp last
      cases inSlot
      rfl
  · intro entry _ session intact
    have alike {after : Session} (quiet : session.Quiet after) : session.Alike after :=
      (lasting_alike session).quiet (.refl session) quiet
    exact (silent_declare entry.1 entry.2 session).mono
      (fun _ _ quiet => intact.congr (alike quiet))
      fun _ quiet => intact.congr (alike quiet)

theorem Reached.intact (reached : session.Reached) : session.Intact := by
  induction reached with
  | created => exact ⟨consistent_empty, nofun⟩
  | registered task _ intact => exact (intact.register task).final
  | ran name _ intact => exact intact.congr (alike_run intact name).final
  | forgot name _ intact =>
    exact intact.congr (agree_reset (lasting_alike _) name _ (.refl _)).2.final
  | @drove session loop _ intact =>
    have agree (name : String) : Agree session.Alike (run name) (run name) := fun after alike =>
      alike.lift ⟨rfl, alike_run (intact.congr alike) name⟩
    exact intact.congr (agree_driveFrom (lasting_alike _) agree loop _ _ _ (.refl _)).2.final
  | entered i _ intact => exact intact.enter i
  | changed _ same intact => exact intact.congr ⟨by rw [same], by rw [same]⟩

end ProgramAnalysis.Session
