import ProgramAnalysis.Proofs.Session.Recursion
import ProgramAnalysis.Proofs.Store

/-!
Registering a task is all or nothing. Its signatures are checked first, against each other
(`Agreeing`) and against those declared before (`Suits`). What was checked cannot fail when
relations are declared, after the schedule has accepted the task.
-/

namespace ProgramAnalysis.Session

open List Step Option Schedule

variable {session before after : Session} {task : Task} {name relation : String}
  {signature : Signature} {relations earlier : List (String × Signature)}

/-! ### Checking signatures -/

/-- Signatures given for the same relation have the same columns. -/
def Agreeing (relations : List (String × Signature)) : Prop :=
  ∀ entry ∈ relations, ∀ other ∈ relations, entry.1 = other.1 → entry.2.columns = other.2.columns

/-- Signatures have the columns that are declared already. -/
def Suits (session : Session) (relations : List (String × Signature)) : Prop :=
  ∀ entry ∈ relations, ∀ existing, session.store.relations.get? entry.1 = some existing →
    existing.signature.columns = entry.2.columns

/-- The first of the earlier signatures for a relation stands for all of them. -/
theorem agreeing_append (agreeing : Agreeing earlier) (agreeing' : Agreeing relations) :
    Agreeing (earlier ++ relations) ↔ ∀ entry ∈ relations, ∀ other,
      earlier.find? (·.1 = entry.1) = some other → other.2.columns = entry.2.columns := by
  constructor
  · intro all entry mem other found
    exact all other (mem_append_left _ (mem_of_find?_eq_some found)) entry
      (mem_append_right _ mem) (by simpa using find?_some found)
  · intro first
    have across (old : String × Signature) (isOld : old ∈ earlier) (entry : String × Signature)
        (mem : entry ∈ relations) (same : old.1 = entry.1) :
        old.2.columns = entry.2.columns := by
      obtain ⟨other, found⟩ : ∃ other, earlier.find? (·.1 = entry.1) = some other :=
        isSome_iff_exists.mp (find?_isSome.mpr ⟨old, isOld, decide_eq_true same⟩)
      have named : other.1 = entry.1 := by simpa using find?_some found
      rw [← first entry mem other found]
      exact agreeing old isOld other (mem_of_find?_eq_some found) (same.trans named.symm)
    simp only [Agreeing, mem_append]
    rintro entry (old | new) other (old' | new') same
    · exact agreeing entry old other old' same
    · exact across entry old other new' same
    · exact (across other old' entry new same.symm).symm
    · exact agreeing' entry new other new' same

theorem Agreeing.of_subset (agreeing : Agreeing relations) (subset : earlier ⊆ relations) :
    Agreeing earlier := fun entry mem other member' =>
  agreeing entry (subset mem) other (subset member')

theorem agreeing_nil : Agreeing [] := nofun

theorem agreeing_singleton (entry : String × Signature) : Agreeing [entry] := by
  intro first mem second member' _
  rw [mem_singleton.mp mem, mem_singleton.mp member']

theorem checkRelations_cons_eq_ok :
    session.checkRelations name earlier ((relation, signature) :: relations) = .ok () ↔
      (∀ other, earlier.find? (·.1 = relation) = some other → other.2.columns = signature.columns) ∧
      (∀ existing, session.store.relations.get? relation = some existing →
        existing.signature.columns = signature.columns) ∧
      session.checkRelations name (earlier ++ [(relation, signature)]) relations = .ok () := by
  rw [checkRelations]
  simp only [bind, Except.bind, throw, throwThe, MonadExceptOf.throw]
  grind

/-- The check passes exactly the signatures that agree with each other and suit the session. -/
theorem checkRelations_eq_ok (agreeing : Agreeing earlier) :
    session.checkRelations name earlier relations = .ok () ↔
      Agreeing (earlier ++ relations) ∧ session.Suits relations := by
  induction relations generalizing earlier with
  | nil =>
    rw [checkRelations, append_nil]
    exact iff_of_true rfl ⟨agreeing, fun _ mem => absurd mem not_mem_nil⟩
  | cons entry rest ih =>
    have split : earlier ++ entry :: rest = earlier ++ [entry] ++ rest := by simp
    have suits : session.Suits (entry :: rest) ↔ _ := forall_mem_cons
    have concat := agreeing_append agreeing (agreeing_singleton entry)
    rw [forall_mem_singleton] at concat
    rw [checkRelations_cons_eq_ok, ← concat, suits, split]
    constructor
    · rintro ⟨agreed, here, later⟩
      obtain ⟨all, others⟩ := (ih agreed).mp later
      exact ⟨all, here, others⟩
    · rintro ⟨all, here, others⟩
      have agreed := all.of_subset (subset_append_left _ _)
      exact ⟨agreed, here, (ih agreed).mpr ⟨all, others⟩⟩

/-! ### Declaring relations -/

/-- Nothing but the relations changed: those that were there still are, and others have the columns
that the first signature for them gives. -/
structure Declares (before : Session) (relations : List (String × Signature)) (after : Session) :
    Prop where
  schedule : after.schedule = before.schedule
  kept : ∀ name relation, before.store.relations.get? name = some relation →
    after.store.relations.get? name = some relation
  added : ∀ name, before.store.relations.get? name = none →
    (after.store.relations.get? name).map (·.signature.columns) =
      (relations.find? (·.1 = name)).map (·.2.columns)

theorem exists_declare (suits : ∀ existing, session.store.relations.get? name = some existing →
      existing.signature.columns = signature.columns) :
    ∃ after, declare name signature session = .ok () after ∧
      session.Declares [(name, signature)] after := by
  have declares {store : Store} (declared : session.store.declare name signature = .ok store) :
      declare name signature session = .ok () { session with store } := by
    refine bind_eq_ok.mpr ⟨store, session, ?_, rfl⟩
    rw [query, declared]
  cases found : session.store.relations.get? name with
  | some existing =>
    refine ⟨session, declares (by rw [Store.declare, found]; exact if_pos (suits existing found)),
      rfl, fun _ _ => id, fun other none => ?_⟩
    have apart : name ≠ other := by
      rintro rfl
      rw [found] at none
      cases none
    simp [none, apart]
  | none =>
    have declared : session.store.declare name signature =
        .ok (session.store.putRelation { name, signature }) := by
      rw [Store.declare, found]
    refine ⟨_, declares declared, rfl, fun other relation old => ?_, fun other none => ?_⟩
    · have apart : name ≠ other := by
        rintro rfl
        rw [found] at old
        cases old
      rw [Store.get?_putRelation, if_neg apart, old]
    · rw [Store.get?_putRelation]
      by_cases same : name = other
      · simp [same]
      · simp [same, none]

theorem Declares.trans (declares : before.Declares [entry] session)
    (declares' : session.Declares relations after) :
    before.Declares (entry :: relations) after := by
  refine ⟨declares'.schedule.trans declares.schedule, fun name relation old =>
    declares'.kept name relation (declares.kept name relation old), fun name none => ?_⟩
  have first := declares.added name none
  by_cases same : entry.1 = name
  · rw [find?_cons_of_pos (by simpa using same)] at first ⊢
    obtain ⟨relation, found, columns⟩ := map_eq_some_iff.mp first
    rw [declares'.kept name relation found, map_some, columns, map_some]
  · rw [find?_cons_of_neg (by simpa using same)] at first ⊢
    exact declares'.added name (map_eq_none_iff.mp first)

/-- Signatures that agree with each other are all declared, once they are declared at all. -/
theorem Declares.columns (declares : before.Declares relations after)
    (agreeing : Agreeing relations) (suits : before.Suits relations) (mem : entry ∈ relations) :
    (after.store.relations.get? entry.1).map (·.signature.columns) = some entry.2.columns := by
  cases old : before.store.relations.get? entry.1 with
  | some relation =>
    rw [declares.kept entry.1 relation old, map_some, suits entry mem relation old]
  | none =>
    obtain ⟨first, found⟩ : ∃ first, relations.find? (·.1 = entry.1) = some first :=
      isSome_iff_exists.mp (find?_isSome.mpr ⟨entry, mem, decide_eq_true rfl⟩)
    rw [declares.added entry.1 old, found, map_some]
    exact congrArg some (agreeing first (mem_of_find?_eq_some found) entry mem
      (by simpa using find?_some found))

theorem exists_declared (agreeing : Agreeing relations) (suits : session.Suits relations) :
    ∃ after, (forIn relations PUnit.unit fun (name, signature) _ => do
        declare name signature
        pure (ForInStep.yield PUnit.unit) : Step Session PUnit) session = .ok () after ∧
      session.Declares relations after := by
  induction relations generalizing session with
  | nil => exact ⟨session, rfl, rfl, fun _ _ => id, fun name none => by simp [none]⟩
  | cons entry rest ih =>
    obtain ⟨between, declared, first⟩ := exists_declare (suits _ mem_cons_self)
    have others : between.Suits rest := by
      intro other mem existing found
      have later := mem_cons_of_mem entry mem
      cases old : session.store.relations.get? other.1 with
      | some relation =>
        rw [first.kept other.1 relation old, Option.some.injEq] at found
        exact found ▸ suits other later relation old
      | none =>
        have added := first.added other.1 old
        by_cases same : entry.1 = other.1
        · rw [found, find?_cons_of_pos (by simpa using same)] at added
          exact (Option.some.inj added).trans (agreeing entry mem_cons_self other later same)
        · rw [found, find?_cons_of_neg (by simpa using same)] at added
          cases added
    obtain ⟨after, declaring, rest⟩ := ih (agreeing.of_subset (subset_cons_self _ _)) others
    refine ⟨after, ?_, first.trans rest⟩
    rw [forIn_cons]
    exact bind_eq_ok.mpr ⟨.yield ⟨⟩, between,
      bind_eq_ok.mpr ⟨(), between, declared, rfl⟩, declaring⟩

/-! ### Registering a task -/

/-- A task that passes the check and that the schedule accepts is registered with all its
relations. -/
theorem exists_register (checked : session.checkRelations task.name [] task.relations = .ok ())
    (enrolled : enroll task.toDeclaration task session.schedule = .ok () extended) :
    ∃ after, register task session = .ok () after ∧
      Declares { session with schedule := extended } task.relations after := by
  have asked : query (fun session => session.checkRelations task.name [] task.relations) session =
      .ok () session := by
    rw [query, checked]
  obtain ⟨agreeing, suits⟩ := (checkRelations_eq_ok agreeing_nil).mp checked
  obtain ⟨after, declared, declares⟩ :=
    @exists_declared { session with schedule := extended } _ agreeing suits
  refine ⟨after, bind_eq_ok.mpr ⟨(), session, asked, bind_eq_ok.mpr
    ⟨(), { session with schedule := extended }, onPart_eq_ok.mpr ⟨extended, enrolled, rfl⟩,
      bind_eq_ok.mpr ⟨(), after, declared, rfl⟩⟩⟩, declares⟩

theorem register_eq_ok (registered : register task session = .ok () after) :
    session.checkRelations task.name [] task.relations = .ok () ∧ ∃ extended,
      enroll task.toDeclaration task session.schedule = .ok () extended ∧
        Declares { session with schedule := extended } task.relations after := by
  obtain ⟨_, _, asked, rest⟩ := bind_eq_ok.mp registered
  obtain ⟨_, _, enrolling, _⟩ := bind_eq_ok.mp rest
  obtain ⟨extended, enrolled, _⟩ := onPart_eq_ok.mp enrolling
  unfold query at asked
  split at asked
  · next checked =>
    cases asked
    obtain ⟨_, again, declares⟩ := exists_register checked enrolled
    rw [registered] at again
    cases again
    exact ⟨checked, extended, enrolled, declares⟩
  · cases asked

/-- A task that is refused was refused by the check or by the schedule, and nothing has changed. -/
theorem register_eq_error (consistent : session.schedule.Consistent)
    (refused : register task session = .error fault after) :
    after = session ∧
      (session.checkRelations task.name [] task.relations = .error fault ∨
        session.checkRelations task.name [] task.relations = .ok () ∧
          enroll task.toDeclaration task session.schedule =
            .error fault session.schedule) := by
  unfold register at refused
  cases checked : session.checkRelations task.name [] task.relations with
  | error reason =>
    rw [bind_of_error (t := session) (by rw [query, checked])] at refused
    cases refused
    exact ⟨rfl, .inl rfl⟩
  | ok _ =>
    cases enrolled : enroll task.toDeclaration task session.schedule with
    | ok _ extended =>
      obtain ⟨_, registered, _⟩ := exists_register checked enrolled
      cases registered.symm.trans refused
    | error reason schedule =>
      obtain ⟨rfl, _⟩ := consistent.enroll_eq_error enrolled
      rw [bind_of_ok (t := session) (by rw [query, checked]),
        bind_of_error (t := session) (by rw [onPart, enrolled])] at refused
      cases refused
      exact ⟨rfl, .inr ⟨rfl, rfl⟩⟩

/-- In any session that can be reached, a task that is refused leaves everything as it was, and it
was refused because its signatures disagree, with each other or with declared relations, or by the
schedule. Once both accept it nothing fails any more; all relations of the task are then declared,
and no earlier one has changed. -/
theorem registration_all_or_nothing {session : Session} (reached : session.Reached) (task : Task) :
    (session.checkRelations task.name [] task.relations = .ok () ↔
      Agreeing task.relations ∧ session.Suits task.relations) ∧
    (∀ fault after, register task session = .error fault after → after = session ∧
      (session.checkRelations task.name [] task.relations = .error fault ∨
        session.checkRelations task.name [] task.relations = .ok () ∧
          Schedule.enroll task.toDeclaration task session.schedule =
            .error fault session.schedule)) ∧
    (∀ extended, session.checkRelations task.name [] task.relations = .ok () →
      Schedule.enroll task.toDeclaration task session.schedule = .ok () extended →
      ∃ after, register task session = .ok () after) ∧
    ∀ after, register task session = .ok () after →
      after.schedule.declarations = session.schedule.declarations ++ [task.toDeclaration] ∧
      (∀ entry ∈ task.relations,
        (after.store.relations.get? entry.1).map (·.signature.columns) = some entry.2.columns) ∧
      ∀ name relation, session.store.relations.get? name = some relation →
        after.store.relations.get? name = some relation := by
  refine ⟨checkRelations_eq_ok agreeing_nil, fun _ _ => register_eq_error reached.intact.consistent,
    fun _ checked enrolled => ?_, fun after registered => ?_⟩
  · obtain ⟨after, registered, _⟩ := exists_register checked enrolled
    exact ⟨after, registered⟩
  · obtain ⟨checked, extended, enrolled, declares⟩ := register_eq_ok registered
    obtain ⟨agreeing, suits⟩ := (checkRelations_eq_ok agreeing_nil).mp checked
    obtain ⟨_, _, _, _, rfl⟩ := Schedule.enroll_eq_ok.mp enrolled
    refine ⟨?_, fun entry => declares.columns agreeing suits, declares.kept⟩
    rw [declares.schedule]
    exact Schedule.declarations_extended rfl

/-- A task that would close a cycle with the one that is registered, and brings a relation. -/
def closing : Task where
  name := "users"
  consumes := ["points"]
  produces := ["calls"]
  relations := [("uses", ⟨["V0"], "V0"⟩)]
  body := .script [] 0

/-- A session with a task that needs what another one would make. -/
abbrev opened : Session :=
  (register { closing with name := "makers", consumes := ["calls"], produces := ["points"] }).final
    (create default default default)

theorem registration_all_or_nothing_closing :
    opened.Reached ∧ ∃ after,
      register closing opened = .error (.cyclicTasks ["makers", "users", "makers"]) after ∧
        after = opened := by
  have reached : opened.Reached := .registered _ (.created _ _ _ _)
  have evaluated : ((register closing).outcome opened).map (·.1) =
      .error (.cyclicTasks ["makers", "users", "makers"]) := by decide +kernel
  have refused := error_of_outcome evaluated
  exact ⟨reached, _, refused, ((registration_all_or_nothing reached closing).2.1 _ _ refused).1⟩

end ProgramAnalysis.Session
