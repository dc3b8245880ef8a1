import ProgramAnalysis.Proofs.Session.Registering

/-!
Tasks can be registered in any order or in none. Whether they can be is said of all declarations at
once (`Registrable`), and what a session with these tasks shows is said of the tasks by name
(`Mirrors`). Neither mentions the order.
-/

namespace ProgramAnalysis

open List

/-! ### Tasks by place and by name -/

section Feeding

variable {declared declared' : List Declaration} {i j : Nat} {first second : String}

theorem feedsNamed_perm (order : declared.Perm declared') :
    FeedsNamed declared = FeedsNamed declared' := by
  funext first second
  simp only [FeedsNamed, order.mem_iff]

/-- The task at a place has a name. -/
def NamedAt (declared : List Declaration) (i : Nat) (name : String) : Prop :=
  ∃ declaration, declared[i]? = some declaration ∧ declaration.name = name

theorem feedsNamed_iff : FeedsNamed declared first second ↔
    ∃ i j, NamedAt declared i first ∧ NamedAt declared j second ∧ FeedsAt declared i j := by
  constructor
  · rintro ⟨maker, isMaker, user, isUser, rfl, rfl, feeds⟩
    obtain ⟨i, atMaker⟩ := mem_iff_getElem?.mp isMaker
    obtain ⟨j, atUser⟩ := mem_iff_getElem?.mp isUser
    exact ⟨i, j, ⟨maker, atMaker, rfl⟩, ⟨user, atUser, rfl⟩, maker, user, atMaker, atUser, feeds⟩
  · rintro ⟨i, j, ⟨_, atFirst, rfl⟩, ⟨_, atSecond, rfl⟩, maker, user, atMaker, atUser, feeds⟩
    cases atFirst.symm.trans atMaker
    cases atSecond.symm.trans atUser
    exact ⟨_, mem_of_getElem? atMaker, _, mem_of_getElem? atUser, rfl, rfl, feeds⟩

variable (distinct : (declared.map (·.name)).Nodup)
include distinct

theorem NamedAt.unique (named : NamedAt declared i first) (named' : NamedAt declared j first) :
    i = j := by
  obtain ⟨one, atOne, rfl⟩ := named
  obtain ⟨other, atOther, same⟩ := named'
  refine (getElem?_inj ?_ distinct).mp ?_
  · rw [length_map]
    exact (List.getElem?_eq_some_iff.mp atOne).1
  · rw [getElem?_map, getElem?_map, atOne, atOther, Option.map_some, Option.map_some, same]

/-- Tasks with different names feed each other by name as they do by place. -/
theorem transGen_feedsNamed : Relation.TransGen (FeedsNamed declared) first second ↔
    ∃ i j, NamedAt declared i first ∧ NamedAt declared j second ∧
      Relation.TransGen (FeedsAt declared) i j := by
  constructor
  · intro feeds
    induction feeds with
    | single feeds =>
      obtain ⟨i, j, named, named', feeds⟩ := feedsNamed_iff.mp feeds
      exact ⟨i, j, named, named', .single feeds⟩
    | tail _ feeds ih =>
      obtain ⟨i, k, named, middle, chain⟩ := ih
      obtain ⟨k', j, middle', named', feeds⟩ := feedsNamed_iff.mp feeds
      obtain rfl := middle.unique distinct middle'
      exact ⟨i, j, named, named', chain.tail feeds⟩
  · rintro ⟨i, j, named, named', chain⟩
    induction chain generalizing second with
    | single feeds => exact .single (feedsNamed_iff.mpr ⟨_, _, named, named', feeds⟩)
    | tail _ feeds ih =>
      obtain ⟨maker, _, atMaker, _⟩ := id feeds
      exact (ih ⟨maker, atMaker, rfl⟩).tail
        (feedsNamed_iff.mpr ⟨_, _, ⟨maker, atMaker, rfl⟩, named', feeds⟩)

theorem acyclic_iff : (∀ i, ¬ Relation.TransGen (FeedsAt declared) i i) ↔
    ∀ name, ¬ Relation.TransGen (FeedsNamed declared) name name := by
  constructor
  · intro acyclic name around
    obtain ⟨i, j, named, named', chain⟩ := (transGen_feedsNamed distinct).mp around
    obtain rfl := named.unique distinct named'
    exact acyclic i chain
  · intro acyclic i around
    obtain ⟨j, ⟨maker, _, atMaker, _⟩, _⟩ := Relation.TransGen.head'_iff.mp around
    exact acyclic maker.name ((transGen_feedsNamed distinct).mpr
      ⟨i, i, ⟨maker, atMaker, rfl⟩, ⟨maker, atMaker, rfl⟩, around⟩)

end Feeding

namespace Session

variable {session after : Session} {task : Task} {tasks tasks' : List Task}

/-! ### Tasks that can be registered together -/

/-- Nothing about some tasks keeps them from being registered together. -/
structure Registrable (tasks : List Task) : Prop where
  names : (tasks.map (·.name)).Nodup
  makers : tasks.Pairwise fun first second => ∀ artifact ∈ second.produces,
    artifact ∉ first.produces
  acyclic : ∀ name, ¬ Relation.TransGen (FeedsNamed (tasks.map (·.toDeclaration))) name name
  agreeing : Agreeing (tasks.flatMap (·.relations))

theorem registrable_nil : Registrable [] := by
  refine ⟨.nil, .nil, fun name around => ?_, agreeing_nil⟩
  obtain ⟨_, ⟨_, mem, _⟩, _⟩ := Relation.TransGen.head'_iff.mp around
  cases mem

theorem Registrable.perm (registrable : Registrable tasks) (order : tasks.Perm tasks') :
    Registrable tasks' where
  names := (order.map _).nodup_iff.mp registrable.names
  makers := (order.pairwise_iff fun apart artifact makes makes' =>
    apart artifact makes' makes).mp registrable.makers
  acyclic := by
    rw [← feedsNamed_perm (order.map _)]
    exact registrable.acyclic
  agreeing := registrable.agreeing.of_subset (order.flatMap_right _).symm.subset

theorem Registrable.of_append (registrable : Registrable (tasks ++ tasks')) :
    Registrable tasks := by
  obtain ⟨names, makers, acyclic, agreeing⟩ := registrable
  rw [map_append] at names acyclic
  refine ⟨names.of_append_left, (pairwise_append.mp makers).1, fun name around => ?_,
    agreeing.of_subset (by rw [flatMap_append]; exact subset_append_left _ _)⟩
  refine acyclic name (Relation.TransGen.mono ?_ name name around)
  rintro _ _ ⟨maker, isMaker, user, isUser, rest⟩
  exact ⟨maker, mem_append_left _ isMaker, user, mem_append_left _ isUser, rest⟩

/-- A session in which exactly some tasks are registered. -/
structure Holding (session : Session) (tasks : List Task) : Prop where
  consistent : session.schedule.Consistent
  declared : session.schedule.declarations = tasks.map (·.toDeclaration)
  columns : ∀ name, (session.store.relations.get? name).map (·.signature.columns) =
    ((tasks.flatMap (·.relations)).find? (·.1 = name)).map (·.2.columns)

theorem holding_create (options : Options) (program : Program) (disk : Disk) (machine : Machine) :
    (create options program disk machine).Holding [] :=
  ⟨Schedule.consistent_empty, rfl, fun _ => rfl⟩

/-- What a session with some tasks has declared suits signatures that agree with theirs. -/
theorem Holding.agreeing_append_iff (holding : session.Holding tasks)
    (agreeing : Agreeing (tasks.flatMap (·.relations))) :
    Agreeing (tasks.flatMap (·.relations) ++ relations) ↔
      Agreeing relations ∧ session.Suits relations := by
  have suits : session.Suits relations ↔ ∀ entry ∈ relations, ∀ other,
      (tasks.flatMap (·.relations)).find? (·.1 = entry.1) = some other →
        other.2.columns = entry.2.columns := by
    refine forall₂_congr fun entry _ => ?_
    have columns := holding.columns entry.1
    cases found : session.store.relations.get? entry.1 <;>
      cases given : (tasks.flatMap (·.relations)).find? (·.1 = entry.1) <;>
      simp_all
  constructor
  · intro all
    have later := all.of_subset (subset_append_right _ _)
    exact ⟨later, suits.mpr ((agreeing_append agreeing later).mp all)⟩
  · rintro ⟨later, suited⟩
    exact (agreeing_append agreeing later).mpr (suits.mp suited)

theorem Holding.register (holding : session.Holding tasks)
    (registered : register task session = .ok () after) : after.Holding (tasks ++ [task]) := by
  obtain ⟨checked, extended, enrolled, declares⟩ := register_eq_ok registered
  obtain ⟨slots, _⟩ := Schedule.slots_of_enroll enrolled
  refine ⟨declares.schedule ▸ holding.consistent.of_enroll enrolled, ?_, fun name => ?_⟩
  · rw [declares.schedule, Schedule.declarations_extended slots, holding.declared, map_append]
    rfl
  · rw [flatMap_append, flatMap_singleton, find?_append, Option.map_or,
      ← holding.columns name]
    cases old : session.store.relations.get? name with
    | some rel => rw [declares.kept name rel old]; rfl
    | none => rw [declares.added name old]; rfl

/-- A further task can be registered exactly if nothing keeps it from being with the others. -/
theorem Holding.exists_register_iff (holding : session.Holding tasks)
    (registrable : Registrable tasks) :
    (∃ after, Session.register task session = .ok () after) ↔ Registrable (tasks ++ [task]) := by
  have checks : session.checkRelations task.name [] task.relations = .ok () ↔
      Agreeing ((tasks ++ [task]).flatMap (·.relations)) := by
    rw [checkRelations_eq_ok agreeing_nil, flatMap_append, flatMap_singleton,
      holding.agreeing_append_iff registrable.agreeing]
    rfl
  have names : (tasks ++ [task]).map (·.name) = tasks.map (·.name) ++ [task.name] := map_append
  have known : session.schedule.names = tasks.map (·.name) := by
    rw [show session.schedule.names = session.schedule.declarations.map (·.name) by
      rw [Schedule.declarations, map_map]; rfl, holding.declared, map_map]
    rfl
  have accepts : (∃ extended, Schedule.enroll task.toDeclaration task session.schedule =
      .ok () extended) ↔ ((tasks ++ [task]).map (·.name)).Nodup ∧
        (∀ other ∈ tasks, ∀ artifact ∈ task.produces, artifact ∉ other.produces) ∧
        ∀ i, ¬ Relation.TransGen (FeedsAt ((tasks ++ [task]).map (·.toDeclaration))) i i := by
    rw [holding.consistent.exists_enroll_iff, Schedule.refusal?_eq_none_iff, holding.declared,
      known, names, map_append, forall_mem_map, and_assoc]
    have fresh : (tasks.map (·.name) ++ [task.name]).Nodup ↔ task.name ∉ tasks.map (·.name) := by
      simp [nodup_append, registrable.names]
    rw [fresh]
    rfl
  constructor
  · rintro ⟨after, registered⟩
    obtain ⟨checked, extended, enrolled, _⟩ := register_eq_ok registered
    obtain ⟨distinct, makers, acyclic⟩ := accepts.mp ⟨extended, enrolled⟩
    refine ⟨distinct, ?_, (acyclic_iff ?_).mp acyclic, checks.mp checked⟩
    · exact pairwise_append.mpr ⟨registrable.makers, pairwise_singleton _ _,
        fun other mem last isLast => mem_singleton.mp isLast ▸ makers other mem⟩
    · rw [map_map]
      exact distinct
  · rintro ⟨distinct, makers, acyclic, agreeing⟩
    obtain ⟨extended, enrolled⟩ := accepts.mpr ⟨distinct, fun other mem =>
      (pairwise_append.mp makers).2.2 other mem task (mem_singleton.mpr rfl),
      (acyclic_iff (by rw [map_map]; exact distinct)).mpr acyclic⟩
    obtain ⟨after, registered, _⟩ := exists_register (checks.mpr agreeing) enrolled
    exact ⟨after, registered⟩

/-- All of some further tasks can be registered exactly if nothing keeps them from being with the
others. -/
theorem Holding.forM_register (holding : session.Holding tasks) (registrable : Registrable tasks)
    (further : List Task) :
    ((∃ after, further.forM Session.register session = .ok () after) ↔
      Registrable (tasks ++ further)) ∧
    ∀ after, further.forM Session.register session = .ok () after →
      after.Holding (tasks ++ further) := by
  induction further generalizing session tasks with
  | nil =>
    rw [append_nil]
    refine ⟨iff_of_true ⟨session, rfl⟩ registrable, ?_⟩
    rintro _ ⟨⟩
    exact holding
  | cons task rest ih =>
    have split : tasks ++ task :: rest = tasks ++ [task] ++ rest := by simp
    have step (between : Session) (first : Session.register task session = .ok () between) :=
      ih (holding.register first)
        ((holding.exists_register_iff registrable).mp ⟨between, first⟩)
    rw [split]
    refine ⟨⟨?_, fun all => ?_⟩, fun after registered => ?_⟩
    · rintro ⟨after, registered⟩
      obtain ⟨_, between, first, later⟩ := Step.bind_eq_ok.mp registered
      exact (step between first).1.mp ⟨after, later⟩
    · obtain ⟨between, first⟩ := (holding.exists_register_iff registrable).mpr all.of_append
      obtain ⟨after, later⟩ := (step between first).1.mpr all
      exact ⟨after, Step.bind_eq_ok.mpr ⟨(), between, first, later⟩⟩
    · obtain ⟨_, between, first, later⟩ := Step.bind_eq_ok.mp registered
      exact (step between first).2 after later

/-! ### What can be read off the tasks -/

def makerName? (session : Session) (artifact : String) : Option String :=
  (session.schedule.producer? artifact).map session.schedule.nameAt

def Edge (session : Session) (first second : String) : Prop :=
  ∃ a b, session.schedule.graph.hasEdge a b = true ∧
    session.schedule.nameAt a = first ∧ session.schedule.nameAt b = second

def columns? (session : Session) (name : String) : Option (List String) :=
  (session.store.relations.get? name).map (·.signature.columns)

/-- What a session answers, by names, is what its tasks say. -/
structure Mirrors (session : Session) (tasks : List Task) : Prop where
  makers : ∀ artifact name, session.makerName? artifact = some name ↔
    ∃ task ∈ tasks, task.name = name ∧ artifact ∈ task.produces
  edges : ∀ first second, session.Edge first second ↔
    FeedsNamed (tasks.map (·.toDeclaration)) first second
  dependents : ∀ task ∈ tasks, ∃ names, session.dependents task.name = .ok names ∧
    ∀ other, other ∈ names ↔
      Relation.TransGen (FeedsNamed (tasks.map (·.toDeclaration))) task.name other
  columns : ∀ name columns, session.columns? name = some columns ↔
    ∃ task ∈ tasks, ∃ signature, (name, signature) ∈ task.relations ∧ signature.columns = columns

theorem Mirrors.perm (mirrors : session.Mirrors tasks) (order : tasks.Perm tasks') :
    session.Mirrors tasks' := by
  obtain ⟨makers, edges, dependents, columns⟩ := mirrors
  rw [feedsNamed_perm (order.map _)] at edges dependents
  simp only [order.mem_iff] at makers dependents columns
  exact ⟨makers, edges, dependents, columns⟩

theorem reachable_after_iff {α : Type} {next : α → List α} {a b : α} :
    Reachable next (next a) b ↔ Relation.TransGen (fun u v => v ∈ next u) a b := by
  constructor
  · intro reached
    induction reached with
    | start mem => exact .single mem
    | step _ mem ih => exact ih.tail mem
  · intro chain
    induction chain with
    | single mem => exact .start mem
    | tail _ mem ih => exact .step ih mem

theorem exists_dependents {schedule : Schedule Task} (consistent : schedule.Consistent)
    (below : i < schedule.declarations.length) :
    ∃ indices, schedule.dependents i = .ok indices := by
  obtain ⟨order, ordered⟩ :=
    Graph.exists_topologicalOrder consistent.coherent consistent.closed consistent.acyclic
  obtain ⟨targets, known⟩ := Graph.exists_successors ((consistent.vertices i).mpr below)
  exact ⟨_, except_bind_eq_ok.mpr ⟨_, except_bind_eq_ok.mpr ⟨targets, known, rfl⟩,
    except_bind_eq_ok.mpr ⟨order, ordered, rfl⟩⟩⟩

namespace Holding

variable (holding : session.Holding tasks)
include holding

theorem after_eq : (fun u v => v ∈ session.schedule.graph.after u) =
    FeedsAt session.schedule.declarations := by
  funext u v
  exact propext ((holding.consistent.edges u v).trans (Schedule.feedsAt_declarations _ u v).symm)

theorem makerName?_eq_some : session.makerName? artifact = some name ↔
    ∃ task ∈ tasks, task.name = name ∧ artifact ∈ task.produces := by
  have declared : (∃ declaration ∈ session.schedule.declarations,
      declaration.name = name ∧ artifact ∈ declaration.produces) ↔
        ∃ task ∈ tasks, task.name = name ∧ artifact ∈ task.produces := by
    simp [holding.declared]
  rw [← declared, makerName?, Option.map_eq_some_iff]
  constructor
  · rintro ⟨i, found, rfl⟩
    obtain ⟨declaration, atIndex, makes⟩ := Schedule.makes_of_producer? found
    exact ⟨declaration, mem_of_getElem? atIndex, (Schedule.nameAt_of_getElem? atIndex).symm, makes⟩
  · rintro ⟨declaration, mem, rfl, makes⟩
    obtain ⟨i, atIndex⟩ := mem_iff_getElem?.mp mem
    exact ⟨i, holding.consistent.producer?_of_makes ⟨declaration, atIndex, makes⟩,
      Schedule.nameAt_of_getElem? atIndex⟩

theorem edge_iff :
    session.Edge first second ↔ FeedsNamed (tasks.map (·.toDeclaration)) first second := by
  rw [← holding.declared, feedsNamed_iff]
  have edges := holding.consistent.exact.edges
  constructor
  · rintro ⟨a, b, edge, rfl, rfl⟩
    obtain ⟨maker, user, atMaker, atUser, feeds⟩ := (edges a b).mp edge
    exact ⟨a, b, ⟨maker, atMaker, (Schedule.nameAt_of_getElem? atMaker).symm⟩,
      ⟨user, atUser, (Schedule.nameAt_of_getElem? atUser).symm⟩,
      maker, user, atMaker, atUser, feeds⟩
  · rintro ⟨a, b, ⟨maker, atMaker, rfl⟩, ⟨user, atUser, rfl⟩, feeds⟩
    exact ⟨a, b, (edges a b).mpr feeds, Schedule.nameAt_of_getElem? atMaker,
      Schedule.nameAt_of_getElem? atUser⟩

theorem exists_dependents (distinct : (tasks.map (·.name)).Nodup) (mem : task ∈ tasks) :
    ∃ names, session.dependents task.name = .ok names ∧ ∀ other, other ∈ names ↔
      Relation.TransGen (FeedsNamed (tasks.map (·.toDeclaration))) task.name other := by
  have declared : task.toDeclaration ∈ session.schedule.declarations := by
    rw [holding.declared]
    exact mem_map_of_mem mem
  obtain ⟨i, atIndex⟩ := mem_iff_getElem?.mp declared
  have found : session.schedule.find? task.name = some i :=
    holding.consistent.find?_of_getElem? atIndex
  obtain ⟨indices, answered⟩ :=
    Session.exists_dependents holding.consistent (Schedule.lt_of_getElem? atIndex)
  refine ⟨indices.map session.schedule.nameAt, ?_, fun other => ?_⟩
  · rw [Session.dependents, Schedule.index, found]
    exact except_bind_eq_ok.mpr ⟨i, rfl, except_bind_eq_ok.mpr ⟨indices, answered, rfl⟩⟩
  have distinct' : (session.schedule.declarations.map (·.name)).Nodup := by
    rw [holding.declared, map_map]
    exact distinct
  rw [← holding.declared, transGen_feedsNamed distinct', mem_map]
  simp only [Schedule.mem_dependents holding.consistent answered, reachable_after_iff,
    holding.after_eq]
  constructor
  · rintro ⟨j, chain, rfl⟩
    obtain ⟨_, _, _, user, _, atUser, _⟩ := Relation.TransGen.tail'_iff.mp chain
    exact ⟨i, j, ⟨_, atIndex, rfl⟩,
      ⟨user, atUser, (Schedule.nameAt_of_getElem? atUser).symm⟩, chain⟩
  · rintro ⟨i', j, named, ⟨user, atUser, rfl⟩, chain⟩
    obtain rfl := named.unique distinct' ⟨_, atIndex, rfl⟩
    exact ⟨j, chain, Schedule.nameAt_of_getElem? atUser⟩

theorem columns?_eq_some (agreeing : Agreeing (tasks.flatMap (·.relations)))
    {columns : List String} : session.columns? name = some columns ↔
      ∃ task ∈ tasks, ∃ sig,
        (name, sig) ∈ task.relations ∧ sig.columns = columns := by
  rw [columns?, holding.columns, Option.map_eq_some_iff]
  constructor
  · rintro ⟨⟨_, sig⟩, first, rfl⟩
    obtain ⟨task, mem, given⟩ := mem_flatMap.mp (mem_of_find?_eq_some first)
    obtain rfl : _ = name := by simpa using find?_some first
    exact ⟨task, mem, sig, given, rfl⟩
  · rintro ⟨task, mem, sig, given, rfl⟩
    have listed : (name, sig) ∈ tasks.flatMap (·.relations) := mem_flatMap.mpr ⟨task, mem, given⟩
    cases first : (tasks.flatMap (·.relations)).find? (·.1 = name) with
    | none => exact absurd rfl (of_decide_eq_false
        (Bool.eq_false_iff.mpr (find?_eq_none.mp first _ listed)))
    | some other =>
      have named : other.1 = name := by simpa using find?_some first
      exact ⟨other, rfl, agreeing other (mem_of_find?_eq_some first) _ listed named⟩

theorem mirrors (registrable : Registrable tasks) : session.Mirrors tasks where
  makers _ _ := holding.makerName?_eq_some
  edges _ _ := holding.edge_iff
  dependents _ mem := holding.exists_dependents registrable.names mem
  columns _ _ := holding.columns?_eq_some registrable.agreeing

end Holding

/-- If tasks can be registered in one order, they can be in every order, and every order gives the
same makers, edges, dependents and columns: those that the tasks declare. -/
theorem registration_any_order {tasks tasks' : List Task} (options : Options) (program : Program)
    (disk : Disk) {machine : Machine} {first : Session} (order : tasks.Perm tasks')
    (registered : tasks.forM register (create options program disk machine) = .ok () first) :
    first.Mirrors tasks ∧
    ∃ second, tasks'.forM register (create options program disk machine) = .ok () second ∧
      (∀ artifact, second.makerName? artifact = first.makerName? artifact) ∧
      (∀ one other, second.Edge one other ↔ first.Edge one other) ∧
      (∀ task ∈ tasks, ∃ names names', first.dependents task.name = .ok names ∧
        second.dependents task.name = .ok names' ∧ ∀ other, other ∈ names' ↔ other ∈ names) ∧
      ∀ name, second.columns? name = first.columns? name := by
  have fresh := holding_create options program disk machine
  obtain ⟨possible, holds⟩ := fresh.forM_register registrable_nil tasks
  obtain ⟨possible', holds'⟩ := fresh.forM_register registrable_nil tasks'
  have registrable : Registrable tasks := possible.mp ⟨first, registered⟩
  have registrable' := registrable.perm order
  obtain ⟨second, registered'⟩ := possible'.mpr registrable'
  have mirrors : first.Mirrors tasks := (holds first registered).mirrors registrable
  have mirrors' : second.Mirrors tasks :=
    ((holds' second registered').mirrors registrable').perm order.symm
  refine ⟨mirrors, second, registered', fun artifact => ?_, fun one other => ?_,
    fun task member => ?_, fun name => ?_⟩
  · exact Option.ext fun name =>
      (mirrors'.makers artifact name).trans (mirrors.makers artifact name).symm
  · exact (mirrors'.edges one other).trans (mirrors.edges one other).symm
  · obtain ⟨names, answered, same⟩ := mirrors.dependents task member
    obtain ⟨names', answered', same'⟩ := mirrors'.dependents task member
    exact ⟨names, names', answered, answered', fun other => (same' other).trans (same other).symm⟩
  · exact Option.ext fun columns =>
      (mirrors'.columns name columns).trans (mirrors.columns name columns).symm

/-- A task that needs what the other one makes, before it. Both give the same relation. -/
def consumerFirst : List Task :=
  [{ name := "users", consumes := ["points"], produces := ["calls"]
     relations := [("uses", ⟨["V0"], "V0"⟩)], body := .script [] 0 },
   { name := "makers", consumes := [], produces := ["points"]
     relations := [("uses", ⟨["V0"], "V0"⟩)], body := .script [] 0 }]

theorem registration_any_order_reversed :
    ∃ first second, consumerFirst.forM register (create default default default) = .ok () first ∧
      consumerFirst.reverse.forM register (create default default default) = .ok () second ∧
      first.Edge "makers" "users" ∧ second.Edge "makers" "users" ∧
      first.columns? "uses" = some ["V0"] ∧ second.columns? "uses" = some ["V0"] := by
  have evaluated : ((consumerFirst.forM register).outcome (create default default default)).map
      (·.1) = .ok () := by decide +kernel
  obtain ⟨_, first, registered, _⟩ := Step.exists_of_outcome evaluated
  obtain ⟨mirrors, second, registered', _, edges, _, columns⟩ := registration_any_order _ _ _
    consumerFirst.reverse_perm.symm registered
  have edge : first.Edge "makers" "users" := (mirrors.edges _ _).mpr
    ⟨_, .tail _ (.head _), _, .head _, rfl, rfl, "points", .head _, .head _⟩
  have named : first.columns? "uses" = some ["V0"] :=
    (mirrors.columns _ _).mpr ⟨_, .head _, _, .head _, rfl⟩
  exact ⟨first, second, registered, registered', edge, (edges _ _).mpr edge, named,
    (columns _).trans named⟩

end Session

end ProgramAnalysis
