import ProgramAnalysis.Proofs.Schedule

/-!
Registration is exact, and all or nothing. The graph and the tables of names, makers and users that
a schedule keeps are those of the accepted declarations (`Exact`). A task is refused for its name,
for something that it makes, or for a cycle. In the last case it has been drawn already, and taking
it out again restores the graph; the cycle that is reported is a closed walk through the task.
-/

namespace ProgramAnalysis

open List Step

/-- One task makes something that another needs. -/
def Declaration.Feeds (maker user : Declaration) : Prop :=
  ∃ artifact ∈ maker.produces, artifact ∈ user.consumes

/-- The same of two tasks given by their places among some. -/
def FeedsAt (declared : List Declaration) (i j : Nat) : Prop :=
  ∃ maker user, declared[i]? = some maker ∧ declared[j]? = some user ∧ maker.Feeds user

/-- The same of two tasks given by their names. -/
def FeedsNamed (declared : List Declaration) (first second : String) : Prop :=
  ∃ maker ∈ declared, ∃ user ∈ declared,
    maker.name = first ∧ user.name = second ∧ maker.Feeds user

namespace Schedule

variable {τ : Type} {schedule : Schedule τ} {declaration : Declaration} {task : τ}

theorem feedsAt_declarations (schedule : Schedule τ) (a b : Nat) :
    FeedsAt schedule.declarations a b ↔
      ∃ artifact, schedule.Makes a artifact ∧ schedule.Needs b artifact := by
  constructor
  · rintro ⟨maker, user, atMaker, atUser, artifact, makes, needs⟩
    exact ⟨artifact, ⟨maker, atMaker, makes⟩, user, atUser, needs⟩
  · rintro ⟨artifact, ⟨maker, atMaker, makes⟩, user, atUser, needs⟩
    exact ⟨maker, user, atMaker, atUser, artifact, makes, needs⟩

/-! ### Drawing a new task -/

theorem touches_of_mem_newEdges {edge : Nat × Nat} (mem : edge ∈ schedule.newEdges declaration) :
    edge.1 = schedule.slots.length ∨ edge.2 = schedule.slots.length := by
  obtain ⟨a, b⟩ := edge
  rcases mem_newEdges.mp mem with ⟨_, _, _, rfl⟩ | ⟨_, _, _, rfl, rfl⟩ | ⟨_, _, rfl, _⟩
  · exact .inr rfl
  · exact .inl rfl
  · exact .inl rfl

variable {i : Nat} {artifact : String}

theorem Makes.lt_length (makes : schedule.Makes i artifact) : i < schedule.slots.length := by
  obtain ⟨_, found, _⟩ := makes
  rw [← length_declarations]
  exact lt_of_getElem? found

theorem Needs.lt_length (needs : schedule.Needs i artifact) : i < schedule.slots.length := by
  obtain ⟨_, found, _⟩ := needs
  rw [← length_declarations]
  exact lt_of_getElem? found

variable {graph : Graph} {cycle : List Nat}

namespace Consistent

variable (consistent : schedule.Consistent)
include consistent

theorem exists_drawn (declaration : Declaration) :
    ∃ graph, schedule.drawn declaration = .ok graph := by
  have isVertex (v : Nat) := consistent.vertices v
  simp only [length_declarations] at isVertex
  have fresh : schedule.graph.hasVertex schedule.slots.length = false :=
    Bool.eq_false_iff.mpr fun known => Nat.lt_irrefl _ ((isVertex _).mp known)
  obtain ⟨withVertex, vertex⟩ : ∃ withVertex,
      schedule.graph.insertVertex schedule.slots.length declaration.name = .ok withVertex :=
    ⟨_, if_neg (Bool.eq_false_iff.mp fresh)⟩
  have inside (v : Nat) (below : v ≤ schedule.slots.length) : withVertex.hasVertex v = true := by
    rw [Graph.hasVertex_insertVertex vertex, isVertex]
    exact (Nat.eq_or_lt_of_le below)
  obtain ⟨graph, edges⟩ : ∃ graph, (schedule.newEdges declaration).foldlM
      (fun graph edge => graph.insertEdge edge.1 edge.2) withVertex = .ok graph := by
    refine Graph.insertEdges_of_hasVertex fun edge mem => ?_
    obtain ⟨a, b⟩ := edge
    rcases mem_newEdges.mp mem with ⟨_, _, found, rfl⟩ | ⟨_, _, _, rfl, rfl⟩ | ⟨_, _, rfl, needs⟩
    · exact ⟨inside a (Nat.le_of_lt (makes_of_producer? found).lt_length), inside _ (Nat.le_refl _)⟩
    · exact ⟨inside _ (Nat.le_refl _), inside _ (Nat.le_refl _)⟩
    · exact ⟨inside _ (Nat.le_refl _), inside b (Nat.le_of_lt needs.lt_length)⟩
  exact ⟨graph, except_bind_eq_ok.mpr ⟨withVertex, vertex, edges⟩⟩

/-- What was drawn for a new task can be taken away again without a trace. -/
theorem remove_drawn (made : schedule.drawn declaration = .ok graph) :
    graph.remove schedule.slots.length = .ok schedule.graph := by
  obtain ⟨withVertex, vertex, edges⟩ := except_bind_eq_ok.mp made
  exact Graph.remove_insertEdges consistent.coherent vertex
    (fun _ mem => touches_of_mem_newEdges mem) edges

theorem enroll_of_cycle (passed : schedule.refusal? declaration = none)
    (made : schedule.drawn declaration = .ok graph) (found : graph.findCycle? = some cycle) :
    enroll declaration task schedule = .error (.cyclicTasks (cycle.map fun v =>
      if v = schedule.slots.length then declaration.name else schedule.nameAt v)) schedule := by
  have drawing : drawTask declaration schedule = .ok () { schedule with graph } :=
    drawTask_eq_ok.mpr ⟨graph, made, rfl⟩
  have undoing : changeGraph (·.remove schedule.slots.length) { schedule with graph } =
      .ok () schedule := changeGraph_eq_ok.mpr ⟨schedule.graph, consistent.remove_drawn made, rfl⟩
  rw [enroll_of_passed passed, bind_of_ok drawing, get_bind, found]
  exact bind_of_ok undoing

theorem mem_after_drawn (task : τ) (made : schedule.drawn declaration = .ok graph) (a b : Nat) :
    b ∈ graph.after a ↔ FeedsAt (schedule.declarations ++ [declaration]) a b := by
  let extended : Schedule τ := { schedule.push declaration task with graph }
  have slots : extended.slots = schedule.slots ++ [{ declaration with task := some task }] := rfl
  rw [← declarations_extended slots, feedsAt_declarations]
  exact consistent.edges_drawn slots made a b

end Consistent

/-! ### Refusing a task -/

variable {v : Nat} {other : Declaration}

/-- A place among the registered tasks and a new one is the new one's or a registered one's. -/
theorem getElem?_declarations_concat
    (found : (schedule.declarations ++ [declaration])[v]? = some other) :
    v = schedule.slots.length ∧ other = declaration ∨
      v ≠ schedule.slots.length ∧ schedule.declarations[v]? = some other := by
  rw [getElem?_append, length_declarations] at found
  split at found
  · next below => exact .inr ⟨Nat.ne_of_lt below, found⟩
  · next past =>
    obtain ⟨start, same⟩ := List.getElem?_eq_some_iff.mp found
    rw [length_singleton] at start
    rw [getElem_singleton] at same
    exact .inl ⟨by omega, same.symm⟩

/-- The name that a cycle is reported with for one of its places. -/
theorem name_of_getElem?_concat
    (found : (schedule.declarations ++ [declaration])[v]? = some other) :
    other.name = if v = schedule.slots.length then declaration.name else schedule.nameAt v := by
  rcases getElem?_declarations_concat found with ⟨here, rfl⟩ | ⟨elsewhere, registered⟩
  · rw [if_pos here]
  · rw [if_neg elsewhere, nameAt_of_getElem? registered]

/-- A task that is refused whatever its dependencies are is not said to close a cycle. -/
theorem refusal?_ne_cyclicTasks {names : List String} :
    schedule.refusal? declaration ≠ some (.cyclicTasks names) := by
  unfold refusal?
  split
  · simp
  · simp

namespace Consistent

variable (consistent : schedule.Consistent)
include consistent

/-- The names given for a cycle are those of tasks that feed one another in turn, and the new task
is one of them: without it there is no cycle. -/
theorem names_of_cycle (task : τ) (made : schedule.drawn declaration = .ok graph)
    (found : graph.findCycle? = some cycle) :
    let names := cycle.map fun v =>
      if v = schedule.slots.length then declaration.name else schedule.nameAt v
    ClosedWalk (FeedsNamed (schedule.declarations ++ [declaration])) names ∧
      declaration.name ∈ names := by
  intro names
  have walk : ClosedWalk (FeedsAt (schedule.declarations ++ [declaration])) cycle :=
    (Graph.closedWalk_of_cycle found).mono fun a _ b _ =>
      (consistent.mem_after_drawn task made a b).mp
  constructor
  · refine walk.map ?_
    rintro a _ b _ ⟨maker, user, atMaker, atUser, feeds⟩
    exact ⟨maker, mem_of_getElem? atMaker, user, mem_of_getElem? atUser,
      name_of_getElem?_concat atMaker, name_of_getElem?_concat atUser, feeds⟩
  · refine mem_map.mpr ⟨schedule.slots.length, ?_, if_pos rfl⟩
    by_contra absent
    -- A walk past the new task's place stays among registered tasks, which have no cycle.
    have registered {v : Nat} (onCycle : v ∈ cycle) {other : Declaration}
        (atPlace : (schedule.declarations ++ [declaration])[v]? = some other) :
        schedule.declarations[v]? = some other := by
      rcases getElem?_declarations_concat atPlace with ⟨here, _⟩ | ⟨_, registered⟩
      · exact absurd (here ▸ onCycle) absent
      · exact registered
    have old : ClosedWalk (fun u w => w ∈ schedule.graph.after u) cycle := by
      refine walk.mono ?_
      rintro a onCycle b onCycle' ⟨maker, user, atMaker, atUser, feeds⟩
      rw [consistent.edges, ← feedsAt_declarations]
      exact ⟨maker, user, registered onCycle atMaker, registered onCycle' atUser, feeds⟩
    obtain ⟨v, around⟩ := old.transGen
    exact Graph.not_transGen_self consistent.acyclic v around

/-- A refused task leaves the schedule as it was, and names a cycle that it closes. -/
theorem enroll_eq_error {fault : Fault} {after : Schedule τ}
    (failed : enroll declaration task schedule = .error fault after) :
    after = schedule ∧ ∀ names, fault = .cyclicTasks names →
      ClosedWalk (FeedsNamed (schedule.declarations ++ [declaration])) names ∧
        declaration.name ∈ names := by
  cases passed : schedule.refusal? declaration with
  | some reason =>
    rw [enroll_of_refusal passed] at failed
    cases failed
    refine ⟨rfl, ?_⟩
    rintro names rfl
    exact absurd passed refusal?_ne_cyclicTasks
  | none =>
    obtain ⟨graph, made⟩ := consistent.exists_drawn declaration
    cases found : graph.findCycle? with
    | some cycle =>
      rw [consistent.enroll_of_cycle passed made found] at failed
      cases failed
      refine ⟨rfl, ?_⟩
      rintro names ⟨⟩
      exact consistent.names_of_cycle task made found
    | none =>
      rw [enroll_eq_ok.mpr ⟨passed, graph, made, found, rfl⟩] at failed
      cases failed

theorem ends_enroll (declaration : Declaration) (task : τ) : (enroll declaration task).Ends schedule
      (fun _ extended => enroll declaration task schedule = .ok () extended)
      (fun after => after = schedule) := by
  unfold Ends
  cases outcome : enroll declaration task schedule with
  | ok _ extended => rfl
  | error fault after => exact (consistent.enroll_eq_error outcome).1

end Consistent

/-! ### Exact schedules -/

/-- The schedule after some tasks were offered one after the other, accepted or not. -/
def registerAll (offered : List (Declaration × τ)) : Schedule τ :=
  offered.foldl (fun schedule entry => (enroll entry.1 entry.2).final schedule) empty

theorem Consistent.final_enroll (consistent : schedule.Consistent) (declaration : Declaration)
    (task : τ) : ((enroll declaration task).final schedule).Consistent := by
  refine Always.final ((consistent.ends_enroll declaration task).mono ?_ ?_)
  · exact fun _ _ enrolled => consistent.of_enroll enrolled
  · rintro _ rfl
    exact consistent

theorem consistent_registerAll (offered : List (Declaration × τ)) :
    (registerAll offered).Consistent :=
  List.foldlRecOn offered _ consistent_empty fun _ consistent entry _ =>
    consistent.final_enroll entry.1 entry.2

/-- Names and makers are unique, the three tables answer for the tasks in the slots, and the graph
shows exactly who makes what somebody needs, without a cycle. -/
structure Exact (schedule : Schedule τ) : Prop where
  names : schedule.names.Nodup
  found : ∀ name i, schedule.find? name = some i ↔
    ∃ slot, schedule.slots[i]? = some slot ∧ slot.name = name
  makers : ∀ artifact i, schedule.producer? artifact = some i ↔
    ∃ slot, schedule.slots[i]? = some slot ∧ artifact ∈ slot.produces
  users : ∀ artifact i, i ∈ schedule.consumers artifact ↔
    ∃ slot, schedule.slots[i]? = some slot ∧ artifact ∈ slot.consumes
  vertices : ∀ v, schedule.graph.hasVertex v = true ↔ v < schedule.slots.length
  edges : ∀ a b, schedule.graph.hasEdge a b = true ↔ FeedsAt schedule.declarations a b
  acyclic : ∀ v, ¬ Relation.TransGen (fun a b => schedule.graph.hasEdge a b = true) v v

theorem names_eq (schedule : Schedule τ) :
    schedule.names = schedule.declarations.map (·.name) := by
  rw [declarations, map_map]
  rfl

theorem exists_declaration_iff (holds : Declaration → Prop) :
    (∃ declaration, schedule.declarations[i]? = some declaration ∧ holds declaration) ↔
      ∃ slot, schedule.slots[i]? = some slot ∧ holds slot.toDeclaration := by
  rw [getElem?_declarations]
  cases schedule.slots[i]? with
  | none => simp
  | some slot => simp

theorem Consistent.exact (consistent : schedule.Consistent) : schedule.Exact where
  names := by
    rw [names_eq, List.Nodup, pairwise_map, pairwise_iff_getElem]
    intro i j below below' earlier same
    have one := consistent.names i j _ _ (getElem?_eq_getElem below)
      (getElem?_eq_getElem below') same
    omega
  found name i := by
    rw [← exists_declaration_iff (·.name = name)]
    constructor
    · exact find?_eq_some
    · rintro ⟨declaration, atIndex, rfl⟩
      exact consistent.find?_of_getElem? atIndex
  makers artifact i := by
    rw [← exists_declaration_iff (artifact ∈ ·.produces)]
    exact ⟨makes_of_producer?, consistent.producer?_of_makes⟩
  users artifact i := by
    rw [← exists_declaration_iff (artifact ∈ ·.consumes)]
    exact mem_consumers
  vertices v := by rw [consistent.vertices, length_declarations]
  edges a b := by
    rw [Graph.hasEdge, decide_eq_true_iff, consistent.edges, feedsAt_declarations]
  acyclic v := by
    simp only [Graph.hasEdge, decide_eq_true_iff]
    exact Graph.not_transGen_self consistent.acyclic v

/-! ### Accepting a task -/

namespace Consistent

variable (consistent : schedule.Consistent)
include consistent

theorem exists_enroll_iff : (∃ extended, enroll declaration task schedule = .ok () extended) ↔
    schedule.refusal? declaration = none ∧
      ∀ i, ¬ Relation.TransGen (FeedsAt (schedule.declarations ++ [declaration])) i i := by
  obtain ⟨graph, made⟩ := consistent.exists_drawn declaration
  have acyclic : graph.findCycle? = none ↔
      ∀ i, ¬ Relation.TransGen (FeedsAt (schedule.declarations ++ [declaration])) i i := by
    have edges : (fun u w => w ∈ graph.after u) =
        FeedsAt (schedule.declarations ++ [declaration]) :=
      funext fun a => funext fun b => propext (consistent.mem_after_drawn task made a b)
    rw [Graph.findCycle?_eq_none, edges]
  simp only [enroll_eq_ok, made, Except.ok.injEq, ← acyclic]
  constructor
  · rintro ⟨_, passed, _, rfl, clear, _⟩
    exact ⟨passed, clear⟩
  · rintro ⟨passed, clear⟩
    exact ⟨_, passed, graph, rfl, clear, rfl⟩

end Consistent

/-- Being refused outright, said of the declarations. -/
theorem refusal?_eq_none_iff : schedule.refusal? declaration = none ↔
    declaration.name ∉ schedule.names ∧
      ∀ other ∈ schedule.declarations, ∀ artifact ∈ declaration.produces,
        artifact ∉ other.produces := by
  have unnamed : schedule.find? declaration.name = none ↔ declaration.name ∉ schedule.names := by
    rw [find?_eq_none, names_eq]
    simp
  have unmade : (∀ artifact ∈ declaration.produces, schedule.producer? artifact = none) ↔
      ∀ other ∈ schedule.declarations, ∀ artifact ∈ declaration.produces,
        artifact ∉ other.produces := by
    simp only [producer?_eq_none]
    exact ⟨fun none other registered artifact makes => none artifact makes other registered,
      fun none artifact makes other registered => none other registered artifact makes⟩
  rw [refusal?_eq_none, unnamed, unmade]

/-- Whatever tasks were offered before, the schedule shows exactly those that were accepted. The
next task is accepted exactly if its name is free, nothing it makes is made already, and no cycle of
makers and users runs through the declarations with its own; it then comes last. Otherwise nothing
changes, and a cycle that is reported is one, through the refused task. -/
theorem registration_exact {τ : Type} (offered : List (Declaration × τ))
    (declaration : Declaration) (task : τ) :
    let schedule := registerAll offered
    let declared := schedule.declarations ++ [declaration]
    schedule.Exact ∧
    ((∃ extended, enroll declaration task schedule = .ok () extended) ↔
      declaration.name ∉ schedule.names ∧
      (∀ other ∈ schedule.declarations, ∀ artifact ∈ declaration.produces,
        artifact ∉ other.produces) ∧
      ∀ i, ¬ Relation.TransGen (FeedsAt declared) i i) ∧
    (∀ extended, enroll declaration task schedule = .ok () extended →
      extended.slots = schedule.slots ++ [{ declaration with task := some task }] ∧
      extended.done = schedule.done) ∧
    ∀ fault after, enroll declaration task schedule = .error fault after →
      after = schedule ∧ ∀ names, fault = .cyclicTasks names →
        ClosedWalk (FeedsNamed declared) names ∧ declaration.name ∈ names := by
  intro schedule declared
  have consistent : schedule.Consistent := consistent_registerAll offered
  refine ⟨consistent.exact, ?_, fun _ => slots_of_enroll,
    fun _ _ failed => consistent.enroll_eq_error failed⟩
  rw [consistent.exists_enroll_iff, refusal?_eq_none_iff, and_assoc]

/-- Two tasks are accepted, and a third that would feed the first from the second is not. -/
theorem registration_exact_cycle :
    let offered : List (Declaration × Unit) :=
      [(⟨"facts", ["calls"], ["facts"]⟩, ()), (⟨"targets", ["facts"], ["targets"]⟩, ())]
    let last : Declaration := ⟨"calls", ["targets"], ["calls"]⟩
    let names := ["facts", "targets", "calls", "facts"]
    (registerAll offered).names = ["facts", "targets"] ∧
    enroll last () (registerAll offered) = .error (.cyclicTasks names) (registerAll offered) ∧
    ClosedWalk (FeedsNamed ((registerAll offered).declarations ++ [last])) names ∧
    last.name ∈ names := by
  intro offered last names
  have accepted : (registerAll offered).names = ["facts", "targets"] := by
    decide +kernel
  have evaluated : ((enroll last ()).outcome (registerAll offered)).map (·.1) =
      .error (.cyclicTasks names) := by decide +kernel
  have refused := error_of_outcome evaluated
  obtain ⟨same, walk⟩ := (registration_exact offered last ()).2.2.2 _ _ refused
  rw [same] at refused
  exact ⟨accepted, refused, walk names rfl⟩

end Schedule

end ProgramAnalysis
