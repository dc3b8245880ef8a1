import ProgramAnalysis.Proofs.Graph.Ordering
import ProgramAnalysis.Proofs.Graph.Removal
import ProgramAnalysis.Schedule

/-!
What registration keeps. A task is entered in the tables of a schedule when it is accepted, and they
are not made anew; that they answer as a search through all declarations would is shown first. In a
consistent schedule names and makers are unique, the edges are those of the declarations, and there
is no cycle (`Consistent`). Accepting a task keeps all of this.
-/

namespace ProgramAnalysis

open List Step

namespace Lookup

theorem get?_foldl_insert (keys : List String) (index : Nat) (table : Table String Nat)
    (key : String) : (keys.foldl (fun table key => table.insert key index) table).get? key =
      if key ∈ keys then some index else table.get? key := by
  induction keys generalizing table with
  | nil => rfl
  | cons first rest ih =>
    rw [foldl_cons, ih, Table.get?_insert]
    by_cases later : key ∈ rest
    · simp [later]
    · simp [later, eq_comm]

theorem mem_foldl_update (keys : List String) (index i : Nat) (table : Table String (List Nat))
    (key : String) :
    i ∈ ((keys.foldl (fun table key => table.update key [] (· ++ [index])) table).get? key).getD []
      ↔ i ∈ (table.get? key).getD [] ∨ key ∈ keys ∧ i = index := by
  induction keys generalizing table with
  | nil => simp
  | cons first rest ih =>
    rw [foldl_cons, ih, Table.update, Table.get?_insert]
    by_cases here : first = key
    · rw [if_pos here, here, Option.getD_some, mem_append, mem_singleton, or_assoc]
      exact or_congr_right (by simp)
    · simp [here, Ne.symm here]

theorem getElem?_append_of_some {declared more : List Declaration} {declaration : Declaration}
    {i : Nat} (found : declared[i]? = some declaration) :
    (declared ++ more)[i]? = some declaration :=
  (getElem?_append_left (List.getElem?_eq_some_iff.mp found).1).trans found

/-- A table in which tasks are entered under some keys, one after the other, finds a task with a key
exactly if there is one. -/
theorem get?_entered {table : List Declaration → Table String Nat}
    {keys : Declaration → List String} (start : table [] = .empty)
    (next : ∀ declared declaration, table (declared ++ [declaration]) =
      (keys declaration).foldl (fun table key => table.insert key declared.length) (table declared))
    (declared : List Declaration) (key : String) :
    (∀ i, (table declared).get? key = some i →
      ∃ declaration, declared[i]? = some declaration ∧ key ∈ keys declaration) ∧
    ((table declared).get? key = none ↔ ∀ declaration ∈ declared, key ∉ keys declaration) := by
  induction declared using List.reverseRecOn with
  | nil =>
    rw [start]
    exact ⟨nofun, iff_of_true rfl nofun⟩
  | append_singleton declared last ih =>
    rw [next, get?_foldl_insert, forall_mem_append, forall_mem_singleton]
    by_cases has : key ∈ keys last
    · rw [if_pos has]
      refine ⟨?_, iff_of_false nofun fun missing => missing.2 has⟩
      rintro _ ⟨⟩
      exact ⟨last, getElem?_concat_length, has⟩
    · rw [if_neg has]
      refine ⟨fun i found => ?_, ih.2.trans (and_iff_left has).symm⟩
      obtain ⟨declaration, atIndex, has⟩ := ih.1 i found
      exact ⟨declaration, getElem?_append_of_some atIndex, has⟩

theorem mem_consumers_ofList (declared : List Declaration) (artifact : String) (i : Nat) :
    i ∈ ((ofList declared).consumers.get? artifact).getD [] ↔
      ∃ declaration, declared[i]? = some declaration ∧ artifact ∈ declaration.consumes := by
  induction declared using List.reverseRecOn with
  | nil => simp [ofList, empty, Table.empty, Table.get?, Table.find]
  | append_singleton declared last ih =>
    rw [ofList_concat, enter, mem_foldl_update, ih]
    constructor
    · rintro (⟨declaration, atIndex, needs⟩ | ⟨needs, rfl⟩)
      · exact ⟨declaration, getElem?_append_of_some atIndex, needs⟩
      · exact ⟨last, getElem?_concat_length, needs⟩
    · rintro ⟨declaration, atIndex, needs⟩
      rw [getElem?_append] at atIndex
      split at atIndex
      · exact .inl ⟨declaration, atIndex, needs⟩
      · next past =>
        obtain ⟨here, rfl⟩ := List.getElem?_eq_some_iff.mp atIndex
        rw [length_singleton] at here
        exact .inr ⟨by simpa using needs, by omega⟩

end Lookup

namespace Schedule

variable {τ : Type}

/-- The task at an index makes an artifact. -/
def Makes (schedule : Schedule τ) (i : Nat) (artifact : String) : Prop :=
  ∃ declaration, schedule.declarations[i]? = some declaration ∧ artifact ∈ declaration.produces

/-- The task at an index needs an artifact. -/
def Needs (schedule : Schedule τ) (i : Nat) (artifact : String) : Prop :=
  ∃ declaration, schedule.declarations[i]? = some declaration ∧ artifact ∈ declaration.consumes

instance (schedule : Schedule τ) (i : Nat) (artifact : String) :
    Decidable (schedule.Needs i artifact) :=
  inferInstanceAs (Decidable (∃ declaration ∈ schedule.declarations[i]?,
    artifact ∈ declaration.consumes))

/-- What registration keeps. -/
structure Consistent (schedule : Schedule τ) : Prop where
  names : ∀ (i j : Nat) (first second : Declaration), schedule.declarations[i]? = some first →
    schedule.declarations[j]? = some second → first.name = second.name → i = j
  makers : ∀ i j artifact, schedule.Makes i artifact → schedule.Makes j artifact → i = j
  vertices : ∀ v, schedule.graph.hasVertex v = true ↔ v < schedule.declarations.length
  edges : ∀ a b, b ∈ schedule.graph.after a ↔
    ∃ artifact, schedule.Makes a artifact ∧ schedule.Needs b artifact
  acyclic : WellFounded schedule.graph.Follows
  coherent : schedule.graph.Coherent

/-! ### Looking tasks up -/

theorem length_declarations (schedule : Schedule τ) :
    schedule.declarations.length = schedule.slots.length := length_map _

theorem getElem?_declarations (schedule : Schedule τ) (i : Nat) :
    schedule.declarations[i]? = (schedule.slots[i]?).map (·.toDeclaration) := getElem?_map

theorem lookup_eq (schedule : Schedule τ) : schedule.lookup = .ofList schedule.declarations :=
  schedule.entered

theorem nameAt_eq (schedule : Schedule τ) (i : Nat) :
    schedule.nameAt i = ((schedule.declarations[i]?).map (·.name)).getD "" := by
  rw [nameAt, getElem?_declarations, Option.map_map]
  rfl

variable {i : Nat}

theorem nameAt_of_getElem? {schedule : Schedule τ}
    (found : schedule.declarations[i]? = some declaration) :
    schedule.nameAt i = declaration.name := by
  rw [nameAt_eq, found]
  rfl

theorem lt_of_getElem? {schedule : Schedule τ}
    (found : schedule.declarations[i]? = some declaration) : i < schedule.declarations.length :=
  (List.getElem?_eq_some_iff.mp found).1

theorem exists_of_lt {schedule : Schedule τ} (below : i < schedule.declarations.length) :
    ∃ declaration, schedule.declarations[i]? = some declaration :=
  ⟨_, getElem?_eq_getElem below⟩

theorem byName_cases (schedule : Schedule τ) (name : String) :
    (∀ i, schedule.find? name = some i →
      ∃ declaration, schedule.declarations[i]? = some declaration ∧ name ∈ [declaration.name]) ∧
    (schedule.find? name = none ↔ ∀ declaration ∈ schedule.declarations,
      name ∉ [declaration.name]) := by
  rw [find?, lookup_eq]
  exact @Lookup.get?_entered (fun declared => (Lookup.ofList declared).byName) _ rfl
    (fun declared declaration => by rw [Lookup.ofList_concat]; rfl) _ name

theorem producers_cases (schedule : Schedule τ) (artifact : String) :
    (∀ i, schedule.producer? artifact = some i → schedule.Makes i artifact) ∧
    (schedule.producer? artifact = none ↔ ∀ declaration ∈ schedule.declarations,
      artifact ∉ declaration.produces) := by
  rw [producer?, lookup_eq]
  exact @Lookup.get?_entered (fun declared => (Lookup.ofList declared).producers) _ rfl
    (fun declared declaration => by rw [Lookup.ofList_concat]; rfl) _ artifact

variable {name : String}

theorem find?_eq_some {schedule : Schedule τ} (found : schedule.find? name = some i) :
    ∃ declaration, schedule.declarations[i]? = some declaration ∧ declaration.name = name := by
  simpa only [mem_singleton, eq_comm] using (schedule.byName_cases name).1 i found

theorem find?_eq_none {schedule : Schedule τ} : schedule.find? name = none ↔
    ∀ declaration ∈ schedule.declarations, declaration.name ≠ name := by
  simpa only [mem_singleton, ne_comm] using (schedule.byName_cases name).2

variable {artifact : String}

theorem makes_of_producer? {schedule : Schedule τ} (found : schedule.producer? artifact = some i) :
    schedule.Makes i artifact := (schedule.producers_cases artifact).1 i found

theorem producer?_eq_none {schedule : Schedule τ} : schedule.producer? artifact = none ↔
    ∀ declaration ∈ schedule.declarations, artifact ∉ declaration.produces :=
  (schedule.producers_cases artifact).2

theorem not_makes_of_producer? {schedule : Schedule τ}
    (missing : schedule.producer? artifact = none) (i : Nat) : ¬ schedule.Makes i artifact := by
  rintro ⟨declaration, found, makes⟩
  exact producer?_eq_none.mp missing declaration (mem_of_getElem? found) makes

namespace Consistent

variable {schedule : Schedule τ} (consistent : schedule.Consistent)
include consistent

theorem find?_of_getElem? (found : schedule.declarations[i]? = some declaration) :
    schedule.find? declaration.name = some i := by
  cases answer : schedule.find? declaration.name with
  | none => exact absurd rfl (find?_eq_none.mp answer _ (mem_of_getElem? found))
  | some j =>
    obtain ⟨other, atIndex, named⟩ := find?_eq_some answer
    rw [consistent.names j i other declaration atIndex found named]

theorem producer?_of_makes (makes : schedule.Makes i artifact) :
    schedule.producer? artifact = some i := by
  cases answer : schedule.producer? artifact with
  | none => exact absurd makes (not_makes_of_producer? answer i)
  | some j => rw [consistent.makers j i artifact (makes_of_producer? answer) makes]

theorem nameAt_injective (registered : i < schedule.declarations.length)
    (registered' : j < schedule.declarations.length)
    (same : schedule.nameAt i = schedule.nameAt j) : i = j := by
  obtain ⟨first, atFirst⟩ := exists_of_lt registered
  obtain ⟨second, atSecond⟩ := exists_of_lt registered'
  rw [nameAt_of_getElem? atFirst, nameAt_of_getElem? atSecond] at same
  exact consistent.names i j first second atFirst atSecond same

theorem closed : schedule.graph.Closed := by
  intro v w edge
  obtain ⟨artifact, _, declaration, found, _⟩ := (consistent.edges v w).mp edge
  exact (consistent.vertices w).mpr (lt_of_getElem? found)

end Consistent

/-! ### Changes that leave declarations alone -/

theorem declarations_put (schedule : Schedule τ) (i : Nat) (task : Option τ) :
    (schedule.put i task).declarations = schedule.declarations := map_toDeclaration_modify _ _ _

variable {other : Schedule τ}

theorem Consistent.congr {schedule : Schedule τ} (consistent : schedule.Consistent)
    (declared : other.declarations = schedule.declarations) (same : other.graph = schedule.graph) :
    other.Consistent := by
  obtain ⟨names, makers, vertices, edges, acyclic, coherent⟩ := consistent
  unfold Makes Needs at *
  constructor
  all_goals
    simp only [Makes, Needs, declared, same]
    assumption

theorem nameAt_congr {schedule : Schedule τ} (declared : other.declarations = schedule.declarations)
    (i : Nat) :
    other.nameAt i = schedule.nameAt i := by
  rw [nameAt_eq, nameAt_eq, declared]

theorem find?_congr {schedule : Schedule τ} (declared : other.declarations = schedule.declarations)
    (name : String) :
    other.find? name = schedule.find? name := by
  rw [find?, find?, lookup_eq, lookup_eq, declared]

theorem producer?_congr {schedule : Schedule τ}
    (declared : other.declarations = schedule.declarations) (artifact : String) :
    other.producer? artifact = schedule.producer? artifact := by
  rw [producer?, producer?, lookup_eq, lookup_eq, declared]

theorem makes_congr {schedule : Schedule τ}
    (declared : other.declarations = schedule.declarations) :
    other.Makes i artifact ↔ schedule.Makes i artifact := by
  rw [Makes, Makes, declared]

theorem needs_congr {schedule : Schedule τ}
    (declared : other.declarations = schedule.declarations) :
    other.Needs i artifact ↔ schedule.Needs i artifact := by
  rw [Needs, Needs, declared]

/-! ### Registering -/

section Enrolling

variable {schedule after : Schedule τ} {declaration : Declaration} {task : τ}

theorem refusal?_eq_none : schedule.refusal? declaration = none ↔
    schedule.find? declaration.name = none ∧
      ∀ artifact ∈ declaration.produces, schedule.producer? artifact = none := by
  have unmade : schedule.firstMade? declaration.produces = none ↔
      ∀ artifact ∈ declaration.produces, schedule.producer? artifact = none := by
    rw [firstMade?, findSome?_eq_none_iff]
    simp only [Option.map_eq_none_iff]
  unfold refusal?
  rw [← unmade, hasTask]
  cases schedule.find? declaration.name with
  | none => simp
  | some i => simp

theorem changeGraph_eq_ok : changeGraph change schedule = .ok () after ↔
      ∃ graph, change schedule.graph = .ok graph ∧ after = { schedule with graph } := by
  show EStateM.bind (ofExcept (change schedule.graph)) _ schedule = _ ↔ _
  cases change schedule.graph with
  | ok graph =>
    constructor
    · intro changed
      cases changed
      exact ⟨graph, rfl, rfl⟩
    · rintro ⟨_, same, rfl⟩
      cases same
      rfl
  | error fault =>
    constructor
    · intro impossible
      cases impossible
    · rintro ⟨_, impossible, _⟩
      cases impossible

/-- A change of the graph and what follows it make one change, as long as both succeed. -/
theorem changeGraph_bind_eq_ok {rest : Step (Schedule τ) Unit}
    {further : Graph → Except Fault Graph} (follows : ∀ graph, rest { schedule with graph } = .ok () after ↔
      ∃ last, further graph = .ok last ∧ after = { schedule with graph := last }) :
    (changeGraph change >>= fun _ => rest) schedule = .ok () after ↔
      ∃ graph, (change schedule.graph >>= further) = .ok graph ∧
        after = { schedule with graph } := by
  rw [bind_eq_ok]
  constructor
  · rintro ⟨_, between, first, later⟩
    obtain ⟨graph, changed, rfl⟩ := changeGraph_eq_ok.mp first
    obtain ⟨last, others, rfl⟩ := (follows graph).mp later
    exact ⟨last, except_bind_eq_ok.mpr ⟨graph, changed, others⟩, rfl⟩
  · rintro ⟨last, changed, rfl⟩
    obtain ⟨graph, first, others⟩ := except_bind_eq_ok.mp changed
    exact ⟨(), { schedule with graph }, changeGraph_eq_ok.mpr ⟨graph, first, rfl⟩,
      (follows graph).mpr ⟨last, others, rfl⟩⟩

theorem forM_insertEdge_eq_ok {edges : List (Nat × Nat)} :
    (edges.forM fun edge => changeGraph (·.insertEdge edge.1 edge.2)) schedule = .ok () after ↔
      ∃ graph, edges.foldlM (fun graph edge => graph.insertEdge edge.1 edge.2) schedule.graph =
        .ok graph ∧ after = { schedule with graph } := by
  induction edges generalizing schedule with
  | nil =>
    constructor
    · intro same
      cases same
      exact ⟨_, rfl, rfl⟩
    · rintro ⟨_, same, rfl⟩
      cases same
      rfl
  | cons edge rest ih =>
    rw [foldlM_cons]
    exact changeGraph_bind_eq_ok fun _ => ih

/-- The graph with the vertex of a new task and its edges. -/
def drawn (schedule : Schedule τ) (declaration : Declaration) : Except Fault Graph := do
  let withVertex ← schedule.graph.insertVertex schedule.slots.length declaration.name
  (schedule.newEdges declaration).foldlM (fun graph edge => graph.insertEdge edge.1 edge.2)
    withVertex

theorem drawTask_eq_ok : drawTask declaration schedule = .ok () after ↔
    ∃ graph, schedule.drawn declaration = .ok graph ∧ after = { schedule with graph } :=
  changeGraph_bind_eq_ok fun _ => forM_insertEdge_eq_ok

theorem enroll_of_refusal (refused : schedule.refusal? declaration = some fault) :
    enroll declaration task schedule = .error fault schedule := by
  unfold enroll
  rw [get_bind, refused]
  rfl

theorem enroll_of_passed (passed : schedule.refusal? declaration = none) :
    enroll declaration task schedule =
      (drawTask declaration >>= fun _ => MonadState.get >>= fun drawn =>
        match drawn.graph.findCycle? with
        | some cycle => do
          changeGraph (·.remove schedule.slots.length)
          throw (.cyclicTasks (cycle.map fun v =>
            if v = schedule.slots.length then declaration.name else schedule.nameAt v))
        | none => modify (·.push declaration task)) schedule := by
  unfold enroll
  rw [get_bind]
  cases outcome : schedule.refusal? declaration with
  | none => rfl
  | some fault => cases passed.symm.trans outcome

/-- A task is added exactly if it is not refused and the graph that it makes has no cycle. -/
theorem enroll_eq_ok : enroll declaration task schedule = .ok () after ↔
    schedule.refusal? declaration = none ∧ ∃ graph, schedule.drawn declaration = .ok graph ∧
      graph.findCycle? = none ∧ after = { schedule.push declaration task with graph } := by
  cases passed : schedule.refusal? declaration with
  | some fault =>
    rw [enroll_of_refusal passed]
    simp
  | none =>
    rw [enroll_of_passed passed, bind_eq_ok]
    constructor
    · rintro ⟨_, _, drawing, rest⟩
      obtain ⟨graph, made, rfl⟩ := drawTask_eq_ok.mp drawing
      rw [get_bind] at rest
      cases cycle : graph.findCycle? with
      | some vertices =>
        simp only [cycle] at rest
        obtain ⟨_, _, _, impossible⟩ := bind_eq_ok.mp rest
        cases impossible
      | none =>
        simp only [cycle] at rest
        cases rest
        exact ⟨rfl, graph, made, cycle, rfl⟩
    · rintro ⟨_, graph, made, clear, rfl⟩
      refine ⟨(), _, drawTask_eq_ok.mpr ⟨graph, made, rfl⟩, bind_eq_ok.mpr ⟨_, _, rfl, ?_⟩⟩
      simp only [clear]
      rfl

theorem slots_of_enroll (enrolled : enroll declaration task schedule = .ok () extended) :
    extended.slots = schedule.slots ++ [{ declaration with task := some task }] ∧
      extended.done = schedule.done := by
  obtain ⟨_, _, _, _, rfl⟩ := enroll_eq_ok.mp enrolled
  exact ⟨rfl, rfl⟩

end Enrolling

theorem mem_consumers {schedule : Schedule τ} :
    i ∈ schedule.consumers artifact ↔ schedule.Needs i artifact := by
  rw [consumers, lookup_eq, Lookup.mem_consumers_ofList]
  rfl

/-- The edges a new task brings: from the makers of what it needs, from itself to the tasks that
need what it makes, and to itself if it needs what it makes. -/
theorem mem_newEdges {schedule : Schedule τ} : (a, b) ∈ schedule.newEdges declaration ↔
      (∃ artifact ∈ declaration.consumes, schedule.producer? artifact = some a ∧
        b = schedule.slots.length) ∨
      (∃ artifact ∈ declaration.consumes, artifact ∈ declaration.produces ∧
        a = schedule.slots.length ∧ b = schedule.slots.length) ∨
      ∃ artifact ∈ declaration.produces, a = schedule.slots.length ∧ schedule.Needs b artifact := by
  unfold newEdges
  rw [mem_append, mem_flatMap, mem_flatMap]
  constructor
  · rintro (⟨artifact, needs, mem⟩ | ⟨artifact, makes, mem⟩)
    · rcases mem_append.mp mem with fromMaker | toItself
      · obtain ⟨i, found, same⟩ := Option.map_eq_some_iff.mp (Option.mem_toList.mp fromMaker)
        cases same
        exact .inl ⟨artifact, needs, found, rfl⟩
      · split at toItself
        · next makes =>
          cases mem_singleton.mp toItself
          exact .inr (.inl ⟨artifact, needs, makes, rfl, rfl⟩)
        · cases toItself
    · obtain ⟨i, consumes, same⟩ := mem_map.mp mem
      cases same
      exact .inr (.inr ⟨artifact, makes, rfl, mem_consumers.mp consumes⟩)
  · rintro (⟨artifact, needs, found, rfl⟩ | ⟨artifact, needs, makes, rfl, rfl⟩ |
      ⟨artifact, makes, rfl, consumes⟩)
    · refine .inl ⟨artifact, needs, mem_append_left _ ?_⟩
      rw [found]
      exact mem_singleton.mpr rfl
    · refine .inl ⟨artifact, needs, mem_append_right _ ?_⟩
      rw [if_pos makes]
      exact mem_singleton.mpr rfl
    · exact .inr ⟨artifact, makes, mem_map.mpr ⟨b, mem_consumers.mpr consumes, rfl⟩⟩

section Extension

variable {schedule extended : Schedule τ} {declaration : Declaration} {task : τ}
  (slots : extended.slots = schedule.slots ++ [{ declaration with task := some task }])
include slots

theorem declarations_extended : extended.declarations = schedule.declarations ++ [declaration] := by
  rw [declarations, slots, map_append]
  rfl

theorem getElem?_extended (i : Nat) (other : Declaration) : extended.declarations[i]? = some other ↔
      schedule.declarations[i]? = some other ∨
        (i = schedule.slots.length ∧ other = declaration) := by
  rw [declarations_extended slots, getElem?_append, length_declarations]
  split
  · next below => simp [Nat.ne_of_lt below]
  · next above =>
    have outside : schedule.declarations[i]? = none :=
      getElem?_eq_none (by rw [length_declarations]; omega)
    rw [outside, getElem?_singleton]
    split
    · next zero =>
      have same : i = schedule.slots.length := by omega
      simp [same, eq_comm]
    · next positive =>
      have other : i ≠ schedule.slots.length := by omega
      simp [other]

theorem exists_extended (holds : Declaration → Prop) (i : Nat) :
    (∃ other, extended.declarations[i]? = some other ∧ holds other) ↔
      (∃ other, schedule.declarations[i]? = some other ∧ holds other) ∨
        (i = schedule.slots.length ∧ holds declaration) := by
  simp only [getElem?_extended slots]
  constructor
  · rintro ⟨other, old | ⟨last, rfl⟩, has⟩
    · exact .inl ⟨other, old, has⟩
    · exact .inr ⟨last, has⟩
  · rintro (⟨other, old, has⟩ | ⟨last, has⟩)
    · exact ⟨other, .inl old, has⟩
    · exact ⟨declaration, .inr ⟨last, rfl⟩, has⟩

theorem makes_extended (i : Nat) (artifact : String) :
    extended.Makes i artifact ↔ schedule.Makes i artifact ∨
      (i = schedule.slots.length ∧ artifact ∈ declaration.produces) :=
  exists_extended slots (artifact ∈ ·.produces) i

theorem needs_extended (i : Nat) (artifact : String) :
    extended.Needs i artifact ↔ schedule.Needs i artifact ∨
      (i = schedule.slots.length ∧ artifact ∈ declaration.consumes) :=
  exists_extended slots (artifact ∈ ·.consumes) i

/-- What holds of the tasks in their slots and of a new one holds of all. -/
theorem forall_task_extended {holds : Slot τ → τ → Prop}
    (old : ∀ slot ∈ schedule.slots, ∀ other, slot.task = some other → holds slot other)
    (new : holds { declaration with task := some task } task) :
    ∀ slot ∈ extended.slots, ∀ other, slot.task = some other → holds slot other := by
  intro slot mem other full
  rw [slots] at mem
  rcases mem_append.mp mem with before | last
  · exact old slot before other full
  · obtain rfl := mem_singleton.mp last
    cases full
    exact new

end Extension

theorem Consistent.edges_drawn {schedule extended : Schedule τ} (consistent : schedule.Consistent)
    (slots : extended.slots = schedule.slots ++ [{ declaration with task := some task }])
    (made : schedule.drawn declaration = .ok extended.graph) (a b : Nat) :
    b ∈ extended.graph.after a ↔
      ∃ artifact, extended.Makes a artifact ∧ extended.Needs b artifact := by
  obtain ⟨withVertex, vertex, edges⟩ := except_bind_eq_ok.mp made
  rw [(Graph.insertEdges_eq_ok edges).2, Graph.mem_after_insertVertex vertex, consistent.edges,
    mem_newEdges]
  simp only [makes_extended slots, needs_extended slots]
  constructor
  · rintro (⟨artifact, makes, needs⟩ | ⟨artifact, needs, found, rfl⟩ |
      ⟨artifact, needs, makes, rfl, rfl⟩ | ⟨artifact, makes, rfl, needs⟩)
    · exact ⟨artifact, .inl makes, .inl needs⟩
    · exact ⟨artifact, .inl (makes_of_producer? found), .inr ⟨rfl, needs⟩⟩
    · exact ⟨artifact, .inr ⟨rfl, makes⟩, .inr ⟨rfl, needs⟩⟩
    · exact ⟨artifact, .inr ⟨rfl, makes⟩, .inl needs⟩
  · rintro ⟨artifact, makes | ⟨rfl, makes⟩, needs | ⟨rfl, needs⟩⟩
    · exact .inl ⟨artifact, makes, needs⟩
    · exact .inr (.inl ⟨artifact, needs, consistent.producer?_of_makes makes, rfl⟩)
    · exact .inr (.inr (.inr ⟨artifact, makes, rfl, needs⟩))
    · exact .inr (.inr (.inl ⟨artifact, needs, makes, rfl, rfl⟩))

theorem Consistent.of_enroll {schedule : Schedule τ} (consistent : schedule.Consistent)
    (enrolled : enroll declaration task schedule = .ok () extended) :
    extended.Consistent := by
  obtain ⟨slots, _⟩ := slots_of_enroll enrolled
  obtain ⟨passed, graph, made, clear, rfl⟩ := enroll_eq_ok.mp enrolled
  obtain ⟨unnamed, unmade⟩ := refusal?_eq_none.mp passed
  obtain ⟨withVertex, vertex, edges⟩ := except_bind_eq_ok.mp made
  constructor
  · intro i j first second atFirst atSecond named
    rcases (getElem?_extended slots i first).mp atFirst with old | ⟨rfl, rfl⟩ <;>
      rcases (getElem?_extended slots j second).mp atSecond with old' | ⟨rfl, rfl⟩
    · exact consistent.names i j first second old old' named
    · exact absurd named (find?_eq_none.mp unnamed _ (mem_of_getElem? old))
    · exact absurd named.symm (find?_eq_none.mp unnamed _ (mem_of_getElem? old'))
    · rfl
  · intro i j artifact first second
    rcases (makes_extended slots i artifact).mp first with old | ⟨rfl, made⟩ <;>
      rcases (makes_extended slots j artifact).mp second with old' | ⟨rfl, made'⟩
    · exact consistent.makers i j artifact old old'
    · exact absurd old (not_makes_of_producer? (unmade artifact made') i)
    · exact absurd old' (not_makes_of_producer? (unmade artifact made) j)
    · rfl
  · intro v
    rw [(Graph.insertEdges_eq_ok edges).1, Graph.hasVertex_insertVertex vertex, consistent.vertices,
      declarations_extended slots, length_append, length_declarations, length_singleton]
    omega
  · exact consistent.edges_drawn slots made
  · exact Graph.wellFounded_after clear
  · exact ((consistent.coherent.insertVertex vertex).insertEdges edges).1

theorem consistent_empty : (empty : Schedule τ).Consistent := by
  have noTask (i : Nat) : (empty : Schedule τ).declarations[i]? = none := rfl
  have noEdge (a b : Nat) : b ∉ (empty : Schedule τ).graph.after a := by
    intro edge
    cases edge
  constructor
  · intro i j first second found
    rw [noTask] at found
    cases found
  · rintro i j artifact ⟨declaration, found, _⟩
    rw [noTask] at found
    cases found
  · intro v
    constructor
    · intro isVertex
      cases isVertex
    · intro below
      exact absurd below (Nat.not_lt_zero v)
  · intro a b
    constructor
    · intro edge
      exact absurd edge (noEdge a b)
    · rintro ⟨artifact, ⟨declaration, found, _⟩, _⟩
      rw [noTask] at found
      cases found
  · exact ⟨fun v => .intro v fun w edge => absurd edge (noEdge v w)⟩
  · exact Graph.coherent_empty

/-! ### Dependents -/

theorem mem_dependents {schedule : Schedule τ} (consistent : schedule.Consistent)
    (answered : schedule.dependents i = .ok found) :
    j ∈ found ↔ Reachable schedule.graph.after (schedule.graph.after i) j := by
  obtain ⟨reached, reaching, rest⟩ := except_bind_eq_ok.mp answered
  obtain ⟨order, ordered, same⟩ := except_bind_eq_ok.mp rest
  cases same
  rw [mem_filter, Graph.mem_topologicalOrder consistent.closed ordered, decide_eq_true_iff,
    Graph.mem_reachable reaching]
  refine and_iff_right_of_imp fun reachable => ?_
  cases reachable with
  | start edge => exact consistent.closed i j edge
  | step _ edge => exact consistent.closed _ j edge

theorem foldl_reset (schedule : Schedule τ) (indices : List Nat) : indices.foldl reset schedule =
      { schedule with done := schedule.done.filter (· ∉ indices) } := by
  induction indices generalizing schedule with
  | nil =>
    have same : schedule.done.filter (· ∉ ([] : List Nat)) = schedule.done :=
      SortedSet.ext fun i => by simp
    rw [same]
    rfl
  | cons first rest ih =>
    have same : (schedule.reset first).done.filter (· ∉ rest) =
        schedule.done.filter (· ∉ first :: rest) :=
      SortedSet.ext fun i => by simp [reset, and_assoc]
    rw [foldl_cons, ih, same]
    rfl

end Schedule

end ProgramAnalysis
