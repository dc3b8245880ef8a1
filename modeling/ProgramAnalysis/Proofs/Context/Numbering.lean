import ProgramAnalysis.Context.Abstraction
import ProgramAnalysis.Proofs.Context.Family
import ProgramAnalysis.Proofs.Facts

/-!
What the numbered contexts and the relations over them say about the contexts of methods. A plan
says for each method where its contexts come from, and a step leads through a call or an allocation
from one context to the next (`InvokeStep`, `AllocationStep`). The relations hold these steps
between numbers, and the contexts of a method can be read off them again (`Describes`).
-/

namespace ProgramAnalysis.Abstraction

open List Domain ContextFamily

/-! ### Methods and receivers by index -/

/-- An instruction is in the method that has an index among those of a domain. -/
def InMethod (program : Program) (methods : Domain .method) (site : InstId) (n : Nat) : Prop :=
  ∃ instruction, program.instructions[site]? = some instruction ∧
    methods.elements.idxOf? instruction.method = some n

/-- A method has a receiver, which has an index among the variables of a domain. -/
def HasReceiver (program : Program) (vars : Domain .var) (handle : MethodId) (v : Nat) : Prop :=
  ∃ method this, program.methods[handle]? = some method ∧ method.isStatic = false ∧
    method.vars.head? = some this ∧ vars.elements.idxOf? this = some v

theorem HasReceiver.unique {program : Program} {vars : Domain .var} {handle : MethodId}
    {v w : Nat} (first : HasReceiver program vars handle v)
    (second : HasReceiver program vars handle w) : v = w := by
  obtain ⟨method, this, found, _, isThis, index⟩ := first
  obtain ⟨_, _, found', _, isThis', index'⟩ := second
  cases found.symm.trans found'
  cases isThis.symm.trans isThis'
  exact Option.some.inj (index.symm.trans index')

/-- What is answered when the method around an instruction can be looked up. -/
theorem inMethod_iff {program : Program} {methods : Domain .method} {site : InstId}
    {answer : Option Nat} (asked : enclosingMethod program methods site = .ok answer) {n : Nat} :
    InMethod program methods site n ↔ answer = some n := by
  obtain ⟨instruction, found, index⟩ := enclosingMethod_eq_ok.mp asked
  obtain ⟨_, rfl⟩ := indexOf_eq_ok.mp index
  constructor
  · rintro ⟨_, found', isIndex⟩
    cases found.symm.trans found'
    exact isIndex
  · exact fun isIndex => ⟨instruction, found, isIndex⟩

theorem hasReceiver_iff {program : Program} {input : Input} {handle : MethodId}
    {answer : Option Nat} (asked : receiverOf program input handle = .ok answer) {v : Nat} :
    HasReceiver program input.vars handle v ↔ answer = some v := by
  obtain ⟨method, looked, rest⟩ := except_bind_eq_ok.mp asked
  have found := Program.entry_eq_ok.mp (mapError_eq_ok.mp looked)
  have receives (this : VarId) : method.receiver? = some this ↔
      method.isStatic = false ∧ method.vars.head? = some this := by
    unfold Method.receiver?
    cases method.isStatic <;> simp
  have unique : HasReceiver program input.vars handle v ↔ ∃ this, method.receiver? = some this ∧
      input.vars.elements.idxOf? this = some v := by
    simp only [receives]
    constructor
    · rintro ⟨_, this, found', notStatic, first, index⟩
      cases found.symm.trans found'
      exact ⟨this, ⟨notStatic, first⟩, index⟩
    · rintro ⟨this, ⟨notStatic, first⟩, index⟩
      exact ⟨method, this, found, notStatic, first, index⟩
  rw [unique]
  split at rest
  · next this received =>
    obtain ⟨_, rfl⟩ := indexOf_eq_ok.mp rest
    rw [received]
    simp
  · next none =>
    cases rest
    simp [none]

/-! ### Plans -/

variable {place : ContextSite} {i h : Nat}

section Plans

variable {abstraction : Abstraction} {options : Options} {program : Program} {input : Input}

variable {depth : InstId → Nat}

theorem place_iff {answer : Option ContextSite}
    (asked : Abstraction.place program input depth index site = .ok answer) :
    answer = some place ↔ ∃ n, InMethod program input.methods site n ∧
      place = { index, site, method := n, depth := depth site } := by
  obtain ⟨enclosing, found, same⟩ := except_bind_eq_ok.mp asked
  cases same
  rw [Option.map_eq_some_iff]
  exact exists_congr fun n => and_congr (inMethod_iff found).symm eq_comm

/-- What is found for the elements at some indices. -/
theorem mem_at_elements {kind : ElementKind} {domain : Domain kind} {indices : List Nat}
    {f : Nat → kind.Elem → Except Fault (Option β)} {gives : Nat → kind.Elem → Prop}
    (listed : (indices.filterMapM fun i => do f i (← domain.element i)) = .ok results)
    (answers : ∀ {i elem answer}, f i elem = .ok answer → (answer = some b ↔ gives i elem)) :
    b ∈ results ↔ ∃ i ∈ indices, ∃ elem, domain.elements[i]? = some elem ∧ gives i elem := by
  refine mem_filterMapM_iff listed fun made => ?_
  obtain ⟨elem, atIndex, rest⟩ := except_bind_eq_ok.mp made
  rw [answers rest, (element_eq_ok.mp atIndex).2]
  simp

theorem mem_placed {entries : List (Nat × InstId)} (placed : (entries.filterMapM fun entry =>
      Abstraction.place program input depth entry.1 entry.2) = .ok places) :
    place ∈ places ↔ ∃ entry ∈ entries, ∃ n, InMethod program input.methods entry.2 n ∧
      place = ⟨entry.1, entry.2, n, depth entry.2⟩ :=
  mem_filterMapM_iff placed place_iff

theorem mem_callersOf : i ∈ callersOf input m ↔ (i, m) ∈ input.calls := by
  simp [callersOf]

theorem mem_allocationsOf : h ∈ allocationsOf input v ↔ (v, h) ∈ input.pointsTo := by
  simp [allocationsOf]

variable {method : MethodId}

section Planned

variable {plans : List MethodPlan} {m : Nat} {plan : MethodPlan}
  (planned : Abstraction.plan abstraction options program input = .ok plans)
include planned

/-- The plan of a method: how it is analysed, at first and after refinement, and where its contexts
come from. -/
theorem plan_eq_ok (found : plans[m]? = some plan) : input.methods.elements[m]? = some plan.method ∧
    originOf abstraction options program input m plan.method plan.kind = .ok plan.origin ∧
    ∃ configured, configuredKind options program plan.method = .ok configured ∧
      plan.initial = (if options.maxIterations > 0 then .insensitive else configured) ∧
      plan.kind = if plan.method ∈ abstraction.promoted then configured else plan.initial := by
  obtain ⟨_, each⟩ := mapM_eq_ok planned
  obtain ⟨⟨n, method⟩, atIndex, made⟩ := each m plan found
  have mem := mem_of_getElem? atIndex
  obtain rfl : n = m := by
    unfold indexed at atIndex
    obtain ⟨first, _⟩ := getElem?_zip_eq_some.mp atIndex
    obtain ⟨_, same⟩ := List.getElem?_eq_some_iff.mp first
    rwa [getElem_range, eq_comm] at same
  obtain ⟨configured, isConfigured, rest⟩ := except_bind_eq_ok.mp made
  obtain ⟨origin, hasOrigin, same⟩ := except_bind_eq_ok.mp rest
  cases same
  exact ⟨mem_indexed.mp mem, hasOrigin, configured, isConfigured, rfl, rfl⟩

/-- The kind of a method: as configured if it is promoted or nothing is refined, and insensitive
otherwise. -/
theorem kind_eq_ok (found : plans[m]? = some plan) :
    ∃ configured, configuredKind options program plan.method = .ok configured ∧
      plan.kind = if plan.method ∈ abstraction.promoted ∨ options.maxIterations = 0 then configured
        else .insensitive := by
  obtain ⟨_, _, configured, isConfigured, initially, isKind⟩ := plan_eq_ok planned found
  refine ⟨configured, isConfigured, ?_⟩
  rw [isKind, initially]
  by_cases promoted : plan.method ∈ abstraction.promoted
  · simp [promoted]
  · by_cases once : options.maxIterations = 0
    · simp [once]
    · simp [promoted, once, Nat.pos_of_ne_zero once]

/-- Without refinement every method is analysed as the options say. -/
theorem configuredKind_eq_ok (once : options.maxIterations = 0) (found : plans[m]? = some plan) :
    configuredKind options program plan.method = .ok plan.kind := by
  obtain ⟨configured, isConfigured, isKind⟩ := kind_eq_ok planned found
  rw [isConfigured, isKind, if_pos (.inr once)]

theorem exists_plan (atIndex : input.methods.elements[m]? = some method) :
    ∃ plan, plans[m]? = some plan ∧ plan.method = method := by
  obtain ⟨length, _⟩ := mapM_eq_ok planned
  obtain ⟨below, _⟩ := List.getElem?_eq_some_iff.mp atIndex
  have below : m < plans.length := by
    rw [length, indexed, List.length_zip, List.length_range, size, Nat.min_self]
    exact below
  have found := getElem?_eq_getElem below
  refine ⟨plans[m], found, ?_⟩
  have same := (plan_eq_ok planned found).1
  rw [atIndex] at same
  exact (Option.some.inj same).symm

end Planned

variable {origin : Origin}

theorem originOf_callSite
    (made : originOf abstraction options program input m method .callSite = .ok origin) :
    ∃ places, origin = .through places ∧ ∀ place, place ∈ places ↔
      ∃ i, (i, m) ∈ input.calls ∧ ∃ site, input.invokes.elements[i]? = some site ∧
        ∃ n, InMethod program input.methods site n ∧
          place = ⟨i, site, n, abstraction.callDepth options site⟩ := by
  obtain ⟨places, placed, same⟩ := except_bind_eq_ok.mp made
  cases same
  refine ⟨places, rfl, fun place => ?_⟩
  rw [mem_at_elements placed place_iff]
  simp only [mem_callersOf]

theorem originOf_object
    (made : originOf abstraction options program input m method .object = .ok origin) :
    ∃ places, origin = .through places ∧ ∀ place, place ∈ places ↔
      ∃ h, (∃ v, HasReceiver program input.vars method v ∧ (v, h) ∈ input.pointsTo) ∧
        ∃ site, input.allocations.elements[h]? = some site ∧
          ∃ n, InMethod program input.methods site n ∧
            place = ⟨h, site, n, abstraction.objectDepth options site⟩ := by
  obtain ⟨receiver, found, rest⟩ := except_bind_eq_ok.mp made
  obtain ⟨places, placed, same⟩ := except_bind_eq_ok.mp rest
  cases same
  refine ⟨places, rfl, fun place => ?_⟩
  rw [mem_at_elements placed place_iff]
  simp only [mem_flatMap, Option.mem_toList, mem_allocationsOf, hasReceiver_iff found]

end Plans

/-! ### Steps between contexts -/

section Steps

variable (abstraction : Abstraction) (options : Options) (program : Program) (input : Input)
  (plans : List MethodPlan)

/-- A call site that may call a call-site sensitive method leads from a context of the method around
it to another context. -/
def InvokeStep (i : Nat) (before after : Context) : Prop :=
  ∃ site n m plan, input.invokes.elements[i]? = some site ∧
    (i, m) ∈ input.calls ∧ plans[m]? = some plan ∧ plan.kind = .callSite ∧
    InMethod program input.methods site n ∧
    before ∈ (familyOf plans).contextsOf n ∧
    after = .push (abstraction.callDepth options site) site before

/-- An allocation site leads from a context of the method around it to another context. -/
def AllocationStep (h : Nat) (before after : Context) : Prop :=
  ∃ site n, input.allocations.elements[h]? = some site ∧
    InMethod program input.methods site n ∧
    before ∈ (familyOf plans).contextsOf n ∧
    after = .push (abstraction.objectDepth options site) site before

/-- A step of either sort. -/
def AnyStep (before after : Context) : Prop :=
  ∃ i, InvokeStep abstraction options program input plans i before after ∨
    AllocationStep abstraction options program input plans i before after

variable {abstraction options program input plans} {places : List ContextSite}

theorem mem_expand : (place, context) ∈ expand family places ↔
      place ∈ places ∧ context ∈ family.contextsOf place.method := by
  simp only [expand, mem_flatMap, mem_map, Prod.mk.injEq]
  constructor
  · rintro ⟨other, among, before, had, rfl, rfl⟩
    exact ⟨among, had⟩
  · rintro ⟨among, had⟩
    exact ⟨place, among, context, had, rfl, rfl⟩

theorem mem_sensitiveInvokes : i ∈ sensitiveInvokes input plans ↔
      ∃ m plan, (i, m) ∈ input.calls ∧ plans[m]? = some plan ∧ plan.kind = .callSite := by
  simp only [sensitiveInvokes, mem_map, mem_filter, Prod.exists, exists_and_right,
    exists_eq_right, Option.any_eq_true, decide_eq_true_eq, exists_and_left]

variable {before after : Context}

theorem exists_mem_expand_invokePlaces
    (found : invokePlaces abstraction options program input plans = .ok places) :
    (∃ place, (place, before) ∈ expand (familyOf plans) places ∧ place.index = i ∧
      place.extend before = after) ↔
      InvokeStep abstraction options program input plans i before after := by
  simp only [mem_expand, mem_placed found]
  constructor
  · rintro ⟨_, ⟨⟨⟨index, site⟩, kept, n, enclosing, rfl⟩, had⟩, rfl, rfl⟩
    obtain ⟨indexed, sensitive⟩ := mem_filter.mp kept
    obtain ⟨m, plan, calls, planned, kind⟩ := mem_sensitiveInvokes.mp (of_decide_eq_true sensitive)
    exact ⟨site, n, m, plan, mem_indexed.mp indexed, calls, planned, kind, enclosing, had, rfl⟩
  · rintro ⟨site, n, m, plan, atIndex, calls, planned, kind, enclosing, had, rfl⟩
    have sensitive := mem_sensitiveInvokes.mpr ⟨m, plan, calls, planned, kind⟩
    have kept : (i, site) ∈ input.invokes.indexed.filter (·.1 ∈ sensitiveInvokes input plans) :=
      mem_filter.mpr ⟨mem_indexed.mpr atIndex, decide_eq_true sensitive⟩
    exact ⟨_, ⟨⟨(i, site), kept, n, enclosing, rfl⟩, had⟩, rfl, rfl⟩

theorem exists_mem_expand_allocationPlaces
    (found : allocationPlaces abstraction options program input = .ok places) :
    (∃ place, (place, before) ∈ expand (familyOf plans) places ∧ place.index = h ∧
      place.extend before = after) ↔
      AllocationStep abstraction options program input plans h before after := by
  simp only [mem_expand, mem_placed found]
  constructor
  · rintro ⟨_, ⟨⟨⟨index, site⟩, indexed, n, enclosing, rfl⟩, had⟩, rfl, rfl⟩
    exact ⟨site, n, mem_indexed.mp indexed, enclosing, had, rfl⟩
  · rintro ⟨site, n, atIndex, enclosing, had, rfl⟩
    exact ⟨_, ⟨⟨(h, site), mem_indexed.mpr atIndex, n, enclosing, rfl⟩, had⟩, rfl, rfl⟩

/-! ### Contexts of methods as ends of steps -/

section Ends

variable {m : Nat} {plan : MethodPlan} {context : Context}

theorem getElem?_origins (found : plans[m]? = some plan) :
    (plans.map (·.origin))[m]? = some plan.origin := by
  rw [getElem?_map, found]
  rfl

/-- The contexts of a method that is entered through sites. -/
theorem mem_contextsOf_through (found : plans[m]? = some plan)
    (through : plan.origin = .through places) : context ∈ (familyOf plans).contextsOf m ↔
      ∃ place ∈ places, ∃ before ∈ (familyOf plans).contextsOf place.method,
        place.extend before = context := by
  have origin := getElem?_origins found
  rw [through] at origin
  rw [familyOf, contextsOf_solve origin, SortedSet.mem_ofList, Origin.mem_gather_through]

variable (planned : Abstraction.plan abstraction options program input = .ok plans)
  (found : plans[m]? = some plan)
include planned found

theorem mem_contextsOf_callSite (kind : plan.kind = .callSite) :
    context ∈ (familyOf plans).contextsOf m ↔
      ∃ i before, InvokeStep abstraction options program input plans i before context ∧
        (i, m) ∈ input.calls := by
  obtain ⟨_, made, _⟩ := plan_eq_ok planned found
  rw [kind] at made
  obtain ⟨places, through, among⟩ := originOf_callSite made
  simp only [mem_contextsOf_through found through, among]
  constructor
  · rintro ⟨_, ⟨i, calls, site, atIndex, n, enclosing, rfl⟩, before, had, rfl⟩
    exact ⟨i, before, ⟨site, n, m, plan, atIndex, calls, found, kind, enclosing, had, rfl⟩, calls⟩
  · rintro ⟨i, before, ⟨site, n, _, _, atIndex, _, _, _, enclosing, had, rfl⟩, calls⟩
    exact ⟨_, ⟨i, calls, site, atIndex, n, enclosing, rfl⟩, before, had, rfl⟩

theorem mem_contextsOf_object (kind : plan.kind = .object) :
    context ∈ (familyOf plans).contextsOf m ↔
      ∃ h before, AllocationStep abstraction options program input plans h before context ∧
        ∃ v, HasReceiver program input.vars plan.method v ∧ (v, h) ∈ input.pointsTo := by
  obtain ⟨_, made, _⟩ := plan_eq_ok planned found
  rw [kind] at made
  obtain ⟨places, through, among⟩ := originOf_object made
  simp only [mem_contextsOf_through found through, among]
  constructor
  · rintro ⟨_, ⟨h, points, site, atIndex, n, enclosing, rfl⟩, before, had, rfl⟩
    exact ⟨h, before, ⟨site, n, atIndex, enclosing, had, rfl⟩, points⟩
  · rintro ⟨h, before, ⟨site, n, atIndex, enclosing, had, rfl⟩, points⟩
    exact ⟨_, ⟨h, points, site, atIndex, n, enclosing, rfl⟩, before, had, rfl⟩

end Ends

/-- Every context of a method is empty or the end of a step, whichever way the method is
analysed. -/
theorem reached_of_mem (planned : Abstraction.plan abstraction options program input = .ok plans)
    (mem : context ∈ (familyOf plans).contextsOf m) :
    context = .epsilon ∨
      ∃ before, AnyStep abstraction options program input plans before context := by
  have arises := mem_solve.mp mem
  induction arises with
  | start => exact .inl rfl
  | copying found among arises ih =>
    exact ih (mem_solve.mpr arises)
  | @through m places place before origin among arises =>
    right
    rw [getElem?_map] at origin
    obtain ⟨plan, found, through⟩ := Option.map_eq_some_iff.mp origin
    obtain ⟨_, made, _⟩ := plan_eq_ok planned found
    cases kind : plan.kind with
    | insensitive =>
      rw [kind, through] at made
      cases made
    | copy =>
      rw [kind] at made
      obtain ⟨callers, _, same⟩ := except_bind_eq_ok.mp made
      rw [through] at same
      cases same
    | callSite =>
      obtain ⟨i, earlier, step, _⟩ := (mem_contextsOf_callSite planned found kind).mp mem
      exact ⟨earlier, i, .inl step⟩
    | object =>
      obtain ⟨h, earlier, step, _⟩ := (mem_contextsOf_object planned found kind).mp mem
      exact ⟨earlier, h, .inr step⟩

/-! ### Numbering -/

theorem name_number (steps : List (ContextSite × Context)) (contexts : Domain .context) :
    (number steps contexts).1.name = contexts.name := by
  induction steps generalizing contexts with
  | nil => rfl
  | cons step rest ih =>
    unfold number
    dsimp only
    rw [ih, name_add, name_add]

variable {contexts : Domain .context}

/-- Numbering both ends of steps whose ends are numbered changes nothing, and pairs their
indices. -/
theorem number_known (distinct : contexts.elements.Nodup) {steps : List (ContextSite × Context)}
    (known : ∀ step ∈ steps,
      step.2 ∈ contexts.elements ∧ step.1.extend step.2 ∈ contexts.elements) :
    (number steps contexts).1.elements = contexts.elements ∧
      (∀ tuple, tuple ∈ (number steps contexts).2.1 ↔
        ∃ step ∈ steps, ∃ x y, contexts.elements[x]? = some step.2 ∧
          contexts.elements[y]? = some (step.1.extend step.2) ∧ tuple = [x, y]) ∧
      ∀ tuple, tuple ∈ (number steps contexts).2.2 ↔
        ∃ step ∈ steps, ∃ x, contexts.elements[x]? = some (step.1.extend step.2) ∧
          tuple = [x, step.1.index] := by
  induction steps generalizing contexts with
  | nil => simp [number]
  | cons step rest ih =>
    obtain ⟨place, context⟩ := step
    obtain ⟨hasOld, hasNew⟩ := known (place, context) mem_cons_self
    obtain ⟨old, atOld, addedOld⟩ := add_of_mem hasOld
    have stillNew : place.extend context ∈
        ({ contexts with filled := true } : Domain .context).elements :=
      hasNew
    obtain ⟨new, atNew, addedNew⟩ := add_of_mem stillNew
    have unique {x y : Nat} {c : Context} (first : contexts.elements[x]? = some c)
        (second : contexts.elements[y]? = some c) : x = y := by
      obtain ⟨below, _⟩ := List.getElem?_eq_some_iff.mp first
      exact (getElem?_inj below distinct).mp (first.trans second.symm)
    obtain ⟨elements, pairs, reached⟩ :=
      @ih { contexts with filled := true } distinct fun step mem =>
        known step (mem_cons_of_mem _ mem)
    unfold number
    rw [addedOld]
    dsimp only
    rw [addedNew]
    refine ⟨elements, fun tuple => ?_, fun tuple => ?_⟩
    · rw [mem_cons, pairs]
      simp only [mem_cons, exists_eq_or_imp]
      refine or_congr_left ⟨fun same => ⟨old, new, atOld, atNew, same⟩, ?_⟩
      rintro ⟨x, y, atX, atY, rfl⟩
      rw [unique atX atOld, unique atY atNew]
    · rw [mem_cons, reached]
      simp only [mem_cons, exists_eq_or_imp]
      refine or_congr_left ⟨fun same => ⟨new, atNew, same⟩, ?_⟩
      rintro ⟨x, atX, rfl⟩
      rw [unique atX atNew]

section Sorts

variable {elements : List Context} {steps : List (ContextSite × Context)} {tuple : Tuple}
  {leads : Nat → Context → Context → Prop}

/-- Where steps end that go through some sites can be read off a relation that lists all of them. -/
theorem exists_step_iff {relation : SortedSet Tuple} {through : Nat → Prop}
    (lists : ∀ tuple, tuple ∈ relation ↔ ∃ i before after x,
      leads i before after ∧ elements[x]? = some after ∧ tuple = [x, i])
    (numbered : ∀ i before, leads i before context → context ∈ elements) :
    (∃ i before, leads i before context ∧ through i) ↔
      ∃ x i, [x, i] ∈ relation ∧ through i ∧ elements[x]? = some context := by
  simp only [lists]
  constructor
  · rintro ⟨i, before, step, passes⟩
    obtain ⟨x, atX⟩ := mem_iff_getElem?.mp (numbered i before step)
    exact ⟨x, i, ⟨i, before, context, x, step, atX, rfl⟩, passes, atX⟩
  · rintro ⟨x, i, ⟨_, before, after, _, step, atX, same⟩, passes, atX'⟩
    cases same
    cases Option.some.inj (atX.symm.trans atX')
    exact ⟨i, before, step, passes⟩

variable (sort : ∀ {i before after}, (∃ place, (place, before) ∈ steps ∧ place.index = i ∧
  place.extend before = after) ↔ leads i before after)
include sort

theorem exists_reached_iff : (∃ step ∈ steps, ∃ x, elements[x]? = some (step.1.extend step.2) ∧
      tuple = [x, step.1.index]) ↔
      ∃ i before after x, leads i before after ∧ elements[x]? = some after ∧ tuple = [x, i] := by
  constructor
  · rintro ⟨⟨place, before⟩, mem, x, atX, rfl⟩
    exact ⟨place.index, before, _, x, sort.mp ⟨place, mem, rfl, rfl⟩, atX, rfl⟩
  · rintro ⟨i, before, after, x, step, atX, rfl⟩
    obtain ⟨place, mem, rfl, rfl⟩ := sort.mpr step
    exact ⟨(place, before), mem, x, atX, rfl⟩

theorem exists_pair_iff : (∃ step ∈ steps, ∃ x y, elements[x]? = some step.2 ∧
      elements[y]? = some (step.1.extend step.2) ∧ tuple = [x, y]) ↔
      ∃ i before after x y, leads i before after ∧ elements[x]? = some before ∧
        elements[y]? = some after ∧ tuple = [x, y] := by
  constructor
  · rintro ⟨⟨place, before⟩, mem, x, y, atX, atY, rfl⟩
    exact ⟨place.index, before, _, x, y, sort.mp ⟨place, mem, rfl, rfl⟩, atX, atY, rfl⟩
  · rintro ⟨i, before, after, x, y, step, atX, atY, rfl⟩
    obtain ⟨place, mem, rfl, rfl⟩ := sort.mpr step
    exact ⟨(place, before), mem, x, y, atX, atY, rfl⟩

end Sorts

/-! ### Results -/

variable {computed : Result}

theorem result_eq_ok (succeeds : result abstraction options program input = .ok computed) :
    ∃ plans invokes allocations,
      Abstraction.plan abstraction options program input = .ok plans ∧
      invokePlaces abstraction options program input plans = .ok invokes ∧
      allocationPlaces abstraction options program input = .ok allocations ∧
      let throughInvokes := expand (familyOf plans) invokes
      let throughAllocations := expand (familyOf plans) allocations
      let first := numberReached (throughInvokes ++ throughAllocations)
      let second := number throughInvokes first
      let third := number throughAllocations second.1
      computed.contexts = third.1 ∧
        computed.relations.take 3 = [("CC", second.2.1 ++ third.2.1), ("CI", second.2.2),
          ("CH", third.2.2)] ∧
        computed.relations.map (·.1) =
          ["CC", "CI", "CH", "epsilonM", "kcfaSenM", "kobjSenM", "ctxtCpyM", "epsilonV"] := by
  obtain ⟨plans, planned, rest⟩ := except_bind_eq_ok.mp succeeds
  obtain ⟨invokes, foundInvokes, rest⟩ := except_bind_eq_ok.mp rest
  obtain ⟨allocations, foundAllocations, rest⟩ := except_bind_eq_ok.mp rest
  cases rest
  exact ⟨plans, invokes, allocations, planned, foundInvokes, foundAllocations, rfl, rfl, rfl⟩

variable {kind : ContextKind}

theorem mem_ofKind :
    tuple ∈ ofKind plans kind ↔
      ∃ m plan, plans[m]? = some plan ∧ plan.kind = kind ∧ tuple = [m] := by
  unfold ofKind
  rw [mem_filterMap]
  constructor
  · rintro ⟨⟨plan, m⟩, mem, chosen⟩
    dsimp only at chosen
    split at chosen
    · next same =>
      cases chosen
      exact ⟨m, plan, mk_mem_zipIdx_iff_getElem?.mp mem, same, rfl⟩
    · cases chosen
  · rintro ⟨m, plan, found, same, rfl⟩
    exact ⟨(plan, m), mk_mem_zipIdx_iff_getElem?.mpr found, if_pos same⟩

theorem exists_index_of_mem
    (planned : Abstraction.plan abstraction options program input = .ok plans)
    (mem : tuple ∈ ofKind plans kind) : ∃ m < input.methods.size, tuple = [m] := by
  obtain ⟨m, plan, found, _, rfl⟩ := mem_ofKind.mp mem
  exact ⟨m, (List.getElem?_eq_some_iff.mp (plan_eq_ok planned found).1).1, rfl⟩

variable (abstraction program input plans)

/-- The variables without contexts, as tuples. -/
def insensitiveVariables : List Tuple :=
  input.vars.indexed.filterMap fun (v, var) =>
    if var ∈ sensitiveVariables abstraction program plans then none else some [v]

variable {abstraction program input plans}

theorem mem_insensitiveVariables : tuple ∈ insensitiveVariables abstraction program input plans ↔
      ∃ v var, input.vars.elements[v]? = some var ∧
        var ∉ sensitiveVariables abstraction program plans ∧ tuple = [v] := by
  unfold insensitiveVariables
  rw [mem_filterMap]
  constructor
  · rintro ⟨⟨v, var⟩, mem, chosen⟩
    dsimp only at chosen
    split at chosen
    · cases chosen
    · next insensitive =>
      cases chosen
      exact ⟨v, var, mem_indexed.mp mem, insensitive, rfl⟩
  · rintro ⟨v, var, found, insensitive, rfl⟩
    exact ⟨(v, var), mem_indexed.mpr found, if_neg insensitive⟩

theorem kinds_of_result (succeeds : result abstraction options program input = .ok computed) :
    ∃ plans, Abstraction.plan abstraction options program input = .ok plans ∧
      computed.relations.drop 3 =
        [("epsilonM", ofKind plans .insensitive), ("kcfaSenM", ofKind plans .callSite),
          ("kobjSenM", ofKind plans .object), ("ctxtCpyM", ofKind plans .copy),
          ("epsilonV", insensitiveVariables abstraction program input plans)] := by
  obtain ⟨plans, planned, rest⟩ := except_bind_eq_ok.mp succeeds
  obtain ⟨invokes, _, rest⟩ := except_bind_eq_ok.mp rest
  obtain ⟨allocations, _, same⟩ := except_bind_eq_ok.mp rest
  cases same
  exact ⟨plans, planned, rfl⟩

variable (abstraction options program input plans)

/-- What numbered contexts and the relations `CI`, `CH` and `CC` over them say about the contexts of
methods. -/
structure Describes (contexts : Domain .context) (calls allocated steps : SortedSet Tuple) :
    Prop where
  /-- The first context is the empty one, and no context is numbered twice. -/
  first : contexts.elements[0]? = some .epsilon
  distinct : contexts.elements.Nodup
  /-- Every context of every method is numbered. -/
  complete : ∀ m, ∀ context ∈ (familyOf plans).contextsOf m, context ∈ contexts.elements
  /-- The pass that numbers both ends of every step adds nothing to the pass before it, which
  numbers the empty context and the ends of steps. -/
  settled : ∃ invokes allocations,
    invokePlaces abstraction options program input plans = .ok invokes ∧
    allocationPlaces abstraction options program input = .ok allocations ∧
    contexts.elements = (numberReached
      (expand (familyOf plans) invokes ++ expand (familyOf plans) allocations)).elements
  mem_contexts : ∀ context, context ∈ contexts.elements ↔
    context = .epsilon ∨ ∃ before, AnyStep abstraction options program input plans before context
  mem_calls : ∀ tuple, tuple ∈ calls ↔ ∃ i before after x,
    InvokeStep abstraction options program input plans i before after ∧
      contexts.elements[x]? = some after ∧ tuple = [x, i]
  mem_allocated : ∀ tuple, tuple ∈ allocated ↔ ∃ h before after x,
    AllocationStep abstraction options program input plans h before after ∧
      contexts.elements[x]? = some after ∧ tuple = [x, h]
  mem_steps : ∀ tuple, tuple ∈ steps ↔ ∃ before after x y,
    AnyStep abstraction options program input plans before after ∧
      contexts.elements[x]? = some before ∧ contexts.elements[y]? = some after ∧ tuple = [x, y]
  /-- The contexts of call-site sensitive methods can be read off. -/
  callSite : ∀ m plan, plans[m]? = some plan → plan.kind = .callSite → ∀ context,
    context ∈ (familyOf plans).contextsOf m ↔
      ∃ x i, [x, i] ∈ calls ∧ (i, m) ∈ input.calls ∧ contexts.elements[x]? = some context
  /-- So can those of object sensitive methods whose receiver is numbered. -/
  object : ∀ m plan v, plans[m]? = some plan → plan.kind = .object →
    HasReceiver program input.vars plan.method v → ∀ context,
    context ∈ (familyOf plans).contextsOf m ↔
      ∃ x h, [x, h] ∈ allocated ∧ (v, h) ∈ input.pointsTo ∧ contexts.elements[x]? = some context

variable {abstraction options program input plans}

section Described

variable {invokes allocations : List ContextSite}
  (planned : Abstraction.plan abstraction options program input = .ok plans)
  (foundInvokes : invokePlaces abstraction options program input plans = .ok invokes)
  (foundAllocations : allocationPlaces abstraction options program input = .ok allocations)

include foundInvokes foundAllocations in
theorem mem_numberReached : context ∈ (numberReached
      (expand (familyOf plans) invokes ++ expand (familyOf plans) allocations)).elements ↔
      context = .epsilon ∨
        ∃ before, AnyStep abstraction options program input plans before context := by
  unfold numberReached AnyStep
  rw [mem_ofList, mem_cons, mem_map]
  refine or_congr_right ⟨?_, ?_⟩
  · rintro ⟨⟨place, before⟩, mem, rfl⟩
    rcases mem_append.mp mem with through | through
    · exact ⟨before, place.index,
        .inl ((exists_mem_expand_invokePlaces foundInvokes).mp ⟨place, through, rfl, rfl⟩)⟩
    · exact ⟨before, place.index,
        .inr ((exists_mem_expand_allocationPlaces foundAllocations).mp ⟨place, through, rfl, rfl⟩)⟩
  · rintro ⟨before, i, step | step⟩
    · obtain ⟨place, through, _, same⟩ := (exists_mem_expand_invokePlaces foundInvokes).mpr step
      exact ⟨(place, before), mem_append_left _ through, same⟩
    · obtain ⟨place, through, _, same⟩ :=
        (exists_mem_expand_allocationPlaces foundAllocations).mpr step
      exact ⟨(place, before), mem_append_right _ through, same⟩

include planned foundInvokes foundAllocations in
theorem known_numberReached {places : List ContextSite} (among : expand (familyOf plans) places ⊆
      expand (familyOf plans) invokes ++ expand (familyOf plans) allocations) :
    ∀ step ∈ expand (familyOf plans) places,
      step.2 ∈ (numberReached
        (expand (familyOf plans) invokes ++ expand (familyOf plans) allocations)).elements ∧
      step.1.extend step.2 ∈ (numberReached
        (expand (familyOf plans) invokes ++ expand (familyOf plans) allocations)).elements := by
  rintro ⟨place, context⟩ mem
  constructor
  · rw [mem_numberReached foundInvokes foundAllocations]
    exact reached_of_mem planned (mem_expand.mp mem).2
  · refine mem_ofList.mpr (mem_cons_of_mem _ ?_)
    exact mem_map.mpr ⟨(place, context), among mem, rfl⟩

include planned foundInvokes foundAllocations in
/-- Numbering all steps gives relations that describe the contexts. -/
theorem describes_numbered :
    let throughInvokes := expand (familyOf plans) invokes
    let throughAllocations := expand (familyOf plans) allocations
    let first := numberReached (throughInvokes ++ throughAllocations)
    let second := number throughInvokes first
    let third := number throughAllocations second.1
    contexts.elements = third.1.elements →
      Describes abstraction options program input plans contexts (.ofList second.2.2)
        (.ofList third.2.2) (.ofList (second.2.1 ++ third.2.1)) := by
  intro throughInvokes throughAllocations first second third same
  have distinct : first.elements.Nodup := nodup_ofList
  obtain ⟨elements, pairs, reached⟩ := number_known distinct
    (known_numberReached planned foundInvokes foundAllocations (subset_append_left _ _))
  obtain ⟨elements', pairs', reached'⟩ := @number_known second.1 (elements ▸ distinct)
    throughAllocations (elements ▸ known_numberReached planned foundInvokes foundAllocations
      (subset_append_right _ _))
  -- The first pass numbers both ends of every step, so the other two add no context.
  have numbered : contexts.elements = first.elements := same.trans (elements'.trans elements)
  rw [elements] at pairs' reached'
  have mem_contexts (context : Context) : context ∈ contexts.elements ↔ context = .epsilon ∨
      ∃ before, AnyStep abstraction options program input plans before context := by
    rw [numbered]
    exact mem_numberReached foundInvokes foundAllocations
  have mem_calls (tuple : Tuple) : tuple ∈ SortedSet.ofList second.2.2 ↔ ∃ i before after x,
      InvokeStep abstraction options program input plans i before after ∧
        contexts.elements[x]? = some after ∧ tuple = [x, i] := by
    rw [SortedSet.mem_ofList, numbered, reached]
    exact exists_reached_iff (exists_mem_expand_invokePlaces foundInvokes)
  have mem_allocated (tuple : Tuple) : tuple ∈ SortedSet.ofList third.2.2 ↔ ∃ h before after x,
      AllocationStep abstraction options program input plans h before after ∧
        contexts.elements[x]? = some after ∧ tuple = [x, h] := by
    rw [SortedSet.mem_ofList, numbered, reached']
    exact exists_reached_iff (exists_mem_expand_allocationPlaces foundAllocations)
  refine ⟨?_, ?_, ?_, ?_, mem_contexts, mem_calls, mem_allocated, ?_, ?_, ?_⟩
  · rw [numbered]
    exact getElem?_ofList_zero
  · rw [numbered]
    exact distinct
  · intro m context mem
    exact (mem_contexts context).mpr (reached_of_mem planned mem)
  · exact ⟨invokes, allocations, foundInvokes, foundAllocations, numbered⟩
  · intro tuple
    rw [SortedSet.mem_ofList, mem_append, pairs, pairs', numbered,
      exists_pair_iff (exists_mem_expand_invokePlaces foundInvokes),
      exists_pair_iff (exists_mem_expand_allocationPlaces foundAllocations)]
    constructor
    · rintro (⟨i, before, after, x, y, step, ends⟩ | ⟨i, before, after, x, y, step, ends⟩)
      · exact ⟨before, after, x, y, ⟨i, .inl step⟩, ends⟩
      · exact ⟨before, after, x, y, ⟨i, .inr step⟩, ends⟩
    · rintro ⟨before, after, x, y, ⟨i, step | step⟩, ends⟩
      · exact .inl ⟨i, before, after, x, y, step, ends⟩
      · exact .inr ⟨i, before, after, x, y, step, ends⟩
  · intro m plan found kind context
    rw [mem_contextsOf_callSite planned found kind]
    exact exists_step_iff mem_calls fun i before step =>
      (mem_contexts context).mpr (.inr ⟨before, i, .inl step⟩)
  · intro m plan v found kind received context
    have only (other : Nat) : HasReceiver program input.vars plan.method other ↔ other = v :=
      ⟨fun receives => receives.unique received, fun same => same ▸ received⟩
    simp only [mem_contextsOf_object planned found kind, only, exists_eq_left]
    exact exists_step_iff mem_allocated fun h before step =>
      (mem_contexts context).mpr (.inr ⟨before, h, .inr step⟩)

end Described

end Steps

end ProgramAnalysis.Abstraction
