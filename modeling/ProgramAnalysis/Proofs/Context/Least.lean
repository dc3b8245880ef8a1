import Mathlib.Order.Bounds.Defs
import Mathlib.Order.SetNotation
import ProgramAnalysis.Proofs.Context.Publication

/-!
The contexts of methods as the least solution of equations. There is one equation for each method,
given by its kind and by the calls, callers or allocations around it (`equation`). The computed
family solves them all and lies in every other solution, whichever way the queue was worked off.
-/

namespace ProgramAnalysis

open Domain

open ContextFamily (Arises Progress Sound Turn)

/-- A context that a method gets if all methods have certain contexts. -/
def Origin.Gives (contexts : Nat → Set Context) (context : Context) : Origin → Prop
  | start => context = .epsilon
  | through places => ∃ place ∈ places, ∃ before ∈ contexts place.method,
      context = place.extend before
  | copying callers => ∃ caller ∈ callers, context ∈ contexts caller

variable {m : Nat} {context : Context} {origins : List Origin} {origin : Origin}

/-- A context arises if a method gets it from contexts that arise. -/
theorem ContextFamily.arises_iff (found : origins[m]? = some origin) :
    Arises origins m context ↔
      origin.Gives (fun n => {before | Arises origins n before}) context := by
  constructor
  · intro arises
    cases arises with
    | start isStart =>
      obtain rfl := Option.some.inj (isStart.symm.trans found)
      rfl
    | through isThrough among arises =>
      obtain rfl := Option.some.inj (isThrough.symm.trans found)
      exact ⟨_, among, _, arises, rfl⟩
    | copying isCopying among arises =>
      obtain rfl := Option.some.inj (isCopying.symm.trans found)
      exact ⟨_, among, arises⟩
  · intro gives
    cases origin with
    | start =>
      obtain rfl : context = .epsilon := gives
      exact .start found
    | through places =>
      obtain ⟨place, among, before, arises, rfl⟩ := gives
      exact .through found among arises
    | copying callers =>
      obtain ⟨caller, among, arises⟩ := gives
      exact .copying found among arises

variable {contexts : Nat → Set Context}

theorem ContextFamily.Arises.mem (closed : ∀ m origin, origins[m]? = some origin →
      ∀ context, origin.Gives contexts context → context ∈ contexts m)
    (arises : Arises origins m context) : context ∈ contexts m := by
  induction arises with
  | start found => exact closed _ _ found _ rfl
  | through found among _ ih =>
    exact closed _ _ found _ ⟨_, among, _, ih, rfl⟩
  | copying found among _ ih =>
    exact closed _ _ found _ ⟨_, among, ih⟩

namespace Abstraction

section Equations

variable (abstraction : Abstraction) (options : Options) (program : Program) (input : Input)

/-- The contexts that a method has to have if all methods have certain contexts. -/
def equation (contexts : Nat → Set Context) (m : Nat) (method : MethodId) :
    ContextKind → Set Context
  | .insensitive => {.epsilon}
  | .callSite => {context | ∃ i site n, (i, m) ∈ input.calls ∧
      input.invokes.elements[i]? = some site ∧
      InMethod program input.methods site n ∧
      ∃ before ∈ contexts n, context = .push (abstraction.callDepth options site) site before}
  | .object => {context | ∃ v h site n, HasReceiver program input.vars method v ∧
      (v, h) ∈ input.pointsTo ∧ input.allocations.elements[h]? = some site ∧
      InMethod program input.methods site n ∧
      ∃ before ∈ contexts n, context = .push (abstraction.objectDepth options site) site before}
  | .copy => {context | ∃ i site n, (i, m) ∈ input.calls ∧
      input.invokes.elements[i]? = some site ∧
      InMethod program input.methods site n ∧ context ∈ contexts n}

/-- The contexts of every planned method are what its equation says. -/
def Solves (plans : List MethodPlan) (contexts : Nat → Set Context) : Prop :=
  ∀ m plan, plans[m]? = some plan →
    contexts m = equation abstraction options program input contexts m plan.method plan.kind

end Equations

variable {abstraction : Abstraction} {options : Options} {program : Program} {input : Input}
  {plans : List MethodPlan}

/-- Where a method that runs in the contexts of its callers gets them. -/
theorem originOf_copy {method : MethodId}
    (made : originOf abstraction options program input m method .copy = .ok origin) :
    ∃ callers, origin = .copying callers ∧ ∀ n, n ∈ callers ↔
      ∃ i, (i, m) ∈ input.calls ∧ ∃ site, input.invokes.elements[i]? = some site ∧
        InMethod program input.methods site n := by
  obtain ⟨callers, listed, same⟩ := except_bind_eq_ok.mp made
  cases same
  refine ⟨callers, rfl, fun n => ?_⟩
  rw [mem_at_elements listed fun found => (inMethod_iff found).symm]
  simp only [mem_callersOf]

section Planned

variable (planned : Abstraction.plan abstraction options program input = .ok plans)
include planned

/-- The equation of a method, for each of its kinds, is what its plan says. -/
theorem mem_equation {plan : MethodPlan} (found : plans[m]? = some plan) :
    context ∈ equation abstraction options program input contexts m plan.method plan.kind ↔
      plan.origin.Gives contexts context := by
  obtain ⟨_, made, _⟩ := plan_eq_ok planned found
  cases kind : plan.kind with
  | insensitive =>
    rw [kind] at made
    rw [← Except.ok.inj made]
    rfl
  | callSite =>
    rw [kind] at made
    obtain ⟨places, through, among⟩ := originOf_callSite made
    rw [through]
    simp only [equation, Origin.Gives, among, Set.mem_ofPred_eq]
    constructor
    · rintro ⟨i, site, n, calls, atIndex, enclosing, before, had, rfl⟩
      exact ⟨_, ⟨i, calls, site, atIndex, n, enclosing, rfl⟩, before, had, rfl⟩
    · rintro ⟨_, ⟨i, calls, site, atIndex, n, enclosing, rfl⟩, before, had, rfl⟩
      exact ⟨i, site, n, calls, atIndex, enclosing, before, had, rfl⟩
  | object =>
    rw [kind] at made
    obtain ⟨places, through, among⟩ := originOf_object made
    rw [through]
    simp only [equation, Origin.Gives, among, Set.mem_ofPred_eq]
    constructor
    · rintro ⟨v, h, site, n, isReceiver, points, atIndex, enclosing, before, had, rfl⟩
      exact ⟨_, ⟨h, ⟨v, isReceiver, points⟩, site, atIndex, n, enclosing, rfl⟩, before, had, rfl⟩
    · rintro ⟨_, ⟨h, ⟨v, isReceiver, points⟩, site, atIndex, n, enclosing, rfl⟩, before, had, rfl⟩
      exact ⟨v, h, site, n, isReceiver, points, atIndex, enclosing, before, had, rfl⟩
  | copy =>
    rw [kind] at made
    obtain ⟨callers, copying, among⟩ := originOf_copy made
    rw [copying]
    simp only [equation, Origin.Gives, among, Set.mem_ofPred_eq]
    constructor
    · rintro ⟨i, site, n, calls, atIndex, enclosing, had⟩
      exact ⟨n, ⟨i, calls, site, atIndex, enclosing⟩, had⟩
    · rintro ⟨n, ⟨i, calls, site, atIndex, enclosing⟩, had⟩
      exact ⟨i, site, n, calls, atIndex, enclosing, had⟩

/-- The computed contexts solve the equations, and every solution has at least these. -/
theorem isLeast_familyOf :
    IsLeast {contexts | Solves abstraction options program input plans contexts}
      (fun m => {context | context ∈ (familyOf plans).contextsOf m}) := by
  have computed : (fun m => {context | context ∈ (familyOf plans).contextsOf m}) =
      fun m => {context | Arises (plans.map (·.origin)) m context} := by
    funext m
    exact Set.ext fun context => ContextFamily.mem_solve
  rw [computed]
  constructor
  · intro m plan found
    refine Set.ext fun context => ?_
    rw [mem_equation planned found]
    exact ContextFamily.arises_iff (getElem?_origins found)
  · intro contexts solves m context arises
    refine Arises.mem (fun n origin atIndex context gives => ?_) arises
    rw [List.getElem?_map] at atIndex
    obtain ⟨plan, found, rfl⟩ := Option.map_eq_some_iff.mp atIndex
    rw [solves n plan found]
    exact (mem_equation planned found).mpr gives

theorem kind_of_mem_sensitive (mem : m ∈ ContextFamily.sensitive (plans.map (·.origin))) :
    ∃ plan, plans[m]? = some plan ∧ plan.kind ≠ .insensitive := by
  obtain ⟨⟨origin, n⟩, atIndex, kept⟩ := List.mem_filterMap.mp mem
  have found := List.mem_zipIdx_iff_getElem?.mp atIndex
  rw [List.getElem?_map] at found
  obtain ⟨plan, found, rfl⟩ := Option.map_eq_some_iff.mp found
  dsimp only at kept
  split at kept
  · cases kept
  · next notStart =>
    cases kept
    refine ⟨plan, found, fun insensitive => notStart ?_⟩
    obtain ⟨_, made, _⟩ := plan_eq_ok planned found
    rw [insensitive] at made
    exact (Except.ok.inj made).symm

end Planned

/-- The loop over queued methods ends, and it ends with the least contexts that solve the equations,
whichever method is taken off the queue in each turn and wherever others are put. -/
theorem contexts_least {abstraction : Abstraction} {options : Options} {program : Program}
    {input : Input} {plans : List MethodPlan}
    (planned : plan abstraction options program input = .ok plans) :
    IsLeast {contexts | Solves abstraction options program input plans contexts}
        (fun m => {context | context ∈ (familyOf plans).contextsOf m}) ∧
      (WellFounded fun next now : Progress (plans.map (·.origin)) => Turn now next) ∧
      ∀ queue : List Nat,
        (∀ m plan, plans[m]? = some plan → plan.kind ≠ .insensitive → m ∈ queue) →
        ∀ last, Relation.ReflTransGen Turn (Progress.start (plans.map (·.origin)) queue) last →
          (∃ next, Turn last next) ∨ last.family = familyOf plans := by
  refine ⟨isLeast_familyOf planned, ContextFamily.wellFounded_turn _, ?_⟩
  intro queue covers last turns
  have sound : Sound last := by
    refine (Sound.start fun m member => ?_).turns turns
    obtain ⟨plan, found, sensitive⟩ := kind_of_mem_sensitive planned member
    exact covers m plan found sensitive
  by_cases done : last.queue = []
  · exact .inr (sound.family_eq done)
  · exact .inl (ContextFamily.exists_turn done)

/-- The recursive call site keeps one site more than the others. -/
abbrev raisedWalk : Abstraction := { callRaises := Table.empty.insert 1 1 }

abbrev raisedPlans : List MethodPlan :=
  [⟨0, .insensitive, .insensitive, .start⟩,
    ⟨1, .callSite, .callSite, .through [⟨0, 0, 0, 1⟩, ⟨1, 1, 1, 2⟩]⟩,
    ⟨2, .object, .object, .through [⟨0, 2, 0, 1⟩]⟩]

/-- A recursive program whose queue is filled from the back. -/
theorem contexts_least_walking :
    plan raisedWalk walkingOptions walking walkingInput = .ok raisedPlans ∧
      (familyOf raisedPlans).map (·.toList) = [[[]], [[0], [1, 0], [1, 1]], [[2]]] ∧
      IsLeast {contexts | Solves raisedWalk walkingOptions walking walkingInput
        raisedPlans contexts}
        (fun m => {context | context ∈ (familyOf raisedPlans).contextsOf m}) ∧
      ∀ last, Relation.ReflTransGen Turn (Progress.start (raisedPlans.map (·.origin)) [2, 1]) last →
        (∃ next, Turn last next) ∨ last.family = familyOf raisedPlans := by
  have planned : plan raisedWalk walkingOptions walking walkingInput = .ok raisedPlans := by
    decide +kernel
  have covers : ∀ (m : Nat) (plan : MethodPlan), raisedPlans[m]? = some plan →
      plan.kind ≠ .insensitive → m ∈ [2, 1] := by
    intro m plan found sensitive
    obtain _ | _ | _ | m := m
    · exact absurd (congrArg MethodPlan.kind (Option.some.inj found)).symm sensitive
    · decide
    · decide
    · cases found
  obtain ⟨least, _, anyOrder⟩ := contexts_least planned
  exact ⟨planned, by decide +kernel, least, anyOrder [2, 1] covers⟩

end Abstraction

end ProgramAnalysis
