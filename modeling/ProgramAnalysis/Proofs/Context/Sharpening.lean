import ProgramAnalysis.Proofs.Context.Publication

/-!
How contexts change when the analysis becomes more precise. Where a family keeps at least as many
sites as another at every step (`Deepens`), each of its contexts begins with one of the other; if
methods are analysed alike, each of the other is also continued by one of its own. Runs that go on
from earlier ones only raise depths and promote methods (`Grows`).
-/

namespace ProgramAnalysis

open List Context

variable {context longer : Context}

/-- Going through a site with a larger depth from a longer context leads to a longer context. -/
theorem Context.push_prefix_push (deeper : k ≤ k') (site : InstId) (extends_ : context <+: longer) :
    push k site context <+: push k' site longer := by
  unfold push
  refine prefix_take_iff.mpr ⟨?_, ?_⟩
  · exact (List.take_prefix k _).trans (cons_prefix_cons.mpr ⟨rfl, extends_⟩)
  · exact Nat.le_trans (length_take_le k _) deeper

/-- The same site, with at least as large a depth. -/
structure ContextSite.Deepens (place place' : ContextSite) : Prop where
  site : place'.site = place.site
  method : place'.method = place.method
  depth : place.depth ≤ place'.depth

theorem ContextSite.Deepens.extend {place place' : ContextSite} (deepens : place.Deepens place')
    (extends_ : context <+: longer) : place.extend context <+: place'.extend longer := by
  unfold ContextSite.extend
  rw [deepens.site]
  exact push_prefix_push deepens.depth place.site extends_

/-! ### Families that follow one another -/

/-- A method that gets contexts through a site gets them through one near it elsewhere. If that is
`enough`, it may instead have no context there but the empty one. -/
inductive Origin.Follows (near : ContextSite → ContextSite → Prop) (enough : Prop) :
    Origin → Origin → Prop where
  | start : Follows near enough .start .start
  | empty {origin : Origin} : enough → Follows near enough origin .start
  | through {places places' : List ContextSite} :
    (∀ place ∈ places, ∃ place' ∈ places', near place place') →
      Follows near enough (.through places) (.through places')
  | copying (callers : List Nat) : Follows near enough (.copying callers) (.copying callers)

/-- A relation between contexts that is kept on the way through sites near each other. -/
structure Context.Carried (near : ContextSite → ContextSite → Prop) (enough : Prop)
    (related : Context → Context → Prop) : Prop where
  epsilon : related .epsilon .epsilon
  enough : enough → ∀ context, related context .epsilon
  method : ∀ place place', near place place' → place'.method = place.method
  extend : ∀ place place' context context', near place place' → related context context' →
    related (place.extend context) (place'.extend context')

/-- Each context is related to one that comes about in the same way elsewhere. -/
theorem ContextFamily.Arises.exists_related {origins origins' : List Origin} {m : Nat}
    {near : ContextSite → ContextSite → Prop} {enough : Prop} {related : Context → Context → Prop}
    (carried : Carried near enough related)
    (follows : ∀ (m : Nat) (origin : Origin), origins[m]? = some origin →
      ∃ origin', origins'[m]? = some origin' ∧ origin.Follows near enough origin')
    (arises : Arises origins m context) :
    ∃ context', Arises origins' m context' ∧ related context context' := by
  induction arises with
  | start found =>
    obtain ⟨_, found', follows⟩ := follows _ _ found
    cases follows with
    | start | empty => exact ⟨.epsilon, .start found', carried.epsilon⟩
  | through found among _ ih =>
    obtain ⟨_, found', follows⟩ := follows _ _ found
    cases follows with
    | empty is => exact ⟨.epsilon, .start found', carried.enough is _⟩
    | through each =>
      obtain ⟨place', among', near⟩ := each _ among
      obtain ⟨context', arises', related⟩ := ih
      rw [← carried.method _ _ near] at arises'
      exact ⟨_, .through found' among' arises', carried.extend _ _ _ _ near related⟩
  | copying found among _ ih =>
    obtain ⟨_, found', follows⟩ := follows _ _ found
    cases follows with
    | empty is => exact ⟨.epsilon, .start found', carried.enough is _⟩
    | copying =>
      obtain ⟨context', arises', related⟩ := ih
      exact ⟨context', .copying found' among arises', related⟩

namespace Abstraction

variable {options options' : Options} {program : Program} {input : Input}
  {coarse fine : Abstraction} {plans plans' : List MethodPlan}

/-! ### Plans with larger depths -/

/-- Every site keeps at least as many sites. -/
structure Deepens (options options' : Options) (coarse fine : Abstraction) : Prop where
  call : ∀ site, coarse.callDepth options site ≤ fine.callDepth options' site
  object : ∀ site, coarse.objectDepth options site ≤ fine.objectDepth options' site

/-- Every method is analysed in the same way. -/
def SameKinds (plans plans' : List MethodPlan) : Prop :=
  ∀ (m : Nat) (plan plan' : MethodPlan), plans[m]? = some plan → plans'[m]? = some plan' →
    plan'.kind = plan.kind

/-- Every method is analysed in the same way or was insensitive. -/
def Promotes (plans plans' : List MethodPlan) : Prop :=
  ∀ (m : Nat) (plan plan' : MethodPlan), plans[m]? = some plan → plans'[m]? = some plan' →
    plan.kind = .insensitive ∨ plan'.kind = plan.kind

section Planned

variable {near : ContextSite → ContextSite → Prop} {enough : Prop}
  (call : ∀ i site n, near ⟨i, site, n, coarse.callDepth options site⟩
    ⟨i, site, n, fine.callDepth options' site⟩)
  (object : ∀ h site n, near ⟨h, site, n, coarse.objectDepth options site⟩
    ⟨h, site, n, fine.objectDepth options' site⟩)
include call object

theorem follows_originOf {origin : Origin}
    (made : originOf coarse options program input m method kind = .ok origin)
    (made' : originOf fine options' program input m method kind = .ok origin') :
    origin.Follows near enough origin' := by
  cases kind with
  | insensitive =>
    cases made
    cases made'
    exact .start
  | callSite =>
    obtain ⟨places, rfl, among⟩ := originOf_callSite made
    obtain ⟨places', rfl, among'⟩ := originOf_callSite made'
    refine .through fun place mem => ?_
    obtain ⟨i, calls, site, atIndex, n, enclosing, rfl⟩ := (among place).mp mem
    exact ⟨_, (among' _).mpr ⟨i, calls, site, atIndex, n, enclosing, rfl⟩, call i site n⟩
  | object =>
    obtain ⟨places, rfl, among⟩ := originOf_object made
    obtain ⟨places', rfl, among'⟩ := originOf_object made'
    refine .through fun place mem => ?_
    obtain ⟨h, points, site, atIndex, n, enclosing, rfl⟩ := (among place).mp mem
    exact ⟨_, (among' _).mpr ⟨h, points, site, atIndex, n, enclosing, rfl⟩, object h site n⟩
  | copy =>
    -- Where copied contexts come from depends neither on options nor on refinements.
    have same : Except.ok origin = .ok origin' := made.symm.trans made'
    cases same
    obtain ⟨callers, _, copied⟩ := except_bind_eq_ok.mp made
    cases copied
    exact .copying callers

/-- Where methods have the same kinds, or no contexts any more if that is enough, each context of a
method has a counterpart. -/
theorem exists_related {related : Context → Context → Prop} (carried : Carried near enough related)
    (planned : plan coarse options program input = .ok plans)
    (planned' : plan fine options' program input = .ok plans')
    (kinds : ∀ (m : Nat) (plan plan' : MethodPlan), plans[m]? = some plan →
      plans'[m]? = some plan' → enough ∧ plan'.kind = .insensitive ∨ plan'.kind = plan.kind)
    {m : Nat} (mem : context ∈ (familyOf plans).contextsOf m) :
    ∃ context' ∈ (familyOf plans').contextsOf m, related context context' := by
  have follows (m : Nat) (origin : Origin) (had : (plans.map (·.origin))[m]? = some origin) :
      ∃ origin', (plans'.map (·.origin))[m]? = some origin' ∧
        origin.Follows near enough origin' := by
    rw [getElem?_map] at had
    obtain ⟨plan, found, rfl⟩ := Option.map_eq_some_iff.mp had
    obtain ⟨atIndex, made, _⟩ := plan_eq_ok planned found
    obtain ⟨plan', found', _⟩ := exists_plan planned' atIndex
    obtain ⟨atIndex', made', _⟩ := plan_eq_ok planned' found'
    refine ⟨_, getElem?_origins found', ?_⟩
    rcases kinds m plan plan' found found' with ⟨is, insensitive⟩ | same
    · rw [insensitive] at made'
      rw [← Except.ok.inj made']
      exact .empty is
    · rw [same, Option.some.inj (atIndex'.symm.trans atIndex)] at made'
      exact follows_originOf call object made made'
  obtain ⟨context', arises, related⟩ :=
    (ContextFamily.mem_solve.mp mem).exists_related carried follows
  exact ⟨context', ContextFamily.mem_solve.mpr arises, related⟩

end Planned

theorem Deepens.exists_longer (deepens : Deepens options options' coarse fine)
    (planned : plan coarse options program input = .ok plans)
    (planned' : plan fine options' program input = .ok plans') (kinds : SameKinds plans plans')
    {m : Nat} (mem : context ∈ (familyOf plans).contextsOf m) :
    ∃ longer ∈ (familyOf plans').contextsOf m, context <+: longer := by
  have carried : Carried ContextSite.Deepens False (· <+: ·) :=
    ⟨prefix_rfl, False.elim, fun _ _ near => near.method, fun _ _ _ _ near => near.extend⟩
  exact exists_related (fun _ site _ => ⟨rfl, rfl, deepens.call site⟩)
    (fun _ site _ => ⟨rfl, rfl, deepens.object site⟩) carried planned planned'
    (fun m plan plan' found found' => .inr (kinds m plan plan' found found')) mem

theorem Deepens.exists_shorter (deepens : Deepens options options' coarse fine)
    (planned : plan coarse options program input = .ok plans)
    (planned' : plan fine options' program input = .ok plans') (kinds : Promotes plans plans')
    {m : Nat} (mem : longer ∈ (familyOf plans').contextsOf m) :
    ∃ context ∈ (familyOf plans).contextsOf m, context <+: longer := by
  have carried : Carried (fun place' place => place.Deepens place') True
      fun longer context => context <+: longer :=
    ⟨prefix_rfl, fun _ _ => nil_prefix, fun _ _ near => near.method.symm,
      fun _ _ _ _ near => near.extend⟩
  exact exists_related (fun _ site _ => ⟨rfl, rfl, deepens.call site⟩)
    (fun _ site _ => ⟨rfl, rfl, deepens.object site⟩) carried planned' planned
    (fun m plan' plan found' found =>
      (kinds m plan plan' found found').imp (⟨trivial, ·⟩) Eq.symm) mem

/-! ### Refinement -/

/-- More methods are promoted, and sites are raised further. -/
structure Grows (coarse fine : Abstraction) : Prop where
  promoted : ∀ method ∈ coarse.promoted, method ∈ fine.promoted
  object : ∀ site, raise coarse.objectRaises site ≤ raise fine.objectRaises site
  call : ∀ site, raise coarse.callRaises site ≤ raise fine.callRaises site

theorem grows_run {after : Store} (again : coarse.runs ≠ 0)
    (running : run options program (before, coarse) = .ok () (after, fine)) :
    coarse.Grows fine := by
  obtain ⟨_, rfl⟩ := noteAll_of_run again running
  have raised := raise_noteAll coarse (Refined.reached before)
  exact ⟨fun method mem => (mem_noteAll coarse _ method).1.mpr (.inl mem),
    fun site => (raised site).1 ▸ Nat.le_add_right _ _,
    fun site => (raised site).2 ▸ Nat.le_add_right _ _⟩

/-- No depth passes 64 bits. -/
def Bounded (options : Options) (abstraction : Abstraction) : Prop :=
  ∀ site, options.callDepth + raise abstraction.callRaises site < Numeral.sizeLimit ∧
    options.objectDepth + raise abstraction.objectRaises site < Numeral.sizeLimit

theorem Grows.deepens (grows : coarse.Grows fine) (bounded : Bounded options fine) :
    Deepens options options coarse fine := by
  constructor
  · intro site
    have more := Nat.add_le_add_left (grows.call site) options.callDepth
    show (options.callDepth + raise coarse.callRaises site) % _ ≤
      (options.callDepth + raise fine.callRaises site) % _
    rwa [Nat.mod_eq_of_lt (bounded site).1,
      Nat.mod_eq_of_lt (Nat.lt_of_le_of_lt more (bounded site).1)]
  · intro site
    have more := Nat.add_le_add_left (grows.object site) options.objectDepth
    show (options.objectDepth + raise coarse.objectRaises site) % _ ≤
      (options.objectDepth + raise fine.objectRaises site) % _
    rwa [Nat.mod_eq_of_lt (bounded site).2,
      Nat.mod_eq_of_lt (Nat.lt_of_le_of_lt more (bounded site).2)]

/-- Refinement changes the kinds of insensitive methods only. -/
theorem Grows.promotes (grows : coarse.Grows fine)
    (planned : plan coarse options program input = .ok plans)
    (planned' : plan fine options program input = .ok plans') : Promotes plans plans' := by
  intro m plan plan' found found'
  obtain ⟨atIndex, _⟩ := plan_eq_ok planned found
  obtain ⟨atIndex', _⟩ := plan_eq_ok planned' found'
  have methods : plan'.method = plan.method := Option.some.inj (atIndex'.symm.trans atIndex)
  obtain ⟨configured, isConfigured, kind⟩ := kind_eq_ok planned found
  obtain ⟨configured', isConfigured', kind'⟩ := kind_eq_ok planned' found'
  rw [methods] at isConfigured' kind'
  obtain rfl : configured' = configured := Except.ok.inj (isConfigured'.symm.trans isConfigured)
  by_cases sensitive : plan.method ∈ coarse.promoted ∨ options.maxIterations = 0
  · right
    rw [kind', kind, if_pos sensitive, if_pos (sensitive.imp_left (grows.promoted _))]
  · left
    rw [kind, if_neg sensitive]

/-- Without refinement, options that only differ in depths give every method the same kind. -/
theorem sameKinds_of_options (planned : plan coarse options program input = .ok plans)
    (planned' : plan fine options' program input = .ok plans') (once : options.maxIterations = 0)
    (once' : options'.maxIterations = 0) (static : options'.staticKind = options.staticKind)
    (instances : options'.instanceKind = options.instanceKind) : SameKinds plans plans' := by
  intro m plan plan' found found'
  have methods : plan'.method = plan.method := Option.some.inj
    ((plan_eq_ok planned' found').1.symm.trans (plan_eq_ok planned found).1)
  have kind := configuredKind_eq_ok planned once found
  have kind' := configuredKind_eq_ok planned' once' found'
  unfold configuredKind at kind kind'
  rw [methods, static, instances] at kind'
  exact Except.ok.inj (kind'.symm.trans kind)

/-! ### Two runs -/

variable {before between before' after : Store} {start start' : Abstraction}

theorem exists_plans (running : run options program (before, start) = .ok () (after, coarse)) :
    ∃ input plans, inputOf before = .ok input ∧
      plan coarse options program input = .ok plans := by
  obtain ⟨input, computed, read, succeeds, _⟩ := run_eq_ok running
  obtain ⟨plans, _, _, planned, _⟩ := result_eq_ok succeeds
  exact ⟨input, plans, read, planned⟩

/-- Two runs that find the same facts, the second with at least as large a depth at every site. If
every method is analysed in the same way, each context of a method in the first run is a prefix of
one in the second, and each in the second has a prefix in the first; the latter also holds if
methods that were insensitive are so no longer. A run that goes on from the first is such a second
one as long as no depth passes 64 bits. -/
theorem contexts_sharpen {options options' : Options} {program : Program}
    {start start' coarse fine : Abstraction} {before before' between after : Store}
    (running : run options program (before, start) = .ok () (between, coarse))
    (running' : run options' program (before', start') = .ok () (after, fine))
    (same : inputOf before' = inputOf before) :
    ∃ input plans plans', inputOf before = .ok input ∧
      plan coarse options program input = .ok plans ∧
      plan fine options' program input = .ok plans' ∧
      (Deepens options options' coarse fine → SameKinds plans plans' → ∀ m,
        (∀ context ∈ (familyOf plans).contextsOf m,
          ∃ longer ∈ (familyOf plans').contextsOf m, context <+: longer) ∧
        ∀ longer ∈ (familyOf plans').contextsOf m,
          ∃ context ∈ (familyOf plans).contextsOf m, context <+: longer) ∧
      (Deepens options options' coarse fine → Promotes plans plans' → ∀ m,
        ∀ longer ∈ (familyOf plans').contextsOf m,
          ∃ context ∈ (familyOf plans).contextsOf m, context <+: longer) ∧
      (start' = coarse → options' = options → Bounded options fine →
        Deepens options options' coarse fine ∧ Promotes plans plans') := by
  obtain ⟨input, plans, read, planned⟩ := exists_plans running
  obtain ⟨input', plans', read', planned'⟩ := exists_plans running'
  rw [same, read] at read'
  cases read'
  refine ⟨input, plans, plans', read, planned, planned', ?_, ?_, ?_⟩
  · intro deepens kinds m
    have promotes : Promotes plans plans' := fun m plan plan' found found' =>
      .inr (kinds m plan plan' found found')
    exact ⟨fun _ => deepens.exists_longer planned planned' kinds,
      fun _ => deepens.exists_shorter planned planned' promotes⟩
  · intro deepens promotes m _
    exact deepens.exists_shorter planned planned' promotes
  · rintro rfl rfl bounded
    have grows := grows_run (runs_of_run running) running'
    exact ⟨grows.deepens bounded, grows.promotes planned planned'⟩

abbrev deeperOptions : Options := { walkingOptions with callDepth := 2 }

/-- Recursive calls remembered one and two deep. -/
theorem contexts_sharpen_walking :
    ∃ between after,
      run walkingOptions walking (walkingStore, {}) = .ok () (between, { runs := 1 }) ∧
      run deeperOptions walking (walkingStore, {}) = .ok () (after, { runs := 1 }) ∧
      ∃ input plans plans', inputOf walkingStore = .ok input ∧
        plan { runs := 1 } walkingOptions walking input = .ok plans ∧
        plan { runs := 1 } deeperOptions walking input = .ok plans' ∧
        Deepens walkingOptions deeperOptions { runs := 1 } { runs := 1 } ∧
        SameKinds plans plans' ∧ ∀ m,
          (∀ context ∈ (familyOf plans).contextsOf m,
            ∃ longer ∈ (familyOf plans').contextsOf m, context <+: longer) ∧
          ∀ longer ∈ (familyOf plans').contextsOf m,
            ∃ context ∈ (familyOf plans).contextsOf m, context <+: longer := by
  obtain ⟨between, running⟩ := run_walking
  obtain ⟨after, running'⟩ : ∃ after, run deeperOptions walking (walkingStore, {}) =
      .ok () (after, { runs := 1 }) := run_of_evaluated (by decide +kernel)
  obtain ⟨input, plans, plans', read, planned, planned', sharpen, _⟩ :=
    contexts_sharpen running running' rfl
  have deepens : Deepens walkingOptions deeperOptions { runs := 1 } { runs := 1 } := by
    refine ⟨fun site => ?_, fun site => ?_⟩
    · show (1 + 0) % Numeral.sizeLimit ≤ (2 + 0) % Numeral.sizeLimit
      decide
    · show (1 + 0) % Numeral.sizeLimit ≤ (1 + 0) % Numeral.sizeLimit
      decide
  have kinds := sameKinds_of_options planned planned' rfl rfl rfl rfl
  exact ⟨between, after, running, running', input, plans, plans', read, planned, planned', deepens,
    kinds, sharpen deepens kinds⟩

end Abstraction

end ProgramAnalysis
