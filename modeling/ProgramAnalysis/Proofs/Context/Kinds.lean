import Mathlib.Data.List.Induction
import ProgramAnalysis.Proofs.Context.Sharpening

/-!
The kinds of methods through every history of runs. A history is the list of stores on which runs
were attempted, whether these succeeded or not (`history`). A run that succeeds publishes relations
that divide the numbered methods by kind (`Divides`). With refinement, what was named stays named,
so that ever fewer methods and variables are insensitive.
-/

namespace ProgramAnalysis

open SortedSet List Step

open Store (SameData)

namespace Abstraction

variable {abstraction before after : Abstraction} {options : Options} {program : Program}
  {store : Store} {part : Refined}

/-! ### What a run takes into account -/

/-- An abstraction knows at least what another one does, and of methods nothing more than what a
store names. -/
structure Takes (store : Store) (before after : Abstraction) : Prop where
  runs : before.runs ≤ after.runs
  promoted : ∀ method ∈ before.promoted, method ∈ after.promoted
  refined : ∀ var ∈ before.refined, var ∈ after.refined
  named : ∀ method ∈ after.promoted,
    method ∈ before.promoted ∨ method ∈ Refined.methods.named store

theorem takes_noteAll (store : Store) (abstraction : Abstraction) :
    Takes store abstraction (abstraction.noteAll (Refined.reached store)) where
  runs := (runs_noteAll abstraction _).ge
  promoted method mem := (mem_noteAll abstraction _ method).1.mpr (.inl mem)
  refined var mem := (mem_noteAll abstraction _ var).2.mpr (.inl mem)
  named method mem := ((mem_noteAll abstraction _ method).1.mp mem).imp_right
    Refined.named_of_mem_reached

/-- A run adds to what is known, unless it is the first one: that one starts anew. -/
theorem always_run (store : Store) (abstraction : Abstraction) :
    (run options program).Always (store, abstraction) fun t =>
      (abstraction.runs ≠ 0 → Takes store abstraction t.2) ∧
        (abstraction.runs = 0 → ∀ method ∈ t.2.promoted, method ∈ abstraction.promoted) := by
  have takes := takes_noteAll store abstraction
  refine (ends_run store abstraction).mono ?_ ?_
  · rintro _ ⟨_, after⟩ ⟨_, _, _, prepared, _, rfl⟩
    cases prepared with
    | first first => exact ⟨absurd first, fun _ => nofun⟩
    | later later =>
      exact ⟨fun _ => ⟨Nat.le_succ_of_le takes.runs, takes.promoted, takes.refined, takes.named⟩,
        fun first => absurd first later⟩
  · rintro ⟨_, left⟩ rfl
    dsimp only
    split
    · exact ⟨fun _ => ⟨Nat.le_refl _, fun _ => id, fun _ => id, fun _ => .inl⟩, fun _ _ => id⟩
    · split
      · next first => exact ⟨absurd first, fun _ => nofun⟩
      · next later => exact ⟨fun _ => takes, fun first => absurd first later⟩

/-! ### Histories -/

variable (options program)

/-- The abstraction that attempts to run have left, each made on a store as it then was. -/
def history (attempts : List Store) : Abstraction :=
  attempts.foldl (fun abstraction store => ((run options program).final (store, abstraction)).2) {}

/-- An attempt after the first run that succeeded found a method named. -/
def NamedLater (attempts : List Store) (method : MethodId) : Prop :=
  ∃ earlier store, earlier ++ [store] <+: attempts ∧ (history options program earlier).runs ≠ 0 ∧
    method ∈ Refined.methods.named store

variable {options program} {attempts : List Store}

theorem history_concat : history options program (attempts ++ [store]) =
    ((run options program).final (store, history options program attempts)).2 := by
  rw [history, foldl_append]
  rfl

theorem namedLater_of_mem (mem : method ∈ (history options program attempts).promoted) :
    NamedLater options program attempts method := by
  induction attempts using List.reverseRecOn with
  | nil => cases mem
  | append_singleton attempts store ih =>
    have earlier (before : method ∈ (history options program attempts).promoted) :
        NamedLater options program (attempts ++ [store]) method := by
      obtain ⟨earlier, found, isPrefix, ran, named⟩ := ih before
      exact ⟨earlier, found, isPrefix.trans (prefix_append _ _), ran, named⟩
    rw [history_concat] at mem
    obtain ⟨takes, starts⟩ :=
      (@always_run options program store (history options program attempts)).final
    by_cases ran : (history options program attempts).runs = 0
    · exact earlier (starts ran method mem)
    · rcases (takes ran).named method mem with before | named
      · exact earlier before
      · exact ⟨attempts, store, prefix_rfl, ran, named⟩

/-- Once a run has succeeded, nothing that is known is forgotten. -/
theorem remembers_history (ran : (history options program attempts).runs ≠ 0) (later : List Store) :
    let now := history options program (attempts ++ later)
    now.runs ≠ 0 ∧ (∀ method ∈ (history options program attempts).promoted, method ∈ now.promoted) ∧
      ∀ var ∈ (history options program attempts).refined, var ∈ now.refined := by
  induction later using List.reverseRecOn with
  | nil =>
    rw [append_nil]
    exact ⟨ran, fun _ => id, fun _ => id⟩
  | append_singleton later store ih =>
    obtain ⟨ran, promoted, refined⟩ := ih
    rw [← append_assoc, history_concat]
    have takes := ((@always_run options program store
      (history options program (attempts ++ later))).final).1 ran
    exact ⟨Nat.ne_of_gt (Nat.lt_of_lt_of_le (Nat.pos_of_ne_zero ran) takes.runs),
      fun method mem => takes.promoted method (promoted method mem),
      fun var mem => takes.refined var (refined var mem)⟩

theorem history_of_run
    (running : run options program (store, history options program attempts) = .ok ()
      (attempted, after)) : history options program (attempts ++ [store]) = after := by
  rw [history_concat, final_of_ok running]

/-! ### What is published about kinds -/

/-- The relation of the methods of a kind. -/
def kindRelation : ContextKind → String
  | .insensitive => "epsilonM"
  | .callSite => "kcfaSenM"
  | .object => "kobjSenM"
  | .copy => "ctxtCpyM"

theorem run_publishes
    (running : run options program (store, abstraction) = .ok () (attempted, after)) :
    ∃ input plans, inputOf store = .ok input ∧ plan after options program input = .ok plans ∧
      (∀ kind, attempted.Saved (kindRelation kind) (.ofList (ofKind plans kind))) ∧
      attempted.Saved "epsilonV" (.ofList (insensitiveVariables after program input plans)) := by
  obtain ⟨input, computed, read, succeeds, ⟨_, _, publishing⟩, _⟩ := run_eq_ok running
  obtain ⟨_, saved⟩ := publish_eq_ok succeeds publishing
  obtain ⟨plans, planned, listed⟩ := kinds_of_result succeeds
  have savedLater : ∀ entry ∈ computed.relations.drop 3,
      attempted.Saved entry.1 (.ofList entry.2) :=
    fun entry mem => saved entry (mem_of_mem_drop mem)
  rw [listed] at savedLater
  simp only [forall_mem_cons] at savedLater
  obtain ⟨insensitive, callSite, object, copy, vars, _⟩ := savedLater
  refine ⟨input, plans, read, planned, fun kind => ?_, vars⟩
  cases kind
  exacts [insensitive, callSite, object, copy]

/-- How a method is analysed if it is sensitive at all, by what it is. -/
theorem configuredKind_eq (isConfigured : configuredKind options program method = .ok configured) :
    ∃ body, program.method method = .ok body ∧ configured =
      if program.main = some method ∨ body.isClassInitializer = true ∨ body.isAbstract = true then
        .insensitive
      else if body.isStatic then options.staticKind else options.instanceKind := by
  obtain ⟨body, known, rest⟩ := except_bind_eq_ok.mp isConfigured
  refine ⟨body, mapError_eq_ok.mp known, ?_⟩
  have marked : (decide (program.main = some method) || body.isClassInitializer ||
      body.isAbstract) = true ↔
      program.main = some method ∨ body.isClassInitializer = true ∨ body.isAbstract = true := by
    simp [or_assoc]
  simp only [marked] at rest
  split at rest
  · next always =>
    rw [if_pos always]
    exact (Except.ok.inj rest).symm
  · next free =>
    rw [if_neg free]
    split at rest
    · next static =>
      rw [if_pos static]
      exact (Except.ok.inj rest).symm
    · next dynamic =>
      rw [if_neg dynamic]
      exact (Except.ok.inj rest).symm

section Planned

variable {input : Input} {plans : List MethodPlan} {m : Nat} {method : MethodId}
  {kind : ContextKind}
  (planned : plan abstraction options program input = .ok plans)
include planned

/-- A method is listed under one kind: as configured if it is promoted or nothing is refined, and as
insensitive otherwise. -/
theorem mem_ofKind_iff (atIndex : input.methods.elements[m]? = some method) :
    ∃ configured, configuredKind options program method = .ok configured ∧
      ∀ kind, [m] ∈ ofKind plans kind ↔
        kind = if method ∈ abstraction.promoted ∨ options.maxIterations = 0 then configured
          else .insensitive := by
  obtain ⟨plan, found, rfl⟩ := exists_plan planned atIndex
  obtain ⟨configured, isConfigured, isKind⟩ := kind_eq_ok planned found
  refine ⟨configured, isConfigured, fun kind => ?_⟩
  rw [← isKind, mem_ofKind]
  constructor
  · rintro ⟨n, other, found', isKind', same⟩
    cases same
    rw [found] at found'
    rw [← isKind', Option.some.inj found']
  · exact fun isKind => ⟨m, plan, found, isKind.symm, rfl⟩

theorem sensitive_iff_refined (refining : 0 < options.maxIterations) :
    var ∈ sensitiveVariables abstraction program plans ↔ var ∈ abstraction.refined := by
  have none_initially : ∀ plan ∈ plans, plan.initial = .insensitive := by
    intro plan mem
    obtain ⟨m, found⟩ := mem_iff_getElem?.mp mem
    obtain ⟨_, _, _, _, initially, _⟩ := plan_eq_ok planned found
    rw [initially, if_pos refining]
  unfold sensitiveVariables
  rw [mem_append, mem_flatMap]
  constructor
  · rintro (mem | ⟨plan, mem, among⟩)
    · exact mem
    · rw [if_pos (none_initially plan mem)] at among
      cases among
  · exact .inl

end Planned

/-! ### Division into kinds -/

/-- Relations of methods by kind divide the numbered methods lawfully after some attempts. -/
structure Divides (options : Options) (program : Program) (attempts : List Store)
    (methods : Domain .method) (kinds : ContextKind → SortedSet Tuple) : Prop where
  /-- Only methods are listed, -/
  indices : ∀ kind, ∀ tuple ∈ kinds kind, ∃ m < methods.size, tuple = [m]
  /-- and each of them under one kind. -/
  once : ∀ m < methods.size, ∃ kind, ∀ other, [m] ∈ kinds other ↔ other = kind
  /-- The entry method, class initializers and abstract methods are insensitive, static methods have
  no object contexts, and instance methods not those of their callers. -/
  lawful : ∀ m method, methods.elements[m]? = some method →
    ∃ body, program.method method = .ok body ∧
      (program.main = some method ∨ body.isClassInitializer = true ∨ body.isAbstract = true →
        [m] ∈ kinds .insensitive) ∧
      (body.isStatic = true → [m] ∉ kinds .object) ∧ (body.isStatic = false → [m] ∉ kinds .copy)
  /-- With refinement a method is sensitive only if it was named once contexts had been computed. -/
  named : 0 < options.maxIterations → ∀ m method, methods.elements[m]? = some method →
    [m] ∉ kinds .insensitive → NamedLater options program attempts method

theorem divides_of_plan (accepted : options.instanceKind ≠ .copy ∧ options.staticKind ≠ .object)
    (planned : plan (history options program attempts) options program input = .ok plans) :
    Divides options program attempts input.methods fun kind => .ofList (ofKind plans kind) where
  indices kind tuple mem := exists_index_of_mem planned (mem_ofList.mp mem)
  once m below := by
    obtain ⟨_, _, listed⟩ := mem_ofKind_iff planned (getElem?_eq_getElem below)
    exact ⟨_, fun other => mem_ofList.trans (listed other)⟩
  lawful m method found := by
    obtain ⟨configured, isConfigured, listed⟩ := mem_ofKind_iff planned found
    obtain ⟨body, known, rfl⟩ := configuredKind_eq isConfigured
    simp only [mem_ofList, listed]
    refine ⟨body, known, fun always => ?_, fun static => ?_, fun dynamic => ?_⟩
    · rw [if_pos always, ite_self]
    · rw [static, if_pos rfl]
      split
      · split
        · simp
        · exact accepted.2.symm
      · simp
    · rw [dynamic, if_neg Bool.false_ne_true]
      split
      · split
        · simp
        · exact accepted.1.symm
      · simp
  named refining m method found sensitive := by
    obtain ⟨configured, _, listed⟩ := mem_ofKind_iff planned found
    rw [mem_ofList, listed] at sensitive
    by_cases promoted : method ∈ (history options program attempts).promoted
    · exact namedLater_of_mem promoted
    · rw [if_neg (by simp [promoted, Nat.ne_of_gt refining])] at sensitive
      exact absurd rfl sensitive

theorem domains_of_inputOf (read : inputOf store = .ok input) :
    store.domain .method "M" = .ok input.methods ∧ store.domain .var "V" = .ok input.vars := by
  obtain ⟨methods, foundMethods, rest⟩ := except_bind_eq_ok.mp read
  obtain ⟨invokes, _, rest⟩ := except_bind_eq_ok.mp rest
  obtain ⟨allocations, _, rest⟩ := except_bind_eq_ok.mp rest
  obtain ⟨vars, foundVars, rest⟩ := except_bind_eq_ok.mp rest
  obtain ⟨calls, _, rest⟩ := except_bind_eq_ok.mp rest
  obtain ⟨pointsTo, _, same⟩ := except_bind_eq_ok.mp rest
  cases same
  exact ⟨foundMethods, foundVars⟩

section Later

variable {input input' : Input} {plans plans' : List MethodPlan} {tuple : Tuple}
  (planned : plan before options program input = .ok plans)
  (planned' : plan after options program input' = .ok plans')
include planned planned'

theorem insensitive_of_promoted (same : input'.methods = input.methods)
    (promoted : ∀ method ∈ before.promoted, method ∈ after.promoted)
    (mem : tuple ∈ ofKind plans' .insensitive) : tuple ∈ ofKind plans .insensitive := by
  obtain ⟨m, below, rfl⟩ := exists_index_of_mem planned' mem
  obtain ⟨method, found⟩ : ∃ method, input'.methods.elements[m]? = some method :=
    ⟨_, getElem?_eq_getElem below⟩
  obtain ⟨configured', isConfigured', listed'⟩ := mem_ofKind_iff planned' found
  rw [same] at found
  obtain ⟨configured, isConfigured, listed⟩ := mem_ofKind_iff planned found
  obtain rfl := Except.ok.inj (isConfigured.symm.trans isConfigured')
  rw [listed'] at mem
  rw [listed]
  split
  · next sensitive => rwa [if_pos (sensitive.imp_left (promoted _))] at mem
  · rfl

theorem insensitive_of_refined (refining : 0 < options.maxIterations)
    (same : input'.vars = input.vars) (refined : ∀ var ∈ before.refined, var ∈ after.refined)
    (mem : tuple ∈ insensitiveVariables after program input' plans') :
    tuple ∈ insensitiveVariables before program input plans := by
  obtain ⟨v, var, found, insensitive, rfl⟩ := mem_insensitiveVariables.mp mem
  rw [sensitive_iff_refined planned' refining] at insensitive
  rw [same] at found
  refine mem_insensitiveVariables.mpr ⟨v, var, found, ?_, rfl⟩
  rw [sensitive_iff_refined planned refining]
  exact fun early => insensitive (refined var early)

end Later

/-- Whatever runs were attempted before and whatever the relations of refinements named, a run that
succeeds publishes four relations that divide the numbered methods lawfully. With refinement, every
later run that succeeds on the same methods and variables publishes no insensitive method or
variable that was not insensitive before. -/
theorem kinds_divide_methods {after : Abstraction} {options : Options} {program : Program}
    {store : Store} {attempts : List Store} {store' : Store}
    (running : run options program (store, history options program attempts) =
      .ok () (store', after)) :
    ∃ methods vars kinds insensitive,
      store.domain .method "M" = .ok methods ∧ store.domain .var "V" = .ok vars ∧
      (∀ kind, store'.Saved (kindRelation kind) (kinds kind)) ∧
      store'.Saved "epsilonV" insensitive ∧
      Divides options program (attempts ++ [store]) methods kinds ∧
      ∀ between later later' last, run options program
          (later, history options program (attempts ++ store :: between)) = .ok () (later', last) →
        0 < options.maxIterations → later.domain .method "M" = .ok methods →
        later.domain .var "V" = .ok vars →
        ∃ kinds' insensitive', (∀ kind, later'.Saved (kindRelation kind) (kinds' kind)) ∧
          later'.Saved "epsilonV" insensitive' ∧
          Divides options program (attempts ++ store :: between ++ [later]) methods kinds' ∧
          (∀ tuple ∈ kinds' .insensitive, tuple ∈ kinds .insensitive) ∧
          ∀ tuple ∈ insensitive', tuple ∈ insensitive := by
  obtain ⟨input, plans, read, planned, saved, savedVars⟩ := run_publishes running
  obtain ⟨foundMethods, foundVars⟩ := domains_of_inputOf read
  have now := history_of_run running
  refine ⟨input.methods, input.vars, _, _, foundMethods, foundVars, saved, savedVars,
    divides_of_plan (not_or.mp (prepared_of_run running).1) (now ▸ planned), ?_⟩
  intro between later later' last running' refining foundMethods' foundVars'
  obtain ⟨input', plans', read', planned', saved', savedVars'⟩ := run_publishes running'
  obtain ⟨isMethods, isVars⟩ := domains_of_inputOf read'
  have sameMethods : input'.methods = input.methods :=
    Except.ok.inj (isMethods.symm.trans foundMethods')
  have sameVars : input'.vars = input.vars := Except.ok.inj (isVars.symm.trans foundVars')
  have afterwards := history_of_run running'
  have divides := divides_of_plan (not_or.mp (prepared_of_run running').1) (afterwards ▸ planned')
  rw [sameMethods] at divides
  have ran : (history options program (attempts ++ [store])).runs ≠ 0 := now ▸ runs_of_run running
  obtain ⟨_, promoted, refined⟩ := remembers_history ran (between ++ [later])
  have longer : attempts ++ [store] ++ (between ++ [later]) =
      attempts ++ store :: between ++ [later] := by simp
  rw [longer, afterwards, now] at promoted refined
  refine ⟨_, _, saved', savedVars', divides, fun tuple member => ?_, fun tuple member => ?_⟩
  · exact SortedSet.mem_ofList.mpr (insensitive_of_promoted planned planned' sameMethods promoted
      (SortedSet.mem_ofList.mp member))
  · exact SortedSet.mem_ofList.mpr (insensitive_of_refined planned planned' refining
      sameVars refined (SortedSet.mem_ofList.mp member))

/-! ### A method that is named between two runs -/

abbrev refiningOptions : Options := { walkingOptions with maxIterations := 1 }

/-- The store with a relation that names the method that walks. -/
abbrev namingStore : Store :=
  { walkingStore with
    disk := ⟨walkingStore.disk.entries.insert ["refineM.tuples"]
      (.file (.text "# M0:3\n# order=M0\n1\n"))⟩ }

abbrev walkingNamed : Abstraction := { runs := 1, promoted := .ofList [1] }

theorem kinds_divide_methods_walking :
    ∃ after later,
      run refiningOptions walking (walkingStore, history refiningOptions walking []) =
        .ok () (after, { runs := 1 }) ∧
      run refiningOptions walking (namingStore, history refiningOptions walking [walkingStore]) =
        .ok () (later, { walkingNamed with runs := 2 }) ∧
      ∃ kinds kinds', Divides refiningOptions walking [walkingStore] walkingInput.methods kinds ∧
        Divides refiningOptions walking [walkingStore, namingStore] walkingInput.methods kinds' ∧
        [0] ∈ kinds' .insensitive ∧
        ∀ tuple ∈ kinds' .insensitive, tuple ∈ kinds .insensitive := by
  obtain ⟨after, running⟩ : ∃ after, run refiningOptions walking (walkingStore, {}) =
      .ok () (after, { runs := 1 }) := run_of_evaluated (by decide +kernel)
  have ran : history refiningOptions walking [walkingStore] = { runs := 1 } :=
    @history_of_run _ _ _ _ [] _ running
  obtain ⟨later, again⟩ : ∃ later, run refiningOptions walking (namingStore, { runs := 1 }) =
      .ok () (later, { walkingNamed with runs := 2 }) := run_of_evaluated (by decide +kernel)
  rw [← ran] at again
  obtain ⟨methods, vars, kinds, _, foundMethods, foundVars, _, _, divides, shrinks⟩ :=
    @kinds_divide_methods _ _ _ _ [] _ running
  cases foundMethods
  obtain ⟨kinds', _, _, _, divides', fewer, _⟩ :=
    shrinks [] namingStore later _ again (by decide) rfl foundVars
  obtain ⟨_, known, always, _⟩ := divides'.lawful 0 0 rfl
  exact ⟨after, later, running, again, kinds, kinds', divides, divides', always (.inl rfl), fewer⟩

end Abstraction

end ProgramAnalysis
