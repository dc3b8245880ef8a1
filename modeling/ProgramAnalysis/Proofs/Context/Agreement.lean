import ProgramAnalysis.Proofs.CallGraph.Build
import ProgramAnalysis.Proofs.CallGraph.Plain
import ProgramAnalysis.Proofs.Context.Publication
import ProgramAnalysis.Proofs.Facts.Meaning

/-!
The two constructions of call-site contexts agree. One solves equations over numbered methods, the
other searches from the roots of a call graph, and both make the context of a callee from that of
its caller in the same way. They part only at abstract methods, which have the empty context among
the solutions whether anything calls them or not.
-/

namespace ProgramAnalysis.Abstraction

open PlainCallGraph CallGraph FactRelation Store List

/-- The input is read off a program, call targets being replaced through a remap. -/
structure Input.IsOf (input : Input) (program : Program) (remap : Remap) : Prop where
  methods : input.methods = (FactDomain.methods.ofProgram program).setFilled
  invokes : input.invokes = (FactDomain.invokes.ofProgram program).setFilled
  mem_calls : ∀ x y, (x, y) ∈ input.calls ↔ ∃ i m,
    input.invokes.elements[x]? = some i ∧ input.methods.elements[y]? = some m ∧
      m ∈ (ofProgram program remap).targetsOf i

variable {abstraction : Abstraction} {options : Options} {program : Program} {input : Input}
  {plans : List MethodPlan} {remap : Remap} {k : Nat}

/-! ### What the input says -/

variable {m : MethodId} {n : Nat}

namespace Input.IsOf

theorem idxOf?_method (facts : input.IsOf program remap) :
    input.methods.elements.idxOf? m = some n ↔ input.methods.elements[n]? = some m := by
  rw [facts.methods]
  have distinct : (FactDomain.methods.ofProgram program).elements.Nodup := Domain.nodup_ofList
  exact Domain.idxOf?_eq_some_iff distinct

theorem exists_index (facts : input.IsOf program remap) (valid : program.Valid)
    (below : m < program.methods.length) : ∃ n : Nat, input.methods.elements[n]? = some m := by
  rw [← mem_iff_getElem?, facts.methods]
  exact (FactDomain.mem_methods valid).mpr below

variable {i : InstId}

theorem exists_invoke (facts : input.IsOf program remap)
    (found : program.instructions[i]? = some instr) (invoke : instr.isInvoke = true) :
    ∃ x : Nat, input.invokes.elements[x]? = some i := by
  rw [← mem_iff_getElem?, facts.invokes]
  exact FactDomain.mem_invokes.mpr ⟨instr, found, invoke⟩

theorem mem_calls_iff (facts : input.IsOf program remap)
    (atSite : input.invokes.elements[x]? = some i)
    (atMethod : input.methods.elements[y]? = some m) :
    (x, y) ∈ input.calls ↔ m ∈ (ofProgram program remap).targetsOf i := by
  rw [facts.mem_calls]
  constructor
  · rintro ⟨_, _, atSite', atMethod', reached⟩
    cases atSite.symm.trans atSite'
    cases atMethod.symm.trans atMethod'
    exact reached
  · exact fun reached => ⟨i, m, atSite, atMethod, reached⟩

end Input.IsOf

/-! ### What the plans say -/

section Plans

variable (facts : input.IsOf program remap)
  (kinds : options.instanceKind = .callSite ∧ options.staticKind = .callSite)
  (once : options.maxIterations = 0)
  (depth : ∀ site, abstraction.callDepth options site = k)
  (planned : plan abstraction options program input = .ok plans)

variable (remap) in
include kinds once planned in
/-- The methods that never get a context are the same for both constructions. -/
theorem kind_eq {m : Nat} {plan : MethodPlan} (found : plans[m]? = some plan) :
    plan.kind = if (ofProgram program remap).isInsensitive plan.method then
      .insensitive else .callSite := by
  have configured := configuredKind_eq_ok planned once found
  unfold configuredKind at configured
  obtain ⟨method, isMethod, rest⟩ := except_bind_eq_ok.mp configured
  have isMethod := Program.entry_eq_ok.mp (mapError_eq_ok.mp isMethod)
  have insensitive : (decide (program.main = some plan.method) || method.isClassInitializer ||
      method.isAbstract) = (ofProgram program remap).isInsensitive plan.method := by
    rw [Bool.eq_iff_iff, isInsensitive_ofProgram, isMethod]
    simp [or_assoc, or_comm, or_left_comm]
  rw [insensitive, kinds.1, kinds.2] at rest
  split at rest
  · next marked =>
    rw [if_pos marked]
    exact (Except.ok.inj rest).symm
  · next unmarked =>
    rw [if_neg unmarked]
    split at rest
    · exact (Except.ok.inj rest).symm
    · exact (Except.ok.inj rest).symm

include kinds once planned in
theorem origin_of_isInsensitive (atIndex : input.methods.elements[n]? = some m)
    (insensitive : (ofProgram program remap).isInsensitive m = true) :
    (plans.map (·.origin))[n]? = some .start := by
  obtain ⟨plan, found, rfl⟩ := exists_plan planned atIndex
  have kind := kind_eq remap kinds once planned found
  rw [if_pos insensitive] at kind
  obtain ⟨_, made, _⟩ := plan_eq_ok planned found
  rw [kind] at made
  rw [getElem?_origins found, ← Except.ok.inj made]

include facts kinds once depth planned in
/-- The other methods are entered through the calls that have them as a target. -/
theorem origin_of_not_isInsensitive (atIndex : input.methods.elements[n]? = some m)
    (sensitive : ¬ (ofProgram program remap).isInsensitive m = true) :
    ∃ places, (plans.map (·.origin))[n]? = some (.through places) ∧ ∀ place, place ∈ places ↔
      input.invokes.elements[place.index]? = some place.site ∧ place.depth = k ∧
      m ∈ (ofProgram program remap).targetsOf place.site ∧
      ∃ caller, input.methods.elements[place.method]? = some caller ∧
        place.site ∈ (ofProgram program remap).sitesOf caller := by
  obtain ⟨plan, found, rfl⟩ := exists_plan planned atIndex
  have kind := kind_eq remap kinds once planned found
  rw [if_neg sensitive] at kind
  obtain ⟨_, made, _⟩ := plan_eq_ok planned found
  rw [kind] at made
  obtain ⟨places, through, among⟩ := originOf_callSite made
  refine ⟨places, by rw [getElem?_origins found, through], fun place => ?_⟩
  rw [among]
  constructor
  · rintro ⟨x, calls, site, atSite, n', ⟨instr, atInstruction, around⟩, rfl⟩
    rw [facts.mem_calls_iff atSite atIndex] at calls
    refine ⟨atSite, depth site, calls, instr.method, facts.idxOf?_method.mp around, ?_⟩
    obtain ⟨other, atInstruction', target⟩ := mem_targetsOf_ofProgram.mp calls
    cases atInstruction.symm.trans atInstruction'
    exact mem_sitesOf_ofProgram.mpr ⟨instr, atInstruction, isInvoke_of_mem_targets target, rfl⟩
  · obtain ⟨x, i, n', kept⟩ := place
    rintro ⟨atSite, rfl, target, caller, around, inCaller⟩
    obtain ⟨instr, atInstruction, _, rfl⟩ := mem_sitesOf_ofProgram.mp inCaller
    refine ⟨x, (facts.mem_calls_iff atSite atIndex).mpr target, i, atSite, n', ?_, ?_⟩
    · exact ⟨instr, atInstruction, facts.idxOf?_method.mpr around⟩
    · rw [depth]

/-! ### The two constructions -/

variable (valid : program.Valid)

include facts kinds once depth planned valid in
/-- Whatever the call graph reaches is among the contexts that are solved for. -/
theorem mem_contextsOf_of_mem_nodes
    (mem : node ∈ (build (ofProgram program remap) (.callSite k) .empty).nodes) :
    ∃ n, input.methods.elements[n]? = some node.handle ∧
      node.context ∈ (familyOf plans).contextsOf n := by
  unfold familyOf
  simp only [ContextFamily.mem_solve]
  rw [mem_nodes_build] at mem
  induction mem with
  | start root =>
    obtain ⟨m, isRoot, rfl⟩ := mem_map.mp root
    rw [roots_ofProgram] at isRoot
    obtain ⟨n, atIndex⟩ := facts.exists_index valid (valid.root_lt isRoot)
    exact ⟨n, atIndex, .start (origin_of_isInsensitive kinds once planned atIndex
      (isInsensitive_of_mem_roots remap isRoot))⟩
  | @step caller callee reached called ih =>
    obtain ⟨n', atCaller, arises⟩ := ih
    obtain ⟨i, inCaller, target, given⟩ := mem_calleesOf.mp called
    obtain ⟨instr, atInstruction, resolved⟩ := mem_targetsOf_ofProgram.mp target
    obtain ⟨n, atIndex⟩ := facts.exists_index valid (lt_of_mem_targets valid atInstruction resolved)
    refine ⟨n, atIndex, ?_⟩
    rw [calleeContexts_callSite, mem_singleton] at given
    rw [given]
    split
    · next insensitive =>
      exact .start (origin_of_isInsensitive kinds once planned atIndex insensitive)
    · next sensitive =>
      obtain ⟨places, through, among⟩ :=
        origin_of_not_isInsensitive facts kinds once depth planned atIndex sensitive
      obtain ⟨x, atX⟩ := facts.exists_invoke atInstruction (isInvoke_of_mem_targets resolved)
      have place : (⟨x, i, n', k⟩ : ContextSite) ∈ places :=
        (among _).mpr ⟨atX, rfl, target, caller.handle, atCaller, inCaller⟩
      exact .through through place arises

include facts kinds once depth planned in
/-- If abstract methods call nothing, the call graph reaches all contexts that are solved for, but
for the empty one of abstract methods. -/
theorem mem_nodes_of_mem_contextsOf (concrete : ∀ i ∈ program.instructions, i.isInvoke = true →
      ∀ method, program.methods[i.method]? = some method → method.isAbstract = false)
    (atIndex : input.methods.elements[n]? = some m)
    (mem : context ∈ (familyOf plans).contextsOf n) :
    ⟨context, m⟩ ∈ (build (ofProgram program remap) (.callSite k)
      .empty).nodes ∨ ∃ method, program.methods[m]? = some method ∧ method.isAbstract = true := by
  have arises := ContextFamily.mem_solve.mp mem
  clear mem
  induction arises generalizing m with
  | @start n isStart =>
    by_cases insensitive : (ofProgram program remap).isInsensitive m = true
    · refine (root_or_abstract insensitive).imp_left fun isRoot => ?_
      rw [← roots_ofProgram program remap] at isRoot
      exact mem_nodes_build.mpr (.start (mem_map_of_mem isRoot))
    · obtain ⟨places, through, _⟩ :=
        origin_of_not_isInsensitive facts kinds once depth planned atIndex insensitive
      cases isStart.symm.trans through
  | @through n places place before isThrough mem arises ih =>
    by_cases insensitive : (ofProgram program remap).isInsensitive m = true
    · cases isThrough.symm.trans (origin_of_isInsensitive kinds once planned atIndex insensitive)
    · obtain ⟨_, through, among⟩ :=
        origin_of_not_isInsensitive facts kinds once depth planned atIndex insensitive
      cases isThrough.symm.trans through
      obtain ⟨_, kept, target, caller, atCaller, inCaller⟩ := (among place).mp mem
      rcases ih atCaller with reached | ⟨method, found, abstract⟩
      · refine .inl (mem_nodes_build.mpr
          (.step (mem_nodes_build.mp reached) (mem_calleesOf.mpr
            ⟨place.site, inCaller, target, ?_⟩)))
        rw [calleeContexts_callSite, if_neg insensitive, ContextSite.extend, kept]
        exact mem_singleton.mpr rfl
      · obtain ⟨instr, atInstruction, invoke, rfl⟩ :=
          mem_sitesOf_ofProgram.mp inCaller
        rw [concrete instr (mem_of_getElem? atInstruction) invoke method found] at abstract
        cases abstract
  | copying isCopying =>
    by_cases insensitive : (ofProgram program remap).isInsensitive m = true
    · cases isCopying.symm.trans (origin_of_isInsensitive kinds once planned atIndex insensitive)
    · obtain ⟨_, through, _⟩ :=
        origin_of_not_isInsensitive facts kinds once depth planned atIndex insensitive
      cases isCopying.symm.trans through

end Plans

/-! ### From published facts -/

/-- Publishes what contexts are computed from: the entities of a program, what its calls may reach,
and which allocation sites variables may point to. -/
def publishInput (options : Options) (program : Program) (remap : Remap) (pointsTo : List Tuple) :
    Step Store Unit := do
  [FactDomain.methods, .invokes, .allocations, .vars].forM fun domain =>
    domain.publish options program
  invokeTargets.publish remap program
  fillRelation "VH" pointsTo

section Published

variable {pointsTo : List Tuple} {start before after : Store} {refined : Abstraction}
  {signature : Signature}

/-- What is read back is what the program and the remap say. -/
theorem isOf_of_publishInput (declared : start.signature? "IM" = some signature)
    (lines : Relation.HasLines signature)
    (valid : program.Valid)
    (publishing : publishInput options program remap pointsTo start = .ok () before)
    (read : inputOf before = .ok input) : input.IsOf program remap := by
  obtain ⟨_, first, publishDomains, rest⟩ := Step.bind_eq_ok.mp publishing
  obtain ⟨_, second, publishCalls, filling⟩ := Step.bind_eq_ok.mp rest
  obtain ⟨held, _, signatures⟩ := FactDomain.forM_publish_eq_ok publishDomains
  obtain ⟨pairs, paired, keeps, saved⟩ := FactRelation.publish_eq_ok publishCalls
  obtain ⟨keeps', _⟩ := fillRelation_eq_ok (plain_fileOf (by decide)) filling
  have stillHeld {domain : FactDomain} (held : domain.HeldBy program first) :
      domain.HeldBy program before := by
    unfold FactDomain.HeldBy
    rwa [keeps'.domains, keeps.domains]
  have stillDeclared : before.signature? "IM" = some signature := by
    rw [keeps'.signatures, keeps.signatures, signatures, declared]
  have stillSaved := saved.of_keepsBut keeps' (plain_fileOf (by decide)) (by decide)
  obtain ⟨_, foundMethods, rest⟩ := except_bind_eq_ok.mp read
  cases foundMethods.symm.trans (domain_eq_ok (stillHeld (held .methods (by decide))))
  obtain ⟨_, foundInvokes, rest⟩ := except_bind_eq_ok.mp rest
  cases foundInvokes.symm.trans (domain_eq_ok (stillHeld (held .invokes (by decide))))
  obtain ⟨_, _, rest⟩ := except_bind_eq_ok.mp rest
  obtain ⟨_, _, rest⟩ := except_bind_eq_ok.mp rest
  obtain ⟨calls, loading, rest⟩ := except_bind_eq_ok.mp rest
  obtain ⟨_, _, same⟩ := except_bind_eq_ok.mp rest
  cases same
  refine ⟨rfl, rfl, fun x y => ?_⟩
  have stand := @mem_pairs program remap first invokeTargets pairs x y valid
    (held .invokes (by decide)) (held .methods (by decide)) paired
  rw [Pairs, ← FactDomain.elements_ofProgram, ← FactDomain.elements_ofProgram] at stand
  refine (mem_pairsOf_filled stillSaved stillDeclared lines loading).trans (stand.trans ?_)
  exact exists_congr fun i => exists_congr fun m => and_congr_right fun _ =>
    and_congr_right fun _ => (relates_invokeTargets valid).trans mem_targetsOf_ofProgram.symm

/-- Contexts solved for from published facts agree with the call graph of the program: what the
graph reaches is solved for, and if abstract methods call nothing, the contexts of every method that
is not abstract are exactly those of the graph. -/
theorem contexts_agree {abstraction refined : Abstraction} {options : Options} {program : Program}
    {remap : Remap} {pointsTo : List Tuple} {start before after : Store} {signature : Signature}
    (accepted : program.validate = .ok ())
    (kinds : options.instanceKind = .callSite ∧ options.staticKind = .callSite)
    (once : options.maxIterations = 0) (bounded : options.callDepth < Numeral.sizeLimit)
    (declared : start.signature? "IM" = some signature) (lines : Relation.HasLines signature)
    (publishing : publishInput options program remap pointsTo start = .ok () before)
    (fresh : abstraction.runs = 0)
    (running : run options program (before, abstraction) = .ok () (after, refined)) :
    let graph := CallGraph.build (PlainCallGraph.ofProgram program remap)
      (.callSite options.callDepth) .empty
    ∃ input plans, inputOf before = .ok input ∧ plan refined options program input = .ok plans ∧
      (∀ m context, ⟨context, m⟩ ∈ graph.nodes → ∃ n, input.methods.elements[n]? = some m ∧
        context ∈ (familyOf plans).contextsOf n) ∧
      ((∀ i ∈ program.instructions, i.isInvoke = true →
          ∀ method, program.methods[i.method]? = some method → method.isAbstract = false) →
        ∀ m method, program.methods[m]? = some method → method.isAbstract = false →
          ∃ n, input.methods.elements[n]? = some m ∧
            (familyOf plans).contextsOf n = graph.contexts m) := by
  intro graph
  have valid := Program.valid_of_validate accepted
  obtain ⟨input, computed, read, succeeds, _, initial⟩ := run_eq_ok running
  obtain ⟨plans, _, _, planned, _⟩ := result_eq_ok succeeds
  obtain rfl := initial fresh
  have facts := isOf_of_publishInput declared lines valid publishing read
  have depth (site : InstId) : ({ runs := 1 } : Abstraction).callDepth options site =
      options.callDepth :=
    Nat.mod_eq_of_lt bounded
  refine ⟨input, plans, read, planned, fun m context member =>
    mem_contextsOf_of_mem_nodes facts kinds once depth planned valid member, ?_⟩
  intro concrete m method found notAbstract
  have below := (List.getElem?_eq_some_iff.mp found).1
  obtain ⟨n, atIndex⟩ := facts.exists_index valid below
  refine ⟨n, atIndex, SortedSet.ext fun context => ?_⟩
  rw [CallGraph.mem_contexts]
  constructor
  · intro member
    rcases mem_nodes_of_mem_contextsOf facts kinds once depth planned concrete atIndex member with
      reached | ⟨other, found', abstract⟩
    · exact reached
    · cases found.symm.trans found'
      rw [notAbstract] at abstract
      cases abstract
  · intro member
    obtain ⟨n', atIndex', had⟩ :=
      mem_contextsOf_of_mem_nodes facts kinds once depth planned valid member
    cases (facts.idxOf?_method.mpr atIndex).symm.trans (facts.idxOf?_method.mpr atIndex')
    exact had

/-- A recursive program whose native method is replaced by a model. -/
abbrev relaying : Program where
  main := some 0
  methods := [{ signature := "main", isStatic := true }, { signature := "relay", isStatic := true },
    { signature := "native" }, { signature := "model" }]
  instructions := [⟨0, none, .invoke [1] none⟩, ⟨1, none, .invoke [1] none⟩,
    ⟨1, none, .invoke [2] none⟩]

abbrev relayingRemap : Remap := Remap.empty.insert "native" "model"

abbrev relayingOptions : Options :=
  { instanceKind := .callSite, staticKind := .callSite, callDepth := 2 }

abbrev relayingStore : Store :=
  signatures.foldl (fun store entry => store.putRelation ⟨entry.1, entry.2, none⟩)
    (onDirectory .empty "")

/-- The facts are published and contexts computed from them. -/
theorem run_relaying :
    ∃ before after, publishInput relayingOptions relaying relayingRemap [] relayingStore =
        .ok () before ∧
      run relayingOptions relaying (before, {}) = .ok () (after, { runs := 1 }) := by
  have evaluated :
      ((publishInput relayingOptions relaying relayingRemap []).outcome relayingStore).map
        (fun published => ((run relayingOptions relaying).outcome (published.2, {})).map (·.2.2)) =
      .ok (.ok { runs := 1 }) := by
    decide +kernel
  obtain ⟨_, before, publishing, evaluated⟩ := Step.exists_of_outcome evaluated
  obtain ⟨after, running⟩ := run_of_evaluated evaluated
  exact ⟨before, after, publishing, running⟩

theorem contexts_agree_relaying :
    ∃ before after, publishInput relayingOptions relaying relayingRemap [] relayingStore =
        .ok () before ∧
      run relayingOptions relaying (before, {}) = .ok () (after, { runs := 1 }) ∧
      ∃ input plans, inputOf before = .ok input ∧
        plan { runs := 1 } relayingOptions relaying input = .ok plans ∧
        ∃ n, input.methods.elements[n]? = some (3 : MethodId) ∧ (familyOf plans).contextsOf n =
          (CallGraph.build (PlainCallGraph.ofProgram relaying relayingRemap) (.callSite 2)
            .empty).contexts 3 := by
  obtain ⟨before, after, publishing, running⟩ := run_relaying
  have declared : relayingStore.signature? "IM" = some FactRelation.invokeTargets.signature := rfl
  have concrete : ∀ method ∈ relaying.methods, method.isAbstract = false := by decide
  obtain ⟨input, plans, read, planned, _, exactly⟩ := contexts_agree rfl ⟨rfl, rfl⟩ rfl (by decide)
    declared ⟨by decide, by decide⟩ publishing rfl running
  refine ⟨before, after, publishing, running, input, plans, read, planned, ?_⟩
  exact exactly (fun _ _ _ method found => concrete method (List.mem_of_getElem? found)) 3
    { signature := "model" } rfl rfl

end Published

end ProgramAnalysis.Abstraction
