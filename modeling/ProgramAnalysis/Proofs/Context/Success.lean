import ProgramAnalysis.Proofs.Context.Publication
import ProgramAnalysis.Proofs.Facts.Publishing

/-!
Contexts can be computed from the facts of a valid program. If the input covers the program
(`Input.Covers`), everything that is looked up is found, and what is computed fits the domains that
it is over. Writing it can then be stopped by nothing but the disk.
-/

namespace ProgramAnalysis.Abstraction

open Step List FactDomain Store SortedSet Numeral

variable {abstraction : Abstraction} {options : Options} {program : Program} {input : Input}

/-! ### Success -/

/-- An input has the domains of a program, and the sites that it pairs with methods and variables
are numbered. -/
structure Input.Covers (program : Program) (input : Input) : Prop where
  methods : input.methods = (FactDomain.methods.ofProgram program).setFilled
  invokes : input.invokes = (FactDomain.invokes.ofProgram program).setFilled
  allocations : input.allocations = (FactDomain.allocations.ofProgram program).setFilled
  vars : input.vars = (FactDomain.vars.ofProgram program).setFilled
  calls : ∀ i m, (i, m) ∈ input.calls → i < input.invokes.size
  pointsTo : ∀ v h, (v, h) ∈ input.pointsTo → h < input.allocations.size

section Success

theorem exists_method (valid : program.Valid) {m : MethodId}
    (mem : m ∈ (FactDomain.methods.ofProgram program).elements) :
    ∃ method, program.methods[m]? = some method :=
  ⟨_, getElem?_eq_getElem ((mem_methods valid).mp mem)⟩

theorem method_eq_ok (found : program.methods[m]? = some method) :
    (program.method m).mapError Fault.program = .ok method :=
  mapError_eq_ok.mpr (Program.entry_eq_ok.mpr found)

theorem exists_enclosing (filled : input.methods.filled = true) (site : InstId)
    (there : ∃ instruction, program.instructions[site]? = some instruction) :
    ∃ answer, enclosingMethod program input.methods site = .ok answer := by
  obtain ⟨instruction, found⟩ := there
  exact ⟨_, enclosingMethod_eq_ok.mpr ⟨instruction, found, Domain.indexOf_eq_ok.mpr ⟨filled, rfl⟩⟩⟩

theorem exists_place (filled : input.methods.filled = true) (depth : InstId → Nat) (index : Nat)
    (site : InstId) (there : ∃ instruction, program.instructions[site]? = some instruction) :
    ∃ placed, place program input depth index site = .ok placed := by
  obtain ⟨answer, enclosed⟩ := exists_enclosing filled site there
  exact ⟨_, except_bind_eq_ok.mpr ⟨answer, enclosed, rfl⟩⟩

/-- What succeeds at every instruction succeeds at the sites with some indices. -/
theorem exists_atSites {β : Type} {sites : Domain .instruction} {sort : Operation → Prop}
    [DecidablePred sort] {indices : List Nat} {f : Nat → InstId → Except Fault (Option β)}
    (filled : sites.filled = true) (numbered : sites.elements = FactDomain.sites program sort)
    (below : ∀ i ∈ indices, i < sites.size)
    (succeeds : ∀ i site, (∃ instruction, program.instructions[site]? = some instruction) →
      ∃ answer, f i site = .ok answer) :
    ∃ answers, (indices.filterMapM fun i => do f i (← sites.element i)) = .ok answers := by
  refine exists_filterMapM fun i mem => ?_
  have atIndex := getElem?_eq_getElem (below i mem)
  obtain ⟨answer, done⟩ := succeeds i _
    (FactRelation.exists_instruction numbered (i, _) (Domain.mem_indexed.mpr atIndex))
  exact ⟨answer, except_bind_eq_ok.mpr ⟨_, Domain.element_eq_ok.mpr ⟨filled, atIndex⟩, done⟩⟩

variable (valid : program.Valid) (covers : input.Covers program)
include covers

theorem Input.Covers.filled : input.methods.filled = true ∧ input.invokes.filled = true ∧
    input.allocations.filled = true ∧ input.vars.filled = true := by
  rw [covers.methods, covers.invokes, covers.allocations, covers.vars]
  exact ⟨rfl, rfl, rfl, rfl⟩

theorem Input.Covers.invokeSites :
    input.invokes.elements = FactDomain.sites program Operation.Invokes := by
  rw [covers.invokes]
  exact elements_ofProgram .invokes

theorem Input.Covers.allocationSites :
    input.allocations.elements = FactDomain.sites program Operation.Allocates := by
  rw [covers.allocations]
  exact elements_ofProgram .allocations

theorem exists_receiverOf (found : program.methods[m]? = some method) :
    ∃ receiver, receiverOf program input m = .ok receiver := by
  unfold receiverOf
  rw [method_eq_ok found]
  dsimp only [bind, Except.bind]
  cases method.receiver? with
  | none => exact ⟨none, rfl⟩
  | some this => exact ⟨_, Domain.indexOf_eq_ok.mpr ⟨covers.filled.2.2.2, rfl⟩⟩

theorem exists_originOf {method : Method} {m : Nat} {handle : MethodId}
    (found : program.methods[handle]? = some method) (kind : ContextKind) :
    ∃ origin, originOf abstraction options program input m handle kind = .ok origin := by
  obtain ⟨filled, filledInvokes, filledAllocations, _⟩ := covers.filled
  have called (i : Nat) (mem : i ∈ callersOf input m) : i < input.invokes.size :=
    covers.calls i m (mem_callersOf.mp mem)
  cases kind with
  | insensitive => exact ⟨.start, rfl⟩
  | callSite =>
    obtain ⟨places, placed⟩ := exists_atSites filledInvokes covers.invokeSites called
      (exists_place filled (abstraction.callDepth options))
    exact ⟨.through places, except_bind_eq_ok.mpr ⟨places, placed, rfl⟩⟩
  | object =>
    obtain ⟨receiver, received⟩ := exists_receiverOf covers found
    obtain ⟨places, placed⟩ := exists_atSites filledAllocations covers.allocationSites
      (fun h mem => by
        obtain ⟨v, _, mem⟩ := mem_flatMap.mp mem
        exact covers.pointsTo v h (mem_allocationsOf.mp mem))
      (exists_place filled (abstraction.objectDepth options))
    exact ⟨.through places, except_bind_eq_ok.mpr ⟨receiver, received,
      except_bind_eq_ok.mpr ⟨places, placed, rfl⟩⟩⟩
  | copy =>
    obtain ⟨callers, enclosed⟩ := exists_atSites filledInvokes covers.invokeSites called
      fun _ => exists_enclosing filled
    exact ⟨.copying callers, except_bind_eq_ok.mpr ⟨callers, enclosed, rfl⟩⟩

include valid

theorem plan_of_valid : ∃ plans, plan abstraction options program input = .ok plans := by
  refine exists_mapM fun entry mem => ?_
  have among := mem_of_getElem? (Domain.mem_indexed.mp mem)
  rw [covers.methods] at among
  obtain ⟨method, found⟩ := exists_method valid among
  obtain ⟨configured, isConfigured⟩ :
      ∃ kind, configuredKind options program entry.2 = .ok kind := by
    unfold configuredKind
    rw [method_eq_ok found]
    dsimp only [bind, Except.bind]
    split
    · exact ⟨_, rfl⟩
    · split
      · exact ⟨_, rfl⟩
      · exact ⟨_, rfl⟩
  obtain ⟨origin, originated⟩ := @exists_originOf abstraction options program input covers method
    entry.1 entry.2 found (if entry.2 ∈ abstraction.promoted then configured
      else if options.maxIterations > 0 then .insensitive else configured)
  exact ⟨_, except_bind_eq_ok.mpr ⟨configured, isConfigured,
    except_bind_eq_ok.mpr ⟨origin, originated, rfl⟩⟩⟩

theorem exists_result : ∃ computed, result abstraction options program input = .ok computed := by
  obtain ⟨filled, _⟩ := covers.filled
  obtain ⟨plans, planned⟩ := @plan_of_valid abstraction options _ _ valid covers
  have placed {sites : Domain .instruction} {sort : Operation → Prop} [DecidablePred sort]
      (numbered : sites.elements = FactDomain.sites program sort) (depth : InstId → Nat)
      (entries : List (Nat × InstId)) (among : entries ⊆ sites.indexed) :
      ∃ places, (entries.filterMapM fun entry => place program input depth entry.1 entry.2) =
        .ok places := by
    refine exists_filterMapM fun entry mem => ?_
    exact exists_place filled depth _ _ (FactRelation.exists_instruction numbered entry (among mem))
  obtain ⟨invokes, foundInvokes⟩ := placed covers.invokeSites (abstraction.callDepth options)
    (input.invokes.indexed.filter (·.1 ∈ sensitiveInvokes input plans)) filter_sublist.subset
  obtain ⟨allocations, foundAllocations⟩ := placed covers.allocationSites
    (abstraction.objectDepth options) input.allocations.indexed (List.Subset.refl _)
  exact ⟨_, except_bind_eq_ok.mpr ⟨plans, planned, except_bind_eq_ok.mpr ⟨invokes, foundInvokes,
    except_bind_eq_ok.mpr ⟨allocations, foundAllocations, rfl⟩⟩⟩⟩

end Success

/-! ### Ranges -/

/-- How many elements the domain with a name has if there are so many contexts. -/
def count (program : Program) (contexts : Nat) (name : String) : Nat :=
  if name = "C" then contexts else FactDomain.count program name

/-- The relations of a result are declared, and their tuples are within the sizes of the domains. -/
def Result.Fits (program : Program) (computed : Result) : Prop :=
  ∀ entry ∈ computed.relations, ∃ signature, (entry.1, signature) ∈ signatures ∧
    ∀ tuple ∈ entry.2, Relation.Within signature.arity
      (signature.domains.map (count program computed.contexts.size)) tuple

theorem lt_of_getElem? {α : Type} {items : List α} {i : Nat} {a : α} (found : items[i]? = some a) :
    i < items.length :=
  (List.getElem?_eq_some_iff.mp found).1

theorem size_ofProgram (domain : FactDomain) :
    (domain.ofProgram program).setFilled.size = FactDomain.count program domain.name := by
  rw [count_name, ← elements_ofProgram]
  rfl

theorem Input.Covers.sizes (covers : input.Covers program) :
    input.methods.size = FactDomain.count program "M" ∧
      input.invokes.size = FactDomain.count program "I" ∧
      input.allocations.size = FactDomain.count program "H" ∧
      input.vars.size = FactDomain.count program "V" := by
  rw [covers.methods, covers.invokes, covers.allocations, covers.vars]
  exact ⟨size_ofProgram .methods, size_ofProgram .invokes, size_ofProgram .allocations,
    size_ofProgram .vars⟩

/-- The indices in a result lie in the domains of their columns. -/
theorem fits_result {computed : Result} (covers : input.Covers program)
    (succeeds : result abstraction options program input = .ok computed) :
    computed.Fits program := by
  obtain ⟨plans, invokes, allocations, planned, foundInvokes, foundAllocations,
      contexts, steps, _⟩ :=
    result_eq_ok succeeds
  obtain ⟨_, planned', kinds⟩ := kinds_of_result succeeds
  cases planned.symm.trans planned'
  obtain ⟨sizeM, sizeI, sizeH, sizeV⟩ := covers.sizes
  have described := describes_numbered planned foundInvokes foundAllocations
    (congrArg Domain.elements contexts)
  have ofKind (name : String) (kind : ContextKind)
      (declared : (name, ⟨["M0"], "M0"⟩) ∈ signatures) :
      ∃ sig, (name, sig) ∈ signatures ∧ ∀ tuple ∈ ofKind plans kind,
        Relation.Within sig.arity
          (sig.domains.map (count program computed.contexts.size)) tuple := by
    refine ⟨_, declared, fun tuple mem => ?_⟩
    obtain ⟨m, below, rfl⟩ := exists_index_of_mem planned mem
    exact Relation.within_single.mpr (below.trans_eq sizeM)
  unfold Result.Fits
  rw [← take_append_drop 3 computed.relations, steps, kinds]
  simp only [cons_append, nil_append, forall_mem_cons]
  refine ⟨⟨_, .head _, fun tuple mem => ?_⟩,
    ⟨⟨["C0", "I0"], "C0_I0"⟩, by decide, fun tuple mem => ?_⟩,
    ⟨⟨["C0", "H0"], "C0_H0"⟩, by decide, fun tuple mem => ?_⟩,
    ofKind "epsilonM" _ (by decide), ofKind "kcfaSenM" _ (by decide),
    ofKind "kobjSenM" _ (by decide),
    ofKind "ctxtCpyM" _ (by decide), ⟨⟨["V0"], "V0"⟩, by decide, fun tuple mem => ?_⟩, nofun⟩
  · obtain ⟨_, _, x, y, _, atX, atY, rfl⟩ :=
      (described.mem_steps tuple).mp (mem_ofList.mpr mem)
    exact Relation.within_pair.mpr ⟨lt_of_getElem? atX, lt_of_getElem? atY⟩
  · obtain ⟨i, _, _, x, ⟨_, _, _, _, atI, _⟩, atX, rfl⟩ :=
      (described.mem_calls tuple).mp (mem_ofList.mpr mem)
    exact Relation.within_pair.mpr ⟨lt_of_getElem? atX, (lt_of_getElem? atI).trans_eq sizeI⟩
  · obtain ⟨h, _, _, x, ⟨_, _, atH, _⟩, atX, rfl⟩ :=
      (described.mem_allocated tuple).mp (mem_ofList.mpr mem)
    exact Relation.within_pair.mpr ⟨lt_of_getElem? atX, (lt_of_getElem? atH).trans_eq sizeH⟩
  · obtain ⟨v, var, atV, _, rfl⟩ := mem_insensitiveVariables.mp mem
    exact Relation.within_single.mpr ((lt_of_getElem? atV).trans_eq sizeV)

/-! ### Publishing -/

section Publishing

variable {store : Store} {works : Prop} {computed : Result}

theorem signatures_spelled : ∀ entry ∈ signatures,
    '/' ∉ entry.1.toList ∧ ∀ major ∈ entry.2.domains, major ∈ ["C", "M", "I", "H", "V"] := by
  decide

theorem writable_signatures : ∀ entry ∈ signatures, Writable entry.2 := by
  simp only [signatures, Refined.all, map_cons, map_nil, cons_append, nil_append, forall_mem_cons]
  refine ⟨?_, ?_, ?_, ?_, ?_, ?_, ?_, ?_, ?_, ?_, ?_, ?_, ?_, ?_, nofun⟩ <;>
    exact ⟨by rfl, by simp [Relation.Spelled, Refined.signature, Text.isBlank], by decide⟩

theorem sized_signatures (numbered : store.domains.get? "C" = some ⟨.context, contexts⟩)
    (held : ∀ domain : FactDomain, domain.HeldBy program store) :
    ∀ entry ∈ signatures, store.Sized (count program contexts.size) entry.2 := by
  intro entry mem major among
  have spelled := (signatures_spelled entry mem).2 major among
  simp only [mem_cons, not_mem_nil, or_false] at spelled
  rcases spelled with rfl | rfl | rfl | rfl | rfl
  · exact ⟨_, numbered, rfl⟩
  · exact (held .methods).size
  · exact (held .invokes).size
  · exact (held .allocations).size
  · exact (held .vars).size

/-- A result that fits is published unless the disk prevents it, and loads again as long as no
domain is too large. -/
theorem Result.yields_publish (name : computed.contexts.name = "C")
    (names : computed.relations.map (·.1) =
      ["CC", "CI", "CH", "epsilonM", "kcfaSenM", "kobjSenM", "ctxtCpyM", "epsilonV"])
    (fits : computed.Fits program) (declares : store.Declares)
    (held : ∀ domain : FactDomain, domain.HeldBy program store)
    (ready : works → store.Ready options) :
    computed.publish.Yields works store fun _ after =>
      (∀ major, count program computed.contexts.size major < sizeLimit) →
        ∀ entry ∈ computed.relations, after.Loads entry.1 (.ofList entry.2) := by
  have numbered : (store.putDomain computed.contexts).domains.get? "C" =
      some ⟨.context, computed.contexts.setFilled⟩ := by
    show (store.domains.insert computed.contexts.name _).get? "C" = _
    rw [name, Table.get?_insert, if_pos rfl]
  have held (domain : FactDomain) : domain.HeldBy program (store.putDomain computed.contexts) := by
    show (store.domains.insert computed.contexts.name _).get? domain.name = _
    rw [name, Table.get?_insert, if_neg (by cases domain <;> decide)]
    exact held domain
  have named : computed.contexts.setFilled.name = "C" := name
  refine Yields.bind (yields_of_ok rfl (Yields.bind ((yields_saveDomain numbered
    (fun working => ?_) fun working => ?_).imp fun _ between saving folders => ?_)))
  · rw [named]
    exact (ready working).contexts _ (.head _)
  · rw [named]
    exact (ready working).contexts _ (.tail _ (.head _))
  obtain ⟨_, disk, _, same, _⟩ := saveDomain_eq_ok saving
  have sized : ∀ entry ∈ signatures, between.Sized (count program computed.contexts.size) entry.2 :=
    fun entry mem => (sized_signatures numbered held entry mem).of_domains (by rw [same])
  have declared : ∀ entry ∈ signatures, between.signature? entry.1 = some entry.2 := by
    rw [same]
    exact declares.contexts
  have dir : between.dir = store.dir := by rw [same]; rfl
  refine Yields.bind ((@Store.yields_fillRelations between works
    (count program computed.contexts.size) computed.relations (fun entry mem => ?_)
    (fun entry mem => ?_) (distinct_files _ names).2 fun working entry mem => ?_).imp
      fun _ after _ filled => yields_of_ok rfl ?_)
  · obtain ⟨sig, among, within⟩ := fits entry mem
    exact ⟨sig, declared _ among, sized _ among, fun tuple mem => (within tuple mem).1⟩
  · obtain ⟨sig, among, _⟩ := fits entry mem
    exact (signatures_spelled _ among).1
  · obtain ⟨sig, among, _⟩ := fits entry mem
    have same : store.disk.SameFolders between.disk := folders working
    rw [dir]
    exact same.isOpen ((ready working).results (entry.1, sig) among)
  · intro wide entry mem
    obtain ⟨keeps, listed, _⟩ := filled
    obtain ⟨sig, among, within⟩ := fits entry mem
    obtain ⟨_, declared', listed⟩ := listed entry mem
    cases declared'.symm.trans (declared _ among)
    exact listed.loads ((keeps.signatures _).trans declared') (writable_signatures _ among)
      ((sized _ among).of_domains keeps.domains) (fun major _ => wide major)
      fun tuple mem => within tuple (mem_ofList.mp mem)

end Publishing

/-! ### Running -/

section Running

variable {store : Store} {works : Prop}

/-- A store holds what contexts are computed from: the domains of a program, and relations of call
sites and methods and of variables and allocations. -/
structure Supplies (program : Program) (store : Store) : Prop where
  held : ∀ domain : FactDomain, domain.HeldBy program store
  calls : ∃ tuples, store.Loads "IM" tuples ∧ ∀ tuple ∈ tuples,
    Relation.Within 2 [FactDomain.count program "I", FactDomain.count program "M"] tuple
  pointsTo : ∃ tuples, store.Loads "VH" tuples ∧ ∀ tuple ∈ tuples,
    Relation.Within 2 [FactDomain.count program "V", FactDomain.count program "H"] tuple

theorem exists_readInput (declares : store.Declares) (supplies : Supplies program store) :
    ∃ input between, readInput store = .ok input between ∧ input.Covers program := by
  obtain ⟨held, ⟨called, loadsCalls, withinCalls⟩, pointed, loadsPointsTo,
    withinPointsTo⟩ := supplies
  have domain (domain : FactDomain) :
      store.domain domain.kind domain.name = .ok (domain.ofProgram program).setFilled :=
    domain_eq_ok (held domain)
  obtain ⟨calls, between, taking, memCalls⟩ := loadsCalls.exists_takePairs
    (declares.contexts ("IM", ⟨["I0", "M0"], "I0xM0"⟩) (by decide)) rfl
    fun tuple mem => length_eq_two.mp (withinCalls tuple mem).1
  have same := (takePairs_eq_ok taking).1
  obtain ⟨pointsTo, last, taking', memPointsTo⟩ := (loadsPointsTo.of_sameData same).exists_takePairs
    ((same.signatures _).trans (declares.contexts ("VH", ⟨["V0", "H0"], "V0_H0"⟩) (by decide))) rfl
    fun tuple mem => length_eq_two.mp (withinPointsTo tuple mem).1
  refine ⟨_, last, query_bind_eq_ok.mpr ⟨_, domain .methods,
    query_bind_eq_ok.mpr ⟨_, domain .invokes,
    query_bind_eq_ok.mpr ⟨_, domain .allocations,
    query_bind_eq_ok.mpr ⟨_, domain .vars,
    bind_eq_ok.mpr ⟨calls, between, taking,
    bind_eq_ok.mpr ⟨pointsTo, last, taking', rfl⟩⟩⟩⟩⟩⟩, rfl, rfl, rfl, rfl,
    fun i m mem => ?_, fun v h mem => ?_⟩
  · exact (Relation.within_pair.mp (withinCalls _ ((memCalls i m).mp mem))).1.trans_eq
      (size_ofProgram .invokes).symm
  · exact (Relation.within_pair.mp (withinPointsTo _ ((memPointsTo v h).mp mem))).2.trans_eq
      (size_ofProgram .allocations).symm

/-- Contexts are numbered, and unless they are too many, every relation that is saved over them
loads. -/
def Reloads (store : Store) : Prop :=
  ∃ contexts, store.domain .context "C" = .ok contexts ∧
    (contexts.size < sizeLimit → ∀ name ∈ produces, name ≠ "C" →
      ∃ tuples, store.Saved name tuples ∧ store.Loads name tuples)

variable (valid : program.Valid)
  (fits : ∀ domain : FactDomain, (domain.entities program).length < sizeLimit)
  (declares : store.Declares) (supplies : Supplies program store)
  (ready : works → store.Ready options)
include valid fits declares supplies ready

theorem yields_compute :
    (compute abstraction options program).Yields works store fun _ after => Reloads after := by
  obtain ⟨input, between, reading, covers⟩ := exists_readInput declares supplies
  have same := (readInput_eq_ok reading).1
  obtain ⟨computed, succeeds⟩ := @exists_result abstraction options _ _ valid covers
  obtain ⟨_, _, _, _, _, _, _, _, names⟩ := result_eq_ok succeeds
  have held (domain : FactDomain) : domain.HeldBy program between := by
    unfold HeldBy
    rw [same.domains]
    exact supplies.held domain
  have ready (working : works) : between.Ready options :=
    (ready working).of_sameFolders same.dir (same.disk ▸ .refl _)
  refine Yields.bind (yields_of_ok reading (Yields.bind (yields_of_ok
    (ofExcept_eq_ok.mpr ⟨succeeds, rfl⟩) ((Result.yields_publish (name_contexts succeeds) names
      (fits_result covers succeeds) (declares.of_signatures same.signatures) held ready).imp
        fun _ after publishing loads => ?_))))
  obtain ⟨numbered, saved⟩ := publish_eq_ok succeeds publishing
  refine ⟨_, numbered, fun few name mem other => ?_⟩
  have wide (major : String) : count program computed.contexts.size major < sizeLimit := by
    unfold count
    split
    · exact few
    · exact count_lt (by decide) fits major
  have others : ∀ name ∈ produces, name ≠ "C" → name ∈ ["CC", "CI", "CH", "epsilonM", "kcfaSenM",
      "kobjSenM", "ctxtCpyM", "epsilonV"] := by
    decide
  obtain ⟨entry, among, rfl⟩ := mem_map.mp (names ▸ others name mem other)
  exact ⟨_, saved entry among, loads wide entry among⟩

theorem yields_run (noCopy : options.instanceKind ≠ .copy) (noObject : options.staticKind ≠ .object)
    (first : abstraction.runs = 0) :
    (run options program).Yields works (store, abstraction) fun _ last => Reloads last.1 := by
  unfold run
  rw [if_neg noCopy]
  dsimp only
  rw [if_neg noObject]
  refine Yields.bind (yields_of_ok rfl ?_)
  rw [if_pos first]
  exact Yields.bind (yields_of_ok rfl (Yields.bind (yields_of_ok rfl
    (Yields.bind (Yields.onPart ((yields_compute valid fits declares supplies ready).imp
      fun _ after _ reloads => yields_of_ok rfl reloads))))))

end Running

end ProgramAnalysis.Abstraction
