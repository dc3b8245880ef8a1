import ProgramAnalysis.Proofs.Context.Success

/-!
A valid program is turned into facts without failing and without dropping anything. The facts are
published one after the other on a disk that works. Then the domains number the entities of the
program, the relations hold what is so between them (`Complete`), and contexts can be computed from
what was published.
-/

namespace ProgramAnalysis

open FactDomain FactRelation Disk Step List

variable {program : Program} {remap : Remap} {options : Options} {works : Prop}
  {start store : Store} {facts : List Fact}

/-! ### The work directory -/

/-- The disk works once the work directory is made, as far as it is missing. -/
def Store.Works (options : Options) (store : Store) : Prop :=
  ∃ disk, createFolders store.dir store.disk = .ok () disk ∧
    Store.Ready options { store with disk }

section Directory

variable {disk : Disk} (made : createFolders store.dir store.disk = .ok () disk)
  (ready : Store.Ready options { store with disk })
include made ready

theorem saveText_of_made (name text : String) :
    saveText store.dir name text store.disk = saveText store.dir name text disk := by
  have opened := ready.domains .methods _ (.head _)
  have again : createFolders store.dir disk = .ok () disk :=
    createFolders_of_hasFolder (isOpen_iff.mp opened).1
  unfold saveText
  rw [bind_of_ok made, bind_of_ok again]

theorem publish_of_made (domain : FactDomain) :
    domain.publish options program store = domain.publish options program { store with disk } := by
  have same : (domain.ofProgram program).setFilled.save store.dir store.disk =
      (domain.ofProgram program).setFilled.save store.dir disk :=
    Step.bind_congr (saveText_of_made made ready _ _)
  have saving (put : Store) (found : put.domains.get? domain.name =
      some ⟨domain.kind, (domain.ofProgram program).setFilled⟩) :
      Store.saveDomain domain.name put =
        Store.onDisk ((domain.ofProgram program).setFilled.save put.dir) put := by
    have got : (get : Step Store Store) put = .ok put put := rfl
    unfold Store.saveDomain
    rw [bind_of_ok (Store.query_eq_ok.mpr ⟨Store.anyDomain_eq_ok.mpr found, rfl⟩)]
    exact bind_of_ok got
  have found (store : Store) :=
    (@FactDomain.get?_putDomain program domain store domain.name).trans (if_pos rfl)
  refine bind_of_ok rfl |>.trans (Eq.trans ?_ (bind_of_ok rfl).symm)
  refine Step.bind_congr ((saving _ (found store)).trans
    (Eq.trans ?_ (saving _ (found { store with disk })).symm))
  simp only [Store.onDisk, onPart, Store.putDomain, same]

theorem facts_of_made (ordered : Fact.areOrdered [] facts = true) (some : facts ≠ []) :
    facts.forM (Fact.publish options program remap) store =
      facts.forM (Fact.publish options program remap) { store with disk } := by
  cases facts with
  | nil => exact absurd rfl some
  | cons fact rest =>
    obtain ⟨needs, _⟩ := Bool.and_eq_true_iff.mp ordered
    cases fact with
    | ofDomain domain => exact Step.bind_congr (publish_of_made made ready domain)
    | ofRelation rel => cases needs

end Directory

/-! ### All facts -/

/-- The numbering of the entities of a program. -/
def FactDomain.numbering (domain : FactDomain) (program : Program) : Domain domain.kind :=
  ⟨domain.name, domain.entities program, true⟩

theorem FactDomain.numbering_eq (domain : FactDomain) :
    domain.numbering program = (domain.ofProgram program).setFilled := by
  unfold numbering
  rw [← elements_ofProgram]
  exact congrArg (fun name => (⟨name, _, true⟩ : Domain domain.kind)) Domain.name_ofList.symm

/-- All facts of a program are in a store. -/
structure Complete (remap : Remap) (program : Program) (store : Store) : Prop where
  /-- The domains number all entities, in the order of their handles and each of them once. -/
  numbered : ∀ domain : FactDomain,
    store.domain domain.kind domain.name = .ok (domain.numbering program)
  distinct : ∀ domain : FactDomain, (domain.entities program).Nodup
  methods : ∀ m : MethodId, m ∈ methods.entities program ↔ m < program.methods.length
  /-- No related entity is looked up in vain. -/
  found : ∀ (relation : FactRelation) a b, relation.Relates remap program a b →
    ∃ x y, (relation.left.numbering program).indexOf a = .ok (some x) ∧
      (relation.right.numbering program).indexOf b = .ok (some y)
  /-- The relations hold the indices of related entities, and no others. -/
  related : ∀ relation : FactRelation, ∃ tuples, store.Loads relation.name tuples ∧
    ∀ tuple, tuple ∈ tuples ↔ ∃ x y, tuple = [x, y] ∧ relation.Pairs remap program x y
  /-- The target of a call is dropped only if the program lacks what replaces it. -/
  kept : ∀ (i : InstId) instruction targets receiver target,
    program.instructions[i]? = some instruction →
    instruction.operation = .invoke targets receiver → target ∈ targets →
    ∃ method, program.methods[target]? = some method ∧
      ((∃ m, remap.Replaces program target m) ∨ ∃ signature,
        remap.table.get? method.signature = some signature ∧
          ∀ other ∈ program.methods, other.signature ≠ signature)

/-- From whatever allocations variables point to, a first run computes contexts, and what it saves
loads again, unless the disk prevents it. -/
def ComputesContexts (works : Prop) (options : Options) (program : Program) (store : Store) :
    Prop :=
  ∀ pointsTo : List Tuple, (∀ tuple ∈ pointsTo, Relation.Within 2
      [(vars.entities program).length, (allocations.entities program).length]
      tuple) →
    options.instanceKind ≠ .copy → options.staticKind ≠ .object →
    ∀ abstraction : Abstraction, abstraction.runs = 0 →
      (Abstraction.onStore (Store.fillRelation "VH" pointsTo) >>= fun _ =>
        Abstraction.run options program).Yields works (store, abstraction)
          fun _ last => Abstraction.Reloads last.1

section Valid

variable (valid : program.Valid)
  (fits : ∀ domain : FactDomain, (domain.entities program).length < Numeral.sizeLimit)
  (declares : start.Declares) (all : ∀ fact, fact ∈ facts)
include valid fits declares all

theorem complete_of_made (isMade : Made works remap program start facts store) :
    Complete remap program store where
  numbered domain := by
    rw [domain.numbering_eq]
    exact Store.domain_eq_ok (isMade.domains domain (all _))
  distinct := nodup_entities
  methods _ := mem_entities_methods valid
  found rel a b related := by
    obtain ⟨left, right⟩ := numbered_of_relates valid related
    obtain ⟨x, atX⟩ := mem_iff_getElem?.mp left
    obtain ⟨y, atY⟩ := mem_iff_getElem?.mp right
    rw [numbering_eq, numbering_eq]
    exact ⟨x, y, indexOf_entities.mpr atX, indexOf_entities.mpr atY⟩
  related rel := by
    obtain ⟨tuples, listed, pairs⟩ := isMade.relations rel (all _)
    have declared := (isMade.signatures rel.name).trans (declares.facts rel)
    refine ⟨tuples, listed.loads declared rel.writable_signature
      (sized_signature (isMade.domains _ (all _)) (isMade.domains _ (all _)))
      (fun major _ => count_lt (by decide) fits major) fun tuple mem => ?_, pairs⟩
    obtain ⟨x, y, rfl, a, b, atX, atY, _⟩ := (pairs tuple).mp mem
    rw [rel.arity_signature, rel.domains_signature, map_cons, map_singleton, count_name, count_name]
    exact Relation.within_pair.mpr
      ⟨(List.getElem?_eq_some_iff.mp atX).1, (List.getElem?_eq_some_iff.mp atY).1⟩
  kept i instr targets receiver target found calls mem := by
    have there := getElem?_eq_getElem (valid.target_lt found calls mem)
    exact ⟨_, there, remap.replaces_or_missing there⟩

theorem computesContexts_of_made (isMade : Made works remap program start facts store)
    (working : works → start.Ready options) : ComputesContexts works options program store := by
  intro pointsTo within noCopy noObject abstraction first
  have declared (name : String) (sig : Signature) (mem : (name, sig) ∈ Abstraction.signatures) :
      store.signature? name = some sig :=
    (isMade.signatures name).trans (declares.contexts (name, sig) mem)
  have held (domain : FactDomain) := isMade.domains domain (all _)
  have sized : store.Sized (FactDomain.count program) ⟨["V0", "H0"], "V0_H0"⟩ :=
    forall_mem_cons.mpr ⟨(held .vars).size,
      forall_mem_cons.mpr ⟨(held .allocations).size, nofun⟩⟩
  refine Step.Yields.bind (Step.Yields.onPart ((Store.yields_fillRelation
    (declared "VH" _ (by decide)) (by decide) sized (fun tuple mem => (within tuple mem).1)
    fun ready => ?_).imp fun _ after _ filled => ?_))
  · exact (isMade.ready working ready).results ("VH", ⟨["V0", "H0"], "V0_H0"⟩) (by decide)
  · obtain ⟨keeps, listed, folders⟩ := filled
    have isMade := isMade.of_keepsBut keeps folders fun rel same _ =>
      absurd same (by cases rel <;> decide)
    have complete := complete_of_made valid fits declares all isMade
    obtain ⟨calls, loads, pairs⟩ := complete.related .invokeTargets
    refine Abstraction.yields_run valid fits (declares.of_signatures isMade.signatures)
      ⟨fun domain => isMade.domains domain (all _), ⟨calls, loads, fun tuple mem => ?_⟩,
        .ofList pointsTo, ?_, fun tuple mem => within tuple (SortedSet.mem_ofList.mp mem)⟩
      (isMade.ready working) noCopy noObject first
    · obtain ⟨x, y, rfl, a, b, atX, atY, _⟩ := (pairs tuple).mp mem
      exact Relation.within_pair.mpr
        ⟨(List.getElem?_eq_some_iff.mp atX).1, (List.getElem?_eq_some_iff.mp atY).1⟩
    · exact listed.loads ((keeps.signatures _).trans (declared "VH" _ (by decide)))
        (Abstraction.writable_signatures ("VH", ⟨["V0", "H0"], "V0_H0"⟩) (by decide))
        (sized.of_domains keeps.domains) (fun major _ => count_lt (by decide) fits major)
        fun tuple mem => within tuple (SortedSet.mem_ofList.mp mem)

theorem yields_complete (working : works → start.Ready options)
    (ordered : Fact.areOrdered [] facts = true) :
    (facts.forM (Fact.publish options program remap)).Yields works start fun _ published =>
      Complete remap program published ∧ ComputesContexts works options program published := by
  refine ((Made.nothing start).yields_facts valid declares working ordered).imp
    fun _ published _ isMade => ?_
  exact ⟨complete_of_made valid fits declares all isMade,
    computesContexts_of_made valid fits declares all isMade working⟩

end Valid

/-- All facts of a valid program can be published, in any order in which relations come after their
domains, and then contexts can be computed from whatever allocations variables point to. Whatever
the disk is like there is no fault but one of the file system, and none if the disk works. -/
theorem facts_complete {program : Program} {remap : Remap} {options : Options} {start : Store}
    {facts : List Fact} (accepted : program.validate = .ok ())
    (fits : ∀ domain : FactDomain, (domain.entities program).length < Numeral.sizeLimit)
    (declares : start.Declares) (ordered : Fact.areOrdered [] facts = true)
    (all : ∀ fact, fact ∈ facts) :
    (facts.forM (Fact.publish options program remap)).Yields (start.Works options) start
      fun _ published => Complete remap program published ∧
        ComputesContexts (start.Works options) options program published := by
  have valid := Program.valid_of_validate accepted
  by_cases works : start.Works options
  · rw [eq_true works]
    obtain ⟨disk, made, ready⟩ := works
    have nonempty : facts ≠ [] := List.ne_nil_of_mem (all (.ofDomain .methods))
    have published := @yields_complete program remap options True { start with disk }
      facts valid fits ⟨declares.facts, declares.contexts⟩ all (fun _ => ready) ordered
    exact published.of_same (facts_of_made made ready ordered nonempty)
  · rw [eq_false works]
    exact yields_complete valid fits declares all False.elim ordered

open Abstraction (walking walkingOptions)

abbrev factRelations : List FactRelation :=
  [.methodInvokes, .methodAllocations, .methodVariables, .methodReceiver, .invokeTargets,
    .invokeReceiver, .accessedField, .castTarget]

/-- All facts, domains first. -/
abbrev allFacts : List Fact :=
  [methods, .invokes, .allocations, .vars, .accesses, .fields, .locks, .types].map
    .ofDomain ++ factRelations.map .ofRelation

theorem mem_allFacts (fact : Fact) : fact ∈ allFacts := by
  cases fact with
  | ofDomain domain => cases domain <;> decide
  | ofRelation rel => cases rel <;> decide

/-- A store that declares all relations, over a work directory that is not there yet. -/
abbrev freshStore : Store :=
  let declared := factRelations.map fun relation => (relation.name, relation.signature)
  (Abstraction.signatures ++ declared).foldl
    (fun store entry => store.putRelation ⟨entry.1, entry.2, none⟩)
    (Store.onDirectory .empty "out/facts")

abbrev reporting : Options := { walkingOptions with verbose := 2, outDir := "out" }

/-- Replaces one method, and drops calls of another. -/
abbrev replacing : Remap := (Remap.empty.insert "walk" "visit").insert "visit" "absent"

theorem works_freshStore : freshStore.Works reporting := by
  refine ⟨⟨(Table.empty.insert ["out"] .folder).insert ["out", "facts"] .folder⟩, by rfl, ?_⟩
  exact {
    domains := by intro domain; cases domain <;> decide +kernel
    contexts := by decide +kernel
    facts := by intro rel; cases rel <;> decide +kernel
    results := by decide +kernel
    reports := by intro _ domain; cases domain <;> decide +kernel }

theorem declares_freshStore : freshStore.Declares where
  facts := by intro rel; cases rel <;> rfl
  contexts := by decide +kernel

theorem facts_complete_walking :
    walking.validate = .ok () ∧ freshStore.Works reporting ∧
      ∃ published, allFacts.forM (Fact.publish reporting walking replacing) freshStore =
          .ok () published ∧
        Complete replacing walking published ∧
        ComputesContexts (freshStore.Works reporting) reporting walking published := by
  have works := works_freshStore
  have declares := declares_freshStore
  -- Nothing more is evaluated on the store.
  generalize freshStore = start at works declares ⊢
  obtain ⟨_, published, succeeds, complete⟩ := (@facts_complete walking replacing reporting start
    allFacts (by rfl) (by intro domain; cases domain <;> decide) declares (by decide)
    mem_allFacts).exists_ok works
  exact ⟨rfl, works, published, succeeds, complete⟩

end ProgramAnalysis
