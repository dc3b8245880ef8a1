import ProgramAnalysis.Proofs.CallGraph.Build
import ProgramAnalysis.Proofs.CallGraph.Plain
import ProgramAnalysis.Proofs.Facts.Meaning

/-!
A plain call graph can be read off a program, or off the relations `MI` and `IM` that were published
for it and loaded again. The two list things differently, but they agree in what can be asked of
them (`Agrees`), and building looks at no more.
-/

namespace ProgramAnalysis

open Store FactRelation CallGraph FactDomain List

/-! ### Loading what was recorded -/

/-- The domains of computed pairs are those of the program, if no other domains have their names. -/
theorem Store.Factual.heldBy_of_pairs {rel : FactRelation} {pairs} (factual : store.Factual program)
    (made : rel.pairs remap program store = .ok pairs) :
    rel.left.HeldBy program store ∧ rel.right.HeldBy program store := by
  cases rel with
  | _ =>
    obtain ⟨_, foundLeft, rest⟩ := except_bind_eq_ok.mp made
    obtain ⟨_, foundRight, _⟩ := except_bind_eq_ok.mp rest
    exact ⟨factual.domains _ _ (get?_of_domain foundLeft),
      factual.domains _ _ (get?_of_domain foundRight)⟩

/-- A recorded relation that is loaded has the indices of related entities. -/
theorem FactRelation.RecordedBy.columns {rel : FactRelation} {after : Store} {loaded : Relation}
    (recorded : rel.RecordedBy remap program before) (factual : before.Factual program)
    (valid : program.Valid) (loading : loadRelation rel.name before = .ok loaded after) :
    (rel.left.HeldBy program before ∧ rel.right.HeldBy program before) ∧
      ∃ columns, loaded.columns 0 1 = .ok columns ∧
        ∀ x y, (x, y) ∈ columns ↔ Pairs remap program rel x y := by
  obtain ⟨pairs, made, saved⟩ := recorded
  obtain ⟨_, _, declared, _, found, _, loads⟩ := loadRelation_eq_ok loading
  have sig : before.signature? rel.name = some declared.signature := by
    rw [signature?, found, Option.map_some]
  have isDeclared := factual.signatures rel _ sig
  obtain ⟨columns, selected⟩ : ∃ columns, loaded.columns 0 1 = .ok columns := by
    obtain ⟨_, tuples, _, _, rfl⟩ := Relation.load_eq_ok.mp loads
    have binary : declared.arity = 2 := by
      rw [Relation.arity, isDeclared]
      cases rel <;> rfl
    unfold Relation.columns Relation.checkColumn
    rw [show Relation.arity { declared with tuples := some tuples } = 2 from binary]
    exact ⟨_, rfl⟩
  obtain ⟨left, right⟩ := factual.heldBy_of_pairs made
  refine ⟨⟨left, right⟩, columns, selected, fun x y => ?_⟩
  refine (mem_pairsOf_filled saved (isDeclared ▸ sig) ?_ ?_).trans (mem_pairs valid left right made)
  · cases rel <;> exact ⟨by decide, by decide⟩
  · rw [pairsOf_eq, (loadRelation_eq_ok_iff.mp loading).1]
    exact selected

namespace PlainCallGraph

variable {program : Program} {remap : Remap} {graph other : PlainCallGraph}

/-! ### Graphs that agree -/

/-- Two plain graphs give the same answers. -/
structure Agrees (graph other : PlainCallGraph) : Prop where
  roots : graph.roots = other.roots
  isStatic : ∀ m, graph.isStatic m = other.isStatic m
  isInsensitive : ∀ m, graph.isInsensitive m = other.isInsensitive m
  sitesOf : ∀ m, graph.sitesOf m = other.sitesOf m
  targetsOf : ∀ i, graph.targetsOf i = other.targetsOf i

theorem Agrees.build_eq (agrees : graph.Agrees other) (policy : ContextPolicy)
    (receivers : Receivers) :
    build graph policy receivers = build other policy receivers := by
  refine build_congr agrees.roots (funext fun node => ?_)
  have contexts (site : InContext) (callee : MethodId) :
      calleeContexts graph policy receivers site callee =
        calleeContexts other policy receivers site callee := by
    unfold calleeContexts
    rw [agrees.isInsensitive, agrees.isStatic]
  simp only [callsOf, agrees.sitesOf, agrees.targetsOf, contexts]

/-- Sites and targets are determined by which there are. -/
theorem getD_toList_eq {κ : Type} [DecidableEq κ] {table table' : Table κ (SortedSet Nat)} {key : κ}
    (same : ∀ a, a ∈ (table.get? key).getD .empty ↔ a ∈ (table'.get? key).getD .empty) :
    ((table.get? key).getD .empty).toList = ((table'.get? key).getD .empty).toList :=
  congrArg SortedSet.toList (SortedSet.ext same)

/-! ### Pairs of indices -/

/-- Pairs of the indices of related entities are taken up as the pairs of these entities. -/
theorem exists_entries {relation : FactRelation} {pairs : List (Nat × Nat)} (valid : program.Valid)
    (indices : ∀ x y, (x, y) ∈ pairs ↔ Pairs remap program relation x y) :
    ∃ entries : List (relation.left.kind.Elem × relation.right.kind.Elem),
      (∀ a b, (a, b) ∈ entries ↔ Relates remap program relation a b) ∧
      ∀ (add : PlainCallGraph → relation.left.kind.Elem → relation.right.kind.Elem →
          PlainCallGraph) (start : PlainCallGraph),
        pairs.foldlM (fun graph (x, y) => do
          return add graph (← (relation.left.ofProgram program).setFilled.element x)
            (← (relation.right.ofProgram program).setFilled.element y)) start =
          (.ok (entries.foldl (fun graph entry => add graph entry.1 entry.2) start) :
            Except Fault PlainCallGraph) := by
  let meaning (pair : Nat × Nat) : Option (relation.left.kind.Elem × relation.right.kind.Elem) :=
    (relation.left.entities program)[pair.1]?.bind fun a =>
      (relation.right.entities program)[pair.2]?.map fun b => (a, b)
  have meaning_eq {x y : Nat} {a} {b} : meaning (x, y) = some (a, b) ↔
      (relation.left.entities program)[x]? = some a ∧
        (relation.right.entities program)[y]? = some b := by
    simp [meaning, Option.bind_eq_some_iff]
  have element {domain : FactDomain} {n : Nat} {a}
      (found : (domain.entities program)[n]? = some a) :
      (domain.ofProgram program).setFilled.element n = .ok a :=
    Domain.element_eq_ok.mpr ⟨rfl, by rwa [← elements_ofProgram] at found⟩
  refine ⟨pairs.filterMap meaning, fun a b => ?_, fun add start => foldlM_eq_ok ?_ start⟩
  · rw [mem_filterMap]
    constructor
    · rintro ⟨⟨x, y⟩, mem, means⟩
      obtain ⟨atLeft, atRight⟩ := meaning_eq.mp means
      obtain ⟨c, d, atLeft', atRight', related⟩ := (indices x y).mp mem
      cases atLeft.symm.trans atLeft'
      cases atRight.symm.trans atRight'
      exact related
    · intro related
      obtain ⟨isLeft, isRight⟩ := numbered_of_relates valid related
      obtain ⟨x, atLeft⟩ := mem_iff_getElem?.mp isLeft
      obtain ⟨y, atRight⟩ := mem_iff_getElem?.mp isRight
      exact ⟨(x, y), (indices x y).mpr ⟨a, b, atLeft, atRight, related⟩,
        meaning_eq.mpr ⟨atLeft, atRight⟩⟩
  · rintro ⟨x, y⟩ mem
    obtain ⟨a, b, atLeft, atRight, _⟩ := (indices x y).mp mem
    refine ⟨(a, b), meaning_eq.mpr ⟨atLeft, atRight⟩, fun graph => ?_⟩
    dsimp only
    rw [element atLeft, element atRight]
    rfl

/-! ### The graph of the relations -/

theorem foldl_addSite (entries : List (MethodId × InstId)) (graph : PlainCallGraph) :
    ∃ sites, entries.foldl (fun graph entry => graph.addSite entry.1 entry.2) graph =
        { graph with sites } ∧
      ∀ m i, i ∈ sitesOf { graph with sites } m ↔ i ∈ graph.sitesOf m ∨ (m, i) ∈ entries := by
  induction entries generalizing graph with
  | nil => exact ⟨graph.sites, rfl, by simp⟩
  | cons entry rest ih =>
    obtain ⟨sites, same, has⟩ := ih (graph.addSite entry.1 entry.2)
    refine ⟨sites, same, fun m i => (has m i).trans ?_⟩
    rw [mem_sitesOf_addSite, mem_cons, Prod.ext_iff, or_assoc]

theorem foldl_addTarget (entries : List (InstId × MethodId)) (graph : PlainCallGraph) :
    ∃ targets, entries.foldl (fun graph entry => graph.addTarget entry.1 entry.2) graph =
        { graph with targets } ∧
      ∀ i m, m ∈ targetsOf { graph with targets } i ↔ m ∈ graph.targetsOf i ∨ (i, m) ∈ entries := by
  induction entries generalizing graph with
  | nil => exact ⟨graph.targets, rfl, by simp⟩
  | cons entry rest ih =>
    obtain ⟨targets, same, has⟩ := ih (graph.addTarget entry.1 entry.2)
    refine ⟨targets, same, fun i m => (has i m).trans ?_⟩
    rw [mem_targetsOf_addTarget, mem_cons, Prod.ext_iff, or_assoc]

/-- A graph with all sites and targets of a program agrees with that of the program. -/
theorem agrees_ofProgram {sites : List (MethodId × InstId)} {calls : List (InstId × MethodId)}
    (allSites : ∀ m i, (m, i) ∈ sites ↔ i ∈ (ofProgram program remap).sitesOf m)
    (allCalls : ∀ i m, (i, m) ∈ calls ↔ m ∈ (ofProgram program remap).targetsOf i) :
    Agrees (calls.foldl (fun graph entry => graph.addTarget entry.1 entry.2)
      (sites.foldl (fun graph entry => graph.addSite entry.1 entry.2) (ofMethods program)))
      (ofProgram program remap) := by
  obtain ⟨siteTable, withSites, hasSites⟩ := foldl_addSite sites (ofMethods program)
  obtain ⟨targetTable, withTargets, hasTargets⟩ :=
    foldl_addTarget calls { ofMethods program with sites := siteTable }
  rw [withSites, withTargets]
  obtain ⟨_, _, same⟩ := ofProgram_eq program remap
  obtain ⟨_, _, bare⟩ := ofMethods_eq program
  have noSite (m : MethodId) (i : InstId) : i ∉ (ofMethods program).sitesOf m := by
    rw [bare]
    exact not_mem_nil
  have noTarget (i : InstId) (m : MethodId) : m ∉ (ofMethods program).targetsOf i := by
    rw [bare]
    exact not_mem_nil
  refine ⟨by rw [same], fun m => by rw [same]; rfl, fun m => by rw [same]; rfl, fun m => ?_,
    fun i => ?_⟩
  · refine getD_toList_eq fun i => (hasSites m i).trans ?_
    exact (or_iff_right (noSite m i)).trans (allSites m i)
  · refine getD_toList_eq fun m => (hasTargets i m).trans ?_
    exact (or_iff_right (noTarget i m)).trans (allCalls i m)

theorem relates_methodInvokes {m : MethodId} {i : InstId} :
    Relates remap program .methodInvokes m i ↔ i ∈ (ofProgram program remap).sitesOf m := by
  rw [mem_sitesOf_ofProgram]
  exact exists_congr fun _ => and_congr_right fun _ =>
    and_congr_left fun _ => Instruction.isInvoke_iff.symm

/-- After the relations of a valid program were recorded and loaded again, they give a graph that
agrees with that of the program. -/
theorem exists_ofStore {recorded : Store} {targets : Relation} (valid : program.Valid)
    (factual : recorded.Factual program)
    (hasSites : methodInvokes.RecordedBy remap program recorded)
    (hasCalls : invokeTargets.RecordedBy remap program recorded)
    (loadingSites : loadRelation "MI" recorded = .ok containment between)
    (loadingCalls : loadRelation "IM" between = .ok targets store) :
    ∃ graph, ofStore program store = .ok graph ∧ graph.Agrees (ofProgram program remap) := by
  have same := (loadRelation_eq_ok loadingSites).1
  have same' := (loadRelation_eq_ok loadingCalls).1
  obtain ⟨⟨methods, invokes⟩, contained, selected, listed⟩ :=
    hasSites.columns factual valid loadingSites
  obtain ⟨_, called, selected', listed'⟩ :=
    (hasCalls.of_keepsBut (same.keepsBut []) not_mem_nil).columns
      (factual.of_keepsBut (same.keepsBut [])) valid loadingCalls
  obtain ⟨sites, allSites, readSites⟩ := exists_entries valid listed
  obtain ⟨calls, allCalls, readCalls⟩ := exists_entries valid listed'
  have read {domain : FactDomain} (held : domain.HeldBy program recorded) :
      store.domain domain.kind domain.name = .ok (domain.ofProgram program).setFilled := by
    unfold HeldBy at held
    rw [← same.domains, ← same'.domains] at held
    exact domain_eq_ok held
  have openSites : store.relation "MI" = .ok containment := by
    rw [relation_eq_ok, get?_loadRelation loadingCalls, if_neg (by decide),
      get?_loadRelation loadingSites, if_pos rfl]
  have openCalls : store.relation "IM" = .ok targets := by
    rw [relation_eq_ok, get?_loadRelation loadingCalls, if_pos rfl]
  refine ⟨_, except_bind_eq_ok.mpr ⟨_, read methods, ?_⟩, agrees_ofProgram
    (fun m i => (allSites m i).trans relates_methodInvokes) fun i m =>
      (allCalls i m).trans ((relates_invokeTargets valid).trans mem_targetsOf_ofProgram.symm)⟩
  refine except_bind_eq_ok.mpr ⟨_, read invokes, except_bind_eq_ok.mpr ⟨_, openSites, ?_⟩⟩
  refine except_bind_eq_ok.mpr ⟨contained, selected, except_bind_eq_ok.mpr
    ⟨_, readSites addSite (ofMethods program), ?_⟩⟩
  refine except_bind_eq_ok.mpr ⟨_, openCalls, except_bind_eq_ok.mpr ⟨called, selected', ?_⟩⟩
  exact readCalls addTarget _

end PlainCallGraph

end ProgramAnalysis
