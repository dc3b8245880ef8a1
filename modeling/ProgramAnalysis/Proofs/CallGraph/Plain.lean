import ProgramAnalysis.CallGraph.Build
import ProgramAnalysis.Proofs.Facts
import ProgramAnalysis.Proofs.Table

/-!
What the plain call graph of a program holds. It is put together from methods and instructions, each
of which adds what belongs to it and leaves the rest alone. So sites, targets and insensitive
methods can be told from the program without following the construction.
-/

namespace ProgramAnalysis

open List Program

theorem Program.mem_roots {program : Program} : m ∈ program.roots ↔ program.main = some m ∨
      ∃ method, program.methods[m]? = some method ∧ method.isClassInitializer = true := by
  unfold roots methodIds
  rw [mem_append, Option.mem_toList, mem_map]
  constructor
  · rintro (isMain | ⟨⟨_, method⟩, kept, rfl⟩)
    · exact .inl isMain
    · obtain ⟨zipped, initializer⟩ := mem_filter.mp kept
      exact .inr ⟨method, mem_range_zip.mp zipped, (Bool.and_eq_true_iff.mp initializer).1⟩
  · rintro (isMain | ⟨method, found, initializer⟩)
    · exact .inl isMain
    · by_cases isMain : program.main = some m
      · exact .inl isMain
      · refine .inr ⟨(m, method), mem_filter.mpr ⟨mem_range_zip.mpr found, ?_⟩, rfl⟩
        simp [initializer, Ne.symm isMain]

theorem Program.Valid.root_lt {program : Program} (valid : program.Valid)
    (isRoot : m ∈ program.roots) : m < program.methods.length := by
  rcases mem_roots.mp isRoot with isMain | ⟨method, found, _⟩
  · exact valid.main_lt isMain
  · exact (List.getElem?_eq_some_iff.mp found).1

namespace PlainCallGraph

variable {graph : PlainCallGraph} {program : Program} {remap : Remap} {i : InstId} {m : MethodId}

/-- What each step of building a graph adds to, all of them do. -/
theorem foldl_iff {ι : Type} (holds : PlainCallGraph → Prop) {adds : ι → Prop}
    {f : PlainCallGraph → ι → PlainCallGraph}
    (each : ∀ graph item, holds (f graph item) ↔ holds graph ∨ adds item) (items : List ι)
    (graph : PlainCallGraph) :
    holds (items.foldl f graph) ↔ holds graph ∨ ∃ item ∈ items, adds item := by
  induction items generalizing graph with
  | nil => simp
  | cons item rest ih =>
    rw [foldl_cons, ih, each, or_assoc]
    simp

theorem mem_sitesOf_addSite :
    i ∈ (graph.addSite caller site).sitesOf m ↔ i ∈ graph.sitesOf m ∨ (m = caller ∧ i = site) :=
  Table.mem_getD_update

theorem mem_targetsOf_addTarget (graph : PlainCallGraph) (callee : MethodId) :
    m ∈ (graph.addTarget site callee).targetsOf i ↔
      m ∈ graph.targetsOf i ∨ (i = site ∧ m = callee) :=
  Table.mem_getD_update

/-! ### Methods -/

theorem addMethod_eq (graph : PlainCallGraph) (entry : Method × MethodId) :
    ∃ statics, graph.addMethod entry = { graph with
      statics
      insensitive := if entry.1.isAbstract || entry.1.isClassInitializer then
        graph.insensitive.insert entry.2 else graph.insensitive } := by
  unfold addMethod setStatic setInsensitive
  dsimp only
  split <;> split <;> exact ⟨_, rfl⟩

theorem mem_insensitive_addMethod (graph : PlainCallGraph) (entry : Method × MethodId) :
    m ∈ (graph.addMethod entry).insensitive ↔ m ∈ graph.insensitive ∨
      (m = entry.2 ∧ (entry.1.isAbstract || entry.1.isClassInitializer) = true) := by
  obtain ⟨_, same⟩ := addMethod_eq graph entry
  rw [same]
  dsimp only
  split
  · next marked => simp [marked, or_comm]
  · next unmarked => simp [unmarked]

theorem ofMethods_eq (program : Program) : ∃ statics insensitive, ofMethods program =
      ⟨program.roots, .empty, .empty, statics, insensitive⟩ := by
  unfold ofMethods
  have each (entries : List (Method × MethodId)) (statics insensitive : SortedSet MethodId) :
      ∃ statics' insensitive', entries.foldl addMethod
        ⟨program.roots, .empty, .empty, statics, insensitive⟩ =
          ⟨program.roots, .empty, .empty, statics', insensitive'⟩ := by
    induction entries generalizing statics insensitive with
    | nil => exact ⟨statics, insensitive, rfl⟩
    | cons entry rest ih =>
      obtain ⟨statics', same⟩ :=
        addMethod_eq ⟨program.roots, .empty, .empty, statics, insensitive⟩ entry
      rw [foldl_cons, same]
      exact ih _ _
  exact each _ _ _

theorem mem_insensitive_ofMethods : m ∈ (ofMethods program).insensitive ↔ m ∈ program.roots ∨
      ∃ method, program.methods[m]? = some method ∧
        (method.isAbstract || method.isClassInitializer) = true := by
  refine (foldl_iff (fun graph => m ∈ graph.insensitive) mem_insensitive_addMethod _ _).trans ?_
  refine or_congr SortedSet.mem_ofList ?_
  simp only [Prod.exists, mem_zipIdx_iff_getElem?]
  constructor
  · rintro ⟨method, _, found, rfl, marked⟩
    exact ⟨method, found, marked⟩
  · rintro ⟨method, found, marked⟩
    exact ⟨method, m, found, rfl, marked⟩

/-! ### Instructions -/

theorem foldl_addTarget_eq (targets : List MethodId) (site : InstId) (graph : PlainCallGraph) :
    ∃ table, targets.foldl (fun graph => graph.addTarget site) graph =
      { graph with targets := table } := by
  induction targets generalizing graph with
  | nil => exact ⟨graph.targets, rfl⟩
  | cons target rest ih => exact ih _

theorem addInstruction_cases (graph : PlainCallGraph) (site : InstId) (instr : Instruction) :
    (instr.isInvoke = true ∧ addInstruction program remap graph (site, instr) =
      (FactRelation.targets program remap instr).foldl (fun graph => graph.addTarget site)
        (graph.addSite instr.method site)) ∨
    (instr.isInvoke = false ∧ FactRelation.targets program remap instr = [] ∧
      addInstruction program remap graph (site, instr) = graph) := by
  obtain ⟨method, line, operation⟩ := instr
  cases operation with
  | invoke targets receiver => exact .inl ⟨rfl, rfl⟩
  | _ => exact .inr ⟨rfl, rfl, rfl⟩

theorem mem_sitesOf_addInstruction (graph : PlainCallGraph) (entry : InstId × Instruction) :
    i ∈ (addInstruction program remap graph entry).sitesOf m ↔ i ∈ graph.sitesOf m ∨
      (i = entry.1 ∧ entry.2.isInvoke = true ∧ entry.2.method = m) := by
  obtain ⟨site, instr⟩ := entry
  rcases addInstruction_cases graph site instr with ⟨invoke, same⟩ | ⟨other, _, same⟩
  · obtain ⟨table, added⟩ := foldl_addTarget_eq (FactRelation.targets program remap instr) site
      (graph.addSite instr.method site)
    rw [same, added]
    refine mem_sitesOf_addSite.trans (or_congr_right ?_)
    simp [invoke, and_comm, eq_comm]
  · rw [same]
    simp [other]

theorem mem_targetsOf_addInstruction (graph : PlainCallGraph) (entry : InstId × Instruction) :
    m ∈ (addInstruction program remap graph entry).targetsOf i ↔ m ∈ graph.targetsOf i ∨
      (i = entry.1 ∧ m ∈ FactRelation.targets program remap entry.2) := by
  obtain ⟨site, instr⟩ := entry
  rcases addInstruction_cases graph site instr with ⟨_, same⟩ | ⟨_, none, same⟩
  · rw [same]
    refine (foldl_iff (fun graph => m ∈ graph.targetsOf i) mem_targetsOf_addTarget _ _).trans ?_
    refine or_congr_right ⟨?_, ?_⟩
    · rintro ⟨target, among, atSite, rfl⟩
      exact ⟨atSite, among⟩
    · rintro ⟨atSite, among⟩
      exact ⟨m, among, atSite, rfl⟩
  · rw [same]
    simp [none]

theorem addInstruction_eq (graph : PlainCallGraph) (entry : InstId × Instruction) :
    ∃ sites targets, addInstruction program remap graph entry =
      { graph with sites, targets } := by
  obtain ⟨site, instr⟩ := entry
  rcases addInstruction_cases graph site instr with ⟨_, same⟩ | ⟨_, _, same⟩
  · obtain ⟨table, added⟩ := foldl_addTarget_eq (FactRelation.targets program remap instr) site
      (graph.addSite instr.method site)
    exact ⟨_, table, same.trans added⟩
  · exact ⟨_, _, same⟩

/-! ### The graph of a program -/

theorem ofProgram_eq (program : Program) (remap : Remap) :
    ∃ sites targets, ofProgram program remap = { ofMethods program with sites, targets } := by
  have each (entries : List (InstId × Instruction)) (graph : PlainCallGraph) :
      ∃ sites targets, entries.foldl (addInstruction program remap) graph =
        { graph with sites, targets } := by
    induction entries generalizing graph with
    | nil => exact ⟨_, _, rfl⟩
    | cons entry rest ih =>
      obtain ⟨sites, targets, same⟩ := addInstruction_eq graph entry
      rw [foldl_cons, same]
      exact ih _
  exact each _ _

theorem roots_ofProgram (program : Program) (remap : Remap) :
    (ofProgram program remap).roots = program.roots := by
  obtain ⟨_, _, same⟩ := ofProgram_eq program remap
  obtain ⟨_, _, same'⟩ := ofMethods_eq program
  rw [same, same']

/-- What only the instruction with a number adds holds if that instruction adds it. -/
theorem ofProgram_iff (holds : PlainCallGraph → Prop) {adds : Instruction → Prop}
    (each : ∀ graph (entry : InstId × Instruction),
      holds (addInstruction program remap graph entry) ↔ holds graph ∨ i = entry.1 ∧ adds entry.2)
    (start : ¬ holds (ofMethods program)) :
    holds (ofProgram program remap) ↔ ∃ instr,
      program.instructions[i]? = some instr ∧ adds instr := by
  refine (foldl_iff holds each _ _).trans ?_
  simp only [start, false_or, Prod.exists, mem_numberedInstructions]
  constructor
  · rintro ⟨_, instr, found, rfl, added⟩
    exact ⟨instr, found, added⟩
  · rintro ⟨instr, found, added⟩
    exact ⟨i, instr, found, rfl, added⟩

theorem mem_sitesOf_ofProgram : i ∈ (ofProgram program remap).sitesOf m ↔ ∃ instr,
      program.instructions[i]? = some instr ∧ instr.isInvoke = true ∧
        instr.method = m := by
  obtain ⟨_, _, same⟩ := ofMethods_eq program
  refine ofProgram_iff (fun graph => i ∈ graph.sitesOf m) mem_sitesOf_addInstruction ?_
  rw [same]
  exact nofun

theorem mem_targetsOf_ofProgram : m ∈ (ofProgram program remap).targetsOf i ↔ ∃ instr,
      program.instructions[i]? = some instr ∧
        m ∈ FactRelation.targets program remap instr := by
  obtain ⟨_, _, same⟩ := ofMethods_eq program
  refine ofProgram_iff (fun graph => m ∈ graph.targetsOf i) mem_targetsOf_addInstruction ?_
  rw [same]
  exact nofun

theorem isInsensitive_ofProgram :
    (ofProgram program remap).isInsensitive m = true ↔ program.main = some m ∨
      ∃ method, program.methods[m]? = some method ∧
        (method.isAbstract || method.isClassInitializer) = true := by
  obtain ⟨_, _, same⟩ := ofProgram_eq program remap
  unfold isInsensitive
  rw [decide_eq_true_iff, same]
  refine mem_insensitive_ofMethods.trans ?_
  rw [mem_roots]
  constructor
  · rintro ((isMain | ⟨method, found, initializer⟩) | marked)
    · exact .inl isMain
    · exact .inr ⟨method, found, by rw [initializer, Bool.or_true]⟩
    · exact .inr marked
  · exact Or.imp_left .inl

theorem isInsensitive_of_mem_roots (remap : Remap) (isRoot : m ∈ program.roots) :
    (ofProgram program remap).isInsensitive m = true := by
  rw [isInsensitive_ofProgram]
  rcases mem_roots.mp isRoot with isMain | ⟨method, found, initializer⟩
  · exact .inl isMain
  · exact .inr ⟨method, found, by rw [initializer, Bool.or_true]⟩

theorem root_or_abstract (insensitive : (ofProgram program remap).isInsensitive m = true) :
    m ∈ program.roots ∨ ∃ method, program.methods[m]? = some method ∧ method.isAbstract = true := by
  rw [mem_roots]
  rcases isInsensitive_ofProgram.mp insensitive with isMain | ⟨method, found, marked⟩
  · exact .inl (.inl isMain)
  · rcases Bool.or_eq_true_iff.mp marked with abstract | initializer
    · exact .inr ⟨method, found, abstract⟩
    · exact .inl (.inr ⟨method, found, initializer⟩)

end PlainCallGraph

end ProgramAnalysis
