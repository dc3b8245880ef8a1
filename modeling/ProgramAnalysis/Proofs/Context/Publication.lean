import ProgramAnalysis.Proofs.Context.Numbering
import ProgramAnalysis.Proofs.Context.Refinements

/-!
What a run publishes. It reads its input, numbers contexts and writes one relation after the other,
each of which stays when the next is written. So the store that is left says what the numbering
says.
-/

namespace ProgramAnalysis

open Step

open Store (SameData KeepsBut)

namespace Abstraction

variable {abstraction refined : Abstraction} {options : Options} {program : Program}
  {before after : Store}

/-! ### What is read -/

/-- What contexts are computed from, as the store holds it. -/
def inputOf (store : Store) : Except Fault Input := do
  let methods ← store.domain .method "M"
  let invokes ← store.domain .instruction "I"
  let allocations ← store.domain .instruction "H"
  let vars ← store.domain .var "V"
  let calls ← store.pairsOf "IM"
  let pointsTo ← store.pairsOf "VH"
  return { methods, invokes, allocations, vars, calls, pointsTo }

theorem inputOf_congr (same : before.SameData after) : inputOf after = inputOf before := by
  unfold inputOf Store.domain Store.anyDomain
  rw [same.domains, same.pairsOf, same.pairsOf]

variable {input : Input}

theorem readInput_eq_ok (reading : readInput before = .ok input after) :
    before.SameData after ∧ inputOf before = .ok input := by
  obtain ⟨methods, foundMethods, rest⟩ := Store.query_bind_eq_ok.mp reading
  obtain ⟨invokes, foundInvokes, rest⟩ := Store.query_bind_eq_ok.mp rest
  obtain ⟨allocations, foundAllocations, rest⟩ := Store.query_bind_eq_ok.mp rest
  obtain ⟨vars, foundVars, rest⟩ := Store.query_bind_eq_ok.mp rest
  obtain ⟨calls, between, taking, rest⟩ := bind_eq_ok.mp rest
  obtain ⟨pointsTo, last, taking', made⟩ := bind_eq_ok.mp rest
  cases made
  obtain ⟨same, foundCalls⟩ := Store.takePairs_eq_ok taking
  obtain ⟨same', foundPointsTo⟩ := Store.takePairs_eq_ok taking'
  rw [same.pairsOf] at foundPointsTo
  refine ⟨same.trans same', ?_⟩
  unfold inputOf
  rw [foundMethods, foundInvokes, foundAllocations, foundVars, foundCalls, foundPointsTo]
  rfl

/-! ### What is written -/

variable {computed : Result}

theorem name_contexts (succeeds : result abstraction options program input = .ok computed) :
    computed.contexts.name = "C" := by
  obtain ⟨plans, invokes, allocations, _, _, _, same, _⟩ := result_eq_ok succeeds
  rw [same, name_number, name_number, numberReached, Domain.name_ofList]

/-- The files of the relations have plain names, which differ. -/
theorem distinct_files (entries : List (String × List Tuple)) (names : entries.map (·.1) =
      ["CC", "CI", "CH", "epsilonM", "kcfaSenM", "kobjSenM", "ctxtCpyM", "epsilonV"]) :
    (∀ entry ∈ entries, Path.Plain (Store.fileOf entry.1)) ∧
      (entries.map fun entry => Store.fileOf entry.1).Nodup := by
  have noSlash : ∀ name ∈ ["CC", "CI", "CH", "epsilonM", "kcfaSenM", "kobjSenM", "ctxtCpyM",
      "epsilonV"], '/' ∉ name.toList := by decide
  constructor
  · intro entry mem
    exact Store.plain_fileOf (noSlash entry.1 (names ▸ List.mem_map_of_mem mem))
  · have split : (entries.map fun entry => Store.fileOf entry.1) =
        (entries.map (·.1)).map Store.fileOf := by
      rw [List.map_map]
      rfl
    rw [split, names]
    decide

theorem publish_eq_ok (succeeds : result abstraction options program input = .ok computed)
    (publishing : computed.publish before = .ok () after) :
    after.domain .context "C" = .ok computed.contexts.setFilled ∧
      ∀ entry ∈ computed.relations, after.Saved entry.1 (.ofList entry.2) := by
  obtain ⟨_, _, _, _, _, _, _, _, names⟩ := result_eq_ok succeeds
  obtain ⟨_, _, put, rest⟩ := bind_eq_ok.mp publishing
  cases put
  obtain ⟨_, saved, saving, rest⟩ := bind_eq_ok.mp rest
  obtain ⟨_, _, filling, finished⟩ := bind_eq_ok.mp rest
  cases finished
  obtain ⟨plain, distinct⟩ := distinct_files computed.relations names
  obtain ⟨keeps, entries⟩ := Store.forIn_fillRelation_eq_ok plain distinct filling
  refine ⟨?_, entries⟩
  obtain ⟨_, disk, _, rfl, _⟩ := Store.saveDomain_eq_ok saving
  refine Store.domain_eq_ok ?_
  rw [keeps.domains]
  show (before.domains.insert computed.contexts.name _).get? "C" = _
  rw [name_contexts succeeds, Table.get?_insert, if_pos rfl]

/-! ### Runs -/

/-- A run computes contexts from what the store holds when it starts, and publishes them. A first
run starts from the abstraction without refinements. -/
theorem run_eq_ok (running : run options program (before, abstraction) = .ok () (after, refined)) :
    ∃ input computed, inputOf before = .ok input ∧
      result refined options program input = .ok computed ∧
      (∃ between, before.SameData between ∧ computed.publish between = .ok () after) ∧
      (abstraction.runs = 0 → refined = { runs := 1 }) := by
  obtain ⟨_, started, current, prepared, computing, rfl⟩ := prepared_of_run running
  obtain ⟨input, between, reading, rest⟩ := bind_eq_ok.mp computing
  obtain ⟨same, read⟩ := readInput_eq_ok reading
  obtain ⟨computed, succeeds, publishing⟩ := ofExcept_bind_eq_ok.mp rest
  cases prepared with
  | first =>
    exact ⟨input, computed, read, succeeds, ⟨between, same, publishing⟩, fun _ => rfl⟩
  | later later unchanged =>
    exact ⟨input, computed, inputOf_congr unchanged ▸ read, succeeds,
      ⟨between, unchanged.trans same, publishing⟩, fun first => absurd first later⟩

theorem runs_of_run
    (running : run options program (before, abstraction) = .ok () (after, refined)) :
    refined.runs ≠ 0 := by
  obtain ⟨_, _, _, _, _, rfl⟩ := prepared_of_run running
  exact Nat.succ_ne_zero _

/-- A run that was evaluated, as far as the abstraction that it leaves. -/
theorem run_of_evaluated
    (evaluated : ((run options program).outcome (before, abstraction)).map (·.2.2) = .ok refined) :
    ∃ after, run options program (before, abstraction) = .ok () (after, refined) := by
  obtain ⟨_, ⟨after, _⟩, running, same⟩ := exists_of_outcome evaluated
  cases same
  exact ⟨after, running⟩

/-- A run that succeeds publishes contexts, and relations that say exactly how they are made and
which methods have them. -/
theorem run_describes {abstraction refined : Abstraction} {options : Options} {program : Program}
    {before after : Store}
    (running : run options program (before, abstraction) = .ok () (after, refined)) :
    ∃ input plans contexts calls allocated steps,
      inputOf before = .ok input ∧ plan refined options program input = .ok plans ∧
      after.domain .context "C" = .ok contexts ∧ after.Saved "CI" calls ∧
      after.Saved "CH" allocated ∧ after.Saved "CC" steps ∧
      Describes refined options program input plans contexts calls allocated steps := by
  obtain ⟨input, computed, read, succeeds, ⟨_, _, publishing⟩, _⟩ := run_eq_ok running
  obtain ⟨published, saved⟩ := publish_eq_ok succeeds publishing
  obtain ⟨plans, invokes, allocations, planned, foundInvokes, foundAllocations,
      contexts, entries, _⟩ :=
    result_eq_ok succeeds
  have among {entry} (member : entry ∈ computed.relations.take 3) : entry ∈ computed.relations :=
    List.mem_of_mem_take member
  rw [entries] at among
  have elements := congrArg (fun domain : Domain .context => domain.setFilled.elements) contexts
  exact ⟨input, plans, computed.contexts.setFilled, _, _, _, read, planned,
    published, saved _ (among (.tail _ (.head _))), saved _ (among (.tail _ (.tail _ (.head _)))),
    saved _ (among (.head _)), describes_numbered planned foundInvokes foundAllocations elements⟩

/-- A program that walks recursively and visits an object. -/
abbrev walking : Program where
  main := some 0
  methods := [{ signature := "main", isStatic := true, vars := [0] },
    { signature := "walk", isStatic := true }, { signature := "visit", vars := [1] }]
  instructions := [⟨0, none, .invoke [1] none⟩, ⟨1, none, .invoke [1] none⟩,
    ⟨0, none, .new 0 none⟩, ⟨1, none, .invoke [2] (some 0)⟩]
  vars := [⟨"node", 0⟩, ⟨"this", 2⟩]

abbrev walkingOptions : Options := { instanceKind := .object, staticKind := .callSite }

abbrev walkingInput : Input where
  methods := ⟨"M", [0, 1, 2], true⟩
  invokes := ⟨"I", [0, 1, 3], true⟩
  allocations := ⟨"H", [2], true⟩
  vars := ⟨"V", [0, 1], true⟩
  calls := [(0, 1), (1, 1), (2, 2)]
  pointsTo := [(1, 0)]

/-- A store that holds the facts of the program. -/
abbrev walkingStore : Store :=
  let disk : Disk := ⟨(Table.empty.insert ["IM.tuples"]
    (.file (.text "# I0:3 M0:3\n# order=I0xM0\n0 1\n1 1\n2 2\n"))).insert ["VH.tuples"]
    (.file (.text "# V0:2 H0:1\n# order=V0_H0\n1 0\n"))⟩
  let declared := signatures.foldl (fun store entry => store.putRelation ⟨entry.1, entry.2, none⟩)
    (Store.onDirectory disk "")
  (((declared.putDomain walkingInput.methods).putDomain walkingInput.invokes).putDomain
    walkingInput.allocations).putDomain walkingInput.vars

theorem run_walking :
    ∃ after, run walkingOptions walking (walkingStore, {}) = .ok () (after, { runs := 1 }) :=
  run_of_evaluated (by decide +kernel)

theorem run_describes_walking :
    ∃ after, run walkingOptions walking (walkingStore, {}) = .ok () (after, { runs := 1 }) ∧
      ∃ input plans contexts calls allocated steps,
        inputOf walkingStore = .ok input ∧
        plan { runs := 1 } walkingOptions walking input = .ok plans ∧
        after.domain .context "C" = .ok contexts ∧ after.Saved "CI" calls ∧
        after.Saved "CH" allocated ∧ after.Saved "CC" steps ∧
        Describes { runs := 1 } walkingOptions walking input plans contexts
          calls allocated steps := by
  obtain ⟨after, running⟩ := run_walking
  exact ⟨after, running, run_describes running⟩

end Abstraction

end ProgramAnalysis
