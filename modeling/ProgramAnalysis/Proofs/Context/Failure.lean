import ProgramAnalysis.Proofs.Context.Kinds

/-!
What is left of refinements when contexts cannot be computed. A run notes what the store names up to
the first entry that fails, and takes nothing back if it fails afterwards. The next run notes what
its store names once more.
-/

namespace ProgramAnalysis

open Step List

open Store (SameData)

namespace Abstraction

open Refined (Remark entries reached)

variable {abstraction left : Abstraction} {store after : Store}

section Runs

variable {options : Options} {program : Program} {fault : Fault}

/-- A run that fails after the first one keeps what it has noted: everything that the store names up
to the first entry that names nothing, and everything at all if the fault comes later. Nothing is
noted twice in one run, but a run that then succeeds notes what its store names once more: its sites
are raised by two if both runs met them. Refused options change nothing, and a failed first run
leaves nothing. -/
theorem raises_after_failed_run {abstraction left : Abstraction} {store after : Store}
    {options : Options} {program : Program} {fault : Fault} (numbered : store.Numbered)
    (failed : run options program (store, abstraction) = .error fault (after, left)) :
    (Refused options → left = abstraction) ∧
    (¬ Refused options → abstraction.runs = 0 → left = {}) ∧
    (¬ Refused options → abstraction.runs ≠ 0 →
      left = abstraction.noteAll (reached store) ∧
      (∀ remark ∈ reached store, remark.2 ∈ remark.1.named store) ∧
      (Faultless (Refined.all.flatMap (entries store)) →
        ∀ remark : Remark, remark.2 ∈ remark.1.named store → remark ∈ reached store) ∧
      ∀ (options' : Options) (program' : Program) (again finished : Store) (retried : Abstraction),
        again.Numbered →
        run options' program' (again, left) = .ok () (finished, retried) →
        (∀ site, raise retried.objectRaises site = raise abstraction.objectRaises site +
          (if ⟨.allocations, site⟩ ∈ reached store then 1 else 0) +
          if site ∈ Refined.allocations.named again then 1 else 0) ∧
        (∀ site, raise retried.callRaises site = raise abstraction.callRaises site +
          (if ⟨.invokes, site⟩ ∈ reached store then 1 else 0) +
          if site ∈ Refined.invokes.named again then 1 else 0) ∧
        (∀ method, method ∈ retried.promoted ↔ method ∈ abstraction.promoted ∨
          ⟨.methods, method⟩ ∈ reached store ∨ method ∈ Refined.methods.named again) ∧
        ∀ var, var ∈ retried.refined ↔ var ∈ abstraction.refined ∨
          ⟨.vars, var⟩ ∈ reached store ∨ var ∈ Refined.vars.named again) := by
  have leaves : left = _ := (ends_run store abstraction).of_error failed
  refine ⟨fun refused => ?_, fun accepted first => ?_, fun accepted later => ?_⟩
  · rwa [if_pos refused] at leaves
  · rwa [if_neg accepted, if_pos first] at leaves
  rw [if_neg accepted, if_neg later] at leaves
  refine ⟨leaves, fun remark => Refined.named_of_mem_reached,
    fun faultless remark => (Refined.mem_reached faultless).mpr, ?_⟩
  intro options' program' again finished retried numbered' retrying
  obtain ⟨faultless, rfl⟩ := noteAll_of_run (by rwa [leaves, runs_noteAll]) retrying
  have named (remark : Remark) : remark ∈ reached again ↔ remark.2 ∈ remark.1.named again :=
    Refined.mem_reached faultless
  have raised (site : InstId) := raise_noteAll abstraction (reached store) site
  have raisedAgain (site : InstId) := raise_noteAll left (reached again) site
  have sensitive (handle : Nat) := mem_noteAll abstraction (reached store) handle
  have sensitiveAgain (handle : Nat) := mem_noteAll left (reached again) handle
  simp only [← leaves, (Refined.nodup_reached numbered).count] at raised sensitive
  simp only [raised, sensitive, (Refined.nodup_reached numbered').count, named, or_assoc]
    at raisedAgain sensitiveAgain
  exact ⟨fun site => (raisedAgain site).1, fun site => (raisedAgain site).2,
    fun method => (sensitiveAgain method).1, fun var => (sensitiveAgain var).2⟩

end Runs

/-! ### A call site that is raised twice -/

/-- The store with a relation that names the first call. -/
abbrev raisingStore : Store :=
  { walkingStore with
    disk := ⟨walkingStore.disk.entries.insert ["refineI.tuples"]
      (.file (.text "# I0:3\n# order=I0\n0\n"))⟩ }

/-- The store in which the variables that are named cannot be read. -/
abbrev spoiledStore : Store :=
  { raisingStore with
    disk := ⟨raisingStore.disk.entries.insert ["refineV.tuples"] (.file (.text "# V0:2\nv\n"))⟩ }

abbrev raisedOnce : Abstraction := { runs := 1, callRaises := ⟨[(0, 1)]⟩ }

abbrev raisedTwice : Abstraction := { runs := 1, callRaises := ⟨[(0, 2)]⟩ }

theorem numbered_walkingStore : walkingStore.Numbered := by
  refine Store.Numbered.putDomain (Store.Numbered.putDomain (Store.Numbered.putDomain
    (Store.Numbered.putDomain ?_ ?_) ?_) ?_) ?_
  · intro name any found
    cases found
  · decide
  · decide
  · decide
  · decide

theorem numbered_spoiledStore : spoiledStore.Numbered := fun name any found =>
  numbered_walkingStore name any found

theorem numbered_raisingStore : raisingStore.Numbered := fun name any found =>
  numbered_walkingStore name any found

theorem entries_spoiled : Refined.all.flatMap (entries spoiledStore) =
    [.ok ⟨.invokes, (0 : Nat)⟩, .error (.numeral .invalidDigit)] := by
  decide +kernel

theorem run_spoiled : ∃ fault after, run walkingOptions walking (spoiledStore, { runs := 1 }) =
    .error fault (after, raisedOnce) := by
  cases running : run walkingOptions walking (spoiledStore, { runs := 1 }) with
  | ok _ t =>
    have faultless := (noteAll_of_run (by decide) running).1
    rw [entries_spoiled] at faultless
    exact absurd (forall_mem_cons.mp faultless).2 not_faultless_error
  | error fault t =>
    obtain ⟨after, left⟩ := t
    have isLeft : left = _ := (ends_run _ _).of_error running
    rw [if_neg (by decide), if_neg (by decide), reached, entries_spoiled] at isLeft
    rw [isLeft]
    exact ⟨fault, after, rfl⟩

theorem run_raising : ∃ after, run walkingOptions walking (raisingStore, raisedOnce) =
    .ok () (after, { raisedTwice with runs := 2 }) :=
  run_of_evaluated (by decide +kernel)

theorem raises_after_failed_run_walking :
    ∃ fault after finished retried,
      run walkingOptions walking (spoiledStore, { runs := 1 }) = .error fault (after, raisedOnce) ∧
      run walkingOptions walking (raisingStore, raisedOnce) = .ok () (finished, retried) ∧
      raise retried.callRaises 0 = raise ({ runs := 1 } : Abstraction).callRaises 0 +
        (if ⟨.invokes, (0 : Nat)⟩ ∈ reached spoiledStore then 1 else 0) +
        if (0 : Nat) ∈ Refined.invokes.named raisingStore then 1 else 0 := by
  obtain ⟨fault, after, failed⟩ := run_spoiled
  obtain ⟨finished, retrying⟩ := run_raising
  obtain ⟨_, _, kept⟩ := raises_after_failed_run numbered_spoiledStore failed
  obtain ⟨_, _, _, retry⟩ := kept (by decide) (by decide)
  obtain ⟨_, calls, _⟩ := retry _ _ _ _ _ numbered_raisingStore retrying
  exact ⟨fault, after, finished, _, failed, retrying, calls 0⟩

/-- A run that fails because of the variables that are named keeps the call that was named before
them. When the variables are gone, the next run raises the call to two, although nothing else has
named it. -/
theorem raised_by_failed_run :
    ∃ fault after finished retried,
      run walkingOptions walking (spoiledStore, { runs := 1 }) = .error fault (after, raisedOnce) ∧
      raise ({ runs := 1 } : Abstraction).callRaises 0 = 0 ∧ raise raisedOnce.callRaises 0 = 1 ∧
      run walkingOptions walking (raisingStore, raisedOnce) = .ok () (finished, retried) ∧
      raise retried.callRaises 0 = 2 := by
  obtain ⟨fault, after, failed⟩ := run_spoiled
  obtain ⟨finished, retrying⟩ := run_raising
  exact ⟨fault, after, finished, _, failed, rfl, rfl, retrying, rfl⟩

end Abstraction

end ProgramAnalysis
