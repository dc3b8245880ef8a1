import ProgramAnalysis.Reachability

/-!
What a search reaches. A map between two graphs that respects their edges carries what is reached in
one to the other (`Reachable.map`). The list that a search gives, in its order, depends only on the
successors and the start, not on what confines the search (`closure_congr`).
-/

namespace ProgramAnalysis

open List

/-! ### Where a search starts -/

theorem Reachable.exists_start {α : Type} {next : α → List α} {start : List α} {a : α}
    (reached : Reachable next start a) : ∃ first, first ∈ start := by
  induction reached with
  | start mem => exact ⟨_, mem⟩
  | step _ _ ih => exact ih

/-- What is reached from an element is the element, or is reached from one of its successors. -/
theorem reachable_singleton_iff {α : Type} {next : α → List α} {a b : α} :
    Reachable next [a] b ↔ b = a ∨ Reachable next (next a) b := by
  constructor
  · intro reached
    induction reached with
    | start mem => exact .inl (mem_singleton.mp mem)
    | step _ successor ih =>
      rcases ih with rfl | reached
      · exact .inr (.start successor)
      · exact .inr (.step reached successor)
  · rintro (rfl | reached)
    · exact .start (mem_singleton.mpr rfl)
    · induction reached with
      | start mem => exact .step (.start (mem_singleton.mpr rfl)) mem
      | step _ successor ih => exact .step ih successor

/-! ### Searches related by a map -/

theorem Reachable.map {α β : Type} {next : α → List α} {next' : β → List β} {start : List α}
    {start' : List β} {f : α → β} (starts : start' = start.map f)
    (steps : ∀ a, next' (f a) = (next a).map f) {a : α} (reached : Reachable next start a) :
    Reachable next' start' (f a) := by
  induction reached with
  | start mem =>
    rw [starts]
    exact .start (mem_map_of_mem mem)
  | step _ successor ih =>
    refine .step ih ?_
    rw [steps]
    exact mem_map_of_mem successor

/-- A map that commutes with successors sends what one search reaches onto what the other
reaches. -/
theorem reachable_map_iff {α β : Type} {next : α → List α} {next' : β → List β} {start : List α}
    {start' : List β} {f : α → β} (starts : start' = start.map f)
    (steps : ∀ a, next' (f a) = (next a).map f) {b : β} :
    Reachable next' start' b ↔ ∃ a, Reachable next start a ∧ f a = b := by
  constructor
  · intro reached
    induction reached with
    | start mem =>
      rw [starts] at mem
      obtain ⟨a, begins, rfl⟩ := mem_map.mp mem
      exact ⟨a, .start begins, rfl⟩
    | step _ successor ih =>
      obtain ⟨a, reached, rfl⟩ := ih
      rw [steps] at successor
      obtain ⟨follower, follows, rfl⟩ := mem_map.mp successor
      exact ⟨follower, .step reached follows, rfl⟩
  · rintro ⟨a, reached, rfl⟩
    exact reached.map starts steps

/-! ### What the list of seen elements depends on -/

namespace Reachability

variable {α : Type} [DecidableEq α] {start start' : List α} {next next' : α → List α}
  {all all' : Unit → List α}

theorem explore_congr (confined : Confined next all)
    (confined' : Confined next all') (seen queue : List α)
    (queued : ∀ a ∈ queue, a ∈ all ()) (queued' : ∀ a ∈ queue, a ∈ all' ()) :
    explore confined seen queue queued = explore confined' seen queue queued' := by
  fun_induction explore confined seen queue queued with
  | case1 seen => rw [explore]
  | case2 seen a rest queued old _ ih =>
    rw [ih fun b mem => queued' b (mem_cons_of_mem a mem)]
    conv => rhs; rw [explore]
    rw [if_pos old]
  | case3 seen a rest queued fresh later ih =>
    have later' : ∀ b ∈ rest ++ next a, b ∈ all' () := by
      intro b mem
      rcases mem_append.mp mem with waiting | successor
      · exact queued' b (mem_cons_of_mem a waiting)
      · exact confined' a (queued' a mem_cons_self) b successor
    rw [ih later']
    conv => rhs; rw [explore]
    rw [if_neg fresh]

/-- Two searches with the same successors and the same start meet the same elements in the same
order, whatever confines them. -/
theorem closure_congr (confined : Confined next all)
    (confined' : Confined next' all') (starts : ∀ a ∈ start, a ∈ all ())
    (starts' : ∀ a ∈ start', a ∈ all' ()) (same : next = next') (sameStart : start = start') :
    closure next confined start starts = closure next' confined' start' starts' := by
  subst same sameStart
  exact explore_congr confined confined' [] start starts starts'

end Reachability

end ProgramAnalysis
