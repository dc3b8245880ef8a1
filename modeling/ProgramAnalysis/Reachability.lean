/-!
What can be reached by following successors.
-/

namespace ProgramAnalysis

/-- Reachable from `start` by following `next` any number of times. -/
inductive Reachable {α : Type} (next : α → List α) (start : List α) : α → Prop where
  | start {a : α} : a ∈ start → Reachable next start a
  | step {a b : α} : Reachable next start a → b ∈ next a → Reachable next start b

/-- Following `next` never leaves a finite collection. The collection is a function because nothing
but the end of a search rests on it, and it may be large. -/
def Confined {α : Type} (next : α → List α) (all : Unit → List α) : Prop :=
  ∀ a ∈ all (), ∀ b ∈ next a, b ∈ all ()

namespace Reachability

variable {α : Type} [DecidableEq α]

/-! ### Weighing what is still unseen -/

/-- The weight of the places of a list that hold an element that has not been seen. -/
def unseen (weight : α → Nat) (seen : List α) : List α → Nat
  | [] => 0
  | a :: rest => (if a ∈ seen then 0 else weight a) + unseen weight seen rest

theorem unseen_le (weight : α → Nat) (all : List α) {seen seen' : List α}
    (grown : ∀ x ∈ seen, x ∈ seen') : unseen weight seen' all ≤ unseen weight seen all := by
  induction all with
  | nil => exact Nat.le_refl 0
  | cons b rest ih =>
    refine Nat.add_le_add ?_ ih
    by_cases old : b ∈ seen
    · simp [old, grown b old]
    · by_cases new : b ∈ seen' <;> simp [old, new]

/-- Seeing more, and among it something that was to be seen, takes its weight away. -/
theorem unseen_add_le (weight : α → Nat) (all : List α) {seen seen' : List α} {a : α}
    (grown : ∀ x ∈ seen, x ∈ seen') (member : a ∈ all) (fresh : a ∉ seen) (found : a ∈ seen') :
    unseen weight seen' all + weight a ≤ unseen weight seen all := by
  induction all with
  | nil => cases member
  | cons b rest ih =>
    rw [unseen, unseen]
    by_cases same : a = b
    · subst same
      have others := unseen_le weight rest grown
      rw [if_pos found, if_neg fresh]
      omega
    · have later := ih ((List.mem_cons.mp member).resolve_left same)
      by_cases old : b ∈ seen
      · rw [if_pos old, if_pos (grown b old)]
        omega
      · rw [if_neg old]
        split <;> omega

/-! ### Exploring -/

variable {next : α → List α} {all : Unit → List α}

/-- Takes elements off the queue until it is empty. An element met for the first time is recorded
and its successors are queued. -/
def explore (confined : Confined next all) (seen queue : List α)
    (queued : ∀ a ∈ queue, a ∈ all ()) : List α :=
  match queue with
  | [] => seen
  | a :: rest =>
    if a ∈ seen then
      explore confined seen rest (fun b member => queued b (List.mem_cons_of_mem a member))
    else
      explore confined (a :: seen) (rest ++ next a) (by
        intro b member
        rcases List.mem_append.mp member with waiting | successor
        · exact queued b (List.mem_cons_of_mem a waiting)
        · exact confined a (queued a List.mem_cons_self) b successor)
-- An element weighs as much as it can add to the queue, and one more for itself.
termination_by unseen (fun a => (next a).length + 1) seen (all ()) + queue.length
decreasing_by
  · exact Nat.lt_succ_self _
  · rename_i fresh
    have lighter := unseen_add_le (fun a => (next a).length + 1) (all ())
      (fun _ => List.mem_cons_of_mem a) (queued a List.mem_cons_self) fresh List.mem_cons_self
    simp only [List.length_append, List.length_cons] at *
    omega

/-- Everything reachable from `start`, each element once. -/
def closure (next : α → List α) {all : Unit → List α} (confined : Confined next all)
    (start : List α) (starts : ∀ a ∈ start, a ∈ all ()) : List α :=
  explore confined [] start starts

/-! ### The result is exactly what is reachable -/

theorem mem_explore_of_mem (confined : Confined next all) (seen queue : List α)
    (queued : ∀ a ∈ queue, a ∈ all ()) {x : α} (member : x ∈ seen ∨ x ∈ queue) :
    x ∈ explore confined seen queue queued := by
  fun_induction explore confined seen queue queued with
  | case1 seen => simpa using member
  | case2 seen a rest queued old _ ih =>
    apply ih
    rcases member with known | waiting
    · exact .inl known
    · rcases List.mem_cons.mp waiting with rfl | later
      · exact .inl old
      · exact .inr later
  | case3 seen a rest queued fresh _ ih =>
    apply ih
    rcases member with known | waiting
    · exact .inl (List.mem_cons_of_mem a known)
    · rcases List.mem_cons.mp waiting with rfl | later
      · exact .inl List.mem_cons_self
      · exact .inr (List.mem_append_left _ later)

/-- If the successors of seen elements are seen or queued, the result is closed. -/
theorem explore_closed (confined : Confined next all) (seen queue : List α)
    (queued : ∀ a ∈ queue, a ∈ all ())
    (tracked : ∀ a ∈ seen, ∀ b ∈ next a, b ∈ seen ∨ b ∈ queue) {a b : α}
    (member : a ∈ explore confined seen queue queued) (successor : b ∈ next a) :
    b ∈ explore confined seen queue queued := by
  fun_induction explore confined seen queue queued with
  | case1 seen => simpa using tracked a member b successor
  | case2 seen c rest queued old _ ih =>
    refine ih ?_ member
    intro x known y follows
    rcases tracked x known y follows with settled | waiting
    · exact .inl settled
    · rcases List.mem_cons.mp waiting with rfl | later
      · exact .inl old
      · exact .inr later
  | case3 seen c rest queued fresh _ ih =>
    refine ih ?_ member
    intro x known y follows
    rcases List.mem_cons.mp known with rfl | earlier
    · exact .inr (List.mem_append_right _ follows)
    · rcases tracked x earlier y follows with settled | waiting
      · exact .inl (List.mem_cons_of_mem c settled)
      · rcases List.mem_cons.mp waiting with rfl | later
        · exact .inl List.mem_cons_self
        · exact .inr (List.mem_append_left _ later)

theorem reachable_of_mem_explore (confined : Confined next all) (start seen queue : List α)
    (queued : ∀ a ∈ queue, a ∈ all ()) (known : ∀ a ∈ seen, Reachable next start a)
    (waiting : ∀ a ∈ queue, Reachable next start a) {x : α}
    (member : x ∈ explore confined seen queue queued) : Reachable next start x := by
  fun_induction explore confined seen queue queued with
  | case1 seen => exact known x member
  | case2 seen a rest queued old _ ih =>
    exact ih known (fun b later => waiting b (List.mem_cons_of_mem a later)) member
  | case3 seen a rest queued fresh _ ih =>
    have first : Reachable next start a := waiting a List.mem_cons_self
    refine ih ?_ ?_ member
    · intro b settled
      rcases List.mem_cons.mp settled with rfl | earlier
      · exact first
      · exact known b earlier
    · intro b later
      rcases List.mem_append.mp later with old | successor
      · exact waiting b (List.mem_cons_of_mem a old)
      · exact .step first successor

/-- The closure holds exactly what is reachable from the start. -/
theorem mem_closure (confined : Confined next all) (start : List α)
    (starts : ∀ a ∈ start, a ∈ all ()) (x : α) :
    x ∈ closure next confined start starts ↔ Reachable next start x := by
  constructor
  · exact reachable_of_mem_explore confined start [] start starts (fun _ none => nomatch none)
      (fun _ member => .start member)
  · intro reached
    induction reached with
    | start member => exact mem_explore_of_mem confined [] start starts (.inr member)
    | step _ successor ih =>
      exact explore_closed confined [] start starts (fun _ none => nomatch none)
        ih successor

end Reachability

end ProgramAnalysis
