/-!
Finite sets kept as strictly ascending lists.
-/

namespace ProgramAnalysis

/-- A finite set of elements of an ordered type, as the ascending list of its members. -/
structure SortedSet (α : Type) [Ord α] where
  toList : List α
  ascending : toList.Pairwise (fun a b => compare a b = .lt)

namespace SortedSet

variable {α : Type} [Ord α]

instance : Membership α (SortedSet α) where
  mem s a := a ∈ s.toList

theorem mem_def {s : SortedSet α} {a : α} : a ∈ s ↔ a ∈ s.toList := Iff.rfl

instance [DecidableEq α] (s : SortedSet α) (a : α) : Decidable (a ∈ s) :=
  inferInstanceAs (Decidable (a ∈ s.toList))

instance [DecidableEq α] : DecidableEq (SortedSet α) := fun s t =>
  if same : s.toList = t.toList then
    isTrue (by cases s; cases t; cases same; rfl)
  else
    isFalse (fun equal => same (congrArg toList equal))

def empty : SortedSet α := ⟨[], .nil⟩

instance : Inhabited (SortedSet α) := ⟨empty⟩

def size (s : SortedSet α) : Nat := s.toList.length

def isEmpty (s : SortedSet α) : Bool := s.toList.isEmpty

def filter (keep : α → Bool) (s : SortedSet α) : SortedSet α :=
  ⟨s.toList.filter keep, s.ascending.filter keep⟩

@[simp] theorem mem_filter {keep : α → Bool} {s : SortedSet α} {a : α} :
    a ∈ s.filter keep ↔ a ∈ s ∧ keep a = true := List.mem_filter

/-! ### Adding a member -/

/-- Puts an element at its place in an ascending list, unless it is there already. -/
def place (a : α) : List α → List α
  | [] => [a]
  | b :: rest =>
    match compare a b with
    | .lt => a :: b :: rest
    | .eq => b :: rest
    | .gt => b :: place a rest

variable [Std.LawfulEqOrd α]

theorem mem_place {a x : α} {l : List α} : x ∈ place a l ↔ x = a ∨ x ∈ l := by
  induction l with
  | nil => simp [place]
  | cons b rest ih =>
    rw [place]
    split
    · simp
    · next same =>
      have equal : a = b := Std.LawfulEqOrd.eq_of_compare same
      subst equal
      simp
    · simp only [List.mem_cons, ih]
      constructor
      · rintro (rfl | rfl | member)
        · exact .inr (.inl rfl)
        · exact .inl rfl
        · exact .inr (.inr member)
      · rintro (rfl | rfl | member)
        · exact .inr (.inl rfl)
        · exact .inl rfl
        · exact .inr (.inr member)

variable [Std.TransOrd α]

theorem ascending_place {a : α} {l : List α}
    (ascending : l.Pairwise (fun a b => compare a b = .lt)) :
    (place a l).Pairwise (fun a b => compare a b = .lt) := by
  induction l with
  | nil => simp [place]
  | cons b rest ih =>
    obtain ⟨first, others⟩ := List.pairwise_cons.mp ascending
    rw [place]
    split
    · next smaller =>
      refine List.pairwise_cons.mpr ⟨?_, ascending⟩
      intro x member
      rcases List.mem_cons.mp member with rfl | later
      · exact smaller
      · exact Std.TransCmp.lt_trans smaller (first x later)
    · exact ascending
    · next larger =>
      refine List.pairwise_cons.mpr ⟨?_, ih others⟩
      intro x member
      rcases mem_place.mp member with rfl | later
      · exact Std.OrientedCmp.lt_of_gt larger
      · exact first x later

def insert (a : α) (s : SortedSet α) : SortedSet α :=
  ⟨place a s.toList, ascending_place s.ascending⟩

@[simp] theorem mem_insert {a x : α} {s : SortedSet α} : x ∈ s.insert a ↔ x = a ∨ x ∈ s :=
  mem_place

def insertAll (l : List α) (s : SortedSet α) : SortedSet α :=
  l.foldl (fun s a => s.insert a) s

def ofList (l : List α) : SortedSet α :=
  insertAll l empty

theorem mem_insertAll {l : List α} {x : α} {s : SortedSet α} :
    x ∈ s.insertAll l ↔ x ∈ l ∨ x ∈ s := by
  induction l generalizing s with
  | nil => simp [insertAll]
  | cons a rest ih =>
    have step : s.insertAll (a :: rest) = (s.insert a).insertAll rest := rfl
    rw [step, ih, mem_insert, List.mem_cons]
    constructor
    · rintro (later | rfl | old)
      · exact .inl (.inr later)
      · exact .inl (.inl rfl)
      · exact .inr old
    · rintro ((rfl | later) | old)
      · exact .inr (.inl rfl)
      · exact .inl later
      · exact .inr (.inr old)

@[simp] theorem mem_ofList {l : List α} {x : α} : x ∈ ofList l ↔ x ∈ l := by
  rw [ofList, mem_insertAll]
  simp [empty, mem_def]

/-! ### Sets with the same members -/

theorem eq_of_ascending {l l' : List α} (ascending : l.Pairwise (fun a b => compare a b = .lt))
    (ascending' : l'.Pairwise (fun a b => compare a b = .lt)) (same : ∀ x, x ∈ l ↔ x ∈ l') :
    l = l' := by
  induction l generalizing l' with
  | nil =>
    cases l' with
    | nil => rfl
    | cons b rest => exact absurd ((same b).mpr List.mem_cons_self) (by simp)
  | cons a rest ih =>
    cases l' with
    | nil => exact absurd ((same a).mp List.mem_cons_self) (by simp)
    | cons b rest' =>
      obtain ⟨first, others⟩ := List.pairwise_cons.mp ascending
      obtain ⟨first', others'⟩ := List.pairwise_cons.mp ascending'
      have irreflexive (x : α) : compare x x ≠ .lt := by
        rw [Std.ReflOrd.compare_self]
        exact Ordering.noConfusion
      have heads : a = b := by
        rcases List.mem_cons.mp ((same a).mp List.mem_cons_self) with equal | later
        · exact equal
        · rcases List.mem_cons.mp ((same b).mpr List.mem_cons_self) with equal | later'
          · exact equal.symm
          · exact absurd (Std.TransCmp.lt_trans (first b later') (first' a later)) (irreflexive a)
      subst heads
      have tails (x : α) : x ∈ rest ↔ x ∈ rest' := by
        constructor
        · intro member
          rcases List.mem_cons.mp ((same x).mp (List.mem_cons_of_mem a member)) with rfl | later
          · exact absurd (first x member) (irreflexive x)
          · exact later
        · intro member
          rcases List.mem_cons.mp ((same x).mpr (List.mem_cons_of_mem a member)) with rfl | later
          · exact absurd (first' x member) (irreflexive x)
          · exact later
      rw [ih others others' tails]

theorem ext {s t : SortedSet α} (same : ∀ x, x ∈ s ↔ x ∈ t) : s = t := by
  obtain ⟨l, ascending⟩ := s
  obtain ⟨l', ascending'⟩ := t
  have lists : l = l' := eq_of_ascending ascending ascending' same
  subst lists
  rfl

end SortedSet

end ProgramAnalysis
