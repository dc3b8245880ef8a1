import ProgramAnalysis.Context

/-!
Things in contexts.
-/

namespace ProgramAnalysis

/-- A method, or a call site, in a context. -/
structure InContext where
  context : Context
  handle : Nat
  deriving DecidableEq, Repr, Inhabited

namespace InContext

/-- Ordered by context, then by handle. -/
instance : Ord InContext := ⟨compareLex (compareOn context) (compareOn handle)⟩

instance : Std.TransOrd InContext :=
  inferInstanceAs (Std.TransCmp (compareLex (compareOn context) (compareOn handle)))

instance : Std.LawfulEqOrd InContext where
  eq_of_compare {a b} equal := by
    have both : compare a.context b.context = .eq ∧ compare a.handle b.handle = .eq :=
      Ordering.then_eq_eq.mp equal
    obtain ⟨contexts, handles⟩ := both
    cases a
    cases b
    cases Std.LawfulEqOrd.eq_of_compare contexts
    cases Std.LawfulEqOrd.eq_of_compare handles
    rfl

/-- Each of some handles in each of some contexts. -/
def product (contexts : List Context) (handles : List Nat) : List InContext :=
  contexts.flatMap fun context => handles.map fun handle => ⟨context, handle⟩

theorem mem_product {contexts : List Context} {handles : List Nat} {node : InContext} :
    node ∈ product contexts handles ↔ node.context ∈ contexts ∧ node.handle ∈ handles := by
  constructor
  · intro member
    obtain ⟨context, known, paired⟩ := List.mem_flatMap.mp member
    obtain ⟨handle, among, rfl⟩ := List.mem_map.mp paired
    exact ⟨known, among⟩
  · rintro ⟨known, among⟩
    exact List.mem_flatMap.mpr ⟨_, known, List.mem_map.mpr ⟨_, among, rfl⟩⟩

end InContext

end ProgramAnalysis
