import ProgramAnalysis.Context

/-!
There are finitely many contexts of a bounded length over given sites.
-/

namespace ProgramAnalysis.Context

/-- All contexts of at most some length over some sites. -/
def upTo (sites : List InstId) : Nat → List Context
  | 0 => [epsilon]
  | bound + 1 =>
    epsilon :: sites.flatMap fun site => (upTo sites bound).map fun context => site :: context

theorem mem_upTo {sites : List InstId} {bound : Nat} {context : Context}
    (short : context.length ≤ bound) (known : ∀ site ∈ context, site ∈ sites) :
    context ∈ upTo sites bound := by
  induction bound generalizing context with
  | zero =>
    have none : context = [] := List.eq_nil_of_length_eq_zero (Nat.le_zero.mp short)
    simp [upTo, none, epsilon]
  | succ bound ih =>
    cases context with
    | nil => simp [upTo, epsilon]
    | cons site rest =>
      have shorter : rest.length ≤ bound := by simpa using short
      have later := ih shorter fun other member =>
        known other (List.mem_cons_of_mem site member)
      refine List.mem_cons_of_mem _ (List.mem_flatMap.mpr ⟨site, known site List.mem_cons_self, ?_⟩)
      exact List.mem_map.mpr ⟨rest, later, rfl⟩

theorem length_push_le (k : Nat) (site : InstId) (context : Context) :
    (push k site context).length ≤ k := by
  simp only [push, List.length_take]
  omega

theorem mem_push {k : Nat} {site other : InstId} {context : Context}
    (member : other ∈ push k site context) : other = site ∨ other ∈ context :=
  List.mem_cons.mp (List.mem_of_mem_take member)

theorem push_mem_upTo {sites : List InstId} {bound k : Nat} {site : InstId} {context : Context}
    (small : k ≤ bound) (knownSite : site ∈ sites) (known : ∀ other ∈ context, other ∈ sites) :
    push k site context ∈ upTo sites bound := by
  refine mem_upTo (Nat.le_trans (length_push_le k site context) small) ?_
  intro other member
  rcases mem_push member with rfl | earlier
  · exact knownSite
  · exact known other earlier

theorem known_of_mem_upTo {sites : List InstId} {bound : Nat} {context : Context}
    (member : context ∈ upTo sites bound) : ∀ site ∈ context, site ∈ sites := by
  induction bound generalizing context with
  | zero =>
    rcases List.mem_singleton.mp member with rfl
    intro site none
    cases none
  | succ bound ih =>
    rcases List.mem_cons.mp member with rfl | longer
    · intro site none
      cases none
    · obtain ⟨site, knownSite, extended⟩ := List.mem_flatMap.mp longer
      obtain ⟨rest, inside, rfl⟩ := List.mem_map.mp extended
      intro other found
      rcases List.mem_cons.mp found with rfl | later
      · exact knownSite
      · exact ih inside other later

end ProgramAnalysis.Context
