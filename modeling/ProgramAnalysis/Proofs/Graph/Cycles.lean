import ProgramAnalysis.Proofs.Graph.Building
import Mathlib.Data.List.Chain
import Mathlib.Data.List.Nodup
import Mathlib.Data.List.TakeWhile
import Mathlib.Order.WellFounded

/-!
Graphs in which no cycle is found. A search that ends without one has finished each vertex after its
successors, so that there is no way back along edges. A search that ends with one has met a vertex
of its own path again, and the path from there is a closed walk.
-/

namespace ProgramAnalysis

open List

/-! ### Walks -/

/-- A list that ends where it starts, each element leading to the next. -/
def ClosedWalk {α : Type} (leads : α → α → Prop) (walk : List α) : Prop :=
  (∃ a between, walk = a :: between ++ [a]) ∧ walk.IsChain leads

namespace ClosedWalk

variable {α β : Type} {leads : α → α → Prop} {walk : List α}

theorem map (closed : ClosedWalk leads walk)
    (steps : ∀ a ∈ walk, ∀ b ∈ walk, leads a b → leads' (f a) (f b)) :
    ClosedWalk leads' (walk.map f) := by
  obtain ⟨⟨a, between, same⟩, chain⟩ := closed
  refine ⟨⟨f a, between.map f, by rw [same]; simp⟩, (isChain_map f).mpr ?_⟩
  exact chain.imp_of_mem_imp fun a b first second => steps a first b second

theorem mono (closed : ClosedWalk leads walk)
    (steps : ∀ a ∈ walk, ∀ b ∈ walk, leads a b → leads' a b) : ClosedWalk leads' walk := by
  have mapped := closed.map (f := id) steps
  rwa [map_id] at mapped

/-- The start of a closed walk leads back to itself. -/
theorem transGen (closed : ClosedWalk leads walk) : ∃ a, Relation.TransGen leads a a := by
  have ends {a b : α} {between : List α} (chain : (a :: between ++ [b]).IsChain leads) :
      Relation.TransGen leads a b := by
    induction between generalizing a with
    | nil => exact .single (isChain_pair.mp chain)
    | cons next rest ih =>
      obtain ⟨first, others⟩ := isChain_cons_cons.mp chain
      exact .head first (ih others)
  obtain ⟨⟨a, between, rfl⟩, chain⟩ := closed
  exact ⟨a, ends chain⟩

end ClosedWalk

namespace Graph

variable {graph : Graph}

variable {v : Nat}

theorem mem_ordered_iff : v ∈ graph.ordered ↔ graph.hasVertex v = true := by
  rw [ordered, ← SortedSet.mem_def, SortedSet.mem_ofList, Table.mem_keys_iff]
  rfl

/-- One vertex is at the end of an edge out of another. -/
def Follows (graph : Graph) (w v : Nat) : Prop := w ∈ graph.after v

/-! ### What a search without a cycle shows -/

variable {path finished pending : List Nat} {inside : ∀ v ∈ pending, v ∈ graph.known}

/-- A search that meets no cycle has gone through all it was given, and only finitely many edges can
be followed from whatever it went through. -/
theorem search_clear (ended : graph.search path finished pending inside = .clear cleared)
    (settled : ∀ v ∈ finished, Acc graph.Follows v) :
    (∀ v ∈ finished, v ∈ cleared) ∧ (∀ v ∈ pending, v ∈ cleared) ∧
      ∀ v ∈ cleared, Acc graph.Follows v := by
  fun_induction search graph path finished pending inside generalizing cleared with
  | case1 path finished =>
    cases ended
    exact ⟨fun _ mem => mem, fun _ none => (nomatch none), settled⟩
  | case2 path finished v rest inside later old _ ih =>
    obtain ⟨kept, passed, finite⟩ := ih ended settled
    refine ⟨kept, fun w mem => ?_, finite⟩
    rcases mem_cons.mp mem with rfl | waiting
    · exact kept w old
    · exact passed w waiting
  | case3 => cases ended
  | case4 => cases ended
  | case5 path finished v rest inside later fresh notOnPath below found _ deeper
      ih =>
    obtain ⟨kept, passed, finite⟩ := deeper found settled
    have reachesLittle : Acc graph.Follows v :=
      .intro v fun w follows => finite w (passed w follows)
    have settledNow : ∀ w ∈ v :: below, Acc graph.Follows w := by
      intro w mem
      rcases mem_cons.mp mem with rfl | earlier
      · exact reachesLittle
      · exact finite w earlier
    obtain ⟨keptNow, passedNow, finiteNow⟩ := ih ended settledNow
    refine ⟨fun w mem => keptNow w (mem_cons_of_mem v (kept w mem)), fun w mem => ?_, finiteNow⟩
    rcases mem_cons.mp mem with rfl | waiting
    · exact keptNow w mem_cons_self
    · exact passedNow w waiting

/-- Where no cycle is found, following edges always ends. -/
theorem wellFounded_after (none : graph.findCycle? = none) : WellFounded graph.Follows := by
  unfold findCycle? at none
  split at none
  · cases none
  · next cleared ended =>
    obtain ⟨_, passed, finite⟩ := search_clear ended fun _ none => by cases none
    refine ⟨fun v => ?_⟩
    by_cases isVertex : graph.hasVertex v = true
    · exact finite v (passed v (mem_ordered_iff.mpr isVertex))
    · refine .intro v fun w follows => absurd ?_ isVertex
      exact hasVertex_of_after follows

/-! ### What a cycle shows -/

theorem takeWhile_append_of_mem (mem : v ∈ path) :
    ∃ rest, path = path.takeWhile (· ≠ v) ++ v :: rest := by
  induction path with
  | nil => cases mem
  | cons w path ih =>
    by_cases same : w = v
    · exact ⟨path, by simp [same]⟩
    · obtain ⟨rest, split⟩ :=
        ih ((mem_cons.mp mem).resolve_left (Ne.symm same))
      refine ⟨rest, ?_⟩
      rw [takeWhile_cons, if_pos (decide_eq_true same), cons_append, ← split]

/-- Going on from the end of a path to one of its vertices closes a walk. -/
theorem closedWalk_of_path (mem : v ∈ path) (walk : path.IsChain graph.Follows)
    (leads : ∀ u ∈ path.head?, v ∈ graph.after u) :
    ClosedWalk (fun u w => w ∈ graph.after u) (v :: (path.takeWhile (· ≠ v)).reverse ++ [v]) := by
  refine ⟨⟨v, _, rfl⟩, ?_⟩
  obtain ⟨rest, split⟩ := takeWhile_append_of_mem mem
  generalize path.takeWhile (· ≠ v) = front at split ⊢
  subst split
  have back : (front ++ [v]).IsChain graph.Follows := (isChain_split.mp walk).1
  have forth : (v :: front.reverse).IsChain fun u w => w ∈ graph.after u := by
    rw [← reverse_concat, ← append_eq, isChain_reverse]
    exact back
  refine forth.append (.singleton v) fun last isLast first isFirst => ?_
  cases isFirst
  refine leads last ?_
  cases front with
  | nil => simpa using isLast
  | cons first others =>
    rw [reverse_cons, ← cons_append, getLast?_concat] at isLast
    simpa using isLast

theorem nodup_takeWhile (simple : path.Nodup) : (v :: (path.takeWhile (· ≠ v)).reverse).Nodup := by
  refine nodup_cons.mpr ⟨fun mem => ?_, ?_⟩
  · simpa using mem_takeWhile_imp (mem_reverse.mp mem)
  · exact nodup_reverse.mpr (simple.sublist (takeWhile_sublist _))

variable {cycle : List Nat}

/-- A search that has followed edges up to here, without meeting a vertex twice, names a closed walk
if it meets a cycle, and nothing but its ends are the same. -/
theorem search_cycle (ended : graph.search path finished pending inside = .cycle cycle)
    (walk : path.IsChain graph.Follows) (simple : path.Nodup)
    (leads : ∀ u ∈ path.head?, ∀ v ∈ pending, v ∈ graph.after u) :
    ClosedWalk (fun u w => w ∈ graph.after u) cycle ∧ cycle.dropLast.Nodup := by
  fun_induction search graph path finished pending inside with
  | case1 => cases ended
  | case2 path finished v rest inside later old _ ih =>
    exact ih ended walk simple fun u isHead w mem =>
      leads u isHead w (mem_cons_of_mem v mem)
  | case3 path finished v rest inside later fresh onPath =>
    cases ended
    refine ⟨closedWalk_of_path onPath walk fun u isHead => leads u isHead v mem_cons_self, ?_⟩
    rw [dropLast_concat]
    exact nodup_takeWhile simple
  | case4 path finished v rest inside later fresh notOnPath below found _ deeper =>
    cases ended
    refine deeper found (walk.cons fun u isHead => leads u isHead v mem_cons_self)
      (nodup_cons.mpr ⟨notOnPath, simple⟩) ?_
    intro u isHead w follows
    cases isHead
    exact follows
  | case5 path finished v rest inside later fresh notOnPath below found _ deeper
      ih =>
    exact ih ended walk simple fun u isHead w mem =>
      leads u isHead w (mem_cons_of_mem v mem)

theorem simple_of_cycle (found : graph.findCycle? = some cycle) :
    ClosedWalk (fun v w => w ∈ graph.after v) cycle ∧ cycle.dropLast.Nodup := by
  unfold findCycle? at found
  split at found
  · next vertices ended =>
    cases found
    exact search_cycle ended .nil .nil fun _ first => by cases first
  · cases found

theorem closedWalk_of_cycle (found : graph.findCycle? = some cycle) :
    ClosedWalk (fun v w => w ∈ graph.after v) cycle := (simple_of_cycle found).1

/-! ### Edges are never closed to a cycle -/

theorem transGen_of_reachable (reached : Reachable graph.after [v] w) :
    w = v ∨ Relation.TransGen graph.Follows w v := by
  induction reached with
  | start mem => exact .inl (mem_singleton.mp mem)
  | step _ follows ih =>
    rcases ih with rfl | chain
    · exact .inr (.single follows)
    · exact .inr (.trans (.single follows) chain)

theorem not_transGen_self (finite : WellFounded graph.Follows) (v : Nat) :
    ¬ Relation.TransGen (fun u w => w ∈ graph.after u) v v := by
  intro around
  have backwards : Relation.TransGen graph.Follows v v := Relation.transGen_swap.mp around
  exact finite.transGen.irrefl.irrefl v backwards

/-- A cycle is found exactly if some vertex leads back to itself. -/
theorem findCycle?_eq_none : graph.findCycle? = none ↔
    ∀ v, ¬ Relation.TransGen (fun u w => w ∈ graph.after u) v v := by
  constructor
  · intro none
    exact not_transGen_self (wellFounded_after none)
  · intro acyclic
    cases found : graph.findCycle? with
    | none => rfl
    | some cycle =>
      obtain ⟨v, around⟩ := (closedWalk_of_cycle found).transGen
      exact absurd around (acyclic v)

theorem not_reachable_of_edge (finite : WellFounded graph.Follows) (edge : w ∈ graph.after v) :
    ¬ Reachable graph.after [w] v := by
  intro reached
  have closed : Relation.TransGen graph.Follows w w := by
    rcases transGen_of_reachable reached with rfl | chain
    · exact .single edge
    · exact .trans (.single edge) chain
  exact finite.transGen.irrefl.irrefl w closed

end Graph

end ProgramAnalysis
