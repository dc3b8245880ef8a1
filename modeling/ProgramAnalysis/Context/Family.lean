import ProgramAnalysis.Context.Bounded
import ProgramAnalysis.Context.Located
import ProgramAnalysis.Reachability

/-!
The contexts of all methods at once.
-/

namespace ProgramAnalysis

open Reachability (unseen unseen_add_le)

/-- A call or allocation site: its index in its domain, the index of the method around it, and how
many sites a context that goes through it keeps. -/
structure ContextSite where
  index : Nat
  site : InstId
  method : Nat
  depth : Nat
  deriving DecidableEq, Repr, Inhabited

namespace ContextSite

/-- The context reached from one of the method around the site. -/
def extend (place : ContextSite) (context : Context) : Context :=
  context.push place.depth place.site

end ContextSite

/-- Where the contexts of a method come from. -/
inductive Origin where
  | start
  /-- It is entered through sites. -/
  | through (places : List ContextSite)
  /-- It runs in the contexts of its callers, given by their indices. -/
  | copying (callers : List Nat)
  deriving DecidableEq, Repr, Inhabited

/-- Contexts by method, the `m`-th set being that of the method with index `m`. -/
abbrev ContextFamily := List (SortedSet Context)

namespace ContextFamily

def contextsOf (family : ContextFamily) (m : Nat) : SortedSet Context := family[m]?.getD .empty

/-- The contexts of one family are among those of another, method by method. -/
def Included (family other : ContextFamily) : Prop :=
  ∀ m, ∀ context ∈ family.contextsOf m, context ∈ other.contextsOf m

/-- All methods with all their contexts. -/
def nodes (family : ContextFamily) : List InContext :=
  family.zipIdx.flatMap fun (contexts, m) => contexts.toList.map fun context => ⟨context, m⟩

theorem contextsOf_set {family : ContextFamily} {m : Nat} (below : m < family.length)
    (contexts : SortedSet Context) (n : Nat) :
    contextsOf (family.set m contexts) n = if m = n then contexts else family.contextsOf n := by
  unfold contextsOf
  rw [List.getElem?_set, if_pos below]
  split <;> rfl

theorem lt_of_mem_contextsOf {family : ContextFamily} {m : Nat} {context : Context}
    (member : context ∈ family.contextsOf m) : m < family.length := by
  by_cases below : m < family.length
  · exact below
  · rw [contextsOf, List.getElem?_eq_none (Nat.le_of_not_lt below)] at member
    cases member

theorem mem_nodes {family : ContextFamily} {node : InContext} :
    node ∈ family.nodes ↔ node.context ∈ family.contextsOf node.handle := by
  obtain ⟨context, m⟩ := node
  constructor
  · intro member
    obtain ⟨⟨contexts, n⟩, atIndex, listed⟩ := List.mem_flatMap.mp member
    obtain ⟨other, among, same⟩ := List.mem_map.mp listed
    obtain ⟨rfl, rfl⟩ := InContext.mk.inj same
    have found : family[n]? = some contexts := (List.mem_zipIdx_iff_getElem?).mp atIndex
    show other ∈ family[n]?.getD .empty
    rw [found]
    exact among
  · intro member
    have below := lt_of_mem_contextsOf member
    refine List.mem_flatMap.mpr ⟨(family[m], m), ?_, ?_⟩
    · exact List.mem_zipIdx_iff_getElem?.mpr (List.getElem?_eq_getElem below)
    · have among : context ∈ family.contextsOf m := member
      rw [contextsOf, List.getElem?_eq_getElem below] at among
      exact List.mem_map_of_mem among

end ContextFamily

namespace Origin

/-- The methods whose contexts are taken up. -/
def sources : Origin → List Nat
  | start => []
  | through places => places.map (·.method)
  | copying callers => callers

/-- The contexts a method gets from a family. -/
def gather (origin : Origin) (family : ContextFamily) : List Context :=
  match origin with
  | start => [.epsilon]
  | through places =>
    places.flatMap fun place => (family.contextsOf place.method).toList.map place.extend
  | copying callers => callers.flatMap fun caller => (family.contextsOf caller).toList

def places : Origin → List ContextSite
  | through places => places
  | start | copying _ => []

theorem mem_gather_through {places : List ContextSite} {family : ContextFamily}
    {context : Context} :
    context ∈ (through places).gather family ↔ ∃ place ∈ places,
      ∃ before ∈ family.contextsOf place.method, place.extend before = context := by
  constructor
  · intro member
    obtain ⟨place, among, extended⟩ := List.mem_flatMap.mp member
    obtain ⟨before, had, same⟩ := List.mem_map.mp extended
    exact ⟨place, among, before, had, same⟩
  · rintro ⟨place, among, before, had, same⟩
    exact List.mem_flatMap.mpr ⟨place, among, List.mem_map.mpr ⟨before, had, same⟩⟩

theorem mem_gather_copying {callers : List Nat} {family : ContextFamily} {context : Context} :
    context ∈ (copying callers).gather family ↔
      ∃ caller ∈ callers, context ∈ family.contextsOf caller :=
  List.mem_flatMap

theorem gather_mono {origin : Origin} {family other : ContextFamily}
    (included : family.Included other) {context : Context}
    (member : context ∈ origin.gather family) :
    context ∈ origin.gather other := by
  cases origin with
  | start => exact member
  | through places =>
    obtain ⟨place, among, before, had, same⟩ := mem_gather_through.mp member
    exact mem_gather_through.mpr ⟨place, among, before, included _ before had, same⟩
  | copying callers =>
    obtain ⟨caller, among, had⟩ := mem_gather_copying.mp member
    exact mem_gather_copying.mpr ⟨caller, among, included _ context had⟩

end Origin

namespace ContextFamily

/-! ### Every context lies in a finite collection -/

def allPlaces (origins : List Origin) : List ContextSite := origins.flatMap Origin.places

/-- No context is longer than this. -/
def bound (origins : List Origin) : Nat :=
  (allPlaces origins).foldr (fun place greatest => max place.depth greatest) 0

theorem depth_le_bound {origins : List Origin} {place : ContextSite}
    (member : place ∈ allPlaces origins) : place.depth ≤ bound origins := by
  unfold bound
  generalize allPlaces origins = places at member
  induction places with
  | nil => cases member
  | cons first rest ih =>
    rw [List.foldr_cons]
    rcases List.mem_cons.mp member with rfl | later
    · exact Nat.le_max_left _ _
    · exact Nat.le_trans (ih later) (Nat.le_max_right _ _)

/-- The sites that contexts are made of. -/
def alphabet (origins : List Origin) : List InstId := (allPlaces origins).map (·.site)

def allContexts (origins : List Origin) : List Context :=
  Context.upTo (alphabet origins) (bound origins)

def allNodes (origins : List Origin) : List InContext :=
  InContext.product (allContexts origins) (List.range origins.length)

/-- Gathering from contexts that can occur gives contexts that can occur. -/
theorem gather_possible {origins : List Origin} {family : ContextFamily} {origin : Origin}
    (known : origin ∈ origins)
    (possible : ∀ m, ∀ context ∈ family.contextsOf m, context ∈ allContexts origins)
    {context : Context} (member : context ∈ origin.gather family) :
    context ∈ allContexts origins := by
  cases origin with
  | start =>
    rcases List.mem_singleton.mp member with rfl
    refine Context.mem_upTo (Nat.zero_le _) ?_
    intro site none
    cases none
  | through places =>
    obtain ⟨place, among, before, had, rfl⟩ := Origin.mem_gather_through.mp member
    have listed : place ∈ allPlaces origins := List.mem_flatMap.mpr ⟨_, known, among⟩
    exact Context.push_mem_upTo (depth_le_bound listed) (List.mem_map.mpr ⟨place, listed, rfl⟩)
      (Context.known_of_mem_upTo (possible _ before had))
  | copying callers =>
    obtain ⟨caller, _, had⟩ := Origin.mem_gather_copying.mp member
    exact possible caller context had

/-! ### Growing -/

/-- A family on its way up: it has a set for every method, every context it has would be gathered
again, and every context can occur. -/
structure Growing (origins : List Origin) (family : ContextFamily) : Prop where
  total : family.length = origins.length
  supported : ∀ m origin, origins[m]? = some origin → ∀ context ∈ family.contextsOf m,
    context ∈ origin.gather family
  possible : ∀ m, ∀ context ∈ family.contextsOf m, context ∈ allContexts origins

/-- The family with the contexts of a method gathered anew. -/
def regather (family : ContextFamily) (m : Nat) (origin : Origin) : ContextFamily :=
  family.set m (.ofList (origin.gather family))

theorem contextsOf_regather {family : ContextFamily} {m : Nat} (below : m < family.length)
    (origin : Origin) (n : Nat) :
    (family.regather m origin).contextsOf n =
      if m = n then .ofList (origin.gather family) else family.contextsOf n :=
  contextsOf_set below _ n

namespace Growing

variable {origins : List Origin} {family : ContextFamily} {m : Nat} {origin : Origin}

theorem lt_length (growing : Growing origins family) (found : origins[m]? = some origin) :
    m < family.length := by
  obtain ⟨below, _⟩ := List.getElem?_eq_some_iff.mp found
  rw [growing.total]
  exact below

theorem included_regather (growing : Growing origins family) (found : origins[m]? = some origin) :
    family.Included (family.regather m origin) := by
  intro n context member
  rw [contextsOf_regather (growing.lt_length found)]
  split
  · next same =>
    subst same
    exact SortedSet.mem_ofList.mpr (growing.supported m origin found context member)
  · exact member

theorem regather (growing : Growing origins family) (found : origins[m]? = some origin) :
    Growing origins (family.regather m origin) where
  total := by
    rw [ContextFamily.regather, List.length_set]
    exact growing.total
  supported := by
    intro n other atIndex context member
    refine Origin.gather_mono (growing.included_regather found) ?_
    rw [contextsOf_regather (growing.lt_length found)] at member
    split at member
    · next same =>
      subst same
      rw [found] at atIndex
      cases atIndex
      exact SortedSet.mem_ofList.mp member
    · exact growing.supported n other atIndex context member
  possible := by
    intro n context member
    rw [contextsOf_regather (growing.lt_length found)] at member
    split at member
    · exact gather_possible (List.mem_of_getElem? found) growing.possible
        (SortedSet.mem_ofList.mp member)
    · exact growing.possible n context member

/-- Gathering other contexts than before leaves fewer that can still come. -/
theorem unseen_regather (growing : Growing origins family) (weight : Nat → Nat)
    (found : origins[m]? = some origin)
    (changed : SortedSet.ofList (origin.gather family) ≠ family.contextsOf m) :
    unseen (weight ·.handle) (family.regather m origin).nodes (allNodes origins) + weight m ≤
      unseen (weight ·.handle) family.nodes (allNodes origins) := by
  have below := growing.lt_length found
  obtain ⟨context, gathered, fresh⟩ :
      ∃ context ∈ origin.gather family, context ∉ family.contextsOf m := by
    apply Classical.byContradiction
    intro none
    refine changed (SortedSet.ext fun context => ⟨fun member => ?_, fun member => ?_⟩)
    · apply Classical.byContradiction
      intro fresh
      exact none ⟨context, SortedSet.mem_ofList.mp member, fresh⟩
    · exact SortedSet.mem_ofList.mpr (growing.supported m origin found context member)
  refine unseen_add_le (weight ·.handle) (allNodes origins) (a := ⟨context, m⟩) ?_ ?_ ?_ ?_
  · intro node member
    exact mem_nodes.mpr (growing.included_regather found _ _ (mem_nodes.mp member))
  · refine InContext.mem_product.mpr ⟨?_, ?_⟩
    · exact gather_possible (List.mem_of_getElem? found) growing.possible gathered
    · exact List.mem_range.mpr (growing.total ▸ below)
  · exact fun member => fresh (mem_nodes.mp member)
  · rw [mem_nodes, contextsOf_regather below, if_pos rfl]
    exact SortedSet.mem_ofList.mpr gathered

end Growing

/-! ### The loop -/

/-- The methods that take up contexts of a method. -/
def dependents (origins : List Origin) (m : Nat) : List Nat :=
  origins.zipIdx.filterMap fun (origin, n) => if m ∈ origin.sources then some n else none

/-- Takes methods off the queue until it is empty. A method whose contexts change has the methods
that depend on it queued behind the others, unless they wait already. -/
def settle (origins : List Origin) (family : ContextFamily) (growing : Growing origins family)
    (queue : List Nat) : ContextFamily :=
  match queue with
  | [] => family
  | m :: rest =>
    match found : origins[m]? with
    | none => settle origins family growing rest
    | some origin =>
      if SortedSet.ofList (origin.gather family) = family.contextsOf m then
        settle origins family growing rest
      else
        settle origins (family.regather m origin) (growing.regather found)
          (rest ++ (dependents origins m).filter (· ∉ rest))
-- A context weighs as much as the method that gets it can add to the queue, and one more.
termination_by
  unseen (fun node => (dependents origins node.handle).length + 1) family.nodes
    (allNodes origins) + queue.length
decreasing_by
  · exact Nat.lt_succ_self _
  · exact Nat.lt_succ_self _
  · rename_i changed
    have lighter := growing.unseen_regather (fun m => (dependents origins m).length + 1)
      found changed
    have few := List.length_filter_le (· ∉ rest) (dependents origins m)
    simp only [List.length_append, List.length_cons] at *
    omega

/-- The empty context for the methods that have only that, and nothing yet for the others. -/
def initial (origins : List Origin) : ContextFamily :=
  origins.map fun origin => if origin = .start then .ofList [.epsilon] else .empty

theorem contextsOf_initial {origins : List Origin} {m : Nat} {context : Context} :
    context ∈ (initial origins).contextsOf m ↔
      origins[m]? = some .start ∧ context = .epsilon := by
  unfold contextsOf initial
  rw [List.getElem?_map]
  cases origins[m]? with
  | none => simp [SortedSet.empty, SortedSet.mem_def]
  | some origin =>
    rw [Option.map_some, Option.getD_some]
    split
    · next same => simp [same]
    · next other => simp [other, SortedSet.empty, SortedSet.mem_def]

theorem growing_initial (origins : List Origin) : Growing origins (initial origins) where
  total := List.length_map _
  supported := by
    intro m origin found context member
    obtain ⟨isStart, rfl⟩ := contextsOf_initial.mp member
    rw [found] at isStart
    cases isStart
    exact List.mem_singleton.mpr rfl
  possible := by
    intro m context member
    obtain ⟨_, rfl⟩ := contextsOf_initial.mp member
    refine Context.mem_upTo (Nat.zero_le _) ?_
    intro site none
    cases none

/-- The methods whose contexts are to be gathered. -/
def sensitive (origins : List Origin) : List Nat :=
  origins.zipIdx.filterMap fun (origin, m) => if origin = .start then none else some m

/-- The least family that has all contexts that are gathered from it. -/
def solve (origins : List Origin) : ContextFamily :=
  settle origins (initial origins) (growing_initial origins) (sensitive origins)

end ContextFamily

end ProgramAnalysis
