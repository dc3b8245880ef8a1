import ProgramAnalysis.Reachability
import ProgramAnalysis.SortedSet
import ProgramAnalysis.Table
import ProgramAnalysis.Trace.Event

/-!
Dynamic thread escape: replaying a trace to find the heap accesses whose object could be seen by
more than one thread.
-/

namespace ProgramAnalysis

open Trace

/-- A field or element of an object. -/
structure HeapCell where
  object : Int32
  index : Int32
  deriving DecidableEq, Repr

/-- What a replay has seen so far. Accesses and sites are indices below the given bounds. -/
structure Escape where
  accessBound : Nat
  siteBound : Nat
  escaping : List Int32 := []
  /-- Values of the fields and elements that are not null. -/
  heap : Table HeapCell Int32 := .empty
  allocation : Table Int32 Nat := .empty
  /-- Sites at which an escaping object was allocated. -/
  escapingSites : SortedSet Nat := .empty
  /-- Accesses that wait for the site of their object to escape. -/
  waiting : Table Nat (SortedSet Nat) := .empty
  visited : SortedSet Nat := .empty
  flowSensitive : SortedSet Nat := .empty
  flowInsensitive : SortedSet Nat := .empty

namespace Escape

/-! ### Escaping -/

/-- The objects that escape with an object: what its fields and elements hold, unless it is null or
has escaped before. -/
def follow (state : Escape) (object : Int32) : List Int32 :=
  if object = 0 ∨ object ∈ state.escaping then []
  else (state.heap.entries.filter (·.1.object = object)).map (·.2)

theorem confined_follow (state : Escape) (start : Int32) :
    Confined state.follow fun _ => start :: state.heap.values := by
  intro object _ next member
  unfold follow at member
  split at member
  · cases member
  · obtain ⟨entry, kept, rfl⟩ := List.mem_map.mp member
    exact List.mem_cons_of_mem start (List.mem_map.mpr ⟨entry, (List.mem_filter.mp kept).1, rfl⟩)

/-- What starts to escape if an object does. -/
def newlyEscaping (state : Escape) (object : Int32) : List Int32 :=
  (Reachability.closure state.follow (state.confined_follow object) [object]
    fun _ member => List.mem_singleton.mp member ▸ List.mem_cons_self).filter fun reached =>
      reached ≠ 0 ∧ reached ∉ state.escaping

/-- Lets a site escape, and the accesses that wait for it. -/
def releaseSite (state : Escape) (site : Nat) : Escape :=
  if site ∈ state.escapingSites then state
  else
    { state with
      escapingSites := state.escapingSites.insert site
      flowInsensitive :=
        state.flowInsensitive.insertAll ((state.waiting.get? site).getD .empty).toList
      waiting := state.waiting.erase site }

/-- Lets an object escape, and all that it leads to. -/
def markEscaping (state : Escape) (object : Int32) : Escape :=
  let fresh := state.newlyEscaping object
  let sites := fresh.filterMap state.allocation.get?
  sites.foldl releaseSite { state with escaping := fresh ++ state.escaping }

/-! ### Accesses -/

/-- The index of an access, if its word is one. -/
def accessIndex? (state : Escape) (access : Int32) : Option Nat :=
  if access < 0 then none
  else if access.toInt.toNat < state.accessBound then some access.toInt.toNat
  else none

/-- Notes that an access may escape once the site of its object does. -/
def await (state : Escape) (access site : Nat) : Escape :=
  if site ∈ state.escapingSites then
    { state with flowInsensitive := state.flowInsensitive.insert access }
  else
    { state with waiting := state.waiting.update site .empty (·.insert access) }

/-- Notes an access to an object: it escapes if the object has, or else with its site. -/
def visit (state : Escape) (access : Nat) (base : Int32) : Escape :=
  let seen := { state with
    visited := state.visited.insert access
    flowSensitive :=
      if base ∈ state.escaping then state.flowSensitive.insert access else state.flowSensitive }
  if access ∈ seen.flowInsensitive then seen
  else match seen.allocation.get? base with
    | some site => seen.await access site
    | none => seen

/-- An access that names an object and a known place in the program. -/
def heapAccess (state : Escape) (access base : Int32) : Escape :=
  match state.accessIndex? access with
  | some index => if base = 0 then state else state.visit index base
  | none => state

/-- Stores a value in a field or element, null emptying it. -/
def store (state : Escape) (cell : HeapCell) (value : Int32) : Escape :=
  if value = 0 then { state with heap := state.heap.erase cell }
  else
    let stored := { state with heap := state.heap.insert cell value }
    if cell.object ∈ stored.escaping then stored.markEscaping value else stored

/-- An access that also stores a value, if it names a field or element. -/
def heapWrite (state : Escape) (access base index value : Int32) : Escape :=
  let accessed := state.heapAccess access base
  if base = 0 ∨ index < 0 then accessed else accessed.store ⟨base, index⟩ value

/-- A new object: nothing is known of it but where it was allocated. -/
def allocate (state : Escape) (site object : Int32) : Escape :=
  if object = 0 then state
  else
    let forgotten := state.allocation.erase object
    { state with
      heap := ⟨state.heap.entries.filter (·.1.object ≠ object)⟩
      escaping := state.escaping.filter (· ≠ object)
      allocation :=
        if 0 ≤ site ∧ site.toInt.toNat < state.siteBound then
          forgotten.insert object site.toInt.toNat
        else forgotten }

/-! ### Replaying -/

/-- What an event changes. -/
def replay (state : Escape) : Event → Escape
  | .new site object | .newArray site object => state.allocate site object
  | .fieldRead access base _ | .arrayRead access base _ => state.heapAccess access base
  | .fieldWrite access base index value | .arrayWrite access base index value =>
    state.heapWrite access base index value
  | .staticWrite object | .threadStart object => state.markEscaping object
  | .acquireLock .. | .threadSpawn .. | .methodEnter .. | .methodLeave .. => state

end Escape

end ProgramAnalysis
