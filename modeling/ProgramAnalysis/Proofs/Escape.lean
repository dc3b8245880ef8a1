import Mathlib.Data.List.Induction
import Mathlib.Data.Set.Basic
import Mathlib.Logic.Relation
import ProgramAnalysis.Escape
import ProgramAnalysis.Proofs.Table

/-!
Following escaping objects one event at a time is the same as searching the whole heap after each
event. The heap after a trace, and what is reached in it from the objects shown to other threads,
make up a picture of the trace alone (`Picture`). A replay shows this picture (`Shows`), and each
event keeps it so: what escapes anew is what is reached from one object without passing through any
that has escaped before.
-/

namespace ProgramAnalysis

open Trace List Table Reachability

/-! ### What an event is about -/

namespace Trace.Event

/-- The object that an event allocates, unless it is null. -/
def allocated? : Event → Option Int32
  | .new _ object | .newArray _ object => if object = 0 then none else some object
  | _ => none

/-- The object that an event shows to other threads, unless it is null. -/
def shown? : Event → Option Int32
  | .staticWrite object | .threadStart object => if object = 0 then none else some object
  | _ => none

/-- The access that an event is, with its object, unless this is null. -/
def accessed? : Event → Option (Int32 × Int32)
  | .fieldRead access base _ | .arrayRead access base _ | .fieldWrite access base _ _
  | .arrayWrite access base _ _ => if base = 0 then none else some (access, base)
  | _ => none

/-- The cell that an event writes, with the value, unless the cell is not one. -/
def written? : Event → Option (HeapCell × Int32)
  | .fieldWrite _ base index value | .arrayWrite _ base index value =>
    if base = 0 ∨ index < 0 then none else some (⟨base, index⟩, value)
  | _ => none

end Trace.Event

/-! ### The picture of a trace -/

/-- What cells hold, and which objects have escaped. -/
structure Picture where
  heap : HeapCell → Option Int32
  escaped : Set Int32

namespace Picture

/-- One object holds another in some cell. -/
def Holds (heap : HeapCell → Option Int32) (holder held : Int32) : Prop :=
  ∃ index, heap ⟨holder, index⟩ = some held

def empty : Picture := ⟨fun _ => none, ∅⟩

/-- The cells after an event: those of an allocated object are empty, and one that is written holds
the value, if this is not null. -/
def heapAfter (picture : Picture) (event : Event) (cell : HeapCell) : Option Int32 :=
  if event.allocated? = some cell.object then none
  else match event.written? with
    | some (target, value) =>
      if target = cell then (if value = 0 then none else some value) else picture.heap cell
    | none => picture.heap cell

/-- Where the search for escaped objects starts after an event. -/
def roots (picture : Picture) (event : Event) : Set Int32 :=
  {root | root ∈ picture.escaped ∧ event.allocated? ≠ some root ∨ event.shown? = some root}

/-- What an event changes. -/
def after (picture : Picture) (event : Event) : Picture where
  heap := picture.heapAfter event
  escaped := {object | ∃ root ∈ picture.roots event,
    Relation.ReflTransGen (Holds (picture.heapAfter event)) root object}

/-- The picture of a trace, each event taken into account in turn. -/
def of (events : List Event) : Picture := events.foldl after empty

theorem of_concat (events : List Event) (event : Event) :
    of (events ++ [event]) = (of events).after event := by
  rw [of, foldl_append]
  rfl

/-- Escaped objects hold only escaped objects. -/
def Closed (picture : Picture) : Prop :=
  ∀ holder ∈ picture.escaped, ∀ held, Holds picture.heap holder held → held ∈ picture.escaped

/-- No cell holds null. -/
def Solid (picture : Picture) : Prop := ∀ cell, picture.heap cell ≠ some 0

theorem closed_after (picture : Picture) (event : Event) : (picture.after event).Closed := by
  rintro holder ⟨root, start, walk⟩ held holds
  exact ⟨root, start, walk.tail holds⟩

theorem Solid.after {picture : Picture} (solid : picture.Solid) (event : Event) :
    (picture.after event).Solid := by
  intro cell
  show picture.heapAfter event cell ≠ some 0
  unfold heapAfter
  split
  · exact nofun
  · split
    · split
      · split
        · exact nofun
        · next real => exact fun null => real (Option.some.inj null)
      · exact solid cell
    · exact solid cell

theorem closed_of (events : List Event) : (of events).Closed := by
  cases events using List.reverseRecOn with
  | nil => exact fun _ none => none.elim
  | append_singleton earlier event =>
    rw [of_concat]
    exact closed_after _ event

theorem solid_of (events : List Event) : (of events).Solid := by
  induction events using List.reverseRecOn with
  | nil => exact fun _ => nofun
  | append_singleton earlier event ih =>
    rw [of_concat]
    exact ih.after event

/-- A closed set that has the roots, and only what they lead to, is the set of escaped objects. -/
theorem eq_escaped_after {picture : Picture} (objects : Set Int32)
    (starts : picture.roots event ⊆ objects)
    (closed : ∀ holder ∈ objects, ∀ held,
      Holds (picture.heapAfter event) holder held → held ∈ objects)
    (reached : ∀ object ∈ objects, object ∈ (picture.after event).escaped) :
    objects = (picture.after event).escaped := by
  refine Set.Subset.antisymm reached ?_
  rintro object ⟨root, start, walk⟩
  induction walk with
  | refl => exact starts start
  | tail _ holds ih => exact closed _ ih _ holds

/-- An event without effect on objects leaves the picture as it is. -/
theorem after_of_quiet {picture : Picture} (closed : picture.Closed) {event : Event}
    (unallocated : event.allocated? = none) (unshown : event.shown? = none)
    (unwritten : event.written? = none) : picture.after event = picture := by
  have sameHeap : picture.heapAfter event = picture.heap := by
    funext cell
    simp [heapAfter, unallocated, unwritten]
  have sameRoots : picture.roots event = picture.escaped := by
    ext root
    simp [roots, unallocated, unshown]
  have sameEscaped : picture.escaped = (picture.after event).escaped := by
    refine eq_escaped_after _ sameRoots.le ?_ ?_
    · rw [sameHeap]
      exact closed
    · exact fun object escaped => ⟨object, sameRoots.ge escaped, .refl⟩
  obtain ⟨heap, escaped⟩ := picture
  exact congrArg₂ Picture.mk sameHeap sameEscaped.symm

end Picture

/-- Whenever an object is allocated, no cell of another object holds it. -/
def Admissible (events : List Event) : Prop :=
  ∀ earlier event object, earlier ++ [event] <+: events → event.allocated? = some object →
    ∀ cell, (Picture.of earlier).heap cell = some object → cell.object = object

/-- An access with some index is made to an object that has escaped before. -/
def Exposed (events : List Event) (index : Nat) : Prop :=
  ∃ (earlier : List Event) (event : Event) (access base : Int32),
    earlier ++ [event] <+: events ∧ event.accessed? = some (access, base) ∧
      access.toInt = index ∧ base ∈ (Picture.of earlier).escaped

variable {events : List Event}

theorem Admissible.of_prefix (admissible : Admissible events) (start : seen <+: events) :
    Admissible seen :=
  fun earlier event object inside => admissible earlier event object (inside.trans start)

theorem concat_prefix_concat : earlier ++ [other] <+: events ++ [event] ↔
      earlier = events ∧ other = event ∨ earlier ++ [other] <+: events := by
  rw [prefix_concat_iff, ← concat_eq_append, ← concat_eq_append, concat_inj]

theorem admissible_nil : Admissible [] := by
  intro earlier event object inside
  simp at inside

theorem admissible_concat : Admissible (events ++ [event]) ↔ Admissible events ∧
      ∀ object, event.allocated? = some object →
        ∀ cell, (Picture.of events).heap cell = some object → cell.object = object := by
  constructor
  · intro admissible
    exact ⟨admissible.of_prefix (prefix_append _ _),
      fun object => admissible events event object prefix_rfl⟩
  · rintro ⟨admissible, last⟩ earlier other object inside
    rcases concat_prefix_concat.mp inside with ⟨rfl, rfl⟩ | inside
    · exact last object
    · exact admissible earlier other object inside

variable {index : Nat}

/-- In a trace with one more event, an access under some condition is an earlier one or the
event. -/
theorem exists_access_concat (condition : List Event → Int32 → Prop) :
    (∃ (earlier : List Event) (other : Event) (access base : Int32),
        earlier ++ [other] <+: events ++ [event] ∧ other.accessed? = some (access, base) ∧
          access.toInt = index ∧ condition earlier base) ↔
      (∃ (earlier : List Event) (other : Event) (access base : Int32),
        earlier ++ [other] <+: events ∧ other.accessed? = some (access, base) ∧
          access.toInt = index ∧ condition earlier base) ∨
      ∃ access base : Int32, event.accessed? = some (access, base) ∧ access.toInt = index ∧
        condition events base := by
  constructor
  · rintro ⟨earlier, other, access, base, inside, rest⟩
    rcases concat_prefix_concat.mp inside with ⟨rfl, rfl⟩ | inside
    · exact .inr ⟨access, base, rest⟩
    · exact .inl ⟨earlier, other, access, base, inside, rest⟩
  · rintro (⟨earlier, other, access, base, inside, rest⟩ | ⟨access, base, rest⟩)
    · exact ⟨earlier, other, access, base, inside.trans (prefix_append _ _), rest⟩
    · exact ⟨events, event, access, base, prefix_rfl, rest⟩

theorem exposed_concat : Exposed (events ++ [event]) index ↔ Exposed events index ∨
      ∃ access base : Int32, event.accessed? = some (access, base) ∧ access.toInt = index ∧
        base ∈ (Picture.of events).escaped :=
  exists_access_concat fun earlier base => base ∈ (Picture.of earlier).escaped

namespace Escape

variable {state : Escape} {picture : Picture} {heap : HeapCell → Option Int32}

/-! ### What sites and accesses leave alone -/

/-- The two states have noted the same accesses, as far as these do not wait for sites. -/
structure SameAccesses (before after : Escape) : Prop where
  bound : after.accessBound = before.accessBound
  visited : after.visited = before.visited
  flowSensitive : after.flowSensitive = before.flowSensitive

/-- The two states know the same of objects and of accesses to them. -/
structure SameObjects (before after : Escape) : Prop extends SameAccesses before after where
  heap : after.heap = before.heap
  escaping : after.escaping = before.escaping

theorem SameObjects.refl (state : Escape) : SameObjects state state := ⟨⟨rfl, rfl, rfl⟩, rfl, rfl⟩

theorem SameObjects.trans (one : SameObjects first second) (two : SameObjects second third) :
    SameObjects first third :=
  ⟨⟨two.bound.trans one.bound, two.visited.trans one.visited,
    two.flowSensitive.trans one.flowSensitive⟩, two.heap.trans one.heap,
    two.escaping.trans one.escaping⟩

theorem sameObjects_releaseSite (state : Escape) (site : Nat) :
    SameObjects state (state.releaseSite site) := by
  unfold releaseSite
  split
  · exact .refl state
  · exact ⟨⟨rfl, rfl, rfl⟩, rfl, rfl⟩

theorem sameObjects_releaseSites (sites : List Nat) (state : Escape) :
    SameObjects state (sites.foldl releaseSite state) := by
  induction sites generalizing state with
  | nil => exact .refl state
  | cons site rest ih =>
    exact (sameObjects_releaseSite state site).trans (ih _)

theorem sameObjects_await (state : Escape) (access site : Nat) :
    SameObjects state (state.await access site) := by
  unfold await
  split <;> exact ⟨⟨rfl, rfl, rfl⟩, rfl, rfl⟩

theorem sameObjects_visit (state : Escape) (access : Nat) (base : Int32) : SameObjects
      { state with
        visited := state.visited.insert access
        flowSensitive := if base ∈ state.escaping then state.flowSensitive.insert access
          else state.flowSensitive }
      (state.visit access base) := by
  unfold visit
  extract_lets seen
  change SameObjects seen _
  split
  · exact .refl seen
  · split
    · exact sameObjects_await seen access _
    · exact .refl seen

theorem sameObjects_markEscaping (state : Escape) (object : Int32) :
    SameObjects { state with escaping := state.newlyEscaping object ++ state.escaping }
      (state.markEscaping object) := sameObjects_releaseSites _ _

/-! ### Accesses to escaped objects -/

theorem accessIndex?_eq_some : state.accessIndex? access = some index ↔
      access.toInt = index ∧ index < state.accessBound := by
  unfold accessIndex?
  simp only [Int32.lt_iff_toInt_lt, Int32.toInt_zero]
  split
  · next negative =>
    simp only [reduceCtorEq, false_iff, not_and]
    omega
  · split
    · next nonnegative below =>
      rw [Option.some.injEq]
      omega
    · next nonnegative past =>
      simp only [reduceCtorEq, false_iff, not_and]
      omega

/-- An access with an index is made to an object, which is not null. -/
def Makes (state : Escape) (access base : Int32) (index : Nat) : Prop :=
  index < state.accessBound ∧ base ≠ 0 ∧ access.toInt = index

theorem heapAccess_cases (state : Escape) (access base : Int32) :
    (state.heapAccess access base = state ∧ ∀ index, ¬ state.Makes access base index) ∨
      ∃ number, state.heapAccess access base = state.visit number base ∧ base ≠ 0 ∧
        number < state.accessBound ∧ ∀ index, state.Makes access base index ↔ index = number := by
  unfold heapAccess
  split
  · next number place =>
    obtain ⟨named, below⟩ := accessIndex?_eq_some.mp place
    split
    · next null => exact .inl ⟨rfl, fun _ among => among.2.1 null⟩
    · next real =>
      refine .inr ⟨number, rfl, real, below, fun index => ?_⟩
      rw [Makes, and_iff_right real]
      omega
  · next place =>
    refine .inl ⟨rfl, fun index among => ?_⟩
    rw [accessIndex?_eq_some.mpr ⟨among.2.2, among.1⟩] at place
    cases place

theorem heapAccess_frame (state : Escape) (access base : Int32) :
    (state.heapAccess access base).accessBound = state.accessBound ∧
      (state.heapAccess access base).heap = state.heap ∧
      (state.heapAccess access base).escaping = state.escaping := by
  rcases heapAccess_cases state access base with ⟨same, _⟩ | ⟨number, visits, _⟩
  · rw [same]
    exact ⟨rfl, rfl, rfl⟩
  · have same := sameObjects_visit state number base
    rw [visits]
    exact ⟨same.bound, same.heap, same.escaping⟩

theorem mem_visited_heapAccess : index ∈ (state.heapAccess access base).visited ↔
    index ∈ state.visited ∨ state.Makes access base index := by
  rcases heapAccess_cases state access base with ⟨same, nowhere⟩ | ⟨number, visits, _, _, only⟩
  · rw [same, or_iff_left (nowhere index)]
  · rw [visits, (sameObjects_visit state number base).visited, SortedSet.mem_insert, only, or_comm]

theorem mem_flowSensitive_heapAccess : index ∈ (state.heapAccess access base).flowSensitive ↔
    index ∈ state.flowSensitive ∨ state.Makes access base index ∧ base ∈ state.escaping := by
  rcases heapAccess_cases state access base with ⟨same, nowhere⟩ | ⟨number, visits, _, _, only⟩
  · rw [same, or_iff_left (nowhere index ·.1)]
  · rw [visits, (sameObjects_visit state number base).flowSensitive, only]
    show index ∈ (if base ∈ state.escaping then _ else _ : SortedSet Nat) ↔ _
    split
    · next escaped => rw [SortedSet.mem_insert, and_iff_left escaped, or_comm]
    · next hidden => rw [or_iff_left (hidden ·.2)]

theorem store_of_ne (state : Escape) (cell : HeapCell) (real : value ≠ 0) : state.store cell value =
      if cell.object ∈ state.escaping then
        ({ state with heap := state.heap.insert cell value } : Escape).markEscaping value
      else { state with heap := state.heap.insert cell value } := if_neg real

theorem sameAccesses_store (state : Escape) (cell : HeapCell) (value : Int32) :
    SameAccesses state (state.store cell value) := by
  by_cases null : value = 0
  · rw [store, if_pos null]
    exact ⟨rfl, rfl, rfl⟩
  · rw [store_of_ne state cell null]
    split
    · exact { (sameObjects_markEscaping _ value).toSameAccesses with }
    · exact ⟨rfl, rfl, rfl⟩

/-- The state once the access that an event is has been noted. -/
def withAccess (state : Escape) (event : Event) : Escape :=
  match event.accessed? with
  | some (access, base) => state.heapAccess access base
  | none => state

theorem withAccess_eq (isAccess : event.accessed? = if base = 0 then none
      else some (access, base)) :
    state.withAccess event = state.heapAccess access base := by
  rw [withAccess, isAccess]
  by_cases null : base = 0
  · rw [if_pos null]
    rcases heapAccess_cases state access base with ⟨same, _⟩ | ⟨_, _, real, _⟩
    · exact same.symm
    · exact absurd null real
  · rw [if_neg null]

/-- Noting its access is all that an event does about accesses. -/
theorem sameAccesses_replay (state : Escape) (event : Event) :
    SameAccesses (state.withAccess event) (state.replay event) := by
  cases event with
  | new site object | newArray site object =>
    rw [replay, allocate]
    split <;> exact ⟨rfl, rfl, rfl⟩
  | fieldRead access base _ | arrayRead access base _ =>
    rw [withAccess_eq rfl]
    exact ⟨rfl, rfl, rfl⟩
  | fieldWrite access base index value | arrayWrite access base index value =>
    rw [withAccess_eq rfl, replay, heapWrite]
    split
    · exact ⟨rfl, rfl, rfl⟩
    · exact sameAccesses_store _ _ value
  | staticWrite object | threadStart object =>
    exact { (sameObjects_markEscaping state object).toSameAccesses with }
  | acquireLock | threadSpawn | methodEnter | methodLeave => exact ⟨rfl, rfl, rfl⟩

theorem accessBound_replay (state : Escape) (event : Event) :
    (state.replay event).accessBound = state.accessBound := by
  rw [(sameAccesses_replay state event).bound, withAccess]
  split
  · exact (heapAccess_frame state _ _).1
  · rfl

theorem makes_iff {event : Event} (isAccess : event.accessed? = some (access, base)) :
    state.Makes access base index ↔ index < state.accessBound ∧ access.toInt = index := by
  have real : base ≠ 0 := by
    unfold Event.accessed? at isAccess
    grind
  simp [Makes, real]

theorem mem_visited_replay : index ∈ (state.replay event).visited ↔ index ∈ state.visited ∨
      index < state.accessBound ∧ ∃ access base : Int32, event.accessed? = some (access, base) ∧
        access.toInt = index := by
  rw [(sameAccesses_replay state event).visited, withAccess]
  split
  · next isAccess => simp [mem_visited_heapAccess, makes_iff isAccess, isAccess]
  · next none => simp [none]

theorem mem_flowSensitive_replay :
    index ∈ (state.replay event).flowSensitive ↔ index ∈ state.flowSensitive ∨
      index < state.accessBound ∧ ∃ access base : Int32, event.accessed? = some (access, base) ∧
        access.toInt = index ∧ base ∈ state.escaping := by
  rw [(sameAccesses_replay state event).flowSensitive, withAccess]
  split
  · next isAccess => simp [mem_flowSensitive_heapAccess, makes_iff isAccess, isAccess, and_assoc]
  · next none => simp [none]

/-! ### Searching on from one object -/

variable {object : Int32}

section Searching

variable (distinct : state.heap.keys.Nodup) (shown : ∀ cell, state.heap.get? cell = heap cell)
include distinct shown

theorem mem_follow : held ∈ state.follow holder ↔
    holder ≠ 0 ∧ holder ∉ state.escaping ∧ Picture.Holds heap holder held := by
  unfold follow
  split
  · next blocked =>
    simp only [not_mem_nil, false_iff]
    rintro ⟨real, hidden, _⟩
    exact blocked.elim real hidden
  · next passing =>
    obtain ⟨real, hidden⟩ := not_or.mp passing
    simp only [mem_map, mem_filter, decide_eq_true_eq, ne_eq, real, not_false_eq_true,
      hidden, true_and]
    constructor
    · rintro ⟨⟨⟨_, index⟩, _⟩, ⟨mem, rfl⟩, rfl⟩
      exact ⟨index, by rw [← shown, ← mem_entries_iff distinct]; exact mem⟩
    · rintro ⟨index, found⟩
      rw [← shown, ← mem_entries_iff distinct] at found
      exact ⟨_, ⟨found, rfl⟩, rfl⟩

theorem reflTransGen_of_reachable (walk : Reachable state.follow [object] reached) :
    Relation.ReflTransGen (Picture.Holds heap) object reached := by
  induction walk with
  | start mem => rw [mem_singleton.mp mem]
  | step _ successor ih =>
    exact ih.tail ((mem_follow distinct shown).mp successor).2.2

/-- The search finds all that an object leads to, although it stops at objects that have escaped
before: what those hold has escaped as well, or is the object itself. -/
theorem reachable_of_reflTransGen (solid : ∀ cell, heap cell ≠ some 0) (real : object ≠ 0)
    (nearlyClosed : ∀ holder ∈ state.escaping, ∀ held, Picture.Holds heap holder held →
      held ∈ state.escaping ∨ held = object)
    (walk : Relation.ReflTransGen (Picture.Holds heap) object reached) :
    reached ≠ 0 ∧ (reached ∈ state.escaping ∨ Reachable state.follow [object] reached) := by
  have first : Reachable state.follow [object] object := .start mem_cons_self
  induction walk with
  | refl => exact ⟨real, .inr first⟩
  | @tail holder held _ holds ih =>
    obtain ⟨realHolder, known⟩ := ih
    refine ⟨?_, ?_⟩
    · rintro rfl
      obtain ⟨index, stored⟩ := holds
      exact solid _ stored
    · by_cases escaped : holder ∈ state.escaping
      · rcases nearlyClosed holder escaped held holds with old | rfl
        · exact .inl old
        · exact .inr first
      · have walked := known.resolve_left escaped
        exact .inr (.step walked ((mem_follow distinct shown).mpr ⟨realHolder, escaped, holds⟩))

/-- Letting an object escape adds exactly what it leads to. -/
theorem mem_markEscaping (solid : ∀ cell, heap cell ≠ some 0) (real : object ≠ 0)
    (nearlyClosed : ∀ holder ∈ state.escaping, ∀ held, Picture.Holds heap holder held →
      held ∈ state.escaping ∨ held = object) :
    reached ∈ (state.markEscaping object).escaping ↔
      reached ∈ state.escaping ∨ Relation.ReflTransGen (Picture.Holds heap) object reached := by
  rw [(sameObjects_markEscaping state object).escaping, mem_append, newlyEscaping,
    mem_filter, mem_closure, decide_eq_true_eq]
  constructor
  · rintro (⟨walk, _⟩ | old)
    · exact .inr (reflTransGen_of_reachable distinct shown walk)
    · exact .inl old
  · rintro (old | walk)
    · exact .inr old
    · obtain ⟨realReached, found⟩ :=
        reachable_of_reflTransGen distinct shown solid real nearlyClosed walk
      by_cases old : reached ∈ state.escaping
      · exact .inr old
      · exact .inl ⟨found.resolve_left old, realReached, old⟩

end Searching

theorem markEscaping_null (state : Escape) : state.markEscaping 0 = state := by
  have onlyNull {object : Int32} (walk : Reachable state.follow [0] object) : object = 0 := by
    induction walk with
    | start mem => exact mem_singleton.mp mem
    | step _ successor ih =>
      rw [ih, follow, if_pos (.inl rfl)] at successor
      cases successor
  have nothing : state.newlyEscaping 0 = [] := by
    rw [newlyEscaping, filter_eq_nil_iff]
    intro object mem
    rw [onlyNull ((mem_closure _ _ _ _).mp mem)]
    simp
  rw [markEscaping, nothing]
  rfl

/-! ### One event -/

/-- A state shows what a picture says of objects. -/
structure Shows (state : Escape) (picture : Picture) : Prop where
  distinct : state.heap.keys.Nodup
  heap : ∀ cell, state.heap.get? cell = picture.heap cell
  escaping : ∀ object, object ∈ state.escaping ↔ object ∈ picture.escaped

theorem Shows.congr {other : Escape} (shows : state.Shows picture)
    (sameHeap : other.heap = state.heap) (sameEscaping : other.escaping = state.escaping) :
    other.Shows picture :=
  ⟨sameHeap ▸ shows.distinct, sameHeap ▸ shows.heap, sameEscaping ▸ shows.escaping⟩

/-- A state shows the picture after an event if its cells are those of the picture and its escaping
objects are a closed set, with the roots and only what they lead to. -/
theorem shows_after (distinct : state.heap.keys.Nodup)
    (heap : ∀ cell, state.heap.get? cell = picture.heapAfter event cell)
    (starts : ∀ root ∈ picture.roots event, root ∈ state.escaping)
    (closed : ∀ holder ∈ state.escaping, ∀ held,
      Picture.Holds (picture.heapAfter event) holder held → held ∈ state.escaping)
    (reached : ∀ object ∈ state.escaping, object ∈ (picture.after event).escaped) :
    state.Shows (picture.after event) :=
  have same := Picture.eq_escaped_after {object | object ∈ state.escaping} starts closed reached
  ⟨distinct, heap, Set.ext_iff.mp same⟩

/-- Letting an object escape once the cells are up to date. The other roots are what had escaped,
and of what those hold only the object may be missing. -/
theorem shows_markEscaping (solid : picture.Solid) (distinct : state.heap.keys.Nodup)
    (heap : ∀ cell, state.heap.get? cell = picture.heapAfter event cell) (real : object ≠ 0)
    (nearlyClosed : ∀ holder ∈ state.escaping, ∀ held,
      Picture.Holds (picture.heapAfter event) holder held → held ∈ state.escaping ∨ held = object)
    (starts : ∀ root ∈ picture.roots event, root ∈ state.escaping ∨ root = object)
    (old : ∀ root ∈ state.escaping, root ∈ picture.roots event)
    (reached : object ∈ (picture.after event).escaped) :
    (state.markEscaping object).Shows (picture.after event) := by
  have sameHeap := (sameObjects_markEscaping state object).heap
  have marked (x : Int32) : x ∈ (state.markEscaping object).escaping ↔ x ∈ state.escaping ∨
      Relation.ReflTransGen (Picture.Holds (picture.heapAfter event)) object x :=
    mem_markEscaping distinct heap (solid.after event) real nearlyClosed
  refine shows_after (sameHeap ▸ distinct) (sameHeap ▸ heap) ?_ ?_ ?_
  · intro root start
    rw [marked]
    rcases starts root start with escaped | rfl
    · exact .inl escaped
    · exact .inr .refl
  · intro holder escaped held holds
    rw [marked] at escaped ⊢
    rcases escaped with before | walk
    · rcases nearlyClosed holder before held holds with escaped | rfl
      · exact .inl escaped
      · exact .inr .refl
    · exact .inr (walk.tail holds)
  · intro x escaped
    rcases (marked x).mp escaped with before | walk
    · exact ⟨x, old x before, .refl⟩
    · obtain ⟨root, start, path⟩ := reached
      exact ⟨root, start, path.trans walk⟩

namespace Shows

variable (shows : state.Shows picture) (closed : picture.Closed)
include shows closed

theorem allocate (real : object ≠ 0) (allocated : event.allocated? = some object)
    (unshown : event.shown? = none) (unwritten : event.written? = none)
    (unheld : ∀ cell, picture.heap cell = some object → cell.object = object) :
    (state.allocate site object).Shows (picture.after event) := by
  have heapAfter (cell : HeapCell) : picture.heapAfter event cell =
      if cell.object = object then none else picture.heap cell := by
    simp only [Picture.heapAfter, allocated, unwritten, Option.some.injEq, eq_comm]
  have root_iff (root : Int32) : root ∈ picture.roots event ↔
      root ∈ picture.escaped ∧ root ≠ object := by
    simp [Picture.roots, allocated, unshown, eq_comm]
  have escaping_iff (x : Int32) : x ∈ state.escaping.filter (· ≠ object) ↔
      x ∈ picture.escaped ∧ x ≠ object := by
    rw [mem_filter, shows.escaping, decide_eq_true_eq]
  rw [Escape.allocate, if_neg real]
  refine shows_after (nodup_keys_filter shows.distinct _) ?_ ?_ ?_ ?_
  · intro cell
    rw [heapAfter, ← shows.heap]
    have kept := get?_filter (fun cell => decide (cell.object ≠ object)) cell state.heap
    simpa only [decide_eq_true_eq, ne_eq, ite_not] using kept
  · exact fun root start => (escaping_iff root).mpr ((root_iff root).mp start)
  · intro holder escaped held holds
    obtain ⟨index, stored⟩ := holds
    obtain ⟨before, other⟩ := (escaping_iff holder).mp escaped
    rw [heapAfter, if_neg other] at stored
    refine (escaping_iff held).mpr ⟨closed holder before held ⟨index, stored⟩, ?_⟩
    rintro rfl
    exact other (unheld _ stored)
  · exact fun x escaped => ⟨x, (root_iff x).mpr ((escaping_iff x).mp escaped), .refl⟩

theorem store (solid : picture.Solid) (written : event.written? = some (cell, value))
    (unallocated : event.allocated? = none) (unshown : event.shown? = none) :
    (state.store cell value).Shows (picture.after event) := by
  have heapAfter (other : HeapCell) : picture.heapAfter event other =
      if cell = other then (if value = 0 then none else some value) else picture.heap other := by
    simp [Picture.heapAfter, unallocated, written]
  have root_iff (root : Int32) : root ∈ picture.roots event ↔ root ∈ state.escaping := by
    simp [Picture.roots, unallocated, unshown, shows.escaping]
  have holds_iff {holder held : Int32}
      (holds : Picture.Holds (picture.heapAfter event) holder held) :
      Picture.Holds picture.heap holder held ∨ value ≠ 0 ∧ cell.object = holder ∧ held = value := by
    obtain ⟨index, stored⟩ := holds
    rw [heapAfter] at stored
    split at stored
    · next here =>
      split at stored
      · cases stored
      · next real => exact .inr ⟨real, congrArg HeapCell.object here, (Option.some.inj stored).symm⟩
    · exact .inl ⟨index, stored⟩
  have closedBefore {holder held : Int32} (escaped : holder ∈ state.escaping)
      (holds : Picture.Holds picture.heap holder held) : held ∈ state.escaping :=
    (shows.escaping held).mpr (closed holder ((shows.escaping holder).mp escaped) held holds)
  have starts (root : Int32) (start : root ∈ picture.roots event) : root ∈ state.escaping :=
    (root_iff root).mp start
  have reached (x : Int32) (escaped : x ∈ state.escaping) : x ∈ (picture.after event).escaped :=
    ⟨x, (root_iff x).mpr escaped, .refl⟩
  by_cases null : value = 0
  · rw [Escape.store, if_pos null]
    refine shows_after (nodup_keys_erase shows.distinct) ?_ starts ?_ reached
    · intro other
      rw [heapAfter, if_pos null, ← shows.heap]
      exact get?_erase cell other state.heap
    · intro holder escaped held holds
      rcases holds_iff holds with old | ⟨real, _⟩
      · exact closedBefore escaped old
      · exact absurd null real
  · have heap (other : HeapCell) :
        (state.heap.insert cell value).get? other = picture.heapAfter event other := by
      rw [heapAfter, if_neg null, ← shows.heap]
      exact get?_insert cell other value state.heap
    rw [store_of_ne state cell null]
    split
    · next escaped =>
      -- Only the value that was stored can be missing from what escaped objects hold.
      refine shows_markEscaping solid (nodup_keys_insert shows.distinct) heap null ?_
        (fun root start => .inl (starts root start)) (fun root => (root_iff root).mpr) ?_
      · intro holder escaped held holds
        rcases holds_iff holds with old | ⟨_, _, same⟩
        · exact .inl (closedBefore escaped old)
        · exact .inr same
      · refine ⟨cell.object, (root_iff _).mpr escaped, .single ⟨cell.index, ?_⟩⟩
        rw [heapAfter, if_pos rfl, if_neg null]
    · next hidden =>
      refine shows_after (nodup_keys_insert shows.distinct) heap starts ?_ reached
      intro holder escaped held holds
      rcases holds_iff holds with old | ⟨_, rfl, _⟩
      · exact closedBefore escaped old
      · exact absurd escaped hidden

theorem markEscaping (solid : picture.Solid) (real : object ≠ 0)
    (isShown : event.shown? = some object) (unallocated : event.allocated? = none)
    (unwritten : event.written? = none) :
    (state.markEscaping object).Shows (picture.after event) := by
  have heapAfter : picture.heapAfter event = picture.heap := by
    funext cell
    simp [Picture.heapAfter, unallocated, unwritten]
  have root_iff (root : Int32) : root ∈ picture.roots event ↔
      root ∈ state.escaping ∨ root = object := by
    simp [Picture.roots, unallocated, isShown, shows.escaping, eq_comm]
  refine shows_markEscaping solid shows.distinct (heapAfter ▸ shows.heap) real ?_
    (fun root => (root_iff root).mp) (fun root escaped => (root_iff root).mpr (.inl escaped))
    ⟨object, (root_iff object).mpr (.inr rfl), .refl⟩
  intro holder escaped held holds
  rw [heapAfter] at holds
  exact .inl ((shows.escaping held).mpr
    (closed holder ((shows.escaping holder).mp escaped) held holds))

/-- One step: replaying an event shows the picture after it. -/
theorem replay (solid : picture.Solid) (unheld : ∀ object, event.allocated? = some object →
      ∀ cell, picture.heap cell = some object → cell.object = object) :
    (state.replay event).Shows (picture.after event) := by
  have quiet (unallocated : event.allocated? = none) (unshown : event.shown? = none)
      (unwritten : event.written? = none) : state.Shows (picture.after event) := by
    rw [Picture.after_of_quiet closed unallocated unshown unwritten]
    exact shows
  have accessing {picture : Picture} (access base : Int32) (shows : state.Shows picture) :
      (state.heapAccess access base).Shows picture :=
    shows.congr (heapAccess_frame state access base).2.1 (heapAccess_frame state access base).2.2
  cases event with
  | new site object | newArray site object =>
    by_cases null : object = 0
    · rw [Escape.replay, Escape.allocate, if_pos null]
      exact quiet (if_pos null) rfl rfl
    · exact shows.allocate closed null (if_neg null) rfl rfl (unheld object (if_neg null))
  | fieldRead access base _ | arrayRead access base _ =>
    exact accessing access base (quiet rfl rfl rfl)
  | fieldWrite access base index value | arrayWrite access base index value =>
    rw [Escape.replay, heapWrite]
    split
    · next nowhere =>
      exact accessing access base (quiet rfl rfl (if_pos nowhere))
    · next somewhere =>
      exact (accessing access base shows).store closed solid (if_neg somewhere) rfl rfl
  | staticWrite object | threadStart object =>
    by_cases null : object = 0
    · subst null
      rw [Escape.replay, markEscaping_null]
      exact quiet rfl rfl rfl
    · exact shows.markEscaping closed solid null (if_neg null) rfl rfl
  | acquireLock | threadSpawn | methodEnter | methodLeave => exact quiet rfl rfl rfl

end Shows

/-! ### Whole traces -/

theorem foldl_replay_concat (state : Escape) (events : List Event) (event : Event) :
    (events ++ [event]).foldl replay state = (events.foldl replay state).replay event := by
  rw [foldl_append]
  rfl

variable {accessBound siteBound : Nat}

theorem shows_replay (admissible : Admissible events) :
    Shows (events.foldl replay { accessBound, siteBound }) (Picture.of events) := by
  induction events using List.reverseRecOn with
  | nil => exact ⟨.nil, fun _ => rfl, fun _ => ⟨nofun, nofun⟩⟩
  | append_singleton earlier event ih =>
    obtain ⟨before, unheld⟩ := admissible_concat.mp admissible
    rw [foldl_replay_concat, Picture.of_concat]
    exact (ih before).replay (Picture.closed_of earlier) (Picture.solid_of earlier) unheld

theorem accessBound_foldl_replay (state : Escape) (events : List Event) :
    (events.foldl replay state).accessBound = state.accessBound := by
  induction events generalizing state with
  | nil => rfl
  | cons event rest ih =>
    exact (ih _).trans (accessBound_replay state event)

theorem mem_flowSensitive_foldl_replay (admissible : Admissible events) :
    index ∈ (events.foldl replay { accessBound, siteBound }).flowSensitive ↔
      index < accessBound ∧ Exposed events index := by
  induction events using List.reverseRecOn with
  | nil =>
    constructor
    · exact nofun
    · rintro ⟨_, earlier, event, _, _, inside, _⟩
      simp at inside
  | append_singleton earlier event ih =>
    obtain ⟨before, _⟩ := admissible_concat.mp admissible
    rw [foldl_replay_concat, mem_flowSensitive_replay, ih before,
      accessBound_foldl_replay, exposed_concat]
    simp only [(shows_replay before).escaping, and_or_left]

/-- After every part of a trace in which no allocated object is still held by another, an object is
escaping exactly if the search from scratch finds it, and an access escapes flow-sensitively exactly
if it was made to an object that had escaped before. -/
theorem replay_pictures (accessBound siteBound : Nat) (events : List Event)
    (admissible : Admissible events) (seen : List Event) (start : seen <+: events) :
    let state := seen.foldl replay { accessBound, siteBound }
    (∀ object, object ∈ state.escaping ↔ object ∈ (Picture.of seen).escaped) ∧
      ∀ index, index ∈ state.flowSensitive ↔ index < accessBound ∧ Exposed seen index :=
  ⟨(shows_replay (admissible.of_prefix start)).escaping,
    fun _ => mem_flowSensitive_foldl_replay (admissible.of_prefix start)⟩

/-- An object escapes with its holder, is allocated again while nothing holds it, and escapes once
more when the old holder stores it. Its access in between is not exposed. -/
theorem replay_pictures_reallocated :
    let events : List Event := [.new 0 1, .new 1 2, .fieldWrite 0 1 0 2, .fieldWrite 0 2 0 1,
      .staticWrite 1, .fieldRead 1 2 0, .fieldWrite 0 2 0 0, .new 0 1, .fieldRead 2 1 0,
      .arrayWrite 3 2 5 1, .arrayRead 4 1 0]
    Admissible events ∧
      (∀ object, object ∈ (Picture.of events).escaped ↔ object ∈ ([1, 2] : List Int32)) ∧
      ∀ index, index < 5 ∧ Exposed events index ↔ index ∈ [0, 1, 3, 4] := by
  intro events
  have admissible : Admissible events := by
    have emptied (cell : HeapCell) (other : ¬ HeapCell.mk 2 0 = cell)
        (here : HeapCell.mk 2 0 = cell) : cell.object = 1 := absurd here other
    have built : Admissible ([] ++ [Event.new 0 1] ++ [Event.new 1 2] ++
        [Event.fieldWrite 0 1 0 2] ++ [Event.fieldWrite 0 2 0 1] ++ [Event.staticWrite 1] ++
        [Event.fieldRead 1 2 0] ++ [Event.fieldWrite 0 2 0 0] ++ [Event.new 0 1] ++
        [Event.fieldRead 2 1 0] ++ [Event.arrayWrite 3 2 5 1] ++ [Event.arrayRead 4 1 0]) := by
      simp only [admissible_concat]
      simpa [Event.allocated?, Event.written?, Picture.of, Picture.after, Picture.heapAfter,
        Picture.empty] using And.intro admissible_nil emptied
    simpa only [List.nil_append, List.cons_append] using built
  obtain ⟨escaped, exposed⟩ := replay_pictures 5 2 events admissible events List.prefix_rfl
  have escaping : (events.foldl replay { accessBound := 5, siteBound := 2 }).escaping = [1, 2] := by
    decide +kernel
  have noted : (events.foldl replay
      { accessBound := 5, siteBound := 2 }).flowSensitive.toList = [0, 1, 3, 4] := by
    decide +kernel
  refine ⟨admissible, fun object => ?_, fun index => ?_⟩
  · rw [← escaped, escaping]
  · rw [← exposed, SortedSet.mem_def, noted]

end Escape

end ProgramAnalysis
