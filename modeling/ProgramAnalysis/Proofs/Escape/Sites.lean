import Mathlib.Data.Set.Card
import ProgramAnalysis.Proofs.Escape
import ProgramAnalysis.Proofs.Graph.Completeness

/-!
Flow-insensitively an access escapes together with the site of its object, whichever comes first. An
access that comes before is parked until the site escapes. What is parked, which sites have escaped
and which accesses with them is kept in order by every event (`Orderly`).
-/

namespace ProgramAnalysis

open Trace List Table

/-- What is known after some events. -/
def Escape.after (accessBound siteBound : Nat) (events : List Event) : Escape :=
  events.foldl replay { accessBound, siteBound }

/-! ### Sites of objects -/

/-- The site that an event names for an object that it allocates. -/
def Trace.Event.siteOf? : Event → Int32 → Option Int32
  | .new site other, object | .newArray site other, object =>
    if other = object then some site else none
  | _, _ => none

/-- The site named for an object when it was allocated last. -/
def latestSite? (events : List Event) (object : Int32) : Option Int32 :=
  events.reverse.findSome? (·.siteOf? object)

/-- The site named for an object when it was allocated last is one, and this is its index. -/
def AllocatedAt (siteBound : Nat) (events : List Event) (object : Int32) (site : Nat) : Prop :=
  ∃ named : Int32, latestSite? events object = some named ∧ named.toInt = site ∧ site < siteBound

/-- At some time in a trace, an access with an index was made to an object of a site. -/
def AccessedAt (siteBound : Nat) (events : List Event) (index site : Nat) : Prop :=
  ∃ (earlier : List Event) (event : Event) (access base : Int32),
    earlier ++ [event] <+: events ∧ event.accessed? = some (access, base) ∧
      access.toInt = index ∧ AllocatedAt siteBound earlier base site

/-- At some time in a trace, an object of a site was escaping. -/
def EscapesAt (accessBound siteBound : Nat) (events : List Event) (site : Nat) : Prop :=
  ∃ seen, seen <+: events ∧ ∃ object ∈ (Escape.after accessBound siteBound seen).escaping,
    AllocatedAt siteBound seen object site

theorem latestSite?_concat (events : List Event) (event : Event) (object : Int32) :
    latestSite? (events ++ [event]) object =
      (event.siteOf? object).or (latestSite? events object) := by
  rw [latestSite?, reverse_concat, findSome?_cons]
  cases event.siteOf? object <;> rfl

section Concat

variable {bound : Nat} {events : List Event} {event : Event} {object : Int32} {site : Nat}

theorem allocatedAt_of_none (other : event.siteOf? object = none) :
    AllocatedAt bound (events ++ [event]) object site ↔ AllocatedAt bound events object site := by
  rw [AllocatedAt, latestSite?_concat, other, Option.none_or, AllocatedAt]

theorem allocatedAt_of_some (here : event.siteOf? object = some named) :
    AllocatedAt bound (events ++ [event]) object site ↔ named.toInt = site ∧ site < bound := by
  rw [AllocatedAt, latestSite?_concat, here, Option.some_or]
  simp

end Concat

theorem accessedAt_concat :
    AccessedAt siteBound (events ++ [event]) index site ↔ AccessedAt siteBound events index site ∨
      ∃ access base : Int32, event.accessed? = some (access, base) ∧ access.toInt = index ∧
        AllocatedAt siteBound events base site :=
  exists_access_concat fun earlier base => AllocatedAt siteBound earlier base site

theorem escapesAt_concat : EscapesAt accessBound siteBound (events ++ [event]) site ↔
      EscapesAt accessBound siteBound events site ∨
        ∃ object ∈ (Escape.after accessBound siteBound (events ++ [event])).escaping,
          AllocatedAt siteBound (events ++ [event]) object site := by
  constructor
  · rintro ⟨seen, inside, object, escaping, allocated⟩
    rcases prefix_concat_iff.mp inside with rfl | inside
    · exact .inr ⟨object, escaping, allocated⟩
    · exact .inl ⟨seen, inside, object, escaping, allocated⟩
  · rintro (⟨seen, inside, rest⟩ | last)
    · exact ⟨seen, inside.trans (prefix_append _ _), rest⟩
    · exact ⟨_, prefix_rfl, last⟩

namespace Escape

variable {state : Escape} {accessed : Nat → Nat → Prop} {allocated : Int32 → Nat → Prop}
  {escaped : Nat → Prop} {bound : Nat}

/-! ### Parked accesses -/

/-- The accesses that are noted are those to a site that has escaped, and at each other site those
accesses to it are parked that are not noted. -/
structure Settled (accessed : Nat → Nat → Prop) (state : Escape) : Prop where
  known : ∀ index, index ∈ state.flowInsensitive ↔ ∃ site ∈ state.escapingSites, accessed index site
  parked : ∀ site, ∀ index ∈ (state.waiting.get? site).getD .empty, accessed index site
  waiting : ∀ index site, accessed index site → site ∈ state.escapingSites ∨
    index ∈ state.flowInsensitive ∨ index ∈ (state.waiting.get? site).getD .empty

namespace Settled

theorem congr (settled : Settled accessed state)
    (same : ∀ index site, accessed' index site ↔ accessed index site) :
    Settled accessed' state := by
  have one : accessed' = accessed := funext fun index => funext fun site =>
    propext (same index site)
  rwa [one]

theorem releaseSite (settled : Settled accessed state) (site : Nat) :
    Settled accessed (state.releaseSite site) := by
  unfold Escape.releaseSite
  split
  · exact settled
  · refine ⟨fun index => ?_, fun other index mem => ?_, fun index other among => ?_⟩
    · show index ∈ state.flowInsensitive.insertAll _ ↔
        ∃ other ∈ state.escapingSites.insert site, accessed index other
      rw [SortedSet.mem_insertAll, settled.known]
      constructor
      · rintro (waited | ⟨other, old, among⟩)
        · exact ⟨site, SortedSet.mem_insert.mpr (.inl rfl), settled.parked site index waited⟩
        · exact ⟨other, SortedSet.mem_insert.mpr (.inr old), among⟩
      · rintro ⟨other, mem, among⟩
        rcases SortedSet.mem_insert.mp mem with rfl | old
        · rcases settled.waiting index other among with old | noted | waits
          · exact .inr ⟨other, old, among⟩
          · exact .inr ((settled.known index).mp noted)
          · exact .inl waits
        · exact .inr ⟨other, old, among⟩
    · rw [get?_erase] at mem
      split at mem
      · cases mem
      · exact settled.parked other index mem
    · show other ∈ state.escapingSites.insert site ∨ index ∈ state.flowInsensitive.insertAll _ ∨
        index ∈ ((state.waiting.erase site).get? other).getD .empty
      rw [SortedSet.mem_insert, SortedSet.mem_insertAll, get?_erase]
      rcases settled.waiting index other among with old | noted | waits
      · exact .inl (.inr old)
      · exact .inr (.inl (.inr noted))
      · split
        · next same => exact .inl (.inl same.symm)
        · exact .inr (.inr waits)

theorem releaseSites (settled : Settled accessed state) (sites : List Nat) :
    Settled accessed (sites.foldl Escape.releaseSite state) := by
  induction sites generalizing state with
  | nil => exact settled
  | cons site rest ih => exact ih (settled.releaseSite site)

theorem await (settled : Settled accessed state) (access site : Nat) :
    Settled (fun index other => accessed index other ∨ index = access ∧ other = site)
      (state.await access site) := by
  unfold Escape.await
  split
  · next escaped =>
    refine ⟨fun index => ?_, fun other index mem => .inl (settled.parked other index mem), ?_⟩
    · rw [SortedSet.mem_insert, settled.known]
      constructor
      · rintro (rfl | ⟨other, old, among⟩)
        · exact ⟨site, escaped, .inr ⟨rfl, rfl⟩⟩
        · exact ⟨other, old, .inl among⟩
      · rintro ⟨other, old, among | ⟨rfl, rfl⟩⟩
        · exact .inr ⟨other, old, among⟩
        · exact .inl rfl
    · rintro index other (among | ⟨rfl, rfl⟩)
      · exact (settled.waiting index other among).imp id
          (Or.imp (fun noted => SortedSet.mem_insert.mpr (.inr noted)) id)
      · exact .inl escaped
  · next confined =>
    refine ⟨fun index => ?_, fun other index mem => ?_, fun index other among => ?_⟩
    · rw [settled.known]
      constructor
      · rintro ⟨other, old, among⟩
        exact ⟨other, old, .inl among⟩
      · rintro ⟨other, old, among | ⟨rfl, rfl⟩⟩
        · exact ⟨other, old, among⟩
        · exact absurd old confined
    · exact (mem_getD_update.mp mem).imp (settled.parked other index) And.symm
    · rw [mem_getD_update]
      rcases among with among | ⟨rfl, rfl⟩
      · exact (settled.waiting index other among).imp id (Or.imp id .inl)
      · exact .inr (.inr (.inr ⟨rfl, rfl⟩))

end Settled

/-! ### Sites that escape -/

theorem releaseSites_allocation (sites : List Nat) (state : Escape) :
    (sites.foldl releaseSite state).allocation = state.allocation ∧
      (sites.foldl releaseSite state).siteBound = state.siteBound := by
  induction sites generalizing state with
  | nil => exact ⟨rfl, rfl⟩
  | cons site rest ih =>
    obtain ⟨allocation, bound⟩ := ih (state.releaseSite site)
    rw [foldl_cons, allocation, bound, releaseSite]
    split <;> exact ⟨rfl, rfl⟩

theorem mem_escapingSites_releaseSites {sites : List Nat} :
    site ∈ (sites.foldl releaseSite state).escapingSites ↔
      site ∈ sites ∨ site ∈ state.escapingSites := by
  induction sites generalizing state with
  | nil => simp
  | cons first rest ih =>
    have one : site ∈ (state.releaseSite first).escapingSites ↔
        site = first ∨ site ∈ state.escapingSites := by
      unfold releaseSite
      split
      · next old =>
        refine (or_iff_right_of_imp ?_).symm
        rintro rfl
        exact old
      · exact SortedSet.mem_insert
    rw [foldl_cons, ih, one, mem_cons, or_left_comm, or_assoc]

/-- What a replay knows of sites, where `allocated` says at which sites objects are, `accessed`
which accesses were made to them, and `escaped` which of them had escaped before. -/
structure Orderly (bound : Nat) (escaped : Nat → Prop) (allocated : Int32 → Nat → Prop)
    (accessed : Nat → Nat → Prop) (state : Escape) : Prop where
  bound : state.siteBound = bound
  settled : Settled accessed state
  allocation : ∀ object ≠ 0, ∀ site, state.allocation.get? object = some site ↔
    allocated object site
  real : ∀ object ∈ state.escaping, object ≠ 0
  covered : ∀ object ∈ state.escaping, ∀ site, allocated object site → site ∈ state.escapingSites
  kept : ∀ site, escaped site → site ∈ state.escapingSites
  origin : ∀ site ∈ state.escapingSites, escaped site ∨
    ∃ object ∈ state.escaping, allocated object site

namespace Orderly

theorem congr (orderly : Orderly bound escaped allocated accessed state)
    (sites : ∀ object ≠ 0, ∀ site, allocated' object site ↔ allocated object site)
    (accesses : ∀ index site, accessed' index site ↔ accessed index site) :
    Orderly bound escaped allocated' accessed' state where
  bound := orderly.bound
  settled := orderly.settled.congr accesses
  allocation object real site :=
    (orderly.allocation object real site).trans (sites object real site).symm
  real := orderly.real
  covered object among site located :=
    orderly.covered object among site ((sites object (orderly.real object among) site).mp located)
  kept := orderly.kept
  origin site mem := by
    refine (orderly.origin site mem).imp id ?_
    rintro ⟨object, among, located⟩
    exact ⟨object, among, (sites object (orderly.real object among) site).mpr located⟩

theorem markEscaping (orderly : Orderly bound escaped allocated accessed state) (object : Int32) :
    Orderly bound escaped allocated accessed (state.markEscaping object) := by
  have escaping (other : Int32) : other ∈ (state.markEscaping object).escaping ↔
      other ∈ state.newlyEscaping object ∨ other ∈ state.escaping := by
    rw [(sameObjects_markEscaping state object).escaping, mem_append]
  have real (other : Int32) (fresh : other ∈ state.newlyEscaping object) : other ≠ 0 := by
    have kept := (mem_filter.mp fresh).2
    exact (of_decide_eq_true kept).1
  have sites (site : Nat) : site ∈ (state.markEscaping object).escapingSites ↔
      (∃ other ∈ state.newlyEscaping object, allocated other site) ∨
        site ∈ state.escapingSites := by
    rw [Escape.markEscaping, mem_escapingSites_releaseSites, mem_filterMap]
    refine or_congr_left (exists_congr fun other => and_congr_right fun fresh => ?_)
    exact orderly.allocation other (real other fresh) site
  have start : Settled accessed
      { state with escaping := state.newlyEscaping object ++ state.escaping } :=
    { orderly.settled with }
  refine ⟨?_, start.releaseSites _, ?_, fun other among => ?_, fun other among site located => ?_,
    fun site old => ?_, fun site mem => ?_⟩
  · rw [Escape.markEscaping, (releaseSites_allocation _ _).2]
    exact orderly.bound
  · rw [Escape.markEscaping, (releaseSites_allocation _ _).1]
    exact orderly.allocation
  · exact ((escaping other).mp among).elim (real other) (orderly.real other)
  · rw [sites]
    exact ((escaping other).mp among).imp (fun fresh => ⟨other, fresh, located⟩)
      fun old => orderly.covered other old site located
  · exact (sites site).mpr (.inr (orderly.kept site old))
  · rcases (sites site).mp mem with ⟨other, fresh, located⟩ | old
    · exact .inr ⟨other, (escaping other).mpr (.inl fresh), located⟩
    · refine (orderly.origin site old).imp id ?_
      rintro ⟨other, among, located⟩
      exact ⟨other, (escaping other).mpr (.inr among), located⟩

theorem visit (orderly : Orderly bound escaped allocated accessed state) (access : Nat)
    (real : base ≠ 0) :
    Orderly bound escaped allocated (fun index site => accessed index site ∨
      index = access ∧ allocated base site) (state.visit access base) := by
  unfold Escape.visit
  extract_lets seen
  have noted : Orderly bound escaped allocated accessed seen :=
    { orderly with settled := { orderly.settled with } }
  have located (site : Nat) := noted.allocation base real site
  split
  · next known =>
    refine { noted with settled := ⟨fun index => ?_, fun site index mem => .inl
      (noted.settled.parked site index mem), ?_⟩ }
    · rw [noted.settled.known]
      constructor
      · rintro ⟨site, old, among⟩
        exact ⟨site, old, .inl among⟩
      · rintro ⟨site, old, among | ⟨rfl, _⟩⟩
        · exact ⟨site, old, among⟩
        · exact (noted.settled.known index).mp known
    · rintro index site (among | ⟨rfl, _⟩)
      · exact noted.settled.waiting index site among
      · exact .inr (.inl known)
  · split
    · next site found =>
      have only (other : Nat) : allocated base other ↔ other = site := by
        rw [← located, found, Option.some.injEq, eq_comm]
      have settled : Settled (fun index other => accessed index other ∨
          index = access ∧ allocated base other) (seen.await access site) :=
        (noted.settled.await access site).congr fun index other => by rw [only]
      by_cases escapedSite : site ∈ seen.escapingSites
      · rw [Escape.await, if_pos escapedSite] at settled ⊢
        exact { noted with settled }
      · rw [Escape.await, if_neg escapedSite] at settled ⊢
        exact { noted with settled }
    · next nowhere =>
      refine { noted with settled := noted.settled.congr fun index site => ?_ }
      rw [← located, nowhere]
      simp

theorem heapAccess (orderly : Orderly bound escaped allocated accessed state)
    (access base : Int32) :
    Orderly bound escaped allocated (fun index site => accessed index site ∨
      state.Makes access base index ∧ allocated base site) (state.heapAccess access base) := by
  rcases heapAccess_cases state access base with ⟨same, nowhere⟩ | ⟨number, visits, real, _, only⟩
  · rw [same]
    exact { orderly with
      settled := orderly.settled.congr fun index _ => or_iff_left (nowhere index ·.1) }
  · rw [visits]
    simp only [only]
    exact orderly.visit number real

theorem store (orderly : Orderly bound escaped allocated accessed state) (cell : HeapCell)
    (value : Int32) :
    Orderly bound escaped allocated accessed (state.store cell value) := by
  by_cases null : value = 0
  · rw [Escape.store, if_pos null]
    exact { orderly with settled := { orderly.settled with } }
  · have stored : Orderly bound escaped allocated accessed
        { state with heap := state.heap.insert cell value } :=
      { orderly with settled := { orderly.settled with } }
    rw [store_of_ne state cell null]
    split
    · exact stored.markEscaping value
    · exact stored

theorem heapWrite (orderly : Orderly bound escaped allocated accessed state)
    (access base index value : Int32) :
    Orderly bound escaped allocated (fun index site => accessed index site ∨
      state.Makes access base index ∧ allocated base site)
      (state.heapWrite access base index value) := by
  have noted := orderly.heapAccess access base
  unfold Escape.heapWrite
  dsimp only
  split
  · exact noted
  · exact noted.store _ value

/-- An allocation changes the site of its object alone, which has not escaped afterwards. -/
theorem allocate (orderly : Orderly bound (· ∈ state.escapingSites) allocated accessed state)
    (site : Int32) (real : object ≠ 0) :
    Orderly bound (· ∈ state.escapingSites) (fun other place =>
      if other = object then site.toInt = place ∧ place < bound else allocated other place)
      accessed (state.allocate site object) := by
  rw [Escape.allocate, if_neg real]
  refine ⟨orderly.bound, { orderly.settled with }, fun other nonnull place => ?_,
    fun other mem => ?_,
    fun other mem place located => ?_, fun _ => id, fun _ => .inl⟩
  · simp only [Int32.le_iff_toInt_le, Int32.toInt_zero]
    rw [← orderly.bound]
    split
    · next isSite =>
      rw [get?_insert, get?_erase]
      by_cases same : other = object
      · rw [if_pos same.symm, if_pos same, Option.some.injEq]
        omega
      · rw [if_neg (Ne.symm same), if_neg (Ne.symm same), if_neg same]
        exact orderly.allocation other nonnull place
    · next noSite =>
      rw [get?_erase]
      by_cases same : other = object
      · rw [if_pos same.symm, if_pos same]
        refine iff_of_false (Option.some_ne_none place).symm ?_
        omega
      · rw [if_neg (Ne.symm same), if_neg same]
        exact orderly.allocation other nonnull place
  · exact orderly.real other (mem_filter.mp mem).1
  · obtain ⟨old, other⟩ := mem_filter.mp mem
    rw [if_neg (of_decide_eq_true other)] at located
    exact orderly.covered _ old place located

end Orderly

/-! ### Whole traces -/

section After

variable {accessBound siteBound index : Nat} {events : List Event}

theorem after_concat (accessBound siteBound : Nat) (events : List Event) (event : Event) :
    after accessBound siteBound (events ++ [event]) =
      (after accessBound siteBound events).replay event := foldl_replay_concat _ events event

theorem accessBound_after (accessBound siteBound : Nat) (events : List Event) :
    (after accessBound siteBound events).accessBound = accessBound :=
  accessBound_foldl_replay _ events

theorem mem_visited_after : index ∈ (after accessBound siteBound events).visited ↔
    index < accessBound ∧ ∃ event ∈ events, ∃ access base : Int32,
      event.accessed? = some (access, base) ∧ access.toInt = index := by
  induction events using List.reverseRecOn with
  | nil =>
    constructor
    · exact fun mem => by cases mem
    · rintro ⟨_, event, mem, _⟩
      cases mem
  | append_singleton earlier event ih =>
    rw [after_concat, mem_visited_replay, ih, accessBound_after, ← and_or_left]
    simp only [mem_append, mem_singleton, or_and_right, exists_or, exists_eq_left]

theorem mem_flowSensitive_after : index ∈ (after accessBound siteBound events).flowSensitive ↔
    index < accessBound ∧ ∃ (earlier : List Event) (event : Event) (access base : Int32),
      earlier ++ [event] <+: events ∧ event.accessed? = some (access, base) ∧
        access.toInt = index ∧ base ∈ (after accessBound siteBound earlier).escaping := by
  induction events using List.reverseRecOn with
  | nil =>
    constructor
    · exact fun mem => by cases mem
    · rintro ⟨_, earlier, event, _, _, inside, _⟩
      simp at inside
  | append_singleton seen last ih =>
    rw [after_concat, mem_flowSensitive_replay, ih, accessBound_after, ← and_or_left]
    exact and_congr_right fun _ => (exists_access_concat _).symm

end After

/-- One step of the replay, for what was allocated and accessed so far. -/
theorem Orderly.replay (event : Event)
    (orderly : Orderly bound (· ∈ state.escapingSites) (AllocatedAt bound events)
      (fun index site => index < state.accessBound ∧ AccessedAt bound events index site) state) :
    Orderly bound (· ∈ state.escapingSites) (AllocatedAt bound (events ++ [event]))
      (fun index site => index < state.accessBound ∧
        AccessedAt bound (events ++ [event]) index site) (state.replay event) := by
  have unaccessed (none : event.accessed? = none) (index site : Nat) :
      index < state.accessBound ∧ AccessedAt bound (events ++ [event]) index site ↔
        index < state.accessBound ∧ AccessedAt bound events index site := by
    simp [accessedAt_concat, none]
  have accessing {access base : Int32}
      (isAccess : event.accessed? = if base = 0 then none else some (access, base))
      (index site : Nat) :
      index < state.accessBound ∧ AccessedAt bound (events ++ [event]) index site ↔
        index < state.accessBound ∧ AccessedAt bound events index site ∨
          state.Makes access base index ∧ AllocatedAt bound events base site := by
    rw [accessedAt_concat, isAccess, and_or_left]
    by_cases null : base = 0 <;> simp [null, Makes, and_assoc]
  cases event with
  | new site object | newArray site object =>
    by_cases null : object = 0
    · rw [Escape.replay, Escape.allocate, if_pos null]
      refine orderly.congr (fun other real place => ?_) (unaccessed rfl)
      exact allocatedAt_of_none (if_neg fun (same : object = other) => real (same.symm.trans null))
    · refine (orderly.allocate site null).congr (fun other real place => ?_)
        (unaccessed rfl)
      split
      · next same => exact allocatedAt_of_some (if_pos same.symm)
      · next different => exact allocatedAt_of_none (if_neg (Ne.symm different))
  | fieldRead access base _ | arrayRead access base _ =>
    exact (orderly.heapAccess access base).congr (fun _ _ _ => allocatedAt_of_none rfl)
      (accessing rfl)
  | fieldWrite access base index value | arrayWrite access base index value =>
    exact (orderly.heapWrite access base index value).congr (fun _ _ _ => allocatedAt_of_none rfl)
      (accessing rfl)
  | staticWrite object | threadStart object =>
    exact (orderly.markEscaping object).congr (fun _ _ _ => allocatedAt_of_none rfl)
      (unaccessed rfl)
  | acquireLock | threadSpawn | methodEnter | methodLeave =>
    exact orderly.congr (fun _ _ _ => allocatedAt_of_none rfl) (unaccessed rfl)

/-- After any trace, the sites that have escaped are those of objects that were escaping at some
time, and everything else that is known of sites is in order. -/
theorem orderly_after (accessBound siteBound : Nat) (events : List Event) :
    Orderly siteBound (EscapesAt accessBound siteBound events) (AllocatedAt siteBound events)
      (fun index site => index < accessBound ∧ AccessedAt siteBound events index site)
      (after accessBound siteBound events) := by
  induction events using List.reverseRecOn with
  | nil =>
    have unallocated (object : Int32) (site : Nat) : ¬ AllocatedAt siteBound [] object site := by
      rintro ⟨_, none, _⟩
      cases none
    have unaccessed (index site : Nat) : ¬ AccessedAt siteBound [] index site := by
      rintro ⟨earlier, event, _, _, inside, _⟩
      simp at inside
    refine ⟨rfl, ⟨fun index => ⟨nofun, ?_⟩, nofun, ?_⟩, fun object _ site => ?_, nofun, nofun, ?_,
      nofun⟩
    · rintro ⟨_, mem, _⟩
      cases mem
    · exact fun index site among => absurd among.2 (unaccessed index site)
    · exact iff_of_false nofun (unallocated object site)
    · rintro site ⟨seen, inside, object, mem, _⟩
      obtain rfl := prefix_nil.mp inside
      cases mem
  | append_singleton earlier event ih =>
    have before (site : Nat) : site ∈ (after accessBound siteBound earlier).escapingSites ↔
        EscapesAt accessBound siteBound earlier site :=
      ⟨fun mem => (ih.origin site mem).elim id
        fun last => ⟨earlier, prefix_rfl, last⟩, ih.kept site⟩
    have bound := accessBound_after accessBound siteBound earlier
    have start : Orderly siteBound (· ∈ (after accessBound siteBound earlier).escapingSites)
        (AllocatedAt siteBound earlier)
        (fun index site => index < (after accessBound siteBound earlier).accessBound ∧
          AccessedAt siteBound earlier index site) (after accessBound siteBound earlier) := by
      rw [bound]
      exact { ih with kept := fun _ => id, origin := fun _ => .inl }
    have next := start.replay event
    rw [bound, ← after_concat] at next
    refine { next with kept := fun site escapes => ?_, origin := fun site mem => ?_ }
    · rcases escapesAt_concat.mp escapes with old | ⟨object, among, located⟩
      · exact next.kept site ((before site).mpr old)
      · exact next.covered object among site located
    · exact (next.origin site mem).imp
        (fun old => escapesAt_concat.mpr (.inl ((before site).mp old))) id

theorem mem_escapingSites_after {accessBound siteBound : Nat} :
    site ∈ (after accessBound siteBound events).escapingSites ↔
      EscapesAt accessBound siteBound events site := by
  have orderly := orderly_after accessBound siteBound events
  refine ⟨fun mem => ?_, orderly.kept site⟩
  exact (orderly.origin site mem).elim id fun last => ⟨events, prefix_rfl, last⟩

/-- After any trace, an access escapes flow-insensitively exactly if it was made, at some time, to
an object of a site, and at some time, earlier or later, an object of that site was escaping. The
sites counted as escaping are these sites. -/
theorem flowInsensitive_any_order (accessBound siteBound : Nat) (events : List Event) :
    let state := after accessBound siteBound events
    (∀ index, index ∈ state.flowInsensitive ↔ index < accessBound ∧ ∃ site,
      AccessedAt siteBound events index site ∧ EscapesAt accessBound siteBound events site) ∧
    state.escapingSites.size = {site | EscapesAt accessBound siteBound events site}.ncard := by
  intro state
  refine ⟨fun index => ?_, ?_⟩
  · rw [(orderly_after accessBound siteBound events).settled.known]
    constructor
    · rintro ⟨site, escaped, below, accessed⟩
      exact ⟨below, site, accessed, mem_escapingSites_after.mp escaped⟩
    · rintro ⟨below, site, accessed, escapes⟩
      exact ⟨site, mem_escapingSites_after.mpr escapes, below, accessed⟩
  · have same : {site | EscapesAt accessBound siteBound events site} =
        (state.escapingSites.toList.toFinset : Set Nat) := by
      ext site
      rw [Finset.mem_coe, List.mem_toFinset]
      exact mem_escapingSites_after.symm
    rw [same, Set.ncard_coe_finset, List.toFinset_card_of_nodup (SortedSet.nodup_toList _)]
    rfl

end Escape

end ProgramAnalysis
