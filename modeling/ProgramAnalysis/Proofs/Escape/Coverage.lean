import ProgramAnalysis.Proofs.Escape.Sites

/-!
What escapes flow-sensitively escapes flow-insensitively as well, and both were visited. An object
that had escaped when it was accessed was allocated at a site, if every accessed object was
(`Placed`), and with it this site had escaped.
-/

namespace ProgramAnalysis

open Trace List

/-- Every object that is accessed was allocated at a site by then. An object that is allocated again
is a new one, so that its latest allocation counts. -/
def Placed (siteBound : Nat) (events : List Event) : Prop :=
  ∀ earlier event access base, earlier ++ [event] <+: events →
    event.accessed? = some (access, base) → ∃ site, AllocatedAt siteBound earlier base site

theorem placed_nil : Placed siteBound [] := by
  intro earlier event access base inside
  simp at inside

theorem placed_concat : Placed siteBound (events ++ [event]) ↔ Placed siteBound events ∧
      ∀ access base, event.accessed? = some (access, base) →
        ∃ site, AllocatedAt siteBound events base site := by
  constructor
  · intro placed
    refine ⟨fun earlier other access base inside => ?_, fun access base => ?_⟩
    · exact placed earlier other access base (inside.trans (prefix_append _ _))
    · exact placed events event access base prefix_rfl
  · rintro ⟨placed, last⟩ earlier other access base inside
    rcases concat_prefix_concat.mp inside with ⟨rfl, rfl⟩ | inside
    · exact last access base
    · exact placed earlier other access base inside

namespace Escape

/-- After every part of a trace in which each accessed object was allocated at a site, the accesses
that escape flow-sensitively also escape flow-insensitively. Both were visited, and what was visited
is an access. -/
theorem flowSensitive_covered (accessBound siteBound : Nat) (events : List Event)
    (placed : Placed siteBound events) (seen : List Event) (start : seen <+: events) :
    let state := after accessBound siteBound seen
    (∀ index ∈ state.flowSensitive, index ∈ state.flowInsensitive) ∧
      (∀ index ∈ state.flowSensitive, index ∈ state.visited) ∧
      (∀ index ∈ state.flowInsensitive, index ∈ state.visited) ∧
      ∀ index ∈ state.visited, index < accessBound := by
  intro state
  have settled := (orderly_after accessBound siteBound seen).settled
  have covered : ∀ index ∈ state.flowSensitive, index ∈ state.flowInsensitive := by
    intro index member
    obtain ⟨below, earlier, event, access, base, inside, isAccess, named, escaping⟩ :=
      mem_flowSensitive_after.mp member
    obtain ⟨site, located⟩ := placed earlier event access base (inside.trans start) isAccess
    -- The object of the access itself shows that its site escapes.
    have escapes : EscapesAt accessBound siteBound seen site :=
      ⟨earlier, (List.prefix_append _ _).trans inside, base, escaping, located⟩
    exact (settled.known index).mpr ⟨site, mem_escapingSites_after.mpr escapes, below,
      earlier, event, access, base, inside, isAccess, named, located⟩
  have visited : ∀ index ∈ state.flowInsensitive, index ∈ state.visited := by
    intro index member
    obtain ⟨_, _, below, earlier, event, access, base, inside, isAccess, named, _⟩ :=
      (settled.known index).mp member
    exact mem_visited_after.mpr
      ⟨below, event, inside.subset (by simp), access, base, isAccess, named⟩
  exact ⟨covered, fun index member => visited index (covered index member), visited,
    fun index member => (mem_visited_after.mp member).1⟩

/-- An access waits for its site, another is made to an object that escapes with its holder, and a
third to the first object after it was allocated again, where it has not escaped but its new site
has. -/
theorem flowSensitive_covered_reallocated :
    let events : List Event := [.new 0 1, .fieldRead 0 1 0, .newArray 1 2, .fieldWrite 1 1 0 2,
      .staticWrite 1, .arrayRead 2 2 5, .new 1 1, .fieldRead 3 1 0]
    let state := after 4 2 events
    Placed 2 events ∧ state.flowSensitive.toList = [2] ∧
      state.flowInsensitive.toList = [0, 1, 2, 3] ∧
      ∀ index ∈ state.flowSensitive, index ∈ state.flowInsensitive := by
  intro events state
  have placed : Placed 2 events := by
    have first : ∃ site : Nat, (0 : Int) = site ∧ site ≤ 1 := ⟨0, by decide⟩
    have second : ∃ site : Nat, (1 : Int) = site ∧ site ≤ 1 := ⟨1, by decide⟩
    have built : Placed 2 ([] ++ [Event.new 0 1] ++ [Event.fieldRead 0 1 0] ++
        [Event.newArray 1 2] ++ [Event.fieldWrite 1 1 0 2] ++ [Event.staticWrite 1] ++
        [Event.arrayRead 2 2 5] ++ [Event.new 1 1] ++ [Event.fieldRead 3 1 0]) := by
      simp only [placed_concat]
      simpa [placed_nil, Event.accessed?, AllocatedAt, latestSite?, Event.siteOf?] using
        And.intro first second
    simpa only [List.nil_append, List.cons_append] using built
  have sensitive : (after 4 2 events).flowSensitive.toList = [2] := by
    decide +kernel
  have insensitive : (after 4 2 events).flowInsensitive.toList = [0, 1, 2, 3] := by
    decide +kernel
  exact ⟨placed, sensitive, insensitive,
    (flowSensitive_covered 4 2 events placed events List.prefix_rfl).1⟩

end Escape

end ProgramAnalysis
