import Mathlib.Logic.Relation
import Mathlib.Data.Prod.Lex
import ProgramAnalysis.Context.Family

/-!
What the queue of methods computes. The contexts of a method are those that arise by going from
starting methods through sites (`Arises`). Turns are considered with any choice of the next method
and any way of queueing (`Turn`): there are finitely many, they keep an invariant (`Sound`), and so
all of them end with the same contexts.
-/

namespace ProgramAnalysis.ContextFamily

open List SortedSet Origin

variable {origins : List Origin} {family : ContextFamily} {m : Nat} {origin : Origin}
  {context : Context}

/-- A context that a method has to have. -/
inductive Arises (origins : List Origin) : Nat → Context → Prop where
  | start {m : Nat} : origins[m]? = some .start → Arises origins m .epsilon
  | through {m : Nat} {places : List ContextSite} {place : ContextSite} {context : Context} :
    origins[m]? = some (.through places) → place ∈ places →
      Arises origins place.method context → Arises origins m (place.extend context)
  | copying {m : Nat} {callers : List Nat} {caller : Nat} {context : Context} :
    origins[m]? = some (.copying callers) → caller ∈ callers →
      Arises origins caller context → Arises origins m context

/-! ### Only contexts that arise -/

theorem arises_of_gather (arising : ∀ n, ∀ context ∈ family.contextsOf n, Arises origins n context)
    (found : origins[m]? = some origin) (mem : context ∈ origin.gather family) :
    Arises origins m context := by
  cases origin with
  | start =>
    obtain rfl := mem_singleton.mp mem
    exact .start found
  | through places =>
    obtain ⟨place, among, before, had, rfl⟩ := mem_gather_through.mp mem
    exact .through found among (arising place.method before had)
  | copying callers =>
    obtain ⟨caller, among, had⟩ := mem_gather_copying.mp mem
    exact .copying found among (arising caller context had)

/-! ### All contexts that arise -/

/-- Gathering the contexts of a method anew would change nothing. -/
def Stable (origins : List Origin) (family : ContextFamily) (m : Nat) : Prop :=
  ∀ origin, origins[m]? = some origin →
    ofList (origin.gather family) = family.contextsOf m

theorem gather_congr {other : ContextFamily}
    (same : ∀ n ∈ origin.sources, other.contextsOf n = family.contextsOf n) :
    origin.gather other = origin.gather family := by
  cases origin with
  | start => rfl
  | through places =>
    refine congrArg List.flatten (map_congr_left fun place among => ?_)
    rw [same place.method (mem_map_of_mem among)]
  | copying callers =>
    refine congrArg List.flatten (map_congr_left fun caller among => ?_)
    rw [same caller among]

theorem mem_dependents (found : origins[n]? = some origin) :
    n ∈ dependents origins m ↔ m ∈ origin.sources := by
  unfold dependents
  rw [mem_filterMap]
  constructor
  · rintro ⟨⟨other, k⟩, atIndex, kept⟩
    have atK : origins[k]? = some other := mem_zipIdx_iff_getElem?.mp atIndex
    dsimp only at kept
    split at kept
    · next takes =>
      cases kept
      rw [found] at atK
      cases atK
      exact takes
    · cases kept
  · intro takes
    exact ⟨(origin, n), mem_zipIdx_iff_getElem?.mpr found, if_pos takes⟩

/-- Gathering a method anew leaves those stable that were and do not depend on it, and the method
itself if it does not depend on itself. -/
theorem stable_regather (growing : Growing origins family) (found : origins[m]? = some origin)
    (independent : n ∉ dependents origins m) (before : n ≠ m → Stable origins family n) :
    Stable origins (family.regather m origin) n := by
  intro other atIndex
  have below := growing.lt_length found
  have same : other.gather (family.regather m origin) = other.gather family := by
    refine gather_congr fun k source => ?_
    rw [contextsOf_regather below, if_neg]
    rintro rfl
    exact independent ((mem_dependents atIndex).mpr source)
  rw [same, contextsOf_regather below]
  split
  · next same =>
    subst same
    rw [found] at atIndex
    cases atIndex
    rfl
  · next differs => exact before (Ne.symm differs) other atIndex

theorem stable_initial (absent : m ∉ sensitive origins) : Stable origins (initial origins) m := by
  intro origin found
  have isStart : origin = .start := by
    apply Classical.byContradiction
    intro other
    refine absent (mem_filterMap.mpr ⟨(origin, m), mem_zipIdx_iff_getElem?.mpr found, if_neg other⟩)
  subst isStart
  refine ext fun context => ?_
  rw [contextsOf_initial, mem_ofList]
  exact ⟨fun mem => ⟨found, mem_singleton.mp mem⟩, fun mem => mem_singleton.mpr mem.2⟩

/-! ### Turns of the loop -/

/-- Where the loop stands: the family so far, and the methods to be gathered anew. -/
structure Progress (origins : List Origin) where
  family : ContextFamily
  growing : Growing origins family
  queue : List Nat

/-- The loop before its first turn. -/
def Progress.start (origins : List Origin) (queue : List Nat) : Progress origins :=
  ⟨initial origins, growing_initial origins, queue⟩

/-- One turn, whichever method is taken off the queue and wherever its dependents are put. -/
inductive Turn {origins : List Origin} : Progress origins → Progress origins → Prop where
  | settled {family : ContextFamily} {growing : Growing origins family} (before after : List Nat)
    {m : Nat} : Stable origins family m →
      Turn ⟨family, growing, before ++ m :: after⟩ ⟨family, growing, before ++ after⟩
  | changed {family : ContextFamily} {growing : Growing origins family} (before after : List Nat)
    {m : Nat} {origin : Origin} {queue : List Nat} (found : origins[m]? = some origin) :
      ofList (origin.gather family) ≠ family.contextsOf m →
      (∀ n, n ∈ queue ↔ n ∈ before ++ after ∨ n ∈ dependents origins m) →
      Turn ⟨family, growing, before ++ m :: after⟩
        ⟨family.regather m origin, growing.regather found, queue⟩

/-- No run of the loop goes on for ever. -/
theorem wellFounded_turn (origins : List Origin) :
    WellFounded fun next now : Progress origins => Turn now next := by
  refine Subrelation.wf (r := InvImage (Prod.Lex (· < ·) (· < ·)) fun now =>
    (Reachability.unseen (fun _ => 1) now.family.nodes (allNodes origins), now.queue.length)) ?_
    (InvImage.wf _ (WellFoundedRelation.wf (α := Nat ×ₗ Nat)))
  intro next now turn
  cases turn with
  | settled => exact Prod.Lex.right _ (by simp)
  | @changed _ growing _ _ _ _ _ found changed =>
    exact Prod.Lex.left _ _ (growing.unseen_regather (fun _ => 1) found changed)

theorem exists_turn {now : Progress origins} (waiting : now.queue ≠ []) :
    ∃ next, Turn now next := by
  obtain ⟨family, growing, queue⟩ := now
  obtain ⟨m, rest, rfl⟩ := exists_cons_of_ne_nil waiting
  by_cases stable : Stable origins family m
  · exact ⟨_, .settled [] rest stable⟩
  · simp only [Stable, not_forall] at stable
    obtain ⟨origin, found, changed⟩ := stable
    exact ⟨_, .changed [] rest found changed fun n => mem_append⟩

theorem turns_settle (growing : Growing origins family) (queue : List Nat) :
    ∃ grown, Relation.ReflTransGen Turn (⟨family, growing, queue⟩ : Progress origins)
      ⟨settle origins family growing queue, grown, []⟩ := by
  fun_induction settle origins family growing queue with
  | case1 family growing => exact ⟨growing, .refl⟩
  | case2 family growing m rest none ih =>
    obtain ⟨grown, turns⟩ := ih
    refine ⟨grown, .head (.settled [] rest fun origin found => ?_) turns⟩
    rw [none] at found
    cases found
  | case3 family growing m rest origin found same ih =>
    obtain ⟨grown, turns⟩ := ih
    refine ⟨grown, .head (.settled [] rest fun other atIndex => ?_) turns⟩
    rw [found] at atIndex
    cases atIndex
    exact same
  | case4 family growing m rest origin found changed ih =>
    obtain ⟨grown, turns⟩ := ih
    refine ⟨grown, .head (.changed [] rest found changed fun n => ?_) turns⟩
    by_cases waiting : n ∈ rest <;> simp [waiting]

/-! ### What turns keep -/

/-- The family has no context that does not arise, and the methods that are not queued are
stable. -/
structure Sound (now : Progress origins) : Prop where
  arising : ∀ n, ∀ context ∈ now.family.contextsOf n, Arises origins n context
  waiting : ∀ n, n ∉ now.queue → Stable origins now.family n

namespace Sound

variable {now next : Progress origins}

theorem start (covers : ∀ m ∈ sensitive origins, m ∈ queue) :
    Sound (Progress.start origins queue) where
  arising n context mem := by
    obtain ⟨isStart, rfl⟩ := contextsOf_initial.mp mem
    exact .start isStart
  waiting n absent := stable_initial fun mem => absent (covers n mem)

theorem turn (sound : Sound now) (turn : Turn now next) : Sound next := by
  cases turn with
  | @settled family growing before after m stable =>
    refine ⟨sound.arising, fun n absent => ?_⟩
    by_cases same : n = m
    · rwa [same]
    · exact sound.waiting n (by simp_all)
  | @changed family growing before after m origin queue found changed queued =>
    constructor
    · intro n context mem
      rw [contextsOf_regather (growing.lt_length found)] at mem
      split at mem
      · next same =>
        subst same
        exact arises_of_gather sound.arising found (mem_ofList.mp mem)
      · exact sound.arising n context mem
    · intro n absent
      rw [queued, not_or] at absent
      refine stable_regather growing found absent.2 fun other => sound.waiting n ?_
      rw [mem_append, mem_cons]
      rw [mem_append] at absent
      tauto

theorem turns (sound : Sound now) (turns : Relation.ReflTransGen Turn now next) : Sound next := by
  induction turns with
  | refl => exact sound
  | tail _ turn ih => exact ih.turn turn

theorem mem_contextsOf (sound : Sound now) (done : now.queue = []) :
    context ∈ now.family.contextsOf m ↔ Arises origins m context := by
  have stable (n : Nat) : Stable origins now.family n := sound.waiting n (done ▸ not_mem_nil)
  refine ⟨sound.arising m context, fun arises => ?_⟩
  induction arises with
  | start found =>
    rw [← stable _ _ found, mem_ofList]
    exact mem_singleton.mpr rfl
  | through found among _ ih =>
    rw [← stable _ _ found, mem_ofList, mem_gather_through]
    exact ⟨_, among, _, ih, rfl⟩
  | copying found among _ ih =>
    rw [← stable _ _ found, mem_ofList, mem_gather_copying]
    exact ⟨_, among, ih⟩

end Sound

/-! ### The family -/

theorem sound_solve (origins : List Origin) :
    ∃ grown, Sound (⟨solve origins, grown, []⟩ : Progress origins) := by
  obtain ⟨grown, turns⟩ := turns_settle (growing_initial origins) (sensitive origins)
  exact ⟨grown, (Sound.start fun _ mem => mem).turns turns⟩

theorem contextsOf_solve (found : origins[m]? = some origin) :
    (solve origins).contextsOf m = .ofList (origin.gather (solve origins)) := by
  obtain ⟨_, sound⟩ := sound_solve origins
  exact (sound.waiting m not_mem_nil origin found).symm

theorem mem_solve : context ∈ (solve origins).contextsOf m ↔ Arises origins m context := by
  obtain ⟨_, sound⟩ := sound_solve origins
  exact sound.mem_contextsOf rfl

/-- However the queue was served, the loop ends with one and the same family. -/
theorem Sound.family_eq {now : Progress origins} (sound : Sound now) (done : now.queue = []) :
    now.family = solve origins := by
  obtain ⟨grown, _⟩ := sound_solve origins
  have contexts (m : Nat) : now.family.contextsOf m = (solve origins).contextsOf m :=
    ext fun context => (sound.mem_contextsOf done).trans mem_solve.symm
  refine ext_getElem (now.growing.total.trans grown.total.symm) fun m below other => ?_
  have same := contexts m
  rwa [contextsOf, contextsOf, getElem?_eq_getElem below, getElem?_eq_getElem other]
    at same

end ProgramAnalysis.ContextFamily
