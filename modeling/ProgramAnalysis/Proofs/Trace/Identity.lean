import ProgramAnalysis.Proofs.Step
import ProgramAnalysis.Trace.Tracer

/-!
Ids follow the identity of objects for the whole life of a trace. A tracer finds objects by their
address, and addresses are used again. Its entries belong to objects that were asked about, and an
object that is alive is found under its own (`Tracks`), so that its id is its place among all that
were asked about (`number`).
-/

namespace ProgramAnalysis.Trace

open List ObjectIds Memory

/-- What happens to the objects of a program, and what its trace asks for. -/
inductive Move where
  | create (address : Nat)
  | drop (object : Object)
  | ask (object : Object)

/-- The objects that are asked about. -/
def asked (moves : List Move) : List Object :=
  moves.filterMap fun
    | .ask object => some object
    | .create _ | .drop _ => none

namespace Memory

/-- A program creates objects where there is none, and only has those that are alive. -/
def permits (memory : Memory) : Move → Bool
  | .create address => memory.live[address]?.isNone
  | .drop object | .ask object => memory.isLive object

/-- The memory after a move. -/
def move (memory : Memory) : Move → Memory
  | .create address => (memory.create address).1
  | .drop object => memory.drop object
  | .ask _ => memory

def permitsAll (memory : Memory) : List Move → Bool
  | [] => true
  | move :: rest => memory.permits move && (memory.move move).permitsAll rest

/-- The objects asked about with the ids they get, from one state of the memory on. -/
def answers (memory : Memory) : List Move → Step ObjectIds (List (Object × Nat))
  | [] => return []
  | .ask object :: rest => do
    let id ← ObjectIds.idOf memory object
    return (object, id) :: (← memory.answers rest)
  | move :: rest => (memory.move move).answers rest

variable {memory : Memory} {object other : Object}

theorem isLive_iff : memory.isLive object = true ↔
    memory.live[object.address]? = some object.serial := by
  simp [isLive]

theorem eq_of_isLive (live : memory.isLive object = true) (live' : memory.isLive other = true)
    (same : object.address = other.address) : object = other := by
  rw [isLive_iff] at live live'
  rw [same, live'] at live
  cases object
  cases other
  cases live
  cases same
  rfl

theorem isLive_create (older : object.serial < memory.created)
    (live : (memory.create address).1.isLive object = true) : memory.isLive object = true := by
  rw [isLive_iff] at live ⊢
  change (memory.live.insert address memory.created)[object.address]? = _ at live
  rw [Std.HashMap.getElem?_insert] at live
  split at live
  · have new : memory.created = object.serial := Option.some.inj live
    exact absurd older (new ▸ Nat.lt_irrefl _)
  · exact live

theorem isLive_drop (live : (memory.drop other).isLive object = true) :
    memory.isLive object = true := by
  unfold drop at live
  split at live
  · rw [isLive_iff] at live ⊢
    change (memory.live.erase other.address)[object.address]? = _ at live
    rw [Std.HashMap.getElem?_erase] at live
    split at live
    · cases live
    · exact live
  · exact live

end Memory

/-! ### What an entry stands for -/

/-- The objects met so far have the ids of their places, those that are alive by their entries; what
is live or was met was created before. -/
structure Tracks (memory : Memory) (ids : ObjectIds) (met : List Object) : Prop where
  next : ids.next = met.length + 1
  distinct : met.Nodup
  recorded : ∀ {address : Nat} {entry : IdEntry}, ids.entries[address]? = some entry →
    entry.object.address = address ∧ 1 ≤ entry.id ∧ met[entry.id - 1]? = some entry.object
  present : ∀ {i : Nat} {object : Object}, met[i]? = some object → memory.isLive object = true →
    ids.entries[object.address]? = some ⟨i + 1, object⟩
  older : ∀ object ∈ met, object.serial < memory.created
  created : ∀ {object : Object}, memory.isLive object = true → object.serial < memory.created

namespace Tracks

variable {memory after : Memory} {ids : ObjectIds} {met : List Object} {object : Object}

theorem start : Tracks {} {} [] where
  next := rfl
  distinct := nodup_nil
  recorded := by simp
  present := by simp
  older := by simp
  created := by simp [isLive]

/-- Nothing that was met comes to life by a change of the memory. -/
theorem change (tracks : Tracks memory ids met)
    (died : ∀ object ∈ met, after.isLive object = true → memory.isLive object = true)
    (grown : memory.created ≤ after.created)
    (created : ∀ {object : Object}, after.isLive object = true → object.serial < after.created) :
    Tracks after ids met where
  next := tracks.next
  distinct := tracks.distinct
  recorded := tracks.recorded
  present found live := tracks.present found (died _ (mem_of_getElem? found) live)
  older object mem := Nat.lt_of_lt_of_le (tracks.older object mem) grown
  created := created

theorem create (tracks : Tracks memory ids met) (address : Nat) :
    Tracks (memory.create address).1 ids met := by
  refine tracks.change (fun object mem => isLive_create (tracks.older object mem))
    (Nat.le_succ _) fun {object} live => ?_
  by_cases older : object.serial < memory.created
  · exact Nat.lt_succ_of_lt older
  · rw [isLive_iff] at live
    change (memory.live.insert address memory.created)[object.address]? = _ at live
    rw [Std.HashMap.getElem?_insert] at live
    split at live
    · exact (Option.some.inj live) ▸ Nat.lt_succ_self _
    · exact absurd (tracks.created (isLive_iff.mpr live)) older

theorem created_drop (object : Object) : (memory.drop object).created = memory.created := by
  unfold Memory.drop
  split <;> rfl

theorem drop (tracks : Tracks memory ids met) (dropped : Object) :
    Tracks (memory.drop dropped) ids met := by
  refine tracks.change (fun _ _ => isLive_drop) (Nat.le_of_eq (created_drop _).symm) ?_
  intro object live
  rw [created_drop]
  exact tracks.created (isLive_drop live)

/-- An entry that counts is that of the live object at its address. -/
theorem object_eq (tracks : Tracks memory ids met)
    (found : ids.entries[object.address]? = some entry)
    (counts : memory.isLive entry.object = true) (live : memory.isLive object = true) :
    entry.object = object :=
  eq_of_isLive counts live (tracks.recorded found).1

theorem find?_of_entry (found : ids.entries[object.address]? = some entry) :
    ids.find? memory object = if memory.isLive entry.object then some entry.id else none := by
  rw [ObjectIds.find?, found]

theorem find?_eq_some (tracks : Tracks memory ids met) (live : memory.isLive object = true)
    {id : Nat} (found : ids.find? memory object = some id) :
    1 ≤ id ∧ met[id - 1]? = some object := by
  cases entered : ids.entries[object.address]? with
  | none =>
    rw [ObjectIds.find?, entered] at found
    cases found
  | some entry =>
    rw [find?_of_entry entered] at found
    split at found
    · next counts =>
      cases found
      rw [← tracks.object_eq entered counts live]
      exact (tracks.recorded entered).2
    · cases found

theorem not_mem_of_find? (tracks : Tracks memory ids met) (live : memory.isLive object = true)
    (missing : ids.find? memory object = none) : object ∉ met := by
  intro mem
  obtain ⟨i, found⟩ := mem_iff_getElem?.mp mem
  rw [find?_of_entry (tracks.present found live), if_pos live] at missing
  cases missing

/-! ### Asking -/

/-- Entries that count outlive a sweep, and others have no part in anything. -/
theorem sweep (tracks : Tracks memory ids met) : Tracks memory (ids.sweep memory) met := by
  unfold ObjectIds.sweep
  split
  · exact tracks
  · refine { tracks with recorded := fun {address entry} found => ?_, present := ?_ }
    · rw [Std.HashMap.getElem?_filter'] at found
      exact tracks.recorded (Option.eq_some_of_filter_eq_some found)
    · intro i object found live
      show (Std.HashMap.filter _ _)[object.address]? = _
      rw [Std.HashMap.getElem?_filter', tracks.present found live]
      simp [live]

/-- An object that is met gets the next id, under its address. -/
theorem meet (tracks : Tracks memory ids met) (live : memory.isLive object = true)
    (new : object ∉ met) :
    Tracks memory { next := ids.next + 1
                    entries := ids.entries.insert object.address ⟨ids.next, object⟩
                    sinceSweep := ids.sinceSweep + 1 } (met ++ [object]) where
  next := by
    show ids.next + 1 = _
    rw [tracks.next, length_append]
    rfl
  distinct := by
    refine nodup_append.mpr ⟨tracks.distinct, by simp, fun other old same isNew => ?_⟩
    rw [mem_singleton.mp isNew]
    rintro rfl
    exact new old
  recorded := by
    intro address entry found
    change (ids.entries.insert object.address _)[address]? = some entry at found
    rw [Std.HashMap.getElem?_insert] at found
    split at found
    · next same =>
      cases found
      refine ⟨eq_of_beq same, ?_⟩
      rw [tracks.next, Nat.add_sub_cancel]
      exact ⟨Nat.le_add_left 1 _, getElem?_concat_length⟩
    · obtain ⟨here, positive, place⟩ := tracks.recorded found
      rw [getElem?_append_left (List.getElem?_eq_some_iff.mp place).1]
      exact ⟨here, positive, place⟩
  present := by
    intro i other found live'
    show (ids.entries.insert object.address _)[other.address]? = _
    rw [Std.HashMap.getElem?_insert]
    rw [getElem?_append] at found
    split at found
    · -- an object met before has its own address, as both are alive
      have apart : object.address ≠ other.address := fun same =>
        new (eq_of_isLive live live' same ▸ mem_of_getElem? found)
      rw [if_neg (by simpa using apart)]
      exact tracks.present found live'
    · next beyond =>
      obtain ⟨isLast, rfl⟩ : i - met.length = 0 ∧ object = other := by
        simpa [getElem?_singleton] using found
      have place : i = met.length := by omega
      rw [if_pos (by simp), tracks.next, place]
  older := by
    intro other mem
    rcases mem_append.mp mem with old | isNew
    · exact tracks.older other old
    · rw [mem_singleton.mp isNew]
      exact tracks.created live
  created := tracks.created

/-- The id of a live object is its place among those that were met, where it is put if it was
not. -/
theorem idOf (tracks : Tracks memory ids met) (live : memory.isLive object = true)
    (room : object ∉ met → met.length + 1 < lastWord) :
    ∃ id after, ObjectIds.idOf memory object ids = .ok id after ∧
      Tracks memory after (if object ∈ met then met else met ++ [object]) ∧
      1 ≤ id ∧ (if object ∈ met then met else met ++ [object])[id - 1]? = some object := by
  unfold ObjectIds.idOf
  rw [Step.get_bind]
  cases found : ids.find? memory object with
  | some id =>
    have place := tracks.find?_eq_some live found
    rw [if_pos (mem_of_getElem? place.2)]
    exact ⟨id, ids, rfl, tracks, place⟩
  | none =>
    have new := tracks.not_mem_of_find? live found
    have below : ids.next < lastWord := tracks.next ▸ room new
    dsimp only
    rw [if_neg new, if_pos below]
    refine ⟨ids.next, _, rfl, (tracks.meet live new).sweep, ?_, ?_⟩
    · rw [tracks.next]
      exact Nat.le_add_left 1 _
    · rw [tracks.next, Nat.add_sub_cancel]
      exact getElem?_concat_length

/-! ### Counting -/

/-- Entries that count are as many as the objects met that are alive, each being that of one. -/
theorem live_eq (tracks : Tracks memory ids met) :
    ids.live memory = (met.filter memory.isLive).length := by
  let counting := (ids.entries.filter fun _ entry => memory.isLive entry.object).toList
  have mem_counting : ∀ {address : Nat} {entry : IdEntry}, (address, entry) ∈ counting ↔
      ids.entries[address]? = some entry ∧ memory.isLive entry.object = true := by
    intro address entry
    rw [Std.HashMap.mem_toList_iff_getElem?_eq_some, Std.HashMap.getElem?_filter',
      Option.filter_eq_some_iff]
  have apart : (counting.map fun item => item.2.object).Nodup := by
    refine pairwise_map.mpr (List.Pairwise.imp_of_mem ?_ Std.HashMap.distinct_keys_toList)
    rintro ⟨address, entry⟩ ⟨address', entry'⟩ mem member' differ same
    have here := (tracks.recorded (mem_counting.mp mem).1).1
    have here' := (tracks.recorded (mem_counting.mp member').1).1
    rw [← here, ← here', same, beq_self_eq_true] at differ
    cases differ
  have all : ∀ object, object ∈ counting.map (fun item => item.2.object) ↔
      object ∈ met.filter memory.isLive := by
    intro object
    rw [mem_map, mem_filter]
    constructor
    · rintro ⟨⟨address, entry⟩, mem, rfl⟩
      obtain ⟨found, counts⟩ := mem_counting.mp mem
      exact ⟨mem_of_getElem? (tracks.recorded found).2.2, counts⟩
    · rintro ⟨mem, live⟩
      obtain ⟨i, found⟩ := mem_iff_getElem?.mp mem
      exact ⟨(object.address, ⟨i + 1, object⟩), mem_counting.mpr ⟨tracks.present found live, live⟩,
        rfl⟩
  calc ids.live memory
      = counting.length := Std.HashMap.length_toList.symm
    _ = (counting.map fun item => item.2.object).length := (length_map _).symm
    _ = (met.filter memory.isLive).length :=
      ((perm_ext_iff_of_nodup apart (tracks.distinct.filter _)).mpr all).length_eq

end Tracks

/-! ### The life of a trace -/

theorem eraseDups_concat {seen : List Object} {object : Object} : (seen ++ [object]).eraseDups =
      if object ∈ seen.eraseDups then seen.eraseDups else seen.eraseDups ++ [object] := by
  rw [eraseDups_append]
  by_cases met : object ∈ seen <;> simp [met, List.removeAll, eraseDups_cons]

theorem getElem?_of_prefix {xs ys : List Object} {i : Nat} {object : Object} (isPrefix : xs <+: ys)
    (found : xs[i]? = some object) : ys[i]? = some object := by
  obtain ⟨more, rfl⟩ := isPrefix
  rwa [getElem?_append_left (List.getElem?_eq_some_iff.mp found).1]

theorem prefix_eraseDups {seen : List Object} : seen.eraseDups <+: (seen ++ more).eraseDups := by
  rw [eraseDups_append]
  exact prefix_append _ _

/-- The place of an object among the different ones of a list, counted from one. -/
def number (met : List Object) (object : Object) : Nat := met.eraseDups.idxOf object + 1

/-- A live object that is asked about gets its place among all that are, whatever is asked later. -/
theorem Tracks.idOf_eq {memory : Memory} {ids : ObjectIds} {seen more : List Object}
    {object : Object}
    (tracks : Tracks memory ids seen.eraseDups) (live : memory.isLive object = true)
    (few : ((seen ++ [object]) ++ more).eraseDups.length < lastWord) :
    ∃ after,
      ObjectIds.idOf memory object ids = .ok (number ((seen ++ [object]) ++ more) object) after ∧
      Tracks memory after (seen ++ [object]).eraseDups := by
  have soFar : (seen ++ [object]).eraseDups <+: ((seen ++ [object]) ++ more).eraseDups :=
    prefix_eraseDups
  have room : object ∉ seen.eraseDups → seen.eraseDups.length + 1 < lastWord := by
    intro new
    refine Nat.lt_of_le_of_lt ?_ few
    have longer := soFar.length_le
    rwa [eraseDups_concat, if_neg new, length_append] at longer
  obtain ⟨id, after, given, tracks, positive, place⟩ := tracks.idOf live room
  rw [← eraseDups_concat] at tracks place
  have later := getElem?_of_prefix soFar place
  obtain ⟨below, same⟩ := List.getElem?_eq_some_iff.mp later
  have index := (nodup_eraseDups _).idxOf_getElem (id - 1) below
  rw [same] at index
  exact ⟨after, by rw [given, Trace.number, index, Nat.sub_add_cancel positive], tracks⟩

/-- Along permitted moves every object asked about gets its place among all that are, after those
that were seen before. -/
theorem exists_answers {memory : Memory} {ids : ObjectIds} {seen : List Object} {moves : List Move}
    (tracks : Tracks memory ids seen.eraseDups) (permitted : memory.permitsAll moves = true)
    (few : (seen ++ asked moves).eraseDups.length < lastWord) :
    ∃ answers after, memory.answers moves ids = .ok answers after ∧
      answers.map (·.1) = asked moves ∧
      (∀ answer ∈ answers, 1 ≤ answer.2 ∧
        (seen ++ asked moves).eraseDups[answer.2 - 1]? = some answer.1) ∧
      Tracks (moves.foldl move memory) after (seen ++ asked moves).eraseDups := by
  induction moves generalizing memory ids seen with
  | nil =>
    refine ⟨[], ids, rfl, rfl, nofun, ?_⟩
    show Tracks memory ids (seen ++ []).eraseDups
    rwa [append_nil]
  | cons move rest ih =>
    obtain ⟨here, later⟩ := Bool.and_eq_true_iff.mp permitted
    cases move with
    | create address => exact ih (tracks.create address) later few
    | drop object => exact ih (tracks.drop object) later few
    | ask object =>
      have split : seen ++ asked (.ask object :: rest) = (seen ++ [object]) ++ asked rest := by
        rw [append_assoc]
        rfl
      rw [split] at few ⊢
      obtain ⟨between, given, tracks⟩ := tracks.idOf_eq here few
      obtain ⟨answers, after, answered, objects, places, tracks⟩ := ih tracks later few
      refine ⟨(object, number ((seen ++ [object]) ++ asked rest) object) :: answers, after,
        ?_, ?_, ?_, tracks⟩
      · rw [Memory.answers, Step.bind_of_ok given]
        exact Step.bind_of_ok answered
      · rw [map_cons, objects]
        rfl
      · intro answer mem
        rcases mem_cons.mp mem with rfl | mem
        · exact ⟨Nat.succ_pos _, List.getElem?_eq_some_iff.mpr
            ⟨idxOf_lt_length_of_mem (by simp), getElem_idxOf _⟩⟩
        · exact places answer mem

/-- A trace asks about live objects while others are created and dropped, a new one perhaps at the
address of one that is gone. As long as fewer than all positive words are needed, every question is
answered, the `n`-th different object gets id `n` whenever it is asked about, so two answers give
the same id exactly if they are about the same object; and the objects counted as live are those
asked about so far that are alive. -/
theorem ids_follow_identity (moves : List Move)
    (permitted : Memory.permitsAll {} moves = true)
    (few : (asked moves).eraseDups.length < 2147483647) :
    ∃ answers ids, Memory.answers {} moves {} = .ok answers ids ∧
      answers.map (·.1) = asked moves ∧
      (∀ answer ∈ answers, 1 ≤ answer.2 ∧
        (asked moves).eraseDups[answer.2 - 1]? = some answer.1) ∧
      (∀ answer ∈ answers, ∀ other ∈ answers, answer.2 = other.2 ↔ answer.1 = other.1) ∧
      ids.live (moves.foldl Memory.move {}) =
        ((asked moves).eraseDups.filter (moves.foldl Memory.move {}).isLive).length := by
  obtain ⟨answers, ids, answered, objects, places, tracks⟩ :=
    @exists_answers {} {} [] moves Tracks.start permitted few
  refine ⟨answers, ids, answered, objects, places, fun answer member other member' => ?_,
    tracks.live_eq⟩
  obtain ⟨positive, place⟩ := places answer member
  obtain ⟨positive', place'⟩ := places other member'
  constructor
  · intro same
    rw [same, place'] at place
    exact (Option.some.inj place).symm
  · intro same
    rw [same] at place
    have below := (List.getElem?_eq_some_iff.mp place).1
    have equal := (List.getElem?_inj below tracks.distinct).mp (place.trans place'.symm)
    omega

/-- Two objects that had one address one after the other, the first asked about twice and the second
once it is gone, with a third beside them. -/
theorem ids_follow_identity_reused :
    let moves : List Move :=
      [.create 8, .ask ⟨8, 0⟩, .create 16, .ask ⟨16, 1⟩, .ask ⟨8, 0⟩, .drop ⟨8, 0⟩, .create 8,
        .ask ⟨8, 2⟩]
    Memory.permitsAll {} moves = true ∧ (asked moves).eraseDups.length < 2147483647 ∧
      ∃ answers ids, Memory.answers {} moves {} = .ok answers ids ∧
        answers.map (·.1) = [⟨8, 0⟩, ⟨16, 1⟩, ⟨8, 0⟩, ⟨8, 2⟩] ∧
        ids.live (moves.foldl Memory.move {}) = 2 := by
  intro moves
  have permitted : Memory.permitsAll {} moves = true := by
    simp [moves, Memory.permitsAll, Memory.permits, Memory.move, Memory.create, Memory.drop,
      Memory.isLive, Std.HashMap.getElem_insert]
  have few : (asked moves).eraseDups.length < 2147483647 := by decide
  obtain ⟨answers, ids, answered, objects, _, _, live⟩ := ids_follow_identity moves permitted few
  refine ⟨permitted, few, answers, ids, answered, objects, live.trans ?_⟩
  show ([⟨8, 0⟩, ⟨16, 1⟩, ⟨8, 2⟩].filter (moves.foldl Memory.move {}).isLive).length = 2
  simp [moves, Memory.move, Memory.create, Memory.drop, Memory.isLive, Std.HashMap.getElem_insert]

end ProgramAnalysis.Trace
