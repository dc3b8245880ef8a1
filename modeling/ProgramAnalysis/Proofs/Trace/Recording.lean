import ProgramAnalysis.Proofs.Trace
import ProgramAnalysis.Proofs.Trace.Identity

/-!
A trace holds exactly the calls whose kind is selected. A program is the list of what it does with
objects and with the tracer (`Act`). Following it, a selected call asks for the ids of its objects
and puts its words, a question asks for an id, and nothing else changes the tracer.
-/

namespace ProgramAnalysis.Trace

open Tracer Step List Writer

/-! ### Calls -/

namespace Call

/-- The event that a call tells of, given the ids of objects. -/
def event (id : Object → Int32) : Call → Event
  | newObject site object => .new site (id object)
  | newArray site array => .newArray site (id array)
  | fieldRead access base field => .fieldRead access base field
  | fieldWrite access base field value => .fieldWrite access base field value
  | arrayRead access base index => .arrayRead access base index
  | arrayWrite access base index value => .arrayWrite access base index value
  | staticWrite value => .staticWrite value
  | acquireLock site object => .acquireLock site object
  | threadStart thread => .threadStart thread
  | threadSpawn thread => .threadSpawn thread
  | methodEnter receiver method => .methodEnter receiver method
  | methodLeave receiver method => .methodLeave receiver method

def kind (call : Call) : EventKind := (call.event fun _ => 0).kind

/-- The object that a call allocates. -/
def allocated? : Call → Option Object
  | newObject _ object | newArray _ object => some object
  | _ => none

theorem kind_event (id : Object → Int32) (call : Call) : (call.event id).kind = call.kind := by
  cases call <;> rfl

end Call

namespace Tracer

variable {tracer : Tracer} {memory : Memory} {call : Call}

theorem report_of_unselected (unselected : tracer.scheme.selects call.kind = false) :
    report memory call tracer = .ok () tracer := by
  have dropped (event : Event) (same : event.kind = call.kind) : tracer.record event = tracer := by
    rw [record, same, unselected]
    rfl
  have skipped (kind : EventKind) (same : kind = call.kind) (event : Int32 → Event)
      (object : Object) : allocated memory kind event object tracer = .ok () tracer := by
    rw [allocated, get_bind, same, unselected]
    rfl
  cases call with
  | newObject site object => exact skipped .new rfl _ object
  | newArray site object => exact skipped .newArray rfl _ object
  | _ => exact congrArg (EStateM.Result.ok ()) (dropped _ rfl)

theorem report_of_none (selected : tracer.scheme.selects call.kind = true)
    (none : call.allocated? = none) (id : Object → Int32) :
    report memory call tracer =
      .ok () { tracer with writer := tracer.writer.write (call.event id) } := by
  have recorded (event : Event) (same : event.kind = call.kind) :
      tracer.record event = { tracer with writer := tracer.writer.write event } := by
    rw [record, same, selected]
    rfl
  cases call with
  | newObject | newArray => cases none
  | _ => exact congrArg (EStateM.Result.ok ()) (recorded _ rfl)

theorem report_of_some (selected : tracer.scheme.selects call.kind = true)
    (some : call.allocated? = some object) {number : Nat} {ids : ObjectIds}
    (given : ObjectIds.idOf memory object tracer.ids = .ok number ids) {id : Object → Int32}
    (same : id object = Int32.ofNat number) :
    report memory call tracer =
      .ok () { tracer with ids, writer := tracer.writer.write (call.event id) } := by
  have named : idOf memory object tracer = .ok number { tracer with ids } :=
    onPart_eq_ok.mpr ⟨ids, given, rfl⟩
  have written (kind : EventKind) (isKind : kind = call.kind) (event : Int32 → Event)
      (made : event (Int32.ofNat number) = call.event id) :
      allocated memory kind event object tracer =
        .ok () { tracer with ids, writer := tracer.writer.write (call.event id) } := by
    rw [allocated, get_bind, isKind, selected, if_pos rfl, bind_of_ok named, made]
    show EStateM.Result.ok () (record _ _) = _
    rw [record, Call.kind_event, selected]
    rfl
  cases call with
  | newObject site _ =>
    cases some
    exact written .new rfl _ (congrArg (Event.new site) same.symm)
  | newArray site _ =>
    cases some
    exact written .newArray rfl _ (congrArg (Event.newArray site) same.symm)
  | _ => cases some

end Tracer

/-! ### Programs -/

/-- What a program does: something to its objects, a question for an id, or a call. -/
inductive Act where
  | move (move : Move)
  | report (call : Call)

namespace Act

/-- What an act does to objects and ids if these kinds of calls are selected: an allocation then
asks for the id of its object. -/
def moves (selects : EventKind → Bool) : Act → List Move
  | .move made => [made]
  | .report call => if selects call.kind then call.allocated?.toList.map .ask else []

def call? : Act → Option Call
  | .move _ => none
  | .report call => some call

end Act

/-- What comes of acts in turn, with the answers to questions. -/
def Tracer.follow (memory : Memory) : List Act → Step Tracer (List (Object × Nat))
  | [] => return []
  | .report call :: rest => do
    report memory call
    follow memory rest
  | .move (.ask object) :: rest => do
    let id ← idOf memory object
    return (object, id) :: (← follow memory rest)
  | .move move :: rest => follow (memory.move move) rest

/-- The objects that are asked about if these kinds of calls are selected. -/
def touched (selects : EventKind → Bool) (acts : List Act) : List Object :=
  asked (acts.flatMap (Act.moves selects))

/-- The events of the calls that are selected, with objects numbered as they are met. -/
def selected (scheme : Scheme) (met : List Object) (acts : List Act) : List Event :=
  ((acts.filterMap Act.call?).filter (scheme.selects ·.kind)).map
    (Call.event fun object => Int32.ofNat (number met object))

theorem touched_cons (selects : EventKind → Bool) (act : Act) (rest : List Act) :
    touched selects (act :: rest) = touched selects [act] ++ touched selects rest := by
  simp [touched, asked]

theorem selected_cons (scheme : Scheme) (met : List Object) (act : Act) (rest : List Act) :
    selected scheme met (act :: rest) = selected scheme met [act] ++ selected scheme met rest := by
  cases act with
  | move => rfl
  | report call =>
    by_cases picked : scheme.selects call.kind = true <;> simp [selected, Act.call?, picked]

theorem permitsAll_report {memory : Memory} (permitted : memory.permitsAll
      ((Act.report call :: rest).flatMap (Act.moves fun _ => true)) = true) :
    (∀ object ∈ call.allocated?, memory.isLive object = true) ∧
      memory.permitsAll (rest.flatMap (Act.moves fun _ => true)) = true := by
  rw [flatMap_cons, Act.moves, if_pos rfl] at permitted
  cases allocates : call.allocated? with
  | none =>
    rw [allocates] at permitted
    exact ⟨fun _ none => absurd none (by simp), permitted⟩
  | some object =>
    rw [allocates] at permitted
    obtain ⟨live, later⟩ := Bool.and_eq_true_iff.mp permitted
    refine ⟨fun other same => ?_, later⟩
    cases same
    exact live

/-- A call is recorded as long as there are ids for all objects met. -/
theorem exists_report {tracer : Tracer} {seen more : List Object} {call : Call}
    (tracks : Tracks memory tracer.ids seen.eraseDups)
    (live : ∀ object ∈ call.allocated?, memory.isLive object = true) :
    let met := seen ++ touched tracer.scheme.selects [.report call]
    (met ++ more).eraseDups.length < ObjectIds.lastWord →
    ∃ after, report memory call tracer = .ok () after ∧
      Tracks memory after.ids met.eraseDups ∧ after.scheme = tracer.scheme ∧
      after.writer = (selected tracer.scheme (met ++ more) [.report call]).foldl write
        tracer.writer := by
  intro met few
  by_cases picked : tracer.scheme.selects call.kind = true
  · have told : selected tracer.scheme (met ++ more) [.report call] =
        [call.event fun object => Int32.ofNat (number (met ++ more) object)] := by
      simp [selected, Act.call?, picked]
    rw [told]
    cases allocates : call.allocated? with
    | none =>
      have same : met = seen := by simp [met, touched, Act.moves, allocates, asked]
      exact ⟨_, report_of_none picked allocates _, same ▸ tracks, rfl, rfl⟩
    | some object =>
      have same : met = seen ++ [object] := by
        simp [met, touched, Act.moves, picked, allocates, asked]
      rw [same] at few ⊢
      obtain ⟨ids, given, tracks⟩ := tracks.idOf_eq (live object allocates) few
      exact ⟨_, report_of_some picked allocates given rfl, tracks, rfl, rfl⟩
  · have same : met = seen := by simp [met, touched, Act.moves, picked, asked]
    have none : selected tracer.scheme (met ++ more) [.report call] = [] := by
      simp [selected, Act.call?, picked]
    rw [none]
    exact ⟨tracer, report_of_unselected (Bool.eq_false_iff.mpr picked), same ▸ tracks, rfl, rfl⟩

/-- Along permitted acts every question is answered by the number of its object, and what is written
are the calls that are selected. -/
theorem exists_follow {tracer : Tracer} {seen : List Object} {acts : List Act}
    (tracks : Tracks memory tracer.ids seen.eraseDups)
    (permitted : memory.permitsAll (acts.flatMap (Act.moves fun _ => true)) = true)
    (few : (seen ++ touched tracer.scheme.selects acts).eraseDups.length < ObjectIds.lastWord) :
    let met := seen ++ touched tracer.scheme.selects acts
    ∃ after, follow memory acts tracer =
        .ok ((touched (fun _ => false) acts).map fun object => (object, number met object)) after ∧
      after.scheme = tracer.scheme ∧
      after.writer = (selected tracer.scheme met acts).foldl write tracer.writer := by
  induction acts generalizing memory tracer seen with
  | nil => exact ⟨tracer, rfl, rfl, rfl⟩
  | cons act rest ih =>
    cases act with
    | move move =>
      obtain ⟨here, later⟩ := Bool.and_eq_true_iff.mp permitted
      cases move with
      | create address => exact ih (tracks.create address) later few
      | drop object => exact ih (tracks.drop object) later few
      | ask object =>
        have split : seen ++ touched tracer.scheme.selects (.move (.ask object) :: rest) =
            (seen ++ [object]) ++ touched tracer.scheme.selects rest := by
          rw [append_assoc]
          rfl
        rw [split] at few ⊢
        obtain ⟨ids, given, tracks⟩ := tracks.idOf_eq here few
        have named : idOf memory object tracer = .ok _ { tracer with ids } :=
          onPart_eq_ok.mpr ⟨ids, given, rfl⟩
        obtain ⟨after, followed, kept⟩ := @ih memory { tracer with ids } _ tracks later few
        exact ⟨after, (bind_of_ok named).trans (bind_of_ok followed), kept⟩
    | report call =>
      obtain ⟨live, later⟩ := permitsAll_report permitted
      rw [touched_cons, ← append_assoc] at few
      obtain ⟨between, reported, tracks, kept, written⟩ := exists_report tracks live few
      obtain ⟨after, followed, kept', written'⟩ := ih tracks later (kept ▸ few)
      intro met
      have sameMet : met = seen ++ touched tracer.scheme.selects [.report call] ++
          touched tracer.scheme.selects rest := by rw [append_assoc, ← touched_cons]
      have silent : touched (fun _ => false) (.report call :: rest) =
          touched (fun _ => false) rest := rfl
      rw [kept] at followed kept' written'
      rw [silent, selected_cons, foldl_append, sameMet, ← written]
      exact ⟨after, (bind_of_ok reported).trans followed, kept', written'⟩

theorem events_foldl_write (writer : Writer) (events : List Event) :
    (events.foldl write writer).events = writer.events + events.length := by
  induction events generalizing writer with
  | nil => rfl
  | cons event rest ih =>
    rw [foldl_cons, ih, length_cons, Nat.add_comm rest.length, ← Nat.add_assoc]
    rfl

/-- A program creates and drops objects, asks for ids and makes calls. Whatever kinds are selected
and however large blocks are, as long as there are ids: the finished trace is read back as the calls
of these kinds, in order and with their operands, and as many are counted. An object is given by its
number among all that were asked about or whose allocation was selected, also in the answer to every
question. A call that is not selected changes nothing, so it gives no id. -/
theorem selected_recorded (scheme : Scheme) (blockSize readSize : Nat) (large : 8 ≤ blockSize)
    (room : 1 ≤ readSize) (acts : List Act)
    (permitted : Memory.permitsAll {} (acts.flatMap (Act.moves fun _ => true)) = true)
    (few : (touched scheme.selects acts).eraseDups.length < 2147483647) :
    let met := touched scheme.selects acts
    ∃ tracer after, Tracer.create blockSize scheme = .ok tracer ∧
      Tracer.follow {} acts tracer =
        .ok ((touched (fun _ => false) acts).map fun object => (object, number met object)) after ∧
      readAll readSize after.finish = .ok (selected scheme met acts) ∧
      after.writer.events = (selected scheme met acts).length ∧
      (∀ object ∈ met, (Int32.ofNat (number met object)).toInt = number met object) ∧
      ∀ memory call, scheme.selects call.kind = false →
        Tracer.report memory call after = .ok () after := by
  intro met
  let tracer : Tracer := { writer := { out := { blockSize } }, scheme }
  have empty : Writer.create blockSize = .ok tracer.writer := if_neg (Nat.not_lt.mpr large)
  have created : Tracer.create blockSize scheme = .ok tracer := by
    rw [Tracer.create, empty]
    rfl
  obtain ⟨after, followed, kept, written⟩ :=
    @exists_follow {} tracer [] acts Tracks.start permitted few
  refine ⟨tracer, after, created, followed, ?_, ?_, fun object member => ?_,
    fun memory call dropped => Tracer.report_of_unselected (kept ▸ dropped)⟩
  · rw [readAll_eq_ok room, Tracer.finish]
    show after.writer.out.flush.written = _
    rw [BlockWriter.written_flush, written, Writer.content_foldl_write]
    rfl
  · rw [written, events_foldl_write]
    exact Nat.zero_add _
  · have below : met.eraseDups.idxOf object < met.eraseDups.length :=
      List.idxOf_lt_length_of_mem (by simpa using member)
    change met.eraseDups.length < _ at few
    rw [Int32.toInt_ofNat_of_lt (by rw [number]; omega)]

/-- Arrays and static writes are recorded. The object that is allocated first gets no id before it
is asked about, and the second array has the address of the first. -/
theorem selected_recorded_arrays :
    let scheme : Scheme := .only .newArray ||| .only .staticWrite
    let acts : List Act :=
      [.move (.create 8), .report (.newObject 4 ⟨8, 0⟩), .move (.create 16),
        .report (.newArray 5 ⟨16, 1⟩), .move (.ask ⟨8, 0⟩), .move (.drop ⟨16, 1⟩),
        .move (.create 16), .report (.newArray 6 ⟨16, 2⟩), .report (.methodEnter 2 7),
        .report (.staticWrite 2)]
    Memory.permitsAll {} (acts.flatMap (Act.moves fun _ => true)) = true ∧
      (touched scheme.selects acts).eraseDups.length < 2147483647 ∧
      ∃ tracer after, Tracer.create 9 scheme = .ok tracer ∧
        Tracer.follow {} acts tracer = .ok [(⟨8, 0⟩, 2)] after ∧
        readAll 3 after.finish = .ok [.newArray 5 1, .newArray 6 3, .staticWrite 2] := by
  intro scheme acts
  have permitted : Memory.permitsAll {} (acts.flatMap (Act.moves fun _ => true)) = true := by
    simp [acts, Act.moves, Call.allocated?, Memory.permitsAll, Memory.permits, Memory.move,
      Memory.create, Memory.drop, Memory.isLive, Std.HashMap.getElem_insert]
  have few : (touched scheme.selects acts).eraseDups.length < 2147483647 := by decide
  have answers : ((touched (fun _ => false) acts).map fun object =>
      (object, number (touched scheme.selects acts) object)) = [(⟨8, 0⟩, 2)] := by decide
  have events : selected scheme (touched scheme.selects acts) acts =
      [.newArray 5 1, .newArray 6 3, .staticWrite 2] := by decide
  obtain ⟨tracer, after, created, followed, read, _⟩ :=
    selected_recorded scheme 9 3 (by decide) (by decide) acts permitted few
  exact ⟨permitted, few, tracer, after, created, answers ▸ followed, events ▸ read⟩

end ProgramAnalysis.Trace
