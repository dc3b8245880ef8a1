import ProgramAnalysis.Proofs.Escape.Sites
import ProgramAnalysis.Proofs.Store.Filling
import ProgramAnalysis.Proofs.Trace
import ProgramAnalysis.Task

/-!
What the replay of a trace file publishes. Reading hands the events on one by one, so the replay
ends where the events of the file lead it (`leaves_replay`). If the file is not a whole trace
nothing has been published yet. Otherwise both relations are written from the accesses that were
noted.
-/

namespace ProgramAnalysis

open Trace Store SortedSet List Step Numeral

/-! ### Replaying what is read -/

namespace Trace

theorem leaves_replay {σ : Type} (f : σ → Event → σ) (start : σ) (blockSize : Nat)
    (bytes : List UInt8) :
    ((Reader.ofBytes blockSize bytes).process (fun event => modify (f · event)) 0).leaves start =
      (readAll blockSize bytes).map (·.foldl f start) := by
  rw [Reader.leaves_process, readAll_eq]
  cases (Reader.ofBytes blockSize bytes).results.2 <;> rfl

theorem broken_of_readAll (failed : readAll blockSize bytes = .error fault) :
    ∃ broken, fault = .trace broken := by
  rw [readAll_eq] at failed
  split at failed
  · cases failed
  · next broken _ =>
    cases failed
    exact ⟨broken, rfl⟩

/-- In blocks without room every trace looks empty. -/
theorem readAll_zero (bytes : List UInt8) : readAll 0 bytes = .ok [] := by
  have ended : (Reader.ofBytes 0 bytes).read = .finished := rfl
  rw [readAll_eq, Reader.results_of_finished ended]

end Trace

/-! ### Publishing -/

namespace EscapeSetup

variable {setup : EscapeSetup} {store : Store} {path : String} {content : Content}
  {accesses sites : AnyDomain} {works : Prop}

/-- The accesses that count as escaping. -/
def escaping (setup : EscapeSetup) (state : Escape) : SortedSet Nat :=
  if setup.flowInsensitive then state.flowInsensitive else state.flowSensitive

def publish (setup : EscapeSetup) (state : Escape) : Step Store Unit := do
  fillRelation "visitedE" (state.visited.toList.map fun e => [e])
  fillRelation "escE" ((setup.escaping state).toList.map fun e => [e])

/-- Both relations load, and hold the accesses that were visited and those that escape. -/
structure Reports (setup : EscapeSetup) (state : Escape) (store : Store) : Prop where
  visited : ∃ tuples, store.Loads "visitedE" tuples ∧
    ∀ tuple, tuple ∈ tuples ↔ ∃ access ∈ state.visited, tuple = [access]
  escaping : ∃ tuples, store.Loads "escE" tuples ∧
    ∀ tuple, tuple ∈ tuples ↔ ∃ access ∈ setup.escaping state, tuple = [access]

/-- The disk works for both relations once the work directory is made, as far as it is missing. -/
def HasRoom (store : Store) : Prop :=
  store.disk.hasRoom store.dir (fileOf "visitedE") = true ∧
    store.disk.hasRoom store.dir (fileOf "escE") = true

/-- The relations are declared as the task declares them. -/
def Declares (setup : EscapeSetup) (store : Store) : Prop :=
  ∀ entry ∈ (Task.ofEscape setup).relations, store.signature? entry.1 = some entry.2

/-- The signature of a set of accesses. -/
abbrev ofAccesses : Signature := ⟨["E0"], "E0"⟩

theorem writable_ofAccesses : Writable ofAccesses :=
  ⟨by rfl, by simp [Relation.Spelled, Text.isBlank], by decide⟩

theorem mem_singles {set : SortedSet Nat} :
    tuple ∈ ofList (set.toList.map fun e => [e]) ↔ ∃ access ∈ set, tuple = [access] := by
  rw [mem_ofList, mem_map]
  exact exists_congr fun _ => and_congr_right fun _ => eq_comm

theorem loads_of_listed {set : SortedSet Nat} (hasE : store.domains.get? "E" = some accesses)
    (fits : accesses.domain.size < sizeLimit) (declared : store.signature? name = some ofAccesses)
    (listed : store.Listed name [accesses.domain.size] (.ofList (set.toList.map fun e => [e])))
    (below : ∀ access ∈ set, access < accesses.domain.size) :
    ∃ tuples, store.Loads name tuples ∧
      ∀ tuple, tuple ∈ tuples ↔ ∃ access ∈ set, tuple = [access] := by
  refine ⟨_, @Store.Listed.loads store name ofAccesses _ (fun _ => accesses.domain.size) listed
    declared writable_ofAccesses ?_ (fun _ _ => fits) ?_, fun _ => mem_singles⟩
  · intro major mem
    obtain rfl := mem_singleton.mp mem
    exact ⟨accesses, hasE, rfl⟩
  · intro tuple mem
    obtain ⟨access, among, rfl⟩ := mem_singles.mp mem
    exact Relation.within_single.mpr (below access among)

/-- What is known after a replay is published unless the disk prevents it. -/
theorem yields_publish {state : Escape} (declares : setup.Declares store)
    (hasE : store.domains.get? "E" = some accesses)
    (fits : accesses.domain.size < sizeLimit)
    (visited : ∀ access ∈ state.visited, access < accesses.domain.size)
    (escaped : ∀ access ∈ setup.escaping state, access < accesses.domain.size) :
    (setup.publish state).Yields (HasRoom store) store fun _ after =>
      setup.Reports state after := by
  have sized {other : Store} (same : other.domains = store.domains) :
      other.Sized (fun _ => accesses.domain.size) ofAccesses := by
    intro major mem
    obtain rfl := mem_singleton.mp mem
    exact ⟨accesses, same ▸ hasE, rfl⟩
  have single (set : SortedSet Nat) :
      ∀ tuple ∈ set.toList.map fun e => [e], tuple.length = ofAccesses.arity := by
    intro tuple mem
    obtain ⟨_, _, rfl⟩ := mem_map.mp mem
    rfl
  have declaredVisited : store.signature? "visitedE" = some ofAccesses := declares _ (.head _)
  have declaredEscaping : store.signature? "escE" = some ofAccesses :=
    declares _ (.tail _ (.head _))
  refine Yields.bind ((yields_fillRelation_of_hasRoom declaredVisited (by decide)
    (sized rfl) (single _) And.left).imp fun _ between _ filled => ?_)
  obtain ⟨keeps, listed, once⟩ := filled
  have room (working : HasRoom store) : between.disk.isOpen between.dir (fileOf "escE") = true := by
    obtain ⟨made, making, opened⟩ := Disk.isOpen_of_hasRoom (plain_fileOf (by decide)) working.2
    obtain ⟨_, making', folders⟩ := once working
    cases making.symm.trans making'
    rw [keeps.dir]
    exact folders.isOpen opened
  have stillDeclared := (keeps.signatures "escE").trans declaredEscaping
  refine (yields_fillRelation stillDeclared (by decide) (sized keeps.domains) (single _)
    room).imp fun _ after _ filled => ?_
  obtain ⟨keeps', listed', _⟩ := filled
  have stillE : after.domains.get? "E" = some accesses := by
    rw [keeps'.domains, keeps.domains]
    exact hasE
  constructor
  · refine loads_of_listed stillE fits ?_ (listed.of_keepsBut keeps' (plain_fileOf (by decide))
      (by decide)) visited
    exact (keeps'.signatures _).trans ((keeps.signatures _).trans declaredVisited)
  · exact loads_of_listed stillE fits ((keeps'.signatures _).trans stillDeclared) listed' escaped

theorem lt_of_mem_escaping (mem : access ∈ setup.escaping (.after accessBound siteBound events)) :
    access < accessBound := by
  unfold escaping at mem
  split at mem
  · obtain ⟨_, _, below, _⟩ := ((Escape.orderly_after _ _ events).settled.known access).mp mem
    exact below
  · exact (Escape.mem_flowSensitive_after.mp mem).1

/-! ### Running -/

section Run

variable (named : setup.traceFile = some path) (there : store.disk.read path = .ok content)
  (hasE : store.domains.get? "E" = some accesses) (hasH : store.domains.get? "H" = some sites)
include named there hasE hasH

/-- A run reads the whole trace before it publishes anything. -/
theorem run_eq : setup.run store = (ofExcept ((readAll setup.blockSize content.bytes).map
      (Escape.after accesses.domain.size sites.domain.size)) >>= setup.publish) store := by
  have sizeOf {name : String} {any : AnyDomain} (found : store.domains.get? name = some any) :
      query (·.domainSize name) store = .ok any.domain.size store :=
    query_eq_ok.mpr
      ⟨except_bind_eq_ok.mpr ⟨any, anyDomain_eq_ok.mpr found, rfl⟩, rfl⟩
  have opened : query (fun store => Reader.ofFile store.disk path setup.blockSize) store =
      .ok (Reader.ofBytes setup.blockSize content.bytes) store :=
    query_eq_ok.mpr ⟨except_bind_eq_ok.mpr ⟨content, there, rfl⟩, rfl⟩
  have replayed : replay (Reader.ofBytes setup.blockSize content.bytes)
        { accessBound := accesses.domain.size, siteBound := sites.domain.size } =
      (readAll setup.blockSize content.bytes).map
        (Escape.after accesses.domain.size sites.domain.size) := leaves_replay Escape.replay _ _ _
  unfold run
  rw [named]
  dsimp only
  rw [bind_of_ok (sizeOf hasE), bind_of_ok (sizeOf hasH), bind_of_ok opened, replayed]
  rfl

theorem yields_run (declares : setup.Declares store) (fits : accesses.domain.size < sizeLimit)
    (read : readAll setup.blockSize content.bytes = .ok events) :
    setup.run.Yields (HasRoom store) store fun _ after =>
      setup.Reports (Escape.after accesses.domain.size sites.domain.size events) after := by
  have published := @yields_publish setup store accesses
    (.after accesses.domain.size sites.domain.size events) declares hasE fits
    (fun _ mem => (Escape.mem_visited_after.mp mem).1) fun _ => lt_of_mem_escaping
  unfold Yields
  rw [run_eq named there hasE hasH, read]
  exact published

theorem run_eq_error (failed : readAll setup.blockSize content.bytes = .error fault) :
    setup.run store = .error fault store := by
  rw [run_eq named there hasE hasH, failed]
  rfl

end Run

/-- A run reports on the whole trace or fails and leaves the store as it was. Only if blocks have no
room does it succeed whatever the trace is, and reports on none of it. -/
theorem trace_reported {store : Store} {path : String} {content : Content}
    {accesses sites : AnyDomain} {options : Options} (named : options.traceFile = some path)
    (there : store.disk.read path = .ok content) (declares : (ofOptions options).Declares store)
    (hasE : store.domains.get? "E" = some accesses) (hasH : store.domains.get? "H" = some sites)
    (fits : accesses.domain.size < Numeral.sizeLimit) :
    (0 < options.traceBlockSize →
      (∀ events, content.bytes = encodeEvents events →
        (ofOptions options).run.Yields (HasRoom store) store fun _ after =>
          (ofOptions options).Reports
            (Escape.after accesses.domain.size sites.domain.size events) after) ∧
      ((∀ events, content.bytes ≠ encodeEvents events) →
        ∃ broken, (ofOptions options).run store = .error (.trace broken) store)) ∧
    (options.traceBlockSize = 0 →
      (ofOptions options).run.Yields (HasRoom store) store fun _ after =>
        (ofOptions options).Reports
          (Escape.after accesses.domain.size sites.domain.size []) after) := by
  refine ⟨fun room => ⟨fun events frames => ?_, fun noFrames => ?_⟩, fun none => ?_⟩
  · exact yields_run named there hasE hasH declares fits ((readAll_eq_ok room).mpr frames)
  · cases read : readAll options.traceBlockSize content.bytes with
    | ok events => exact absurd ((readAll_eq_ok room).mp read) (noFrames events)
    | error fault =>
      obtain ⟨broken, rfl⟩ := broken_of_readAll read
      exact ⟨broken, run_eq_error named there hasE hasH read⟩
  · refine yields_run named there hasE hasH declares fits ?_
    show readAll options.traceBlockSize content.bytes = .ok []
    rw [none]
    exact readAll_zero content.bytes

/-- An object is allocated, stored in a static field and then read. -/
abbrev sharing : List Event := [.new 0 1, .staticWrite 1, .fieldRead 0 1 0]

/-- The last frame misses a byte. -/
abbrev cutOff : List UInt8 := (encodeEvents sharing).dropLast

abbrev sharingOptions (blockSize : Nat) : Options :=
  { traceFile := some "t.bin", traceBlockSize := blockSize }

/-- A store whose work directory is not made yet, beside a trace. -/
abbrev sharingStore (bytes : List UInt8) : Store :=
  let disk : Disk := ⟨Table.empty.insert ["t.bin"] (.file (.binary bytes))⟩
  let declared := (Task.ofEscape default).relations.foldl
    (fun store entry => store.putRelation ⟨entry.1, entry.2, none⟩) (onDirectory disk "out")
  (declared.putDomain (⟨"E", [4, 5], true⟩ : Domain .instruction)).putDomain
    (⟨"H", [2], true⟩ : Domain .instruction)

theorem declares_sharingStore (setup : EscapeSetup) (bytes : List UInt8) :
    setup.Declares (sharingStore bytes) := by
  intro entry mem
  rcases mem_cons.mp mem with rfl | mem
  · rfl
  · obtain rfl := mem_singleton.mp mem
    rfl

theorem hasRoom_sharingStore : HasRoom (sharingStore (encodeEvents sharing)) := by
  constructor <;> decide +kernel

theorem ne_encodeEvents_cutOff (events : List Event) : cutOff ≠ encodeEvents events := by
  intro same
  have broken : readAll 1 cutOff = .error (.trace (.truncated (some .fieldRead) 20)) := by
    decide +kernel
  cases broken.symm.trans ((readAll_eq_ok (Nat.le_refl 1)).mpr same)

/-- Blocks of three bytes, smaller than a word, are enough to report on a trace and to tell that it
is cut off. -/
theorem trace_reported_sharing :
    (∃ after, (ofOptions (sharingOptions 3)).run (sharingStore (encodeEvents sharing)) =
      .ok () after ∧
      (ofOptions (sharingOptions 3)).Reports (Escape.after 2 1 sharing) after) ∧
    (Escape.after 2 1 sharing).visited.toList = [0] ∧
    (Escape.after 2 1 sharing).flowSensitive.toList = [0] ∧
    ∃ broken, (ofOptions (sharingOptions 3)).run (sharingStore cutOff) =
      .error (.trace broken) (sharingStore cutOff) := by
  have whole := (@trace_reported (sharingStore (encodeEvents sharing)) "t.bin" _ _ _
    (sharingOptions 3) rfl rfl (declares_sharingStore _ _) rfl rfl (by decide)).1 (by decide)
  have cut := (@trace_reported (sharingStore cutOff) "t.bin" _ _ _
    (sharingOptions 3) rfl rfl (declares_sharingStore _ _) rfl rfl (by decide)).1 (by decide)
  obtain ⟨_, after, succeeds, reports⟩ := (whole.1 sharing rfl).exists_ok hasRoom_sharingStore
  exact ⟨⟨after, succeeds, reports⟩, by decide +kernel, by decide +kernel,
    cut.2 ne_encodeEvents_cutOff⟩

/-- In blocks without room the same trace is reported to visit nothing. -/
theorem nothing_reported :
    (∃ after, (ofOptions (sharingOptions 0)).run (sharingStore (encodeEvents sharing)) =
      .ok () after ∧
      after.Loads "visitedE" .empty ∧ after.Loads "escE" .empty) ∧
    (Escape.after 2 1 sharing).visited.toList = [0] ∧
    (Escape.after 2 1 sharing).flowSensitive.toList = [0] := by
  have run := @yields_run (ofOptions (sharingOptions 0)) (sharingStore (encodeEvents sharing))
    "t.bin" _ _ _ rfl rfl rfl rfl [] (declares_sharingStore _ _) (by decide) (readAll_zero _)
  obtain ⟨_, after, succeeds, reports⟩ := run.exists_ok hasRoom_sharingStore
  have empty {tuples : SortedSet Tuple}
      (none : ∀ tuple, tuple ∈ tuples ↔ ∃ access ∈ (.empty : SortedSet Nat), tuple = [access]) :
      tuples = .empty := by
    refine SortedSet.ext fun tuple => (none tuple).trans ⟨?_, fun member => by cases member⟩
    rintro ⟨_, member, _⟩
    cases member
  obtain ⟨visited, loads, among⟩ := reports.visited
  obtain ⟨escaped, loads', among'⟩ := reports.escaping
  rw [empty among] at loads
  rw [empty among'] at loads'
  exact ⟨⟨after, succeeds, loads, loads'⟩, by decide +kernel, by decide +kernel⟩

end EscapeSetup

end ProgramAnalysis
