import ProgramAnalysis.Domain
import ProgramAnalysis.Proofs.Disk
import ProgramAnalysis.Relation

/-!
Steps that nothing but the disk can stop. A step yields something if it succeeds with it or meets a
fault of the file system, and the latter only where the disk does not work (`Yields`). Whether it
works is told from the folders (`SameFolders`), which writing and removing files does not change.
-/

namespace ProgramAnalysis

open Step Disk

namespace Step

variable {σ τ α β : Type} {works : Prop} {step : Step σ α} {s : σ} {done : α → σ → Prop}

/-- Started in `s`, the step succeeds such that `done` holds or is stopped by the disk, and not the
latter if the disk works. -/
def Yields (step : Step σ α) (works : Prop) (s : σ) (done : α → σ → Prop) : Prop :=
  match step s with
  | .ok a t => done a t
  | .error fault _ => fault = .file ∧ ¬ works

variable {t : σ} {a : α}

theorem yields_of_ok (succeeds : step s = .ok a t) (holds : done a t) :
    step.Yields works s done := by
  unfold Yields
  rwa [succeeds]

theorem Yields.exists_ok (yields : step.Yields works s done) (working : works) :
    ∃ a t, step s = .ok a t ∧ done a t := by
  unfold Yields at yields
  cases outcome : step s with
  | ok a t =>
    rw [outcome] at yields
    exact ⟨a, t, rfl, yields⟩
  | error fault t =>
    rw [outcome] at yields
    exact absurd working yields.2

theorem Yields.of_same (yields : step.Yields works t done) (same : step s = step t) :
    step.Yields works s done := by
  unfold Yields at *
  rwa [same]

theorem Yields.imp (yields : step.Yields works s done)
    (onDone : ∀ a t, step s = .ok a t → done a t → done' a t) : step.Yields works s done' := by
  unfold Yields at *
  cases outcome : step s with
  | ok a t =>
    rw [outcome] at yields
    exact onDone a t outcome yields
  | error fault t => rwa [outcome] at yields

theorem Yields.bind {done : β → σ → Prop}
    (yields : step.Yields works s fun a t => (f a).Yields works t done) :
    (step >>= f).Yields works s done := by
  unfold Yields at *
  cases outcome : step s with
  | ok a t =>
    rw [outcome] at yields
    rw [bind_of_ok outcome]
    exact yields
  | error fault t =>
    rw [outcome] at yields
    rw [bind_of_error outcome]
    exact yields

theorem Yields.onPart {step : Step τ α}
    (yields : step.Yields works (part s) fun a t => done a (replace s t)) :
    (Step.onPart part replace step).Yields works s done := by
  unfold Yields Step.onPart at *
  cases outcome : step (part s) with
  | ok | error => rwa [outcome] at yields

/-- A step without faults of its own that succeeds if the disk works. -/
theorem yields_of_stops (stops : step.Yields False s fun _ _ => True)
    (succeeds : works → ∃ a t, step s = .ok a t ∧ done a t) :
    step.Yields works s fun a t => works → done a t := by
  unfold Yields at *
  cases outcome : step s with
  | ok a t =>
    intro working
    obtain ⟨a', t', same, holds⟩ := succeeds working
    cases outcome.symm.trans same
    exact holds
  | error fault t =>
    rw [outcome] at stops
    refine ⟨stops.1, fun working => ?_⟩
    obtain ⟨a', t', same, _⟩ := succeeds working
    cases outcome.symm.trans same

end Step

namespace Disk

variable {disk before between after : Disk} {dir name path : String} {works : Prop}

/-! ### Faults of the disk -/

theorem stops_change (only : ∀ fault, f disk = .error fault → fault = .file) :
    (change f).Yields False disk fun _ _ => True := by
  unfold Step.Yields change
  cases outcome : f disk with
  | ok changed => trivial
  | error fault => exact ⟨only fault outcome, id⟩

theorem stops_write (path : String) (content : Content) :
    (change (·.write path content)).Yields False disk fun _ _ => True := by
  refine stops_change fun fault failed => ?_
  unfold write at failed
  split at failed
  · cases failed
    rfl
  · split at failed
    · cases failed
      rfl
    · cases failed

theorem stops_remove (path : String) :
    (change (·.remove path)).Yields False disk fun _ _ => True := by
  refine stops_change fun fault failed => ?_
  unfold remove at failed
  split at failed
  · cases failed
    rfl
  · split at failed
    · cases failed
    · cases failed
      rfl

theorem stops_makeFolders (paths : List String) (disk : Disk) :
    (makeFolders paths).Yields False disk fun _ _ => True := by
  induction paths generalizing disk with
  | nil => exact yields_of_ok rfl trivial
  | cons path above ih =>
    have check (disk : Disk) : Step.Yields (do if !(← get).hasFolder path then throw .file) False
        disk fun _ _ => True := by
      refine Step.Yields.bind (yields_of_ok rfl ?_)
      split
      · exact ⟨rfl, id⟩
      · exact yields_of_ok rfl trivial
    rw [makeFolders]
    refine Step.Yields.bind (yields_of_ok rfl ?_)
    split
    · exact yields_of_ok rfl trivial
    · exact check disk
    · refine Step.Yields.bind ((ih disk).imp fun _ between _ _ => ?_)
      refine Step.Yields.bind (yields_of_ok rfl ?_)
      split
      · exact yields_of_ok rfl trivial
      · exact check between

/-! ### The same folders -/

/-- The same places are folders. -/
def SameFolders (before after : Disk) : Prop :=
  ∀ location, after.entry? location = some .folder ↔ before.entry? location = some .folder

theorem SameFolders.refl (disk : Disk) : disk.SameFolders disk := fun _ => .rfl

theorem SameFolders.trans (same : before.SameFolders between) (same' : between.SameFolders after) :
    before.SameFolders after := fun location => (same' location).trans (same location)

variable {location : Location}

theorem ChangesAt.sameFolders (changes : ChangesAt location before after)
    (noFolder : after.entry? location ≠ some .folder) : before.SameFolders after := by
  intro other
  by_cases here : other = location
  · subst here
    exact iff_of_false noFolder changes.noFolder
  · rw [changes.elsewhere other here]

theorem hasFolder_iff : disk.hasFolder path = true ↔
    ∃ location, disk.locate? path = some location ∧ disk.entry? location = some .folder := by
  unfold hasFolder find?
  rw [decide_eq_true_iff]
  exact Option.bind_eq_some_iff

variable {reached : Location}

theorem walk_of_append (walked : disk.walk location (first ++ second) = .ok reached) :
    ∃ middle, disk.walk location first = .ok middle ∧ disk.walk middle second = .ok reached := by
  rw [walk_append] at walked
  exact except_bind_eq_ok.mp walked

theorem folder_of_walk (walked : disk.walk location (part :: rest) = .ok reached) :
    disk.entry? location = some .folder := by
  rw [walk] at walked
  split at walked
  · cases walked
  · cases walked
  · assumption

theorem walk_here (isFolder : disk.entry? location = some .folder) :
    disk.walk location ["."] = .ok location := by
  rw [walk, isFolder]
  rfl

theorem locate?_eq_some : disk.locate? path = some location ↔
    path ≠ "" ∧ Path.isAskable path = true ∧
      disk.walk (start path) (Path.parts path) = .ok location := by
  unfold locate? locate
  split
  · next none => simp [none, Except.toOption]
  · next nonempty =>
    split
    · next unaskable => simp_all [Except.toOption]
    · next askable =>
      have askable : Path.isAskable path = true := by simpa using askable
      cases disk.walk (start path) (Path.parts path) with
      | error obstacle => simp [Except.toOption]
      | ok reached => simp [nonempty, askable, Except.toOption]

/-- The names between the slashes of a path lead to the same folder as the path. -/
theorem walk_pieces (there : disk.hasFolder path = true) : Path.isAskable path = true ∧ ∃ location,
      disk.walk (start path) (Path.pieces path) = .ok location ∧
        disk.entry? location = some .folder := by
  obtain ⟨location, located, isFolder⟩ := hasFolder_iff.mp there
  obtain ⟨_, askable, walked⟩ := locate?_eq_some.mp located
  refine ⟨askable, location, ?_, isFolder⟩
  unfold Path.parts at walked
  dsimp only at walked
  split at walked
  · obtain ⟨middle, toMiddle, rest⟩ := walk_of_append walked
    rw [walk_here (folder_of_walk rest)] at rest
    rwa [← Except.ok.inj rest]
  · exact walked

theorem makeFolder_of_hasFolder (there : disk.hasFolder path = true) :
    disk.makeFolder path = .error .blocked := by
  obtain ⟨askable, location, walked, isFolder⟩ := walk_pieces there
  unfold makeFolder
  dsimp only
  rw [if_neg (by simp [askable])]
  cases last : (Path.pieces path).getLast? with
  | none =>
    have empty := List.getLast?_eq_none_iff.mp last
    rw [empty] at walked ⊢
    rw [show [].dropLast ++ ["."] = ["."] from rfl, walk_here (Except.ok.inj walked ▸ isFolder)]
    rfl
  | some name =>
    obtain ⟨front, pieces⟩ := List.getLast?_eq_some_iff.mp last
    rw [pieces] at walked
    obtain ⟨folder, toFolder, inside⟩ := walk_of_append walked
    have above : disk.walk (start path) ((Path.pieces path).dropLast ++ ["."]) = .ok folder := by
      rw [pieces, List.dropLast_concat, walk_append, toFolder]
      exact walk_here (folder_of_walk inside)
    rw [above]
    dsimp only [bind, Except.bind]
    split
    · rfl
    · rfl
    · rfl
    · next other notHere notAbove same =>
      cases same
      have reached : location = folder ++ [name] := by
        rw [walk, folder_of_walk inside] at inside
        dsimp only at inside
        rw [if_neg notHere, if_neg notAbove] at inside
        split at inside
        · exact (Except.ok.inj inside).symm
        · cases inside
      rw [if_neg]
      · rfl
      · rintro ⟨_, missing⟩
        rw [← reached, isFolder] at missing
        cases missing

theorem createFolders_of_hasFolder (there : dir = "" ∨ disk.hasFolder dir = true) :
    createFolders dir disk = .ok () disk := by
  unfold createFolders Path.ancestry
  split
  · rfl
  · next nonempty =>
    have there := there.resolve_left nonempty
    dsimp only
    rw [makeFolders]
    refine bind_eq_ok.mpr ⟨disk, disk, rfl, ?_⟩
    rw [makeFolder_of_hasFolder there]
    refine bind_eq_ok.mpr ⟨disk, disk, rfl, ?_⟩
    rw [if_neg (by simp [there])]
    rfl

/-! ### Disks that work -/

/-- Whether a disk works for a file: its directory is there, and no folder stands in its place. -/
def isOpen (disk : Disk) (dir name : String) : Bool :=
  (dir = "" || disk.hasFolder dir) &&
    (disk.locate? (Path.join dir name)).any (disk.entry? · ≠ some .folder)

theorem isOpen_iff : disk.isOpen dir name = true ↔ (dir = "" ∨ disk.hasFolder dir = true) ∧
    ∃ location, disk.locate? (Path.join dir name) = some location ∧
      disk.entry? location ≠ some .folder := by
  simp [isOpen, Option.any_eq_true]

theorem SameFolders.isOpen (same : before.SameFolders after)
    (opened : before.isOpen dir name = true) : after.isOpen dir name = true := by
  have keeps : before.KeepsFolders after := fun location => (same location).mpr
  obtain ⟨there, location, located, noFolder⟩ := isOpen_iff.mp opened
  refine isOpen_iff.mpr ⟨there.imp_right fun hasFolder => ?_, location, keeps.locate? located,
    fun isFolder => noFolder ((same location).mp isFolder)⟩
  obtain ⟨place, placed, isFolder⟩ := hasFolder_iff.mp hasFolder
  exact hasFolder_iff.mpr ⟨place, keeps.locate? placed, keeps place isFolder⟩

theorem write_of_locate? (located : disk.locate? path = some location)
    (noFolder : disk.entry? location ≠ some .folder) (content : Content) :
    ∃ after, change (·.write path content) disk = .ok () after ∧ disk.SameFolders after := by
  obtain ⟨after, written⟩ := exists_write located noFolder content
  refine ⟨after, change_eq_ok.mpr written, ?_⟩
  obtain ⟨_, _, changes, isFile⟩ := write_eq_ok written
  exact changes.sameFolders (by rw [isFile]; exact nofun)

theorem yields_write (room : works → disk.isOpen dir name = true) (content : Content) :
    (change (·.write (Path.join dir name) content)).Yields works disk
      fun _ after => works → disk.SameFolders after := by
  refine yields_of_stops (stops_write _ _) fun working => ?_
  obtain ⟨_, location, located, noFolder⟩ := isOpen_iff.mp (room working)
  obtain ⟨after, written, same⟩ := write_of_locate? located noFolder content
  exact ⟨(), after, written, same⟩

/-! ### Directories that may be missing -/

theorem hasFolder_of_locate?_join (plain : Path.Plain name)
    (located : disk.locate? (Path.join dir name) = some location) :
    dir = "" ∨ disk.hasFolder dir = true := by
  by_cases atTop : dir = ""
  · exact .inl atTop
  obtain ⟨parts, absolute⟩ := Path.parts_join dir plain
  obtain ⟨_, askable, walked⟩ := locate?_eq_some.mp located
  rw [parts, start, absolute] at walked
  obtain ⟨folder, toFolder, inside⟩ := walk_of_append walked
  have isFolder := folder_of_walk inside
  refine .inr (hasFolder_iff.mpr ⟨folder, locate?_eq_some.mpr ⟨atTop, ?_, ?_⟩, isFolder⟩)
  · exact Path.isAskable_of_join plain atTop askable
  · unfold Path.parts
    dsimp only
    split
    · rw [walk_append, start, toFolder]
      exact walk_here isFolder
    · exact toFolder

theorem isOpen_of_hasRoom (plain : Path.Plain name) (room : disk.hasRoom dir name = true) :
    ∃ made, createFolders dir disk = .ok () made ∧ made.isOpen dir name = true := by
  obtain ⟨made, location, making, located, noFolder⟩ := hasRoom_iff.mp room
  exact ⟨made, making, isOpen_iff.mpr
    ⟨hasFolder_of_locate?_join plain located, location, located, noFolder⟩⟩

theorem holds_join_of_missing (plain : Path.Plain name)
    (missing : ¬ (dir = "" ∨ disk.hasFolder dir = true)) :
    disk.holds (Path.join dir name) = false := by
  unfold holds find?
  cases located : disk.locate? (Path.join dir name) with
  | none => rfl
  | some location => exact absurd (hasFolder_of_locate?_join plain located) missing

/-- The folders are those that there are once a directory is made. -/
def OnceMade (dir : String) (before after : Disk) : Prop :=
  ∃ made, createFolders dir before = .ok () made ∧ made.SameFolders after

theorem OnceMade.sameFolders (once : before.OnceMade dir after)
    (opened : before.isOpen dir name = true) : before.SameFolders after := by
  obtain ⟨made, making, same⟩ := once
  cases making.symm.trans (createFolders_of_hasFolder (isOpen_iff.mp opened).1)
  exact same

theorem hasRoom_of_made (making : createFolders dir before = .ok () after)
    (opened : after.isOpen dir name = true) : before.hasRoom dir name = true := by
  obtain ⟨_, location, located, noFolder⟩ := isOpen_iff.mp opened
  exact hasRoom_iff.mpr ⟨after, location, making, located, noFolder⟩

theorem hasRoom_of_isOpen (opened : disk.isOpen dir name = true) : disk.hasRoom dir name = true :=
  hasRoom_of_made (createFolders_of_hasFolder (isOpen_iff.mp opened).1) opened

theorem yields_saveText (room : works → disk.hasRoom dir name = true) (text : String) :
    (saveText dir name text).Yields works disk fun _ after => works → disk.OnceMade dir after := by
  refine yields_of_stops ?_ fun working => ?_
  · exact Step.Yields.bind ((stops_makeFolders _ disk).imp fun _ _ _ _ => stops_write _ _)
  · obtain ⟨made, location, making, located, noFolder⟩ := hasRoom_iff.mp (room working)
    obtain ⟨after, written, same⟩ := write_of_locate? located noFolder (.text text)
    exact ⟨(), after, bind_eq_ok.mpr ⟨(), made, making, written⟩, made, making, same⟩

theorem remove_of_isOpen (opened : disk.isOpen dir name = true)
    (held : disk.holds (Path.join dir name) = true) :
    ∃ after, change (·.remove (Path.join dir name)) disk = .ok () after ∧
      disk.SameFolders after := by
  obtain ⟨_, location, located, noFolder⟩ := isOpen_iff.mp opened
  unfold holds find? at held
  rw [located] at held
  obtain ⟨entry, isEntry⟩ := Option.isSome_iff_exists.mp held
  change disk.entry? location = some entry at isEntry
  cases entry with
  | folder => exact absurd isEntry noFolder
  | file content =>
    have removed : disk.remove (Path.join dir name) = .ok ⟨disk.entries.erase location⟩ := by
      unfold remove
      rw [located]
      dsimp only
      rw [isEntry]
    refine ⟨_, change_eq_ok.mpr removed, ?_⟩
    obtain ⟨place, placed, changes⟩ := remove_eq_ok removed
    cases located.symm.trans placed
    refine changes.sameFolders fun isFolder => ?_
    unfold entry? at isFolder noFolder
    split at isFolder
    · next upper => exact noFolder (if_pos upper)
    · rw [Table.get?_erase, if_pos rfl] at isFolder
      cases isFolder

end Disk

/-! ### Saving domains and emptying relations -/

variable {disk : Disk} {dir : String} {works : Prop}

theorem Domain.yields_save {domain : Domain kind}
    (map : works → disk.isOpen dir (mapName domain.name) = true)
    (header : works → disk.isOpen dir (headerName domain.name) = true) :
    (domain.save dir).Yields works disk fun _ after => works → disk.SameFolders after := by
  refine Step.Yields.bind ((yields_saveText (fun working =>
    hasRoom_of_isOpen (map working)) _).imp fun _ between _ once => ?_)
  have same (working : works) := (once working).sameFolders (map working)
  have still (working : works) := (same working).isOpen (header working)
  exact (yields_write still _).imp fun _ after _ same' working =>
    (same working).trans (same' working)

variable {rel : Relation}

theorem Relation.yields_zero (room : works → disk.isOpen dir (rel.name ++ ".tuples") = true) :
    (rel.zero dir).Yields works disk fun _ after => works → disk.SameFolders after := by
  refine Step.Yields.bind (yields_of_ok rfl ?_)
  dsimp only
  split
  · next held =>
    refine Step.Yields.bind ((yields_of_stops (stops_remove _) fun working => ?_).imp
      fun _ after _ same => yields_of_ok rfl same)
    obtain ⟨after, removed, same⟩ := remove_of_isOpen (room working) held
    exact ⟨(), after, removed, same⟩
  · exact yields_of_ok rfl fun _ => .refl disk

/-- Emptying a relation whose directory may be missing: there is no file to remove then. -/
theorem Relation.yields_zero_of_hasRoom (plain : Path.Plain (rel.name ++ ".tuples"))
    (room : works → disk.hasRoom dir (rel.name ++ ".tuples") = true) :
    (rel.zero dir).Yields works disk fun _ after =>
      works → ∃ made, createFolders dir after = .ok () made ∧ disk.OnceMade dir made := by
  by_cases there : dir = "" ∨ disk.hasFolder dir = true
  · have making := createFolders_of_hasFolder there
    have opened (working : works) : disk.isOpen dir (rel.name ++ ".tuples") = true := by
      obtain ⟨made, making', opened⟩ := isOpen_of_hasRoom plain (room working)
      cases making.symm.trans making'
      exact opened
    refine (yields_zero opened).imp fun _ after _ same working => ?_
    have still := (same working).isOpen (opened working)
    exact ⟨after, createFolders_of_hasFolder (isOpen_iff.mp still).1, disk, making, same working⟩
  · refine Step.Yields.bind (yields_of_ok rfl ?_)
    dsimp only
    have nothing : disk.holds (rel.filePath dir) = false := holds_join_of_missing plain there
    rw [nothing]
    refine yields_of_ok rfl fun working => ?_
    obtain ⟨made, making, _⟩ := isOpen_of_hasRoom plain (room working)
    exact ⟨made, making, made, making, .refl made⟩

end ProgramAnalysis
