import ProgramAnalysis.Disk
import ProgramAnalysis.Proofs.Step
import ProgramAnalysis.Proofs.Text

/-!
What writing and removing files leaves alone. A change is made in one place (`ChangesAt`), so files
in different places do not disturb one another. That places differ is told from their names: a plain
name is one part of a path (`Plain`), and paths that end in different parts lie apart (`Apart`). The
last section says when there is room for a file.
-/

namespace ProgramAnalysis

open List Option Step Disk

variable {location : Location} {content : Content}

namespace Disk

/-! ### Folders stay -/

/-- Every folder is still a folder. -/
def KeepsFolders (before after : Disk) : Prop :=
  ∀ location, before.entry? location = some .folder → after.entry? location = some .folder

theorem walk_append (disk : Disk) (location : Location) (first second : List String) :
    disk.walk location (first ++ second) =
      (disk.walk location first).bind (disk.walk · second) := by
  induction first generalizing location with
  | nil => rfl
  | cons part rest ih =>
    rw [cons_append, walk, walk]
    cases disk.entry? location with
    | none => rfl
    | some entry =>
      cases entry with
      | file content => rfl
      | folder =>
        dsimp only
        split
        · exact ih _
        · split
          · exact ih _
          · split
            · exact ih _
            · rfl

theorem KeepsFolders.walk {before after : Disk} (keeps : before.KeepsFolders after)
    (walked : before.walk location parts = .ok reached) :
    after.walk location parts = .ok reached := by
  induction parts generalizing location with
  | nil => exact walked
  | cons part rest ih =>
    rw [walk] at walked ⊢
    cases found : before.entry? location with
    | none =>
      rw [found] at walked
      cases walked
    | some entry =>
      cases entry with
      | file content =>
        rw [found] at walked
        cases walked
      | folder =>
        rw [found] at walked
        rw [keeps location found]
        dsimp only at walked ⊢
        split at walked
        · next stays => rw [if_pos stays]; exact ih walked
        · next moves =>
          rw [if_neg moves]
          split at walked
          · next up => rw [if_pos up]; exact ih walked
          · next down =>
            rw [if_neg down]
            split at walked
            · next nameable => rw [if_pos nameable]; exact ih walked
            · cases walked

theorem KeepsFolders.locate? {before after : Disk} (keeps : before.KeepsFolders after)
    (found : before.locate? path = some location) : after.locate? path = some location := by
  unfold Disk.locate? Disk.locate at *
  split at found
  · cases found
  · next nonempty =>
    rw [if_neg nonempty]
    split at found
    · cases found
    · next askable =>
      rw [if_neg askable]
      cases walked : before.walk (start path) (Path.parts path) with
      | error obstacle =>
        rw [walked] at found
        cases found
      | ok reached =>
        rw [keeps.walk walked, ← walked]
        exact found

/-! ### Changes in one place -/

/-- At most what is at one place changed, and that is no folder before. -/
structure ChangesAt (location : Location) (before after : Disk) : Prop where
  noFolder : before.entry? location ≠ some .folder
  elsewhere : ∀ other, other ≠ location → after.entry? other = before.entry? other

theorem ChangesAt.keepsFolders {after : Disk} (changes : ChangesAt location before after) :
    before.KeepsFolders after := by
  intro other isFolder
  rwa [changes.elsewhere other]
  rintro rfl
  exact changes.noFolder isFolder

theorem folder_of_isUpper {disk : Disk} (upper : isUpper location = true) :
    disk.entry? location = some .folder := by
  rw [ entry?, if_pos upper]

theorem lookup_insert {disk : Disk} (entry : Entry) (noFolder : disk.entry? location ≠ some .folder)
    (other : Location) :
    entry? (mk (disk.entries.insert location entry)) other =
      if location = other then some entry else disk.entry? other := by
  unfold entry?
  split
  · next upper =>
    rw [if_neg]
    rintro rfl
    exact noFolder (folder_of_isUpper upper)
  · rw [Table.get?_insert]

theorem write_eq_ok {disk after : Disk} (written : disk.write path content = .ok after) :
    ∃ location, disk.locate? path = some location ∧ ChangesAt location disk after ∧
      after.entry? location = some (.file content) := by
  unfold write at written
  split at written
  · cases written
  · next location found =>
    split at written
    · cases written
    · next noFolder =>
      cases written
      refine ⟨location, found, ⟨noFolder, fun other differs => ?_⟩, ?_⟩
      · rw [lookup_insert _ noFolder, if_neg differs.symm]
      · rw [lookup_insert _ noFolder, if_pos rfl]

theorem remove_eq_ok {disk after : Disk} (removed : disk.remove path = .ok after) :
    ∃ location, disk.locate? path = some location ∧ ChangesAt location disk after := by
  unfold remove at removed
  split at removed
  · cases removed
  · next location found =>
    split at removed
    · next content isFile =>
      cases removed
      refine ⟨location, found, ⟨by rw [isFile]; exact nofun, fun other differs => ?_⟩⟩
      unfold entry?
      rw [Table.get?_erase, if_neg differs.symm]
    · cases removed

/-- Whatever was there is still there as it was. -/
def Extends (before after : Disk) : Prop :=
  ∀ location entry, before.entry? location = some entry → after.entry? location = some entry

theorem Extends.keepsFolders {before after : Disk} (extends_ : before.Extends after) :
    before.KeepsFolders after := fun location => extends_ location .folder

theorem extends_makeFolder {disk after : Disk} (made : disk.makeFolder path = .ok after) :
    disk.Extends after := by
  unfold makeFolder at made
  dsimp only at made
  split at made
  · cases made
  · obtain ⟨location, _, rest⟩ := except_bind_eq_ok.mp made
    split at rest
    · cases rest
    · cases rest
    · cases rest
    · split at rest
      · next name _ _ _ fits =>
        cases rest
        intro other entry found
        have noFolder : disk.entry? (location ++ [name]) ≠ some .folder := by
          rw [fits.2]
          exact nofun
        rw [lookup_insert _ noFolder, if_neg, found]
        rintro rfl
        rw [fits.2] at found
        cases found
      · cases rest

theorem Extends.refl (disk : Disk) : disk.Extends disk := fun _ _ => id

theorem Extends.trans {first : Disk} (extends_ : first.Extends second)
    (extends' : second.Extends third) : first.Extends third :=
  fun location entry found => extends' location entry (extends_ location entry found)

theorem extends_makeFolders (disk : Disk) (paths : List String) :
    (makeFolders paths).Always disk disk.Extends := by
  induction paths with
  | nil => exact Ends.pure (.refl disk)
  | cons path above ih =>
    have check (start between : Disk) (kept : start.Extends between) :
        Always (do if !(← get).hasFolder path then throw .file) between start.Extends := by
      refine Ends.bind (Ends.get ?_)
      split
      · exact Ends.throw kept
      · exact Ends.pure kept
    rw [makeFolders]
    refine Ends.bind (Ends.get ?_)
    split
    · next made => exact extends_makeFolder made
    · exact check disk disk (.refl disk)
    · refine Ends.bind (ih.mono (fun _ between kept => ?_) fun _ => id)
      refine Ends.bind (Ends.get ?_)
      split
      · next made => exact kept.trans (extends_makeFolder made)
      · exact check disk between kept

end Disk

/-! ### Names in a directory -/

namespace Path

/-- A name that stands for itself as the last part of a path. -/
structure Plain (name : String) : Prop where
  nonempty : name ≠ ""
  notHere : name ≠ "."
  notAbove : name ≠ ".."
  noSlash : '/' ∉ name.toList

/-- A name with an ending of three letters or more is plain if neither has a slash. -/
theorem plain_append {name ending : String} (long : 3 ≤ ending.length)
    (noSlash : '/' ∉ name.toList) (noSlash' : '/' ∉ ending.toList) : Plain (name ++ ending) := by
  have longer : 3 ≤ (name ++ ending).length := by
    rw [String.length_append]
    exact Nat.le_add_left_of_le long
  have differs {short : String} (less : short.length < 3) : name ++ ending ≠ short := by
    rintro rfl
    exact Nat.not_le_of_lt less longer
  refine ⟨differs (by decide), differs (by decide), differs (by decide), fun mem => ?_⟩
  rw [String.toList_append] at mem
  exact (mem_append.mp mem).elim noSlash noSlash'

theorem Plain.uncut (plain : Plain name) : ∀ c ∈ name.toList, (c == '/') = false := by
  intro c mem
  rw [beq_eq_false_iff_ne]
  rintro rfl
  exact plain.noSlash mem

theorem isAbsolute_eq (path : String) : isAbsolute path = (path.toList.head? == some '/') :=
  Text.isSome_dropStart? rfl path

theorem Plain.isAbsolute_eq_false (plain : Plain name) : isAbsolute name = false := by
  rw [isAbsolute_eq]
  cases characters : name.toList with
  | nil => rfl
  | cons c rest => exact plain.uncut c (by rw [characters]; exact mem_cons_self)

theorem isAbsolute_append (nonempty : first ≠ "") (second : String) :
    isAbsolute (first ++ second) = isAbsolute first := by
  rw [isAbsolute_eq, isAbsolute_eq, String.toList_append]
  cases characters : first.toList with
  | nil => exact absurd (String.toList_inj.mp characters) nonempty
  | cons c rest => rfl

theorem splitAt_append_slash (front : List Char) (plain : Plain name) :
    Text.splitAt '/' (String.ofList (front ++ '/' :: name.toList)) =
      (Text.pieces (· == '/') front).map String.ofList ++ [name] := by
  have split := @Text.pieces_append_cons (· == '/') '/' rfl front name.toList
  unfold Text.splitAt
  rw [String.toList_ofList, split, Text.pieces_of_uncut plain.uncut, map_append,
    map_singleton, String.ofList_toList]

/-- A plain name is the last part of its path in a directory, and what comes before it are the parts
of the directory. -/
theorem splitAt_join (dir : String) :
    ∃ front, front.filter (· ≠ "") = pieces dir ∧ ∀ name, Plain name →
      Text.splitAt '/' (join dir name) = front ++ [name] ∧
        isAbsolute (join dir name) = isAbsolute dir := by
  by_cases atTop : dir = ""
  · refine ⟨[], by rw [atTop]; rfl, fun name plain => ?_⟩
    have joined : join dir name = name := by
      rw [join, if_pos]
      rw [decide_eq_true atTop, Bool.or_true]
    rw [joined, Text.splitAt, Text.pieces_of_uncut plain.uncut, plain.isAbsolute_eq_false, atTop,
      map_singleton, String.ofList_toList]
    exact ⟨rfl, rfl⟩
  · have below (name : String) (plain : Plain name) :
        ¬ (isAbsolute name || decide (dir = "")) = true := by
      rw [plain.isAbsolute_eq_false, decide_eq_false atTop]
      exact Bool.false_ne_true
    by_cases closed : (Text.dropEnd? "/" dir).isSome = true
    · obtain ⟨front, ends⟩ : ∃ front, dir.toList = front ++ ['/'] := by
        have last : (dir.toList.reverse.head? == some '/') = true := by
          rw [← Text.isSome_isPrefixOf?_singleton]
          rwa [Text.dropEnd?, isSome_map] at closed
        cases reversed : dir.toList.reverse with
        | nil =>
          rw [reversed] at last
          cases last
        | cons c rest =>
          obtain rfl : c = '/' := by
            rw [reversed] at last
            exact Option.some.inj (eq_of_beq last)
          refine ⟨rest.reverse, ?_⟩
          rw [← reverse_reverse dir.toList, reversed, reverse_cons]
      refine ⟨(Text.pieces (· == '/') front).map String.ofList, ?_, fun name plain => ?_⟩
      · have split := @Text.pieces_append_cons (· == '/') '/' rfl front []
        rw [pieces, Text.splitAt, ends, split, map_append, filter_append]
        exact (append_nil _).symm
      rw [join, if_neg (below name plain), if_pos closed]
      refine ⟨?_, isAbsolute_append atTop _⟩
      rw [← splitAt_append_slash front plain]
      congr 1
      apply String.toList_inj.mp
      simp [ends]
    · refine ⟨(Text.pieces (· == '/') dir.toList).map String.ofList, rfl, fun name plain => ?_⟩
      rw [join, if_neg (below name plain), if_neg closed, String.append_assoc]
      refine ⟨?_, isAbsolute_append atTop _⟩
      rw [← splitAt_append_slash dir.toList plain]
      congr 1
      apply String.toList_inj.mp
      simp

theorem parts_join (dir : String) (plain : Plain name) :
    parts (join dir name) = pieces dir ++ [name] ∧ isAbsolute (join dir name) = isAbsolute dir := by
  obtain ⟨front, isFront, split⟩ := splitAt_join dir
  refine ⟨?_, (split name plain).2⟩
  rw [← isFront]
  unfold parts pieces
  rw [(split name plain).1, getLast?_concat, getD_some, if_neg plain.nonempty,
    filter_append, filter_cons_of_pos (by simpa using plain.nonempty), filter_nil]

theorem isAskable_of_join (plain : Plain name) (below : dir ≠ "")
    (askable : isAskable (join dir name) = true) : isAskable dir = true := by
  have front {first second : String} (askable : isAskable (first ++ second) = true) :
      isAskable first = true := by
    unfold isAskable at *
    rw [String.utf8ByteSize_append, String.toList_append, all_append] at askable
    simp only [Bool.and_eq_true, decide_eq_true_iff] at *
    exact ⟨by omega, askable.2.1⟩
  rw [join, plain.isAbsolute_eq_false, decide_eq_false below] at askable
  split at askable
  · contradiction
  · split at askable
    · exact front askable
    · exact front (front askable)

/-- A path that ends in a character of a name. -/
structure EndsIn (path : String) (c : Char) : Prop where
  last : path.toList.getLast? = some c
  noSlash : c ≠ '/'
  noDot : c ≠ '.'

section EndsIn

variable {path : String}

theorem EndsIn.append (ends : EndsIn path c) (front : String) : EndsIn (front ++ path) c := by
  refine ⟨?_, ends.noSlash, ends.noDot⟩
  rw [String.toList_append, getLast?_append, ends.last, some_or]

theorem EndsIn.join (ends : EndsIn path c) (dir : String) : EndsIn (join dir path) c := by
  unfold Path.join
  split
  · exact ends
  · split
    · exact ends.append dir
    · exact ends.append (dir ++ "/")

theorem EndsIn.parts (ends : EndsIn path c) :
    ∃ front name, Path.parts path = front ++ [name] ∧ name.toList.getLast? = some c := by
  obtain ⟨piece, isLast, last⟩ := @Text.getLast?_pieces (· == '/') path.toList c ends.last
    (beq_eq_false_iff_ne.mpr ends.noSlash)
  have split : (Text.splitAt '/' path).getLast? = some (String.ofList piece) := by
    unfold Text.splitAt
    rw [getLast?_map, isLast]
    rfl
  have nonempty : String.ofList piece ≠ "" := by
    intro empty
    rw [← String.toList_inj, String.toList_ofList] at empty
    rw [empty] at last
    cases last
  obtain ⟨front, whole⟩ := getLast?_eq_some_iff.mp split
  refine ⟨front.filter (· ≠ ""), String.ofList piece, ?_, by rwa [String.toList_ofList]⟩
  unfold Path.parts pieces
  rw [split, getD_some, if_neg nonempty, whole, filter_append,
    filter_cons_of_pos (by simpa using nonempty), filter_nil]

end EndsIn

end Path

namespace Disk

/-- A path whose last part is a name leads to a place with that name. -/
theorem last_of_locate? {disk : Disk} (parts : Path.parts path = front ++ [name])
    (notHere : name ≠ ".") (notAbove : name ≠ "..") (found : disk.locate? path = some location) :
    ∃ folder, location = folder ++ [name] := by
  unfold Disk.locate? Disk.locate at found
  split at found
  · cases found
  · split at found
    · cases found
    · rw [parts, walk_append] at found
      cases walked : disk.walk (start path) front with
      | error obstacle =>
        rw [walked] at found
        cases found
      | ok folder =>
        have inside : (disk.walk folder [name]).toOption = some location := by
          rwa [walked] at found
        rw [walk] at inside
        split at inside
        · cases inside
        · cases inside
        · rw [if_neg notHere, if_neg notAbove] at inside
          split at inside
          · exact ⟨folder, (Option.some.inj inside).symm⟩
          · cases inside

/-- Two paths never lead to the same place. -/
def Apart (path other : String) : Prop :=
  ∀ (disk : Disk) (location location' : Location), disk.locate? path = some location →
    disk.locate? other = some location' → location ≠ location'

theorem Apart.symm (apart : Apart path other) : Apart other path :=
  fun disk _ _ found found' => (apart disk _ _ found' found).symm

/-- Paths that end in different characters lead to different places. -/
theorem apart_of_endsIn (ends : Path.EndsIn path c) (ends' : Path.EndsIn other d) (differ : c ≠ d) :
    Apart path other := by
  intro disk location location' found found'
  have named {path : String} {c : Char} (ends : Path.EndsIn path c) {location : Location}
      (found : disk.locate? path = some location) :
      ∃ folder name, location = folder ++ [name] ∧ name.toList.getLast? = some c := by
    obtain ⟨front, name, parts, last⟩ := ends.parts
    have dotless {dots : String} (ending : dots.toList.getLast? = some '.') : name ≠ dots := by
      rintro rfl
      rw [last] at ending
      exact ends.noDot (Option.some.inj ending)
    obtain ⟨folder, isThere⟩ := last_of_locate? parts (dotless rfl) (dotless rfl) found
    exact ⟨folder, name, isThere, last⟩
  obtain ⟨folder, name, rfl, last⟩ := named ends found
  obtain ⟨folder', name', rfl, last'⟩ := named ends' found'
  intro same
  obtain rfl : name = name' := append_inj' same rfl |>.2 |> singleton_inj.mp
  exact differ (Option.some.inj (last.symm.trans last'))

theorem apart_join (plain : Path.Plain first) (plain' : Path.Plain second) (differ : first ≠ second)
    (dir : String) : Apart (Path.join dir first) (Path.join dir second) := by
  intro disk location location' found found'
  obtain ⟨folder, rfl⟩ :=
    last_of_locate? (Path.parts_join dir plain).1 plain.notHere plain.notAbove found
  obtain ⟨folder', rfl⟩ :=
    last_of_locate? (Path.parts_join dir plain').1 plain'.notHere plain'.notAbove found'
  intro same
  exact differ (append_inj' same rfl |>.2 |> singleton_inj.mp)

/-! ### Reading -/

theorem read_eq_ok {disk : Disk} : disk.read path = .ok content ↔
      ∃ location, disk.locate? path = some location ∧
        disk.entry? location = some (.file content) := by
  unfold read Disk.find?
  constructor
  · intro found
    split at found
    · next other isFile =>
      cases found
      exact bind_eq_some_iff.mp isFile
    · cases found
  · intro found
    rw [bind_eq_bind, bind_eq_some_iff.mpr found]

theorem holds_of_read {disk : Disk} (found : disk.read path = .ok content) :
    disk.holds path = true := by
  obtain ⟨location, located, isFile⟩ := read_eq_ok.mp found
  unfold holds Disk.find?
  rw [located, bind_eq_bind, bind_some, isFile]
  rfl

theorem Extends.read {before after : Disk} (extends_ : before.Extends after)
    (found : before.read path = .ok content) : after.read path = .ok content := by
  obtain ⟨location, located, isFile⟩ := read_eq_ok.mp found
  exact read_eq_ok.mpr ⟨location, extends_.keepsFolders.locate? located, extends_ location _ isFile⟩

theorem change_eq_ok {after : Disk} : change f disk = .ok () after ↔ f disk = .ok after := by
  unfold change
  cases f disk with
  | error fault => simp
  | ok changed => simp

/-! ### Files that stay -/

/-- A change at the end of one path leaves the file at the end of another. -/
theorem ChangesAt.read {after : Disk} (changes : ChangesAt location before after)
    (located : before.locate? other = some location) (apart : Apart path other)
    (found : before.read path = .ok content) : after.read path = .ok content := by
  obtain ⟨place, placed, isFile⟩ := read_eq_ok.mp found
  refine read_eq_ok.mpr ⟨place, changes.keepsFolders.locate? placed, ?_⟩
  rw [changes.elsewhere place (apart before place location placed located), isFile]

theorem keeps_change {holds : Disk → Prop} {f : Disk → Except Fault Disk}
    (kept : ∀ before after, f before = .ok after → holds before → holds after) :
    Keeps holds (change f) := by
  intro disk held
  unfold Always Ends change
  cases changed : f disk with
  | error fault => exact held
  | ok after => exact kept disk after changed held

/-- Writing keeps a file that is elsewhere or has what is written already. -/
theorem keeps_read_write {written : Content} (same : Apart path other ∨ content = written) :
    Keeps (fun disk => disk.read path = .ok content) (change (·.write other written)) := by
  refine keeps_change fun before after writing found => ?_
  obtain ⟨location, located, changes, isFile⟩ := write_eq_ok writing
  rcases same with apart | rfl
  · exact changes.read located apart found
  · obtain ⟨place, placed, held⟩ := read_eq_ok.mp found
    refine read_eq_ok.mpr ⟨place, changes.keepsFolders.locate? placed, ?_⟩
    by_cases here : place = location
    · rw [here, isFile]
    · rw [changes.elsewhere place here, held]

theorem keeps_read_remove (apart : Apart path other) :
    Keeps (fun disk => disk.read path = .ok content) (change (·.remove other)) := by
  refine keeps_change fun before after removing found => ?_
  obtain ⟨location, located, changes⟩ := remove_eq_ok removing
  exact changes.read located apart found

theorem keeps_read_saveText (text : String)
    (same : Apart path (Path.join dir name) ∨ content = .text text) :
    Keeps (fun disk => disk.read path = .ok content) (saveText dir name text) := by
  have made : Keeps (fun disk => disk.read path = .ok content) (createFolders dir) :=
    fun disk found => (extends_makeFolders disk _).mono (fun _ _ kept => kept.read found)
      fun _ kept => kept.read found
  exact made.bind fun _ => keeps_read_write same

/-- A step leaves every file whose path ends in another character, in whatever directory. -/
def Spares {α : Type} (c : Char) (step : Step Disk α) : Prop :=
  ∀ path d content, Path.EndsIn path d → d ≠ c →
    Keeps (fun disk => disk.read path = .ok content) step

theorem spares_saveText (dir text : String) (ends : Path.EndsIn name c) :
    Spares c (saveText dir name text) := fun _ _ _ ends' differ =>
  keeps_read_saveText text (.inl (apart_of_endsIn ends' (ends.join dir) differ))

section InDirectory

variable {before after : Disk} {dir name : String}

variable {text : String}

theorem saveText_eq_ok (saved : saveText dir name text before = .ok () after) :
    ∃ between location, before.Extends between ∧
      between.locate? (Path.join dir name) = some location ∧ ChangesAt location between after ∧
      after.entry? location = some (.file (.text text)) := by
  obtain ⟨_, between, made, rest⟩ := bind_eq_ok.mp saved
  obtain ⟨location, located, changes, isFile⟩ := write_eq_ok (change_eq_ok.mp rest)
  exact ⟨between, location, (extends_makeFolders before _).of_ok made, located, changes, isFile⟩

theorem read_saveText (saved : saveText dir name text before = .ok () after) :
    after.read (Path.join dir name) = .ok (.text text) := by
  obtain ⟨between, location, _, located, changes, isFile⟩ := saveText_eq_ok saved
  exact read_eq_ok.mpr ⟨location, changes.keepsFolders.locate? located, isFile⟩

end InDirectory

/-! ### Room for a file -/

/-- Whether a file can be saved: its directory is there or can be made, and no folder stands in its
place. -/
def hasRoom (disk : Disk) (dir name : String) : Bool :=
  match createFolders dir disk with
  | .ok _ between => (between.locate? (Path.join dir name)).any (between.entry? · ≠ some .folder)
  | .error _ _ => false

section Room

variable {disk : Disk} {dir name : String}

theorem hasRoom_iff : disk.hasRoom dir name = true ↔
    ∃ between location, createFolders dir disk = .ok () between ∧
      between.locate? (Path.join dir name) = some location ∧
      between.entry? location ≠ some .folder := by
  unfold hasRoom
  cases createFolders dir disk with
  | error fault left => simp
  | ok value between => simp [Option.any_eq_true]

theorem exists_write {location : Location} (located : disk.locate? path = some location)
    (noFolder : disk.entry? location ≠ some .folder) (content : Content) :
    ∃ after, disk.write path content = .ok after := by
  unfold write
  rw [located]
  dsimp only
  rw [if_neg noFolder]
  exact ⟨_, rfl⟩

theorem exists_saveText (room : disk.hasRoom dir name = true) (text : String) :
    ∃ after, saveText dir name text disk = .ok () after := by
  obtain ⟨between, location, made, located, noFolder⟩ := hasRoom_iff.mp room
  obtain ⟨after, written⟩ := exists_write located noFolder (.text text)
  exact ⟨after, bind_eq_ok.mpr ⟨(), between, made, change_eq_ok.mpr written⟩⟩

end Room

end Disk

end ProgramAnalysis
