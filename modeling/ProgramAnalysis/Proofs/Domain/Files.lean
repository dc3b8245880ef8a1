import ProgramAnalysis.Proofs.Disk
import ProgramAnalysis.Proofs.Domain
import ProgramAnalysis.Proofs.Numerals

/-!
The files of a domain read back. A line holds an element, and elements fit if their text is one line
(`Fits`). Reading goes on to the first faulty line (`Faulty`), so it is told by what the lines
before that hold; where there is none, all elements come back with their indices.
-/

namespace ProgramAnalysis

open Numeral List Disk Text Step

namespace ElementKind

/-- The handles and sites in an element are 64 bits wide. -/
def Fits : (kind : ElementKind) → kind.Elem → Prop
  | method, handle | instruction, handle | var, handle | type, handle =>
    (handle : Nat) < sizeLimit
  | field, none => True
  | field, some handle => (handle : Nat) < sizeLimit
  | text, _ => True
  | context, sites => ∀ site ∈ (sites : List Nat), site < sizeLimit

instance (kind : ElementKind) (element : kind.Elem) : Decidable (kind.Fits element) :=
  match kind, element with
  | method, handle | instruction, handle | var, handle | type, handle | field, some handle =>
    inferInstanceAs (Decidable ((handle : Nat) < sizeLimit))
  | field, none | text, _ => inferInstanceAs (Decidable True)
  | context, sites =>
    inferInstanceAs (Decidable (∀ site ∈ (sites : List Nat), site < sizeLimit))

theorem trim_toString (n : Nat) : Text.trim (toString n) = toString n := by
  rw [← listed_singleton, trim_listed]

theorem decodeHandle_toString (below : n < sizeLimit) : decodeHandle (toString n) = .ok n := by
  unfold decodeHandle
  rw [trim_toString, readSize_toString below]
  rfl

theorem decode_field_toString (below : n < sizeLimit) :
    field.decode (toString n) = .ok (some n) := by
  have number : toString n ≠ "-" := by
    intro dash
    refine not_mem_toString (by decide : '-'.isDigit = false) n ?_
    rw [dash]
    exact mem_cons_self
  rw [decode, trim_toString, if_neg number, decodeHandle_toString below]
  rfl

theorem decode_encode {kind : ElementKind} {element : kind.Elem} (fits : kind.Fits element) :
    kind.decode (kind.encode element) = .ok element := by
  cases kind with
  | method | instruction | var | type => exact decodeHandle_toString fits
  | field =>
    cases element with
    | none => rfl
    | some handle => exact decode_field_toString fits
  | text => rfl
  | context =>
    show (Text.words (listed element)).mapM _ = _
    rw [words_listed]
    exact mapM_readSize fits

/-- Only a text can have a written form that is not one line. -/
theorem oneLine_encode (numbers : kind ≠ text) (element : kind.Elem) :
    Text.OneLine (kind.encode element) := by
  have oneLine_toString (n : Nat) : Text.OneLine (toString n) := by
    rw [← listed_singleton]
    exact oneLine_listed [n]
  cases kind with
  | method | instruction | var | type => exact oneLine_toString element
  | field =>
    cases element with
    | none => exact ⟨by decide, by decide⟩
    | some handle => exact oneLine_toString handle
  | text => exact absurd rfl numbers
  | context => exact oneLine_listed element

end ElementKind

namespace Domain

variable {kind : ElementKind} {domain : Domain kind}

/-! ### Reading lines -/

/-- A line that cannot follow some elements, and why: its bytes are no text, the text is no element,
or it is one of these elements again. -/
inductive Faulty (name : String) (elements : List kind.Elem) : Option String → Fault → Prop
  | undecodable : Faulty name elements none .file
  | meaningless {line : String} {fault : Fault} (decoded : kind.decode line = .error fault) :
    Faulty name elements (some line) fault
  | repeated {line : String} {element : kind.Elem} (decoded : kind.decode line = .ok element)
    (member : element ∈ elements) : Faulty name elements (some line) (.repeatedElement name)

/-- The domain with more elements. It is ready if it was, or if there are any. -/
def extend (domain : Domain kind) (elements : List kind.Elem) : Domain kind :=
  { domain with
    elements := domain.elements ++ elements
    filled := domain.filled || !elements.isEmpty }

theorem extend_nil : domain.extend [] = domain := by
  unfold extend
  rw [append_nil, isEmpty_nil, Bool.not_true, Bool.or_false]

theorem extend_cons {elem : kind.Elem} {elements : List kind.Elem} :
    domain.extend (elem :: elements) =
      extend { domain with elements := domain.elements ++ [elem], filled := true } elements := by
  unfold extend
  rw [append_cons, isEmpty_cons, Bool.not_false, Bool.or_true, Bool.true_or]

theorem Dense.extend {elements : List kind.Elem} (dense : domain.Dense)
    (distinct : (domain.elements ++ elements).Nodup) : (domain.extend elements).Dense := by
  refine ⟨distinct, fun some => ?_⟩
  cases elements with
  | nil => exact extend_nil ▸ dense.ready (append_nil domain.elements ▸ some)
  | cons elem rest => rw [extend_cons]; rfl

section Reading

variable {line : String} {lines rest : List (Option String)} {bad : Option String}
  {element : kind.Elem} {fault : Fault}

theorem readLines_cons (decoded : kind.decode line = .ok element) :
    readLines (some line :: lines) domain =
      if (domain.add element).2 ≠ domain.size then
        .error (.repeatedElement domain.name) (domain.add element).1
      else readLines lines (domain.add element).1 := by
  rw [readLines, bind_of_ok (ofExcept_eq_ok.mpr ⟨decoded, rfl⟩), get_bind]
  cases domain.add element with
  | mk extended index =>
    dsimp only
    split
    · rfl
    · rfl

theorem readLines_of_fresh (decoded : kind.decode line = .ok element)
    (fresh : element ∉ domain.elements) :
    readLines (some line :: lines) domain =
      readLines lines { domain with elements := domain.elements ++ [element], filled := true } := by
  rw [readLines_cons decoded, add_of_not_mem fresh, if_neg (not_not_intro rfl)]

theorem readLines_append {read : List String} {elements : List kind.Elem}
    (decoded : read.mapM kind.decode = .ok elements)
    (distinct : (domain.elements ++ elements).Nodup) :
    readLines (read.map some ++ lines) domain = readLines lines (domain.extend elements) := by
  induction read generalizing domain elements with
  | nil =>
    obtain rfl : elements = [] := (Except.ok.inj decoded).symm
    rw [extend_nil]
    rfl
  | cons line read ih =>
    rw [mapM_cons] at decoded
    obtain ⟨elem, first, decoded⟩ := except_bind_eq_ok.mp decoded
    obtain ⟨others, later, decoded⟩ := except_bind_eq_ok.mp decoded
    cases decoded
    rw [append_cons] at distinct
    have fresh : elem ∉ domain.elements := fun mem =>
      (nodup_append.mp (nodup_append.mp distinct).1).2.2 elem mem elem mem_cons_self rfl
    rw [map_cons, cons_append, readLines_of_fresh first fresh, extend_cons]
    exact ih later distinct

theorem readLines_of_faulty (dense : domain.Dense)
    (faulty : Faulty domain.name domain.elements bad fault) :
    readLines (bad :: rest) domain = .error fault domain := by
  cases faulty with
  | undecodable => rfl
  | meaningless decoded => rw [readLines, decoded]; rfl
  | repeated decoded mem =>
    obtain ⟨i, found⟩ := getElem?_of_mem mem
    have early : i ≠ domain.size := Nat.ne_of_lt (List.getElem?_eq_some_iff.mp found).1
    rw [readLines_cons decoded, dense.add_of_getElem? found, if_pos early]

/-- Lines are written forms of new elements up to the end, or up to a faulty one. -/
theorem read_or_faulty (name : String) (lines : List (Option String)) {elements : List kind.Elem}
    (distinct : elements.Nodup) :
    ∃ (read : List String) (found : List kind.Elem),
      read.mapM kind.decode = .ok found ∧ (elements ++ found).Nodup ∧
      (lines = read.map some ∨ ∃ bad rest fault, lines = read.map some ++ bad :: rest ∧
        Faulty name (elements ++ found) bad fault) := by
  induction lines generalizing elements with
  | nil => exact ⟨[], [], rfl, (append_nil _).symm ▸ distinct, .inl rfl⟩
  | cons first lines ih =>
    by_cases faulty : ∃ fault, Faulty name elements first fault
    · obtain ⟨fault, faulty⟩ := faulty
      exact ⟨[], [], rfl, (append_nil _).symm ▸ distinct,
        .inr ⟨first, lines, fault, rfl, (append_nil _).symm ▸ faulty⟩⟩
    cases first with
    | none => exact absurd ⟨_, .undecodable⟩ faulty
    | some line =>
      cases decoded : kind.decode line with
      | error fault => exact absurd ⟨_, .meaningless decoded⟩ faulty
      | ok elem =>
        have fresh : elem ∉ elements := fun mem => faulty ⟨_, .repeated decoded mem⟩
        obtain ⟨read, found, later, distinct, rest⟩ := ih (nodup_append_singleton distinct fresh)
        rw [← append_cons] at distinct rest
        refine ⟨line :: read, elem :: found, ?_, distinct, ?_⟩
        · rw [mapM_cons, decoded, later]
          rfl
        · rcases rest with rfl | ⟨bad, rest, fault, rfl, faulty⟩
          · exact .inl rfl
          · exact .inr ⟨bad, rest, fault, rfl, faulty⟩

/-- Lines are read into a domain exactly if each is the written form of an element and none of these
elements is there twice. They are numbered in the order of the lines. -/
theorem readLines_eq_ok (dense : domain.Dense) {after : Domain kind} :
    readLines lines domain = .ok () after ↔ ∃ (read : List String) (elements : List kind.Elem),
      lines = read.map some ∧ read.mapM kind.decode = .ok elements ∧
        (domain.elements ++ elements).Nodup ∧ after = (domain.extend elements).setFilled := by
  constructor
  · intro reading
    obtain ⟨read, elements, decoded, distinct, rfl | ⟨bad, rest, fault, rfl, faulty⟩⟩ :=
      read_or_faulty domain.name lines dense.distinct
    · rw [← append_nil (read.map some), readLines_append decoded distinct] at reading
      cases reading
      exact ⟨read, elements, rfl, decoded, distinct, rfl⟩
    · rw [readLines_append decoded distinct,
        readLines_of_faulty (dense.extend distinct) faulty] at reading
      cases reading
  · rintro ⟨read, elements, rfl, decoded, distinct, rfl⟩
    rw [← append_nil (read.map some), readLines_append decoded distinct]
    rfl

end Reading

theorem load_of_read {disk : Disk}
    (found : disk.read (Path.join dir (mapName domain.name)) = .ok content) :
    load dir disk domain = readLines content.lines domain.clear := by
  show (if !disk.holds (Path.join dir (mapName domain.name)) then _ else _ :
    Step (Domain kind) Unit) domain = _
  rw [holds_of_read found, found]
  rfl

/-! ### What is written -/

theorem toList_mapText : domain.mapText.toList =
    (domain.elements.map fun element => (kind.encode element).toList).flatMap (· ++ ['\n']) := by
  unfold mapText
  rw [String.toList_join, flatMap_map, flatMap_map]
  simp only [String.toList_append]
  rfl

/-- The elements are found again from the lines of their file exactly if the written form of each is
one line. -/
theorem mapM_decode_mapText (fits : ∀ element ∈ domain.elements, kind.Fits element) :
    (Text.lines domain.mapText).mapM kind.decode = .ok domain.elements ↔
      ∀ element ∈ domain.elements, Text.OneLine (kind.encode element) := by
  have cut (unbroken : ∀ element ∈ domain.elements, '\n' ∉ (kind.encode element).toList) :
      Text.lines domain.mapText = domain.elements.map fun element =>
        String.ofList (Text.dropReturn (kind.encode element).toList) := by
    unfold Text.lines
    rw [toList_mapText, linesChars_terminated, map_map, map_map]
    · rfl
    · intro line mem
      obtain ⟨element, among, rfl⟩ := mem_map.mp mem
      exact unbroken element among
  constructor
  · intro found
    obtain ⟨length, each⟩ := mapM_eq_ok found
    have unbroken : ∀ element ∈ domain.elements, '\n' ∉ (kind.encode element).toList := by
      intro element mem
      have listed := mem_map_of_mem (f := fun element => (kind.encode element).toList) mem
      refine unbroken_of_length ?_ _ listed
      rw [← toList_mapText, length_map, length, Text.lines, length_map]
    intro element mem
    by_cases numbers : kind = .text
    · -- A text is its own written form, so a line without its carriage return is another text.
      subst numbers
      refine ⟨unbroken element mem, dropReturn_eq_self_iff.mp ?_⟩
      obtain ⟨i, place⟩ := mem_iff_getElem?.mp mem
      obtain ⟨line, isLine, decoded⟩ := each i element place
      rw [cut unbroken, getElem?_map, place] at isLine
      cases isLine
      have same : String.ofList (Text.dropReturn element.toList) = element := Except.ok.inj decoded
      rw [← String.toList_inj, String.toList_ofList] at same
      exact same
    · exact ElementKind.oneLine_encode numbers element
  · intro whole
    rw [cut fun element mem => (whole element mem).1]
    refine mapM_map_eq_ok fun element mem => ?_
    rw [dropReturn_eq_self_iff.mpr (whole element mem).2, String.ofList_toList]
    exact ElementKind.decode_encode (fits element mem)

theorem endsIn_mapPath (dir : String) (domain : Domain kind) :
    Path.EndsIn (Path.join dir (mapName domain.name)) 'p' :=
  Path.EndsIn.join (Path.EndsIn.append ⟨by decide, by decide, by decide⟩ _) dir

theorem endsIn_headerPath (dir : String) (domain : Domain kind) :
    Path.EndsIn (Path.join dir (headerName domain.name)) 'm' :=
  Path.EndsIn.join (Path.EndsIn.append ⟨by decide, by decide, by decide⟩ _) dir

theorem apart_files (dir : String) (domain : Domain kind) {kind' : ElementKind}
    (other : Domain kind') : Apart
      (Path.join dir (mapName domain.name)) (Path.join dir (headerName other.name)) :=
  apart_of_endsIn (endsIn_mapPath dir domain) (endsIn_headerPath dir other) (by decide)

theorem read_save {after : Disk} (saved : domain.save dir disk = .ok () after) :
    after.read (Path.join dir (mapName domain.name)) = .ok (.text domain.mapText) ∧
      after.read (Path.join dir (headerName domain.name)) = .ok (.text domain.headerText) := by
  obtain ⟨_, written, saved, rest⟩ := bind_eq_ok.mp saved
  obtain ⟨_, located, later, isHeader⟩ := write_eq_ok (change_eq_ok.mp rest)
  exact ⟨later.read located (apart_files dir domain domain) (read_saveText saved),
    read_eq_ok.mpr ⟨_, later.keepsFolders.locate? located, isHeader⟩⟩

/-- Saving a domain keeps a file that is elsewhere or has what is written already. -/
theorem keeps_read_save {dir path : String} {content : Content}
    (map : Apart path (Path.join dir (mapName domain.name)) ∨ content = .text domain.mapText)
    (header : Apart path (Path.join dir (headerName domain.name)) ∨
      content = .text domain.headerText) :
    Keeps (fun disk => disk.read path = .ok content) (domain.save dir) :=
  (keeps_read_saveText _ map).bind fun _ => keeps_read_write header

theorem exists_save {disk : Disk} {dir : String}
    (room : disk.hasRoom dir (mapName domain.name) = true)
    (room' : disk.hasRoom dir (headerName domain.name) = true) :
    ∃ after, domain.save dir disk = .ok () after ∧
      after.read (Path.join dir (mapName domain.name)) = .ok (.text domain.mapText) ∧
      after.read (Path.join dir (headerName domain.name)) = .ok (.text domain.headerText) := by
  obtain ⟨written, saved⟩ := exists_saveText room domain.mapText
  obtain ⟨_, between, made, rest⟩ := bind_eq_ok.mp saved
  obtain ⟨location, located, changes, isFile⟩ := write_eq_ok (change_eq_ok.mp rest)
  obtain ⟨_, place, made', placed, noFolder⟩ := hasRoom_iff.mp room'
  obtain rfl : between = _ := (EStateM.Result.ok.inj (made.symm.trans made')).2
  have placed' := changes.keepsFolders.locate? placed
  have apart := (apart_files dir domain domain between location place located placed).symm
  obtain ⟨after, header⟩ := @Disk.exists_write written _ _ placed'
    (by rwa [changes.elsewhere place apart]) (.text domain.headerText)
  have both : domain.save dir disk = .ok () after :=
    bind_eq_ok.mpr ⟨(), written, saved, change_eq_ok.mpr header⟩
  exact ⟨after, both, read_save both⟩

theorem words_headerText (nonempty : domain.name ≠ "")
    (word : ∀ c ∈ domain.name.toList, Text.isBlank c = false) :
    Text.words domain.headerText = [domain.name, toString domain.size, mapName domain.name] := by
  have characters : domain.headerText.toList = [' '].intercalate
      [domain.name.toList, (toString domain.size).toList, (mapName domain.name).toList] ++
        ['\n'] := by
    unfold headerText
    simp only [String.toList_append]
    simp [List.intercalate]
  have ending : ∀ c ∈ ".map".toList, Text.isBlank c = false := by simp [Text.isBlank]
  have start : domain.name.toList ≠ [] := fun none => nonempty (String.toList_inj.mp none)
  unfold Text.words
  rw [characters, wordsChars_concat (by decide), wordsChars_intercalate]
  · simp only [map_cons, map_nil, String.ofList_toList]
  · intro part mem
    simp only [mem_cons, not_mem_nil, or_false] at mem
    rcases mem with rfl | rfl | rfl
    · exact ⟨start, word⟩
    · exact ⟨toList_toString_ne_nil _, fun c inWord =>
        isBlank_of_isDigit (isDigit_of_mem_toString inWord)⟩
    · unfold mapName
      rw [String.toList_append]
      refine ⟨append_ne_nil_of_left_ne_nil start _, fun c inWord => ?_⟩
      exact (mem_append.mp inWord).elim (word c) (ending c)

theorem savedSize_of_read {disk : Disk} {dir : String}
    (found : disk.read (Path.join dir (headerName domain.name)) = .ok (.text domain.headerText))
    (nonempty : domain.name ≠ "") (word : ∀ c ∈ domain.name.toList, Text.isBlank c = false)
    (below : domain.size < sizeLimit) :
    savedSize disk dir domain.name = .ok (some domain.size) := by
  have text : disk.readText (Path.join dir (headerName domain.name)) = .ok domain.headerText := by
    unfold readText
    rw [found]
    rfl
  unfold savedSize
  dsimp only
  rw [holds_of_read found, text]
  simp only [Bool.not_true, Bool.false_eq_true, if_false, bind, Except.bind,
    words_headerText nonempty word, if_true, readSize_toString below]
  rfl

/-! ### The round trip -/

section RoundTrip

variable {disk : Disk} {dir : String}

/-- Whoever loads a saved domain gets its elements with their indices exactly if the written form of
each is one line. -/
theorem load_mapText_eq_ok {target : Domain kind} (same : target.name = domain.name)
    (found : disk.read (Path.join dir (mapName domain.name)) = .ok (.text domain.mapText))
    (distinct : domain.elements.Nodup) (fits : ∀ element ∈ domain.elements, kind.Fits element) :
    load dir disk target = .ok () loaded ∧ loaded.elements = domain.elements ↔
      (∀ element ∈ domain.elements, Text.OneLine (kind.encode element)) ∧
        loaded = domain.setFilled := by
  rw [load_of_read (same ▸ found)]
  show readLines ((Text.lines domain.mapText).map some) target.clear = _ ∧ _ ↔ _
  have dense : target.clear.Dense := dense_new
  rw [readLines_eq_ok dense, ← mapM_decode_mapText fits]
  constructor
  · rintro ⟨⟨lines, elements, written, read, _, rfl⟩, isSame⟩
    obtain rfl := (map_inj_right fun _ _ => Option.some.inj).mp written
    obtain rfl : elements = domain.elements := isSame
    refine ⟨read, ?_⟩
    show Domain.mk target.name domain.elements true = _
    rw [same]
    rfl
  · rintro ⟨read, rfl⟩
    refine ⟨⟨_, domain.elements, rfl, read, distinct, ?_⟩, rfl⟩
    show _ = Domain.mk target.name domain.elements true
    rw [same]
    rfl

/-- A domain built by adding elements can be saved wherever there is room for its two files. Loading
it gives the elements with their indices, whatever the domain it is loaded into held before, as long
as they are no texts; texts come back exactly if none of them has a line feed or ends in a carriage
return. The header gives the size of every domain whose name is one word. -/
theorem files_roundTrip {kind : ElementKind} {disk : Disk} {dir name : String}
    {elements : List kind.Elem} (fits : ∀ element ∈ elements, kind.Fits element)
    (room : disk.hasRoom dir (mapName name) = true)
    (room' : disk.hasRoom dir (headerName name) = true) :
    ∃ after, (ofList name elements).save dir disk = .ok () after ∧
      (kind ≠ .text → ∀ target : Domain kind, target.name = name →
        load dir after target = .ok () (ofList name elements).setFilled) ∧
      (∀ target : Domain kind, target.name = name →
        ((∃ loaded, load dir after target = .ok () loaded ∧
            loaded.elements = (ofList name elements).elements) ↔
          ∀ element ∈ elements, Text.OneLine (kind.encode element))) ∧
      (name ≠ "" → (∀ c ∈ name.toList, Text.isBlank c = false) →
        (ofList name elements).size < Numeral.sizeLimit →
        savedSize after dir name = .ok (some (ofList name elements).size)) := by
  have named : (ofList name elements).name = name := name_ofList
  have distinct : (ofList name elements).elements.Nodup := nodup_ofList
  have fits : ∀ element ∈ (ofList name elements).elements, kind.Fits element :=
    fun element member => fits element (mem_ofList.mp member)
  have all : (∀ element ∈ (ofList name elements).elements, Text.OneLine (kind.encode element)) ↔
      ∀ element ∈ elements, Text.OneLine (kind.encode element) :=
    forall_congr' fun element => imp_congr_left mem_ofList
  obtain ⟨after, saved, map, header⟩ := @exists_save kind (ofList name elements) disk dir
    (by rw [named]; exact room) (by rw [named]; exact room')
  refine ⟨after, saved, fun numbers target same => ?_, fun target same => ?_, ?_⟩
  · refine ((load_mapText_eq_ok (same.trans named.symm) map distinct fits).mpr ⟨?_, rfl⟩).1
    exact fun element _ => ElementKind.oneLine_encode numbers element
  · constructor
    · rintro ⟨loaded, isLoaded⟩
      exact all.mp ((load_mapText_eq_ok (same.trans named.symm) map distinct fits).mp isLoaded).1
    · intro whole
      exact ⟨_, (load_mapText_eq_ok (same.trans named.symm) map distinct fits).mpr
        ⟨all.mpr whole, rfl⟩⟩
  · intro nonempty word below
    have size := savedSize_of_read header (by rwa [named]) (by rwa [named]) below
    rwa [named] at size

/-- The contexts of a program, the empty one among them, in a folder that has to be made. -/
theorem files_roundTrip_contexts :
    (∀ sites ∈ [[], [3, 5], [3], []], ElementKind.context.Fits sites) ∧
      Disk.empty.hasRoom "out/facts" "C.map" = true ∧
      Disk.empty.hasRoom "out/facts" "C.dom" = true ∧
      ∃ after, (@ofList .context "C" [[], [3, 5], [3], []]).save "out/facts" .empty = .ok () after ∧
        (∀ target : Domain .context, target.name = "C" →
          load "out/facts" after target = .ok () ⟨"C", [[], [3, 5], [3]], true⟩) ∧
        savedSize after "out/facts" "C" = .ok (some 3) := by
  have fits : ∀ sites ∈ [[], [3, 5], [3], []], ElementKind.context.Fits sites := by decide
  have room : Disk.empty.hasRoom "out/facts" "C.map" = true := by decide
  have room' : Disk.empty.hasRoom "out/facts" "C.dom" = true := by decide
  obtain ⟨after, saved, loads, _, size⟩ :=
    @files_roundTrip .context .empty "out/facts" "C" [[], [3, 5], [3], []] fits room room'
  exact ⟨fits, room, room', after, saved, loads (by decide),
    size (by decide) (by simp [Text.isBlank]) (by decide)⟩

end RoundTrip

end Domain

end ProgramAnalysis
