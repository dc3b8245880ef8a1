import ProgramAnalysis.Proofs.Relation
import ProgramAnalysis.Proofs.Signature

/-!
What is written to the file of a relation, and which relations come back from their files. Columns
with their sizes stand in the header and tuples follow, one a line. The header is cut at blanks and
colons when it is read, which names of columns with these do not survive; and the tuple without
components leaves an empty line.
-/

namespace ProgramAnalysis

open List Numeral Text Signature

namespace Signature

variable {columns : List String} {order : String} {signature : Signature}

/-- An order is made of the names of columns and of what may stand between them. -/
theorem mem_order (made : make columns order = .ok signature) (mem : c ∈ order.toList) :
    c = '_' ∨ c = 'x' ∨ ∃ column ∈ columns, c ∈ column.toList := by
  rcases @Text.mem_pieces (fun c => c == '_' || c == 'x') order.toList c mem with
    between | ⟨piece, among, inPiece⟩
  · rw [Bool.or_eq_true, beq_iff_eq, beq_iff_eq] at between
    rw [← or_assoc]
    exact .inl between
  · have listed : String.ofList piece ∈ orderNames order :=
      mem_map_of_mem (mem_filter.mpr ⟨among, by
        rw [decide_eq_true_iff]
        exact ne_nil_of_mem inPiece⟩)
    rw [orderNames_eq] at listed
    refine .inr (.inr ⟨_, (make_eq_ok made).2.arranged.subset listed, ?_⟩)
    rwa [String.toList_ofList]

end Signature

namespace Relation

variable {relation target : Relation} {sizes written : List Nat} {tuples read : SortedSet Tuple}
  {tuple : Tuple}

/-! ### Lines of tuples -/

theorem tupleText_eq (tuple : Tuple) : tupleText tuple = listed tuple := rfl

theorem not_idle_tupleText (some : tuple ≠ []) : ¬ Idle (tupleText tuple) := by
  rw [Idle, tupleText_eq, trim_listed]
  rintro (none | comment)
  · exact listed_ne_empty some none
  · exact absurd (isDigit_of_head?_listed comment) (by decide)

theorem idle_comment (rest : List Char) : Idle (String.ofList ('#' :: rest)) := by
  obtain ⟨others, trimmed⟩ := exists_trimChars_cons (by decide : Text.isBlank '#' = false) rest
  rw [Idle, Text.trim, String.toList_ofList, trimmed, String.toList_ofList]
  exact .inr rfl

/-- The line of a tuple lists this tuple and no other. -/
theorem lists_tupleText (some : tuple ≠ []) {arity : Nat} {other : Tuple} :
    Lists arity sizes (tupleText tuple) other ↔
      other = tuple ∧ (∀ n ∈ tuple, n < sizeLimit) ∧ Within arity sizes tuple := by
  have spells : List.Forall₂ Spells (tuple.map toString) other ↔
      other = tuple ∧ ∀ n ∈ tuple, n < sizeLimit := by
    clear some
    induction tuple generalizing other with
    | nil => simp
    | cons n rest ih =>
      cases other with
      | nil => simp
      | cons m others =>
        rw [map_cons, forall₂_cons, spells_toString, ih, cons.injEq, forall_mem_cons]
        exact and_and_and_comm
  rw [Lists, tupleText_eq, trim_listed, words_listed, spells]
  constructor
  · rintro ⟨_, ⟨rfl, small⟩, within⟩
    exact ⟨rfl, small, within⟩
  · rintro ⟨rfl, small, within⟩
    exact ⟨not_idle_tupleText some, ⟨rfl, small⟩, within⟩

theorem lt_sizeLimit_of_within {arity : Nat} (enough : arity ≤ sizes.length)
    (wide : ∀ size ∈ sizes, size < sizeLimit) (within : Within arity sizes tuple) :
    ∀ n ∈ tuple, n < sizeLimit := by
  obtain ⟨rfl, inside⟩ := within
  intro n mem
  rw [← map_fst_zip enough] at mem
  obtain ⟨⟨_, size⟩, zipped, rfl⟩ := mem_map.mp mem
  exact Nat.lt_trans (inside _ zipped) (wide size (of_mem_zip zipped).2)

/-! ### The whole file -/

/-- The first line of a file. -/
def headerText (relation : Relation) (sizes : List Nat) : String :=
  "# " ++ " ".intercalate ((relation.signature.columns.zip sizes).map fun entry =>
    entry.1 ++ ":" ++ toString entry.2)

/-- A column with the size of its domain, as it stands in a first line. -/
def columnWord (entry : String × Nat) : List Char :=
  entry.1.toList ++ ':' :: (toString entry.2).toList

theorem toList_headerText : (relation.headerText sizes).toList =
      '#' :: ' ' :: [' '].intercalate ((relation.signature.columns.zip sizes).map columnWord) := by
  unfold headerText
  rw [String.toList_append, String.toList_intercalate, map_map]
  refine congrArg ('#' :: ' ' :: [' '].intercalate ·) (map_congr_left fun entry _ => ?_)
  rw [Function.comp_apply, String.toList_append, String.toList_append, append_assoc]
  rfl

/-- The lines of a file. -/
def fileLines (relation : Relation) (sizes : List Nat) (tuples : SortedSet Tuple) :
    List (List Char) :=
  (relation.headerText sizes).toList :: ("# order=" ++ relation.signature.order).toList ::
    tuples.toList.map fun tuple => (tupleText tuple).toList

theorem toList_fileText : (relation.fileText sizes tuples).toList =
    (relation.fileLines sizes tuples).flatMap (· ++ ['\n']) := by
  unfold fileText fileLines headerText
  simp only [String.toList_append, String.toList_join, flatMap_cons, flatMap_map, append_assoc]
  rfl

/-- A file can be cut into its lines again: no name of a column and no order has a line feed. -/
def HasLines (signature : Signature) : Prop :=
  (∀ column ∈ signature.columns, '\n' ∉ column.toList) ∧ '\n' ∉ signature.order.toList

theorem not_mem_tupleText {c : Char} (noDigit : c.isDigit = false) (noBlank : c ≠ ' ') :
    c ∉ (tupleText tuple).toList := not_mem_listed noDigit noBlank

theorem not_mem_headerText {c : Char} (noDigit : c.isDigit = false) (other : c ∉ ['#', ' ', ':'])
    (columns : ∀ column ∈ relation.signature.columns, c ∉ column.toList) :
    c ∉ (relation.headerText sizes).toList := by
  rw [toList_headerText]
  simp only [mem_cons, not_mem_nil, or_false, not_or] at other
  obtain ⟨noHash, noBlank, noColon⟩ := other
  intro mem
  rcases mem_cons.mp mem with hash | mem
  · exact noHash hash
  · rcases mem_cons.mp mem with blank | mem
    · exact noBlank blank
    · rcases mem_of_mem_intercalate mem with blank | ⟨word, among, inWord⟩
      · exact noBlank blank
      · obtain ⟨⟨column, size⟩, zipped, rfl⟩ := mem_map.mp among
        rcases mem_append.mp inWord with inColumn | later
        · exact columns column (of_mem_zip zipped).1 inColumn
        · rcases mem_cons.mp later with colon | inSize
          · exact noColon colon
          · exact not_mem_toString noDigit size inSize

theorem not_mem_fileLines (lines : HasLines relation.signature)
    (mem : line ∈ relation.fileLines sizes tuples) : '\n' ∉ line := by
  rcases mem_cons.mp mem with rfl | mem
  · exact not_mem_headerText (by decide) (by decide) lines.1
  · rcases mem_cons.mp mem with rfl | mem
    · rw [String.toList_append, mem_append]
      rintro (opening | inOrder)
      · exact absurd opening (by decide)
      · exact lines.2 inOrder
    · obtain ⟨tuple, _, rfl⟩ := mem_map.mp mem
      exact not_mem_tupleText (by decide) (by decide)

theorem exists_lines_fileText (lines : HasLines relation.signature) :
    ∃ comment, (Content.text (relation.fileText written tuples)).lines =
      some (String.ofList (Text.dropReturn (relation.headerText written).toList)) ::
        (String.ofList ('#' :: comment) :: tuples.toList.map tupleText).map some := by
  have order : ("# order=" ++ relation.signature.order).toList =
      '#' :: ' ' :: ("order=".toList ++ relation.signature.order.toList) := by
    rw [String.toList_append]
    rfl
  obtain ⟨comment, ended⟩ := exists_dropReturn_cons '#' ' '
    ("order=".toList ++ relation.signature.order.toList)
  refine ⟨comment, ?_⟩
  show ((Text.linesChars (relation.fileText written tuples).toList).map String.ofList).map some = _
  rw [toList_fileText, linesChars_terminated fun _ => not_mem_fileLines lines, fileLines, order]
  simp only [map_cons, map_map, ended]
  refine congrArg (_ :: _ :: ·) (map_congr_left fun tuple _ => ?_)
  have kept := @Text.dropReturn_eq_self (tupleText tuple).toList fun c mem same =>
    not_mem_tupleText (by decide) (by decide) (same ▸ mem)
  show some (String.ofList (Text.dropReturn (tupleText tuple).toList)) = _
  rw [kept, String.ofList_toList]
  rfl

/-- The tuples that the lines after the first list, if they can be read. -/
theorem exists_lists_iff {arity : Nat} {comment : List Char} :
    (∃ line ∈ String.ofList ('#' :: comment) :: tuples.toList.map tupleText,
      Lists arity sizes line tuple) ↔
      tuple ∈ tuples ∧ tuple ≠ [] ∧ (∀ n ∈ tuple, n < sizeLimit) ∧ Within arity sizes tuple := by
  constructor
  · rintro ⟨_, _ | ⟨_, among⟩, lists⟩
    · exact absurd (idle_comment comment) lists.1
    · obtain ⟨other, mem, rfl⟩ := mem_map.mp among
      have some : other ≠ [] := by
        rintro rfl
        exact lists.1 (.inl rfl)
      obtain ⟨rfl, proper⟩ := (lists_tupleText some).mp lists
      exact ⟨mem, some, proper⟩
  · rintro ⟨mem, some, proper⟩
    exact ⟨_, .tail _ (mem_map_of_mem mem), (lists_tupleText some).mpr ⟨rfl, proper⟩⟩

/-- Whoever reads the lines of a file without a failure has the tuples that were written, except one
without components. -/
theorem mem_readLines_fileText (lines : HasLines relation.signature) {reader : Relation}
    (reading : reader.readLines sizes
      (Content.text (relation.fileText written tuples)).lines = .ok read) :
    tuple ∈ read ↔ tuple ∈ tuples ∧ tuple ≠ [] := by
  obtain ⟨comment, listed⟩ := exists_lines_fileText lines
  rw [listed] at reading
  obtain ⟨later, ⟨names, same, _, allowed⟩, members⟩ := readLines_eq_ok.mp reading
  obtain rfl := (map_inj_right fun _ _ => Option.some.inj).mp (cons.inj same).2
  rw [members, exists_lists_iff]
  refine ⟨fun listed => ⟨listed.1, listed.2.1⟩, fun ⟨mem, nonempty⟩ => ⟨mem, nonempty, ?_⟩⟩
  have among : tupleText tuple ∈ tuples.toList.map tupleText := mem_map_of_mem mem
  obtain ⟨other, lists⟩ := (allowed _ (.tail _ among)).resolve_left (not_idle_tupleText nonempty)
  exact ((lists_tupleText nonempty).mp lists).2

theorem readLines_fileText (lines : HasLines relation.signature)
    (proper : ∀ tuple ∈ tuples, tuple ≠ [])
    (reading : relation.readLines sizes
      (Content.text (relation.fileText written tuples)).lines = .ok read) : read = tuples :=
  SortedSet.ext fun tuple => (mem_readLines_fileText lines reading).trans
    (and_iff_left_of_imp (proper tuple))

theorem namedColumns_header {columns : List String} (spelled : Spelled columns)
    (enough : columns.length ≤ sizes.length) :
    namedColumns (String.ofList (' ' :: [' '].intercalate ((columns.zip sizes).map columnWord))) =
      columns := by
  have proper : ∀ word ∈ (columns.zip sizes).map columnWord,
      word ≠ [] ∧ ∀ c ∈ word, Text.isBlank c = false := by
    intro word mem
    obtain ⟨⟨column, size⟩, zipped, rfl⟩ := mem_map.mp mem
    refine ⟨append_ne_nil_of_right_ne_nil _ (cons_ne_nil _ _), fun c inWord => ?_⟩
    rcases mem_append.mp inWord with inColumn | later
    · exact (spelled column (of_mem_zip zipped).1 c inColumn).1
    · rcases mem_cons.mp later with rfl | inSize
      · decide
      · exact isBlank_of_isDigit (isDigit_of_mem_toString inSize)
  unfold namedColumns Text.words
  rw [String.toList_ofList, wordsChars_cons (by decide), wordsChars_intercalate proper,
    map_map, map_map]
  refine Eq.trans (map_congr_left fun entry zipped => ?_) (map_fst_zip enough)
  obtain ⟨column, size⟩ := entry
  show Text.before ':' (String.ofList (column.toList ++ ':' :: (toString size).toList)) = column
  rw [before_append, String.ofList_toList]
  intro colon
  exact (spelled column (of_mem_zip zipped).1 ':' colon).2 rfl

/-- Where every name is spelled without blanks, the file can be cut into lines again. -/
theorem hasLines_of_spelled {columns : List String} {order : String} {signature : Signature}
    (made : make columns order = .ok signature) (spelled : Spelled columns) :
    HasLines signature := by
  obtain ⟨rfl, _⟩ := make_eq_ok made
  have unbroken : ∀ column ∈ columns, '\n' ∉ column.toList := fun column mem broken =>
    absurd (spelled column mem '\n' broken).1 (by decide)
  refine ⟨unbroken, fun broken => ?_⟩
  rcases mem_order made broken with between | between | ⟨column, mem, inColumn⟩
  · exact absurd between (by decide)
  · exact absurd between (by decide)
  · exact unbroken column mem inColumn

/-! ### The round trip -/

section RoundTrip

variable {columns : List String} {order dir : String} {signature : Signature} {disk : Disk}

theorem exists_readLines (lines : HasLines relation.signature)
    (spelled : Spelled relation.signature.columns)
    (same : target.signature.columns = relation.signature.columns)
    (enough : relation.arity ≤ sizes.length) (wide : ∀ size ∈ sizes, size < sizeLimit)
    (within : ∀ tuple ∈ tuples, Within relation.arity sizes tuple) :
    ∃ read, target.readLines sizes (Content.text (relation.fileText sizes tuples)).lines =
      .ok read := by
  obtain ⟨comment, listed⟩ := @exists_lines_fileText relation sizes tuples lines
  have noReturn : Text.dropReturn (relation.headerText sizes).toList =
      (relation.headerText sizes).toList := by
    refine dropReturn_eq_self fun c mem => ?_
    rintro rfl
    refine not_mem_headerText (by decide) (by decide) (fun column among inColumn => ?_) mem
    exact absurd (spelled column among '\r' inColumn).1 (by decide)
  have proper (tuple : Tuple) (mem : tuple ∈ tuples) :
      (∀ n ∈ tuple, n < sizeLimit) ∧ Within target.arity sizes tuple := by
    have inside := within tuple mem
    rw [Relation.arity, Signature.arity, same]
    exact ⟨lt_sizeLimit_of_within enough wide inside, inside⟩
  refine ⟨.ofList (tuples.toList.filter (· ≠ [])), readLines_eq_ok.mpr
    ⟨String.ofList ('#' :: comment) :: tuples.toList.map tupleText,
      ⟨_, ?_, (namedColumns_header spelled enough).trans same.symm, ?_⟩, fun tuple => ?_⟩⟩
  · rw [listed, noReturn, toList_headerText, dropStart?_eq_some_iff.mp (dropStart?_hash _)]
  · rintro _ (_ | ⟨_, among⟩)
    · exact .inl (idle_comment comment)
    · obtain ⟨tuple, mem, rfl⟩ := mem_map.mp among
      by_cases some : tuple = []
      · exact .inl (some ▸ .inl rfl)
      · exact .inr ⟨tuple, (lists_tupleText some).mpr ⟨rfl, proper tuple mem⟩⟩
  · rw [exists_lists_iff, SortedSet.mem_ofList, mem_filter, decide_eq_true_iff]
    exact ⟨fun ⟨mem, nonempty⟩ => ⟨mem, nonempty, proper tuple mem⟩,
      fun listed => ⟨listed.1, listed.2.1⟩⟩

/-- A relation can be saved wherever there is room for its file. A relation of the same name with
the same columns loads it exactly if no name of a column has a blank or a colon in it, and then has
the same tuples unless there are no columns and the tuple without components was among them. -/
theorem file_roundTrip {relation target : Relation} {sizes : List Nat} {tuples : SortedSet Tuple}
    {columns : List String} {order dir : String} {signature : Signature} {disk : Disk}
    (made : Signature.make columns order = .ok signature)
    (declared : relation.signature = signature) (opened : relation.tuples = some tuples)
    (enough : columns.length ≤ sizes.length) (wide : ∀ size ∈ sizes, size < Numeral.sizeLimit)
    (within : ∀ tuple ∈ tuples, Within columns.length sizes tuple)
    (named : target.name = relation.name) (same : target.signature.columns = columns)
    (room : disk.hasRoom dir (relation.name ++ ".tuples") = true) :
    ∃ after, relation.save dir sizes disk = .ok () after ∧
      ((∃ loaded, target.load dir sizes after = .ok loaded) ↔ Spelled columns) ∧
      ∀ loaded, target.load dir sizes after = .ok loaded →
        (loaded.contents = .ok tuples ↔ ¬ (columns = [] ∧ [] ∈ tuples)) := by
  obtain ⟨rfl, _⟩ := Signature.make_eq_ok made
  have listed : relation.signature.columns = columns := by rw [declared]
  have arity : relation.arity = columns.length := congrArg List.length listed
  obtain ⟨after, saved⟩ := Disk.exists_saveText room (relation.fileText sizes tuples)
  have found : after.read (target.filePath dir) = .ok (.text (relation.fileText sizes tuples)) := by
    unfold filePath
    rw [named]
    exact Disk.read_saveText saved
  refine ⟨after, ?_, ⟨?_, fun spelled => ?_⟩, fun loaded loading => ?_⟩
  · refine Step.bind_eq_ok.mpr ⟨tuples, disk, Step.ofExcept_eq_ok.mpr ⟨?_, rfl⟩, saved⟩
    unfold contents
    rw [opened]
  · rintro ⟨loaded, loading⟩
    exact same ▸ spelled_of_load loading
  · obtain ⟨read, reading⟩ := @exists_readLines relation target sizes tuples
      (declared ▸ hasLines_of_spelled made spelled) (listed ▸ spelled) (same.trans listed.symm)
      (arity ▸ enough) wide (arity ▸ within)
    exact ⟨_, load_eq_ok.mpr ⟨_, read, found, reading, rfl⟩⟩
  · have spelled : Spelled columns := same ▸ spelled_of_load loading
    obtain ⟨content, read, isFile, reading, rfl⟩ := load_eq_ok.mp loading
    rw [found] at isFile
    cases isFile
    have each (tuple : Tuple) : tuple ∈ read ↔ tuple ∈ tuples ∧ tuple ≠ [] :=
      mem_readLines_fileText (declared ▸ hasLines_of_spelled made spelled) reading
    show Except.ok read = .ok tuples ↔ _
    rw [Except.ok.injEq]
    constructor
    · rintro rfl ⟨_, empty⟩
      exact ((each []).mp empty).2 rfl
    · intro kept
      refine SortedSet.ext fun tuple => (each tuple).trans (and_iff_left_of_imp ?_)
      rintro member rfl
      exact kept ⟨List.length_eq_zero_iff.mp (within [] member).1.symm, member⟩

/-- Two columns of one domain, interleaved, read by a relation that lays them out one after the
other and is open already. -/
theorem file_roundTrip_interleaved :
    Signature.make ["M0", "M1"] "M0xM1" = .ok ⟨["M0", "M1"], "M0xM1"⟩ ∧
      (∀ tuple ∈ SortedSet.ofList [[2, 0], [0, 1]], Within 2 [3, 3] tuple) ∧
      Disk.empty.hasRoom "facts" "calls.tuples" = true ∧ ∃ after loaded,
        Relation.save ⟨"calls", ⟨["M0", "M1"], "M0xM1"⟩, some (.ofList [[2, 0], [0, 1]])⟩ "facts"
          [3, 3] .empty = .ok () after ∧
        Relation.load ⟨"calls", ⟨["M0", "M1"], "M1_M0"⟩, some .empty⟩ "facts" [3, 3] after =
          .ok loaded ∧
        loaded.contents = .ok (.ofList [[2, 0], [0, 1]]) := by
  have made : Signature.make ["M0", "M1"] "M0xM1" = .ok ⟨["M0", "M1"], "M0xM1"⟩ := by rfl
  have within : ∀ tuple ∈ SortedSet.ofList [[2, 0], [0, 1]], Within 2 [3, 3] tuple := by
    show ∀ tuple ∈ (SortedSet.ofList [[2, 0], [0, 1]]).toList, Within 2 [3, 3] tuple
    decide
  have room : Disk.empty.hasRoom "facts" "calls.tuples" = true := by decide
  obtain ⟨after, saved, loads, kept⟩ := @file_roundTrip
    ⟨"calls", ⟨["M0", "M1"], "M0xM1"⟩, some (.ofList [[2, 0], [0, 1]])⟩
    ⟨"calls", ⟨["M0", "M1"], "M1_M0"⟩, some .empty⟩ [3, 3] (.ofList [[2, 0], [0, 1]])
    ["M0", "M1"] "M0xM1" "facts" _ .empty made rfl rfl (by decide) (by decide) within rfl rfl room
  obtain ⟨loaded, loading⟩ := loads.mpr (by simp [Spelled, Text.isBlank])
  exact ⟨made, within, room, after, loaded, saved, loading, (kept loaded loading).mpr (by decide)⟩

end RoundTrip

end Relation

end ProgramAnalysis
