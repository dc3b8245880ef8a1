import Mathlib.Data.List.Forall2
import ProgramAnalysis.Proofs.Disk
import ProgramAnalysis.Proofs.Numerals
import ProgramAnalysis.Proofs.Text.Joined
import ProgramAnalysis.Relation

/-!
The format of the file of a relation: which lines a relation reads, and which tuples they list. It
is said without the reader, by what stands in the header (`Spelled`), which lines hold no tuple
(`Idle`) and which hold one (`Lists`). The reader accepts exactly the well-formed files.
-/

namespace ProgramAnalysis.Relation

open List Numeral SortedSet Text

variable {relation loaded : Relation} {sizes : List Nat} {line dir : String} {tuple other : Tuple}
  {lines : List (Option String)} {start : SortedSet Tuple} {disk : Disk}

/-! ### The names of columns -/

/-- No name of a column has a blank or a colon in it. -/
def Spelled (columns : List String) : Prop :=
  ∀ column ∈ columns, ∀ c ∈ column.toList, Text.isBlank c = false ∧ c ≠ ':'

/-- The columns a first line names. -/
def namedColumns (rest : String) : List String := (Text.words rest).map (Text.before ':')

theorem find?_zip_eq_none {first second : List String} (length : first.length = second.length) :
    (first.zip second).find? (fun entry => entry.1 ≠ entry.2) = none ↔ first = second := by
  induction first generalizing second with
  | nil => cases second <;> simp_all
  | cons name rest ih => cases second <;> simp_all

theorem checkHeader_eq_ok : relation.checkHeader line = .ok () ↔
      ∃ names, line = "#" ++ names ∧ namedColumns names = relation.signature.columns := by
  simp only [← dropStart?_eq_some_iff]
  unfold checkHeader
  cases Text.dropStart? "#" line with
  | none => simp
  | some rest =>
    simp only [Option.some.injEq, exists_eq_left']
    show (if (namedColumns rest).length ≠ relation.arity then _ else _) = _ ↔ _
    by_cases length : (namedColumns rest).length = relation.arity
    · have agree := find?_zip_eq_none length
      rw [if_neg (not_not_intro length)]
      split
      · next none => exact iff_of_true rfl (agree.mp none)
      · next differ =>
        exact iff_of_false nofun fun equal => nomatch differ.symm.trans (agree.mpr equal)
    · rw [if_pos length]
      exact iff_of_false nofun fun equal => length (congrArg List.length equal)

theorem spelled_namedColumns (rest : String) : Spelled (namedColumns rest) := by
  intro column mem c inColumn
  obtain ⟨word, among, rfl⟩ := mem_map.mp mem
  obtain ⟨noColon, inWord⟩ := mem_before inColumn
  exact ⟨not_blank_of_mem_words among inWord, noColon⟩

/-! ### Components and sizes -/

theorem outside?_eq_none_iff :
    outside? tuple sizes = none ↔ ∀ entry ∈ tuple.zip sizes, entry.1 < entry.2 := by
  have listed : ((range tuple.length).zip (tuple.zip sizes)).map (·.2) = tuple.zip sizes :=
    map_snd_zip (by
      rw [length_zip, length_range]
      exact Nat.min_le_left ..)
  rw [outside?, Option.map_eq_none_iff, find?_eq_none]
  conv_rhs => rw [← listed]
  simp only [forall_mem_map, decide_eq_true_iff, Nat.not_le]

/-- A tuple has one component for each column, and each is below the size of its domain. -/
def Within (arity : Nat) (sizes : List Nat) (tuple : Tuple) : Prop :=
  tuple.length = arity ∧ ∀ entry ∈ tuple.zip sizes, entry.1 < entry.2

instance (arity : Nat) (sizes : List Nat) (tuple : Tuple) :
    Decidable (Within arity sizes tuple) :=
  inferInstanceAs (Decidable (_ ∧ _))

theorem within_single {size : Nat} : Within 1 [size] [a] ↔ a < size := by
  simp [Within]

theorem within_pair {size : Nat} : Within 2 [size, size'] [a, b] ↔ a < size ∧ b < size' := by
  simp [Within]

/-! ### The format -/

/-- A line without a tuple: nothing but blanks, or a comment behind blanks. -/
def Idle (line : String) : Prop :=
  Text.trim line = "" ∨ (Text.trim line).toList.head? = some '#'

/-- A line that lists a tuple: numerals for its components, one for each column and below the size
of the column where there is one. -/
def Lists (arity : Nat) (sizes : List Nat) (line : String) (tuple : Tuple) : Prop :=
  ¬ Idle line ∧ List.Forall₂ Spells (Text.words (Text.trim line)) tuple ∧
    Within arity sizes tuple

/-- A first line that names the columns, and then lines that are idle or list a tuple. No line is
undecodable. -/
def WellFormed (columns : List String) (sizes : List Nat) (lines : List (Option String))
    (later : List String) : Prop :=
  ∃ names, lines = some ("#" ++ names) :: later.map some ∧ namedColumns names = columns ∧
    ∀ line ∈ later, Idle line ∨ ∃ tuple, Lists columns.length sizes line tuple

/-! ### The reader -/

theorem skipped_iff :
    (decide (Text.trim line = "") || (Text.dropStart? "#" (Text.trim line)).isSome) = true ↔
      Idle line := by
  rw [@isSome_dropStart? '#' "#" rfl, Bool.or_eq_true, decide_eq_true_iff, beq_iff_eq]
  rfl

theorem readTuple_of_idle (idle : Idle line) : relation.readTuple sizes line = .ok none := by
  unfold readTuple
  dsimp only
  rw [if_pos (skipped_iff.mpr idle)]
  rfl

theorem readTuple_of_not_idle (busy : ¬ Idle line) {result : Option Tuple} :
    relation.readTuple sizes line = .ok result ↔
      ∃ tuple, Lists relation.arity sizes line tuple ∧ result = some tuple := by
  have words (tuple : Tuple) : (Text.words (Text.trim line)).mapM (fun word =>
      (readSize word).mapError Fault.numeral) = .ok tuple ↔
        List.Forall₂ Spells (Text.words (Text.trim line)) tuple := by
    rw [mapM_eq_ok_iff, ← forall₂_eq_eq_eq, forall₂_map_left_iff, forall₂_map_right_iff]
    simp only [mapError_eq_ok, readSize_eq_ok]
  unfold readTuple
  dsimp only
  rw [if_neg (mt skipped_iff.mp busy), except_bind_eq_ok]
  simp only [words, Lists, Within, ← outside?_eq_none_iff]
  refine exists_congr fun tuple => ?_
  constructor
  · rintro ⟨spelled, rest⟩
    split at rest
    · cases rest
    · next length =>
      split at rest
      · next inside =>
        cases rest
        exact ⟨⟨busy, spelled, Decidable.not_not.mp length, inside⟩, rfl⟩
      · cases rest
  · rintro ⟨⟨_, spelled, length, inside⟩, rfl⟩
    refine ⟨spelled, ?_⟩
    rw [if_neg (not_not_intro length), inside]
    rfl

theorem Lists.eq_iff (lists : Lists relation.arity sizes line tuple) :
    Lists relation.arity sizes line other ↔ other = tuple := by
  constructor
  · intro lists'
    have first := (readTuple_of_not_idle lists.1).mpr ⟨tuple, lists, rfl⟩
    have second := (readTuple_of_not_idle lists.1).mpr ⟨other, lists', rfl⟩
    exact Option.some.inj (Except.ok.inj (second.symm.trans first))
  · rintro rfl
    exact lists

/-- Lines can be read exactly if each is idle or lists a tuple. Those are the tuples read. -/
theorem readTuples_eq_ok {read : SortedSet Tuple} :
    relation.readTuples sizes start lines = .ok read ↔ ∃ later : List String,
      lines = later.map some ∧
      (∀ line ∈ later, Idle line ∨ ∃ tuple, Lists relation.arity sizes line tuple) ∧
      ∀ tuple, tuple ∈ read ↔ tuple ∈ start ∨
        ∃ line ∈ later, Lists relation.arity sizes line tuple := by
  induction lines generalizing start with
  | nil =>
    constructor
    · intro reading
      cases reading
      exact ⟨[], rfl, nofun, by simp⟩
    · rintro ⟨later, none, _, members⟩
      obtain rfl := map_eq_nil_iff.mp none.symm
      refine congrArg Except.ok (ext fun tuple => ?_)
      rw [members]
      simp
  | cons first rest ih =>
    cases first with
    | none =>
      constructor
      · intro reading
        cases reading
      · rintro ⟨later, same, _⟩
        cases later <;> cases same
    | some line =>
      -- A line that is there is the first of the later ones, whatever is said of these.
      have split (holds : List String → Prop) :
          (∃ later : List String, some line :: rest = later.map some ∧ holds later) ↔
            ∃ later, rest = later.map some ∧ holds (line :: later) := by
        constructor
        · rintro ⟨_ | ⟨_, later⟩, same, held⟩
          · cases same
          · cases same
            exact ⟨later, rfl, held⟩
        · rintro ⟨later, rfl, held⟩
          exact ⟨line :: later, rfl, held⟩
      rw [split, readTuples]
      by_cases idle : Idle line
      · rw [readTuple_of_idle idle]
        refine ih.trans (exists_congr fun later => and_congr_right fun _ => ?_)
        have nothing (tuple : Tuple) : ¬ Lists relation.arity sizes line tuple := fun lists =>
          lists.1 idle
        simp [idle, nothing]
      · rw [except_bind_eq_ok]
        simp only [readTuple_of_not_idle idle]
        constructor
        · rintro ⟨_, ⟨tuple, lists, rfl⟩, reading⟩
          obtain ⟨later, same, allowed, members⟩ := ih.mp reading
          refine ⟨later, same, forall_mem_cons.mpr ⟨.inr ⟨tuple, lists⟩, allowed⟩, fun other => ?_⟩
          rw [members, mem_insert, exists_mem_cons_iff, lists.eq_iff, or_assoc, or_left_comm]
        · rintro ⟨later, same, allowed, members⟩
          obtain ⟨first, allowed⟩ := forall_mem_cons.mp allowed
          obtain ⟨tuple, lists⟩ := first.resolve_left idle
          refine ⟨_, ⟨tuple, lists, rfl⟩, ih.mpr ⟨later, same, allowed, fun other => ?_⟩⟩
          rw [members, mem_insert, exists_mem_cons_iff, lists.eq_iff, or_assoc, or_left_comm]

theorem readLines_eq_ok {read : SortedSet Tuple} :
    relation.readLines sizes lines = .ok read ↔ ∃ later,
      WellFormed relation.signature.columns sizes lines later ∧
      ∀ tuple, tuple ∈ read ↔ ∃ line ∈ later, Lists relation.arity sizes line tuple := by
  have noTuple (tuple : Tuple) : tuple ∉ (empty : SortedSet Tuple) := nofun
  unfold readLines
  split
  · constructor
    · intro reading
      obtain ⟨_, checked, _⟩ := except_bind_eq_ok.mp reading
      obtain ⟨names, missing, _⟩ := checkHeader_eq_ok.mp checked
      have empty := congrArg String.toList missing
      rw [String.toList_append] at empty
      cases empty
    · rintro ⟨later, ⟨names, none, _⟩, _⟩
      cases none
  · refine iff_of_false nofun ?_
    rintro ⟨later, ⟨names, none, _⟩, _⟩
    cases none
  · next header rest =>
    rw [except_bind_eq_ok]
    simp only [readTuples_eq_ok, noTuple, false_or]
    constructor
    · rintro ⟨_, checked, later, rfl, allowed, members⟩
      obtain ⟨names, rfl, columns⟩ := checkHeader_eq_ok.mp checked
      exact ⟨later, ⟨names, rfl, columns, allowed⟩, members⟩
    · rintro ⟨later, ⟨names, same, columns, allowed⟩, members⟩
      cases same
      exact ⟨(), checkHeader_eq_ok.mpr ⟨names, rfl, columns⟩, later, rfl, allowed, members⟩

theorem load_eq_ok : relation.load dir sizes disk = .ok loaded ↔
      ∃ content tuples, disk.read (relation.filePath dir) = .ok content ∧
        relation.readLines sizes content.lines = .ok tuples ∧
        loaded = { relation with tuples := some tuples } := by
  unfold Relation.load
  dsimp only
  constructor
  · intro loading
    split at loading
    · cases loading
    · obtain ⟨content, found, rest⟩ := except_bind_eq_ok.mp loading
      obtain ⟨tuples, read, same⟩ := except_bind_eq_ok.mp rest
      cases same
      exact ⟨content, tuples, found, read, rfl⟩
  · rintro ⟨content, tuples, found, read, rfl⟩
    rw [Disk.holds_of_read found]
    exact except_bind_eq_ok.mpr ⟨content, found, except_bind_eq_ok.mpr ⟨tuples, read, rfl⟩⟩

theorem spelled_of_load (loading : relation.load dir sizes disk = .ok loaded) :
    Spelled relation.signature.columns := by
  obtain ⟨content, read, _, reading, _⟩ := load_eq_ok.mp loading
  obtain ⟨_, ⟨names, _, named, _⟩, _⟩ := readLines_eq_ok.mp reading
  exact named ▸ spelled_namedColumns names

end ProgramAnalysis.Relation
