import Mathlib.Data.List.Infix
import ProgramAnalysis.Proofs.Text

/-!
Texts that are joined and cut apart again: many pieces with one separator, two parts at the first
separator, and words with blanks around them.
-/

namespace ProgramAnalysis.Text

open List

/-! ### Many pieces -/

section Pieces

variable {cut : Char → Bool} {separator : Char}

theorem pieces_eq_splitOnP (cut : Char → Bool) (cs : List Char) :
    pieces cut cs = cs.splitOnP cut := by
  induction cs with
  | nil => rfl
  | cons c rest ih =>
    rw [pieces, splitOnP_cons_eq_if_modifyHead, ← ih]
    obtain ⟨first, others, found⟩ := exists_pieces cut rest
    rw [found]
    rfl

/-- Cutting at two separators is cutting at one and then each piece at the other. -/
theorem pieces_or (cut other : Char → Bool) (cs : List Char) :
    pieces (fun c => cut c || other c) cs = (pieces cut cs).flatMap (pieces other) := by
  induction cs with
  | nil => rfl
  | cons c rest ih =>
    rw [pieces, pieces, ih]
    by_cases first : cut c = true
    · rw [if_pos (by rw [first, Bool.true_or]), if_pos first]
      rfl
    · obtain ⟨piece, others, found⟩ := exists_pieces cut rest
      obtain ⟨front, more, inside⟩ := exists_pieces other piece
      simp only [found, first, Bool.false_or, Bool.false_eq_true, if_false, flatMap_cons]
      rw [pieces, inside]
      split <;> rfl

theorem intercalate_pieces (separator : Char) (cs : List Char) :
    [separator].intercalate (pieces (· == separator) cs) = cs := by
  induction cs with
  | nil => rfl
  | cons c rest ih =>
    rw [pieces]
    obtain ⟨first, others, found⟩ := exists_pieces (· == separator) rest
    rw [found] at ih ⊢
    split
    · next same =>
      rw [intercalate_cons_cons, ih, beq_iff_eq.mp same]
      rfl
    · rw [← ih]
      cases others with
      | nil => rw [intercalate_singleton, intercalate_singleton]
      | cons => simp only [intercalate_cons_cons, cons_append]

theorem flatten_pieces_sublist (cut : Char → Bool) (cs : List Char) :
    (pieces cut cs).flatten.Sublist cs := by
  induction cs with
  | nil => exact .slnil
  | cons c rest ih =>
    rw [pieces]
    split
    · exact ih.cons c
    · obtain ⟨first, others, found⟩ := exists_pieces cut rest
      rw [found] at ih ⊢
      exact ih.cons_cons c

/-- Words that are joined by a separator are found again if none is cut itself. -/
theorem pieces_intercalate_of_uncut {words : List (List Char)} (cuts : cut separator = true)
    (some : words ≠ []) (uncut : ∀ word ∈ words, ∀ c ∈ word, cut c = false) :
    pieces cut ([separator].intercalate words) = words := by
  rw [pieces_intercalate cuts some, flatMap_def,
    map_congr_left fun word mem => pieces_of_uncut (uncut word mem), ← flatMap_def,
    flatMap_singleton']

end Pieces

section SplitAt

variable {separator c : Char} {joint s piece : String} {words : List String}

theorem splitAt_ne_nil (separator : Char) (s : String) : splitAt separator s ≠ [] := by
  unfold splitAt
  rw [ne_eq, map_eq_nil_iff]
  exact pieces_ne_nil _ _

theorem not_mem_of_mem_splitAt (among : piece ∈ splitAt separator s) :
    separator ∉ piece.toList := by
  obtain ⟨chars, isPiece, rfl⟩ := mem_map.mp among
  rw [String.toList_ofList]
  intro inside
  have uncut := uncut_of_mem_pieces isPiece inside
  rw [beq_self_eq_true] at uncut
  cases uncut

theorem mem_of_mem_splitAt (among : piece ∈ splitAt separator s) (mem : c ∈ piece.toList) :
    c ∈ s.toList := by
  obtain ⟨chars, isPiece, rfl⟩ := mem_map.mp among
  rw [String.toList_ofList] at mem
  exact (flatten_pieces_sublist _ _).subset (mem_flatten.mpr ⟨chars, isPiece, mem⟩)

theorem ofList_map_toList (words : List String) :
    (words.map String.toList).map String.ofList = words := by
  rw [map_map]
  exact (map_congr_left fun _ _ => String.ofList_toList).trans (map_id _)

theorem splitAt_intercalate (single : joint.toList = [separator]) (some : words ≠ [])
    (apart : ∀ word ∈ words, separator ∉ word.toList) :
    splitAt separator (joint.intercalate words) = words := by
  unfold splitAt
  rw [String.toList_intercalate, single, pieces_intercalate_of_uncut _ (by simpa using some),
    ofList_map_toList]
  · intro chars mem c inside
    obtain ⟨word, among, rfl⟩ := mem_map.mp mem
    exact beq_eq_false_iff_ne.mpr fun same => apart word among (same ▸ inside)
  · exact beq_self_eq_true separator

theorem not_mem_intercalate (single : joint.toList = [separator]) (other : c ≠ separator)
    (absent : ∀ word ∈ words, c ∉ word.toList) : c ∉ (joint.intercalate words).toList := by
  rw [String.toList_intercalate, single]
  intro mem
  rcases mem_of_mem_intercalate mem with same | ⟨chars, among, inside⟩
  · exact other same
  · obtain ⟨word, isWord, rfl⟩ := mem_map.mp among
    exact absent word isWord inside

theorem intercalate_splitAt (single : joint.toList = [separator]) (s : String) :
    joint.intercalate (splitAt separator s) = s := by
  have same : (splitAt separator s).map String.toList = pieces (· == separator) s.toList := by
    rw [splitAt, map_map]
    exact (map_congr_left fun _ _ => String.toList_ofList).trans (map_id _)
  rw [← String.toList_inj, String.toList_intercalate, single, same, intercalate_pieces]

end SplitAt

/-! ### Two parts -/

/-- The first occurrence of a character is where nothing before it is that character. -/
theorem cutAt?_eq_some_iff : cutAt? separator s = some (front, rest) ↔
      s.toList = front.toList ++ separator :: rest.toList ∧ separator ∉ front.toList := by
  have other {chars : List Char} : (∀ c ∈ chars, (c != separator) = true) ↔ separator ∉ chars := by
    simp only [bne_iff_ne]
    exact ⟨fun each inside => each separator inside rfl, fun absent c inside same =>
      absent (same ▸ inside)⟩
  have together := @List.takeWhile_append_dropWhile _ (· != separator) s.toList
  unfold cutAt?
  constructor
  · intro cut
    split at cut
    · cases cut
    · next first after found =>
      have isFirst := head?_dropWhile_not (· != separator) s.toList
      rw [found] at isFirst together
      obtain rfl : first = separator := by simpa using isFirst
      cases cut
      rw [String.toList_ofList, String.toList_ofList, together]
      exact ⟨rfl, other.mp (all_eq_true.mp all_takeWhile)⟩
  · rintro ⟨put, absent⟩
    rw [put, dropWhile_append_of_pos (other.mpr absent), takeWhile_append_of_pos (other.mpr absent),
      dropWhile_cons_of_neg (by simp), takeWhile_cons_of_neg (by simp), append_nil]
    simp only [String.ofList_toList]

theorem cutAt?_eq_none_iff : cutAt? separator s = none ↔ separator ∉ s.toList := by
  rw [Option.eq_none_iff_forall_ne_some]
  constructor
  · intro uncut inside
    obtain ⟨front, rest, put, absent⟩ := eq_append_cons_of_mem inside
    refine uncut (String.ofList front, String.ofList rest) (cutAt?_eq_some_iff.mpr ?_)
    rw [String.toList_ofList, String.toList_ofList]
    exact ⟨put, absent⟩
  · intro absent parts cut
    have put := (cutAt?_eq_some_iff.mp cut).1
    exact absent (put ▸ mem_append_right _ mem_cons_self)

theorem dropStart?_eq_some_iff : dropStart? start s = some rest ↔ s = start ++ rest := by
  unfold dropStart?
  rw [Option.map_eq_some_iff]
  simp only [isPrefixOf?_eq_some_iff_append_eq]
  constructor
  · rintro ⟨others, same, rfl⟩
    rw [← String.toList_inj, String.toList_append, String.toList_ofList, same]
  · rintro rfl
    exact ⟨rest.toList, String.toList_append.symm, String.ofList_toList⟩

theorem isSome_dropStart?_iff : (dropStart? start s).isSome = true ↔ start.toList <+: s.toList := by
  rw [Option.isSome_iff_exists]
  simp only [dropStart?_eq_some_iff]
  constructor
  · rintro ⟨rest, rfl⟩
    exact ⟨rest.toList, String.toList_append.symm⟩
  · rintro ⟨rest, put⟩
    refine ⟨String.ofList rest, String.toList_inj.mp ?_⟩
    rw [String.toList_append, String.toList_ofList, put]

theorem dropEnd?_eq_some_iff :
    dropEnd? ending s = some front ↔ s.toList = front.toList ++ ending.toList := by
  unfold dropEnd?
  rw [Option.map_eq_some_iff]
  constructor
  · rintro ⟨chars, found, rfl⟩
    have put := congrArg List.reverse (isPrefixOf?_eq_some_iff_append_eq.mp found)
    rw [reverse_append, reverse_reverse, reverse_reverse] at put
    rw [String.toList_ofList, put]
  · intro put
    refine ⟨front.toList.reverse, isPrefixOf?_eq_some_iff_append_eq.mpr ?_, ?_⟩
    · rw [put, reverse_append]
    · rw [reverse_reverse, String.ofList_toList]

theorem holds_iff : holds part s = true ↔ part.toList <:+: s.toList := by
  unfold holds
  induction s.toList with
  | nil => simp [occursIn]
  | cons c rest ih =>
    rw [occursIn, Bool.or_eq_true, ih, isPrefixOf_iff_prefix, infix_cons_iff]

/-! ### Blanks -/

theorem trimChars_trimChars (cs : List Char) : trimChars (trimChars cs) = trimChars cs := by
  have first (cs : List Char) {c : Char} (found : (cs.dropWhile isBlank).head? = some c) :
      isBlank c = false := by
    have none := head?_dropWhile_not isBlank cs
    rwa [found] at none
  refine trimChars_eq_self (fun c isHead => ?_) (fun c isLast => ?_)
  · obtain ⟨others, same⟩ := head?_eq_some_iff.mp isHead
    have part : trimChars cs <+: cs.dropWhile isBlank := by
      have ends := dropWhile_suffix (l := (cs.dropWhile isBlank).reverse) isBlank
      exact reverse_suffix.mp (by rwa [trimChars, reverse_reverse])
    obtain ⟨rest, whole⟩ := part
    refine first cs ?_
    rw [← whole, same]
    rfl
  · rw [trimChars, Option.mem_def, getLast?_reverse] at isLast
    exact first _ isLast

@[simp]
theorem trim_trim (s : String) : trim (trim s) = trim s := by
  unfold trim
  rw [String.toList_ofList, trimChars_trimChars]

theorem mem_of_mem_trim (mem : c ∈ (trim s).toList) : c ∈ s.toList := by
  unfold trim trimChars at mem
  rw [String.toList_ofList, mem_reverse] at mem
  exact (dropWhile_sublist _).subset (mem_reverse.mp ((dropWhile_sublist _).subset mem))

/-- Without its blanks a text is the same whether it was trimmed before or not. -/
theorem compact_trim (s : String) : compact (trim s) = compact s := by
  have front (cs : List Char) :
      (cs.dropWhile isBlank).filter (!isBlank ·) = cs.filter (!isBlank ·) := by
    induction cs with
    | nil => rfl
    | cons c rest ih =>
      by_cases blank : isBlank c = true
      · rw [dropWhile_cons_of_pos blank, ih,
          filter_cons_of_neg (by simp [blank])]
      · rw [dropWhile_cons_of_neg blank]
  unfold compact trim trimChars
  rw [String.toList_ofList, filter_reverse, front, filter_reverse, reverse_reverse, front]

end ProgramAnalysis.Text
