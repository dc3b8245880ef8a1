import ProgramAnalysis.Text.Basic

/-!
Cutting text that was put together: at separators, at the ends of lines and at blanks. What was
joined from parts that do not have the separator in them is cut into the same parts.
-/

namespace ProgramAnalysis.Text

open List

variable {cut : Char → Bool}

theorem exists_pieces (cut : Char → Bool) (cs : List Char) :
    ∃ first others, pieces cut cs = first :: others :=
  exists_cons_of_ne_nil (pieces_ne_nil cut cs)

variable {cs : List Char}

theorem pieces_of_uncut (uncut : ∀ c ∈ cs, cut c = false) : pieces cut cs = [cs] := by
  induction cs with
  | nil => rfl
  | cons c rest ih =>
    have first : ¬ cut c = true := by
      rw [uncut c mem_cons_self]
      exact Bool.false_ne_true
    rw [pieces, if_neg first, ih fun d mem =>
      uncut d (mem_cons_of_mem c mem)]

theorem pieces_append_cons (isCut : cut c = true) (before after : List Char) :
    pieces cut (before ++ c :: after) = pieces cut before ++ pieces cut after := by
  induction before with
  | nil =>
    show pieces cut (c :: after) = [] :: pieces cut after
    rw [pieces, if_pos isCut]
  | cons d rest ih =>
    rw [cons_append, pieces, pieces, ih]
    split
    · rw [cons_append]
    · obtain ⟨first, others, found⟩ := exists_pieces cut rest
      rw [found]
      rfl

variable {separator : Char}

/-- Words with a separator between them are cut at it and at the separators inside. -/
theorem pieces_intercalate (isCut : cut separator = true) {words : List (List Char)}
    (some : words ≠ []) :
    pieces cut ([separator].intercalate words) = words.flatMap (pieces cut) := by
  induction words with
  | nil => exact absurd rfl some
  | cons word rest ih =>
    cases rest with
    | nil => rw [intercalate_singleton, flatMap_singleton]
    | cons second others =>
      rw [intercalate_cons_cons, append_assoc, singleton_append,
        pieces_append_cons isCut, ih (cons_ne_nil _ _)]
      rfl

/-- The last piece ends as the text does, unless it ends in a cut. -/
theorem getLast?_pieces (last : cs.getLast? = some c) (uncut : cut c = false) :
    ∃ piece, (pieces cut cs).getLast? = some piece ∧ piece.getLast? = some c := by
  induction cs with
  | nil => cases last
  | cons d rest ih =>
    cases rest with
    | nil =>
      cases last
      refine ⟨[d], ?_, rfl⟩
      rw [pieces_of_uncut (by simpa using uncut)]
      rfl
    | cons e others =>
      rw [getLast?_cons_cons] at last
      obtain ⟨piece, isLast, ends⟩ := ih last
      rw [pieces]
      split
      · refine ⟨piece, ?_, ends⟩
        rw [getLast?_cons_of_ne_nil (pieces_ne_nil cut _), isLast]
      · obtain ⟨first, more, found⟩ := exists_pieces cut (e :: others)
        rw [found] at isLast ⊢
        cases more with
        | nil =>
          obtain rfl : first = piece := Option.some.inj isLast
          refine ⟨d :: first, rfl, ?_⟩
          rw [getLast?_cons, ends, Option.getD_some]
        | cons second more => exact ⟨piece, isLast, ends⟩

theorem mem_pieces (mem : c ∈ cs) : cut c = true ∨ ∃ piece ∈ pieces cut cs, c ∈ piece := by
  induction cs with
  | nil => cases mem
  | cons d rest ih =>
    rw [pieces]
    split
    · next isCut =>
      rcases mem_cons.mp mem with rfl | later
      · exact .inl isCut
      · refine (ih later).imp_right ?_
        rintro ⟨piece, among, inPiece⟩
        exact ⟨piece, mem_cons_of_mem _ among, inPiece⟩
    · obtain ⟨first, others, found⟩ := exists_pieces cut rest
      rw [found] at ih ⊢
      rcases mem_cons.mp mem with rfl | later
      · exact .inr ⟨_, mem_cons_self, mem_cons_self⟩
      · refine (ih later).imp_right ?_
        rintro ⟨piece, among, inPiece⟩
        rcases mem_cons.mp among with rfl | among
        · exact ⟨_, mem_cons_self, mem_cons_of_mem d inPiece⟩
        · exact ⟨piece, mem_cons_of_mem _ among, inPiece⟩

theorem uncut_of_mem_pieces (among : piece ∈ pieces cut cs) (mem : c ∈ piece) : cut c = false := by
  induction cs generalizing piece with
  | nil =>
    rw [pieces, mem_singleton] at among
    rw [among] at mem
    cases mem
  | cons d rest ih =>
    rw [pieces] at among
    split at among
    · rcases mem_cons.mp among with rfl | among
      · cases mem
      · exact ih among mem
    · next uncut =>
      obtain ⟨first, others, found⟩ := exists_pieces cut rest
      rw [found] at among ih
      rcases mem_cons.mp among with rfl | among
      · rcases mem_cons.mp mem with rfl | later
        · exact Bool.eq_false_iff.mpr uncut
        · exact ih mem_cons_self later
      · exact ih (mem_cons_of_mem _ among) mem

/-! ### Beginnings -/

theorem dropStart?_hash (rest : List Char) :
    dropStart? "#" (String.ofList ('#' :: rest)) = some (String.ofList rest) := by
  show (['#'].isPrefixOf? (String.ofList ('#' :: rest)).toList).map String.ofList = _
  rw [String.toList_ofList]
  rfl

/-- What stands before a character is found again if that character is not in it. -/
theorem before_append (other : separator ∉ front) (rest : List Char) :
    before separator (String.ofList (front ++ separator :: rest)) = String.ofList front := by
  unfold before
  rw [String.toList_ofList, takeWhile_append_of_pos, takeWhile_cons_of_neg, append_nil]
  · rw [bne_self_eq_false]
    exact Bool.false_ne_true
  · intro c mem
    rw [bne_iff_ne]
    rintro rfl
    exact other mem

theorem mem_before (mem : c ∈ (before separator s).toList) : c ≠ separator ∧ c ∈ s.toList := by
  unfold before at mem
  rw [String.toList_ofList] at mem
  exact ⟨bne_iff_ne.mp (all_eq_true.mp all_takeWhile c mem), (List.takeWhile_prefix _).subset mem⟩

theorem isSome_isPrefixOf?_singleton (c : Char) (cs : List Char) :
    ([c].isPrefixOf? cs).isSome = (cs.head? == some c) := by
  cases cs with
  | nil => rfl
  | cons first rest =>
    show (if c == first then some rest else none).isSome = (some first == some c)
    by_cases same : first = c
    · simp [same]
    · simp [same, Ne.symm same]

theorem isSome_dropStart? {start : String} (single : start.toList = [c]) (s : String) :
    (dropStart? start s).isSome = (s.toList.head? == some c) := by
  unfold dropStart?
  rw [Option.isSome_map, single, isSome_isPrefixOf?_singleton]

/-! ### Lines -/

/-- Lines ended by line feeds are cut at these and at the line feeds inside. -/
theorem pieces_terminated (lines : List (List Char)) :
    pieces (· == '\n') (lines.flatMap (· ++ ['\n'])) =
      lines.flatMap (pieces (· == '\n')) ++ [[]] := by
  induction lines with
  | nil => rfl
  | cons line rest ih =>
    have ended := @pieces_append_cons (· == '\n') '\n' (beq_self_eq_true _) line
    rw [flatMap_cons, append_assoc, singleton_append, ended, ih, flatMap_cons, append_assoc]

theorem linesChars_flatMap (lines : List (List Char)) : linesChars (lines.flatMap (· ++ ['\n'])) =
      (lines.flatMap (pieces (· == '\n'))).map dropReturn := by
  unfold linesChars
  rw [pieces_terminated]
  dsimp only
  rw [dropLast_concat, getLast?_concat]

variable {lines : List (List Char)}

/-- The lines of a text in which every line was ended by a line feed. -/
theorem linesChars_terminated (unbroken : ∀ line ∈ lines, '\n' ∉ line) :
    linesChars (lines.flatMap (· ++ ['\n'])) = lines.map dropReturn := by
  have single : ∀ line ∈ lines, pieces (· == '\n') line = [line] := fun line mem =>
    pieces_of_uncut fun c inLine => beq_eq_false_iff_ne.mpr fun same =>
      unbroken line mem (same ▸ inLine)
  rw [linesChars_flatMap, flatMap_def, map_congr_left single, ← flatMap_def, flatMap_singleton']

theorem length_pieces (cs : List Char) : (pieces cut cs).length = cs.countP cut + 1 := by
  induction cs with
  | nil => rfl
  | cons c rest ih =>
    rw [pieces, countP_cons]
    split
    · rw [length_cons, ih]
    · obtain ⟨first, others, found⟩ := exists_pieces cut rest
      rw [found] at ih ⊢
      exact ih

/-- A text has as many lines as were put into it only if none of them has a line feed inside. -/
theorem unbroken_of_length
    (same : (linesChars (lines.flatMap (· ++ ['\n']))).length = lines.length) :
    ∀ line ∈ lines, '\n' ∉ line := by
  have counted (lines : List (List Char)) : (lines.flatMap (pieces (· == '\n'))).length =
      lines.length + lines.flatten.count '\n' := by
    induction lines with
    | nil => rfl
    | cons line rest ih =>
      rw [flatMap_cons, length_append, ih, length_pieces,
        flatten_cons, count_append, length_cons, List.count]
      omega
  rw [linesChars_flatMap, length_map, counted] at same
  have none : lines.flatten.count '\n' = 0 := by omega
  intro line mem inLine
  exact count_eq_zero.mp none (mem_flatten_of_mem mem inLine)

/-- A text that is one line when a line feed is put behind it. -/
def OneLine (s : String) : Prop := '\n' ∉ s.toList ∧ s.toList.getLast? ≠ some '\r'

variable {line : List Char}

theorem dropReturn_eq_self (other : ∀ c ∈ line, c ≠ '\r') : dropReturn line = line := by
  unfold dropReturn
  rw [if_neg]
  intro last
  exact other '\r' (mem_of_getLast? last) rfl

theorem dropReturn_eq_self_iff : dropReturn line = line ↔ line.getLast? ≠ some '\r' := by
  unfold dropReturn
  split
  · next last =>
    refine iff_of_false (fun same => ?_) (not_not_intro last)
    have some : line ≠ [] := by
      rintro rfl
      cases last
    have shorter := congrArg List.length same
    rw [length_dropLast] at shorter
    exact absurd shorter (Nat.ne_of_lt (Nat.sub_lt (length_pos_iff.mpr some) Nat.one_pos))
  · next other => exact iff_of_true rfl other

theorem exists_dropReturn_cons (c d : Char) (rest : List Char) :
    ∃ others, dropReturn (c :: d :: rest) = c :: others := by
  unfold dropReturn
  split
  · exact ⟨_, rfl⟩
  · exact ⟨_, rfl⟩

/-! ### Words -/

theorem wordsChars_intercalate {words : List (List Char)}
    (proper : ∀ word ∈ words, word ≠ [] ∧ ∀ c ∈ word, isBlank c = false) :
    wordsChars ([' '].intercalate words) = words := by
  unfold wordsChars
  by_cases none : words = []
  · rw [none]
    rfl
  · rw [pieces_intercalate (by decide) none, flatMap_def,
      map_congr_left fun word mem => pieces_of_uncut (proper word mem).2,
      ← flatMap_def, flatMap_singleton', filter_eq_self]
    intro word mem
    exact decide_eq_true (proper word mem).1

theorem wordsChars_cons (blank : isBlank c = true) (cs : List Char) :
    wordsChars (c :: cs) = wordsChars cs := by
  unfold wordsChars
  rw [pieces, if_pos blank, filter_cons_of_neg (by simp)]

theorem not_blank_of_mem_words (among : word ∈ words s) (mem : c ∈ word.toList) :
    isBlank c = false := by
  obtain ⟨piece, isWord, rfl⟩ := mem_map.mp among
  rw [String.toList_ofList] at mem
  exact uncut_of_mem_pieces (mem_filter.mp isWord).1 mem

theorem wordsChars_concat (blank : isBlank c = true) (cs : List Char) :
    wordsChars (cs ++ [c]) = wordsChars cs := by
  unfold wordsChars
  rw [pieces_append_cons blank, filter_append]
  exact append_nil _

section Intercalated

variable {words : List (List Char)} {c : Char}

theorem mem_of_mem_intercalate (mem : c ∈ [separator].intercalate words) :
    c = separator ∨ ∃ word ∈ words, c ∈ word := by
  induction words with
  | nil => cases mem
  | cons word rest ih =>
    cases rest with
    | nil =>
      rw [intercalate_singleton] at mem
      exact .inr ⟨word, mem_cons_self, mem⟩
    | cons second others =>
      rw [intercalate_cons_cons, append_assoc, mem_append, mem_append, mem_singleton] at mem
      rcases mem with inFirst | between | later
      · exact .inr ⟨word, mem_cons_self, inFirst⟩
      · exact .inl between
      · refine (ih later).imp_right ?_
        rintro ⟨other, among, inOther⟩
        exact ⟨other, mem_cons_of_mem _ among, inOther⟩

theorem intercalate_ne_nil (some : words ≠ []) (proper : ∀ word ∈ words, word ≠ []) :
    [' '].intercalate words ≠ [] := by
  intro none
  cases words with
  | nil => exact some rfl
  | cons word rest =>
    refine proper word mem_cons_self ?_
    cases rest with
    | nil => rwa [intercalate_singleton] at none
    | cons second others =>
      rw [intercalate_cons_cons, append_assoc] at none
      exact (append_eq_nil_iff.mp none).1

theorem mem_word_of_head? (proper : ∀ word ∈ words, word ≠ [])
    (first : ([' '].intercalate words).head? = some c) : ∃ word ∈ words, c ∈ word := by
  cases words with
  | nil => cases first
  | cons word rest =>
    refine ⟨word, mem_cons_self, ?_⟩
    obtain ⟨d, others, rfl⟩ := exists_cons_of_ne_nil (proper word mem_cons_self)
    cases rest with
    | nil =>
      cases first
      exact mem_cons_self
    | cons second others =>
      rw [intercalate_cons_cons] at first
      cases first
      exact mem_cons_self

theorem mem_word_of_getLast? (proper : ∀ word ∈ words, word ≠ [])
    (last : ([' '].intercalate words).getLast? = some c) : ∃ word ∈ words, c ∈ word := by
  induction words with
  | nil => cases last
  | cons word rest ih =>
    cases rest with
    | nil =>
      rw [intercalate_singleton] at last
      exact ⟨word, mem_cons_self, mem_of_getLast? last⟩
    | cons second others =>
      have proper := fun word mem => proper word (mem_cons_of_mem _ mem)
      have some := intercalate_ne_nil (cons_ne_nil second others) proper
      rw [intercalate_cons_cons, getLast?_append, getLast?_eq_some_getLast some,
        Option.some_or, ← getLast?_eq_some_getLast some] at last
      obtain ⟨word, mem, inWord⟩ := ih proper last
      exact ⟨word, mem_cons_of_mem _ mem, inWord⟩

end Intercalated

theorem trimChars_eq_self (first : ∀ c ∈ cs.head?, isBlank c = false)
    (last : ∀ c ∈ cs.getLast?, isBlank c = false) : trimChars cs = cs := by
  have keeps {cs : List Char} (first : ∀ c ∈ cs.head?, isBlank c = false) :
      cs.dropWhile isBlank = cs := by
    cases cs with
    | nil => rfl
    | cons c rest =>
      rw [dropWhile_cons_of_neg]
      exact Bool.eq_false_iff.mp (first c rfl)
  unfold trimChars
  rw [keeps first, keeps, reverse_reverse]
  rwa [head?_reverse]

theorem exists_trimChars_cons (proper : isBlank c = false) (rest : List Char) :
    ∃ others, trimChars (c :: rest) = c :: others := by
  unfold trimChars
  rw [dropWhile_cons_of_neg (Bool.eq_false_iff.mp proper), reverse_cons, dropWhile_append]
  split
  · refine ⟨[], ?_⟩
    rw [dropWhile_cons_of_neg (Bool.eq_false_iff.mp proper)]
    rfl
  · exact ⟨_, reverse_append⟩

end ProgramAnalysis.Text
