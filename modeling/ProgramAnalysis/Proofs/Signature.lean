import Mathlib.Data.List.Perm.Subperm
import ProgramAnalysis.Proofs.Numerals
import ProgramAnalysis.Proofs.Text.Joined

/-!
Which columns and orders make a signature. Lawful columns are domains with numbers, all different,
and the order arranges them between its separators (`Lawful`); the checks accept exactly these. A
signature that was read from a text is in a normal form, which is read back as it is written
(`Normal`).
-/

namespace ProgramAnalysis.Signature

open List Text

variable {columns accepted met names : List String} {order name : String} {signature : Signature}

/-! ### Columns -/

/-- A name that is a domain, which is not empty and does not end in a digit, and then a number. -/
def Numbered (name : String) : Prop :=
  ∃ domain number : List Char, name.toList = domain ++ number ∧
    (∃ last, domain.getLast? = some last ∧ last.isDigit = false) ∧
    number ≠ [] ∧ ∀ c ∈ number, c.isDigit = true

theorem majorChars_append (digits : ∀ c ∈ number, c.isDigit = true) (domain : List Char) :
    majorChars (domain ++ number) = majorChars domain := by
  unfold majorChars
  rw [reverse_append, dropWhile_append_of_pos fun c mem =>
    digits c (mem_reverse.mp mem)]

theorem majorChars_eq_self {domain : List Char} (ends : domain.getLast? = some last)
    (noDigit : last.isDigit = false) : majorChars domain = domain := by
  obtain ⟨front, rfl⟩ := getLast?_eq_some_iff.mp ends
  unfold majorChars
  rw [reverse_append, reverse_singleton, singleton_append,
    dropWhile_cons_of_neg (Bool.eq_false_iff.mp noDigit), reverse_cons,
    reverse_reverse]

/-- The digits that a name ends in. -/
theorem exists_number (cs : List Char) :
    ∃ number, cs = majorChars cs ++ number ∧ ∀ c ∈ number, c.isDigit = true := by
  refine ⟨(cs.reverse.takeWhile Char.isDigit).reverse, ?_, fun c mem => ?_⟩
  · unfold majorChars
    rw [← reverse_append, takeWhile_append_dropWhile, reverse_reverse]
  · exact all_eq_true.mp all_takeWhile c (mem_reverse.mp mem)

theorem not_isDigit_of_majorChars (ends : (majorChars cs).getLast? = some last) :
    last.isDigit = false := by
  rw [majorChars, getLast?_reverse] at ends
  have first := head?_dropWhile_not Char.isDigit cs.reverse
  rwa [ends] at first

theorem isColumn_iff : isColumn name = true ↔ Numbered name := by
  rw [isColumn, Bool.and_eq_true, decide_eq_true_iff, decide_eq_true_iff, major, ne_eq, ne_eq,
    ← String.toList_inj, ← String.toList_inj, String.toList_ofList]
  constructor
  · rintro ⟨some, shorter⟩
    obtain ⟨number, whole, digits⟩ := exists_number name.toList
    refine ⟨_, number, whole, ?_, ?_, digits⟩
    · have ends := getLast?_eq_some_getLast some
      exact ⟨_, ends, not_isDigit_of_majorChars ends⟩
    · rintro rfl
      rw [append_nil] at whole
      exact shorter whole.symm
  · rintro ⟨domain, number, whole, ⟨last, ends, noDigit⟩, some, digits⟩
    rw [whole, majorChars_append digits, majorChars_eq_self ends noDigit]
    refine ⟨fun none => ?_, fun same => some (self_eq_append_right.mp same)⟩
    rw [show domain = [] from none] at ends
    cases ends

theorem Numbered.ne_empty (numbered : Numbered name) : name ≠ "" := by
  rintro rfl
  obtain ⟨domain, number, whole, _, some, _⟩ := numbered
  exact some (append_eq_nil_iff.mp whole.symm).2

/-- What both checks go through a list for: names that are new where they stand. -/
theorem nodup_apart_cons (fresh : name ∉ met) :
    ((name :: names).Nodup ∧ ∀ each ∈ name :: names, each ∉ met) ↔
      names.Nodup ∧ ∀ each ∈ names, each ∉ met ++ [name] := by
  simp only [nodup_cons, forall_mem_cons, mem_append, mem_singleton, not_or]
  constructor
  · rintro ⟨⟨absent, distinct⟩, _, apart⟩
    exact ⟨distinct, fun each mem => ⟨apart each mem, fun same => absent (same ▸ mem)⟩⟩
  · rintro ⟨distinct, apart⟩
    exact ⟨⟨fun again => (apart name again).2 rfl, distinct⟩, fresh,
      fun each mem => (apart each mem).1⟩

theorem checkColumns_eq_ok_iff : checkColumns accepted columns = .ok () ↔
    (∀ column ∈ columns, Numbered column) ∧ columns.Nodup ∧
      ∀ column ∈ columns, column ∉ accepted := by
  induction columns generalizing accepted with
  | nil => simp [checkColumns]
  | cons first rest ih =>
    rw [checkColumns]
    split
    · next improper =>
      refine iff_of_false (by intro passed; cases passed) fun accepted => ?_
      have numbered := isColumn_iff.mpr (accepted.1 first mem_cons_self)
      rw [numbered] at improper
      cases improper
    · next proper =>
      have numbered : Numbered first := isColumn_iff.mp (by simpa using proper)
      split
      · next repeated =>
        exact iff_of_false (by intro passed; cases passed) fun accepted =>
          accepted.2.2 first mem_cons_self repeated
      · next fresh =>
        rw [ih, forall_mem_cons, and_iff_right numbered, nodup_apart_cons fresh]

/-! ### Orders -/

theorem checkOrder_eq_ok_iff : checkOrder columns order met names = .ok () ↔
    (∀ name ∈ names, name ∈ columns) ∧ (names.Nodup ∧ ∀ name ∈ names, name ∉ met) ∧
      met.length + names.length = columns.length := by
  induction names generalizing met with
  | nil =>
    rw [checkOrder]
    split
    · next counted => simp [counted]
    · next miscounted => simp [miscounted]
  | cons first rest ih =>
    rw [checkOrder]
    split
    · next unknown =>
      exact iff_of_false (by intro passed; cases passed) fun checked =>
        unknown (checked.1 first mem_cons_self)
    · next known =>
      split
      · next again =>
        exact iff_of_false (by intro passed; cases passed) fun checked =>
          checked.2.1.2 first mem_cons_self again
      · next fresh =>
        rw [ih, forall_mem_cons, and_iff_right (Decidable.not_not.mp known),
          nodup_apart_cons fresh, length_append, length_singleton, length_cons,
          Nat.add_assoc, Nat.add_comm 1]

/-- What stands between the separators of an order, where there is anything. -/
def namesBetween (order : String) : List String :=
  ((order.toList.splitOnP fun c => c == '_' || c == 'x').filter (· ≠ [])).map String.ofList

theorem orderNames_eq (order : String) : orderNames order = namesBetween order := by
  rw [orderNames, namesBetween, pieces_eq_splitOnP]

/-- Columns and an order that make a signature. -/
structure Lawful (columns : List String) (order : String) : Prop where
  numbered : ∀ column ∈ columns, Numbered column
  distinct : columns.Nodup
  arranged : (namesBetween order).Perm columns

theorem make_eq_ok_iff :
    make columns order = .ok signature ↔ signature = ⟨columns, order⟩ ∧ Lawful columns order := by
  have checks : make columns order = .ok signature ↔ checkColumns [] columns = .ok () ∧
      checkOrder columns order [] (orderNames order) = .ok () ∧ signature = ⟨columns, order⟩ := by
    constructor
    · intro made
      obtain ⟨_, inColumns, rest⟩ := except_bind_eq_ok.mp made
      obtain ⟨_, inOrder, same⟩ := except_bind_eq_ok.mp rest
      exact ⟨inColumns, inOrder, (Except.ok.inj same).symm⟩
    · rintro ⟨inColumns, inOrder, rfl⟩
      exact except_bind_eq_ok.mpr ⟨_, inColumns, except_bind_eq_ok.mpr ⟨_, inOrder, rfl⟩⟩
  rw [checks, checkColumns_eq_ok_iff, checkOrder_eq_ok_iff, orderNames_eq]
  constructor
  · rintro ⟨⟨numbered, distinct, _⟩, ⟨among, ⟨once, _⟩, counted⟩, rfl⟩
    -- as many different names as there are columns, all of them columns
    refine ⟨rfl, numbered, distinct, (subperm_of_subset once among).perm_of_length_le ?_⟩
    rw [length_nil, Nat.zero_add] at counted
    exact Nat.le_of_eq counted.symm
  · rintro ⟨rfl, numbered, distinct, arranged⟩
    refine ⟨⟨numbered, distinct, fun _ _ => not_mem_nil⟩, ⟨fun name mem => ?_,
      ⟨?_, fun _ _ => not_mem_nil⟩, ?_⟩, rfl⟩
    · exact arranged.subset mem
    · exact arranged.nodup_iff.mpr distinct
    · rw [length_nil, Nat.zero_add, arranged.length_eq]

theorem make_eq_ok (made : make columns order = .ok signature) :
    signature = ⟨columns, order⟩ ∧ Lawful columns order := make_eq_ok_iff.mp made

theorem no_separator_of_mem (mem : name ∈ namesBetween order) :
    '_' ∉ name.toList ∧ 'x' ∉ name.toList := by
  rw [← orderNames_eq] at mem
  obtain ⟨piece, kept, rfl⟩ := mem_map.mp mem
  have isPiece := (mem_filter.mp kept).1
  rw [String.toList_ofList]
  constructor
  · intro inside
    cases uncut_of_mem_pieces isPiece inside
  · intro inside
    cases uncut_of_mem_pieces isPiece inside

theorem Lawful.no_separator (lawful : Lawful columns order) (mem : column ∈ columns) :
    '_' ∉ column.toList ∧ 'x' ∉ column.toList :=
  no_separator_of_mem (lawful.arranged.symm.subset mem)

/-- Columns without separators are the names of the order that lists them. -/
theorem namesBetween_intercalate
    (plain : ∀ column ∈ columns, column ≠ "" ∧ '_' ∉ column.toList ∧ 'x' ∉ column.toList) :
    namesBetween ("_".intercalate columns) = columns := by
  rw [← orderNames_eq]
  by_cases none : columns = []
  · subst none
    rfl
  · unfold orderNames
    rw [String.toList_intercalate, show "_".toList = ['_'] from rfl,
      pieces_intercalate_of_uncut rfl (by simpa using none), filter_eq_self.mpr,
      ofList_map_toList]
    · intro chars mem
      obtain ⟨column, among, rfl⟩ := mem_map.mp mem
      exact decide_eq_true fun empty => (plain column among).1 (String.toList_inj.mp empty)
    · intro chars mem c inside
      obtain ⟨column, among, rfl⟩ := mem_map.mp mem
      rw [Bool.or_eq_false_iff, beq_eq_false_iff_ne, beq_eq_false_iff_ne]
      exact ⟨fun same => (plain column among).2.1 (same ▸ inside),
        fun same => (plain column among).2.2 (same ▸ inside)⟩

theorem lawful_intercalate_iff : Lawful columns ("_".intercalate columns) ↔
    (∀ column ∈ columns, Numbered column ∧ '_' ∉ column.toList ∧ 'x' ∉ column.toList) ∧
      columns.Nodup := by
  constructor
  · intro lawful
    exact ⟨fun column mem => ⟨lawful.numbered column mem, lawful.no_separator mem⟩, lawful.distinct⟩
  · rintro ⟨each, distinct⟩
    refine ⟨fun column mem => (each column mem).1, distinct, .of_eq ?_⟩
    exact namesBetween_intercalate fun column mem =>
      ⟨(each column mem).1.ne_empty, (each column mem).2⟩

/-- Columns and an order make a signature, which consists of them, exactly if every column is a
domain followed by a number, no two columns are the same, and what stands between the separators of
the order is an arrangement of the columns. So no column of a signature has a separator inside, and
the order that lists the columns makes a signature exactly if they are numbered, different and have
none. -/
theorem signature_iff_lawful (columns : List String) (order : String) :
    (∀ signature, make columns order = .ok signature ↔
      signature = ⟨columns, order⟩ ∧ Lawful columns order) ∧
    ((∃ signature, make columns order = .ok signature) →
      ∀ column ∈ columns, '_' ∉ column.toList ∧ 'x' ∉ column.toList) ∧
    ((∃ signature, sequential columns = .ok signature) ↔
      (∀ column ∈ columns, Numbered column ∧ '_' ∉ column.toList ∧ 'x' ∉ column.toList) ∧
        columns.Nodup) := by
  refine ⟨fun signature => make_eq_ok_iff, ?_, ?_⟩
  · rintro ⟨signature, made⟩ column member
    exact (make_eq_ok made).2.no_separator member
  · rw [← lawful_intercalate_iff]
    constructor
    · rintro ⟨signature, made⟩
      exact (make_eq_ok made).2
    · intro lawful
      exact ⟨_, make_eq_ok_iff.mpr ⟨rfl, lawful⟩⟩

/-- An order with separators at its ends and several in a row. -/
theorem signature_iff_lawful_dangling :
    make ["C0", "I12"] "_I12xx_C0x" = .ok ⟨["C0", "I12"], "_I12xx_C0x"⟩ ∧
      Lawful ["C0", "I12"] "_I12xx_C0x" := by
  have made : make ["C0", "I12"] "_I12xx_C0x" = .ok ⟨["C0", "I12"], "_I12xx_C0x"⟩ := by rfl
  exact ⟨made, (((signature_iff_lawful ["C0", "I12"] "_I12xx_C0x").1 _).mp made).2⟩

/-! ### The written form -/

/-- What reading leaves of a text: columns without the characters it is cut at, and no blanks around
the columns and the order. -/
structure Normal (signature : Signature) : Prop where
  lawful : Lawful signature.columns signature.order
  some : signature.columns ≠ []
  uncut : ∀ column ∈ signature.columns, ',' ∉ column.toList ∧ ':' ∉ column.toList
  trimmed : ∀ column ∈ signature.columns, Text.trim column = column
  orderTrimmed : Text.trim signature.order = signature.order

theorem normal_of_parse (parsed : parse text = .ok signature) : signature.Normal := by
  unfold parse at parsed
  split at parsed
  · cases parsed
  · next columns order cut =>
    obtain ⟨rfl, lawful⟩ := make_eq_ok parsed
    obtain ⟨_, noColon⟩ := cutAt?_eq_some_iff.mp cut
    refine ⟨lawful, ?_, fun column mem => ?_, fun column mem => ?_, trim_trim order⟩
    · simpa using splitAt_ne_nil ',' columns
    · obtain ⟨piece, among, rfl⟩ := mem_map.mp mem
      constructor
      · intro comma
        exact not_mem_of_mem_splitAt among (mem_of_mem_trim comma)
      · intro colon
        exact noColon (mem_of_mem_splitAt among (mem_of_mem_trim colon))
    · obtain ⟨piece, _, rfl⟩ := mem_map.mp mem
      exact trim_trim piece

/-- The written form is cut where it was put together. -/
theorem Normal.parse_render (normal : signature.Normal) :
    parse signature.render = .ok signature := by
  have cut : Text.cutAt? ':' signature.render =
      .some (",".intercalate signature.columns, signature.order) := by
    rw [cutAt?_eq_some_iff, render, String.toList_append, String.toList_append, append_assoc]
    exact ⟨rfl, not_mem_intercalate rfl (by decide) fun column mem =>
      (normal.uncut column mem).2⟩
  unfold parse
  rw [cut]
  dsimp only
  rw [splitAt_intercalate rfl normal.some fun column mem => (normal.uncut column mem).1,
    map_congr_left normal.trimmed, map_id', normal.orderTrimmed]
  exact make_eq_ok_iff.mpr ⟨rfl, normal.lawful⟩

/-- A signature that was read is read again from its written form, whatever blanks and separators
the text had that it was read from. So two signatures that were read are the same exactly if their
written forms are. -/
theorem written_form_normal {signature : Signature} {text : String}
    (parsed : parse text = .ok signature) :
    parse signature.render = .ok signature ∧
      ∀ other text', parse text' = .ok other →
        (signature.render = other.render ↔ signature = other) := by
  have again := (normal_of_parse parsed).parse_render
  refine ⟨again, fun other text' parsed' => ⟨fun same => ?_, congrArg render⟩⟩
  have otherAgain := (normal_of_parse parsed').parse_render
  rw [← same, again] at otherAgain
  exact Except.ok.inj otherAgain

/-- Blanks around the columns and the order, and separators at its ends and in a row. -/
theorem written_form_normal_blanks :
    parse " A 0 ,\tC0: __C0xxA 0_\n" = .ok ⟨["A 0", "C0"], "__C0xxA 0_"⟩ ∧
      parse "A 0,C0:__C0xxA 0_" = .ok ⟨["A 0", "C0"], "__C0xxA 0_"⟩ := by
  have parsed : parse " A 0 ,\tC0: __C0xxA 0_\n" = .ok ⟨["A 0", "C0"], "__C0xxA 0_"⟩ := by
    decide +kernel
  exact ⟨parsed, (written_form_normal parsed).1⟩

end ProgramAnalysis.Signature
