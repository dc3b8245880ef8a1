import Mathlib.Data.List.Forall2
import ProgramAnalysis.Proofs.Datalog.Declarations

/-!
What a header keeps of the program it was read from. Which lines declare something, and what, is
said line by line without the reader (`Declares`); the header has one relation for each of them,
with the columns as they were written (`Keeps`) and an order restricted to these columns.
-/

namespace ProgramAnalysis.Datalog

open List Text

open Signature (namesBetween)

variable {file line : String} {lines columns : List String}

/-! ### Restricted orders -/

/-- Two names stand in one group of an order, with no underscore between them. -/
def Together (order first second : String) : Prop :=
  ∃ group ∈ orderGroups order, first ∈ group ∧ second ∈ group

theorem namesBetween_eq (order : String) :
    namesBetween order = (orderGroups order).flatten.filter (· ≠ "") := by
  have cut (chars : List Char) : Text.splitAt 'x' (String.ofList chars) =
      (Text.pieces (· == 'x') chars).map String.ofList := by
    rw [Text.splitAt, String.toList_ofList]
  have groups : (orderGroups order).flatten = ((Text.pieces (· == '_') order.toList).flatMap
        (Text.pieces (· == 'x'))).map String.ofList := by
    rw [orderGroups, Text.splitAt, map_map, ← flatMap_def, map_flatMap]
    exact List.flatMap_congr fun chars _ => cut chars
  rw [← Signature.orderNames_eq, Signature.orderNames, Text.pieces_or, groups, List.filter_map]
  refine congrArg (List.map _) (filter_congr fun chars _ => ?_)
  rw [Function.comp_apply, decide_eq_decide, ne_eq, ne_eq, not_iff_not, ← String.toList_inj,
    String.toList_ofList]
  rfl

variable {group : List String}

theorem plain_of_mem_orderGroups {order : String} (among : group ∈ orderGroups order)
    (mem : name ∈ group) : '_' ∉ name.toList ∧ 'x' ∉ name.toList := by
  obtain ⟨piece, isPiece, rfl⟩ := mem_map.mp among
  refine ⟨fun inside => ?_, not_mem_of_mem_splitAt mem⟩
  exact not_mem_of_mem_splitAt isPiece (mem_of_mem_splitAt mem inside)

variable {groups : List (List String)}

/-- Groups of names without separators are found again in the order they are written as. -/
theorem orderGroups_join (some : groups ≠ []) (nonempty : ∀ group ∈ groups, group ≠ [])
    (plain : ∀ group ∈ groups, ∀ name ∈ group, '_' ∉ name.toList ∧ 'x' ∉ name.toList) :
    orderGroups ("_".intercalate (groups.map fun group => "x".intercalate group)) = groups := by
  have apart : ∀ text ∈ groups.map fun group => "x".intercalate group, '_' ∉ text.toList := by
    intro text mem
    obtain ⟨group, among, rfl⟩ := mem_map.mp mem
    exact not_mem_intercalate rfl (by decide) fun name inside =>
      (plain group among name inside).1
  rw [orderGroups, splitAt_intercalate rfl (by simpa using some) apart, map_map]
  refine (map_congr_left fun group among => ?_).trans (map_id _)
  exact splitAt_intercalate rfl (nonempty group among) fun name inside =>
    (plain group among name inside).2

theorem flatten_restrictGroups (groups : List (List String)) :
    (restrictGroups columns groups).flatten = groups.flatten.filter (· ∈ columns) := by
  rw [restrictGroups, flatten_filter_ne_nil, filter_flatten]

theorem mem_restrictGroups : group ∈ restrictGroups columns groups ↔
      group ≠ [] ∧ ∃ whole ∈ groups, whole.filter (· ∈ columns) = group := by
  rw [restrictGroups, mem_filter, decide_eq_true_iff, mem_map, and_comm]

/-- An order that was restricted to some columns names those of them that the whole order names, in
the same sequence and grouped in the same way. -/
theorem restrictOrder?_eq_some {order : String} (proper : ∀ column ∈ columns, column ≠ "")
    (restricted : restrictOrder? whole columns = some order) :
    namesBetween order = (namesBetween whole).filter (· ∈ columns) ∧
      ∀ first ∈ columns, ∀ second ∈ columns,
        (Together order first second ↔ Together whole first second) := by
  have named : (namesBetween whole).filter (· ∈ columns) =
      (restrictGroups columns (orderGroups whole)).flatten := by
    rw [namesBetween_eq, filter_filter, flatten_restrictGroups]
    refine filter_congr fun name _ => ?_
    rw [Bool.and_eq_left_iff_imp, decide_eq_true_iff, decide_eq_true_iff]
    exact proper name
  unfold restrictOrder? at restricted
  dsimp only at restricted
  split at restricted
  · next covered =>
    obtain rfl := Option.some.inj restricted
    rw [named]
    by_cases none : restrictGroups columns (orderGroups whole) = []
    · rw [none] at covered ⊢
      obtain rfl := length_eq_zero_iff.mp covered.symm
      exact ⟨rfl, fun _ mem => absurd mem not_mem_nil⟩
    · have again := orderGroups_join none (fun group among => (mem_restrictGroups.mp among).1)
        fun group among name mem => by
          obtain ⟨_, whole, isGroup, rfl⟩ := mem_restrictGroups.mp among
          exact plain_of_mem_orderGroups isGroup (mem_filter.mp mem).1
      constructor
      · rw [namesBetween_eq, again, filter_eq_self]
        intro name mem
        rw [flatten_restrictGroups, mem_filter, decide_eq_true_iff] at mem
        exact decide_eq_true (proper name mem.2)
      · intro first isFirst second isSecond
        unfold Together
        rw [again]
        constructor
        · rintro ⟨_, among, inFirst, inSecond⟩
          obtain ⟨_, group, isGroup, rfl⟩ := mem_restrictGroups.mp among
          exact ⟨group, isGroup, (mem_filter.mp inFirst).1, (mem_filter.mp inSecond).1⟩
        · rintro ⟨group, isGroup, inFirst, inSecond⟩
          have kept {name : String} (inside : name ∈ group) (wanted : name ∈ columns) :
              name ∈ group.filter (· ∈ columns) :=
            mem_filter.mpr ⟨inside, decide_eq_true wanted⟩
          exact ⟨_, mem_restrictGroups.mpr ⟨ne_nil_of_mem (kept inFirst isFirst), group,
            isGroup, rfl⟩, kept inFirst isFirst, kept inSecond isSecond⟩
  · cases restricted

variable {order : Option String} {declared : Declaration} {sig : Signature}

theorem signatureOf_eq_ok (made : signatureOf order declared = .ok sig) :
    sig.columns = declared.columns ∧ Signature.Lawful sig.columns sig.order ∧
      (order = none → sig.order = "_".intercalate sig.columns) ∧
      ∀ whole, order = some whole →
        restrictOrder? whole sig.columns = some sig.order := by
  obtain ⟨restricted, found, made⟩ := except_bind_eq_ok.mp made
  obtain ⟨rfl, lawful⟩ := Signature.make_eq_ok (mapError_eq_ok.mp made)
  refine ⟨rfl, lawful, ?_, ?_⟩
  · rintro rfl
    exact (Except.ok.inj found).symm
  · rintro whole rfl
    unfold orderFor at found
    dsimp only at found
    split at found
    · next restricted isRestricted =>
      cases found
      exact isRestricted
    · cases found

/-! ### Lines -/

/-- A line that is no comment, no directive and no rule. -/
def Plain (line : String) : Prop :=
  ¬ "#".toList <+: (Text.trim line).toList ∧ ¬ ".".toList <+: (Text.trim line).toList ∧
    ¬ ":-".toList <:+: (Text.trim line).toList

/-- A line that declares a relation of a direction: it ends in the word for the direction and has a
parenthesis before it, blanks apart. -/
def Declares (output : Bool) (line : String) : Prop :=
  Plain line ∧ (lastWord output).toList <:+ (Text.compact line).toList ∧
    '(' ∈ (Text.compact line).toList

instance (output : Bool) (line : String) : Decidable (Declares output line) := by
  unfold Declares Plain
  infer_instance

/-- The variable order that a line gives. -/
def orderOf? (line : String) : Option String :=
  (Text.dropStart? ".bddvarorder" (Text.trim line)).map Text.trim

theorem directed_of_readDeclaration (read : readDeclaration line = .ok result) (output : Bool) :
    ((lastWord output).toList <:+ (Text.compact line).toList ∧ '(' ∈ (Text.compact line).toList) ↔
      ∃ declared, result = some declared ∧ declared.output = output := by
  constructor
  · rintro ⟨⟨head, put⟩, opened⟩
    have directed : direction? (Text.compact line) = some (output, String.ofList head) := by
      rw [direction?_eq_some_iff, String.toList_ofList, put]
    have within : '(' ∈ head := by
      rw [← put, mem_append] at opened
      exact opened.resolve_right (by cases output <;> decide)
    unfold readDeclaration at read
    rw [directed] at read
    dsimp only at read
    split at read
    · next uncut =>
      rw [cutAt?_eq_none_iff, String.toList_ofList] at uncut
      exact absurd within uncut
    · split at read
      · cases read
      · split at read
        · cases read
        · obtain ⟨_, _, same⟩ := except_bind_eq_ok.mp read
          cases same
          exact ⟨_, rfl, rfl⟩
  · rintro ⟨declared, rfl, rfl⟩
    obtain ⟨written, spelled, _⟩ := spells_of_readDeclaration read
    rw [spelled.text, String.toList_append]
    refine ⟨suffix_append _ _, mem_append_left _ ?_⟩
    simp [String.toList_append]

/-- What a line contributes: its variable order, and its declaration if it declares a relation. -/
structure Found (line : String) (entry : Entry) : Prop where
  order : entry.order? = orderOf? line
  declares : ∀ output, Declares output line ↔
    ∃ declared, entry.declared? = some declared ∧ declared.output = output
  read : ∀ declared, entry.declared? = some declared →
    readDeclaration (Text.trim line) = .ok (some declared)

variable {entry : Entry}

theorem found_of_silent (order : entry.order? = orderOf? line) (silent : entry.declared? = none)
    (other : ∀ output, ¬ Declares output line) :
    Found line entry := by
  refine ⟨order, fun output => iff_of_false (other output) ?_, fun declared found => ?_⟩
  · rintro ⟨declared, found, _⟩
    rw [silent] at found
    cases found
  · rw [silent] at found
    cases found

/-- A comment gives no order and declares nothing. -/
theorem found_of_comment (isComment : "#".toList <+: (Text.trim line).toList)
    (order : entry.order? = none) (silent : entry.declared? = none) : Found line entry := by
  have noOrder : orderOf? line = none := by
    rw [orderOf?, Option.map_eq_none_iff, ← Option.not_isSome_iff_eq_none, isSome_dropStart?_iff]
    intro directive
    have both := prefix_or_prefix_of_prefix isComment directive
    revert both
    decide
  exact found_of_silent (order.trans noOrder.symm) silent
    fun _ declares => declares.1.1 isComment

/-- A plain line declares what is read from it, if anything is. -/
theorem found_of_plain (plain : Plain line) (order : entry.order? = orderOf? line)
    (read : readDeclaration (Text.trim line) = .ok entry.declared?) : Found line entry := by
  have directed := directed_of_readDeclaration read
  rw [compact_trim] at directed
  refine ⟨order, fun output => (and_iff_right plain).trans (directed output), ?_⟩
  intro declared same
  rw [read, same]

theorem found_of_readLine (read : readLine line = .ok entry) : Found line entry := by
  unfold readLine at read
  dsimp only at read
  split at read
  · next comment starts =>
    have isComment : "#".toList <+: (Text.trim line).toList :=
      isSome_dropStart?_iff.mp (by rw [starts]; rfl)
    split at read
    · cases read
      exact found_of_comment isComment rfl rfl
    · cases read
      exact found_of_comment isComment rfl rfl
  · next noComment =>
    split at read
    · next order directive =>
      cases read
      refine found_of_silent ?_ rfl fun output declares => declares.1.2.1 ?_
      · rw [orderOf?, directive]
        rfl
      · exact (by decide : ".".toList <+: ".bddvarorder".toList).trans
          (isSome_dropStart?_iff.mp (by rw [directive]; rfl))
    · next noDirective =>
      have noOrder : none = orderOf? line := by
        rw [orderOf?, noDirective]
        rfl
      split at read
      · next barred =>
        cases read
        refine found_of_silent noOrder rfl fun output declares => ?_
        rw [Bool.or_eq_true, Bool.or_eq_true, decide_eq_true_iff, isSome_dropStart?_iff,
          holds_iff] at barred
        rcases barred with (empty | directive) | rule
        · have opened := declares.2.2
          rw [← compact_trim, empty] at opened
          cases opened
        · exact declares.1.2.1 directive
        · exact declares.1.2.2 rule
      · next unbarred =>
        rw [Bool.or_eq_true, Bool.or_eq_true, isSome_dropStart?_iff, holds_iff, not_or,
          not_or] at unbarred
        have plain : Plain line := by
          refine ⟨fun isComment => ?_, unbarred.1.2, unbarred.2⟩
          rw [← isSome_dropStart?_iff, noComment] at isComment
          cases isComment
        -- All that keeps a line from being plain was tried before, so it is read as a declaration.
        obtain ⟨result, isRead, same⟩ := except_bind_eq_ok.mp read
        cases result with
        | none | some =>
          cases same
          exact found_of_plain plain noOrder isRead

/-! ### Headers -/

/-- What a relation of a header keeps of the line that declares it, under the variable order of the
program. -/
structure Keeps (order : Option String) (line : String) (relation : Bool × String × Signature) :
    Prop where
  declared : Declares relation.1 line
  /-- The name is the written one, and the columns are those that are written, numbered. -/
  spelled : ∃ written, Spells line relation.2.1 written relation.1 ∧
    Numbers (written.map (·.domain)) relation.2.2.columns
  lawful : Signature.Lawful relation.2.2.columns relation.2.2.order
  sequential : order = none → relation.2.2.order = "_".intercalate relation.2.2.columns
  names : ∀ whole, order = some whole → namesBetween relation.2.2.order =
    (namesBetween whole).filter (· ∈ relation.2.2.columns)
  together : ∀ whole, order = some whole →
    ∀ first ∈ relation.2.2.columns, ∀ second ∈ relation.2.2.columns,
      (Together relation.2.2.order first second ↔ Together whole first second)

theorem keeps_of_found (found : Found line entry) (isDeclared : entry.declared? = some declared)
    (made : signatureOf order declared = .ok sig) :
    Keeps order line (declared.output, declared.name, sig) := by
  obtain ⟨same, lawful, sequential, restricted⟩ := signatureOf_eq_ok made
  have proper : ∀ column ∈ sig.columns, column ≠ "" := fun column mem =>
    (lawful.numbered column mem).ne_empty
  obtain ⟨written, spelled, read⟩ := spells_of_readDeclaration (found.read declared isDeclared)
  refine ⟨(found.declares _).mpr ⟨declared, isDeclared, rfl⟩, ⟨written, ?_, ?_⟩, lawful, sequential,
    fun whole isWhole => (restrictOrder?_eq_some proper (restricted whole isWhole)).1,
    fun whole isWhole => (restrictOrder?_eq_some proper (restricted whole isWhole)).2⟩
  · exact ⟨compact_trim line ▸ spelled.text, spelled.named, spelled.some, spelled.wellFormed⟩
  · show Numbers _ sig.columns
    rw [same]
    exact numbers_of_readColumns spelled.wellFormed read

/-- A line declares a relation of one direction only. -/
theorem Declares.eq {output other : Bool} (declares : Declares output line)
    (again : Declares other line) : output = other := by
  obtain ⟨_, ⟨front, put⟩, _⟩ := declares
  obtain ⟨_, ⟨back, same⟩, _⟩ := again
  have directed : direction? (Text.compact line) = some (output, String.ofList front) :=
    direction?_eq_some_iff.mpr (by rw [String.toList_ofList, put])
  have redirected : direction? (Text.compact line) = some (other, String.ofList back) :=
    direction?_eq_some_iff.mpr (by rw [String.toList_ofList, same])
  exact congrArg Prod.fst (Option.some.inj (directed.symm.trans redirected))

variable {entries : List (Nat × Entry)}

theorem forall₂_found (read : readLines file number lines = .ok entries) :
    List.Forall₂ (fun line entry => Found line entry.2) lines entries := by
  induction lines generalizing number entries with
  | nil =>
    cases read
    exact .nil
  | cons line rest ih =>
    rw [readLines] at read
    split at read
    · cases read
    · next entry isRead =>
      obtain ⟨others, remaining, same⟩ := except_bind_eq_ok.mp read
      cases same
      exact .cons (found_of_readLine isRead) (ih remaining)

theorem orders_of_found
    (found : List.Forall₂ (fun line entry => Found line entry.2) lines entries) :
    entries.filterMap (fun entry => entry.2.order?) = lines.filterMap orderOf? := by
  induction found with
  | nil => rfl
  | cons first _ ih =>
    rw [filterMap_cons, filterMap_cons, first.order, ih]

/-- A relation as a declaration gives it under a variable order. -/
def Signed (order : Option String) (declared : Nat × Declaration)
    (relation : Bool × String × Signature) : Prop :=
  relation.1 = declared.2.output ∧ relation.2.1 = declared.2.name ∧
    signatureOf order declared.2 = .ok relation.2.2

variable {relations : List (Bool × String × Signature)}

theorem forall₂_signed {declared : List (Nat × Declaration)}
    (made : signatures file order declared = .ok relations) :
    List.Forall₂ (Signed order) declared relations := by
  induction declared generalizing relations with
  | nil =>
    cases made
    exact .nil
  | cons first rest ih =>
    rw [signatures] at made
    split at made
    · cases made
    · next sig isMade =>
      obtain ⟨others, remaining, same⟩ := except_bind_eq_ok.mp made
      cases same
      exact .cons ⟨rfl, rfl, isMade⟩ (ih remaining)

/-- Every line that declares a relation is kept, in order, and no other line is. -/
theorem forall₂_keeps (found : List.Forall₂ (fun line entry => Found line entry.2) lines entries)
    (made : List.Forall₂ (Signed order)
      (entries.filterMap fun entry => entry.2.declared?.map (entry.1, ·)) relations) :
    List.Forall₂ (Keeps order) (lines.filter fun line => Declares false line ∨ Declares true line)
      relations := by
  induction found generalizing relations with
  | nil =>
    cases made
    exact .nil
  | @cons line entry lines entries first rest ih =>
    cases isDeclared : entry.2.declared? with
    | none =>
      have other output : ¬ Declares output line := by
        rw [first.declares, isDeclared]
        rintro ⟨_, none, _⟩
        cases none
      rw [filterMap_cons_none (by rw [isDeclared]; rfl)] at made
      rw [filter_cons_of_neg (by simpa using ⟨other false, other true⟩)]
      exact ih made
    | some declared =>
      have declares : Declares declared.output line :=
        (first.declares _).mpr ⟨declared, isDeclared, rfl⟩
      have either : Declares false line ∨ Declares true line := by
        cases direction : declared.output with
        | false => exact .inl (direction ▸ declares)
        | true => exact .inr (direction ▸ declares)
      rw [filterMap_cons_some (by rw [isDeclared]; rfl)] at made
      rw [filter_cons_of_pos (by simpa using either)]
      cases made with
      | @cons _ rel _ others signed remaining =>
        obtain ⟨output, name, sig⟩ := rel
        obtain ⟨isOutput, isName, isMade⟩ := signed
        cases isOutput
        cases isName
        exact .cons (keeps_of_found first isDeclared isMade) (ih remaining)

theorem forall₂_filter {α β : Type} {R : α → β → Prop} {p : α → Bool} {q : β → Bool}
    (agree : ∀ a b, R a b → p a = q b) {as : List α} {bs : List β}
    (related : List.Forall₂ R as bs) :
    List.Forall₂ (fun a b => R a b ∧ q b = true) (as.filter p) (bs.filter q) := by
  induction related with
  | nil => exact .nil
  | @cons a b as bs first _ ih =>
    cases chosen : q b with
    | false =>
      rw [filter_cons_of_neg (by rw [agree a b first, chosen]; decide),
        filter_cons_of_neg (by rw [chosen]; decide)]
      exact ih
    | true =>
      rw [filter_cons_of_pos ((agree a b first).trans chosen), filter_cons_of_pos chosen]
      exact .cons ⟨first, chosen⟩ ih

theorem forall₂_directed (kept : List.Forall₂ (Keeps order)
      (lines.filter fun line => Declares false line ∨ Declares true line) relations)
    (output : Bool) :
    List.Forall₂ (fun line rel => Keeps order line (output, rel))
      (lines.filter (Declares output ·)) ((relations.filter (·.1 == output)).map (·.2)) := by
  have agree (line : String) (rel : Bool × String × Signature) (keeps : Keeps order line rel) :
      decide (Declares output line) = (rel.1 == output) := by
    rw [Bool.eq_iff_iff, decide_eq_true_iff, beq_iff_eq]
    exact ⟨keeps.declared.eq, fun same => same ▸ keeps.declared⟩
  have directed := forall₂_filter agree kept
  have all : (lines.filter fun line => Declares false line ∨ Declares true line).filter
      (Declares output ·) = lines.filter (Declares output ·) := by
    rw [filter_filter]
    refine filter_congr fun line _ => ?_
    rw [Bool.and_eq_left_iff_imp, decide_eq_true_iff, decide_eq_true_iff]
    cases output with
    | false => exact .inl
    | true => exact .inr
  rw [all] at directed
  rw [forall₂_map_right_iff]
  refine directed.imp fun line rel keeps => ?_
  rw [← beq_iff_eq.mp keeps.2]
  exact keeps.1

/-- The members of a list, each where it comes first: the front of the one list holds what a front
of the other does. -/
structure FirstAppearances (all distinct : List String) : Prop where
  nodup : distinct.Nodup
  same : ∀ item, item ∈ distinct ↔ item ∈ all
  inOrder : ∀ front, front <+: all → ∃ kept, kept <+: distinct ∧ ∀ item, item ∈ kept ↔ item ∈ front

theorem firstAppearances_eraseDups (all : List String) : FirstAppearances all all.eraseDups := by
  refine ⟨nodup_eraseDups all, fun item => mem_eraseDups, ?_⟩
  rintro front ⟨rest, rfl⟩
  refine ⟨front.eraseDups, ?_, fun item => mem_eraseDups⟩
  rw [eraseDups_append]
  exact prefix_append _ _

/-- A header that was read has one relation for every line that declares one, in the order of the
text: the inputs are those of the lines that end so, and the outputs likewise. Each has the written
name and columns and a lawful signature. If the text gives a variable order, the last one counts,
and the order of a relation names its columns in the same sequence and groups them in the same way;
otherwise it lists them. The domains are those of all columns, each where it comes first; they are
consumed before the inputs, and the outputs are produced. -/
theorem parse_keeps_declarations {file text : String} {header : Header}
    (parsed : parse file text = .ok header) :
    header.order = ((Text.lines text).filterMap orderOf?).getLast? ∧
    List.Forall₂ (fun line relation => Keeps header.order line (false, relation))
      ((Text.lines text).filter (Declares false ·)) header.inputs ∧
    List.Forall₂ (fun line relation => Keeps header.order line (true, relation))
      ((Text.lines text).filter (Declares true ·)) header.outputs ∧
    (∃ relations, List.Forall₂ (Keeps header.order)
        ((Text.lines text).filter fun line => Declares false line ∨ Declares true line) relations ∧
      header.inputs = (relations.filter (!·.1)).map (·.2) ∧
      header.outputs = (relations.filter (·.1)).map (·.2) ∧
      FirstAppearances (relations.flatMap fun relation =>
        relation.2.2.columns.map Signature.major) header.domains) ∧
    header.consumes = header.domains ++ header.inputs.map (·.1) ∧
    header.produces = header.outputs.map (·.1) := by
  obtain ⟨entries, read, parsed⟩ := except_bind_eq_ok.mp parsed
  have found := forall₂_found read
  dsimp only at parsed
  split at parsed
  · cases parsed
  · next name isName =>
    obtain ⟨relations, made, same⟩ := except_bind_eq_ok.mp parsed
    cases same
    rw [orders_of_found found] at made
    have kept := forall₂_keeps found (forall₂_signed made)
    have inputs := forall₂_directed kept false
    have outputs := forall₂_directed kept true
    simp only [beq_false, beq_true] at inputs outputs
    refine ⟨congrArg List.getLast? (orders_of_found found), ?_⟩
    dsimp only
    rw [orders_of_found found]
    exact ⟨inputs, outputs, ⟨relations, kept, rfl, rfl, firstAppearances_eraseDups _⟩, rfl, rfl⟩

/-- A program whose variable order has separators to spare. -/
def program : String :=
  "#name=t\n.bddvarorder _M0x_V0\nR(v:V, m:M)output\nS(m:M0)input"

theorem parse_keeps_declarations_program :
    ∃ header, parse "t" program = .ok header ∧ header.order = some "_M0x_V0" ∧
      header.outputs = [("R", ⟨["V0", "M0"], "M0_V0"⟩)] ∧ header.consumes = ["V", "M", "S"] ∧
      List.Forall₂ (fun line relation => Keeps header.order line (false, relation))
        ["S(m:M0)input"] header.inputs := by
  have parsed : parse "t" program = .ok ⟨"t", "t", some "_M0x_V0", ["V", "M"],
      [("S", ⟨["M0"], "M0"⟩)], [("R", ⟨["V0", "M0"], "M0_V0"⟩)]⟩ := by decide +kernel
  have lines : (Text.lines program).filter (Declares false ·) = ["S(m:M0)input"] := by
    decide +kernel
  obtain ⟨_, inputs, _⟩ := parse_keeps_declarations parsed
  exact ⟨_, parsed, rfl, rfl, rfl, lines ▸ inputs⟩

end ProgramAnalysis.Datalog
