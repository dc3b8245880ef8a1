import Mathlib.Data.List.Nodup
import ProgramAnalysis.Proofs.Signature

/-!
Declarations of relations: which lines make one, and how columns without a number get theirs. Such a
column takes the first number that is free before it (`Numbers`). It does not look ahead, and a
numbered column behind it may find its number taken (`Overtaken`).
-/

namespace ProgramAnalysis.Datalog

open String List Option Signature

variable {line name rel : String} {taken columns domains : List String}

/-! ### Numbers of columns -/

/-- Whether a domain is written with a number behind it. -/
def carriesNumber (domain : String) : Bool := domain.toList.getLast?.any Char.isDigit

variable {domain : String}

theorem major_eq_self_iff : Signature.major domain = domain ↔ carriesNumber domain = false := by
  rw [Signature.major, ← toList_inj, toList_ofList, carriesNumber]
  cases ends : domain.toList.getLast? with
  | none =>
    rw [getLast?_eq_none_iff.mp ends]
    exact iff_of_true rfl rfl
  | some last =>
    rw [any_some]
    constructor
    · intro same
      rw [← same] at ends
      exact not_isDigit_of_majorChars ends
    · exact majorChars_eq_self ends

theorem major_append_toString (unnumbered : carriesNumber domain = false) (n : Nat) :
    Signature.major (domain ++ toString n) = domain := by
  conv_rhs => rw [← major_eq_self_iff.mpr unnumbered]
  unfold Signature.major
  rw [toList_append, majorChars_append fun c mem => Numeral.isDigit_of_mem_toString mem]

theorem append_toString_injective (domain : String) :
    Function.Injective fun n : Nat => domain ++ toString n := by
  intro n m same
  have digits : Nat.toDigits 10 n = Nat.toDigits 10 m := by
    simpa [← toList_inj, Nat.toString_eq_ofList_toDigits] using same
  calc
    n = Nat.ofDigitChars 10 (Nat.toDigits 10 n) 0 := Nat.ofDigitChars_ten_toDigits.symm
    _ = Nat.ofDigitChars 10 (Nat.toDigits 10 m) 0 := by rw [digits]
    _ = m := Nat.ofDigitChars_ten_toDigits

/-- A number is free, and it is the first one. -/
theorem freeNumber_spec (domain : String) (taken : List String) :
    domain ++ toString (freeNumber domain taken) ∉ taken ∧
      ∀ n < freeNumber domain taken, domain ++ toString n ∈ taken := by
  unfold freeNumber
  cases found : (List.range (taken.length + 1)).find? fun n => domain ++ toString n ∉ taken with
  | none =>
    -- more numbers would be taken than there are columns
    have among : (List.range (taken.length + 1)).map (fun n => domain ++ toString n) ⊆ taken := by
      intro column mem
      obtain ⟨n, below, rfl⟩ := List.mem_map.mp mem
      simpa using find?_eq_none.mp found n below
    have distinct : ((List.range (taken.length + 1)).map fun n => domain ++ toString n).Nodup :=
      List.Nodup.map (append_toString_injective domain) List.nodup_range
    have count := (List.subperm_of_subset distinct among).length_le
    rw [List.length_map, length_range] at count
    omega
  | some n =>
    obtain ⟨free, _, below⟩ := List.find?_range_eq_some.mp found
    rw [getD_some]
    exact ⟨by simpa using free, fun m less => by simpa using below m less⟩

/-- The columns that domains stand for, numbered from the left. -/
def numbering (taken : List String) : List String → List String
  | [] => []
  | domain :: rest =>
    columnOf domain taken :: numbering (taken ++ [columnOf domain taken]) rest

theorem getElem?_numbering (taken domains : List String) (i : Nat) : (numbering taken domains)[i]? =
      domains[i]?.map fun domain =>
        columnOf domain (taken ++ (numbering taken domains).take i) := by
  induction domains generalizing taken i with
  | nil => rfl
  | cons domain rest ih =>
    cases i with
    | zero => simp [numbering]
    | succ i =>
      rw [numbering, List.getElem?_cons_succ, List.getElem?_cons_succ, ih,
        take_succ_cons, List.append_assoc, singleton_append]

theorem length_numbering (taken domains : List String) :
    (numbering taken domains).length = domains.length := by
  induction domains generalizing taken with
  | nil => rfl
  | cons domain rest ih =>
    rw [numbering, List.length_cons, List.length_cons, ih]

/-- How the columns of a declaration follow from the domains it writes. -/
structure Numbers (domains columns : List String) : Prop where
  length : columns.length = domains.length
  /-- A domain that carries a number stands for itself. -/
  given : ∀ (i : Nat) (domain : String), domains[i]? = some domain → carriesNumber domain = true →
    columns[i]? = some domain
  /-- Any other gets the first number that is free among the columns before. -/
  first : ∀ (i : Nat) (domain : String), domains[i]? = some domain → carriesNumber domain = false →
    ∃ n : Nat, columns[i]? = some (domain ++ toString n) ∧
      domain ++ toString n ∉ columns.take i ∧ ∀ m < n, domain ++ toString m ∈ columns.take i

theorem Numbers.growing (numbers : Numbers domains columns) {i j n m : Nat} (before : i < j)
    (atI : domains[i]? = some domain) (atJ : domains[j]? = some domain)
    (unnumbered : carriesNumber domain = false)
    (columnI : columns[i]? = some (domain ++ toString n))
    (columnJ : columns[j]? = some (domain ++ toString m)) : n < m := by
  obtain ⟨k, columnK, _, below⟩ := numbers.first i domain atI unnumbered
  obtain rfl := append_toString_injective domain (Option.some.inj (columnI.symm.trans columnK))
  obtain ⟨k, columnK, free, _⟩ := numbers.first j domain atJ unnumbered
  obtain rfl := append_toString_injective domain (Option.some.inj (columnJ.symm.trans columnK))
  refine Nat.lt_of_not_le fun less => free ?_
  rcases Nat.lt_or_eq_of_le less with less | rfl
  · exact (List.take_subset_take_left columns before.le) (below m less)
  · exact List.mem_of_getElem? ((List.getElem?_take_of_lt before).trans columnI)

/-- A domain that carries a number stands behind a column that had got this number. -/
def Overtaken (domains columns : List String) : Prop :=
  ∃ (i j : Nat) (domain given : String), i < j ∧ domains[i]? = some domain ∧
    carriesNumber domain = false ∧ domains[j]? = some given ∧ carriesNumber given = true ∧
    columns[i]? = some given

/-- Columns repeat only where a number is written after it was given. -/
theorem Numbers.nodup_iff (numbers : Numbers domains columns)
    (distinct : (domains.filter carriesNumber).Nodup) :
    columns.Nodup ↔ ¬ Overtaken domains columns := by
  rw [List.nodup_iff_getElem?_ne_getElem?]
  constructor
  · rintro apart ⟨i, j, domain, given, before, _, _, atJ, numbered, columnI⟩
    have columnJ := numbers.given j given atJ numbered
    have within := (List.getElem?_eq_some_iff.mp columnJ).1
    exact apart i j before within (columnI.trans columnJ.symm)
  · intro calm i j before within same
    obtain ⟨given, atJ⟩ : ∃ given, domains[j]? = some given :=
      ⟨_, getElem?_eq_getElem (numbers.length ▸ within)⟩
    obtain ⟨domain, atI⟩ : ∃ domain, domains[i]? = some domain :=
      ⟨_, getElem?_eq_getElem (numbers.length ▸ before.trans within)⟩
    cases numberedJ : carriesNumber given with
    | false =>
      obtain ⟨n, columnJ, free, _⟩ := numbers.first j given atJ numberedJ
      exact free (List.mem_of_getElem?
        ((List.getElem?_take_of_lt before).trans (same.trans columnJ)))
    | true =>
      have columnI := same.trans (numbers.given j given atJ numberedJ)
      cases numberedI : carriesNumber domain with
      | false => exact calm ⟨i, j, domain, given, before, atI, numberedI, atJ, numberedJ, columnI⟩
      | true =>
        have twice := Option.some.inj ((numbers.given i domain atI numberedI).symm.trans columnI)
        obtain ⟨belowI, isI⟩ := List.getElem?_eq_some_iff.mp atI
        obtain ⟨belowJ, isJ⟩ := List.getElem?_eq_some_iff.mp atJ
        have different := pairwise_iff_getElem.mp (pairwise_filter.mp distinct) i j belowI
          belowJ before
        rw [isI, isJ] at different
        exact different numberedI numberedJ twice

theorem numbers_numbering (domains : List String) : Numbers domains (numbering [] domains) := by
  refine ⟨length_numbering [] domains, fun i domain written numbered => ?_,
    fun i domain written unnumbered => ?_⟩
  · rw [getElem?_numbering, written, map_some, columnOf, if_neg]
    rw [major_eq_self_iff, numbered]
    exact Bool.noConfusion
  · refine ⟨freeNumber domain ((numbering [] domains).take i), ?_, freeNumber_spec _ _⟩
    rw [getElem?_numbering, written, map_some, List.nil_append, columnOf,
      if_pos (major_eq_self_iff.mpr unnumbered)]

/-! ### Columns as they are written -/

/-- A column of a declaration: what it is called there, and its domain. -/
structure WrittenColumn where
  label : String
  domain : String
  deriving DecidableEq

namespace WrittenColumn

def text (column : WrittenColumn) : String := column.label ++ ":" ++ column.domain

/-- The label has no character that the columns are cut at, and the domain is a name. -/
@[mk_iff]
structure WellFormed (column : WrittenColumn) : Prop where
  noComma : ',' ∉ column.label.toList
  noColon : ':' ∉ column.label.toList
  named : isName column.domain = true

instance (column : WrittenColumn) : Decidable column.WellFormed :=
  decidable_of_iff' _ (wellFormed_iff column)

variable {column : WrittenColumn}

theorem cutAt?_text (noColon : ':' ∉ column.label.toList) :
    Text.cutAt? ':' column.text = some (column.label, column.domain) := by
  rw [Text.cutAt?_eq_some_iff, text, toList_append, toList_append, List.append_assoc]
  exact ⟨rfl, noColon⟩

end WrittenColumn

theorem not_mem_of_isName (named : isName name = true) (other : Text.isAlphanumeric c = false)
    (noUnderscore : c ≠ '_') : c ∉ name.toList := by
  intro inside
  have letter := List.all_eq_true.mp (Bool.and_eq_true_iff.mp named).2 c inside
  rw [other, Bool.false_or, beq_iff_eq] at letter
  exact noUnderscore letter

theorem WrittenColumn.WellFormed.noComma_text {column : WrittenColumn}
    (wellFormed : column.WellFormed) : ',' ∉ column.text.toList := by
  rw [text, toList_append, toList_append, List.mem_append, List.mem_append]
  rintro ((inLabel | between) | inDomain)
  · exact wellFormed.noComma inLabel
  · revert between
    decide
  · exact not_mem_of_isName wellFormed.named (by decide) (by decide) inDomain

theorem readColumns_cons {column : WrittenColumn} (wellFormed : column.WellFormed)
    (rest : List String) :
    readColumns rel taken (column.text :: rest) =
      if columnOf column.domain taken ∈ taken then
        .error (.repeatedDomain (columnOf column.domain taken) rel)
      else readColumns rel (taken ++ [columnOf column.domain taken]) rest := by
  rw [readColumns, WrittenColumn.cutAt?_text wellFormed.noColon]
  dsimp only
  rw [wellFormed.named]
  rfl

variable {written : List WrittenColumn}

theorem readColumns_written (wellFormed : ∀ column ∈ written, column.WellFormed)
    (distinct : taken.Nodup) :
    ((taken ++ numbering taken (written.map (·.domain))).Nodup →
      readColumns rel taken (written.map (·.text)) =
        .ok (taken ++ numbering taken (written.map (·.domain)))) ∧
    (¬ (taken ++ numbering taken (written.map (·.domain))).Nodup →
      ∃ column, readColumns rel taken (written.map (·.text)) =
        .error (.repeatedDomain column rel)) := by
  induction written generalizing taken with
  | nil =>
    rw [List.map_nil, numbering, List.append_nil]
    exact ⟨fun _ => rfl, fun same => absurd distinct same⟩
  | cons first rest ih =>
    obtain ⟨proper, wellFormed⟩ := List.forall_mem_cons.mp wellFormed
    rw [map_cons, map_cons, numbering, readColumns_cons proper]
    by_cases again : columnOf first.domain taken ∈ taken
    · rw [if_pos again]
      refine ⟨fun apart => ?_, fun _ => ⟨_, rfl⟩⟩
      exact absurd rfl ((nodup_append.mp apart).2.2 _ again _ mem_cons_self)
    · have fresh : (taken ++ [columnOf first.domain taken]).Nodup :=
        nodup_append.mpr ⟨distinct, nodup_singleton _, fun a among b same equal =>
          again (mem_singleton.mp same ▸ equal ▸ among)⟩
      have remaining := ih wellFormed fresh
      rw [List.append_assoc, singleton_append] at remaining
      rwa [if_neg again]

theorem numbers_of_readColumns (wellFormed : ∀ column ∈ written, column.WellFormed)
    (read : readColumns rel [] (written.map (·.text)) = .ok columns) :
    Numbers (written.map (·.domain)) columns := by
  obtain ⟨accepted, refused⟩ := @readColumns_written rel [] written wellFormed List.nodup_nil
  by_cases distinct : ([] ++ numbering [] (written.map WrittenColumn.domain)).Nodup
  · rw [accepted distinct] at read
    cases read
    exact numbers_numbering _
  · obtain ⟨column, error⟩ := refused distinct
    rw [error] at read
    cases read

/-- Texts that are read as columns are written so. -/
theorem exists_written (read : readColumns rel taken texts = .ok columns)
    (apart : ∀ text ∈ texts, ',' ∉ text.toList) :
    ∃ written : List WrittenColumn, texts = written.map (·.text) ∧
      ∀ column ∈ written, column.WellFormed := by
  induction texts generalizing taken with
  | nil => exact ⟨[], rfl, fun _ none => absurd none List.not_mem_nil⟩
  | cons text rest ih =>
    obtain ⟨noComma, apart⟩ := List.forall_mem_cons.mp apart
    rw [readColumns] at read
    split at read
    · cases read
    · next label domain cut =>
      split at read
      · cases read
      · next named =>
        dsimp only at read
        split at read
        · cases read
        · obtain ⟨written, rfl, wellFormed⟩ := ih read apart
          obtain ⟨put, noColon⟩ := Text.cutAt?_eq_some_iff.mp cut
          rw [put, List.mem_append, not_or] at noComma
          refine ⟨⟨label, domain⟩ :: written, ?_, List.forall_mem_cons.mpr
            ⟨⟨noComma.1, noColon, by simpa using named⟩, wellFormed⟩⟩
          rw [map_cons, WrittenColumn.text, List.cons.injEq, ← toList_inj, put,
            toList_append, toList_append, List.append_assoc]
          exact ⟨rfl, rfl⟩

/-! ### Lines -/

/-- The last word of a declaration. -/
def lastWord (output : Bool) : String := bif output then "output" else "input"

/-- A line is spelled as a declaration: blanks apart, it is the name of a relation, its columns in
parentheses and with commas between them, and the word for the direction. -/
@[mk_iff]
structure Spells (line name : String) (written : List WrittenColumn) (output : Bool) : Prop where
  text : Text.compact line =
    name ++ "(" ++ ",".intercalate (written.map (·.text)) ++ ")" ++ lastWord output
  named : isName name = true
  some : written ≠ []
  wellFormed : ∀ column ∈ written, column.WellFormed

instance (line name : String) (written : List WrittenColumn) (output : Bool) :
    Decidable (Spells line name written output) :=
  decidable_of_iff' _ (spells_iff line name written output)

variable {output : Bool}

theorem direction?_eq_some_iff {written head : String} : direction? written = some (output, head) ↔
      written.toList = head.toList ++ (lastWord output).toList := by
  unfold direction?
  cases output with
  | true =>
    rw [lastWord, cond_true, ← Text.dropEnd?_eq_some_iff]
    cases Text.dropEnd? "output" written with
    | none => simp
    | some => simp
  | false =>
    cases out : Text.dropEnd? "output" written with
    | none =>
      rw [lastWord, cond_false, ← Text.dropEnd?_eq_some_iff]
      simp
    | some other =>
      refine iff_of_false (by simp) fun same => ?_
      -- the two words differ in the fifth character from the end
      rw [Text.dropEnd?_eq_some_iff.mp out, show "output".toList = ['o'] ++ "utput".toList from rfl,
        ← List.append_assoc] at same
      have ends := (append_inj' same rfl).2
      revert ends
      decide

theorem readDeclaration_of_spells (spelled : Spells line name written output) :
    readDeclaration line = (do
      let columns ← readColumns name [] (written.map (·.text))
      return some ⟨name, columns, output⟩) := by
  have directed : direction? (Text.compact line) =
      some (output, name ++ "(" ++ ",".intercalate (written.map (·.text)) ++ ")") := by
    rw [direction?_eq_some_iff, spelled.text, toList_append]
  have opened : Text.cutAt? '(' (name ++ "(" ++ ",".intercalate (written.map (·.text)) ++ ")") =
      some (name, ",".intercalate (written.map (·.text)) ++ ")") := by
    rw [Text.cutAt?_eq_some_iff]
    refine ⟨?_, not_mem_of_isName spelled.named (by decide) (by decide)⟩
    simp only [toList_append, List.append_assoc]
    rfl
  have closed : Text.dropEnd? ")" (",".intercalate (written.map (·.text)) ++ ")") =
      some (",".intercalate (written.map (·.text))) := by
    rw [Text.dropEnd?_eq_some_iff, toList_append]
  have cut : Text.splitAt ',' (",".intercalate (written.map (·.text))) = written.map (·.text) := by
    refine Text.splitAt_intercalate rfl (by simpa using spelled.some) fun text mem => ?_
    obtain ⟨column, among, rfl⟩ := List.mem_map.mp mem
    exact (spelled.wellFormed column among).noComma_text
  unfold readDeclaration
  rw [directed]
  dsimp only
  rw [opened]
  dsimp only
  rw [closed]
  dsimp only
  rw [spelled.named, cut]
  rfl

theorem spells_of_readDeclaration (read : readDeclaration line = .ok (some declared)) : ∃ written,
      Spells line declared.name written declared.output ∧
        readColumns declared.name [] (written.map (·.text)) = .ok declared.columns := by
  unfold readDeclaration at read
  split at read
  · cases read
  · next output head directed =>
    split at read
    · cases read
    · next name rest opened =>
      split at read
      · cases read
      · next columns closed =>
        split at read
        · cases read
        · next named =>
          obtain ⟨numbered, reading, same⟩ := except_bind_eq_ok.mp read
          cases same
          obtain ⟨written, cut, wellFormed⟩ := exists_written reading fun text mem =>
            Text.not_mem_of_mem_splitAt mem
          rw [cut] at reading
          refine ⟨written, ⟨?_, by simpa using named, ?_, wellFormed⟩, reading⟩
          · rw [← cut, Text.intercalate_splitAt rfl, ← toList_inj,
              direction?_eq_some_iff.mp directed, (Text.cutAt?_eq_some_iff.mp opened).1,
              Text.dropEnd?_eq_some_iff.mp closed]
            simp only [toList_append, List.append_assoc, cons_append]
            rfl
          · rintro rfl
            exact Text.splitAt_ne_nil _ _ cut

/-! ### Declarations that are refused -/

/-- A declaration whose columns are well formed and whose numbered domains are different is refused
for a repeated domain exactly if a numbered column stands behind an unnumbered one that had got its
number, and so never if no numbered column stands behind an unnumbered one of the same domain. If it
is not refused, all columns are different, each unnumbered domain has got the first number free
before it, and the numbers of one domain grow. -/
theorem refused_iff_overtaken {line name : String} {written : List WrittenColumn} {output : Bool}
    (spelled : Spells line name written output)
    (distinct : ((written.map (·.domain)).filter carriesNumber).Nodup) :
    ∃ columns, Numbers (written.map (·.domain)) columns ∧
      ((∃ column, readDeclaration line = .error (.repeatedDomain column name)) ↔
        Overtaken (written.map (·.domain)) columns) ∧
      ((written.map (·.domain)).Pairwise (fun before after => carriesNumber before = false →
        carriesNumber after = true → Signature.major after ≠ before) →
          ¬ Overtaken (written.map (·.domain)) columns) ∧
      (¬ Overtaken (written.map (·.domain)) columns →
        readDeclaration line = .ok (some ⟨name, columns, output⟩) ∧ columns.Nodup ∧
        ∀ (i j : Nat) (domain : String) (n m : Nat), i < j →
          (written.map (·.domain))[i]? = some domain → (written.map (·.domain))[j]? = some domain →
          carriesNumber domain = false → columns[i]? = some (domain ++ toString n) →
          columns[j]? = some (domain ++ toString m) → n < m) := by
  have numbers := numbers_numbering (written.map (·.domain))
  obtain ⟨accepted, refused⟩ :=
    @readColumns_written name [] written spelled.wellFormed List.nodup_nil
  rw [List.nil_append, numbers.nodup_iff distinct] at accepted refused
  rw [readDeclaration_of_spells spelled]
  refine ⟨_, numbers, ⟨?_, fun overtaken => ?_⟩, ?_, fun calm => ?_⟩
  · rintro ⟨column, error⟩
    by_contra calm
    rw [accepted calm] at error
    cases error
  · obtain ⟨column, error⟩ := refused (not_not_intro overtaken)
    exact ⟨column, by rw [error]; rfl⟩
  · rintro apart ⟨i, j, domain, given, before, atI, unnumbered, atJ, numbered, columnI⟩
    obtain ⟨n, columnN, _⟩ := numbers.first i domain atI unnumbered
    obtain ⟨belowI, isI⟩ := List.getElem?_eq_some_iff.mp atI
    obtain ⟨belowJ, isJ⟩ := List.getElem?_eq_some_iff.mp atJ
    have different := List.pairwise_iff_getElem.mp apart i j belowI belowJ before
    rw [isI, isJ] at different
    refine different unnumbered numbered ?_
    rw [Option.some.inj (columnI.symm.trans columnN), major_append_toString unnumbered]
  · rw [accepted calm]
    exact ⟨rfl, (numbers.nodup_iff distinct).mpr calm, fun i j domain n m before atI atJ unnumbered
      columnI columnJ => numbers.growing before atI atJ unnumbered columnI columnJ⟩

/-- Numbered and unnumbered columns of three domains: the second column gets the first number, and
the fourth the one behind that of the first. -/
theorem refused_iff_overtaken_mixed :
    Spells "R(a:V1, b:V, c:W, d:V, e:X0) input" "R"
      [⟨"a", "V1"⟩, ⟨"b", "V"⟩, ⟨"c", "W"⟩, ⟨"d", "V"⟩, ⟨"e", "X0"⟩] false ∧
    (["V1", "V", "W", "V", "X0"].filter carriesNumber).Nodup ∧
    Numbers ["V1", "V", "W", "V", "X0"] ["V1", "V0", "W0", "V2", "X0"] ∧
    readDeclaration "R(a:V1, b:V, c:W, d:V, e:X0) input" =
      .ok (some ⟨"R", ["V1", "V0", "W0", "V2", "X0"], false⟩) := by
  have spelled : Spells "R(a:V1, b:V, c:W, d:V, e:X0) input" "R"
      [⟨"a", "V1"⟩, ⟨"b", "V"⟩, ⟨"c", "W"⟩, ⟨"d", "V"⟩, ⟨"e", "X0"⟩] false := by decide +kernel
  have distinct : (["V1", "V", "W", "V", "X0"].filter carriesNumber).Nodup := by decide +kernel
  have evaluated : readDeclaration "R(a:V1, b:V, c:W, d:V, e:X0) input" =
      .ok (some ⟨"R", ["V1", "V0", "W0", "V2", "X0"], false⟩) := by decide +kernel
  obtain ⟨columns, numbers, _, apart, accepted⟩ := refused_iff_overtaken spelled distinct
  have read := (accepted (apart (by decide +kernel))).1
  rw [evaluated] at read
  cases read
  exact ⟨spelled, distinct, numbers, evaluated⟩

/-- A column carries the number that an unnumbered one before it has got, and the declaration is
refused, although every domain is written once. -/
theorem numbered_behind_unnumbered :
    Spells "R(a:V,b:V0) input" "R" [⟨"a", "V"⟩, ⟨"b", "V0"⟩] false ∧
      (["V", "V0"].filter carriesNumber).Nodup ∧
      readDeclaration "R(a:V,b:V0) input" = .error (.repeatedDomain "V0" "R") := by
  decide +kernel

end ProgramAnalysis.Datalog
