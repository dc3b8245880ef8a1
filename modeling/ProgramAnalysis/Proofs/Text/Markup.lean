import ProgramAnalysis.Element
import ProgramAnalysis.Proofs.Numerals
import ProgramAnalysis.Proofs.Text.Joined

/-!
Attributes of reports and how they are read back. Escaping in one pass is the same as replacing four
characters one after the other (`replaceFrom`). Resolving entities undoes it, and leaves texts
without quotes and entities as they are (`Plain`), so that an attribute which is written without
escaping comes back exactly if it is plain.
-/

namespace ProgramAnalysis

open List

namespace Text

/-! ### Replacing -/

/-- Replaces every occurrence of a text by a character, from left to right. The next `skip`
characters belong to an occurrence that is replaced already. -/
def replaceFrom (old : List Char) (new : Char) : Nat → List Char → List Char
  | _, [] => []
  | skip + 1, _ :: rest => replaceFrom old new skip rest
  | 0, c :: rest =>
    if old.isPrefixOf (c :: rest) then new :: replaceFrom old new (old.length - 1) rest
    else c :: replaceFrom old new 0 rest

variable {old : List Char} {new : Char}

theorem replaceFrom_length (block rest : List Char) :
    replaceFrom old new block.length (block ++ rest) = replaceFrom old new 0 rest := by
  induction block with
  | nil => rfl
  | cons c block ih => exact ih

theorem replaceFrom_self (some : old ≠ []) (rest : List Char) :
    replaceFrom old new 0 (old ++ rest) = new :: replaceFrom old new 0 rest := by
  obtain ⟨first, others, rfl⟩ := exists_cons_of_ne_nil some
  have begins : (first :: others).isPrefixOf (first :: (others ++ rest)) = true :=
    isPrefixOf_iff_prefix.mpr ⟨rest, rfl⟩
  rw [cons_append, replaceFrom, if_pos begins]
  exact congrArg (new :: ·) (replaceFrom_length others rest)

theorem length_replaceFrom (proper : old ≠ []) {cs : List Char} (inside : skip ≤ cs.length) :
    (replaceFrom old new skip cs).length + skip ≤ cs.length := by
  have some := length_pos_of_ne_nil proper
  fun_induction replaceFrom old new skip cs with
  | case1 => simpa using inside
  | case2 skip c rest ih =>
    have shorter := ih (Nat.le_of_succ_le_succ inside)
    rw [length_cons]
    omega
  | case3 c rest begins ih =>
    have front := isPrefixOf_iff_prefix.mp begins
    have fits := front.length_le
    rw [length_cons] at fits
    have shorter := ih (by omega)
    rw [length_cons, length_cons]
    omega
  | case4 c rest _ ih => simpa using ih (Nat.zero_le _)

theorem length_replaceFrom_lt (longer : 1 < old.length) (occurs : old <:+: cs) :
    (replaceFrom old new 0 cs).length < cs.length := by
  induction cs with
  | nil => simp [infix_nil.mp occurs] at longer
  | cons c rest ih =>
    rw [replaceFrom]
    split
    · next begins =>
      have front := isPrefixOf_iff_prefix.mp begins
      have fits := front.length_le
      rw [length_cons] at fits
      have shorter : (replaceFrom old new (old.length - 1) rest).length + (old.length - 1) ≤ _ :=
        length_replaceFrom (ne_nil_of_length_pos (Nat.lt_of_succ_lt longer)) (by omega)
      rw [length_cons, length_cons]
      omega
    · next no =>
      have later := (infix_cons_iff.mp occurs).resolve_left (mt isPrefixOf_iff_prefix.mpr no)
      exact Nat.succ_lt_succ (ih later)

theorem replaceFrom_eq_self (absent : ¬ old <:+: cs) : replaceFrom old new 0 cs = cs := by
  induction cs with
  | nil => rfl
  | cons c rest ih =>
    rw [infix_cons_iff, not_or] at absent
    rw [replaceFrom, if_neg (mt isPrefixOf_iff_prefix.mp absent.1), ih absent.2]

/-! ### Entities -/

/-- What is replaced when a value is read, and by what, in this order. -/
def entities : List (List Char × Char) :=
  [(['&', 'l', 't', ';'], '<'), (['&', 'g', 't', ';'], '>'), (['&', 'q', 'u', 'o', 't', ';'], '"'),
    (['&', 'a', 'm', 'p', ';'], '&')]

def resolve (cs : List Char) (entity : List Char × Char) : List Char :=
  replaceFrom entity.1 entity.2 0 cs

/-- Undoes escaping. -/
def unescape (s : String) : String := String.ofList (entities.foldl resolve s.toList)

/-- A text without a quote and without an entity. -/
structure Plain (s : String) : Prop where
  unquoted : '"' ∉ s.toList
  literal : ∀ entity ∈ entities, ¬ entity.1 <:+: s.toList

variable {cs : List Char} {table : List (List Char × Char)}

theorem length_resolveAll (proper : ∀ entity ∈ table, 1 < entity.1.length) (cs : List Char) :
    (table.foldl resolve cs).length ≤ cs.length := by
  induction table generalizing cs with
  | nil => exact Nat.le_refl _
  | cons entity table ih =>
    obtain ⟨first, others⟩ := forall_mem_cons.mp proper
    have proper := ne_nil_of_length_pos (Nat.lt_of_succ_lt first)
    exact Nat.le_trans (ih others _) (length_replaceFrom proper (Nat.zero_le _))

/-- Resolving leaves exactly those texts alone in which no entity occurs. -/
theorem resolveAll_eq_self_iff (proper : ∀ entity ∈ table, 1 < entity.1.length) :
    table.foldl resolve cs = cs ↔ ∀ entity ∈ table, ¬ entity.1 <:+: cs := by
  induction table with
  | nil => simp
  | cons entity table ih =>
    obtain ⟨first, others⟩ := forall_mem_cons.mp proper
    rw [foldl_cons, forall_mem_cons]
    by_cases occurs : entity.1 <:+: cs
    · refine iff_of_false (fun same => ?_) fun none => none.1 occurs
      have short := length_resolveAll others (resolve cs entity)
      rw [same] at short
      exact Nat.lt_irrefl _ (Nat.lt_of_le_of_lt short (length_replaceFrom_lt first occurs))
    · rw [resolve, replaceFrom_eq_self occurs, ih others, iff_and_self]
      exact fun _ => occurs

theorem proper_entities : ∀ entity ∈ entities, 1 < entity.1.length := by decide

theorem unescape_eq_self_iff : unescape s = s ↔ ∀ entity ∈ entities, ¬ entity.1 <:+: s.toList := by
  rw [← resolveAll_eq_self_iff proper_entities, unescape, ← String.toList_inj, String.toList_ofList]

theorem length_unescape (s : String) : (unescape s).toList.length ≤ s.toList.length := by
  rw [unescape, String.toList_ofList]
  exact length_resolveAll proper_entities _

/-! ### Escaping and back -/

variable {entity : List Char × Char} {c : Char}

theorem resolve_cons (mem : entity ∈ entities) (other : c ≠ '&') (rest : List Char) :
    resolve (c :: rest) entity = c :: resolve rest entity := by
  simp only [entities, mem_cons, not_mem_nil, or_false] at mem
  rcases mem with rfl | rfl | rfl | rfl <;> simp [resolve, replaceFrom, isPrefixOf, Ne.symm other]

/-- What stands for a character. -/
def escapeChar : Char → List Char
  | '&' => ['&', 'a', 'm', 'p', ';']
  | '<' => ['&', 'l', 't', ';']
  | '>' => ['&', 'g', 't', ';']
  | '"' => ['&', 'q', 'u', 'o', 't', ';']
  | c => [c]

/-- Replacing one character after the other is the same as replacing all of them at once. -/
theorem escape_eq (s : String) : escape s = String.ofList (s.toList.flatMap escapeChar) := by
  unfold escape replaceChar
  rw [flatMap_assoc, flatMap_assoc, flatMap_assoc]
  refine congrArg _ (congrArg (s.toList.flatMap ·) (funext fun c => ?_))
  fun_cases escapeChar c with
  | case1 | case2 | case3 | case4 => decide
  | case5 noAmp noLess noGreater noQuote => simp_all

/-- Resolving an entity passes by what stands for another character. -/
theorem resolve_escapeChar (mem : entity ∈ entities) (other : c ≠ entity.2) (rest : List Char) :
    resolve (escapeChar c ++ rest) entity = escapeChar c ++ resolve rest entity := by
  unfold escapeChar
  split
  case h_5 => exact resolve_cons mem (by assumption) rest
  all_goals
    simp only [entities, mem_cons, not_mem_nil, or_false] at mem
    rcases mem with rfl | rfl | rfl | rfl <;> simp_all [resolve, replaceFrom, isPrefixOf]

/-- A character escaped, unless it is one of some. -/
def escapeBut (kept : List Char) (c : Char) : List Char := if c ∈ kept then [c] else escapeChar c

theorem resolve_escapeBut (mem : entity ∈ entities) (ampersand : '&' ∉ kept) (cs : List Char) :
    resolve (cs.flatMap (escapeBut kept)) entity = cs.flatMap (escapeBut (entity.2 :: kept)) := by
  have written : ∀ entity ∈ entities, escapeChar entity.2 = entity.1 := by decide
  have proper : entity.1 ≠ [] := ne_nil_of_length_pos (Nat.zero_lt_of_lt (proper_entities _ mem))
  induction cs with
  | nil => rfl
  | cons c rest ih =>
    rw [flatMap_cons, flatMap_cons, ← ih, escapeBut, escapeBut]
    by_cases keeps : c ∈ kept
    · rw [if_pos keeps, if_pos (mem_cons_of_mem _ keeps)]
      exact resolve_cons mem (fun same => ampersand (same ▸ keeps)) _
    · rw [if_neg keeps]
      by_cases here : c = entity.2
      · rw [if_pos (here ▸ mem_cons_self), here, written entity mem]
        exact replaceFrom_self proper _
      · rw [if_neg (not_or.mpr ⟨here, keeps⟩ ∘ mem_cons.mp)]
        exact resolve_escapeChar mem here _

/-- The ampersand is resolved last, so that no entity comes about before. -/
theorem unescape_escape (s : String) : unescape (escape s) = s := by
  have nothing : escapeBut [] = escapeChar := funext fun c => if_neg not_mem_nil
  have everything : escapeBut ['&', '"', '>', '<'] = fun c => [c] := by
    funext c
    unfold escapeBut
    split
    · rfl
    · next others =>
      simp only [mem_cons, not_mem_nil, or_false, not_or] at others
      unfold escapeChar
      split <;> simp_all
  rw [unescape, escape_eq, String.toList_ofList, ← nothing]
  simp only [entities, foldl_cons, foldl_nil]
  rw [resolve_escapeBut (by decide) (by decide), resolve_escapeBut (by decide) (by decide),
    resolve_escapeBut (by decide) (by decide), resolve_escapeBut (by decide) (by decide),
    everything, flatMap_singleton', String.ofList_toList]

theorem unquoted_escape (s : String) : '"' ∉ (escape s).toList := by
  rw [escape_eq, String.toList_ofList]
  intro mem
  obtain ⟨c, _, quote⟩ := mem_flatMap.mp mem
  unfold escapeChar at quote
  split at quote
  case h_5 other => exact other (mem_singleton.mp quote).symm
  all_goals simp at quote

/-! ### Reading -/

/-- Reads an attribute: a blank, its name, an equals sign and a value in quotes. What follows is
left. -/
def readAttribute? (name text : String) : Option (String × String) :=
  (dropStart? (" " ++ name ++ "=\"") text).bind fun opened =>
    (cutAt? '"' opened).map fun parts => (unescape parts.1, parts.2)

/-- The values of the attributes that make up a text. -/
def readAttributes? : List String → String → Option (List String)
  | [], text => if text = "" then some [] else none
  | name :: names, text =>
    (readAttribute? name text).bind fun found => (readAttributes? names found.2).map (found.1 :: ·)

variable {names values : List String}

/-- A value ends at its first quote. -/
theorem readAttribute?_eq (name : String) {value text : String} (rest : String)
    (unquoted : '"' ∉ value.toList) (put : text = " " ++ name ++ "=\"" ++ value ++ "\"" ++ rest) :
    readAttribute? name text = some (unescape value, rest) := by
  have opens : dropStart? (" " ++ name ++ "=\"") text = some (value ++ "\"" ++ rest) :=
    dropStart?_eq_some_iff.mpr (by simp only [put, String.append_assoc])
  have cuts : cutAt? '"' (value ++ "\"" ++ rest) = some (value, rest) :=
    cutAt?_eq_some_iff.mpr ⟨by simp [String.toList_append], unquoted⟩
  rw [readAttribute?, opens, Option.bind_some, cuts, Option.map_some]

theorem readAttributes?_cons (name : String) (rest : String)
    (unquoted : '"' ∉ value.toList) (put : text = " " ++ name ++ "=\"" ++ value ++ "\"" ++ rest) :
    readAttributes? (name :: names) text =
      (readAttributes? names rest).map (unescape value :: ·) := by
  rw [readAttributes?, readAttribute?_eq name rest unquoted put]
  rfl

theorem readAttributes?_escape (name s rest : String) :
    readAttributes? (name :: names) (" " ++ name ++ "=\"" ++ escape s ++ "\"" ++ rest) =
      (readAttributes? names rest).map (s :: ·) := by
  rw [readAttributes?_cons name rest (unquoted_escape s) rfl, unescape_escape]

/-- A value that was not escaped is read as it is exactly if it is plain. -/
theorem readAttributes?_raw (name raw rest : String) :
    readAttributes? (name :: names) (" " ++ name ++ "=\"" ++ raw ++ "\"" ++ rest) =
      some (raw :: values) ↔ Plain raw ∧ readAttributes? names rest = some values := by
  by_cases quoted : '"' ∈ raw.toList
  · refine iff_of_false (fun read => ?_) fun plain => plain.1.unquoted quoted
    -- Only what stands before the first quote is read, and that is shorter.
    obtain ⟨front, back, split, absent⟩ := eq_append_cons_of_mem quoted
    have put : raw = String.ofList front ++ "\"" ++ String.ofList back := by
      rw [← String.toList_inj, split]
      simp [String.toList_append]
    rw [readAttributes?_cons name (String.ofList back ++ "\"" ++ rest)
      (show '"' ∉ (String.ofList front).toList by rwa [String.toList_ofList])
      (by simp only [put, String.append_assoc])] at read
    obtain ⟨_, _, same⟩ := Option.map_eq_some_iff.mp read
    have short := length_unescape (String.ofList front)
    rw [(List.cons.inj same).1, split, String.toList_ofList, length_append, length_cons] at short
    omega
  · rw [readAttributes?_cons name rest quoted rfl, Option.map_eq_some_iff]
    constructor
    · rintro ⟨others, read, same⟩
      obtain ⟨literal, rfl⟩ := List.cons.inj same
      exact ⟨⟨quoted, unescape_eq_self_iff.mp literal⟩, read⟩
    · rintro ⟨plain, read⟩
      exact ⟨values, read, by rw [unescape_eq_self_iff.mpr plain.literal]⟩

end Text

namespace Program

open Text

theorem plain_showLine (line : Option Nat) : Plain (showLine line) := by
  have proper : ∀ c ∈ (showLine line).toList, c.isDigit = true := by
    cases line with
    | none => exact fun _ none => by cases none
    | some n => exact fun _ mem => Numeral.isDigit_of_mem_toString mem
  refine ⟨fun quote => absurd (proper _ quote) (by decide), fun entity mem inside => ?_⟩
  have starts : ∀ entity ∈ entities, '&' ∈ entity.1 := by decide
  exact absurd (proper _ (inside.subset (starts entity mem))) (by decide)

/-- The attribute of a context is always read back, and of a method the signature is. All three
attributes of a method are read back exactly if its file name, which is not escaped, has neither a
quote nor one of the entities in it. -/
theorem readable_iff_plain {program : Program} {m : MethodId} {method : Method}
    (found : program.methods[m]? = some method) :
    (∃ rest, readAttribute? "sign" (" " ++ program.methodAttributes m) =
      some (method.signature, rest)) ∧
    (readAttributes? ["sign", "file", "line"] (" " ++ program.methodAttributes m) =
        some [method.signature, method.file.getD "", showLine method.line] ↔
      Plain (method.file.getD "")) ∧
    ∀ context, readAttributes? ["sites"] (" " ++ Context.attributes program context) =
      some [",".intercalate (context.map program.describeInstruction)] := by
  have text : " " ++ program.methodAttributes m = " " ++ "sign" ++ "=\"" ++
      escape method.signature ++ "\"" ++ (" " ++ "file" ++ "=\"" ++ method.file.getD "" ++ "\"" ++
        (" " ++ "line" ++ "=\"" ++ showLine method.line ++ "\"" ++ "")) := by
    rw [methodAttributes, found]
    simp [← String.toList_inj, String.toList_append]
  have sign := readAttribute?_eq "sign" _ (unquoted_escape _) text
  rw [unescape_escape] at sign
  refine ⟨⟨_, sign⟩, ?_, fun context => ?_⟩
  · rw [text, readAttributes?_escape, Option.map_eq_some_iff]
    simp only [List.cons.injEq, true_and, exists_eq_right, readAttributes?_raw, plain_showLine]
    simp [readAttributes?]
  · have text : " " ++ Context.attributes program context = " " ++ "sites" ++ "=\"" ++
        escape (",".intercalate (context.map program.describeInstruction)) ++ "\"" ++ "" := by
      rw [Context.attributes]
      simp [← String.toList_inj, String.toList_append]
    rw [text, readAttributes?_escape]
    rfl

/-- A signature that is full of markup and even looks escaped is read back. -/
theorem readable_iff_plain_markup :
    let method : Method :=
      { signature := "at<T>:\"&lt;\"&@Map", file := some "Map.java", line := some 12 }
    let program : Program :=
      { methods := [method],
        instructions := [{ method := 0, line := some 13, operation := .other }] }
    program.methods[0]? = some method ∧
    readAttributes? ["sign", "file", "line"] (" " ++ program.methodAttributes 0) =
      some ["at<T>:\"&lt;\"&@Map", "Map.java", "12"] ∧
    readAttributes? ["sites"] (" " ++ Context.attributes program [0, 3]) =
      some ["13@at<T>:\"&lt;\"&@Map,i3"] := by
  intro method program
  have found : program.methods[0]? = some method := rfl
  obtain ⟨_, readable, sites⟩ := readable_iff_plain found
  exact ⟨found, readable.mpr ⟨by decide, by decide +kernel⟩,
    (sites [0, 3]).trans (by decide +kernel)⟩

/-- A quote in a file name ends the attribute early. -/
theorem unreadable_of_quote :
    let program : Program :=
      { methods := [{ signature := "run:()V@T", file := some "A\"B.java", line := some 7 }] }
    program.methodAttributes 0 = "sign=\"run:()V@T\" file=\"A\"B.java\" line=\"7\"" ∧
    readAttributes? ["sign", "file", "line"] (" " ++ program.methodAttributes 0) ≠
      some ["run:()V@T", "A\"B.java", "7"] := by
  decide +kernel

end Program

end ProgramAnalysis
