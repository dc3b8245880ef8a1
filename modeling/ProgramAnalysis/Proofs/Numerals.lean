import ProgramAnalysis.Proofs.Step
import ProgramAnalysis.Proofs.Text

/-!
Numbers written in decimal and read back. Which words are numerals is said without the reader
(`Spells`), and it accepts exactly these. So the decimal form of a number is read as that number,
alone and in a line of several.
-/

namespace ProgramAnalysis.Numeral

open List Text

/-! ### One number -/

theorem isBlank_of_isDigit {c : Char} (digit : c.isDigit = true) : Text.isBlank c = false := by
  obtain ⟨low, high⟩ : 48 ≤ c.toNat ∧ c.toNat ≤ 57 := by
    rw [Char.isDigit, Bool.and_eq_true, decide_eq_true_iff, decide_eq_true_iff] at digit
    exact digit
  simp only [Text.isBlank, Bool.or_eq_false_iff, Bool.and_eq_false_iff, decide_eq_false_iff_not,
    beq_eq_false_iff_ne]
  omega

theorem isDigit_of_mem_toString {n : Nat} {c : Char} (mem : c ∈ (toString n).toList) :
    c.isDigit = true := by
  rw [Nat.toString_eq_ofList_toDigits, String.toList_ofList] at mem
  exact Nat.isDigit_of_mem_toDigits (by decide) (by decide) mem

theorem toList_toString_ne_nil (n : Nat) : (toString n).toList ≠ [] := by
  rw [Nat.toString_eq_ofList_toDigits, String.toList_ofList]
  exact Nat.toDigits_ne_nil

theorem not_mem_toString {c : Char} (other : c.isDigit = false) (n : Nat) :
    c ∉ (toString n).toList := by
  intro mem
  rw [isDigit_of_mem_toString mem] at other
  cases other

theorem digit?_eq_some {c : Char} {d : Nat} :
    digit? c = some d ↔ c.isDigit = true ∧ c.toNat - '0'.toNat = d := by
  have inside : c.isDigit = true ↔ '0' ≤ c ∧ c ≤ '9' := by
    rw [Char.isDigit, Bool.and_eq_true, decide_eq_true_iff, decide_eq_true_iff]
    rfl
  simp [digit?, inside]

theorem le_ofDigitChars (cs : List Char) (value : Nat) : value ≤ Nat.ofDigitChars 10 cs value := by
  induction cs generalizing value with
  | nil => exact Nat.le_refl value
  | cons c rest ih =>
    rw [Nat.ofDigitChars_cons]
    refine Nat.le_trans ?_ (ih _)
    omega

/-- What is taken up is all digits, and the value stays below the limit. -/
theorem accumulate_eq_ok {limit value n : Nat} {cs : List Char} (below : value < limit) :
    accumulate limit value cs = .ok n ↔
      (∀ c ∈ cs, c.isDigit = true) ∧ Nat.ofDigitChars 10 cs value = n ∧ n < limit := by
  induction cs generalizing value with
  | nil =>
    rw [accumulate, Nat.ofDigitChars_nil, Except.ok.injEq]
    exact ⟨fun same => ⟨nofun, same, same ▸ below⟩, fun all => all.2.1⟩
  | cons c rest ih =>
    rw [accumulate, forall_mem_cons, Nat.ofDigitChars_cons, Nat.mul_comm]
    cases digit : digit? c with
    | none =>
      refine iff_of_false nofun fun all => ?_
      rw [digit?_eq_some.mpr ⟨all.1.1, rfl⟩] at digit
      cases digit
    | some d =>
      obtain ⟨isDigit, rfl⟩ := digit?_eq_some.mp digit
      dsimp only
      by_cases within : 10 * value + (c.toNat - '0'.toNat) < limit
      · rw [if_pos within, ih within, and_iff_right isDigit]
      · rw [if_neg within]
        refine iff_of_false nofun ?_
        rintro ⟨_, rfl, small⟩
        exact within (Nat.lt_of_le_of_lt (le_ofDigitChars rest _) small)

/-- A word is a numeral for a number of 64 bits: digits, and perhaps a plus sign in front. -/
def Spells (word : String) (n : Nat) : Prop :=
  ∃ digits, (word.toList = digits ∨ word.toList = '+' :: digits) ∧ digits ≠ [] ∧
    (∀ c ∈ digits, c.isDigit = true) ∧ Nat.ofDigitChars 10 digits 0 = n ∧ n < sizeLimit

theorem readSize_eq_ok {word : String} {n : Nat} : readSize word = .ok n ↔ Spells word n := by
  have start : 0 < sizeLimit := by decide
  show readChars sizeLimit word.toList = .ok n ↔ _
  constructor
  · intro reading
    unfold readChars at reading
    split at reading
    · cases reading
    · cases reading
    · next digits alone signed =>
      refine ⟨digits, .inr signed, ?_, (accumulate_eq_ok start).mp reading⟩
      rintro rfl
      exact alone rfl
    · next some _ _ => exact ⟨_, .inl rfl, some, (accumulate_eq_ok start).mp reading⟩
  · rintro ⟨digits, form, some, proper, value⟩
    have accumulated := (accumulate_eq_ok start).mpr ⟨proper, value⟩
    have unsigned : '+' ∉ digits := fun sign => absurd (proper '+' sign) (by decide)
    rcases form with plain | signed
    · rw [plain]
      unfold readChars
      split
      · exact absurd rfl some
      · exact absurd mem_cons_self unsigned
      · exact absurd mem_cons_self unsigned
      · exact accumulated
    · rw [signed]
      unfold readChars
      split
      · next none => cases none
      · next only => cases only; exact absurd rfl some
      · next same => cases same; exact accumulated
      · next plain => exact absurd rfl (plain _)

theorem spells_toString {n m : Nat} : Spells (toString n) m ↔ m = n ∧ n < sizeLimit := by
  have value : Nat.ofDigitChars 10 (toString n).toList 0 = n := by
    rw [Nat.toString_eq_ofList_toDigits, String.toList_ofList, Nat.ofDigitChars_ten_toDigits]
  constructor
  · rintro ⟨digits, rfl | signed, _, _, rfl, small⟩
    · rw [value] at small ⊢
      exact ⟨rfl, small⟩
    · exact absurd (signed ▸ mem_cons_self) (not_mem_toString (by decide) n)
  · rintro ⟨rfl, small⟩
    exact ⟨_, .inl rfl, toList_toString_ne_nil m, fun c => isDigit_of_mem_toString, value, small⟩

theorem readSize_toString {n : Nat} (below : n < sizeLimit) : readSize (toString n) = .ok n :=
  readSize_eq_ok.mpr (spells_toString.mpr ⟨rfl, below⟩)

/-! ### Several numbers -/

/-- Numbers with a blank between them. -/
def listed (numbers : List Nat) : String := " ".intercalate (numbers.map toString)

variable {numbers : List Nat} {c : Char}

theorem toList_listed (numbers : List Nat) :
    (listed numbers).toList = [' '].intercalate (numbers.map fun n => (toString n).toList) := by
  unfold listed
  rw [String.toList_intercalate, map_map]
  rfl

theorem proper_numerals {word : List Char} (mem : word ∈ numbers.map fun n => (toString n).toList) :
    word ≠ [] ∧ ∀ c ∈ word, c.isDigit = true := by
  obtain ⟨n, _, rfl⟩ := mem_map.mp mem
  exact ⟨toList_toString_ne_nil n, fun c => isDigit_of_mem_toString⟩

theorem words_listed (numbers : List Nat) : Text.words (listed numbers) = numbers.map toString := by
  unfold Text.words
  rw [toList_listed, wordsChars_intercalate, map_map]
  · refine map_congr_left fun n _ => ?_
    rw [Function.comp_apply, String.ofList_toList]
  · intro word mem
    obtain ⟨some, digits⟩ := proper_numerals mem
    exact ⟨some, fun c inWord => isBlank_of_isDigit (digits c inWord)⟩

theorem not_mem_listed (noDigit : c.isDigit = false) (noBlank : c ≠ ' ') :
    c ∉ (listed numbers).toList := by
  rw [toList_listed]
  intro mem
  rcases mem_of_mem_intercalate mem with blank | ⟨word, among, inWord⟩
  · exact noBlank blank
  · rw [(proper_numerals among).2 c inWord] at noDigit
    cases noDigit

theorem isDigit_of_head?_listed (first : (listed numbers).toList.head? = some c) :
    c.isDigit = true := by
  rw [toList_listed] at first
  obtain ⟨word, among, inWord⟩ := mem_word_of_head? (fun _ mem => (proper_numerals mem).1) first
  exact (proper_numerals among).2 c inWord

theorem isDigit_of_getLast?_listed (last : (listed numbers).toList.getLast? = some c) :
    c.isDigit = true := by
  rw [toList_listed] at last
  obtain ⟨word, among, inWord⟩ := mem_word_of_getLast? (fun _ mem => (proper_numerals mem).1) last
  exact (proper_numerals among).2 c inWord

theorem trim_listed (numbers : List Nat) : Text.trim (listed numbers) = listed numbers := by
  unfold Text.trim
  rw [trimChars_eq_self, String.ofList_toList]
  · exact fun c first => isBlank_of_isDigit (isDigit_of_head?_listed first)
  · exact fun c last => isBlank_of_isDigit (isDigit_of_getLast?_listed last)

theorem listed_ne_empty (some : numbers ≠ []) : listed numbers ≠ "" := by
  intro none
  have words : (numbers.map fun n => (toString n).toList) ≠ [] := fun none =>
    some (map_eq_nil_iff.mp none)
  refine intercalate_ne_nil words (fun _ mem => (proper_numerals mem).1) ?_
  rw [← toList_listed, none]
  rfl

theorem mapM_readSize (below : ∀ n ∈ numbers, n < sizeLimit) :
    (numbers.map toString).mapM (fun word => (readSize word).mapError Fault.numeral) =
      .ok numbers :=
  mapM_map_eq_ok fun n mem => mapError_eq_ok.mpr (readSize_toString (below n mem))

theorem oneLine_listed (numbers : List Nat) : Text.OneLine (listed numbers) :=
  ⟨not_mem_listed (by decide) (by decide), fun last =>
    absurd (isDigit_of_getLast?_listed last) (by decide)⟩

theorem listed_singleton (n : Nat) : listed [n] = toString n := String.intercalate_singleton

end ProgramAnalysis.Numeral
