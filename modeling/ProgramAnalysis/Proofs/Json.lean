import ProgramAnalysis.Json.Decode
import Mathlib.Logic.Relation

/-!
Other ways to write a JSON value, and readers that do not tell them from the first. A spelling may
put the members of objects in another order and leave out those with their default (`Respells`). A
reader is stable if it answers alike for all spellings, and readers that are made of stable ones are
stable, records among them.
-/

namespace ProgramAnalysis.Json

open List

/-! ### Other ways to write a value -/

/-- The value a field stands for when it is left out, unless it is an option. -/
def default? : String → Option Json
  | "is_static" | "is_class_initializer" | "is_abstract" => some (bool false)
  | "variables" | "instructions" | "methods" | "fields" | "types" => some (array [])
  | _ => none

/-- A member that may be left out. -/
def Omissible (key : String) (value : Json) : Prop := value = null ∨ default? key = some value

/-- One change to the way a value is written: somewhere inside, the members of an object change
places, or one of them is left out. -/
inductive Respells : Json → Json → Prop where
  | reorder {members members' : List (String × Json)} :
      members.Perm members' → Respells (object members) (object members')
  | leaveOut (front : List (String × Json)) {key : String} {value : Json}
      (back : List (String × Json)) : Omissible key value →
      Respells (object (front ++ (key, value) :: back)) (object (front ++ back))
  | item (front : List Json) {value value' : Json} (back : List Json) : Respells value value' →
      Respells (array (front ++ value :: back)) (array (front ++ value' :: back))
  | member (front : List (String × Json)) (key : String) {value value' : Json}
      (back : List (String × Json)) : Respells value value' →
      Respells (object (front ++ (key, value) :: back)) (object (front ++ (key, value') :: back))

variable {α β : Type} {value value' : Json} {members members' : List (String × Json)}
  {names : List String} {name : String}

theorem Respells.of_object (respells : Respells (object members) value) :
    ∃ members', value = object members' := by
  cases respells <;> exact ⟨_, rfl⟩

/-- A change shows among the members with some of the keys as a change, or not at all. -/
theorem Respells.filter (respells : Respells (object members) (object members'))
    (keep : String → Bool) :
    members'.filter (keep ·.1) = members.filter (keep ·.1) ∨
      Respells (object (members.filter (keep ·.1))) (object (members'.filter (keep ·.1))) := by
  cases respells with
  | reorder same => exact .inr (.reorder (same.filter _))
  | leaveOut front back may =>
    rename_i key value
    cases kept : keep key
    · exact .inl (by simp [kept])
    · simp only [filter_append, filter_cons, kept, if_true]
      exact .inr (.leaveOut _ _ may)
  | member front key back inside =>
    cases kept : keep key
    · exact .inl (by simp [kept])
    · simp only [filter_append, filter_cons, kept, if_true]
      exact .inr (.member _ _ _ inside)

/-! ### Limits -/

/-- The limits of a value that can be buffered. -/
def Within (bound : Nat) (value : Json) : Prop := value.isPlain = true ∧ value.depth ≤ bound

theorem within_array : Within (bound + 1) (array items) ↔ ∀ item ∈ items, Within bound item := by
  rw [Within, isPlain, depth, Nat.add_le_add_iff_right]
  induction items with
  | nil => simp [plainItems, depthItems]
  | cons item rest ih =>
    rw [forall_mem_cons, ← ih, plainItems, depthItems, Within, Bool.and_eq_true, Nat.max_le]
    exact and_and_and_comm

theorem within_object :
    Within (bound + 1) (object members) ↔ ∀ member ∈ members, Within bound member.2 := by
  rw [Within, isPlain, depth, Nat.add_le_add_iff_right]
  induction members with
  | nil => simp [plainMembers, depthMembers]
  | cons member rest ih =>
    rw [forall_mem_cons, ← ih, plainMembers, depthMembers, Within, Bool.and_eq_true, Nat.max_le]
    exact and_and_and_comm

theorem Respells.within (respells : Respells value value') (within : Within bound value) :
    Within bound value' := by
  -- An array or object keeps no bound of zero.
  induction respells generalizing bound <;> rcases bound with _ | bound <;>
    try exact absurd within.2 (Nat.not_succ_le_zero _)
  case reorder.succ same =>
    rw [within_object] at within ⊢
    exact fun member mem => within member (same.mem_iff.mpr mem)
  case leaveOut.succ may =>
    simp only [within_object, forall_mem_append, forall_mem_cons] at within ⊢
    exact ⟨within.1, within.2.2⟩
  all_goals
    rename_i ih
    simp only [within_object, within_array, forall_mem_append, forall_mem_cons] at within ⊢
    exact ⟨within.1, ih within.2.1, within.2.2⟩

/-! ### Stable readers -/

/-- A reader that makes the same of a value however it is written. -/
def Stable (read? : Json → Option α) : Prop :=
  ∀ ⦃value value' a⦄, Respells value value' → read? value = some a → read? value' = some a

theorem stable_of_leaf {read? : Json → Option α} (noItems : ∀ items, read? (array items) = none)
    (noMembers : ∀ members, read? (object members) = none) : Stable read? := by
  intro value value' a respells read
  cases respells <;> simp [noItems, noMembers] at read

theorem stable_string? : Stable string? := stable_of_leaf (fun _ => rfl) (fun _ => rfl)

theorem stable_bool? : Stable bool? := stable_of_leaf (fun _ => rfl) (fun _ => rfl)

theorem stable_size? : Stable size? := stable_of_leaf (fun _ => rfl) (fun _ => rfl)

theorem stable_word32? : Stable word32? := stable_of_leaf (fun _ => rfl) (fun _ => rfl)

theorem Stable.list? (stable : Stable item?) : Stable (list? item?) := by
  intro value value' all respells read
  cases respells with
  | item front back inside =>
    simp only [Json.list?, mapM_append, mapM_cons, Option.bind_eq_bind,
      Option.bind_eq_some_iff] at read ⊢
    obtain ⟨before, readFront, tail, ⟨a, readItem, after, readBack⟩, done⟩ := read
    exact ⟨before, readFront, tail, ⟨a, stable inside readItem, after, readBack⟩, done⟩
  | reorder | leaveOut | member => cases read

theorem Stable.nullable? (stable : Stable value?) : Stable (nullable? value?) := by
  intro value value' all respells read
  have written : ∀ {value}, value ≠ null → Json.nullable? value? value =
      (value? value).map some := by
    intro value some
    cases value <;> first | rfl | exact absurd rfl some
  rw [written (by rintro rfl; cases respells)] at read
  rw [written (by rintro rfl; cases respells)]
  obtain ⟨a, reads, rfl⟩ := Option.map_eq_some_iff.mp read
  rw [stable respells reads, Option.map_some]

/-! ### Records -/

/-- What a change to a record does to its fields. -/
def Record.Respells (names : List String) (record record' : Record) : Prop :=
  record'.positional = record.positional ∧ ∀ name ∈ names,
    record'.field? name = record.field? name ∨
      (∃ value value', record.field? name = some value ∧ record'.field? name = some value' ∧
        Json.Respells value value') ∨
      ∃ value, record.field? name = some value ∧ record'.field? name = none ∧
        record.positional = false ∧ Omissible name value

theorem underKey_append (front back : List (String × Json)) :
    underKey name (front ++ back) = underKey name front ++ underKey name back := by
  simp [underKey]

theorem underKey_cons (key : String) (value : Json) (rest : List (String × Json)) :
    underKey name ((key, value) :: rest) =
      if key = name then value :: underKey name rest else underKey name rest := by
  by_cases same : key = name <;> simp [underKey, same]

/-- What a change does to a field that is written at most once. -/
theorem Respells.underKey (respells : Respells (object members) (object members'))
    (once : (underKey name members).length ≤ 1) :
    underKey name members' = underKey name members ∨
      (∃ value value', underKey name members = [value] ∧ underKey name members' = [value'] ∧
        Respells value value') ∨
      ∃ value, underKey name members = [value] ∧ underKey name members' = [] ∧
        Omissible name value := by
  have single : ∀ {front back : List Json} {value : Json},
      (front ++ value :: back).length ≤ 1 → front = [] ∧ back = [] := by
    intro front back value
    simp only [length_append, length_cons, ← length_eq_zero_iff]
    omega
  cases respells with
  | reorder same =>
    have same := (same.filter (·.1 = name)).map (·.2)
    change (Json.underKey name members).Perm (Json.underKey name members') at same
    left
    rcases Nat.le_one_iff_eq_zero_or_eq_one.mp once with none | one
    · rw [length_eq_zero_iff.mp none] at same ⊢
      exact same.symm.eq_nil
    · obtain ⟨value, written⟩ := length_eq_one_iff.mp one
      rw [written] at same ⊢
      exact same.symm.eq_singleton
  | leaveOut front back may =>
    rename_i key value
    simp only [underKey_append, underKey_cons] at once ⊢
    split at once
    · next same =>
      obtain ⟨noFront, noBack⟩ := single once
      exact .inr (.inr ⟨value, by simp [same, noFront, noBack], by simp [noFront, noBack],
        same ▸ may⟩)
    · next other => exact .inl (by rw [if_neg other])
  | member front key back inside =>
    rename_i value value'
    simp only [underKey_append, underKey_cons] at once ⊢
    split at once
    · next same =>
      obtain ⟨noFront, noBack⟩ := single once
      exact .inr (.inl ⟨value, value', by simp [same, noFront, noBack],
        by simp [same, noFront, noBack], inside⟩)
    · next other => exact .inl (by simp only [if_neg other])

theorem lookup_zip_append_cons (front back : List Json) :
    (names.zip (front ++ value' :: back)).lookup name =
        (names.zip (front ++ value :: back)).lookup name ∨
      (names.zip (front ++ value :: back)).lookup name = some value ∧
        (names.zip (front ++ value' :: back)).lookup name = some value' := by
  induction front generalizing names with
  | nil =>
    cases names with
    | nil => exact .inl rfl
    | cons first rest => by_cases same : name == first <;> simp [lookup_cons, same]
  | cons item front ih =>
    cases names with
    | nil => exact .inl rfl
    | cons first rest => by_cases same : name == first <;> simp [lookup_cons, same, ih]

theorem Respells.record? (respells : Respells value value')
    (read : value.record? names = some record) :
    ∃ record', value'.record? names = some record' ∧ record.Respells names record' := by
  cases value with
  | object members =>
    obtain ⟨members', rfl⟩ := respells.of_object
    simp only [Json.record?, Option.ite_none_left_eq_some, Option.some.injEq, any_eq_true,
      decide_eq_true_eq, not_exists, not_and, Nat.not_lt] at read ⊢
    obtain ⟨once, rfl⟩ := read
    refine ⟨_, ⟨fun name mem => ?_, rfl⟩, rfl, fun name mem => ?_⟩
    · rcases respells.underKey (once name mem) with same | ⟨_, _, _, now, _⟩ | ⟨_, _, now, _⟩
      · exact same ▸ once name mem
      all_goals simp [now]
    · rcases respells.underKey (once name mem) with
        same | ⟨value, value', was, now, inside⟩ | ⟨value, was, now, may⟩
      · exact .inl (congrArg head? same)
      · exact .inr (.inl ⟨value, value', congrArg head? was, congrArg head? now, inside⟩)
      · exact .inr (.inr ⟨value, congrArg head? was, congrArg head? now, rfl, may⟩)
  | array items =>
    cases respells with
    | item front back inside =>
      simp only [Json.record?, Option.ite_none_left_eq_some, Option.some.injEq, length_append,
        length_cons] at read ⊢
      obtain ⟨fits, rfl⟩ := read
      refine ⟨_, ⟨fits, rfl⟩, rfl, fun name _ => ?_⟩
      rcases lookup_zip_append_cons front back with same | ⟨was, now⟩
      · exact .inl same
      · exact .inr (.inl ⟨_, _, was, now, inside⟩)
  | _ => cases respells

namespace Record

/-- A reader of a record that makes the same of it however it is written. -/
def Stable (names : List String) (read : Record → Option α) : Prop :=
  ∀ ⦃record record' a⦄, record.Respells names record' → read record = some a → read record' = some a

theorem stable_pure (a : α) : Stable names fun _ => pure a := fun _ _ _ _ read => read

theorem Stable.bind {next : α → Record → Option β} (stable : Stable names first)
    (rest : ∀ a, Stable names (next a)) :
    Stable names fun record => first record >>= fun a => next a record := by
  intro record record' b respells read
  obtain ⟨a, got, read⟩ := Option.bind_eq_some_iff.mp read
  exact Option.bind_eq_some_iff.mpr ⟨a, stable respells got, rest a respells read⟩

variable {value? : Json → Option α}

theorem stable_required? (known : name ∈ names) (stable : Json.Stable value?)
    (noDefault : default? name = none) (notNull : value? null = none) :
    Stable names (·.required? name value?) := by
  intro record record' a respells read
  obtain ⟨value, written, read⟩ := Option.bind_eq_some_iff.mp read
  apply Option.bind_eq_some_iff.mpr
  rcases respells.2 name known with
    same | ⟨_, value', was, now, inside⟩ | ⟨_, was, _, _, may⟩
  · exact ⟨value, same ▸ written, read⟩
  · cases was.symm.trans written
    exact ⟨value', now, stable inside read⟩
  · cases was.symm.trans written
    rcases may with rfl | is
    · cases notNull.symm.trans read
    · cases noDefault.symm.trans is

theorem stable_withDefault? {default : α} (known : name ∈ names) (stable : Json.Stable value?)
    (omitted : ∀ value a, Omissible name value → value? value = some a → a = default) :
    Stable names (·.withDefault? name default value?) := by
  intro record record' a respells read
  simp only [withDefault?] at read ⊢
  rcases respells.2 name known with
    same | ⟨_, value', was, now, inside⟩ | ⟨_, was, now, _, may⟩
  · rw [same]; exact read
  · rw [was] at read; rw [now]
    exact stable inside read
  · rw [was] at read; rw [now]
    rw [omitted _ _ may read]

theorem omitted_option (noDefault : default? name = none) (value : Json) (a : Option α)
    (may : Omissible name value) (read : nullable? value? value = some a) : a = none := by
  rcases may with rfl | is
  · exact (Option.some.inj read).symm
  · cases noDefault.symm.trans is

/-- A field that is left out for an option. -/
theorem stable_option (known : name ∈ names) (stable : Json.Stable value?)
    (noDefault : default? name = none) :
    Stable names (·.withDefault? name none (nullable? value?)) :=
  stable_withDefault? known stable.nullable? (omitted_option noDefault)

theorem stable_flag (known : name ∈ names) (unset : default? name = some (bool false)) :
    Stable names (·.withDefault? name false bool?) := by
  refine stable_withDefault? known stable_bool? ?_
  rintro value a (rfl | is) read
  · cases read
  · cases unset.symm.trans is
    exact (Option.some.inj read).symm

theorem stable_items (known : name ∈ names) (stable : Json.Stable value?)
    (empty : default? name = some (array [])) :
    Stable names (·.withDefault? name [] (list? value?)) := by
  refine stable_withDefault? known stable.list? ?_
  rintro value a (rfl | is) read
  · cases read
  · cases empty.symm.trans is
    exact (Option.some.inj read).symm

theorem stable_optional? (known : name ∈ names) (stable : Json.Stable value?)
    (noDefault : default? name = none) : Stable names (·.optional? name value?) := by
  intro record record' a respells read
  simp only [optional?] at read ⊢
  rcases respells.2 name known with
    same | ⟨_, value', was, now, inside⟩ | ⟨_, was, now, object, may⟩
  · rw [same, respells.1]; exact read
  · rw [was] at read; rw [now]
    exact stable.nullable? inside read
  · rw [was] at read; rw [now]
    rw [omitted_option noDefault _ _ may read, respells.1, object]
    rfl

end Record

theorem stable_record {read : Record → Option α} (stable : Record.Stable names read) :
    Stable fun value => value.record? names >>= read := by
  intro value value' a respells got
  obtain ⟨record, got, read⟩ := Option.bind_eq_some_iff.mp got
  obtain ⟨record', got', inside⟩ := respells.record? got
  exact Option.bind_eq_some_iff.mpr ⟨record', got', stable inside read⟩

/-! ### Reading what was written -/

theorem underKey_eq (distinct : (members.map (·.1)).Nodup) (name : String) :
    underKey name members = (members.lookup name).toList := by
  induction members with
  | nil => rfl
  | cons member rest ih =>
    rw [map_cons, nodup_cons] at distinct
    rw [underKey_cons, ih distinct.2, lookup_cons]
    by_cases same : member.1 = name
    · have absent : rest.lookup name = none := by
        rw [lookup_eq_none_iff]
        rintro ⟨key, value⟩ mem
        exact bne_iff_ne.mpr fun is => distinct.1 (mem_map.mpr ⟨_, mem, is.symm.trans same.symm⟩)
      simp [same, absent]
    · simp [same, beq_false_of_ne (Ne.symm same)]

theorem record?_object (distinct : (members.map (·.1)).Nodup) :
    record? names (object members) = some ⟨fun name => members.lookup name, false⟩ := by
  have once : ∀ name, ¬ (members.lookup name).toList.length > 1 := by
    intro name
    cases members.lookup name <;> simp
  simp [record?, underKey_eq distinct, once]

theorem natBelow?_ofNat (fits : n < limit) : (ofNat n).natBelow? limit = some n := by
  simp [natBelow?, ofNat, fits]

theorem nullable?_ofOption {read? : Json → Option α} (isValue : read? null = none)
    (reads : ∀ b ∈ a, read? (write b) = some b) : nullable? read? (ofOption write a) = some a := by
  cases a with
  | none => rfl
  | some b =>
    have read := reads b rfl
    simp only [ofOption]
    cases written : write b with
    | null => rw [written, isValue] at read; cases read
    | _ => rw [written] at read; simp [nullable?, read]

theorem list?_ofList {read? : Json → Option α} (reads : ∀ a ∈ l, read? (write a) = some a) :
    list? read? (ofList write l) = some l := by
  simp only [list?, ofList]
  induction l with
  | nil => rfl
  | cons a rest ih =>
    rw [forall_mem_cons] at reads
    simp [reads.1, ih reads.2]

end ProgramAnalysis.Json
