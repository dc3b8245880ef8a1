import ProgramAnalysis.SortedSet
import ProgramAnalysis.Table

/-!
The keys of a table. Inserting and erasing never make a key occur twice, and then an entry is listed
exactly if it is found under its key, and tables are told apart by their keys and what is found
under them (`ext_of_get?`).
-/

namespace ProgramAnalysis.Table

open List Table

variable {κ β : Type} [DecidableEq κ] {t u : Table κ β} {key : κ} {value : β}

theorem nodup_keys_insert (distinct : t.keys.Nodup) : (t.insert key value).keys.Nodup := by
  rw [keys_insert]
  split
  · exact distinct
  · next fresh =>
    refine nodup_append.mpr ⟨distinct, pairwise_singleton _ _, ?_⟩
    rintro k mem _ last rfl
    exact fresh (mem_singleton.mp last ▸ mem)

theorem nodup_keys_erase (distinct : t.keys.Nodup) : (t.erase key).keys.Nodup := by
  rw [keys_erase]
  exact distinct.filter _

omit [DecidableEq κ] in
theorem nodup_keys_filter (distinct : t.keys.Nodup) (keep : κ × β → Bool) :
    (mk (t.entries.filter keep)).keys.Nodup :=
  distinct.sublist (filter_sublist.map _)

theorem mem_of_find {entries : List (κ × β)} (found : find key entries = some value) :
    (key, value) ∈ entries := by
  induction entries with
  | nil => cases found
  | cons entry rest ih =>
    obtain ⟨k, first⟩ := entry
    rw [find] at found
    split at found
    · next same =>
      cases found
      rw [same]
      exact mem_cons_self
    · exact mem_cons_of_mem _ (ih found)

theorem find_eq_none {entries : List (κ × β)} (absent : key ∉ entries.map (·.1)) :
    find key entries = none := by
  cases answer : find key entries with
  | none => rfl
  | some value => exact absurd (mem_map.mpr ⟨_, mem_of_find answer, rfl⟩) absent

theorem find_of_mem {entries : List (κ × β)} (distinct : (entries.map (·.1)).Nodup)
    (mem : (key, value) ∈ entries) : find key entries = some value := by
  induction entries with
  | nil => cases mem
  | cons entry rest ih =>
    obtain ⟨k, first⟩ := entry
    obtain ⟨apart, distinct⟩ := nodup_cons.mp distinct
    rw [find]
    rcases mem_cons.mp mem with same | later
    · cases same
      rw [if_pos rfl]
    · have other : k ≠ key := by
        rintro rfl
        exact apart (mem_map.mpr ⟨_, later, rfl⟩)
      rw [if_neg other]
      exact ih distinct later

theorem mem_entries_iff (distinct : t.keys.Nodup) :
    (key, value) ∈ t.entries ↔ t.get? key = some value :=
  ⟨find_of_mem distinct, mem_of_find⟩

/-- What is found once only some keys are kept. -/
theorem find_filter (keep : κ → Bool) (key : κ) (entries : List (κ × β)) :
    find key (entries.filter (keep ·.1)) = if keep key then find key entries else none := by
  induction entries with
  | nil => simp [find]
  | cons entry rest ih =>
    obtain ⟨k, value⟩ := entry
    by_cases same : k = key
    · subst same
      cases kept : keep k <;> simp [kept, find, ih]
    · cases kept : keep k <;> simp [kept, find, same, ih]

theorem get?_filter (keep : κ → Bool) (key : κ) (t : Table κ β) :
    (mk (t.entries.filter (keep ·.1))).get? key = if keep key then t.get? key else none :=
  find_filter keep key t.entries

theorem eq_of_find {entries entries' : List (κ × β)} (distinct : (entries.map (·.1)).Nodup)
    (keys : entries.map (·.1) = entries'.map (·.1))
    (found : ∀ key, find key entries = find key entries') : entries = entries' := by
  induction entries generalizing entries' with
  | nil =>
    cases entries' with
    | nil => rfl
    | cons _ _ => cases keys
  | cons entry rest ih =>
    cases entries' with
    | nil => cases keys
    | cons entry' rest' =>
      obtain ⟨k, first⟩ := entry
      obtain ⟨k', first'⟩ := entry'
      obtain ⟨sameKey, sameKeys⟩ : k = k' ∧ rest.map (·.1) = rest'.map (·.1) := List.cons.inj keys
      subst sameKey
      obtain ⟨apart, distinct⟩ := nodup_cons.mp distinct
      have heads : first = first' := by simpa [find] using found k
      have tails : rest = rest' := by
        refine ih distinct sameKeys fun key => ?_
        by_cases same : k = key
        · subst same
          rw [find_eq_none apart, find_eq_none (sameKeys ▸ apart)]
        · simpa [find, same] using found key
      rw [heads, tails]

theorem ext_of_get? (distinct : t.keys.Nodup) (keys : t.keys = u.keys)
    (found : ∀ key, t.get? key = u.get? key) : t = u :=
  congrArg mk (eq_of_find distinct keys found)

theorem erase_insert (absent : key ∉ t.keys) : (t.insert key value).erase key = t := by
  obtain ⟨entries⟩ := t
  refine congrArg mk (show (write key value entries).filter (·.1 ≠ key) = entries from ?_)
  replace absent : key ∉ entries.map (·.1) := absent
  induction entries with
  | nil => simp [write]
  | cons entry rest ih =>
    obtain ⟨k, old⟩ := entry
    obtain ⟨apart, absent⟩ := not_or.mp (mt mem_cons.mpr absent)
    have other : k ≠ key := Ne.symm apart
    rw [write, if_neg other, filter_cons_of_pos (by simpa using other), ih absent]

/-! ### Tables of sets -/

theorem mem_getD_update [Ord β] [Std.LawfulEqOrd β] [Std.TransOrd β] {table : Table κ (SortedSet β)}
    {other : κ} {a b : β} :
    b ∈ ((table.update key .empty (·.insert a)).get? other).getD .empty ↔
      b ∈ (table.get? other).getD .empty ∨ (other = key ∧ b = a) := by
  unfold update
  rw [get?_insert]
  split
  · next same =>
    subst same
    rw [Option.getD_some, SortedSet.mem_insert]
    simp [or_comm]
  · next differs => simp [Ne.symm differs]

end ProgramAnalysis.Table
