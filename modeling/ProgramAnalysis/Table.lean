/-!
Finite tables from keys to values.
-/

namespace ProgramAnalysis

/-- A finite map as the list of its entries. -/
structure Table (κ β : Type) where
  entries : List (κ × β)
  deriving DecidableEq, Inhabited

namespace Table

variable {κ β : Type}

def empty : Table κ β := ⟨[]⟩

def keys (t : Table κ β) : List κ := t.entries.map (·.1)

def values (t : Table κ β) : List β := t.entries.map (·.2)

def isEmpty (t : Table κ β) : Bool := t.entries.isEmpty

variable [DecidableEq κ]

def find (key : κ) : List (κ × β) → Option β
  | [] => none
  | (k, value) :: rest => if k = key then some value else find key rest

def get? (t : Table κ β) (key : κ) : Option β := find key t.entries

def contains (t : Table κ β) (key : κ) : Bool := (t.get? key).isSome

def write (key : κ) (value : β) : List (κ × β) → List (κ × β)
  | [] => [(key, value)]
  | (k, old) :: rest => if k = key then (k, value) :: rest else (k, old) :: write key value rest

def insert (key : κ) (value : β) (t : Table κ β) : Table κ β := ⟨write key value t.entries⟩

def erase (key : κ) (t : Table κ β) : Table κ β := ⟨t.entries.filter (·.1 ≠ key)⟩

/-- The table with a function applied to the value of a key, if there is one. -/
def adjust (key : κ) (f : β → β) (t : Table κ β) : Table κ β :=
  ⟨t.entries.map fun entry => if entry.1 = key then (entry.1, f entry.2) else entry⟩

/-- The table with a function applied to the value of a key, `start` standing in for a missing
value. -/
def update (key : κ) (start : β) (f : β → β) (t : Table κ β) : Table κ β :=
  t.insert key (f ((t.get? key).getD start))

def ofList (entries : List (κ × β)) : Table κ β :=
  entries.foldl (fun t entry => t.insert entry.1 entry.2) empty

/-! ### Reading -/

theorem mem_values_of_get? {t : Table κ β} {key : κ} {value : β} (found : t.get? key = some value) :
    value ∈ t.values := by
  obtain ⟨entries⟩ := t
  simp only [get?, values] at *
  induction entries with
  | nil => simp [find] at found
  | cons entry rest ih =>
    obtain ⟨k, first⟩ := entry
    rw [find] at found
    split at found
    · cases found
      simp
    · exact List.mem_cons_of_mem _ (ih found)

/-! ### Reading after writing -/

theorem find_write (key other : κ) (value : β) (entries : List (κ × β)) :
    find other (write key value entries) =
      if key = other then some value else find other entries := by
  induction entries with
  | nil => simp [write, find]
  | cons entry rest ih =>
    obtain ⟨k, old⟩ := entry
    by_cases written : k = key
    · subst written
      by_cases same : k = other <;> simp [write, find, same]
    · by_cases same : k = other
      · subst same
        simp [write, find, written, Ne.symm written]
      · simp [write, find, written, same, ih]

@[simp] theorem get?_insert (key other : κ) (value : β) (t : Table κ β) :
    (t.insert key value).get? other = if key = other then some value else t.get? other :=
  find_write key other value t.entries

theorem find_filter_ne (key other : κ) (entries : List (κ × β)) :
    find other (entries.filter (·.1 ≠ key)) =
      if key = other then none else find other entries := by
  induction entries with
  | nil => simp [find]
  | cons entry rest ih =>
    obtain ⟨k, value⟩ := entry
    by_cases removed : k = key
    · subst removed
      by_cases same : k = other
      · simpa [find, same] using ih
      · simpa [find, same] using ih
    · by_cases same : k = other
      · subst same
        simp [find, removed, Ne.symm removed]
      · simpa [find, removed, same] using ih

@[simp] theorem get?_erase (key other : κ) (t : Table κ β) :
    (t.erase key).get? other = if key = other then none else t.get? other :=
  find_filter_ne key other t.entries

@[simp] theorem get?_adjust (key other : κ) (f : β → β) (t : Table κ β) :
    (t.adjust key f).get? other = if key = other then (t.get? other).map f else t.get? other := by
  obtain ⟨entries⟩ := t
  simp only [adjust, get?]
  induction entries with
  | nil => simp [find]
  | cons entry rest ih =>
    obtain ⟨k, value⟩ := entry
    rw [List.map_cons]
    by_cases here : k = key
    · subst here
      by_cases same : k = other
      · simp [find, same]
      · simp only [if_true, find, if_neg same, ih]
    · by_cases same : k = other
      · subst same
        simp [find, here, Ne.symm here]
      · simp only [if_neg here, find, if_neg same, ih]

/-! ### Keys -/

variable {t : Table κ β} {key : κ}

theorem mem_keys_iff : key ∈ t.keys ↔ (t.get? key).isSome = true := by
  obtain ⟨entries⟩ := t
  show key ∈ entries.map (·.1) ↔ (find key entries).isSome = true
  induction entries with
  | nil => simp [find]
  | cons entry rest ih =>
    obtain ⟨k, value⟩ := entry
    rw [find, List.map_cons, List.mem_cons, ih]
    by_cases same : k = key
    · simp [same]
    · simp [same, Ne.symm same]

theorem keys_write (key : κ) (value : β) (entries : List (κ × β)) :
    (write key value entries).map (·.1) =
      if key ∈ entries.map (·.1) then entries.map (·.1) else entries.map (·.1) ++ [key] := by
  induction entries with
  | nil => rfl
  | cons entry rest ih =>
    obtain ⟨k, old⟩ := entry
    by_cases same : k = key
    · simp [write, same]
    · simp only [write, if_neg same, List.map_cons, List.mem_cons, ih, Ne.symm same, false_or]
      split <;> rfl

theorem keys_insert (key : κ) (value : β) (t : Table κ β) :
    (t.insert key value).keys = if key ∈ t.keys then t.keys else t.keys ++ [key] :=
  keys_write key value t.entries

theorem keys_erase (key : κ) (t : Table κ β) : (t.erase key).keys = t.keys.filter (· ≠ key) := by
  rw [keys, erase, keys, List.filter_map]
  rfl

theorem keys_adjust (key : κ) (f : β → β) (t : Table κ β) : (t.adjust key f).keys = t.keys := by
  rw [keys, adjust, List.map_map]
  refine List.map_congr_left fun entry _ => ?_
  show (if entry.1 = key then (entry.1, f entry.2) else entry).1 = entry.1
  split <;> rfl

theorem keys_update {start : β} {f : β → β} (known : key ∈ t.keys) :
    (t.update key start f).keys = t.keys := by
  rw [update, keys_insert, if_pos known]

end Table

end ProgramAnalysis
