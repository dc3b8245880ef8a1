import ProgramAnalysis.Domain

/-!
How a domain numbers its elements: what adding does to membership, order and indices, for one
element and for many. A dense domain numbers different elements by all indices below its size
(`Dense`), and adding keeps it dense.
-/

namespace ProgramAnalysis

open List

theorem mem_range_zip {α : Type} {items : List α} {i : Nat} {a : α} :
    (i, a) ∈ (List.range items.length).zip items ↔ items[i]? = some a := by
  rw [mem_iff_getElem?]
  constructor
  · rintro ⟨j, found⟩
    obtain ⟨first, second⟩ := getElem?_zip_eq_some.mp found
    obtain ⟨_, rfl⟩ := List.getElem?_eq_some_iff.mp first
    rwa [getElem_range]
  · intro found
    obtain ⟨below, _⟩ := List.getElem?_eq_some_iff.mp found
    exact ⟨i, getElem?_zip_eq_some.mpr ⟨getElem?_range below, found⟩⟩

namespace Domain

variable {kind : ElementKind} {domain : Domain kind} {elem : kind.Elem} {i : Nat}

theorem getElem?_of_idxOf? {elements : List kind.Elem} (found : elements.idxOf? elem = some i) :
    elements[i]? = some elem := by
  obtain ⟨below, same, _⟩ := findIdx?_eq_some_iff_getElem.mp found
  rw [getElem?_eq_getElem below, eq_of_beq same]

theorem not_mem_of_idxOf? {elements : List kind.Elem} (missing : elements.idxOf? elem = none) :
    elem ∉ elements := by
  intro mem
  have differs := findIdx?_eq_none_iff.mp missing elem mem
  rw [beq_self_eq_true] at differs
  cases differs

/-- Where elements differ, the index of one is the only place where it stands. -/
theorem idxOf?_eq_some_iff {elements : List kind.Elem} (distinct : elements.Nodup) :
    elements.idxOf? elem = some i ↔ elements[i]? = some elem := by
  constructor
  · exact getElem?_of_idxOf?
  · intro found
    cases answer : elements.idxOf? elem with
    | none => exact absurd (mem_of_getElem? found) (not_mem_of_idxOf? answer)
    | some j =>
      have same := (getElem?_of_idxOf? answer).trans found.symm
      obtain ⟨below, _⟩ := List.getElem?_eq_some_iff.mp (getElem?_of_idxOf? answer)
      rw [(getElem?_inj below distinct).mp same]

theorem indexOf_eq_ok : domain.indexOf elem = .ok answer ↔
      domain.filled = true ∧ domain.elements.idxOf? elem = answer := by
  unfold indexOf
  split
  · next filled => simp [filled]
  · next unfilled => simp [unfilled]

theorem element_eq_ok :
    domain.element i = .ok found ↔ domain.filled = true ∧ domain.elements[i]? = some found := by
  unfold Domain.element
  split
  · next filled =>
    cases domain.elements[i]? with
    | none => simp
    | some other => simp [filled]
  · next unfilled => simp [unfilled]

theorem mem_indexed : (i, elem) ∈ domain.indexed ↔ domain.elements[i]? = some elem := mem_range_zip

/-! ### Adding elements -/

theorem add_of_mem (mem : elem ∈ domain.elements) : ∃ i, domain.elements[i]? = some elem ∧
      domain.add elem = ({ domain with filled := true }, i) := by
  unfold add
  cases answer : domain.elements.idxOf? elem with
  | none => exact absurd mem (not_mem_of_idxOf? answer)
  | some i => exact ⟨i, getElem?_of_idxOf? answer, rfl⟩

theorem add_of_not_mem (missing : elem ∉ domain.elements) : domain.add elem =
      ({ domain with elements := domain.elements ++ [elem], filled := true }, domain.size) := by
  unfold add
  cases answer : domain.elements.idxOf? elem with
  | none => rfl
  | some i => exact absurd (mem_of_getElem? (getElem?_of_idxOf? answer)) missing

theorem mem_add :
    other ∈ (domain.add elem).1.elements ↔ other ∈ domain.elements ∨ other = elem := by
  by_cases mem : elem ∈ domain.elements
  · obtain ⟨i, _, added⟩ := add_of_mem mem
    rw [added]
    exact ⟨.inl, fun either => either.elim id fun same => same ▸ mem⟩
  · rw [add_of_not_mem mem, mem_append, mem_singleton]

theorem nodup_append_singleton {elements : List kind.Elem} (distinct : elements.Nodup)
    (fresh : elem ∉ elements) : (elements ++ [elem]).Nodup := by
  refine nodup_append.mpr ⟨distinct, by simp, fun other old same new => ?_⟩
  rw [mem_singleton.mp new]
  rintro rfl
  exact fresh old

theorem nodup_add (distinct : domain.elements.Nodup) : (domain.add elem).1.elements.Nodup := by
  by_cases mem : elem ∈ domain.elements
  · obtain ⟨i, _, added⟩ := add_of_mem mem
    rwa [added]
  · rw [add_of_not_mem mem]
    exact nodup_append_singleton distinct mem

theorem prefix_add : domain.elements <+: (domain.add elem).1.elements := by
  by_cases mem : elem ∈ domain.elements
  · obtain ⟨i, _, added⟩ := add_of_mem mem
    refine ⟨[], ?_⟩
    rw [added, append_nil]
  · rw [add_of_not_mem mem]
    exact prefix_append _ _

theorem name_add : (domain.add elem).1.name = domain.name := by
  unfold add
  split <;> rfl

/-! ### Adding many -/

theorem mem_addAll {elements : List kind.Elem} :
    other ∈ (domain.addAll elements).elements ↔ other ∈ domain.elements ∨ other ∈ elements := by
  induction elements generalizing domain with
  | nil => simp [addAll]
  | cons elem rest ih =>
    show other ∈ ((domain.add elem).1.addAll rest).elements ↔ _
    rw [ih, mem_add, mem_cons, or_assoc]

theorem nodup_addAll {elements : List kind.Elem} (distinct : domain.elements.Nodup) :
    (domain.addAll elements).elements.Nodup := by
  induction elements generalizing domain with
  | nil => exact distinct
  | cons elem rest ih => exact ih (nodup_add distinct)

theorem prefix_addAll {elements : List kind.Elem} :
    domain.elements <+: (domain.addAll elements).elements := by
  induction elements generalizing domain with
  | nil => exact prefix_rfl
  | cons elem rest ih => exact prefix_add.trans ih

theorem name_addAll {elements : List kind.Elem} : (domain.addAll elements).name = domain.name := by
  induction elements generalizing domain with
  | nil => rfl
  | cons elem rest ih =>
    show ((domain.add elem).1.addAll rest).name = domain.name
    rw [ih, name_add]

section OfList

variable {name : String} {elements : List kind.Elem}

theorem mem_ofList : elem ∈ (ofList name elements).elements ↔ elem ∈ elements := by
  rw [ofList, mem_addAll]
  simp

theorem nodup_ofList : (ofList name elements).elements.Nodup := nodup_addAll nodup_nil

theorem name_ofList : (ofList name elements).name = name := name_addAll

theorem getElem?_ofList_zero : (ofList name (first :: elements)).elements[0]? = some first := by
  have start : (Domain.add { name } first).1.elements <+:
      (ofList name (first :: elements)).elements :=
    prefix_addAll
  obtain ⟨rest, same⟩ := start
  rw [← same]
  rfl

end OfList

/-! ### One numbering -/

/-- The elements differ, and a domain that has any answers questions. -/
structure Dense (domain : Domain kind) : Prop where
  distinct : domain.elements.Nodup
  ready : domain.elements ≠ [] → domain.filled = true

theorem dense_new {name : String} : ({ name } : Domain kind).Dense := ⟨nodup_nil, nofun⟩

theorem filled_add : (domain.add elem).1.filled = true := by
  unfold add
  split <;> rfl

theorem Dense.add (dense : domain.Dense) (elem : kind.Elem) : (domain.add elem).1.Dense :=
  ⟨nodup_add dense.distinct, fun _ => filled_add⟩

theorem Dense.element_eq_ok_iff (dense : domain.Dense) :
    domain.element i = .ok elem ↔ domain.elements[i]? = some elem := by
  rw [element_eq_ok, and_iff_right_iff_imp]
  exact fun found => dense.ready (ne_nil_of_mem (mem_of_getElem? found))

theorem Dense.indexOf_eq_ok_iff (dense : domain.Dense) :
    domain.indexOf elem = .ok (some i) ↔ domain.elements[i]? = some elem := by
  rw [indexOf_eq_ok, idxOf?_eq_some_iff dense.distinct, and_iff_right_iff_imp]
  exact fun found => dense.ready (ne_nil_of_mem (mem_of_getElem? found))

theorem Dense.add_of_getElem? (dense : domain.Dense) (found : domain.elements[i]? = some elem) :
    domain.add elem = (domain, i) := by
  have filled := dense.ready (ne_nil_of_mem (mem_of_getElem? found))
  unfold Domain.add
  rw [(idxOf?_eq_some_iff dense.distinct).mpr found]
  show (Domain.mk domain.name domain.elements true, i) = (domain, i)
  rw [← filled]

end Domain

end ProgramAnalysis
