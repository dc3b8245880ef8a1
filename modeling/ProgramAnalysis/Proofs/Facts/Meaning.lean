import ProgramAnalysis.Proofs.Facts

/-!
What the facts of a program mean, said of the program alone. Instructions are told apart by their
constructors (`Invokes`, `Allocates`, `Locks`, `Touches`), and entities and relations are described
by these and not by the tests that the computation makes. The computed pairs are exactly those of
the indices of related entities (`mem_pairs`).
-/

namespace ProgramAnalysis

open List FactDomain Instruction Domain Store

variable {program : Program} {remap : Remap}

/-! ### Handles in range -/

variable {instruction : Instruction} {m : MethodId} {i : InstId} {method : Method} {v : VarId}

namespace Program

theorem mem_handles_of_var (found : program.methods[m]? = some method) (mem : v ∈ method.vars) :
    (.var, v) ∈ program.handles := by
  refine mem_append_left _ (mem_append_left _ (mem_append_right _ ?_))
  exact mem_flatMap.mpr ⟨method, mem_of_getElem? found, mem_append_left _ (mem_map_of_mem mem)⟩

theorem mem_handles_of_operation (found : program.instructions[i]? = some instruction)
    (mem : handle ∈ instruction.operation.handles) : handle ∈ program.handles :=
  mem_append_right _ (mem_flatMap.mpr
    ⟨instruction, mem_of_getElem? found, mem_cons_of_mem _ mem⟩)

end Program

/-! ### What instructions do -/

namespace Operation

/-- A call. -/
inductive Invokes : Operation → Prop
  | invoke (targets : List MethodId) (receiver : Option VarId) : Invokes (.invoke targets receiver)

/-- A new object or array. -/
inductive Allocates : Operation → Prop
  | new (result : VarId) (type : Option TypeId) : Allocates (.new result type)
  | newArray (result : VarId) : Allocates (.newArray result)

/-- Taking a lock. -/
inductive Locks : Operation → Prop
  | lock (var : VarId) : Locks (.lock var)

/-- The field a heap access touches, none for the elements of an array. -/
inductive Touches : Operation → Option FieldId → Prop
  | fieldRead (base : VarId) (field : FieldId) : Touches (.fieldRead base field) (some field)
  | fieldWrite (base : VarId) (field : FieldId) : Touches (.fieldWrite base field) (some field)
  | arrayRead (base : VarId) : Touches (.arrayRead base) none
  | arrayWrite (base : VarId) : Touches (.arrayWrite base) none

/-- A read or write of a field or of an element of an array. -/
def Accesses (operation : Operation) : Prop := ∃ field, operation.Touches field

end Operation

namespace Instruction

theorem isInvoke_iff : instruction.isInvoke = true ↔ instruction.operation.Invokes := by
  obtain ⟨method, line, operation⟩ := instruction
  constructor
  · intro isInvoke
    cases operation with
    | invoke => constructor
    | _ => cases isInvoke
  · rintro ⟨_, _⟩
    rfl

theorem isAllocation_iff : instruction.isAllocation = true ↔ instruction.operation.Allocates := by
  obtain ⟨method, line, operation⟩ := instruction
  constructor
  · intro isAllocation
    cases operation with
    | new | newArray => constructor
    | _ => cases isAllocation
  · rintro (⟨_, _⟩ | ⟨_⟩) <;> rfl

theorem isLock_iff : instruction.isLock = true ↔ instruction.operation.Locks := by
  obtain ⟨method, line, operation⟩ := instruction
  constructor
  · intro isLock
    cases operation with
    | lock => constructor
    | _ => cases isLock
  · rintro ⟨_⟩
    rfl

theorem touches_iff : instruction.operation.Touches field ↔
      instruction.isHeapAccess = true ∧ field = instruction.accessedField? := by
  obtain ⟨method, line, operation⟩ := instruction
  constructor
  · intro touches
    cases touches <;> exact ⟨rfl, rfl⟩
  · rintro ⟨isAccess, rfl⟩
    cases operation with
    | fieldRead | fieldWrite | arrayRead | arrayWrite => constructor
    | _ => cases isAccess

theorem isHeapAccess_iff : instruction.isHeapAccess = true ↔ instruction.operation.Accesses :=
  ⟨fun isAccess => ⟨_, touches_iff.mpr ⟨isAccess, rfl⟩⟩,
    fun ⟨_, touches⟩ => (touches_iff.mp touches).1⟩

end Instruction

namespace Operation

instance : DecidablePred Invokes := fun operation =>
  decidable_of_iff _ (@isInvoke_iff ⟨0, none, operation⟩)

instance : DecidablePred Allocates := fun operation =>
  decidable_of_iff _ (@isAllocation_iff ⟨0, none, operation⟩)

instance : DecidablePred Accesses := fun operation =>
  decidable_of_iff _ (@isHeapAccess_iff ⟨0, none, operation⟩)

instance : DecidablePred Locks := fun operation =>
  decidable_of_iff _ (@isLock_iff ⟨0, none, operation⟩)

end Operation

/-! ### What domains number -/

variable {kind : ElementKind}

namespace Domain

variable {elements : List kind.Elem}

/-- Different elements are added in order, except those that are there. -/
theorem elements_addAll (distinct : elements.Nodup) (domain : Domain kind) :
    (domain.addAll elements).elements =
      domain.elements ++ elements.filter fun elem => elem ∉ domain.elements := by
  induction elements generalizing domain with
  | nil => simp [addAll]
  | cons first rest ih =>
    obtain ⟨apart, distinct⟩ := nodup_cons.mp distinct
    show ((domain.add first).1.addAll rest).elements = _
    rw [ih distinct]
    by_cases mem : first ∈ domain.elements
    · obtain ⟨_, _, added⟩ := add_of_mem mem
      rw [added, filter_cons_of_neg (by simpa using mem)]
    · rw [add_of_not_mem mem, filter_cons_of_pos (by simpa using mem), append_assoc,
        singleton_append]
      refine congrArg _ (congrArg _ (filter_congr fun elem later => ?_))
      have differs : elem ≠ first := by
        rintro rfl
        exact apart later
      simp [differs]

theorem elements_ofList (distinct : elements.Nodup) (name : String) :
    (ofList name elements).elements = elements :=
  (elements_addAll distinct _).trans (by simp)

end Domain

/-- The items of a list that satisfy a test, by their positions. -/
theorem map_filter_range'_zip {α : Type} (items : List α) (test : α → Bool) (start : Nat) :
    (((List.range' start items.length).zip items).filter fun entry => test entry.2).map (·.1) =
      (List.range' start items.length).filter fun i => (items[i - start]?).any test := by
  induction items generalizing start with
  | nil => rfl
  | cons first rest ih =>
    have later : (List.range' (start + 1) rest.length).filter
        (fun i => ((first :: rest)[i - start]?).any test) =
          (List.range' (start + 1) rest.length).filter
            fun i => (rest[i - (start + 1)]?).any test := by
      refine filter_congr fun i mem => ?_
      obtain ⟨above, _⟩ := mem_range'_1.mp mem
      rw [show i - start = i - (start + 1) + 1 by omega, getElem?_cons_succ]
    rw [length_cons, range'_succ, zip_cons_cons, filter_cons, filter_cons,
      Nat.sub_self, later, ← ih]
    cases holds : test first <;> simp [holds]

namespace FactDomain

/-- The instructions that do things of a sort, in the order of their handles. -/
def sites (program : Program) (sort : Operation → Prop) [DecidablePred sort] : List InstId :=
  (List.range program.instructions.length).filter fun i =>
    (program.instructions[i]?).any fun instruction => sort instruction.operation

/-- What a domain numbers, in order. -/
def entities (program : Program) : (domain : FactDomain) → List domain.kind.Elem
  | methods => program.main.toList ++ program.methodIds.filter fun m => some m ≠ program.main
  | invokes => sites program Operation.Invokes
  | allocations => sites program Operation.Allocates
  | vars => List.range program.vars.length
  | accesses => sites program Operation.Accesses
  | fields => none :: (List.range program.fields.length).map some
  | locks => sites program Operation.Locks
  | types => List.range program.types.length

variable {sort : Operation → Prop} [DecidablePred sort]

theorem instructionsWhere_eq {test : Instruction → Bool}
    (sorted : ∀ {instruction : Instruction}, test instruction = true ↔ sort instruction.operation) :
    instructionsWhere program test = sites program sort := by
  have all := map_filter_range'_zip program.instructions test 0
  simp only [Nat.sub_zero] at all
  unfold instructionsWhere sites Program.numberedInstructions
  have same : test = fun instruction => decide (sort instruction.operation) :=
    funext fun instruction => Bool.eq_iff_iff.mpr (sorted.trans decide_eq_true_iff.symm)
  rw [range_eq_range', ← same]
  exact all

theorem mem_sites : i ∈ sites program sort ↔
      ∃ instruction, program.instructions[i]? = some instruction ∧ sort instruction.operation := by
  unfold sites
  rw [mem_filter, mem_range, Option.any_eq_true]
  simp only [decide_eq_true_iff]
  refine and_iff_right_of_imp ?_
  rintro ⟨instruction, found, _⟩
  exact (List.getElem?_eq_some_iff.mp found).1

theorem elements_ofProgram (domain : FactDomain) :
    (domain.ofProgram program).elements = domain.entities program := by
  have inOrder {test : Instruction → Bool} {sort : Operation → Prop} [DecidablePred sort]
      (sorted : ∀ {instruction : Instruction}, test instruction = true ↔
        sort instruction.operation) (name : String) :
      (@Domain.ofList .instruction name (instructionsWhere program test)).elements =
        sites program sort := by
    rw [instructionsWhere_eq sorted]
    exact @Domain.elements_ofList .instruction _ (nodup_range.sublist filter_sublist) name
  cases domain with
  | invokes => exact inOrder isInvoke_iff _
  | allocations => exact inOrder isAllocation_iff _
  | accesses => exact inOrder isHeapAccess_iff _
  | locks => exact inOrder isLock_iff _
  | vars => exact @Domain.elements_ofList .var _ nodup_range _
  | types => exact @Domain.elements_ofList .type _ nodup_range _
  | fields =>
    have distinct : (none :: (List.range program.fields.length).map some).Nodup :=
      nodup_cons.mpr ⟨by simp, pairwise_map.mpr
        (nodup_range.imp fun differ same => differ (Option.some.inj same))⟩
    exact @Domain.elements_ofList .field _ distinct _
  | methods =>
    show (@Domain.ofList .method "M" (program.main.toList ++ program.methodIds)).elements =
      program.main.toList ++ program.methodIds.filter fun m => some m ≠ program.main
    cases program.main with
    | none =>
      refine (@Domain.elements_ofList .method _ nodup_range "M").trans ?_
      exact (filter_eq_self.mpr fun m _ => by simp).symm
    | some main =>
      refine (@Domain.elements_addAll .method program.methodIds nodup_range
        (add { name := "M" } main).1).trans ?_
      refine congrArg (main :: ·) (filter_congr fun m _ => ?_)
      simp [add]

theorem nodup_entities (domain : FactDomain) : (domain.entities program).Nodup := by
  rw [← elements_ofProgram]
  exact nodup_ofList

theorem mem_entities_methods (valid : program.Valid) :
    m ∈ methods.entities program ↔ m < program.methods.length := by
  rw [← elements_ofProgram]
  exact mem_methods valid

end FactDomain

/-! ### What relations pair -/

/-- What is called instead of a target: the target itself if its signature is not replaced, and
otherwise the first method with the signature that replaces it. -/
inductive Remap.Replaces (remap : Remap) (program : Program) : MethodId → MethodId → Prop
  | same {target : MethodId} {method : Method} : program.methods[target]? = some method →
    remap.table.get? method.signature = none → Replaces remap program target target
  | other {target m : MethodId} {method replacement : Method} :
    program.methods[target]? = some method → program.methods[m]? = some replacement →
    remap.table.get? method.signature = some replacement.signature →
    (∀ earlier < m, ∀ method, program.methods[earlier]? = some method →
      method.signature ≠ replacement.signature) → Replaces remap program target m

variable {target : MethodId}

/-- A remap replaces a target as its table says. -/
theorem Remap.apply_eq_some (found : program.methods[target]? = some method) :
    remap.apply program target = some m ↔ remap.Replaces program target m := by
  unfold Remap.apply
  rw [found]
  dsimp only
  cases replaced : remap.table.get? method.signature with
  | none =>
    constructor
    · intro same
      cases same
      exact .same found replaced
    · rintro (⟨_, _⟩ | ⟨found', _, listed, _⟩)
      · rfl
      · cases found.symm.trans found'
        cases replaced.symm.trans listed
  | some sig =>
    show program.methodBySignature? sig = some m ↔ _
    unfold Program.methodBySignature?
    rw [findIdx?_eq_some_iff_getElem]
    constructor
    · rintro ⟨below, isFirst, earlier⟩
      obtain rfl : program.methods[m].signature = sig := of_decide_eq_true isFirst
      refine .other found (getElem?_eq_getElem below) replaced fun j less other found' same => ?_
      obtain ⟨_, rfl⟩ := List.getElem?_eq_some_iff.mp found'
      exact earlier j less (decide_eq_true same)
    · rintro (⟨found', unlisted⟩ | ⟨found', there, listed, earlier⟩)
      · cases found.symm.trans found'
        cases replaced.symm.trans unlisted
      · cases found.symm.trans found'
        cases replaced.symm.trans listed
        obtain ⟨below, rfl⟩ := List.getElem?_eq_some_iff.mp there
        refine ⟨below, decide_eq_true rfl, fun j less same => ?_⟩
        exact earlier j less _ (getElem?_eq_getElem (Nat.lt_trans less below))
          (of_decide_eq_true same)

/-- A target is dropped only if what replaces it is not in the program. -/
theorem Remap.replaces_or_missing (found : program.methods[target]? = some method) :
    (∃ m, remap.Replaces program target m) ∨ ∃ sig, remap.table.get? method.signature = some sig ∧
        ∀ other ∈ program.methods, other.signature ≠ sig := by
  simp only [← apply_eq_some found]
  unfold Remap.apply
  rw [found]
  dsimp only
  cases remap.table.get? method.signature with
  | none => exact .inl ⟨target, rfl⟩
  | some sig =>
    dsimp only
    cases answer : program.methodBySignature? sig with
    | some m => exact .inl ⟨m, rfl⟩
    | none =>
      refine .inr ⟨sig, rfl, fun other mem => ?_⟩
      simpa using findIdx?_eq_none_iff.mp answer other mem

namespace FactRelation

/-- The domain of the first column. -/
def left : FactRelation → FactDomain
  | methodInvokes | methodAllocations | methodVariables | methodReceiver => .methods
  | invokeTargets | invokeReceiver => .invokes
  | accessedField => .accesses
  | castTarget => .vars

/-- The domain of the second column. -/
def right : FactRelation → FactDomain
  | methodInvokes => .invokes
  | methodAllocations => .allocations
  | methodVariables | methodReceiver | invokeReceiver => .vars
  | invokeTargets => .methods
  | accessedField => .fields
  | castTarget => .types

/-- What a relation says of two entities. -/
def Relates (remap : Remap) (program : Program) :
    (relation : FactRelation) → relation.left.kind.Elem → relation.right.kind.Elem → Prop
  | methodInvokes => fun (m : MethodId) (i : InstId) =>
    ∃ instruction, program.instructions[i]? = some instruction ∧ instruction.operation.Invokes ∧
      instruction.method = m
  | methodAllocations => fun (m : MethodId) (h : InstId) =>
    ∃ instruction, program.instructions[h]? = some instruction ∧ instruction.operation.Allocates ∧
      instruction.method = m
  | methodVariables => fun (m : MethodId) (v : VarId) =>
    ∃ method, program.methods[m]? = some method ∧ v ∈ method.vars
  | methodReceiver => fun (m : MethodId) (v : VarId) =>
    ∃ method, program.methods[m]? = some method ∧ method.isStatic = false ∧
      method.vars.head? = some v
  | invokeTargets => fun (i : InstId) (m : MethodId) =>
    ∃ instruction targets receiver target, program.instructions[i]? = some instruction ∧
      instruction.operation = .invoke targets receiver ∧ target ∈ targets ∧
      remap.Replaces program target m
  | invokeReceiver => fun (i : InstId) (v : VarId) =>
    ∃ instruction targets, program.instructions[i]? = some instruction ∧
      instruction.operation = .invoke targets (some v)
  | accessedField => fun (e : InstId) (field : Option FieldId) =>
    ∃ instruction, program.instructions[e]? = some instruction ∧ instruction.operation.Touches field
  | castTarget => fun (v : VarId) (t : TypeId) =>
    ∃ (i : InstId) (instruction : Instruction), program.instructions[i]? = some instruction ∧
      instruction.operation = .cast v t

theorem mem_targets (valid : program.Valid) (found : program.instructions[i]? = some instruction) :
    m ∈ targets program remap instruction ↔ ∃ targets receiver target,
      instruction.operation = .invoke targets receiver ∧ target ∈ targets ∧
        remap.Replaces program target m := by
  unfold targets
  constructor
  · intro mem
    split at mem
    · next targets receiver calls =>
      obtain ⟨target, among, applied⟩ := mem_filterMap.mp mem
      have there := getElem?_eq_getElem (valid.target_lt found calls among)
      exact ⟨targets, receiver, target, calls, among, (Remap.apply_eq_some there).mp applied⟩
    · cases mem
  · rintro ⟨targets, receiver, target, calls, among, replaces⟩
    rw [calls]
    have there := getElem?_eq_getElem (valid.target_lt found calls among)
    exact mem_filterMap.mpr ⟨target, among, (Remap.apply_eq_some there).mpr replaces⟩

theorem relates_invokeTargets (valid : program.Valid) {i : InstId} {m : MethodId} :
    Relates remap program .invokeTargets i m ↔ ∃ instruction,
      program.instructions[i]? = some instruction ∧ m ∈ targets program remap instruction := by
  constructor
  · rintro ⟨instruction, targets, receiver, target, found, calls⟩
    exact ⟨instruction, found, (mem_targets valid found).mpr ⟨targets, receiver, target, calls⟩⟩
  · rintro ⟨instruction, found, mem⟩
    obtain ⟨targets, receiver, target, calls⟩ := (mem_targets valid found).mp mem
    exact ⟨instruction, targets, receiver, target, found, calls⟩

theorem mem_receiver? {method : Method} {v : VarId} : v ∈ method.receiver?.toList ↔
    method.isStatic = false ∧ method.vars.head? = some v := by
  rw [Option.mem_toList, Method.receiver?]
  cases method.isStatic <;> simp

theorem mem_receiver :
    v ∈ receiver instruction ↔ ∃ targets, instruction.operation = .invoke targets (some v) := by
  unfold receiver
  split
  · next targets receiver calls =>
    rw [Option.mem_toList]
    constructor
    · rintro rfl
      exact ⟨targets, calls⟩
    · rintro ⟨_, calls'⟩
      cases calls.symm.trans calls'
      rfl
  · next none =>
    refine iff_of_false not_mem_nil ?_
    rintro ⟨targets, calls⟩
    exact none targets (some v) calls

/-- A relation is only about entities that its domains number. -/
theorem numbered_of_relates (valid : program.Valid) {relation : FactRelation}
    {a : relation.left.kind.Elem} {b : relation.right.kind.Elem}
    (related : Relates remap program relation a b) :
    a ∈ relation.left.entities program ∧ b ∈ relation.right.entities program := by
  have method {i : InstId} {instruction : Instruction}
      (found : program.instructions[i]? = some instruction) :
      instruction.method ∈ FactDomain.methods.entities program :=
    (mem_entities_methods valid).mpr (valid.method_lt found)
  have here {m : MethodId} {method : Method} (found : program.methods[m]? = some method) :
      m ∈ FactDomain.methods.entities program :=
    (mem_entities_methods valid).mpr (List.getElem?_eq_some_iff.mp found).1
  cases relation with
  | methodInvokes =>
    obtain ⟨instruction, found, invokes, rfl⟩ := related
    exact ⟨method found, mem_sites.mpr ⟨instruction, found, invokes⟩⟩
  | methodAllocations =>
    obtain ⟨instruction, found, allocates, rfl⟩ := related
    exact ⟨method found, mem_sites.mpr ⟨instruction, found, allocates⟩⟩
  | methodVariables =>
    obtain ⟨_, found, among⟩ := related
    exact ⟨here found, mem_range.mpr (valid _ (Program.mem_handles_of_var found among))⟩
  | methodReceiver =>
    obtain ⟨_, found, _, first⟩ := related
    exact ⟨here found, mem_range.mpr
      (valid _ (Program.mem_handles_of_var found (mem_of_mem_head? first)))⟩
  | invokeTargets =>
    obtain ⟨instruction, found, mem⟩ := (relates_invokeTargets valid).mp related
    exact ⟨mem_sites.mpr ⟨instruction, found, isInvoke_iff.mp (isInvoke_of_mem_targets mem)⟩,
      (mem_entities_methods valid).mpr (lt_of_mem_targets valid found mem)⟩
  | invokeReceiver =>
    obtain ⟨instruction, targets, found, calls⟩ := related
    refine ⟨mem_sites.mpr ⟨instruction, found, calls ▸ .invoke targets _⟩, mem_range.mpr
      (valid (.var, _) (Program.mem_handles_of_operation found ?_))⟩
    rw [calls]
    exact mem_append_right _ (mem_map_of_mem (Option.mem_toList.mpr rfl))
  | accessedField =>
    obtain ⟨instruction, found, touches⟩ := related
    refine ⟨mem_sites.mpr ⟨instruction, found, _, touches⟩, ?_⟩
    have inRange {field : FieldId} (mem : (.field, field) ∈ instruction.operation.handles) :
        some field ∈ fields.entities program :=
      mem_cons_of_mem _ (mem_map_of_mem (mem_range.mpr
        (valid (.field, field) (Program.mem_handles_of_operation found mem))))
    obtain ⟨_, _, operation⟩ := instruction
    cases touches with
    | fieldRead | fieldWrite => exact inRange (.tail _ (.head _))
    | arrayRead | arrayWrite => exact mem_cons_self
  | castTarget =>
    obtain ⟨i, instruction, found, casts⟩ := related
    have inRange {handle : Entity × Nat} (mem : handle ∈ instruction.operation.handles) :=
      valid _ (Program.mem_handles_of_operation found mem)
    rw [casts] at inRange
    exact ⟨mem_range.mpr (inRange (.head _)), mem_range.mpr (inRange (.tail _ (.head _)))⟩

/-! ### The computed pairs -/

/-- Two indices stand for entities that a relation pairs. -/
def Pairs (remap : Remap) (program : Program) (relation : FactRelation) (x y : Nat) : Prop :=
  ∃ a b, (relation.left.entities program)[x]? = some a ∧
    (relation.right.entities program)[y]? = some b ∧ Relates remap program relation a b

section Pairs

variable {store : Store} {relation : FactRelation} {pairs : List (Nat × Nat)} {x y : Nat}
  {sort : Operation → Prop} [DecidablePred sort]

theorem bind_domains {α β γ : Type} {first : Except Fault α} {second : Except Fault β}
    {f : α → β → Except Fault γ} {a : α} {b : β} (foundFirst : first = .ok a)
    (foundSecond : second = .ok b) : (first >>= fun a => second >>= fun b => f a b) = f a b := by
  rw [foundFirst, foundSecond]
  rfl

variable {domain : FactDomain}

theorem mem_indexed_entities {elem : domain.kind.Elem} :
    (n, elem) ∈ (domain.ofProgram program).setFilled.indexed ↔
      (domain.entities program)[n]? = some elem := by
  rw [← elements_ofProgram]
  exact mem_indexed

theorem indexOf_entities {elem : domain.kind.Elem} :
    (domain.ofProgram program).setFilled.indexOf elem = .ok (some n) ↔
      (domain.entities program)[n]? = some elem := by
  rw [← elements_ofProgram, indexOf_eq_ok]
  exact (and_iff_right rfl).trans (Domain.idxOf?_eq_some_iff nodup_ofList)

theorem mem_contained {sites : Domain .instruction}
    (numbered : sites.elements = FactDomain.sites program sort)
    (made : contained program (FactDomain.methods.ofProgram program).setFilled sites = .ok pairs) :
    (x, y) ∈ pairs ↔ ∃ (m : MethodId) (i : InstId),
      (FactDomain.methods.entities program)[x]? = some m ∧
        (FactDomain.sites program sort)[y]? = some i ∧
        ∃ instruction, program.instructions[i]? = some instruction ∧ sort instruction.operation ∧
          instruction.method = m := by
  rw [mem_of_filterMapM made]
  constructor
  · rintro ⟨⟨index, i⟩, indexed, found⟩
    obtain ⟨answer, enclosed, same⟩ := except_bind_eq_ok.mp found
    obtain ⟨m, rfl, same⟩ := Option.map_eq_some_iff.mp (Except.ok.inj same)
    cases same
    obtain ⟨instruction, there, isIndex⟩ := enclosingMethod_eq_ok.mp enclosed
    have atSite := mem_indexed.mp indexed
    rw [numbered] at atSite
    obtain ⟨_, there', isSort⟩ := mem_sites.mp (mem_of_getElem? atSite)
    cases there.symm.trans there'
    exact ⟨_, i, indexOf_entities.mp isIndex, atSite, instruction, there, isSort, rfl⟩
  · rintro ⟨_, i, atMethod, atSite, instruction, there, _, rfl⟩
    rw [← numbered] at atSite
    have enclosed := enclosingMethod_eq_ok.mpr ⟨instruction, there, indexOf_entities.mpr atMethod⟩
    exact ⟨(y, i), mem_indexed.mpr atSite, except_bind_eq_ok.mpr ⟨some x, enclosed, rfl⟩⟩

theorem mem_pairWith {first : Nat} {domain : Domain kind} {elements : List kind.Elem}
    (made : pairWith first domain elements = .ok pairs) :
    (x, y) ∈ pairs ↔ x = first ∧ ∃ elem ∈ elements, domain.indexOf elem = .ok (some y) := by
  unfold pairWith at made
  rw [mem_of_filterMapM made]
  constructor
  · rintro ⟨elem, mem, found⟩
    obtain ⟨answer, isAnswer, same⟩ := except_bind_eq_ok.mp found
    obtain ⟨index, rfl, same⟩ := Option.map_eq_some_iff.mp (Except.ok.inj same)
    cases same
    exact ⟨rfl, elem, mem, isAnswer⟩
  · rintro ⟨rfl, elem, mem, found⟩
    exact ⟨elem, mem, except_bind_eq_ok.mpr ⟨some y, found, rfl⟩⟩

theorem mem_pairsOf {elements : List Nat} (listed : ∀ i, (x, i) ∈ items ↔ elements[x]? = some i)
    (made : pairsOf entity table items (domain.ofProgram program).setFilled select = .ok pairs) :
    (x, y) ∈ pairs ↔ ∃ (i : Nat) (elem : domain.kind.Elem), elements[x]? = some i ∧
      (domain.entities program)[y]? = some elem ∧
      ∃ entry, table[i]? = some entry ∧ elem ∈ select entry := by
  obtain ⟨lists, mapped, same⟩ := except_bind_eq_ok.mp made
  cases same
  rw [mem_flatten]
  constructor
  · rintro ⟨list, inLists, mem⟩
    obtain ⟨⟨index, i⟩, inside, each⟩ := (mem_of_mapM mapped).mp inLists
    obtain ⟨entry, found, paired⟩ := except_bind_eq_ok.mp each
    obtain ⟨rfl, elem, selected, answer⟩ := (mem_pairWith paired).mp mem
    exact ⟨i, elem, (listed i).mp inside, indexOf_entities.mp answer, entry,
      Program.entry_eq_ok.mp (mapError_eq_ok.mp found), selected⟩
  · rintro ⟨i, elem, atIndex, numbered, entry, found, selected⟩
    have inside := (listed i).mpr atIndex
    obtain ⟨list, made⟩ := ok_of_mapM mapped inside
    refine ⟨list, (mem_of_mapM mapped).mpr ⟨(x, i), inside, made⟩, ?_⟩
    obtain ⟨other, found', paired⟩ := except_bind_eq_ok.mp made
    cases (Program.entry_eq_ok.mp (mapError_eq_ok.mp found')).symm.trans found
    exact (mem_pairWith paired).mpr ⟨rfl, elem, selected, indexOf_entities.mpr numbered⟩

theorem mem_cast : cast (FactDomain.vars.ofProgram program).setFilled
        (types.ofProgram program).setFilled instruction = .ok (some pair) ↔
      ∃ v t, instruction.operation = .cast v t ∧
        (FactDomain.vars.entities program)[pair.1]? = some v ∧
        (types.entities program)[pair.2]? = some t := by
  unfold cast
  constructor
  · intro casting
    split at casting
    · next v t casts =>
      obtain ⟨first, foundVar, rest⟩ := except_bind_eq_ok.mp casting
      obtain ⟨second, foundType, same⟩ := except_bind_eq_ok.mp rest
      obtain ⟨x, rfl, mapped⟩ := Option.bind_eq_some_iff.mp (Except.ok.inj same)
      obtain ⟨y, rfl, rfl⟩ := Option.map_eq_some_iff.mp mapped
      exact ⟨v, t, casts, indexOf_entities.mp foundVar, indexOf_entities.mp foundType⟩
    · cases casting
  · rintro ⟨v, t, casts, atVar, atType⟩
    rw [casts]
    exact except_bind_eq_ok.mpr ⟨_, indexOf_entities.mpr atVar,
      except_bind_eq_ok.mpr ⟨_, indexOf_entities.mpr atType, rfl⟩⟩

/-! ### Success -/

theorem exists_pairsOf (domain : Domain kind) (select : α → List kind.Elem)
    (there : ∀ item ∈ items, ∃ entry, table[item.2]? = some entry) :
    ∃ pairs, pairsOf entity table items domain.setFilled select = .ok pairs := by
  have succeeds (item) (mem : item ∈ items) : ∃ pairs, (do
      let entry ← (Program.entry entity table item.2).mapError Fault.program
      pairWith item.1 domain.setFilled (select entry)) = .ok pairs := by
    obtain ⟨entry, found⟩ := there item mem
    obtain ⟨pairs, paired⟩ := exists_filterMapM fun _ _ =>
      ⟨_, except_bind_eq_ok.mpr ⟨_, rfl, rfl⟩⟩
    exact ⟨pairs, except_bind_eq_ok.mpr
      ⟨entry, mapError_eq_ok.mpr (Program.entry_eq_ok.mpr found), paired⟩⟩
  obtain ⟨lists, mapped⟩ := exists_mapM succeeds
  exact ⟨lists.flatten, except_bind_eq_ok.mpr ⟨lists, mapped, rfl⟩⟩

theorem exists_instruction {sites : Domain .instruction}
    (numbered : sites.elements = FactDomain.sites program sort) (item : Nat × InstId)
    (mem : item ∈ sites.indexed) :
    ∃ instruction, program.instructions[item.2]? = some instruction := by
  have among := mem_of_getElem? (mem_indexed.mp mem)
  rw [numbered] at among
  obtain ⟨instruction, found, _⟩ := mem_sites.mp among
  exact ⟨instruction, found⟩

theorem exists_contained {sites : Domain .instruction}
    (numbered : sites.elements = FactDomain.sites program sort) (methods : Domain .method) :
    ∃ pairs, contained program methods.setFilled sites = .ok pairs := by
  refine exists_filterMapM fun entry mem => ?_
  obtain ⟨instruction, found⟩ := exists_instruction numbered entry mem
  exact ⟨_, except_bind_eq_ok.mpr ⟨_, enclosingMethod_eq_ok.mpr ⟨instruction, found, rfl⟩, rfl⟩⟩

variable (valid : program.Valid) (left : relation.left.HeldBy program store)
  (right : relation.right.HeldBy program store)
include valid left right

/-- The computed pairs are those of related entities. -/
theorem mem_pairs (made : relation.pairs remap program store = .ok pairs) :
    (x, y) ∈ pairs ↔ Pairs remap program relation x y := by
  have foundLeft := domain_eq_ok left
  have foundRight := domain_eq_ok right
  cases relation with
  | methodInvokes | methodAllocations =>
    have made := (bind_domains foundLeft foundRight).symm.trans made
    exact mem_contained (elements_ofProgram _) made
  | methodVariables =>
    have made := (bind_domains foundLeft foundRight).symm.trans made
    exact mem_pairsOf (fun _ => mem_indexed_entities) made
  | methodReceiver =>
    have made := (bind_domains foundLeft foundRight).symm.trans made
    refine (mem_pairsOf (fun _ => mem_indexed_entities) made).trans ?_
    refine exists_congr fun m => exists_congr fun v => and_congr_right fun _ =>
      and_congr_right fun _ => exists_congr fun method => and_congr_right fun _ => ?_
    exact mem_receiver?
  | invokeTargets =>
    have made := (bind_domains foundLeft foundRight).symm.trans made
    refine (mem_pairsOf (fun _ => mem_indexed_entities) made).trans (exists_congr fun i =>
      exists_congr fun m => and_congr_right fun _ => and_congr_right fun _ => ?_)
    exact (relates_invokeTargets valid).symm
  | invokeReceiver =>
    have made := (bind_domains foundLeft foundRight).symm.trans made
    refine (mem_pairsOf (fun _ => mem_indexed_entities) made).trans (exists_congr fun i =>
      exists_congr fun v => and_congr_right fun _ => and_congr_right fun _ =>
        exists_congr fun instruction => ?_)
    exact (and_congr_right fun _ => mem_receiver).trans exists_and_left.symm
  | accessedField =>
    have made := (bind_domains foundLeft foundRight).symm.trans made
    refine (mem_pairsOf (fun _ => mem_indexed_entities) made).trans (exists_congr fun e =>
      exists_congr fun field => and_congr_right fun atSite => and_congr_right fun _ =>
        exists_congr fun instruction => and_congr_right fun there => ?_)
    obtain ⟨_, there', accesses⟩ := mem_sites.mp (mem_of_getElem? atSite)
    cases there.symm.trans there'
    have isAccess := isHeapAccess_iff.mpr accesses
    exact mem_singleton.trans ((and_iff_right isAccess).symm.trans touches_iff.symm)
  | castTarget =>
    have made := (bind_domains foundLeft foundRight).symm.trans made
    rw [mem_of_filterMapM made]
    constructor
    · rintro ⟨instruction, mem, casting⟩
      obtain ⟨i, there⟩ := mem_iff_getElem?.mp mem
      obtain ⟨v, t, casts, atVar, atType⟩ := mem_cast.mp casting
      exact ⟨v, t, atVar, atType, i, instruction, there, casts⟩
    · rintro ⟨v, t, atVar, atType, i, instruction, there, casts⟩
      exact ⟨instruction, mem_of_getElem? there, mem_cast.mpr ⟨v, t, casts, atVar, atType⟩⟩

theorem exists_pairs : ∃ pairs, relation.pairs remap program store = .ok pairs := by
  have foundLeft := domain_eq_ok left
  have foundRight := domain_eq_ok right
  cases relation with
  | methodInvokes | methodAllocations =>
    refine Exists.imp (fun _ => (bind_domains foundLeft foundRight).trans) ?_
    exact exists_contained (elements_ofProgram _) _
  | methodVariables | methodReceiver =>
    refine Exists.imp (fun _ => (bind_domains foundLeft foundRight).trans) ?_
    refine exists_pairsOf _ _ fun item mem => ?_
    have below := (mem_methods valid).mp (mem_of_getElem? (mem_indexed.mp mem))
    exact ⟨_, getElem?_eq_getElem below⟩
  | invokeTargets | invokeReceiver | accessedField =>
    refine Exists.imp (fun _ => (bind_domains foundLeft foundRight).trans) ?_
    exact exists_pairsOf _ _ (exists_instruction (elements_ofProgram _))
  | castTarget =>
    refine Exists.imp (fun _ => (bind_domains foundLeft foundRight).trans) ?_
    refine exists_filterMapM fun instruction _ => ?_
    unfold cast
    split
    · exact ⟨_, except_bind_eq_ok.mpr ⟨_, rfl, except_bind_eq_ok.mpr ⟨_, rfl, rfl⟩⟩⟩
    · exact ⟨none, rfl⟩

end Pairs

end FactRelation

end ProgramAnalysis
