import ProgramAnalysis.Program.Load
import ProgramAnalysis.Proofs.Json

/-!
Writing a program as JSON and taking it in again: whatever freedom the writer uses, the reader makes
the same program of it. The reader of each kind of record is stable under respelling, and it reads
what is written for a record in full; the two together give all other spellings.
-/

namespace ProgramAnalysis

open Json List Numeral

/-! ### Any spelling is read alike -/

section

open Record (stable_pure stable_required? stable_option stable_flag stable_items stable_optional?)

theorem Method.stable_ofJson? : Stable Method.ofJson? := by
  refine stable_record (.bind (stable_required? (by decide) stable_string? rfl rfl) fun _ => ?_)
  refine .bind (stable_option (by decide) stable_string? rfl) fun _ => ?_
  refine .bind (stable_option (by decide) stable_word32? rfl) fun _ => ?_
  refine .bind (stable_flag (by decide) rfl) fun _ => ?_
  refine .bind (stable_flag (by decide) rfl) fun _ => ?_
  refine .bind (stable_flag (by decide) rfl) fun _ => ?_
  refine .bind (stable_items (by decide) stable_size? rfl) fun _ => ?_
  exact .bind (stable_items (by decide) stable_size? rfl) fun _ => stable_pure _

theorem Variable.stable_ofJson? : Stable Variable.ofJson? := by
  refine stable_record (.bind (stable_required? (by decide) stable_string? rfl rfl) fun _ => ?_)
  exact .bind (stable_required? (by decide) stable_size? rfl rfl) fun _ => stable_pure _

theorem Field.stable_ofJson? : Stable Field.ofJson? := by
  refine stable_record (.bind (stable_required? (by decide) stable_string? rfl rfl) fun _ => ?_)
  exact .bind (stable_option (by decide) stable_size? rfl) fun _ => stable_pure _

theorem TypeName.stable_ofJson? : Stable TypeName.ofJson? :=
  stable_record (.bind (stable_required? (by decide) stable_string? rfl rfl) fun _ => stable_pure _)

namespace Operation

theorem mem_kindNames_of_kindTag? (tag : kindTag? value = some kind) : kind ∈ kindNames := by
  unfold kindTag? at tag
  split at tag
  · split at tag <;> simp_all
  · exact mem_of_getElem? tag
  · cases tag

theorem stable_ofHandle? {name : String} {make : Nat → Operation} (plain : default? name = none) :
    Stable (ofHandle? name make) :=
  stable_record (.bind (stable_required? (.head _) stable_size? plain rfl) fun _ => stable_pure _)

theorem stable_ofHandles? {first second : String} {make : Nat → Nat → Operation}
    (plainFirst : default? first = none) (plainSecond : default? second = none) :
    Stable (ofHandles? first second make) := by
  refine stable_record (.bind (stable_required? (.head _) stable_size? plainFirst rfl) fun _ => ?_)
  exact .bind (stable_required? (.tail _ (.head _)) stable_size? plainSecond rfl)
    fun _ => stable_pure _

theorem stable_ofFields? {kind : String} (known : kind ∈ kindNames) : Stable (ofFields? kind) := by
  simp only [kindNames, mem_cons, not_mem_nil, or_false] at known
  rcases known with rfl | rfl | rfl | rfl | rfl | rfl | rfl | rfl | rfl | rfl | rfl
  · refine stable_record (.bind (stable_required? (by decide) stable_size?.list? rfl rfl)
      fun _ => ?_)
    exact .bind (stable_option (by decide) stable_size? rfl) fun _ => stable_pure _
  · refine stable_record (.bind (stable_required? (by decide) stable_size? rfl rfl) fun _ => ?_)
    exact .bind (stable_option (by decide) stable_size? rfl) fun _ => stable_pure _
  · exact stable_ofHandle? rfl
  · exact stable_ofHandles? rfl rfl
  · exact stable_ofHandles? rfl rfl
  · exact stable_ofHandle? rfl
  · exact stable_ofHandle? rfl
  · exact stable_ofHandle? rfl
  · exact stable_ofHandle? rfl
  · exact stable_ofHandles? rfl rfl
  · exact fun _ _ _ _ read => read

end Operation

namespace Instruction

/-- What is written beside the fields of the operation. -/
def place? (value : Json) : Option (MethodId × Option Nat) := do
  let record ← value.record? ["method", "line"]
  return (← record.required? "method" size?, ← record.withDefault? "line" none (nullable? word32?))

def kind? (value : Json) : Option String := do
  let record ← value.record? ["kind"]
  record.required? "kind" Operation.kindTag?

theorem stable_place? : Stable place? := by
  refine stable_record (.bind (stable_required? (by decide) stable_size? rfl rfl) fun _ => ?_)
  exact .bind (stable_option (by decide) stable_word32? rfl) fun _ => stable_pure _

theorem stable_kind? : Stable kind? :=
  stable_record (stable_required? (by decide) (stable_of_leaf (fun _ => rfl) fun _ => rfl) rfl rfl)

theorem mem_kindNames_of_kind? (read : kind? value = some kind) : kind ∈ Operation.kindNames := by
  obtain ⟨record, _, read⟩ := Option.bind_eq_some_iff.mp read
  obtain ⟨tag, _, read⟩ := Option.bind_eq_some_iff.mp read
  exact Operation.mem_kindNames_of_kindTag? read

/-- The members of the operation. -/
def operationMembers (members : List (String × Json)) : List (String × Json) :=
  members.filter fun member => member.1 ≠ "method" && member.1 ≠ "line"

/-- Reading an instruction reads one object three times: for what every instruction has, for the
kind, and for what the kind asks for. -/
theorem ofJson?_eq_some : ofJson? (.object members) = some instruction ↔
      place? (.object members) = some (instruction.method, instruction.line) ∧
      Within (memberDepth + 1) (.object (operationMembers members)) ∧
      ∃ kind, kind? (.object (operationMembers members)) = some kind ∧
        Operation.ofFields? kind (.object ((operationMembers members).filter (·.1 ≠ "kind"))) =
          some instruction.operation := by
  have accepted : ¬ (operationMembers members).any (!canSetAside ·.2) ↔
      Within (memberDepth + 1) (.object (operationMembers members)) := by
    rw [within_object]
    simp [canSetAside, Within]
  obtain ⟨method, line, operation⟩ := instruction
  rw [ofJson?, ← operationMembers]
  simp only [place?, kind?, Option.bind_eq_bind, Option.bind_eq_some_iff, pure, Option.some.injEq,
    Prod.mk.injEq]
  constructor
  · rintro ⟨record, isRecord, read⟩
    split at read
    · cases read
    · next within =>
      simp only [Option.bind_eq_some_iff, Option.some.injEq, mk.injEq] at read
      obtain ⟨tag, isTag, kind, isKind, _, isMethod, _, isLine, _, isOperation,
        rfl, rfl, rfl⟩ := read
      exact ⟨⟨record, isRecord, _, isMethod, _, isLine, rfl, rfl⟩, accepted.mp within, kind,
        ⟨tag, isTag, isKind⟩, isOperation⟩
  · rintro ⟨⟨record, isRecord, _, isMethod, _, isLine, rfl, rfl⟩, within, kind,
      ⟨tag, isTag, isKind⟩, isOperation⟩
    refine ⟨record, isRecord, ?_⟩
    rw [if_neg (accepted.mpr within)]
    simp only [isTag, isKind, isMethod, isLine, isOperation, Option.bind_some]

theorem stable_ofJson? : Stable ofJson? := by
  intro value value' instruction respells read
  cases value with
  | object members =>
    obtain ⟨members', rfl⟩ := respells.of_object
    rw [ofJson?_eq_some] at read ⊢
    obtain ⟨head, within, kind, isKind, isOperation⟩ := read
    refine ⟨stable_place? respells head, ?_⟩
    rcases respells.filter (fun key => key ≠ "method" && key ≠ "line") with same | inside
    · rw [operationMembers, same]
      exact ⟨within, kind, isKind, isOperation⟩
    · refine ⟨inside.within within, kind, stable_kind? inside isKind, ?_⟩
      rcases inside.filter (fun key => key ≠ "kind") with same | inner
      · rw [operationMembers, same]
        exact isOperation
      · exact Operation.stable_ofFields? (mem_kindNames_of_kind? isKind) inner isOperation
  | _ => cases read

end Instruction

theorem Program.stable_ofJson? : Stable Program.ofJson? := by
  refine stable_record (.bind (stable_optional? (by decide) stable_size? rfl) fun _ => ?_)
  refine .bind (stable_items (by decide) Method.stable_ofJson? rfl) fun _ => ?_
  refine .bind (stable_items (by decide) Instruction.stable_ofJson? rfl) fun _ => ?_
  refine .bind (stable_items (by decide) Variable.stable_ofJson? rfl) fun _ => ?_
  refine .bind (stable_items (by decide) Field.stable_ofJson? rfl) fun _ => ?_
  exact .bind (stable_items (by decide) TypeName.stable_ofJson? rfl) fun _ => stable_pure _

end

/-! ### What is written is read -/

/-- The bounds of handles and lines, which no number of the program passes. -/
structure Program.Representable (program : Program) : Prop where
  handles : ∀ handle ∈ program.handles, handle.2 < sizeLimit
  owners : ∀ field ∈ program.fields, ∀ type ∈ field.owner, type < sizeLimit
  methodLines : ∀ method ∈ program.methods, ∀ line ∈ method.line, line < wordLimit
  instructionLines : ∀ instruction ∈ program.instructions, ∀ line ∈ instruction.line,
    line < wordLimit

theorem Method.ofJson?_toJson {method : Method} (vars : ∀ v ∈ method.vars, v < sizeLimit)
    (instructions : ∀ i ∈ method.instructions, i < sizeLimit)
    (lines : ∀ line ∈ method.line, line < wordLimit) : ofJson? method.toJson = some method := by
  have file : nullable? string? (ofOption .string method.file) = some method.file :=
    nullable?_ofOption rfl fun _ _ => rfl
  have line : nullable? word32? (ofOption ofNat method.line) = some method.line :=
    nullable?_ofOption rfl fun _ is => natBelow?_ofNat (lines _ is)
  have varList : list? size? (ofList ofNat method.vars) = some method.vars :=
    list?_ofList fun v mem => natBelow?_ofNat (vars v mem)
  have instList : list? size? (ofList ofNat method.instructions) = some method.instructions :=
    list?_ofList fun i mem => natBelow?_ofNat (instructions i mem)
  rw [ofJson?, toJson, record?_object (by simp)]
  simp only [Record.required?, Record.withDefault?, Option.bind_eq_bind, Option.bind_some]
  simp only [lookup_cons, String.reduceBEq, file, line, varList, instList]
  rfl

namespace Operation

variable {operation : Operation}

theorem ofFields?_members (fits : ∀ handle ∈ operation.handles, handle.2 < sizeLimit) :
    ofFields? operation.kindName (.object operation.members.tail) = some operation := by
  have handle : ∀ {n}, n < sizeLimit → size? (ofNat n) = some n := natBelow?_ofNat
  cases operation with
  | invoke targets receiver =>
    have items : list? size? (ofList ofNat targets) = some targets :=
      list?_ofList fun m mem => handle (fits (.method, m) (by simp [handles, mem]))
    have option : nullable? size? (ofOption ofNat receiver) = some receiver :=
      nullable?_ofOption rfl fun v is => handle (fits (.var, v) (by simp_all [handles]))
    simp [ofFields?, kindName, members, record?_object, Record.required?, Record.withDefault?,
      lookup_cons, items, option]
  | new result type =>
    have option : nullable? size? (ofOption ofNat type) = some type :=
      nullable?_ofOption rfl fun t is => handle (fits (.type, t) (by simp_all [handles]))
    simp [ofFields?, kindName, members, record?_object, Record.required?, Record.withDefault?,
      lookup_cons, handle (fits _ (.head _)), option]
  | fieldRead | fieldWrite | cast =>
    simp [ofFields?, ofHandles?, kindName, members, record?_object, Record.required?, lookup_cons,
      handle (fits _ (.head _)), handle (fits _ (.tail _ (.head _)))]
  | newArray | arrayRead | arrayWrite | staticWrite | lock =>
    simp [ofFields?, ofHandle?, kindName, members, record?_object, Record.required?, lookup_cons,
      handle (fits _ (.head _))]
  | other => rfl

theorem kindTag?_kindName : kindTag? (.string operation.kindName) = some operation.kindName := by
  cases operation <;> rfl

theorem within_members : Within (bound + 2) (.object operation.members) := by
  have option : ∀ {n}, Within (bound + 1) (ofOption ofNat n) := by
    intro n
    cases n <;> exact ⟨rfl, Nat.zero_le _⟩
  have items : ∀ {l}, Within (bound + 1) (ofList ofNat l) := by
    intro l
    refine within_array.mpr fun item mem => ?_
    obtain ⟨n, _, rfl⟩ := mem_map.mp mem
    exact ⟨rfl, Nat.zero_le _⟩
  have number : ∀ {n}, Within (bound + 1) (ofNat n) := ⟨rfl, Nat.zero_le _⟩
  have text : ∀ {s}, Within (bound + 1) (.string s) := ⟨rfl, Nat.zero_le _⟩
  rw [within_object]
  cases operation <;> simp [members, option, items, number, text]

end Operation

theorem Instruction.ofJson?_toJson {instruction : Instruction}
    (method : instruction.method < sizeLimit) (lines : ∀ line ∈ instruction.line, line < wordLimit)
    (fits : ∀ handle ∈ instruction.operation.handles, handle.2 < sizeLimit) :
    ofJson? instruction.toJson = some instruction := by
  obtain ⟨m, line, operation⟩ := instruction
  have handle : size? (ofNat m) = some m := natBelow?_ofNat method
  have option : nullable? word32? (ofOption ofNat line) = some line :=
    nullable?_ofOption rfl fun _ is => natBelow?_ofNat (lines _ is)
  have apart : operationMembers (("method", ofNat m) :: ("line", ofOption ofNat line) ::
      operation.members) = operation.members := by
    cases operation <;> rfl
  have fields : operation.members.filter (·.1 ≠ "kind") = operation.members.tail := by
    cases operation <;> rfl
  have distinct : ("method" :: "line" :: operation.members.map (·.1)).Nodup := by
    cases operation <;> simp [Operation.members]
  rw [toJson, ofJson?_eq_some, apart, fields]
  refine ⟨?_, Operation.within_members, operation.kindName, ?_, Operation.ofFields?_members fits⟩
  · rw [place?, record?_object (by exact distinct)]
    simp [Record.required?, Record.withDefault?, lookup_cons, handle, option]
  · rw [kind?, record?_object (nodup_cons.mp (nodup_cons.mp distinct).2).2]
    exact Operation.kindTag?_kindName

theorem Variable.ofJson?_toJson {var : Variable} (method : var.method < sizeLimit) :
    ofJson? var.toJson = some var := by
  simp [ofJson?, toJson, record?_object, Record.required?, lookup_cons, string?, size?,
    natBelow?_ofNat method]

theorem Field.ofJson?_toJson {field : Field} (owner : ∀ type ∈ field.owner, type < sizeLimit) :
    ofJson? field.toJson = some field := by
  have option : nullable? size? (ofOption ofNat field.owner) = some field.owner :=
    nullable?_ofOption rfl fun _ is => natBelow?_ofNat (owner _ is)
  simp [ofJson?, toJson, record?_object, Record.required?, Record.withDefault?, lookup_cons,
    string?, option]

theorem TypeName.ofJson?_toJson (type : TypeName) : ofJson? type.toJson = some type := rfl

namespace Program

variable {program : Program}

theorem ofJson?_toJson (fits : program.Representable) : ofJson? program.toJson = some program := by
  have within := fits.handles
  simp only [handles, forall_mem_append, forall_mem_map, forall_mem_flatMap,
    forall_mem_cons] at within
  obtain ⟨⟨⟨main, methods⟩, vars⟩, instructions⟩ := within
  have isMain : nullable? size? (ofOption ofNat program.main) = some program.main :=
    nullable?_ofOption rfl fun m is => natBelow?_ofNat (main m (Option.mem_toList.mpr is))
  have isMethods : list? Method.ofJson? (ofList Method.toJson program.methods) =
      some program.methods :=
    list?_ofList fun method mem => Method.ofJson?_toJson (methods method mem).1
      (methods method mem).2 (fits.methodLines method mem)
  have isInstructions : list? Instruction.ofJson? (ofList Instruction.toJson program.instructions) =
      some program.instructions :=
    list?_ofList fun i mem => Instruction.ofJson?_toJson (instructions i mem).1
      (fits.instructionLines i mem) (instructions i mem).2
  have isVars : list? Variable.ofJson? (ofList Variable.toJson program.vars) = some program.vars :=
    list?_ofList fun var mem => Variable.ofJson?_toJson (vars var mem)
  have isFields : list? Field.ofJson? (ofList Field.toJson program.fields) = some program.fields :=
    list?_ofList fun field mem => Field.ofJson?_toJson (fits.owners field mem)
  have isTypes : list? TypeName.ofJson? (ofList TypeName.toJson program.types) =
      some program.types :=
    list?_ofList fun type _ => TypeName.ofJson?_toJson type
  simp [ofJson?, toJson, record?_object, Record.optional?, Record.withDefault?, lookup_cons, isMain,
    isMethods, isInstructions, isVars, isFields, isTypes]

/-- Every program that is written as JSON is read back as it was, also when members of the objects
change places and when options without a value and fields with their default are left out. -/
theorem json_lossless {program : Program} (fits : program.Representable) {value : Json}
    (respelled : Relation.ReflTransGen Respells program.toJson value) :
    ofJson? value = some program := by
  induction respelled with
  | refl => exact ofJson?_toJson fits
  | tail _ change ih => exact stable_ofJson? change ih

theorem json_lossless_call :
    ofJson? (.object [("methods", .array []),
        ("instructions", .array [.object [("targets", .array []), ("kind", .string "invoke"),
          ("line", .null), ("method", .integer 0)]]),
        ("variables", .array []), ("fields", .array []), ("types", .array [])]) =
      some { instructions := [{ method := 0, operation := .invoke [] none }] } := by
  refine json_lossless ⟨by decide, by decide, by decide, by decide⟩
    (.head (.leaveOut [] _ (.inl rfl))
    (.head (.member [_] _ _ (.item [] [] (.leaveOut [_, _, _, _] [] (.inl rfl))))
      (.single (.member [_] _ _ (.item [] [] (.reorder (reverse_perm _).symm))))))

end Program

end ProgramAnalysis
