import ProgramAnalysis.Facts.Relations
import ProgramAnalysis.Proofs.Domain.Files
import ProgramAnalysis.Proofs.Store

/-!
What the domains and relations that are read off a program hold, and what publishing them leaves in
the store. A published domain is held under its name (`HeldBy`), a published relation is recorded in
its file (`RecordedBy`), and facts that are published later leave both in place (`Store.Factual`).
-/

namespace ProgramAnalysis

open List Store FactDomain Domain Program Step

variable {program : Program}

/-! ### Programs -/

variable {i : InstId} {instr : Instruction} {m target : MethodId}

namespace Program

theorem valid_of_validate (accepted : program.validate = .ok ()) : program.Valid := by
  unfold validate at accepted
  split at accepted
  · next none =>
    intro handle mem
    have inRange := find?_eq_none.mp none handle mem
    simpa using inRange
  · cases accepted

theorem entry_eq_ok {α : Type} {entity : Entity} {table : List α} {index : Nat} {a : α} :
    entry entity table index = .ok a ↔ table[index]? = some a := by
  unfold entry
  cases table[index]? with
  | none => simp
  | some other => simp

theorem mem_numberedInstructions : (i, instr) ∈ program.numberedInstructions ↔
      program.instructions[i]? = some instr :=
  mem_range_zip

theorem Valid.main_lt (valid : program.Valid) (isMain : program.main = some m) :
    m < program.methods.length := by
  refine valid (.method, m) ?_
  unfold handles
  rw [isMain]
  simp

theorem Valid.method_lt (valid : program.Valid) (found : program.instructions[i]? = some instr) :
    instr.method < program.methods.length := by
  refine valid (.method, instr.method) ?_
  refine mem_append_right _ (mem_flatMap.mpr ⟨instr, mem_of_getElem? found, ?_⟩)
  exact mem_cons_self

theorem Valid.target_lt (valid : program.Valid) (found : program.instructions[i]? = some instr)
    (calls : instr.operation = .invoke targets receiver) (mem : target ∈ targets) :
    target < program.methods.length := by
  refine valid (.method, target) ?_
  refine mem_append_right _ (mem_flatMap.mpr ⟨instr, mem_of_getElem? found, ?_⟩)
  rw [calls]
  exact mem_cons_of_mem _ (mem_append_left _ (mem_map_of_mem mem))

end Program

/-! ### Domains -/

variable {domain : FactDomain} {kind : ElementKind}

namespace FactDomain

variable {options : Options} {before after : Store}

theorem mem_instructionsWhere : i ∈ instructionsWhere program keep ↔
      ∃ instr, program.instructions[i]? = some instr ∧ keep instr = true := by
  unfold instructionsWhere
  rw [mem_map]
  constructor
  · rintro ⟨⟨_, instr⟩, kept, rfl⟩
    obtain ⟨numbered, satisfies⟩ := mem_filter.mp kept
    exact ⟨instr, mem_numberedInstructions.mp numbered, satisfies⟩
  · rintro ⟨instr, found, satisfies⟩
    exact ⟨(i, instr), mem_filter.mpr ⟨mem_numberedInstructions.mpr found, satisfies⟩, rfl⟩

theorem mem_methods (valid : program.Valid) :
    m ∈ (methods.ofProgram program).elements ↔ m < program.methods.length := by
  refine mem_ofList.trans ?_
  show m ∈ program.main.toList ++ program.methodIds ↔ _
  rw [mem_append, Option.mem_toList, methodIds, mem_range]
  exact or_iff_right_of_imp valid.main_lt

theorem mem_invokes : i ∈ (invokes.ofProgram program).elements ↔
      ∃ instr, program.instructions[i]? = some instr ∧ instr.isInvoke = true :=
  mem_ofList.trans mem_instructionsWhere

variable {other : FactDomain}

theorem name_injective (same : domain.name = other.name) : domain = other := by
  revert same
  cases domain <;> cases other <;> decide

/-- A store holds a domain as it is read off a program. -/
def HeldBy (domain : FactDomain) (program : Program) (store : Store) : Prop :=
  store.domains.get? domain.name = some ⟨domain.kind, (domain.ofProgram program).setFilled⟩

/-- Saving a domain writes no file that is named like that of a relation. -/
theorem read_save {domain : Domain kind} {dir : String} {before after : Disk}
    (saving : domain.save dir before = .ok () after) (ends : Path.EndsIn path 's')
    (found : before.read path = .ok content) : after.read path = .ok content := by
  refine (Domain.keeps_read_save (.inl ?_) (.inl ?_) before found).of_ok saving
  · exact Disk.apart_of_endsIn ends (endsIn_mapPath dir domain) (by decide)
  · exact Disk.apart_of_endsIn ends (endsIn_headerPath dir domain) (by decide)

/-- Publishing a domain puts it into the store, and leaves every file that is named like that of a
relation. -/
theorem exists_disk_of_publish (publishing : domain.publish options program before = .ok () after) :
    ∃ disk, after = { before.putDomain (domain.ofProgram program) with disk } ∧
      ∀ path content, Path.EndsIn path 's' → before.disk.read path = .ok content →
        disk.read path = .ok content := by
  obtain ⟨_, _, put, rest⟩ := bind_eq_ok.mp publishing
  cases put
  obtain ⟨_, _, saving, rest⟩ := bind_eq_ok.mp rest
  obtain ⟨_, disk, _, rfl, saved⟩ := saveDomain_eq_ok saving
  split at rest
  · obtain ⟨any, disk, rfl, reported⟩ := saveDomainReport_eq_ok rest
    have ending : Path.EndsIn (any.domain.name ++ ".xml") 'l' :=
      Path.EndsIn.append ⟨rfl, by decide, by decide⟩ _
    exact ⟨disk, rfl, fun _ _ ends found => (Disk.spares_saveText _ _ ending _ _ _ ends (by decide)
      _ (read_save saved ends found)).of_ok reported⟩
  · cases rest
    exact ⟨disk, rfl, fun _ _ ends found => read_save saved ends found⟩

theorem publish_eq_ok (publishing : domain.publish options program before = .ok () after) :
    (∃ disk, after = { before.putDomain (domain.ofProgram program) with disk }) ∧
      ∀ name tuples, before.Saved name tuples → after.Saved name tuples := by
  obtain ⟨disk, rfl, read⟩ := exists_disk_of_publish publishing
  refine ⟨⟨disk, rfl⟩, fun name tuples saved => ?_⟩
  have saved : (before.putDomain (domain.ofProgram program)).Saved name tuples := saved
  exact saved.of_disk read

theorem get?_putDomain (domain : FactDomain) (store : Store) (name : String) :
    (store.putDomain (domain.ofProgram program)).domains.get? name =
      if domain.name = name then some ⟨domain.kind, (domain.ofProgram program).setFilled⟩
      else store.domains.get? name := by
  refine (Table.get?_insert _ _ _ _).trans ?_
  rw [ofProgram, name_ofList]

theorem heldBy_publish {domain other : FactDomain}
    (publishing : domain.publish options program before = .ok () after)
    (either : domain = other ∨ other.HeldBy program before) : other.HeldBy program after := by
  obtain ⟨⟨disk, rfl⟩, _⟩ := publish_eq_ok publishing
  refine (get?_putDomain domain before other.name).trans ?_
  split
  · next same => rw [name_injective same]
  · next differs =>
    rcases either with rfl | held
    · exact absurd rfl differs
    · exact held

theorem forM_publish_eq_ok {domains : List FactDomain}
    (publishing : (domains.forM fun domain => domain.publish options program) before =
      .ok () after) :
    (∀ domain ∈ domains, domain.HeldBy program after) ∧
      (∀ other : FactDomain, other.HeldBy program before → other.HeldBy program after) ∧
      after.signature? = before.signature? := by
  induction domains generalizing before with
  | nil =>
    cases publishing
    exact ⟨nofun, fun _ held => held, rfl⟩
  | cons domain rest ih =>
    obtain ⟨_, between, publishFirst, publishRest⟩ := bind_eq_ok.mp publishing
    obtain ⟨held, keeps, signatures⟩ := ih publishRest
    have sameSignatures : between.signature? = before.signature? := by
      obtain ⟨⟨disk, rfl⟩, _⟩ := publish_eq_ok publishFirst
      rfl
    refine ⟨fun other mem => ?_, fun other before' =>
      keeps other (heldBy_publish publishFirst (.inr before')), signatures.trans sameSignatures⟩
    rcases mem_cons.mp mem with rfl | later
    · exact keeps other (heldBy_publish publishFirst (.inl rfl))
    · exact held other later

end FactDomain

/-! ### Relations -/

theorem enclosingMethod_eq_ok {methods : Domain .method} {answer : Option Nat} :
    enclosingMethod program methods i = .ok answer ↔
      ∃ instr, program.instructions[i]? = some instr ∧
        methods.indexOf instr.method = .ok answer := by
  unfold enclosingMethod
  rw [except_bind_eq_ok]
  refine exists_congr fun instr => and_congr_left fun _ => ?_
  rw [mapError_eq_ok]
  exact entry_eq_ok

theorem Remap.apply_lt {remap : Remap} (below : target < program.methods.length)
    (applied : remap.apply program target = some m) :
    m < program.methods.length := by
  unfold Remap.apply at applied
  split at applied
  · cases applied
    exact below
  · split at applied
    · cases applied
      exact below
    · exact (findIdx?_eq_some_iff_getElem.mp applied).1

variable {files : List String}

namespace FactRelation

variable {remap : Remap} {before after : Store} {relation : FactRelation}

variable {pairs : List (Nat × Nat)} {x y : Nat}

theorem lt_of_mem_targets (valid : program.Valid) (found : program.instructions[i]? = some instr)
    (mem : m ∈ targets program remap instr) : m < program.methods.length := by
  unfold targets at mem
  split at mem
  · next calls =>
    obtain ⟨target, among, applied⟩ := mem_filterMap.mp mem
    exact Remap.apply_lt (valid.target_lt found calls among) applied
  · cases mem

theorem isInvoke_of_mem_targets (mem : m ∈ targets program remap instr) :
    instr.isInvoke = true := by
  obtain ⟨method, line, operation⟩ := instr
  cases operation with
  | invoke targets receiver => rfl
  | _ => exact absurd mem not_mem_nil

theorem publish_eq_ok (publishing : relation.publish remap program before = .ok () after) :
    ∃ pairs, relation.pairs remap program before = .ok pairs ∧
      before.KeepsBut [fileOf relation.name] after ∧
      after.Saved relation.name (.ofList (pairs.map fun pair => [pair.1, pair.2])) := by
  obtain ⟨pairs, found, filling⟩ := query_bind_eq_ok.mp publishing
  have plain : Path.Plain (fileOf relation.name) := plain_fileOf (by cases relation <;> decide)
  obtain ⟨keeps, saved⟩ := fillRelation_eq_ok plain filling
  exact ⟨pairs, found, keeps, saved⟩

/-- Only call targets are replaced. -/
theorem publish_remap (same : relation = .invokeTargets → used = remap) :
    relation.publish used program = relation.publish remap program := by
  cases relation with
  | invokeTargets => rw [same rfl]
  | _ => rfl

theorem eq_of_fileOf {other : FactRelation}
    (same : fileOf other.name = fileOf relation.name) : other = relation := by
  revert same
  cases other <;> cases relation <;> decide

/-- Domains that are added to a store do not change a relation whose own domains were there. -/
theorem pairs_mono (grows : ∀ name any, before.domains.get? name = some any →
      after.domains.get? name = some any)
    (made : relation.pairs remap program before = .ok pairs) :
    relation.pairs remap program after = .ok pairs := by
  have still {kind : ElementKind} {name : String} {domain : Domain kind}
      (found : before.domain kind name = .ok domain) : after.domain kind name = .ok domain :=
    domain_eq_ok (grows name _ (get?_of_domain found))
  cases relation with
  | _ =>
    obtain ⟨first, foundFirst, rest⟩ := except_bind_eq_ok.mp made
    obtain ⟨second, foundSecond, made⟩ := except_bind_eq_ok.mp rest
    exact except_bind_eq_ok.mpr
      ⟨first, still foundFirst, except_bind_eq_ok.mpr ⟨second, still foundSecond, made⟩⟩

/-- The file of a relation lists the pairs that would be computed now. -/
def RecordedBy (relation : FactRelation) (remap : Remap) (program : Program) (store : Store) :
    Prop :=
  ∃ pairs, relation.pairs remap program store = .ok pairs ∧
    store.Saved relation.name (.ofList (pairs.map fun pair => [pair.1, pair.2]))

theorem RecordedBy.of_keepsBut (recorded : relation.RecordedBy remap program before)
    (keeps : before.KeepsBut files after) (other : fileOf relation.name ∉ files) :
    relation.RecordedBy remap program after := by
  obtain ⟨pairs, made, saved⟩ := recorded
  have plain := plain_fileOf (show '/' ∉ relation.name.toList by cases relation <;> decide)
  exact ⟨pairs, pairs_mono (fun _ _ found => by rwa [keeps.domains]) made,
    saved.of_keepsBut keeps plain other⟩

end FactRelation

/-! ### What stays published -/

/-- Under the names of domains and relations that are read off a program a store has nothing
else. -/
structure Store.Factual (program : Program) (store : Store) : Prop where
  domains : ∀ (domain : FactDomain) (any : AnyDomain),
    store.domains.get? domain.name = some any → domain.HeldBy program store
  signatures : ∀ (relation : FactRelation) (signature : Signature),
    store.signature? relation.name = some signature → signature = relation.signature

namespace Store.Factual

variable {options : Options} {remap : Remap} {before after : Store}

theorem publish_domain (factual : before.Factual program)
    (publishing : domain.publish options program before = .ok () after) :
    after.Factual program ∧ ∀ relation : FactRelation,
      relation.RecordedBy remap program before → relation.RecordedBy remap program after := by
  have held {other : FactDomain} := @FactDomain.heldBy_publish _ _ _ _ _ other publishing
  obtain ⟨⟨disk, rfl⟩, keeps⟩ := publish_eq_ok publishing
  refine ⟨⟨fun other any found => held ?_, factual.signatures⟩, ?_⟩
  · by_cases same : domain = other
    · exact .inl same
    · have there := (get?_putDomain domain before other.name).symm.trans found
      rw [if_neg fun name => same (name_injective name)] at there
      exact .inr (factual.domains other any there)
  · rintro relation ⟨pairs, made, saved⟩
    refine ⟨pairs, FactRelation.pairs_mono (fun name any found => ?_) made, keeps _ _ saved⟩
    refine (get?_putDomain domain before name).trans ?_
    split
    · next same =>
      subst same
      exact (factual.domains domain any found).symm.trans found
    · exact found

theorem of_keepsBut (factual : before.Factual program) (keeps : before.KeepsBut files after) :
    after.Factual program := by
  constructor
  · intro domain any found
    unfold HeldBy
    rw [keeps.domains] at found ⊢
    exact factual.domains domain any found
  · intro relation sig found
    rw [keeps.signatures] at found
    exact factual.signatures relation sig found

theorem declare (factual : before.Factual program) {relation : FactRelation}
    (declaring : before.declare relation.name relation.signature = .ok after) :
    after.Factual program := by
  unfold Store.declare at declaring
  split at declaring
  · cases declaring
    refine ⟨factual.domains, fun other sig found => ?_⟩
    rw [signature?, get?_putRelation] at found
    split at found
    · next same =>
      obtain rfl := FactRelation.eq_of_fileOf (congrArg fileOf same)
      cases found
      rfl
    · exact factual.signatures other sig found
  · split at declaring
    · cases declaring
      exact factual
    · cases declaring

theorem publish_relation (factual : before.Factual program) {relation : FactRelation}
    (publishing : relation.publish remap program before = .ok () after) :
    after.Factual program ∧ relation.RecordedBy remap program after ∧ ∀ other : FactRelation,
      other.RecordedBy remap program before → other.RecordedBy remap program after := by
  obtain ⟨pairs, made, keeps, saved⟩ := FactRelation.publish_eq_ok publishing
  have recorded : relation.RecordedBy remap program after :=
    ⟨pairs, FactRelation.pairs_mono (fun _ _ found => by rwa [keeps.domains]) made, saved⟩
  refine ⟨factual.of_keepsBut keeps, recorded, fun other recorded' => ?_⟩
  by_cases same : fileOf other.name = fileOf relation.name
  · rwa [FactRelation.eq_of_fileOf same]
  · exact recorded'.of_keepsBut keeps (by simpa using same)

end Store.Factual

end ProgramAnalysis
