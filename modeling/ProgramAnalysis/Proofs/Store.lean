import ProgramAnalysis.Proofs.Relation.Files
import ProgramAnalysis.Store

/-!
What is saved in the work directory of a store, and what operations on other files leave of it. Each
operation is taken apart once and says which files it may touch (`KeepsBut`); whatever is saved in
others stays. Loading a relation reads the store only (`loaded`) and then enters the result.
-/

namespace ProgramAnalysis

open Step List SortedSet Disk

namespace Store

variable {store before between after : Store} {name : String} {tuples : SortedSet Tuple}

/-- The file of a relation lists exactly some tuples. -/
def Saved (store : Store) (name : String) (tuples : SortedSet Tuple) : Prop :=
  ∃ relation sizes, store.relations.get? name = some relation ∧
    store.disk.read (relation.filePath store.dir) = .ok (.text (relation.fileText sizes tuples))

/-- The file of a relation. -/
def fileOf (name : String) : String := name ++ ".tuples"

theorem endsIn_fileOf : Path.EndsIn (fileOf name) 's' :=
  Path.EndsIn.append ⟨rfl, by decide, by decide⟩ name

variable {relation : Relation}

theorem filePath_eq (found : store.relations.get? name = some relation) :
    relation.filePath store.dir = Path.join store.dir (fileOf name) := by
  rw [Relation.filePath, store.named name relation found]
  rfl

/-! ### Taking steps apart -/

theorem query_eq_ok {α : Type} {f : Store → Except Fault α} {a : α} :
    query f before = .ok a after ↔ f before = .ok a ∧ before = after := by
  unfold query
  cases f before with
  | ok value => simp
  | error fault => simp

theorem query_bind_eq_ok {α β : Type} {f : Store → Except Fault α} {g : α → Step Store β} {b : β} :
    (query f >>= g) before = .ok b after ↔ ∃ a, f before = .ok a ∧ g a before = .ok b after := by
  simp [bind_eq_ok, query_eq_ok, and_assoc]

theorem relation_eq_ok :
    store.relation name = .ok relation ↔ store.relations.get? name = some relation := by
  unfold Store.relation
  cases store.relations.get? name with
  | none => simp
  | some other => simp

theorem anyDomain_eq_ok {any : AnyDomain} :
    store.anyDomain name = .ok any ↔ store.domains.get? name = some any := by
  unfold anyDomain
  cases store.domains.get? name with
  | none => simp
  | some other => simp

theorem onDisk_eq_ok {α : Type} {step : Step Disk α} {a : α} : onDisk step before = .ok a after ↔
      ∃ disk, step before.disk = .ok a disk ∧ after = { before with disk } :=
  onPart_eq_ok

theorem saveDomain_eq_ok (saving : saveDomain name before = .ok () after) :
    ∃ any disk, before.domains.get? name = some any ∧ after = { before with disk } ∧
      any.domain.save before.dir before.disk = .ok () disk := by
  obtain ⟨any, found, rest⟩ := query_bind_eq_ok.mp saving
  rw [get_bind] at rest
  obtain ⟨disk, saved, same⟩ := onDisk_eq_ok.mp rest
  exact ⟨any, disk, anyDomain_eq_ok.mp found, same, saved⟩

variable {dir : String}

theorem saveDomainReport_eq_ok {program : Program}
    (saving : saveDomainReport name dir program before = .ok () after) :
    ∃ (any : AnyDomain) (disk : Disk), after = { before with disk } ∧
      any.domain.saveReport dir program before.disk = .ok () disk := by
  obtain ⟨any, _, rest⟩ := query_bind_eq_ok.mp saving
  obtain ⟨disk, saved, same⟩ := onDisk_eq_ok.mp rest
  exact ⟨any, disk, same, saved⟩

variable {kind : ElementKind} {domain : Domain kind}

theorem domain_eq_ok (found : store.domains.get? name = some ⟨kind, domain⟩) :
    store.domain kind name = .ok domain := by
  unfold Store.domain
  refine except_bind_eq_ok.mpr ⟨_, anyDomain_eq_ok.mpr found, ?_⟩
  rw [AnyDomain.ofKind?, dif_pos rfl]
  rfl

theorem get?_of_domain (found : store.domain kind name = .ok domain) :
    store.domains.get? name = some ⟨kind, domain⟩ := by
  obtain ⟨⟨other, there⟩, isThere, rest⟩ := except_bind_eq_ok.mp found
  rw [anyDomain_eq_ok] at isThere
  split at rest
  · next taken =>
    unfold AnyDomain.ofKind? at taken
    split at taken
    · next same =>
      obtain rfl : other = kind := same
      cases taken
      cases rest
      exact isThere
    · cases taken
  · cases rest

theorem get?_putRelation : (store.putRelation relation).relations.get? other =
      if relation.name = other then some relation else store.relations.get? other :=
  Table.get?_insert _ _ _ _

/-! ### What stays -/

/-- The signature of a relation. -/
def signature? (store : Store) (name : String) : Option Signature :=
  (store.relations.get? name).map (·.signature)

/-- Apart from some files of the work directory everything is as it was, except that relations may
have been opened and closed. -/
structure KeepsBut (files : List String) (before after : Store) : Prop where
  dir : after.dir = before.dir
  domains : after.domains = before.domains
  signatures : ∀ name, after.signature? name = before.signature? name
  read : ∀ file content, Path.Plain file → file ∉ files →
    before.disk.read (Path.join before.dir file) = .ok content →
      after.disk.read (Path.join before.dir file) = .ok content

/-- Everything is as it was, except that relations may have been opened and closed. -/
structure SameData (before after : Store) : Prop where
  disk : after.disk = before.disk
  dir : after.dir = before.dir
  domains : after.domains = before.domains
  signatures : ∀ name, after.signature? name = before.signature? name

theorem SameData.refl (store : Store) : store.SameData store := ⟨rfl, rfl, rfl, fun _ => rfl⟩

theorem SameData.trans (same : before.SameData between) (same' : between.SameData after) :
    before.SameData after where
  disk := same'.disk.trans same.disk
  dir := same'.dir.trans same.dir
  domains := same'.domains.trans same.domains
  signatures name := (same'.signatures name).trans (same.signatures name)

theorem SameData.symm (same : before.SameData after) : after.SameData before where
  disk := same.disk.symm
  dir := same.dir.symm
  domains := same.domains.symm
  signatures name := (same.signatures name).symm

theorem SameData.keepsBut (same : before.SameData after) (files : List String) :
    before.KeepsBut files after where
  dir := same.dir
  domains := same.domains
  signatures := same.signatures
  read file content _ _ found := by rwa [same.disk]

variable {files : List String}

theorem KeepsBut.trans (keeps : before.KeepsBut files between)
    (keeps' : between.KeepsBut files after) : before.KeepsBut files after where
  dir := keeps'.dir.trans keeps.dir
  domains := keeps'.domains.trans keeps.domains
  signatures name := (keeps'.signatures name).trans (keeps.signatures name)
  read file content plain other found := by
    have still := keeps.read file content plain other found
    rw [← keeps.dir] at still ⊢
    exact keeps'.read file content plain other still

theorem KeepsBut.mono (keeps : before.KeepsBut files after) (among : files ⊆ more) :
    before.KeepsBut more after where
  dir := keeps.dir
  domains := keeps.domains
  signatures := keeps.signatures
  read file content plain other := keeps.read file content plain fun mem => other (among mem)

theorem Saved.of_keepsBut (saved : before.Saved name tuples) (keeps : before.KeepsBut files after)
    (plain : Path.Plain (fileOf name)) (other : fileOf name ∉ files) : after.Saved name tuples := by
  obtain ⟨relation, sizes, found, listed⟩ := saved
  have sig := keeps.signatures name
  unfold signature? at sig
  rw [found, Option.map_some] at sig
  obtain ⟨relation', found', same⟩ := Option.map_eq_some_iff.mp sig
  refine ⟨relation', sizes, found', ?_⟩
  rw [filePath_eq found] at listed
  rw [filePath_eq found', keeps.dir, keeps.read _ _ plain other listed, Relation.fileText,
    Relation.fileText, same]

variable {disk : Disk}

theorem Saved.of_disk (saved : store.Saved name tuples)
    (read : ∀ path content, Path.EndsIn path 's' → store.disk.read path = .ok content →
      disk.read path = .ok content) : Saved { store with disk } name tuples := by
  obtain ⟨relation, sizes, found, listed⟩ := saved
  refine ⟨relation, sizes, found, read _ _ ?_ listed⟩
  rw [filePath_eq found]
  exact endsIn_fileOf.join store.dir

theorem sameData_putRelation {changed : Relation}
    (found : store.relations.get? name = some relation) (named : changed.name = name)
    (sig : changed.signature = relation.signature) :
    store.SameData (store.putRelation changed) := by
  refine ⟨rfl, rfl, rfl, fun other => ?_⟩
  unfold signature?
  rw [get?_putRelation]
  split
  · next same =>
    rw [← same, named, found, Option.map_some, Option.map_some, sig]
  · rfl

/-! ### Filling a relation -/

theorem plain_fileOf (noSlash : '/' ∉ name.toList) : Path.Plain (fileOf name) :=
  Path.plain_append (by decide) noSlash (by decide)

theorem keepsBut_onDisk (read : ∀ file content, Path.Plain file → file ∉ files →
      store.disk.read (Path.join store.dir file) = .ok content →
        disk.read (Path.join store.dir file) = .ok content) :
    store.KeepsBut files { store with disk } :=
  ⟨rfl, rfl, fun _ => rfl, read⟩

theorem zero_eq_ok {after : Disk} (zeroed : relation.zero dir disk = .ok opened after) :
    opened = { relation with tuples := some .empty } ∧ (disk = after ∨
      ∃ location, disk.locate? (relation.filePath dir) = some location ∧
        ChangesAt location disk after) := by
  obtain ⟨_, _, got, rest⟩ := bind_eq_ok.mp zeroed
  cases got
  dsimp only at rest
  split at rest
  · obtain ⟨_, _, changed, rest⟩ := bind_eq_ok.mp rest
    cases rest
    unfold change at changed
    split at changed
    · next removed =>
      cases changed
      exact ⟨rfl, .inr (remove_eq_ok removed)⟩
    · cases changed
  · cases rest
    exact ⟨rfl, .inl rfl⟩

theorem zeroRelation_eq_ok (plain : Path.Plain (fileOf name))
    (zeroed : zeroRelation name before = .ok () after) :
    before.KeepsBut [fileOf name] after ∧ ∃ relation, before.relations.get? name = some relation ∧
      after.relations.get? name = some { relation with tuples := some .empty } := by
  obtain ⟨relation, found, rest⟩ := query_bind_eq_ok.mp zeroed
  rw [relation_eq_ok] at found
  rw [get_bind] at rest
  obtain ⟨opened, _, onDisk, rest⟩ := bind_eq_ok.mp rest
  obtain ⟨disk, opening, rfl⟩ := onDisk_eq_ok.mp onDisk
  cases rest
  have named := before.named name relation found
  obtain ⟨rfl, removed⟩ := zero_eq_ok opening
  refine ⟨?_, relation, found, ?_⟩
  · have changed : before.KeepsBut [fileOf name] { before with disk } := by
      refine keepsBut_onDisk fun file content plain' other read => ?_
      rcases removed with rfl | ⟨location, located, changes⟩
      · exact read
      · rw [filePath_eq found] at located
        exact changes.read located
          (apart_join plain' plain (fun same => other (mem_singleton.mpr same)) _) read
    have same : ({ before with disk } : Store).SameData (putRelation { before with disk }
        { relation with tuples := some .empty }) := sameData_putRelation found named rfl
    exact changed.trans (same.keepsBut _)
  · exact get?_putRelation.trans (if_pos named)

theorem add_eq_ok {tuples : SortedSet Tuple}
    (adding : ({ relation with tuples := some tuples } : Relation).add tuple =
      .ok (extended, fresh)) :
    extended = { relation with tuples := some (tuples.insert tuple) } := by
  obtain ⟨contents, has, rest⟩ := except_bind_eq_ok.mp adding
  cases has
  dsimp only at rest
  split at rest
  · cases rest
  · cases rest
    rfl

variable {added : List Tuple}

theorem addTuples_eq_ok {count : Nat} {tuples : SortedSet Tuple}
    (found : before.relations.get? name = some { relation with tuples := some tuples })
    (adding : addTuples name added before = .ok count after) :
    before.SameData after ∧ ∃ extended : SortedSet Tuple,
      after.relations.get? name = some { relation with tuples := some extended } ∧
      ∀ tuple, tuple ∈ extended ↔ tuple ∈ tuples ∨ tuple ∈ added := by
  induction added generalizing before count tuples with
  | nil =>
    cases adding
    exact ⟨.refl _, tuples, found, fun tuple => by simp⟩
  | cons tuple rest ih =>
    obtain ⟨fresh, between, addingOne, later⟩ := bind_eq_ok.mp adding
    obtain ⟨others, _, addingRest, same⟩ := bind_eq_ok.mp later
    cases same
    obtain ⟨opened, answer, later⟩ := query_bind_eq_ok.mp addingOne
    rw [relation_eq_ok, found] at answer
    cases answer
    obtain ⟨⟨extended, isFresh⟩, _, extending, later⟩ := bind_eq_ok.mp later
    obtain ⟨made, rfl⟩ := ofExcept_eq_ok.mp extending
    cases later
    have named : relation.name = name :=
      before.named name { relation with tuples := some tuples } found
    obtain rfl := add_eq_ok made
    have there : (before.putRelation { relation with tuples := some (tuples.insert tuple) }
        ).relations.get? name = some { relation with tuples := some (tuples.insert tuple) } :=
      get?_putRelation.trans (if_pos named)
    obtain ⟨same, extended, has, mem⟩ := ih there addingRest
    have first : before.SameData
        (before.putRelation { relation with tuples := some (tuples.insert tuple) }) :=
      sameData_putRelation found named rfl
    refine ⟨first.trans same, extended, has, fun other => ?_⟩
    rw [mem, mem_insert, mem_cons, or_assoc, or_left_comm]

theorem saveRelation_eq_ok (plain : Path.Plain (fileOf name))
    (found : before.relations.get? name = some { relation with tuples := some tuples })
    (saving : saveRelation name before = .ok () after) :
    before.KeepsBut [fileOf name] after ∧ after.relations.get? name =
      some { relation with tuples := some tuples } ∧ after.Saved name tuples := by
  obtain ⟨opened, answer, rest⟩ := query_bind_eq_ok.mp saving
  rw [relation_eq_ok, found] at answer
  cases answer
  obtain ⟨sizes, _, rest⟩ := query_bind_eq_ok.mp rest
  rw [get_bind] at rest
  obtain ⟨disk, written, rfl⟩ := onDisk_eq_ok.mp rest
  obtain ⟨_, contents, writing⟩ := ofExcept_bind_eq_ok.mp written
  cases contents
  have named : relation.name = name :=
    before.named name { relation with tuples := some tuples } found
  have writing : saveText before.dir (fileOf name)
      (Relation.fileText { relation with tuples := some tuples } sizes tuples) before.disk =
        .ok () disk := by
    rw [← named]
    exact writing
  refine ⟨keepsBut_onDisk fun file content plain' other read => ?_, found, _, sizes, found, ?_⟩
  · exact (keeps_read_saveText _ (.inl (apart_join plain' plain
      (fun same => other (mem_singleton.mpr same)) _)) before.disk read).of_ok writing
  have listed := read_saveText writing
  rwa [← filePath_eq found] at listed

theorem closeRelation_eq_ok (closing : closeRelation name before = .ok () after) :
    before.SameData after := by
  obtain ⟨relation, found, rest⟩ := query_bind_eq_ok.mp closing
  rw [relation_eq_ok] at found
  cases rest
  exact sameData_putRelation found (before.named name relation found) rfl

theorem fillRelation_eq_ok (plain : Path.Plain (fileOf name))
    (filling : fillRelation name added before = .ok () after) :
    before.KeepsBut [fileOf name] after ∧ after.Saved name (.ofList added) := by
  obtain ⟨_, first, zeroing, rest⟩ := bind_eq_ok.mp filling
  obtain ⟨_, second, adding, rest⟩ := bind_eq_ok.mp rest
  obtain ⟨_, third, saving, closing⟩ := bind_eq_ok.mp rest
  obtain ⟨keeps, relation, _, empty⟩ := zeroRelation_eq_ok plain zeroing
  obtain ⟨same, extended, full, mem⟩ := addTuples_eq_ok empty adding
  obtain ⟨keeps', _, saved⟩ := saveRelation_eq_ok plain full saving
  have last := closeRelation_eq_ok closing
  have exactly : extended = .ofList added := ext fun tuple => by
    rw [mem, mem_ofList]
    exact or_iff_right nofun
  refine ⟨((keeps.trans (same.keepsBut _)).trans keeps').trans (last.keepsBut _), ?_⟩
  rw [← exactly]
  exact saved.of_keepsBut (last.keepsBut []) plain not_mem_nil

/-- Filling several relations with different names saves each of them. -/
theorem forIn_fillRelation_eq_ok {entries : List (String × List Tuple)}
    (plain : ∀ entry ∈ entries, Path.Plain (fileOf entry.1))
    (distinct : (entries.map fun entry => fileOf entry.1).Nodup)
    (filling : (forIn entries PUnit.unit fun (entry : String × List Tuple) _ => do
      fillRelation entry.1 entry.2
      pure (ForInStep.yield PUnit.unit)) before = .ok result after) :
    before.KeepsBut (entries.map fun entry => fileOf entry.1) after ∧
      ∀ entry ∈ entries, after.Saved entry.1 (.ofList entry.2) := by
  induction entries generalizing before with
  | nil =>
    cases filling
    exact ⟨(SameData.refl _).keepsBut _, nofun⟩
  | cons entry rest ih =>
    rw [forIn_cons] at filling
    obtain ⟨_, between, fillingFirst, fillingRest⟩ := bind_eq_ok.mp filling
    obtain ⟨_, _, fillingFirst, yielded⟩ := bind_eq_ok.mp fillingFirst
    cases yielded
    have plainFirst := plain entry mem_cons_self
    obtain ⟨other, distinct⟩ := nodup_cons.mp distinct
    obtain ⟨keeps, saved⟩ := fillRelation_eq_ok plainFirst fillingFirst
    obtain ⟨keeps', saved'⟩ := ih
      (fun entry mem => plain entry (mem_cons_of_mem _ mem)) distinct fillingRest
    refine ⟨(keeps.mono ?_).trans (keeps'.mono ?_), fun other mem => ?_⟩
    · intro file mem
      rw [mem_singleton.mp mem]
      exact mem_cons_self
    · exact subset_cons_self _ _
    · rcases mem_cons.mp mem with rfl | later
      · exact saved.of_keepsBut keeps' plainFirst ‹_›
      · exact saved' other later

/-! ### Loading -/

variable {opened : Option (SortedSet Tuple)} {sizes : List Nat} {lines : List (Option String)}

theorem readTuples_congr {tuples : SortedSet Tuple} :
    ({ relation with tuples := opened } : Relation).readTuples sizes tuples lines =
      relation.readTuples sizes tuples lines := by
  induction lines generalizing tuples with
  | nil => rfl
  | cons line rest ih =>
    cases line with
    | none => rfl
    | some line =>
      rw [Relation.readTuples, Relation.readTuples]
      refine congrArg (Except.bind _) (funext fun tuple => ?_)
      cases tuple with
      | none => exact ih
      | some tuple => exact ih

theorem readLines_congr : ({ relation with tuples := opened } : Relation).readLines sizes lines =
      relation.readLines sizes lines := by
  cases lines with
  | nil => rfl
  | cons line rest =>
    cases line with
    | none => rfl
    | some header => exact congrArg (Except.bind _) (funext fun _ => readTuples_congr)

/-- Loading does not depend on whether the relation is open. -/
theorem load_congr (dir : String) (sizes : List Nat) (disk : Disk) :
    ({ relation with tuples := opened } : Relation).load dir sizes disk =
      relation.load dir sizes disk := by
  unfold Relation.load
  simp only [readLines_congr]
  rfl

/-- A relation as it is loaded. -/
def loaded (store : Store) (name : String) : Except Fault Relation := do
  let relation ← store.relation name
  let sizes ← store.sizes relation.signature
  relation.load store.dir sizes store.disk

theorem SameData.sizeOf (same : before.SameData after) (name : String) :
    after.sizeOf name = before.sizeOf name := by
  unfold Store.sizeOf
  rw [same.domains, same.disk, same.dir]

theorem SameData.loaded (same : before.SameData after) (name : String) :
    after.loaded name = before.loaded name := by
  have sig := same.signatures name
  unfold signature? at sig
  unfold Store.loaded Store.relation Store.sizes
  cases found : before.relations.get? name with
  | none =>
    rw [found, Option.map_none, Option.map_eq_none_iff] at sig
    rw [sig]
    rfl
  | some relation =>
    rw [found, Option.map_some] at sig
    obtain ⟨other, found', sameSignature⟩ := Option.map_eq_some_iff.mp sig
    have named := before.named name relation found
    obtain ⟨otherName, otherSignature, opened⟩ := other
    have named' : otherName = name := after.named name _ found'
    subst otherName
    cases sameSignature
    rw [found']
    show (do
      let sizes ← relation.signature.domains.mapM after.sizeOf
      Relation.load ⟨name, relation.signature, opened⟩ after.dir sizes after.disk) = (do
      let sizes ← relation.signature.domains.mapM before.sizeOf
      relation.load before.dir sizes before.disk)
    have closed : (⟨name, relation.signature, opened⟩ : Relation) =
        { relation with tuples := opened } := by rw [named]
    rw [closed, funext same.sizeOf, same.dir, same.disk]
    simp only [load_congr]

/-- The pairs that are loaded from a relation. -/
def pairsOf (store : Store) (name : String) : Except Fault (List (Nat × Nat)) := do
  let relation ← store.relation name
  let sizes ← store.sizes relation.signature
  let loaded ← relation.load store.dir sizes store.disk
  loaded.columns 0 1

theorem pairsOf_eq (store : Store) (name : String) :
    store.pairsOf name = store.loaded name >>= (·.columns 0 1) := by
  simp only [pairsOf, loaded, bind_assoc]

theorem SameData.pairsOf (same : before.SameData after) (name : String) :
    after.pairsOf name = before.pairsOf name := by
  rw [pairsOf_eq, pairsOf_eq, same.loaded]

/-- A relation that cannot be loaded stays as it is, and so does everything else. -/
theorem loadRelation_eq (name : String) (store : Store) : loadRelation name store =
      match store.loaded name with
      | .ok relation => .ok relation (store.putRelation relation)
      | .error fault => .error fault store := by
  have answer {α : Type} (f : Store → Except Fault α) (next : α → Step Store Relation) :
      (query f >>= next) store = (Step.ofExcept (f store) >>= next) store := by
    show EStateM.bind (query f) next store = _
    rw [EStateM.bind, query]
    cases f store <;> rfl
  rw [loadRelation, answer, loaded]
  cases store.relation name with
  | error fault => rfl
  | ok declared =>
    dsimp only [bind, Except.bind]
    refine (answer _ _).trans ?_
    cases store.sizes declared.signature with
    | error fault => rfl
    | ok sizes =>
      dsimp only
      show (Step.ofExcept (declared.load store.dir sizes store.disk) >>= _) store = _
      cases declared.load store.dir sizes store.disk <;> rfl

theorem loadRelation_eq_ok_iff : loadRelation name before = .ok relation after ↔
      before.loaded name = .ok relation ∧ after = before.putRelation relation := by
  rw [loadRelation_eq]
  cases before.loaded name with
  | error fault => simp
  | ok other =>
    rw [EStateM.Result.ok.injEq, Except.ok.injEq]
    exact and_congr_right fun same => same ▸ eq_comm

theorem loaded_eq_ok : store.loaded name = .ok relation ↔ ∃ declared sizes,
      store.relations.get? name = some declared ∧ store.sizes declared.signature = .ok sizes ∧
        declared.load store.dir sizes store.disk = .ok relation := by
  simp only [loaded, except_bind_eq_ok, relation_eq_ok, exists_and_left]

theorem loadRelation_eq_ok (loading : loadRelation name before = .ok relation after) :
    before.SameData after ∧ after = before.putRelation relation ∧
      ∃ declared sizes, before.relations.get? name = some declared ∧
        before.sizes declared.signature = .ok sizes ∧
        declared.load before.dir sizes before.disk = .ok relation := by
  obtain ⟨loads, rfl⟩ := loadRelation_eq_ok_iff.mp loading
  obtain ⟨declared, sizes, found, sized, made⟩ := loaded_eq_ok.mp loads
  obtain ⟨_, tuples, _, _, rfl⟩ := Relation.load_eq_ok.mp made
  exact ⟨sameData_putRelation found (before.named name declared found) rfl, rfl, declared, sizes,
    found, sized, made⟩

theorem get?_loadRelation (loading : loadRelation name before = .ok relation after)
    (other : String) :
    after.relations.get? other =
      if name = other then some relation else before.relations.get? other := by
  obtain ⟨_, rfl, declared, _, found, _, loads⟩ := loadRelation_eq_ok loading
  obtain ⟨_, _, _, _, rfl⟩ := Relation.load_eq_ok.mp loads
  refine get?_putRelation.trans ?_
  rw [show Relation.name { declared with tuples := _ } = name from before.named name declared found]

variable {pairs : List (Nat × Nat)}

theorem takePairs_eq_ok (taking : takePairs name before = .ok pairs after) :
    before.SameData after ∧ before.pairsOf name = .ok pairs := by
  obtain ⟨relation, between, loading, rest⟩ := bind_eq_ok.mp taking
  obtain ⟨found, columns, rest⟩ := ofExcept_bind_eq_ok.mp rest
  obtain ⟨_, last, closing, same⟩ := bind_eq_ok.mp rest
  cases same
  refine ⟨(loadRelation_eq_ok loading).1.trans (closeRelation_eq_ok closing), ?_⟩
  rw [pairsOf_eq, (loadRelation_eq_ok_iff.mp loading).1]
  exact columns

theorem mem_columns (binary : ∀ tuple ∈ tuples, ∃ a b, tuple = [a, b])
    (selected : Relation.columns { relation with tuples := some tuples } 0 1 = .ok pairs) :
    (a, b) ∈ pairs ↔ [a, b] ∈ tuples := by
  obtain ⟨_, _, rest⟩ := except_bind_eq_ok.mp selected
  obtain ⟨_, _, rest⟩ := except_bind_eq_ok.mp rest
  obtain ⟨_, contents, same⟩ := except_bind_eq_ok.mp rest
  cases contents
  cases same
  rw [mem_eraseDups, mem_map]
  constructor
  · rintro ⟨tuple, mem, same⟩
    obtain ⟨c, d, rfl⟩ := binary tuple mem
    cases same
    exact mem
  · intro mem
    exact ⟨[a, b], mem, rfl⟩

variable {sig : Signature} {a b : Nat}

theorem mem_pairsOf (saved : store.Saved name tuples)
    (declared : store.signature? name = some sig) (lines : Relation.HasLines sig)
    (binary : ∀ tuple ∈ tuples, ∃ a b, tuple = [a, b]) (loading : store.pairsOf name = .ok pairs) :
    (a, b) ∈ pairs ↔ [a, b] ∈ tuples := by
  obtain ⟨relation, sizes, found, listed⟩ := saved
  rw [signature?, found] at declared
  cases declared
  obtain ⟨other, answer, rest⟩ := except_bind_eq_ok.mp loading
  rw [relation_eq_ok, found] at answer
  cases answer
  obtain ⟨_, _, rest⟩ := except_bind_eq_ok.mp rest
  obtain ⟨loaded, made, selected⟩ := except_bind_eq_ok.mp rest
  obtain ⟨content, read, found, reading, rfl⟩ := Relation.load_eq_ok.mp made
  rw [listed] at found
  cases found
  have proper : ∀ tuple ∈ tuples, tuple ≠ [] := by
    rintro _ mem rfl
    obtain ⟨_, _, impossible⟩ := binary [] mem
    cases impossible
  rw [Relation.readLines_fileText lines proper reading] at selected
  exact mem_columns binary selected

theorem mem_pairsOf_filled {loaded : List (Nat × Nat)}
    (saved : store.Saved name (.ofList (pairs.map fun pair => [pair.1, pair.2])))
    (declared : store.signature? name = some sig) (lines : Relation.HasLines sig)
    (loading : store.pairsOf name = .ok loaded) :
    (a, b) ∈ loaded ↔ (a, b) ∈ pairs := by
  have binary (tuple : Tuple) (mem : tuple ∈ ofList
      (pairs.map fun pair : Nat × Nat => [pair.1, pair.2])) : ∃ a b, tuple = [a, b] := by
    obtain ⟨⟨a, b⟩, _, rfl⟩ := mem_map.mp (mem_ofList.mp mem)
    exact ⟨a, b, rfl⟩
  rw [mem_pairsOf saved declared lines binary loading, mem_ofList, mem_map]
  simp

end Store

/-- A relation loads exactly the well-formed files, and is then open with exactly the tuples that
they list. In a store it is replaced once it has been loaded wholly, and otherwise nothing
changes. -/
theorem Relation.load_exact (relation : Relation) (dir : String) (sizes : List Nat) (disk : Disk)
    (store : Store) (name : String) :
    (∀ loaded, relation.load dir sizes disk = .ok loaded ↔ ∃ content later tuples,
      disk.read (relation.filePath dir) = .ok content ∧
      WellFormed relation.signature.columns sizes content.lines later ∧
      (∀ tuple, tuple ∈ tuples ↔ ∃ line ∈ later, Lists relation.arity sizes line tuple) ∧
      loaded = { relation with tuples := some tuples }) ∧
    (∀ loaded after, Store.loadRelation name store = .ok loaded after ↔ ∃ declared found,
      store.relations.get? name = some declared ∧ store.sizes declared.signature = .ok found ∧
      declared.load store.dir found store.disk = .ok loaded ∧ after = store.putRelation loaded) ∧
    ∀ fault after, Store.loadRelation name store = .error fault after → after = store := by
  refine ⟨fun loaded => ?_, fun loaded after => ?_, fun fault after failed => ?_⟩
  · rw [load_eq_ok]
    simp only [readLines_eq_ok]
    constructor
    · rintro ⟨content, tuples, found, ⟨later, formed, members⟩, same⟩
      exact ⟨content, later, tuples, found, formed, members, same⟩
    · rintro ⟨content, later, tuples, found, formed, members, same⟩
      exact ⟨content, tuples, found, ⟨later, formed, members⟩, same⟩
  · simp [Store.loadRelation_eq_ok_iff, Store.loaded_eq_ok, ← exists_and_right, and_assoc]
  · rw [Store.loadRelation_eq] at failed
    split at failed
    · cases failed
    · cases failed
      rfl

end ProgramAnalysis
