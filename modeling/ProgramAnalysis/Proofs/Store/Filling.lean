import ProgramAnalysis.Proofs.Disk.Working
import ProgramAnalysis.Proofs.Store.Reload

/-!
What nothing but the disk can keep a store from doing. A domain at hand can be saved. A relation
whose tuples lie within domains at hand can be filled, and its file then lists them (`Listed`). A
relation whose file lists tuples loads exactly these (`Loads`), if its signature can be written
(`Writable`).
-/

namespace ProgramAnalysis.Store

open Step List Disk

variable {store before after : Store} {name : String} {works : Prop} {signature : Signature}
  {sizes : List Nat} {tuples : SortedSet Tuple} {count : String → Nat}

theorem exists_relation (declared : store.signature? name = some signature) :
    ∃ opened, store.relations.get? name = some ⟨name, signature, opened⟩ := by
  obtain ⟨rel, found, rfl⟩ := Option.map_eq_some_iff.mp declared
  obtain rfl := store.named name rel found
  exact ⟨rel.tuples, found⟩

/-! ### Domains at hand -/

/-- The domains of a signature are at hand, with given sizes. -/
def Sized (store : Store) (count : String → Nat) (signature : Signature) : Prop :=
  ∀ major ∈ signature.domains,
    ∃ any, store.domains.get? major = some any ∧ any.domain.size = count major

theorem Sized.sizes_eq (sized : store.Sized count signature) :
    store.sizes signature = .ok (signature.domains.map count) := by
  refine mapM_of_ok fun major mem => ?_
  obtain ⟨any, found, same⟩ := sized major mem
  unfold sizeOf
  rw [found, ← same]

theorem Sized.of_domains (sized : before.Sized count signature)
    (same : after.domains = before.domains) : after.Sized count signature := by
  unfold Sized
  rwa [same]

theorem yields_saveDomain {any : AnyDomain} (found : store.domains.get? name = some any)
    (map : works → store.disk.isOpen store.dir (Domain.mapName any.domain.name) = true)
    (header : works → store.disk.isOpen store.dir (Domain.headerName any.domain.name) = true) :
    (saveDomain name).Yields works store fun _ after =>
      works → store.disk.SameFolders after.disk := by
  refine Yields.bind (yields_of_ok (query_eq_ok.mpr ⟨anyDomain_eq_ok.mpr found, rfl⟩) ?_)
  refine Yields.bind (yields_of_ok rfl ?_)
  exact Yields.onPart (Domain.yields_save map header)

theorem yields_saveDomainReport {any : AnyDomain} (found : store.domains.get? name = some any)
    {dir : String} (room : works → store.disk.isOpen dir (any.domain.name ++ ".xml") = true)
    (program : Program) :
    (saveDomainReport name dir program).Yields works store fun _ after =>
      works → store.disk.SameFolders after.disk := by
  refine Yields.bind (yields_of_ok (query_eq_ok.mpr ⟨anyDomain_eq_ok.mpr found, rfl⟩) ?_)
  refine Yields.onPart ((yields_saveText (fun working =>
    hasRoom_of_isOpen (room working)) _).imp fun _ _ _ once working => ?_)
  exact (once working).sameFolders (room working)

/-! ### Filling -/

/-- The file of a relation lists some tuples, and gives some sizes for its columns. -/
def Listed (store : Store) (name : String) (sizes : List Nat) (tuples : SortedSet Tuple) : Prop :=
  ∃ signature, store.signature? name = some signature ∧
    store.disk.read (Path.join store.dir (fileOf name)) =
      .ok (.text (Relation.fileText ⟨name, signature, none⟩ sizes tuples))

theorem Listed.of_keepsBut {files : List String} (listed : before.Listed name sizes tuples)
    (keeps : before.KeepsBut files after) (plain : Path.Plain (fileOf name))
    (other : fileOf name ∉ files) : after.Listed name sizes tuples := by
  obtain ⟨signature, declared, file⟩ := listed
  refine ⟨signature, (keeps.signatures name).trans declared, ?_⟩
  rw [keeps.dir]
  exact keeps.read _ _ plain other file

theorem Listed.of_disk {disk : Disk} (listed : store.Listed name sizes tuples)
    (read : ∀ path content, Path.EndsIn path 's' → store.disk.read path = .ok content →
      disk.read path = .ok content) : Listed { store with disk } name sizes tuples := by
  obtain ⟨signature, declared, file⟩ := listed
  exact ⟨signature, declared, read _ _
    (Path.EndsIn.join (Path.EndsIn.append ⟨rfl, by decide, by decide⟩ name) store.dir) file⟩

theorem yields_zeroRelation (declared : store.signature? name = some signature)
    (plain : Path.Plain (fileOf name))
    (room : works → store.disk.hasRoom store.dir (fileOf name) = true) :
    (zeroRelation name).Yields works store fun _ after =>
      works → ∃ made, createFolders store.dir after.disk = .ok () made ∧
        store.disk.OnceMade store.dir made := by
  obtain ⟨opened, found⟩ := exists_relation declared
  refine Yields.bind (yields_of_ok (query_eq_ok.mpr ⟨relation_eq_ok.mpr found, rfl⟩) ?_)
  refine Yields.bind (yields_of_ok rfl ?_)
  have zeroed := @Relation.yields_zero_of_hasRoom store.disk store.dir works
    ⟨name, signature, opened⟩ plain room
  exact Yields.bind (Yields.onPart (zeroed.imp fun _ disk _ once =>
    yields_of_ok rfl once))

theorem exists_addTuples (found : store.relations.get? name = some ⟨name, signature, some tuples⟩)
    (arity : ∀ tuple ∈ added, tuple.length = signature.arity) :
    ∃ fresh after, addTuples name added store = .ok fresh after := by
  induction added generalizing store tuples with
  | nil => exact ⟨0, store, rfl⟩
  | cons tuple rest ih =>
    obtain ⟨fits, arity⟩ := forall_mem_cons.mp arity
    have extends_ : Relation.add ⟨name, signature, some tuples⟩ tuple =
        .ok (⟨name, signature, some (tuples.insert tuple)⟩, decide (tuple ∉ tuples)) := by
      refine except_bind_eq_ok.mpr ⟨tuples, rfl, ?_⟩
      dsimp only
      exact if_neg fun differs => differs fits
    have adding : addTuple name tuple store = .ok (decide (tuple ∉ tuples))
        (store.putRelation ⟨name, signature, some (tuples.insert tuple)⟩) :=
      query_bind_eq_ok.mpr ⟨_, relation_eq_ok.mpr found,
        ofExcept_bind_eq_ok.mpr ⟨_, extends_, rfl⟩⟩
    obtain ⟨fresh, after, addingRest⟩ := @ih
      (store.putRelation ⟨name, signature, some (tuples.insert tuple)⟩) (tuples.insert tuple)
      (get?_putRelation.trans (if_pos rfl)) arity
    exact ⟨_, after, bind_eq_ok.mpr ⟨_, _, adding, bind_eq_ok.mpr ⟨fresh, after, addingRest, rfl⟩⟩⟩

theorem yields_saveRelation
    (opened : store.relations.get? name = some ⟨name, signature, some tuples⟩)
    (sized : store.sizes signature = .ok sizes)
    (room : works → store.disk.hasRoom store.dir (fileOf name) = true) :
    (saveRelation name).Yields works store fun _ after =>
      after.Listed name sizes tuples ∧ (works → store.disk.OnceMade store.dir after.disk) := by
  refine Yields.bind (yields_of_ok (query_eq_ok.mpr ⟨relation_eq_ok.mpr opened, rfl⟩) ?_)
  refine Yields.bind (yields_of_ok (query_eq_ok.mpr ⟨sized, rfl⟩) ?_)
  refine Yields.bind (yields_of_ok rfl ?_)
  refine Yields.onPart (Yields.bind (yields_of_ok (ofExcept_eq_ok.mpr ⟨rfl, rfl⟩)
    ((yields_saveText room _).imp fun _ disk saved once => ⟨⟨signature, ?_, ?_⟩, once⟩)))
  · exact Option.map_eq_some_iff.mpr ⟨_, opened, rfl⟩
  · exact read_saveText saved

section Fill

variable {added : List Tuple} (declared : store.signature? name = some signature)
  (noSlash : '/' ∉ name.toList) (sized : store.Sized count signature)
  (arity : ∀ tuple ∈ added, tuple.length = signature.arity)
include declared noSlash sized arity

/-- A declared relation whose domains are at hand is filled with tuples of its arity unless the disk
prevents it. The work directory is made if it is missing. -/
theorem yields_fillRelation_of_hasRoom
    (room : works → store.disk.hasRoom store.dir (fileOf name) = true) :
    (fillRelation name added).Yields works store fun _ after =>
      store.KeepsBut [fileOf name] after ∧
        after.Listed name (signature.domains.map count) (.ofList added) ∧
        (works → store.disk.OnceMade store.dir after.disk) := by
  have plain := plain_fileOf noSlash
  suffices filled : (fillRelation name added).Yields works store fun _ after =>
      after.Listed name (signature.domains.map count) (.ofList added) ∧
        (works → store.disk.OnceMade store.dir after.disk) from
    filled.imp fun _ after filling ends => ⟨(fillRelation_eq_ok plain filling).1, ends⟩
  refine Yields.bind ((yields_zeroRelation declared plain room).imp fun _ first zeroing once => ?_)
  obtain ⟨keeps, rel, found, empty⟩ := zeroRelation_eq_ok plain zeroing
  obtain ⟨opened, found'⟩ := exists_relation declared
  cases found.symm.trans found'
  obtain ⟨fresh, second, adding⟩ := exists_addTuples empty arity
  refine Yields.bind (yields_of_ok adding ?_)
  obtain ⟨same, extended, full, mem⟩ := addTuples_eq_ok empty adding
  obtain rfl : extended = .ofList added := SortedSet.ext fun tuple => by
    rw [mem, SortedSet.mem_ofList]
    exact or_iff_right nofun
  have sizes := (sized.of_domains (same.domains.trans keeps.domains)).sizes_eq
  have still (working : works) : second.disk.hasRoom second.dir (fileOf name) = true := by
    rw [same.disk, same.dir, keeps.dir]
    obtain ⟨made, opens, opened⟩ := isOpen_of_hasRoom plain (room working)
    obtain ⟨made', making', _, making, folders⟩ := once working
    cases making.symm.trans opens
    exact hasRoom_of_made making' (folders.isOpen opened)
  refine Yields.bind ((yields_saveRelation full sizes still).imp fun _ third saving ends => ?_)
  obtain ⟨listed, once'⟩ := ends
  obtain ⟨_, there, _⟩ := saveRelation_eq_ok plain full saving
  have closing : closeRelation name third = .ok () (third.putRelation ⟨name, signature, none⟩) :=
    query_bind_eq_ok.mpr ⟨_, relation_eq_ok.mpr there, rfl⟩
  have last := closeRelation_eq_ok closing
  refine yields_of_ok closing ⟨listed.of_keepsBut (last.keepsBut []) plain not_mem_nil,
    fun working => ?_⟩
  have once' := once' working
  rw [same.disk, same.dir, keeps.dir] at once'
  obtain ⟨made', making', made, making, folders⟩ := once working
  obtain ⟨_, making'', folders'⟩ := once'
  cases making'.symm.trans making''
  exact ⟨made, making, folders.trans folders'⟩

theorem yields_fillRelation (room : works → store.disk.isOpen store.dir (fileOf name) = true) :
    (fillRelation name added).Yields works store fun _ after =>
      store.KeepsBut [fileOf name] after ∧
        after.Listed name (signature.domains.map count) (.ofList added) ∧
        (works → store.disk.SameFolders after.disk) :=
  (yields_fillRelation_of_hasRoom declared noSlash sized arity fun working =>
    hasRoom_of_isOpen (room working)).imp fun _ _ _ ⟨keeps, listed, once⟩ =>
      ⟨keeps, listed, fun working => (once working).sameFolders (room working)⟩

end Fill

theorem yields_fillRelations {entries : List (String × List Tuple)}
    (each : ∀ entry ∈ entries, ∃ signature, store.signature? entry.1 = some signature ∧
      store.Sized count signature ∧ ∀ tuple ∈ entry.2, tuple.length = signature.arity)
    (noSlash : ∀ entry ∈ entries, '/' ∉ entry.1.toList)
    (distinct : (entries.map fun entry => fileOf entry.1).Nodup)
    (room : works → ∀ entry ∈ entries, store.disk.isOpen store.dir (fileOf entry.1) = true) :
    Yields (forIn entries PUnit.unit fun (entry : String × List Tuple) _ => do
      fillRelation entry.1 entry.2
      pure (ForInStep.yield PUnit.unit)) works store fun _ after =>
        store.KeepsBut (entries.map fun entry => fileOf entry.1) after ∧
          (∀ entry ∈ entries, ∃ signature, store.signature? entry.1 = some signature ∧
            after.Listed entry.1 (signature.domains.map count) (.ofList entry.2)) ∧
          (works → store.disk.SameFolders after.disk) := by
  induction entries generalizing store with
  | nil => exact yields_of_ok rfl ⟨(SameData.refl _).keepsBut _, nofun, fun _ => .refl _⟩
  | cons entry rest ih =>
    obtain ⟨⟨signature, declared, sized, arity⟩, each⟩ := forall_mem_cons.mp each
    obtain ⟨noSlashFirst, noSlash⟩ := forall_mem_cons.mp noSlash
    obtain ⟨apart, distinct⟩ := nodup_cons.mp distinct
    rw [forIn_cons]
    refine Yields.bind (Yields.bind ((yields_fillRelation declared noSlashFirst sized arity
      fun working => room working entry (.head _)).imp fun _ between _ filled =>
        yields_of_ok rfl ?_))
    obtain ⟨keeps, listed, folders⟩ := filled
    refine (@ih between (fun other mem => ?_) noSlash distinct
      fun working other mem => ?_).imp fun _ after _ filled => ?_
    · obtain ⟨signature, declared, sized, arity⟩ := each other mem
      exact ⟨signature, (keeps.signatures _).trans declared, sized.of_domains keeps.domains, arity⟩
    · rw [keeps.dir]
      exact (folders working).isOpen (room working other (.tail _ mem))
    · obtain ⟨keeps', listed', folders'⟩ := filled
      refine ⟨(keeps.mono ?_).trans (keeps'.mono (subset_cons_self _ _)), ?_,
        fun working => (folders working).trans (folders' working)⟩
      · exact cons_subset.mpr ⟨.head _, nil_subset _⟩
      · refine forall_mem_cons.mpr ⟨⟨signature, declared,
          listed.of_keepsBut keeps' (plain_fileOf noSlashFirst) apart⟩, fun other mem => ?_⟩
        obtain ⟨signature, declared, listed⟩ := listed' other mem
        exact ⟨signature, (keeps.signatures _).symm.trans declared, listed⟩

/-! ### Loading -/

/-- A relation is loaded with exactly some tuples. -/
def Loads (store : Store) (name : String) (tuples : SortedSet Tuple) : Prop :=
  ∃ loaded last, loadRelation name store = .ok loaded last ∧ loaded.contents = .ok tuples

theorem Loads.of_sameData (loads : before.Loads name tuples) (same : before.SameData after) :
    after.Loads name tuples := by
  obtain ⟨rel, _, loading, contents⟩ := loads
  have loaded := (loadRelation_eq_ok_iff.mp loading).1
  rw [← same.loaded] at loaded
  exact ⟨rel, _, loadRelation_eq_ok_iff.mpr ⟨loaded, rfl⟩, contents⟩

/-- A signature as it is written: well formed, and with names that a file can hold. -/
structure Writable (signature : Signature) : Prop where
  made : Signature.make signature.columns signature.order = .ok signature
  spelled : Relation.Spelled signature.columns
  nonempty : signature.columns ≠ []

theorem Listed.loads (listed : store.Listed name (signature.domains.map count) tuples)
    (declared : store.signature? name = some signature) (writable : Writable signature)
    (sized : store.Sized count signature)
    (wide : ∀ major ∈ signature.domains, count major < Numeral.sizeLimit)
    (within : ∀ tuple ∈ tuples,
      Relation.Within signature.arity (signature.domains.map count) tuple) :
    store.Loads name tuples := by
  obtain ⟨opened, found⟩ := exists_relation declared
  obtain ⟨other, declared', file⟩ := listed
  cases declared.symm.trans declared'
  -- Loading does not depend on whether the relation is open.
  have same : store.SameData (store.putRelation { name, signature }) :=
    sameData_putRelation found rfl rfl
  obtain ⟨loaded, last, loading, contents⟩ := @exists_loadRelation
    (store.putRelation { name, signature }) name signature.columns signature.order signature tuples
    writable.made writable.spelled writable.nonempty (signature.domains.map count)
    (forall_mem_map.mpr wide) within signature rfl (get?_putRelation.trans (if_pos rfl))
    sized.sizes_eq file
  exact Loads.of_sameData ⟨loaded, last, loading, contents⟩ same.symm

theorem Loads.exists_takePairs (loads : store.Loads name tuples)
    (declared : store.signature? name = some signature) (binary : signature.arity = 2)
    (pairs : ∀ tuple ∈ tuples, ∃ a b, tuple = [a, b]) :
    ∃ taken last, takePairs name store = .ok taken last ∧
      ∀ a b, (a, b) ∈ taken ↔ [a, b] ∈ tuples := by
  obtain ⟨loaded, opened, loading, contents⟩ := loads
  obtain ⟨_, rfl, rel, sizes, found, _, loads⟩ := loadRelation_eq_ok loading
  obtain ⟨_, read, _, _, rfl⟩ := Relation.load_eq_ok.mp loads
  cases contents
  obtain ⟨before, found'⟩ := exists_relation declared
  cases found.symm.trans found'
  have checked {column : Nat} (below : column < 2) :
      Relation.checkColumn ⟨name, signature, some tuples⟩ column = .ok () :=
    if_pos (show column < signature.arity by rwa [binary])
  have columns : Relation.columns ⟨name, signature, some tuples⟩ 0 1 = .ok _ :=
    except_bind_eq_ok.mpr ⟨(), checked (by decide), except_bind_eq_ok.mpr
      ⟨(), checked (by decide), except_bind_eq_ok.mpr ⟨tuples, rfl, rfl⟩⟩⟩
  have closing : closeRelation name (store.putRelation ⟨name, signature, some tuples⟩) =
      .ok () (Store.putRelation (store.putRelation ⟨name, signature, some tuples⟩)
        ⟨name, signature, none⟩) :=
    bind_eq_ok.mpr ⟨_, _, query_eq_ok.mpr
      ⟨relation_eq_ok.mpr (get?_putRelation.trans (if_pos rfl)), rfl⟩, rfl⟩
  refine ⟨_, _, bind_eq_ok.mpr ⟨_, _, loading, bind_eq_ok.mpr ⟨_, _,
    ofExcept_eq_ok.mpr ⟨columns, rfl⟩, bind_eq_ok.mpr ⟨(), _, closing, rfl⟩⟩⟩,
    fun a b => ?_⟩
  exact @mem_columns tuples ⟨name, signature, none⟩ _ a b pairs columns

end ProgramAnalysis.Store
