import ProgramAnalysis.Context.Abstraction
import ProgramAnalysis.Proofs.Facts.Meaning
import ProgramAnalysis.Proofs.Store.Filling

/-!
Publishing the facts of a valid program. After each fact the work directory is still open, what was
published before is still in place (`Made`), and only the disk can stop the next one. Facts may come
in any order in which relations follow their domains.
-/

namespace ProgramAnalysis

open List Store FactDomain Step Domain

variable {program : Program} {remap : Remap} {options : Options} {works : Prop}
  {start store before after : Store}

/-! ### Sizes and signatures -/

namespace FactDomain

/-- The domain with a name. -/
def ofName? (name : String) : Option FactDomain :=
  [methods, invokes, allocations, vars, accesses, fields, locks, types].find? (·.name = name)

/-- How many entities the domain with a name numbers. -/
def count (program : Program) (name : String) : Nat :=
  ((ofName? name).map fun domain => (domain.entities program).length).getD 0

theorem count_name (domain : FactDomain) :
    count program domain.name = (domain.entities program).length := by
  cases domain <;> rfl

theorem count_lt (positive : 0 < limit)
    (fits : ∀ domain : FactDomain, (domain.entities program).length < limit) (name : String) :
    count program name < limit := by
  unfold count
  cases ofName? name with
  | none => exact positive
  | some domain => exact fits domain

theorem HeldBy.size {domain : FactDomain} (held : domain.HeldBy program store) :
    ∃ any, store.domains.get? domain.name = some any ∧
      any.domain.size = count program domain.name := by
  refine ⟨_, held, ?_⟩
  rw [count_name, ← elements_ofProgram]
  rfl

end FactDomain

namespace FactRelation

theorem domains_signature (rel : FactRelation) :
    rel.signature.domains = [rel.left.name, rel.right.name] := by
  cases rel <;> rfl

theorem arity_signature (rel : FactRelation) : rel.signature.arity = 2 := by
  cases rel <;> rfl

theorem writable_signature (rel : FactRelation) : Writable rel.signature := by
  cases rel <;> exact ⟨by rfl, by simp [Relation.Spelled, signature, Text.isBlank], by decide⟩

theorem noSlash_name (rel : FactRelation) : '/' ∉ rel.name.toList := by
  cases rel <;> decide

theorem sized_signature {rel : FactRelation} (left : rel.left.HeldBy program store)
    (right : rel.right.HeldBy program store) :
    store.Sized (FactDomain.count program) rel.signature := by
  unfold Sized
  rw [domains_signature]
  intro major mem
  rcases mem_cons.mp mem with rfl | mem
  · exact left.size
  · rw [mem_singleton.mp mem]
    exact right.size

end FactRelation

/-! ### Where facts are kept -/

/-- The relations that facts and contexts are kept in are declared. -/
structure Store.Declares (store : Store) : Prop where
  facts : ∀ relation : FactRelation, store.signature? relation.name = some relation.signature
  contexts : ∀ entry ∈ Abstraction.signatures, store.signature? entry.1 = some entry.2

theorem Store.Declares.of_signatures (declares : before.Declares)
    (same : ∀ name, after.signature? name = before.signature? name) : after.Declares where
  facts rel := (same _).trans (declares.facts rel)
  contexts entry mem := (same _).trans (declares.contexts entry mem)

/-- The disk works for every file that facts and contexts are kept in: the work directory is there,
as is that for reports if these are written, and no folder stands in place of a file. -/
structure Store.Ready (options : Options) (store : Store) : Prop where
  domains : ∀ domain : FactDomain, ∀ file ∈ [mapName domain.name, headerName domain.name],
    store.disk.isOpen store.dir file = true
  contexts : ∀ file ∈ [mapName "C", headerName "C"],
    store.disk.isOpen store.dir file = true
  facts : ∀ relation : FactRelation, store.disk.isOpen store.dir (fileOf relation.name) = true
  results : ∀ entry ∈ Abstraction.signatures, store.disk.isOpen store.dir (fileOf entry.1) = true
  reports : reportingLevel ≤ options.verbose → ∀ domain : FactDomain,
    store.disk.isOpen options.outDir (domain.name ++ ".xml") = true

theorem Store.Ready.of_sameFolders (ready : before.Ready options) (dir : after.dir = before.dir)
    (same : before.disk.SameFolders after.disk) : after.Ready options where
  domains domain file mem := by
    rw [dir]
    exact same.isOpen (ready.domains domain file mem)
  contexts file mem := by
    rw [dir]
    exact same.isOpen (ready.contexts file mem)
  facts rel := by
    rw [dir]
    exact same.isOpen (ready.facts rel)
  results entry mem := by
    rw [dir]
    exact same.isOpen (ready.results entry mem)
  reports verbose domain := same.isOpen (ready.reports verbose domain)

/-! ### One fact -/

theorem FactDomain.yields_publish (domain : FactDomain) (ready : works → store.Ready options) :
    (domain.publish options program).Yields works store fun _ after =>
      works → store.disk.SameFolders after.disk := by
  have found : (store.putDomain (domain.ofProgram program)).domains.get? domain.name =
      some ⟨domain.kind, (domain.ofProgram program).setFilled⟩ :=
    (get?_putDomain domain store domain.name).trans (if_pos rfl)
  have named : (domain.ofProgram program).setFilled.name = domain.name := name_ofList
  refine Yields.bind (yields_of_ok rfl (Yields.bind ((yields_saveDomain found
    (fun working => ?_) fun working => ?_).imp fun _ between saving folders => ?_)))
  · rw [named]
    exact (ready working).domains domain _ (.head _)
  · rw [named]
    exact (ready working).domains domain _ (.tail _ (.head _))
  · obtain ⟨_, disk, _, rfl, _⟩ := saveDomain_eq_ok saving
    have found : ({ store.putDomain (domain.ofProgram program) with disk } : Store).domains.get?
        domain.name = some ⟨domain.kind, (domain.ofProgram program).setFilled⟩ := found
    split
    · next verbose =>
      refine (yields_saveDomainReport found (fun working => ?_) program).imp
        fun _ _ _ folders' working => (folders working).trans (folders' working)
      rw [named]
      exact (folders working).isOpen ((ready working).reports verbose domain)
    · exact yields_of_ok rfl folders

/-- The file of a relation lists the pairs of indices of related entities. -/
def FactRelation.ListedIn (relation : FactRelation) (remap : Remap) (program : Program)
    (store : Store) : Prop :=
  ∃ tuples, store.Listed relation.name (relation.signature.domains.map (FactDomain.count program))
      tuples ∧
    ∀ tuple, tuple ∈ tuples ↔ ∃ x y, tuple = [x, y] ∧ relation.Pairs remap program x y

theorem FactRelation.yields_publish {rel : FactRelation} (valid : program.Valid)
    (left : rel.left.HeldBy program store) (right : rel.right.HeldBy program store)
    (declared : store.signature? rel.name = some rel.signature)
    (ready : works → store.Ready options) :
    (rel.publish remap program).Yields works store fun _ after =>
      store.KeepsBut [fileOf rel.name] after ∧ rel.ListedIn remap program after ∧
        (works → store.disk.SameFolders after.disk) := by
  obtain ⟨pairs, made⟩ := @exists_pairs _ remap _ _ valid left right
  refine Yields.bind (yields_of_ok (query_eq_ok.mpr ⟨made, rfl⟩) ?_)
  refine (yields_fillRelation declared rel.noSlash_name (sized_signature left right) ?_
    fun working => (ready working).facts rel).imp fun _ after _ filled => ?_
  · rw [arity_signature]
    exact forall_mem_map.mpr fun _ _ => rfl
  · obtain ⟨keeps, listed, folders⟩ := filled
    refine ⟨keeps, ⟨_, listed, fun tuple => ?_⟩, folders⟩
    rw [SortedSet.mem_ofList, mem_map]
    constructor
    · rintro ⟨⟨x, y⟩, mem, rfl⟩
      exact ⟨x, y, rfl, (mem_pairs valid left right made).mp mem⟩
    · rintro ⟨x, y, rfl, related⟩
      exact ⟨(x, y), (mem_pairs valid left right made).mpr related, rfl⟩

/-! ### All facts -/

/-- A domain or a relation that is read off a program. -/
inductive Fact where
  | ofDomain (domain : FactDomain)
  | ofRelation (relation : FactRelation)
  deriving DecidableEq

namespace Fact

/-- Computes a fact and saves it. -/
def publish (options : Options) (program : Program) (remap : Remap) : Fact → Step Store Unit
  | ofDomain domain => domain.publish options program
  | ofRelation relation => relation.publish remap program

/-- The domains a fact needs. -/
def needs : Fact → List Fact
  | ofDomain _ => []
  | ofRelation relation => [ofDomain relation.left, ofDomain relation.right]

/-- Whether each of some facts comes after those it needs, given what was made before. -/
def areOrdered (made : List Fact) : List Fact → Bool
  | [] => true
  | fact :: rest => fact.needs.all (· ∈ made) && areOrdered (made ++ [fact]) rest

end Fact

/-- Some facts were made since a start, and the disk works as it did then. -/
structure Made (works : Prop) (remap : Remap) (program : Program) (start : Store)
    (made : List Fact) (store : Store) : Prop where
  dir : store.dir = start.dir
  signatures : ∀ name, store.signature? name = start.signature? name
  domains : ∀ domain, .ofDomain domain ∈ made → domain.HeldBy program store
  relations : ∀ relation, .ofRelation relation ∈ made → relation.ListedIn remap program store
  folders : works → start.disk.SameFolders store.disk

namespace Made

variable {made : List Fact}

theorem nothing (start : Store) : Made works remap program start [] start where
  dir := rfl
  signatures _ := rfl
  domains _ := nofun
  relations _ := nofun
  folders _ := .refl _

theorem ready (isMade : Made works remap program start made store)
    (ready : works → start.Ready options) (working : works) : store.Ready options :=
  (ready working).of_sameFolders isMade.dir (isMade.folders working)

theorem of_keepsBut (isMade : Made works remap program start made before)
    (keeps : before.KeepsBut [file] after) (folders : works → before.disk.SameFolders after.disk)
    (again : ∀ rel, fileOf rel.name = file →
      .ofRelation rel ∈ made → rel.ListedIn remap program after) :
    Made works remap program start made after where
  dir := keeps.dir.trans isMade.dir
  signatures name := (keeps.signatures name).trans (isMade.signatures name)
  domains domain mem := by
    unfold HeldBy
    rw [keeps.domains]
    exact isMade.domains domain mem
  relations rel mem := by
    by_cases same : fileOf rel.name = file
    · exact again rel same mem
    · obtain ⟨tuples, listed, pairs⟩ := isMade.relations rel mem
      exact ⟨tuples, listed.of_keepsBut keeps (plain_fileOf rel.noSlash_name)
        (by simpa using same), pairs⟩
  folders working := (isMade.folders working).trans (folders working)

theorem yields_domain (isMade : Made works remap program start made store)
    (working : works → start.Ready options) (domain : FactDomain) :
    (domain.publish options program).Yields works store fun _ after =>
      Made works remap program start (made ++ [.ofDomain domain]) after := by
  refine (domain.yields_publish (isMade.ready working)).imp fun _ after publishing folders => ?_
  have held {other : FactDomain} := @FactDomain.heldBy_publish _ _ _ _ domain other publishing
  obtain ⟨disk, rfl, read⟩ := exists_disk_of_publish publishing
  refine ⟨isMade.dir, isMade.signatures, fun other mem => held ?_, fun rel mem => ?_,
    fun working => (isMade.folders working).trans (folders working)⟩
  · rcases mem_append.mp mem with earlier | last
    · exact .inr (isMade.domains other earlier)
    · cases mem_singleton.mp last
      exact .inl rfl
  · rcases mem_append.mp mem with earlier | last
    · obtain ⟨tuples, listed, pairs⟩ := isMade.relations rel earlier
      have listed : (store.putDomain (domain.ofProgram program)).Listed _ _ tuples := listed
      exact ⟨tuples, listed.of_disk read, pairs⟩
    · cases mem_singleton.mp last

theorem yields_relation (isMade : Made works remap program start made store)
    (valid : program.Valid) (declares : start.Declares) (working : works → start.Ready options)
    (needs : ∀ fact ∈ (Fact.ofRelation rel).needs, fact ∈ made) :
    (rel.publish remap program).Yields works store fun _ after =>
      Made works remap program start (made ++ [.ofRelation rel]) after := by
  have left := isMade.domains _ (needs _ (.head _))
  have right := isMade.domains _ (needs _ (.tail _ (.head _)))
  have declared := (isMade.signatures rel.name).trans (declares.facts rel)
  refine (FactRelation.yields_publish valid left right declared (isMade.ready working)).imp
    fun _ after _ published => ?_
  obtain ⟨keeps, listed, folders⟩ := published
  obtain ⟨dir, signatures, domains, relations, folders⟩ := isMade.of_keepsBut keeps folders
    fun other same _ => FactRelation.eq_of_fileOf same ▸ listed
  refine ⟨dir, signatures, fun domain mem => ?_, fun other mem => ?_, folders⟩
  · rcases mem_append.mp mem with earlier | last
    · exact domains domain earlier
    · cases mem_singleton.mp last
  · rcases mem_append.mp mem with earlier | last
    · exact relations other earlier
    · cases mem_singleton.mp last
      exact listed

theorem yields_facts (isMade : Made works remap program start made store) (valid : program.Valid)
    (declares : start.Declares) (working : works → start.Ready options)
    (ordered : Fact.areOrdered made facts = true) :
    (facts.forM (Fact.publish options program remap)).Yields works store fun _ after =>
      Made works remap program start (made ++ facts) after := by
  induction facts generalizing made store with
  | nil =>
    rw [append_nil]
    exact yields_of_ok rfl isMade
  | cons fact rest ih =>
    obtain ⟨needs, ordered⟩ := Bool.and_eq_true_iff.mp ordered
    have published : (fact.publish options program remap).Yields works store fun _ after =>
        Made works remap program start (made ++ [fact]) after := by
      cases fact with
      | ofDomain domain => exact isMade.yields_domain working domain
      | ofRelation rel =>
        exact isMade.yields_relation valid declares working (by simpa using needs)
    refine Yields.bind (published.imp fun _ between _ isMade => ?_)
    refine (ih isMade ordered).imp fun _ after _ isMade => ?_
    rwa [append_assoc] at isMade

end Made

end ProgramAnalysis
