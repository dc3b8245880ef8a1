import ProgramAnalysis.Proofs.Relation.Files
import ProgramAnalysis.Proofs.Store.History

/-!
A later session reads back the relations that an earlier one saved. The sizes of their domains come
from memory or from the headers of their files, in any mix, and both agree with what was saved: the
main result is `relation_reloaded`. It needs domain names without slashes, as
`not_reloaded_overwritten` shows.
-/

namespace ProgramAnalysis

open List Step Signature Disk

namespace Signature

variable {columns : List String} {order : String} {signature : Signature}

/-- The domains of well spelled columns have names that are one word. -/
theorem word_of_spelled (made : make columns order = .ok signature)
    (spelled : Relation.Spelled columns) (mem : name ∈ signature.domains) :
    name ≠ "" ∧ ∀ c ∈ name.toList, Text.isBlank c = false := by
  obtain ⟨rfl, lawful⟩ := make_eq_ok made
  obtain ⟨column, among, rfl⟩ := mem_map.mp mem
  have proper := isColumn_iff.mpr (lawful.numbered column among)
  rw [isColumn, Bool.and_eq_true, decide_eq_true_iff] at proper
  refine ⟨proper.1, fun c inName => (spelled column among c ?_).1⟩
  rw [major, String.toList_ofList, majorChars, mem_reverse] at inName
  exact mem_reverse.mp ((dropWhile_sublist _).subset inName)

end Signature

namespace Store

variable {store before after : Store} {name : String} {any : AnyDomain}

/-! ### Domains on file -/

/-- A domain over handles or contexts, where a machine can count and number the elements. -/
structure Proper (any : AnyDomain) : Prop where
  numbers : any.kind ≠ .text
  fits : ∀ element ∈ any.domain.elements, any.kind.Fits element
  below : any.domain.size < Numeral.sizeLimit

/-- Such a domain as a store keeps it. -/
structure Kept (name : String) (any : AnyDomain) : Prop extends Proper any where
  named : any.domain.name = name
  distinct : any.domain.elements.Nodup

theorem Written.sizeOf (written : store.Written any) (proper : Kept name any)
    (word : name ≠ "" ∧ ∀ c ∈ name.toList, Text.isBlank c = false)
    (memory : ∀ other, store.domains.get? name = some other →
      other.domain.size = any.domain.size) : store.sizeOf name = .ok any.domain.size := by
  unfold Store.sizeOf
  cases found : store.domains.get? name with
  | some other => exact congrArg _ (memory other found)
  | none =>
    obtain rfl := proper.named
    show (Domain.savedSize store.disk store.dir any.domain.name >>= _) = _
    rw [Domain.savedSize_of_read written.header word.1 word.2 proper.below]
    rfl

theorem Written.loadDomain (written : store.Written any) (proper : Kept name any) :
    Store.loadDomain any.kind name store =
      .ok any.domain.setFilled (store.putDomain any.domain.setFilled) := by
  obtain rfl := proper.named
  have same : ({ name := any.domain.name } : Domain any.kind).name = any.domain.name := rfl
  have loaded := ((Domain.load_mapText_eq_ok same written.map proper.distinct proper.fits).mpr
    ⟨fun elem _ => ElementKind.oneLine_encode proper.numbers elem, rfl⟩).1
  refine bind_eq_ok.mpr ⟨store, store, rfl, ?_⟩
  rw [loaded]
  rfl

/-! ### Loading some domains -/

/-- Loads some domains of given kinds. -/
def loadDomains (domains : String → AnyDomain) (chosen : List String) : Step Store Unit :=
  chosen.forM fun name => do
    let _ ← loadDomain (domains name).kind name

/-- Written domains can all be loaded, and nothing else changes. -/
theorem exists_loadDomains {domains : String → AnyDomain}
    (proper : ∀ name ∈ chosen, Kept name (domains name))
    (written : ∀ name ∈ chosen, store.Written (domains name)) :
    ∃ table, loadDomains domains chosen store = .ok () { store with domains := table } ∧
      ∀ name, table.get? name =
        if name ∈ chosen then some ⟨_, (domains name).domain.setFilled⟩
        else store.domains.get? name := by
  induction chosen generalizing store with
  | nil => exact ⟨store.domains, rfl, fun name => rfl⟩
  | cons first rest ih =>
    have isProper := proper first mem_cons_self
    have loaded := (written first mem_cons_self).loadDomain isProper
    obtain ⟨table, loadedAll, made⟩ := @ih (store.putDomain (domains first).domain.setFilled)
        (fun name later => proper name (mem_cons_of_mem first later))
        (fun name later =>
          have kept := written name (mem_cons_of_mem first later)
          ⟨kept.map, kept.header⟩)
    refine ⟨table, bind_eq_ok.mpr ⟨(), _, bind_eq_ok.mpr ⟨_, _, loaded, rfl⟩, loadedAll⟩,
      fun name => (made name).trans ?_⟩
    have put : (store.putDomain (domains first).domain.setFilled).domains.get? name =
        if first = name then some ⟨_, (domains first).domain.setFilled⟩
        else store.domains.get? name := by
      refine (Table.get?_insert _ _ _ _).trans ?_
      rw [show (domains first).domain.setFilled.name = first from isProper.named]
      rfl
    rw [put]
    by_cases here : first = name
    · subst here
      simp
    · simp [here, Ne.symm here]

/-! ### Reading back -/

theorem mapM_of_ok {α β ε : Type} {f : α → Except ε β} {g : α → β} {items : List α}
    (each : ∀ a ∈ items, f a = .ok (g a)) : items.mapM f = .ok (items.map g) := by
  induction items with
  | nil => rfl
  | cons first rest ih =>
    rw [mapM_cons, each first mem_cons_self,
      ih fun other mem => each other (mem_cons_of_mem first mem)]
    rfl

variable {columns : List String} {order : String} {signature : Signature}
  {domains : String → AnyDomain} {tuples : SortedSet Tuple}

theorem sizes_of_written (made : make columns order = .ok signature)
    (spelled : Relation.Spelled columns)
    (proper : ∀ major ∈ signature.domains, Kept major (domains major))
    (written : ∀ major ∈ signature.domains, store.Written (domains major))
    (memory : ∀ major ∈ signature.domains, ∀ current, store.domains.get? major = some current →
      current.domain.size = (domains major).domain.size) :
    store.sizes signature =
      .ok (signature.domains.map fun major => (domains major).domain.size) :=
  mapM_of_ok fun major mem => (written major mem).sizeOf (proper major mem)
    (word_of_spelled made spelled mem) (memory major mem)

theorem exists_saveRelation {sizes : List Nat}
    (opened : store.relations.get? name = some ⟨name, signature, some tuples⟩)
    (sized : store.sizes signature = .ok sizes)
    (room : store.disk.hasRoom store.dir (fileOf name) = true) :
    ∃ disk, saveRelation name store = .ok () { store with disk } ∧
      saveText store.dir (fileOf name)
        (Relation.fileText ⟨name, signature, some tuples⟩ sizes tuples) store.disk =
          .ok () disk := by
  obtain ⟨disk, saved⟩ := exists_saveText room
    (Relation.fileText ⟨name, signature, some tuples⟩ sizes tuples)
  refine ⟨disk, ?_, saved⟩
  refine query_bind_eq_ok.mpr ⟨_, relation_eq_ok.mpr opened, ?_⟩
  refine query_bind_eq_ok.mpr ⟨_, sized, ?_⟩
  refine bind_eq_ok.mpr ⟨store, store, rfl, onDisk_eq_ok.mpr ⟨disk, ?_, rfl⟩⟩
  exact ofExcept_bind_eq_ok.mpr ⟨tuples, rfl, saved⟩

theorem exists_loadRelation (made : make columns order = .ok signature)
    (spelled : Relation.Spelled columns) (nonempty : columns ≠ []) {sizes : List Nat}
    (wide : ∀ size ∈ sizes, size < Numeral.sizeLimit)
    (within : ∀ tuple ∈ tuples, Relation.Within columns.length sizes tuple)
    {declared : Signature} (same : declared.columns = columns)
    (found : store.relations.get? name = some { name, signature := declared })
    (sized : store.sizes declared = .ok sizes)
    (file : store.disk.read (Path.join store.dir (fileOf name)) =
      .ok (.text (Relation.fileText ⟨name, signature, some tuples⟩ sizes tuples))) :
    ∃ loaded last, loadRelation name store = .ok loaded last ∧ loaded.contents = .ok tuples := by
  obtain ⟨rfl, _⟩ := make_eq_ok made
  have lines := Relation.hasLines_of_spelled made spelled
  have enough : columns.length ≤ sizes.length := by
    have count := (mapM_eq_ok sized).1
    rw [Signature.domains, length_map, same] at count
    omega
  obtain ⟨read, reading⟩ := @Relation.exists_readLines ⟨name, ⟨columns, order⟩, some tuples⟩
    { name, signature := declared } sizes tuples lines spelled same enough wide within
  have loads : Relation.load { name, signature := declared } store.dir sizes store.disk =
      .ok ⟨name, declared, some read⟩ := Relation.load_eq_ok.mpr ⟨_, read, file, reading, rfl⟩
  refine ⟨⟨name, declared, some read⟩, store.putRelation ⟨name, declared, some read⟩, ?_, ?_⟩
  · refine query_bind_eq_ok.mpr ⟨_, relation_eq_ok.mpr found, ?_⟩
    refine query_bind_eq_ok.mpr ⟨sizes, sized, ?_⟩
    refine bind_eq_ok.mpr ⟨store, store, rfl, ?_⟩
    exact ofExcept_bind_eq_ok.mpr ⟨_, loads, rfl⟩
  · refine congrArg _ (SortedSet.ext fun tuple => ?_)
    refine (Relation.mem_readLines_fileText lines reading).trans (and_iff_left_of_imp ?_)
    rintro mem rfl
    exact nonempty (length_eq_zero_iff.mp (within [] mem).1.symm)

/-- Whatever was asked of a store before, a relation whose domains were saved and have not changed
since can be saved where there is room for it, if no name with a slash leads to the files of another
domain. A new store on the same directory that declares it with the same columns then loads exactly
its tuples, whichever of its domains were loaded before. Every domain so loaded has the same
elements at the same indices. -/
theorem relation_reloaded {name : String} {columns : List String} {order : String}
    {signature : Signature} {domains : String → AnyDomain} {tuples : SortedSet Tuple}
    (disk : Disk) (dir : String) (requests : List Request) {store : Store}
    (served : (onDirectory disk dir).serveAll requests = store)
    (made : Signature.make columns order = .ok signature)
    (spelled : Relation.Spelled columns) (nonempty : columns ≠ [])
    (opened : store.relations.get? name = some ⟨name, signature, some tuples⟩)
    (proper : ∀ major ∈ signature.domains, Proper (domains major))
    (since : ∀ major ∈ signature.domains,
      SavedSince (onDirectory disk dir) requests major (domains major))
    (separate : ∀ major ∈ signature.domains, Separate requests major)
    (within : ∀ tuple ∈ tuples, Relation.Within columns.length
      (signature.domains.map fun major => (domains major).domain.size) tuple)
    (room : store.disk.hasRoom store.dir (fileOf name) = true)
    {declared : Signature} (same : declared.columns = columns) :
    ∃ saved fresh, saveRelation name store = .ok () saved ∧
      (onDirectory saved.disk store.dir).declare name declared = .ok fresh ∧
      ∀ chosen ⊆ signature.domains, ∃ filled loaded last,
        loadDomains domains chosen fresh = .ok () filled ∧
        (∀ major, filled.domains.get? major =
          if major ∈ chosen then some ⟨_, (domains major).domain.setFilled⟩ else none) ∧
        loadRelation name filled = .ok loaded last ∧ loaded.contents = .ok tuples := by
  subst served
  set store := (onDirectory disk dir).serveAll requests
  have majors : declared.domains = signature.domains := by
    obtain ⟨rfl, _⟩ := Signature.make_eq_ok made
    rw [Signature.domains, same]
    rfl
  have onFile major (member : major ∈ signature.domains) :=
    (since major member).written (separate major member)
  have kept major (member : major ∈ signature.domains) : Kept major (domains major) :=
    have ⟨named, dense, _, _⟩ := onFile major member
    { proper major member with named, distinct := dense.distinct }
  have written major (member : major ∈ signature.domains) : store.Written (domains major) :=
    (onFile major member).2.2.1
  have sized := sizes_of_written made spelled kept written fun major member current found => by
    rw [(onFile major member).2.2.2 current found]
  obtain ⟨disk, saving, saved⟩ := exists_saveRelation opened sized room
  let fresh := (onDirectory disk store.dir).putRelation { name, signature := declared }
  refine ⟨{ store with disk }, fresh, saving, rfl, fun chosen among => ?_⟩
  have still major (member : major ∈ signature.domains) : fresh.Written (domains major) :=
    have after := (written_onDisk_of_spares _ (spares_saveText store.dir _ endsIn_fileOf)
      (by decide) (by decide) store (written major member)).of_ok (onDisk_eq_ok.mpr ⟨_, saved, rfl⟩)
    ⟨after.map, after.header⟩
  obtain ⟨table, loadedAll, holds⟩ := exists_loadDomains
    (fun major member => kept major (among member)) fun major member => still major (among member)
  have resized : Store.sizes { fresh with domains := table } declared =
      .ok (signature.domains.map fun major => (domains major).domain.size) := by
    rw [Store.sizes, majors]
    refine sizes_of_written made spelled kept
      (fun major member => ⟨(still major member).map, (still major member).header⟩)
      fun major _ current found => ?_
    replace found := (holds major).symm.trans found
    split at found
    · cases found
      rfl
    · cases found
  have found : fresh.relations.get? name = some { name, signature := declared } :=
    get?_putRelation.trans (if_pos rfl)
  have file : fresh.disk.read (Path.join fresh.dir (fileOf name)) = _ := Disk.read_saveText saved
  obtain ⟨loaded, last, loading, contents⟩ :=
    @exists_loadRelation { fresh with domains := table } name columns order signature tuples made
      spelled nonempty _ (List.forall_mem_map.mpr fun major member => (kept major member).below)
      within declared same found resized file
  exact ⟨_, loaded, last, loadedAll, holds, loading, contents⟩

/-- Two domains that were saved one after the other are as they were saved. -/
theorem savedSince_both {start ready after : Store} {requests : List Request}
    {first second : String} {any any' : AnyDomain}
    (found : (start.serveAll requests).domains.get? first = some any)
    (found' : (start.serveAll requests).domains.get? second = some any')
    (saving : saveDomain first (start.serveAll requests) = .ok () ready)
    (saving' : saveDomain second ready = .ok () after) :
    start.serveAll (requests ++ [.saveDomain first, .saveDomain second]) = after ∧
      SavedSince start (requests ++ [.saveDomain first, .saveDomain second]) first any ∧
      SavedSince start (requests ++ [.saveDomain first, .saveDomain second]) second any' := by
  have twice : requests ++ [.saveDomain first, .saveDomain second] =
      requests ++ [.saveDomain first] ++ [.saveDomain second] := by
    rw [append_assoc, singleton_append]
  have between : start.serveAll (requests ++ [.saveDomain first]) = ready := by
    rw [serveAll_append]
    exact final_of_ok saving
  have served : ready.serveAll [.saveDomain second] = after := final_of_ok saving'
  obtain ⟨_, disk, _, rfl, _⟩ := saveDomain_eq_ok saving
  obtain ⟨_, disk', _, rfl, _⟩ := saveDomain_eq_ok saving'
  refine ⟨by rw [twice, serveAll_append, between, served], ?_, ?_⟩
  · refine ⟨requests, [.saveDomain second], _, rfl, found, saving, ?_⟩
    intro early isEarly other held
    rcases prefix_cons_iff.mp isEarly with rfl | ⟨_, rfl, isNil⟩
    · exact (Option.some.inj (found.symm.trans held)).symm
    · rw [prefix_nil.mp isNil, served] at held
      exact (Option.some.inj (found.symm.trans held)).symm
  · refine ⟨requests ++ [.saveDomain first], [], { start.serveAll requests with disk := disk' },
      twice, by rwa [between], by rwa [between], ?_⟩
    intro early isEarly other held
    rw [prefix_nil.mp isEarly] at held
    exact (Option.some.inj (found'.symm.trans held)).symm

/-- A signature over two domains. -/
def pairing : Signature := ⟨["M0", "I0"], "M0_I0"⟩

/-- Two domains are published, and a relation over both is opened. -/
def opening : List Request :=
  [.putDomain .method "M" [.add 5, .add 6], .putDomain .instruction "I" [.add 7],
    .declare "R" pairing, .zeroRelation "R", .addTuple "R" [1, 0]]

def methods : AnyDomain := ⟨.method, (@Domain.ofList .method "M" [5, 6]).setFilled⟩

def invokes : AnyDomain := ⟨.instruction, (@Domain.ofList .instruction "I" [7]).setFilled⟩

/-- The store that this gives. -/
abbrev paired : Store := (onDirectory .empty "work").serveAll opening

theorem methods_opening : paired.domains.get? "M" = some methods := by rfl

theorem invokes_opening : paired.domains.get? "I" = some invokes := by rfl

theorem relation_opening :
    paired.relations.get? "R" = some ⟨"R", pairing, some (.ofList [[1, 0]])⟩ := by rfl

theorem saves_opening : ∃ ready store, saveDomain "M" paired = .ok () ready ∧
    saveDomain "I" ready = .ok () store ∧ store.disk.hasRoom store.dir (fileOf "R") = true := by
  have ended : (match saveDomain "M" paired with
      | .ok _ ready => match saveDomain "I" ready with
        | .ok _ store => store.disk.hasRoom store.dir (fileOf "R")
        | .error _ _ => false
      | .error _ _ => false) = true := by decide +kernel
  split at ended
  · next ready saving =>
    split at ended
    · next store saving' => exact ⟨ready, store, saving, saving', ended⟩
    · cases ended
  · cases ended

/-- One domain is in memory when the relation is loaded, and the size of the other is read from its
header. -/
theorem relation_reloaded_mixed :
    ∃ store saved fresh filled loaded last,
      (onDirectory .empty "work").serveAll (opening ++ [.saveDomain "M", .saveDomain "I"]) = store ∧
      saveRelation "R" store = .ok () saved ∧
      (onDirectory saved.disk store.dir).declare "R" pairing = .ok fresh ∧
      loadDomains (fun major => if major = "M" then methods else invokes) ["M"] fresh =
        .ok () filled ∧
      filled.domains.get? "M" = some methods ∧ filled.domains.get? "I" = none ∧
      loadRelation "R" filled = .ok loaded last ∧ loaded.contents = .ok (.ofList [[1, 0]]) := by
  obtain ⟨ready, store, saving, saving', room⟩ := saves_opening
  obtain ⟨served, sinceMethods, sinceInvokes⟩ :=
    savedSince_both methods_opening invokes_opening saving saving'
  have opened : store.relations.get? "R" = some ⟨"R", pairing, some (.ofList [[1, 0]])⟩ := by
    obtain ⟨_, disk, _, rfl, _⟩ := saveDomain_eq_ok saving
    obtain ⟨_, disk', _, rfl, _⟩ := saveDomain_eq_ok saving'
    exact relation_opening
  have majors : pairing.domains = ["M", "I"] := by rfl
  have proper : Proper methods ∧ Proper invokes :=
    ⟨⟨by decide, by decide, by decide⟩, ⟨by decide, by decide, by decide⟩⟩
  have within : ∀ tuple ∈ SortedSet.ofList [[1, 0]], Relation.Within 2 [2, 1] tuple := by
    show ∀ tuple ∈ (SortedSet.ofList [[1, 0]]).toList, Relation.Within 2 [2, 1] tuple
    decide
  obtain ⟨saved, fresh, stored, declared, reload⟩ :=
    @relation_reloaded "R" ["M0", "I0"] "M0_I0" pairing
      (fun major => if major = "M" then methods else invokes) (.ofList [[1, 0]]) .empty "work"
      _ store served (by rfl)
      (by simp [Relation.Spelled, Text.isBlank]) (by decide) opened
      (by simpa [majors] using proper)
      (by simpa [majors] using ⟨sinceMethods, sinceInvokes⟩)
      (by simp [majors, Separate, opening]) within room pairing rfl
  obtain ⟨filled, loaded, last, loadedAll, held, loading, contents⟩ := reload ["M"] (by decide)
  exact ⟨store, saved, fresh, filled, loaded, last, served, stored, declared, loadedAll, held "M",
    held "I", loading, contents⟩

/-- Saves two domains whose names lead to the same files, and then a relation over both. -/
def overwriting (signature : Signature) : Step Store Unit := do
  modify (·.putDomain (@Domain.ofList .method "M" [5, 6]))
  modify (·.putDomain (@Domain.ofList .method "./M" [7]))
  modify (·.putRelation { name := "R", signature })
  zeroRelation "R"
  let _ ← addTuple "R" [1, 0]
  saveDomain "M"
  saveDomain "./M"
  saveRelation "R"

/-- A signature over both. -/
def crossing : Signature := ⟨["M0", "./M0"], "M0_./M0"⟩

/-- Whether the header of `M` keeps the relation from being loaded in a new session. -/
def headerRefused : Bool :=
  match overwriting crossing (onDirectory .empty "work") with
  | .error _ _ => false
  | .ok _ saved => match (onDirectory saved.disk "work").declare "R" crossing with
    | .error _ => false
    | .ok fresh => match loadRelation "R" fresh with
      | .error (.malformedHeader name) _ => name = "M"
      | _ => false

/-- Where the files of a domain were overwritten, a relation is not read back, although all that it
needs was saved. -/
theorem not_reloaded_overwritten :
    Signature.make crossing.columns crossing.order = .ok crossing ∧
      Relation.Spelled crossing.columns ∧ Relation.Within 2 [2, 1] [1, 0] ∧
      ∃ saved fresh last, overwriting crossing (onDirectory .empty "work") = .ok () saved ∧
        (onDirectory saved.disk "work").declare "R" crossing = .ok fresh ∧
        loadRelation "R" fresh = .error (.malformedHeader "M") last := by
  refine ⟨by rfl, by simp [crossing, Relation.Spelled, Text.isBlank], by decide, ?_⟩
  have failed : headerRefused = true := by decide +kernel
  unfold headerRefused at failed
  split at failed
  · cases failed
  · next saved saving =>
    split at failed
    · cases failed
    · next fresh declaring =>
      split at failed
      · next name last loading =>
        cases of_decide_eq_true failed
        exact ⟨saved, fresh, last, saving, declaring, loading⟩
      · cases failed

end Store

end ProgramAnalysis
