import ProgramAnalysis.Proofs.Domain.History
import ProgramAnalysis.Proofs.Store

/-!
Stores through every history of requests, in one session or in several on the same directory. A
domain is kept under its own name and numbers every element once. What saving it wrote stays in its
files as long as it does not change, whatever else is asked of the store, unless a name with a slash
leads another domain to the same files.
-/

namespace ProgramAnalysis

open List Step Disk

/-! ### The files that steps leave alone -/

theorem Relation.spares_zero (relation : Relation) (dir : String) :
    Spares 's' (relation.zero dir) := by
  intro path c content ends differ
  refine keeps_get.bind fun _ => ?_
  have apart : Apart path (relation.filePath dir) := apart_of_endsIn ends
    (Store.endsIn_fileOf.join dir) differ
  dsimp only
  split
  · exact (keeps_read_remove apart).bind fun _ => keeps_pure _
  · exact keeps_pure _

theorem Relation.spares_save (relation : Relation) (dir : String) (sizes : List Nat) :
    Spares 's' (relation.save dir sizes) := fun path c content ends differ =>
  (keeps_ofExcept _).bind fun _ =>
    spares_saveText dir _ Store.endsIn_fileOf path c content ends differ

theorem Domain.spares_saveReport {kind : ElementKind} (domain : Domain kind) (dir : String)
    (program : Program) : Spares 'l' (domain.saveReport dir program) :=
  spares_saveText dir _ (Path.EndsIn.append ⟨rfl, by decide, by decide⟩ domain.name)

namespace Store

/-! ### Steps on relations -/

theorem ends_query {α : Type} {f : Store → Except Fault α} {store : Store}
    {done : α → Store → Prop} {failed : Store → Prop}
    (answered : ∀ a, f store = .ok a → done a store) (refused : failed store) :
    (query f).Ends store done failed := by
  unfold Ends query
  cases answer : f store with
  | ok a => exact answered a answer
  | error fault => exact refused

theorem keeps_query {α : Type} {holds : Store → Prop} (f : Store → Except Fault α) :
    Keeps holds (query f) := fun _ held => ends_query (fun _ _ => held) held

/-- Puts another store in the place of this one, if there is one. -/
def change (f : Store → Except Fault Store) : Step Store Unit := fun store =>
  match f store with
  | .ok changed => .ok () changed
  | .error fault => .error fault store

theorem keeps_change {holds : Store → Prop} {f : Store → Except Fault Store}
    (kept : ∀ before after, f before = .ok after → holds before → holds after) :
    Keeps holds (change f) := by
  intro store held
  unfold Always Ends change
  cases changed : f store with
  | error fault => exact held
  | ok after => exact kept store after changed held

/-- A property that has nothing to do with relations and their files. -/
structure Steady (holds : Store → Prop) : Prop where
  putRelation : ∀ store relation, holds store → holds (store.putRelation relation)
  onDisk : ∀ {α : Type} (step : Step Disk α), Spares 's' step → Keeps holds (onDisk step)

namespace Steady

variable {holds : Store → Prop} (steady : Steady holds)
include steady

theorem declare (name : String) (signature : Signature) :
    Keeps holds (change (·.declare name signature)) := by
  refine keeps_change fun store declared declaring held => ?_
  unfold Store.declare at declaring
  split at declaring
  · cases declaring
    exact steady.putRelation store _ held
  · split at declaring
    · cases declaring
      exact held
    · cases declaring

theorem zeroRelation (name : String) : Keeps holds (zeroRelation name) :=
  (keeps_query _).bind fun relation => keeps_get.bind fun _ =>
    (steady.onDisk _ (relation.spares_zero _)).bind fun _ =>
      keeps_modify fun store => steady.putRelation store _

theorem addTuple (name : String) (tuple : Tuple) : Keeps holds (addTuple name tuple) :=
  (keeps_query _).bind fun _ => (keeps_ofExcept _).bind fun _ =>
    Keeps.bind (keeps_modify fun store => steady.putRelation store _) fun _ => keeps_pure _

theorem addTuples (name : String) (tuples : List Tuple) : Keeps holds (addTuples name tuples) := by
  induction tuples with
  | nil => exact keeps_pure 0
  | cons tuple rest ih =>
    exact (steady.addTuple name tuple).bind fun _ => ih.bind fun _ => keeps_pure _

theorem saveRelation (name : String) : Keeps holds (saveRelation name) :=
  (keeps_query _).bind fun relation => (keeps_query _).bind fun _ => keeps_get.bind fun _ =>
    steady.onDisk _ (relation.spares_save _ _)

theorem loadRelation (name : String) : Keeps holds (loadRelation name) := by
  intro store held
  refine Ends.bind (ends_query (fun _ _ => Ends.bind (ends_query (fun _ _ => ?_) held)) held)
  refine Ends.bind (Ends.get (Ends.bind ((keeps_ofExcept _ store held).mono ?_ fun _ => id)))
  exact fun loaded _ _ => steady.putRelation store loaded held

theorem closeRelation (name : String) : Keeps holds (closeRelation name) :=
  (keeps_query _).bind fun _ => keeps_modify fun store => steady.putRelation store _

theorem fillRelation (name : String) (tuples : List Tuple) :
    Keeps holds (fillRelation name tuples) :=
  (steady.zeroRelation name).bind fun _ => (steady.addTuples name tuples).bind fun _ =>
    (steady.saveRelation name).bind fun _ => steady.closeRelation name

end Steady

/-! ### Requests -/

/-- What can be asked of a store. Another session may be started on the same directory. -/
inductive Request where
  | putDomain (kind : ElementKind) (name : String) (built : List (Domain.Request kind))
  | changeDomain (kind : ElementKind) (name : String) (changes : List (Domain.Request kind))
  | saveDomain (name : String)
  | loadDomain (kind : ElementKind) (name : String)
  | saveReport (name dir : String) (program : Program)
  | declare (name : String) (signature : Signature)
  | zeroRelation (name : String)
  | addTuple (name : String) (tuple : Tuple)
  | saveRelation (name : String)
  | loadRelation (name : String)
  | closeRelation (name : String)
  | restart

/-- Serves a request. -/
def Request.step : Request → Step Store Unit
  | putDomain kind name built => modify (·.putDomain (Domain.after { name } built : Domain kind))
  | changeDomain kind name changes => change fun store => do
    return store.replaceDomain name ((← store.domain kind name).after changes)
  | saveDomain name => Store.saveDomain name
  | loadDomain kind name => do let _ ← Store.loadDomain kind name
  | saveReport name dir program => saveDomainReport name dir program
  | declare name signature => change (·.declare name signature)
  | zeroRelation name => Store.zeroRelation name
  | addTuple name tuple => do let _ ← Store.addTuple name tuple
  | saveRelation name => Store.saveRelation name
  | loadRelation name => do let _ ← Store.loadRelation name
  | closeRelation name => Store.closeRelation name
  | restart => modify fun store => onDirectory store.disk store.dir

/-- The store after some requests, those that fail included. -/
def serveAll (store : Store) (requests : List Request) : Store :=
  requests.foldl (fun store request => request.step.final store) store

theorem serveAll_append (store : Store) (first second : List Request) :
    store.serveAll (first ++ second) = (store.serveAll first).serveAll second := foldl_append

/-- A request keeps what has nothing to do with relations, if those about domains do. -/
theorem Steady.step {holds : Store → Prop} (steady : Steady holds) {store : Store}
    (held : holds store)
    (putDomain : ∀ kind name built, Keeps holds (Request.putDomain kind name built).step)
    (changeDomain : ∀ kind name changes, Keeps holds (Request.changeDomain kind name changes).step)
    (loadDomain : ∀ kind name, Keeps holds (Store.loadDomain kind name))
    (saveReport : ∀ name dir program, Keeps holds (saveDomainReport name dir program))
    (restart : Keeps holds Request.restart.step) {request : Request}
    (saveDomain : ∀ name, request = .saveDomain name →
      (Store.saveDomain name).Always store holds) : request.step.Always store holds := by
  cases request with
  | putDomain kind name built => exact putDomain kind name built store held
  | changeDomain kind name changes => exact changeDomain kind name changes store held
  | saveDomain name => exact saveDomain name rfl
  | loadDomain kind name =>
    exact ((loadDomain kind name).bind fun _ => keeps_pure _) store held
  | saveReport name dir program => exact saveReport name dir program store held
  | declare name signature => exact steady.declare name signature store held
  | zeroRelation name => exact steady.zeroRelation name store held
  | addTuple name tuple =>
    exact ((steady.addTuple name tuple).bind fun _ => keeps_pure _) store held
  | saveRelation name => exact steady.saveRelation name store held
  | loadRelation name => exact ((steady.loadRelation name).bind fun _ => keeps_pure _) store held
  | closeRelation name => exact steady.closeRelation name store held
  | restart => exact restart store held

/-! ### Domains in memory -/

/-- Domains are kept under their own names and number every element once. -/
def Tidy (store : Store) : Prop :=
  ∀ name any, store.domains.get? name = some any → any.domain.name = name ∧ any.domain.Dense

theorem Tidy.replaceDomain {store : Store} (tidy : store.Tidy) {kind : ElementKind}
    {domain : Domain kind} {name : String} (named : domain.name = name) (dense : domain.Dense) :
    (store.replaceDomain name domain).Tidy := by
  intro other any found
  replace found := (Table.get?_insert _ _ _ _).symm.trans found
  split at found
  · next same =>
    cases found
    exact ⟨named.trans same, dense⟩
  · exact tidy other any found

theorem Tidy.putDomain {store : Store} (tidy : store.Tidy) {kind : ElementKind}
    {domain : Domain kind} (dense : domain.Dense) : (store.putDomain domain).Tidy :=
  tidy.replaceDomain rfl (Domain.stable_dense.setFilled domain dense)

theorem tidy_onDisk {α : Type} (step : Step Disk α) : Keeps Tidy (onDisk step) :=
  (keeps_true step).onPart (fun _ _ => trivial) fun _ _ tidy _ => tidy

theorem Tidy.changeDomain {store changed : Store} (tidy : store.Tidy) {kind : ElementKind}
    {name : String} {changes : List (Domain.Request kind)}
    (changing : (do return store.replaceDomain name ((← store.domain kind name).after changes)) =
      Except.ok changed) : changed.Tidy := by
  obtain ⟨domain, found, rest⟩ := except_bind_eq_ok.mp changing
  cases rest
  obtain ⟨named, dense⟩ := tidy name ⟨kind, domain⟩ (get?_of_domain found)
  exact tidy.replaceDomain ((Domain.stable_name name).after named changes) (dense.after changes)

theorem tidy_loadDomain (kind : ElementKind) (name : String) :
    Keeps Tidy (loadDomain kind name) := by
  intro store tidy
  refine Ends.bind (Ends.get ?_)
  split
  · exact keeps_throw _ store tidy
  · next domain loading =>
    have dense := (Domain.stable_dense.load store.dir store.disk _ Domain.dense_new).of_ok loading
    exact tidy.putDomain dense

theorem Tidy.serve {store : Store} (tidy : store.Tidy) (request : Request) :
    (request.step.final store).Tidy := by
  have steady : Steady Tidy := ⟨fun _ _ => id, fun step _ => tidy_onDisk step⟩
  refine (steady.step tidy ?_ ?_ tidy_loadDomain ?_ ?_ ?_).final
  · exact fun kind name built => keeps_modify fun store tidy =>
      tidy.putDomain (Domain.dense_new.after built)
  · exact fun kind name changes => keeps_change fun _ _ changing tidy => tidy.changeDomain changing
  · exact fun name dir program => (keeps_query _).bind fun _ => tidy_onDisk _
  · exact keeps_modify fun _ _ => nofun
  · exact fun name _ =>
      ((keeps_query _).bind fun _ => keeps_get.bind fun _ => tidy_onDisk _) store tidy

theorem tidy_serveAll (disk : Disk) (dir : String) (requests : List Request) :
    ((onDirectory disk dir).serveAll requests).Tidy :=
  foldlRecOn requests _ (fun _ _ found => by cases found) fun _ tidy request _ => tidy.serve request

/-! ### Domains on file -/

/-- The files of a domain hold what saving it writes. -/
structure Written (any : AnyDomain) (store : Store) : Prop where
  map : store.disk.read (Path.join store.dir (Domain.mapName any.domain.name)) =
    .ok (.text any.domain.mapText)
  header : store.disk.read (Path.join store.dir (Domain.headerName any.domain.name)) =
    .ok (.text any.domain.headerText)

theorem written_of_saveDomain {before after : Store} {name : String} {any : AnyDomain}
    (found : before.domains.get? name = some any)
    (saving : saveDomain name before = .ok () after) : after.Written any := by
  obtain ⟨other, disk, found', rfl, saved⟩ := saveDomain_eq_ok saving
  cases found.symm.trans found'
  obtain ⟨map, header⟩ := Domain.read_save saved
  exact ⟨map, header⟩

theorem Written.onDisk {store : Store} {any : AnyDomain} (written : store.Written any) {α : Type}
    {step : Step Disk α}
    (map : Keeps (fun disk => disk.read (Path.join store.dir (Domain.mapName any.domain.name)) =
      .ok (.text any.domain.mapText)) step)
    (header : Keeps (fun disk =>
      disk.read (Path.join store.dir (Domain.headerName any.domain.name)) =
        .ok (.text any.domain.headerText)) step) :
    (Store.onDisk step).Always store (Written any) :=
  Ends.onPart (((map _ written.map).and (header _ written.header)).mono
    (fun _ _ both => ⟨both.1, both.2⟩) fun _ both => ⟨both.1, both.2⟩)

theorem written_onDisk_of_spares (any : AnyDomain) {α : Type} {step : Step Disk α} {c : Char}
    (spares : Spares c step) (notMap : 'p' ≠ c) (notHeader : 'm' ≠ c) :
    Keeps (Written any) (Store.onDisk step) := fun _ written =>
  written.onDisk (spares _ _ _ (Domain.endsIn_mapPath _ _) notMap)
    (spares _ _ _ (Domain.endsIn_headerPath _ _) notHeader)

/-- Saving a domain leaves what another wrote, or writes the same again. -/
theorem Written.saveDomain {store : Store} {any : AnyDomain} (written : store.Written any)
    (tidy : store.Tidy) {name : String}
    (plain : name ≠ any.domain.name → '/' ∉ any.domain.name.toList ∧ '/' ∉ name.toList)
    (memory : ∀ current, store.domains.get? any.domain.name = some current → current = any) :
    (Store.saveDomain name).Always store (Written any) := by
  refine Ends.bind (ends_query (fun other answer => Ends.bind (Ends.get ?_)) written)
  have found := anyDomain_eq_ok.mp answer
  obtain ⟨rfl, _⟩ := tidy name other found
  have apart := Domain.apart_files store.dir any.domain other.domain
  have apart' := (Domain.apart_files store.dir other.domain any.domain).symm
  by_cases same : other.domain.name = any.domain.name
  · obtain rfl := memory other (same ▸ found)
    exact written.onDisk (Domain.keeps_read_save (.inr rfl) (.inl apart))
      (Domain.keeps_read_save (.inl apart') (.inr rfl))
  · obtain ⟨noSlash, noSlash'⟩ := plain same
    have between (ending : String) (long : 3 ≤ ending.length) (clean : '/' ∉ ending.toList) :
        Apart (Path.join store.dir (any.domain.name ++ ending))
          (Path.join store.dir (other.domain.name ++ ending)) :=
      apart_join (Path.plain_append long noSlash clean) (Path.plain_append long noSlash' clean)
        (fun equal => same ((String.append_left_inj ending).mp equal).symm) store.dir
    exact written.onDisk
      (Domain.keeps_read_save (.inl (between ".map" (by decide) (by decide))) (.inl apart))
      (Domain.keeps_read_save (.inl apart') (.inl (between ".dom" (by decide) (by decide))))

/-- No other domain that is saved can have the files of one: no slash is in their names. -/
def Separate (requests : List Request) (name : String) : Prop :=
  ∀ other, .saveDomain other ∈ requests → other ≠ name → '/' ∉ name.toList ∧ '/' ∉ other.toList

theorem Written.serve {store : Store} {any : AnyDomain} (written : store.Written any)
    (tidy : store.Tidy) {request : Request}
    (separate : Separate [request] any.domain.name)
    (memory : ∀ current, store.domains.get? any.domain.name = some current → current = any) :
    (request.step.final store).Written any := by
  have steady : Steady (Written any) := ⟨fun _ _ written => ⟨written.map, written.header⟩,
    fun step spares => written_onDisk_of_spares any spares (by decide) (by decide)⟩
  refine (steady.step written ?_ ?_ ?_ ?_ ?_ ?_).final
  · exact fun kind name built => keeps_modify fun store written => ⟨written.map, written.header⟩
  · refine fun kind name changes => keeps_change fun before after changing written => ?_
    obtain ⟨domain, _, rest⟩ := except_bind_eq_ok.mp changing
    cases rest
    exact ⟨written.map, written.header⟩
  · intro kind name store written
    refine Ends.bind (Ends.get ?_)
    split
    · exact keeps_throw _ store written
    · exact ⟨written.map, written.header⟩
  · exact fun name dir program => (keeps_query _).bind fun other =>
      written_onDisk_of_spares any (other.domain.spares_saveReport dir program) (by decide)
        (by decide)
  · exact keeps_modify fun store written => ⟨written.map, written.header⟩
  · rintro name rfl
    exact written.saveDomain tidy (separate name mem_cons_self) memory

/-- What saving a domain wrote is there after any requests during which it did not change. -/
theorem Written.serveAll {requests : List Request} {store : Store} {any : AnyDomain}
    (written : store.Written any) (tidy : store.Tidy)
    (separate : Separate requests any.domain.name)
    (memory : ∀ between, between <+: requests → ∀ current,
      (store.serveAll between).domains.get? any.domain.name = some current → current = any) :
    (store.serveAll requests).Written any := by
  induction requests generalizing store with
  | nil => exact written
  | cons request rest ih =>
    have now : Separate [request] any.domain.name := fun other mem =>
      separate other (mem_singleton.mp mem ▸ mem_cons_self)
    exact ih (written.serve tidy now (memory [] nil_prefix)) (tidy.serve request)
      (fun other mem => separate other (mem_cons_of_mem _ mem))
      fun between isPrefix => memory (request :: between) (prefix_cons_inj request |>.mpr isPrefix)

/-- A domain was saved, and nothing else was kept under its name since. -/
def SavedSince (start : Store) (requests : List Request) (name : String) (any : AnyDomain) : Prop :=
  ∃ earlier later saved, requests = earlier ++ .saveDomain name :: later ∧
    (start.serveAll earlier).domains.get? name = some any ∧
    saveDomain name (start.serveAll earlier) = .ok () saved ∧
    ∀ between, between <+: later → ∀ current,
      (saved.serveAll between).domains.get? name = some current → current = any

theorem SavedSince.written {disk : Disk} {dir : String} {requests : List Request} {name : String}
    {any : AnyDomain} (since : SavedSince (onDirectory disk dir) requests name any)
    (separate : Separate requests name) :
    any.domain.name = name ∧ any.domain.Dense ∧
      ((onDirectory disk dir).serveAll requests).Written any ∧
      ∀ current, ((onDirectory disk dir).serveAll requests).domains.get? name = some current →
        current = any := by
  obtain ⟨earlier, later, saved, rfl, found, saving, memory⟩ := since
  have tidy := tidy_serveAll disk dir earlier
  obtain ⟨rfl, dense⟩ := tidy name any found
  have served : (onDirectory disk dir).serveAll (earlier ++ .saveDomain any.domain.name :: later) =
      saved.serveAll later := by
    rw [serveAll_append]
    exact congrArg (serveAll · later) (final_of_ok saving)
  have still : saved.Tidy := final_of_ok saving ▸ tidy.serve (.saveDomain any.domain.name)
  rw [served]
  refine ⟨rfl, dense, (written_of_saveDomain found saving).serveAll still (fun other mem => ?_)
    memory, memory later prefix_rfl⟩
  exact separate other (mem_append_right _ (mem_cons_of_mem _ mem))

end Store

end ProgramAnalysis
