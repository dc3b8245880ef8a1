import ProgramAnalysis.Domain
import ProgramAnalysis.Relation

/-!
The store of a session: its domains and relations, and the work directory where they are saved and
where a solver finds them.
-/

namespace ProgramAnalysis

/-- A domain of any kind. -/
structure AnyDomain where
  kind : ElementKind
  domain : Domain kind

namespace AnyDomain

def ofKind? (any : AnyDomain) (kind : ElementKind) : Option (Domain kind) :=
  if same : any.kind = kind then some (same ▸ any.domain) else none

end AnyDomain

/-- Domains and relations over a work directory. A relation is kept under its own name. -/
structure Store where
  disk : Disk
  dir : String
  domains : Table String AnyDomain
  relations : Table String Relation
  named : ∀ name relation, relations.get? name = some relation → relation.name = name

namespace Store

/-- An empty store over a directory. -/
def onDirectory (disk : Disk) (dir : String) : Store where
  disk := disk
  dir := dir
  domains := .empty
  relations := .empty
  named := nofun

instance : Inhabited Store := ⟨onDirectory .empty ""⟩

def onDisk {α : Type} (step : Step Disk α) : Step Store α :=
  Step.onPart Store.disk (fun store disk => { store with disk }) step

def query {α : Type} (f : Store → Except Fault α) : Step Store α := fun store =>
  match f store with
  | .ok a => .ok a store
  | .error fault => .error fault store

/-! ### Domains -/

/-- Publishes a domain as computed, in place of an earlier one of its name. -/
def putDomain {kind : ElementKind} (store : Store) (domain : Domain kind) : Store :=
  { store with domains := store.domains.insert domain.name ⟨kind, domain.setFilled⟩ }

def replaceDomain {kind : ElementKind} (store : Store) (name : String) (domain : Domain kind) :
    Store :=
  { store with domains := store.domains.insert name ⟨kind, domain⟩ }

def hasDomain (store : Store) (name : String) : Bool := store.domains.contains name

def anyDomain (store : Store) (name : String) : Except Fault AnyDomain :=
  match store.domains.get? name with
  | some domain => .ok domain
  | none => .error (.domainNotReady name)

/-- The domain with a name, which must hold elements of a kind. -/
def domain (store : Store) (kind : ElementKind) (name : String) : Except Fault (Domain kind) := do
  match (← store.anyDomain name).ofKind? kind with
  | some domain => return domain
  | none => throw (.otherElements name)

/-- The size of a domain in memory. -/
def domainSize (store : Store) (name : String) : Except Fault Nat := do
  return (← store.anyDomain name).domain.size

/-- Writes a published domain to its files. -/
def saveDomain (name : String) : Step Store Unit := do
  let any ← query (·.anyDomain name)
  onDisk (any.domain.save (← get).dir)

/-- Loads a domain and publishes it. -/
def loadDomain (kind : ElementKind) (name : String) : Step Store (Domain kind) := do
  let store ← get
  match Domain.load store.dir store.disk { name } with
  | .error fault _ => throw fault
  | .ok _ domain =>
    set (store.putDomain domain)
    return domain

def saveDomainReport (name dir : String) (program : Program) : Step Store Unit := do
  let any ← query (·.anyDomain name)
  onDisk (any.domain.saveReport dir program)

/-! ### Relations -/

/-- Keeps a relation in the place of an earlier one. -/
def putRelation (store : Store) (relation : Relation) : Store :=
  { store with
    relations := store.relations.insert relation.name relation
    named := by
      intro name other found
      rw [Table.get?_insert] at found
      split at found
      · next same =>
        cases found
        exact same
      · exact store.named name other found }

/-- Declares a relation. Declaring it again is allowed if the columns agree, and keeps the first
declaration. -/
def declare (store : Store) (name : String) (signature : Signature) : Except Fault Store :=
  match store.relations.get? name with
  | none => .ok (store.putRelation { name, signature })
  | some existing =>
    if existing.signature.columns = signature.columns then .ok store
    else .error (.schema name (.redeclared existing.signature signature))

def hasRelation (store : Store) (name : String) : Bool := store.relations.contains name

def relation (store : Store) (name : String) : Except Fault Relation :=
  match store.relations.get? name with
  | some relation => .ok relation
  | none => .error (.relationNotReady name)

/-- The size of a domain, in memory or else saved. -/
def sizeOf (store : Store) (name : String) : Except Fault Nat :=
  match store.domains.get? name with
  | some any => .ok any.domain.size
  | none => do
    match ← Domain.savedSize store.disk store.dir name with
    | some size => return size
    | none => throw (.domainNotReady name)

/-- The sizes of the domains of the columns. -/
def sizes (store : Store) (signature : Signature) : Except Fault (List Nat) :=
  signature.domains.mapM store.sizeOf

/-- Opens a declared relation without tuples, and removes its file. -/
def zeroRelation (name : String) : Step Store Unit := do
  let relation ← query (·.relation name)
  let opened ← onDisk (relation.zero (← get).dir)
  modify (·.putRelation opened)

/-- Adds a tuple to an open relation, and says whether it is new. -/
def addTuple (name : String) (tuple : Tuple) : Step Store Bool := do
  let relation ← query (·.relation name)
  let (extended, fresh) ← Step.ofExcept (relation.add tuple)
  modify (·.putRelation extended)
  return fresh

/-- Adds tuples until one cannot be added, and counts the new ones. -/
def addTuples (name : String) : List Tuple → Step Store Nat
  | [] => return 0
  | tuple :: rest => do
    let fresh ← addTuple name tuple
    let others ← addTuples name rest
    return (if fresh then 1 else 0) + others

/-- Writes an open relation to its file. -/
def saveRelation (name : String) : Step Store Unit := do
  let relation ← query (·.relation name)
  let sizes ← query (·.sizes relation.signature)
  onDisk (relation.save (← get).dir sizes)

/-- Opens a relation with what was saved, or changes nothing. -/
def loadRelation (name : String) : Step Store Relation := do
  let relation ← query (·.relation name)
  let sizes ← query (·.sizes relation.signature)
  let store ← get
  let loaded ← Step.ofExcept (relation.load store.dir sizes store.disk)
  set (store.putRelation loaded)
  return loaded

def closeRelation (name : String) : Step Store Unit := do
  let relation ← query (·.relation name)
  modify (·.putRelation relation.close)

/-- Opens a relation without tuples, adds some, saves and closes it. -/
def fillRelation (name : String) (tuples : List Tuple) : Step Store Unit := do
  zeroRelation name
  let _ ← addTuples name tuples
  saveRelation name
  closeRelation name

/-- Whether there is a file for a declared relation. -/
def isSaved (store : Store) (name : String) : Bool :=
  match store.relations.get? name with
  | some relation => store.disk.holds (relation.filePath store.dir)
  | none => false

/-- The pairs of the first two columns of a saved relation, which is closed again. -/
def takePairs (name : String) : Step Store (List (Nat × Nat)) := do
  let relation ← loadRelation name
  let pairs ← Step.ofExcept (relation.columns 0 1)
  closeRelation name
  return pairs

/-! ### Printing -/

/-- A tuple with every component named through its domain. -/
def printTuple (domains : List AnyDomain) (tuple : Tuple) : Except Fault String := do
  let parts ← (tuple.zip domains).mapM fun (index, any) => do
    return any.domain.name ++ toString index ++ "=" ++ (← any.domain.render index)
  return "  " ++ " ".intercalate parts ++ "\n"

/-- An open relation as text, a tuple a line. -/
def printRelation (store : Store) (name : String) : Except Fault String := do
  let relation ← store.relation name
  let domains ← relation.signature.domains.mapM store.anyDomain
  let tuples ← relation.contents
  let lines ← tuples.toList.mapM (printTuple domains)
  return name ++ " (" ++ relation.signature.render ++ ")\n" ++ String.join lines

end Store

end ProgramAnalysis
