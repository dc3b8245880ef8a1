import ProgramAnalysis.Proofs.Domain.Files

/-!
Domains through every history of requests, loads that fail among them. What the last load or
clearing has left is only ever extended, and stays dense. A second implementation keeps a table from
elements to indices beside the list (`Indexed`), and gives the same answers.
-/

namespace ProgramAnalysis

open List Step

namespace Domain

/-- What can be asked of a domain, with the files as they are at that time. -/
inductive Request (kind : ElementKind) where
  | add (element : kind.Elem)
  | setFilled
  | clear
  | load (dir : String) (disk : Disk)

variable {kind : ElementKind}

/-- Whether a request starts a new numbering. -/
def Request.restarts : Request kind → Bool
  | add _ | setFilled => false
  | clear | load _ _ => true

/-- The domain that reading a file leaves, with what there is to say about it. -/
def settle : EStateM.Result Fault (Domain kind) Unit → Domain kind × Except Fault (Option Nat)
  | .ok _ loaded => (loaded, .ok none)
  | .error fault reached => (reached, .error fault)

/-- The domain after a request, and the answer: adding gives an index. -/
def perform (domain : Domain kind) : Request kind → Domain kind × Except Fault (Option Nat)
  | .add element => ((domain.add element).1, .ok (domain.add element).2)
  | .setFilled => (domain.setFilled, .ok none)
  | .clear => (domain.clear, .ok none)
  | .load dir disk => settle (load dir disk domain)

/-- The domain after some requests. -/
def after (domain : Domain kind) (requests : List (Request kind)) : Domain kind :=
  requests.foldl (fun domain request => (domain.perform request).1) domain

/-- A domain with a table of the indices of its elements. -/
structure Indexed (kind : ElementKind) where
  domain : Domain kind
  indices : Table kind.Elem Nat := .empty

namespace Indexed

/-- The index of an element by the table, which is stored in both places if it is not there yet. -/
def add (indexed : Indexed kind) (element : kind.Elem) : Indexed kind × Nat :=
  match indexed.indices.get? element with
  | some index => ({ indexed with domain := indexed.domain.setFilled }, index)
  | none =>
    let index := indexed.domain.size
    ({ domain :=
        { indexed.domain with elements := indexed.domain.elements ++ [element], filled := true }
       indices := indexed.indices.insert element index }, index)

def setFilled (indexed : Indexed kind) : Indexed kind :=
  { indexed with domain := indexed.domain.setFilled }

def clear (indexed : Indexed kind) : Indexed kind := { domain := indexed.domain.clear }

/-- Adds the elements written on some lines up to the first faulty one. -/
def readLines (indexed : Indexed kind) :
    List (Option String) → Indexed kind × Except Fault (Option Nat)
  | [] => (indexed.setFilled, .ok none)
  | none :: _ => (indexed, .error .file)
  | some line :: rest =>
    match kind.decode line with
    | .error fault => (indexed, .error fault)
    | .ok element =>
      if (indexed.add element).2 ≠ indexed.domain.size then
        ((indexed.add element).1, .error (.repeatedElement indexed.domain.name))
      else (indexed.add element).1.readLines rest

/-- Reads the elements of a file, once there is one. -/
def load (indexed : Indexed kind) (dir : String) (disk : Disk) :
    Indexed kind × Except Fault (Option Nat) :=
  let path := Path.join dir (mapName indexed.domain.name)
  if !disk.holds path then (indexed, .error (.domainNotReady indexed.domain.name))
  else
    match disk.read path with
    | .error fault => (indexed.clear, .error fault)
    | .ok content => indexed.clear.readLines content.lines

/-- Answers a request. -/
def perform (indexed : Indexed kind) : Request kind → Indexed kind × Except Fault (Option Nat)
  | .add element => ((indexed.add element).1, .ok (indexed.add element).2)
  | .setFilled => (indexed.setFilled, .ok none)
  | .clear => (indexed.clear, .ok none)
  | .load dir disk => indexed.load dir disk

def after (indexed : Indexed kind) (requests : List (Request kind)) : Indexed kind :=
  requests.foldl (fun indexed request => (indexed.perform request).1) indexed

end Indexed

/-! ### What every request keeps -/

/-- A property that adding an element, publishing and clearing keep. -/
structure Stable (holds : Domain kind → Prop) : Prop where
  add : ∀ domain element, holds domain → holds (domain.add element).1
  setFilled : ∀ domain, holds domain → holds domain.setFilled
  clear : ∀ domain, holds domain → holds domain.clear

namespace Stable

variable {holds : Domain kind → Prop} (stable : Stable holds)
include stable

theorem readLines (lines : List (Option String)) :
    Keeps holds (Domain.readLines lines : Step (Domain kind) Unit) := by
  induction lines with
  | nil => exact keeps_modify stable.setFilled
  | cons first rest ih =>
    intro domain held
    cases first with
    | none => exact held
    | some line =>
      cases decoded : kind.decode line with
      | error fault =>
        unfold Always Ends
        rw [Domain.readLines, decoded]
        exact held
      | ok element =>
        unfold Always Ends
        rw [readLines_cons decoded]
        by_cases repeated : (domain.add element).2 ≠ domain.size
        · rw [if_pos repeated]
          exact stable.add domain element held
        · rw [if_neg repeated]
          exact ih _ (stable.add domain element held)

theorem load (dir : String) (disk : Disk) :
    Keeps holds (Domain.load dir disk : Step (Domain kind) Unit) := by
  refine keeps_get.bind fun named => ?_
  dsimp only
  split
  · exact keeps_get.bind fun _ => keeps_throw _
  · exact (keeps_modify stable.clear).bind fun _ =>
      (keeps_ofExcept _).bind fun content => stable.readLines _

theorem perform {domain : Domain kind} (held : holds domain) (request : Request kind) :
    holds (domain.perform request).1 := by
  cases request with
  | add element => exact stable.add domain element held
  | setFilled => exact stable.setFilled domain held
  | clear => exact stable.clear domain held
  | load dir disk =>
    have kept := stable.load dir disk domain held
    show holds (settle (Domain.load dir disk domain)).1
    cases outcome : Domain.load dir disk domain with
    | ok _ loaded => exact kept.of_ok outcome
    | error fault reached => exact kept.of_error outcome

theorem after {domain : Domain kind} (held : holds domain) (requests : List (Request kind)) :
    holds (domain.after requests) :=
  foldlRecOn requests _ held fun _ held request _ => stable.perform held request

end Stable

theorem stable_name (name : String) : Stable fun domain : Domain kind => domain.name = name where
  add domain element named := by
    unfold add
    split <;> exact named
  setFilled _ := id
  clear _ := id

/-! ### One numbering -/

section Dense

variable {domain : Domain kind} {element : kind.Elem} {i : Nat}

theorem stable_dense : Stable (@Dense kind) where
  add _ := fun element dense => dense.add element
  setFilled _ dense := ⟨dense.distinct, fun _ => rfl⟩
  clear _ _ := dense_new

theorem Dense.after (dense : domain.Dense) (requests : List (Request kind)) :
    (domain.after requests).Dense := stable_dense.after dense requests

/-- Until a new numbering starts, elements only come to the end. -/
theorem prefix_after {later : List (Request kind)}
    (continues : ∀ request ∈ later, request.restarts = false) :
    domain.elements <+: (domain.after later).elements := by
  induction later generalizing domain with
  | nil => exact prefix_rfl
  | cons request rest ih =>
    refine List.IsPrefix.trans ?_ (ih fun other mem => continues other (mem_cons_of_mem _ mem))
    have extends_ := continues request mem_cons_self
    cases request with
    | add element => exact prefix_add
    | setFilled => exact prefix_rfl
    | clear => cases extends_
    | load dir disk => cases extends_

end Dense

/-! ### The two copies -/

namespace Indexed

/-- The table gives the place of each element that is there, and knows of no other. -/
def Coherent (indexed : Indexed kind) : Prop :=
  ∀ element, indexed.indices.get? element = indexed.domain.elements.idxOf? element

variable {indexed : Indexed kind}

theorem domain_add (coherent : indexed.Coherent) (element : kind.Elem) :
    (indexed.add element).1.domain = (indexed.domain.add element).1 ∧
      (indexed.add element).2 = (indexed.domain.add element).2 := by
  unfold add Domain.add
  rw [coherent element]
  cases indexed.domain.elements.idxOf? element with
  | none => exact ⟨rfl, rfl⟩
  | some index => exact ⟨rfl, rfl⟩

theorem Coherent.add (coherent : indexed.Coherent) (element : kind.Elem) :
    (indexed.add element).1.Coherent := by
  intro other
  unfold Indexed.add
  cases found : indexed.indices.get? element with
  | some index => exact coherent other
  | none =>
    have missing : indexed.domain.elements.idxOf? element = none :=
      (coherent element).symm.trans found
    show (indexed.indices.insert element _).get? other =
      (indexed.domain.elements ++ [element]).findIdx? (· == other)
    rw [Table.get?_insert, findIdx?_append]
    by_cases same : element = other
    · subst same
      have absent : indexed.domain.elements.findIdx? (· == element) = none := missing
      simp [absent, Domain.size]
    · rw [if_neg same, coherent other]
      simp [same, List.idxOf?]

theorem coherent_new {domain : Domain kind} (blank : domain.elements = []) :
    ({ domain } : Indexed kind).Coherent := by
  intro element
  show Table.empty.get? element = domain.elements.idxOf? element
  rw [blank]
  rfl

/-- Lines are read alike with a table and without, and the table is kept up. -/
theorem readLines_agrees (lines : List (Option String)) (coherent : indexed.Coherent) :
    (indexed.readLines lines).1.Coherent ∧ settle (Domain.readLines lines indexed.domain) =
        ((indexed.readLines lines).1.domain, (indexed.readLines lines).2) := by
  induction lines generalizing indexed with
  | nil => exact ⟨coherent, rfl⟩
  | cons first rest ih =>
    cases first with
    | none => exact ⟨coherent, rfl⟩
    | some line =>
      cases decoded : kind.decode line with
      | error fault =>
        rw [readLines, Domain.readLines, decoded]
        exact ⟨coherent, rfl⟩
      | ok element =>
        obtain ⟨same, sameIndex⟩ := domain_add coherent element
        rw [readLines_cons decoded, readLines, decoded, ← same, ← sameIndex]
        dsimp only
        by_cases repeated : (indexed.add element).2 ≠ indexed.domain.size
        · rw [if_pos repeated, if_pos repeated]
          exact ⟨coherent.add element, rfl⟩
        · rw [if_neg repeated, if_neg repeated]
          exact ih (coherent.add element)

theorem load_agrees (dir : String) (disk : Disk) (coherent : indexed.Coherent) :
    (indexed.load dir disk).1.Coherent ∧ settle (Domain.load dir disk indexed.domain) =
        ((indexed.load dir disk).1.domain, (indexed.load dir disk).2) := by
  have blank : indexed.clear.Coherent := coherent_new rfl
  have opened : Domain.load dir disk indexed.domain =
      (if !disk.holds (Path.join dir (mapName indexed.domain.name)) then _ else _ :
        Step (Domain kind) Unit) indexed.domain := rfl
  rw [opened, load]
  cases disk.holds (Path.join dir (mapName indexed.domain.name)) with
  | false => exact ⟨coherent, rfl⟩
  | true =>
    cases disk.read (Path.join dir (mapName indexed.domain.name)) with
    | error fault => exact ⟨blank, rfl⟩
    | ok content => exact readLines_agrees content.lines blank

theorem perform_agrees (request : Request kind) (coherent : indexed.Coherent) :
    (indexed.perform request).1.Coherent ∧ indexed.domain.perform request =
        ((indexed.perform request).1.domain, (indexed.perform request).2) := by
  cases request with
  | add element =>
    obtain ⟨same, sameIndex⟩ := domain_add coherent element
    refine ⟨coherent.add element, ?_⟩
    show ((indexed.domain.add element).1, Except.ok (some (indexed.domain.add element).2)) =
      ((indexed.add element).1.domain, Except.ok (some (indexed.add element).2))
    rw [same, sameIndex]
  | setFilled => exact ⟨coherent, rfl⟩
  | clear => exact ⟨coherent_new rfl, rfl⟩
  | load dir disk => exact load_agrees dir disk coherent

theorem after_agrees (requests : List (Request kind)) (coherent : indexed.Coherent) :
    (indexed.after requests).Coherent ∧
      (indexed.after requests).domain = indexed.domain.after requests := by
  induction requests generalizing indexed with
  | nil => exact ⟨coherent, rfl⟩
  | cons request rest ih =>
    obtain ⟨kept, performed⟩ := perform_agrees request coherent
    obtain ⟨coherent, same⟩ := ih kept
    refine ⟨coherent, ?_⟩
    show (Indexed.after (indexed.perform request).1 rest).domain =
      (indexed.domain.perform request).1.after rest
    rw [same, performed]

end Indexed

/-! ### Any history -/

/-- After any requests a domain numbers different elements by all indices below its size, and the
index of an element, the element of an index and the entry of the table under which it was stored
say the same. Until it is cleared or loaded again an index keeps its element. Adding what is there
gives its index and changes nothing, adding anything else gives the size. A domain that finds
elements by its table gives the same answer to every request. -/
theorem bijective_after {kind : ElementKind} (name : String) (requests : List (Request kind)) :
    let domain := Domain.after { name } requests
    let indexed := Indexed.after { domain := { name } } requests
    domain.elements.Nodup ∧
    (∀ element i,
      (domain.indexOf element = .ok (some i) ↔ domain.element i = .ok element) ∧
      (domain.element i = .ok element ↔ indexed.indices.get? element = some i)) ∧
    (∀ i, (∃ element, domain.element i = .ok element) ↔ i < domain.size) ∧
    (∀ later : List (Request kind), (∀ request ∈ later, request.restarts = false) →
      ∀ element i, domain.element i = .ok element →
        (domain.after later).element i = .ok element ∧
        (domain.after later).indexOf element = .ok (some i)) ∧
    (∀ element i, domain.element i = .ok element → domain.add element = (domain, i)) ∧
    (∀ element, element ∉ domain.elements →
      (domain.add element).2 = domain.size ∧
      (domain.add element).1.element domain.size = .ok element) ∧
    indexed.domain = domain ∧
    ∀ request, (indexed.perform request).2 = (domain.perform request).2 := by
  intro domain indexed
  have dense : domain.Dense := dense_new.after requests
  obtain ⟨coherent, same⟩ : indexed.Coherent ∧ indexed.domain = domain :=
    Indexed.after_agrees requests (Indexed.coherent_new rfl)
  refine ⟨dense.distinct, fun element i => ⟨?_, ?_⟩, fun i => ?_, ?_, ?_, ?_, same, ?_⟩
  · rw [dense.indexOf_eq_ok_iff, dense.element_eq_ok_iff]
  · rw [dense.element_eq_ok_iff, coherent element, same, idxOf?_eq_some_iff dense.distinct]
  · simp only [dense.element_eq_ok_iff]
    exact ⟨fun ⟨_, found⟩ => (List.getElem?_eq_some_iff.mp found).1,
      fun below => ⟨_, List.getElem?_eq_getElem below⟩⟩
  · intro later continues element i found
    obtain ⟨more, grown⟩ : domain.elements <+: (domain.after later).elements :=
      prefix_after continues
    have dense' := dense.after later
    rw [dense.element_eq_ok_iff] at found
    rw [dense'.element_eq_ok_iff, dense'.indexOf_eq_ok_iff, ← grown,
      List.getElem?_append_left (List.getElem?_eq_some_iff.mp found).1]
    exact ⟨found, found⟩
  · exact fun element i found => dense.add_of_getElem? (dense.element_eq_ok_iff.mp found)
  · intro element missing
    rw [(dense.add element).element_eq_ok_iff, add_of_not_mem missing]
    exact ⟨rfl, List.getElem?_concat_length⟩
  · intro request
    rw [← same, (Indexed.perform_agrees request coherent).2]

/-- A disk with a file of elements that has one of them twice. -/
def repeating : Disk := ⟨⟨[(["D.map"], .file (.text "a\nb\na\nc\n"))]⟩⟩

/-- Loading stops at the repeated element; the two before it keep their indices from then on. -/
theorem bijective_after_repeating :
    let domain : Domain .text := Domain.after { name := "D" } [.add "x", .load "" repeating]
    ((⟨"D", ["x"], true⟩ : Domain .text).perform (.load "" repeating)).2 =
        .error (.repeatedElement "D") ∧
      domain.element 1 = .ok "b" ∧ domain.add "b" = (domain, 1) ∧ (domain.add "c").2 = 2 ∧
      (domain.after [.add "c", .setFilled, .add "a"]).indexOf "b" = .ok (some 1) := by
  intro domain
  obtain ⟨_, _, _, kept, present, new, _⟩ :=
    @bijective_after .text "D" [.add "x", .load "" repeating]
  have found : domain.element 1 = .ok "b" := by rfl
  refine ⟨by rfl, found, present "b" 1 found, (new "c" (by decide)).1, ?_⟩
  exact (kept [.add "c", .setFilled, .add "a"] (by decide) "b" 1 found).2

end Domain

end ProgramAnalysis
