import Mathlib.Data.Sigma.Basic
import ProgramAnalysis.Context.Abstraction
import ProgramAnalysis.Proofs.Domain
import ProgramAnalysis.Proofs.Store

/-!
What an abstraction keeps of the refinement steps that were taken into account. A run notes what the
store names, one entry after the other, up to the first that fails (`ends_run`). An abstraction
reflects some steps if it has raised each site as often as they name it, and has made sensitive what
they name (`Reflects`); a run that succeeds adds one step to them.
-/

namespace ProgramAnalysis

open Step List Refined

open Store (SameData)

/-! ### Entries that may fail -/

section Entries

variable {α : Type} {entries later : List (Except Fault α)}

/-- What entries give before the first that fails. -/
def untilFault : List (Except Fault α) → List α
  | .ok a :: rest => a :: untilFault rest
  | _ => []

/-- No entry fails. -/
def Faultless (entries : List (Except Fault α)) : Prop := ∀ entry ∈ entries, ∃ a, entry = .ok a

theorem faultless_append : Faultless (entries ++ later) ↔ Faultless entries ∧ Faultless later :=
  forall_mem_append

theorem not_faultless_error : ¬ Faultless (.error fault :: later) := by
  intro faultless
  obtain ⟨_, same⟩ := faultless _ mem_cons_self
  cases same

theorem untilFault_append (faultless : Faultless entries) :
    untilFault (entries ++ later) = untilFault entries ++ untilFault later := by
  induction entries with
  | nil => rfl
  | cons first rest ih =>
    obtain ⟨⟨a, rfl⟩, others⟩ := forall_mem_cons.mp faultless
    exact congrArg (a :: ·) (ih others)

theorem untilFault_append_of_not (faulty : ¬ Faultless entries) :
    untilFault (entries ++ later) = untilFault entries := by
  induction entries with
  | nil => exact absurd (forall_mem_nil _) faulty
  | cons first rest ih =>
    cases first with
    | error fault => rfl
    | ok a =>
      refine congrArg (a :: ·) (ih fun others => faulty ?_)
      exact forall_mem_cons.mpr ⟨⟨a, rfl⟩, others⟩

theorem map_ok_untilFault_sublist :
    ((untilFault entries).map .ok : List (Except Fault α)).Sublist entries := by
  induction entries with
  | nil => exact .slnil
  | cons first rest ih =>
    cases first with
    | error fault => exact nil_sublist _
    | ok a => exact ih.cons_cons _

theorem map_ok_untilFault (faultless : Faultless entries) :
    (untilFault entries).map .ok = entries := by
  induction entries with
  | nil => rfl
  | cons first rest ih =>
    obtain ⟨⟨a, rfl⟩, others⟩ := forall_mem_cons.mp faultless
    exact congrArg (Except.ok a :: ·) (ih others)

/-- Two entries that do not give the same. -/
def Differ (first second : Except Fault α) : Prop := ∀ a, first = .ok a → second ≠ .ok a

theorem nodup_untilFault (differ : entries.Pairwise Differ) : (untilFault entries).Nodup := by
  have apart := pairwise_map.mp (differ.sublist map_ok_untilFault_sublist)
  exact apart.imp fun differ same => differ _ rfl (congrArg _ same.symm)

end Entries

/-! ### What is named -/

namespace Store

variable {store before after : Store}

/-- The tuples that a saved relation lists, none if it cannot be loaded. -/
def tuplesOf (store : Store) (name : String) : List Tuple :=
  match store.loaded name >>= Relation.contents with
  | .ok tuples => tuples.toList
  | .error _ => []

/-- Every domain numbers an element only once. -/
def Numbered (store : Store) : Prop :=
  ∀ name any, store.domains.get? name = some any → any.domain.elements.Nodup

theorem SameData.tuplesOf (same : before.SameData after) (name : String) :
    after.tuplesOf name = before.tuplesOf name := by
  rw [Store.tuplesOf, same.loaded]
  rfl

variable {name : String} {rel : Relation}

theorem tuplesOf_eq (loaded : store.loaded name = .ok rel) (contents : rel.contents = .ok tuples) :
    store.tuplesOf name = tuples.toList := by
  rw [tuplesOf, except_bind_eq_ok.mpr ⟨rel, loaded, contents⟩]

theorem mem_column (loaded : store.loaded name = .ok rel) (column : rel.column 0 = .ok indices) :
    indices.Nodup ∧ ∀ index, index ∈ indices ↔
      ∃ tuple ∈ store.tuplesOf name, Relation.component tuple 0 = index := by
  obtain ⟨_, _, rest⟩ := except_bind_eq_ok.mp column
  obtain ⟨tuples, contents, listed⟩ := except_bind_eq_ok.mp rest
  cases listed
  refine ⟨nodup_eraseDups _, fun index => ?_⟩
  rw [mem_eraseDups, mem_map, tuplesOf_eq loaded contents]

theorem SameData.domain (same : before.SameData after) (kind : ElementKind) (name : String) :
    after.domain kind name = before.domain kind name := by
  unfold Store.domain Store.anyDomain
  rw [same.domains]

theorem SameData.numbered (same : before.SameData after) (numbered : before.Numbered) :
    after.Numbered := by
  unfold Numbered
  rwa [same.domains]

variable {kind : ElementKind} {domain : Domain kind}

theorem Numbered.putDomain (numbered : store.Numbered) (distinct : domain.elements.Nodup) :
    (store.putDomain domain).Numbered := by
  intro name any found
  rw [Store.putDomain, Table.get?_insert] at found
  split at found
  · cases found
    exact distinct
  · exact numbered name any found

theorem Numbered.nodup (numbered : store.Numbered) (found : store.domain kind name = .ok domain) :
    domain.elements.Nodup := by
  obtain ⟨any, answer, rest⟩ := except_bind_eq_ok.mp found
  have distinct := numbered name any (anyDomain_eq_ok.mp answer)
  unfold AnyDomain.ofKind? at rest
  split at rest
  · next other same =>
    split at same
    · next sameKind =>
      cases rest
      cases same
      subst sameKind
      exact distinct
    · cases same
  · cases rest

theorem tuplesOf_of_unsaved (unsaved : (store.hasRelation name && store.isSaved name) = false) :
    store.tuplesOf name = [] := by
  unfold tuplesOf
  cases answer : store.loaded name >>= Relation.contents with
  | error fault => rfl
  | ok tuples =>
    obtain ⟨rel, loaded, _⟩ := except_bind_eq_ok.mp answer
    obtain ⟨declared, found, rest⟩ := except_bind_eq_ok.mp loaded
    obtain ⟨sizes, _, loading⟩ := except_bind_eq_ok.mp rest
    rw [relation_eq_ok] at found
    have declaredThere : store.hasRelation name = true := by
      rw [hasRelation, Table.contains, found]
      rfl
    have saved : store.isSaved name = true := by
      unfold isSaved
      rw [found]
      unfold Relation.load at loading
      dsimp only at loading
      split at loading
      · cases loading
      · next held => simpa using held
    rw [declaredThere, saved] at unsaved
    cases unsaved

theorem SameData.isSaved (same : before.SameData after) (name : String) :
    after.isSaved name = before.isSaved name := by
  have sig := same.signatures name
  unfold signature? at sig
  unfold Store.isSaved
  rw [same.disk, same.dir]
  cases foundBefore : before.relations.get? name with
  | none =>
    rw [foundBefore, Option.map_none, Option.map_eq_none_iff] at sig
    rw [sig]
  | some rel =>
    rw [foundBefore, Option.map_some] at sig
    obtain ⟨other, foundAfter, _⟩ := Option.map_eq_some_iff.mp sig
    rw [foundAfter]
    show before.disk.holds (Path.join before.dir (other.name ++ _)) =
      before.disk.holds (Path.join before.dir (rel.name ++ _))
    rw [after.named name other foundAfter, before.named name rel foundBefore]

theorem hasRelation_of_isSaved {store : Store} (saved : store.isSaved name = true) :
    store.hasRelation name = true := by
  unfold isSaved at saved
  unfold hasRelation Table.contains
  split at saved
  · next declared => rw [declared]; rfl
  · cases saved

/-- Reading the first column of a relation changes no data. It fails only if there is none. -/
theorem firstColumn_ends (before : Store) (name : String) : Ends (do
        let rel ← loadRelation name
        let indices ← Step.ofExcept (rel.column 0)
        closeRelation name
        return indices) before
      (fun indices after => before.SameData after ∧
        (before.loaded name >>= (·.column 0)) = .ok indices)
      fun _ => ∃ fault, (before.loaded name >>= (·.column 0)) = .error fault := by
  cases answer : before.loaded name with
  | error fault =>
    refine Ends.bind ?_
    unfold Ends
    cases loading : loadRelation name before with
    | error cause after => exact ⟨fault, rfl⟩
    | ok rel after => cases answer.symm.trans (loadRelation_eq_ok_iff.mp loading).1
  | ok rel =>
    have loading := loadRelation_eq_ok_iff.mpr ⟨answer, rfl⟩
    have opened : (before.putRelation rel).relation name = .ok rel := by
      rw [relation_eq_ok, get?_loadRelation loading, if_pos rfl]
    have closing : closeRelation name (before.putRelation rel) = .ok () _ :=
      query_bind_eq_ok.mpr ⟨rel, opened, rfl⟩
    have same := (loadRelation_eq_ok loading).1.trans (closeRelation_eq_ok closing)
    unfold Ends
    rw [bind_of_ok loading]
    cases column : rel.column 0 with
    | error fault => exact ⟨fault, column⟩
    | ok indices =>
      rw [bind_of_ok (ofExcept_eq_ok.mpr ⟨rfl, rfl⟩), bind_of_ok closing]
      exact ⟨same, column⟩

end Store

namespace Refined

/-- What sort of elements a relation of refinements names. -/
abbrev kind : Refined → ElementKind
  | allocations | invokes => .instruction
  | methods => .method
  | vars => .var

/-- The domain that numbers them. -/
def domain : Refined → String
  | allocations => "H"
  | invokes => "I"
  | methods => "M"
  | vars => "V"

/-- The element with an index. -/
def decode (refined : Refined) (store : Store) (index : Nat) :
    Except Fault refined.kind.Elem := do
  (← store.domain refined.kind refined.domain).element index

/-- The elements that are named in a store. -/
def named (refined : Refined) (store : Store) : List refined.kind.Elem :=
  (store.tuplesOf refined.relation).filterMap fun tuple =>
    (refined.decode store (Relation.component tuple 0)).toOption

variable {part : Refined} {store before after : Store}

theorem decode_congr (same : before.SameData after) (part : Refined) :
    part.decode after = part.decode before := by
  funext index
  rw [decode, same.domain]
  rfl

variable {element : part.kind.Elem}

theorem decode_injective (numbered : store.Numbered) (first : part.decode store i = .ok element)
    (second : part.decode store j = .ok element) : i = j := by
  obtain ⟨domain, found, atFirst⟩ := except_bind_eq_ok.mp first
  obtain ⟨other, found', atSecond⟩ := except_bind_eq_ok.mp second
  obtain rfl := Except.ok.inj (found.symm.trans found')
  have atFirst := (Domain.element_eq_ok.mp atFirst).2
  have atSecond := (Domain.element_eq_ok.mp atSecond).2
  obtain ⟨below, _⟩ := List.getElem?_eq_some_iff.mp atFirst
  exact (List.getElem?_inj below (numbered.nodup found)).mp (atFirst.trans atSecond.symm)

theorem mem_named : element ∈ part.named store ↔ ∃ tuple ∈ store.tuplesOf part.relation,
      part.decode store (Relation.component tuple 0) = .ok element := by
  have ok_iff (answer : Except Fault part.kind.Elem) :
      answer.toOption = some element ↔ answer = .ok element := by
    cases answer <;> simp [Except.toOption]
  simp only [named, mem_filterMap, ok_iff]

theorem named_congr (same : before.SameData after) (part : Refined) :
    part.named after = part.named before := by
  rw [named, same.tuplesOf, decode_congr same]
  rfl

theorem named_of_empty (empty : store.tuplesOf part.relation = []) : part.named store = [] := by
  rw [named, empty]
  rfl

/-- An element that is named, with the sort of elements it is of. -/
abbrev Remark := (part : Refined) × part.kind.Elem

/-- What a relation lists: each entry is the element that it names, or fails if there is none. A
relation that cannot be loaded is one entry that fails. -/
def entries (store : Store) (part : Refined) : List (Except Fault Remark) :=
  if store.isSaved part.relation then
    match store.loaded part.relation >>= (·.column 0) with
    | .ok indices => indices.map fun index => (part.decode store index).map (Sigma.mk part)
    | .error fault => [.error fault]
  else []

/-- What is noted of a store: everything that is listed before the first entry that fails. -/
def reached (store : Store) : List Remark := untilFault (all.flatMap (entries store))

variable {remark : Remark}

theorem decode_of_entry (entry : (part.decode store index).map (Sigma.mk part) = .ok remark) :
    ∃ elem, part.decode store index = .ok elem ∧ remark = ⟨part, elem⟩ := by
  cases decoded : part.decode store index with
  | error fault =>
    rw [decoded] at entry
    cases entry
  | ok elem =>
    rw [decoded] at entry
    cases entry
    exact ⟨elem, rfl, rfl⟩

theorem named_of_mem_entries (mem : .ok remark ∈ entries store part) :
    remark.1 = part ∧ remark.2 ∈ remark.1.named store := by
  unfold entries at mem
  split at mem
  · split at mem
    · next indices answer =>
      obtain ⟨rel, loaded, column⟩ := except_bind_eq_ok.mp answer
      obtain ⟨index, listed, same⟩ := List.mem_map.mp mem
      obtain ⟨tuple, among, rfl⟩ := ((Store.mem_column loaded column).2 index).mp listed
      obtain ⟨elem, decoded, rfl⟩ := decode_of_entry same
      exact ⟨rfl, mem_named.mpr ⟨tuple, among, decoded⟩⟩
    · cases mem_singleton.mp mem
  · cases mem

theorem mem_entries_of_named (faultless : Faultless (entries store part))
    {elem : part.kind.Elem} (named : elem ∈ part.named store) :
    .ok ⟨part, elem⟩ ∈ entries store part := by
  obtain ⟨tuple, among, decoded⟩ := mem_named.mp named
  unfold entries at faultless ⊢
  split at faultless
  · next saved =>
    rw [if_pos saved]
    split at faultless
    · next indices answer =>
      obtain ⟨rel, loaded, column⟩ := except_bind_eq_ok.mp answer
      refine List.mem_map.mpr ⟨_,
        ((Store.mem_column loaded column).2 _).mpr ⟨tuple, among, rfl⟩, ?_⟩
      rw [decoded]
      rfl
    · exact absurd faultless not_faultless_error
  · next unsaved =>
    rw [Store.tuplesOf_of_unsaved (by rw [Bool.eq_false_iff.mpr unsaved, Bool.and_false])] at among
    cases among

theorem differ_entries (numbered : store.Numbered) (part : Refined) :
    (entries store part).Pairwise Differ := by
  unfold entries
  split
  · split
    · next indices answer =>
      obtain ⟨rel, loaded, column⟩ := except_bind_eq_ok.mp answer
      rw [pairwise_map]
      refine (Store.mem_column loaded column).1.imp fun {i j} different remark first second => ?_
      obtain ⟨elem, atFirst, rfl⟩ := decode_of_entry first
      obtain ⟨_, atSecond, same⟩ := decode_of_entry second
      cases same
      exact different (decode_injective numbered atFirst atSecond)
    · exact pairwise_singleton _ _
  · exact .nil

theorem nodup_reached (numbered : store.Numbered) : (reached store).Nodup := by
  refine nodup_untilFault (pairwise_flatMap.mpr ⟨fun part _ => differ_entries numbered part, ?_⟩)
  have distinct : all.Nodup := by decide
  refine distinct.imp fun {part other} different first mem second member' remark same same' => ?_
  subst same same'
  exact different ((named_of_mem_entries mem).1.symm.trans (named_of_mem_entries member').1)

theorem named_of_mem_reached (mem : remark ∈ reached store) : remark.2 ∈ remark.1.named store := by
  have listed := map_ok_untilFault_sublist.subset (mem_map_of_mem mem)
  obtain ⟨part, _, among⟩ := mem_flatMap.mp listed
  exact (named_of_mem_entries among).2

theorem mem_reached (faultless : Faultless (all.flatMap (entries store))) :
    remark ∈ reached store ↔ remark.2 ∈ remark.1.named store := by
  refine ⟨named_of_mem_reached, fun named => ?_⟩
  obtain ⟨part, elem⟩ := remark
  have listed : part ∈ all := by
    cases part <;> decide
  have all : .ok ⟨part, elem⟩ ∈ all.flatMap (entries store) :=
    mem_flatMap.mpr ⟨part, listed, mem_entries_of_named
      (fun entry mem => faultless entry (mem_flatMap.mpr ⟨part, listed, mem⟩)) named⟩
  rw [← map_ok_untilFault faultless] at all
  obtain ⟨_, mem, same⟩ := List.mem_map.mp all
  cases same
  exact mem

end Refined

namespace Abstraction

variable {abstraction refined left : Abstraction} {part : Refined} {store before after : Store}

/-! ### Noting what is named -/

/-- Takes one element into account. -/
def note (part : Refined) (abstraction : Abstraction) (element : part.kind.Elem) : Abstraction :=
  match part with
  | .allocations =>
    { abstraction with objectRaises := abstraction.objectRaises.update element 0 (· + 1) }
  | .invokes =>
    { abstraction with callRaises := abstraction.callRaises.update element 0 (· + 1) }
  | .methods => { abstraction with promoted := abstraction.promoted.insert element }
  | .vars => { abstraction with refined := abstraction.refined.insert element }

theorem refine_eq (abstraction : Abstraction) (store : Store) (index : Nat) (part : Refined) :
    abstraction.refine store index part =
      part.decode store index >>= fun element => .ok (note part abstraction element) := by
  cases part <;> simp only [refine, decode, bind_assoc] <;> rfl

/-- Takes some elements into account. -/
def noteAll (abstraction : Abstraction) (remarks : List Remark) : Abstraction :=
  remarks.foldl (fun abstraction remark => note remark.1 abstraction remark.2) abstraction

/-- What holds after the entries of a list were noted up to the first that fails: a success notes
all, and a failure leaves what was noted before. -/
def Notes {α : Type} (step : Step (Store × Abstraction) α) (store : Store)
    (entries : List (Except Fault Remark)) (s : Store × Abstraction) : Prop :=
  step.Ends s
    (fun _ t => store.SameData t.1 ∧ Faultless entries ∧ t.2 = s.2.noteAll (untilFault entries))
    fun t => ¬ Faultless entries ∧ t.2 = s.2.noteAll (untilFault entries)

variable {s : Store × Abstraction}

theorem Notes.bind {α β : Type} {step : Step (Store × Abstraction) α}
    {f : α → Step (Store × Abstraction) β} {entries later : List (Except Fault Remark)}
    (notes : Notes step store entries s)
    (next : ∀ a t, store.SameData t.1 → Notes (f a) store later t) :
    Notes (step >>= f) store (entries ++ later) s := by
  refine Ends.bind (Ends.mono notes ?_ ?_)
  · rintro a t ⟨same, faultless, noted⟩
    refine (next a t same).mono ?_ ?_
    · rintro b u ⟨same, faultless', noted'⟩
      refine ⟨same, faultless_append.mpr ⟨faultless, faultless'⟩, ?_⟩
      rw [noted', noted, untilFault_append faultless, noteAll, noteAll, noteAll, foldl_append]
    · rintro u ⟨faulty, noted'⟩
      refine ⟨fun both => faulty (faultless_append.mp both).2, ?_⟩
      rw [noted', noted, untilFault_append faultless, noteAll, noteAll, noteAll, foldl_append]
  · rintro t ⟨faulty, noted⟩
    refine ⟨fun both => faulty (faultless_append.mp both).1, ?_⟩
    rw [noted, untilFault_append_of_not faulty]

theorem notes_nil {α : Type} (a : α) (same : store.SameData s.1) : Notes (pure a) store [] s :=
  ⟨same, forall_mem_nil _, rfl⟩

/-- Indices are noted up to the first without an element. -/
theorem notes_forIn_refine (indices : List Nat) (same : store.SameData s.1) :
    Notes (forIn indices PUnit.unit fun (index : Nat) _ => do
        let (store, abstraction) ← (get : Step (Store × Abstraction) (Store × Abstraction))
        let refined ← Step.ofExcept (abstraction.refine store index part)
        set (store, refined)
        pure (ForInStep.yield PUnit.unit)) store
      (indices.map fun index => (part.decode store index).map (Sigma.mk part)) s := by
  induction indices generalizing s with
  | nil => exact notes_nil _ same
  | cons index rest ih =>
    obtain ⟨current, abstraction⟩ := s
    have refining := refine_eq abstraction current index part
    rw [Refined.decode_congr same] at refining
    rw [forIn_cons, map_cons]
    refine Ends.bind (Ends.bind (Ends.get (Ends.bind ?_)))
    rw [refining]
    cases part.decode store index with
    | error fault =>
      exact ⟨not_faultless_error, rfl⟩
    | ok elem =>
      refine (@ih (current, note part abstraction elem) same).mono ?_ ?_
      · rintro _ t ⟨same, faultless, noted⟩
        exact ⟨same, forall_mem_cons.mpr ⟨⟨_, rfl⟩, faultless⟩, noted⟩
      · rintro t ⟨faulty, noted⟩
        exact ⟨fun faultless => faulty (forall_mem_cons.mp faultless).2, noted⟩

/-- A relation is noted up to the first entry that fails. -/
theorem notes_applyRelation (part : Refined) (same : store.SameData s.1) :
    Notes (applyRelation part) store (entries store part) s := by
  obtain ⟨current, abstraction⟩ := s
  refine Ends.bind (Ends.get ?_)
  show Notes (ite _ _ _) store _ (current, abstraction)
  unfold entries
  rw [← same.isSaved]
  cases saved : current.isSaved part.relation with
  | false =>
    rw [Bool.and_false, if_neg Bool.false_ne_true, if_neg Bool.false_ne_true]
    exact notes_nil _ same
  | true =>
    rw [Store.hasRelation_of_isSaved saved, Bool.and_self, if_pos rfl, if_pos rfl, ← same.loaded]
    refine Ends.bind (Ends.onPart ((Store.firstColumn_ends current part.relation).mono ?_ ?_))
    · rintro indices closed ⟨unchanged, listed⟩
      rw [listed]
      exact Ends.bind ((notes_forIn_refine indices (same.trans unchanged)).mono
        (fun _ _ noted => noted) fun _ noted => noted)
    · rintro _ ⟨fault, unread⟩
      rw [unread]
      exact ⟨not_faultless_error, rfl⟩

theorem notes_applyRefinements (same : store.SameData s.1) :
    Notes applyRefinements store (Refined.all.flatMap (entries store)) s := by
  have each (parts : List Refined) {s : Store × Abstraction} (same : store.SameData s.1) :
      Notes (parts.forM applyRelation) store (parts.flatMap (entries store)) s := by
    induction parts generalizing s with
    | nil => exact notes_nil _ same
    | cons part rest ih =>
      exact (notes_applyRelation part same).bind fun _ _ same => ih same
  exact each Refined.all same

/-! ### What remarks change -/

/-- How often a site has been named, as the tables of an abstraction count it. -/
def raise (raises : Table InstId Nat) (site : InstId) : Nat := (raises.get? site).getD 0

theorem raise_update (raises : Table InstId Nat) (element site : InstId) :
    raise (raises.update element 0 (· + 1)) site =
      raise raises site + if element = site then 1 else 0 := by
  rw [raise, Table.update, Table.get?_insert]
  by_cases same : element = site
  · subst same
    simp [raise]
  · simp [raise, same]

theorem noteAll_cons (abstraction : Abstraction) (remark : Remark) (rest : List Remark) :
    abstraction.noteAll (remark :: rest) = (note remark.1 abstraction remark.2).noteAll rest := rfl

theorem raise_noteAll (abstraction : Abstraction) (remarks : List Remark) (site : InstId) :
    raise (abstraction.noteAll remarks).objectRaises site =
        raise abstraction.objectRaises site + remarks.count ⟨.allocations, site⟩ ∧
      raise (abstraction.noteAll remarks).callRaises site =
        raise abstraction.callRaises site + remarks.count ⟨.invokes, site⟩ := by
  induction remarks generalizing abstraction with
  | nil => exact ⟨rfl, rfl⟩
  | cons remark rest ih =>
    obtain ⟨part, elem⟩ := remark
    obtain ⟨objects, calls⟩ := ih (note part abstraction elem)
    rw [noteAll_cons, objects, calls, count_cons, count_cons]
    cases part with
    | allocations | invokes => simp [note, raise_update, Nat.add_assoc, Nat.add_comm (count _ _)]
    | methods | vars => simp [note]

theorem mem_noteAll (abstraction : Abstraction) (remarks : List Remark) (handle : Nat) :
    (handle ∈ (abstraction.noteAll remarks).promoted ↔
        handle ∈ abstraction.promoted ∨ ⟨.methods, handle⟩ ∈ remarks) ∧
      (handle ∈ (abstraction.noteAll remarks).refined ↔
        handle ∈ abstraction.refined ∨ ⟨.vars, handle⟩ ∈ remarks) := by
  induction remarks generalizing abstraction with
  | nil => simp [noteAll]
  | cons remark rest ih =>
    obtain ⟨part, elem⟩ := remark
    obtain ⟨methods, vars⟩ := ih (note part abstraction elem)
    rw [noteAll_cons, methods, vars]
    cases part with
    | allocations | invokes => simp [note]
    | methods | vars => simpa [note, or_assoc] using or_left_comm

theorem runs_noteAll (abstraction : Abstraction) (remarks : List Remark) :
    (abstraction.noteAll remarks).runs = abstraction.runs := by
  induction remarks generalizing abstraction with
  | nil => rfl
  | cons remark rest ih =>
    obtain ⟨part, elem⟩ := remark
    rw [noteAll, foldl_cons, ← noteAll, ih]
    cases part <;> rfl

/-! ### Runs -/

variable {options : Options} {program : Program}

/-- Options that no run accepts. -/
abbrev Refused (options : Options) : Prop :=
  options.instanceKind = .copy ∨ options.staticKind = .object

/-- What contexts are computed with: a first run starts without refinements, and a later one has
noted everything that the store names. -/
inductive Prepared (store : Store) (abstraction : Abstraction) : Store → Abstraction → Prop where
  | first : abstraction.runs = 0 → Prepared store abstraction store {}
  | later {started : Store} : abstraction.runs ≠ 0 → store.SameData started →
    Faultless (Refined.all.flatMap (entries store)) →
    Prepared store abstraction started (abstraction.noteAll (reached store))

/-- Computing contexts and counting the run change the abstraction only at the very end. -/
theorem ends_computing (s : Store × Abstraction) : (do
      onStore (compute (← get).2 options program)
      modify fun (store, abstraction) =>
        (store, { abstraction with runs := abstraction.runs + 1 }) :
          Step (Store × Abstraction) Unit).Ends s
      (fun _ t => compute s.2 options program s.1 = .ok () t.1 ∧
        t.2 = { s.2 with runs := s.2.runs + 1 })
      fun t => t.2 = s.2 := by
  refine Ends.bind (Ends.get (Ends.bind (Ends.onPart ?_)))
  unfold Ends
  cases compute s.2 options program s.1 with
  | ok _ after => exact ⟨rfl, rfl⟩
  | error fault after => rfl

/-- What a run does. Refused options change nothing, a first run starts afresh, and a later one
notes what the store names up to the first entry that fails. If none does, contexts are computed. -/
theorem ends_run (store : Store) (abstraction : Abstraction) :
    (run options program).Ends (store, abstraction)
      (fun _ t => ¬ Refused options ∧ ∃ started current,
        Prepared store abstraction started current ∧
          compute current options program started = .ok () t.1 ∧
          t.2 = { current with runs := current.runs + 1 })
      fun t => t.2 = if Refused options then abstraction
        else if abstraction.runs = 0 then {} else abstraction.noteAll (reached store) := by
  unfold run
  by_cases copy : options.instanceKind = .copy
  · rw [if_pos copy]
    exact (if_pos (.inl copy)).symm
  rw [if_neg copy]
  dsimp only
  by_cases object : options.staticKind = .object
  · rw [if_pos object]
    exact (if_pos (.inr object)).symm
  have accepted : ¬ Refused options := not_or_intro copy object
  rw [if_neg object, if_neg accepted]
  refine Ends.bind (Ends.get ?_)
  split
  · next first =>
    exact Ends.bind (Ends.modify ((ends_computing _).mono
      (fun _ _ computed => ⟨accepted, store, {}, .first first, computed⟩) fun _ => id))
  · next later =>
    refine Ends.bind ((notes_applyRefinements (.refl store)).mono ?_ fun _ => And.right)
    rintro _ ⟨started, current⟩ ⟨same, faultless, rfl⟩
    exact (ends_computing _).mono
      (fun _ _ computed => ⟨accepted, started, _, .later later same faultless, computed⟩)
      fun _ => id

theorem prepared_of_run
    (running : run options program (before, abstraction) = .ok () (after, refined)) :
    ¬ Refused options ∧ ∃ started current, Prepared before abstraction started current ∧
      compute current options program started = .ok () after ∧
      refined = { current with runs := current.runs + 1 } :=
  (ends_run before abstraction).of_ok running

/-- A run that succeeds has noted everything that the store names, unless it is the first. -/
theorem noteAll_of_run (later : abstraction.runs ≠ 0)
    (running : run options program (store, abstraction) = .ok () (after, left)) :
    Faultless (Refined.all.flatMap (entries store)) ∧
      left = { abstraction.noteAll (reached store) with runs := abstraction.runs + 1 } := by
  obtain ⟨_, _, _, prepared, _, rfl⟩ := prepared_of_run running
  cases prepared with
  | first first => exact absurd first later
  | later _ _ faultless =>
    rw [runs_noteAll]
    exact ⟨faultless, rfl⟩

/-! ### Reflecting steps -/

/-- What an abstraction knows of one sort of elements is what some steps named, each step having
left a store. -/
def ReflectsPart (abstraction : Abstraction) (steps : List Store) : Refined → Prop
  | .allocations => ∀ site, raise abstraction.objectRaises site =
    steps.countP (site ∈ allocations.named ·)
  | .invokes => ∀ site, raise abstraction.callRaises site =
    steps.countP (site ∈ invokes.named ·)
  | .methods => ∀ method, method ∈ abstraction.promoted ↔
    ∃ step ∈ steps, method ∈ Refined.methods.named step
  | .vars => ∀ var, var ∈ abstraction.refined ↔ ∃ step ∈ steps, var ∈ vars.named step

/-- An abstraction knows exactly what some steps named. -/
def Reflects (abstraction : Abstraction) (steps : List Store) : Prop :=
  ∀ part, abstraction.ReflectsPart steps part

theorem reflects_nil : Reflects {} [] := by
  intro part
  cases part with
  | allocations | invokes => exact fun _ => rfl
  | methods | vars => exact fun _ => ⟨nofun, nofun⟩

variable {steps : List Store}

theorem reflects_first_run (first : abstraction.runs = 0)
    (running : run options program (store, abstraction) = .ok () (after, refined)) :
    refined.runs ≠ 0 ∧ refined.Reflects [] := by
  obtain ⟨_, _, _, prepared, _, rfl⟩ := prepared_of_run running
  cases prepared with
  | first => exact ⟨Nat.succ_ne_zero _, reflects_nil⟩
  | later later => exact absurd first later

/-- A step that is taken into account is one more that is reflected. -/
theorem Reflects.run (reflects : abstraction.Reflects steps) (later : abstraction.runs ≠ 0)
    (numbered : store.Numbered)
    (running : run options program (store, abstraction) = .ok () (after, refined)) :
    refined.runs ≠ 0 ∧ refined.Reflects (steps ++ [store]) := by
  obtain ⟨faultless, rfl⟩ := noteAll_of_run later running
  refine ⟨Nat.succ_ne_zero _, fun part => ?_⟩
  have now := reflects part
  have named (remark : Remark) : remark ∈ reached store ↔ remark.2 ∈ remark.1.named store :=
    mem_reached faultless
  have raised := raise_noteAll abstraction (reached store)
  have noted := mem_noteAll abstraction (reached store)
  simp only [(nodup_reached numbered).count, named] at raised
  cases part with
  | allocations => exact fun site => by simp [(raised site).1, now site]
  | invokes => exact fun site => by simp [(raised site).2, now site]
  | methods => exact fun method => by simp [(noted method).1, now method, named]
  | vars => exact fun var => by simp [(noted var).2, now var, named]

theorem Reflects.concat_of_empty (reflects : abstraction.Reflects steps)
    (empty : ∀ part : Refined, store.tuplesOf part.relation = []) :
    abstraction.Reflects (steps ++ [store]) := by
  intro part
  have none := named_of_empty (empty part)
  have now := reflects part
  cases part <;> simpa [ReflectsPart, none] using now

theorem Reflects.congr_last (same : before.SameData after)
    (reflects : abstraction.Reflects (steps ++ [before])) :
    abstraction.Reflects (steps ++ [after]) := by
  intro part
  have named := named_congr same part
  have reflectsPart := reflects part
  cases part <;> simpa [ReflectsPart, named] using reflectsPart

theorem Reflects.depths (reflects : abstraction.Reflects steps) (site : InstId) :
    abstraction.objectDepth options site = (options.objectDepth +
        steps.countP (site ∈ allocations.named ·)) % Numeral.sizeLimit ∧
      abstraction.callDepth options site = (options.callDepth +
        steps.countP (site ∈ invokes.named ·)) % Numeral.sizeLimit := by
  rw [← reflects .allocations site, ← reflects .invokes site]
  exact ⟨rfl, rfl⟩

/-- The variables that refinement has made sensitive come on top of those that are sensitive from
the start. -/
theorem mem_sensitiveVariables : var ∈ sensitiveVariables abstraction program plans ↔
      var ∈ abstraction.refined ∨ var ∈ sensitiveVariables {} program plans := by
  rw [sensitiveVariables, List.mem_append]
  rfl

end Abstraction

end ProgramAnalysis
