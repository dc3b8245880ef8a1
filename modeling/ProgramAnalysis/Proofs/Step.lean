import ProgramAnalysis.Fault

/-!
Reasoning about steps. There are three kinds of statements, each with its lemmas for sequences,
loops and parts of a state: what success says about the parts of a step (`bind_eq_ok` and others
like it), what holds at either end of a step (`Ends`), and properties that steps keep (`Keeps`). A
step that was evaluated in full is brought in by what it leaves (`outcome`).
-/

namespace ProgramAnalysis

open List

/-! ### Computations without a state -/

theorem except_bind_eq_ok {ε α β : Type} {result : Except ε α} {f : α → Except ε β} {b : β} :
    result >>= f = .ok b ↔ ∃ a, result = .ok a ∧ f a = .ok b := by
  cases result with
  | error fault =>
    constructor
    · intro impossible
      cases impossible
    · rintro ⟨_, impossible, _⟩
      cases impossible
  | ok a =>
    constructor
    · intro continued
      exact ⟨a, rfl, continued⟩
    · rintro ⟨_, same, continued⟩
      cases same
      exact continued

theorem mapError_eq_ok {ε ε' α : Type} {result : Except ε α} {f : ε → ε'} {a : α} :
    result.mapError f = .ok a ↔ result = .ok a := by
  cases result with
  | error fault =>
    show Except.error (f fault) = .ok a ↔ _
    simp
  | ok value =>
    show Except.ok value = .ok a ↔ _
    simp

section Lists

variable {ε α β : Type} {items : List α} {a : α} {b : β}

variable {f : α → Except ε β} {results : List β}

/-- A list of computations that all succeed gives the results in order. -/
theorem mapM_eq_ok_iff : items.mapM f = .ok results ↔ items.map f = results.map .ok := by
  induction items generalizing results with
  | nil =>
    show Except.ok [] = .ok results ↔ _
    simp [eq_comm]
  | cons first rest ih =>
    simp only [mapM_cons, except_bind_eq_ok, ih, map_cons]
    constructor
    · rintro ⟨result, atFirst, others, atRest, same⟩
      cases same
      rw [atFirst, atRest, map_cons]
    · intro same
      obtain ⟨result, others, rfl, atFirst, atRest⟩ := map_eq_cons_iff.mp same.symm
      exact ⟨result, atFirst.symm, others, atRest.symm, rfl⟩

theorem mapM_eq_ok (succeeds : items.mapM f = .ok results) : results.length = items.length ∧
      ∀ (i : Nat) (b : β), results[i]? = some b → ∃ a, items[i]? = some a ∧ f a = .ok b := by
  have same := mapM_eq_ok_iff.mp succeeds
  refine ⟨by simpa using (congrArg length same).symm, fun i b found => ?_⟩
  have there : (items.map f)[i]? = some (.ok b) := by rw [same, getElem?_map, found]; rfl
  rwa [getElem?_map, Option.map_eq_some_iff] at there

theorem mem_of_mapM (succeeds : items.mapM f = .ok results) :
    b ∈ results ↔ ∃ a ∈ items, f a = .ok b := by
  rw [← mem_map, mapM_eq_ok_iff.mp succeeds]
  simp

theorem ok_of_mapM (succeeds : items.mapM f = .ok results) (mem : a ∈ items) :
    ∃ b, f a = .ok b := by
  have there : f a ∈ results.map .ok := mapM_eq_ok_iff.mp succeeds ▸ mem_map_of_mem mem
  obtain ⟨b, _, same⟩ := mem_map.mp there
  exact ⟨b, same.symm⟩

theorem exists_mapM (each : ∀ a ∈ items, ∃ b, f a = .ok b) :
    ∃ results, items.mapM f = .ok results := by
  induction items with
  | nil => exact ⟨[], rfl⟩
  | cons first rest ih =>
    obtain ⟨⟨result, atFirst⟩, each⟩ := forall_mem_cons.mp each
    obtain ⟨results, atRest⟩ := ih each
    rw [mapM_cons, atFirst, atRest]
    exact ⟨result :: results, rfl⟩

/-- A list whose items are each found again from what they are turned into is found again. -/
theorem mapM_map_eq_ok {f : β → Except ε α} (inverse : ∀ a ∈ items, f (g a) = .ok a) :
    (items.map g).mapM f = .ok items := by
  rw [mapM_eq_ok_iff, map_map]
  exact map_congr_left inverse

section Filter

variable {f : α → Except ε (Option β)}

theorem filterMapM_eq (f : α → Except ε (Option β)) (items : List α) :
    items.filterMapM f = (items.mapM f).map (filterMap id) := by
  induction items with
  | nil => rfl
  | cons first rest ih =>
    rw [filterMapM_cons, mapM_cons, ih]
    cases f first with
    | error fault => rfl
    | ok result => cases result <;> cases rest.mapM f <;> rfl

/-- A filter that may fail is a list of computations of which some give nothing. -/
theorem filterMapM_eq_ok : items.filterMapM f = .ok results ↔
    ∃ found, items.mapM f = .ok found ∧ found.filterMap id = results := by
  rw [filterMapM_eq]
  cases items.mapM f <;> simp [Except.map]

theorem exists_filterMapM (each : ∀ a ∈ items, ∃ b, f a = .ok b) :
    ∃ results, items.filterMapM f = .ok results := by
  obtain ⟨found, mapped⟩ := exists_mapM each
  exact ⟨_, filterMapM_eq_ok.mpr ⟨found, mapped, rfl⟩⟩

/-- What a filter that may fail keeps, if it does not fail. -/
theorem mem_of_filterMapM (succeeds : items.filterMapM f = .ok results) :
    b ∈ results ↔ ∃ a ∈ items, f a = .ok (some b) := by
  obtain ⟨found, mapped, rfl⟩ := filterMapM_eq_ok.mp succeeds
  simp [← mem_of_mapM mapped]

/-- What it keeps, where it is known what it answers for an item. -/
theorem mem_filterMapM_iff {gives : α → Prop} (succeeds : items.filterMapM f = .ok results)
    (answers : ∀ {a answer}, f a = .ok answer → (answer = some b ↔ gives a)) :
    b ∈ results ↔ ∃ a ∈ items, gives a := by
  rw [mem_of_filterMapM succeeds]
  refine exists_congr fun a => and_congr_right fun mem => ?_
  obtain ⟨_, mapped, _⟩ := filterMapM_eq_ok.mp succeeds
  obtain ⟨answer, made⟩ := ok_of_mapM mapped mem
  rw [made, Except.ok.injEq]
  exact answers made

end Filter

/-- Items that are all understood are taken up one after the other as what they stand for. -/
theorem foldlM_eq_ok {γ : Type} {f : γ → α → Except ε γ} {g : γ → β → γ} {meaning : α → Option β}
    (each : ∀ a ∈ items, ∃ b, meaning a = some b ∧ ∀ c, f c a = .ok (g c b)) (start : γ) :
    items.foldlM f start = .ok ((items.filterMap meaning).foldl g start) := by
  induction items generalizing start with
  | nil => rfl
  | cons first rest ih =>
    obtain ⟨b, understood, taken⟩ := each first mem_cons_self
    rw [foldlM_cons, taken, filterMap_cons_some understood, foldl_cons]
    exact ih (fun other mem => each other (mem_cons_of_mem first mem)) _

theorem nodup_eraseDups [DecidableEq α] (items : List α) : items.eraseDups.Nodup := by
  match items with
  | [] => exact .nil
  | first :: rest =>
    rw [eraseDups_cons, nodup_cons]
    exact ⟨by simp, nodup_eraseDups _⟩
termination_by items.length
decreasing_by exact Nat.lt_succ_of_le (length_filter_le _ _)

end Lists

namespace Step

variable {σ τ α β : Type} {a : α} {b : β}

/-! ### Success -/

theorem get_bind (f : σ → Step σ α) (s : σ) : (get >>= f) s = f s s := rfl

variable {step : Step σ α} {t : σ}

theorem bind_congr (same : step s = step t) : (step >>= f) s = (step >>= f) t := by
  show EStateM.bind step f s = EStateM.bind step f t
  rw [EStateM.bind, EStateM.bind, same]

theorem bind_of_ok (outcome : step s = .ok a t) : (step >>= f) s = f a t := by
  show EStateM.bind step f s = f a t
  rw [EStateM.bind, outcome]

variable {fault : Fault}

theorem bind_of_error (outcome : step s = .error fault t) : (step >>= f) s = .error fault t := by
  show EStateM.bind step f s = .error fault t
  rw [EStateM.bind, outcome]

theorem bind_eq_ok :
    (step >>= f) s = .ok b t ↔ ∃ a between, step s = .ok a between ∧ f a between = .ok b t := by
  cases outcome : step s with
  | error fault u => simp [bind_of_error outcome]
  | ok a u =>
    rw [bind_of_ok outcome]
    constructor
    · intro continued
      exact ⟨a, u, rfl, continued⟩
    · rintro ⟨_, _, same, continued⟩
      cases same
      exact continued

theorem ofExcept_eq_ok : (ofExcept result : Step σ α) s = .ok a t ↔ result = .ok a ∧ s = t := by
  cases result with
  | error fault =>
    show EStateM.Result.error fault s = .ok a t ↔ _
    simp
  | ok value =>
    show EStateM.Result.ok value s = .ok a t ↔ _
    simp

theorem ofExcept_bind_eq_ok : (ofExcept result >>= f : Step σ β) s = .ok b t ↔
    ∃ a, result = .ok a ∧ f a s = .ok b t := by
  simp [bind_eq_ok, ofExcept_eq_ok, and_assoc]

variable {part : σ → τ} {replace : σ → τ → σ}

theorem onPart_eq_ok {step : Step τ α} : onPart part replace step s = .ok a s' ↔
      ∃ t, step (part s) = .ok a t ∧ s' = replace s t := by
  unfold onPart
  cases step (part s) with
  | error fault t => simp
  | ok value t =>
    simp only [EStateM.Result.ok.injEq]
    constructor
    · rintro ⟨rfl, rfl⟩
      exact ⟨t, ⟨rfl, rfl⟩, rfl⟩
    · rintro ⟨_, ⟨rfl, rfl⟩, rfl⟩
      exact ⟨rfl, rfl⟩

variable {ι : Type} {keeps : σ → Prop}

/-! ### Both ends -/

/-- Started in `s`, the step succeeds such that `done` holds or fails such that `failed` holds. -/
def Ends (step : Step σ α) (s : σ) (done : α → σ → Prop) (failed : σ → Prop) : Prop :=
  match step s with
  | .ok a t => done a t
  | .error _ t => failed t

/-- Started in `s`, the step leaves a state of which `holds` holds, whether it succeeds or not. -/
abbrev Always (step : Step σ α) (s : σ) (holds : σ → Prop) : Prop :=
  step.Ends s (fun _ => holds) holds

/-- The state a step leaves, whether it succeeds or not. -/
def final (step : Step σ α) (s : σ) : σ :=
  match step s with
  | .ok _ t | .error _ t => t

theorem final_of_ok (succeeds : step s = .ok a t) : step.final s = t := by
  rw [final, succeeds]

theorem final_of_error (fails : step s = .error fault t) : step.final s = t := by
  rw [final, fails]

/-- What a step gives back and leaves if it succeeds. -/
def outcome (step : Step σ α) (s : σ) : Except Fault (α × σ) :=
  match step s with
  | .ok a t => .ok (a, t)
  | .error fault _ => .error fault

/-- A step that was evaluated, as far as `view` shows it, ends that way. -/
theorem exists_of_outcome {s : σ} {view : α × σ → β} {b : β}
    (evaluated : (step.outcome s).map view = .ok b) :
    ∃ a t, step s = .ok a t ∧ view (a, t) = b := by
  unfold outcome at evaluated
  cases ending : step s with
  | ok a t =>
    rw [ending] at evaluated
    exact ⟨a, t, rfl, Except.ok.inj evaluated⟩
  | error fault t =>
    rw [ending] at evaluated
    cases evaluated

theorem error_of_outcome {s : σ} {view : α × σ → β}
    (evaluated : (step.outcome s).map view = .error fault) :
    step s = .error fault (step.final s) := by
  unfold outcome at evaluated
  cases ending : step s with
  | ok a t =>
    rw [ending] at evaluated
    cases evaluated
  | error other t =>
    rw [ending] at evaluated
    cases evaluated
    rw [final_of_error ending]

variable {done : α → σ → Prop} {failed : σ → Prop} {s : σ}

theorem Ends.of_ok (ends : step.Ends s done failed) (succeeds : step s = .ok a t) : done a t := by
  unfold Ends at ends
  rwa [succeeds] at ends

theorem Ends.of_error (ends : step.Ends s done failed) (fails : step s = .error fault t) :
    failed t := by
  unfold Ends at ends
  rwa [fails] at ends

theorem Always.final (always : step.Always s holds) : holds (step.final s) := by
  cases outcome : step s with
  | ok a t =>
    rw [final_of_ok outcome]
    exact Ends.of_ok always outcome
  | error fault t =>
    rw [final_of_error outcome]
    exact Ends.of_error always outcome

variable {done' : α → σ → Prop} {failed' : σ → Prop}

theorem Ends.mono (ends : step.Ends s done failed) (onDone : ∀ a t, done a t → done' a t)
    (onFailed : ∀ t, failed t → failed' t) : step.Ends s done' failed' := by
  unfold Ends at *
  split
  · next a t succeeds =>
    rw [succeeds] at ends
    exact onDone a t ends
  · next fault t fails =>
    rw [fails] at ends
    exact onFailed t ends

theorem Ends.and (ends : step.Ends s done failed) (ends' : step.Ends s done' failed') :
    step.Ends s (fun a t => done a t ∧ done' a t) fun t => failed t ∧ failed' t := by
  unfold Ends at *
  cases outcome : step s with
  | ok | error =>
    rw [outcome] at ends ends'
    exact ⟨ends, ends'⟩

/-- Where only success matters, nothing is asked of a failure. -/
theorem Ends.of_forall_ok {step : Step σ α} (succeeds : ∀ a t, step s = .ok a t → done a t) :
    step.Ends s done fun _ => True := by
  unfold Ends
  split
  · next a t outcome => exact succeeds a t outcome
  · trivial

theorem Ends.pure (holds : done a s) : (Pure.pure a : Step σ α).Ends s done failed := holds

theorem Ends.get {done : σ → σ → Prop} (holds : done s s) :
    (MonadState.get : Step σ σ).Ends s done failed := holds

variable {change : σ → σ}

theorem Ends.modify {done : PUnit → σ → Prop} (holds : done ⟨⟩ (change s)) :
    (modifyGet fun s => (PUnit.unit, change s) : Step σ PUnit).Ends s done failed := holds

theorem Ends.throw (holds : failed s) :
    (MonadExcept.throw fault : Step σ α).Ends s done failed := holds

theorem Ends.onPart {step : Step τ α}
    (ends : step.Ends (part s) (fun a t => done a (replace s t)) fun t => failed (replace s t)) :
    (Step.onPart part replace step).Ends s done failed := by
  unfold Ends Step.onPart at *
  cases outcome : step (part s) with
  | ok | error => rwa [outcome] at ends

theorem Ends.bind {done : β → σ → Prop}
    (ends : step.Ends s (fun a t => (f a).Ends t done failed) failed) :
    (step >>= f).Ends s done failed := by
  unfold Ends at *
  cases outcome : step s with
  | ok a t =>
    rw [outcome] at ends
    rw [bind_of_ok outcome]
    exact ends
  | error fault t =>
    rw [outcome] at ends
    rw [bind_of_error outcome]
    exact ends

/-- A step that is the same whatever it is given: what one repetition keeps, all of them keep. -/
theorem Ends.forM {items : List ι} {f : ι → Step σ PUnit}
    (each : ∀ item ∈ items, ∀ t, keeps t → (f item).Ends t (fun _ => keeps) failed)
    (holds : keeps s) : (items.forM f).Ends s (fun _ => keeps) failed := by
  induction items generalizing s with
  | nil => exact holds
  | cons item rest ih =>
    show (f item >>= fun _ => rest.forM f).Ends s (fun _ => keeps) failed
    refine Ends.bind ((each item mem_cons_self s holds).mono (fun _ t kept => ?_) fun _ => id)
    exact ih (fun other mem => each other (mem_cons_of_mem item mem)) kept

/-- A loop over a list that never breaks off: what every round keeps holds at the end, and what a
round achieves for its item, if later rounds do not undo it. -/
theorem Ends.forIn {items : List ι} {f : ι → PUnit → Step σ (ForInStep PUnit)}
    {achieves : ι → σ → Prop}
    (each : ∀ item ∈ items, ∀ t, keeps t → (f item ⟨⟩).Ends t (fun next u =>
      next = .yield ⟨⟩ ∧ keeps u ∧ achieves item u ∧ ∀ other, achieves other t → achieves other u)
      failed)
    (holds : keeps s) :
    (ForIn.forIn items PUnit.unit f).Ends s
      (fun _ u => keeps u ∧ (∀ item ∈ items, achieves item u) ∧
        ∀ other, achieves other s → achieves other u) failed := by
  induction items generalizing s with
  | nil => exact ⟨holds, nofun, fun _ => id⟩
  | cons item rest ih =>
    rw [forIn_cons]
    refine Ends.bind ((each item mem_cons_self s holds).mono ?_ fun _ => id)
    rintro _ t ⟨rfl, kept, achieved, before⟩
    refine (ih (fun other mem => each other (mem_cons_of_mem item mem)) kept).mono ?_ fun _ => id
    rintro _ u ⟨kept, all, later⟩
    refine ⟨kept, fun other mem => ?_, fun other held => later other (before other held)⟩
    rcases mem_cons.mp mem with rfl | mem
    · exact later other achieved
    · exact all other mem

/-! ### Properties that steps keep -/

/-- A step that keeps a property, whether it succeeds or not. -/
def Keeps (holds : σ → Prop) (step : Step σ α) : Prop := ∀ s, holds s → step.Always s holds

section Keeping

variable {holds : σ → Prop}

theorem keeps_pure (a : α) : Keeps holds (pure a) := fun _ => id

theorem keeps_throw (fault : Fault) : Keeps holds (throw fault : Step σ α) := fun _ => id

theorem keeps_get : Keeps holds (MonadState.get : Step σ σ) := fun _ => id

theorem keeps_modify (kept : ∀ s, holds s → holds (change s)) : Keeps holds (modify change) := kept

theorem keeps_ofExcept (result : Except Fault α) : Keeps holds (ofExcept result) := by
  cases result with
  | ok a => exact keeps_pure a
  | error fault => exact keeps_throw fault

theorem Keeps.bind (keeps : Keeps holds step) (keeps' : ∀ a, Keeps holds (f a)) :
    Keeps holds (step >>= f) := fun s kept =>
  Ends.bind ((keeps s kept).mono (fun a t => keeps' a t) fun _ => id)

theorem keeps_forM {items : List ι} {f : ι → Step σ PUnit}
    (each : ∀ item ∈ items, Keeps holds (f item)) : Keeps holds (items.forM f) := fun _ =>
  Ends.forM fun item mem => each item mem

theorem keeps_forIn {ι : Type} {items : List ι} {f : ι → PUnit → Step σ (ForInStep PUnit)}
    (each : ∀ item ∈ items, Keeps holds (f item ⟨⟩)) :
    Keeps holds (ForIn.forIn items PUnit.unit f) := by
  induction items with
  | nil => exact keeps_pure _
  | cons item rest ih =>
    rw [forIn_cons]
    refine (each item mem_cons_self).bind fun next => ?_
    cases next with
    | done => exact keeps_pure _
    | yield => exact ih fun other mem => each other (.tail _ mem)

/-- A step on a part keeps what the part has to do with, if it keeps what is asked of the part. -/
theorem Keeps.onPart {step : Step τ α} (keeps : Keeps asked step)
    (enter : ∀ s, holds s → asked (part s))
    (leave : ∀ s t, holds s → asked t → holds (replace s t)) :
    Keeps holds (Step.onPart part replace step) := fun s kept =>
  Ends.onPart ((keeps _ (enter s kept)).mono (fun _ t => leave s t kept) fun t => leave s t kept)

theorem keeps_true (step : Step σ α) : Keeps (fun _ => True) step := fun s _ => by
  unfold Always Ends
  split <;> trivial

end Keeping

end Step

end ProgramAnalysis
