import ProgramAnalysis.Proofs.Context.Publication
import ProgramAnalysis.Proofs.Session.Bodies
import ProgramAnalysis.Proofs.Store.History

/-!
Domains number every element once, throughout a session. Domains enter the store when facts or
contexts are published, which number without repetition, when a file is read, and from bodies that
are proper (`Body.Proper`).
-/

namespace ProgramAnalysis

open Step (Keeps keeps_pure keeps_throw keeps_get keeps_modify keeps_ofExcept keeps_forM keeps_forIn
  keeps_true)

/-! ### Steps on the store -/

namespace Store

variable {α : Type}

theorem numbered_onDisk (step : Step Disk α) : Keeps Numbered (onDisk step) :=
  (keeps_true step).onPart (fun _ _ => trivial) fun _ _ numbered _ => numbered

theorem numbered_saveDomain (name : String) : Keeps Numbered (saveDomain name) :=
  (keeps_query _).bind fun _ => keeps_get.bind fun _ => numbered_onDisk _

theorem numbered_saveDomainReport (name dir : String) (program : Program) :
    Keeps Numbered (saveDomainReport name dir program) :=
  (keeps_query _).bind fun _ => numbered_onDisk _

theorem steady_numbered : Steady Numbered := ⟨fun _ _ => id, fun step _ => numbered_onDisk step⟩

end Store

open Store

/-! ### Publishing -/

theorem FactDomain.numbered_publish (domain : FactDomain) (options : Options) (program : Program) :
    Keeps Numbered (domain.publish options program) := by
  have put : Keeps Numbered (modify (·.putDomain (domain.ofProgram program))) :=
    keeps_modify fun _ numbered => numbered.putDomain Domain.nodup_ofList
  refine put.bind fun _ => (numbered_saveDomain _).bind fun _ => ?_
  split
  · exact numbered_saveDomainReport _ _ _
  · exact keeps_pure _

theorem FactRelation.numbered_publish (relation : FactRelation) (remap : Remap)
    (program : Program) : Keeps Numbered (relation.publish remap program) :=
  (keeps_query _).bind fun _ => steady_numbered.fillRelation _ _

theorem EscapeSetup.numbered_run (setup : EscapeSetup) : Keeps Numbered setup.run := by
  unfold EscapeSetup.run
  split
  · exact keeps_throw _
  · exact (keeps_query _).bind fun _ => (keeps_query _).bind fun _ =>
      (keeps_query _).bind fun _ => (keeps_ofExcept _).bind fun _ =>
        (steady_numbered.fillRelation _ _).bind fun _ => steady_numbered.fillRelation _ _

namespace Abstraction

variable {abstraction refined : Abstraction} {options : Options} {program : Program}
  {before after : Store}

theorem nodup_number (steps : List (ContextSite × Context)) {contexts : Domain .context}
    (distinct : contexts.elements.Nodup) : (number steps contexts).1.elements.Nodup := by
  induction steps generalizing contexts with
  | nil => exact distinct
  | cons step rest ih =>
    exact ih (Domain.nodup_add (Domain.nodup_add distinct))

variable {computed : Result}

theorem nodup_contexts (succeeds : result abstraction options program input = .ok computed) :
    computed.contexts.elements.Nodup := by
  obtain ⟨plans, invokes, allocations, _, _, _, same, _⟩ := result_eq_ok succeeds
  rw [same]
  exact nodup_number _ (nodup_number _ Domain.nodup_ofList)

theorem Result.numbered_publish (distinct : computed.contexts.elements.Nodup) :
    Keeps Numbered computed.publish := by
  have put : Keeps Numbered (modify (·.putDomain computed.contexts)) :=
    keeps_modify fun _ numbered => numbered.putDomain distinct
  refine put.bind fun _ => (numbered_saveDomain _).bind fun _ => ?_
  have filled := @keeps_forIn _ Numbered _ computed.relations
    (fun entry _ => do fillRelation entry.1 entry.2; pure (ForInStep.yield PUnit.unit))
    fun entry _ => (steady_numbered.fillRelation entry.1 entry.2).bind fun _ => keeps_pure _
  exact filled.bind fun _ => keeps_pure _

theorem numbered_run (numbered : before.Numbered)
    (running : run options program (before, abstraction) = .ok () (after, refined)) :
    after.Numbered := by
  obtain ⟨input, computed, _, succeeds, ⟨between, same, publishing⟩, _⟩ := run_eq_ok running
  exact (Result.numbered_publish (nodup_contexts succeeds) _ (same.numbered numbered)).of_ok
    publishing

end Abstraction

/-! ### Bodies -/

/-- An action after which domains still number every element once. -/
def Action.Proper : Action → Prop
  | .putDomain any => any.domain.elements.Nodup
  | .work step => Keeps Numbered step
  | .tolerate action => action.Proper
  | .fail _ _ | .run _ | .reset _ | .fill _ _ | .fillByRun _ _ => True

/-- A body that publishes only domains that number every element once. -/
def Body.Proper : Body → Prop
  | .script actions _ => ∀ action ∈ actions, action.Proper
  | .domain _ | .relation _ _ | .contexts _ | .refinement _ | .datalog _ _ | .escape _ => True

namespace Session

/-- The domains of a session number every element once. -/
def Numbered (session : Session) : Prop := session.store.Numbered

variable {α : Type}

theorem numbered_onStore (keeps : Keeps Store.Numbered step) : Keeps Numbered (onStore step) :=
  keeps.onPart (fun _ => id) fun _ _ _ => id

theorem numbered_solve (file : String) : Keeps Numbered (solve file) := by
  refine keeps_get.bind fun session => ?_
  split
  · exact numbered_onStore (numbered_onDisk _)
  · exact Keeps.bind (keeps_modify fun _ => id) fun _ =>
      Keeps.bind (keeps_modify fun _ => id) fun _ => numbered_onStore (numbered_onDisk _)

variable {run : Runner}

theorem numbered_act {action : Action} (quiet : action.callsBack = false) (proper : action.Proper) :
    Keeps Numbered (act run runs action) := by
  induction action with
  | fail reason failing =>
    unfold act
    split
    · exact keeps_throw _
    · exact keeps_pure _
  | run | reset => cases quiet
  | putDomain any =>
    exact keeps_modify fun session numbered => Store.Numbered.putDomain numbered proper
  | fill | fillByRun => exact numbered_onStore (steady_numbered.fillRelation _ _)
  | work => exact numbered_onStore proper
  | tolerate action ih =>
    exact fun session numbered => always_tolerate (ih quiet proper session numbered)

variable {session : Session} {end_ : Body × Session}

/-- What happens when contexts are computed on the store of a session. -/
theorem perform_contexts (performed : perform run (.contexts abstraction, session) = .ok () end_) :
    ∃ refined store, end_ = (.contexts refined, { session with store }) ∧
      Abstraction.run session.options session.program (session.store, abstraction) =
        .ok () (store, refined) := by
  rw [perform, Step.get_bind] at performed
  obtain ⟨_, running, rfl⟩ := Step.onPart_eq_ok.mp performed
  rw [runContexts, Step.get_bind] at running
  obtain ⟨⟨store, refined⟩, refining, rfl⟩ := Step.onPart_eq_ok.mp running
  exact ⟨refined, store, rfl, refining⟩

theorem numbered_perform {body : Body} (quiet : body.callsBack = false) (proper : body.Proper)
    (numbered : session.Numbered) (performed : perform run (body, session) = .ok () end_) :
    end_.1.Proper ∧ end_.2.Numbered := by
  have onSession (step : Step Session Unit) (keeps : Keeps Numbered step) (body : Body)
      (proper : body.Proper)
      (stepping : Step.onPart Prod.snd (fun (s : Body × Session) session => (s.1, session)) step
        (body, session) = .ok () end_) : end_.1.Proper ∧ end_.2.Numbered := by
    obtain ⟨after, stepped, rfl⟩ := Step.onPart_eq_ok.mp stepping
    exact ⟨proper, (keeps session numbered).of_ok stepped⟩
  obtain ⟨_, _, got, rest⟩ := Step.bind_eq_ok.mp performed
  cases got
  cases body with
  | script actions runs =>
    obtain ⟨_, _, counted, acting⟩ := Step.bind_eq_ok.mp rest
    cases counted
    refine onSession _ (keeps_forM fun action mem => ?_) (.script actions (runs + 1)) proper acting
    have silent : action.callsBack = false := Bool.eq_false_iff.mpr fun calls =>
      Bool.eq_false_iff.mp quiet (List.any_eq_true.mpr ⟨action, mem, calls⟩)
    exact numbered_act silent (proper action mem)
  | domain domain =>
    exact onSession _ (numbered_onStore (domain.numbered_publish _ _)) (.domain domain) trivial rest
  | relation relation remap =>
    exact onSession _ (numbered_onStore (relation.numbered_publish _ _)) (.relation relation remap)
      trivial rest
  | contexts abstraction =>
    obtain ⟨refined, store, rfl, running⟩ := perform_contexts performed
    exact ⟨trivial, Abstraction.numbered_run numbered running⟩
  | refinement loop => cases quiet
  | datalog file outputs =>
    refine onSession _ (Keeps.bind (keeps_forM fun _ _ => ?_) fun _ => numbered_solve file)
      (.datalog file outputs) trivial rest
    exact numbered_onStore (steady_numbered.closeRelation _)
  | escape setup =>
    exact onSession _ (numbered_onStore setup.numbered_run) (.escape setup) trivial rest

end Session

end ProgramAnalysis
