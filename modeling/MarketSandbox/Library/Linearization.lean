/-
This file develops objects that are used by concurrent clients. A client calls an
operation, the operation takes effect on the object in one step some time later,
and later still the client gets the answer. In every run the effects, in their
order, are a run of the object on its own; every answer is that of one effect, no
call has two, and a call that is answered before another one is made takes effect
before it.
-/

import Mathlib.Data.List.Nodup
import MarketSandbox.Library.Transition

namespace Linearization

open Transition

variable {Object Action Name Operation Result : Type}

/-- Where a client stands: before its call, in a call that has not taken effect, in one that has,
or after its answer. -/
inductive Phase (Operation Result : Type)
  | idle
  | called (operation : Operation)
  | performed (operation : Operation) (result : Result)
  | answered (operation : Operation) (result : Result)

/-- The object and its clients. -/
structure State (Object Name Operation Result : Type) where
  object : Object
  clients : Name → Phase Operation Result

/-- The steps. -/
inductive Label (Action Name Operation Result : Type)
  | call (name : Name) (operation : Operation)
  | perform (name : Name) (action : Action)
  | answer (name : Name) (result : Result)

/-- The effects, in their order. -/
def effects (labels : List (Label Action Name Operation Result)) : List (Name × Action) :=
  labels.filterMap fun label =>
    match label with
    | .perform name action => some (name, action)
    | _ => none

theorem effects_append (front back : List (Label Action Name Operation Result)) :
    effects (front ++ back) = effects front ++ effects back :=
  List.filterMap_append

theorem effects_call (labels : List (Label Action Name Operation Result)) (name : Name)
    (operation : Operation) : effects (labels ++ [Label.call name operation]) = effects labels := by
  rw [effects_append]
  exact List.append_nil _

theorem effects_perform (labels : List (Label Action Name Operation Result)) (name : Name)
    (action : Action) :
    effects (labels ++ [Label.perform name action]) = effects labels ++ [(name, action)] :=
  effects_append _ _

theorem effects_answer (labels : List (Label Action Name Operation Result)) (name : Name)
    (result : Result) : effects (labels ++ [Label.answer name result]) = effects labels := by
  rw [effects_append]
  exact List.append_nil _

section System

variable [DecidableEq Name] (object : System Object Action) (operationOf : Action → Operation)
  (resultOf : Action → Result)

/-- The object with clients that call its operations concurrently. -/
def system : System (State Object Name Operation Result) (Label Action Name Operation Result) where
  initial state := object.initial state.object ∧ ∀ name, state.clients name = .idle
  step source label target :=
    match label with
    | .call name operation => source.clients name = .idle ∧
        target =
          { source with clients := Function.update source.clients name (.called operation) }
    | .perform name action => source.clients name = .called (operationOf action) ∧
        object.step source.object action target.object ∧
        target.clients = Function.update source.clients name
          (.performed (operationOf action) (resultOf action))
    | .answer name result => ∃ operation, source.clients name = .performed operation result ∧
        target =
          { source with
            clients := Function.update source.clients name (.answered operation result) }

end System

variable {object : System Object Action} {operationOf : Action → Operation}
  {resultOf : Action → Result}

/-- The operation that a client has called. -/
def Phase.operation? : Phase Operation Result → Option Operation
  | .idle => none
  | .called operation | .performed operation _ | .answered operation _ => some operation

/-- A client that has called an operation keeps to it, and only a call begins one. -/
theorem step_operation? [DecidableEq Name] {source target : State Object Name Operation Result}
    {label : Label Action Name Operation Result}
    (step : (system object operationOf resultOf).step source label target) (name : Name) :
    (target.clients name).operation? = (source.clients name).operation? ∨
      ∃ operation, label = .call name operation ∧ source.clients name = .idle ∧
        (target.clients name).operation? = some operation := by
  cases label with
  | call caller operation =>
    obtain ⟨isIdle, rfl⟩ := step
    by_cases same : name = caller
    · subst same
      refine .inr ⟨operation, rfl, isIdle, ?_⟩
      simp only [Function.update_self]
      rfl
    · refine .inl ?_
      simp only [Function.update_of_ne same]
  | perform caller action =>
    obtain ⟨isCalled, _, clients⟩ := step
    refine .inl ?_
    rw [clients]
    by_cases same : name = caller
    · subst same
      rw [Function.update_self, isCalled]
      rfl
    · rw [Function.update_of_ne same]
  | answer caller result =>
    obtain ⟨operation, isPerformed, rfl⟩ := step
    refine .inl ?_
    by_cases same : name = caller
    · subst same
      simp only [Function.update_self, isPerformed]
      rfl
    · simp only [Function.update_of_ne same]

/-- A client that has been answered takes no more steps. -/
theorem step_answered [DecidableEq Name] {source target : State Object Name Operation Result}
    {label : Label Action Name Operation Result}
    (step : (system object operationOf resultOf).step source label target) {name : Name}
    {operation : Operation} {result : Result}
    (answered : source.clients name = .answered operation result) :
    target.clients name = .answered operation result := by
  have other {caller : Name} {phase : Phase Operation Result}
      (different : source.clients caller ≠ .answered operation result) :
      Function.update source.clients caller phase name = .answered operation result := by
    rw [Function.update_of_ne, answered]
    rintro rfl
    exact different answered
  cases label with
  | call caller operation =>
    obtain ⟨isIdle, rfl⟩ := step
    exact other (by rw [isIdle]; exact fun equal => by cases equal)
  | perform caller action =>
    obtain ⟨isCalled, _, clients⟩ := step
    rw [clients]
    exact other (by rw [isCalled]; exact fun equal => by cases equal)
  | answer caller result =>
    obtain ⟨_, isPerformed, rfl⟩ := step
    exact other (by rw [isPerformed]; exact fun equal => by cases equal)

/-! ### What a client's phase says about the labels -/

/-- What the labels so far say about a client that stands in a phase. -/
def Phase.Records (operationOf : Action → Operation) (resultOf : Action → Result)
    (labels : List (Label Action Name Operation Result)) (name : Name) :
    Phase Operation Result → Prop
  | .idle => name ∉ (effects labels).map Prod.fst ∧ ∀ result, .answer name result ∉ labels
  | .called operation => .call name operation ∈ labels ∧
      name ∉ (effects labels).map Prod.fst ∧ ∀ result, .answer name result ∉ labels
  | .performed operation result => .call name operation ∈ labels ∧
      (∃ action, (name, action) ∈ effects labels ∧ operationOf action = operation ∧
        resultOf action = result) ∧ ∀ result, .answer name result ∉ labels
  | .answered operation result => .call name operation ∈ labels ∧
      (∃ action, (name, action) ∈ effects labels ∧ operationOf action = operation ∧
        resultOf action = result) ∧
      ∀ other, .answer name other ∈ labels → other = result

/-- A step of another client changes nothing that the labels say. -/
theorem Phase.Records.other {labels : List (Label Action Name Operation Result)}
    {label : Label Action Name Operation Result} {name : Name} {phase : Phase Operation Result}
    (records : phase.Records operationOf resultOf labels name)
    (notPerform : ∀ action, label ≠ .perform name action)
    (notAnswer : ∀ result, label ≠ .answer name result) :
    phase.Records operationOf resultOf (labels ++ [label]) name := by
  have grown : effects labels ⊆ effects (labels ++ [label]) := by
    rw [effects_append]
    exact List.subset_append_left _ _
  have names : name ∉ (effects labels).map Prod.fst →
      name ∉ (effects (labels ++ [label])).map Prod.fst := by
    intro absent member
    rw [effects_append, List.map_append, List.mem_append] at member
    rcases member with old | new
    · exact absent old
    · cases label with
      | perform other action =>
        obtain rfl := List.mem_singleton.mp new
        exact notPerform action rfl
      | call | answer => exact List.not_mem_nil new
  have answers {result : Result} (member : .answer name result ∈ labels ++ [label]) :
      .answer name result ∈ labels := by
    rcases List.mem_append.mp member with old | new
    · exact old
    · exact absurd (List.mem_singleton.mp new).symm (notAnswer result)
  cases phase with
  | idle => exact ⟨names records.1, fun result member => records.2 result (answers member)⟩
  | called operation =>
    exact ⟨List.mem_append_left _ records.1, names records.2.1,
      fun result member => records.2.2 result (answers member)⟩
  | performed operation result =>
    obtain ⟨calls, ⟨action, member, same⟩, unanswered⟩ := records
    exact ⟨List.mem_append_left _ calls, ⟨action, grown member, same⟩,
      fun result member => unanswered result (answers member)⟩
  | answered operation result =>
    obtain ⟨calls, ⟨action, member, same⟩, unique⟩ := records
    exact ⟨List.mem_append_left _ calls, ⟨action, grown member, same⟩,
      fun other member => unique other (answers member)⟩

section Runs

variable [DecidableEq Name] {labels : List (Label Action Name Operation Result)}
  {state : State Object Name Operation Result}

/-- The labels of a run say where every client stands. -/
theorem recorded (run : Run (system object operationOf resultOf) labels state) (name : Name) :
    (state.clients name).Records operationOf resultOf labels name := by
  induction run generalizing name with
  | start initial =>
    rw [initial.2 name]
    exact ⟨List.not_mem_nil, fun _ => List.not_mem_nil⟩
  | @next labels source target label before step inductionHypothesis =>
    cases label with
    | call caller operation =>
      obtain ⟨isIdle, rfl⟩ := step
      by_cases same : name = caller
      · subst same
        have records := inductionHypothesis name
        rw [isIdle] at records
        have kept : (Phase.idle : Phase Operation Result).Records operationOf resultOf
            (labels ++ [Label.call name operation]) name :=
          records.other (fun _ equal => by cases equal) (fun _ equal => by cases equal)
        simp only [Function.update_self]
        exact ⟨List.mem_append_right _ List.mem_cons_self, kept⟩
      · simp only [Function.update_of_ne same]
        exact (inductionHypothesis name).other (fun _ equal => by cases equal)
          (fun _ equal => by cases equal)
    | perform caller action =>
      obtain ⟨isCalled, _, clients⟩ := step
      rw [clients]
      by_cases same : name = caller
      · subst same
        have records := inductionHypothesis name
        rw [isCalled] at records
        rw [Function.update_self]
        refine ⟨List.mem_append_left _ records.1, ⟨action, ?_, rfl, rfl⟩, fun result member => ?_⟩
        · rw [effects_perform]
          exact List.mem_append_right _ List.mem_cons_self
        · rcases List.mem_append.mp member with old | new
          · exact records.2.2 result old
          · cases List.mem_singleton.mp new
      · rw [Function.update_of_ne same]
        refine (inductionHypothesis name).other (fun other equal => same ?_)
          (fun _ equal => by cases equal)
        cases equal
        rfl
    | answer caller result =>
      obtain ⟨operation, isPerformed, rfl⟩ := step
      by_cases same : name = caller
      · subst same
        have records := inductionHypothesis name
        rw [isPerformed] at records
        obtain ⟨calls, ⟨action, member, equal⟩, unanswered⟩ := records
        simp only [Function.update_self]
        refine ⟨List.mem_append_left _ calls, ⟨action, ?_, equal⟩, fun other answer => ?_⟩
        · rw [effects_answer]
          exact member
        · rcases List.mem_append.mp answer with old | new
          · exact absurd old (unanswered other)
          · cases List.mem_singleton.mp new
            rfl
      · simp only [Function.update_of_ne same]
        refine (inductionHypothesis name).other (fun _ equal => by cases equal)
          (fun other equal => same ?_)
        cases equal
        rfl

/-- The effects are a run of the object on its own. -/
theorem effects_run (run : Run (system object operationOf resultOf) labels state) :
    Run object ((effects labels).map Prod.snd) state.object := by
  induction run with
  | start initial => exact .start initial.1
  | @next labels source target label before step inductionHypothesis =>
    cases label with
    | call name operation =>
      obtain ⟨_, rfl⟩ := step
      rw [effects_call]
      exact inductionHypothesis
    | perform name action =>
      rw [effects_perform, List.map_append]
      exact inductionHypothesis.next step.2.1
    | answer name result =>
      obtain ⟨_, _, rfl⟩ := step
      rw [effects_answer]
      exact inductionHypothesis

/-- No call has two effects. -/
theorem effects_nodup (run : Run (system object operationOf resultOf) labels state) :
    ((effects labels).map Prod.fst).Nodup := by
  induction run with
  | start initial => exact List.nodup_nil
  | @next labels source target label before step inductionHypothesis =>
    cases label with
    | call name operation => rwa [effects_call]
    | perform name action =>
      have records := recorded before name
      rw [step.1] at records
      rw [effects_perform, List.map_append]
      exact inductionHypothesis.append (List.nodup_singleton name)
        (List.disjoint_singleton.mpr records.2.1)
    | answer name result => rwa [effects_answer]

/-- Every effect is that of a call. -/
theorem call_of_effect (run : Run (system object operationOf resultOf) labels state) {name : Name}
    {action : Action} (member : (name, action) ∈ effects labels) :
    .call name (operationOf action) ∈ labels := by
  induction run with
  | start initial => exact absurd member List.not_mem_nil
  | @next labels source target label before step inductionHypothesis =>
    refine List.mem_append_left _ ?_
    cases label with
    | call other operation =>
      rw [effects_call] at member
      exact inductionHypothesis member
    | perform other otherAction =>
      rw [effects_perform, List.mem_append, List.mem_singleton] at member
      rcases member with old | new
      · exact inductionHypothesis old
      · obtain ⟨rfl, rfl⟩ := Prod.mk.inj new
        have records := recorded before name
        rw [step.1] at records
        exact records.1
    | answer other result =>
      rw [effects_answer] at member
      exact inductionHypothesis member

/-- A client whose operation has taken effect keeps to it. -/
theorem operation_of_effect (run : Run (system object operationOf resultOf) labels state)
    {name : Name} {action : Action} (member : (name, action) ∈ effects labels) :
    (state.clients name).operation? = some (operationOf action) := by
  induction run with
  | start initial => exact absurd member List.not_mem_nil
  | @next labels source target label before step inductionHypothesis =>
    rw [effects_append, List.mem_append] at member
    rcases member with old | new
    · have held := inductionHypothesis old
      rcases step_operation? step name with same | ⟨_, _, isIdle, _⟩
      · rw [same, held]
      · rw [isIdle] at held
        cases held
    · cases label with
      | perform caller other =>
        obtain ⟨rfl, rfl⟩ := Prod.mk.inj (List.mem_singleton.mp new)
        rw [step.2.2, Function.update_self]
        rfl
      | call | answer => exact absurd new List.not_mem_nil

/-- Every answer is that of an effect. -/
theorem effect_of_answer (run : Run (system object operationOf resultOf) labels state)
    {name : Name} {result : Result} (member : .answer name result ∈ labels) :
    ∃ action, (name, action) ∈ effects labels ∧ resultOf action = result := by
  have records := recorded run name
  cases phase : state.clients name with
  | idle =>
    rw [phase] at records
    exact absurd member (records.2 result)
  | called operation =>
    rw [phase] at records
    exact absurd member (records.2.2 result)
  | performed operation other =>
    rw [phase] at records
    exact absurd member (records.2.2 result)
  | answered operation other =>
    rw [phase] at records
    obtain ⟨_, ⟨action, inEffects, _, same⟩, unique⟩ := records
    exact ⟨action, inEffects, same.trans (unique result member).symm⟩

/-- A call that is answered before another one is made takes effect before it. -/
theorem effects_ordered (run : Run (system object operationOf resultOf) labels state)
    {first second : Name} {result : Result} {operation : Operation}
    (ordered : [.answer first result, .call second operation].Sublist labels)
    {front back : List (Name × Action)} {action : Action}
    (whole : effects labels = front ++ (second, action) :: back) :
    ∃ earlier, (first, earlier) ∈ front ∧ resultOf earlier = result := by
  obtain ⟨before, after, rfl, answered, called⟩ := List.cons_sublist_iff.mp ordered
  obtain ⟨between, behind, rfl⟩ := List.append_of_mem (List.singleton_sublist.mp called)
  rw [← List.append_assoc] at run whole
  obtain ⟨source, prior, steps⟩ := run.split
  cases steps with
  | cons step _ =>
    obtain ⟨isIdle, _⟩ := step
    -- the second call has no effect before it is made
    have records := recorded prior second
    rw [isIdle] at records
    obtain ⟨earlier, inEffects, same⟩ :=
      effect_of_answer prior (List.mem_append_left between answered)
    refine ⟨earlier, ?_, same⟩
    rw [effects_append] at whole
    rcases List.append_eq_append_iff.mp whole with ⟨rest, isFront, _⟩ | ⟨rest, isEffects, isRest⟩
    · rw [isFront]
      exact List.mem_append_left _ inEffects
    · cases rest with
      | nil =>
        rw [List.append_nil] at isEffects
        exact isEffects ▸ inEffects
      | cons other others =>
        obtain ⟨rfl, _⟩ := List.cons.inj isRest
        refine absurd ?_ records.1
        rw [isEffects]
        exact List.mem_map_of_mem (List.mem_append_right _ List.mem_cons_self)

end Runs

end Linearization
