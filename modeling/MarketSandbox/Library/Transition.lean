/-
This file develops labelled transition systems. A system is a set of initial
states and a step relation whose steps carry a label; a run is a finite
sequence of steps from an initial state, recorded by its labels in order. The
two induction rules for runs are here: the plain one, and the one for runs
whose labels are admissible, where admissibility is inherited by prefixes. A
system can be restricted to the steps that meet a condition on the state they
start from, and can be given a history variable that records the steps taken
without influencing them. A relation that leads one way only is a run without
labels, whose end does not depend on how it is reached.
-/

import Mathlib.Data.List.Basic
import Mathlib.Data.List.Induction
import Mathlib.Logic.Relation

namespace Transition

/-- A labelled transition system. -/
structure System (State Label : Type) where
  initial : State → Prop
  step : State → Label → State → Prop

variable {State Label : Type} {system : System State Label}

/-! ### Executions from a state -/

/-- An execution: a finite sequence of steps from one state to another. -/
inductive Steps (system : System State Label) : State → List Label → State → Prop
  | nil (state : State) : Steps system state [] state
  | cons {first second last : State} {label : Label} {labels : List Label}
      (head : system.step first label second) (tail : Steps system second labels last) :
      Steps system first (label :: labels) last

theorem Steps.single {first last : State} {label : Label}
    (step : system.step first label last) : Steps system first [label] last :=
  .cons step (.nil last)

theorem Steps.append {first second last : State} {front back : List Label}
    (left : Steps system first front second) (right : Steps system second back last) :
    Steps system first (front ++ back) last := by
  induction left with
  | nil => exact right
  | cons head _ inductionHypothesis => exact .cons head (inductionHypothesis right)

theorem Steps.split {first last : State} {front back : List Label}
    (steps : Steps system first (front ++ back) last) :
    ∃ second, Steps system first front second ∧ Steps system second back last := by
  induction front generalizing first with
  | nil => exact ⟨first, .nil first, steps⟩
  | cons label labels inductionHypothesis =>
    cases steps with
    | cons head tail =>
      obtain ⟨second, left, right⟩ := inductionHypothesis tail
      exact ⟨second, .cons head left, right⟩

theorem Steps.single_iff {first last : State} {label : Label} :
    Steps system first [label] last ↔ system.step first label last := by
  constructor
  · intro steps
    cases steps with
    | cons head tail =>
      cases tail with
      | nil => exact head
  · exact Steps.single

/-- What every step keeps, an execution keeps. -/
theorem Steps.invariant (property : State → Prop) {labels : List Label} {first last : State}
    (preserved : ∀ source label target, property source → system.step source label target →
      property target)
    (steps : Steps system first labels last) (start : property first) : property last := by
  induction steps with
  | nil => exact start
  | cons head _ inductionHypothesis => exact inductionHypothesis (preserved _ _ _ start head)

/-- An execution along which a measure never grows, and shrinks with every counted step, takes no
more counted steps than it has measure to lose. -/
theorem Steps.count_le (property : State → Prop) (measure : State → Nat) (counted : Label → Bool)
    {labels : List Label} {first last : State}
    (preserved : ∀ source label target, label ∈ labels → property source →
      system.step source label target →
      property target ∧ measure target + (if counted label then 1 else 0) ≤ measure source)
    (steps : Steps system first labels last) (start : property first) :
    property last ∧ (labels.filter counted).length + measure last ≤ measure first := by
  induction steps with
  | nil => exact ⟨start, by simp⟩
  | @cons first second last label labels head _ inductionHypothesis =>
    obtain ⟨kept, less⟩ := preserved _ _ _ List.mem_cons_self start head
    obtain ⟨final, rest⟩ := inductionHypothesis
      (fun source label target member =>
        preserved source label target (List.mem_cons_of_mem _ member)) kept
    refine ⟨final, ?_⟩
    rw [List.filter_cons]
    split_ifs at less ⊢ with mine
    · rw [List.length_cons]
      omega
    · omega

/-! ### Runs from an initial state -/

/-- A run: an execution from an initial state, extended at its end. -/
inductive Run (system : System State Label) : List Label → State → Prop
  | start {state : State} (initial : system.initial state) : Run system [] state
  | next {labels : List Label} {source target : State} {label : Label}
      (run : Run system labels source) (step : system.step source label target) :
      Run system (labels ++ [label]) target

theorem Run.append {front back : List Label} {source target : State}
    (run : Run system front source) (steps : Steps system source back target) :
    Run system (front ++ back) target := by
  induction steps generalizing front with
  | nil => rwa [List.append_nil]
  | cons head _ inductionHypothesis =>
    have extended := inductionHypothesis (run.next head)
    rwa [List.append_assoc] at extended

theorem Run.split {front back : List Label} {target : State}
    (run : Run system (front ++ back) target) :
    ∃ source, Run system front source ∧ Steps system source back target := by
  induction back using List.reverseRecOn generalizing target with
  | nil => exact ⟨target, by rwa [List.append_nil] at run, .nil target⟩
  | append_singleton labels label inductionHypothesis =>
    rw [← List.append_assoc] at run
    generalize whole : (front ++ labels) ++ [label] = all at run
    cases run with
    | start => exact absurd whole (by simp)
    | next before step =>
      obtain ⟨same, last⟩ := List.append_inj' whole rfl
      obtain rfl := List.singleton_inj.mp last
      subst same
      obtain ⟨source, prior, steps⟩ := inductionHypothesis before
      exact ⟨source, prior, steps.append (.single step)⟩

/-- The run without steps. -/
theorem Run.of_nil {state : State} (run : Run system [] state) : system.initial state := by
  generalize whole : ([] : List Label) = labels at run
  cases run with
  | start initial => exact initial
  | next => exact absurd whole (by simp)

/-- The last step of a run. -/
theorem Run.last {labels : List Label} {label : Label} {target : State}
    (run : Run system (labels ++ [label]) target) :
    ∃ source, Run system labels source ∧ system.step source label target := by
  obtain ⟨source, prior, steps⟩ := run.split
  exact ⟨source, prior, Steps.single_iff.mp steps⟩

/-- Where a label says which state a step leads to, the labels of a run say which state it
reaches. -/
theorem Run.unique {labels : List Label} {first second : State} (left : Run system labels first)
    (right : Run system labels second)
    (start : ∀ one other, system.initial one → system.initial other → one = other)
    (functional : ∀ source label one other, system.step source label one →
      system.step source label other → one = other) : first = second := by
  induction left generalizing second with
  | start initial => exact start _ _ initial right.of_nil
  | next _ step inductionHypothesis =>
    obtain ⟨source, prior, lastStep⟩ := right.last
    obtain rfl := inductionHypothesis prior
    exact functional _ _ _ _ step lastStep

/-- An invariant of the labels so far and the state they lead to. -/
theorem Run.invariant (property : List Label → State → Prop) {labels : List Label} {state : State}
    (start : ∀ initial, system.initial initial → property [] initial)
    (preserved : ∀ labels source label target, Run system labels source →
      property labels source → system.step source label target →
      property (labels ++ [label]) target)
    (run : Run system labels state) : property labels state := by
  induction run with
  | start initial => exact start _ initial
  | next before step inductionHypothesis =>
    exact preserved _ _ _ _ before inductionHypothesis step

/-- An invariant of the runs whose labels are admissible, where every prefix of an
admissible sequence of labels is admissible. -/
theorem Run.invariant_of_admissible (admissible : List Label → Prop)
    {property : List Label → State → Prop} {labels : List Label} {state : State}
    (closed : ∀ labels label, admissible (labels ++ [label]) → admissible labels)
    (start : ∀ initial, system.initial initial → property [] initial)
    (preserved : ∀ labels source label target, Run system labels source →
      admissible (labels ++ [label]) → property labels source →
      system.step source label target → property (labels ++ [label]) target)
    (run : Run system labels state) (admitted : admissible labels) : property labels state := by
  induction run with
  | start initial => exact start _ initial
  | next before step inductionHypothesis =>
    exact preserved _ _ _ _ before admitted (inductionHypothesis (closed _ _ admitted)) step

/-! ### Restricting a system -/

/-- The system that takes only the steps allowed by a condition on their source. -/
def System.restrict (system : System State Label) (allowed : State → Label → Prop) :
    System State Label where
  initial := system.initial
  step source label target := allowed source label ∧ system.step source label target

/-- A run of the restricted system is a run of the system. -/
theorem Run.of_restrict {allowed : State → Label → Prop} {labels : List Label} {state : State}
    (run : Run (system.restrict allowed) labels state) : Run system labels state := by
  induction run with
  | start initial => exact .start initial
  | next _ step inductionHypothesis => exact inductionHypothesis.next step.2

/-- An execution of the restricted system is one of the system. -/
theorem Steps.of_restrict {allowed : State → Label → Prop} {labels : List Label}
    {first last : State} (steps : Steps (system.restrict allowed) first labels last) :
    Steps system first labels last := by
  induction steps with
  | nil => exact .nil _
  | cons head _ inductionHypothesis => exact .cons head.2 inductionHypothesis

theorem Steps.restrict {allowed : State → Label → Prop} {labels : List Label}
    {first last : State} (steps : Steps system first labels last)
    (all : ∀ state label, allowed state label) :
    Steps (system.restrict allowed) first labels last := by
  induction steps with
  | nil => exact .nil _
  | cons head _ inductionHypothesis => exact .cons ⟨all _ _, head⟩ inductionHypothesis

/-- A property that holds after a part of a run is kept along the rest of it, where the
rest takes only allowed steps. -/
theorem Run.preserve (admissible : List Label → Prop) (property : State → Prop)
    {allowed : State → Label → Prop} {front back : List Label} {source target : State}
    (closed : ∀ front back, admissible (front ++ back) → admissible front)
    (preserved : ∀ labels source label target, Run system labels source →
      admissible (labels ++ [label]) → label ∈ back → allowed source label →
      property source → system.step source label target → property target)
    (run : Run system front source) (steps : Steps (system.restrict allowed) source back target)
    (admitted : admissible (front ++ back)) (start : property source) : property target := by
  induction steps generalizing front with
  | nil => exact start
  | @cons first second last label labels head tail inductionHypothesis =>
    have split : front ++ label :: labels = front ++ [label] ++ labels := by simp
    rw [split] at admitted
    refine inductionHypothesis ?_ (run.next head.2) admitted ?_
    · exact fun front source other target before allowed member =>
        preserved front source other target before allowed (List.mem_cons_of_mem _ member)
    · exact preserved front first label second run (closed _ _ admitted) List.mem_cons_self
        head.1 start head.2

/-! ### Views of a system -/

/-- A view of a system's states and a selection of its labels turn every admissible run into a run
of another system, where a step whose label is selected is one there, and any other step is not
seen. -/
theorem Run.refine {OtherState OtherLabel : Type} {other : System OtherState OtherLabel}
    (admissible : List Label → Prop) (view : State → OtherState)
    (select : Label → Option OtherLabel)
    (closed : ∀ labels label, admissible (labels ++ [label]) → admissible labels)
    (start : ∀ state, system.initial state → other.initial (view state))
    (seen : ∀ labels source label target otherLabel, Run system labels source →
      admissible (labels ++ [label]) → system.step source label target →
      select label = some otherLabel → other.step (view source) otherLabel (view target))
    (unseen : ∀ labels source label target, Run system labels source →
      admissible (labels ++ [label]) → system.step source label target →
      select label = none → view target = view source)
    {labels : List Label} {state : State} (run : Run system labels state)
    (admitted : admissible labels) : Run other (labels.filterMap select) (view state) := by
  refine @Run.invariant_of_admissible _ _ system admissible
    (fun labels state => Run other (labels.filterMap select) (view state)) labels state closed
    (fun state initial => .start (start state initial)) ?_ run admitted
  intro labels source label target before admitted viewed step
  rw [List.filterMap_append]
  cases selected : select label with
  | none =>
    rw [unseen labels source label target before admitted step selected]
    simpa [selected] using viewed
  | some otherLabel =>
    have extended := viewed.next
      (seen labels source label target otherLabel before admitted step selected)
    simpa [selected] using extended

/-- A view of a system's states and a selection of its labels turn every run into a run of another
system, where a step whose label is selected is one there, and any other step is not seen. -/
theorem Run.view {OtherState OtherLabel : Type} {other : System OtherState OtherLabel}
    (view : State → OtherState) (select : Label → Option OtherLabel)
    (start : ∀ state, system.initial state → other.initial (view state))
    (seen : ∀ source label target otherLabel, system.step source label target →
      select label = some otherLabel → other.step (view source) otherLabel (view target))
    (unseen : ∀ source label target, system.step source label target →
      select label = none → view target = view source)
    {labels : List Label} {state : State} (run : Run system labels state) :
    Run other (labels.filterMap select) (view state) :=
  run.refine (fun _ => True) view select (fun _ _ admitted => admitted) start
    (fun _ source label target otherLabel _ _ => seen source label target otherLabel)
    (fun _ source label target _ _ => unseen source label target) trivial

/-! ### History variables -/

/-- The system with a history variable, which every step updates and none reads. -/
def System.withHistory {History : Type} (system : System State Label) (start : History)
    (record : History → State → Label → History) : System (State × History) Label where
  initial pair := system.initial pair.1 ∧ pair.2 = start
  step source label target :=
    system.step source.1 label target.1 ∧ target.2 = record source.2 source.1 label

section History

variable {History : Type} {start : History} {record : History → State → Label → History}

/-- Every run of the system is one with a history. -/
theorem Run.withHistory (start : History) (record : History → State → Label → History)
    {labels : List Label} {state : State} (run : Run system labels state) :
    ∃ history, Run (system.withHistory start record) labels (state, history) := by
  induction run with
  | start initial => exact ⟨start, .start ⟨initial, rfl⟩⟩
  | next _ step inductionHypothesis =>
    obtain ⟨history, before⟩ := inductionHypothesis
    exact ⟨_, before.next ⟨step, rfl⟩⟩

/-- A run with a history is a run. -/
theorem Run.of_withHistory {labels : List Label} {pair : State × History}
    (run : Run (system.withHistory start record) labels pair) : Run system labels pair.1 := by
  induction run with
  | start initial => exact .start initial.1
  | next _ step inductionHypothesis => exact inductionHypothesis.next step.1

/-- Every execution of the system continues a history. -/
theorem Steps.withHistory (start history : History)
    (record : History → State → Label → History) {labels : List Label} {first last : State}
    (steps : Steps system first labels last) :
    ∃ other, Steps (system.withHistory start record) (first, history) labels (last, other) := by
  induction steps generalizing history with
  | nil => exact ⟨history, .nil _⟩
  | cons head _ inductionHypothesis =>
    obtain ⟨other, tail⟩ := inductionHypothesis _
    exact ⟨other, .cons ⟨head, rfl⟩ tail⟩

/-- Every run of a restricted system is one with a history. -/
theorem Run.withHistory_restrict (start : History) (record : History → State → Label → History)
    {allowed : State → Label → Prop} {labels : List Label} {state : State}
    (run : Run (system.restrict allowed) labels state) :
    ∃ history, Run ((system.withHistory start record).restrict fun pair => allowed pair.1) labels
      (state, history) := by
  induction run with
  | start initial => exact ⟨start, .start ⟨initial, rfl⟩⟩
  | next _ step inductionHypothesis =>
    obtain ⟨history, before⟩ := inductionHypothesis
    exact ⟨_, before.next ⟨step.1, step.2, rfl⟩⟩

end History

/-! ### Deterministic relations -/

/-- A deterministic relation leads to one end only. -/
theorem eq_of_final {related : State → State → Prop} {first left right : State}
    (deterministic : Relator.RightUnique related)
    (leftFinal : ∀ state, ¬ related left state) (rightFinal : ∀ state, ¬ related right state)
    (one : Relation.ReflTransGen related first left)
    (other : Relation.ReflTransGen related first right) : left = right := by
  rcases one.total_of_right_unique deterministic other with onward | onward
  · rcases onward.cases_head with same | ⟨state, step, _⟩
    · exact same
    · exact absurd step (leftFinal state)
  · rcases onward.cases_head with same | ⟨state, step, _⟩
    · exact same.symm
    · exact absurd step (rightFinal state)

/-- What a step that is forced leads to lies on the way to every end. -/
theorem rest_of_step {related : State → State → Prop} {first second last : State}
    (deterministic : Relator.RightUnique related) (step : related first second)
    (final : ∀ state, ¬ related last state) (whole : Relation.ReflTransGen related first last) :
    Relation.ReflTransGen related second last := by
  rcases whole.cases_head with rfl | ⟨state, other, rest⟩
  · exact absurd step (final second)
  · exact deterministic step other ▸ rest

end Transition
