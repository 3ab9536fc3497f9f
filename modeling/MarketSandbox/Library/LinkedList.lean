/-
This file develops linked lists in a heap. The nodes of a list follow each other
along one pointer field, or precede each other along another; a list grows by a
pointer to a new node at its end, and a node in its middle is taken out by one
pointer that skips it. Every other pointer can change freely. A list that a
pointer leads to, such as a list of free nodes, ends where `next` does, and grows
at either end.
-/

import Mathlib.Data.List.Chain
import Mathlib.Data.List.Nodup
import Mathlib.Logic.Function.Basic

namespace LinkedList

variable {Node : Type} {next prev : Node → Option Node} {nodes front back : List Node}
  {node first middle last : Node}

/-- The nodes follow each other along `next`. -/
def Forward (next : Node → Option Node) (nodes : List Node) : Prop :=
  nodes.IsChain fun left right => next left = some right

/-- The nodes precede each other along `prev`. -/
def Backward (prev : Node → Option Node) (nodes : List Node) : Prop :=
  nodes.IsChain fun left right => prev right = some left

theorem Forward.next_eq (linked : Forward next (front ++ first :: last :: back)) :
    next first = some last :=
  (List.isChain_append_cons_cons.mp linked).2.1

theorem Backward.prev_eq (linked : Backward prev (front ++ first :: last :: back)) :
    prev last = some first :=
  (List.isChain_append_cons_cons.mp linked).2.1

section Update

variable [DecidableEq Node]

/-- A pointer of a node outside the list may change. -/
theorem Forward.update (linked : Forward next nodes) (outside : node ∉ nodes)
    (target : Option Node) : Forward (Function.update next node target) nodes := by
  refine List.IsChain.imp_of_mem_imp (fun left right member _ same => ?_) linked
  rwa [Function.update_of_ne (ne_of_mem_of_not_mem member outside)]

theorem Backward.update (linked : Backward prev nodes) (outside : node ∉ nodes)
    (target : Option Node) : Backward (Function.update prev node target) nodes := by
  refine List.IsChain.imp_of_mem_imp (fun left right _ member same => ?_) linked
  rwa [Function.update_of_ne (ne_of_mem_of_not_mem member outside)]

/-- The pointer of the last node may change. -/
theorem Forward.update_last (linked : Forward next (nodes ++ [last])) (outside : last ∉ nodes)
    (target : Option Node) : Forward (Function.update next last target) (nodes ++ [last]) := by
  obtain ⟨left, _, pairs⟩ := List.isChain_append.mp linked
  refine List.IsChain.append (Forward.update left outside target) (List.isChain_singleton _) ?_
  intro other ending final start
  rw [Function.update_of_ne (ne_of_mem_of_not_mem (List.mem_of_mem_getLast? ending) outside)]
  exact pairs other ending final start

/-- A new node is linked behind the last one. -/
theorem Forward.append (linked : Forward next (nodes ++ [last])) (outside : last ∉ nodes) :
    Forward (Function.update next last (some node)) (nodes ++ [last] ++ [node]) := by
  rw [List.append_assoc, List.singleton_append, Forward, List.isChain_append_cons_cons]
  exact ⟨linked.update_last outside (some node), Function.update_self ..,
    List.isChain_singleton _⟩

theorem Backward.append (linked : Backward prev (nodes ++ [last]))
    (outside : node ∉ nodes ++ [last]) :
    Backward (Function.update prev node (some last)) (nodes ++ [last] ++ [node]) := by
  rw [List.append_assoc, List.singleton_append, Backward, List.isChain_append_cons_cons]
  exact ⟨linked.update outside (some last), Function.update_self .., List.isChain_singleton _⟩

/-- A node is taken out by a pointer from the node before it to the node behind it. -/
theorem Forward.unlink (linked : Forward next (front ++ first :: middle :: last :: back))
    (distinct : (front ++ first :: middle :: last :: back).Nodup) :
    Forward (Function.update next first (some last)) (front ++ first :: last :: back) := by
  obtain ⟨left, _, right⟩ := List.isChain_append_cons_cons.mp linked
  obtain ⟨_, rest, apart⟩ := List.nodup_append.mp distinct
  have notBack : first ∉ middle :: last :: back := (List.nodup_cons.mp rest).1
  have notFront : first ∉ front := fun member => apart first member first (by simp) rfl
  have tail := (List.isChain_cons_cons.mp right).2
  exact List.isChain_append_cons_cons.mpr ⟨Forward.update_last left notFront (some last),
    Function.update_self ..,
    Forward.update tail (fun member => notBack (List.mem_cons_of_mem _ member)) (some last)⟩

theorem Backward.unlink (linked : Backward prev (front ++ first :: middle :: last :: back))
    (distinct : (front ++ first :: middle :: last :: back).Nodup) :
    Backward (Function.update prev last (some first)) (front ++ first :: last :: back) := by
  obtain ⟨left, _, right⟩ := List.isChain_append_cons_cons.mp linked
  have split : front ++ first :: middle :: last :: back =
      (front ++ [first, middle]) ++ last :: back := by simp
  rw [split] at distinct
  obtain ⟨_, rest, apart⟩ := List.nodup_append.mp distinct
  have notFront : last ∉ front ++ [first] := fun member =>
    apart last (by simpa [or_assoc] using Or.inl (List.mem_append.mp member)) last
      List.mem_cons_self rfl
  have notBack : last ∉ back := (List.nodup_cons.mp rest).1
  refine List.isChain_append_cons_cons.mpr
    ⟨Backward.update left notFront (some first), Function.update_self .., ?_⟩
  have tail := (List.isChain_cons_cons.mp right).2
  cases back with
  | nil => exact List.isChain_singleton _
  | cons other back =>
    obtain ⟨pair, tail⟩ := List.isChain_cons_cons.mp tail
    refine List.isChain_cons_cons.mpr ⟨?_, Backward.update tail notBack (some first)⟩
    rwa [Function.update_of_ne (List.ne_of_not_mem_cons notBack).symm]

/-! ### The list that a pointer leads to -/

/-- The nodes are those that a pointer leads to along `next`, up to the end. -/
def Linked (next : Node → Option Node) : Option Node → List Node → Prop
  | head, [] => head = none
  | head, node :: nodes => head = some node ∧ Linked next (next node) nodes

omit [DecidableEq Node] in
/-- A pointer leads to one list. -/
theorem Linked.unique {other : List Node} {head : Option Node} (left : Linked next head nodes)
    (right : Linked next head other) : nodes = other := by
  induction nodes generalizing head other with
  | nil =>
    cases other with
    | nil => rfl
    | cons second others => exact absurd (left.symm.trans right.1).symm (Option.some_ne_none second)
  | cons first rest inductionHypothesis =>
    cases other with
    | nil => exact absurd (left.1.symm.trans right) (Option.some_ne_none first)
    | cons second others =>
      obtain rfl := Option.some_inj.mp (left.1.symm.trans right.1)
      rw [inductionHypothesis left.2 right.2]

omit [DecidableEq Node] in
/-- Nodes that follow each other up to one that nothing follows. -/
theorem Forward.linked (forward : Forward next (front ++ [last])) (ends : next last = none) :
    Linked next (front ++ [last]).head? (front ++ [last]) := by
  induction front with
  | nil => exact ⟨rfl, ends⟩
  | cons first rest inductionHypothesis =>
    obtain ⟨start, tail⟩ := List.isChain_cons.mp forward
    refine ⟨rfl, ?_⟩
    have chain := inductionHypothesis tail
    cases rest with
    | nil =>
      rw [start last rfl]
      exact chain
    | cons second others =>
      rw [start second rfl]
      exact chain

theorem Linked.update {head : Option Node} (linked : Linked next head nodes)
    (outside : node ∉ nodes) (target : Option Node) :
    Linked (Function.update next node target) head nodes := by
  induction nodes generalizing head with
  | nil => exact linked
  | cons first rest inductionHypothesis =>
    obtain ⟨notFirst, notRest⟩ := not_or.mp (mt List.mem_cons.mpr outside)
    refine ⟨linked.1, ?_⟩
    rw [Function.update_of_ne (Ne.symm notFirst)]
    exact inductionHypothesis linked.2 notRest

/-- A node is pushed in front of the list. -/
theorem Linked.push {head : Option Node} (linked : Linked next head nodes)
    (outside : node ∉ nodes) :
    Linked (Function.update next node head) (some node) (node :: nodes) := by
  refine ⟨rfl, ?_⟩
  rw [Function.update_self]
  exact linked.update outside head

/-- A node at which the list ends gets a new node behind it. -/
theorem Linked.extend {head : Option Node} (linked : Linked next head nodes)
    (distinct : nodes.Nodup) (member : last ∈ nodes) (ends : next last = none)
    (outside : node ∉ nodes) :
    Linked (Function.update (Function.update next node none) last (some node)) head
      (nodes ++ [node]) := by
  induction nodes generalizing head with
  | nil => exact absurd member List.not_mem_nil
  | cons first rest inductionHypothesis =>
    obtain ⟨start, chain⟩ := linked
    obtain ⟨firstOutside, restDistinct⟩ := List.nodup_cons.mp distinct
    obtain ⟨notFirst, notRest⟩ := not_or.mp (mt List.mem_cons.mpr outside)
    refine ⟨start, ?_⟩
    by_cases same : first = last
    · subst same
      rw [ends] at chain
      cases rest with
      | nil =>
        rw [Function.update_self]
        refine ⟨rfl, ?_⟩
        rw [Function.update_of_ne notFirst, Function.update_self]
        exact rfl
      | cons other rest => exact absurd chain.1.symm (Option.some_ne_none other)
    · rw [Function.update_of_ne same, Function.update_of_ne (Ne.symm notFirst)]
      exact inductionHypothesis chain restDistinct
        ((List.mem_cons.mp member).resolve_left (Ne.symm same)) notRest

end Update

end LinkedList
