import Mathlib.Data.List.Nodup
import Mathlib.Logic.Function.Basic
import Mathlib.Tactic.Common

/-!
# Linked lists

A list that is threaded through its nodes: from a head one gets to the first node,
and from each node to the next one, until there is none. `Linked next head nodes`
says which nodes are met on the way. Changing the links of other nodes does not
matter, a node can be put in front, and a node can be taken out by changing the
link that leads to it.
-/

variable {α : Type} {next next' : α → Option α} {head : Option α} {nodes : List α}

/-- The nodes that are met from `head` on. -/
def Linked (next : α → Option α) : Option α → List α → Prop
  | head, [] => head = none
  | head, node :: rest => head = some node ∧ Linked next (next node) rest

namespace Linked

theorem congr (linked : Linked next head nodes) (same : ∀ node ∈ nodes, next' node = next node) :
    Linked next' head nodes := by
  induction nodes generalizing head with
  | nil => exact linked
  | cons node rest ih =>
      obtain ⟨first, linked⟩ := linked
      refine ⟨first, ?_⟩
      rw [same node List.mem_cons_self]
      exact ih linked (fun other member => same other (List.mem_cons_of_mem _ member))

theorem head_mem {node : α} (linked : Linked next head nodes) (first : head = some node) :
    node ∈ nodes := by
  cases nodes with
  | nil => cases first.symm.trans linked
  | cons node' rest =>
      cases first.symm.trans linked.1
      exact List.mem_cons_self

theorem after {before rest : List α} {node : α}
    (linked : Linked next head (before ++ node :: rest)) : Linked next (next node) rest := by
  induction before generalizing head with
  | nil => exact linked.2
  | cons first before ih => exact ih linked.2

section Change

variable [DecidableEq α]

theorem update_of_not_mem (linked : Linked next head nodes) {node : α} (absent : node ∉ nodes)
    (link : Option α) : Linked (Function.update next node link) head nodes := by
  apply linked.congr
  intro other member
  apply Function.update_of_ne
  rintro rfl
  exact absent member

theorem push (linked : Linked next head nodes) {node : α} (absent : node ∉ nodes) :
    Linked (Function.update next node head) (some node) (node :: nodes) := by
  refine ⟨rfl, ?_⟩
  rw [Function.update_self]
  exact linked.update_of_not_mem absent head

theorem unlink {before rest : List α} {node gone : α}
    (linked : Linked next head (before ++ node :: gone :: rest))
    (nodup : (before ++ node :: gone :: rest).Nodup) :
    Linked (Function.update next node (next gone)) head (before ++ node :: rest) := by
  induction before generalizing head with
  | nil =>
      refine ⟨linked.1, ?_⟩
      rw [Function.update_self]
      apply linked.2.2.update_of_not_mem
      intro member
      exact (List.nodup_cons.mp nodup).1 (List.mem_cons_of_mem _ member)
  | cons first before ih =>
      obtain ⟨fresh, nodup⟩ := List.nodup_cons.mp nodup
      have different : first ≠ node := by
        rintro rfl
        exact fresh (List.mem_append_right _ List.mem_cons_self)
      refine ⟨linked.1, ?_⟩
      rw [Function.update_of_ne different]
      exact ih linked.2 nodup

end Change

end Linked
