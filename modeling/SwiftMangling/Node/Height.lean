import SwiftMangling.Node.Basic

/-!
How many levels a symbol tree has: the root is one, and below it are those of its highest child.
-/

namespace SwiftMangling.Node

mutual

def height : Node → Nat
  | mk _ _ children => heightAll children + 1

/-- The levels of the highest tree in a list. -/
def heightAll : List Node → Nat
  | [] => 0
  | node :: nodes => max node.height (heightAll nodes)

end

theorem height_pos (node : Node) : 0 < node.height := by
  obtain ⟨kind, payload, children⟩ := node
  exact Nat.succ_pos _

theorem height_le_heightAll {nodes : List Node} {node : Node} (h : node ∈ nodes) :
    node.height ≤ heightAll nodes := by
  induction nodes with
  | nil => cases h
  | cons first nodes ih =>
    rw [heightAll]
    rcases List.mem_cons.1 h with hfirst | hlater
    · rw [hfirst]
      exact Nat.le_max_left ..
    · exact Nat.le_trans (ih hlater) (Nat.le_max_right ..)

theorem heightAll_le_iff {nodes : List Node} {bound : Nat} :
    heightAll nodes ≤ bound ↔ ∀ node ∈ nodes, node.height ≤ bound := by
  induction nodes with
  | nil => simp [heightAll]
  | cons first nodes ih => rw [heightAll, Nat.max_le, ih, List.forall_mem_cons]

theorem height_le {kind : Kind} {payload : Payload} {children : List Node} {bound : Nat}
    (h : ∀ child ∈ children, child.height ≤ bound) : (mk kind payload children).height ≤ bound + 1 := by
  rw [height]
  exact Nat.succ_le_succ (heightAll_le_iff.2 h)

theorem height_lt_of_mem {node child : Node} (h : child ∈ node.children) :
    child.height < node.height := by
  obtain ⟨kind, payload, children⟩ := node
  rw [height]
  exact Nat.lt_succ_of_le (height_le_heightAll h)

theorem height_lt_branch (kind : Kind) (child : Node) (others : List Node) :
    child.height < (branch kind (child :: others)).height :=
  height_lt_of_mem List.mem_cons_self

/-- A child that is added raises a node above itself at most. -/
theorem height_push_le {node child : Node} {bound : Nat} (hnode : node.height ≤ bound + 1)
    (hchild : child.height ≤ bound) : (node.push child).height ≤ bound + 1 := by
  obtain ⟨kind, payload, children⟩ := node
  rw [height] at hnode
  apply height_le
  intro other hother
  rcases List.mem_append.1 hother with hother | hother
  · exact Nat.le_trans (height_le_heightAll hother) (Nat.le_of_succ_le_succ hnode)
  · rw [List.mem_singleton.1 hother]
    exact hchild

end SwiftMangling.Node
