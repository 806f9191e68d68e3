import SwiftMangling.Node.Basic

/-!
How many nodes a symbol tree has. A tree that stands in several places counts in each of them, as each
has lines of its own in the written form.
-/

namespace SwiftMangling.Node

mutual

def size : Node → Nat
  | mk _ _ children => sizeAll children + 1

/-- The nodes of all trees in a list. -/
def sizeAll : List Node → Nat
  | [] => 0
  | node :: nodes => node.size + sizeAll nodes

end

theorem size_mk (kind : Kind) (payload : Payload) (children : List Node) :
    (mk kind payload children).size = sizeAll children + 1 := by
  rw [size]

theorem size_branch (kind : Kind) (children : List Node) :
    (branch kind children).size = sizeAll children + 1 :=
  size_mk ..

theorem sizeAll_nil : sizeAll [] = 0 := by
  rw [sizeAll]

theorem sizeAll_cons (node : Node) (nodes : List Node) :
    sizeAll (node :: nodes) = node.size + sizeAll nodes := by
  rw [sizeAll]

theorem sizeAll_singleton (node : Node) : sizeAll [node] = node.size := by
  rw [sizeAll_cons, sizeAll_nil, Nat.add_zero]

theorem size_branch_singleton (kind : Kind) (child : Node) :
    (branch kind [child]).size = child.size + 1 := by
  rw [size_branch, sizeAll_singleton]

theorem sizeAll_append (nodes others : List Node) :
    sizeAll (nodes ++ others) = sizeAll nodes + sizeAll others := by
  induction nodes with
  | nil => rw [List.nil_append, sizeAll_nil, Nat.zero_add]
  | cons node nodes ih => rw [List.cons_append, sizeAll_cons, sizeAll_cons, ih, Nat.add_assoc]

theorem sizeAll_reverse (nodes : List Node) : sizeAll nodes.reverse = sizeAll nodes := by
  induction nodes with
  | nil => rfl
  | cons node nodes ih =>
    rw [List.reverse_cons, sizeAll_append, ih, sizeAll_singleton, sizeAll_cons, Nat.add_comm]

theorem sizeAll_replicate (count : Nat) (node : Node) :
    sizeAll (List.replicate count node) = count * node.size := by
  induction count with
  | zero => rw [List.replicate_zero, sizeAll_nil, Nat.zero_mul]
  | succ count ih => rw [List.replicate_succ, sizeAll_cons, ih, Nat.succ_mul, Nat.add_comm]

theorem sizeAll_numbers (kind : Kind) (numbers : List Nat) :
    sizeAll (numbers.map fun (n : Nat) => .numbered kind n) = numbers.length := by
  induction numbers with
  | nil => rfl
  | cons n numbers ih =>
    rw [List.map_cons, sizeAll_cons, ih, numbered, size_mk, sizeAll_nil, List.length_cons]
    omega

theorem size_le_sizeAll {nodes : List Node} {node : Node} (h : node ∈ nodes) :
    node.size ≤ sizeAll nodes := by
  obtain ⟨front, back, rfl⟩ := List.append_of_mem h
  rw [sizeAll_append, sizeAll_cons]
  exact Nat.le_trans (Nat.le_add_right ..) (Nat.le_add_left ..)

theorem size_push (node child : Node) : (node.push child).size = node.size + child.size := by
  obtain ⟨kind, payload, children⟩ := node
  rw [push, size_mk, size_mk, sizeAll_append, sizeAll_singleton, Nat.add_right_comm]

mutual

/-- The written form has a line for each node. -/
theorem length_lines (depth : Nat) (node : Node) : (node.lines depth).length = node.size := by
  obtain ⟨kind, payload, children⟩ := node
  rw [lines, List.length_cons, length_linesAll, size]

theorem length_linesAll (depth : Nat) (nodes : List Node) :
    (linesAll depth nodes).length = sizeAll nodes := by
  cases nodes with
  | nil => rfl
  | cons node nodes =>
    rw [linesAll, List.length_append, length_lines, length_linesAll, sizeAll]

end

end SwiftMangling.Node
