import SwiftMangling.Node.Size
import SwiftMangling.Proofs.DeepNames

/-!
# Trees that are much larger than their names

A generic array can be the context of a class, and its arguments can all refer to the class before it. Each
class of such a chain multiplies the size of a tree, so a tree can be larger than any power of the length of
its name, up to the limit of the indices.
-/

namespace SwiftMangling

open Mangle (ascii nameNode)

namespace Grammar

variable {call : Calls} {limit : Int} {budget : Nat} {table : References Node}

/-- The bytes of so many references to a position. -/
def repeated (count position : Nat) : Bytes :=
  (List.replicate count (referenceBytes position)).flatten

/-- The bytes of an array with so many arguments, which all refer to a position. -/
def arrayBytes (count position : Nat) : Bytes :=
  ascii "GSa" ++ (repeated count position ++ ascii "_")

/-- An array with so many arguments, which are all the same. -/
def arrayOf (count : Nat) (argument : Node) : Node :=
  .branch .boundGenericStructure [.branch .type [stdlibType .structureDecl "Array"],
    .branch .typeList (List.replicate count (.branch .type [argument]))]

lemma length_repeated (count position : Nat) :
    (repeated count position).length = count * (referenceBytes position).length := by
  rw [repeated, List.length_flatten, List.map_replicate, List.sum_replicate_nat]

lemma applyArguments_array {count : Nat} (hcount : 0 < count) (argument : Node) :
    applyArguments (stdlibType .structureDecl "Array") (List.replicate count (.branch .type [argument])) =
      pure (arrayOf count argument) := by
  obtain ⟨count, rfl⟩ := Nat.exists_eq_add_of_le' hcount
  have hsome : (List.replicate (count + 1) (Node.branch .type [argument])).isEmpty = false := rfl
  have hkind : boundKind? (stdlibType .structureDecl "Array").kind = some .boundGenericStructure := rfl
  rw [applyArguments, hsome, if_neg Bool.false_ne_true, hkind]
  simp only [orRefuse, pure_bind, branch_single, branch_map_some, branch_pair]
  rfl

section Reading

variable (hfew : Decimal.digitCount limit < Decimal.maxDigits)
include hfew

/-- The arguments are read up to the underscore. -/
lemma repeated_read {position : Nat} (hposition : IndexWithin limit position) {node : Node}
    (hnode : table[position]? = some node) {count bound : Nat} (hbound : count < bound)
    (earlier : List Node) (rest : Bytes) :
    rounds (collect (argument (parse (budget + 2)))) bound earlier limit
        ⟨repeated count position ++ 0x5F :: rest, table⟩ =
      .found (earlier.reverse ++ List.replicate count (.branch .type [node])) ⟨rest, table⟩ := by
  induction count generalizing bound earlier with
  | zero =>
    obtain ⟨bound, rfl⟩ := Nat.exists_eq_add_of_le' hbound
    rw [List.replicate_zero, List.append_nil]
    rfl
  | succ count ih =>
    obtain ⟨bound, rfl⟩ := Nat.exists_eq_add_of_le' (Nat.zero_lt_of_lt hbound)
    have hbytes : repeated (count + 1) position ++ 0x5F :: rest =
        referenceBytes position ++ (repeated count position ++ 0x5F :: rest) := by
      rw [repeated, List.replicate_succ, List.flatten_cons, List.append_assoc]
      rfl
    obtain ⟨b, unread, hfollows⟩ : ∃ b unread, repeated count position ++ 0x5F :: rest = b :: unread :=
      List.exists_cons_of_ne_nil (by simp)
    have hread : argument (parse (budget + 2)) limit ⟨referenceBytes position ++ b :: unread, table⟩ =
        .found (.branch .type [node]) ⟨b :: unread, table⟩ := by
      rw [argument, Parser.bind_of_found (type_recalled budget hfew hposition hnode _)]
      rfl
    have hlater := ih (Nat.lt_of_succ_lt_succ hbound) (.branch .type [node] :: earlier)
    rw [hfollows, List.reverse_cons, List.append_assoc] at hlater
    obtain ⟨first, back, hfront, hfirst⟩ := (referenceBytes_begins position).append (b :: unread)
    rw [hbytes, hfollows, List.replicate_succ]
    rw [hfront] at hread ⊢
    rw [rounds_collect hfirst rfl, Parser.bind_of_found hread]
    exact hlater

/-- An array of references is the context of a declaration. -/
lemma refers_array (budget : Nat) {count : Nat} (hcount : 0 < count) :
    Refers limit (budget + 4) (arrayBytes count) (arrayOf count) where
  read {position table node} hposition hnode unread := by
    have hbound : count < (repeated count position ++ 0x5F :: unread).length + 1 := by
      have hreference : 0 < (referenceBytes position).length := Nat.succ_pos _
      have hbytes := Nat.le_mul_of_pos_right count hreference
      rw [List.length_append, length_repeated]
      omega
    have hlist : argumentList (parse (budget + 2)) limit
        ⟨repeated count position ++ 0x5F :: unread, table⟩ =
          .found (List.replicate count (.branch .type [node])) ⟨unread, table⟩ :=
      repeated_read hfew hposition hnode hbound [] unread
    have hbytes : arrayBytes count position ++ unread =
        ascii "GSa" ++ (repeated count position ++ 0x5F :: unread) := by
      rw [arrayBytes, List.append_assoc, List.append_assoc]
      rfl
    rw [hbytes]
    show (argumentList (parse (budget + 2)) >>= fun arguments =>
      applyArguments (stdlibType .structureDecl "Array") arguments) limit
        ⟨repeated count position ++ 0x5F :: unread, table⟩ = _
    rw [Parser.bind_of_found hlist, applyArguments_array hcount]
    rfl

end Reading

section Sizes

lemma size_nestedClass (outer : Node) : (nestedClass outer).size = outer.size + 2 := by
  have hname : (nameNode .identifier (ascii "a")).size = 1 := rfl
  rw [nestedClass, Node.size_branch, Node.sizeAll_cons, Node.sizeAll_singleton, hname]

lemma size_arrayOf (count : Nat) (argument : Node) : count * argument.size ≤ (arrayOf count argument).size := by
  have hlist : Node.sizeAll (List.replicate count (.branch .type [argument])) =
      count * (argument.size + 1) := by
    rw [Node.sizeAll_replicate, Node.size_branch_singleton]
  rw [arrayOf, Node.size_branch, Node.sizeAll_cons, Node.sizeAll_singleton,
    Node.size_branch .typeList, hlist, Nat.mul_succ]
  omega

/-- Each class multiplies the nodes of the one before it. -/
lemma size_iterate (count length : Nat) (node : Node) :
    count ^ length * node.size ≤ ((fun node => nestedClass (arrayOf count node))^[length] node).size := by
  induction length generalizing node with
  | zero => rw [Nat.pow_zero, Nat.one_mul, Function.iterate_zero_apply]
  | succ length ih =>
    have harray := size_arrayOf count node
    have hclass := size_nestedClass (arrayOf count node)
    calc count ^ (length + 1) * node.size
        = count ^ length * (count * node.size) := by rw [Nat.pow_succ, Nat.mul_assoc]
      _ ≤ count ^ length * (nestedClass (arrayOf count node)).size := Nat.mul_le_mul_left _ (by omega)
      _ ≤ _ := ih _

/-- The bytes of a chain are a multiple of the number of the references in an array, but for some that
there are always. -/
lemma length_classChain (position length : Nat) :
    ∃ fixed each, ∀ count, (classChain (arrayBytes count) position length).length = fixed + count * each := by
  induction length generalizing position with
  | zero => exact ⟨0, 0, fun _ => rfl⟩
  | succ length ih =>
    obtain ⟨fixed, each, hlater⟩ := ih (position + 1)
    have hclass : ∀ count, (classBytes (arrayBytes count position)).length =
        7 + count * (referenceBytes position).length := by
      intro count
      have hname : (Mangle.identifier (ascii "a")).length = 2 := rfl
      have hletter : (ascii "C").length = 1 := rfl
      have hmark : (ascii "_").length = 1 := rfl
      have harray : (ascii "GSa").length = 3 := rfl
      rw [classBytes, arrayBytes]
      simp only [List.length_append, length_repeated, hname, hletter, hmark, harray]
      omega
    refine ⟨7 + fixed, (referenceBytes position).length + each, fun count => ?_⟩
    rw [classChain, List.length_append, hclass, hlater, Nat.mul_add]
    omega

end Sizes

end Grammar

open Grammar

/-- Classes in arrays of one another have a size of which the base grows with the name, and of which the
exponent is their number. -/
theorem demangle_arrayTower (settings : Settings)
    (hfew : Decimal.digitCount settings.maxNatural.toInt < Decimal.maxDigits)
    (hlength : 1 ≤ settings.maxNatural.toInt) (hbudget : 8 ≤ settings.maxDepth.toInt) {count length : Nat}
    (hcount : 0 < count) (hwithin : length ≤ settings.maxNatural.toInt) :
    ∃ root, demangle .type settings (.bytes (classTower (arrayBytes count) length)) = .tree root ∧
      count ^ length < root.size := by
  obtain ⟨budget, hdepth⟩ : ∃ budget, settings.maxDepth.toInt.toNat = budget + 8 :=
    Nat.exists_eq_add_of_le' (by omega)
  obtain ⟨elements, s, hread, helement⟩ :=
    classTower_read hfew hlength (refers_array hfew budget hcount) hwithin
  refine ⟨.branch .type [.branch .tuple elements], demangle_eq_tree_iff.2 ⟨s, ?_⟩, ?_⟩
  · rw [hdepth]
    exact hread
  · have hlast := size_iterate count length (nestedClass stdlibModule)
    have helements := Node.size_le_sizeAll helement
    have hbase : (nestedClass stdlibModule).size = 3 := rfl
    rw [typeElement, Node.size_branch_singleton, Node.size_branch_singleton] at helements
    rw [Node.size_branch_singleton, Node.size_branch]
    rw [hbase] at hlast
    omega

end SwiftMangling
