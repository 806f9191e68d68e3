import Mathlib.Tactic.Ring
import SwiftMangling.Proofs.TypePaying
import SwiftMangling.Proofs.WideNames

/-!
# How large a tree can be

A tree is no larger than a power of the length of its name, whatever the budget. The exponent is a few more
than the largest number, as a name can refer to no more nodes than there are numbers; and it has to be about
as large as that.
-/

namespace SwiftMangling

namespace Grammar

/-- The budget does not matter for what is paid. -/
theorem thrifty_parse (bytes top budget : Nat) : Thrifty bytes top (parse budget) := by
  induction budget with
  | zero => exact ⟨Pays.stop _, fun _ _ _ => Pays.stop _, fun _ => Pays.stop _⟩
  | succ budget h =>
    refine ⟨Pays.bareType h, fun production hbare hbound => ?_, Pays.boundArgumentsBody h⟩
    cases production with
    | type => exact Pays.typeNode h
    | bareType => exact absurd rfl hbare
    | context => exact Pays.contextBody h
    | entity => exact Pays.entityBody h
    | global => exact Pays.globalBody h
    | archetype => exact Pays.archetypeBody h
    | boundArguments nominal => exact absurd rfl (hbound nominal)
    | signature pseudogeneric => exact Pays.signatureBody h pseudogeneric
    | implFunction => exact Pays.implFunctionBody h

/-- All bytes at the highest price. -/
lemma price_last_mul_le (bytes top : Nat) :
    price bytes top (top + 1) * bytes ≤ (bytes + 16) ^ (top + 3) := by
  unfold price
  rw [Nat.min_self, Nat.pow_succ _ (top + 2)]
  exact Nat.mul_le_mul_left _ (Nat.le_add_right _ _)

end Grammar

open Mangle (ascii)
open Grammar

/-- The nodes of a tree are bounded by a power of the length of its name. -/
theorem demangle_size_le {form : Form} {settings : Settings} {name : MangledName} {root : Node}
    (htree : demangle form settings name = .tree root) :
    root.size ≤ (name.toBytes.length + 16) ^ ((settings.maxNatural.toInt + 1).toNat + 3) := by
  obtain ⟨s, hfound⟩ := demangle_eq_tree_iff.1 htree
  generalize settings.maxDepth.toInt.toNat = budget at hfound
  generalize name.toBytes = bytes at hfound ⊢
  generalize settings.maxNatural.toInt = limit at hfound ⊢
  have hcall := thrifty_parse bytes.length (limit + 1).toNat budget
  have hpays : Buys (flat bytes.length (limit + 1).toNat) 0 0 (form.parser (parse budget)) := by
    cases form with
    | symbol => exact Pays.symbol hcall
    | type =>
      exact (Pays.atHighest (hcall.plain .type nofun nofun)).within (Nat.le_refl 0) (by omega)
  have hcosts := hpays limit ⟨bytes, []⟩ (Int.self_le_toNat _) nofun fun _ _ => (Nat.zero_add _).le
  rw [show form.parser (parse budget) limit ⟨bytes, []⟩ = .found root s from hfound] at hcosts
  have hpaid : root.size + 0 + _ ≤ 0 + price bytes.length (limit + 1).toNat ((limit + 1).toNat + 1) *
      bytes.length := hcosts.2 _ (Nat.le_refl _)
  have hbytes := price_last_mul_le bytes.length (limit + 1).toNat
  omega

/-- For all settings, the lines of a written tree are bounded by a polynomial in the length of its name. -/
theorem exists_polynomial_lines (settings : Settings) :
    ∃ c k : Nat, ∀ form name root, demangle form settings name = .tree root →
      (root.lines 0).length ≤ c * (name.toBytes.length + 1) ^ k := by
  let exponent := (settings.maxNatural.toInt + 1).toNat + 3
  refine ⟨16 ^ exponent, exponent, fun form name root htree => ?_⟩
  calc (root.lines 0).length
      = root.size := Node.length_lines 0 root
    _ ≤ (name.toBytes.length + 16) ^ exponent := demangle_size_le htree
    _ ≤ (16 * (name.toBytes.length + 1)) ^ exponent := Nat.pow_le_pow_left (by omega) _
    _ = 16 ^ exponent * (name.toBytes.length + 1) ^ exponent := Nat.mul_pow ..

/-- Three classes, of which the last two are in arrays that refer twice to the one before. -/
theorem polynomial_lines_arrays :
    ∃ c k root, demangle .type {} (.bytes (ascii "TCs1aCGSaS_S__1aCGSaS0_S0__1a_")) = .tree root ∧
      (root.lines 0).length ≤ c * 31 ^ k := by
  have htree : (demangle .type {}
      (.bytes (ascii "TCs1aCGSaS_S__1aCGSaS0_S0__1a_"))).tree?.isSome = true := by decide +kernel
  obtain ⟨root, hroot⟩ := Option.isSome_iff_exists.1 htree
  have hdemangle := Verdict.eq_tree_of_tree? hroot
  obtain ⟨c, k, hlines⟩ := exists_polynomial_lines {}
  exact ⟨c, k, root, hdemangle, hlines .type _ root hdemangle⟩

/-- By default no exponent below the largest number bounds the lines of a tree, whatever the factor. -/
theorem exists_lines_gt {k : Nat} (hk : k < 18446744073709551615) (c : Nat) :
    ∃ name root, demangle .type {} name = .tree root ∧
      c * (name.toBytes.length + 1) ^ k < (root.lines 0).length := by
  obtain ⟨fixed, each, hchain⟩ := length_classChain 0 (k + 1)
  let base := fixed + each + 7
  let count := c * base ^ k + 1
  have hlimit : k + 1 ≤ ({} : Settings).maxNatural.toInt := by
    show (k : Int) + 1 ≤ 18446744073709551615
    omega
  obtain ⟨root, htree, hsize⟩ :=
    demangle_arrayTower {} (by decide) (by decide) (by decide) (Nat.succ_pos (c * base ^ k)) hlimit
  have hlength : (classTower (arrayBytes count) (k + 1)).length + 1 ≤ base * count := by
    have hfixed : fixed + 7 ≤ (fixed + 7) * count := Nat.le_mul_of_pos_right _ (Nat.succ_pos _)
    have hletter : (ascii "T").length = 1 := rfl
    have hmark : (ascii "_").length = 1 := rfl
    have hclass : (classBytes (ascii "s")).length = 4 := rfl
    have hbase : base * count = (fixed + 7) * count + count * each := by
      show (fixed + each + 7) * count = _
      ring
    rw [classTower, List.length_append, List.length_append, List.length_append, hchain, hletter, hmark,
      hclass, hbase]
    omega
  refine ⟨_, root, htree, ?_⟩
  rw [Node.length_lines]
  calc c * ((classTower (arrayBytes count) (k + 1)).length + 1) ^ k
      ≤ c * (base * count) ^ k := Nat.mul_le_mul_left _ (Nat.pow_le_pow_left hlength k)
    _ = c * base ^ k * count ^ k := by rw [Nat.mul_pow, Nat.mul_assoc]
    _ ≤ count * count ^ k := Nat.mul_le_mul_right _ (Nat.le_succ _)
    _ = count ^ (k + 1) := (Nat.pow_succ').symm
    _ < root.size := hsize

end SwiftMangling
