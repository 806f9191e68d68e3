import Mathlib.Tactic.Ring
import SwiftMangling.Proofs.DeepNames
import SwiftMangling.Proofs.TextFidelity
import SwiftMangling.Proofs.TypeNesting

/-!
# How high a tree can be

The budget bounds the levels of a tree by a polynomial, for each back-reference and for each byte after
the first compound member type. Neither can be left out: the member types of a compound one nest as deep
as the name is long, and a chain of back-references nests each recorded tree in the next.
-/

namespace SwiftMangling

open Mangle (ascii)

namespace Grammar

/-- The levels above those granted of what is read within a budget. -/
def lowLevels (budget : Nat) : Nat :=
  2 * budget ^ 2 + 7 * budget + 2

lemma lowLevels_succ (budget : Nat) :
    lowLevels (budget + 1) = lowLevels budget + 4 * budget + 9 := by
  unfold lowLevels
  ring

/-- Each unit of the budget allows a few levels more. -/
theorem shallow_parse {g : Grants} (hgranted : g.reach ≤ g.grant) (budget : Nat)
    (hroom : lowLevels budget + 3 ≤ g.reach) :
    Shallow g (lowLevels budget) (3 * budget) (parse budget) := by
  induction budget with
  | zero =>
    exact ⟨settled_parse 0, hgranted, Nat.le_refl 2, hroom, fun _ _ _ _ _ _ _ => trivial,
      fun _ _ _ _ _ _ _ _ => trivial⟩
  | succ budget ih =>
    have hsucc := lowLevels_succ budget
    have h := ih (by omega)
    have hfloor := h.floor
    refine ⟨settled_parse (budget + 1), hgranted, by omega, hroom, fun production hplain start => ?_,
      fun nominal height start hnominal => ?_⟩
    · cases production with
      | type => exact (Nests.typeNode h).upTo (by omega)
      | bareType => exact (Nests.bareType h).upTo (by omega)
      | context => exact (Nests.contextBody h).upTo (by omega)
      | entity => exact (Nests.entityBody h).upTo (by omega)
      | global => exact (Nests.globalBody h).upTo (by omega)
      | archetype => exact (Nests.archetypeBody h).upTo (by omega)
      | boundArguments nominal => exact absurd rfl (hplain nominal)
      | signature pseudogeneric => exact (Nests.signatureBody h pseudogeneric).upTo (by omega)
      | implFunction => exact (Nests.implFunctionBody h).upTo (by omega)
    · have hbody := Nests.boundArgumentsBody hnominal (h.plain .type nofun) h.boundArguments
      exact hbody.upTo (by omega)

end Grammar

/-- The levels that a budget allows for each grant. -/
def levelsWithin (budget : Nat) : Nat :=
  2 * budget ^ 2 + 7 * budget + 8

/-- What may nest without a use of a production: the back-references of a name, and the bytes from its
first compound member type on. -/
def MangledName.freeNesting (name : MangledName) : Nat :=
  Bytes.backReferences name.toBytes + (Bytes.fromCompound name.toBytes).length

/-- What is granted for a name under a budget. -/
def MangledName.grants (name : MangledName) (budget : Nat) : Grammar.Grants where
  name := name.toBytes
  grant := Grammar.lowLevels budget + 3
  reach := Grammar.lowLevels budget + 3

lemma MangledName.total_grants_le (name : MangledName) (budget : Nat) :
    (name.grants budget).total ≤ levelsWithin budget * name.freeNesting := by
  have hroom : Grammar.lowLevels budget + 6 = levelsWithin budget := rfl
  have hreferences : (Grammar.lowLevels budget + 3) * Bytes.backReferences name.toBytes ≤
      levelsWithin budget * Bytes.backReferences name.toBytes :=
    Nat.mul_le_mul_right _ (by omega)
  have hcompound : 2 * min name.toBytes.length (Bytes.fromCompound name.toBytes).length ≤
      levelsWithin budget * (Bytes.fromCompound name.toBytes).length :=
    Nat.mul_le_mul (by omega) (Nat.min_le_right ..)
  rw [freeNesting, Nat.mul_add]
  exact Nat.add_le_add hreferences hcompound

/-- The budget bounds the levels of a tree, for each back-reference in the name and for each byte from
the first `W` on; where there are none, by itself. -/
theorem demangle_height_le {form : Form} {settings : Settings} {name : MangledName} {root : Node}
    (htree : demangle form settings name = .tree root) :
    root.height ≤ levelsWithin settings.maxDepth.toInt.toNat * (name.freeNesting + 1) := by
  obtain ⟨s, hfound⟩ := demangle_eq_tree_iff.1 htree
  generalize settings.maxDepth.toInt.toNat = budget at hfound ⊢
  have hcall : Grammar.Shallow (name.grants budget) (Grammar.lowLevels budget) (3 * budget)
      (Grammar.parse budget) :=
    Grammar.shallow_parse (Nat.le_refl _) budget (Nat.le_refl _)
  have hfits : Grammar.Fits (name.grants budget) ⟨name.toBytes, []⟩ := ⟨List.suffix_refl _, nofun⟩
  have hends : Grammar.Ends (name.grants budget) (name.grants budget).total
      (Grammar.Within (name.grants budget) (levelsWithin budget)) (.found root s) := by
    rw [← hfound]
    cases form with
    | symbol => exact Grammar.Nests.symbol hcall _ _ hfits (Nat.le_refl _)
    | type =>
      have htype := hcall.plain .type nofun (name.grants budget).total
      exact htype.upTo (Nat.le_add_right _ 6) _ _ hfits (Nat.le_refl _)
  have hheight : root.height ≤ (name.grants budget).total + levelsWithin budget :=
    Nat.le_of_add_right_le hends.2
  have htotal := name.total_grants_le budget
  rw [Nat.mul_succ]
  omega

/-- Three classes, of which two are within the class that a reference stands for. -/
theorem demangle_tower_height_le :
    ∃ root, demangle .type { maxDepth := .number 5 } (.bytes (ascii "TCs1aCS_1aCS0_1a_")) = .tree root ∧
      root.height ≤ levelsWithin 5 * (2 + 1) := by
  have htree : (demangle .type { maxDepth := .number 5 }
      (.bytes (ascii "TCs1aCS_1aCS0_1a_"))).tree?.isSome = true := by decide +kernel
  obtain ⟨root, hroot⟩ := Option.isSome_iff_exists.1 htree
  have hdemangle := Verdict.eq_tree_of_tree? hroot
  exact ⟨root, hdemangle, demangle_height_le hdemangle⟩

/-- The budget alone bounds nothing: what it allows goes as deep as a compound member type is long, and
without those as deep as a chain of references, up to the limit of their indices. -/
theorem exists_height_gt :
    (¬∀ budget : Int, ∃ bound, ∀ form settings name root, settings.maxDepth.toInt = budget →
      demangle form settings name = .tree root → root.height ≤ bound) ∧
    ∀ bound ≤ 18446744073709551615, ∃ name root, 0x57 ∉ name.toBytes ∧
      demangle .type { maxDepth := .number 5 } name = .tree root ∧ bound < root.height := by
  constructor
  · intro hbounded
    obtain ⟨bound, hbound⟩ := hbounded 2
    let names : List Bytes := List.replicate bound (ascii "a")
    let settings : Settings := { maxDepth := .number 2 }
    have hnames : ∀ name ∈ names, name.NoDigit := by
      intro name hname
      rw [List.eq_of_mem_replicate hname]
      decide
    have hlengths : ∀ name ∈ names, name.length ≤ settings.maxNatural.toInt := by
      intro name hname
      rw [List.eq_of_mem_replicate hname]
      decide
    have htree := demangle_memberChain settings (by decide) (by decide) hnames hlengths
    have hle := hbound .type settings _ _ rfl htree
    have hchain := Grammar.height_memberChain (Grammar.genericParam 0 0) names
    have htype : (Grammar.memberChain (Grammar.genericParam 0 0) names).height <
        (Node.branch .type [Grammar.memberChain (Grammar.genericParam 0 0) names]).height :=
      Node.height_lt_branch ..
    rw [List.length_replicate] at hchain
    omega
  · intro bound hbound
    let settings : Settings := { maxDepth := .number 5 }
    have hcount : bound ≤ settings.maxNatural.toInt := Int.ofNat_le.2 hbound
    obtain ⟨root, htree, hheight⟩ :=
      demangle_classTower settings (by decide) (by decide) (by decide) hcount
    exact ⟨.bytes (Grammar.classTower Grammar.referenceBytes bound), root, Grammar.compound_not_mem_classTower bound, htree,
      hheight⟩

end SwiftMangling
