import Mathlib.Data.Nat.Digits.Defs
import SwiftMangling.Grammar.Generic
import SwiftMangling.Proofs.WrittenIntegers

/-!
# A generic parameter is told by its name

The letters of a name are digits of the index in base 26, the least significant first; an index of zero
has one letter all the same. The depth is written after them, and nothing in a written number is a
letter. So the letters of a name are found again without knowing how many there are, they spell the
index, and what is left of the name is the depth.
-/

namespace SwiftMangling

/-- The capital letters of ASCII. -/
def CodePoint.isCapital (c : CodePoint) : Bool :=
  0x41 ≤ c.val && c.val ≤ 0x5A

/-- The capital letters of a text, in order. -/
def Text.capitals (t : Text) : Text :=
  t.filter CodePoint.isCapital

/-- The number that letters spell in base 26, the least significant first: A stands for 0 and Z for
25. -/
def Text.base26 (letters : Text) : Nat :=
  Nat.ofDigits 26 (letters.map fun c => c.val - 0x41)

lemma CodePoint.val_letter {digit : Nat} (h : digit < 26) :
    (CodePoint.ofChar (Char.ofNat (0x41 + digit))).val = 0x41 + digit := by
  have hvalid : (0x41 + digit).isValidChar := .inl (by omega)
  show (Char.ofNat (0x41 + digit)).toNat = _
  rw [Char.ofNat, dif_pos hvalid]
  rfl

/-- The letters of an index as a text. -/
def indexLetters (index : Nat) : Text :=
  (archetypeLetters (index + 1) index).map CodePoint.ofChar

/-- What stands for a depth after the letters. -/
def depthMark (depth : Int) : Text :=
  if depth = 0 then [] else Decimal.text depth

lemma archetypeName_eq (index : Nat) (depth : Int) :
    archetypeName index depth = indexLetters index ++ depthMark depth := by
  unfold archetypeName indexLetters depthMark Decimal.text
  by_cases hdepth : depth = 0
  · simp only [if_pos hdepth, List.append_nil]
  · simp only [if_neg hdepth, List.map_append]

/-- Each round of the loop emits one letter, whatever the number. -/
lemma isCapital_of_mem_letters {bound n : Nat} {c : CodePoint}
    (hc : c ∈ (archetypeLetters bound n).map CodePoint.ofChar) : c.isCapital = true := by
  induction bound generalizing n with
  | zero => cases hc
  | succ bound ih =>
    rw [archetypeLetters, List.map_cons] at hc
    obtain rfl | hc := List.mem_cons.1 hc
    · have hdigit : n % 26 < 26 := Nat.mod_lt n (by omega)
      simp only [CodePoint.isCapital, CodePoint.val_letter hdigit, Bool.and_eq_true,
        decide_eq_true_eq]
      omega
    · split at hc
      · cases hc
      · exact ih hc

/-- The letters that are still to come spell the quotient, so all of them spell the number. The bound
only has to be above the number, as it goes down by one where the number is divided by 26. -/
lemma base26_letters {bound n : Nat} (h : n < bound) :
    Text.base26 ((archetypeLetters bound n).map CodePoint.ofChar) = n := by
  induction bound generalizing n with
  | zero => omega
  | succ bound ih =>
    have hdigit : n % 26 < 26 := Nat.mod_lt n (by omega)
    have hsplit : n % 26 + 26 * (n / 26) = n := Nat.mod_add_div n 26
    rw [archetypeLetters, Text.base26, List.map_cons, List.map_cons, Nat.ofDigits_cons,
      CodePoint.val_letter hdigit, Nat.add_sub_cancel_left]
    by_cases hlast : n / 26 = 0
    · rw [if_pos hlast, List.map_nil, List.map_nil, Nat.ofDigits_nil, ← hlast]
      exact hsplit
    · have hquotient : n / 26 < bound := by omega
      have hlater := ih hquotient
      rw [Text.base26] at hlater
      rw [if_neg hlast, hlater]
      exact hsplit

lemma isCapital_of_mem_depthMark {depth : Int} {c : CodePoint} (hc : c ∈ depthMark depth) :
    c.isCapital = false := by
  unfold depthMark at hc
  split at hc
  · cases hc
  · obtain ⟨character, hcharacter, rfl⟩ := List.mem_map.1 hc
    have hbelow : (CodePoint.ofChar character).val ≤ 0x39 :=
      (Decimal.toNat_of_mem_ofInt hcharacter).2
    simp only [CodePoint.isCapital, Bool.and_eq_false_iff, decide_eq_false_iff_not]
    omega

lemma capitals_archetypeName (index : Nat) (depth : Int) :
    (archetypeName index depth).capitals = indexLetters index := by
  have hletters : (indexLetters index).filter CodePoint.isCapital = indexLetters index :=
    List.filter_eq_self.2 fun _ => isCapital_of_mem_letters
  have hdepth : (depthMark depth).filter CodePoint.isCapital = [] :=
    List.filter_eq_nil_iff.2 fun c hc => by simp [isCapital_of_mem_depthMark hc]
  rw [archetypeName_eq, Text.capitals, List.filter_append, hletters, hdepth, List.append_nil]

lemma base26_capitals (index : Nat) (depth : Int) :
    (archetypeName index depth).capitals.base26 = index := by
  rw [capitals_archetypeName]
  exact base26_letters (Nat.lt_succ_self index)

/-- Nothing stands for a depth of zero only. -/
lemma depthMark_injective : Function.Injective depthMark := by
  have hwritten : ∀ depth : Int, Decimal.text depth ≠ [] := by
    intro depth h
    cases depth with
    | ofNat n => exact Nat.toDigits_ne_nil (List.map_eq_nil_iff.1 h)
    | negSucc n => cases h
  intro depth depth' h
  unfold depthMark at h
  by_cases hdepth : depth = 0
  · by_cases hdepth' : depth' = 0
    · rw [hdepth, hdepth']
    · rw [if_pos hdepth, if_neg hdepth'] at h
      exact absurd h.symm (hwritten depth')
  · by_cases hdepth' : depth' = 0
    · rw [if_neg hdepth, if_pos hdepth'] at h
      exact absurd h (hwritten depth)
    · rw [if_neg hdepth, if_neg hdepth'] at h
      exact Decimal.text_injective h

/-- The letters of a name tell the index, and what follows them tells the depth. -/
lemma archetypeName_inj {index index' : Nat} {depth depth' : Int} :
    archetypeName index depth = archetypeName index' depth' ↔ index = index' ∧ depth = depth' := by
  constructor
  · intro h
    have hindex : index = index' := by
      rw [← base26_capitals index depth, h, base26_capitals]
    subst hindex
    rw [archetypeName_eq, archetypeName_eq] at h
    exact ⟨rfl, depthMark_injective (List.append_cancel_left h)⟩
  · rintro ⟨rfl, rfl⟩
    rfl

lemma archetypeName?_eq_some_iff {index : Nat} {depth : Int} {name : Text} :
    archetypeName? index depth = some name ↔
      Decimal.digitCount depth ≤ Decimal.maxDigits ∧ archetypeName index depth = name := by
  simp only [archetypeName?, Decimal.isWritable, decide_eq_true_eq, Option.ite_none_right_eq_some,
    Option.some.injEq]

/-- Two names are the same only if index and depth are, and the letters of a name spell the index; there
is a name unless the depth is overlong. So different generic parameters are shown under different
names. -/
theorem archetypeName?_unique :
    (∀ (index index' : Nat) (depth depth' : Int),
      (∃ name, archetypeName? index depth = some name ∧ archetypeName? index' depth' = some name) ↔
        index = index' ∧ depth = depth' ∧ Decimal.digitCount depth ≤ Decimal.maxDigits) ∧
    (∀ (index : Nat) (depth : Int),
      (archetypeName? index depth).map (fun name => name.capitals.base26) =
        if Decimal.digitCount depth ≤ Decimal.maxDigits then some index else none) ∧
    (∀ depth index depth' index' : Nat,
      (Grammar.genericParam depth index).text? = (Grammar.genericParam depth' index').text? ↔
        depth = depth' ∧ index = index') := by
  refine ⟨fun index index' depth depth' => ?_, fun index depth => ?_,
    fun depth index depth' index' => ?_⟩
  · constructor
    · rintro ⟨name, hname, hname'⟩
      obtain ⟨hwritable, hname⟩ := archetypeName?_eq_some_iff.1 hname
      obtain ⟨-, hname'⟩ := archetypeName?_eq_some_iff.1 hname'
      obtain ⟨hindex, hdepth⟩ := archetypeName_inj.1 (hname.trans hname'.symm)
      exact ⟨hindex, hdepth, hwritable⟩
    · rintro ⟨rfl, rfl, hwritable⟩
      have hname : archetypeName? index depth = some (archetypeName index depth) :=
        archetypeName?_eq_some_iff.2 ⟨hwritable, rfl⟩
      exact ⟨_, hname, hname⟩
  · by_cases hwritable : Decimal.digitCount depth ≤ Decimal.maxDigits
    · rw [if_pos hwritable, archetypeName?_eq_some_iff.2 ⟨hwritable, rfl⟩, Option.map_some,
        base26_capitals]
    · have hnone : archetypeName? index depth = none :=
        Option.eq_none_iff_forall_ne_some.2 fun name hname =>
          hwritable (archetypeName?_eq_some_iff.1 hname).1
      rw [if_neg hwritable, hnone, Option.map_none]
  · have htext : ∀ depth index : Nat, (Grammar.genericParam depth index).text? =
        some (archetypeName index depth) := fun _ _ => rfl
    rw [htext, htext, Option.some.injEq, archetypeName_inj, Int.ofNat_inj, and_comm]

/-- The letters run on with the next one first, and a depth of zero is not written. -/
example : archetypeName? 27 0 = some "BB" ∧ archetypeName? 26 1 = some "AB1" ∧
    archetypeName? 1 11 = some "B11" := by
  decide

end SwiftMangling
