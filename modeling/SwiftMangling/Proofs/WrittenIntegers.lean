import SwiftMangling.Proofs.WrittenNumbers
import SwiftMangling.Proofs.WrittenTrees
import SwiftMangling.Text.Numeral

/-!
# Integers are read as they are written

An integer is written in decimal digits after an optional minus sign. People may write it in many other
ways, and the reader of their numerals reads this one too: the digits stand for themselves, no prefix
gives another base, and no zero stands before other digits. Hexadecimal digits after their prefix are
read as well, and there may be any number of them.
-/

namespace SwiftMangling

/-- Nothing is dropped of a text in which there is nothing to drop. -/
lemma Text.trim_eq_self {drop : CodePoint → Bool} {t : Text} (h : ∀ c ∈ t, drop c = false) :
    trim drop t = t := by
  have hkept : ∀ t : Text, (∀ c ∈ t, drop c = false) → t.dropWhile drop = t := by
    intro t ht
    cases t with
    | nil => rfl
    | cons c cs =>
      have hc : ¬drop c = true := by simp [ht c List.mem_cons_self]
      rw [List.dropWhile_cons_of_neg hc]
  rw [trim, hkept t h, hkept t.reverse fun c hc => h c (List.mem_reverse.1 hc), List.reverse_reverse]

namespace Decimal

lemma isDigit_of_mem_toDigits {n : Nat} {c : Char} (hc : c ∈ Nat.toDigits 10 n) : c.isDigit = true :=
  Nat.isDigit_of_mem_toDigits (by omega) (by omega) hc

/-- The numbers of the digits. -/
lemma toNat_of_isDigit {c : Char} (h : c.isDigit = true) : 0x30 ≤ c.toNat ∧ c.toNat ≤ 0x39 := by
  simpa [Char.isDigit, UInt32.le_iff_toNat_le] using h

/-- The characters of written integers are visible characters of ASCII. -/
lemma toNat_of_mem_ofInt {i : Int} {c : Char} (hc : c ∈ ofInt i) : 0x2D ≤ c.toNat ∧ c.toNat ≤ 0x39 := by
  obtain rfl | hdigit := mem_ofInt hc
  · decide
  · have h := toNat_of_isDigit hdigit
    omega

end Decimal

namespace Numeral

open Decimal

/-- The characters of written integers stand for themselves. -/
lemma asciiForm_ofChar {c : Char} (hc : c.toNat < 0x7F) : asciiForm (CodePoint.ofChar c) = c := by
  have hval : (CodePoint.ofChar c).val = c.toNat := rfl
  rw [asciiForm, hval, if_pos hc, Char.ofNat_toNat]

lemma map_asciiForm_text (i : Int) : (Decimal.text i).map asciiForm = ofInt i := by
  have hsame : ∀ c ∈ ofInt i, (asciiForm ∘ CodePoint.ofChar) c = id c := by
    intro c hc
    have hc := toNat_of_mem_ofInt hc
    exact asciiForm_ofChar (by omega)
  rw [Decimal.text, List.map_map, List.map_congr_left hsame, List.map_id]

lemma isBlank_eq_false {c : CodePoint} (hc : 0x21 ≤ c.val ∧ c.val ≤ 0x7F) : Text.isBlank c = false := by
  simp only [Text.isBlank, Text.blankRuns, List.any_cons, List.any_nil, Bool.or_false,
    Bool.or_eq_false_iff, Bool.and_eq_false_iff, decide_eq_false_iff_not]
  omega

lemma trim_text (i : Int) : Text.trim isOuterBlank (Decimal.text i) = Decimal.text i := by
  refine Text.trim_eq_self fun c hc => ?_
  obtain ⟨letter, hletter, rfl⟩ := List.mem_map.1 hc
  have hbounds := toNat_of_mem_ofInt hletter
  have hval : (CodePoint.ofChar letter).val = letter.toNat := rfl
  rw [isOuterBlank, isBlank_eq_false (by omega), Bool.false_and]

/-- The digits of a base, up to sixteen. -/
lemma of_digitChar {d : Nat} (hd : d < 16) : digitOf? d.digitChar = some d ∧
    0x30 ≤ d.digitChar.toNat ∧ d.digitChar.toNat ≤ 0x66 ∧ d.digitChar.toNat ≠ 0x3D := by
  revert d
  decide

section Base

variable {base : Nat} (hbase : 1 < base)

include hbase in
lemma exists_of_mem_toDigits {n : Nat} {c : Char} (hc : c ∈ Nat.toDigits base n) :
    ∃ d < base, c = d.digitChar := by
  induction n using Nat.strongRecOn with
  | ind n ih =>
    by_cases hsmall : n < base
    · rw [Nat.toDigits_of_lt_base hsmall, List.mem_singleton] at hc
      exact ⟨n, hsmall, hc⟩
    · rw [Nat.toDigits_of_base_le hbase (Nat.not_lt.1 hsmall)] at hc
      obtain hc | hc := List.mem_append.1 hc
      · exact ih (n / base) (Nat.div_lt_self (by omega) hbase) hc
      · exact ⟨n % base, Nat.mod_lt n (by omega), List.mem_singleton.1 hc⟩

lemma valueIn_concat (digits : List Char) (c : Char) :
    valueIn base (digits ++ [c]) = base * valueIn base digits + (digitOf? c).getD 0 := by
  rw [valueIn, List.foldl_append]
  rfl

variable (hdigit : base ≤ 16)

include hbase hdigit

lemma isDigitIn_of_mem_toDigits {n : Nat} {c : Char} (hc : c ∈ Nat.toDigits base n) :
    isDigitIn base c = true := by
  obtain ⟨d, hd, rfl⟩ := exists_of_mem_toDigits hbase hc
  rw [isDigitIn, (of_digitChar (Nat.lt_of_lt_of_le hd hdigit)).1, Option.any_some]
  exact decide_eq_true hd

lemma valueIn_toDigits (n : Nat) : valueIn base (Nat.toDigits base n) = n := by
  induction n using Nat.strongRecOn with
  | ind n ih =>
    by_cases hsmall : n < base
    · have hn := (of_digitChar (Nat.lt_of_lt_of_le hsmall hdigit)).1
      rw [Nat.toDigits_of_lt_base hsmall, ← List.nil_append [n.digitChar], valueIn_concat, hn]
      exact Nat.zero_add n
    · have hlast := (of_digitChar (Nat.lt_of_lt_of_le (Nat.mod_lt n (by omega)) hdigit)).1
      rw [Nat.toDigits_of_base_le hbase (Nat.not_lt.1 hsmall), valueIn_concat, hlast,
        ih (n / base) (Nat.div_lt_self (by omega) hbase)]
      exact Nat.div_add_mod n base

/-- The digits of a number are one group, in which no underscore stands. -/
lemma spanNumerals_toDigits (n : Nat) :
    spanNumerals base (Nat.toDigits base n) = some (Nat.toDigits base n, []) := by
  have hin : ∀ c ∈ Nat.toDigits base n, (isDigitIn base c || decide (c = '_')) = true := by
    intro c hc
    rw [isDigitIn_of_mem_toDigits hbase hdigit hc, Bool.true_or]
  have hgroup : (Nat.toDigits base n).splitOnP (fun c => decide (c = '_')) = [Nat.toDigits base n] := by
    refine List.splitOnP_eq_singleton fun c hc => decide_eq_false ?_
    rintro rfl
    cases isDigitIn_of_mem_toDigits hbase hdigit hc
  have hsome : (!(Nat.toDigits base n).isEmpty) = true := by simp
  simp only [spanNumerals, List.takeWhile_eq_self_iff.2 hin, List.dropWhile_eq_nil_iff.2 hin, hgroup,
    List.all_cons, List.all_nil, hsome, Bool.and_self, if_true, List.flatten_cons, List.flatten_nil,
    List.append_nil]

end Base

/-- Without a zero in front there is no prefix. -/
lemma splitBase_of_ne_zero {c : Char} (hc : c ≠ '0') (rest : List Char) :
    splitBase (c :: rest) = (10, c :: rest) := by
  unfold splitBase
  split
  · next h => exact absurd (List.cons.inj h).1 hc
  · rfl

/-- The digits of a number are read, if they are not too many. -/
lemma unsigned?_toDigits {n : Nat} (hn : (Nat.toDigits 10 n).length ≤ maxDigits) :
    unsigned? (Nat.toDigits 10 n) = .ok n := by
  obtain rfl | hpos := Nat.eq_zero_or_pos n
  · rfl
  · obtain ⟨c, rest, hdigits, hbyte⟩ := Mangle.head_toDigits hpos
    have hc : c ≠ '0' := by
      rintro rfl
      exact hbyte rfl
    have hbase : splitBase (Nat.toDigits 10 n) = (10, Nat.toDigits 10 n) := by
      rw [hdigits, splitBase_of_ne_zero hc]
    have hten : 1 < 10 := by decide
    have hspan := spanNumerals_toDigits hten (by decide) n
    have hvalue := valueIn_toDigits hten (by decide) n
    have hhead : (Nat.toDigits 10 n).head? ≠ some '0' := by
      rw [hdigits, List.head?_cons]
      exact fun h => hc (Option.some.inj h)
    simp only [unsigned?, hbase, hspan, hvalue]
    rw [if_neg (by omega), if_neg fun h => hhead h.2.1, if_pos List.isEmpty_nil]

/-- An integer that is not overlong is read as it is written. -/
theorem int?_text {i : Int} (hi : isWritable i) : int? (Decimal.text i) = .ok i := by
  have hdigits : digitCount i ≤ maxDigits := of_decide_eq_true hi
  unfold int?
  rw [trim_text, map_asciiForm_text]
  cases i with
  | ofNat n =>
    have hread := unsigned?_toDigits (n := n) hdigits
    -- The first character is a digit, so that it is no sign.
    obtain ⟨c, rest, hfirst⟩ := List.exists_cons_of_ne_nil (Nat.toDigits_ne_nil (b := 10) (n := n))
    have hc : c.isDigit = true := isDigit_of_mem_toDigits (n := n) (hfirst ▸ List.mem_cons_self)
    rw [show ofInt (.ofNat n) = Nat.toDigits 10 n from rfl]
    split
    · next h =>
      rw [h] at hfirst
      rw [← (List.cons.inj hfirst).1] at hc
      cases hc
    · next h =>
      rw [h] at hfirst
      rw [← (List.cons.inj hfirst).1] at hc
      cases hc
    · rw [hread]
      rfl
  | negSucc n =>
    have hread := unsigned?_toDigits (n := n + 1) hdigits
    show (unsigned? (Nat.toDigits 10 (n + 1))).map (fun n => -(n : Int)) = _
    rw [hread]
    rfl

/-- A number in hexadecimal digits after their prefix. -/
def hexadecimal (n : Nat) : Text :=
  "0x" ++ (Nat.toDigits 16 n).map CodePoint.ofChar

lemma of_mem_hexadecimal {n : Nat} {c : CodePoint} (hc : c ∈ hexadecimal n) :
    0x30 ≤ c.val ∧ c.val ≤ 0x78 ∧ c.val ≠ 0x3D := by
  have hmark : ∀ c ∈ (("0x" : String) : Text), 0x30 ≤ c.val ∧ c.val ≤ 0x78 ∧ c.val ≠ 0x3D :=
    List.forall_mem_cons.2 ⟨by decide, List.forall_mem_singleton.2 (by decide)⟩
  obtain hc | hc := List.mem_append.1 hc
  · exact hmark c hc
  · obtain ⟨letter, hletter, rfl⟩ := List.mem_map.1 hc
    obtain ⟨d, hd, rfl⟩ := exists_of_mem_toDigits (by omega) hletter
    obtain ⟨-, hlow, hhigh, hne⟩ := of_digitChar hd
    have hval : (CodePoint.ofChar d.digitChar).val = d.digitChar.toNat := rfl
    omega

lemma map_asciiForm_hexadecimal (n : Nat) :
    (hexadecimal n).map asciiForm = '0' :: 'x' :: Nat.toDigits 16 n := by
  have hsame : ∀ c ∈ Nat.toDigits 16 n, (asciiForm ∘ CodePoint.ofChar) c = id c := by
    intro c hc
    obtain ⟨d, hd, rfl⟩ := exists_of_mem_toDigits (by omega) hc
    have hbound := (of_digitChar hd).2.2.1
    exact asciiForm_ofChar (by omega)
  rw [hexadecimal, List.map_append, List.map_map, List.map_congr_left hsame, List.map_id]
  rfl

lemma splitBase_hexadecimal {c : Char} (hc : c ≠ '_') (rest : List Char) :
    splitBase ('0' :: 'x' :: c :: rest) = (16, c :: rest) := by
  unfold splitBase
  split
  · next letter body h =>
    cases h
    rw [if_pos (.inl rfl)]
    split
    · next h => exact absurd (List.cons.inj h).1 hc
    · rfl
  · next h => exact absurd rfl (h 'x' (c :: rest))

/-- Hexadecimal digits are read, however many there are. -/
theorem int?_hexadecimal (n : Nat) : int? (hexadecimal n) = .ok n := by
  have htrim : Text.trim isOuterBlank (hexadecimal n) = hexadecimal n := by
    refine Text.trim_eq_self fun c hc => ?_
    have hbounds := of_mem_hexadecimal hc
    rw [isOuterBlank, isBlank_eq_false (by omega), Bool.false_and]
  have hsixteen : 1 < 16 := by decide
  have hspan := spanNumerals_toDigits hsixteen (Nat.le_refl 16) n
  have hvalue := valueIn_toDigits hsixteen (Nat.le_refl 16) n
  have hunsigned : unsigned? ('0' :: 'x' :: Nat.toDigits 16 n) = .ok n := by
    have hbase : splitBase ('0' :: 'x' :: Nat.toDigits 16 n) = (16, Nat.toDigits 16 n) := by
      obtain ⟨c, rest, hdigits⟩ := List.exists_cons_of_ne_nil (Nat.toDigits_ne_nil (b := 16) (n := n))
      have hmem : c ∈ Nat.toDigits 16 n := hdigits ▸ List.mem_cons_self
      have hc := isDigitIn_of_mem_toDigits hsixteen (Nat.le_refl 16) hmem
      rw [hdigits, splitBase_hexadecimal]
      rintro rfl
      cases hc
    simp only [unsigned?, hbase, hspan, hvalue]
    rfl
  unfold int?
  rw [htrim, map_asciiForm_hexadecimal]
  show (unsigned? ('0' :: 'x' :: Nat.toDigits 16 n)).map (fun n => (n : Int)) = _
  rw [hunsigned]
  rfl

end Numeral

end SwiftMangling
