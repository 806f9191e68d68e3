import SwiftMangling.Proofs.WrittenNumbers
import Mathlib.Data.List.Induction

/-!
# Numbers under a limit

A run of digits that is longer than the written limit is not converted: its first significant digit
alone puts it above the limit. Every other run is converted and compared. So a run is read as the number
that it spells up to the limit and is refused above it, but for numbers with more digits than are
written, which are neither converted nor compared.
-/

namespace SwiftMangling

lemma Bytes.toNat_of_isDigit {b : UInt8} (h : isDigit b) : 0x30 ≤ b.toNat ∧ b.toNat ≤ 0x39 := by
  simpa [isDigit, UInt8.le_iff_toNat_le] using h

namespace Decimal

lemma value_concat (digits : Bytes) (b : UInt8) :
    value (digits ++ [b]) = 10 * value digits + (b.toNat - 0x30) := by
  rw [value, List.foldl_append]
  rfl

/-- A first digit other than zero makes a number as large as the digits after it are many. -/
lemma pow_le_value {b : UInt8} {digits : Bytes} (hb : Bytes.isDigit b) (hne : b ≠ 0x30) :
    10 ^ digits.length ≤ value (b :: digits) := by
  induction digits using List.reverseRecOn with
  | nil =>
    have hdigit := (Bytes.toNat_of_isDigit hb).1
    have hzero : b.toNat ≠ 0x30 := fun h => hne (UInt8.toNat_inj.1 h)
    have hvalue : value [b] = 10 * 0 + (b.toNat - 0x30) := rfl
    rw [hvalue, List.length_nil, Nat.pow_zero]
    omega
  | append_singleton digits c ih =>
    rw [← List.cons_append, value_concat, List.length_append, List.length_singleton, Nat.pow_succ]
    omega

lemma natAbs_lt (i : Int) : i.natAbs < 10 ^ digitCount i :=
  (digitCount_le_iff Nat.length_toDigits_pos).1 (Nat.le_refl (digitCount i.natAbs))

lemma digitCount_le_length (i : Int) : digitCount i ≤ (ofInt i).length := by
  cases i with
  | ofNat n => exact Nat.le_refl _
  | negSucc n => exact Nat.le_succ _

/-- A sign is written in front of a negative number, and only there. -/
lemma neg_of_digitCount_lt {i : Int} (h : digitCount i < (ofInt i).length) : i < 0 := by
  cases i with
  | ofNat n => exact absurd h (Nat.lt_irrefl _)
  | negSucc n => exact Int.negSucc_lt_zero n

lemma length_ofInt_of_neg {i : Int} (h : i < 0) : (ofInt i).length = digitCount i + 1 := by
  cases i with
  | ofNat n => exact absurd h (Int.not_lt.2 (Int.natCast_nonneg n))
  | negSucc n => rfl

/-- More significant digits than the written limit has characters make a number above the limit. -/
lemma lt_value_of_length {limit : Int} {digits : Bytes} (hdigits : ∀ b ∈ digits, Bytes.isDigit b)
    (hlonger : (ofInt limit).length < (digits.dropWhile (· == 0x30)).length) :
    limit < value digits := by
  have hsignificant := isDigit_of_mem_significant hdigits
  have hhead := List.head?_dropWhile_not (· == (0x30 : UInt8)) digits
  rw [← value_dropWhile_zero]
  obtain ⟨b, rest, hrun⟩ := List.exists_cons_of_length_pos (Nat.zero_lt_of_lt hlonger)
  rw [hrun] at hhead hlonger hsignificant ⊢
  have hb : b ≠ 0x30 := by simpa using hhead
  have hfew : digitCount limit ≤ rest.length :=
    Nat.le_of_lt_succ (Nat.lt_of_le_of_lt (digitCount_le_length limit) hlonger)
  have hlt : limit.natAbs < value (b :: rest) :=
    calc limit.natAbs < 10 ^ digitCount limit := natAbs_lt limit
      _ ≤ 10 ^ rest.length := Nat.pow_le_pow_right (by omega) hfew
      _ ≤ value (b :: rest) := pow_le_value (hsignificant b List.mem_cons_self) hb
  omega

/-- The limit has more digits than are written. Or it is negative and has just as many, and the run has
one more: then it is no longer than the written limit, in which the sign counts. -/
def Overlong (limit : Int) (digits : Bytes) : Prop :=
  ¬isWritable limit ∨
    limit < 0 ∧ digitCount limit = maxDigits ∧ (digits.dropWhile (· == 0x30)).length = maxDigits + 1

instance (limit : Int) (digits : Bytes) : Decidable (Overlong limit digits) :=
  inferInstanceAs (Decidable (_ ∨ _))

/-- The significant digits of a run spell the number of the run, and nothing at all stands for zero. -/
lemma number?_significant {digits : Bytes} (hdigits : ∀ b ∈ digits, Bytes.isDigit b) :
    number? (if (digits.dropWhile (· == 0x30)).isEmpty then [0x30] else digits.dropWhile (· == 0x30)) =
      some (value digits) := by
  have hvalue := value_dropWhile_zero digits
  have hsignificant := isDigit_of_mem_significant hdigits
  cases hrun : digits.dropWhile (· == 0x30) with
  | nil =>
    rw [hrun] at hvalue
    rw [← hvalue]
    rfl
  | cons b rest =>
    rw [hrun] at hvalue hsignificant
    rw [← hvalue]
    exact number?_eq_some (List.cons_ne_nil b rest) hsignificant

/-- Under a limit that can be written, the runs that are overlong are no longer than the limit and have
more digits than are written. -/
lemma overlong_iff {limit : Int} (hwritable : isWritable limit) (digits : Bytes) :
    Overlong limit digits ↔ maxDigits < (digits.dropWhile (· == 0x30)).length ∧
      (digits.dropWhile (· == 0x30)).length ≤ (ofInt limit).length := by
  have hcount : digitCount limit ≤ maxDigits := of_decide_eq_true hwritable
  have hsign := length_ofInt_le limit
  constructor
  · rintro (h | ⟨hneg, hmost, hrun⟩)
    · exact absurd hwritable h
    · rw [length_ofInt_of_neg hneg]
      omega
  · rintro ⟨hmost, hfits⟩
    exact .inr ⟨neg_of_digitCount_lt (by omega), by omega, by omega⟩

/-- A run of digits is compared with the limit by the number that it spells. -/
lemma bounded_eq (limit : Int) {digits : Bytes} (hdigits : ∀ b ∈ digits, Bytes.isDigit b) :
    bounded limit digits =
      if Overlong limit digits then .overlong
      else if value digits ≤ limit then .within (value digits) else .beyond := by
  unfold bounded
  simp only [number?_significant hdigits]
  by_cases hwritable : isWritable limit
  · have hoverlong := overlong_iff hwritable digits
    rw [if_neg (by simp [hwritable])]
    by_cases hlonger : (ofInt limit).length < (digits.dropWhile (· == 0x30)).length
    · have hbeyond := lt_value_of_length hdigits hlonger
      rw [if_pos hlonger, if_neg fun h => Nat.not_le.2 hlonger (hoverlong.1 h).2,
        if_neg (Int.not_le.2 hbeyond)]
    · rw [if_neg hlonger]
      by_cases hmost : maxDigits < (digits.dropWhile (· == 0x30)).length
      · rw [if_pos hmost, if_pos (hoverlong.2 ⟨hmost, Nat.not_lt.1 hlonger⟩)]
      · rw [if_neg hmost, if_neg fun h => hmost (hoverlong.1 h).1]
        by_cases hn : (value digits : Int) ≤ limit
        · rw [if_neg (Int.not_lt.2 hn), if_pos hn]
        · rw [if_pos (Int.not_le.1 hn), if_neg hn]
  · rw [if_pos (by simp [hwritable]), if_pos (.inl hwritable)]

end Decimal

namespace Grammar

open Decimal

variable (limit : Int) (nodes : References Node)

/-- A run of digits that no digit follows is taken whole, and is read up to the limit. -/
lemma natural_eq {digits rest : Bytes} (hdigits : ∀ b ∈ digits, Bytes.isDigit b) (hne : digits ≠ [])
    (hrest : rest = [] ∨ rest.NoDigit) :
    natural limit ⟨digits ++ rest, nodes⟩ =
      if Overlong limit digits then .stopped .overlong
      else if value digits ≤ limit then .found (value digits) ⟨rest, nodes⟩
      else .refused ⟨rest, nodes⟩ := by
  rw [natural_digits nodes limit hdigits hne hrest, bounded_eq limit hdigits]
  by_cases hoverlong : Overlong limit digits
  · simp only [if_pos hoverlong]
  · by_cases hn : (value digits : Int) ≤ limit
    · simp only [if_neg hoverlong, if_pos hn]
    · simp only [if_neg hoverlong, if_neg hn]

/-- Under a limit with too many digits to be written, no run of digits is read. -/
lemma natural_unwritten {limit : Int} (hlimit : ¬isWritable limit) {digits rest : Bytes}
    (hdigits : ∀ b ∈ digits, Bytes.isDigit b) (hne : digits ≠ []) (hrest : rest = [] ∨ rest.NoDigit) :
    natural limit ⟨digits ++ rest, nodes⟩ = .stopped .overlong := by
  rw [natural_eq limit nodes hdigits hne hrest, if_pos (.inl hlimit)]

lemma index_unwritten {limit : Int} (hlimit : ¬isWritable limit) (n : Nat) (rest : Bytes) :
    index limit ⟨Mangle.index (n + 1) ++ rest, nodes⟩ = .stopped .overlong := by
  have hbytes : Mangle.index (n + 1) ++ rest = Mangle.natural n ++ 0x5F :: rest :=
    List.append_assoc _ _ _
  have hmark : (0x5F :: rest : Bytes) = [] ∨ Bytes.NoDigit (0x5F :: rest) := .inr rfl
  have hstopped := natural_unwritten nodes hlimit
    (fun _ => Mangle.isDigit_of_mem_natural (n := n)) (Mangle.natural_ne_nil n) hmark
  obtain ⟨b, back, hdigits, hb⟩ := Mangle.natural_begins n
  rw [hbytes]
  rw [hdigits, List.cons_append] at hstopped ⊢
  unfold index
  rw [skip "_" hb rfl, Parser.bind_apply, hstopped]

lemma index_eq {n : Nat} (hn : (n : Int) ≤ limit + 1) (rest : Bytes) :
    index limit ⟨Mangle.index n ++ rest, nodes⟩ =
      if n = 0 ∨ isWritable limit then .found n ⟨rest, nodes⟩ else .stopped .overlong := by
  cases n with
  | zero => rfl
  | succ n =>
    by_cases hlimit : isWritable limit
    · have hwithin : IndexWithin limit (n + 1) := Int.le_of_add_le_add_right hn
      rw [if_pos (.inr hlimit), index_read hlimit nodes hwithin]
    · rw [if_neg (by simp [hlimit]), index_unwritten nodes hlimit]

/-- Numbers are read up to the limit. A run of digits, with zeros in front of it or without, is taken
whole: it is found as the number that it spells if that is at most the limit, and is refused if not.
The index of a number is read back up to one more than the limit. Only where the limit, or the run with
the limit, has too many digits to be written is there no answer at all. -/
theorem numbers_upTo_limit :
    (∀ digits rest : Bytes, digits ≠ [] → (∀ b ∈ digits, Bytes.isDigit b) → (rest = [] ∨ rest.NoDigit) →
      natural limit ⟨digits ++ rest, nodes⟩ =
        if Overlong limit digits then .stopped .overlong
        else if value digits ≤ limit then .found (value digits) ⟨rest, nodes⟩
        else .refused ⟨rest, nodes⟩) ∧
    (∀ (n : Nat) (rest : Bytes), (n : Int) ≤ limit + 1 →
      index limit ⟨Mangle.index n ++ rest, nodes⟩ =
        if n = 0 ∨ isWritable limit then .found n ⟨rest, nodes⟩ else .stopped .overlong) :=
  ⟨fun _ _ hne hdigits hrest => natural_eq limit nodes hdigits hne hrest,
    fun _ rest hn => index_eq limit nodes hn rest⟩

/-- Zeros in front of a number do not count; the number of the limit is found and the next one is not. -/
theorem numbers_upTo_255 :
    natural 255 ⟨Mangle.ascii "00255_", []⟩ = .found 255 ⟨Mangle.ascii "_", []⟩ ∧
      natural 255 ⟨Mangle.ascii "256_", []⟩ = .refused ⟨Mangle.ascii "_", []⟩ ∧
      index 255 ⟨Mangle.index 256 ++ [], []⟩ = .found 256 ⟨[], []⟩ :=
  ⟨(numbers_upTo_limit 255 []).1 (Mangle.ascii "00255") (Mangle.ascii "_") (by decide)
      (List.all_eq_true.1 rfl) (.inr rfl),
    (numbers_upTo_limit 255 []).1 (Mangle.ascii "256") (Mangle.ascii "_") (by decide)
      (List.all_eq_true.1 rfl) (.inr rfl),
    (numbers_upTo_limit 255 []).2 256 [] (by decide)⟩

/-- Under a limit with too many digits to be written, the number 8 is within it and there is no
answer. -/
theorem natural_unwritten_eight : (8 : Int) ≤ (10 ^ maxDigits : Nat) ∧
    natural (10 ^ maxDigits : Nat) ⟨Mangle.ascii "8_", []⟩ = .stopped .overlong := by
  have hlarge : 8 ≤ 10 ^ maxDigits :=
    Nat.le_trans (by decide : 8 ≤ 10 ^ 1) (Nat.pow_le_pow_right (by decide) (by decide))
  have hlimit : ¬isWritable (10 ^ maxDigits : Nat) :=
    not_isWritable_of_le (by simp only [Int.natAbs_natCast, Nat.le_refl])
  have hdigits : ∀ b ∈ Mangle.ascii "8", Bytes.isDigit b := List.all_eq_true.1 rfl
  have hmark : Mangle.ascii "_" = [] ∨ (Mangle.ascii "_").NoDigit := .inr rfl
  have hstopped := natural_unwritten [] hlimit hdigits (by decide) hmark
  exact ⟨Int.ofNat_le.2 hlarge, hstopped⟩

end Grammar

end SwiftMangling
