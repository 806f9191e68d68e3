import SwiftMangling.Punycode.Decode
import SwiftMangling.Punycode.Encode
import Mathlib.Tactic.Common
import Mathlib.Tactic.Ring

/-!
# Gaps and their digits

A list of gaps has one spelling in digits. Reading the digits that are written for it gives the gaps
back, and what is read as gaps is what is written for them.
-/

namespace SwiftMangling.Punycode

section OneGap

variable {bias position rest : Nat}

/-- What does not fit into the last digit of a gap has a digit in front of what is carried over. -/
lemma exists_carry (h : threshold bias position ≤ rest) :
    ∃ d carry, threshold bias position ≤ d ∧ d < 36 ∧ carry < rest ∧
      rest = d + carry * (36 - threshold bias position) := by
  have hpos := threshold_pos bias position
  have hbound := threshold_le bias position
  have hmod := Nat.mod_lt (rest - threshold bias position)
    (show 0 < 36 - threshold bias position by omega)
  have hcarry := Nat.div_le_self (rest - threshold bias position) (36 - threshold bias position)
  have hsum := Nat.mod_add_div' (rest - threshold bias position) (36 - threshold bias position)
  refine ⟨threshold bias position + (rest - threshold bias position) % (36 - threshold bias position),
    (rest - threshold bias position) / (36 - threshold bias position), ?_, ?_, ?_, ?_⟩ <;> omega

lemma gapDigits_congr {bound bound' : Nat} (h : rest < bound) (h' : rest < bound') :
    gapDigits bias bound position rest = gapDigits bias bound' position rest := by
  induction bound generalizing bound' position rest with
  | zero => exact absurd h (Nat.not_lt_zero rest)
  | succ bound ih =>
    obtain ⟨more, rfl⟩ := Nat.exists_eq_add_of_lt h'
    simp only [gapDigits]
    split
    · rfl
    · next hrest =>
      have hpos := threshold_pos bias position
      have hcarry := Nat.div_le_self (rest - threshold bias position) (36 - threshold bias position)
      exact congrArg _ (ih (by omega) (by omega))

lemma gapDigits_last (h : rest < threshold bias position) :
    gapDigits bias (rest + 1) position rest = [rest] := by
  simp only [gapDigits, if_pos h]

lemma gapDigits_carry {d : Nat} (hd : threshold bias position ≤ d) (hd' : d < 36) (carry : Nat) :
    gapDigits bias (d + carry * (36 - threshold bias position) + 1) position
        (d + carry * (36 - threshold bias position)) =
      d :: gapDigits bias (carry + 1) (position + 1) carry := by
  have hpos := threshold_pos bias position
  have hbound := threshold_le bias position
  have hbase : 0 < 36 - threshold bias position := by omega
  have hrest : d + carry * (36 - threshold bias position) - threshold bias position =
      d - threshold bias position + (36 - threshold bias position) * carry := by
    rw [Nat.mul_comm]
    omega
  have hlow : d - threshold bias position < 36 - threshold bias position := by omega
  rw [gapDigits]
  simp only [hrest, Nat.add_mul_mod_self_left, Nat.mod_eq_of_lt hlow,
    Nat.add_mul_div_left _ _ hbase, Nat.div_eq_of_lt hlow, Nat.zero_add]
  rw [if_neg (by omega), Nat.add_sub_cancel' hd]
  have hle : carry ≤ carry * (36 - threshold bias position) := Nat.le_mul_of_pos_right carry hbase
  exact congrArg _ (gapDigits_congr (by omega) (Nat.lt_succ_self carry))

lemma gapDigits_lt {d : Nat} (h : d ∈ gapDigits bias (rest + 1) position rest) : d < 36 := by
  induction rest using Nat.strongRecOn generalizing position with
  | ind rest ih =>
    obtain hlast | hmore := Nat.lt_or_ge rest (threshold bias position)
    · have hbound := threshold_le bias position
      rw [gapDigits_last hlast, List.mem_singleton] at h
      omega
    · obtain ⟨low, carry, hlow, hlow', hcarry, rfl⟩ := exists_carry hmore
      rw [gapDigits_carry hlow hlow', List.mem_cons] at h
      obtain rfl | h := h
      · exact hlow'
      · exact ih carry hcarry h

end OneGap

variable {bias count sum weight position : Nat} {first : Bool}

lemma digitsFrom_lt {gaps : List Nat} {d : Nat} (h : d ∈ digitsFrom bias count first gaps) :
    d < 36 := by
  induction gaps generalizing bias count first with
  | nil => cases h
  | cons gap gaps ih =>
    rw [digitsFrom, List.mem_append] at h
    obtain h | h := h
    · exact gapDigits_lt h
    · exact ih h

/-- What a digit that is not the last adds to a gap, with what is carried over. -/
lemma add_digit (d carry base : Nat) :
    sum + d * weight + carry * (weight * base) = sum + (d + carry * base) * weight := by
  ring

/-- Reading the digits of what is left of a gap completes the gap. -/
lemma gapsFrom?_gapDigits (rest : Nat) (digits : List Nat) :
    gapsFrom? bias count first sum weight position
        (gapDigits bias (rest + 1) position rest ++ digits) =
      (gapsFrom? (adapt (sum + rest * weight) first (count + 1)) (count + 1) false 0 1 0 digits).map
        ((sum + rest * weight) :: ·) := by
  induction rest using Nat.strongRecOn generalizing sum weight position with
  | ind rest ih =>
    obtain hlast | hmore := Nat.lt_or_ge rest (threshold bias position)
    · rw [gapDigits_last hlast, List.singleton_append, gapsFrom?]
      simp only [if_pos hlast]
    · obtain ⟨d, carry, hd, hd', hcarry, rfl⟩ := exists_carry hmore
      rw [gapDigits_carry hd hd', List.cons_append, gapsFrom?]
      simp only [if_neg (Nat.not_lt.2 hd)]
      rw [ih carry hcarry, add_digit]

lemma gapsFrom?_digitsFrom (gaps : List Nat) :
    gapsFrom? bias count first 0 1 0 (digitsFrom bias count first gaps) = some gaps := by
  induction gaps generalizing bias count first with
  | nil => rfl
  | cons gap gaps ih =>
    rw [digitsFrom, gapsFrom?_gapDigits, Nat.zero_add, Nat.mul_one, ih]
    rfl

/-- What is read as gaps is what is written for them. Where a number is under way, the first of the
gaps completes it. -/
lemma digits_of_gapsFrom? {digits gaps : List Nat} (hdigits : ∀ d ∈ digits, d < 36)
    (h : gapsFrom? bias count first sum weight position digits = some gaps) :
    (position = 0 ∧ digits = [] ∧ gaps = []) ∨
      ∃ rest later, gaps = (sum + rest * weight) :: later ∧
        digits = gapDigits bias (rest + 1) position rest ++
          digitsFrom (adapt (sum + rest * weight) first (count + 1)) (count + 1) false later := by
  induction digits generalizing bias count first sum weight position gaps with
  | nil =>
    rw [gapsFrom?] at h
    split at h
    · next hposition =>
      cases h
      exact .inl ⟨hposition, rfl, rfl⟩
    · cases h
  | cons d digits ih =>
    have hd : d < 36 := hdigits d List.mem_cons_self
    have hdigits' : ∀ d ∈ digits, d < 36 := fun d hd => hdigits d (List.mem_cons_of_mem _ hd)
    rw [gapsFrom?] at h
    split at h
    · next hlast =>
      -- The gap ends here, and the digits after it start the next one.
      obtain ⟨later, hlater, rfl⟩ := Option.map_eq_some_iff.1 h
      refine .inr ⟨d, later, rfl, ?_⟩
      rw [gapDigits_last hlast]
      obtain ⟨-, rfl, rfl⟩ | ⟨rest, later, rfl, rfl⟩ := ih hdigits' hlater
      · rfl
      · rw [Nat.zero_add, Nat.mul_one]
        rfl
    · next hmore =>
      obtain ⟨hposition, -, -⟩ | ⟨carry, later, rfl, rfl⟩ := ih hdigits' h
      · cases hposition
      · -- The gap is completed by what is carried over, one position further.
        refine .inr ⟨d + carry * (36 - threshold bias position), later, ?_⟩
        rw [add_digit, gapDigits_carry (Nat.not_lt.1 hmore) hd]
        exact ⟨rfl, rfl⟩

/-- A run of digits is read as gaps if it is what is written for them, and in no other case. -/
theorem gaps?_eq_some_iff {digits gaps : List Nat} (hdigits : ∀ d ∈ digits, d < 36) :
    gaps? count digits = some gaps ↔ digits = digitsFrom initialBias count true gaps := by
  constructor
  · intro h
    obtain ⟨-, rfl, rfl⟩ | ⟨rest, later, rfl, rfl⟩ := digits_of_gapsFrom? hdigits h
    · rfl
    · rw [Nat.zero_add, Nat.mul_one]
      rfl
  · rintro rfl
    exact gapsFrom?_digitsFrom gaps

section Characters

lemma digitValue?_eq_some_iff {c : CodePoint} {value : Nat} :
    digitValue? c = some value ↔ value < 36 ∧ c = digit value := by
  constructor
  · intro h
    have hvalue : value < 36 ∧ (if value < 26 then 0x61 + value else 0x41 + (value - 26)) = c.val := by
      unfold digitValue? at h
      split at h
      · cases h
        rw [if_pos (by omega)]
        omega
      · split at h
        · cases h
          rw [if_neg (by omega)]
          omega
        · cases h
    refine ⟨hvalue.1, Fin.ext ?_⟩
    unfold digit CodePoint.ofNat
    rw [hvalue.2, dif_pos c.isLt]
  · rintro ⟨hvalue, rfl⟩
    exact digitValue?_digit hvalue

lemma mapM_digitValue?_eq_some_iff {chars : Text} {digits : List Nat} :
    chars.mapM digitValue? = some digits ↔ (∀ d ∈ digits, d < 36) ∧ chars = digits.map digit := by
  induction chars generalizing digits with
  | nil =>
    cases digits with
    | nil => simp
    | cons d digits => simp
  | cons c chars ih =>
    rw [List.mapM_cons]
    cases digits with
    | nil => simp [Option.bind_eq_some_iff]
    | cons d digits =>
      simp only [Option.bind_eq_bind, Option.bind_eq_some_iff, Option.pure_def, Option.some.injEq,
        List.cons.injEq, digitValue?_eq_some_iff, ih, List.forall_mem_cons, List.map_cons]
      constructor
      · rintro ⟨_, hd, _, hdigits, rfl, rfl⟩
        exact ⟨⟨hd.1, hdigits.1⟩, hd.2, hdigits.2⟩
      · rintro ⟨hlt, hd, hdigits⟩
        exact ⟨d, ⟨hlt.1, hd⟩, digits, ⟨hlt.2, hdigits⟩, rfl, rfl⟩

lemma delimiter_notMem_digits {digits : List Nat} (hdigits : ∀ d ∈ digits, d < 36) :
    delimiter ∉ digits.map digit := by
  intro h
  obtain ⟨d, hd, hdelimiter⟩ := List.mem_map.1 h
  have hvalue := digitValue?_digit (hdigits d hd)
  rw [hdelimiter] at hvalue
  cases hvalue

lemma splitLast?_eq_none {chars : Text} (h : delimiter ∉ chars) : splitLast? chars = none := by
  induction chars with
  | nil => rfl
  | cons c chars ih =>
    rw [List.mem_cons, not_or] at h
    rw [splitLast?, ih h.2]
    exact if_neg (Ne.symm h.1)

/-- A text is split at a delimiter that none comes after. -/
lemma splitLast?_append (before : Text) {after : Text} (h : delimiter ∉ after) :
    splitLast? (before ++ delimiter :: after) = some (before, after) := by
  induction before with
  | nil =>
    rw [List.nil_append, splitLast?, splitLast?_eq_none h]
    exact if_pos rfl
  | cons c before ih => rw [List.cons_append, splitLast?, ih]

lemma append_of_splitLast? {chars before after : Text} (h : splitLast? chars = some (before, after)) :
    chars = before ++ delimiter :: after := by
  induction chars generalizing before with
  | nil => cases h
  | cons c chars ih =>
    rw [splitLast?] at h
    split at h
    · next hsplit =>
      cases h
      rw [ih hsplit]
      rfl
    · split at h
      · next hdelimiter =>
        cases h
        rw [hdelimiter]
        rfl
      · cases h

end Characters

end SwiftMangling.Punycode
