import SwiftMangling.Text.Utf8
import Mathlib.Tactic.Common

/-!
# Reading bytes as text loses nothing

A byte that belongs to no character is shown as a surrogate, and a character is never a surrogate,
so that the bytes come back from the text. The other way about, a text without surrogates comes back
from its encoding, since the bits of an encoded code point spell its number.
-/

namespace SwiftMangling.Utf8

/-- A character at the front is no surrogate, and the bytes that it takes are its encoding. -/
lemma scalar?_eq_some {bytes : Bytes} {c : CodePoint} {length : Nat}
    (h : scalar? bytes = some (c, length)) :
    c.isSurrogate = false ∧ encodeCodePoint c = bytes.take length := by
  unfold scalar? at h
  split at h
  · cases h
  · next v length' _ =>
    split at h
    · next hv =>
      simp only at h
      split at h
      · next hc =>
        cases h
        rw [Bool.and_eq_true, Bool.not_eq_true', beq_iff_eq] at hc
        exact hc
      · cases h
    · cases h

lemma encodeCodePoint_ne_nil (c : CodePoint) : encodeCodePoint c ≠ [] := by
  unfold encodeCodePoint
  simp only
  split
  · exact List.cons_ne_nil _ _
  · split
    · exact List.cons_ne_nil _ _
    · split <;> exact List.cons_ne_nil _ _

lemma encodeCodePoint_ascii {c : CodePoint} (h : c.val < 0x80) :
    encodeCodePoint c = [UInt8.ofNat c.val] :=
  if_pos h

/-- No byte of a character beyond ASCII is ASCII. -/
lemma le_of_mem_encodeCodePoint {c : CodePoint} (h : 0x80 ≤ c.val) {b : UInt8}
    (hb : b ∈ encodeCodePoint c) : 0x80 ≤ b.toNat := by
  have hpoint := c.isLt
  have hbyte : ∀ {n : Nat}, 0x80 ≤ n → n < 256 → 0x80 ≤ (UInt8.ofNat n).toNat := fun hle hlt => by
    rwa [UInt8.toNat_ofNat_of_lt' hlt]
  unfold encodeCodePoint at hb
  simp only at hb
  rw [if_neg (Nat.not_lt.2 h)] at hb
  split at hb
  · simp only [List.mem_cons, List.not_mem_nil, or_false] at hb
    obtain rfl | rfl := hb <;> exact hbyte (by omega) (by omega)
  · split at hb
    · simp only [List.mem_cons, List.not_mem_nil, or_false] at hb
      obtain rfl | rfl | rfl := hb <;> exact hbyte (by omega) (by omega)
    · simp only [List.mem_cons, List.not_mem_nil, or_false] at hb
      obtain rfl | rfl | rfl | rfl := hb <;> exact hbyte (by omega) (by omega)

/-- An ASCII byte is a character. -/
lemma scalar?_ascii {b : UInt8} (hb : b < 0x80) (rest : Bytes) :
    ∃ c, scalar? (b :: rest) = some (c, 1) := by
  have hlt : b.toNat < 0x80 := hb
  have hspelled : spelled? (b :: rest) = some (b.toNat, 1) := by
    simp only [spelled?, if_pos hb]
  have hv : b.toNat < 0x110000 := by omega
  have hsurrogate : CodePoint.isSurrogate ⟨b.toNat, hv⟩ = false := by
    simp only [CodePoint.isSurrogate, Bool.and_eq_false_imp, decide_eq_true_eq, decide_eq_false_iff_not]
    omega
  have hencode : encodeCodePoint ⟨b.toNat, hv⟩ = (b :: rest).take 1 := by
    simp only [encodeCodePoint, if_pos hlt, UInt8.ofNat_toNat, List.take_succ_cons, List.take_zero]
  refine ⟨⟨b.toNat, hv⟩, ?_⟩
  simp only [scalar?, hspelled, dif_pos hv, hsurrogate, hencode, Bool.not_false, beq_self_eq_true,
    Bool.and_self, if_true]

lemma escapedByte?_of_not_surrogate {c : CodePoint} (h : c.isSurrogate = false) :
    escapedByte? c = none := by
  unfold CodePoint.isSurrogate at h
  unfold escapedByte?
  rw [if_neg]
  intro hc
  simp only [Bool.and_eq_false_imp, decide_eq_true_eq, decide_eq_false_iff_not] at h
  omega

/-- A stray byte comes back from its escape. -/
lemma escapedByte?_escapeByte {b : UInt8} (hb : ¬b < 0x80) : escapedByte? (escapeByte b) = some b := by
  have hge : 0x80 ≤ b.toNat := Nat.le_of_not_lt hb
  have hlt := b.toNat_lt
  unfold escapedByte? escapeByte
  rw [if_pos (by constructor <;> simp only <;> omega)]
  simp

/-- The bytes come back from the text, those of a character after its first being passed over. -/
lemma encodeEscaped?_decodeSkipping (bytes : Bytes) (skip : Nat) :
    encodeEscaped? (decodeSkipping (fun b => [escapeByte b]) skip bytes) = some (bytes.drop skip) := by
  induction bytes generalizing skip with
  | nil =>
    cases skip with
    | zero => rfl
    | succ skip => rfl
  | cons b bytes ih =>
    cases skip with
    | succ skip => exact ih skip
    | zero =>
      unfold decodeSkipping
      cases hscalar : scalar? (b :: bytes) with
      | none =>
        have hb : ¬b < 0x80 := by
          intro hb
          obtain ⟨c, hc⟩ := scalar?_ascii hb bytes
          rw [hscalar] at hc
          cases hc
        simp only [List.singleton_append, encodeEscaped?, escapedByte?_escapeByte hb, ih 0]
        rfl
      | some found =>
        obtain ⟨c, length⟩ := found
        obtain ⟨hsurrogate, hencode⟩ := scalar?_eq_some hscalar
        obtain ⟨rest, rfl⟩ : ∃ rest, length = rest + 1 := by
          cases length with
          | zero => exact absurd hencode (encodeCodePoint_ne_nil c)
          | succ rest => exact ⟨rest, rfl⟩
        simp only [Nat.add_sub_cancel, encodeEscaped?, escapedByte?_of_not_surrogate hsurrogate,
          hsurrogate, ih rest, hencode, Bool.false_eq_true, if_false, Option.map_some,
          List.take_succ_cons, List.cons_append, List.take_append_drop, List.drop_zero]

/-- The bytes come back from the text in which they are read. -/
theorem encodeEscaped?_decode (bytes : Bytes) : encodeEscaped? (decode bytes) = some bytes :=
  encodeEscaped?_decodeSkipping bytes 0

lemma decode_injective {bytes other : Bytes} (h : decode bytes = decode other) : bytes = other := by
  have hbytes := encodeEscaped?_decode bytes
  rw [h, encodeEscaped?_decode other] at hbytes
  exact (Option.some.inj hbytes).symm

section Spelled

variable {a b c d : UInt8} {rest : Bytes}

lemma spelled?_one (h : a.toNat < 0x80) : spelled? (a :: rest) = some (a.toNat, 1) :=
  if_pos h

lemma spelled?_two (h : 0x80 ≤ a.toNat) (h' : a.toNat < 0xE0) :
    spelled? (a :: b :: rest) = some (a.toNat % 32 * 64 + b.toNat % 64, 2) := by
  have hone : ¬a < 0x80 := Nat.not_lt.2 h
  have htwo : a < 0xE0 := h'
  simp only [spelled?, if_neg hone, if_pos htwo]

lemma spelled?_three (h : 0xE0 ≤ a.toNat) (h' : a.toNat < 0xF0) :
    spelled? (a :: b :: c :: rest) =
      some (a.toNat % 16 * 4096 + b.toNat % 64 * 64 + c.toNat % 64, 3) := by
  have hone : ¬a < 0x80 := Nat.not_lt.2 (Nat.le_trans (by decide) h)
  have htwo : ¬a < 0xE0 := Nat.not_lt.2 h
  have hthree : a < 0xF0 := h'
  simp only [spelled?, if_neg hone, if_neg htwo, if_pos hthree]

lemma spelled?_four (h : 0xF0 ≤ a.toNat) :
    spelled? (a :: b :: c :: d :: rest) =
      some (a.toNat % 8 * 262144 + b.toNat % 64 * 4096 + c.toNat % 64 * 64 + d.toNat % 64, 4) := by
  have hone : ¬a < 0x80 := Nat.not_lt.2 (Nat.le_trans (by decide) h)
  have htwo : ¬a < 0xE0 := Nat.not_lt.2 (Nat.le_trans (by decide) h)
  have hthree : ¬a < 0xF0 := Nat.not_lt.2 h
  simp only [spelled?, if_neg hone, if_neg htwo, if_neg hthree]

end Spelled

/-- The bits of an encoded code point spell its number. -/
lemma spelled?_encodeCodePoint (point : CodePoint) (rest : Bytes) :
    spelled? (encodeCodePoint point ++ rest) = some (point.val, (encodeCodePoint point).length) := by
  have hpoint := point.isLt
  have hbyte : ∀ {n : Nat}, n < 256 → (UInt8.ofNat n).toNat = n := fun h => UInt8.toNat_ofNat_of_lt' h
  unfold encodeCodePoint
  simp only
  split
  · have ha := hbyte (n := point.val) (by omega)
    rw [List.cons_append, spelled?_one (by omega), ha]
    rfl
  · split
    · have ha := hbyte (n := 0xC0 + point.val / 64) (by omega)
      have hb := hbyte (n := 0x80 + point.val % 64) (by omega)
      rw [List.cons_append, List.cons_append, spelled?_two (by omega) (by omega), ha, hb]
      refine congrArg some (Prod.ext ?_ rfl)
      simp only
      omega
    · split
      · have ha := hbyte (n := 0xE0 + point.val / 4096) (by omega)
        have hb := hbyte (n := 0x80 + point.val / 64 % 64) (by omega)
        have hc := hbyte (n := 0x80 + point.val % 64) (by omega)
        rw [List.cons_append, List.cons_append, List.cons_append,
          spelled?_three (by omega) (by omega), ha, hb, hc]
        refine congrArg some (Prod.ext ?_ rfl)
        simp only
        omega
      · have ha := hbyte (n := 0xF0 + point.val / 262144) (by omega)
        have hb := hbyte (n := 0x80 + point.val / 4096 % 64) (by omega)
        have hc := hbyte (n := 0x80 + point.val / 64 % 64) (by omega)
        have hd := hbyte (n := 0x80 + point.val % 64) (by omega)
        rw [List.cons_append, List.cons_append, List.cons_append, List.cons_append,
          spelled?_four (by omega), ha, hb, hc, hd]
        refine congrArg some (Prod.ext ?_ rfl)
        simp only
        omega

/-- An encoded character is the character that stands at the front. -/
lemma scalar?_encodeCodePoint {point : CodePoint} (h : point.isSurrogate = false) (rest : Bytes) :
    scalar? (encodeCodePoint point ++ rest) = some (point, (encodeCodePoint point).length) := by
  unfold scalar?
  rw [spelled?_encodeCodePoint]
  simp only [dif_pos point.isLt, h, List.take_left', beq_self_eq_true, Bool.not_false, Bool.and_self,
    if_true]

/-- The bytes that are to be skipped are passed over. -/
lemma decodeSkipping_append (stray : UInt8 → Text) (front rest : Bytes) :
    decodeSkipping stray front.length (front ++ rest) = decodeSkipping stray 0 rest := by
  induction front with
  | nil => rfl
  | cons b front ih => exact ih

lemma decode_encodeCodePoint_append {point : CodePoint} (h : point.isSurrogate = false) (rest : Bytes) :
    decode (encodeCodePoint point ++ rest) = point :: decode rest := by
  have hscalar := scalar?_encodeCodePoint h rest
  cases hbytes : encodeCodePoint point with
  | nil => exact absurd hbytes (encodeCodePoint_ne_nil point)
  | cons b tail =>
    rw [hbytes] at hscalar
    rw [List.cons_append] at hscalar ⊢
    unfold decode decodeWith
    rw [decodeSkipping, hscalar]
    simp only [List.length_cons, Nat.add_sub_cancel, decodeSkipping_append]

/-- A text without surrogates comes back from its encoding. -/
lemma decode_encode {text : Text} (h : ∀ c ∈ text, c.isSurrogate = false) :
    decode (encode text) = text := by
  induction text with
  | nil => rfl
  | cons c text ih =>
    rw [List.forall_mem_cons] at h
    rw [encode, List.flatMap_cons, decode_encodeCodePoint_append h.1]
    congr 1
    exact ih h.2

lemma encodeEscaped?_of_scalars {text : Text} (h : ∀ c ∈ text, c.isSurrogate = false) :
    encodeEscaped? text = some (encode text) := by
  induction text with
  | nil => rfl
  | cons c text ih =>
    rw [List.forall_mem_cons] at h
    simp only [encodeEscaped?, escapedByte?_of_not_surrogate h.1, h.1, ih h.2, Bool.false_eq_true,
      if_false, Option.map_some, encode, List.flatMap_cons]

end SwiftMangling.Utf8
