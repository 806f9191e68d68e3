import SwiftMangling.Mangle.Writer
import SwiftMangling.Proofs.Numerals

/-!
# Written numbers are read back

A number is written in decimal digits with no zero before them. It is read back in front of anything
but a digit, if it is within the limit and the limit can be written.
-/

namespace SwiftMangling

/-- There is a first byte, and it is no digit. -/
def Bytes.NoDigit : Bytes → Prop
  | [] => False
  | b :: _ => Bytes.isDigit b = false

instance : DecidablePred Bytes.NoDigit
  | [] => isFalse id
  | b :: _ => inferInstanceAs (Decidable (Bytes.isDigit b = false))

/-- There is a first byte, and it is one of the letters. -/
def Bytes.Begins (bytes letters : Bytes) : Prop :=
  ∃ b rest, bytes = b :: rest ∧ b ∈ letters

lemma Bytes.Begins.cons {b : UInt8} {rest letters : Bytes} (h : letters.contains b = true) :
    Bytes.Begins (b :: rest) letters :=
  ⟨b, rest, rfl, List.contains_iff_mem.1 h⟩

lemma Bytes.Begins.append {front letters : Bytes} (h : front.Begins letters) (rest : Bytes) :
    (front ++ rest).Begins letters := by
  obtain ⟨b, back, rfl, hb⟩ := h
  exact ⟨b, back ++ rest, rfl, hb⟩

/-- The character with the number of a byte tells which byte it is. -/
lemma Bytes.eq_of_char {b : UInt8} {c : Char} (h : Bytes.char b = c) : b = UInt8.ofNat c.toNat := by
  have hvalid : b.toNat.isValidChar := .inl (Nat.lt_trans b.toNat_lt (by decide))
  have hnumber : (Bytes.char b).toNat = b.toNat := by
    rw [Bytes.char, Char.ofNat, dif_pos hvalid]
    rfl
  rw [← h, hnumber, UInt8.ofNat_toNat]

namespace Mangle

lemma toUInt8_digit {c : Char} (h : c.isDigit) :
    Bytes.isDigit c.toUInt8 = true ∧ c.toUInt8.toNat = c.toNat := by
  have hbounds : 48 ≤ c.toNat ∧ c.toNat ≤ 57 := by
    simpa [Char.isDigit, UInt32.le_iff_toNat_le] using h
  have hval : c.toUInt8.toNat = c.toNat := by
    show c.toNat.toUInt8.toNat = c.toNat
    rw [UInt8.toNat_ofNat']
    omega
  refine ⟨?_, hval⟩
  simp only [Bytes.isDigit, Bool.and_eq_true, decide_eq_true_eq, UInt8.le_iff_toNat_le, hval]
  exact hbounds

lemma isDigit_of_mem_natural {n : Nat} {b : UInt8} (h : b ∈ natural n) :
    Bytes.isDigit b = true := by
  obtain ⟨c, hc, rfl⟩ := List.mem_map.1 h
  exact (toUInt8_digit (Nat.isDigit_of_mem_toDigits (by omega) (by omega) hc)).1

lemma length_natural (n : Nat) : (natural n).length = Decimal.digitCount n :=
  List.length_map _

lemma natural_ne_nil (n : Nat) : natural n ≠ [] :=
  fun h => Nat.toDigits_ne_nil (List.map_eq_nil_iff.1 h)

/-- The ASCII digits. -/
def digits : Bytes :=
  ascii "0123456789"

lemma mem_digits {b : UInt8} (h : Bytes.isDigit b) : b ∈ digits := by
  simp only [Bytes.isDigit, Bool.and_eq_true, decide_eq_true_eq, UInt8.le_iff_toNat_le] at h
  have hdigits : ∀ n ≤ 57, 48 ≤ n → UInt8.ofNat n ∈ digits := by decide
  have hb := hdigits b.toNat h.2 h.1
  rwa [UInt8.ofNat_toNat] at hb

/-- A number is written with a digit in front. -/
lemma natural_begins (n : Nat) : (natural n).Begins digits := by
  obtain ⟨b, rest, h⟩ := List.exists_cons_of_ne_nil (natural_ne_nil n)
  refine ⟨b, rest, h, mem_digits (isDigit_of_mem_natural (n := n) ?_)⟩
  rw [h]
  exact List.mem_cons_self

lemma value_natural (n : Nat) : Decimal.value (natural n) = n := by
  have hchars : ∀ (chars : List Char) (sum : Nat), (∀ c ∈ chars, c.isDigit) →
      (chars.map Char.toUInt8).foldl (fun sum b => 10 * sum + (b.toNat - 0x30)) sum =
        Nat.ofDigitChars 10 chars sum := by
    intro chars
    induction chars with
    | nil => exact fun sum _ => Nat.ofDigitChars_nil.symm
    | cons c chars ih =>
      intro sum hdigits
      rw [List.map_cons, List.foldl_cons, (toUInt8_digit (hdigits c List.mem_cons_self)).2,
        Nat.ofDigitChars_cons]
      exact ih _ fun c hc => hdigits c (List.mem_cons_of_mem _ hc)
  unfold Decimal.value natural
  rw [hchars _ 0 fun c hc => Nat.isDigit_of_mem_toDigits (by omega) (by omega) hc]
  exact Nat.ofDigitChars_ten_toDigits

/-- There is no zero before the digits of a number but the one of zero itself. -/
lemma head_toDigits {n : Nat} (hn : 0 < n) : ∃ c rest, Nat.toDigits 10 n = c :: rest ∧
    c.toUInt8 ≠ 0x30 := by
  induction n using Nat.strongRecOn with
  | ind n ih =>
    by_cases hsmall : n < 10
    · have hdigit : ∀ n < 10, 0 < n → n.digitChar.toUInt8 ≠ 0x30 := by decide
      exact ⟨n.digitChar, [], Nat.toDigits_of_lt_base hsmall, hdigit n hsmall hn⟩
    · obtain ⟨c, rest, hdigits, hc⟩ := ih (n / 10) (by omega) (by omega)
      rw [Nat.toDigits_of_base_le (by omega) (by omega), hdigits]
      exact ⟨c, _, rfl, hc⟩

lemma dropWhile_natural {n : Nat} (hn : 0 < n) :
    (natural n).dropWhile (· == 0x30) = natural n := by
  obtain ⟨c, rest, hdigits, hc⟩ := head_toDigits hn
  unfold natural
  rw [hdigits, List.map_cons, List.dropWhile_cons_of_neg]
  simpa using hc

end Mangle

namespace Decimal

/-- A number within a limit has no more digits. -/
lemma digitCount_mono {n k : Nat} (h : n ≤ k) : digitCount n ≤ digitCount k := by
  have hpos : 0 < digitCount k := Nat.length_toDigits_pos
  exact (digitCount_le_iff hpos).2 (Nat.lt_of_le_of_lt h ((digitCount_le_iff hpos).1 (Nat.le_refl _)))

lemma number?_natural (n : Nat) : number? (Mangle.natural n) = some n := by
  rw [number?_eq_some (Mangle.natural_ne_nil n) fun b hb => Mangle.isDigit_of_mem_natural hb,
    Mangle.value_natural]

lemma bounded_natural {limit : Int} (hlimit : isWritable limit) {n : Nat} (hn : n ≤ limit) :
    bounded limit (Mangle.natural n) = .within n := by
  obtain ⟨k, rfl⟩ := Int.eq_ofNat_of_zero_le (Int.le_trans (Int.natCast_nonneg n) hn)
  have hk : digitCount (k : Int) ≤ maxDigits := of_decide_eq_true hlimit
  have hcount : digitCount n ≤ digitCount k := digitCount_mono (Int.ofNat_le.1 hn)
  unfold bounded
  obtain rfl | hpos := Nat.eq_zero_or_pos n
  · have hzero : Mangle.natural 0 = [0x30] := rfl
    simp [hzero, hlimit, number?, value, Bytes.isDigit]
  · have hlength : (ofInt (k : Int)).length = digitCount k := rfl
    have hempty : (Mangle.natural n).isEmpty = false :=
      List.isEmpty_eq_false_iff.2 (Mangle.natural_ne_nil n)
    simp only [Mangle.dropWhile_natural hpos, hlimit, Bool.not_true, Bool.false_eq_true, if_false,
      hlength, Mangle.length_natural, hempty, number?_natural]
    rw [if_neg (by omega), if_neg (by omega), if_neg (by omega)]

/-- A number above a limit of few digits is beyond it. -/
lemma bounded_natural_beyond {limit : Int} (hfew : digitCount limit < maxDigits) {n : Nat}
    (hn : limit < n) : bounded limit (Mangle.natural n) = .beyond := by
  have hwritable : isWritable limit = true := decide_eq_true (Nat.le_of_lt hfew)
  have hlength := length_ofInt_le limit
  unfold bounded
  obtain rfl | hpos := Nat.eq_zero_or_pos n
  · have hzero : Mangle.natural 0 = [0x30] := rfl
    have hnegative : limit < 0 := hn
    simp [hzero, hwritable, number?, value, Bytes.isDigit, hnegative]
  · have hempty : (Mangle.natural n).isEmpty = false :=
      List.isEmpty_eq_false_iff.2 (Mangle.natural_ne_nil n)
    have hnumber : number? (Mangle.natural n) = some n := by
      rw [number?_eq_some (Mangle.natural_ne_nil n) fun b hb => Mangle.isDigit_of_mem_natural hb,
        Mangle.value_natural]
    simp only [Mangle.dropWhile_natural hpos, hwritable, Bool.not_true, Bool.false_eq_true, if_false,
      hempty, number?_natural]
    by_cases hlonger : (ofInt limit).length < (Mangle.natural n).length
    · rw [if_pos hlonger]
    · rw [if_neg hlonger, if_neg (by omega), if_pos hn]

end Decimal

namespace Grammar

/-- The mark begins with something other than the byte. -/
def misses (b : UInt8) : Text → Bool
  | [] => false
  | c :: _ => c.val != b.toNat

lemma accept_of_misses {b : UInt8} {mark : Text} (h : misses b mark) (limit : Int) (rest : Bytes)
    (nodes : References Node) :
    accept mark limit ⟨b :: rest, nodes⟩ = .found false ⟨b :: rest, nodes⟩ := by
  cases mark with
  | nil => cases h
  | cons c mark =>
    have hne : c.val ≠ b.toNat := bne_iff_ne.1 h
    simp only [accept, List.map_cons, Bytes.stripMark?, if_neg hne]

lemma misses_of_mem (mark : Text) {letters : Bytes} {b : UInt8} (hb : b ∈ letters)
    (h : letters.all (misses · mark)) : misses b mark :=
  List.all_eq_true.1 h b hb

/-- A mark is passed over where one of a list of bytes comes next, none of which it begins with. -/
lemma skip {α : Type} (mark : Text) {letters : Bytes} {b : UInt8} (hb : b ∈ letters)
    (h : letters.all (misses · mark)) (p q : Parser α) (limit : Int) (rest : Bytes)
    (nodes : References Node) :
    (do if ← accept mark then p else q) limit ⟨b :: rest, nodes⟩ = q limit ⟨b :: rest, nodes⟩ := by
  rw [Parser.bind_apply, accept_of_misses (misses_of_mem mark hb h)]
  rfl

variable {limit : Int} (hlimit : Decimal.isWritable limit) (nodes : References Node)

/-- A run of digits that no digit follows is the run that is read. -/
lemma natural_digits (limit : Int) {digits rest : Bytes} (hdigits : ∀ b ∈ digits, Bytes.isDigit b)
    (hne : digits ≠ []) (hrest : rest = [] ∨ rest.NoDigit) :
    natural limit ⟨digits ++ rest, nodes⟩ =
      match Decimal.bounded limit digits with
      | .within n => .found n ⟨rest, nodes⟩
      | .beyond => .refused ⟨rest, nodes⟩
      | .overlong => .stopped .overlong
      | .malformed => .stopped (.broken .notNumeral) := by
  have hspan : Bytes.spanDigits (digits ++ rest) = (digits, rest) := by
    cases rest with
    | nil =>
      rw [List.append_nil, Bytes.spanDigits, List.takeWhile_eq_self_iff.2 hdigits,
        List.dropWhile_eq_nil_iff.2 hdigits]
    | cons b rest =>
      have hb : Bytes.isDigit b = false := hrest.resolve_left (List.cons_ne_nil b rest)
      exact Bytes.spanDigits_append_cons hdigits (Bool.eq_false_iff.1 hb) rest
  obtain ⟨c, back, rfl⟩ := List.exists_cons_of_ne_nil hne
  unfold natural
  dsimp only
  generalize Bytes.spanDigits (c :: back ++ rest) = parts at hspan ⊢
  subst hspan
  rfl

/-- A written number in front of anything but a digit is the run of digits that is read. -/
lemma natural_written (limit : Int) (n : Nat) {rest : Bytes} (hrest : Bytes.NoDigit rest) :
    natural limit ⟨Mangle.natural n ++ rest, nodes⟩ =
      match Decimal.bounded limit (Mangle.natural n) with
      | .within n => .found n ⟨rest, nodes⟩
      | .beyond => .refused ⟨rest, nodes⟩
      | .overlong => .stopped .overlong
      | .malformed => .stopped (.broken .notNumeral) :=
  natural_digits nodes limit (fun _ => Mangle.isDigit_of_mem_natural) (Mangle.natural_ne_nil n)
    (.inr hrest)

include hlimit in
lemma natural_read {n : Nat} (hn : n ≤ limit) {rest : Bytes} (hrest : Bytes.NoDigit rest) :
    natural limit ⟨Mangle.natural n ++ rest, nodes⟩ = .found n ⟨rest, nodes⟩ := by
  rw [natural_written nodes limit n hrest, Decimal.bounded_natural hlimit hn]

/-- The numbers whose index is within a limit. -/
def IndexWithin (limit : Int) : Nat → Prop
  | 0 => True
  | n + 1 => n ≤ limit

instance (limit : Int) : DecidablePred (IndexWithin limit)
  | 0 => isTrue trivial
  | n + 1 => inferInstanceAs (Decidable ((n : Int) ≤ limit))

include hlimit in
lemma index_read {n : Nat} (hn : IndexWithin limit n) (rest : Bytes) :
    index limit ⟨Mangle.index n ++ rest, nodes⟩ = .found n ⟨rest, nodes⟩ := by
  cases n with
  | zero => rfl
  | succ n =>
    have hbytes : Mangle.index (n + 1) ++ rest = Mangle.natural n ++ 0x5F :: rest :=
      List.append_assoc _ _ _
    have hread := natural_read hlimit nodes hn (show Bytes.NoDigit (0x5F :: rest) from rfl)
    obtain ⟨b, back, hdigits, hb⟩ := Mangle.natural_begins n
    rw [hbytes]
    rw [hdigits, List.cons_append] at hread ⊢
    unfold index
    rw [skip "_" hb rfl, Parser.bind_apply, hread]
    rfl

/-- The index of a number is read back under any limit of few digits that does not refuse it. -/
lemma index_read_or_refused (hfew : Decimal.digitCount limit < Decimal.maxDigits) (n : Nat)
    (rest : Bytes) :
    index limit ⟨Mangle.index n ++ rest, nodes⟩ = .found n ⟨rest, nodes⟩ ∨
      ∃ s, index limit ⟨Mangle.index n ++ rest, nodes⟩ = .refused s := by
  by_cases hn : IndexWithin limit n
  · exact .inl (index_read (decide_eq_true (Nat.le_of_lt hfew)) nodes hn rest)
  · cases n with
    | zero => exact absurd trivial hn
    | succ n =>
      have hbytes : Mangle.index (n + 1) ++ rest = Mangle.natural n ++ 0x5F :: rest :=
        List.append_assoc _ _ _
      have hrefused := natural_written nodes limit n (show Bytes.NoDigit (0x5F :: rest) from rfl)
      rw [Decimal.bounded_natural_beyond hfew (Int.not_le.1 hn)] at hrefused
      obtain ⟨b, back, hdigits, hb⟩ := Mangle.natural_begins n
      refine .inr ⟨⟨0x5F :: rest, nodes⟩, ?_⟩
      rw [hbytes]
      rw [hdigits, List.cons_append] at hrefused ⊢
      unfold index
      rw [skip "_" hb rfl, Parser.bind_apply, hrefused]

include hlimit in
lemma builtinSize_read {n : Nat} (hn : n ≤ limit) (rest : Bytes) :
    builtinSize limit ⟨Mangle.natural n ++ 0x5F :: rest, nodes⟩ = .found n ⟨rest, nodes⟩ := by
  simp only [builtinSize, Parser.bind_apply,
    natural_read hlimit nodes hn (show Bytes.NoDigit (0x5F :: rest) from rfl)]
  rfl

end Grammar

end SwiftMangling
