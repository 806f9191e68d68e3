import SwiftMangling.Proofs.Punycode.Digits
import SwiftMangling.Proofs.Punycode.Insertions

/-!
# Encoded names

A name is decoded from its encoded form and from hardly anything else. The one form beside it has the
delimiter in front although the name has no ASCII characters to put there. All this is about encoded
forms that are texts; bytes are decoded as the text that has a character for each of them.
-/

namespace SwiftMangling.Punycode

variable {encoded name : Text}

/-- The digits of a name, after its ASCII characters. -/
def extension (name : Text) : Text :=
  (digitsFrom initialBias (below firstInserted name).length true (gaps name)).map digit

lemma delimiter_notMem_extension (name : Text) : delimiter ∉ extension name :=
  delimiter_notMem_digits fun _ => digitsFrom_lt

lemma encode_of_ascii (h : below firstInserted name ≠ []) :
    encode name = below firstInserted name ++ delimiter :: extension name := by
  have hempty : (below firstInserted name).isEmpty = false := List.isEmpty_eq_false_iff.2 h
  show (if (below firstInserted name).isEmpty then [] else below firstInserted name ++ [delimiter]) ++
    extension name = _
  rw [hempty, if_neg Bool.false_ne_true, List.append_assoc]
  rfl

lemma encode_of_noAscii (h : below firstInserted name = []) : encode name = extension name := by
  show (if (below firstInserted name).isEmpty then [] else below firstInserted name ++ [delimiter]) ++
    extension name = _
  rw [h]
  rfl

/-- What is encoded has the ASCII characters of the name, and letters and underscores. -/
lemma mem_encode {c : CodePoint} (h : c ∈ encode name) :
    (c ∈ name ∧ c.val < firstInserted) ∨ 0x41 ≤ c.val ∧ c.val ≤ 0x7A := by
  have hextension : ∀ c ∈ extension name, 0x41 ≤ c.val ∧ c.val ≤ 0x7A := by
    have hletters : ∀ d < 36, 0x41 ≤ (digit d).val ∧ (digit d).val ≤ 0x7A := by decide
    intro c hc
    obtain ⟨d, hd, rfl⟩ := List.mem_map.1 hc
    exact hletters d (digitsFrom_lt hd)
  by_cases hascii : below firstInserted name = []
  · rw [encode_of_noAscii hascii] at h
    exact .inr (hextension c h)
  · rw [encode_of_ascii hascii, List.mem_append, List.mem_cons] at h
    obtain h | rfl | h := h
    · exact .inl ⟨(List.mem_filter.1 h).1, lt_of_mem_below h⟩
    · exact .inr (by decide)
    · exact .inr (hextension c h)

/-- A name is decoded from its ASCII characters and the digits of its gaps, if it has no surrogates,
and from no other parts. -/
theorem decode?_eq_some_iff :
    decode? encoded = some name ↔
      (splitLast? encoded).getD ([], encoded) = (below firstInserted name, extension name) ∧
        ∀ c ∈ name, c.isSurrogate = false := by
  rcases hparts : (splitLast? encoded).getD ([], encoded) with ⟨ascii, extended⟩
  simp only [decode?, hparts, Option.bind_eq_bind, Option.bind_eq_some_iff, Option.guard_eq_some',
    List.all_eq_true, decide_eq_true_iff, Option.pure_def, Option.some.injEq, Prod.mk.injEq,
    Bool.not_eq_true']
  constructor
  · rintro ⟨-, hascii, digits, hdigits, gaps', hgaps, text, htext, -, hscalar, rfl⟩
    have hbelow : below firstInserted text = ascii :=
      (below_insertGaps? htext (Nat.le_refl _)).trans (below_eq_self hascii)
    have hready : Ready firstInserted [] ascii := ⟨nofun, hascii⟩
    have hsame : gaps' = gaps text :=
      insertGaps?_injective hready htext (hbelow ▸ insertGaps?_gaps text)
    obtain ⟨hvalues, rfl⟩ := mapM_digitValue?_eq_some_iff.1 hdigits
    rw [gaps?_eq_some_iff hvalues] at hgaps
    refine ⟨⟨hbelow.symm, ?_⟩, hscalar⟩
    rw [hgaps, hsame, extension, hbelow]
  · rintro ⟨⟨rfl, rfl⟩, hscalar⟩
    have hvalues : ∀ d ∈ digitsFrom initialBias (below firstInserted name).length true (gaps name),
        d < 36 := fun _ => digitsFrom_lt
    exact ⟨(), fun c hc => lt_of_mem_below hc, _, mapM_digitValue?_eq_some_iff.2 ⟨hvalues, rfl⟩,
      gaps name, (gaps?_eq_some_iff hvalues).2 rfl, name, insertGaps?_gaps name, (), hscalar, rfl⟩

/-- A name without surrogates is decoded from its encoded form. -/
theorem decode?_encode (hscalar : ∀ c ∈ name, c.isSurrogate = false) :
    decode? (encode name) = some name := by
  refine decode?_eq_some_iff.2 ⟨?_, hscalar⟩
  have hnone := delimiter_notMem_extension name
  by_cases hascii : below firstInserted name = []
  · rw [encode_of_noAscii hascii, splitLast?_eq_none hnone, hascii]
    rfl
  · rw [encode_of_ascii hascii, splitLast?_append _ hnone]
    rfl

lemma encode_ne_nil (hne : name ≠ []) (hscalar : ∀ c ∈ name, c.isSurrogate = false) :
    encode name ≠ [] := by
  intro hencode
  have hdecode := decode?_encode hscalar
  rw [hencode] at hdecode
  exact hne (Option.some.inj hdecode).symm

/-- Repeated letters around underscores, and the last code point. -/
theorem decode?_encode_underscores :
    decode? (encode [0xFC, 0x5F, 0x10FFFF, 0x5F, 0xFC]) =
      some [0xFC, 0x5F, 0x10FFFF, 0x5F, 0xFC] := by
  have hscalar : ([0xFC, 0x5F, 0x10FFFF, 0x5F, 0xFC] : Text).all fun c => !c.isSurrogate := by decide
  exact decode?_encode fun c hc => Bool.not_eq_true' _ ▸ List.all_eq_true.1 hscalar c hc

example : encode "münchen" = "mnchen_Dya" ∧ decode? "mnchen_Dya" = some ("münchen" : Text) := by
  decide +kernel

lemma below_eq_nil_iff : below firstInserted name = [] ↔ ∀ c ∈ name, firstInserted ≤ c.val := by
  simp only [below, List.filter_eq_nil_iff, decide_eq_true_iff, Nat.not_lt]

lemma forms_of_decode? (h : decode? encoded = some name) :
    encoded = encode name ∨
      (∀ c ∈ name, firstInserted ≤ c.val) ∧ encoded = delimiter :: encode name := by
  have hparts := (decode?_eq_some_iff.1 h).1
  cases hsplit : splitLast? encoded with
  | none =>
    rw [hsplit] at hparts
    obtain ⟨hascii, rfl⟩ := Prod.mk.inj hparts
    exact .inl (encode_of_noAscii hascii.symm).symm
  | some parts =>
    rw [hsplit] at hparts
    obtain rfl : parts = (below firstInserted name, extension name) := hparts
    have hencoded := append_of_splitLast? hsplit
    by_cases hascii : below firstInserted name = []
    · refine .inr ⟨below_eq_nil_iff.1 hascii, ?_⟩
      rw [hencoded, hascii, encode_of_noAscii hascii]
      rfl
    · exact .inl (hencoded.trans (encode_of_ascii hascii).symm)

/-- What is decoded as a name, which has no surrogates, is the encoded form of the name, or it has the
delimiter before that form and the name has no ASCII characters. So there are at most two forms that
are decoded as the same name, of which one has the delimiter before the other. -/
theorem decode?_canonical (h : decode? encoded = some name) :
    (∀ c ∈ name, c.isSurrogate = false) ∧
      (encoded = encode name ∨
        (∀ c ∈ name, firstInserted ≤ c.val) ∧ encoded = delimiter :: encode name) ∧
      ∀ other, decode? other = some name → other ≠ encoded →
        (∀ c ∈ name, firstInserted ≤ c.val) ∧
          (other = delimiter :: encoded ∨ encoded = delimiter :: other) := by
  refine ⟨(decode?_eq_some_iff.1 h).2, forms_of_decode? h, fun other hother hne => ?_⟩
  obtain rfl | ⟨hascii, rfl⟩ := forms_of_decode? h
  · obtain rfl | ⟨hascii, rfl⟩ := forms_of_decode? hother
    · exact absurd rfl hne
    · exact ⟨hascii, .inl rfl⟩
  · obtain rfl | ⟨-, rfl⟩ := forms_of_decode? hother
    · exact ⟨hascii, .inr rfl⟩
    · exact absurd rfl hne

/-- Both forms of a name of one letter. -/
theorem decode?_canonical_letter :
    decode? "tda" = some [0xFC] ∧ decode? "_tda" = some [0xFC] ∧
      (∀ c ∈ ([0xFC] : Text), firstInserted ≤ c.val) ∧
      (("_tda" : Text) = delimiter :: ("tda" : Text) ∨
        ("tda" : Text) = delimiter :: ("_tda" : Text)) := by
  have hplain : decode? "tda" = some [0xFC] := by decide +kernel
  have hdelimiter : decode? "_tda" = some [0xFC] := by decide +kernel
  have hne : ("_tda" : Text) ≠ "tda" := by decide
  exact ⟨hplain, hdelimiter, (decode?_canonical hplain).2.2 "_tda" hdelimiter hne⟩

end SwiftMangling.Punycode
