import SwiftMangling.Grammar.Generic
import Mathlib.Algebra.Group.Nat.Defs
import Mathlib.Data.List.TakeWhile
import Mathlib.Tactic.Common

/-!
# Numbers in names

A run of digits is read without a breach. Where the limit can be written, it comes to a number within
the limit or is refused, so that every number of the grammar can be written too.
-/

namespace SwiftMangling

namespace Decimal

lemma length_ofInt_le (i : Int) : (ofInt i).length ≤ digitCount i + 1 := by
  cases i with
  | ofNat n => exact Nat.le_succ _
  | negSucc n => exact Nat.le_refl _

lemma digitCount_le_iff {n k : Nat} (hk : 0 < k) : digitCount n ≤ k ↔ n < 10 ^ k :=
  Nat.length_toDigits_le_iff (by omega) hk

/-- Little more than a number of few digits still has few digits. -/
lemma digitCount_le_succ {i : Int} {n k : Nat} (hi : digitCount i ≤ k) (hn : n ≤ i.natAbs + 2) :
    digitCount n ≤ k + 1 := by
  have hk : 0 < k := Nat.lt_of_lt_of_le Nat.length_toDigits_pos hi
  have habs : i.natAbs < 10 ^ k := (Nat.length_toDigits_le_iff (by omega) hk).1 hi
  apply (digitCount_le_iff (Nat.succ_pos k)).2
  have hpos : 0 < 10 ^ k := Nat.pow_pos (by omega)
  rw [Nat.pow_succ]
  omega

lemma number?_eq_some {numeral : Bytes} (hne : numeral ≠ [])
    (hdigits : ∀ b ∈ numeral, Bytes.isDigit b) : number? numeral = some (value numeral) := by
  have hempty : numeral.isEmpty = false := List.isEmpty_eq_false_iff.2 hne
  have hall : numeral.all Bytes.isDigit = true := List.all_eq_true.2 hdigits
  unfold number?
  rw [hempty, hall]
  rfl

/-- The significant digits of a run are a numeral, in which nothing at all stands for zero. -/
lemma exists_number?_significant {significant : Bytes} (hdigits : ∀ b ∈ significant, Bytes.isDigit b) :
    ∃ n, number? (if significant.isEmpty then [0x30] else significant) = some n := by
  by_cases hempty : significant.isEmpty
  · rw [if_pos hempty]
    refine ⟨_, number?_eq_some (List.cons_ne_nil _ _) fun b hb => ?_⟩
    rw [List.mem_singleton.1 hb]
    rfl
  · rw [if_neg hempty]
    exact ⟨_, number?_eq_some (by simpa using hempty) hdigits⟩

lemma isDigit_of_mem_significant {digits : Bytes} (hdigits : ∀ b ∈ digits, Bytes.isDigit b) :
    ∀ b ∈ digits.dropWhile (· == 0x30), Bytes.isDigit b :=
  fun b hb => hdigits b ((List.dropWhile_sublist _).mem hb)

/-- Under a limit that can be written, a run of digits is beyond it or is a number within it. -/
lemma bounded_cases {limit : Int} (hlimit : digitCount limit < maxDigits) {digits : Bytes}
    (hdigits : ∀ b ∈ digits, Bytes.isDigit b) :
    bounded limit digits = .beyond ∨
      ∃ n : Nat, bounded limit digits = .within n ∧ (n : Int) ≤ limit := by
  have hwritable : isWritable limit = true := decide_eq_true (Nat.le_of_lt hlimit)
  have hlength := length_ofInt_le limit
  obtain ⟨n, hn⟩ := exists_number?_significant (isDigit_of_mem_significant hdigits)
  unfold bounded
  set significant := digits.dropWhile (· == 0x30) with hsignificant
  simp only [hwritable, Bool.not_true, Bool.false_eq_true, if_false]
  by_cases hlonger : (ofInt limit).length < significant.length
  · exact .inl (if_pos hlonger)
  · rw [if_neg hlonger, if_neg (by omega), hn]
    by_cases hbeyond : limit < n
    · exact .inl (if_pos hbeyond)
    · exact .inr ⟨n, if_neg hbeyond, by omega⟩

/-- A run of digits is a numeral under any limit. -/
lemma bounded_ne_malformed (limit : Int) {digits : Bytes} (hdigits : ∀ b ∈ digits, Bytes.isDigit b) :
    bounded limit digits ≠ .malformed := by
  obtain ⟨n, hn⟩ := exists_number?_significant (isDigit_of_mem_significant hdigits)
  unfold bounded
  simp only [hn]
  split
  · nofun
  · split
    · nofun
    · split
      · nofun
      · split <;> nofun

/-- A zero in front of a numeral does not change its number. -/
lemma value_dropWhile_zero (digits : Bytes) :
    value (digits.dropWhile (· == 0x30)) = value digits := by
  induction digits with
  | nil => rfl
  | cons b digits ih =>
    by_cases hb : b = 0x30
    · subst hb
      exact ih
    · rw [List.dropWhile_cons_of_neg (by simpa using hb)]

/-- What is within a limit is the number that the digits spell. -/
lemma value_of_bounded {limit : Int} {digits : Bytes} {n : Nat}
    (h : bounded limit digits = .within n) : value digits = n := by
  have hnumber : ∀ {numeral : Bytes} {m : Nat}, number? numeral = some m →
      value numeral = m := by
    intro numeral m hm
    unfold number? at hm
    split at hm
    · cases hm
    · exact Option.some.inj hm
  rw [← value_dropWhile_zero]
  unfold bounded at h
  simp only at h
  split at h
  · cases h
  · split at h
    · cases h
    · split at h
      · cases h
      · split at h
        · cases h
        · next m hm =>
          split at h
          · cases h
          · cases h
            have hvalue := hnumber hm
            split at hvalue
            · next hempty =>
              rw [List.isEmpty_iff.1 hempty]
              exact hvalue
            · exact hvalue

/-- What is within a limit is not above it. -/
lemma le_of_bounded {limit : Int} {digits : Bytes} {n : Nat} (h : bounded limit digits = .within n) :
    (n : Int) ≤ limit := by
  unfold bounded at h
  simp only at h
  split at h
  · cases h
  · split at h
    · cases h
    · split at h
      · cases h
      · split at h
        · cases h
        · next m hm =>
          split at h
          · cases h
          · next hle =>
            cases h
            exact Int.not_lt.1 hle

end Decimal

lemma not_isWritable_of_le {i : Int} (h : 10 ^ Decimal.maxDigits ≤ i.natAbs) :
    ¬Decimal.isWritable i := by
  intro hwritable
  have hcount : Decimal.digitCount (i.natAbs : Int) ≤ Decimal.maxDigits := of_decide_eq_true hwritable
  have hlt := (Decimal.digitCount_le_iff (by decide)).1 hcount
  omega

namespace Bytes

lemma isDigit_of_mem_spanDigits {bytes : Bytes} {b : UInt8} (h : b ∈ (spanDigits bytes).1) :
    isDigit b = true :=
  List.mem_takeWhile_imp h

/-- A run of digits ends before the first byte that is no digit. -/
lemma spanDigits_append_cons {digits : Bytes} (hdigits : ∀ b ∈ digits, isDigit b) {b : UInt8}
    (hb : ¬isDigit b) (rest : Bytes) : spanDigits (digits ++ b :: rest) = (digits, b :: rest) := by
  unfold spanDigits
  rw [List.takeWhile_append_of_pos hdigits, List.dropWhile_append_of_pos hdigits,
    List.takeWhile_cons_of_neg hb, List.dropWhile_cons_of_neg hb, List.append_nil]

lemma not_isDigit_of_spanDigits {bytes rest : Bytes} {b : UInt8}
    (h : (spanDigits bytes).2 = b :: rest) : ¬isDigit b := by
  have hhead := List.head?_dropWhile_not isDigit bytes
  rw [show bytes.dropWhile isDigit = b :: rest from h] at hhead
  simpa using hhead

end Bytes

namespace Grammar

open Decimal

/-- A number is refused, or it is found within the limit. -/
lemma natural_cases {limit : Int} (hlimit : digitCount limit < maxDigits) (s : State) :
    (∃ s', natural limit s = .refused s') ∨
      ∃ n s', natural limit s = .found n s' ∧ (n : Int) ≤ limit := by
  have hdigits : ∀ b ∈ (Bytes.spanDigits s.unread).1, Bytes.isDigit b := fun b hb =>
    Bytes.isDigit_of_mem_spanDigits hb
  unfold natural
  split
  · exact .inl ⟨s, rfl⟩
  · next digits rest _ hspan =>
    rw [hspan] at hdigits
    obtain hbeyond | ⟨n, hwithin, hn⟩ := bounded_cases hlimit hdigits
    · rw [hbeyond]
      exact .inl ⟨_, rfl⟩
    · rw [hwithin]
      exact .inr ⟨n, _, rfl, hn⟩

/-- Reading a number breaks no rule, under any limit. -/
lemma natural_ne_broken (limit : Int) (s : State) (breach : Breach) :
    natural limit s ≠ .stopped (.broken breach) := by
  have hdigits : ∀ b ∈ (Bytes.spanDigits s.unread).1, Bytes.isDigit b := fun b hb =>
    Bytes.isDigit_of_mem_spanDigits hb
  unfold natural
  split
  · nofun
  · next digits rest _ hspan =>
    rw [hspan] at hdigits
    have hwell := bounded_ne_malformed limit hdigits
    cases hbounded : bounded limit digits with
    | malformed => exact absurd hbounded hwell
    | _ => nofun

/-- The digits of a number that is found. -/
lemma natural_found {limit : Int} {s s' : State} {n : Nat}
    (h : natural limit s = .found n s') :
    ∃ digits : Bytes, digits ≠ [] ∧ (∀ b ∈ digits, Bytes.isDigit b = true) ∧
      Decimal.value digits = n ∧ s.unread = digits ++ s'.unread := by
  unfold natural at h
  split at h
  · cases h
  · next digits rest hne hspan =>
    split at h
    · next m hm =>
      cases h
      have hdigits : digits = (Bytes.spanDigits s.unread).1 := by rw [hspan]
      have hrest : rest = (Bytes.spanDigits s.unread).2 := by rw [hspan]
      refine ⟨digits, hne, ?_, Decimal.value_of_bounded hm, ?_⟩
      · intro b hb
        rw [hdigits] at hb
        exact Bytes.isDigit_of_mem_spanDigits hb
      · show s.unread = digits ++ rest
        rw [hdigits, hrest, Bytes.spanDigits_append]
    · cases h
    · cases h
    · cases h

lemma accept_cases (mark : Text) (limit : Int) (s : State) :
    (∃ rest, accept mark limit s = .found true ⟨rest, s.recorded⟩) ∨
      accept mark limit s = .found false s := by
  unfold accept
  cases Bytes.stripMark? (mark.map Fin.val) s.unread with
  | none => exact .inr rfl
  | some rest => exact .inl ⟨rest, rfl⟩

/-- A mark is taken where it was found. -/
lemma accept_found {limit : Int} {s s' : State} {mark : Text} (front : Bytes) {taken : Bool}
    (hmark : front.map UInt8.toNat = mark.map Fin.val) (h : accept mark limit s = .found taken s') :
    s.unread = (if taken then front else []) ++ s'.unread := by
  unfold accept at h
  split at h
  · next rest hstrip =>
    cases h
    obtain ⟨front', hfront', hunread⟩ := Bytes.stripMark?_append hstrip
    have hsame : front' = front :=
      (List.map_inj_right fun _ _ => UInt8.toNat_inj.1).1 (hfront'.trans hmark.symm)
    rw [hsame] at hunread
    exact hunread.symm
  · cases h
    rfl

/-- An index is refused, or it is found and is at most one beyond the limit. -/
lemma index_cases {limit : Int} (hlimit : digitCount limit < maxDigits) (s : State) :
    (∃ s', index limit s = .refused s') ∨
      ∃ n s', index limit s = .found n s' ∧ n ≤ limit.natAbs + 1 := by
  simp only [index, Parser.bind_apply]
  obtain ⟨rest, hmark⟩ | hmark := accept_cases "_" limit s
  · rw [hmark]
    exact .inr ⟨0, _, rfl, Nat.zero_le _⟩
  · rw [hmark]
    simp only [Bool.false_eq_true, if_false, Parser.bind_apply]
    obtain ⟨s', hrefused⟩ | ⟨n, s', hfound, hn⟩ := natural_cases hlimit s
    · rw [hrefused]
      exact .inl ⟨s', rfl⟩
    · rw [hfound]
      simp only [demand, Parser.bind_apply]
      obtain ⟨rest, hend⟩ | hend := accept_cases "_" limit s'
      · rw [hend]
        exact .inr ⟨n + 1, _, rfl, by omega⟩
      · rw [hend]
        exact .inl ⟨s', rfl⟩

/-- A number that is found is within the limit. -/
lemma le_of_natural {limit : Int} {s s' : State} {n : Nat} (h : natural limit s = .found n s') :
    (n : Int) ≤ limit := by
  unfold natural at h
  split at h
  · cases h
  · split at h
    · next hwithin =>
      cases h
      exact le_of_bounded hwithin
    · cases h
    · cases h
    · cases h

/-- An index that is found is at most one beyond the limit. -/
lemma le_of_index {limit : Int} {s s' : State} {n : Nat} (h : index limit s = .found n s') :
    n = 0 ∨ (n : Int) ≤ limit + 1 := by
  obtain ⟨found, s₁, -, h⟩ := Parser.bind_found h
  cases found with
  | true =>
    cases h
    exact .inl rfl
  | false =>
    obtain ⟨m, s₂, hnatural, h⟩ := Parser.bind_found h
    obtain ⟨_, s₃, -, h⟩ := Parser.bind_found h
    cases h
    exact .inr (Int.add_le_add_right (le_of_natural hnatural) 1)

/-- The depth of a generic parameter can be written, so that only its number can be refused. -/
lemma genericParamIndex_cases {limit : Int} (hlimit : digitCount limit < maxDigits) (s : State) :
    (∃ s', genericParamIndex limit s = .refused s') ∨
      ∃ node s', genericParamIndex limit s = .found node s' := by
  simp only [genericParamIndex, Parser.bind_apply]
  obtain ⟨rest, hdepth⟩ | hdepth := accept_cases "d" limit s
  · rw [hdepth]
    simp only [if_true, Parser.bind_apply]
    obtain ⟨s', hrefused⟩ | ⟨depth, s', hfound, hbound⟩ := index_cases hlimit ⟨rest, s.recorded⟩
    · rw [hrefused]
      exact .inl ⟨s', rfl⟩
    · rw [hfound]
      simp only
      obtain ⟨s'', hrefused⟩ | ⟨number, s'', hfound, -⟩ := index_cases hlimit s'
      · rw [hrefused]
        exact .inl ⟨s'', rfl⟩
      · rw [hfound]
        have hcount := digitCount_le_succ (Nat.le_pred_of_lt hlimit) (Nat.succ_le_succ hbound)
        have hwritable : isWritable ((depth + 1 : Nat) : Int) = true := decide_eq_true hcount
        refine .inr ⟨genericParam (depth + 1) number, s'', ?_⟩
        change writtenParam (depth + 1) number limit s'' = _
        rw [writtenParam, if_pos hwritable]
        rfl
  · rw [hdepth]
    simp only [Bool.false_eq_true, if_false, Parser.bind_apply]
    obtain ⟨rest, hfirst⟩ | hfirst := accept_cases "x" limit s
    · rw [hfirst]
      exact .inr ⟨_, _, rfl⟩
    · rw [hfirst]
      simp only [Bool.false_eq_true, if_false, Parser.bind_apply]
      obtain ⟨s', hrefused⟩ | ⟨number, s', hfound, -⟩ := index_cases hlimit s
      · rw [hrefused]
        exact .inl ⟨s', rfl⟩
      · rw [hfound]
        exact .inr ⟨_, s', rfl⟩

end Grammar

end SwiftMangling
