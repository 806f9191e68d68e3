/-!
Strings of bytes: the form in which a mangled name is read. A mark is cut off the front of the
unread bytes, a run of digits is split from what follows it, and a search stops before the first
place where a mark begins.
-/

namespace SwiftMangling

/-- A string of bytes. -/
abbrev Bytes := List UInt8

namespace Bytes

/-- The character with the number of a byte. -/
def char (b : UInt8) : Char :=
  Char.ofNat b.toNat

/-- The ASCII decimal digits. -/
def isDigit (b : UInt8) : Bool :=
  0x30 ≤ b && b ≤ 0x39

/-- What follows a mark at the front; a mark is given by the numbers of its characters. -/
def stripMark? : List Nat → Bytes → Option Bytes
  | [], bs => some bs
  | _ :: _, [] => none
  | m :: ms, b :: bs => if m = b.toNat then stripMark? ms bs else none

/-- Splits at the first place where the mark begins; the second part starts with the mark. -/
def breakMark? (mark : List Nat) : Bytes → Option (Bytes × Bytes)
  | [] => if (stripMark? mark []).isSome then some ([], []) else none
  | b :: bs =>
    if (stripMark? mark (b :: bs)).isSome then some ([], b :: bs)
    else (breakMark? mark bs).map fun (before, rest) => (b :: before, rest)

/-- The longest run of digits at the front, and what follows it. -/
def spanDigits (bs : Bytes) : Bytes × Bytes :=
  (bs.takeWhile isDigit, bs.dropWhile isDigit)

theorem spanDigits_append (bs : Bytes) : (spanDigits bs).1 ++ (spanDigits bs).2 = bs :=
  List.takeWhile_append_dropWhile

theorem stripMark?_append {mark : List Nat} {bs rest : Bytes} (h : stripMark? mark bs = some rest) :
    ∃ front : Bytes, front.map UInt8.toNat = mark ∧ front ++ rest = bs := by
  induction mark generalizing bs with
  | nil => exact ⟨[], rfl, (Option.some.inj h).symm⟩
  | cons m ms ih =>
    cases bs with
    | nil => simp [stripMark?] at h
    | cons b bs =>
      simp only [stripMark?] at h
      split at h
      · next hm =>
        obtain ⟨front, hfront, rfl⟩ := ih h
        exact ⟨b :: front, by simp [hfront, hm], rfl⟩
      · cases h

theorem stripMark?_map_append (front rest : Bytes) :
    stripMark? (front.map UInt8.toNat) (front ++ rest) = some rest := by
  induction front with
  | nil => rfl
  | cons b front ih => simp [stripMark?, ih]

theorem breakMark?_append {mark : List Nat} {bs before rest : Bytes}
    (h : breakMark? mark bs = some (before, rest)) : before ++ rest = bs := by
  induction bs generalizing before rest with
  | nil =>
    simp only [breakMark?] at h
    split at h
    · cases h; rfl
    · cases h
  | cons b bs ih =>
    simp only [breakMark?] at h
    split at h
    · cases h; rfl
    · obtain ⟨⟨pre, suf⟩, hs, he⟩ := Option.map_eq_some_iff.1 h
      cases he
      simp [ih hs]

end Bytes

end SwiftMangling
