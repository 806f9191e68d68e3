import SwiftMangling.Bytes

/-!
Text as a list of code points. Surrogates are code points here: a name may hold them alone, and a
byte that is no part of a character is shown as one.
-/

namespace SwiftMangling

/-- A Unicode code point, surrogates included. -/
abbrev CodePoint := Fin 0x110000

namespace CodePoint

theorem toNat_lt (c : Char) : c.toNat < 0x110000 := by
  have h := c.valid
  simp only [UInt32.isValidChar, Nat.isValidChar] at h
  show c.val.toNat < _
  omega

def ofChar (c : Char) : CodePoint :=
  ⟨c.toNat, toNat_lt c⟩

/-- The code point with a number, or the replacement character for a number that is too large. -/
def ofNat (n : Nat) : CodePoint :=
  if h : n < 0x110000 then ⟨n, h⟩ else ⟨0xFFFD, by decide⟩

def space : CodePoint :=
  ofChar ' '

def ofByte (b : UInt8) : CodePoint :=
  ⟨b.toNat, Nat.lt_trans b.toNat_lt (by decide)⟩

/-- The halves of UTF-16 pairs, which stand for no character. -/
def isSurrogate (c : CodePoint) : Bool :=
  0xD800 ≤ c.val && c.val ≤ 0xDFFF

/-- The lower-case form of an ASCII capital; every other code point is kept. -/
def asciiLower (c : CodePoint) : CodePoint :=
  if 0x41 ≤ c.val ∧ c.val ≤ 0x5A then ofNat (c.val + 0x20) else c

end CodePoint

/-- A sequence of code points. -/
abbrev Text := List CodePoint

namespace Text

def ofString (s : String) : Text :=
  s.toList.map CodePoint.ofChar

instance : Coe String Text := ⟨ofString⟩

/-- The text that has one code point, of the same number, for each byte. -/
def ofBytes (bs : Bytes) : Text :=
  bs.map CodePoint.ofByte

/-- The bytes of a text whose code points are all below 256. -/
def toBytes? : Text → Option Bytes
  | [] => some []
  | c :: cs => if c.val < 256 then (toBytes? cs).map (UInt8.ofNat c.val :: ·) else none

def newline : CodePoint :=
  .ofChar '\n'

/-- The parts between the occurrences of a separator; there is always at least one. -/
def splitOn (separator : CodePoint) : Text → List Text
  | [] => [[]]
  | c :: cs =>
    match splitOn separator cs with
    | [] => [[c]]
    | part :: parts => if c = separator then [] :: part :: parts else (c :: part) :: parts

/-- The texts in order with a separator between each two. -/
def join (separator : Text) (parts : List Text) : Text :=
  (parts.intersperse separator).flatten

/-- The order of texts by their code points, a text before its extensions. -/
def le : Text → Text → Bool
  | [], _ => true
  | _ :: _, [] => false
  | a :: as, b :: bs => a.val < b.val || a = b && le as bs

/-- Puts a text before the first one that is not before it. -/
def insertSorted (t : Text) : List Text → List Text
  | [] => [t]
  | u :: us => if le t u then t :: u :: us else u :: insertSorted t us

def sorted (texts : List Text) : List Text :=
  texts.foldr insertSorted []

/-- Pads on the right with spaces up to a width. -/
def padRight (width : Nat) (t : Text) : Text :=
  t ++ List.replicate (width - t.length) CodePoint.space

theorem splitOn_ne_nil (separator : CodePoint) (t : Text) : splitOn separator t ≠ [] := by
  cases t with
  | nil => simp [splitOn]
  | cons c cs =>
    simp only [splitOn]
    split
    · simp
    · split <;> simp

theorem length_ofBytes (bs : Bytes) : (ofBytes bs).length = bs.length :=
  List.length_map _

theorem ofBytes_append (front back : Bytes) : ofBytes (front ++ back) = ofBytes front ++ ofBytes back :=
  List.map_append

theorem toBytes?_ofBytes (bs : Bytes) : toBytes? (ofBytes bs) = some bs := by
  induction bs with
  | nil => rfl
  | cons b bs ih =>
    have h : b.toNat < 256 := b.toNat_lt
    simp only [ofBytes, List.map_cons, toBytes?, CodePoint.ofByte] at ih ⊢
    simp [h, ih]

end Text

end SwiftMangling
