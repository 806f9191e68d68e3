import SwiftMangling.Text.Basic

/-!
UTF-8 in both directions. A byte string need not be UTF-8: a byte that belongs to no character is
escaped as the surrogate U+DC00 plus its number, and the encoder turns such a surrogate back into
the byte, so that reading bytes as text loses nothing.
-/

namespace SwiftMangling.Utf8

/-- The bytes of one code point, by the bit pattern of its size. -/
def encodeCodePoint (c : CodePoint) : Bytes :=
  let v := c.val
  if v < 0x80 then [UInt8.ofNat v]
  else if v < 0x800 then [UInt8.ofNat (0xC0 + v / 64), UInt8.ofNat (0x80 + v % 64)]
  else if v < 0x10000 then
    [UInt8.ofNat (0xE0 + v / 4096), UInt8.ofNat (0x80 + v / 64 % 64), UInt8.ofNat (0x80 + v % 64)]
  else
    [UInt8.ofNat (0xF0 + v / 262144), UInt8.ofNat (0x80 + v / 4096 % 64),
      UInt8.ofNat (0x80 + v / 64 % 64), UInt8.ofNat (0x80 + v % 64)]

/-- The number that the bits of a sequence spell and the length of the sequence, both as its first
byte announces them; nothing is checked yet. -/
def spelled? : Bytes → Option (Nat × Nat)
  | [] => none
  | a :: rest =>
    let payload (b : UInt8) : Nat := b.toNat % 64
    if a < 0x80 then some (a.toNat, 1)
    else if a < 0xE0 then
      match rest with
      | b :: _ => some (a.toNat % 32 * 64 + payload b, 2)
      | _ => none
    else if a < 0xF0 then
      match rest with
      | b :: c :: _ => some (a.toNat % 16 * 4096 + payload b * 64 + payload c, 3)
      | _ => none
    else
      match rest with
      | b :: c :: d :: _ =>
        some (a.toNat % 8 * 262144 + payload b * 4096 + payload c * 64 + payload d, 4)
      | _ => none

/-- The character at the front and its length. A sequence is a character when it is the encoding
of the number that it spells, and that number is no surrogate. -/
def scalar? (bs : Bytes) : Option (CodePoint × Nat) :=
  match spelled? bs with
  | none => none
  | some (v, length) =>
    if h : v < 0x110000 then
      let c : CodePoint := ⟨v, h⟩
      if !c.isSurrogate && encodeCodePoint c == bs.take length then some (c, length) else none
    else none

/-- Decodes with a skip count: the bytes of a character after its first are passed over. -/
def decodeSkipping (stray : UInt8 → Text) : Nat → Bytes → Text
  | _, [] => []
  | skip + 1, _ :: bs => decodeSkipping stray skip bs
  | 0, b :: bs =>
    match scalar? (b :: bs) with
    | some (c, length) => c :: decodeSkipping stray (length - 1) bs
    | none => stray b ++ decodeSkipping stray 0 bs

/-- Decodes, with a rule for the bytes that belong to no character. -/
def decodeWith (stray : UInt8 → Text) (bs : Bytes) : Text :=
  decodeSkipping stray 0 bs

/-- The surrogate that stands for a stray byte. -/
def escapeByte (b : UInt8) : CodePoint :=
  ⟨0xDC00 + b.toNat, by have := b.toNat_lt; omega⟩

/-- The stray byte that a surrogate stands for; an ASCII byte is never stray. -/
def escapedByte? (c : CodePoint) : Option UInt8 :=
  if 0xDC80 ≤ c.val ∧ c.val ≤ 0xDCFF then some (UInt8.ofNat (c.val - 0xDC00)) else none

/-- Decodes with every stray byte escaped. -/
def decode : Bytes → Text :=
  decodeWith fun b => [escapeByte b]

/-- Encodes every code point, surrogates included, by its bit pattern. -/
def encode (t : Text) : Bytes :=
  t.flatMap encodeCodePoint

/-- Undoes `decode`: escaped bytes become bytes again; there is no answer for a text with a
surrogate that escapes nothing. -/
def encodeEscaped? : Text → Option Bytes
  | [] => some []
  | c :: cs =>
    match escapedByte? c with
    | some b => (encodeEscaped? cs).map (b :: ·)
    | none => if c.isSurrogate then none else (encodeEscaped? cs).map (encodeCodePoint c ++ ·)

end SwiftMangling.Utf8
