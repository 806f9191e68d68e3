import SwiftMangling.Decimal
import SwiftMangling.Position

/-!
A cursor over the bytes of a name. It can be moved back as well, even past the front of the name:
its position then counts from the end, and what it reads wraps around accordingly.
-/

namespace SwiftMangling

/-- A position in a name. -/
structure Cursor where
  name : Bytes
  /-- Counted from the front, or from the end if it is negative. -/
  position : Int
  deriving DecidableEq, Repr, Inhabited

namespace Cursor

def start (name : Bytes) : Cursor :=
  ⟨name, 0⟩

/-- How many bytes stand before the position. -/
def place (c : Cursor) : Nat :=
  Position.before c.name.length c.position

def taken (c : Cursor) : Bytes :=
  c.name.take c.place

def unread (c : Cursor) : Bytes :=
  c.name.drop c.place

def moveTo (c : Cursor) (position : Int) : Cursor :=
  { c with position }

def atEnd (c : Cursor) : Bool :=
  c.name.length ≤ c.position

/-- The next byte, or a full stop at the end. Before the first byte of the name there is none. -/
def peek? (c : Cursor) : Option UInt8 :=
  if c.atEnd then some 0x2E else Position.item? c.name c.position

/-- Takes the next byte; at the end there is a full stop, and the cursor stays. -/
def next? (c : Cursor) : Option (UInt8 × Cursor) :=
  c.peek?.map fun b => (b, if c.atEnd then c else c.moveTo (c.position + 1))

/-- Takes a mark if it comes next. -/
def accept? (c : Cursor) (mark : Text) : Option Cursor :=
  (Bytes.stripMark? (mark.map Fin.val) c.unread).map fun _ => c.moveTo (c.position + mark.length)

def hasAtLeast (c : Cursor) (amount : Int) : Bool :=
  amount ≤ c.name.length - c.position

/-- Moves by a number of bytes if there are as many, and takes those between the two positions. A
negative number moves back. -/
def advance? (c : Cursor) (amount : Int) : Option (Bytes × Cursor) :=
  if c.hasAtLeast amount then
    let last := c.position + amount
    some (Position.slice c.name c.position last, c.moveTo last)
  else none

/-- Takes the longest run of digits, if there is one. The run is looked for at the front of the name
when the position is negative. -/
def digits? (c : Cursor) : Option (Bytes × Cursor) :=
  let first := c.position.toNat
  match Bytes.spanDigits (c.name.drop first) with
  | ([], _) => none
  | (digits, _) => some (digits, c.moveTo (first + digits.length))

/-- Takes what comes before a mark and says whether the mark was found; without the mark, takes all
that is left. -/
def readUntil (c : Cursor) (mark : Text) : (Bytes × Bool) × Cursor :=
  match Bytes.breakMark? (mark.map Fin.val) c.unread with
  | some (before, _) => ((before, true), c.moveTo (c.place + before.length))
  | none => ((c.unread, false), c.moveTo c.name.length)

/-- Takes all that is left. -/
def takeRest (c : Cursor) : Bytes × Cursor :=
  (c.unread, c.moveTo c.name.length)

/-- The name with an arrow at the position, and the position. -/
def render? (c : Cursor) : Option Text :=
  (Decimal.text? c.position).map fun position =>
    "NameSource(" ++ Text.ofBytes c.taken ++ "→" ++ Text.ofBytes c.unread ++ ", " ++ position ++ ")"

theorem taken_append_unread (c : Cursor) : c.taken ++ c.unread = c.name :=
  List.take_append_drop c.place c.name

theorem place_of_nonneg {c : Cursor} (h : 0 ≤ c.position) (h' : c.position ≤ c.name.length) :
    (c.place : Int) = c.position := by
  simp only [place, Position.before, Position.fromFront, if_neg (Int.not_lt.2 h)]
  omega

end Cursor

end SwiftMangling
