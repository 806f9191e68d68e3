import SwiftMangling.Position
import SwiftMangling.Text.Quoted
import SwiftMangling.Text.Utf8

/-!
Mangled names as they are handed in, as text or as bytes, and how they are shown in one line of
diagnostics.
-/

namespace SwiftMangling

namespace Text

/-- The start of a text up to a length; a negative length says how much is dropped at the end. -/
def clip (length : Int) (t : Text) : Text :=
  t.take (Position.before t.length length)

/-- A text that is longer than the limit is clipped and gets three dots, and no line break is left
in it. -/
def brief (limit : Int) (t : Text) : Text :=
  let shown := if limit < t.length then clip limit t ++ "..." else t
  shown.filter fun c => c ≠ .ofChar '\n' ∧ c ≠ .ofChar '\r'

end Text

/-- A name that may be a mangling. -/
inductive MangledName where
  | text (content : Text)
  | bytes (content : Bytes)
  deriving DecidableEq, Repr, Inhabited

namespace MangledName

/-- The bytes of a name. Escaped bytes in a text become bytes again, unless the text also has
surrogates that escape nothing: then every surrogate is encoded like a character. -/
def toBytes : MangledName → Bytes
  | text content => (Utf8.encodeEscaped? content).getD (Utf8.encode content)
  | bytes content => content

/-- A name as it is shown, with an escape for each stray byte. -/
def shown : MangledName → Text
  | text content => content
  | bytes content => Utf8.decodeWith Text.byteEscape content

/-- A name as it is shown in one line. -/
def brief (limit : Int) (name : MangledName) : Text :=
  Text.brief limit name.shown

end MangledName

end SwiftMangling
