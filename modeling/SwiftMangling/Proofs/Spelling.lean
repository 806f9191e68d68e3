import SwiftMangling.MangledName
import SwiftMangling.Mangle.Identifier
import SwiftMangling.Proofs.Numerals
import SwiftMangling.Proofs.Assembly
import SwiftMangling.Proofs.Punycode.RoundTrip
import SwiftMangling.Proofs.Utf8

/-!
# The spelling of identifiers

An identifier takes marks, a number and as many bytes as the number says. The text that it is read as
tells these bytes: a plain name byte by byte, an operator by the letters of its marks, and a punycoded
name by its punycode.
-/

namespace SwiftMangling

namespace MangledName

/-- The text in which bytes are read holds these bytes. -/
lemma toBytes_decode (bytes : Bytes) : (text (Utf8.decode bytes)).toBytes = bytes := by
  simp only [toBytes, Utf8.encodeEscaped?_decode, Option.getD_some]

lemma toBytes_of_scalars {content : Text} (h : ∀ c ∈ content, c.isSurrogate = false) :
    (text content).toBytes = Utf8.encode content := by
  simp only [toBytes, Utf8.encodeEscaped?_of_scalars h, Option.getD_some]

end MangledName

lemma Text.ofBytes_of_toBytes? {chars : Text} {bytes : Bytes} (h : Text.toBytes? chars = some bytes) :
    chars = Text.ofBytes bytes := by
  induction chars generalizing bytes with
  | nil =>
    cases h
    rfl
  | cons c chars ih =>
    simp only [Text.toBytes?] at h
    split at h
    · next hc =>
      obtain ⟨rest, hrest, rfl⟩ := Option.map_eq_some_iff.1 h
      have hbyte : (UInt8.ofNat c.val).toNat = c.val := UInt8.toNat_ofNat_of_lt' hc
      rw [Text.ofBytes, List.map_cons]
      congr 1
      · exact Fin.ext hbyte.symm
      · exact ih hrest
    · cases h

lemma CodePoint.ofChar_ofNat {c : CodePoint} (h : c.val < 0x80) :
    CodePoint.ofChar (Char.ofNat c.val) = c := by
  have hvalid : c.val.isValidChar := .inl (by omega)
  apply Fin.ext
  show (Char.ofNat c.val).toNat = c.val
  rw [Char.ofNat, dif_pos hvalid]
  rfl

namespace Operator

lemma letter_of_mark {c mark : Char} (h : mark? c = some mark) :
    letter (CodePoint.ofChar mark) = CodePoint.ofChar c := by
  unfold mark? at h
  split at h <;> cases h <;> rfl

/-- The letters come back from the marks that they are read as. -/
lemma map_letter_of_ofLetters? {letters marks : Text} (h : ofLetters? letters = some marks) :
    marks.map letter = letters := by
  induction letters generalizing marks with
  | nil =>
    cases h
    rfl
  | cons c letters ih =>
    unfold ofLetters? at h
    rw [List.mapM_cons] at h
    obtain ⟨mark, hmark, h⟩ := Option.bind_eq_some_iff.1 h
    obtain ⟨rest, hrest, h⟩ := Option.bind_eq_some_iff.1 h
    cases h
    rw [List.map_cons, ih hrest]
    congr 1
    split at hmark
    · next hc =>
      cases hmark
      exact if_pos hc
    · next hc =>
      obtain ⟨char, hchar, rfl⟩ := Option.map_eq_some_iff.1 hmark
      rw [letter_of_mark hchar, CodePoint.ofChar_ofNat (Nat.lt_of_not_le hc)]

end Operator

namespace Grammar

/-- How an identifier is spelled. -/
structure Spelling where
  punycoded : Bool
  /-- The letter for the fixity of an operator. -/
  fixity : Option UInt8
  /-- The number of the bytes of the name. -/
  digits : Bytes
  name : Bytes

namespace Spelling

/-- The marks before the number. -/
def marks (spelling : Spelling) : Bytes :=
  (if spelling.punycoded then [0x58] else []) ++ (spelling.fixity.elim [] fun letter => [0x6F, letter])

def bytes (spelling : Spelling) : Bytes :=
  spelling.marks ++ spelling.digits ++ spelling.name

/-- The number says how many bytes the name has. -/
structure Counted (spelling : Spelling) : Prop where
  digits : ∀ b ∈ spelling.digits, Bytes.isDigit b = true
  nonempty : spelling.digits ≠ []
  value : Decimal.value spelling.digits = spelling.name.length

/-- Bytes are the punycode of a name, or have the delimiter before it. -/
def IsPunycode (bytes : Bytes) (name : Text) : Prop :=
  Text.ofBytes bytes = Punycode.encode name ∨
    Text.ofBytes bytes = Punycode.delimiter :: Punycode.encode name

/-- A text tells the bytes of the name that it was read from. The bytes of a plain text are those of
the name, and the bytes of an operator are so when each mark is replaced by its letter. A punycoded name
is the punycode of its text, with letters for the marks of an operator. -/
def Tells (spelling : Spelling) (text : Text) : Prop :=
  match spelling.punycoded, spelling.fixity with
  | false, none => (MangledName.text text).toBytes = spelling.name
  | false, some _ =>
    (Text.ofBytes (MangledName.text text).toBytes).map Operator.letter = Text.ofBytes spelling.name
  | true, none => IsPunycode spelling.name text
  | true, some _ => IsPunycode spelling.name (text.map Operator.letter)

end Spelling

lemma isPunycode_of_decode? {bytes : Bytes} {name : Text}
    (h : Punycode.decode? (Text.ofBytes bytes) = some name) : Spelling.IsPunycode bytes name := by
  obtain hplain | hdelimiter := Punycode.forms_of_decode? h
  · exact .inl hplain
  · exact .inr hdelimiter.2

section Taken

variable {limit : Int} {s s' : State}

lemma advance_found {amount : Nat} {name : Bytes} (h : advance amount limit s = .found name s') :
    name.length = amount ∧ s.unread = name ++ s'.unread := by
  unfold advance at h
  split at h
  · next hamount =>
    cases h
    exact ⟨List.length_take_of_le hamount, (List.take_append_drop amount s.unread).symm⟩
  · cases h

/-- The letter of the fixity is taken where the identifier is an operator. -/
lemma identifierKind_found {required : Option Kind} {operator : Bool} {kind : Kind}
    (h : identifierKind required operator limit s = .found kind s') :
    operator = false ∧ s = s' ∨
      ∃ letter : UInt8, operator = true ∧ s.unread = letter :: s'.unread := by
  cases operator with
  | false =>
    cases required <;> (cases h; exact .inl ⟨rfl, rfl⟩)
  | true =>
    cases required with
    | some kind => cases h
    | none =>
      obtain ⟨letter, s₁, hnext, hkind⟩ := Parser.bind_found h
      unfold next at hnext
      split at hnext
      · cases hnext
        cases hkind
      · next b rest hunread =>
        cases hnext
        refine .inr ⟨b, rfl, ?_⟩
        rw [hunread]
        cases hfixity : Operator.fixity? (Bytes.char b) with
        | none =>
          rw [hfixity] at hkind
          cases hkind
        | some kind =>
          rw [hfixity] at hkind
          cases hkind
          rfl

/-- What is read without a look at the state leaves it. -/
lemma pure_found {α : Type} {value result : α} (h : (pure value : Parser α) limit s = .found result s') :
    value = result ∧ s = s' := by
  cases h
  exact ⟨rfl, rfl⟩

lemma orRefuse_found {α : Type} {value : Option α} {result : α}
    (h : orRefuse value limit s = .found result s') : value = some result ∧ s = s' := by
  cases value with
  | none => cases h
  | some value =>
    cases h
    exact ⟨rfl, rfl⟩

/-- The text of an identifier that is no operator tells its bytes. -/
lemma identifierText_plain_found {punycoded : Bool} {name : Bytes} {text : Text} (digits : Bytes)
    (h : identifierText punycoded false name limit s = .found text s') :
    s = s' ∧ (Spelling.mk punycoded none digits name).Tells text := by
  obtain ⟨chars, s₁, hchars, h⟩ := Parser.bind_found h
  split at h
  · cases h
  · simp only [Bool.false_eq_true, if_false, pure_bind] at h
    cases punycoded with
    | false =>
      obtain ⟨rfl, rfl⟩ := pure_found hchars
      rw [if_neg Bool.false_ne_true, textOfChars_ofBytes] at h
      obtain ⟨rfl, rfl⟩ := pure_found h
      exact ⟨rfl, MangledName.toBytes_decode name⟩
    | true =>
      obtain ⟨hdecode, rfl⟩ := orRefuse_found hchars
      obtain ⟨rfl, rfl⟩ := pure_found h
      exact ⟨rfl, isPunycode_of_decode? hdecode⟩

/-- The text of an operator tells the letters of its bytes. -/
lemma identifierText_operator_found {punycoded : Bool} {name : Bytes} {text : Text} (letter : UInt8)
    (digits : Bytes) (h : identifierText punycoded true name limit s = .found text s') :
    s = s' ∧ (Spelling.mk punycoded (some letter) digits name).Tells text := by
  obtain ⟨chars, s₁, hchars, h⟩ := Parser.bind_found h
  split at h
  · cases h
  · obtain ⟨marks, s₂, hmarks, h⟩ := Parser.bind_found h
    obtain ⟨hletters, rfl⟩ := orRefuse_found hmarks
    cases punycoded with
    | false =>
      obtain ⟨rfl, rfl⟩ := pure_found hchars
      obtain ⟨bytes, hbytes⟩ := toBytes?_eq_some
        (val_lt_of_mem_ofLetters? hletters fun _ => val_lt_of_mem_ofBytes)
      obtain rfl := Text.ofBytes_of_toBytes? hbytes
      rw [if_neg Bool.false_ne_true, textOfChars_ofBytes] at h
      obtain ⟨rfl, rfl⟩ := pure_found h
      refine ⟨rfl, ?_⟩
      show (Text.ofBytes (MangledName.text (Utf8.decode bytes)).toBytes).map Operator.letter = _
      rw [MangledName.toBytes_decode, Operator.map_letter_of_ofLetters? hletters]
    | true =>
      obtain ⟨hdecode, rfl⟩ := orRefuse_found hchars
      obtain ⟨rfl, rfl⟩ := pure_found h
      refine ⟨rfl, ?_⟩
      show Spelling.IsPunycode name (marks.map Operator.letter)
      rw [Operator.map_letter_of_ofLetters? hletters]
      exact isPunycode_of_decode? hdecode

/-- An identifier takes the bytes that it is spelled with, and its text tells them. -/
lemma identifier_found {required : Option Kind} {node : Node}
    (h : identifier required limit s = .found node s') :
    ∃ (spelling : Spelling) (text : Text), s.unread = spelling.bytes ++ s'.unread ∧
      spelling.Counted ∧ node = .named node.kind text ∧ spelling.Tells text := by
  obtain ⟨ended, s₀, hend, h⟩ := Parser.bind_found h
  cases hend
  split at h
  · cases h
  · obtain ⟨punycoded, s₁, hpunycoded, h⟩ := Parser.bind_found h
    obtain ⟨operator, s₂, hoperator, h⟩ := Parser.bind_found h
    obtain ⟨kind, s₃, hkind, h⟩ := Parser.bind_found h
    obtain ⟨count, s₄, hcount, h⟩ := Parser.bind_found h
    obtain ⟨name, s₅, hname, h⟩ := Parser.bind_found h
    obtain ⟨text, s₆, htext, h⟩ := Parser.bind_found h
    cases h
    have hunread₀ := accept_found [0x58] rfl hpunycoded
    have hunread₁ := accept_found [0x6F] rfl hoperator
    obtain ⟨digits, hne, hdigits, hvalue, hunread₃⟩ := natural_found hcount
    obtain ⟨hlength, hunread₄⟩ := advance_found hname
    have hcounted : ∀ fixity, (Spelling.mk punycoded fixity digits name).Counted := fun fixity =>
      ⟨hdigits, hne, hvalue.trans hlength.symm⟩
    obtain ⟨rfl, rfl⟩ | ⟨letter, rfl, hunread₂⟩ := identifierKind_found hkind
    · obtain ⟨rfl, htells⟩ := identifierText_plain_found digits htext
      refine ⟨⟨punycoded, none, digits, name⟩, text, ?_, hcounted none, rfl, htells⟩
      rw [hunread₀, hunread₁, hunread₃, hunread₄]
      simp [Spelling.bytes, Spelling.marks]
    · obtain ⟨rfl, htells⟩ := identifierText_operator_found letter digits htext
      refine ⟨⟨punycoded, some letter, digits, name⟩, text, ?_, hcounted (some letter), rfl, htells⟩
      rw [hunread₀, hunread₁, hunread₂, hunread₃, hunread₄]
      simp [Spelling.bytes, Spelling.marks]

end Taken

end Grammar

end SwiftMangling
