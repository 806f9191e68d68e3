import SwiftMangling.Proofs.ReadBack

/-!
# Identifiers are read back

The number of an identifier counts bytes, and the bytes of its name are read as text once: those of an
operator after its letters are turned into marks, and those of a punycoded name as the punycode of the
text. So every name is read back from each of its spellings, whatever follows. An operator with an ASCII
character that is the letter of no mark is refused, and so is an identifier whose bytes are too few.
-/

namespace SwiftMangling

open Mangle (Fixity Identifier)
open Grammar (Spelling)

lemma Bytes.NoDigit.ne_nil {bytes : Bytes} (h : bytes.NoDigit) : bytes ≠ [] := by
  rintro rfl
  exact h

lemma Bytes.noDigit_of_head? {bytes : Bytes} (hne : bytes ≠ [])
    (h : ∀ b ∈ bytes.head?, Bytes.isDigit b = false) : bytes.NoDigit := by
  obtain ⟨b, rest, rfl⟩ := List.exists_cons_of_ne_nil hne
  exact h b rfl

/-- The bytes of an ASCII text are its characters. -/
lemma Text.ofBytes_encode {text : Text} (h : ∀ c ∈ text, c.val < 0x80) :
    Text.ofBytes (Utf8.encode text) = text := by
  induction text with
  | nil => rfl
  | cons c text ih =>
    rw [List.forall_mem_cons] at h
    have hc : CodePoint.ofByte (UInt8.ofNat c.val) = c :=
      Fin.ext (UInt8.toNat_ofNat_of_lt' (Nat.lt_trans h.1 (by decide)))
    rw [Utf8.encode, List.flatMap_cons, Utf8.encodeCodePoint_ascii h.1, Text.ofBytes_append]
    exact congr (congrArg List.cons hc) (ih h.2)

lemma Utf8.encode_ne_nil {text : Text} (h : text ≠ []) : Utf8.encode text ≠ [] := by
  obtain ⟨c, text, rfl⟩ := List.exists_cons_of_ne_nil h
  rw [Utf8.encode, List.flatMap_cons]
  exact List.append_ne_nil_of_left_ne_nil (Utf8.encodeCodePoint_ne_nil c) _

/-- A text whose characters come after the ASCII digits does not begin with a digit. -/
lemma Utf8.encode_noDigit {text : Text} (hne : text ≠ []) (h : ∀ c ∈ text, 0x39 < c.val) :
    (Utf8.encode text).NoDigit := by
  obtain ⟨c, text, rfl⟩ := List.exists_cons_of_ne_nil hne
  have hc : 0x39 < c.val := h c List.mem_cons_self
  obtain ⟨b, back, hbytes⟩ := List.exists_cons_of_ne_nil (Utf8.encodeCodePoint_ne_nil c)
  have hb : 0x39 < b.toNat := by
    by_cases hascii : c.val < 0x80
    · rw [Utf8.encodeCodePoint_ascii hascii] at hbytes
      obtain ⟨rfl, -⟩ := List.cons.inj hbytes
      rwa [UInt8.toNat_ofNat_of_lt' (Nat.lt_trans hascii (by decide))]
    · have hle := Utf8.le_of_mem_encodeCodePoint (Nat.not_lt.1 hascii) (hbytes ▸ List.mem_cons_self)
      omega
  rw [Utf8.encode, List.flatMap_cons, hbytes]
  have hdigit : ¬b ≤ 0x39 := Nat.not_le.2 hb
  show (decide (0x30 ≤ b) && decide (b ≤ 0x39)) = false
  rw [decide_eq_false hdigit, Bool.and_false]

namespace Operator

/-- What may stand in an operator: a mark, or a character beyond ASCII. -/
def Allows (c : CodePoint) : Prop :=
  c ∈ marks ∨ 0x80 ≤ c.val ∧ c.isSurrogate = false

instance : DecidablePred Allows := fun _ =>
  inferInstanceAs (Decidable (_ ∨ _))

/-- An ASCII character that is the letter of no mark. -/
def IsOther (c : CodePoint) : Prop :=
  c.val < 0x80 ∧ c ∉ marks.map letter

instance : DecidablePred IsOther := fun _ =>
  inferInstanceAs (Decidable (_ ∧ _))

lemma letter_of_beyond {c : CodePoint} (h : 0x80 ≤ c.val) : letter c = c :=
  if_pos h

/-- What is computed for all marks holds of each. -/
lemma of_mem_marks {q : CodePoint → Prop} [DecidablePred q] (h : marks.all fun c => q c) {c : CodePoint}
    (hc : c ∈ marks) : q c :=
  of_decide_eq_true (List.all_eq_true.1 h c hc)

lemma Allows.isSurrogate {c : CodePoint} (h : Allows c) : c.isSurrogate = false := by
  have hmarks : marks.all fun c => c.isSurrogate = false := by decide
  exact h.elim (of_mem_marks hmarks) And.right

lemma Allows.letter {c : CodePoint} (h : Allows c) :
    0x39 < (letter c).val ∧ (Operator.letter c).isSurrogate = false := by
  have hmarks : marks.all fun c =>
      0x39 < (Operator.letter c).val ∧ (Operator.letter c).isSurrogate = false := by decide
  obtain hmark | ⟨hbeyond, hsurrogate⟩ := h
  · exact of_mem_marks hmarks hmark
  · rw [letter_of_beyond hbeyond]
    exact ⟨by omega, hsurrogate⟩

/-- The letters of an operator come after the digits, and are no surrogates. -/
lemma of_mem_map_letter {name : Text} (h : ∀ c ∈ name, Allows c) :
    ∀ c ∈ name.map letter, 0x39 < c.val ∧ c.isSurrogate = false :=
  List.forall_mem_map.2 fun c hc => (h c hc).letter

lemma ofLetters?_append {front back marks marks' : Text} (hfront : ofLetters? front = some marks)
    (hback : ofLetters? back = some marks') : ofLetters? (front ++ back) = some (marks ++ marks') := by
  unfold ofLetters? at hfront hback ⊢
  rw [List.mapM_append, hfront, hback]
  rfl

/-- What is not ASCII is kept. -/
lemma ofLetters?_of_beyond {chars : Text} (h : ∀ c ∈ chars, 0x80 ≤ c.val) :
    ofLetters? chars = some chars := by
  induction chars with
  | nil => rfl
  | cons c chars ih =>
    rw [List.forall_mem_cons] at h
    have hc : ofLetters? [c] = some [c] := by
      simp [ofLetters?, if_pos h.1]
    exact ofLetters?_append hc (ih h.2)

/-- The letters of an operator are read as its marks. -/
lemma ofLetters?_map_letter {name : Text} (h : ∀ c ∈ name, Allows c) :
    ofLetters? (name.map letter) = some name := by
  have hmarks : marks.all fun c => ofLetters? [letter c] = some [c] := by decide
  induction name with
  | nil => rfl
  | cons c name ih =>
    rw [List.forall_mem_cons] at h
    have hletter : ofLetters? [letter c] = some [c] := by
      obtain hmark | ⟨hbeyond, -⟩ := h.1
      · exact of_mem_marks hmarks hmark
      · rw [letter_of_beyond hbeyond]
        exact ofLetters?_of_beyond (List.forall_mem_singleton.2 hbeyond)
    exact ofLetters?_append hletter (ih h.2)

/-- The bytes of the letters of an operator are read as the bytes of its marks. -/
lemma ofLetters?_encode_letter {name : Text} (h : ∀ c ∈ name, Allows c) :
    ofLetters? (Text.ofBytes (Utf8.encode (name.map letter))) =
      some (Text.ofBytes (Utf8.encode name)) := by
  have hmarks : marks.all fun c => ofLetters? (Text.ofBytes (Utf8.encodeCodePoint (letter c))) =
      some (Text.ofBytes (Utf8.encodeCodePoint c)) := by decide
  induction name with
  | nil => rfl
  | cons c name ih =>
    rw [List.forall_mem_cons] at h
    rw [List.map_cons, Utf8.encode, List.flatMap_cons, Text.ofBytes_append, Utf8.encode,
      List.flatMap_cons, Text.ofBytes_append]
    refine ofLetters?_append ?_ (ih h.2)
    obtain hmark | ⟨hbeyond, -⟩ := h.1
    · exact of_mem_marks hmarks hmark
    · rw [letter_of_beyond hbeyond]
      refine ofLetters?_of_beyond fun x hx => ?_
      obtain ⟨b, hb, rfl⟩ := List.mem_map.1 hx
      exact Utf8.le_of_mem_encodeCodePoint hbeyond hb

lemma mem_marks_of_mark? {c mark : Char} (h : mark? c = some mark) : CodePoint.ofChar mark ∈ marks := by
  unfold mark? at h
  split at h <;> cases h <;> decide

lemma ofLetters?_eq_none {letters : Text} {c : CodePoint} (hc : c ∈ letters) (hother : IsOther c) :
    ofLetters? letters = none := by
  have hmark : mark? (Char.ofNat c.val) = none := by
    cases hmark : mark? (Char.ofNat c.val) with
    | none => rfl
    | some mark =>
      have hletter := letter_of_mark hmark
      rw [CodePoint.ofChar_ofNat hother.1] at hletter
      exact absurd (List.mem_map.2 ⟨_, mem_marks_of_mark? hmark, hletter⟩) hother.2
  induction letters with
  | nil => cases hc
  | cons x letters ih =>
    unfold ofLetters? at ih ⊢
    rw [List.mapM_cons]
    obtain rfl | hc := List.mem_cons.1 hc
    · rw [if_neg (Nat.not_le.2 hother.1), hmark]
      rfl
    · simp [ih hc]

end Operator

namespace Grammar

open Mangle (digits)

/-- The characters that the bytes of a name stand for. -/
def nameChars? (punycoded : Bool) (bytes : Bytes) : Option Text :=
  if punycoded then Punycode.decode? (Text.ofBytes bytes) else some (Text.ofBytes bytes)

/-- The text of a name with characters: those of an operator are letters, and those of a name that is not
punycoded are bytes. -/
lemma identifierText_chars {punycoded operator : Bool} {bytes : Bytes} {chars : Text}
    (hchars : nameChars? punycoded bytes = some chars) (hne : chars ≠ []) :
    identifierText punycoded operator bytes =
      (if operator then orRefuse (Operator.ofLetters? chars) else pure chars) >>= fun chars =>
        if punycoded then pure chars else textOfChars chars := by
  have hempty : ¬chars.isEmpty = true := fun h => hne (List.isEmpty_iff.1 h)
  have hread : (if punycoded then orRefuse (Punycode.decode? (Text.ofBytes bytes))
      else pure (Text.ofBytes bytes)) = (pure chars : Parser Text) := by
    cases punycoded with
    | false =>
      cases hchars
      rfl
    | true =>
      have hdecode : Punycode.decode? (Text.ofBytes bytes) = some chars := hchars
      rw [if_pos rfl, hdecode]
      rfl
  unfold identifierText
  simp only
  rw [hread, pure_bind, if_neg hempty]

section Marked

variable (required : Option Kind) {limit : Int} {nodes : References Node} {unread : Bytes}

/-- The kind is refused, or it is found in front of the number. -/
lemma identifierKind_marked (fixity : Option UInt8) (limit : Int) (unread : Bytes)
    (nodes : References Node) :
    (∃ s, identifierKind required fixity.isSome limit ⟨fixity.toList ++ unread, nodes⟩ = .refused s) ∨
      ∃ kind, identifierKind required fixity.isSome limit ⟨fixity.toList ++ unread, nodes⟩ =
        .found kind ⟨unread, nodes⟩ := by
  cases fixity with
  | none =>
    cases required with
    | none => exact .inr ⟨_, rfl⟩
    | some kind => exact .inr ⟨_, rfl⟩
  | some letter =>
    cases required with
    | some kind => exact .inl ⟨_, rfl⟩
    | none =>
      show (∃ s, orRefuse (Operator.fixity? (Bytes.char letter)) limit ⟨unread, nodes⟩ = .refused s) ∨
        ∃ kind, orRefuse (Operator.fixity? (Bytes.char letter)) limit ⟨unread, nodes⟩ =
          .found kind ⟨unread, nodes⟩
      cases Operator.fixity? (Bytes.char letter) with
      | none => exact .inl ⟨_, rfl⟩
      | some kind => exact .inr ⟨kind, rfl⟩

/-- An identifier is refused where what comes after its number is. -/
lemma identifier_refused (hfew : Decimal.digitCount limit < Decimal.maxDigits) (spelling : Spelling)
    (hdigits : ∀ b ∈ spelling.digits, Bytes.isDigit b = true) (hne : spelling.digits ≠ [])
    (hunread : unread = [] ∨ unread.NoDigit)
    (hrefused : ∀ kind, ∃ s, counted kind spelling.punycoded spelling.fixity.isSome
      (Decimal.value spelling.digits) limit ⟨unread, nodes⟩ = .refused s) :
    ∃ s, identifier required limit ⟨spelling.marks ++ (spelling.digits ++ unread), nodes⟩ =
      .refused s := by
  have hbegins : Bytes.Begins (spelling.digits ++ unread) digits := by
    obtain ⟨b, back, hb⟩ := List.exists_cons_of_ne_nil hne
    exact ⟨b, back ++ unread, by rw [hb]; rfl, Mangle.mem_digits (hdigits b (by simp [hb]))⟩
  rw [identifier_marked required spelling hbegins]
  obtain ⟨s, hkind⟩ | ⟨kind, hkind⟩ :=
    identifierKind_marked required spelling.fixity limit (spelling.digits ++ unread) nodes
  · exact ⟨s, by rw [Parser.bind_apply, hkind]⟩
  · rw [Parser.bind_of_found hkind, Parser.bind_apply, natural_digits nodes limit hdigits hne hunread]
    obtain hbeyond | ⟨n, hwithin, -⟩ := Decimal.bounded_cases hfew hdigits
    · rw [hbeyond]
      exact ⟨_, rfl⟩
    · rw [hwithin]
      obtain rfl := Decimal.value_of_bounded hwithin
      exact hrefused kind

end Marked

section Counted

variable {limit : Int} {nodes : References Node} {name : Bytes} {punycoded operator : Bool}

/-- Letters that are read as no marks are refused. -/
lemma counted_other (kind : Kind) (rest : Bytes) {letters : Text}
    (hletters : nameChars? punycoded name = some letters) {c : CodePoint} (hc : c ∈ letters)
    (hother : Operator.IsOther c) :
    counted kind punycoded true name.length limit ⟨name ++ rest, nodes⟩ = .refused ⟨rest, nodes⟩ := by
  unfold counted
  rw [Parser.bind_of_found (advance_append name rest limit nodes),
    identifierText_chars hletters (List.ne_nil_of_mem hc), if_pos rfl,
    Operator.ofLetters?_eq_none hc hother]
  rfl

/-- Fewer bytes than the number says are refused. -/
lemma counted_short (kind : Kind) {length : Nat} (hshort : name.length < length) :
    counted kind punycoded operator length limit ⟨name, nodes⟩ = .refused ⟨name, nodes⟩ := by
  have hadvance : advance length limit ⟨name, nodes⟩ = .refused ⟨name, nodes⟩ :=
    if_neg (Nat.not_le.2 hshort)
  unfold counted
  rw [Parser.bind_apply, hadvance]

end Counted

section Text

variable {name : Text}

lemma map_letter_ne_nil (hne : name ≠ []) : name.map Operator.letter ≠ [] :=
  fun h => hne (List.map_eq_nil_iff.1 h)

lemma noDigit_letters (hne : name ≠ []) (hname : ∀ c ∈ name, Operator.Allows c) :
    (Utf8.encode (name.map Operator.letter)).NoDigit :=
  Utf8.encode_noDigit (map_letter_ne_nil hne) fun c hc => (Operator.of_mem_map_letter hname c hc).1

/-- An operator is never taken for a part of the number in front of its punycode. -/
lemma noDigit_punycode_letters (hne : name ≠ []) (hname : ∀ c ∈ name, Operator.Allows c) :
    (Utf8.encode (Punycode.encode (name.map Operator.letter))).NoDigit := by
  have hletters := Operator.of_mem_map_letter hname
  refine Utf8.encode_noDigit (Punycode.encode_ne_nil (map_letter_ne_nil hne) fun c hc =>
    (hletters c hc).2) fun c hc => ?_
  obtain ⟨hmem, -⟩ | ⟨hletter, -⟩ := Punycode.mem_encode hc
  · exact (hletters c hmem).1
  · omega

/-- The bytes of a punycode are read as its characters. -/
lemma ofBytes_punycode (name : Text) :
    Text.ofBytes (Utf8.encode (Punycode.encode name)) = Punycode.encode name := by
  refine Text.ofBytes_encode fun c hc => ?_
  obtain ⟨-, hascii⟩ | ⟨-, hletter⟩ := Punycode.mem_encode hc
  · exact hascii
  · omega

lemma nameChars?_punycode (hname : ∀ c ∈ name, c.isSurrogate = false) :
    nameChars? true (Utf8.encode (Punycode.encode name)) = some name := by
  show Punycode.decode? (Text.ofBytes (Utf8.encode (Punycode.encode name))) = some name
  rw [ofBytes_punycode, Punycode.decode?_encode hname]

lemma identifierText_operator (hne : name ≠ []) (hname : ∀ c ∈ name, Operator.Allows c) :
    identifierText false true (Utf8.encode (name.map Operator.letter)) = pure name := by
  have hbytes : Text.ofBytes (Utf8.encode (name.map Operator.letter)) ≠ [] :=
    fun h => (noDigit_letters hne hname).ne_nil (List.map_eq_nil_iff.1 h)
  rw [identifierText_chars rfl hbytes, if_pos rfl, Operator.ofLetters?_encode_letter hname]
  show textOfChars (Text.ofBytes (Utf8.encode name)) = pure name
  rw [textOfChars_ofBytes, Utf8.decode_encode fun c hc => (hname c hc).isSurrogate]

lemma identifierText_punycoded (hne : name ≠ []) (hname : ∀ c ∈ name, c.isSurrogate = false) :
    identifierText true false (Utf8.encode (Punycode.encode name)) = pure name := by
  rw [identifierText_chars (nameChars?_punycode hname) hne]
  rfl

lemma identifierText_punycodedOperator (hne : name ≠ []) (hname : ∀ c ∈ name, Operator.Allows c) :
    identifierText true true (Utf8.encode (Punycode.encode (name.map Operator.letter))) =
      pure name := by
  have hletters := nameChars?_punycode fun c hc => (Operator.of_mem_map_letter hname c hc).2
  rw [identifierText_chars hletters (map_letter_ne_nil hne), if_pos rfl,
    Operator.ofLetters?_map_letter hname]
  rfl

end Text

end Grammar

namespace Mangle.Identifier

/-- Whether a name can be spelled so: the first byte of what is written for it has to be told from the
number, and an operator has only what is allowed in one. -/
def IsProper : Identifier → Prop
  | plain name => name.NoDigit
  | operator _ name => name ≠ [] ∧ ∀ c ∈ name, Operator.Allows c
  | punycoded name =>
    name ≠ [] ∧ (∀ c ∈ name, c.isSurrogate = false) ∧
      ∀ b ∈ (Utf8.encode (Punycode.encode name)).head?, Bytes.isDigit b = false
  | punycodedOperator _ name => name ≠ [] ∧ ∀ c ∈ name, Operator.Allows c

def isPunycoded : Identifier → Bool
  | plain _ => false
  | operator _ _ => false
  | punycoded _ => true
  | punycodedOperator _ _ => true

def fixity? : Identifier → Option Fixity
  | plain _ => none
  | operator fixity _ => some fixity
  | punycoded _ => none
  | punycodedOperator fixity _ => some fixity

def text : Identifier → Text
  | plain name => Utf8.decode name
  | operator _ name => name
  | punycoded name => name
  | punycodedOperator _ name => name

def spelling (id : Identifier) : Spelling where
  punycoded := id.isPunycoded
  fixity := id.fixity?.map fun fixity => fixity.letter.toUInt8
  digits := natural id.written.length
  name := id.written

lemma code_eq (id : Identifier) :
    id.code = id.spelling.marks ++ (natural id.written.length ++ id.written) := by
  cases id <;> rfl

/-- What is written for a name begins with something other than a digit. -/
lemma written_noDigit {id : Identifier} (h : id.IsProper) : id.written.NoDigit := by
  cases id with
  | plain name => exact h
  | operator fixity name => exact Grammar.noDigit_letters h.1 h.2
  | punycoded name =>
    obtain ⟨hne, hscalars, hhead⟩ := h
    exact Bytes.noDigit_of_head? (Utf8.encode_ne_nil (Punycode.encode_ne_nil hne hscalars)) hhead
  | punycodedOperator fixity name => exact Grammar.noDigit_punycode_letters h.1 h.2

/-- What is written for a name is read as its text. -/
lemma identifierText_written {id : Identifier} (h : id.IsProper) :
    Grammar.identifierText id.isPunycoded id.fixity?.isSome id.written = pure id.text := by
  cases id with
  | plain name => exact Grammar.identifierText_plain h
  | operator fixity name => exact Grammar.identifierText_operator h.1 h.2
  | punycoded name => exact Grammar.identifierText_punycoded h.1 h.2.1
  | punycodedOperator fixity name => exact Grammar.identifierText_punycodedOperator h.1 h.2

/-- The marks tell how a name is spelled, and what comes after them is read so. -/
lemma identifier_code (id : Identifier) (limit : Int) (rest : Bytes) (nodes : References Node) :
    Grammar.identifier none limit ⟨id.code ++ rest, nodes⟩ =
      (Grammar.natural >>= Grammar.counted (id.fixity?.elim .identifier Fixity.kind) id.isPunycoded
        id.fixity?.isSome) limit ⟨natural id.written.length ++ (id.written ++ rest), nodes⟩ := by
  have hbegins := (natural_begins id.written.length).append (id.written ++ rest)
  rw [code_eq, List.append_assoc, List.append_assoc,
    Grammar.identifier_marked none id.spelling hbegins]
  cases id with
  | plain name => rfl
  | operator fixity name => cases fixity <;> rfl
  | punycoded name => rfl
  | punycodedOperator fixity name => cases fixity <;> rfl

lemma identifier_code_read {limit : Int} (hlimit : Decimal.isWritable limit) {id : Identifier}
    (hproper : id.IsProper) (hlength : id.written.length ≤ limit) (rest : Bytes)
    (nodes : References Node) :
    Grammar.identifier none limit ⟨id.code ++ rest, nodes⟩ = .found id.tree ⟨rest, nodes⟩ := by
  have hnumber := Grammar.natural_read hlimit nodes hlength
    (Grammar.noDigit_append (written_noDigit hproper) rest)
  rw [identifier_code, Grammar.Parser.bind_of_found hnumber,
    Grammar.counted_append _ rest (identifierText_written hproper)]
  cases id <;> rfl

/-- Only the limit can refuse a name. -/
lemma identifier_code_refused {limit : Int} (hfew : Decimal.digitCount limit < Decimal.maxDigits)
    {id : Identifier} (hproper : id.IsProper) (hlength : limit < id.written.length) (rest : Bytes)
    (nodes : References Node) :
    ∃ s, Grammar.identifier none limit ⟨id.code ++ rest, nodes⟩ = .refused s := by
  have hnumber := Grammar.natural_written nodes limit id.written.length
    (Grammar.noDigit_append (written_noDigit hproper) rest)
  rw [Decimal.bounded_natural_beyond hfew hlength] at hnumber
  rw [identifier_code, Grammar.Parser.bind_apply, hnumber]
  exact ⟨_, rfl⟩

end Mangle.Identifier

end SwiftMangling
