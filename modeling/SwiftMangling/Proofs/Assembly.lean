import SwiftMangling.Grammar.Entity
import Mathlib.Tactic.Common

/-!
# Trees are put together without a breach

Every child that a production adds has been read before, every child that it looks up is there, and
the characters that it takes for bytes are bytes. So what puts trees together never stops.
-/

namespace SwiftMangling.Grammar

lemma mapM_id_map_some {α : Type} (items : List α) : (items.map some).mapM id = some items := by
  induction items with
  | nil => rfl
  | cons item items ih => simp [List.mapM_cons, ih]

lemma branch_map_some (kind : Kind) (children : List Node) :
    branch kind (children.map some) = pure (.branch kind children) := by
  simp only [branch, build, mapM_id_map_some]
  rfl

lemma branch_nil (kind : Kind) : branch kind [] = pure (.branch kind []) :=
  branch_map_some kind []

lemma branch_single (kind : Kind) (child : Node) :
    branch kind [some child] = pure (.branch kind [child]) :=
  branch_map_some kind [child]

lemma branch_pair (kind : Kind) (first second : Node) :
    branch kind [some first, some second] = pure (.branch kind [first, second]) :=
  branch_map_some kind [first, second]

lemma numbered_map_some (kind : Kind) (number : Int) (children : List Node) :
    numbered kind number (children.map some) = pure (.numbered kind number children) := by
  simp only [numbered, build, mapM_id_map_some]
  rfl

lemma childAt_of_lt {node : Node} {position : Nat} (h : position < node.children.length) :
    childAt node position = pure node.children[position] := by
  simp only [childAt, List.getElem?_eq_getElem h]
  rfl

/-- Of the reserved name nothing is left, or the identifier of its file; any other name is left as it
is. -/
lemma accessedName_cases (name : Node) :
    accessedName name = pure (true, none) ∨
      (∃ file ∈ name.children,
        accessedName name = pure (true, some (.branch .privateDeclName [file]))) ∨
      accessedName name = pure (false, some name) := by
  unfold accessedName
  by_cases hplain : name.kind = .identifier
  · by_cases hsub : isSubscriptName name
    · exact .inl (by simp [hplain, hsub])
    · exact .inr (.inr (by simp [hplain, hsub]))
  · by_cases hfile : name.kind = .privateDeclName ∧ 1 < name.children.length
    · have hlen := hfile.2
      rw [if_neg hplain, if_pos hfile, childAt_of_lt hlen, pure_bind]
      by_cases hsub : isSubscriptName name.children[1]
      · rw [if_pos hsub, childAt_of_lt (Nat.lt_of_succ_lt hlen), pure_bind, branch_single, pure_bind]
        exact .inr (.inl ⟨_, List.getElem_mem _, rfl⟩)
      · exact .inr (.inr (if_neg hsub))
    · exact .inr (.inr (by rw [if_neg hplain, if_neg hfile]))

/-- A name that is not left of a subscript's name is the name itself. -/
lemma accessedName_eq (name : Node) :
    ∃ rest : Option Node, accessedName name = pure (true, rest) ∨
      accessedName name = pure (false, some name) := by
  obtain hnone | ⟨file, -, hfile⟩ | hsame := accessedName_cases name
  · exact ⟨none, .inl hnone⟩
  · exact ⟨_, .inl hfile⟩
  · exact ⟨none, .inr hsame⟩

lemma toBytes?_eq_some {chars : Text} (h : ∀ c ∈ chars, c.val < 256) :
    ∃ bytes, Text.toBytes? chars = some bytes := by
  induction chars with
  | nil => exact ⟨[], rfl⟩
  | cons c chars ih =>
    obtain ⟨bytes, hbytes⟩ := ih fun d hd => h d (by simp [hd])
    have hc : c.val < 256 := h c (by simp)
    exact ⟨UInt8.ofNat c.val :: bytes, by simp [Text.toBytes?, hc, hbytes]⟩

lemma textOfChars_eq {chars : Text} (h : ∀ c ∈ chars, c.val < 256) :
    ∃ text, textOfChars chars = pure text := by
  obtain ⟨bytes, hbytes⟩ := toBytes?_eq_some h
  refine ⟨Utf8.decode bytes, ?_⟩
  simp only [textOfChars, hbytes]
  rfl

lemma textOfChars_ofBytes (bytes : Bytes) :
    textOfChars (Text.ofBytes bytes) = pure (Utf8.decode bytes) := by
  simp only [textOfChars, Text.toBytes?_ofBytes]
  rfl

lemma val_lt_of_mem_ofBytes {bytes : Bytes} {c : CodePoint} (h : c ∈ Text.ofBytes bytes) :
    c.val < 256 := by
  obtain ⟨b, -, rfl⟩ := List.mem_map.1 h
  exact b.toNat_lt

/-- An operator mark is ASCII, as every letter is. -/
lemma mark?_lt {letter mark : Char} (h : Operator.mark? letter = some mark) : mark.toNat < 256 := by
  unfold Operator.mark? at h
  split at h <;> cases h <;> decide

lemma val_lt_of_mem_ofLetters? {letters chars : Text} (h : Operator.ofLetters? letters = some chars)
    (hl : ∀ c ∈ letters, c.val < 256) : ∀ c ∈ chars, c.val < 256 := by
  induction letters generalizing chars with
  | nil =>
    cases h
    simp
  | cons letter letters ih =>
    unfold Operator.ofLetters? at h ih
    rw [List.mapM_cons] at h
    obtain ⟨c, hc, h⟩ := Option.bind_eq_some_iff.1 h
    obtain ⟨cs, hcs, h⟩ := Option.bind_eq_some_iff.1 h
    cases h
    have hrest := ih hcs fun d hd => hl d (by simp [hd])
    intro d hd
    rcases List.mem_cons.1 hd with rfl | hd
    · split at hc
      · cases hc
        exact hl _ (by simp)
      · obtain ⟨mark, hmark, rfl⟩ := Option.map_eq_some_iff.1 hc
        exact mark?_lt hmark
    · exact hrest d hd

/-- The text of an identifier is read, or the identifier is refused. -/
lemma identifierText_eq (punycoded operator : Bool) (bytes : Bytes) :
    identifierText punycoded operator bytes = refuse ∨
      ∃ text, identifierText punycoded operator bytes = pure text := by
  unfold identifierText
  cases punycoded with
  | true =>
    simp only [if_true]
    cases Punycode.decode? (Text.ofBytes bytes) with
    | none => exact .inl rfl
    | some chars =>
      simp only [orRefuse, pure_bind]
      by_cases hempty : chars.isEmpty
      · exact .inl (if_pos hempty)
      · rw [if_neg hempty]
        cases operator with
        | false => exact .inr ⟨chars, rfl⟩
        | true =>
          cases Operator.ofLetters? chars with
          | none => exact .inl rfl
          | some marks => exact .inr ⟨marks, rfl⟩
  | false =>
    simp only [Bool.false_eq_true, if_false, pure_bind]
    have hraw : ∀ c ∈ Text.ofBytes bytes, c.val < 256 := fun c hc => val_lt_of_mem_ofBytes hc
    by_cases hempty : (Text.ofBytes bytes).isEmpty
    · exact .inl (if_pos hempty)
    · rw [if_neg hempty]
      cases operator with
      | false => exact .inr (textOfChars_eq hraw)
      | true =>
        cases hmarks : Operator.ofLetters? (Text.ofBytes bytes) with
        | none => exact .inl rfl
        | some marks =>
          obtain ⟨text, htext⟩ := textOfChars_eq (val_lt_of_mem_ofLetters? hmarks hraw)
          exact .inr ⟨text, htext⟩

/-- The text of an identifier that is no operator. -/
def spelledText : Parser Text := do
  if ← atEnd then refuse
  else
    let punycoded ← accept "X"
    let operator ← accept "o"
    if operator then refuse
    else
      let length ← natural
      let bytes ← advance length
      identifierText punycoded operator bytes

/-- Where a kind is required, an identifier has that kind. -/
lemma identifier_some (kind : Kind) :
    identifier (some kind) = spelledText >>= fun text => pure (.named kind text) := by
  unfold identifier spelledText
  rw [bind_assoc]
  congr 1
  funext ended
  cases ended with
  | true => rfl
  | false =>
    simp only [Bool.false_eq_true, if_false, bind_assoc]
    congr 1
    funext punycoded
    congr 1
    funext operator
    cases operator with
    | true => rfl
    | false =>
      simp only [identifierKind, pure_bind, Bool.false_eq_true, if_false, bind_assoc]
      rfl

end SwiftMangling.Grammar
