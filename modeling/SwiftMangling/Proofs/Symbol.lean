import SwiftMangling.Demangle
import SwiftMangling.Proofs.Assembly

/-!
# The parts of a symbol

A symbol is what stands before its global, the global, and trailing bytes. Whatever follows the global
is trailing, so that a symbol is found wherever its parts are.
-/

namespace SwiftMangling

namespace Grammar

variable {call : Calls}

/-- What stands before the global of a symbol, and the global. -/
def symbolParts (call : Calls) : Parser (List Node × Node) := do
  demand "_T"
  let prelude ← symbolPrelude call
  let body ← call .global
  pure (prelude, body)

/-- The node that holds trailing bytes, if there are any. -/
def suffixOf : Bytes → List Node
  | [] => []
  | b :: rest => [.named .suffix (Utf8.decode (b :: rest))]

/-- The tree of a symbol from its parts and the bytes after them. -/
def symbolTree (parts : List Node × Node) (rest : Bytes) : Node :=
  .branch .global (parts.1 ++ parts.2 :: suffixOf rest)

lemma trailing_apply (limit : Int) (rest : Bytes) (table : References Node) :
    trailing limit ⟨rest, table⟩ = .found (suffixOf rest) ⟨[], table⟩ := by
  cases rest with
  | nil => rfl
  | cons b rest =>
    simp only [trailing, atEnd, takeRest, Parser.bind_apply, List.isEmpty_cons, Bool.false_eq_true,
      if_false, textOfChars_ofBytes]
    rfl

lemma symbol_eq (call : Calls) :
    symbol call = symbolParts call >>= fun parts => trailing >>= fun suffix =>
      pure (.branch .global (parts.1 ++ parts.2 :: suffix)) := by
  simp only [symbol, symbolParts, branch_map_some, bind_assoc, pure_bind]

/-- A symbol is its parts, and all that is left is trailing. -/
lemma symbol_found {limit : Int} {bytes rest : Bytes} {table : References Node}
    {parts : List Node × Node}
    (hparts : symbolParts call limit ⟨bytes, []⟩ = .found parts ⟨rest, table⟩) :
    symbol call limit ⟨bytes, []⟩ = .found (symbolTree parts rest) ⟨[], table⟩ := by
  rw [symbol_eq, Parser.bind_apply, hparts]
  simp only [Parser.bind_apply, trailing_apply]
  rfl

lemma symbolParts_of_found {limit : Int} {bytes : Bytes} {root : Node} {s : State}
    (hsymbol : symbol call limit ⟨bytes, []⟩ = .found root s) :
    ∃ parts rest table, symbolParts call limit ⟨bytes, []⟩ = .found parts ⟨rest, table⟩ ∧
      root = symbolTree parts rest := by
  rw [symbol_eq] at hsymbol
  obtain ⟨parts, ⟨rest, table⟩, hparts, hsymbol⟩ := Parser.bind_found hsymbol
  refine ⟨parts, rest, table, hparts, ?_⟩
  rw [Parser.bind_apply, trailing_apply] at hsymbol
  cases hsymbol
  rfl

lemma suffixOf_of_ne_nil {rest : Bytes} (h : rest ≠ []) :
    suffixOf rest = [.named .suffix (Utf8.decode rest)] := by
  cases rest with
  | nil => exact absurd rfl h
  | cons b rest => rfl

/-- Trailing bytes are the last child and nothing else. -/
lemma symbolTree_eq_push (parts : List Node × Node) {rest : Bytes} (h : rest ≠ []) :
    symbolTree parts rest = (symbolTree parts []).push (.named .suffix (Utf8.decode rest)) := by
  unfold symbolTree
  rw [suffixOf_of_ne_nil h]
  simp only [suffixOf, Node.branch, Node.push, List.append_assoc, List.cons_append, List.nil_append]

end Grammar

open Grammar

lemma Verdict.tree?_ofOutcome_stopped (budget : Int) (why : Stop) :
    (Verdict.ofOutcome budget (.stopped why)).tree? = none := by
  cases why with
  | exhausted =>
    show (if Decimal.isWritable budget then Verdict.tooDeep else Verdict.overlong).tree? = none
    split <;> rfl
  | overlong => rfl
  | broken breach => rfl

lemma Verdict.eq_tree_of_tree? {verdict : Verdict} {root : Node} (h : verdict.tree? = some root) :
    verdict = .tree root := by
  cases verdict <;> cases h
  rfl

/-- What a name is read as is found in its bytes. -/
lemma demangle_eq_tree_iff {form : Form} {settings : Settings} {name : MangledName} {root : Node} :
    demangle form settings name = .tree root ↔
      ∃ s, parseBytes form settings.maxDepth.toInt.toNat settings.maxNatural.toInt name.toBytes =
        .found root s := by
  unfold demangle
  cases parseBytes form settings.maxDepth.toInt.toNat settings.maxNatural.toInt name.toBytes with
  | found root' s =>
    constructor
    · intro h
      cases h
      exact ⟨s, rfl⟩
    · rintro ⟨s', h⟩
      cases h
      rfl
  | refused s =>
    constructor
    · intro h
      cases h
    · rintro ⟨s', h⟩
      cases h
  | stopped why =>
    constructor
    · intro h
      have hnone := Verdict.tree?_ofOutcome_stopped settings.maxDepth.toInt why
      rw [h] at hnone
      cases hnone
    · rintro ⟨s', h⟩
      cases h

lemma demangle_of_refused {form : Form} {settings : Settings} {name : MangledName} {s : State}
    (h : parseBytes form settings.maxDepth.toInt.toNat settings.maxNatural.toInt name.toBytes =
      .refused s) : demangle form settings name = .notMangled := by
  unfold demangle
  rw [h]
  rfl

end SwiftMangling
