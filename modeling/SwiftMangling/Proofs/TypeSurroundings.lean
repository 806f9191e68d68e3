import SwiftMangling.Proofs.GrammarSteady
import SwiftMangling.Proofs.LongerTable
import SwiftMangling.Proofs.MoreBudget
import SwiftMangling.Proofs.Symbol
import SwiftMangling.Proofs.TypeParts

/-!
# What stands around a type

A type is read from its own bytes. What follows it does not change it, and neither does what has been
recorded before it, as long as its references still lead to the same nodes. So a declared type that is
spelled out a second time is the same tree again, and a reference to the first one is that tree too.
-/

namespace SwiftMangling

open Mangle (ascii)

namespace Grammar

variable {limit : Int} {budget : Nat} {bytes rest : Bytes} {table table' : References Node} {tree : Node}

/-- A type is found in its own bytes, whatever follows them. -/
lemma type_found (h : parse budget .type limit ⟨bytes, table⟩ = .found tree ⟨rest, table'⟩) :
    ∃ front, bytes = front ++ rest ∧ ∀ other,
      parse budget .type limit ⟨front ++ other, table⟩ = .found tree ⟨other, table'⟩ := by
  obtain ⟨front, rfl, -, hsame⟩ := (settled_parse budget).type.found h
  exact ⟨front, rfl, fun other => hsame other (.inl ⟨alike_zero _ _, .inl trivial⟩)⟩

lemma found_or_exhausted {production : Production} {s s' : State}
    (h : parse budget production limit s = .found tree s') (budget' : Nat) :
    parse budget' production limit s = .found tree s' ∨
      parse budget' production limit s = .stopped .exhausted := by
  have hmore : parse (max budget budget') production limit s = .found tree s' := by
    obtain hexhausted | hsame := parse_of_le (Nat.le_max_left budget budget') production limit s
    · rw [h] at hexhausted
      cases hexhausted
    · rw [← hsame, h]
  obtain hexhausted | hsame := parse_of_le (Nat.le_max_right budget budget') production limit s
  · exact .inr hexhausted
  · exact .inl (hsame.trans hmore)

/-- Two units of the budget go into the type itself. -/
lemma bareType_found {s s' : State} (h : parse budget .type limit s = .found tree s') :
    ∃ inner bare, budget = inner + 2 ∧ bareType (parse inner) limit s = .found bare s' ∧
      tree = .branch .type [bare] := by
  obtain - | - | inner := budget
  · cases h
  · cases h
  · rw [parse_type] at h
    obtain ⟨bare, s₁, hbare, htree⟩ := Parser.bind_found h
    cases htree
    exact ⟨inner, bare, rfl, hbare, rfl⟩

section Declared

/-- The letters that a declared type begins with where it is spelled out. -/
def declaredLetters : Bytes :=
  ascii "CVOa"

lemma declaration_recorded {call : Calls} {kind : Kind} {s s' : State}
    (h : declaration call kind limit s = .found tree s') : ∃ earlier, s'.recorded = earlier ++ [tree] := by
  obtain ⟨context, s₁, -, h⟩ := Parser.bind_found h
  obtain ⟨name, s₂, -, h⟩ := Parser.bind_found h
  rw [branch_pair, pure_bind] at h
  cases h
  exact ⟨s₂.recorded, rfl⟩

lemma bareType_recorded {call : Calls} {s : State} (hbytes : bytes.Begins declaredLetters)
    (h : bareType call limit ⟨bytes, table⟩ = .found tree s) :
    ∃ earlier, s.recorded = earlier ++ [tree] := by
  obtain ⟨b, unread, rfl, hb⟩ := hbytes
  have hkind : ∃ kind, bareType call limit ⟨b :: unread, table⟩ =
      declaration call kind limit ⟨unread, table⟩ := by
    have hletters : declaredLetters = [0x43, 0x56, 0x4F, 0x61] := rfl
    rw [hletters] at hb
    obtain rfl | rfl | rfl | rfl : b = 0x43 ∨ b = 0x56 ∨ b = 0x4F ∨ b = 0x61 := by
      simpa using hb
    · exact ⟨.classDecl, rfl⟩
    · exact ⟨.structureDecl, rfl⟩
    · exact ⟨.enumDecl, rfl⟩
    · exact ⟨.typeAlias, rfl⟩
  obtain ⟨kind, hdeclared⟩ := hkind
  exact declaration_recorded (hdeclared ▸ h)

end Declared

section References

/-- The bytes of a reference to a recorded node. -/
def referenceBytes (position : Nat) : Bytes :=
  ascii "S" ++ Mangle.index position

lemma type_reference (position : Nat) :
    parse (budget + 2) .type limit ⟨referenceBytes position ++ rest, table⟩ =
      (substitution >>= fun bare => pure (.branch .type [bare])) limit
        ⟨Mangle.index position ++ rest, table⟩ := by
  rw [parse_type]
  rfl

lemma type_recalled (budget : Nat) (hfew : Decimal.digitCount limit < Decimal.maxDigits) {position : Nat}
    (hposition : IndexWithin limit position) {node : Node} (hnode : table[position]? = some node)
    (rest : Bytes) :
    parse (budget + 2) .type limit ⟨referenceBytes position ++ rest, table⟩ =
      .found (.branch .type [node]) ⟨rest, table⟩ := by
  have hread := substitution_read (isWritable_of_few hfew) hposition hnode rest
  rw [type_reference, Parser.bind_of_found hread]
  rfl

/-- A reference to what is not recorded is refused, if only because its index is beyond the limit. -/
lemma type_unrecorded (budget : Nat) (hfew : Decimal.digitCount limit < Decimal.maxDigits) {position : Nat}
    (hposition : table.length ≤ position) (rest : Bytes) :
    ∃ s, parse (budget + 2) .type limit ⟨referenceBytes position ++ rest, table⟩ = .refused s := by
  have hnone : References.resolve? table position = none := List.getElem?_eq_none hposition
  rw [type_reference, Parser.bind_apply, substitution_index, Parser.bind_apply]
  obtain hindex | ⟨s, hindex⟩ := index_read_or_refused table hfew position rest
  · refine ⟨⟨rest, table⟩, ?_⟩
    simp only [hindex, recalled, hnone]
  · exact ⟨s, by rw [hindex]⟩

end References

section Pairs

/-- The letters of the types that are put into a tuple here. -/
def elementLetters : Bytes :=
  ascii "CVOaS"

lemma begins_elementLetters {type : Bytes} (h : type.Begins declaredLetters) :
    type.Begins elementLetters := by
  obtain ⟨b, unread, rfl, hb⟩ := h
  have hletters : declaredLetters.all (elementLetters.contains ·) := rfl
  exact .cons (List.all_eq_true.1 hletters b hb)

lemma referenceBytes_begins (position : Nat) : (referenceBytes position).Begins elementLetters :=
  .append (.cons rfl) _

/-- The tree of a tuple of two types without labels. -/
def pairTree (first second : Node) : Node :=
  .branch .type
    [.branch .tuple [.branch .tupleElement [first], .branch .tupleElement [second]]]

lemma rounds_tupleElement {call : Calls} (hbytes : bytes.Begins elementLetters) (count : Nat)
    (earlier : List Node) :
    rounds (collect (tupleElement call)) (count + 1) earlier limit ⟨bytes, table⟩ =
      (call .type >>= fun type =>
        rounds (collect (tupleElement call)) count (.branch .tupleElement [type] :: earlier)) limit
        ⟨bytes, table⟩ := by
  obtain ⟨b, unread, rfl, hb⟩ := hbytes
  have hletters : elementLetters.all fun b => !startsIdentifier (Bytes.char b) := rfl
  have hlabel : startsIdentifier (Bytes.char b) = false :=
    Bool.not_eq_true' _ ▸ List.all_eq_true.1 hletters b hb
  rw [rounds_collect hb rfl, Parser.bind_apply, tupleElement_unlabelled hlabel, Parser.bind_apply,
    Parser.bind_apply]
  cases call .type limit ⟨b :: unread, table⟩ with
  | found type s => rfl
  | refused s => rfl
  | stopped why => rfl

/-- The elements of a tuple are read one after the other, each within what is left of the budget. -/
lemma parse_tuple (items : Bytes) :
    parse (budget + 2) .type limit ⟨ascii "T" ++ items, table⟩ =
      (rounds (collect (tupleElement (parse budget))) (items.length + 1) [] >>= fun elements =>
        pure (.branch .type [.branch .tuple elements])) limit ⟨items, table⟩ := by
  rw [parse_type]
  show (tuple (parse budget) false >>= fun bare => pure (Node.branch .type [bare])) limit
    ⟨items, table⟩ = _
  unfold tuple
  simp only [branch_map_some, bind_assoc, pure_bind]
  rfl

/-- After the first element of a tuple comes the second. -/
lemma parse_tuple_second {first more : Bytes} (hfirst : first.Begins elementLetters)
    (hmore : more.Begins elementLetters)
    (hfound : parse budget .type limit ⟨first ++ more, []⟩ = .found tree ⟨more, table⟩) :
    ∃ count, parse (budget + 2) .type limit ⟨ascii "T" ++ (first ++ more), []⟩ =
      (parse budget .type >>= fun second =>
        rounds (collect (tupleElement (parse budget))) (count + 1)
          [.branch .tupleElement [second], .branch .tupleElement [tree]] >>= fun elements =>
            pure (.branch .type [.branch .tuple elements])) limit ⟨more, table⟩ := by
  obtain ⟨count, hcount⟩ : ∃ count, (first ++ more).length = count + 2 := by
    obtain ⟨b, unread, rfl, -⟩ := hfirst
    obtain ⟨c, left, rfl, -⟩ := hmore
    exact ⟨unread.length + left.length, by simp only [List.length_append, List.length_cons]; omega⟩
  refine ⟨count, ?_⟩
  rw [parse_tuple, hcount, Parser.bind_apply, rounds_tupleElement (hfirst.append more),
    Parser.bind_of_found hfound, rounds_tupleElement hmore, ← Parser.bind_apply, bind_assoc]

lemma pair_found {first second : Bytes} {tree' : Node} (hfirst : first.Begins elementLetters)
    (hsecond : second.Begins elementLetters)
    (hfound : parse budget .type limit ⟨first ++ (second ++ ascii "_"), []⟩ =
      .found tree ⟨second ++ ascii "_", table⟩)
    (hfound' : parse budget .type limit ⟨second ++ ascii "_", table⟩ =
      .found tree' ⟨ascii "_", table'⟩) :
    parse (budget + 2) .type limit ⟨ascii "T" ++ (first ++ (second ++ ascii "_")), []⟩ =
      .found (pairTree tree tree') ⟨[], table'⟩ := by
  obtain ⟨count, htuple⟩ := parse_tuple_second hfirst (hsecond.append (ascii "_")) hfound
  rw [htuple, Parser.bind_of_found hfound']
  rfl

lemma pair_refused {first second : Bytes} {s : State} (hfirst : first.Begins elementLetters)
    (hsecond : second.Begins elementLetters)
    (hfound : parse budget .type limit ⟨first ++ second, []⟩ = .found tree ⟨second, table⟩)
    (hrefused : parse budget .type limit ⟨second, table⟩ = .refused s) :
    parse (budget + 2) .type limit ⟨ascii "T" ++ (first ++ second), []⟩ = .refused s := by
  obtain ⟨count, htuple⟩ := parse_tuple_second hfirst hsecond hfound
  rw [htuple, Parser.bind_apply, hrefused]

lemma pair_first_exhausted {first : Bytes} (hfirst : first.Begins elementLetters)
    (hexhausted : parse budget .type limit ⟨first, []⟩ = .stopped .exhausted) :
    parse (budget + 2) .type limit ⟨ascii "T" ++ first, []⟩ = .stopped .exhausted := by
  rw [parse_tuple, Parser.bind_apply, rounds_tupleElement hfirst, Parser.bind_apply, hexhausted]

lemma pair_second_exhausted {first second : Bytes} (hfirst : first.Begins elementLetters)
    (hsecond : second.Begins elementLetters)
    (hfound : parse budget .type limit ⟨first ++ second, []⟩ = .found tree ⟨second, table⟩)
    (hexhausted : parse budget .type limit ⟨second, table⟩ = .stopped .exhausted) :
    parse (budget + 2) .type limit ⟨ascii "T" ++ (first ++ second), []⟩ = .stopped .exhausted := by
  obtain ⟨count, htuple⟩ := parse_tuple_second hfirst hsecond hfound
  rw [htuple, Parser.bind_apply, hexhausted]

end Pairs

/-- What a tuple of a declared type with itself shows of the type, if it does not exhaust the budget:
the type is found within what is left of the budget, wherever it stands, and found again after it has
been recorded. -/
lemma declared_twice {outer : Nat} {type : Bytes} (hdeclared : type.Begins declaredLetters)
    (htype : parse budget .type limit ⟨type, []⟩ = .found tree ⟨[], table⟩)
    (houter : parse outer .type limit ⟨ascii "T" ++ (type ++ (type ++ ascii "_")), []⟩ ≠
      .stopped .exhausted) :
    ∃ inner, outer = inner + 2 ∧
      (∀ other, parse inner .type limit ⟨type ++ other, []⟩ = .found tree ⟨other, table⟩) ∧
      ∃ table', parse inner .type limit ⟨type ++ ascii "_", table⟩ =
        .found tree ⟨ascii "_", table'⟩ := by
  have hletters := begins_elementLetters hdeclared
  obtain - | - | inner := outer
  · exact absurd rfl houter
  · exact absurd rfl houter
  obtain ⟨front, hfront, hanywhere⟩ := type_found htype
  obtain rfl : type = front := by rw [hfront, List.append_nil]
  -- What is found of the first copy within the budget that is left has to be all of it, since a type is
  -- settled by its own bytes.
  have hinner : ∀ other, parse inner .type limit ⟨type ++ other, []⟩ = .found tree ⟨other, table⟩ := by
    obtain hfound | hexhausted :=
      found_or_exhausted (hanywhere (type ++ ascii "_")) inner
    · obtain ⟨front, hfront, hsame⟩ := type_found hfound
      obtain rfl : type = front := List.append_cancel_right hfront
      exact hsame
    · exact absurd (pair_first_exhausted (hletters.append _) hexhausted) houter
  refine ⟨inner, rfl, hinner, ?_⟩
  obtain ⟨added, -, hagain⟩ := parse_foundAgain (Nat.le_refl budget) .type (hanywhere (ascii "_"))
  obtain hfound | hexhausted := found_or_exhausted (hagain table (List.prefix_refl table)) inner
  · exact ⟨_, hfound⟩
  · exact absurd (pair_second_exhausted hletters (hletters.append _) (hinner _) hexhausted) houter

lemma declared_last {type : Bytes} (hdeclared : type.Begins declaredLetters)
    (htype : parse budget .type limit ⟨type, []⟩ = .found tree ⟨[], table⟩) :
    ∃ inner bare, budget = inner + 2 ∧ table.getLast? = some bare ∧ tree = .branch .type [bare] := by
  obtain ⟨inner, bare, rfl, hbare, rfl⟩ := bareType_found htype
  obtain ⟨earlier, hrecorded⟩ := bareType_recorded hdeclared hbare
  cases hrecorded
  exact ⟨inner, bare, rfl, List.getLast?_concat, rfl⟩

end Grammar

open Grammar

/-- A type is the same whatever follows it. -/
theorem demangle_type_append (settings : Settings) (front rest : Bytes) (root : Node)
    (hfront : demangle .type settings (.bytes front) = .tree root) :
    demangle .type settings (.bytes (front ++ rest)) = .tree root := by
  obtain ⟨⟨left, table⟩, hfound⟩ := demangle_eq_tree_iff.1 hfront
  obtain ⟨taken, rfl, hsame⟩ := type_found hfound
  refine demangle_eq_tree_iff.2 ⟨⟨left ++ rest, table⟩, ?_⟩
  rw [MangledName.toBytes, List.append_assoc]
  exact hsame (left ++ rest)

/-- The mark of an operator after the type of integers. -/
theorem demangle_intType_append :
    demangle .type {} (.bytes (ascii "Si" ++ ascii "oi")) =
      .tree (.branch .type [stdlibType .structureDecl "Int"]) :=
  demangle_type_append {} (ascii "Si") (ascii "oi") _ rfl

/-- A reference stands for what it refers to. A declared type that takes all its bytes leaves itself at
the last position of the table. So in a tuple after it, spelling it out again and referring to that
position come to the same, and a reference to a later position is refused. The limit for natural
numbers has to reach the position; the default one reaches beyond any table. -/
theorem demangle_backReference (settings : Settings) (budget : Nat) {type : Bytes} {tree : Node}
    {table : References Node} {position : Nat}
    (hfew : Decimal.digitCount settings.maxNatural.toInt < Decimal.maxDigits)
    (hdeclared : type.Begins declaredLetters)
    (htype : parseBytes .type budget settings.maxNatural.toInt type = .found tree ⟨[], table⟩)
    (htable : table.length = position + 1)
    (hposition : IndexWithin settings.maxNatural.toInt position)
    (hbudget : ¬RunsOut .type settings (.bytes (ascii "T" ++ type ++ type ++ ascii "_"))) :
    demangle .type settings (.bytes type) = .tree tree ∧
      demangle .type settings (.bytes (ascii "T" ++ type ++ type ++ ascii "_")) =
        .tree (pairTree tree tree) ∧
      demangle .type settings (.bytes (ascii "T" ++ type ++ referenceBytes position ++ ascii "_")) =
        .tree (pairTree tree tree) ∧
      ∀ later > position, demangle .type settings
        (.bytes (ascii "T" ++ type ++ referenceBytes later ++ ascii "_")) = .notMangled := by
  have hletters := begins_elementLetters hdeclared
  simp only [RunsOut, MangledName.toBytes, List.append_assoc] at hbudget ⊢
  obtain ⟨inner, houter, hfirst, table', hagain⟩ := declared_twice hdeclared htype hbudget
  have hdepth : ∀ bytes, parseBytes .type settings.maxDepth.toInt.toNat settings.maxNatural.toInt bytes =
      parse (inner + 2) .type settings.maxNatural.toInt ⟨bytes, []⟩ := fun bytes => houter ▸ rfl
  have halone := hfirst []
  rw [List.append_nil] at halone
  obtain ⟨core, bare, rfl, hlast, rfl⟩ := declared_last hdeclared halone
  have hbare : table[position]? = some bare := by
    rw [List.getLast?_eq_getElem?, htable] at hlast
    exact hlast
  refine ⟨?_, ?_, ?_, fun later hlater => ?_⟩
  · obtain hexhausted | hsame := parse_of_le (Nat.le_add_right (core + 2) 2) .type
      settings.maxNatural.toInt ⟨type, []⟩
    · cases halone.symm.trans hexhausted
    · exact demangle_eq_tree_iff.2 ⟨_, (hdepth type).trans (hsame.symm.trans halone)⟩
  · have hpair := pair_found hletters hletters (hfirst _) hagain
    exact demangle_eq_tree_iff.2 ⟨_, (hdepth _).trans hpair⟩
  · have hrecalled := type_recalled core hfew hposition hbare (ascii "_")
    have hpair := pair_found hletters (referenceBytes_begins position) (hfirst _) hrecalled
    exact demangle_eq_tree_iff.2 ⟨_, (hdepth _).trans hpair⟩
  · obtain ⟨s, hrefused⟩ := type_unrecorded core hfew (htable.trans_le hlater) (ascii "_")
    have hpair := pair_refused hletters ((referenceBytes_begins later).append _) (hfirst _) hrefused
    exact demangle_of_refused ((hdepth _).trans hpair)

/-- A class leaves its module and itself in the table. -/
theorem demangle_pairedClass :
    ∃ tree, demangle .type {} (.bytes (ascii "C4main3Foo")) = .tree tree ∧
      demangle .type {} (.bytes (ascii "TC4main3FooC4main3Foo_")) = .tree (pairTree tree tree) ∧
      demangle .type {} (.bytes (ascii "TC4main3FooS0__")) = .tree (pairTree tree tree) ∧
      demangle .type {} (.bytes (ascii "TC4main3FooS1__")) = .notMangled := by
  have htable : (match parseBytes .type 128 18446744073709551615 (ascii "C4main3Foo") with
      | .found _ s => s.unread.length == 0 && s.recorded.length == 1 + 1
      | _ => false) = true := by decide +kernel
  have hpair : (demangle .type {} (.bytes (ascii "TC4main3FooC4main3Foo_"))).tree?.isSome = true := by
    decide +kernel
  have hbudget : ¬RunsOut .type {} (.bytes (ascii "TC4main3FooC4main3Foo_")) := by
    intro hexhausted
    rw [(runsOut_iff rfl).1 hexhausted] at hpair
    cases hpair
  split at htable
  · next tree s hclass =>
    rw [Bool.and_eq_true, beq_iff_eq, beq_iff_eq, List.length_eq_zero_iff] at htable
    obtain ⟨unread, table⟩ := s
    obtain ⟨hunread, htable⟩ := htable
    cases hunread
    obtain ⟨halone, htwice, hreferred, hlater⟩ := demangle_backReference {} 128 (by decide)
      (Bytes.Begins.cons rfl) hclass htable (by decide) hbudget
    exact ⟨tree, halone, htwice, hreferred, hlater 2 (by decide)⟩
  · cases htable

end SwiftMangling
