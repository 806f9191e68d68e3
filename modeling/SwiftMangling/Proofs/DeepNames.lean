import Mathlib.Algebra.BigOperators.Group.List.Basic
import SwiftMangling.Proofs.GrammarNesting
import SwiftMangling.Proofs.TypeSurroundings

/-!
# Trees that are as deep as their names are long

Two ways of nesting a tree take nothing from the budget. Each name of a compound member type puts the
type before it two levels down. And a declaration whose context is a reference puts what was recorded a
level down, however deep that is already.
-/

namespace SwiftMangling

open Mangle (ascii nameNode)

namespace Grammar

variable {call : Calls} {limit : Int} {budget : Nat} {table : References Node}

section Members

/-- The member type that a name stands for in a base. -/
def memberOf (base : Node) (name : Bytes) : Node :=
  .branch .dependentMemberType [.branch .type [base], nameNode .dependentAssociatedTypeRef name]

/-- A member type of a base, its member type in turn, and so on. -/
def memberChain (base : Node) (names : List Bytes) : Node :=
  names.foldl memberOf base

lemma height_memberOf (base : Node) (name : Bytes) : base.height + 2 ≤ (memberOf base name).height := by
  have htype := Node.height_lt_branch .type base []
  have hmember : (Node.branch .type [base]).height < (memberOf base name).height :=
    Node.height_lt_branch ..
  omega

lemma height_memberChain (base : Node) (names : List Bytes) :
    base.height + 2 * names.length ≤ (memberChain base names).height := by
  induction names generalizing base with
  | nil => exact Nat.le_refl _
  | cons name names ih =>
    have hfirst := height_memberOf base name
    have hlater := ih (memberOf base name)
    rw [List.length_cons]
    exact Nat.le_trans (by omega) hlater

lemma length_le_flatMap_identifier (names : List Bytes) :
    names.length ≤ (names.flatMap Mangle.identifier).length := by
  rw [List.length_flatMap, ← List.length_map fun name => (Mangle.identifier name).length]
  apply List.length_le_sum_of_one_le
  intro length hlength
  obtain ⟨name, -, rfl⟩ := List.mem_map.1 hlength
  obtain ⟨b, unread, hbytes, -⟩ := Mangle.identifier_begins name
  rw [hbytes]
  exact Nat.succ_pos _

variable (call : Calls) (hlimit : Decimal.isWritable limit) (table : References Node)
include hlimit

lemma memberRound_read (base : Node) {name : Bytes} (hname : name.NoDigit)
    (hlength : name.length ≤ limit) (rest : Bytes) :
    memberRound call base limit ⟨Mangle.identifier name ++ rest, table⟩ =
      .found (.again (memberOf base name))
        ⟨rest, table ++ [nameNode .dependentAssociatedTypeRef name]⟩ := by
  have hread := identifier_read hlimit (some .dependentAssociatedTypeRef) hname hlength rest table
  obtain ⟨b, unread, hbytes, hb⟩ := (Mangle.identifier_begins name).append rest
  rw [hbytes] at hread ⊢
  have hmark : afterMark "P" (protocolType call) limit ⟨b :: unread, table⟩ =
      .found none ⟨b :: unread, table⟩ := skip "P" hb rfl _ _ limit unread table
  rw [memberRound_eq, skip "_" hb rfl]
  unfold associatedTypeRef
  rw [Parser.bind_apply, skip "S" hb rfl, Parser.bind_of_found hmark, Parser.bind_of_found hread]
  rfl

/-- A compound member type is read up to its underscore. -/
lemma memberRounds_read {names : List Bytes} (hnames : ∀ name ∈ names, name.NoDigit)
    (hlengths : ∀ name ∈ names, name.length ≤ limit) (base : Node) {count : Nat}
    (hcount : names.length < count) (rest : Bytes) :
    ∃ table', rounds (memberRound call) count base limit
      ⟨names.flatMap Mangle.identifier ++ 0x5F :: rest, table⟩ =
        .found (memberChain base names) ⟨rest, table'⟩ := by
  induction names generalizing base count table with
  | nil =>
    obtain ⟨count, rfl⟩ := Nat.exists_eq_add_of_le' hcount
    exact ⟨table, rfl⟩
  | cons name names ih =>
    obtain ⟨count, rfl⟩ := Nat.exists_eq_add_of_le' (Nat.zero_lt_of_lt hcount)
    rw [List.forall_mem_cons] at hnames hlengths
    have hround := memberRound_read call hlimit table base hnames.1 hlengths.1
      (names.flatMap Mangle.identifier ++ 0x5F :: rest)
    rw [List.flatMap_cons, List.append_assoc, rounds, Parser.bind_apply, hround]
    exact ih _ hnames.2 hlengths.2 (memberOf base name) (Nat.lt_of_succ_lt_succ hcount)

/-- Two units of the budget are enough for a compound member type of any length. -/
lemma parse_memberChain (budget : Nat) {names : List Bytes} (hnames : ∀ name ∈ names, name.NoDigit)
    (hlengths : ∀ name ∈ names, name.length ≤ limit) (rest : Bytes) :
    ∃ table', parse (budget + 2) .type limit
      ⟨ascii "Wx" ++ (names.flatMap Mangle.identifier ++ 0x5F :: rest), table⟩ =
        .found (.branch .type [memberChain (genericParam 0 0) names]) ⟨rest, table'⟩ := by
  have hcount : names.length < (names.flatMap Mangle.identifier ++ 0x5F :: rest).length + 1 := by
    have hbytes := length_le_flatMap_identifier names
    rw [List.length_append]
    omega
  obtain ⟨table', hrounds⟩ := memberRounds_read (parse budget) hlimit table hnames hlengths
    (genericParam 0 0) hcount rest
  have hcompound : compoundMemberType (parse budget) limit
      ⟨ascii "x" ++ (names.flatMap Mangle.identifier ++ 0x5F :: rest), table⟩ =
        .found (memberChain (genericParam 0 0) names) ⟨rest, table'⟩ :=
    hrounds
  have hbare : bareType (parse budget) limit
      ⟨ascii "Wx" ++ (names.flatMap Mangle.identifier ++ 0x5F :: rest), table⟩ =
        .found (memberChain (genericParam 0 0) names) ⟨rest, table'⟩ :=
    hcompound
  refine ⟨table', ?_⟩
  rw [parse_type, Parser.bind_of_found hbare]
  rfl

end Members

section References

/-- A class within something else. -/
def nestedClass (outer : Node) : Node :=
  .branch .classDecl [outer, nameNode .identifier (ascii "a")]

/-- A type as an element of a tuple. -/
def typeElement (type : Node) : Node :=
  .branch .tupleElement [.branch .type [type]]

lemma height_nestedClass (outer : Node) : outer.height < (nestedClass outer).height :=
  Node.height_lt_branch ..

lemma height_typeElement (type : Node) : type.height < (typeElement type).height := by
  have htype := Node.height_lt_branch .type type []
  exact Nat.lt_trans htype (Node.height_lt_branch ..)

/-- The bytes of a class behind its context. -/
def classBytes (context : Bytes) : Bytes :=
  ascii "C" ++ (context ++ Mangle.identifier (ascii "a"))

/-- The class is recorded. -/
lemma class_read (hlimit : Decimal.isWritable limit) (hlength : 1 ≤ limit) {context : Bytes}
    {outer : Node} (hcontext : ∀ unread, parse budget .context limit ⟨context ++ unread, table⟩ =
      .found outer ⟨unread, table⟩) (rest : Bytes) :
    parse (budget + 2) .type limit ⟨classBytes context ++ rest, table⟩ =
      .found (.branch .type [nestedClass outer]) ⟨rest, table ++ [nestedClass outer]⟩ := by
  have hname : (ascii "a").NoDigit := rfl
  have hread := declName_read hlimit hname hlength rest table
  have hbare : bareType (parse budget) limit ⟨classBytes context ++ rest, table⟩ =
      .found (nestedClass outer) ⟨rest, table ++ [nestedClass outer]⟩ := by
    rw [classBytes, List.append_assoc, List.append_assoc]
    show declaration (parse budget) .classDecl limit
      ⟨context ++ (Mangle.identifier (ascii "a") ++ rest), table⟩ = _
    rw [declaration, Parser.bind_of_found (hcontext _), Parser.bind_of_found hread]
    rfl
  rw [parse_type, Parser.bind_of_found hbare]
  rfl

/-- An element of a tuple that is a class. -/
lemma rounds_class {context rest : Bytes} {type : Node} {table' : References Node}
    (hclass : parse budget .type limit ⟨classBytes context ++ rest, table⟩ =
      .found (.branch .type [type]) ⟨rest, table'⟩) (count : Nat) (earlier : List Node) :
    rounds (collect (tupleElement (parse budget))) (count + 1) earlier limit
        ⟨classBytes context ++ rest, table⟩ =
      rounds (collect (tupleElement (parse budget))) count (typeElement type :: earlier) limit
        ⟨rest, table'⟩ := by
  have hbegins : (classBytes context ++ rest).Begins elementLetters := .cons rfl
  rw [rounds_tupleElement hbegins, Parser.bind_of_found hclass]
  rfl

/-- Bytes that stand for a context of a declaration and refer to a recorded node for it. -/
structure Refers (limit : Int) (budget : Nat) (context : Nat → Bytes) (outer : Node → Node) : Prop where
  read : ∀ {position : Nat} {table : References Node} {node : Node}, IndexWithin limit position →
    table[position]? = some node → ∀ unread,
      parse budget .context limit ⟨context position ++ unread, table⟩ = .found (outer node) ⟨unread, table⟩

/-- The bytes of so many classes, each within a context that refers to the one before it. The first refers
to what has been recorded at a position, and what each records is at the next position. -/
def classChain (context : Nat → Bytes) (position : Nat) : Nat → Bytes
  | 0 => []
  | count + 1 => classBytes (context position) ++ classChain context (position + 1) count

lemma count_le_classChain (context : Nat → Bytes) (position count : Nat) :
    count ≤ (classChain context position count).length := by
  induction count generalizing position with
  | zero => exact Nat.zero_le _
  | succ count ih =>
    have hlater := ih (position + 1)
    have hletter : 1 ≤ (classBytes (context position)).length := Nat.succ_pos _
    rw [classChain, List.length_append]
    omega

lemma indexWithin_of_le {n : Nat} (h : n ≤ limit) : IndexWithin limit n := by
  cases n with
  | zero => trivial
  | succ n =>
    show (n : Int) ≤ limit
    omega

/-- The last class of the chain is an element, and all are read within one budget. -/
lemma classChain_read (hfew : Decimal.digitCount limit < Decimal.maxDigits) (hlength : 1 ≤ limit)
    {context : Nat → Bytes} {outer : Node → Node} (hcontext : Refers limit budget context outer)
    {position count : Nat} (hwithin : (position + count : Nat) ≤ limit) (htable : table.length = position)
    {node : Node} {earlier : List Node} (hearlier : typeElement node ∈ earlier) {bound : Nat}
    (hbound : count < bound) :
    ∃ elements s, rounds (collect (tupleElement (parse (budget + 2)))) bound earlier limit
        ⟨classChain context position count ++ ascii "_", table ++ [node]⟩ = .found elements s ∧
      typeElement ((fun node => nestedClass (outer node))^[count] node) ∈ elements := by
  induction count generalizing position table node earlier bound with
  | zero =>
    obtain ⟨bound, rfl⟩ := Nat.exists_eq_add_of_le' hbound
    exact ⟨earlier.reverse, ⟨[], table ++ [node]⟩, rfl, List.mem_reverse.2 hearlier⟩
  | succ count ih =>
    obtain ⟨bound, rfl⟩ := Nat.exists_eq_add_of_le' (Nat.zero_lt_of_lt hbound)
    have hposition : IndexWithin limit position := indexWithin_of_le (by omega)
    have hnode : (table ++ [node])[position]? = some node := htable ▸ List.getElem?_concat_length
    have hread := class_read (isWritable_of_few hfew) hlength (hcontext.read hposition hnode)
      (classChain context (position + 1) count ++ ascii "_")
    have hgrown : (table ++ [node]).length = position + 1 := htable ▸ List.length_append
    have hlater := ih (by omega) hgrown (List.mem_cons_self (a := typeElement (nestedClass (outer node)))
      (l := earlier)) (Nat.lt_of_succ_lt_succ hbound)
    rw [classChain, List.append_assoc, rounds_class hread]
    exact hlater

/-- A tuple of classes, the first of them in the standard library and each other one within a context that
refers to the one before it. -/
def classTower (context : Nat → Bytes) (count : Nat) : Bytes :=
  ascii "T" ++ (classBytes (ascii "s") ++ (classChain context 0 count ++ ascii "_"))

/-- A tower of classes is read within one budget. -/
lemma classTower_read (hfew : Decimal.digitCount limit < Decimal.maxDigits) (hlength : 1 ≤ limit)
    {context : Nat → Bytes} {outer : Node → Node} (hcontext : Refers limit (budget + 1) context outer)
    {count : Nat} (hwithin : count ≤ limit) :
    ∃ elements s, parse (budget + 5) .type limit ⟨classTower context count, []⟩ =
        .found (.branch .type [.branch .tuple elements]) s ∧
      typeElement ((fun node => nestedClass (outer node))^[count] (nestedClass stdlibModule)) ∈ elements := by
  have hstdlib : ∀ unread, parse (budget + 1) .context limit ⟨ascii "s" ++ unread, []⟩ =
      .found stdlibModule ⟨unread, []⟩ := fun _ => rfl
  have hfirst := class_read (isWritable_of_few hfew) hlength hstdlib (classChain context 0 count ++ ascii "_")
  have hcount : count < (classBytes (ascii "s") ++ (classChain context 0 count ++ ascii "_")).length := by
    have hbytes := count_le_classChain context 0 count
    have hletter : 1 ≤ (classBytes (ascii "s")).length := Nat.succ_pos _
    rw [List.length_append, List.length_append]
    omega
  have hnone : ([] : References Node).length = 0 := rfl
  obtain ⟨elements, s, hrounds, helement⟩ :=
    classChain_read hfew hlength hcontext (show (0 + count : Nat) ≤ limit by omega) hnone
      (List.mem_singleton_self (typeElement (nestedClass stdlibModule))) hcount
  refine ⟨elements, s, ?_, helement⟩
  rw [classTower, parse_tuple, Parser.bind_apply, rounds_class hfirst, hrounds]
  rfl

/-- A reference is a context by itself. -/
lemma refers_reference (hfew : Decimal.digitCount limit < Decimal.maxDigits) (budget : Nat) :
    Refers limit (budget + 1) referenceBytes id where
  read hposition hnode unread := substitution_read (isWritable_of_few hfew) hposition hnode unread

lemma height_iterate {step : Node → Node} (hstep : ∀ node, node.height < (step node).height) (count : Nat)
    (node : Node) : node.height + count ≤ (step^[count] node).height := by
  induction count generalizing node with
  | zero => exact Nat.le_refl _
  | succ count ih =>
    have hnext := hstep node
    have hlater := ih (step node)
    rw [Function.iterate_succ_apply]
    omega

lemma compound_not_mem_index (n : Nat) : 0x57 ∉ Mangle.index n := by
  cases n with
  | zero => decide
  | succ n =>
    have hdigits : 0x57 ∉ Mangle.natural n :=
      fun h => absurd (Mangle.isDigit_of_mem_natural h) (by decide)
    simp only [Mangle.index, List.mem_append, not_or]
    exact ⟨hdigits, by decide⟩

lemma compound_not_mem_classBytes {context : Bytes} (h : 0x57 ∉ context) :
    0x57 ∉ classBytes context := by
  simp only [classBytes, List.mem_append, not_or]
  exact ⟨by decide, h, by decide⟩

lemma compound_not_mem_referenceChain (position count : Nat) :
    0x57 ∉ classChain referenceBytes position count := by
  induction count generalizing position with
  | zero => exact List.not_mem_nil
  | succ count ih =>
    have hreference : 0x57 ∉ referenceBytes position := by
      simp only [referenceBytes, List.mem_append, not_or]
      exact ⟨by decide, compound_not_mem_index position⟩
    simp only [classChain, List.mem_append, not_or]
    exact ⟨compound_not_mem_classBytes hreference, ih (position + 1)⟩

/-- None of the types is a compound member type. -/
lemma compound_not_mem_classTower (count : Nat) : 0x57 ∉ classTower referenceBytes count := by
  have hfirst : 0x57 ∉ classBytes (ascii "s") := compound_not_mem_classBytes (by decide)
  simp only [classTower, List.mem_append, not_or]
  exact ⟨by decide, hfirst, compound_not_mem_referenceChain 0 count, by decide⟩

end References

end Grammar

open Grammar

/-- A compound member type is as deep as it has names, whatever the budget. -/
theorem demangle_memberChain (settings : Settings)
    (hlimit : Decimal.isWritable settings.maxNatural.toInt) (hbudget : 2 ≤ settings.maxDepth.toInt)
    {names : List Bytes} (hnames : ∀ name ∈ names, name.NoDigit)
    (hlengths : ∀ name ∈ names, name.length ≤ settings.maxNatural.toInt) :
    demangle .type settings (.bytes (ascii "Wx" ++ (names.flatMap Mangle.identifier ++ ascii "_"))) =
      .tree (.branch .type [memberChain (genericParam 0 0) names]) := by
  obtain ⟨budget, hdepth⟩ : ∃ budget, settings.maxDepth.toInt.toNat = budget + 2 :=
    Nat.exists_eq_add_of_le' (by omega)
  obtain ⟨table, hread⟩ := parse_memberChain hlimit [] budget hnames hlengths []
  refine demangle_eq_tree_iff.2 ⟨⟨[], table⟩, ?_⟩
  rw [hdepth]
  exact hread

/-- Classes that refer to one another are as deep as there are of them, as far as an index reaches. -/
theorem demangle_classTower (settings : Settings)
    (hfew : Decimal.digitCount settings.maxNatural.toInt < Decimal.maxDigits)
    (hlength : 1 ≤ settings.maxNatural.toInt) (hbudget : 5 ≤ settings.maxDepth.toInt) {count : Nat}
    (hcount : count ≤ settings.maxNatural.toInt) :
    ∃ root, demangle .type settings (.bytes (classTower referenceBytes count)) = .tree root ∧
      count < root.height := by
  obtain ⟨budget, hdepth⟩ : ∃ budget, settings.maxDepth.toInt.toNat = budget + 5 :=
    Nat.exists_eq_add_of_le' (by omega)
  obtain ⟨elements, s, hread, helement⟩ :=
    classTower_read hfew hlength (refers_reference hfew budget) hcount
  refine ⟨.branch .type [.branch .tuple elements], demangle_eq_tree_iff.2 ⟨s, ?_⟩, ?_⟩
  · rw [hdepth]
    exact hread
  · have hlast := height_iterate height_nestedClass count (nestedClass stdlibModule)
    have hlow := height_typeElement (nestedClass^[count] (nestedClass stdlibModule))
    have htuple : (typeElement (nestedClass^[count] (nestedClass stdlibModule))).height <
        (Node.branch .tuple elements).height := Node.height_lt_of_mem helement
    have htype := Node.height_lt_branch .type (.branch .tuple elements) []
    omega

end SwiftMangling
