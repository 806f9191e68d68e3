import Mathlib.Data.List.Chain
import SwiftMangling.Mangle.Signature
import SwiftMangling.Proofs.ReadOrRefused
import SwiftMangling.Proofs.Symbol
import SwiftMangling.Proofs.TypeRoundTrip

/-!
# Generic signatures are read back

The counts of a signature end at one of two letters, and its requirements end at one of them. A
requirement on a layout may end in a number, which is read up to the next byte that is no digit. So the
mangling of the next requirement must not begin with one.
-/

namespace SwiftMangling

namespace Mangle

/-- The numbers of a layout are within the limit. -/
def Layout.Fits (limit : Int) (layout : Layout) : Prop :=
  ∀ n ∈ layout.numbers, (n : Int) ≤ limit

namespace Constraint

/-- Types and protocols are those that can be mangled. -/
def IsProper : Constraint → Prop
  | sameType type => type.IsProper
  | layout _ => True
  | conforms module name => module.NoDigit ∧ name.NoDigit

/-- The numbers that are written for a constraint in view of a table are within the limit. -/
def Fits (limit : Int) (table : References Scope) : Constraint → Prop
  | sameType type => type.Fits limit table
  | layout shape => shape.Fits limit
  | conforms module name => (Scope.member (.root module) .protocolDecl name).Fits limit table

/-- The budget that reading a constraint takes. -/
def nesting : Constraint → Nat
  | sameType type => type.nesting + 1
  | layout _ => 0
  | conforms _ _ => 1

/-- The mangling ends in a number. -/
def EndsInNumber : Constraint → Prop
  | layout shape => shape.numbers ≠ []
  | _ => False

instance (limit : Int) (layout : Layout) : Decidable (layout.Fits limit) :=
  inferInstanceAs (Decidable (∀ n ∈ layout.numbers, (n : Int) ≤ limit))

instance : DecidablePred IsProper
  | sameType type => inferInstanceAs (Decidable type.IsProper)
  | layout _ => isTrue trivial
  | conforms module name => inferInstanceAs (Decidable (module.NoDigit ∧ name.NoDigit))

instance (limit : Int) (table : References Scope) : DecidablePred (Fits limit table)
  | sameType type => inferInstanceAs (Decidable (type.Fits limit table))
  | layout shape => inferInstanceAs (Decidable (shape.Fits limit))
  | conforms module name =>
    inferInstanceAs (Decidable ((Scope.member (.root module) .protocolDecl name).Fits limit table))

instance : DecidablePred EndsInNumber
  | sameType _ => isFalse id
  | layout shape => inferInstanceAs (Decidable (shape.numbers ≠ []))
  | conforms _ _ => isFalse id

end Constraint

namespace Requirement

/-- The mangling begins with a number: it is that of a parameter at the outermost depth, of which the
first two have manglings of their own. -/
def BeginsWithNumber (requirement : Requirement) : Prop :=
  requirement.depth = 0 ∧ 2 ≤ requirement.index

instance : DecidablePred BeginsWithNumber :=
  fun requirement => inferInstanceAs (Decidable (requirement.depth = 0 ∧ 2 ≤ requirement.index))

/-- Two requirements can stand next to each other: their numbers are kept apart. -/
def KeptApart (requirement next : Requirement) : Prop :=
  requirement.constraint.EndsInNumber → ¬next.BeginsWithNumber

instance (requirement next : Requirement) : Decidable (KeptApart requirement next) :=
  inferInstanceAs (Decidable (requirement.constraint.EndsInNumber → ¬next.BeginsWithNumber))

/-- The numbers that are written for requirements are within the limit. -/
def allFit (limit : Int) : List Requirement → References Scope → Prop
  | [], _ => True
  | requirement :: rest, table =>
    ParamFits limit requirement.depth requirement.index ∧ requirement.constraint.Fits limit table ∧
      allFit limit rest (requirement.write table).2

instance decideAllFit (limit : Int) :
    (requirements : List Requirement) → (table : References Scope) →
      Decidable (allFit limit requirements table)
  | [], _ => isTrue trivial
  | requirement :: rest, table =>
    have := decideAllFit limit rest (requirement.write table).2
    inferInstanceAs (Decidable (ParamFits limit requirement.depth requirement.index ∧
      requirement.constraint.Fits limit table ∧ allFit limit rest (requirement.write table).2))

/-- The budget that reading requirements takes. -/
def allNesting : List Requirement → Nat
  | [] => 0
  | requirement :: rest => max requirement.constraint.nesting (allNesting rest)

/-- Without a number in front, the mangling of a parameter begins with something other than a digit. -/
lemma noDigit_of_not_beginsWithNumber {requirement : Requirement}
    (h : ¬requirement.BeginsWithNumber) :
    (paramIndex requirement.depth requirement.index).NoDigit := by
  obtain ⟨depth, index, constraint⟩ := requirement
  match depth, index with
  | 0, 0 => rfl
  | 0, 1 => rfl
  | 0, index + 2 => exact absurd ⟨rfl, Nat.le_add_left 2 index⟩ h
  | depth + 1, index => rfl

end Requirement

namespace Signature

/-- The number of parameters can be written within the limit. -/
def CountFits (limit : Int) : Nat → Prop
  | 0 => True
  | n + 1 => Grammar.IndexWithin limit n

instance (limit : Int) : DecidablePred (CountFits limit)
  | 0 => isTrue trivial
  | n + 1 => inferInstanceAs (Decidable (Grammar.IndexWithin limit n))

/-- There is a depth, what is required can be mangled, and the numbers of requirements that follow each
other are kept apart. -/
def IsProper (signature : Signature) : Prop :=
  signature.counts ≠ [] ∧ (∀ requirement ∈ signature.requirements, requirement.constraint.IsProper) ∧
    signature.requirements.IsChain Requirement.KeptApart

instance : DecidablePred IsProper := fun signature =>
  inferInstanceAs (Decidable (signature.counts ≠ [] ∧
    (∀ requirement ∈ signature.requirements, requirement.constraint.IsProper) ∧
      signature.requirements.IsChain Requirement.KeptApart))

/-- The numbers that are written for a signature in view of a table are within the limit. -/
def Fits (limit : Int) (signature : Signature) (table : References Scope) : Prop :=
  (∀ n ∈ signature.counts, CountFits limit n) ∧ Requirement.allFit limit signature.requirements table

instance (limit : Int) (signature : Signature) (table : References Scope) :
    Decidable (signature.Fits limit table) :=
  inferInstanceAs (Decidable ((∀ n ∈ signature.counts, CountFits limit n) ∧
    Requirement.allFit limit signature.requirements table))

/-- The budget that reading a signature takes. -/
def nesting (signature : Signature) : Nat :=
  Requirement.allNesting signature.requirements + 1

/-- The budget that reading a type under a signature takes. -/
def typeNesting (signature : Signature) (type : TypeExpr) : Nat :=
  max signature.nesting (type.nesting + 1) + 2

end Signature

end Mangle

namespace Grammar

open Mangle (Writer Scope TypeExpr Layout Constraint Requirement Signature digits ascii)
open Mangle.Writer (emit)

variable {limit : Int} {table : References Scope} {call : Calls} {budget : Nat}

section Counts

variable (hlimit : Decimal.isWritable limit)
include hlimit

lemma paramCount_read {count : Nat} (hfits : Signature.CountFits limit count) :
    ReadsBack limit table paramCount (emit (Signature.countCode count)) count := by
  intro rest
  cases count with
  | zero => rfl
  | succ count =>
    have hread := index_read hlimit (table.map Scope.tree) hfits rest
    obtain ⟨b, unread, hbytes, hb⟩ := (Mangle.index_begins count).append rest
    show paramCount limit ⟨Mangle.index count ++ rest, _⟩ = _
    rw [hbytes] at hread ⊢
    unfold paramCount
    rw [skip "z" hb rfl, Parser.bind_of_found hread]
    rfl

/-- What the counts of a signature end at. -/
def endsCounts : Parser Bool := do
  let c ← peek
  pure (c = 'R' || c = 'r')

omit hlimit in
lemma countCode_begins (count : Nat) :
    (Signature.countCode count).Begins (0x7A :: 0x5F :: digits) := by
  cases count with
  | zero => exact .cons rfl
  | succ count =>
    obtain ⟨b, rest, hbytes, hb⟩ := Mangle.index_begins count
    exact ⟨b, rest, hbytes, List.mem_cons_of_mem _ hb⟩

/-- A letter at which the counts end, and which is left there. -/
def AtRequirements (rest : Bytes) : Prop :=
  rest.Begins (ascii "Rr")

lemma counts_readsList {counts : List Nat} (hfits : ∀ n ∈ counts, Signature.CountFits limit n)
    (earlier : List Nat) :
    ReadsList AtRequirements limit table endsCounts (fun _ => paramCount) earlier
      (emit (counts.flatMap Signature.countCode)) (some counts) := by
  induction counts generalizing earlier with
  | nil =>
    refine readsList_nil fun rest hrest => ?_
    obtain ⟨b, unread, hbytes, hb⟩ := hrest
    have hletters : (ascii "Rr").all fun b => Bytes.char b = 'R' || Bytes.char b = 'r' := rfl
    have hend := List.all_eq_true.1 hletters b hb
    show endsCounts limit ⟨rest, _⟩ = _
    rw [hbytes, endsCounts, Parser.bind_of_found (peek_cons b unread limit _), hend]
    rfl
  | cons count counts ih =>
    rw [List.forall_mem_cons] at hfits
    have hgo : ∀ b ∈ 0x7A :: 0x5F :: digits, ∀ unread nodes,
        endsCounts limit ⟨b :: unread, nodes⟩ = .found false ⟨b :: unread, nodes⟩ := by
      intro b hb unread nodes
      have hletters : (0x7A :: 0x5F :: digits).all fun b =>
          !(Bytes.char b = 'R' || Bytes.char b = 'r') := rfl
      have hmark := Bool.not_eq_true' _ ▸ List.all_eq_true.1 hletters b hb
      rw [endsCounts, Parser.bind_of_found (peek_cons b unread limit nodes), hmark]
      rfl
    rw [List.flatMap_cons, Mangle.Writer.emit_append]
    exact readsList_found (countCode_begins count) hgo
      ((paramCount_read hlimit hfits.1).readsAs anyRest) (fun _ _ => trivial)
      (ih hfits.2 (count :: earlier))

/-- The counts are read back; where none is written there is a single parameter. -/
lemma paramCounts_readsAs {counts : List Nat} (hsome : counts ≠ [])
    (hfits : ∀ n ∈ counts, Signature.CountFits limit n) :
    ReadsAs AtRequirements limit table paramCounts (emit (Signature.countsCode counts))
      (some counts) := by
  have hgather : ∀ written : List Nat, (∀ n ∈ written, Signature.CountFits limit n) →
      ReadsAs AtRequirements limit table paramCounts (emit (written.flatMap Signature.countCode))
        (some (if written.isEmpty then [1] else written)) := fun written hwritten =>
    (gather_readsAs (counts_readsList hlimit hwritten [])).finish_some fun _ => rfl
  by_cases hone : counts = [1]
  · subst hone
    exact hgather [] nofun
  · have hread := hgather counts hfits
    rw [Signature.countsCode, if_neg hone]
    rwa [List.isEmpty_eq_false_iff.2 hsome, if_neg Bool.false_ne_true] at hread

end Counts

section Layouts

/-- A layout requirement once its letter has been read. -/
def layoutParts (constrained : Node) (letter : Text) (count : Nat) : Parser Node := do
  let numbers ← layoutNumbers count
  branch .dependentGenericLayoutRequirement
    ((constrained :: .named .identifier letter ::
      numbers.map fun (n : Nat) => .numbered .number n).map some)

variable (hlimit : Decimal.isWritable limit)
include hlimit

lemma natural_readsAs {n : Nat} (hn : n ≤ limit) :
    ReadsAs Bytes.NoDigit limit table natural (emit (Mangle.natural n)) (some n) :=
  fun _ hrest => natural_read hlimit _ hn hrest

lemma layoutNumbers_one {size : Nat} (hsize : size ≤ limit) :
    ReadsAs Bytes.NoDigit limit table (layoutNumbers 1) (emit (Mangle.natural size))
      (some [size]) :=
  (natural_readsAs hlimit hsize).finish_some fun _ => rfl

/-- An underscore ends the first number. -/
lemma layoutNumbers_two {size alignment : Nat} (hsize : size ≤ limit) (halignment : alignment ≤ limit) :
    ReadsAs Bytes.NoDigit limit table (layoutNumbers 2)
      (emit (Mangle.natural size) ++ (emit (ascii "_") ++ emit (Mangle.natural alignment)))
      (some [size, alignment]) := by
  have hsecond : ReadsAs Bytes.NoDigit limit table (natural >>= fun alignment => pure [size, alignment])
      (emit (Mangle.natural alignment)) (some [size, alignment]) :=
    (natural_readsAs hlimit halignment).finish_some fun _ => rfl
  exact (natural_readsAs hlimit hsize).bind_some (fun _ _ => rfl)
    (.after (ascii "_") (fun _ _ => rfl) hsecond)

/-- The last of the numbers of a layout ends before something other than a digit. -/
lemma layoutNumbers_readsAs {layout : Layout} (hfits : layout.Fits limit) :
    ReadsAs (fun rest => layout.numbers ≠ [] → rest.NoDigit) limit table
      (layoutNumbers layout.numbers.length) (emit (Layout.numbersCode layout.numbers))
      (some layout.numbers) := by
  have hone : ∀ size : Nat, Layout.numbersCode [size] = Mangle.natural size := fun size =>
    List.append_nil _
  have htwo : ∀ size alignment : Nat, Layout.numbersCode [size, alignment] =
      Mangle.natural size ++ (ascii "_" ++ Mangle.natural alignment) := fun size alignment =>
    congrArg (fun back => Mangle.natural size ++ (ascii "_" ++ back)) (List.append_nil _)
  have hnumbered : ∀ numbers : List Nat, numbers ≠ [] → ∀ rest : Bytes,
      (numbers ≠ [] → rest.NoDigit) → rest.NoDigit := fun _ hsome _ hrest => hrest hsome
  unfold Layout.Fits at hfits
  cases layout with
  | trivialOfSize size =>
    rw [Layout.numbers, hone]
    exact (layoutNumbers_one hlimit (hfits size (.head _))).weaken (hnumbered _ nofun)
  | trivialAtMost size =>
    rw [Layout.numbers, hone]
    exact (layoutNumbers_one hlimit (hfits size (.head _))).weaken (hnumbered _ nofun)
  | trivialOfSizeAligned size alignment =>
    rw [Layout.numbers, htwo]
    exact (layoutNumbers_two hlimit (hfits size (.head _))
      (hfits alignment (.tail _ (.head _)))).weaken (hnumbered _ nofun)
  | trivialAtMostAligned size alignment =>
    rw [Layout.numbers, htwo]
    exact (layoutNumbers_two hlimit (hfits size (.head _))
      (hfits alignment (.tail _ (.head _)))).weaken (hnumbered _ nofun)
  | _ => exact fun _ _ => rfl

omit hlimit in
/-- The letter of a layout says how many numbers follow it. -/
lemma layoutRequirement_letter (layout : Layout) (constrained : Node) (rest : Bytes)
    (nodes : References Node) :
    layoutRequirement constrained limit ⟨ascii layout.letter ++ rest, nodes⟩ =
      layoutParts constrained layout.letter layout.numbers.length limit ⟨rest, nodes⟩ := by
  obtain ⟨b, hletter, hcount, hname⟩ : ∃ b, ascii layout.letter = [b] ∧
      layoutNumbers? (Bytes.char b) = some layout.numbers.length ∧
        [CodePoint.ofChar (Bytes.char b)] = (layout.letter : Text) := by
    cases layout <;> simp only [Layout.letter] <;> exact ⟨_, rfl, rfl, rfl⟩
  rw [hletter, ← hname]
  show (orRefuse (layoutNumbers? (Bytes.char b)) >>= layoutParts constrained _) limit ⟨rest, nodes⟩ = _
  rw [hcount]
  rfl

lemma layoutRequirement_readsAs {layout : Layout} (constrained : Node) (hfits : layout.Fits limit) :
    ReadsAs (fun rest => layout.numbers ≠ [] → rest.NoDigit) limit table
      (layoutRequirement constrained) (emit layout.code)
      (some (.branch .dependentGenericLayoutRequirement
        (constrained :: .named .identifier layout.letter ::
          layout.numbers.map fun (n : Nat) => .numbered .number n))) := by
  refine .after (ascii layout.letter) (layoutRequirement_letter layout constrained)
    ((layoutNumbers_readsAs hlimit hfits).finish_some fun s => ?_)
  rw [branch_map_some]
  rfl

end Layouts

section Constraints

/-- Where a protocol is found, it is found as a constraint as well. -/
lemma conformanceConstraint_of_protocol {b : UInt8} (hb : b ∈ 0x53 :: 0x73 :: digits) {unread : Bytes}
    {nodes : References Node} {node : Node} {s : State}
    (h : protocolType call limit ⟨b :: unread, nodes⟩ = .found node s) :
    conformanceConstraint call limit ⟨b :: unread, nodes⟩ = .found node s := by
  obtain rfl | hb := List.mem_cons.1 hb
  · obtain ⟨protocol, s₁, hprotocol, hnode⟩ := Parser.bind_found h
    obtain ⟨recalled, s₂, hrecalled, hprotocol⟩ :=
      Parser.bind_found (show (substitution >>= recalledProtocol) limit ⟨unread, nodes⟩ = _ from hprotocol)
    show (substitution >>= fun node => _) limit ⟨unread, nodes⟩ = _
    rw [Parser.bind_of_found hrecalled]
    unfold recalledProtocol at hprotocol
    split_ifs at hprotocol with hkind hmodule
    · cases hprotocol
      rw [if_pos (.inl hkind)]
      exact hnode
    · have hother : ¬(recalled.kind = .protocolDecl ∨ recalled.kind = .classDecl) := by
        rw [hmodule]
        decide
      rw [if_neg hother, if_pos hmodule, Parser.bind_of_found hprotocol]
      exact hnode
    · cases hprotocol
  · have hletters : (0x73 :: digits).all fun b => Bytes.char b != 'C' && Bytes.char b != 'S' := rfl
    have hmark := List.all_eq_true.1 hletters b hb
    rw [Bool.and_eq_true, bne_iff_ne, bne_iff_ne] at hmark
    rw [← h]
    unfold conformanceConstraint
    rw [Parser.bind_of_found (atEnd_cons b unread limit nodes), if_neg Bool.false_ne_true,
      Parser.bind_of_found (peek_cons b unread limit nodes)]
    generalize Bytes.char b = c at hmark ⊢
    split
    · exact absurd rfl hmark.1
    · exact absurd rfl hmark.2
    · rfl

lemma conformanceConstraint_read (hlimit : Decimal.isWritable limit) (hbudget : 0 < budget)
    {module name : Bytes}
    (hproper : (Scope.member (.root module) .protocolDecl name).IsProper)
    (hfits : (Scope.member (.root module) .protocolDecl name).Fits limit table) :
    ReadsBack limit table (conformanceConstraint (parse budget))
      (Scope.writeProtocol (.root module) name) (Mangle.protocolTree module name) := by
  intro rest
  have hprotocol : ReadsBack limit table (protocolType (parse budget))
      (Scope.writeProtocol (.root module) name) (Mangle.protocolTree module name) :=
    (protocol_read hlimit hbudget hproper hfits).finish fun _ => rfl
  have hread := hprotocol rest
  obtain ⟨b, unread, hbytes, hb⟩ := (writeProtocol_begins table module name).append rest
  rw [hbytes] at hread ⊢
  exact conformanceConstraint_of_protocol hb hread

end Constraints

section Requirements

/-- What is required of a constrained type. -/
def requirementOn (call : Calls) (constrained : Node) : Parser Node := do
  if ← accept "z" then
    let type ← call .type
    branch .dependentGenericSameTypeRequirement [constrained, type]
  else if ← accept "l" then layoutRequirement constrained
  else
    let constraint ← conformanceConstraint call
    branch .dependentGenericConformanceRequirement [constrained, constraint]

lemma paramIndex_begins (depth index : Nat) :
    (Mangle.paramIndex depth index).Begins (0x78 :: 0x64 :: 0x5F :: digits) := by
  match depth, index with
  | 0, 0 => exact .cons rfl
  | 0, index + 1 =>
    obtain ⟨b, rest, hbytes, hb⟩ := Mangle.index_begins index
    exact ⟨b, rest, hbytes, List.mem_cons_of_mem _ (List.mem_cons_of_mem _ hb)⟩
  | depth + 1, index => exact .cons rfl

variable (hfew : Decimal.digitCount limit < Decimal.maxDigits)
include hfew

lemma constrainedType_read {depth index : Nat} (hfits : Mangle.ParamFits limit depth index) :
    ReadsBack limit table (constrainedType call) (emit (Mangle.paramIndex depth index))
      (.branch .type [Mangle.paramTree depth index]) := by
  have hparam : ReadsBack limit table (paramOrMember call) (emit (Mangle.paramIndex depth index))
      (Mangle.paramTree depth index) := by
    refine .before (paramIndex_begins depth index) (fun b hb unread nodes => ?_)
      (genericParamIndex_read hfew hfits)
    unfold paramOrMember
    rw [skip "w" hb rfl, skip "W" hb rfl]
  exact hparam.finish fun _ => rfl

lemma requirementOn_readsAs (depth index : Nat) {constraint : Constraint}
    (hproper : constraint.IsProper) (hfits : constraint.Fits limit table)
    (hbudget : constraint.nesting ≤ budget) :
    ReadsAs (fun rest => constraint.EndsInNumber → rest.NoDigit) limit table
      (requirementOn (parse budget) (.branch .type [Mangle.paramTree depth index]))
      (Requirement.writeConstraint constraint) (some (Requirement.tree ⟨depth, index, constraint⟩)) := by
  cases constraint with
  | sameType type =>
    have htype : ReadsBack limit table
        (parse budget .type >>= fun type => branch .dependentGenericSameTypeRequirement
          [some (.branch .type [Mangle.paramTree depth index]), some type]) type.write
        (.branch .dependentGenericSameTypeRequirement
          [.branch .type [Mangle.paramTree depth index], type.tree]) :=
      (type_readsBack hfew hproper hfits hbudget).finish fun _ => rfl
    exact (ReadsBack.after (ascii "z") (fun _ _ => rfl) htype).readsAs _
  | layout layout =>
    exact .after (ascii "l") (fun _ _ => rfl)
      (layoutRequirement_readsAs (isWritable_of_few hfew) _ hfits)
  | conforms module name =>
    have hconstraint : ReadsBack limit table
        (conformanceConstraint (parse budget) >>= fun constraint =>
          branch .dependentGenericConformanceRequirement
            [some (.branch .type [Mangle.paramTree depth index]), some constraint])
        (Scope.writeProtocol (.root module) name)
        (.branch .dependentGenericConformanceRequirement
          [.branch .type [Mangle.paramTree depth index], Mangle.protocolTree module name]) :=
      (conformanceConstraint_read (isWritable_of_few hfew) hbudget hproper hfits).finish fun _ => rfl
    refine (ReadsBack.before (writeProtocol_begins table module name) (fun b hb unread nodes => ?_)
      hconstraint).readsAs _
    unfold requirementOn
    rw [skip "z" hb rfl, skip "l" hb rfl]

lemma requirement_readsAs {required : Requirement}
    (hproper : required.constraint.IsProper)
    (hparam : Mangle.ParamFits limit required.depth required.index)
    (hfits : required.constraint.Fits limit table) (hbudget : required.constraint.nesting ≤ budget) :
    ReadsAs (fun rest => required.constraint.EndsInNumber → rest.NoDigit) limit table
      (requirement (parse budget)) required.write (some required.tree) :=
  ((constrainedType_read hfew hparam).readsAs anyRest).bind_some (fun _ _ => trivial)
    (requirementOn_readsAs hfew _ _ hproper hfits hbudget)

omit hfew in
/-- After a requirement comes something other than a digit, if the requirement ends in a number: it is
the letter at the end of the list, or the parameter of the next requirement. -/
lemma noDigit_later {required : Requirement} {later : List Requirement}
    (hchain : (required :: later).IsChain Requirement.KeptApart)
    (hends : required.constraint.EndsInNumber) (table : References Scope) (rest : Bytes) :
    (((Requirement.writeAll later ++ emit (ascii "r")) table).1 ++ rest).NoDigit := by
  cases later with
  | nil => rfl
  | cons next later =>
    obtain ⟨hapart, -⟩ := List.isChain_cons_cons.1 hchain
    have hparam := Requirement.noDigit_of_not_beginsWithNumber (hapart hends)
    exact noDigit_append (noDigit_append (noDigit_append (noDigit_append hparam _) _) _) _

/-- The requirements are read back in order. -/
lemma requirements_readsList {list : List Requirement}
    (hproper : ∀ required ∈ list, required.constraint.IsProper)
    (hchain : list.IsChain Requirement.KeptApart)
    (hfits : Requirement.allFit limit list table)
    (hbudget : Requirement.allNesting list ≤ budget) (earlier : List Node) :
    ReadsList anyRest limit table (accept "r") (fun _ => requirement (parse budget)) earlier
      (Requirement.writeAll list ++ emit (ascii "r")) (some (list.map Requirement.tree)) := by
  induction list generalizing table earlier with
  | nil => exact readsList_nil fun _ _ => rfl
  | cons required later ih =>
    rw [List.forall_mem_cons] at hproper
    obtain ⟨hparam, hfits, hfitsLater⟩ := hfits
    obtain ⟨hnesting, hnestingLater⟩ := Nat.max_le.1 hbudget
    have hrequired := requirement_readsAs hfew hproper.1 hparam hfits hnesting
    have hlater := ih hproper.2 hchain.tail hfitsLater hnestingLater (required.tree :: earlier)
    rw [Requirement.writeAll, Writer.append_assoc]
    exact readsList_found ((paramIndex_begins required.depth required.index).append _)
      (fun b hb => accept_of_misses (misses_of_mem "r" hb rfl) limit) hrequired
      (fun rest _ hends => noDigit_later hchain hends _ rest) hlater

end Requirements

section Signatures

variable (hfew : Decimal.digitCount limit < Decimal.maxDigits)
include hfew

lemma requirements_read {list : List Requirement}
    (hproper : ∀ required ∈ list, required.constraint.IsProper)
    (hchain : list.IsChain Requirement.KeptApart)
    (hfits : Requirement.allFit limit list table)
    (hbudget : Requirement.allNesting list ≤ budget) :
    ReadsBack limit table (requirements (parse budget))
      (emit (if list.isEmpty then [] else ascii "R") ++
        (Requirement.writeAll list ++ emit (ascii "r"))) (list.map Requirement.tree) := by
  have hlist := (gather_readsAs (requirements_readsList hfew hproper hchain hfits hbudget [])).readsBack
  cases list with
  | nil => exact fun rest => rfl
  | cons required later => exact .after (ascii "R") (fun _ _ => rfl) hlist

omit hfew in
/-- The requirements begin with one of the letters at which the counts end. -/
lemma atRequirements (list : List Requirement) (table : References Scope) (rest : Bytes) :
    AtRequirements (((emit (if list.isEmpty then [] else ascii "R") ++
      (Requirement.writeAll list ++ emit (ascii "r"))) table).1 ++ rest) := by
  cases list with
  | nil => exact .cons rfl
  | cons required later => exact .cons rfl

/-- A signature is read back: its counts, and then its requirements. -/
lemma signature_readsBack (pseudogeneric : Bool) {signature : Signature} (hproper : signature.IsProper)
    (hfits : signature.Fits limit table) (hbudget : signature.nesting ≤ budget) :
    ReadsBack limit table (parse budget (.signature pseudogeneric)) signature.write
      (signature.tree (signatureKind pseudogeneric)) := by
  obtain ⟨hsome, hconstraints, hchain⟩ := hproper
  obtain ⟨hcounts, hrequirements⟩ := hfits
  obtain ⟨extra, rfl⟩ := Nat.exists_eq_add_of_le' hbudget
  have hcountsRead : ReadsAs AtRequirements limit table paramCounts
      (emit (Signature.countsCode signature.counts)) (some signature.counts) :=
    paramCounts_readsAs (isWritable_of_few hfew) hsome hcounts
  have hrequirementsRead := requirements_read hfew hconstraints hchain hrequirements
    (Nat.le_add_left _ extra)
  rw [Signature.write, Writer.emit_append, Writer.append_assoc, Writer.append_assoc]
  refine (hcountsRead.bind_some (fun rest _ => atRequirements signature.requirements _ rest)
    ?_).readsBack
  refine (hrequirementsRead.finish fun s => ?_).readsAs _
  rw [branch_map_some]
  rfl

/-- A type under a signature is read back: the signature, and then the type. -/
lemma genericType_readsBack {signature : Signature} {type : TypeExpr} (hproper : signature.IsProper)
    (htype : type.IsProper) (hfits : signature.Fits limit table)
    (hfitsType : type.Fits limit (signature.write table).2)
    (hbudget : signature.typeNesting type ≤ budget) :
    ReadsBack limit table (parse budget .type) (signature.writeType type) (signature.typeTree type) := by
  obtain ⟨extra, rfl⟩ := Nat.exists_eq_add_of_le' hbudget
  have hsignature := signature_readsBack hfew false hproper hfits
    (Nat.le_trans (Nat.le_max_left _ (type.nesting + 1)) (Nat.le_add_left _ extra))
  have hunder := type_readsBack hfew htype hfitsType
    (Nat.le_trans (Nat.le_max_right signature.nesting _) (Nat.le_add_left _ extra))
  rw [Signature.writeType, Writer.append_assoc, Signature.typeNesting, ← Nat.add_assoc, parse_type]
  have hbare : ReadsBack limit table (genericType (parse _)) (signature.write ++ type.write) _ :=
    hsignature.bind (hunder.finish fun _ => rfl)
  exact (ReadsBack.after (ascii "u") (fun _ _ => rfl) hbare).finish fun _ => rfl

end Signatures

end Grammar

open Mangle (Signature Requirement Constraint TypeExpr Scope)

/-- A type under a generic signature is read as just that signature, count by count and requirement by
requirement, and just that type, whatever follows the mangling. The numbers are within the limit, and
only a budget within the nesting can cut the reading off. -/
theorem demangle_genericType (settings : Settings) (signature : Signature) (type : TypeExpr)
    (rest : Bytes)
    (hnatural : Decimal.digitCount settings.maxNatural.toInt < Decimal.maxDigits)
    (hproper : signature.IsProper) (htype : type.IsProper)
    (hfits : signature.Fits settings.maxNatural.toInt [])
    (hfitsType : type.Fits settings.maxNatural.toInt (signature.write []).2) :
    (parseBytes .type settings.maxDepth.toInt.toNat settings.maxNatural.toInt
          ((signature.writeType type []).1 ++ rest) =
        .found (signature.typeTree type) ⟨rest, (signature.writeType type []).2.map Scope.tree⟩ ∧
      demangle .type settings (.bytes ((signature.writeType type []).1 ++ rest)) =
        .tree (signature.typeTree type)) ∨
    (parseBytes .type settings.maxDepth.toInt.toNat settings.maxNatural.toInt
          ((signature.writeType type []).1 ++ rest) = .stopped .exhausted ∧
      settings.maxDepth.toInt.toNat < signature.typeNesting type) := by
  have hlarge : ∀ budget, signature.typeNesting type ≤ budget →
      parseBytes .type budget settings.maxNatural.toInt ((signature.writeType type []).1 ++ rest) =
        .found (signature.typeTree type) ⟨rest, (signature.writeType type []).2.map Scope.tree⟩ :=
    fun budget hbudget =>
      Grammar.genericType_readsBack hnatural hproper htype hfits hfitsType hbudget rest
  obtain hfound | hexhausted := parseBytes_of_large hlarge
  · exact .inl ⟨hfound, demangle_eq_tree_iff.2 ⟨_, hfound⟩⟩
  · exact .inr hexhausted

/-- Two parameters and then none, with each kind of requirement; the module of the protocols is spelled
out once. -/
def constrainedSignature : Signature where
  counts := [2, 0]
  requirements :=
    [⟨0, 0, .conforms (Mangle.ascii "m") (Mangle.ascii "P")⟩,
      ⟨0, 1, .conforms (Mangle.ascii "m") (Mangle.ascii "Q")⟩,
      ⟨0, 1, .conforms (Mangle.ascii "m") (Mangle.ascii "P")⟩,
      ⟨0, 2, .sameType (.standard .int)⟩,
      ⟨1, 0, .layout (.trivialOfSizeAligned 64 8)⟩,
      ⟨0, 0, .layout .unknown⟩]

theorem demangle_constrainedSignature :
    demangle .type {} (.bytes (Mangle.ascii "u0_zRx1m1P_S_1Q_S0_0_zSid__lE64_8xlUrFxSi")) =
      .tree (constrainedSignature.typeTree (.function .thick false (.param 0 0) (.standard .int))) := by
  have hread := demangle_genericType {} constrainedSignature
    (.function .thick false (.param 0 0) (.standard .int)) [] (by decide) (by decide) (by decide)
    (by decide) (by decide)
  refine (hread.resolve_right ?_).2
  rintro ⟨-, hnesting⟩
  exact absurd hnesting (by decide)

end SwiftMangling
