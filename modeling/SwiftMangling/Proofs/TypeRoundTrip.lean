import SwiftMangling.Demangle
import SwiftMangling.Proofs.MoreBudget
import SwiftMangling.Proofs.TypeParts

/-!
# Types are read back

The mangling of a type is read back as the tree of the type, with nothing left and with the same
references recorded, under a limit that its numbers are within and a budget that covers its nesting.
-/

namespace SwiftMangling

namespace Grammar

open Mangle (Writer Scope TypeExpr ascii)
open Mangle.Writer (emit)

variable {limit : Int}

mutual

/-- A type is read back without its wrapping node. The induction is on the type, and the table that a
part is written with is the one that the parts before it leave. -/
lemma bareType_read (hfew : Decimal.digitCount limit < Decimal.maxDigits) (type : TypeExpr)
    {table : References Scope} {budget : Nat} (hproper : type.IsProper)
    (hfits : type.Fits limit table) (hbudget : type.nesting ≤ budget) :
    ReadsBack limit table (parse budget .bareType) type.write type.bareTree := by
  cases type with
  | builtin type =>
    obtain ⟨budget, rfl⟩ := Nat.exists_eq_add_of_le' hbudget
    rw [TypeExpr.write, Writer.emit_append]
    exact .after (ascii "B") (fun _ _ => rfl) (builtinType_read (isWritable_of_few hfew) hfits)
  | standard type =>
    obtain ⟨budget, rfl⟩ := Nat.exists_eq_add_of_le' hbudget
    rw [TypeExpr.write, Writer.emit_append]
    exact .after (ascii "S") (fun _ _ => rfl) (standardType_read type)
  | param depth index =>
    obtain ⟨budget, rfl⟩ := Nat.exists_eq_add_of_le' hbudget
    exact param_read hfew (parse budget) hfits
  | declared parent kind name =>
    obtain ⟨extra, rfl⟩ := Nat.exists_eq_add_of_le' hbudget
    exact declared_read (isWritable_of_few hfew) hproper.2 hproper.1 hfits (Nat.le_add_left _ extra)
  | protocols names =>
    obtain ⟨extra, rfl⟩ := Nat.exists_eq_add_of_le' hbudget
    exact protocolList_read hfew (Nat.succ_pos extra) hproper hfits
  | function kind throwing arguments result =>
    obtain ⟨extra, rfl⟩ := Nat.exists_eq_add_of_le' hbudget
    have harguments := bareType_read hfew arguments hproper.1 hfits.1
      (Nat.le_trans (Nat.le_max_left _ result.nesting) (Nat.le_add_left _ extra))
    have hresult := bareType_read hfew result hproper.2 hfits.2
      (Nat.le_trans (Nat.le_max_right arguments.nesting _) (Nat.le_add_left _ extra))
    exact function_read kind throwing hproper.1 (type_read harguments) (type_read hresult)
  | tuple variadic elements =>
    obtain ⟨extra, rfl⟩ := Nat.exists_eq_add_of_le' hbudget
    exact tuple_read variadic (elements_read hfew elements hproper hfits (Nat.le_add_left _ extra))
  | modified modifier type =>
    obtain ⟨extra, rfl⟩ := Nat.exists_eq_add_of_le' hbudget
    exact modified_read modifier
      (type_read (bareType_read hfew type hproper hfits (Nat.le_add_left _ extra)))
  | inOut type =>
    obtain ⟨extra, rfl⟩ := Nat.exists_eq_add_of_le' hbudget
    exact inOut_read (bareType_read hfew type hproper hfits (Nat.le_add_left _ extra))
  | bound type arguments =>
    obtain ⟨extra, rfl⟩ := Nat.exists_eq_add_of_le' hbudget
    exact bound_read hproper.1 (arguments_read hfew arguments hproper.2 hfits (Nat.le_add_left _ extra))
termination_by structural type

lemma elements_read (hfew : Decimal.digitCount limit < Decimal.maxDigits)
    (elements : List (Option Bytes × TypeExpr)) {table : References Scope} {budget : Nat}
    (hproper : TypeExpr.elementsProper elements) (hfits : TypeExpr.elementsFit limit elements table)
    (hbudget : TypeExpr.elementsNesting elements ≤ budget) :
    ReadsItems limit table (tupleElement (parse budget)) (TypeExpr.writeElements elements)
      (TypeExpr.elementTrees false elements) := by
  cases elements with
  | nil => exact readsItems_nil
  | cons element rest =>
    obtain ⟨label, type⟩ := element
    obtain ⟨hlabel, htype, hrest⟩ := hproper
    obtain ⟨hlength, hfits, hfitsRest⟩ := hfits
    obtain ⟨hnesting, hnestingRest⟩ := Nat.max_le.1 hbudget
    obtain ⟨budget, rfl⟩ := Nat.exists_eq_add_of_le' (Nat.zero_lt_of_lt hnesting)
    have hread := type_read (bareType_read hfew type htype hfits (Nat.le_of_succ_le_succ hnesting))
    have helement := tupleElement_read hfew htype hlabel hlength hread
    rw [TypeExpr.writeElements]
    exact readsItems_cons (element_begins htype) rfl (fun b rest => helement _)
      (elements_read hfew rest hrest hfitsRest hnestingRest)
termination_by structural elements

lemma arguments_read (hfew : Decimal.digitCount limit < Decimal.maxDigits)
    (arguments : List TypeExpr) {table : References Scope} {budget : Nat}
    (hproper : TypeExpr.allProper arguments) (hfits : TypeExpr.allFit limit arguments table)
    (hbudget : TypeExpr.allNesting arguments ≤ budget) :
    ReadsItems limit table
      (do let argument ← parse budget .type; if ← atEnd then refuse else pure argument)
      (TypeExpr.writeAll arguments) (TypeExpr.trees arguments) := by
  cases arguments with
  | nil => exact readsItems_nil
  | cons argument rest =>
    obtain ⟨hargument, hrest⟩ := hproper
    obtain ⟨hfits, hfitsRest⟩ := hfits
    obtain ⟨hnesting, hnestingRest⟩ := Nat.max_le.1 hbudget
    obtain ⟨budget, rfl⟩ := Nat.exists_eq_add_of_le' (Nat.zero_lt_of_lt hnesting)
    have hread := type_read
      (bareType_read hfew argument hargument hfits (Nat.le_of_succ_le_succ hnesting))
    rw [TypeExpr.writeAll]
    refine readsItems_cons (write_begins table hargument) rfl (fun b unread => ?_)
      (arguments_read hfew rest hrest hfitsRest hnestingRest)
    rw [Parser.bind_of_found (hread (b :: unread))]
    rfl
termination_by structural arguments

end

/-- A type is read back in its wrapping node, in front of anything and from any table. -/
theorem type_readsBack (hfew : Decimal.digitCount limit < Decimal.maxDigits) {type : TypeExpr}
    (hproper : type.IsProper) {table : References Scope} (hfits : type.Fits limit table) {budget : Nat}
    (hbudget : type.nesting < budget) :
    ReadsBack limit table (parse budget .type) type.write type.tree := by
  obtain ⟨budget, rfl⟩ := Nat.exists_eq_add_of_le' (Nat.zero_lt_of_lt hbudget)
  exact type_read (bareType_read hfew type hproper hfits (Nat.le_of_lt_succ hbudget))

end Grammar

open Mangle (TypeExpr Scope)

/-- What a name comes to within a large budget it comes to within any that is not exhausted. -/
lemma parseBytes_max (form : Form) (budget large : Nat) (limit : Int) (bytes : Bytes) :
    parseBytes form budget limit bytes = parseBytes form (max budget large) limit bytes ∨
      parseBytes form budget limit bytes = .stopped .exhausted ∧ budget < large := by
  by_cases hle : large ≤ budget
  · exact .inl (by rw [Nat.max_eq_left hle])
  · obtain hexhausted | hsame := parseBytes_of_le form (Nat.le_max_left budget large) limit bytes
    · exact .inr ⟨hexhausted, Nat.lt_of_not_le hle⟩
    · exact .inl hsame

/-- A parser that reads back what is written does so within any budget that is not exhausted. -/
lemma parseBytes_of_large {form : Form} {budget large : Nat} {limit : Int} {bytes : Bytes}
    {root : Node} {s : Grammar.State}
    (hlarge : ∀ budget, large ≤ budget → parseBytes form budget limit bytes = .found root s) :
    parseBytes form budget limit bytes = .found root s ∨
      parseBytes form budget limit bytes = .stopped .exhausted ∧ budget < large :=
  (parseBytes_max form budget large limit bytes).imp_left fun hsame =>
    hsame.trans (hlarge _ (Nat.le_max_right budget large))

/-- The mangling of a type is read as the tree of the type, whatever follows it and up to there, with
the nodes recorded that the references of the mangling count. Only a budget within the nesting of the
type can cut this off. -/
theorem demangle_typeMangling (settings : Settings) (type : TypeExpr) (rest : Bytes)
    (hnatural : Decimal.digitCount settings.maxNatural.toInt < Decimal.maxDigits)
    (hproper : type.IsProper) (hfits : type.Fits settings.maxNatural.toInt []) :
    (parseBytes .type settings.maxDepth.toInt.toNat settings.maxNatural.toInt (type.mangle ++ rest) =
        .found type.tree ⟨rest, (type.write []).2.map Scope.tree⟩ ∧
      demangle .type settings (.bytes (type.mangle ++ rest)) = .tree type.tree) ∨
    (parseBytes .type settings.maxDepth.toInt.toNat settings.maxNatural.toInt (type.mangle ++ rest) =
        .stopped .exhausted ∧
      settings.maxDepth.toInt.toNat ≤ type.nesting) := by
  have hlarge : ∀ budget, type.nesting + 1 ≤ budget →
      parseBytes .type budget settings.maxNatural.toInt (type.mangle ++ rest) =
        .found type.tree ⟨rest, (type.write []).2.map Scope.tree⟩ := fun budget hbudget =>
    Grammar.type_readsBack hnatural hproper hfits hbudget rest
  obtain hfound | ⟨hexhausted, hlt⟩ := parseBytes_of_large hlarge
  · refine .inl ⟨hfound, ?_⟩
    unfold demangle MangledName.toBytes
    rw [hfound]
    rfl
  · exact .inr ⟨hexhausted, Nat.le_of_lt_succ hlt⟩

/-- A throwing function of a labelled class and a structure in that class, to arrays of the class. -/
def sharedClass : TypeExpr :=
  .function .thick true
    (.tuple false
      [(some (Mangle.ascii "a"), .declared (.root (Mangle.ascii "m")) .classDecl (Mangle.ascii "C")),
        (none, .declared (.member (.root (Mangle.ascii "m")) .classDecl (Mangle.ascii "C"))
          .structureDecl (Mangle.ascii "D"))])
    (.bound .array [.declared (.root (Mangle.ascii "m")) .classDecl (Mangle.ascii "C")])

/-- The class is spelled out once and is a reference from then on. -/
theorem demangle_sharedClass :
    parseBytes .type 128 18446744073709551615 (Mangle.ascii "FzT1aC1m1CVS0_1D_GSaS0__") =
        .found sharedClass.tree ⟨[], (sharedClass.write []).2.map Scope.tree⟩ ∧
      demangle .type {} (.bytes (Mangle.ascii "FzT1aC1m1CVS0_1D_GSaS0__")) = .tree sharedClass.tree := by
  apply (demangle_typeMangling {} sharedClass [] (by decide) (by decide) (by decide)).resolve_right
  rintro ⟨-, hnesting⟩
  exact absurd hnesting (by decide)

end SwiftMangling
