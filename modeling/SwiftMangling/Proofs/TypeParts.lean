import SwiftMangling.Mangle.TypeExpr
import SwiftMangling.Proofs.ScopeRoundTrip

/-!
# Parts of types are read back

Which types have a mangling that can be read, and how each kind of type is read back if the types in
it are. The first letter of a type tells it apart from the labels and marks that may stand in its place.
-/

namespace SwiftMangling

namespace Mangle

/-- The numbers of a builtin type are within the limit. -/
def BuiltinType.Fits (limit : Int) : BuiltinType → Prop
  | float size | int size => size ≤ limit
  | intVector elements size | floatVector elements size => elements ≤ limit ∧ size ≤ limit
  | pointerVector elements => elements ≤ limit
  | _ => True

instance (limit : Int) : DecidablePred (BuiltinType.Fits limit)
  | .float size | .int size => inferInstanceAs (Decidable ((size : Int) ≤ limit))
  | .intVector elements size | .floatVector elements size =>
    inferInstanceAs (Decidable ((elements : Int) ≤ limit ∧ (size : Int) ≤ limit))
  | .pointerVector elements => inferInstanceAs (Decidable ((elements : Int) ≤ limit))
  | .bridgeObject | .unsafeValueBuffer | .unknownObject | .nativeObject | .rawPointer | .silToken
  | .word => isTrue trivial

/-- The numbers of a generic parameter are within the limit, as they are written. -/
def ParamFits (limit : Int) : Nat → Nat → Prop
  | 0, 0 => True
  | 0, index + 1 => Grammar.IndexWithin limit index
  | depth + 1, index => Grammar.IndexWithin limit depth ∧ Grammar.IndexWithin limit index

instance (limit : Int) : (depth index : Nat) → Decidable (ParamFits limit depth index)
  | 0, 0 => isTrue trivial
  | 0, index + 1 => inferInstanceAs (Decidable (Grammar.IndexWithin limit index))
  | depth + 1, index =>
    inferInstanceAs (Decidable (Grammar.IndexWithin limit depth ∧ Grammar.IndexWithin limit index))

def ProtocolsFit (limit : Int) (table : References Scope) : List (Bytes × Bytes) → Prop
  | [] => True
  | (module, name) :: rest =>
    (Scope.member (.root module) .protocolDecl name).Fits limit table ∧
      ProtocolsFit limit (Scope.writeProtocol (.root module) name table).2 rest

instance decideProtocolsFit (limit : Int) (table : References Scope) :
    DecidablePred (ProtocolsFit limit table)
  | [] => isTrue trivial
  | (module, name) :: rest =>
    have := decideProtocolsFit limit (Scope.writeProtocol (.root module) name table).2 rest
    inferInstanceAs (Decidable ((Scope.member (.root module) .protocolDecl name).Fits limit table ∧
      ProtocolsFit limit (Scope.writeProtocol (.root module) name table).2 rest))

namespace TypeExpr

mutual

/-- Names begin with something other than a digit, only protocol compositions have protocols, and a
bound generic type has arguments. -/
def IsProper : TypeExpr → Prop
  | builtin _ => True
  | standard _ => True
  | param _ _ => True
  | declared parent kind name => (Scope.member parent kind name).IsProper ∧ kind ≠ .protocolDecl
  | protocols names => ∀ path ∈ names, path.1.NoDigit ∧ path.2.NoDigit
  | function _ _ arguments result => arguments.IsProper ∧ result.IsProper
  | tuple _ elements => elementsProper elements
  | modified _ type => type.IsProper
  | inOut type => type.IsProper
  | bound _ arguments => arguments ≠ [] ∧ allProper arguments
termination_by structural type => type

def elementsProper : List (Option Bytes × TypeExpr) → Prop
  | [] => True
  | (label, type) :: rest => (∀ name ∈ label, name.NoDigit) ∧ type.IsProper ∧ elementsProper rest
termination_by structural elements => elements

def allProper : List TypeExpr → Prop
  | [] => True
  | type :: rest => type.IsProper ∧ allProper rest
termination_by structural types => types

end

mutual

/-- The numbers are within the limit that are written for a type in view of a table. -/
def Fits (limit : Int) : TypeExpr → References Scope → Prop
  | builtin type, _ => type.Fits limit
  | standard _, _ => True
  | param depth index, _ => ParamFits limit depth index
  | declared parent kind name, table => (Scope.member parent kind name).Fits limit table
  | protocols names, table => ProtocolsFit limit table names
  | function _ _ arguments result, table =>
    arguments.Fits limit table ∧ result.Fits limit (arguments.write table).2
  | tuple _ elements, table => elementsFit limit elements table
  | modified _ type, table => type.Fits limit table
  | inOut type, table => type.Fits limit table
  | bound _ arguments, table => allFit limit arguments table
termination_by structural type => type

def elementsFit (limit : Int) : List (Option Bytes × TypeExpr) → References Scope → Prop
  | [], _ => True
  | (label, type) :: rest, table =>
    (∀ name ∈ label, name.length ≤ limit) ∧ type.Fits limit table ∧
      elementsFit limit rest (type.write table).2
termination_by structural elements => elements

def allFit (limit : Int) : List TypeExpr → References Scope → Prop
  | [], _ => True
  | type :: rest, table => type.Fits limit table ∧ allFit limit rest (type.write table).2
termination_by structural types => types

end

mutual

def decideProper : (type : TypeExpr) → Decidable type.IsProper
  | builtin _ | standard _ | param _ _ => isTrue trivial
  | declared parent kind name =>
    inferInstanceAs (Decidable ((Scope.member parent kind name).IsProper ∧ kind ≠ .protocolDecl))
  | protocols names => inferInstanceAs (Decidable (∀ path ∈ names, path.1.NoDigit ∧ path.2.NoDigit))
  | function _ _ arguments result =>
    have := arguments.decideProper
    have := result.decideProper
    inferInstanceAs (Decidable (arguments.IsProper ∧ result.IsProper))
  | tuple _ elements => decideElementsProper elements
  | modified _ type => type.decideProper
  | inOut type => type.decideProper
  | bound _ arguments =>
    have := decideAllProper arguments
    inferInstanceAs (Decidable (arguments ≠ [] ∧ allProper arguments))
termination_by structural type => type

def decideElementsProper : (elements : List (Option Bytes × TypeExpr)) →
    Decidable (elementsProper elements)
  | [] => isTrue trivial
  | (label, type) :: rest =>
    have := type.decideProper
    have := decideElementsProper rest
    inferInstanceAs (Decidable ((∀ name ∈ label, name.NoDigit) ∧ type.IsProper ∧ elementsProper rest))
termination_by structural elements => elements

def decideAllProper : (types : List TypeExpr) → Decidable (allProper types)
  | [] => isTrue trivial
  | type :: rest =>
    have := type.decideProper
    have := decideAllProper rest
    inferInstanceAs (Decidable (type.IsProper ∧ allProper rest))
termination_by structural types => types

end

instance : DecidablePred IsProper :=
  decideProper

mutual

def decideFits (limit : Int) : (type : TypeExpr) → (table : References Scope) →
    Decidable (type.Fits limit table)
  | builtin type, _ => inferInstanceAs (Decidable (type.Fits limit))
  | standard _, _ => isTrue trivial
  | param depth index, _ => inferInstanceAs (Decidable (ParamFits limit depth index))
  | declared parent kind name, table =>
    inferInstanceAs (Decidable ((Scope.member parent kind name).Fits limit table))
  | protocols names, table => inferInstanceAs (Decidable (ProtocolsFit limit table names))
  | function _ _ arguments result, table =>
    have := arguments.decideFits limit table
    have := result.decideFits limit (arguments.write table).2
    inferInstanceAs
      (Decidable (arguments.Fits limit table ∧ result.Fits limit (arguments.write table).2))
  | tuple _ elements, table => decideElementsFit limit elements table
  | modified _ type, table => type.decideFits limit table
  | inOut type, table => type.decideFits limit table
  | bound _ arguments, table => decideAllFit limit arguments table
termination_by structural type => type

def decideElementsFit (limit : Int) : (elements : List (Option Bytes × TypeExpr)) →
    (table : References Scope) → Decidable (elementsFit limit elements table)
  | [], _ => isTrue trivial
  | (label, type) :: rest, table =>
    have := type.decideFits limit table
    have := decideElementsFit limit rest (type.write table).2
    inferInstanceAs (Decidable ((∀ name ∈ label, (name.length : Int) ≤ limit) ∧
      type.Fits limit table ∧ elementsFit limit rest (type.write table).2))
termination_by structural elements => elements

def decideAllFit (limit : Int) : (types : List TypeExpr) → (table : References Scope) →
    Decidable (allFit limit types table)
  | [], _ => isTrue trivial
  | type :: rest, table =>
    have := type.decideFits limit table
    have := decideAllFit limit rest (type.write table).2
    inferInstanceAs (Decidable (type.Fits limit table ∧ allFit limit rest (type.write table).2))
termination_by structural types => types

end

instance (limit : Int) (type : TypeExpr) (table : References Scope) :
    Decidable (type.Fits limit table) :=
  decideFits limit type table

mutual

/-- The budget that reading a type without its wrapping node takes. -/
def nesting : TypeExpr → Nat
  | builtin _ => 1
  | standard _ => 1
  | param _ _ => 1
  | declared parent _ _ => parent.nesting + 1
  | protocols _ => 2
  | function _ _ arguments result => max arguments.nesting result.nesting + 2
  | tuple _ elements => elementsNesting elements + 1
  | modified _ type => type.nesting + 2
  | inOut type => type.nesting + 1
  | bound _ arguments => allNesting arguments + 2
termination_by structural type => type

def elementsNesting : List (Option Bytes × TypeExpr) → Nat
  | [] => 0
  | (_, type) :: rest => max (type.nesting + 1) (elementsNesting rest)
termination_by structural elements => elements

def allNesting : List TypeExpr → Nat
  | [] => 0
  | type :: rest => max (type.nesting + 1) (allNesting rest)
termination_by structural types => types

end

end TypeExpr

end Mangle

namespace Grammar

open Mangle (Writer Scope TypeExpr BuiltinType StandardType DeclKind FunctionKind Modifier digits ascii
  nameNode)
open Mangle.Writer (emit)

variable {limit : Int} {table : References Scope} {budget : Nat}

/-- The letters that a type begins with. -/
def typeLetters : Bytes :=
  ascii "BSxqCVOPFfbcKXTtMDRG"

/-- A declared type is a reference or begins with its letter. -/
lemma member_begins {parent : Scope} {kind : DeclKind} {name : Bytes} (hkind : kind ≠ .protocolDecl) :
    ((Scope.member parent kind name).write table).1.Begins typeLetters := by
  cases h : table.idxOf? (.member parent kind name) with
  | some position =>
    rw [Scope.write, Mangle.refer_of_some h]
    exact .cons rfl
  | none =>
    rw [Scope.write, Mangle.refer_of_none h]
    cases kind with
    | classDecl => exact .cons rfl
    | structureDecl => exact .cons rfl
    | enumDecl => exact .cons rfl
    | protocolDecl => exact absurd rfl hkind

lemma write_begins (table : References Scope) {type : TypeExpr} (hproper : type.IsProper) :
    (type.write table).1.Begins typeLetters := by
  cases type with
  | builtin type => exact .cons rfl
  | standard type => exact .cons rfl
  | param depth index =>
    rw [TypeExpr.write, Mangle.paramCode]
    by_cases hfirst : depth = 0 ∧ index = 0
    · rw [if_pos hfirst]
      exact .cons rfl
    · rw [if_neg hfirst]
      exact .cons rfl
  | declared parent kind name =>
    rw [TypeExpr.write]
    rw [TypeExpr.IsProper] at hproper
    exact member_begins hproper.2
  | protocols names => exact .cons rfl
  | function kind throwing arguments result =>
    cases kind with
    | thick => exact .cons rfl
    | uncurried => exact .cons rfl
    | block => exact .cons rfl
    | cPointer => exact .cons rfl
    | autoClosure => exact .cons rfl
    | thin => exact .cons rfl
  | tuple variadic elements =>
    cases variadic with
    | false => exact .cons rfl
    | true => exact .cons rfl
  | modified modifier type =>
    cases modifier with
    | metatype => exact .cons rfl
    | represented representation => exact .cons rfl
    | existentialMetatype => exact .cons rfl
    | dynamicSelf => exact .cons rfl
    | unowned => exact .cons rfl
    | unmanaged => exact .cons rfl
    | weak => exact .cons rfl
  | inOut type => exact .cons rfl
  | bound type arguments => exact .cons rfl

lemma element_begins {label : Option Bytes} {type : TypeExpr} (hproper : type.IsProper) :
    ((emit (Mangle.labelCode label) ++ type.write) table).1.Begins (digits ++ typeLetters) := by
  cases label with
  | none =>
    obtain ⟨b, rest, hbytes, hb⟩ := write_begins table hproper
    exact ⟨b, rest, hbytes, List.mem_append_right _ hb⟩
  | some name =>
    obtain ⟨b, rest, hbytes, hb⟩ := (Mangle.identifier_begins name).append (type.write table).1
    exact ⟨b, rest, hbytes, List.mem_append_left _ hb⟩

/-- A protocol is a reference, or begins with its module. -/
lemma writeProtocol_begins (table : References Scope) (module name : Bytes) :
    (Scope.writeProtocol (.root module) name table).1.Begins (0x53 :: 0x73 :: digits) := by
  rw [Scope.writeProtocol]
  cases h : table.idxOf? (.member (.root module) .protocolDecl name) with
  | some position =>
    rw [Mangle.refer_of_some h]
    exact .cons rfl
  | none =>
    rw [Mangle.refer_of_none h]
    have hroot : ((Scope.root module).write table).1.Begins (0x53 :: 0x73 :: digits) := by
      rw [Scope.write]
      split
      · exact .cons rfl
      · cases hmodule : table.idxOf? (.root module) with
        | some position =>
          rw [Mangle.refer_of_some hmodule]
          exact .cons rfl
        | none =>
          rw [Mangle.refer_of_none hmodule]
          obtain ⟨b, rest, hbytes, hb⟩ := (Mangle.identifier_begins module).append []
          exact ⟨b, rest, hbytes, List.mem_cons_of_mem _ (List.mem_cons_of_mem _ hb)⟩
    exact (hroot.append _).append _

lemma isWritable_of_few (hfew : Decimal.digitCount limit < Decimal.maxDigits) :
    Decimal.isWritable limit :=
  decide_eq_true (Nat.le_of_lt hfew)

/-- The depth of a generic parameter is at most two beyond the limit, so that it can be written. -/
lemma isWritable_depth (hfew : Decimal.digitCount limit < Decimal.maxDigits) {depth : Nat}
    (hdepth : IndexWithin limit depth) : Decimal.isWritable ((depth + 1 : Nat) : Int) := by
  have hbound : depth + 1 ≤ limit.natAbs + 2 := by
    cases depth with
    | zero => omega
    | succ depth =>
      have hle : (depth : Int) ≤ limit := hdepth
      omega
  exact decide_eq_true (Decimal.digitCount_le_succ (Nat.le_pred_of_lt hfew) hbound)

/-- The name of a builtin vector, in the parts in which it is read. -/
lemma vector_name (elements : Nat) (element : Text) :
    builtin ("Vec" ++ natText elements ++ "x" ++ element) =
      .named .builtinTypeName ("Builtin.Vec" ++ (Decimal.text elements ++ ("x" ++ element))) := by
  simp only [builtin, natText, List.append_assoc]
  rfl

section Leaves

variable (hlimit : Decimal.isWritable limit)
include hlimit

lemma builtinVector_read {elements : Nat} (helements : elements ≤ limit) (back : Bytes)
    (nodes : References Node) :
    builtinType limit ⟨ascii "v" ++ (Mangle.natural elements ++ (ascii "B" ++ back)), nodes⟩ =
      builtinVector elements limit ⟨back, nodes⟩ := by
  have hread := natural_read hlimit nodes helements (show Bytes.NoDigit (ascii "B" ++ back) from rfl)
  show (natural >>= fun elements => demand "B" >>= fun _ => builtinVector elements) limit
    ⟨Mangle.natural elements ++ (ascii "B" ++ back), nodes⟩ = _
  rw [Parser.bind_of_found hread]
  rfl

/-- A number and an underscore end a builtin type. -/
lemma sized_read {size : Nat} (hsize : size ≤ limit) (name : Nat → Node) (rest : Bytes)
    (nodes : References Node) :
    (do let size ← builtinSize; pure (name size)) limit
        ⟨Mangle.natural size ++ (ascii "_" ++ rest), nodes⟩ =
      .found (name size) ⟨rest, nodes⟩ :=
  (Parser.bind_of_found (builtinSize_read hlimit nodes hsize rest)).trans rfl

/-- A builtin vector whose elements have a size. -/
lemma sizedVector_read {elements size : Nat} (helements : elements ≤ limit) (hsize : size ≤ limit)
    (letter : Bytes) (element : Text)
    (hletter : ∀ back nodes, builtinVector elements limit ⟨letter ++ back, nodes⟩ =
      (do
        let size ← builtinSize
        pure (builtin ("Vec" ++ natText elements ++ "x" ++ element ++ natText size))) limit ⟨back, nodes⟩)
    (rest : Bytes) (nodes : References Node) :
    builtinType limit ⟨ascii "v" ++ (Mangle.natural elements ++ (ascii "B" ++ (letter ++
        (Mangle.natural size ++ (ascii "_" ++ rest))))), nodes⟩ =
      .found (.named .builtinTypeName ("Builtin.Vec" ++ (Decimal.text elements ++
        ("x" ++ (element ++ Decimal.text size))))) ⟨rest, nodes⟩ := by
  rw [builtinVector_read hlimit helements, hletter, sized_read hlimit hsize, List.append_assoc _ element,
    vector_name]
  rfl

lemma builtinType_read {type : BuiltinType} (hfits : type.Fits limit) :
    ReadsBack limit table builtinType (emit type.code) type.tree := by
  intro rest
  simp only [emit, BuiltinType.tree]
  cases type with
  | float size =>
    simp only [BuiltinType.code, List.append_assoc]
    exact sized_read hlimit hfits (fun size => builtin ("FPIEEE" ++ natText size)) rest _
  | int size =>
    simp only [BuiltinType.code, List.append_assoc]
    exact sized_read hlimit hfits (fun size => builtin ("Int" ++ natText size)) rest _
  | intVector elements size =>
    simp only [BuiltinType.code, BuiltinType.name, List.append_assoc]
    exact sizedVector_read hlimit hfits.1 hfits.2 (ascii "i") "Int" (fun _ _ => rfl) rest _
  | floatVector elements size =>
    simp only [BuiltinType.code, BuiltinType.name, List.append_assoc]
    exact sizedVector_read hlimit hfits.1 hfits.2 (ascii "f") "Float" (fun _ _ => rfl) rest _
  | pointerVector elements =>
    have hvector := builtinVector_read hlimit hfits (ascii "p" ++ rest) (table.map Scope.tree)
    simp only [BuiltinType.code, BuiltinType.name, List.append_assoc]
    apply hvector.trans
    show Outcome.found (builtin ("Vec" ++ natText elements ++ "x" ++ "RawPointer")) _ = _
    rw [vector_name]
    rfl
  | _ => rfl

lemma declared_read {parent : Scope} {kind : DeclKind} {name : Bytes}
    (hkind : kind ≠ .protocolDecl)
    (hproper : (Scope.member parent kind name).IsProper)
    (hfits : (Scope.member parent kind name).Fits limit table) (hbudget : parent.nesting ≤ budget) :
    ReadsBack limit table (bareType (parse budget)) (TypeExpr.declared parent kind name).write
      (TypeExpr.declared parent kind name).bareTree := by
  rw [TypeExpr.write, TypeExpr.bareTree]
  refine member_read hlimit hproper hfits (fun _ _ => rfl) (fun rest nodes => ?_)
    (context_read hlimit hproper.1 hbudget)
  cases kind with
  | protocolDecl => exact absurd rfl hkind
  | _ => rfl

end Leaves

lemma standardType_read (type : StandardType) :
    ReadsBack limit table substitution (emit type.letter) type.tree := by
  intro rest
  cases type <;> rfl

lemma parse_type (budget : Nat) :
    parse (budget + 2) .type = bareType (parse budget) >>= fun bare => pure (.branch .type [bare]) :=
  rfl

lemma type_read {type : TypeExpr}
    (h : ReadsBack limit table (parse budget .bareType) type.write type.bareTree) :
    ReadsBack limit table (parse (budget + 1) .type) type.write type.tree :=
  h.finish fun _ => rfl

/-- The two types of a function type, after what is known of whether it throws. -/
def functionParts (call : Calls) (kind : Kind) (mark : List Node) : Parser Node := do
  let arguments ← call .type
  let result ← call .type
  let arguments ← branch .argumentTuple [arguments]
  let result ← branch .returnType [result]
  branch kind ((mark ++ [arguments, result]).map some)

lemma functionParts_read {call : Calls} (kind : Kind) (mark : List Node) {arguments result : TypeExpr}
    (harguments : ReadsBack limit table (call .type) arguments.write arguments.tree)
    (hresult : ReadsBack limit (arguments.write table).2 (call .type) result.write result.tree) :
    ReadsBack limit table (functionParts call kind mark) (arguments.write ++ result.write)
      (.branch kind (mark ++
        [.branch .argumentTuple [arguments.tree], .branch .returnType [result.tree]])) := by
  refine harguments.bind (hresult.finish fun s => ?_)
  simp only [branch_single, pure_bind, branch_map_some]
  rfl

lemma function_read {call : Calls} (kind : FunctionKind) (throwing : Bool) {arguments result : TypeExpr}
    (hproper : arguments.IsProper)
    (harguments : ReadsBack limit table (call .type) arguments.write arguments.tree)
    (hresult : ReadsBack limit (arguments.write table).2 (call .type) result.write result.tree) :
    ReadsBack limit table (bareType call) (TypeExpr.function kind throwing arguments result).write
      (TypeExpr.function kind throwing arguments result).bareTree := by
  have hdispatch : ∀ rest nodes, bareType call limit ⟨kind.letter ++ rest, nodes⟩ =
      functionType call kind.kind limit ⟨rest, nodes⟩ := by
    intro rest nodes
    cases kind <;> rfl
  rw [TypeExpr.write, TypeExpr.bareTree, Writer.emit_append, Writer.append_assoc, Writer.append_assoc]
  refine .after kind.letter hdispatch ?_
  cases throwing with
  | true =>
    refine .after (ascii "z") (fun _ _ => ?_)
      (functionParts_read kind.kind [.branch .throwsMark []] harguments hresult)
    rfl
  | false =>
    refine .of_eq rfl (.before ((write_begins table hproper).append _) (fun b hb unread nodes => ?_)
      (functionParts_read kind.kind [] harguments hresult))
    have hthrows := accept_of_misses (misses_of_mem "z" hb rfl) limit unread nodes
    unfold functionType
    rw [Parser.bind_of_found hthrows]
    rfl

lemma modified_read {call : Calls} (modifier : Modifier) {type : TypeExpr}
    (htype : ReadsBack limit table (call .type) type.write type.tree) :
    ReadsBack limit table (bareType call) (TypeExpr.modified modifier type).write
      (TypeExpr.modified modifier type).bareTree := by
  have hdispatch : ∀ rest nodes, bareType call limit ⟨modifier.code ++ rest, nodes⟩ =
      (call .type >>= fun type => pure (modifier.apply type)) limit ⟨rest, nodes⟩ := by
    intro rest nodes
    cases modifier with
    | represented representation => cases representation <;> rfl
    | _ => rfl
  rw [TypeExpr.write, TypeExpr.bareTree]
  exact .after modifier.code hdispatch (htype.finish fun _ => rfl)

lemma inOut_read {call : Calls} {type : TypeExpr}
    (htype : ReadsBack limit table (call .bareType) type.write type.bareTree) :
    ReadsBack limit table (bareType call) (TypeExpr.inOut type).write
      (TypeExpr.inOut type).bareTree := by
  have hwrapped : ReadsBack limit table (wrapped call .inOut .bareType) type.write
      (.branch .inOut [type.bareTree]) := htype.finish fun _ => rfl
  rw [TypeExpr.write, TypeExpr.bareTree]
  exact .after (ascii "R") (fun _ _ => rfl) hwrapped

/-- An element that does not begin with an identifier has no label. -/
lemma tupleElement_unlabelled {call : Calls} {b : UInt8} (hb : startsIdentifier (Bytes.char b) = false)
    (unread : Bytes) (nodes : References Node) :
    tupleElement call limit ⟨b :: unread, nodes⟩ =
      (call .type >>= fun type => branch .tupleElement [some type]) limit ⟨b :: unread, nodes⟩ := by
  have hnone : elementLabel limit ⟨b :: unread, nodes⟩ = .found [] ⟨b :: unread, nodes⟩ := by
    unfold elementLabel
    rw [Parser.bind_of_found (peek_cons b unread limit nodes), hb]
    rfl
  show (elementLabel >>= fun label => call .type >>= fun type =>
    branch .tupleElement ((label ++ [type]).map some)) limit ⟨b :: unread, nodes⟩ = _
  rw [Parser.bind_of_found hnone]
  rfl

lemma tupleElement_typeLetter {call : Calls} {b : UInt8} (hb : b ∈ typeLetters) (unread : Bytes)
    (nodes : References Node) :
    tupleElement call limit ⟨b :: unread, nodes⟩ =
      (call .type >>= fun type => branch .tupleElement [some type]) limit ⟨b :: unread, nodes⟩ := by
  have hletters : typeLetters.all fun b => !startsIdentifier (Bytes.char b) := rfl
  exact tupleElement_unlabelled (Bool.not_eq_true' _ ▸ List.all_eq_true.1 hletters b hb) unread nodes

lemma tupleElement_digit {call : Calls} {b : UInt8} (hb : b ∈ digits) (unread : Bytes)
    (nodes : References Node) :
    tupleElement call limit ⟨b :: unread, nodes⟩ =
      (identifier (some .tupleElementName) >>= fun label => call .type >>= fun type =>
        branch .tupleElement [some label, some type]) limit ⟨b :: unread, nodes⟩ := by
  have hdigits : digits.all fun b => startsIdentifier (Bytes.char b) := rfl
  have hlabel := List.all_eq_true.1 hdigits b hb
  have hsome : elementLabel limit ⟨b :: unread, nodes⟩ =
      (identifier (some .tupleElementName) >>= fun label => pure [label]) limit
        ⟨b :: unread, nodes⟩ := by
    unfold elementLabel
    rw [Parser.bind_of_found (peek_cons b unread limit nodes), hlabel]
    rfl
  show (elementLabel >>= fun label => call .type >>= fun type =>
    branch .tupleElement ((label ++ [type]).map some)) limit ⟨b :: unread, nodes⟩ = _
  rw [Parser.bind_apply, hsome, ← Parser.bind_apply, bind_assoc]
  rfl

/-- Marking the last of the elements gives the elements of a variadic tuple. -/
lemma markVariadic_elementTrees (elements : List (Option Bytes × TypeExpr)) :
    markVariadic (TypeExpr.elementTrees false elements) = TypeExpr.elementTrees true elements := by
  induction elements with
  | nil => rfl
  | cons element rest ih =>
    obtain ⟨label, type⟩ := element
    cases rest with
    | nil =>
      show [Node.branch .tupleElement (Mangle.labelTrees label ++ [type.tree] ++ _)] = _
      rw [List.append_assoc]
      rfl
    | cons next rest =>
      show _ :: markVariadic (TypeExpr.elementTrees false (next :: rest)) = _
      rw [ih]
      rfl

lemma tuple_read {call : Calls} {elements : List (Option Bytes × TypeExpr)} (variadic : Bool)
    (helements : ReadsItems limit table (tupleElement call) (TypeExpr.writeElements elements)
      (TypeExpr.elementTrees false elements)) :
    ReadsBack limit table (bareType call) (TypeExpr.tuple variadic elements).write
      (TypeExpr.tuple variadic elements).bareTree := by
  have hdispatch : ∀ rest nodes,
      bareType call limit ⟨ascii (if variadic then "t" else "T") ++ rest, nodes⟩ =
        tuple call variadic limit ⟨rest, nodes⟩ := by
    intro rest nodes
    cases variadic <;> rfl
  rw [TypeExpr.write, TypeExpr.bareTree, Writer.append_assoc]
  refine .after _ hdispatch ((gather_read helements).finish fun s => ?_)
  rw [branch_map_some]
  cases variadic with
  | false => rfl
  | true =>
    rw [if_pos rfl, markVariadic_elementTrees]
    rfl

lemma bound_read {type : StandardType} {arguments : List TypeExpr} (hsome : arguments ≠ [])
    (harguments : ReadsItems limit table
      (do let argument ← parse budget .type; if ← atEnd then refuse else pure argument)
      (TypeExpr.writeAll arguments) (TypeExpr.trees arguments)) :
    ReadsBack limit table (bareType (parse (budget + 1))) (TypeExpr.bound type arguments).write
      (TypeExpr.bound type arguments).bareTree := by
  have hdispatch : ∀ rest nodes,
      bareType (parse (budget + 1)) limit ⟨ascii "GS" ++ type.letter ++ rest, nodes⟩ =
        (argumentList (parse budget) >>= applyArguments type.tree) limit ⟨rest, nodes⟩ := by
    intro rest nodes
    cases type <;> rfl
  have hkind : boundKind? type.tree.kind = some type.boundKind := by
    cases type <;> rfl
  have happly : applyArguments type.tree (TypeExpr.trees arguments) =
      pure (TypeExpr.bound type arguments).bareTree := by
    cases arguments with
    | nil => exact absurd rfl hsome
    | cons argument rest =>
      have hnonempty : (TypeExpr.trees (argument :: rest)).isEmpty = false := rfl
      rw [applyArguments, hnonempty, hkind]
      simp only [Bool.false_eq_true, if_false, orRefuse, pure_bind, branch_single, branch_pair,
        branch_map_some]
      rfl
  rw [TypeExpr.write, Writer.append_assoc]
  refine .after _ hdispatch ((gather_read harguments).finish fun s => ?_)
  rw [happly]
  rfl

section Numbers

variable (hfew : Decimal.digitCount limit < Decimal.maxDigits)
include hfew

lemma genericParamIndex_read {depth index : Nat}
    (hfits : Mangle.ParamFits limit depth index) :
    ReadsBack limit table genericParamIndex (emit (Mangle.paramIndex depth index))
      (Mangle.paramTree depth index) := by
  intro rest
  cases depth with
  | zero =>
    cases index with
    | zero => rfl
    | succ index =>
      have hread := index_read (isWritable_of_few hfew) (table.map Scope.tree) hfits rest
      obtain ⟨b, unread, hbytes, hb⟩ := (Mangle.index_begins index).append rest
      show genericParamIndex limit ⟨Mangle.index index ++ rest, _⟩ = _
      rw [hbytes] at hread ⊢
      unfold genericParamIndex
      rw [skip "d" hb rfl, skip "x" hb rfl, Parser.bind_of_found hread]
      rfl
  | succ depth =>
    have hdepth := index_read (isWritable_of_few hfew) (table.map Scope.tree) hfits.1
      (Mangle.index index ++ rest)
    have hindex := index_read (isWritable_of_few hfew) (table.map Scope.tree) hfits.2 rest
    simp only [emit, Mangle.paramIndex, List.append_assoc]
    show (Grammar.index >>= fun depth => Grammar.index >>= fun index =>
      writtenParam (depth + 1) index) limit ⟨Mangle.index depth ++ (Mangle.index index ++ rest), _⟩ = _
    rw [Parser.bind_of_found hdepth, Parser.bind_of_found hindex, writtenParam,
      if_pos (isWritable_depth hfew hfits.1)]
    rfl

lemma param_read (call : Calls) {depth index : Nat} (hfits : Mangle.ParamFits limit depth index) :
    ReadsBack limit table (bareType call) (emit (Mangle.paramCode depth index))
      (Mangle.paramTree depth index) := by
  by_cases hfirst : depth = 0 ∧ index = 0
  · obtain ⟨rfl, rfl⟩ := hfirst
    exact fun rest => rfl
  · have hcode : emit (Mangle.paramCode depth index) =
        emit (ascii "q") ++ emit (Mangle.paramIndex depth index) := by
      rw [Mangle.paramCode, if_neg hfirst, Writer.emit_append]
    have hbegins : (Mangle.paramIndex depth index).Begins (0x64 :: 0x5F :: digits) := by
      cases depth with
      | zero =>
        cases index with
        | zero => exact absurd ⟨rfl, rfl⟩ hfirst
        | succ index =>
          obtain ⟨b, rest, hbytes, hb⟩ := Mangle.index_begins index
          exact ⟨b, rest, hbytes, List.mem_cons_of_mem _ hb⟩
      | succ depth => exact .cons rfl
    have hdispatch : ∀ b ∈ 0x64 :: 0x5F :: digits, ∀ unread nodes,
        dependentType call limit ⟨b :: unread, nodes⟩ =
          genericParamIndex limit ⟨b :: unread, nodes⟩ := by
      intro b hb unread nodes
      have hletters : (0x64 :: 0x5F :: digits).all fun b =>
          !decide (Bytes.char b ≠ 'd' ∧ Bytes.char b ≠ '_' ∧ ¬(Bytes.char b).isDigit) := by decide
      have hmark := of_decide_eq_false (Bool.not_eq_true' _ ▸ List.all_eq_true.1 hletters b hb)
      unfold dependentType
      rw [Parser.bind_of_found (atEnd_cons b unread limit nodes), if_neg Bool.false_ne_true,
        Parser.bind_of_found (peek_cons b unread limit nodes), if_neg hmark]
    rw [hcode]
    refine .after (ascii "q") ?_ (.before hbegins hdispatch (genericParamIndex_read hfew hfits))
    exact fun _ _ => rfl

lemma tupleElement_read {call : Calls} {label : Option Bytes} {type : TypeExpr}
    (hproper : type.IsProper) (hlabel : ∀ name ∈ label, name.NoDigit)
    (hlength : ∀ name ∈ label, name.length ≤ limit)
    (htype : ReadsBack limit table (call .type) type.write type.tree) :
    ReadsBack limit table (tupleElement call) (emit (Mangle.labelCode label) ++ type.write)
      (.branch .tupleElement (Mangle.labelTrees label ++ [type.tree])) := by
  cases label with
  | none =>
    refine .before (write_begins table hproper) (fun b hb => tupleElement_typeLetter hb) ?_
    exact htype.finish fun _ => rfl
  | some name =>
    refine .before ((Mangle.identifier_begins name).append _) (fun b hb => tupleElement_digit hb) ?_
    have hname : ReadsBack limit table (identifier (some .tupleElementName))
        (emit (Mangle.identifier name)) (nameNode .tupleElementName name) := fun rest =>
      identifier_read (isWritable_of_few hfew) _ (hlabel name rfl) (hlength name rfl) rest _
    exact hname.bind (htype.finish fun _ => rfl)

lemma protocols_read {names : List (Bytes × Bytes)} (hbudget : 0 < budget)
    (hproper : ∀ path ∈ names, path.1.NoDigit ∧ path.2.NoDigit)
    (hfits : Mangle.ProtocolsFit limit table names) :
    ReadsItems limit table (protocolType (parse budget)) (Mangle.writeProtocols names)
      (names.map fun (module, name) => Mangle.protocolTree module name) := by
  induction names generalizing table with
  | nil => exact readsItems_nil
  | cons path names ih =>
    obtain ⟨module, name⟩ := path
    have hprotocol := protocol_read (isWritable_of_few hfew) hbudget
      (hproper (module, name) List.mem_cons_self) hfits.1
    have htype : ReadsBack limit table (protocolType (parse budget))
        (Scope.writeProtocol (.root module) name) (Mangle.protocolTree module name) :=
      hprotocol.finish fun _ => rfl
    refine readsItems_cons (writeProtocol_begins table module name) rfl
      (fun b rest => htype _) ?_
    exact ih (fun path hpath => hproper path (List.mem_cons_of_mem _ hpath)) hfits.2

lemma protocolList_read {names : List (Bytes × Bytes)} (hbudget : 0 < budget)
    (hproper : ∀ path ∈ names, path.1.NoDigit ∧ path.2.NoDigit)
    (hfits : Mangle.ProtocolsFit limit table names) :
    ReadsBack limit table (bareType (parse budget)) (TypeExpr.protocols names).write
      (TypeExpr.protocols names).bareTree := by
  have hlist : ReadsBack limit table (protocolList (parse budget))
      (Mangle.writeProtocols names ++ emit (ascii "_")) (TypeExpr.protocols names).bareTree := by
    refine (gather_read (protocols_read hfew hbudget hproper hfits)).finish fun s => ?_
    simp only [branch_map_some, pure_bind, branch_single]
    rfl
  have hbegins : ((Mangle.writeProtocols names ++ emit (ascii "_")) table).1.Begins
      (0x5F :: 0x53 :: 0x73 :: digits) := by
    cases names with
    | nil => exact .cons rfl
    | cons path names =>
      obtain ⟨b, rest, hbytes, hb⟩ :=
        ((writeProtocol_begins table path.1 path.2).append _).append _
      exact ⟨b, rest, hbytes, List.mem_cons_of_mem _ hb⟩
  rw [TypeExpr.write, Writer.append_assoc]
  have hdispatch : ∀ rest nodes, bareType (parse budget) limit ⟨ascii "P" ++ rest, nodes⟩ =
      (do
        if ← accept "M" then wrapped (parse budget) .existentialMetatype .type
        else protocolList (parse budget)) limit ⟨rest, nodes⟩ := fun _ _ => rfl
  exact .after (ascii "P") hdispatch
    (.before hbegins (fun b hb => skip "M" hb rfl _ _ limit) hlist)

end Numbers

end Grammar

end SwiftMangling
