import Mathlib.Tactic.IntervalCases
import SwiftMangling.Mangle.Specialization
import SwiftMangling.Proofs.EntityRoundTrip
import SwiftMangling.Proofs.ReadOrRefused
import SwiftMangling.Proofs.SpecializationBlocks

/-!
# Specialization attributes are read back

The parameters of an attribute are told apart by their first letters, and each of them ends in an
underscore. Literals run up to it, so that they must not hold one, and the types of a closure end before
it. An attribute is put before a symbol as a block with a table of its own, and is the first child of
the symbol then.
-/

namespace SwiftMangling

namespace Mangle

namespace ParamChange

/-- Names begin with something other than a digit, literals hold no underscore, types can be mangled,
and there is a flag. -/
def IsProper : ParamChange → Prop
  | flags set => set.code ≠ []
  | integer literal => 0x5F ∉ literal
  | float literal => 0x5F ∉ literal
  | function name => name.NoDigit
  | global name => name.NoDigit
  | string _ content => content.NoDigit
  | closure name types => name.NoDigit ∧ TypeExpr.allProper types
  | _ => True

/-- The numbers that are written for a change in view of a table are within the limit. -/
def Fits (limit : Int) (table : References Scope) : ParamChange → Prop
  | function name => name.length ≤ limit
  | global name => name.length ≤ limit
  | string _ content => content.length ≤ limit
  | closure name types => name.length ≤ limit ∧ TypeExpr.allFit limit types table
  | _ => True

def allFit (limit : Int) : List ParamChange → References Scope → Prop
  | [], _ => True
  | change :: rest, table => change.Fits limit table ∧ allFit limit rest (change.write table).2

/-- The budget that reading a change takes. -/
def nesting : ParamChange → Nat
  | closure _ types => TypeExpr.allNesting types
  | _ => 0

def allNesting : List ParamChange → Nat
  | [] => 0
  | change :: rest => max change.nesting (allNesting rest)

end ParamChange

namespace Conformance

def IsProper (conformance : Conformance) : Prop :=
  conformance.type.IsProper ∧
    (Scope.member (.root conformance.module) .protocolDecl conformance.name).IsProper ∧
    conformance.context.IsProper

/-- The numbers that are written for a conformance in view of a table are within the limit. -/
def Fits (limit : Int) (conformance : Conformance) (table : References Scope) : Prop :=
  conformance.type.Fits limit table ∧
    (Scope.member (.root conformance.module) .protocolDecl conformance.name).Fits limit
      (conformance.type.write table).2 ∧
    conformance.context.Fits limit ((conformance.type.write ++
      Scope.writeProtocol (.root conformance.module) conformance.name) table).2

def allFit (limit : Int) : List Conformance → References Scope → Prop
  | [], _ => True
  | conformance :: rest, table =>
    conformance.Fits limit table ∧ allFit limit rest (conformance.write table).2

/-- The budget that reading a conformance takes. -/
def nesting (conformance : Conformance) : Nat :=
  max (conformance.type.nesting + 1) conformance.context.nesting

def allNesting : List Conformance → Nat
  | [] => 0
  | conformance :: rest => max conformance.nesting (allNesting rest)

end Conformance

namespace GenericArgument

def IsProper (argument : GenericArgument) : Prop :=
  argument.type.IsProper ∧ ∀ conformance ∈ argument.conformances, conformance.IsProper

/-- The numbers that are written for an argument in view of a table are within the limit. -/
def Fits (limit : Int) (argument : GenericArgument) (table : References Scope) : Prop :=
  argument.type.Fits limit table ∧
    Conformance.allFit limit argument.conformances (argument.type.write table).2

def allFit (limit : Int) : List GenericArgument → References Scope → Prop
  | [], _ => True
  | argument :: rest, table =>
    argument.Fits limit table ∧ allFit limit rest (argument.write table).2

/-- The budget that reading an argument takes. -/
def nesting (argument : GenericArgument) : Nat :=
  max (argument.type.nesting + 1) (Conformance.allNesting argument.conformances)

def allNesting : List GenericArgument → Nat
  | [] => 0
  | argument :: rest => max argument.nesting (allNesting rest)

end GenericArgument

namespace SpecializationForm

def IsProper : SpecializationForm → Prop
  | generic _ arguments => ∀ argument ∈ arguments, argument.IsProper
  | signature changes => ∀ change ∈ changes, change.IsProper

def Fits (limit : Int) (table : References Scope) : SpecializationForm → Prop
  | generic _ arguments => GenericArgument.allFit limit arguments table
  | signature changes => ParamChange.allFit limit changes table

def nesting : SpecializationForm → Nat
  | generic _ arguments => GenericArgument.allNesting arguments
  | signature changes => ParamChange.allNesting changes

end SpecializationForm

end Mangle

namespace Grammar

open Mangle (Writer Scope TypeExpr Conformance GenericArgument SpecializationForm Specialization ascii
  digits nameNode)
open Mangle.Writer (emit)

variable {α : Type} {limit : Int} {table : References Scope} {budget : Nat}

section Literals

/-- The bytes up to the first underscore are taken. -/
lemma breakMark?_append {bytes : Bytes} (h : 0x5F ∉ bytes) (rest : Bytes) :
    Bytes.breakMark? [0x5F] (bytes ++ 0x5F :: rest) = some (bytes, 0x5F :: rest) := by
  induction bytes with
  | nil => rfl
  | cons b bytes ih =>
    obtain ⟨hb, hbytes⟩ := not_or.1 (List.mem_cons.not.1 h)
    have hmiss : Bytes.stripMark? [0x5F] (b :: (bytes ++ 0x5F :: rest)) = none := by
      have hne : 0x5F ≠ b.toNat := fun hnumber => hb (UInt8.toNat_inj.1 hnumber)
      simp only [Bytes.stripMark?, if_neg hne]
    rw [List.cons_append, Bytes.breakMark?, hmiss, ih hbytes]
    rfl

lemma constantLiteral_read (what : ParamChange) {literal : Bytes} (h : 0x5F ∉ literal) :
    ReadsBack limit table (constantLiteral what) (emit (literal ++ ascii "_"))
      [change what, nameNode .functionSignatureSpecializationParamPayload literal] := by
  intro rest
  have hliteral : readUntil "_" limit ⟨literal ++ (0x5F :: rest), table.map Scope.tree⟩ =
      .found literal ⟨0x5F :: rest, table.map Scope.tree⟩ := by
    have hbreak : Bytes.breakMark? ((Text.ofString "_").map Fin.val) (literal ++ 0x5F :: rest) =
        some (literal, 0x5F :: rest) := breakMark?_append h rest
    simp only [readUntil, hbreak]
  show constantLiteral what limit ⟨literal ++ ascii "_" ++ rest, _⟩ = _
  rw [List.append_assoc, constantLiteral]
  refine (Parser.bind_of_found hliteral).trans ?_
  rw [textOfChars_ofBytes]
  rfl

end Literals

section Names

variable (hlimit : Decimal.isWritable limit)
include hlimit

lemma constantName_read (what : ParamChange) {name : Bytes} (hname : name.NoDigit)
    (hlength : name.length ≤ limit) :
    ReadsBack limit table (constantName what) (emit (Mangle.identifier name ++ ascii "_"))
      [change what, nameNode .functionSignatureSpecializationParamPayload name] := by
  rw [Writer.emit_append]
  exact (plainIdentifier_read hlimit hname hlength).bind fun _ => rfl

lemma constantString_read (wide : Bool) {content : Bytes} (hcontent : content.NoDigit)
    (hlength : content.length ≤ limit) :
    ReadsBack limit table constantString
      (emit (ascii (if wide then "e1v" else "e0v")) ++ emit (Mangle.identifier content ++ ascii "_"))
      [change .constantString,
        nameNode .functionSignatureSpecializationParamPayload (ascii (if wide then "u16" else "u8")),
        nameNode .functionSignatureSpecializationParamPayload content] := by
  have hread : ReadsBack limit table (do
      let content ← identifier
      demand "_"
      let encoding ← payloadNode (if wide then "u16" else "u8" : Text)
      let content ← payloadNode content.text?
      pure [change .constantString, encoding, content])
      (emit (Mangle.identifier content ++ ascii "_"))
      [change .constantString,
        nameNode .functionSignatureSpecializationParamPayload (ascii (if wide then "u16" else "u8")),
        nameNode .functionSignatureSpecializationParamPayload content] := by
    rw [Writer.emit_append]
    refine (plainIdentifier_read hlimit hcontent hlength).bind fun _ => ?_
    cases wide <;> rfl
  refine .after _ (fun _ _ => ?_) hread
  cases wide <;> rfl

end Names

section Closures

/-- The types of a closure end before an underscore. -/
def endsTypes : Parser Bool := do
  let c ← peek
  pure (c = '_')

/-- A list whose items are found is the list of what is found. -/
lemma gatherFound_of_gather {stop : Parser Bool} {item : Parser α} {values : List α} {s s' : State}
    (h : gather stop (fun _ => item) limit s = .found values s') :
    gatherFound stop item limit s = .found values s' := by
  have hrounds : ∀ (count : Nat) (earlier : List α) (s : State),
      rounds (listRound stop fun _ => item) count earlier limit s = .found values s' →
      rounds (roundFound stop item) count earlier limit s = .found values s' := by
    intro count
    induction count with
    | zero => exact fun _ _ h => h
    | succ count ih =>
      intro earlier s h
      obtain ⟨round, s₁, hround, h⟩ := Parser.bind_found h
      obtain ⟨stopped, s₂, hstop, hround⟩ := Parser.bind_found hround
      cases stopped with
      | true =>
        cases hround
        cases h
        rw [rounds, roundFound, bind_assoc, Parser.bind_of_found hstop]
        rfl
      | false =>
        obtain ⟨value, s₃, hvalue, hround⟩ := Parser.bind_found hround
        cases hround
        have htolerated : tolerate item limit s₂ = .found (some value) s₁ := by
          simp only [tolerate, hvalue]
        rw [rounds, roundFound, bind_assoc, Parser.bind_of_found hstop, if_neg Bool.false_ne_true,
          bind_assoc, Parser.bind_of_found htolerated]
        exact ih _ _ h
  exact hrounds _ _ _ h

lemma types_readsList (hfew : Decimal.digitCount limit < Decimal.maxDigits) {types : List TypeExpr}
    (hproper : TypeExpr.allProper types) (hfits : TypeExpr.allFit limit types table)
    (hbudget : TypeExpr.allNesting types ≤ budget) (earlier : List Node) :
    ReadsList (fun rest => rest.Begins (ascii "_")) limit table endsTypes (fun _ => parse budget .type)
      earlier (TypeExpr.writeAll types) (some (TypeExpr.trees types)) := by
  induction types generalizing table earlier with
  | nil =>
    refine readsList_nil fun rest hrest => ?_
    obtain ⟨b, unread, rfl, hb⟩ := hrest
    obtain rfl := List.mem_singleton.1 hb
    rfl
  | cons type rest ih =>
    obtain ⟨htype, hrest⟩ := hproper
    obtain ⟨hfits, hfitsRest⟩ := hfits
    obtain ⟨hnesting, hnestingRest⟩ := Nat.max_le.1 hbudget
    have hgo : ∀ b ∈ typeLetters, ∀ unread nodes,
        endsTypes limit ⟨b :: unread, nodes⟩ = .found false ⟨b :: unread, nodes⟩ := by
      intro b hb unread nodes
      have hletters : typeLetters.all fun b => !decide (Bytes.char b = '_') := rfl
      have hmark := Bool.not_eq_true' _ ▸ List.all_eq_true.1 hletters b hb
      rw [endsTypes, Parser.bind_of_found (peek_cons b unread limit nodes), hmark]
      rfl
    rw [TypeExpr.writeAll]
    exact readsList_found (write_begins table htype) hgo
      ((type_readsBack hfew htype hfits hnesting).readsAs anyRest) (fun _ _ => trivial)
      (ih hrest hfitsRest hnestingRest (type.tree :: earlier))

lemma closureChange_read (hfew : Decimal.digitCount limit < Decimal.maxDigits) {name : Bytes}
    {types : List TypeExpr} (hname : name.NoDigit) (hlength : name.length ≤ limit)
    (hproper : TypeExpr.allProper types) (hfits : TypeExpr.allFit limit types table)
    (hbudget : TypeExpr.allNesting types ≤ budget) :
    ReadsBack limit table (closureChange (parse budget))
      (emit (Mangle.identifier name) ++ (TypeExpr.writeAll types ++ emit (ascii "_")))
      (change .closure :: nameNode .functionSignatureSpecializationParamPayload name ::
        TypeExpr.trees types) := by
  have htypes : ReadsAs (fun rest => rest.Begins (ascii "_")) limit table
      (gatherFound endsTypes (parse budget .type)) (TypeExpr.writeAll types)
      (some (TypeExpr.trees types)) := fun rest hrest =>
    gatherFound_of_gather (gather_readsAs (types_readsList hfew hproper hfits hbudget []) rest hrest)
  have hend : ReadsBack limit (TypeExpr.writeAll types table).2
      (do demand "_"; pure (change .closure ::
        nameNode .functionSignatureSpecializationParamPayload name :: TypeExpr.trees types))
      (emit (ascii "_")) _ := fun _ => rfl
  refine (plainIdentifier_read (isWritable_of_few hfew) hname hlength).bind
    (htypes.bind_some ?_ (hend.readsAs anyRest)).readsBack
  exact fun _ _ => .cons rfl

end Closures

section Changes

/-- The letters that a change begins with. -/
def changeLetters : Bytes :=
  ascii "nikdgosc"

lemma flagChange_read {set : Mangle.ParamFlags} (hsome : set.code ≠ []) :
    ReadsBack limit table flagChange (emit (set.code ++ ascii "_")) [changeNode set.number] := by
  obtain ⟨dead, guaranteed, owned, exploded⟩ := set
  cases dead <;> cases guaranteed <;> cases owned <;> cases exploded <;>
    first
    | exact fun _ => rfl
    | exact absurd rfl hsome

lemma flags_begins {set : Mangle.ParamFlags} (hsome : set.code ≠ []) :
    set.code.Begins (ascii "dgos") := by
  obtain ⟨dead, guaranteed, owned, exploded⟩ := set
  cases dead <;> cases guaranteed <;> cases owned <;> cases exploded <;>
    first
    | exact .cons rfl
    | exact absurd rfl hsome

lemma change_begins {made : Mangle.ParamChange} (hproper : made.IsProper) :
    (made.write table).1.Begins changeLetters := by
  cases made with
  | flags set =>
    obtain ⟨b, rest, hbytes, hb⟩ := (flags_begins hproper).append (ascii "_")
    have hletters : (ascii "dgos").all (changeLetters.contains ·) := rfl
    exact ⟨b, rest, hbytes, List.contains_iff_mem.1 (List.all_eq_true.1 hletters b hb)⟩
  | string wide content => cases wide <;> exact .cons rfl
  | _ => exact .cons rfl

/-- A change is read back: its first letters say what it is. -/
lemma paramChange_read (hfew : Decimal.digitCount limit < Decimal.maxDigits)
    {made : Mangle.ParamChange} (hproper : made.IsProper) (hfits : made.Fits limit table)
    (hbudget : made.nesting ≤ budget) :
    ReadsBack limit table (paramChange (parse budget)) made.write made.trees := by
  have hlimit := isWritable_of_few hfew
  cases made with
  | unchanged => exact fun _ => rfl
  | boxToValue => exact fun _ => rfl
  | boxToStack => exact fun _ => rfl
  | flags set =>
    refine .before ((flags_begins hproper).append _) (fun b hb unread nodes => ?_)
      (flagChange_read hproper)
    unfold paramChange
    rw [skip "n_" hb rfl, skip "cp" hb rfl, skip "cl" hb rfl, skip "i_" hb rfl, skip "k_" hb rfl]
  | integer literal =>
    rw [Mangle.ParamChange.write, List.append_assoc, Writer.emit_append]
    exact .after (ascii "cpi") (fun _ _ => rfl) (constantLiteral_read .constantInteger hproper)
  | float literal =>
    rw [Mangle.ParamChange.write, List.append_assoc, Writer.emit_append]
    exact .after (ascii "cpfl") (fun _ _ => rfl) (constantLiteral_read .constantFloat hproper)
  | function name =>
    rw [Mangle.ParamChange.write, List.append_assoc, Writer.emit_append]
    exact .after (ascii "cpfr") (fun _ _ => rfl) (constantName_read hlimit .constantFunction hproper hfits)
  | global name =>
    rw [Mangle.ParamChange.write, List.append_assoc, Writer.emit_append]
    exact .after (ascii "cpg") (fun _ _ => rfl) (constantName_read hlimit .constantGlobal hproper hfits)
  | string wide content =>
    have hwrite : Mangle.ParamChange.write (.string wide content) = emit (ascii "cps") ++
        (emit (ascii (if wide then "e1v" else "e0v")) ++ emit (Mangle.identifier content ++ ascii "_")) := by
      rw [Mangle.ParamChange.write, List.append_assoc]
      cases wide <;> rfl
    rw [hwrite]
    exact .after (ascii "cps") (fun _ _ => rfl) (constantString_read hlimit wide hproper hfits)
  | closure name types =>
    rw [Mangle.ParamChange.write, Writer.emit_append, Writer.append_assoc, Writer.append_assoc]
    exact .after (ascii "cl") (fun _ _ => rfl)
      (closureChange_read hfew hproper.1 hfits.1 hproper.2 hfits.2 hbudget)

/-- A change in the place that it has among the others. -/
def signatureParam (call : Calls) (earlier : List Node) : Parser Node := do
  let changes ← paramChange call
  numbered .functionSignatureSpecializationParam earlier.length (changes.map some)

/-- Changes are read back in order, each with its position. -/
lemma changes_readsList (hfew : Decimal.digitCount limit < Decimal.maxDigits)
    {list : List Mangle.ParamChange} (hproper : ∀ made ∈ list, made.IsProper)
    (hfits : Mangle.ParamChange.allFit limit list table)
    (hbudget : Mangle.ParamChange.allNesting list ≤ budget) (earlier : List Node) :
    ReadsList anyRest limit table (accept "_") (signatureParam (parse budget)) earlier
      (Mangle.ParamChange.writeAll list ++ emit (ascii "_"))
      (some (Mangle.ParamChange.treesFrom earlier.length list)) := by
  induction list generalizing table earlier with
  | nil => exact readsList_nil fun _ _ => rfl
  | cons made rest ih =>
    rw [List.forall_mem_cons] at hproper
    obtain ⟨hfits, hfitsRest⟩ := hfits
    obtain ⟨hnesting, hnestingRest⟩ := Nat.max_le.1 hbudget
    have hmade : ReadsBack limit table (signatureParam (parse budget) earlier) made.write
        (.numbered .functionSignatureSpecializationParam earlier.length made.trees) := by
      refine (paramChange_read hfew hproper.1 hfits hnesting).finish fun s => ?_
      rw [numbered_map_some]
      rfl
    rw [Mangle.ParamChange.writeAll, Writer.append_assoc]
    exact readsList_found (change_begins hproper.1)
      (fun b hb => accept_of_misses (misses_of_mem "_" hb rfl) limit) (hmade.readsAs anyRest)
      (fun _ _ => trivial) (ih hproper.2 hfitsRest hnestingRest _)

end Changes

section Arguments

variable (hfew : Decimal.digitCount limit < Decimal.maxDigits)
include hfew

lemma conformance_read {conformance : Conformance} (hproper : conformance.IsProper)
    (hfits : conformance.Fits limit table) (hbudget : conformance.nesting ≤ budget) :
    ReadsBack limit table (Grammar.conformance (parse budget)) conformance.write conformance.tree := by
  obtain ⟨htype, hprotocol, hcontext⟩ := hproper
  obtain ⟨hfitsType, hfitsProtocol, hfitsContext⟩ := hfits
  obtain ⟨hnesting, hnestingContext⟩ := Nat.max_le.1 hbudget
  have hprotocolRead : ReadsBack limit (conformance.type.write table).2 (protocolType (parse budget))
      (Scope.writeProtocol (.root conformance.module) conformance.name)
      (Mangle.protocolTree conformance.module conformance.name) :=
    (protocol_read (isWritable_of_few hfew) (Nat.zero_lt_of_lt hnesting) hprotocol hfitsProtocol).finish
      fun _ => rfl
  rw [Conformance.write, Writer.append_assoc]
  exact (type_readsBack hfew htype hfitsType hnesting).bind
    (hprotocolRead.bind ((contextExpr_read hfew hcontext hfitsContext hnestingContext).finish
      fun _ => rfl))

lemma conformances_read {list : List Conformance} (hproper : ∀ each ∈ list, each.IsProper)
    (hfits : Conformance.allFit limit list table) (hbudget : Conformance.allNesting list ≤ budget) :
    ReadsItems limit table (Grammar.conformance (parse budget)) (Conformance.writeAll list)
      (list.map Conformance.tree) := by
  induction list generalizing table with
  | nil => exact readsItems_nil
  | cons conformance rest ih =>
    rw [List.forall_mem_cons] at hproper
    obtain ⟨hfits, hfitsRest⟩ := hfits
    obtain ⟨hnesting, hnestingRest⟩ := Nat.max_le.1 hbudget
    exact readsItems_cons (((write_begins table hproper.1.1).append _).append _) rfl
      (fun b rest => conformance_read hfew hproper.1 hfits hnesting _)
      (ih hproper.2 hfitsRest hnestingRest)

lemma genericParam_read {argument : GenericArgument} (hproper : argument.IsProper)
    (hfits : argument.Fits limit table) (hbudget : argument.nesting ≤ budget) :
    ReadsBack limit table (genericParamNode (parse budget)) argument.write argument.tree := by
  obtain ⟨hnesting, hnestingList⟩ := Nat.max_le.1 hbudget
  rw [GenericArgument.write, Writer.append_assoc]
  refine (type_readsBack hfew hproper.1 hfits.1 hnesting).bind
    ((gather_read (conformances_read hfew hproper.2 hfits.2 hnestingList)).finish fun s => ?_)
  have hchildren := branch_map_some .genericSpecializationParam
    (argument.type.tree :: argument.conformances.map Conformance.tree)
  rw [List.map_cons] at hchildren
  rw [hchildren]
  rfl

lemma genericParams_read {list : List GenericArgument} (hproper : ∀ each ∈ list, each.IsProper)
    (hfits : GenericArgument.allFit limit list table)
    (hbudget : GenericArgument.allNesting list ≤ budget) :
    ReadsItems limit table (genericParamNode (parse budget)) (GenericArgument.writeAll list)
      (list.map GenericArgument.tree) := by
  induction list generalizing table with
  | nil => exact readsItems_nil
  | cons argument rest ih =>
    rw [List.forall_mem_cons] at hproper
    obtain ⟨hfits, hfitsRest⟩ := hfits
    obtain ⟨hnesting, hnestingRest⟩ := Nat.max_le.1 hbudget
    exact readsItems_cons (((write_begins table hproper.1.1).append _).append _) rfl
      (fun b rest => genericParam_read hfew hproper.1 hfits hnesting _)
      (ih hproper.2 hfitsRest hnestingRest)

end Arguments

section Attributes

lemma passNumber_read (pass : Fin 10) :
    ReadsBack limit table passNumber (emit (Mangle.natural pass))
      (.numbered .specializationPassID pass.val) := by
  obtain ⟨digit, hdigit⟩ := pass
  have hwritten : Mangle.natural digit = [digit.digitChar.toUInt8] := by
    rw [Mangle.natural, Nat.toDigits_of_lt_base hdigit]
    rfl
  rw [hwritten]
  intro rest
  interval_cases digit <;> rfl

/-- A pass has a single digit, which is no mark of serialization. -/
lemma pass_begins (pass : Fin 10) : (Mangle.natural pass).Begins digits :=
  Mangle.natural_begins pass

/-- The children of the node of an attribute. -/
def attributeParts (kind : Kind) (params : Parser (List Node)) (mark : List Node) : Parser Node := do
  let pass ← passNumber
  let params ← params
  branch kind ((mark ++ pass :: params).map some)

/-- An attribute after its letter, if its parameters are read back. -/
lemma specializationOf_read {kind : Kind} {params : Parser (List Node)} {w : Writer} {trees : List Node}
    (serialized : Bool) (pass : Fin 10) (hparams : ReadsBack limit table params w trees) :
    ReadsBack limit table (specializationOf kind params)
      (emit (if serialized then ascii "q" else []) ++ (emit (Mangle.natural pass) ++ w))
      (.branch kind ((if serialized then [.branch .isSerialized []] else []) ++
        .numbered .specializationPassID pass.val :: trees)) := by
  have hparts : ∀ mark, ReadsBack limit table (attributeParts kind params mark)
      (emit (Mangle.natural pass) ++ w)
      (.branch kind (mark ++ .numbered .specializationPassID pass.val :: trees)) := fun mark =>
    (passNumber_read pass).bind (hparams.finish fun s => by rw [branch_map_some]; rfl)
  cases serialized with
  | true => exact .after (ascii "q") (fun _ _ => rfl) (hparts [.branch .isSerialized []])
  | false =>
    refine .of_eq rfl (.before ((pass_begins pass).append _) (fun b hb unread nodes => ?_) (hparts []))
    unfold specializationOf
    rw [Parser.bind_of_found (accept_of_misses (misses_of_mem "q" hb rfl) limit unread nodes)]
    rfl

lemma specialization_read (hfew : Decimal.digitCount limit < Decimal.maxDigits)
    {made : Specialization} (hproper : made.form.IsProper) (hfits : made.form.Fits limit table)
    (hbudget : made.form.nesting ≤ budget) :
    ReadsBack limit table (specialization (parse budget)) made.write made.tree := by
  obtain ⟨form, serialized, pass⟩ := made
  simp only [Specialization.write, Writer.emit_append, Writer.append_assoc]
  cases form with
  | generic reabstracted list =>
    have hparams := gather_read (genericParams_read hfew hproper hfits hbudget)
    cases reabstracted with
    | true => exact .after (ascii "g") (fun _ _ => rfl) (specializationOf_read serialized pass hparams)
    | false => exact .after (ascii "r") (fun _ _ => rfl) (specializationOf_read serialized pass hparams)
  | signature list =>
    have hparams := (gather_readsAs (changes_readsList hfew hproper hfits hbudget [])).readsBack
    exact .after (ascii "f") (fun _ _ => rfl) (specializationOf_read serialized pass hparams)

/-- An attribute before the prefix of a symbol is the only specialization, if no other one follows. -/
lemma specializations_read (hfew : Decimal.digitCount limit < Decimal.maxDigits)
    {made : Specialization} (hproper : made.form.IsProper) (hfits : made.form.Fits limit [])
    (hbudget : made.form.nesting ≤ budget) {rest : Bytes} (hrest : ¬ascii "_TTS" <+: rest) :
    specializations (parse budget) limit ⟨(made.write []).1 ++ rest, []⟩ =
      .found [made.tree] ⟨rest, []⟩ := by
  have hread := specialization_read hfew hproper hfits hbudget rest
  have hround : specializationRound (parse budget) [] limit ⟨(made.write []).1 ++ rest, []⟩ =
      .found (.done [made.tree]) ⟨rest, []⟩ := by
    have hmark := accept_of_not_prefix "_TTS" (by decide) hrest limit []
    refine (Parser.bind_of_found hread).trans ?_
    refine (Parser.bind_of_found (p := forget) rfl).trans ?_
    exact (Parser.bind_of_found hmark).trans rfl
  show rounds (specializationRound (parse budget)) _ [] limit _ = _
  rw [rounds, Parser.bind_of_found hround]
  rfl

end Attributes

end Grammar

open Mangle (Specialization TypeExpr)

/-- An attribute before a symbol is its first child, and lists just the parameters that were written, in
order; the children of the symbol follow. The symbol is any name that is read as a tree and has no
attributes of its own, and only a budget below the nesting of the parameters can cut the reading off. -/
theorem demangle_specialized (settings : Settings) (made : Specialization) (rest : Bytes) (root : Node)
    (hnatural : Decimal.digitCount settings.maxNatural.toInt < Decimal.maxDigits)
    (hproper : made.form.IsProper) (hfits : made.form.Fits settings.maxNatural.toInt [])
    (hrest : ∀ mark ∈ Grammar.preludeMarks, ¬Mangle.ascii mark <+: rest)
    (hroot : demangle .symbol settings (.bytes (Mangle.ascii "_T" ++ rest)) = .tree root) :
    demangle .symbol settings (.bytes (made.block ++ (Mangle.ascii "_T" ++ rest))) =
        .tree (.branch .global (made.tree :: root.children)) ∨
      RunsOut .symbol settings (.bytes (made.block ++ (Mangle.ascii "_T" ++ rest))) ∧
        settings.maxDepth.toInt.toNat < made.form.nesting := by
  obtain ⟨s, hplain⟩ := demangle_eq_tree_iff.1 hroot
  obtain hexhausted | hmax := parseBytes_of_le .symbol
    (Nat.le_max_left settings.maxDepth.toInt.toNat made.form.nesting) settings.maxNatural.toInt
    (Mangle.ascii "_T" ++ rest)
  · cases hplain.symm.trans hexhausted
  refine (parseBytes_max .symbol _ made.form.nesting _ _).imp_left fun hsame =>
    demangle_eq_tree_iff.2 ⟨s, hsame.trans ?_⟩
  have hafter := (Grammar.symbol_plain _ settings.maxNatural.toInt hrest).symm.trans
    (hmax.symm.trans hplain)
  have hspecialized := Grammar.symbol_of_specializations (Grammar.specializations_read hnatural hproper
    hfits (Nat.le_max_right settings.maxDepth.toInt.toNat _)
    (Grammar.not_announced (hrest "TS" (by decide))))
  rw [Grammar.symbolAfter_eq, Grammar.Parser.bind_of_found hafter, ← List.append_assoc] at hspecialized
  exact hspecialized

/-- A specialized function: a parameter that is dead and exploded, a literal, a string, and a closure
over a class that is referred to. -/
def changedFunction : Specialization where
  form := .signature
    [.flags ⟨true, false, false, true⟩, .unchanged, .integer (Mangle.ascii "-42"),
      .string true (Mangle.ascii "s"),
      .closure (Mangle.ascii "f")
        [.declared (.root (Mangle.ascii "m")) .classDecl (Mangle.ascii "C"),
          .declared (.root (Mangle.ascii "m")) .classDecl (Mangle.ascii "C")]]
  serialized := true
  pass := 4

/-- A function that is specialized for a class that conforms to a protocol of the module of the class. -/
def conformingArgument : Specialization where
  form := .generic false
    [⟨.declared (.root (Mangle.ascii "m")) .classDecl (Mangle.ascii "C"),
      [⟨.declared (.root (Mangle.ascii "m")) .classDecl (Mangle.ascii "C"), Mangle.ascii "m",
        Mangle.ascii "P", .scope (.root (Mangle.ascii "m"))⟩]⟩]
  serialized := false
  pass := 5

/-- The two attributes before the symbol of the type of integers, each with a table of its own. -/
theorem demangle_changedFunction :
    demangle .symbol {} (.bytes (Mangle.ascii
        "_TTSfq4ds_n_cpi-42_cpse1v1s_cl1fC1m1CS0____TtSi")) =
        .tree (.branch .global (changedFunction.tree :: intSymbol.children)) ∧
      demangle .symbol {} (.bytes (Mangle.ascii "_TTSr5C1m1CS0_S_1PS____TtSi")) =
        .tree (.branch .global (conformingArgument.tree :: intSymbol.children)) := by
  have hplain : demangle .symbol {} (.bytes (Mangle.ascii "_T" ++ Mangle.ascii "tSi")) =
      .tree intSymbol := rfl
  have hletter : ((Mangle.ascii "s").length : Int) ≤ 18446744073709551615 := by decide
  have hliteral : 0x5F ∉ Mangle.ascii "-42" := by decide
  have hproper : changedFunction.form.IsProper := by
    simp only [changedFunction, Mangle.SpecializationForm.IsProper, List.forall_mem_cons]
    exact ⟨List.cons_ne_nil _ _, trivial, hliteral, rfl, ⟨rfl, by decide, by decide, trivial⟩, nofun⟩
  have hfits : changedFunction.form.Fits 18446744073709551615 [] :=
    ⟨trivial, trivial, trivial, hletter, ⟨hletter, by decide, by decide, trivial⟩, trivial⟩
  have hconforming : conformingArgument.form.IsProper := by
    simp only [conformingArgument, Mangle.SpecializationForm.IsProper, Mangle.GenericArgument.IsProper,
      List.forall_mem_cons]
    exact ⟨⟨by decide, ⟨by decide, by decide, rfl⟩, nofun⟩, nofun⟩
  have hwhere : (Mangle.Scope.root (Mangle.ascii "m")).Fits 18446744073709551615
      [.root (Mangle.ascii "m"), .member (.root (Mangle.ascii "m")) .classDecl (Mangle.ascii "C"),
        .member (.root (Mangle.ascii "m")) .protocolDecl (Mangle.ascii "P")] := by decide
  have hwithin : conformingArgument.form.Fits 18446744073709551615 [] :=
    ⟨⟨by decide, ⟨by decide, by decide, hwhere⟩, trivial⟩, trivial⟩
  have hsignature := demangle_specialized {} changedFunction (Mangle.ascii "tSi") intSymbol (by decide)
    hproper hfits (by decide) hplain
  have hgeneric := demangle_specialized {} conformingArgument (Mangle.ascii "tSi") intSymbol
    (by decide) hconforming hwithin (by decide) hplain
  refine ⟨hsignature.resolve_right ?_, hgeneric.resolve_right ?_⟩ <;>
  · rintro ⟨-, hnesting⟩
    exact absurd hnesting (by decide)

end SwiftMangling
