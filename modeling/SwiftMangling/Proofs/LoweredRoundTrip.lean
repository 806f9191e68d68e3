import SwiftMangling.Mangle.LoweredFunction
import SwiftMangling.Proofs.SignatureRoundTrip

/-!
# Lowered function types are read back or refused

A spelling of a lowered function type is read as the function type that it stands for, with at most one
error result. It is refused if it has more of them, and if it stands for none: a letter that means
something in one place may mean nothing in another, and a parameter cannot be marked.
-/

namespace SwiftMangling

namespace Mangle

/-- The underscore that ends a list. -/
def endMark : UInt8 :=
  0x5F

/-- The mark of an error result. -/
def errorMark : UInt8 :=
  0x7A

namespace LoweredPart

/-- The numbers that are written for parameters or results are within the limit. -/
def allFit (limit : Int) : List LoweredPart → References Scope → Prop
  | [], _ => True
  | part :: rest, table => part.type.Fits limit table ∧ allFit limit rest (part.write table).2

instance decideAllFit (limit : Int) :
    (parts : List LoweredPart) → (table : References Scope) → Decidable (allFit limit parts table)
  | [], _ => isTrue trivial
  | part :: rest, table =>
    have := decideAllFit limit rest (part.write table).2
    inferInstanceAs (Decidable (part.type.Fits limit table ∧ allFit limit rest (part.write table).2))

/-- The budget that reading parameters or results takes. -/
def allNesting : List LoweredPart → Nat
  | [] => 0
  | part :: rest => max (part.type.nesting + 1) (allNesting rest)

end LoweredPart

namespace LoweredSpelling

/-- The signature and the types can be mangled, and no letter that comes first is taken for the end of a
list or for the mark of a result. -/
def IsProper (spelling : LoweredSpelling) : Prop :=
  (∀ signature ∈ spelling.signature?, signature.2.IsProper) ∧
    (∀ part ∈ spelling.parameters, (part.isMarked ∨ part.letter ≠ endMark) ∧ part.type.IsProper) ∧
    ∀ part ∈ spelling.results,
      (part.isMarked ∨ part.letter ≠ endMark ∧ part.letter ≠ errorMark) ∧ part.type.IsProper

def signatureFits (limit : Int) : Option (Bool × Signature) → References Scope → Prop
  | none, _ => True
  | some (_, signature), table => signature.Fits limit table

/-- The numbers that are written for a spelling in view of a table are within the limit. -/
def Fits (limit : Int) (spelling : LoweredSpelling) (table : References Scope) : Prop :=
  signatureFits limit spelling.signature? table ∧
    LoweredPart.allFit limit spelling.parameters (writeSignature spelling.signature? table).2 ∧
    LoweredPart.allFit limit spelling.results
      (LoweredPart.writeList spelling.parameters (writeSignature spelling.signature? table).2).2

instance : DecidablePred IsProper := fun spelling =>
  inferInstanceAs (Decidable ((∀ signature ∈ spelling.signature?, signature.2.IsProper) ∧
    (∀ part ∈ spelling.parameters, (part.isMarked ∨ part.letter ≠ endMark) ∧ part.type.IsProper) ∧
    ∀ part ∈ spelling.results,
      (part.isMarked ∨ part.letter ≠ endMark ∧ part.letter ≠ errorMark) ∧ part.type.IsProper))

instance (limit : Int) : (signature? : Option (Bool × Signature)) → (table : References Scope) →
    Decidable (signatureFits limit signature? table)
  | none, _ => isTrue trivial
  | some (_, signature), table => inferInstanceAs (Decidable (signature.Fits limit table))

instance (limit : Int) (spelling : LoweredSpelling) (table : References Scope) :
    Decidable (spelling.Fits limit table) :=
  inferInstanceAs (Decidable (signatureFits limit spelling.signature? table ∧
    LoweredPart.allFit limit spelling.parameters (writeSignature spelling.signature? table).2 ∧
    LoweredPart.allFit limit spelling.results
      (LoweredPart.writeList spelling.parameters (writeSignature spelling.signature? table).2).2))

def signatureNesting : Option (Bool × Signature) → Nat
  | none => 0
  | some (_, signature) => signature.nesting

/-- The budget that reading a spelling takes. -/
def nesting (spelling : LoweredSpelling) : Nat :=
  max (signatureNesting spelling.signature?)
    (max (LoweredPart.allNesting spelling.parameters) (LoweredPart.allNesting spelling.results)) + 3

end LoweredSpelling

namespace LoweredFunction

/-- The signature and the types can be mangled. -/
def IsProper (f : LoweredFunction) : Prop :=
  (∀ signature ∈ f.signature?, signature.2.IsProper) ∧
    (∀ parameter ∈ f.parameters, parameter.type.IsProper) ∧ ∀ result ∈ f.results, result.type.IsProper

instance : DecidablePred IsProper := fun f =>
  inferInstanceAs (Decidable ((∀ signature ∈ f.signature?, signature.2.IsProper) ∧
    (∀ parameter ∈ f.parameters, parameter.type.IsProper) ∧
      ∀ result ∈ f.results, result.type.IsProper))

lemma spelling_isProper {f : LoweredFunction} (h : f.IsProper) : f.spelling.IsProper := by
  obtain ⟨hsignature, hparameters, hresults⟩ := h
  have hparameter : ∀ convention : ParameterConvention, convention.letter.toUInt8 ≠ endMark := by
    intro convention
    cases convention <;> decide
  have hresult : ∀ convention : ResultConvention, convention.letter.toUInt8 ≠ endMark ∧
      convention.letter.toUInt8 ≠ errorMark := by
    intro convention
    cases convention <;> decide
  exact ⟨hsignature,
    List.forall_mem_map.2 fun parameter hmem => ⟨.inr (hparameter _), hparameters parameter hmem⟩,
    List.forall_mem_map.2 fun result hmem => ⟨.inr (hresult _), hresults result hmem⟩⟩

/-- What is spelled item by item is there again. -/
lemma mapM_map_some {α β : Type} {spell : α → β} {read? : β → Option α}
    (h : ∀ item, read? (spell item) = some item) (items : List α) :
    (items.map spell).mapM read? = some items := by
  induction items with
  | nil => rfl
  | cons item items ih =>
    rw [List.map_cons, List.mapM_cons, h, ih]
    rfl

lemma parameter?_spelling (parameter : LoweredParameter) :
    parameter.spelling.parameter? = some parameter := by
  obtain ⟨convention, type⟩ := parameter
  cases convention <;> rfl

lemma result?_spelling (result : LoweredResult) : result.spelling.result? = some result := by
  obtain ⟨isError, convention, type⟩ := result
  cases convention <;> rfl

/-- The spelling of a function type stands for it. -/
lemma function?_spelling (f : LoweredFunction) : f.spelling.function? = some f := by
  obtain ⟨callee, attribute?, signature?, parameters, results⟩ := f
  have hcallee : CalleeConvention.ofLetter? (Bytes.char callee.letter.toUInt8) = some callee := by
    cases callee <;> rfl
  have hattribute : LoweredSpelling.attributes? (attribute?.map (·.letter.toUInt8)) =
      some attribute? := by
    cases attribute? with
    | none => rfl
    | some way => cases way <;> rfl
  simp only [LoweredSpelling.function?, spelling, hcallee, hattribute,
    mapM_map_some parameter?_spelling, mapM_map_some result?_spelling]
  rfl

end LoweredFunction

end Mangle

namespace Grammar

open Mangle (Writer Scope CalleeConvention FunctionAttribute ParameterConvention ResultConvention
  LoweredPart LoweredResult LoweredSpelling LoweredFunction Signature TypeExpr ascii endMark errorMark)
open Mangle.Writer (emit)
open Mangle.LoweredFunction (conventionTree attributeTrees signatureTrees parameterTree resultTree)

variable {limit : Int} {table : References Scope} {budget : Nat}

section Letters

/-- A letter is no mark of another letter. -/
lemma misses_of_ne {letter b : UInt8} (h : letter ≠ b) {mark : Text}
    (hmark : mark.map Fin.val = [b.toNat]) : [letter].all (misses · mark) := by
  cases mark with
  | nil => cases hmark
  | cons c mark =>
    obtain ⟨hc, -⟩ := List.cons.inj hmark
    have hne : c.val ≠ letter.toNat := fun hb => h (UInt8.toNat_inj.1 (hb.symm.trans hc))
    rw [List.all_cons, List.all_nil, Bool.and_true]
    exact bne_iff_ne.2 hne

lemma letter_begins (letter : UInt8) (rest : Bytes) : Bytes.Begins (letter :: rest) [letter] :=
  ⟨letter, rest, rfl, List.mem_singleton_self letter⟩

lemma convention?_callee {c : Char} (h : c ≠ 't') :
    (convention? c).bind Convention.callee = (CalleeConvention.ofLetter? c).map CalleeConvention.name := by
  fun_cases convention? c with
  | case9 => simp only [CalleeConvention.ofLetter?, Option.bind_none, Option.map_none]
  | _ => rfl

lemma convention?_parameter (c : Char) :
    (convention? c).bind Convention.parameter =
      (ParameterConvention.ofLetter? c).map ParameterConvention.name := by
  fun_cases convention? c with
  | case9 => simp only [ParameterConvention.ofLetter?, Option.bind_none, Option.map_none]
  | _ => rfl

lemma convention?_result (c : Char) :
    (convention? c).bind Convention.result = (ResultConvention.ofLetter? c).map ResultConvention.name := by
  fun_cases convention? c with
  | case9 => simp only [ResultConvention.ofLetter?, Option.bind_none, Option.map_none]
  | _ => rfl

lemma functionAttribute?_eq (c : Char) :
    functionAttribute? c = (FunctionAttribute.ofLetter? c).map FunctionAttribute.name := by
  fun_cases functionAttribute? c with
  | case6 => simp only [FunctionAttribute.ofLetter?, Option.map_none]
  | _ => rfl

/-- A parameter or a result begins with its mark or with its letter. -/
lemma part_begins {part : LoweredPart} (hletter : part.isMarked ∨ part.letter ≠ endMark)
    (table : References Scope) :
    ∃ b, b ≠ endMark ∧ (part.write table).1.Begins [b] := by
  obtain ⟨marked, letter, type⟩ := part
  cases marked with
  | true => exact ⟨errorMark, by decide, .cons rfl⟩
  | false =>
    exact ⟨letter, hletter.resolve_left Bool.false_ne_true, (letter_begins letter []).append _⟩

/-- A letter is read as what it says in its place, or is refused. -/
lemma convention_readsAs (place : Convention → Option String) (letter : UInt8) :
    ReadsAs anyRest limit table (convention place) (emit [letter])
      ((convention? (Bytes.char letter)).bind place) := by
  intro rest _
  show ((orRefuse (convention? (Bytes.char letter)) >>= fun convention => next >>= fun _ =>
    orRefuse (place convention)) limit ⟨letter :: rest, _⟩).Is _ _
  cases convention? (Bytes.char letter) with
  | none => exact ⟨_, rfl⟩
  | some convention =>
    show ((orRefuse (place convention)) limit ⟨rest, _⟩).Is (place convention) _
    cases place convention with
    | none => exact ⟨_, rfl⟩
    | some name => rfl

lemma calleeConvention_readsAs (letter : UInt8) :
    ReadsAs anyRest limit table calleeConvention (emit [letter])
      ((CalleeConvention.ofLetter? (Bytes.char letter)).map CalleeConvention.name) := by
  by_cases hthin : Bytes.char letter = 't'
  · obtain rfl := Bytes.eq_of_char hthin
    exact fun _ _ => rfl
  · have hother : letter ≠ 0x74 := by
      rintro rfl
      exact hthin rfl
    rw [← convention?_callee hthin]
    exact .before (letter_begins letter []) (fun b hb => skip "t" hb (misses_of_ne hother rfl) _ _ limit)
      (convention_readsAs Convention.callee letter)

end Letters

section Parts

variable (hfew : Decimal.digitCount limit < Decimal.maxDigits)
include hfew

/-- A letter and a type. -/
lemma conventionType_readsAs (kind : Kind) (place : Convention → Option String) (letter : UInt8)
    {type : TypeExpr} (hproper : type.IsProper) (hfits : type.Fits limit table)
    (hbudget : type.nesting < budget) :
    ReadsAs anyRest limit table (conventionType (parse budget) kind place) (emit [letter] ++ type.write)
      (((convention? (Bytes.char letter)).bind place).bind fun name =>
        some (.branch kind [conventionTree name, type.tree])) :=
  (convention_readsAs place letter).bind (fun _ _ => trivial) fun _ _ =>
    ((type_readsBack hfew hproper hfits hbudget).finish fun _ => rfl).readsAs _

lemma parameter_readsAs {part : LoweredPart} (hproper : part.type.IsProper)
    (hfits : part.type.Fits limit table) (hbudget : part.type.nesting < budget) :
    ReadsAs anyRest limit table (parameter (parse budget)) part.write
      (part.parameter?.map parameterTree) := by
  obtain ⟨marked, letter, type⟩ := part
  by_cases hmark : marked = true ∨ letter = errorMark
  · obtain rfl | rfl := hmark
    · exact fun _ _ => ⟨_, rfl⟩
    · cases marked <;> exact fun _ _ => ⟨_, rfl⟩
  · obtain ⟨rfl, hletter⟩ : marked = false ∧ letter ≠ errorMark := by simpa using hmark
    have hpart := conventionType_readsAs hfew .implParameter Convention.parameter letter hproper hfits
      hbudget
    have hvalue : LoweredPart.parameter? ⟨false, letter, type⟩ =
        (ParameterConvention.ofLetter? (Bytes.char letter)).map (⟨·, type⟩) := rfl
    rw [convention?_parameter, Option.bind_map] at hpart
    rw [hvalue, Option.map_map, Option.map_eq_bind]
    exact .before ((letter_begins letter []).append _)
      (fun b hb => skip "z" hb (misses_of_ne hletter rfl) _ _ limit) hpart

/-- The node is that of an error result. -/
def isErrorResult (node : Node) : Bool :=
  node.kind = .implErrorResult

/-- A result is refused if it is a second error result. -/
lemma result_readsAs {part : LoweredPart} (hletter : part.isMarked ∨ part.letter ≠ errorMark)
    (hproper : part.type.IsProper) (hfits : part.type.Fits limit table)
    (hbudget : part.type.nesting < budget) (earlier : List Node) :
    ReadsAs anyRest limit table (result (parse budget) earlier) part.write
      ((part.result?.filter fun result => !(result.isError && earlier.any isErrorResult)).map resultTree) := by
  obtain ⟨marked, letter, type⟩ := part
  have hpart := fun kind => conventionType_readsAs hfew kind Convention.result letter hproper hfits
    hbudget
  simp only [convention?_result] at hpart
  cases marked with
  | true =>
    have hvalue : ((LoweredPart.result? ⟨true, letter, type⟩).filter
          fun result => !(result.isError && earlier.any isErrorResult)).map resultTree =
        (((ResultConvention.ofLetter? (Bytes.char letter)).map ResultConvention.name).bind fun name =>
          some (.branch .implErrorResult [conventionTree name, type.tree])).bind fun node =>
            if earlier.any isErrorResult then none else some node := by
      unfold LoweredPart.result?
      cases ResultConvention.ofLetter? (Bytes.char letter) with
      | none => rfl
      | some convention => cases earlier.any isErrorResult <;> rfl
    rw [hvalue]
    refine .after (ascii "z") (fun _ _ => rfl) ((hpart .implErrorResult).finish fun node _ s => ?_)
    show ((if earlier.any isErrorResult then Grammar.refuse else pure node : Parser Node) limit s).Is _ s
    cases earlier.any isErrorResult with
    | true => exact ⟨s, rfl⟩
    | false => rfl
  | false =>
    have hvalue : ((LoweredPart.result? ⟨false, letter, type⟩).filter
          fun result => !(result.isError && earlier.any isErrorResult)).map resultTree =
        ((ResultConvention.ofLetter? (Bytes.char letter)).map ResultConvention.name).bind fun name =>
          some (.branch .implResult [conventionTree name, type.tree]) := by
      unfold LoweredPart.result?
      cases ResultConvention.ofLetter? (Bytes.char letter) <;> rfl
    have hunmarked : letter ≠ errorMark := hletter.resolve_left Bool.false_ne_true
    rw [hvalue]
    exact .before ((letter_begins letter []).append _)
      (fun b hb => skip "z" hb (misses_of_ne hunmarked rfl) _ _ limit) (hpart .implResult)

end Parts

section Lists

/-- The nodes of parts that stand after others, where a node depends on those before it. -/
def nodes? (node? : List Node → LoweredPart → Option Node) :
    List Node → List LoweredPart → Option (List Node)
  | _, [] => some []
  | earlier, part :: rest =>
    (node? earlier part).bind fun node => (nodes? node? (node :: earlier) rest).map (node :: ·)

/-- Parts are read one by one up to the underscore after the last one, or one of them is refused. -/
lemma parts_readsList {item : List Node → Parser Node} {node? : List Node → LoweredPart → Option Node}
    {parts : List LoweredPart} (hletters : ∀ part ∈ parts, part.isMarked ∨ part.letter ≠ endMark)
    (hitem : ∀ part ∈ parts, ∀ table, part.type.Fits limit table → part.type.nesting < budget →
      ∀ earlier, ReadsAs anyRest limit table (item earlier) part.write (node? earlier part))
    (hfits : LoweredPart.allFit limit parts table) (hbudget : LoweredPart.allNesting parts ≤ budget)
    (earlier : List Node) :
    ReadsList anyRest limit table (accept "_") item earlier
      (LoweredPart.writeList parts) (nodes? node? earlier parts) := by
  induction parts generalizing table earlier with
  | nil => exact readsList_nil fun _ _ => rfl
  | cons part rest ih =>
    rw [List.forall_mem_cons] at hletters hitem
    obtain ⟨hfits, hfitsRest⟩ := hfits
    obtain ⟨hnesting, hnestingRest⟩ := Nat.max_le.1 hbudget
    obtain ⟨first, hfirst, hbegins⟩ := part_begins hletters.1 table
    rw [LoweredPart.writeList, LoweredPart.writeAll, Writer.append_assoc]
    exact readsList_cons hbegins
      (fun b hb => accept_of_misses (misses_of_mem "_" hb (misses_of_ne hfirst rfl)) limit)
      (hitem.1 table hfits hnesting earlier) (fun _ _ => trivial)
      fun value _ => ih hletters.2 hitem.2 hfitsRest hnestingRest (value :: earlier)

lemma nodes?_parameters (earlier : List Node) (parts : List LoweredPart) :
    nodes? (fun _ part => part.parameter?.map parameterTree) earlier parts =
      (parts.mapM LoweredPart.parameter?).map (·.map parameterTree) := by
  induction parts generalizing earlier with
  | nil => rfl
  | cons part rest ih =>
    rw [nodes?, List.mapM_cons]
    cases part.parameter? with
    | none => rfl
    | some first =>
      simp only [Option.map_some, Option.bind_some, ih]
      cases rest.mapM LoweredPart.parameter? <;> rfl

/-- There is one error result at most, along with one that may have been seen before. -/
def onlyError : Bool → List LoweredResult → Bool
  | _, [] => true
  | seen, result :: rest => !(result.isError && seen) && onlyError (result.isError || seen) rest

lemma onlyError_true (results : List LoweredResult) :
    onlyError true results = decide (results.countP (·.isError) = 0) := by
  induction results with
  | nil => rfl
  | cons result rest ih =>
    rw [onlyError, Bool.or_true, ih, List.countP_cons]
    cases result.isError <;> simp

lemma onlyError_false (results : List LoweredResult) :
    onlyError false results = decide (results.countP (·.isError) ≤ 1) := by
  induction results with
  | nil => rfl
  | cons result rest ih =>
    rw [onlyError, Bool.or_false, Bool.and_false, Bool.not_false, Bool.true_and, List.countP_cons]
    cases result.isError with
    | true => simp [onlyError_true]
    | false => exact ih

lemma isErrorResult_resultTree (result : LoweredResult) :
    isErrorResult (resultTree result) = result.isError := by
  unfold resultTree
  cases result.isError <;> rfl

lemma nodes?_results (earlier : List Node) (parts : List LoweredPart) :
    nodes? (fun earlier part =>
        (part.result?.filter fun result => !(result.isError && earlier.any isErrorResult)).map resultTree)
      earlier parts =
      ((parts.mapM LoweredPart.result?).filter (onlyError (earlier.any isErrorResult))).map
        (·.map resultTree) := by
  induction parts generalizing earlier with
  | nil => rfl
  | cons part rest ih =>
    rw [nodes?, List.mapM_cons]
    cases part.result? with
    | none => rfl
    | some first =>
      simp only [Option.filter_some, ih]
      cases hkept : !(first.isError && earlier.any isErrorResult) with
      | true =>
        cases rest.mapM LoweredPart.result? with
        | none => rfl
        | some results => simp [Option.filter_some, onlyError, hkept, isErrorResult_resultTree]
      | false =>
        cases rest.mapM LoweredPart.result? with
        | none => rfl
        | some results => simp [Option.filter_some, onlyError, hkept]

end Lists

section Functions

/-- What stands before the parameters, after the attribute. -/
def AtSignature (rest : Bytes) : Prop :=
  rest.Begins (ascii "Gg_")

/-- The lists of a lowered function type, after what stands before them. -/
def functionLists (call : Calls) (before : List Node) : Parser Node := do
  let parameters ← gather (accept "_") fun _ => parameter call
  let results ← gather (accept "_") (result call)
  branch .implFunctionType ((before ++ parameters ++ results).map some)

lemma attributes_readsAs (attribute? : Option UInt8) :
    ReadsAs AtSignature limit table functionAttributes
      (emit (LoweredSpelling.attributeCode attribute?))
      ((LoweredSpelling.attributes? attribute?).map attributeTrees) := by
  intro rest hrest
  cases attribute? with
  | none =>
    obtain ⟨b, unread, rfl, hb⟩ := hrest
    exact skip "C" hb rfl _ (pure []) limit unread _
  | some letter =>
    show ((orRefuse (functionAttribute? (Bytes.char letter)) >>= fun name =>
      pure [Node.named .implFunctionAttribute name]) limit ⟨rest, _⟩).Is
        (((FunctionAttribute.ofLetter? (Bytes.char letter)).map some).map attributeTrees) _
    rw [functionAttribute?_eq]
    cases FunctionAttribute.ofLetter? (Bytes.char letter) with
    | none => exact ⟨_, rfl⟩
    | some way => rfl

variable (hfew : Decimal.digitCount limit < Decimal.maxDigits)
include hfew

lemma functionSignature_readsAs {signature? : Option (Bool × Signature)}
    (hproper : ∀ signature ∈ signature?, signature.2.IsProper)
    (hfits : LoweredSpelling.signatureFits limit signature? table)
    (hbudget : LoweredSpelling.signatureNesting signature? ≤ budget) :
    ReadsAs (fun rest => rest.Begins (ascii "_")) limit table (functionSignature (parse budget))
      (LoweredSpelling.writeSignature signature?) (some (signatureTrees signature?)) := by
  cases signature? with
  | none =>
    rintro rest ⟨b, unread, rfl, hb⟩
    exact (skip "G" hb rfl _ _ limit unread _).trans (skip "g" hb rfl _ (pure []) limit unread _)
  | some signature =>
    obtain ⟨pseudogeneric, signature⟩ := signature
    have hread := signature_readsBack hfew pseudogeneric (hproper _ rfl) hfits hbudget
    have hone : ReadsBack limit table
        (do let signature ← parse budget (.signature pseudogeneric); pure [signature]) signature.write
        [signature.tree (signatureKind pseudogeneric)] := hread.finish fun _ => rfl
    cases pseudogeneric with
    | true => exact (ReadsBack.after (ascii "g") (fun _ _ => rfl) hone).readsAs _
    | false => exact (ReadsBack.after (ascii "G") (fun _ _ => rfl) hone).readsAs _

lemma parameters_readsAs {parts : List LoweredPart}
    (hproper : ∀ part ∈ parts, (part.isMarked ∨ part.letter ≠ endMark) ∧ part.type.IsProper)
    (hfits : LoweredPart.allFit limit parts table) (hbudget : LoweredPart.allNesting parts ≤ budget) :
    ReadsAs anyRest limit table (gather (accept "_") fun _ => parameter (parse budget))
      (LoweredPart.writeList parts) ((parts.mapM LoweredPart.parameter?).map (·.map parameterTree)) := by
  rw [← nodes?_parameters []]
  exact gather_readsAs (parts_readsList (fun part hpart => (hproper part hpart).1)
    (fun part hpart table hfits hnesting _ =>
      parameter_readsAs hfew (hproper part hpart).2 hfits hnesting) hfits hbudget [])

lemma results_readsAs {parts : List LoweredPart}
    (hproper : ∀ part ∈ parts,
      (part.isMarked ∨ part.letter ≠ endMark ∧ part.letter ≠ errorMark) ∧ part.type.IsProper)
    (hfits : LoweredPart.allFit limit parts table) (hbudget : LoweredPart.allNesting parts ≤ budget) :
    ReadsAs anyRest limit table (gather (accept "_") (result (parse budget)))
      (LoweredPart.writeList parts)
      (((parts.mapM LoweredPart.result?).filter (onlyError false)).map (·.map resultTree)) := by
  have hread := gather_readsAs (parts_readsList
    (fun part hpart => (hproper part hpart).1.imp_right And.left)
    (fun part hpart table hfits hnesting => result_readsAs hfew
      ((hproper part hpart).1.imp_right And.right) (hproper part hpart).2 hfits hnesting)
    hfits hbudget [])
  rwa [nodes?_results] at hread

omit hfew in
/-- The function type that a spelling stands for, from its parts in the order in which they are read. -/
lemma function?_bind (spelling : LoweredSpelling) :
    (spelling.function?.bind fun f => if f.errors ≤ 1 then some f.bareTree else none) =
      ((CalleeConvention.ofLetter? (Bytes.char spelling.callee)).map CalleeConvention.name).bind
        fun callee =>
      ((LoweredSpelling.attributes? spelling.attribute?).map attributeTrees).bind fun attributes =>
      ((spelling.parameters.mapM LoweredPart.parameter?).map (·.map parameterTree)).bind fun parameters =>
      (((spelling.results.mapM LoweredPart.result?).filter (onlyError false)).map
        (·.map resultTree)).bind fun results =>
      some (.branch .implFunctionType (conventionTree callee :: attributes ++
        signatureTrees spelling.signature? ++ parameters ++ results)) := by
  unfold LoweredSpelling.function?
  cases CalleeConvention.ofLetter? (Bytes.char spelling.callee) with
  | none => rfl
  | some callee =>
  cases LoweredSpelling.attributes? spelling.attribute? with
  | none => rfl
  | some attribute? =>
  cases spelling.parameters.mapM LoweredPart.parameter? with
  | none => rfl
  | some parameters =>
  cases spelling.results.mapM LoweredPart.result? with
  | none => rfl
  | some results =>
    rw [Option.filter_some, onlyError_false]
    by_cases hone : results.countP (·.isError) ≤ 1
    · rw [if_pos (decide_eq_true hone)]
      exact if_pos hone
    · rw [decide_eq_false hone]
      exact if_neg hone

omit hfew in
/-- Before the parameters stands a signature, or an underscore. -/
lemma atSignature (signature? : Option (Bool × Signature)) (back : Writer) (table : References Scope)
    (rest : Bytes) :
    AtSignature (((LoweredSpelling.writeSignature signature? ++ (emit (ascii "_") ++ back)) table).1 ++
      rest) := by
  cases signature? with
  | none => exact .cons rfl
  | some signature =>
    obtain ⟨pseudogeneric, signature⟩ := signature
    cases pseudogeneric with
    | true => exact .cons rfl
    | false => exact .cons rfl

/-- A spelling is read part by part, and all of it is refused where a part is. -/
lemma implFunction_readsAs {spelling : LoweredSpelling} (hproper : spelling.IsProper)
    (hfits : spelling.Fits limit table) (hbudget : spelling.nesting ≤ budget + 3) :
    ReadsAs anyRest limit table (implFunctionBody (parse budget))
      (emit [spelling.callee] ++ (emit (LoweredSpelling.attributeCode spelling.attribute?) ++
        (LoweredSpelling.writeSignature spelling.signature? ++ (emit (ascii "_") ++
          (LoweredPart.writeList spelling.parameters ++ LoweredPart.writeList spelling.results)))))
      (spelling.function?.bind fun f => if f.errors ≤ 1 then some f.bareTree else none) := by
  obtain ⟨hsignature, hlists⟩ := Nat.max_le.1 (Nat.le_of_add_le_add_right hbudget)
  obtain ⟨hparameters, hresults⟩ := Nat.max_le.1 hlists
  rw [function?_bind]
  refine (calleeConvention_readsAs spelling.callee).bind (fun _ _ => trivial) fun callee _ => ?_
  refine (attributes_readsAs spelling.attribute?).bind
    (fun rest _ => atSignature spelling.signature? _ _ rest) fun attributes _ => ?_
  refine (functionSignature_readsAs hfew hproper.1 hfits.1 hsignature).bind_some
    (fun rest _ => .cons rfl)
    (.after (q := functionLists (parse budget) (conventionTree callee :: attributes ++
      signatureTrees spelling.signature?)) (ascii "_") (fun _ _ => rfl) ?_)
  refine (parameters_readsAs hfew hproper.2.1 hfits.2.1 hparameters).bind
    (fun _ _ => trivial) fun parameters _ => ?_
  refine (results_readsAs hfew hproper.2.2 hfits.2.2 hresults).finish fun results _ s => ?_
  rw [branch_map_some]
  rfl

/-- A lowered function type is read as a type. -/
lemma loweredType_readsAs {spelling : LoweredSpelling} (hproper : spelling.IsProper)
    (hfits : spelling.Fits limit table) (hbudget : spelling.nesting ≤ budget) :
    ReadsAs anyRest limit table (parse budget .type) spelling.write
      (spelling.function?.bind fun f => if f.errors ≤ 1 then some f.tree else none) := by
  obtain ⟨budget, rfl⟩ :=
    Nat.exists_eq_add_of_le' (Nat.le_trans (Nat.le_add_left 3 _) hbudget)
  have hvalue : (spelling.function?.bind fun f => if f.errors ≤ 1 then some f.tree else none) =
      (spelling.function?.bind fun f => if f.errors ≤ 1 then some f.bareTree else none).bind
        fun bare => some (.branch .type [bare]) := by
    cases spelling.function? with
    | none => rfl
    | some f => by_cases hone : f.errors ≤ 1 <;> simp [hone, LoweredFunction.tree]
  rw [hvalue, LoweredSpelling.write]
  simp only [Writer.append_assoc]
  exact (ReadsAs.after (p := bareType (parse (budget + 1))) (ascii "XF") (fun _ _ => rfl)
    (implFunction_readsAs hfew hproper hfits hbudget)).finish fun bare _ s => rfl

end Functions

end Grammar

open Mangle (LoweredFunction LoweredSpelling TypeExpr Scope)

/-- Within a large budget a lowered function type is read or refused, and within any other the budget is
exhausted. -/
lemma parseBytes_lowered (settings : Settings) (spelling : LoweredSpelling) (rest : Bytes)
    (hnatural : Decimal.digitCount settings.maxNatural.toInt < Decimal.maxDigits)
    (hproper : spelling.IsProper) (hfits : spelling.Fits settings.maxNatural.toInt []) :
    (parseBytes .type settings.maxDepth.toInt.toNat settings.maxNatural.toInt
        (spelling.mangle ++ rest)).Is
      (spelling.function?.bind fun f => if f.errors ≤ 1 then some f.tree else none)
      ⟨rest, (spelling.write []).2.map Scope.tree⟩ ∨
    RunsOut .type settings (.bytes (spelling.mangle ++ rest)) ∧
      settings.maxDepth.toInt.toNat < spelling.nesting := by
  refine (parseBytes_max .type _ spelling.nesting _ (spelling.mangle ++ rest)).imp_left fun hsame => ?_
  rw [hsame]
  exact Grammar.loweredType_readsAs hnatural hproper hfits (Nat.le_max_right _ _) rest trivial

/-- A lowered function type is read as its conventions, attribute, signature, parameters and results in
order if it has one error result at most, and is no mangling if it has more. A spelling that stands for
none, because a parameter is marked or a letter means nothing in its place, is no mangling either. Only
a budget within the nesting can cut the reading off before that. -/
theorem demangle_loweredFunction (settings : Settings) (rest : Bytes)
    (hnatural : Decimal.digitCount settings.maxNatural.toInt < Decimal.maxDigits) :
    (∀ f : LoweredFunction, f.IsProper → f.spelling.Fits settings.maxNatural.toInt [] →
      (f.errors ≤ 1 →
        (parseBytes .type settings.maxDepth.toInt.toNat settings.maxNatural.toInt
              (f.spelling.mangle ++ rest) =
            .found f.tree ⟨rest, (f.spelling.write []).2.map Scope.tree⟩ ∧
          demangle .type settings (.bytes (f.spelling.mangle ++ rest)) = .tree f.tree) ∨
        RunsOut .type settings (.bytes (f.spelling.mangle ++ rest)) ∧
          settings.maxDepth.toInt.toNat < f.spelling.nesting) ∧
      (2 ≤ f.errors →
        demangle .type settings (.bytes (f.spelling.mangle ++ rest)) = .notMangled ∨
        RunsOut .type settings (.bytes (f.spelling.mangle ++ rest)) ∧
          settings.maxDepth.toInt.toNat < f.spelling.nesting)) ∧
    ∀ spelling : LoweredSpelling, spelling.IsProper → spelling.Fits settings.maxNatural.toInt [] →
      spelling.function? = none →
        demangle .type settings (.bytes (spelling.mangle ++ rest)) = .notMangled ∨
        RunsOut .type settings (.bytes (spelling.mangle ++ rest)) ∧
          settings.maxDepth.toInt.toNat < spelling.nesting := by
  refine ⟨fun f hproper hfits => ⟨fun hone => ?_, fun htwo => ?_⟩, fun spelling hproper hfits hnone => ?_⟩
  · have hread := parseBytes_lowered settings f.spelling rest hnatural
      (LoweredFunction.spelling_isProper hproper) hfits
    rw [LoweredFunction.function?_spelling, Option.bind_some, if_pos hone] at hread
    exact hread.imp_left fun hfound => ⟨hfound, demangle_eq_tree_iff.2 ⟨_, hfound⟩⟩
  · have hread := parseBytes_lowered settings f.spelling rest hnatural
      (LoweredFunction.spelling_isProper hproper) hfits
    rw [LoweredFunction.function?_spelling, Option.bind_some, if_neg (Nat.not_le.2 htwo)] at hread
    refine hread.imp_left ?_
    rintro ⟨s, hrefused⟩
    exact demangle_of_refused hrefused
  · have hread := parseBytes_lowered settings spelling rest hnatural hproper hfits
    rw [hnone] at hread
    refine hread.imp_left ?_
    rintro ⟨s, hrefused⟩
    exact demangle_of_refused hrefused

/-- A thin block of two parameters, to a result and an error result. -/
def throwingBlock : LoweredFunction where
  callee := .thin
  attribute? := some .block
  signature? := some (true, ⟨[1], []⟩)
  parameters := [⟨.owned, .standard .int⟩, ⟨.inOut, .param 0 0⟩]
  results := [⟨true, .owned, .standard .string⟩, ⟨false, .unowned, .standard .bool⟩]

/-- The function type with a second error result, with its first parameter marked, and with the letter
of an autoreleased result on a parameter. -/
theorem demangle_throwingBlock :
    demangle .type {} (.bytes (Mangle.ascii "XFtCbgr_oSilx_zoSSdSb_")) = .tree throwingBlock.tree ∧
      demangle .type {} (.bytes (Mangle.ascii "XFtCbgr_oSilx_zoSSzdSb_")) = .notMangled ∧
      demangle .type {} (.bytes (Mangle.ascii "XFtCbgr_zoSilx_zoSSdSb_")) = .notMangled ∧
      demangle .type {} (.bytes (Mangle.ascii "XFtCbgr_aSilx_zoSSdSb_")) = .notMangled := by
  have hread := demangle_loweredFunction {} [] (by decide)
  have hone := (hread.1 throwingBlock (by decide) (by decide)).1 (by decide)
  have htwo := (hread.1 { throwingBlock with
    results := [⟨true, .owned, .standard .string⟩, ⟨true, .unowned, .standard .bool⟩] }
    (by decide) (by decide)).2 (by decide)
  have hmarked := hread.2 { throwingBlock.spelling with
    parameters := [⟨true, 0x6F, .standard .int⟩, ⟨false, 0x6C, .param 0 0⟩] } (by decide) (by decide) rfl
  have hletter := hread.2 { throwingBlock.spelling with
    parameters := [⟨false, 0x61, .standard .int⟩, ⟨false, 0x6C, .param 0 0⟩] } (by decide) (by decide) rfl
  refine ⟨(hone.resolve_right ?_).2, htwo.resolve_right ?_, hmarked.resolve_right ?_,
    hletter.resolve_right ?_⟩ <;>
  · rintro ⟨-, hnesting⟩
    exact absurd hnesting (by decide)

end SwiftMangling
