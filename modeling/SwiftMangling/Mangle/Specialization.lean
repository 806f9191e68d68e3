import SwiftMangling.Mangle.Entity

/-!
Specialization attributes to be mangled. Each has a table of its own.
-/

namespace SwiftMangling.Mangle

open Writer

/-- The flags of a parameter whose passing changed. -/
structure ParamFlags where
  dead : Bool
  ownedToGuaranteed : Bool
  guaranteedToOwned : Bool
  exploded : Bool
  deriving DecidableEq, Repr, Inhabited

namespace ParamFlags

def code (flags : ParamFlags) : Bytes :=
  (if flags.dead then ascii "d" else []) ++ (if flags.ownedToGuaranteed then ascii "g" else [])
    ++ (if flags.guaranteedToOwned then ascii "o" else [])
    ++ (if flags.exploded then ascii "s" else [])

/-- The flags as bits of one number. -/
def number (flags : ParamFlags) : Nat :=
  (if flags.dead then 64 else 0) ||| (if flags.ownedToGuaranteed then 128 else 0)
    ||| (if flags.exploded then 256 else 0) ||| (if flags.guaranteedToOwned then 512 else 0)

end ParamFlags

/-- What became of a parameter of a specialized function. -/
inductive ParamChange where
  | unchanged
  | boxToValue
  | boxToStack
  | flags (set : ParamFlags)
  | integer (literal : Bytes)
  | float (literal : Bytes)
  | function (name : Bytes)
  | global (name : Bytes)
  | string (wide : Bool) (content : Bytes)
  | closure (name : Bytes) (types : List TypeExpr)
  deriving Inhabited

namespace ParamChange

def write : ParamChange → Writer
  | unchanged => emit (ascii "n_")
  | boxToValue => emit (ascii "i_")
  | boxToStack => emit (ascii "k_")
  | flags set => emit (set.code ++ ascii "_")
  | integer literal => emit (ascii "cpi" ++ literal ++ ascii "_")
  | float literal => emit (ascii "cpfl" ++ literal ++ ascii "_")
  | function name => emit (ascii "cpfr" ++ identifier name ++ ascii "_")
  | global name => emit (ascii "cpg" ++ identifier name ++ ascii "_")
  | string wide content =>
    emit (ascii (if wide then "cpse1v" else "cpse0v") ++ identifier content ++ ascii "_")
  | closure name types =>
    emit (ascii "cl" ++ identifier name) ++ TypeExpr.writeAll types ++ emit (ascii "_")

def numberTree (number : Nat) : Node :=
  .numbered .functionSignatureSpecializationParamKind number

def payloadTree (content : Bytes) : Node :=
  nameNode .functionSignatureSpecializationParamPayload content

def trees : ParamChange → List Node
  | unchanged => []
  | boxToValue => [numberTree 6]
  | boxToStack => [numberTree 7]
  | flags set => [numberTree set.number]
  | integer literal => [numberTree 2, payloadTree literal]
  | float literal => [numberTree 3, payloadTree literal]
  | function name => [numberTree 0, payloadTree name]
  | global name => [numberTree 1, payloadTree name]
  | string wide content =>
    [numberTree 4, payloadTree (ascii (if wide then "u16" else "u8")), payloadTree content]
  | closure name types => numberTree 5 :: payloadTree name :: TypeExpr.trees types

def writeAll : List ParamChange → Writer
  | [] => emit []
  | change :: rest => change.write ++ writeAll rest

/-- The trees of parameters, numbered from a position on. -/
def treesFrom : Nat → List ParamChange → List Node
  | _, [] => []
  | position, change :: rest =>
    .numbered .functionSignatureSpecializationParam position change.trees
      :: treesFrom (position + 1) rest

end ParamChange

/-- A type that conforms to a protocol of a module, and where it does. -/
structure Conformance where
  type : TypeExpr
  module : Bytes
  name : Bytes
  context : Context
  deriving Inhabited

namespace Conformance

def write (conformance : Conformance) : Writer :=
  conformance.type.write ++ Scope.writeProtocol (.root conformance.module) conformance.name
    ++ conformance.context.write

def writeAll : List Conformance → Writer
  | [] => emit []
  | conformance :: rest => conformance.write ++ writeAll rest

def tree (conformance : Conformance) : Node :=
  .branch .protocolConformance
    [conformance.type.tree, protocolTree conformance.module conformance.name,
      conformance.context.tree]

end Conformance

/-- A type that a generic function is specialized for, with its conformances. -/
structure GenericArgument where
  type : TypeExpr
  conformances : List Conformance
  deriving Inhabited

namespace GenericArgument

def write (argument : GenericArgument) : Writer :=
  argument.type.write ++ Conformance.writeAll argument.conformances ++ emit (ascii "_")

def writeAll : List GenericArgument → Writer
  | [] => emit []
  | argument :: rest => argument.write ++ writeAll rest

def tree (argument : GenericArgument) : Node :=
  .branch .genericSpecializationParam
    (argument.type.tree :: argument.conformances.map Conformance.tree)

end GenericArgument

/-- What a function is specialized for. -/
inductive SpecializationForm where
  | generic (reabstracted : Bool) (arguments : List GenericArgument)
  | signature (changes : List ParamChange)
  deriving Inhabited

/-- A specialization attribute; the pass that made it has a number below ten. -/
structure Specialization where
  form : SpecializationForm
  serialized : Bool
  pass : Fin 10
  deriving Inhabited

namespace Specialization

def letter : SpecializationForm → Bytes
  | .generic true _ => ascii "g"
  | .generic false _ => ascii "r"
  | .signature _ => ascii "f"

def kind : SpecializationForm → Kind
  | .generic true _ => .genericSpecialization
  | .generic false _ => .genericSpecializationNotReAbstracted
  | .signature _ => .functionSignatureSpecialization

def writeForm : SpecializationForm → Writer
  | .generic _ arguments => GenericArgument.writeAll arguments
  | .signature changes => ParamChange.writeAll changes

def paramTrees : SpecializationForm → List Node
  | .generic _ arguments => arguments.map GenericArgument.tree
  | .signature changes => ParamChange.treesFrom 0 changes

def write (specialization : Specialization) : Writer :=
  emit (letter specialization.form ++ (if specialization.serialized then ascii "q" else [])
      ++ natural specialization.pass)
    ++ writeForm specialization.form ++ emit (ascii "_")

def tree (specialization : Specialization) : Node :=
  .branch (kind specialization.form)
    ((if specialization.serialized then [.branch .isSerialized []] else [])
      ++ .numbered .specializationPassID specialization.pass.val
      :: paramTrees specialization.form)

/-- The block of an attribute at the front of a symbol. -/
def block (specialization : Specialization) : Bytes :=
  ascii "_TTS" ++ (specialization.write []).1

end Specialization

end SwiftMangling.Mangle
