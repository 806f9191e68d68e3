import SwiftMangling.Node.Basic

/-!
The shapes of symbol trees. The kind of a node says what the node carries and which children it has in
which order, so that a tree can be read by position. A node is checked against its kind and the kinds of
its children; now and then a child has to have children of its own of certain kinds.
-/

namespace SwiftMangling

/-- What a node carries besides its children. -/
inductive Carried where
  | nothing
  | text
  | index
  deriving DecidableEq, Repr

def Payload.carried : Payload → Carried
  | .empty => .nothing
  | .text _ => .text
  | .index _ => .index

/-- What a child is tested for. -/
inductive Test where
  | isOf (kinds : List Kind)
  | isTypeOf (kinds : List Kind)
  /-- A list of types that are protocols. -/
  | isProtocolTypes
  /-- A list of types that is not empty. -/
  | isArguments
  /-- An element of a tuple that is not variadic. -/
  | isPlainElement
  deriving DecidableEq, Repr

/-- Whether a node is a type of some kinds. -/
def Node.isTypeOf (kinds : List Kind) : Node → Bool
  | mk .type _ [bare] => bare.kind ∈ kinds
  | _ => false

namespace Test

def passes : Test → Node → Bool
  | isOf kinds, node => node.kind ∈ kinds
  | isTypeOf kinds, node => node.isTypeOf kinds
  | isProtocolTypes, .mk .typeList _ types => types.all (Node.isTypeOf [.protocolDecl])
  | isArguments, .mk .typeList _ (_ :: _) => true
  | isPlainElement, .mk .tupleElement _ children =>
    children.all fun child => child.kind ≠ .variadicMarker
  | _, _ => false

end Test

/-- A place for children that pass a test: for one, for one at most, or for any number of them. -/
inductive Place where
  | one (test : Test)
  | optional (test : Test)
  | many (test : Test)
  deriving DecidableEq, Repr

namespace Place

/-- The children that may be left for other places after those that pass a test. -/
def restsMany (test : Test) : List Node → List (List Node)
  | [] => [[]]
  | child :: children =>
    (child :: children) :: if test.passes child then restsMany test children else []

/-- The children that may be left for other places after this one. -/
def rests : Place → List Node → List (List Node)
  | one _, [] => []
  | one test, child :: children => if test.passes child then [children] else []
  | optional _, [] => [[]]
  | optional test, child :: children =>
    (child :: children) :: if test.passes child then [children] else []
  | many test, children => restsMany test children

/-- Whether children fill places in order. -/
def areFilled : List Place → List Node → Bool
  | [], children => children.isEmpty
  | place :: places, children => (place.rests children).any (areFilled places)

end Place

namespace Kind

/-- What the nodes of a kind carry. -/
def carried : Kind → Carried
  | suffix | moduleName | identifier | prefixOperator | postfixOperator | infixOperator
  | tupleElementName | builtinTypeName | errorType | metatypeRepresentation
  | dependentGenericParamType | dependentAssociatedTypeRef
  | functionSignatureSpecializationParamPayload | implConvention | implFunctionAttribute => .text
  | number | index | dependentGenericParamCount | valueWitness | directness | specializationPassID
  | functionSignatureSpecializationParam | functionSignatureSpecializationParamKind => .index
  | _ => .nothing

section Families

def names : List Kind :=
  [identifier, prefixOperator, postfixOperator, infixOperator]

/-- The names of declarations. -/
def declNames : List Kind :=
  names ++ [localDeclName, privateDeclName]

/-- Declared types. -/
def declared : List Kind :=
  [classDecl, structureDecl, enumDecl, protocolDecl, typeAlias]

/-- What a substitution can stand for. -/
def referable : List Kind :=
  declared ++ [moduleName, dependentAssociatedTypeRef, associatedTypeRef]

def boundGenerics : List Kind :=
  [boundGenericClass, boundGenericStructure, boundGenericEnum]

def addressors : List Kind :=
  [owningAddressor, nativeOwningAddressor, nativePinningAddressor, unsafeAddressor,
   owningMutableAddressor, nativeOwningMutableAddressor, nativePinningMutableAddressor,
   unsafeMutableAddressor]

def accessors : List Kind :=
  [getter, globalGetter, setter, materializeForSet, willSet, didSet, readAccessor,
   modifyAccessor] ++ addressors

/-- Members that have neither a name nor a type. -/
def untypedMembers : List Kind :=
  [deallocator, destructor, ivarInitializer, ivarDestroyer]

/-- Members that have a type and no name. -/
def unnamedMembers : List Kind :=
  [allocator, constructor]

def closures : List Kind :=
  [explicitClosure, implicitClosure]

/-- What can be static. -/
def members : List Kind :=
  [function, variableDecl, initializer, subscript, defaultArgumentInitializer] ++ untypedMembers ++
    unnamedMembers ++ accessors ++ closures

/-- What a declaration can stand in. -/
def scopes : List Kind :=
  referable ++ boundGenerics ++ [extensionContext, staticMember] ++ members

def functionTypes : List Kind :=
  [functionType, uncurriedFunctionType, objCBlock, cFunctionPointer, autoClosureType,
   thinFunctionType]

/-- Generic parameters and their member types. -/
def dependents : List Kind :=
  [dependentGenericParamType, dependentMemberType]

/-- The kinds of types without their wrapping node. -/
def bareTypes : List Kind :=
  referable ++ boundGenerics ++ functionTypes ++ dependents ++
    [builtinTypeName, dynamicSelf, errorType, metatype, existentialMetatype, protocolList, inOut, tuple,
     dependentGenericType, silBoxType, silBoxTypeWithLayout, unowned, unmanaged, weak,
     implFunctionType]

def requirements : List Kind :=
  [dependentGenericSameTypeRequirement, dependentGenericLayoutRequirement,
   dependentGenericConformanceRequirement]

def specializations : List Kind :=
  [genericSpecialization, genericSpecializationNotReAbstracted, functionSignatureSpecialization]

/-- Attributes of a symbol that take no argument. -/
def attributes : List Kind :=
  [objCAttribute, nonObjCAttribute, dynamicAttribute, directMethodReferenceAttribute,
   vtableAttribute]

/-- Metadata of a type. -/
def metadata : List Kind :=
  [genericTypeMetadataPattern, typeMetadataAccessFunction, typeMetadataLazyCache, metaclass,
   nominalTypeDescriptor, fullTypeMetadata, typeMetadata]

/-- Witnesses that are made of a conformance alone. -/
def conformanceWitnesses : List Kind :=
  [protocolWitnessTable, genericProtocolWitnessTable,
   genericProtocolWitnessTableInstantiationFunction, protocolWitnessTableAccessor]

/-- Witnesses that are made of a type and a conformance. -/
def lazyWitnesses : List Kind :=
  [lazyProtocolWitnessTableAccessor, lazyProtocolWitnessTableCacheVariable]

/-- What a symbol can be about. -/
def globals : List Kind :=
  scopes ++ metadata ++ conformanceWitnesses ++ lazyWitnesses ++
    [protocolDescriptor, partialApplyForwarder, partialApplyObjCForwarder, typeMangling, valueWitness,
     fieldOffset, valueWitnessTable, associatedTypeMetadataAccessor,
     associatedTypeWitnessTableAccessor, reabstractionThunk, reabstractionThunkHelper,
     protocolWitness]

end Families

open Place Test

/-- The shapes that the children of a node of a kind can have. -/
def shapes : Kind → List (List Place)
  | global =>
    [[one (isOf specializations), many (isOf specializations), one (isOf globals),
      optional (isOf [suffix])],
     [optional (isOf attributes), one (isOf globals), optional (isOf [suffix])]]
  | type => [[one (isOf bareTypes)]]
  | inOut => [[one (isOf bareTypes)]]
  | typeList => [[many (isOf [type])]]
  | localDeclName => [[one (isOf [number]), one (isOf names)]]
  | privateDeclName => [[one (isOf names), optional (isOf names)]]
  | classDecl | structureDecl | enumDecl | protocolDecl | typeAlias =>
    [[one (isOf scopes), one (isOf declNames)]]
  | boundGenericClass => [[one (isTypeOf [classDecl]), one isArguments]]
  | boundGenericStructure => [[one (isTypeOf [structureDecl]), one isArguments]]
  | boundGenericEnum => [[one (isTypeOf [enumDecl]), one isArguments]]
  | extensionContext =>
    [[one (isOf [moduleName]), one (isOf scopes), optional (isOf [dependentGenericSignature])]]
  | function => [[one (isOf scopes), one (isOf declNames), one (isOf [type])]]
  | variableDecl => [[one (isOf scopes), one (isOf declNames), optional (isOf [type])]]
  | subscript =>
    [[one (isOf scopes), one (isOf declNames), optional (isOf [type])],
     [one (isOf scopes), one (isOf [type]), optional (isOf [privateDeclName])]]
  | initializer | deallocator | destructor | ivarInitializer | ivarDestroyer =>
    [[one (isOf scopes)]]
  | allocator | constructor => [[one (isOf scopes), one (isOf [type])]]
  | getter | globalGetter | setter | materializeForSet | willSet | didSet | readAccessor
  | modifyAccessor | owningAddressor | nativeOwningAddressor | nativePinningAddressor
  | unsafeAddressor | owningMutableAddressor | nativeOwningMutableAddressor
  | nativePinningMutableAddressor | unsafeMutableAddressor =>
    [[one (isOf [variableDecl, subscript])]]
  | explicitClosure | implicitClosure =>
    [[one (isOf scopes), one (isOf [number]), optional (isOf [type])]]
  | defaultArgumentInitializer => [[one (isOf scopes), one (isOf [number])]]
  | staticMember => [[one (isOf members)]]
  | tuple => [[many isPlainElement, optional (isOf [tupleElement])]]
  | tupleElement =>
    [[optional (isOf [tupleElementName]), one (isOf [type]), optional (isOf [variadicMarker])]]
  | functionType | uncurriedFunctionType | objCBlock | cFunctionPointer | autoClosureType
  | thinFunctionType =>
    [[optional (isOf [throwsMark]), one (isOf [argumentTuple]), one (isOf [returnType])]]
  | metatype | existentialMetatype =>
    [[optional (isOf [metatypeRepresentation]), one (isOf [type])]]
  | argumentTuple | returnType | dynamicSelf | unowned | unmanaged | weak | silBoxType
  | silBoxMutableField | silBoxImmutableField | typeMangling | genericTypeMetadataPattern
  | typeMetadataAccessFunction | typeMetadataLazyCache | metaclass | nominalTypeDescriptor
  | fullTypeMetadata | typeMetadata | valueWitness | valueWitnessTable =>
    [[one (isOf [type])]]
  | protocolList => [[one isProtocolTypes]]
  | protocolConformance => [[one (isOf [type]), one (isTypeOf [protocolDecl]), one (isOf scopes)]]
  | protocolDescriptor => [[one (isTypeOf [protocolDecl])]]
  | silBoxLayout => [[many (isOf [silBoxMutableField, silBoxImmutableField])]]
  | silBoxTypeWithLayout =>
    [[one (isOf [silBoxLayout])],
     [one (isOf [silBoxLayout]), one (isOf [dependentGenericSignature]), one (isOf [typeList])]]
  | dependentGenericType => [[one (isOf [dependentGenericSignature]), one (isOf [type])]]
  | dependentGenericSignature | dependentPseudogenericSignature =>
    [[one (isOf [dependentGenericParamCount]), many (isOf [dependentGenericParamCount]),
      many (isOf requirements)]]
  | dependentGenericParamType => [[one (isOf [index]), one (isOf [index])]]
  | dependentGenericSameTypeRequirement | dependentGenericConformanceRequirement =>
    [[one (isOf [type]), one (isOf [type])]]
  | dependentGenericLayoutRequirement =>
    [[one (isOf [type]), one (isOf [identifier]), optional (isOf [number]),
      optional (isOf [number])]]
  | dependentMemberType => [[one (isOf [type]), one (isOf [dependentAssociatedTypeRef])]]
  | dependentAssociatedTypeRef => [[optional (isTypeOf [protocolDecl])]]
  | associatedTypeRef => [[one (isOf scopes), one (isOf names)]]
  | partialApplyForwarder | partialApplyObjCForwarder => [[optional (isOf globals)]]
  | fieldOffset => [[one (isOf [directness]), one (isOf scopes)]]
  | protocolWitnessTable | genericProtocolWitnessTable
  | genericProtocolWitnessTableInstantiationFunction | protocolWitnessTableAccessor =>
    [[one (isOf [protocolConformance])]]
  | lazyProtocolWitnessTableAccessor | lazyProtocolWitnessTableCacheVariable =>
    [[one (isOf [type]), one (isOf [protocolConformance])]]
  | associatedTypeMetadataAccessor => [[one (isOf [protocolConformance]), one (isOf declNames)]]
  | associatedTypeWitnessTableAccessor =>
    [[one (isOf [protocolConformance]), one (isOf declNames), one (isTypeOf [protocolDecl])]]
  | reabstractionThunk | reabstractionThunkHelper =>
    [[optional (isOf [dependentGenericSignature]), one (isOf [type]), one (isOf [type])]]
  | protocolWitness => [[one (isOf [protocolConformance]), one (isOf scopes)]]
  | genericSpecialization | genericSpecializationNotReAbstracted =>
    [[optional (isOf [isSerialized]), one (isOf [specializationPassID]),
      many (isOf [genericSpecializationParam])]]
  | genericSpecializationParam => [[one (isOf [type]), many (isOf [protocolConformance])]]
  | functionSignatureSpecialization =>
    [[optional (isOf [isSerialized]), one (isOf [specializationPassID]),
      many (isOf [functionSignatureSpecializationParam])]]
  | functionSignatureSpecializationParam =>
    [[], [one (isOf [functionSignatureSpecializationParamKind])],
     [one (isOf [functionSignatureSpecializationParamKind]),
      one (isOf [functionSignatureSpecializationParamPayload]),
      optional (isOf [functionSignatureSpecializationParamPayload])],
     [one (isOf [functionSignatureSpecializationParamKind]),
      one (isOf [functionSignatureSpecializationParamPayload]), many (isOf [type])]]
  | implFunctionType =>
    [[one (isOf [implConvention]), optional (isOf [implFunctionAttribute]),
      optional (isOf [dependentGenericSignature, dependentPseudogenericSignature]),
      many (isOf [implParameter]), many (isOf [implResult]), optional (isOf [implErrorResult]),
      many (isOf [implResult])]]
  | implParameter | implResult | implErrorResult =>
    [[one (isOf [implConvention]), one (isOf [type])]]
  -- All other kinds are leaves.
  | _ => [[]]

end Kind

/-- Whether a node carries what its kind says, and its children fill one of the shapes of its kind. -/
def Node.isShaped : Node → Bool
  | mk kind payload children =>
    payload.carried = kind.carried && kind.shapes.any fun places => Place.areFilled places children

end SwiftMangling
