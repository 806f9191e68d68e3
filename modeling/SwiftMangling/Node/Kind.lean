/-!
The kinds of the nodes of a symbol tree, and the name under which each is written.
-/

namespace SwiftMangling

/-- What a node of a symbol tree stands for. -/
inductive Kind where
  | global | suffix
  | objCAttribute | nonObjCAttribute | dynamicAttribute
  | directMethodReferenceAttribute | vtableAttribute
  | typeMangling | type | typeList | typeAlias
  | moduleName | identifier | prefixOperator | postfixOperator | infixOperator
  | localDeclName | privateDeclName | number | index
  | classDecl | structureDecl | enumDecl | protocolDecl
  | boundGenericClass | boundGenericStructure | boundGenericEnum
  | extensionContext | function | variableDecl | initializer | subscript | staticMember
  | allocator | constructor | deallocator | destructor
  | ivarInitializer | ivarDestroyer
  | getter | globalGetter | setter | materializeForSet | willSet | didSet
  | readAccessor | modifyAccessor
  | owningAddressor | nativeOwningAddressor | nativePinningAddressor | unsafeAddressor
  | owningMutableAddressor | nativeOwningMutableAddressor
  | nativePinningMutableAddressor | unsafeMutableAddressor
  | explicitClosure | implicitClosure | defaultArgumentInitializer
  | tuple | tupleElement | tupleElementName | variadicMarker
  | functionType | uncurriedFunctionType | objCBlock | cFunctionPointer
  | autoClosureType | thinFunctionType | argumentTuple | returnType | throwsMark
  | builtinTypeName | dynamicSelf | errorType | inOut
  | metatype | metatypeRepresentation | existentialMetatype
  | protocolList | protocolConformance
  | unowned | unmanaged | weak
  | silBoxType | silBoxTypeWithLayout | silBoxLayout
  | silBoxMutableField | silBoxImmutableField
  | dependentGenericType | dependentGenericSignature
  | dependentPseudogenericSignature | dependentGenericParamCount
  | dependentGenericParamType | dependentGenericSameTypeRequirement
  | dependentGenericLayoutRequirement | dependentGenericConformanceRequirement
  | dependentMemberType | dependentAssociatedTypeRef | associatedTypeRef
  | genericTypeMetadataPattern | typeMetadataAccessFunction | typeMetadataLazyCache
  | metaclass | nominalTypeDescriptor | fullTypeMetadata | protocolDescriptor
  | typeMetadata
  | partialApplyForwarder | partialApplyObjCForwarder
  | valueWitness | valueWitnessTable | fieldOffset | directness
  | protocolWitnessTable | genericProtocolWitnessTable
  | genericProtocolWitnessTableInstantiationFunction
  | lazyProtocolWitnessTableAccessor | lazyProtocolWitnessTableCacheVariable
  | protocolWitnessTableAccessor
  | associatedTypeMetadataAccessor | associatedTypeWitnessTableAccessor
  | reabstractionThunk | reabstractionThunkHelper | protocolWitness
  | genericSpecialization | genericSpecializationNotReAbstracted
  | genericSpecializationParam
  | functionSignatureSpecialization | functionSignatureSpecializationParam
  | functionSignatureSpecializationParamKind
  | functionSignatureSpecializationParamPayload
  | specializationPassID | isSerialized
  | implFunctionType | implConvention | implFunctionAttribute
  | implParameter | implResult | implErrorResult
  deriving DecidableEq, Repr, Inhabited

namespace Kind

/-- The name of a kind in written trees. -/
def name : Kind → String
  | global => "Global"
  | suffix => "Suffix"
  | objCAttribute => "ObjCAttribute"
  | nonObjCAttribute => "NonObjCAttribute"
  | dynamicAttribute => "DynamicAttribute"
  | directMethodReferenceAttribute => "DirectMethodReferenceAttribute"
  | vtableAttribute => "VTableAttribute"
  | typeMangling => "TypeMangling"
  | type => "Type"
  | typeList => "TypeList"
  | typeAlias => "TypeAlias"
  | moduleName => "Module"
  | identifier => "Identifier"
  | prefixOperator => "PrefixOperator"
  | postfixOperator => "PostfixOperator"
  | infixOperator => "InfixOperator"
  | localDeclName => "LocalDeclName"
  | privateDeclName => "PrivateDeclName"
  | number => "Number"
  | index => "Index"
  | classDecl => "Class"
  | structureDecl => "Structure"
  | enumDecl => "Enum"
  | protocolDecl => "Protocol"
  | boundGenericClass => "BoundGenericClass"
  | boundGenericStructure => "BoundGenericStructure"
  | boundGenericEnum => "BoundGenericEnum"
  | extensionContext => "Extension"
  | function => "Function"
  | variableDecl => "Variable"
  | initializer => "Initializer"
  | subscript => "Subscript"
  | staticMember => "Static"
  | allocator => "Allocator"
  | constructor => "Constructor"
  | deallocator => "Deallocator"
  | destructor => "Destructor"
  | ivarInitializer => "IVarInitializer"
  | ivarDestroyer => "IVarDestroyer"
  | getter => "Getter"
  | globalGetter => "GlobalGetter"
  | setter => "Setter"
  | materializeForSet => "MaterializeForSet"
  | willSet => "WillSet"
  | didSet => "DidSet"
  | readAccessor => "ReadAccessor"
  | modifyAccessor => "ModifyAccessor"
  | owningAddressor => "OwningAddressor"
  | nativeOwningAddressor => "NativeOwningAddressor"
  | nativePinningAddressor => "NativePinningAddressor"
  | unsafeAddressor => "UnsafeAddressor"
  | owningMutableAddressor => "OwningMutableAddressor"
  | nativeOwningMutableAddressor => "NativeOwningMutableAddressor"
  | nativePinningMutableAddressor => "NativePinningMutableAddressor"
  | unsafeMutableAddressor => "UnsafeMutableAddressor"
  | explicitClosure => "ExplicitClosure"
  | implicitClosure => "ImplicitClosure"
  | defaultArgumentInitializer => "DefaultArgumentInitializer"
  | tuple => "Tuple"
  | tupleElement => "TupleElement"
  | tupleElementName => "TupleElementName"
  | variadicMarker => "VariadicMarker"
  | functionType => "FunctionType"
  | uncurriedFunctionType => "UncurriedFunctionType"
  | objCBlock => "ObjCBlock"
  | cFunctionPointer => "CFunctionPointer"
  | autoClosureType => "AutoClosureType"
  | thinFunctionType => "ThinFunctionType"
  | argumentTuple => "ArgumentTuple"
  | returnType => "ReturnType"
  | throwsMark => "ThrowsAnnotation"
  | builtinTypeName => "BuiltinTypeName"
  | dynamicSelf => "DynamicSelf"
  | errorType => "ErrorType"
  | inOut => "InOut"
  | metatype => "Metatype"
  | metatypeRepresentation => "MetatypeRepresentation"
  | existentialMetatype => "ExistentialMetatype"
  | protocolList => "ProtocolList"
  | protocolConformance => "ProtocolConformance"
  | unowned => "Unowned"
  | unmanaged => "Unmanaged"
  | weak => "Weak"
  | silBoxType => "SILBoxType"
  | silBoxTypeWithLayout => "SILBoxTypeWithLayout"
  | silBoxLayout => "SILBoxLayout"
  | silBoxMutableField => "SILBoxMutableField"
  | silBoxImmutableField => "SILBoxImmutableField"
  | dependentGenericType => "DependentGenericType"
  | dependentGenericSignature => "DependentGenericSignature"
  | dependentPseudogenericSignature => "DependentPseudogenericSignature"
  | dependentGenericParamCount => "DependentGenericParamCount"
  | dependentGenericParamType => "DependentGenericParamType"
  | dependentGenericSameTypeRequirement => "DependentGenericSameTypeRequirement"
  | dependentGenericLayoutRequirement => "DependentGenericLayoutRequirement"
  | dependentGenericConformanceRequirement => "DependentGenericConformanceRequirement"
  | dependentMemberType => "DependentMemberType"
  | dependentAssociatedTypeRef => "DependentAssociatedTypeRef"
  | associatedTypeRef => "AssociatedTypeRef"
  | genericTypeMetadataPattern => "GenericTypeMetadataPattern"
  | typeMetadataAccessFunction => "TypeMetadataAccessFunction"
  | typeMetadataLazyCache => "TypeMetadataLazyCache"
  | metaclass => "Metaclass"
  | nominalTypeDescriptor => "NominalTypeDescriptor"
  | fullTypeMetadata => "FullTypeMetadata"
  | protocolDescriptor => "ProtocolDescriptor"
  | typeMetadata => "TypeMetadata"
  | partialApplyForwarder => "PartialApplyForwarder"
  | partialApplyObjCForwarder => "PartialApplyObjCForwarder"
  | valueWitness => "ValueWitness"
  | valueWitnessTable => "ValueWitnessTable"
  | fieldOffset => "FieldOffset"
  | directness => "Directness"
  | protocolWitnessTable => "ProtocolWitnessTable"
  | genericProtocolWitnessTable => "GenericProtocolWitnessTable"
  | genericProtocolWitnessTableInstantiationFunction =>
    "GenericProtocolWitnessTableInstantiationFunction"
  | lazyProtocolWitnessTableAccessor => "LazyProtocolWitnessTableAccessor"
  | lazyProtocolWitnessTableCacheVariable => "LazyProtocolWitnessTableCacheVariable"
  | protocolWitnessTableAccessor => "ProtocolWitnessTableAccessor"
  | associatedTypeMetadataAccessor => "AssociatedTypeMetadataAccessor"
  | associatedTypeWitnessTableAccessor => "AssociatedTypeWitnessTableAccessor"
  | reabstractionThunk => "ReabstractionThunk"
  | reabstractionThunkHelper => "ReabstractionThunkHelper"
  | protocolWitness => "ProtocolWitness"
  | genericSpecialization => "GenericSpecialization"
  | genericSpecializationNotReAbstracted => "GenericSpecializationNotReAbstracted"
  | genericSpecializationParam => "GenericSpecializationParam"
  | functionSignatureSpecialization => "FunctionSignatureSpecialization"
  | functionSignatureSpecializationParam => "FunctionSignatureSpecializationParam"
  | functionSignatureSpecializationParamKind => "FunctionSignatureSpecializationParamKind"
  | functionSignatureSpecializationParamPayload => "FunctionSignatureSpecializationParamPayload"
  | specializationPassID => "SpecializationPassID"
  | isSerialized => "IsSerialized"
  | implFunctionType => "ImplFunctionType"
  | implConvention => "ImplConvention"
  | implFunctionAttribute => "ImplFunctionAttribute"
  | implParameter => "ImplParameter"
  | implResult => "ImplResult"
  | implErrorResult => "ImplErrorResult"

/-- Every kind, in the order of its declaration. -/
def all : List Kind :=
  [.global, .suffix, .objCAttribute, .nonObjCAttribute, .dynamicAttribute,
   .directMethodReferenceAttribute, .vtableAttribute, .typeMangling, .type, .typeList, .typeAlias,
   .moduleName, .identifier, .prefixOperator, .postfixOperator, .infixOperator, .localDeclName,
   .privateDeclName, .number, .index, .classDecl, .structureDecl, .enumDecl, .protocolDecl,
   .boundGenericClass, .boundGenericStructure, .boundGenericEnum, .extensionContext, .function,
   .variableDecl, .initializer, .subscript, .staticMember, .allocator, .constructor, .deallocator,
   .destructor, .ivarInitializer, .ivarDestroyer, .getter, .globalGetter, .setter,
   .materializeForSet, .willSet, .didSet, .readAccessor, .modifyAccessor, .owningAddressor,
   .nativeOwningAddressor, .nativePinningAddressor, .unsafeAddressor, .owningMutableAddressor,
   .nativeOwningMutableAddressor, .nativePinningMutableAddressor, .unsafeMutableAddressor,
   .explicitClosure, .implicitClosure, .defaultArgumentInitializer, .tuple, .tupleElement,
   .tupleElementName, .variadicMarker, .functionType, .uncurriedFunctionType, .objCBlock,
   .cFunctionPointer, .autoClosureType, .thinFunctionType, .argumentTuple, .returnType,
   .throwsMark, .builtinTypeName, .dynamicSelf, .errorType, .inOut, .metatype,
   .metatypeRepresentation, .existentialMetatype, .protocolList, .protocolConformance, .unowned,
   .unmanaged, .weak, .silBoxType, .silBoxTypeWithLayout, .silBoxLayout, .silBoxMutableField,
   .silBoxImmutableField, .dependentGenericType, .dependentGenericSignature,
   .dependentPseudogenericSignature, .dependentGenericParamCount, .dependentGenericParamType,
   .dependentGenericSameTypeRequirement, .dependentGenericLayoutRequirement,
   .dependentGenericConformanceRequirement, .dependentMemberType, .dependentAssociatedTypeRef,
   .associatedTypeRef, .genericTypeMetadataPattern, .typeMetadataAccessFunction,
   .typeMetadataLazyCache, .metaclass, .nominalTypeDescriptor, .fullTypeMetadata,
   .protocolDescriptor, .typeMetadata, .partialApplyForwarder, .partialApplyObjCForwarder,
   .valueWitness, .valueWitnessTable, .fieldOffset, .directness, .protocolWitnessTable,
   .genericProtocolWitnessTable, .genericProtocolWitnessTableInstantiationFunction,
   .lazyProtocolWitnessTableAccessor, .lazyProtocolWitnessTableCacheVariable,
   .protocolWitnessTableAccessor, .associatedTypeMetadataAccessor,
   .associatedTypeWitnessTableAccessor, .reabstractionThunk, .reabstractionThunkHelper,
   .protocolWitness, .genericSpecialization, .genericSpecializationNotReAbstracted,
   .genericSpecializationParam, .functionSignatureSpecialization,
   .functionSignatureSpecializationParam, .functionSignatureSpecializationParamKind,
   .functionSignatureSpecializationParamPayload, .specializationPassID, .isSerialized,
   .implFunctionType, .implConvention, .implFunctionAttribute, .implParameter, .implResult,
   .implErrorResult]

/-- Reads the name of a kind back. -/
def ofName? (name : String) : Option Kind :=
  all.find? (fun kind => kind.name == name)

end Kind

end SwiftMangling
