import Demangle.Kind.Basic

/-!
# Spellings of the kinds

Every kind has one spelling, `Kind.name`, and `Kind.ofName?` reads it back. `Kind.all` lists the
kinds in the order of their declaration.
-/

namespace Demangle.Kind

/-- The spelling of a kind in dumps of a symbol tree. -/
def name : Kind → String
  | .global => "Global"
  | .typeMangling => "TypeMangling"
  | .suffix => "Suffix"
  | .identifier => "Identifier"
  | .moduleName => "Module"
  | .declContext => "DeclContext"
  | .extension => "Extension"
  | .anonymousContext => "AnonymousContext"
  | .localDeclName => "LocalDeclName"
  | .privateDeclName => "PrivateDeclName"
  | .relatedEntityDeclName => "RelatedEntityDeclName"
  | .infixOperator => "InfixOperator"
  | .prefixOperator => "PrefixOperator"
  | .postfixOperator => "PostfixOperator"
  | .labelList => "LabelList"
  | .index => "Index"
  | .number => "Number"
  | .symbolicReference => "SymbolicReference"
  | .unresolvedSymbolicReference => "UnresolvedSymbolicReference"
  | .variableDecl => "Variable"
  | .function => "Function"
  | .subscript => "Subscript"
  | .staticEntity => "Static"
  | .allocator => "Allocator"
  | .constructor => "Constructor"
  | .deallocator => "Deallocator"
  | .destructor => "Destructor"
  | .ivarInitializer => "IVarInitializer"
  | .ivarDestroyer => "IVarDestroyer"
  | .initializer => "Initializer"
  | .defaultArgumentInitializer => "DefaultArgumentInitializer"
  | .explicitClosure => "ExplicitClosure"
  | .implicitClosure => "ImplicitClosure"
  | .genericTypeParamDecl => "GenericTypeParamDecl"
  | .enumCase => "EnumCase"
  | .getter => "Getter"
  | .globalGetter => "GlobalGetter"
  | .setter => "Setter"
  | .materializeForSet => "MaterializeForSet"
  | .willSet => "WillSet"
  | .didSet => "DidSet"
  | .readAccessor => "ReadAccessor"
  | .modifyAccessor => "ModifyAccessor"
  | .owningAddressor => "OwningAddressor"
  | .owningMutableAddressor => "OwningMutableAddressor"
  | .nativeOwningAddressor => "NativeOwningAddressor"
  | .nativeOwningMutableAddressor => "NativeOwningMutableAddressor"
  | .nativePinningAddressor => "NativePinningAddressor"
  | .nativePinningMutableAddressor => "NativePinningMutableAddressor"
  | .unsafeAddressor => "UnsafeAddressor"
  | .unsafeMutableAddressor => "UnsafeMutableAddressor"
  | .type => "Type"
  | .classType => "Class"
  | .structType => "Structure"
  | .enumType => "Enum"
  | .protocolType => "Protocol"
  | .typeAlias => "TypeAlias"
  | .otherNominalType => "OtherNominalType"
  | .builtinTypeName => "BuiltinTypeName"
  | .boundGenericClass => "BoundGenericClass"
  | .boundGenericStructure => "BoundGenericStructure"
  | .boundGenericEnum => "BoundGenericEnum"
  | .boundGenericProtocol => "BoundGenericProtocol"
  | .boundGenericOtherNominalType => "BoundGenericOtherNominalType"
  | .boundGenericTypeAlias => "BoundGenericTypeAlias"
  | .boundGenericFunction => "BoundGenericFunction"
  | .tuple => "Tuple"
  | .tupleElement => "TupleElement"
  | .tupleElementName => "TupleElementName"
  | .typeList => "TypeList"
  | .weak => "Weak"
  | .unowned => "Unowned"
  | .unmanaged => "Unmanaged"
  | .inOut => "InOut"
  | .shared => "Shared"
  | .owned => "Owned"
  | .metatype => "Metatype"
  | .metatypeRepresentation => "MetatypeRepresentation"
  | .existentialMetatype => "ExistentialMetatype"
  | .protocolList => "ProtocolList"
  | .protocolListWithClass => "ProtocolListWithClass"
  | .protocolListWithAnyObject => "ProtocolListWithAnyObject"
  | .dynamicSelf => "DynamicSelf"
  | .errorType => "ErrorType"
  | .silBoxType => "SilBoxType"
  | .silBoxTypeWithLayout => "SilBoxTypeWithLayout"
  | .silBoxLayout => "SilBoxLayout"
  | .silBoxMutableField => "SilBoxMutableField"
  | .silBoxImmutableField => "SilBoxImmutableField"
  | .functionType => "FunctionType"
  | .noEscapeFunctionType => "NoEscapeFunctionType"
  | .escapingAutoClosureType => "EscapingAutoClosureType"
  | .autoClosureType => "AutoClosureType"
  | .thinFunctionType => "ThinFunctionType"
  | .uncurriedFunctionType => "UncurriedFunctionType"
  | .objcBlock => "ObjCBlock"
  | .cFunctionPointer => "CFunctionPointer"
  | .argumentTuple => "ArgumentTuple"
  | .returnType => "ReturnType"
  | .implFunctionType => "ImplFunctionType"
  | .implEscaping => "ImplEscaping"
  | .implConvention => "ImplConvention"
  | .implFunctionAttribute => "ImplFunctionAttribute"
  | .implParameter => "ImplParameter"
  | .implResult => "ImplResult"
  | .implErrorResult => "ImplErrorResult"
  | .dependentGenericType => "DependentGenericType"
  | .dependentGenericSignature => "DependentGenericSignature"
  | .dependentPseudogenericSignature => "DependentPseudogenericSignature"
  | .dependentGenericParamCount => "DependentGenericParamCount"
  | .dependentGenericParamType => "DependentGenericParamType"
  | .dependentGenericConformanceRequirement => "DependentGenericConformanceRequirement"
  | .dependentGenericSameTypeRequirement => "DependentGenericSameTypeRequirement"
  | .dependentGenericLayoutRequirement => "DependentGenericLayoutRequirement"
  | .dependentMemberType => "DependentMemberType"
  | .dependentAssociatedTypeRef => "DependentAssociatedTypeRef"
  | .associatedType => "AssociatedType"
  | .associatedTypeRef => "AssociatedTypeRef"
  | .assocTypePath => "AssocTypePath"
  | .associatedTypeGenericParamRef => "AssociatedTypeGenericParamRef"
  | .emptyList => "EmptyList"
  | .firstElementMarker => "FirstElementMarker"
  | .variadicMarker => "VariadicMarker"
  | .throwsMark => "ThrowsAnnotation"
  | .protocolConformance => "ProtocolConformance"
  | .retroactiveConformance => "RetroactiveConformance"
  | .protocolWitness => "ProtocolWitness"
  | .protocolWitnessTable => "ProtocolWitnessTable"
  | .protocolWitnessTablePattern => "ProtocolWitnessTablePattern"
  | .protocolWitnessTableAccessor => "ProtocolWitnessTableAccessor"
  | .genericProtocolWitnessTable => "GenericProtocolWitnessTable"
  | .genericProtocolWitnessTableInstantiationFunction => "GenericProtocolWitnessTableInstantiationFunction"
  | .resilientProtocolWitnessTable => "ResilientProtocolWitnessTable"
  | .lazyProtocolWitnessTableAccessor => "LazyProtocolWitnessTableAccessor"
  | .lazyProtocolWitnessTableCacheVariable => "LazyProtocolWitnessTableCacheVariable"
  | .associatedTypeMetadataAccessor => "AssociatedTypeMetadataAccessor"
  | .associatedTypeWitnessTableAccessor => "AssociatedTypeWitnessTableAccessor"
  | .valueWitness => "ValueWitness"
  | .valueWitnessTable => "ValueWitnessTable"
  | .fieldOffset => "FieldOffset"
  | .directness => "Directness"
  | .typeMetadata => "TypeMetadata"
  | .fullTypeMetadata => "FullTypeMetadata"
  | .typeMetadataAccessFunction => "TypeMetadataAccessFunction"
  | .typeMetadataCompletionFunction => "TypeMetadataCompletionFunction"
  | .typeMetadataInstantiationCache => "TypeMetadataInstantiationCache"
  | .typeMetadataInstantiationFunction => "TypeMetadataInstantiationFunction"
  | .typeMetadataLazyCache => "TypeMetadataLazyCache"
  | .typeMetadataSingletonInitializationCache => "TypeMetadataSingletonInitializationCache"
  | .genericTypeMetadataPattern => "GenericTypeMetadataPattern"
  | .metaclass => "Metaclass"
  | .classMetadataBaseOffset => "ClassMetadataBaseOffset"
  | .methodDescriptor => "MethodDescriptor"
  | .methodLookupFunction => "MethodLookupFunction"
  | .nominalTypeDescriptor => "NominalTypeDescriptor"
  | .propertyDescriptor => "PropertyDescriptor"
  | .protocolDescriptor => "ProtocolDescriptor"
  | .protocolConformanceDescriptor => "ProtocolConformanceDescriptor"
  | .protocolRequirementsBaseDescriptor => "ProtocolRequirementsBaseDescriptor"
  | .associatedTypeDescriptor => "AssociatedTypeDescriptor"
  | .associatedConformanceDescriptor => "AssociatedConformanceDescriptor"
  | .defaultAssociatedConformanceAccessor => "DefaultAssociatedConformanceAccessor"
  | .defaultAssociatedTypeMetadataAccessor => "DefaultAssociatedTypeMetadataAccessor"
  | .moduleDescriptor => "ModuleDescriptor"
  | .extensionDescriptor => "ExtensionDescriptor"
  | .anonymousDescriptor => "AnonymousDescriptor"
  | .reflectionMetadataAssocTypeDescriptor => "ReflectionMetadataAssocTypeDescriptor"
  | .reflectionMetadataBuiltinDescriptor => "ReflectionMetadataBuiltinDescriptor"
  | .reflectionMetadataFieldDescriptor => "ReflectionMetadataFieldDescriptor"
  | .reflectionMetadataSuperclassDescriptor => "ReflectionMetadataSuperclassDescriptor"
  | .curryThunk => "CurryThunk"
  | .dispatchThunk => "DispatchThunk"
  | .vtableThunk => "VTableThunk"
  | .reabstractionThunk => "ReabstractionThunk"
  | .reabstractionThunkHelper => "ReabstractionThunkHelper"
  | .coroutineContinuationPrototype => "CoroutineContinuationPrototype"
  | .keyPathGetterThunkHelper => "KeyPathGetterThunkHelper"
  | .keyPathSetterThunkHelper => "KeyPathSetterThunkHelper"
  | .keyPathEqualsThunkHelper => "KeyPathEqualsThunkHelper"
  | .keyPathHashThunkHelper => "KeyPathHashThunkHelper"
  | .outlinedVariable => "OutlinedVariable"
  | .outlinedBridgedMethod => "OutlinedBridgedMethod"
  | .outlinedCopy => "OutlinedCopy"
  | .outlinedConsume => "OutlinedConsume"
  | .outlinedRetain => "OutlinedRetain"
  | .outlinedRelease => "OutlinedRelease"
  | .outlinedInitializeWithTake => "OutlinedInitializeWithTake"
  | .outlinedInitializeWithCopy => "OutlinedInitializeWithCopy"
  | .outlinedAssignWithTake => "OutlinedAssignWithTake"
  | .outlinedAssignWithCopy => "OutlinedAssignWithCopy"
  | .outlinedDestroy => "OutlinedDestroy"
  | .objcAttribute => "ObjCAttribute"
  | .nonObjcAttribute => "NonObjCAttribute"
  | .dynamicAttribute => "DynamicAttribute"
  | .directMethodReferenceAttribute => "DirectMethodReferenceAttribute"
  | .vtableAttribute => "VTableAttribute"
  | .mergedFunction => "MergedFunction"
  | .partialApplyForwarder => "PartialApplyForwarder"
  | .partialApplyObjcForwarder => "PartialApplyObjCForwarder"
  | .genericSpecialization => "GenericSpecialization"
  | .genericSpecializationNotReAbstracted => "GenericSpecializationNotReAbstracted"
  | .genericPartialSpecialization => "GenericPartialSpecialization"
  | .genericPartialSpecializationNotReAbstracted => "GenericPartialSpecializationNotReAbstracted"
  | .genericSpecializationParam => "GenericSpecializationParam"
  | .functionSignatureSpecialization => "FunctionSignatureSpecialization"
  | .functionSignatureSpecializationParam => "FunctionSignatureSpecializationParam"
  | .functionSignatureSpecializationParamKind => "FunctionSignatureSpecializationParamKind"
  | .functionSignatureSpecializationParamPayload => "FunctionSignatureSpecializationParamPayload"
  | .functionSignatureSpecializationReturn => "FunctionSignatureSpecializationReturn"
  | .specializationIsFragile => "SpecializationIsFragile"
  | .specializationPassId => "SpecializationPassId"

/-- Every kind, in the order of declaration. -/
def all : List Kind :=
  [.global, .typeMangling, .suffix, .identifier, .moduleName, .declContext, .extension,
   .anonymousContext, .localDeclName, .privateDeclName, .relatedEntityDeclName, .infixOperator,
   .prefixOperator, .postfixOperator, .labelList, .index, .number, .symbolicReference,
   .unresolvedSymbolicReference, .variableDecl, .function, .subscript, .staticEntity, .allocator,
   .constructor, .deallocator, .destructor, .ivarInitializer, .ivarDestroyer, .initializer,
   .defaultArgumentInitializer, .explicitClosure, .implicitClosure, .genericTypeParamDecl,
   .enumCase, .getter, .globalGetter, .setter, .materializeForSet, .willSet, .didSet,
   .readAccessor, .modifyAccessor, .owningAddressor, .owningMutableAddressor,
   .nativeOwningAddressor, .nativeOwningMutableAddressor, .nativePinningAddressor,
   .nativePinningMutableAddressor, .unsafeAddressor, .unsafeMutableAddressor, .type, .classType,
   .structType, .enumType, .protocolType, .typeAlias, .otherNominalType, .builtinTypeName,
   .boundGenericClass, .boundGenericStructure, .boundGenericEnum, .boundGenericProtocol,
   .boundGenericOtherNominalType, .boundGenericTypeAlias, .boundGenericFunction, .tuple,
   .tupleElement, .tupleElementName, .typeList, .weak, .unowned, .unmanaged, .inOut, .shared,
   .owned, .metatype, .metatypeRepresentation, .existentialMetatype, .protocolList,
   .protocolListWithClass, .protocolListWithAnyObject, .dynamicSelf, .errorType, .silBoxType,
   .silBoxTypeWithLayout, .silBoxLayout, .silBoxMutableField, .silBoxImmutableField, .functionType,
   .noEscapeFunctionType, .escapingAutoClosureType, .autoClosureType, .thinFunctionType,
   .uncurriedFunctionType, .objcBlock, .cFunctionPointer, .argumentTuple, .returnType,
   .implFunctionType, .implEscaping, .implConvention, .implFunctionAttribute, .implParameter,
   .implResult, .implErrorResult, .dependentGenericType, .dependentGenericSignature,
   .dependentPseudogenericSignature, .dependentGenericParamCount, .dependentGenericParamType,
   .dependentGenericConformanceRequirement, .dependentGenericSameTypeRequirement,
   .dependentGenericLayoutRequirement, .dependentMemberType, .dependentAssociatedTypeRef,
   .associatedType, .associatedTypeRef, .assocTypePath, .associatedTypeGenericParamRef, .emptyList,
   .firstElementMarker, .variadicMarker, .throwsMark, .protocolConformance,
   .retroactiveConformance, .protocolWitness, .protocolWitnessTable, .protocolWitnessTablePattern,
   .protocolWitnessTableAccessor, .genericProtocolWitnessTable,
   .genericProtocolWitnessTableInstantiationFunction, .resilientProtocolWitnessTable,
   .lazyProtocolWitnessTableAccessor, .lazyProtocolWitnessTableCacheVariable,
   .associatedTypeMetadataAccessor, .associatedTypeWitnessTableAccessor, .valueWitness,
   .valueWitnessTable, .fieldOffset, .directness, .typeMetadata, .fullTypeMetadata,
   .typeMetadataAccessFunction, .typeMetadataCompletionFunction, .typeMetadataInstantiationCache,
   .typeMetadataInstantiationFunction, .typeMetadataLazyCache,
   .typeMetadataSingletonInitializationCache, .genericTypeMetadataPattern, .metaclass,
   .classMetadataBaseOffset, .methodDescriptor, .methodLookupFunction, .nominalTypeDescriptor,
   .propertyDescriptor, .protocolDescriptor, .protocolConformanceDescriptor,
   .protocolRequirementsBaseDescriptor, .associatedTypeDescriptor,
   .associatedConformanceDescriptor, .defaultAssociatedConformanceAccessor,
   .defaultAssociatedTypeMetadataAccessor, .moduleDescriptor, .extensionDescriptor,
   .anonymousDescriptor, .reflectionMetadataAssocTypeDescriptor,
   .reflectionMetadataBuiltinDescriptor, .reflectionMetadataFieldDescriptor,
   .reflectionMetadataSuperclassDescriptor, .curryThunk, .dispatchThunk, .vtableThunk,
   .reabstractionThunk, .reabstractionThunkHelper, .coroutineContinuationPrototype,
   .keyPathGetterThunkHelper, .keyPathSetterThunkHelper, .keyPathEqualsThunkHelper,
   .keyPathHashThunkHelper, .outlinedVariable, .outlinedBridgedMethod, .outlinedCopy,
   .outlinedConsume, .outlinedRetain, .outlinedRelease, .outlinedInitializeWithTake,
   .outlinedInitializeWithCopy, .outlinedAssignWithTake, .outlinedAssignWithCopy, .outlinedDestroy,
   .objcAttribute, .nonObjcAttribute, .dynamicAttribute, .directMethodReferenceAttribute,
   .vtableAttribute, .mergedFunction, .partialApplyForwarder, .partialApplyObjcForwarder,
   .genericSpecialization, .genericSpecializationNotReAbstracted, .genericPartialSpecialization,
   .genericPartialSpecializationNotReAbstracted, .genericSpecializationParam,
   .functionSignatureSpecialization, .functionSignatureSpecializationParam,
   .functionSignatureSpecializationParamKind, .functionSignatureSpecializationParamPayload,
   .functionSignatureSpecializationReturn, .specializationIsFragile, .specializationPassId]

/-- The kind with the given spelling. -/
def ofName? (s : String) : Option Kind :=
  all.find? (·.name == s)

end Demangle.Kind
