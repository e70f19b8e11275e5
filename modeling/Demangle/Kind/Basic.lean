/-!
# Kinds of symbol nodes

`Kind` is the closed set of tags a node of a symbol tree can carry. The constructors are grouped by
what they stand for; `Kind.name` (in `Demangle.Kind.Name`) is the spelling used in dumps.
-/

namespace Demangle

/-- The tag of a node of a symbol tree. -/
inductive Kind where
  -- whole symbols
  | global | typeMangling | suffix
  -- names and contexts
  | identifier | moduleName | declContext | extension | anonymousContext | localDeclName
  | privateDeclName | relatedEntityDeclName | infixOperator | prefixOperator | postfixOperator
  | labelList | index | number | symbolicReference | unresolvedSymbolicReference
  -- declarations
  | variableDecl | function | subscript | staticEntity | allocator | constructor | deallocator
  | destructor | ivarInitializer | ivarDestroyer | initializer | defaultArgumentInitializer
  | explicitClosure | implicitClosure | genericTypeParamDecl | enumCase
  -- accessors of variables and subscripts
  | getter | globalGetter | setter | materializeForSet | willSet | didSet | readAccessor
  | modifyAccessor | owningAddressor | owningMutableAddressor | nativeOwningAddressor
  | nativeOwningMutableAddressor | nativePinningAddressor | nativePinningMutableAddressor
  | unsafeAddressor | unsafeMutableAddressor
  -- nominal types and their bound forms
  | type | classType | structType | enumType | protocolType | typeAlias | otherNominalType
  | builtinTypeName | boundGenericClass | boundGenericStructure | boundGenericEnum
  | boundGenericProtocol | boundGenericOtherNominalType | boundGenericTypeAlias
  | boundGenericFunction
  -- structural types
  | tuple | tupleElement | tupleElementName | typeList | weak | unowned | unmanaged | inOut
  | shared | owned | metatype | metatypeRepresentation | existentialMetatype | protocolList
  | protocolListWithClass | protocolListWithAnyObject | dynamicSelf | errorType | silBoxType
  | silBoxTypeWithLayout | silBoxLayout | silBoxMutableField | silBoxImmutableField
  -- function types
  | functionType | noEscapeFunctionType | escapingAutoClosureType | autoClosureType
  | thinFunctionType | uncurriedFunctionType | objcBlock | cFunctionPointer | argumentTuple
  | returnType | implFunctionType | implEscaping | implConvention | implFunctionAttribute
  | implParameter | implResult | implErrorResult
  -- generic signatures
  | dependentGenericType | dependentGenericSignature | dependentPseudogenericSignature
  | dependentGenericParamCount | dependentGenericParamType | dependentGenericConformanceRequirement
  | dependentGenericSameTypeRequirement | dependentGenericLayoutRequirement | dependentMemberType
  | dependentAssociatedTypeRef | associatedType | associatedTypeRef | assocTypePath
  | associatedTypeGenericParamRef
  -- marks left on the operand stack
  | emptyList | firstElementMarker | variadicMarker | throwsMark
  -- conformances and witnesses
  | protocolConformance | retroactiveConformance | protocolWitness | protocolWitnessTable
  | protocolWitnessTablePattern | protocolWitnessTableAccessor | genericProtocolWitnessTable
  | genericProtocolWitnessTableInstantiationFunction | resilientProtocolWitnessTable
  | lazyProtocolWitnessTableAccessor | lazyProtocolWitnessTableCacheVariable
  | associatedTypeMetadataAccessor | associatedTypeWitnessTableAccessor | valueWitness
  | valueWitnessTable | fieldOffset | directness
  -- metadata and descriptors
  | typeMetadata | fullTypeMetadata | typeMetadataAccessFunction | typeMetadataCompletionFunction
  | typeMetadataInstantiationCache | typeMetadataInstantiationFunction | typeMetadataLazyCache
  | typeMetadataSingletonInitializationCache | genericTypeMetadataPattern | metaclass
  | classMetadataBaseOffset | methodDescriptor | methodLookupFunction | nominalTypeDescriptor
  | propertyDescriptor | protocolDescriptor | protocolConformanceDescriptor
  | protocolRequirementsBaseDescriptor | associatedTypeDescriptor | associatedConformanceDescriptor
  | defaultAssociatedConformanceAccessor | defaultAssociatedTypeMetadataAccessor | moduleDescriptor
  | extensionDescriptor | anonymousDescriptor | reflectionMetadataAssocTypeDescriptor
  | reflectionMetadataBuiltinDescriptor | reflectionMetadataFieldDescriptor
  | reflectionMetadataSuperclassDescriptor
  -- thunks and outlined code
  | curryThunk | dispatchThunk | vtableThunk | reabstractionThunk | reabstractionThunkHelper
  | coroutineContinuationPrototype | keyPathGetterThunkHelper | keyPathSetterThunkHelper
  | keyPathEqualsThunkHelper | keyPathHashThunkHelper | outlinedVariable | outlinedBridgedMethod
  | outlinedCopy | outlinedConsume | outlinedRetain | outlinedRelease | outlinedInitializeWithTake
  | outlinedInitializeWithCopy | outlinedAssignWithTake | outlinedAssignWithCopy | outlinedDestroy
  -- attributes of a whole function
  | objcAttribute | nonObjcAttribute | dynamicAttribute | directMethodReferenceAttribute
  | vtableAttribute | mergedFunction | partialApplyForwarder | partialApplyObjcForwarder
  -- specializations
  | genericSpecialization | genericSpecializationNotReAbstracted | genericPartialSpecialization
  | genericPartialSpecializationNotReAbstracted | genericSpecializationParam
  | functionSignatureSpecialization | functionSignatureSpecializationParam
  | functionSignatureSpecializationParamKind | functionSignatureSpecializationParamPayload
  | functionSignatureSpecializationReturn | specializationIsFragile | specializationPassId
  deriving DecidableEq, Inhabited, Repr

end Demangle
