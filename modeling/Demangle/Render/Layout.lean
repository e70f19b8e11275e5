import Demangle.Render.Printer

/-!
# Layouts

`Kind.layout` says how the nodes of each kind are printed: most as a list of pieces, the others by a
rule of their own.
-/

namespace Demangle

/-- How a node is printed. -/
inductive Layout where
  /-- The given pieces in order. -/
  | pieces (ps : List Piece)
  /-- A name in its context, with its type. -/
  | entity
  /-- The storage that is accessed, with an extra name. -/
  | accessor (extra : String)
  | suffix
  | moduleName
  | localName
  | privateName
  | extension
  | anonymousContext
  /-- A function type behind a fixed text. -/
  | functionType (lead : String)
  | argumentTuple
  | returnType
  | loweredFunction
  | tupleElement
  | boundGeneric
  | metatype
  | existentialMetatype
  | protocolList
  | protocolListWithClass
  | protocolListWithAnyObject
  | boxWithLayout
  | boxLayout
  | signature
  | layoutRequirement
  | genericType
  | mergedFunction
  /-- A forwarder, called so unless it is shortened. -/
  | partialApply (forwarder : String)
  /-- A thunk behind a fixed text unless it is shortened. -/
  | reabstractionThunk (lead : String)
  /-- Types in parentheses behind a fixed text. -/
  | keyPathIndices (lead : String)
  /-- A specialization with its description, and the text in front of each parameter. -/
  | specialization (description lead : String)
  | specializationParam
  | argumentRecord
  | resultRecord
  | changeKind
  /-- The text, demangled if it is a mangled name. -/
  | mangledText
  | conformance
  | retroactive
  | valueWitness
  | directness
  deriving DecidableEq, Inhabited, Repr

namespace Layout

/-- A fixed text. -/
def words (s : String) : Layout :=
  .pieces [.words s]

/-- A fixed text and the first child. -/
def after (lead : String) : Layout :=
  .pieces [.words lead, .child 0]

/-- An outlined operation: a fixed text, the type and its signature. -/
def outlined (lead : String) : Layout :=
  .pieces [.words lead, .child 0, .child 1]

end Layout

/-- How nodes of a kind are printed. -/
def Kind.layout : Kind → Layout
  -- whole symbols
  | .global | .typeList => .pieces [.children 0 ""]
  | .type | .typeMangling | .declContext => .pieces [.child 0]
  | .suffix => .suffix
  -- names and contexts
  | .identifier | .builtinTypeName | .metatypeRepresentation | .dependentGenericParamType
  | .dependentAssociatedTypeRef | .implConvention | .implFunctionAttribute => .pieces [.text]
  | .index | .number | .specializationPassId => .pieces [.index]
  | .moduleName => .moduleName
  | .infixOperator => .pieces [.text, .words " infix"]
  | .prefixOperator => .pieces [.text, .words " prefix"]
  | .postfixOperator => .pieces [.text, .words " postfix"]
  | .localDeclName => .localName
  | .privateDeclName => .privateName
  | .relatedEntityDeclName => .pieces [.words "related decl '", .text, .words "' for ", .child 0]
  | .extension => .extension
  | .anonymousContext => .anonymousContext
  | .symbolicReference => .pieces [.words "symbolic reference ", .index]
  | .unresolvedSymbolicReference => .pieces [.words "$", .index]
  | .labelList | .associatedType | .dependentGenericParamCount => .pieces []
  -- entities
  | .variableDecl | .function | .boundGenericFunction | .subscript | .genericTypeParamDecl
  | .classType | .structType | .enumType | .protocolType | .typeAlias | .otherNominalType
  | .explicitClosure | .implicitClosure | .initializer | .defaultArgumentInitializer | .allocator
  | .constructor | .destructor | .deallocator | .ivarInitializer | .ivarDestroyer => .entity
  | .getter | .globalGetter => .accessor "getter"
  | .setter => .accessor "setter"
  | .materializeForSet => .accessor "materializeForSet"
  | .willSet => .accessor "willset"
  | .didSet => .accessor "didset"
  | .readAccessor => .accessor "read"
  | .modifyAccessor => .accessor "modify"
  | .owningAddressor => .accessor "owningAddressor"
  | .owningMutableAddressor => .accessor "owningMutableAddressor"
  | .nativeOwningAddressor => .accessor "nativeOwningAddressor"
  | .nativeOwningMutableAddressor => .accessor "nativeOwningMutableAddressor"
  | .nativePinningAddressor => .accessor "nativePinningAddressor"
  | .nativePinningMutableAddressor => .accessor "nativePinningMutableAddressor"
  | .unsafeAddressor => .accessor "unsafeAddressor"
  | .unsafeMutableAddressor => .accessor "unsafeMutableAddressor"
  | .staticEntity => .after "static "
  | .enumCase => .after "enum case for "
  -- function types
  | .functionType | .noEscapeFunctionType | .uncurriedFunctionType => .functionType ""
  | .autoClosureType | .escapingAutoClosureType => .functionType "@autoclosure "
  | .thinFunctionType => .functionType "@convention(thin) "
  | .cFunctionPointer => .functionType "@convention(c) "
  | .objcBlock => .functionType "@convention(block) "
  | .argumentTuple => .argumentTuple
  | .returnType => .returnType
  | .implFunctionType => .loweredFunction
  | .implEscaping => .words "@escaping"
  | .implParameter | .implResult => .pieces [.children 0 " "]
  | .implErrorResult => .pieces [.words "@error ", .children 0 " "]
  -- other types
  | .tuple => .pieces [.words "(", .children 0 ", ", .words ")"]
  | .tupleElement => .tupleElement
  | .tupleElementName => .pieces [.text, .words ": "]
  | .weak => .after "weak "
  | .unowned => .after "unowned "
  | .unmanaged => .after "unowned(unsafe) "
  | .inOut => .after "inout "
  | .shared => .after "__shared "
  | .owned => .after "__owned "
  | .silBoxType => .after "@box "
  | .dynamicSelf => .words "Self"
  | .errorType => .words "<ERROR TYPE>"
  | .boundGenericClass | .boundGenericStructure | .boundGenericEnum | .boundGenericProtocol
  | .boundGenericOtherNominalType | .boundGenericTypeAlias => .boundGeneric
  | .metatype => .metatype
  | .existentialMetatype => .existentialMetatype
  | .protocolList => .protocolList
  | .protocolListWithClass => .protocolListWithClass
  | .protocolListWithAnyObject => .protocolListWithAnyObject
  | .silBoxTypeWithLayout => .boxWithLayout
  | .silBoxLayout => .boxLayout
  | .silBoxImmutableField => .after "let "
  | .silBoxMutableField => .after "var "
  -- generic signatures
  | .dependentGenericSignature | .dependentPseudogenericSignature => .signature
  | .dependentGenericConformanceRequirement => .pieces [.child 0, .childAfter ": " 1]
  | .dependentGenericLayoutRequirement => .layoutRequirement
  | .dependentGenericSameTypeRequirement => .pieces [.child 0, .childAfter " == " 1]
  | .dependentGenericType => .genericType
  | .dependentMemberType => .pieces [.child 0, .words ".", .child 1]
  | .associatedTypeRef => .pieces [.child 0, .words ".", .childText 1]
  | .assocTypePath => .pieces [.children 0 "."]
  | .associatedTypeGenericParamRef =>
    .pieces [.words "generic parameter reference for associated type ", .children 0 ""]
  -- marks
  | .throwsMark => .words " throws "
  | .emptyList => .words " empty-list "
  | .firstElementMarker => .words " first-element-marker "
  | .variadicMarker => .words " variadic-marker "
  -- attributes of a whole function
  | .objcAttribute => .words "@objc "
  | .nonObjcAttribute => .words "@nonobjc "
  | .dynamicAttribute => .words "dynamic "
  | .directMethodReferenceAttribute => .words "super "
  | .vtableAttribute => .words "override "
  | .mergedFunction => .mergedFunction
  | .partialApplyForwarder => .partialApply " forwarder"
  | .partialApplyObjcForwarder => .partialApply " ObjC forwarder"
  -- thunks and outlined code
  | .curryThunk => .after "curry thunk of "
  | .dispatchThunk => .after "dispatch thunk of "
  | .methodDescriptor => .after "method descriptor for "
  | .methodLookupFunction => .after "method lookup function for "
  | .coroutineContinuationPrototype => .after "coroutine continuation prototype for "
  | .reabstractionThunk => .reabstractionThunk "reabstraction thunk "
  | .reabstractionThunkHelper => .reabstractionThunk "reabstraction thunk helper "
  | .vtableThunk => .pieces [.childAfter "vtable thunk for " 1, .childAfter " dispatching to " 0]
  | .keyPathGetterThunkHelper =>
    .pieces [.words "key path getter for ", .child 0, .words " : ", .children 1 ""]
  | .keyPathSetterThunkHelper =>
    .pieces [.words "key path setter for ", .child 0, .words " : ", .children 1 ""]
  | .keyPathEqualsThunkHelper => .keyPathIndices "key path index equality operator for "
  | .keyPathHashThunkHelper => .keyPathIndices "key path index hash operator for "
  | .outlinedBridgedMethod => .pieces [.words "outlined bridged method (", .text, .words ") of "]
  | .outlinedVariable => .pieces [.words "outlined variable #", .index, .words " of "]
  | .outlinedCopy => .outlined "outlined copy of "
  | .outlinedConsume => .outlined "outlined consume of "
  | .outlinedRetain => .outlined "outlined retain of "
  | .outlinedRelease => .outlined "outlined release of "
  | .outlinedInitializeWithTake => .outlined "outlined init with take of "
  | .outlinedInitializeWithCopy => .outlined "outlined init with copy of "
  | .outlinedAssignWithTake => .outlined "outlined assign with take of "
  | .outlinedAssignWithCopy => .outlined "outlined assign with copy of "
  | .outlinedDestroy => .outlined "outlined destroy of "
  -- specializations
  | .functionSignatureSpecialization => .specialization "function signature specialization" ""
  | .genericSpecialization => .specialization "generic specialization" ""
  | .genericSpecializationNotReAbstracted =>
    .specialization "generic not re-abstracted specialization" ""
  | .genericPartialSpecialization => .specialization "generic partial specialization" "Signature = "
  | .genericPartialSpecializationNotReAbstracted =>
    .specialization "generic not re-abstracted partial specialization" "Signature = "
  | .specializationIsFragile => .words "preserving fragile attribute"
  | .genericSpecializationParam => .specializationParam
  | .functionSignatureSpecializationParam => .argumentRecord
  | .functionSignatureSpecializationReturn => .resultRecord
  | .functionSignatureSpecializationParamKind => .changeKind
  | .functionSignatureSpecializationParamPayload => .mangledText
  -- conformances and witnesses
  | .protocolConformance => .conformance
  | .retroactiveConformance => .retroactive
  | .protocolWitness =>
    .pieces [.childAfter "protocol witness for " 1, .childAfter " in conformance " 0]
  | .protocolWitnessTable => .after "protocol witness table for "
  | .protocolWitnessTablePattern => .after "protocol witness table pattern for "
  | .genericProtocolWitnessTable => .after "generic protocol witness table for "
  | .genericProtocolWitnessTableInstantiationFunction =>
    .after "instantiation function for generic protocol witness table for "
  | .resilientProtocolWitnessTable => .after "resilient protocol witness table for "
  | .protocolWitnessTableAccessor => .after "protocol witness table accessor for "
  | .lazyProtocolWitnessTableAccessor =>
    .pieces [.childAfter "lazy protocol witness table accessor for type " 0,
      .childAfter " and conformance " 1]
  | .lazyProtocolWitnessTableCacheVariable =>
    .pieces [.childAfter "lazy protocol witness table cache variable for type " 0,
      .childAfter " and conformance " 1]
  | .associatedTypeMetadataAccessor =>
    .pieces [.childAfter "associated type metadata accessor for " 1, .childAfter " in " 0]
  | .associatedTypeWitnessTableAccessor =>
    .pieces [.childAfter "associated type witness table accessor for " 1, .childAfter " : " 2,
      .childAfter " in " 0]
  | .valueWitness => .valueWitness
  | .valueWitnessTable => .after "value witness table for "
  | .fieldOffset => .pieces [.child 0, .childAfter "field offset for " 1]
  | .directness => .directness
  -- metadata and descriptors
  | .typeMetadata => .after "type metadata for "
  | .fullTypeMetadata => .after "full type metadata for "
  | .typeMetadataAccessFunction => .after "type metadata accessor for "
  | .typeMetadataInstantiationCache => .after "type metadata instantiation cache for "
  | .typeMetadataInstantiationFunction => .after "type metadata instantiation function for "
  | .typeMetadataSingletonInitializationCache =>
    .after "type metadata singleton initialization cache for "
  | .typeMetadataCompletionFunction => .after "type metadata completion function for "
  | .typeMetadataLazyCache => .after "lazy cache variable for type metadata for "
  | .genericTypeMetadataPattern => .after "generic type metadata pattern for "
  | .metaclass => .after "metaclass for "
  | .classMetadataBaseOffset => .after "class metadata base offset for "
  | .nominalTypeDescriptor => .after "nominal type descriptor for "
  | .propertyDescriptor => .after "property descriptor for "
  | .protocolDescriptor => .after "protocol descriptor for "
  | .protocolConformanceDescriptor => .after "protocol conformance descriptor for "
  | .protocolRequirementsBaseDescriptor => .after "protocol requirements base descriptor for "
  | .associatedTypeDescriptor => .after "associated type descriptor for "
  | .associatedConformanceDescriptor =>
    .pieces [.words "associated conformance descriptor for ", .child 0, .childAfter "." 1,
      .childAfter ": " 2]
  | .defaultAssociatedConformanceAccessor =>
    .pieces [.words "default associated conformance accessor for ", .child 0, .childAfter "." 1,
      .childAfter ": " 2]
  | .defaultAssociatedTypeMetadataAccessor =>
    .after "default associated type metadata accessor for "
  | .moduleDescriptor => .after "module descriptor "
  | .anonymousDescriptor => .after "anonymous descriptor "
  | .extensionDescriptor => .after "extension descriptor "
  | .reflectionMetadataBuiltinDescriptor => .after "reflection metadata builtin descriptor "
  | .reflectionMetadataFieldDescriptor => .after "reflection metadata field descriptor "
  | .reflectionMetadataAssocTypeDescriptor =>
    .after "reflection metadata associated type descriptor "
  | .reflectionMetadataSuperclassDescriptor => .after "reflection metadata superclass descriptor "

end Demangle
