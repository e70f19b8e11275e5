import Demangle.Kind.Basic

/-!
# Roles of the kinds

Which kinds may stand as a declaration name, as a context, as a requirement and so on. The operators
of the mangling pop operands by these roles.
-/

namespace Demangle.Kind

/-- Kinds that can stand as the name of a declaration. -/
def isDeclName : Kind → Bool
  | .identifier | .localDeclName | .privateDeclName | .relatedEntityDeclName | .prefixOperator
  | .postfixOperator | .infixOperator | .unresolvedSymbolicReference | .symbolicReference => true
  | _ => false

/-- Kinds that can be the enclosing context of another entity. -/
def isContext : Kind → Bool
  | .allocator | .classType | .anonymousContext | .constructor | .curryThunk | .deallocator
  | .defaultArgumentInitializer | .destructor | .didSet | .dispatchThunk | .enumType
  | .explicitClosure | .extension | .function | .getter | .globalGetter | .ivarInitializer
  | .ivarDestroyer | .implicitClosure | .initializer | .materializeForSet | .moduleName
  | .nativeOwningAddressor | .nativeOwningMutableAddressor | .nativePinningAddressor
  | .nativePinningMutableAddressor | .otherNominalType | .owningAddressor | .owningMutableAddressor
  | .protocolType | .setter | .staticEntity | .structType | .subscript | .symbolicReference
  | .typeAlias | .unresolvedSymbolicReference | .unsafeAddressor | .unsafeMutableAddressor
  | .variableDecl | .willSet => true
  | _ => false

/-- Nominal type declarations, which may carry generic arguments. -/
def isAnyGeneric : Kind → Bool
  | .structType | .classType | .enumType | .protocolType | .otherNominalType | .typeAlias
  | .symbolicReference | .unresolvedSymbolicReference => true
  | _ => false

/-- Contexts and types. -/
def isEntity (k : Kind) : Bool :=
  k == .type || k.isContext

/-- Requirements of a generic signature. -/
def isRequirement : Kind → Bool
  | .dependentGenericSameTypeRequirement | .dependentGenericLayoutRequirement
  | .dependentGenericConformanceRequirement => true
  | _ => false

/-- Attributes that decorate a whole top-level function symbol. -/
def isFunctionAttribute : Kind → Bool
  | .functionSignatureSpecialization | .genericPartialSpecialization
  | .genericSpecializationNotReAbstracted | .genericSpecialization
  | .genericPartialSpecializationNotReAbstracted | .objcAttribute | .nonObjcAttribute
  | .dynamicAttribute | .directMethodReferenceAttribute | .vtableAttribute | .partialApplyForwarder
  | .partialApplyObjcForwarder | .outlinedVariable | .outlinedBridgedMethod
  | .mergedFunction => true
  | _ => false

/-- Types whose metatype is written with `.Protocol`. -/
def isExistentialType : Kind → Bool
  | .existentialMetatype | .protocolList | .protocolListWithClass
  | .protocolListWithAnyObject => true
  | _ => false

/-- Types that need no parentheses in front of a trailing mark such as `?`. -/
def isSimpleType : Kind → Bool
  | .associatedType | .associatedTypeRef | .boundGenericClass | .boundGenericEnum
  | .boundGenericStructure | .boundGenericOtherNominalType | .builtinTypeName | .classType
  | .dependentGenericType | .dependentMemberType | .dependentGenericParamType | .dynamicSelf
  | .enumType | .errorType | .existentialMetatype | .metatype | .metatypeRepresentation
  | .moduleName | .tuple | .protocolType | .returnType | .silBoxType | .silBoxTypeWithLayout
  | .structType | .otherNominalType | .tupleElementName | .type | .typeAlias | .typeList
  | .labelList | .symbolicReference | .unresolvedSymbolicReference => true
  | _ => false

/-- Specializations, which share one `specialized ` lead when they are not spelled out. -/
def isSpecialization : Kind → Bool
  | .genericSpecialization | .genericSpecializationNotReAbstracted | .genericPartialSpecialization
  | .genericPartialSpecializationNotReAbstracted | .functionSignatureSpecialization => true
  | _ => false

end Demangle.Kind
