import Demangle.Operator.Generic

/-!
# Metadata

The `M` operators: metadata records of a type, and descriptors of types, protocols, conformances,
properties and contexts.
-/

namespace Demangle.Decode

/-- The metadata of a type by the letter after `M`. -/
def typeMetadata? : Char → Option Kind
  | 'f' => some .fullTypeMetadata
  | 'P' => some .genericTypeMetadataPattern
  | 'a' => some .typeMetadataAccessFunction
  | 'I' => some .typeMetadataInstantiationCache
  | 'i' => some .typeMetadataInstantiationFunction
  | 'r' => some .typeMetadataCompletionFunction
  | 'l' => some .typeMetadataSingletonInitializationCache
  | 'L' => some .typeMetadataLazyCache
  | 'm' => some .metaclass
  | 'n' => some .nominalTypeDescriptor
  | 'o' => some .classMetadataBaseOffset
  | 'u' => some .methodLookupFunction
  | 'B' => some .reflectionMetadataBuiltinDescriptor
  | 'F' => some .reflectionMetadataFieldDescriptor
  | _ => none

/-- The descriptors of contexts by the letter after `MX`. -/
def contextDescriptor? : Char → Option (Decode Symbol)
  | 'E' => some (return .node .extensionDescriptor [← popContext])
  | 'M' => some (return .node .moduleDescriptor [← popModule])
  | 'Y' => some do
    let discriminator ← pop
    let context ← popContext
    return .node .anonymousDescriptor [context, discriminator]
  | 'X' => some (return .node .anonymousDescriptor [← popContext])
  | 'A' => some do
    let path ← popAssociatedTypePath
    let base ← popType
    return .node .associatedTypeGenericParamRef [base, path]
  | _ => none

/-- The descriptor of a context. -/
def contextDescriptor : Decode Symbol := do
  let read ← Scan.letter (.expected "a context descriptor letter") contextDescriptor?
  read

/-- The operators by the letter after `M`. -/
def metadata? (c : Char) : Option (Decode Symbol) :=
  match c with
  | 'c' => some (return .node .protocolConformanceDescriptor [← popConformance])
  | 'p' => some (return .node .protocolDescriptor [← popProtocol])
  | 'A' => some (return .node .reflectionMetadataAssocTypeDescriptor [← popConformance])
  | 'C' => some (return .node .reflectionMetadataSuperclassDescriptor [← popAnyGeneric])
  | 'V' => some (return .node .propertyDescriptor [← popEntity])
  | 'X' => some contextDescriptor
  | c => (typeMetadata? c).map fun kind => return .node kind [← popType]

/-- The `M` operator. -/
def metadata : Decode Symbol := do
  let read ← Scan.letter (.expected "a metadata letter") metadata?
  read

end Demangle.Decode
