/-
  `Kind` — what a node of a demangled name stands for.

  Every kind has the name it is shown by and a number that tells it apart from the others. `all`
  lists the kinds in the order of their numbers, and `ofName?` finds one by its name.
-/

namespace SwiftABI

/-- The kinds of nodes, in the groups of the grammar. -/
inductive Kind where
  -- top level
  | global | type | suffix
  -- names
  | moduleName | identifier | localDeclName | privateDeclName | relatedEntityDeclName
  | prefixOperator | postfixOperator | infixOperator | number | index
  -- nominal types
  | structType | classType | enumType | protocolType | typeAlias | otherNominalType
  | extensionDecl | boundGenericStructure | boundGenericClass | boundGenericEnum
  | boundGenericProtocol | boundGenericTypeAlias | boundGenericOtherNominalType
  | boundGenericFunction
  -- entities
  | functionDecl | variableDecl | subscriptDecl | staticDecl | allocator | constructorDecl
  | destructor | deallocator | initializer | ivarInitializer | ivarDestroyer | explicitClosure
  | implicitClosure | defaultArgumentInitializer | genericTypeParamDecl
  -- accessors
  | getter | setter | materializeForSet | globalGetter | willSet | didSet | readAccessor
  | modifyAccessor | owningAddressor | nativeOwningAddressor | nativePinningAddressor
  | unsafeAddressor | owningMutableAddressor | nativeOwningMutableAddressor
  | nativePinningMutableAddressor | unsafeMutableAddressor
  -- function types
  | functionType | noEscapeFunctionType | escapingAutoClosureType | autoClosureType
  | thinFunctionType | objcBlock | cFunctionPointer | argumentTuple | returnType
  | throwsMarker
  -- lists
  | typeList | tuple | tupleElement | tupleElementName | variadicMarker | emptyList
  | firstElementMarker | labelList
  -- other types
  | weak | unowned | unmanaged | dynamicSelf | inOut | shared | owned | metatype
  | existentialMetatype | metatypeRepresentation | protocolList | protocolListWithAnyObject
  | errorType | sugaredOptional | sugaredArray | sugaredDictionary | sugaredParen
  | builtinTypeName | dependentGenericParamType
  -- global symbols
  | typeMangling | typeMetadata | typeMetadataAccessFunction | fullTypeMetadata
  | nominalTypeDescriptor | metaclass | protocolDescriptor | valueWitnessTable | valueWitness
  | enumCase | fieldOffset | directness
  deriving DecidableEq

namespace Kind

/-- The name a kind is shown by. -/
def name : Kind → String
  | .global => "Global"
  | .type => "Type"
  | .suffix => "Suffix"
  | .moduleName => "Module"
  | .identifier => "Identifier"
  | .localDeclName => "LocalDeclName"
  | .privateDeclName => "PrivateDeclName"
  | .relatedEntityDeclName => "RelatedEntityDeclName"
  | .prefixOperator => "PrefixOperator"
  | .postfixOperator => "PostfixOperator"
  | .infixOperator => "InfixOperator"
  | .number => "Number"
  | .index => "Index"
  | .structType => "Structure"
  | .classType => "Class"
  | .enumType => "Enum"
  | .protocolType => "Protocol"
  | .typeAlias => "TypeAlias"
  | .otherNominalType => "OtherNominalType"
  | .extensionDecl => "Extension"
  | .boundGenericStructure => "BoundGenericStructure"
  | .boundGenericClass => "BoundGenericClass"
  | .boundGenericEnum => "BoundGenericEnum"
  | .boundGenericProtocol => "BoundGenericProtocol"
  | .boundGenericTypeAlias => "BoundGenericTypeAlias"
  | .boundGenericOtherNominalType => "BoundGenericOtherNominalType"
  | .boundGenericFunction => "BoundGenericFunction"
  | .functionDecl => "Function"
  | .variableDecl => "Variable"
  | .subscriptDecl => "Subscript"
  | .staticDecl => "Static"
  | .allocator => "Allocator"
  | .constructorDecl => "Constructor"
  | .destructor => "Destructor"
  | .deallocator => "Deallocator"
  | .initializer => "Initializer"
  | .ivarInitializer => "IVarInitializer"
  | .ivarDestroyer => "IVarDestroyer"
  | .explicitClosure => "ExplicitClosure"
  | .implicitClosure => "ImplicitClosure"
  | .defaultArgumentInitializer => "DefaultArgumentInitializer"
  | .genericTypeParamDecl => "GenericTypeParamDecl"
  | .getter => "Getter"
  | .setter => "Setter"
  | .materializeForSet => "MaterializeForSet"
  | .globalGetter => "GlobalGetter"
  | .willSet => "WillSet"
  | .didSet => "DidSet"
  | .readAccessor => "ReadAccessor"
  | .modifyAccessor => "ModifyAccessor"
  | .owningAddressor => "OwningAddressor"
  | .nativeOwningAddressor => "NativeOwningAddressor"
  | .nativePinningAddressor => "NativePinningAddressor"
  | .unsafeAddressor => "UnsafeAddressor"
  | .owningMutableAddressor => "OwningMutableAddressor"
  | .nativeOwningMutableAddressor => "NativeOwningMutableAddressor"
  | .nativePinningMutableAddressor => "NativePinningMutableAddressor"
  | .unsafeMutableAddressor => "UnsafeMutableAddressor"
  | .functionType => "FunctionType"
  | .noEscapeFunctionType => "NoEscapeFunctionType"
  | .escapingAutoClosureType => "EscapingAutoClosureType"
  | .autoClosureType => "AutoClosureType"
  | .thinFunctionType => "ThinFunctionType"
  | .objcBlock => "ObjCBlock"
  | .cFunctionPointer => "CFunctionPointer"
  | .argumentTuple => "ArgumentTuple"
  | .returnType => "ReturnType"
  | .throwsMarker => "ThrowsAnnotation"
  | .typeList => "TypeList"
  | .tuple => "Tuple"
  | .tupleElement => "TupleElement"
  | .tupleElementName => "TupleElementName"
  | .variadicMarker => "VariadicMarker"
  | .emptyList => "EmptyList"
  | .firstElementMarker => "FirstElementMarker"
  | .labelList => "LabelList"
  | .weak => "Weak"
  | .unowned => "Unowned"
  | .unmanaged => "Unmanaged"
  | .dynamicSelf => "DynamicSelf"
  | .inOut => "InOut"
  | .shared => "Shared"
  | .owned => "Owned"
  | .metatype => "Metatype"
  | .existentialMetatype => "ExistentialMetatype"
  | .metatypeRepresentation => "MetatypeRepresentation"
  | .protocolList => "ProtocolList"
  | .protocolListWithAnyObject => "ProtocolListWithAnyObject"
  | .errorType => "ErrorType"
  | .sugaredOptional => "SugaredOptional"
  | .sugaredArray => "SugaredArray"
  | .sugaredDictionary => "SugaredDictionary"
  | .sugaredParen => "SugaredParen"
  | .builtinTypeName => "BuiltinTypeName"
  | .dependentGenericParamType => "DependentGenericParamType"
  | .typeMangling => "TypeMangling"
  | .typeMetadata => "TypeMetadata"
  | .typeMetadataAccessFunction => "TypeMetadataAccessFunction"
  | .fullTypeMetadata => "FullTypeMetadata"
  | .nominalTypeDescriptor => "NominalTypeDescriptor"
  | .metaclass => "Metaclass"
  | .protocolDescriptor => "ProtocolDescriptor"
  | .valueWitnessTable => "ValueWitnessTable"
  | .valueWitness => "ValueWitness"
  | .enumCase => "EnumCase"
  | .fieldOffset => "FieldOffset"
  | .directness => "Directness"

/-- The number of a kind. The groups leave gaps between them. -/
def value : Kind → Nat
  | .global => 0
  | .type => 1
  | .suffix => 2
  | .moduleName => 10
  | .identifier => 11
  | .localDeclName => 12
  | .privateDeclName => 13
  | .relatedEntityDeclName => 14
  | .prefixOperator => 15
  | .postfixOperator => 16
  | .infixOperator => 17
  | .number => 18
  | .index => 19
  | .structType => 30
  | .classType => 31
  | .enumType => 32
  | .protocolType => 33
  | .typeAlias => 34
  | .otherNominalType => 35
  | .extensionDecl => 36
  | .boundGenericStructure => 40
  | .boundGenericClass => 41
  | .boundGenericEnum => 42
  | .boundGenericProtocol => 43
  | .boundGenericTypeAlias => 44
  | .boundGenericOtherNominalType => 45
  | .boundGenericFunction => 46
  | .functionDecl => 50
  | .variableDecl => 51
  | .subscriptDecl => 52
  | .staticDecl => 53
  | .allocator => 54
  | .constructorDecl => 55
  | .destructor => 56
  | .deallocator => 57
  | .initializer => 58
  | .ivarInitializer => 59
  | .ivarDestroyer => 60
  | .explicitClosure => 61
  | .implicitClosure => 62
  | .defaultArgumentInitializer => 63
  | .genericTypeParamDecl => 64
  | .getter => 70
  | .setter => 71
  | .materializeForSet => 72
  | .globalGetter => 73
  | .willSet => 74
  | .didSet => 75
  | .readAccessor => 76
  | .modifyAccessor => 77
  | .owningAddressor => 78
  | .nativeOwningAddressor => 79
  | .nativePinningAddressor => 80
  | .unsafeAddressor => 81
  | .owningMutableAddressor => 82
  | .nativeOwningMutableAddressor => 83
  | .nativePinningMutableAddressor => 84
  | .unsafeMutableAddressor => 85
  | .functionType => 90
  | .noEscapeFunctionType => 91
  | .escapingAutoClosureType => 92
  | .autoClosureType => 93
  | .thinFunctionType => 94
  | .objcBlock => 95
  | .cFunctionPointer => 96
  | .argumentTuple => 97
  | .returnType => 98
  | .throwsMarker => 99
  | .typeList => 110
  | .tuple => 111
  | .tupleElement => 112
  | .tupleElementName => 113
  | .variadicMarker => 114
  | .emptyList => 115
  | .firstElementMarker => 116
  | .labelList => 117
  | .weak => 120
  | .unowned => 121
  | .unmanaged => 122
  | .dynamicSelf => 123
  | .inOut => 124
  | .shared => 125
  | .owned => 126
  | .metatype => 127
  | .existentialMetatype => 128
  | .metatypeRepresentation => 129
  | .protocolList => 130
  | .protocolListWithAnyObject => 131
  | .errorType => 132
  | .sugaredOptional => 133
  | .sugaredArray => 134
  | .sugaredDictionary => 135
  | .sugaredParen => 136
  | .builtinTypeName => 137
  | .dependentGenericParamType => 138
  | .typeMangling => 150
  | .typeMetadata => 151
  | .typeMetadataAccessFunction => 152
  | .fullTypeMetadata => 153
  | .nominalTypeDescriptor => 154
  | .metaclass => 155
  | .protocolDescriptor => 156
  | .valueWitnessTable => 157
  | .valueWitness => 158
  | .enumCase => 159
  | .fieldOffset => 160
  | .directness => 161

/-- All kinds, by ascending number. -/
def all : List Kind :=
  [.global, .type, .suffix, .moduleName, .identifier, .localDeclName, .privateDeclName,
   .relatedEntityDeclName, .prefixOperator, .postfixOperator, .infixOperator, .number, .index,
   .structType, .classType, .enumType, .protocolType, .typeAlias, .otherNominalType,
   .extensionDecl, .boundGenericStructure, .boundGenericClass, .boundGenericEnum,
   .boundGenericProtocol, .boundGenericTypeAlias, .boundGenericOtherNominalType,
   .boundGenericFunction, .functionDecl, .variableDecl, .subscriptDecl, .staticDecl, .allocator,
   .constructorDecl, .destructor, .deallocator, .initializer, .ivarInitializer, .ivarDestroyer,
   .explicitClosure, .implicitClosure, .defaultArgumentInitializer, .genericTypeParamDecl,
   .getter, .setter, .materializeForSet, .globalGetter, .willSet, .didSet, .readAccessor,
   .modifyAccessor, .owningAddressor, .nativeOwningAddressor, .nativePinningAddressor,
   .unsafeAddressor, .owningMutableAddressor, .nativeOwningMutableAddressor,
   .nativePinningMutableAddressor, .unsafeMutableAddressor, .functionType, .noEscapeFunctionType,
   .escapingAutoClosureType, .autoClosureType, .thinFunctionType, .objcBlock, .cFunctionPointer,
   .argumentTuple, .returnType, .throwsMarker, .typeList, .tuple, .tupleElement,
   .tupleElementName, .variadicMarker, .emptyList, .firstElementMarker, .labelList, .weak,
   .unowned, .unmanaged, .dynamicSelf, .inOut, .shared, .owned, .metatype, .existentialMetatype,
   .metatypeRepresentation, .protocolList, .protocolListWithAnyObject, .errorType,
   .sugaredOptional, .sugaredArray, .sugaredDictionary, .sugaredParen, .builtinTypeName,
   .dependentGenericParamType, .typeMangling, .typeMetadata, .typeMetadataAccessFunction,
   .fullTypeMetadata, .nominalTypeDescriptor, .metaclass, .protocolDescriptor,
   .valueWitnessTable, .valueWitness, .enumCase, .fieldOffset, .directness]

/-- The kind shown by a name, if there is one. -/
def ofName? (s : String) : Option Kind := all.find? fun k => k.name = s

theorem mem_all (k : Kind) : k ∈ all := by cases k <;> decide

end Kind

end SwiftABI
