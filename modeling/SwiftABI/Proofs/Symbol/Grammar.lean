/-
  The grammar of the trees that symbols are read as.

  `Node.Rule` says of a node, kind by kind, what its payload is, of which kinds its children are,
  and what they have to do with each other: labels go with the type behind them, an argument tuple
  counts its elements, generic arguments are applied to a nominal type of the matching kind. Every
  node that obeys it fits its kind (`Node.Rule.fits`). `Node.All` carries a property to all nodes of
  a tree.
-/
import SwiftABI.Proofs.Node.Fits
import SwiftABI.Symbol.Reading.Reference
import SwiftABI.Symbol.Reading.Type

namespace SwiftABI

/-! ### Properties of all nodes of a tree -/

/-- The property holds of every node of the tree. -/
inductive Node.All (p : Node → Prop) : Node → Prop where
  | mk {k : Kind} {q : Payload} {cs : List Node} (root : p (.mk k q cs))
    (below : ∀ c ∈ cs, All p c) :
    All p (.mk k q cs)

namespace Node.All

variable {p : Node → Prop} {n : Node}

theorem root (h : n.All p) : p n := by
  cases h
  assumption

theorem children (h : n.All p) : ∀ c ∈ n.children, c.All p := by
  cases h
  assumption

theorem of_children (hroot : p n) (hbelow : ∀ c ∈ n.children, c.All p) : n.All p := by
  cases n
  exact .mk hroot hbelow

private theorem visit_iff (pending : List Node) :
    (∀ m ∈ Node.visit pending, p m) ↔ ∀ n ∈ pending, n.All p := by
  fun_induction Node.visit pending with
  | case1 => simp
  | case2 k q cs rest ih =>
    rw [List.forall_mem_cons, List.forall_mem_cons, ih, List.forall_mem_append]
    refine ⟨fun ⟨hroot, hbelow, hrest⟩ => ⟨.mk hroot hbelow, hrest⟩, fun ⟨h, hrest⟩ => ?_⟩
    exact ⟨h.root, h.children, hrest⟩

/-- The nodes of a tree are those that a walk comes to. -/
theorem iff_walk : n.All p ↔ ∀ m ∈ n.walk, p m :=
  ((visit_iff [n]).trans List.forall_mem_singleton).symm

theorem mono {q : Node → Prop} (h : n.All p) (hpq : ∀ m, p m → q m) : n.All q :=
  iff_walk.mpr fun m hm => hpq m (iff_walk.mp h m hm)

theorem and {q : Node → Prop} (hp : n.All p) (hq : n.All q) : n.All fun m => p m ∧ q m :=
  iff_walk.mpr fun m hm => ⟨iff_walk.mp hp m hm, iff_walk.mp hq m hm⟩

mutual

/-- Whether all nodes of a tree have a property can be found out, if it can be for one node. -/
def decidable (p : Node → Prop) [DecidablePred p] : (n : Node) → Decidable (n.All p)
  | .mk k q cs =>
    have := decidableEach p cs
    decidable_of_iff (p (.mk k q cs) ∧ ∀ c ∈ cs, c.All p)
      ⟨fun h => .mk h.1 h.2, fun h => ⟨h.root, h.children⟩⟩

def decidableEach (p : Node → Prop) [DecidablePred p] :
    (ns : List Node) → Decidable (∀ n ∈ ns, n.All p)
  | [] => .isTrue (List.forall_mem_nil _)
  | n :: ns =>
    have := decidable p n
    have := decidableEach p ns
    decidable_of_iff (n.All p ∧ ∀ n ∈ ns, n.All p) List.forall_mem_cons.symm

end

instance (p : Node → Prop) [DecidablePred p] (n : Node) : Decidable (n.All p) := decidable p n

end Node.All

/-- Only types wrap something. -/
theorem Node.unwrapped_of_ne {n : Node} (h : n.kind ≠ .type) : n.unwrapped = n := by
  rcases n with ⟨k, p, cs⟩
  change k ≠ .type at h
  unfold unwrapped
  split
  · rename_i heq
    injection heq with hk
    exact absurd hk h
  · rfl

/-! ### Groups of kinds -/

namespace Kind

/-- Entities other than functions and storage that have a context and nothing else. -/
def bareScopes : List Kind :=
  [.destructor, .deallocator, .initializer, .ivarInitializer, .ivarDestroyer]

/-- Kinds around a single type. -/
def aroundType : List Kind :=
  [.returnType, .weak, .unowned, .unmanaged, .dynamicSelf, .sugaredOptional, .sugaredArray,
   .sugaredParen, .typeMetadata, .typeMetadataAccessFunction, .fullTypeMetadata,
   .nominalTypeDescriptor, .metaclass, .valueWitnessTable]

/-- Kinds without payload and children. -/
def markers : List Kind :=
  [.throwsMarker, .emptyList, .firstElementMarker, .variadicMarker, .errorType]

/-- Names, numbers and what names are made of. -/
def nameParts : List Kind :=
  [.suffix, .number, .index, .directness, .localDeclName, .privateDeclName,
   .relatedEntityDeclName] ++ identifierLike

/-- Declarations, with generic arguments or without, and what a symbol says of a single one. -/
def declarations : List Kind :=
  nominals ++ boundGenerics ++ scopes ++ [.genericTypeParamDecl, .enumCase, .fieldOffset]

/-- Function types and tuples, and the lists that they are made of. -/
def signatureParts : List Kind :=
  functionTypes ++ [.argumentTuple, .typeList, .tuple, .tupleElement, .labelList]

theorem mem_of_group {ks group : List Kind} {k : Kind} (hk : k ∈ group) (h : ∀ k ∈ group, k ∈ ks) :
    k ∈ ks :=
  h k hk

theorem not_mem_of_group {ks group : List Kind} {k : Kind} (hk : k ∈ group)
    (h : ∀ k ∈ group, k ∉ ks) :
    k ∉ ks :=
  h k hk

end Kind

/-! ### Names, labels and builtin types -/

/-- The names of builtin types that a symbol can spell. -/
inductive BuiltinName (cfg : Config) : Text → Prop where
  | named {c : CodePoint} {name : Text} (h : (c, name) ∈ Code.builtinTypes) : BuiltinName cfg name
  | float {size : Nat} (hpos : 0 < size) (hlimit : (size : Int) < cfg.maxBuiltinSize) :
    BuiltinName cfg ("Builtin.FPIEEE".text ++ Text.digits size)
  | integer {size : Nat} (hpos : 0 < size) (hlimit : (size : Int) < cfg.maxBuiltinSize) :
    BuiltinName cfg ("Builtin.Int".text ++ Text.digits size)
  | vector {size : Nat} {element : Text} (hpos : 0 < size)
    (hlimit : (size : Int) < cfg.maxBuiltinSize)
    (h : BuiltinName cfg (Reading.builtinPrefix ++ element)) :
    BuiltinName cfg ("Builtin.Vec".text ++ Text.digits size ++ ('x' : CodePoint) :: element)

/-- A character that an operator name can be made of. -/
def Operator.IsOperatorChar (c : CodePoint) : Prop := Operator.char? (Operator.letter c) = some c

/-- A letter for the way in which a name is related to another one. -/
def IsRelationLetter (c : CodePoint) : Prop := (('a' ≤ c && c ≤ 'j') || ('A' ≤ c && c ≤ 'J')) = true

/-- How many arguments a type stands for. -/
def argumentCount (t : Node) : Nat :=
  if t.unwrapped.kind = .tuple then t.unwrapped.children.length else 1

/-- The labels, if there are any, are those of a declaration with the type. -/
inductive LabelsFit : Option Node → Node → Prop where
  | absent {t : Node}
    (h : t.unwrapped.kind ≠ .functionType ∧ t.unwrapped.kind ≠ .noEscapeFunctionType) :
    LabelsFit none t
  | noArguments {t parameters : Node}
    (h : Reading.argumentsOf? t.unwrapped = some (.mk .argumentTuple (.index 0) [parameters])) :
    LabelsFit none t
  | unnamed (t : Node) : LabelsFit (some (.mk .labelList .none [])) t
  | named {t parameters : Node} {labels : List Node}
    (hkind : t.unwrapped.kind = .functionType ∨ t.unwrapped.kind = .noEscapeFunctionType)
    (h : Reading.argumentsOf? t.unwrapped
      = some (.mk .argumentTuple (.index labels.length) [parameters]))
    (htuple : parameters.unwrapped.kind = .tuple)
    (hlabels : ∀ l ∈ labels, l.kind = .identifier ∨ l.kind = .firstElementMarker)
    (hname : ∃ l ∈ labels, l.kind ≠ .firstElementMarker) :
    LabelsFit (some (.mk .labelList .none labels)) t

/-- The modules that a symbol has letters for. All others are named by identifiers. -/
def lettered : List Text := [Standard.moduleText, Code.objcModule, Code.importerModule]

/-! ### Nodes on the stack -/

namespace Kind

/-- The kinds of nodes that operators leave on the stack, apart from those that no other operator
takes from there again. -/
def stackable : List Kind :=
  [.type, .moduleName, .identifier, .localDeclName, .privateDeclName,
   .relatedEntityDeclName, .prefixOperator, .postfixOperator, .infixOperator, .extensionDecl,
   .functionDecl, .variableDecl, .subscriptDecl, .staticDecl, .allocator, .constructorDecl,
   .destructor, .deallocator, .initializer, .ivarInitializer, .ivarDestroyer, .explicitClosure,
   .implicitClosure, .defaultArgumentInitializer, .genericTypeParamDecl, .throwsMarker,
   .variadicMarker, .emptyList, .firstElementMarker, .typeMetadata,
   .typeMetadataAccessFunction, .fullTypeMetadata, .nominalTypeDescriptor, .metaclass,
   .protocolDescriptor, .valueWitnessTable, .valueWitness, .enumCase, .fieldOffset] ++ accessors

end Kind

/-- A node can lie on the stack: modules only if they have letters, and extensions only of types
without generic arguments. -/
structure Node.OnStack (n : Node) : Prop where
  kind : n.kind ∈ Kind.stackable
  module : ∀ t cs, n = .mk .moduleName (.text t) cs → t ∈ lettered
  extended : ∀ p m e, n = .mk .extensionDecl p [m, e] → e.kind ∈ Kind.nominals

/-- A declaration can lie in the node, and no generic arguments are applied to it. -/
structure Node.PlainContext (n : Node) : Prop where
  kind : n.kind.isContext = true
  extended : ∀ p m e, n = .mk .extensionDecl p [m, e] → e.kind ∈ Kind.nominals

/-! ### Nodes -/

/-- What the grammar demands of a node. -/
inductive Node.Rule (cfg : Config) : Node → Prop where
  | type {t : Node} (h : t.kind ∈ Kind.types) : Rule cfg (.mk .type .none [t])
  | suffix (t : Text) : Rule cfg (.mk .suffix (.text ('.' :: t)) [])
  | name {k : Kind} {t : Text} (hk : k ∈ [Kind.identifier, .moduleName, .tupleElementName])
    (ht : t ≠ []) : Rule cfg (.mk k (.text t) [])
  | operatorName {k : Kind} {t : Text} (hk : k ∈ Kind.operators) (ht : t ≠ [])
    (hchars : ∀ c ∈ t, Operator.IsOperatorChar c) : Rule cfg (.mk k (.text t) [])
  | number {k : Kind} (hk : k ∈ [Kind.number, .index]) (i : Nat) : Rule cfg (.mk k (.index i) [])
  | directness {i : Int} (h : i = 0 ∨ i = 1) : Rule cfg (.mk .directness (.index i) [])
  | localDeclName (i : Nat) {name : Node} (hname : name.kind.isDeclName = true) :
    Rule cfg (.mk .localDeclName .none [.mk .number (.index i) [], name])
  | privateDeclName {discriminator : Node} {name : Option Node}
    (hdiscriminator : discriminator.kind = .identifier)
    (hname : ∀ n ∈ name, n.kind.isDeclName = true) :
    Rule cfg (.mk .privateDeclName .none (discriminator :: name.toList))
  | relatedEntityDeclName {c : CodePoint} {name : Node} (hc : IsRelationLetter c)
    (hname : name.kind.isDeclName = true) :
    Rule cfg (.mk .relatedEntityDeclName (.text [c]) [name])
  | nominal {k : Kind} {context name : Node} (hk : k ∈ Kind.nominals)
    (hcontext : context.kind ∈ Kind.contextChildren) (hname : name.kind.isDeclName = true) :
    Rule cfg (.mk k .none [context, name])
  | boundNominal {k : Kind} {nominal : Node} {arguments : List Node} (hk : k ∈ Kind.boundNominals)
    (hnominal : nominal.kind.bound? = some k ∨ nominal.kind = k) (hne : arguments ≠ [])
    (harguments : ∀ a ∈ arguments, a.kind = .type) :
    Rule cfg (.mk k .none [.mk .type .none [nominal], .mk .typeList .none arguments])
  | boundFunction {function : Node} {arguments : List Node}
    (hfunction : function.kind = .functionDecl ∨ function.kind = .constructorDecl)
    (hne : arguments ≠ []) (harguments : ∀ a ∈ arguments, a.kind = .type) :
    Rule cfg (.mk .boundGenericFunction .none [function, .mk .typeList .none arguments])
  | extension {module extended : Node} (hmodule : module.kind = .moduleName)
    (hextended : extended.kind ∈ Kind.nominals ++ Kind.boundNominals) :
    Rule cfg (.mk .extensionDecl .none [module, extended])
  | declaration {k : Kind} {context name t : Node} {labels : Option Node}
    (hk : k ∈ [Kind.functionDecl, .variableDecl, .genericTypeParamDecl])
    (hcontext : context.kind ∈ Kind.contextChildren) (hname : name.kind.isDeclName = true)
    (ht : t.kind = .type) (hlabels : LabelsFit labels t)
    (hfunction : k = .functionDecl → t.unwrapped.kind = .functionType)
    (hparam : k = .genericTypeParamDecl → context.PlainContext) :
    Rule cfg (.mk k .none ([context, name] ++ labels.toList ++ [t]))
  | unnamed {k : Kind} {context t : Node} {labels privateName : Option Node}
    (hk : k ∈ [Kind.allocator, .constructorDecl, .subscriptDecl])
    (hcontext : context.kind ∈ Kind.contextChildren) (ht : t.kind = .type)
    (hlabels : LabelsFit labels t) (hprivate : ∀ n ∈ privateName, n.kind = .privateDeclName)
    (hsubscript : k = .subscriptDecl → labels.isSome = true) :
    Rule cfg (.mk k .none (context :: (labels.toList ++ [t] ++ privateName.toList)))
  | bareScope {k : Kind} {context : Node} (hk : k ∈ Kind.bareScopes)
    (hcontext : context.kind ∈ Kind.contextChildren) : Rule cfg (.mk k .none [context])
  | closure {k : Kind} {context t : Node} (hk : k ∈ [Kind.explicitClosure, .implicitClosure])
    (hcontext : context.kind ∈ Kind.contextChildren) (i : Nat) (ht : t.kind = .type) :
    Rule cfg (.mk k .none [context, .mk .number (.index i) [], t])
  | defaultArgument {context : Node} (hcontext : context.kind ∈ Kind.contextChildren) (i : Nat) :
    Rule cfg (.mk .defaultArgumentInitializer .none [context, .mk .number (.index i) []])
  | accessor {k : Kind} {storage : Node} (hk : k ∈ Kind.accessors)
    (hstorage : storage.kind = .variableDecl ∨ storage.kind = .subscriptDecl) :
    Rule cfg (.mk k .none [storage])
  | staticDecl {entity : Node} (hentity : entity.kind.isEntity = true)
    (hnominal : entity.kind ∉ Kind.nominals)
    (hmodule : ∀ t cs, entity = .mk .moduleName (.text t) cs → t ∈ lettered) :
    Rule cfg (.mk .staticDecl .none [entity])
  | enumCase {entity : Node} (hentity : entity.kind.isEntity = true) (hstack : entity.OnStack) :
    Rule cfg (.mk .enumCase .none [entity])
  | fieldOffset {i : Int} {entity : Node} (h : i = 0 ∨ i = 1)
    (hentity : entity.kind.isEntity = true) (hstack : entity.OnStack) :
    Rule cfg (.mk .fieldOffset .none [.mk .directness (.index i) [], entity])
  | functionType {k : Kind} {throws : Option Node} {arguments result : Node}
    (hk : k ∈ Kind.functionTypes) (hthrows : ∀ n ∈ throws, n.kind = .throwsMarker)
    (harguments : arguments.kind = .argumentTuple) (hresult : result.kind = .returnType) :
    Rule cfg (.mk k .none (throws.toList ++ [arguments, result]))
  | argumentTuple {t : Node} (ht : t.kind = .type) :
    Rule cfg (.mk .argumentTuple (.index (argumentCount t)) [t])
  | aroundType {k : Kind} {t : Node} (hk : k ∈ Kind.aroundType) (ht : t.kind = .type) :
    Rule cfg (.mk k .none [t])
  | protocolDescriptor {p : Node} (h : p.kind = .protocolType) :
    Rule cfg (.mk .protocolDescriptor .none [.mk .type .none [p]])
  | valueWitness {i : Nat} {t : Node} (h : i < Code.valueWitnesses.length) (ht : t.kind = .type) :
    Rule cfg (.mk .valueWitness (.index i) [t])
  | passing {k : Kind} {t : Node} (hk : k ∈ [Kind.inOut, .shared, .owned])
    (ht : t.kind ∈ Kind.types) :
    Rule cfg (.mk k .none [t])
  | typeList {ts : List Node} (h : ∀ t ∈ ts, t.kind = .type) : Rule cfg (.mk .typeList .none ts)
  | tuple {elements : List Node} (h : ∀ e ∈ elements, e.kind = .tupleElement) :
    Rule cfg (.mk .tuple .none elements)
  | tupleElement {variadic name : Option Node} {t : Node}
    (hvariadic : ∀ n ∈ variadic, n.kind = .variadicMarker)
    (hname : ∀ n ∈ name, n.kind = .tupleElementName) (ht : t.kind = .type) :
    Rule cfg (.mk .tupleElement .none (variadic.toList ++ name.toList ++ [t]))
  | labelList {ls : List Node}
    (h : ∀ l ∈ ls, l.kind = .identifier ∨ l.kind = .firstElementMarker)
    (hname : ls = [] ∨ ∃ l ∈ ls, l.kind ≠ .firstElementMarker) :
    Rule cfg (.mk .labelList .none ls)
  | metatype {k : Kind} {representation : Option Node} {t : Node}
    (hk : k ∈ [Kind.metatype, .existentialMetatype])
    (hrepresentation : ∀ n ∈ representation, n.kind = .metatypeRepresentation)
    (ht : t.kind = .type) : Rule cfg (.mk k .none (representation.toList ++ [t]))
  | metatypeRepresentation {c : CodePoint} {t : Text} (h : (c, t) ∈ Code.metatypeRepresentations) :
    Rule cfg (.mk .metatypeRepresentation (.text t) [])
  | protocolList {ps : List Node}
    (h : ∀ p ∈ ps, p.kind = .type ∧
      (p.unwrapped.kind = .protocolType ∨ p.unwrapped.kind = .boundGenericProtocol)) :
    Rule cfg (.mk .protocolList .none [.mk .typeList .none ps])
  | protocolListWithAnyObject {p : Node} (h : p.kind = .protocolList) :
    Rule cfg (.mk .protocolListWithAnyObject .none [p])
  | sugaredDictionary {key value : Node} (hkey : key.kind = .type) (hvalue : value.kind = .type) :
    Rule cfg (.mk .sugaredDictionary .none [key, value])
  | genericParameter (depth index : Nat) :
    Rule cfg (.mk .dependentGenericParamType .none
      [.mk .index (.index depth) [], .mk .index (.index index) []])
  | typeMangling {labels : Option Node} {t : Node} (ht : t.kind = .type)
    (hlabels : LabelsFit labels t) : Rule cfg (.mk .typeMangling .none (labels.toList ++ [t]))
  | builtinType {name : Text} (h : BuiltinName cfg name) :
    Rule cfg (.mk .builtinTypeName (.text name) [])
  | marker {k : Kind} (hk : k ∈ Kind.markers) : Rule cfg (.mk k .none [])

deriving instance DecidableEq for Slot

namespace Node.Rule

variable {cfg : Config}

private theorem mem_filter_all {f : Kind → Bool} {k : Kind} (h : f k = true) :
    k ∈ Kind.all.filter f := List.mem_filter.mpr ⟨Kind.mem_all k, h⟩

private abbrev names : List Kind := Kind.all.filter Kind.isDeclName

private abbrev entities : List Kind := Kind.all.filter Kind.isEntity

/-- A node without payload fits if it has enough children and they fill the slots of its kind. -/
private theorem fits_of_slots {k : Kind} {cs : List Node} (slots : List Slot)
    (hpayload : k.payloadShape = .none) (hcount : k.allowsCount cs.length = true)
    (hk : k.slots = some slots) (h : Slot.firstMisplaced slots 0 (cs.map kind) = none) :
    (Node.mk k .none cs).Fits := by
  refine ⟨by rw [hpayload]; rfl, hcount, ?_⟩
  unfold Kind.misplaced?
  rw [hk]
  exact h

/-- The same for a kind of a group that has its slots in common. -/
private theorem fits_of_common {ks : List Kind} {k : Kind} {cs : List Node} (slots : List Slot)
    (counts : List Nat) (hk : k ∈ ks)
    (hslots : ∀ k ∈ ks, k.payloadShape = .none ∧ k.slots = some slots)
    (hcounts : ∀ k ∈ ks, ∀ count ∈ counts, k.allowsCount count = true) (hcount : cs.length ∈ counts)
    (h : Slot.firstMisplaced slots 0 (cs.map kind) = none) : (Node.mk k .none cs).Fits :=
  fits_of_slots slots (hslots k hk).1 (hcounts k hk _ hcount) (hslots k hk).2 h

/-- Children of one kind fill a slot for many of them. -/
private theorem misplaced_many {ks : List Kind} {cs : List Node} (h : ∀ c ∈ cs, c.kind ∈ ks) :
    Slot.firstMisplaced [.many ks] 0 (cs.map kind) = none := by
  refine Slot.firstMisplaced_many fun k hk => ?_
  obtain ⟨c, hc, rfl⟩ := List.mem_map.mp hk
  exact h c hc

/-- Labels of a declaration are a list of labels. -/
theorem kind_of_labelsFit {labels : Option Node} {t : Node} (h : LabelsFit labels t) :
    ∀ l ∈ labels, l.kind = .labelList := by
  cases h <;> simp [Node.kind]

/-- A slot that may stay empty is filled by an optional child, if the next child does not fit it. -/
private theorem misplaced_optional {o : Option Node} {ks rest : List Kind} {slots : List Slot}
    (i : Nat) (ho : ∀ n ∈ o, n.kind ∈ ks) (hrest : ∀ k, rest.head? = some k → k ∉ ks)
    (hslots : ∀ j, Slot.firstMisplaced slots j rest = none) :
    Slot.firstMisplaced (.optionally ks :: slots) i (o.toList.map kind ++ rest) = none := by
  rcases o with _ | n
  · rcases rest with _ | ⟨k, rest⟩
    · exact Slot.firstMisplaced_optionally_nil.trans (hslots i)
    · exact (Slot.firstMisplaced_optionally_of_not_mem (hrest k rfl)).trans (hslots i)
  · exact (Slot.firstMisplaced_optionally (ho n rfl)).trans (hslots (i + 1))

/-- The slots for labels and a type are filled with or without labels. -/
private theorem misplaced_labels {labels : Option Node} {t : Node} {slots : List Slot}
    {rest : List Kind} (i : Nat) (hlabels : LabelsFit labels t) (ht : t.kind = .type)
    (hslots : ∀ j, Slot.firstMisplaced slots j rest = none) :
    Slot.firstMisplaced (.optionally [.labelList] :: .one [.type] :: slots) i
      (labels.toList.map kind ++ t.kind :: rest) = none := by
  refine misplaced_optional i ?_ ?_ fun j => ?_
  · exact fun l hl => List.mem_singleton.mpr (kind_of_labelsFit hlabels l hl)
  · rw [ht]
    simp
  · exact (Slot.firstMisplaced_one (List.mem_singleton.mpr ht)).trans (hslots (j + 1))

private theorem misplaced_declaration {context name t : Node} {labels : Option Node}
    (hcontext : context.kind ∈ Kind.contextChildren) (hname : name.kind.isDeclName = true)
    (ht : t.kind = .type) (hlabels : LabelsFit labels t) :
    Slot.firstMisplaced
      [.one Kind.contextChildren, .one names, .optionally [.labelList], .one [.type]] 0
      (([context, name] ++ labels.toList ++ [t]).map kind) = none := by
  rw [List.append_assoc, List.map_append, List.map_append]
  show Slot.firstMisplaced _ 0 (context.kind :: name.kind :: (labels.toList.map kind ++ _)) = none
  rw [Slot.firstMisplaced_one hcontext, Slot.firstMisplaced_one (mem_filter_all hname)]
  exact misplaced_labels _ hlabels ht fun _ => rfl

private theorem misplaced_unnamed {context t : Node} {labels privateName : Option Node}
    (hcontext : context.kind ∈ Kind.contextChildren) (ht : t.kind = .type)
    (hlabels : LabelsFit labels t) (hprivate : ∀ n ∈ privateName, n.kind = .privateDeclName) :
    Slot.firstMisplaced [.one Kind.contextChildren, .optionally [.labelList], .one [.type],
      .optionally [.privateDeclName]] 0
      ((context :: (labels.toList ++ [t] ++ privateName.toList)).map kind) = none := by
  rw [List.append_assoc, List.map_cons, List.map_append, Slot.firstMisplaced_one hcontext]
  refine misplaced_labels _ hlabels ht fun j => ?_
  have hp : Slot.firstMisplaced [.optionally [.privateDeclName]] j
      (privateName.toList.map kind ++ []) = none :=
    misplaced_optional j (fun n hn => List.mem_singleton.mpr (hprivate n hn)) (by simp) fun _ => rfl
  rwa [List.append_nil] at hp

private theorem misplaced_functionType {throws : Option Node} {arguments result : Node}
    (hthrows : ∀ n ∈ throws, n.kind = .throwsMarker) (harguments : arguments.kind = .argumentTuple)
    (hresult : result.kind = .returnType) :
    Slot.firstMisplaced [.optionally [.throwsMarker], .one [.argumentTuple], .one [.returnType]] 0
      ((throws.toList ++ [arguments, result]).map kind) = none := by
  rw [List.map_append]
  refine misplaced_optional 0 ?_ ?_ fun j => ?_
  · exact fun n hn => List.mem_singleton.mpr (hthrows n hn)
  · simp [harguments]
  · exact Slot.firstMisplaced_pair (List.mem_singleton.mpr harguments)
      (List.mem_singleton.mpr hresult)

private theorem misplaced_tupleElement {variadic name : Option Node} {t : Node}
    (hvariadic : ∀ n ∈ variadic, n.kind = .variadicMarker)
    (hname : ∀ n ∈ name, n.kind = .tupleElementName) (ht : t.kind = .type) :
    Slot.firstMisplaced
      [.optionally [.variadicMarker], .optionally [.tupleElementName], .one [.type]] 0
      ((variadic.toList ++ name.toList ++ [t]).map kind) = none := by
  rw [List.append_assoc, List.map_append, List.map_append]
  refine misplaced_optional 0 ?_ ?_ fun i => misplaced_optional i ?_ ?_ fun j => ?_
  · exact fun n hn => List.mem_singleton.mpr (hvariadic n hn)
  · rcases name with _ | n
    · simp [ht]
    · simp [hname n rfl]
  · exact fun n hn => List.mem_singleton.mpr (hname n hn)
  · simp [ht]
  · exact Slot.firstMisplaced_last (List.mem_singleton.mpr ht)

private theorem misplaced_metatype {representation : Option Node} {t : Node}
    (hrepresentation : ∀ n ∈ representation, n.kind = .metatypeRepresentation)
    (ht : t.kind = .type) :
    Slot.firstMisplaced [.optionally [.metatypeRepresentation], .one [.type]] 0
      ((representation.toList ++ [t]).map kind) = none := by
  rw [List.map_append]
  refine misplaced_optional 0 ?_ ?_ fun j => ?_
  · exact fun n hn => List.mem_singleton.mpr (hrepresentation n hn)
  · simp [ht]
  · exact Slot.firstMisplaced_last (List.mem_singleton.mpr ht)

/-! Payloads and numbers of children are evaluated. What is left is that the children stand in their
slots. -/

private theorem fits_namePart {k : Kind} {p : Payload} {cs : List Node}
    (h : (Node.mk k p cs).Rule cfg) (hk : k ∈ Kind.nameParts) : (Node.mk k p cs).Fits := by
  cases h with
  | suffix t => exact ⟨rfl, rfl, rfl⟩
  | name hk ht =>
    simp only [List.mem_cons, List.not_mem_nil, or_false] at hk
    rcases hk with rfl | rfl | rfl <;> exact ⟨rfl, rfl, rfl⟩
  | operatorName hk ht hchars =>
    simp only [Kind.operators, List.mem_cons, List.not_mem_nil, or_false] at hk
    rcases hk with rfl | rfl | rfl <;> exact ⟨rfl, rfl, rfl⟩
  | number hk i =>
    simp only [List.mem_cons, List.not_mem_nil, or_false] at hk
    rcases hk with rfl | rfl <;> exact ⟨rfl, rfl, rfl⟩
  | directness h => exact ⟨rfl, rfl, rfl⟩
  | localDeclName i hname =>
    refine fits_of_slots [.one [.number], .one names] rfl rfl rfl ?_
    exact Slot.firstMisplaced_pair (List.mem_singleton_self _) (mem_filter_all hname)
  | @privateDeclName discriminator name hdiscriminator hname =>
    have hd : discriminator.kind ∈ [Kind.identifier] := List.mem_singleton.mpr hdiscriminator
    refine fits_of_slots [.one [.identifier], .optionally names] rfl (by cases name <;> rfl) rfl ?_
    rcases name with _ | name
    · exact (Slot.firstMisplaced_one hd).trans Slot.firstMisplaced_optionally_nil
    · exact (Slot.firstMisplaced_one hd).trans
        (Slot.firstMisplaced_optionally (mem_filter_all (hname name rfl)))
  | relatedEntityDeclName hc hname =>
    exact ⟨rfl, rfl, Slot.firstMisplaced_last (mem_filter_all hname)⟩
  | _ =>
    refine absurd hk ?_
    clear hk
    first
    | decide
    | exact Kind.not_mem_of_group ‹_› (by decide)

private theorem fits_declaration {k : Kind} {p : Payload} {cs : List Node}
    (h : (Node.mk k p cs).Rule cfg) (hk : k ∈ Kind.declarations) : (Node.mk k p cs).Fits := by
  cases h with
  | nominal hk hcontext hname =>
    exact fits_of_common _ [2] hk (by decide) (by decide) (List.mem_singleton_self _)
      (Slot.firstMisplaced_pair hcontext (mem_filter_all hname))
  | boundNominal hk hnominal hne harguments =>
    exact fits_of_common [.one [.type], .one [.typeList]] [2] hk (by decide) (by decide)
      (List.mem_singleton_self _) rfl
  | boundFunction hfunction hne harguments =>
    refine fits_of_slots [.one [.functionDecl, .constructorDecl], .one [.typeList]] rfl rfl rfl ?_
    exact Slot.firstMisplaced_pair (by simpa using hfunction) (List.mem_singleton_self _)
  | @extension module extended hmodule hextended =>
    refine fits_of_slots [.one [.moduleName], .one (Kind.nominals ++ Kind.boundGenerics)]
      rfl rfl rfl ?_
    refine Slot.firstMisplaced_pair (List.mem_singleton.mpr hmodule) ?_
    rcases List.mem_append.mp hextended with h | h
    · exact List.mem_append_left _ h
    · exact List.mem_append_right _ (List.mem_append_left _ h)
  | @declaration k context name t labels hk hcontext hname ht hlabels hfunction hparam =>
    exact fits_of_common _ [3, 4] hk (by decide) (by decide) (by cases labels <;> simp)
      (misplaced_declaration hcontext hname ht hlabels)
  | @unnamed k context t labels privateName hk hcontext ht hlabels hprivate hsubscript =>
    exact fits_of_common _ [2, 3, 4] hk (by decide) (by decide)
      (by cases labels <;> cases privateName <;> simp)
      (misplaced_unnamed hcontext ht hlabels hprivate)
  | bareScope hk hcontext =>
    exact fits_of_common _ [1] hk (by decide) (by decide) (List.mem_singleton_self _)
      (Slot.firstMisplaced_last hcontext)
  | closure hk hcontext i ht =>
    refine fits_of_common [.one Kind.contextChildren, .one [.number], .one [.type]] [3] hk
      (by decide)
      (by decide) (List.mem_singleton_self _) ((Slot.firstMisplaced_one hcontext).trans ?_)
    exact Slot.firstMisplaced_pair (List.mem_singleton_self _) (List.mem_singleton.mpr ht)
  | defaultArgument hcontext i =>
    exact ⟨rfl, rfl, Slot.firstMisplaced_pair hcontext (List.mem_singleton_self _)⟩
  | accessor hk hstorage =>
    exact fits_of_common [.one [.variableDecl, .subscriptDecl]] [1] hk (by decide) (by decide)
      (List.mem_singleton_self _) (Slot.firstMisplaced_last (by simpa using hstorage))
  | staticDecl hentity hnominal hmodule =>
    exact ⟨rfl, rfl, Slot.firstMisplaced_last (mem_filter_all hentity)⟩
  | enumCase hentity hstack =>
    exact ⟨rfl, rfl, Slot.firstMisplaced_last (mem_filter_all hentity)⟩
  | fieldOffset h hentity hstack =>
    refine fits_of_slots [.one [.directness], .one entities] rfl rfl rfl ?_
    exact Slot.firstMisplaced_pair (List.mem_singleton_self _) (mem_filter_all hentity)
  | _ =>
    refine absurd hk ?_
    clear hk
    first
    | decide
    | exact Kind.not_mem_of_group ‹_› (by decide)

/-- The other nodes are types and what they are made of, and symbols that are about a type. -/
private theorem fits_other {k : Kind} {p : Payload} {cs : List Node} (h : (Node.mk k p cs).Rule cfg)
    (hk : k ∉ Kind.nameParts ++ Kind.declarations) : (Node.mk k p cs).Fits := by
  cases h with
  | type h => exact ⟨rfl, rfl, Slot.firstMisplaced_last h⟩
  | @functionType k throws arguments result hk hthrows harguments hresult =>
    exact fits_of_common _ [2, 3] hk (by decide) (by decide) (by cases throws <;> simp)
      (misplaced_functionType hthrows harguments hresult)
  | argumentTuple ht => exact ⟨rfl, rfl, Slot.firstMisplaced_last (List.mem_singleton.mpr ht)⟩
  | aroundType hk ht =>
    exact fits_of_common _ [1] hk (by decide) (by decide) (List.mem_singleton_self _)
      (Slot.firstMisplaced_last (List.mem_singleton.mpr ht))
  | protocolDescriptor h => exact ⟨rfl, rfl, rfl⟩
  | valueWitness h ht => exact ⟨rfl, rfl, Slot.firstMisplaced_last (List.mem_singleton.mpr ht)⟩
  | passing hk ht =>
    exact fits_of_common _ [1] hk (by decide) (by decide) (List.mem_singleton_self _)
      (Slot.firstMisplaced_last ht)
  | typeList h =>
    exact fits_of_slots _ rfl rfl rfl (misplaced_many fun t ht => List.mem_singleton.mpr (h t ht))
  | tuple h =>
    exact fits_of_slots _ rfl rfl rfl (misplaced_many fun e he => List.mem_singleton.mpr (h e he))
  | @tupleElement variadic name t hvariadic hname ht =>
    exact fits_of_slots _ rfl (by cases variadic <;> cases name <;> rfl) rfl
      (misplaced_tupleElement hvariadic hname ht)
  | labelList h hname =>
    exact fits_of_slots [.many [.identifier, .firstElementMarker]] rfl rfl rfl
      (misplaced_many fun l hl => by simpa using h l hl)
  | @metatype k representation t hk hrepresentation ht =>
    exact fits_of_common _ [1, 2] hk (by decide) (by decide) (by cases representation <;> simp)
      (misplaced_metatype hrepresentation ht)
  | metatypeRepresentation h => exact ⟨rfl, rfl, rfl⟩
  | protocolList h => exact ⟨rfl, rfl, rfl⟩
  | protocolListWithAnyObject h =>
    exact ⟨rfl, rfl, Slot.firstMisplaced_last (List.mem_singleton.mpr h)⟩
  | sugaredDictionary hkey hvalue =>
    exact ⟨rfl, rfl, Slot.firstMisplaced_pair (List.mem_singleton.mpr hkey)
      (List.mem_singleton.mpr hvalue)⟩
  | genericParameter depth index => exact ⟨rfl, rfl, rfl⟩
  | @typeMangling labels t ht hlabels =>
    refine fits_of_slots [.optionally [.labelList], .one [.type]] rfl
      (by cases labels <;> rfl) rfl ?_
    rw [List.map_append]
    exact misplaced_labels 0 hlabels ht fun _ => rfl
  | builtinType h => exact ⟨rfl, rfl, rfl⟩
  | marker hk =>
    simp only [Kind.markers, List.mem_cons, List.not_mem_nil, or_false] at hk
    rcases hk with rfl | rfl | rfl | rfl | rfl <;> exact ⟨rfl, rfl, rfl⟩
  | _ =>
    refine absurd ?_ hk
    clear hk
    first
    | decide
    | exact Kind.mem_of_group ‹_› (by decide)

/-- A node that obeys the grammar fits its kind. -/
theorem fits {n : Node} (h : n.Rule cfg) : n.Fits := by
  rcases n with ⟨k, p, cs⟩
  by_cases hk : k ∈ Kind.nameParts ++ Kind.declarations
  · rcases List.mem_append.mp hk with hk | hk
    · exact fits_namePart h hk
    · exact fits_declaration h hk
  · exact fits_other h hk

end Node.Rule

/-! ### Nodes by their kinds -/

namespace Node.Rule

variable {cfg : Config} {n : Node}

/-- A name has a text and nothing else. -/
theorem eq_name (h : n.Rule cfg) (hk : n.kind ∈ [Kind.identifier, .moduleName, .tupleElementName]) :
    ∃ t, t ≠ [] ∧ n = .mk n.kind (.text t) [] := by
  cases h with
  | name hk' ht => exact ⟨_, ht, rfl⟩
  | _ =>
    simp only [kind, List.mem_cons, List.not_mem_nil, or_false] at hk
    rcases hk with hk | hk | hk <;> cases hk <;> exact absurd ‹_ ∈ _› (by decide)

theorem eq_moduleName (h : n.Rule cfg) (hk : n.kind = .moduleName) :
    ∃ t, t ≠ [] ∧ n = .moduleName t := by
  obtain ⟨t, ht, hn⟩ := h.eq_name (by rw [hk]; decide)
  rw [hk] at hn
  exact ⟨t, ht, hn⟩

/-- The name of an operator is made of operator characters. -/
theorem eq_operatorName (h : n.Rule cfg) (hk : n.kind ∈ Kind.operators) :
    ∃ t, t ≠ [] ∧ (∀ c ∈ t, Operator.IsOperatorChar c) ∧ n = .mk n.kind (.text t) [] := by
  cases h with
  | operatorName hk' ht hchars => exact ⟨_, ht, hchars, rfl⟩
  | _ =>
    simp only [kind, Kind.operators, List.mem_cons, List.not_mem_nil, or_false] at hk
    rcases hk with hk | hk | hk <;> cases hk <;> exact absurd ‹_ ∈ _› (by decide)

theorem eq_builtinType (h : n.Rule cfg) (hk : n.kind = .builtinTypeName) :
    ∃ name, BuiltinName cfg name ∧ n = .mk .builtinTypeName (.text name) [] := by
  cases h with
  | builtinType h => exact ⟨_, h, rfl⟩
  | _ => cases hk <;> exact absurd ‹_ ∈ _› (by decide)

/-- A type wraps one. -/
theorem eq_type (h : n.Rule cfg) (hk : n.kind = .type) :
    ∃ t, t.kind ∈ Kind.types ∧ n = .typeOf t := by
  cases h with
  | type ht => exact ⟨_, ht, rfl⟩
  | _ => cases hk <;> exact absurd ‹_ ∈ _› (by decide)

/-- A tuple has elements and nothing else. -/
theorem eq_tuple (h : n.Rule cfg) (hk : n.kind = .tuple) : n = .mk .tuple .none n.children := by
  cases h with
  | tuple h => rfl
  | _ => cases hk <;> exact absurd ‹_ ∈ _› (by decide)

/-- A nominal type has a context and a name. -/
theorem eq_nominal (h : n.Rule cfg) (hk : n.kind ∈ Kind.nominals) :
    ∃ context name, context.kind ∈ Kind.contextChildren ∧ name.kind.isDeclName = true ∧
      n = .mk n.kind .none [context, name] := by
  cases h with
  | nominal hk' hcontext hname => exact ⟨_, _, hcontext, hname, rfl⟩
  | _ =>
    simp only [kind, Kind.nominals, List.mem_cons, List.not_mem_nil, or_false] at hk
    rcases hk with hk | hk | hk | hk | hk | hk <;> cases hk <;>
      exact absurd ‹_ ∈ _› (by decide)

/-- An extension has a module and the type that it extends. -/
theorem eq_extension (h : n.Rule cfg) (hk : n.kind = .extensionDecl) :
    ∃ m extended, m.kind = .moduleName ∧ extended.kind ∈ Kind.nominals ++ Kind.boundNominals ∧
      n = .mk .extensionDecl .none [m, extended] := by
  cases h with
  | extension hm hextended => exact ⟨_, _, hm, hextended, rfl⟩
  | _ => cases hk <;> exact absurd ‹_ ∈ _› (by decide)

/-- A nominal type with generic arguments has a nominal type and its arguments. -/
theorem eq_boundNominal (h : n.Rule cfg) (hk : n.kind ∈ Kind.boundNominals) :
    ∃ nominal arguments, (nominal.kind.bound? = some n.kind ∨ nominal.kind = n.kind) ∧
      arguments ≠ [] ∧ (∀ a ∈ arguments, a.kind = .type) ∧
      n = .mk n.kind .none [.typeOf nominal, .mk .typeList .none arguments] := by
  cases h with
  | boundNominal hk' hnominal hne harguments => exact ⟨_, _, hnominal, hne, harguments, rfl⟩
  | _ =>
    simp only [kind, Kind.boundNominals, List.mem_cons, List.not_mem_nil, or_false] at hk
    rcases hk with hk | hk | hk | hk | hk | hk <;> cases hk <;>
      exact absurd ‹_ ∈ _› (by decide)

/-- A function with generic arguments has a function and its arguments. -/
theorem eq_boundFunction (h : n.Rule cfg) (hk : n.kind = .boundGenericFunction) :
    ∃ function arguments, (function.kind = .functionDecl ∨ function.kind = .constructorDecl) ∧
      arguments ≠ [] ∧ (∀ a ∈ arguments, a.kind = .type) ∧
      n = .mk .boundGenericFunction .none [function, .mk .typeList .none arguments] := by
  cases h with
  | boundFunction hfunction hne harguments => exact ⟨_, _, hfunction, hne, harguments, rfl⟩
  | _ => cases hk <;> exact absurd ‹_ ∈ _› (by decide)

theorem eq_throwsMarker (h : n.Rule cfg) (hk : n.kind = .throwsMarker) :
    n = .mk .throwsMarker .none [] := by
  cases h with
  | marker hk' =>
    cases hk
    rfl
  | _ => cases hk <;> exact absurd ‹_ ∈ _› (by decide)

theorem eq_argumentTuple (h : n.Rule cfg) (hk : n.kind = .argumentTuple) :
    ∃ t, t.kind = .type ∧ n = .mk .argumentTuple (.index (argumentCount t)) [t] := by
  cases h with
  | argumentTuple ht => exact ⟨_, ht, rfl⟩
  | _ => cases hk <;> exact absurd ‹_ ∈ _› (by decide)

theorem eq_returnType (h : n.Rule cfg) (hk : n.kind = .returnType) :
    ∃ t, t.kind = .type ∧ n = .mk .returnType .none [t] := by
  cases h with
  | aroundType hk' ht =>
    cases hk
    exact ⟨_, ht, rfl⟩
  | _ => cases hk <;> exact absurd ‹_ ∈ _› (by decide)

/-- A function type has its arguments and its result, and a mark if it throws. -/
theorem eq_functionType (h : n.Rule cfg) (hk : n.kind ∈ Kind.functionTypes) :
    ∃ (throws : Option Node) (arguments result : Node), (∀ n ∈ throws, n.kind = .throwsMarker) ∧
      arguments.kind = .argumentTuple ∧ result.kind = .returnType ∧
      n = .mk n.kind .none (throws.toList ++ [arguments, result]) := by
  cases h with
  | functionType hk' hthrows harguments hresult =>
    exact ⟨_, _, _, hthrows, harguments, hresult, rfl⟩
  | _ =>
    simp only [kind, Kind.functionTypes, List.mem_cons, List.not_mem_nil, or_false] at hk
    rcases hk with hk | hk | hk | hk | hk | hk | hk <;> cases hk <;>
      exact absurd ‹_ ∈ _› (by decide)

/-- A property has a context, a name and a type. -/
theorem eq_variableDecl (h : n.Rule cfg) (hk : n.kind = .variableDecl) :
    ∃ (context name t : Node) (labels : Option Node), context.kind ∈ Kind.contextChildren ∧
      name.kind.isDeclName = true ∧
      t.kind = .type ∧ LabelsFit labels t ∧
      n = .mk .variableDecl .none ([context, name] ++ labels.toList ++ [t]) := by
  cases h with
  | declaration hk' hcontext hname ht hlabels hfunction hparam =>
    cases hk
    exact ⟨_, _, _, _, hcontext, hname, ht, hlabels, rfl⟩
  | _ => cases hk <;> exact absurd ‹_ ∈ _› (by decide)

/-- A subscript has a context, labels and a type. -/
theorem eq_subscriptDecl (h : n.Rule cfg) (hk : n.kind = .subscriptDecl) :
    ∃ (context t labels : Node) (privateName : Option Node), context.kind ∈ Kind.contextChildren ∧
      t.kind = .type ∧
      LabelsFit (some labels) t ∧ (∀ n ∈ privateName, n.kind = .privateDeclName) ∧
      n = .mk .subscriptDecl .none (context :: ([labels] ++ [t] ++ privateName.toList)) := by
  cases h with
  | @unnamed k context t labels privateName hk' hcontext ht hlabels hprivate hsubscript =>
    cases hk
    obtain ⟨ls, rfl⟩ := Option.isSome_iff_exists.mp (hsubscript rfl)
    exact ⟨_, _, _, _, hcontext, ht, hlabels, hprivate, rfl⟩
  | _ => cases hk <;> exact absurd ‹_ ∈ _› (by decide)

theorem eq_metatypeRepresentation (h : n.Rule cfg) (hk : n.kind = .metatypeRepresentation) :
    ∃ (c : CodePoint) (t : Text), (c, t) ∈ Code.metatypeRepresentations ∧
      n = .mk .metatypeRepresentation (.text t) [] := by
  cases h with
  | metatypeRepresentation h => exact ⟨_, _, h, rfl⟩
  | _ => cases hk <;> exact absurd ‹_ ∈ _› (by decide)

/-- A composition of protocols is a list of them. -/
theorem eq_protocolList (h : n.Rule cfg) (hk : n.kind = .protocolList) :
    ∃ ps, (∀ p ∈ ps, p.kind = .type ∧
      (p.unwrapped.kind = .protocolType ∨ p.unwrapped.kind = .boundGenericProtocol)) ∧
        n = .mk .protocolList .none [.mk .typeList .none ps] := by
  cases h with
  | protocolList h => exact ⟨_, h, rfl⟩
  | _ => cases hk <;> exact absurd ‹_ ∈ _› (by decide)

theorem eq_number (h : n.Rule cfg) (hk : n.kind = .number ∨ n.kind = .index) :
    ∃ i : Nat, n = .mk n.kind (.index i) [] := by
  cases h with
  | number hk' i => exact ⟨i, rfl⟩
  | _ => rcases hk with hk | hk <;> cases hk <;> exact absurd ‹_ ∈ _› (by decide)

theorem eq_directness (h : n.Rule cfg) (hk : n.kind = .directness) :
    n = .mk .directness (.index 0) [] ∨ n = .mk .directness (.index 1) [] := by
  cases h with
  | directness h => exact h.imp (fun h => by rw [h]) fun h => by rw [h]
  | _ => cases hk <;> exact absurd ‹_ ∈ _› (by decide)

/-- A value witness is numbered, and there are 24 of them. -/
theorem eq_valueWitness (h : n.Rule cfg) (hk : n.kind = .valueWitness) :
    ∃ (i : Nat) (t : Node), i < 24 ∧ n = .mk .valueWitness (.index i) [t] := by
  cases h with
  | valueWitness h ht => exact ⟨_, _, h, rfl⟩
  | _ => cases hk <;> exact absurd ‹_ ∈ _› (by decide)

end Node.Rule

/-- Every node of the tree obeys the grammar. -/
abbrev Node.Grammatical (cfg : Config) (n : Node) : Prop := n.All (Node.Rule cfg)

/-- A tree that obeys the grammar is well shaped. -/
theorem Node.All.wellShaped {cfg : Config} {n : Node} (h : n.Grammatical cfg) : n.WellShaped :=
  fun m hm => (Node.All.iff_walk.mp h m hm).fits

end SwiftABI
