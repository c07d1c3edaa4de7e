/-
  Generic arguments along the contexts of a declaration.

  A node is specialized if generic arguments are applied to it or to a context it is declared in.
  `unspecialized` takes all of them away. It is defined on the nodes that have a context, and the
  tree it leads to has to be well shaped like any other.
-/
import SwiftABI.Node.Refusal

namespace SwiftABI

namespace Kind

/-- Entities whose first child is the context they are declared in. -/
def declaredFirst : List Kind :=
  [.functionDecl, .getter, .setter, .willSet, .didSet, .readAccessor, .modifyAccessor,
   .unsafeAddressor, .unsafeMutableAddressor, .allocator, .constructorDecl, .destructor,
   .variableDecl, .subscriptDecl, .explicitClosure, .implicitClosure, .initializer,
   .defaultArgumentInitializer]

/-- Does a node of this kind take generic arguments of its own? -/
def consumesGenericArgs : Kind → Bool
  | .variableDecl | .subscriptDecl | .implicitClosure | .explicitClosure
  | .defaultArgumentInitializer | .initializer => false
  | _ => true

end Kind

namespace Node

/-- Are generic arguments applied to this node or to a context above it? -/
def isSpecialized : Node → Bool
  | .mk k _ [] => k ∈ Kind.boundGenerics
  | .mk k _ (c :: cs) =>
    if k ∈ Kind.boundGenerics then true
    else if k ∈ Kind.nominals ∨ k ∈ Kind.declaredFirst then isSpecialized c
    else if k = .extensionDecl then
      match cs with
      | extended :: _ => isSpecialized extended
      | [] => false
    else false

/-- The node without the generic arguments applied to it and to the contexts above it. -/
def unspecialized : Node → Except Fault Node
  | .mk k _ [] => .error (.refused ⟨k, .notUnspecializable⟩)
  | .mk k p (c :: cs) =>
    if k ∈ Kind.nominals ∨ k ∈ Kind.declaredFirst then do
      let context ← if c.isSpecialized then unspecialized c else .ok c
      Fault.inTree (make k p (context :: cs))
    else if k ∈ Kind.boundNominals then
      match c with
      | .mk _ _ (nominal :: _) =>
        if nominal.isSpecialized then unspecialized nominal else .ok nominal
      | .mk _ _ [] => .error (.tree .missingChild)
    else if k = .boundGenericFunction then
      if c.isSpecialized then unspecialized c else .ok c
    else if k = .extensionDecl then
      match cs with
      | extended :: _ => do
        let extended ← if extended.isSpecialized then unspecialized extended else .ok extended
        Fault.inTree (make k p [c, extended])
      | [] => .error (.tree .missingChild)
    else .error (.refused ⟨k, .notUnspecializable⟩)

end Node

end SwiftABI
