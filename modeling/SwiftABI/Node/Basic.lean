/-
  `Node` — the trees that demangled names are.

  A node has a kind, a payload and children. `Node.make` is the checked way to build one: it refuses
  a payload, a number of children or a child that the kind does not allow, and says what is wrong.
  `Node.WellShaped` holds of the trees in which every node passed that check.
-/
import SwiftABI.Kind.Shape
import SwiftABI.Text.Quoted

namespace SwiftABI

/-- What a node carries besides its children. -/
inductive Payload where
  | none
  | text (t : Text)
  | index (n : Int)
  deriving DecidableEq

/-- A node of a demangled name. -/
inductive Node where
  | mk (kind : Kind) (payload : Payload) (children : List Node)

namespace Node

/-! ### Parts -/

def kind : Node → Kind
  | .mk k _ _ => k

def payload : Node → Payload
  | .mk _ p _ => p

def children : Node → List Node
  | .mk _ _ cs => cs

/-- The first child of a kind. -/
def childOfKind (n : Node) (k : Kind) : Option Node := n.children.find? fun c => c.kind = k

/-- The text of a node that carries one. -/
def text? : Node → Option Text
  | .mk _ (.text t) _ => some t
  | _ => none

/-- The index of a node that carries one. -/
def index? : Node → Option Int
  | .mk _ (.index i) _ => some i
  | _ => none

/-- The type inside a `type` node, and any other node itself. -/
def unwrapped : Node → Node
  | .mk .type _ (c :: _) => c
  | n => n

/-! ### Equality -/

mutual

/-- Two nodes are equal if their kinds, payloads and children are. -/
def decEq : (a b : Node) → Decidable (a = b)
  | .mk ka pa as, .mk kb pb bs =>
    if hk : ka = kb then
      if hp : pa = pb then
        match decEqList as bs with
        | .isTrue h => .isTrue (by rw [hk, hp, h])
        | .isFalse h => .isFalse (by intro e; injection e; exact h ‹_›)
      else .isFalse (by intro e; injection e; exact hp ‹_›)
    else .isFalse (by intro e; injection e; exact hk ‹_›)

def decEqList : (as bs : List Node) → Decidable (as = bs)
  | [], [] => .isTrue rfl
  | [], _ :: _ => .isFalse (by intro e; cases e)
  | _ :: _, [] => .isFalse (by intro e; cases e)
  | a :: as, b :: bs =>
    match decEq a b with
    | .isTrue h =>
      match decEqList as bs with
      | .isTrue hs => .isTrue (by rw [h, hs])
      | .isFalse hs => .isFalse (by intro e; injection e; exact hs ‹_›)
    | .isFalse h => .isFalse (by intro e; injection e; exact h ‹_›)

end

instance : DecidableEq Node := decEq

/-! ### Size and traversal -/

mutual

/-- The number of nodes of a tree. -/
def size : Node → Nat
  | .mk _ _ cs => sizeAll cs + 1

/-- The number of nodes of several trees. -/
def sizeAll : List Node → Nat
  | [] => 0
  | n :: ns => n.size + sizeAll ns

end

theorem size_pos (n : Node) : 0 < n.size := by
  cases n
  exact Nat.succ_pos _

theorem sizeAll_append (as bs : List Node) : sizeAll (as ++ bs) = sizeAll as + sizeAll bs := by
  induction as with
  | nil => simp [sizeAll]
  | cons a as ih => simp [sizeAll, ih, Nat.add_assoc]

/-- Visits the trees that are waiting, a node before its children and those before the rest. -/
def visit : List Node → List Node
  | [] => []
  | .mk k p cs :: rest => .mk k p cs :: visit (cs ++ rest)
termination_by pending => sizeAll pending
decreasing_by simp [sizeAll, size, sizeAll_append]

/-- The nodes of a tree, each one before the nodes below it. -/
def walk (n : Node) : List Node := visit [n]

end Node

/-! ### Checked construction -/

/-- What is wrong with the shape of a node. -/
inductive ShapeFault where
  | unknownKind
  | takesNoPayload (given : Text)
  | expectsText (given : Text)
  | expectsIndex (given : Text)
  | childCount (count : Nat)
  | childNotNode (given : Text)
  | unexpectedChild (kind : Kind) (position : Nat)
  | missingChild (position : Nat)
  | carriesNoText
  | carriesNoIndex
  | notSubstitutable
  | notIdentifierLike

/-- A fault of shape, and the name of the kind it was found in. -/
structure ShapeMismatch where
  subject : String
  fault : ShapeFault

namespace ShapeFault

def message : ShapeFault → Text
  | .unknownKind => "Unknown node kind"
  | .takesNoPayload given => "Takes no payload, got " ++ given
  | .expectsText given => "Expects a text payload, got " ++ given
  | .expectsIndex given => "Expects an index payload, got " ++ given
  | .childCount count => s!"Bad child count {count}"
  | .childNotNode given => "Child " ++ given ++ " is not a Node"
  | .unexpectedChild kind position => "Unexpected " ++ kind.name ++ s!" child at {position}"
  | .missingChild position => s!"Missing child at {position}"
  | .carriesNoText => "Node carries no text"
  | .carriesNoIndex => "Node carries no index"
  | .notSubstitutable => "Kind is not substitutable"
  | .notIdentifierLike => "Only identifier-like nodes can be keyed by text"

/-- The fault as found in a node of kind `k`. -/
def inKind (f : ShapeFault) (k : Kind) : ShapeMismatch := ⟨k.name, f⟩

end ShapeFault

def ShapeMismatch.message (e : ShapeMismatch) : Text := e.subject ++ ": " ++ e.fault.message

namespace Payload

/-- The payload as a message shows it. -/
def shown : Payload → Text
  | .none => "None".text
  | .text t => Text.quoted t
  | .index n => Text.decimal n

/-- Does the payload have the shape? -/
def fits : PayloadShape → Payload → Bool
  | .none, .none => true
  | .text, .text _ => true
  | .index, .index _ => true
  | _, _ => false

end Payload

namespace Kind

/-- The complaint of a kind about a payload that does not fit it. -/
def payloadFault (k : Kind) (given : Text) : ShapeFault :=
  match k.payloadShape with
  | .none => .takesNoPayload given
  | .text => .expectsText given
  | .index => .expectsIndex given

def checkPayload (k : Kind) (p : Payload) : Except ShapeMismatch Unit :=
  if p.fits k.payloadShape then .ok () else .error ((k.payloadFault p.shown).inKind k)

/-- May a node of this kind have `count` children? -/
def allowsCount (k : Kind) (count : Nat) : Bool :=
  k.minChildren ≤ count && (k.maxChildren.all fun most => count ≤ most)

def checkCount (k : Kind) (count : Nat) : Except ShapeMismatch Unit :=
  if k.allowsCount count then .ok () else .error ((ShapeFault.childCount count).inKind k)

/-- The first position at which the children do not fill the slots of the kind. -/
def misplaced? (k : Kind) (children : List Kind) : Option Nat :=
  k.slots.bind fun slots => Slot.firstMisplaced slots 0 children

def checkSlots (k : Kind) (children : List Kind) : Except ShapeMismatch Unit :=
  match k.misplaced? children with
  | none => .ok ()
  | some i =>
    match children[i]? with
    | some c => .error ((ShapeFault.unexpectedChild c i).inKind k)
    | none => .error ((ShapeFault.missingChild i).inKind k)

end Kind

namespace Node

/-- Builds a node if its kind allows the payload and the children. The payload is looked at first,
then the number of children, then the slots. -/
def make (k : Kind) (p : Payload) (cs : List Node) : Except ShapeMismatch Node := do
  k.checkPayload p
  k.checkCount cs.length
  k.checkSlots (cs.map kind)
  return .mk k p cs

/-- The node as its kind demands it. -/
def Fits : Node → Prop
  | .mk k p cs =>
    p.fits k.payloadShape ∧ k.allowsCount cs.length ∧ k.misplaced? (cs.map kind) = none

instance (n : Node) : Decidable n.Fits := by
  cases n; unfold Fits; infer_instance

/-- Every node of the tree is as its kind demands it. -/
def WellShaped (n : Node) : Prop := ∀ m ∈ n.walk, m.Fits

/-! ### Variations of a node -/

def withKind (n : Node) (k : Kind) : Except ShapeMismatch Node := make k n.payload n.children

def withChildren (n : Node) (cs : List Node) : Except ShapeMismatch Node := make n.kind n.payload cs

def addingChild (n : Node) (c : Node) : Except ShapeMismatch Node :=
  make n.kind n.payload (n.children ++ [c])

/-! ### Payload access -/

/-- The text of the node, which is a fault of shape if there is none. -/
def text (n : Node) : Except ShapeMismatch Text :=
  match n.text? with
  | some t => .ok t
  | none => .error (ShapeFault.carriesNoText.inKind n.kind)

/-- The index of the node, which is a fault of shape if its kind has none. -/
def index (n : Node) : Except ShapeMismatch Int :=
  match n.index? with
  | some i => .ok i
  | none => .error (ShapeFault.carriesNoIndex.inKind n.kind)

/-! ### Literal nodes -/

/-- A node without payload. -/
def ofChildren (k : Kind) (cs : List Node) : Node := .mk k .none cs

def ofText (k : Kind) (t : Text) : Node := .mk k (.text t) []

def identifier (t : Text) : Node := ofText .identifier t

def moduleName (t : Text) : Node := ofText .moduleName t

/-- A `type` node around a type. -/
def typeOf (n : Node) : Node := .mk .type .none [n]

end Node

end SwiftABI
