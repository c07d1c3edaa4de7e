/-
  `Draft` — a tree as someone writes it down, before anything about it is checked.

  The kinds of a draft are names that may mean nothing, its payloads may be of any sort, and in the
  place of a child may stand a value that is not a node at all. `Draft.build` turns a draft into a
  node from the bottom up, the children of a node from first to last, and stops at the first fault.
-/
import SwiftABI.Node.Basic

namespace SwiftABI

/-- A value that may stand where a payload or a child is expected. -/
inductive Literal where
  | none
  | bool (b : Bool)
  | index (n : Int)
  /-- A number that is not an integer, as it is written. -/
  | fraction (shown : Text)
  | text (t : Text)

namespace Literal

/-- The value as a message shows it. -/
def shown : Literal → Text
  | .none => "None".text
  | .bool true => "True".text
  | .bool false => "False".text
  | .index n => Text.decimal n
  | .fraction t => t
  | .text t => Text.quoted t

/-- A payload as a value. -/
def ofPayload : Payload → Literal
  | .none => .none
  | .text t => .text t
  | .index n => .index n

/-- The payload that the value stands for, if nodes can carry it. -/
def payload? : Literal → Option Payload
  | .none => some .none
  | .index n => some (.index n)
  | .text t => some (.text t)
  | _ => Option.none

end Literal

/-- A tree that has not been checked. -/
inductive Draft where
  | value (v : Literal)
  | node (kind : String) (payload : Literal) (children : List Draft)

instance : Inhabited Draft := ⟨.value .none⟩

/-- A child of a node under construction. -/
inductive DraftChild where
  | value (v : Literal)
  | node (n : Node)

namespace DraftChild

/-- The children as nodes, if all of them are. The first value that is none is a fault. -/
def nodes (k : Kind) : List DraftChild → Except ShapeMismatch (List Node)
  | [] => .ok []
  | .node n :: cs => return n :: (← nodes k cs)
  | .value v :: _ => .error ((ShapeFault.childNotNode v.shown).inKind k)

end DraftChild

namespace Node

/-- Builds a node out of a payload and children that may be anything. Values among the children are
counted before they are refused. -/
def assemble (kindName : String) (payload : Literal) (children : List DraftChild) :
    Except ShapeMismatch Node :=
  match Kind.ofName? kindName with
  | none => .error ⟨kindName, .unknownKind⟩
  | some k =>
    match payload.payload? with
    | none => .error ((k.payloadFault payload.shown).inKind k)
    | some p => do
      k.checkPayload p
      k.checkCount children.length
      make k p (← DraftChild.nodes k children)

end Node

namespace Draft

mutual

/-- The draft as a child: a value stays a value, and a node is built. -/
def buildChild : Draft → Except ShapeMismatch DraftChild
  | .value v => .ok (.value v)
  | .node k p cs => do
    let built ← buildChildren cs
    return .node (← Node.assemble k p built)

def buildChildren : List Draft → Except ShapeMismatch (List DraftChild)
  | [] => .ok []
  | d :: ds => do
    let c ← buildChild d
    return c :: (← buildChildren ds)

end

/-- The node that the draft describes. -/
def build : Draft → Except ShapeMismatch Node
  | .value v => .error ((ShapeFault.childNotNode v.shown).inKind .global)
  | .node k p cs => do
    let built ← buildChildren cs
    Node.assemble k p built

end Draft

end SwiftABI
