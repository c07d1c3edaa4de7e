/-
  Plain renderings of nodes for a reader who debugs.

  `summary` shows one node, `render` a whole tree with a line for each node, the children two blanks
  further in than their parent. `lines` lists those lines, in the order of `walk`. Both are shown to
  somebody, so there are none (`summary?`, `renderAt?`) where an index has too many digits.
-/
import SwiftABI.Node.Basic

namespace SwiftABI

/-- Can the payload be shown? -/
def Payload.isShowable : Payload → Bool
  | .index n => Text.isShowable n
  | _ => true

namespace Node

/-- One node on one line: its payload, or else how many children it has. -/
def summary (n : Node) : Text :=
  match n.payload with
  | .none =>
    "Node(" ++ n.kind.name ++ ", " ++ Text.digits n.children.length ++ " children)"
  | p => "Node(" ++ n.kind.name ++ ", " ++ p.shown ++ ")"

/-- One node on one line, if its payload can be shown. -/
def summary? (n : Node) : Option Text := if n.payload.isShowable then some n.summary else none

/-- The kind and payload of a node. -/
def heading (n : Node) : Text :=
  match n.payload with
  | .none => n.kind.name.text
  | p => n.kind.name ++ ": " ++ p.shown

/-- The line of a node that stands `indent` blanks in. A negative indent is none. -/
def line (indent : Int) (n : Node) : Text := Text.blanks indent.toNat ++ n.heading

mutual

/-- The lines of a tree whose root stands `indent` blanks in. -/
def lines (indent : Int) : Node → List Text
  | .mk k p cs => line indent (.mk k p cs) :: linesBelow (indent + 2) cs

/-- The lines of the trees below a node. -/
def linesBelow (indent : Int) : List Node → List Text
  | [] => []
  | n :: ns => lines indent n ++ linesBelow indent ns

end

/-- A tree whose root stands `indent` blanks in, with a line break between two lines. -/
def renderAt (indent : Int) (n : Node) : Text := List.intercalate [Text.lineBreak] (lines indent n)

/-- A tree with a line for each node. -/
def render (n : Node) : Text := renderAt 0 n

/-- Can all payloads of the tree be shown? -/
def isShowable (n : Node) : Bool := n.walk.all fun m => m.payload.isShowable

/-- A tree whose root stands `indent` blanks in, if its payloads can be shown. -/
def renderAt? (indent : Int) (n : Node) : Option Text :=
  if n.isShowable then some (renderAt indent n) else none

/-- A tree with a line for each node, if its payloads can be shown. -/
def render? (n : Node) : Option Text := renderAt? 0 n

end Node

end SwiftABI
