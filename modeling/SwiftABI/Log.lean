/-
  The log: what the library tells a reader who debugs.

  An entry has a level, and a log that is kept at some level shows the entries up to it.
-/
import SwiftABI.Text.CodePoint

namespace SwiftABI.Log

/-- How much an entry is about the inner workings. -/
inductive Level where
  | debug | detail | trace
  deriving DecidableEq

namespace Level

/-- The mark that entries of the level are shown with. -/
def mark : Level → String
  | .debug => "DEBUG"
  | .detail => "DEBUG-2"
  | .trace => "DEBUG-3"

def rank : Level → Nat
  | .debug => 1
  | .detail => 2
  | .trace => 3

end Level

structure Entry where
  level : Level
  message : Text

/-- The line of an entry. -/
def Entry.line (e : Entry) : Text := e.level.mark ++ " - " ++ e.message

/-- The entries that a log kept at `limit` shows. No level at all shows none. -/
def shown (limit : Option Level) (entries : List Entry) : List Entry :=
  match limit with
  | none => []
  | some limit => entries.filter fun e => e.level.rank ≤ limit.rank

end SwiftABI.Log
