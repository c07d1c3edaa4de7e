/-
  A tree is written alike with any fuel that is enough.

  Equality is a comparison of pieces of writing. Two ways of writing trees that agree on the smaller
  ones write the larger one alike, so more fuel than a tree has nodes makes no difference
  (`mangleAt_succ`).
-/
import SwiftABI.Proofs.Symbol.Written.Comparison

namespace SwiftABI

/-- Pieces of writing that are the same. -/
def Comparison.same (cfg : Config) : Comparison cfg where
  Plain _ := True
  symbolic _ := trivial
  Holds _ _ x y := x = y
  mono _ h := h
  pure _ := rfl
  throw _ := rfl
  bind h hrest := by rw [h, funext hrest]
  emit _ := rfl
  substitute _ _ := rfl
  named _ _ _ := rfl
  registered _ h := congrArg _ h

/-- More fuel than a tree has nodes makes no difference. -/
theorem Writing.mangleAt_succ {cfg : Config} {fuel : Nat} :
    ∀ {n : Node}, n.size ≤ fuel → mangleAt cfg (fuel + 1) n = mangleAt cfg fuel n := by
  induction fuel with
  | zero =>
    rintro ⟨k, p, cs⟩ hn
    cases hn
  | succ fuel ih =>
    intro n hn
    have hbelow : (Comparison.same cfg).Below n (mangleAt cfg (fuel + 1)) (mangleAt cfg fuel) :=
      ⟨.of_plain (fun _ => trivial) n, fun c hc _ => ih (by omega)⟩
    exact Comparison.ofNode hbelow

theorem Writing.each_mangleAt_succ {cfg : Config} {fuel : Nat} {ns : List Node}
    (h : ∀ n ∈ ns, n.size ≤ fuel) :
    each (mangleAt cfg (fuel + 1)) ns = each (mangleAt cfg fuel) ns := by
  have hsame : (Comparison.same cfg).Holds 0 (each (mangleAt cfg (fuel + 1)) ns)
      (each (mangleAt cfg fuel) ns) :=
    Comparison.each fun n hn => mangleAt_succ (h n hn)
  exact hsame

end SwiftABI
