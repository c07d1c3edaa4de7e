/-
  A suffix that is added to a symbol changes nothing else.

  Everything behind a dot at the end of an operator is kept as it is. A symbol without such a suffix
  can be given one: it is read as the same tree with the suffix as its last child, and written as
  the same text with the suffix behind it, if the tree can be written at all (`suffixConservative`).

  In the reading, no operator of the symbol may see the dot (`Machine.Comes.over`). In the writing,
  the tree has one node more, and the fuel one unit more with it (`Writing.mangleAt_succ`).
-/
import SwiftABI.Proofs.Symbol.RoundTrip

namespace SwiftABI

/-- The tree of a symbol with a suffix as its last child. -/
def Node.withSuffix (t : Node) (x : Text) : Node :=
  .mk t.kind t.payload (t.children ++ [Machine.suffixNode x])

variable {cfg : Config} {prefixes : List Text} {p s x body : Text} {t : Node}

/-! ### Prefixes -/

/-- A symbol begins with the same prefix if a suffix is added. -/
theorem splitPrefix_append_suffix (hprefixes : ∀ p ∈ prefixes, CodePoint.char '.' ∉ p)
    (s x : Text) :
    splitPrefix prefixes (s ++ ('.' : CodePoint) :: x) = (splitPrefix prefixes s).map fun r =>
      (r.1, r.2 ++ ('.' : CodePoint) :: x) := by
  unfold splitPrefix
  -- No prefix ends behind the dot, so the first one that fits is the same.
  induction prefixes with
  | nil => rfl
  | cons p prefixes ih =>
    rw [List.findSome?_cons, List.findSome?_cons,
      Text.dropPrefix?_append_cons (hprefixes p List.mem_cons_self)]
    cases Text.dropPrefix? p s with
    | some rest => rfl
    | none => exact ih fun q hq => hprefixes q (List.mem_cons_of_mem p hq)

/-! ### Reading -/

/-- A symbol is read well if it has a prefix and a body, and a run over that leaves nodes that make
up the tree. -/
theorem demangle_eq_ok_iff : demangle cfg s = .ok t ↔
    ∃ offset body m, splitPrefix cfg.prefixes s = some (offset, body) ∧ body ≠ [] ∧
      (Machine.load offset body).run cfg = .ok m ∧ m.symbol = .ok t := by
  rw [demangle_eq_ok_iff_readSymbol]
  unfold readSymbol loadSymbol
  rcases splitPrefix cfg.prefixes s with _ | ⟨offset, body⟩
  · dsimp only
    split
    · simp [bind, Except.bind]
    · split <;> simp [bind, Except.bind]
  · by_cases hempty : body = []
    · simp [hempty, bind, Except.bind]
    · rcases hrun : (Machine.load offset body).run cfg with e | m
      · simp [hempty, hrun, bind, Except.bind]
      · simp [hempty, hrun, bind, Except.bind]

/-- A run that leaves no suffix has parsed the whole text. -/
theorem Parses.of_run {offset : Nat} {m : Machine} (h : (Machine.load offset body).run cfg = .ok m)
    (hplain : ∀ n ∈ m.stack, n.unwrapped.kind ≠ .suffix) :
    ∃ c, Parses cfg body {} c ∧ m.stack = c.stack := by
  obtain ⟨hcomes, hend⟩ := Machine.run_eq_ok_iff.mp h
  have hover : Machine.Comes cfg (Store.machine {} offset (body ++ m.rest)) m := by
    rwa [hend, List.append_nil]
  rcases hover.over with ⟨c, hbody, hm⟩ | ⟨u, v, c, -, -, rfl⟩
  · exact ⟨c, hbody, by rw [hm]; rfl⟩
  · exact absurd rfl (hplain (Machine.suffixNode v) List.mem_cons_self)

/-- A symbol is read with a suffix as it is read without one. -/
theorem demangle_append_suffix (hprefixes : ∀ p ∈ cfg.prefixes, CodePoint.char '.' ∉ p)
    (h : demangle cfg s = .ok t) (hplain : ∀ c ∈ t.children, c.kind ≠ .suffix) (x : Text) :
    demangle cfg (s ++ ('.' : CodePoint) :: x) = .ok (t.withSuffix x) := by
  obtain ⟨offset, body, m, hsplit, -, hrun, hsymbol⟩ := demangle_eq_ok_iff.mp h
  obtain ⟨-, rfl⟩ := Machine.symbol_eq_ok_iff.mp hsymbol
  obtain ⟨c, hbody, hstack⟩ := Parses.of_run hrun fun n hn =>
    hplain n.unwrapped (List.mem_map_of_mem (List.mem_reverse.mpr hn))
  have hsuffixed := Machine.run_eq_ok_iff.mpr ⟨hbody.comes_suffix offset x, rfl⟩
  refine demangle_eq_ok_iff.mpr
    ⟨offset, body ++ ('.' : CodePoint) :: x, _, ?_, by simp, hsuffixed, ?_⟩
  · rw [splitPrefix_append_suffix hprefixes, hsplit]
    rfl
  · refine Machine.symbol_eq_ok_iff.mpr ⟨List.cons_ne_nil _ _, ?_⟩
    show Node.mk .global .none (m.stack.reverse.map Node.unwrapped ++ [Machine.suffixNode x])
      = .mk .global .none ((Machine.suffixNode x :: c.stack).reverse.map Node.unwrapped)
    rw [hstack, List.reverse_cons, List.map_append]
    rfl

/-! ### Writing -/

/-- The text of a tree with a suffix is that of the tree without it, and the suffix. -/
theorem mangle_withSuffix (cs : List Node) (x : Text) :
    mangle cfg ((Node.mk .global .none cs).withSuffix x)
      = (mangle cfg (.mk .global .none cs)).map (· ++ ('.' : CodePoint) :: x) := by
  have hwritten (t : Node) : writeTree cfg t = (Writing.mangleAt cfg t.size t).outcome {} := rfl
  have hsuffixed : writeTree cfg ((Node.mk .global .none cs).withSuffix x) =
      (Writing.mangleAt cfg (Node.mk .global .none cs).size (.mk .global .none cs) >>= fun _ =>
        Writing.emit ('.' :: x)).outcome {} := by
    rw [← mangleAt_global_suffix]
    rfl
  unfold mangle
  rw [hsuffixed, hwritten, Writing.outcome_bind]
  rcases (Writing.mangleAt cfg _ (.mk .global .none cs)).outcome {} with ⟨e | ⟨⟩, d⟩
  · rfl
  · rfl

/-- Adding a suffix to a symbol adds it to the tree as the last child, and to the text that is
written for the tree. -/
theorem suffixConservative (hprefixes : ∀ p ∈ cfg.prefixes, CodePoint.char '.' ∉ p)
    (h : demangle cfg s = .ok t) (hplain : ∀ c ∈ t.children, c.kind ≠ .suffix) (x : Text) :
    demangle cfg (s ++ ('.' : CodePoint) :: x) = .ok (t.withSuffix x) ∧
      mangle cfg (t.withSuffix x) = (mangle cfg t).map (· ++ ('.' : CodePoint) :: x) := by
  refine ⟨demangle_append_suffix hprefixes h hplain x, ?_⟩
  obtain ⟨_, _, m, -, -, -, hsymbol⟩ := demangle_eq_ok_iff.mp h
  obtain ⟨-, rfl⟩ := Machine.symbol_eq_ok_iff.mp hsymbol
  exact mangle_withSuffix _ x

/-- A suffix behind a symbol that is a type. -/
theorem suffixConservative_integer :
    ∃ t, demangle {} "$sSiD".text = .ok t ∧ (∀ c ∈ t.children, c.kind ≠ .suffix) ∧
      demangle {} "$sSiD.cold.1".text = .ok (t.withSuffix "cold.1".text) ∧
      mangle {} (t.withSuffix "cold.1".text) = .ok "$sSiD.cold.1".text := by
  have hread : demangle {} "$sSiD".text =
    .ok (.mk .global .none [.mk .typeMangling .none [Node.typeOf
      (.mk .structType .none
        [.moduleName Standard.moduleText, .identifier "Int".text])]]) := by decide +kernel
  have hsuffixed := suffixConservative (by decide) hread (by decide) "cold.1".text
  exact ⟨_, hread, by decide, hsuffixed.1, hsuffixed.2.trans rfl⟩

end SwiftABI
