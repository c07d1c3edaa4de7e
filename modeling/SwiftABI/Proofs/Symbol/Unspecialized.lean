/-
  Taking generic arguments away leaves the declarations.

  A node is declared in a context, that in another one, and so on. `Node.declarations` lists what
  there is along this chain, with all payloads and children but without the nodes that apply generic
  arguments. `Node.Unbinds` follows the chain as `Node.unspecialized` does: nothing that applies
  arguments is left (`Unbinds.isSpecialized_eq_false`), and no declaration is lost or changed
  (`Unbinds.declarations_eq`). As a tree without arguments is made up of its declarations
  (`Node.rebuilt_declarations`), what `unspecialized` answers is fixed by them.

  So a nominal type with arguments is written by way of one without, and that is where this ends.
-/
import SwiftABI.Proofs.Symbol.ArgumentChain

namespace SwiftABI

/-- What has a context applies no arguments itself. -/
theorem Kind.not_boundGenerics_of_context {k : Kind} (hk : k ∈ nominals ∨ k ∈ declaredFirst) :
    k ∉ boundGenerics := by
  have hall : ∀ k ∈ nominals ++ declaredFirst, k ∉ boundGenerics := by decide
  exact hall k (List.mem_append.mpr hk)

namespace Node

/-! ### The chain of contexts -/

/-- What a declaration says of itself: its kind, its payload, and its children other than its
context. -/
abbrev Declaration : Type := Kind × Payload × List Node

/-- The declarations that a node stands for, from its own outwards. The context of an extension is
the type it extends, and nodes that apply generic arguments stand for what these are applied to. -/
def declarations : Node → List Declaration
  | .mk k p [] => [(k, p, [])]
  | .mk k p (c :: cs) =>
    if k ∈ Kind.nominals ∨ k ∈ Kind.declaredFirst then (k, p, cs) :: declarations c
    else if k ∈ Kind.boundNominals then
      match c with
      | .mk _ _ (nominal :: _) => declarations nominal
      | .mk _ _ [] => [(k, p, c :: cs)]
    else if k = .boundGenericFunction then declarations c
    else if k = .extensionDecl then
      match cs with
      | extended :: rest => (k, p, c :: rest) :: declarations extended
      | [] => [(k, p, [c])]
    else [(k, p, c :: cs)]

/-- The tree without generic arguments that is made up of declarations. -/
def rebuilt : List Declaration → Node
  | [] => ofChildren .global []
  | [(k, p, cs)] => .mk k p cs
  | (k, p, cs) :: above =>
    if k = .extensionDecl then .mk k p (cs.take 1 ++ rebuilt above :: cs.drop 1)
      else .mk k p (rebuilt above :: cs)

variable {n m c extended : Node} {k : Kind} {p : Payload} {cs : List Node}

theorem declarations_context (hk : k ∈ Kind.nominals ∨ k ∈ Kind.declaredFirst) :
    (mk k p (c :: cs)).declarations = (k, p, cs) :: c.declarations := by
  rw [declarations.eq_def]
  exact if_pos hk

theorem declarations_extension :
    (mk .extensionDecl p (c :: extended :: cs)).declarations =
      (.extensionDecl, p, c :: cs) :: extended.declarations := by
  rw [declarations.eq_def]
  rfl

theorem declarations_bound {k' : Kind} {p' : Payload} {cs' : List Node}
    (hk : k ∈ Kind.boundNominals) :
    (mk k p (mk k' p' (c :: cs') :: cs)).declarations = c.declarations := by
  have hdeclared : ∀ k ∈ Kind.boundNominals, ¬(k ∈ Kind.nominals ∨ k ∈ Kind.declaredFirst) := by
    decide
  rw [declarations.eq_def]
  exact (if_neg (hdeclared k hk)).trans (if_pos hk)

theorem declarations_boundFunction :
    (mk .boundGenericFunction p (c :: cs)).declarations = c.declarations := by
  rw [declarations.eq_def]
  rfl

theorem declarations_ne_nil (n : Node) : n.declarations ≠ [] := by
  fun_induction declarations n <;> simp_all

theorem rebuilt_cons {above : List Declaration} (hk : k ≠ .extensionDecl) (habove : above ≠ []) :
    rebuilt ((k, p, cs) :: above) = .mk k p (rebuilt above :: cs) := by
  cases above with
  | nil => contradiction
  | cons d above => rw [rebuilt, if_neg hk]; simp

theorem rebuilt_extension {above : List Declaration} (habove : above ≠ []) :
    rebuilt ((.extensionDecl, p, c :: cs) :: above) = .mk .extensionDecl p
      (c :: rebuilt above :: cs) := by
  cases above with
  | nil => contradiction
  | cons d above => rw [rebuilt]; simp; simp

/-- A tree to which no arguments are applied is made up of its declarations. -/
theorem rebuilt_declarations (n : Node) (hn : n.isSpecialized = false) :
    rebuilt n.declarations = n := by
  induction n using isSpecialized.induct with
  | case1 k p => simp [declarations, rebuilt]
  | case2 k p c cs hbound =>
    rw [isSpecialized_bound hbound] at hn
    contradiction
  | case3 k p c cs hbound hk ih =>
    have hext : k ≠ .extensionDecl := by rintro rfl; revert hk; decide
    rw [isSpecialized_context hk hbound] at hn
    rw [declarations_context hk, rebuilt_cons hext c.declarations_ne_nil, ih hn]
  | case4 p c extended cs hbound hk ih =>
    rw [isSpecialized_extension] at hn
    rw [declarations_extension, rebuilt_extension extended.declarations_ne_nil, ih hn]
  | case5 p c hbound hk =>
    rw [declarations.eq_def]
    rfl
  | case6 k p c cs hbound hk hext =>
    have hb : k ∉ Kind.boundNominals ∧ k ≠ .boundGenericFunction := by
      simpa [Kind.boundGenerics] using hbound
    rw [declarations.eq_def]
    simp [hk, hb, hext, rebuilt]

/-! ### Taking arguments away -/

/-- Without the arguments that are applied to it and to the contexts above it, the first node is the
second one. -/
inductive Unbinds : Node → Node → Prop where
  | plain {n : Node} (hn : n.isSpecialized = false) : Unbinds n n
  | context {k : Kind} {p : Payload} {c c' : Node} {cs : List Node}
    (hk : k ∈ Kind.nominals ∨ k ∈ Kind.declaredFirst)
    (hfits : (mk k p (c' :: cs)).Fits) (h : Unbinds c c') :
      Unbinds (mk k p (c :: cs)) (mk k p (c' :: cs))
  | bound {k k' : Kind} {p p' : Payload} {nominal m : Node} {cs cs' : List Node}
    (hk : k ∈ Kind.boundNominals)
    (h : Unbinds nominal m) : Unbinds (mk k p (mk k' p' (nominal :: cs') :: cs)) m
  | boundFunction {p : Payload} {c m : Node} {cs : List Node} (h : Unbinds c m) :
    Unbinds (mk .boundGenericFunction p (c :: cs)) m
  | extension {p : Payload} {c extended extended' : Node} {cs : List Node}
    (hfits : (mk .extensionDecl p [c, extended']).Fits) (h : Unbinds extended extended') :
    Unbinds (mk .extensionDecl p (c :: extended :: cs)) (mk .extensionDecl p [c, extended'])

/-- The arguments of a context are taken away before something is made of it. -/
theorem exists_stripped {f : Node → Except Fault Node}
    (h : (if c.isSpecialized = true then c.unspecialized >>= f else .ok c >>= f) = .ok m) :
    ∃ r, c.stripped = .ok r ∧ f r = .ok m := by
  unfold stripped
  split at h
  · rw [if_pos ‹_›]
    rcases hr : c.unspecialized with e | r
    · rw [hr] at h
      cases h
    · rw [hr] at h
      exact ⟨r, rfl, h⟩
  · rw [if_neg ‹_›]
    exact ⟨c, rfl, h⟩

theorem fits_of_inTree_make (h : Fault.inTree (make k p cs) = .ok n) :
    n = .mk k p cs ∧ (mk k p cs).Fits := by
  rcases hmake : make k p cs with e | m <;> rw [hmake] at h <;> cases h
  exact make_eq_ok_iff.mp hmake

/-- All that taking arguments away can do. -/
theorem unbinds_of_unspecialized {m : Node} : (n : Node) → n.unspecialized = .ok m → n.Unbinds m
  | .mk k p [], h => by contradiction
  | .mk k p (c :: cs), h => by
    have hsmaller {d r : Node} (hlt : d.size < (mk k p (c :: cs)).size) (h : d.stripped = .ok r) :
      d.Unbinds r := by
      unfold stripped at h
      split at h
      · exact unbinds_of_unspecialized d h
      next hspecialized =>
        cases h
        exact .plain (by simpa using hspecialized)
    have hlt : c.size < (mk k p (c :: cs)).size := size_lt_of_mem_children List.mem_cons_self
    rw [unspecialized.eq_def] at h
    dsimp only at h
    split at h
    · -- The context of a declaration is replaced.
      obtain ⟨r, hr, hmake⟩ := exists_stripped h
      obtain ⟨rfl, hfits⟩ := fits_of_inTree_make hmake
      exact .context ‹_› hfits (hsmaller hlt hr)
    split at h
    · -- A nominal type is taken out of the node that binds it.
      split at h
      next k' p' nominal ns =>
        have hnominal : nominal ∈ (mk k' p' (nominal :: ns)).children := List.mem_cons_self
        exact .bound ‹_› (hsmaller (Nat.lt_trans (size_lt_of_mem_children hnominal) hlt) h)
      · contradiction
    split at h
    · -- So is a function.
      subst k
      exact .boundFunction (hsmaller hlt h)
    split at h
    · -- The type that is extended is replaced.
      subst k
      split at h
      next _ extended rest =>
        obtain ⟨r, hr, hmake⟩ := exists_stripped h
        obtain ⟨rfl, hfits⟩ := fits_of_inTree_make hmake
        have hextended : extended ∈ (mk .extensionDecl p (c :: extended :: rest)).children := by
          simp [children]
        exact .extension hfits (hsmaller (size_lt_of_mem_children hextended) hr)
      · contradiction
    · contradiction
termination_by n => n.size
decreasing_by exact hlt

theorem Fits.extension_children (h : (mk .extensionDecl p (c :: extended :: cs)).Fits) :
    cs = [] := by
  have hmax : Kind.maxChildren .extensionDecl = some 2 := by decide
  have hcount := h.2.1
  simp [Kind.allowsCount, hmax] at hcount
  exact hcount.2

namespace Unbinds

/-- Nothing that applies arguments is left. -/
theorem isSpecialized_eq_false (h : Unbinds n m) : m.isSpecialized = false := by
  induction h with
  | plain hn => exact hn
  | context hk hfits h ih =>
    rw [isSpecialized_context hk (Kind.not_boundGenerics_of_context hk), ih]
  | bound hk h ih => exact ih
  | boundFunction h ih => exact ih
  | extension hfits h ih => rw [isSpecialized_extension, ih]

/-- No declaration is lost or changed. -/
theorem declarations_eq (h : Unbinds n m) (hn : n.All Fits) : m.declarations = n.declarations := by
  induction h with
  | plain => simp
  | context hk hfits h ih =>
    rw [declarations_context hk, declarations_context hk, ih (hn.children _ List.mem_cons_self)]
  | bound hk h ih =>
    rw [declarations_bound hk,
      ih ((hn.children _ List.mem_cons_self).children _ List.mem_cons_self)]
  | boundFunction h ih => rw [declarations_boundFunction, ih (hn.children _ List.mem_cons_self)]
  | extension hfits h ih =>
    obtain rfl := hn.root.extension_children
    rw [declarations_extension, declarations_extension, ih (hn.children _ (by simp [children]))]

/-- What is left is well shaped, if the tree was. -/
theorem all_fits (h : Unbinds n m) (hn : n.All Fits) : m.All Fits := by
  induction h with
  | plain => exact hn
  | context hk hfits h ih =>
    apply All.of_children hfits
    simp only [children, List.forall_mem_cons]
    exact ⟨ih (hn.children _ List.mem_cons_self),
      fun c hc => hn.children c (List.mem_cons_of_mem _ hc)⟩
  | bound hk h ih => exact ih ((hn.children _ List.mem_cons_self).children _ List.mem_cons_self)
  | boundFunction h ih => exact ih (hn.children _ List.mem_cons_self)
  | extension hfits h ih =>
    apply All.of_children hfits
    simp only [children, List.forall_mem_cons]
    exact ⟨hn.children _ List.mem_cons_self, ih (hn.children _ (by simp [children])), by simp⟩

/-- What is left is made up of the declarations. -/
theorem eq_rebuilt (h : Unbinds n m) (hn : n.All Fits) : m = rebuilt n.declarations := by
  rw [← h.declarations_eq hn, rebuilt_declarations m h.isSpecialized_eq_false]

/-- What is left is no larger, and it is smaller if anything has been taken away. -/
theorem size_le (h : Unbinds n m) :
    m.size ≤ n.size ∧ (n.isSpecialized = true → m.size < n.size) := by
  -- By induction: what has a context counts as specialized if the context does.
  induction h with
  | plain hn => simp [hn]
  | context hk hfits h ih =>
    obtain ⟨hle, hlt⟩ := ih
    rw [isSpecialized_context hk (Kind.not_boundGenerics_of_context hk)]
    simp only [size, sizeAll]
    constructor
    · omega
    · intro hspecialized
      have hsmaller := hlt hspecialized
      omega
  | bound hk h ih =>
    simp only [size, sizeAll]
    omega
  | boundFunction h ih =>
    simp only [size, sizeAll]
    omega
  | extension hfits h ih =>
    obtain ⟨hle, hlt⟩ := ih
    rw [isSpecialized_extension]
    simp only [size, sizeAll]
    constructor
    · omega
    · intro hspecialized
      have hsmaller := hlt hspecialized
      omega

end Unbinds

/-- Taking generic arguments away leaves a smaller tree. -/
theorem size_unspecialized (hn : n.isSpecialized = true) (h : n.unspecialized = .ok m) :
    m.size < n.size :=
  (unbinds_of_unspecialized n h).size_le.2 hn

/-! ### Writing nominal types -/

/-- To write one node as a nominal type, the other one is written as such first. -/
def PutsFirst (n m : Node) : Prop := n.isSpecialized = true ∧ n.unspecialized = .ok m

/-- Writing nominal types comes to an end: what is written first is written without anything before
it. -/
theorem acc_putsFirst (n : Node) : Acc (fun m n => PutsFirst n m) n := by
  apply Acc.intro
  rintro m ⟨-, hm⟩
  have hfalse := (unbinds_of_unspecialized n hm).isSpecialized_eq_false
  apply Acc.intro
  rintro m' ⟨hspecialized, -⟩
  rw [hfalse] at hspecialized
  contradiction

/-- A nominal type with arguments is written as a nominal type without them and then the
arguments. -/
theorem nominal_eq (cfg : Config) (sub : Node → Writing Unit) (n : Node) :
    Writing.nominal cfg sub n =
      if n.isSpecialized then
        Writing.referenceOr cfg n false do
          Writing.nominal cfg sub (← Writing.lift n.unspecialized)
          Writing.applied sub n
      else Writing.unappliedNominal cfg sub n := by
  rw [Writing.nominal]
  rcases hm : n.unspecialized with e | m
  · rfl
  · have hplain : Writing.nominal cfg sub m = Writing.unappliedNominal cfg sub m := by
      simp [Writing.nominal, (unbinds_of_unspecialized n hm).isSpecialized_eq_false]
    simp only [Writing.lift, pure_bind, hplain]

/-- **Taking generic arguments away leaves the declarations, and nothing else.** What
`unspecialized` answers has no arguments anywhere along its contexts, and it has the declarations of
the node along them: it is the tree that is made up of these. So it stays as it is when arguments
are taken away again, and a node without any stays as it is at once. A nominal type is therefore
written as one without arguments and then the arguments, and this ends. -/
theorem unspecialized_faithful (hn : n.WellShaped) :
    (∀ m, n.unspecialized = .ok m →
      m.isSpecialized = false ∧ m.declarations = n.declarations ∧ m = rebuilt n.declarations ∧
        (∀ m', m.unspecialized = .ok m' → m' = m) ∧ (n.isSpecialized = false → m = n)) ∧
      (∀ cfg sub, Writing.nominal cfg sub n =
        if n.isSpecialized then
          Writing.referenceOr cfg n false do
            Writing.nominal cfg sub (← Writing.lift n.unspecialized)
            Writing.applied sub n
        else Writing.unappliedNominal cfg sub n) ∧
      Acc (fun m n => PutsFirst n m) n := by
  have hfits : n.All Fits := All.iff_walk.mpr hn
  constructor
  · intro m hm
    have hunbinds := unbinds_of_unspecialized n hm
    have hdeclarations := hunbinds.declarations_eq hfits
    have hrebuilt := hunbinds.eq_rebuilt hfits
    constructor
    · exact hunbinds.isSpecialized_eq_false
    constructor
    · exact hdeclarations
    constructor
    · exact hrebuilt
    constructor
    · -- The declarations are the same once more.
      intro m' hm'
      rw [(unbinds_of_unspecialized m hm').eq_rebuilt (hunbinds.all_fits hfits),
        hdeclarations, ← hrebuilt]
    · intro hspecialized
      rw [hrebuilt, rebuilt_declarations n hspecialized]
  constructor
  · intro cfg sub
    exact nominal_eq cfg sub n
  · exact acc_putsFirst n

private def genericStructure : Node := .mk .structType .none [.moduleName ['a'], .identifier ['b']]

private def swiftInt : Node :=
  .mk .structType .none [.moduleName "Swift".text, .identifier "Int".text]

private def applyingInt (n : Node) : Node :=
  .mk .boundGenericStructure .none [n.typeOf, .mk .typeList .none [swiftInt.typeOf]]

private def memberOf (extended : Node) : Node :=
  .mk .structType .none [.mk .extensionDecl .none [.moduleName ['x'], extended], .identifier ['c']]

/-- A generic type that an extension of a type with arguments declares, with arguments of its
own. -/
def memberOfExtension : Node := applyingInt (memberOf (applyingInt genericStructure))

/-- The same without arguments. -/
def plainMemberOfExtension : Node := memberOf genericStructure

/-- Arguments are taken away from a type and from the type that the extension around it extends. -/
theorem unspecialized_faithful_memberOfExtension :
    memberOfExtension.WellShaped ∧ memberOfExtension.isSpecialized = true ∧
      memberOfExtension.unspecialized = .ok plainMemberOfExtension ∧
      plainMemberOfExtension.isSpecialized = false ∧
      plainMemberOfExtension.declarations = memberOfExtension.declarations ∧
      ∀ m', plainMemberOfExtension.unspecialized = .ok m' → m' = plainMemberOfExtension := by
  have hfits : memberOfExtension.All Fits := by decide +kernel
  have hshaped : memberOfExtension.WellShaped := All.iff_walk.mp hfits
  have hm : memberOfExtension.unspecialized = .ok plainMemberOfExtension := rfl
  obtain ⟨hplain, hdeclarations, -, hagain, -⟩ := (unspecialized_faithful hshaped).1 _ hm
  exact ⟨hshaped, by decide +kernel, hm, hplain, hdeclarations, hagain⟩

end Node

end SwiftABI
