/-
  Writing names and labels.

  A name is spelled once and referred to by its number from then on. The reader keeps an identifier
  under that number, whatever the name is that of: a module, an operator or a part of a tuple.
-/
import SwiftABI.Proofs.Symbol.Operators.Entity
import SwiftABI.Proofs.Symbol.Operators.Type
import SwiftABI.Proofs.Symbol.Spellable
import SwiftABI.Proofs.Symbol.Written.Basic

namespace SwiftABI

/-! ### Spelling and referring -/

namespace Turns

variable {strict : Prop} {cfg : Config} {pre : Text} {s : List Node} {n : Node} {t : Text}

/-- A name is read as an identifier, and registered. -/
theorem spellName (hmax : cfg.maxWords ≤ 26) (n : Node) {name : Text} (hkeeps : Punycode.Keeps name)
    (hname : strict → Spellable cfg name) :
    Turns strict cfg pre (Writing.spellName cfg n name) ⟨s, []⟩
      fun _ => ⟨.identifier name :: s, [.identifier name]⟩ := by
  rintro d ⟨body, table, entries, hsymbol, hending, hindexes, htable, hlength⟩
  rw [Writing.outcome_spellName]
  rcases hencode : Identifier.encode cfg name d.words with ⟨r | w, words⟩
  · refine .inr ⟨fun hstrict => ?_, _, _, rfl⟩
    obtain ⟨w, hw⟩ := hname hstrict d.words
    rw [hencode] at hw
    cases hw
  · obtain ⟨hparses, hlength', hne⟩ := Reads.identifier (s := s) hmax hkeeps hlength hencode
    refine .inl
      ⟨(), _, rfl, body ++ w, _, entries, ?_, hending.append hparses hne, hindexes, ?_, hlength'⟩
    · show d.symbol ++ w = _
      rw [hsymbol, List.append_assoc]
    · rw [SubstitutionTable.nodes_insert, htable, List.append_nil]

/-- A name is referred to, or spelled. -/
theorem name {write : Writing Unit} (hlimit : -1 ≤ cfg.maxRepeatCount)
    (hkey : SubstitutionKey.ofNode n true = .ok (.name t)) (hk : n.kind.isSubstitutable = true)
    (hcode : Standard.code? n = none)
    (hwrite : Turns strict cfg pre write ⟨s, []⟩ fun _ => ⟨.identifier t :: s, [.identifier t]⟩) :
    Turns strict cfg pre (Writing.referenceOr cfg n true write) ⟨s, []⟩ fun _ =>
      ⟨.identifier t :: s, []⟩ :=
  referenceOr hlimit hkey hk (fun letter h => by rw [hcode] at h; cases h) hwrite

/-- A name that is no operator. -/
theorem identifier {k : Kind} (hlimit : -1 ≤ cfg.maxRepeatCount) (hmax : cfg.maxWords ≤ 26)
    (hk : k ∈ [Kind.identifier, .moduleName, .tupleElementName]) (hkeeps : Punycode.Keeps t)
    (ht : strict → Spellable cfg t) :
    Turns strict cfg pre (Writing.identifier cfg (.mk k (.text t) [])) ⟨s, []⟩
      fun _ => ⟨.identifier t :: s, []⟩ := by
  have hkey : SubstitutionKey.ofNode (.mk k (.text t) []) true = .ok (.name t) := by
    simp only [List.mem_cons, List.not_mem_nil, or_false] at hk
    rcases hk with rfl | rfl | rfl <;> rfl
  have hcode : Standard.code? (.mk k (.text t) []) = none := by
    simp only [List.mem_cons, List.not_mem_nil, or_false] at hk
    rcases hk with rfl | rfl | rfl <;> rfl
  have hall : ∀ k ∈ [Kind.identifier, .moduleName, .tupleElementName],
      k.isSubstitutable = true := by
    decide
  exact name hlimit hkey (hall k hk) hcode (lift_bind rfl (spellName hmax _ hkeeps ht))

end Turns

namespace Written

variable {strict : Prop} {cfg : Config} {pre : Text} {sub : Node → Writing Unit} {n : Node}
  {k : Kind} {t : Text}

/-! ### Names -/

/-- An identifier is spelled or referred to. -/
theorem identifier (hlimit : -1 ≤ cfg.maxRepeatCount) (hmax : cfg.maxWords ≤ 26)
    (hk : k = .identifier ∨ k = .tupleElementName) (hkeeps : Punycode.Keeps t)
    (ht : strict → Spellable cfg t) :
    Written strict cfg pre (Writing.ofNode cfg sub) (.mk k (.text t) []) := by
  intro s
  rcases hk with rfl | rfl
  · exact Turns.identifier hlimit hmax (by decide) hkeeps ht
  · exact Turns.identifier hlimit hmax (by decide) hkeeps ht

/-- A module is spelled or referred to, unless it has letters. -/
theorem moduleName (hlimit : -1 ≤ cfg.maxRepeatCount) (hmax : cfg.maxWords ≤ 26)
    (hkeeps : Punycode.Keeps t) (hspellable : strict → Spellable cfg t) :
    Written strict cfg pre (Writing.ofNode cfg sub) (.mk .moduleName (.text t) []) := by
  intro s
  show Turns strict cfg pre (Writing.moduleName cfg (.mk .moduleName (.text t) [])) _ _
  show Turns strict cfg pre (if t = Standard.moduleText then _ else if t = Code.objcModule then _
    else if t = Code.importerModule then _ else _) _ _
  split
  · rename_i ht
    subst ht
    exact .emit .standardModule (List.cons_ne_nil _ _)
  · split
    · rename_i ht
      subst ht
      exact .emit .objcModule (List.cons_ne_nil _ _)
    · split
      · rename_i ht
        subst ht
        exact .emit .importerModule (List.cons_ne_nil _ _)
      · rename_i hstandard hobjc himporter
        have ht : t ∉ lettered := by simp [lettered, hstandard, hobjc, himporter]
        have hstacked : (Node.mk .moduleName (.text t) []).stacked = [.identifier t] := if_neg ht
        rw [hstacked]
        exact Turns.identifier hlimit hmax (by decide) hkeeps hspellable

/-- An operator is spelled as an identifier, and its fixity stands behind it. -/
theorem operatorName (hlimit : -1 ≤ cfg.maxRepeatCount) (hmax : cfg.maxWords ≤ 26)
    (hk : k ∈ Kind.operators) (ht : ∀ c ∈ t, Operator.IsOperatorChar c) (hkeeps : Punycode.Keeps t)
    (hspellable : strict → Spellable cfg (Operator.translate t)) :
    Written strict cfg pre (Writing.ofNode cfg sub) (.mk k (.text t) []) := by
  have hall : ∀ k ∈ Kind.operators, k.isSubstitutable = true := by decide
  have hname : ∀ {k : Kind} {s : List Node}, k ∈ Kind.operators →
      Turns strict cfg pre (Writing.referenceOr cfg (.mk k (.text t) []) true do
          Writing.spellName cfg (.mk k (.text t) [])
            (Operator.translate (← Writing.lift (Fault.inTree (Node.mk k (.text t) []).text))))
            ⟨s, []⟩
        fun _ => ⟨.identifier (Operator.translate t) :: s, []⟩ := by
    intro k s hk
    have hkey : SubstitutionKey.ofNode (.mk k (.text t) []) true =
        .ok (.name (Operator.translate t)) := by
      simp only [Kind.operators, List.mem_cons, List.not_mem_nil, or_false] at hk
      rcases hk with rfl | rfl | rfl <;> rfl
    have hcode : Standard.code? (.mk k (.text t) []) = none := by
      simp only [Kind.operators, List.mem_cons, List.not_mem_nil, or_false] at hk
      rcases hk with rfl | rfl | rfl <;> rfl
    exact Turns.name hlimit hkey (hall k hk) hcode
      (Turns.lift_bind rfl (Turns.spellName hmax _ (Operator.keeps_translate hkeeps) hspellable))
  intro s
  simp only [Kind.operators, List.mem_cons, List.not_mem_nil, or_false] at hk
  rcases hk with rfl | rfl | rfl
  all_goals
    refine (hname (by decide)).bind fun _ => ?_
    exact .emit (.operatorName (by decide) ht) (List.cons_ne_nil _ _)

/-- A local name has its number behind it. -/
theorem localDeclName {i : Nat} {name : Node} (hname : name.kind.isDeclName = true)
    (hnumber : sub (.mk .number (.index i) []) = Writing.emit (Code.index i))
    (hsub : Written strict cfg pre sub name) :
    Written strict cfg pre (Writing.ofNode cfg sub)
      (.mk .localDeclName .none [.mk .number (.index i) [], name]) := by
  intro s
  show Turns strict cfg pre (do
    sub name
    Writing.emit ['L']
    sub (.mk .number (.index i) [])) _ _
  rw [hnumber]
  refine (hsub s).bind fun _ => ?_
  rw [Node.stacked_of_plain (Kind.plain_of_isDeclName hname)]
  exact .emit_emit (.localDeclName i hname) (List.cons_ne_nil _ _)

/-- A private name has its discriminator behind it. -/
theorem privateDeclName {discriminator : Text} {name : Option Node}
    (hname : ∀ n ∈ name, n.kind.isDeclName = true)
    (hsub : ∀ c ∈ Node.identifier discriminator :: name.toList, Written strict cfg pre sub c) :
    Written strict cfg pre (Writing.ofNode cfg sub)
      (.mk .privateDeclName .none (.identifier discriminator :: name.toList)) := by
  intro s
  refine Turns.bind (Turns.each fun c hc => hsub c (List.mem_reverse.mp hc)) fun _ => ?_
  rcases name with _ | name
  · exact .emit .privateDiscriminator (List.cons_ne_nil _ _)
  · have hn := hname name rfl
    have hstacked : Node.stackedOn s [name, .identifier discriminator]
        = .identifier discriminator :: name :: s := by
      rw [Node.stackedOn_cons, Node.stacked_of_plain (Kind.plain_of_isDeclName hn)]
      rfl
    show Turns strict cfg pre _ ⟨Node.stackedOn s [name, .identifier discriminator], []⟩ _
    rw [hstacked]
    exact .emit (.privateDeclName hn) (List.cons_ne_nil _ _)

/-- A related name has the letter for the relation behind it. -/
theorem relatedEntityDeclName {c : CodePoint} {name : Node} (hc : IsRelationLetter c)
    (hname : name.kind.isDeclName = true) (hsub : Written strict cfg pre sub name) :
    Written strict cfg pre (Writing.ofNode cfg sub)
      (.mk .relatedEntityDeclName (.text [c]) [name]) := by
  intro s
  refine (hsub s).bind fun _ => ?_
  rw [Node.stacked_of_plain (Kind.plain_of_isDeclName hname)]
  exact .emit (.relatedEntityDeclName hc hname) (List.cons_ne_nil _ _)

/-! ### Labels -/

/-- Labels are written as identifiers and marks, or as an empty list. -/
theorem labelList {ls : List Node}
    (hls : ∀ l ∈ ls, l.kind = .identifier ∨ l.kind = .firstElementMarker)
    (hsub : ∀ l ∈ ls, Written strict cfg pre sub l) :
    Written strict cfg pre (Writing.ofNode cfg sub) (.mk .labelList .none ls) := by
  intro s
  rcases ls with _ | ⟨l, ls⟩
  · have hempty : Operates cfg "y".text s (Node.emptyMark :: s) :=
      Operates.marker (k := .emptyList) (by decide) rfl
    exact .emit hempty (List.cons_ne_nil _ _)
  · have hplain : ∀ l' ∈ l :: ls, l'.kind ∈ Kind.plain := fun l' hl => by
      rcases hls l' hl with h | h <;> rw [h] <;> decide
    have hwritten := Turns.each (s := s) hsub
    rw [Node.stackedOn_plain hplain] at hwritten
    exact hwritten

end Written

end SwiftABI
