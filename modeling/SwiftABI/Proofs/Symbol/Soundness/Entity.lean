/-
  The operators that read entities, global symbols and references keep the machine sound.

  With them every operator makes a node that the grammar allows (`Preserves.operator`), and with
  what it makes on its stack the machine is as sound as before (`Preserves.pushOperator`).
-/
import SwiftABI.Proofs.Symbol.Soundness.Arguments
import SwiftABI.Proofs.Symbol.Soundness.Name

namespace SwiftABI

namespace Preserves

variable {cfg : Config}

/-! ### Declarations -/

/-- A declaration with the parts that are popped for it. -/
private theorem declaration {k : Kind}
    (hk : k ∈ [Kind.functionDecl, .variableDecl, .genericTypeParamDecl])
    {context name t : Node} {labels : Option Node}
    (hcontext : context.Grammatical cfg ∧ context.PlainContext)
    (hname : name.Sound cfg ∧ name.kind.isDeclName = true) (ht : t.Sound cfg ∧ t.kind = .type)
    (hlabels : LabelsFit labels t ∧ ∀ l ∈ labels, l.Grammatical cfg)
    (hfunction : k = .functionDecl → t.unwrapped.kind = .functionType) :
    Preserves cfg (Reading.node k ([context, name] ++ labels.toList ++ [t])) fun n =>
      n.Sound cfg ∧ n.kind = k := by
  have hkinds : ∀ k ∈ [Kind.functionDecl, .variableDecl, .genericTypeParamDecl],
      k ∈ Kind.stackable ∧ k ≠ .moduleName ∧ k ≠ .extensionDecl := by decide
  refine build.mono fun n hn => ?_
  obtain ⟨rfl, -⟩ := hn
  refine ⟨.of_rule (hkinds k hk)
    (.declaration hk (Kind.mem_contextChildren hcontext.2.kind) hname.2 ht.2
    hlabels.1 hfunction fun _ => hcontext.2) ?_, rfl⟩
  refine List.forall_mem_append.mpr ⟨List.forall_mem_append.mpr ⟨?_, ?_⟩, ?_⟩
  · exact forall_mem_pair hcontext.1 hname.1.grammatical
  · exact forall_mem_toList hlabels.2
  · exact List.forall_mem_singleton.mpr ht.1.grammatical

theorem entity {k : Kind} (hk : k ∈ [Kind.variableDecl, .genericTypeParamDecl]) :
    Preserves cfg (Reading.entity k) fun n => n.Sound cfg ∧ n.kind = k := by
  have hne : ∀ k ∈ [Kind.variableDecl, .genericTypeParamDecl], k ≠ .functionDecl := by decide
  refine popType.bind fun t ht => (popLabelList? ht).bind fun labels hlabels => ?_
  refine popDeclName.bind fun name hname => popContext.bind fun context hcontext => ?_
  exact declaration (List.mem_cons_of_mem _ hk) hcontext hname ht hlabels fun h =>
    absurd h (hne k hk)

theorem function : Preserves cfg Reading.function fun n => n.Sound cfg := by
  refine (popFunctionType (by decide)).bind fun t ht => ?_
  refine (popLabelList? ⟨ht.1, ht.2.1⟩).bind fun labels hlabels => ?_
  refine popDeclName.bind fun name hname => popContext.bind fun context hcontext => ?_
  exact (declaration (by decide) hcontext hname ⟨ht.1, ht.2.1⟩ hlabels fun _ => ht.2.2).mono
    fun _ h => h.1

/-- An extension of a type without generic arguments. -/
theorem extension : Preserves cfg Reading.extension fun n => n.Sound cfg := by
  refine popModule?.bind fun m? hm => (require rfl hm).bind fun m hm =>
    popNominal.bind fun extended he => ?_
  refine node.mono fun n hn => ?_
  obtain ⟨rfl, -⟩ := hn
  refine ⟨.mk (.extension hm.2 (List.mem_append_left _ he.2)) (forall_mem_pair hm.1 he.1), ?_,
    nofun, ?_⟩
  · exact (show Kind.extensionDecl ∈ Kind.stackable by decide)
  · rintro _ _ _ ⟨⟩
    exact he.2

/-! ### Declarations without a name -/

/-- The children lead to a node that the grammar allows, whatever its context is. -/
def Completes (cfg : Config) (k : Kind) (cs : List Node) : Prop :=
  (∀ context : Node, context.kind ∈ Kind.contextChildren →
    (Node.mk k .none (context :: cs)).Rule cfg) ∧ ∀ c ∈ cs, c.Grammatical cfg

/-- The labels, the type and the private name of a declaration. -/
private theorem completes_unnamed {k : Kind}
    (hk : k ∈ [Kind.allocator, .constructorDecl, .subscriptDecl])
    {t : Node} {labels privateName : Option Node} (ht : t.Sound cfg ∧ t.kind = .type)
    (hlabels : LabelsFit labels t ∧ ∀ l ∈ labels, l.Grammatical cfg)
    (hprivate : ∀ n ∈ privateName, n.Sound cfg ∧ n.kind = .privateDeclName)
    (hsubscript : k = .subscriptDecl → labels.isSome = true) :
    Completes cfg k (labels.toList ++ [t] ++ privateName.toList) := by
  refine ⟨fun context hcontext => ?_, ?_⟩
  · exact .unnamed hk hcontext ht.2 hlabels.1 (fun n hn => (hprivate n hn).2) hsubscript
  · refine List.forall_mem_append.mpr ⟨List.forall_mem_append.mpr ⟨?_, ?_⟩, ?_⟩
    · exact forall_mem_toList hlabels.2
    · exact List.forall_mem_singleton.mpr ht.1.grammatical
    · exact forall_mem_toList fun n hn => (hprivate n hn).1.grammatical

theorem unnamedChildren {c : CodePoint} {k : Kind} (hk : (c, k) ∈ Code.functionEntities) :
    Preserves cfg (Reading.unnamedChildren k) (Completes cfg k) := by
  have hconstructor {k : Kind} (hk : k ∈ [Kind.allocator, .constructorDecl, .subscriptDecl])
      (hne : k ≠ .subscriptDecl) : Preserves cfg (do
        let privateName := (← Reading.pop? .privateDeclName).toList
        let t ← Reading.popType
        let labels ← Reading.popLabelList? t
        return labels.toList ++ [t] ++ privateName) (Completes cfg k) := by
    refine (pop? (by decide)).bind fun privateName hprivate => popType.bind fun t ht => ?_
    refine (popLabelList? ht).bind fun labels hlabels => pure ?_
    exact completes_unnamed hk ht hlabels hprivate fun h => absurd h hne
  have hclosure {k : Kind} (hk : k ∈ [Kind.explicitClosure, .implicitClosure]) : Preserves cfg (do
      let number ← Reading.indexNode .number (← Reading.index)
      return [number, ← Reading.popType]) (Completes cfg k) := by
    refine index.bind fun i _ => (number (by decide) i).bind fun d hd =>
      popType.bind fun t ht => pure ?_
    obtain ⟨rfl, hd⟩ := hd
    exact ⟨fun _ h => .closure hk h i ht.2, forall_mem_pair hd ht.1.grammatical⟩
  have hbare {k : Kind} (hk : k ∈ Kind.bareScopes) : Completes cfg k [] :=
    ⟨fun _ h => .bareScope hk h, nofun⟩
  have hall : ∀ entry ∈ Code.functionEntities, entry.2 ∈ Kind.bareScopes ∨
      entry.2 ∈ [Kind.allocator, .constructorDecl, .explicitClosure, .implicitClosure,
        .defaultArgumentInitializer] := by decide
  unfold Reading.unnamedChildren
  split
  · exact hconstructor (by decide) (by decide)
  · exact hconstructor (by decide) (by decide)
  · exact hclosure (by decide)
  · exact hclosure (by decide)
  · refine index.bind fun i _ => (number (by decide) i).bind fun d hd => pure ?_
    obtain ⟨rfl, hd⟩ := hd
    exact ⟨fun _ h => .defaultArgument h i, List.forall_mem_singleton.mpr hd⟩
  -- All other letters stand for scopes without children of their own.
  · refine pure (hbare ((hall _ hk).resolve_right fun hmem => ?_))
    simp only [List.mem_cons, List.not_mem_nil, or_false] at hmem
    rcases hmem with rfl | rfl | rfl | rfl | rfl <;> contradiction

/-- A declaration without a name is completed by its context. -/
theorem functionEntity : Preserves cfg Reading.functionEntity fun n => n.Sound cfg := by
  have hkinds : ∀ entry ∈ Code.functionEntities,
      entry.2 ∈ Kind.stackable ∧ entry.2 ≠ .moduleName ∧ entry.2 ≠ .extensionDecl := by decide
  refine next.bind fun c _ => ?_
  split
  · exact (entity (by decide)).mono fun _ h => h.1
  · refine (require rfl fun _ h => Code.mem_of_decode? h).bind fun k hk => ?_
    refine (unnamedChildren hk).bind fun cs hcs => popContext.bind fun context hcontext => ?_
    refine sound (hkinds _ hk) (hcs.1 context (Kind.mem_contextChildren hcontext.2.kind)) ?_
    exact List.forall_mem_cons.mpr ⟨hcontext.1, hcs.2⟩

/-! ### Properties and subscripts -/

/-- The declaration itself, or one of its accessors. -/
theorem accessor {storage : Node} (h : storage.Sound cfg)
    (hk : storage.kind = .variableDecl ∨ storage.kind = .subscriptDecl) :
    Preserves cfg (Reading.accessor storage) fun n => n.Sound cfg := by
  have hkinds : ∀ k ∈ Kind.accessors, k ∈ Kind.stackable ∧ k ≠ .moduleName ∧
    k ≠ .extensionDecl := by decide
  have hnode : ∀ k ∈ Kind.accessors, Preserves cfg (Reading.node k [storage]) fun n =>
    n.Sound cfg :=
    fun k hk' =>
      sound (hkinds k hk') (.accessor hk' hk) (List.forall_mem_singleton.mpr h.grammatical)
  have hcodes : ∀ entry ∈ Code.accessors ++ Code.mutableAddressors ++ Code.addressors,
      entry.2 ∈ Kind.accessors := by decide
  refine next.bind fun c _ => ?_
  split
  · exact pure h
  · split
    · rename_i k hk'
      have hmem := Code.mem_of_decode? hk'
      exact hnode k (hcodes _ (List.mem_append_left _ (List.mem_append_left _ hmem)))
    · split
      · refine next.bind fun d _ =>
          (require rfl fun _ h => Code.mem_of_decode? h).bind fun k hk' => ?_
        exact hnode k (hcodes _ (List.mem_append_left _ (List.mem_append_right _ hk')))
      · split
        · refine next.bind fun d _ =>
            (require rfl fun _ h => Code.mem_of_decode? h).bind fun k hk' => ?_
          exact hnode k (hcodes _ (List.mem_append_right _ hk'))
        · exact fail rfl

theorem variableEntity : Preserves cfg Reading.variableEntity fun n => n.Sound cfg :=
  (entity (by decide)).bind fun _ h => accessor h.1 (.inl h.2)

theorem subscriptEntity : Preserves cfg Reading.subscriptEntity fun n => n.Sound cfg := by
  refine (pop? (by decide)).bind fun privateName hprivate => popType.bind fun t ht => ?_
  refine (popLabelList? ht).bind fun labels? hlabels => ?_
  refine (require rfl fun l h => h).bind fun labels hsome =>
    popContext.bind fun context hcontext => ?_
  subst hsome
  have hcompletes := completes_unnamed (k := .subscriptDecl)
    (by decide) ht hlabels hprivate fun _ => rfl
  have hrule := hcompletes.1 context (Kind.mem_contextChildren hcontext.2.kind)
  refine node.bind fun n hn => ?_
  obtain ⟨rfl, -⟩ := hn
  exact accessor (.of_rule (by decide) hrule (List.forall_mem_cons.mpr ⟨hcontext.1, hcompletes.2⟩))
    (.inr rfl)

/-! ### Global symbols -/

/-- A type with its labels obeys the grammar. -/
theorem typeMangling : Preserves cfg Reading.typeMangling fun n => n.Made cfg := by
  have hmade : Kind.typeMangling ∈ Kind.stackable ++ [.typeMangling, .suffix] := by decide
  refine popType.bind fun t ht => (popLabelList? ht).bind fun labels hlabels => ?_
  refine (grammatical (.typeMangling ht.2 hlabels.1) ?_).mono fun n hn =>
    ⟨hn.2, by rw [hn.1]; exact hmade⟩
  exact List.forall_mem_append.mpr
    ⟨forall_mem_toList hlabels.2, List.forall_mem_singleton.mpr ht.1.grammatical⟩

/-- It is pushed where no empty list lies that would have been taken for its labels. -/
theorem pushTypeMangling : Preserves cfg (Reading.typeMangling >>= Reading.push) fun _ => True := by
  unfold Reading.typeMangling
  simp only [bind_assoc]
  refine popType.bind fun t ht =>
    (popLabelList? ht).bind_of_ok fun m labels m' hpopped hlabels total hm' => ?_
  obtain ⟨hlabels, hgrammatical⟩ := hlabels
  have hrule : (Node.mk .typeMangling .none (labels.toList ++ [t])).Rule cfg :=
    .typeMangling ht.2 hlabels
  have hpushed : (Reading.node .typeMangling (labels.toList ++ [t]) >>= Reading.push) m' =
      .ok ((),
        { m' with stack := .mk .typeMangling .none (labels.toList ++ [t]) :: m'.stack }) := by
    unfold Reading.node Reading.build
    rw [Node.make_of_fits hrule.fits]
    rfl
  rw [hpushed]
  refine ⟨trivial, ⟨hm'.offset, .typeMangling ht.2 hlabels ?_ ?_ hm'.stack, hm'.table⟩,
    Nat.le_refl _⟩
  · exact List.forall_mem_append.mpr
      ⟨forall_mem_toList hgrammatical, List.forall_mem_singleton.mpr ht.1.grammatical⟩
  · rintro rfl
    exact head_of_popLabelList? hpopped

/-- A node around a popped type that can lie on the stack. -/
theorem aroundPopped {k : Kind} (hk : k ∈ Kind.aroundType)
    (hstack : k ∈ Kind.stackable ∧ k ≠ .moduleName ∧ k ≠ .extensionDecl) :
    Preserves cfg (do Reading.node k [← Reading.popType]) fun n => n.Sound cfg :=
  popType.bind fun _ ht =>
    sound hstack (.aroundType hk ht.2) (List.forall_mem_singleton.mpr ht.1.grammatical)

theorem metadata : Preserves cfg Reading.metadata fun n => n.Sound cfg := by
  have hall : ∀ entry ∈ Code.metadata, entry.2 ∈ Kind.aroundType ∧
      entry.2 ∈ Kind.stackable ∧ entry.2 ≠ .moduleName ∧ entry.2 ≠ .extensionDecl := by decide
  refine next.bind fun c _ => ?_
  split
  · rename_i k hk
    obtain ⟨hk, hstack⟩ := hall _ (Code.mem_of_decode? hk)
    exact aroundPopped hk hstack
  · split
    · refine popProtocol.bind fun t ht => ?_
      obtain ⟨-, -, heq⟩ := ht.1.unwrapped ht.2.1
      have hrule : (Node.mk .protocolDescriptor .none [t.unwrapped.typeOf]).Rule cfg :=
        .protocolDescriptor ht.2.2
      rw [← heq] at hrule
      exact sound (by decide) hrule (List.forall_mem_singleton.mpr ht.1.grammatical)
    · exact fail rfl

theorem witness : Preserves cfg Reading.witness fun n => n.Sound cfg := by
  refine next.bind fun c _ => ?_
  split
  · refine popEntity.bind fun entity h => ?_
    exact sound (by decide) (.enumCase h.2 h.1.onStack)
      (List.forall_mem_singleton.mpr h.1.grammatical)
  · exact aroundPopped (by decide) (by decide)
  · refine next.bind fun d _ => (check rfl).bind fun _ _ => ?_
    generalize hi : (if d = 'd' then 0 else 1 : Nat) = i
    have hindex : (i : Int) = 0 ∨ (i : Int) = 1 := by
      split at hi <;> omega
    refine (grammatical (.directness hindex) nofun).bind fun n hn =>
      popEntity.bind fun entity h => ?_
    obtain ⟨rfl, hn⟩ := hn
    refine sound (by decide) (.fieldOffset hindex h.2 h.1.onStack) ?_
    exact forall_mem_pair hn h.1.grammatical
  · exact fail rfl

theorem valueWitness : Preserves cfg Reading.valueWitness fun n => n.Sound cfg := by
  refine next.bind fun c _ => next.bind fun d _ => ?_
  refine (require (p := fun i => i < Code.valueWitnesses.length) rfl fun i hi => ?_).bind
    fun i hi => ?_
  · exact (List.findIdx?_eq_some_iff_getElem.mp hi).1
  · refine popType.bind fun t ht => ?_
    exact sound (by decide) (.valueWitness hi ht.2) (List.forall_mem_singleton.mpr ht.1.grammatical)

theorem suffix : Preserves cfg Reading.suffix fun n => n.Made cfg := by
  have hmade : Kind.suffix ∈ Kind.stackable ++ [.typeMangling, .suffix] := by decide
  refine get.bind fun _ _ => (advance _).bind fun _ _ => ?_
  exact (grammatical (.suffix _) nofun).mono fun n hn => ⟨hn.2, by rw [hn.1]; exact hmade⟩

/-! ### References -/

theorem repeated (count : Option Nat) (i : Nat) :
    Preserves cfg (Reading.repeated cfg count i) fun n => n.Sound cfg := by
  refine (resolve (by omega)).bind fun n hn => (check rfl).bind fun _ _ => ?_
  exact (pushCopies _ hn).bind fun _ _ => pure hn

/-- The number of an entry is never negative, with or without a numeral in front. -/
theorem references (fuel : Nat) : ∀ count,
    Preserves cfg (Reading.references cfg fuel count) fun n => n.Sound cfg := by
  induction fuel with
  | zero => exact fun _ => fail rfl
  | succ fuel ih =>
    intro count
    refine peek?.bind fun c? _ => ?_
    cases c? with
    | none => exact fail rfl
    | some c =>
      dsimp only
      split
      · refine (advance 1).bind fun _ _ => (repeated count _).bind fun n hn => ?_
        exact (push hn).bind fun _ _ => ih none
      · split
        · exact (advance 1).bind fun _ _ => repeated count _
        · split
          · refine (advance 1).bind fun _ _ => resolve ?_
            unfold Reading.countOr
            split <;> omega
          · refine natural?.bind fun n? _ => ?_
            cases n? with
            | none => exact fail rfl
            | some n => exact ih (some n)

/-- A nominal type of the standard library obeys the grammar. -/
theorem sound_standardType {k : Kind} {name : Text} (hk : k ∈ Kind.nominals) (hname : name ≠ []) :
    (Node.typeOf (.ofChildren k [.moduleName Standard.moduleText, .identifier name])).Sound
      cfg := by
  have htypes : ∀ k ∈ Kind.nominals, k ∈ Kind.types := by decide
  have hmodule : (Node.moduleName Standard.moduleText).Grammatical cfg :=
    .mk (.name (by decide) (by decide)) nofun
  have hidentifier : (Node.identifier name).Grammatical cfg := .mk (.name (by decide) hname) nofun
  have hrule : (Node.ofChildren k [.moduleName Standard.moduleText, .identifier name]).Rule cfg :=
    .nominal hk (by decide) rfl
  refine .of_type (.mk (.type (htypes k hk)) (List.forall_mem_singleton.mpr ?_)) rfl
  exact .mk hrule (forall_mem_pair hmodule hidentifier)

theorem sound_standard {code : CodePoint} {t : Node} (h : Standard.type? code = some t) :
    t.Sound cfg := by
  have hall : ∀ e ∈ Standard.catalogue, e.kind ∈ Kind.nominals ∧ e.name.text ≠ [] := by decide
  obtain ⟨e, hfind, rfl⟩ := Option.map_eq_some_iff.mp h
  obtain ⟨hk, hname⟩ := hall e (List.mem_of_find?_eq_some hfind)
  exact sound_standardType hk hname

/-- The optional of a type has it as its only argument. -/
theorem optional : Preserves cfg Reading.optional fun t => t.Sound cfg := by
  have hoptional : Standard.optionalType.Sound cfg := sound_standardType (by decide) (by decide)
  refine popType.bind fun t ht => ?_
  have hlist : (Node.mk .typeList .none [t]).Rule cfg :=
    .typeList (List.forall_mem_singleton.mpr ht.2)
  refine (grammatical hlist (List.forall_mem_singleton.mpr ht.1.grammatical)).bind
    fun arguments ha => ?_
  obtain ⟨rfl, ha⟩ := ha
  have hrule :
      (Node.mk .boundGenericEnum .none [Standard.optionalType, .mk .typeList .none [t]]).Rule cfg :=
    .boundNominal (by decide) (.inl rfl) (List.cons_ne_nil _ _) (List.forall_mem_singleton.mpr ht.2)
  refine (typed hrule (forall_mem_pair hoptional.grammatical ha)).bind fun n hn => ?_
  exact (register hn.2).bind fun _ _ => pure hn.2

/-- A module that has a letter. -/
theorem letteredModule {t : Text} (ht : t ∈ lettered) :
    Preserves cfg (Reading.build .moduleName (.text t) []) fun n => n.Sound cfg := by
  have hall : ∀ t ∈ lettered, t ≠ [] := by decide
  refine (grammatical (.name (by decide) (hall t ht)) nofun).mono fun n hn => ?_
  obtain ⟨rfl, hn⟩ := hn
  refine ⟨hn, show Kind.moduleName ∈ Kind.stackable by decide, ?_, nofun⟩
  rintro _ _ ⟨⟩
  exact ht

theorem standardReference : Preserves cfg (Reading.standardReference cfg) fun n => n.Sound cfg := by
  refine peek?.bind fun c? _ => ?_
  split
  · exact fail rfl
  · exact (advance 1).bind fun _ _ => letteredModule (by decide)
  · exact (advance 1).bind fun _ _ => letteredModule (by decide)
  · exact (advance 1).bind fun _ _ => optional
  · refine natural?.bind fun count _ => (check rfl).bind fun _ _ => next.bind fun c _ => ?_
    refine (require (p := Node.Sound cfg) rfl fun t ht => sound_standard ht).bind fun t ht => ?_
    exact (pushCopies _ ht).bind fun _ _ => pure ht

/-! ### Operators -/

/-- A mark on the stack. -/
private theorem marker {k : Kind} (hk : k ∈ Kind.markers)
    (hstack : k ∈ Kind.stackable ∧ k ≠ .moduleName ∧ k ≠ .extensionDecl) :
    Preserves cfg (Reading.node k []) fun n => n.Sound cfg := sound hstack (.marker hk) nofun

theorem staticDecl : Preserves cfg (do Reading.node .staticDecl [← Reading.popEntity]) fun n =>
      n.Sound cfg := by
  have hnominal : ∀ k ∈ Kind.stackable, k ∉ Kind.nominals := by decide
  refine popEntity.bind fun entity h => ?_
  refine sound (by decide) (.staticDecl h.2 (hnominal _ h.1.onStack.kind) h.1.onStack.module) ?_
  exact List.forall_mem_singleton.mpr h.1.grammatical

/-- Every operator that does not end a symbol makes a node that can lie on the stack. -/
theorem soundOperator {c : CodePoint} (hc : c ≠ 'D' ∧ c ≠ '.') :
    Preserves cfg (Reading.operator cfg c) fun n => n.Sound cfg := by
  unfold Reading.operator
  -- One case for each letter, in the order of the definition.
  split
  · exact get.bind fun m _ => references _ _
  · exact builtinType
  · exact nominalType (by decide)
  · exact absurd rfl hc.1
  · exact extension
  · exact function
  · exact boundGenericType
  · exact marker (by decide) (by decide)
  · exact localName
  · exact metadata
  · exact aroundPopped (by decide) (by decide)
  · exact nominalType (by decide)
  · exact nominalType (by decide)
  · exact standardReference
  · exact nominalType (by decide)
  · exact witness
  · exact specialType
  · exact staticDecl
  · exact nominalType (by decide)
  · exact (popFunctionType (by decide)).mono fun _ h => h.1
  · exact marker (by decide) (by decide)
  · exact functionEntity
  · exact passing (by decide)
  · exact subscriptEntity
  · exact popType.bind fun t ht => metatype (by decide) none nofun ⟨ht.1.grammatical, ht.2⟩
  · exact passing (by decide)
  · exact operatorName
  · refine popProtocolList.bind fun p hp => node.mono fun t ht => ?_
    obtain ⟨rfl, -⟩ := ht
    exact .of_type (.mk (.type (by rw [hp.2]; decide)) (List.forall_mem_singleton.mpr hp.1)) rfl
  · exact numberedParameter
  · exact letteredModule (by decide)
  · exact popTuple
  · exact variableEntity
  · exact valueWitness
  · exact genericParameter 0 0
  · exact marker (by decide) (by decide)
  · exact passing (by decide)
  · exact marker (by decide) (by decide)
  · exact absurd rfl hc.2
  · exact fail rfl

/-- Every operator makes a node that the grammar allows. -/
theorem operator (c : CodePoint) : Preserves cfg (Reading.operator cfg c) fun n => n.Made cfg := by
  by_cases hmangling : c = 'D'
  · subst hmangling
    exact typeMangling
  · by_cases hsuffix : c = '.'
    · subst hsuffix
      exact suffix
    · exact (soundOperator ⟨hmangling, hsuffix⟩).mono fun _ h => h.made

/-- Every operator but the suffix keeps the machine sound. -/
theorem pushOperator {c : CodePoint} (hc : c ≠ '.') :
    Preserves cfg (Reading.operator cfg c >>= Reading.push) fun _ => True := by
  by_cases hmangling : c = 'D'
  · subst hmangling
    exact pushTypeMangling
  · exact (soundOperator ⟨hmangling, hc⟩).bind fun n hn => push hn

end Preserves

end SwiftABI
