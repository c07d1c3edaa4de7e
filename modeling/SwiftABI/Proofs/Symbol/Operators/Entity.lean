/-
  The operators for names, declarations and what symbols say about them.

  A declaration is read from its context, its name, its labels and its type, as far as it has them.
  What an operator leaves of the stack below is not looked at, but for a type that could have labels
  and has none: there the mark of an empty list must not lie below.
-/
import SwiftABI.Proofs.Symbol.Stacked
import SwiftABI.Proofs.Symbol.Turns
import SwiftABI.Symbol.Writing.Entity

namespace SwiftABI.Operates

variable {cfg : Config} {s : List Node} {k : Kind} {n t : Node} {context name : Node}
  {labels : Option Node}

/-! ### Names -/

private theorem reads_operatorText {c : Store} {op : Text}
    (h : ∀ ch ∈ op, Operator.IsOperatorChar ch) :
    Reads (Reading.operatorText (Operator.translate op)) [] c op c := by
  induction op with
  | nil => exact Reads.pure _ _
  | cons ch op ih =>
    show Reads (Reading.require (Operator.char? (Operator.letter ch)) _ >>= _) _ _ _ _
    rw [h ch List.mem_cons_self]
    refine (Reads.require_some ch _).step ?_
    exact (ih fun ch hch => h ch (List.mem_cons_of_mem _ hch)).map fun op => ch :: op

/-- An operator name is made of the identifier that spells it. -/
theorem operatorName {fixity : CodePoint} {op : Text} (hk : (fixity, k) ∈ Code.fixities)
    (h : ∀ ch ∈ op, Operator.IsOperatorChar ch) :
    Operates cfg ['o', fixity] (.identifier (Operator.translate op) :: s)
      (.mk k (.text op) [] :: s) := by
  have hfits : (Node.mk k (.text op) []).Fits := by
    simp only [Code.fixities, List.mem_cons, Prod.mk.injEq, List.not_mem_nil, or_false] at hk
    rcases hk with ⟨-, rfl⟩ | ⟨-, rfl⟩ | ⟨-, rfl⟩ <;> exact ⟨rfl, rfl, rfl⟩
  refine of_reads (by decide) fun table words => ?_
  show Reads Reading.operatorName _ _ _ _
  refine (Reads.pop? (n := .identifier _) rfl).step ((Reads.require_some _ _).step ?_)
  refine (reads_operatorText h).step ((Reads.next fixity _).last ?_)
  rw [Code.decode?_of_mem (by decide) hk]
  exact (Reads.require_some k _).step (Reads.build hfits _)

/-- A private name, or only its discriminator. -/
theorem privateDeclName {discriminator : Text} (hname : name.kind.isDeclName = true) :
    Operates cfg ['L', 'L'] (.identifier discriminator :: name :: s)
      (.mk .privateDeclName .none [.identifier discriminator, name] :: s) := by
  have hrule :
    (Node.mk .privateDeclName .none (.identifier discriminator :: (some name).toList)).Rule
      cfg := .privateDeclName rfl (by rintro n ⟨⟩; exact hname)
  refine of_reads (by decide) fun _ _ => (Reads.nextIf 'L' _).last ?_
  refine (Reads.pop? (n := .identifier _) rfl).step ((Reads.require_some _ _).step ?_)
  exact (Reads.popDeclName hname).step (Reads.node hrule.fits _)

theorem privateDiscriminator {discriminator : Text} :
    Operates cfg ['L', 'l'] (.identifier discriminator :: s)
      (.mk .privateDeclName .none [.identifier discriminator] :: s) := by
  refine of_reads (by decide) fun _ _ => Reads.nextIf_ne (by decide) ((Reads.nextIf 'l' _).last ?_)
  refine (Reads.pop? (n := .identifier _) rfl).step ((Reads.require_some _ _).step ?_)
  exact Reads.node ⟨rfl, rfl, rfl⟩ _

/-- A name that is related to another declaration, by a letter. -/
theorem relatedEntityDeclName {ch : CodePoint} (hch : IsRelationLetter ch)
    (hname : name.kind.isDeclName = true) :
    Operates cfg ['L', ch] (name :: s) (.mk .relatedEntityDeclName (.text [ch]) [name] :: s) := by
  have hrule : (Node.mk .relatedEntityDeclName (.text [ch]) [name]).Rule cfg :=
    .relatedEntityDeclName hch hname
  refine of_reads (by decide) fun _ _ => Reads.nextIf_ne ?_ (Reads.nextIf_ne ?_ (Reads.peek ?_))
  · rintro rfl
    exact absurd hch (by unfold IsRelationLetter; decide)
  · rintro rfl
    exact absurd hch (by unfold IsRelationLetter; decide)
  · unfold IsRelationLetter at hch
    show Reads (if _ then _ else _) _ _ _ _
    rw [if_pos hch]
    refine (Reads.advance [ch] _).last ((Reads.popDeclName hname).step ?_)
    exact Reads.build hrule.fits _

private theorem not_isRelationLetter {ch : CodePoint} (h : ch = '_' ∨ Text.isDigit ch = true) :
    ¬IsRelationLetter ch := by
  unfold IsRelationLetter
  rcases h with rfl | h
  · decide
  · rw [Text.isDigit_iff] at h
    simp [CodePoint.le_def]
    omega

/-- A local name, by its number. -/
theorem localDeclName (i : Nat) (hname : name.kind.isDeclName = true) :
    Operates cfg ('L' :: Code.index i) (name :: s)
      (.mk .localDeclName .none [.mk .number (.index i) [], name] :: s) := by
  have hrule : (Node.mk .localDeclName .none [.mk .number (.index i) [], name]).Rule cfg :=
    .localDeclName i hname
  have hnumber : (Node.mk .number (.index i) []).Fits := ⟨rfl, rfl, rfl⟩
  have hread : ∀ table words,
    Reads Reading.localName.numbered (Code.index i) ⟨name :: s, table, words⟩
      (.mk .localDeclName .none [.mk .number (.index i) [], name]) ⟨s, table, words⟩ := by
    intro table words
    refine (Reads.index i _).last ((Reads.build hnumber _).step ?_)
    exact (Reads.popDeclName hname).step (Reads.node hrule.fits _)
  refine of_reads (by decide) fun table words => ?_
  obtain ⟨ch, w, hw, hch⟩ := Code.index_eq_cons i
  have hread' := hread table words
  show Reads Reading.localName _ _ _ _
  rw [hw] at hread' ⊢
  -- None of the letters of the other local names can begin the index.
  refine Reads.nextIf_ne (Code.ne_of_begins_index hch (by decide)) ?_
  refine Reads.nextIf_ne (Code.ne_of_begins_index hch (by decide)) (Reads.peek ?_)
  have hletter := not_isRelationLetter hch
  unfold IsRelationLetter at hletter
  show Reads (if _ then _ else _) _ _ _ _
  rw [if_neg hletter]
  exact hread'

/-! ### Declarations -/

private theorem reads_entity {table : SubstitutionTable} {words : List Text}
    (hk : k ∈ [Kind.functionDecl, .variableDecl, .genericTypeParamDecl]) (hkf : k ≠ .functionDecl)
    (hcontext : context.Rule cfg) (hc : context.kind.isContext = true)
    (hname : name.kind.isDeclName = true) (ht : t.kind = .type) (hlabels : LabelsFit labels t)
    (hparam : k = .genericTypeParamDecl → context.PlainContext) :
    Reads (Reading.entity k) []
      ⟨t :: (Reads.labelsStacked labels ++ (name :: (context.stacked ++ s))), table, words⟩
      (.mk k .none ([context, name] ++ labels.toList ++ [t])) ⟨s, table, words⟩ := by
  have hrule : (Node.mk k .none ([context, name] ++ labels.toList ++ [t])).Rule cfg :=
    .declaration hk (Kind.mem_contextChildren hc) hname ht hlabels (fun h => absurd h hkf) hparam
  refine (Reads.popType ht).step ((Reads.popLabelList? hlabels ?_).step ?_)
  · rintro - n hn
    cases hn
    rintro hk
    rw [hk] at hname
    cases hname
  · refine (Reads.popDeclName hname).step ((Reads.popContext hcontext hc).step ?_)
    exact Reads.node hrule.fits _

/-- Behind a property or a subscript stands what part of it is meant. -/
private theorem reads_accessor {c : Store} {storage : Node} {suffix : Text}
    (hk : k ∈ Kind.accessors) (hsuffix : Code.accessorSuffix? k = some suffix)
    (hstorage : storage.kind = .variableDecl ∨ storage.kind = .subscriptDecl) :
    Reads (Reading.accessor storage) suffix c (.mk k .none [storage]) c := by
  have hrule : (Node.mk k .none [storage]).Rule {} := .accessor hk hstorage
  have hfits := hrule.fits
  simp only [Kind.accessors, List.mem_cons, List.not_mem_nil, or_false] at hk
  rcases hk with rfl | rfl | rfl | rfl | rfl | rfl | rfl | rfl | rfl | rfl | rfl | rfl | rfl | rfl
    | rfl | rfl <;> cases hsuffix
  -- Eight accessors have one letter, and the addressors have two.
  iterate 8 exact (Reads.next _ _).last (Reads.node hfits _)
  iterate 4
    refine (Reads.next 'l' _).bind ((Reads.next _ _).last ?_)
    exact (Reads.require_some _ _).step (Reads.node hfits _)
  iterate 4
    refine (Reads.next 'a' _).bind ((Reads.next _ _).last ?_)
    exact (Reads.require_some _ _).step (Reads.node hfits _)

/-- A property, or a part of one. -/
theorem property (hcontext : context.Rule cfg) (hc : context.kind.isContext = true)
    (hname : name.kind.isDeclName = true) (ht : t.kind = .type) (hlabels : LabelsFit labels t) :
    Operates cfg "vp".text
      (t :: (Reads.labelsStacked labels ++ (name :: (context.stacked ++ s))))
      (.mk .variableDecl .none ([context, name] ++ labels.toList ++ [t]) :: s) :=
  of_reads (by decide) fun _ _ =>
    (reads_entity (k := .variableDecl) (by decide)
      (by decide) hcontext hc hname ht hlabels nofun).step
      ((Reads.next 'p' _).last (Reads.pure _ _))

theorem propertyAccessor {suffix : Text} (hk : k ∈ Kind.accessors)
    (hsuffix : Code.accessorSuffix? k = some suffix) (hcontext : context.Rule cfg)
    (hc : context.kind.isContext = true) (hname : name.kind.isDeclName = true) (ht : t.kind = .type)
    (hlabels : LabelsFit labels t) :
    Operates cfg ('v' :: suffix)
      (t :: (Reads.labelsStacked labels ++ (name :: (context.stacked ++ s))))
      (.mk k .none [.mk .variableDecl .none ([context, name] ++ labels.toList ++ [t])] :: s) :=
  of_reads (by decide) fun _ _ =>
    (reads_entity (k := .variableDecl) (by decide)
      (by decide) hcontext hc hname ht hlabels nofun).step (reads_accessor hk hsuffix (.inl rfl))

theorem genericTypeParamDecl (hcontext : context.Rule cfg) (hc : context.PlainContext)
    (hname : name.kind.isDeclName = true) (ht : t.kind = .type) (hlabels : LabelsFit labels t) :
    Operates cfg "fp".text
      (t :: (Reads.labelsStacked labels ++ (name :: (context.stacked ++ s))))
      (.mk .genericTypeParamDecl .none ([context, name] ++ labels.toList ++ [t]) :: s) :=
  of_reads (by decide) fun _ _ => (Reads.next 'p' _).last
    (reads_entity (by decide) (by decide) hcontext hc.kind hname ht hlabels fun _ => hc)

/-- A function, whose type lies on the stack in parts. -/
theorem function {throws : Option Node} {p r : Node} (hcontext : context.Rule cfg)
    (hc : context.kind.isContext = true) (hname : name.kind.isDeclName = true)
    (hthrows : ∀ n ∈ throws, n.kind = .throwsMarker) (hp : p.Grammatical cfg) (hpk : p.kind = .type)
    (hr : r.Grammatical cfg) (hrk : r.kind = .type)
    (hlabels : LabelsFit labels (.typeOf (.mk .functionType .none (throws.toList
      ++ [.mk .argumentTuple (.index (argumentCount p)) [p], .mk .returnType .none [r]])))) :
    Operates cfg ['F']
      (throws.toList ++ (p.asParameters ++ (r.asParameters
        ++ (Reads.labelsStacked labels ++ (name :: (context.stacked ++ s))))))
      (.mk .functionDecl .none
        ([context, name] ++ labels.toList ++ [.typeOf (.mk .functionType .none
        (throws.toList ++ [.mk .argumentTuple (.index (argumentCount p)) [p],
          .mk .returnType .none [r]]))]) :: s) := by
  have hrule : (Node.mk .functionDecl .none ([context, name] ++ labels.toList
      ++ [.typeOf (.mk .functionType .none (throws.toList
        ++ [.mk .argumentTuple (.index (argumentCount p)) [p], .mk .returnType .none [r]]))])).Rule
        cfg :=
    .declaration (by decide) (Kind.mem_contextChildren hc) hname rfl hlabels (fun _ => rfl) nofun
  refine of_reads (by decide) fun table words => ?_
  refine (Reads.popFunctionType (by decide) hthrows hp hpk hr hrk).step ?_
  -- Without labels it is the name that lies below the type, which is not taken for an empty list.
  refine (Reads.popLabelList? hlabels ?_).step ?_
  · rintro - n hn
    cases hn
    rintro hk
    rw [hk] at hname
    cases hname
  · refine (Reads.popDeclName hname).step ((Reads.popContext hcontext hc).step ?_)
    exact Reads.node hrule.fits _

/-! ### Declarations without a name of their own -/

variable {privateName : Option Node}

/-- The top of a context is no mark. -/
private theorem stacked_head (hcontext : context.Rule cfg) (hc : context.kind.isContext = true) :
    ∀ n, (context.stacked ++ s).head? = some n → n.kind ≠ .emptyList := by
  intro n hn
  rcases Kind.isContext_cases hc with hk | hk | hk
  · obtain ⟨t, -, rfl⟩ := hcontext.eq_moduleName hk
    by_cases ht : t ∈ lettered
    · have hstacked : (Node.moduleName t).stacked = [.moduleName t] := if_pos ht
      rw [hstacked] at hn
      cases hn
      nofun
    · have hstacked : (Node.moduleName t).stacked = [.identifier t] := if_neg ht
      rw [hstacked] at hn
      cases hn
      nofun
  · rw [Node.stacked_of_types (Kind.nominals_subset_types _ hk)] at hn
    cases hn
    nofun
  · rw [Node.stacked_of_plain (Kind.scopes_subset_plain _ hk)] at hn
    cases hn
    exact (Kind.ne_of_mem_scopes _ hk).2.2.2

private theorem reads_unnamed {table : SubstitutionTable} {words : List Text}
    (hprivate : ∀ n ∈ privateName, n.kind = .privateDeclName) (hcontext : context.Rule cfg)
    (hc : context.kind.isContext = true) (ht : t.kind = .type) (hlabels : LabelsFit labels t) :
    Reads (do
        let privateName := (← Reading.pop? .privateDeclName).toList
        let t ← Reading.popType
        let labels ← Reading.popLabelList? t
        return labels.toList ++ [t] ++ privateName) []
      ⟨privateName.toList ++ (t :: (Reads.labelsStacked labels ++ (context.stacked ++ s))),
        table, words⟩
      (labels.toList ++ [t] ++ privateName.toList) ⟨context.stacked ++ s, table, words⟩ := by
  refine (Reads.pop?_optional hprivate ?_).step ?_
  · rintro n hn
    cases hn
    rw [ht]
    decide
  · refine (Reads.popType ht).step ((Reads.popLabelList? hlabels ?_).step (Reads.pure _ _))
    exact fun _ => stacked_head hcontext hc

theorem initializer {letters : String} (hk : k = .allocator ∨ k = .constructorDecl)
    (hletters : Code.suffix? k = some letters)
    (hprivate : ∀ n ∈ privateName, n.kind = .privateDeclName) (hcontext : context.Rule cfg)
    (hc : context.kind.isContext = true) (ht : t.kind = .type) (hlabels : LabelsFit labels t) :
    Operates cfg letters.text
      (privateName.toList ++ (t :: (Reads.labelsStacked labels ++ (context.stacked ++ s))))
      (.mk k .none (context :: (labels.toList ++ [t] ++ privateName.toList)) :: s) := by
  have hrule :
      (Node.mk k .none (context :: (labels.toList ++ [t] ++ privateName.toList))).Rule cfg :=
    .unnamed (by rcases hk with rfl | rfl <;> decide)
      (Kind.mem_contextChildren hc) ht hlabels hprivate (by rcases hk with rfl | rfl <;> nofun)
  rcases hk with rfl | rfl <;> cases hletters
  · refine of_reads (by decide) fun _ _ =>
      (Reads.next 'C' _).last ((Reads.require_some _ _).step ?_)
    refine (reads_unnamed hprivate hcontext hc ht hlabels).step ?_
    exact (Reads.popContext hcontext hc).step (Reads.node hrule.fits _)
  · refine of_reads (by decide) fun _ _ =>
      (Reads.next 'c' _).last ((Reads.require_some _ _).step ?_)
    refine (reads_unnamed hprivate hcontext hc ht hlabels).step ?_
    exact (Reads.popContext hcontext hc).step (Reads.node hrule.fits _)

private theorem reads_subscript {table : SubstitutionTable} {words : List Text} {w : Text}
    {ls result : Node} (hprivate : ∀ n ∈ privateName, n.kind = .privateDeclName)
    (hcontext : context.Rule cfg) (hc : context.kind.isContext = true) (ht : t.kind = .type)
    (hlabels : LabelsFit (some ls) t)
    (haccessor : ∀ c : Store,
      Reads
      (Reading.accessor (.mk .subscriptDecl .none (context :: ([ls] ++ [t] ++ privateName.toList))))
        w c result c) :
    Reads Reading.subscriptEntity w
      ⟨privateName.toList ++ (t :: (ls.stacked ++ (context.stacked ++ s))), table, words⟩ result
      ⟨s, table, words⟩ := by
  have hrule : (Node.mk .subscriptDecl .none (context :: ((some ls).toList ++ [t]
      ++ privateName.toList))).Rule cfg :=
    .unnamed (by decide) (Kind.mem_contextChildren hc) ht hlabels hprivate fun _ => rfl
  refine (Reads.pop?_optional hprivate ?_).step ?_
  · rintro n hn
    cases hn
    rw [ht]
    decide
  · refine (Reads.popType ht).step ((Reads.popLabelList? hlabels nofun).step ?_)
    refine (Reads.require_some ls _).step ((Reads.popContext hcontext hc).step ?_)
    exact (Reads.node hrule.fits _).step (haccessor _)

/-- A subscript, which always has labels. -/
theorem subscript {ls : Node} (hprivate : ∀ n ∈ privateName, n.kind = .privateDeclName)
    (hcontext : context.Rule cfg) (hc : context.kind.isContext = true) (ht : t.kind = .type)
    (hlabels : LabelsFit (some ls) t) :
    Operates cfg "ip".text
      (privateName.toList ++ (t :: (ls.stacked ++ (context.stacked ++ s))))
      (.mk .subscriptDecl .none (context :: ([ls] ++ [t] ++ privateName.toList)) :: s) :=
  of_reads (by decide) fun _ _ => reads_subscript hprivate hcontext hc ht hlabels fun c =>
    (Reads.next 'p' c).last (Reads.pure _ _)

theorem subscriptAccessor {ls : Node} {suffix : Text} (hk : k ∈ Kind.accessors)
    (hsuffix : Code.accessorSuffix? k = some suffix)
    (hprivate : ∀ n ∈ privateName, n.kind = .privateDeclName) (hcontext : context.Rule cfg)
    (hc : context.kind.isContext = true) (ht : t.kind = .type) (hlabels : LabelsFit (some ls) t) :
    Operates cfg ('i' :: suffix)
      (privateName.toList ++ (t :: (ls.stacked ++ (context.stacked ++ s))))
      (.mk k .none
        [.mk .subscriptDecl .none (context :: ([ls] ++ [t] ++ privateName.toList))] :: s) :=
  of_reads (by decide) fun _ _ => reads_subscript hprivate hcontext hc ht hlabels fun _ =>
    reads_accessor hk hsuffix (.inr rfl)

/-- A declaration that has a context only. -/
theorem bareScope {letters : String} (hk : k ∈ Kind.bareScopes)
    (hletters : Code.suffix? k = some letters)
    (hcontext : context.Rule cfg) (hc : context.kind.isContext = true) :
    Operates cfg letters.text (context.stacked ++ s) (.mk k .none [context] :: s) := by
  have hrule : (Node.mk k .none [context]).Rule cfg := .bareScope hk (Kind.mem_contextChildren hc)
  have hfits := hrule.fits
  simp only [Kind.bareScopes, List.mem_cons, List.not_mem_nil, or_false] at hk
  rcases hk with rfl | rfl | rfl | rfl | rfl <;> cases hletters
  all_goals
    refine of_reads (by decide) fun _ _ => (Reads.next _ _).last ((Reads.require_some _ _).step ?_)
    exact (Reads.pure _ _).step ((Reads.popContext hcontext hc).step (Reads.node hfits _))

private theorem fits_number (i : Nat) : (Node.mk .number (.index i) []).Fits := ⟨rfl, rfl, rfl⟩

/-- A closure ends with its number. -/
theorem closure {letter : CodePoint}
    (hk : (k, letter) ∈ [(Kind.explicitClosure, CodePoint.char 'U'), (.implicitClosure, .char 'u')])
    (i : Nat) (hcontext : context.Rule cfg) (hc : context.kind.isContext = true)
    (ht : t.kind = .type) :
    Operates cfg (([.char 'f', letter] : Text) ++ Code.index i) (t :: (context.stacked ++ s))
      (.mk k .none [context, .mk .number (.index i) [], t] :: s) := by
  have hrule : ∀ k ∈ [Kind.explicitClosure, .implicitClosure],
      (Node.mk k .none [context, .mk .number (.index i) [], t]).Rule cfg := fun k hk =>
    .closure hk (Kind.mem_contextChildren hc) i ht
  have hchildren (table : SubstitutionTable) (words : List Text) : Reads (do
        let number ← Reading.indexNode .number (← Reading.index)
        return [number, ← Reading.popType]) (Code.index i)
          ⟨t :: (context.stacked ++ s), table, words⟩
      [.mk .number (.index i) [], t] ⟨context.stacked ++ s, table, words⟩ :=
    (Reads.index i _).last
      ((Reads.build (fits_number i) _).step ((Reads.popType ht).step (Reads.pure _ _)))
  simp only [List.mem_cons, Prod.mk.injEq, List.not_mem_nil, or_false] at hk
  rcases hk with ⟨rfl, rfl⟩ | ⟨rfl, rfl⟩
  · refine of_reads (by decide) fun table words =>
      (Reads.next 'U' _).bind ((Reads.require_some _ _).step ?_)
    refine (hchildren table words).last ((Reads.popContext hcontext hc).step ?_)
    exact Reads.node (hrule .explicitClosure (by decide)).fits _
  · refine of_reads (by decide) fun table words =>
      (Reads.next 'u' _).bind ((Reads.require_some _ _).step ?_)
    refine (hchildren table words).last ((Reads.popContext hcontext hc).step ?_)
    exact Reads.node (hrule .implicitClosure (by decide)).fits _

/-- The default value of an argument ends with its number. -/
theorem defaultArgument (i : Nat) (hcontext : context.Rule cfg)
    (hc : context.kind.isContext = true) :
    Operates cfg ((['f', 'A'] : Text) ++ Code.index i) (context.stacked ++ s)
      (.mk .defaultArgumentInitializer .none [context, .mk .number (.index i) []] :: s) := by
  have hrule : (Node.mk .defaultArgumentInitializer .none [context, .mk .number (.index i) []]).Rule
      cfg := .defaultArgument (Kind.mem_contextChildren hc) i
  refine of_reads (by decide) fun table words => ?_
  have hchildren : Reads (Reading.unnamedChildren .defaultArgumentInitializer) (Code.index i)
      ⟨context.stacked ++ s, table, words⟩ [.mk .number (.index i) []]
      ⟨context.stacked ++ s, table, words⟩ :=
    (Reads.index i _).last ((Reads.build (fits_number i) _).step (Reads.pure _ _))
  refine (Reads.next 'A' _).bind ((Reads.require_some _ _).step ?_)
  refine hchildren.last ((Reads.popContext hcontext hc).step ?_)
  exact Reads.node hrule.fits _

/-- An extension of a nominal type that nothing is applied to. -/
theorem extension {m : Text} (hn : n.kind ∈ Kind.nominals) :
    Operates cfg ['E'] ((Node.moduleName m).stacked ++ (n.typeOf :: s))
      (.mk .extensionDecl .none [.moduleName m, n] :: s) := by
  have hrule : (Node.mk .extensionDecl .none [.moduleName m, n]).Rule cfg :=
    .extension rfl (List.mem_append_left _ hn)
  have hgeneric : ∀ k ∈ Kind.nominals, k.isAnyGeneric = true := by decide
  refine of_reads (by decide) fun _ _ => Reads.popModule?.step ((Reads.require_some _ _).step ?_)
  exact (Reads.popNominal (n := n.typeOf) rfl (hgeneric _ hn)).step (Reads.node hrule.fits _)

theorem staticDecl (hentity : n.kind.isEntity = true) :
    Operates cfg ['Z'] (n :: s) (.mk .staticDecl .none [n] :: s) := by
  have hfits : (Node.mk .staticDecl .none [n]).Fits :=
    ⟨rfl, rfl, Slot.firstMisplaced_last (List.mem_filter.mpr ⟨Kind.mem_all _, hentity⟩)⟩
  exact of_reads (by decide) fun _ _ => (Reads.popEntity hentity).step (Reads.node hfits _)

/-! ### Global symbols -/

/-- A type with the labels that go with it. Without labels, an empty list must not lie below. -/
theorem typeMangling (ht : t.kind = .type) (hlabels : LabelsFit labels t)
    (hs : labels = none → ∀ n, s.head? = some n → n.kind ≠ .emptyList) :
    Operates cfg ['D'] (t :: (Reads.labelsStacked labels ++ s))
      (.mk .typeMangling .none (labels.toList ++ [t]) :: s) := by
  have hrule : (Node.mk .typeMangling .none (labels.toList ++ [t])).Rule cfg :=
    .typeMangling ht hlabels
  exact of_reads (by decide) fun _ _ =>
    (Reads.popType ht).step ((Reads.popLabelList? hlabels hs).step (Reads.node hrule.fits _))

theorem enumCase (hentity : n.kind.isEntity = true) :
    Operates cfg "WC".text (n :: s) (.mk .enumCase .none [n] :: s) := by
  have hfits : (Node.mk .enumCase .none [n]).Fits :=
    ⟨rfl, rfl, Slot.firstMisplaced_last (List.mem_filter.mpr ⟨Kind.mem_all _, hentity⟩)⟩
  exact of_reads (by decide) fun _ _ =>
    (Reads.next 'C' _).last ((Reads.popEntity hentity).step (Reads.node hfits _))

theorem fieldOffset {i : Int} (hi : i = 0 ∨ i = 1) (hentity : n.kind.isEntity = true) :
    Operates cfg (if i = 0 then "Wvd" else "Wvi") (n :: s)
      (.mk .fieldOffset .none [.mk .directness (.index i) [], n] :: s) := by
  have hslots : Slot.firstMisplaced [.one [.directness], .one (Kind.all.filter Kind.isEntity)] 0
      [.directness, n.kind] = none :=
    Slot.firstMisplaced_pair (List.mem_singleton_self _)
      (List.mem_filter.mpr ⟨Kind.mem_all _, hentity⟩)
  have hfits : ∀ i, (Node.mk .fieldOffset .none [.mk .directness (.index i) [], n]).Fits := fun _ =>
    ⟨rfl, rfl, hslots⟩
  have hdirectness : ∀ i, (Node.mk .directness (.index i) []).Fits := fun _ => ⟨rfl, rfl, rfl⟩
  rcases hi with rfl | rfl
  · refine of_reads (by decide) fun _ _ => (Reads.next 'v' _).bind ((Reads.next 'd' _).last ?_)
    refine (Reads.check rfl _).step ((Reads.build (hdirectness 0) _).step ?_)
    exact (Reads.popEntity hentity).step (Reads.node (hfits 0) _)
  · refine of_reads (by decide) fun _ _ => (Reads.next 'v' _).bind ((Reads.next 'i' _).last ?_)
    refine (Reads.check rfl _).step ((Reads.build (hdirectness 1) _).step ?_)
    exact (Reads.popEntity hentity).step (Reads.node (hfits 1) _)

/-- A value witness of a type is read by its code. -/
theorem valueWitness {i : Nat} {code : Text} {name : String}
    (hcode : Code.valueWitness? i = some (code, name)) (ht : t.kind = .type) :
    Operates cfg ('w' :: code) (t :: s) (.mk .valueWitness (.index i) [t] :: s) := by
  have hget : Code.valueWitnesses[i]? = some (code, name) := by
    unfold Code.valueWitness? Position.pick at hcode
    rwa [if_pos (by omega), Int.toNat_natCast] at hcode
  have hall : ∀ j : Fin Code.valueWitnesses.length,
      Code.valueWitnessIndex? Code.valueWitnesses[j].1 = some j.val ∧
        Code.valueWitnesses[j].1.length = 2 := by decide
  obtain ⟨hi, hentry⟩ := List.getElem?_eq_some_iff.mp hget
  obtain ⟨hindex, hlength⟩ := hall ⟨i, hi⟩
  have hentry' : Code.valueWitnesses[(⟨i, hi⟩ : Fin Code.valueWitnesses.length)] = (code, name) :=
    hentry
  rw [hentry'] at hindex hlength
  obtain ⟨c, d, rfl⟩ : ∃ c d, code = [c, d] := by
    match code, hlength with
    | [c, d], _ => exact ⟨c, d, rfl⟩
  have hrule : (Node.mk .valueWitness (.index i) [t]).Rule cfg := .valueWitness hi ht
  refine of_reads (by decide) fun _ _ => (Reads.next c _).bind ((Reads.next d _).last ?_)
  show Reads (Reading.require (Code.valueWitnessIndex? [c, d]) _ >>= _) _ _ _ _
  rw [hindex]
  exact (Reads.require_some i _).step ((Reads.popType ht).step (Reads.build hrule.fits _))

end SwiftABI.Operates
