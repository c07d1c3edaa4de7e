/-
  What each operator makes of its operands.

  For every operator that makes a node from nodes on the stack, a rule says that its letters turn
  the operands, as they lie on the stack when they have been written, into the node. Operators that
  read references or names are not among them.
-/
import SwiftABI.Proofs.Symbol.Stacked
import SwiftABI.Proofs.Symbol.Turns
import SwiftABI.Symbol.Mangle

namespace SwiftABI

namespace Operates

variable {cfg : Config} {s : List Node} {k : Kind} {n t : Node}

/-! ### Nodes without operands -/

theorem marker {letters : String} (hk : k ∈ Kind.markers) (h : Code.suffix? k = some letters) :
    Operates cfg letters.text s ((Node.mk k .none []).stacked ++ s) := by
  simp only [Kind.markers, List.mem_cons, List.not_mem_nil, or_false] at hk
  rcases hk with rfl | rfl | rfl | rfl | rfl <;> cases h
  · exact of_reads (by decide) fun _ _ => Reads.node ⟨rfl, rfl, rfl⟩ _
  · exact of_reads (by decide) fun _ _ => Reads.node ⟨rfl, rfl, rfl⟩ _
  · exact of_reads (by decide) fun _ _ => Reads.node ⟨rfl, rfl, rfl⟩ _
  · exact of_reads (by decide) fun _ _ => Reads.node ⟨rfl, rfl, rfl⟩ _
  · have hfits : (Node.mk .errorType .none []).Fits := ⟨rfl, rfl, rfl⟩
    exact of_reads (by decide) fun _ _ => (Reads.next 'e' _).last (Reads.type hfits (by decide) _)

private theorem reads_module {table : SubstitutionTable} {words : List Text} (t : Text) :
    Reads (Reading.build .moduleName (.text t) []) [] ⟨s, table, words⟩ (.moduleName t)
      ⟨s, table, words⟩ :=
  Reads.build (k := .moduleName) (p := .text t) ⟨rfl, rfl, rfl⟩ _

theorem standardModule : Operates cfg ['s'] s (Node.moduleName Standard.moduleText :: s) :=
  of_reads (by decide) fun _ _ => reads_module _

theorem objcModule : Operates cfg ['S', 'o'] s (Node.moduleName Code.objcModule :: s) :=
  of_reads (by decide) fun _ _ => Reads.peek ((Reads.advance ['o'] _).last (reads_module _))

theorem importerModule : Operates cfg ['S', 'C'] s (Node.moduleName Code.importerModule :: s) :=
  of_reads (by decide) fun _ _ => Reads.peek ((Reads.advance ['C'] _).last (reads_module _))

/-! ### Generic parameters -/

private theorem reads_parameter {table : SubstitutionTable} {words : List Text}
    (depth index : Nat) :
    Reads (Reading.genericParameter depth index) [] ⟨s, table, words⟩
      (.typeOf (.mk .dependentGenericParamType .none
        [.mk .index (.index depth) [], .mk .index (.index index) []])) ⟨s, table, words⟩ := by
  have hindex : ∀ i : Nat, (Node.mk .index (.index i) []).Fits := fun _ => ⟨rfl, rfl, rfl⟩
  refine (Reads.build (hindex depth) _).step ((Reads.build (hindex index) _).step ?_)
  have hrule : (Node.mk .dependentGenericParamType .none
      [.mk .index (.index depth) [], .mk .index (.index index) []]).Rule {} :=
    .genericParameter depth index
  exact Reads.type hrule.fits (by decide) _

/-- A generic parameter is read by its depth and its index. -/
theorem genericParameter (depth index : Nat) {w : Text}
    (hw : w = if depth = 0 ∧ index = 0 then (['x'] : Text)
      else if depth ≠ 0 then "qd" ++ Code.index (depth - 1 : Nat) ++ Code.index index
      else ('q' : CodePoint) :: Code.index (index - 1 : Nat)) :
    Operates cfg w s (.typeOf (.mk .dependentGenericParamType .none
      [.mk .index (.index depth) [], .mk .index (.index index) []]) :: s) := by
  subst hw
  -- The first parameter has a letter of its own, and the outermost ones leave out their depth.
  split
  · rename_i h
    obtain ⟨rfl, rfl⟩ := h
    exact of_reads (by decide) fun _ _ => reads_parameter 0 0
  · split
    · rename_i h hdepth
      obtain ⟨depth, rfl⟩ : ∃ m, depth = m + 1 := ⟨depth - 1, by omega⟩
      refine of_reads (by decide) fun table words => ?_
      show Reads Reading.numberedParameter
        (('d' : CodePoint) :: (Code.index depth ++ Code.index index)) _ _ _
      refine (Reads.nextIf 'd' _).bind ?_
      refine (Reads.index depth _).bind ?_
      exact (Reads.index index _).last (reads_parameter (depth + 1) index)
    · rename_i h hdepth
      obtain rfl : depth = 0 := by omega
      obtain ⟨index, rfl⟩ : ∃ m, index = m + 1 := ⟨index - 1, by omega⟩
      refine of_reads (by decide) fun table words => ?_
      have hread : Reads (do Reading.genericParameter 0 ((← Reading.index) + 1)) (Code.index index)
          ⟨s, table, words⟩ _ _ := (Reads.index index _).last (reads_parameter 0 (index + 1))
      obtain ⟨ch, w, hw, hch⟩ := Code.index_eq_cons index
      show Reads Reading.numberedParameter (Code.index index) _ _ _
      rw [hw] at hread ⊢
      refine Reads.nextIf_ne (Code.ne_of_begins_index hch (by decide)) ?_
      exact Reads.nextIf_ne (Code.ne_of_begins_index hch (by decide)) hread

/-! ### Nominal types -/

private theorem reads_nominalType {table : SubstitutionTable} {words : List Text}
    {context name : Node}
    (hk : k ∈ Kind.nominals) (hcontext : context.Rule cfg) (hc : context.kind.isContext = true)
    (hname : name.kind.isDeclName = true) :
    Reads (Reading.nominalType k) [] ⟨name :: (context.stacked ++ s), table, words⟩
      (.typeOf (.mk k .none [context, name]))
      ⟨s, table.insert (.typeOf (.mk k .none [context, name]))
        (.tree (.typeOf (.mk k .none [context, name]))), words⟩ := by
  have hrule : (Node.mk k .none [context, name]).Rule cfg :=
    .nominal hk (Kind.mem_contextChildren hc) hname
  refine (Reads.popDeclName hname).step ((Reads.popContext hcontext hc).step ?_)
  refine (Reads.type hrule.fits (Kind.nominals_subset_types k hk) _).step ?_
  refine (Reads.register ?_).step (Reads.pure _ _)
  rfl

/-- A nominal type is made of its context and its name, and is registered. -/
theorem nominalType {suffix : Text} {context name : Node} (hk : k ∈ Kind.nominals)
    (hsuffix : Code.nominalSuffix? k = some suffix) (hcontext : context.Rule cfg)
    (hc : context.kind.isContext = true) (hname : name.kind.isDeclName = true) :
    Operates cfg suffix (name :: (context.stacked ++ s))
      (.typeOf (.mk k .none [context, name]) :: s) [.typeOf (.mk k .none [context, name])] := by
  simp only [Kind.nominals, List.mem_cons, List.not_mem_nil, or_false] at hk
  rcases hk with rfl | rfl | rfl | rfl | rfl | rfl <;> cases hsuffix
  · exact of_reads_register (by decide) fun _ _ => reads_nominalType (by decide) hcontext hc hname
  · exact of_reads_register (by decide) fun _ _ => reads_nominalType (by decide) hcontext hc hname
  · exact of_reads_register (by decide) fun _ _ => reads_nominalType (by decide) hcontext hc hname
  · exact of_reads_register (by decide) fun _ _ => reads_nominalType (by decide) hcontext hc hname
  · exact of_reads_register (by decide) fun _ _ => reads_nominalType (by decide) hcontext hc hname
  · exact of_reads_register (by decide) fun _ _ =>
      (Reads.next 'Y' _).last (reads_nominalType (by decide) hcontext hc hname)

/-! ### Functions and tuples -/

theorem functionType {throws : Option Node} {r : Node} (hk : k ∈ Kind.functionTypes)
    (hthrows : ∀ n ∈ throws, n.kind = .throwsMarker) (ht : t.Grammatical cfg) (htk : t.kind = .type)
    (hr : r.Grammatical cfg) (hrk : r.kind = .type) :
    Operates cfg (Code.functionTypeSuffix k)
      (throws.toList ++ (t.asParameters ++ (r.asParameters ++ s)))
      (.typeOf (.mk k .none (throws.toList
        ++ [.mk .argumentTuple (.index (argumentCount t)) [t], .mk .returnType .none [r]])) ::
        s) := by
  have hread : ∀ k ∈ Kind.functionTypes, ∀ table words, Reads (Reading.popFunctionType k) []
      ⟨throws.toList ++ (t.asParameters ++ (r.asParameters ++ s)), table, words⟩ _ _ :=
    fun k hk table words => Reads.popFunctionType hk hthrows ht htk hr hrk
  simp only [Kind.functionTypes, List.mem_cons, List.not_mem_nil, or_false] at hk
  rcases hk with rfl | rfl | rfl | rfl | rfl | rfl | rfl
  · exact of_reads (by decide) (hread .functionType (by decide))
  · exact of_reads (by decide) fun table words =>
      (Reads.next 'E' _).last (hread .noEscapeFunctionType (by decide) table words)
  · exact of_reads (by decide) fun table words =>
      (Reads.next 'A' _).last (hread .escapingAutoClosureType (by decide) table words)
  · exact of_reads (by decide) fun table words =>
      (Reads.next 'K' _).last (hread .autoClosureType (by decide) table words)
  · exact of_reads (by decide) fun table words =>
      (Reads.next 'f' _).last (hread .thinFunctionType (by decide) table words)
  · exact of_reads (by decide) fun table words =>
      (Reads.next 'B' _).last (hread .objcBlock (by decide) table words)
  · exact of_reads (by decide) fun table words =>
      (Reads.next 'C' _).last (hread .cFunctionPointer (by decide) table words)

theorem tuple {es : List Node} (h : ∀ e ∈ es, e.Grammatical cfg)
    (hk : ∀ e ∈ es, e.kind = .tupleElement) :
    Operates cfg ['t'] (Reads.markedOn Node.stacked s es) (.typeOf (.mk .tuple .none es) :: s) := by
  have hrule : (Node.mk .tuple .none es).Rule cfg := .tuple hk
  refine of_reads (by decide) fun table words => ?_
  show Reads Reading.popTuple _ _ _ _
  refine (Reads.popList ?_ ?_).step (Reads.type hrule.fits (by decide) _)
  · exact fun e he s =>
      Reads.popTupleElement (h e he).root (fun c hc => ((h e he).children c hc).root) (hk e he)
  · exact fun e he =>
      Reads.tupleElement_top (h e he).root (fun c hc => ((h e he).children c hc).root) (hk e he)

/-! ### Types around a type -/

private theorem reads_node {table : SubstitutionTable} {words : List Text}
    (hfits : (Node.mk k .none [t]).Fits) (ht : t.kind = .type) :
    Reads (do Reading.node k [← Reading.popType]) [] ⟨t :: s, table, words⟩ (.mk k .none [t])
      ⟨s, table, words⟩ := (Reads.popType ht).step (Reads.node hfits _)

private theorem reads_type {table : SubstitutionTable} {words : List Text}
    (hfits : (Node.mk k .none [t]).Fits) (hk : k ∈ Kind.types) (ht : t.kind = .type) :
    Reads (do Reading.type k [← Reading.popType]) [] ⟨t :: s, table, words⟩
      (.typeOf (.mk k .none [t])) ⟨s, table, words⟩ :=
      (Reads.popType ht).step (Reads.type hfits hk _)

/-- A type is made into another one, or something is said about it. -/
theorem aroundType {letters : String} (hk : k ∈ Kind.aroundType) (h : Code.suffix? k = some letters)
    (ht : t.kind = .type) :
    Operates cfg letters.text (t :: s) ((Node.mk k .none [t]).stacked ++ s) := by
  have hfits : (Node.mk k .none [t]).Fits :=
    (Node.Rule.aroundType hk ht : (Node.mk k .none [t]).Rule cfg).fits
  simp only [Kind.aroundType, List.mem_cons, List.not_mem_nil, or_false] at hk
  rcases hk
    with rfl | rfl | rfl | rfl | rfl | rfl | rfl | rfl | rfl | rfl | rfl | rfl | rfl | rfl <;>
    cases h
  · exact of_reads (by decide) fun _ _ => (Reads.next 'w' _).last (reads_type hfits (by decide) ht)
  · exact of_reads (by decide) fun _ _ => (Reads.next 'o' _).last (reads_type hfits (by decide) ht)
  · exact of_reads (by decide) fun _ _ => (Reads.next 'u' _).last (reads_type hfits (by decide) ht)
  · exact of_reads (by decide) fun _ _ => (Reads.next 'D' _).last (reads_type hfits (by decide) ht)
  · exact of_reads (by decide) fun _ _ =>
      (Reads.next 'S' _).bind ((Reads.next 'q' _).last (reads_type hfits (by decide) ht))
  · exact of_reads (by decide) fun _ _ =>
      (Reads.next 'S' _).bind ((Reads.next 'a' _).last (reads_type hfits (by decide) ht))
  · exact of_reads (by decide) fun _ _ =>
      (Reads.next 'S' _).bind ((Reads.next 'p' _).last (reads_type hfits (by decide) ht))
  · exact of_reads (by decide) fun _ _ => reads_node hfits ht
  · exact of_reads (by decide) fun _ _ => (Reads.next 'a' _).last (reads_node hfits ht)
  · exact of_reads (by decide) fun _ _ => (Reads.next 'f' _).last (reads_node hfits ht)
  · exact of_reads (by decide) fun _ _ => (Reads.next 'n' _).last (reads_node hfits ht)
  · exact of_reads (by decide) fun _ _ => (Reads.next 'm' _).last (reads_node hfits ht)
  · exact of_reads (by decide) fun _ _ => (Reads.next 'V' _).last (reads_node hfits ht)

/-- A type is passed in a special way. -/
theorem passing {letters : String} (hk : k ∈ [Kind.inOut, .shared, .owned])
    (h : Code.suffix? k = some letters) (ht : t.kind ∈ Kind.types) :
    Operates cfg letters.text (t.typeOf :: s) ((Node.mk k .none [t]).stacked ++ s) := by
  have hfits : (Node.mk k .none [t]).Fits :=
    (Node.Rule.passing hk ht : (Node.mk k .none [t]).Rule cfg).fits
  have hread : ∀ table words, k ∈ Kind.types →
      Reads (do Reading.type k [← Reading.popTypeInside]) [] ⟨t.typeOf :: s, table, words⟩
        (.typeOf (.mk k .none [t])) ⟨s, table, words⟩ := fun table words hk =>
    (Reads.popTypeInside (n := t.typeOf) rfl).step (Reads.type hfits hk _)
  simp only [List.mem_cons, List.not_mem_nil, or_false] at hk
  rcases hk with rfl | rfl | rfl <;> cases h
  · exact of_reads (by decide) fun table words => hread table words (by decide)
  · exact of_reads (by decide) fun table words => hread table words (by decide)
  · exact of_reads (by decide) fun table words => hread table words (by decide)

theorem sugaredDictionary {key value : Node} (hkey : key.kind = .type)
    (hvalue : value.kind = .type) :
    Operates cfg "XSD".text (value :: key :: s)
      (.typeOf (.mk .sugaredDictionary .none [key, value]) :: s) := by
  have hrule : (Node.mk .sugaredDictionary .none [key, value]).Rule cfg :=
    .sugaredDictionary hkey hvalue
  refine of_reads (by decide) fun _ _ => (Reads.next 'S' _).bind ((Reads.next 'D' _).last ?_)
  exact (Reads.popType hvalue).step
    ((Reads.popType hkey).step (Reads.type hrule.fits (by decide) _))

/-- A metatype without representation. -/
theorem bareMetatype (ht : t.kind = .type) :
    Operates cfg ['m'] (t :: s) (.typeOf (.mk .metatype .none [t]) :: s) := by
  have hrule : (Node.mk .metatype .none ((none : Option Node).toList ++ [t])).Rule cfg :=
    .metatype (by decide) nofun ht
  exact of_reads (by decide) fun _ _ => reads_type hrule.fits (by decide) ht

theorem bareExistentialMetatype (ht : t.kind = .type) :
    Operates cfg ['X', 'p'] (t :: s) (.typeOf (.mk .existentialMetatype .none [t]) :: s) := by
  have hrule : (Node.mk .existentialMetatype .none ((none : Option Node).toList ++ [t])).Rule cfg :=
    .metatype (by decide) nofun ht
  exact of_reads (by decide) fun _ _ =>
    (Reads.next 'p' _).last (reads_type hrule.fits (by decide) ht)

private theorem reads_representation {c : Store} {name : Text} {letter : CodePoint}
    (hname : Code.encode? Code.metatypeRepresentations name = some letter) :
    Reads Reading.metatypeRepresentation [letter] c
      (.mk .metatypeRepresentation (.text name) []) c := by
  have hcode : Code.decode? Code.metatypeRepresentations letter = some name :=
    Code.decode?_of_encode? (by decide) hname
  refine (Reads.next letter c).last ?_
  rw [hcode]
  exact (Reads.require_some name _).step (Reads.build ⟨rfl, rfl, rfl⟩ _)

/-- A metatype with its representation. -/
theorem representedMetatype {sign letter : CodePoint} {name : Text}
    (hk : (k, sign) ∈ [(Kind.metatype, CodePoint.char 'M'), (.existentialMetatype, .char 'm')])
    (hname : Code.encode? Code.metatypeRepresentations name = some letter) (ht : t.kind = .type) :
    Operates cfg ['X', sign, letter] (t :: s)
      (.typeOf (.mk k .none [.mk .metatypeRepresentation (.text name) [], t]) :: s) := by
  have hfits : ∀ k ∈ [Kind.metatype, .existentialMetatype],
      (Node.mk k .none [.mk .metatypeRepresentation (.text name) [], t]).Fits := by
    intro k hk
    have hrule : (Node.mk k .none ((some (.mk .metatypeRepresentation (.text name) [])).toList
        ++ [t])).Rule cfg := .metatype hk (by rintro n ⟨⟩; rfl) ht
    exact hrule.fits
  have hread : ∀ k ∈ [Kind.metatype, .existentialMetatype], ∀ table words,
      Reads (do
        let representation ← Reading.metatypeRepresentation
        Reading.type k [representation, ← Reading.popType]) [letter] ⟨t :: s, table, words⟩
        (.typeOf (.mk k .none [.mk .metatypeRepresentation (.text name) [], t]))
          ⟨s, table, words⟩ := by
    intro k hk table words
    have htype : k ∈ Kind.types := by
      revert k
      decide
    refine (reads_representation hname).last ((Reads.popType ht).step ?_)
    exact Reads.type (hfits k hk) htype _
  simp only [List.mem_cons, Prod.mk.injEq, List.not_mem_nil, or_false] at hk
  rcases hk with ⟨rfl, rfl⟩ | ⟨rfl, rfl⟩
  · exact of_reads (by decide) fun table words =>
      (Reads.next 'M' _).bind (hread .metatype (by decide) table words)
  · exact of_reads (by decide) fun table words =>
      (Reads.next 'm' _).bind (hread .existentialMetatype (by decide) table words)

/-! ### Protocols -/

theorem protocolList {ps : List Node} (h : ∀ p ∈ ps, Reads.PlainProtocol cfg p) :
    Operates cfg ['p'] (Reads.markedOn Reads.protocolStacked s ps)
      (.typeOf (.mk .protocolList .none [.mk .typeList .none ps]) :: s) :=
  of_reads (by decide) fun _ _ => (Reads.popProtocolList h).step (Reads.node ⟨rfl, rfl, rfl⟩ _)

theorem protocolListWithAnyObject {ps : List Node} (h : ∀ p ∈ ps, Reads.PlainProtocol cfg p) :
    Operates cfg ['X', 'l'] (Reads.markedOn Reads.protocolStacked s ps)
      (.typeOf (.mk .protocolListWithAnyObject .none
        [.mk .protocolList .none [.mk .typeList .none ps]]) :: s) :=
  of_reads (by decide) fun _ _ => (Reads.next 'l' _).last
    ((Reads.popProtocolList h).step (Reads.type ⟨rfl, rfl, rfl⟩ (by decide) _))

theorem protocolDescriptor (h : Reads.PlainProtocol cfg n) :
    Operates cfg ['M', 'p'] (Reads.protocolStacked n ++ s)
      (.mk .protocolDescriptor .none [n] :: s) := by
  have hfits : (Node.mk .protocolDescriptor .none [n]).Fits := by
    obtain ⟨context, name, rfl, _⟩ := h
    exact ⟨rfl, rfl, rfl⟩
  exact of_reads (by decide) fun _ _ => (Reads.next 'p' _).last
    ((Reads.popProtocol h).step (Reads.node hfits _))

end Operates

end SwiftABI
