/-
  Writing types that are not nominal.

  Functions and tuples are written part by part, and the empty tuple as an empty list. A type that
  is put around another one is written behind it.
-/
import SwiftABI.Proofs.Symbol.Operators.Builtin
import SwiftABI.Proofs.Symbol.Written.Nominal

namespace SwiftABI

/-! ### The parts of a function type -/

/-- A function type in its parts: what its arguments are, what its result is, and whether it
throws. -/
structure FunctionParts (cfg : Config) (throws : Option Node) (t r : Node) : Prop where
  throws : ∀ n ∈ throws, n = .mk .throwsMarker .none []
  arguments : t.Grammatical cfg
  arguments_kind : t.kind = .type
  result : r.Grammatical cfg
  result_kind : r.kind = .type

/-- The children of a function type. -/
def functionChildren (throws : Option Node) (t r : Node) : List Node :=
  throws.toList ++ [.mk .argumentTuple (.index (argumentCount t)) [t], .mk .returnType .none [r]]

/-- The children of a function type are its parts. -/
theorem FunctionParts.of_children {cfg : Config} {throws : Option Node} {arguments result : Node}
    (hthrows : ∀ n ∈ throws, n.kind = .throwsMarker) (harguments : arguments.kind = .argumentTuple)
    (hresult : result.kind = .returnType)
    (hbelow : ∀ c ∈ throws.toList ++ [arguments, result], c.Grammatical cfg) :
    ∃ t r, FunctionParts cfg throws t r ∧
      throws.toList ++ [arguments, result] = functionChildren throws t r := by
  have ha := hbelow arguments (by simp)
  have hr := hbelow result (by simp)
  obtain ⟨t, ht, rfl⟩ := ha.root.eq_argumentTuple harguments
  obtain ⟨r, hr', rfl⟩ := hr.root.eq_returnType hresult
  have htg := ha.children t (List.mem_singleton_self t)
  have hrg := hr.children r (List.mem_singleton_self r)
  refine ⟨t, r, ⟨fun n hn => ?_, htg, ht, hrg, hr'⟩, rfl⟩
  have hn' : n ∈ throws.toList := by
    rw [Option.mem_def.mp hn]
    exact List.mem_singleton_self n
  exact (hbelow n (List.mem_append_left _ hn')).root.eq_throwsMarker (hthrows n hn)

namespace FunctionParts

/-- Every function type is made of its parts. -/
theorem of_kind {cfg : Config} {n : Node} (h : n.Grammatical cfg)
    (hk : n.kind ∈ Kind.functionTypes) :
    ∃ throws t r, FunctionParts cfg throws t r ∧
      n = .mk n.kind .none (functionChildren throws t r) := by
  obtain ⟨throws, arguments, result, hthrows, harguments, hresult, heq⟩ := h.root.eq_functionType hk
  have hbelow := h.children
  rw [heq] at hbelow
  obtain ⟨t, r, hparts, hchildren⟩ := of_children hthrows harguments hresult hbelow
  exact ⟨throws, t, r, hparts, by rwa [hchildren] at heq⟩

variable {cfg : Config} {throws : Option Node} {t r : Node}

theorem kind_of_mem (h : FunctionParts cfg throws t r) :
    ∀ c ∈ functionChildren throws t r,
      c.kind ∈ [Kind.throwsMarker, .argumentTuple, .returnType] := by
  intro c hc
  rcases List.mem_append.mp hc with hc | hc
  · rw [h.throws c (Option.mem_toList.mp hc)]
    exact List.mem_cons_self
  · simp only [List.mem_cons, List.not_mem_nil, or_false] at hc
    rcases hc with rfl | rfl <;> simp [Node.kind]

theorem throws_kind (h : FunctionParts cfg throws t r) : ∀ n ∈ throws, n.kind = .throwsMarker :=
  fun n hn => by rw [h.throws n hn]; rfl

/-- The parts are written from last to first. -/
theorem stackedOn (h : FunctionParts cfg throws t r) (s : List Node) :
    Node.stackedOn s (functionChildren throws t r).reverse
      = throws.toList ++ (t.asParameters ++ (r.asParameters ++ s)) := by
  rcases throws with _ | n
  · rfl
  · rw [h.throws n rfl]
    rfl

end FunctionParts

namespace Written

variable {strict : Prop} {cfg : Config} {pre : Text} {sub : Node → Writing Unit} {k : Kind}
  {t : Node}

/-- A type is written as what it wraps. -/
theorem type (ht : t.kind ∈ Kind.types) (hsub : Written strict cfg pre sub t) :
    Written strict cfg pre (Writing.ofNode cfg sub) (.mk .type .none [t]) := by
  intro s
  have hwritten := hsub s
  rw [Node.stacked_of_types ht] at hwritten
  exact hwritten

/-! ### Functions -/

/-- The result is written before the arguments. -/
theorem functionType {throws : Option Node} {r : Node} (hk : k ∈ Kind.functionTypes)
    (hparts : FunctionParts cfg throws t r)
    (hsub : ∀ c ∈ functionChildren throws t r, Written strict cfg pre sub c) :
    Written strict cfg pre (Writing.ofNode cfg sub)
      (.mk k .none (functionChildren throws t r)) := by
  have hne : Code.functionTypeSuffix k ≠ [] := by
    unfold Code.functionTypeSuffix
    split <;> exact List.cons_ne_nil _ _
  have hkind : ∀ k ∈ Kind.functionTypes, k ∈ Kind.types := by decide
  have hofNode : Writing.ofNode cfg sub (.mk k .none (functionChildren throws t r))
      = Writing.functionType sub (.mk k .none (functionChildren throws t r)) := by
    simp only [Kind.functionTypes, List.mem_cons, List.not_mem_nil, or_false] at hk
    rcases hk with rfl | rfl | rfl | rfl | rfl | rfl | rfl <;> rfl
  intro s
  rw [hofNode, Node.stacked_of_types (n := .mk k .none _) (hkind k hk)]
  refine Turns.bind (Turns.each fun c hc => hsub c (List.mem_reverse.mp hc)) fun _ => ?_
  show Turns strict cfg pre _ ⟨Node.stackedOn s (functionChildren throws t r).reverse, []⟩ _
  rw [hparts.stackedOn]
  exact .emit
    (.functionType hk hparts.throws_kind hparts.arguments hparts.arguments_kind hparts.result
    hparts.result_kind) hne

/-- The type of the arguments or the result of a function is written as it is, unless it is the
empty tuple. -/
theorem parameters {p : Payload} (hk : k = .argumentTuple ∨ k = .returnType)
    (ht : t.kind ∈ Kind.types) (hsub : Written strict cfg pre sub t) :
    Written strict cfg pre (Writing.ofNode cfg sub) (.mk k p [.typeOf t]) := by
  intro s
  have hofNode : Writing.ofNode cfg sub (.mk k p [.typeOf t])
      = if t.kind = .tuple ∧ t.children.isEmpty then Writing.emit ['y'] else sub t := by
    rcases hk with rfl | rfl <;> rfl
  have hstacked : (Node.mk k p [.typeOf t]).stacked
      = if t.kind = .tuple ∧ t.children.isEmpty then [Node.emptyMark] else [.typeOf t] := by
    rcases hk with rfl | rfl <;> rfl
  rw [hofNode, hstacked]
  split
  · have hempty : Operates cfg "y".text s (Node.emptyMark :: s) :=
      Operates.marker (k := .emptyList) (by decide) rfl
    exact .emit hempty (List.cons_ne_nil _ _)
  · have hwritten := hsub s
    rwa [Node.stacked_of_types ht] at hwritten

/-! ### Tuples -/

/-- A tuple is a list of its elements. -/
theorem tuple {es : List Node} (h : ∀ e ∈ es, e.Grammatical cfg)
    (hk : ∀ e ∈ es, e.kind = .tupleElement) (hsub : ∀ e ∈ es, Written strict cfg pre sub e) :
    Written strict cfg pre (Writing.ofNode cfg sub) (.mk .tuple .none es) := fun s =>
  Turns.bind (Turns.markedList (s := s) hsub) fun _ => .emit (.tuple h hk) (List.cons_ne_nil _ _)

/-- The parts of an element are written from last to first. -/
theorem tupleElement {variadic name : Option Node}
    (hvariadic : ∀ n ∈ variadic, n.kind = .variadicMarker)
    (hname : ∀ n ∈ name, n.kind = .tupleElementName) (ht : t.kind = .type)
    (hbelow : ∀ c ∈ variadic.toList ++ name.toList ++ [t], c.Rule cfg)
    (hsub : ∀ c ∈ variadic.toList ++ name.toList ++ [t], Written strict cfg pre sub c) :
    Written strict cfg pre (Writing.ofNode cfg sub)
      (.mk .tupleElement .none (variadic.toList ++ name.toList ++ [t])) := by
  have hstacked : ∀ c ∈ variadic.toList ++ name.toList ++ [t], c.stacked = [c.asElement] := by
    intro c hc
    have hrule := hbelow c hc
    rw [List.append_assoc, List.mem_append, List.mem_append, List.mem_singleton, Option.mem_toList,
      Option.mem_toList] at hc
    rcases hc with hc | hc | rfl
    · rw [Node.stacked_of_plain (by rw [hvariadic c hc]; decide)]
      rcases c with ⟨k, p, cs⟩
      have hk : k = .variadicMarker := hvariadic _ hc
      subst hk
      rfl
    · obtain ⟨text, -, heq⟩ := hrule.eq_name (by rw [hname c hc]; decide)
      rw [hname c hc] at heq
      rw [heq]
      rfl
    · obtain ⟨x, -, rfl⟩ := hrule.eq_type ht
      rfl
  intro s
  have hparts : ∀ c ∈ (variadic.toList ++ name.toList ++ [t]).reverse,
      Written strict cfg pre sub c :=
    fun c hc => hsub c (List.mem_reverse.mp hc)
  have hwritten := Turns.each (s := s) hparts
  rw [Node.stackedOn_reverse hstacked] at hwritten
  exact hwritten

/-! ### Around types -/

theorem marker {letters : String} (hk : k ∈ Kind.markers) (h : Code.suffix? k = some letters) :
    Written strict cfg pre (Writing.ofNode cfg sub) (.mk k .none []) :=
  of_suffix (n := .mk k .none []) h nofun fun _ => .marker hk h

/-- A type stands on the stack as it is. -/
private theorem stackedOn_type (ht : t.kind = .type) (s : List Node) :
    Node.stackedOn s [t] = t :: s := by
  rw [Node.stackedOn_cons, Node.stacked_of_plain (by rw [ht]; decide)]
  rfl

theorem aroundType {letters : String} (hk : k ∈ Kind.aroundType) (h : Code.suffix? k = some letters)
    (ht : t.kind = .type) (hsub : Written strict cfg pre sub t) :
    Written strict cfg pre (Writing.ofNode cfg sub) (.mk k .none [t]) := by
  refine of_suffix (n := .mk k .none [t]) h (fun c hc => ?_) fun s => ?_
  · rwa [List.mem_singleton.mp hc]
  · show Operates cfg _ (Node.stackedOn s [t]) _
    rw [stackedOn_type ht]
    exact .aroundType hk h ht

/-- How a parameter is passed stands behind its type. -/
theorem passing {letters : String} (hk : k ∈ [Kind.inOut, .shared, .owned])
    (h : Code.suffix? k = some letters) (ht : t.kind ∈ Kind.types)
    (hsub : Written strict cfg pre sub t) :
    Written strict cfg pre (Writing.ofNode cfg sub) (.mk k .none [t]) := by
  refine of_suffix (n := .mk k .none [t]) h (fun c hc => ?_) fun s => ?_
  · rwa [List.mem_singleton.mp hc]
  · show Operates cfg _ (t.stacked ++ s) _
    rw [Node.stacked_of_types ht]
    exact .passing hk h ht

theorem sugaredDictionary {key value : Node} (hkey : key.kind = .type) (hvalue : value.kind = .type)
    (hsub : ∀ c ∈ [key, value], Written strict cfg pre sub c) :
    Written strict cfg pre (Writing.ofNode cfg sub)
      (.mk .sugaredDictionary .none [key, value]) := by
  refine of_suffix (n := .mk .sugaredDictionary .none [key, value]) rfl hsub fun s => ?_
  show Operates cfg _ (Node.stackedOn s [key, value]) _
  rw [Node.stackedOn_plain (by simp only [List.forall_mem_cons, hkey, hvalue]; decide)]
  exact .sugaredDictionary hkey hvalue

/-! ### Metatypes -/

private theorem metatype_represented {represented bare name : Text} :
    Writing.metatype sub represented bare
    (.mk k .none [.mk .metatypeRepresentation (.text name) [], t]) = (do
      sub t
      match Code.encode? Code.metatypeRepresentations name with
      | some letter => Writing.emit (represented ++ [letter])
      | none => throw (.tree (.unknownText name))) := rfl

/-- A metatype is written behind its type, with a letter for its representation. -/
theorem metatype {representation : Option Node} (hk : k ∈ [Kind.metatype, .existentialMetatype])
    (hrepresentation : ∀ n ∈ representation,
      ∃ (c : CodePoint) (name : Text), (c, name) ∈ Code.metatypeRepresentations ∧
        n = .mk .metatypeRepresentation (.text name) [])
    (ht : t.kind = .type) (hsub : Written strict cfg pre sub t) :
    Written strict cfg pre (Writing.ofNode cfg sub)
      (.mk k .none (representation.toList ++ [t])) := by
  have htypes : ∀ k ∈ [Kind.metatype, .existentialMetatype], k ∈ Kind.types := by decide
  intro s
  rw [Node.stacked_of_types (n := .mk k .none _) (htypes k hk)]
  simp only [List.mem_cons, List.not_mem_nil, or_false] at hk
  have hwritten := hsub s
  rw [Node.stacked_of_plain (by rw [ht]; decide)] at hwritten
  -- Both kinds have other letters where no representation is given.
  rcases representation with _ | n
  · have hfirst : t.kind ≠ .metatypeRepresentation := by rw [ht]; decide
    rcases hk with rfl | rfl
    · show Turns strict cfg pre (if t.kind = .metatypeRepresentation then _ else do
        sub t
        Writing.emit ['m']) _ _
      rw [if_neg hfirst]
      exact hwritten.bind fun _ => .emit (.bareMetatype ht) (List.cons_ne_nil _ _)
    · show Turns strict cfg pre (if t.kind = .metatypeRepresentation then _ else do
        sub t
        Writing.emit ['X', 'p']) _ _
      rw [if_neg hfirst]
      exact hwritten.bind fun _ => .emit (.bareExistentialMetatype ht) (List.cons_ne_nil _ _)
  · obtain ⟨c, name, hname, rfl⟩ := hrepresentation n rfl
    have hcode : Code.encode? Code.metatypeRepresentations name = some c :=
      Code.encode?_of_mem (by decide) hname
    rcases hk with rfl | rfl
    · show Turns strict cfg pre (Writing.metatype sub ['X', 'M'] ['m'] _) _ _
      rw [Option.toList_some, List.singleton_append, metatype_represented, hcode]
      exact hwritten.bind fun _ =>
        .emit (.representedMetatype (by decide) hcode ht) (List.cons_ne_nil _ _)
    · show Turns strict cfg pre (Writing.metatype sub ['X', 'm'] ['X', 'p'] _) _ _
      rw [Option.toList_some, List.singleton_append, metatype_represented, hcode]
      exact hwritten.bind fun _ =>
        .emit (.representedMetatype (by decide) hcode ht) (List.cons_ne_nil _ _)

/-! ### Protocols -/

/-- A protocol in a list is written by its letter, or as its context and its name. -/
theorem pureProtocol {p : Node} (hlimit : -1 ≤ cfg.maxRepeatCount)
    (hsub : ∀ c ∈ p.unwrapped.children, Written strict cfg pre sub c)
    (hp : Reads.PlainProtocol cfg p) (s : List Node) :
    Turns strict cfg pre (Writing.pureProtocol cfg sub p) ⟨s, []⟩ fun _ =>
      ⟨Reads.protocolStacked p ++ s, []⟩ := by
  have htype : p = p.unwrapped.typeOf := by
    obtain ⟨context, name, rfl, -⟩ := hp
    rfl
  unfold Writing.pureProtocol Reads.protocolStacked Writing.tryStandard
  rcases hcode : Standard.code? p.unwrapped with _ | letter
  · have hwritten := Turns.each (s := s) hsub
    have hstacked : Node.stackedOn s p.unwrapped.children =
        Node.stackedOn [] p.unwrapped.children ++ s := by
      rw [Node.stackedOn_eq_flatMap, Node.stackedOn_eq_flatMap, List.append_nil]
    rw [hstacked] at hwritten
    exact hwritten
  · have hstandard : Turns strict cfg pre (Writing.substitute cfg letter .standard) ⟨s, []⟩ fun _ =>
      ⟨p :: s, []⟩ := by
      have hunwrapped : p.unwrapped.unwrapped = p.unwrapped := by
        obtain ⟨context, name, rfl, -⟩ := hp
        rfl
      have htype? := Standard.type?_of_code? hcode
      rw [hunwrapped, ← htype] at htype?
      exact Turns.substitute_standard hlimit htype?
    show Turns strict cfg pre (do
      Writing.substitute cfg letter .standard
      pure ()) _ _
    exact hstandard.bind fun _ => .pure rfl

/-- A composition of protocols is a list of them. -/
theorem protocolList {ps : List Node} (hlimit : -1 ≤ cfg.maxRepeatCount)
    (h : ∀ p ∈ ps, Reads.PlainProtocol cfg p)
    (hsub : ∀ p ∈ ps, ∀ c ∈ p.unwrapped.children, Written strict cfg pre sub c) :
    Written strict cfg pre (Writing.ofNode cfg sub)
      (.mk .protocolList .none [.mk .typeList .none ps]) := fun s =>
  Turns.bind (Turns.markedList (s := s) fun p hp s => pureProtocol hlimit (hsub p hp) (h p hp) s)
    fun _ =>
    .emit (.protocolList h) (List.cons_ne_nil _ _)

theorem protocolListWithAnyObject {ps : List Node} (hlimit : -1 ≤ cfg.maxRepeatCount)
    (h : ∀ p ∈ ps, Reads.PlainProtocol cfg p)
    (hsub : ∀ p ∈ ps, ∀ c ∈ p.unwrapped.children, Written strict cfg pre sub c) :
    Written strict cfg pre (Writing.ofNode cfg sub) (.mk .protocolListWithAnyObject .none
      [.mk .protocolList .none [.mk .typeList .none ps]]) := by
  intro s
  show Turns strict cfg pre (do
    Writing.markedList (Writing.pureProtocol cfg sub) ps
    Writing.emit ['X', 'l']) _ _
  exact (Turns.markedList fun p hp s => pureProtocol hlimit (hsub p hp) (h p hp) s).bind fun _ =>
    .emit (.protocolListWithAnyObject h) (List.cons_ne_nil _ _)

theorem protocolDescriptor {p : Node} (hlimit : -1 ≤ cfg.maxRepeatCount)
    (h : Reads.PlainProtocol cfg p)
    (hsub : ∀ c ∈ p.unwrapped.children, Written strict cfg pre sub c) :
    Written strict cfg pre (Writing.ofNode cfg sub) (.mk .protocolDescriptor .none [p]) := by
  intro s
  show Turns strict cfg pre (do
    Writing.pureProtocol cfg sub p
    Writing.emit ['M', 'p']) _ _
  exact (pureProtocol hlimit hsub h s).bind fun _ =>
    .emit (.protocolDescriptor h) (List.cons_ne_nil _ _)

/-! ### Builtin types and generic parameters -/

private theorem ofNode_builtinType {name : Text} :
    Writing.ofNode cfg sub (.mk .builtinTypeName (.text name) []) =
      match Writing.builtinLetters name with
      | .ok letters => Writing.emit ('B' :: letters)
      | .error r => Writing.refuse (.mk .builtinTypeName (.text name) []) r := rfl

theorem builtinType {name : Text} (h : BuiltinName cfg name)
    (hwritable : strict → ∃ letters, Writing.builtinLetters name = .ok letters) :
    Written strict cfg pre (Writing.ofNode cfg sub) (.mk .builtinTypeName (.text name) []) := by
  intro s
  rw [ofNode_builtinType]
  rcases hletters : Writing.builtinLetters name with r | letters
  · refine .refuse (fun hstrict => ?_) _ _
    obtain ⟨letters, hok⟩ := hwritable hstrict
    rw [hletters] at hok
    cases hok
  · exact .emit (.builtinType h hletters) (List.cons_ne_nil _ _)

theorem genericParameter (depth index : Nat) :
    Written strict cfg pre (Writing.ofNode cfg sub) (.mk .dependentGenericParamType .none
      [.mk .index (.index depth) [], .mk .index (.index index) []]) := by
  intro s
  show Turns strict cfg pre (if (depth : Int) = 0 ∧ (index : Int) = 0 then Writing.emit ['x']
    else if (depth : Int) ≠ 0 then Writing.emit
    ("qd".text ++ Code.index (depth - 1) ++ Code.index index)
    else Writing.emit ('q' :: Code.index (index - 1))) _ _
  split
  · rename_i h
    refine .emit (.genericParameter depth index ?_) (List.cons_ne_nil _ _)
    rw [if_pos (by omega)]
  · rename_i h
    split
    · rename_i hdepth
      refine .emit (.genericParameter depth index ?_) (List.cons_ne_nil _ _)
      rw [if_neg (by omega), if_pos (by omega), Int.ofNat_sub (by omega)]
      rfl
    · rename_i hdepth
      refine .emit (.genericParameter depth index ?_) (List.cons_ne_nil _ _)
      rw [if_neg (by omega), if_neg (by omega), Int.ofNat_sub (by omega)]
      rfl

end Written

end SwiftABI
