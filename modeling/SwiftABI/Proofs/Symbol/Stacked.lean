/-
  Nodes on the stack of the reader, and how they are popped.

  A node that has been written does not always lie on the stack as it is: a type lies there as a
  type, a module by its name, and the parts of a list one by one. `Node.stacked` says what lies
  there for a node, the topmost first. For each step that pops some parts of a node, a rule says
  that it finds exactly these parts and leaves what lies below them.
-/
import SwiftABI.Proofs.Symbol.Grammar
import SwiftABI.Proofs.Symbol.Reads

namespace SwiftABI

/-! ### What lies on the stack -/

namespace Node

/-- The mark of an empty list. -/
def emptyMark : Node := .mk .emptyList .none []

/-- The mark above the first element of a list. -/
def firstMark : Node := .mk .firstElementMarker .none []

/-- A part of a tuple element on the stack, where a name is an identifier. -/
def asElement : Node → Node
  | .mk .tupleElementName (.text t) _ => .identifier t
  | n => n

/-- The type of the arguments or the result of a function on the stack, where the empty tuple is an
empty list. -/
def asParameters (t : Node) : List Node :=
  if t.unwrapped.kind = .tuple ∧ t.unwrapped.children.isEmpty then [emptyMark] else [t]

/-- What writing a node leaves on the stack of the reader, the topmost first. -/
def stacked : Node → List Node
  | .mk .moduleName (.text t) cs =>
    if t ∈ lettered then [.mk .moduleName (.text t) cs] else [.identifier t]
  | .mk .tupleElementName (.text t) _ => [.identifier t]
  | .mk .tupleElement _ cs => cs.map asElement
  | .mk .labelList _ [] => [emptyMark]
  | .mk .labelList _ (l :: ls) => (l :: ls).reverse
  | .mk .argumentTuple _ (t :: _) => asParameters t
  | .mk .returnType _ (t :: _) => asParameters t
  | .mk k p cs => if k ∈ Kind.types then [typeOf (.mk k p cs)] else [.mk k p cs]

/-- What writing several nodes leaves on a stack. -/
def stackedOn (s : List Node) (ns : List Node) : List Node := ns.foldl (fun s n => n.stacked ++ s) s

@[simp]
theorem stackedOn_nil (s : List Node) : stackedOn s [] = s := rfl

@[simp]
theorem stackedOn_cons (s : List Node) (n : Node) (ns : List Node) :
    stackedOn s (n :: ns) = stackedOn (n.stacked ++ s) ns := rfl

/-- A type lies on the stack as a type. -/
theorem stacked_of_types {n : Node} (h : n.kind ∈ Kind.types) : n.stacked = [n.typeOf] := by
  cases n with
  | mk k p cs =>
    change k ∈ Kind.types at h
    cases k <;> first | rfl | exact absurd h (by decide)

end Node

namespace Kind

/-- The kinds of nodes that lie on the stack as they are. -/
def plain : List Kind := stackable.filter fun k => k ≠ .moduleName

end Kind

/-- A node of most kinds lies on the stack as it is. -/
theorem Node.stacked_of_plain {n : Node} (h : n.kind ∈ Kind.plain) : n.stacked = [n] := by
  cases n with
  | mk k p cs =>
    change k ∈ Kind.plain at h
    cases k <;> first | rfl | exact absurd h (by decide)

namespace Kind

/-- A context is a module, a nominal type or a declaration. -/
theorem isContext_cases {k : Kind} (h : k.isContext = true) :
    k = .moduleName ∨ k ∈ nominals ∨ k ∈ scopes := by
  by_cases hn : k ∈ nominals
  · exact .inr (.inl hn)
  · by_cases hs : k ∈ scopes
    · exact .inr (.inr hs)
    · left
      unfold isContext traits at h
      rw [if_neg hn, if_neg hs] at h
      split at h
      · cases h
      · split at h <;> first | rfl | cases h

theorem mem_contextChildren {k : Kind} (h : k.isContext = true) : k ∈ contextChildren :=
  List.mem_filter.mpr ⟨mem_all k, by rw [h]; rfl⟩

/-- What a declaration can be declared in is a context, unless generic arguments are applied to
it. -/
theorem isContext_of_mem_contextChildren {k : Kind} (h : k ∈ contextChildren)
    (hk : k ∉ boundGenerics) :
    k.isContext = true := by
  have h := (List.mem_filter.mp h).2
  rw [decide_eq_false hk, Bool.or_false] at h
  exact h

theorem declNames_subset_plain : ∀ k ∈ all.filter isDeclName, k ∈ plain ∧ k ≠ .type := by decide

theorem plain_of_isDeclName {k : Kind} (h : k.isDeclName = true) : k ∈ plain :=
  (declNames_subset_plain k (List.mem_filter.mpr ⟨mem_all k, h⟩)).1

theorem ne_type_of_isDeclName {k : Kind} (h : k.isDeclName = true) : k ≠ .type :=
  (declNames_subset_plain k (List.mem_filter.mpr ⟨mem_all k, h⟩)).2

theorem scopes_subset_plain : ∀ k ∈ scopes, k ∈ plain := by decide

theorem ne_of_mem_scopes :
    ∀ k ∈ scopes, k ≠ .identifier ∧ k ≠ .moduleName ∧ k ≠ .type ∧ k ≠ .emptyList := by decide

theorem nominals_subset_types : ∀ k ∈ nominals, k ∈ types := by decide

end Kind

/-- A node that an operator leaves on the stack is written as it lies there. -/
theorem Node.OnStack.stacked {n : Node} (h : n.OnStack) {cfg : Config} (hn : n.Rule cfg) :
    n.stacked = [n] := by
  by_cases hm : n.kind = .moduleName
  · obtain ⟨t, -, rfl⟩ := hn.eq_moduleName hm
    exact if_pos (h.module t [] rfl)
  · exact Node.stacked_of_plain (List.mem_filter.mpr ⟨h.kind, decide_eq_true hm⟩)

namespace Reads

variable {α : Type} {n : Node} {s : List Node} {table : SubstitutionTable} {words : List Text}
  {w : Text}

/-! ### Modules and contexts -/

/-- An identifier on the stack names a module. -/
theorem popModule?_identifier {t : Text} :
    Reads Reading.popModule? [] ⟨.identifier t :: s, table, words⟩ (some (.moduleName t))
      ⟨s, table, words⟩ := by
  refine (pop? (n := .identifier t) rfl).step ?_
  exact (build (k := .moduleName) (p := .text t) ⟨rfl, rfl, rfl⟩ _).map some

theorem popModule?_moduleName (h : n.kind = .moduleName) :
    Reads Reading.popModule? [] ⟨n :: s, table, words⟩ (some n) ⟨s, table, words⟩ := by
  refine (pop?_ne (by rw [h]; decide)).step ?_
  exact pop? h

theorem popModule?_none (h : n.kind ≠ .identifier) (h' : n.kind ≠ .moduleName) :
    Reads Reading.popModule? [] ⟨n :: s, table, words⟩ none ⟨n :: s, table, words⟩ := by
  refine (pop?_ne h).step ?_
  exact pop?_ne h'

/-- A module is popped, however it lies on the stack. -/
theorem popModule? {t : Text} :
    Reads Reading.popModule? [] ⟨(Node.moduleName t).stacked ++ s, table, words⟩
      (some (.moduleName t)) ⟨s, table, words⟩ := by
  by_cases ht : t ∈ lettered
  · have hstacked : (Node.moduleName t).stacked = [.moduleName t] := if_pos ht
    rw [hstacked]
    exact popModule?_moduleName rfl
  · have hstacked : (Node.moduleName t).stacked = [.identifier t] := if_neg ht
    rw [hstacked]
    exact popModule?_identifier

/-- A context is popped, however it lies on the stack. -/
theorem popContext {cfg : Config} {c : Node} (hc : c.Rule cfg) (h : c.kind.isContext = true) :
    Reads Reading.popContext [] ⟨c.stacked ++ s, table, words⟩ c ⟨s, table, words⟩ := by
  rcases Kind.isContext_cases h with hm | hn | hs
  · obtain ⟨t, -, rfl⟩ := hc.eq_moduleName hm
    exact popModule?.step (pure _ _)
  · rw [Node.stacked_of_types (Kind.nominals_subset_types _ hn)]
    refine (popModule?_none (n := c.typeOf) nofun nofun).step ?_
    refine (pop? (n := c.typeOf) rfl).step ?_
    exact (check h _).step (pure _ _)
  · have hplain : c.kind ∈ Kind.plain := Kind.scopes_subset_plain _ hs
    obtain ⟨hi, hm, ht, -⟩ := Kind.ne_of_mem_scopes _ hs
    rw [Node.stacked_of_plain hplain]
    refine (popModule?_none hi hm).step ?_
    refine (pop?_ne ht).step ?_
    exact (popIf h).step (require_some c _)

/-! ### Labels -/

/-- What labels leave on the stack. -/
def labelsStacked (labels : Option Node) : List Node := labels.elim [] Node.stacked

theorem popLabels (ls : List Node)
    (h : ∀ l ∈ ls, l.kind = .identifier ∨ l.kind = .firstElementMarker) :
    Reads (Reading.popLabels ls.length)
      [] ⟨ls ++ s, table, words⟩ ls.reverse ⟨s, table, words⟩ := by
  induction ls with
  | nil => exact pure _ _
  | cons l ls ih =>
    refine (popIf rfl).step ((require_some l _).step ?_)
    refine (check (by simpa using h l List.mem_cons_self) _).step ?_
    rw [List.reverse_cons]
    exact (ih fun l hl => h l (List.mem_cons_of_mem _ hl)).map fun ls => ls ++ [l]

/-- Labels come off the stack in the order in which they were written. -/
private theorem popLabels_reverse {ls : List Node}
    (h : ∀ l ∈ ls, l.kind = .identifier ∨ l.kind = .firstElementMarker) :
    Reads (Reading.popLabels ls.length)
      [] ⟨ls.reverse ++ s, table, words⟩ ls ⟨s, table, words⟩ := by
  have hread : Reads (Reading.popLabels ls.reverse.length) []
    ⟨ls.reverse ++ s, table, words⟩ ls.reverse.reverse
      ⟨s, table, words⟩ := popLabels ls.reverse fun l hl => h l (List.mem_reverse.mp hl)
  rwa [List.reverse_reverse, List.length_reverse] at hread

/-- No label is taken for an empty list. -/
private theorem head?_labels {ls : List Node} (hne : ls ≠ [])
    (h : ∀ l ∈ ls, l.kind = .identifier ∨ l.kind = .firstElementMarker) :
    ∀ n, (ls.reverse ++ s).head? = some n → n.kind ≠ .emptyList := by
  intro n hn
  obtain ⟨r, rs, hr⟩ := List.exists_cons_of_ne_nil (List.reverse_ne_nil_iff.mpr hne)
  rw [hr] at hn
  have hmem : n ∈ ls := by
    rw [← Option.some.inj hn, ← List.mem_reverse, hr]
    exact List.mem_cons_self
  rcases h n hmem with hk | hk <;> rw [hk] <;> decide

/-- Where some parameters are named, there is a label for each of them. -/
private theorem popLabelList?_named {t parameters : Node} {labels : List Node}
    (hkind : t.unwrapped.kind = .functionType ∨ t.unwrapped.kind = .noEscapeFunctionType)
    (h : Reading.argumentsOf? t.unwrapped =
      some (.mk .argumentTuple (.index labels.length) [parameters]))
    (htuple : parameters.unwrapped.kind = .tuple)
    (hlabels : ∀ l ∈ labels, l.kind = .identifier ∨ l.kind = .firstElementMarker)
    (hname : ∃ l ∈ labels, l.kind ≠ .firstElementMarker) :
    Reads (Reading.popLabelList? t) [] ⟨labels.reverse ++ s, table, words⟩
      (some (.mk .labelList .none labels)) ⟨s, table, words⟩ := by
  obtain ⟨l, hl, hlname⟩ := hname
  have hne : labels ≠ [] := List.ne_nil_of_mem hl
  have hkind' : ¬(t.unwrapped.kind ≠ .functionType ∧ t.unwrapped.kind ≠ .noEscapeFunctionType) :=
    fun hk => hkind.elim hk.1 hk.2
  have hcount : ¬((labels.length : Int) = 0) := by
    have hpos : 0 < labels.length := List.length_pos_iff.mpr hne
    omega
  have hall : (labels.all fun label => decide (label.kind = .firstElementMarker)) = false := by
    rw [List.all_eq_false]
    exact ⟨l, hl, by simpa using hlname⟩
  have hrule : (Node.mk .labelList .none labels).Rule {} :=
    .labelList hlabels (.inr ⟨l, hl, hlname⟩)
  refine (popped_none (head?_labels hne hlabels)).step ?_
  simp only [Bool.false_eq_true, if_false]
  rw [if_neg hkind', h]
  simp only [hcount, if_false, htuple, ne_eq, not_true_eq_false, Int.toNat_natCast]
  refine (popLabels_reverse hlabels).step ?_
  simp only [hall, Bool.false_eq_true, if_false]
  exact (node hrule.fits _).map some

/-- The labels that go with a type are popped. Where there are none, an empty list below must not be
taken for them. -/
theorem popLabelList? {labels : Option Node} {t : Node} (h : LabelsFit labels t)
    (hs : labels = none → ∀ n, s.head? = some n → n.kind ≠ .emptyList) :
    Reads (Reading.popLabelList? t) [] ⟨labelsStacked labels ++ s, table, words⟩ labels
      ⟨s, table, words⟩ := by
  -- An empty list is looked for first. Then the type tells whether there are labels at all.
  cases h with
  | absent h =>
    refine (popped_none (hs rfl)).step ?_
    simp only [Bool.false_eq_true, if_false]
    rw [if_pos h]
    exact pure _ _
  | @noArguments t parameters h =>
    refine (popped_none (hs rfl)).step ?_
    simp only [Bool.false_eq_true, if_false]
    by_cases hkind : t.unwrapped.kind ≠ .functionType ∧ t.unwrapped.kind ≠ .noEscapeFunctionType
    · rw [if_pos hkind]
      exact pure _ _
    · rw [if_neg hkind, h]
      exact pure _ _
  | unnamed t =>
    refine (popped (n := Node.emptyMark) rfl).step ?_
    exact (node (k := .labelList) ⟨rfl, rfl, rfl⟩ _).map some
  | @named t parameters labels hkind h htuple hlabels hname =>
    have hstacked : labelsStacked (some (.mk .labelList .none labels)) = labels.reverse := by
      obtain ⟨l, hl, -⟩ := hname
      cases labels with
      | nil => cases hl
      | cons l ls => rfl
    rw [hstacked]
    exact popLabelList?_named hkind h htuple hlabels hname

/-! ### Lists -/

variable {element : Reading Node} {st : Node → List Node} {e : Node} {es : List Node}

/-- The elements are popped from last to first, up to the one below the mark. -/
private theorem popMarkedList_reverse {rs : List Node} (s : List Node)
    (helement : ∀ n ∈ e :: rs, ∀ s, Reads element [] ⟨st n ++ s, table, words⟩ n ⟨s, table, words⟩)
    (htop : ∀ n ∈ rs, ∃ t ts, st n = t :: ts ∧ t.kind ≠ .firstElementMarker) :
    ∀ fuel, rs.length < fuel → Reads (Reading.popMarkedList element fuel) []
      ⟨rs.flatMap st ++ Node.firstMark :: (st e ++ s), table, words⟩ (e :: rs.reverse)
      ⟨s, table, words⟩ := by
  -- By induction on the elements above the mark, from the top of the stack down.
  induction rs with
  | nil =>
    intro fuel hfuel
    obtain ⟨fuel, rfl⟩ : ∃ m, fuel = m + 1 := ⟨fuel - 1, by omega⟩
    refine (popped (n := Node.firstMark) rfl).step ?_
    exact (helement e List.mem_cons_self s).step (pure _ _)
  | cons r rs ih =>
    intro fuel hfuel
    rw [List.length_cons] at hfuel
    obtain ⟨fuel, rfl⟩ : ∃ m, fuel = m + 1 := ⟨fuel - 1, by omega⟩
    obtain ⟨t, ts, hst, ht⟩ := htop r List.mem_cons_self
    have hmem : ∀ n ∈ e :: rs, n ∈ e :: r :: rs := by
      intro n hn
      rcases List.mem_cons.mp hn with rfl | hn
      · exact List.mem_cons_self
      · exact List.mem_cons_of_mem _ (List.mem_cons_of_mem _ hn)
    have hr : r ∈ e :: r :: rs := List.mem_cons_of_mem _ List.mem_cons_self
    have hrest := ih (fun n hn => helement n (hmem n hn))
      (fun n hn => htop n (List.mem_cons_of_mem _ hn)) fuel (by omega)
    rw [List.flatMap_cons, List.append_assoc, List.reverse_cons]
    generalize rs.flatMap st ++ Node.firstMark :: (st e ++ s) = below at hrest ⊢
    have hpopped : Reads (Reading.popped .firstElementMarker) [] ⟨st r ++ below, table, words⟩ false
        ⟨st r ++ below, table, words⟩ := by
      rw [hst]
      exact popped_ne ht
    refine hpopped.step ?_
    refine (helement r hr below).step ?_
    exact hrest.map fun ns => ns ++ [r]

/-- What a list leaves on a stack: the mark of an empty one, or else its elements, with a mark above
the first. -/
def markedOn (st : Node → List Node) (s : List Node) : List Node → List Node
  | [] => Node.emptyMark :: s
  | n :: ns => ns.foldl (fun s n => st n ++ s) (Node.firstMark :: (st n ++ s))

theorem foldl_stack (st : Node → List Node) (ns s : List Node) :
    ns.foldl (fun s n => st n ++ s) s = ns.reverse.flatMap st ++ s := by
  induction ns generalizing s with
  | nil => rfl
  | cons n ns ih => simp [ih]

private theorem length_le_length_flatMap {ns : List Node} (h : ∀ n ∈ ns, st n ≠ []) :
    ns.length ≤ (ns.flatMap st).length := by
  induction ns with
  | nil => exact Nat.le_refl 0
  | cons n ns ih =>
    have hn : 0 < (st n).length := List.length_pos_iff.mpr (h n List.mem_cons_self)
    have hns := ih fun m hm => h m (List.mem_cons_of_mem _ hm)
    rw [List.flatMap_cons, List.length_append, List.length_cons]
    omega

/-- A list is popped, whatever its elements leave on the stack. -/
theorem popList {ns : List Node}
    (helement : ∀ n ∈ ns, ∀ s, Reads element [] ⟨st n ++ s, table, words⟩ n ⟨s, table, words⟩)
    (htop : ∀ n ∈ ns, ∃ t ts, st n = t :: ts ∧ t.kind ≠ .firstElementMarker ∧ t.kind ≠ .emptyList) :
    Reads (Reading.popList element) [] ⟨markedOn st s ns, table, words⟩ ns ⟨s, table, words⟩ := by
  rcases ns with _ | ⟨n, ns⟩
  · exact (popped (n := Node.emptyMark) rfl).step (pure _ _)
  · show Reads _ [] ⟨ns.foldl _ _, table, words⟩ _ _
    rw [foldl_stack]
    have hmem : ∀ m ∈ n :: ns.reverse, m ∈ n :: ns := by simp
    have htop' : ∀ m ∈ ns.reverse, m ∈ n :: ns := fun m hm => hmem m (List.mem_cons_of_mem _ hm)
    -- On top is what the last element has left, or the mark. Neither is an empty list.
    refine (popped_none ?_).step (get fun offset rest => ?_)
    · intro m hm
      rcases hr : ns.reverse with _ | ⟨r, rs⟩
      · rw [hr] at hm
        cases hm
        decide
      · obtain ⟨t, ts, hst, -, ht⟩ := htop r (htop' r (by rw [hr]; exact List.mem_cons_self))
        rw [hr, List.flatMap_cons, hst] at hm
        cases hm
        exact ht
    · have h := popMarkedList_reverse s
        (fun m hm => helement m (hmem m hm))
        (fun m hm => (htop m (htop' m hm)).imp fun t h => h.imp fun ts h => ⟨h.1, h.2.1⟩)
        ((ns.reverse.flatMap st ++ Node.firstMark :: (st n ++ s)).length + 1) ?_
      · rw [List.reverse_reverse] at h
        exact h
      -- Every element has left a node at least, so the height of the stack is fuel enough.
      · have hlength : ns.reverse.length ≤ (ns.reverse.flatMap st).length := by
          refine length_le_length_flatMap fun m hm => ?_
          obtain ⟨t, ts, hst, -⟩ := htop m (htop' m hm)
          rw [hst]
          exact List.cons_ne_nil t ts
        rw [List.length_append]
        omega

/-- A node that may be missing is popped if it is there. -/
theorem pop?_optional {o : Option Node} {k : Kind} (ho : ∀ n ∈ o, n.kind = k)
    (hs : ∀ n, s.head? = some n → n.kind ≠ k) :
    Reads (Reading.pop? k) [] ⟨o.toList ++ s, table, words⟩ o ⟨s, table, words⟩ := by
  rcases o with _ | n
  · exact pop?_none hs
  · exact pop? (ho n rfl)

/-- The elements of a tuple are popped. -/
theorem popTupleElement {cfg : Config} (h : n.Rule cfg) (hbelow : ∀ c ∈ n.children, c.Rule cfg)
    (hk : n.kind = .tupleElement) :
    Reads Reading.popTupleElement [] ⟨n.stacked ++ s, table, words⟩ n ⟨s, table, words⟩ := by
  have hfits := h.fits
  cases h with
  | @tupleElement variadic name t hvariadic hname ht =>
    have htype : t ∈ variadic.toList ++ name.toList ++ [t] := by simp
    obtain ⟨x, -, rfl⟩ := (hbelow t htype).eq_type ht
    have hmarker : variadic.toList.map Node.asElement = variadic.toList := by
      rcases variadic with _ | ⟨k, p, cs⟩
      · rfl
      · have hk : k = .variadicMarker := hvariadic _ rfl
        subst hk
        rfl
    have hstacked :
      (Node.mk .tupleElement .none (variadic.toList ++ name.toList ++ [x.typeOf])).stacked
        ++ s = variadic.toList ++ (name.toList.map Node.asElement ++ x.typeOf :: s) := by
      show (variadic.toList ++ name.toList ++ [x.typeOf]).map Node.asElement ++ s = _
      rw [List.map_append, List.map_append, hmarker, List.append_assoc, List.append_assoc]
      rfl
    rw [hstacked]
    -- A name lies on the stack as an identifier, and is made the name of an element again.
    rcases name with _ | name
    · refine (pop?_optional hvariadic ?_).step ?_
      · rintro n hn
        cases hn
        nofun
      · refine (pop?_ne (n := x.typeOf) (k := .identifier) nofun).step ?_
        refine (pure [] _).step ?_
        refine (popType (n := x.typeOf) rfl).step ?_
        exact node hfits _
    · have hlabel : name ∈ variadic.toList ++ [name] ++ [x.typeOf] := by simp
      obtain ⟨text, htext, hn⟩ := (hbelow name hlabel).eq_name (by rw [hname name rfl]; decide)
      rw [hname name rfl] at hn
      subst hn
      have hfitsName : (Node.mk .tupleElementName (.text text) []).Fits := ⟨rfl, rfl, rfl⟩
      refine (pop?_optional hvariadic ?_).step ?_
      · rintro n hn
        cases hn
        nofun
      · refine (pop? (n := .identifier text) rfl).step ?_
        refine (build hfitsName _).step ?_
        refine (pure [_] _).step ?_
        refine (popType (n := x.typeOf) rfl).step ?_
        exact node hfits _
  | _ => cases hk <;> exact absurd ‹_ ∈ _› (by decide)

/-- What lies at the top for an element of a tuple cannot be taken for a mark. -/
theorem tupleElement_top {cfg : Config} (h : n.Rule cfg) (hbelow : ∀ c ∈ n.children, c.Rule cfg)
    (hk : n.kind = .tupleElement) :
    ∃ t ts, n.stacked = t :: ts ∧ t.kind ≠ .firstElementMarker ∧ t.kind ≠ .emptyList := by
  cases h with
  | @tupleElement variadic name t hvariadic hname ht =>
    have htype : t ∈ variadic.toList ++ name.toList ++ [t] := by simp
    obtain ⟨x, -, rfl⟩ := (hbelow t htype).eq_type ht
    rcases variadic with _ | ⟨k, p, cs⟩
    · rcases name with _ | name
      · exact ⟨x.typeOf, [], rfl, nofun, nofun⟩
      · have hlabel : name ∈ [] ++ [name] ++ [x.typeOf] := by simp
        obtain ⟨text, htext, hn⟩ := (hbelow name hlabel).eq_name (by rw [hname name rfl]; decide)
        rw [hname name rfl] at hn
        subst hn
        exact ⟨.identifier text, [x.typeOf], rfl, nofun, nofun⟩
    · have hk : k = .variadicMarker := hvariadic _ rfl
      subst hk
      exact ⟨_, _, rfl, nofun, nofun⟩
  | _ => cases hk <;> exact absurd ‹_ ∈ _› (by decide)

/-! ### Functions -/

/-- Only the empty tuple lies on the stack as the mark of an empty list. -/
theorem asParameters_cases {cfg : Config} {t : Node} (ht : t.Grammatical cfg)
    (hk : t.kind = .type) :
    t = .typeOf (.mk .tuple .none []) ∨ t.asParameters = [t] := by
  unfold Node.asParameters
  split
  · rename_i h
    obtain ⟨x, -, rfl⟩ := ht.root.eq_type hk
    have hx := (ht.children x (List.mem_singleton_self x)).root.eq_tuple h.1
    have hnil : x.children = [] := List.isEmpty_iff.mp h.2
    rw [hx, hnil]
    exact .inl rfl
  · exact .inr rfl

theorem popArguments {cfg : Config} {t : Node} (ht : t.Grammatical cfg) (hk : t.kind = .type) :
    Reads Reading.popArguments [] ⟨t.asParameters ++ s, table, words⟩
      (.mk .argumentTuple (.index (argumentCount t)) [t]) ⟨s, table, words⟩ := by
  have hrule : (Node.mk .argumentTuple (.index (argumentCount t)) [t]).Rule cfg := .argumentTuple hk
  rcases asParameters_cases ht hk with rfl | hstacked
  · refine (popped (n := Node.emptyMark) rfl).step ?_
    have htuple : (Node.mk .tuple .none []).Fits := ⟨rfl, rfl, rfl⟩
    exact (type htuple (by decide) _).step (build hrule.fits _)
  · rw [hstacked]
    refine (popped_ne (by rw [hk]; decide)).step ?_
    refine (popType hk).step ?_
    exact build hrule.fits _

theorem popResult {cfg : Config} {t : Node} (ht : t.Grammatical cfg) (hk : t.kind = .type) :
    Reads Reading.popResult [] ⟨t.asParameters ++ s, table, words⟩ (.mk .returnType .none [t])
      ⟨s, table, words⟩ := by
  have hrule : (Node.mk .returnType .none [t]).Rule cfg := .aroundType (by decide) hk
  rcases asParameters_cases ht hk with rfl | hstacked
  · refine (popped (n := Node.emptyMark) rfl).step ?_
    have htuple : (Node.mk .tuple .none []).Fits := ⟨rfl, rfl, rfl⟩
    exact (type htuple (by decide) _).step (node hrule.fits _)
  · rw [hstacked]
    refine (popped_ne (by rw [hk]; decide)).step ?_
    exact (popType hk).step (node hrule.fits _)

/-- The parts of a function type are popped. -/
theorem popFunctionType {cfg : Config} {k : Kind} {throws : Option Node} {t r : Node}
    (hk : k ∈ Kind.functionTypes) (hthrows : ∀ n ∈ throws, n.kind = .throwsMarker)
    (ht : t.Grammatical cfg) (htk : t.kind = .type) (hr : r.Grammatical cfg)
    (hrk : r.kind = .type) :
    Reads (Reading.popFunctionType k) []
      ⟨throws.toList ++ (t.asParameters ++ (r.asParameters ++ s)), table, words⟩
      (.typeOf (.mk k .none (throws.toList
        ++ [.mk .argumentTuple (.index (argumentCount t)) [t], .mk .returnType .none [r]])))
      ⟨s, table, words⟩ := by
  refine (pop?_optional hthrows ?_).step ?_
  · intro n hn
    rcases asParameters_cases ht htk with rfl | hstacked
    · cases hn
      decide
    · rw [hstacked] at hn
      cases hn
      rw [htk]
      decide
  · refine (popArguments ht htk).step ((popResult hr hrk).step ?_)
    have hrule :
      (Node.mk k .none (throws.toList ++ [.mk .argumentTuple (.index (argumentCount t)) [t],
        .mk .returnType .none [r]])).Rule cfg := .functionType hk hthrows rfl rfl
    exact type hrule.fits (by simp only [Kind.types, List.mem_append]; exact .inl (.inr hk)) _

/-! ### Protocols -/

/-- The node is a protocol, as a type, and nothing is applied to its context. -/
def PlainProtocol (cfg : Config) (n : Node) : Prop :=
  ∃ context name : Node, n = .typeOf (.mk .protocolType .none [context, name]) ∧ context.Rule cfg ∧
    context.kind.isContext = true ∧ name.kind.isDeclName = true

/-- What a protocol leaves on the stack in a list of protocols: itself, if it has a letter in the
standard library, or else its context and its name. -/
def protocolStacked (n : Node) : List Node :=
  if (Standard.code? n.unwrapped).isSome then [n] else Node.stackedOn [] n.unwrapped.children

theorem popProtocol {cfg : Config} (h : PlainProtocol cfg n) :
    Reads Reading.popProtocol [] ⟨protocolStacked n ++ s, table, words⟩ n ⟨s, table, words⟩ := by
  obtain ⟨context, name, rfl, hcontext, hc, hname⟩ := h
  unfold protocolStacked
  split
  · refine (pop? (n := .typeOf _) rfl).step ?_
    exact (check (decide_eq_true rfl) _).step (pure _ _)
  · have hstacked : Node.stackedOn [] [context, name] ++ s = name :: (context.stacked ++ s) := by
      simp [Node.stacked_of_plain (Kind.plain_of_isDeclName hname)]
    have hrule : (Node.mk .protocolType .none [context, name]).Rule cfg :=
      .nominal (by decide) (Kind.mem_contextChildren hc) hname
    show Reads _ [] ⟨Node.stackedOn [] [context, name] ++ s, table, words⟩ _ _
    rw [hstacked]
    refine (pop?_ne (Kind.ne_type_of_isDeclName hname)).step ?_
    refine (popDeclName hname).step ((popContext hcontext hc).step ?_)
    exact type hrule.fits (by decide) _

/-- What lies at the top for a protocol cannot be taken for a mark. -/
theorem protocol_top {cfg : Config} (h : PlainProtocol cfg n) :
    ∃ t ts, protocolStacked n = t :: ts ∧ t.kind ≠ .firstElementMarker ∧ t.kind ≠ .emptyList := by
  obtain ⟨context, name, rfl, hcontext, hc, hname⟩ := h
  unfold protocolStacked
  split
  · exact ⟨_, [], rfl, nofun, nofun⟩
  · refine ⟨name, context.stacked, ?_, ?_, ?_⟩
    · show Node.stackedOn [] [context, name] = _
      simp [Node.stacked_of_plain (Kind.plain_of_isDeclName hname)]
    · intro hk
      rw [hk] at hname
      cases hname
    · intro hk
      rw [hk] at hname
      cases hname

theorem popProtocolList {cfg : Config} {ps : List Node} (h : ∀ p ∈ ps, PlainProtocol cfg p) :
    Reads Reading.popProtocolList [] ⟨markedOn protocolStacked s ps, table, words⟩
      (.mk .protocolList .none [.mk .typeList .none ps]) ⟨s, table, words⟩ := by
  have hlist : (Node.mk .typeList .none ps).Rule cfg := .typeList fun p hp => by
    obtain ⟨_, _, rfl, _⟩ := h p hp
    rfl
  refine (popList (fun p hp s => popProtocol (h p hp)) fun p hp => protocol_top (h p hp)).step ?_
  exact (node hlist.fits _).step (node ⟨rfl, rfl, rfl⟩ _)

end Reads

end SwiftABI
