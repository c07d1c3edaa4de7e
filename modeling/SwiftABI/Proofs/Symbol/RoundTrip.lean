/-
  Reading what has been written for a tree that was read.

  The tree of a symbol holds what a run has left on its stack, node by node. If each of them is
  readable, the writer goes through the stack from below and the reader of the new symbol builds the
  same stack (`Turns.leaves`). Only a suffix is written as it is, and it takes everything that
  follows. So a tree whose generic arguments are all spelled and whose names can be spelled is read
  again from its own symbol (`roundTrip_of_regular`). If some names cannot be spelled, a symbol that
  is written nevertheless still means the tree (`demangle_of_mangle`).
-/
import SwiftABI.Proofs.Symbol.Placement
import SwiftABI.Proofs.Symbol.Regular
import SwiftABI.Proofs.Symbol.SelfDelimiting.Run
import SwiftABI.Proofs.Symbol.Spellable
import SwiftABI.Proofs.Symbol.Written.Fuel

namespace SwiftABI

/-- Settings under which symbols are read back as they are written. -/
structure Config.Usual (cfg : Config) : Prop where
  prefixes : cfg.prefixes = ({} : Config).prefixes
  emitted : cfg.emittedPrefix ∈ cfg.prefixes
  repeats : -1 ≤ cfg.maxRepeatCount
  words : 0 ≤ cfg.maxWords ∧ cfg.maxWords ≤ 26

theorem Config.usual_default : Config.Usual {} := ⟨rfl, by decide, by decide, by decide⟩

/-! ### Writing what lies on a stack -/

/-- What is needed to write a node that a run has left on its stack. -/
structure Node.Leaf (strict : Prop) (cfg : Config) (fuel : Nat) (c : Node) : Prop where
  readable : Readable c
  spelled : c.All (Node.Spelled strict cfg)
  size : c.size ≤ fuel

/-- A sound node is written as it lies on the stack, with or without the node that makes it a
type. -/
theorem Node.Sound.stacked {cfg : Config} {n c : Node} (h : n.Sound cfg)
    (hc : c = n ∨ c = n.unwrapped) :
    c.Grammatical cfg ∧ c.kind ∉ Kind.parts ∧ c.stacked = [n] := by
  have hstackable : ∀ k ∈ Kind.stackable, k ∉ Kind.parts := by decide
  have hself : n.Grammatical cfg ∧ n.kind ∉ Kind.parts ∧ n.stacked = [n] :=
    ⟨h.grammatical, hstackable _ h.onStack.kind, h.onStack.stacked h.grammatical.root⟩
  rcases hc with rfl | rfl
  · exact hself
  · by_cases hk : n.kind = .type
    · obtain ⟨t, ht, rfl⟩ := h.grammatical.root.eq_type hk
      exact ⟨h.grammatical.children t (List.mem_singleton_self t), Kind.not_parts_of_mem_types _ ht,
        Node.stacked_of_types ht⟩
    · rwa [Node.unwrapped_of_ne hk]

theorem Writing.each_append (sub : Node → Writing Unit) (ns ms : List Node) :
    Writing.each sub (ns ++ ms) = (do
      Writing.each sub ns
      Writing.each sub ms) := by
  induction ns with
  | nil => simp [Writing.each]
  | cons n ns ih => simp [Writing.each, ih]

theorem Writing.each_singleton (sub : Node → Writing Unit) (n : Node) :
    Writing.each sub [n] = sub n := by
  simp [Writing.each]

namespace Turns

variable {strict : Prop} {cfg : Config} {pre : Text} {s : List Node} {n c : Node} {fuel : Nat}

/-- The topmost node of a stack is written on top of the others. -/
theorem leaf (hcfg : cfg.Usual) (h : SoundStack cfg (n :: s)) (hc : c = n ∨ c = n.unwrapped)
    (hleaf : c.Leaf strict cfg fuel) :
    Turns strict cfg pre (Writing.mangleAt cfg fuel c) ⟨s, []⟩ fun _ => ⟨n :: s, []⟩ := by
  -- A type with its labels is no sound node. It is written by way of its parts, which are.
  cases h with
  | node hn hs =>
    obtain ⟨hgrammatical, hparts, hstacked⟩ := hn.stacked hc
    have hwritten : Written strict cfg pre (Writing.mangleAt cfg fuel) c :=
      .mangleAt hcfg.repeats hcfg.words.2
      fuel c hleaf.size hgrammatical hleaf.readable hleaf.spelled hparts
    have hturns := hwritten s
    rwa [hstacked] at hturns
  | @typeMangling labels t _ ht hlabels hbelow hapart hs =>
    have hself : c = .mk .typeMangling .none (labels.toList ++ [t]) := by
      rcases hc with hc | hc
      · exact hc
      · exact hc.trans (Node.unwrapped_of_ne nofun)
    subst hself
    obtain ⟨fuel, rfl⟩ : ∃ m, fuel = m + 1 :=
      Nat.exists_eq_add_one.mpr (Nat.lt_of_lt_of_le (Node.size_pos _) hleaf.size)
    obtain ⟨-, hreadable⟩ := hleaf.readable.cases_of_kind
      (.inl (by show Kind.typeMangling ∉ _; decide))
    refine Turns.typeMangling ht hlabels hapart fun d hd => ?_
    have hlt := Node.size_lt_of_mem_children
      (n := .mk .typeMangling .none (labels.toList ++ [t])) hd
    have hsize := hleaf.size
    refine Written.mangleAt hcfg.repeats hcfg.words.2 fuel d (by omega) (hbelow d hd)
      (hreadable d hd) (hleaf.spelled.children d hd) ?_
    rcases List.mem_append.mp hd with hd | hd
    · rw [Node.Rule.kind_of_labelsFit hlabels d (Option.mem_toList.mp hd)]
      decide
    · rw [List.mem_singleton.mp hd, ht]
      decide

/-- The nodes of a stack are written from below. -/
theorem leaves (hcfg : cfg.Usual) (h : SoundStack cfg s)
    (hleaf : ∀ n ∈ s, n.unwrapped.Leaf strict cfg fuel) :
    Turns strict cfg pre (Writing.each (Writing.mangleAt cfg fuel) (s.reverse.map Node.unwrapped))
      ⟨[], []⟩
      fun _ => ⟨s, []⟩ := by
  induction s with
  | nil => exact pure rfl
  | cons n s ih =>
    rw [List.reverse_cons, List.map_append, Writing.each_append]
    refine (ih h.tail fun m hm => hleaf m (List.mem_cons_of_mem _ hm)).bind fun _ => ?_
    show Turns strict cfg pre (Writing.each _ [n.unwrapped]) _ _
    rw [Writing.each_singleton]
    exact leaf hcfg h (.inr rfl) (hleaf n List.mem_cons_self)

end Turns

/-! ### Reading it -/

/-- A run over the text leaves the nodes on its stack. -/
def Leaves (cfg : Config) (w : Text) (s : List Node) : Prop :=
  ∃ m, (Machine.load 0 w).run cfg = .ok m ∧ m.stack = s

namespace Leaves

variable {cfg : Config} {w : Text} {s : List Node} {n : Node}

/-- Where nothing is read, nothing is left. -/
theorem ne_nil (h : Leaves cfg w s) (hs : s ≠ []) : w ≠ [] := by
  rintro rfl
  obtain ⟨m, hrun, hstack⟩ := h
  cases hrun
  exact hs hstack.symm

theorem demangle (h : Leaves cfg w s) (hcfg : cfg.Usual) (hs : s ≠ []) :
    demangle cfg (cfg.emittedPrefix ++ w) =
      .ok (.mk .global .none (s.reverse.map Node.unwrapped)) := by
  have hw := h.ne_nil hs
  obtain ⟨m, hrun, rfl⟩ := h
  apply (demangle_append_eq_ok_iff hcfg.prefixes hcfg.emitted).mpr
  exact readBody_eq_ok_iff.mpr ⟨hw, m, hrun, Machine.symbol_eq_ok_iff.mpr ⟨hs, rfl⟩⟩

theorem demangleType (h : Leaves cfg w [n]) : demangleType cfg w = .ok n := by
  have hw := h.ne_nil (List.cons_ne_nil n [])
  exact demangleType_eq_ok_iff.mpr ⟨hw, h⟩

end Leaves

namespace Parses

variable {cfg : Config} {w : Text} {c : Store}

theorem leaves (h : Parses cfg w {} c) : Leaves cfg w c.stack := ⟨_, h.run_eq 0, rfl⟩

/-- A suffix takes everything behind it. -/
theorem leaves_suffix (h : Parses cfg w {} c) (t : Text) :
    Leaves cfg (w ++ ('.' : CodePoint) :: t) (Machine.suffixNode t :: c.stack) :=
  ⟨_, Machine.run_eq_ok_iff.mpr ⟨h.comes_suffix 0 t, rfl⟩, rfl⟩

end Parses

/-! ### Writing and reading -/

/-- The steps write a text that leaves the nodes on the stack of its reader, or else they fail.
Strict work does not fail. -/
def Renders (strict : Prop) (cfg : Config) (pre : Text) (x : Writing Unit) (s : List Node) : Prop :=
  (∃ d w, x.outcome {} = (.ok (), d) ∧ d.symbol = pre ++ w ∧ Leaves cfg w s) ∨
    ¬strict ∧ ∃ e d, x.outcome {} = (.error e, d)

namespace Renders

variable {strict : Prop} {cfg : Config} {pre : Text} {x : Writing Unit} {s : List Node}

/-- Where a symbol begins, nothing has been read. -/
theorem inStep_begin (hcfg : cfg.Usual) (pre : Text) : InStep cfg pre { symbol := pre } ⟨[], []⟩ :=
  ⟨[], {}, [], (List.append_nil pre).symm, .closed (.refl cfg {}) (.inl rfl), .nil, rfl,
    hcfg.words.1⟩

theorem of_turns (hcfg : cfg.Usual) (h : Turns strict cfg pre x ⟨[], []⟩ fun _ => ⟨s, []⟩) :
    Renders strict cfg pre (Writing.emit pre >>= fun _ => x) s := by
  rcases h _ (inStep_begin hcfg pre)
    with ⟨_, d, houtcome, body, table, _, hsymbol, hending, -⟩ | ⟨hstrict, e, d, houtcome⟩
  · exact .inl ⟨d, body, houtcome, hsymbol, hending.parses.leaves⟩
  · exact .inr ⟨hstrict, e, d, houtcome⟩

/-- A suffix is written behind everything else. -/
theorem of_turns_suffix (hcfg : cfg.Usual) (h : Turns strict cfg pre x ⟨[], []⟩ fun _ => ⟨s, []⟩)
    (t : Text) :
    Renders strict cfg pre (Writing.emit pre >>= fun _ => x >>= fun _ => Writing.emit ('.' :: t))
      (Machine.suffixNode t :: s) := by
  have hemit : (Writing.emit pre >>= fun _ => x >>= fun _ => Writing.emit ('.' :: t)).outcome {}
      = (x >>= fun _ => Writing.emit ('.' :: t)).outcome { symbol := pre } := rfl
  unfold Renders
  rw [hemit, Writing.outcome_bind]
  rcases h _ (inStep_begin hcfg pre)
    with ⟨_, d, houtcome, body, table, _, hsymbol, hending, -⟩ | ⟨hstrict, e, d, houtcome⟩
  · rw [houtcome]
    refine .inl ⟨_, body ++ ('.' : CodePoint) :: t, rfl, ?_, hending.parses.leaves_suffix t⟩
    show d.symbol ++ ('.' : CodePoint) :: t = _
    rw [hsymbol, List.append_assoc]
  · rw [houtcome]
    exact .inr ⟨hstrict, e, d, rfl⟩

end Renders

/-- The tree of the text is read again from what is written for it, if something is. -/
def ReadsBack (strict : Prop) (cfg : Config) (read : Text → Except Raised Node) (t : Node) : Prop :=
  (∃ u, mangle cfg t = .ok u ∧ read u = .ok t) ∨ ¬strict ∧ ∃ e, mangle cfg t = .error e

theorem Renders.readsBack {strict : Prop} {cfg : Config} {pre : Text} {t : Node} {s : List Node}
    {read : Text → Except Raised Node}
    (h : Renders strict cfg pre (Writing.mangleAt cfg t.size t) s)
    (hread : ∀ w, Leaves cfg w s → read (pre ++ w) = .ok t) : ReadsBack strict cfg read t := by
  rcases h with ⟨d, w, houtcome, hsymbol, hleaves⟩ | ⟨hstrict, e, d, houtcome⟩
  · have htree : writeTree cfg t = (.ok (), d) := houtcome
    refine .inl ⟨d.symbol, by rw [mangle, htree], ?_⟩
    rw [hsymbol]
    exact hread w hleaves
  · have htree : writeTree cfg t = (.error e, d) := houtcome
    exact .inr ⟨hstrict, _, by rw [mangle, htree]⟩

/-! ### Trees that have been read -/

section

variable {strict : Prop} {cfg : Config} {total : Nat} {m : Machine} {n t : Node} {text : Text}

/-- Nothing but itself is written for a suffix. -/
theorem mangleAt_suffixNode (fuel : Nat) (t : Text) :
    Writing.mangleAt cfg (fuel + 1) (Machine.suffixNode t) = Writing.emit ('.' :: t) := rfl

/-- A symbol is written as its prefix and its trees one after the other. -/
theorem mangleAt_global (cs : List Node) :
    Writing.mangleAt cfg (Node.mk .global .none cs).size (.mk .global .none cs)
      = (Writing.emit cfg.emittedPrefix >>= fun _ => Writing.each
        (Writing.mangleAt cfg (Node.sizeAll cs)) cs) := rfl

/-- A suffix is written behind everything else. -/
theorem mangleAt_global_suffix (cs : List Node) (t : Text) :
    Writing.mangleAt cfg (Node.mk .global .none (cs ++ [Machine.suffixNode t])).size
        (.mk .global .none (cs ++ [Machine.suffixNode t]))
      = Writing.mangleAt cfg (Node.mk .global .none cs).size (.mk .global .none cs) >>= fun _ =>
          Writing.emit ('.' :: t) := by
  have hsize : Node.sizeAll (cs ++ [Machine.suffixNode t]) = Node.sizeAll cs + 1 :=
    Node.sizeAll_append cs _
  -- There is one unit of fuel more, which the other trees do not need.
  have hsame : Writing.each (Writing.mangleAt cfg (Node.sizeAll cs + 1)) cs
      = Writing.each (Writing.mangleAt cfg (Node.sizeAll cs)) cs :=
    Writing.each_mangleAt_succ fun _ hc => Node.size_le_sizeAll hc
  rw [mangleAt_global, mangleAt_global, hsize, Writing.each_append, hsame, Writing.each_singleton,
    mangleAt_suffixNode, bind_assoc]

/-- What is needed to write the nodes on a stack, each with the fuel for all of them. -/
theorem Node.leaf_of_mem {s : List Node} (hreadable : ∀ n ∈ s, Readable n.unwrapped)
    (hspelled : ∀ n ∈ s, n.unwrapped.All (Node.Spelled strict cfg)) :
    ∀ n ∈ s, n.unwrapped.Leaf strict cfg (Node.sizeAll (s.reverse.map Node.unwrapped)) :=
      fun n hn =>
  ⟨hreadable n hn, hspelled n hn,
    Node.size_le_sizeAll (List.mem_map_of_mem (List.mem_reverse.mpr hn))⟩

/-- The tree of a symbol is read again from what is written for the nodes on the stack. -/
theorem Machine.Reached.readsBack_symbol (hm : m.Reached cfg total) (hcfg : cfg.Usual)
    (hne : m.stack ≠ []) (hreadable : ∀ n ∈ m.stack, Readable n.unwrapped)
    (hspelled : ∀ n ∈ m.stack, n.unwrapped.All (Node.Spelled strict cfg)) :
    ReadsBack strict cfg (demangle cfg)
      (.mk .global .none (m.stack.reverse.map Node.unwrapped)) := by
  suffices hrenders : Renders strict cfg cfg.emittedPrefix
      (Writing.mangleAt cfg (Node.mk .global .none (m.stack.reverse.map Node.unwrapped)).size
        (.mk .global .none (m.stack.reverse.map Node.unwrapped))) m.stack from
    hrenders.readsBack fun w hw => hw.demangle hcfg hne
  -- Where there is a suffix, it is on top of the stack, and everything below it has been read
  -- without it.
  cases hm with
  | sound h =>
    rw [mangleAt_global]
    exact .of_turns hcfg (Turns.leaves hcfg h.stack (Node.leaf_of_mem hreadable hspelled))
  | @suffixed m t h hrest =>
    obtain ⟨-, hreadable⟩ := List.forall_mem_cons.mp hreadable
    have hbelow : Turns strict cfg cfg.emittedPrefix
        (Writing.each (Writing.mangleAt cfg (Node.sizeAll (m.stack.reverse.map Node.unwrapped)))
          (m.stack.reverse.map Node.unwrapped)) ⟨[], []⟩ fun _ => ⟨m.stack, []⟩ :=
      .leaves hcfg h.stack
        (Node.leaf_of_mem hreadable (List.forall_mem_cons.mp hspelled).2)
    dsimp only
    rw [List.reverse_cons, List.map_append]
    show Renders strict cfg _ (Writing.mangleAt cfg
      (Node.mk .global .none (m.stack.reverse.map Node.unwrapped ++ [suffixNode t])).size
      (.mk .global .none (m.stack.reverse.map Node.unwrapped ++ [suffixNode t]))) _
    rw [mangleAt_global_suffix, mangleAt_global, bind_assoc]
    exact .of_turns_suffix hcfg hbelow t

/-- A node that was left alone is read again from what is written for it. -/
theorem Machine.Reached.readsBack_type (hm : m.Reached cfg total) (hcfg : cfg.Usual)
    (hn : m.stack = [n]) (hreadable : Readable n) (hspelled : n.All (Node.Spelled strict cfg)) :
    ReadsBack strict cfg (demangleType cfg) n := by
  have hbegin : ∀ x : Writing Unit, (Writing.emit [] >>= fun _ => x).outcome {} = x.outcome {} :=
    fun _ => rfl
  have hrenders : Renders strict cfg [] (Writing.emit [] >>= fun _ => Writing.mangleAt cfg n.size n)
      [n] := by
    cases hm with
    | sound h =>
      have hstack := h.stack
      rw [hn] at hstack
      exact .of_turns hcfg (Turns.leaf hcfg hstack (.inl rfl) ⟨hreadable, hspelled, Nat.le_refl _⟩)
    | @suffixed m t h hrest =>
      obtain ⟨rfl, -⟩ := List.cons_eq_cons.mp hn
      have hnothing : Turns strict cfg [] (Pure.pure () : Writing Unit) ⟨[], []⟩ fun _ =>
        ⟨[], []⟩ := Turns.pure rfl
      exact Renders.of_turns_suffix hcfg hnothing t
  unfold Renders at hrenders
  rw [hbegin] at hrenders
  exact Renders.readsBack hrenders fun w hw => hw.demangleType

/-- Whatever is read was left on the stack by a run. -/
theorem reached_of_demangle (h : demangle cfg text = .ok t) :
    ∃ m : Machine, m.Reached cfg text.length ∧ m.symbol = .ok t := by
  have hload := loadSymbol_spec cfg text
  rw [demangle_eq_ok_iff_readSymbol] at h
  unfold readSymbol at h
  rcases hm : loadSymbol cfg text with e | m <;> rw [hm] at h hload
  · cases h
  · have hrun := Machine.Sound.run hload
    change (m.run cfg >>= Machine.symbol) = _ at h
    rcases hm' : m.run cfg with e | m' <;> rw [hm'] at h hrun
    · cases h
    · exact ⟨m', hrun.1, h⟩

theorem reached_of_demangleType (h : demangleType cfg text = .ok t) :
    ∃ m : Machine, m.Reached cfg text.length ∧ m.stack = [t] := by
  have hload := loadType_spec cfg text
  rw [demangleType_eq_ok_iff_readType] at h
  unfold readType at h
  rcases hm : loadType text with e | m <;> rw [hm] at h hload
  · cases h
  · have hrun := Machine.Sound.run hload
    change (m.run cfg >>= Machine.single) = _ at h
    rcases hm' : m.run cfg with e | m' <;> rw [hm'] at h hrun
    · cases h
    · exact ⟨m', hrun.1, Machine.single_eq_ok_iff.mp h⟩

end

/-! ### Round trips -/

/-- A node on the stack is no extension of a type with generic arguments. -/
theorem SoundStack.extendsPlain {cfg : Config} {s : List Node} (h : SoundStack cfg s) :
    ∀ n ∈ s, n.ExtendsPlain := by
  induction h with
  | nil => exact nofun
  | node hn _ ih =>
    exact List.forall_mem_cons.mpr ⟨.of_nominals hn.grammatical.root hn.onStack.extended, ih⟩
  | typeMangling _ _ _ _ _ ih => exact List.forall_mem_cons.mpr ⟨nofun, ih⟩

theorem Machine.Reached.extendsPlain {cfg : Config} {total : Nat} {m : Machine}
    (h : m.Reached cfg total) :
    ∀ n ∈ m.stack, n.ExtendsPlain := by
  cases h with
  | sound h => exact h.stack.extendsPlain
  | suffixed t h hrest => exact List.forall_mem_cons.mpr ⟨nofun, h.stack.extendsPlain⟩

/-- What a type wraps is no extension. -/
theorem Node.ExtendsPlain.unwrapped {cfg : Config} {n : Node} (h : n.ExtendsPlain)
    (hn : n.Rule cfg) :
    n.unwrapped.ExtendsPlain := by
  by_cases hk : n.kind = .type
  · obtain ⟨t, ht, rfl⟩ := hn.eq_type hk
    have htypes : Kind.extensionDecl ∉ Kind.types := by decide
    intro hext
    change t.kind = .extensionDecl at hext
    rw [hext] at ht
    exact absurd ht htypes
  · rwa [Node.unwrapped_of_ne hk]

/-- A tree that has been read, with all generic arguments spelled and no name that there is no room
for, is read again from its own symbol. The same holds for the bare name of a type. -/
theorem roundTrip_of_regular (text : Text) (t : Node)
    (hregular : ∀ n ∈ t.walk, n.Regular ∧ n.HasRoom) :
    (demangle {} text = .ok t → ∃ u, mangle {} t = .ok u ∧ demangle {} u = .ok t) ∧
      (demangleType {} text = .ok t → ∃ u, mangle {} t = .ok u ∧ demangleType {} u = .ok t) := by
  have hall : t.All fun n => n.Regular ∧ n.HasRoom := Node.All.iff_walk.mpr hregular
  -- Regular nodes are readable, and names that have room are spelled.
  have hready : ∀ n : Node, n.Grammatical {} → n.ExtendsPlain →
    n.All (fun n => n.Regular ∧ n.HasRoom) → Readable n ∧ n.All (Node.Spelled True {}) := by
    intro n hn hextends hall
    refine ⟨Node.Regular.readable n.size n (Nat.le_refl _) hn (hall.mono fun _ h => h.1) hextends,
      ?_⟩
    exact (hn.and hall).mono fun _ h => h.1.spelled rfl h.2.2
  constructor
  · intro h
    obtain ⟨m, hm, hsymbol⟩ := reached_of_demangle h
    obtain ⟨hne, rfl⟩ := Machine.symbol_eq_ok_iff.mp hsymbol
    have hnodes : ∀ n ∈ m.stack, Readable n.unwrapped ∧ n.unwrapped.All (Node.Spelled True {}) := by
      intro n hn
      have hmade := hm.made n hn
      refine hready _ hmade.grammatical_unwrapped
        ((hm.extendsPlain n hn).unwrapped hmade.grammatical.root) ?_
      exact hall.children _ (List.mem_map_of_mem (List.mem_reverse.mpr hn))
    have hback : ReadsBack True {} (demangle {}) _ := hm.readsBack_symbol Config.usual_default hne
      (fun n hn => (hnodes n hn).1) fun n hn => (hnodes n hn).2
    exact hback.resolve_right fun h => h.1 trivial
  · intro h
    obtain ⟨m, hm, hstack⟩ := reached_of_demangleType h
    have hmem : t ∈ m.stack := by simp [hstack]
    obtain ⟨hreadable, hspelled⟩ :=
      hready t (hm.made t hmem).grammatical (hm.extendsPlain t hmem) hall
    have hback : ReadsBack True {} (demangleType {}) t :=
      hm.readsBack_type Config.usual_default hstack hreadable hspelled
    exact hback.resolve_right fun h => h.1 trivial

/-- A structure of the standard library. -/
private def standardType (name : String) : Node :=
  .typeOf (.mk .structType .none [.moduleName Standard.moduleText, .identifier name.text])

/-- A structure of a module. -/
private def generic : Node := .mk .structType .none [.moduleName ['a'], .identifier ['b']]

private def genericOfInt : Node :=
  .mk .boundGenericStructure .none [.typeOf generic, .mk .typeList .none [standardType "Int"]]

/-- The type `b<Int>.c<Bool>`. -/
def memberOfBound : Node :=
  .mk .boundGenericStructure .none
    [.typeOf (.mk .structType .none [genericOfInt, .identifier ['c']]),
     .mk .typeList .none [standardType "Bool"]]

/-- Only the last arguments are written for a type that arguments have been applied to twice. -/
example :
    mangle {}
  (.mk .boundGenericStructure .none
    [genericOfInt.typeOf, .mk .typeList .none [standardType "Bool"]])
    = .ok "1a1bVySbG".text := by decide +kernel

theorem roundTrip_of_regular_memberOfBound :
    (demangle {} "$s1a1bV1cVySi_SbG".text = .ok (.mk .global .none [memberOfBound]) ∧
      ∃ u, mangle {} (.mk .global .none [memberOfBound]) = .ok u ∧
        demangle {} u = .ok (.mk .global .none [memberOfBound])) ∧
    demangleType {} "1a1bV1cVySi_SbG".text = .ok memberOfBound.typeOf ∧
      ∃ u, mangle {} memberOfBound.typeOf = .ok u ∧
      demangleType {} u = .ok memberOfBound.typeOf := by
  have hsymbol : demangle {} "$s1a1bV1cVySi_SbG".text =
      .ok (.mk .global .none [memberOfBound]) := by
    decide +kernel
  have htype : demangleType {} "1a1bV1cVySi_SbG".text = .ok memberOfBound.typeOf := by
    decide +kernel
  have hregular : ∀ t ∈ [Node.mk .global .none [memberOfBound], memberOfBound.typeOf], ∀ n ∈ t.walk,
      n.Regular ∧ n.HasRoom := by
    have hchecked : ∀ t ∈ [Node.mk .global .none [memberOfBound], memberOfBound.typeOf],
        t.All fun n =>
        n.Regular ∧ n.kind ≠ .builtinTypeName ∧
          ∀ t, n.payload = .text t → t.NoDigitFirst ∧ t.NoSurrogates := by decide +kernel
    intro t ht n hn
    obtain ⟨hregular, hbuiltin, hname⟩ := Node.All.iff_walk.mp (hchecked t ht) n hn
    exact ⟨hregular, fun _ t ht => (hname t ht).2, fun _ t ht _ => (hname t ht).1,
      fun hk => absurd hk hbuiltin⟩
  constructor
  · exact ⟨hsymbol, (roundTrip_of_regular _ _ (hregular _ (by simp))).1 hsymbol⟩
  · exact ⟨htype, (roundTrip_of_regular _ _ (hregular _ (by simp))).2 htype⟩

/-- Whatever is written for a tree that has been read means the tree, if its generic arguments stand
where they are written and punycode keeps its names. -/
theorem demangle_of_mangle (text u : Text) (t : Node) (h : demangle {} text = .ok t)
    (hreadable : ∀ c ∈ t.children, Readable c) (hkept : ∀ n ∈ t.walk, n.Kept)
    (hu : mangle {} t = .ok u) :
    demangle {} u = .ok t := by
  have hall : t.All Node.Kept := Node.All.iff_walk.mpr hkept
  obtain ⟨m, hm, hsymbol⟩ := reached_of_demangle h
  obtain ⟨hne, rfl⟩ := Machine.symbol_eq_ok_iff.mp hsymbol
  have hback : ReadsBack False {} (demangle {}) _ := hm.readsBack_symbol Config.usual_default hne
    (fun n hn => hreadable _ (List.mem_map_of_mem (List.mem_reverse.mpr hn))) fun n hn =>
      (hall.children _ (List.mem_map_of_mem (List.mem_reverse.mpr hn))).mono fun _ h => .of_kept h
  rcases hback with ⟨u', hu', hread⟩ | ⟨-, e, he⟩
  · rw [hu] at hu'
    cases hu'
    exact hread
  · rw [hu] at he
    cases he

/-- For a nominal type of no certain kind, the arguments of its context are not written. -/
example : mangle {} (.mk .otherNominalType .none [genericOfInt, .identifier ['c']]) =
    .ok "1a1bV1cXYG".text := by
  decide +kernel

/-- The function `x()` in a context. -/
private def functionIn (context : Node) : Node :=
  .mk .functionDecl .none [context, .identifier ['x'], .typeOf (.mk .functionType .none
    [.mk .argumentTuple (.index 0) [.typeOf (.mk .tuple .none [])],
     .mk .returnType .none [.typeOf (.mk .tuple .none [])]])]

/-- The type alias `c<UnicodeScalar>` in the function `x<Bool>()` of `b<Int>`. -/
def localAlias : Node :=
  .mk .boundGenericTypeAlias .none
    [.typeOf (.mk .typeAlias .none
      [.mk .boundGenericFunction .none
        [functionIn genericOfInt, .mk .typeList .none [standardType "Bool"]],
       .identifier ['c']]),
     .mk .typeList .none [standardType "UnicodeScalar"]]

/-- The arguments of all contexts are wanted for a type alias, also those of a function. -/
theorem localAlias_readable : Readable localAlias := by
  have hchain : ArgumentChain false localAlias
    (.mk .typeAlias .none [functionIn generic, .identifier ['c']])
      [[standardType "UnicodeScalar"], [standardType "Bool"], [standardType "Int"]] :=
    .bound rfl (.boundFunction (.inl rfl) (.bound rfl (.stop rfl rfl nofun nofun)))
  refine .applied (by decide) (by decide) rfl hchain (fun c hc => ?_) fun l hl a ha => ?_
  · have hbare : ∀ c ∈ [functionIn generic, .identifier ['c']], c.All Node.Bare := by decide +kernel
    exact .of_all_bare (hbare c hc)
  · have hbare :
      ∀ l ∈ [[standardType "UnicodeScalar"], [standardType "Bool"], [standardType "Int"]],
        ∀ a ∈ l, a.All Node.Bare := by decide +kernel
    exact .of_all_bare (hbare l hl a ha)

theorem demangle_of_mangle_localAlias :
    demangle {} "$s1a1bV1xyyF1caySi_Sb_ScG".text = .ok (.mk .global .none [localAlias]) ∧
      ∃ u, mangle {} (.mk .global .none [localAlias]) = .ok u ∧
        demangle {} u = .ok (.mk .global .none [localAlias]) := by
  have hread : demangle {} "$s1a1bV1xyyF1caySi_Sb_ScG".text =
      .ok (.mk .global .none [localAlias]) := by
    decide +kernel
  have hwritten : mangle {} (.mk .global .none [localAlias]) =
      .ok "$s1a1bV1xyyF1caySi_Sb_ScG".text := by
    decide +kernel
  have hkept : (Node.mk .global .none [localAlias]).All Node.Kept := by decide +kernel
  refine ⟨hread, _, hwritten,
    demangle_of_mangle _ _ _ hread (fun c hc => ?_) (Node.All.iff_walk.mp hkept) hwritten⟩
  rw [List.mem_singleton.mp hc]
  exact localAlias_readable

end SwiftABI
