/-
  What every step of the reader keeps.

  A machine is `Sound` if its offset tells how much of the text has been read, if all nodes on its
  stack obey the grammar and lie there as they can (`SoundStack`), and if all entries of its table
  are such nodes. `Preserves` says of a step that it keeps this and gives a result with some
  property, or ends in a `Fair` complaint: one whose offset lies in the text, and which calls no
  entry of the table unknown that is there.

  There is one rule for each elementary step, and steps are put together along a sequence
  (`Preserves.bind`).
-/
import SwiftABI.Proofs.Symbol.Grammar
import SwiftABI.Proofs.Symbol.Substitution
import SwiftABI.Proofs.Text.Pieces
import SwiftABI.Symbol.Demangle

namespace SwiftABI

/-- The complaint is about a place in the text, which has `total` characters. An entry of the table
that is called unknown is beyond its end. -/
structure Malformed.Fair (total : Nat) (e : Malformed) : Prop where
  offset : e.offset ≤ total
  unknown (u : UnknownSubstitution) (h : e.complaint = .unknownSubstitution u) :
    (u.count : Int) ≤ u.index

/-- The node obeys the grammar, and can lie on the stack. -/
structure Node.Sound (cfg : Config) (n : Node) : Prop where
  grammatical : n.Grammatical cfg
  onStack : n.OnStack

/-- The node obeys the grammar, and some operator makes it. -/
structure Node.Made (cfg : Config) (n : Node) : Prop where
  grammatical : n.Grammatical cfg
  kind : n.kind ∈ Kind.stackable ++ [.typeMangling, .suffix]

theorem Node.Sound.made {cfg : Config} {n : Node} (h : n.Sound cfg) : n.Made cfg :=
  ⟨h.grammatical, List.mem_append_left _ h.onStack.kind⟩

/-- All nodes of the stack are sound, or types with their labels. If such a type has none, the node
below it is no empty list, which would have been taken for them. -/
inductive SoundStack (cfg : Config) : List Node → Prop where
  | nil : SoundStack cfg []
  | node {n : Node} {s : List Node} (hn : n.Sound cfg) (hs : SoundStack cfg s) :
    SoundStack cfg (n :: s)
  | typeMangling {labels : Option Node} {t : Node} {s : List Node} (ht : t.kind = .type)
    (hlabels : LabelsFit labels t) (hbelow : ∀ c ∈ labels.toList ++ [t], c.Grammatical cfg)
    (hapart : labels = none → ∀ n, s.head? = some n → n.kind ≠ .emptyList) (hs : SoundStack cfg s) :
    SoundStack cfg (.mk .typeMangling .none (labels.toList ++ [t]) :: s)

/-- The complaint is not about the table. -/
def Complaint.isPlain : Complaint → Bool
  | .unknownSubstitution _ => false
  | _ => true

/-- The machine reads a text of `total` characters, and all its nodes are sound. -/
structure Machine.Sound (cfg : Config) (total : Nat) (m : Machine) : Prop where
  offset : m.offset + m.rest.length = total
  stack : SoundStack cfg m.stack
  table (n : Node) (h : n ∈ m.table.nodes) : n.Sound cfg

/-- The steps keep a machine sound, never go back in the text and give a result with the property,
or end in a fair complaint. -/
def Preserves {α : Type} (cfg : Config) (x : Reading α) (p : α → Prop) : Prop :=
  ∀ total m, m.Sound cfg total →
    match x m with
    | .ok (a, m') => p a ∧ m'.Sound cfg total ∧ m'.rest.length ≤ m.rest.length
    | .error e => e.Fair total

/-! ### Nodes on the stack -/

namespace Node

/-- Most kinds of nodes can lie on the stack. -/
theorem onStack_of_mem {n : Node} (h : n.kind ∈ Kind.stackable)
    (hk : n.kind ≠ .moduleName ∧ n.kind ≠ .extensionDecl) : n.OnStack where
  kind := h
  module t cs hn := absurd (by rw [hn]; rfl) hk.1
  extended p m e hn := absurd (by rw [hn]; rfl) hk.2

/-- A node of such a kind is sound if the grammar allows it. -/
theorem Sound.of_rule {cfg : Config} {k : Kind} {p : Payload} {cs : List Node}
    (hk : k ∈ Kind.stackable ∧ k ≠ .moduleName ∧ k ≠ .extensionDecl) (h : (Node.mk k p cs).Rule cfg)
    (hbelow : ∀ c ∈ cs, c.Grammatical cfg) : (Node.mk k p cs).Sound cfg :=
  ⟨.mk h hbelow, onStack_of_mem hk.1 hk.2⟩

theorem Sound.of_type {cfg : Config} {n : Node} (h : n.Grammatical cfg) (hk : n.kind = .type) :
    n.Sound cfg :=
  ⟨h, onStack_of_mem (by rw [hk]; decide) (by rw [hk]; decide)⟩

/-- What a type wraps obeys the grammar, and is one of the types. -/
theorem Sound.unwrapped {cfg : Config} {n : Node} (h : n.Sound cfg) (hk : n.kind = .type) :
    n.unwrapped.Grammatical cfg ∧ n.unwrapped.kind ∈ Kind.types ∧ n = n.unwrapped.typeOf := by
  obtain ⟨t, ht, rfl⟩ := h.grammatical.root.eq_type hk
  exact ⟨h.grammatical.children t (List.mem_singleton_self t), ht, rfl⟩

end Node

namespace SoundStack

variable {cfg : Config} {n : Node} {s : List Node}

theorem tail (h : SoundStack cfg (n :: s)) : SoundStack cfg s := by
  cases h with
  | node _ hs => exact hs
  | typeMangling _ _ _ _ hs => exact hs

/-- Only types with their labels are more than sound. -/
theorem head (h : SoundStack cfg (n :: s)) (hk : n.kind ≠ .typeMangling) : n.Sound cfg := by
  cases h with
  | node hn _ => exact hn
  | typeMangling => exact absurd rfl hk

theorem made (h : SoundStack cfg s) : ∀ n ∈ s, n.Made cfg := by
  induction h with
  | nil => exact fun _ hn => absurd hn List.not_mem_nil
  | node hn _ ih => exact List.forall_mem_cons.mpr ⟨hn.made, ih⟩
  | typeMangling ht hlabels hbelow _ _ ih =>
    refine List.forall_mem_cons.mpr ⟨⟨.mk (.typeMangling ht hlabels) hbelow, ?_⟩, ih⟩
    show Kind.typeMangling ∈ _
    decide

/-- Copies of a sound node can be put on the stack. -/
theorem copies (hn : n.Sound cfg) (h : SoundStack cfg s) (count : Nat) :
    SoundStack cfg (List.replicate count n ++ s) := by
  induction count with
  | zero => exact h
  | succ count ih => exact .node hn ih

end SoundStack

namespace Preserves

variable {α β : Type} {cfg : Config} {x : Reading α} {f : α → Reading β} {p p' : α → Prop}
  {q : β → Prop}

/-! ### Sequences of steps -/

theorem pure {a : α} (h : p a) :
    Preserves cfg (Pure.pure a) p := fun _ _ hm => ⟨h, hm, Nat.le_refl _⟩

/-- The steps that follow may rest on how the first ones have ended. -/
theorem bind_of_ok (hx : Preserves cfg x p)
    (hf : ∀ m a m', x m = .ok (a, m') → p a → ∀ total, m'.Sound cfg total →
      match f a m' with
      | .ok (b, m'') => q b ∧ m''.Sound cfg total ∧ m''.rest.length ≤ m'.rest.length
      | .error e => e.Fair total) : Preserves cfg (x >>= f) q := by
  intro total m hm
  have hresult := hx total m hm
  show match (x m >>= fun r => f r.1 r.2 : Except Malformed (β × Machine)) with
    | .ok (a, m') => q a ∧ m'.Sound cfg total ∧ m'.rest.length ≤ m.rest.length
    | .error e => e.Fair total
  rcases hout : x m with e | ⟨a, m'⟩ <;> rw [hout] at hresult
  · exact hresult
  · obtain ⟨ha, hm', hle⟩ := hresult
    have hresult := hf m a m' hout ha total hm'
    show match f a m' with
      | .ok (b, m'') => q b ∧ m''.Sound cfg total ∧ m''.rest.length ≤ m.rest.length
      | .error e => e.Fair total
    rcases hout' : f a m' with e | ⟨b, m''⟩ <;> rw [hout'] at hresult
    · exact hresult
    · exact ⟨hresult.1, hresult.2.1, Nat.le_trans hresult.2.2 hle⟩

theorem bind (hx : Preserves cfg x p) (hf : ∀ a, p a → Preserves cfg (f a) q) :
    Preserves cfg (x >>= f) q :=
  hx.bind_of_ok fun _ a m' _ ha total hm' => hf a ha total m' hm'

/-- More may be known of a result than is needed. -/
theorem mono (hx : Preserves cfg x p) (h : ∀ a, p a → p' a) : Preserves cfg x p' := by
  intro total m hm
  have hresult := hx total m hm
  rcases hout : x m with e | ⟨a, m'⟩ <;> rw [hout] at hresult
  · exact hresult
  · exact ⟨h a hresult.1, hresult.2⟩

theorem map {g : α → β} (hx : Preserves cfg x p) (h : ∀ a, p a → q (g a)) :
    Preserves cfg (do return g (← x)) q := hx.bind fun a ha => pure (h a ha)

theorem discard (hx : Preserves cfg x p) : Preserves cfg (discard x) fun _ => True := by
  show Preserves cfg (x >>= fun _ => Pure.pure ()) _
  exact hx.bind fun _ _ => pure trivial

/-- Two branches can go on with the same steps. -/
theorem branch {b : Bool} {y : Reading α} (hx : b = true → Preserves cfg x p)
    (hy : b = false → Preserves cfg y p)
    (hf : ∀ a, p a → Preserves cfg (f a) q) : Preserves cfg (if b then x >>= f else y >>= f) q := by
  cases b with
  | true => exact (hx rfl).bind hf
  | false => exact (hy rfl).bind hf

/-- A complaint that calls an entry of the table unknown is fair if it is. -/
theorem unknown {u : UnknownSubstitution} (h : (u.count : Int) ≤ u.index) :
    Preserves cfg (Reading.fail (.unknownSubstitution u)) p := by
  intro total m hm
  have hoffset := hm.offset
  refine ⟨by show m.offset ≤ total; omega, fun v hv => ?_⟩
  cases hv
  exact h

/-- All other complaints are fair. -/
theorem fail {c : Complaint} (h : c.isPlain = true) : Preserves cfg (Reading.fail c) p := by
  intro total m hm
  have hoffset := hm.offset
  refine ⟨by show m.offset ≤ total; omega, fun u hu => ?_⟩
  change c = _ at hu
  rw [hu] at h
  cases h

theorem require {a? : Option α} {c : Complaint} (h : c.isPlain = true)
    (ha : ∀ a, a? = some a → p a) : Preserves cfg (Reading.require a? c) p := by
  cases a? with
  | none => exact fail h
  | some a => exact pure (ha a rfl)

theorem check {b : Bool} {c : Complaint} (h : c.isPlain = true) :
    Preserves cfg (Reading.check b c) fun _ => b = true := by
  cases b with
  | false => exact fail h
  | true => exact pure rfl

/-- Looking at the machine. -/
theorem get : Preserves cfg (MonadState.get : Reading Machine) fun m =>
      ∃ total, m.Sound cfg total :=
  fun total _ hm => ⟨⟨total, hm⟩, hm, Nat.le_refl _⟩

/-- Steps for each element of a list. -/
theorem mapM {γ : Type} {g : γ → Reading α} {l : List γ} (h : ∀ c ∈ l, Preserves cfg (g c) p) :
    Preserves cfg (l.mapM g) fun as => ∀ a ∈ as, p a := by
  induction l with
  | nil => exact pure nofun
  | cons c l ih =>
    rw [List.mapM_cons]
    refine (h c List.mem_cons_self).bind fun a ha => ?_
    refine (ih fun d hd => h d (List.mem_cons_of_mem _ hd)).bind fun as has => ?_
    exact pure (List.forall_mem_cons.mpr ⟨ha, has⟩)

/-! ### The text -/

theorem peek? : Preserves cfg Reading.peek? fun _ => True := fun _ _ hm =>
      ⟨trivial, hm, Nat.le_refl _⟩

theorem advance (n : Nat) : Preserves cfg (Reading.advance n) fun _ => True := by
  intro total m hm
  have hoffset := hm.offset
  have hdrop := m.rest.length_drop (i := n)
  refine ⟨trivial, ⟨?_, hm.stack, hm.table⟩, ?_⟩
  · show m.offset + min n m.rest.length + (m.rest.drop n).length = total
    omega
  · show (m.rest.drop n).length ≤ m.rest.length
    omega

theorem next : Preserves cfg Reading.next fun _ => True := by
  refine peek?.bind fun c? _ => ?_
  cases c? with
  | none => exact fail rfl
  | some c => exact (advance 1).bind fun _ _ => pure trivial

theorem nextIf (c : CodePoint) : Preserves cfg (Reading.nextIf c) fun _ => True := by
  refine peek?.bind fun c? _ => ?_
  split
  · exact (advance 1).bind fun _ _ => pure trivial
  · exact pure trivial

theorem digits : Preserves cfg Reading.digits fun _ => True := by
  intro total m hm
  have hoffset := hm.offset
  have hlength := Text.length_spanDigits m.rest
  refine ⟨trivial, ⟨?_, hm.stack, hm.table⟩, ?_⟩
  · show m.offset + (Text.spanDigits m.rest).1.length + (Text.spanDigits m.rest).2.length = total
    omega
  · show (Text.spanDigits m.rest).2.length ≤ m.rest.length
    omega

theorem natural? : Preserves cfg Reading.natural? fun _ => True := digits.map fun _ _ => trivial

theorem index : Preserves cfg Reading.index fun _ => True := by
  refine (nextIf '_').bind fun isMark _ => ?_
  split
  · exact pure trivial
  · refine natural?.bind fun n? _ => ?_
    cases n? with
    | none => exact fail rfl
    | some n =>
      refine (nextIf '_').bind fun isMark _ => ?_
      split
      · exact pure trivial
      · exact fail rfl

/-! ### Nodes -/

/-- A node that is built fits its kind. -/
theorem build {k : Kind} {payload : Payload} {cs : List Node} :
    Preserves cfg (Reading.build k payload cs) fun n =>
      n = .mk k payload cs ∧ (Node.mk k payload cs).Fits := by
  unfold Reading.build
  rcases hmake : Node.make k payload cs with e | n
  · exact fail rfl
  · exact pure (Node.make_eq_ok_iff.mp hmake)

theorem node {k : Kind} {cs : List Node} :
    Preserves cfg (Reading.node k cs) fun n =>
      n = .mk k .none cs ∧ (Node.mk k .none cs).Fits := build

/-- A type wraps one of the kinds that are types. -/
theorem type {k : Kind} {cs : List Node} :
    Preserves cfg (Reading.type k cs) fun n =>
      n = .typeOf (.mk k .none cs) ∧ k ∈ Kind.types ∧ (Node.mk k .none cs).Fits := by
  refine node.bind fun n hn => node.mono fun t ht => ?_
  obtain ⟨rfl, hfits⟩ := hn
  obtain ⟨rfl, htype⟩ := ht
  obtain ⟨slot, hslot, haccepts⟩ := htype.exists_slot (List.mem_singleton_self (Node.mk k .none cs))
  rw [List.mem_singleton.mp (show slot ∈ [Slot.one Kind.types] from hslot)] at haccepts
  exact ⟨rfl, of_decide_eq_true haccepts, hfits⟩

/-- A node that the grammar allows, built from others that it allows. -/
theorem grammatical {k : Kind} {payload : Payload} {cs : List Node}
    (h : (Node.mk k payload cs).Rule cfg) (hbelow : ∀ c ∈ cs, c.Grammatical cfg) :
    Preserves cfg (Reading.build k payload cs) fun n => n = .mk k payload cs ∧ n.Grammatical cfg :=
  build.mono fun _ hn => ⟨hn.1, hn.1 ▸ .mk h hbelow⟩

/-- The same for a node that can lie on the stack. -/
theorem sound {k : Kind} {payload : Payload} {cs : List Node}
    (hk : k ∈ Kind.stackable ∧ k ≠ .moduleName ∧ k ≠ .extensionDecl)
    (h : (Node.mk k payload cs).Rule cfg) (hbelow : ∀ c ∈ cs, c.Grammatical cfg) :
    Preserves cfg (Reading.build k payload cs) fun n => n.Sound cfg :=
  build.mono fun _ hn => hn.1 ▸ .of_rule hk h hbelow

/-- The same for a type, which is one if it wraps one of the kinds that are types. -/
theorem typed {k : Kind} {cs : List Node} (h : (Node.mk k .none cs).Rule cfg)
    (hbelow : ∀ c ∈ cs, c.Grammatical cfg) :
    Preserves cfg (Reading.type k cs) fun t => t = .typeOf (.mk k .none cs) ∧ t.Sound cfg := by
  refine type.mono fun t ht => ?_
  obtain ⟨rfl, hk, -⟩ := ht
  exact ⟨rfl, .of_type (.mk (.type hk) (List.forall_mem_singleton.mpr (.mk h hbelow))) rfl⟩

theorem number {k : Kind} (hk : k ∈ [Kind.number, .index]) (i : Nat) :
    Preserves cfg (Reading.indexNode k i) fun n => n = .mk k (.index i) [] ∧ n.Grammatical cfg :=
  grammatical (.number hk i) nofun

/-! ### The stack -/

theorem push {n : Node} (h : n.Sound cfg) : Preserves cfg (Reading.push n) fun _ => True :=
  fun _ _ hm => ⟨trivial, ⟨hm.offset, .node h hm.stack, hm.table⟩, Nat.le_refl _⟩

theorem pushCopies (count : Nat) {n : Node} (h : n.Sound cfg) :
    Preserves cfg (Reading.pushCopies count n) fun _ => True :=
  fun _ _ hm => ⟨trivial, ⟨hm.offset, hm.stack.copies h count, hm.table⟩, Nat.le_refl _⟩

/-- The condition holds of the kind of a node that is popped, and the node is sound unless it is a
type with its labels. -/
private theorem popMade {b : Kind → Bool} :
    Preserves cfg (Reading.popIf b) fun n? =>
      ∀ n ∈ n?, n.Made cfg ∧ (n.kind ≠ .typeMangling → n.Sound cfg) ∧ b n.kind = true := by
  intro total m hm
  unfold Reading.popIf
  rcases hstack : m.stack with _ | ⟨n, stack⟩
  · exact ⟨nofun, hm, Nat.le_refl _⟩
  · have hsound : SoundStack cfg (n :: stack) := hstack ▸ hm.stack
    by_cases hb : b n.kind = true
    · simp only [hb, if_true]
      refine ⟨?_, ⟨hm.offset, hsound.tail, hm.table⟩, Nat.le_refl _⟩
      rintro _ ⟨⟩
      exact ⟨hsound.made n List.mem_cons_self, hsound.head, hb⟩
    · simp only [hb]
      exact ⟨nofun, hm, Nat.le_refl _⟩

/-- No operator looks for a type with its labels. -/
theorem popIf {b : Kind → Bool} (hb : b .typeMangling = false) :
    Preserves cfg (Reading.popIf b) fun n? => ∀ n ∈ n?, n.Sound cfg ∧ b n.kind = true := by
  refine popMade.mono fun _ h n hn => ?_
  obtain ⟨-, hsound, hpopped⟩ := h n hn
  refine ⟨hsound fun hk => ?_, hpopped⟩
  rw [hk, hb] at hpopped
  cases hpopped

theorem pop? {k : Kind} (hk : k ≠ .typeMangling) :
    Preserves cfg (Reading.pop? k) fun n? => ∀ n ∈ n?, n.Sound cfg ∧ n.kind = k :=
  (popIf (decide_eq_false hk.symm)).mono fun _ h n hn => ⟨(h n hn).1, of_decide_eq_true (h n hn).2⟩

theorem popAny? : Preserves cfg Reading.popAny? fun n? => ∀ n ∈ n?, n.Made cfg :=
  popMade.mono fun _ h n hn => (h n hn).1

theorem popped {k : Kind} :
    Preserves cfg (Reading.popped k) fun _ => True := popMade.map fun _ _ => trivial

theorem popType : Preserves cfg Reading.popType fun t => t.Sound cfg ∧ t.kind = .type :=
  (pop? (by decide)).bind fun _ h => require rfl h

/-- What a popped type wraps. -/
theorem popTypeInside :
    Preserves cfg Reading.popTypeInside fun t => t.Grammatical cfg ∧ t.kind ∈ Kind.types :=
  popType.map fun _ h => ⟨(h.1.unwrapped h.2).1, (h.1.unwrapped h.2).2.1⟩

theorem popDeclName :
    Preserves cfg Reading.popDeclName fun n => n.Sound cfg ∧ n.kind.isDeclName = true :=
  (popIf rfl).bind fun _ h => require rfl h

theorem popEntity : Preserves cfg Reading.popEntity fun n => n.Sound cfg ∧ n.kind.isEntity = true :=
  (popIf rfl).bind fun _ h => require rfl h

/-! ### The table -/

theorem register {n : Node} (h : n.Sound cfg) :
    Preserves cfg (Reading.register n) fun _ => True := by
  intro total m hm
  have hoffset := hm.offset
  unfold Reading.register
  rcases hregister : m.table.register n false with e | table
  · exact ⟨by show m.offset ≤ total; omega, nofun⟩
  · refine ⟨trivial, ⟨hm.offset, hm.stack, fun c hc => ?_⟩, Nat.le_refl _⟩
    rw [SubstitutionTable.nodes_register hregister] at hc
    rcases List.mem_append.mp hc with hc | hc
    · exact hm.table c hc
    · rw [List.mem_singleton.mp hc]
      exact h

/-- An entry with a number that is not negative is there, or beyond the end of the table. -/
theorem resolve {i : Int} (h : 0 ≤ i) : Preserves cfg (Reading.resolve i) fun n => n.Sound cfg := by
  refine get.bind fun m ⟨_, hm⟩ => ?_
  rcases m.table.node?_cases h with ⟨n, hn, hnode⟩ | ⟨hlength, hnode⟩ <;> rw [hnode]
  · exact pure (hm.table n (List.mem_of_getElem? hn))
  · exact unknown hlength

end Preserves

end SwiftABI
