/-
  What a reader makes of a symbol while it is being written.

  A symbol that is written is in step with the machine that reads what has been written so far
  (`InStep`): the words are the same, and the two tables name the same things by the same numbers.
  The stack of that machine, and what it has registered beyond the writer, is a `View`.
  `Turns x v q` says that the steps `x` keep the symbol in step and turn the view `v` into `q`, or
  else fail. Not every node can be written; strict work is work that does not fail.
-/
import SwiftABI.Proofs.Symbol.Merging
import SwiftABI.Proofs.Symbol.Substitution
import SwiftABI.Symbol.Writing.Name

namespace SwiftABI

namespace SubstitutionKey

/-- The node that the reader registers where the writer registers something under the key. -/
def entry : SubstitutionKey → Node
  | .name t => .identifier t
  | .tree n => n.typeOf

end SubstitutionKey

/-! ### Running the writer -/

namespace Writing

variable {α β : Type}

/-- The result of some steps of writing that begin with a symbol, and the symbol after them. -/
def outcome (x : Writing α) (d : SymbolBuilder) : Except Fault α × SymbolBuilder := x.run d

theorem outcome_pure (a : α) (d : SymbolBuilder) :
    (pure a : Writing α).outcome d = (.ok a, d) := rfl

/-- A sequence goes on with the result of its first step, or ends with its fault. -/
theorem outcome_bind (x : Writing α) (f : α → Writing β) (d : SymbolBuilder) :
    (x >>= f).outcome d =
      match x.outcome d with
      | (.ok a, d') => (f a).outcome d'
      | (.error e, d') => (.error e, d') := by
  show (ExceptT.bindCont f (x.outcome d).1 : StateM SymbolBuilder _) (x.outcome d).2 = _
  rcases x.outcome d with ⟨_ | _, d'⟩ <;> rfl

/-- If a sequence goes well, all of its steps do. -/
theorem outcome_bind_ok {x : Writing α} {f : α → Writing β} {d d' : SymbolBuilder} {b : β}
    (h : (x >>= f).outcome d = (.ok b, d')) :
    ∃ a d₁, x.outcome d = (.ok a, d₁) ∧ (f a).outcome d₁ = (.ok b, d') := by
  rw [outcome_bind] at h
  rcases hx : x.outcome d with ⟨_ | a, d₁⟩
  · rw [hx] at h
    cases h
  · rw [hx] at h
    exact ⟨a, d₁, rfl, h⟩

/-- To drop the answer of some steps is to go on without it. -/
theorem discard_eq_bind (x : Writing α) :
    (Functor.discard x : Writing Unit) = x >>= fun _ => pure () := by
  unfold Functor.discard
  rw [map_const]
  exact (bind_pure_comp _ x).symm

/-- A node that has no letter is looked for in the table. -/
theorem outcome_tryReference {cfg : Config} {n : Node} {byName : Bool} {key : SubstitutionKey}
    (d : SymbolBuilder)
    (hkey : SubstitutionKey.ofNode n byName = .ok key) (hcode : Standard.code? n = none) :
    (tryReference cfg n byName).outcome d =
      match d.table.find? key with
      | none => (.ok false, d)
      | some i =>
        ((if i < 26 then substitute cfg (Text.upperLetter i) .table
          else emit ('A' :: Code.index (i - 26 : Nat))) >>= fun _ => pure true).outcome d := by
  have hlookup : d.table.lookup n byName = .ok (d.table.find? key) := by
    rw [SubstitutionTable.lookup_eq_map, hkey]
    rfl
  unfold tryReference tryStandard
  rw [hcode]
  show (lift (Fault.inTree (d.table.lookup n byName)) >>= _ : Writing Bool).outcome d = _
  rw [hlookup]
  rcases d.table.find? key with _ | i
  · rfl
  · show (if i < 26 then _ else _ : Writing Bool).outcome d = _
    by_cases hi : i < 26
    · simp only [if_pos hi]
    · simp only [if_neg hi]

/-- What spelling a name leads to is up to its encoded form. -/
theorem outcome_spellName {cfg : Config} {n : Node} {name : Text} {d : SymbolBuilder} :
    (spellName cfg n name).outcome d
      = (match (Identifier.encode cfg name d.words).1 with
        | .ok t => emit t
        | .error r => refuse n r : Writing Unit).outcome
          { d with words := (Identifier.encode cfg name d.words).2 } := rfl

end Writing

/-! ### Views -/

/-- What the reader of a symbol has when it has come to the end of what has been written. -/
structure View where
  stack : List Node
  /-- What has been registered beyond what the writer has registered. -/
  ahead : List Node := []

/-- A symbol that is being written behind a prefix is in step with its reader. -/
def InStep (cfg : Config) (pre : Text) (d : SymbolBuilder) (v : View) : Prop :=
  ∃ body table entries, d.symbol = pre ++ body ∧
    Ending cfg {} pre.length body d.merging ⟨v.stack, table, d.words⟩ ∧ d.table.Indexes entries ∧
    table.nodes = entries.map (fun entry => entry.2.entry) ++ v.ahead ∧
    (d.words.length : Int) ≤ cfg.maxWords

/-- The steps keep a symbol in step and turn one view into another, unless they fail. If `strict`
holds, they do not fail. -/
def Turns {α : Type} (strict : Prop) (cfg : Config) (pre : Text) (x : Writing α) (v : View)
    (q : α → View) :
    Prop :=
  ∀ d, InStep cfg pre d v → (∃ a d', x.outcome d = (.ok a, d') ∧ InStep cfg pre d' (q a)) ∨
    ¬strict ∧ ∃ e d', x.outcome d = (.error e, d')

/-! ### Operators -/

/-- A text is read as operators that turn one stack into another and register some nodes. -/
def Operates (cfg : Config) (w : Text) (s s' : List Node) (new : List Node := []) : Prop :=
  ∀ table words, ∃ table' : SubstitutionTable,
    Parses cfg w ⟨s, table, words⟩ ⟨s', table', words⟩ ∧ table'.nodes = table.nodes ++ new

namespace Operates

variable {cfg : Config} {w : Text} {ch : CodePoint} {s s' : List Node} {n : Node}

theorem trans {w' : Text} {s'' new new' : List Node} (h : Operates cfg w s s' new)
    (h' : Operates cfg w' s' s'' new') : Operates cfg (w ++ w') s s'' (new ++ new') := by
  intro table words
  obtain ⟨table', hparses, hnodes⟩ := h table words
  obtain ⟨table'', hparses', hnodes'⟩ := h' table' words
  exact ⟨table'', hparses.trans hparses', by rw [hnodes', hnodes, List.append_assoc]⟩

/-- An operator that leaves the table alone. -/
theorem of_reads (hch : Text.isDigit ch = false)
    (h : ∀ table words, Reads (Reading.operator cfg ch) w ⟨s, table, words⟩ n ⟨s', table, words⟩) :
    Operates cfg (ch :: w) s (n :: s') := fun table words =>
  ⟨table, .of_operator hch (h table words), (List.append_nil _).symm⟩

/-- An operator that registers the node that it makes. -/
theorem of_reads_register (hch : Text.isDigit ch = false)
    (h : ∀ table words, Reads (Reading.operator cfg ch) w ⟨s, table, words⟩ n
      ⟨s', table.insert n (.tree n), words⟩) :
    Operates cfg (ch :: w) s (n :: s') [n] := fun table words =>
  ⟨_, .of_operator hch (h table words), table.nodes_insert n (.tree n)⟩

end Operates

namespace Turns

variable {strict : Prop} {cfg : Config} {pre : Text} {α β : Type} {v v' : View} {q : α → View}
  {r : β → View} {s s' new : List Node} {w : Text}

/-! ### Sequences of steps -/

theorem pure {a : α} (h : q a = v) : Turns strict cfg pre (Pure.pure a) v q := by
  intro d hd
  refine .inl ⟨a, d, Writing.outcome_pure a d, ?_⟩
  rwa [h]

theorem bind {x : Writing α} {f : α → Writing β} (hx : Turns strict cfg pre x v q)
    (hf : ∀ a, Turns strict cfg pre (f a) (q a) r) : Turns strict cfg pre (x >>= f) v r := by
  intro d hd
  rw [Writing.outcome_bind]
  rcases hx d hd with ⟨a, d₁, hfirst, hd₁⟩ | ⟨hstrict, e, d₁, hfault⟩
  · rw [hfirst]
    exact hf a d₁ hd₁
  · rw [hfault]
    exact .inr ⟨hstrict, e, d₁, rfl⟩

/-- Steps that fail are not for strict work. -/
theorem throw (hstrict : ¬strict) (e : Fault) :
    Turns strict cfg pre (MonadExcept.throw e : Writing α) v q := fun d _ =>
      .inr ⟨hstrict, e, d, rfl⟩

theorem refuse (hstrict : ¬strict) (n : Node) (e : Refusal) :
    Turns strict cfg pre (Writing.refuse n e : Writing α) v q := throw hstrict _

/-- A result that is there is handed on. -/
theorem lift_bind {e : Except Fault α} {a : α} {f : α → Writing β} (he : e = .ok a)
    (hf : Turns strict cfg pre (f a) v r) : Turns strict cfg pre (Writing.lift e >>= f) v r := by
  subst he
  exact hf

/-! ### Writing -/

/-- Some operators are read as they are written. -/
theorem emit (h : Operates cfg w s s' new) (hne : w ≠ []) :
    Turns strict cfg pre (Writing.emit w) ⟨s, []⟩ fun _ => ⟨s', new⟩ := by
  rintro d ⟨body, table, entries, hsymbol, hending, hindexes, htable, hwords⟩
  obtain ⟨table', hparses, hnodes⟩ := h table d.words
  refine .inl ⟨(), { d with symbol := d.symbol ++ w }, rfl, body ++ w, table', entries, ?_,
    hending.append hparses hne, hindexes, ?_, hwords⟩
  · show d.symbol ++ w = _
    rw [hsymbol, List.append_assoc]
  · rw [hnodes, htable, List.append_nil]

/-- What the reader has registered is registered by the writer, too. -/
theorem register {n : Node} {byName : Bool} {key : SubstitutionKey}
    (hkey : SubstitutionKey.ofNode n byName = .ok key) (hk : n.kind.isSubstitutable = true) :
    Turns strict cfg pre (Writing.register n byName) ⟨s, [key.entry]⟩ fun _ => ⟨s, []⟩ := by
  rintro d ⟨body, table, entries, hsymbol, hending, hindexes, htable, hwords⟩
  have hregister : d.table.register n byName = .ok (d.table.insert n key) :=
    SubstitutionTable.register_of_key hk hkey
  have hok : (Writing.register n byName).outcome d =
      (.ok (), { d with table := d.table.insert n key }) := by
    show (Writing.lift (Fault.inTree (d.table.register n byName)) >>= _ : Writing Unit).outcome d =
      _
    rw [hregister]
    rfl
  refine .inl ⟨(), _, hok, body, table, _, hsymbol, hending, hindexes.insert n key, ?_, hwords⟩
  rw [htable]
  simp

/-- Characters that are written one after the other are written together. -/
theorem emit_emit {w' : Text} (h : Operates cfg (w ++ w') s s' new) (hne : w ++ w' ≠ []) :
    Turns strict cfg pre (do Writing.emit w; Writing.emit w') ⟨s, []⟩ fun _ => ⟨s', new⟩ := by
  intro d hd
  have htogether : (do Writing.emit w; Writing.emit w' : Writing Unit).outcome d
      = (Writing.emit (w ++ w')).outcome d := by
    show (Except.ok (), { d with symbol := d.symbol ++ w ++ w' })
      = (Except.ok (), { d with symbol := d.symbol ++ (w ++ w') })
    rw [List.append_assoc]
  rw [htogether]
  exact emit h hne d hd

/-! ### References -/

variable {n : Node} {letter : CodePoint}

/-- A standard type is read as it is written. -/
theorem substitute_standard (hlimit : -1 ≤ cfg.maxRepeatCount)
    (ht : Standard.type? letter = some n) :
    Turns strict cfg pre (Writing.substitute cfg letter .standard) ⟨s, []⟩ fun _ =>
      ⟨n :: s, []⟩ := by
  rintro d ⟨body, table, entries, hsymbol, hending, hindexes, htable, hwords⟩
  obtain ⟨body', hbody', hending'⟩ := hending.write_standard ht hlimit
  rw [← hsymbol] at hbody' hending'
  exact .inl ⟨(), _, rfl, body', table, entries, hbody', hending', hindexes, htable, hwords⟩

/-- Under the number of a key the reader has the entry of the key. -/
theorem node?_of_find? {d : SymbolBuilder} {table : SubstitutionTable} {key : SubstitutionKey}
    {i : Nat} {entries : List (Node × SubstitutionKey)} (hindexes : d.table.Indexes entries)
    (htable : table.nodes = entries.map fun entry => entry.2.entry)
    (hfind : d.table.find? key = some i) : table.node? i = .ok key.entry := by
  obtain ⟨m, hentry⟩ := hindexes.getElem?_of_find? hfind
  refine SubstitutionTable.node?_eq_ok ?_
  rw [htable, List.getElem?_map, hentry, Option.map_some]

/-- A reference to an entry of the table is read as the node that the reader has there. -/
theorem reference {i : Nat} {d : SymbolBuilder} {key : SubstitutionKey}
    (hlimit : -1 ≤ cfg.maxRepeatCount) (hfind : d.table.find? key = some i)
    (hd : InStep cfg pre d ⟨s, []⟩) :
    ∃ d', (if i < 26 then Writing.substitute cfg (Text.upperLetter i) .table
        else Writing.emit ('A' :: Code.index (i - 26 : Nat))).outcome d = (.ok (), d') ∧
      InStep cfg pre d' ⟨key.entry :: s, []⟩ := by
  obtain ⟨body, table, entries, hsymbol, hending, hindexes, htable, hwords⟩ := hd
  rw [List.append_nil] at htable
  have hnode : table.node? i = .ok key.entry := node?_of_find? hindexes htable hfind
  by_cases hi : i < 26
  · rw [if_pos hi]
    obtain ⟨body', hbody', hending'⟩ := hending.write_table hi hnode hlimit
    rw [← hsymbol] at hbody' hending'
    exact ⟨_, rfl, body', table, entries, hbody', hending',
      hindexes, by rw [htable, List.append_nil], hwords⟩
  · rw [if_neg hi]
    have hparses : Parses cfg ('A' :: Code.index (i - 26 : Nat)) ⟨s, table, d.words⟩
        ⟨key.entry :: s, table, d.words⟩ := .distantReference (Nat.le_of_not_lt hi) hnode
    refine ⟨_, rfl, body ++ ('A' : CodePoint) :: Code.index (i - 26 : Nat), table, entries, ?_, ?_,
      hindexes, ?_, hwords⟩
    · show d.symbol ++ _ = _
      rw [hsymbol, List.append_assoc]
    · exact hending.append hparses (List.cons_ne_nil _ _)
    · rw [htable, List.append_nil]

/-- A reference to a node is read as the node that the reader has for it. -/
theorem tryReference {byName : Bool} {key : SubstitutionKey} (hlimit : -1 ≤ cfg.maxRepeatCount)
    (hkey : SubstitutionKey.ofNode n byName = .ok key)
    (hstandard : ∀ letter, Standard.code? n = some letter → key.entry = n.unwrapped.typeOf) :
    Turns strict cfg pre (Writing.tryReference cfg n byName) ⟨s, []⟩
      fun found => ⟨if found then key.entry :: s else s, []⟩ := by
  -- What has a letter in the standard library is not looked up in the table.
  rcases hcode : Standard.code? n with _ | letter
  · intro d hd
    rw [Writing.outcome_tryReference d hkey hcode]
    rcases hfind : d.table.find? key with _ | i
    · exact .inl ⟨false, d, rfl, hd⟩
    · obtain ⟨d', hreference, hd'⟩ := reference hlimit hfind hd
      refine .inl ⟨true, d', ?_, hd'⟩
      show (_ >>= _ : Writing Bool).outcome d = _
      rw [Writing.outcome_bind, hreference]
      rfl
  · have hwritten : Turns strict cfg pre (Writing.substitute cfg letter .standard) ⟨s, []⟩
        fun _ => ⟨n.unwrapped.typeOf :: s, []⟩ :=
      substitute_standard hlimit (Standard.type?_of_code? hcode)
    have hentry : key.entry = n.unwrapped.typeOf := hstandard letter hcode
    have htry : Writing.tryReference cfg n byName
        = (Writing.substitute cfg letter .standard >>= fun _ => Pure.pure true) := by
      unfold Writing.tryReference Writing.tryStandard
      rw [hcode]
      rfl
    rw [htry]
    refine hwritten.bind fun _ => pure ?_
    rw [hentry]
    rfl

/-- What is written by reference, or else in full and registered, is read as the node that is
registered for it. -/
theorem referenceOr {byName : Bool} {key : SubstitutionKey} {write : Writing Unit}
    (hlimit : -1 ≤ cfg.maxRepeatCount) (hkey : SubstitutionKey.ofNode n byName = .ok key)
    (hk : n.kind.isSubstitutable = true)
    (hstandard : ∀ letter, Standard.code? n = some letter → key.entry = n.unwrapped.typeOf)
    (hwrite : Turns strict cfg pre write ⟨s, []⟩ fun _ => ⟨key.entry :: s, [key.entry]⟩) :
    Turns strict cfg pre (Writing.referenceOr cfg n byName write) ⟨s, []⟩
      fun _ => ⟨key.entry :: s, []⟩ := by
  refine (tryReference hlimit hkey hstandard).bind fun found => ?_
  cases found with
  | true => exact pure rfl
  | false => exact hwrite.bind fun _ => register hkey hk

end Turns

end SwiftABI
