/-
  The table of a symbol is minimal at every moment while it is written.

  A node is registered only behind a search for it that has failed, but a whole tree is written
  between the search and the registration. What is registered meanwhile is smaller than the node, so
  that its key still is new then (`Writing.grows_registered`). So the keys in the table are
  different, none of the entries is a standard type, and the words are different and within their
  limit (`SymbolBuilder.Minimal`).

  The moments of the work are the states in which it could be interrupted. An interrupted writer
  gives up where it is told to (`Writing.mangleUntil`). What it leaves is minimal, and whoever goes
  on only adds to it (`minimal_mangleUntil`). So what is in the table is found there and is not
  written again (`Writing.Sought.recalls`), and what has been written is in the table
  (`Writing.Sought.known`).
-/
import Mathlib.Data.List.Nodup
import SwiftABI.Proofs.Symbol.Written.Comparison

namespace SwiftABI

/-! ### Words -/

namespace Word

/-- Words are different, and there is room for them. -/
structure Tidy (limit : Int) (ws : List Text) : Prop where
  nodup : ws.Nodup
  length : ws.length ≤ limit.toNat

variable {limit : Int} {ws : List Text} {word : Text}

theorem prefix_remember (limit : Int) (ws : List Text) (word : Text) :
    ws <+: remember limit ws word := by
  unfold remember
  split
  · exact List.prefix_append ws [word]
  · exact List.prefix_rfl

theorem Tidy.remember (h : Tidy limit ws) (hnew : word ∉ ws) :
    Tidy limit (remember limit ws word) := by
  unfold Word.remember
  split
  · refine ⟨h.nodup.append (List.nodup_singleton word) (List.disjoint_singleton.mpr hnew), ?_⟩
    rw [List.length_append, List.length_singleton]
    omega
  · exact h

end Word

namespace Identifier

variable {cfg : Config} {limit : Int} {ws : List Text}

/-- A word is remembered only if it is none of those that are known. -/
theorem useWords_words (found : List (Nat × Text)) (h : Word.Tidy limit ws) :
    ws <+: (useWords limit found ws).2 ∧ Word.Tidy limit (useWords limit found ws).2 := by
  induction found generalizing ws with
  | nil => exact ⟨List.prefix_rfl, h⟩
  | cons first found ih =>
    obtain ⟨start, word⟩ := first
    rw [useWords]
    -- Only a word without a number is remembered, and that is a new one.
    rcases hknown : ws.idxOf? word with _ | i
    · have hnew : word ∉ ws := List.idxOf?_eq_none_iff.mp hknown
      obtain ⟨hbegins, htidy⟩ := ih (h.remember hnew)
      exact ⟨(Word.prefix_remember limit ws word).trans hbegins, htidy⟩
    · exact ih h

theorem encode_words (name : Text) (h : Word.Tidy cfg.maxWords ws) :
    ws <+: (encode cfg name ws).2 ∧ Word.Tidy cfg.maxWords (encode cfg name ws).2 := by
  unfold encode
  split
  · exact ⟨List.prefix_rfl, h⟩
  · split
    · exact ⟨List.prefix_rfl, h⟩
    · exact useWords_words _ h

end Identifier

/-! ### Keys -/

namespace Kind

/-- Is a node of this kind looked for in the table before it is written, and is it by its name? -/
def soughtByName? (k : Kind) : Option Bool :=
  if k ∈ identifierLike then some true else if k ∈ nominals ++ boundGenerics then some false
    else none

theorem soughtByName?_of_name {k : Kind} (hk : k ∈ identifierLike) :
    k.soughtByName? = some true := if_pos hk

theorem soughtByName?_of_type {k : Kind} (hk : k ∈ nominals ++ boundGenerics) :
    k.soughtByName? = some false := by
  have hnames : ∀ k ∈ nominals ++ boundGenerics, k ∉ identifierLike := by decide
  unfold soughtByName?
  rw [if_neg (hnames k hk), if_pos hk]

theorem soughtByName?_eq_some {k : Kind} {byName : Bool} (h : k.soughtByName? = some byName) :
    k ∈ identifierLike ∧ byName = true ∨ k ∈ nominals ++ boundGenerics ∧ byName = false := by
  unfold soughtByName? at h
  split at h
  · exact .inl ⟨‹_›, (Option.some.inj h).symm⟩
  split at h
  · exact .inr ⟨‹_›, (Option.some.inj h).symm⟩
  · cases h

end Kind

/-- The key of a name, or of a tree of less than the size. -/
def SubstitutionKey.Below (size : Nat) : SubstitutionKey → Prop
  | .name _ => True
  | .tree n => n.size < size

theorem SubstitutionKey.Below.mono {size size' : Nat} (hle : size ≤ size') {key : SubstitutionKey}
    (h : key.Below size) : key.Below size' := by
  cases key with
  | name t => trivial
  | tree n => exact Nat.lt_of_lt_of_le h hle

/-- A key that is not found is the one of no entry. -/
theorem SubstitutionTable.Indexes.find?_eq_none_iff {t : SubstitutionTable}
    {entries : List (Node × SubstitutionKey)} {key : SubstitutionKey} (h : t.Indexes entries) :
    t.find? key = none ↔ key ∉ entries.map Prod.snd := by
  rw [h.find?, List.findIdx?_eq_none_iff]
  simp only [List.mem_map, not_exists, not_and, decide_eq_false_iff_not]

namespace SymbolBuilder

variable {cfg : Config} {size size' : Nat} {d d' d'' : SymbolBuilder}
  {entries entries' entries'' : List (Node × SubstitutionKey)}

/-! ### Minimal tables -/

/-- The table has these entries, nodes with the keys that they are looked for by. No key is there
twice, and no standard type at all. -/
structure Minimal (cfg : Config) (d : SymbolBuilder) (entries : List (Node × SubstitutionKey)) :
    Prop where
  indexes : d.table.Indexes entries
  keyed : ∀ e ∈ entries, ∃ byName, e.1.kind.soughtByName? = some byName ∧
    SubstitutionKey.ofNode e.1 byName = .ok e.2
  distinct : (entries.map Prod.snd).Nodup
  notStandard : ∀ e ∈ entries, Standard.code? e.1 = none
  words : Word.Tidy cfg.maxWords d.words

theorem Minimal.nil (cfg : Config) : Minimal cfg {} [] :=
  ⟨.nil, nofun, List.nodup_nil, nofun, List.nodup_nil, Nat.zero_le _⟩

/-- By default there are at most 26 words. -/
example : ({} : Config).maxWords.toNat = 26 := rfl

/-- From one state to the other the table and the words have grown at their ends, and are minimal
again. The new entries are names and trees of less than the size. -/
structure Grows (cfg : Config) (size : Nat) (d : SymbolBuilder)
    (entries : List (Node × SubstitutionKey))
    (d' : SymbolBuilder) (entries' : List (Node × SubstitutionKey)) : Prop where
  minimal : d'.Minimal cfg entries'
  entries : ∃ new, entries' = entries ++ new ∧ ∀ e ∈ new, e.2.Below size
  words : d.words <+: d'.words

namespace Grows

theorem of_unchanged (h : d.Minimal cfg entries) (htable : d'.table = d.table)
    (hwords : d'.words = d.words) :
    Grows cfg size d entries d' entries where
  minimal := ⟨htable ▸ h.indexes, h.keyed, h.distinct, h.notStandard, hwords ▸ h.words⟩
  entries := ⟨[], (List.append_nil entries).symm, nofun⟩
  words := hwords ▸ List.prefix_rfl

theorem refl (h : d.Minimal cfg entries) :
    Grows cfg size d entries d entries := of_unchanged h rfl rfl

theorem trans (h : Grows cfg size d entries d' entries')
    (h' : Grows cfg size d' entries' d'' entries'') :
    Grows cfg size d entries d'' entries'' := by
  obtain ⟨new, rfl, hnew⟩ := h.entries
  obtain ⟨new', rfl, hnew'⟩ := h'.entries
  refine ⟨h'.minimal, ⟨new ++ new', List.append_assoc .., ?_⟩, h.words.trans h'.words⟩
  exact List.forall_mem_append.mpr ⟨hnew, hnew'⟩

theorem mono (hle : size ≤ size') (h : Grows cfg size d entries d' entries') :
    Grows cfg size' d entries d' entries' := by
  obtain ⟨new, hentries, hnew⟩ := h.entries
  exact ⟨h.minimal, ⟨new, hentries, fun e he => (hnew e he).mono hle⟩, h.words⟩

/-- A tree that is too large is no key of what has been added. -/
theorem not_mem {n : Node} (h : Grows cfg n.size d entries d' entries')
    (hn : SubstitutionKey.tree n ∉ entries.map Prod.snd) :
    SubstitutionKey.tree n ∉ entries'.map Prod.snd := by
  obtain ⟨new, rfl, hnew⟩ := h.entries
  rw [List.map_append, List.mem_append, not_or]
  refine ⟨hn, fun hmem => ?_⟩
  -- An entry with this key would be smaller than its own tree.
  obtain ⟨e, he, hkey⟩ := List.mem_map.mp hmem
  have hbelow := hnew e he
  rw [hkey] at hbelow
  exact Nat.lt_irrefl _ hbelow

/-- A node with a new key is added. -/
theorem insert {n : Node} {byName : Bool} {key : SubstitutionKey} (h : d.Minimal cfg entries)
    (hk : n.kind.soughtByName? = some byName) (hkey : SubstitutionKey.ofNode n byName = .ok key)
    (hbelow : key.Below size) (hcode : Standard.code? n = none)
    (hnew : key ∉ entries.map Prod.snd) :
    Grows cfg size d entries { d with table := d.table.insert n key } (entries ++ [(n, key)]) where
  minimal := by
    refine ⟨h.indexes.insert n key, ?_, ?_, ?_, h.words⟩
    · exact List.forall_mem_append.mpr ⟨h.keyed, List.forall_mem_singleton.mpr ⟨byName, hk, hkey⟩⟩
    · rw [List.map_append]
      exact h.distinct.append (List.nodup_singleton key) (List.disjoint_singleton.mpr hnew)
    · exact List.forall_mem_append.mpr ⟨h.notStandard, List.forall_mem_singleton.mpr hcode⟩
  entries := ⟨_, rfl, List.forall_mem_singleton.mpr hbelow⟩
  words := List.prefix_rfl

end Grows

end SymbolBuilder

namespace Writing

variable {α β : Type} {cfg : Config} {size : Nat} {n : Node} {byName : Bool} {d : SymbolBuilder}
  {entries : List (Node × SubstitutionKey)}

/-! ### Searching and registering -/

/-- Is there a letter or an entry that a node can be referred to by? -/
def Known (d : SymbolBuilder) (n : Node) (byName : Bool) : Prop :=
  Standard.code? n ≠ none ∨ ∃ key i, SubstitutionKey.ofNode n byName = .ok key ∧
    d.table.find? key = some i

/-- What is known is referred to, and nothing else happens. -/
theorem tryReference_known (cfg : Config) (h : Known d n byName) :
    ∃ d', (tryReference cfg n byName).outcome d = (.ok true, d') ∧ d'.table = d.table ∧
      d'.words = d.words := by
  rcases hcode : Standard.code? n with _ | letter
  · obtain ⟨key, i, hkey, hfind⟩ := h.resolve_left (absurd hcode)
    rw [outcome_tryReference d hkey hcode, hfind]
    dsimp only
    split
    · exact ⟨_, rfl, rfl, rfl⟩
    · exact ⟨_, rfl, rfl, rfl⟩
  · unfold tryReference tryStandard
    rw [hcode]
    exact ⟨_, rfl, rfl, rfl⟩

/-- What is not known is left to be written, if it has a key. -/
theorem tryReference_unknown (cfg : Config) (h : ¬Known d n byName) :
    (∃ key, SubstitutionKey.ofNode n byName = .ok key ∧ Standard.code? n = none ∧
      d.table.find? key = none ∧
      (tryReference cfg n byName).outcome d = (.ok false, d)) ∨
    ∃ e, (tryReference cfg n byName).outcome d = (.error e, d) := by
  unfold Known at h
  rw [not_or, not_not] at h
  obtain ⟨hcode, hnone⟩ := h
  rcases hkey : SubstitutionKey.ofNode n byName with e | key
  · have hlookup : d.table.lookup n byName = .error e := by
      rw [SubstitutionTable.lookup_eq_map, hkey]
      rfl
    unfold tryReference tryStandard
    rw [hcode]
    show _ ∨ ∃ e, (lift (Fault.inTree (d.table.lookup n byName)) >>= _ : Writing Bool).outcome d =
      (.error e, d)
    rw [hlookup]
    exact .inr ⟨_, rfl⟩
  · have hfind : d.table.find? key = none := by
      rw [Option.eq_none_iff_forall_ne_some]
      exact fun i hi => hnone ⟨key, i, hkey, hi⟩
    rw [outcome_tryReference d hkey hcode, hfind]
    exact .inl ⟨key, rfl, hcode, hfind, rfl⟩

/-- A node is added under its key, or it is refused. -/
theorem outcome_register {key : SubstitutionKey}
    (hkey : SubstitutionKey.ofNode n byName = .ok key) :
    (register n byName).outcome d = (.ok (), { d with table := d.table.insert n key }) ∨
      ∃ e, (register n byName).outcome d = (.error e, d) := by
  have hrun : (register n byName).outcome d
      = (lift (Fault.inTree (d.table.register n byName)) >>= fun table =>
          modify fun d => { d with table } : Writing Unit).outcome d := rfl
  rcases htable : d.table.register n byName with e | table
  · rw [hrun, htable]
    exact .inr ⟨_, rfl⟩
  · obtain ⟨key', hkey', rfl⟩ := SubstitutionTable.exists_key_of_register htable
    cases hkey.symm.trans hkey'
    rw [hrun, htable]
    exact .inl rfl

/-- Spelling a name changes the words only. -/
theorem spellName_words (cfg : Config) (n : Node) (d : SymbolBuilder) (name : Text) :
    ∃ r d', (spellName cfg n name).outcome d = (r, d') ∧ d'.table = d.table ∧
      d'.words = (Identifier.encode cfg name d.words).2 := by
  rw [outcome_spellName]
  cases (Identifier.encode cfg name d.words).1 with
  | ok t => exact ⟨_, _, rfl, rfl, rfl⟩
  | error r => exact ⟨_, _, rfl, rfl, rfl⟩

/-! ### What is added by some steps -/

/-- The steps add to a minimal table, and leave it minimal. -/
def Keeps (cfg : Config) (size : Nat) (x : Writing α) : Prop :=
  ∀ (d : SymbolBuilder) entries, d.Minimal cfg entries →
    ∃ entries', d.Grows cfg size entries (x.outcome d).2 entries'

namespace Keeps

theorem mono {size' : Nat} {x : Writing α} (hle : size ≤ size') (h : Keeps cfg size x) :
    Keeps cfg size' x := by
  intro d entries hd
  obtain ⟨entries', hgrows⟩ := h d entries hd
  exact ⟨entries', hgrows.mono hle⟩

/-- Steps that touch neither the table nor the words. -/
theorem of_unchanged {x : Writing α}
    (h : ∀ d, (x.outcome d).2.table = d.table ∧ (x.outcome d).2.words = d.words) :
    Keeps cfg size x :=
  fun d entries hd => ⟨entries, .of_unchanged hd (h d).1 (h d).2⟩

theorem bind {x : Writing α} {f : α → Writing β} (hx : Keeps cfg size x)
    (hf : ∀ a, Keeps cfg size (f a)) :
    Keeps cfg size (x >>= f) := by
  intro d entries hd
  obtain ⟨entries₁, h₁⟩ := hx d entries hd
  rw [outcome_bind]
  rcases hfirst : x.outcome d with ⟨_ | a, d₁⟩ <;> rw [hfirst] at h₁
  · exact ⟨entries₁, h₁⟩
  · obtain ⟨entries₂, h₂⟩ := hf a d₁ entries₁ h₁.minimal
    exact ⟨entries₂, h₁.trans h₂⟩

end Keeps

/-- The entry of a node comes behind those that its parts have added, as long as its key is none of
theirs. -/
theorem grows_register {write : Writing Unit} {key : SubstitutionKey} {d₀ : SymbolBuilder}
    {entries₀ : List (Node × SubstitutionKey)} (hk : n.kind.soughtByName? = some byName)
    (hkey : SubstitutionKey.ofNode n byName = .ok key) (hbelow : key.Below size)
    (hcode : Standard.code? n = none) (hnew : key ∉ entries.map Prod.snd)
    (hwrite : d₀.Grows cfg size entries₀ (write.outcome d).2 entries) :
    ∃ entries', d₀.Grows cfg size entries₀
      ((write >>= fun _ => register n byName).outcome d).2 entries' := by
  rw [outcome_bind]
  rcases hfirst : write.outcome d with ⟨_ | a, d₁⟩ <;> rw [hfirst] at hwrite
  · exact ⟨entries, hwrite⟩
  · show ∃ entries', d₀.Grows cfg size entries₀ ((register n byName).outcome d₁).2 entries'
    rcases outcome_register (d := d₁) hkey with h | ⟨e, h⟩
    · rw [h]
      exact ⟨_, hwrite.trans (.insert hwrite.minimal hk hkey hbelow hcode hnew)⟩
    · rw [h]
      exact ⟨entries, hwrite⟩

/-- What is known is not written. -/
theorem outcome_referenceOr_known (cfg : Config) (h : Known d n byName) :
    ∃ d', (tryReference cfg n byName).outcome d = (.ok true, d') ∧ d'.table = d.table ∧
      d'.words = d.words ∧
      ∀ write, (referenceOr cfg n byName write).outcome d = (.ok (), d') := by
  obtain ⟨d', htry, htable, hwords⟩ := tryReference_known cfg h
  refine ⟨d', htry, htable, hwords, fun write => ?_⟩
  show (tryReference cfg n byName >>= _ : Writing Unit).outcome d = _
  rw [outcome_bind, htry]
  rfl

/-- What is not known is written and registered, if it has a key. -/
theorem outcome_referenceOr_unknown (cfg : Config) (h : ¬Known d n byName) :
    (∃ key, SubstitutionKey.ofNode n byName = .ok key ∧ Standard.code? n = none ∧
      d.table.find? key = none ∧
      ∀ write, (referenceOr cfg n byName write).outcome d =
      (write >>= fun _ => register n byName).outcome d) ∨
    ∃ e, ∀ write, (referenceOr cfg n byName write).outcome d = (.error e, d) := by
  have hrun (write : Writing Unit) : (referenceOr cfg n byName write).outcome d
      = (tryReference cfg n byName >>= fun found =>
          if found then pure () else write >>= fun _ => register n byName).outcome d := rfl
  rcases tryReference_unknown cfg h with ⟨key, hkey, hcode, hfind, htry⟩ | ⟨e, htry⟩
  · refine .inl ⟨key, hkey, hcode, hfind, fun write => ?_⟩
    rw [hrun, outcome_bind, htry]
    rfl
  · refine .inr ⟨e, fun write => ?_⟩
    rw [hrun, outcome_bind, htry]

/-- A name that is not known is spelled, and registered with a new key. -/
theorem keeps_named (n : Node) (text : Except Fault Text) (spelling : Text → Text) :
    Keeps cfg size
      (referenceOr cfg n true (lift text >>= fun t => spellName cfg n (spelling t))) := by
  intro d entries hd
  by_cases hknown : Known d n true
  · obtain ⟨d', -, htable, hwords, hrun⟩ := outcome_referenceOr_known cfg hknown
    rw [hrun]
    exact ⟨entries, .of_unchanged hd htable hwords⟩
  rcases outcome_referenceOr_unknown cfg hknown with ⟨key, hkey, hcode, hfind, hrun⟩ | ⟨e, hrun⟩
  · obtain ⟨hk, t, -, rfl⟩ := SubstitutionKey.ofNode_true_eq_ok_iff.mp hkey
    -- Spelling a name registers nothing, so the key is as new afterwards as it was.
    have hspell : d.Grows cfg size entries
        ((lift text >>= fun t => spellName cfg n (spelling t) : Writing Unit).outcome d).2
        entries := by
      cases text with
      | error e => exact .refl hd
      | ok t =>
        obtain ⟨r, d', hspell, htable, hwords⟩ := spellName_words cfg n d (spelling t)
        show d.Grows cfg size entries ((spellName cfg n (spelling t)).outcome d).2 entries
        obtain ⟨hbegins, htidy⟩ := Identifier.encode_words (spelling t) hd.words
        rw [hspell]
        exact ⟨⟨htable ▸ hd.indexes, hd.keyed, hd.distinct, hd.notStandard, hwords ▸ htidy⟩,
          ⟨[], (List.append_nil entries).symm, nofun⟩, hwords ▸ hbegins⟩
    rw [hrun]
    have hnew := hd.indexes.find?_eq_none_iff.mp hfind
    exact grows_register (Kind.soughtByName?_of_name hk) hkey trivial hcode hnew hspell
  · rw [hrun]
    exact ⟨entries, .refl hd⟩

/-- The key of a tree is still new when its parts have been written, since they are smaller. -/
theorem grows_registered {write : Writing Unit} {d₀ : SymbolBuilder}
    {entries₀ entries' : List (Node × SubstitutionKey)}
    (hk : n.kind ∈ Kind.nominals ++ Kind.boundGenerics)
    (hcode : Standard.code? n = none) (hnew : SubstitutionKey.tree n ∉ entries.map Prod.snd)
    (hparts : d.Grows cfg n.size entries (write.outcome d).2 entries')
    (hwrite : d₀.Grows cfg (n.size + 1) entries₀ (write.outcome d).2 entries') :
    ∃ entries'', d₀.Grows cfg (n.size + 1) entries₀
      ((write >>= fun _ => register n false).outcome d).2 entries'' :=
  grows_register (Kind.soughtByName?_of_type hk) rfl (Nat.lt_succ_self n.size) hcode
    (hparts.not_mem hnew) hwrite

theorem Keeps.referenceOr {write : Writing Unit} (hk : n.kind ∈ Kind.nominals ++ Kind.boundGenerics)
    (h : Keeps cfg n.size write) :
    Keeps cfg (n.size + 1) (Writing.referenceOr cfg n false write) := by
  intro d entries hd
  by_cases hknown : Known d n false
  · obtain ⟨d', -, htable, hwords, hrun⟩ := outcome_referenceOr_known cfg hknown
    rw [hrun]
    exact ⟨entries, .of_unchanged hd htable hwords⟩
  rcases outcome_referenceOr_unknown cfg hknown with ⟨_, ⟨⟩, hcode, hfind, hrun⟩ | ⟨e, hrun⟩
  · obtain ⟨entries', hparts⟩ := h d entries hd
    rw [hrun]
    exact grows_registered hk hcode (hd.indexes.find?_eq_none_iff.mp hfind) hparts
      (hparts.mono (Nat.le_succ _))
  · rw [hrun]
    exact ⟨entries, .refl hd⟩

/-! ### Interrupted work -/

/-- The first steps do as the second ones do, or they are interrupted on the way. Then they leave a
minimal table, which the second ones have added to when they come to their end. -/
structure Interrupts (cfg : Config) (size : Nat) (x y : Writing α) : Prop where
  keeps : Keeps cfg size y
  outcome (d : SymbolBuilder) (entries : List (Node × SubstitutionKey))
    (hd : d.Minimal cfg entries) :
    x.outcome d = y.outcome d ∨ ∃ e d₁ entries₁ entries₂, x.outcome d = (.error e, d₁) ∧
      d.Grows cfg size entries d₁ entries₁ ∧ d₁.Grows cfg size entries₁ (y.outcome d).2 entries₂

namespace Interrupts

theorem refl {x : Writing α} (h : Keeps cfg size x) :
    Interrupts cfg size x x := ⟨h, fun _ _ _ => .inl rfl⟩

theorem mono {size' : Nat} {x y : Writing α} (hle : size ≤ size') (h : Interrupts cfg size x y) :
    Interrupts cfg size' x y := by
  refine ⟨h.keeps.mono hle, fun d entries hd => ?_⟩
  rcases h.outcome d entries hd with heq | ⟨e, d₁, entries₁, entries₂, hx, h₁, h₂⟩
  · exact .inl heq
  · exact .inr ⟨e, d₁, entries₁, entries₂, hx, h₁.mono hle, h₂.mono hle⟩

theorem bind {x y : Writing α} {f g : α → Writing β} (h : Interrupts cfg size x y)
    (hrest : ∀ a, Interrupts cfg size (f a) (g a)) : Interrupts cfg size (x >>= f) (y >>= g) := by
  refine ⟨h.keeps.bind fun a => (hrest a).keeps, fun d entries hd => ?_⟩
  rw [outcome_bind, outcome_bind]
  rcases h.outcome d entries hd with heq | ⟨e, d₁, entries₁, entries₂, hx, h₁, h₂⟩
  · -- The first steps come to their end, and the rest may be interrupted.
    rw [heq]
    obtain ⟨entries₁, h₁⟩ := h.keeps d entries hd
    rcases hfirst : y.outcome d with ⟨_ | a, d₁⟩ <;> rw [hfirst] at h₁
    · exact .inl rfl
    · rcases (hrest a).outcome d₁ entries₁ h₁.minimal
        with heq | ⟨e, d₂, entries₂, entries₃, hx, h₂, h₃⟩
      · exact .inl heq
      · exact .inr ⟨e, d₂, entries₂, entries₃, hx, h₁.trans h₂, h₃⟩
  · -- The first steps are interrupted. What comes behind them only adds to the table.
    rw [hx]
    rcases hfirst : y.outcome d with ⟨_ | a, d₂⟩ <;> rw [hfirst] at h₂
    · exact .inr ⟨e, d₁, entries₁, entries₂, rfl, h₁, h₂⟩
    · obtain ⟨entries₃, h₃⟩ := (hrest a).keeps d₂ entries₂ h₂.minimal
      exact .inr ⟨e, d₁, entries₁, entries₃, rfl, h₁, h₂.trans h₃⟩

theorem referenceOr {x y : Writing Unit} (hk : n.kind ∈ Kind.nominals ++ Kind.boundGenerics)
    (h : Interrupts cfg n.size x y) :
    Interrupts cfg (n.size + 1) (Writing.referenceOr cfg n false x)
      (Writing.referenceOr cfg n false y) := by
  refine ⟨h.keeps.referenceOr hk, fun d entries hd => ?_⟩
  by_cases hknown : Known d n false
  · obtain ⟨d', -, -, -, hrun⟩ := outcome_referenceOr_known cfg hknown
    exact .inl ((hrun x).trans (hrun y).symm)
  rcases outcome_referenceOr_unknown cfg hknown with ⟨_, ⟨⟩, hcode, hfind, hrun⟩ | ⟨e, hrun⟩
  · rw [hrun, hrun]
    rcases h.outcome d entries hd with heq | ⟨e, d₁, entries₁, entries₂, hx, h₁, h₂⟩
    · exact .inl (by rw [outcome_bind, outcome_bind, heq])
    · -- The node itself is registered behind its parts, when they are not interrupted.
      have hnew := hd.indexes.find?_eq_none_iff.mp hfind
      have hlast := h₂.mono (Nat.le_succ n.size)
      obtain ⟨entries₃, h₃⟩ := grows_registered hk hcode hnew (h₁.trans h₂) hlast
      refine .inr ⟨e, d₁, entries₁, entries₃, ?_, h₁.mono (Nat.le_succ _), h₃⟩
      rw [outcome_bind, hx]
  · exact .inl ((hrun x).trans (hrun y).symm)

end Interrupts

end Writing

/-- Work that is interrupted, and work that is not. -/
def Comparison.interrupted (cfg : Config) : Comparison cfg where
  Plain _ := True
  symbolic _ := trivial
  Holds size _ x y := Writing.Interrupts cfg size x y
  mono hle h := h.mono hle
  pure _ := .refl (.of_unchanged fun _ => ⟨rfl, rfl⟩)
  throw _ := .refl (.of_unchanged fun _ => ⟨rfl, rfl⟩)
  bind h hrest := h.bind hrest
  emit _ := .refl (.of_unchanged fun _ => ⟨rfl, rfl⟩)
  substitute _ _ := .refl (.of_unchanged fun _ => ⟨rfl, rfl⟩)
  named n text spelling := .refl (Writing.keeps_named n text spelling)
  registered hk h := h.referenceOr hk

namespace Writing

variable {cfg : Config} {size : Nat} {stop : Node → SymbolBuilder → Bool} {n : Node}

/-- Gives up on a node in the states that `stop` tells. -/
def halt (stop : Node → SymbolBuilder → Bool) (n : Node) : Writing Unit := do
  if stop n (← get) then refuse n .unsupportedKind

/-- Writes a tree, but may be interrupted wherever it comes to a node or leaves it. -/
def mangleUntil (cfg : Config) (stop : Node → SymbolBuilder → Bool) : Nat → Node → Writing Unit
  | 0, n => refuse n .unsupportedKind
  | fuel + 1, n => do
    halt stop n
    ofNode cfg (mangleUntil cfg stop fuel) n
    halt stop n

/-- Who is told to stop nowhere writes the tree as it is written. -/
theorem mangleUntil_never (cfg : Config) (fuel : Nat) : ∀ n : Node,
    mangleUntil cfg (fun _ _ => false) fuel n = mangleAt cfg fuel n := by
  induction fuel with
  | zero => exact fun _ => rfl
  | succ fuel ih =>
    intro n
    have hhalt : halt (fun _ _ => false) n = pure () := rfl
    rw [mangleUntil, mangleAt, funext ih, hhalt, pure_bind, bind_pure_unit]

theorem outcome_halt (stop : Node → SymbolBuilder → Bool) (n : Node) (d : SymbolBuilder) :
    (halt stop n).outcome d = (.ok (), d) ∨ ∃ e, (halt stop n).outcome d = (.error e, d) := by
  have hrun : (halt stop n).outcome d
      = (if stop n d then refuse n .unsupportedKind else pure () : Writing Unit).outcome d := rfl
  rw [hrun]
  split
  · exact .inr ⟨_, rfl⟩
  · exact .inl rfl

/-- Halting in front of some work and behind it interrupts it. -/
theorem Interrupts.halted {x y : Writing Unit} (h : Interrupts cfg size x y) :
    Interrupts cfg size (do halt stop n; x; halt stop n) y := by
  refine ⟨h.keeps, fun d entries hd => ?_⟩
  obtain ⟨entries', hy⟩ := h.keeps d entries hd
  -- The writer stops in front of the node, inside of it or behind it, or it does not stop.
  rcases outcome_halt stop n d with hhalt | ⟨e, hhalt⟩
  · have hrun : (do halt stop n; x; halt stop n : Writing Unit).outcome d
        = (x >>= fun _ => halt stop n).outcome d := by rw [outcome_bind, hhalt]
    rw [hrun, outcome_bind]
    rcases h.outcome d entries hd with heq | ⟨e, d₁, entries₁, entries₂, hx, h₁, h₂⟩
    · rw [heq]
      rcases hfirst : y.outcome d with ⟨e | ⟨⟩, d₁⟩ <;> rw [hfirst] at hy
      · exact .inl rfl
      · rcases outcome_halt stop n d₁ with hhalt | ⟨e, hhalt⟩
        · exact .inl hhalt
        · exact .inr ⟨e, d₁, entries', entries', hhalt, hy, .refl hy.minimal⟩
    · rw [hx]
      exact .inr ⟨e, d₁, entries₁, entries₂, rfl, h₁, h₂⟩
  · have hrun : (do halt stop n; x; halt stop n : Writing Unit).outcome d = (.error e, d) := by
      rw [outcome_bind, hhalt]
    rw [hrun]
    exact .inr ⟨e, d, entries, entries', rfl, .refl hd, hy⟩

theorem interrupts_mangleUntil (cfg : Config) (stop : Node → SymbolBuilder → Bool) (fuel : Nat) :
    ∀ n : Node, Interrupts cfg (n.size + 1) (mangleUntil cfg stop fuel n)
      (mangleAt cfg fuel n) := by
  induction fuel with
  | zero => exact fun n => (Comparison.interrupted cfg).throw _
  | succ fuel ih =>
    intro n
    have hbelow : (Comparison.interrupted cfg).Below n (mangleUntil cfg stop fuel)
        (mangleAt cfg fuel) :=
      ⟨.of_plain (fun _ => trivial) n, fun c _ _ => ih c⟩
    have hnode : Interrupts cfg (n.size + 1) (ofNode cfg (mangleUntil cfg stop fuel) n)
        (ofNode cfg (mangleAt cfg fuel) n) := Comparison.ofNode hbelow
    exact hnode.halted

/-! ### What is known already -/

/-- The modules that have letters, and the letters. -/
def letteredModules : List (Text × Text) :=
  [(Standard.moduleText, ['s']), (Code.objcModule, ['S', 'o']), (Code.importerModule, ['S', 'C'])]

/-- The letters behind the names of operators. -/
def fixityLetters : List Text := [['o', 'i'], ['o', 'p'], ['o', 'P']]

/-- A module that is always written by its letters. -/
def IsLettered (n : Node) : Prop :=
  n.kind = .moduleName ∧ ∃ entry ∈ letteredModules, Fault.inTree n.text = .ok entry.1

/-- The ways to write a node that is looked for in the table: it is refused, or it has letters, or
it is referred to and otherwise written and registered. Letters may follow. -/
inductive Sought (cfg : Config) (n : Node) (byName : Bool) :
    ((Node → Writing Unit) → Writing Unit) → Prop where
  | refused (e : Fault) : Sought cfg n byName fun _ => MonadExcept.throw e
  | lettered {entry : Text × Text} (hk : n.kind = .moduleName) (hmodule : entry ∈ letteredModules)
    (hname : Fault.inTree n.text = .ok entry.1) : Sought cfg n byName fun _ => emit entry.2
  | reference (write : (Node → Writing Unit) → Writing Unit) :
    Sought cfg n byName fun sub => referenceOr cfg n byName (write sub)
  | marked {letters : Text} (hletters : letters ∈ fixityLetters)
    (write : (Node → Writing Unit) → Writing Unit) :
    Sought cfg n byName fun sub => referenceOr cfg n byName (write sub) >>= fun _ => emit letters

namespace Sought

variable {byName : Bool}

theorem lift {α : Type} {x : Except Fault α} {f : (Node → Writing Unit) → α → Writing Unit}
    (h : ∀ a, x = .ok a → Sought cfg n byName fun sub => f sub a) :
    Sought cfg n byName fun sub => Writing.lift x >>= f sub := by
  cases x with
  | error e => exact .refused e
  | ok a => exact h a rfl

theorem moduleName (hk : n.kind = .moduleName) :
    Sought cfg n true fun _ => Writing.moduleName cfg n := by
  refine lift fun name hname => ?_
  split
  · exact .lettered hk List.mem_cons_self (by rw [hname, ‹name = _›])
  split
  · exact .lettered hk (List.mem_cons_of_mem _ List.mem_cons_self)
      (by rw [hname, ‹name = Code.objcModule›])
  split
  · refine .lettered hk (List.mem_cons_of_mem _ (List.mem_cons_of_mem _ List.mem_cons_self)) ?_
    rw [hname, ‹name = Code.importerModule›]
  · exact .reference _

theorem unappliedNominal : Sought cfg n false fun sub => Writing.unappliedNominal cfg sub n := by
  unfold Writing.unappliedNominal
  split
  · exact .reference _
  · exact .refused _

theorem nominal : Sought cfg n false fun sub => Writing.nominal cfg sub n := by
  unfold Writing.nominal
  split
  · exact .reference _
  · exact unappliedNominal

theorem boundGenericEnum : Sought cfg n false fun sub => Writing.boundGenericEnum cfg sub n := by
  refine lift fun inner _ => lift fun arguments _ => ?_
  split
  · split
    · exact .reference _
    · exact nominal
  · exact nominal

theorem name (hk : n.kind ∈ Kind.identifierLike) :
    Sought cfg n true fun sub => Writing.ofNode cfg sub n := by
  obtain ⟨k, p, cs⟩ := n
  simp only [Node.kind, Kind.identifierLike, Kind.operators, List.mem_append, List.mem_cons,
    List.not_mem_nil, or_false] at hk
  rcases hk with (rfl | rfl | rfl) | rfl | rfl | rfl
  · exact .reference _
  · exact moduleName rfl
  · exact .reference _
  iterate 3 exact .marked (by decide) _

theorem type (hk : n.kind ∈ Kind.nominals ++ Kind.boundGenerics) :
    Sought cfg n false fun sub => Writing.ofNode cfg sub n := by
  obtain ⟨k, p, cs⟩ := n
  simp only [Node.kind, Kind.nominals, Kind.boundGenerics, Kind.boundNominals, List.mem_append,
    List.mem_cons, List.not_mem_nil, or_false] at hk
  rcases hk with (rfl | rfl | rfl | rfl | rfl | rfl) | (rfl | rfl | rfl | rfl | rfl | rfl) | rfl
  iterate 3 exact nominal
  · exact .reference _
  iterate 4 exact nominal
  · exact boundGenericEnum
  iterate 3 exact nominal
  · exact .reference _

theorem ofNode (hk : n.kind.soughtByName? = some byName) :
    Sought cfg n byName fun sub => Writing.ofNode cfg sub n := by
  rcases Kind.soughtByName?_eq_some hk with ⟨hname, rfl⟩ | ⟨htype, rfl⟩
  · exact name hname
  · exact type htype

end Sought

/-- From this state on the steps do not write the node, in whatever way trees are written. They add
nothing to the table and no words, and they write some letters at most, or a reference to the node
in front of them. -/
def Recalls (cfg : Config) (n : Node) (byName : Bool) (d : SymbolBuilder)
    (f : (Node → Writing Unit) → Writing Unit) : Prop :=
  ∃ r d', (∀ sub, (f sub).outcome d = (r, d')) ∧ d'.table = d.table ∧ d'.words = d.words ∧
    ∃ letters ∈ [] :: fixityLetters ++ letteredModules.map Prod.snd,
    d'.symbol = d.symbol ++ letters ∨
      d'.symbol = ((tryReference cfg n byName).outcome d).2.symbol ++ letters

section

variable {byName : Bool} {d d' : SymbolBuilder} {f : (Node → Writing Unit) → Writing Unit}

/-- What is known is not written again. -/
theorem Sought.recalls (hf : Sought cfg n byName f) (h : Known d n byName) :
    Recalls cfg n byName d f := by
  obtain ⟨d', htry, htable, hwords, hrun⟩ := outcome_referenceOr_known cfg h
  cases hf with
  | refused e =>
    exact ⟨.error e, d, fun _ => rfl, rfl, rfl, [], List.mem_cons_self,
      .inl (List.append_nil _).symm⟩
  | @lettered entry hk hmodule hname =>
    have hletters : entry.2 ∈ [] :: fixityLetters ++ letteredModules.map Prod.snd :=
      List.mem_append_right _ (List.mem_map_of_mem hmodule)
    exact ⟨.ok (), _, fun _ => rfl, rfl, rfl, entry.2, hletters, .inl rfl⟩
  | reference write =>
    refine ⟨.ok (), d', fun sub => hrun (write sub), htable, hwords, [], List.mem_cons_self,
      .inr ?_⟩
    rw [htry, List.append_nil]
  | @marked letters hletters write =>
    have hletters : letters ∈ [] :: fixityLetters ++ letteredModules.map Prod.snd :=
      List.mem_append_left _ (List.mem_cons_of_mem _ hletters)
    refine ⟨.ok (), { d' with symbol := d'.symbol ++ letters }, fun sub => ?_, htable, hwords,
      letters, hletters, .inr ?_⟩
    · rw [outcome_bind, hrun]
      rfl
    · rw [htry]

/-- What has been referred to, or written and registered, is known. -/
theorem known_of_referenceOr {write : Writing Unit}
    (h : (referenceOr cfg n byName write).outcome d = (.ok (), d')) : Known d' n byName := by
  by_cases hknown : Known d n byName
  · obtain ⟨d₁, -, htable, -, hrun⟩ := outcome_referenceOr_known cfg hknown
    cases (hrun write).symm.trans h
    unfold Known
    rw [htable]
    exact hknown
  rcases outcome_referenceOr_unknown cfg hknown with ⟨key, hkey, -, -, hrun⟩ | ⟨e, hrun⟩
  · rw [hrun] at h
    obtain ⟨⟨⟩, d₁, -, hregister⟩ := outcome_bind_ok h
    rcases outcome_register (d := d₁) hkey with hdone | ⟨e, hdone⟩
    · cases hdone.symm.trans hregister
      refine .inr ⟨key, (d₁.table.find? key).getD d₁.table.length, hkey, ?_⟩
      show (d₁.table.insert n key).find? key = _
      rw [SubstitutionTable.find?_insert, if_pos rfl]
      cases d₁.table.find? key <;> rfl
    · cases hdone.symm.trans hregister
  · cases (hrun write).symm.trans h

/-- What has been written is known from then on, unless it is a module that has letters. -/
theorem Sought.known (hf : Sought cfg n byName f) {sub : Node → Writing Unit}
    (h : (f sub).outcome d = (.ok (), d')) : Known d' n byName ∨ IsLettered n := by
  cases hf with
  | refused e => cases h
  | @lettered entry hk hmodule hname => exact .inr ⟨hk, entry, hmodule, hname⟩
  | reference write => exact .inl (known_of_referenceOr h)
  | marked hletters write =>
    obtain ⟨⟨⟩, d₁, hwrite, hemit⟩ := outcome_bind_ok h
    have hknown : Known d₁ n byName := known_of_referenceOr hwrite
    cases hemit
    exact .inl hknown

end

end Writing

/-! ### Every moment -/

namespace SymbolBuilder

variable {cfg : Config} {d d₀ : SymbolBuilder} {entries first : List (Node × SubstitutionKey)}

/-- The table and the words of the first state are what those of the second one begin with. -/
structure Begins (d₀ : SymbolBuilder) (first : List (Node × SubstitutionKey)) (d : SymbolBuilder)
    (entries : List (Node × SubstitutionKey)) : Prop where
  indexes : d₀.table.Indexes first
  entries : first <+: entries
  words : d₀.words <+: d.words

/-- What a minimal table begins with is minimal. -/
theorem Minimal.of_begins (h : d.Minimal cfg entries) (hfirst : Begins d₀ first d entries) :
    d₀.Minimal cfg first where
  indexes := hfirst.indexes
  keyed e he := h.keyed e (hfirst.entries.subset he)
  distinct := h.distinct.sublist (hfirst.entries.sublist.map Prod.snd)
  notStandard e he := h.notStandard e (hfirst.entries.subset he)
  words :=
    ⟨h.words.nodup.sublist hfirst.words.sublist, Nat.le_trans hfirst.words.length_le h.words.length⟩

/-- A node is known if it is an entry, or has the key of one. -/
theorem Minimal.known {m : Node} {byName : Bool} {e : Node × SubstitutionKey}
    (h : d.Minimal cfg entries) (hk : m.kind.soughtByName? = some byName) (he : e ∈ entries)
    (hm : m = e.1 ∨ SubstitutionKey.ofNode m byName = .ok e.2) :
    Writing.Known d m byName := by
  have hkey : SubstitutionKey.ofNode m byName = .ok e.2 := by
    rcases hm with rfl | hkey
    · obtain ⟨byName', hk', hkey⟩ := h.keyed e he
      cases hk.symm.trans hk'
      exact hkey
    · exact hkey
  rcases hfind : d.table.find? e.2 with _ | i
  · exact absurd (List.mem_map_of_mem he) (h.indexes.find?_eq_none_iff.mp hfind)
  · exact .inr ⟨e.2, i, hkey, hfind⟩

end SymbolBuilder

/-- At every moment while a tree is written its table is minimal, and nothing is written a second
time. A moment is a state `d` in which the work is interrupted at a node, or one whose table and
words `d` begins with: between two visits of nodes they only grow at their ends. What is in the
table stays there until the end. A standard type, or a node that is in the table, or has the key of
one there, is only referred to, and every node that has been written is known from then on, unless
it is a module that has letters. -/
theorem minimal_mangleUntil (cfg : Config) (stop : Node → SymbolBuilder → Bool) (n : Node) :
    ∃ d entries later, ((Writing.mangleUntil cfg stop n.size n).outcome {}).2 = d ∧
      d.Minimal cfg entries ∧
      (writeTree cfg n).2.Minimal cfg (entries ++ later) ∧ d.words <+: (writeTree cfg n).2.words ∧
      ∀ d₀ first, SymbolBuilder.Begins d₀ first d entries → d₀.Minimal cfg first ∧
        ∀ m byName, m.kind.soughtByName? = some byName →
          ((Standard.code? m ≠ none ∨ ∃ e ∈ first, m = e.1 ∨
            SubstitutionKey.ofNode m byName = .ok e.2) →
            Writing.Recalls cfg m byName d₀ fun sub => Writing.ofNode cfg sub m) ∧
          ∀ sub d₁, (Writing.ofNode cfg sub m).outcome d₀ = (.ok (), d₁) →
            Writing.Known d₁ m byName ∨ Writing.IsLettered m := by
  have hinterrupts := Writing.interrupts_mangleUntil cfg stop n.size n
  -- If nothing interrupts the work, the moment is the last one.
  have hmoments : ∃ entries entries',
    ((Writing.mangleUntil cfg stop n.size n).outcome {}).2.Minimal cfg entries ∧
      SymbolBuilder.Grows cfg (n.size + 1)
      ((Writing.mangleUntil cfg stop n.size n).outcome {}).2 entries
        (writeTree cfg n).2 entries' := by
    rcases hinterrupts.outcome {} [] (.nil cfg) with heq | ⟨e, d₁, entries₁, entries₂, hx, h₁, h₂⟩
    · obtain ⟨entries, hgrows⟩ := hinterrupts.keeps {} [] (.nil cfg)
      rw [heq]
      exact ⟨entries, entries, hgrows.minimal, .refl hgrows.minimal⟩
    · rw [hx]
      exact ⟨entries₁, entries₂, h₁.minimal, h₂⟩
  obtain ⟨entries, entries', hminimal, hgrows⟩ := hmoments
  obtain ⟨later, rfl, -⟩ := hgrows.entries
  refine ⟨_, entries, later, rfl, hminimal, hgrows.minimal, hgrows.words, fun d₀ first hfirst => ?_⟩
  have hmoment := hminimal.of_begins hfirst
  refine ⟨hmoment, fun m byName hk =>
    ⟨fun hm => (Writing.Sought.ofNode hk).recalls ?_, fun sub d₁ hrun => ?_⟩⟩
  · rcases hm with hcode | ⟨e, he, hm⟩
    · exact .inl hcode
    · exact hmoment.known hk he hm
  · exact (Writing.Sought.ofNode hk).known hrun

end SwiftABI
