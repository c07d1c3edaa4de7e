/-
  Merging keeps the meaning of a symbol.

  A symbol is put together of substitutions and of other texts. Written one after the other they are
  its plain text, and what is written where each substitution is merged with the one before it, if
  it can be, is its merged text. If a run goes through the plain text with a state at the end of
  each item, then a run goes through the merged text, too, and comes to the same stack, table and
  words (`Merging.mergedItems`).

  The proof goes through the items with the invariant `Ending`, which each of them keeps.
-/
import SwiftABI.Proofs.Symbol.Merging
import SwiftABI.Proofs.Symbol.SelfDelimiting.Run

namespace SwiftABI.Merging

/-! ### Items -/

/-- Something that a symbol is put together of. -/
inductive Item where
  /-- An entry of the table, by its number. -/
  | table (i : Fin 26)
  /-- A type of the standard library, by its letter. -/
  | standard (letter : {c : CodePoint // (Standard.type? c).isSome})
  /-- A text that is written as it is. -/
  | chunk (text : Text)

namespace Item

/-- An item on its own. -/
def plain : Item → Text
  | table i => ['A', Text.upperLetter i]
  | standard letter => ['S', letter]
  | chunk text => text

/-- Writes an item at the end of a symbol. A substitution is merged if it can be. -/
def write (cfg : Config) : Text × Merging → Item → Text × Merging
  | (symbol, m), table i => m.write cfg symbol [Text.upperLetter i] .table
  | (symbol, m), standard letter => m.write cfg symbol [letter.val] .standard
  | (symbol, m), chunk text => (symbol ++ text, m)

end Item

/-- The items one after the other. -/
def plainText (items : List Item) : Text := items.flatMap Item.plain

/-- The items one after the other, with substitutions merged. -/
def mergedText (cfg : Config) (items : List Item) : Text :=
  (items.foldl (Item.write cfg) ([], {})).1

/-- A run goes through the plain text of some items, and through a state at the end of each of
them. -/
def Passes (cfg : Config) : List Item → Machine → Machine → Prop
  | [], m, m' => m' = m
  | item :: items, m, m' =>
    ∃ between : Machine, Machine.Comes cfg m between ∧ m.rest = item.plain ++ between.rest ∧
      Passes cfg items between m'

variable {cfg : Config} {items : List Item} {m m' : Machine}

/-- What is left of the text is what follows the items. -/
theorem Passes.rest (h : Passes cfg items m m') : m.rest = plainText items ++ m'.rest := by
  induction items generalizing m with
  | nil =>
    cases h
    rfl
  | cons item items ih =>
    obtain ⟨between, -, hrest, hitems⟩ := h
    rw [hrest, ih hitems, ← List.append_assoc]
    rfl

theorem Passes.comes (h : Passes cfg items m m') : Machine.Comes cfg m m' := by
  induction items generalizing m with
  | nil =>
    cases h
    exact .refl
  | cons item items ih =>
    obtain ⟨between, hcomes, -, hitems⟩ := h
    exact hcomes.trans (ih hitems)

/-- At the end of the text there is room only for empty chunks, with which nothing is done. -/
theorem Passes.of_rest_nil (h : Passes cfg items m m') (hrest : m.rest = []) :
    m' = m ∧ ∀ written, items.foldl (Item.write cfg) written = written := by
  -- Every step reads a character, so where none is left no step is made and no item has a text.
  induction items generalizing m with
  | nil => exact ⟨h, fun _ => rfl⟩
  | cons item items ih =>
    obtain ⟨between, hcomes, hitem, hitems⟩ := h
    obtain ⟨hplain, hbetween⟩ := List.append_eq_nil_iff.mp (hitem.symm.trans hrest)
    obtain ⟨rfl, hwritten⟩ := ih hitems hbetween
    have hsame : m' = m := by
      rcases hcomes.cases_head with rfl | ⟨_, hstep, -⟩
      · rfl
      · exact absurd (Reading.length_lt_of_step hstep) (by rw [hrest]; exact Nat.not_lt_zero _)
    refine ⟨hsame, fun ⟨symbol, merging⟩ => ?_⟩
    cases item with
    | table i => cases hplain
    | standard letter => cases hplain
    | chunk text =>
      change text = [] at hplain
      subst hplain
      exact (hwritten _).trans (congrArg (·, merging) (List.append_nil symbol))

/-! ### What is read of an item -/

/-- A reference to the table is read as the entry that it stands for. -/
theorem exists_node_of_parses {i : Nat} {c c' : Store} (hi : i < 26)
    (hlimit : -1 ≤ cfg.maxRepeatCount)
    (h : Parses cfg ['A', Text.upperLetter i] c c') :
    ∃ n, c.table.node? i = .ok n ∧ c' = c.push n := by
  rcases hnode : c.table.node? i with u | n
  · -- An entry that is not there ends the reading, but something has been read.
    rcases (h.comes 0 []).cases_head with hnothing | ⟨m, hstep, -⟩
    · cases congrArg Machine.rest hnothing
    obtain ⟨hlower, hupper, -, hindex, -⟩ := Text.upperLetter_spec hi
    rw [Reading.step_of_cons rfl] at hstep
    obtain ⟨n, m', hreference, -⟩ := Reading.bind_eq_ok (x := Reading.references cfg 2 none)
      (m := c.machine 1 [Text.upperLetter i]) hstep
    change (if Text.isLower (Text.upperLetter i) = true then _
      else if Text.isUpper (Text.upperLetter i) = true
      then Reading.advance 1 >>= fun _ =>
      Reading.repeated cfg none (Text.upperIndex (Text.upperLetter i))
      else _ : Reading Node) _ = _ at hreference
    rw [if_neg (by rw [hlower]; decide), if_pos hupper, hindex] at hreference
    obtain ⟨_, _, hadvance, hrepeated⟩ := Reading.bind_eq_ok hreference
    cases hadvance
    obtain ⟨_, _, hresolve, -⟩ := Reading.bind_eq_ok hrepeated
    obtain ⟨_, _, hstore, hfound⟩ := Reading.bind_eq_ok hresolve
    cases hstore
    rw [show (c.machine 1 [Text.upperLetter i]).table.node? i = .error u from hnode] at hfound
    cases hfound
  · have hread : Parses cfg ['A', Text.upperLetter i] c (c.push n) :=
      .tableReference (.upper hi hnode (CountAllowed.one hlimit))
    exact ⟨n, rfl, h.unique hread⟩

/-- An item that is read as it is on its own is read as that behind others, too. -/
theorem ending_write {start c c' : Store} {body : Text} {merging : Merging} {item : Item}
    (hlimit : -1 ≤ cfg.maxRepeatCount) (hbody : Ending cfg start ([] : Text).length body merging c)
    (h : Parses cfg item.plain c c') :
    Ending cfg start ([] : Text).length (item.write cfg (body, merging)).1
      (item.write cfg (body, merging)).2 c' := by
  -- A letter may share the sign of the item before. Other text is only appended.
  cases item with
  | table i =>
    obtain ⟨n, hnode, rfl⟩ := exists_node_of_parses i.isLt hlimit h
    obtain ⟨body', hsymbol, hending⟩ := hbody.write_table i.isLt hnode hlimit
    change (merging.write cfg body [Text.upperLetter i] .table).1 = body' at hsymbol
    subst hsymbol
    exact hending
  | standard letter =>
    obtain ⟨t, ht⟩ := Option.isSome_iff_exists.mp letter.property
    have hread : Parses cfg ['S', letter.val] c (c.push t) :=
      .standardReference ht (CountAllowed.one hlimit)
    obtain ⟨body', hsymbol, hending⟩ := hbody.write_standard ht hlimit
    change (merging.write cfg body [letter.val] .standard).1 = body' at hsymbol
    subst hsymbol
    rw [h.unique hread]
    exact hending
  | chunk text =>
    change Parses cfg text c c' at h
    change Ending cfg start _ (body ++ text) merging c'
    by_cases hempty : text = []
    · subst hempty
      rwa [h.eq_of_nil, List.append_nil]
    · exact hbody.append h hempty

/-- Only a chunk can hold a suffix. -/
theorem Item.eq_chunk_of_mem {item : Item} (h : CodePoint.char '.' ∈ item.plain) :
    ∃ text, item = chunk text := by
  cases item with
  | chunk text => exact ⟨text, rfl⟩
  | table i =>
    have hupper := (Text.upperLetter_spec i.isLt).2.1
    rcases List.mem_cons.mp h with h | h
    · cases h
    · rw [← List.mem_singleton.mp h] at hupper
      cases hupper
  | standard letter =>
    have hletter := letter.property
    rcases List.mem_cons.mp h with h | h
    · cases h
    · rw [← List.mem_singleton.mp h] at hletter
      cases hletter

/-! ### Merged text -/

/-- The items behind a text that is read as it should be are merged with its end. -/
theorem comes_foldl {start c : Store} {body t : Text} {merging : Merging}
    (hlimit : -1 ≤ cfg.maxRepeatCount)
    (hbody : Ending cfg start ([] : Text).length body merging c) (offset passed : Nat)
    (h : Passes cfg items (c.machine passed t) m') :
    Machine.Comes cfg
      (start.machine offset ((items.foldl (Item.write cfg) (body, merging)).1 ++ m'.rest))
      { m' with offset := offset + (items.foldl (Item.write cfg) (body, merging)).1.length } := by
  -- By induction on the items, each of which moves to the end of the body.
  induction items generalizing c body merging passed t with
  | nil =>
    cases h
    exact hbody.parses.comes offset t
  | cons item items ih =>
    obtain ⟨between, hcomes, hrest, hitems⟩ := h
    change t = _ at hrest
    subst hrest
    rw [List.foldl_cons]
    rcases hcomes.over with ⟨c', hitem, hbetween⟩ | ⟨u, v, c', hitem, hu, rfl⟩
    · rw [hbetween] at hitems
      exact ih (ending_write hlimit hbody hitem) _ hitems
    · -- The suffix has taken everything, and what follows is empty.
      obtain ⟨text, rfl⟩ := Item.eq_chunk_of_mem
        (hitem ▸ List.mem_append_right u List.mem_cons_self)
      change text = _ at hitem
      subst hitem
      obtain ⟨rfl, hwritten⟩ := hitems.of_rest_nil rfl
      rw [hwritten]
      have hsuffix := (hbody.parses.trans hu).comes_suffix offset v
      rw [List.append_assoc] at hsuffix
      show Machine.Comes cfg (start.machine offset (body ++ (u ++ ('.' : CodePoint) :: v) ++ [])) _
      rw [List.append_nil]
      exact hsuffix

/-- The merged text of some items leads where their plain text leads from the state `m`: to the
state `m'`, apart from the offset, which is counted from `offset`. -/
structure ReadAlike (cfg : Config) (items : List Item) (m m' : Machine) (offset : Nat) : Prop where
  plain : m.rest = plainText items ++ m'.rest
  merged : Machine.Comes cfg { m with offset, rest := mergedText cfg items ++ m'.rest }
    { m' with offset := offset + (mergedText cfg items).length }
  /-- If nothing follows the items, both are whole runs. -/
  runs (hend : m'.rest = []) : m.run cfg = .ok m' ∧
    Machine.run cfg { m with offset, rest := mergedText cfg items } =
      .ok { m' with offset := offset + (mergedText cfg items).length }

/-- If a run goes through the plain text of some items, and through a state at the end of each of
them, then a run goes through their merged text, and comes to the same stack, table and words. -/
theorem mergedItems (hlimit : -1 ≤ cfg.maxRepeatCount) (h : Passes cfg items m m') (offset : Nat) :
    ReadAlike cfg items m m' offset := by
  let start : Store := ⟨m.stack, m.table, m.words⟩
  have hbegin : Ending cfg start ([] : Text).length [] {} start :=
    .closed (.refl cfg start) (.inl rfl)
  have hmerged : Machine.Comes cfg { m with offset, rest := mergedText cfg items ++ m'.rest }
      { m' with offset := offset + (mergedText cfg items).length } :=
    comes_foldl hlimit hbegin offset m.offset h
  refine ⟨h.rest, hmerged, fun hend => ⟨?_, ?_⟩⟩
  · exact Machine.run_eq_ok_iff.mpr ⟨h.comes, hend⟩
  · rw [hend, List.append_nil] at hmerged
    rw [hend]
    exact Machine.run_eq_ok_iff.mpr ⟨hmerged, rfl⟩

/-- A type of the standard library, a mark and an entry of the table, each but the mark twice. -/
theorem mergedItems_twice :
    let items :
      List Item := [.standard ⟨'i', rfl⟩, .standard ⟨'i', rfl⟩, .chunk ['y'], .table 0, .table 0]
    let table : SubstitutionTable := .insert {} (.identifier ['n']) (.tree (.identifier ['n']))
    ∃ m, Passes {} items { offset := 0, rest := "SiSiyAAAA".text, table } m ∧ m.stack.length = 5 ∧
      Machine.run {} { offset := 0, rest := "S2iyA2A".text, table } =
      .ok { m with offset := 7 } := by
  intro items table
  have hone : CountAllowed {} 1 := .one (by decide)
  have hinteger (c : Store) :
      Parses {} ['S', 'i'] c (c.push (Standard.Entry.type ⟨'i', .structType, "Int"⟩)) :=
    .standardReference rfl hone
  have hmark (c : Store) : Parses {} ['y'] c (c.push (.mk .emptyList .none [])) :=
    .of_operator rfl fun _ _ => rfl
  have hentry (stack : List Node) : Parses {} ['A', 'A'] ⟨stack, table, []⟩
      ⟨.identifier ['n'] :: stack, table, []⟩ :=
    .tableReference (.upper (i := 0) (by decide) rfl hone)
  have hpasses : Passes {} items { offset := 0, rest := "SiSiyAAAA".text, table } _ :=
    ⟨_, (hinteger ⟨[], table, []⟩).comes 0 "SiyAAAA".text, rfl, _,
      (hinteger ⟨_, table, []⟩).comes 2 "yAAAA".text, rfl,
      _, (hmark ⟨_, table, []⟩).comes 4 "AAAA".text, rfl, _, (hentry _).comes 5 "AA".text, rfl,
      _, (hentry _).comes 7 [], rfl, rfl⟩
  exact ⟨_, hpasses, rfl, ((mergedItems (by decide) hpasses 0).runs rfl).2⟩

end SwiftABI.Merging
