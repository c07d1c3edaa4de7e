/-
  Tables that are written to bytes and read back.

  A record of a table holds, slot by slot, a datum of the layout or the handle of a function
  (`WitnessTable.Holds`). Since functions keep their handles, the record of the slots that all
  tables have begins the record of all slots, whichever of them is made first. The bytes of the
  longer one are therefore read as either of them, and the flags among them tell which
  (`WitnessTable.readBack`).
-/
import Mathlib.Data.Option.Basic
import SwiftABI.Proofs.Record.Packing
import SwiftABI.Proofs.Witness.Handle
import SwiftABI.Proofs.Witness.Layout
import SwiftABI.Witness.Table

namespace SwiftABI

/-! ### The fields of the two records -/

namespace WitnessSlot

/-- The slots that are in the tables of enums only come last. -/
theorem all_eq :
    all = required ++ [.getEnumTag, .destructiveProjectEnumData, .destructiveInjectEnumTag] := rfl

theorem isPlain_field (slot : WitnessSlot) : slot.field.IsPlain := by
  constructor
  · cases slot <;> decide
  · intro property
    cases slot <;> cases property <;> decide

theorem nodup_names : (all.map name).Nodup := by decide

end WitnessSlot

namespace Schema

theorem fields?_allValueWitnesses :
    allValueWitnesses.fields? = some (WitnessSlot.all.map WitnessSlot.field) := by
  rfl

theorem fields?_requiredValueWitnesses :
    requiredValueWitnesses.fields? = some (WitnessSlot.required.map WitnessSlot.field) := by
  rfl

end Schema

/-- What is in the same place of two lists is paired. -/
private theorem mem_zip_of_map_eq {α β : Type} {g : α → Option β} {xs : List α} {ys : List β}
    (h : xs.map g = ys.map some) {x : α} {y : β} (hx : x ∈ xs) (hy : g x = some y) :
    (x, y) ∈ xs.zip ys := by
  induction xs generalizing ys with
  | nil => cases hx
  | cons x' xs ih =>
    cases ys with
    | nil => cases h
    | cons y' ys =>
      obtain ⟨hhead, htail⟩ := List.cons.inj h
      rcases List.mem_cons.mp hx with rfl | hx
      · rw [hy] at hhead
        rw [Option.some.inj hhead]
        exact List.mem_cons_self
      · exact List.mem_cons_of_mem _ (ih htail hx)

namespace WitnessTable

variable {t : WitnessTable} {s : Session}

/-! ### Slots -/

/-- What a slot holds in a record of the table, if its functions have handles. -/
def held? (t : WitnessTable) (functions : FunctionTable) (slot : WitnessSlot) : Option Int :=
  match t.datum? slot with
  | some datum => some datum
  | none => if t.has slot then functions.handle? (.witness slot) else some 0

/-- Only the data slots hold a number of the table itself. -/
theorem isSome_datum? (t : WitnessTable) (slot : WitnessSlot) :
    (t.datum? slot).isSome = slot.isData := by
  cases slot <;> rfl

theorem held?_of_datum {functions : FunctionTable} {slot : WitnessSlot} {datum : Int}
    (h : t.datum? slot = some datum) : t.held? functions slot = some datum := by
  unfold held?
  rw [h]

theorem held?_of_no_datum {slot : WitnessSlot} (h : t.datum? slot = none)
    (functions : FunctionTable) :
    t.held? functions slot = if t.has slot then functions.handle? (.witness slot) else some 0 := by
  unfold held?
  rw [h]

theorem held?_of_grows {before after : FunctionTable} (h : before.Grows after) {slot : WitnessSlot}
    {value : Int}
    (hvalue : t.held? before slot = some value) : t.held? after slot = some value := by
  rcases hdatum : t.datum? slot with _ | datum
  · rw [held?_of_no_datum hdatum] at hvalue ⊢
    split
    · next hhas =>
      rw [if_pos hhas] at hvalue
      exact h _ _ hvalue
    · next hhas => rwa [if_neg hhas] at hvalue
  · rwa [held?_of_datum hdatum] at hvalue ⊢

/-- A function that the table has is registered, and this gives its handle. -/
theorem outcome_handle {slot : WitnessSlot} (hfunction : slot.isData = false)
    (hhas : t.has slot = true)
    (s : Session) : (t.handle slot).outcome s = (Run.register (.witness slot)).outcome s := by
  unfold handle requireSlot
  rw [hfunction, hhas]
  rfl

/-- The slot is filled, and the memory stays as it is. -/
theorem outcome_slotValue (t : WitnessTable) (slot : WitnessSlot) (s : Session) :
    ∃ value s', (t.slotValue slot).outcome s = (.ok value, s') ∧ s.functions.Grows s'.functions ∧
      s'.memory = s.memory ∧ t.held? s'.functions slot = some value := by
  unfold slotValue
  rcases hdatum : t.datum? slot with _ | datum
  · dsimp only
    by_cases hhas : t.has slot = true
    · have hfunction : slot.isData = false := by
        rw [← t.isSome_datum? slot, hdatum]
        rfl
      obtain ⟨notes, hregister⟩ := Run.outcome_register (.witness slot) s
      rw [if_pos hhas, outcome_handle hfunction hhas, hregister]
      refine ⟨_, _, rfl, s.functions.grows_register _, rfl, ?_⟩
      rw [held?_of_no_datum hdatum, if_pos hhas]
      exact s.functions.handle?_register _
    · rw [if_neg hhas]
      refine ⟨0, s, rfl, .refl _, rfl, ?_⟩
      rw [held?_of_no_datum hdatum, if_neg hhas]
  · exact ⟨datum, s, rfl, .refl _, rfl, held?_of_datum hdatum⟩

theorem outcome_slotValues (t : WitnessTable) (slots : List WitnessSlot) (s : Session) :
    ∃ values s', (t.slotValues slots).outcome s = (.ok values, s') ∧
      s.functions.Grows s'.functions ∧
      s'.memory = s.memory ∧ slots.map (t.held? s'.functions) = values.map some := by
  induction slots generalizing s with
  | nil => exact ⟨[], s, rfl, .refl _, rfl, rfl⟩
  | cons slot slots ih =>
    obtain ⟨value, s', hvalue, hgrows, hmemory, hheld⟩ := t.outcome_slotValue slot s
    obtain ⟨values, s'', hvalues, hgrows', hmemory', hheld'⟩ := ih s'
    refine ⟨value :: values, s'', ?_, hgrows.trans hgrows', hmemory'.trans hmemory, ?_⟩
    · rw [slotValues, Run.outcome_bind_ok _ hvalue, Run.outcome_bind_ok _ hvalues]
      rfl
    · rw [List.map_cons, List.map_cons, held?_of_grows hgrows' hheld, hheld']

/-! ### Records -/

/-- The record has what the table holds in some slots, for a machine with pointers of this size. -/
structure Holds (t : WitnessTable) (functions : FunctionTable) (pointerSize : Int)
    (slots : List WitnessSlot) (r : Record) : Prop where
  fields : r.schema.fields? = some (slots.map WitnessSlot.field)
  packing : r.packing = { pointerSize := some pointerSize }
  values : slots.map (t.held? functions) = r.values.map some

/-- A record of the table is made, and the memory stays as it is. -/
theorem outcome_record (t : WitnessTable) {schema : Schema} {slots : List WitnessSlot}
    (hfields : schema.fields? = some (slots.map WitnessSlot.field)) (s : Session) :
    ∃ r s', (t.record schema slots).outcome s = (.ok r, s') ∧ s.functions.Grows s'.functions ∧
      s'.memory = s.memory ∧ r.schema = schema ∧
      t.Holds s'.functions s.memory.pointerSize slots r := by
  obtain ⟨values, s', hvalues, hgrows, hmemory, hheld⟩ := t.outcome_slotValues slots s
  have hrecord : (t.record schema slots).outcome s
      = (.ok ⟨schema, values, { pointerSize := some s'.memory.pointerSize }⟩, s') := by
    unfold record
    rw [Run.outcome_bind_ok _ hvalues]
    rfl
  rw [hmemory] at hrecord
  exact ⟨_, s', hrecord, hgrows, hmemory, rfl, hfields, rfl, hheld⟩

namespace Holds

variable {functions : FunctionTable} {pointerSize : Int} {slots : List WitnessSlot} {r : Record}

theorem exists_held (h : t.Holds functions pointerSize slots r) {slot : WitnessSlot}
    (hslot : slot ∈ slots) :
    ∃ value, t.held? functions slot = some value := by
  have hmem := List.mem_map_of_mem (f := t.held? functions) hslot
  rw [h.values] at hmem
  obtain ⟨value, -, hvalue⟩ := List.mem_map.mp hmem
  exact ⟨value, hvalue.symm⟩

theorem of_grows {after : FunctionTable} (h : t.Holds functions pointerSize slots r)
    (hgrows : functions.Grows after) : t.Holds after pointerSize slots r := by
  refine ⟨h.fields, h.packing, ?_⟩
  rw [← h.values]
  apply List.map_congr_left
  intro slot hslot
  obtain ⟨value, hvalue⟩ := h.exists_held hslot
  rw [hvalue]
  exact held?_of_grows hgrows hvalue

theorem length (h : t.Holds functions pointerSize slots r) : slots.length = r.values.length := by
  simpa using congrArg List.length h.values

theorem entries_eq (h : t.Holds functions pointerSize slots r) :
    r.entries = (slots.map WitnessSlot.field).zip r.values := by
  unfold Record.entries Schema.fields
  rw [h.fields]
  rfl

theorem fst_entries (h : t.Holds functions pointerSize slots r) :
    r.entries.map Prod.fst = slots.map WitnessSlot.field := by
  rw [h.entries_eq]
  exact List.map_fst_zip (Nat.le_of_eq (by rw [List.length_map, h.length]))

theorem snd_entries (h : t.Holds functions pointerSize slots r) :
    r.entries.map Prod.snd = r.values := by
  rw [h.entries_eq]
  exact List.map_snd_zip (Nat.le_of_eq (by rw [List.length_map, h.length]))

theorem isPlain (h : t.Holds functions pointerSize slots r) : ∀ f ∈ r.schema.fields, f.IsPlain := by
  unfold Schema.fields
  rw [h.fields]
  intro f hf
  obtain ⟨slot, -, rfl⟩ := List.mem_map.mp hf
  exact slot.isPlain_field

theorem nodup (h : t.Holds functions pointerSize slots r)
    (hnodup : (slots.map WitnessSlot.name).Nodup) :
    (r.entries.map fun e => e.1.name).Nodup := by
  have hnames : (r.entries.map fun e => e.1.name) = (r.entries.map Prod.fst).map Field.name := by
    simp
  rw [hnames, h.fst_entries, List.map_map]
  exact hnodup

theorem pack_eq (h : t.Holds functions pointerSize slots r) :
    r.pack = Record.packFields { pointerSize := some pointerSize } r.entries := by
  rw [Record.pack_of_plain h.isPlain, h.packing]

/-- The record is read from its bytes. -/
theorem unpack (h : t.Holds functions pointerSize slots r) {raw : Bytes}
    (hraw : Record.packFields { pointerSize := some pointerSize } r.entries = .ok raw)
    (back : Bytes) :
    Record.unpack r.schema { pointerSize := some pointerSize } (raw ++ back) = .ok r := by
  have hfields : r.schema.fields? = some (r.entries.map Prod.fst) := by rw [h.fst_entries, h.fields]
  have hplain : ∀ e ∈ r.entries, e.1.IsPlain := fun e he => h.isPlain _ (List.of_mem_zip he).1
  rw [Record.unpack_append hfields hplain hraw, h.snd_entries, ← h.packing]

/-- The record holds what the table does under the name of the slot. -/
theorem held?_eq (h : t.Holds functions pointerSize slots r)
    (hnodup : (slots.map WitnessSlot.name).Nodup)
    {slot : WitnessSlot} (hslot : slot ∈ slots) :
    t.held? functions slot = some (r.value slot.name) := by
  obtain ⟨value, hvalue⟩ := h.exists_held hslot
  have hmem : (slot.field, value) ∈ r.entries := by
    rw [h.entries_eq, List.zip_map_left]
    exact List.mem_map_of_mem (f := Prod.map WitnessSlot.field id)
      (mem_zip_of_map_eq h.values hslot hvalue)
  unfold Record.value
  rw [show slot.name = slot.field.name from rfl, Record.value?_of_mem (h.nodup hnodup) hmem]
  exact hvalue

theorem value_of_datum (h : t.Holds functions pointerSize slots r)
    (hnodup : (slots.map WitnessSlot.name).Nodup) {slot : WitnessSlot} (hslot : slot ∈ slots)
    {datum : Int} (hdatum : t.datum? slot = some datum) : r.value slot.name = datum :=
  Option.some.inj ((h.held?_eq hnodup hslot).symm.trans (held?_of_datum hdatum))

end Holds

/-! ### Tables in bytes -/

/-- The record of the slots that all tables have begins the record of all slots. -/
theorem Holds.entries_append {functions : FunctionTable} {pointerSize : Int} {a r : Record}
    (ha : t.Holds functions pointerSize WitnessSlot.all a)
    (hr : t.Holds functions pointerSize WitnessSlot.required r) :
    ∃ others, a.entries = r.entries ++ others := by
  have hvalues := ha.values
  rw [WitnessSlot.all_eq, List.map_append, hr.values] at hvalues
  obtain ⟨front, back, hfront, hsame, -⟩ := List.map_eq_append_iff.mp hvalues.symm
  rw [List.map_injective_iff.mpr (Option.some_injective Int) hsame] at hfront
  rw [ha.entries_eq, hr.entries_eq, hfront, WitnessSlot.all_eq, List.map_append,
    List.zip_append (by rw [List.length_map, hr.length])]
  exact ⟨_, rfl⟩

/-- The record of all slots can be written to bytes if its numbers fit. -/
theorem Holds.pack_cases {functions : FunctionTable} {pointerSize : Int} {slots : List WitnessSlot}
    {r : Record} (h : t.Holds functions pointerSize slots r) :
    (∃ raw, r.pack = .ok raw) ∨ r.pack = .error (.integer .overflow) ∨ pointerSize < 0 := by
  have htypes : ∀ e ∈ r.entries, e.1.type.size (some pointerSize) = .ok pointerSize ∨
      e.1.type.size (some pointerSize) = .ok 4 := by
    intro e he
    have hfield := List.mem_map_of_mem (f := Prod.fst) he
    rw [h.fst_entries] at hfield
    obtain ⟨slot, -, hslot⟩ := List.mem_map.mp hfield
    rw [← hslot]
    cases slot <;> first | exact .inl rfl | exact .inr rfl
  rw [h.pack_eq]
  rcases Record.packFields_cases (p := { pointerSize := some pointerSize }) rfl fun e he =>
      (htypes e he).elim (fun h => ⟨_, h⟩) fun h =>
        ⟨_, h⟩ with hraw | hraw | ⟨e, he, size, hneg, hsize⟩
  · exact .inl hraw
  · exact .inr (.inl hraw)
  · rcases htypes e he with h | h <;> rw [h] at hsize <;> cases hsize
    · exact .inr (.inr hneg)
    · exact absurd hneg (by decide)

/-- Bytes of a table are read as the record that goes with its layout, which tells the layout. The
shorter record agrees with the longer one. -/
structure ReadBack (t : WitnessTable) (all required : Record) (raw : Bytes) : Prop where
  loaded : loadValueWitnesses { pointerSize := some t.layout.pointerSize } raw =
    .ok (if t.layout.isEnum then all else required)
  agrees : required.agrees all = .ok true
  layout (cfg : Config) : ∃ l,
    TypeLayout.ofRecord cfg none (if t.layout.isEnum then all else required) = .ok l ∧
      l.Recovers t.layout

/-- What the flags of a record say about enums is so. -/
theorem Holds.bit_flags {functions : FunctionTable} {pointerSize : Int} {slots : List WitnessSlot}
    {r : Record}
    (h : t.Holds functions pointerSize slots r) (hnodup : (slots.map WitnessSlot.name).Nodup)
    (hslot : .flags ∈ slots) :
    bit (r.value WitnessSlot.flags.name) TypeLayout.enumBit = t.layout.isEnum := by
  rw [h.value_of_datum hnodup hslot rfl]
  exact (TypeLayout.bit_flags t.bufferWords t.layout).2.2.2.2

/-- A record of the table tells the layout. -/
theorem Holds.ofRecord {functions : FunctionTable} {slots : List WitnessSlot} {r : Record}
    (cfg : Config) (hvalid : t.layout.Valid) (h : t.Holds functions t.layout.pointerSize slots r)
    (hnodup : (slots.map WitnessSlot.name).Nodup)
    (hdata : ∀ slot ∈ [WitnessSlot.size, .flags, .extraInhabitantCount], slot ∈ slots) :
    TypeLayout.ofRecord cfg none r = .ok t.layout.tabulated := by
  refine TypeLayout.ofRecord_eq cfg hvalid ?_
    (h.value_of_datum hnodup (hdata .flags (by decide)) rfl) ?_ ?_
  · exact h.value_of_datum hnodup (hdata _ (by decide)) rfl
  · exact h.value_of_datum hnodup (hdata _ (by decide)) rfl
  · rw [h.packing]

/-- The longer of two records is read back as either of them. -/
theorem Holds.recovered {functions : FunctionTable} {a r : Record} {raw : Bytes}
    (hvalid : t.layout.Valid) (ha : t.Holds functions t.layout.pointerSize WitnessSlot.all a)
    (hr : t.Holds functions t.layout.pointerSize WitnessSlot.required r)
    (haschema : a.schema = .allValueWitnesses) (hrschema : r.schema = .requiredValueWitnesses)
    (hraw : a.pack = .ok raw) : t.ReadBack a r raw := by
  have hrequired : (WitnessSlot.required.map WitnessSlot.name).Nodup := by decide
  obtain ⟨others, hentries⟩ := ha.entries_append hr
  rw [ha.pack_eq] at hraw
  -- The bytes begin with those of the shorter record.
  have hbegin := hraw
  rw [hentries] at hbegin
  obtain ⟨front, back, hfront, hbytes⟩ := Record.exists_packFields_of_append hbegin
  have hshort := hr.unpack hfront back
  have hlong := ha.unpack hraw []
  rw [← hbytes, hrschema] at hshort
  rw [List.append_nil, haschema] at hlong
  refine ⟨?_, ?_, ?_⟩
  · unfold loadValueWitnesses
    rw [hshort]
    show (if bit (r.value WitnessSlot.flags.name) TypeLayout.enumBit then _ else _) = _
    rw [hr.bit_flags hrequired (by decide), hlong]
    split
    · rfl
    · rfl
  · apply Record.agrees_of_subset hr.isPlain (ha.nodup WitnessSlot.nodup_names)
    rw [hentries]
    exact List.subset_append_left _ _
  · refine fun cfg => ⟨t.layout.tabulated, ?_, t.layout.recovers_tabulated⟩
    split
    · exact ha.ofRecord cfg hvalid WitnessSlot.nodup_names (by decide)
    · exact hr.ofRecord cfg hvalid hrequired (by decide)

/-- The records of a table are always made. If functions keep their handles from the first of them
to the second, the bytes of the longer record are read back. -/
theorem readBack {s s' : Session} (hvalid : t.layout.Valid)
    (hs : t.layout.pointerSize = s.memory.pointerSize)
    (hs' : t.layout.pointerSize = s'.memory.pointerSize) :
    ∃ a s₁ r s₁', t.all.outcome s = (.ok a, s₁) ∧ t.required.outcome s' = (.ok r, s₁') ∧
      ((∃ raw, a.pack = .ok raw) ∨ a.pack = .error (.integer .overflow) ∨
        t.layout.pointerSize < 0) ∧
      (s₁.functions.Grows s'.functions ∨ s₁'.functions.Grows s.functions →
        ∀ raw, a.pack = .ok raw → t.ReadBack a r raw) := by
  obtain ⟨a, s₁, hall, hgrows, -, haschema, ha⟩ :=
    t.outcome_record Schema.fields?_allValueWitnesses s
  obtain ⟨r, s₁', hrequired, hgrows', -, hrschema, hr⟩ :=
    t.outcome_record Schema.fields?_requiredValueWitnesses s'
  rw [← hs] at ha
  rw [← hs'] at hr
  refine ⟨a, s₁, r, s₁', hall, hrequired, ha.pack_cases, ?_⟩
  rintro (hlater | hlater) raw hraw
  · exact (ha.of_grows (hlater.trans hgrows')).recovered hvalid hr haschema hrschema hraw
  · exact ha.recovered hvalid (hr.of_grows (hlater.trans hgrows)) haschema hrschema hraw

/-- The table of an enum with four cases. -/
def fourCases : WitnessTable :=
  { layout :=
      { size := 1, alignment := 1, extraInhabitants := 252, isPod := true, isBitwiseTakable := true,
        caseCount := some 4, hasSpareBits := false, pointerSize := 8 }
    name := opaqueName
    bufferWords := 3 }

/-- The records of an enum, the shorter one made after the longer one, whose bytes are enough for
its numbers. -/
theorem readBack_fourCases :
    let s := Session.ofMemory (.empty 14 8)
    fourCases.layout.Valid ∧ fourCases.layout.pointerSize = s.memory.pointerSize ∧
      ∃ a r raw, (fourCases.all.outcome s).1 = .ok a ∧
        (fourCases.required.outcome (fourCases.all.outcome s).2).1 = .ok r ∧ a.pack = .ok raw ∧
          fourCases.ReadBack a r raw := by
  refine ⟨by decide, rfl, ?_⟩
  obtain ⟨a, s₁, r, s₁', hall, hrequired, -, hread⟩ := @readBack fourCases (.ofMemory (.empty 14 8))
    (fourCases.all.outcome (.ofMemory (.empty 14 8))).2 (by decide) rfl (by decide +kernel)
  have hpacked : ((fourCases.all.outcome (.ofMemory (.empty 14 8))).1.toOption.bind fun a =>
      a.pack.toOption).isSome = true := by decide +kernel
  rw [hall] at hrequired hread hpacked ⊢
  rcases hpack : a.pack with e | raw
  · simp [Except.toOption, hpack] at hpacked
  · exact ⟨a, r, raw, rfl, by rw [hrequired], hpack, hread (.inl (.refl _)) raw hpack⟩

end WitnessTable

end SwiftABI
