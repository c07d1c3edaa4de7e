/-
  Values that live in their buffers.

  A value lives in its buffer if it fits the words that are configured for a buffer. But storage is
  always taken for three words. So a value stays in the storage of its buffer as long as no more
  words are configured (`TypeLayout.fits_iff`), and a larger one reaches into what lies behind
  (`WitnessTable.overrunsBuffer`). What a copy into the buffer changes are the bytes of the value,
  whatever becomes of it (`Run.staysIn_copyBuffer`). Storage for a buffer is a `Memory.Reserve` for
  as long as memory is used, so the bytes of other storage are safe from values that fit
  (`WitnessTable.inlineBuffer`).
-/
import SwiftABI.Proofs.Witness.BufferLifecycle
import SwiftABI.Proofs.Witness.Calls

namespace SwiftABI

/-! ### What fits -/

namespace TypeLayout

variable {l : TypeLayout} {words pointerSize : Int}

theorem isInline_iff : l.isInline words = true ↔
    l.isBitwiseTakable = true ∧ (l.size : Int) ≤ words * l.pointerSize ∧
      (l.alignment : Int) ≤ l.pointerSize := by
  unfold isInline
  rw [Bool.and_eq_true, Bool.and_eq_true, decide_eq_true_iff, decide_eq_true_iff, and_assoc]

/-- The layout of four words that need no alignment. -/
def fourWords (pointerSize : Int) : TypeLayout :=
  { size := (4 * pointerSize).toNat, alignment := 1, extraInhabitants := 0, isPod :=
    true, isBitwiseTakable := true, caseCount := none, hasSpareBits := false, pointerSize }

theorem valid_fourWords (pointerSize : Int) : (fourWords pointerSize).Valid :=
  LayoutDraft.fault?_eq_none_iff.mpr
    ⟨Int.natCast_nonneg _, rfl, (by decide : (1 : Int) - 1 ≤ 255),
      (by decide : (0 : Int) ≤ 0 ∧ (0 : Int) ≤ 0x7FFFFFFF),
      fun _ => rfl, fun _ => rfl, rfl⟩

/-- Values that live in buffers of some words fit three words in every case exactly if there are at
most three. -/
theorem fits_iff (hpointer : 0 < pointerSize) :
    (∀ l : TypeLayout, l.Valid → l.pointerSize = pointerSize → l.isInline words = true →
      (l.size : Int) ≤ 3 * pointerSize) ↔ words ≤ 3 := by
  constructor
  · intro h
    -- Where there are more words, a value of four words lives in its buffer, although it does not
    -- fit three.
    refine Int.not_lt.mp fun hmore => ?_
    have hwords : 4 * pointerSize ≤ words * pointerSize :=
      Int.mul_le_mul_of_nonneg_right hmore (Int.le_of_lt hpointer)
    have hsize : ((fourWords pointerSize).size : Int) = 4 * pointerSize :=
      Int.toNat_of_nonneg (by omega)
    have hinline : (fourWords pointerSize).isInline words = true :=
      isInline_iff.mpr ⟨rfl, hsize.symm ▸ hwords, hpointer⟩
    have hfits := h (fourWords pointerSize) (valid_fourWords pointerSize) rfl hinline
    omega
  · intro hwords l _ hsize hinline
    obtain ⟨-, hfits, -⟩ := isInline_iff.mp hinline
    have hle : words * pointerSize ≤ 3 * pointerSize :=
      Int.mul_le_mul_of_nonneg_right hwords (Int.le_of_lt hpointer)
    rw [hsize] at hfits
    exact Int.le_trans hfits hle

end TypeLayout

/-- No room has to be made for a value that lives in its buffer. -/
theorem WitnessTable.allocateBuffer_of_isInline {t : WitnessTable} (h : t.isInline = true)
    (buffer : Int) :
    t.allocateBuffer buffer = pure buffer := by
  unfold allocateBuffer
  rw [if_pos h]

/-! ### What changes -/

namespace Run

variable {α β : Type} {a : Int} {n : Nat}

/-- However the steps end, no byte outside of the range has changed. -/
def StaysIn (a : Int) (n : Nat) (x : Run α) : Prop :=
  ∀ s, s.memory.Paged → (x.outcome s).2.memory.Paged ∧
    ∀ y, ¬(a ≤ y ∧ y < a + n) → (x.outcome s).2.memory.byte? y = s.memory.byte? y

theorem StaysIn.bind {x : Run α} {f : α → Run β} (hx : StaysIn a n x)
    (hf : ∀ r, StaysIn a n (f r)) :
    StaysIn a n (x >>= f) := by
  intro s hm
  obtain ⟨hpaged, hsame⟩ := hx s hm
  rw [outcome_bind]
  rcases hout : x.outcome s with ⟨e | r, s'⟩ <;> rw [hout] at hpaged hsame
  · exact ⟨hpaged, hsame⟩
  · obtain ⟨hpaged', hsame'⟩ := hf r s' hpaged
    exact ⟨hpaged', fun y hy => (hsame' y hy).trans (hsame y hy)⟩

theorem staysIn_of_idle {x : Run α} (hx : Idle x) (a : Int) (n : Nat) : StaysIn a n x := by
  intro s hm
  rw [(hx s).memory]
  exact ⟨hm, fun _ _ => rfl⟩

/-- Steps that do not touch memory, apart from its marks. -/
theorem staysIn_of_memory {x : Run α}
    (h : ∀ s, ∃ marks, (x.outcome s).2.memory = { s.memory with marks })
    (a : Int) (n : Nat) : StaysIn a n x := by
  intro s hm
  obtain ⟨marks, hmemory⟩ := h s
  rw [hmemory]
  exact ⟨hm, fun _ _ => rfl⟩

/-- Where writing fails half way, the bytes that have been written lie in the range. -/
theorem staysIn_write {bytes : Bytes} (hlength : bytes.length ≤ n) :
    StaysIn a n (write a bytes) := by
  intro s hm
  have hmemory : ((write a bytes).outcome s).2.memory = (s.memory.write a bytes).2 := by
    rw [outcome_write]
    rcases (s.memory.write a bytes).1 with f | ⟨⟩ <;> rfl
  rw [hmemory]
  obtain ⟨hpaged, ⟨-, -, hbytes⟩ | ⟨i, hi, -, hbytes⟩⟩ := Memory.write_cases hm a bytes
  · refine ⟨hpaged, fun y hy => ?_⟩
    rw [hbytes, Memory.overwritten, if_neg (by omega)]
  · refine ⟨hpaged, fun y hy => ?_⟩
    rw [hbytes, Memory.overwritten, if_neg (by rw [List.length_take]; omega)]

/-- Copying changes the bytes that are copied to. -/
theorem staysIn_copy (dest src : Int) (size : Nat) : StaysIn dest size (copy dest src size) := by
  intro s hm
  unfold copy
  rw [outcome_bind, outcome_read, Int.toNat_natCast]
  rcases Memory.read_cases hm src size with ⟨bytes, hread, hlength, -⟩ | ⟨i, -, hread⟩ <;>
    rw [hread]
  · exact staysIn_write (Nat.le_of_eq hlength) s hm
  · exact ⟨hm, fun _ _ => rfl⟩

theorem staysIn_copyValue {t : WitnessTable} (hooks : t.layout.OnlyRecords) (dest src : Int) :
    StaysIn dest t.layout.size (t.copyValue dest src) := by
  refine (staysIn_copy dest src t.layout.size).bind fun _ => ?_
  refine staysIn_of_memory (fun s => ⟨s.memory.marks, ?_⟩) _ _
  rw [WitnessTable.outcome_runCopyHook hooks]

/-- A copy into a buffer changes the bytes of the value there, if that is where the value lives. -/
theorem staysIn_copyBuffer {t : WitnessTable} (hinline : t.isInline = true)
    (hooks : t.layout.OnlyRecords) (dest src : Int) :
    StaysIn dest t.layout.size (t.initializeBufferWithCopyOfBuffer dest src) := by
  have hmark (address : Int) : StaysIn dest t.layout.size (markInitialized address) :=
    staysIn_of_memory (fun _ => ⟨_, rfl⟩) _ _
  unfold WitnessTable.initializeBufferWithCopyOfBuffer
  dsimp only
  rw [WitnessTable.allocateBuffer_of_isInline hinline]
  refine (staysIn_of_idle (Idle.law.requireUninitialized _ _ _) _ _).bind fun _ => ?_
  refine (staysIn_of_idle (Idle.law.projectBuffer t src) _ _).bind fun srcValue => ?_
  refine (staysIn_of_idle (Idle.law.requireInitialized _ _ _) _ _).bind fun _ => ?_
  refine (staysIn_copyValue hooks dest srcValue).bind fun _ => ?_
  refine (hmark dest).bind fun _ => ?_
  refine (hmark dest).bind fun _ => ?_
  exact staysIn_of_idle (.pure dest) _ _

end Run

/-! ### Storage that is set aside -/

/-- Storage lies before the cursor, and has no address in common with other storage that is held. -/
structure Memory.Reserve (a n : Int) (m : Memory) : Prop where
  order : m.Orderly
  below : a + n ≤ m.cursor
  apart (b k : Int) (h : m.allocations[b]? = some k) (hne : b ≠ a) : a + n ≤ b ∨ b + k ≤ a

theorem Memory.Reserve.stable (a n : Int) : Memory.Stable (Memory.Reserve a n) where
  paged _ h := h.order.paged
  same m m' h hsame hpaged := by
    refine ⟨h.order.same hsame hpaged, hsame.cursor ▸ h.below, fun b k hk => ?_⟩
    rw [hsame.allocations] at hk
    exact h.apart b k hk
  taken m h address haddress size := by
    have hbelow := h.below
    have hcursor : (m.taken address size).cursor = address + (max size 1).toNat := rfl
    refine ⟨h.order.taken haddress size, by omega, fun b k hk hne => ?_⟩
    change ((m.mapRange address size).allocations.insert (address : Int) size)[b]? = some k at hk
    rw [(samePlan_mapRange address size).allocations, Std.TreeMap.getElem?_insert] at hk
    simp only [Std.compare_eq_iff_eq] at hk
    -- New storage begins at the cursor or behind it, so that it lies behind what is set aside.
    split at hk
    · exact .inl (by omega)
    · exact h.apart b k hk hne
  returned m h address marks := by
    refine ⟨h.order.returned address marks, h.below, fun b k hk hne => ?_⟩
    change (m.allocations.erase address)[b]? = some k at hk
    rw [Std.TreeMap.getElem?_erase] at hk
    split at hk
    · cases hk
    · exact h.apart b k hk hne

/-- New storage is set aside. -/
theorem Memory.Took.reserve {m m' : Memory} {a : Int} {n : Nat} (h : m.Took a n m')
    (horder : m.Orderly) :
    Memory.Reserve a n m' := by
  have habove := h.above
  have hend := h.below
  refine ⟨horder.took h, by omega, fun b k hk hne => ?_⟩
  rw [h.allocations, if_neg hne] at hk
  have hbelow := horder.below b k hk
  exact .inr (by omega)

/-! ### Values in their buffers -/

namespace WitnessTable

variable {t : WitnessTable} {s : Session} {buffer : Int}

/-- A value has the address of its buffer, and copying it there changes its own bytes only. These
are bytes of the buffer if the value fits three words, and then no other storage is touched. -/
structure LivesIn (t : WitnessTable) (buffer : Int) (s : Session) : Prop where
  allocate : (t.allocateBuffer buffer).outcome s = (.ok buffer, s)
  changes (src x : Int) (hx : ¬(buffer ≤ x ∧ x < buffer + t.layout.size)) :
    ((t.initializeBufferWithCopyOfBuffer buffer src).outcome s).2.memory.byte? x = s.memory.byte? x
  others (hfits : (t.layout.size : Int) ≤ 3 * s.memory.pointerSize) (src a n x : Int)
    (ha : s.memory.allocations[a]? = some n) (hne : a ≠ buffer) (hx : a ≤ x ∧ x < a + n) :
    ((t.initializeBufferWithCopyOfBuffer buffer src).outcome s).2.memory.byte? x = s.memory.byte? x

theorem livesIn (hinline : t.isInline = true) (hooks : t.layout.OnlyRecords)
    (hreserve : Memory.Reserve buffer (3 * s.memory.pointerSize) s.memory) :
    t.LivesIn buffer s := by
  have hstays := fun src => Run.staysIn_copyBuffer hinline hooks buffer src s hreserve.order.paged
  constructor
  case allocate =>
    rw [allocateBuffer_of_isInline hinline]
    rfl
  case changes =>
    intro src x hx
    exact (hstays src).2 x hx
  case others =>
    intro hfits src a n x ha hne hx
    refine (hstays src).2 x fun hvalue => ?_
    rcases hreserve.apart a n ha hne with hbehind | hbefore <;> omega

/-- In every memory whose pointers have a power of two as their size, a value that lives in a new
buffer is where the buffer is, and stays so whatever else is done, by hooks too as long as they use
memory through its operations. Copying it there changes no byte but its own. It lies inside of the
storage of the buffer if it fits three words, which is so of all values exactly if there are at most
three words. -/
theorem inlineBuffer {pageSize pointerSize : Int} {m : Memory}
    (hcreate : Memory.create pageSize pointerSize = .ok m)
    (hpower : isPowerOfTwo pointerSize = true) (words : Int) {before : List SessionCall}
    (hbefore : ∀ c ∈ before, c.HooksSatisfy Run.KeepsStable) :
    (∃ buffer s₁, newBuffer.outcome (SessionCall.performAll before (.ofMemory m)).2 =
        (.ok buffer, s₁) ∧
      s₁.memory.allocations[buffer]? = some (3 * pointerSize) ∧
      ∀ (t : WitnessTable) (later : List SessionCall), t.isInline = true → t.layout.OnlyRecords →
        (∀ c ∈ later, c.HooksSatisfy Run.KeepsStable) →
        (SessionCall.performAll later s₁).2.memory.pointerSize = pointerSize ∧
          t.LivesIn buffer (SessionCall.performAll later s₁).2) ∧
    ((∀ l : TypeLayout, l.Valid → l.pointerSize = pointerSize → l.isInline words = true →
      (l.size : Int) ≤ 3 * pointerSize) ↔ words ≤ 3) := by
  have hpos := isPowerOfTwo.pos hpower
  refine ⟨?_, TypeLayout.fits_iff hpos⟩
  obtain ⟨horder, hsize⟩ :=
    SessionCall.stable_performAll (Memory.Orderly.stable.with_pointerSize pointerSize) hbefore
      (s := .ofMemory m) ⟨.of_create hcreate, Memory.pointerSize_of_create hcreate⟩
  -- Of what has been called before, only the order of memory and the size of pointers matter.
  generalize (SessionCall.performAll before (.ofMemory m)).2 = s at horder hsize
  obtain ⟨buffer, s₁, hbuffer, htook⟩ := newBuffer_took horder.paged (hsize ▸ hpower)
  have hbytes : (bufferBytes s.memory : Int) = 3 * pointerSize := by
    unfold bufferBytes
    omega
  have hreserve := htook.reserve horder
  rw [hbytes] at hreserve
  refine ⟨buffer, s₁, hbuffer, by rw [htook.allocations, if_pos rfl, hbytes],
    fun t later hinline hooks hlater => ?_⟩
  have hkept := (Memory.Reserve.stable buffer (3 * pointerSize)).with_pointerSize pointerSize
  obtain ⟨hstill, hlaterSize⟩ := SessionCall.stable_performAll hkept hlater (s := s₁)
    ⟨hreserve, htook.spares.pointerSize.trans hsize⟩
  exact ⟨hlaterSize, livesIn hinline hooks (hlaterSize.symm ▸ hstill)⟩

/-- A table of values of four words, for buffers that are said to have four. -/
def wideTable : WitnessTable := { layout := .fourWords 8, name := opaqueName, bufferWords := 4 }

/-- A value of four words lives where its buffer is, with storage behind that. Not every such value
fits the buffer. -/
theorem inlineBuffer_wideTable :
    Memory.create 64 8 = .ok (.empty 6 8) ∧ isPowerOfTwo 8 = true ∧ wideTable.isInline = true ∧
      wideTable.layout.OnlyRecords ∧
      (∃ buffer s, newBuffer.outcome (.ofMemory (.empty 6 8)) = (.ok buffer, s) ∧
        s.memory.allocations[buffer]? = some 24 ∧
        wideTable.LivesIn buffer (SessionCall.performAll [.memory (.allocate 8 8)] s).2) ∧
      ¬∀ l : TypeLayout, l.Valid → l.pointerSize = 8 → l.isInline 4 = true →
      (l.size : Int) ≤ 24 := by
  have hooks : wideTable.layout.OnlyRecords := TypeLayout.hooksSatisfy_of_none rfl rfl
  have hlater : ∀ c ∈ [SessionCall.memory (.allocate 8 8)], c.HooksSatisfy Run.KeepsStable := by
    intro c hc t ht
    rw [List.mem_singleton.mp hc] at ht
    cases ht
  have hcreate : Memory.create 64 8 = .ok (.empty 6 8) := rfl
  have hnone : ∀ c ∈ ([] : List SessionCall), c.HooksSatisfy Run.KeepsStable :=
    List.forall_mem_nil _
  obtain ⟨⟨buffer, s, hbuffer, hheld, hlives⟩, hfits⟩ := inlineBuffer hcreate (by decide) 4 hnone
  obtain ⟨-, hafter⟩ := hlives wideTable [.memory (.allocate 8 8)] (by decide) hooks hlater
  exact ⟨rfl, by decide, by decide, hooks, ⟨buffer, s, hbuffer, hheld, hafter⟩,
    fun h => absurd (hfits.mp h) (by decide)⟩

/-- Two buffers, the first of which holds a value of four words, and behind them storage with a
number. -/
def wideSession : Session :=
  (Run.outcome (do
    let src ← newBuffer
    let _ ← newBuffer
    let behind ← Run.allocate 8 8
    Run.writeInt behind 0x0102030405060708 8 false
    Run.markInitialized src) (.ofMemory (.empty 6 8))).2

/-- The value is copied into the buffer at 88. It reaches into the storage behind the buffer, where
it replaces the number. -/
theorem overrunsBuffer :
    let after := ((wideTable.initializeBufferWithCopyOfBuffer 88 64).outcome wideSession).2
    ((wideTable.initializeBufferWithCopyOfBuffer 88 64).outcome wideSession).1 = .ok 88 ∧
      wideSession.memory.allocations[(88 : Int)]? = some 24 ∧
      wideSession.memory.allocations[(112 : Int)]? = some 8 ∧
      wideSession.memory.byte? 112 = some 8 ∧ after.memory.byte? 112 = some 0 := by
  decide +kernel

end WitnessTable

end SwiftABI
