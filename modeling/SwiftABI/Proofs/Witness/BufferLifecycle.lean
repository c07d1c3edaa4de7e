/-
  The values of a buffer, one after the other.

  A buffer leads to its value, which is in the buffer itself or in a box (`WitnessTable.Leads`). In
  both cases a copy into a buffer that holds no value leaves alone all that lies elsewhere
  (`outcome_copyBuffer`), and giving the copy up again brings marks and storage back to what they
  were (`outcome_releaseBuffer`). What these two ask of a session is kept by them (`Ready`), so that
  one buffer can be copied into any number of times (`bufferLifecycle`).
-/
import SwiftABI.Proofs.Memory.Order
import SwiftABI.Proofs.Witness.Buffer
import SwiftABI.Proofs.Witness.Layout

namespace SwiftABI.WitnessTable

variable {t : WitnessTable} {s s' : Session} {m m' m'' : Memory} {touched : Int → Prop}
  {buffer dest src value copy : Int} {content : Bytes}

/-! ### Buffers -/

/-- The table has a layout for the memory, buffers of as many words as the memory gives them, and no
hooks but such as only record. -/
structure Suits (t : WitnessTable) (m : Memory) : Prop where
  valid : t.layout.Valid
  hooks : t.layout.OnlyRecords
  pointerSize : t.layout.pointerSize = m.pointerSize
  power : isPowerOfTwo m.pointerSize = true
  words : t.bufferWords = 3

/-- How many bytes a buffer has. -/
def bufferBytes (m : Memory) : Nat := (3 * m.pointerSize).toNat

/-- The addresses of a buffer. -/
def InBuffer (m : Memory) (buffer x : Int) : Prop := buffer ≤ x ∧ x < buffer + bufferBytes m

/-- What may change when room is made in a buffer: the buffer, and storage that nobody has taken
yet. -/
def InBufferOrNew (m : Memory) (buffer x : Int) : Prop := InBuffer m buffer x ∨ (m.cursor : Int) ≤ x

theorem Suits.spares (h : t.Suits m) (hs : m.Spares touched m') : t.Suits m' :=
  ⟨h.valid, h.hooks, h.pointerSize.trans hs.pointerSize.symm, hs.pointerSize ▸ h.power, h.words⟩

theorem Suits.bufferBytes_eq (h : t.Suits m) : (bufferBytes m : Int) = 3 * m.pointerSize := by
  have hpos := isPowerOfTwo.pos h.power
  unfold bufferBytes
  omega

theorem bufferBytes_congr (hs : m.Spares touched m') : bufferBytes m' = bufferBytes m := by
  unfold bufferBytes
  rw [hs.pointerSize]

theorem InBuffer.spares {x : Int} (hs : m.Spares touched m') (h : InBuffer m' buffer x) :
    InBuffer m buffer x := by
  unfold InBuffer at *
  rwa [bufferBytes_congr hs] at h

/-- A value that lives in its buffer fits it. -/
theorem Suits.size_le (h : t.Suits m) (hinline : t.isInline = true) :
    t.layout.size ≤ bufferBytes m := by
  unfold isInline TypeLayout.isInline at hinline
  rw [Bool.and_eq_true, Bool.and_eq_true, decide_eq_true_iff] at hinline
  have hsize := hinline.1.2
  have hbuffer := h.bufferBytes_eq
  rw [h.words, h.pointerSize] at hsize
  omega

theorem outcome_bufferSize (s : Session) :
    bufferSize.outcome s = (.ok (3 * s.memory.pointerSize), s) := rfl

/-- Storage for a buffer is taken. -/
theorem newBuffer_took (hm : s.memory.Paged) (hpower : isPowerOfTwo s.memory.pointerSize = true) :
    ∃ buffer s', newBuffer.outcome s = (.ok buffer, s') ∧
      s.memory.Took buffer (bufferBytes s.memory) s'.memory := by
  have hpos := isPowerOfTwo.pos hpower
  have hsize : 3 * s.memory.pointerSize = (bufferBytes s.memory : Int) := by
    unfold bufferBytes
    omega
  obtain ⟨buffer, s₁, hallocate, htook⟩ := Run.allocate_took hm hpower (bufferBytes s.memory)
  obtain ⟨s', hfill, hwrote⟩ := Run.fill_wrote htook.spares.paged htook.mapped 0
  change (Run.fill buffer (bufferBytes s.memory) 0).outcome s₁ = (.ok (), s') at hfill
  have hconfined := hwrote.confined List.length_replicate
  refine ⟨buffer, s', ?_, ?_⟩
  · unfold newBuffer
    rw [Run.outcome_bind_ok _ (outcome_bufferSize s),
      Run.outcome_bind_ok _ (Run.outcome_memory s), hsize,
      Run.outcome_bind_ok _ hallocate, Run.outcome_bind_ok _ hfill]
    rfl
  · have habove := htook.above
    refine ⟨htook.spares.trans (hconfined.spares htook.spares.paged fun x hx _ => by omega),
      habove, ?_,
      hconfined.mapped htook.spares.paged htook.mapped, fun x =>
      ?_, hconfined.quiet.marks.trans htook.marks⟩
    · rw [hconfined.storage.cursor]
      exact htook.below
    · rw [hconfined.storage.allocations]
      exact htook.allocations x

/-- A pointer takes the first word of a buffer. -/
theorem writePointer_intoBuffer (hpower : isPowerOfTwo s.memory.pointerSize = true)
    (hm : s.memory.Paged)
    (hmapped : s.memory.Mapped buffer (bufferBytes s.memory)) (address : Int) :
    ∃ s', (Run.writePointer buffer address).outcome s = (.ok (), s') ∧
      s.Wrote buffer (Bytes.ofNat s.memory.pointerSize.toNat
        (address % (256 ^ s.memory.pointerSize.toNat : Nat)).toNat) s' ∧
      s.memory.Spares (InBuffer s.memory buffer) s'.memory := by
  have hpointer := isPowerOfTwo.pos hpower
  have hpart : s.memory.Mapped buffer s.memory.pointerSize.toNat :=
    hmapped.part (Int.le_refl buffer) (by unfold bufferBytes; omega)
  obtain ⟨s', hwrite, hwrote⟩ := Run.writePointer_wrote hm (by omega) hpart address
  have hconfined := hwrote.confined (Bytes.length_ofNat _ _)
  exact ⟨s', hwrite, hwrote,
    hconfined.spares hm fun x hfirst hlast => ⟨hfirst, by unfold bufferBytes; omega⟩⟩

/-! ### Where the value is -/

/-- The buffer leads to a value: it holds the value itself, or the address of its box. -/
inductive Leads (t : WitnessTable) (m : Memory) (buffer : Int) : Int → Prop where
  | inline (h : t.isInline = true) : Leads t m buffer buffer
  | boxed (h : t.isInline = false) {bytes : Bytes} (hlength : m.pointerSize = bytes.length)
    (hbytes : m.Holds buffer bytes) (hsome : bytes.toNat ≠ 0) : Leads t m buffer bytes.toNat

theorem Leads.outcome (h : t.Leads s.memory buffer value) (hm : s.memory.Paged) :
    (t.projectBuffer buffer).outcome s = (.ok value, s) := by
  cases h with
  | inline h => exact outcome_projectBuffer_of_isInline h buffer s
  | boxed h hlength hbytes hsome =>
    unfold projectBuffer
    rw [if_neg (by rw [h]; decide),
      Run.outcome_bind_ok _ (Run.readPointer_of_holds hm hbytes hlength), if_neg (by omega)]
    rfl

/-- A buffer leads to the same value as long as its bytes are not touched, if they matter at all. -/
theorem Leads.spares (h : t.Leads m buffer value) (hs : m.Spares touched m')
    (hapart : t.isInline = false → ∀ x, InBuffer m buffer x → ¬touched x) :
    t.Leads m' buffer value := by
  cases h with
  | inline h => exact .inline h
  | boxed h hlength hbytes hsome =>
    refine .boxed h (hs.pointerSize.trans hlength)
      (hs.holds hbytes fun x hfirst hlast => hapart h x ⟨hfirst, ?_⟩) hsome
    unfold bufferBytes
    omega

/-! ### Room for a value -/

/-- Room for a value has been made in a buffer: in the buffer itself, or in a new box. -/
structure MadeRoom (t : WitnessTable) (m : Memory) (buffer value : Int) (m' : Memory) : Prop where
  spares : m.Spares (InBufferOrNew m buffer) m'
  mapped : m'.Mapped value t.layout.size
  leads (hfits : value < 256 ^ m.pointerSize.toNat) : t.Leads m' buffer value
  place : t.isInline = true ∧ value = buffer ∨
    t.isInline = false ∧ (m.cursor : Int) ≤ value ∧ value + max (t.layout.size : Int) 1 ≤ m'.cursor
  allocations (x : Int) : m'.allocations[x]? =
    if t.isInline = false ∧ x = value then some (t.layout.size : Int) else m.allocations[x]?
  marks : m'.marks = m.marks

theorem outcome_allocateBuffer (hsuits : t.Suits s.memory) (horder : s.memory.Orderly)
    (hmapped : s.memory.Mapped buffer (bufferBytes s.memory)) :
    ∃ value s', (t.allocateBuffer buffer).outcome s = (.ok value, s') ∧
      t.MadeRoom s.memory buffer value s'.memory := by
  unfold allocateBuffer
  by_cases hinline : t.isInline = true
  · have hsize := hsuits.size_le hinline
    refine ⟨buffer, s, by rw [if_pos hinline]; rfl, .of_pages horder.paged rfl rfl rfl rfl,
      hmapped.part (Int.le_refl buffer) (by omega), fun _ =>
      .inline hinline, .inl ⟨hinline, rfl⟩, fun x => ?_, rfl⟩
    rw [if_neg fun h => absurd (hinline.symm.trans h.1) (by decide)]
  · have hbox : t.isInline = false := Bool.eq_false_iff.mpr hinline
    have hpower : isPowerOfTwo (t.layout.alignment : Int) = true :=
      (LayoutDraft.fault?_eq_none_iff.mp hsuits.valid).2.1
    obtain ⟨box, s₁, hallocate, htook⟩ := Run.allocate_took horder.paged hpower t.layout.size
    have hsize := bufferBytes_congr htook.spares
    obtain ⟨s', hwrite, hwrote, hspares⟩ :=
      writePointer_intoBuffer (hsuits.spares htook.spares).power
      htook.spares.paged (hsize ▸ htook.spares.mapped hmapped) box
    have hconfined := hwrote.toConfined
    refine ⟨box, s', ?_, ?_, hspares.mapped htook.mapped, fun hfits => ?_,
      .inr ⟨hbox, htook.above, ?_⟩, fun x => ?_, hconfined.quiet.marks.trans htook.marks⟩
    · rw [if_neg hinline, Run.outcome_bind_ok _ hallocate, Run.outcome_bind_ok _ hwrite]
      rfl
    · exact (htook.spares.mono fun x hx => .inr hx).trans
        (hspares.mono fun x hx => .inl (hx.spares htook.spares))
    · -- The address is read back as what it is, since it fits, and it is behind the first cursor.
      have habove := htook.above
      have hcursor := horder.cursor
      have hpointer := isPowerOfTwo.pos hsuits.power
      rw [htook.spares.pointerSize] at hwrote
      have hnumber := Bytes.toNat_ofNat_emod s.memory.pointerSize.toNat box
      have hpatterns : ((256 ^ s.memory.pointerSize.toNat : Nat) : Int) =
          256 ^ s.memory.pointerSize.toNat :=
        Int.natCast_pow 256 _
      have hsame : box % (256 ^ s.memory.pointerSize.toNat : Nat) = box :=
        Int.emod_eq_of_lt (by omega) (by rwa [hpatterns])
      rw [hsame] at hnumber
      have hleads := Leads.boxed (t := t) (m := s'.memory) hbox (by
        rw [hspares.pointerSize, htook.spares.pointerSize, Bytes.length_ofNat]
        omega) hwrote.holds (by rw [hsame]; omega)
      rwa [hsame, hnumber] at hleads
    · rw [hconfined.storage.cursor]
      exact htook.below
    · rw [hconfined.storage.allocations, htook.allocations]
      simp only [hbox, true_and]

namespace MadeRoom

theorem order (h : t.MadeRoom m buffer value m') (horder : m.Orderly) : m'.Orderly := by
  refine horder.spares h.spares fun x k hk => ?_
  rw [h.allocations] at hk
  split at hk
  case isTrue hbox =>
    cases hk
    rcases h.place with ⟨hinline, -⟩ | ⟨-, -, hend⟩
    · exact absurd (hinline.symm.trans hbox.1) (by decide)
    · exact .inr (hbox.2 ▸ hend)
  case isFalse => exact .inl hk

/-- Room in a buffer that lies before the cursor lies before it as well. -/
theorem below (h : t.MadeRoom m buffer value m') (hsuits : t.Suits m)
    (hbuffer : buffer + max (bufferBytes m : Int) 1 ≤ m.cursor) :
    value + max (t.layout.size : Int) 1 ≤ m'.cursor := by
  have hcursor := h.spares.cursor
  rcases h.place with ⟨hinline, rfl⟩ | ⟨-, -, hend⟩
  · have hsize := hsuits.size_le hinline
    omega
  · exact hend

/-- The bytes of a value may be written where room for it has been made. -/
theorem wrote (h : t.MadeRoom m buffer value s.memory) (hsuits : t.Suits m)
    (hbelow : buffer + bufferBytes m ≤ m.cursor)
    (hwrote : s.Wrote value content s') (hlength : content.length = t.layout.size) :
    t.MadeRoom m buffer value s'.memory := by
  have hconfined := hwrote.toConfined
  have hwritten : s.memory.Spares (fun x => value ≤ x ∧ x < value + content.length) s'.memory :=
    hconfined.spares h.spares.paged fun x hfirst hlast => ⟨hfirst, hlast⟩
  refine ⟨h.spares.trans (hwritten.mono fun x hx => ?_), hwritten.mapped h.mapped, fun hfits => ?_,
    ?_, fun x => ?_, hconfined.quiet.marks.trans h.marks⟩
  · rcases h.place with ⟨hinline, rfl⟩ | ⟨-, hnew, -⟩
    · have hsize := hsuits.size_le hinline
      exact .inl ⟨hx.1, by omega⟩
    · exact .inr (by omega)
  · refine (h.leads hfits).spares hwritten fun hbox x hx hcopied => ?_
    rcases h.place with ⟨hinline, -⟩ | ⟨-, hnew, -⟩
    · exact absurd (hinline.symm.trans hbox) (by decide)
    · have hlast := hx.2
      rw [bufferBytes_congr h.spares] at hlast
      omega
  · rw [hconfined.storage.cursor]
    exact h.place
  · rw [hconfined.storage.allocations]
    exact h.allocations x

end MadeRoom

/-! ### Copying into a buffer -/

/-- A value that is copied is where it should be, whether there is a hook or not. -/
theorem outcome_copyValue (hooks : t.layout.OnlyRecords) (hm : s.memory.Paged)
    (hbytes : s.memory.Holds src content) (hlength : content.length = t.layout.size)
    (hmapped : s.memory.Mapped dest t.layout.size) :
    ∃ s₁ s', (t.copyValue dest src).outcome s = (.ok (), s') ∧ s.Wrote dest content s₁ ∧
      s'.memory = s₁.memory := by
  obtain ⟨s₁, hcopy, hwrote⟩ := Run.copy_wrote hm hbytes (by rwa [hlength])
  rw [hlength] at hcopy
  have hhook := outcome_runCopyHook hooks dest src s₁
  exact ⟨s₁, _, (Run.outcome_bind_ok _ hcopy).trans hhook, hwrote, rfl⟩

/-- A buffer without a value can be given a copy of the value that another buffer leads to. -/
structure Ready (t : WitnessTable) (content : Bytes) (src value dest : Int) (m : Memory) :
    Prop where
  suits : t.Suits m
  order : m.Orderly
  fresh (x : Int) (h : (m.cursor : Int) ≤ x) : m.isInitialized x = false
  destMapped : m.Mapped dest (bufferBytes m)
  destBelow : dest + bufferBytes m ≤ m.cursor
  destFree : m.isInitialized dest = false
  destApart (a n : Int) (h : m.allocations[a]? = some n) (hne : a ≠ dest) :
    dest + bufferBytes m ≤ a ∨ a + n ≤ dest
  srcMapped : m.Mapped src (bufferBytes m)
  srcApart (x : Int) (h : InBuffer m src x) : ¬InBufferOrNew m dest x
  leads : t.Leads m src value
  live : m.isInitialized value = true
  length : content.length = t.layout.size
  holds : m.Holds value content
  valueApart (x : Int) (h : value ≤ x ∧ x < value + content.length) : ¬InBufferOrNew m dest x

/-- A buffer has been given a value, which is marked along with the buffer. -/
structure Filled (t : WitnessTable) (content : Bytes) (m : Memory) (buffer value : Int)
    (m' : Memory) : Prop where
  spares : m.Spares (InBufferOrNew m buffer) m'
  holds : m'.Holds value content
  leads (hfits : value < 256 ^ m.pointerSize.toNat) : t.Leads m' buffer value
  place : t.isInline = true ∧ value = buffer ∨
    t.isInline = false ∧ (m.cursor : Int) ≤ value ∧ value + max (t.layout.size : Int) 1 ≤ m'.cursor
  allocations (x : Int) : m'.allocations[x]? =
    if t.isInline = false ∧ x = value then some (t.layout.size : Int) else m.allocations[x]?
  marks (x : Int) : m'.isInitialized x =
    (decide (x = value) || (decide (x = buffer) || m.isInitialized x))

theorem outcome_copyBuffer (h : t.Ready content src value dest s.memory) :
    ∃ copy s', (t.initializeBufferWithCopyOfBuffer dest src).outcome s = (.ok copy, s') ∧
      t.Filled content s.memory dest copy s'.memory := by
  obtain ⟨copy, s₁, hallocate, hroom⟩ := outcome_allocateBuffer h.suits h.order h.destMapped
  have hvalue : s₁.memory.Holds value content :=
    hroom.spares.holds h.holds fun x hfirst hlast => h.valueApart x ⟨hfirst, hlast⟩
  obtain ⟨s₂, s₃, hcopy, hwrote, hsame⟩ :=
    outcome_copyValue h.suits.hooks hroom.spares.paged hvalue h.length hroom.mapped
  have hfilled := hroom.wrote h.suits h.destBelow hwrote h.length
  refine ⟨copy, { s₃ with memory := (s₃.memory.markInitialized dest).markInitialized copy }, ?_, ?_⟩
  · unfold initializeBufferWithCopyOfBuffer
    dsimp only
    rw [Run.outcome_bind_ok (a := ()) _ (by rw [Run.outcome_requireUninitialized, h.destFree]; rfl),
      Run.outcome_bind_ok _ (h.leads.outcome h.order.paged),
      Run.outcome_bind_ok (a := ()) _ (by rw [Run.outcome_requireInitialized, if_pos h.live]),
      Run.outcome_bind_ok _ hallocate, Run.outcome_bind_ok _ hcopy]
    rfl
  · rw [hsame]
    have hmarked : s₂.memory.Spares (fun _ => False)
        ((s₂.memory.markInitialized dest).markInitialized copy) :=
      .of_pages hfilled.spares.paged rfl rfl rfl rfl
    refine ⟨hfilled.spares.trans (hmarked.mono fun _ => False.elim), hwrote.holds,
      fun hfits => (hfilled.leads hfits).spares hmarked fun _ _ _ =>
      id, hfilled.place, hfilled.allocations, fun x => ?_⟩
    rw [Memory.isInitialized_markInitialized, Memory.isInitialized_markInitialized]
    unfold Memory.isInitialized
    rw [hfilled.marks]

/-! ### Giving the value up -/

/-- A buffer has no value any more, nor has it room for one. -/
structure Emptied (t : WitnessTable) (m : Memory) (buffer value : Int) (m' : Memory) : Prop where
  spares : m.Spares (InBuffer m buffer) m'
  allocations (x : Int) : m'.allocations[x]? =
    if t.isInline = false ∧ x = value then none else m.allocations[x]?
  marks (x : Int) : m'.isInitialized x = (decide (x ≠ buffer) && m.isInitialized x)

theorem outcome_destroy (hooks : t.layout.OnlyRecords)
    (hlive : s.memory.isInitialized value = true) :
    ∃ s', (t.destroy value).outcome s = (.ok (), s') ∧
      s'.memory = s.memory.markUninitialized value := by
  unfold destroy
  rw [Run.outcome_bind_ok (a := ()) _ (by rw [Run.outcome_requireInitialized, if_pos hlive]),
    Run.outcome_bind_ok _ (outcome_destroyValue hooks value s)]
  exact ⟨_, rfl, rfl⟩

/-- A buffer whose value has been destroyed is given back what it has, and is marked no longer. -/
theorem outcome_deallocateBuffer (hsuits : t.Suits s.memory) (hm : s.memory.Paged)
    (hmapped : s.memory.Mapped buffer (bufferBytes s.memory))
    (hleads : t.Leads s.memory buffer value) (hdead : s.memory.isInitialized value = false)
    (hheld : t.isInline = false → ∃ n, s.memory.allocations[value]? = some n) :
    ∃ s', (t.deallocateBuffer buffer).outcome s = (.ok (), s') ∧
      t.Emptied s.memory buffer value s'.memory := by
  unfold deallocateBuffer
  rw [Run.outcome_bind_ok _ (hleads.outcome hm),
    Run.outcome_bind_ok (a := ()) _ (by rw [Run.outcome_requireUninitialized, hdead]; rfl)]
  by_cases hinline : t.isInline = true
  · refine ⟨{ s with memory := s.memory.markUninitialized buffer }, by rw [hinline]; rfl,
      .of_pages hm rfl rfl rfl rfl, fun x => ?_, s.memory.isInitialized_markUninitialized buffer⟩
    rw [if_neg fun h => absurd (hinline.symm.trans h.1) (by decide)]
    rfl
  · have hbox : t.isInline = false := Bool.eq_false_iff.mpr hinline
    obtain ⟨n, hn⟩ := hheld hbox
    obtain ⟨s₁, hdeallocate, hreturned⟩ := Run.deallocate_returned hm hn
    have hsize := bufferBytes_congr hreturned.spares
    obtain ⟨s₂, hwrite, hwrote, hspares⟩ :=
      writePointer_intoBuffer (hsuits.spares hreturned.spares).power
      hreturned.spares.paged (hsize ▸ hreturned.spares.mapped hmapped) 0
    have hconfined := hwrote.toConfined
    have hmarked : s₂.memory.Spares (fun _ => False) (s₂.memory.markUninitialized buffer) :=
      .of_pages hconfined.paged rfl rfl rfl rfl
    refine ⟨{ s₂ with memory := s₂.memory.markUninitialized buffer }, ?_, ?_, fun x => ?_,
      fun x => ?_⟩
    · rw [hbox]
      dsimp only
      rw [if_pos (by decide), Run.outcome_bind_ok _ hdeallocate, Run.outcome_bind_ok _ hwrite]
      rfl
    · exact ((hreturned.spares.mono fun _ => False.elim).trans
        (hspares.mono fun x hx => hx.spares hreturned.spares)).trans
        (hmarked.mono fun _ => False.elim)
    · show s₂.memory.allocations[x]? = _
      rw [hconfined.storage.allocations, hreturned.allocations]
      simp only [hbox, true_and]
    · -- The mark of the box has been taken away before.
      rw [Memory.isInitialized_markUninitialized, hconfined.isInitialized, hreturned.marks]
      by_cases hx : x = value
      · rw [hx, hdead, Bool.and_false]
      · rw [decide_eq_true hx, Bool.true_and]

/-! ### Copying and giving up -/

/-- All is as before, but for the bytes of a buffer and of storage that nobody had taken. -/
structure Restored (m : Memory) (buffer : Int) (m' : Memory) : Prop where
  spares : m.Spares (InBufferOrNew m buffer) m'
  allocations (x : Int) : m'.allocations[x]? = m.allocations[x]?
  marks (x : Int) : m'.isInitialized x = m.isInitialized x

/-- The buffer that is copied from and its value are as before. -/
structure KeepsSource (t : WitnessTable) (src value : Int) (m m' : Memory) : Prop where
  sameBuffer (x : Int) (h : InBuffer m src x) : m'.byte? x = m.byte? x
  sameValue (x : Int) (h : value ≤ x ∧ x < value + t.layout.size) : m'.byte? x = m.byte? x
  live : m'.isInitialized value = true

namespace Ready

theorem keepsSource (h : t.Ready content src value dest m) (hs : m.Spares (InBufferOrNew m dest) m')
    (hlive : m'.isInitialized value = true) : t.KeepsSource src value m m' := by
  have hkept (x : Int) (hx : ¬InBufferOrNew m dest x) (hsome : (m.byte? x).isSome = true) :
      m'.byte? x = m.byte? x := by
    obtain ⟨b, hb⟩ := Option.isSome_iff_exists.mp hsome
    rw [hb, hs.kept x b hx hb]
  have hmapped {a : Int} {n : Nat} (hn : m.Mapped a n) (x : Int) (hx : a ≤ x ∧ x < a + n) :
      (m.byte? x).isSome = true := by
    have hbyte := hn (x - a).toNat (by omega)
    rwa [show a + ((x - a).toNat : Int) = x by omega] at hbyte
  refine ⟨fun x hx => hkept x (h.srcApart x hx) (hmapped h.srcMapped x hx), fun x hx => ?_, hlive⟩
  rw [← h.length] at hx
  exact hkept x (h.valueApart x hx) (hmapped h.holds.mapped x hx)

/-- What the copy needs is there again when marks and storage are as before. -/
theorem restored (h : t.Ready content src value dest m) (hr : Restored m dest m') :
    t.Ready content src value dest m' := by
  have hsize := bufferBytes_congr hr.spares
  have hcursor := hr.spares.cursor
  have hdest (x : Int) (hx : InBufferOrNew m' dest x) : InBufferOrNew m dest x :=
    hx.imp (InBuffer.spares hr.spares) fun hnew => by omega
  have hbelow := h.destBelow
  constructor
  case suits => exact h.suits.spares hr.spares
  case order => exact h.order.spares hr.spares fun a n hn => .inl (hr.allocations a ▸ hn)
  case fresh => exact fun x hx => (hr.marks x).trans (h.fresh x (by omega))
  case destMapped => exact hsize ▸ hr.spares.mapped h.destMapped
  case destBelow => omega
  case destFree => exact (hr.marks dest).trans h.destFree
  case destApart => exact fun a n hn hne => hsize ▸ h.destApart a n (hr.allocations a ▸ hn) hne
  case srcMapped => exact hsize ▸ hr.spares.mapped h.srcMapped
  case srcApart => exact fun x hx hnew => h.srcApart x (hx.spares hr.spares) (hdest x hnew)
  case leads => exact h.leads.spares hr.spares fun _ x hx => h.srcApart x hx
  case live => exact (hr.marks value).trans h.live
  case length => exact h.length
  case holds => exact hr.spares.holds h.holds fun x hfirst hlast => h.valueApart x ⟨hfirst, hlast⟩
  case valueApart => exact fun x hx hnew => h.valueApart x hx (hdest x hnew)

end Ready

namespace Filled

variable (h : t.Ready content src value dest m) (hfilled : t.Filled content m dest copy m')
include h hfilled

/-- Where the copy is, nothing has been marked before. -/
theorem isInitialized_copy : m.isInitialized copy = false := by
  rcases hfilled.place with ⟨-, rfl⟩ | ⟨-, hnew, -⟩
  · exact h.destFree
  · exact h.fresh copy hnew

/-- A box is new storage. -/
theorem allocations_copy (hbox : t.isInline = false) : m.allocations[copy]? = none := by
  rcases hfilled.place with ⟨hinline, -⟩ | ⟨-, hnew, -⟩
  · exact absurd (hinline.symm.trans hbox) (by decide)
  · rcases hheld : m.allocations[copy]? with _ | n
    · rfl
    · have hbelow := h.order.below copy n hheld
      omega

/-- The copy has nothing in common with other storage. -/
theorem apart {a n : Int} (hheld : m'.allocations[a]? = some n) (hne : a ≠ copy) :
    copy + t.layout.size ≤ a ∨ a + n ≤ copy := by
  rw [hfilled.allocations, if_neg fun hbox => hne hbox.2] at hheld
  rcases hfilled.place with ⟨hinline, rfl⟩ | ⟨-, hnew, -⟩
  · have hsize := h.suits.size_le hinline
    rcases h.destApart a n hheld hne with hbefore | hbehind
    · exact .inl (by omega)
    · exact .inr hbehind
  · have hbelow := h.order.below a n hheld
    exact .inr (by omega)

end Filled

/-- A copy can be given up, and then all is as before. -/
theorem outcome_releaseBuffer (h : t.Ready content src value dest m)
    (hfilled : t.Filled content m dest copy s.memory) (hfits : copy < 256 ^ m.pointerSize.toNat) :
    ∃ s', (do t.destroy copy; t.deallocateBuffer dest).outcome s = (.ok (), s') ∧
      Restored m dest s'.memory := by
  have hlive : s.memory.isInitialized copy = true := by
    rw [hfilled.marks, decide_eq_true rfl]
    rfl
  obtain ⟨s₁, hdestroy, hmemory⟩ := outcome_destroy h.suits.hooks hlive
  have hmarked : s.memory.Spares (fun _ => False) s₁.memory := by
    rw [hmemory]
    exact .of_pages hfilled.spares.paged rfl rfl rfl rfl
  have hspares := hfilled.spares.trans (hmarked.mono fun _ => False.elim)
  have hsize := bufferBytes_congr hspares
  have hdead : s₁.memory.isInitialized copy = false := by
    rw [hmemory, Memory.isInitialized_markUninitialized, decide_eq_false (by simp)]
    rfl
  have hheld (hbox : t.isInline = false) : ∃ n, s₁.memory.allocations[copy]? = some n := by
    refine ⟨t.layout.size, ?_⟩
    rw [hmemory]
    exact (hfilled.allocations copy).trans (if_pos ⟨hbox, rfl⟩)
  obtain ⟨s', hdeallocate, hemptied⟩ :=
    outcome_deallocateBuffer (h.suits.spares hspares) hspares.paged
    (hsize ▸ hspares.mapped h.destMapped)
    ((hfilled.leads hfits).spares hmarked fun _ _ _ => id) hdead hheld
  -- Filling the buffer had changed the account at the copy only, where it is now as it was before.
  refine ⟨s', (Run.outcome_bind_ok _ hdestroy).trans hdeallocate, ?_, fun x => ?_, fun x => ?_⟩
  · exact hspares.trans (hemptied.spares.mono fun x hx => .inl (hx.spares hspares))
  · rw [hemptied.allocations, hmemory]
    show (if _ then none else s.memory.allocations[x]?) = _
    rw [hfilled.allocations]
    split
    · rename_i hbox
      rw [hbox.2, Filled.allocations_copy h hfilled hbox.1]
    · rfl
  · rw [hemptied.marks, hmemory, Memory.isInitialized_markUninitialized, hfilled.marks]
    by_cases hcopy : x = copy
    · rw [hcopy, Filled.isInitialized_copy h hfilled]
      simp
    · by_cases hbuffer : x = dest
      · rw [hbuffer, h.destFree]
        simp
      · simp [hcopy, hbuffer]

/-! ### The first value -/

/-- Makes a buffer with a value, and another one. -/
def prepareCopy (t : WitnessTable) (content : Bytes) : Run (Int × Int × Int) := do
  let src ← newBuffer
  let value ← t.allocateBuffer src
  Run.write value content
  Run.markInitialized value
  let dest ← newBuffer
  return (src, value, dest)

/-- A buffer leads to a value, and both lie before the cursor. -/
structure HoldsValue (t : WitnessTable) (content : Bytes) (src value : Int) (m : Memory) :
    Prop where
  suits : t.Suits m
  order : m.Orderly
  fresh (x : Int) (h : (m.cursor : Int) ≤ x) : m.isInitialized x = false
  mapped : m.Mapped src (bufferBytes m)
  below : src + bufferBytes m ≤ m.cursor
  leads : t.Leads m src value
  live : m.isInitialized value = true
  length : content.length = t.layout.size
  holds : m.Holds value content
  valueBelow : value + max (content.length : Int) 1 ≤ m.cursor

/-- A new buffer can be given a copy of what is there. -/
theorem HoldsValue.ready (h : t.HoldsValue content src value m)
    (htook : m.Took dest (bufferBytes m) m') :
    t.Ready content src value dest m' := by
  have hsize := bufferBytes_congr htook.spares
  have hcursor := htook.spares.cursor
  have habove := htook.above
  have hend := htook.below
  have hbelow := h.below
  have hvalue := h.valueBelow
  -- Storage is taken behind the cursor, and everything that is held lies before it.
  constructor
  case suits => exact h.suits.spares htook.spares
  case order => exact h.order.took htook
  case fresh =>
    intro x hx
    unfold Memory.isInitialized
    rw [htook.marks]
    exact h.fresh x (by omega)
  case destMapped => exact hsize ▸ htook.mapped
  case destBelow => omega
  case destFree =>
    unfold Memory.isInitialized
    rw [htook.marks]
    exact h.fresh dest habove
  case destApart =>
    intro a n hn hne
    rw [htook.allocations, if_neg hne] at hn
    have hheld := h.order.below a n hn
    exact .inr (by omega)
  case srcMapped => exact hsize ▸ htook.spares.mapped h.mapped
  case srcApart =>
    intro x hx hnew
    unfold InBufferOrNew InBuffer at *
    omega
  case leads =>
    refine h.leads.spares htook.spares fun _ x hx => ?_
    unfold InBuffer at hx
    omega
  case live =>
    unfold Memory.isInitialized
    rw [htook.marks]
    exact h.live
  case length => exact h.length
  case holds => exact htook.spares.holds h.holds fun x _ _ => by omega
  case valueApart =>
    intro x hx hnew
    unfold InBufferOrNew InBuffer at hnew
    omega

/-- A buffer is filled by hand: room is made, and the bytes are written there and marked. -/
theorem outcome_prepareCopy (hsuits : t.Suits s.memory) (horder : s.memory.Orderly)
    (hfresh : ∀ x : Int, s.memory.cursor ≤ x → s.memory.isInitialized x = false)
    (hlength : content.length = t.layout.size) :
    ∃ src value dest s', (t.prepareCopy content).outcome s = (.ok (src, value, dest), s') ∧
      s'.memory.pointerSize = s.memory.pointerSize ∧
      (value < 256 ^ s.memory.pointerSize.toNat → t.Ready content src value dest s'.memory) := by
  -- The states are those behind the first buffer, the room for the value, its bytes, the mark and
  -- the second buffer.
  obtain ⟨src, s₁, hsrc, htook⟩ := newBuffer_took horder.paged hsuits.power
  have hsuits₁ := hsuits.spares htook.spares
  have hsize₁ := bufferBytes_congr htook.spares
  have hmapped₁ : s₁.memory.Mapped src (bufferBytes s₁.memory) := hsize₁ ▸ htook.mapped
  obtain ⟨value, s₂, hvalue, hroom⟩ := outcome_allocateBuffer hsuits₁ (horder.took htook) hmapped₁
  have hmapped₂ : s₂.memory.Mapped value content.length := hlength ▸ hroom.mapped
  obtain ⟨s₃, hwrite, hwrote⟩ := Run.write_wrote hroom.spares.paged hmapped₂
  have hend := htook.below
  rw [← hsize₁] at hend
  have hfilled := hroom.wrote hsuits₁ (by omega) hwrote hlength
  have hmarked : s₃.memory.Spares (fun _ => False) (s₃.memory.markInitialized value) :=
    .of_pages hfilled.spares.paged rfl rfl rfl rfl
  have hspares := hfilled.spares.trans (hmarked.mono fun _ => False.elim)
  have hsize := bufferBytes_congr hspares
  obtain ⟨dest, s₄, hdest, htookDest⟩ :=
    newBuffer_took (s := { s₃ with memory := s₃.memory.markInitialized value })
    hspares.paged (hspares.pointerSize ▸ hsuits₁.power)
  refine ⟨src, value, dest, s₄, ?_,
    htookDest.spares.pointerSize.trans (hspares.pointerSize.trans htook.spares.pointerSize),
    fun hfits => HoldsValue.ready (m := s₃.memory.markInitialized value) ?_ htookDest⟩
  · unfold prepareCopy
    rw [Run.outcome_bind_ok _ hsrc, Run.outcome_bind_ok _ hvalue, Run.outcome_bind_ok _ hwrite,
      Run.outcome_bind_ok _ (Run.outcome_markInitialized value s₃), Run.outcome_bind_ok _ hdest]
    rfl
  · have hvalueBelow := hfilled.below hsuits₁ hend
    have hcursor := hfilled.spares.cursor
    rw [← htook.spares.pointerSize] at hfits
    constructor
    case suits => exact hsuits₁.spares hspares
    case order => exact (hfilled.order (horder.took htook)).spares hmarked fun _ _ => .inl
    case fresh =>
      intro x hx
      change (s₃.memory.cursor : Int) ≤ x at hx
      rw [Memory.isInitialized_markInitialized, decide_eq_false (by omega), Bool.false_or]
      unfold Memory.isInitialized
      rw [hfilled.marks, htook.marks]
      have hfirst := htook.spares.cursor
      exact hfresh x (by omega)
    case mapped => exact hsize ▸ hspares.mapped hmapped₁
    case below =>
      show src + bufferBytes (s₃.memory.markInitialized value) ≤ s₃.memory.cursor
      omega
    case leads => exact (hfilled.leads hfits).spares hmarked fun _ _ _ => id
    case live =>
      rw [Memory.isInitialized_markInitialized, decide_eq_true rfl]
      rfl
    case length => exact hlength
    case holds => exact hmarked.holds hwrote.holds fun _ _ _ => id
    case valueBelow => exact hlength ▸ hvalueBelow

/-! ### Any number of values -/

/-- A copy has been made in a buffer, which leads to it, and what has been copied is as before. -/
structure Copied (t : WitnessTable) (content : Bytes) (src value dest copy : Int) (s s' : Session) :
    Prop extends t.KeepsSource src value s.memory s'.memory where
  project : (t.projectBuffer dest).outcome s' = (.ok copy, s')
  holds : s'.memory.Holds copy content
  /-- The copy has its storage for itself. -/
  apart (a n : Int) (hheld : s'.memory.allocations[a]? = some n) (hne : a ≠ copy) :
    copy + t.layout.size ≤ a ∨ a + n ≤ copy

/-- The sessions after copies into a buffer that have been destroyed and given back, one after the
other. -/
inductive Cycled (t : WitnessTable) (src dest : Int) (s₀ : Session) : Session → Prop where
  | start : Cycled t src dest s₀ s₀
  | again {s s₁ s₂ : Session} {copy : Int} (h : Cycled t src dest s₀ s)
    (hcopy : (t.initializeBufferWithCopyOfBuffer dest src).outcome s = (.ok copy, s₁))
    (hfits : copy < 256 ^ s.memory.pointerSize.toNat)
    (hrelease : (do t.destroy copy; t.deallocateBuffer dest).outcome s₁ = (.ok (), s₂)) :
      Cycled t src dest s₀ s₂

/-- After each of the copies, the buffer can be copied into again. -/
theorem Cycled.ready {s₀ : Session} (h : t.Cycled src dest s₀ s)
    (hready : t.Ready content src value dest s₀.memory) :
    t.Ready content src value dest s.memory ∧ s.memory.pointerSize = s₀.memory.pointerSize := by
  induction h with
  | start => exact ⟨hready, rfl⟩
  | @again s s₁ s₂ copy _ hcopy hfits hrelease ih =>
    obtain ⟨hready, hpointerSize⟩ := ih
    obtain ⟨_, _, hcopied, hfilled⟩ := outcome_copyBuffer hready
    cases hcopy.symm.trans hcopied
    obtain ⟨_, hreleased, hrestored⟩ := outcome_releaseBuffer hready hfilled hfits
    cases hrelease.symm.trans hreleased
    exact ⟨hready.restored hrestored, hrestored.spares.pointerSize.trans hpointerSize⟩

/-- A value is put into a new buffer, and another new buffer is given a copy of it, which is
destroyed and given back. If the addresses fit a pointer, all of this goes well for every layout,
what has been copied stays as it is, and in the end marks and storage are those from before the
copy, so that the buffer can be copied into again. -/
theorem bufferLifecycle (hsuits : t.Suits s.memory) (horder : s.memory.Orderly)
    (hfresh : ∀ x : Int, s.memory.cursor ≤ x → s.memory.isInitialized x = false)
    (hlength : content.length = t.layout.size) :
    ∃ src value dest s₀, (t.prepareCopy content).outcome s = (.ok (src, value, dest), s₀) ∧
      (value < 256 ^ s.memory.pointerSize.toNat → ∀ s₁, t.Cycled src dest s₀ s₁ →
        ∃ copy s₂, (t.initializeBufferWithCopyOfBuffer dest src).outcome s₁ = (.ok copy, s₂) ∧
          (copy < 256 ^ s.memory.pointerSize.toNat →
            t.Copied content src value dest copy s₁ s₂ ∧
              ∃ s₃, (do t.destroy copy; t.deallocateBuffer dest).outcome s₂ = (.ok (), s₃) ∧
                Restored s₁.memory dest s₃.memory ∧ t.KeepsSource src value s₁.memory s₃.memory ∧
                  ∃ again s₄, (t.initializeBufferWithCopyOfBuffer dest src).outcome s₃ =
                  (.ok again, s₄))) := by
  obtain ⟨src, value, dest, s₀, hprepare, hpointerSize, hready⟩ :=
    outcome_prepareCopy hsuits horder hfresh hlength
  refine ⟨src, value, dest, s₀, hprepare, fun hvalue s₁ hcycled => ?_⟩
  obtain ⟨hready, hpointerSize₁⟩ := hcycled.ready (hready hvalue)
  rw [← hpointerSize, ← hpointerSize₁]
  obtain ⟨copy, s₂, hcopy, hfilled⟩ := outcome_copyBuffer hready
  refine ⟨copy, s₂, hcopy, fun hfits => ⟨?_, ?_⟩⟩
  · have hlive : s₂.memory.isInitialized value = true := by
      rw [hfilled.marks, hready.live, Bool.or_true, Bool.or_true]
    exact ⟨hready.keepsSource hfilled.spares hlive,
      (hfilled.leads hfits).outcome hfilled.spares.paged, hfilled.holds,
      fun a n => hfilled.apart hready⟩
  · obtain ⟨s₃, hrelease, hrestored⟩ := outcome_releaseBuffer hready hfilled hfits
    have hagain := hready.restored hrestored
    obtain ⟨again, s₄, hcopyAgain, -⟩ := outcome_copyBuffer hagain
    exact ⟨s₃, hrelease, hrestored, hready.keepsSource hrestored.spares hagain.live, again, s₄,
      hcopyAgain⟩

/-- New memory in pages of 64 bytes. -/
def emptySession : Session := .ofMemory (.empty 6 8)

/-- The buffers are at 64 and 120, and their values in boxes at 88 and 144. -/
theorem bufferLifecycle_largeTable :
    ∃ s₀ s₁ s₂, (largeTable.prepareCopy (List.replicate 32 7)).outcome emptySession =
      (.ok (64, 88, 120), s₀) ∧
      (largeTable.initializeBufferWithCopyOfBuffer 120 64).outcome s₀ = (.ok 144, s₁) ∧
        largeTable.Copied (List.replicate 32 7) 64 88 120 144 s₀ s₁ ∧
          (do largeTable.destroy 144; largeTable.deallocateBuffer 120).outcome s₁ = (.ok (), s₂) ∧
            Restored s₀.memory 120 s₂.memory := by
  have hsuits : largeTable.Suits emptySession.memory :=
    ⟨by decide, onlyRecords_largeTable, rfl, by decide, rfl⟩
  have horder : emptySession.memory.Orderly :=
    .of_create (rfl : Memory.create 64 8 = .ok (.empty 6 8))
  obtain ⟨src, value, dest, s₀, hprepare, hcycle⟩ :=
    bufferLifecycle hsuits horder (fun _ _ => rfl)
      (show (List.replicate 32 (7 : UInt8)).length = _ from rfl)
  have haddresses : ((largeTable.prepareCopy (List.replicate 32 7)).outcome emptySession).1 =
      .ok (64, 88, 120) := by
    decide +kernel
  have hcopied : ((largeTable.initializeBufferWithCopyOfBuffer 120 64).outcome
      ((largeTable.prepareCopy (List.replicate 32 7)).outcome emptySession).2).1 = .ok 144 := by
    decide +kernel
  rw [hprepare] at haddresses hcopied
  cases haddresses
  obtain ⟨copy, s₁, hcopy, hrelease⟩ := hcycle (by decide) s₀ .start
  rw [hcopy] at hcopied
  cases hcopied
  obtain ⟨hsame, s₂, hreleased, hrestored, -⟩ := hrelease (by decide)
  exact ⟨s₀, s₁, s₂, hprepare, hcopy, hsame, hreleased, hrestored⟩

end SwiftABI.WitnessTable
