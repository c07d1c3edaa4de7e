/-
  Storage in order, and what taking it leaves alone.

  In orderly memory all storage lies before the cursor (`Memory.Orderly`), which every call on
  memory keeps (`Orderly.performAll`). So new storage has nothing in common with what is held.
  `Memory.Spares` says that the bytes of a memory are still there in a later one, but for some
  addresses. Storage that is taken spares all that lies before the cursor (`Run.allocate_took`), and
  storage that is given back spares everything (`Run.deallocate_returned`).
-/
import SwiftABI.Proofs.Memory.Written

namespace SwiftABI

/-! ### Order -/

namespace Memory

variable {m m' : Memory}

/-- All storage that is held lies before the cursor. -/
structure Orderly (m : Memory) : Prop where
  paged : m.Paged
  cursor : 0 < m.cursor
  below (a n : Int) (h : m.allocations[a]? = some n) : a + max n 1 ≤ m.cursor

namespace Orderly

theorem of_create {pageSize pointerSize : Int} (h : Memory.create pageSize pointerSize = .ok m) :
    m.Orderly := by
  have hpaged := paged_of_create h
  unfold Memory.create at h
  split at h
  · cases h
    refine ⟨hpaged, Nat.two_pow_pos _, fun a n hn => ?_⟩
    simp [empty] at hn
  · cases h

theorem same (h : m.Orderly) (hsame : m.SameStorage m') (hpaged : m'.Paged) : m'.Orderly where
  paged := hpaged
  cursor := hsame.cursor ▸ h.cursor
  below a n hn := by
    rw [hsame.allocations] at hn
    rw [hsame.cursor]
    exact h.below a n hn

theorem taken (h : m.Orderly) {address : Nat} (haddress : m.cursor ≤ address) (size : Int) :
    (m.taken address size).Orderly where
  paged := h.paged.taken address size
  cursor := by
    have hcursor := h.cursor
    show 0 < address + (max size 1).toNat
    omega
  below a n hn := by
    show a + max n 1 ≤ (address + (max size 1).toNat : Nat)
    change ((m.mapRange address size).allocations.insert (address : Int) size)[a]? = some n at hn
    rw [(samePlan_mapRange address size).allocations, Std.TreeMap.getElem?_insert] at hn
    simp only [Std.compare_eq_iff_eq] at hn
    split at hn
    · cases hn
      omega
    · have hbelow := h.below a n hn
      omega

theorem returned (h : m.Orderly) (address : Int) (marks : Std.TreeSet Int) :
    Orderly { m with allocations := m.allocations.erase address, marks } where
  paged := h.paged
  cursor := h.cursor
  below a n hn := by
    change (m.allocations.erase address)[a]? = some n at hn
    rw [Std.TreeMap.getElem?_erase] at hn
    split at hn
    · cases hn
    · exact h.below a n hn

/-- Every call on memory keeps the order. -/
theorem perform {s : Session} (h : s.memory.Orderly) (c : MemoryCall) :
    (c.perform.outcome s).2.memory.Orderly := by
  by_cases hc : c.isStorage = true
  · cases c with
    | allocate size alignment =>
      rw [MemoryCall.outcome_perform_allocate]
      split
      case isTrue halignment =>
        have hpos := isPowerOfTwo.pos halignment
        exact h.taken (le_roundUp (by omega) _) size
      case isFalse => exact h
    | deallocate address =>
      rw [MemoryCall.outcome_perform_deallocate]
      split
      case isTrue => exact h.returned address _
      case isFalse => exact h
    | _ => cases hc
  · obtain ⟨hsame, hpaged⟩ := MemoryCall.keepsStorage_perform (Bool.not_eq_true _ ▸ hc) s
    exact h.same hsame (hpaged h.paged)

theorem performAll {s : Session} (h : s.memory.Orderly) (calls : List MemoryCall) :
    (MemoryCall.performAll calls s).2.memory.Orderly :=
  MemoryCall.performAll_induction (motive := fun _ s => s.memory.Orderly)
    (fun c _ _ h => h.perform c) calls [] h

end Orderly

end Memory

/-! ### Marks -/

namespace Memory

theorem isInitialized_markInitialized (m : Memory) (a x : Int) :
    (m.markInitialized a).isInitialized x = (decide (x = a) || m.isInitialized x) := by
  show (m.marks.insert a).contains x = _
  rw [Std.TreeSet.contains_insert]
  congr 1
  rw [Bool.eq_iff_iff, beq_iff_eq, decide_eq_true_iff, Std.compare_eq_iff_eq, eq_comm]

theorem isInitialized_markUninitialized (m : Memory) (a x : Int) :
    (m.markUninitialized a).isInitialized x = (decide (x ≠ a) && m.isInitialized x) := by
  show (m.marks.erase a).contains x = _
  rw [Std.TreeSet.contains_erase]
  congr 1
  rw [Bool.eq_iff_iff, bne_iff_ne, decide_eq_true_iff, ne_eq, Std.compare_eq_iff_eq, ne_eq, eq_comm]

end Memory

/-! ### What is kept -/

namespace Memory

variable {m m' m'' : Memory} {touched touched' : Int → Prop} {a : Int} {n : Nat} {bs : Bytes}

/-- The bytes of a memory are still there, but for some addresses. More may be mapped. -/
structure Spares (m : Memory) (touched : Int → Prop) (m' : Memory) : Prop where
  paged : m'.Paged
  pointerSize : m'.pointerSize = m.pointerSize
  cursor : m.cursor ≤ m'.cursor
  stays (x : Int) (h : (m.byte? x).isSome = true) : (m'.byte? x).isSome = true
  kept (x : Int) (b : UInt8) (hx : ¬touched x) (hb : m.byte? x = some b) : m'.byte? x = some b

namespace Spares

theorem trans (h : m.Spares touched m') (h' : m'.Spares touched m'') : m.Spares touched m'' where
  paged := h'.paged
  pointerSize := h'.pointerSize.trans h.pointerSize
  cursor := Nat.le_trans h.cursor h'.cursor
  stays x hx := h'.stays x (h.stays x hx)
  kept x b hx hb := h'.kept x b hx (h.kept x b hx hb)

theorem mono (h : m.Spares touched m') (hsub : ∀ x, touched x → touched' x) :
    m.Spares touched' m' :=
  ⟨h.paged, h.pointerSize, h.cursor, h.stays, fun x b hx => h.kept x b fun ht => hx (hsub x ht)⟩

theorem holds (h : m.Spares touched m') (hbs : m.Holds a bs)
    (hapart : ∀ x, a ≤ x → x < a + bs.length → ¬touched x) : m'.Holds a bs := by
  intro i hi
  have hbyte := hbs i hi
  rw [List.getElem?_eq_getElem hi] at hbyte ⊢
  exact h.kept _ _ (hapart _ (by omega) (by omega)) hbyte

theorem mapped (h : m.Spares touched m') (hn : m.Mapped a n) :
    m'.Mapped a n := fun i hi => h.stays _ (hn i hi)

/-- Pages that are the same have the same bytes. -/
theorem of_pages (hm : m.Paged) (hbits : m'.pageBits = m.pageBits)
    (hpointer : m'.pointerSize = m.pointerSize)
    (hpages : m'.pages = m.pages) (hcursor : m'.cursor = m.cursor) : m.Spares touched m' := by
  have hview : m'.byte? = m.byte? := by
    funext x
    unfold byte? pageOf offsetOf
    rw [hpages, pageSize_congr hbits]
  refine ⟨fun p page hpage => ?_, hpointer, Nat.le_of_eq hcursor.symm, fun x hx => hview ▸ hx,
    fun x b _ hb => hview ▸ hb⟩
  rw [hpages] at hpage
  rw [pageSize_congr hbits]
  exact hm p page hpage

end Spares

/-- Storage of some size has been taken at an address behind the cursor. -/
structure Took (m : Memory) (a : Int) (n : Nat) (m' : Memory) : Prop where
  spares : m.Spares (fun x => (m.cursor : Int) ≤ x) m'
  above : (m.cursor : Int) ≤ a
  below : a + max (n : Int) 1 ≤ m'.cursor
  mapped : m'.Mapped a n
  allocations (x : Int) : m'.allocations[x]? = if x = a then some (n : Int) else m.allocations[x]?
  marks : m'.marks = m.marks

/-- Memory stays in order if all that is held has been held before, or lies before the cursor
too. -/
theorem Orderly.spares (h : m.Orderly) (hs : m.Spares touched m')
    (hheld : ∀ a n : Int, m'.allocations[a]? = some n → m.allocations[a]? = some n ∨
      a + max n 1 ≤ m'.cursor) :
    m'.Orderly where
  paged := hs.paged
  cursor := Nat.lt_of_lt_of_le h.cursor hs.cursor
  below a n hn := by
    have hcursor := hs.cursor
    rcases hheld a n hn with hold | hnew
    · have hbelow := h.below a n hold
      omega
    · exact hnew

theorem Orderly.took (h : m.Orderly) (ht : m.Took a n m') : m'.Orderly := by
  refine h.spares ht.spares fun x k hk => ?_
  rw [ht.allocations] at hk
  split at hk
  case isTrue hx =>
    cases hk
    exact .inr (hx ▸ ht.below)
  case isFalse => exact .inl hk

/-- Storage has been given back, along with its mark. -/
structure Returned (m : Memory) (a : Int) (m' : Memory) : Prop where
  spares : m.Spares (fun _ => False) m'
  allocations (x : Int) : m'.allocations[x]? = if x = a then none else m.allocations[x]?
  marks (x : Int) : m'.isInitialized x = (decide (x ≠ a) && m.isInitialized x)

end Memory

/-- Writing into a range spares what is not in it. -/
theorem Session.Confined.spares {s s' : Session} {touched : Int → Prop} {a : Int} {n : Nat}
    (h : s.Confined a n s')
    (hm : s.memory.Paged) (hsub : ∀ x, a ≤ x → x < a + n → touched x) :
    s.memory.Spares touched s'.memory where
  paged := h.paged
  pointerSize := h.storage.pointerSize
  cursor := Nat.le_of_eq h.storage.cursor.symm
  stays x hx := by
    rwa [Memory.isSome_byte?_iff h.paged, h.storage.isMapped, ← Memory.isSome_byte?_iff hm]
  kept x b hx hb := by rwa [h.outside x fun hrange => hx (hsub x hrange.1 hrange.2)]

namespace Run

variable {s : Session} {a : Int}

theorem allocate_took (hm : s.memory.Paged) {alignment : Int}
    (halignment : isPowerOfTwo alignment = true) (n : Nat) :
    ∃ a s', (allocate n alignment).outcome s = (.ok a, s') ∧ s.memory.Took a n s'.memory := by
  have hpos := isPowerOfTwo.pos halignment
  have hcursor := le_roundUp (show 0 < alignment.toNat by omega) s.memory.cursor
  refine ⟨roundUp s.memory.cursor alignment.toNat,
    _, by rw [outcome_allocate, if_pos halignment], ?_⟩
  generalize roundUp s.memory.cursor alignment.toNat = address at hcursor
  have hplan := Memory.samePlan_mapRange (m := s.memory) address n
  have hend : (s.memory.taken address n).cursor = address + (max (n : Int) 1).toNat := rfl
  refine ⟨⟨hm.taken address n, hplan.pointerSize, by dsimp only; omega, fun x hx => ?_,
    fun x b _ hb => Memory.byte?_taken hb address n⟩,
    Int.ofNat_le.mpr hcursor, by dsimp only; omega,
    Memory.mapped_taken hm address n, fun x => ?_, hplan.marks⟩
  · obtain ⟨b, hb⟩ := Option.isSome_iff_exists.mp hx
    rw [Memory.byte?_taken hb]
    rfl
  · show ((s.memory.mapRange address n).allocations.insert (address : Int) (n : Int))[x]? = _
    rw [hplan.allocations, Std.TreeMap.getElem?_insert]
    simp only [Std.compare_eq_iff_eq, eq_comm (a := x)]

theorem deallocate_returned (hm : s.memory.Paged) {n : Int}
    (h : s.memory.allocations[a]? = some n) :
    ∃ s', (deallocate a).outcome s = (.ok (), s') ∧ s.memory.Returned a s'.memory := by
  have hheld : s.memory.allocations.contains a = true := by
    rw [Std.TreeMap.contains_eq_isSome_getElem?, h]
    rfl
  have hout := outcome_deallocate a s
  rw [if_pos hheld] at hout
  refine ⟨_, hout, .of_pages hm rfl rfl rfl rfl, fun x => ?_,
    fun x => s.memory.isInitialized_markUninitialized a x⟩
  show (s.memory.allocations.erase a)[x]? = _
  rw [Std.TreeMap.getElem?_erase]
  simp only [Std.compare_eq_iff_eq, eq_comm (a := x)]

end Run

end SwiftABI
