/-
  What mapping pages and taking storage do to memory.

  Mapping a range maps the pages that it touches, and changes nothing else
  (`contains_mapRange_iff`). `Memory.taken` is the memory after storage has been taken at an
  address. It keeps all bytes that there were (`Paged.taken`, `mapped_taken`).
-/
import SwiftABI.Proofs.Alignment
import SwiftABI.Proofs.Memory.Flat

namespace SwiftABI.Memory

variable {m : Memory}

/-! ### Mapping pages -/

/-- Only the pages differ. -/
structure SamePlan (m m' : Memory) : Prop where
  pageBits : m'.pageBits = m.pageBits
  pointerSize : m'.pointerSize = m.pointerSize
  allocations : m'.allocations = m.allocations
  cursor : m'.cursor = m.cursor
  marks : m'.marks = m.marks

theorem mapPage_eq (m : Memory) (p : Int) :
    m.mapPage p = m ∨ m.mapPage p = m.withPage p (Array.replicate m.pageSize 0) := by
  unfold mapPage
  split
  · exact .inl rfl
  · exact .inr rfl

theorem contains_mapPage_iff {p q : Int} :
    (m.mapPage p).pages.contains q = true ↔ m.pages.contains q = true ∨ q = p := by
  unfold mapPage
  split
  case isTrue h =>
    constructor
    · exact .inl
    · rintro (hq | rfl)
      · exact hq
      · exact h
  case isFalse =>
    show (m.pages.insert p _).contains q = true ↔ _
    rw [Std.TreeMap.contains_insert, Bool.or_eq_true, beq_iff_eq, Std.compare_eq_iff_eq, or_comm]
    exact or_congr_right eq_comm

theorem Paged.mapPage (hm : m.Paged) (p : Int) : (m.mapPage p).Paged := by
  rcases mapPage_eq m p with h | h <;> rw [h]
  · exact hm
  · exact hm.withPage Array.size_replicate

theorem samePlan_mapPages (first : Int) (count : Nat) : m.SamePlan (m.mapPages first count) := by
  induction count with
  | zero => exact ⟨rfl, rfl, rfl, rfl, rfl⟩
  | succ count ih =>
    rw [mapPages]
    rcases mapPage_eq (m.mapPages first count) (first + count) with h | h <;> rw [h]
    · exact ih
    · exact ⟨ih.pageBits, ih.pointerSize, ih.allocations, ih.cursor, ih.marks⟩

theorem Paged.mapPages (hm : m.Paged) (first : Int) (count : Nat) :
    (m.mapPages first count).Paged := by
  induction count with
  | zero => exact hm
  | succ count ih => exact ih.mapPage _

theorem contains_mapPages_iff {first p : Int} {count : Nat} :
    (m.mapPages first count).pages.contains p = true ↔
      m.pages.contains p = true ∨ first ≤ p ∧ p < first + count := by
  induction count with
  | zero =>
    rw [mapPages]
    exact ⟨.inl, fun h => h.resolve_right (by omega)⟩
  | succ count ih =>
    rw [mapPages, contains_mapPage_iff, ih, or_assoc]
    refine or_congr_right ?_
    omega

theorem samePlan_mapRange (address size : Int) : m.SamePlan (m.mapRange address size) := by
  unfold mapRange
  split
  · exact ⟨rfl, rfl, rfl, rfl, rfl⟩
  · exact samePlan_mapPages _ _

theorem Paged.mapRange (hm : m.Paged) (address size : Int) : (m.mapRange address size).Paged := by
  unfold Memory.mapRange
  split
  · exact hm
  · exact hm.mapPages _ _

/-- Mapping a range maps the pages from its first byte to its last. -/
theorem contains_mapRange_iff {address size p : Int} :
    (m.mapRange address size).pages.contains p = true ↔
      m.pages.contains p = true ∨
        size ≠ 0 ∧ m.pageOf address ≤ p ∧ p ≤ m.pageOf (address + size - 1) := by
  unfold mapRange
  split
  case isTrue h => exact ⟨.inl, fun h' => h'.resolve_right fun h' => h'.1 h⟩
  case isFalse h =>
    rw [contains_mapPages_iff]
    refine or_congr_right ?_
    omega

/-! ### Taking storage -/

/-- The memory after storage has been taken at an address. -/
def taken (m : Memory) (address : Nat) (size : Int) : Memory :=
  { m.mapRange address size with
    cursor := address + (max size 1).toNat
    allocations := (m.mapRange address size).allocations.insert address size }

/-- Storage is refused exactly if the alignment is none. -/
theorem allocate_eq (m : Memory) (size alignment : Int) :
    m.allocate size alignment =
      if isPowerOfTwo alignment then
        .ok (roundUp m.cursor alignment.toNat, m.taken (roundUp m.cursor alignment.toNat) size)
      else .error (.alignment alignment) := rfl

theorem Paged.taken (hm : m.Paged) (address : Nat) (size : Int) : (m.taken address size).Paged :=
  fun p page hpage => hm.mapRange address size p page hpage

theorem isMapped_taken_iff {address : Nat} {size a : Int} :
    (m.taken address size).isMapped a = true ↔
      m.isMapped a = true ∨
        size ≠ 0 ∧ m.pageOf address ≤ m.pageOf a ∧ m.pageOf a ≤ m.pageOf (address + size - 1) := by
  have hpage : (m.taken address size).pageOf a = m.pageOf a := by
    show a / ((2 ^ (m.mapRange address size).pageBits : Nat) : Int) = _
    rw [(samePlan_mapRange address size).pageBits]
    rfl
  unfold isMapped
  rw [hpage]
  exact contains_mapRange_iff

/-- Bytes that there are stay when more is mapped. -/
theorem byte?_mapPage {a : Int} {b : UInt8} (h : m.byte? a = some b) (p : Int) :
    (m.mapPage p).byte? a = some b := by
  unfold mapPage
  split
  case isTrue => exact h
  case isFalse hnew =>
    have hother : p ≠ m.pageOf a := by
      rintro rfl
      rw [Std.TreeMap.contains_eq_isSome_getElem?, Bool.not_eq_true, Option.isSome_eq_false_iff,
        Option.isNone_iff_eq_none] at hnew
      rw [byte?_of_no_page hnew] at h
      cases h
    show ((m.withPage p _).pages[m.pageOf a]?.bind _) = _
    rw [getElem?_withPage, if_neg hother]
    exact h

theorem byte?_mapPages {a : Int} {b : UInt8} (h : m.byte? a = some b) (first : Int) (count : Nat) :
    (m.mapPages first count).byte? a = some b := by
  induction count with
  | zero => exact h
  | succ count ih => exact byte?_mapPage ih _

/-- Bytes that there are stay when storage is taken. -/
theorem byte?_taken {a : Int} {b : UInt8} (h : m.byte? a = some b) (address : Nat) (size : Int) :
    (m.taken address size).byte? a = some b := by
  show (m.mapRange address size).byte? a = some b
  unfold mapRange
  split
  · exact h
  · exact byte?_mapPages h _ _

/-- Storage that has been taken is mapped. -/
theorem mapped_taken (hm : m.Paged) (address n : Nat) : (m.taken address n).Mapped address n := by
  have hpos : (0 : Int) < m.pageSize := by exact_mod_cast m.pageSize_pos
  intro i hi
  rw [isSome_byte?_iff (hm.taken address n), isMapped_taken_iff]
  exact .inr ⟨by omega, Int.ediv_le_ediv hpos (by omega), Int.ediv_le_ediv hpos (by omega)⟩

end SwiftABI.Memory
