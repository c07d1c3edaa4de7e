/-
  Paged memory as a map from addresses to bytes.

  `Memory.byte?` is the map: an address has a byte if its page is mapped. Reading and writing go
  page by page, but all that can be seen of that is the map. Reading gives the bytes of a range in
  order, or the first address that has none (`Memory.read_cases`). Writing replaces the bytes of a
  range up to the first address that has none, and no others (`Memory.write_cases`).
-/
import SwiftABI.Memory.Basic

namespace SwiftABI.Memory

variable {m : Memory} {a : Int} {n : Nat} {bs : Bytes} {page : Page}

/-! ### Pages -/

/-- Every page has as many bytes as a page has to have. -/
def Paged (m : Memory) : Prop := ∀ (p : Int) (page : Page), m.pages[p]? = some page →
      page.size = m.pageSize

/-- The addresses behind one in the same page. -/
theorem page_add {i : Nat} (h : m.offsetOf a + i < m.pageSize) :
    m.pageOf (a + i) = m.pageOf a ∧ m.offsetOf (a + i) = m.offsetOf a + i := by
  have hpos : (0 : Int) < m.pageSize := by exact_mod_cast m.pageSize_pos
  have hnonneg := Int.emod_nonneg a (Int.ne_of_gt hpos)
  have hsplit := Int.emod_add_mul_ediv a m.pageSize
  unfold offsetOf at h
  obtain ⟨hpage, hoffset⟩ : (a + i) / m.pageSize = a / m.pageSize ∧
      (a + i) % m.pageSize = a % m.pageSize + i :=
    (Int.ediv_emod_unique hpos).mpr ⟨by omega, by omega, by omega⟩
  unfold pageOf offsetOf
  exact ⟨hpage, by omega⟩

/-- Two addresses of one page differ by as much as their positions in it. -/
theorem sub_eq_of_pageOf_eq {b : Int} (h : m.pageOf b = m.pageOf a) :
    b - a = (m.offsetOf b : Int) - m.offsetOf a := by
  have hpos : (0 : Int) < m.pageSize := by exact_mod_cast m.pageSize_pos
  have ha := Int.emod_nonneg a (Int.ne_of_gt hpos)
  have hb := Int.emod_nonneg b (Int.ne_of_gt hpos)
  have hsplit := Int.emod_add_mul_ediv a m.pageSize
  have hsplit' := Int.emod_add_mul_ediv b m.pageSize
  unfold pageOf at h
  rw [h] at hsplit'
  unfold offsetOf
  omega

theorem byte?_of_page {x : Int} (h : m.pages[m.pageOf x]? = some page) :
    m.byte? x = page[m.offsetOf x]? := by
  unfold byte?
  rw [h]
  rfl

theorem byte?_of_no_page {x : Int} (h : m.pages[m.pageOf x]? = none) : m.byte? x = none := by
  unfold byte?
  rw [h]
  rfl

/-- An address has a byte exactly where its page is mapped. -/
theorem isSome_byte?_iff (hm : m.Paged) {x : Int} :
    (m.byte? x).isSome = true ↔ m.isMapped x = true := by
  unfold isMapped
  rw [Std.TreeMap.contains_eq_isSome_getElem?]
  rcases hpage : m.pages[m.pageOf x]? with _ | page
  · rw [byte?_of_no_page hpage]
    simp
  · have hlt := m.offsetOf_lt x
    rw [← hm _ _ hpage] at hlt
    rw [byte?_of_page hpage, Array.getElem?_eq_getElem hlt]
    simp

/-! ### Ranges -/

/-- Every address of the range has a byte. -/
def Mapped (m : Memory) (a : Int) (n : Nat) : Prop := ∀ i < n, (m.byte? (a + i)).isSome = true

/-- The range has these bytes, in order. -/
def Holds (m : Memory) (a : Int) (bs : Bytes) : Prop := ∀ i < bs.length, m.byte? (a + i) = bs[i]?

/-- The address `a + i` is the first one of the range that has no byte. -/
structure FirstUnmapped (m : Memory) (a : Int) (n i : Nat) : Prop where
  lt : i < n
  unmapped : m.byte? (a + i) = none
  before : m.Mapped a i

theorem Holds.mapped (h : m.Holds a bs) : m.Mapped a bs.length := by
  intro i hi
  rw [h i hi, List.getElem?_eq_getElem hi]
  rfl

theorem holds_nil : m.Holds a [] := nofun

/-- Two ranges that follow each other are one. -/
theorem Holds.append {bs' : Bytes} (h : m.Holds a bs) (h' : m.Holds (a + bs.length) bs') :
    m.Holds a (bs ++ bs') := by
  intro i hi
  rw [List.length_append] at hi
  by_cases hlt : i < bs.length
  · rw [h i hlt, List.getElem?_append_left hlt]
  · have hbyte := h' (i - bs.length) (by omega)
    have haddress : a + bs.length + (i - bs.length : Nat) = a + i := by omega
    rw [haddress] at hbyte
    rw [hbyte, List.getElem?_append_right (by omega)]

/-- Some of the bytes of a range are those of a part of it. -/
theorem Holds.slice {offset size : Nat} (h : m.Holds a bs) (hsize : offset + size ≤ bs.length) :
    m.Holds (a + offset) ((bs.drop offset).take size) := by
  intro i hi
  rw [List.length_take, List.length_drop] at hi
  have hbyte := h (offset + i) (by omega)
  rw [Int.natCast_add, ← Int.add_assoc] at hbyte
  rw [hbyte, List.getElem?_take, if_pos (by omega), List.getElem?_drop]

theorem Mapped.append {k : Nat} (h : m.Mapped a n) (h' : m.Mapped (a + n) k) :
    m.Mapped a (n + k) := by
  intro i hi
  by_cases hlt : i < n
  · exact h i hlt
  · have hbyte := h' (i - n) (by omega)
    have haddress : a + n + (i - n : Nat) = a + i := by omega
    rwa [haddress] at hbyte

/-- What is missing first behind a range with bytes is missing first of both. -/
theorem FirstUnmapped.append {k i : Nat} (h : m.Mapped a n) (h' : m.FirstUnmapped (a + n) k i) :
    m.FirstUnmapped a (n + k) (n + i) := by
  refine ⟨by have := h'.lt; omega, ?_, h.append h'.before⟩
  have haddress : a + ((n + i : Nat) : Int) = a + n + i := by omega
  rw [haddress]
  exact h'.unmapped

/-- Where a range begins outside of all pages, its first address has no byte. -/
theorem FirstUnmapped.zero (hn : n ≠ 0) (h : m.pages[m.pageOf a]? = none) :
    m.FirstUnmapped a n 0 := by
  refine ⟨by omega, ?_, nofun⟩
  rw [Int.natCast_zero, Int.add_zero]
  exact byte?_of_no_page h

/-- Where the first address has no byte, only the empty range has all. -/
theorem Mapped.eq_zero (h : m.Mapped a n) (ha : m.byte? a = none) : n = 0 := by
  rcases Nat.eq_zero_or_pos n with hn | hn
  · exact hn
  · have hsome := h 0 hn
    rw [Int.natCast_zero, Int.add_zero, ha] at hsome
    cases hsome

/-- A range has either all bytes or a first address without. -/
theorem not_mapped_iff : ¬m.Mapped a n ↔ ∃ i, m.FirstUnmapped a n i := by
  constructor
  · intro h
    -- Without the last address, either the rest is mapped or it has a first address that is not.
    induction n with
    | zero => exact absurd (nofun : m.Mapped a 0) h
    | succ n ih =>
      by_cases hn : m.Mapped a n
      · refine ⟨n, by omega, ?_, hn⟩
        rcases hbyte : m.byte? (a + n) with _ | b
        · rfl
        · refine absurd (fun i hi => ?_) h
          rcases Nat.lt_succ_iff_lt_or_eq.mp hi with hi | rfl
          · exact hn i hi
          · exact Option.isSome_of_eq_some hbyte
      · obtain ⟨i, hi⟩ := ih hn
        exact ⟨i, by have := hi.lt; omega, hi.unmapped, hi.before⟩
  · rintro ⟨i, hi⟩ h
    have hsome := h i hi.lt
    rw [hi.unmapped] at hsome
    cases hsome

/-- Which addresses have bytes, but not which ones. -/
theorem Mapped.congr {m' : Memory} (hsame : ∀ x, (m'.byte? x).isSome = (m.byte? x).isSome)
    (h : m'.Mapped a n) : m.Mapped a n := by
  intro i hi
  rw [← hsame]
  exact h i hi

theorem FirstUnmapped.congr {m' : Memory} {i : Nat}
    (hsame : ∀ x, (m'.byte? x).isSome = (m.byte? x).isSome) (h : m'.FirstUnmapped a n i) :
    m.FirstUnmapped a n i := by
  refine ⟨h.lt, ?_, h.before.congr hsame⟩
  rw [← Option.not_isSome_iff_eq_none, ← hsame, h.unmapped]
  decide

/-! ### Reading -/

/-- The bytes of a page from an address on are those of the map. -/
theorem holds_extract (hm : m.Paged) (hpage : m.pages[m.pageOf a]? = some page) (count : Nat)
    (hcount : m.offsetOf a + count ≤ m.pageSize) :
    (page.extract (m.offsetOf a) (m.offsetOf a + count)).toList.length = count ∧
      m.Holds a (page.extract (m.offsetOf a) (m.offsetOf a + count)).toList := by
  have hsize := hm _ _ hpage
  have hlength : (page.extract (m.offsetOf a) (m.offsetOf a + count)).toList.length = count := by
    rw [Array.length_toList, Array.size_extract]
    omega
  refine ⟨hlength, fun i hi => ?_⟩
  rw [hlength] at hi
  obtain ⟨hpage', hoffset⟩ := page_add (m := m) (a := a) (i := i) (by omega)
  rw [byte?_of_page (by rw [hpage']; exact hpage), hoffset, Array.getElem?_toList,
    Array.getElem?_extract, if_pos (by omega)]

/-- Reading gives the bytes of the range, or fails at its first address that has none. -/
theorem read_cases (hm : m.Paged) (a : Int) (n : Nat) :
    (∃ bs, m.read a n = .ok bs ∧ bs.length = n ∧ m.Holds a bs) ∨
      ∃ i, m.FirstUnmapped a n i ∧ m.read a n = .error (.unmapped (a + i)) := by
  -- Page by page: the bytes of a page are in the map, and an address behind them is shifted by
  -- their number.
  fun_induction Memory.read m a n with
  | case1 a => exact .inl ⟨[], rfl, rfl, holds_nil⟩
  | case2 a n hn hpage => exact .inr ⟨0, .zero hn hpage, by rw [Int.natCast_zero, Int.add_zero]⟩
  | case3 a n hn page hpage offset count bytes ih =>
    have hlt := m.offsetOf_lt a
    obtain ⟨hlength, hbytes⟩ := holds_extract hm hpage count (by omega)
    change bytes.length = count at hlength
    change m.Holds a bytes at hbytes
    rcases ih with ⟨rest, hrest, hrestLength, hrestBytes⟩ | ⟨i, hi, hrest⟩
    · rw [hrest]
      refine .inl ⟨bytes ++ rest, rfl, by rw [List.length_append]; omega, ?_⟩
      exact hbytes.append (by rwa [hlength])
    · rw [hrest]
      have hfirst := FirstUnmapped.append (hlength ▸ hbytes.mapped) hi
      have hn' : count + (n - count) = n := by omega
      rw [hn'] at hfirst
      refine .inr ⟨count + i, hfirst, ?_⟩
      have haddress : a + ((count + i : Nat) : Int) = a + count + i := by omega
      rw [haddress]
      rfl

theorem Mapped.exists_holds (hm : m.Paged) (h : m.Mapped a n) :
    ∃ bs : Bytes, bs.length = n ∧ m.Holds a bs := by
  rcases read_cases hm a n with ⟨bs, -, hlength, hbytes⟩ | ⟨i, hi, -⟩
  · exact ⟨bs, hlength, hbytes⟩
  · exact absurd h (not_mapped_iff.mpr ⟨i, hi⟩)

/-- A range that has all its bytes is read. -/
theorem read_of_holds (hm : m.Paged) (h : m.Holds a bs) : m.read a bs.length = .ok bs := by
  rcases read_cases hm a bs.length with ⟨bs', hread, hlength, hbytes⟩ | ⟨i, hi, -⟩
  · rw [hread]
    refine congrArg Except.ok (List.ext_getElem? fun i => ?_)
    by_cases hi : i < bs.length
    · rw [← h i hi, hbytes i (by omega)]
    · rw [List.getElem?_eq_none (by omega), List.getElem?_eq_none (by omega)]
  · exact absurd h.mapped (not_mapped_iff.mpr ⟨i, hi⟩)

/-! ### Writing -/

/-- A map from addresses to bytes with the bytes of a range replaced. -/
def overwritten (view : Int → Option UInt8) (a : Int) (bs : Bytes) (x : Int) : Option UInt8 :=
  if a ≤ x ∧ x < a + bs.length then bs[(x - a).toNat]? else view x

theorem overwritten_nil (view : Int → Option UInt8) (a : Int) : overwritten view a [] = view := by
  funext x
  exact if_neg (by simp only [List.length_nil]; omega)

/-- Replacing the bytes of two ranges that follow each other. -/
theorem overwritten_append (view : Int → Option UInt8) (a : Int) (bs bs' : Bytes) :
    overwritten (overwritten view a bs) (a + bs.length) bs' = overwritten view a (bs ++ bs') := by
  funext x
  unfold overwritten
  rw [List.length_append]
  by_cases hsecond : a + bs.length ≤ x ∧ x < a + bs.length + bs'.length
  · rw [if_pos hsecond, if_pos (by omega), List.getElem?_append_right (by omega)]
    congr 1
    omega
  · rw [if_neg hsecond]
    by_cases hfirst : a ≤ x ∧ x < a + bs.length
    · rw [if_pos hfirst, if_pos (by omega), List.getElem?_append_left (by omega)]
    · rw [if_neg hfirst, if_neg (by omega)]

theorem size_splice {offset : Nat} (h : offset + bs.length ≤ page.size) :
    (splice page offset bs).size = page.size := by
  simp only [splice, Array.size_append, Array.size_extract, List.size_toArray]
  omega

theorem getElem?_splice {offset i : Nat} (h : offset + bs.length ≤ page.size) :
    (splice page offset bs)[i]? =
      if offset ≤ i ∧ i < offset + bs.length then bs[i - offset]? else page[i]? := by
  have hfirst : (page.extract 0 offset).size = offset := by
    rw [Array.size_extract]
    omega
  unfold splice
  rw [Array.getElem?_append, Array.size_append, hfirst, List.size_toArray]
  by_cases hbefore : i < offset + bs.length
  · rw [if_pos hbefore, Array.getElem?_append, hfirst]
    by_cases hlt : i < offset
    · rw [if_pos hlt, if_neg (by omega), Array.getElem?_extract, if_pos (by omega), Nat.zero_add]
    · rw [if_neg hlt, if_pos (by omega), List.getElem?_toArray]
  · rw [if_neg hbefore, if_neg (by omega), Array.getElem?_extract]
    by_cases hi : i < page.size
    · rw [if_pos (by omega)]
      congr 1
      omega
    · rw [if_neg (by omega), Array.getElem?_eq_none (by omega)]

/-- The memory with other bytes in a page. -/
def withPage (m : Memory) (p : Int) (page : Page) :
    Memory := { m with pages := m.pages.insert p page }

theorem getElem?_withPage {p q : Int} :
    (m.withPage p page).pages[q]? = if p = q then some page else m.pages[q]? := by
  show (m.pages.insert p page)[q]? = _
  rw [Std.TreeMap.getElem?_insert]
  simp only [Std.compare_eq_iff_eq]

theorem Paged.withPage (hm : m.Paged) {p : Int} (hsize : page.size = m.pageSize) :
    (m.withPage p page).Paged := by
  intro q page' h
  rw [getElem?_withPage] at h
  split at h
  · cases h
    exact hsize
  · exact hm q page' h

/-- Replacing bytes of one page replaces them in the map. -/
theorem byte?_withPage_splice (hm : m.Paged) (hpage : m.pages[m.pageOf a]? = some page)
    (hfits : m.offsetOf a + bs.length ≤ m.pageSize) :
    (m.withPage (m.pageOf a) (splice page (m.offsetOf a) bs)).byte? = overwritten m.byte? a bs := by
  have hsize := hm _ _ hpage
  funext x
  unfold overwritten
  by_cases hx : m.pageOf x = m.pageOf a
  · have hsub := sub_eq_of_pageOf_eq hx
    have hpage' : (m.withPage (m.pageOf a) (splice page (m.offsetOf a) bs)).pages[m.pageOf x]?
        = some (splice page (m.offsetOf a) bs) := by
      rw [getElem?_withPage, if_pos hx.symm]
    rw [byte?_of_page hpage']
    show (splice page (m.offsetOf a) bs)[m.offsetOf x]? = _
    rw [getElem?_splice (by omega), byte?_of_page (by rw [hx]; exact hpage)]
    by_cases hrange : a ≤ x ∧ x < a + bs.length
    · rw [if_pos (by omega), if_pos hrange]
      congr 1
      omega
    · rw [if_neg (by omega), if_neg hrange]
  · -- An address of another page is not in the range.
    have hrange : ¬(a ≤ x ∧ x < a + bs.length) := by
      intro hrange
      have hoffset := page_add (m := m) (a := a) (i := (x - a).toNat) (by omega)
      have haddress : a + ((x - a).toNat : Int) = x := by omega
      rw [haddress] at hoffset
      exact hx hoffset.1
    rw [if_neg hrange]
    unfold byte?
    show ((m.withPage (m.pageOf a) _).pages[m.pageOf x]?.bind _) = _
    rw [getElem?_withPage, if_neg fun h => hx h.symm]
    rfl

/-- The bytes that are replaced are those of a range with bytes. -/
theorem isSome_overwritten {view : Int → Option UInt8}
    (h : ∀ i < bs.length, (view (a + i)).isSome = true) (x : Int) :
    (overwritten view a bs x).isSome = (view x).isSome := by
  unfold overwritten
  split
  · have hx := h (x - a).toNat (by omega)
    have haddress : a + ((x - a).toNat : Int) = x := by omega
    rw [haddress] at hx
    rw [hx, List.getElem?_eq_getElem (by omega)]
    rfl
  · rfl

/-- Only the bytes and the marks may differ, but neither what is mapped nor what is taken. -/
structure SameStorage (m m' : Memory) : Prop where
  pageBits : m'.pageBits = m.pageBits
  pointerSize : m'.pointerSize = m.pointerSize
  mapped : ∀ p, m'.pages.contains p = m.pages.contains p
  allocations : m'.allocations = m.allocations
  cursor : m'.cursor = m.cursor

theorem SameStorage.refl (m : Memory) : m.SameStorage m := ⟨rfl, rfl, fun _ => rfl, rfl, rfl⟩

theorem SameStorage.trans {m₁ m₂ m₃ : Memory} (h : m₁.SameStorage m₂) (h' : m₂.SameStorage m₃) :
    m₁.SameStorage m₃ where
  pageBits := h'.pageBits.trans h.pageBits
  pointerSize := h'.pointerSize.trans h.pointerSize
  mapped p := (h'.mapped p).trans (h.mapped p)
  allocations := h'.allocations.trans h.allocations
  cursor := h'.cursor.trans h.cursor

theorem pageSize_congr {m' : Memory} (h : m'.pageBits = m.pageBits) : m'.pageSize = m.pageSize :=
  congrArg (2 ^ ·) h

theorem SameStorage.isMapped {m' : Memory} (h : m.SameStorage m') (a : Int) :
    m'.isMapped a = m.isMapped a := by
  unfold Memory.isMapped pageOf
  rw [h.mapped, pageSize_congr h.pageBits]

/-- Other bytes in a page that is mapped. -/
theorem sameStorage_withPage {p : Int} {old : Page} (h : m.pages[p]? = some old) :
    m.SameStorage (m.withPage p page) where
  pageBits := rfl
  pointerSize := rfl
  mapped q := by
    rw [Std.TreeMap.contains_eq_isSome_getElem?, Std.TreeMap.contains_eq_isSome_getElem?,
      getElem?_withPage]
    split
    case isTrue hpq =>
      subst hpq
      rw [h]
      rfl
    case isFalse => rfl
  allocations := rfl
  cursor := rfl

theorem sameStorage_write (a : Int) (bs : Bytes) : m.SameStorage (m.write a bs).2 := by
  fun_induction Memory.write m a bs with
  | case1 m => exact .refl m
  | case2 m => exact .refl m
  | case3 m a bs _ page hpage offset count page' ih => exact (sameStorage_withPage hpage).trans ih

/-- Writing replaces the bytes of the range, or those before its first address that has none, where
it fails. No other byte changes. -/
theorem write_cases (hm : m.Paged) (a : Int) (bs : Bytes) :
    (m.write a bs).2.Paged ∧
      (m.Mapped a bs.length ∧ (m.write a bs).1 = .ok () ∧
          (m.write a bs).2.byte? = overwritten m.byte? a bs ∨
        ∃ i, m.FirstUnmapped a bs.length i ∧ (m.write a bs).1 = .error (.unmapped (a + i)) ∧
          (m.write a bs).2.byte? = overwritten m.byte? a (bs.take i)) := by
  -- By induction on the pages. The rest of the bytes goes to a memory that has bytes at the same
  -- addresses.
  fun_induction Memory.write m a bs with
  | case1 m a bs hbs =>
    obtain rfl := List.eq_nil_of_length_eq_zero hbs
    exact ⟨hm, .inl ⟨nofun, rfl, (overwritten_nil _ _).symm⟩⟩
  | case2 m a bs hbs hpage =>
    refine ⟨hm, .inr ⟨0, .zero hbs hpage, by rw [Int.natCast_zero, Int.add_zero], ?_⟩⟩
    rw [List.take_zero, overwritten_nil]
  | case3 m a bs hbs page hpage offset count page' ih =>
    have hlt := m.offsetOf_lt a
    have hfits : m.offsetOf a + (bs.take count).length ≤ m.pageSize := by
      rw [List.length_take]
      omega
    have hlength : (bs.take count).length = count := by
      rw [List.length_take]
      omega
    have hsize := hm _ _ hpage
    have hview := byte?_withPage_splice hm hpage hfits
    have hmapped : m.Mapped a count := by
      intro i hi
      obtain ⟨hpage', hoffset⟩ := page_add (m := m) (a := a) (i := i) (by omega)
      rw [byte?_of_page (by rw [hpage']; exact hpage), hoffset,
        Array.getElem?_eq_getElem (by omega)]
      rfl
    have hsame : ∀ x, ((m.withPage (m.pageOf a) page').byte? x).isSome = (m.byte? x).isSome := by
      intro x
      show ((m.withPage (m.pageOf a) (splice page offset (bs.take count))).byte? x).isSome = _
      rw [hview]
      exact isSome_overwritten (by rwa [hlength]) x
    have hdrop : count + (bs.drop count).length = bs.length := by
      rw [List.length_drop]
      omega
    obtain ⟨hpaged, hresult⟩ := ih (hm.withPage ((size_splice (by omega)).trans hsize))
    refine ⟨hpaged, ?_⟩
    change (m.withPage (m.pageOf a) page').Mapped (a + count) _ ∧ _ ∨
      ∃ i, (m.withPage (m.pageOf a) page').FirstUnmapped (a + count) _ i ∧ _ at hresult
    change (m.withPage (m.pageOf a) page').byte? = _ at hview
    rcases hresult with ⟨hrest, hok, hbytes⟩ | ⟨i, hi, herror, hbytes⟩
    · refine .inl ⟨hdrop ▸ hmapped.append (hrest.congr hsame), hok, hbytes.trans ?_⟩
      have hjoined := overwritten_append m.byte? a (bs.take count) (bs.drop count)
      rwa [hlength, List.take_append_drop, ← hview] at hjoined
    · have hfirst := FirstUnmapped.append hmapped (hi.congr hsame)
      rw [hdrop] at hfirst
      have haddress : a + ((count + i : Nat) : Int) = a + count + i := by omega
      refine .inr ⟨count + i, hfirst, haddress ▸ herror, hbytes.trans ?_⟩
      have hjoined := overwritten_append m.byte? a (bs.take count) ((bs.drop count).take i)
      rwa [hlength, ← List.take_add, ← hview] at hjoined

end SwiftABI.Memory
