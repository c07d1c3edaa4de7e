/-
  Storage over whole runs.

  `granted` is the storage that some calls have ever been given, and `held` what of it they have not
  given back. `Memory.Accounts` ties both to the memory: storage lies behind page zero and before
  the cursor, at multiples of its alignment, on mapped pages, and no two pieces overlap. Every call
  keeps this (`Accounts.perform`), and what follows from it is `Session.KeepsAccount`, which holds
  after every run (`keepsAccount_performAll`).
-/
import SwiftABI.Proofs.Memory.Calls

namespace SwiftABI

/-! ### Storage that has been given -/

/-- Storage that has been given. -/
structure Grant where
  address : Int
  size : Int
  alignment : Int

/-- The two have no address in common, where storage of no size has the one it begins at. -/
def Grant.Disjoint (g g' : Grant) : Prop :=
  g.address + max g.size 1 ≤ g'.address ∨ g'.address + max g'.size 1 ≤ g.address

namespace MemoryHistory

/-- What a call has been given. -/
def grant? : MemoryCall × Except SessionFault MemoryAnswer → Option Grant
  | (.allocate size alignment, .ok (.integer address)) => some ⟨address, size, alignment⟩
  | _ => none

/-- All storage that has been given. -/
def granted (history : MemoryHistory) : List Grant := history.filterMap grant?

/-- What is held after a call, if this has been held before. -/
def hold (held : List Grant) : MemoryCall × Except SessionFault MemoryAnswer → List Grant
  | (.allocate size alignment, .ok (.integer address)) => held ++ [⟨address, size, alignment⟩]
  | (.deallocate address, .ok _) => held.filter fun g => g.address ≠ address
  | _ => held

/-- The storage that has been given and not given back. -/
def held (history : MemoryHistory) : List Grant := history.foldl hold []

theorem granted_append (history : MemoryHistory) (c : MemoryCall)
    (r : Except SessionFault MemoryAnswer) :
    granted (history ++ [(c, r)]) = granted history ++ (grant? (c, r)).toList := by
  unfold granted
  rw [List.filterMap_append]
  cases h : grant? (c, r) <;> simp [h]

theorem held_append (history : MemoryHistory) (c : MemoryCall)
    (r : Except SessionFault MemoryAnswer) :
    held (history ++ [(c, r)]) = hold (held history) (c, r) := by
  unfold held
  rw [List.foldl_append]
  rfl

end MemoryHistory

open MemoryHistory

/-! ### Accounts -/

/-- Storage lies where it was asked for, and its bytes are mapped. -/
structure Grant.Placed (m : Memory) (g : Grant) : Prop where
  aligned : g.alignment ∣ g.address
  above : m.pageSize ≤ g.address
  below : g.address + max g.size 1 ≤ m.cursor
  mapped (a : Int) (h : g.address ≤ a ∧ a < g.address + g.size) : m.isMapped a = true

/-- Memory agrees with the calls that have been made. -/
structure Memory.Accounts (m : Memory) (history : MemoryHistory) : Prop where
  paged : m.Paged
  null (p : Int) (h : m.pages.contains p = true) : 0 < p
  cursor : m.pageSize ≤ m.cursor
  placed (g : Grant) (h : g ∈ granted history) : g.Placed m
  disjoint : (granted history).Pairwise Grant.Disjoint
  held (a : Int) : m.allocations.contains a = true ↔ ∃ g ∈ held history, g.address = a

section

variable {m m' : Memory} {history : MemoryHistory}

/-- What is placed stays placed if pages are only added and the cursor only moves up. -/
theorem Grant.Placed.mono {g : Grant} (hg : g.Placed m) (hbits : m'.pageBits = m.pageBits)
    (hcursor : m.cursor ≤ m'.cursor) (hmapped : ∀ a, m.isMapped a = true → m'.isMapped a = true) :
    g.Placed m' where
  aligned := hg.aligned
  above := Memory.pageSize_congr hbits ▸ hg.above
  below := by have := hg.below; omega
  mapped a h := hmapped a (hg.mapped a h)

/-- What is placed lies before all that is placed behind the cursor. -/
theorem Grant.Placed.disjoint {g g' : Grant} (hg : g.Placed m) (h : m.cursor ≤ g'.address) :
    g.Disjoint g' :=
  .inl (Int.le_trans hg.below h)

namespace Memory.Accounts

/-- Calls that have nothing to do with storage keep the account. -/
theorem same (h : m.Accounts history) (hsame : m.SameStorage m') (hpaged : m'.Paged)
    {c : MemoryCall} {r : Except SessionFault MemoryAnswer} (hgrant : grant? (c, r) = none)
    (hhold : ∀ held, hold held (c, r) = held) : m'.Accounts (history ++ [(c, r)]) := by
  have hgranted : granted (history ++ [(c, r)]) = granted history := by
    rw [granted_append, hgrant]
    exact List.append_nil _
  constructor
  case paged => exact hpaged
  case null => exact fun p hp => h.null p (hsame.mapped p ▸ hp)
  case cursor =>
    rw [pageSize_congr hsame.pageBits, hsame.cursor]
    exact h.cursor
  case placed =>
    intro g hg
    rw [hgranted] at hg
    exact (h.placed g hg).mono hsame.pageBits (Nat.le_of_eq hsame.cursor.symm)
      fun a ha => (hsame.isMapped a).trans ha
  case disjoint => exact hgranted ▸ h.disjoint
  case held =>
    intro a
    rw [held_append, hhold, hsame.allocations]
    exact h.held a

/-- Nothing is mapped yet, nothing is taken yet. -/
theorem of_create {pageSize pointerSize : Int} (h : Memory.create pageSize pointerSize = .ok m) :
    m.Accounts [] := by
  have hpaged := paged_of_create h
  unfold Memory.create at h
  split at h
  · cases h
    refine ⟨hpaged, ?_, Nat.le_refl _, nofun, .nil, ?_⟩
    · intro p hp
      simp [empty] at hp
    · intro a
      simp [empty, MemoryHistory.held]
  · cases h

/-- Storage that is taken behind the cursor is added to the account. -/
theorem taken (h : m.Accounts history) {alignment : Int}
    (halignment : isPowerOfTwo alignment = true) (size : Int) :
    (m.taken (roundUp m.cursor alignment.toNat) size).Accounts
      (history ++
        [(.allocate size alignment, .ok (.integer (roundUp m.cursor alignment.toNat)))]) := by
  have hpos := isPowerOfTwo.pos halignment
  have hcursor := le_roundUp (show 0 < alignment.toNat by omega) m.cursor
  have haligned : alignment ∣ (roundUp m.cursor alignment.toNat : Int) := by
    have hdvd := Int.natCast_dvd_natCast.mpr (dvd_roundUp m.cursor alignment.toNat)
    rwa [Int.toNat_of_nonneg (Int.le_of_lt hpos)] at hdvd
  have habove := h.cursor
  have hplan := samePlan_mapRange (m := m) (roundUp m.cursor alignment.toNat) size
  -- From here on it only matters that the address is aligned and not before the cursor.
  generalize roundUp m.cursor alignment.toNat = address at hcursor haligned hplan ⊢
  have hsize : (m.taken address size).pageSize = m.pageSize := pageSize_congr hplan.pageBits
  have hend : (m.taken address size).cursor = address + (max size 1).toNat := rfl
  have hgranted : granted (history ++ [(.allocate size alignment, .ok (.integer address))]) =
      granted history ++ [⟨address, size, alignment⟩] := granted_append _ _ _
  have hpageSize : (0 : Int) < m.pageSize := by exact_mod_cast m.pageSize_pos
  constructor
  case paged => exact h.paged.taken address size
  case null =>
    intro p hp
    rcases contains_mapRange_iff.mp hp with hp | ⟨-, hfirst, -⟩
    · exact h.null p hp
    · have hpage : 1 ≤ m.pageOf address := (Int.le_ediv_iff_mul_le hpageSize).mpr (by omega)
      omega
  case cursor => omega
  case placed =>
    intro g hg
    rw [hgranted, List.mem_append, List.mem_singleton] at hg
    rcases hg with hg | rfl
    · exact (h.placed g hg).mono hplan.pageBits (by omega) fun a ha =>
        isMapped_taken_iff.mpr (.inl ha)
    · refine ⟨haligned, ?_, ?_, fun a ha => isMapped_taken_iff.mpr (.inr ⟨?_, ?_, ?_⟩)⟩
      · rw [hsize]
        exact Int.ofNat_le.mpr (Nat.le_trans habove hcursor)
      · rw [hend]
        show (address : Int) + max size 1 ≤ _
        omega
      · change (address : Int) ≤ a ∧ a < address + size at ha
        omega
      · exact Int.ediv_le_ediv hpageSize ha.1
      · refine Int.ediv_le_ediv hpageSize ?_
        change (address : Int) ≤ a ∧ a < address + size at ha
        omega
  case disjoint =>
    rw [hgranted, List.pairwise_append]
    refine ⟨h.disjoint, List.pairwise_singleton _ _, fun g hg g' hg' => ?_⟩
    rw [List.mem_singleton] at hg'
    subst hg'
    exact (h.placed g hg).disjoint (Int.ofNat_le.mpr hcursor)
  case held =>
    intro a
    rw [held_append]
    show ((m.mapRange address size).allocations.insert (address : Int) size).contains a = true ↔
      ∃ g ∈ MemoryHistory.held history ++ [⟨address, size, alignment⟩], g.address = a
    rw [hplan.allocations, Std.TreeMap.contains_insert, Bool.or_eq_true, beq_iff_eq,
      Std.compare_eq_iff_eq, h.held]
    simp only [List.mem_append, List.mem_singleton, or_and_right, exists_or, exists_eq_left]
    exact or_comm

/-- Storage that is given back is taken out of the account. -/
theorem returned (h : m.Accounts history) (address : Int) (marks : Std.TreeSet Int) :
    Memory.Accounts { m with allocations := m.allocations.erase address, marks }
      (history ++ [(.deallocate address, .ok .done)]) := by
  have hgranted : granted (history ++ [(.deallocate address, .ok .done)]) = granted history := by
    rw [granted_append]
    exact List.append_nil _
  refine ⟨h.paged, h.null, h.cursor, ?_, hgranted ▸ h.disjoint, ?_⟩
  · intro g hg
    rw [hgranted] at hg
    exact (h.placed g hg).mono rfl (Nat.le_refl _) fun _ ha => ha
  · intro a
    rw [held_append]
    show (m.allocations.erase address).contains a = true ↔
      ∃ g ∈ (MemoryHistory.held history).filter (fun g => decide (g.address ≠ address)),
      g.address = a
    rw [Std.TreeMap.contains_erase, Bool.and_eq_true, h.held]
    simp only [List.mem_filter, decide_eq_true_eq, bne_iff_ne, ne_eq, Std.compare_eq_iff_eq]
    constructor
    · rintro ⟨hne, g, hg, rfl⟩
      exact ⟨g, ⟨hg, fun h => hne h.symm⟩, rfl⟩
    · rintro ⟨g, ⟨hg, hne⟩, rfl⟩
      exact ⟨fun h => hne h.symm, g, hg, rfl⟩

/-- Every call keeps the account. -/
theorem perform {s : Session} (h : s.memory.Accounts history) (c : MemoryCall) :
    (c.perform.outcome s).2.memory.Accounts (history ++ [(c, (c.perform.outcome s).1)]) := by
  by_cases hc : c.isStorage = true
  · cases c with
    | allocate size alignment =>
      rw [MemoryCall.outcome_perform_allocate]
      split
      case isTrue halignment => exact h.taken halignment size
      case isFalse => exact h.same (.refl _) h.paged rfl fun _ => rfl
    | deallocate address =>
      rw [MemoryCall.outcome_perform_deallocate]
      split
      case isTrue => exact h.returned address _
      case isFalse => exact h.same (.refl _) h.paged rfl fun _ => rfl
    | _ => cases hc
  · obtain ⟨hsame, hpaged⟩ := MemoryCall.keepsStorage_perform (Bool.not_eq_true _ ▸ hc) s
    refine h.same hsame (hpaged h.paged) ?_ fun held => ?_
    · cases c <;> first | rfl | exact absurd rfl hc
    · cases c <;> first | rfl | exact absurd rfl hc

theorem performAll {s : Session} (h : s.memory.Accounts []) (calls : List MemoryCall) :
    (MemoryCall.performAll calls s).2.memory.Accounts (MemoryCall.performAll calls s).1 :=
  MemoryCall.performAll_induction (motive := fun history s => s.memory.Accounts history)
    (fun c _ _ h => h.perform c) calls [] h

end Memory.Accounts

end

/-! ### What the account says -/

/-- What can be told of memory after the calls that have been made. -/
structure Session.KeepsAccount (pageSize : Int) (history : MemoryHistory) (s : Session) : Prop where
  /-- Page zero is never mapped. -/
  null (a : Int) (h : 0 ≤ a ∧ a < pageSize) : s.memory.isMapped a = false
  /-- The null address cannot be read, nor written. -/
  null_read (size : Int) (h : 0 < size) :
    ((Run.read 0 size).outcome s).1 = .error (.access (.unmapped 0))
  null_write (bs : Bytes) (h : bs ≠ []) :
    ((Run.write 0 bs).outcome s).1 = .error (.access (.unmapped 0))
  aligned (g : Grant) (h : g ∈ granted history) : g.alignment ∣ g.address
  above (g : Grant) (h : g ∈ granted history) : pageSize ≤ g.address
  /-- No two pieces of storage overlap, also if they have been given back. -/
  disjoint : (granted history).Pairwise Grant.Disjoint
  mapped (g : Grant) (h : g ∈ granted history) (a : Int)
    (ha : g.address ≤ a ∧ a < g.address + g.size) : s.memory.isMapped a = true
  /-- Storage is given for every alignment that is one. -/
  grants (size : Int) (k : Nat) :
    ∃ address, ((MemoryCall.allocate size (2 ^ k)).perform.outcome s).1 = .ok (.integer address)
  /-- Else nothing happens. -/
  bad_alignment (size alignment : Int) (h : ∀ k : Nat, alignment ≠ 2 ^ k) :
    (MemoryCall.allocate size alignment).perform.outcome s =
      (.error (.request (.alignment alignment)), s)
  /-- Storage that is held is taken back. -/
  returns (g : Grant) (h : g ∈ held history) :
    ((MemoryCall.deallocate g.address).perform.outcome s).1 = .ok .done
  /-- Else nothing happens, but that the log is told. -/
  bad_address (a : Int) (h : ∀ g ∈ held history, g.address ≠ a) :
    ∃ notes, (MemoryCall.deallocate a).perform.outcome s =
      (.error (.access (.notAllocated a)), { s with notes })

namespace Memory.Accounts

variable {s : Session} {history : MemoryHistory}

/-- The addresses of page zero are not mapped. -/
theorem isMapped_null (h : s.memory.Accounts history) {a : Int}
    (ha : 0 ≤ a ∧ a < s.memory.pageSize) :
    s.memory.isMapped a = false := by
  rw [Bool.eq_false_iff]
  intro hmapped
  have hpage := h.null _ hmapped
  unfold pageOf at hpage
  rw [Int.ediv_eq_zero_of_lt ha.1 ha.2] at hpage
  omega

theorem byte?_null (h : s.memory.Accounts history) : s.memory.byte? 0 = none := by
  have hpos : (0 : Int) < s.memory.pageSize := by exact_mod_cast s.memory.pageSize_pos
  have hnull := h.isMapped_null ⟨Int.le_refl 0, hpos⟩
  rw [← Option.not_isSome_iff_eq_none, isSome_byte?_iff h.paged, hnull]
  decide

/-- The null address cannot be read. -/
theorem read_null (h : s.memory.Accounts history) {size : Int} (hsize : 0 < size) :
    ((Run.read 0 size).outcome s).1 = .error (.access (.unmapped 0)) := by
  unfold Run.read
  rw [Run.outcome_bind_ok _ (Run.outcome_memory s)]
  rcases read_cases h.paged 0 size.toNat with ⟨bs, -, hlength, hbytes⟩ | ⟨i, hi, hread⟩
  · have hzero := hbytes.mapped.eq_zero h.byte?_null
    omega
  · rw [hread, hi.before.eq_zero h.byte?_null]
    rfl

/-- The null address cannot be written. -/
theorem write_null (h : s.memory.Accounts history) {bs : Bytes} (hbs : bs ≠ []) :
    ((Run.write 0 bs).outcome s).1 = .error (.access (.unmapped 0)) := by
  rw [Run.outcome_write]
  obtain ⟨-, ⟨hmapped, -, -⟩ | ⟨i, hi, hwrite, -⟩⟩ := write_cases h.paged 0 bs
  · exact absurd (List.eq_nil_of_length_eq_zero (hmapped.eq_zero h.byte?_null)) hbs
  · rw [hwrite, hi.before.eq_zero h.byte?_null]
    rfl

theorem keepsAccount (h : s.memory.Accounts history) :
    s.KeepsAccount s.memory.pageSize history where
  null a ha := h.isMapped_null ha
  null_read size hsize := h.read_null hsize
  null_write bs hbs := h.write_null hbs
  aligned g hg := (h.placed g hg).aligned
  above g hg := (h.placed g hg).above
  disjoint := h.disjoint
  mapped g hg a ha := (h.placed g hg).mapped a ha
  grants size k := by
    rw [MemoryCall.outcome_perform_allocate, if_pos (isPowerOfTwo_iff.mpr ⟨k, rfl⟩)]
    exact ⟨_, rfl⟩
  bad_alignment size alignment hbad := by
    rw [MemoryCall.outcome_perform_allocate, if_neg fun h => ?_]
    obtain ⟨k, hk⟩ := isPowerOfTwo_iff.mp h
    exact hbad k hk
  returns g hg := by
    rw [MemoryCall.outcome_perform_deallocate, if_pos ((h.held _).mpr ⟨g, hg, rfl⟩)]
  bad_address a hbad := by
    rw [MemoryCall.outcome_perform_deallocate, if_neg fun ha => ?_]
    · exact ⟨_, rfl⟩
    · obtain ⟨g, hg, hga⟩ := (h.held a).mp ha
      exact hbad g hg hga

end Memory.Accounts

/-! ### Whole runs -/

namespace MemoryCall

/-- No call changes how large the pages are. -/
theorem pageBits_performAll (calls : List MemoryCall) (s : Session) :
    (performAll calls s).2.memory.pageBits = s.memory.pageBits := by
  refine performAll_induction (motive := fun _ s' => s'.memory.pageBits = s.memory.pageBits)
    (fun c _ s' h => ?_) calls [] rfl
  by_cases hc : c.isStorage = true
  · cases c with
    | allocate size alignment =>
      rw [outcome_perform_allocate]
      split
      · exact (Memory.samePlan_mapRange _ size).pageBits.trans h
      · exact h
    | deallocate address =>
      rw [outcome_perform_deallocate]
      split <;> exact h
    | _ => cases hc
  · exact (keepsStorage_perform (Bool.not_eq_true _ ▸ hc) s').1.pageBits.trans h

theorem pageSize_of_create {pageSize pointerSize : Int} {m : Memory}
    (h : Memory.create pageSize pointerSize = .ok m) : (m.pageSize : Int) = pageSize := by
  unfold Memory.create at h
  split at h
  case isTrue hpower =>
    cases h
    have hpos := isPowerOfTwo.pos hpower
    unfold isPowerOfTwo at hpower
    rw [Bool.and_eq_true, decide_eq_true_iff, decide_eq_true_iff] at hpower
    show ((2 ^ pageSize.toNat.log2 : Nat) : Int) = pageSize
    omega
  case isFalse => cases h

/-- After every run of calls on new memory, the storage that has been given lies behind page zero,
aligned, apart and mapped, and what cannot be done is refused and changes nothing. -/
theorem keepsAccount_performAll {pageSize pointerSize : Int} {m : Memory}
    (h : Memory.create pageSize pointerSize = .ok m) (calls : List MemoryCall) :
    (performAll calls (.ofMemory m)).2.KeepsAccount pageSize
      (performAll calls (.ofMemory m)).1 := by
  have haccount := Memory.Accounts.performAll (s := .ofMemory m) (.of_create h) calls
  have hbits := Memory.pageSize_congr (pageBits_performAll calls (.ofMemory m))
  have hsize : ((performAll calls (.ofMemory m)).2.memory.pageSize : Int) = pageSize := by
    rw [hbits]
    exact pageSize_of_create h
  exact hsize ▸ haccount.keepsAccount

/-- Two pieces of storage, one of which is empty and given back, in pages of sixteen bytes. -/
theorem keepsAccount_performAll_smallPages :
    Memory.create 16 8 = .ok (.empty 4 8) ∧
      (performAll [.allocate 0 1, .allocate 40 8, .deallocate 16]
        (.ofMemory (.empty 4 8))).2.KeepsAccount 16
        (performAll [.allocate 0 1, .allocate 40 8, .deallocate 16] (.ofMemory (.empty 4 8))).1 :=
  ⟨rfl, keepsAccount_performAll (rfl : Memory.create 16 8 = .ok (.empty 4 8)) _⟩

end MemoryCall

end SwiftABI
