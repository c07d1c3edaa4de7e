/-
  Memory that values live in.

  Addresses are integers, and memory is mapped in pages whose size is a power of two. New storage is
  taken from the cursor on, which only moves upward, and the pages that it touches are mapped. Page
  zero lies below the first cursor, so that the null address is never mapped.

  Beside the bytes, memory knows which addresses hold an initialized value. Nothing here looks at
  that; the value witnesses do.
-/
import Std.Data.TreeMap
import Std.Data.TreeSet
import SwiftABI.Alignment
import SwiftABI.Bytes

namespace SwiftABI

/-- The bytes of one page. -/
abbrev Page := Array UInt8

/-- An access to an address that does not allow it. -/
inductive AccessFault where
  | unmapped (address : Int)
  | notAllocated (address : Int)
  | noFunction (handle : Int)
  deriving DecidableEq

namespace AccessFault

def message : AccessFault → Text
  | .unmapped a => "Unmapped address " ++ Text.hex a
  | .notAllocated a => "Freeing unallocated address " ++ Text.hex a
  | .noFunction h => "No function registered at " ++ Text.hex h

/-- What the log says of the fault. -/
def remark : AccessFault → Text
  | .unmapped a => "Access to unmapped address " ++ Text.hex a
  | .notAllocated a =>
    "Tried to free " ++ Text.hex a ++ ", which was never allocated"
  | .noFunction h => "Call through unregistered function handle " ++ Text.hex h

end AccessFault

/-- A number that memory cannot be asked for. -/
inductive MemoryRequestFault where
  | pageSize (given : Int)
  | alignment (given : Int)
  deriving DecidableEq

def MemoryRequestFault.message : MemoryRequestFault → Text
  | .pageSize n => "Page size " ++ Text.hex n ++ " is not a power of two"
  | .alignment n => s!"Alignment {n} is not a power of two"

structure Memory where
  /-- A page has two to the power of this many bytes. -/
  pageBits : Nat
  pointerSize : Int
  pages : Std.TreeMap Int Page := {}
  /-- The sizes of the storage that has been taken and not given back, by address. -/
  allocations : Std.TreeMap Int Int := {}
  /-- Where the next storage is looked for. -/
  cursor : Nat
  /-- The addresses that hold an initialized value. -/
  marks : Std.TreeSet Int := {}

namespace Memory

/-- Memory in which nothing is mapped. -/
def empty (pageBits : Nat) (pointerSize : Int) : Memory :=
  { pageBits, pointerSize, cursor := 2 ^ pageBits }

/-- Memory with pages of the given size, which has to be a power of two. -/
def create (pageSize pointerSize : Int) : Except MemoryRequestFault Memory :=
  if isPowerOfTwo pageSize then .ok (empty pageSize.toNat.log2 pointerSize)
  else .error (.pageSize pageSize)

/-! ### Pages -/

variable (m : Memory)

def pageSize : Nat := 2 ^ m.pageBits

theorem pageSize_pos : 0 < m.pageSize := Nat.two_pow_pos m.pageBits

/-- The number of the page that an address lies in. -/
def pageOf (address : Int) : Int := address / m.pageSize

/-- The position of an address in its page. -/
def offsetOf (address : Int) : Nat := (address % m.pageSize).toNat

theorem offsetOf_lt (address : Int) : m.offsetOf address < m.pageSize := by
  have hpos : (0 : Int) < m.pageSize := by exact_mod_cast m.pageSize_pos
  have := Int.emod_lt_of_pos address hpos
  have := Int.emod_nonneg address (Int.ne_of_gt hpos)
  unfold offsetOf
  omega

def isMapped (address : Int) : Bool := m.pages.contains (m.pageOf address)

/-- The byte at an address, if it is mapped. -/
def byte? (address : Int) : Option UInt8 := do
  let page ← m.pages[m.pageOf address]?
  page[m.offsetOf address]?

/-- Maps a page, unless it is mapped already. Its bytes are zero. -/
def mapPage (page : Int) : Memory :=
  if m.pages.contains page then m
  else { m with pages := m.pages.insert page (Array.replicate m.pageSize 0) }

/-- Maps `count` pages from the number `first` on. -/
def mapPages (first : Int) : Nat → Memory
  | 0 => m
  | count + 1 => (mapPages first count).mapPage (first + count)

/-- Maps the pages from the first byte of a range to its last. An empty range touches none. -/
def mapRange (address size : Int) : Memory :=
  if size = 0 then m
  else
    let first := m.pageOf address
    m.mapPages first (m.pageOf (address + size - 1) - first + 1).toNat

/-! ### Bytes -/

/-- Reads `size` bytes, page by page. -/
def read (address : Int) (size : Nat) : Except AccessFault Bytes :=
  if _h : size = 0 then .ok []
  else
    match m.pages[m.pageOf address]? with
    | none => .error (.unmapped address)
    | some page => do
      let offset := m.offsetOf address
      let count := min size (m.pageSize - offset)
      let bytes := (page.extract offset (offset + count)).toList
      return bytes ++ (← read (address + count) (size - count))
termination_by size
decreasing_by
  have := m.offsetOf_lt address
  omega

/-- A page with some of its bytes replaced. -/
def splice (page : Page) (offset : Nat) (bytes : Bytes) : Page :=
  page.extract 0 offset ++ bytes.toArray ++ page.extract (offset + bytes.length) page.size

/-- Writes bytes, page by page. Where a page is not mapped the work ends, with the pages before it
written. -/
def write (m : Memory) (address : Int) (bytes : Bytes) : Except AccessFault Unit × Memory :=
  if _h : bytes.length = 0 then (.ok (), m)
  else
    match m.pages[m.pageOf address]? with
    | none => (.error (.unmapped address), m)
    | some page =>
      let offset := m.offsetOf address
      let count := min bytes.length (m.pageSize - offset)
      let page := splice page offset (bytes.take count)
      write { m with pages := m.pages.insert (m.pageOf address) page } (address + count)
        (bytes.drop count)
termination_by bytes.length
decreasing_by
  have := m.offsetOf_lt address
  simp only [List.length_drop]
  omega

/-! ### Storage -/

/-- Takes storage of some size, at a multiple of the alignment, which has to be a power of two. The
cursor moves even if the storage is empty, so that no address is given out twice. -/
def allocate (size alignment : Int) : Except MemoryRequestFault (Nat × Memory) :=
  if isPowerOfTwo alignment then
    let address := roundUp m.cursor alignment.toNat
    let mapped := m.mapRange address size
    .ok (address,
      { mapped with
        cursor := address + (max size 1).toNat
        allocations := mapped.allocations.insert address size })
  else .error (.alignment alignment)

/-- Gives storage back. Its bytes stay mapped. -/
def deallocate (address : Int) : Except AccessFault Memory :=
  if m.allocations.contains address then
    .ok
      { m with
        allocations := m.allocations.erase address
        marks := m.marks.erase address }
  else .error (.notAllocated address)

/-! ### Marks -/

def isInitialized (address : Int) : Bool := m.marks.contains address

def markInitialized (address : Int) : Memory := { m with marks := m.marks.insert address }

def markUninitialized (address : Int) : Memory := { m with marks := m.marks.erase address }

end Memory

end SwiftABI
