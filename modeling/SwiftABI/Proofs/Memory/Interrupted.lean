/-
  Writing that memory interrupts.

  Memory is written byte after byte, up to an address that has none. So there may be some of the
  bytes that should have been written, and others not. `Patch` is a piece of writing, and
  `Memory.StoppedAt` says that memory has taken a list of patches up to the address that it refuses.
  It is extended from the back, by the patches before (`Memory.StoppedAt.cons`). `Run.Puts` says
  that steps put one patch into memory, or its part that comes before the address that is refused.
  Storage, marks and hooks are left alone in both cases.
-/
import SwiftABI.Proofs.Memory.Refinement

namespace SwiftABI

/-- Bytes that are meant for an address. -/
structure Patch where
  address : Int
  bytes : Bytes

/-- The lowest bytes of an integer. -/
def Patch.integer (address value : Int) (size : Nat) : Patch :=
  ⟨address, Bytes.ofNat size (value % (256 ^ size : Nat)).toNat⟩

namespace Memory

variable {m m' m'' : Memory} {p : Patch} {patches : List Patch} {x : Int} {i : Nat}

/-- A map from addresses to bytes after some patches, one after the other. -/
def patched (view : Int → Option UInt8) (patches : List Patch) : Int → Option UInt8 :=
  patches.foldl (fun view p => overwritten view p.address p.bytes) view

/-- Every address of the patches has a byte. -/
def Takes (m : Memory) (patches : List Patch) : Prop :=
  ∀ p ∈ patches, m.Mapped p.address p.bytes.length

/-- The patches are in memory up to an address that has no byte. All that comes before it has been
written, and nothing that comes after. -/
def StoppedAt (m : Memory) (patches : List Patch) (x : Int) (m' : Memory) : Prop :=
  ∃ (before : List Patch) (p : Patch) (after : List Patch) (i : Nat),
    patches = before ++ p :: after ∧
    m.Takes before ∧ m.FirstUnmapped p.address p.bytes.length i ∧ x = p.address + i ∧
    m'.byte? = patched m.byte? (before ++ [{ p with bytes := p.bytes.take i }])

/-- A patch goes over bytes that are there, so the same addresses have bytes after it. -/
theorem isSome_patched (hp : m.Mapped p.address p.bytes.length)
    (hview : m'.byte? = patched m.byte? [p]) (y : Int) :
    (m'.byte? y).isSome = (m.byte? y).isSome := by
  rw [hview]
  exact isSome_overwritten hp y

theorem Takes.of_patched (h : m'.Takes patches) (hp : m.Mapped p.address p.bytes.length)
    (hview : m'.byte? = patched m.byte? [p]) : m.Takes patches := by
  intro q hq
  exact (h q hq).congr (isSome_patched hp hview)

theorem Takes.cons (hp : m.Mapped p.address p.bytes.length) (h : m.Takes patches) :
    m.Takes (p :: patches) :=
  List.forall_mem_cons.mpr ⟨hp, h⟩

/-- What memory refuses in the first patch, it refuses whatever should have come after that. -/
theorem StoppedAt.first (h : m.FirstUnmapped p.address p.bytes.length i)
    (hview : m'.byte? = patched m.byte? [{ p with bytes := p.bytes.take i }])
    (patches : List Patch) :
    m.StoppedAt (p :: patches) (p.address + i) m' :=
  ⟨[], p, patches, i, rfl, fun _ => nofun, h, rfl, hview⟩

/-- What comes after a patch that is in memory is interrupted where it would be without that. -/
theorem StoppedAt.cons (hp : m.Mapped p.address p.bytes.length)
    (hview : m'.byte? = patched m.byte? [p])
    (h : m'.StoppedAt patches x m'') : m.StoppedAt (p :: patches) x m'' := by
  obtain ⟨before, q, after, i, rfl, hbefore, hfirst, haddress, hbytes⟩ := h
  refine ⟨p :: before, q, after, i, rfl, (hbefore.of_patched hp hview).cons hp, ?_, haddress, ?_⟩
  · exact hfirst.congr (isSome_patched hp hview)
  · rw [hbytes, hview]
    rfl

end Memory

/-! ### Steps that put a patch into memory -/

/-- A patch has been put into memory, up to the first address that has no byte, where there is one.
Nothing else has changed. -/
structure Session.Settles (s : Session) (p : Patch) (result : Except SessionFault Unit)
    (s' : Session) : Prop where
  paged : s'.memory.Paged
  storage : s.memory.SameStorage s'.memory
  quiet : Run.Quiet s s'
  ends : (result = .ok () ∧ s.memory.Mapped p.address p.bytes.length ∧
      s'.memory.byte? = Memory.patched s.memory.byte? [p]) ∨
    ∃ i : Nat, result = .error (.access (.unmapped (p.address + i))) ∧
      s.memory.FirstUnmapped p.address p.bytes.length i ∧
      s'.memory.byte? = Memory.patched s.memory.byte? [{ p with bytes := p.bytes.take i }]

namespace Run

variable {s : Session}

/-- The steps put a patch into memory, and do nothing else. -/
def Puts (x : Run Unit) (s : Session) (p : Patch) : Prop :=
  s.Settles p (x.outcome s).1 (x.outcome s).2

/-- Bytes are written up to the first address that has none. -/
theorem puts_write (hm : s.memory.Paged) (address : Int) (bytes : Bytes) :
    Puts (write address bytes) s ⟨address, bytes⟩ := by
  have hstorage := Memory.sameStorage_write (m := s.memory) address bytes
  have hmarks := s.memory.write_marks address bytes
  unfold Puts
  rw [outcome_write]
  obtain ⟨hpaged, ⟨hmapped, hresult, hbytes⟩ | ⟨i, hfirst, hresult, hbytes⟩⟩ :=
    Memory.write_cases hm address bytes
  · rw [hresult]
    exact ⟨hpaged, hstorage, ⟨rfl, hmarks⟩, .inl ⟨rfl, hmapped, hbytes⟩⟩
  · rw [hresult]
    exact ⟨hpaged, hstorage, ⟨rfl, hmarks⟩, .inr ⟨i, rfl, hfirst, hbytes⟩⟩

/-- An integer is written as its lowest bytes. -/
theorem puts_writeInt (hm : s.memory.Paged) (address value : Int) (size : Nat) :
    Puts (writeInt address value size false) s (.integer address value size) := by
  unfold writeInt
  rw [integerBytes_unsigned]
  exact puts_write hm address _

theorem puts_fill (hm : s.memory.Paged) (address : Int) (size : Nat) :
    Puts (fill address size 0) s ⟨address, List.replicate size 0⟩ := puts_write hm address _

end Run

end SwiftABI
