import Xremu.Devices.HostPath

/-!
# NVRAM and boot ROM on the bus

The platform board checks that an access to its memories ends within them, and what it
returns where it does not is `false`, which is `EBUSSUCCESS`: a read leaves the
destination as it was, a write is lost and the NVRAM is to be saved all the same. The
windows are not those of the memories either: NVRAM is read in one of sixteen times its
size, and in the one of the ROM every write succeeds. An access is what it should be
exactly when it ends within the memory: `pBoardMemory_iff`.
-/

namespace Xremu

/-! ## The memories and their windows -/

inductive PBoardArray where
  | nvram
  | rom
deriving DecidableEq

namespace PBoardArray

def base : PBoardArray → Nat
  | .nvram => 0x1000
  | .rom => 0x7FE0000

def size : PBoardArray → Nat
  | .nvram => nvramSize
  | .rom => romSize

/-- Where the window ends: that of `PBoardRead`, and that of `PBoardWrite`. -/
def windowEnd (write : Bool) : PBoardArray → Nat
  | .nvram => if write then 0x2000 else 0x11000
  | .rom => ebusBranchSize

def bytes {D : Type} (s : XrStation D) : PBoardArray → Nat → Byte
  | .nvram => s.nvram
  | .rom => s.bootRom

/-- The access ends within the memory. -/
def Holds (array : PBoardArray) (address length : Nat) : Prop :=
  address - array.base + length ≤ array.size

end PBoardArray

/-- What a processor, its caches and the disk transfer at once. -/
def BusLength (length : Nat) : Prop :=
  length = 1 ∨ length = 2 ∨ length = 4 ∨ length = 16 ∨
    ∃ sectors, sectors ≤ 8 ∧ length = 512 * sectors

structure InWindow (array : PBoardArray) (write : Bool) (address length : Nat) : Prop where
  starts : array.base ≤ address
  ends : address < array.windowEnd write
  length : BusLength length

variable {D : Type} [EBusDevices D]

/-- NVRAM as it was, and no more to be saved than before. -/
def KeepsNvram (s s' : XrStation D) : Prop := s'.nvram = s.nvram ∧ s'.nvramDirty = s.nvramDirty

/-- A read that succeeds has filled all of `dest`, and one that goes beyond the end fails. -/
structure PBoardReads (s : XrStation D) (p : XrProcessor) (array : PBoardArray)
    (address length : Nat) (dest : Nat → Byte) : Prop where
  filled : ∀ bytes, (pBoardRead s p address dest length).reply = some bytes →
    ∀ k, k < length → address - array.base + k < array.size ∧
      bytes k = array.bytes s (address - array.base + k)
  beyond : array.size < address - array.base + length →
    (pBoardRead s p address dest length).reply = none ∧
      KeepsNvram s (pBoardRead s p address dest length).bus

/-- A write that succeeds has stored all of `src` if to NVRAM, and one that goes beyond the
end fails. -/
structure PBoardWrites (s : XrStation D) (p : XrProcessor) (array : PBoardArray)
    (address length : Nat) (src : Nat → Byte) : Prop where
  stored : array = .nvram → (pBoardWrite s p address src length).reply = true →
    ∀ k, k < length → address - array.base + k < array.size ∧
      (pBoardWrite s p address src length).bus.nvram (address - array.base + k) = src k
  beyond : array.size < address - array.base + length →
    (pBoardWrite s p address src length).reply = false ∧
      KeepsNvram s (pBoardWrite s p address src length).bus

/-! ## What the handlers do -/

variable {s : XrStation D} {p : XrProcessor} {array : PBoardArray} {address length : Nat}
variable {src dest : Nat → Byte}

/-- Every read in the windows succeeds. -/
theorem pBoardRead_window (h : InWindow array false address length) :
    pBoardRead s p address dest length = ⟨s, p.progress, some
      (if array.size < address - array.base + length then dest
        else copyFrom dest (array.bytes s) (address - array.base) length)⟩ := by
  have hstarts := h.starts
  have hends := h.ends
  unfold pBoardRead
  cases array with
  | nvram =>
      have hstarts : 0x1000 ≤ address := hstarts
      have hends : address < 0x11000 := hends
      rw [if_neg (by omega), if_neg (by omega), if_pos (by omega)]
      by_cases hout : address - 0x1000 + length > nvramSize
      · rw [if_pos hout]
        exact congrArg _ (congrArg some (if_pos hout).symm)
      · rw [if_neg hout]
        exact congrArg _ (congrArg some (if_neg hout).symm)
  | rom =>
      have hstarts : 0x7FE0000 ≤ address := hstarts
      rw [if_neg (by omega), if_pos (by omega)]
      by_cases hout : address - 0x7FE0000 + length > romSize
      · rw [if_pos hout]
        exact congrArg _ (congrArg some (if_pos hout).symm)
      · rw [if_neg hout]
        exact congrArg _ (congrArg some (if_neg hout).symm)

/-- Every write in the windows succeeds, and NVRAM is then to be saved. -/
theorem pBoardWrite_window (h : InWindow array true address length) :
    pBoardWrite s p address src length = ⟨
      match array with
      | .nvram =>
          { s with
            nvramDirty := true
            nvram :=
              if nvramSize < address - 0x1000 + length then s.nvram
              else copyBytes s.nvram (address - 0x1000) src length }
      | .rom => s, p.progress, true⟩ := by
  have hstarts := h.starts
  have hends := h.ends
  unfold pBoardWrite
  cases array with
  | nvram =>
      have hstarts : 0x1000 ≤ address := hstarts
      have hends : address < 0x2000 := hends
      rw [if_neg (by omega), if_neg (by omega), if_pos (by omega)]
      dsimp only
      by_cases hout : address - 0x1000 + length > nvramSize
      · rw [if_pos hout, if_pos hout]
      · rw [if_neg hout, if_neg hout]
  | rom =>
      have hstarts : 0x7FE0000 ≤ address := hstarts
      rw [if_neg (by omega), if_pos (by omega)]

theorem pBoardReads_iff (h : InWindow array false address length) :
    PBoardReads s p array address length dest ↔ array.Holds address length := by
  unfold PBoardArray.Holds
  constructor
  · intro hreads
    by_contra hout
    obtain ⟨hnone, -⟩ := hreads.beyond (Nat.lt_of_not_le hout)
    rw [pBoardRead_window h] at hnone
    cases hnone
  · intro hin
    constructor
    · intro bytes hbytes k hk
      rw [pBoardRead_window h, if_neg (Nat.not_lt_of_le hin)] at hbytes
      obtain rfl := Option.some.inj hbytes
      exact ⟨Nat.lt_of_lt_of_le (Nat.add_lt_add_left hk _) hin, copyFrom_of_lt hk⟩
    · intro hout
      exact absurd hin (Nat.not_le_of_lt hout)

theorem pBoardWrites_iff (h : InWindow array true address length) :
    PBoardWrites s p array address length src ↔ array.Holds address length := by
  unfold PBoardArray.Holds
  constructor
  · intro hwrites
    by_contra hout
    obtain ⟨hfalse, -⟩ := hwrites.beyond (Nat.lt_of_not_le hout)
    rw [pBoardWrite_window h] at hfalse
    cases hfalse
  · intro hin
    constructor
    · intro hnvram _ k hk
      subst hnvram
      refine ⟨Nat.lt_of_lt_of_le (Nat.add_lt_add_left hk _) hin, ?_⟩
      rw [pBoardWrite_window h]
      have hnot : ¬nvramSize < address - 0x1000 + length := Nat.not_lt_of_le hin
      dsimp only
      rw [if_neg hnot]
      exact copyBytes_of_lt hk
    · intro hout
      exact absurd hin (Nat.not_le_of_lt hout)

/-- For both memories, in the window of the read and in that of the write. -/
theorem pBoardMemory_iff (s : XrStation D) (p : XrProcessor) (array : PBoardArray)
    (address length : Nat) (src dest : Nat → Byte) :
    (InWindow array false address length →
      (PBoardReads s p array address length dest ↔ array.Holds address length)) ∧
    (InWindow array true address length →
      (PBoardWrites s p array address length src ↔ array.Holds address length)) :=
  ⟨pBoardReads_iff, pBoardWrites_iff⟩

/-- The last word of the NVRAM. -/
theorem pBoardMemory_lastWord :
    PBoardReads (stationOf 0x400000) (XrProcessor.zeroed 0) .nvram 0x1FFC 4 (fun _ => 0) ∧
    PBoardWrites (stationOf 0x400000) (XrProcessor.zeroed 0) .nvram 0x1FFC 4 (byteOf 0xAA) := by
  obtain ⟨hreads, hwrites⟩ := pBoardMemory_iff (stationOf 0x400000) (XrProcessor.zeroed 0) .nvram
    0x1FFC 4 (byteOf 0xAA) (fun _ => 0)
  have hlength : BusLength 4 := Or.inr (Or.inr (Or.inl rfl))
  have hin : PBoardArray.nvram.Holds 0x1FFC 4 := by
    show 0x1FFC - 0x1000 + 4 ≤ 4096
    decide
  exact ⟨(hreads ⟨by decide, by decide, hlength⟩).mpr hin,
    (hwrites ⟨by decide, by decide, hlength⟩).mpr hin⟩

/-- A word behind the NVRAM, which is read as what was in the register, and two sectors
from the disk at its last one: lost, and to be saved. -/
theorem pBoard_succeeds_beyond :
    InWindow .nvram false 0x2000 4 ∧
    (pBoardRead (stationOf 0x400000) (XrProcessor.zeroed 0) 0x2000 (byteOf 0xAA) 4).reply =
      some (byteOf 0xAA) ∧
    ¬PBoardReads (stationOf 0x400000) (XrProcessor.zeroed 0) .nvram 0x2000 4 (byteOf 0xAA) ∧
    InWindow .nvram true 0x1E00 1024 ∧
    (pBoardWrite (stationOf 0x400000) (XrProcessor.zeroed 0) 0x1E00 (byteOf 0xAA) 1024).reply =
      true ∧
    (pBoardWrite (stationOf 0x400000) (XrProcessor.zeroed 0) 0x1E00 (byteOf 0xAA) 1024).bus.nvram
      0xE00 = 0 ∧
    (pBoardWrite (stationOf 0x400000) (XrProcessor.zeroed 0) 0x1E00 (byteOf 0xAA) 1024).bus.nvramDirty =
      true ∧
    ¬PBoardWrites (stationOf 0x400000) (XrProcessor.zeroed 0) .nvram 0x1E00 1024 (byteOf 0xAA) := by
  have hread : InWindow .nvram false 0x2000 4 :=
    ⟨by decide, by decide, Or.inr (Or.inr (Or.inl rfl))⟩
  have hwrite : InWindow .nvram true 0x1E00 1024 :=
    ⟨by decide, by decide, Or.inr (Or.inr (Or.inr (Or.inr ⟨2, by decide, rfl⟩)))⟩
  refine ⟨hread, ?_, ?_, hwrite, by decide, by decide, by decide, ?_⟩
  · rw [pBoardRead_window hread]
    rfl
  · rw [pBoardReads_iff hread]
    show ¬0x2000 - 0x1000 + 4 ≤ 4096
    decide
  · rw [pBoardWrites_iff hwrite]
    show ¬0x1E00 - 0x1000 + 1024 ≤ 4096
    decide

end Xremu
