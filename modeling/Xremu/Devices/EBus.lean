import Xremu.Devices.Lsic
import Xremu.Devices.Ram256
import Xremu.Fast.Access

/-!
# The bus of the station

`EBusRead`, `EBusWrite` and `EBusTranslate` pick a branch by the top five bits of the
address: RAM in branches 0 and 1, the platform board in branch 31. What else is
plugged in (the citron ports of the platform board, the boards of the other
branches) is a class of its own, since nothing of it can be pointed into.

`XrStation` is then a bus like `LineRam`, and the fast build's way around it can be
compared with it. A page has a host pointer as soon as its first byte is there, and
a store through the pointer does not know that the boot ROM is read-only.
-/

namespace Xremu

abbrev nvramSize : Nat := 4 * 1024
abbrev romSize : Nat := 128 * 1024
abbrev resetMagic : Word := 0xAABBCCDD

/-- The devices whose memory is not the host's to point into. `none` and `false` are
`EBUSERROR`. -/
class EBusDevices (D : Type) where
  present : D → (port : Nat) → Bool
  readPort : D → XrProcessor → (port length : Nat) → EBusReply D (Option Word)
  writePort : D → XrProcessor → (port length : Nat) → Word → EBusReply D Bool
  readBranch : D → XrProcessor → (address : Nat) → (Nat → Byte) → (length : Nat) →
    EBusReply D (Option (Nat → Byte))
  writeBranch : D → XrProcessor → (address : Nat) → (Nat → Byte) → (length : Nat) →
    EBusReply D Bool
  reset : D → D

structure XrStation (D : Type) where
  ram : RamSlots
  bootRom : Nat → Byte
  nvram : Nat → Byte
  nvramDirty : Bool
  registers : Nat → Word
  lsic : LsicTable
  processors : Nat → Bool   -- which ids `XrProcessorTable` has
  devices : D

section

variable {D : Type}

/-- `*(uint32_t *)src`. -/
def wordOf (src : Nat → Byte) : Word := zext src 4

/-- `CopyWithLength(dest, &memory[offset], length)`. -/
def copyFrom (dest memory : Nat → Byte) (offset length : Nat) : Nat → Byte :=
  copyBytes dest 0 (fun k => memory (offset + k)) length

theorem copyFrom_of_lt {dest memory : Nat → Byte} {offset length k : Nat} (h : k < length) :
    copyFrom dest memory offset length k = memory (offset + k) := by
  have hcopy := @copyBytes_of_lt dest (fun k => memory (offset + k)) 0 length k h
  rwa [Nat.zero_add] at hcopy

/-- The bus as a device left it. -/
def XrStation.reply {α : Type} (s : XrStation D) (r : EBusReply D α) :
    EBusReply (XrStation D) α :=
  ⟨{ s with devices := r.bus }, r.progress, r.reply⟩

/-- The bus as a write left the LSICs. -/
def XrStation.lsicReply (s : XrStation D) (p : XrProcessor) (r : LsicReply LsicTable) :
    EBusReply (XrStation D) Bool :=
  ⟨{ s with lsic := r.after }, p.progress, r.success⟩

/-- A write that they refuse leaves the station as it was. -/
theorem XrStation.lsicReply_write (s : XrStation D) (p : XrProcessor) (reg : Nat) (value : Word) :
    s.lsicReply p (lsicWrite s.processors s.lsic reg value) = ⟨s, p.progress, false⟩ ∨
    ∃ lsic, s.lsicReply p (lsicWrite s.processors s.lsic reg value) =
      ⟨{ s with lsic := lsic }, p.progress, true⟩ := by
  rcases lsicWrite_cases s.lsic reg value with hfails | ⟨l, -, -, hdone⟩
  · rw [hfails]
    exact .inl rfl
  · rw [hdone]
    exact .inr ⟨_, rfl⟩

/-! ## Host pointers -/

def pBoardTranslate (address : Nat) : Option HostPointer :=
  if address ≥ 0x7FE0000 then
    if address - 0x7FE0000 ≥ romSize then none else some (.rom (address - 0x7FE0000))
  else none

/-- `EBusTranslate`; only the framebuffer could be a third, and its entry is empty. -/
def XrStation.pointer (s : XrStation D) (address : Nat) : Option HostPointer :=
  let branch := address / 0x8000000
  let offset := address % 0x8000000
  if branch = 0 then ramTranslate s.ram offset
  else if branch = 1 then ramTranslateExt s.ram offset
  else if branch = 31 then pBoardTranslate offset
  else none

/-- Where the boot ROM starts. -/
abbrev romBase : Nat := 0xFFFE0000

/-- The limits of RAM and ROM as numbers. -/
theorem memoryMap : ebusBranchSize = 0x8000000 ∧ ramMaximum = 0x10000000 ∧
    ramSlotSize = 0x2000000 ∧ romBase = 0xFFFE0000 ∧ romSize = 0x20000 :=
  ⟨rfl, rfl, rfl, rfl, rfl⟩

/-- What can be pointed into: RAM that is there, and the boot ROM. -/
theorem XrStation.pointer_cases {s : XrStation D} {address : Nat} {q : HostPointer}
    (h : s.pointer address = some q) (hlt : address < 0x100000000) :
    (address < ramMaximum ∧ ramOffsetOf address < s.ram.size (ramSlotOf address) ∧
      q = .ram (ramSlotOf address) (ramOffsetOf address)) ∨
    (romBase ≤ address ∧ q = .rom (address - romBase)) := by
  have hram : ∀ a, ramTranslate s.ram a = some q →
      ramOffsetOf a < s.ram.size (ramSlotOf a) ∧ q = .ram (ramSlotOf a) (ramOffsetOf a) := by
    intro a ha
    unfold ramTranslate at ha
    extract_lets slot off at ha
    by_cases hge : off ≥ s.ram.size slot
    · rw [if_pos hge] at ha
      cases ha
    · rw [if_neg hge] at ha
      exact ⟨Nat.lt_of_not_ge hge, (Option.some.inj ha).symm⟩
  obtain ⟨hbranch, hmax, hslot, hrom, hsize⟩ := memoryMap
  unfold XrStation.pointer at h
  extract_lets branch offset at h
  by_cases h0 : branch = 0
  · have ho : offset = address := by omega
    rw [if_pos h0, ho] at h
    exact Or.inl ⟨by omega, hram address h⟩
  rw [if_neg h0] at h
  by_cases h1 : branch = 1
  · have ho : offset + ebusBranchSize = address := by omega
    rw [if_pos h1, ramTranslateExt, ho] at h
    exact Or.inl ⟨by omega, hram address h⟩
  rw [if_neg h1] at h
  by_cases h31 : branch = 31
  · rw [if_pos h31] at h
    unfold pBoardTranslate at h
    split at h
    · split at h
      · cases h
      · have ho : offset - 0x7FE0000 = address - romBase := by omega
        rw [ho] at h
        exact Or.inr ⟨by omega, (Option.some.inj h).symm⟩
    · cases h
  · rw [if_neg h31] at h
    cases h

theorem XrStation.pointer_ram {s : XrStation D} {address : Nat} (h : address < ramMaximum)
    (hoff : ramOffsetOf address < s.ram.size (ramSlotOf address)) :
    s.pointer address = some (.ram (ramSlotOf address) (ramOffsetOf address)) := by
  obtain ⟨hbranch, hmax, hslot, hrom, hsize⟩ := memoryMap
  unfold XrStation.pointer
  extract_lets branch offset
  by_cases h0 : address < ebusBranchSize
  · have hb : branch = 0 := by omega
    have ho : offset = address := by omega
    rw [if_pos hb, ho, ramTranslate, if_neg (Nat.not_le_of_lt hoff)]
  · have hb : branch = 1 := by omega
    have ho : offset + ebusBranchSize = address := by omega
    rw [if_neg (by omega), if_pos hb, ramTranslateExt, ho, ramTranslate,
      if_neg (Nat.not_le_of_lt hoff)]

theorem XrStation.pointer_rom {s : XrStation D} {address : Nat} (h : romBase ≤ address)
    (hlt : address < 0x100000000) : s.pointer address = some (.rom (address - romBase)) := by
  obtain ⟨hbranch, hmax, hslot, hrom, hsize⟩ := memoryMap
  unfold XrStation.pointer
  extract_lets branch offset
  have hb : branch = 31 := by omega
  have ho : offset - 0x7FE0000 = address - romBase := by omega
  rw [if_neg (by omega), if_neg (by omega), if_pos hb, pBoardTranslate, if_pos (by omega),
    if_neg (by omega), ho]

/-! ## Reads and writes -/

variable [EBusDevices D]

/-- `EBusReset`: only the platform board has a reset handler, and of its devices
`LsicReset` does nothing. -/
def XrStation.reset (s : XrStation D) : XrStation D :=
  { s with devices := EBusDevices.reset s.devices }

def pBoardWrite (s : XrStation D) (p : XrProcessor) (address : Nat) (src : Nat → Byte)
    (length : Nat) : EBusReply (XrStation D) Bool :=
  if address < 0x400 then
    if EBusDevices.present s.devices (address / 4) then
      s.reply (EBusDevices.writePort s.devices p (address / 4) length (wordOf src))
    else ⟨s, p.progress, false⟩
  else if address ≥ 0x7FE0000 then ⟨s, p.progress, true⟩
  else if address ≥ 0x1000 ∧ address < 0x2000 then
    let s := { s with nvramDirty := true }
    -- `return false` is `EBUSSUCCESS`
    if address - 0x1000 + length > nvramSize then ⟨s, p.progress, true⟩
    else
      ⟨{ s with nvram := copyBytes s.nvram (address - 0x1000) src length }, p.progress, true⟩
  else if address ≥ 0x800 ∧ address < 0x880 then
    if length = 4 then
      if address - 0x800 ≠ 0 then
        ⟨{ s with registers := Function.update s.registers ((address - 0x800) / 4) (wordOf src) },
          p.progress, true⟩
      else ⟨s, p.progress, true⟩
    else ⟨s, p.progress, false⟩
  else if address ≥ 0x30000 ∧ address < 0x30000 + 32 * (xrNodeMax * xrProcPerNodeMax) then
    if length = 4 then
      s.lsicReply p (lsicWrite s.processors s.lsic ((address - 0x30000) / 4) (wordOf src))
    else ⟨s, p.progress, false⟩
  else if address = 0x800000 then
    if length = 4 ∧ wordOf src = resetMagic then ⟨s.reset, p.progress, true⟩
    else ⟨s, p.progress, false⟩
  else ⟨s, p.progress, false⟩

def pBoardRead (s : XrStation D) (p : XrProcessor) (address : Nat) (dest : Nat → Byte)
    (length : Nat) : EBusReply (XrStation D) (Option (Nat → Byte)) :=
  if address < 0x400 then
    if EBusDevices.present s.devices (address / 4) then
      let r := EBusDevices.readPort s.devices p (address / 4) length
      s.reply ⟨r.bus, r.progress, r.reply.map fun v => copyBytes dest 0 (byteOf v) 4⟩
    else ⟨s, p.progress, none⟩
  else if address ≥ 0x7FE0000 then
    if address - 0x7FE0000 + length > romSize then ⟨s, p.progress, some dest⟩
    else ⟨s, p.progress, some (copyFrom dest s.bootRom (address - 0x7FE0000) length)⟩
  else if address ≥ 0x1000 ∧ address < 0x11000 then
    if address - 0x1000 + length > nvramSize then ⟨s, p.progress, some dest⟩
    else ⟨s, p.progress, some (copyFrom dest s.nvram (address - 0x1000) length)⟩
  else if address ≥ 0x800 ∧ address < 0x880 then
    if length = 4 then
      ⟨s, p.progress, some (copyBytes dest 0 (byteOf (s.registers ((address - 0x800) / 4))) 4)⟩
    else ⟨s, p.progress, none⟩
  else if address ≥ 0x30000 ∧ address < 0x30000 + 32 * (xrNodeMax * xrProcPerNodeMax) then
    if length = 4 then
      match lsicRead s.processors s.lsic ((address - 0x30000) / 4) with
      | some v => ⟨s, p.progress, some (copyBytes dest 0 (byteOf v) 4)⟩
      | none => ⟨s, p.progress, none⟩
    else ⟨s, p.progress, none⟩
  else ⟨s, p.progress, none⟩

def eBusWrite (s : XrStation D) (p : XrProcessor) (address : Nat) (src : Nat → Byte)
    (length : Nat) : EBusReply (XrStation D) Bool :=
  let branch := address / 0x8000000
  let offset := address % 0x8000000
  if branch = 0 then
    match ramWrite s.ram offset src length with
    | some ram => ⟨{ s with ram := ram }, p.progress, true⟩
    | none => ⟨s, p.progress, false⟩
  else if branch = 1 then
    match ramWriteExt s.ram offset src length with
    | some ram => ⟨{ s with ram := ram }, p.progress, true⟩
    | none => ⟨s, p.progress, false⟩
  else if branch = 31 then pBoardWrite s p offset src length
  else s.reply (EBusDevices.writeBranch s.devices p address src length)

def eBusRead (s : XrStation D) (p : XrProcessor) (address : Nat) (dest : Nat → Byte)
    (length : Nat) : EBusReply (XrStation D) (Option (Nat → Byte)) :=
  let branch := address / 0x8000000
  let offset := address % 0x8000000
  if branch = 0 then ⟨s, p.progress, ramRead s.ram offset dest length⟩
  else if branch = 1 then ⟨s, p.progress, ramReadExt s.ram offset dest length⟩
  else if branch = 31 then pBoardRead s p offset dest length
  else s.reply (EBusDevices.readBranch s.devices p address dest length)

/-! ## What each address reaches -/

/-- Branches 0 and 1 are one RAM. -/
theorem eBusRead_ram (s : XrStation D) (p : XrProcessor) {address : Nat} (h : address < ramMaximum)
    (dest : Nat → Byte) (length : Nat) :
    eBusRead s p address dest length = ⟨s, p.progress, ramRead s.ram address dest length⟩ := by
  unfold eBusRead
  extract_lets branch offset
  obtain ⟨hbranch, hram, hslot, hrom, hsize⟩ := memoryMap
  by_cases h0 : address < ebusBranchSize
  · have hb : branch = 0 := by omega
    have ho : offset = address := by omega
    rw [if_pos hb, ho]
  · have hb : branch = 1 := by omega
    have ho : offset + ebusBranchSize = address := by omega
    rw [if_neg (by omega), if_pos hb, ramReadExt, ho]

theorem eBusWrite_ram (s : XrStation D) (p : XrProcessor) {address : Nat} (h : address < ramMaximum)
    (src : Nat → Byte) (length : Nat) :
    eBusWrite s p address src length =
      match ramWrite s.ram address src length with
      | some ram => ⟨{ s with ram := ram }, p.progress, true⟩
      | none => ⟨s, p.progress, false⟩ := by
  unfold eBusWrite
  extract_lets branch offset
  obtain ⟨hbranch, hram, hslot, hrom, hsize⟩ := memoryMap
  by_cases h0 : address < ebusBranchSize
  · have hb : branch = 0 := by omega
    have ho : offset = address := by omega
    rw [if_pos hb, ho]
  · have hb : branch = 1 := by omega
    have ho : offset + ebusBranchSize = address := by omega
    rw [if_neg (by omega), if_pos hb, ramWriteExt, ho]

theorem eBusRead_rom (s : XrStation D) (p : XrProcessor) {address length : Nat}
    (h : romBase ≤ address) (hend : address + length ≤ 0x100000000) (hlen : 0 < length)
    (dest : Nat → Byte) :
    eBusRead s p address dest length =
      ⟨s, p.progress, some (copyFrom dest s.bootRom (address - romBase) length)⟩ := by
  unfold eBusRead
  extract_lets branch offset
  obtain ⟨hbranch, hram, hslot, hrom, hsize⟩ := memoryMap
  have hb : branch = 31 := by omega
  have ho : offset - 0x7FE0000 = address - romBase := by omega
  rw [if_neg (by omega), if_neg (by omega), if_pos hb]
  unfold pBoardRead
  rw [if_neg (by omega), if_pos (by omega), if_neg (by omega), ho]

theorem eBusWrite_rom (s : XrStation D) (p : XrProcessor) {address length : Nat}
    (h : romBase ≤ address) (hend : address < 0x100000000) (src : Nat → Byte) :
    eBusWrite s p address src length = ⟨s, p.progress, true⟩ := by
  unfold eBusWrite
  extract_lets branch offset
  obtain ⟨hbranch, hram, hslot, hrom, hsize⟩ := memoryMap
  have hb : branch = 31 := by omega
  rw [if_neg (by omega), if_neg (by omega), if_pos hb]
  unfold pBoardWrite
  rw [if_neg (by omega), if_pos (by omega)]

end

end Xremu
