import Xremu.Devices.EBus

/-!
# RAM as one array

What one bus access does to RAM, said byte by byte of the physical address space: for
a populated range that lies within a slot, and for one that goes on into the next
slot, which is refused as a whole however much of it is there.
-/

namespace Xremu

/-- The byte at a physical address. -/
def ramByte (ram : RamSlots) (x : Nat) : Byte := ram.bytes (ramSlotOf x) (ramOffsetOf x)

/-- Is there RAM at this address? -/
def RamPopulated (ram : RamSlots) (x : Nat) : Prop :=
  x < ramMaximum ∧ ramOffsetOf x < ram.size (ramSlotOf x)

/-- A range that does not go on into another slot. -/
def WithinSlot (a n : Nat) : Prop := ramOffsetOf a + n ≤ ramSlotSize

variable {ram : RamSlots} {a n : Nat}

theorem withinSlot_iff : WithinSlot a n ↔ a % 0x2000000 + n ≤ 0x2000000 := Iff.rfl

/-- What is populated to its last byte and stays in its slot is accepted. -/
theorem fits_of_within (hpos : 0 < n) (hpop : ∀ k, k < n → RamPopulated ram (a + k))
    (hwithin : WithinSlot a n) : ramOffsetOf a + n ≤ ram.size (ramSlotOf a) := by
  obtain ⟨_, hlast⟩ := hpop (n - 1) (by omega)
  rw [withinSlot_iff] at hwithin
  have hslot : ramSlotOf (a + (n - 1)) = ramSlotOf a := by
    unfold ramSlotOf
    omega
  have hoff : ramOffsetOf (a + (n - 1)) = ramOffsetOf a + (n - 1) := by
    unfold ramOffsetOf
    omega
  rw [hslot, hoff] at hlast
  omega

theorem not_fits_of_not_within (hsize : ∀ slot, ram.size slot ≤ ramSlotSize)
    (hwithin : ¬WithinSlot a n) : ¬ramOffsetOf a + n ≤ ram.size (ramSlotOf a) := by
  intro h
  exact hwithin (Nat.le_trans h (hsize _))

theorem ramByte_write {src : Nat → Byte} {ram' : RamSlots} (hwithin : WithinSlot a n)
    (h : ramWrite ram a src n = some ram') (x : Nat) :
    ramByte ram' x = if a ≤ x ∧ x < a + n then src (x - a) else ramByte ram x := by
  unfold ramWrite at h
  extract_lets slot offset at h
  split at h
  · cases h
  obtain rfl := Option.some.inj h
  rw [withinSlot_iff] at hwithin
  unfold ramByte
  show Function.update ram.bytes slot (copyBytes (ram.bytes slot) offset src n) (ramSlotOf x)
    (ramOffsetOf x) = _
  by_cases hx : a ≤ x ∧ x < a + n
  · have hslot : ramSlotOf x = slot := by
      show x / 0x2000000 = a / 0x2000000
      omega
    have hoff : ramOffsetOf x = offset + (x - a) := by
      show x % 0x2000000 = a % 0x2000000 + (x - a)
      omega
    rw [if_pos hx, hslot, hoff, Function.update_self, copyBytes_of_lt (by omega)]
  · rw [if_neg hx]
    by_cases hslot : ramSlotOf x = slot
    · rw [hslot, Function.update_self, copyBytes_of_not]
      intro hin
      apply hx
      have hslot' : x / 0x2000000 = a / 0x2000000 := hslot
      have hin' : a % 0x2000000 ≤ x % 0x2000000 ∧ x % 0x2000000 < a % 0x2000000 + n := hin
      omega
    · rw [Function.update_of_ne hslot]

section

variable {D : Type} [EBusDevices D]

/-- Nothing but RAM is in branches 0 and 1. -/
theorem pBoardWrite_ram (s : XrStation D) (p : XrProcessor) (address : Nat) (src : Nat → Byte)
    (length : Nat) : (pBoardWrite s p address src length).bus.ram = s.ram := by
  unfold pBoardWrite
  split
  · split <;> rfl
  split
  · rfl
  split
  · by_cases hend : address - 0x1000 + length > nvramSize
    · simp only [hend, if_true]
    · simp only [hend, if_false]
  split
  · split
    · split <;> rfl
    · rfl
  split
  · split
    · rcases s.lsicReply_write p ((address - 0x30000) / 4) (wordOf src) with h | ⟨lsic, h⟩
      · rw [h]
      · rw [h]
    · rfl
  split
  · split <;> rfl
  · rfl

theorem pBoardRead_ram (s : XrStation D) (p : XrProcessor) (address : Nat) (dest : Nat → Byte)
    (length : Nat) : (pBoardRead s p address dest length).bus.ram = s.ram := by
  unfold pBoardRead
  repeat' split
  all_goals rfl

theorem eBusRead_keeps_ram (s : XrStation D) (p : XrProcessor) (address : Nat)
    (dest : Nat → Byte) (length : Nat) : (eBusRead s p address dest length).bus.ram = s.ram := by
  unfold eBusRead
  extract_lets branch offset
  split
  · rfl
  split
  · rfl
  split
  · exact pBoardRead_ram s p offset dest length
  · rfl

theorem eBusWrite_keeps_ram (s : XrStation D) (p : XrProcessor) {address : Nat}
    (h : ramMaximum ≤ address) (src : Nat → Byte) (length : Nat) :
    (eBusWrite s p address src length).bus.ram = s.ram := by
  obtain ⟨hbranch, hmax, hslot, hrom, hsize⟩ := memoryMap
  unfold eBusWrite
  extract_lets branch offset
  rw [if_neg (by omega), if_neg (by omega)]
  split
  · exact pBoardWrite_ram s p offset src length
  · rfl

/-- RAM keeps its size. -/
theorem eBusWrite_size (bus : XrStation D) (p : XrProcessor) (a : Nat) (src : Nat → Byte) (n : Nat) :
    (eBusWrite bus p a src n).bus.ram.size = bus.ram.size := by
  by_cases hlt : a < ramMaximum
  · rw [eBusWrite_ram bus p hlt]
    split
    · rename_i ram' hw
      unfold ramWrite at hw
      extract_lets slot offset at hw
      split at hw
      · cases hw
      · obtain rfl := Option.some.inj hw
        rfl
    · rfl
  · rw [eBusWrite_keeps_ram bus p (Nat.le_of_not_lt hlt)]

variable {bus : XrStation D} (p : XrProcessor)

theorem busWrite_within (hpop : ∀ k, k < n → RamPopulated bus.ram (a + k))
    (hwithin : WithinSlot a n) (src : Nat → Byte) (x : Nat) :
    ramByte (eBusWrite bus p a src n).bus.ram x =
      if a ≤ x ∧ x < a + n then src (x - a) else ramByte bus.ram x := by
  by_cases hlt : a < ramMaximum
  · rw [eBusWrite_ram bus p hlt]
    split
    · rename_i ram' hw
      exact ramByte_write hwithin hw x
    · rename_i hw
      -- Only a transfer of nothing can be refused here.
      have hn : n = 0 := by
        by_contra hne
        have hfits := fits_of_within (Nat.pos_of_ne_zero hne) hpop hwithin
        unfold ramWrite at hw
        rw [if_neg (Nat.not_lt_of_le hfits)] at hw
        cases hw
      rw [if_neg (by omega)]
  · have hn : n = 0 := by
      by_contra hne
      exact hlt (hpop 0 (Nat.pos_of_ne_zero hne)).1
    rw [eBusWrite_keeps_ram bus p (Nat.le_of_not_lt hlt), if_neg (by omega)]

theorem busRead_within (hpop : ∀ k, k < n → RamPopulated bus.ram (a + k))
    (hwithin : WithinSlot a n) (dest : Nat → Byte) {k : Nat} (hk : k < n) :
    (eBusRead bus p a dest n).reply.getD dest k = ramByte bus.ram (a + k) := by
  have hpos : 0 < n := by omega
  have hfits := fits_of_within hpos hpop hwithin
  rw [withinSlot_iff] at hwithin
  have hlt : a < ramMaximum := (hpop 0 hpos).1
  rw [eBusRead_ram bus p hlt]
  unfold ramRead
  rw [if_neg (Nat.not_lt_of_le hfits)]
  have hcopy : copyBytes dest 0 (fun k => bus.ram.bytes (ramSlotOf a) (ramOffsetOf a + k)) n k =
      bus.ram.bytes (ramSlotOf a) (ramOffsetOf a + k) := copyFrom_of_lt hk
  rw [Option.getD_some, hcopy]
  have hslot : ramSlotOf (a + k) = ramSlotOf a := by
    unfold ramSlotOf
    omega
  have hoff : ramOffsetOf (a + k) = ramOffsetOf a + k := by
    unfold ramOffsetOf
    omega
  rw [ramByte, hslot, hoff]

/-- A transfer that crosses into another slot is refused as a whole. -/
theorem busWrite_across (hsize : ∀ slot, bus.ram.size slot ≤ ramSlotSize) (hlt : a < ramMaximum)
    (hwithin : ¬WithinSlot a n) (src : Nat → Byte) : (eBusWrite bus p a src n).bus.ram = bus.ram := by
  rw [eBusWrite_ram bus p hlt]
  unfold ramWrite
  rw [if_pos (Nat.lt_of_not_le (not_fits_of_not_within hsize hwithin))]

theorem busRead_across (hsize : ∀ slot, bus.ram.size slot ≤ ramSlotSize) (hlt : a < ramMaximum)
    (hwithin : ¬WithinSlot a n) (dest : Nat → Byte) :
    (eBusRead bus p a dest n).reply.getD dest = dest := by
  rw [eBusRead_ram bus p hlt]
  unfold ramRead
  rw [if_pos (Nat.lt_of_not_le (not_fits_of_not_within hsize hwithin))]
  rfl

end

end Xremu
