import Xremu.Devices.HostPath
import Xremu.Devices.RamBytes

/-!
# RAM on the bus

Six handlers reach the RAM: a read, a write and a translation for each of two branches.
They agree on one map, which takes every address to a byte of its own in the slot that
is there, and whatever is not populated to its end is refused as a whole:
`ramOnBus_holds`.
-/

namespace Xremu

/-! ## The arithmetic of the handlers -/

/-- `RAMWrite` and `RAMRead` compute the slot and the offset as `int` and compare in
`uint32_t`. -/
def ramRefuses (sizes : Nat → Word) (address length : Word) : Bool :=
  let slot := address >>> 25
  let offset := address &&& (BitVec.ofNat 32 ramSlotSize - 1)
  decide (offset + length > sizes slot.toNat)

theorem slotOf_word (address : Word) : (address >>> 25).toNat = ramSlotOf address.toNat := by
  rw [BitVec.toNat_ushiftRight, Nat.shiftRight_eq_div_pow]
  rfl

theorem offsetOf_word (address : Word) :
    (address &&& (BitVec.ofNat 32 ramSlotSize - 1)).toNat = ramOffsetOf address.toNat := by
  have hmask : (BitVec.ofNat 32 ramSlotSize - 1).toNat = 2 ^ 25 - 1 := by decide
  rw [BitVec.toNat_and, hmask, Nat.and_two_pow_sub_one_eq_mod]
  rfl

/-- No bus access is long enough for the sum to wrap, so that the handlers refuse what
`ramWrite` does. -/
theorem ramWrite_words (ram : RamSlots) (hsize : ∀ slot, ram.size slot < 0x100000000)
    (address : Word) (src : Nat → Byte) (length : Word) (hlength : length.toNat < 0x80000000) :
    (ramWrite ram address.toNat src length.toNat).isNone =
      ramRefuses (fun slot => BitVec.ofNat 32 (ram.size slot)) address length := by
  have hoffset : ramOffsetOf address.toNat < 0x2000000 := Nat.mod_lt _ (by decide)
  have hsum : (ramOffsetOf address.toNat + length.toNat) % 0x100000000 =
      ramOffsetOf address.toNat + length.toNat := Nat.mod_eq_of_lt (by omega)
  have hword : (BitVec.ofNat 32 (ram.size (ramSlotOf address.toNat))).toNat =
      ram.size (ramSlotOf address.toNat) := by
    rw [BitVec.toNat_ofNat]
    exact Nat.mod_eq_of_lt (hsize _)
  have hcheck : ramRefuses (fun slot => BitVec.ofNat 32 (ram.size slot)) address length = true ↔
      ramOffsetOf address.toNat + length.toNat > ram.size (ramSlotOf address.toNat) := by
    unfold ramRefuses
    dsimp only
    rw [decide_eq_true_iff, slotOf_word, gt_iff_lt, BitVec.lt_def, BitVec.toNat_add, offsetOf_word,
      hword]
    exact iff_of_eq (congrArg (_ < ·) hsum)
  rw [Bool.eq_iff_iff, hcheck]
  unfold ramWrite
  dsimp only
  by_cases hout : ramOffsetOf address.toNat + length.toNat > ram.size (ramSlotOf address.toNat)
  · rw [if_pos hout]
    exact iff_of_true rfl hout
  · rw [if_neg hout]
    exact iff_of_false Bool.false_ne_true hout

/-! ## Ranges -/

/-- A range of RAM as it is read and written: naturally aligned. -/
structure RamRange (a n : Nat) : Prop where
  below : a < ramMaximum
  length : n = 1 ∨ n = 2 ∨ n = 4 ∨ n = 16
  aligned : a % n = 0

/-- The whole range is in the populated part of a slot. -/
def RangePopulated (ram : RamSlots) (a n : Nat) : Prop :=
  ∃ slot, slot < ramSlotCount ∧ slot * ramSlotSize ≤ a ∧ a + n ≤ slot * ramSlotSize + ram.size slot

variable {ram : RamSlots} {a n : Nat}

theorem RamRange.pos (h : RamRange a n) : 0 < n := by
  rcases h.length with rfl | rfl | rfl | rfl
  · decide
  · decide
  · decide
  · decide

/-- The check of the handlers. -/
theorem rangePopulated_iff (hsize : ∀ slot, slot < ramSlotCount → ram.size slot ≤ ramSlotSize)
    (hlt : a < ramMaximum) (hpos : 0 < n) :
    RangePopulated ram a n ↔ ramOffsetOf a + n ≤ ram.size (ramSlotOf a) := by
  obtain ⟨-, hmax, hslotsize, -, -⟩ := memoryMap
  have hcount : ramSlotCount = 8 := rfl
  have hslot : ramSlotOf a < ramSlotCount := by
    unfold ramSlotOf
    omega
  have haddr : ramSlotOf a * 0x2000000 + ramOffsetOf a = a := by
    unfold ramSlotOf ramOffsetOf
    omega
  unfold RangePopulated
  rw [hslotsize]
  constructor
  · rintro ⟨slot, hcountslot, hge, hend⟩
    have hfits := hsize slot hcountslot
    rw [hslotsize] at hfits
    -- A range in a slot that is not empty has only that slot.
    have hsame : slot = ramSlotOf a := by
      unfold ramSlotOf
      omega
    rw [← hsame] at haddr ⊢
    omega
  · intro hfits
    exact ⟨ramSlotOf a, hslot, by omega, by omega⟩

/-! ## One map -/

/-- An address is its slot and its offset. -/
theorem slot_offset_injective {x y : Nat} (hslot : ramSlotOf x = ramSlotOf y)
    (hoffset : ramOffsetOf x = ramOffsetOf y) : x = y := by
  unfold ramSlotOf at hslot
  unfold ramOffsetOf at hoffset
  omega

section

variable {D : Type}

/-- Two addresses with one location are the same address. -/
theorem pointer_injective {s : XrStation D} {x y : Nat} (hx : x < ramMaximum) (hy : y < ramMaximum)
    {q : HostPointer} (hqx : s.pointer x = some q) (hqy : s.pointer y = some q) : x = y := by
  obtain ⟨-, hmax, -, hrom, -⟩ := memoryMap
  rcases XrStation.pointer_cases hqx (by omega) with ⟨-, -, rfl⟩ | ⟨hge, -⟩
  · rcases XrStation.pointer_cases hqy (by omega) with ⟨-, -, hq⟩ | ⟨hge, -⟩
    · injection hq with hslot hoffset
      exact slot_offset_injective hslot hoffset
    · omega
  · omega

theorem pointer_isSome_iff {s : XrStation D} {x : Nat} (hx : x < ramMaximum) :
    (s.pointer x).isSome = true ↔ ramOffsetOf x + 1 ≤ s.ram.size (ramSlotOf x) := by
  obtain ⟨-, hmax, -, hrom, -⟩ := memoryMap
  constructor
  · intro hsome
    obtain ⟨q, hq⟩ := Option.isSome_iff_exists.mp hsome
    rcases XrStation.pointer_cases hq (by omega) with ⟨-, hoff, -⟩ | ⟨hge, -⟩
    · exact hoff
    · omega
  · intro hoff
    rw [XrStation.pointer_ram hx hoff]
    rfl

variable [EBusDevices D]

/-- What RAM is to two ranges: one that is written (`src`), and one that is read (`dest`)
before and after. -/
structure RamOnBus (s : XrStation D) (p : XrProcessor) (src dest : Nat → Byte) (a n b m : Nat) :
    Prop where
  accepted : (eBusWrite s p a src n).reply = true ↔ RangePopulated s.ram a n
  answered : (eBusRead s p b dest m).reply.isSome = true ↔ RangePopulated s.ram b m
  readBack : RangePopulated s.ram a n → ∀ before, (eBusRead s p b dest m).reply = some before →
    ∃ bytes, (eBusRead (eBusWrite s p a src n).bus p b dest m).reply = some bytes ∧
      ∀ k, bytes k = if k < m ∧ a ≤ b + k ∧ b + k < a + n then src (b + k - a) else before k
  refused : (eBusWrite s p a src n).reply = false → (eBusWrite s p a src n).bus = s
  unread : (eBusRead s p b dest m).bus = s
  distinct : ∀ x y, x < ramMaximum → y < ramMaximum → ∀ q, s.pointer x = some q →
    s.pointer y = some q → x = y
  located : ∀ x, x < ramMaximum → ((s.pointer x).isSome = true ↔ RangePopulated s.ram x 1)
  sameByte : ∀ x, x < ramMaximum → ∀ q, s.pointer x = some q →
    (∃ bytes, (eBusRead s p x dest 1).reply = some bytes ∧ bytes 0 = s.hostBytes q 0) ∧
    (eBusWrite s p x src 1).bus = s.hostStore q 0 src 1

variable {s : XrStation D} {p : XrProcessor} {src dest : Nat → Byte}

omit [EBusDevices D] in
/-- What fits its slot stays in it. -/
theorem withinSlot_of_fits (hsize : ∀ slot, slot < ramSlotCount → s.ram.size slot ≤ ramSlotSize)
    (hlt : a < ramMaximum) (hfits : ramOffsetOf a + n ≤ s.ram.size (ramSlotOf a)) :
    WithinSlot a n := by
  obtain ⟨-, hmax, -, -, -⟩ := memoryMap
  have hcount : ramSlotCount = 8 := rfl
  apply Nat.le_trans hfits
  apply hsize
  unfold ramSlotOf
  omega

/-- A read that fits, byte by byte of the address space. -/
theorem eBusRead_fits (hlt : a < ramMaximum) (hwithin : WithinSlot a n)
    (hfits : ramOffsetOf a + n ≤ s.ram.size (ramSlotOf a)) :
    (eBusRead s p a dest n).reply =
      some fun k => if k < n then ramByte s.ram (a + k) else dest k := by
  rw [eBusRead_ram s p hlt]
  unfold ramRead
  rw [if_neg (Nat.not_lt_of_le hfits)]
  apply congrArg some
  funext k
  rw [withinSlot_iff] at hwithin
  by_cases hk : k < n
  · have hslot : ramSlotOf (a + k) = ramSlotOf a := by
      unfold ramSlotOf
      omega
    have hoffset : ramOffsetOf (a + k) = ramOffsetOf a + k := by
      unfold ramOffsetOf
      omega
    rw [if_pos hk, ramByte, hslot, hoffset]
    exact copyFrom_of_lt hk
  · rw [if_neg hk, copyBytes_of_not (by omega)]

theorem eBusRead_refused (hlt : a < ramMaximum)
    (hfits : ¬ramOffsetOf a + n ≤ s.ram.size (ramSlotOf a)) :
    (eBusRead s p a dest n).reply = none := by
  rw [eBusRead_ram s p hlt]
  unfold ramRead
  rw [if_pos (Nat.lt_of_not_le hfits)]

theorem eBusRead_isSome_iff (hlt : a < ramMaximum) :
    (eBusRead s p a dest n).reply.isSome = true ↔
      ramOffsetOf a + n ≤ s.ram.size (ramSlotOf a) := by
  constructor
  · intro hsome
    by_contra hfits
    rw [eBusRead_refused hlt hfits] at hsome
    cases hsome
  · intro hfits
    rw [eBusRead_ram s p hlt]
    unfold ramRead
    rw [if_neg (Nat.not_lt_of_le hfits)]
    rfl

/-- A write that fits is a store through the pointer of its slot. -/
theorem eBusWrite_stores (hlt : a < ramMaximum)
    (hfits : ramOffsetOf a + n ≤ s.ram.size (ramSlotOf a)) :
    eBusWrite s p a src n =
      ⟨s.hostStore (.ram (ramSlotOf a) 0) (ramOffsetOf a) src n, p.progress, true⟩ :=
  busWrite_ram p hlt src hfits

theorem eBusWrite_refused (hlt : a < ramMaximum)
    (hfits : ¬ramOffsetOf a + n ≤ s.ram.size (ramSlotOf a)) :
    eBusWrite s p a src n = ⟨s, p.progress, false⟩ :=
  busWrite_ram_error p hlt src hfits

theorem eBusWrite_reply_iff (hlt : a < ramMaximum) :
    (eBusWrite s p a src n).reply = true ↔ ramOffsetOf a + n ≤ s.ram.size (ramSlotOf a) := by
  by_cases hfits : ramOffsetOf a + n ≤ s.ram.size (ramSlotOf a)
  · rw [eBusWrite_stores hlt hfits]
    exact iff_of_true rfl hfits
  · rw [eBusWrite_refused hlt hfits]
    exact iff_of_false Bool.false_ne_true hfits

/-- The memory after a write that fits, byte by byte of the address space. -/
theorem eBusWrite_fits (hlt : a < ramMaximum) (hwithin : WithinSlot a n)
    (hfits : ramOffsetOf a + n ≤ s.ram.size (ramSlotOf a)) (x : Nat) :
    ramByte (eBusWrite s p a src n).bus.ram x =
      if a ≤ x ∧ x < a + n then src (x - a) else ramByte s.ram x := by
  rw [eBusWrite_ram s p hlt]
  cases hwrite : ramWrite s.ram a src n with
  | none =>
      unfold ramWrite at hwrite
      rw [if_neg (Nat.not_lt_of_le hfits)] at hwrite
      cases hwrite
  | some ram => exact ramByte_write hwithin hwrite x

/-- A read after a write. -/
theorem eBusRead_write {b m : Nat} (ha : a < ramMaximum) (hb : b < ramMaximum)
    (hwithina : WithinSlot a n) (hwithinb : WithinSlot b m)
    (hfitsa : ramOffsetOf a + n ≤ s.ram.size (ramSlotOf a))
    (hfitsb : ramOffsetOf b + m ≤ s.ram.size (ramSlotOf b)) :
    (eBusRead (eBusWrite s p a src n).bus p b dest m).reply =
      some fun k =>
        if k < m then if a ≤ b + k ∧ b + k < a + n then src (b + k - a) else ramByte s.ram (b + k)
        else dest k := by
  have hsizes := eBusWrite_size s p a src n
  rw [eBusRead_fits hb hwithinb (by rwa [hsizes])]
  apply congrArg some
  funext k
  rw [eBusWrite_fits ha hwithina hfitsa]

/-- For all slots no larger than they may be and all ranges of RAM. -/
theorem ramOnBus_holds (s : XrStation D) (p : XrProcessor) (src dest : Nat → Byte)
    (hsize : ∀ slot, slot < ramSlotCount → s.ram.size slot ≤ ramSlotSize) {a n b m : Nat}
    (ha : RamRange a n) (hb : RamRange b m) : RamOnBus s p src dest a n b m := by
  have hfits := rangePopulated_iff hsize ha.below ha.pos
  have hfitsb := rangePopulated_iff hsize hb.below hb.pos
  have hone : ∀ {x}, x < ramMaximum → (RangePopulated s.ram x 1 ↔ _) := fun hx =>
    rangePopulated_iff hsize hx Nat.zero_lt_one
  constructor
  · rw [eBusWrite_reply_iff ha.below, hfits]
  · rw [eBusRead_isSome_iff hb.below, hfitsb]
  · intro hpop before hbefore
    have hread := (eBusRead_isSome_iff hb.below).mp (Option.isSome_of_eq_some hbefore)
    have hwithin := withinSlot_of_fits hsize hb.below hread
    have hwithina := withinSlot_of_fits hsize ha.below (hfits.mp hpop)
    rw [eBusRead_fits hb.below hwithin hread] at hbefore
    refine ⟨_, eBusRead_write ha.below hb.below hwithina hwithin (hfits.mp hpop) hread, ?_⟩
    intro k
    rw [← Option.some.inj hbefore]
    by_cases hk : k < m
    · simp only [hk, if_true, true_and]
    · simp only [hk, if_false, false_and]
  · intro hrefused
    have hnot : ¬ramOffsetOf a + n ≤ s.ram.size (ramSlotOf a) := by
      intro h
      rw [(eBusWrite_reply_iff ha.below).mpr h] at hrefused
      cases hrefused
    rw [eBusWrite_refused ha.below hnot]
  · rw [eBusRead_ram s p hb.below]
  · intro x y hx hy q hqx hqy
    exact pointer_injective hx hy hqx hqy
  · intro x hx
    rw [pointer_isSome_iff hx, hone hx]
  · intro x hx q hq
    have hfitsx := (pointer_isSome_iff hx).mp (Option.isSome_of_eq_some hq)
    have hwithin := withinSlot_of_fits hsize hx hfitsx
    rw [XrStation.pointer_ram hx hfitsx] at hq
    obtain rfl := Option.some.inj hq
    constructor
    · exact ⟨_, eBusRead_fits hx hwithin hfitsx, rfl⟩
    · rw [eBusWrite_stores hx hfitsx]
      simp only [XrStation.hostStore, Nat.zero_add, Nat.add_zero]

end

/-- A line at the end of what is there, and the word in it that is read. -/
theorem ramOnBus_lastLine :
    RamOnBus (stationOf 0x400000) (XrProcessor.zeroed 0) (byteOf 0xFF) (fun _ => 0)
      0x3FFFF0 16 0x3FFFFC 4 :=
  ramOnBus_holds (stationOf 0x400000) (XrProcessor.zeroed 0) (byteOf 0xFF) (fun _ => 0)
    (by decide) ⟨by decide, by decide, by decide⟩ ⟨by decide, by decide, by decide⟩

end Xremu
