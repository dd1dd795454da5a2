import Xremu.Devices.DksInvariant
import Xremu.Devices.HostPath
import Xremu.Devices.RamBytes

/-!
# Disk transfers

The data of an accepted command is moved by one access of the bus whose result code
nobody looks at. `TransferFaithful` is what the command asks for; it is what happens
if the range stays in one RAM slot (`diskTransfer_faithful_iff`).
-/

namespace Xremu

section

variable {D : Type}

/-! ## The transfer of a command -/

namespace DksTransfer

/-- How many bytes a command moves, and where in the image. -/
def bytes (t : DksTransfer) : Nat := 512 * t.count.toNat

def imageStart (t : DksTransfer) : Nat := 512 * t.sector.toNat

end DksTransfer

/-- The data is where it belongs, and no other byte of RAM or of an image changed. -/
structure TransferFaithful (t : DksTransfer) (id : Nat) (s s' : Dks D) : Prop where
  moved : ∀ k, k < t.bytes → match t.ioType with
    | .read => ramByte s'.bus.ram (t.address.toNat + k) = (s.disks id).image (t.imageStart + k)
    | .write => (s'.disks id).image (t.imageStart + k) = ramByte s.bus.ram (t.address.toNat + k)
  ram : ∀ x, t.ioType = .write ∨ ¬(t.address.toNat ≤ x ∧ x < t.address.toNat + t.bytes) →
    ramByte s'.bus.ram x = ramByte s.bus.ram x
  image : ∀ x, t.ioType = .read ∨ ¬(t.imageStart ≤ x ∧ x < t.imageStart + t.bytes) →
    (s'.disks id).image x = (s.disks id).image x
  others : ∀ j, j ≠ id → (s'.disks j).image = (s.disks j).image

/-- The data happens to be there before: for a read in RAM, for a write in the buffer,
left from an earlier command. -/
def AlreadyThere (t : DksTransfer) (id : Nat) (s : Dks D) : Prop :=
  ∀ k, k < t.bytes → match t.ioType with
    | .read => ramByte s.bus.ram (t.address.toNat + k) = (s.disks id).image (t.imageStart + k)
    | .write => (s.disks id).temporaryBuffer k = ramByte s.bus.ram (t.address.toNat + k)

variable {s : Dks D} {id : Nat} {t : DksTransfer}

theorem Pending.length (h : Pending s id t) : t.length = t.bytes := by
  have hcount := h.count
  have h512 : (512 : Word).toNat = 512 := rfl
  unfold DksTransfer.length DksTransfer.bytes
  rw [BitVec.toNat_mul, h512]
  omega

theorem Pending.offset (h : Pending s id t) : t.offset = t.imageStart := by
  have hsector := h.sectors.1
  have h512 : (512 : Word).toNat = 512 := rfl
  unfold DksTransfer.offset DksTransfer.imageStart
  rw [BitVec.toNat_mul, h512]
  omega

/-- The transfer of a command fits the buffer of the disk. -/
theorem Pending.bytes_le (h : Pending s id t) : t.bytes ≤ 4096 := by
  have hcount := h.count
  unfold DksTransfer.bytes
  omega

/-- `fread` gets all the sectors of an accepted command. -/
theorem Pending.fread (h : Pending s id t) {k : Nat} (hk : k < t.bytes) :
    (s.disks id).fread t.imageStart t.bytes k = (s.disks id).image (t.imageStart + k) := by
  have hfile := h.sectors.2
  have hmin : min t.bytes ((s.disks id).imageLength - t.imageStart) = t.bytes := by
    unfold DksTransfer.bytes DksTransfer.imageStart
    omega
  unfold DksDisk.fread
  rw [hmin]
  exact copyFrom_of_lt hk

end


section

variable {D : Type} [EBusDevices D]

/-! ## What a transfer does -/

variable {s : Dks D} {id : Nat} {t : DksTransfer}

theorem dksTransfer_read (h : Pending s id t) (hread : t.ioType = .read) :
    (dksTransfer s id).bus =
      (eBusWrite s.bus (XrProcessor.zeroed 0) t.address.toNat
        ((s.disks id).fread t.imageStart t.bytes) t.bytes).bus ∧
    ∀ j, ((dksTransfer s id).disks j).image = (s.disks j).image := by
  constructor
  · simp only [dksTransfer, h.transfer, hread, h.offset, h.length]
    rfl
  · intro j
    by_cases hj : j = id
    · simp only [dksTransfer, h.transfer, hread, Dks.setDisk_disks, hj, if_true]
    · rw [dksTransfer_other s hj]

theorem dksTransfer_write (h : Pending s id t) (hwrite : t.ioType = .write) :
    (dksTransfer s id).bus.ram = s.bus.ram ∧
    ((dksTransfer s id).disks id).image =
      copyBytes (s.disks id).image t.imageStart
        ((eBusRead s.bus (XrProcessor.zeroed 0) t.address.toNat (s.disks id).temporaryBuffer
          t.bytes).reply.getD (s.disks id).temporaryBuffer) t.bytes := by
  constructor
  · simp only [dksTransfer, h.transfer, hwrite]
    exact eBusRead_keeps_ram s.bus _ _ _ _
  · simp only [dksTransfer, h.transfer, hwrite, h.offset, h.length, Dks.setDisk_disks, if_true,
      DksDisk.fwrite]

/-- Whatever the buffer holds, a write puts it into the sectors of the command and nowhere
else. -/
theorem Pending.write_faithful (h : Pending s id t) (hwrite : t.ioType = .write)
    {buffer : Nat → Byte}
    (himage : ((dksTransfer s id).disks id).image =
      copyBytes (s.disks id).image t.imageStart buffer t.bytes)
    (hbuffer : ∀ k, k < t.bytes → buffer k = ramByte s.bus.ram (t.address.toNat + k)) :
    TransferFaithful t id s (dksTransfer s id) := by
  obtain ⟨hram, -⟩ := dksTransfer_write h hwrite
  constructor
  · intro k hk
    simp only [hwrite]
    rw [himage, copyBytes_of_lt hk]
    exact hbuffer k hk
  · intro x _
    rw [hram]
  · intro x hx
    rw [himage, copyBytes_of_not]
    rcases hx with hr | hout
    · rw [hwrite] at hr
      cases hr
    · exact hout
  · intro j hj
    rw [dksTransfer_other s hj]

/-- In one slot of RAM the bus takes the access, whatever the sizes of the slots. -/
theorem Pending.faithful_within (h : Pending s id t) (hwithin : WithinSlot t.address.toNat t.bytes)
    (hpop : ∀ k, k < t.bytes → RamPopulated s.bus.ram (t.address.toNat + k)) :
    TransferFaithful t id s (dksTransfer s id) := by
  cases hio : t.ioType with
  | read =>
      obtain ⟨hbus, himages⟩ := dksTransfer_read h hio
      have hram := busWrite_within (XrProcessor.zeroed 0) hpop hwithin
        ((s.disks id).fread t.imageStart t.bytes)
      rw [← hbus] at hram
      constructor
      · intro k hk
        simp only [hio]
        rw [hram, if_pos ⟨Nat.le_add_right _ _, Nat.add_lt_add_left hk _⟩, Nat.add_sub_cancel_left]
        exact h.fread hk
      · intro x hx
        rw [hram, if_neg]
        rcases hx with hw | hout
        · rw [hio] at hw
          cases hw
        · exact hout
      · intro x _
        rw [himages]
      · intro j _
        exact himages j
  | write =>
      exact h.write_faithful hio (dksTransfer_write h hio).2 fun k hk =>
        busRead_within _ hpop hwithin _ hk

theorem DksTransfer.bytes_pos (h : ¬WithinSlot t.address.toNat t.bytes) : 0 < t.bytes := by
  apply Nat.pos_of_ne_zero
  intro hzero
  apply h
  rw [withinSlot_iff, hzero]
  omega

/-- Across the end of a slot a transfer is faithful only if the data is there before it. -/
theorem Pending.faithful_across (h : Pending s id t)
    (hsize : ∀ slot, s.bus.ram.size slot ≤ ramSlotSize)
    (hpop : ∀ k, k < t.bytes → RamPopulated s.bus.ram (t.address.toNat + k))
    (hwithin : ¬WithinSlot t.address.toNat t.bytes) :
    TransferFaithful t id s (dksTransfer s id) ↔ AlreadyThere t id s := by
  have hlt : t.address.toNat < ramMaximum := (hpop 0 (DksTransfer.bytes_pos hwithin)).1
  cases hio : t.ioType with
  | read =>
      obtain ⟨hbus, himages⟩ := dksTransfer_read h hio
      have hram : (dksTransfer s id).bus.ram = s.bus.ram := by
        rw [hbus]
        exact busWrite_across _ hsize hlt hwithin _
      constructor
      · intro hfaithful k hk
        have hmoved := hfaithful.moved k hk
        rw [hram] at hmoved
        simp only [hio] at hmoved ⊢
        exact hmoved
      · intro hthere
        constructor
        · intro k hk
          have hk' := hthere k hk
          rw [hram]
          simp only [hio] at hk' ⊢
          exact hk'
        · intro x _
          rw [hram]
        · intro x _
          rw [himages]
        · intro j _
          exact himages j
  | write =>
      obtain ⟨-, himage⟩ := dksTransfer_write h hio
      rw [busRead_across _ hsize hlt hwithin] at himage
      constructor
      · intro hfaithful k hk
        have hmoved := hfaithful.moved k hk
        simp only [hio] at hmoved ⊢
        rw [himage, copyBytes_of_lt hk] at hmoved
        exact hmoved
      · intro hthere
        refine h.write_faithful hio himage fun k hk => ?_
        have hk' := hthere k hk
        simp only [hio] at hk'
        exact hk'

theorem Pending.faithful_iff (h : Pending s id t)
    (hsize : ∀ slot, s.bus.ram.size slot ≤ ramSlotSize)
    (hpop : ∀ k, k < t.bytes → RamPopulated s.bus.ram (t.address.toNat + k)) :
    TransferFaithful t id s (dksTransfer s id) ↔
      WithinSlot t.address.toNat t.bytes ∨ AlreadyThere t id s := by
  by_cases hwithin : WithinSlot t.address.toNat t.bytes
  · exact ⟨fun _ => Or.inl hwithin, fun _ => h.faithful_within hwithin hpop⟩
  · rw [h.faithful_across hsize hpop hwithin]
    exact ⟨Or.inr, fun hor => hor.resolve_left hwithin⟩

/-! ## The file and the bus -/

/-- The range of a command in memory: populated RAM, in one slot. -/
structure DksSystem.InRam (t : DksTransfer) (ram : RamSlots) : Prop where
  within : WithinSlot t.address.toNat t.bytes
  populated : ∀ k, k < t.bytes → RamPopulated ram (t.address.toNat + k)

/-- What the transfer of command `t` does with the image and the bus. -/
structure FileIo (t : DksTransfer) (id : Nat) (s s' : Dks D) : Prop where
  /-- A read gets the sectors into the buffer and gives them to the bus in one write. -/
  read : t.ioType = .read →
    (∀ k, k < t.bytes →
      (s'.disks id).temporaryBuffer k = (s.disks id).image (t.imageStart + k)) ∧
    (s'.disks id).image = (s.disks id).image ∧
    s'.bus = (eBusWrite s.bus (XrProcessor.zeroed 0) t.address.toNat
      (s'.disks id).temporaryBuffer t.bytes).bus
  /-- A write puts into the sectors what one read of the bus has delivered, which leaves the
  buffer as it was where the bus refuses it. -/
  write : t.ioType = .write →
    (s'.disks id).temporaryBuffer = (eBusRead s.bus (XrProcessor.zeroed 0) t.address.toNat
      (s.disks id).temporaryBuffer t.bytes).reply.getD (s.disks id).temporaryBuffer ∧
    (∀ k, k < t.bytes →
      (s'.disks id).image (t.imageStart + k) = (s'.disks id).temporaryBuffer k) ∧
    (∀ x, ¬(t.imageStart ≤ x ∧ x < t.imageStart + t.bytes) →
      (s'.disks id).image x = (s.disks id).image x) ∧
    s'.bus.ram = s.bus.ram
  others : ∀ j, j ≠ id → s'.disks j = s.disks j
  /-- In one slot of RAM the data gets where it belongs. -/
  faithful : DksSystem.InRam t s.bus.ram → TransferFaithful t id s s'

theorem Pending.fileIo (h : Pending s id t) : FileIo t id s (dksTransfer s id) := by
  constructor
  · intro hread
    obtain ⟨hbus, himages⟩ := dksTransfer_read h hread
    have hbuffer : ((dksTransfer s id).disks id).temporaryBuffer =
        (s.disks id).fread t.imageStart t.bytes := by
      simp only [dksTransfer, h.transfer, hread, h.offset, h.length, Dks.setDisk_disks, if_true]
    rw [hbuffer]
    exact ⟨fun k hk => h.fread hk, himages id, hbus⟩
  · intro hwrite
    obtain ⟨hram, himage⟩ := dksTransfer_write h hwrite
    have hbuffer : ((dksTransfer s id).disks id).temporaryBuffer =
        (eBusRead s.bus (XrProcessor.zeroed 0) t.address.toNat (s.disks id).temporaryBuffer
          t.bytes).reply.getD (s.disks id).temporaryBuffer := by
      simp only [dksTransfer, h.transfer, hwrite, h.length, Dks.setDisk_disks, if_true,
        DksDisk.fwrite]
    rw [hbuffer, himage]
    exact ⟨rfl, fun k hk => copyBytes_of_lt hk, fun x hx => copyBytes_of_not hx, hram⟩
  · exact fun j hj => dksTransfer_other s hj
  · exact fun hin => h.faithful_within hin.within hin.populated

theorem dksTransfer_size (s : Dks D) (id : Nat) :
    (dksTransfer s id).bus.ram.size = s.bus.ram.size := by
  unfold dksTransfer
  extract_lets disk u
  split
  · exact eBusWrite_size s.bus _ _ _ _
  · exact congrArg RamSlots.size (eBusRead_keeps_ram s.bus _ _ _ _)

theorem dksStep_size {s s' : Dks D} {op : DksOp D} (hstep : DksStep s op s') :
    s'.bus.ram.size = s.bus.ram.size := by
  rcases dksStep_cases hstep with hq | ⟨ioType, id, hd⟩ | ⟨id, _, _, rfl⟩ | ⟨id, _, rfl⟩
  · exact hq.size
  · obtain ⟨interval, completing, rfl⟩ := hd.result
    rfl
  · exact dksTransfer_size s id
  · exact dksInfo_size _

theorem DksWaits.size {s s' : Dks D} (run : DksWaits id s s') :
    s'.bus.ram.size = s.bus.ram.size := by
  induction run with
  | refl => rfl
  | step _ _ hstep ih => exact (dksStep_size hstep).trans ih

/-- From the command to the end of its transfer, whatever happens between. The data gets
where it belongs, and only there, if the range stays in one RAM slot; across a slot's
end nothing is moved. -/
theorem diskTransfer_faithful_iff {s₀ s₁ s₂ s₃ : Dks D} {ioType : DksIoType} {interval : Nat}
    (hreach : DksReach s₀) (hsel : s₀.selected = some id)
    (hcmd : dksDispatchIo s₀ ioType interval = some s₁)
    (hwait : DksWaits id s₁ s₂) (htransfer : DksStep s₂ (.transfer id) s₃)
    (hsize : ∀ slot, s₀.bus.ram.size slot ≤ ramSlotSize)
    (hpop : ∀ k, k < 512 * s₀.transferCount.toNat →
      RamPopulated s₀.bus.ram (s₀.transferAddress.toNat + k)) :
    TransferFaithful ⟨ioType, s₀.transferAddress, s₀.portA, s₀.transferCount⟩ id s₂ s₃ ↔
      WithinSlot s₀.transferAddress.toNat (512 * s₀.transferCount.toNat) ∨
      AlreadyThere ⟨ioType, s₀.transferAddress, s₀.portA, s₀.transferCount⟩ id s₂ := by
  have hinv := dksInv_reach hreach
  obtain ⟨j, hd⟩ := dksDispatchIo_dispatched hcmd
  have hj : j = id := Option.some.inj (hd.selected.symm.trans hsel)
  subst hj
  have hinv₁ := hd.inv hinv
  have hpending := hwait.pending hinv₁ (hd.pending hinv)
  have hsizes : s₂.bus.ram.size = s₀.bus.ram.size := by
    rw [hwait.size]
    obtain ⟨_, _, rfl⟩ := hd.result
    rfl
  have hs₃ : s₃ = dksTransfer s₂ j := by
    cases htransfer
    rfl
  rw [hs₃]
  apply hpending.faithful_iff
  · intro slot
    rw [hsizes]
    exact hsize slot
  · intro k hk
    obtain ⟨hmax, hoff⟩ := hpop k hk
    rw [← hsizes] at hoff
    exact ⟨hmax, hoff⟩

end

/-! ## Two transfers -/

/-- A station with 64 MB in its first two slots, and one disk of 128 sectors. -/
def diskSample : Dks Unit where
  disks id := if id = 0 then dksAttachImage (fun _ => 0xAA) 0x10000 else .absent
  selected := none
  status := 0
  completed := 0
  portA := 0
  portB := 0
  transferCount := 0
  transferAddress := 0
  doInterrupt := false
  asynchronous := false
  bus := { stationOf 0 with
    ram := ⟨fun slot => if slot < 2 then ramSlotSize else 0, fun _ _ => 0⟩ }

/-- Port A, then a command. -/
def dksPorts (s : Dks Unit) (portA value : Word) : Dks Unit :=
  (dksWriteCmd { s with portA := portA } value 0).getD { s with portA := portA }

/-- Drive 0, two sectors to this address, from sector 5. -/
def transferTo (address : Word) : Dks Unit :=
  { dksPorts (dksPorts (dksPorts diskSample 0 1) 2 8) address 9 with portA := 5 }

/-- The read command for it, up to its transfer. -/
def readTo (address : Word) : Dks Unit :=
  (dksDispatchIo (transferTo address) .read 0).getD (transferTo address)

theorem DksReach.ports {s : Dks Unit} (h : DksReach s) (portA value : Word) :
    DksReach (dksPorts s portA value) :=
  .step (.step h (.writePortA s portA)) (.writeCmd _ value 0)

theorem diskSample_disks (id : Nat) : diskSample.disks id = .absent ∨
    ∃ image length, diskSample.disks id = dksAttachImage image length := by
  unfold diskSample
  by_cases hid : id = 0
  · exact Or.inr ⟨fun _ => 0xAA, 0x10000, if_pos hid⟩
  · exact Or.inl (if_neg hid)

theorem diskSample_reach : DksReach diskSample :=
  .start ⟨diskSample_disks, rfl, rfl, rfl, rfl⟩

theorem transferTo_reach (address : Word) : DksReach (transferTo address) :=
  .step (((diskSample_reach.ports 0 1).ports 2 8).ports address 9) (.writePortA _ 5)

theorem transferTo_size (address : Word) (slot : Nat) :
    (transferTo address).bus.ram.size slot = if slot < 2 then ramSlotSize else 0 := rfl

theorem transferTo_size_le (address : Word) (slot : Nat) :
    (transferTo address).bus.ram.size slot ≤ ramSlotSize := by
  rw [transferTo_size]
  split
  · exact Nat.le_refl _
  · exact Nat.zero_le _

theorem transferTo_populated (address : Word) {x : Nat} (h : x < 0x4000000) :
    RamPopulated (transferTo address).bus.ram x := by
  obtain ⟨hbranch, hmax, hslot, hrom, hsize⟩ := memoryMap
  refine ⟨by omega, ?_⟩
  rw [transferTo_size]
  unfold ramSlotOf ramOffsetOf
  rw [if_pos (by omega)]
  omega

theorem readTo_accepted (address : Word)
    (h : (dksDispatchIo (transferTo address) .read 0).isSome = true) :
    dksDispatchIo (transferTo address) .read 0 = some (readTo address) := by
  obtain ⟨s, hs⟩ := Option.isSome_iff_exists.mp h
  rw [readTo, hs]
  rfl

/-- Up to the very end of a slot. -/
theorem diskTransfer_faithful_lastSectors :
    TransferFaithful ⟨.read, (transferTo 0x1FFFC00).transferAddress, (transferTo 0x1FFFC00).portA,
      (transferTo 0x1FFFC00).transferCount⟩ 0 (readTo 0x1FFFC00) (dksTransfer (readTo 0x1FFFC00) 0) := by
  have haddress : (transferTo 0x1FFFC00).transferAddress.toNat = 0x1FFFC00 := by decide
  have hcount : (transferTo 0x1FFFC00).transferCount.toNat = 2 := by decide
  apply (diskTransfer_faithful_iff (transferTo_reach 0x1FFFC00) (by decide)
    (readTo_accepted _ (by decide)) .refl
    (.transfer _ 0 (by decide) (by decide)) (transferTo_size_le _) ?_).mpr
  · left
    rw [haddress, hcount]
    exact withinSlot_iff.mpr (by decide)
  · intro k hk
    rw [hcount] at hk
    rw [haddress]
    exact transferTo_populated _ (by omega)

/-- One sector further, the second half of the data belongs in the next slot, which is
there; the first half is not read either. -/
theorem read_across_slots_moves_nothing :
    DksReach (transferTo 0x1FFFE00) ∧
    (transferTo 0x1FFFE00).transferAddress = 0x1FFFE00 ∧
    dksDispatchIo (transferTo 0x1FFFE00) .read 0 = some (readTo 0x1FFFE00) ∧
    DksStep (readTo 0x1FFFE00) (.transfer 0) (dksTransfer (readTo 0x1FFFE00) 0) ∧
    (∀ slot, (transferTo 0x1FFFE00).bus.ram.size slot ≤ ramSlotSize) ∧
    (∀ k, k < 1024 → RamPopulated (transferTo 0x1FFFE00).bus.ram (0x1FFFE00 + k)) ∧
    ¬TransferFaithful ⟨.read, 0x1FFFE00, 5, 2⟩ 0 (readTo 0x1FFFE00)
      (dksTransfer (readTo 0x1FFFE00) 0) := by
  refine ⟨transferTo_reach _, by decide, readTo_accepted _ (by decide),
    .transfer _ 0 (by decide) (by decide), transferTo_size_le _, ?_, ?_⟩
  · intro k hk
    exact transferTo_populated _ (by omega)
  · intro hfaithful
    have hfirst := hfaithful.moved 0 (by decide)
    revert hfirst
    decide

end Xremu
