import Xremu.Devices.EBus

/-!
# The disk controller

A read or write command captures its parameters in the selected disk and marks it
busy. The transfer itself (`DKSCompleteTransfer`) comes at once or when the simulated
seek is over, and gives up the controller mutex while it moves the data. So a
transfer is three steps here, the flag `transferred` says whether the thread that
is completing it is past the middle one, and anything can happen between them.

The bus takes the whole transfer in one access. The result code of that access is
not looked at: `transferFaithful_iff` says what this means for a transfer that
crosses from one RAM slot into the next.
-/

namespace Xremu

abbrev dksDisks : Nat := 8

inductive DksIoType where
  | read
  | write
deriving DecidableEq

/-- The parameters of a command as the disk keeps them. -/
structure DksTransfer where
  ioType : DksIoType
  address : Word
  sector : Word
  count : Word
deriving DecidableEq

structure DksDisk where
  present : Bool
  completing : Bool
  transferred : Bool
  temporaryBuffer : Nat → Byte
  transfer : DksTransfer
  sectorCount : Word
  operationInterval : Nat
  image : Nat → Byte
  imageLength : Nat

structure Dks (D : Type) where
  disks : Nat → DksDisk
  selected : Option Nat
  status : Word
  completed : Word
  portA : Word
  portB : Word
  transferCount : Word
  transferAddress : Word
  doInterrupt : Bool
  asynchronous : Bool
  bus : XrStation D

/-- A slot of the disk table with no disk in it. -/
def DksDisk.absent : DksDisk :=
  ⟨false, false, false, fun _ => 0, ⟨.read, 0, 0, 0⟩, 0, 0, fun _ => 0, 0⟩

/-- `DKSAttachImage`. The length of the file is taken modulo 2^32. -/
def dksAttachImage (image : Nat → Byte) (length : Nat) : DksDisk :=
  { DksDisk.absent with
    present := true, sectorCount := BitVec.ofNat 32 length / 512, image := image,
    imageLength := length }

/-- `fread` of `length` bytes at `offset`, as far as the file goes. -/
def DksDisk.fread (d : DksDisk) (offset length : Nat) : Nat → Byte :=
  copyBytes d.temporaryBuffer 0 (fun k => d.image (offset + k)) (min length (d.imageLength - offset))

/-- `fwrite` of the buffer. -/
def DksDisk.fwrite (d : DksDisk) (offset length : Nat) : DksDisk :=
  { d with
    image := copyBytes d.image offset d.temporaryBuffer length
    imageLength := max d.imageLength (offset + length) }

namespace DksTransfer

/-- `TransferSector * 512`. -/
def offset (t : DksTransfer) : Nat := (t.sector * 512).toNat

/-- `TransferCount * 512`. -/
def length (t : DksTransfer) : Nat := (t.count * 512).toNat

end DksTransfer

section

variable {D : Type}

/-! ## Commands -/

def Dks.setDisk (s : Dks D) (id : Nat) (d : DksDisk) : Dks D :=
  { s with disks := Function.update s.disks id d }

@[simp] theorem Dks.setDisk_disks (s : Dks D) (id j : Nat) (d : DksDisk) :
    (s.setDisk id d).disks j = if j = id then d else s.disks j := by
  simp [Dks.setDisk, Function.update_apply]

/-- `DKSStatus & (1 << disk->ID)`. -/
def Dks.busy (s : Dks D) (id : Nat) : Bool := s.status.getLsbD id

/-- `DKSInfo`. -/
def dksInfo (s : Dks D) : Dks D :=
  if s.doInterrupt then
    { s with bus := { s.bus with lsic := lsicInterrupt s.bus.processors s.bus.lsic 3 } }
  else s

/-- `DKSReset`. -/
def dksReset (s : Dks D) : Dks D :=
  { s with doInterrupt := false, portA := 0, portB := 0, selected := none, transferCount := 0,
           transferAddress := 0 }

/-- `DKSDispatchIO`, to the point where `DKSCompleteTransfer` gives up the mutex. What
`DKSSeek` makes of the simulated geometry is the argument `interval`. -/
def dksDispatchIo (s : Dks D) (ioType : DksIoType) (interval : Nat) : Option (Dks D) :=
  match s.selected with
  | none => none
  | some id =>
      let disk := s.disks id
      if s.portA + s.transferCount < s.portA then none
      else if s.portA + s.transferCount ≥ disk.sectorCount then none
      else if s.busy id then none
      else
        let operationInterval := if s.asynchronous then interval else 0
        let disk := { disk with
          transfer := ⟨ioType, s.transferAddress, s.portA, s.transferCount⟩
          operationInterval := operationInterval
          completing := disk.completing || decide (operationInterval = 0) }
        some ({ s with status := s.status ||| (1 : Word) <<< id }.setDisk id disk)

/-- Is there a disk of this number? -/
def Dks.attached (s : Dks D) (v : Word) : Bool :=
  decide (v.toNat < dksDisks) && (s.disks v.toNat).present

theorem Dks.attached_lt {s : Dks D} {v : Word} (h : s.attached v = true) : v.toNat < dksDisks := by
  unfold Dks.attached at h
  rw [Bool.and_eq_true] at h
  exact of_decide_eq_true h.1

/-- `DKSWriteCMD`; `none` is `EBUSERROR`, which changes nothing. -/
def dksWriteCmd (s : Dks D) (value : Word) (interval : Nat) : Option (Dks D) :=
  if value = 1 then
    some { s with selected := if s.attached s.portA then some s.portA.toNat else none }
  else if value = 2 then dksDispatchIo s .read interval
  else if value = 3 then dksDispatchIo s .write interval
  else if value = 4 then some { s with portA := 0, portB := s.completed, completed := 0 }
  else if value = 5 then
    if s.attached s.portA then
      some { s with portA := 1, portB := (s.disks s.portA.toNat).sectorCount }
    else some { s with portA := 0, portB := 0 }
  else if value = 6 then some { s with doInterrupt := true }
  else if value = 7 then some { s with doInterrupt := false }
  else if value = 8 then
    if s.portA = 0 ∨ s.portA > 8 then none else some { s with transferCount := s.portA }
  else if value = 9 then some { s with transferAddress := s.portA &&& ~~~511 }
  else some s

/-! ## The transfer -/

/-- `DKSSchedule`, without the time it hands back. -/
def dksSchedule (s : Dks D) (id timeslice : Nat) : Dks D :=
  let disk := s.disks id
  if !s.busy id || disk.completing then s
  else if timeslice ≥ disk.operationInterval then s.setDisk id { disk with completing := true }
  else s.setDisk id { disk with operationInterval := disk.operationInterval - timeslice }

variable [EBusDevices D]

/-- `DKSCompleteTransfer` while it does not have the mutex. The bus is told of no
processor. -/
def dksTransfer (s : Dks D) (id : Nat) : Dks D :=
  let disk := s.disks id
  let t := disk.transfer
  match t.ioType with
  | .read =>
      let buffer := disk.fread t.offset t.length
      let reply := eBusWrite s.bus (XrProcessor.zeroed 0) t.address.toNat buffer t.length
      { s with bus := reply.bus }.setDisk id
        { disk with temporaryBuffer := buffer, transferred := true }
  | .write =>
      let reply := eBusRead s.bus (XrProcessor.zeroed 0) t.address.toNat disk.temporaryBuffer t.length
      let buffer := reply.reply.getD disk.temporaryBuffer
      { s with bus := reply.bus }.setDisk id
        ({ disk with temporaryBuffer := buffer, transferred := true }.fwrite t.offset t.length)

/-- The end of `DKSCompleteTransfer`. -/
def dksFinish (s : Dks D) (id : Nat) : Dks D :=
  dksInfo ({ s with
    status := s.status &&& ~~~((1 : Word) <<< id)
    completed := s.completed ||| (1 : Word) <<< id }.setDisk id
      { s.disks id with completing := false, transferred := false })

/-! ## Runs -/

/-- What can happen to the controller: accesses of its ports, its scheduling, the rest of
a transfer, and everything else on the bus. -/
inductive DksOp (D : Type) where
  | writeCmd (value : Word) (interval : Nat)
  | writePortA (value : Word)
  | writePortB (value : Word)
  | schedule (id timeslice : Nat)
  | transfer (id : Nat)
  | finish (id : Nat)
  | reset
  | others (bus : XrStation D)

/-- One step, if it can be taken. A rejected command is one that changes nothing. -/
inductive DksStep : Dks D → DksOp D → Dks D → Prop
  | writeCmd (s : Dks D) (value : Word) (interval : Nat) :
      DksStep s (.writeCmd value interval) ((dksWriteCmd s value interval).getD s)
  | writePortA (s : Dks D) (value : Word) :
      DksStep s (.writePortA value) { s with portA := value }
  | writePortB (s : Dks D) (value : Word) :
      DksStep s (.writePortB value) { s with portB := value }
  | schedule (s : Dks D) (id timeslice : Nat) :
      DksStep s (.schedule id timeslice) (dksSchedule s id timeslice)
  | transfer (s : Dks D) (id : Nat) : (s.disks id).completing = true →
      (s.disks id).transferred = false → DksStep s (.transfer id) (dksTransfer s id)
  | finish (s : Dks D) (id : Nat) : (s.disks id).transferred = true →
      DksStep s (.finish id) (dksFinish s id)
  | reset (s : Dks D) : DksStep s .reset (dksReset s)
  | others (s : Dks D) (bus : XrStation D) : bus.ram.size = s.bus.ram.size →
      DksStep s (.others bus) { s with bus := bus }

/-- The controller as it is started: images attached, registers zero. -/
structure DksStarted (s : Dks D) : Prop where
  disks : ∀ id, s.disks id = .absent ∨ ∃ image length, s.disks id = dksAttachImage image length
  selected : s.selected = none
  status : s.status = 0
  transferCount : s.transferCount = 0
  transferAddress : s.transferAddress = 0

inductive DksReach : Dks D → Prop
  | start {s} : DksStarted s → DksReach s
  | step {s op s'} : DksReach s → DksStep s op s' → DksReach s'

/-- Steps between a command and the transfer it leads to. -/
inductive DksWaits (id : Nat) (s : Dks D) : Dks D → Prop
  | refl : DksWaits id s s
  | step {s₁ op s₂} : DksWaits id s s₁ → op ≠ .transfer id → DksStep s₁ op s₂ →
      DksWaits id s s₂

end

end Xremu
