import Xremu.Devices.DksQueue
import Xremu.Lists.Log

/-!
# A disk is a store

What a guest has of a disk, whatever the threads do: bytes that keep the value that was
written last. A `DiskJob` is a command with the data that it has moved between the image
and RAM, and the jobs of a disk are kept in the order of their transfers, which is that of
their commands. In every run whose transfers stay in one populated RAM slot, each read has
put into RAM what the writes before it left, and the image is what all of them left
(`disk_stores`).
-/

namespace Xremu

/-- A command, and the bytes it has moved. -/
structure DiskJob where
  transfer : DksTransfer
  data : Nat → Byte

namespace DiskJob

/-- The job stores byte `x` of the image. -/
def Stores (job : DiskJob) (x : Nat) : Prop :=
  job.transfer.ioType = .write ∧ job.transfer.imageStart ≤ x ∧
    x < job.transfer.imageStart + job.transfer.bytes

instance (job : DiskJob) (x : Nat) : Decidable (job.Stores x) :=
  inferInstanceAs (Decidable (_ ∧ _))

end DiskJob

/-- What a byte of the image is after these jobs: what was written last, or as it was. -/
def lastWritten (image : Nat → Byte) (jobs : List DiskJob) (x : Nat) : Byte :=
  jobs.foldl (fun v job => if job.Stores x then job.data (x - job.transfer.imageStart) else v)
    (image x)

theorem lastWritten_snoc (image : Nat → Byte) (jobs : List DiskJob) (job : DiskJob) (x : Nat) :
    lastWritten image (jobs ++ [job]) x =
      if job.Stores x then job.data (x - job.transfer.imageStart)
      else lastWritten image jobs x := by
  unfold lastWritten
  rw [List.foldl_append, List.foldl_cons, List.foldl_nil]

/-- Each read has delivered what the writes before it left. -/
def ReadsLastWritten (image : Nat → Byte) (jobs : List DiskJob) : Prop :=
  ∀ before job after, jobs = before ++ job :: after → job.transfer.ioType = .read →
    ∀ k, k < job.transfer.bytes →
      job.data k = lastWritten image before (job.transfer.imageStart + k)

theorem readsLastWritten_nil (image : Nat → Byte) : ReadsLastWritten image [] :=
  fun before _ _ heq => absurd heq (by simp)

theorem ReadsLastWritten.snoc {image : Nat → Byte} {jobs : List DiskJob} {job : DiskJob}
    (h : ReadsLastWritten image jobs)
    (hjob : job.transfer.ioType = .read → ∀ k, k < job.transfer.bytes →
      job.data k = lastWritten image jobs (job.transfer.imageStart + k)) :
    ReadsLastWritten image (jobs ++ [job]) := by
  intro before other after heq hread
  rcases Lists.snoc_split heq with ⟨rfl, rfl, rfl⟩ | ⟨rest, rfl, hrest⟩
  · exact hjob hread
  · exact h before other rest hrest hread

/-! ## Runs -/

section

variable {D : Type} [EBusDevices D]

namespace DksSystem

/-- The transfer that a disk is about to make: a write takes its data from RAM as it is, a
read leaves it there. -/
def job (s : DksSystem D) (id : Nat) : DiskJob :=
  let t := (s.dks.disks id).transfer
  let ram := match t.ioType with
    | .read => (s.transfer id).dks.bus.ram
    | .write => s.dks.bus.ram
  ⟨t, fun k => ramByte ram (t.address.toNat + k)⟩

/-- The states of the interleavings whose transfers stay in RAM, with the jobs of the
disks. -/
inductive StoreRun (s₀ : DksSystem D) : DksSystem D → (Nat → List DiskJob) → Prop where
  | start : StoreRun s₀ s₀ fun _ => []
  | step {s s' : DksSystem D} {jobs : Nat → List DiskJob} {op : DksSystemOp D}
      (run : StoreRun s₀ s jobs) (step : DksSystemStep s op s') (other : ∀ id, op ≠ .transfer id) :
      StoreRun s₀ s' jobs
  | transfer {s : DksSystem D} {jobs : Nat → List DiskJob} {id : Nat} (run : StoreRun s₀ s jobs)
      (thread : s.moving id ≠ 0) (inRam : InRam (s.dks.disks id).transfer s.dks.bus.ram) :
      StoreRun s₀ (s.transfer id) (Function.update jobs id (jobs id ++ [s.job id]))

/-- What the jobs of a disk say of it. -/
structure DiskServed (image : Nat → Byte) (s : DksSystem D) (id : Nat) (jobs : List DiskJob) :
    Prop where
  /-- The image is what the writes left. -/
  contents : ∀ x, (s.dks.disks id).image x = lastWritten image jobs x
  reads : ReadsLastWritten image jobs
  /-- The jobs are the accepted commands in their order, but for the one outstanding. -/
  order : s.accepted id = jobs.map (·.transfer) ++ s.outstanding id

/-- What every run keeps. -/
structure StoreInv (s₀ s : DksSystem D) (jobs : Nat → List DiskJob) : Prop where
  reach : s.Reach
  performed : ∀ id, s.performed id = (jobs id).map (·.transfer)
  image : ∀ id x, (s.dks.disks id).image x = lastWritten (s₀.dks.disks id).image (jobs id) x
  reads : ∀ id, ReadsLastWritten (s₀.dks.disks id).image (jobs id)

variable {s₀ s : DksSystem D} {jobs : Nat → List DiskJob} {id : Nat}

/-- Every other step leaves the images alone. -/
theorem StoreInv.step {s' : DksSystem D} {op : DksSystemOp D} (h : StoreInv s₀ s jobs)
    (hstep : DksSystemStep s op s') (hother : ∀ id, op ≠ .transfer id) :
    StoreInv s₀ s' jobs := by
  obtain ⟨hdks, hlaw⟩ := lawful_reach h.reach
  have hkeeps := (keepsDisks_step hdks hlaw hstep).untouched
  refine ⟨h.reach.step hstep, ?_, ?_, h.reads⟩
  · intro id
    rw [(hkeeps id (hother id)).2.2]
    exact h.performed id
  · intro id x
    rw [(hkeeps id (hother id)).1]
    exact h.image id x

/-- A faithful transfer stores its job in the image. -/
theorem image_job (h : TransferFaithful (s.dks.disks id).transfer id s.dks (s.transfer id).dks)
    (x : Nat) : ((s.transfer id).dks.disks id).image x =
      if (s.job id).Stores x then (s.job id).data (x - (s.job id).transfer.imageStart)
      else (s.dks.disks id).image x := by
  by_cases hstores : (s.job id).Stores x
  · obtain ⟨hwrite, hle, hlt⟩ := hstores
    obtain ⟨k, rfl⟩ := Nat.exists_eq_add_of_le hle
    have hmoved := h.moved k (Nat.lt_of_add_lt_add_left hlt)
    have hwrite' : (s.dks.disks id).transfer.ioType = .write := hwrite
    rw [if_pos ⟨hwrite, hle, hlt⟩, Nat.add_sub_cancel_left]
    simp only [hwrite'] at hmoved
    simp only [job, hwrite']
    exact hmoved
  · rw [if_neg hstores]
    refine h.image x ?_
    by_contra hcase
    rw [not_or, not_not] at hcase
    refine hstores ⟨?_, hcase.2⟩
    show (s.dks.disks id).transfer.ioType = .write
    cases hio : (s.dks.disks id).transfer.ioType with
    | read => exact absurd hio hcase.1
    | write => rfl

/-- A faithful transfer that reads has put the image into RAM. -/
theorem data_job (h : TransferFaithful (s.dks.disks id).transfer id s.dks (s.transfer id).dks)
    (hread : (s.job id).transfer.ioType = .read) {k : Nat} (hk : k < (s.job id).transfer.bytes) :
    (s.job id).data k = (s.dks.disks id).image ((s.job id).transfer.imageStart + k) := by
  have hread' : (s.dks.disks id).transfer.ioType = .read := hread
  have hmoved := h.moved k hk
  simp only [hread'] at hmoved
  simp only [job, hread']
  exact hmoved

/-- The transfer of a disk is the job that it was about to make. -/
theorem StoreInv.transfer (h : StoreInv s₀ s jobs) (hthread : s.moving id ≠ 0)
    (hin : InRam (s.dks.disks id).transfer s.dks.bus.ram) :
    StoreInv s₀ (s.transfer id) (Function.update jobs id (jobs id ++ [s.job id])) := by
  obtain ⟨hdks, hlaw⟩ := lawful_reach h.reach
  have hp := pending_moving hdks (hlaw id) hthread
  have hfaithful : TransferFaithful (s.dks.disks id).transfer id s.dks (dksTransfer s.dks id) :=
    hp.faithful_within hin.within hin.populated
  -- Of another disk nothing has changed.
  have hthis : ∀ (P : Nat → Prop), P id → (∀ j, j ≠ id → P j) → ∀ j, P j := by
    intro P hid hne j
    by_cases hj : j = id
    · exact hj ▸ hid
    · exact hne j hj
  refine ⟨h.reach.step (.transfer id hthread), hthis _ ?_ ?_, hthis _ ?_ ?_, hthis _ ?_ ?_⟩
  · show Function.update s.performed id _ id = _
    rw [Function.update_self, Function.update_self, h.performed, List.map_append]
    rfl
  · intro j hj
    show Function.update s.performed id _ j = _
    rw [Function.update_of_ne hj, Function.update_of_ne hj, h.performed]
  · intro x
    rw [Function.update_self, lastWritten_snoc, ← h.image]
    exact image_job hfaithful x
  · intro j hj x
    rw [Function.update_of_ne hj, ← h.image]
    exact congrFun (hfaithful.others j hj) x
  · rw [Function.update_self]
    refine (h.reads id).snoc fun hread k hk => ?_
    rw [← h.image]
    exact data_job hfaithful hread hk
  · intro j hj
    rw [Function.update_of_ne hj]
    exact h.reads j

theorem StoreRun.inv (hstarted : DksStarted s₀.dks) (hreach : s₀ = .start s₀.dks)
    (run : StoreRun s₀ s jobs) : StoreInv s₀ s jobs := by
  induction run with
  | start =>
      refine ⟨?_, fun id => ?_, fun _ _ => rfl, fun _ => readsLastWritten_nil _⟩
      · rw [hreach]
        exact .start hstarted
      · rw [hreach]
        rfl
  | step run step other ih => exact ih.step step other
  | transfer run thread inRam ih => exact ih.transfer thread inRam

/-- In every interleaving whose transfers stay in RAM, a disk is a store: each read delivers
what was written last, and so does the image. -/
theorem disk_stores {dks : Dks D} (hstarted : DksStarted dks)
    (run : StoreRun (.start dks) s jobs) (id : Nat) :
    DiskServed (dks.disks id).image s id (jobs id) := by
  have hinv := run.inv hstarted rfl
  refine ⟨hinv.image id, hinv.reads id, ?_⟩
  rw [← hinv.performed id]
  exact ((lawful_reach hinv.reach).2 id).once

end DksSystem

end

/-! ## A sector written and read back -/

open DksSystem

theorem DksSystem.StoreRun.ports {s₀ s : DksSystem Unit} {jobs : Nat → List DiskJob}
    (run : StoreRun s₀ s jobs) (portA value : Word) (interval : Nat) :
    StoreRun s₀ (dksSystemPorts s portA value interval) jobs :=
  .step (.step run (.writePortA portA) fun _ => nofun) (.writeCmd value interval) fun _ => nofun

theorem inRam_sample {address : Word} {ioType : DksIoType} {ram : RamSlots}
    (hsize : ram.size = diskSample.bus.ram.size) (haddress : address.toNat < 0x4000) :
    InRam ⟨ioType, address, 5, 2⟩ ram := by
  have hbytes : (⟨ioType, address, 5, 2⟩ : DksTransfer).bytes = 1024 := rfl
  obtain ⟨hbranch, hmax, hslot, hrom, hslots⟩ := memoryMap
  have hwithin : WithinSlot address.toNat 1024 := by
    rw [withinSlot_iff]
    omega
  have hpopulated : ∀ k, k < 1024 → RamPopulated ram (address.toNat + k) := by
    intro k hk
    refine ⟨by omega, ?_⟩
    have hlow : ramSlotOf (address.toNat + k) = 0 := by
      unfold ramSlotOf
      omega
    have hramSize : ram.size 0 = ramSlotSize := by rw [hsize]; rfl
    rw [hlow, hramSize]
    unfold ramOffsetOf
    omega
  exact ⟨hbytes ▸ hwithin, hbytes ▸ hpopulated⟩

/-- Two sectors from 0x1000 to sector 5 of drive 0, and from there to 0x3000. -/
theorem disk_stores_readBack : ∃ s jobs, StoreRun (.start diskSample) s jobs ∧
    (jobs 0).map (·.transfer) = [⟨.write, 0x1000, 5, 2⟩, ⟨.read, 0x3000, 5, 2⟩] ∧
    DiskServed (diskSample.disks 0).image s 0 (jobs 0) := by
  have hstart : DksStarted diskSample := ⟨diskSample_disks, rfl, rfl, rfl, rfl⟩
  have hbegin : StoreRun (.start diskSample) (.start diskSample) fun _ => [] := .start
  have hstored := (((hbegin.ports 0 1 0).ports 2 8 0).ports 0x1000 9 0).ports 5 3 0
  have hthread : ∀ s : DksSystem Unit, s.moving 0 = 1 → s.moving 0 ≠ 0 := by
    intro s hone
    rw [hone]
    decide
  have hwrite := hstored.transfer (hthread _ rfl) (inRam_sample rfl (by decide))
  have hfinished := hwrite.step (.finish 0 (by decide)) fun _ => nofun
  have hread := (hfinished.ports 0x3000 9 0).ports 5 2 0
  have hback := hread.transfer (hthread _ rfl) (inRam_sample rfl (by decide))
  exact ⟨_, _, hback, rfl, disk_stores hstart hback 0⟩

end Xremu
