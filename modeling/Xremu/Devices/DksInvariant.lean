import Xremu.Devices.Dks

/-!
# The disk controller: invariants

`dksStep_cases` says what a step can do: accept a command, move the data of one, end
one, or something that no disk notices. `DksInv` holds of every state reached, and
`Pending` from the moment a command is accepted to the moment its data is moved,
whatever else happens.
-/

namespace Xremu

section

variable {D : Type}

/-! ## The controller -/

structure DksInv (s : Dks D) : Prop where
  selected : ∀ id, s.selected = some id → id < dksDisks
  count : s.transferCount.toNat ≤ 8
  sectors : ∀ id, (s.disks id).sectorCount.toNat * 512 < 0x100000000 ∧
    (s.disks id).sectorCount.toNat * 512 ≤ (s.disks id).imageLength
  working : ∀ id, (s.disks id).completing = true ∨ (s.disks id).transferred = true →
    s.busy id = true

/-- Command `t` was accepted for the disk, and its data has not been moved yet. -/
structure Pending (s : Dks D) (id : Nat) (t : DksTransfer) : Prop where
  busy : s.busy id = true
  transfer : (s.disks id).transfer = t
  transferred : (s.disks id).transferred = false
  count : t.count.toNat ≤ 8
  sectors : (t.sector.toNat + t.count.toNat) * 512 < 0x100000000 ∧
    (t.sector.toNat + t.count.toNat) * 512 ≤ (s.disks id).imageLength

/-- Nothing a step does to a disk makes it smaller. -/
structure SameGeometry (d d' : DksDisk) : Prop where
  sectorCount : d'.sectorCount = d.sectorCount
  imageLength : d.imageLength ≤ d'.imageLength

theorem SameGeometry.refl (d : DksDisk) : SameGeometry d d := ⟨rfl, Nat.le_refl _⟩

/-- What an accepted command was checked for, and what it does. -/
structure Dispatched (s : Dks D) (ioType : DksIoType) (id : Nat) (s' : Dks D) : Prop where
  selected : s.selected = some id
  noOverflow : ¬s.portA + s.transferCount < s.portA
  inside : s.portA + s.transferCount < (s.disks id).sectorCount
  idle : s.busy id = false
  result : ∃ interval completing,
    s' = { s with status := s.status ||| (1 : Word) <<< id }.setDisk id
      { s.disks id with
        transfer := ⟨ioType, s.transferAddress, s.portA, s.transferCount⟩
        operationInterval := interval, completing := completing }

theorem dksDispatchIo_dispatched {s s' : Dks D} {ioType : DksIoType} {interval : Nat}
    (h : dksDispatchIo s ioType interval = some s') : ∃ id, Dispatched s ioType id s' := by
  unfold dksDispatchIo at h
  split at h
  · cases h
  · rename_i id hsel
    extract_lets disk operationInterval disk' at h
    by_cases hover : s.portA + s.transferCount < s.portA
    · rw [if_pos hover] at h
      cases h
    rw [if_neg hover] at h
    by_cases hin : s.portA + s.transferCount ≥ disk.sectorCount
    · rw [if_pos hin] at h
      cases h
    rw [if_neg hin] at h
    by_cases hbusy : s.busy id = true
    · rw [if_pos hbusy] at h
      cases h
    rw [if_neg hbusy] at h
    refine ⟨id, hsel, hover, BitVec.not_le.mp hin, Bool.eq_false_iff.mpr hbusy, ?_⟩
    exact ⟨operationInterval, _, (Option.some.inj h).symm⟩

/-- What a disk keeps in a step that moves no data. -/
structure DiskQuiet (d d' : DksDisk) : Prop where
  transfer : d'.transfer = d.transfer
  transferred : d'.transferred = d.transferred
  sectorCount : d'.sectorCount = d.sectorCount
  imageLength : d'.imageLength = d.imageLength

theorem DiskQuiet.refl (d : DksDisk) : DiskQuiet d d := ⟨rfl, rfl, rfl, rfl⟩

/-- A step that neither accepts a command nor has to do with a transfer. -/
structure Quiet (s s' : Dks D) : Prop where
  disks : ∀ id, DiskQuiet (s.disks id) (s'.disks id)
  completing : ∀ id, (s'.disks id).completing = true →
    (s.disks id).completing = true ∨ s.busy id = true
  status : s'.status = s.status
  selected : ∀ id, s'.selected = some id → s.selected = some id ∨ id < dksDisks
  count : s'.transferCount = s.transferCount ∨ s'.transferCount.toNat ≤ 8
  size : s'.bus.ram.size = s.bus.ram.size

/-- A step on registers that hold no promise. -/
theorem quiet_of_eq {s s' : Dks D} (hdisks : s'.disks = s.disks) (hstatus : s'.status = s.status)
    (hsel : s'.selected = s.selected) (hcount : s'.transferCount = s.transferCount)
    (hsize : s'.bus.ram.size = s.bus.ram.size) : Quiet s s' := by
  constructor
  · intro id
    rw [hdisks]
    exact DiskQuiet.refl _
  · intro id h
    rw [hdisks] at h
    exact Or.inl h
  · exact hstatus
  · intro id h
    exact Or.inl (hsel ▸ h)
  · exact Or.inl hcount
  · exact hsize

theorem dksWriteCmd_cases {s s' : Dks D} {value : Word} {interval : Nat}
    (h : dksWriteCmd s value interval = some s') :
    (∃ ioType id, Dispatched s ioType id s') ∨ Quiet s s' := by
  unfold dksWriteCmd at h
  by_cases h1 : value = 1
  · rw [if_pos h1] at h
    obtain rfl := Option.some.inj h
    refine Or.inr ⟨fun _ => DiskQuiet.refl _, fun _ hc => Or.inl hc, rfl, ?_, Or.inl rfl, rfl⟩
    intro id (hid : (if s.attached s.portA then some s.portA.toNat else none) = some id)
    split at hid
    · rename_i hatt
      exact Or.inr (Option.some.inj hid ▸ Dks.attached_lt hatt)
    · cases hid
  rw [if_neg h1] at h
  by_cases h2 : value = 2
  · rw [if_pos h2] at h
    exact Or.inl ⟨.read, dksDispatchIo_dispatched h⟩
  rw [if_neg h2] at h
  by_cases h3 : value = 3
  · rw [if_pos h3] at h
    exact Or.inl ⟨.write, dksDispatchIo_dispatched h⟩
  rw [if_neg h3] at h
  right
  by_cases h4 : value = 4
  · rw [if_pos h4] at h
    obtain rfl := Option.some.inj h
    exact quiet_of_eq rfl rfl rfl rfl rfl
  rw [if_neg h4] at h
  by_cases h5 : value = 5
  · rw [if_pos h5] at h
    split at h
    · obtain rfl := Option.some.inj h
      exact quiet_of_eq rfl rfl rfl rfl rfl
    · obtain rfl := Option.some.inj h
      exact quiet_of_eq rfl rfl rfl rfl rfl
  rw [if_neg h5] at h
  by_cases h6 : value = 6
  · rw [if_pos h6] at h
    obtain rfl := Option.some.inj h
    exact quiet_of_eq rfl rfl rfl rfl rfl
  rw [if_neg h6] at h
  by_cases h7 : value = 7
  · rw [if_pos h7] at h
    obtain rfl := Option.some.inj h
    exact quiet_of_eq rfl rfl rfl rfl rfl
  rw [if_neg h7] at h
  by_cases h8 : value = 8
  · rw [if_pos h8] at h
    split at h
    · cases h
    · rename_i hcount
      obtain rfl := Option.some.inj h
      rw [not_or] at hcount
      have hle : s.portA.toNat ≤ (8 : Word).toNat := BitVec.not_lt.mp hcount.2
      exact ⟨fun _ => DiskQuiet.refl _, fun _ hc => Or.inl hc, rfl,
        fun _ hid => Or.inl hid, Or.inr hle, rfl⟩
  rw [if_neg h8] at h
  by_cases h9 : value = 9
  · rw [if_pos h9] at h
    obtain rfl := Option.some.inj h
    exact quiet_of_eq rfl rfl rfl rfl rfl
  · rw [if_neg h9] at h
    obtain rfl := Option.some.inj h
    exact quiet_of_eq rfl rfl rfl rfl rfl

theorem dksSchedule_quiet (s : Dks D) (id timeslice : Nat) : Quiet s (dksSchedule s id timeslice) := by
  unfold dksSchedule
  extract_lets disk
  by_cases hoff : (!s.busy id || disk.completing) = true
  · rw [if_pos hoff]
    exact quiet_of_eq rfl rfl rfl rfl rfl
  rw [if_neg hoff]
  have hbusy : s.busy id = true := by
    simp only [Bool.or_eq_true, Bool.not_eq_true', not_or, Bool.not_eq_false] at hoff
    exact hoff.1
  have hone : ∀ d, DiskQuiet (s.disks id) d → Quiet s (s.setDisk id d) := by
    intro d hd
    refine ⟨?_, ?_, rfl, fun _ hid => Or.inl hid, Or.inl rfl, rfl⟩
    · intro j
      rw [Dks.setDisk_disks]
      by_cases hj : j = id
      · rw [if_pos hj, hj]
        exact hd
      · rw [if_neg hj]
        exact DiskQuiet.refl _
    · intro j hj
      rw [Dks.setDisk_disks] at hj
      by_cases hid : j = id
      · rw [hid]
        exact Or.inr hbusy
      · rw [if_neg hid] at hj
        exact Or.inl hj
  split
  · exact hone _ ⟨rfl, rfl, rfl, rfl⟩
  · exact hone _ ⟨rfl, rfl, rfl, rfl⟩

theorem dksInfo_disks (s : Dks D) : (dksInfo s).disks = s.disks := by
  unfold dksInfo
  split <;> rfl

theorem dksInfo_status (s : Dks D) : (dksInfo s).status = s.status := by
  unfold dksInfo
  split <;> rfl

theorem dksInfo_selected (s : Dks D) : (dksInfo s).selected = s.selected := by
  unfold dksInfo
  split <;> rfl

theorem dksInfo_transferCount (s : Dks D) : (dksInfo s).transferCount = s.transferCount := by
  unfold dksInfo
  split <;> rfl

theorem dksInfo_size (s : Dks D) : (dksInfo s).bus.ram.size = s.bus.ram.size := by
  unfold dksInfo
  split <;> rfl

theorem dksFinish_disks (s : Dks D) (id j : Nat) :
    (dksFinish s id).disks j =
      if j = id then { s.disks id with completing := false, transferred := false }
      else s.disks j := by
  rw [dksFinish, dksInfo_disks, Dks.setDisk_disks]

theorem dksFinish_busy {s : Dks D} {id j : Nat} (hj : j ≠ id) :
    (dksFinish s id).busy j = s.busy j := by
  have hstatus : (dksFinish s id).status = s.status &&& ~~~((1 : Word) <<< id) := by
    rw [dksFinish, dksInfo_status]
    rfl
  unfold Dks.busy
  rw [hstatus, BitVec.getLsbD_and, BitVec.getLsbD_not]
  by_cases hlt : j < 32
  · rw [bit_getLsbD id j hlt]
    simp [hlt, hj]
  · rw [BitVec.getLsbD_of_ge _ j (Nat.le_of_not_lt hlt)]
    simp

/-! ### The invariant -/

theorem dksInv_of_geometry {s s' : Dks D} (h : DksInv s)
    (hsel : ∀ id, s'.selected = some id → s.selected = some id ∨ id < dksDisks)
    (hcount : s'.transferCount = s.transferCount ∨ s'.transferCount.toNat ≤ 8)
    (hgeo : ∀ id, SameGeometry (s.disks id) (s'.disks id))
    (hwork : ∀ id, (s'.disks id).completing = true ∨ (s'.disks id).transferred = true →
      s'.busy id = true) : DksInv s' := by
  constructor
  · intro id hid
    rcases hsel id hid with hold | hlt
    · exact h.selected id hold
    · exact hlt
  · rcases hcount with heq | hle
    · rw [heq]
      exact h.count
    · exact hle
  · intro id
    obtain ⟨h32, hlen⟩ := h.sectors id
    rw [(hgeo id).sectorCount]
    exact ⟨h32, Nat.le_trans hlen (hgeo id).imageLength⟩
  · exact hwork

theorem Quiet.inv {s s' : Dks D} (hq : Quiet s s') (h : DksInv s) : DksInv s' := by
  refine dksInv_of_geometry h hq.selected hq.count ?_ ?_
  · intro id
    exact ⟨(hq.disks id).sectorCount, Nat.le_of_eq (hq.disks id).imageLength.symm⟩
  · intro id hwork
    have hbusy : s'.busy id = s.busy id := congrArg (·.getLsbD id) hq.status
    rw [hbusy]
    rcases hwork with hc | ht
    · rcases hq.completing id hc with hold | hb
      · exact h.working id (Or.inl hold)
      · exact hb
    · rw [(hq.disks id).transferred] at ht
      exact h.working id (Or.inr ht)

/-- Setting a bit of the status leaves those that are set. -/
theorem Dispatched.busy {s s' : Dks D} {ioType : DksIoType} {id : Nat}
    (hd : Dispatched s ioType id s') (hid : id < dksDisks) (j : Nat) :
    s'.busy j = (s.busy j || decide (j = id)) := by
  obtain ⟨interval, completing, rfl⟩ := hd.result
  show (s.status ||| (1 : Word) <<< id).getLsbD j = (s.status.getLsbD j || decide (j = id))
  rw [BitVec.getLsbD_or]
  by_cases hj : j < 32
  · rw [bit_getLsbD id j hj]
  · have hne : j ≠ id := by
      rintro rfl
      exact hj (Nat.lt_trans hid (by decide))
    rw [BitVec.getLsbD_of_ge _ j (Nat.le_of_not_lt hj),
      BitVec.getLsbD_of_ge _ j (Nat.le_of_not_lt hj)]
    simp [hne]

theorem Dispatched.inv {s s' : Dks D} {ioType : DksIoType} {id : Nat}
    (hd : Dispatched s ioType id s') (h : DksInv s) : DksInv s' := by
  have hbusy := hd.busy (h.selected id hd.selected)
  obtain ⟨interval, completing, rfl⟩ := hd.result
  refine dksInv_of_geometry h (fun _ hid => Or.inl hid) (Or.inl rfl) ?_ ?_
  · intro j
    rw [Dks.setDisk_disks]
    by_cases hj : j = id
    · subst hj
      rw [if_pos rfl]
      exact ⟨rfl, Nat.le_refl _⟩
    · rw [if_neg hj]
      exact SameGeometry.refl _
  · intro j hwork
    rw [hbusy]
    by_cases hj : j = id
    · simp [hj]
    · rw [Dks.setDisk_disks, if_neg hj] at hwork
      simp [h.working j hwork]

theorem Dispatched.pending {s s' : Dks D} {ioType : DksIoType} {id : Nat}
    (hd : Dispatched s ioType id s') (h : DksInv s) :
    Pending s' id ⟨ioType, s.transferAddress, s.portA, s.transferCount⟩ := by
  have hbusy := hd.busy (h.selected id hd.selected) id
  have hidle : (s.disks id).transferred = false := by
    apply Bool.eq_false_iff.mpr
    intro ht
    have hb := h.working id (Or.inr ht)
    rw [hd.idle] at hb
    cases hb
  obtain ⟨h32, hlen⟩ := h.sectors id
  have hsum : s.portA.toNat + s.transferCount.toNat < (s.disks id).sectorCount.toNat := by
    have hover := hd.noOverflow
    have hin := hd.inside
    rw [BitVec.lt_def, BitVec.toNat_add] at hover hin
    have hcount := h.count
    have hport := s.portA.isLt
    omega
  have hle := Nat.mul_le_mul_right 512 (Nat.le_of_lt hsum)
  have hlim := Nat.lt_of_le_of_lt hle h32
  have hfile := Nat.le_trans hle hlen
  obtain ⟨interval, completing, rfl⟩ := hd.result
  constructor
  · rw [hbusy]
    simp
  · rw [Dks.setDisk_disks, if_pos rfl]
  · rw [Dks.setDisk_disks, if_pos rfl]
    exact hidle
  · exact h.count
  · rw [Dks.setDisk_disks, if_pos rfl]
    exact ⟨hlim, hfile⟩

theorem dksFinish_inv {s : Dks D} (h : DksInv s) (id : Nat) : DksInv (dksFinish s id) := by
  refine dksInv_of_geometry h ?_ (Or.inl (dksInfo_transferCount _)) ?_ ?_
  · intro j hj
    rw [dksFinish, dksInfo_selected] at hj
    exact Or.inl hj
  · intro j
    rw [dksFinish_disks]
    by_cases hj : j = id
    · subst hj
      rw [if_pos rfl]
      exact ⟨rfl, Nat.le_refl _⟩
    · rw [if_neg hj]
      exact SameGeometry.refl _
  · intro j hwork
    rw [dksFinish_disks] at hwork
    by_cases hj : j = id
    · rw [if_pos hj] at hwork
      rcases hwork with hc | ht
      · cases hc
      · cases ht
    · rw [if_neg hj] at hwork
      rw [dksFinish_busy hj]
      exact h.working j hwork

variable [EBusDevices D]

/-- Everything a step can do. -/
theorem dksStep_cases {s s' : Dks D} {op : DksOp D} (h : DksStep s op s') :
    Quiet s s' ∨ (∃ ioType id, Dispatched s ioType id s') ∨
    (∃ id, op = .transfer id ∧ (s.disks id).completing = true ∧ s' = dksTransfer s id) ∨
    (∃ id, (s.disks id).transferred = true ∧ s' = dksFinish s id) := by
  cases h with
  | writeCmd value interval =>
      cases hcmd : dksWriteCmd s value interval with
      | none => exact Or.inl (quiet_of_eq rfl rfl rfl rfl rfl)
      | some s₁ =>
          rcases dksWriteCmd_cases hcmd with hd | hq
          · exact Or.inr (Or.inl hd)
          · exact Or.inl hq
  | writePortA value => exact Or.inl (quiet_of_eq rfl rfl rfl rfl rfl)
  | writePortB value => exact Or.inl (quiet_of_eq rfl rfl rfl rfl rfl)
  | schedule id timeslice => exact Or.inl (dksSchedule_quiet s id timeslice)
  | transfer id hc _ => exact Or.inr (Or.inr (Or.inl ⟨id, rfl, hc, rfl⟩))
  | finish id htr => exact Or.inr (Or.inr (Or.inr ⟨id, htr, rfl⟩))
  | reset =>
      have hcount : (0 : Word).toNat ≤ 8 := by decide
      refine Or.inl ⟨fun _ => DiskQuiet.refl _, fun _ hc => Or.inl hc, rfl, ?_, Or.inr hcount, rfl⟩
      intro id hid
      cases hid
  | others bus hsize => exact Or.inl (quiet_of_eq rfl rfl rfl rfl hsize)

theorem dksTransfer_selected (s : Dks D) (id : Nat) : (dksTransfer s id).selected = s.selected := by
  unfold dksTransfer
  extract_lets disk t
  split <;> rfl

theorem dksTransfer_transferCount (s : Dks D) (id : Nat) :
    (dksTransfer s id).transferCount = s.transferCount := by
  unfold dksTransfer
  extract_lets disk t
  split <;> rfl

theorem dksTransfer_status (s : Dks D) (id : Nat) : (dksTransfer s id).status = s.status := by
  unfold dksTransfer
  extract_lets disk t
  split <;> rfl

theorem dksTransfer_other (s : Dks D) {id j : Nat} (h : j ≠ id) :
    (dksTransfer s id).disks j = s.disks j := by
  unfold dksTransfer
  extract_lets disk t
  split
  · rw [Dks.setDisk_disks, if_neg h]
  · rw [Dks.setDisk_disks, if_neg h]

theorem dksTransfer_geometry (s : Dks D) (id j : Nat) :
    SameGeometry (s.disks j) ((dksTransfer s id).disks j) := by
  by_cases hj : j = id
  · subst hj
    unfold dksTransfer
    extract_lets disk t
    split
    · rw [Dks.setDisk_disks, if_pos rfl]
      exact ⟨rfl, Nat.le_refl _⟩
    · rw [Dks.setDisk_disks, if_pos rfl]
      exact ⟨rfl, Nat.le_max_left _ _⟩
  · rw [dksTransfer_other s hj]
    exact SameGeometry.refl _

theorem dksTransfer_inv {s : Dks D} (h : DksInv s) {id : Nat}
    (hc : (s.disks id).completing = true) : DksInv (dksTransfer s id) := by
  refine dksInv_of_geometry h ?_ (Or.inl (dksTransfer_transferCount s id))
    (dksTransfer_geometry s id) ?_
  · intro j hj
    rw [dksTransfer_selected] at hj
    exact Or.inl hj
  · intro j hwork
    have hbusy : (dksTransfer s id).busy j = s.busy j :=
      congrArg (·.getLsbD j) (dksTransfer_status s id)
    rw [hbusy]
    by_cases hj : j = id
    · rw [hj]
      exact h.working id (Or.inl hc)
    · rw [dksTransfer_other s hj] at hwork
      exact h.working j hwork

theorem dksInv_step {s s' : Dks D} {op : DksOp D} (h : DksInv s) (hstep : DksStep s op s') :
    DksInv s' := by
  rcases dksStep_cases hstep with hq | ⟨ioType, id, hd⟩ | ⟨id, _, hc, rfl⟩ | ⟨id, _, rfl⟩
  · exact hq.inv h
  · exact hd.inv h
  · exact dksTransfer_inv h hc
  · exact dksFinish_inv h id

theorem dksInv_reach {s : Dks D} (h : DksReach s) : DksInv s := by
  induction h with
  | start hstart =>
      constructor
      · intro id hid
        rw [hstart.selected] at hid
        cases hid
      · rw [hstart.transferCount]
        decide
      · intro id
        have h512 : (512 : Word).toNat = 512 := rfl
        rcases hstart.disks id with hnone | ⟨image, length, himg⟩
        · rw [hnone]
          decide
        · rw [himg]
          simp only [dksAttachImage, BitVec.toNat_udiv, BitVec.toNat_ofNat, h512]
          omega
      · intro id hwork
        rcases hstart.disks id with hnone | ⟨image, length, himg⟩
        · rw [hnone] at hwork
          rcases hwork with hc | ht
          · cases hc
          · cases ht
        · rw [himg] at hwork
          rcases hwork with hc | ht
          · cases hc
          · cases ht
  | step _ hstep ih => exact dksInv_step ih hstep

/-! ### A command and its transfer -/

/-- Nothing but its transfer makes a disk forget a command. -/
theorem Pending.step {s s' : Dks D} {op : DksOp D} {id : Nat} {t : DksTransfer} (h : DksInv s)
    (hp : Pending s id t) (hop : op ≠ .transfer id) (hstep : DksStep s op s') : Pending s' id t := by
  rcases dksStep_cases hstep with hq | ⟨ioType, j, hd⟩ | ⟨j, rfl, _, rfl⟩ | ⟨j, htr, rfl⟩
  · refine ⟨?_, ?_, ?_, hp.count, hp.sectors.1, ?_⟩
    · have hbusy : s'.busy id = s.busy id := congrArg (·.getLsbD id) hq.status
      rw [hbusy]
      exact hp.busy
    · rw [(hq.disks id).transfer]
      exact hp.transfer
    · rw [(hq.disks id).transferred]
      exact hp.transferred
    · rw [(hq.disks id).imageLength]
      exact hp.sectors.2
  · -- A command for a busy disk is rejected.
    have hne : id ≠ j := by
      rintro rfl
      have hb := hp.busy
      rw [hd.idle] at hb
      cases hb
    have hbusy := hd.busy (h.selected j hd.selected) id
    obtain ⟨interval, completing, rfl⟩ := hd.result
    refine ⟨?_, ?_, ?_, hp.count, hp.sectors.1, ?_⟩
    · rw [hbusy, hp.busy]
      rfl
    · rw [Dks.setDisk_disks, if_neg hne]
      exact hp.transfer
    · rw [Dks.setDisk_disks, if_neg hne]
      exact hp.transferred
    · rw [Dks.setDisk_disks, if_neg hne]
      exact hp.sectors.2
  · have hne : id ≠ j := by
      rintro rfl
      exact hop rfl
    have hbusy : (dksTransfer s j).busy id = s.busy id :=
      congrArg (·.getLsbD id) (dksTransfer_status s j)
    refine ⟨?_, ?_, ?_, hp.count, hp.sectors.1, ?_⟩
    · rw [hbusy]
      exact hp.busy
    · rw [dksTransfer_other s hne]
      exact hp.transfer
    · rw [dksTransfer_other s hne]
      exact hp.transferred
    · rw [dksTransfer_other s hne]
      exact hp.sectors.2
  · have hne : id ≠ j := by
      rintro rfl
      have hf := hp.transferred
      rw [htr] at hf
      cases hf
    refine ⟨?_, ?_, ?_, hp.count, hp.sectors.1, ?_⟩
    · rw [dksFinish_busy hne]
      exact hp.busy
    · rw [dksFinish_disks, if_neg hne]
      exact hp.transfer
    · rw [dksFinish_disks, if_neg hne]
      exact hp.transferred
    · rw [dksFinish_disks, if_neg hne]
      exact hp.sectors.2

theorem DksWaits.inv {s s' : Dks D} {id : Nat} (h : DksInv s) (run : DksWaits id s s') :
    DksInv s' := by
  induction run with
  | refl => exact h
  | step _ _ hstep ih => exact dksInv_step ih hstep

theorem DksWaits.pending {s s' : Dks D} {id : Nat} {t : DksTransfer} (h : DksInv s)
    (hp : Pending s id t) (run : DksWaits id s s') : Pending s' id t := by
  induction run with
  | refl => exact hp
  | step hrun hop hstep ih => exact ih.step (hrun.inv h) hop hstep

/-! ### The command a disk waits for -/

omit [EBusDevices D] in
theorem Dks.busy_lt {s : Dks D} {id : Nat} (hbusy : s.busy id = true) : id < 32 := by
  by_contra hge
  unfold Dks.busy at hbusy
  rw [BitVec.getLsbD_of_ge _ id (Nat.le_of_not_lt hge)] at hbusy
  cases hbusy

omit [EBusDevices D] in
theorem dksFinish_idle {s : Dks D} {id : Nat} (hlt : id < 32) : (dksFinish s id).busy id = false := by
  have hstatus : (dksFinish s id).status = s.status &&& ~~~((1 : Word) <<< id) := by
    rw [dksFinish, dksInfo_status]
    rfl
  unfold Dks.busy
  rw [hstatus, BitVec.getLsbD_and, BitVec.getLsbD_not, bit_getLsbD id id hlt]
  simp

theorem dksTransfer_disk (s : Dks D) (id : Nat) :
    ((dksTransfer s id).disks id).completing = (s.disks id).completing ∧
      ((dksTransfer s id).disks id).transferred = true := by
  unfold dksTransfer
  extract_lets disk t
  split
  · rw [Dks.setDisk_disks, if_pos rfl]
    exact ⟨rfl, rfl⟩
  · rw [Dks.setDisk_disks, if_pos rfl]
    exact ⟨rfl, rfl⟩

/-- A busy disk whose data has not been moved has a command to move it by. -/
def AllPending (s : Dks D) : Prop :=
  ∀ id, s.busy id = true → (s.disks id).transferred = false → Pending s id (s.disks id).transfer

omit [EBusDevices D] in
theorem DksStarted.allPending {s : Dks D} (h : DksStarted s) : AllPending s := by
  intro id hbusy
  have hidle : s.busy id = false := by
    unfold Dks.busy
    rw [h.status]
    exact BitVec.getLsbD_zero
  exact nomatch hidle.symm.trans hbusy

/-- A disk is given a command and is busy from then on, or keeps the one it has. -/
theorem allPending_step {s s' : Dks D} {op : DksOp D} (hinv : DksInv s) (h : AllPending s)
    (hstep : DksStep s op s') : AllPending s' := by
  intro id hbusy htransferred
  by_cases hbefore : s.busy id = true ∧ (s.disks id).transferred = false
  · have hp := h id hbefore.1 hbefore.2
    have hop : op ≠ .transfer id := by
      rintro rfl
      cases hstep
      rw [(dksTransfer_disk s id).2] at htransferred
      cases htransferred
    have hp' := hp.step hinv hop hstep
    rw [hp'.transfer]
    exact hp'
  · -- It was idle, or its data had been moved.
    rcases dksStep_cases hstep with hq | ⟨ioType, j, hd⟩ | ⟨j, _, hc, rfl⟩ | ⟨j, htr, rfl⟩
    · have hbusy' : s'.busy id = s.busy id := congrArg (·.getLsbD id) hq.status
      rw [hbusy'] at hbusy
      rw [(hq.disks id).transferred] at htransferred
      exact absurd ⟨hbusy, htransferred⟩ hbefore
    · by_cases hj : id = j
      · subst hj
        have hp' := hd.pending hinv
        rw [hp'.transfer]
        exact hp'
      · rw [hd.busy (hinv.selected j hd.selected) id, decide_eq_false hj, Bool.or_false] at hbusy
        obtain ⟨interval, completing, rfl⟩ := hd.result
        rw [Dks.setDisk_disks, if_neg hj] at htransferred
        exact absurd ⟨hbusy, htransferred⟩ hbefore
    · have hbusy' : (dksTransfer s j).busy id = s.busy id :=
        congrArg (·.getLsbD id) (dksTransfer_status s j)
      rw [hbusy'] at hbusy
      by_cases hj : id = j
      · subst hj
        rw [(dksTransfer_disk s id).2] at htransferred
        cases htransferred
      · rw [dksTransfer_other s hj] at htransferred
        exact absurd ⟨hbusy, htransferred⟩ hbefore
    · by_cases hj : id = j
      · subst hj
        have hlt : id < 32 := Dks.busy_lt (hinv.working id (.inr htr))
        rw [dksFinish_idle hlt] at hbusy
        cases hbusy
      · rw [dksFinish_busy hj] at hbusy
        rw [dksFinish_disks, if_neg hj] at htransferred
        exact absurd ⟨hbusy, htransferred⟩ hbefore

theorem allPending_reach {s : Dks D} (hreach : DksReach s) : AllPending s := by
  induction hreach with
  | start hstart => exact hstart.allPending
  | step hreach hstep ih => exact allPending_step (dksInv_reach hreach) ih hstep

end

end Xremu
