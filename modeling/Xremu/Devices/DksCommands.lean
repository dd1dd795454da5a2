import Xremu.Devices.DksQueue

/-!
# What the disk controller accepts

`DKSDispatchIO` checks the sectors of a command against the end of the disk, and
`DKSWriteCMD` the count when it is set. The two checks leave out the last sectors of
every disk, and let the count through that a reset leaves (`dksRange_iff`).

`dksWriteCmdReturn` is `DKSWriteCMD` with its variable `status`, to which the switch
assigns nothing for a command it does not know (`dksCommandAtomic_iff`).
-/

namespace Xremu

section

variable {D : Type}

/-! ## The range of a command -/

/-- One to eight sectors, all of them on the disk. -/
structure DksInRange (s : Dks D) (id : Nat) : Prop where
  positive : 1 ≤ s.transferCount.toNat
  count : s.transferCount.toNat ≤ 8
  sectors : s.portA.toNat + s.transferCount.toNat ≤ (s.disks id).sectorCount.toNat

/-- A transfer that fits the buffer of the disk, and whose products do not wrap. -/
structure DksFits (t : DksTransfer) : Prop where
  length : t.length = t.bytes
  buffer : t.bytes ≤ 4096
  offset : t.offset = t.imageStart

/-- The check as it is meant. -/
structure DksRangeChecked (s : Dks D) (id : Nat) (value : Word) (interval : Nat) : Prop where
  accepted : (dksWriteCmd s value interval).isSome = true ↔ DksInRange s id
  fits : ∀ s', dksWriteCmd s value interval = some s' → DksFits (s'.disks id).transfer

/-- What `DKSDispatchIO` checks of the numbers. -/
def DksAdmitted (s : Dks D) (id : Nat) : Prop :=
  ¬s.portA + s.transferCount < s.portA ∧ s.portA + s.transferCount < (s.disks id).sectorCount

variable {s : Dks D} {id : Nat} {value : Word} {interval : Nat} {ioType : DksIoType}

theorem dksDispatchIo_isSome_iff (hsel : s.selected = some id) (hidle : s.busy id = false) :
    (dksDispatchIo s ioType interval).isSome = true ↔ DksAdmitted s id := by
  constructor
  · intro haccepted
    obtain ⟨s', hs'⟩ := Option.isSome_iff_exists.mp haccepted
    obtain ⟨id', hd⟩ := dksDispatchIo_dispatched hs'
    obtain rfl := Option.some.inj (hd.selected.symm.trans hsel)
    exact ⟨hd.noOverflow, hd.inside⟩
  · rintro ⟨hover, hin⟩
    have hnot : ¬s.busy id = true := Bool.eq_false_iff.mp hidle
    unfold dksDispatchIo
    rw [hsel]
    dsimp only
    rw [if_neg hover, if_neg (BitVec.not_le.mpr hin), if_neg hnot]
    rfl

/-- The sum is compared without wrapping around, and only its strict half gets through. -/
theorem dksAdmitted_iff (hcount : s.transferCount.toNat ≤ 8) :
    DksAdmitted s id ↔
      s.portA.toNat + s.transferCount.toNat < (s.disks id).sectorCount.toNat := by
  have hport := s.portA.isLt
  have hsectors := (s.disks id).sectorCount.isLt
  unfold DksAdmitted
  rw [BitVec.lt_def, BitVec.lt_def, BitVec.toNat_add]
  constructor
  · rintro ⟨hover, hin⟩
    omega
  · intro hin
    omega

/-- Whatever is accepted fits the buffer. -/
theorem dksDispatchIo_fits (hinv : DksInv s) (hsel : s.selected = some id) {s' : Dks D}
    (h : dksDispatchIo s ioType interval = some s') : DksFits (s'.disks id).transfer := by
  obtain ⟨id', hd⟩ := dksDispatchIo_dispatched h
  obtain rfl := Option.some.inj (hd.selected.symm.trans hsel)
  have hpending := hd.pending hinv
  rw [hpending.transfer]
  exact ⟨hpending.length, hpending.bytes_le, hpending.offset⟩

/-- For a selected idle disk, after any history of the controller: the check is right
unless the count is zero or the range ends with the last sector. -/
theorem dksRange_iff [EBusDevices D] (hreach : DksReach s) (hvalue : dksCommand value = some ioType)
    (hsel : s.selected = some id) (hidle : s.busy id = false) :
    DksRangeChecked s id value interval ↔
      (s.transferCount.toNat = 0 → (s.disks id).sectorCount.toNat ≤ s.portA.toNat) ∧
      (s.transferCount.toNat ≠ 0 →
        s.portA.toNat + s.transferCount.toNat ≠ (s.disks id).sectorCount.toNat) := by
  have hinv := dksInv_reach hreach
  have hcount := hinv.count
  have hiff : (dksWriteCmd s value interval).isSome = true ↔
      s.portA.toNat + s.transferCount.toNat < (s.disks id).sectorCount.toNat := by
    rw [dksWriteCmd_command hvalue, dksDispatchIo_isSome_iff hsel hidle]
    exact dksAdmitted_iff hcount
  constructor
  · rintro ⟨haccepted, -⟩
    rw [hiff] at haccepted
    constructor
    · -- A count of zero is not in range, so the command must have been rejected.
      intro hzero
      by_contra hbefore
      have hin := haccepted.mp (by omega)
      exact absurd hin.positive (by omega)
    · intro hpos hend
      have hin : DksInRange s id := ⟨Nat.pos_of_ne_zero hpos, hcount, Nat.le_of_eq hend⟩
      exact absurd (haccepted.mpr hin) (by omega)
  · rintro ⟨hzero, hend⟩
    constructor
    · rw [hiff]
      constructor
      · intro hin
        refine ⟨?_, hcount, Nat.le_of_lt hin⟩
        apply Nat.pos_of_ne_zero
        intro hnone
        have hout := hzero hnone
        omega
      · rintro ⟨hpos, -, hle⟩
        exact Nat.lt_of_le_of_ne hle (hend (Nat.ne_of_gt hpos))
    · intro s' hs'
      rw [dksWriteCmd_command hvalue] at hs'
      exact dksDispatchIo_fits hinv hsel hs'

end

/-- The sample disk with two sectors asked for, the last of them number `last`. -/
def endingAt (last : Word) : Dks Unit :=
  { dksPorts (dksPorts diskSample 0 1) 2 8 with portA := last - 1 }

theorem endingAt_reach (last : Word) : DksReach (endingAt last) :=
  .step ((diskSample_reach.ports 0 1).ports 2 8) (.writePortA _ (last - 1))

/-- Sectors 125 and 126 of 128. -/
theorem dksRange_beforeEnd : DksRangeChecked (endingAt 126) 0 2 0 := by
  have hread : dksCommand 2 = some .read := rfl
  apply (dksRange_iff (endingAt_reach 126) hread (by decide) (by decide)).mpr
  exact ⟨by decide, by decide⟩

/-- Sectors 126 and 127 of 128 are there and cannot be read; after a reset a read of no
sectors is accepted. -/
theorem dksRange_off_at_both_ends :
    (DksReach (endingAt 127) ∧ (endingAt 127).selected = some 0 ∧
      (endingAt 127).busy 0 = false ∧ ¬DksRangeChecked (endingAt 127) 0 2 0) ∧
    (DksReach (dksPorts (dksReset (endingAt 127)) 0 1) ∧
      (dksPorts (dksReset (endingAt 127)) 0 1).selected = some 0 ∧
      (dksPorts (dksReset (endingAt 127)) 0 1).busy 0 = false ∧
      ¬DksRangeChecked (dksPorts (dksReset (endingAt 127)) 0 1) 0 2 0) := by
  refine ⟨⟨endingAt_reach 127, by decide, by decide, ?_⟩,
    DksReach.ports (.step (endingAt_reach 127) (.reset _)) 0 1, by decide, by decide, ?_⟩
  · intro h
    have haccepted := h.accepted.mpr ⟨by decide, by decide, by decide⟩
    revert haccepted
    decide
  · intro h
    have hpos := (h.accepted.mp (by decide)).positive
    revert hpos
    decide

/-! ## The status of a command -/

/-- The end of a call: the variable `status`, if anything was assigned to it, and the
controller. -/
structure DksReturn (D : Type) where
  status : Option EBusStatus
  controller : Dks D

section

variable {D : Type}

/-- `DKSDispatchIO` as a call. If it succeeds `DKSCompleteTransfer` may come before the
return; that makes no difference to the result. -/
def dksDispatchIoReturn (s : Dks D) (ioType : DksIoType) (interval : Nat) : DksReturn D :=
  match s.selected with
  | none => ⟨some .error, s⟩
  | some id =>
      let disk := s.disks id
      if s.portA + s.transferCount < s.portA then ⟨some .error, s⟩
      else if s.portA + s.transferCount ≥ disk.sectorCount then ⟨some .error, s⟩
      else if s.busy id then ⟨some .error, s⟩
      else
        let operationInterval := if s.asynchronous then interval else 0
        let disk := { disk with
          transfer := ⟨ioType, s.transferAddress, s.portA, s.transferCount⟩
          operationInterval := operationInterval
          completing := disk.completing || decide (operationInterval = 0) }
        ⟨some .success, { s with status := s.status ||| (1 : Word) <<< id }.setDisk id disk⟩

/-- `DKSWriteCMD` as a call. The switch has no default, and `status` no initial value. -/
def dksWriteCmdReturn (s : Dks D) (value : Word) (interval : Nat) : DksReturn D :=
  match value.toNat with
  | 1 =>
      ⟨some .success,
        { s with selected := if s.attached s.portA then some s.portA.toNat else none }⟩
  | 2 => dksDispatchIoReturn s .read interval
  | 3 => dksDispatchIoReturn s .write interval
  | 4 => ⟨some .success, { s with portA := 0, portB := s.completed, completed := 0 }⟩
  | 5 =>
      if s.attached s.portA then
        ⟨some .success, { s with portA := 1, portB := (s.disks s.portA.toNat).sectorCount }⟩
      else ⟨some .success, { s with portA := 0, portB := 0 }⟩
  | 6 => ⟨some .success, { s with doInterrupt := true }⟩
  | 7 => ⟨some .success, { s with doInterrupt := false }⟩
  | 8 =>
      if s.portA = 0 ∨ s.portA > 8 then ⟨some .error, s⟩
      else ⟨some .success, { s with transferCount := s.portA }⟩
  | 9 => ⟨some .success, { s with transferAddress := s.portA &&& ~~~511 }⟩
  | _ => ⟨none, s⟩

/-- Is the command one of the nine? -/
def DksKnown (value : Word) : Prop := 1 ≤ value.toNat ∧ value.toNat ≤ 9

/-- The result of a call is a status, and if it is `EBUSERROR` the call did nothing. -/
structure DksCommandAtomic (s : Dks D) (r : DksReturn D) : Prop where
  determined : ∃ status, r.status = some status
  unchanged : r.status = some .error → r.controller = s

variable {s : Dks D} {value : Word} {interval : Nat} {ioType : DksIoType}

theorem DksCommandAtomic.success (s s' : Dks D) : DksCommandAtomic s ⟨some .success, s'⟩ :=
  ⟨⟨.success, rfl⟩, fun h => by cases h⟩

theorem DksCommandAtomic.error (s : Dks D) : DksCommandAtomic s ⟨some .error, s⟩ :=
  ⟨⟨.error, rfl⟩, fun _ => rfl⟩

/-- Every check of `DKSDispatchIO` comes before its first assignment. -/
theorem dksDispatchIoReturn_atomic (s : Dks D) (ioType : DksIoType) (interval : Nat) :
    DksCommandAtomic s (dksDispatchIoReturn s ioType interval) := by
  unfold dksDispatchIoReturn
  split
  · exact .error s
  · rename_i id hsel
    extract_lets disk operationInterval disk'
    by_cases hover : s.portA + s.transferCount < s.portA
    · rw [if_pos hover]
      exact .error s
    rw [if_neg hover]
    by_cases hend : s.portA + s.transferCount ≥ disk.sectorCount
    · rw [if_pos hend]
      exact .error s
    rw [if_neg hend]
    by_cases hbusy : s.busy id = true
    · rw [if_pos hbusy]
      exact .error s
    rw [if_neg hbusy]
    exact .success s _

/-- The controller after the call is the one of `dksDispatchIo`. -/
theorem dksDispatchIoReturn_controller (s : Dks D) (ioType : DksIoType) (interval : Nat) :
    (dksDispatchIoReturn s ioType interval).controller =
      (dksDispatchIo s ioType interval).getD s := by
  unfold dksDispatchIoReturn dksDispatchIo
  cases s.selected with
  | none => rfl
  | some id =>
      dsimp only
      split_ifs <;> rfl

theorem dksWriteCmdReturn_controller (s : Dks D) (value : Word) (interval : Nat) :
    (dksWriteCmdReturn s value interval).controller = (dksWriteCmd s value interval).getD s := by
  have heq : ∀ k, value.toNat = k → value = BitVec.ofNat 32 k := by
    rintro k rfl
    rw [BitVec.ofNat_toNat, BitVec.setWidth_eq]
  unfold dksWriteCmdReturn
  split
  · rename_i h
    rw [heq _ h]
    rfl
  · rename_i h
    rw [heq _ h]
    exact dksDispatchIoReturn_controller s .read interval
  · rename_i h
    rw [heq _ h]
    exact dksDispatchIoReturn_controller s .write interval
  · rename_i h
    rw [heq _ h]
    rfl
  · rename_i h
    rw [heq _ h, dksWriteCmd]
    simp only [BitVec.reduceEq, if_false, if_true]
    split <;> rfl
  · rename_i h
    rw [heq _ h]
    rfl
  · rename_i h
    rw [heq _ h]
    rfl
  · rename_i h
    rw [heq _ h, dksWriteCmd]
    simp only [BitVec.reduceEq, if_false, if_true]
    split <;> rfl
  · rename_i h
    rw [heq _ h]
    rfl
  · rename_i n h1 h2 h3 h4 h5 h6 h7 h8 h9
    have hne : ∀ w : Word, (value.toNat = w.toNat → False) → ¬value = w := by
      rintro w hnot rfl
      exact hnot rfl
    unfold dksWriteCmd
    rw [if_neg (hne 1 h1), if_neg (hne 2 h2), if_neg (hne 3 h3), if_neg (hne 4 h4),
      if_neg (hne 5 h5), if_neg (hne 6 h6), if_neg (hne 7 h7), if_neg (hne 8 h8),
      if_neg (hne 9 h9)]
    rfl

theorem dksWriteCmdReturn_known (h : DksKnown value) :
    DksCommandAtomic s (dksWriteCmdReturn s value interval) := by
  obtain ⟨hmin, hmax⟩ := h
  unfold dksWriteCmdReturn
  split
  · exact .success s _
  · exact dksDispatchIoReturn_atomic s .read interval
  · exact dksDispatchIoReturn_atomic s .write interval
  · exact .success s _
  · split
    · exact .success s _
    · exact .success s _
  · exact .success s _
  · exact .success s _
  · split
    · exact .error s
    · exact .success s _
  · exact .success s _
  · rename_i n h1 h2 h3 h4 h5 h6 h7 h8 h9
    exfalso
    simp only [imp_false] at h1 h2 h3 h4 h5 h6 h7 h8 h9
    omega

theorem dksWriteCmdReturn_unknown (h : ¬DksKnown value) :
    dksWriteCmdReturn s value interval = ⟨none, s⟩ := by
  unfold DksKnown at h
  unfold dksWriteCmdReturn
  split
  case h_10 => rfl
  all_goals
    exfalso
    omega

/-- Of all the values that can be written, for any controller and ports. -/
theorem dksCommandAtomic_iff (s : Dks D) (value : Word) (interval : Nat) :
    DksCommandAtomic s (dksWriteCmdReturn s value interval) ↔ DksKnown value := by
  constructor
  · rintro ⟨⟨status, hstatus⟩, -⟩
    by_contra hunknown
    rw [dksWriteCmdReturn_unknown hunknown] at hstatus
    cases hstatus
  · exact dksWriteCmdReturn_known

end

/-- Command 0 returns what happens to be in the variable. -/
theorem dksCommand_zero_undetermined :
    ¬DksCommandAtomic diskSample (dksWriteCmdReturn diskSample 0 0) := by
  rintro ⟨⟨status, hstatus⟩, -⟩
  revert hstatus
  cases status with
  | success => decide
  | error => decide

end Xremu
