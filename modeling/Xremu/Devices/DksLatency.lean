import Mathlib.Data.NNRat.Floor
import Xremu.Devices.DksQueue

/-!
# The time of a disk command

With simulated seeks a command is charged its seek and its rotation in milliseconds of
timeslice. `DKSSeek` adds the charge to `OperationInterval`, `DKSSchedule` takes the
timeslices that are too short from it and leaves it as it is when the command is
completed. So the rest that completes a command is charged to the next one again.

The account of a disk says what its commands cost and what was taken for the last of
them; `dksLatency_iff` compares the two.
-/

namespace Xremu

/-- `DKSSeek`: the interval and the zero seeks it leaves, from the times of the seek and
the rotation. -/
def dksSeek (operationInterval consecutiveZeroSeeks : Nat) (sectorPerMs sectorseek cylseek : ℚ≥0) :
    Nat × Nat :=
  let operationInterval := ⌊(operationInterval : ℚ≥0) + (sectorseek + cylseek)⌋₊
  if sectorseek + cylseek = 0 then
    let consecutiveZeroSeeks := ⌊(consecutiveZeroSeeks : ℚ≥0) + sectorseek⌋₊
    if sectorPerMs < consecutiveZeroSeeks then (operationInterval + 1, 0)
    else (operationInterval, consecutiveZeroSeeks)
  else (operationInterval, consecutiveZeroSeeks)

/-- The zero seeks are never counted: what is added to them is zero when it is added. -/
theorem dksSeek_eq (operationInterval : Nat) (sectorPerMs sectorseek cylseek : ℚ≥0) :
    dksSeek operationInterval 0 sectorPerMs sectorseek cylseek =
      (operationInterval + ⌊sectorseek + cylseek⌋₊, 0) := by
  have hsum : ⌊(operationInterval : ℚ≥0) + (sectorseek + cylseek)⌋₊ =
      operationInterval + ⌊sectorseek + cylseek⌋₊ := by
    rw [add_comm, Nat.floor_add_natCast zero_le, Nat.add_comm]
  unfold dksSeek
  rw [hsum]
  by_cases hzero : sectorseek + cylseek = 0
  · have hsector : sectorseek = 0 := (add_eq_zero.mp hzero).1
    rw [if_pos hzero, hsector, Nat.cast_zero, add_zero, Nat.floor_zero]
    dsimp only
    rw [Nat.cast_zero, if_neg not_lt_zero]
  · rw [if_neg hzero]

/-- What `DKSSchedule` hands back of the timeslice. -/
def dksTimeslice {D : Type} (s : Dks D) (id timeslice : Nat) : Nat :=
  match dksScheduleExit s id timeslice with
  | .soak => 0
  | .complete => timeslice - (s.disks id).operationInterval
  | .nextFrame => 0

/-- What it takes of it for the command of the disk. -/
def dksConsumed {D : Type} (s : Dks D) (id timeslice : Nat) : Nat :=
  match dksScheduleExit s id timeslice with
  | .soak => 0
  | _ => timeslice - dksTimeslice s id timeslice

/-- The commands of a disk in whole milliseconds: the cost of the last one that was
accepted, the timeslice consumed for it so far, and the costs of those before it. -/
structure DksAccount where
  cost : Nat
  consumed : Nat
  earlier : Nat
deriving DecidableEq

structure DksLedger (D : Type) where
  dks : Dks D
  consecutiveZeroSeeks : Nat → Nat
  account : Nat → DksAccount

section

variable {D : Type}

/-! ## Runs -/

namespace DksLedger

/-- What `DKSSeek` does to a disk. -/
def seek (s : DksLedger D) (sectorPerMs : Nat → ℚ≥0) (sectorseek cylseek : ℚ≥0) (id : Nat) :
    Nat × Nat :=
  dksSeek (s.dks.disks id).operationInterval (s.consecutiveZeroSeeks id) (sectorPerMs id)
    sectorseek cylseek

/-- `DKSWriteCMD`; the costs are those of the seek if the command starts one. -/
def writeCmd (s : DksLedger D) (sectorPerMs : Nat → ℚ≥0) (value : Word) (sectorseek cylseek : ℚ≥0) :
    DksLedger D :=
  let interval := match s.dks.selected with
    | none => 0
    | some id => (s.seek sectorPerMs sectorseek cylseek id).1
  let dks := (dksWriteCmd s.dks value interval).getD s.dks
  match dksAccepted s.dks value interval with
  | none => { s with dks := dks }
  | some (id, _) =>
      { dks := dks
        consecutiveZeroSeeks := Function.update s.consecutiveZeroSeeks id
          (s.seek sectorPerMs sectorseek cylseek id).2
        account := Function.update s.account id
          { cost := ⌊sectorseek + cylseek⌋₊
            consumed := 0
            earlier := (s.account id).earlier + (s.account id).cost } }

/-- `DKSSchedule`. -/
def schedule (s : DksLedger D) (id timeslice : Nat) : DksLedger D :=
  { s with
    dks := dksSchedule s.dks id timeslice
    account := Function.update s.account id
      { s.account id with
        consumed := (s.account id).consumed + dksConsumed s.dks id timeslice } }

/-- The controller as it is started, with simulated seeks. -/
structure Started (s : DksLedger D) : Prop where
  dks : DksStarted s.dks
  asynchronous : s.dks.asynchronous = true
  consecutiveZeroSeeks : ∀ id, s.consecutiveZeroSeeks id = 0
  account : ∀ id, s.account id = ⟨0, 0, 0⟩

/-- Steps that have nothing to do with the time of a command. -/
inductive Untimed : DksOp D → Prop
  | writePortA (value : Word) : Untimed (.writePortA value)
  | writePortB (value : Word) : Untimed (.writePortB value)
  | transfer (id : Nat) : Untimed (.transfer id)
  | finish (id : Nat) : Untimed (.finish id)
  | reset : Untimed .reset
  | others (bus : XrStation D) : Untimed (.others bus)

variable [EBusDevices D]

inductive Reach (sectorPerMs : Nat → ℚ≥0) : DksLedger D → Prop
  | start {s} : s.Started → Reach sectorPerMs s
  | writeCmd {s} (value : Word) (sectorseek cylseek : ℚ≥0) : Reach sectorPerMs s →
      Reach sectorPerMs (s.writeCmd sectorPerMs value sectorseek cylseek)
  | schedule {s} (id timeslice : Nat) : Reach sectorPerMs s →
      Reach sectorPerMs (s.schedule id timeslice)
  | other {s} {op : DksOp D} {dks : Dks D} : Reach sectorPerMs s → Untimed op →
      DksStep s.dks op dks → Reach sectorPerMs { s with dks := dks }

end DksLedger

/-! ## What a command is charged -/

/-- The command of the disk is completed when its cost has been consumed, and not
before. -/
structure DksLatencyExact (s : DksLedger D) (id : Nat) : Prop where
  completed : (s.dks.disks id).completing = true → (s.account id).consumed = (s.account id).cost
  waiting : s.dks.busy id = true → (s.dks.disks id).completing = false →
    (s.account id).consumed < (s.account id).cost

/-- The account is in order: what was left of the interval when the command was accepted
is charged with it. -/
structure DksCharged (s : DksLedger D) (id : Nat) : Prop where
  zeroSeeks : s.consecutiveZeroSeeks id = 0
  interval : (s.dks.disks id).operationInterval = 0 ↔
    (s.account id).earlier + (s.account id).cost = 0
  charged : s.dks.busy id = true → ∃ carried, (carried = 0 ↔ (s.account id).earlier = 0) ∧
    if (s.dks.disks id).completing then
      (s.account id).consumed = carried + (s.account id).cost
    else
      0 < (s.dks.disks id).operationInterval ∧
      (s.account id).consumed + (s.dks.disks id).operationInterval =
        carried + (s.account id).cost

variable {s : DksLedger D} {id : Nat}

theorem DksCharged.exact (h : DksCharged s id) (hinv : DksInv s.dks)
    (hearlier : (s.account id).earlier = 0) : DksLatencyExact s id := by
  constructor
  · intro hcompleting
    obtain ⟨carried, hcarried, hsum⟩ := h.charged (hinv.working id (Or.inl hcompleting))
    rw [if_pos hcompleting, hcarried.mpr hearlier, Nat.zero_add] at hsum
    exact hsum
  · intro hbusy hwaiting
    have hnot : ¬(s.dks.disks id).completing = true := Bool.eq_false_iff.mp hwaiting
    obtain ⟨carried, hcarried, hsum⟩ := h.charged hbusy
    rw [if_neg hnot, hcarried.mpr hearlier, Nat.zero_add] at hsum
    omega

theorem DksCharged.earlier (h : DksCharged s id) (hinv : DksInv s.dks)
    (hcompleting : (s.dks.disks id).completing = true) (hexact : DksLatencyExact s id) :
    (s.account id).earlier = 0 := by
  obtain ⟨carried, hcarried, hsum⟩ := h.charged (hinv.working id (Or.inl hcompleting))
  rw [if_pos hcompleting, hexact.completed hcompleting] at hsum
  apply hcarried.mp
  omega

/-- A disk that a step does not concern. -/
theorem DksCharged.keep {r : DksLedger D} (h : DksCharged s id)
    (hzero : r.consecutiveZeroSeeks id = s.consecutiveZeroSeeks id)
    (haccount : r.account id = s.account id)
    (hinterval : (r.dks.disks id).operationInterval = (s.dks.disks id).operationInterval)
    (hbusy : r.dks.busy id = true → s.dks.busy id = true ∧
      (r.dks.disks id).completing = (s.dks.disks id).completing) : DksCharged r id := by
  constructor
  · rw [hzero]
    exact h.zeroSeeks
  · rw [hinterval, haccount]
    exact h.interval
  · intro hb
    obtain ⟨hold, hcompleting⟩ := hbusy hb
    rw [hcompleting, hinterval, haccount]
    exact h.charged hold

/-! ### One step -/

theorem dksWriteCmd_asynchronous (s : Dks D) (value : Word) (interval : Nat) :
    ((dksWriteCmd s value interval).getD s).asynchronous = s.asynchronous := by
  cases hvalue : dksCommand value with
  | some ioType =>
      rw [dksWriteCmd_command hvalue]
      cases hdispatch : dksDispatchIo s ioType interval with
      | none => rfl
      | some s' =>
          obtain ⟨id, hd⟩ := dksDispatchIo_dispatched hdispatch
          obtain ⟨_, _, rfl⟩ := hd.result
          rfl
  | none =>
      cases hcmd : dksWriteCmd s value interval with
      | none => rfl
      | some s' => exact (dksWriteCmd_registers hvalue hcmd).2.2

/-- The interval of an accepted command is the one `DKSSeek` made. -/
theorem dksDispatchIo_interval {s s' : Dks D} {ioType : DksIoType} {interval id : Nat}
    (h : dksDispatchIo s ioType interval = some s') (hsel : s.selected = some id)
    (hasync : s.asynchronous = true) : (s'.disks id).operationInterval = interval := by
  unfold dksDispatchIo at h
  rw [hsel] at h
  simp only [hasync, if_true] at h
  split_ifs at h
  obtain rfl := Option.some.inj h
  rw [Dks.setDisk_disks, if_pos rfl]

theorem dksAccepted_selected {s : Dks D} {value : Word} {interval id : Nat} {t : DksTransfer}
    (h : dksAccepted s value interval = some (id, t)) : s.selected = some id ∧
      ∃ ioType, dksCommand value = some ioType ∧ (dksDispatchIo s ioType interval).isSome = true := by
  unfold dksAccepted at h
  split at h
  · rename_i ioType id' hvalue hsel
    split at h
    · rename_i haccepted
      obtain ⟨rfl, -⟩ := Prod.mk.inj (Option.some.inj h)
      exact ⟨hsel, ioType, hvalue, haccepted⟩
    · cases h
  · cases h

theorem DksCharged.writeCmd (hinv : DksInv s.dks) (hasync : s.dks.asynchronous = true)
    (h : ∀ j, DksCharged s j) (sectorPerMs : Nat → ℚ≥0) (value : Word)
    (sectorseek cylseek : ℚ≥0) (j : Nat) :
    DksCharged (s.writeCmd sectorPerMs value sectorseek cylseek) j := by
  unfold DksLedger.writeCmd
  extract_lets interval dks
  cases haccepted : dksAccepted s.dks value interval with
  | none =>
      obtain ⟨hdisks, hstatus⟩ := dksAccepted_none haccepted
      have hdisk : dks.disks = s.dks.disks := hdisks
      have hbusy : dks.busy j = s.dks.busy j := congrArg (·.getLsbD j) hstatus
      refine (h j).keep rfl rfl ?_ fun hb => ⟨?_, ?_⟩
      · show (dks.disks j).operationInterval = _
        rw [hdisk]
      · exact hbusy ▸ hb
      · show (dks.disks j).completing = _
        rw [hdisk]
  | some p =>
      obtain ⟨id, t⟩ := p
      have haccepts : DksAccepts s.dks id t dks := dksAccepted_some hinv haccepted
      obtain ⟨hsel, ioType, hvalue, hsome⟩ := dksAccepted_selected haccepted
      obtain ⟨s', hs'⟩ := Option.isSome_iff_exists.mp hsome
      have hdks : dks = s' := by
        show (dksWriteCmd s.dks value interval).getD s.dks = s'
        rw [dksWriteCmd_command hvalue, hs']
        rfl
      have hseek : s.seek sectorPerMs sectorseek cylseek id =
          ((s.dks.disks id).operationInterval + ⌊sectorseek + cylseek⌋₊, 0) := by
        unfold DksLedger.seek
        rw [(h id).zeroSeeks]
        exact dksSeek_eq _ _ _ _
      have hinterval : (dks.disks id).operationInterval =
          (s.dks.disks id).operationInterval + ⌊sectorseek + cylseek⌋₊ := by
        rw [hdks, dksDispatchIo_interval hs' hsel hasync]
        show (match s.dks.selected with
          | none => 0
          | some id => (s.seek sectorPerMs sectorseek cylseek id).1) = _
        rw [hsel]
        dsimp only
        rw [hseek]
      by_cases hj : j = id
      · subst hj
        have hidle : (s.dks.disks j).completing = false := by
          apply Bool.eq_false_iff.mpr
          intro hc
          have hb := hinv.working j (Or.inl hc)
          rw [haccepts.idle] at hb
          cases hb
        have hcarried := (h j).interval
        constructor
        · show Function.update s.consecutiveZeroSeeks j _ j = 0
          rw [Function.update_self, hseek]
        · show (dks.disks j).operationInterval = 0 ↔ _
          rw [hinterval]
          dsimp only
          rw [Function.update_self]
          dsimp only
          omega
        · intro _
          refine ⟨(s.dks.disks j).operationInterval, ?_, ?_⟩
          · dsimp only
            rw [Function.update_self]
            exact hcarried
          · -- At once if there is nothing to wait for.
            dsimp only
            rw [haccepts.completing, hidle, hinterval, Function.update_self]
            dsimp only
            by_cases hzero : (s.dks.disks j).operationInterval + ⌊sectorseek + cylseek⌋₊ = 0
            · rw [decide_eq_true hzero, Bool.false_or, if_pos rfl, hzero]
            · rw [decide_eq_false hzero, Bool.false_or, if_neg Bool.false_ne_true, Nat.zero_add]
              exact ⟨Nat.pos_of_ne_zero hzero, rfl⟩
      · have hbusy : dks.busy j = s.dks.busy j := by
          rw [haccepts.busy, decide_eq_false hj, Bool.or_false]
        refine (h j).keep ?_ ?_ ?_ fun hb => ⟨?_, ?_⟩
        · exact Function.update_of_ne hj _ _
        · exact Function.update_of_ne hj _ _
        · show (dks.disks j).operationInterval = _
          rw [haccepts.other j hj]
        · exact hbusy ▸ hb
        · show (dks.disks j).completing = _
          rw [haccepts.other j hj]

theorem DksCharged.schedule (h : ∀ j, DksCharged s j) (id timeslice j : Nat) :
    DksCharged (s.schedule id timeslice) j := by
  by_cases hj : j = id
  · subst hj
    unfold DksLedger.schedule dksConsumed dksTimeslice dksScheduleExit dksSchedule
    extract_lets disk
    by_cases hsoak : (!s.dks.busy j || disk.completing) = true
    · rw [if_pos hsoak, if_pos hsoak]
      refine (h j).keep rfl ?_ rfl fun hb => ⟨hb, rfl⟩
      exact Function.update_self _ _ _
    rw [if_neg hsoak, if_neg hsoak]
    obtain ⟨hbusy, hwaiting⟩ : s.dks.busy j = true ∧ ¬disk.completing = true := by
      simpa using hsoak
    obtain ⟨carried, hcarried, hsum⟩ := (h j).charged hbusy
    rw [if_neg hwaiting] at hsum
    obtain ⟨hpos, hsum⟩ := hsum
    have hinterval := (h j).interval
    by_cases henough : timeslice ≥ disk.operationInterval
    · -- What is left of the interval is consumed, and stays in the field.
      rw [if_pos henough, if_pos henough]
      refine ⟨(h j).zeroSeeks, ?_, fun _ => ⟨carried, ?_, ?_⟩⟩
      · dsimp only
        rw [Dks.setDisk_disks, if_pos rfl, Function.update_self]
        exact hinterval
      · dsimp only
        rw [Function.update_self]
        exact hcarried
      · dsimp only
        rw [Dks.setDisk_disks, if_pos rfl, if_pos rfl, Function.update_self]
        have hle : (s.dks.disks j).operationInterval ≤ timeslice := henough
        show (s.account j).consumed + (timeslice - (timeslice - (s.dks.disks j).operationInterval)) =
          carried + (s.account j).cost
        omega
    · rw [if_neg henough, if_neg henough]
      have hlt : timeslice < (s.dks.disks j).operationInterval := Nat.lt_of_not_le henough
      refine ⟨(h j).zeroSeeks, ?_, fun _ => ⟨carried, ?_, ?_⟩⟩
      · dsimp only
        rw [Dks.setDisk_disks, if_pos rfl, Function.update_self]
        show (s.dks.disks j).operationInterval - timeslice = 0 ↔ _
        rw [← hinterval]
        omega
      · dsimp only
        rw [Function.update_self]
        exact hcarried
      · dsimp only
        rw [Dks.setDisk_disks, if_pos rfl, if_neg hwaiting, Function.update_self]
        show 0 < (s.dks.disks j).operationInterval - timeslice ∧
          (s.account j).consumed + (timeslice - 0) +
            ((s.dks.disks j).operationInterval - timeslice) = carried + (s.account j).cost
        omega
  · have hother : (dksSchedule s.dks id timeslice).disks j = s.dks.disks j := by
      unfold dksSchedule
      extract_lets disk
      split_ifs
      · rfl
      · rw [Dks.setDisk_disks, if_neg hj]
      · rw [Dks.setDisk_disks, if_neg hj]
    have hbusy : (dksSchedule s.dks id timeslice).busy j = s.dks.busy j :=
      congrArg (·.getLsbD j) (dksSchedule_quiet s.dks id timeslice).status
    refine (h j).keep rfl (Function.update_of_ne hj _ _) ?_ fun hb => ⟨hbusy ▸ hb, ?_⟩
    · show ((dksSchedule s.dks id timeslice).disks j).operationInterval = _
      rw [hother]
    · show ((dksSchedule s.dks id timeslice).disks j).completing = _
      rw [hother]

variable [EBusDevices D]

open DksLedger in
/-- No other step changes an interval, or makes a disk work. -/
theorem untimed_disk {s s' : Dks D} {op : DksOp D} (hinv : DksInv s) (hop : Untimed op)
    (hstep : DksStep s op s') (j : Nat) :
    (s'.disks j).operationInterval = (s.disks j).operationInterval ∧
    (s'.busy j = true → s.busy j = true ∧ (s'.disks j).completing = (s.disks j).completing) := by
  cases hop with
  | writePortA value =>
      cases hstep
      exact ⟨rfl, fun hb => ⟨hb, rfl⟩⟩
  | writePortB value =>
      cases hstep
      exact ⟨rfl, fun hb => ⟨hb, rfl⟩⟩
  | reset =>
      cases hstep
      exact ⟨rfl, fun hb => ⟨hb, rfl⟩⟩
  | others bus =>
      cases hstep
      exact ⟨rfl, fun hb => ⟨hb, rfl⟩⟩
  | transfer id =>
      cases hstep
      have hbusy : (dksTransfer s id).busy j = s.busy j :=
        congrArg (·.getLsbD j) (dksTransfer_status s id)
      rw [hbusy]
      by_cases hj : j = id
      · subst hj
        unfold dksTransfer
        extract_lets disk t
        split
        · rw [Dks.setDisk_disks, if_pos rfl]
          exact ⟨rfl, fun hb => ⟨hb, rfl⟩⟩
        · rw [Dks.setDisk_disks, if_pos rfl]
          exact ⟨rfl, fun hb => ⟨hb, rfl⟩⟩
      · rw [dksTransfer_other s hj]
        exact ⟨rfl, fun hb => ⟨hb, rfl⟩⟩
  | finish id =>
      cases hstep with
      | finish _ htransferred =>
      rw [dksFinish_disks]
      by_cases hj : j = id
      · subst hj
        have hlt : j < 32 := BitVec.lt_of_getLsbD (hinv.working j (Or.inr htransferred))
        rw [if_pos rfl, dksFinish_idle hlt]
        exact ⟨rfl, fun hb => by cases hb⟩
      · rw [if_neg hj, dksFinish_busy hj]
        exact ⟨rfl, fun hb => ⟨hb, rfl⟩⟩

open DksLedger in
theorem untimed_asynchronous {s s' : Dks D} {op : DksOp D} (hop : Untimed op)
    (hstep : DksStep s op s') : s'.asynchronous = s.asynchronous := by
  cases hop with
  | writePortA value =>
      cases hstep
      rfl
  | writePortB value =>
      cases hstep
      rfl
  | reset =>
      cases hstep
      rfl
  | others bus =>
      cases hstep
      rfl
  | transfer id =>
      cases hstep
      unfold dksTransfer
      extract_lets disk t
      split
      · rfl
      · rfl
  | finish id =>
      cases hstep
      unfold dksFinish dksInfo
      split
      · rfl
      · rfl

/-! ### Every run -/

omit [EBusDevices D] in
theorem DksLedger.writeCmd_dks (s : DksLedger D) (sectorPerMs : Nat → ℚ≥0) (value : Word)
    (sectorseek cylseek : ℚ≥0) : ∃ interval,
    (s.writeCmd sectorPerMs value sectorseek cylseek).dks =
      (dksWriteCmd s.dks value interval).getD s.dks := by
  unfold DksLedger.writeCmd
  extract_lets interval dks
  refine ⟨interval, ?_⟩
  split <;> rfl

variable {sectorPerMs : Nat → ℚ≥0}

theorem DksLedger.Reach.dksReach (h : s.Reach sectorPerMs) : DksReach s.dks := by
  induction h with
  | start hstart => exact .start hstart.dks
  | @writeCmd s value sectorseek cylseek _ ih =>
      obtain ⟨interval, hdks⟩ := s.writeCmd_dks sectorPerMs value sectorseek cylseek
      rw [hdks]
      exact .step ih (.writeCmd s.dks value interval)
  | @schedule s id timeslice _ ih => exact .step ih (.schedule s.dks id timeslice)
  | other _ _ hstep ih => exact .step ih hstep

theorem DksLedger.Reach.asynchronous (h : s.Reach sectorPerMs) : s.dks.asynchronous = true := by
  induction h with
  | start hstart => exact hstart.asynchronous
  | @writeCmd s value sectorseek cylseek _ ih =>
      obtain ⟨interval, hdks⟩ := s.writeCmd_dks sectorPerMs value sectorseek cylseek
      rw [hdks, dksWriteCmd_asynchronous]
      exact ih
  | @schedule s id timeslice _ ih =>
      show (dksSchedule s.dks id timeslice).asynchronous = true
      unfold dksSchedule
      extract_lets disk
      split_ifs
      all_goals exact ih
  | other _ hop hstep ih => exact (untimed_asynchronous hop hstep).trans ih

theorem DksLedger.Reach.charged (h : s.Reach sectorPerMs) : ∀ id, DksCharged s id := by
  induction h with
  | @start s hstart =>
      intro id
      have hidle : s.dks.busy id = false := by
        unfold Dks.busy
        rw [hstart.dks.status]
        exact BitVec.getLsbD_zero
      constructor
      · exact hstart.consecutiveZeroSeeks id
      · rw [hstart.account]
        rcases hstart.dks.disks id with hnone | ⟨image, length, himg⟩
        · rw [hnone]
          decide
        · rw [himg]
          exact ⟨fun _ => rfl, fun _ => rfl⟩
      · intro hb
        rw [hidle] at hb
        cases hb
  | writeCmd value sectorseek cylseek hrun ih =>
      exact DksCharged.writeCmd (dksInv_reach hrun.dksReach) hrun.asynchronous ih sectorPerMs value
        sectorseek cylseek
  | schedule id timeslice _ ih => exact DksCharged.schedule ih id timeslice
  | other hrun hop hstep ih =>
      intro id
      obtain ⟨hinterval, hbusy⟩ := untimed_disk (dksInv_reach hrun.dksReach) hop hstep id
      exact (ih id).keep rfl rfl hinterval hbusy

/-- Any commands, costs and timeslices, for all the disks. A command takes exactly what
it costs if those accepted before it on its disk cost nothing, and only then. -/
theorem dksLatency_iff (h : s.Reach sectorPerMs) (id : Nat) :
    ((s.account id).earlier = 0 → DksLatencyExact s id) ∧
    ((s.dks.disks id).completing = true →
      (DksLatencyExact s id ↔ (s.account id).earlier = 0)) := by
  have hinv := dksInv_reach h.dksReach
  have hcharged := h.charged id
  refine ⟨hcharged.exact hinv, fun hcompleting => ⟨?_, hcharged.exact hinv⟩⟩
  intro hexact
  exact hcharged.earlier hinv hcompleting hexact

end

/-! ## Two reads -/

/-- The sample disk, with simulated seeks. -/
def latencySample : DksLedger Unit where
  dks := { diskSample with asynchronous := true }
  consecutiveZeroSeeks := fun _ => 0
  account := fun _ => ⟨0, 0, 0⟩

/-- Port A, then a command whose seek takes this long. -/
def DksLedger.ports (s : DksLedger Unit) (portA value : Word) (cylseek : ℚ≥0) : DksLedger Unit :=
  DksLedger.writeCmd { s with dks := { s.dks with portA := portA } } (fun _ => 1) value 0 cylseek

/-- Two sectors from sector 5 at two and a half milliseconds, and ten to do it in. -/
def firstRead : DksLedger Unit :=
  (((latencySample.ports 0 1 0).ports 2 8 0).ports 5 2 (5 / 2)).schedule 0 10

/-- The first read is completed, and the same again at three milliseconds. -/
def secondRead : DksLedger Unit :=
  (DksLedger.ports { firstRead with dks := dksFinish (dksTransfer firstRead.dks 0) 0 } 5 2 3).schedule
    0 10

theorem DksLedger.Reach.ports {s : DksLedger Unit} (h : s.Reach fun _ => 1) (portA value : Word)
    (cylseek : ℚ≥0) : (s.ports portA value cylseek).Reach fun _ => 1 :=
  .writeCmd value 0 cylseek (.other h (.writePortA portA) (.writePortA s.dks portA))

theorem firstRead_reach : firstRead.Reach fun _ => 1 := by
  have hstart : latencySample.Reach fun _ => 1 :=
    .start ⟨⟨diskSample_disks, rfl, rfl, rfl, rfl⟩, rfl, fun _ => rfl, fun _ => rfl⟩
  exact .schedule 0 10 (((hstart.ports 0 1 0).ports 2 8 0).ports 5 2 (5 / 2))

/-- The first read takes two milliseconds. -/
theorem dksLatency_first : (firstRead.dks.disks 0).completing = true ∧ DksLatencyExact firstRead 0 :=
  ⟨by decide +kernel, (dksLatency_iff firstRead_reach 0).1 (by decide +kernel)⟩

/-- The second read pays for the first as well: five milliseconds instead of three. -/
theorem second_read_pays_twice :
    secondRead.Reach (fun _ => 1) ∧ (secondRead.dks.disks 0).completing = true ∧
    secondRead.account 0 = ⟨3, 5, 2⟩ ∧ ¬DksLatencyExact secondRead 0 := by
  refine ⟨?_, by decide +kernel, by decide +kernel, ?_⟩
  · have htransfer := DksLedger.Reach.other firstRead_reach (.transfer 0)
      (.transfer firstRead.dks 0 (by decide +kernel) (by decide +kernel))
    have hfinish := DksLedger.Reach.other htransfer (.finish 0)
      (.finish (dksTransfer firstRead.dks 0) 0 (by decide +kernel))
    exact .schedule 0 10 (hfinish.ports 5 2 3)
  · intro hexact
    have hcost := hexact.completed (by decide +kernel)
    revert hcost
    decide +kernel

end Xremu
