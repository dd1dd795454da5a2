import Xremu.Devices.DiskTransfer

/-!
# The disk controller on its threads

The controller with what the threads do for its disks: a disk waits in the lists and chains
of the scheduler, a thread has dequeued it and waits for the mutex, or a thread moves the
data of a command and has given up the mutex meanwhile. A command that takes no time is
completed by the processor that gives it, every other one by a run of `DKSSchedule`.

Every state here is one in which the mutex is free. The commands that each disk has accepted
and the transfers it has performed are kept as well, and `DksSystem.Lawful` says that they
are the same but for the one command that waits for its transfer.
-/

namespace Xremu

structure DksSystem (D : Type) where
  dks : Dks D
  enqueued : Nat → Bool
  held : Nat → Bool        -- the frame update thread has cleared `Enqueued`, to queue the disk
  entered : Nat → Nat      -- threads that have dequeued the disk, before they take the mutex
  moving : Nat → Nat       -- threads in `DKSCompleteTransfer`, before the file is accessed
  moved : Nat → Nat        -- the same, after it
  accepted : Nat → List DksTransfer
  performed : Nat → List DksTransfer
  finished : Nat → Nat

/-- The commands that start a transfer. -/
def dksCommand (value : Word) : Option DksIoType :=
  if value = 2 then some .read else if value = 3 then some .write else none

/-- How `DKSSchedule` ends. -/
inductive DksExit where
  | soak
  | complete
  | nextFrame
deriving DecidableEq

inductive DksSystemOp (D : Type) where
  | writeCmd (value : Word) (interval : Nat)
  | writePortA (value : Word)
  | writePortB (value : Word)
  | dequeue (id : Nat)
  | clearEntry (id : Nat)
  | requeue (id : Nat)
  | schedule (id timeslice : Nat)
  | transfer (id : Nat)
  | finish (id : Nat)
  | reset
  | others (bus : XrStation D)

section

variable {D : Type}

/-- The disk and the parameters of a command that is accepted. -/
def dksAccepted (s : Dks D) (value : Word) (interval : Nat) : Option (Nat × DksTransfer) :=
  match dksCommand value, s.selected with
  | some ioType, some id =>
      if (dksDispatchIo s ioType interval).isSome then
        some (id, ⟨ioType, s.transferAddress, s.portA, s.transferCount⟩)
      else none
  | _, _ => none

/-- The branches of `DKSSchedule`. -/
def dksScheduleExit (s : Dks D) (id timeslice : Nat) : DksExit :=
  if !s.busy id || (s.disks id).completing then .soak
  else if timeslice ≥ (s.disks id).operationInterval then .complete
  else .nextFrame

namespace DksSystem

/-- `DKSWriteCMD`. A command that is accepted is completed at once or queued with
`XrScheduleWorkForMe`. -/
def writeCmd (s : DksSystem D) (value : Word) (interval : Nat) : DksSystem D :=
  let dks := (dksWriteCmd s.dks value interval).getD s.dks
  match dksAccepted s.dks value interval with
  | none => { s with dks := dks }
  | some (id, t) =>
      let accepted := Function.update s.accepted id (s.accepted id ++ [t])
      if (dks.disks id).operationInterval = 0 then
        { s with
          dks := dks
          accepted := accepted
          moving := Function.update s.moving id (s.moving id + 1) }
      else
        { s with
          dks := dks
          accepted := accepted
          enqueued := Function.update s.enqueued id true }

/-- `DKSSchedule`, from the mutex on. -/
def schedule (s : DksSystem D) (id timeslice : Nat) : DksSystem D :=
  let dks := dksSchedule s.dks id timeslice
  let entered := Function.update s.entered id (s.entered id - 1)
  match dksScheduleExit s.dks id timeslice with
  | .soak => { s with dks := dks, entered := entered }
  | .complete =>
      { s with
        dks := dks
        entered := entered
        moving := Function.update s.moving id (s.moving id + 1) }
  | .nextFrame =>
      { s with
        dks := dks
        entered := entered
        enqueued := Function.update s.enqueued id true }

/-- The end of `DKSCompleteTransfer`. -/
def finish (s : DksSystem D) (id : Nat) : DksSystem D :=
  { s with
    dks := dksFinish s.dks id
    moved := Function.update s.moved id (s.moved id - 1)
    finished := Function.update s.finished id (s.finished id + 1) }

/-- The controller is started, and no disk is queued. -/
def start (dks : Dks D) : DksSystem D where
  dks := dks
  enqueued := fun _ => false
  held := fun _ => false
  entered := fun _ => 0
  moving := fun _ => 0
  moved := fun _ => 0
  accepted := fun _ => []
  performed := fun _ => []
  finished := fun _ => 0

variable [EBusDevices D]

/-- What `DKSCompleteTransfer` does without the mutex. -/
def transfer (s : DksSystem D) (id : Nat) : DksSystem D :=
  { s with
    dks := dksTransfer s.dks id
    performed := Function.update s.performed id (s.performed id ++ [(s.dks.disks id).transfer])
    moving := Function.update s.moving id (s.moving id - 1)
    moved := Function.update s.moved id (s.moved id + 1) }

end DksSystem

variable [EBusDevices D]

/-- A step of some thread. A disk may be moved to the work list whenever it is queued. -/
inductive DksSystemStep (s : DksSystem D) : DksSystemOp D → DksSystem D → Prop
  | writeCmd (value : Word) (interval : Nat) :
      DksSystemStep s (.writeCmd value interval) (s.writeCmd value interval)
  | writePortA (value : Word) :
      DksSystemStep s (.writePortA value) { s with dks := { s.dks with portA := value } }
  | writePortB (value : Word) :
      DksSystemStep s (.writePortB value) { s with dks := { s.dks with portB := value } }
  | dequeue (id : Nat) (queue : s.enqueued id = true) :
      DksSystemStep s (.dequeue id)
        { s with
          enqueued := Function.update s.enqueued id false
          entered := Function.update s.entered id (s.entered id + 1) }
  | clearEntry (id : Nat) (queue : s.enqueued id = true) :
      DksSystemStep s (.clearEntry id)
        { s with
          enqueued := Function.update s.enqueued id false
          held := Function.update s.held id true }
  | requeue (id : Nat) (hand : s.held id = true) :
      DksSystemStep s (.requeue id)
        { s with
          enqueued := Function.update s.enqueued id true
          held := Function.update s.held id false }
  | schedule (id timeslice : Nat) (thread : s.entered id ≠ 0) :
      DksSystemStep s (.schedule id timeslice) (s.schedule id timeslice)
  | transfer (id : Nat) (thread : s.moving id ≠ 0) :
      DksSystemStep s (.transfer id) (s.transfer id)
  | finish (id : Nat) (thread : s.moved id ≠ 0) :
      DksSystemStep s (.finish id) (s.finish id)
  | reset : DksSystemStep s .reset { s with dks := dksReset s.dks }
  | others (bus : XrStation D) (size : bus.ram.size = s.dks.bus.ram.size) :
      DksSystemStep s (.others bus) { s with dks := { s.dks with bus := bus } }

/-- The states of every interleaving. -/
inductive DksSystem.Reach : DksSystem D → Prop
  | start {dks : Dks D} (started : DksStarted dks) : Reach (DksSystem.start dks)
  | step {s s' : DksSystem D} {op : DksSystemOp D} (h : Reach s) (step : DksSystemStep s op s') :
      Reach s'

end

/-! ## The law of a disk -/

variable {D : Type}

namespace DksSystem

/-- The disk's schedulable is queued, or on its way to the work list, or a thread runs it. -/
def Waits (s : DksSystem D) (id : Nat) : Prop :=
  s.enqueued id = true ∨ s.held id = true ∨ s.entered id ≠ 0

/-- The command whose data has not been moved. -/
def outstanding (s : DksSystem D) (id : Nat) : List DksTransfer :=
  if s.dks.busy id = true ∧ (s.dks.disks id).transferred = false then
    [(s.dks.disks id).transfer]
  else []

/-- At most one thread completes a command of the disk; the transfers performed are the
commands accepted, in their order and with their parameters, but for the one outstanding;
the disk is busy from the acceptance of a command to its end; and while it is busy, it is
being completed or its schedulable will get to it. -/
structure Lawful (s : DksSystem D) (id : Nat) : Prop where
  completers : s.moving id + s.moved id = (s.dks.disks id).completing.toNat
  moved : s.moved id = (s.dks.disks id).transferred.toNat
  once : s.accepted id = s.performed id ++ s.outstanding id
  count : (s.accepted id).length = s.finished id + (s.dks.busy id).toNat
  waits : s.dks.busy id = true → (s.dks.disks id).completing = false → s.Waits id

end DksSystem

/-! ## The commands -/

/-- A command that does not start a transfer leaves the disks alone. -/
theorem dksWriteCmd_registers {s s' : Dks D} {value : Word} {interval : Nat}
    (hvalue : dksCommand value = none) (h : dksWriteCmd s value interval = some s') :
    s'.disks = s.disks ∧ s'.status = s.status ∧ s'.asynchronous = s.asynchronous := by
  unfold dksCommand at hvalue
  by_cases h2 : value = 2
  · rw [if_pos h2] at hvalue
    cases hvalue
  rw [if_neg h2] at hvalue
  by_cases h3 : value = 3
  · rw [if_pos h3] at hvalue
    cases hvalue
  unfold dksWriteCmd at h
  rw [if_neg h2, if_neg h3] at h
  repeat' split at h
  all_goals first
    | (cases h; exact ⟨rfl, rfl, rfl⟩)
    | cases h

theorem dksWriteCmd_command {s : Dks D} {value : Word} {interval : Nat} {ioType : DksIoType}
    (hvalue : dksCommand value = some ioType) :
    dksWriteCmd s value interval = dksDispatchIo s ioType interval := by
  unfold dksCommand at hvalue
  unfold dksWriteCmd
  by_cases h2 : value = 2
  · rw [if_pos h2] at hvalue
    cases hvalue
    subst h2
    rfl
  · rw [if_neg h2] at hvalue
    by_cases h3 : value = 3
    · rw [if_pos h3] at hvalue
      cases hvalue
      subst h3
      rfl
    · rw [if_neg h3] at hvalue
      cases hvalue

/-- A write that no disk accepts as a command leaves the disks alone. -/
theorem dksAccepted_none {s : Dks D} {value : Word} {interval : Nat}
    (h : dksAccepted s value interval = none) :
    ((dksWriteCmd s value interval).getD s).disks = s.disks ∧
      ((dksWriteCmd s value interval).getD s).status = s.status := by
  cases hvalue : dksCommand value with
  | none =>
      cases hcmd : dksWriteCmd s value interval with
      | none => exact ⟨rfl, rfl⟩
      | some s' =>
          obtain ⟨hdisks, hstatus, -⟩ := dksWriteCmd_registers hvalue hcmd
          exact ⟨hdisks, hstatus⟩
  | some ioType =>
      rw [dksWriteCmd_command hvalue]
      cases hdispatch : dksDispatchIo s ioType interval with
      | none => exact ⟨rfl, rfl⟩
      | some s' =>
          obtain ⟨id, hd⟩ := dksDispatchIo_dispatched hdispatch
          unfold dksAccepted at h
          simp [hvalue, hd.selected, hdispatch] at h

/-- The disk of an accepted command is being completed exactly when it takes no time. -/
theorem dksDispatchIo_completing {s s' : Dks D} {ioType : DksIoType} {interval : Nat}
    {id : Nat} (h : dksDispatchIo s ioType interval = some s') (hd : s.selected = some id) :
    (s'.disks id).completing =
      ((s.disks id).completing || decide ((s'.disks id).operationInterval = 0)) := by
  unfold dksDispatchIo at h
  rw [hd] at h
  dsimp only at h
  split at h
  · cases h
  · split at h
    · cases h
    · split at h
      · cases h
      · cases h
        rw [Dks.setDisk_disks, if_pos rfl]

/-- What is known of a command that is accepted. -/
structure DksAccepts (s : Dks D) (id : Nat) (t : DksTransfer) (s' : Dks D) : Prop where
  idle : s.busy id = false
  busy : ∀ j, s'.busy j = (s.busy j || decide (j = id))
  latched : t = ⟨t.ioType, s.transferAddress, s.portA, s.transferCount⟩
  transfer : (s'.disks id).transfer = t
  transferred : (s'.disks id).transferred = (s.disks id).transferred
  completing : (s'.disks id).completing =
    ((s.disks id).completing || decide ((s'.disks id).operationInterval = 0))
  image : (s'.disks id).image = (s.disks id).image
  temporaryBuffer : (s'.disks id).temporaryBuffer = (s.disks id).temporaryBuffer
  other : ∀ j, j ≠ id → s'.disks j = s.disks j

theorem dksAccepted_some {s : Dks D} {value : Word} {interval : Nat} {id : Nat}
    {t : DksTransfer} (hinv : DksInv s) (h : dksAccepted s value interval = some (id, t)) :
    DksAccepts s id t ((dksWriteCmd s value interval).getD s) := by
  unfold dksAccepted at h
  split at h
  · rename_i ioType id' hvalue hsel
    rw [dksWriteCmd_command hvalue]
    cases hdispatch : dksDispatchIo s ioType interval with
    | none => simp [hdispatch] at h
    | some s' =>
        simp only [hdispatch, Option.isSome_some, if_true, Option.some.injEq, Prod.mk.injEq] at h
        obtain ⟨rfl, rfl⟩ := h
        obtain ⟨id, hd⟩ := dksDispatchIo_dispatched hdispatch
        have hid : id = id' := Option.some.inj (hd.selected.symm.trans hsel)
        subst hid
        have hcompleting := dksDispatchIo_completing hdispatch hsel
        have hbusy := hd.busy (hinv.selected id hsel)
        rw [Option.getD_some]
        obtain ⟨interval', completing, rfl⟩ := hd.result
        refine ⟨hd.idle, hbusy, rfl, ?_, ?_, hcompleting, ?_, ?_, fun j hj => ?_⟩
        · rw [Dks.setDisk_disks, if_pos rfl]
        · rw [Dks.setDisk_disks, if_pos rfl]
        · rw [Dks.setDisk_disks, if_pos rfl]
        · rw [Dks.setDisk_disks, if_pos rfl]
        · rw [Dks.setDisk_disks, if_neg hj]
  · cases h

/-! ## A run of the schedulable -/

theorem dksScheduleExit_soak {s : Dks D} {id timeslice : Nat}
    (h : dksScheduleExit s id timeslice = .soak) :
    (s.busy id = true → (s.disks id).completing = true) ∧ dksSchedule s id timeslice = s := by
  unfold dksScheduleExit at h
  by_cases hoff : (!s.busy id || (s.disks id).completing) = true
  · refine ⟨fun hbusy => ?_, ?_⟩
    · rw [hbusy] at hoff
      exact hoff
    · unfold dksSchedule
      exact if_pos hoff
  · rw [if_neg hoff] at h
    split at h
    · cases h
    · cases h

theorem dksScheduleExit_complete {s : Dks D} {id timeslice : Nat}
    (h : dksScheduleExit s id timeslice = .complete) :
    s.busy id = true ∧ (s.disks id).completing = false ∧
      dksSchedule s id timeslice = s.setDisk id { s.disks id with completing := true } := by
  unfold dksScheduleExit at h
  by_cases hoff : (!s.busy id || (s.disks id).completing) = true
  · rw [if_pos hoff] at h
    cases h
  · rw [if_neg hoff] at h
    have hon := hoff
    simp only [Bool.or_eq_true, Bool.not_eq_true', not_or, Bool.not_eq_false,
      Bool.not_eq_true] at hon
    by_cases htime : timeslice ≥ (s.disks id).operationInterval
    · refine ⟨hon.1, hon.2, ?_⟩
      unfold dksSchedule
      exact (if_neg hoff).trans (if_pos htime)
    · rw [if_neg htime] at h
      cases h

theorem dksScheduleExit_nextFrame {s : Dks D} {id timeslice : Nat}
    (h : dksScheduleExit s id timeslice = .nextFrame) :
    dksSchedule s id timeslice = s.setDisk id
      { s.disks id with operationInterval := (s.disks id).operationInterval - timeslice } := by
  unfold dksScheduleExit at h
  by_cases hoff : (!s.busy id || (s.disks id).completing) = true
  · rw [if_pos hoff] at h
    cases h
  · rw [if_neg hoff] at h
    by_cases htime : timeslice ≥ (s.disks id).operationInterval
    · rw [if_pos htime] at h
      cases h
    · unfold dksSchedule
      exact (if_neg hoff).trans (if_neg htime)

/-! ## Each step keeps the law -/

namespace DksSystem

variable {s r : DksSystem D} {id j : Nat}

/-- What the law of a disk is about, its queues apart. -/
structure SameDisk (s r : DksSystem D) (j : Nat) : Prop where
  completing : (r.dks.disks j).completing = (s.dks.disks j).completing
  transferred : (r.dks.disks j).transferred = (s.dks.disks j).transferred
  transfer : (r.dks.disks j).transfer = (s.dks.disks j).transfer
  busy : r.dks.busy j = s.dks.busy j
  moving : r.moving j = s.moving j
  moved : r.moved j = s.moved j
  accepted : r.accepted j = s.accepted j
  performed : r.performed j = s.performed j
  finished : r.finished j = s.finished j

theorem SameDisk.of_disks (hdisks : r.dks.disks j = s.dks.disks j)
    (hbusy : r.dks.busy j = s.dks.busy j) (hmoving : r.moving j = s.moving j)
    (hmoved : r.moved j = s.moved j) (haccepted : r.accepted j = s.accepted j)
    (hperformed : r.performed j = s.performed j) (hfinished : r.finished j = s.finished j) :
    SameDisk s r j :=
  ⟨by rw [hdisks], by rw [hdisks], by rw [hdisks], hbusy, hmoving, hmoved, haccepted,
    hperformed, hfinished⟩

theorem Lawful.keep (h : s.Lawful j) (hsame : SameDisk s r j) (hwaits : s.Waits j → r.Waits j) :
    r.Lawful j := by
  have houtstanding : r.outstanding j = s.outstanding j := by
    unfold outstanding
    rw [hsame.busy, hsame.transferred, hsame.transfer]
  constructor
  · rw [hsame.moving, hsame.moved, hsame.completing]
    exact h.completers
  · rw [hsame.moved, hsame.transferred]
    exact h.moved
  · rw [hsame.accepted, hsame.performed, houtstanding]
    exact h.once
  · rw [hsame.accepted, hsame.finished, hsame.busy]
    exact h.count
  · rw [hsame.busy, hsame.completing]
    exact fun hbusy hcompleting => hwaits (h.waits hbusy hcompleting)

/-- An idle disk has nothing under way. -/
theorem Lawful.idle (h : s.Lawful id) (hinv : DksInv s.dks) (hidle : s.dks.busy id = false) :
    (s.dks.disks id).completing = false ∧ (s.dks.disks id).transferred = false ∧
      s.moving id = 0 ∧ s.moved id = 0 ∧ s.accepted id = s.performed id ∧
      (s.accepted id).length = s.finished id := by
  have hcompleting : (s.dks.disks id).completing = false := by
    rw [Bool.eq_false_iff]
    intro hc
    rw [hinv.working id (Or.inl hc)] at hidle
    cases hidle
  have hsum := h.completers
  have hmoved := h.moved
  have hcount := h.count
  have honce := h.once
  unfold outstanding at honce
  rw [hcompleting, Bool.toNat_false] at hsum
  rw [hidle, Bool.toNat_false] at hcount
  rw [if_neg (fun hboth => by rw [hidle] at hboth; cases hboth.1), List.append_nil] at honce
  have htransferred : (s.dks.disks id).transferred = false := by
    cases ht : (s.dks.disks id).transferred with
    | false => rfl
    | true =>
        rw [ht, Bool.toNat_true] at hmoved
        omega
  exact ⟨hcompleting, htransferred, by omega, by omega, honce, by omega⟩

theorem lawful_writeCmd (hinv : DksInv s.dks) (h : ∀ j, s.Lawful j) (value : Word)
    (interval : Nat) (j : Nat) : (s.writeCmd value interval).Lawful j := by
  unfold writeCmd
  cases haccepted : dksAccepted s.dks value interval with
  | none =>
      obtain ⟨hdisks, hstatus⟩ := dksAccepted_none haccepted
      refine (h j).keep (SameDisk.of_disks ?_ ?_ rfl rfl rfl rfl rfl) fun hw => hw
      · exact congrFun hdisks j
      · exact congrArg (·.getLsbD j) hstatus
  | some command =>
      obtain ⟨id, t⟩ := command
      have hd := dksAccepted_some hinv haccepted
      dsimp only
      generalize (dksWriteCmd s.dks value interval).getD s.dks = dks at hd
      by_cases hj : j = id
      · subst hj
        obtain ⟨hcompleting, htransferred, hmoving, hmoved, honce, hcount⟩ :=
          (h j).idle hinv hd.idle
        have hbusy : dks.busy j = true := by
          rw [hd.busy]
          simp
        have hout : ∀ r : DksSystem D, r.dks = dks → r.outstanding j = [t] := by
          rintro r rfl
          unfold outstanding
          rw [if_pos ⟨hbusy, hd.transferred.trans htransferred⟩, hd.transfer]
        have hnew := hd.completing
        rw [hcompleting, Bool.false_or] at hnew
        by_cases hnow : (dks.disks j).operationInterval = 0
        · -- The processor that gives the command completes it.
          rw [decide_eq_true hnow] at hnew
          rw [if_pos hnow]
          refine ⟨?_, ?_, ?_, ?_, ?_⟩
          · show Function.update s.moving j _ j + s.moved j = _
            rw [Function.update_self, hnew, hmoving, hmoved]
            rfl
          · show s.moved j = _
            rw [hd.transferred, htransferred, hmoved]
            rfl
          · rw [hout _ rfl]
            show Function.update s.accepted j _ j = s.performed j ++ [t]
            rw [Function.update_self, honce]
          · show (Function.update s.accepted j _ j).length = s.finished j + (dks.busy j).toNat
            rw [Function.update_self, hbusy, List.length_append, hcount]
            rfl
          · intro _ hfalse
            change (dks.disks j).completing = false at hfalse
            rw [hnew] at hfalse
            cases hfalse
        · rw [decide_eq_false hnow] at hnew
          rw [if_neg hnow]
          refine ⟨?_, ?_, ?_, ?_, ?_⟩
          · show s.moving j + s.moved j = _
            rw [hnew, hmoving, hmoved]
            rfl
          · show s.moved j = _
            rw [hd.transferred, htransferred, hmoved]
            rfl
          · rw [hout _ rfl]
            show Function.update s.accepted j _ j = s.performed j ++ [t]
            rw [Function.update_self, honce]
          · show (Function.update s.accepted j _ j).length = s.finished j + (dks.busy j).toNat
            rw [Function.update_self, hbusy, List.length_append, hcount]
            rfl
          · exact fun _ _ => Or.inl (Function.update_self _ _ _)
      · have hbusy : dks.busy j = s.dks.busy j := by
          rw [hd.busy]
          simp [hj]
        split
        · exact (h j).keep (SameDisk.of_disks (hd.other j hj) hbusy
            (Function.update_of_ne hj _ _) rfl (Function.update_of_ne hj _ _) rfl rfl)
            fun hw => hw
        · refine (h j).keep (SameDisk.of_disks (hd.other j hj) hbusy rfl rfl
            (Function.update_of_ne hj _ _) rfl rfl) ?_
          rintro (henq | hother)
          · exact Or.inl ((Function.update_of_ne hj _ _).trans henq)
          · exact Or.inr hother

theorem lawful_schedule (h : ∀ j, s.Lawful j) (id timeslice j : Nat) :
    (s.schedule id timeslice).Lawful j := by
  have hentered : j ≠ id → Function.update s.entered id (s.entered id - 1) j = s.entered j :=
    fun hj => Function.update_of_ne hj _ _
  unfold schedule
  cases hexit : dksScheduleExit s.dks id timeslice with
  | soak =>
      -- Nothing is left for this run: the disk is idle or being completed.
      obtain ⟨hdone, hsame⟩ := dksScheduleExit_soak hexit
      dsimp only
      rw [hsame]
      by_cases hj : j = id
      · subst hj
        refine ⟨(h j).completers, (h j).moved, (h j).once, (h j).count, ?_⟩
        intro hbusy hcompleting
        rw [hdone hbusy] at hcompleting
        cases hcompleting
      · refine (h j).keep (SameDisk.of_disks rfl rfl rfl rfl rfl rfl rfl) ?_
        rintro (henq | hheld | hrun)
        · exact Or.inl henq
        · exact Or.inr (Or.inl hheld)
        · refine Or.inr (Or.inr ?_)
          show Function.update s.entered id _ j ≠ 0
          rw [hentered hj]
          exact hrun
  | complete =>
      obtain ⟨hbusy, hcompleting, hset⟩ := dksScheduleExit_complete hexit
      dsimp only
      rw [hset]
      by_cases hj : j = id
      · subst hj
        have hsum := (h j).completers
        rw [hcompleting, Bool.toNat_false] at hsum
        refine ⟨?_, ?_, ?_, (h j).count, ?_⟩
        · show Function.update s.moving j _ j + s.moved j = _
          rw [Function.update_self, Dks.setDisk_disks, if_pos rfl, Bool.toNat_true]
          omega
        · rw [Dks.setDisk_disks, if_pos rfl]
          exact (h j).moved
        · have honce := (h j).once
          unfold outstanding at honce ⊢
          rw [Dks.setDisk_disks, if_pos rfl]
          exact honce
        · intro _ hfalse
          rw [Dks.setDisk_disks, if_pos rfl] at hfalse
          cases hfalse
      · refine (h j).keep (SameDisk.of_disks ?_ rfl (Function.update_of_ne hj _ _) rfl rfl rfl
          rfl) ?_
        · rw [Dks.setDisk_disks, if_neg hj]
        · rintro (henq | hheld | hrun)
          · exact Or.inl henq
          · exact Or.inr (Or.inl hheld)
          · refine Or.inr (Or.inr ?_)
            show Function.update s.entered id _ j ≠ 0
            rw [hentered hj]
            exact hrun
  | nextFrame =>
      have hset := dksScheduleExit_nextFrame hexit
      dsimp only
      rw [hset]
      by_cases hj : j = id
      · subst hj
        have hsame : SameDisk s
            { s with
              dks := s.dks.setDisk j { s.dks.disks j with
                operationInterval := (s.dks.disks j).operationInterval - timeslice }
              entered := Function.update s.entered j (s.entered j - 1)
              enqueued := Function.update s.enqueued j true } j := by
          refine ⟨?_, ?_, ?_, rfl, rfl, rfl, rfl, rfl, rfl⟩
          · rw [Dks.setDisk_disks, if_pos rfl]
          · rw [Dks.setDisk_disks, if_pos rfl]
          · rw [Dks.setDisk_disks, if_pos rfl]
        exact (h j).keep hsame fun _ => Or.inl (Function.update_self _ _ _)
      · refine (h j).keep (SameDisk.of_disks ?_ rfl rfl rfl rfl rfl rfl) ?_
        · rw [Dks.setDisk_disks, if_neg hj]
        · rintro (henq | hheld | hrun)
          · exact Or.inl ((Function.update_of_ne hj _ _).trans henq)
          · exact Or.inr (Or.inl hheld)
          · refine Or.inr (Or.inr ?_)
            show Function.update s.entered id _ j ≠ 0
            rw [hentered hj]
            exact hrun

theorem Lawful.transferred (h : s.Lawful id) (hthread : s.moved id ≠ 0) :
    (s.dks.disks id).transferred = true := by
  have hmoved := h.moved
  cases ht : (s.dks.disks id).transferred with
  | true => rfl
  | false =>
      rw [ht, Bool.toNat_false] at hmoved
      exact absurd hmoved hthread

/-- The thread that is about to access the file of a disk is the one that completes its
command. -/
theorem Lawful.completing (h : s.Lawful id) (hthread : s.moving id ≠ 0) :
    (s.dks.disks id).completing = true ∧ (s.dks.disks id).transferred = false := by
  have hsum := h.completers
  have hmoved := h.moved
  have hle := Bool.toNat_le (s.dks.disks id).completing
  constructor
  · cases hc : (s.dks.disks id).completing with
    | true => rfl
    | false =>
        rw [hc, Bool.toNat_false] at hsum
        omega
  · cases ht : (s.dks.disks id).transferred with
    | false => rfl
    | true =>
        rw [ht, Bool.toNat_true] at hmoved
        omega

theorem lawful_finish (hinv : DksInv s.dks) (h : ∀ j, s.Lawful j) (id : Nat)
    (hthread : s.moved id ≠ 0) (j : Nat) : (s.finish id).Lawful j := by
  unfold finish
  by_cases hj : j = id
  · subst hj
    have hmoved := (h j).moved
    have hsum := (h j).completers
    have hcount := (h j).count
    have hle := Bool.toNat_le (s.dks.disks j).completing
    have htransferred := (h j).transferred hthread
    have hbusy := hinv.working j (Or.inr htransferred)
    have hidle : (dksFinish s.dks j).busy j = false := dksFinish_idle (Dks.busy_lt hbusy)
    rw [htransferred, Bool.toNat_true] at hmoved
    rw [hbusy, Bool.toNat_true] at hcount
    refine ⟨?_, ?_, ?_, ?_, ?_⟩
    · show s.moving j + Function.update s.moved j _ j = _
      rw [Function.update_self, dksFinish_disks, if_pos rfl, Bool.toNat_false]
      omega
    · show Function.update s.moved j _ j = _
      rw [Function.update_self, dksFinish_disks, if_pos rfl, Bool.toNat_false]
      omega
    · have honce := (h j).once
      unfold outstanding at honce ⊢
      rw [if_neg (fun hboth => by rw [htransferred] at hboth; cases hboth.2)] at honce
      rw [if_neg (fun hboth => by rw [hidle] at hboth; cases hboth.1)]
      exact honce
    · show (s.accepted j).length = Function.update s.finished j _ j + _
      rw [Function.update_self, hidle, Bool.toNat_false]
      exact hcount
    · intro hfalse
      change (dksFinish s.dks j).busy j = true at hfalse
      rw [hidle] at hfalse
      cases hfalse
  · refine (h j).keep (SameDisk.of_disks ?_ (dksFinish_busy hj) rfl
      (Function.update_of_ne hj _ _) rfl rfl (Function.update_of_ne hj _ _)) fun hw => hw
    rw [dksFinish_disks, if_neg hj]

variable [EBusDevices D]

theorem lawful_transfer (hinv : DksInv s.dks) (h : ∀ j, s.Lawful j) (id : Nat)
    (hthread : s.moving id ≠ 0) (j : Nat) : (s.transfer id).Lawful j := by
  have hbusyEq : ∀ k, (dksTransfer s.dks id).busy k = s.dks.busy k :=
    fun k => congrArg (·.getLsbD k) (dksTransfer_status s.dks id)
  unfold transfer
  by_cases hj : j = id
  · subst hj
    obtain ⟨hcompletingEq, htransferredNew⟩ := dksTransfer_disk s.dks j
    have hsum := (h j).completers
    have hmoved := (h j).moved
    have hle := Bool.toNat_le (s.dks.disks j).completing
    obtain ⟨hcompleting, htransferred⟩ := (h j).completing hthread
    rw [hcompleting, Bool.toNat_true] at hsum
    have hbusy := hinv.working j (Or.inl hcompleting)
    refine ⟨?_, ?_, ?_, ?_, ?_⟩
    · show Function.update s.moving j _ j + Function.update s.moved j _ j = _
      rw [Function.update_self, Function.update_self, hcompletingEq, hcompleting,
        Bool.toNat_true]
      omega
    · show Function.update s.moved j _ j = _
      rw [Function.update_self, htransferredNew, Bool.toNat_true]
      omega
    · have honce := (h j).once
      unfold outstanding at honce ⊢
      rw [if_pos ⟨hbusy, htransferred⟩] at honce
      rw [if_neg (fun hboth => by rw [htransferredNew] at hboth; cases hboth.2)]
      show s.accepted j = Function.update s.performed j _ j ++ []
      rw [Function.update_self, List.append_nil]
      exact honce
    · show (s.accepted j).length = s.finished j + ((dksTransfer s.dks j).busy j).toNat
      rw [hbusyEq]
      exact (h j).count
    · intro _ hfalse
      change ((dksTransfer s.dks j).disks j).completing = false at hfalse
      rw [hcompletingEq, hcompleting] at hfalse
      cases hfalse
  · exact (h j).keep (SameDisk.of_disks (dksTransfer_other s.dks hj) (hbusyEq j)
      (Function.update_of_ne hj _ _) (Function.update_of_ne hj _ _) rfl
      (Function.update_of_ne hj _ _) rfl) fun hw => hw

theorem lawful_step {s' : DksSystem D} {op : DksSystemOp D} (hinv : DksInv s.dks)
    (h : ∀ j, s.Lawful j) (hstep : DksSystemStep s op s') (j : Nat) : s'.Lawful j := by
  cases hstep with
  | writeCmd value interval => exact lawful_writeCmd hinv h value interval j
  | writePortA value =>
      exact (h j).keep (SameDisk.of_disks rfl rfl rfl rfl rfl rfl rfl) fun hw => hw
  | writePortB value =>
      exact (h j).keep (SameDisk.of_disks rfl rfl rfl rfl rfl rfl rfl) fun hw => hw
  | dequeue id queue =>
      refine (h j).keep (SameDisk.of_disks rfl rfl rfl rfl rfl rfl rfl) fun hw => ?_
      by_cases hj : j = id
      · subst hj
        refine Or.inr (Or.inr ?_)
        show Function.update s.entered j _ j ≠ 0
        rw [Function.update_self]
        exact Nat.succ_ne_zero _
      · refine hw.imp (fun henq => ?_) (Or.imp_right fun hrun => ?_)
        · exact (Function.update_of_ne hj _ _).trans henq
        · show Function.update s.entered id _ j ≠ 0
          rw [Function.update_of_ne hj]
          exact hrun
  | clearEntry id queue =>
      refine (h j).keep (SameDisk.of_disks rfl rfl rfl rfl rfl rfl rfl) fun hw => ?_
      by_cases hj : j = id
      · subst hj
        exact Or.inr (Or.inl (Function.update_self _ _ _))
      · refine hw.imp (fun henq => ?_) (Or.imp_left fun hheld => ?_)
        · exact (Function.update_of_ne hj _ _).trans henq
        · exact (Function.update_of_ne hj _ _).trans hheld
  | requeue id hand =>
      refine (h j).keep (SameDisk.of_disks rfl rfl rfl rfl rfl rfl rfl) fun hw => ?_
      by_cases hj : j = id
      · subst hj
        exact Or.inl (Function.update_self _ _ _)
      · refine hw.imp (fun henq => ?_) (Or.imp_left fun hheld => ?_)
        · exact (Function.update_of_ne hj _ _).trans henq
        · exact (Function.update_of_ne hj _ _).trans hheld
  | schedule id timeslice thread => exact lawful_schedule h id timeslice j
  | transfer id thread => exact lawful_transfer hinv h id thread j
  | finish id thread => exact lawful_finish hinv h id thread j
  | reset => exact (h j).keep (SameDisk.of_disks rfl rfl rfl rfl rfl rfl rfl) fun hw => hw
  | others bus size =>
      exact (h j).keep (SameDisk.of_disks rfl rfl rfl rfl rfl rfl rfl) fun hw => hw

omit [EBusDevices D] in
theorem writeCmd_dks (s : DksSystem D) (value : Word) (interval : Nat) :
    (s.writeCmd value interval).dks = (dksWriteCmd s.dks value interval).getD s.dks := by
  unfold writeCmd
  cases dksAccepted s.dks value interval with
  | none => rfl
  | some command =>
      dsimp only
      split <;> rfl

omit [EBusDevices D] in
theorem schedule_dks (s : DksSystem D) (id timeslice : Nat) :
    (s.schedule id timeslice).dks = dksSchedule s.dks id timeslice := by
  unfold schedule
  cases dksScheduleExit s.dks id timeslice <;> rfl

/-- A step of the system is one of the controller, or none. -/
theorem dks_step {s' : DksSystem D} {op : DksSystemOp D} (h : ∀ j, s.Lawful j)
    (hstep : DksSystemStep s op s') : s'.dks = s.dks ∨
    ∃ op', DksStep s.dks op' s'.dks := by
  cases hstep with
  | writeCmd value interval =>
      rw [writeCmd_dks]
      exact Or.inr ⟨_, .writeCmd s.dks value interval⟩
  | writePortA value => exact Or.inr ⟨_, .writePortA s.dks value⟩
  | writePortB value => exact Or.inr ⟨_, .writePortB s.dks value⟩
  | dequeue id queue => exact Or.inl rfl
  | clearEntry id queue => exact Or.inl rfl
  | requeue id hand => exact Or.inl rfl
  | schedule id timeslice thread =>
      rw [schedule_dks]
      exact Or.inr ⟨_, .schedule s.dks id timeslice⟩
  | transfer id thread =>
      obtain ⟨hcompleting, htransferred⟩ := (h id).completing thread
      exact Or.inr ⟨_, .transfer s.dks id hcompleting htransferred⟩
  | finish id thread => exact Or.inr ⟨_, .finish s.dks id ((h id).transferred thread)⟩
  | reset => exact Or.inr ⟨_, .reset s.dks⟩
  | others bus size => exact Or.inr ⟨_, .others s.dks bus size⟩

theorem lawful_reach (hreach : s.Reach) : DksReach s.dks ∧ ∀ j, s.Lawful j := by
  induction hreach with
  | @start dks started =>
      refine ⟨.start started, fun j => ?_⟩
      have hidle : dks.busy j = false := by
        unfold Dks.busy
        rw [started.status]
        exact BitVec.getLsbD_zero
      have hdisk : (dks.disks j).completing = false ∧ (dks.disks j).transferred = false := by
        rcases started.disks j with hnone | ⟨image, length, himage⟩
        · rw [hnone]
          exact ⟨rfl, rfl⟩
        · rw [himage]
          exact ⟨rfl, rfl⟩
      refine ⟨?_, ?_, ?_, ?_, ?_⟩
      · show 0 = (dks.disks j).completing.toNat
        rw [hdisk.1]
        rfl
      · show 0 = (dks.disks j).transferred.toNat
        rw [hdisk.2]
        rfl
      · unfold outstanding
        exact (if_neg fun hboth => by cases hidle.symm.trans hboth.1).symm
      · show 0 = 0 + (dks.busy j).toNat
        rw [hidle]
        rfl
      · intro hbusy
        cases hidle.symm.trans hbusy
  | step _ hstep ih =>
      obtain ⟨hdks, hlaw⟩ := ih
      have hinv := dksInv_reach hdks
      refine ⟨?_, lawful_step hinv hlaw hstep⟩
      rcases dks_step hlaw hstep with heq | ⟨op', hstep'⟩
      · rw [heq]
        exact hdks
      · exact hdks.step hstep'

/-- The data of a command that some thread completes is still to be moved. -/
theorem pending_moving (hreach : DksReach s.dks) (h : s.Lawful id) (hthread : s.moving id ≠ 0) :
    Pending s.dks id (s.dks.disks id).transfer := by
  obtain ⟨hcompleting, htransferred⟩ := h.completing hthread
  exact allPending_reach hreach id ((dksInv_reach hreach).working id (Or.inl hcompleting))
    htransferred

/-! ## Exactly once -/

/-- What a step does to the disks. -/
structure KeepsDisks (s : DksSystem D) (op : DksSystemOp D) (s' : DksSystem D) : Prop where
  /-- A command is accepted by an idle disk, with the registers as they are. -/
  accepts : ∀ value interval id t, op = .writeCmd value interval →
    dksAccepted s.dks value interval = some (id, t) →
    s.dks.busy id = false ∧ s'.dks.busy id = true ∧ s'.accepted id = s.accepted id ++ [t] ∧
      t = ⟨t.ioType, s.dks.transferAddress, s.dks.portA, s.dks.transferCount⟩
  /-- A busy disk accepts nothing. -/
  refuses : ∀ id, s.dks.busy id = true → s'.accepted id = s.accepted id
  /-- A disk stays busy to the end of its command, and is marked as completed there. -/
  busy : ∀ id, s.dks.busy id = true → s'.dks.busy id = false → op = .finish id
  completes : ∀ id, op = .finish id →
    s'.dks.busy id = false ∧ s'.dks.completed.getLsbD id = true
  /-- A transfer is that of the last command accepted, moves its data, and leaves no command
  outstanding. -/
  transfers : ∀ id, op = .transfer id → ∃ t, s.outstanding id = [t] ∧ s'.outstanding id = [] ∧
    s.accepted id = s.performed id ++ [t] ∧ s'.performed id = s.performed id ++ [t] ∧
    FileIo t id s.dks s'.dks
  /-- Only its transfer accesses the file of a disk. -/
  untouched : ∀ id, op ≠ .transfer id →
    (s'.dks.disks id).image = (s.dks.disks id).image ∧
      (s'.dks.disks id).temporaryBuffer = (s.dks.disks id).temporaryBuffer ∧
      s'.performed id = s.performed id

omit [EBusDevices D] in
theorem writeCmd_accepted {value : Word} {interval : Nat} {t : DksTransfer}
    (h : dksAccepted s.dks value interval = some (id, t)) :
    (s.writeCmd value interval).accepted =
      Function.update s.accepted id (s.accepted id ++ [t]) := by
  unfold writeCmd
  rw [h]
  dsimp only
  split <;> rfl

omit [EBusDevices D] in
theorem writeCmd_performed (s : DksSystem D) (value : Word) (interval : Nat) :
    (s.writeCmd value interval).performed = s.performed := by
  unfold writeCmd
  cases dksAccepted s.dks value interval with
  | none => rfl
  | some command =>
      dsimp only
      split <;> rfl

omit [EBusDevices D] in
theorem writeCmd_none {value : Word} {interval : Nat}
    (h : dksAccepted s.dks value interval = none) :
    s.writeCmd value interval =
      { s with dks := (dksWriteCmd s.dks value interval).getD s.dks } := by
  unfold writeCmd
  rw [h]

/-- A write to the command port. -/
theorem keepsDisks_writeCmd (hinv : DksInv s.dks) (value : Word) (interval : Nat) :
    KeepsDisks s (.writeCmd value interval) (s.writeCmd value interval) := by
  cases haccepted : dksAccepted s.dks value interval with
  | none =>
      obtain ⟨hdisks, hstatus⟩ := dksAccepted_none haccepted
      rw [writeCmd_none haccepted]
      refine ⟨?_, fun _ _ => rfl, ?_, fun _ => nofun, fun _ => nofun, ?_⟩
      · intro value' interval' id t heq hsome
        injection heq with hvalue hinterval
        subst hvalue hinterval
        rw [haccepted] at hsome
        cases hsome
      · intro id hbusy hidle
        change ((dksWriteCmd s.dks value interval).getD s.dks).status.getLsbD id = false at hidle
        rw [hstatus] at hidle
        cases hbusy.symm.trans hidle
      · intro id _
        exact ⟨congrArg DksDisk.image (congrFun hdisks id),
          congrArg DksDisk.temporaryBuffer (congrFun hdisks id), rfl⟩
  | some command =>
      obtain ⟨j, t⟩ := command
      have hd := dksAccepted_some hinv haccepted
      have hlists := writeCmd_accepted haccepted
      have hbusy : ∀ id, (s.writeCmd value interval).dks.busy id =
          (s.dks.busy id || decide (id = j)) := by
        rw [writeCmd_dks]
        exact hd.busy
      refine ⟨?_, ?_, ?_, fun _ => nofun, fun _ => nofun, ?_⟩
      · intro value' interval' id t' heq hsome
        injection heq with hvalue hinterval
        subst hvalue hinterval
        rw [haccepted] at hsome
        cases hsome
        refine ⟨hd.idle, ?_, ?_, hd.latched⟩
        · rw [hbusy, decide_eq_true rfl, Bool.or_true]
        · rw [hlists, Function.update_self]
      · intro id hwas
        rw [hlists]
        refine Function.update_of_ne ?_ _ _
        rintro rfl
        cases hd.idle.symm.trans hwas
      · intro id hwas hidle
        rw [hbusy, hwas, Bool.true_or] at hidle
        cases hidle
      · intro id _
        rw [writeCmd_performed, writeCmd_dks]
        by_cases hid : id = j
        · subst hid
          exact ⟨hd.image, hd.temporaryBuffer, rfl⟩
        · rw [hd.other id hid]
          exact ⟨rfl, rfl, rfl⟩

omit [EBusDevices D] in
theorem schedule_disks (s : DksSystem D) (id timeslice j : Nat) :
    (s.schedule id timeslice).dks.status = s.dks.status ∧
      ((s.schedule id timeslice).dks.disks j).image = (s.dks.disks j).image ∧
      ((s.schedule id timeslice).dks.disks j).temporaryBuffer =
        (s.dks.disks j).temporaryBuffer := by
  rw [schedule_dks]
  have hset : ∀ d : DksDisk, d.image = (s.dks.disks id).image →
      d.temporaryBuffer = (s.dks.disks id).temporaryBuffer →
      (s.dks.setDisk id d).status = s.dks.status ∧
        ((s.dks.setDisk id d).disks j).image = (s.dks.disks j).image ∧
        ((s.dks.setDisk id d).disks j).temporaryBuffer = (s.dks.disks j).temporaryBuffer := by
    intro d himage hbuffer
    rw [Dks.setDisk_disks]
    by_cases hj : j = id
    · subst hj
      rw [if_pos rfl]
      exact ⟨rfl, himage, hbuffer⟩
    · rw [if_neg hj]
      exact ⟨rfl, rfl, rfl⟩
  cases hexit : dksScheduleExit s.dks id timeslice with
  | soak =>
      rw [(dksScheduleExit_soak hexit).2]
      exact ⟨rfl, rfl, rfl⟩
  | complete =>
      rw [(dksScheduleExit_complete hexit).2.2]
      exact hset _ rfl rfl
  | nextFrame =>
      rw [dksScheduleExit_nextFrame hexit]
      exact hset _ rfl rfl

omit [EBusDevices D] in
theorem schedule_lists (s : DksSystem D) (id timeslice : Nat) :
    (s.schedule id timeslice).accepted = s.accepted ∧
      (s.schedule id timeslice).performed = s.performed := by
  unfold schedule
  cases dksScheduleExit s.dks id timeslice <;> exact ⟨rfl, rfl⟩

/-- A step that does not touch the controller's disks. -/
theorem keepsDisks_of_same {s' : DksSystem D} {op : DksSystemOp D}
    (hcmd : ∀ value interval, op ≠ .writeCmd value interval) (hfinish : ∀ id, op ≠ .finish id)
    (htransfer : ∀ id, op ≠ .transfer id) (hstatus : s'.dks.status = s.dks.status)
    (hfiles : ∀ id, (s'.dks.disks id).image = (s.dks.disks id).image ∧
      (s'.dks.disks id).temporaryBuffer = (s.dks.disks id).temporaryBuffer)
    (haccepted : s'.accepted = s.accepted) (hperformed : s'.performed = s.performed) :
    KeepsDisks s op s' := by
  refine ⟨?_, ?_, ?_, ?_, ?_, ?_⟩
  · exact fun value interval _ _ heq => absurd heq (hcmd value interval)
  · exact fun id _ => congrFun haccepted id
  · intro id hbusy hidle
    unfold Dks.busy at hbusy hidle
    rw [hstatus] at hidle
    cases hbusy.symm.trans hidle
  · exact fun id heq => absurd heq (hfinish id)
  · exact fun id heq => absurd heq (htransfer id)
  · exact fun id _ => ⟨(hfiles id).1, (hfiles id).2, congrFun hperformed id⟩

theorem keepsDisks_finish (h : s.Lawful id) (hinv : DksInv s.dks) (hthread : s.moved id ≠ 0) :
    KeepsDisks s (.finish id) (s.finish id) := by
  have hcompleted : (dksFinish s.dks id).completed = s.dks.completed ||| (1 : Word) <<< id := by
    unfold dksFinish dksInfo
    split <;> rfl
  have hlt : id < 32 := Dks.busy_lt (hinv.working id (Or.inr (h.transferred hthread)))
  refine ⟨fun _ _ _ _ => nofun, fun _ _ => rfl, ?_, ?_, fun _ => nofun, ?_⟩
  · intro j hbusy hidle
    by_cases hj : j = id
    · rw [hj]
    · change (dksFinish s.dks id).busy j = false at hidle
      rw [dksFinish_busy hj] at hidle
      cases hbusy.symm.trans hidle
  · intro j heq
    injection heq with hj
    subst hj
    constructor
    · exact dksFinish_idle hlt
    · show (dksFinish s.dks id).completed.getLsbD id = true
      rw [hcompleted, BitVec.getLsbD_or, bit_getLsbD id id hlt]
      simp
  · intro j _
    show ((dksFinish s.dks id).disks j).image = _ ∧
      ((dksFinish s.dks id).disks j).temporaryBuffer = _ ∧ _
    rw [dksFinish_disks]
    by_cases hj : j = id
    · subst hj
      rw [if_pos rfl]
      exact ⟨rfl, rfl, rfl⟩
    · rw [if_neg hj]
      exact ⟨rfl, rfl, rfl⟩

theorem keepsDisks_transfer (hreach : DksReach s.dks) (h : s.Lawful id)
    (hthread : s.moving id ≠ 0) : KeepsDisks s (.transfer id) (s.transfer id) := by
  refine ⟨fun _ _ _ _ => nofun, fun _ _ => rfl, ?_, fun _ => nofun, ?_, ?_⟩
  · intro j hbusy hidle
    change (dksTransfer s.dks id).status.getLsbD j = false at hidle
    rw [dksTransfer_status] at hidle
    cases hbusy.symm.trans hidle
  · intro j heq
    injection heq with hj
    subst hj
    have hp := pending_moving hreach h hthread
    have hbefore : s.outstanding id = [(s.dks.disks id).transfer] :=
      if_pos ⟨hp.busy, hp.transferred⟩
    have honce := h.once
    rw [hbefore] at honce
    refine ⟨_, hbefore, if_neg fun hboth => ?_, honce, Function.update_self _ _ _, hp.fileIo⟩
    have hdone : ((dksTransfer s.dks id).disks id).transferred = true :=
      (dksTransfer_disk s.dks id).2
    cases hdone.symm.trans hboth.2
  · intro j hne
    have hj : j ≠ id := by
      rintro rfl
      exact hne rfl
    show ((dksTransfer s.dks id).disks j).image = _ ∧
      ((dksTransfer s.dks id).disks j).temporaryBuffer = _ ∧
      Function.update s.performed id _ j = s.performed j
    rw [dksTransfer_other s.dks hj]
    exact ⟨rfl, rfl, Function.update_of_ne hj _ _⟩

theorem keepsDisks_step {s' : DksSystem D} {op : DksSystemOp D} (hreach : DksReach s.dks)
    (h : ∀ j, s.Lawful j) (hstep : DksSystemStep s op s') : KeepsDisks s op s' := by
  have hinv := dksInv_reach hreach
  cases hstep with
  | writeCmd value interval => exact keepsDisks_writeCmd hinv value interval
  | writePortA value =>
      exact keepsDisks_of_same (fun _ _ => nofun) (fun _ => nofun) (fun _ => nofun) rfl
        (fun _ => ⟨rfl, rfl⟩) rfl rfl
  | writePortB value =>
      exact keepsDisks_of_same (fun _ _ => nofun) (fun _ => nofun) (fun _ => nofun) rfl
        (fun _ => ⟨rfl, rfl⟩) rfl rfl
  | dequeue id queue =>
      exact keepsDisks_of_same (fun _ _ => nofun) (fun _ => nofun) (fun _ => nofun) rfl
        (fun _ => ⟨rfl, rfl⟩) rfl rfl
  | clearEntry id queue =>
      exact keepsDisks_of_same (fun _ _ => nofun) (fun _ => nofun) (fun _ => nofun) rfl
        (fun _ => ⟨rfl, rfl⟩) rfl rfl
  | requeue id hand =>
      exact keepsDisks_of_same (fun _ _ => nofun) (fun _ => nofun) (fun _ => nofun) rfl
        (fun _ => ⟨rfl, rfl⟩) rfl rfl
  | schedule id timeslice thread =>
      have hdisks := schedule_disks s id timeslice
      exact keepsDisks_of_same (fun _ _ => nofun) (fun _ => nofun) (fun _ => nofun)
        (hdisks 0).1 (fun j => (hdisks j).2) (schedule_lists s id timeslice).1
        (schedule_lists s id timeslice).2
  | transfer id thread => exact keepsDisks_transfer hreach (h id) thread
  | finish id thread => exact keepsDisks_finish (h id) hinv thread
  | reset =>
      exact keepsDisks_of_same (fun _ _ => nofun) (fun _ => nofun) (fun _ => nofun) rfl
        (fun _ => ⟨rfl, rfl⟩) rfl rfl
  | others bus size =>
      exact keepsDisks_of_same (fun _ _ => nofun) (fun _ => nofun) (fun _ => nofun) rfl
        (fun _ => ⟨rfl, rfl⟩) rfl rfl

/-- Each accepted command moves its data once, with the parameters it was accepted with; the
disk is busy meanwhile and accepts no other; and a busy disk whose command nobody completes
is queued or running. -/
structure ExactlyOnce (s : DksSystem D) : Prop where
  lawful : ∀ id, s.Lawful id
  keeps : ∀ op s', DksSystemStep s op s' → KeepsDisks s op s'

theorem disk_commands_once (hreach : s.Reach) : s.ExactlyOnce := by
  obtain ⟨hdks, hlaw⟩ := lawful_reach hreach
  exact ⟨hlaw, fun op s' hstep => keepsDisks_step hdks hlaw hstep⟩

end DksSystem

/-! ## A command that takes time -/

/-- Port A, then a command. -/
def dksSystemPorts (s : DksSystem Unit) (portA value : Word) (interval : Nat) :
    DksSystem Unit :=
  DksSystem.writeCmd { s with dks := { s.dks with portA := portA } } value interval

/-- Drive 0, two sectors to 0x1000 from sector 5, which takes 7 ms. -/
def queuedRead : DksSystem Unit :=
  dksSystemPorts (dksSystemPorts (dksSystemPorts (dksSystemPorts
    (.start { diskSample with asynchronous := true }) 0 1 0) 2 8 0) 0x1000 9 0) 5 2 7

theorem DksSystem.Reach.ports {s : DksSystem Unit} (h : s.Reach) (portA value : Word)
    (interval : Nat) : (dksSystemPorts s portA value interval).Reach :=
  .step (.step h (.writePortA portA)) (.writeCmd value interval)

theorem queuedRead_reach : queuedRead.Reach := by
  have hstart : DksStarted { diskSample with asynchronous := true } :=
    ⟨diskSample_disks, rfl, rfl, rfl, rfl⟩
  exact ((((DksSystem.Reach.start hstart).ports 0 1 0).ports 2 8 0).ports 0x1000 9 0).ports 5 2 7

theorem disk_commands_once_queued :
    queuedRead.ExactlyOnce ∧ queuedRead.enqueued 0 = true ∧
      queuedRead.accepted 0 = [⟨.read, 0x1000, 5, 2⟩] :=
  ⟨DksSystem.disk_commands_once queuedRead_reach, by decide, by decide⟩

end Xremu
