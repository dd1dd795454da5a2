import Mathlib.Data.List.Basic
import Xremu.Machine.Processor

/-!
# The serial ports: transmission

A character goes to the terminal at once while little time has been charged for the last
ones, and into the transmit buffer otherwise. The port's schedulable then drains the buffer,
a few characters in a run. All of this happens under the mutex of the terminal.

The characters that were handed on, followed by those that wait in the buffer, are the
characters that were accepted: `SerialInv.order`.

`Cost` is an integer here. In C it is an `int`: with `SerialAsynchronous` on, it grows no
further once it has reached `ACCUMULATED_COST`; with it off, every character adds to it, but
then nothing reads it, as the buffer stays empty and the schedulable is never queued.
-/

namespace Xremu

abbrev transmitBufferSize : Nat := 16

abbrev accumulatedCost : Int := 50

abbrev charsPerSchedule : Int := 4

/-- The transmitting side of a `SerialPort`, with the characters that `SerialPutCharacter`
was given and the interrupts that were raised. -/
structure SerialPort where
  doInterrupts : Bool
  transmitBuffer : Nat → Byte
  transmitBufferIndex : Nat
  sendIndex : Nat
  cost : Int
  writeBusy : Bool
  number : Nat
  enqueued : Bool
  put : List Byte
  raised : List Nat

/-- `SerialInit`. -/
def serialInit (number : Nat) : SerialPort :=
  ⟨false, fun _ => 0, 0, 0, 0, false, number, false, [], []⟩

/-- `SerialPutCharacter`. -/
def serialPutCharacter (port : SerialPort) (c : Byte) : SerialPort :=
  { port with put := port.put ++ [c] }

/-- What becomes of a character that is written. -/
inductive SerialWritten where
  | put
  | stored (scheduleForMe : Bool)
  | discarded
deriving DecidableEq

/-- `SerialWriteData`. -/
def serialWriteData (asynchronous : Bool) (port : SerialPort) (value : Word) :
    SerialPort × SerialWritten :=
  if (!asynchronous || decide (port.cost < accumulatedCost)) ∧ port.transmitBufferIndex = 0 then
    ({ serialPutCharacter port (value.setWidth 8) with cost := port.cost + 1 }, .put)
  else if port.transmitBufferIndex = transmitBufferSize then (port, .discarded)
  else
    ({ port with
        transmitBuffer :=
          Function.update port.transmitBuffer port.transmitBufferIndex (value.setWidth 8)
        transmitBufferIndex := port.transmitBufferIndex + 1
        writeBusy := port.writeBusy ||
          decide (port.transmitBufferIndex + 1 = transmitBufferSize)
        enqueued := true }, .stored (!port.enqueued))

/-- One character of the loop of `SerialSchedule`, from a buffer that is not empty. -/
def serialSendOne (port : SerialPort) : SerialPort :=
  let port := { serialPutCharacter port (port.transmitBuffer port.sendIndex) with
    sendIndex := port.sendIndex + 1 }
  if port.sendIndex = port.transmitBufferIndex then
    { port with
      sendIndex := 0
      transmitBufferIndex := 0
      writeBusy := false
      raised := if port.doInterrupts then port.raised ++ [4 + port.number] else port.raised }
  else port

/-- The loop of `SerialSchedule`. -/
def serialSend : Nat → SerialPort → SerialPort
  | 0, port => port
  | pending + 1, port =>
      if port.sendIndex < port.transmitBufferIndex then
        serialSend pending (serialSendOne port)
      else port

/-- How `SerialSchedule` leaves the port's schedulable. -/
inductive SerialExit where
  | nextFrame
  | forMe
  | done
deriving DecidableEq

/-- `port->TransmitBufferIndex - port->SendIndex`. -/
def SerialPort.unsent (port : SerialPort) : Int := port.transmitBufferIndex - port.sendIndex

/-- The number of characters that a run sends. -/
def serialPending (port : SerialPort) (timeslice : Int) : Int :=
  let pending := port.unsent
  let pending := if pending > timeslice then timeslice else pending
  if pending > charsPerSchedule then charsPerSchedule else pending

/-- `SerialSchedule` up to `exit`, and the timeslice that is left. -/
def serialRun (port : SerialPort) (timeslice : Int) : SerialPort × Int :=
  if port.cost ≠ 0 then
    if port.cost < timeslice then ({ port with cost := 0 }, timeslice - port.cost)
    else ({ port with cost := port.cost - timeslice }, 0)
  else
    let pending := serialPending port timeslice
    (serialSend pending.toNat port, timeslice - pending)

/-- The same when the timeslice of the schedulable, which bounds the characters, is no longer
the one that the run has read at its start. -/
def serialRunWith (port : SerialPort) (timeslice current : Int) : SerialPort × Int :=
  if port.cost ≠ 0 then
    if port.cost < timeslice then ({ port with cost := 0 }, timeslice - port.cost)
    else ({ port with cost := port.cost - timeslice }, 0)
  else
    let pending := serialPending port current
    (serialSend pending.toNat port, timeslice - pending)

/-- The end of `SerialSchedule`. -/
def serialExit (port : SerialPort) (timeslice : Int) : SerialPort × SerialExit :=
  if timeslice = 0 ∧ (port.cost ≠ 0 ∨ port.unsent ≠ 0) then (port, .nextFrame)
  else if timeslice ≠ 0 ∧ (port.cost ≠ 0 ∨ port.unsent ≠ 0) then (port, .forMe)
  else ({ port with enqueued := false }, .done)

/-- `SerialSchedule`: the port, what is done with its schedulable, and the timeslice that is
left in it. -/
def serialSchedule (port : SerialPort) (timeslice : Int) : SerialPort × SerialExit × Int :=
  let run := serialRun port timeslice
  let exit := serialExit run.1 run.2
  (exit.1, exit.2, run.2)

/-- `SerialWriteCMD`. -/
def serialWriteCmd (port : SerialPort) (value : Word) : SerialPort :=
  if value = 3 then { port with doInterrupts := true }
  else if value = 4 then { port with doInterrupts := false }
  else port

/-- `SerialReadCMD`. -/
def serialReadCmd (port : SerialPort) : Word := if port.writeBusy then 1 else 0

/-! ## Runs -/

/-- The port, its schedulable's `Enqueued`, whether a thread has dequeued the schedulable and
is about to run it, and the characters that were accepted. -/
structure SerialLine where
  port : SerialPort
  queued : Bool
  taken : Bool
  accepted : List Byte

inductive SerialOp where
  | writeData (value : Word)
  | writeCmd (value : Word)
  | dequeue
  | schedule (timeslice : Int)

/-- A step of the port. The timeslice that a run finds in the schedulable is any that is
not negative. -/
inductive SerialStep (asynchronous : Bool) (s : SerialLine) : SerialOp → SerialLine → Prop
  | writeData (value : Word) :
      SerialStep asynchronous s (.writeData value)
        (let reply := serialWriteData asynchronous s.port value
         { s with
            port := reply.1
            queued := s.queued || decide (reply.2 = .stored true)
            accepted :=
              if reply.2 = .discarded then s.accepted
              else s.accepted ++ [value.setWidth 8] })
  | writeCmd (value : Word) :
      SerialStep asynchronous s (.writeCmd value)
        { s with port := serialWriteCmd s.port value }
  | dequeue (queue : s.queued = true) :
      SerialStep asynchronous s .dequeue { s with queued := false, taken := true }
  | schedule (timeslice : Int) (taken : s.taken = true) (nonneg : 0 ≤ timeslice) :
      SerialStep asynchronous s (.schedule timeslice)
        (let reply := serialSchedule s.port timeslice
         { s with
            port := reply.1
            queued := s.queued || decide (reply.2.1 ≠ .done)
            taken := false })

/-- The states of every interleaving, with the setting of `SerialAsynchronous`. -/
inductive SerialReach (asynchronous : Bool) : SerialLine → Prop
  | init (number : Nat) : SerialReach asynchronous ⟨serialInit number, false, false, []⟩
  | step {s s' : SerialLine} {op : SerialOp} (h : SerialReach asynchronous s)
      (step : SerialStep asynchronous s op s') : SerialReach asynchronous s'

/-! ## The port -/

/-- The characters that wait in the buffer. -/
def SerialPort.waiting (port : SerialPort) : List Byte :=
  (List.range' port.sendIndex (port.transmitBufferIndex - port.sendIndex)).map
    port.transmitBuffer

/-- The port when `accepted` has been accepted. -/
structure SerialPort.Inv (port : SerialPort) (accepted : List Byte) : Prop where
  order : accepted = port.put ++ port.waiting
  send : port.sendIndex < port.transmitBufferIndex ∨
    (port.sendIndex = 0 ∧ port.transmitBufferIndex = 0)
  size : port.transmitBufferIndex ≤ transmitBufferSize
  busy : port.writeBusy = decide (port.transmitBufferIndex = transmitBufferSize)

theorem SerialPort.waiting_empty {port : SerialPort} (h : port.transmitBufferIndex = 0) :
    port.waiting = [] := by
  simp [SerialPort.waiting, h]

theorem SerialPort.waiting_cons {port : SerialPort}
    (h : port.sendIndex < port.transmitBufferIndex) :
    port.waiting = port.transmitBuffer port.sendIndex ::
      (List.range' (port.sendIndex + 1)
        (port.transmitBufferIndex - (port.sendIndex + 1))).map port.transmitBuffer := by
  have hlen : port.transmitBufferIndex - port.sendIndex =
      port.transmitBufferIndex - (port.sendIndex + 1) + 1 := by omega
  rw [SerialPort.waiting, hlen, List.range'_succ, List.map_cons]

/-- What a step on the port's other fields leaves as it is. -/
theorem SerialPort.Inv.congr {port port' : SerialPort} {accepted : List Byte}
    (h : port.Inv accepted) (hput : port'.put = port.put)
    (hbuffer : port'.transmitBuffer = port.transmitBuffer)
    (hindex : port'.transmitBufferIndex = port.transmitBufferIndex)
    (hsend : port'.sendIndex = port.sendIndex) (hbusy : port'.writeBusy = port.writeBusy) :
    port'.Inv accepted := by
  constructor
  · rw [hput, SerialPort.waiting, hbuffer, hindex, hsend]
    exact h.order
  · rw [hindex, hsend]
    exact h.send
  · rw [hindex]
    exact h.size
  · rw [hbusy, hindex]
    exact h.busy

theorem serialInit_inv (number : Nat) : (serialInit number).Inv [] :=
  ⟨rfl, Or.inr ⟨rfl, rfl⟩, Nat.zero_le _, rfl⟩

theorem serialSendOne_inv {port : SerialPort} {accepted : List Byte} (h : port.Inv accepted)
    (hsend : port.sendIndex < port.transmitBufferIndex) :
    (serialSendOne port).Inv accepted := by
  have horder := h.order
  rw [SerialPort.waiting_cons hsend] at horder
  unfold serialSendOne serialPutCharacter
  by_cases hlast : port.sendIndex + 1 = port.transmitBufferIndex
  · -- The buffer is empty after this character.
    rw [if_pos hlast]
    refine ⟨?_, Or.inr ⟨rfl, rfl⟩, Nat.zero_le _, rfl⟩
    rw [horder, hlast, Nat.sub_self]
    simp [SerialPort.waiting]
  · rw [if_neg hlast]
    refine ⟨?_, Or.inl ?_, h.size, h.busy⟩
    · rw [horder]
      simp [SerialPort.waiting]
    · show port.sendIndex + 1 < port.transmitBufferIndex
      omega

theorem serialSend_inv {port : SerialPort} {accepted : List Byte} (n : Nat)
    (h : port.Inv accepted) : (serialSend n port).Inv accepted := by
  induction n generalizing port with
  | zero => exact h
  | succ n ih =>
      unfold serialSend
      by_cases hsend : port.sendIndex < port.transmitBufferIndex
      · rw [if_pos hsend]
        exact ih (serialSendOne_inv h hsend)
      · rw [if_neg hsend]
        exact h

theorem serialRunWith_inv {port : SerialPort} {accepted : List Byte} (h : port.Inv accepted)
    (timeslice current : Int) : (serialRunWith port timeslice current).1.Inv accepted := by
  unfold serialRunWith
  by_cases hcost : port.cost ≠ 0
  · rw [if_pos hcost]
    split
    · exact h.congr rfl rfl rfl rfl rfl
    · exact h.congr rfl rfl rfl rfl rfl
  · rw [if_neg hcost]
    exact serialSend_inv _ h

theorem serialRun_inv {port : SerialPort} {accepted : List Byte} (h : port.Inv accepted)
    (timeslice : Int) : (serialRun port timeslice).1.Inv accepted :=
  serialRunWith_inv h timeslice timeslice

theorem serialExit_inv {port : SerialPort} {accepted : List Byte} (h : port.Inv accepted)
    (timeslice : Int) : (serialExit port timeslice).1.Inv accepted := by
  unfold serialExit
  split
  · exact h
  · split
    · exact h
    · exact h.congr rfl rfl rfl rfl rfl

/-- A character is refused only by a full buffer, and then the port says so. -/
theorem serialWriteData_discards {asynchronous : Bool} {port : SerialPort} {value : Word}
    {accepted : List Byte} (h : port.Inv accepted)
    (hgone : (serialWriteData asynchronous port value).2 = .discarded) :
    port.writeBusy = true := by
  rw [h.busy, decide_eq_true_eq]
  unfold serialWriteData at hgone
  split at hgone
  · cases hgone
  · split at hgone
    · assumption
    · cases hgone

theorem serialWriteData_inv {asynchronous : Bool} {port : SerialPort} {accepted : List Byte}
    (h : port.Inv accepted) (value : Word) :
    (serialWriteData asynchronous port value).1.Inv
      (if (serialWriteData asynchronous port value).2 = .discarded then accepted
        else accepted ++ [value.setWidth 8]) := by
  unfold serialWriteData
  by_cases himmediate : (!asynchronous || decide (port.cost < accumulatedCost)) ∧
      port.transmitBufferIndex = 0
  · -- The buffer is empty, so the character follows those that were handed on.
    rw [if_pos himmediate]
    have hempty := h.order
    rw [SerialPort.waiting_empty himmediate.2, List.append_nil] at hempty
    refine ⟨?_, h.send, h.size, h.busy⟩
    rw [if_neg (by simp), hempty]
    show port.put ++ [value.setWidth 8] = port.put ++ [value.setWidth 8] ++ port.waiting
    rw [SerialPort.waiting_empty himmediate.2, List.append_nil]
  · rw [if_neg himmediate]
    by_cases hfull : port.transmitBufferIndex = transmitBufferSize
    · rw [if_pos hfull, if_pos rfl]
      exact h
    · rw [if_neg hfull, if_neg (by simp)]
      have hsize := h.size
      have hsend : port.sendIndex ≤ port.transmitBufferIndex := by
        rcases h.send with hlt | ⟨hzero, -⟩ <;> omega
      refine ⟨?_, Or.inl ?_, ?_, ?_⟩
      · have hlen : port.transmitBufferIndex + 1 - port.sendIndex =
            port.transmitBufferIndex - port.sendIndex + 1 := by omega
        have hlast : port.sendIndex + (port.transmitBufferIndex - port.sendIndex) =
            port.transmitBufferIndex := by omega
        rw [h.order, SerialPort.waiting, SerialPort.waiting]
        dsimp only
        rw [hlen, List.range'_1_concat, hlast, List.map_append, List.append_assoc]
        congr 2
        · refine List.map_congr_left fun i hi => ?_
          rw [List.mem_range'_1] at hi
          exact (Function.update_of_ne (by omega) _ _).symm
        · simp
      · show port.sendIndex < port.transmitBufferIndex + 1
        omega
      · show port.transmitBufferIndex + 1 ≤ transmitBufferSize
        omega
      · show (port.writeBusy || decide (port.transmitBufferIndex + 1 = transmitBufferSize)) = _
        rw [h.busy]
        simp [hfull]

/-! ## The schedulable -/

theorem serialSend_enqueued (n : Nat) (port : SerialPort) :
    (serialSend n port).enqueued = port.enqueued := by
  induction n generalizing port with
  | zero => rfl
  | succ n ih =>
      unfold serialSend
      split
      · rw [ih]
        unfold serialSendOne serialPutCharacter
        dsimp only
        split <;> rfl
      · rfl

theorem serialRunWith_enqueued (port : SerialPort) (timeslice current : Int) :
    (serialRunWith port timeslice current).1.enqueued = port.enqueued := by
  unfold serialRunWith
  split
  · split <;> rfl
  · exact serialSend_enqueued _ port

theorem serialRun_enqueued (port : SerialPort) (timeslice : Int) :
    (serialRun port timeslice).1.enqueued = port.enqueued :=
  serialRunWith_enqueued port timeslice timeslice

/-- A run puts the schedulable back exactly when it leaves the port enqueued, and it does
when there is something left to send. -/
theorem serialExit_cases {port : SerialPort} (timeslice : Int) (h : port.enqueued = true) :
    (serialExit port timeslice).1.enqueued =
        decide ((serialExit port timeslice).2 ≠ .done) ∧
      ((serialExit port timeslice).1.unsent ≠ 0 →
        (serialExit port timeslice).1.enqueued = true) := by
  unfold serialExit
  by_cases hnext : timeslice = 0 ∧ (port.cost ≠ 0 ∨ port.unsent ≠ 0)
  · rw [if_pos hnext]
    exact ⟨h, fun _ => h⟩
  rw [if_neg hnext]
  by_cases hme : timeslice ≠ 0 ∧ (port.cost ≠ 0 ∨ port.unsent ≠ 0)
  · rw [if_pos hme]
    exact ⟨h, fun _ => h⟩
  rw [if_neg hme]
  refine ⟨rfl, ?_⟩
  intro (hunsent : port.unsent ≠ 0)
  by_cases hzero : timeslice = 0
  · exact absurd ⟨hzero, Or.inr hunsent⟩ hnext
  · exact absurd ⟨hzero, Or.inr hunsent⟩ hme

/-- What holds of a port and its schedulable in every state. -/
structure SerialInv (s : SerialLine) : Prop where
  port : s.port.Inv s.accepted
  schedulable : s.port.enqueued = (s.queued || s.taken)
  once : ¬ (s.queued = true ∧ s.taken = true)
  sends : s.port.unsent ≠ 0 → s.port.enqueued = true

theorem serialWriteCmd_eq (port : SerialPort) (value : Word) :
    ∃ doInterrupts, serialWriteCmd port value = { port with doInterrupts := doInterrupts } := by
  unfold serialWriteCmd
  split
  · exact ⟨true, rfl⟩
  · split
    · exact ⟨false, rfl⟩
    · exact ⟨port.doInterrupts, rfl⟩

/-- A write queues the schedulable when the port was not enqueued, and leaves nothing
unsent in a port that is not. -/
theorem serialWriteData_schedules {asynchronous : Bool} {s : SerialLine} (h : SerialInv s)
    (value : Word) :
    (serialWriteData asynchronous s.port value).1.enqueued =
        ((s.queued || decide ((serialWriteData asynchronous s.port value).2 = .stored true)) ||
          s.taken) ∧
      ((serialWriteData asynchronous s.port value).2 = .stored true →
        s.taken = false) ∧
      ((serialWriteData asynchronous s.port value).1.unsent ≠ 0 →
        (serialWriteData asynchronous s.port value).1.enqueued = true) := by
  have hsched := h.schedulable
  unfold serialWriteData
  by_cases himmediate : (!asynchronous || decide (s.port.cost < accumulatedCost)) ∧
      s.port.transmitBufferIndex = 0
  · rw [if_pos himmediate]
    refine ⟨?_, by simp, h.sends⟩
    simpa [serialPutCharacter] using hsched
  rw [if_neg himmediate]
  by_cases hfull : s.port.transmitBufferIndex = transmitBufferSize
  · rw [if_pos hfull]
    refine ⟨?_, by simp, h.sends⟩
    simpa using hsched
  rw [if_neg hfull]
  refine ⟨?_, ?_, fun _ => rfl⟩
  · rw [hsched]
    cases s.queued <;> cases s.taken <;> rfl
  · intro hstored
    rw [hsched] at hstored
    cases ht : s.taken
    · rfl
    · simp [ht] at hstored

theorem serialInv_step {asynchronous : Bool} {s s' : SerialLine} {op : SerialOp}
    (h : SerialInv s) (step : SerialStep asynchronous s op s') : SerialInv s' := by
  cases step with
  | writeData value =>
      obtain ⟨hsched, honce, hsends⟩ :=
        @serialWriteData_schedules asynchronous s h value
      refine ⟨serialWriteData_inv h.port value, hsched, ?_, hsends⟩
      rintro ⟨hqueued, htaken⟩
      rw [Bool.or_eq_true, decide_eq_true_eq] at hqueued
      rcases hqueued with hqueued | hstored
      · exact h.once ⟨hqueued, htaken⟩
      · exact absurd htaken (Bool.eq_false_iff.mp (honce hstored))
  | writeCmd value =>
      obtain ⟨doInterrupts, heq⟩ := serialWriteCmd_eq s.port value
      rw [heq]
      exact ⟨h.port.congr rfl rfl rfl rfl rfl, h.schedulable, h.once, h.sends⟩
  | dequeue queue =>
      have htaken : s.taken = false := Bool.eq_false_iff.mpr fun ht => h.once ⟨queue, ht⟩
      refine ⟨h.port, ?_, by simp, h.sends⟩
      rw [h.schedulable, queue, htaken]
      rfl
  | schedule timeslice taken nonneg =>
      have hqueued : s.queued = false := Bool.eq_false_iff.mpr fun hq => h.once ⟨hq, taken⟩
      have henq : s.port.enqueued = true := by
        rw [h.schedulable, taken, Bool.or_true]
      obtain ⟨hexit, hsends⟩ := serialExit_cases (serialRun s.port timeslice).2
        ((serialRun_enqueued s.port timeslice).trans henq)
      refine ⟨serialExit_inv (serialRun_inv h.port timeslice) _, ?_, by simp, hsends⟩
      show (serialExit (serialRun s.port timeslice).1 (serialRun s.port timeslice).2).1.enqueued
        = _
      rw [hqueued, hexit]
      exact (Bool.or_false _).symm

theorem serialInv_reach {asynchronous : Bool} {s : SerialLine}
    (h : SerialReach asynchronous s) : SerialInv s := by
  induction h with
  | init number =>
      refine ⟨serialInit_inv number, rfl, by simp, ?_⟩
      intro hunsent
      exact absurd rfl hunsent
  | step _ step ih => exact serialInv_step ih step

/-! ## Transmission -/

/-- Characters leave in the order in which they were accepted; only a full buffer refuses
one; and the port is queued, or about to run, while it has something left to send. -/
structure SerialLine.Faithful (asynchronous : Bool) (s : SerialLine) : Prop where
  prefixed : s.port.put <+: s.accepted
  complete : s.port.unsent = 0 → s.port.put = s.accepted
  discards : ∀ value, (serialWriteData asynchronous s.port value).2 = .discarded →
    s.port.writeBusy = true
  busy : s.port.writeBusy = true ↔ s.port.transmitBufferIndex = transmitBufferSize
  indices : s.port.sendIndex ≤ s.port.transmitBufferIndex ∧
    s.port.transmitBufferIndex ≤ transmitBufferSize
  sends : s.port.unsent ≠ 0 →
    s.port.enqueued = true ∧ (s.queued = true ∨ s.taken = true)

theorem serial_faithful {asynchronous : Bool} {s : SerialLine}
    (h : SerialReach asynchronous s) : s.Faithful asynchronous := by
  obtain ⟨hport, hsched, -, hsends⟩ := serialInv_reach h
  have hindices : s.port.sendIndex ≤ s.port.transmitBufferIndex := by
    rcases hport.send with hlt | ⟨hzero, -⟩ <;> omega
  constructor
  · exact ⟨s.port.waiting, hport.order.symm⟩
  · intro hunsent
    have hempty : s.port.transmitBufferIndex - s.port.sendIndex = 0 := by
      unfold SerialPort.unsent at hunsent
      omega
    have horder := hport.order
    rw [SerialPort.waiting, hempty] at horder
    simpa using horder.symm
  · exact fun value hgone => serialWriteData_discards hport hgone
  · rw [hport.busy, decide_eq_true_eq]
  · exact ⟨hindices, hport.size⟩
  · intro hunsent
    have henq := hsends hunsent
    refine ⟨henq, ?_⟩
    rwa [hsched, Bool.or_eq_true] at henq

/-! ## A buffer filled, drained and filled again -/

/-- The port after `n` more characters, the first of which is `c`. -/
def serialWrites : (n c : Nat) → SerialLine → SerialLine
  | 0, _, s => s
  | n + 1, c, s =>
      let reply := serialWriteData true s.port (BitVec.ofNat 32 c)
      serialWrites n (c + 1) { s with
        port := reply.1
        queued := s.queued || decide (reply.2 = .stored true)
        accepted :=
          if reply.2 = .discarded then s.accepted
          else s.accepted ++ [(BitVec.ofNat 32 c).setWidth 8] }

theorem SerialReach.writes {s : SerialLine} (h : SerialReach true s) (n c : Nat) :
    SerialReach true (serialWrites n c s) := by
  induction n generalizing c s with
  | zero => exact h
  | succ n ih => exact ih (h.step (.writeData _)) (c + 1)

/-- The port after its schedulable was run with these timeslices, while it was queued. -/
def serialRuns : List Nat → SerialLine → SerialLine
  | [], s => s
  | timeslice :: rest, s =>
      if s.queued then
        let reply := serialSchedule s.port timeslice
        serialRuns rest
          { s with port := reply.1, queued := decide (reply.2.1 ≠ .done), taken := false }
      else s

theorem SerialReach.runs {s : SerialLine} (h : SerialReach true s) (timeslices : List Nat) :
    SerialReach true (serialRuns timeslices s) := by
  induction timeslices generalizing s with
  | nil => exact h
  | cons timeslice rest ih =>
      unfold serialRuns
      split
      · next hqueued =>
          have hrun := (h.step (.dequeue hqueued)).step
            (.schedule timeslice rfl (Int.natCast_nonneg timeslice))
          simp only [Bool.false_or] at hrun
          exact ih hrun
      · exact h

/-- 67 characters: 50 go out at once, 16 are buffered, one is lost. -/
def serialFilled : SerialLine := serialWrites 67 0 ⟨serialInit 0, false, false, []⟩

/-- The cost is paid and the buffer is sent; then 53 characters more. -/
def serialRefilled : SerialLine :=
  serialWrites 53 100 (serialRuns [60, 10, 10, 10, 10] serialFilled)

theorem serial_faithful_refilled : serialFilled.port.writeBusy = true ∧
    serialFilled.accepted.length = 66 ∧ serialRefilled.Faithful true ∧
    serialRefilled.port.put.length = 116 ∧ serialRefilled.port.waiting = [150, 151, 152] ∧
    serialRefilled.queued = true := by
  have hrefilled : SerialReach true serialRefilled :=
    (((SerialReach.init 0).writes 67 0).runs _).writes 53 100
  exact ⟨by decide +kernel, by decide +kernel, serial_faithful hrefilled, by decide +kernel,
    by decide +kernel, by decide +kernel⟩

end Xremu
