import Mathlib.Data.List.Induction
import Xremu.Devices.Serial
import Xremu.Lists.Ring
import Xremu.Machine.Bus

/-!
# The serial ports: reception

The terminal hands its characters to `SerialInput`, which keeps up to 32 of them in a ring
for `SerialReadData`. The two indices of the ring only ever grow, and the free places are
counted apart.

The characters that were read, followed by those in the ring, are the characters that were
accepted: `serial_receives`. It holds while the indices, which are of type `int`, have not
been counted up 2^31 times.
-/

namespace Xremu

open Lists

abbrev receiveBufferSize : Nat := 32

/-- A `SerialPort` with its receiving side. -/
structure SerialDuplex extends SerialPort where
  receiveBuffer : Nat → Byte
  receiveBufferIndex : Int
  receiveIndex : Int
  receiveRemaining : Int
  rxFile : Bool      -- `RXFile != -1`

/-- `SerialInit`. -/
def serialDuplexInit (number : Nat) (rxFile : Bool) : SerialDuplex :=
  { serialInit number with
    receiveBuffer := fun _ => 0
    receiveBufferIndex := 0
    receiveIndex := 0
    receiveRemaining := receiveBufferSize
    rxFile := rxFile }

/-- `index % RECEIVE_BUFFER_SIZE`, with the remainder of C. -/
def receiveSlot (index : Int) : Nat := (index.tmod receiveBufferSize).toNat

/-- What a call of `SerialReadData` does: the status if one is assigned, and the argument
of `XrDecrementProgress` if that is called. -/
structure SerialRead where
  port : SerialDuplex
  value : Word
  status : Option EBusStatus
  decrement : Option Bool

/-- `SerialReadData`, with the character that `read` gets from the RX file. The branch that
takes a character from the ring assigns no status. -/
def serialReadData (port : SerialDuplex) (read : Option Byte) : SerialRead :=
  match if port.rxFile then read else none with
  | some nextchar => ⟨port, nextchar.setWidth 32, some .success, none⟩
  | none =>
      if port.receiveBufferIndex - port.receiveIndex = 0 then
        ⟨port, 0xFFFF, some .success, some port.doInterrupts⟩
      else
        ⟨{ port with
            receiveIndex := port.receiveIndex + 1
            receiveRemaining := port.receiveRemaining + 1 },
          (port.receiveBuffer (receiveSlot port.receiveIndex)).setWidth 32, none, none⟩

/-- `SerialInput`. -/
def serialInput (port : SerialDuplex) (c : BitVec 16) : SerialDuplex :=
  if port.receiveRemaining = 0 then port
  else
    { port with
      receiveBuffer := Function.update port.receiveBuffer (receiveSlot port.receiveBufferIndex)
        (c.setWidth 8)
      receiveBufferIndex := port.receiveBufferIndex + 1
      receiveRemaining := port.receiveRemaining - 1
      raised := if port.doInterrupts then port.raised ++ [4 + port.number] else port.raised }

/-! ## Runs -/

/-- The port, the characters that were not dropped, and those that were read. -/
structure SerialQueue where
  port : SerialDuplex
  accepted : List Byte
  delivered : List Byte

inductive SerialReceiveOp where
  | input (c : BitVec 16)
  | readData (read : Option Byte)
  | transmitting (port : SerialPort)   -- anything that the other functions of the port do

/-- Is it one of the calls that count up an index? -/
def SerialReceiveOp.receives : SerialReceiveOp → Bool
  | .input _ => true
  | .readData _ => true
  | .transmitting _ => false

def SerialQueue.step (s : SerialQueue) : SerialReceiveOp → SerialQueue
  | .input c =>
      { s with
        port := serialInput s.port c
        accepted :=
          if s.port.receiveRemaining = 0 then s.accepted else s.accepted ++ [c.setWidth 8] }
  | .readData read =>
      let reply := serialReadData s.port read
      { s with
        port := reply.port
        delivered :=
          if reply.value = 0xFFFF then s.delivered else s.delivered ++ [reply.value.setWidth 8] }
  | .transmitting port => { s with port := { s.port with toSerialPort := port } }

/-- The port after these calls. -/
def serialQueueRun (number : Nat) (ops : List SerialReceiveOp) : SerialQueue :=
  ops.foldl SerialQueue.step ⟨serialDuplexInit number false, [], []⟩

theorem serialQueueRun_snoc (number : Nat) (ops : List SerialReceiveOp) (op : SerialReceiveOp) :
    serialQueueRun number (ops ++ [op]) = (serialQueueRun number ops).step op := by
  unfold serialQueueRun
  rw [List.foldl_append]
  rfl

/-! ## The ring -/

/-- The ring holds `queue`, from index `start` on. -/
structure SerialHolds (port : SerialDuplex) (start : Nat) (queue : List Byte) : Prop where
  receiveIndex : port.receiveIndex = start
  receiveBufferIndex : port.receiveBufferIndex = start + queue.length
  receiveRemaining : port.receiveRemaining = receiveBufferSize - queue.length
  size : queue.length ≤ receiveBufferSize
  contents : ringContents port.receiveBuffer receiveBufferSize start queue.length = queue
  rxFile : port.rxFile = false

theorem receiveSlot_natCast (n : Nat) : receiveSlot (n : Int) = n % receiveBufferSize := by
  unfold receiveSlot
  rw [← Int.ofNat_tmod, Int.toNat_natCast]

theorem serialDuplexInit_holds (number : Nat) : SerialHolds (serialDuplexInit number false) 0 [] :=
  ⟨rfl, rfl, rfl, Nat.zero_le _, rfl, rfl⟩

namespace SerialHolds

variable {port : SerialDuplex} {start : Nat} {queue : List Byte} {b : Byte}

theorem remaining_zero_iff (h : SerialHolds port start queue) :
    port.receiveRemaining = 0 ↔ queue.length = receiveBufferSize := by
  rw [h.receiveRemaining]
  omega

/-- Nothing is dropped while there is room. -/
theorem input (h : SerialHolds port start queue) (hroom : queue.length < receiveBufferSize)
    (c : BitVec 16) : SerialHolds (serialInput port c) start (queue ++ [c.setWidth 8]) := by
  have hremaining : ¬port.receiveRemaining = 0 := by
    rw [h.remaining_zero_iff]
    exact Nat.ne_of_lt hroom
  have hslot : receiveSlot port.receiveBufferIndex = (start + queue.length) % receiveBufferSize := by
    rw [h.receiveBufferIndex, ← Int.natCast_add, receiveSlot_natCast]
  have hlength : (queue ++ [c.setWidth 8]).length = queue.length + 1 := by
    rw [List.length_append, List.length_singleton]
  unfold serialInput
  rw [if_neg hremaining, hslot]
  constructor
  · exact h.receiveIndex
  · show port.receiveBufferIndex + 1 = _
    rw [h.receiveBufferIndex, hlength]
    omega
  · show port.receiveRemaining - 1 = _
    rw [h.receiveRemaining, hlength]
    omega
  · rw [hlength]
    exact hroom
  · rw [hlength]
    show ringContents (Function.update port.receiveBuffer _ _) _ _ _ = _
    rw [ringContents_snoc hroom, h.contents]
  · exact h.rxFile

theorem no_file (h : SerialHolds port start queue) (read : Option Byte) :
    (if port.rxFile then read else none) = none := by
  rw [h.rxFile]
  rfl

theorem read_empty (h : SerialHolds port start []) (read : Option Byte) :
    serialReadData port read = ⟨port, 0xFFFF, some .success, some port.doInterrupts⟩ := by
  have hempty : port.receiveBufferIndex - port.receiveIndex = 0 := by
    rw [h.receiveBufferIndex, h.receiveIndex, List.length_nil]
    omega
  unfold serialReadData
  rw [h.no_file]
  dsimp only
  rw [if_pos hempty]

theorem read_first (h : SerialHolds port start (b :: queue)) (read : Option Byte) :
    (serialReadData port read).value = b.setWidth 32 ∧
    SerialHolds (serialReadData port read).port (start + 1) queue := by
  have hqueued : ¬port.receiveBufferIndex - port.receiveIndex = 0 := by
    rw [h.receiveBufferIndex, h.receiveIndex, List.length_cons]
    omega
  have hcontents := h.contents
  have hsize := h.size
  rw [List.length_cons, ringContents_cons] at hcontents
  rw [List.length_cons] at hsize
  obtain ⟨hfirst, hrest⟩ := List.cons.inj hcontents
  unfold serialReadData
  rw [h.no_file]
  dsimp only
  rw [if_neg hqueued]
  refine ⟨?_, ?_, ?_, ?_, Nat.le_of_succ_le hsize, hrest, h.rxFile⟩
  · rw [h.receiveIndex, receiveSlot_natCast, hfirst]
  · show port.receiveIndex + 1 = _
    rw [h.receiveIndex]
    omega
  · show port.receiveBufferIndex = _
    rw [h.receiveBufferIndex, List.length_cons]
    omega
  · show port.receiveRemaining + 1 = _
    rw [h.receiveRemaining, List.length_cons]
    omega

end SerialHolds

/-! ## Every sequence of calls -/

/-- The value of a character is never the one that says that there is none. -/
theorem byte_ne_none (b : Byte) : (b.setWidth 32 : Word) ≠ 0xFFFF := by
  intro h
  have hnat := congrArg BitVec.toNat h
  have hb := b.isLt
  rw [BitVec.toNat_setWidth] at hnat
  have hnone : (0xFFFF : Word).toNat = 0xFFFF := rfl
  omega

theorem byte_of_value (b : Byte) : ((b.setWidth 32 : Word).setWidth 8 : Byte) = b := by
  rw [BitVec.setWidth_setWidth_of_le b (by decide), BitVec.setWidth_eq]

/-- The state of the queue after any calls. -/
def SerialQueued (s : SerialQueue) (calls : Nat) : Prop :=
  ∃ start queue, SerialHolds s.port start queue ∧ s.accepted = s.delivered ++ queue ∧
    start + queue.length ≤ calls

theorem SerialQueued.step {s : SerialQueue} {calls : Nat} (h : SerialQueued s calls)
    (op : SerialReceiveOp) :
    SerialQueued (s.step op) (if op.receives then calls + 1 else calls) := by
  obtain ⟨start, queue, hholds, horder, hcalls⟩ := h
  cases op with
  | input c =>
      show SerialQueued _ (calls + 1)
      by_cases hfull : queue.length = receiveBufferSize
      · -- The character is dropped.
        have hzero := hholds.remaining_zero_iff.mpr hfull
        refine ⟨start, queue, ?_, ?_, Nat.le_succ_of_le hcalls⟩
        · show SerialHolds (serialInput s.port c) start queue
          unfold serialInput
          rw [if_pos hzero]
          exact hholds
        · show (if s.port.receiveRemaining = 0 then s.accepted else _) = _
          rw [if_pos hzero]
          exact horder
      · have hroom := Nat.lt_of_le_of_ne hholds.size hfull
        have hzero : ¬s.port.receiveRemaining = 0 := fun h => hfull (hholds.remaining_zero_iff.mp h)
        refine ⟨start, queue ++ [c.setWidth 8], hholds.input hroom c, ?_, ?_⟩
        · show (if s.port.receiveRemaining = 0 then _ else s.accepted ++ [c.setWidth 8]) = _
          rw [if_neg hzero, horder, List.append_assoc]
          rfl
        · rw [List.length_append, List.length_singleton]
          omega
  | readData read =>
      show SerialQueued _ (calls + 1)
      cases queue with
      | nil =>
          have hread := hholds.read_empty read
          refine ⟨start, [], ?_, ?_, Nat.le_succ_of_le hcalls⟩
          · show SerialHolds (serialReadData s.port read).port start []
            rw [hread]
            exact hholds
          · show s.accepted = (if (serialReadData s.port read).value = 0xFFFF then _ else _) ++ _
            rw [hread, if_pos rfl]
            exact horder
      | cons b queue =>
          obtain ⟨hvalue, hrest⟩ := hholds.read_first read
          refine ⟨start + 1, queue, hrest, ?_, ?_⟩
          · show s.accepted = (if (serialReadData s.port read).value = 0xFFFF then _ else
              s.delivered ++ [(serialReadData s.port read).value.setWidth 8]) ++ queue
            rw [hvalue, if_neg (byte_ne_none b), byte_of_value, horder, List.append_assoc]
            rfl
          · rw [List.length_cons] at hcalls
            omega
  | transmitting port =>
      show SerialQueued _ calls
      exact ⟨start, queue, ⟨hholds.receiveIndex, hholds.receiveBufferIndex,
        hholds.receiveRemaining, hholds.size, hholds.contents, hholds.rxFile⟩, horder, hcalls⟩

theorem serialQueueRun_queued (number : Nat) (ops : List SerialReceiveOp) :
    SerialQueued (serialQueueRun number ops) (ops.countP SerialReceiveOp.receives) := by
  induction ops using List.reverseRecOn with
  | nil => exact ⟨0, [], serialDuplexInit_holds number, rfl, Nat.le_refl _⟩
  | append_singleton ops op ih =>
      have hstep := ih.step op
      rw [serialQueueRun_snoc, List.countP_append, List.countP_singleton]
      cases hop : op.receives with
      | true =>
          rw [hop, if_pos rfl] at hstep
          exact hstep
      | false =>
          rw [hop, if_neg Bool.false_ne_true] at hstep
          exact hstep

/-- The ring of a port as it is seen from outside. `queue` is what has been accepted and
not yet been read. -/
structure SerialReceives (s : SerialQueue) : Prop where
  counted : s.port.receiveRemaining + (s.port.receiveBufferIndex - s.port.receiveIndex) =
    receiveBufferSize
  remaining : 0 ≤ s.port.receiveRemaining
  queued : 0 ≤ s.port.receiveBufferIndex - s.port.receiveIndex
  indices : 0 ≤ s.port.receiveIndex ∧ s.port.receiveBufferIndex < 0x80000000
  order : ∃ queue, s.accepted = s.delivered ++ queue ∧
    (∀ read, (serialReadData s.port read).value = match queue with
      | [] => 0xFFFF
      | b :: _ => b.setWidth 32) ∧
    ∀ c, serialInput s.port c = s.port ↔ queue.length = receiveBufferSize

theorem SerialHolds.dropped_iff {port : SerialDuplex} {start : Nat} {queue : List Byte}
    (h : SerialHolds port start queue) (c : BitVec 16) :
    serialInput port c = port ↔ queue.length = receiveBufferSize := by
  rw [← h.remaining_zero_iff]
  constructor
  · intro hsame
    by_contra hroom
    have hindex := congrArg SerialDuplex.receiveBufferIndex hsame
    unfold serialInput at hindex
    rw [if_neg hroom] at hindex
    have hnext : port.receiveBufferIndex + 1 = port.receiveBufferIndex := hindex
    omega
  · intro hfull
    unfold serialInput
    rw [if_pos hfull]

/-- Any calls of the port, less than 2^31 of them on its receiving side. -/
theorem serial_receives (number : Nat) (ops : List SerialReceiveOp)
    (hcalls : ops.countP SerialReceiveOp.receives < 0x80000000) :
    SerialReceives (serialQueueRun number ops) := by
  obtain ⟨start, queue, hholds, horder, hbound⟩ := serialQueueRun_queued number ops
  have hremaining := hholds.receiveRemaining
  have hindex := hholds.receiveIndex
  have hbuffer := hholds.receiveBufferIndex
  have hsize := hholds.size
  refine ⟨by omega, by omega, by omega, ⟨by omega, by omega⟩, queue, horder, ?_, ?_⟩
  · intro read
    cases queue with
    | nil => rw [hholds.read_empty read]
    | cons b queue => exact (hholds.read_first read).1
  · exact hholds.dropped_iff

/-- 20 characters come in and 15 of them are read; of the next 28, one is dropped. -/
def serialWraps : List SerialReceiveOp :=
  (List.range 20).map (fun c => .input (BitVec.ofNat 16 c)) ++
    List.replicate 15 (.readData none) ++
      (List.range' 20 28).map fun c => .input (BitVec.ofNat 16 c)

theorem serial_receives_wraps : SerialReceives (serialQueueRun 0 serialWraps) ∧
    (serialQueueRun 0 serialWraps).accepted = (List.range 47).map (BitVec.ofNat 8) ∧
    (serialQueueRun 0 serialWraps).delivered = (List.range 15).map (BitVec.ofNat 8) ∧
    (serialQueueRun 0 serialWraps).port.receiveRemaining = 0 ∧
    (serialQueueRun 0 serialWraps).port.receiveBufferIndex = 47 :=
  ⟨serial_receives 0 _ (by decide), by decide +kernel, by decide +kernel, by decide +kernel,
    by decide +kernel⟩

end Xremu
