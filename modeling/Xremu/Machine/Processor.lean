import Mathlib.Logic.Function.Basic

/-!
# The processor record and its exceptions

`XrProcessor` holds the fields of `struct _XrProcessor` that both builds have:
translation buffers, registers, control registers, and the counters of the
execution loop. What only one build has (simulated caches, or host pointers and
claim tables) is the `mem` component of a `Machine`, so that everything from
`XrReset` to the instruction handlers is written once. Arrays are functions of
their index; `uint8_t` flags are `Bool`.

The exception entry (`XrPushMode`, `XrSetEcause`, `XrVectorException`,
`XrBasicException`) is at the end. With `EB = 0` it resets the processor instead
of vectoring, and the reset also reaches into `mem`.
-/

namespace Xremu

abbrev Byte := BitVec 8
abbrev Word := BitVec 32

/-! ## Exception codes, RS bits, PTE bits, control registers -/

abbrev excInt : Word := 1
abbrev excSys : Word := 2
abbrev excBus : Word := 4
abbrev excNmi : Word := 5
abbrev excBrk : Word := 6
abbrev excInv : Word := 7
abbrev excPrv : Word := 8
abbrev excUna : Word := 9
abbrev excPgf : Word := 12
abbrev excPgw : Word := 13
abbrev excItb : Word := 14
abbrev excDtb : Word := 15

abbrev rsUser : Word := 1
abbrev rsInt : Word := 2
abbrev rsMmu : Word := 4
abbrev rsTbmiss : Word := 8
abbrev rsLegacy : Word := 128

abbrev pteValid : BitVec 64 := 1
abbrev pteWritable : BitVec 64 := 2
abbrev pteKernel : BitVec 64 := 4
abbrev pteNoncached : BitVec 64 := 8
abbrev pteGlobal : BitVec 64 := 16

/-- `TB_INVALID_ENTRY`: ASID 4095, VPN 0, not valid. -/
abbrev tbInvalidEntry : BitVec 64 := 0xFFF0000000000000
abbrev tbInvalidMatching : BitVec 64 := 0xFFFFFFFF00000000

abbrev crRs : Nat := 0
abbrev crWhami : Nat := 1
abbrev crEb : Nat := 5
abbrev crEpc : Nat := 6
abbrev crEbadaddr : Nat := 7
abbrev crTbmissaddr : Nat := 9
abbrev crTbpc : Nat := 10
abbrev crItbpte : Nat := 16
abbrev crItbtag : Nat := 17
abbrev crItbindex : Nat := 18
abbrev crItbctrl : Nat := 19
abbrev crIcachectrl : Nat := 20
abbrev crItbaddr : Nat := 21
abbrev crDtbpte : Nat := 24
abbrev crDtbtag : Nat := 25
abbrev crDtbindex : Nat := 26
abbrev crDtbctrl : Nat := 27
abbrev crDcachectrl : Nat := 28
abbrev crDtbaddr : Nat := 29

/-- `XR_FAKE_ZERO_REGISTER` and `XR_FAKE_SHIFT_SINK`. -/
abbrev fakeZeroRegister : Nat := 32
abbrev fakeShiftSink : Nat := 33

/-- `XR_ITB_SIZE` and `XR_DTB_SIZE`. -/
abbrev xrTbSize : Nat := 32

abbrev xrPollMax : Int := 32
abbrev xrPauseMax : Word := 256
abbrev nmiMaskCycles : BitVec 8 := 64

/-! ## The record -/

structure XrProcessor where
  itb : Nat → BitVec 64
  dtb : Nat → BitVec 64
  itbLastResult : BitVec 64
  itbLastVpn : Word
  dtbLastVpn : Word
  reg : Nat → Word
  cr : Nat → Word
  pc : Word
  dispatches : BitVec 8
  id : Nat
  progress : Int
  cyclesDone : Word
  cyclesGoal : Word
  pauseCalls : Word
  nmiMaskCounter : BitVec 8
  locked : Bool
  lastTbMissWasWrite : Bool
  userBreak : Bool
  halted : Bool
  running : Bool
  noMore : Bool

namespace XrProcessor

/-- A record of zeros, as the processor of this id. -/
def zeroed (id : Nat) : XrProcessor where
  itb _ := 0
  dtb _ := 0
  itbLastResult := 0
  itbLastVpn := 0
  dtbLastVpn := 0
  reg _ := 0
  cr _ := 0
  pc := 0
  dispatches := 0
  id := id
  progress := 0
  cyclesDone := 0
  cyclesGoal := 0
  pauseCalls := 0
  nmiMaskCounter := 0
  locked := false
  lastTbMissWasWrite := false
  userBreak := false
  halted := false
  running := false
  noMore := false

def setCr (p : XrProcessor) (i : Nat) (v : Word) : XrProcessor :=
  { p with cr := Function.update p.cr i v }

def setReg (p : XrProcessor) (i : Nat) (v : Word) : XrProcessor :=
  { p with reg := Function.update p.reg i v }

/-- The value of the RS control register. -/
def rs (p : XrProcessor) : Word := p.cr crRs

/-- Is this bit of RS set? -/
def rsSet (p : XrProcessor) (bit : Word) : Bool := p.cr crRs &&& bit != 0

@[simp] theorem setCr_reg (p : XrProcessor) (i : Nat) (v : Word) : (p.setCr i v).reg = p.reg := rfl
@[simp] theorem setCr_id (p : XrProcessor) (i : Nat) (v : Word) : (p.setCr i v).id = p.id := rfl
@[simp] theorem setCr_dtbLastVpn (p : XrProcessor) (i : Nat) (v : Word) :
    (p.setCr i v).dtbLastVpn = p.dtbLastVpn := rfl
@[simp] theorem setCr_pc (p : XrProcessor) (i : Nat) (v : Word) : (p.setCr i v).pc = p.pc := rfl
@[simp] theorem setCr_cr (p : XrProcessor) (i : Nat) (v : Word) :
    (p.setCr i v).cr = Function.update p.cr i v := rfl
@[simp] theorem setReg_cr (p : XrProcessor) (i : Nat) (v : Word) : (p.setReg i v).cr = p.cr := rfl
@[simp] theorem setReg_id (p : XrProcessor) (i : Nat) (v : Word) : (p.setReg i v).id = p.id := rfl
@[simp] theorem setReg_pc (p : XrProcessor) (i : Nat) (v : Word) : (p.setReg i v).pc = p.pc := rfl
@[simp] theorem setReg_reg (p : XrProcessor) (i : Nat) (v : Word) :
    (p.setReg i v).reg = Function.update p.reg i v := rfl

end XrProcessor

/-- A processor together with the memory system of its build. -/
structure Machine (M : Type) where
  proc : XrProcessor
  mem : M

/-- The part of `XrReset` that one build adds, for the processor of this id. -/
class ResetMem (M : Type) where
  resetMem : Nat → M → M

namespace Machine

variable {M : Type}

def setCr (m : Machine M) (i : Nat) (v : Word) : Machine M := { m with proc := m.proc.setCr i v }
def setReg (m : Machine M) (i : Nat) (v : Word) : Machine M := { m with proc := m.proc.setReg i v }

@[simp] theorem setCr_proc (m : Machine M) (i : Nat) (v : Word) :
    (m.setCr i v).proc = m.proc.setCr i v := rfl
@[simp] theorem setCr_mem (m : Machine M) (i : Nat) (v : Word) : (m.setCr i v).mem = m.mem := rfl
@[simp] theorem setReg_proc (m : Machine M) (i : Nat) (v : Word) :
    (m.setReg i v).proc = m.proc.setReg i v := rfl
@[simp] theorem setReg_mem (m : Machine M) (i : Nat) (v : Word) : (m.setReg i v).mem = m.mem := rfl

end Machine

/-! ## Reset and exceptions -/

section Exceptions

variable {M : Type}

def xrPushMode (m : Machine M) : Machine M :=
  m.setCr crRs ((m.proc.rs &&& 0xFF0000FF) ||| ((m.proc.rs &&& 0xFFFF) <<< 8))

def xrSetEcause (m : Machine M) (exc : Word) : Machine M :=
  m.setCr crRs ((m.proc.rs &&& 0x0FFFFFFF) ||| (exc <<< 28))

@[simp] theorem xrPushMode_mem (m : Machine M) : (xrPushMode m).mem = m.mem := rfl
@[simp] theorem xrPushMode_id (m : Machine M) : (xrPushMode m).proc.id = m.proc.id := rfl
@[simp] theorem xrSetEcause_mem (m : Machine M) (exc : Word) : (xrSetEcause m exc).mem = m.mem := rfl
@[simp] theorem xrPushMode_dtbLastVpn (m : Machine M) :
    (xrPushMode m).proc.dtbLastVpn = m.proc.dtbLastVpn := rfl
@[simp] theorem xrSetEcause_dtbLastVpn (m : Machine M) (exc : Word) :
    (xrSetEcause m exc).proc.dtbLastVpn = m.proc.dtbLastVpn := rfl
@[simp] theorem xrSetEcause_id (m : Machine M) (exc : Word) :
    (xrSetEcause m exc).proc.id = m.proc.id := rfl

variable [ResetMem M]

/-- The control registers with reset-defined values. -/
def resetCr (p : XrProcessor) : Nat → Word := fun i =>
  if i = crRs then 0
  else if i = crEb then 0
  else if i = crIcachectrl then 0xB0104
  else if i = crDcachectrl then 0xB0104
  else if i = crWhami then BitVec.ofNat 32 p.id
  else p.cr i

def XrProcessor.reset (p : XrProcessor) : XrProcessor :=
  { p with
    pc := 0xFFFE1000
    cr := resetCr p
    reg := Function.update p.reg fakeZeroRegister 0
    itbLastVpn := -1
    dtbLastVpn := -1
    pauseCalls := 0
    nmiMaskCounter := nmiMaskCycles
    lastTbMissWasWrite := false
    userBreak := false
    halted := false
    running := true
    dispatches := 0 }

def xrReset (m : Machine M) : Machine M :=
  ⟨m.proc.reset, ResetMem.resetMem m.proc.id m.mem⟩

/-- The mode bits an exception handler starts with. -/
def exceptionMode (rs : Word) : Word :=
  let newmode := rs &&& 0xFC
  if rs &&& rsLegacy != 0 then newmode &&& ~~~rsMmu else newmode

def xrVectorException (m : Machine M) (exc : Word) : Machine M :=
  if m.proc.cr crEb = 0 then xrReset m
  else
    { m with
      proc :=
        { m.proc.setCr crRs ((m.proc.rs &&& 0xFFFFFF00) ||| exceptionMode m.proc.rs) with
          pc := m.proc.cr crEb ||| (exc <<< 8)
          nmiMaskCounter := nmiMaskCycles
          progress := xrPollMax } }

def xrBasicException (m : Machine M) (exc pc : Word) : Machine M :=
  xrVectorException (xrSetEcause (xrPushMode (m.setCr crEpc pc)) exc) exc

/-! What every exception leaves alone, whichever way it is taken. -/

@[simp] theorem XrProcessor.reset_id (p : XrProcessor) : p.reset.id = p.id := by
  simp only [XrProcessor.reset]
@[simp] theorem xrReset_proc (m : Machine M) : (xrReset m).proc = m.proc.reset := rfl
theorem xrVectorException_mem (m : Machine M) (exc : Word) :
    (xrVectorException m exc).mem =
      if m.proc.cr crEb = 0 then ResetMem.resetMem m.proc.id m.mem else m.mem := by
  unfold xrVectorException
  split <;> rfl

@[simp] theorem xrVectorException_id (m : Machine M) (exc : Word) :
    (xrVectorException m exc).proc.id = m.proc.id := by
  unfold xrVectorException
  split
  · simp
  · rfl

theorem xrBasicException_mem (m : Machine M) (exc pc : Word) :
    (xrBasicException m exc pc).mem =
      if m.proc.cr crEb = 0 then ResetMem.resetMem m.proc.id m.mem else m.mem := by
  unfold xrBasicException
  rw [xrVectorException_mem]
  simp [xrPushMode, xrSetEcause, crEb, crRs, crEpc]

@[simp] theorem xrBasicException_id (m : Machine M) (exc pc : Word) :
    (xrBasicException m exc pc).proc.id = m.proc.id := by
  simp [xrBasicException]

end Exceptions

end Xremu
