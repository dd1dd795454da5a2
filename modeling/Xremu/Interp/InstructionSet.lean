import Xremu.Interp.Block

/-!
# The instruction set

What an instruction word says to do, with nothing of how the interpreter goes about it: no
cached instruction, no virtual shift and no register but the 32. An operand has a value
(`Machine.value`): register 0 is zero unless RS_TBMISS is set, and a register that the word
shifts is shifted where it is used. `XrInstruction.exec` executes one instruction where the
program counter is.

The interpreter leaves the value of a shifted operand in a register of its own. So that whole
machines can be compared, the instruction set leaves it there too (`Machine.latch`); nothing
reads it.
-/

namespace Xremu

/-! ## Instructions -/

/-- The shift of two bits of an instruction word. -/
def shiftWord : (kind : Nat) → (value amount : Word) → Word
  | 0 => fun value amount => value <<< amount
  | 1 => fun value amount => value >>> amount
  | 2 => fun value amount => value.sshiftRight' amount
  | _ => roR

inductive XrOperand where
  | reg (n : Nat)
  | shifted (n kind amount : Nat)
  | imm (value : Word)
deriving DecidableEq

/-- Is there something to shift by? -/
def XrOperand.slots : XrOperand → Nat
  | .shifted _ _ amount => if amount ≠ 0 then 1 else 0
  | _ => 0

inductive XrInstruction where
  | illegal
  | compute (f : Word → Word → Word) (rd : Nat) (a b : XrOperand)
  | load (length rd : Nat) (a b : XrOperand)             -- from the sum of the operands
  | store (length : Nat) (a b value : XrOperand)
  | loadLinked (rd : Nat) (a : XrOperand)
  | storeConditional (rd : Nat) (a value : XrOperand)
  | barrier                                              -- WMB, MB
  | trap (exc : Word)                                    -- SYS, BRK
  | pause
  | rfe
  | hlt
  | mtcr (control : Nat) (value : XrOperand)
  | mfcr (rd control : Nat)
  | adr (rd : Nat) (offset : Word)
  | branch (taken : Word → Bool) (value : XrOperand) (offset : Word)
  | jump (target : Word)                                 -- J, in the half of memory it is in
  | call (target : Word)                                 -- JAL
  | jalr (rd : Nat) (a : XrOperand) (offset : Word)

namespace XrInstruction

/-- Does what follows in memory not follow in execution? -/
def ends : XrInstruction → Bool
  | illegal | rfe | hlt | branch .. | jump _ | call _ | jalr .. => true
  | _ => false

/-- How many cached instructions it takes: a shift has its own. -/
def slots : XrInstruction → Nat
  | compute _ _ _ b | load _ _ _ b | store _ _ b _ => b.slots + 1
  | _ => 1

end XrInstruction

/-! ## The words -/

section

variable (ir : Word)

def XrOperand.rd : XrOperand := .reg (irRd ir)
def XrOperand.ra : XrOperand := .reg (irRa ir)
def XrOperand.rb : XrOperand := .reg (irRb ir)
def XrOperand.rbShifted : XrOperand := .shifted (irRb ir) (irShiftKind ir) (irShift ir)
def XrOperand.imm16 (scale : Nat) : XrOperand := .imm ((ir >>> 16) <<< scale)
def XrOperand.immSigned : XrOperand := .imm (((ir >>> 16).setWidth 16).signExtend 32)
def XrOperand.imm5 : XrOperand := .imm (signExt5 (irRa ir))

namespace XrInstruction

open XrOperand

def register (f : Word → Word → Word) : XrInstruction := compute f (irRd ir) (ra ir) (rbShifted ir)

def immediate (f : Word → Word → Word) (scale : Nat) : XrInstruction :=
  compute f (irRd ir) (ra ir) (imm16 ir scale)

/-- The control group, by the high four bits of the word. -/
def ofControl : Nat → XrInstruction
  | 11 => rfe
  | 12 => hlt
  | 14 => mtcr (irRb ir) (ra ir)
  | 15 => mfcr (irRd ir) (irRb ir)
  | _ => illegal

def ofSystem : Nat → XrInstruction
  | 0 => trap excSys
  | 1 => trap excBrk
  | 2 | 3 => barrier
  | 6 => pause
  | 8 => storeConditional (irRd ir) (ra ir) (rb ir)
  | 9 => loadLinked (irRd ir) (ra ir)
  | 11 => register ir fun a b => if b = 0 then 0 else a % b
  | 12 => register ir fun a b => if b = 0 then 0 else a.sdiv b
  | 13 => register ir fun a b => if b = 0 then 0 else a / b
  | 15 => register ir fun a b => a * b
  | _ => illegal

def ofRegister : Nat → XrInstruction
  | 0 => register ir fun a b => ~~~(a ||| b)
  | 1 => register ir fun a b => a ||| b
  | 2 => register ir fun a b => a ^^^ b
  | 3 => register ir fun a b => a &&& b
  | 4 => register ir fun a b => boolWord (a.slt b)
  | 5 => register ir fun a b => boolWord (a.ult b)
  | 6 => register ir fun a b => a - b
  | 7 => register ir fun a b => a + b
  | 8 =>
      compute (fun a b => shiftWord (irShiftKind ir) b (a &&& 31)) (irRd ir) (ra ir) (rb ir)
  | 9 => store 4 (ra ir) (rbShifted ir) (rd ir)
  | 10 => store 2 (ra ir) (rbShifted ir) (rd ir)
  | 11 => store 1 (ra ir) (rbShifted ir) (rd ir)
  | 13 => load 4 (irRd ir) (ra ir) (rbShifted ir)
  | 14 => load 2 (irRd ir) (ra ir) (rbShifted ir)
  | 15 => load 1 (irRd ir) (ra ir) (rbShifted ir)
  | _ => illegal

/-- By the low six bits; `major` are the high four. -/
def ofLowSix (major : Nat) : Nat → XrInstruction
  | 4 => immediate ir (fun a b => a ||| b) 16
  | 5 => branch (fun v => v &&& 1 != 0) (rd ir) (branchOffset ir)
  | 10 => store 4 (rd ir) (imm16 ir 2) (imm5 ir)
  | 12 => immediate ir (fun a b => a ||| b) 0
  | 13 => branch (fun v => v &&& 1 == 0) (rd ir) (branchOffset ir)
  | 18 => store 2 (rd ir) (imm16 ir 1) (imm5 ir)
  | 20 => immediate ir (fun a b => a ^^^ b) 0
  | 21 => branch (fun v => !v.slt 0) (rd ir) (branchOffset ir)
  | 26 => store 1 (rd ir) (imm16 ir 0) (imm5 ir)
  | 28 => immediate ir (fun a b => a &&& b) 0
  | 29 => branch (fun v => v.sle 0) (rd ir) (branchOffset ir)
  | 36 => compute (fun a b => boolWord (a.slt b)) (irRd ir) (ra ir) (immSigned ir)
  | 37 => branch (fun v => (0 : Word).slt v) (rd ir) (branchOffset ir)
  | 41 => ofControl ir major
  | 42 => store 4 (rd ir) (imm16 ir 2) (ra ir)
  | 43 => load 4 (irRd ir) (ra ir) (imm16 ir 2)
  | 44 => immediate ir (fun a b => boolWord (a.ult b)) 0
  | 45 => branch (fun v => v.slt 0) (rd ir) (branchOffset ir)
  | 48 => adr (irRd ir) (ir &&& 0xFFFF0000)
  | 49 => ofSystem ir major
  | 50 => store 2 (rd ir) (imm16 ir 1) (ra ir)
  | 51 => load 2 (irRd ir) (ra ir) (imm16 ir 1)
  | 52 => immediate ir (fun a b => a - b) 0
  | 53 => branch (fun v => v != 0) (rd ir) (branchOffset ir)
  | 56 => jalr (irRd ir) (ra ir) ((ir >>> 16) <<< 2)
  | 57 => ofRegister ir major
  | 58 => store 1 (rd ir) (imm16 ir 0) (ra ir)
  | 59 => load 1 (irRd ir) (ra ir) (imm16 ir 0)
  | 60 => immediate ir (fun a b => a + b) 0
  | 61 => branch (fun v => v == 0) (rd ir) (branchOffset ir)
  | _ => illegal

/-- The instruction a word is. -/
def ofWord : XrInstruction :=
  match (ir &&& 7).toNat with
  | 6 => jump ((ir >>> 3) <<< 2)
  | 7 => call ((ir >>> 3) <<< 2)
  | _ => ofLowSix ir (ir >>> 28).toNat (ir &&& 63).toNat

end XrInstruction

end

/-! ## Execution -/

section

variable {M : Type}

/-- Does `XR_REDIRECT_ZERO_SRC` see RS_TBMISS set? -/
def Machine.tbmiss (m : Machine M) : Bool := m.proc.rsSet rsTbmiss

/-- A register as a source. -/
def Machine.source (m : Machine M) (n : Nat) : Word :=
  if m.tbmiss = false ∧ n = 0 then 0 else m.reg n

def Machine.value (m : Machine M) : XrOperand → Word
  | .reg n => m.source n
  | .shifted n kind amount => shiftWord kind (m.source n) (BitVec.ofNat 32 amount)
  | .imm value => value

/-- A shifted operand is left behind in the shift sink. -/
def Machine.latch (m : Machine M) (operand : XrOperand) : Machine M :=
  match operand with
  | .shifted _ _ amount => if amount ≠ 0 then m.setReg fakeShiftSink (m.value operand) else m
  | _ => m

variable [XrBuild M]

namespace XrInstruction

/-- One instruction, where the program counter is. -/
def exec (m : Machine M) (block : Nat) : XrInstruction → Option (Machine M × XrExit)
  | illegal => some (xrBasicException m excInv m.proc.pc, .trivial)
  | compute f rd a b => xrNext ((m.latch b).setReg rd (f (m.value a) (m.value b)))
  | load length rd a b => loadAt (m.latch b) block (m.value a + m.value b) rd length
  | store length a b value =>
      storeAt (m.latch b) block (m.value a + m.value b) (m.value value) length
  | loadLinked rd a => do
      let (res, m) ← XrBuild.access m block ⟨m.value a, true, 0, 4, true⟩
      if res.1 = .fault then some (m, .early)
      else
        let m := m.setReg rd (res.2.getD 0)
        xrNext { m with proc := { m.proc with locked := true } }
  | storeConditional rd a value =>
      if m.proc.locked = false then xrNext (m.setReg rd 0)
      else do
        let (res, m) ← XrBuild.access m block ⟨m.value a, false, m.value value, 4, true⟩
        if res.1 = .fault then some (m, .early)
        else xrNext (m.setReg rd (if res.1 = .scFailed then 0 else 1))
  | barrier => xrNext (XrBuild.flushWriteBuffer m)
  | trap exc => some (xrBasicException m exc (m.proc.pc + 4), .trivial)
  | pause =>
      let calls := m.proc.pauseCalls
      let m := { m with proc := { m.proc with pauseCalls := calls + 1 } }
      if xrPauseMax ≤ calls then some (m.setPc (m.proc.pc + 4), .early) else xrNext m
  | rfe => some (xrRfe m, if m.proc.rs &&& rsUser ≠ 0 then .early else .trivial)
  | hlt =>
      if m.proc.rs &&& rsUser ≠ 0 then some (xrBasicException m excPrv m.proc.pc, .early)
      else
        let m : Machine M := { m with proc := { m.proc with halted := true } }
        some (m.setPc (m.proc.pc + 4), .trivial)
  | mtcr control value =>
      if m.proc.rs &&& rsUser ≠ 0 then some (xrBasicException m excPrv m.proc.pc, .early)
      else mtcrKernel m control (m.value value)
  | mfcr rd control =>
      if m.proc.rs &&& rsUser ≠ 0 then some (xrBasicException m excPrv m.proc.pc, .early)
      else
        let m : Machine M := { m with proc := { m.proc with nmiMaskCounter := nmiMaskCycles } }
        xrNext (m.setReg rd (m.proc.cr control))
  | adr rd offset => xrNext (m.setReg rd (m.proc.pc + offset))
  | branch taken value offset =>
      if taken (m.value value) then some (m.setPc (m.proc.pc + offset), .follow .true)
      else some (m.setPc (m.proc.pc + 4), .follow .false)
  | jump target => some (m.setPc ((m.proc.pc &&& 0x80000000) ||| target), .follow .true)
  | call target =>
      some ((m.setReg 31 (m.proc.pc + 4)).setPc ((m.proc.pc &&& 0x80000000) ||| target),
        .follow .true)
  | jalr rd a offset =>
      let pc := m.value a + offset
      let m := (m.setReg rd (m.proc.pc + 4)).setPc pc
      if pc &&& 3 ≠ 0 then some (xrBasicException (m.setCr crEbadaddr pc) excUna pc, .early)
      else some (m, .predict)

end XrInstruction

/-- The instructions of these words, one after another; after the last one the next block
follows. -/
def runWords (m : Machine M) (block : Nat) : List Word → Option (Machine M × XrExit)
  | [] => some (m, .follow .true)
  | ir :: irs => do
      let (m, exit) ← (XrInstruction.ofWord ir).exec m block
      if exit = .next then runWords m block irs else some (m, exit)

end

end Xremu
