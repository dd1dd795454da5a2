import Xremu.Interp.Build
import Xremu.Machine.ControlRegs

/-!
# The instructions

`XrFunc` names the `XrExecute` function a cached instruction points to, and
`XrFunc.exec` is that function. Handlers of one kind are one definition with
parameters, each handler its instance under its own name.

A handler does not follow the tail call at its end: it returns how it leaves
(`XrExit`), and the dispatch loop does the rest.
-/

namespace Xremu

/-- The instruction implementations. -/
inductive XrFunc where
  | specialLinkage
  | illegalInstruction
  | nor | or | xor | and | sltSigned | slt | sub | add
  | lsh | rsh | ash | ror
  | storeLongRegOffset | storeIntRegOffset | storeByteRegOffset
  | loadLongRegOffset | loadIntRegOffset | loadByteRegOffset
  | sys | brk | wmb | mb | pause | sc | ll
  | mod | divSigned | div | mul
  | rfe | hlt | mtcr | mfcr
  | bpo | bpe | bge | ble | bgt | blt | bne | beq | b
  | ori | xori | andi | sltiSigned | slti | subi | addi
  | storeLongImmOffsetImm | storeIntImmOffsetImm | storeByteImmOffsetImm
  | storeLongImmOffsetReg | storeIntImmOffsetReg | storeByteImmOffsetReg
  | loadLongImmOffset | loadIntImmOffset | loadByteImmOffset
  | jalr | adr | jal | j
  | virtualLsh | virtualRsh | virtualAsh | virtualRor
deriving DecidableEq

structure XrCachedInst where
  func : XrFunc
  imm32_1 : Word
  imm8_1 : Nat
  imm8_2 : Nat
deriving DecidableEq

/-- `XR_TRUE_PATH` and `XR_FALSE_PATH`. -/
inductive XrPath where
  | true
  | false
deriving DecidableEq

/-- How a handler leaves. -/
inductive XrExit where
  | next                          -- `XR_NEXT`, `XR_NEXT_NO_PC`
  | early                         -- `XR_EARLY_EXIT`
  | flush (vpn : Option Word)     -- drop the blocks of one page or all, then `XR_EARLY_EXIT`
  | trivial                       -- `XR_TRIVIAL_EXIT`
  | follow (path : XrPath)        -- to the block a cached path leads to, by `XR_DISPATCH`
  | predict                       -- to the block of the program counter, by `XR_DISPATCH`
deriving DecidableEq

/-- `SignExt5`. -/
def signExt5 (n : Nat) : Word := (BitVec.ofNat 5 n).signExtend 32

namespace Machine

variable {M : Type}

def setPc (m : Machine M) (pc : Word) : Machine M := { m with proc := { m.proc with pc := pc } }

/-- The value of a register. -/
def reg (m : Machine M) (i : Nat) : Word := m.proc.reg i

end Machine

section

variable {M : Type} [XrBuild M]

abbrev XrHandler (M : Type) := Machine M → (block : Nat) → XrCachedInst → Option (Machine M × XrExit)

/-- `XR_NEXT_NO_PC`. -/
def xrNextNoPc (m : Machine M) : Option (Machine M × XrExit) := some (m, .next)

/-- `XR_NEXT`. -/
def xrNext (m : Machine M) : Option (Machine M × XrExit) := xrNextNoPc (m.setPc (m.proc.pc + 4))

/-! ## Registers and immediates -/

/-- A three-register operation: RD is computed from RA and RB. -/
def regOp (f : Word → Word → Word) : XrHandler M := fun m _ inst =>
  xrNext (m.setReg inst.imm8_1 (f (m.reg inst.imm8_2) (m.reg inst.imm32_1.toNat)))

def boolWord (b : Bool) : Word := if b then 1 else 0

/-- `RoR`. -/
def roR (x n : Word) : Word := x.rotateRight n.toNat

def xrExecuteNor : XrHandler M := regOp fun ra rb => ~~~(ra ||| rb)
def xrExecuteOr : XrHandler M := regOp fun ra rb => ra ||| rb
def xrExecuteXor : XrHandler M := regOp fun ra rb => ra ^^^ rb
def xrExecuteAnd : XrHandler M := regOp fun ra rb => ra &&& rb
def xrExecuteSltSigned : XrHandler M := regOp fun ra rb => boolWord (ra.slt rb)
def xrExecuteSlt : XrHandler M := regOp fun ra rb => boolWord (ra.ult rb)
def xrExecuteSub : XrHandler M := regOp fun ra rb => ra - rb
def xrExecuteAdd : XrHandler M := regOp fun ra rb => ra + rb
def xrExecuteLsh : XrHandler M := regOp fun ra rb => rb <<< (ra &&& 31)
def xrExecuteRsh : XrHandler M := regOp fun ra rb => rb >>> (ra &&& 31)
def xrExecuteAsh : XrHandler M := regOp fun ra rb => rb.sshiftRight' (ra &&& 31)
def xrExecuteRor : XrHandler M := regOp fun ra rb => roR rb (ra &&& 31)
def xrExecuteMod : XrHandler M := regOp fun ra rb => if rb = 0 then 0 else ra % rb
def xrExecuteDivSigned : XrHandler M := regOp fun ra rb => if rb = 0 then 0 else ra.sdiv rb
def xrExecuteDiv : XrHandler M := regOp fun ra rb => if rb = 0 then 0 else ra / rb
def xrExecuteMul : XrHandler M := regOp fun ra rb => ra * rb

/-- An operation of RA and an immediate. -/
def immOp (f : Word → Word → Word) : XrHandler M := fun m _ inst =>
  xrNext (m.setReg inst.imm8_1 (f (m.reg inst.imm8_2) inst.imm32_1))

def xrExecuteOri : XrHandler M := immOp fun ra imm => ra ||| imm
def xrExecuteXori : XrHandler M := immOp fun ra imm => ra ^^^ imm
def xrExecuteAndi : XrHandler M := immOp fun ra imm => ra &&& imm
def xrExecuteSltiSigned : XrHandler M := immOp fun ra imm => boolWord (ra.slt imm)
def xrExecuteSlti : XrHandler M := immOp fun ra imm => boolWord (ra.ult imm)
def xrExecuteSubi : XrHandler M := immOp fun ra imm => ra - imm
def xrExecuteAddi : XrHandler M := immOp fun ra imm => ra + imm

def xrExecuteAdr : XrHandler M := fun m _ inst => xrNext (m.setReg inst.imm8_1 inst.imm32_1)

/-- A virtual shift, into the register the next instruction reads. -/
def virtualShift (f : Word → Word → Word) : XrHandler M := fun m _ inst =>
  xrNextNoPc (m.setReg fakeShiftSink (f (m.reg inst.imm8_1) (BitVec.ofNat 32 inst.imm8_2)))

def xrExecuteVirtualLsh : XrHandler M := virtualShift fun rb n => rb <<< n
def xrExecuteVirtualRsh : XrHandler M := virtualShift fun rb n => rb >>> n
def xrExecuteVirtualAsh : XrHandler M := virtualShift fun rb n => rb.sshiftRight' n
def xrExecuteVirtualRor : XrHandler M := virtualShift roR

/-! ## Memory -/

/-- A store, and the exit if it took an exception. -/
def storeAt (m : Machine M) (block : Nat) (address value : Word) (length : Nat) :
    Option (Machine M × XrExit) := do
  let (res, m) ← XrBuild.access m block ⟨address, false, value, length, false⟩
  if res.1 = .fault then some (m, .early) else xrNext m

/-- A load into register `rd`. -/
def loadAt (m : Machine M) (block : Nat) (address : Word) (rd length : Nat) :
    Option (Machine M × XrExit) := do
  let (res, m) ← XrBuild.access m block ⟨address, true, 0, length, false⟩
  if res.1 = .fault then some (m, .early) else xrNext (m.setReg rd (res.2.getD 0))

def storeRegOffset (length : Nat) : XrHandler M := fun m block inst =>
  storeAt m block (m.reg inst.imm8_2 + m.reg inst.imm32_1.toNat) (m.reg inst.imm8_1) length

def loadRegOffset (length : Nat) : XrHandler M := fun m block inst =>
  loadAt m block (m.reg inst.imm8_2 + m.reg inst.imm32_1.toNat) inst.imm8_1 length

def storeImmOffsetImm (length : Nat) : XrHandler M := fun m block inst =>
  storeAt m block (m.reg inst.imm8_1 + inst.imm32_1) (signExt5 inst.imm8_2) length

def storeImmOffsetReg (length : Nat) : XrHandler M := fun m block inst =>
  storeAt m block (m.reg inst.imm8_1 + inst.imm32_1) (m.reg inst.imm8_2) length

def loadImmOffset (length : Nat) : XrHandler M := fun m block inst =>
  loadAt m block (m.reg inst.imm8_2 + inst.imm32_1) inst.imm8_1 length

def xrExecuteStoreLongRegOffset : XrHandler M := storeRegOffset 4
def xrExecuteStoreIntRegOffset : XrHandler M := storeRegOffset 2
def xrExecuteStoreByteRegOffset : XrHandler M := storeRegOffset 1
def xrExecuteLoadLongRegOffset : XrHandler M := loadRegOffset 4
def xrExecuteLoadIntRegOffset : XrHandler M := loadRegOffset 2
def xrExecuteLoadByteRegOffset : XrHandler M := loadRegOffset 1
def xrExecuteStoreLongImmOffsetImm : XrHandler M := storeImmOffsetImm 4
def xrExecuteStoreIntImmOffsetImm : XrHandler M := storeImmOffsetImm 2
def xrExecuteStoreByteImmOffsetImm : XrHandler M := storeImmOffsetImm 1
def xrExecuteStoreLongImmOffsetReg : XrHandler M := storeImmOffsetReg 4
def xrExecuteStoreIntImmOffsetReg : XrHandler M := storeImmOffsetReg 2
def xrExecuteStoreByteImmOffsetReg : XrHandler M := storeImmOffsetReg 1
def xrExecuteLoadLongImmOffset : XrHandler M := loadImmOffset 4
def xrExecuteLoadIntImmOffset : XrHandler M := loadImmOffset 2
def xrExecuteLoadByteImmOffset : XrHandler M := loadImmOffset 1

/-- `XrExecuteSC`. -/
def xrExecuteStoreConditional : XrHandler M := fun m block inst =>
  if m.proc.locked = false then
    xrNext (m.setReg inst.imm8_1 0)
  else do
    let (res, m) ← XrBuild.access m block
      ⟨m.reg inst.imm8_2, false, m.reg inst.imm32_1.toNat, 4, true⟩
    if res.1 = .fault then some (m, .early)
    else xrNext (m.setReg inst.imm8_1 (if res.1 = .scFailed then 0 else 1))

/-- `XrExecuteLL`. -/
def xrExecuteLoadLinked : XrHandler M := fun m block inst => do
  let (res, m) ← XrBuild.access m block ⟨m.reg inst.imm8_2, true, 0, 4, true⟩
  if res.1 = .fault then some (m, .early)
  else
    let m := m.setReg inst.imm8_1 (res.2.getD 0)
    xrNext { m with proc := { m.proc with locked := true } }

def xrExecuteWmb : XrHandler M := fun m _ _ => xrNext (XrBuild.flushWriteBuffer m)
def xrExecuteMb : XrHandler M := fun m _ _ => xrNext (XrBuild.flushWriteBuffer m)

/-! ## Exceptions and privileged instructions -/

def xrExecuteIllegalInstruction : XrHandler M := fun m _ _ =>
  some (xrBasicException m excInv m.proc.pc, .trivial)

def xrExecuteSys : XrHandler M := fun m _ _ =>
  some (xrBasicException m excSys (m.proc.pc + 4), .trivial)

def xrExecuteBrk : XrHandler M := fun m _ _ =>
  some (xrBasicException m excBrk (m.proc.pc + 4), .trivial)

def xrExecutePause : XrHandler M := fun m _ _ =>
  let calls := m.proc.pauseCalls
  let m := { m with proc := { m.proc with pauseCalls := calls + 1 } }
  if xrPauseMax ≤ calls then some (m.setPc (m.proc.pc + 4), .early) else xrNext m

def xrExecuteRfe : XrHandler M := fun m _ _ =>
  some (xrRfe m, if m.proc.rs &&& rsUser ≠ 0 then .early else .trivial)

def xrExecuteHlt : XrHandler M := fun m _ _ =>
  if m.proc.rs &&& rsUser ≠ 0 then some (xrBasicException m excPrv m.proc.pc, .early)
  else
    let m : Machine M := { m with proc := { m.proc with halted := true } }
    some (m.setPc (m.proc.pc + 4), .trivial)

/-- `XrExecuteMtcr` in kernel mode, of `value` to control register `rb`. -/
def mtcrKernel (m : Machine M) (rb : Nat) (value : Word) : Option (Machine M × XrExit) :=
  let m : Machine M := { m with proc := xrMtcr m.proc rb value }
  if rb = crIcachectrl then
    let m := XrBuild.icachectrl value m
    some (m.setPc (m.proc.pc + 4), .flush none)
  else if rb = crDcachectrl then xrNext (XrBuild.dcachectrl value m)
  else if rb = crItbctrl then
    some (m.setPc (m.proc.pc + 4),
      .flush (if value &&& 3 = 0 then some (value &&& 0xFFFFF000) else none))
  else xrNext m

def xrExecuteMtcr : XrHandler M := fun m _ inst =>
  if m.proc.rs &&& rsUser ≠ 0 then some (xrBasicException m excPrv m.proc.pc, .early)
  else mtcrKernel m inst.imm8_2 (m.reg inst.imm8_1)

def xrExecuteMfcr : XrHandler M := fun m _ inst =>
  if m.proc.rs &&& rsUser ≠ 0 then some (xrBasicException m excPrv m.proc.pc, .early)
  else
    let m : Machine M := { m with proc := { m.proc with nmiMaskCounter := nmiMaskCycles } }
    xrNext (m.setReg inst.imm8_1 (m.proc.cr inst.imm8_2))

/-! ## Jumps -/

/-- A conditional branch on register RD. -/
def branch (taken : Word → Bool) : XrHandler M := fun m _ inst =>
  if taken (m.reg inst.imm8_1) then some (m.setPc inst.imm32_1, .follow .true)
  else some (m.setPc (m.proc.pc + 4), .follow .false)

def xrExecuteBpo : XrHandler M := branch fun rd => rd &&& 1 != 0
def xrExecuteBpe : XrHandler M := branch fun rd => rd &&& 1 == 0
def xrExecuteBge : XrHandler M := branch fun rd => !rd.slt 0
def xrExecuteBle : XrHandler M := branch fun rd => rd.sle 0
def xrExecuteBgt : XrHandler M := branch fun rd => (0 : Word).slt rd
def xrExecuteBlt : XrHandler M := branch fun rd => rd.slt 0
def xrExecuteBne : XrHandler M := branch fun rd => rd != 0
def xrExecuteBeq : XrHandler M := branch fun rd => rd == 0

def xrExecuteB : XrHandler M := fun m _ inst => some (m.setPc inst.imm32_1, .follow .true)

def xrExecuteJ : XrHandler M := fun m _ inst => some (m.setPc inst.imm32_1, .follow .true)

/-- `LR` is register 31. -/
def xrExecuteJal : XrHandler M := fun m _ inst =>
  some ((m.setReg 31 (m.proc.pc + 4)).setPc inst.imm32_1, .follow .true)

def xrExecuteJalr : XrHandler M := fun m _ inst =>
  let pc := m.reg inst.imm8_2 + inst.imm32_1
  let m := (m.setReg inst.imm8_1 (m.proc.pc + 4)).setPc pc
  if pc &&& 3 ≠ 0 then some (xrBasicException (m.setCr crEbadaddr pc) excUna pc, .early)
  else some (m, .predict)

/-- It ends a block that does not end in a jump. -/
def xrSpecialLinkageInstruction : XrHandler M := fun m _ _ => some (m, .follow .true)

/-- `inst->Func`. -/
def XrFunc.exec : XrFunc → XrHandler M
  | .specialLinkage => xrSpecialLinkageInstruction
  | .illegalInstruction => xrExecuteIllegalInstruction
  | .nor => xrExecuteNor
  | .or => xrExecuteOr
  | .xor => xrExecuteXor
  | .and => xrExecuteAnd
  | .sltSigned => xrExecuteSltSigned
  | .slt => xrExecuteSlt
  | .sub => xrExecuteSub
  | .add => xrExecuteAdd
  | .lsh => xrExecuteLsh
  | .rsh => xrExecuteRsh
  | .ash => xrExecuteAsh
  | .ror => xrExecuteRor
  | .storeLongRegOffset => xrExecuteStoreLongRegOffset
  | .storeIntRegOffset => xrExecuteStoreIntRegOffset
  | .storeByteRegOffset => xrExecuteStoreByteRegOffset
  | .loadLongRegOffset => xrExecuteLoadLongRegOffset
  | .loadIntRegOffset => xrExecuteLoadIntRegOffset
  | .loadByteRegOffset => xrExecuteLoadByteRegOffset
  | .sys => xrExecuteSys
  | .brk => xrExecuteBrk
  | .wmb => xrExecuteWmb
  | .mb => xrExecuteMb
  | .pause => xrExecutePause
  | .sc => xrExecuteStoreConditional
  | .ll => xrExecuteLoadLinked
  | .mod => xrExecuteMod
  | .divSigned => xrExecuteDivSigned
  | .div => xrExecuteDiv
  | .mul => xrExecuteMul
  | .rfe => xrExecuteRfe
  | .hlt => xrExecuteHlt
  | .mtcr => xrExecuteMtcr
  | .mfcr => xrExecuteMfcr
  | .bpo => xrExecuteBpo
  | .bpe => xrExecuteBpe
  | .bge => xrExecuteBge
  | .ble => xrExecuteBle
  | .bgt => xrExecuteBgt
  | .blt => xrExecuteBlt
  | .bne => xrExecuteBne
  | .beq => xrExecuteBeq
  | .b => xrExecuteB
  | .ori => xrExecuteOri
  | .xori => xrExecuteXori
  | .andi => xrExecuteAndi
  | .sltiSigned => xrExecuteSltiSigned
  | .slti => xrExecuteSlti
  | .subi => xrExecuteSubi
  | .addi => xrExecuteAddi
  | .storeLongImmOffsetImm => xrExecuteStoreLongImmOffsetImm
  | .storeIntImmOffsetImm => xrExecuteStoreIntImmOffsetImm
  | .storeByteImmOffsetImm => xrExecuteStoreByteImmOffsetImm
  | .storeLongImmOffsetReg => xrExecuteStoreLongImmOffsetReg
  | .storeIntImmOffsetReg => xrExecuteStoreIntImmOffsetReg
  | .storeByteImmOffsetReg => xrExecuteStoreByteImmOffsetReg
  | .loadLongImmOffset => xrExecuteLoadLongImmOffset
  | .loadIntImmOffset => xrExecuteLoadIntImmOffset
  | .loadByteImmOffset => xrExecuteLoadByteImmOffset
  | .jalr => xrExecuteJalr
  | .adr => xrExecuteAdr
  | .jal => xrExecuteJal
  | .j => xrExecuteJ
  | .virtualLsh => xrExecuteVirtualLsh
  | .virtualRsh => xrExecuteVirtualRsh
  | .virtualAsh => xrExecuteVirtualAsh
  | .virtualRor => xrExecuteVirtualRor

/-- `inst->Func(proc, block, inst)`. -/
def XrCachedInst.exec (inst : XrCachedInst) (m : Machine M) (block : Nat) :
    Option (Machine M × XrExit) :=
  inst.func.exec m block inst

end

end Xremu
