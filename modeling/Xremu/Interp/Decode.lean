import Xremu.Interp.Inst

/-!
# Decoding

`XrDecoder` is a decode routine: its constructors are the ways fields of the
instruction word go into a cached instruction, and each `XrDecode` function of the
source is one of them with its implementation. The tables choose a decoder by bits of
the word.

What a decoder needs of the processor is one bit, RS_TBMISS: unless it is set, register
0 as a source becomes the fake zero register. Fields of a cached instruction that its
implementation does not read are left at zero.
-/

namespace Xremu

/-! ## Fields of an instruction word -/

/-- Five bits of an instruction word, from bit `k`. -/
def irField (ir : Word) (k : Nat) : Nat := ((ir >>> k) &&& 31).toNat

def irRd (ir : Word) : Nat := irField ir 6
def irRa (ir : Word) : Nat := irField ir 11
def irRb (ir : Word) : Nat := irField ir 16
def irShift (ir : Word) : Nat := irField ir 21

/-- `SignExt23((ir >> 11) << 2)`. -/
def branchOffset (ir : Word) : Word := (((ir >>> 11) <<< 2).setWidth 23).signExtend 32

/-- `XR_REDIRECT_ZERO_SRC`. -/
def redirectZeroSrc (tbmiss : Bool) (src : Nat) : Nat :=
  if tbmiss = false ∧ src = 0 then fakeZeroRegister else src

/-! ## The decoders -/

inductive XrDecoder where
  | stop (func : XrFunc)                        -- no operands, ends the block
  | plain (func : XrFunc)                       -- no operands
  | mtcr
  | mfcr
  | conditional                                 -- SC
  | linked                                      -- LL
  | regs (func : XrFunc)                        -- RD, RA and a shifted RB
  | storeRegs (func : XrFunc)                   -- the same, RD a source
  | regShifts
  | imm (func : XrFunc) (scale : Nat)           -- RD, RA and 16 bits shifted left
  | immSigned (func : XrFunc)
  | storeImmImm (func : XrFunc) (scale : Nat)   -- RD a source, five bits to store
  | storeImmReg (func : XrFunc) (scale : Nat)   -- RD and RA sources
  | branch (func : XrFunc)
  | beq
  | adr
  | jalr
  | jump (func : XrFunc)                        -- J and JAL
deriving DecidableEq

/-- What a decoder makes of a word: one or two cached instructions, and whether the
block ends there. -/
structure XrDecoded where
  insts : List XrCachedInst
  ends : Bool
deriving DecidableEq

/-- `XrVirtualShiftInstructionTable`. -/
def xrVirtualShiftInstructionTable : Nat → XrFunc
  | 0 => .virtualLsh
  | 1 => .virtualRsh
  | 2 => .virtualAsh
  | _ => .virtualRor

/-- `XrRegShiftFunctionTable`. -/
def xrRegShiftFunctionTable : Nat → XrFunc
  | 0 => .lsh
  | 1 => .rsh
  | 2 => .ash
  | _ => .ror

/-- `(ir >> 26) & 3`. -/
def irShiftKind (ir : Word) : Nat := ((ir >>> 26) &&& 3).toNat

/-- `XR_INSERT_SHIFT` before the instruction that `inst` makes of the register to take
RB from. -/
def insertShift (ir : Word) (rb : Nat) (inst : Nat → XrCachedInst) : List XrCachedInst :=
  if irShift ir ≠ 0 then
    [⟨xrVirtualShiftInstructionTable (irShiftKind ir), 0, rb, irShift ir⟩, inst fakeShiftSink]
  else [inst rb]

namespace XrDecoder

/-- The cached instructions. -/
def insts (tbmiss : Bool) (ir pc : Word) : XrDecoder → List XrCachedInst
  | .stop func | .plain func => [⟨func, 0, 0, 0⟩]
  | .mtcr => [⟨.mtcr, 0, redirectZeroSrc tbmiss (irRa ir), irRb ir⟩]
  | .mfcr => [⟨.mfcr, 0, irRd ir, irRb ir⟩]
  | .conditional =>
      [⟨.sc, BitVec.ofNat 32 (redirectZeroSrc tbmiss (irRb ir)), irRd ir,
        redirectZeroSrc tbmiss (irRa ir)⟩]
  | .linked => [⟨.ll, 0, irRd ir, redirectZeroSrc tbmiss (irRa ir)⟩]
  | .regs func =>
      insertShift ir (redirectZeroSrc tbmiss (irRb ir)) fun rb =>
        ⟨func, BitVec.ofNat 32 rb, irRd ir, redirectZeroSrc tbmiss (irRa ir)⟩
  | .storeRegs func =>
      insertShift ir (redirectZeroSrc tbmiss (irRb ir)) fun rb =>
        ⟨func, BitVec.ofNat 32 rb, redirectZeroSrc tbmiss (irRd ir),
          redirectZeroSrc tbmiss (irRa ir)⟩
  | .regShifts =>
      [⟨xrRegShiftFunctionTable (irShiftKind ir),
        BitVec.ofNat 32 (redirectZeroSrc tbmiss (irRb ir)), irRd ir,
        redirectZeroSrc tbmiss (irRa ir)⟩]
  | .imm func scale => [⟨func, (ir >>> 16) <<< scale, irRd ir, redirectZeroSrc tbmiss (irRa ir)⟩]
  | .immSigned func =>
      [⟨func, ((ir >>> 16).setWidth 16).signExtend 32, irRd ir, redirectZeroSrc tbmiss (irRa ir)⟩]
  | .storeImmImm func scale =>
      [⟨func, (ir >>> 16) <<< scale, redirectZeroSrc tbmiss (irRd ir), irRa ir⟩]
  | .storeImmReg func scale =>
      [⟨func, (ir >>> 16) <<< scale, redirectZeroSrc tbmiss (irRd ir),
        redirectZeroSrc tbmiss (irRa ir)⟩]
  | .branch func => [⟨func, pc + branchOffset ir, redirectZeroSrc tbmiss (irRd ir), 0⟩]
  | .beq =>
      -- BEQ ZERO is the canonical unconditional branch.
      let rd := redirectZeroSrc tbmiss (irRd ir)
      [⟨if rd = fakeZeroRegister then .b else .beq, pc + branchOffset ir, rd, 0⟩]
  | .adr => [⟨.adr, pc + (ir &&& 0xFFFF0000), irRd ir, 0⟩]
  | .jalr => [⟨.jalr, (ir >>> 16) <<< 2, irRd ir, redirectZeroSrc tbmiss (irRa ir)⟩]
  | .jump func => [⟨func, (pc &&& 0x80000000) ||| ((ir >>> 3) <<< 2), 0, 0⟩]

/-- Does it return 0, so that the block ends? -/
def ends : XrDecoder → Bool
  | .stop _ | .branch _ | .beq | .jalr | .jump _ => true
  | _ => false

def decode (d : XrDecoder) (tbmiss : Bool) (ir pc : Word) : XrDecoded :=
  ⟨d.insts tbmiss ir pc, d.ends⟩

end XrDecoder

def xrDecodeIllegalInstruction : XrDecoder := .stop .illegalInstruction
def xrDecodeRfe : XrDecoder := .stop .rfe
def xrDecodeHlt : XrDecoder := .stop .hlt
def xrDecodeMtcr : XrDecoder := .mtcr
def xrDecodeMfcr : XrDecoder := .mfcr
def xrDecodeSys : XrDecoder := .plain .sys
def xrDecodeBrk : XrDecoder := .plain .brk
def xrDecodeWmb : XrDecoder := .plain .wmb
def xrDecodeMb : XrDecoder := .plain .mb
def xrDecodePause : XrDecoder := .plain .pause
def xrDecodeSC : XrDecoder := .conditional
def xrDecodeLL : XrDecoder := .linked
def xrDecodeMod : XrDecoder := .regs .mod
def xrDecodeDivSigned : XrDecoder := .regs .divSigned
def xrDecodeDiv : XrDecoder := .regs .div
def xrDecodeMul : XrDecoder := .regs .mul
def xrDecodeNor : XrDecoder := .regs .nor
def xrDecodeOr : XrDecoder := .regs .or
def xrDecodeXor : XrDecoder := .regs .xor
def xrDecodeAnd : XrDecoder := .regs .and
def xrDecodeSltSigned : XrDecoder := .regs .sltSigned
def xrDecodeSlt : XrDecoder := .regs .slt
def xrDecodeSub : XrDecoder := .regs .sub
def xrDecodeAdd : XrDecoder := .regs .add
def xrDecodeRegShifts : XrDecoder := .regShifts
def xrDecodeStoreLongRegOffset : XrDecoder := .storeRegs .storeLongRegOffset
def xrDecodeStoreIntRegOffset : XrDecoder := .storeRegs .storeIntRegOffset
def xrDecodeStoreByteRegOffset : XrDecoder := .storeRegs .storeByteRegOffset
def xrDecodeLoadLongRegOffset : XrDecoder := .regs .loadLongRegOffset
def xrDecodeLoadIntRegOffset : XrDecoder := .regs .loadIntRegOffset
def xrDecodeLoadByteRegOffset : XrDecoder := .regs .loadByteRegOffset
def xrDecodeLui : XrDecoder := .imm .ori 16
def xrDecodeBpo : XrDecoder := .branch .bpo
def xrDecodeStoreLongImmOffsetImm : XrDecoder := .storeImmImm .storeLongImmOffsetImm 2
def xrDecodeOri : XrDecoder := .imm .ori 0
def xrDecodeBpe : XrDecoder := .branch .bpe
def xrDecodeStoreIntImmOffsetImm : XrDecoder := .storeImmImm .storeIntImmOffsetImm 1
def xrDecodeXori : XrDecoder := .imm .xori 0
def xrDecodeBge : XrDecoder := .branch .bge
def xrDecodeStoreByteImmOffsetImm : XrDecoder := .storeImmImm .storeByteImmOffsetImm 0
def xrDecodeAndi : XrDecoder := .imm .andi 0
def xrDecodeBle : XrDecoder := .branch .ble
def xrDecodeSltiSigned : XrDecoder := .immSigned .sltiSigned
def xrDecodeBgt : XrDecoder := .branch .bgt
def xrDecodeStoreLongImmOffsetReg : XrDecoder := .storeImmReg .storeLongImmOffsetReg 2
def xrDecodeLoadLongImmOffset : XrDecoder := .imm .loadLongImmOffset 2
def xrDecodeSlti : XrDecoder := .imm .slti 0
def xrDecodeBlt : XrDecoder := .branch .blt
def xrDecodeStoreIntImmOffsetReg : XrDecoder := .storeImmReg .storeIntImmOffsetReg 1
def xrDecodeLoadIntImmOffset : XrDecoder := .imm .loadIntImmOffset 1
def xrDecodeSubi : XrDecoder := .imm .subi 0
def xrDecodeBne : XrDecoder := .branch .bne
def xrDecodeJalr : XrDecoder := .jalr
def xrDecodeAdr : XrDecoder := .adr
def xrDecodeStoreByteImmOffsetReg : XrDecoder := .storeImmReg .storeByteImmOffsetReg 0
def xrDecodeLoadByteImmOffset : XrDecoder := .imm .loadByteImmOffset 0
def xrDecodeAddi : XrDecoder := .imm .addi 0
def xrDecodeBeq : XrDecoder := .beq
def xrDecodeJal : XrDecoder := .jump .jal
def xrDecodeJ : XrDecoder := .jump .j

/-! ## The tables -/

/-- `XrDecodeFunctions101001`, by the high four bits. -/
def xrDecodeFunctions101001 : Nat → XrDecoder
  | 11 => xrDecodeRfe
  | 12 => xrDecodeHlt
  | 14 => xrDecodeMtcr
  | 15 => xrDecodeMfcr
  | _ => xrDecodeIllegalInstruction

/-- `XrDecodeFunctions110001`. -/
def xrDecodeFunctions110001 : Nat → XrDecoder
  | 0 => xrDecodeSys
  | 1 => xrDecodeBrk
  | 2 => xrDecodeWmb
  | 3 => xrDecodeMb
  | 6 => xrDecodePause
  | 8 => xrDecodeSC
  | 9 => xrDecodeLL
  | 11 => xrDecodeMod
  | 12 => xrDecodeDivSigned
  | 13 => xrDecodeDiv
  | 15 => xrDecodeMul
  | _ => xrDecodeIllegalInstruction

/-- `XrDecodeFunctions111001`. -/
def xrDecodeFunctions111001 : Nat → XrDecoder
  | 0 => xrDecodeNor
  | 1 => xrDecodeOr
  | 2 => xrDecodeXor
  | 3 => xrDecodeAnd
  | 4 => xrDecodeSltSigned
  | 5 => xrDecodeSlt
  | 6 => xrDecodeSub
  | 7 => xrDecodeAdd
  | 8 => xrDecodeRegShifts
  | 9 => xrDecodeStoreLongRegOffset
  | 10 => xrDecodeStoreIntRegOffset
  | 11 => xrDecodeStoreByteRegOffset
  | 13 => xrDecodeLoadLongRegOffset
  | 14 => xrDecodeLoadIntRegOffset
  | 15 => xrDecodeLoadByteRegOffset
  | _ => xrDecodeIllegalInstruction

/-- `XrDecodeLowSix`, by the low six bits; `major` are the high four. -/
def xrDecodeLowSix (major : Nat) : Nat → XrDecoder
  | 4 => xrDecodeLui
  | 5 => xrDecodeBpo
  | 10 => xrDecodeStoreLongImmOffsetImm
  | 12 => xrDecodeOri
  | 13 => xrDecodeBpe
  | 18 => xrDecodeStoreIntImmOffsetImm
  | 20 => xrDecodeXori
  | 21 => xrDecodeBge
  | 26 => xrDecodeStoreByteImmOffsetImm
  | 28 => xrDecodeAndi
  | 29 => xrDecodeBle
  | 36 => xrDecodeSltiSigned
  | 37 => xrDecodeBgt
  | 41 => xrDecodeFunctions101001 major
  | 42 => xrDecodeStoreLongImmOffsetReg
  | 43 => xrDecodeLoadLongImmOffset
  | 44 => xrDecodeSlti
  | 45 => xrDecodeBlt
  | 48 => xrDecodeAdr
  | 49 => xrDecodeFunctions110001 major
  | 50 => xrDecodeStoreIntImmOffsetReg
  | 51 => xrDecodeLoadIntImmOffset
  | 52 => xrDecodeSubi
  | 53 => xrDecodeBne
  | 56 => xrDecodeJalr
  | 57 => xrDecodeFunctions111001 major
  | 58 => xrDecodeStoreByteImmOffsetReg
  | 59 => xrDecodeLoadByteImmOffset
  | 60 => xrDecodeAddi
  | 61 => xrDecodeBeq
  | _ => xrDecodeIllegalInstruction

/-- `XrDecodeLowThree`, by the low three bits. -/
def xrDecoder (ir : Word) : XrDecoder :=
  match (ir &&& 7).toNat with
  | 6 => xrDecodeJ
  | 7 => xrDecodeJal
  | _ => xrDecodeLowSix (ir >>> 28).toNat (ir &&& 63).toNat

/-- `XrDecodeLowThree[ir & 7](proc, inst, ir, pc)`. -/
def xrDecode (tbmiss : Bool) (ir pc : Word) : XrDecoded := (xrDecoder ir).decode tbmiss ir pc

end Xremu
