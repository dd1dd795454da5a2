import Xremu.Interp.Cycles
import Xremu.Interp.UserMode

/-!
# Register 0

Unless RS_TBMISS is set, register 0 reads as zero: while it decodes, `XR_REDIRECT_ZERO_SRC`
replaces it by a register that always is zero. A block decoded with the bit clear is
therefore the one decoded with the bit set after a renaming of the registers it reads
(`insts_redirected`), and the two agree on an instruction unless that names register 0.

The bit is looked at when a block is decoded, and the block is executed under whatever RS
there is then. `zero_register` says which instructions that is right for.
-/

namespace Xremu

open XrIblockCache

/-! ## The registers an instruction reads -/

/-- Which fields of a cached instruction name a register that it reads. -/
structure XrOperands where
  imm8_1 : Bool
  imm8_2 : Bool
  imm32_1 : Bool
deriving DecidableEq

def XrFunc.operands : XrFunc → XrOperands
  | .nor | .or | .xor | .and | .sltSigned | .slt | .sub | .add | .lsh | .rsh | .ash | .ror
  | .loadLongRegOffset | .loadIntRegOffset | .loadByteRegOffset
  | .sc | .mod | .divSigned | .div | .mul => ⟨false, true, true⟩
  | .storeLongRegOffset | .storeIntRegOffset | .storeByteRegOffset => ⟨true, true, true⟩
  | .ori | .xori | .andi | .sltiSigned | .slti | .subi | .addi
  | .loadLongImmOffset | .loadIntImmOffset | .loadByteImmOffset
  | .ll | .jalr => ⟨false, true, false⟩
  | .storeLongImmOffsetReg | .storeIntImmOffsetReg | .storeByteImmOffsetReg => ⟨true, true, false⟩
  | .storeLongImmOffsetImm | .storeIntImmOffsetImm | .storeByteImmOffsetImm
  | .mtcr | .virtualLsh | .virtualRsh | .virtualAsh | .virtualRor
  | .bpo | .bpe | .bge | .ble | .bgt | .blt | .bne | .beq | .b => ⟨true, false, false⟩
  | _ => ⟨false, false, false⟩

namespace XrCachedInst

def sources (inst : XrCachedInst) : List Nat :=
  (if inst.func.operands.imm8_1 then [inst.imm8_1] else []) ++
    (if inst.func.operands.imm8_2 then [inst.imm8_2] else []) ++
      (if inst.func.operands.imm32_1 then [inst.imm32_1.toNat] else [])

/-- Register 0 is among them, under its own number or redirected. -/
def NamesZero (inst : XrCachedInst) : Prop :=
  0 ∈ inst.sources ∨ fakeZeroRegister ∈ inst.sources

instance (inst : XrCachedInst) : Decidable inst.NamesZero := inferInstanceAs (Decidable (_ ∨ _))

/-- The same instruction decoded with RS_TBMISS clear. -/
def redirected (inst : XrCachedInst) : XrCachedInst where
  func := if inst.func = .beq ∧ inst.imm8_1 = 0 then .b else inst.func
  imm32_1 :=
    if inst.func.operands.imm32_1 then
      BitVec.ofNat 32 (redirectZeroSrc false inst.imm32_1.toNat)
    else inst.imm32_1
  imm8_1 :=
    if inst.func.operands.imm8_1 then redirectZeroSrc false inst.imm8_1 else inst.imm8_1
  imm8_2 :=
    if inst.func.operands.imm8_2 then redirectZeroSrc false inst.imm8_2 else inst.imm8_2

end XrCachedInst

@[simp] theorem redirectZeroSrc_set (src : Nat) : redirectZeroSrc true src = src := by
  unfold redirectZeroSrc
  rw [if_neg]
  rintro ⟨h, -⟩
  cases h

theorem redirectZeroSrc_other {src : Nat} (h : src ≠ 0) : redirectZeroSrc false src = src := by
  unfold redirectZeroSrc
  rw [if_neg]
  rintro ⟨-, hsrc⟩
  exact h hsrc

theorem redirectZeroSrc_ne_zero (src : Nat) : redirectZeroSrc false src ≠ 0 := by
  by_cases h : src = 0
  · subst h
    decide
  · rw [redirectZeroSrc_other h]
    exact h

theorem redirectZeroSrc_eq_iff {src : Nat} (h : src ≠ fakeZeroRegister) :
    redirectZeroSrc false src = fakeZeroRegister ↔ src = 0 := by
  constructor
  · intro hsrc
    by_contra hzero
    rw [redirectZeroSrc_other hzero] at hsrc
    exact h hsrc
  · rintro rfl
    rfl

theorem redirectZeroSrc_lt {src : Nat} (h : src < 0x100000000) :
    redirectZeroSrc false src < 0x100000000 := by
  by_cases hzero : src = 0
  · subst hzero
    decide
  · rw [redirectZeroSrc_other hzero]
    exact h

namespace XrCachedInst

variable {inst : XrCachedInst}

/-- B reads what BEQ does. -/
theorem operands_redirected (inst : XrCachedInst) :
    inst.redirected.func.operands = inst.func.operands := by
  unfold redirected
  dsimp only
  split
  · next h =>
      rw [h.1]
      rfl
  · rfl

theorem sources_redirected (inst : XrCachedInst) :
    inst.redirected.sources = inst.sources.map (redirectZeroSrc false) := by
  have hword : (BitVec.ofNat 32 (redirectZeroSrc false inst.imm32_1.toNat)).toNat =
      redirectZeroSrc false inst.imm32_1.toNat := by
    rw [BitVec.toNat_ofNat]
    exact Nat.mod_eq_of_lt (redirectZeroSrc_lt inst.imm32_1.isLt)
  unfold sources
  rw [operands_redirected]
  cases h₁ : inst.func.operands.imm8_1 <;> cases h₂ : inst.func.operands.imm8_2 <;>
    cases h₃ : inst.func.operands.imm32_1 <;> simp [redirected, h₁, h₂, h₃, hword]

theorem mem_sources {r : Nat} : r ∈ inst.sources ↔
    (inst.func.operands.imm8_1 = true ∧ inst.imm8_1 = r) ∨
      (inst.func.operands.imm8_2 = true ∧ inst.imm8_2 = r) ∨
        (inst.func.operands.imm32_1 = true ∧ inst.imm32_1.toNat = r) := by
  unfold sources
  cases inst.func.operands.imm8_1 <;> cases inst.func.operands.imm8_2 <;>
    cases inst.func.operands.imm32_1 <;> simp [eq_comm]

/-- Redirection changes exactly the instructions that read register 0. -/
theorem redirected_eq_iff : inst.redirected = inst ↔ 0 ∉ inst.sources := by
  constructor
  · intro heq hzero
    rw [← heq, sources_redirected] at hzero
    obtain ⟨src, -, hsrc⟩ := List.mem_map.mp hzero
    exact redirectZeroSrc_ne_zero src hsrc
  · intro hzero
    rw [mem_sources] at hzero
    push Not at hzero
    obtain ⟨hfirst, hsecond, hlarge⟩ := hzero
    have hbeq : ¬(inst.func = .beq ∧ inst.imm8_1 = 0) := by
      rintro ⟨hfunc, himm⟩
      refine hfirst ?_ himm
      rw [hfunc]
      rfl
    obtain ⟨func, imm32, imm8, imm8'⟩ := inst
    unfold redirected
    rw [if_neg hbeq]
    congr 1
    · split
      · next h => rw [redirectZeroSrc_other (hlarge h), BitVec.ofNat_toNat, BitVec.setWidth_eq]
      · rfl
    · split
      · next h => exact redirectZeroSrc_other (hfirst h)
      · rfl
    · split
      · next h => exact redirectZeroSrc_other (hsecond h)
      · rfl

theorem namesZero_of_set (h : fakeZeroRegister ∉ inst.sources) :
    inst.NamesZero ↔ 0 ∈ inst.sources := by
  constructor
  · rintro (hzero | hfake)
    · exact hzero
    · exact absurd hfake h
  · exact Or.inl

theorem redirected_namesZero (h : fakeZeroRegister ∉ inst.sources) :
    inst.redirected.NamesZero ↔ 0 ∈ inst.sources := by
  unfold NamesZero
  rw [sources_redirected]
  constructor
  · rintro (hzero | hfake)
    · obtain ⟨src, -, hsrc⟩ := List.mem_map.mp hzero
      exact absurd hsrc (redirectZeroSrc_ne_zero src)
    · obtain ⟨src, hmem, hsrc⟩ := List.mem_map.mp hfake
      have hne : src ≠ fakeZeroRegister := by
        rintro rfl
        exact h hmem
      rw [(redirectZeroSrc_eq_iff hne).mp hsrc] at hmem
      exact hmem
  · intro hzero
    exact Or.inr (List.mem_map.mpr ⟨0, hzero, rfl⟩)

/-- The fields that are not registers do not count. -/
theorem redirected_mk {func : XrFunc} {ops : XrOperands} (h : func.operands = ops)
    (hbeq : func ≠ .beq) (imm32 : Word) (imm8 imm8' : Nat) :
    redirected ⟨func, imm32, imm8, imm8'⟩ =
      ⟨func, if ops.imm32_1 then BitVec.ofNat 32 (redirectZeroSrc false imm32.toNat) else imm32,
        if ops.imm8_1 then redirectZeroSrc false imm8 else imm8,
        if ops.imm8_2 then redirectZeroSrc false imm8' else imm8'⟩ := by
  subst h
  unfold redirected
  rw [if_neg]
  rintro ⟨heq, -⟩
  exact hbeq heq

end XrCachedInst

/-! ## Decoding with the bit set and clear -/

/-- The fields a decoder redirects are the registers its instruction reads. -/
def XrDecoder.Sourced : XrDecoder → Prop
  | .stop func | .plain func | .jump func => func.operands = ⟨false, false, false⟩
  | .regs func => func.operands = ⟨false, true, true⟩
  | .storeRegs func => func.operands = ⟨true, true, true⟩
  | .imm func _ | .immSigned func => func.operands = ⟨false, true, false⟩
  | .storeImmImm func _ | .branch func => func.operands = ⟨true, false, false⟩ ∧ func ≠ .beq
  | .storeImmReg func _ => func.operands = ⟨true, true, false⟩
  | _ => True

theorem xrDecodeFunctions101001_sourced (n : Nat) : (xrDecodeFunctions101001 n).Sourced := by
  unfold xrDecodeFunctions101001
  split <;> first | rfl | trivial

theorem xrDecodeFunctions110001_sourced (n : Nat) : (xrDecodeFunctions110001 n).Sourced := by
  unfold xrDecodeFunctions110001
  split <;> first | rfl | trivial

theorem xrDecodeFunctions111001_sourced (n : Nat) : (xrDecodeFunctions111001 n).Sourced := by
  unfold xrDecodeFunctions111001
  split <;> first | rfl | trivial

theorem xrDecodeLowSix_sourced (major n : Nat) : (xrDecodeLowSix major n).Sourced := by
  unfold xrDecodeLowSix
  split <;>
    first
    | rfl
    | trivial
    | exact ⟨rfl, XrFunc.noConfusion⟩
    | exact xrDecodeFunctions101001_sourced major
    | exact xrDecodeFunctions110001_sourced major
    | exact xrDecodeFunctions111001_sourced major

theorem xrDecoder_sourced (ir : Word) : (xrDecoder ir).Sourced := by
  unfold xrDecoder
  split
  · rfl
  · rfl
  · exact xrDecodeLowSix_sourced _ _

theorem operands_virtualShift (n : Nat) :
    (xrVirtualShiftInstructionTable n).operands = ⟨true, false, false⟩ ∧
      xrVirtualShiftInstructionTable n ≠ .beq := by
  unfold xrVirtualShiftInstructionTable
  split <;> exact ⟨rfl, XrFunc.noConfusion⟩

theorem operands_regShift (n : Nat) :
    (xrRegShiftFunctionTable n).operands = ⟨false, true, true⟩ := by
  unfold xrRegShiftFunctionTable
  split <;> rfl

/-- Only branches have the operands of one. -/
theorem ne_beq_of_operands {func : XrFunc} {ops : XrOperands} (h : func.operands = ops)
    (hops : ops ≠ ⟨true, false, false⟩) : func ≠ .beq := by
  rintro rfl
  exact hops h.symm

/-- The number of a register is small. -/
theorem toNat_register {n : Nat} (h : n ≤ fakeShiftSink) : (BitVec.ofNat 32 n).toNat = n := by
  rw [BitVec.toNat_ofNat]
  apply Nat.mod_eq_of_lt
  exact Nat.lt_of_le_of_lt h (by decide)

theorem insertShift_map (ir : Word) (rb : Nat) {inst inst' : Nat → XrCachedInst}
    (h : ∀ n, n ≤ fakeShiftSink → (inst n).redirected = inst' (redirectZeroSrc false n))
    (hrb : rb ≤ fakeShiftSink) :
    insertShift ir (redirectZeroSrc false rb) inst' =
      (insertShift ir rb inst).map XrCachedInst.redirected := by
  obtain ⟨hops, hbeq⟩ := operands_virtualShift (irShiftKind ir)
  have hsink : (inst fakeShiftSink).redirected = inst' fakeShiftSink :=
    h fakeShiftSink (Nat.le_refl _)
  unfold insertShift
  by_cases hshift : irShift ir ≠ 0
  · rw [if_pos hshift, if_pos hshift, List.map_cons, List.map_cons, List.map_nil, hsink,
      XrCachedInst.redirected_mk hops hbeq]
    rfl
  · rw [if_neg hshift, if_neg hshift, List.map_cons, List.map_nil, h rb hrb]

theorem irField_le (ir : Word) (k : Nat) : irField ir k ≤ fakeShiftSink :=
  Nat.le_trans (Nat.le_of_lt (irField_lt ir k)) (by decide)

theorem XrDecoder.Sourced.insts {d : XrDecoder} (h : d.Sourced) (ir pc : Word) :
    d.insts false ir pc = (d.insts true ir pc).map XrCachedInst.redirected := by
  cases d with
  | stop func | plain func | jump func =>
      have hbeq := ne_beq_of_operands h (by decide)
      simp only [XrDecoder.insts, List.map_cons, List.map_nil,
        XrCachedInst.redirected_mk h hbeq, Bool.false_eq_true, if_false]
  | regs func =>
      have hbeq := ne_beq_of_operands h (by decide)
      simp only [XrDecoder.insts, redirectZeroSrc_set]
      refine insertShift_map ir (irRb ir) ?_ (irField_le ir 16)
      intro n hn
      simp only [XrCachedInst.redirected_mk h hbeq, Bool.false_eq_true, if_false, if_true,
        toNat_register hn]
  | storeRegs func =>
      have hbeq := ne_beq_of_operands h (by decide)
      simp only [XrDecoder.insts, redirectZeroSrc_set]
      refine insertShift_map ir (irRb ir) ?_ (irField_le ir 16)
      intro n hn
      simp only [XrCachedInst.redirected_mk h hbeq, if_true, toNat_register hn]
  | regShifts =>
      have hops := operands_regShift (irShiftKind ir)
      have hbeq := ne_beq_of_operands hops (by decide)
      simp only [XrDecoder.insts, redirectZeroSrc_set, List.map_cons, List.map_nil,
        XrCachedInst.redirected_mk hops hbeq, Bool.false_eq_true, if_false, if_true,
        toNat_register (irField_le ir 16), irRb]
  | imm func scale | immSigned func | storeImmReg func scale =>
      have hbeq := ne_beq_of_operands h (by decide)
      simp only [XrDecoder.insts, redirectZeroSrc_set, List.map_cons, List.map_nil,
        XrCachedInst.redirected_mk h hbeq, Bool.false_eq_true, if_false, if_true]
  | storeImmImm func scale | branch func =>
      simp only [XrDecoder.insts, redirectZeroSrc_set, List.map_cons, List.map_nil,
        XrCachedInst.redirected_mk h.1 h.2, Bool.false_eq_true, if_false, if_true]
  | beq =>
      -- BEQ of register 0 becomes B.
      simp only [XrDecoder.insts, redirectZeroSrc_set, List.map_cons, List.map_nil,
        XrCachedInst.redirected]
      have hfake : irRd ir ≠ fakeZeroRegister := Nat.ne_of_lt (irField_lt ir 6)
      rw [if_neg hfake]
      simp only [redirectZeroSrc_eq_iff hfake, true_and]
      rfl
  | conditional =>
      have hops : XrFunc.sc.operands = ⟨false, true, true⟩ := rfl
      have hbeq := ne_beq_of_operands hops (by decide)
      simp only [XrDecoder.insts, redirectZeroSrc_set, List.map_cons, List.map_nil,
        XrCachedInst.redirected_mk hops hbeq, Bool.false_eq_true, if_false, if_true,
        toNat_register (irField_le ir 16), irRb]
  | linked | jalr | mtcr | mfcr | adr =>
      simp only [XrDecoder.insts, redirectZeroSrc_set]
      rfl

theorem irField_ne_fake (ir : Word) (k : Nat) : irField ir k ≠ fakeZeroRegister :=
  Nat.ne_of_lt (irField_lt ir k)

theorem insertShift_unfaked (ir : Word) (k : Nat) {inst : Nat → XrCachedInst}
    (h : ∀ n, n ≠ fakeZeroRegister → n ≤ fakeShiftSink → fakeZeroRegister ∉ (inst n).sources) :
    ∀ i ∈ insertShift ir (irField ir k) inst, fakeZeroRegister ∉ i.sources := by
  have hrb := h (irField ir k) (irField_ne_fake ir k) (irField_le ir k)
  have hsink := h fakeShiftSink (by decide) (Nat.le_refl _)
  intro i hi
  unfold insertShift at hi
  by_cases hshift : irShift ir ≠ 0
  · rw [if_pos hshift] at hi
    rcases List.mem_cons.mp hi with rfl | hi
    · rw [XrCachedInst.mem_sources, (operands_virtualShift (irShiftKind ir)).1]
      simp [irField_ne_fake]
    · rw [List.mem_singleton.mp hi]
      exact hsink
  · rw [if_neg hshift] at hi
    rw [List.mem_singleton.mp hi]
    exact hrb

/-- No instruction names the fake register itself. -/
theorem XrDecoder.Sourced.unfaked {d : XrDecoder} (h : d.Sourced) (ir pc : Word) :
    ∀ i ∈ d.insts true ir pc, fakeZeroRegister ∉ i.sources := by
  intro i hi
  cases d with
  | regs func =>
      simp only [XrDecoder.insts, redirectZeroSrc_set] at hi
      refine insertShift_unfaked ir 16 ?_ i hi
      intro n hn hle
      rw [XrCachedInst.mem_sources, show func.operands = _ from h, toNat_register hle]
      simp [irRa, irField_ne_fake, hn]
  | storeRegs func =>
      simp only [XrDecoder.insts, redirectZeroSrc_set] at hi
      refine insertShift_unfaked ir 16 ?_ i hi
      intro n hn hle
      rw [XrCachedInst.mem_sources, show func.operands = _ from h, toNat_register hle]
      simp [irRa, irRd, irField_ne_fake, hn]
  | regShifts =>
      simp only [XrDecoder.insts, redirectZeroSrc_set] at hi
      have hrb : (BitVec.ofNat 32 (irRb ir)).toNat = irRb ir := toNat_register (irField_le ir 16)
      rw [List.mem_singleton.mp hi, XrCachedInst.mem_sources, operands_regShift]
      simp only [hrb]
      simp [irRa, irRb, irField_ne_fake]
  | conditional =>
      simp only [XrDecoder.insts, redirectZeroSrc_set] at hi
      have hrb : (BitVec.ofNat 32 (irRb ir)).toNat = irRb ir := toNat_register (irField_le ir 16)
      rw [List.mem_singleton.mp hi, XrCachedInst.mem_sources]
      simp only [hrb]
      simp [XrFunc.operands, irRa, irRb, irField_ne_fake]
  | beq =>
      simp only [XrDecoder.insts, redirectZeroSrc_set] at hi
      have hrd : irRd ir ≠ fakeZeroRegister := irField_ne_fake ir 6
      rw [List.mem_singleton.mp hi, XrCachedInst.mem_sources, if_neg hrd]
      simp [XrFunc.operands, irRd, irField_ne_fake]
  | stop func | plain func | jump func | imm func scale | immSigned func | storeImmReg func scale =>
      rw [List.mem_singleton.mp hi, XrCachedInst.mem_sources, show func.operands = _ from h]
      simp [irRd, irRa, irField_ne_fake]
  | storeImmImm func scale | branch func =>
      rw [List.mem_singleton.mp hi, XrCachedInst.mem_sources, h.1]
      simp [irRd, irField_ne_fake]
  | linked | jalr | mtcr | mfcr | adr =>
      rw [List.mem_singleton.mp hi, XrCachedInst.mem_sources]
      simp [irRa, irField_ne_fake, XrFunc.operands]

/-! ## Blocks -/

/-- The same words, decoded with RS_TBMISS clear and with it set. -/
theorem decodeLoop_redirected (irs : List Word) (pc : Word) (room : Nat) :
    xrDecodeLoop false irs pc room =
      ((xrDecodeLoop true irs pc room).1.map XrCachedInst.redirected,
        (xrDecodeLoop true irs pc room).2) := by
  induction irs generalizing pc room with
  | nil => rfl
  | cons ir irs ih =>
      have hinsts : (xrDecode false ir pc).insts =
          (xrDecode true ir pc).insts.map XrCachedInst.redirected :=
        (xrDecoder_sourced ir).insts ir pc
      have hlength : (xrDecode false ir pc).insts.length = (xrDecode true ir pc).insts.length := by
        rw [hinsts, List.length_map]
      rw [xrDecodeLoop, xrDecodeLoop]
      dsimp only
      rw [hlength, ih, hinsts]
      by_cases hends : (xrDecoder ir).ends = true
      · have hset : (xrDecode true ir pc).ends = true := hends
        have hclear : (xrDecode false ir pc).ends = true := hends
        rw [if_pos hset, if_pos hclear]
      · have hset : ¬(xrDecode true ir pc).ends = true := hends
        have hclear : ¬(xrDecode false ir pc).ends = true := hends
        rw [if_neg hset, if_neg hclear]
        by_cases hroom : room ≤ (xrDecode true ir pc).insts.length
        · rw [if_pos hroom, if_pos hroom, List.map_append]
          rfl
        · rw [if_neg hroom, if_neg hroom, List.map_append]

theorem insts_redirected (words : List Word) (pc : Word) :
    (xrDecodeBlock false words pc).insts =
      (xrDecodeBlock true words pc).insts.map XrCachedInst.redirected :=
  congrArg Prod.fst (decodeLoop_redirected words pc xrIblockInsts)

theorem insts_unfaked (words : List Word) (pc : Word) :
    ∀ i ∈ (xrDecodeBlock true words pc).insts, fakeZeroRegister ∉ i.sources := by
  refine @forall_decodeLoop true (fun _ => True) _ (by decide) (fun _ h => h) ?_ words pc trivial _
  intro ir pc _
  exact (xrDecoder_sourced ir).unfaked ir pc

/-- The instruction that is in the block is the one the words decode to, whichever way the
bit is now, if the bit is as it was or register 0 is not read. -/
theorem decoded_iff {words : List Word} {pc : Word} {decoded now : Bool} {k : Nat}
    {inst : XrCachedInst} (h : (xrDecodeBlock decoded words pc).insts[k]? = some inst) :
    (xrDecodeBlock now words pc).insts[k]? = some inst ↔ decoded = now ∨ ¬inst.NamesZero := by
  have hcross : ∀ x, (xrDecodeBlock true words pc).insts[k]? = some x →
      fakeZeroRegister ∉ x.sources ∧
        (xrDecodeBlock false words pc).insts[k]? = some x.redirected := by
    intro x hx
    refine ⟨insts_unfaked words pc x (List.mem_of_getElem? hx), ?_⟩
    rw [insts_redirected, List.getElem?_map, hx]
    rfl
  cases decoded <;> cases now
  · exact ⟨fun _ => Or.inl rfl, fun _ => h⟩
  · rw [insts_redirected, List.getElem?_map] at h
    obtain ⟨x, hx, rfl⟩ := Option.map_eq_some_iff.mp h
    have hunfaked := (hcross x hx).1
    rw [hx, XrCachedInst.redirected_namesZero hunfaked, Option.some.injEq, eq_comm,
      XrCachedInst.redirected_eq_iff]
    simp
  · obtain ⟨hunfaked, hclear⟩ := hcross inst h
    rw [hclear, XrCachedInst.namesZero_of_set hunfaked, Option.some.injEq,
      XrCachedInst.redirected_eq_iff]
    simp
  · exact ⟨fun _ => Or.inl rfl, fun _ => h⟩

/-- An instruction of a block decoded with the bit clear does not name register 0, and one of
a block decoded with it set does not name the fake register. -/
theorem sources_of_decoded {words : List Word} {pc : Word} {tbmiss : Bool} {k : Nat}
    {inst : XrCachedInst} (h : (xrDecodeBlock tbmiss words pc).insts[k]? = some inst) :
    (tbmiss = false → 0 ∉ inst.sources) ∧ (tbmiss = true → fakeZeroRegister ∉ inst.sources) := by
  constructor
  · rintro rfl
    rw [insts_redirected, List.getElem?_map] at h
    obtain ⟨x, -, rfl⟩ := Option.map_eq_some_iff.mp h
    rw [XrCachedInst.sources_redirected]
    intro hzero
    obtain ⟨src, -, hsrc⟩ := List.mem_map.mp hzero
    exact redirectZeroSrc_ne_zero src hsrc
  · rintro rfl
    exact insts_unfaked words pc inst (List.mem_of_getElem? h)

/-! ## The fake register in a run -/

section

variable {M : Type} [XrBuild M] {m m' m₁ : Machine M} {c c' : XrIblockCache} {i k : Nat}
  {inst : XrCachedInst} {exit : XrExit} {s s' : XrInterp M}

theorem Faulted.zeroOk (h : Faulted m m') (hz : ZeroOk m.proc) : ZeroOk m'.proc :=
  h.kept.zero hz

theorem leaves_zeroOk (hleaves : Leaves m c i k exit s) (hz : ZeroOk m.proc) :
    ZeroOk s.machine.proc := by
  cases hleaves with
  | next | early | flush _ | trivial | cached _ => exact hz
  | decoded null decode => exact (decode_touched decode).kept.zero hz
  | faulted null decode => exact (decode_fault decode).1.zeroOk hz
  | predicted table miss decode => exact (decode_touched decode).kept.zero hz
  | unpredicted table miss decode => exact (decode_fault decode).1.zeroOk hz

theorem takeInterrupt_zeroOk (pending : Bool) (hz : ZeroOk m.proc) :
    ZeroOk (takeInterrupt pending m.countNmiMask).proc := by
  have hcount : ZeroOk m.countNmiMask.proc := by
    rw [countNmiMask_proc m]
    exact hz
  unfold takeInterrupt
  split
  · exact (kept_basic m.countNmiMask excInt _).zero hcount
  · exact hcount

theorem retry_zeroOk {pending : Bool} (hrun : xrRetry pending m c = some s) (hz : ZeroOk m.proc) :
    ZeroOk s.machine.proc := by
  have htaken := takeInterrupt_zeroOk pending hz
  cases retries hrun with
  | stopped stops => exact hz
  | faulted goes decode => exact (decode_fault decode).1.zeroOk htaken
  | enters goes decode => exact (decode_touched decode).kept.zero htaken

theorem step_zeroOk {pending : Bool} (hstep : s.step pending = some s')
    (hz : ZeroOk s.machine.proc) : ZeroOk s'.machine.proc := by
  obtain ⟨m, c, point⟩ := s
  cases point with
  | check =>
      cases hstep
      exact (XrBuild.drain_touched m).kept.zero hz
  | retry => exact retry_zeroOk hstep hz
  | inst i k =>
      obtain ⟨inst, m₁, exit, hinst, hexec, hleaves⟩ := inst_step hstep
      have hdest := (c.iblocks i).code.dest inst (List.mem_of_getElem? hinst)
      exact leaves_zeroOk hleaves ((exec_ran hexec).zeroOk hdest hz)
  | noMore => cases hstep

theorem executeFast_zeroOk (pending : Bool) (cycles : Word) (hz : ZeroOk m.proc) :
    ZeroOk (xrExecuteFast pending cycles m).1.proc := by
  unfold xrExecuteFast
  split
  · exact hz
  split
  · exact hz
  extract_lets p₁ m₁ p₂ m₂ raised p₃ m₃ p₄
  have h₁ : ZeroOk m₁.proc := by
    unfold m₁
    split
    · exact hz
    · exact hz
  have h₃ : ZeroOk m₃.proc := by
    unfold m₃
    split
    · exact (kept_basic m₂ excNmi _).zero h₁
    · exact h₁
  split
  · exact h₃
  · exact h₃

omit [XrBuild M] in
theorem zeroOk_meets (hz : ZeroOk s.machine.proc) (input : XrInput M) :
    ZeroOk (s.meets input).machine.proc := by
  show (input.outside s.machine).proc.reg fakeZeroRegister = 0
  rw [input.outside_ok s.machine]
  exact hz

theorem XrInterp.FromReset.zeroOk {P : Bool → XrInterp M → Prop} (h : FromReset P s) :
    ZeroOk s.machine.proc := by
  induction h with
  | reset m h =>
      show (Function.update m.proc.reg fakeZeroRegister 0) fakeZeroRegister = 0
      exact Function.update_self _ _ _
  | timeslice h idle ih => exact ih
  | call input cycles h idle ok ih =>
      exact executeFast_zeroOk input.pending cycles (zeroOk_meets ih input)
  | next input h ok step ih => exact step_zeroOk step (zeroOk_meets ih input)

/-! ## Execution -/

/-- Instruction `k` of the block, about to be executed, is what its words decode to under
the RS there is; with RS_TBMISS clear it reads zero for register 0, and with RS_TBMISS set
register 0 itself. -/
structure ReadsZero (m : Machine M) (b : XrIblock) (k : Nat) (inst : XrCachedInst) : Prop where
  decoded : (xrDecodeBlock m.tbmiss b.words b.pc).insts[k]? = some inst
  zero : m.tbmiss = false → 0 ∉ inst.sources ∧ m.reg fakeZeroRegister = 0
  banked : m.tbmiss = true → fakeZeroRegister ∉ inst.sources

/-- The instruction about to be executed, if there is one, reads register 0 as it must. -/
def ZeroRight (s : XrInterp M) : Prop :=
  ∀ i k inst, s.point = .inst i k → (s.cache.iblocks i).code.insts[k]? = some inst →
    ReadsZero s.machine (s.cache.iblocks i) k inst

/-- RS_TBMISS is as it was when its block was decoded, or it does not read register 0. -/
def TbmissAsDecoded (s : XrInterp M) : Prop :=
  ∀ i k inst, s.point = .inst i k → (s.cache.iblocks i).code.insts[k]? = some inst →
    (s.cache.iblocks i).tbmiss = s.machine.tbmiss ∨ ¬inst.NamesZero

/-- Whatever the run from `XrReset`, and whatever comes from outside before a step: the
instruction that is executed reads register 0 as it must exactly under this condition. -/
theorem zero_register {P : Bool → XrInterp M → Prop} (hrun : XrInterp.FromReset P s)
    (input : XrInput M) : ZeroRight (s.meets input) ↔ TbmissAsDecoded (s.meets input) := by
  constructor
  · intro h i k inst hpoint hinst
    exact (decoded_iff hinst).mp (h i k inst hpoint hinst).decoded
  · intro h i k inst hpoint hinst
    have hdecoded := (decoded_iff hinst).mpr (h i k inst hpoint hinst)
    obtain ⟨hzero, hbanked⟩ := sources_of_decoded hdecoded
    exact ⟨hdecoded, fun hclear => ⟨hzero hclear, zeroOk_meets hrun.zeroOk input⟩, hbanked⟩

end

/-! ## RS written in the middle of a block -/

/-- A processor reset with `ADDI R1, ZERO, 8`, `MTCR RS, R1` and `ADDI R2, ZERO, 1` in its
boot ROM. -/
def setsTbmiss : Machine (XrFastMem (XrStation Unit)) :=
  xrReset (atRom [0x0008007C, 0xE0000829, 0x000100BC] (fun _ => 0) fun _ => 0)

theorem firstCall_fromReset (m : Machine (XrFastMem (XrStation Unit))) (n : Nat) :
    XrInterp.FromReset (fun _ _ => True) (firstCall (xrReset m) n) := by
  induction n with
  | zero => exact .call uneventful 20000 (.timeslice (.reset m initial_initialBlockCache) rfl) rfl trivial
  | succ n ih =>
      show XrInterp.FromReset _
        (((firstCall (xrReset m) n).next uneventful).getD (firstCall (xrReset m) n))
      cases hnext : (firstCall (xrReset m) n).next uneventful with
      | none => exact ih
      | some s => exact .next uneventful ih trivial hnext

set_option maxRecDepth 20000 in
/-- The first instruction, with the bit still clear. -/
theorem zero_register_at_start : ZeroRight ((firstCall setsTbmiss 2).meets uneventful) := by
  refine (zero_register (firstCall_fromReset _ 2) uneventful).mpr ?_
  intro i k inst hpoint _
  have hfirst : (firstCall setsTbmiss 2).point = .inst 2047 0 := rfl
  obtain ⟨rfl, rfl⟩ := XrPoint.inst.inj (hfirst.symm.trans hpoint)
  exact Or.inl rfl

set_option maxRecDepth 20000 in
/-- The third is executed with the bit set, and reads the fake register. -/
theorem mtcr_rs_mid_block :
    XrInterp.FromReset (fun _ _ => True) (firstCall setsTbmiss 4) ∧
      ¬ZeroRight ((firstCall setsTbmiss 4).meets uneventful) := by
  refine ⟨firstCall_fromReset _ 4, ?_⟩
  intro h
  have hpoint : (firstCall setsTbmiss 4).point = .inst 2047 2 := rfl
  have hset : (firstCall setsTbmiss 4).machine.tbmiss = true := rfl
  have hread := h 2047 2 ⟨.addi, 1, 2, fakeZeroRegister⟩ hpoint rfl
  exact hread.banked hset (by decide)

end Xremu
