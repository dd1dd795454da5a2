import Xremu.Interp.SingleStep

/-!
# A block runs like the instructions of its words

Every word is decoded into cached instructions that do what the instruction set says of the
word (`Realizes`, `ofWord_realizes`): a virtual shift is only the value of an operand, and the
fake zero register is register 0 as a source. Which words a block is made of is `Taken`.
`block_runs_like_words` puts this together with `runInsts_decodeLoop`.
-/

namespace Xremu

section

variable {M : Type} [XrBuild M] {m : Machine M} {block : Nat}

/-! ## One word -/

omit [XrBuild M] in
theorem reg_redirect (hz : ZeroOk m.proc) (n : Nat) :
    m.reg (redirectZeroSrc m.tbmiss n) = m.source n := by
  unfold redirectZeroSrc Machine.source
  split
  · exact hz
  · rfl

theorem runInsts_singleton (m : Machine M) (block : Nat) (inst : XrCachedInst) :
    runInsts m block [inst] = inst.exec m block := by
  unfold runInsts
  cases inst.exec m block with
  | none => rfl
  | some r =>
      obtain ⟨m₁, exit⟩ := r
      by_cases hexit : exit = .next
      · subst hexit
        rfl
      · exact if_neg hexit

theorem shiftWord_zero (kind : Nat) (value : Word) : shiftWord kind value 0 = value := by
  unfold shiftWord
  split
  · exact BitVec.shiftLeft_zero value
  · exact BitVec.ushiftRight_zero value
  · exact BitVec.sshiftRight_zero
  · apply BitVec.eq_of_getLsbD_eq
    intro i hi
    simp [roR, hi]

theorem exec_virtualShift (kind : Nat) :
    (xrVirtualShiftInstructionTable kind).exec = virtualShift (M := M) (shiftWord kind) := by
  rcases kind with _ | _ | _ | kind <;> rfl

theorem exec_regShift (kind : Nat) : (xrRegShiftFunctionTable kind).exec =
    regOp (M := M) fun ra rb => shiftWord kind rb (ra &&& 31) := by
  rcases kind with _ | _ | _ | kind <;> rfl

theorem redirectZeroSrc_le {tbmiss : Bool} (ir : Word) (k : Nat) :
    redirectZeroSrc tbmiss (irField ir k) ≤ fakeShiftSink := by
  unfold redirectZeroSrc
  split
  · decide
  · exact Nat.le_trans (Nat.le_of_lt (irField_lt ir k)) (by decide)

/-- The word with RB before its last use: the virtual shift, if there is one. -/
theorem runInsts_insertShift (hz : ZeroOk m.proc) (ir : Word) (inst : Nat → XrCachedInst) :
    ∃ rb ≤ fakeShiftSink,
      runInsts m block (insertShift ir (redirectZeroSrc m.tbmiss (irRb ir)) inst) =
        (inst rb).exec (m.latch (.rbShifted ir)) block ∧
      (m.latch (.rbShifted ir)).reg rb = m.value (.rbShifted ir) := by
  have hsource := reg_redirect hz (irRb ir)
  by_cases hshift : irShift ir = 0
  · have hlatch : m.latch (.rbShifted ir) = m := if_neg (not_not.mpr hshift)
    refine ⟨redirectZeroSrc m.tbmiss (irRb ir), redirectZeroSrc_le ir 16, ?_, ?_⟩
    · rw [hlatch, insertShift, if_neg (not_not.mpr hshift), runInsts_singleton]
    · show (m.latch (.rbShifted ir)).reg _ =
        shiftWord (irShiftKind ir) (m.source (irRb ir)) (BitVec.ofNat 32 (irShift ir))
      rw [hlatch, hsource, hshift]
      exact (shiftWord_zero _ _).symm
  · have hvalue : m.value (.rbShifted ir) = shiftWord (irShiftKind ir)
        (m.reg (redirectZeroSrc m.tbmiss (irRb ir))) (BitVec.ofNat 32 (irShift ir)) := by
      rw [hsource]
      rfl
    have hlatch : m.latch (.rbShifted ir) = m.setReg fakeShiftSink (m.value (.rbShifted ir)) :=
      if_pos hshift
    refine ⟨fakeShiftSink, Nat.le_refl _, ?_, ?_⟩
    · rw [insertShift, if_pos hshift, ← runInsts_singleton]
      unfold runInsts XrCachedInst.exec
      rw [exec_virtualShift, hlatch, hvalue]
      rfl
    · rw [hlatch]
      unfold Machine.reg
      rw [Machine.setReg_proc, XrProcessor.setReg_reg, Function.update_self]

omit [XrBuild M] in
/-- The register after the word with a shift is the same source. -/
theorem reg_latch (hz : ZeroOk m.proc) (ir : Word) {n : Nat} (hn : n < 32) :
    (m.latch (.rbShifted ir)).reg (redirectZeroSrc m.tbmiss n) = m.source n := by
  rw [← reg_redirect hz n]
  have hne : redirectZeroSrc m.tbmiss n ≠ fakeShiftSink := by
    unfold redirectZeroSrc
    split
    · decide
    · exact Nat.ne_of_lt (Nat.lt_of_lt_of_le hn (by decide))
  unfold Machine.latch XrOperand.rbShifted
  dsimp only
  split
  · unfold Machine.reg
    exact Function.update_of_ne hne _ m.proc.reg
  · rfl

theorem toNat_ofReg {n : Nat} (h : n ≤ fakeShiftSink) : (BitVec.ofNat 32 n).toNat = n := by
  rw [BitVec.toNat_ofNat]
  exact Nat.mod_eq_of_lt (Nat.lt_of_le_of_lt h (by decide))

/-- What is decoded of the word does what the instruction does. -/
structure Realizes (M : Type) [XrBuild M] (ir : Word) (d : XrDecoder) (i : XrInstruction) :
    Prop where
  ends : d.ends = i.ends
  slots : ∀ tbmiss pc, (d.insts tbmiss ir pc).length = i.slots
  runs : ∀ (m : Machine M) (block : Nat), ZeroOk m.proc →
    runInsts m block (d.insts m.tbmiss ir m.proc.pc) = i.exec m block

variable {ir : Word} {func : XrFunc}

omit [XrBuild M] in
theorem length_insertShift (ir : Word) (rb : Nat) (inst : Nat → XrCachedInst) :
    (insertShift ir rb inst).length = (XrOperand.rbShifted ir).slots + 1 := by
  unfold insertShift XrOperand.rbShifted XrOperand.slots
  dsimp only
  split <;> rfl

/-- RD, RA and a shifted RB. -/
theorem realizes_regs {i : XrInstruction} {g : Machine M → Nat → Nat → Word → Word →
      Option (Machine M × XrExit)}
    (hexec : ∀ m block inst, func.exec m block inst =
      g m block inst.imm8_1 (m.reg inst.imm8_2) (m.reg inst.imm32_1.toNat))
    (hends : i.ends = false) (hslots : i.slots = (XrOperand.rbShifted ir).slots + 1)
    (hi : ∀ m block, i.exec m block = g (m.latch (.rbShifted ir)) block (irRd ir)
      (m.value (.ra ir)) (m.value (.rbShifted ir))) : Realizes M ir (.regs func) i := by
  refine ⟨hends.symm, ?_, ?_⟩
  · intro tbmiss pc
    rw [hslots, XrDecoder.insts]
    exact length_insertShift ir _ _
  · intro m block hz
    obtain ⟨rb, hle, hrun, hrb⟩ := @runInsts_insertShift M _ m block hz ir
      fun rb => ⟨func, BitVec.ofNat 32 rb, irRd ir, redirectZeroSrc m.tbmiss (irRa ir)⟩
    have hra := reg_latch hz ir (n := irRa ir) (irField_lt ir 11)
    unfold XrDecoder.insts
    rw [hrun, hi]
    unfold XrCachedInst.exec
    rw [hexec]
    dsimp only
    rw [toNat_ofReg hle, hrb, hra]
    rfl

theorem realizes_register {f : Word → Word → Word} (h : func.exec = regOp (M := M) f) :
    Realizes M ir (.regs func) (.register ir f) := by
  refine @realizes_regs M _ ir func _ (fun m _ rd a b => xrNext (m.setReg rd (f a b))) ?_ rfl rfl ?_
  · rw [h]
    intro m block inst
    rfl
  · intro m block
    rfl

theorem realizes_load {length : Nat} (h : func.exec = loadRegOffset (M := M) length) :
    Realizes M ir (.regs func) (.load length (irRd ir) (.ra ir) (.rbShifted ir)) := by
  refine @realizes_regs M _ ir func _ (fun m block rd a b => loadAt m block (a + b) rd length)
    ?_ rfl rfl ?_
  · rw [h]
    intro m block inst
    rfl
  · intro m block
    rfl

theorem realizes_store {length : Nat} (h : func.exec = storeRegOffset (M := M) length) :
    Realizes M ir (.storeRegs func) (.store length (.ra ir) (.rbShifted ir) (.rd ir)) := by
  refine ⟨rfl, ?_, ?_⟩
  · intro tbmiss pc
    rw [XrDecoder.insts]
    exact length_insertShift ir _ _
  intro m block hz
  obtain ⟨rb, hle, hrun, hrb⟩ := @runInsts_insertShift M _ m block hz ir
    fun rb => ⟨func, BitVec.ofNat 32 rb, redirectZeroSrc m.tbmiss (irRd ir),
      redirectZeroSrc m.tbmiss (irRa ir)⟩
  have hra := reg_latch hz ir (n := irRa ir) (irField_lt ir 11)
  have hrd := reg_latch hz ir (n := irRd ir) (irField_lt ir 6)
  unfold XrDecoder.insts
  rw [hrun]
  unfold XrCachedInst.exec
  rw [h]
  unfold storeRegOffset
  dsimp only
  rw [toNat_ofReg hle, hrb, hra, hrd]
  rfl

/-- A word that becomes one cached instruction. -/
theorem realizes_one {d : XrDecoder} {i : XrInstruction} (inst : (tbmiss : Bool) → Word → XrCachedInst)
    (hinsts : ∀ tbmiss pc, d.insts tbmiss ir pc = [inst tbmiss pc]) (hends : d.ends = i.ends)
    (hslots : i.slots = 1)
    (hrun : ∀ (m : Machine M) block, ZeroOk m.proc →
      (inst m.tbmiss m.proc.pc).exec m block = i.exec m block) : Realizes M ir d i := by
  refine ⟨hends, ?_, ?_⟩
  · intro tbmiss pc
    rw [hinsts, hslots]
    rfl
  · intro m block hz
    rw [hinsts, runInsts_singleton, hrun m block hz]

theorem realizes_imm {g : Machine M → Nat → Nat → Word → Word → Option (Machine M × XrExit)}
    {i : XrInstruction} {scale : Nat} (hexec : ∀ m block inst, func.exec m block inst =
      g m block inst.imm8_1 (m.reg inst.imm8_2) inst.imm32_1)
    (hends : i.ends = false) (hslots : i.slots = 1)
    (hi : ∀ m block, i.exec m block =
      g m block (irRd ir) (m.value (.ra ir)) (m.value (.imm16 ir scale))) :
    Realizes M ir (.imm func scale) i := by
  refine realizes_one _ (fun _ _ => rfl) hends.symm hslots ?_
  intro m block hz
  unfold XrCachedInst.exec
  rw [hexec, hi, reg_redirect hz]
  rfl

theorem realizes_immediate {f : Word → Word → Word} {scale : Nat}
    (h : func.exec = immOp (M := M) f) : Realizes M ir (.imm func scale) (.immediate ir f scale) := by
  refine @realizes_imm M _ ir func (fun m _ rd a b => xrNext (m.setReg rd (f a b))) _ scale
    ?_ rfl rfl ?_
  · rw [h]
    intro m block inst
    rfl
  · intro m block
    rfl

theorem realizes_loadImm {length scale : Nat} (h : func.exec = loadImmOffset (M := M) length) :
    Realizes M ir (.imm func scale) (.load length (irRd ir) (.ra ir) (.imm16 ir scale)) := by
  refine @realizes_imm M _ ir func (fun m block rd a b => loadAt m block (a + b) rd length) _ scale
    ?_ rfl rfl ?_
  · rw [h]
    intro m block inst
    rfl
  · intro m block
    rfl

theorem realizes_immSigned {f : Word → Word → Word} (h : func.exec = immOp (M := M) f) :
    Realizes M ir (.immSigned func) (.compute f (irRd ir) (.ra ir) (.immSigned ir)) := by
  refine realizes_one _ (fun _ _ => rfl) rfl rfl ?_
  intro m block hz
  unfold XrCachedInst.exec
  rw [h]
  unfold immOp
  rw [reg_redirect hz]
  rfl

theorem realizes_storeImm {length scale : Nat} (h : func.exec = storeImmOffsetImm (M := M) length) :
    Realizes M ir (.storeImmImm func scale)
      (.store length (.rd ir) (.imm16 ir scale) (.imm5 ir)) := by
  refine realizes_one _ (fun _ _ => rfl) rfl rfl ?_
  intro m block hz
  unfold XrCachedInst.exec
  rw [h]
  unfold storeImmOffsetImm
  rw [reg_redirect hz]
  rfl

theorem realizes_storeReg {length scale : Nat} (h : func.exec = storeImmOffsetReg (M := M) length) :
    Realizes M ir (.storeImmReg func scale)
      (.store length (.rd ir) (.imm16 ir scale) (.ra ir)) := by
  refine realizes_one _ (fun _ _ => rfl) rfl rfl ?_
  intro m block hz
  unfold XrCachedInst.exec
  rw [h]
  unfold storeImmOffsetReg
  rw [reg_redirect hz, reg_redirect hz]
  rfl

theorem realizes_regShifts : Realizes M ir .regShifts
    (.compute (fun a b => shiftWord (irShiftKind ir) b (a &&& 31)) (irRd ir) (.ra ir) (.rb ir)) := by
  refine realizes_one _ (fun _ _ => rfl) rfl rfl ?_
  intro m block hz
  have hle : redirectZeroSrc m.tbmiss (irRb ir) ≤ fakeShiftSink := redirectZeroSrc_le ir 16
  unfold XrCachedInst.exec
  rw [exec_regShift]
  unfold regOp
  dsimp only
  rw [toNat_ofReg hle, reg_redirect hz, reg_redirect hz]
  rfl

theorem realizes_branch {taken : Word → Bool} (h : func.exec = branch (M := M) taken) :
    Realizes M ir (.branch func) (.branch taken (.rd ir) (branchOffset ir)) := by
  refine realizes_one _ (fun _ _ => rfl) rfl rfl ?_
  intro m block hz
  unfold XrCachedInst.exec
  rw [h]
  unfold branch
  rw [reg_redirect hz]
  rfl

/-- BEQ of register 0 is B, and is taken. -/
theorem realizes_beq :
    Realizes M ir .beq (.branch (fun v => v == 0) (.rd ir) (branchOffset ir)) := by
  refine realizes_one _ (fun _ _ => rfl) rfl rfl ?_
  intro m block hz
  have hvalue := reg_redirect hz (irRd ir)
  by_cases hzero : redirectZeroSrc m.tbmiss (irRd ir) = fakeZeroRegister
  · have htaken : m.source (irRd ir) = 0 := by
      rw [← hvalue, hzero]
      exact hz
    rw [if_pos hzero]
    show xrExecuteB m block _ = if (m.source (irRd ir) == 0) = true then _ else _
    rw [htaken]
    rfl
  · rw [if_neg hzero]
    show xrExecuteBeq m block _ = _
    unfold xrExecuteBeq branch
    rw [hvalue]
    rfl

theorem realizes_jalr :
    Realizes M ir .jalr (.jalr (irRd ir) (.ra ir) ((ir >>> 16) <<< 2)) := by
  refine realizes_one _ (fun _ _ => rfl) rfl rfl ?_
  intro m block hz
  show xrExecuteJalr m block _ = _
  unfold xrExecuteJalr
  rw [reg_redirect hz]
  rfl

theorem realizes_conditional :
    Realizes M ir .conditional (.storeConditional (irRd ir) (.ra ir) (.rb ir)) := by
  refine realizes_one _ (fun _ _ => rfl) rfl rfl ?_
  intro m block hz
  have hle : redirectZeroSrc m.tbmiss (irRb ir) ≤ fakeShiftSink := redirectZeroSrc_le ir 16
  show xrExecuteStoreConditional m block _ = _
  unfold xrExecuteStoreConditional
  dsimp only
  rw [toNat_ofReg hle, reg_redirect hz, reg_redirect hz]
  rfl

theorem realizes_linked : Realizes M ir .linked (.loadLinked (irRd ir) (.ra ir)) := by
  refine realizes_one _ (fun _ _ => rfl) rfl rfl ?_
  intro m block hz
  show xrExecuteLoadLinked m block _ = _
  unfold xrExecuteLoadLinked
  rw [reg_redirect hz]
  rfl

theorem realizes_mtcr : Realizes M ir .mtcr (.mtcr (irRb ir) (.ra ir)) := by
  refine realizes_one _ (fun _ _ => rfl) rfl rfl ?_
  intro m block hz
  show xrExecuteMtcr m block _ = _
  unfold xrExecuteMtcr
  rw [reg_redirect hz]
  rfl

theorem realizes_mfcr : Realizes M ir .mfcr (.mfcr (irRd ir) (irRb ir)) :=
  realizes_one _ (fun _ _ => rfl) rfl rfl fun _ _ _ => rfl

theorem realizes_adr : Realizes M ir .adr (.adr (irRd ir) (ir &&& 0xFFFF0000)) :=
  realizes_one _ (fun _ _ => rfl) rfl rfl fun _ _ _ => rfl

theorem realizes_j : Realizes M ir (.jump .j) (.jump ((ir >>> 3) <<< 2)) :=
  realizes_one _ (fun _ _ => rfl) rfl rfl fun _ _ _ => rfl

theorem realizes_jal : Realizes M ir (.jump .jal) (.call ((ir >>> 3) <<< 2)) :=
  realizes_one _ (fun _ _ => rfl) rfl rfl fun _ _ _ => rfl

/-- An instruction without operands. -/
theorem realizes_plain {i : XrInstruction} (hends : i.ends = false) (hslots : i.slots = 1)
    (h : ∀ (m : Machine M) block, func.exec m block ⟨func, 0, 0, 0⟩ = i.exec m block) :
    Realizes M ir (.plain func) i :=
  realizes_one _ (fun _ _ => rfl) hends.symm hslots fun m block _ => h m block

theorem realizes_stop {i : XrInstruction} (hends : i.ends = true) (hslots : i.slots = 1)
    (h : ∀ (m : Machine M) block, func.exec m block ⟨func, 0, 0, 0⟩ = i.exec m block) :
    Realizes M ir (.stop func) i :=
  realizes_one _ (fun _ _ => rfl) hends.symm hslots fun m block _ => h m block

theorem realizes_illegal : Realizes M ir xrDecodeIllegalInstruction .illegal :=
  realizes_stop rfl rfl fun _ _ => rfl

/-! ## The tables -/

theorem ofControl_realizes (ir : Word) (n : Nat) :
    Realizes M ir (xrDecodeFunctions101001 n) (.ofControl ir n) := by
  unfold xrDecodeFunctions101001
  split
  · exact realizes_stop rfl rfl fun _ _ => rfl
  · exact realizes_stop rfl rfl fun _ _ => rfl
  · exact realizes_mtcr
  · exact realizes_mfcr
  · unfold XrInstruction.ofControl
    split <;> first | contradiction | exact realizes_illegal

theorem ofSystem_realizes (ir : Word) (n : Nat) :
    Realizes M ir (xrDecodeFunctions110001 n) (.ofSystem ir n) := by
  unfold xrDecodeFunctions110001
  split
  · exact realizes_plain rfl rfl fun _ _ => rfl
  · exact realizes_plain rfl rfl fun _ _ => rfl
  · exact realizes_plain rfl rfl fun _ _ => rfl
  · exact realizes_plain rfl rfl fun _ _ => rfl
  · exact realizes_plain rfl rfl fun _ _ => rfl
  · exact realizes_conditional
  · exact realizes_linked
  · exact realizes_register rfl
  · exact realizes_register rfl
  · exact realizes_register rfl
  · exact realizes_register rfl
  · unfold XrInstruction.ofSystem
    split <;> first | contradiction | exact realizes_illegal

theorem ofRegister_realizes (ir : Word) (n : Nat) :
    Realizes M ir (xrDecodeFunctions111001 n) (.ofRegister ir n) := by
  unfold xrDecodeFunctions111001
  split
  · exact realizes_register rfl
  · exact realizes_register rfl
  · exact realizes_register rfl
  · exact realizes_register rfl
  · exact realizes_register rfl
  · exact realizes_register rfl
  · exact realizes_register rfl
  · exact realizes_register rfl
  · exact realizes_regShifts
  · exact realizes_store rfl
  · exact realizes_store rfl
  · exact realizes_store rfl
  · exact realizes_load rfl
  · exact realizes_load rfl
  · exact realizes_load rfl
  · unfold XrInstruction.ofRegister
    split <;> first | contradiction | exact realizes_illegal

theorem ofLowSix_realizes (ir : Word) (major n : Nat) :
    Realizes M ir (xrDecodeLowSix major n) (.ofLowSix ir major n) := by
  unfold xrDecodeLowSix
  split
  · exact realizes_immediate rfl
  · exact realizes_branch rfl
  · exact realizes_storeImm rfl
  · exact realizes_immediate rfl
  · exact realizes_branch rfl
  · exact realizes_storeImm rfl
  · exact realizes_immediate rfl
  · exact realizes_branch rfl
  · exact realizes_storeImm rfl
  · exact realizes_immediate rfl
  · exact realizes_branch rfl
  · exact realizes_immSigned rfl
  · exact realizes_branch rfl
  · exact ofControl_realizes ir major
  · exact realizes_storeReg rfl
  · exact realizes_loadImm rfl
  · exact realizes_immediate rfl
  · exact realizes_branch rfl
  · exact realizes_adr
  · exact ofSystem_realizes ir major
  · exact realizes_storeReg rfl
  · exact realizes_loadImm rfl
  · exact realizes_immediate rfl
  · exact realizes_branch rfl
  · exact realizes_jalr
  · exact ofRegister_realizes ir major
  · exact realizes_storeReg rfl
  · exact realizes_loadImm rfl
  · exact realizes_immediate rfl
  · exact realizes_beq
  · unfold XrInstruction.ofLowSix
    split <;> first | contradiction | exact realizes_illegal

/-- Every word is decoded into what its instruction does. -/
theorem ofWord_realizes (ir : Word) : Realizes M ir (xrDecoder ir) (.ofWord ir) := by
  unfold xrDecoder
  split
  · next h =>
      rw [XrInstruction.ofWord, h]
      exact realizes_j
  · next h =>
      rw [XrInstruction.ofWord, h]
      exact realizes_jal
  · unfold XrInstruction.ofWord
    split
    · contradiction
    · contradiction
    · exact ofLowSix_realizes ir _ _

theorem stepWord_eq (hz : ZeroOk m.proc) (block : Nat) (ir : Word) :
    stepWord m block ir = (XrInstruction.ofWord ir).exec m block :=
  (ofWord_realizes ir).runs m block hz

/-- Words that are decoded alone do what their instructions do. -/
theorem stepWords_eq_runWords (hz : ZeroOk m.proc) (block : Nat) (irs : List Word) :
    stepWords m block irs = runWords m block irs := by
  induction irs generalizing m with
  | nil => rfl
  | cons ir irs ih =>
      unfold stepWords runWords
      rw [← stepWord_eq hz]
      cases hrun : stepWord m block ir with
      | none => rfl
      | some r =>
          obtain ⟨m₁, exit⟩ := r
          obtain ⟨pre, main, hok⟩ := xrDecode_ok m.tbmiss ir m.proc.pc
          have hz₁ : ZeroOk m₁.proc := runInsts_zeroOk hok.dest hz hrun
          simp only [Option.bind_eq_bind, Option.bind_some, ih hz₁]

/-! ## The words of a block -/

/-- The cached instructions that these words take. -/
def wordSlots : List Word → Nat
  | [] => 0
  | ir :: irs => (XrInstruction.ofWord ir).slots + wordSlots irs

/-- Of the words fetched, those that go into a block with this room: up to the first that
ends it or fills it, or all. -/
structure Taken (room : Nat) (fetched taken : List Word) : Prop where
  isPrefix : taken <+: fetched
  some : fetched ≠ [] → taken ≠ []
  goes_on : ∀ ir ∈ taken.dropLast, (XrInstruction.ofWord ir).ends = false
  fits : wordSlots taken.dropLast < room
  stops : taken = fetched ∨ (∃ ir ∈ taken.getLast?, (XrInstruction.ofWord ir).ends = true) ∨
    room ≤ wordSlots taken

theorem taken_one {room : Nat} (h : 1 ≤ room) {ir : Word} {irs : List Word}
    (hstops : (XrInstruction.ofWord ir).ends = true ∨ room ≤ (XrInstruction.ofWord ir).slots) :
    Taken room (ir :: irs) [ir] := by
  refine ⟨⟨irs, rfl⟩, fun _ => List.cons_ne_nil ir [], ?_, h, Or.inr ?_⟩
  · intro x hx
    cases hx
  · rcases hstops with hends | hfull
    · exact Or.inl ⟨ir, rfl, hends⟩
    · exact Or.inr hfull

theorem Taken.cons {room : Nat} {ir : Word} {irs taken : List Word}
    (hends : (XrInstruction.ofWord ir).ends = false)
    (hroom : (XrInstruction.ofWord ir).slots < room)
    (h : Taken (room - (XrInstruction.ofWord ir).slots) irs taken) :
    Taken room (ir :: irs) (ir :: taken) := by
  refine ⟨(List.prefix_cons_inj ir).mpr h.isPrefix, fun _ => List.cons_ne_nil ir taken, ?_, ?_, ?_⟩
  · intro x hx
    cases taken with
    | nil => cases hx
    | cons y ys =>
        rcases List.mem_cons.mp hx with rfl | hx
        · exact hends
        · exact h.goes_on x hx
  · have hfits := h.fits
    cases taken with
    | nil => exact Nat.lt_of_le_of_lt (Nat.zero_le _) hroom
    | cons y ys =>
        show (XrInstruction.ofWord ir).slots + wordSlots (y :: ys).dropLast < room
        omega
  · rcases h.stops with rfl | ⟨x, hx, hlast⟩ | hfull
    · exact Or.inl rfl
    · refine Or.inr (Or.inl ⟨x, ?_, hlast⟩)
      rw [List.getLast?_cons, hx]
      rfl
    · refine Or.inr (Or.inr ?_)
      show room ≤ (XrInstruction.ofWord ir).slots + wordSlots taken
      omega

/-- The decode loop takes these words, and counts them. -/
theorem taken_decodeLoop (M : Type) [XrBuild M] (tbmiss : Bool) (irs : List Word) (pc : Word)
    {room : Nat} (h : 1 ≤ room) :
    Taken room irs (irs.take (xrDecodeLoop tbmiss irs pc room).2) ∧
      (xrDecodeLoop tbmiss irs pc room).2 ≤ irs.length := by
  induction irs generalizing pc room with
  | nil =>
      refine ⟨⟨List.prefix_refl [], fun hne => absurd rfl hne, ?_, h, Or.inl rfl⟩, Nat.le_refl 0⟩
      intro x hx
      cases hx
  | cons ir irs ih =>
      have hword := @ofWord_realizes M _ ir
      have hslots : (xrDecode tbmiss ir pc).insts.length = _ := hword.slots tbmiss pc
      have hends : (xrDecode tbmiss ir pc).ends = _ := hword.ends
      rcases loopCases tbmiss ir irs pc room with ⟨he, hl⟩ | ⟨he, hfull, hl⟩ | ⟨he, hroom, hl⟩
      · rw [hl]
        exact ⟨taken_one h (Or.inl (hends.symm.trans he)), Nat.succ_pos _⟩
      · rw [hl]
        rw [hslots] at hfull
        exact ⟨taken_one h (Or.inr hfull), Nat.succ_pos _⟩
      · rw [hl, hslots]
        rw [hslots] at hroom
        obtain ⟨htaken, hle⟩ := ih (pc + 4) (Nat.sub_pos_of_lt hroom)
        exact ⟨htaken.cons (hends.symm.trans he) hroom, Nat.succ_le_succ hle⟩

end

/-- A block decoded where the processor is consists of the fetched words up to the first that
ends or fills it, and `Cycles` is how many these are. It leaves the same machine by the same
exit as they do when each is decoded alone, and, the fake zero register being zero, as the
instructions that they are; the fake zero register stays zero. -/
theorem block_runs_like_words {M : Type} [XrBuild M] (m : Machine M) (block : Nat)
    (words : List Word) (notMtcr : ∀ ir ∈ words, NotMtcr ir) :
    let code := xrDecodeBlock m.tbmiss words m.proc.pc
    ∃ taken, Taken xrIblockInsts words taken ∧ code.cycles = taken.length ∧
      runInsts m block code.insts = stepWords m block taken ∧
      (ZeroOk m.proc → runInsts m block code.insts = runWords m block taken ∧
        ∀ m' exit, runInsts m block code.insts = some (m', exit) → ZeroOk m'.proc) := by
  intro code
  obtain ⟨htaken, hle⟩ := @taken_decodeLoop M _ m.tbmiss words m.proc.pc 32 (by decide)
  have hsteps : runInsts m block code.insts = stepWords m block (words.take code.cycles) :=
    runInsts_decodeLoop notMtcr xrIblockInsts
  refine ⟨words.take code.cycles, htaken, ?_, hsteps, ?_⟩
  · rw [List.length_take]
    exact (Nat.min_eq_left hle).symm
  · intro hz
    refine ⟨hsteps.trans (stepWords_eq_runWords hz block _), ?_⟩
    intro m' exit hrun
    exact runInsts_zeroOk code.dest hz hrun

/-- ADDI R1, ZERO, 5, then ADD R2, R1, R1 LSH 3, and a jump, with something in register 0. -/
theorem block_runs_like_words_shifted :
    let m : Machine (XrFastMem LineRam) := ((XrFastSys.cold .zeroed).machine 0).setReg 0 9
    let words : List Word := [0x0005007C, 0x706108B9, 6]
    let code := xrDecodeBlock m.tbmiss words m.proc.pc
    ∃ taken, Taken xrIblockInsts words taken ∧ taken.length = 3 ∧
      runInsts m 0 code.insts = runWords m 0 taken ∧
      ∃ m', runWords m 0 taken = some (m', .follow .true) ∧ m'.reg 1 = 5 ∧ m'.reg 2 = 45 := by
  intro m words code
  have notMtcr : ∀ ir ∈ words, NotMtcr ir := by
    intro ir hir
    rcases List.mem_cons.mp hir with rfl | hir
    · decide
    rcases List.mem_cons.mp hir with rfl | hir
    · decide
    · rw [List.mem_singleton.mp hir]
      decide
  obtain ⟨taken, htaken, hcycles, -, hsame⟩ := block_runs_like_words m 0 words notMtcr
  obtain ⟨hrun, -⟩ := hsame rfl
  refine ⟨taken, htaken, hcycles.symm, hrun, ?_⟩
  rw [← hrun]
  refine ⟨_, rfl, ?_, ?_⟩ <;> decide +kernel

end Xremu
