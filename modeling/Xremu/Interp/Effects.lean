import Xremu.Interp.Decode

/-!
# What an instruction can do

`Ran` says once what each `XrExecute` function may do to the processor and how it may
leave; `exec_ran` is that every handler is one of these. Everything that is proved of
runs is proved from `Ran`.
-/

namespace Xremu

/-! ## Kinds of instructions -/

inductive XrKind where
  | linkage
  | shift      -- virtual
  | stop       -- no next instruction: illegal, RFE, HLT
  | step       -- goes on to the next instruction
  | mtcr
  | branch     -- conditional
  | jump
  | jalr
deriving DecidableEq

def XrFunc.kind : XrFunc → XrKind
  | .specialLinkage => .linkage
  | .virtualLsh | .virtualRsh | .virtualAsh | .virtualRor => .shift
  | .illegalInstruction | .rfe | .hlt => .stop
  | .mtcr => .mtcr
  | .bpo | .bpe | .bge | .ble | .bgt | .blt | .bne | .beq => .branch
  | .b | .jal | .j => .jump
  | .jalr => .jalr
  | _ => .step

/-- Does the instruction end a block? -/
def XrKind.ends : XrKind → Bool
  | .shift | .step | .mtcr => false
  | _ => true

/-- Does the instruction write the register in its first small field? -/
def XrFunc.writesRd : XrFunc → Bool
  | .nor | .or | .xor | .and | .sltSigned | .slt | .sub | .add | .lsh | .rsh | .ash | .ror
  | .loadLongRegOffset | .loadIntRegOffset | .loadByteRegOffset
  | .sc | .ll | .mod | .divSigned | .div | .mul | .mfcr
  | .ori | .xori | .andi | .sltiSigned | .slti | .subi | .addi
  | .loadLongImmOffset | .loadIntImmOffset | .loadByteImmOffset | .jalr | .adr => true
  | _ => false

/-- The register an instruction may write. One that writes none is given the shift
sink, which no instruction reads without a shift before it. -/
def XrCachedInst.dest (inst : XrCachedInst) : Nat :=
  if inst.func = .jal then 31
  else if inst.func.writesRd then inst.imm8_1
  else fakeShiftSink

/-- Where a jump of the instruction at `pc` goes. -/
def XrCachedInst.target (inst : XrCachedInst) (pc : Word) (path : XrPath) : Word :=
  if inst.func.kind = .linkage then pc
  else match path with
    | .true => inst.imm32_1
    | .false => pc + 4

/-! ## The effects -/

/-- The instruction has changed registers, the program counter, lookup hints and
counters; nothing that control registers, translation or the budget hang on. -/
def SameControl (p p' : XrProcessor) : Prop :=
  p' = { p with
    reg := p'.reg
    pc := p'.pc
    progress := p'.progress
    itbLastVpn := p'.itbLastVpn
    itbLastResult := p'.itbLastResult
    dtbLastVpn := p'.dtbLastVpn
    locked := p'.locked
    pauseCalls := p'.pauseCalls
    nmiMaskCounter := p'.nmiMaskCounter }

theorem Touched.sameControl {p p' : XrProcessor} (h : Touched p p') : SameControl p p' := by
  unfold Touched at h
  unfold SameControl
  rw [h]

namespace SameControl

variable {p p' p'' : XrProcessor}

theorem refl (p : XrProcessor) : SameControl p p := rfl

theorem trans (h : SameControl p p') (h' : SameControl p' p'') : SameControl p p'' := by
  unfold SameControl at *
  rw [h] at h'
  exact h'

theorem cr (h : SameControl p p') : p'.cr = p.cr := by rw [h]
theorem rs (h : SameControl p p') : p'.rs = p.rs := congrFun h.cr crRs
theorem itb (h : SameControl p p') : p'.itb = p.itb := by rw [h]
theorem dtb (h : SameControl p p') : p'.dtb = p.dtb := by rw [h]
theorem id (h : SameControl p p') : p'.id = p.id := by rw [h]
theorem halted (h : SameControl p p') : p'.halted = p.halted := by rw [h]
theorem dispatches (h : SameControl p p') : p'.dispatches = p.dispatches := by rw [h]
theorem cyclesDone (h : SameControl p p') : p'.cyclesDone = p.cyclesDone := by rw [h]
theorem cyclesGoal (h : SameControl p p') : p'.cyclesGoal = p.cyclesGoal := by rw [h]

end SameControl

section

variable {M : Type} [XrBuild M]

/-- Only register `dest` may have been written. -/
def WritesOnly (dest : Nat) (p p' : XrProcessor) : Prop := ∀ r, r ≠ dest → p'.reg r = p.reg r

/-- What an instruction may do, and how it leaves. -/
inductive Ran (m : Machine M) (inst : XrCachedInst) : Machine M → XrExit → Prop
  | step {m'} (kind : inst.func.kind = .step) (same : SameControl m.proc m'.proc)
      (regs : WritesOnly inst.dest m.proc m'.proc) (pc : m'.proc.pc = m.proc.pc + 4) :
      Ran m inst m' .next
  | shift {m'} (kind : inst.func.kind = .shift) (same : SameControl m.proc m'.proc)
      (regs : WritesOnly inst.dest m.proc m'.proc) (pc : m'.proc.pc = m.proc.pc) :
      Ran m inst m' .next
  /-- PAUSE, when it gives up the timeslice. -/
  | pause {m'} (kind : inst.func = .pause) (same : SameControl m.proc m'.proc)
      (regs : WritesOnly inst.dest m.proc m'.proc) (pc : m'.proc.pc = m.proc.pc + 4) :
      Ran m inst m' .early
  | fault {m₁ m' exit} (same : SameControl m.proc m₁.proc)
      (regs : WritesOnly inst.dest m.proc m₁.proc) (raises : Raises m₁ m')
      (leaves : exit = .early ∨ exit = .trivial) : Ran m inst m' exit
  /-- RFE in kernel mode. -/
  | rfe (kind : inst.func = .rfe) (kernel : m.proc.rs &&& rsUser = 0) :
      Ran m inst (xrRfe m) .trivial
  | hlt {m'} (kind : inst.func = .hlt) (kernel : m.proc.rs &&& rsUser = 0)
      (halted : m' = ({ m with proc := { m.proc with halted := true } } : Machine M).setPc
        (m.proc.pc + 4)) :
      Ran m inst m' .trivial
  | mtcr {m' exit} (kind : inst.func = .mtcr) (kernel : m.proc.rs &&& rsUser = 0)
      (wrote : mtcrKernel m inst.imm8_2 (m.reg inst.imm8_1) = some (m', exit)) : Ran m inst m' exit
  | follow {m' path} (kind : inst.func.kind = .branch ∨ inst.func.kind = .jump ∨
        inst.func.kind = .linkage)
      (same : SameControl m.proc m'.proc) (regs : WritesOnly inst.dest m.proc m'.proc)
      (pc : m'.proc.pc = inst.target m.proc.pc path)
      (taken : inst.func.kind ≠ .branch → path = .true) : Ran m inst m' (.follow path)
  | predict {m'} (kind : inst.func.kind = .jalr) (same : SameControl m.proc m'.proc)
      (regs : WritesOnly inst.dest m.proc m'.proc) (aligned : m'.proc.pc &&& 3 = 0) :
      Ran m inst m' .predict

/-! ## The handlers -/

variable {m m' : Machine M} {inst : XrCachedInst} {block : Nat} {exit : XrExit}

theorem writesOnly_setReg (p : XrProcessor) (i : Nat) (v : Word) : WritesOnly i p (p.setReg i v) := by
  intro r hr
  rw [XrProcessor.setReg_reg, Function.update_of_ne hr]

theorem Touched.writesOnly {p p' : XrProcessor} (h : Touched p p') (dest : Nat) :
    WritesOnly dest p p' := fun r _ => congrFun h.reg r

theorem WritesOnly.trans {p p' p'' : XrProcessor} {dest : Nat} (h : WritesOnly dest p p')
    (h' : WritesOnly dest p' p'') : WritesOnly dest p p'' := fun r hr => (h' r hr).trans (h r hr)

/-- An instruction that writes a register and goes on. -/
theorem ran_setReg {i : Nat} {v : Word} (hk : inst.func.kind = .step) (hd : inst.dest = i)
    (h : xrNext (m.setReg i v) = some (m', exit)) : Ran m inst m' exit := by
  cases h
  refine .step hk rfl ?_ rfl
  rw [hd]
  exact writesOnly_setReg m.proc i v

theorem ran_virtualShift {f : Word → Word → Word} (hk : inst.func.kind = .shift)
    (hd : inst.dest = fakeShiftSink) (h : virtualShift f m block inst = some (m', exit)) :
    Ran m inst m' exit := by
  cases h
  refine .shift hk rfl ?_ rfl
  rw [hd]
  exact writesOnly_setReg m.proc _ _

theorem Faulted.ran (h : Faulted m m') : Ran m inst m' .early := by
  obtain ⟨m₁, htouched, hraises⟩ := h
  exact .fault htouched.sameControl (htouched.writesOnly _) hraises (.inl rfl)

/-- After an access: an early exit, or on with a register written. -/
theorem ran_answered {r : XrMemReq} {res : XrResult} {m₁ m₂ : Machine M}
    (hk : inst.func.kind = .step) (hacc : XrBuild.access m block r = some (res, m₁))
    (h : (if res.1 = .fault then some (m₁, XrExit.early) else xrNext m₂) = some (m', exit))
    (hcontrol : SameControl m₁.proc m₂.proc) (hwrites : WritesOnly inst.dest m₁.proc m₂.proc)
    (hpc : m₂.proc.pc = m₁.proc.pc) : Ran m inst m' exit := by
  obtain ⟨status, dest⟩ := res
  by_cases hs : status = .fault
  · subst hs
    cases h
    exact (XrBuild.access_fault hacc).ran
  · have htouched := XrBuild.access_done hacc hs
    simp only [if_neg hs] at h
    cases h
    exact .step hk ((htouched.sameControl.trans hcontrol).trans rfl)
      ((htouched.writesOnly _).trans hwrites) (congrArg (· + 4) (hpc.trans htouched.pc))

theorem ran_storeAt {address value : Word} {length : Nat} (hk : inst.func.kind = .step)
    (h : storeAt m block address value length = some (m', exit)) : Ran m inst m' exit := by
  obtain ⟨⟨res, m₁⟩, hacc, hrest⟩ := Option.bind_eq_some_iff.mp h
  exact ran_answered hk hacc hrest rfl (fun _ _ => rfl) rfl

omit [XrBuild M] in
/-- The register is written with what was read. -/
theorem writesOnly_dest (m : Machine M) {rd : Nat} (hd : inst.dest = rd) (v : Word) :
    WritesOnly inst.dest m.proc (m.setReg rd v).proc := by
  rw [hd]
  exact writesOnly_setReg m.proc rd v

theorem ran_loadAt {address : Word} {rd length : Nat} (hk : inst.func.kind = .step)
    (hd : inst.dest = rd) (h : loadAt m block address rd length = some (m', exit)) :
    Ran m inst m' exit := by
  obtain ⟨⟨res, m₁⟩, hacc, hrest⟩ := Option.bind_eq_some_iff.mp h
  exact ran_answered hk hacc hrest rfl (writesOnly_dest m₁ hd _) rfl

theorem ran_storeConditional (hk : inst.func.kind = .step) (hd : inst.dest = inst.imm8_1)
    (h : xrExecuteStoreConditional m block inst = some (m', exit)) : Ran m inst m' exit := by
  unfold xrExecuteStoreConditional at h
  split at h
  · exact ran_setReg hk hd h
  · obtain ⟨⟨res, m₁⟩, hacc, hrest⟩ := Option.bind_eq_some_iff.mp h
    exact ran_answered hk hacc hrest rfl (writesOnly_dest m₁ hd _) rfl

theorem ran_loadLinked (hk : inst.func.kind = .step) (hd : inst.dest = inst.imm8_1)
    (h : xrExecuteLoadLinked m block inst = some (m', exit)) : Ran m inst m' exit := by
  obtain ⟨⟨res, m₁⟩, hacc, hrest⟩ := Option.bind_eq_some_iff.mp h
  exact ran_answered hk hacc hrest rfl (writesOnly_dest m₁ hd _) rfl

/-- WMB and MB. -/
theorem ran_barrier (hk : inst.func.kind = .step)
    (h : xrNext (XrBuild.flushWriteBuffer m) = some (m', exit)) : Ran m inst m' exit := by
  have htouched := XrBuild.flushWriteBuffer_touched m
  cases h
  exact .step hk (htouched.sameControl.trans rfl) (htouched.writesOnly _)
    (congrArg (· + 4) htouched.pc)

/-- An exception of the instruction itself. -/
theorem ran_basic {exc pc : Word} (code : exc ∈ xrExcCodes) (leaves : exit = .early ∨ exit = .trivial)
    (h : m' = xrBasicException m exc pc) : Ran m inst m' exit := by
  subst h
  exact .fault (SameControl.refl _) (fun _ _ => rfl) (.plain exc pc code) leaves

theorem ran_pause (hf : inst.func = .pause) (h : xrExecutePause m block inst = some (m', exit)) :
    Ran m inst m' exit := by
  unfold xrExecutePause at h
  extract_lets calls m₁ at h
  split at h
  · cases h
    exact .pause hf rfl (fun _ _ => rfl) rfl
  · cases h
    exact .step (by rw [hf]; rfl) rfl (fun _ _ => rfl) rfl

theorem ran_rfe (hf : inst.func = .rfe) (h : xrExecuteRfe m block inst = some (m', exit)) :
    Ran m inst m' exit := by
  unfold xrExecuteRfe at h
  cases h
  by_cases huser : m.proc.rs &&& rsUser ≠ 0
  · rw [if_pos huser]
    have hrfe : xrRfe m =
        xrBasicException { m with proc := { m.proc with locked := false } } excPrv m.proc.pc := by
      unfold xrRfe
      exact if_pos huser
    rw [hrfe]
    have hsame : SameControl m.proc
        ({ m with proc := { m.proc with locked := false } } : Machine M).proc := rfl
    exact .fault hsame (fun _ _ => rfl) (.plain _ _ (by decide)) (.inl rfl)
  · rw [if_neg huser]
    exact .rfe hf (not_not.mp huser)

theorem ran_hlt (hf : inst.func = .hlt) (h : xrExecuteHlt m block inst = some (m', exit)) :
    Ran m inst m' exit := by
  unfold xrExecuteHlt at h
  split at h
  · cases h
    exact ran_basic (by decide) (.inl rfl) rfl
  · next hk =>
      cases h
      exact .hlt hf (not_not.mp hk) rfl

theorem ran_mtcr (hf : inst.func = .mtcr) (h : xrExecuteMtcr m block inst = some (m', exit)) :
    Ran m inst m' exit := by
  unfold xrExecuteMtcr at h
  split at h
  · cases h
    exact ran_basic (by decide) (.inl rfl) rfl
  · next hk => exact .mtcr hf (not_not.mp hk) h

theorem ran_mfcr (hk : inst.func.kind = .step) (hd : inst.dest = inst.imm8_1)
    (h : xrExecuteMfcr m block inst = some (m', exit)) : Ran m inst m' exit := by
  unfold xrExecuteMfcr at h
  split at h
  · cases h
    exact ran_basic (by decide) (.inl rfl) rfl
  · cases h
    refine .step hk rfl ?_ rfl
    rw [hd]
    exact writesOnly_setReg m.proc _ _

theorem ran_branch {taken : Word → Bool} (hk : inst.func.kind = .branch)
    (h : branch taken m block inst = some (m', exit)) : Ran m inst m' exit := by
  have hl : inst.func.kind ≠ .linkage := by
    rw [hk]
    decide
  unfold branch at h
  split at h
  · cases h
    exact .follow (.inl hk) rfl (fun _ _ => rfl) (if_neg hl).symm fun hne => absurd hk hne
  · cases h
    exact .follow (.inl hk) rfl (fun _ _ => rfl) (if_neg hl).symm fun hne => absurd hk hne

/-- B and J, and JAL after it has written the link register. -/
theorem ran_jump {m₁ : Machine M} (hk : inst.func.kind = .jump) (hsame : SameControl m.proc m₁.proc)
    (hregs : WritesOnly inst.dest m.proc m₁.proc)
    (h : some (m₁.setPc inst.imm32_1, XrExit.follow .true) = some (m', exit)) : Ran m inst m' exit := by
  have hl : inst.func.kind ≠ .linkage := by
    rw [hk]
    decide
  cases h
  exact .follow (.inr (.inl hk)) (hsame.trans rfl) hregs (if_neg hl).symm fun _ => rfl

theorem ran_jalr (hf : inst.func = .jalr) (h : xrExecuteJalr m block inst = some (m', exit)) :
    Ran m inst m' exit := by
  have hd : inst.dest = inst.imm8_1 := by
    rw [XrCachedInst.dest, hf]
    rfl
  unfold xrExecuteJalr at h
  extract_lets pc m₁ at h
  have hsame : SameControl m.proc m₁.proc := rfl
  have hregs : WritesOnly inst.dest m.proc m₁.proc := by
    rw [hd]
    exact writesOnly_setReg m.proc _ _
  split at h
  · obtain ⟨rfl, rfl⟩ := Prod.mk.inj (Option.some.inj h)
    exact .fault hsame hregs (.address pc excUna pc (by decide)) (.inl rfl)
  · next ha =>
      obtain ⟨rfl, rfl⟩ := Prod.mk.inj (Option.some.inj h)
      exact .predict (by rw [hf]; rfl) hsame hregs (not_not.mp ha)

/-- Every handler does one of these. -/
theorem exec_ran (h : inst.exec m block = some (m', exit)) : Ran m inst m' exit := by
  obtain ⟨func, imm32, imm8, imm8'⟩ := inst
  cases func with
  | specialLinkage =>
      cases h
      exact .follow (.inr (.inr rfl)) (.refl _) (fun _ _ => rfl) rfl fun _ => rfl
  | illegalInstruction =>
      cases h
      exact ran_basic (by decide) (.inr rfl) rfl
  | sys =>
      cases h
      exact ran_basic (by decide) (.inr rfl) rfl
  | brk =>
      cases h
      exact ran_basic (by decide) (.inr rfl) rfl
  | wmb => exact ran_barrier rfl h
  | mb => exact ran_barrier rfl h
  | pause => exact ran_pause rfl (show xrExecutePause m block _ = _ from h)
  | sc => exact ran_storeConditional rfl rfl (show xrExecuteStoreConditional m block _ = _ from h)
  | ll => exact ran_loadLinked rfl rfl (show xrExecuteLoadLinked m block _ = _ from h)
  | rfe => exact ran_rfe rfl (show xrExecuteRfe m block _ = _ from h)
  | hlt => exact ran_hlt rfl (show xrExecuteHlt m block _ = _ from h)
  | mtcr => exact ran_mtcr rfl (show xrExecuteMtcr m block _ = _ from h)
  | mfcr => exact ran_mfcr rfl rfl (show xrExecuteMfcr m block _ = _ from h)
  | b => exact ran_jump rfl (.refl _) (fun _ _ => rfl) h
  | j => exact ran_jump rfl (.refl _) (fun _ _ => rfl) h
  | jal =>
      exact @ran_jump M _ m m' _ exit (m.setReg 31 (m.proc.pc + 4)) rfl rfl
        (writesOnly_setReg m.proc 31 _) h
  | jalr => exact ran_jalr rfl (show xrExecuteJalr m block _ = _ from h)
  | bpo => exact ran_branch rfl (show xrExecuteBpo m block _ = _ from h)
  | bpe => exact ran_branch rfl (show xrExecuteBpe m block _ = _ from h)
  | bge => exact ran_branch rfl (show xrExecuteBge m block _ = _ from h)
  | ble => exact ran_branch rfl (show xrExecuteBle m block _ = _ from h)
  | bgt => exact ran_branch rfl (show xrExecuteBgt m block _ = _ from h)
  | blt => exact ran_branch rfl (show xrExecuteBlt m block _ = _ from h)
  | bne => exact ran_branch rfl (show xrExecuteBne m block _ = _ from h)
  | beq => exact ran_branch rfl (show xrExecuteBeq m block _ = _ from h)
  | storeLongRegOffset | storeIntRegOffset | storeByteRegOffset
  | storeLongImmOffsetImm | storeIntImmOffsetImm | storeByteImmOffsetImm
  | storeLongImmOffsetReg | storeIntImmOffsetReg | storeByteImmOffsetReg =>
      exact ran_storeAt rfl h
  | loadLongRegOffset | loadIntRegOffset | loadByteRegOffset
  | loadLongImmOffset | loadIntImmOffset | loadByteImmOffset => exact ran_loadAt rfl rfl h
  | virtualLsh => exact ran_virtualShift rfl rfl (show xrExecuteVirtualLsh m block _ = _ from h)
  | virtualRsh => exact ran_virtualShift rfl rfl (show xrExecuteVirtualRsh m block _ = _ from h)
  | virtualAsh => exact ran_virtualShift rfl rfl (show xrExecuteVirtualAsh m block _ = _ from h)
  | virtualRor => exact ran_virtualShift rfl rfl (show xrExecuteVirtualRor m block _ = _ from h)
  | _ => exact ran_setReg rfl rfl h

end

end Xremu
