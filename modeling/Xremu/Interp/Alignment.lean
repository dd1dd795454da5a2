import Xremu.Devices.HostPath
import Xremu.Interp.Placed

/-!
# The program counter is a multiple of four

Branches and jumps go to multiples of four from a block that starts at one, and JALR
checks where it goes. An exception goes where EB says and RFE where EPC or TBPC says:
these are plain registers, and neither is checked.

`Calls` is a call of `XrDecodeInstructions` in a step. It finds an aligned program counter
in every run in which no exception is taken while EB is not aligned, and RFE does not
return to an address that is not.
-/

namespace Xremu

open XrIblockCache

/-! ## Aligned words -/

/-- Can an instruction be at this address? -/
def Aligned (address : Word) : Prop := address &&& 3 = 0

instance (address : Word) : Decidable (Aligned address) := inferInstanceAs (Decidable (_ = _))

theorem mask_low2 : ∀ i, i < 32 → (3 : Word).getLsbD i = decide (i < 2) := by
  decide

theorem aligned_bits {v : Word} : Aligned v ↔ ∀ i, i < 2 → v.getLsbD i = false := by
  constructor
  · intro h i hi
    have hbit : (v &&& 3).getLsbD i = (0 : Word).getLsbD i := congrArg (fun w => w.getLsbD i) h
    rw [BitVec.getLsbD_and, mask_low2 i (by omega), decide_eq_true hi, Bool.and_true] at hbit
    exact hbit.trans BitVec.getLsbD_zero
  · intro h
    apply BitVec.eq_of_getLsbD_eq
    intro i hi
    rw [BitVec.getLsbD_and, mask_low2 i hi]
    by_cases hlow : i < 2
    · simp [h i hlow]
    · simp [hlow]

theorem aligned_mod {v : Word} : Aligned v ↔ v.toNat % 4 = 0 := by
  have hand : (v &&& 3).toNat = v.toNat % 4 := by
    rw [BitVec.toNat_and]
    exact Nat.and_two_pow_sub_one_eq_mod v.toNat 2
  rw [← hand]
  exact ⟨fun h => congrArg BitVec.toNat h, fun h => BitVec.eq_of_toNat_eq h⟩

theorem aligned_add {v w : Word} (hw : Aligned w) : Aligned (v + w) ↔ Aligned v := by
  rw [aligned_mod] at hw ⊢
  rw [aligned_mod, BitVec.toNat_add]
  omega

theorem aligned_add_four {v : Word} : Aligned (v + 4) ↔ Aligned v := aligned_add (by decide)

/-- A word shifted up by two bits or more. -/
theorem aligned_shift (v : Word) {k : Nat} (hk : 2 ≤ k) : Aligned (v <<< k) := by
  refine aligned_bits.mpr fun i hi => ?_
  rw [BitVec.getLsbD_shiftLeft]
  simp [Nat.lt_of_lt_of_le hi hk]

theorem aligned_or {v w : Word} (hv : Aligned v) (hw : Aligned w) : Aligned (v ||| w) := by
  refine aligned_bits.mpr fun i hi => ?_
  rw [BitVec.getLsbD_or, aligned_bits.mp hv i hi, aligned_bits.mp hw i hi]
  rfl

theorem aligned_branchOffset (ir : Word) : Aligned (branchOffset ir) := by
  refine aligned_bits.mpr fun i hi => ?_
  have hlow := aligned_bits.mp (aligned_shift (ir >>> 11) (Nat.le_refl 2)) i hi
  unfold branchOffset
  rw [BitVec.getLsbD_signExtend, BitVec.getLsbD_setWidth, if_pos (by omega), hlow]
  simp

theorem aligned_jumpTarget (pc ir : Word) :
    Aligned ((pc &&& 0x80000000) ||| ((ir >>> 3) <<< 2)) := by
  refine aligned_or ?_ (aligned_shift (ir >>> 3) (Nat.le_refl 2))
  refine aligned_bits.mpr fun i hi => ?_
  have hmask := aligned_bits.mp (show Aligned 0x80000000 by decide) i hi
  rw [BitVec.getLsbD_and]
  exact (congrArg (pc.getLsbD i && ·) hmask).trans (Bool.and_false _)

/-! ## Decoded targets -/

/-- If the instruction is a branch or a jump, it goes to an aligned address. -/
def XrCachedInst.TargetAligned (inst : XrCachedInst) : Prop :=
  inst.func.kind = .branch ∨ inst.func.kind = .jump → Aligned inst.imm32_1

theorem XrDecoder.Proper.targetAligned {d : XrDecoder} (h : d.Proper) {tbmiss : Bool} {ir pc : Word}
    (hpc : Aligned pc) : ∀ i ∈ d.insts tbmiss ir pc, i.TargetAligned := by
  intro i hi hkind
  have hkinds := h.kinds hi
  cases d with
  | branch func =>
      rw [List.mem_singleton.mp hi]
      exact (aligned_add (aligned_branchOffset ir)).mpr hpc
  | beq =>
      rw [List.mem_singleton.mp hi]
      exact (aligned_add (aligned_branchOffset ir)).mpr hpc
  | jump func =>
      rw [List.mem_singleton.mp hi]
      exact aligned_jumpTarget pc ir
  | _ => rcases hkind with hk | hk <;> simp [XrDecoder.kinds, hk] at hkinds

theorem XrIblock.targetAligned {b : XrIblock} (hpc : Aligned b.pc) :
    ∀ i ∈ b.code.insts, i.TargetAligned := by
  refine @forall_decodeLoop b.tbmiss Aligned XrCachedInst.TargetAligned ?_
    (fun _ => aligned_add_four.mpr) ?_ b.words b.pc hpc xrIblockInsts
  · rintro (hk | hk) <;> cases hk
  · exact fun ir pc hpc => (xrDecoder_proper ir).targetAligned hpc

theorem aligned_advance (insts : List XrCachedInst) (pc : Word) :
    Aligned (advance insts pc) ↔ Aligned pc := by
  induction insts generalizing pc with
  | nil => exact Iff.rfl
  | cons i is ih =>
      rw [advance, ih]
      split
      · exact Iff.rfl
      · exact aligned_add_four

/-- Where a branch, a jump or the linkage instruction of an aligned block goes. -/
theorem aligned_target {inst : XrCachedInst} (h : inst.TargetAligned)
    (hkind : inst.func.kind.Follows) {pc : Word} (hpc : Aligned pc) (path : XrPath) :
    Aligned (inst.target pc path) := by
  unfold XrCachedInst.target
  by_cases hlink : inst.func.kind = .linkage
  · rw [if_pos hlink]
    exact hpc
  rw [if_neg hlink]
  cases path with
  | true =>
      apply h
      rcases hkind with hk | hk | hk
      · exact Or.inl hk
      · exact Or.inr hk
      · exact absurd hk hlink
  | false => exact aligned_add_four.mpr hpc

/-! ## Exceptions -/

section

variable {M : Type} [ResetMem M]

/-- With EB zero the processor is reset, and starts at an aligned address too. -/
theorem aligned_vector {m : Machine M} (exc : Word) (h : Aligned (m.proc.cr crEb)) :
    Aligned (xrVectorException m exc).proc.pc := by
  unfold xrVectorException
  split
  · show Aligned 0xFFFE1000
    decide
  · exact aligned_or h (aligned_shift exc (by decide))

theorem Raises.eb {m m' : Machine M} (h : Raises m m') : m'.proc.cr crEb = m.proc.cr crEb := by
  obtain ⟨m₁, exc, rfl, hprepared⟩ := h.vector
  rw [← hprepared.cr crEb (by decide)]
  unfold xrVectorException
  by_cases heb : m₁.proc.cr crEb = 0
  · rw [if_pos heb, heb]
    rfl
  · rw [if_neg heb]
    rfl

theorem Raises.aligned {m m' : Machine M} (h : Raises m m') (heb : Aligned (m.proc.cr crEb)) :
    Aligned m'.proc.pc := by
  obtain ⟨m₁, exc, rfl, hprepared⟩ := h.vector
  refine aligned_vector exc ?_
  rw [hprepared.cr crEb (by decide)]
  exact heb

theorem Faulted.aligned {m m' : Machine M} (h : Faulted m m') (heb : Aligned (m.proc.cr crEb)) :
    Aligned m'.proc.pc := by
  obtain ⟨m₁, htouched, hraises⟩ := h
  refine hraises.aligned ?_
  rw [htouched.cr]
  exact heb

end

/-! ## The calls of `XrDecodeInstructions` -/

/-- The address RFE returns to. -/
def XrProcessor.returnPc (p : XrProcessor) : Word :=
  if p.rs &&& rsTbmiss ≠ 0 then p.cr crTbpc else p.cr crEpc

section

variable {M : Type} [XrBuild M]

/-- The instructions that return early, or end the block, without an exception. -/
def XrCachedInst.Returns (inst : XrCachedInst) (p : XrProcessor) : Prop :=
  inst.func = .pause ∨ (inst.func = .rfe ∨ inst.func = .hlt) ∧ p.rs &&& rsUser = 0

namespace XrInterp

/-- A step from here calls `XrDecodeInstructions` with this machine, block cache and hazard:
to enter the loop, or for a slot or a prediction table that has no block yet. -/
inductive Calls (pending : Bool) :
    XrInterp M → Machine M → XrIblockCache → Option Nat → Prop
  | retry {m c} (more : ¬m.proc.Stops) :
      Calls pending ⟨m, c, .retry⟩ (takeInterrupt pending m.countNmiMask) c none
  | follow {m c i k inst m₁ path} (fetched : (c.iblocks i).code.insts[k]? = some inst)
      (exec : inst.exec m i = some (m₁, .follow path))
      (null : (c.iblocks i).cachedPaths path = .null) :
      Calls pending ⟨m, c, .inst i k⟩ m₁ c (some i)
  | predict {m c i k inst m₁ t c₁} (fetched : (c.iblocks i).code.insts[k]? = some inst)
      (exec : inst.exec m i = some (m₁, .predict)) (table : Tabled c i t c₁)
      (miss : c₁.predicted t m₁.proc.pc = .null) :
      Calls pending ⟨m, c, .inst i k⟩ m₁ c₁ (some i)

/-- What happens next here, a step or a call of `XrExecuteFast`, takes an exception. -/
inductive Excepts (pending : Bool) : XrInterp M → Prop
  | nmi {m c} (running : m.proc.running = true)
      (awake : m.proc.halted = true → pending = true ∧ m.proc.rs &&& rsInt ≠ 0)
      (userBreak : m.proc.userBreak = true)
      (unmasked : m.proc.halted = true ∨ m.proc.nmiMaskCounter = 0) : Excepts pending ⟨m, c, .noMore⟩
  | interrupt {m c} (more : ¬m.proc.Stops) (interrupt : pending = true)
      (enabled : m.proc.rs &&& rsInt ≠ 0) : Excepts pending ⟨m, c, .retry⟩
  | inst {m c i k inst m₁ exit} (fetched : (c.iblocks i).code.insts[k]? = some inst)
      (exec : inst.exec m i = some (m₁, exit)) (leaves : exit = .early ∨ exit = .trivial)
      (raised : ¬inst.Returns m.proc) : Excepts pending ⟨m, c, .inst i k⟩
  | fetch {s m c hazard m' c'} (calls : Calls pending s m c hazard)
      (fails : xrDecodeInstructions m c hazard = some (none, m', c')) : Excepts pending s

/-- The condition on what happens next. -/
structure KeepsAligned (pending : Bool) (s : XrInterp M) : Prop where
  eb : s.Excepts pending → Aligned (s.machine.proc.cr crEb)
  rfe : ∀ i k inst, s.point = .inst i k → (s.cache.iblocks i).code.insts[k]? = some inst →
    inst.func = .rfe → s.machine.proc.rs &&& rsUser = 0 → Aligned s.machine.proc.returnPc

/-- The runs from `XrReset` in which whatever happens is from a state with `P`. -/
inductive FromReset (P : Bool → XrInterp M → Prop) : XrInterp M → Prop
  | reset (m : Machine M) {c : XrIblockCache} (h : c.Initial) : FromReset P ⟨xrReset m, c, .noMore⟩
  | timeslice {s : XrInterp M} (h : FromReset P s) (idle : s.point = .noMore) :
      FromReset P s.timeslice
  | call {s : XrInterp M} (input : XrInput M) (cycles : Word) (h : FromReset P s)
      (idle : s.point = .noMore) (ok : P input.pending (s.meets input)) :
      FromReset P (s.call input cycles)
  | next {s s' : XrInterp M} (input : XrInput M) (h : FromReset P s)
      (ok : P input.pending (s.meets input)) (step : s.next input = some s') : FromReset P s'

end XrInterp

/-- In all these runs `XrDecodeInstructions` finds an aligned program counter. -/
def FetchesAligned (M : Type) [XrBuild M] (P : Bool → XrInterp M → Prop) : Prop :=
  ∀ (s : XrInterp M) (input : XrInput M) (m : Machine M) (c : XrIblockCache)
    (hazard : Option Nat), XrInterp.FromReset P s → P input.pending (s.meets input) →
    (s.meets input).Calls input.pending m c hazard → Aligned m.proc.pc

/-! ## One step -/

variable {m m' m₁ : Machine M} {c : XrIblockCache} {i k : Nat} {inst : XrCachedInst}
  {exit : XrExit}

/-- The program counter after an instruction that returns without an exception. -/
theorem XrCachedInst.Returns.pc (h : inst.Returns m.proc) (hexec : inst.exec m i = some (m', exit)) :
    m'.proc.pc = if inst.func = .rfe then m.proc.returnPc else m.proc.pc + 4 := by
  obtain ⟨func, imm32, imm8, imm8'⟩ := inst
  rcases h with hpause | ⟨hrfe | hhlt, kernel⟩
  · obtain rfl : func = .pause := hpause
    have hrun : xrExecutePause m i ⟨.pause, imm32, imm8, imm8'⟩ = some (m', exit) := hexec
    unfold xrExecutePause at hrun
    extract_lets calls m₁ at hrun
    split at hrun
    · cases hrun
      rfl
    · cases hrun
      rfl
  · obtain rfl : func = .rfe := hrfe
    cases hexec
    rw [xrRfe_kernel kernel]
    rfl
  · obtain rfl : func = .hlt := hhlt
    have hrun : xrExecuteHlt m i ⟨.hlt, imm32, imm8, imm8'⟩ = some (m', exit) := hexec
    unfold xrExecuteHlt at hrun
    rw [if_neg (not_not_intro kernel)] at hrun
    cases hrun
    rfl

theorem exec_aligned (hexec : inst.exec m i = some (m', exit)) (hpc : Aligned m.proc.pc)
    (htarget : inst.TargetAligned)
    (heb : exit = .early ∨ exit = .trivial → ¬inst.Returns m.proc → Aligned (m.proc.cr crEb))
    (hrfe : inst.func = .rfe → m.proc.rs &&& rsUser = 0 → Aligned m.proc.returnPc) :
    Aligned m'.proc.pc := by
  by_cases hreturns : inst.Returns m.proc
  · rw [hreturns.pc hexec]
    by_cases hfunc : inst.func = .rfe
    · rw [if_pos hfunc]
      rcases hreturns with hpause | ⟨_, kernel⟩
      · rw [hfunc] at hpause
        cases hpause
      · exact hrfe hfunc kernel
    · rw [if_neg hfunc]
      exact aligned_add_four.mpr hpc
  · cases exec_ran hexec with
    | step kind same regs pc =>
        rw [pc]
        exact aligned_add_four.mpr hpc
    | shift kind same regs pc =>
        rw [pc]
        exact hpc
    | pause kind same regs pc => exact absurd (Or.inl kind) hreturns
    | fault same regs raises leaves =>
        refine raises.aligned ?_
        rw [same.cr]
        exact heb leaves hreturns
    | rfe kind kernel => exact absurd (Or.inr ⟨Or.inl kind, kernel⟩) hreturns
    | hlt kind kernel halted => exact absurd (Or.inr ⟨Or.inr kind, kernel⟩) hreturns
    | mtcr kind kernel wrote =>
        rw [mtcrKernel_pc wrote]
        exact aligned_add_four.mpr hpc
    | follow kind same regs pc taken =>
        rw [pc]
        exact aligned_target htarget kind hpc _
    | predict kind same regs aligned => exact aligned

omit [XrBuild M] in
/-- The instructions of a block that is executed at an aligned program counter. -/
theorem StandsAt.targetAligned (h : StandsAt m c i k) (hpc : Aligned m.proc.pc)
    (hinst : (c.iblocks i).code.insts[k]? = some inst) : inst.TargetAligned := by
  have hblock : Aligned (c.iblocks i).pc := by
    rw [h.pc, aligned_advance] at hpc
    exact hpc
  exact XrIblock.targetAligned hblock inst (List.mem_of_getElem? hinst)

namespace XrInterp

variable {pending : Bool} {s s' : XrInterp M} {hazard : Option Nat}

theorem KeepsAligned.exec (h : KeepsAligned pending ⟨m, c, .inst i k⟩) (hstands : StandsAt m c i k)
    (hpc : Aligned m.proc.pc) (hinst : (c.iblocks i).code.insts[k]? = some inst)
    (hexec : inst.exec m i = some (m', exit)) : Aligned m'.proc.pc := by
  refine exec_aligned hexec hpc (hstands.targetAligned hpc hinst) ?_ ?_
  · intro leaves raised
    exact h.eb (.inst hinst hexec leaves raised)
  · exact h.rfe i k inst rfl hinst

theorem takeInterrupt_cases (pending : Bool) (m : Machine M) :
    (takeInterrupt pending m.countNmiMask).proc.cr crEb = m.proc.cr crEb ∧
      ((pending = true ∧ m.proc.rs &&& rsInt ≠ 0 → Aligned (m.proc.cr crEb)) →
        Aligned m.proc.pc → Aligned (takeInterrupt pending m.countNmiMask).proc.pc) := by
  have hcount : m.countNmiMask.proc.pc = m.proc.pc ∧ m.countNmiMask.proc.cr = m.proc.cr := by
    unfold Machine.countNmiMask
    split
    · exact ⟨rfl, rfl⟩
    · exact ⟨rfl, rfl⟩
  have hrs : m.countNmiMask.proc.rs = m.proc.rs := congrFun hcount.2 crRs
  unfold takeInterrupt
  by_cases hint : pending = true ∧ m.countNmiMask.proc.rs &&& rsInt ≠ 0
  · rw [if_pos hint]
    have hraises := Raises.plain excInt m.countNmiMask.proc.pc (m := m.countNmiMask) (by decide)
    refine ⟨hraises.eb.trans (congrFun hcount.2 crEb), ?_⟩
    intro heb _
    refine hraises.aligned ?_
    rw [hcount.2]
    exact heb ⟨hint.1, hrs ▸ hint.2⟩
  · rw [if_neg hint]
    refine ⟨congrFun hcount.2 crEb, ?_⟩
    intro _ hpc
    rw [hcount.1]
    exact hpc

theorem Calls.aligned (hcalls : s.Calls pending m c hazard) (h : s.KeepsAligned pending)
    (hplaced : s.Placed) (hpc : Aligned s.machine.proc.pc) : Aligned m.proc.pc := by
  cases hcalls with
  | @retry m₀ c more =>
      refine (takeInterrupt_cases pending m₀).2 ?_ hpc
      rintro ⟨hpending, henabled⟩
      exact h.eb (.interrupt more hpending henabled)
  | follow fetched exec null => exact h.exec (hplaced.stands _ _ rfl) hpc fetched exec
  | predict fetched exec table miss => exact h.exec (hplaced.stands _ _ rfl) hpc fetched exec

theorem Calls.eb (hcalls : s.Calls pending m c hazard) :
    m.proc.cr crEb = s.machine.proc.cr crEb := by
  cases hcalls with
  | @retry m₀ c more => exact (takeInterrupt_cases pending m₀).1
  | follow fetched exec null => exact congrFun (exec_ran exec).follow_pc.2.1.cr crEb
  | predict fetched exec table miss => exact congrFun (exec_ran exec).predict_kind.2.1.cr crEb

/-- A call that fails has taken an exception. -/
theorem Calls.fault {c' : XrIblockCache} (hcalls : s.Calls pending m c hazard)
    (h : s.KeepsAligned pending) (hfails : xrDecodeInstructions m c hazard = some (none, m', c')) :
    Aligned m'.proc.pc := by
  refine (decode_fault hfails).1.aligned ?_
  rw [hcalls.eb]
  exact h.eb (.fetch hcalls hfails)

theorem step_aligned (h : s.KeepsAligned pending) (hplaced : s.Placed)
    (hpc : Aligned s.machine.proc.pc) (hstep : s.step pending = some s') :
    Aligned s'.machine.proc.pc := by
  obtain ⟨m, c, point⟩ := s
  cases point with
  | check =>
      cases hstep
      show Aligned (XrBuild.drain m).proc.pc
      rw [(XrBuild.drain_touched m).pc]
      exact hpc
  | retry =>
      have hcalls : ¬m.proc.Stops → Calls pending ⟨m, c, .retry⟩ _ c none := .retry
      have hrun : xrRetry pending m c = some s' := hstep
      cases retries hrun with
      | stopped stops => exact hpc
      | @faulted m' c' goes decode =>
          show Aligned m'.proc.pc
          exact (hcalls goes).fault h decode
      | @enters j m' c' goes decode =>
          show Aligned m'.proc.pc
          rw [(decode_found hplaced.reach decode).touched.pc]
          exact (hcalls goes).aligned h hplaced hpc
  | inst i k =>
      obtain ⟨inst, m₁, exit, hinst, hexec, hleaves⟩ := inst_step hstep
      have hstands := hplaced.stands i k rfl
      have halign : Aligned m₁.proc.pc := h.exec hstands hpc hinst hexec
      cases hleaves with
      | next => exact halign
      | early => exact halign
      | flush drop => exact halign
      | trivial => exact halign
      | cached hit => exact halign
      | @decoded path j m' c' null decode =>
          show Aligned m'.proc.pc
          rw [(decode_found hplaced.reach decode).touched.pc]
          exact halign
      | @predicted t j c₁ m' c' table miss decode =>
          have hreach := (table.reach hplaced.reach hstands.active
            (StandsAt.jalr hinst (exec_ran hexec))).1
          show Aligned m'.proc.pc
          rw [(decode_found hreach decode).touched.pc]
          exact halign
      | @faulted path m' c' null decode =>
          have hcalls : Calls pending ⟨m, c, .inst i k⟩ m₁ c (some i) := .follow hinst hexec null
          show Aligned m'.proc.pc
          exact hcalls.fault h decode
      | @unpredicted t c₁ m' c' table miss decode =>
          have hcalls : Calls pending ⟨m, c, .inst i k⟩ m₁ c₁ (some i) :=
            .predict hinst hexec table miss
          show Aligned m'.proc.pc
          exact hcalls.fault h decode
  | noMore => cases hstep

/-- What `XrExecuteFast` does to the program counter before its loop. -/
theorem executeFast_aligned {cycles : Word} (h : KeepsAligned pending ⟨m, c, .noMore⟩)
    (hpc : Aligned m.proc.pc) : Aligned (xrExecuteFast pending cycles m).1.proc.pc := by
  unfold xrExecuteFast
  by_cases hrunning : m.proc.running = false
  · rw [if_pos hrunning]
    exact hpc
  rw [if_neg hrunning]
  by_cases hasleep : m.proc.halted = true ∧ ¬(pending = true ∧ m.proc.rs &&& rsInt ≠ 0)
  · rw [if_pos hasleep]
    exact hpc
  rw [if_neg hasleep]
  extract_lets p₁ m₁ p₂ m₂ raised p₃ m₃ p₄
  have hsame : m₂.proc.pc = m.proc.pc ∧ m₂.proc.cr = m.proc.cr ∧
      m₂.proc.userBreak = m.proc.userBreak ∧
      (m₂.proc.nmiMaskCounter = 0 → m.proc.halted = true ∨ m.proc.nmiMaskCounter = 0) := by
    unfold m₂ p₂ m₁
    by_cases hhalted : m.proc.halted = true
    · rw [if_pos hhalted]
      exact ⟨rfl, rfl, rfl, fun _ => Or.inl hhalted⟩
    · rw [if_neg hhalted]
      exact ⟨rfl, rfl, rfl, Or.inr⟩
  obtain ⟨hsamepc, hsamecr, hbreak, hmask⟩ := hsame
  have haligned : Aligned m₃.proc.pc := by
    unfold m₃
    by_cases hnmi : m₂.proc.userBreak = true ∧ m₂.proc.nmiMaskCounter = 0
    · rw [if_pos hnmi]
      refine (Raises.plain excNmi m₂.proc.pc (by decide)).aligned (m := m₂) ?_
      rw [hsamecr]
      refine h.eb (.nmi (by simpa using hrunning) ?_ (hbreak.symm.trans hnmi.1) (hmask hnmi.2))
      intro hhalted
      by_contra hno
      exact hasleep ⟨hhalted, hno⟩
    · rw [if_neg hnmi, hsamepc]
      exact hpc
  split
  · exact haligned
  · exact haligned

/-! ## Every run -/

variable {P : Bool → XrInterp M → Prop}

theorem FromReset.placed (h : FromReset P s) : s.Placed := by
  induction h with
  | reset m h => exact placed_outside (.start h) fun _ _ => XrPoint.noConfusion
  | timeslice h idle ih =>
      refine placed_outside ih.reach ?_
      intro i k hpoint
      exact XrPoint.noConfusion (idle.symm.trans hpoint)
  | call input cycles h idle ok ih => exact ih.call input cycles
  | next input h ok step ih => exact ih.next step

omit [XrBuild M] in
theorem aligned_meets (hpc : Aligned s.machine.proc.pc) (input : XrInput M) :
    Aligned (s.meets input).machine.proc.pc := by
  show Aligned (input.outside s.machine).proc.pc
  rw [input.outside_ok s.machine]
  exact hpc

theorem FromReset.aligned (h : FromReset KeepsAligned s) : Aligned s.machine.proc.pc := by
  induction h with
  | reset m h =>
      show Aligned 0xFFFE1000
      decide
  | timeslice h idle ih => exact ih
  | @call s input cycles h idle ok ih =>
      obtain ⟨m, c, point⟩ := s
      obtain rfl : point = .noMore := idle
      exact executeFast_aligned ok (aligned_meets ih input)
  | next input h ok step ih =>
      exact step_aligned ok (h.placed.meets input) (aligned_meets ih input) step

end XrInterp

/-- Where nothing vectors through an EB that is not aligned, or returns to such an address. -/
theorem fetches_aligned : FetchesAligned M XrInterp.KeepsAligned := by
  intro s input m c hazard hrun ok hcalls
  exact hcalls.aligned ok (hrun.placed.meets input) (XrInterp.aligned_meets hrun.aligned input)

end

/-! ## A return to an address that the guest has chosen -/

/-- Nothing happens outside. -/
def uneventful : XrInput (XrFastMem (XrStation Unit)) := ⟨fun m => m, false, fun _ => rfl⟩

/-- A boot ROM that starts, where the processor does, with this instruction, `MTCR EPC, R1`
and `RFE`. -/
def returnRom (addi : Word) (k : Nat) : Byte :=
  byteOf ([addi, 0xE0060829, 0xB0000029].getD (k / 4 - 1024) 0) (k % 4)

/-- A processor with this ROM, and without RAM. -/
def returning (addi : Word) : Machine (XrFastMem (XrStation Unit)) :=
  let mem := (stationMachine 0).mem
  ⟨XrProcessor.zeroed 0, { mem with bus := { mem.bus with bootRom := returnRom addi } }⟩

/-- It, after `XrReset` and with a new timeslice. -/
def returnStart (addi : Word) : XrInterp (XrFastMem (XrStation Unit)) :=
  XrInterp.timeslice ⟨xrReset (returning addi), initialBlockCache, .noMore⟩

/-- Its first call of `XrExecuteFast`, with this many steps after it. -/
def returns (addi : Word) : Nat → XrInterp (XrFastMem (XrStation Unit))
  | 0 => (returnStart addi).call uneventful 20000
  | n + 1 => ((returns addi n).next uneventful).getD (returns addi n)

set_option maxRecDepth 20000 in
theorem returns_next {addi : Word} (h : addi = 0x0002007C ∨ addi = 0x0004007C) : ∀ n, n < 6 →
    (returns addi n).next uneventful = some (returns addi (n + 1)) := by
  rcases h with rfl | rfl
  · rintro (_ | _ | _ | _ | _ | _ | n) hn
    · rfl
    · rfl
    · rfl
    · rfl
    · rfl
    · rfl
    · omega
  · rintro (_ | _ | _ | _ | _ | _ | n) hn
    · rfl
    · rfl
    · rfl
    · rfl
    · rfl
    · rfl
    · omega

theorem returns_fromReset {P : Bool → XrInterp (XrFastMem (XrStation Unit)) → Prop} {addi : Word}
    (h : addi = 0x0002007C ∨ addi = 0x0004007C) (hstart : P false ((returnStart addi).meets uneventful))
    (hok : ∀ n, n < 6 → P false ((returns addi n).meets uneventful)) :
    ∀ n, n ≤ 6 → XrInterp.FromReset P (returns addi n) := by
  intro n hn
  induction n with
  | zero =>
      exact ((XrInterp.FromReset.reset (returning addi) initial_initialBlockCache).timeslice rfl).call
        uneventful 20000 rfl hstart
  | succ n ih =>
      exact (ih (Nat.le_of_succ_le hn)).next uneventful (hok n hn) (returns_next h n hn)

theorem calls_retry {s : XrInterp (XrFastMem (XrStation Unit))} (hpoint : s.point = .retry)
    (more : ¬s.machine.proc.Stops) :
    s.Calls false (takeInterrupt false s.machine.countNmiMask) s.cache none := by
  obtain ⟨m, c, point⟩ := s
  obtain rfl : point = .retry := hpoint
  exact .retry more

set_option maxRecDepth 20000 in
/-- EPC is a multiple of 4, and so is the address of the next fetch. -/
theorem fetches_aligned_four :
    XrInterp.FromReset XrInterp.KeepsAligned (returns 0x0004007C 6) ∧
      (takeInterrupt false (returns 0x0004007C 6).machine.countNmiMask).proc.pc = 4 ∧
      Aligned (takeInterrupt false (returns 0x0004007C 6).machine.countNmiMask).proc.pc := by
  have hkeeps : ∀ s : XrInterp (XrFastMem (XrStation Unit)),
      Aligned (s.machine.proc.cr crEb) → Aligned s.machine.proc.returnPc →
      XrInterp.KeepsAligned false s := fun s heb hpc => ⟨fun _ => heb, fun _ _ _ _ _ _ _ => hpc⟩
  have hok : ∀ n, n ≤ 6 → XrInterp.KeepsAligned false ((returns 0x0004007C n).meets uneventful) := by
    rintro (_ | _ | _ | _ | _ | _ | _ | n) hn
    · exact hkeeps _ (by decide) (by decide)
    · exact hkeeps _ (by decide) (by decide)
    · exact hkeeps _ (by decide) (by decide)
    · exact hkeeps _ (by decide) (by decide)
    · exact hkeeps _ (by decide) (by decide)
    · exact hkeeps _ (by decide) (by decide)
    · exact hkeeps _ (by decide) (by decide)
    · omega
  have hrun : XrInterp.FromReset XrInterp.KeepsAligned (returns 0x0004007C 6) :=
    returns_fromReset (Or.inr rfl) (hkeeps _ (by decide) (by decide))
      (fun n hn => hok n (Nat.le_of_lt hn)) 6 (Nat.le_refl 6)
  exact ⟨hrun, rfl, fetches_aligned _ uneventful _ _ none hrun (hok 6 (Nat.le_refl 6))
    (calls_retry rfl (by decide))⟩

set_option maxRecDepth 20000 in
/-- EPC is 2, and the next fetch is there. -/
theorem return_not_aligned : ¬FetchesAligned (XrFastMem (XrStation Unit)) (fun _ _ => True) := by
  intro h
  have hrun : XrInterp.FromReset (fun _ _ => True) (returns 0x0002007C 6) :=
    returns_fromReset (Or.inl rfl) trivial (fun _ _ => trivial) 6 (Nat.le_refl 6)
  have haligned := h (returns 0x0002007C 6) uneventful _ _ none hrun trivial (calls_retry rfl (by decide))
  revert haligned
  decide

end Xremu
