import Xremu.Fast.Build
import Xremu.Interp.InstructionSet

/-!
# A block runs like its instructions one at a time

`stepWords` decodes and executes one instruction word after another, each under the RS
and at the program counter it finds. A decoded block does the same with the words it was
made of: where the linkage instruction and the end of the block's room fall is not visible.
-/

namespace Xremu

section

variable {M : Type} [XrBuild M]

/-- Cached instructions in a row, until one of them leaves. -/
def runInsts (m : Machine M) (block : Nat) : List XrCachedInst → Option (Machine M × XrExit)
  | [] => some (m, .next)
  | inst :: insts => do
      let (m, exit) ← inst.exec m block
      if exit = .next then runInsts m block insts else some (m, exit)

/-- One instruction word, decoded alone. -/
def stepWord (m : Machine M) (block : Nat) (ir : Word) : Option (Machine M × XrExit) :=
  runInsts m block (xrDecode m.tbmiss ir m.proc.pc).insts

/-- Instruction words in a row; after the last one the next block follows. -/
def stepWords (m : Machine M) (block : Nat) : List Word → Option (Machine M × XrExit)
  | [] => some (m, .follow .true)
  | ir :: irs => do
      let (m, exit) ← stepWord m block ir
      if exit = .next then stepWords m block irs else some (m, exit)

/-! ## Instructions that go on -/

variable {m m' : Machine M} {inst : XrCachedInst} {block : Nat} {exit : XrExit}

theorem Ran.exit_ne_next (h : Ran m inst m' exit) (hk : inst.func.kind.ends = true) :
    exit ≠ .next := by
  cases h with
  | step kind =>
      rw [kind] at hk
      cases hk
  | shift kind =>
      rw [kind] at hk
      cases hk
  | mtcr kind =>
      rw [kind] at hk
      cases hk
  | fault same regs raises leaves => rcases leaves with rfl | rfl <;> decide
  | pause => decide
  | rfe => decide
  | hlt => decide
  | follow =>
      intro he
      cases he
  | predict => decide

/-- An instruction that goes on has changed nothing that decoding depends on. -/
theorem Ran.next (h : Ran m inst m' .next) (hf : inst.func ≠ .mtcr) :
    SameControl m.proc m'.proc ∧
      m'.proc.pc = if inst.func.kind = .shift then m.proc.pc else m.proc.pc + 4 := by
  cases h with
  | step kind same regs pc =>
      rw [kind]
      exact ⟨same, pc⟩
  | shift kind same regs pc =>
      rw [kind]
      exact ⟨same, pc⟩
  | fault same regs raises leaves => rcases leaves with he | he <;> cases he
  | mtcr kind => exact absurd kind hf

theorem runInsts_append (m : Machine M) (block : Nat) (is js : List XrCachedInst) :
    runInsts m block (is ++ js) = (runInsts m block is).bind fun r =>
      if r.2 = .next then runInsts r.1 block js else some r := by
  induction is generalizing m with
  | nil => rfl
  | cons i is ih =>
      simp only [List.cons_append, runInsts]
      cases he : i.exec m block with
      | none => rfl
      | some r =>
          by_cases hn : r.2 = .next
          · simp only [Option.bind_eq_bind, Option.bind_some, if_pos hn, ih]
          · simp only [Option.bind_eq_bind, Option.bind_some, if_neg hn]

/-- A row of instructions that goes on and has no MTCR in it. -/
theorem runInsts_next {insts : List XrCachedInst} (h : runInsts m block insts = some (m', .next))
    (hf : ∀ i ∈ insts, i.func ≠ .mtcr) :
    SameControl m.proc m'.proc ∧ m'.proc.pc = advance insts m.proc.pc := by
  induction insts generalizing m with
  | nil =>
      cases h
      exact ⟨.refl _, rfl⟩
  | cons i is ih =>
      obtain ⟨⟨m₁, e⟩, hexec, hrest⟩ := Option.bind_eq_some_iff.mp h
      by_cases he : e = .next
      · subst he
        obtain ⟨hsame, hpc⟩ := (exec_ran hexec).next (hf i List.mem_cons_self)
        obtain ⟨hsame', hpc'⟩ := ih hrest fun j hj => hf j (List.mem_cons_of_mem _ hj)
        refine ⟨hsame.trans hsame', ?_⟩
        rw [hpc', hpc]
        rfl
      · simp only [if_neg he] at hrest
        cases hrest
        exact absurd rfl he

/-- A row that ends a block does not go on. -/
theorem runInsts_endsLast {insts : List XrCachedInst} (he : EndsLast insts)
    (h : runInsts m block insts = some (m', exit)) : exit ≠ .next := by
  obtain ⟨body, last, rfl, _, hlast⟩ := he
  rw [runInsts_append] at h
  obtain ⟨⟨m₁, e⟩, _, hrest⟩ := Option.bind_eq_some_iff.mp h
  by_cases hn : e = .next
  · simp only [if_pos hn, runInsts] at hrest
    obtain ⟨⟨m₂, e₂⟩, hexec, hout⟩ := Option.bind_eq_some_iff.mp hrest
    have hne := (exec_ran hexec).exit_ne_next hlast
    simp only [if_neg hne] at hout
    cases hout
    exact hne
  · simp only [if_neg hn] at hrest
    cases hrest
    exact hn

/-! ## The block -/

/-- The instruction word is not MTCR. -/
def NotMtcr (ir : Word) : Prop := xrDecoder ir ≠ xrDecodeMtcr

instance (ir : Word) : Decidable (NotMtcr ir) := inferInstanceAs (Decidable (_ ≠ _))

theorem NotMtcr.func {ir : Word} (h : NotMtcr ir) {tbmiss : Bool} {pc : Word} :
    ∀ i ∈ (xrDecode tbmiss ir pc).insts, i.func ≠ .mtcr :=
  fun _ hi hf => h ((xrDecoder_proper ir).mtcr hi hf)

/-- The decode loop makes the words it takes into a block that runs as they do. -/
theorem runInsts_decodeLoop {irs : List Word} (h : ∀ ir ∈ irs, NotMtcr ir) (room : Nat) :
    runInsts m block (xrDecodeLoop m.tbmiss irs m.proc.pc room).1 =
      stepWords m block (irs.take (xrDecodeLoop m.tbmiss irs m.proc.pc room).2) := by
  induction irs generalizing m room with
  | nil => rfl
  | cons ir irs ih =>
      obtain ⟨pre, main, hok⟩ := xrDecode_ok m.tbmiss ir m.proc.pc
      have hir := h ir List.mem_cons_self
      rcases loopCases m.tbmiss ir irs m.proc.pc room with ⟨he, hl⟩ | ⟨he, _, hl⟩ | ⟨he, _, hl⟩
      · -- The word ends the block.
        rw [hl, List.take_succ_cons, List.take_zero]
        simp only [stepWords, stepWord]
        cases hrun : runInsts m block (xrDecode m.tbmiss ir m.proc.pc).insts with
        | none => rfl
        | some r =>
            have hne := runInsts_endsLast (hok.endsLast he) hrun
            simp only [Option.bind_eq_bind, Option.bind_some, if_neg hne]
      · -- The block is full: the linkage instruction follows.
        rw [hl, List.take_succ_cons, List.take_zero, runInsts_append]
        simp only [stepWords, stepWord]
        rfl
      · rw [hl, List.take_succ_cons, runInsts_append]
        simp only [stepWords, stepWord]
        cases hrun : runInsts m block (xrDecode m.tbmiss ir m.proc.pc).insts with
        | none => rfl
        | some r =>
            obtain ⟨m₁, e⟩ := r
            by_cases hn : e = .next
            · subst hn
              obtain ⟨hsame, hpc⟩ := runInsts_next hrun hir.func
              have htb : m₁.tbmiss = m.tbmiss := by
                unfold Machine.tbmiss XrProcessor.rsSet
                rw [hsame.cr]
              rw [hok.advance] at hpc
              have hrest := @ih m₁ (fun ir' hir' => h ir' (List.mem_cons_of_mem _ hir'))
                (room - (xrDecode m.tbmiss ir m.proc.pc).insts.length)
              rw [htb, hpc] at hrest
              simp only [Option.bind_eq_bind, Option.bind_some, if_true]
              exact hrest
            · simp only [Option.bind_eq_bind, Option.bind_some, if_neg hn]

/-! ## The fake zero register -/

/-- The fake zero register of the record is zero. -/
def ZeroOk (p : XrProcessor) : Prop := p.reg fakeZeroRegister = 0

theorem WritesOnly.zeroOk {p p' : XrProcessor} {dest : Nat} (h : WritesOnly dest p p')
    (hd : dest ≠ fakeZeroRegister) (hz : ZeroOk p) : ZeroOk p' := (h _ hd.symm).trans hz

theorem xrMtcr_reg (p : XrProcessor) (rb : Nat) (value : Word) : (xrMtcr p rb value).reg = p.reg :=
  (xrMtcr_written p rb value).reg

theorem mtcrKernel_reg {rb : Nat} {value : Word} (h : mtcrKernel m rb value = some (m', exit)) :
    m'.proc.reg = m.proc.reg := by
  unfold mtcrKernel at h
  extract_lets m₁ m₂ at h
  have hreg : m₁.proc.reg = m.proc.reg := xrMtcr_reg m.proc rb value
  split at h
  · cases h
    exact (XrBuild.icachectrl_touched value m₁).reg.trans hreg
  split at h
  · cases h
    exact (XrBuild.dcachectrl_touched value m₁).reg.trans hreg
  split at h
  · cases h
    exact hreg
  · cases h
    exact hreg

theorem Ran.zeroOk (h : Ran m inst m' exit) (hd : inst.dest ≠ fakeZeroRegister)
    (hz : ZeroOk m.proc) : ZeroOk m'.proc := by
  cases h with
  | step kind same regs => exact regs.zeroOk hd hz
  | shift kind same regs => exact regs.zeroOk hd hz
  | pause kind same regs => exact regs.zeroOk hd hz
  | fault same regs raises => exact raises.kept.zero (regs.zeroOk hd hz)
  | rfe kind kernel =>
      rw [xrRfe_kernel kernel]
      exact hz
  | hlt kind kernel halted =>
      rw [halted]
      exact hz
  | mtcr kind kernel wrote =>
      unfold ZeroOk
      rw [mtcrKernel_reg wrote]
      exact hz
  | follow kind same regs => exact regs.zeroOk hd hz
  | predict kind same regs => exact regs.zeroOk hd hz

theorem runInsts_zeroOk {insts : List XrCachedInst} (hd : ∀ i ∈ insts, i.dest ≠ fakeZeroRegister)
    (hz : ZeroOk m.proc) (h : runInsts m block insts = some (m', exit)) : ZeroOk m'.proc := by
  induction insts generalizing m with
  | nil =>
      cases h
      exact hz
  | cons i is ih =>
      obtain ⟨⟨m₁, e⟩, hexec, hrest⟩ := Option.bind_eq_some_iff.mp h
      have hz₁ := (exec_ran hexec).zeroOk (hd i List.mem_cons_self) hz
      by_cases he : e = .next
      · simp only [if_pos he] at hrest
        exact ih (fun j hj => hd j (List.mem_cons_of_mem _ hj)) hz₁ hrest
      · simp only [if_neg he] at hrest
        cases hrest
        exact hz₁

end

end Xremu
