import Xremu.Interp.Alignment
import Xremu.Machine.Nesting

/-!
# User mode stays in user mode

An instruction of user mode leaves user mode only through an exception, which vectors
with the mode byte on the mode stack or, where there are no vectors, resets the
processor. The next block is fetched as a part of the instruction before it, with the
same two outcomes. An instruction that stays in user mode has changed no control
register, no translation and not the halt flag: `user_confined`.
-/

namespace Xremu

open XrIblockCache

/-! ## Into the kernel -/

/-- At the vector of an exception, with the mode byte of before as the second one of RS. -/
structure AtVector (p p' : XrProcessor) (exc : Word) : Prop where
  code : exc ∈ xrExcCodes
  pc : p'.pc = p.cr crEb ||| (exc <<< 8)
  pushed : (p'.rs >>> 8) &&& 0xFF = p.rs &&& 0xFF

/-- Where the kernel is entered from user mode: at a vector, or after a reset if there is
no exception base. -/
def EntersKernel (p p' : XrProcessor) : Prop :=
  (p.cr crEb = 0 ∧ p'.cr crEb = 0 ∧ p'.pc = 0xFFFE1000) ∨ ∃ exc, AtVector p p' exc

/-- What an instruction of user mode may have done. -/
structure UserConfined (p p' : XrProcessor) : Prop where
  entry : p'.rs &&& rsUser = 0 → EntersKernel p p'
  control : p'.rs &&& rsUser ≠ 0 → p'.cr = p.cr
  translation : p'.rs &&& rsUser ≠ 0 → p'.itb = p.itb ∧ p'.dtb = p.dtb
  halted : p'.rs &&& rsUser ≠ 0 → p'.halted = p.halted

/-- All that `UserConfined` looks at is the same. -/
structure SameMode (p p' : XrProcessor) : Prop where
  pc : p'.pc = p.pc
  cr : p'.cr = p.cr
  itb : p'.itb = p.itb
  dtb : p'.dtb = p.dtb
  halted : p'.halted = p.halted

theorem Touched.sameMode {p p' : XrProcessor} (h : Touched p p') : SameMode p p' :=
  ⟨h.pc, h.cr, h.itb, h.dtb, h.halted⟩

/-- In the kernel now, by one of its entries. -/
structure Entered (p p' : XrProcessor) : Prop where
  kernel : p'.rs &&& rsUser = 0
  enters : EntersKernel p p'

namespace Entered

variable {p p' p'' : XrProcessor}

theorem confined (h : Entered p p') : UserConfined p p' :=
  ⟨fun _ => h.enters, fun huser => absurd h.kernel huser, fun huser => absurd h.kernel huser,
    fun huser => absurd h.kernel huser⟩

/-- Cycles are charged after an exception. -/
theorem before (h : Entered p p') (hsame : SameMode p' p'') : Entered p p'' := by
  have hrs : p''.rs = p'.rs := congrFun hsame.cr crRs
  constructor
  · rw [hrs]
    exact h.kernel
  · rcases h.enters with ⟨heb, heb', hpc⟩ | ⟨exc, hvector⟩
    · refine Or.inl ⟨heb, ?_, hsame.pc.trans hpc⟩
      rw [hsame.cr]
      exact heb'
    · refine Or.inr ⟨exc, hvector.code, hsame.pc.trans hvector.pc, ?_⟩
      rw [hrs]
      exact hvector.pushed

/-- Registers may have been written before it. -/
theorem after {q : XrProcessor} (h : Entered p p') (hcr : p.cr = q.cr) : Entered q p' := by
  have hrs : p.rs = q.rs := congrFun hcr crRs
  refine ⟨h.kernel, ?_⟩
  rcases h.enters with ⟨heb, heb', hpc⟩ | ⟨exc, hvector⟩
  · exact Or.inl ⟨hcr ▸ heb, heb', hpc⟩
  · exact Or.inr ⟨exc, hvector.code, hcr ▸ hvector.pc, hrs ▸ hvector.pushed⟩

end Entered

/-! ## The exceptions -/

/-- The mode byte of before is the second one of RS, if the two agree bit by bit. -/
theorem pushed_byte {rs rs' : Word} (h : ∀ i, i < 8 → rs'.getLsbD (8 + i) = rs.getLsbD i) :
    (rs' >>> 8) &&& 0xFF = rs &&& 0xFF := by
  apply and_mask_eq 8 mask_byte
  intro i h8 _
  rw [BitVec.getLsbD_ushiftRight, h i h8]

theorem exceptedRs_pushed (rs exc : Word) : (xrExceptedRs rs exc >>> 8) &&& 0xFF = rs &&& 0xFF := by
  apply pushed_byte
  intro i h8
  rw [exceptedRs_bit rs exc (8 + i) (by omega), if_neg (by omega), if_neg (by omega),
    if_neg (by omega), Nat.add_sub_cancel_left]

theorem missedRs_pushed (rs : Word) : (xrMissedRs rs >>> 8) &&& 0xFF = rs &&& 0xFF := by
  apply pushed_byte
  intro i h8
  rw [missedRs_bit rs (8 + i) (by omega), if_neg (by omega), if_neg (by omega),
    Nat.add_sub_cancel_left]

section

variable {M : Type} [ResetMem M] {m m' : Machine M}

theorem entered_basic (heb : m.proc.cr crEb ≠ 0) {exc : Word} (hcode : exc ∈ xrExcCodes)
    (pc : Word) : Entered m.proc (xrBasicException m exc pc).proc := by
  have hv := xrBasicException_vectored (m := m) exc pc heb
  constructor
  · rw [hv.rs]
    exact exceptedRs_user m.proc.rs exc
  · refine Or.inr ⟨exc, hcode, hv.pc, ?_⟩
    rw [hv.rs]
    exact exceptedRs_pushed m.proc.rs exc

theorem entered_basic_at (heb : m.proc.cr crEb ≠ 0) (v : Word) {exc : Word}
    (hcode : exc ∈ xrExcCodes) (pc : Word) :
    Entered m.proc (xrBasicException (m.setCr crEbadaddr v) exc pc).proc := by
  have hset : ∀ i, i ≠ crEbadaddr → (m.setCr crEbadaddr v).proc.cr i = m.proc.cr i := by
    intro i hi
    rw [Machine.setCr_proc, XrProcessor.setCr_cr, Function.update_of_ne hi]
  have hrs : (m.setCr crEbadaddr v).proc.rs = m.proc.rs := hset crRs (by decide)
  have heb' : (m.setCr crEbadaddr v).proc.cr crEb = m.proc.cr crEb := hset crEb (by decide)
  have hv := xrBasicException_vectored (m := m.setCr crEbadaddr v) exc pc (heb' ▸ heb)
  constructor
  · rw [hv.rs]
    exact exceptedRs_user _ exc
  · refine Or.inr ⟨exc, hcode, ?_, ?_⟩
    · rw [hv.pc, ← heb']
      rfl
    · rw [hv.rs, hrs]
      exact exceptedRs_pushed m.proc.rs exc

/-- A miss that is the first one; its registers are neither RS nor EB. -/
theorem entered_miss (heb : m.proc.cr crEb ≠ 0) (htb : m.proc.rs &&& rsTbmiss = 0) {tag addr : Nat}
    (htag : crRs ≠ tag ∧ crEb ≠ tag) (haddr : crRs ≠ addr ∧ crEb ≠ addr) {exc : Word}
    (hcode : exc ∈ xrExcCodes) (virtual : Word) (writing : Bool) :
    Entered m.proc (tbMiss tag addr exc virtual writing m).proc := by
  let m₁ := noteMiss tag addr virtual writing m
  have hrs : m₁.proc.rs = m.proc.rs := by
    show Function.update (Function.update m.proc.cr tag _) addr _ crRs = m.proc.cr crRs
    rw [Function.update_of_ne haddr.1, Function.update_of_ne htag.1]
  have heb₁ : (xrSaveMiss m₁ virtual).proc.cr crEb = m.proc.cr crEb := by
    rw [xrSaveMiss_cr m₁ virtual (by decide), if_neg (by decide), if_neg (by decide)]
    show Function.update (Function.update m.proc.cr tag _) addr _ crEb = m.proc.cr crEb
    rw [Function.update_of_ne haddr.2, Function.update_of_ne htag.2]
  have hmiss : tbMiss tag addr exc virtual writing m =
      xrVectorException (xrSaveMiss m₁ virtual) exc := by
    unfold tbMiss
    exact if_pos (hrs ▸ htb)
  have hv := xrVectorException_vectored exc (heb₁ ▸ heb)
  have hrs' : (xrVectorException (xrSaveMiss m₁ virtual) exc).proc.rs = xrMissedRs m.proc.rs := by
    rw [hv.rs, xrSaveMiss_rs, hrs]
    rfl
  rw [hmiss]
  constructor
  · rw [hrs']
    exact missedRs_user m.proc.rs
  · refine Or.inr ⟨exc, hcode, ?_, ?_⟩
    · rw [hv.pc, heb₁]
    · rw [hrs']
      exact missedRs_pushed m.proc.rs

/-- Every exception of user mode enters the kernel. -/
theorem Raises.entered (h : Raises m m') (htb : m.proc.rs &&& rsTbmiss = 0) :
    Entered m.proc m'.proc := by
  by_cases heb : m.proc.cr crEb = 0
  · obtain ⟨m₁, exc, rfl, hprepared⟩ := h.vector
    have heb₁ : m₁.proc.cr crEb = 0 := (hprepared.cr crEb (by decide)).trans heb
    unfold xrVectorException
    rw [if_pos heb₁]
    refine ⟨?_, Or.inl ⟨heb, rfl, rfl⟩⟩
    show 0 &&& rsUser = 0
    decide
  · cases h with
    | plain exc pc code => exact entered_basic heb code pc
    | address v exc pc code => exact entered_basic_at heb v code pc
    | itbMiss virtual writing =>
        exact entered_miss heb htb (by decide) (by decide) (by decide) virtual writing
    | dtbMiss virtual writing =>
        exact entered_miss heb htb (by decide) (by decide) (by decide) virtual writing
    | page virtual writing =>
        rw [xrPageFault_basic htb]
        refine entered_basic_at heb virtual ?_ m.proc.pc
        cases writing <;> decide

end

/-! ## One instruction -/

section

variable {M : Type} [XrBuild M] {m m' m₁ : Machine M} {c c' : XrIblockCache} {i k : Nat}
  {inst : XrCachedInst} {exit : XrExit} {s s' : XrInterp M}

theorem Faulted.entered (h : Faulted m m') (htb : m.proc.rs &&& rsTbmiss = 0) :
    Entered m.proc m'.proc := by
  obtain ⟨m₁, htouched, hraises⟩ := h
  exact (hraises.entered (by rwa [htouched.rs])).after htouched.cr

/-- The instruction itself: it raises, or changes no more than registers. RFE, HLT and MTCR
are for the kernel. -/
theorem Ran.user (h : Ran m inst m₁ exit) (huser : m.proc.rs &&& rsUser ≠ 0)
    (htb : m.proc.rs &&& rsTbmiss = 0) :
    SameControl m.proc m₁.proc ∨
      (Entered m.proc m₁.proc ∧ (exit = .early ∨ exit = .trivial)) := by
  cases h with
  | step kind same regs pc => exact Or.inl same
  | shift kind same regs pc => exact Or.inl same
  | pause kind same regs pc => exact Or.inl same
  | @fault m₂ _ _ same regs raises leaves =>
      have hentered := raises.entered (by rwa [same.rs])
      exact Or.inr ⟨hentered.after same.cr, leaves⟩
  | rfe kind kernel => exact absurd kernel huser
  | hlt kind kernel halted => exact absurd kernel huser
  | mtcr kind kernel wrote => exact absurd kernel huser
  | follow kind same regs pc taken => exact Or.inl same
  | predict kind same regs aligned => exact Or.inl same

omit [XrBuild M] in
theorem charge_sameMode (m : Machine M) (cycles : Nat) : SameMode m.proc (m.charge cycles).proc :=
  ⟨rfl, rfl, rfl, rfl, rfl⟩

omit [XrBuild M] in
theorem dispatch_sameMode (m : Machine M) (c : XrIblockCache) (i j : Nat) :
    SameMode m.proc (xrDispatch m c i j).machine.proc :=
  ⟨rfl, rfl, rfl, rfl, rfl⟩

theorem SameMode.trans {p p' p'' : XrProcessor} (h : SameMode p p') (h' : SameMode p' p'') :
    SameMode p p'' :=
  ⟨h'.pc.trans h.pc, h'.cr.trans h.cr, h'.itb.trans h.itb, h'.dtb.trans h.dtb,
    h'.halted.trans h.halted⟩

/-- Still in user mode. -/
theorem UserConfined.stays {p p₁ p' : XrProcessor} (huser : p.rs &&& rsUser ≠ 0)
    (h : SameControl p p₁) (h' : SameMode p₁ p') : UserConfined p p' := by
  have hcr : p'.cr = p.cr := h'.cr.trans h.cr
  have hrs : p'.rs = p.rs := congrFun hcr crRs
  constructor
  · intro hkernel
    rw [hrs] at hkernel
    exact absurd hkernel huser
  · exact fun _ => hcr
  · exact fun _ => ⟨h'.itb.trans h.itb, h'.dtb.trans h.dtb⟩
  · exact fun _ => h'.halted.trans h.halted

/-- What follows the instruction, the fetch of the next block included. -/
theorem leaves_confined (hstands : StandsAt m c i k) (hreach : c.Reach)
    (hinst : (c.iblocks i).code.insts[k]? = some inst) (hran : Ran m inst m₁ exit)
    (hleaves : Leaves m₁ c i k exit s) (huser : m.proc.rs &&& rsUser ≠ 0)
    (htb : m.proc.rs &&& rsTbmiss = 0) : UserConfined m.proc s.machine.proc := by
  rcases hran.user huser htb with hsame | ⟨hentered, hexit⟩
  · have htb₁ : m₁.proc.rs &&& rsTbmiss = 0 := by rwa [hsame.rs]
    have hfaulted : ∀ {m₂}, Faulted m₁ m₂ → UserConfined m.proc (m₂.charge k).proc := by
      intro m₂ hf
      have hentered := (hf.entered htb₁).after hsame.cr
      exact (hentered.before (charge_sameMode m₂ k)).confined
    cases hleaves with
    | next => exact .stays huser hsame (Touched.refl _).sameMode
    | early => exact .stays huser hsame (charge_sameMode m₁ k)
    | flush drop => exact .stays huser hsame (charge_sameMode m₁ k)
    | trivial => exact .stays huser hsame (charge_sameMode m₁ _)
    | @cached _ j hit => exact .stays huser hsame (dispatch_sameMode m₁ c i j)
    | @decoded path j m₂ c₂ null decode =>
        have htouched := (decode_found hreach decode).touched
        exact .stays huser hsame (htouched.sameMode.trans (dispatch_sameMode m₂ _ i j))
    | faulted null decode => exact hfaulted (decode_fault decode).1
    | @predicted t j c₁ m₂ c₂ table miss decode =>
        have hreach₁ := (table.reach hreach hstands.active (StandsAt.jalr hinst hran)).1
        have htouched := (decode_found hreach₁ decode).touched
        exact .stays huser hsame (htouched.sameMode.trans (dispatch_sameMode m₂ _ i j))
    | unpredicted table miss decode => exact hfaulted (decode_fault decode).1
  · -- After an exception nothing is left but the charge.
    cases hleaves with
    | early => exact (hentered.before (charge_sameMode m₁ k)).confined
    | trivial => exact (hentered.before (charge_sameMode m₁ _)).confined
    | next => rcases hexit with he | he <;> cases he
    | flush drop => rcases hexit with he | he <;> cases he
    | cached hit => rcases hexit with rfl | rfl <;> cases hit
    | decoded null decode => rcases hexit with he | he <;> cases he
    | faulted null decode => rcases hexit with he | he <;> cases he
    | predicted table miss decode => rcases hexit with he | he <;> cases he
    | unpredicted table miss decode => rcases hexit with he | he <;> cases he

/-- For every run of either build, and whatever comes from outside before the instruction:
one that is called in user mode, and not in the handler of a TB miss. -/
theorem user_confined {P : XrInterp M → Prop} (hrun : XrInterp.Reach P s) (input : XrInput M)
    (hpoint : s.point = .inst i k) (hstep : s.next input = some s')
    (huser : (s.meets input).machine.proc.rs &&& rsUser ≠ 0)
    (htb : (s.meets input).machine.proc.rs &&& rsTbmiss = 0) :
    UserConfined (s.meets input).machine.proc s'.machine.proc := by
  have hplaced := hrun.placed.meets input
  obtain ⟨m, c, point⟩ := s
  obtain rfl : point = .inst i k := hpoint
  obtain ⟨inst, m₁, exit, hinst, hexec, hleaves⟩ := inst_step hstep
  exact leaves_confined (hplaced.stands i k rfl) hplaced.reach hinst (exec_ran hexec) hleaves
    huser htb

end

/-! ## A system call -/

/-- A boot ROM with these words where the processor starts. -/
def romOf (words : List Word) (k : Nat) : Byte := byteOf (words.getD (k / 4 - 1024) 0) (k % 4)

/-- A processor at the start of its boot ROM, with these control registers and ITB. -/
def atRom (words : List Word) (cr : Nat → Word) (itb : Nat → BitVec 64) :
    Machine (XrFastMem (XrStation Unit)) :=
  let mem := (stationMachine 0).mem
  ⟨{ (XrProcessor.zeroed 0).reset with cr := cr, itb := itb, dispatches := 1 },
    { mem with bus := { mem.bus with bootRom := romOf words } }⟩

/-- Its first call of `XrExecuteFast`, with this many steps after it. -/
def firstCall (m : Machine (XrFastMem (XrStation Unit))) : Nat → XrInterp (XrFastMem (XrStation Unit))
  | 0 => XrInterp.call (XrInterp.timeslice ⟨m, initialBlockCache, .noMore⟩) uneventful 20000
  | n + 1 => ((firstCall m n).next uneventful).getD (firstCall m n)

theorem firstCall_run {P : XrInterp (XrFastMem (XrStation Unit)) → Prop}
    {m : Machine (XrFastMem (XrStation Unit))} {n : Nat}
    (h : ∀ k, k < n → P ((firstCall m k).meets uneventful)) : XrInterp.Reach P (firstCall m n) := by
  induction n with
  | zero => exact .call uneventful 20000 (.timeslice (.start m initial_initialBlockCache) rfl) rfl
  | succ n ih =>
      have hrun := ih fun k hk => h k (Nat.lt_succ_of_lt hk)
      show XrInterp.Reach _ (((firstCall m n).next uneventful).getD (firstCall m n))
      cases hnext : (firstCall m n).next uneventful with
      | none => exact hrun
      | some s => exact .next uneventful hrun (h n (Nat.lt_succ_self n)) hnext

theorem firstCall_reach (m : Machine (XrFastMem (XrStation Unit))) (n : Nat) :
    XrInterp.Reach (fun _ => True) (firstCall m n) :=
  firstCall_run fun _ _ => trivial

/-- User mode with the exception base 0x1000, about to execute SYS. -/
def sysFromUser : Machine (XrFastMem (XrStation Unit)) :=
  atRom [0x31] (fun i => if i = crRs then rsUser else if i = crEb then 0x1000 else 0) fun _ => 0

set_option maxRecDepth 20000 in
theorem user_confined_sys :
    UserConfined ((firstCall sysFromUser 2).meets uneventful).machine.proc
      (firstCall sysFromUser 3).machine.proc := by
  have hpoint : (firstCall sysFromUser 2).point = .inst 2047 0 := rfl
  have hstep : (firstCall sysFromUser 2).next uneventful = some (firstCall sysFromUser 3) := rfl
  exact user_confined (firstCall_reach sysFromUser 2) uneventful hpoint hstep (by decide) (by decide)

end Xremu
