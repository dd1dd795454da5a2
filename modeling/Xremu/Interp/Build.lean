import Xremu.Machine.Bus
import Xremu.Machine.MemAccess
import Xremu.Machine.ModeStack
import Xremu.Machine.Translate

/-!
# What the interpreter asks of a build

The interpreter is the same text in both builds. What differs is behind the calls of
`XrBuild`: data accesses, instruction fetch, the cache control registers, and what a
decoded block remembers of data pages. Its laws say how far such a call reaches into
the processor record: one that succeeds touches lookup hints and `Progress`, one that
fails has taken an exception. An access that never returns (`abort()`) is `none`.
-/

namespace Xremu

/-! ## What a call leaves of the processor -/

/-- Only lookup hints and `Progress` have changed. -/
def Touched (p p' : XrProcessor) : Prop :=
  p' = { p with
    progress := p'.progress
    itbLastVpn := p'.itbLastVpn
    itbLastResult := p'.itbLastResult
    dtbLastVpn := p'.dtbLastVpn }

namespace Touched

variable {p p' p'' : XrProcessor}

theorem refl (p : XrProcessor) : Touched p p := rfl

theorem trans (h : Touched p p') (h' : Touched p' p'') : Touched p p'' := by
  unfold Touched at *
  rw [h] at h'
  exact h'

theorem reg (h : Touched p p') : p'.reg = p.reg := by rw [h]
theorem cr (h : Touched p p') : p'.cr = p.cr := by rw [h]
theorem rs (h : Touched p p') : p'.rs = p.rs := congrFun h.cr crRs
theorem pc (h : Touched p p') : p'.pc = p.pc := by rw [h]
theorem itb (h : Touched p p') : p'.itb = p.itb := by rw [h]
theorem dtb (h : Touched p p') : p'.dtb = p.dtb := by rw [h]
theorem id (h : Touched p p') : p'.id = p.id := by rw [h]
theorem halted (h : Touched p p') : p'.halted = p.halted := by rw [h]
theorem dispatches (h : Touched p p') : p'.dispatches = p.dispatches := by rw [h]
theorem cyclesDone (h : Touched p p') : p'.cyclesDone = p.cyclesDone := by rw [h]
theorem cyclesGoal (h : Touched p p') : p'.cyclesGoal = p.cyclesGoal := by rw [h]

end Touched

/-! ## What every exception leaves alone -/

/-- The registers (but for the fake zero register, which stays zero), the translation
buffers and the cycle budget. -/
structure Kept (p p' : XrProcessor) : Prop where
  id : p'.id = p.id
  itb : p'.itb = p.itb
  dtb : p'.dtb = p.dtb
  reg : ∀ r, r ≠ fakeZeroRegister → p'.reg r = p.reg r
  zero : p.reg fakeZeroRegister = 0 → p'.reg fakeZeroRegister = 0
  cyclesDone : p'.cyclesDone = p.cyclesDone
  cyclesGoal : p'.cyclesGoal = p.cyclesGoal

theorem Kept.refl (p : XrProcessor) : Kept p p :=
  ⟨rfl, rfl, rfl, fun _ _ => rfl, fun h => h, rfl, rfl⟩

theorem Kept.trans {p p' p'' : XrProcessor} (h : Kept p p') (h' : Kept p' p'') : Kept p p'' where
  id := h'.id.trans h.id
  itb := h'.itb.trans h.itb
  dtb := h'.dtb.trans h.dtb
  reg r hr := (h'.reg r hr).trans (h.reg r hr)
  zero hz := h'.zero (h.zero hz)
  cyclesDone := h'.cyclesDone.trans h.cyclesDone
  cyclesGoal := h'.cyclesGoal.trans h.cyclesGoal

theorem Touched.kept {p p' : XrProcessor} (h : Touched p p') : Kept p p' := by
  refine ⟨h.id, h.itb, h.dtb, fun r _ => congrFun h.reg r, fun hz => ?_, h.cyclesDone, h.cyclesGoal⟩
  rw [h.reg]
  exact hz

theorem kept_setCr (p : XrProcessor) (i : Nat) (v : Word) : Kept p (p.setCr i v) :=
  ⟨rfl, rfl, rfl, fun _ _ => rfl, fun h => h, rfl, rfl⟩

section

variable {M : Type}

theorem kept_ecause (m : Machine M) (exc : Word) : Kept m.proc (xrSetEcause m exc).proc :=
  kept_setCr m.proc _ _

theorem kept_push (m : Machine M) : Kept m.proc (xrPushMode m).proc := kept_setCr m.proc _ _

theorem kept_noteMiss (tag addr : Nat) (virtual : Word) (writing : Bool) (m : Machine M) :
    Kept m.proc (noteMiss tag addr virtual writing m).proc := by
  unfold noteMiss
  extract_lets m₁ m₂
  have h₁ : Kept m.proc m₁.proc := kept_setCr m.proc _ _
  have h₂ : Kept m₁.proc m₂.proc := kept_setCr m₁.proc _ _
  have h₃ : Kept m₂.proc { m₂.proc with lastTbMissWasWrite := writing } :=
    ⟨rfl, rfl, rfl, fun _ _ => rfl, fun h => h, rfl, rfl⟩
  exact (h₁.trans h₂).trans h₃

/-- The control registers that an exception writes before it vectors. -/
def preparedRegs : List Nat :=
  [crRs, crEpc, crEbadaddr, crTbmissaddr, crTbpc, crItbtag, crItbaddr, crDtbtag, crDtbaddr]

/-- Only control registers have been prepared for an exception. Those with an address
space still have it. -/
structure Prepared (m m₁ : Machine M) : Prop where
  proc : m₁.proc = { m.proc with
    cr := m₁.proc.cr
    lastTbMissWasWrite := m₁.proc.lastTbMissWasWrite }
  mem : m₁.mem = m.mem
  cr : ∀ i, i ∉ preparedRegs → m₁.proc.cr i = m.proc.cr i
  asid : ∀ i, i = crItbtag ∨ i = crDtbtag →
    m₁.proc.cr i &&& 0xFFF00000 = m.proc.cr i &&& 0xFFF00000

namespace Prepared

variable {m m₁ m₂ : Machine M}

theorem refl (m : Machine M) : Prepared m m := ⟨rfl, rfl, fun _ _ => rfl, fun _ _ => rfl⟩

theorem trans (h : Prepared m m₁) (h' : Prepared m₁ m₂) : Prepared m m₂ where
  proc := by
    have heq := h'.proc
    rw [h.proc] at heq
    exact heq
  mem := h'.mem.trans h.mem
  cr i hi := (h'.cr i hi).trans (h.cr i hi)
  asid i hi := (h'.asid i hi).trans (h.asid i hi)

/-- One of the registers is written; if it has an address space, with the same one. -/
theorem setCr {i : Nat} {v : Word} (hi : i ∈ preparedRegs)
    (hasid : i = crItbtag ∨ i = crDtbtag → v &&& 0xFFF00000 = m.proc.cr i &&& 0xFFF00000) :
    Prepared m (m.setCr i v) := by
  refine ⟨rfl, rfl, ?_, ?_⟩
  · intro j hj
    have hne : j ≠ i := by
      rintro rfl
      exact hj hi
    exact Function.update_of_ne hne v m.proc.cr
  · intro j hj
    by_cases hne : j = i
    · subst hne
      rw [Machine.setCr_proc, XrProcessor.setCr_cr, Function.update_self]
      exact hasid hj
    · rw [Machine.setCr_proc, XrProcessor.setCr_cr, Function.update_of_ne hne]

theorem noteMiss {tag addr : Nat} (htag : tag ∈ preparedRegs) (haddr : addr ∈ preparedRegs)
    (hplain : addr ≠ crItbtag ∧ addr ≠ crDtbtag) (virtual : Word) (writing : Bool) :
    Prepared m (Xremu.noteMiss tag addr virtual writing m) := by
  unfold Xremu.noteMiss
  extract_lets m₁ m₂
  have h₁ : Prepared m m₁ := setCr htag fun _ => tbMatching_asid _ virtual
  have h₂ : Prepared m₁ m₂ := by
    refine setCr haddr ?_
    rintro (h | h)
    · exact absurd h hplain.1
    · exact absurd h hplain.2
  exact (h₁.trans h₂).trans ⟨rfl, rfl, fun _ _ => rfl, fun _ _ => rfl⟩

end Prepared

end

/-! ## The exceptions -/

section

variable {M : Type} [ResetMem M]

/-- `XR_EXC_INT` and so on. -/
def xrExcCodes : List Word :=
  [excInt, excSys, excBus, excNmi, excBrk, excInv, excPrv, excUna, excPgf, excPgw, excItb, excDtb]

/-- The ways into an exception handler. -/
inductive Raises (m : Machine M) : Machine M → Prop
  | plain (exc pc : Word) (code : exc ∈ xrExcCodes) : Raises m (xrBasicException m exc pc)
  | address (v exc pc : Word) (code : exc ∈ xrExcCodes) :
      Raises m (xrBasicException (m.setCr crEbadaddr v) exc pc)
  | itbMiss (virtual : Word) (writing : Bool) :
      Raises m (tbMiss crItbtag crItbaddr excItb virtual writing m)
  | dtbMiss (virtual : Word) (writing : Bool) :
      Raises m (tbMiss crDtbtag crDtbaddr excDtb virtual writing m)
  | page (virtual : Word) (writing : Bool) : Raises m (xrPageFault m virtual writing)

/-- An exception was taken; lookup hints and `Progress` may have changed before it. -/
def Faulted (m m' : Machine M) : Prop := ∃ m₁, Touched m.proc m₁.proc ∧ Raises m₁ m'

/-- The exceptions of a data access, but for a TB miss. -/
def accessExcCodes : List Word := [excBus, excUna, excPgf, excPgw]

/-- The ways a data access raises an exception. Each reports the program counter. -/
inductive AccessRaises (m : Machine M) : Machine M → Prop
  | address (v exc : Word) (code : exc ∈ accessExcCodes) :
      AccessRaises m (xrBasicException (m.setCr crEbadaddr v) exc m.proc.pc)
  | page (virtual : Word) (writing : Bool) : AccessRaises m (xrPageFault m virtual writing)
  | miss (virtual : Word) (writing : Bool) :
      AccessRaises m (tbMiss crDtbtag crDtbaddr excDtb virtual writing m)

/-- A data access took an exception. -/
def AccessFaulted (m m' : Machine M) : Prop := ∃ m₁, Touched m.proc m₁.proc ∧ AccessRaises m₁ m'

theorem accessExcCodes_sub {exc : Word} (h : exc ∈ accessExcCodes) : exc ∈ xrExcCodes := by
  simp only [accessExcCodes, List.mem_cons, List.not_mem_nil, or_false] at h
  rcases h with rfl | rfl | rfl | rfl <;> simp [xrExcCodes]

theorem AccessRaises.raises {m m' : Machine M} (h : AccessRaises m m') : Raises m m' := by
  cases h with
  | address v exc code => exact .address v exc m.proc.pc (accessExcCodes_sub code)
  | page virtual writing => exact .page virtual writing
  | miss virtual writing => exact .dtbMiss virtual writing

theorem AccessFaulted.faulted {m m' : Machine M} (h : AccessFaulted m m') : Faulted m m' := by
  obtain ⟨m₁, htouched, hraises⟩ := h
  exact ⟨m₁, htouched, hraises.raises⟩

theorem AccessRaises.faulted {m m' : Machine M} (h : AccessRaises m m') : AccessFaulted m m' :=
  ⟨m, .refl _, h⟩

theorem AccessFaulted.of_touched {m m₁ m' : Machine M} (h : AccessFaulted m₁ m')
    (ht : Touched m.proc m₁.proc) : AccessFaulted m m' := by
  obtain ⟨m₂, htouched, hraises⟩ := h
  exact ⟨m₂, ht.trans htouched, hraises⟩

theorem XrTbeFault.accessRaises (f : XrTbeFault) (m : Machine M) (virtual : Word)
    (writing : Bool) : AccessRaises m (f.take m virtual writing) := by
  cases f with
  | notValid => exact .page virtual writing
  | protection =>
      refine .address virtual (excPage writing) ?_
      cases writing <;> decide

theorem XrTbeFault.raises (f : XrTbeFault) (m : Machine M) (virtual : Word) (writing : Bool) :
    Raises m (f.take m virtual writing) :=
  (f.accessRaises m virtual writing).raises

theorem kept_vector (m : Machine M) (exc : Word) : Kept m.proc (xrVectorException m exc).proc := by
  unfold xrVectorException
  split
  · refine ⟨XrProcessor.reset_id _, rfl, rfl, fun r hr => ?_, fun _ => ?_, rfl, rfl⟩
    · show Function.update m.proc.reg fakeZeroRegister 0 r = m.proc.reg r
      rw [Function.update_of_ne hr]
    · show Function.update m.proc.reg fakeZeroRegister 0 fakeZeroRegister = 0
      rw [Function.update_self]
  · exact ⟨rfl, rfl, rfl, fun _ _ => rfl, fun h => h, rfl, rfl⟩

theorem kept_basic (m : Machine M) (exc pc : Word) :
    Kept m.proc (xrBasicException m exc pc).proc := by
  unfold xrBasicException
  have hpc : Kept m.proc (m.setCr crEpc pc).proc := kept_setCr m.proc crEpc pc
  exact ((hpc.trans (kept_push _)).trans (kept_ecause _ exc)).trans (kept_vector _ exc)

theorem kept_tbMiss (tag addr : Nat) (exc virtual : Word) (writing : Bool) (m : Machine M) :
    Kept m.proc (tbMiss tag addr exc virtual writing m).proc := by
  unfold tbMiss
  extract_lets m₁ m₂ m₃
  have h₁ : Kept m.proc m₁.proc := kept_noteMiss tag addr virtual writing m
  split
  · have h₂ : Kept m₁.proc m₂.proc := (kept_push m₁).trans (kept_setCr _ _ _)
    have h₃ : Kept m₂.proc m₃.proc := kept_setCr _ _ _
    have hrs : Kept m₃.proc (m₃.setCr crRs (m₃.proc.rs ||| rsTbmiss)).proc := kept_setCr _ _ _
    exact (((h₁.trans h₂).trans h₃).trans hrs).trans (kept_vector _ exc)
  · exact h₁.trans (kept_vector _ exc)

theorem kept_pageFault (m : Machine M) (virtual : Word) (writing : Bool) :
    Kept m.proc (xrPageFault m virtual writing).proc := by
  unfold xrPageFault
  split
  · extract_lets m₁ m₂ m₃ exc
    have h₁ : Kept m.proc m₁.proc := kept_setCr _ _ _
    have h₂ : Kept m₁.proc m₂.proc := kept_setCr _ _ _
    have h₃ : Kept m₂.proc m₃.proc := kept_setCr _ _ _
    exact (((h₁.trans h₂).trans h₃).trans (kept_ecause m₃ exc)).trans (kept_vector _ exc)
  · extract_lets m₁ m₂
    have h₁ : Kept m.proc m₁.proc := kept_setCr _ _ _
    have h₂ : Kept m₁.proc m₂.proc := (kept_setCr m₁.proc crEpc m₁.proc.pc).trans
      (kept_push (m₁.setCr crEpc m₁.proc.pc))
    exact ((h₁.trans h₂).trans (kept_ecause m₂ _)).trans (kept_vector _ _)

theorem Raises.kept {m m' : Machine M} (h : Raises m m') : Kept m.proc m'.proc := by
  cases h with
  | plain exc pc => exact kept_basic m exc pc
  | address v exc pc =>
      exact (kept_setCr m.proc crEbadaddr v).trans (kept_basic (m.setCr crEbadaddr v) exc pc)
  | itbMiss virtual writing => exact kept_tbMiss _ _ _ virtual writing m
  | dtbMiss virtual writing => exact kept_tbMiss _ _ _ virtual writing m
  | page virtual writing => exact kept_pageFault m virtual writing

/-- Every exception ends in `XrVectorException`. -/
theorem Raises.vector {m m' : Machine M} (h : Raises m m') :
    ∃ m₁ exc, m' = xrVectorException m₁ exc ∧ Prepared m m₁ := by
  have hset : ∀ (m : Machine M) (i : Nat) (v : Word), i ∈ preparedRegs →
      ¬(i = crItbtag ∨ i = crDtbtag) → Prepared m (m.setCr i v) :=
    fun m i v hi hplain => .setCr hi fun h => absurd h hplain
  have hrs : ∀ (m : Machine M) (v : Word), Prepared m (m.setCr crRs v) :=
    fun m v => hset m crRs v (by decide) (by decide)
  have hepc : ∀ (m : Machine M) (v : Word), Prepared m (m.setCr crEpc v) :=
    fun m v => hset m crEpc v (by decide) (by decide)
  have hbadaddr : ∀ (m : Machine M) (v : Word), Prepared m (m.setCr crEbadaddr v) :=
    fun m v => hset m crEbadaddr v (by decide) (by decide)
  have hbasic : ∀ (m : Machine M) (exc pc : Word),
      Prepared m (xrSetEcause (xrPushMode (m.setCr crEpc pc)) exc) :=
    fun m exc pc => ((hepc m pc).trans (hrs _ _)).trans (hrs _ _)
  have hmiss : ∀ tag addr exc virtual writing, tag ∈ preparedRegs → addr ∈ preparedRegs →
      addr ≠ crItbtag ∧ addr ≠ crDtbtag →
      ∃ m₁ exc', tbMiss tag addr exc virtual writing m = xrVectorException m₁ exc' ∧
        Prepared m m₁ := by
    intro tag addr exc virtual writing htag haddr hplain
    have hnote : Prepared m (noteMiss tag addr virtual writing m) := .noteMiss htag haddr hplain _ _
    unfold tbMiss
    extract_lets m₁ m₂ m₃
    split
    · have h₂ : Prepared m₁ m₂ := (hrs m₁ _).trans (hset _ crTbmissaddr _ (by decide) (by decide))
      have h₃ : Prepared m₂ m₃ := hset _ crTbpc _ (by decide) (by decide)
      exact ⟨_, exc, rfl, ((hnote.trans h₂).trans h₃).trans (hrs m₃ _)⟩
    · exact ⟨_, exc, rfl, hnote⟩
  cases h with
  | plain exc pc code => exact ⟨_, exc, rfl, hbasic m exc pc⟩
  | address v exc pc code => exact ⟨_, exc, rfl, (hbadaddr m v).trans (hbasic _ exc pc)⟩
  | itbMiss virtual writing =>
      exact hmiss _ _ _ virtual writing (by decide) (by decide) (by decide)
  | dtbMiss virtual writing =>
      exact hmiss _ _ _ virtual writing (by decide) (by decide) (by decide)
  | page virtual writing =>
      unfold xrPageFault
      split
      · exact ⟨_, _, rfl, (((hbadaddr m _).trans (hepc _ _)).trans (hrs _ _)).trans (hrs _ _)⟩
      · exact ⟨_, _, rfl, (((hbadaddr m _).trans (hepc _ _)).trans (hrs _ _)).trans (hrs _ _)⟩

/-- Unless the processor is reset, an exception leaves the memory system alone. -/
theorem Raises.mem {m m' : Machine M} (h : Raises m m') (heb : m.proc.cr crEb ≠ 0) :
    m'.mem = m.mem := by
  obtain ⟨m₁, exc, rfl, hprepared⟩ := h.vector
  have heb₁ : m₁.proc.cr crEb ≠ 0 := by
    rw [hprepared.cr crEb (by decide)]
    exact heb
  unfold xrVectorException
  rw [if_neg heb₁]
  exact hprepared.mem

theorem Raises.excepts {m m' : Machine M} (h : Raises m m') :
    Excepted m m' := by
  obtain ⟨m₁, exc, rfl, hprepared⟩ := h.vector
  refine excepted_vector ?_ hprepared.mem ?_ exc
  · rw [hprepared.proc]
  · rw [hprepared.proc]

theorem Faulted.kept {m m' : Machine M} (h : Faulted m m') : Kept m.proc m'.proc := by
  obtain ⟨m₁, htouched, hraises⟩ := h
  exact htouched.kept.trans hraises.kept

theorem Raises.faulted {m m' : Machine M} (h : Raises m m') : Faulted m m' := ⟨m, .refl _, h⟩

theorem Faulted.of_touched {m m₁ m' : Machine M} (h : Faulted m₁ m')
    (ht : Touched m.proc m₁.proc) : Faulted m m' := by
  obtain ⟨m₂, htouched, hraises⟩ := h
  exact ⟨m₂, ht.trans htouched, hraises⟩

end

/-! ## The interface -/

/-- What `XrDecodeInstructions` has fetched: the words from the program counter on, and
the low bits of the TB entry (0 with the MMU off). -/
structure XrFetched where
  words : List Word
  flags : BitVec 64

/-- `instcount`: `XR_IBLOCK_INSTS` from `fetchpc` on, or what is left of the page of `pc`. -/
def xrInstCount (pc fetchpc : Word) : Nat :=
  if (fetchpc + 127) &&& 0xFFFFF000 ≠ pc &&& 0xFFFFF000 then
    ((((pc + 0x1000) &&& 0xFFFFF000) - fetchpc) >>> 2).toNat
  else 32

theorem mask_page : ∀ i, i < 32 → (0xFFFFF000 : Word).getLsbD i = decide (12 ≤ i) := by
  decide

theorem mask_line : ∀ i, i < 32 → (0xFFFFFFF0 : Word).getLsbD i = decide (4 ≤ i) := by
  decide

/-- A fetch ends after 32 words, or with its page. -/
theorem xrInstCount_eq {pc fetchpc : Word} (h : fetchpc.toNat / 4096 = pc.toNat / 4096) :
    xrInstCount pc fetchpc = min 32 ((4096 - fetchpc.toNat % 4096) / 4) := by
  have hpc := pc.isLt
  have hfetch := fetchpc.isLt
  have hend : ((fetchpc + 127) &&& 0xFFFFF000).toNat =
      (fetchpc.toNat + 127) % 2 ^ 32 / 4096 * 4096 := by
    rw [toNat_and_highMask mask_page]
    rfl
  have hpage : (pc &&& 0xFFFFF000).toNat = pc.toNat / 4096 * 4096 := toNat_and_highMask mask_page pc
  have hnext : ((pc + 0x1000) &&& 0xFFFFF000).toNat = (pc.toNat + 4096) % 2 ^ 32 / 4096 * 4096 := by
    rw [toNat_and_highMask mask_page]
    rfl
  unfold xrInstCount
  by_cases hcross : (fetchpc + 127) &&& 0xFFFFF000 ≠ pc &&& 0xFFFFF000
  · have hne : (fetchpc.toNat + 127) % 2 ^ 32 / 4096 * 4096 ≠ pc.toNat / 4096 * 4096 := by
      rw [← hend, ← hpage]
      exact fun heq => hcross (BitVec.eq_of_toNat_eq heq)
    rw [if_pos hcross, BitVec.toNat_ushiftRight, BitVec.toNat_sub, hnext,
      Nat.shiftRight_eq_div_pow]
    omega
  · have heq : (fetchpc.toNat + 127) % 2 ^ 32 / 4096 * 4096 = pc.toNat / 4096 * 4096 := by
      rw [← hend, ← hpage, not_not.mp hcross]
    rw [if_neg hcross]
    omega

class XrBuild (M : Type) extends ResetMem M where
  /-- `XrAccess`; in the fast build `XrAccessRead` or `XrAccessWrite` of a block. -/
  access : Machine M → (block : Nat) → XrMemReq → Option (XrResult × Machine M)
  /-- The part of `XrDecodeInstructions` from the translation to the fetched words. -/
  fetch : Machine M → Option (Option XrFetched × Machine M)
  flushWriteBuffer : Machine M → Machine M
  /-- What MTCR of this value to ICACHECTRL does to the simulated Icache. -/
  icachectrl : Word → Machine M → Machine M
  /-- What MTCR of this value to DCACHECTRL does to the simulated Dcache. -/
  dcachectrl : Word → Machine M → Machine M
  /-- The write buffer empties by itself, at the start of `XrCheckConditions`. -/
  drain : Machine M → Machine M
  /-- A new block remembers no data pages. -/
  emptyDtbCache : (block : Nat) → Machine M → Machine M
  access_done : ∀ {m m' block r res}, access m block r = some (res, m') → res.1 ≠ .fault →
    Touched m.proc m'.proc
  access_fault : ∀ {m m' block r v}, access m block r = some ((.fault, v), m') → Faulted m m'
  fetch_done : ∀ {m m' f}, fetch m = some (some f, m') → Touched m.proc m'.proc
  fetch_kernel : ∀ {m m' f}, fetch m = some (some f, m') → f.flags &&& pteKernel ≠ 0 →
    m.proc.rs &&& rsUser = 0
  fetch_fault : ∀ {m m'}, fetch m = some (none, m') → Faulted m m'
  flushWriteBuffer_touched : ∀ m, Touched m.proc (flushWriteBuffer m).proc
  icachectrl_touched : ∀ value m, Touched m.proc (icachectrl value m).proc
  dcachectrl_touched : ∀ value m, Touched m.proc (dcachectrl value m).proc
  drain_touched : ∀ m, Touched m.proc (drain m).proc
  emptyDtbCache_proc : ∀ block m, (emptyDtbCache block m).proc = m.proc

end Xremu
