import Xremu.Cached.LookupHint
import Xremu.Interp.MemoryRuns
import Xremu.Interp.Placed

/-!
# Flushing a translation buffer

MTCR to ITBCTRL or DTBCTRL invalidates one page in a translation buffer, or all entries,
or all but the reserved ones and perhaps the global ones. What else is remembered of the
pages it names has to go with them: the lookup hint, and for the ITB the blocks of the
pages and every pointer to one. The blocks of a single page are found through the tracker
of the page. In the other modes all blocks are dropped.

An invalid entry has the page number 0 and the address space 4095, so page 0 is the one
of which a buffer may still hold an entry after it was flushed: that one.
-/

namespace Xremu

open XrIblockCache XrTb

/-- A write of `value` to ITBCTRL or DTBCTRL is about the page of `virtual`. -/
def TbctrlNames (value virtual : Word) : Prop := value &&& 3 = 0 → vpnOf virtual = value >>> 12

/-- The ways the interpreter comes to a block. -/
inductive XrIblockCache.Leads (c : XrIblockCache) (j : Nat) : Prop
  | lookup (pc asid : Word) (found : c.xrLookupIblock pc asid = some j)
  | path {i : Nat} (path : XrPath) (active : c.Active i)
      (cached : (c.iblocks i).cachedPaths path = .iblock j)
  | table {i t k : Nat} (path : XrPath) (active : c.Active i)
      (owned : (c.iblocks i).cachedPaths path = .ptable t) (entry : k < 8)
      (cached : (c.ptables t).iblocks k = .iblock j)

/-- A translation buffer and its hint after such a write. -/
structure TbFlushed (value : Word) (entries : Nat → BitVec 64) (hint : Word) : Prop where
  hint : ∀ virtual, TbctrlNames value virtual → hint ≠ vpnOf virtual
  entries : value &&& 3 = 0 → ∀ i, i < xrTbSize → vpnField (entries i) = value >>> 12 →
    entries i = tbInvalidEntry

/-! ## The buffer -/

/-- All entries of the page are invalidated with it, whatever their address space. -/
theorem invalidates_of_vpn {value : Word} {i : Nat} {tbe : BitVec 64} (hmode : value &&& 3 = 0)
    (hi : i < xrTbSize) (h : vpnField tbe = value >>> 12) : tbInvalidates value i tbe = true := by
  unfold tbInvalidates
  rw [hmode, if_neg (by decide), if_neg (by decide), if_neg (by decide), decide_eq_true hi,
    Bool.true_and]
  show (tbe &&& (0x000FFFFF00000000 : BitVec 64) == (value >>> 12).setWidth 64 <<< 32) = true
  rw [beq_iff_eq]
  apply BitVec.eq_of_getLsbD_eq
  intro k hk
  rw [BitVec.getLsbD_and, mask_vpnField k hk, BitVec.getLsbD_shiftLeft, BitVec.getLsbD_setWidth,
    BitVec.getLsbD_ushiftRight]
  by_cases hlow : k < 32
  · simp [hlow, Nat.not_le_of_lt hlow]
  have hfield := congrArg (fun v : Word => v.getLsbD (k - 32)) h
  unfold vpnField at hfield
  simp only [BitVec.getLsbD_and, BitVec.getLsbD_setWidth, BitVec.getLsbD_ushiftRight,
    mask_low20 (k - 32) (by omega)] at hfield
  have hback : 32 + (k - 32) = k := by omega
  have hwidth : k - 32 < 32 := by omega
  have hlong : k - 32 < 64 := by omega
  rw [hback] at hfield
  rw [← hfield]
  by_cases hvpn : k < 52
  · have hvpn' : k - 32 < 20 := by omega
    simp [hk, hlow, hvpn, hvpn', hwidth, hlong, Nat.le_of_not_lt hlow]
  · have hvpn' : ¬k - 32 < 20 := by omega
    simp [hvpn, hvpn']

theorem tbFlushed_tbctrl (value : Word) (tb : Nat → BitVec 64) (hint : Word) :
    TbFlushed value (tbctrl value tb) (tbctrlHint value hint) where
  hint := by
    intro virtual hnames heq
    unfold tbctrlHint at heq
    by_cases hmode : value &&& 3 = 0
    · rw [if_pos hmode] at heq
      split at heq
      · exact dropped_ne virtual heq
      · next hother => exact hother (heq.trans (hnames hmode))
    · rw [if_neg hmode] at heq
      exact dropped_ne virtual heq
  entries := by
    intro hmode i hi hvpn
    unfold tbctrl at hvpn ⊢
    by_cases hinv : tbInvalidates value i (tb i) = true
    · exact if_pos hinv
    · rw [if_neg hinv] at hvpn
      exact absurd (invalidates_of_vpn hmode hi hvpn) hinv

/-! ## The blocks -/

section

variable {c c' : XrIblockCache} {value : Word}

theorem leads_active (h : Inv c) {j : Nat} (hleads : c.Leads j) : c.Active j := by
  cases hleads with
  | lookup pc asid found => exact (lookup_some h.indexed found).1
  | @path i path active cached => exact (h.pointers (.path i path) j active cached).active
  | @table i t k path active owned entry cached =>
      obtain ⟨rfl, hp⟩ := h.tables.plain i path t active owned
      exact (h.pointers (.table t k) j ⟨entry, i, active, hp, owned⟩ cached).active

/-- Addresses with one page number are in one page. -/
theorem pageOf_of_vpnOf {pc : Word} (h : vpnOf pc = value >>> 12) :
    pageOf pc = value &&& 0xFFFFF000 := by
  unfold pageOf
  apply BitVec.eq_of_getLsbD_eq
  intro i hi
  rw [BitVec.getLsbD_and, BitVec.getLsbD_and, mask_page i hi]
  by_cases hpage : 12 ≤ i
  · have hbit := congrArg (fun v : Word => v.getLsbD (i - 12)) h
    unfold vpnOf at hbit
    simp only [BitVec.getLsbD_ushiftRight, Nat.add_sub_cancel' hpage] at hbit
    rw [hbit]
  · simp [hpage]

/-- What MTCR to ITBCTRL drops of the block cache. -/
theorem drop_flushes (h : Inv c) (value : Word) :
    ∃ c', c.drop (if value &&& 3 = 0 then some (value &&& 0xFFFFF000) else none) = some c' ∧
      ∀ j, c'.Leads j → ¬TbctrlNames value (c'.iblocks j).pc := by
  by_cases hmode : value &&& 3 = 0
  · rw [if_pos hmode]
    obtain ⟨c', hrun, hinv, hshrunk⟩ := xrInvalidateIblockCacheByVpn_ok h (value &&& 0xFFFFF000)
    refine ⟨c', hrun, fun j hleads hnames => ?_⟩
    obtain ⟨_, hkept⟩ := (hshrunk.active j).mp (leads_active hinv hleads)
    rw [hshrunk.iblock j] at hnames
    exact hkept (pageOf_of_vpnOf (hnames hmode))
  · rw [if_neg hmode]
    obtain ⟨c', hrun, hinv, hnone⟩ := xrInvalidateIblockCache_ok h
    exact ⟨c', hrun, fun j hleads _ => hnone j (leads_active hinv hleads)⟩

end

/-! ## The instruction -/

section

variable {M : Type} [XrBuild M]

/-- MTCR of `value` to control register `rb` is the next instruction, in kernel mode. -/
def XrInterp.AtMtcr (s : XrInterp M) (rb : Nat) (value : Word) : Prop :=
  s.machine.proc.rs &&& rsUser = 0 ∧ ∃ i k inst, s.point = .inst i k ∧
    (s.cache.iblocks i).code.insts[k]? = some inst ∧ inst.func = .mtcr ∧ inst.imm8_2 = rb ∧
    s.machine.reg inst.imm8_1 = value

/-- After MTCR of `value` to ITBCTRL. -/
structure ItbFlushed (value : Word) (s : XrInterp M) : Prop where
  buffer : TbFlushed value s.machine.proc.itb s.machine.proc.itbLastVpn
  blocks : ∀ j, s.cache.Leads j → ¬TbctrlNames value (s.cache.iblocks j).pc

/-- After MTCR of `value` to DTBCTRL. -/
structure DtbFlushed (value : Word) (s : XrInterp M) : Prop where
  buffer : TbFlushed value s.machine.proc.dtb s.machine.proc.dtbLastVpn

variable {s : XrInterp M} {rb : Nat} {value : Word}

theorem XrInterp.RunsIn.placed {E : Machine M → Machine M → Prop} {m₀ : Machine M}
    (hE : ∀ {m m'}, E m m' → Outside m m') (h : XrInterp.RunsIn E m₀ s) : s.Placed := by
  have hidle : ∀ {s : XrInterp M}, s.cache.Reach → s.point = .noMore → s.Placed := by
    intro s hreach hpoint
    exact placed_outside hreach fun i k hinst => by cases hpoint.symm.trans hinst
  induction h with
  | start initial => exact hidle (.start initial) rfl
  | timeslice h idle ih => exact hidle ih.reach idle
  | call pending cycles h idle ih =>
      exact placed_outside ih.reach fun i k => xrExecuteFast_point pending cycles _ i k
  | step pending h step ih => exact ih.step step
  | meanwhile h acts ih => exact ih.outside (hE acts)

theorem XrInterp.AtMtcr.steps (h : s.AtMtcr rb value) (pending : Bool) :
    ∃ i k, s.step pending =
      (mtcrKernel s.machine rb value).bind fun out => xrLeave out.1 s.cache i k out.2 := by
  obtain ⟨hkernel, i, k, ⟨func, imm32, imm8, imm8'⟩, hpoint, hinst, rfl, rfl, rfl⟩ := h
  refine ⟨i, k, ?_⟩
  unfold XrInterp.step xrInst
  rw [hpoint]
  simp only [hinst]
  have hexec : XrCachedInst.exec ⟨.mtcr, imm32, imm8, imm8'⟩ s.machine i =
      mtcrKernel s.machine imm8' (s.machine.reg imm8) := by
    show xrExecuteMtcr s.machine i _ = _
    exact if_neg (not_not_intro hkernel)
  rw [hexec]
  cases mtcrKernel s.machine imm8' (s.machine.reg imm8) with
  | none => rfl
  | some out => rfl

theorem step_itbctrl (hs : s.Placed) (h : s.AtMtcr crItbctrl value) (pending : Bool) :
    ∃ s', s.step pending = some s' ∧ ItbFlushed value s' := by
  obtain ⟨i, k, hstep⟩ := h.steps pending
  obtain ⟨c', hdrop, hblocks⟩ := drop_flushes (inv_reach hs.reach) value
  let m : Machine M := { s.machine with proc := xrMtcr s.machine.proc crItbctrl value }
  have hmtcr : mtcrKernel s.machine crItbctrl value = some (m.setPc (m.proc.pc + 4),
      .flush (if value &&& 3 = 0 then some (value &&& 0xFFFFF000) else none)) := rfl
  refine ⟨⟨(m.setPc (m.proc.pc + 4)).charge k, c', .check⟩, ?_, ?_, hblocks⟩
  · rw [hstep, hmtcr]
    show (s.cache.drop _).map _ = _
    rw [hdrop]
    rfl
  · exact tbFlushed_tbctrl value s.machine.proc.itb s.machine.proc.itbLastVpn

theorem step_dtbctrl (h : s.AtMtcr crDtbctrl value) (pending : Bool) :
    ∃ s', s.step pending = some s' ∧ DtbFlushed value s' := by
  obtain ⟨i, k, hstep⟩ := h.steps pending
  let m : Machine M := { s.machine with proc := xrMtcr s.machine.proc crDtbctrl value }
  have hmtcr : mtcrKernel s.machine crDtbctrl value = some (m.setPc (m.proc.pc + 4), .next) := rfl
  refine ⟨⟨m.setPc (m.proc.pc + 4), s.cache, .inst i (k + 1)⟩, ?_, ?_⟩
  · rw [hstep, hmtcr]
    rfl
  · exact ⟨tbFlushed_tbctrl value s.machine.proc.dtb s.machine.proc.dtbLastVpn⟩

end

end Xremu
