import Xremu.Cached.CacheRuns

/-!
# Invalidation by page frame

A write to ICACHECTRL or DCACHECTRL whose low bits are 2 is to throw the lines of one page
frame out of the processor's cache. The code scans only the indices that the lines of the
page frame can have, and reduces the upper end of the scan modulo the number of sets. A
page frame takes up a quarter of the sets; for the one that takes up the last quarter the
upper end comes out as 0, nothing is scanned, and its lines stay.
-/

namespace Xremu

open Concurrency XrCachedSys

/-- The page frame of a line or a register value. -/
def pageFrame (address : Nat) : Nat := address / 4096 * 4096

/-- From one set of states and tags to another the lines of `page`, and only they, have
become invalid. -/
structure PageInvalidated (page : Nat) (flags : Nat → XrLine) (tags : Nat → Nat)
    (flags' : Nat → XrLine) (tags' : Nat → Nat) : Prop where
  gone : ∀ i, flags' i ≠ .invalid → pageFrame (tags' i) ≠ page
  kept : ∀ i, flags i ≠ .invalid → pageFrame (tags i) ≠ page →
    flags' i ≠ .invalid ∧ tags' i = tags i

/-- What ICACHECTRL is to do with the Icache of `p`. -/
def IcPageInvalidated (p : Nat) (value : Word) (s s' : XrCachedSys LineRam) : Prop :=
  PageInvalidated (pageFrame value.toNat) (s.cache p).icFlags (s.cache p).icTags
    (s'.cache p).icFlags (s'.cache p).icTags

/-- What DCACHECTRL is to do with the Dcache of `p`, whose write buffer goes to RAM before. -/
structure DcPageInvalidated (p : Nat) (value : Word) (s s' : XrCachedSys LineRam) : Prop where
  lines : PageInvalidated (pageFrame value.toNat) (s.cache p).dcFlags (s.cache p).dcTags
    (s'.cache p).dcFlags (s'.cache p).dcTags
  empty : ∀ w, (s'.cache p).wbIndices w = none
  written : ∀ w i, (s.cache p).wbIndices w = some i → ∀ k, k < 16 →
    s'.mem.bus.bytes ((s.cache p).dcTags i + k) = (s.cache p).dc i k

/-- The page frame is not the last of its four, or there is nothing of it to throw out. -/
def Scanned (value : Word) (flags : Nat → XrLine) (tags : Nat → Nat) : Prop :=
  (value >>> 12).toNat % 4 ≠ 3 ∨ ∀ i, flags i ≠ .invalid → pageFrame (tags i) ≠ pageFrame value.toNat

/-! ## The scan -/

/-- The indices from the first line of the page frame to the first line of the next, both
reduced modulo the number of sets. -/
def scanRange (value : Word) (i : Nat) : Prop :=
  2 * ((value &&& 0xFFFFF000).toNat / 16 % 1024) ≤ i ∧
    i < 2 * (((value &&& 0xFFFFF000) + 4096).toNat / 16 % 1024)

theorem pageMask_toNat (value : Word) : (value &&& 0xFFFFF000).toNat = pageFrame value.toNat :=
  toNat_and_highMask (k := 12) (by decide) value

/-- The scan is right for three page frames of four, and empty for the last. -/
theorem scanRange_iff (value : Word) (i : Nat) :
    scanRange value i ↔
      (value >>> 12).toNat % 4 ≠ 3 ∧ i / 2 / 256 = (value >>> 12).toNat % 4 := by
  have hphys := pageMask_toNat value
  have hframe : (value >>> 12).toNat = value.toNat / 4096 := by
    rw [BitVec.toNat_ushiftRight, Nat.shiftRight_eq_div_pow]
  have hlt := value.isLt
  have hsum : ((value &&& 0xFFFFF000) + 4096).toNat = (pageFrame value.toNat + 4096) % 2 ^ 32 := by
    rw [BitVec.toNat_add, hphys]
    rfl
  unfold scanRange
  rw [hphys, hsum, hframe]
  unfold pageFrame
  constructor
  · intro h
    omega
  · rintro ⟨hne, hquarter⟩
    omega

/-- Invalidating what the scan finds, when every valid line sits in its set. -/
theorem scan_iff {value : Word} {flags : Nat → XrLine} {tags : Nat → Nat} {lines : Nat → Bool}
    (hlines : ∀ i, lines i = true ↔ scanRange value i ∧ pageFrame (tags i) = pageFrame value.toNat)
    (hplaced : ∀ i, flags i ≠ .invalid → tags i / 16 % 1024 = i / 2) :
    PageInvalidated (pageFrame value.toNat) flags tags
        (fun i => if lines i then .invalid else flags i) tags ↔
      Scanned value flags tags := by
  have hframe : (value >>> 12).toNat = value.toNat / 4096 := by
    rw [BitVec.toNat_ushiftRight, Nat.shiftRight_eq_div_pow]
  constructor
  · rintro ⟨hgone, -⟩
    by_cases hlast : (value >>> 12).toNat % 4 = 3
    · right
      intro i hi
      refine hgone i ?_
      rw [if_neg]
      · exact hi
      · intro hscan
        exact ((scanRange_iff value i).mp ((hlines i).mp hscan).1).1 hlast
    · exact .inl hlast
  · intro hscanned
    refine ⟨fun i hi hpage => ?_, fun i hi hpage => ?_⟩
    · by_cases hscan : lines i = true
      · rw [if_pos hscan] at hi
        exact hi rfl
      rw [if_neg hscan] at hi
      rcases hscanned with hquarter | hnone
      -- A valid line of the page frame lies in the quarter that is scanned.
      · have hset := hplaced i hi
        refine hscan ((hlines i).mpr ⟨(scanRange_iff value i).mpr ⟨hquarter, ?_⟩, hpage⟩)
        unfold pageFrame at hpage
        omega
      · exact hnone i hi hpage
    · refine ⟨?_, rfl⟩
      rw [if_neg]
      · exact hi
      · exact fun hscan => hpage ((hlines i).mp hscan).2

/-! ## The registers -/

section

variable {s : XrCachedSys LineRam} {value : Word}

theorem icachectrlLines_iff (hv : value &&& 3 = 2) (c : XrCache) (i : Nat) :
    icachectrlLines value c i = true ↔
      scanRange value i ∧ pageFrame (c.icTags i) = pageFrame value.toNat := by
  have hne : ¬value &&& 3 = 3 := by
    rw [hv]
    decide
  rw [icachectrlLines, if_neg hne, if_pos hv]
  simp only [Bool.and_eq_true, decide_eq_true_eq, beq_iff_eq, scanRange, pageMask_toNat]
  exact Iff.rfl

theorem dcachectrlLines_iff (hv : value &&& 3 = 2) (c : XrCache) (i : Nat) :
    dcachectrlLines value c i = true ↔
      scanRange value i ∧ pageFrame (c.dcTags i) = pageFrame value.toNat := by
  have hne : ¬value &&& 3 = 3 := by
    rw [hv]
    decide
  rw [dcachectrlLines, if_neg hne, if_pos hv]
  simp only [Bool.and_eq_true, decide_eq_true_eq, beq_iff_eq, scanRange, pageMask_toNat]
  exact Iff.rfl

/-- ICACHECTRL does what it is to do when the scan is right. -/
theorem mtcrIcachectrl_iff (h : CacheRunInv s) (hv : value &&& 3 = 2) (p : Nat) :
    IcPageInvalidated p value s (s.setMachine p (mtcrIcachectrl value (s.machine p))) ↔
      Scanned value (s.cache p).icFlags (s.cache p).icTags := by
  have hid : (s.machine p).proc.id = p := h.inv.plant.ids p
  rw [mtcrIcachectrl, setMachine_onIcache hid, setMachine_self]
  unfold IcPageInvalidated
  rw [cache_onCache, if_pos rfl]
  exact scan_iff (icachectrlLines_iff hv _) (h.icache p)

/-- The write buffer is always written out; the lines are as for ICACHECTRL. -/
theorem mtcrDcachectrl_iff (h : CacheRunInv s) (hv : value &&& 3 = 2) (p : Nat) :
    DcPageInvalidated p value s ((mtcrDcachectrl p value).run s).2 ↔
      Scanned value (s.cache p).dcFlags (s.cache p).dcTags := by
  obtain ⟨hsinks, hempty, hflags⟩ := run_xrFlushWriteBuffer (p := p) h.inv
  have hdrains := drains_xrFlushWriteBuffer p h.inv
  simp only [mtcrDcachectrl, Prog.run_bind, Prog.run_modify]
  generalize ((xrFlushWriteBuffer p).run s).2 = t at hsinks hempty hflags hdrains
  have hf : (t.cache p).dcFlags = (s.cache p).dcFlags := congrFun hflags p
  have ht : (t.cache p).dcTags = (s.cache p).dcTags := congrFun hsinks.falls.tags p
  have hplaced : ∀ i, (s.cache p).dcFlags i ≠ .invalid →
      (s.cache p).dcTags i / 16 % 1024 = i / 2 :=
    fun i hi => (h.inv.lines.placed (p := p) (i := i) ⟨hi, rfl⟩).1
  have hscan := scan_iff (dcachectrlLines_iff hv (t.cache p)) (hf ▸ ht ▸ hplaced)
  rw [hf, ht] at hscan
  constructor
  · intro hinv
    have hlines := hinv.lines
    rw [cache_onCache, if_pos rfl] at hlines
    simp only [XrCache.invalidate, hf, ht] at hlines
    exact hscan.mp hlines
  · intro hscanned
    refine ⟨?_, fun w => ?_, fun w i hw k hk => ?_⟩
    · rw [cache_onCache, if_pos rfl]
      simp only [XrCache.invalidate, hf, ht]
      exact hscan.mpr hscanned
    · rw [cache_onCache, if_pos rfl]
      exact hempty w
    · refine hdrains.out (q := p) (w := w) hw ?_ k hk
      rw [hempty w]
      simp

end

/-! ## Every run -/

/-- In every state of every run from `s₀`, the two registers invalidate the page frame
exactly when it is not the last of its four, or has no line in the cache. -/
structure PageInvalidation (s₀ : XrCachedSys LineRam) : Prop where
  icache : ∀ {s p value}, CacheReach s₀ s → value &&& 3 = 2 →
    (IcPageInvalidated p value s (s.setMachine p (mtcrIcachectrl value (s.machine p))) ↔
      Scanned value (s.cache p).icFlags (s.cache p).icTags)
  dcache : ∀ {s p value}, CacheReach s₀ s → value &&& 3 = 2 →
    (DcPageInvalidated p value s ((mtcrDcachectrl p value).run s).2 ↔
      Scanned value (s.cache p).dcFlags (s.cache p).dcTags)

theorem page_invalidated_iff (n : Nat) (ram : LineRam) : PageInvalidation (cold n ram) where
  icache h hv := mtcrIcachectrl_iff h.inv hv _
  dcache h hv := mtcrDcachectrl_iff h.inv hv _

/-- Processor 0 fetches and loads from page frame 3, then writes 0x3002 to either register:
its lines are still there. -/
theorem fourth_page_stays :
    (¬∀ s p value, CacheReach (cold 1 LineRam.zeroed) s → value &&& 3 = 2 →
      IcPageInvalidated p value s (s.setMachine p (mtcrIcachectrl value (s.machine p)))) ∧
    (¬∀ s p value, CacheReach (cold 1 LineRam.zeroed) s → value &&& 3 = 2 →
      DcPageInvalidated p value s ((mtcrDcachectrl p value).run s).2) := by
  refine ⟨fun hall => ?_, fun hall => ?_⟩
  · let s := (cold 1 LineRam.zeroed).setMachine 0 (xrIcacheAccess 0x3000 ((cold 1 LineRam.zeroed).machine 0)).2
    have hgone := (hall s 0 0x3002 (.single (.fetch 0 0x3000)) (by decide)).gone 1536
    exact hgone (by decide) (by decide)
  · let load : XrAccessReq := ⟨0x3000, true, 0, 4, false⟩
    have hload : ((xrDcacheAccess 0 load none).run (cold 1 LineRam.zeroed)).1 = .inr (.done, some 0) := by
      decide
    have hp : (cold 1 LineRam.zeroed).mem.present 0 = true ∧ 0 < xrProcMax := by decide
    have hreach : CacheReach (cold 1 LineRam.zeroed) _ :=
      .single (.op (o := .access 0 load) ⟨hp, by decide, by decide⟩ (XrMemOp.exec_access hload))
    have hgone := (hall _ 0 0x3002 hreach (by decide)).lines.gone 1536
    exact hgone (by decide) (by decide)

end Xremu
