import Xremu.Machine.Processor

/-!
# Writes to control registers

What `XrExecuteMtcr` does to the processor record: the translation buffers, their
lookup hints and indices, and the plain control registers. Both translation
buffers are served by the same text, so it is written once with the buffer as an
argument. What else some of these writes do (to the caches, to the decoded blocks)
belongs to the instruction, not to the record.

The return from an exception is at the end.
-/

namespace Xremu

/-- Does a write of `value` to ITBCTRL or DTBCTRL invalidate entry `i`? -/
def tbInvalidates (value : Word) (i : Nat) (tbe : BitVec 64) : Bool :=
  if value &&& 3 = 3 then decide (i < xrTbSize)
  else if value &&& 3 = 2 then decide (4 ≤ i ∧ i < xrTbSize) && tbe &&& pteGlobal == 0
  else if value &&& 3 = 1 then decide (4 ≤ i ∧ i < xrTbSize)
  else
    decide (i < xrTbSize) &&
      tbe &&& 0x000FFFFF00000000 == (value >>> 12).setWidth 64 <<< 32

def tbctrl (value : Word) (tb : Nat → BitVec 64) : Nat → BitVec 64 := fun i =>
  if tbInvalidates value i (tb i) then tbInvalidEntry else tb i

/-- The lookup hint after a write to ITBCTRL or DTBCTRL: only the write that
invalidates a single page may keep it. -/
def tbctrlHint (value hint : Word) : Word :=
  if value &&& 3 = 0 then if hint = value >>> 12 then -1 else hint else -1

/-- `((uint64_t)(tag) << 32) | value`. -/
def tbEntry (tag value : Word) : BitVec 64 := (tag.setWidth 64 <<< 32) ||| value.setWidth 64

/-- The next index to write, rolling over to index four. -/
def nextTbIndex (index : Word) : Word :=
  if index + 1 = BitVec.ofNat 32 xrTbSize then 4 else index + 1

/-- The record after MTCR of `value` to control register `rb`. -/
def xrMtcr (p : XrProcessor) (rb : Nat) (value : Word) : XrProcessor :=
  let p := { p with nmiMaskCounter := nmiMaskCycles }
  if rb = crIcachectrl ∨ rb = crDcachectrl then p
  else if rb = crItbctrl then
    { p with itb := tbctrl value p.itb, itbLastVpn := tbctrlHint value p.itbLastVpn }
  else if rb = crDtbctrl then
    { p with dtb := tbctrl value p.dtb, dtbLastVpn := tbctrlHint value p.dtbLastVpn }
  else if rb = crItbpte then
    { p with
      itb := Function.update p.itb (p.cr crItbindex).toNat (tbEntry (p.cr crItbtag) value)
      cr := Function.update p.cr crItbindex (nextTbIndex (p.cr crItbindex)) }
  else if rb = crDtbpte then
    { p with
      dtb := Function.update p.dtb (p.cr crDtbindex).toNat (tbEntry (p.cr crDtbtag) value)
      cr := Function.update p.cr crDtbindex (nextTbIndex (p.cr crDtbindex)) }
  else if rb = crItbindex ∨ rb = crDtbindex then
    p.setCr rb (value &&& (BitVec.ofNat 32 xrTbSize - 1))
  else if rb = crDtbtag then { p.setCr rb value with dtbLastVpn := -1 }
  else if rb = crItbtag then { p.setCr rb value with itbLastVpn := -1 }
  else p.setCr rb value

/-- What a write to a control register leaves alone. -/
structure CrWritten (p p' : XrProcessor) : Prop where
  id : p'.id = p.id
  reg : p'.reg = p.reg
  pc : p'.pc = p.pc
  dtbHint : p'.dtbLastVpn = p.dtbLastVpn ∨ p'.dtbLastVpn = -1

theorem tbctrlHint_cases (value hint : Word) :
    tbctrlHint value hint = hint ∨ tbctrlHint value hint = -1 := by
  unfold tbctrlHint
  split
  · split
    · exact Or.inr rfl
    · exact Or.inl rfl
  · exact Or.inr rfl

theorem xrMtcr_written (p : XrProcessor) (rb : Nat) (value : Word) :
    CrWritten p (xrMtcr p rb value) := by
  unfold xrMtcr
  extract_lets q
  have hq : CrWritten p q := ⟨rfl, rfl, rfl, Or.inl rfl⟩
  -- The writes that touch the DTB hint are DTBCTRL and DTBTAG.
  split
  · exact hq
  split
  · exact ⟨hq.id, hq.reg, hq.pc, hq.dtbHint⟩
  split
  · refine ⟨hq.id, hq.reg, hq.pc, ?_⟩
    exact tbctrlHint_cases value p.dtbLastVpn
  split
  · exact ⟨hq.id, hq.reg, hq.pc, hq.dtbHint⟩
  split
  · exact ⟨hq.id, hq.reg, hq.pc, hq.dtbHint⟩
  split
  · exact ⟨hq.id, hq.reg, hq.pc, hq.dtbHint⟩
  split
  · exact ⟨hq.id, hq.reg, hq.pc, Or.inr rfl⟩
  split
  · exact ⟨hq.id, hq.reg, hq.pc, hq.dtbHint⟩
  · exact ⟨hq.id, hq.reg, hq.pc, hq.dtbHint⟩

/-! ## RFE -/

section

variable {M : Type} [ResetMem M]

/-- RS with the mode stack popped. -/
def xrPoppedRs (rs : Word) : Word := (rs &&& (0xF0000000 : Word)) ||| ((rs >>> 8) &&& (0xFFFF : Word))

/-- `XrExecuteRfe`, without the exit of the block. -/
def xrRfe (m : Machine M) : Machine M :=
  let m := { m with proc := { m.proc with locked := false } }
  if m.proc.rs &&& rsUser ≠ 0 then xrBasicException m excPrv m.proc.pc
  else
    let pc := if m.proc.rs &&& rsTbmiss ≠ 0 then m.proc.cr crTbpc else m.proc.cr crEpc
    { m with proc := { m.proc.setCr crRs (xrPoppedRs m.proc.rs) with pc := pc } }

theorem xrRfe_kernel {m : Machine M} (h : m.proc.rs &&& rsUser = 0) :
    xrRfe m =
      { m with
        proc :=
          { ({ m.proc with locked := false } : XrProcessor).setCr crRs (xrPoppedRs m.proc.rs) with
            pc := if m.proc.rs &&& rsTbmiss ≠ 0 then m.proc.cr crTbpc else m.proc.cr crEpc } } := by
  unfold xrRfe
  exact if_neg (not_not_intro h)

end

end Xremu
