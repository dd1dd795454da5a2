import Xremu.Machine.Processor

/-!
# Translation buffers

The parts of address translation that both builds share: the scan of a
translation buffer from index 0, the miss exception, and what is checked of the
entry found (`XrLookupItb`, `XrLookupDtb`, `XrPageFault`). How a build remembers
earlier lookups is its own (`Cached/Access.lean`, `Fast/Access.lean`).

A found entry is its index, which serves as the pointer `XrLookupDtb` returns in
the fast build and as the value `*tbe` in both.
-/

namespace Xremu

/-- `virtual >> 12`. -/
def vpnOf (virtual : Word) : Word := virtual >>> 12

/-- The address space of `tag` with the page number of an address: `matching`. -/
def tbMatching (tag virtual : Word) : Word := (tag &&& 0xFFF00000) ||| vpnOf virtual

theorem mask_asid : ∀ i, i < 32 → (0xFFF00000 : Word).getLsbD i = decide (20 ≤ i) := by
  decide

/-- The page number has no bits of the address space. -/
theorem vpnOf_bit (virtual : Word) {i : Nat} (hi : 20 ≤ i) : (vpnOf virtual).getLsbD i = false := by
  unfold vpnOf
  rw [BitVec.getLsbD_ushiftRight]
  exact BitVec.getLsbD_of_ge virtual (12 + i) (by omega)

theorem tbMatching_asid (tag virtual : Word) :
    tbMatching tag virtual &&& 0xFFF00000 = tag &&& 0xFFF00000 := by
  apply BitVec.eq_of_getLsbD_eq
  intro i hi
  unfold tbMatching
  simp only [BitVec.getLsbD_and, BitVec.getLsbD_or, mask_asid i hi]
  by_cases h20 : 20 ≤ i
  · simp [vpnOf_bit virtual h20]
  · simp [h20]

/-- Does a translation buffer entry match? A global one matches in every address space. -/
def tbMatches (tbe : BitVec 64) (matching : Word) : Bool :=
  let mask : BitVec 64 := if tbe &&& pteGlobal != 0 then 0xFFFFF else 0xFFFFFFFF
  (tbe >>> 32) &&& mask == matching.setWidth 64 &&& mask

/-- The first matching entry. -/
def tbScan (tb : Nat → BitVec 64) (matching : Word) : Option Nat :=
  (List.range xrTbSize).find? fun i => tbMatches (tb i) matching

section

variable {M : Type}

/-- What a miss leaves in the registers. `tag` and `addr` are the control registers
of the translation buffer. -/
def noteMiss (tag addr : Nat) (virtual : Word) (writing : Bool) (m : Machine M) : Machine M :=
  let m := m.setCr tag (tbMatching (m.proc.cr tag) virtual)
  let m := m.setCr addr ((m.proc.cr addr &&& 0xFFC00000) ||| (vpnOf virtual <<< 2))
  { m with proc := { m.proc with lastTbMissWasWrite := writing } }

@[simp] theorem noteMiss_id (tag addr : Nat) (virtual : Word) (writing : Bool) (m : Machine M) :
    (noteMiss tag addr virtual writing m).proc.id = m.proc.id := by
  simp [noteMiss]

@[simp] theorem noteMiss_dtbHint (tag addr : Nat) (virtual : Word) (writing : Bool)
    (m : Machine M) : (noteMiss tag addr virtual writing m).proc.dtbLastVpn = m.proc.dtbLastVpn := by
  simp [noteMiss]

@[simp] theorem noteMiss_mem (tag addr : Nat) (virtual : Word) (writing : Bool) (m : Machine M) :
    (noteMiss tag addr virtual writing m).mem = m.mem := by
  simp [noteMiss]

variable [ResetMem M]

/-- "ITB miss!", "DTB miss!": the exception of a lookup that found nothing. -/
def tbMiss (tag addr : Nat) (exc virtual : Word) (writing : Bool) (m : Machine M) : Machine M :=
  let m := noteMiss tag addr virtual writing m
  if m.proc.rs &&& rsTbmiss = 0 then
    let m := (xrPushMode m).setCr crTbmissaddr virtual
    let m := m.setCr crTbpc m.proc.pc
    xrVectorException (m.setCr crRs (m.proc.rs ||| rsTbmiss)) exc
  else
    xrVectorException m exc

def xrLookupItb (m : Machine M) (virtual : Word) : Option Nat × Machine M :=
  match tbScan m.proc.itb (tbMatching (m.proc.cr crItbtag) virtual) with
  | some i => (some i, m)
  | none => (none, tbMiss crItbtag crItbaddr excItb virtual false m)

def xrLookupDtb (m : Machine M) (virtual : Word) (writing : Bool) : Option Nat × Machine M :=
  match tbScan m.proc.dtb (tbMatching (m.proc.cr crDtbtag) virtual) with
  | some i => (some i, m)
  | none => (none, tbMiss crDtbtag crDtbaddr excDtb virtual writing m)

/-- `writing ? XR_EXC_PGW : XR_EXC_PGF`. -/
def excPage (writing : Bool) : Word := if writing then excPgw else excPgf

def xrPageFault (m : Machine M) (virtual : Word) (writing : Bool) : Machine M :=
  if m.proc.rs &&& rsTbmiss ≠ 0 then
    -- A fault on a page table: report the address and the PC of the original miss.
    let m := m.setCr crEbadaddr (m.proc.cr crTbmissaddr)
    let m := m.setCr crEpc (m.proc.cr crTbpc)
    let m := m.setCr crRs (m.proc.rs &&& ~~~rsTbmiss)
    let exc := excPage m.proc.lastTbMissWasWrite
    xrVectorException (xrSetEcause m exc) exc
  else
    let m := m.setCr crEbadaddr virtual
    let m := xrPushMode (m.setCr crEpc m.proc.pc)
    xrVectorException (xrSetEcause m (excPage writing)) (excPage writing)

/-- The exception of a page that is there but may not be used this way. -/
def xrProtectionFault (m : Machine M) (virtual : Word) (writing : Bool) : Machine M :=
  let m := m.setCr crEbadaddr virtual
  xrBasicException m (excPage writing) m.proc.pc

/-- What can be wrong with the entry of a page. -/
inductive XrTbeFault where
  | notValid
  | protection
deriving DecidableEq

/-- The checks of the entry, in their order: valid, kernel page from user mode,
write to a page that is not writable. -/
def tbeFault (p : XrProcessor) (tbe : BitVec 64) (writing : Bool) : Option XrTbeFault :=
  if tbe &&& pteValid = 0 then some .notValid
  else if tbe &&& pteKernel ≠ 0 ∧ p.rs &&& rsUser ≠ 0 then some .protection
  else if writing = true ∧ tbe &&& pteWritable = 0 then some .protection
  else none

def XrTbeFault.take (f : XrTbeFault) (m : Machine M) (virtual : Word) (writing : Bool) :
    Machine M :=
  match f with
  | .notValid => xrPageFault m virtual writing
  | .protection => xrProtectionFault m virtual writing

/-- The physical address of `virtual` in the page of an entry. -/
def physOf (tbe : BitVec 64) (virtual : Word) : Word :=
  (((tbe &&& 0x1FFFFE0) <<< 7) + (virtual &&& 0xFFF).setWidth 64).setWidth 32

/-! ## What the exceptions reach -/

/-- An exception leaves the memory system alone, or resets its own part of it, and
only ever forgets a lookup. -/
structure Excepted (m m' : Machine M) : Prop where
  id : m'.proc.id = m.proc.id
  mem : m'.mem = m.mem ∨ m'.mem = ResetMem.resetMem m.proc.id m.mem
  dtbHint : m'.proc.dtbLastVpn = m.proc.dtbLastVpn ∨ m'.proc.dtbLastVpn = -1

/-- An exception taken after the registers were prepared for it. -/
theorem excepted_vector {m m₁ : Machine M} (hid : m₁.proc.id = m.proc.id) (hmem : m₁.mem = m.mem)
    (hhint : m₁.proc.dtbLastVpn = m.proc.dtbLastVpn) (exc : Word) :
    Excepted m (xrVectorException m₁ exc) := by
  refine ⟨by rw [xrVectorException_id, hid], ?_, ?_⟩
  · rw [xrVectorException_mem, hid, hmem]
    split
    · exact Or.inr rfl
    · exact Or.inl rfl
  · unfold xrVectorException
    split
    · exact Or.inr rfl
    · exact Or.inl hhint

theorem excepted_basic {m m₁ : Machine M} (hid : m₁.proc.id = m.proc.id) (hmem : m₁.mem = m.mem)
    (hhint : m₁.proc.dtbLastVpn = m.proc.dtbLastVpn) (exc pc : Word) :
    Excepted m (xrBasicException m₁ exc pc) :=
  excepted_vector (by simp [hid]) (by simp [hmem]) (by simp [hhint]) exc

theorem excepted_tbMiss (tag addr : Nat) (exc virtual : Word) (writing : Bool) (m : Machine M) :
    Excepted m (tbMiss tag addr exc virtual writing m) := by
  unfold tbMiss
  extract_lets m₁ m₂ m₃
  have hid : m₁.proc.id = m.proc.id := noteMiss_id tag addr virtual writing m
  have hmem : m₁.mem = m.mem := noteMiss_mem tag addr virtual writing m
  have hhint : m₁.proc.dtbLastVpn = m.proc.dtbLastVpn := noteMiss_dtbHint tag addr virtual writing m
  split
  · exact excepted_vector (by simp [m₃, m₂, hid]) (by simp [m₃, m₂, hmem])
      (by simp [m₃, m₂, hhint]) exc
  · exact excepted_vector hid hmem hhint exc

theorem excepted_take (f : XrTbeFault) (m : Machine M) (virtual : Word) (writing : Bool) :
    Excepted m (f.take m virtual writing) := by
  cases f with
  | notValid =>
      simp only [XrTbeFault.take, xrPageFault]
      split
      · refine excepted_vector ?_ ?_ ?_ _
        · simp
        · simp
        · simp
      · refine excepted_vector ?_ ?_ ?_ _
        · simp
        · simp
        · simp
  | protection =>
      simp only [XrTbeFault.take, xrProtectionFault]
      refine excepted_basic ?_ ?_ ?_ _ _
      · simp
      · simp
      · simp

end

/-! ## A page that passes the checks -/

theorem tbeFault_none {p : XrProcessor} {tbe : BitVec 64} {writing : Bool}
    (h : tbeFault p tbe writing = none) :
    tbe &&& pteValid ≠ 0 ∧ ¬(tbe &&& pteKernel ≠ 0 ∧ p.rs &&& rsUser ≠ 0) := by
  unfold tbeFault at h
  split at h
  · cases h
  · next hvalid =>
      split at h
      · cases h
      · next huser => exact ⟨hvalid, huser⟩

/-- The flags of a page that was translated: a kernel page was asked for by the kernel. -/
theorem tbeFault_kernel {p : XrProcessor} {tbe : BitVec 64} {writing : Bool}
    (h : tbeFault p tbe writing = none) (hk : tbe &&& 31 &&& pteKernel ≠ 0) : p.rs &&& rsUser = 0 := by
  have hkernel : tbe &&& pteKernel ≠ 0 := by
    rw [BitVec.and_assoc] at hk
    exact hk
  by_contra huser
  exact (tbeFault_none h).2 ⟨hkernel, huser⟩

end Xremu
