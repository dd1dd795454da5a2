import Xremu.Machine.ModeStack
import Xremu.Machine.Translate

/-!
# Nested exceptions

A TB miss taken while RS_TBMISS is clear pushes the mode stack and saves its address
and PC in registers of its own; one taken while RS_TBMISS is set, by the handler of
the first, only vectors. `MissRun` follows such misses to their end, which is an RFE
or a page fault on a page table. `InMiss` is what holds all along: RS is that of the
first miss, since vectoring again changes nothing, and only the kind of the last
access is the latest one's.
-/

namespace Xremu

/-! ## One exception -/

section Runs

variable {M : Type}

/-- What an access does with the page: `writing` and `ifetch`. -/
inductive XrAccessKind where
  | fetch
  | read
  | write
deriving DecidableEq

namespace XrAccessKind

def writing (k : XrAccessKind) : Bool := decide (k = .write)

/-- The control registers of the translation buffer that is searched. -/
def tag (k : XrAccessKind) : Nat := if k = .fetch then crItbtag else crDtbtag

def addr (k : XrAccessKind) : Nat := if k = .fetch then crItbaddr else crDtbaddr

def missExc (k : XrAccessKind) : Word := if k = .fetch then excItb else excDtb

end XrAccessKind

theorem noteMiss_cr (k : XrAccessKind) (virtual : Word) (m : Machine M) {i : Nat}
    (hi : i ∉ [crItbtag, crItbaddr, crDtbtag, crDtbaddr]) :
    (noteMiss k.tag k.addr virtual k.writing m).proc.cr i = m.proc.cr i := by
  simp only [List.mem_cons, List.not_mem_nil, or_false, not_or] at hi
  obtain ⟨h1, h2, h3, h4⟩ := hi
  cases k <;> simp [noteMiss, XrAccessKind.tag, XrAccessKind.addr, h1, h2, h3, h4]

theorem noteMiss_rs (k : XrAccessKind) (virtual : Word) (m : Machine M) :
    (noteMiss k.tag k.addr virtual k.writing m).proc.rs = m.proc.rs :=
  noteMiss_cr k virtual m (by decide)

/-- What the first miss does between noting its page and vectoring. -/
def xrSaveMiss (m : Machine M) (virtual : Word) : Machine M :=
  let m := (xrPushMode m).setCr crTbmissaddr virtual
  let m := m.setCr crTbpc m.proc.pc
  m.setCr crRs (m.proc.rs ||| rsTbmiss)

theorem xrSaveMiss_rs (m : Machine M) (virtual : Word) :
    (xrSaveMiss m virtual).proc.rs = xrPushedRs m.proc.rs ||| rsTbmiss := by
  simp [xrSaveMiss, XrProcessor.rs, xrPushMode, xrPushedRs]

theorem xrSaveMiss_cr (m : Machine M) (virtual : Word) {i : Nat} (hi : i ≠ crRs) :
    (xrSaveMiss m virtual).proc.cr i =
      if i = crTbpc then m.proc.pc else if i = crTbmissaddr then virtual else m.proc.cr i := by
  simp only [xrSaveMiss, xrPushMode, Machine.setCr_proc, XrProcessor.setCr_cr,
    XrProcessor.setCr_pc, Function.update_apply, if_neg hi]

/-- The control registers `regs` are left alone. -/
def KeepsCr (regs : List Nat) (m m' : Machine M) : Prop :=
  ∀ i ∈ regs, m'.proc.cr i = m.proc.cr i

/-- The registers that remember the first miss, and those that vector. -/
def missRegs : List Nat := [crRs, crEb, crTbpc, crTbmissaddr]

/-- The state in the handler of a miss. -/
structure InMiss (m : Machine M) (a : Word) (last : XrAccessKind) (m' : Machine M) : Prop where
  rs : m'.proc.rs = xrMissedRs m.proc.rs
  eb : m'.proc.cr crEb = m.proc.cr crEb
  tbpc : m'.proc.cr crTbpc = m.proc.pc
  tbmissaddr : m'.proc.cr crTbmissaddr = a
  lastWrite : m'.proc.lastTbMissWasWrite = last.writing

theorem InMiss.handler {m m' m₂ : Machine M} {a : Word} {last : XrAccessKind} (h : InMiss m a last m')
    (hkeep : ∀ i ∈ missRegs, m₂.proc.cr i = m'.proc.cr i)
    (hlast : m₂.proc.lastTbMissWasWrite = m'.proc.lastTbMissWasWrite) : InMiss m a last m₂ := by
  constructor
  · exact (hkeep crRs (by decide)).trans h.rs
  · exact (hkeep crEb (by decide)).trans h.eb
  · exact (hkeep crTbpc (by decide)).trans h.tbpc
  · exact (hkeep crTbmissaddr (by decide)).trans h.tbmissaddr
  · exact hlast.trans h.lastWrite

variable [ResetMem M]

/-- The lookup an access makes in its translation buffer. -/
def xrLookupTb (k : XrAccessKind) (m : Machine M) (virtual : Word) : Option Nat × Machine M :=
  match k with
  | .fetch => xrLookupItb m virtual
  | .read => xrLookupDtb m virtual false
  | .write => xrLookupDtb m virtual true

theorem xrLookupTb_miss {k : XrAccessKind} {m : Machine M} {virtual : Word}
    (h : (xrLookupTb k m virtual).1 = none) :
    (xrLookupTb k m virtual).2 = tbMiss k.tag k.addr k.missExc virtual k.writing m := by
  cases k with
  | fetch =>
      simp only [xrLookupTb, xrLookupItb] at h ⊢
      split at h
      · cases h
      · rfl
  | read =>
      simp only [xrLookupTb, xrLookupDtb] at h ⊢
      split at h
      · cases h
      · rfl
  | write =>
      simp only [xrLookupTb, xrLookupDtb] at h ⊢
      split at h
      · cases h
      · rfl

/-- The state after an exception, as a record: the vector, RS, and what the other
control registers hold. -/
structure Vectored (m : Machine M) (exc rs : Word) (m' : Machine M) : Prop where
  pc : m'.proc.pc = m.proc.cr crEb ||| (exc <<< 8)
  rs : m'.proc.rs = rs
  cr : ∀ i, i ≠ crRs → m'.proc.cr i = m.proc.cr i
  lastWrite : m'.proc.lastTbMissWasWrite = m.proc.lastTbMissWasWrite

theorem xrVectorException_vectored {m : Machine M} (exc : Word) (heb : m.proc.cr crEb ≠ 0) :
    Vectored m exc (xrVectoredRs m.proc.rs) (xrVectorException m exc) := by
  unfold xrVectorException
  rw [if_neg heb]
  constructor
  · rfl
  · exact Function.update_self crRs (xrVectoredRs m.proc.rs) m.proc.cr
  · intro i hi
    exact Function.update_of_ne hi (xrVectoredRs m.proc.rs) m.proc.cr
  · rfl

theorem xrBasicException_vectored {m : Machine M} (exc pc : Word) (heb : m.proc.cr crEb ≠ 0) :
    Vectored (m.setCr crEpc pc) exc (xrExceptedRs m.proc.rs exc) (xrBasicException m exc pc) := by
  have heb' : (xrSetEcause (xrPushMode (m.setCr crEpc pc)) exc).proc.cr crEb ≠ 0 := heb
  have h := xrVectorException_vectored exc heb'
  constructor
  · exact h.pc
  · exact h.rs
  · intro i hi
    rw [xrBasicException, h.cr i hi]
    simp [xrSetEcause, xrPushMode, hi]
  · exact h.lastWrite

/-- The registers after a miss of `k` at `virtual`. Only the first miss saves its
address and PC. -/
structure Missed (m : Machine M) (k : XrAccessKind) (virtual : Word) (m' : Machine M) : Prop where
  rs : m'.proc.rs =
    if m.proc.rs &&& rsTbmiss = 0 then xrMissedRs m.proc.rs else xrVectoredRs m.proc.rs
  tbmissaddr : m'.proc.cr crTbmissaddr =
    if m.proc.rs &&& rsTbmiss = 0 then virtual else m.proc.cr crTbmissaddr
  tbpc : m'.proc.cr crTbpc = if m.proc.rs &&& rsTbmiss = 0 then m.proc.pc else m.proc.cr crTbpc
  cr : ∀ i, i ∉ [crRs, crTbmissaddr, crTbpc, crItbtag, crItbaddr, crDtbtag, crDtbaddr] →
    m'.proc.cr i = m.proc.cr i
  lastWrite : m'.proc.lastTbMissWasWrite = k.writing

theorem tbMiss_first {k : XrAccessKind} {virtual : Word} {m : Machine M}
    (h : m.proc.rs &&& rsTbmiss = 0) :
    tbMiss k.tag k.addr k.missExc virtual k.writing m =
      xrVectorException (xrSaveMiss (noteMiss k.tag k.addr virtual k.writing m) virtual)
        k.missExc := by
  have hrs := noteMiss_rs k virtual m
  rw [← hrs] at h
  unfold tbMiss
  exact if_pos h

theorem tbMiss_nested {k : XrAccessKind} {virtual : Word} {m : Machine M}
    (h : m.proc.rs &&& rsTbmiss ≠ 0) :
    tbMiss k.tag k.addr k.missExc virtual k.writing m =
      xrVectorException (noteMiss k.tag k.addr virtual k.writing m) k.missExc := by
  have hrs := noteMiss_rs k virtual m
  rw [← hrs] at h
  unfold tbMiss
  exact if_neg h

omit [ResetMem M] in
theorem eb_saveMiss (k : XrAccessKind) (virtual : Word) (m : Machine M) :
    (xrSaveMiss (noteMiss k.tag k.addr virtual k.writing m) virtual).proc.cr crEb =
      m.proc.cr crEb := by
  rw [xrSaveMiss_cr _ virtual (by decide), if_neg (by decide), if_neg (by decide)]
  exact noteMiss_cr k virtual m (by decide)

/-- The first miss vectors to the handler of its translation buffer. -/
theorem tbMiss_pc {k : XrAccessKind} {virtual : Word} {m : Machine M} (heb : m.proc.cr crEb ≠ 0)
    (h : m.proc.rs &&& rsTbmiss = 0) :
    (tbMiss k.tag k.addr k.missExc virtual k.writing m).proc.pc =
      m.proc.cr crEb ||| (k.missExc <<< 8) := by
  have hsaved := eb_saveMiss k virtual m
  rw [tbMiss_first h, (xrVectorException_vectored k.missExc (hsaved ▸ heb)).pc, hsaved]

theorem tbMiss_missed {k : XrAccessKind} {m : Machine M} {virtual : Word}
    (heb : m.proc.cr crEb ≠ 0) :
    Missed m k virtual (tbMiss k.tag k.addr k.missExc virtual k.writing m) := by
  have hnote := fun i => @noteMiss_cr M k virtual m i
  have hrs := noteMiss_rs k virtual m
  by_cases hset : m.proc.rs &&& rsTbmiss = 0
  · rw [tbMiss_first hset]
    have hv := xrVectorException_vectored k.missExc (eb_saveMiss k virtual m ▸ heb)
    constructor
    · rw [hv.rs, xrSaveMiss_rs, hrs, if_pos hset]
      rfl
    · rw [hv.cr _ (by decide), xrSaveMiss_cr _ virtual (by decide), if_pos hset]
      rfl
    · rw [hv.cr _ (by decide), xrSaveMiss_cr _ virtual (by decide), if_pos hset]
      rfl
    · intro i hi
      simp only [List.mem_cons, List.not_mem_nil, or_false, not_or] at hi
      obtain ⟨hi0, hia, hip, h1, h2, h3, h4⟩ := hi
      rw [hv.cr i hi0, xrSaveMiss_cr _ virtual hi0, if_neg hip, if_neg hia,
        hnote i (by simp [h1, h2, h3, h4])]
    · rw [hv.lastWrite]
      rfl
  · rw [tbMiss_nested hset]
    have heb' : (noteMiss k.tag k.addr virtual k.writing m).proc.cr crEb ≠ 0 := by
      rw [hnote crEb (by decide)]
      exact heb
    have hv := xrVectorException_vectored k.missExc heb'
    constructor
    · rw [hv.rs, hrs, if_neg hset]
    · rw [hv.cr _ (by decide), hnote _ (by decide), if_neg hset]
    · rw [hv.cr _ (by decide), hnote _ (by decide), if_neg hset]
    · intro i hi
      simp only [List.mem_cons, List.not_mem_nil, or_false, not_or] at hi
      obtain ⟨hi0, hia, hip, h1, h2, h3, h4⟩ := hi
      rw [hv.cr i hi0, hnote i (by simp [h1, h2, h3, h4])]
    · rw [hv.lastWrite]
      rfl

theorem xrLookupTb_missed {k : XrAccessKind} {m : Machine M} {virtual : Word}
    (heb : m.proc.cr crEb ≠ 0) (h : (xrLookupTb k m virtual).1 = none) :
    Missed m k virtual (xrLookupTb k m virtual).2 := by
  rw [xrLookupTb_miss h]
  exact tbMiss_missed heb

/-! ## RFE -/

/-- The state after an RFE in kernel mode. -/
structure Returned (m m' : Machine M) : Prop where
  pc : m'.proc.pc = if m.proc.rs &&& rsTbmiss ≠ 0 then m.proc.cr crTbpc else m.proc.cr crEpc
  rs : m'.proc.rs = xrPoppedRs m.proc.rs
  cr : ∀ i, i ≠ crRs → m'.proc.cr i = m.proc.cr i

theorem xrRfe_returned {m : Machine M} (h : m.proc.rs &&& rsUser = 0) : Returned m (xrRfe m) := by
  rw [xrRfe_kernel h]
  constructor
  · rfl
  · exact Function.update_self crRs (xrPoppedRs m.proc.rs) m.proc.cr
  · intro i hi
    exact Function.update_of_ne hi (xrPoppedRs m.proc.rs) m.proc.cr

/-! ## Runs of misses -/

/-- A miss of `k` at `a`, taken in `m`, and any number of misses in its handler, which
leaves the registers `keep` alone between them. `last` is the kind of the last miss. -/
inductive MissRun (keep : List Nat) (m : Machine M) (k : XrAccessKind) (a : Word) :
    XrAccessKind → Machine M → Prop
  | first : (xrLookupTb k m a).1 = none → MissRun keep m k a k (xrLookupTb k m a).2
  | handler {last m₁ m₂} : MissRun keep m k a last m₁ → KeepsCr keep m₁ m₂ →
      m₂.proc.lastTbMissWasWrite = m₁.proc.lastTbMissWasWrite → MissRun keep m k a last m₂
  | nested {last m₁} (k' : XrAccessKind) (b : Word) : MissRun keep m k a last m₁ →
      (xrLookupTb k' m₁ b).1 = none → MissRun keep m k a k' (xrLookupTb k' m₁ b).2

variable {keep : List Nat} {m m' : Machine M} {k last : XrAccessKind} {a : Word}

theorem inMiss_first (heb : m.proc.cr crEb ≠ 0) (htb : m.proc.rs &&& rsTbmiss = 0)
    (h : (xrLookupTb k m a).1 = none) : InMiss m a k (xrLookupTb k m a).2 := by
  have hmiss := xrLookupTb_missed heb h
  constructor
  · rw [hmiss.rs, if_pos htb]
  · exact hmiss.cr crEb (by decide)
  · rw [hmiss.tbpc, if_pos htb]
  · rw [hmiss.tbmissaddr, if_pos htb]
  · exact hmiss.lastWrite

/-- Only what is kept of the last access changes in a nested miss. -/
theorem InMiss.nested (heb : m.proc.cr crEb ≠ 0) (h : InMiss m a last m') {k' : XrAccessKind}
    {b : Word} (hnone : (xrLookupTb k' m' b).1 = none) :
    InMiss m a k' (xrLookupTb k' m' b).2 := by
  have heb' : m'.proc.cr crEb ≠ 0 := by
    rw [h.eb]
    exact heb
  have hset : ¬m'.proc.rs &&& rsTbmiss = 0 := by
    rw [h.rs]
    exact missedRs_tbmiss m.proc.rs
  have hmiss := xrLookupTb_missed heb' hnone
  constructor
  · rw [hmiss.rs, if_neg hset, h.rs]
    exact vectoredRs_idem (xrPushedRs m.proc.rs ||| rsTbmiss)
  · rw [hmiss.cr crEb (by decide)]
    exact h.eb
  · rw [hmiss.tbpc, if_neg hset]
    exact h.tbpc
  · rw [hmiss.tbmissaddr, if_neg hset]
    exact h.tbmissaddr
  · exact hmiss.lastWrite

theorem MissRun.inMiss (hsub : ∀ i ∈ missRegs, i ∈ keep) (heb : m.proc.cr crEb ≠ 0)
    (htb : m.proc.rs &&& rsTbmiss = 0) (run : MissRun keep m k a last m') :
    InMiss m a last m' := by
  induction run with
  | first h => exact inMiss_first heb htb h
  | handler _ hkeep hlast ih => exact ih.handler (fun i hi => hkeep i (hsub i hi)) hlast
  | nested k' b _ hnone ih => exact ih.nested heb hnone

/-- A register that no miss writes and the handler keeps. -/
theorem MissRun.cr_eq (hsub : ∀ i ∈ missRegs, i ∈ keep) (heb : m.proc.cr crEb ≠ 0)
    (htb : m.proc.rs &&& rsTbmiss = 0) (run : MissRun keep m k a last m') {i : Nat} (hi : i ∈ keep)
    (hmiss : i ∉ [crRs, crTbmissaddr, crTbpc, crItbtag, crItbaddr, crDtbtag, crDtbaddr]) :
    m'.proc.cr i = m.proc.cr i := by
  induction run with
  | first h => exact (xrLookupTb_missed heb h).cr i hmiss
  | handler _ hkeep _ ih => exact (hkeep i hi).trans ih
  | nested k' b hrun hnone ih =>
      have hin := hrun.inMiss hsub heb htb
      have heb' := hin.eb ▸ heb
      exact ((xrLookupTb_missed heb' hnone).cr i hmiss).trans ih

/-! ## Round trips -/

/-- The execution goes on at `pc` in the mode of `m`, with its two levels of saved modes. -/
def Resumed (m : Machine M) (pc : Word) (m' : Machine M) : Prop :=
  m'.proc.rs &&& 0xFFFF = m.proc.rs &&& 0xFFFF ∧ m'.proc.pc = pc

/-- An exception, its handler, RFE. -/
def BasicRoundTrip (m : Machine M) : Prop :=
  ∀ exc pc m₁, KeepsCr [crRs, crEpc] (xrBasicException m exc pc) m₁ → Resumed m pc (xrRfe m₁)

/-- The registers a run of misses must leave as they were. -/
def faultRegs : List Nat := [crEpc, crEbadaddr]

/-- A miss, misses in its handler, one RFE. -/
def MissRoundTrip (m : Machine M) : Prop :=
  ∀ k a last m₁, MissRun (missRegs ++ faultRegs) m k a last m₁ →
    Resumed m m.proc.pc (xrRfe m₁) ∧ KeepsCr faultRegs m (xrRfe m₁) ∧
    (xrRfe m₁).proc.rs &&& 0xF0000000 = m.proc.rs &&& 0xF0000000 ∧
    (xrRfe m₁).proc.cr crTbpc = m.proc.pc ∧ (xrRfe m₁).proc.cr crTbmissaddr = a

/-- An exception in the handler of another. The outer handler has EPC back before it
returns. -/
def NestedRoundTrip (m : Machine M) : Prop :=
  ∀ exc pc exc' pc' m₁ m₂ m₃,
    KeepsCr [crRs, crEb] (xrBasicException m exc pc) m₁ →
    KeepsCr [crRs, crEpc] (xrBasicException m₁ exc' pc') m₂ →
    KeepsCr [crRs] (xrRfe m₂) m₃ → m₃.proc.cr crEpc = pc →
    (xrRfe m₂).proc.pc = pc' ∧ (xrRfe m₃).proc.rs &&& 0xFF = m.proc.rs &&& 0xFF ∧
    (xrRfe m₃).proc.pc = pc

theorem basicRoundTrip (heb : m.proc.cr crEb ≠ 0) (htb : m.proc.rs &&& rsTbmiss = 0) :
    BasicRoundTrip m := by
  intro exc pc m₁ hkeep
  have hv := xrBasicException_vectored exc pc heb
  have hrs : m₁.proc.rs = xrExceptedRs m.proc.rs exc := (hkeep crRs (by decide)).trans hv.rs
  have hepc : m₁.proc.cr crEpc = pc := by
    rw [hkeep crEpc (by decide), hv.cr crEpc (by decide)]
    exact Function.update_self crEpc pc m.proc.cr
  have hret := xrRfe_returned (m := m₁) (by rw [hrs, exceptedRs_user])
  constructor
  · rw [hret.rs, hrs]
    exact popped_exceptedRs m.proc.rs exc
  · rw [hret.pc, hrs, if_neg (not_not_intro (exceptedRs_tbmiss exc htb))]
    exact hepc

theorem missRoundTrip (heb : m.proc.cr crEb ≠ 0) (htb : m.proc.rs &&& rsTbmiss = 0) :
    MissRoundTrip m := by
  intro k a last m₁ run
  have hsub : ∀ i ∈ missRegs, i ∈ missRegs ++ faultRegs := fun i hi => List.mem_append_left _ hi
  have hin := run.inMiss hsub heb htb
  have hret := xrRfe_returned (m := m₁) (by rw [hin.rs, missedRs_user])
  refine ⟨⟨?_, ?_⟩, ?_, ?_, ?_, ?_⟩
  · rw [hret.rs, hin.rs]
    exact popped_missedRs m.proc.rs
  · rw [hret.pc, hin.rs, if_pos (missedRs_tbmiss m.proc.rs)]
    exact hin.tbpc
  · intro i hi
    have hne : i ≠ crRs := by
      rintro rfl
      revert hi
      decide
    rw [hret.cr i hne]
    apply run.cr_eq hsub heb htb (List.mem_append_right _ hi)
    revert i
    decide
  · rw [hret.rs, hin.rs]
    exact popped_missedRs_ecause m.proc.rs
  · rw [hret.cr _ (by decide)]
    exact hin.tbpc
  · rw [hret.cr _ (by decide)]
    exact hin.tbmissaddr

theorem nestedRoundTrip (heb : m.proc.cr crEb ≠ 0) (htb : m.proc.rs &&& rsTbmiss = 0) :
    NestedRoundTrip m := by
  intro exc pc exc' pc' m₁ m₂ m₃ hkeep₁ hkeep₂ hkeep₃ hepc
  have hv₁ := xrBasicException_vectored exc pc heb
  have hrs₁ : m₁.proc.rs = xrExceptedRs m.proc.rs exc := (hkeep₁ crRs (by decide)).trans hv₁.rs
  have htb₁ : m₁.proc.rs &&& rsTbmiss = 0 := by
    rw [hrs₁]
    exact exceptedRs_tbmiss exc htb
  have heb₁ : m₁.proc.cr crEb ≠ 0 := by
    rw [hkeep₁ crEb (by decide), hv₁.cr crEb (by decide)]
    exact heb
  -- The inner exception is a round trip of its own, which ends in the outer handler.
  obtain ⟨_, hpc₂⟩ := basicRoundTrip heb₁ htb₁ exc' pc' m₂ hkeep₂
  have hv₂ := xrBasicException_vectored exc' pc' heb₁
  have hrs₂ : m₂.proc.rs = xrExceptedRs m₁.proc.rs exc' :=
    (hkeep₂ crRs (by decide)).trans hv₂.rs
  have hret₂ := xrRfe_returned (m := m₂) (by rw [hrs₂, exceptedRs_user])
  have hrs₃ : m₃.proc.rs = xrPoppedRs (xrExceptedRs (xrExceptedRs m.proc.rs exc) exc') := by
    rw [← hrs₁, ← hrs₂, ← hret₂.rs]
    exact hkeep₃ crRs (by decide)
  have hlow : m₃.proc.rs &&& 0xFFFF = xrExceptedRs m.proc.rs exc &&& 0xFFFF := by
    rw [hrs₃]
    exact popped_exceptedRs (xrExceptedRs m.proc.rs exc) exc'
  have huser : m₃.proc.rs &&& rsUser = 0 := by
    rw [and_of_low16 (by decide) hlow]
    exact exceptedRs_user m.proc.rs exc
  have htb₃ : m₃.proc.rs &&& rsTbmiss = 0 := by
    rw [and_of_low16 (by decide) hlow]
    exact exceptedRs_tbmiss exc htb
  have hret₃ := xrRfe_returned huser
  refine ⟨hpc₂, ?_, ?_⟩
  · rw [hret₃.rs, hrs₃]
    exact popped_twice m.proc.rs exc exc'
  · rw [hret₃.pc, if_neg (not_not_intro htb₃)]
    exact hepc

theorem exception_roundTrips (heb : m.proc.cr crEb ≠ 0) (htb : m.proc.rs &&& rsTbmiss = 0) :
    BasicRoundTrip m ∧ MissRoundTrip m ∧ NestedRoundTrip m :=
  ⟨basicRoundTrip heb htb, missRoundTrip heb htb, nestedRoundTrip heb htb⟩

/-- A memory system with nothing to reset. -/
instance : ResetMem Unit := ⟨fun _ mem => mem⟩

/-- A user program with the MMU and interrupts on, at address 0x2000. Both translation
buffers only know page 0. -/
def userSample : Machine Unit :=
  ⟨{ ((XrProcessor.zeroed 0).setCr crEb 0x1000).setCr crRs (rsUser ||| rsInt ||| rsMmu) with
      pc := 0x2000 }, ()⟩

/-- The misses of a store to 0x5000: the store itself, then the handler reading the
page table at 0x9000. -/
def storeMissed : Machine Unit := (xrLookupTb .write userSample 0x5000).2

def tableMissed : Machine Unit := (xrLookupTb .read storeMissed 0x9000).2

theorem userSample_missRun (keep : List Nat) :
    MissRun keep userSample .write 0x5000 .read tableMissed :=
  .nested .read 0x9000 (.first (by decide)) (by decide)

theorem exception_roundTrips_userSample :
    Resumed userSample 0x2000 (xrRfe (xrBasicException userSample excSys 0x2000)) ∧
    Resumed userSample 0x2000 (xrRfe tableMissed) :=
  have h := exception_roundTrips (m := userSample) (by decide) (by decide)
  ⟨h.1 excSys 0x2000 _ fun _ _ => rfl,
    (h.2.1 .write 0x5000 .read tableMissed (userSample_missRun _)).1⟩

/-! ## Page faults in the handler of a miss -/

/-- Two page faults reported alike. -/
structure SameFault (m₁ m₂ : Machine M) : Prop where
  ebadaddr : m₁.proc.cr crEbadaddr = m₂.proc.cr crEbadaddr
  epc : m₁.proc.cr crEpc = m₂.proc.cr crEpc
  rs : m₁.proc.rs = m₂.proc.rs
  pc : m₁.proc.pc = m₂.proc.pc

/-- The state after a page fault: the code, RS, and where it says the fault was. -/
structure PageFaulted (m : Machine M) (exc a epc : Word) (m' : Machine M) : Prop where
  ebadaddr : m'.proc.cr crEbadaddr = a
  epc : m'.proc.cr crEpc = epc
  rs : m'.proc.rs = xrExceptedRs m.proc.rs exc
  pc : m'.proc.pc = m.proc.cr crEb ||| (exc <<< 8)

/-- Outside of a miss, a page fault is an exception like others. -/
theorem xrPageFault_basic (htb : m.proc.rs &&& rsTbmiss = 0) (a : Word) (writing : Bool) :
    xrPageFault m a writing =
      xrBasicException (m.setCr crEbadaddr a) (excPage writing) m.proc.pc := by
  unfold xrPageFault
  exact if_neg (not_not_intro htb)

theorem xrPageFault_direct (heb : m.proc.cr crEb ≠ 0) (htb : m.proc.rs &&& rsTbmiss = 0)
    (a : Word) (writing : Bool) :
    PageFaulted m (excPage writing) a m.proc.pc (xrPageFault m a writing) := by
  have heq : xrPageFault m a writing =
      xrVectorException (xrSetEcause (xrPushMode ((m.setCr crEbadaddr a).setCr crEpc m.proc.pc))
        (excPage writing)) (excPage writing) := xrPageFault_basic htb a writing
  have hv := @xrVectorException_vectored M _ (xrSetEcause (xrPushMode
    ((m.setCr crEbadaddr a).setCr crEpc m.proc.pc)) (excPage writing)) (excPage writing) heb
  rw [heq]
  constructor
  · rw [hv.cr _ (by decide)]
    rfl
  · rw [hv.cr _ (by decide)]
    rfl
  · exact hv.rs
  · exact hv.pc

theorem InMiss.pageFault (heb : m.proc.cr crEb ≠ 0) (htb : m.proc.rs &&& rsTbmiss = 0)
    (h : InMiss m a last m') (b : Word) (writing : Bool) :
    PageFaulted m (excPage last.writing) a m.proc.pc (xrPageFault m' b writing) := by
  have hset : m'.proc.rs &&& rsTbmiss ≠ 0 := by
    rw [h.rs]
    exact missedRs_tbmiss m.proc.rs
  have heq : xrPageFault m' b writing =
      xrVectorException (xrSetEcause (((m'.setCr crEbadaddr (m'.proc.cr crTbmissaddr)).setCr crEpc
        (m'.proc.cr crTbpc)).setCr crRs (m'.proc.rs &&& ~~~rsTbmiss)) (excPage last.writing))
        (excPage last.writing) := by
    rw [← h.lastWrite]
    unfold xrPageFault
    exact if_pos hset
  have heb' : m'.proc.cr crEb ≠ 0 := by
    rw [h.eb]
    exact heb
  have hv := @xrVectorException_vectored M _ (xrSetEcause (((m'.setCr crEbadaddr
    (m'.proc.cr crTbmissaddr)).setCr crEpc (m'.proc.cr crTbpc)).setCr crRs
    (m'.proc.rs &&& ~~~rsTbmiss)) (excPage last.writing)) (excPage last.writing) heb'
  rw [heq]
  constructor
  · rw [hv.cr _ (by decide)]
    exact h.tbmissaddr
  · rw [hv.cr _ (by decide)]
    exact h.tbpc
  · rw [hv.rs, ← exceptedRs_of_missed _ htb, ← h.rs]
    rfl
  · rw [hv.pc, ← h.eb]
    rfl

theorem excPage_inj {w w' : Bool} {rs : Word}
    (h : xrExceptedRs rs (excPage w) = xrExceptedRs rs (excPage w')) : w = w' := by
  -- ECAUSE tells the two codes apart.
  have hcode : ∀ exc, (xrExceptedRs rs exc).getLsbD 28 = exc.getLsbD 0 := by
    intro exc
    rw [exceptedRs_bit rs exc 28 (by decide), if_neg (by decide), if_pos (by decide)]
  have hbit : (excPage w).getLsbD 0 = (excPage w').getLsbD 0 := by
    rw [← hcode, ← hcode, h]
  revert hbit
  cases w <;> cases w' <;> decide

/-- The fault is that of the original access unless a nested miss made the processor
forget whether it was a write. -/
theorem nestedPageFault_same_iff (heb : m.proc.cr crEb ≠ 0) (htb : m.proc.rs &&& rsTbmiss = 0)
    (run : MissRun missRegs m k a last m') (b : Word) (writing : Bool) :
    SameFault (xrPageFault m' b writing) (xrPageFault m a k.writing) ↔
      last.writing = k.writing := by
  have hin := run.inMiss (fun i hi => hi) heb htb
  have hnested := hin.pageFault heb htb b writing
  have hdirect := xrPageFault_direct heb htb a k.writing
  constructor
  · intro hsame
    have hcodes : xrExceptedRs m.proc.rs (excPage last.writing) =
        xrExceptedRs m.proc.rs (excPage k.writing) := by
      rw [← hnested.rs, ← hdirect.rs]
      exact hsame.rs
    exact excPage_inj hcodes
  · intro hlast
    rw [hlast] at hnested
    constructor
    · rw [hnested.ebadaddr, hdirect.ebadaddr]
    · rw [hnested.epc, hdirect.epc]
    · rw [hnested.rs, hdirect.rs]
    · rw [hnested.pc, hdirect.pc]

/-- A handler that is itself missing a page it writes to. -/
theorem nestedPageFault_same_storeMissed :
    SameFault (xrPageFault storeMissed 0x9000 false) (xrPageFault userSample 0x5000 true) :=
  (nestedPageFault_same_iff (k := .write) (by decide) (by decide) (.first (by decide))
    0x9000 false).mpr rfl

/-- The store to 0x5000 is reported as a read. -/
theorem pageFault_of_store_reported_as_read :
    userSample.proc.rs &&& rsLegacy = 0 ∧
    MissRun missRegs userSample .write 0x5000 .read tableMissed ∧
    (xrPageFault tableMissed 0x9000 false).proc.pc = 0x1C00 ∧
    ¬SameFault (xrPageFault tableMissed 0x9000 false) (xrPageFault userSample 0x5000 true) := by
  refine ⟨by decide, userSample_missRun missRegs, by decide, ?_⟩
  intro hsame
  have hpc := hsame.pc
  revert hpc
  decide

end Runs

end Xremu
