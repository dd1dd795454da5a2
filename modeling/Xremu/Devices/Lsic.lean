import Mathlib.Data.List.Induction
import Mathlib.Order.Bounds.Basic
import Xremu.Machine.Processor

/-!
# The local interrupt controllers

Every processor has an LSIC with a mask word and a pending word for each half of
the 64 sources, an IPL, and the flag the execution loop polls. `LsicWrite` and
`LsicRead` take the register number with the processor's id above its low three
bits. Each call runs under the interrupt lock of its processor, so here it is one
step of the whole table.

`XrProcessorTable` is there as the predicate `present`. The sources a device may
raise are 1 to 63, `LsicInterrupt` aborts on any other.
-/

namespace Xremu

abbrev lsicMask0 : Nat := 0
abbrev lsicMask1 : Nat := 1
abbrev lsicPending0 : Nat := 2
abbrev lsicPending1 : Nat := 3
abbrev lsicClaimComplete : Nat := 4
abbrev lsicIpl : Nat := 5

structure Lsic where
  registers : Nat → Word
  lowIplMask : Word
  highIplMask : Word
  interruptPending : Bool

/-- The static table, zeroed. -/
def Lsic.zeroed : Lsic := ⟨fun _ => 0, 0, 0, false⟩

abbrev LsicTable := Nat → Lsic

/-- What a call leaves, and whether it is `EBUSSUCCESS` that it returns. -/
structure LsicReply (α : Type) where
  after : α
  success : Bool

/-- `LsicIplMasks`. -/
def lsicIplMasks : List Word :=
  [0x00000001, 0x00000003, 0x00000007, 0x0000000F, 0x0000001F, 0x0000003F, 0x0000007F, 0x000000FF,
   0x000001FF, 0x000003FF, 0x000007FF, 0x00000FFF, 0x00001FFF, 0x00003FFF, 0x00007FFF, 0x0000FFFF,
   0x0001FFFF, 0x0003FFFF, 0x0007FFFF, 0x000FFFFF, 0x001FFFFF, 0x003FFFFF, 0x007FFFFF, 0x00FFFFFF,
   0x01FFFFFF, 0x03FFFFFF, 0x07FFFFFF, 0x0FFFFFFF, 0x1FFFFFFF, 0x3FFFFFFF, 0x7FFFFFFF, 0xFFFFFFFF]

def lsicIplMask (i : Nat) : Word := lsicIplMasks.getD i 0

namespace Lsic

def setRegister (l : Lsic) (reg : Nat) (value : Word) : Lsic :=
  { l with registers := Function.update l.registers reg value }

/-- The expression `InterruptPending` is computed by. -/
def anyPending (l : Lsic) : Bool :=
  ~~~l.registers 0 &&& l.registers 2 &&& l.lowIplMask != 0 ||
    ~~~l.registers 1 &&& l.registers 3 &&& l.highIplMask != 0

def refresh (l : Lsic) : Lsic := { l with interruptPending := l.anyPending }

/-- Set the pending bit of a source. -/
def raise (l : Lsic) (src : Nat) : Lsic :=
  l.setRegister (lsicPending0 + src / 32) 
    (l.registers (lsicPending0 + src / 32) ||| ((1 : Word) <<< (src % 32)))

/-- A write to one of the two PENDING registers. -/
def writePending (l : Lsic) (reg : Nat) (value : Word) : Lsic :=
  if value = 0 then l.setRegister reg 0
  else l.setRegister reg (l.registers reg ||| (value &&& ~~~1))

/-- A write to CLAIM_COMPLETE. -/
def complete (l : Lsic) (value : Word) : LsicReply Lsic :=
  if 64 ≤ value then ⟨l, false⟩
  else
    let reg := lsicPending0 + (value >>> 5).toNat
    ⟨l.setRegister reg (l.registers reg &&& ~~~((1 : Word) <<< (value &&& 31).toNat)), true⟩

/-- A write to IPL. -/
def writeIpl (l : Lsic) (value : Word) : LsicReply Lsic :=
  if 64 ≤ value then ⟨l, false⟩
  else if 32 ≤ value then
    ⟨{ l.setRegister lsicIpl value with
        lowIplMask := 0xFFFFFFFF, highIplMask := lsicIplMask (value - 32).toNat }, true⟩
  else
    ⟨{ l.setRegister lsicIpl value with
        lowIplMask := lsicIplMask value.toNat, highIplMask := 0 }, true⟩

/-- The `switch` of `LsicWrite`, up to the flag. -/
def writeRegister (l : Lsic) (reg : Nat) (value : Word) : LsicReply Lsic :=
  match reg with
  | 0 | 1 => ⟨l.setRegister reg value, true⟩
  | 2 | 3 => ⟨l.writePending reg value, true⟩
  | 4 => l.complete value
  | 5 => l.writeIpl value
  | _ => ⟨l, false⟩

/-- The condition in the loop of a claim: source `i` is pending and not masked. -/
def claimable (l : Lsic) (i : Nat) : Bool :=
  (~~~l.registers (lsicMask0 + i / 32) &&& l.registers (lsicPending0 + i / 32)) >>> (i % 32) &&& 1 != 0

/-- What a read of CLAIM_COMPLETE returns. -/
def claim (l : Lsic) : Nat :=
  ((List.range' 1 (l.registers lsicIpl).toNat).find? l.claimable).getD 0

/-- The `switch` of `LsicRead`. -/
def readRegister (l : Lsic) (reg : Nat) : Option Word :=
  match reg with
  | 0 | 1 | 2 | 3 | 5 => some (l.registers reg)
  | 4 => some (BitVec.ofNat 32 l.claim)
  | _ => none

end Lsic

/-! ## The calls -/

section

variable (present : Nat → Bool)

/-- `XR_PROC_MAX`, and the table of processors. -/
def lsicExists (id : Nat) : Bool := decide (id < 16) && present id

/-- `LsicInterruptTargeted`, given the id of the processor. -/
def lsicInterruptTargeted (s : LsicTable) (id src : Nat) : LsicTable :=
  Function.update s id ((s id).raise src).refresh

/-- `LsicInterrupt`: all processors in turn. -/
def lsicInterrupt (s : LsicTable) (src : Nat) : LsicTable :=
  (List.range 16).foldl (fun s id => if present id then lsicInterruptTargeted s id src else s) s

def lsicWrite (s : LsicTable) (reg : Nat) (value : Word) : LsicReply LsicTable :=
  if lsicExists present (reg / 8) then
    let r := (s (reg / 8)).writeRegister (reg % 8) value
    -- An error in the `switch` returns before the flag is computed.
    if r.success then ⟨Function.update s (reg / 8) r.after.refresh, true⟩
    else ⟨Function.update s (reg / 8) r.after, false⟩
  else ⟨s, false⟩

/-- `none` is `EBUSERROR`. -/
def lsicRead (s : LsicTable) (reg : Nat) : Option Word :=
  if lsicExists present (reg / 8) then (s (reg / 8)).readRegister (reg % 8) else none

inductive LsicOp where
  | interruptTargeted (id src : Nat)
  | interrupt (src : Nat)
  | write (reg : Nat) (value : Word)
  | read (reg : Nat)

/-- Raised sources are 1 to 63, and raised on processors that exist. -/
def LsicOp.Legal : LsicOp → Prop
  | .interruptTargeted id src => lsicExists present id = true ∧ 1 ≤ src ∧ src < 64
  | .interrupt src => 1 ≤ src ∧ src < 64
  | _ => True

/-- The state after a call. -/
def LsicOp.step (s : LsicTable) : LsicOp → LsicTable
  | .interruptTargeted id src => lsicInterruptTargeted s id src
  | .interrupt src => lsicInterrupt present s src
  | .write reg value => (lsicWrite present s reg value).after
  | .read _ => s

/-- The calls that may return `EBUSERROR`, and do. -/
def LsicOp.fails (s : LsicTable) : LsicOp → Bool
  | .write reg value => !(lsicWrite present s reg value).success
  | .read reg => (lsicRead present s reg).isNone
  | _ => false

/-- The table after a sequence of calls. -/
def lsicRun (ops : List LsicOp) : LsicTable :=
  ops.foldl (fun s op => op.step present s) fun _ => .zeroed

end

/-! ## Bits -/

/-- Source `src` is pending. -/
def Lsic.Pending (l : Lsic) (src : Nat) : Prop :=
  (l.registers (lsicPending0 + src / 32)).getLsbD (src % 32) = true

/-- Source `src` is masked. -/
def Lsic.Masked (l : Lsic) (src : Nat) : Prop :=
  (l.registers (lsicMask0 + src / 32)).getLsbD (src % 32) = true

theorem one_getLsbD (k : Nat) : (1 : Word).getLsbD k = decide (k = 0) := by
  simp [BitVec.getLsbD_one (w := 32) (i := k)]

/-- `1 << n`, one bit at a time. -/
theorem bit_getLsbD (n k : Nat) (hk : k < 32) :
    ((1 : Word) <<< n).getLsbD k = decide (k = n) := by
  rw [BitVec.getLsbD_shiftLeft, one_getLsbD]
  by_cases h : k = n
  · subst h
    simp [hk]
  · by_cases hlt : k < n
    · simp [hlt, h]
    · have hne : k - n ≠ 0 := by omega
      simp [hlt, h, hne]

theorem ne_zero_iff_getLsbD (v : Word) : v ≠ 0 ↔ ∃ k, k < 32 ∧ v.getLsbD k = true := by
  constructor
  · intro hne
    by_contra hall
    apply hne
    apply BitVec.eq_of_getLsbD_eq
    intro k hk
    have hbit : ¬v.getLsbD k = true := fun hv => hall ⟨k, hk, hv⟩
    simpa using hbit
  · rintro ⟨k, _, hbit⟩ rfl
    simp at hbit

/-- Bit `k` of a mask of the table: the sources up to the level. -/
theorem lsicIplMask_getLsbD : ∀ i, i < 32 → ∀ k, k < 32 →
    (lsicIplMask i).getLsbD k = decide (k ≤ i) := by
  decide

theorem Lsic.claimable_iff (l : Lsic) (i : Nat) :
    l.claimable i = true ↔ l.Pending i ∧ ¬l.Masked i := by
  have hbit : (i % 32) < 32 := Nat.mod_lt _ (by decide)
  unfold Lsic.claimable Lsic.Pending Lsic.Masked
  rw [bne_iff_ne, ne_zero_iff_getLsbD]
  simp only [BitVec.getLsbD_and, BitVec.getLsbD_ushiftRight, BitVec.getLsbD_not, one_getLsbD]
  constructor
  · rintro ⟨k, _, h⟩
    simp only [Bool.and_eq_true, decide_eq_true_eq, Bool.not_eq_true'] at h
    obtain ⟨⟨⟨_, hmask⟩, hpend⟩, rfl⟩ := h
    rw [Nat.add_zero] at hmask hpend
    exact ⟨hpend, ne_true_of_eq_false hmask⟩
  · rintro ⟨hpend, hmask⟩
    have hmask' := eq_false_of_ne_true hmask
    refine ⟨0, by decide, ?_⟩
    rw [Nat.add_zero, hpend, hmask']
    simp [hbit]

/-! ## What holds of a controller -/

/-- The mask word of the IPL that is over this source. -/
def Lsic.iplMask (l : Lsic) (src : Nat) : Word := if src < 32 then l.lowIplMask else l.highIplMask

/-- The two mask words are those of the IPL, and source 0 is not pending. -/
structure LsicLevels (l : Lsic) : Prop where
  ipl : (l.registers lsicIpl).toNat < 64
  masks : ∀ src, 1 ≤ src → src < 64 →
    ((l.iplMask src).getLsbD (src % 32) = true ↔ src ≤ (l.registers lsicIpl).toNat)
  zero : ¬l.Pending 0

structure LsicInv (l : Lsic) : Prop extends LsicLevels l where
  flag : l.interruptPending = l.anyPending

/-- The flag and the loop of a claim agree on whether there is anything to claim. -/
theorem LsicLevels.anyPending_iff {l : Lsic} (h : LsicLevels l) :
    l.anyPending = true ↔
      ∃ i, 1 ≤ i ∧ i ≤ (l.registers lsicIpl).toNat ∧ l.claimable i = true := by
  obtain ⟨hipl, hmasks, hzero⟩ := h
  unfold Lsic.anyPending
  rw [Bool.or_eq_true, bne_iff_ne, bne_iff_ne, ne_zero_iff_getLsbD, ne_zero_iff_getLsbD]
  simp only [BitVec.getLsbD_and, BitVec.getLsbD_not, Bool.and_eq_true, Bool.not_eq_true',
    decide_eq_true_eq]
  constructor
  · -- A bit of the low word is source `k`, a bit of the high word is source `k + 32`.
    rintro (⟨k, hk, ⟨⟨_, hmask⟩, hpend⟩, hipl'⟩ | ⟨k, hk, ⟨⟨_, hmask⟩, hpend⟩, hipl'⟩)
    · have hne : k ≠ 0 := by
        rintro rfl
        exact hzero hpend
      have hmod : k % 32 = k := Nat.mod_eq_of_lt hk
      have hdiv : k / 32 = 0 := Nat.div_eq_of_lt hk
      refine ⟨k, by omega, ?_, ?_⟩
      · rw [← hmasks k (by omega) (by omega), hmod]
        simpa [Lsic.iplMask, hk] using hipl'
      · rw [Lsic.claimable_iff, Lsic.Pending, Lsic.Masked, hmod, hdiv]
        exact ⟨hpend, ne_true_of_eq_false hmask⟩
    · have hmod : (k + 32) % 32 = k := by omega
      have hdiv : (k + 32) / 32 = 1 := by omega
      refine ⟨k + 32, by omega, ?_, ?_⟩
      · rw [← hmasks (k + 32) (by omega) (by omega), hmod, Lsic.iplMask, if_neg (by omega)]
        exact hipl'
      · rw [Lsic.claimable_iff, Lsic.Pending, Lsic.Masked, hmod, hdiv]
        exact ⟨hpend, ne_true_of_eq_false hmask⟩
  · rintro ⟨i, hi, hle, hclaim⟩
    rw [Lsic.claimable_iff] at hclaim
    obtain ⟨hpend, hmask⟩ := hclaim
    have hallow := (hmasks i hi (by omega)).mpr hle
    unfold Lsic.Pending at hpend
    unfold Lsic.Masked at hmask
    by_cases hlow : i < 32
    · have hdiv : i / 32 = 0 := Nat.div_eq_of_lt hlow
      rw [hdiv] at hpend hmask
      refine Or.inl ⟨i % 32, by omega, ⟨⟨by omega, by simpa using hmask⟩, hpend⟩, ?_⟩
      simpa [Lsic.iplMask, hlow] using hallow
    · have hdiv : i / 32 = 1 := by omega
      rw [hdiv] at hpend hmask
      refine Or.inr ⟨i % 32, by omega, ⟨⟨by omega, by simpa using hmask⟩, hpend⟩, ?_⟩
      simpa [Lsic.iplMask, hlow] using hallow

/-- A claim: the least source that is pending and not masked, 0 if there is none. -/
theorem Lsic.claim_spec (l : Lsic) :
    (l.claim ≠ 0 ↔ ∃ i, 1 ≤ i ∧ i ≤ (l.registers lsicIpl).toNat ∧ l.claimable i = true) ∧
      (l.claim ≠ 0 → IsLeast {i | 1 ≤ i ∧ i ≤ (l.registers lsicIpl).toNat ∧
        l.claimable i = true} l.claim) := by
  unfold Lsic.claim
  cases hfind : (List.range' 1 (l.registers lsicIpl).toNat).find? l.claimable with
  | none =>
      rw [List.find?_eq_none] at hfind
      refine ⟨⟨fun h => absurd rfl h, ?_⟩, fun h => absurd rfl h⟩
      rintro ⟨i, hi, hle, hclaim⟩
      exact absurd hclaim (hfind i (List.mem_range'_1.mpr ⟨hi, by omega⟩))
  | some v =>
      rw [List.find?_range'_eq_some] at hfind
      obtain ⟨hclaim, hmem, hleast⟩ := hfind
      obtain ⟨hv, hle⟩ := List.mem_range'_1.mp hmem
      have hset : v ∈ {i | 1 ≤ i ∧ i ≤ (l.registers lsicIpl).toNat ∧ l.claimable i = true} :=
        ⟨hv, by omega, hclaim⟩
      simp only [Option.getD_some]
      refine ⟨⟨fun _ => ⟨v, hset⟩, fun _ => by omega⟩, fun _ => ⟨hset, ?_⟩⟩
      rintro i ⟨hi, _, hiclaim⟩
      by_contra hlt
      have hnot := hleast i hi (by omega)
      rw [hiclaim] at hnot
      cases hnot

/-! ## The calls keep it -/

namespace Lsic

@[simp] theorem setRegister_registers (l : Lsic) (reg : Nat) (value : Word) :
    (l.setRegister reg value).registers = Function.update l.registers reg value := rfl
@[simp] theorem setRegister_iplMask (l : Lsic) (reg : Nat) (value : Word) (src : Nat) :
    (l.setRegister reg value).iplMask src = l.iplMask src := rfl
@[simp] theorem refresh_registers (l : Lsic) : l.refresh.registers = l.registers := rfl

theorem refresh_pending (l : Lsic) (src : Nat) : l.refresh.Pending src ↔ l.Pending src := Iff.rfl

/-- The pending sources after a write to one register. -/
theorem setRegister_pending (l : Lsic) (reg : Nat) (value : Word) (src : Nat) :
    (l.setRegister reg value).Pending src ↔
      if reg = lsicPending0 + src / 32 then value.getLsbD (src % 32) = true else l.Pending src := by
  unfold Pending
  rw [setRegister_registers]
  by_cases h : reg = lsicPending0 + src / 32
  · rw [if_pos h, h, Function.update_self]
  · rw [if_neg h, Function.update_of_ne (Ne.symm h)]

theorem raise_pending (l : Lsic) (raised src : Nat) :
    (l.raise raised).Pending src ↔ l.Pending src ∨ src = raised := by
  have hbit := bit_getLsbD (raised % 32) (src % 32) (Nat.mod_lt _ (by decide))
  unfold raise
  rw [setRegister_pending]
  split
  · next hreg =>
      have hdiv : raised / 32 = src / 32 := by omega
      rw [BitVec.getLsbD_or, hbit, Bool.or_eq_true, decide_eq_true_eq, hdiv]
      constructor
      · rintro (hp | hmod)
        · exact Or.inl hp
        · exact Or.inr (by omega)
      · rintro (hp | rfl)
        · exact Or.inl hp
        · exact Or.inr rfl
  · next hreg =>
      constructor
      · exact Or.inl
      · rintro (hp | rfl)
        · exact hp
        · exact absurd rfl hreg

/-- A write to a PENDING register. The lowest bit of the value is lost. -/
theorem writePending_pending (l : Lsic) (reg : Nat) (value : Word) (src : Nat) :
    (l.writePending reg value).Pending src ↔
      if reg = lsicPending0 + src / 32 then
        value ≠ 0 ∧ (l.Pending src ∨ (value.getLsbD (src % 32) = true ∧ src % 32 ≠ 0))
      else l.Pending src := by
  have hlt : src % 32 < 32 := Nat.mod_lt _ (by decide)
  unfold writePending
  by_cases hv : value = 0
  · rw [if_pos hv, setRegister_pending]
    split
    · simp [hv]
    · rfl
  · rw [if_neg hv, setRegister_pending]
    split
    · next hreg =>
        simp only [BitVec.getLsbD_or, BitVec.getLsbD_and, BitVec.getLsbD_not, one_getLsbD, hlt,
          decide_true, Bool.true_and, Bool.or_eq_true, Bool.and_eq_true, Bool.not_eq_true',
          decide_eq_false_iff_not, hreg]
        constructor
        · intro h
          exact ⟨hv, h⟩
        · rintro ⟨_, h⟩
          exact h
    · rfl

theorem complete_pending {l l' : Lsic} {value : Word} (h : l.complete value = ⟨l', true⟩)
    (src : Nat) (hsrc : src < 64) :
    l'.Pending src ↔ l.Pending src ∧ value.toNat ≠ src := by
  unfold complete at h
  split at h
  · cases h
  · next hlt =>
      obtain ⟨rfl, -⟩ := LsicReply.mk.inj h
      have hmod : (value &&& 31).toNat = value.toNat % 32 := by
        rw [BitVec.toNat_and]
        exact Nat.and_two_pow_sub_one_eq_mod value.toNat 5
      have hdiv : (value >>> 5).toNat = value.toNat / 32 := by
        rw [BitVec.toNat_ushiftRight, Nat.shiftRight_eq_div_pow]
      have hv : value.toNat < 64 := by
        have := BitVec.not_le.mp hlt
        exact BitVec.lt_def.mp this
      have hlt' : src % 32 < 32 := Nat.mod_lt _ (by decide)
      have hbit := bit_getLsbD (value.toNat % 32) (src % 32) hlt'
      rw [setRegister_pending, hmod, hdiv]
      split
      · next hreg =>
          rw [BitVec.getLsbD_and, BitVec.getLsbD_not, hbit, hreg]
          simp only [hlt', decide_true, Bool.true_and, Bool.and_eq_true, Bool.not_eq_true',
            decide_eq_false_iff_not]
          constructor
          · rintro ⟨hp, hne⟩
            refine ⟨hp, ?_⟩
            rintro rfl
            exact hne rfl
          · rintro ⟨hp, hne⟩
            exact ⟨hp, by omega⟩
      · next hreg =>
          constructor
          · intro hp
            refine ⟨hp, ?_⟩
            rintro rfl
            exact hreg rfl
          · exact fun hp => hp.1

end Lsic

theorem lsicLevels_zeroed : LsicLevels .zeroed := by
  refine ⟨by decide, fun src hsrc _ => ?_, ?_⟩
  · have hne : ¬src ≤ 0 := by omega
    simp [Lsic.iplMask, Lsic.zeroed, hne]
  · simp [Lsic.Pending, Lsic.zeroed]

theorem lsicInv_zeroed : LsicInv .zeroed := ⟨lsicLevels_zeroed, by decide⟩

theorem LsicLevels.refresh {l : Lsic} (h : LsicLevels l) : LsicInv l.refresh :=
  ⟨⟨h.ipl, h.masks, h.zero⟩, rfl⟩

/-- A write to a register other than IPL that does not make source 0 pending. -/
theorem LsicLevels.setRegister {l : Lsic} (h : LsicLevels l) {reg : Nat} (hreg : reg ≠ lsicIpl)
    {value : Word} (hzero : ¬(l.setRegister reg value).Pending 0) :
    LsicLevels (l.setRegister reg value) := by
  have hipl : (l.setRegister reg value).registers lsicIpl = l.registers lsicIpl :=
    Function.update_of_ne (Ne.symm hreg) _ _
  constructor
  · rw [hipl]
    exact h.ipl
  · intro src h1 h64
    rw [hipl]
    exact h.masks src h1 h64
  · exact hzero

theorem LsicLevels.raise {l : Lsic} (h : LsicLevels l) {src : Nat} (h1 : 1 ≤ src)
    (h64 : src < 64) : LsicLevels (l.raise src) := by
  have hreg : lsicPending0 + src / 32 ≠ lsicIpl := by
    have hdiv : src / 32 < 2 := by omega
    intro heq
    simp only [lsicPending0, lsicIpl] at heq
    omega
  have hzero : ¬(l.raise src).Pending 0 := by
    rw [Lsic.raise_pending]
    rintro (hp | heq)
    · exact h.zero hp
    · omega
  exact h.setRegister hreg hzero

theorem LsicLevels.writePending {l : Lsic} (h : LsicLevels l) {reg : Nat} (hreg : reg ≠ lsicIpl)
    (value : Word) : LsicLevels (l.writePending reg value) := by
  have hzero : ¬(l.writePending reg value).Pending 0 := by
    rw [Lsic.writePending_pending]
    split
    · rintro ⟨_, hp | ⟨_, hne⟩⟩
      · exact h.zero hp
      · exact hne rfl
    · exact h.zero
  unfold Lsic.writePending at hzero ⊢
  split at hzero
  · next hv =>
      rw [if_pos hv]
      exact h.setRegister hreg hzero
  · next hv =>
      rw [if_neg hv]
      exact h.setRegister hreg hzero

theorem LsicLevels.complete {l l' : Lsic} (h : LsicLevels l) {value : Word}
    (hc : l.complete value = ⟨l', true⟩) : LsicLevels l' := by
  have hzero : ¬l'.Pending 0 := by
    rw [Lsic.complete_pending hc 0 (by decide)]
    exact fun hp => h.zero hp.1
  unfold Lsic.complete at hc
  split at hc
  · cases hc
  · next hlt =>
      have hv : value.toNat < 64 := BitVec.lt_def.mp (BitVec.not_le.mp hlt)
      have hdiv : (value >>> 5).toNat = value.toNat / 32 := by
        rw [BitVec.toNat_ushiftRight, Nat.shiftRight_eq_div_pow]
      obtain ⟨rfl, -⟩ := LsicReply.mk.inj hc
      refine h.setRegister ?_ hzero
      rw [hdiv]
      intro heq
      simp only [lsicPending0, lsicIpl] at heq
      omega

/-- A new IPL: the low word is over sources 1 to 31, the high word over 32 to 63. -/
theorem LsicLevels.writeIpl {l l' : Lsic} (h : LsicLevels l) {value : Word}
    (hw : l.writeIpl value = ⟨l', true⟩) : LsicLevels l' := by
  unfold Lsic.writeIpl at hw
  split at hw
  · cases hw
  · next hlt =>
      have hv : value.toNat < 64 := BitVec.lt_def.mp (BitVec.not_le.mp hlt)
      have hpend : (l.setRegister lsicIpl value).Pending 0 ↔ l.Pending 0 := by
        rw [Lsic.setRegister_pending, if_neg (by decide)]
      have hzero : ¬(l.setRegister lsicIpl value).Pending 0 := fun hp => h.zero (hpend.mp hp)
      split at hw
      · next h32 =>
          have hge : 32 ≤ value.toNat := BitVec.le_def.mp h32
          have hsub : (value - 32).toNat = value.toNat - 32 := by
            rw [BitVec.toNat_sub_of_le h32]
            rfl
          obtain ⟨rfl, -⟩ := LsicReply.mk.inj hw
          refine ⟨by simpa using hv, fun src h1 h64 => ?_, hzero⟩
          simp only [Lsic.iplMask, Lsic.setRegister_registers, Function.update_self, hsub]
          by_cases hlow : src < 32
          · have hones : (0xFFFFFFFF : Word).getLsbD (src % 32) = true := by
              have h := lsicIplMask_getLsbD 31 (by decide) (src % 32) (Nat.mod_lt _ (by decide))
              rw [show (0xFFFFFFFF : Word) = lsicIplMask 31 from rfl, h]
              exact decide_eq_true (by omega)
            rw [if_pos hlow, hones]
            exact ⟨fun _ => by omega, fun _ => rfl⟩
          · rw [if_neg hlow, lsicIplMask_getLsbD _ (by omega) _ (Nat.mod_lt _ (by decide)),
              decide_eq_true_eq]
            omega
      · next h32 =>
          have hlt32 : value.toNat < 32 := BitVec.lt_def.mp (BitVec.not_le.mp h32)
          obtain ⟨rfl, -⟩ := LsicReply.mk.inj hw
          refine ⟨by simpa using hv, fun src h1 h64 => ?_, hzero⟩
          simp only [Lsic.iplMask, Lsic.setRegister_registers, Function.update_self]
          by_cases hlow : src < 32
          · rw [if_pos hlow, lsicIplMask_getLsbD _ hlt32 _ (Nat.mod_lt _ (by decide)),
              decide_eq_true_eq]
            omega
          · rw [if_neg hlow]
            constructor
            · intro hbit
              simp at hbit
            · intro hle
              omega

/-- A write is refused before anything is stored. -/
theorem Lsic.writeRegister_cases (l : Lsic) (reg : Nat) (value : Word) :
    l.writeRegister reg value = ⟨l, false⟩ ∨ ∃ l', l.writeRegister reg value = ⟨l', true⟩ := by
  unfold Lsic.writeRegister
  split
  · exact .inr ⟨_, rfl⟩
  · exact .inr ⟨_, rfl⟩
  · exact .inr ⟨_, rfl⟩
  · exact .inr ⟨_, rfl⟩
  · unfold Lsic.complete
    split
    · exact .inl rfl
    · exact .inr ⟨_, rfl⟩
  · unfold Lsic.writeIpl
    split
    · exact .inl rfl
    · split
      · exact .inr ⟨_, rfl⟩
      · exact .inr ⟨_, rfl⟩
  · exact .inl rfl

/-- Every write that is accepted. -/
theorem LsicLevels.writeRegister {l l' : Lsic} (h : LsicLevels l) {reg : Nat} {value : Word}
    (hw : l.writeRegister reg value = ⟨l', true⟩) : LsicLevels l' := by
  unfold Lsic.writeRegister at hw
  have hmask : ∀ r, r = 0 ∨ r = 1 → LsicLevels (l.setRegister r value) := by
    rintro r hr
    refine h.setRegister (by simp only [lsicIpl]; omega) ?_
    rw [Lsic.setRegister_pending, if_neg (by simp only [lsicPending0]; omega)]
    exact h.zero
  split at hw
  · obtain ⟨rfl, -⟩ := LsicReply.mk.inj hw
    exact hmask 0 (Or.inl rfl)
  · obtain ⟨rfl, -⟩ := LsicReply.mk.inj hw
    exact hmask 1 (Or.inr rfl)
  · obtain ⟨rfl, -⟩ := LsicReply.mk.inj hw
    exact h.writePending (by decide) value
  · obtain ⟨rfl, -⟩ := LsicReply.mk.inj hw
    exact h.writePending (by decide) value
  · exact h.complete hw
  · exact h.writeIpl hw
  · cases hw

section

variable {present : Nat → Bool}

/-- What `LsicWrite` can do. -/
theorem lsicWrite_cases (s : LsicTable) (reg : Nat) (value : Word) :
    lsicWrite present s reg value = ⟨s, false⟩ ∨
    ∃ l, lsicExists present (reg / 8) = true ∧
      (s (reg / 8)).writeRegister (reg % 8) value = ⟨l, true⟩ ∧
      lsicWrite present s reg value = ⟨Function.update s (reg / 8) l.refresh, true⟩ := by
  unfold lsicWrite
  split
  · next hexists =>
      rcases (s (reg / 8)).writeRegister_cases (reg % 8) value with hw | ⟨l, hw⟩
      · left
        simp only [hw]
        rw [Function.update_eq_self]
        rfl
      · exact .inr ⟨l, hexists, hw, by rw [hw]; rfl⟩
  · exact .inl rfl

theorem lsicInv_update {s : LsicTable} (h : ∀ id, LsicInv (s id)) (id : Nat) {l : Lsic}
    (hl : LsicInv l) : ∀ id', LsicInv (Function.update s id l id') := by
  intro id'
  by_cases heq : id' = id
  · subst heq
    rw [Function.update_self]
    exact hl
  · rw [Function.update_of_ne heq]
    exact h id'

/-- A broadcast, over any list of processors. -/
theorem lsicInv_interrupt {src : Nat} (h1 : 1 ≤ src) (h64 : src < 64) (ids : List Nat)
    {s : LsicTable} (h : ∀ id, LsicInv (s id)) :
    ∀ id, LsicInv (ids.foldl
      (fun s id => if present id then lsicInterruptTargeted s id src else s) s id) := by
  induction ids generalizing s with
  | nil => exact h
  | cons id ids ih =>
      rw [List.foldl_cons]
      apply ih
      split
      · exact lsicInv_update h id ((h id).toLsicLevels.raise h1 h64).refresh
      · exact h

/-- One call. -/
theorem lsicInv_step {s : LsicTable} (h : ∀ id, LsicInv (s id)) {op : LsicOp}
    (hop : op.Legal present) : ∀ id, LsicInv (op.step present s id) := by
  cases op with
  | interruptTargeted id src =>
      obtain ⟨_, h1, h64⟩ := hop
      exact lsicInv_update h id ((h id).toLsicLevels.raise h1 h64).refresh
  | interrupt src => exact lsicInv_interrupt hop.1 hop.2 (List.range 16) h
  | write reg value =>
      simp only [LsicOp.step]
      rcases lsicWrite_cases s reg value with hfails | ⟨l, -, hw, hdone⟩
      · rw [hfails]
        exact h
      · rw [hdone]
        exact lsicInv_update h (reg / 8) ((h (reg / 8)).toLsicLevels.writeRegister hw).refresh
  | read reg => exact h

/-- Every run, one call after another. -/
theorem lsicInv_run {ops : List LsicOp} (hops : ∀ op ∈ ops, op.Legal present) :
    ∀ id, LsicInv (lsicRun present ops id) := by
  induction ops using List.reverseRecOn with
  | nil => exact fun _ => lsicInv_zeroed
  | append_singleton ops op ih =>
      have hstep := lsicInv_step (ih fun x hx => hops x (List.mem_append_left _ hx))
        (hops op (by simp))
      simpa [lsicRun, List.foldl_append] using hstep

/-! ## The flag and the claim register -/

/-- The sources a claim chooses from. -/
def Lsic.Claimable (l : Lsic) : Set Nat :=
  {i | 1 ≤ i ∧ i ≤ (l.registers lsicIpl).toNat ∧ l.Pending i ∧ ¬l.Masked i}

/-- The flag says whether a read of CLAIM_COMPLETE returns a source, and such a read
returns the least. -/
structure LsicConsistent (present : Nat → Bool) (s : LsicTable) (id : Nat) (v : Word) : Prop where
  reads : lsicRead present s (8 * id + lsicClaimComplete) = some v
  flag : (s id).interruptPending = true ↔ v ≠ 0
  none : v = 0 ↔ (s id).Claimable = ∅
  least : v ≠ 0 → IsLeast (s id).Claimable v.toNat

theorem LsicInv.consistent {s : LsicTable} {id : Nat} (h : LsicInv (s id))
    (hid : lsicExists present id = true) :
    LsicConsistent present s id (BitVec.ofNat 32 (s id).claim) := by
  have hset : (s id).Claimable =
      {i | 1 ≤ i ∧ i ≤ ((s id).registers lsicIpl).toNat ∧ (s id).claimable i = true} := by
    ext i
    simp only [Lsic.Claimable, Set.mem_ofPred_eq, Lsic.claimable_iff]
  obtain ⟨hsome, hleast⟩ := (s id).claim_spec
  have hle : (s id).claim ≤ ((s id).registers lsicIpl).toNat := by
    by_cases hz : (s id).claim = 0
    · omega
    · exact (hleast hz).1.2.1
  have hipl := h.ipl
  have htoNat : (BitVec.ofNat 32 (s id).claim).toNat = (s id).claim := by
    rw [BitVec.toNat_ofNat]
    exact Nat.mod_eq_of_lt (by omega)
  have hzero : BitVec.ofNat 32 (s id).claim = 0 ↔ (s id).claim = 0 := by
    constructor
    · intro hz
      rw [← htoNat, hz]
      rfl
    · intro hz
      rw [hz]
      rfl
  constructor
  · have hdiv : (8 * id + lsicClaimComplete) / 8 = id := by
      simp only [lsicClaimComplete]
      omega
    have hmod : (8 * id + lsicClaimComplete) % 8 = lsicClaimComplete := by
      simp only [lsicClaimComplete]
      omega
    rw [lsicRead, hdiv, hmod, if_pos hid]
    rfl
  · rw [h.flag, h.toLsicLevels.anyPending_iff, ← hsome, Ne, Ne, hzero]
  · rw [hzero, hset]
    exact not_iff_not.mp (hsome.trans Set.nonempty_iff_ne_empty)
  · intro hne
    rw [htoNat, hset]
    exact hleast fun hz => hne (hzero.mpr hz)

/-- In every state reached: the flag and the claim register of every processor agree,
the claim is the least source, and a call that fails changes nothing. -/
theorem lsic_consistent {ops : List LsicOp} (hops : ∀ op ∈ ops, op.Legal present) :
    (∀ id, lsicExists present id = true → ∃ v, LsicConsistent present (lsicRun present ops) id v) ∧
      ∀ op, LsicOp.fails present (lsicRun present ops) op = true →
        LsicOp.step present (lsicRun present ops) op = lsicRun present ops := by
  constructor
  · intro id hid
    exact ⟨_, (lsicInv_run hops id).consistent hid⟩
  · intro op hfails
    cases op with
    | interruptTargeted id src => cases hfails
    | interrupt src => cases hfails
    | write reg value =>
        have hcases := @lsicWrite_cases present (lsicRun present ops) reg value
        rcases hcases with hwrite | ⟨l, -, -, hwrite⟩
        · simp only [LsicOp.step, hwrite]
        · simp only [LsicOp.fails, hwrite] at hfails
          cases hfails
    | read reg => rfl

/-- Source 40 raised on processor 0 at IPL 63. -/
theorem lsic_consistent_raised : ∃ v, LsicConsistent (fun _ => true)
    (lsicRun (fun _ => true) [.write lsicIpl 63, .interruptTargeted 0 40]) 0 v := by
  refine (lsic_consistent ?_).1 0 (by decide)
  intro op hop
  simp only [List.mem_cons, List.not_mem_nil, or_false] at hop
  rcases hop with rfl | rfl
  · trivial
  · exact ⟨by decide, by decide, by decide⟩

end

end Xremu
