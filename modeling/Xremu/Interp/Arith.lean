import Xremu.Devices.HostPath
import Xremu.Fast.Build
import Xremu.Interp.Block

/-!
# Arithmetic as the handlers write it

The handlers compute with the operators of C, and C does not define a shift by the
width or more, a division by zero, or the quotient that is one too large.
`XrFunc.formula` is the expression of each handler over operators that say so.

The semantics of the instructions (`XrFunc.exec`) is what the expression yields, with
two exceptions (`arith_evaluates_iff`).
-/

namespace Xremu

/-! ## The operators of C -/

namespace CWord

variable {w : Nat}

def shl (x n : BitVec w) : Option (BitVec w) := if n.toNat < w then some (x <<< n) else none

def shr (x n : BitVec w) : Option (BitVec w) := if n.toNat < w then some (x >>> n) else none

/-- The right shift of a signed value. -/
def sar (x n : BitVec w) : Option (BitVec w) :=
  if n.toNat < w then some (x.sshiftRight' n) else none

def div (x y : BitVec w) : Option (BitVec w) := if y = 0 then none else some (x / y)

def mod (x y : BitVec w) : Option (BitVec w) := if y = 0 then none else some (x % y)

/-- The quotient of signed values. -/
def sdiv (x y : BitVec w) : Option (BitVec w) :=
  if y = 0 ∨ (x = BitVec.intMin w ∧ y = -1) then none else some (x.sdiv y)

variable {x n y : BitVec w}

theorem shl_of_lt (h : n.toNat < w) : shl x n = some (x <<< n) := if_pos h
theorem shr_of_lt (h : n.toNat < w) : shr x n = some (x >>> n) := if_pos h
theorem sar_of_lt (h : n.toNat < w) : sar x n = some (x.sshiftRight' n) := if_pos h
theorem shl_of_le (h : w ≤ n.toNat) : shl x n = none := if_neg (Nat.not_lt_of_le h)
theorem div_of_ne (h : y ≠ 0) : div x y = some (x / y) := if_neg h
theorem mod_of_ne (h : y ≠ 0) : mod x y = some (x % y) := if_neg h

theorem sdiv_of_fits (h : y ≠ 0) (hfits : ¬(x = BitVec.intMin w ∧ y = -1)) :
    sdiv x y = some (x.sdiv y) := by
  apply if_neg
  rintro (hzero | hover)
  · exact h hzero
  · exact hfits hover

end CWord

/-! ## The expressions -/

/-- `RoR`, by its shifts. -/
def cRoR (x n : Word) : Option Word :=
  (CWord.shr x (n &&& 31)).bind fun low =>
    (CWord.shl x (32 - (n &&& 31))).map fun high => low ||| high

/-- Where an instruction has its operands: RA and RB, RA and an immediate, or RB and
the count of an inserted shift. -/
inductive XrForm where
  | regs
  | imm
  | shift
deriving DecidableEq

namespace XrFunc

/-- The form of an arithmetic instruction, and the expression of its handler. -/
def formula : XrFunc → Option (XrForm × (Word → Word → Option Word))
  | .nor => some (.regs, fun ra rb => some (~~~(ra ||| rb)))
  | .or => some (.regs, fun ra rb => some (ra ||| rb))
  | .xor => some (.regs, fun ra rb => some (ra ^^^ rb))
  | .and => some (.regs, fun ra rb => some (ra &&& rb))
  | .sltSigned => some (.regs, fun ra rb => some (boolWord (ra.slt rb)))
  | .slt => some (.regs, fun ra rb => some (boolWord (ra.ult rb)))
  | .sub => some (.regs, fun ra rb => some (ra - rb))
  | .add => some (.regs, fun ra rb => some (ra + rb))
  | .lsh => some (.regs, fun ra rb => CWord.shl rb (ra &&& 31))
  | .rsh => some (.regs, fun ra rb => CWord.shr rb (ra &&& 31))
  | .ash => some (.regs, fun ra rb => CWord.sar rb (ra &&& 31))
  | .ror => some (.regs, fun ra rb => cRoR rb (ra &&& 31))
  | .mod => some (.regs, fun ra rb => if rb = 0 then some 0 else CWord.mod ra rb)
  | .divSigned => some (.regs, fun ra rb => if rb = 0 then some 0 else CWord.sdiv ra rb)
  | .div => some (.regs, fun ra rb => if rb = 0 then some 0 else CWord.div ra rb)
  | .mul => some (.regs, fun ra rb => some (ra * rb))
  | .ori => some (.imm, fun ra imm => some (ra ||| imm))
  | .xori => some (.imm, fun ra imm => some (ra ^^^ imm))
  | .andi => some (.imm, fun ra imm => some (ra &&& imm))
  | .sltiSigned => some (.imm, fun ra imm => some (boolWord (ra.slt imm)))
  | .slti => some (.imm, fun ra imm => some (boolWord (ra.ult imm)))
  | .subi => some (.imm, fun ra imm => some (ra - imm))
  | .addi => some (.imm, fun ra imm => some (ra + imm))
  | .virtualLsh => some (.shift, CWord.shl)
  | .virtualRsh => some (.shift, CWord.shr)
  | .virtualAsh => some (.shift, CWord.sar)
  | .virtualRor => some (.shift, cRoR)
  | _ => none

/-- The operands that the expression of the handler leaves undefined: the smallest
number divided by minus one, and a rotation by nothing. -/
def Overflows (func : XrFunc) (a b : Word) : Prop :=
  (func = .divSigned ∧ a = 0x80000000 ∧ b = 0xFFFFFFFF) ∨ (func = .ror ∧ a &&& 31 = 0)

end XrFunc

theorem and31_lt (n : Word) : (n &&& 31).toNat < 32 := by
  rw [BitVec.toNat_and]
  exact Nat.lt_of_le_of_lt Nat.and_le_right (by decide)

/-- The left shift of a rotation is by 32 minus the count. -/
theorem cRoR_of_ne {x n : Word} (h : n &&& 31 ≠ 0) : cRoR x n = some (roR x (n &&& 31)) := by
  have hlt := and31_lt n
  have hpos : (n &&& 31).toNat ≠ 0 := by
    intro hzero
    exact h (BitVec.eq_of_toNat_eq hzero)
  have hsub : (32 - (n &&& 31)).toNat = 32 - (n &&& 31).toNat := by
    have hle : n &&& 31 ≤ 32 := Nat.le_of_lt hlt
    exact BitVec.toNat_sub_of_le hle
  unfold cRoR roR
  rw [CWord.shr_of_lt hlt, CWord.shl_of_lt (by omega), BitVec.rotateRight_def,
    Nat.mod_eq_of_lt hlt]
  show some (x >>> (n &&& 31).toNat ||| x <<< (32 - (n &&& 31)).toNat) = _
  rw [hsub]

theorem cRoR_of_eq {x n : Word} (h : n &&& 31 = 0) : cRoR x n = none := by
  have hfull : CWord.shl x (32 - (n &&& 31)) = none := by
    rw [h]
    exact CWord.shl_of_le (by decide)
  unfold cRoR
  rw [CWord.shr_of_lt (and31_lt n), Option.bind_some, hfull]
  rfl

section

variable {M : Type}

/-! ## Operands and results -/

namespace XrForm

def operands (form : XrForm) (inst : XrCachedInst) (m : Machine M) : Word × Word :=
  match form with
  | .regs => (m.reg inst.imm8_2, m.reg inst.imm32_1.toNat)
  | .imm => (m.reg inst.imm8_2, inst.imm32_1)
  | .shift => (m.reg inst.imm8_1, BitVec.ofNat 32 inst.imm8_2)

/-- An inserted shift belongs to the next instruction. -/
def result (form : XrForm) (inst : XrCachedInst) (m : Machine M) (v : Word) : Machine M :=
  match form with
  | .regs | .imm => (m.setReg inst.imm8_1 v).setPc (m.proc.pc + 4)
  | .shift => m.setReg fakeShiftSink v

end XrForm

/-! ## The counts of inserted shifts -/

theorem irShift_toNat (ir : Word) : (BitVec.ofNat 32 (irShift ir)).toNat = irShift ir := by
  have hlt : irShift ir < 32 := irField_lt ir 21
  rw [BitVec.toNat_ofNat]
  omega

theorem XrDecoder.Proper.shift {d : XrDecoder} (h : d.Proper) {tbmiss : Bool} {ir pc : Word}
    {i : XrCachedInst} (hi : i ∈ d.insts tbmiss ir pc) (hk : i.func.kind = .shift) :
    i.imm8_2 = irShift ir ∧ irShift ir ≠ 0 := by
  have hshifted : ∀ {rb : Nat} {inst : Nat → XrCachedInst}, (∀ n, (inst n).func.kind = .step) →
      i ∈ insertShift ir rb inst → i.imm8_2 = irShift ir ∧ irShift ir ≠ 0 := by
    intro rb inst hstep hmem
    rcases insertShift_cases hmem with ⟨_, hshift⟩ | ⟨n, rfl⟩
    · exact hshift
    · rw [hstep n] at hk
      cases hk
  have hkind := h.kinds hi
  rw [hk] at hkind
  cases d with
  | regs func =>
      simp only [XrDecoder.insts] at hi
      refine hshifted ?_ hi
      exact fun _ => h
  | storeRegs func =>
      simp only [XrDecoder.insts] at hi
      refine hshifted ?_ hi
      exact fun _ => h.1
  | _ => simp [XrDecoder.kinds] at hkind

/-! ## Every instruction but two -/

variable [XrBuild M]

/-- The handler's expression has a value, and it is what the instruction is for. -/
def XrCachedInst.Evaluates (inst : XrCachedInst) (m : Machine M) (block : Nat) (form : XrForm)
    (f : Word → Word → Option Word) : Prop :=
  ∃ v, f (form.operands inst m).1 (form.operands inst m).2 = some v ∧
    inst.exec m block = some (form.result inst m v, .next)

variable {inst : XrCachedInst} {form : XrForm} {f : Word → Word → Option Word}

omit [XrBuild M] in
/-- The guard of the divisions. -/
theorem evaluates_guarded {out : Option (Machine M × XrExit)} {m : Machine M}
    {b quotient : Word} {c : Option Word} (hdone : b ≠ 0 → c = some quotient)
    (hout : out = some (XrForm.regs.result inst m (if b = 0 then 0 else quotient), .next)) :
    ∃ v, (if b = 0 then some 0 else c) = some v ∧
      out = some (XrForm.regs.result inst m v, .next) := by
  by_cases hzero : b = 0
  · rw [if_pos hzero] at hout
    exact ⟨0, if_pos hzero, hout⟩
  · rw [if_neg hzero] at hout
    refine ⟨quotient, ?_, hout⟩
    rw [if_neg hzero]
    exact hdone hzero

theorem arith_evaluates {tbmiss : Bool} {ir pc : Word}
    (hdecode : inst ∈ (xrDecode tbmiss ir pc).insts) (hf : inst.func.formula = some (form, f))
    (m : Machine M) (block : Nat)
    (hfits : ¬inst.func.Overflows (form.operands inst m).1 (form.operands inst m).2) :
    inst.Evaluates m block form f := by
  have hcount : inst.func.kind = .shift → (BitVec.ofNat 32 inst.imm8_2).toNat < 32 ∧
      BitVec.ofNat 32 inst.imm8_2 &&& 31 = BitVec.ofNat 32 inst.imm8_2 ∧
      BitVec.ofNat 32 inst.imm8_2 ≠ 0 := by
    intro hk
    obtain ⟨heq, hne⟩ := (xrDecoder_proper ir).shift hdecode hk
    have hlt : irShift ir < 32 := irField_lt ir 21
    have hnat := irShift_toNat ir
    rw [heq]
    refine ⟨by omega, ?_, ?_⟩
    · apply BitVec.eq_of_toNat_eq
      rw [BitVec.toNat_and, hnat]
      exact (Nat.and_two_pow_sub_one_eq_mod (irShift ir) 5).trans (Nat.mod_eq_of_lt hlt)
    · intro hzero
      rw [hzero] at hnat
      exact hne hnat.symm
  obtain ⟨func, imm32_1, imm8_1, imm8_2⟩ := inst
  cases func
  case lsh =>
    cases hf
    exact ⟨_, CWord.shl_of_lt (and31_lt _), rfl⟩
  case rsh =>
    cases hf
    exact ⟨_, CWord.shr_of_lt (and31_lt _), rfl⟩
  case ash =>
    cases hf
    exact ⟨_, CWord.sar_of_lt (and31_lt _), rfl⟩
  case ror =>
    cases hf
    have hne : m.reg imm8_2 &&& 31 ≠ 0 := fun hzero => hfits (Or.inr ⟨rfl, hzero⟩)
    have hmask : m.reg imm8_2 &&& 31 &&& 31 = m.reg imm8_2 &&& 31 := by
      rw [BitVec.and_assoc, BitVec.and_self]
    refine ⟨_, cRoR_of_ne ?_, ?_⟩
    · show m.reg imm8_2 &&& 31 &&& 31 ≠ 0
      rw [hmask]
      exact hne
    · show some _ = some (m.setReg imm8_1 (roR _ (m.reg imm8_2 &&& 31 &&& 31)) |>.setPc _, _)
      rw [hmask]
      rfl
  case mod =>
    cases hf
    exact evaluates_guarded (fun hne => CWord.mod_of_ne hne) rfl
  case divSigned =>
    cases hf
    refine evaluates_guarded (fun hne => CWord.sdiv_of_fits hne ?_) rfl
    rintro ⟨hmin, hminus⟩
    exact hfits (Or.inl ⟨rfl, hmin, hminus⟩)
  case div =>
    cases hf
    exact evaluates_guarded (fun hne => CWord.div_of_ne hne) rfl
  case virtualLsh =>
    cases hf
    exact ⟨_, CWord.shl_of_lt (hcount rfl).1, rfl⟩
  case virtualRsh =>
    cases hf
    exact ⟨_, CWord.shr_of_lt (hcount rfl).1, rfl⟩
  case virtualAsh =>
    cases hf
    exact ⟨_, CWord.sar_of_lt (hcount rfl).1, rfl⟩
  case virtualRor =>
    cases hf
    obtain ⟨_, hmask, hne⟩ := hcount rfl
    refine ⟨_, cRoR_of_ne ?_, ?_⟩
    · show BitVec.ofNat 32 imm8_2 &&& 31 ≠ 0
      rw [hmask]
      exact hne
    · show some _ = some (m.setReg fakeShiftSink (roR _ (BitVec.ofNat 32 imm8_2 &&& 31)), _)
      rw [hmask]
      rfl
  -- What is left cannot go wrong, or is no arithmetic.
  all_goals
    first
    | (cases hf; exact ⟨_, rfl, rfl⟩)
    | cases hf

/-- The undefined operands of signed division and rotation. -/
theorem formula_overflows (hf : inst.func.formula = some (form, f)) {a b : Word}
    (hover : inst.func.Overflows a b) : f a b = none := by
  rcases hover with ⟨hfunc, rfl, rfl⟩ | ⟨hfunc, hzero⟩
  · rw [hfunc] at hf
    cases hf
    decide
  · rw [hfunc] at hf
    cases hf
    apply cRoR_of_eq
    rw [hzero]
    decide

/-- Every arithmetic instruction of every word, with any registers. -/
theorem arith_evaluates_iff {tbmiss : Bool} {ir pc : Word}
    (hdecode : inst ∈ (xrDecode tbmiss ir pc).insts) (hf : inst.func.formula = some (form, f))
    (m : Machine M) (block : Nat) :
    inst.Evaluates m block form f ↔
      ¬inst.func.Overflows (form.operands inst m).1 (form.operands inst m).2 := by
  constructor
  · rintro ⟨v, hv, _⟩ hover
    rw [formula_overflows hf hover] at hv
    cases hv
  · exact arith_evaluates hdecode hf m block

end

/-! ## DIV SIGNED and ROR of r2 and r3 into r1 -/

def divSignedWord : Word := 0xC0031071
def rorWord : Word := 0x8C031079
def divSignedInst : XrCachedInst := ⟨.divSigned, 3, 1, 2⟩
def rorInst : XrCachedInst := ⟨.ror, 3, 1, 2⟩

theorem divSignedInst_decoded : divSignedInst ∈ (xrDecode false divSignedWord 0).insts := by decide
theorem rorInst_decoded : rorInst ∈ (xrDecode false rorWord 0).insts := by decide

/-- A processor with these in r2 and r3. -/
def withRegs (r2 r3 : Word) : Machine (XrFastMem (XrStation Unit)) :=
  ((stationMachine 0).setReg 2 r2).setReg 3 r3

/-- Signed division of the smallest number by something else. -/
theorem arith_evaluates_division :
    divSignedInst.Evaluates (withRegs 0x80000000 3) 0 .regs
      (fun ra rb => if rb = 0 then some 0 else CWord.sdiv ra rb) := by
  apply (arith_evaluates_iff divSignedInst_decoded rfl (withRegs 0x80000000 3) 0).mpr
  rintro (⟨_, _, hminus⟩ | ⟨hror, _⟩)
  · exact absurd hminus (by decide)
  · cases hror

/-- The division overflows, and the rotation shifts by 32. -/
theorem division_and_rotation_undefined :
    divSignedInst ∈ (xrDecode false divSignedWord 0).insts ∧
    ¬divSignedInst.Evaluates (withRegs 0x80000000 0xFFFFFFFF) 0 .regs
      (fun ra rb => if rb = 0 then some 0 else CWord.sdiv ra rb) ∧
    rorInst ∈ (xrDecode false rorWord 0).insts ∧
    ¬rorInst.Evaluates (withRegs 32 3) 0 .regs (fun ra rb => cRoR rb (ra &&& 31)) := by
  refine ⟨divSignedInst_decoded, ?_, rorInst_decoded, ?_⟩
  · rintro ⟨v, hv, _⟩
    have hnone : (if (0xFFFFFFFF : Word) = 0 then some 0 else
        CWord.sdiv (0x80000000 : Word) 0xFFFFFFFF) = none := by decide
    exact absurd (hv.symm.trans hnone) (Option.some_ne_none v)
  · rintro ⟨v, hv, _⟩
    have hnone : cRoR 3 ((32 : Word) &&& 31) = none := by decide
    exact absurd (hv.symm.trans hnone) (Option.some_ne_none v)

end Xremu
