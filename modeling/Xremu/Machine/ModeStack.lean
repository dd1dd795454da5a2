import Xremu.Machine.ControlRegs

/-!
# The mode stack

RS holds a stack of three mode bytes below the ECAUSE bits. An exception pushes it,
RFE pops it. RS is looked at here one bit at a time: each of the four operations on
it moves bits up or down by whole bytes or clears some. What they make together,
RS in the handler of a miss and of a basic exception, gets its bits once and is
then popped, pushed again or compared without looking at a mask.
-/

namespace Xremu

/-! ## The operations on RS -/

/-- `XrPushMode`. -/
def xrPushedRs (rs : Word) : Word := (rs &&& (0xFF0000FF : Word)) ||| ((rs &&& (0xFFFF : Word)) <<< 8)

/-- `XrSetEcause`. -/
def xrEcausedRs (rs exc : Word) : Word := (rs &&& (0x0FFFFFFF : Word)) ||| (exc <<< 28)

/-- The mode bits of `XrVectorException`. -/
def xrVectoredRs (rs : Word) : Word := (rs &&& 0xFFFFFF00) ||| exceptionMode rs

theorem mask_low8 : ∀ i, i < 32 →
    (0xFF0000FF : Word).getLsbD i = (decide (i < 8) || decide (24 ≤ i)) := by
  decide

theorem mask_low16 : ∀ i, i < 32 → (0xFFFF : Word).getLsbD i = decide (i < 16) := by
  decide

theorem mask_low28 : ∀ i, i < 32 → (0x0FFFFFFF : Word).getLsbD i = decide (i < 28) := by
  decide

theorem mask_high24 : ∀ i, i < 32 → (0xFFFFFF00 : Word).getLsbD i = decide (8 ≤ i) := by
  decide

theorem mask_high4 : ∀ i, i < 32 → (0xF0000000 : Word).getLsbD i = decide (28 ≤ i) := by
  decide

theorem mask_mode : ∀ i, i < 32 →
    (0xFC : Word).getLsbD i = (decide (2 ≤ i) && decide (i < 8)) := by
  decide

theorem rsMmu_bit : ∀ i, i < 32 → (rsMmu : Word).getLsbD i = decide (i = 2) := by
  decide

theorem rsTbmiss_bit : ∀ i, i < 32 → (rsTbmiss : Word).getLsbD i = decide (i = 3) := by
  decide

theorem rsUser_bit : ∀ i, i < 32 → (rsUser : Word).getLsbD i = decide (i = 0) := by
  decide

theorem rsLegacy_bit : ∀ i, i < 32 → (rsLegacy : Word).getLsbD i = decide (i = 7) := by
  decide

/-- Is the only bit of a mask set? -/
theorem and_bit_eq_zero {rs mask : Word} {k : Nat} (hk : k < 32)
    (hmask : ∀ i, i < 32 → mask.getLsbD i = decide (i = k)) :
    rs &&& mask = 0 ↔ rs.getLsbD k = false := by
  constructor
  · intro h
    have hbit := congrArg (fun v : Word => v.getLsbD k) h
    simpa [BitVec.getLsbD_and, hmask k hk] using hbit
  · intro h
    apply BitVec.eq_of_getLsbD_eq
    intro i hi
    rw [BitVec.getLsbD_and, hmask i hi]
    by_cases heq : i = k
    · subst heq
      simp [h]
    · simp [heq]

theorem pushedRs_bit (rs : Word) (i : Nat) (hi : i < 32) :
    (xrPushedRs rs).getLsbD i = if i < 8 ∨ 24 ≤ i then rs.getLsbD i else rs.getLsbD (i - 8) := by
  unfold xrPushedRs
  simp only [BitVec.getLsbD_or, BitVec.getLsbD_and, BitVec.getLsbD_shiftLeft]
  rw [mask_low8 i hi, mask_low16 (i - 8) (by omega)]
  by_cases h8 : i < 8
  · simp [h8]
  · by_cases h24 : 24 ≤ i
    · have h16 : ¬i - 8 < 16 := by omega
      simp [h8, h24, h16]
    · have h16 : i - 8 < 16 := by omega
      simp [h8, h24, h16, hi]

theorem ecausedRs_bit (rs exc : Word) (i : Nat) (hi : i < 32) :
    (xrEcausedRs rs exc).getLsbD i = if i < 28 then rs.getLsbD i else exc.getLsbD (i - 28) := by
  unfold xrEcausedRs
  simp only [BitVec.getLsbD_or, BitVec.getLsbD_and, BitVec.getLsbD_shiftLeft]
  rw [mask_low28 i hi]
  by_cases h28 : i < 28
  · simp [h28]
  · simp [h28, hi]

theorem poppedRs_bit (rs : Word) (i : Nat) (hi : i < 32) :
    (xrPoppedRs rs).getLsbD i =
      if i < 16 then rs.getLsbD (i + 8) else decide (28 ≤ i) && rs.getLsbD i := by
  unfold xrPoppedRs
  simp only [BitVec.getLsbD_or, BitVec.getLsbD_and, BitVec.getLsbD_ushiftRight]
  rw [mask_high4 i hi, mask_low16 i hi, Nat.add_comm 8 i]
  by_cases h16 : i < 16
  · have h28 : ¬28 ≤ i := by omega
    simp [h16, h28]
  · simp [h16, Bool.and_comm]

theorem exceptionMode_bit (rs : Word) (i : Nat) (hi : i < 32) :
    (exceptionMode rs).getLsbD i = (rs.getLsbD i && decide (2 ≤ i) && decide (i < 8) &&
      !(decide (i = 2) && rs.getLsbD 7)) := by
  unfold exceptionMode
  have hleg := @and_bit_eq_zero rs rsLegacy 7 (by decide) rsLegacy_bit
  by_cases h : rs &&& rsLegacy = 0
  · have h7 := hleg.mp h
    simp only [h, bne_self_eq_false, Bool.false_eq_true, if_false, BitVec.getLsbD_and, h7]
    rw [mask_mode i hi]
    simp [Bool.and_assoc]
  · have h7 : rs.getLsbD 7 = true := eq_true_of_ne_false fun hf => h (hleg.mpr hf)
    have hne : (rs &&& rsLegacy != 0) = true := bne_iff_ne.mpr h
    simp only [hne, if_true, BitVec.getLsbD_and, BitVec.getLsbD_not, h7]
    rw [mask_mode i hi, rsMmu_bit i hi]
    simp [hi, Bool.and_assoc]

theorem vectoredRs_bit (rs : Word) (i : Nat) (hi : i < 32) :
    (xrVectoredRs rs).getLsbD i = (rs.getLsbD i && (decide (8 ≤ i) ||
      (decide (2 ≤ i) && !(decide (i = 2) && rs.getLsbD 7)))) := by
  unfold xrVectoredRs
  rw [BitVec.getLsbD_or, BitVec.getLsbD_and, exceptionMode_bit rs i hi, mask_high24 i hi]
  by_cases h8 : 8 ≤ i
  · have hlt : ¬i < 8 := by omega
    simp [h8, hlt]
  · have hlt : i < 8 := by omega
    simp [h8, hlt, Bool.and_assoc]

/-! ## The mode stack as a whole -/

/-- Two values agree below bit `n` of the mode stack. -/
theorem and_mask_eq {u v mask : Word} (n : Nat)
    (hmask : ∀ i, i < 32 → mask.getLsbD i = decide (i < n))
    (h : ∀ i, i < n → i < 32 → u.getLsbD i = v.getLsbD i) : u &&& mask = v &&& mask := by
  apply BitVec.eq_of_getLsbD_eq
  intro i hi
  rw [BitVec.getLsbD_and, BitVec.getLsbD_and, hmask i hi]
  by_cases hn : i < n
  · rw [h i hn hi]
  · simp [hn]

/-- A bit of the low half. -/
theorem and_of_low16 {u v mask : Word} (hmask : 0xFFFF &&& mask = mask)
    (h : u &&& 0xFFFF = v &&& 0xFFFF) : u &&& mask = v &&& mask := by
  rw [← hmask, ← BitVec.and_assoc, ← BitVec.and_assoc, h]

theorem mask_byte : ∀ i, i < 32 → (0xFF : Word).getLsbD i = decide (i < 8) := by
  decide

/-- A nested miss finds the mode bits as the first one left them. -/
theorem vectoredRs_idem (rs : Word) : xrVectoredRs (xrVectoredRs rs) = xrVectoredRs rs := by
  apply BitVec.eq_of_getLsbD_eq
  intro i hi
  rw [vectoredRs_bit _ i hi, vectoredRs_bit rs i hi, vectoredRs_bit rs 7 (by decide)]
  cases rs.getLsbD i <;> cases rs.getLsbD 7 <;> simp

/-- RS in the handler of a TB miss. -/
def xrMissedRs (rs : Word) : Word := xrVectoredRs (xrPushedRs rs ||| rsTbmiss)

theorem missedRs_bit (rs : Word) (i : Nat) (hi : i < 32) :
    (xrMissedRs rs).getLsbD i =
      if i < 8 then
        (rs.getLsbD i || decide (i = 3)) && (decide (2 ≤ i) && !(decide (i = 2) && rs.getLsbD 7))
      else if 24 ≤ i then rs.getLsbD i
      else rs.getLsbD (i - 8) := by
  unfold xrMissedRs
  rw [vectoredRs_bit _ i hi, BitVec.getLsbD_or, BitVec.getLsbD_or, pushedRs_bit rs i hi,
    pushedRs_bit rs 7 (by decide), rsTbmiss_bit i hi, rsTbmiss_bit 7 (by decide)]
  by_cases h8 : i < 8
  · have hge : ¬8 ≤ i := by omega
    simp [h8, hge]
  · have h3 : i ≠ 3 := by omega
    have hge : 8 ≤ i := by omega
    by_cases h24 : 24 ≤ i
    · simp [h8, hge, h3, h24]
    · simp [h8, hge, h3, h24]

/-- In the handler of a TB miss RS_TBMISS is set and RS_USER is clear. -/
theorem missedRs_tbmiss (rs : Word) : xrMissedRs rs &&& rsTbmiss ≠ 0 := by
  intro h
  have hbit := (and_bit_eq_zero (by decide) rsTbmiss_bit).mp h
  rw [missedRs_bit rs 3 (by decide)] at hbit
  simp at hbit

theorem missedRs_user (rs : Word) : xrMissedRs rs &&& rsUser = 0 := by
  apply (and_bit_eq_zero (by decide) rsUser_bit).mpr
  rw [missedRs_bit rs 0 (by decide)]
  simp

/-- RS in the handler of a basic exception. -/
def xrExceptedRs (rs exc : Word) : Word := xrVectoredRs (xrEcausedRs (xrPushedRs rs) exc)

theorem exceptedRs_bit (rs exc : Word) (i : Nat) (hi : i < 32) :
    (xrExceptedRs rs exc).getLsbD i =
      if i < 8 then rs.getLsbD i && (decide (2 ≤ i) && !(decide (i = 2) && rs.getLsbD 7))
      else if 28 ≤ i then exc.getLsbD (i - 28)
      else if 24 ≤ i then rs.getLsbD i
      else rs.getLsbD (i - 8) := by
  unfold xrExceptedRs
  rw [vectoredRs_bit _ i hi, ecausedRs_bit _ _ i hi, ecausedRs_bit _ _ 7 (by decide),
    pushedRs_bit rs i hi, pushedRs_bit rs 7 (by decide)]
  by_cases h8 : i < 8
  · have h28 : i < 28 := by omega
    have hge : ¬8 ≤ i := by omega
    simp [h8, h28, hge]
  · have hge : 8 ≤ i := by omega
    by_cases h28 : i < 28
    · have hn28 : ¬28 ≤ i := by omega
      by_cases h24 : 24 ≤ i
      · simp [h8, h28, hn28, hge, h24]
      · simp [h8, h28, hn28, hge, h24]
    · have hge28 : 28 ≤ i := by omega
      simp [h8, h28, hge28, hge]

theorem exceptedRs_user (rs exc : Word) : xrExceptedRs rs exc &&& rsUser = 0 := by
  apply (and_bit_eq_zero (by decide) rsUser_bit).mpr
  rw [exceptedRs_bit rs exc 0 (by decide)]
  simp

theorem exceptedRs_tbmiss {rs : Word} (exc : Word) (h : rs &&& rsTbmiss = 0) :
    xrExceptedRs rs exc &&& rsTbmiss = 0 := by
  have h3 := (and_bit_eq_zero (by decide) rsTbmiss_bit).mp h
  apply (and_bit_eq_zero (by decide) rsTbmiss_bit).mpr
  rw [exceptedRs_bit rs exc 3 (by decide), h3]
  simp

/-- Popping what an exception pushed. -/
theorem popped_exceptedRs (rs exc : Word) :
    xrPoppedRs (xrExceptedRs rs exc) &&& 0xFFFF = rs &&& 0xFFFF := by
  apply and_mask_eq 16 mask_low16
  intro i h16 hi
  have h24 : ¬24 ≤ i + 8 := by omega
  have h28 : ¬28 ≤ i + 8 := by omega
  have h8 : ¬i + 8 < 8 := by omega
  rw [poppedRs_bit _ i hi, exceptedRs_bit rs exc (i + 8) (by omega)]
  simp [h8, h16, h24, h28]

theorem popped_missedRs (rs : Word) :
    xrPoppedRs (xrMissedRs rs) &&& 0xFFFF = rs &&& 0xFFFF := by
  apply and_mask_eq 16 mask_low16
  intro i h16 hi
  have h24 : ¬24 ≤ i + 8 := by omega
  have h8 : ¬i + 8 < 8 := by omega
  rw [poppedRs_bit _ i hi, missedRs_bit rs (i + 8) (by omega)]
  simp [h8, h16, h24]

/-- Two exceptions fit on the mode stack: popping twice brings the mode byte back. -/
theorem popped_twice (rs exc exc' : Word) :
    xrPoppedRs (xrPoppedRs (xrExceptedRs (xrExceptedRs rs exc) exc')) &&& 0xFF = rs &&& 0xFF := by
  apply and_mask_eq 8 mask_byte
  intro i h8 hi
  have h16 : i < 16 := by omega
  have h16' : i + 8 < 16 := by omega
  have hn8 : ¬i + 8 + 8 < 8 := by omega
  have hn24 : ¬24 ≤ i + 8 + 8 := by omega
  have hn28 : ¬28 ≤ i + 8 + 8 := by omega
  have hm8 : ¬i + 8 < 8 := by omega
  have hm24 : ¬24 ≤ i + 8 := by omega
  have hm28 : ¬28 ≤ i + 8 := by omega
  rw [poppedRs_bit _ i hi, if_pos h16, poppedRs_bit _ (i + 8) (by omega), if_pos h16',
    exceptedRs_bit _ exc' (i + 8 + 8) (by omega), if_neg hn8, if_neg hn28, if_neg hn24,
    Nat.add_sub_cancel, exceptedRs_bit rs exc (i + 8) (by omega), if_neg hm8, if_neg hm28,
    if_neg hm24, Nat.add_sub_cancel]

/-- The ECAUSE bits outlive a miss and the RFE after it. -/
theorem popped_missedRs_ecause (rs : Word) :
    xrPoppedRs (xrMissedRs rs) &&& 0xF0000000 = rs &&& 0xF0000000 := by
  apply BitVec.eq_of_getLsbD_eq
  intro i hi
  rw [BitVec.getLsbD_and, BitVec.getLsbD_and, mask_high4 i hi]
  by_cases h28 : 28 ≤ i
  · have h16 : ¬i < 16 := by omega
    have h8 : ¬i < 8 := by omega
    have h24 : 24 ≤ i := by omega
    rw [poppedRs_bit _ i hi, missedRs_bit rs i hi]
    simp [h28, h16, h8, h24]
  · simp [h28]

/-- A page fault in the handler of a miss, against one taken directly: RS comes out
the same, but for the code. -/
theorem exceptedRs_of_missed {rs : Word} (exc : Word) (h : rs &&& rsTbmiss = 0) :
    xrVectoredRs (xrEcausedRs (xrMissedRs rs &&& ~~~rsTbmiss) exc) = xrExceptedRs rs exc := by
  have h3 := (and_bit_eq_zero (by decide) rsTbmiss_bit).mp h
  apply BitVec.eq_of_getLsbD_eq
  intro i hi
  rw [vectoredRs_bit _ i hi, ecausedRs_bit _ _ i hi, ecausedRs_bit _ _ 7 (by decide),
    exceptedRs_bit rs exc i hi, BitVec.getLsbD_and, BitVec.getLsbD_and, BitVec.getLsbD_not,
    BitVec.getLsbD_not, rsTbmiss_bit i hi, rsTbmiss_bit 7 (by decide), missedRs_bit rs i hi,
    missedRs_bit rs 7 (by decide)]
  by_cases h8 : i < 8
  · have h28 : i < 28 := by omega
    have hge : ¬8 ≤ i := by omega
    by_cases hi3 : i = 3
    · subst hi3
      rw [h3]
      simp
    · cases hr : rs.getLsbD i <;> cases h7 : rs.getLsbD 7 <;> simp [h8, h28, hge, hi3, hi]
  · have hge : 8 ≤ i := by omega
    have hi3 : i ≠ 3 := by omega
    by_cases h28 : i < 28
    · have hn28 : ¬28 ≤ i := by omega
      simp [h8, hge, h28, hn28, hi3, hi]
    · have hge28 : 28 ≤ i := by omega
      simp [h8, hge, h28, hge28]

end Xremu
