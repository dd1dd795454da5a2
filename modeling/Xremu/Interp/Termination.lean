import Xremu.Interp.Cycles
import Xremu.Interp.UserMode

/-!
# When a call of `XrExecuteFast` ends

The loop ends when `CyclesDone` has come up to the budget. Leaving a block adds to it: the
cycles of the block when it was executed to its end, and otherwise the index of the
instruction that left it, which for the first instruction is nothing. A fetch that fails at
the head of the loop adds `XR_IBLOCK_INSTS`.

Every step that is charged brings the call nearer to its end (`measure_step`), whatever
comes from outside. So a call ends exactly if it is left without a charge finitely often
(`execution_ends_iff`); an exception handler whose first instruction faults is such a loop.
-/

namespace Xremu

open XrIblockCache

section

variable {M : Type} [XrBuild M]

/-! ## What is charged -/

/-- What is charged when instruction `k` has left block `i`. -/
inductive Charges (m : Machine M) (c : XrIblockCache) (i k : Nat) : XrExit → Nat → Prop
  | early : Charges m c i k .early k
  | flush {vpn} : Charges m c i k (.flush vpn) k
  | trivial : Charges m c i k .trivial (c.iblocks i).code.cycles
  | cached {exit j} (hit : c.cachedNext i m.proc.pc exit = .iblock j) :
      Charges m c i k exit (c.iblocks i).code.cycles
  | decoded {path j m' c'} (null : (c.iblocks i).cachedPaths path = .null)
      (decode : xrDecodeInstructions m c (some i) = some (some j, m', c')) :
      Charges m c i k (.follow path)
        ((c'.xrCreateCachedPointerToBlock j (.path i path)).iblocks i).code.cycles
  | faulted {path m' c'} (null : (c.iblocks i).cachedPaths path = .null)
      (decode : xrDecodeInstructions m c (some i) = some (none, m', c')) :
      Charges m c i k (.follow path) k
  | predicted {t j c₁ m' c'} (table : Tabled c i t c₁)
      (miss : c₁.predicted t m.proc.pc = .null)
      (decode : xrDecodeInstructions m c₁ (some i) = some (some j, m', c')) :
      Charges m c i k .predict ((c'.predict t j m'.proc.pc).iblocks i).code.cycles
  | unpredicted {t c₁ m' c'} (table : Tabled c i t c₁)
      (miss : c₁.predicted t m.proc.pc = .null)
      (decode : xrDecodeInstructions m c₁ (some i) = some (none, m', c')) :
      Charges m c i k .predict k

/-- Adding so many cycles to `CyclesDone` does not make it larger: there are none, or the
sum has no 32 bits. -/
def NoGain (done : Word) (cycles : Nat) : Prop :=
  cycles = 0 ∨ 0x100000000 ≤ done.toNat + cycles

namespace XrInterp

/-- The step from here leaves a block, or finds none, without a gain. -/
inductive Uncharged (pending : Bool) (s : XrInterp M) : Prop
  | left {i k inst m exit n} (point : s.point = .inst i k)
      (fetched : (s.cache.iblocks i).code.insts[k]? = some inst)
      (exec : inst.exec s.machine i = some (m, exit)) (charges : Charges m s.cache i k exit n)
      (small : NoGain s.machine.proc.cyclesDone n)
  | unfetched {m c} (point : s.point = .retry) (more : ¬s.machine.proc.Stops)
      (fails : xrDecodeInstructions (takeInterrupt pending s.machine.countNmiMask) s.cache none =
        some (none, m, c))
      (small : NoGain s.machine.proc.cyclesDone xrIblockInsts)

end XrInterp

variable {m m' : Machine M} {c : XrIblockCache} {i k n : Nat} {exit : XrExit}
  {s s' t : XrInterp M} {pending : Bool}

theorem toNat_gain {done : Word} {n : Nat} (h : ¬NoGain done n) :
    done.toNat < (done + BitVec.ofNat 32 n).toNat := by
  unfold NoGain at h
  rw [BitVec.toNat_add, BitVec.toNat_ofNat]
  omega

/-- Either the block goes on, or leaving it has been charged. -/
theorem Leaves.charges (h : Leaves m c i k exit s) :
    (exit = .next ∧ s.machine = m ∧ s.point = .inst i (k + 1)) ∨
      ∃ n, Charges m c i k exit n ∧
        s.machine.proc.cyclesDone = m.proc.cyclesDone + BitVec.ofNat 32 n := by
  cases h with
  | next => exact Or.inl ⟨rfl, rfl, rfl⟩
  | early => exact Or.inr ⟨k, .early, rfl⟩
  | flush drop => exact Or.inr ⟨k, .flush, rfl⟩
  | trivial => exact Or.inr ⟨_, .trivial, rfl⟩
  | cached hit => exact Or.inr ⟨_, .cached hit, rfl⟩
  | @decoded path j m' c' null decode =>
      refine Or.inr ⟨_, .decoded null decode, ?_⟩
      rw [← (decode_touched decode).cyclesDone]
      rfl
  | @faulted path m' c' null decode =>
      refine Or.inr ⟨k, .faulted null decode, ?_⟩
      rw [← (decode_fault decode).1.kept.cyclesDone]
      rfl
  | @predicted t j c₁ m' c' table miss decode =>
      refine Or.inr ⟨_, .predicted table miss decode, ?_⟩
      rw [← (decode_touched decode).cyclesDone]
      rfl
  | @unpredicted t c₁ m' c' table miss decode =>
      refine Or.inr ⟨k, .unpredicted table miss decode, ?_⟩
      rw [← (decode_fault decode).1.kept.cyclesDone]
      rfl

/-! ## The measure -/

/-- How far a point is from leaving its block. -/
def XrPoint.rank : XrPoint → Nat
  | .check => 40
  | .retry => 39
  | .inst _ k => 38 - k
  | .noMore => 0

theorem XrPoint.rank_le (point : XrPoint) : point.rank ≤ 40 := by
  cases point with
  | inst i k => exact Nat.le_trans (Nat.sub_le _ _) (by decide)
  | check => decide
  | retry => decide
  | noMore => decide

/-- Cycles up to the end of the counter come first, then the rank. -/
def XrInterp.measure (s : XrInterp M) : Nat :=
  (0x100000000 - s.machine.proc.cyclesDone.toNat) * 41 + s.point.rank

omit [XrBuild M] in
theorem measure_gain (h : s.machine.proc.cyclesDone.toNat < s'.machine.proc.cyclesDone.toNat) :
    s'.measure < s.measure := by
  have hlt := s'.machine.proc.cyclesDone.isLt
  have hrank := s'.point.rank_le
  unfold XrInterp.measure
  omega

omit [XrBuild M] in
theorem measure_rank (h : s'.machine.proc.cyclesDone = s.machine.proc.cyclesDone)
    (hrank : s'.point.rank < s.point.rank) : s'.measure < s.measure := by
  unfold XrInterp.measure
  rw [h]
  exact Nat.add_lt_add_left hrank _

theorem measure_retry (hrun : xrRetry pending m c = some s)
    (hcharged : ¬XrInterp.Uncharged pending ⟨m, c, .retry⟩) :
    s.measure < XrInterp.measure (⟨m, c, .retry⟩ : XrInterp M) := by
  obtain ⟨hdone, -⟩ := takeInterrupt_cycles pending m
  cases retries hrun with
  | stopped stops =>
      refine measure_rank rfl ?_
      show 0 < 39
      decide
  | @faulted m' c' goes decode =>
      have hkept := (decode_fault decode).1.kept.cyclesDone.trans hdone
      apply measure_gain
      show m.proc.cyclesDone.toNat < (m'.proc.cyclesDone + BitVec.ofNat 32 xrIblockInsts).toNat
      rw [hkept]
      apply toNat_gain
      intro hsmall
      exact hcharged (.unfetched rfl goes decode hsmall)
  | enters goes decode =>
      refine measure_rank ?_ ?_
      · exact (decode_touched decode).cyclesDone.trans hdone
      · show 38 < 39
        decide

/-- A step that is charged lowers the measure. -/
theorem measure_step (hstep : s.step pending = some s') (hcharged : ¬s.Uncharged pending) :
    s'.measure < s.measure := by
  obtain ⟨m, c, point⟩ := s
  cases point with
  | check =>
      cases hstep
      refine measure_rank ?_ ?_
      · exact (XrBuild.drain_touched m).cyclesDone
      · show 39 < 40
        decide
  | retry => exact measure_retry hstep hcharged
  | inst i k =>
      obtain ⟨inst, m₁, exit, hinst, hexec, hleaves⟩ := inst_step hstep
      have hdone := (exec_ran hexec).cycles.1
      rcases hleaves.charges with ⟨-, hmachine, hpoint⟩ | ⟨n, hcharges, hcycles⟩
      · refine measure_rank ?_ ?_
        · rw [hmachine]
          exact hdone
        · have hlt := (List.getElem?_eq_some_iff.mp hinst).1
          have hsize := (c.iblocks i).code.size
          have h34 : xrIblockInsts + 2 = 34 := rfl
          rw [hpoint]
          have hroom : k < 38 := by
            have hk : k < (c.iblocks i).code.insts.length := hlt
            omega
          exact Nat.sub_lt_sub_left hroom (Nat.lt_succ_self k)
      · apply measure_gain
        rw [hcycles, hdone]
        apply toNat_gain
        intro hsmall
        exact hcharged (.left rfl hinst hexec hcharges hsmall)
  | noMore => cases hstep

/-! ## Runs with their input -/

/-- The state after so many steps, with what comes from outside before each. -/
def XrInterp.after (inputs : Nat → XrInput M) (s : XrInterp M) : Nat → Option (XrInterp M)
  | 0 => some s
  | n + 1 => (XrInterp.after inputs s n).bind fun t => t.next (inputs n)

variable {inputs : Nat → XrInput M}

theorem after_succ (h : s.after inputs n = some t) : s.after inputs (n + 1) = t.next (inputs n) := by
  show (s.after inputs n).bind _ = _
  rw [h]
  rfl

theorem after_none {n' : Nat} (hle : n ≤ n') (h : s.after inputs n = none) :
    s.after inputs n' = none := by
  induction hle with
  | refl => exact h
  | @step n' hle ih =>
      show (s.after inputs n').bind _ = _
      rw [ih]
      rfl

theorem after_placed (h : s.Placed) (hafter : s.after inputs n = some t) : t.Placed := by
  induction n generalizing t with
  | zero =>
      cases hafter
      exact h
  | succ n ih =>
      obtain ⟨t', ht', hnext⟩ := Option.bind_eq_some_iff.mp hafter
      exact (ih ht').next hnext

omit [XrBuild M] in
theorem measure_meets (s : XrInterp M) (input : XrInput M) :
    (s.meets input).measure = s.measure := by
  have hdone := (input.outside_ok s.machine).budget.cyclesDone
  unfold XrInterp.measure
  show (0x100000000 - (input.outside s.machine).proc.cyclesDone.toNat) * 41 + _ = _
  rw [hdone]
  rfl

/-- From some step on every step is charged. -/
def ChargedFrom (inputs : Nat → XrInput M) (s : XrInterp M) (first : Nat) : Prop :=
  ∀ n t, first ≤ n → s.after inputs n = some t →
    ¬(t.meets (inputs n)).Uncharged (inputs n).pending

/-- Then no more steps are left than the measure. -/
theorem stops_of_charged {first : Nat} (hcharged : ChargedFrom inputs s first) (bound : Nat) :
    ∀ n t, first ≤ n → s.after inputs n = some t → t.measure ≤ bound →
      ∃ n', s.after inputs n' = none := by
  induction bound with
  | zero =>
      intro n t hle hafter hbound
      cases hnext : t.next (inputs n) with
      | none => exact ⟨n + 1, (after_succ hafter).trans hnext⟩
      | some t' =>
          have hlt := measure_step hnext (hcharged n t hle hafter)
          rw [measure_meets] at hlt
          exact absurd (Nat.lt_of_lt_of_le hlt hbound) (Nat.not_lt_zero _)
  | succ bound ih =>
      intro n t hle hafter hbound
      cases hnext : t.next (inputs n) with
      | none => exact ⟨n + 1, (after_succ hafter).trans hnext⟩
      | some t' =>
          have hlt := measure_step hnext (hcharged n t hle hafter)
          rw [measure_meets] at hlt
          refine ih (n + 1) t' (Nat.le_succ_of_le hle) ((after_succ hafter).trans hnext) ?_
          exact Nat.le_of_lt_succ (Nat.lt_of_lt_of_le hlt hbound)

/-- No further step, after finitely many, exactly if only finitely many were not charged. -/
theorem stops_iff : (∃ n, s.after inputs n = none) ↔ ∃ first, ChargedFrom inputs s first := by
  constructor
  · rintro ⟨n, hnone⟩
    refine ⟨n, ?_⟩
    intro n' t hle hafter
    rw [after_none hle hnone] at hafter
    cases hafter
  · rintro ⟨first, hcharged⟩
    cases hafter : s.after inputs first with
    | none => exact ⟨first, hafter⟩
    | some t => exact stops_of_charged hcharged t.measure first t (Nat.le_refl _) hafter (Nat.le_refl _)

/-! ## The end of a run -/

/-- `abort()`, in an access of the instruction or in the fetch of the next block. -/
inductive XrInterp.Aborts (pending : Bool) (s : XrInterp M) : Prop
  | access {i k inst} (point : s.point = .inst i k)
      (fetched : (s.cache.iblocks i).code.insts[k]? = some inst)
      (exec : inst.exec s.machine i = none)
  | fetch {m c hazard} (calls : s.Calls pending m c hazard) (fetch : XrBuild.fetch m = none)
      (fails : xrDecodeInstructions m c hazard = none)

variable {inst : XrCachedInst} {m₁ : Machine M} {c' c₁ : XrIblockCache} {hazard : Option Nat}

theorem decode_none (hreach : c.Reach) (h : xrDecodeInstructions m c hazard = none) :
    XrBuild.fetch m = none := by
  unfold xrDecodeInstructions at h
  extract_lets pc asid at h
  cases hlook : c.xrLookupIblock pc asid with
  | some i =>
      simp only [hlook] at h
      split at h
      · cases h
      · cases h
  | none =>
      simp only [hlook] at h
      rcases hfetch : XrBuild.fetch m with _ | ⟨_ | f, m'⟩
      · rfl
      · simp only [hfetch] at h
        cases h
      · obtain ⟨j, c', hdone, -⟩ := decodeFetched_ok (inv_reach hreach) hazard f m'.tbmiss hlook
        simp only [hfetch, hdone] at h
        cases h

/-- No slot of a block that is left by a branch holds a prediction table. -/
theorem follow_none {path : XrPath} (hstands : StandsAt m c i k) (hreach : c.Reach)
    (hinst : (c.iblocks i).code.insts[k]? = some inst) (hexec : inst.exec m i = some (m₁, .follow path))
    (h : xrFollow m₁ c i k path = none) :
    (c.iblocks i).cachedPaths path = .null ∧ xrDecodeInstructions m₁ c (some i) = none := by
  unfold xrFollow at h
  cases hslot : (c.iblocks i).cachedPaths path with
  | iblock j =>
      simp only [hslot] at h
      cases h
  | ptable t =>
      have htables := (inv_reach hreach).tables
      have hp := (htables.plain i path t hstands.active hslot).2
      have hjalr := (htables.owner i hstands.active hp).1
      exact absurd hjalr (hstands.leadsTo hinst (exec_ran hexec)).2
  | null =>
      simp only [hslot] at h
      refine ⟨rfl, ?_⟩
      rcases hdecode : xrDecodeInstructions m₁ c (some i) with _ | ⟨_ | j, m', c'⟩
      · rfl
      · simp only [hdecode] at h
        cases h
      · simp only [hdecode] at h
        cases h

theorem predictBy_none {t : Nat} (hreach : c₁.Reach) (hactive : c₁.Active i)
    (hslot : (c₁.iblocks i).cachedPaths .true = .ptable t) (h : xrPredictBy m c₁ i k t = none) :
    c₁.predicted t m.proc.pc = .null ∧ xrDecodeInstructions m c₁ (some i) = none := by
  unfold xrPredictBy at h
  cases hpred : c₁.predicted t m.proc.pc with
  | iblock j =>
      simp only [hpred] at h
      cases h
  | ptable u =>
      -- The entries of a table are blocks.
      have htables := (inv_reach hreach).tables
      have howned : c₁.Owned t := ⟨i, hactive, (htables.plain i .true t hactive hslot).2, hslot⟩
      unfold predicted at hpred
      split at hpred
      · exact absurd hpred (htables.entries t _ u howned (jalrIndex_lt _))
      · cases hpred
  | null =>
      simp only [hpred] at h
      refine ⟨rfl, ?_⟩
      rcases hdecode : xrDecodeInstructions m c₁ (some i) with _ | ⟨_ | j, m', c'⟩
      · rfl
      · simp only [hdecode] at h
        cases h
      · simp only [hdecode] at h
        cases h

theorem predict_none (hstands : StandsAt m c i k) (hreach : c.Reach)
    (hinst : (c.iblocks i).code.insts[k]? = some inst) (hexec : inst.exec m i = some (m₁, .predict))
    (h : xrPredict m₁ c i k = none) :
    ∃ t c₁, c₁.Reach ∧ Tabled c i t c₁ ∧ c₁.predicted t m₁.proc.pc = .null ∧
      xrDecodeInstructions m₁ c₁ (some i) = none := by
  have htables := (inv_reach hreach).tables
  have hjalr := StandsAt.jalr hinst (exec_ran hexec)
  have htabled : ∀ {t c₁}, Tabled c i t c₁ → xrPredictBy m₁ c₁ i k t = none →
      ∃ t c₁, c₁.Reach ∧ Tabled c i t c₁ ∧ c₁.predicted t m₁.proc.pc = .null ∧
        xrDecodeInstructions m₁ c₁ (some i) = none := by
    intro t c₁ htabled hnone
    obtain ⟨hreach₁, hactive, -, hslot⟩ := htabled.reach hreach hstands.active hjalr
    exact ⟨t, c₁, hreach₁, htabled, predictBy_none hreach₁ hactive hslot hnone⟩
  unfold xrPredict at h
  cases hslot : (c.iblocks i).cachedPaths .true with
  | iblock j => exact absurd hslot (htables.jalr i .true j hstands.active hjalr)
  | ptable t =>
      simp only [hslot, reduceCtorEq, if_false] at h
      exact htabled (.old hslot) h
  | null =>
      have hp : (c.iblocks i).hasPtable = false := by
        by_contra hp
        obtain ⟨t, ht⟩ := (htables.owner i hstands.active (Bool.not_eq_false _ ▸ hp)).2
        have hnull : c.slot (.path i .true) = .null := hslot
        rw [hnull] at ht
        cases ht
      obtain ⟨c₁, hgive⟩ := exists_givePtable (inv_reach hreach).toIblocksOk hstands.active hp
      obtain ⟨t, hgiven⟩ := given_givePtable hgive
      have hslot₁ : (c₁.iblocks i).cachedPaths .true = .ptable t := by
        rw [hgiven.iblock]
        exact Function.update_self XrPath.true (XrPointer.ptable t) (c.iblocks i).cachedPaths
      simp only [hslot, if_true, hgive, hslot₁] at h
      exact htabled (.new hslot hgive hslot₁) h

/-- A step that has no result is not made, or ends in `abort()`. -/
theorem stuck_aborts (hplaced : s.Placed) (h : s.step pending = none) :
    s.point = .noMore ∨ s.Aborts pending := by
  obtain ⟨m, c, point⟩ := s
  have hreach : c.Reach := hplaced.reach
  cases point with
  | noMore => exact Or.inl rfl
  | check => cases h
  | retry =>
      right
      have hrun : xrRetry pending m c = none := h
      unfold xrRetry at hrun
      by_cases hstops : m.proc.Stops
      · rw [if_pos hstops] at hrun
        cases hrun
      · rw [if_neg hstops] at hrun
        rcases hdecode : xrDecodeInstructions (takeInterrupt pending m.countNmiMask) c none with
          _ | ⟨_ | j, m', c'⟩
        · exact .fetch (.retry hstops) (decode_none hreach hdecode) hdecode
        · simp only [hdecode] at hrun
          cases hrun
        · simp only [hdecode] at hrun
          cases hrun
  | inst i k =>
      right
      have hstands := hplaced.stands i k rfl
      have hrun : xrInst m c i k = none := h
      unfold xrInst at hrun
      obtain ⟨inst, hinst⟩ : ∃ inst, (c.iblocks i).code.insts[k]? = some inst :=
        ⟨_, List.getElem?_eq_getElem hstands.room⟩
      rcases hexec : inst.exec m i with _ | ⟨m₁, exit⟩
      · exact .access rfl hinst hexec
      · simp only [hinst, hexec] at hrun
        cases exit with
        | next | early | trivial => cases hrun
        | flush vpn =>
            have hdrop : c.drop vpn = none := Option.map_eq_none_iff.mp hrun
            cases vpn with
            | none =>
                obtain ⟨c', hdone, -⟩ := xrInvalidateIblockCache_ok (inv_reach hreach)
                cases hdone.symm.trans hdrop
            | some vpn =>
                obtain ⟨c', hdone, -⟩ := xrInvalidateIblockCacheByVpn_ok (inv_reach hreach) vpn
                cases hdone.symm.trans hdrop
        | follow path =>
            obtain ⟨hnull, hdecode⟩ := follow_none hstands hreach hinst hexec hrun
            exact .fetch (.follow hinst hexec hnull) (decode_none hreach hdecode) hdecode
        | predict =>
            obtain ⟨t, c₁, hreach₁, htabled, hmiss, hdecode⟩ :=
              predict_none hstands hreach hinst hexec hrun
            exact .fetch (.predict hinst hexec htabled hmiss) (decode_none hreach₁ hdecode) hdecode

/-- The run has reached `NoMore`, or `abort()`. -/
def EndsAt (inputs : Nat → XrInput M) (s : XrInterp M) (n : Nat) : Prop :=
  ∃ t, s.after inputs n = some t ∧
    (t.point = .noMore ∨ (t.meets (inputs n)).Aborts (inputs n).pending)

theorem exists_last (h : s.after inputs n = none) :
    ∃ n t, s.after inputs n = some t ∧ t.next (inputs n) = none := by
  induction n with
  | zero => cases h
  | succ n ih =>
      cases hafter : s.after inputs n with
      | none => exact ih hafter
      | some t => exact ⟨n, t, hafter, (after_succ hafter).symm.trans h⟩

theorem aborts_none (h : s.Aborts pending) : s.step pending = none := by
  cases h with
  | @access i k inst point fetched exec =>
      obtain ⟨m, c, _⟩ := s
      obtain rfl := point
      show xrInst m c i k = none
      unfold xrInst
      simp only [fetched, exec]
  | @fetch _ c hazard calls fetch fails =>
      cases calls with
      | @retry m _ more =>
          show xrRetry pending m c = none
          unfold xrRetry
          rw [if_neg more]
          simp only [fails]
      | @follow m _ i k inst m₁ path fetched exec null =>
          show xrInst m c i k = none
          unfold xrInst
          simp only [fetched, exec, xrLeave, xrFollow, null, fails]
      | @predict m c₀ i k inst m₁ t _ fetched exec table miss =>
          show xrInst m c₀ i k = none
          unfold xrInst
          simp only [fetched, exec, xrLeave, xrPredict]
          cases table with
          | old table => simp only [table, reduceCtorEq, if_false, xrPredictBy, miss, fails]
          | new null given table =>
              simp only [null, if_true, given, table, xrPredictBy, miss, fails]

theorem ends_iff_stops (hplaced : s.Placed) :
    (∃ n, EndsAt inputs s n) ↔ ∃ n, s.after inputs n = none := by
  constructor
  · rintro ⟨n, t, hafter, hends⟩
    refine ⟨n + 1, (after_succ hafter).trans ?_⟩
    rcases hends with hidle | haborts
    · obtain ⟨m, c, _⟩ := t
      obtain rfl := hidle
      rfl
    · exact aborts_none haborts
  · rintro ⟨n, hnone⟩
    obtain ⟨n, t, hafter, hnext⟩ := exists_last hnone
    refine ⟨n, t, hafter, ?_⟩
    exact stuck_aborts ((after_placed hplaced hafter).meets (inputs n)) hnext

/-- In every run: a call of `XrExecuteFast` comes to `NoMore`, or to `abort()`, after finitely
many steps exactly if only finitely many of its steps leave a block, or find none, without
a gain in cycles. -/
theorem execution_ends_iff {P : XrInterp M → Prop} (hrun : XrInterp.Reach P s)
    (idle : s.point = .noMore) (input : XrInput M) (cycles : Word) (inputs : Nat → XrInput M) :
    (∃ n, EndsAt inputs (s.call input cycles) n) ↔
      ∃ first, ChargedFrom inputs (s.call input cycles) first := by
  have hcalled := XrInterp.Reach.call input cycles hrun idle
  exact (ends_iff_stops hcalled.placed).trans stops_iff

/-! ## A handler that faults at once -/

/-- The processor takes the exception of a JALR to an address that is not aligned, and the
handler is this JALR, in block `i`. -/
structure Spins (handler : Word) (i : Nat) (s : XrInterp M) : Prop where
  point : s.point = .check ∨ s.point = .retry ∨ s.point = .inst i 0
  rs : s.machine.proc.rs = excUna <<< 28
  eb : s.machine.proc.cr crEb ≠ 0
  vector : s.machine.proc.cr crEb ||| (excUna <<< 8) = handler
  pc : s.machine.proc.pc = handler
  target : s.machine.reg 2 = 1
  goes : ¬s.machine.proc.Stops
  found : s.cache.xrLookupIblock handler 0xFFFFFFFF = some i
  inst : (s.cache.iblocks i).code.insts[0]? = some ⟨.jalr, 0, 1, 2⟩

omit [XrBuild M] in
/-- What comes before the exception is not looked at by the tests. -/
theorem stops_congr {p p' : XrProcessor} (done : p'.cyclesDone = p.cyclesDone)
    (goal : p'.cyclesGoal = p.cyclesGoal) (halted : p'.halted = p.halted)
    (pauseCalls : p'.pauseCalls = p.pauseCalls) : p'.Stops ↔ p.Stops := by
  unfold XrProcessor.Stops
  rw [done, goal, halted, pauseCalls]

/-- An exception that is vectored leaves these alone. -/
theorem basic_leaves (exc pc : Word) (heb : m.proc.cr crEb ≠ 0) :
    (xrBasicException m exc pc).proc.reg = m.proc.reg ∧
      (xrBasicException m exc pc).proc.halted = m.proc.halted ∧
        (xrBasicException m exc pc).proc.pauseCalls = m.proc.pauseCalls := by
  have heb' : (xrSetEcause (xrPushMode (m.setCr crEpc pc)) exc).proc.cr crEb ≠ 0 := heb
  unfold xrBasicException xrVectorException
  rw [if_neg heb']
  exact ⟨rfl, rfl, rfl⟩

omit [XrBuild M] in
/-- A state with the same processor, but for what none of this depends on. -/
theorem Spins.congr {handler : Word} (h : Spins handler i s) (cache : s'.cache = s.cache)
    (cr : s'.machine.proc.cr = s.machine.proc.cr) (reg : s'.machine.proc.reg = s.machine.proc.reg)
    (pc : s'.machine.proc.pc = s.machine.proc.pc)
    (stops : s'.machine.proc.Stops ↔ s.machine.proc.Stops)
    (point : s'.point = .check ∨ s'.point = .retry ∨ s'.point = .inst i 0) : Spins handler i s' where
  point := point
  rs := (congrFun cr crRs).trans h.rs
  eb := by
    rw [cr]
    exact h.eb
  vector := by
    rw [cr]
    exact h.vector
  pc := pc.trans h.pc
  target := (congrFun reg 2).trans h.target
  goes := by
    rw [stops]
    exact h.goes
  found := by
    rw [cache]
    exact h.found
  inst := by
    rw [cache]
    exact h.inst

/-- The JALR jumps to 1, and its exception leads back to it, at no charge. -/
theorem Spins.faults {handler : Word} (h : Spins handler i ⟨m, c, .inst i 0⟩) :
    ∃ s', xrInst m c i 0 = some s' ∧ Spins handler i s' := by
  let m₁ := (((m.setReg 1 (m.proc.pc + 4)).setPc 1).setCr crEbadaddr 1)
  have heb : m₁.proc.cr crEb ≠ 0 := h.eb
  have hvectored := xrBasicException_vectored excUna 1 heb
  have hexec : (⟨.jalr, 0, 1, 2⟩ : XrCachedInst).exec m i =
      some (xrBasicException m₁ excUna 1, .early) := by
    have htarget : m.reg 2 + 0 = 1 := by
      rw [h.target]
      rfl
    show xrExecuteJalr m i ⟨.jalr, 0, 1, 2⟩ = _
    unfold xrExecuteJalr
    simp only [htarget]
    rfl
  have hrun : xrInst m c i 0 = some ⟨(xrBasicException m₁ excUna 1).charge 0, c, .check⟩ := by
    have hinst : (c.iblocks i).code.insts[0]? = some ⟨.jalr, 0, 1, 2⟩ := h.inst
    unfold xrInst
    simp only [hinst, hexec]
    rfl
  refine ⟨_, hrun, ?_⟩
  have hrs : m₁.proc.rs = excUna <<< 28 := h.rs
  have hleaves := basic_leaves excUna 1 heb
  constructor
  case point => exact Or.inl rfl
  case rs =>
    refine hvectored.rs.trans ?_
    rw [hrs]
    decide
  case eb =>
    intro hzero
    exact h.eb ((hvectored.cr crEb (by decide)).symm.trans hzero)
  case vector =>
    show (xrBasicException m₁ excUna 1).proc.cr crEb ||| _ = _
    rw [hvectored.cr crEb (by decide)]
    exact h.vector
  case pc =>
    refine hvectored.pc.trans ?_
    exact h.vector
  case target =>
    have hother : (2 : Nat) ≠ 1 := by decide
    refine (congrFun hleaves.1 2).trans ?_
    exact (Function.update_of_ne hother (m.proc.pc + 4) m.proc.reg).trans h.target
  case goes =>
    have hkept := kept_basic m₁ excUna 1
    rw [stops_congr (p := m.proc)]
    · exact h.goes
    · exact (BitVec.add_zero _).trans hkept.cyclesDone
    · exact hkept.cyclesGoal
    · exact hleaves.2.1
    · exact hleaves.2.2
  case found => exact h.found
  case inst => exact h.inst

/-- The lookup finds the block of the handler. -/
theorem Spins.enters {handler : Word} (h : Spins handler i ⟨m, c, .retry⟩) :
    xrRetry false m c = some ⟨m.countNmiMask, c, .inst i 0⟩ := by
  have hgoes : ¬m.proc.Stops := h.goes
  have hrs : m.countNmiMask.proc.rs = excUna <<< 28 := by
    rw [countNmiMask_proc m]
    exact h.rs
  have hasid : m.countNmiMask.proc.xrCurrentAsid = 0xFFFFFFFF := by
    unfold XrProcessor.xrCurrentAsid
    rw [hrs]
    rfl
  have hpc : m.countNmiMask.proc.pc = handler := by
    rw [countNmiMask_proc m]
    exact h.pc
  have hfound : c.xrLookupIblock handler 0xFFFFFFFF = some i := h.found
  have hkernel : ¬((c.iblocks i).pteFlags &&& pteKernel ≠ 0 ∧
      m.countNmiMask.proc.rs &&& rsUser ≠ 0) := by
    rw [hrs]
    rintro ⟨-, huser⟩
    exact huser (by decide)
  have hdecode : xrDecodeInstructions m.countNmiMask c none = some (some i, m.countNmiMask, c) := by
    unfold xrDecodeInstructions
    simp only [hpc, hasid, hfound, if_neg hkernel]
  have hinterrupt : takeInterrupt false m.countNmiMask = m.countNmiMask := by
    unfold takeInterrupt
    rw [if_neg]
    rintro ⟨hpending, -⟩
    cases hpending
  unfold xrRetry
  rw [if_neg hgoes, hinterrupt]
  simp only [hdecode]

/-- Once around and on. -/
theorem Spins.step {handler : Word} (h : Spins handler i s) :
    ∃ s', s.step false = some s' ∧ Spins handler i s' := by
  obtain ⟨m, c, point⟩ := s
  rcases h.point with hpoint | hpoint | hpoint
  · obtain rfl : point = .check := hpoint
    have htouched := XrBuild.drain_touched m
    have hpauses : (XrBuild.drain m).proc.pauseCalls = m.proc.pauseCalls := by rw [htouched]
    refine ⟨_, rfl, h.congr rfl htouched.cr htouched.reg htouched.pc ?_ (Or.inr (Or.inl rfl))⟩
    exact stops_congr htouched.cyclesDone htouched.cyclesGoal htouched.halted hpauses
  · obtain rfl : point = .retry := hpoint
    refine ⟨⟨m.countNmiMask, c, .inst i 0⟩, h.enters, ?_⟩
    have hcount := countNmiMask_proc m
    refine h.congr rfl (by rw [hcount]) (by rw [hcount]) (by rw [hcount]) ?_ (Or.inr (Or.inr rfl))
    show m.countNmiMask.proc.Stops ↔ m.proc.Stops
    rw [hcount]
    exact Iff.rfl
  · obtain rfl : point = .inst i 0 := hpoint
    exact h.faults

end

/-! ## Two calls -/

/-- A processor at HLT in its boot ROM. -/
def halting : Machine (XrFastMem (XrStation Unit)) := atRom [0xC0000029] (fun _ => 0) fun _ => 0

set_option maxRecDepth 20000 in
theorem halting_after : ∀ n, n < 6 →
    (firstCall halting 0).after (fun _ => uneventful) n = some (firstCall halting n)
  | 0, _ | 1, _ | 2, _ | 3, _ | 4, _ | 5, _ => rfl

set_option maxRecDepth 20000 in
/-- HLT leaves its block with the one cycle of the block, and no other step leaves one. -/
theorem halting_charged : ChargedFrom (fun _ => uneventful) (firstCall halting 0) 0 := by
  intro n t _ hafter huncharged
  have hlt : n < 6 := by
    by_contra hge
    have hend : (firstCall halting 0).after (fun _ => uneventful) 6 = none := rfl
    rw [after_none (Nat.le_of_not_lt hge) hend] at hafter
    cases hafter
  rw [halting_after n hlt] at hafter
  obtain rfl := Option.some.inj hafter
  cases huncharged with
  | @left i k inst m exit cycles point fetched exec charges small =>
      -- Only the third state is in a block.
      have htwo : n = 2 := by
        rcases n with _ | _ | _ | _ | _ | _ | n
        · cases point
        · cases point
        · rfl
        · cases point
        · cases point
        · cases point
        · exact absurd hlt (by omega)
      subst htwo
      obtain ⟨rfl, rfl⟩ := XrPoint.inst.inj (show XrPoint.inst 2047 0 = .inst i k from point)
      obtain rfl := Option.some.inj (show some ⟨.hlt, 0, 0, 0⟩ = some inst from fetched)
      obtain ⟨rfl, rfl⟩ := Prod.mk.inj (Option.some.inj (show some (_, XrExit.trivial) = some _ from exec))
      cases charges with
      | trivial =>
          rcases small with hzero | hlarge
          · exact Nat.one_ne_zero hzero
          · exact absurd hlarge (by decide)
      | cached hit => cases hit
  | unfetched point more fails small =>
      rcases n with _ | _ | _ | _ | _ | _ | n
      · cases point
      · have hfound : (xrDecodeInstructions (takeInterrupt false
            ((firstCall halting 1).meets uneventful).machine.countNmiMask)
            (firstCall halting 1).cache none).map Prod.fst = some (some 2047) := rfl
        have hnone : some (some 2047) = some none :=
          hfound.symm.trans (congrArg (Option.map Prod.fst) fails)
        cases hnone
      · cases point
      · cases point
      · exact more (by decide)
      · cases point
      · exact absurd hlt (by omega)

set_option maxRecDepth 20000 in
/-- It halts, and the next evaluation of the tests ends the call. -/
theorem execution_ends_halted : ∃ n, EndsAt (fun _ => uneventful) (firstCall halting 0) n := by
  have hstart := (XrInterp.Reach.start halting initial_initialBlockCache
    (P := fun _ => True)).timeslice rfl
  exact (execution_ends_iff hstart rfl uneventful 20000 fun _ => uneventful).mpr ⟨0, halting_charged⟩

/-- A boot ROM of `JALR R1, R2, 0` only, in which the exceptions are vectored. The processor
is at the handler of alignment faults, with 1 in R2. -/
def spinning : Machine (XrFastMem (XrStation Unit)) :=
  let mem := (stationMachine 0).mem
  ⟨{ (XrProcessor.zeroed 0).reset with
      pc := 0xFFFE1900
      cr := fun i => if i = crEb then 0xFFFE1000 else 0
      reg := fun r => if r = 2 then 1 else 0
      dispatches := 1 },
    { mem with bus := { mem.bus with bootRom := fun k => byteOf 0x1078 (k % 4) } }⟩

set_option maxRecDepth 20000 in
theorem spinning_spins : Spins 0xFFFE1900 2047 (firstCall spinning 3) where
  point := Or.inl rfl
  rs := rfl
  eb := by decide
  vector := by decide
  pc := rfl
  target := rfl
  goes := by decide
  found := rfl
  inst := rfl

set_option maxRecDepth 20000 in
theorem spins_after (n : Nat) :
    ∃ t, (firstCall spinning 0).after (fun _ => uneventful) (n + 3) = some t ∧
      Spins 0xFFFE1900 2047 t := by
  induction n with
  | zero => exact ⟨firstCall spinning 3, rfl, spinning_spins⟩
  | succ n ih =>
      obtain ⟨t, hafter, hspins⟩ := ih
      obtain ⟨t', hstep, hspins'⟩ := hspins.step
      refine ⟨t', ?_, hspins'⟩
      rw [Nat.succ_add]
      exact (after_succ hafter).trans hstep

/-- This call never ends. -/
theorem handler_spins :
    ∃ (s : XrInterp (XrFastMem (XrStation Unit))) (input : XrInput (XrFastMem (XrStation Unit)))
      (cycles : Word) (inputs : Nat → XrInput (XrFastMem (XrStation Unit))),
      XrInterp.Reach (fun _ => True) s ∧ s.point = .noMore ∧
        ¬∃ n, EndsAt inputs (s.call input cycles) n := by
  have hstart : XrInterp.Reach (fun _ => True) (XrInterp.timeslice ⟨spinning, initialBlockCache, .noMore⟩) :=
    .timeslice (.start spinning initial_initialBlockCache) rfl
  refine ⟨_, uneventful, 20000, fun _ => uneventful, hstart, rfl, ?_⟩
  intro hends
  have hcalled := XrInterp.Reach.call uneventful 20000 hstart rfl
  obtain ⟨n, hnone⟩ := (ends_iff_stops hcalled.placed).mp hends
  obtain ⟨t, hafter, -⟩ := spins_after n
  have hlater := after_none (Nat.le_add_right n 3) hnone
  rw [show (firstCall spinning 0).after _ (n + 3) = none from hlater] at hafter
  cases hafter

end Xremu
