import Xremu.Interp.RunInvariant

/-!
# Cycles between two looks at the budget

`XrCheckConditions` looks at the budget, at `Halted` and at the interrupts. From one
look to the next the blocks call each other, until the counter `Dispatches` comes past
a multiple of 32 or an instruction returns. So how far the processor runs over
its budget hangs on where the counter stands.

`Chain` is a run from one look to the next, `Executes` a whole call of `XrExecuteFast`.
-/

namespace Xremu

section

variable {M : Type}

/-! ## What an instruction leaves of the budget -/

/-- The cycles and the dispatches stay as they are. -/
structure SameBudget (p p' : XrProcessor) : Prop where
  cyclesDone : p'.cyclesDone = p.cyclesDone
  cyclesGoal : p'.cyclesGoal = p.cyclesGoal
  dispatches : p'.dispatches = p.dispatches

theorem SameBudget.trans {p p' p'' : XrProcessor} (h : SameBudget p p') (h' : SameBudget p' p'') :
    SameBudget p p'' where
  cyclesDone := h'.cyclesDone.trans h.cyclesDone
  cyclesGoal := h'.cyclesGoal.trans h.cyclesGoal
  dispatches := h'.dispatches.trans h.dispatches

theorem Touched.budget {p p' : XrProcessor} (h : Touched p p') : SameBudget p p' :=
  ⟨h.cyclesDone, h.cyclesGoal, h.dispatches⟩

theorem SameControl.budget {p p' : XrProcessor} (h : SameControl p p') : SameBudget p p' :=
  ⟨h.cyclesDone, h.cyclesGoal, h.dispatches⟩

theorem xrMtcr_budget (p : XrProcessor) (rb : Nat) (value : Word) :
    SameBudget p (xrMtcr p rb value) := by
  unfold xrMtcr
  extract_lets q
  repeat' split
  all_goals exact ⟨rfl, rfl, rfl⟩

theorem Outside.budget {m m' : Machine M} (h : Outside m m') : SameBudget m.proc m'.proc := by
  unfold Outside at h
  rw [h]
  exact ⟨rfl, rfl, rfl⟩

variable [XrBuild M]

theorem mtcrKernel_budget {m m' : Machine M} {rb : Nat} {value : Word} {exit : XrExit}
    (h : mtcrKernel m rb value = some (m', exit)) : SameBudget m.proc m'.proc := by
  unfold mtcrKernel at h
  extract_lets m₁ m₂ at h
  have hwrite : SameBudget m.proc m₁.proc := xrMtcr_budget m.proc rb value
  have hpc : ∀ (m₂ : Machine M) (pc : Word), SameBudget m₂.proc (m₂.setPc pc).proc :=
    fun _ _ => ⟨rfl, rfl, rfl⟩
  split at h
  · cases h
    exact (hwrite.trans (XrBuild.icachectrl_touched value m₁).budget).trans (hpc _ _)
  split at h
  · cases h
    exact (hwrite.trans (XrBuild.dcachectrl_touched value m₁).budget).trans (hpc _ _)
  split at h
  · cases h
    exact hwrite.trans (hpc _ _)
  · cases h
    exact hwrite.trans (hpc _ _)

theorem Ran.cycles {m m' : Machine M} {inst : XrCachedInst} {exit : XrExit}
    (h : Ran m inst m' exit) :
    m'.proc.cyclesDone = m.proc.cyclesDone ∧ m'.proc.cyclesGoal = m.proc.cyclesGoal := by
  cases h with
  | step kind same regs pc => exact ⟨same.cyclesDone, same.cyclesGoal⟩
  | shift kind same regs pc => exact ⟨same.cyclesDone, same.cyclesGoal⟩
  | pause kind same regs pc => exact ⟨same.cyclesDone, same.cyclesGoal⟩
  | fault same regs raises leaves =>
      have hkept := raises.kept
      exact ⟨hkept.cyclesDone.trans same.cyclesDone, hkept.cyclesGoal.trans same.cyclesGoal⟩
  | rfe kind kernel =>
      rw [xrRfe_kernel kernel]
      exact ⟨rfl, rfl⟩
  | hlt kind kernel halted =>
      subst halted
      exact ⟨rfl, rfl⟩
  | mtcr kind kernel wrote =>
      have hbudget := mtcrKernel_budget wrote
      exact ⟨hbudget.cyclesDone, hbudget.cyclesGoal⟩
  | follow kind same regs pc taken => exact ⟨same.cyclesDone, same.cyclesGoal⟩
  | predict kind same regs aligned => exact ⟨same.cyclesDone, same.cyclesGoal⟩

/-- Only an instruction that returns can have reset the processor. -/
theorem Ran.budget {m m' : Machine M} {inst : XrCachedInst} {exit : XrExit}
    (h : Ran m inst m' exit)
    (hexit : exit = .next ∨ exit = .predict ∨ ∃ path, exit = .follow path) :
    SameBudget m.proc m'.proc := by
  cases h with
  | step kind same regs pc => exact same.budget
  | shift kind same regs pc => exact same.budget
  | pause kind same regs pc => exact same.budget
  | fault same regs raises leaves =>
      rcases leaves with rfl | rfl
      · rcases hexit with he | he | ⟨_, he⟩ <;> cases he
      · rcases hexit with he | he | ⟨_, he⟩ <;> cases he
  | rfe kind kernel => rcases hexit with he | he | ⟨_, he⟩ <;> cases he
  | hlt kind kernel halted => rcases hexit with he | he | ⟨_, he⟩ <;> cases he
  | mtcr kind kernel wrote => exact mtcrKernel_budget wrote
  | follow kind same regs pc taken => exact same.budget
  | predict kind same regs aligned => exact same.budget

theorem decode_touched {m m' : Machine M} {c c' : XrIblockCache} {hazard : Option Nat} {j : Nat}
    (hrun : xrDecodeInstructions m c hazard = some (some j, m', c')) : Touched m.proc m'.proc := by
  cases decodes hrun with
  | hit found allowed => exact .refl _
  | fetched missed fetch done =>
      rw [XrBuild.emptyDtbCache_proc]
      exact XrBuild.fetch_done fetch

/-! ## What a step charges -/

/-- What the step of instruction `k` of block `i` does to the budget. -/
inductive Spends (m : Machine M) (i k : Nat) : Machine M → XrPoint → Prop
  | next {m'} (same : SameBudget m.proc m'.proc) : Spends m i k m' (.inst i (k + 1))
  /-- It returns to the loop of `XrExecuteFast`. -/
  | exit {m₁ : Machine M} {n : Nat} (done : m₁.proc.cyclesDone = m.proc.cyclesDone)
      (goal : m₁.proc.cyclesGoal = m.proc.cyclesGoal) (le : n ≤ xrIblockInsts + 1) :
      Spends m i k (m₁.charge n) .check
  | dispatch {m₁ : Machine M} {c : XrIblockCache} {j : Nat} (same : SameBudget m.proc m₁.proc) :
      Spends m i k (xrDispatch m₁ c i j).machine (xrDispatch m₁ c i j).point

theorem inst_spends {m : Machine M} {c : XrIblockCache} {i k : Nat} {s : XrInterp M}
    (h : xrInst m c i k = some s) : Spends m i k s.machine s.point := by
  obtain ⟨inst, m₁, exit, hinst, hexec, hleaves⟩ := inst_step h
  have hran := exec_ran hexec
  have hcycles := hran.cycles
  have hk : k ≤ xrIblockInsts + 1 := by
    have hlt := (List.getElem?_eq_some_iff.mp hinst).1
    have hsize := (c.iblocks i).code.size
    omega
  have hblock : (c.iblocks i).code.cycles ≤ xrIblockInsts + 1 :=
    Nat.le_succ_of_le (c.iblocks i).code.cycles_le
  cases hleaves with
  | next => exact .next (hran.budget (Or.inl rfl))
  | early => exact .exit hcycles.1 hcycles.2 hk
  | flush drop => exact .exit hcycles.1 hcycles.2 hk
  | trivial => exact .exit hcycles.1 hcycles.2 hblock
  | cached hit =>
      refine .dispatch (hran.budget ?_)
      cases exit with
      | follow path => exact Or.inr (Or.inr ⟨path, rfl⟩)
      | predict => exact Or.inr (Or.inl rfl)
      | next => cases hit
      | early => cases hit
      | trivial => cases hit
      | flush vpn => cases hit
  | decoded null decode =>
      exact .dispatch ((hran.budget (Or.inr (Or.inr ⟨_, rfl⟩))).trans (decode_touched decode).budget)
  | predicted table miss decode =>
      exact .dispatch ((hran.budget (Or.inr (Or.inl rfl))).trans (decode_touched decode).budget)
  | faulted null decode =>
      have hkept := (decode_fault decode).1.kept
      exact .exit (hkept.cyclesDone.trans hcycles.1) (hkept.cyclesGoal.trans hcycles.2) hk
  | unpredicted table miss decode =>
      have hkept := (decode_fault decode).1.kept
      exact .exit (hkept.cyclesDone.trans hcycles.1) (hkept.cyclesGoal.trans hcycles.2) hk

/-- What the evaluation of the tests does to the budget. -/
inductive Looks (m : Machine M) : Machine M → XrPoint → Prop
  | stop {m'} (same : SameBudget m.proc m'.proc) : Looks m m' .noMore
  /-- No instruction could be fetched. -/
  | again {m₁ : Machine M} (more : m.proc.cyclesDone < m.proc.cyclesGoal)
      (done : m₁.proc.cyclesDone = m.proc.cyclesDone)
      (goal : m₁.proc.cyclesGoal = m.proc.cyclesGoal) :
      Looks m (m₁.charge xrIblockInsts) .retry
  | enter {m' i} (more : m.proc.cyclesDone < m.proc.cyclesGoal)
      (done : m'.proc.cyclesDone = m.proc.cyclesDone)
      (goal : m'.proc.cyclesGoal = m.proc.cyclesGoal) : Looks m m' (.inst i 0)

omit [XrBuild M] in
theorem countNmiMask_proc (m : Machine M) :
    m.countNmiMask.proc = { m.proc with nmiMaskCounter := m.countNmiMask.proc.nmiMaskCounter } := by
  unfold Machine.countNmiMask
  split
  · rfl
  · rfl

theorem takeInterrupt_cycles (pending : Bool) (m : Machine M) :
    (takeInterrupt pending m.countNmiMask).proc.cyclesDone = m.proc.cyclesDone ∧
      (takeInterrupt pending m.countNmiMask).proc.cyclesGoal = m.proc.cyclesGoal := by
  have hcount : m.countNmiMask.proc.cyclesDone = m.proc.cyclesDone ∧
      m.countNmiMask.proc.cyclesGoal = m.proc.cyclesGoal := by
    rw [countNmiMask_proc m]
    exact ⟨rfl, rfl⟩
  unfold takeInterrupt
  split
  · have hkept := kept_basic m.countNmiMask excInt m.countNmiMask.proc.pc
    exact ⟨hkept.cyclesDone.trans hcount.1, hkept.cyclesGoal.trans hcount.2⟩
  · exact hcount

theorem retry_looks {pending : Bool} {m : Machine M} {c : XrIblockCache} {s : XrInterp M}
    (h : xrRetry pending m c = some s) : Looks m s.machine s.point := by
  obtain ⟨hdone, hgoal⟩ := takeInterrupt_cycles pending m
  have hmore : ¬m.proc.Stops → m.proc.cyclesDone < m.proc.cyclesGoal := fun hgoes =>
    BitVec.not_le.mp fun hle => hgoes (Or.inl hle)
  cases retries h with
  | stopped stops => exact .stop ⟨rfl, rfl, rfl⟩
  | faulted goes decode =>
      have hkept := (decode_fault decode).1.kept
      exact .again (hmore goes) (hkept.cyclesDone.trans hdone) (hkept.cyclesGoal.trans hgoal)
  | enters goes decode =>
      have htouched := decode_touched decode
      exact .enter (hmore goes) (htouched.cyclesDone.trans hdone) (htouched.cyclesGoal.trans hgoal)

/-! ## From one look to the next -/

/-- How many more blocks can be dispatched with the counter here. -/
def dispatchesLeft (dispatches : BitVec 8) : Nat := (32 - dispatches.toNat % 32) % 32 + 1

theorem dispatchesLeft_le (d : BitVec 8) : 1 ≤ dispatchesLeft d ∧ dispatchesLeft d ≤ 32 := by
  unfold dispatchesLeft
  omega

theorem dispatchesLeft_succ {d : BitVec 8} (h : d &&& 31 ≠ 0) :
    dispatchesLeft (d + 1) + 1 = dispatchesLeft d := by
  have hmod : d.toNat % 32 ≠ 0 := by
    intro hzero
    apply h
    apply BitVec.eq_of_toNat_eq
    have hand : d.toNat &&& 31 = d.toNat % 32 := Nat.and_two_pow_sub_one_eq_mod d.toNat 5
    rw [BitVec.toNat_and]
    show d.toNat &&& 31 = 0
    rw [hand, hzero]
  have hadd : (d + 1).toNat = (d.toNat + 1) % 256 := BitVec.toNat_add d 1
  unfold dispatchesLeft
  rw [hadd]
  omega

/-- What a step from this point does to the budget. -/
inductive Moves (m : Machine M) : XrPoint → Machine M → XrPoint → Prop
  | drain {m'} (same : SameBudget m.proc m'.proc) : Moves m .check m' .retry
  | look {m' point} (looks : Looks m m' point) : Moves m .retry m' point
  | inst {i k m' point} (spends : Spends m i k m' point) : Moves m (.inst i k) m' point

theorem next_moves {s s' : XrInterp M} {input : XrInput M} (h : s.next input = some s') :
    ∃ m, SameBudget s.machine.proc m.proc ∧ Moves m s.point s'.machine s'.point := by
  refine ⟨input.outside s.machine, (input.outside_ok s.machine).budget, ?_⟩
  obtain ⟨m, c, point⟩ := s
  cases point with
  | check =>
      cases h
      exact .drain (XrBuild.drain_touched _).budget
  | retry => exact .look (retry_looks h)
  | inst i k => exact .inst (inst_spends h)
  | noMore => cases h

namespace XrInterp

/-- Whether the step of an instruction dispatched a block, by the counter. -/
def dispatched (s s' : XrInterp M) : Nat :=
  match s.point with
  | .inst _ _ =>
      if s'.machine.proc.dispatches = s.machine.proc.dispatches + 1 then 1 else 0
  | _ => 0

/-- What a step adds to `CyclesDone`. -/
def charged (s s' : XrInterp M) : Nat :=
  (s'.machine.proc.cyclesDone - s.machine.proc.cyclesDone).toNat

/-- A run from an evaluation of the tests up to the next, with the blocks dispatched and
the cycles charged in it. -/
inductive Chain : XrInterp M → Nat → Nat → XrInterp M → Prop
  | look {s s' : XrInterp M} (input : XrInput M) (tests : s.point = .retry)
      (step : s.next input = some s') : Chain s (s.dispatched s') (s.charged s') s'
  | next {s s₁ s₂ : XrInterp M} {n g : Nat} (input : XrInput M) (h : Chain s n g s₁)
      (away : s₁.point ≠ .retry) (step : s₁.next input = some s₂) :
      Chain s (n + s₁.dispatched s₂) (g + s₁.charged s₂) s₂

/-- What is left to a chain that is here. -/
inductive Room (n g : Nat) (m : Machine M) : XrPoint → Prop
  | inside {i k} (counter : n + dispatchesLeft m.proc.dispatches ≤ 32) (cycles : g ≤ 32 * n) :
      Room n g m (.inst i k)
  | past {point} (outside : ∀ i k, point ≠ .inst i k) (blocks : n ≤ 32) (cycles : g ≤ 33 * 32) :
      Room n g m point

section

omit [XrBuild M]

theorem Room.bound {n g : Nat} {m : Machine M} {point : XrPoint} (h : Room n g m point) :
    n ≤ 32 ∧ g ≤ 33 * 32 := by
  cases h with
  | inside counter cycles =>
      have hleft := (dispatchesLeft_le m.proc.dispatches).1
      omega
  | past outside blocks cycles => exact ⟨blocks, cycles⟩

theorem dispatched_outside {s s' : XrInterp M} (h : ∀ i k, s.point ≠ .inst i k) :
    s.dispatched s' = 0 := by
  unfold dispatched
  split
  · rename_i i k hpoint
    exact absurd hpoint (h i k)
  · rfl

theorem dispatched_le (s s' : XrInterp M) : s.dispatched s' ≤ 1 := by
  unfold dispatched
  repeat' split
  all_goals omega

theorem charged_le {s s' : XrInterp M} {n : Nat}
    (h : s'.machine.proc.cyclesDone = s.machine.proc.cyclesDone + BitVec.ofNat 32 n) :
    s.charged s' ≤ n := by
  unfold charged
  rw [h, BitVec.add_comm, BitVec.add_sub_cancel, BitVec.toNat_ofNat]
  exact Nat.mod_le _ _

theorem charged_zero {s s' : XrInterp M}
    (h : s'.machine.proc.cyclesDone = s.machine.proc.cyclesDone) : s.charged s' = 0 := by
  apply Nat.eq_zero_of_le_zero
  apply charged_le
  rw [h]
  exact (BitVec.add_zero _).symm

end

theorem room_look {s s' : XrInterp M} {input : XrInput M} (tests : s.point = .retry)
    (step : s.next input = some s') :
    Room (s.dispatched s') (s.charged s') s'.machine s'.point := by
  have hnone : s.dispatched s' = 0 := by
    apply dispatched_outside
    intro i k
    rw [tests]
    exact XrPoint.noConfusion
  obtain ⟨m, hsame, hmoves⟩ := next_moves step
  rw [tests] at hmoves
  rw [hnone]
  generalize hm : s'.machine = m' at hmoves ⊢
  generalize s'.point = point at hmoves ⊢
  cases hmoves with
  | look looks =>
    cases looks with
    | stop same =>
        have hzero : s.charged s' = 0 := by
          apply charged_zero
          rw [hm]
          exact same.cyclesDone.trans hsame.cyclesDone
        rw [hzero]
        exact .past (fun _ _ => XrPoint.noConfusion) (Nat.zero_le _) (Nat.zero_le _)
    | again more done goal =>
        have hle : s.charged s' ≤ xrIblockInsts := by
          apply charged_le
          rw [hm, ← hsame.cyclesDone, ← done]
          rfl
        refine .past (fun _ _ => XrPoint.noConfusion) (Nat.zero_le _) ?_
        exact Nat.le_trans hle (by decide)
    | enter more done goal =>
        have hzero : s.charged s' = 0 := by
          apply charged_zero
          rw [hm]
          exact done.trans hsame.cyclesDone
        rw [hzero]
        refine .inside ?_ (Nat.zero_le _)
        rw [Nat.zero_add]
        exact (dispatchesLeft_le _).2

/-- One step of a chain. -/
theorem Room.next {s s' : XrInterp M} {input : XrInput M} {n g : Nat}
    (h : Room n g s.machine s.point) (away : s.point ≠ .retry)
    (step : s.next input = some s') :
    Room (n + s.dispatched s') (g + s.charged s') s'.machine s'.point := by
  have hone := s.dispatched_le s'
  have hcounted : ∀ i k, s.point = .inst i k →
      s'.machine.proc.dispatches = s.machine.proc.dispatches + 1 → s.dispatched s' = 1 := by
    intro i k hpoint hplus
    unfold dispatched
    rw [hpoint]
    exact if_pos hplus
  have huncounted : ∀ i k, s.point = .inst i k →
      s'.machine.proc.dispatches = s.machine.proc.dispatches → s.dispatched s' = 0 := by
    intro i k hpoint hstays
    unfold dispatched
    rw [hpoint]
    apply if_neg
    rw [hstays]
    intro hsucc
    exact absurd (BitVec.self_eq_add_right.mp hsucc) (by decide)
  obtain ⟨m, hsame, hmoves⟩ := next_moves step
  generalize hpoint : s.point = point at h away hmoves
  generalize hm : s'.machine = m' at hmoves hcounted huncounted ⊢
  generalize s'.point = point' at hmoves ⊢
  cases hmoves with
  | look looks => exact absurd rfl away
  | drain same =>
      have hnone : s.dispatched s' = 0 := by
        apply dispatched_outside
        intro i k
        rw [hpoint]
        exact XrPoint.noConfusion
      have hzero : s.charged s' = 0 := by
        apply charged_zero
        rw [hm]
        exact same.cyclesDone.trans hsame.cyclesDone
      obtain ⟨hn, hg⟩ := h.bound
      rw [hnone, hzero]
      exact .past (fun _ _ => XrPoint.noConfusion) hn hg
  | inst spends =>
    rename_i i k
    obtain ⟨hcounter, hcycles⟩ : n + dispatchesLeft s.machine.proc.dispatches ≤ 32 ∧ g ≤ 32 * n := by
      cases h with
      | inside counter cycles => exact ⟨counter, cycles⟩
      | past outside blocks cycles => exact absurd rfl (outside i k)
    have hleft := (dispatchesLeft_le s.machine.proc.dispatches).1
    cases spends with
    | next same =>
        have hzero : s.charged s' = 0 := by
          apply charged_zero
          rw [hm]
          exact same.cyclesDone.trans hsame.cyclesDone
        have hstays := same.dispatches.trans hsame.dispatches
        rw [huncounted i k hpoint hstays, hzero]
        refine .inside ?_ hcycles
        rw [hstays]
        exact hcounter
    | exit done goal le =>
        rename_i m₁ cycles
        have hle : s.charged s' ≤ cycles := by
          apply charged_le
          rw [hm, ← hsame.cyclesDone, ← done]
          rfl
        have h32 : xrIblockInsts = 32 := rfl
        refine .past (fun _ _ => XrPoint.noConfusion) ?_ ?_
        · omega
        · omega
    | dispatch same =>
        rename_i m₁ c j
        have hle : s.charged s' ≤ (c.iblocks i).code.cycles := by
          apply charged_le
          rw [hm, ← hsame.cyclesDone, ← same.cyclesDone]
          rfl
        have hblock := (c.iblocks i).code.cycles_le
        have h32 : xrIblockInsts = 32 := rfl
        have hdispatches : m₁.proc.dispatches = s.machine.proc.dispatches :=
          same.dispatches.trans hsame.dispatches
        have hplus : (xrDispatch m₁ c i j).machine.proc.dispatches =
            s.machine.proc.dispatches + 1 := by
          rw [← hdispatches]
          rfl
        have hpoint' : (xrDispatch m₁ c i j).point =
            if s.machine.proc.dispatches &&& 31 = 0 then .check else .inst j 0 := by
          rw [← hdispatches]
          rfl
        rw [hcounted i k hpoint hplus, hpoint']
        by_cases hlook : s.machine.proc.dispatches &&& 31 = 0
        · -- The counter says that it is time for the tests.
          rw [if_pos hlook]
          refine .past (fun _ _ => XrPoint.noConfusion) ?_ ?_
          · omega
          · omega
        · rw [if_neg hlook]
          have hsucc := dispatchesLeft_succ hlook
          refine .inside ?_ ?_
          · rw [hplus]
            omega
          · omega

theorem Chain.room {s s' : XrInterp M} {n g : Nat} (h : Chain s n g s') :
    Room n g s'.machine s'.point := by
  induction h with
  | look input tests step => exact room_look tests step
  | next input _ away step ih => exact ih.next away step

/-! ## A whole call -/

/-- `XrExecuteFast` has been called with this many cycles, and executes. -/
inductive Executes (cycles : Word) : XrInterp M → XrInterp M → Prop
  | call {s : XrInterp M} (input : XrInput M) (idle : s.point = .noMore)
      (starts : (s.call input cycles).point = .check) : Executes cycles s (s.call input cycles)
  | next {s s₁ s₂ : XrInterp M} (input : XrInput M) (h : Executes cycles s s₁)
      (step : s₁.next input = some s₂) : Executes cycles s s₂

/-- How far the budget has been overrun. In a chain it is one block for each dispatch. -/
inductive Overrun (cycles : Word) (m : Machine M) : XrPoint → Prop
  | inside {i k} (n : Nat) (goal : m.proc.cyclesGoal = cycles)
      (counter : n + dispatchesLeft m.proc.dispatches ≤ 32)
      (below : m.proc.cyclesDone.toNat < cycles.toNat + 32 * n) : Overrun cycles m (.inst i k)
  | past {point} (outside : ∀ i k, point ≠ .inst i k) (goal : m.proc.cyclesGoal = cycles)
      (below : m.proc.cyclesDone.toNat < cycles.toNat + 33 * 32) : Overrun cycles m point

omit [XrBuild M] in
theorem Overrun.bound {cycles : Word} {m : Machine M} {point : XrPoint}
    (h : Overrun cycles m point) :
    m.proc.cyclesGoal = cycles ∧ m.proc.cyclesDone.toNat < cycles.toNat + 33 * 32 := by
  cases h with
  | inside n goal counter below =>
      have hleft := (dispatchesLeft_le m.proc.dispatches).1
      exact ⟨goal, by omega⟩
  | past outside goal below => exact ⟨goal, below⟩

theorem toNat_charge_le (done : Word) (n : Nat) :
    (done + BitVec.ofNat 32 n).toNat ≤ done.toNat + n := by
  rw [BitVec.toNat_add, BitVec.toNat_ofNat]
  omega

theorem Overrun.next {cycles : Word} {s s' : XrInterp M} {input : XrInput M}
    (h : Overrun cycles s.machine s.point) (step : s.next input = some s') :
    Overrun cycles s'.machine s'.point := by
  obtain ⟨hgoal, hbelow⟩ := h.bound
  obtain ⟨m, hsame, hmoves⟩ := next_moves step
  have hmgoal : m.proc.cyclesGoal = cycles := hsame.cyclesGoal.trans hgoal
  have hmbelow : m.proc.cyclesDone.toNat < cycles.toNat + 33 * 32 := by
    rw [hsame.cyclesDone]
    exact hbelow
  generalize s.point = point at h hmoves
  generalize s'.machine = m' at hmoves ⊢
  generalize s'.point = point' at hmoves ⊢
  cases hmoves with
  | drain same =>
      refine .past (fun _ _ => XrPoint.noConfusion) (same.cyclesGoal.trans hmgoal) ?_
      rw [same.cyclesDone]
      exact hmbelow
  | look looks =>
    cases looks with
    | stop same =>
        refine .past (fun _ _ => XrPoint.noConfusion) (same.cyclesGoal.trans hmgoal) ?_
        rw [same.cyclesDone]
        exact hmbelow
    | again more done goal =>
        rename_i m₁
        refine .past (fun _ _ => XrPoint.noConfusion) (goal.trans hmgoal) ?_
        have hle := toNat_charge_le m₁.proc.cyclesDone xrIblockInsts
        rw [done] at hle
        have hlt : m.proc.cyclesDone.toNat < cycles.toNat := by
          rw [← hmgoal]
          exact more
        have h32 : xrIblockInsts = 32 := rfl
        show (m₁.proc.cyclesDone + BitVec.ofNat 32 xrIblockInsts).toNat < _
        rw [done]
        omega
    | enter more done goal =>
        refine .inside 0 (goal.trans hmgoal) ?_ ?_
        · rw [Nat.zero_add]
          exact (dispatchesLeft_le _).2
        · rw [done, ← hmgoal]
          exact more
  | inst spends =>
    rename_i i k
    obtain ⟨n, hcounter, hcycles⟩ : ∃ n, n + dispatchesLeft m.proc.dispatches ≤ 32 ∧
        m.proc.cyclesDone.toNat < cycles.toNat + 32 * n := by
      rw [hsame.dispatches, hsame.cyclesDone]
      cases h with
      | inside n goal counter below => exact ⟨n, counter, below⟩
      | past outside goal below => exact absurd rfl (outside i k)
    have hleft := (dispatchesLeft_le m.proc.dispatches).1
    have h32 : xrIblockInsts = 32 := rfl
    cases spends with
    | next same =>
        refine .inside n (same.cyclesGoal.trans hmgoal) ?_ ?_
        · rw [same.dispatches]
          exact hcounter
        · rw [same.cyclesDone]
          exact hcycles
    | exit done goal le =>
        rename_i m₁ spent
        refine .past (fun _ _ => XrPoint.noConfusion) (goal.trans hmgoal) ?_
        have hle := toNat_charge_le m₁.proc.cyclesDone spent
        show (m₁.proc.cyclesDone + BitVec.ofNat 32 spent).toNat < _
        rw [done] at hle ⊢
        omega
    | dispatch same =>
        rename_i m₁ c j
        have hblock := (c.iblocks i).code.cycles_le
        have hle := toNat_charge_le m₁.proc.cyclesDone (c.iblocks i).code.cycles
        have hdone : (xrDispatch m₁ c i j).machine.proc.cyclesDone =
            m₁.proc.cyclesDone + BitVec.ofNat 32 (c.iblocks i).code.cycles := rfl
        have hgoal' : (xrDispatch m₁ c i j).machine.proc.cyclesGoal = cycles :=
          same.cyclesGoal.trans hmgoal
        have hplus : (xrDispatch m₁ c i j).machine.proc.dispatches = m.proc.dispatches + 1 := by
          rw [← same.dispatches]
          rfl
        have hpoint : (xrDispatch m₁ c i j).point =
            if m.proc.dispatches &&& 31 = 0 then .check else .inst j 0 := by
          rw [← same.dispatches]
          rfl
        rw [same.cyclesDone] at hle hdone
        rw [hpoint]
        by_cases hlook : m.proc.dispatches &&& 31 = 0
        · rw [if_pos hlook]
          refine .past (fun _ _ => XrPoint.noConfusion) hgoal' ?_
          rw [hdone]
          omega
        · rw [if_neg hlook]
          have hsucc := dispatchesLeft_succ hlook
          refine .inside (n + 1) hgoal' ?_ ?_
          · rw [hplus]
            omega
          · rw [hdone]
            omega

theorem executeFast_starts {pending : Bool} {cycles : Word} {m m' : Machine M}
    (h : xrExecuteFast pending cycles m = (m', .check)) :
    m'.proc.cyclesGoal = cycles ∧ m'.proc.cyclesDone = 0 := by
  unfold xrExecuteFast at h
  split at h
  · cases h
  split at h
  · cases h
  extract_lets p₁ m₁ p₂ m₂ raised p₃ m₃ p₄ at h
  have hset : m₂.proc.cyclesGoal = cycles ∧ m₂.proc.cyclesDone = 0 := ⟨rfl, rfl⟩
  have hbreak : m₃.proc.cyclesGoal = cycles ∧ m₃.proc.cyclesDone = 0 := by
    unfold m₃
    split
    · have hkept := kept_basic m₂ excNmi m₂.proc.pc
      exact ⟨hkept.cyclesGoal.trans hset.1, hkept.cyclesDone.trans hset.2⟩
    · exact hset
  split at h
  · exact XrPoint.noConfusion (Prod.mk.inj h).2
  · rw [← (Prod.mk.inj h).1]
    exact hbreak

theorem call_overrun {s : XrInterp M} {input : XrInput M} {cycles : Word}
    (starts : (s.call input cycles).point = .check) :
    Overrun cycles (s.call input cycles).machine (s.call input cycles).point := by
  have hcall : xrExecuteFast input.pending cycles (s.meets input).machine =
      ((s.call input cycles).machine, .check) := by
    rw [← starts]
    rfl
  obtain ⟨hgoal, hdone⟩ := executeFast_starts hcall
  rw [starts]
  refine .past (fun _ _ => XrPoint.noConfusion) hgoal ?_
  rw [hdone]
  exact Nat.lt_of_lt_of_le (by decide) (Nat.le_add_left _ _)

theorem Executes.overrun {cycles : Word} {s s' : XrInterp M} (h : Executes cycles s s') :
    Overrun cycles s'.machine s'.point := by
  induction h with
  | call input idle starts => exact call_overrun starts
  | next input _ step ih => exact ih.next step

end XrInterp

/-- `XrExecuteFast` looks at its budget often enough. -/
structure LooksInTime (M : Type) [XrBuild M] : Prop where
  chain : ∀ {s s' : XrInterp M} {n g : Nat}, s.Chain n g s' → n ≤ 32 ∧ g ≤ 33 * xrIblockInsts
  returned : ∀ {cycles : Word} {s s' : XrInterp M}, XrInterp.Executes cycles s s' →
    s'.point = .noMore → s'.machine.proc.cyclesDone.toNat < cycles.toNat + 33 * xrIblockInsts

/-- Wherever the counter stands: 32 blocks at most, and less than 33 times 32 cycles over
the budget at the end. -/
theorem overrun_bounded : LooksInTime M where
  chain h := h.room.bound
  returned h _ := h.overrun.bound.2

end

end Xremu
