import Xremu.Interp.Watch
import Xremu.Interp.MemoryRuns

/-!
# The interpreter does not see its observer

Every function of the interpreter, run on a build under observation, does what it does on
the build, and its notes come on top. So a step under observation is a step of the build
when the notes are forgotten (`XrInterp.step_bare`), and every run of the build is what
some run under observation is without its notes (`XrInterp.RunsIn.observed`).
-/

namespace Xremu

/-- The state without the notes. -/
def XrInterp.bare {M O : Type} (s : XrInterp (Watched M O)) : XrInterp M :=
  ⟨s.machine.bare, s.cache, s.point⟩

/-- What an instruction comes to, without the notes. -/
def bareExit {M O : Type} (out : Machine (Watched M O) × XrExit) : Machine M × XrExit :=
  (out.1.bare, out.2)

/-- Both ways a test can go are forgotten alike. -/
theorem forget_ite {α β : Type} (f : α → β) {P : Prop} [Decidable P] {a b : α} {a' b' : β}
    (ha : f a = a') (hb : f b = b') : f (if P then a else b) = if P then a' else b' := by
  split
  · exact ha
  · exact hb

section

variable {M O : Type} [XrBuild M] [Watcher M O] {m : Machine (Watched M O)} {c : XrIblockCache}
  {inst : XrCachedInst} {block : Nat}

/-! ## Instructions -/

theorem bare_basic (m : Machine (Watched M O)) (exc pc : Word) :
    (xrBasicException m exc pc).bare = xrBasicException m.bare exc pc :=
  congrArg Machine.bare (watched_basic m.bare m.mem.seen exc pc)

/-- What follows an access follows it in the build too. -/
theorem bare_access {r : XrMemReq}
    {next : XrResult × Machine (Watched M O) → Option (Machine (Watched M O) × XrExit)}
    {next' : XrResult × Machine M → Option (Machine M × XrExit)}
    (hnext : ∀ res m', (next (res, m')).map bareExit = next' (res, m'.bare)) :
    ((XrBuild.access m block r).bind next).map bareExit = (XrBuild.access m.bare block r).bind next' := by
  have haccess : XrBuild.access m block r = (XrBuild.access m.bare block r).map fun out =>
      (out.1, out.2.watched (noteAccess m.bare r out.1 out.2 m.mem.seen)) := rfl
  rw [haccess]
  cases XrBuild.access m.bare block r with
  | none => rfl
  | some out => exact hnext out.1 _

omit [XrBuild M] [Watcher M O] in
/-- An early exit on a fault, and otherwise on to the next instruction. -/
theorem bare_answer (res : XrResult) (m' m₁ : Machine (Watched M O)) :
    (if res.1 = .fault then some (m', XrExit.early) else xrNext m₁).map bareExit =
      if res.1 = .fault then some (m'.bare, XrExit.early) else xrNext m₁.bare :=
  forget_ite _ rfl rfl

theorem storeAt_bare (address value : Word) (length : Nat) :
    (storeAt m block address value length).map bareExit =
      storeAt m.bare block address value length :=
  bare_access fun res m' => bare_answer res m' m'

theorem loadAt_bare (address : Word) (rd length : Nat) :
    (loadAt m block address rd length).map bareExit = loadAt m.bare block address rd length :=
  bare_access fun res m' => bare_answer res m' (m'.setReg rd (res.2.getD 0))

theorem storeConditional_bare :
    (xrExecuteStoreConditional m block inst).map bareExit =
      xrExecuteStoreConditional m.bare block inst := by
  unfold xrExecuteStoreConditional
  refine forget_ite _ rfl ?_
  exact bare_access fun res m' => bare_answer res m' (m'.setReg inst.imm8_1 _)

theorem loadLinked_bare :
    (xrExecuteLoadLinked m block inst).map bareExit = xrExecuteLoadLinked m.bare block inst :=
  bare_access fun res m' => bare_answer res m' _

theorem mtcrKernel_bare (rb : Nat) (value : Word) :
    (mtcrKernel m rb value).map bareExit = mtcrKernel m.bare rb value := by
  unfold mtcrKernel
  extract_lets m₁ m₂ m₁' m₂'
  split
  · rfl
  split
  · rfl
  split
  · rfl
  · rfl

/-- Every handler. -/
theorem exec_bare : (inst.exec m block).map bareExit = inst.exec m.bare block := by
  obtain ⟨func, imm32, imm8, imm8'⟩ := inst
  have hraise : ∀ (m' : Machine (Watched M O)) (exc pc : Word) (exit : XrExit),
      (some (xrBasicException m' exc pc, exit)).map bareExit =
        some (xrBasicException m'.bare exc pc, exit) :=
    fun m' exc pc exit => congrArg (fun m => some (m, exit)) (bare_basic m' exc pc)
  have hbranch : ∀ (taken : Word → Bool) (inst : XrCachedInst),
      (branch taken m block inst).map bareExit = branch taken m.bare block inst :=
    fun taken inst => forget_ite _ rfl rfl
  cases func with
  | illegalInstruction | sys | brk => exact hraise _ _ _ _
  | sc => exact storeConditional_bare
  | ll => exact loadLinked_bare
  | bpo => exact hbranch (fun rd => rd &&& 1 != 0) _
  | bpe => exact hbranch (fun rd => rd &&& 1 == 0) _
  | bge => exact hbranch (fun rd => !rd.slt 0) _
  | ble => exact hbranch (fun rd => rd.sle 0) _
  | bgt => exact hbranch (fun rd => (0 : Word).slt rd) _
  | blt => exact hbranch (fun rd => rd.slt 0) _
  | bne => exact hbranch (fun rd => rd != 0) _
  | beq => exact hbranch (fun rd => rd == 0) _
  | pause =>
      show (xrExecutePause m block ⟨.pause, imm32, imm8, imm8'⟩).map bareExit = _
      exact forget_ite _ rfl rfl
  | rfe =>
      have hrfe : (xrRfe m).bare = xrRfe m.bare := forget_ite _ (bare_basic _ _ _) rfl
      exact congrArg (fun m => some (m, _)) hrfe
  | hlt =>
      show (xrExecuteHlt m block ⟨.hlt, imm32, imm8, imm8'⟩).map bareExit = _
      exact forget_ite _ (hraise _ _ _ _) rfl
  | mtcr =>
      show (xrExecuteMtcr m block _).map bareExit = xrExecuteMtcr m.bare block _
      exact forget_ite _ (hraise _ _ _ _) (mtcrKernel_bare _ _)
  | mfcr =>
      show (xrExecuteMfcr m block _).map bareExit = xrExecuteMfcr m.bare block _
      exact forget_ite _ (hraise _ _ _ _) rfl
  | jalr =>
      show (xrExecuteJalr m block _).map bareExit = xrExecuteJalr m.bare block _
      exact forget_ite _ (hraise _ _ _ _) rfl
  | storeLongRegOffset | storeIntRegOffset | storeByteRegOffset
  | storeLongImmOffsetImm | storeIntImmOffsetImm | storeByteImmOffsetImm
  | storeLongImmOffsetReg | storeIntImmOffsetReg | storeByteImmOffsetReg => exact storeAt_bare _ _ _
  | loadLongRegOffset | loadIntRegOffset | loadByteRegOffset
  | loadLongImmOffset | loadIntImmOffset | loadByteImmOffset => exact loadAt_bare _ _ _
  -- The rest computes on registers.
  | _ => rfl

/-! ## Decoding -/

/-- What decoding comes to, without the notes. -/
def bareDecoded (out : Option Nat × Machine (Watched M O) × XrIblockCache) :
    Option Nat × Machine M × XrIblockCache :=
  (out.1, out.2.1.bare, out.2.2)

theorem decode_bare (hazard : Option Nat) :
    (xrDecodeInstructions m c hazard).map bareDecoded = xrDecodeInstructions m.bare c hazard := by
  unfold xrDecodeInstructions
  extract_lets pc asid pc' asid'
  have hpc : pc' = pc := rfl
  have hasid : asid' = asid := rfl
  rw [hpc, hasid]
  cases c.xrLookupIblock pc asid with
  | some i =>
      simp only
      refine forget_ite _ ?_ rfl
      exact congrArg (fun m => some (none, m, c)) (bare_basic (m.setCr crEbadaddr pc) excPgf pc)
  | none =>
      simp only
      cases hbare : XrBuild.fetch m.bare with
      | none =>
          have hfetch : XrBuild.fetch m = none := by
            show (XrBuild.fetch m.bare).map _ = none
            rw [hbare]
            rfl
          rw [hfetch]
          rfl
      | some out =>
          obtain ⟨_ | f, m₁⟩ := out
          · have hfetch : XrBuild.fetch m =
                some (none, m₁.watched (excepted m.bare (Watcher.look m₁ m.mem.seen))) := by
              show (XrBuild.fetch m.bare).map _ = _
              rw [hbare]
              rfl
            rw [hfetch]
            rfl
          · have hfetch : XrBuild.fetch m = some (some f, lookAfter m m₁) := by
              show (XrBuild.fetch m.bare).map _ = _
              rw [hbare]
              rfl
            have htb : (lookAfter m m₁).tbmiss = m₁.tbmiss := rfl
            rw [hfetch]
            simp only [htb]
            cases c.decodeFetched hazard pc asid f m₁.tbmiss with
            | none => rfl
            | some r => rfl

/-! ## Steps -/

theorem follow_bare (i k : Nat) (path : XrPath) :
    (xrFollow m c i k path).map XrInterp.bare = xrFollow m.bare c i k path := by
  unfold xrFollow
  cases (c.iblocks i).cachedPaths path with
  | iblock j => rfl
  | ptable t => rfl
  | null =>
      simp only
      rw [← decode_bare]
      rcases xrDecodeInstructions m c (some i) with _ | ⟨_ | j, m', c'⟩
      · rfl
      · rfl
      · rfl

theorem predictBy_bare (i k t : Nat) :
    (xrPredictBy m c i k t).map XrInterp.bare = xrPredictBy m.bare c i k t := by
  unfold xrPredictBy
  have hpc : m.bare.proc.pc = m.proc.pc := rfl
  rw [hpc]
  cases c.predicted t m.proc.pc with
  | iblock j => rfl
  | ptable t => rfl
  | null =>
      simp only
      rw [← decode_bare]
      rcases xrDecodeInstructions m c (some i) with _ | ⟨_ | j, m', c'⟩
      · rfl
      · rfl
      · rfl

theorem predict_bare (i k : Nat) :
    (xrPredict m c i k).map XrInterp.bare = xrPredict m.bare c i k := by
  unfold xrPredict
  cases (if (c.iblocks i).cachedPaths .true = .null then c.givePtable i else some c) with
  | none => rfl
  | some c' =>
      simp only
      cases (c'.iblocks i).cachedPaths .true with
      | iblock j => rfl
      | null => rfl
      | ptable t => exact predictBy_bare i k t

theorem leave_bare (i k : Nat) (exit : XrExit) :
    (xrLeave m c i k exit).map XrInterp.bare = xrLeave m.bare c i k exit := by
  cases exit with
  | next | early | trivial => rfl
  | flush vpn =>
      show ((c.drop vpn).map _).map XrInterp.bare = (c.drop vpn).map _
      cases c.drop vpn with
      | none => rfl
      | some c' => rfl
  | follow path => exact follow_bare i k path
  | predict => exact predict_bare i k

theorem inst_bare (i k : Nat) : (xrInst m c i k).map XrInterp.bare = xrInst m.bare c i k := by
  unfold xrInst
  cases (c.iblocks i).code.insts[k]? with
  | none => rfl
  | some inst =>
      simp only
      rw [← exec_bare]
      rcases inst.exec m i with _ | ⟨m₁, exit⟩
      · rfl
      · exact leave_bare i k exit

theorem retry_bare (pending : Bool) :
    (xrRetry pending m c).map XrInterp.bare = xrRetry pending m.bare c := by
  refine forget_ite _ rfl ?_
  have hcount : m.countNmiMask.bare = m.bare.countNmiMask := forget_ite _ rfl rfl
  have htake : (takeInterrupt pending m.countNmiMask).bare =
      takeInterrupt pending m.bare.countNmiMask := by
    rw [← hcount]
    refine forget_ite _ ?_ rfl
    exact congrArg (fun m : Machine M => { m with proc := { m.proc with progress := xrPollMax } })
      (bare_basic m.countNmiMask excInt _)
  rw [← htake, ← decode_bare]
  rcases xrDecodeInstructions (takeInterrupt pending m.countNmiMask) c none with
    _ | ⟨_ | j, m', c'⟩
  · rfl
  · rfl
  · rfl

/-- What a call of `XrExecuteFast` comes to, without the notes. -/
def bareCall (out : Machine (Watched M O) × XrPoint) : Machine M × XrPoint := (out.1.bare, out.2)

theorem executeFast_bare (pending : Bool) (cycles : Word) :
    bareCall (xrExecuteFast pending cycles m) = xrExecuteFast pending cycles m.bare := by
  refine forget_ite bareCall rfl (forget_ite bareCall rfl ?_)
  extract_lets p₁ m₁ p₂ m₂ raised p₃ m₃ p₄ q₁ n₁ q₂ n₂ raised' q₃ n₃ q₄
  have h₁ : m₁.bare = n₁ := forget_ite _ rfl rfl
  have h₂ : m₂.bare = n₂ := congrArg (fun m : Machine M =>
    { m with proc := { m.proc with cyclesGoal := cycles, cyclesDone := 0 } }) h₁
  have h₃ : m₃.bare = n₃ := by
    show _ = if n₂.proc.userBreak = true ∧ n₂.proc.nmiMaskCounter = 0 then
      let n := xrBasicException n₂ excNmi n₂.proc.pc
      { n with proc := { n.proc with userBreak := false, halted := false } } else n₂
    rw [← h₂]
    refine forget_ite _ ?_ rfl
    exact congrArg (fun m : Machine M =>
      { m with proc := { m.proc with userBreak := false, halted := false } }) (bare_basic m₂ excNmi _)
  show _ = if n₃.proc.progress ≤ 0 then (n₃, XrPoint.noMore)
    else ({ n₃ with proc := { n₃.proc with pauseCalls := 0, noMore := false } }, .check)
  rw [← h₃]
  exact forget_ite bareCall rfl rfl

end

variable {M O : Type} [XrBuild M] [Watcher M O]

/-- A step under observation is the step of the build, and notes. -/
theorem XrInterp.step_bare (pending : Bool) (s : XrInterp (Watched M O)) :
    (s.step pending).map XrInterp.bare = s.bare.step pending := by
  unfold XrInterp.step
  have hpoint : s.bare.point = s.point := rfl
  rw [hpoint]
  cases s.point with
  | check => rfl
  | retry => exact retry_bare pending
  | inst i k => exact inst_bare i k
  | noMore => rfl

/-- The observer sees every run of the build. -/
theorem XrInterp.RunsIn.observed {E : Machine M → Machine M → Prop}
    {E' : Machine (Watched M O) → Machine (Watched M O) → Prop} {m₀ : Machine (Watched M O)}
    (hE : ∀ m m', E m.bare m' → ∃ m'', E' m m'' ∧ m''.bare = m') {s : XrInterp M}
    (h : RunsIn E m₀.bare s) : ∃ s' : XrInterp (Watched M O), RunsIn E' m₀ s' ∧ s'.bare = s := by
  induction h with
  | @start c initial => exact ⟨⟨m₀, c, .noMore⟩, .start initial, rfl⟩
  | timeslice h idle ih =>
      obtain ⟨s', hruns, rfl⟩ := ih
      exact ⟨s'.timeslice, .timeslice hruns idle, rfl⟩
  | call pending cycles h idle ih =>
      obtain ⟨s', hruns, rfl⟩ := ih
      refine ⟨_, .call pending cycles hruns idle, ?_⟩
      have hcall : bareCall (xrExecuteFast pending cycles s'.machine) =
          xrExecuteFast pending cycles s'.machine.bare := executeFast_bare pending cycles
      show _ = (⟨(xrExecuteFast pending cycles s'.machine.bare).1, _,
        (xrExecuteFast pending cycles s'.machine.bare).2⟩ : XrInterp M)
      rw [← hcall]
      rfl
  | step pending h step ih =>
      obtain ⟨s', hruns, rfl⟩ := ih
      rw [← step_bare] at step
      obtain ⟨s'', hstep, rfl⟩ := Option.map_eq_some_iff.mp step
      exact ⟨s'', .step pending hruns hstep, rfl⟩
  | meanwhile h acts ih =>
      obtain ⟨s', hruns, rfl⟩ := ih
      obtain ⟨m', hacts, rfl⟩ := hE _ _ acts
      exact ⟨{ s' with machine := m' }, .meanwhile hruns hacts, rfl⟩

end Xremu
