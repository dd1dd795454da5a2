import Xremu.Fast.UserPages
import Xremu.Interp.UserMode

/-!
# Runs of user mode

A stretch of a run in which one processor of the fast build is in user mode with the MMU on,
takes no interrupt and is not interfered with, up to where it enters the kernel. Whatever
differs outside the pages that it may see does not show: `userRun_alike`.
-/

namespace Xremu

open XrIblockCache

/-! ## The processor number -/

section

variable {M : Type} [XrBuild M] {m m' : Machine M}

theorem Raises.same_id (h : Raises m m') : m'.proc.id = m.proc.id := by
  obtain ⟨m₁, exc, rfl, hprepared⟩ := h.vector
  rw [xrVectorException_id, hprepared.proc]

theorem Faulted.same_id (h : Faulted m m') : m'.proc.id = m.proc.id := by
  obtain ⟨m₁, htouched, hraises⟩ := h
  rw [hraises.same_id, htouched.id]

/-- A processor keeps its number. -/
theorem id_kept (id : Nat) : KeptByBuild fun m : Machine M => m.proc.id = id where
  core h _ hid _ := hid.trans h
  reset h := h
  fetch {m m' f} h hfetch := by
    cases f with
    | none => exact (XrBuild.fetch_fault hfetch).same_id.trans h
    | some f => exact (XrBuild.fetch_done hfetch).id.trans h
  emptyDtbCache {m} block h := by
    rw [XrBuild.emptyDtbCache_proc]
    exact h
  access {m m' block r res} h _ hacc := by
    by_cases hfault : res.1 = .fault
    · obtain ⟨status, v⟩ := res
      obtain rfl : status = .fault := hfault
      exact (XrBuild.access_fault hacc).same_id.trans h
    · exact (XrBuild.access_done hacc hfault).id.trans h
  flushWriteBuffer {m} h := (XrBuild.flushWriteBuffer_touched m).id.trans h
  icachectrl {m} value h := (XrBuild.icachectrl_touched value m).id.trans h
  dcachectrl {m} value h := (XrBuild.dcachectrl_touched value m).id.trans h
  drain {m} h := (XrBuild.drain_touched m).id.trans h

/-! ## What user mode may not change -/

/-- User mode with the MMU on, and not in the handler of a TB miss. -/
structure UserMode (p : XrProcessor) : Prop where
  user : p.rs &&& rsUser ≠ 0
  mmu : p.rs &&& rsMmu ≠ 0
  tbmiss : p.rs &&& rsTbmiss = 0

theorem SameSpace.refl (p : XrProcessor) : SameSpace p p := ⟨rfl, rfl, rfl, rfl⟩

theorem SameSpace.trans {p p' p'' : XrProcessor} (h : SameSpace p p') (h' : SameSpace p' p'') :
    SameSpace p p'' :=
  ⟨h'.id.trans h.id, h'.itb.trans h.itb, h'.dtb.trans h.dtb, h'.cr.trans h.cr⟩

theorem SameControl.space {p p' : XrProcessor} (h : SameControl p p') : SameSpace p p' :=
  ⟨h.id, h.itb, h.dtb, h.cr⟩

theorem SameSpace.mode {p p' : XrProcessor} (h : SameSpace p p') (hmode : UserMode p) :
    UserMode p' := by
  have hrs : p'.rs = p.rs := congrFun h.cr crRs
  constructor
  · rw [hrs]
    exact hmode.user
  · rw [hrs]
    exact hmode.mmu
  · rw [hrs]
    exact hmode.tbmiss

omit [XrBuild M] in
theorem countNmiMask_control (m : Machine M) : SameControl m.proc m.countNmiMask.proc := by
  unfold Machine.countNmiMask
  split
  · rfl
  · exact .refl _

/-- No interrupt is taken. -/
def Undisturbed (pending : Bool) (s : XrInterp M) : Prop :=
  s.point = .retry → ¬(pending = true ∧ s.machine.proc.rs &&& rsInt ≠ 0)

theorem takeInterrupt_undisturbed {pending : Bool}
    (h : ¬(pending = true ∧ m.proc.rs &&& rsInt ≠ 0)) :
    takeInterrupt pending m.countNmiMask = m.countNmiMask := by
  unfold takeInterrupt
  rw [(countNmiMask_control m).rs, if_neg h]

variable {s s' : XrInterp M} {pending : Bool}

/-- A step that stays in user mode. -/
theorem step_space (hplaced : s.Placed) (hmode : UserMode s.machine.proc)
    (hquiet : Undisturbed pending s) (hstep : s.step pending = some s')
    (huser : s'.machine.proc.rs &&& rsUser ≠ 0) : SameSpace s.machine.proc s'.machine.proc := by
  have hid := (id_kept s.machine.proc.id).step rfl hstep
  unfold XrInterp.step at hstep
  cases hpoint : s.point with
  | check =>
      simp only [hpoint] at hstep
      cases hstep
      exact (XrBuild.drain_touched s.machine).sameControl.space
  | retry =>
      simp only [hpoint] at hstep
      have hcount := countNmiMask_control s.machine
      have htake := takeInterrupt_undisturbed (hquiet hpoint)
      cases retries hstep with
      | stopped stops => exact ⟨rfl, rfl, rfl, rfl⟩
      | @faulted m' c' goes decode =>
          rw [htake] at decode
          have hentered := (decode_fault decode).1.entered (by rw [hcount.rs]; exact hmode.tbmiss)
          exact absurd hentered.kernel huser
      | enters goes decode =>
          rw [htake] at decode
          have hfound := decode_found hplaced.reach decode
          exact (hcount.trans hfound.touched.sameControl).space
  | inst i k =>
      simp only [hpoint] at hstep
      obtain ⟨inst, m₁, exit, hinst, hexec, hleaves⟩ := inst_step hstep
      have hconfined := leaves_confined (hplaced.stands i k hpoint) hplaced.reach hinst
        (exec_ran hexec) hleaves hmode.user hmode.tbmiss
      obtain ⟨hitb, hdtb⟩ := hconfined.translation huser
      exact ⟨hid, hitb, hdtb, hconfined.control huser⟩
  | noMore =>
      simp only [hpoint] at hstep
      cases hstep

/-- A call of `XrExecuteFast` that stays in user mode. -/
theorem call_space (hmode : UserMode m.proc) (pending : Bool) (cycles : Word) :
    (xrExecuteFast pending cycles m).1.proc.rs &&& rsUser ≠ 0 →
      SameSpace m.proc (xrExecuteFast pending cycles m).1.proc := by
  unfold xrExecuteFast
  split
  · exact fun _ => .refl _
  split
  · exact fun _ => ⟨rfl, rfl, rfl, rfl⟩
  extract_lets p₁ m₁ p₂ m₂ raised p₃ m₃ p₄
  have h₁ : SameSpace m.proc m₁.proc := by
    unfold m₁
    split
    · exact ⟨rfl, rfl, rfl, rfl⟩
    · exact .refl _
  have h₂ : SameSpace m.proc m₂.proc := ⟨h₁.id, h₁.itb, h₁.dtb, h₁.cr⟩
  have h₃ : m₃.proc.rs &&& rsUser ≠ 0 → SameSpace m.proc m₃.proc := by
    unfold m₃
    split
    · -- The break of the user is an exception.
      have hraised := (Raises.plain (m := m₂) excNmi m₂.proc.pc (by decide)).entered
        (h₂.mode hmode).tbmiss
      exact fun huser => absurd hraised.kernel huser
    · exact fun _ => h₂
  split
  · exact h₃
  · intro huser
    have hspace := h₃ huser
    exact ⟨hspace.id, hspace.itb, hspace.dtb, hspace.cr⟩

end

/-! ## The run -/

/-- What the processor is asked to do. -/
inductive UserAct where
  | timeslice
  | call (pending : Bool) (cycles : Word)
  | step (pending : Bool)

section

variable {M : Type} [XrBuild M]

def XrInterp.acts (s : XrInterp M) (act : UserAct) : Option (XrInterp M) :=
  match act with
  | .timeslice => if s.point = .noMore then some s.timeslice else none
  | .call pending cycles =>
      if s.point = .noMore then
        let out := xrExecuteFast pending cycles s.machine
        some ⟨out.1, s.cache, out.2⟩
      else none
  | .step pending => s.step pending

/-- One after the other. -/
def XrInterp.actsAll (s : XrInterp M) (l : List UserAct) : Option (XrInterp M) :=
  l.foldlM XrInterp.acts s

theorem XrInterp.RunsIn.acts {E : Machine M → Machine M → Prop} {m₀ : Machine M}
    {s s' : XrInterp M} {act : UserAct} (h : RunsIn E m₀ s) (hact : s.acts act = some s') :
    RunsIn E m₀ s' := by
  cases act with
  | timeslice =>
      obtain ⟨hidle, hs⟩ := Option.ite_none_right_eq_some.mp hact
      cases hs
      exact .timeslice h hidle
  | call pending cycles =>
      obtain ⟨hidle, hs⟩ := Option.ite_none_right_eq_some.mp hact
      cases hs
      exact .call pending cycles h hidle
  | step pending => exact .step pending h hact

end

section

variable {β : Type} [EBusHost β] {s₀ s s' t t₀ : XrInterp (XrFastMem β)} {l : List UserAct}
  {act : UserAct}

/-- What the blocks remember of pages passes the checks where an instruction uses it, and no
interrupt is taken. -/
def UserAct.Own (act : UserAct) (s : XrInterp (XrFastMem β)) : Prop :=
  ∀ pending, act = .step pending → Undisturbed pending s ∧
    ∀ i k inst r, s.point = .inst i k → (s.cache.iblocks i).code.insts[k]? = some inst →
      inst.memReq s.machine.proc = some r → Guarded s.machine i r.address (!r.read)

/-- In user mode before every act. -/
inductive UserRun (s₀ : XrInterp (XrFastMem β)) : List UserAct → XrInterp (XrFastMem β) → Prop
  | start : UserRun s₀ [] s₀
  | act {l : List UserAct} {s s' : XrInterp (XrFastMem β)} (act : UserAct)
      (h : UserRun s₀ l s) (mode : UserMode s.machine.proc)
      (own : act.Own s) (acts : s.acts act = some s') : UserRun s₀ (l ++ [act]) s'

theorem acts_space (hplaced : s.Placed) (hmode : UserMode s.machine.proc) (hown : act.Own s)
    (hact : s.acts act = some s') (huser : s'.machine.proc.rs &&& rsUser ≠ 0) :
    SameSpace s.machine.proc s'.machine.proc := by
  cases act with
  | timeslice =>
      obtain ⟨-, hs⟩ := Option.ite_none_right_eq_some.mp hact
      cases hs
      exact ⟨rfl, rfl, rfl, rfl⟩
  | call pending cycles =>
      obtain ⟨-, hs⟩ := Option.ite_none_right_eq_some.mp hact
      cases hs
      exact call_space hmode pending cycles huser
  | step pending => exact step_space hplaced hmode (hown pending rfl).1 hact huser

/-! ## Two runs -/

variable {Q : β → β → Prop} {m₀ : Machine (XrFastMem β)}

/-- LL and SC are of longs. -/
theorem memReq_long {inst : XrCachedInst} {p : XrProcessor} {r : XrMemReq}
    (h : inst.memReq p = some r) (hsc : r.sc = true) : r.length = 4 := by
  unfold XrCachedInst.memReq at h
  extract_lets regOffset storeImmOffset loadImmOffset at h
  split at h
  case h_17 =>
    split at h
    · cases h
      rfl
    · cases h
  all_goals
    cases h <;> first | rfl | cases hsc

/-- The step of a processor in user mode asks for nothing but what both answer alike. -/
theorem step_alike (hbus : BusesAlike (SeenPage m₀) (DataPage m₀) Q)
    (h : s.Related (FastAlike Q m₀) t) (hknown : PagesKnown m₀ s.machine)
    (hmode : UserMode s.machine.proc) {pending : Bool} (hown : UserAct.Own (.step pending) s) :
    StepAlike (FastAlike Q m₀) pending s t := by
  obtain ⟨hquiet, hguard⟩ := hown pending rfl
  constructor
  · intro i k hpoint
    constructor
    · intro inst hinst r hreq
      have hfits : r.Fits := ⟨memReq_length hreq, memReq_long hreq⟩
      exact .some (dataAccess_alike hbus h.machine hknown hmode.mmu hfits
        (hguard i k inst r hpoint hinst hreq))
    · intro inst m₁ n₁ exit hinst hexec hleaves hrelated
      have hsame : SameControl s.machine.proc m₁.proc := by
        rcases (exec_ran hexec).user hmode.user hmode.tbmiss with hsame | ⟨-, hexit⟩
        · exact hsame
        · rcases hleaves with rfl | ⟨path, rfl⟩
          · rcases hexit with he | he <;> cases he
          · rcases hexit with he | he <;> cases he
      exact .some (fetch_alike hbus hrelated (hknown.space.trans hsame.space)
        (hsame.space.mode hmode).mmu)
  · intro hpoint hrelated
    have hcount := (countNmiMask_control s.machine).space
    rw [takeInterrupt_undisturbed (hquiet hpoint)] at hrelated ⊢
    exact .some (fetch_alike hbus hrelated (hknown.space.trans hcount) (hcount.mode hmode).mmu)

theorem acts_alike (hbus : BusesAlike (SeenPage m₀) (DataPage m₀) Q)
    (h : s.Related (FastAlike Q m₀) t) (hknown : PagesKnown m₀ s.machine)
    (hmode : UserMode s.machine.proc) (hown : act.Own s) :
    Option.Rel (XrInterp.Related (FastAlike Q m₀)) (s.acts act) (t.acts act) := by
  cases act with
  | timeslice =>
      refine alike_ite (congrArg (· = .noMore) h.point) (fun _ => .some ?_) fun _ => .none
      exact ⟨h.machine.update (fun p => { p with progress := xrPollMax, pauseCalls := 0 }) rfl,
        h.cache, h.point⟩
  | call pending cycles =>
      refine alike_ite (congrArg (· = .noMore) h.point) (fun _ => .some ?_) fun _ => .none
      have hcall := related_executeFast fast_buildsAlike h.machine pending cycles
      exact ⟨hcall.machine, h.cache, hcall.point⟩
  | step pending => exact related_step fast_buildsAlike h (step_alike hbus h hknown hmode hown)

/-- On another bus. -/
def XrInterp.onBus (s : XrInterp (XrFastMem β)) (c : β) : XrInterp (XrFastMem β) :=
  { s with machine := ⟨s.machine.proc, { s.machine.mem with bus := c }⟩ }

omit [EBusHost β] in
theorem related_onBus {c : β} (h : Q s.machine.mem.bus c) :
    s.Related (FastAlike Q s.machine) (s.onBus c) :=
  ⟨⟨rfl, rfl, rfl, h, fun hne => .inr ⟨hne, rfl⟩, fun hne => .inr ⟨hne, rfl⟩⟩, rfl, rfl⟩

omit [EBusHost β] in
theorem XrInterp.Related.onBus (h : s.Related (FastAlike Q m₀) t) :
    t = s.onBus t.machine.mem.bus ∧ Q s.machine.mem.bus t.machine.mem.bus := by
  obtain ⟨⟨hproc, hmem⟩, hcache, hpoint⟩ := h
  refine ⟨?_, hmem.bus⟩
  have hbus := hmem.onlyBus
  obtain ⟨⟨p, a⟩, c, point⟩ := s
  obtain ⟨⟨q, b⟩, c', point'⟩ := t
  cases hproc
  cases hcache
  cases hpoint
  exact congrArg (fun mem => XrInterp.mk ⟨p, mem⟩ c point) hbus

/-- A run of user mode on one bus is one on the other. -/
structure RunsAlike (Q : β → β → Prop) (s₀ t₀ : XrInterp (XrFastMem β)) (l : List UserAct)
    (s : XrInterp (XrFastMem β)) : Prop where
  space : s.machine.proc.rs &&& rsUser ≠ 0 → SameSpace s₀.machine.proc s.machine.proc
  other : ∃ t, t₀.actsAll l = some t ∧ s.Related (FastAlike Q s₀.machine) t

theorem userRun_alike (hbus : BusesAlike (SeenPage s₀.machine) (DataPage s₀.machine) Q)
    {m : Machine (XrFastMem β)} (hfresh : DataStart m) (hreached : XrInterp.RunsIn FastOutside m s₀)
    {c : β} (hc : Q s₀.machine.mem.bus c) (hrun : UserRun s₀ l s) :
    XrInterp.RunsIn FastOutside m s ∧ RunsAlike Q s₀ (s₀.onBus c) l s := by
  have hfilled : Remembers Filled SlotOk m :=
    ⟨fun hne => absurd hfresh.hint hne, fun b i w => Or.inl (hfresh.slots b i w)⟩
  induction hrun with
  | start => exact ⟨hreached, fun _ => .refl _, s₀.onBus c, rfl, related_onBus hc⟩
  | @act l s s' act hrun mode own acts ih =>
      obtain ⟨hruns, hspace, t, hacts, hrelated⟩ := ih
      have hsame := hspace mode.user
      have hknown : PagesKnown s₀.machine s.machine :=
        ⟨hruns.keeps (remembers_kept filled_law) (fun hm h => hm.of_same h.pages) hfilled,
          hruns.keeps (remembers_kept inDtb_law) (fun hm h => hm.of_same h.pages) hfresh.remembers,
          hsame, hrelated.machine.mem.dtb⟩
      have halike := acts_alike hbus hrelated hknown mode own
      rw [acts] at halike
      generalize hnext : t.acts act = y at halike
      cases halike with
      | @some _ t' hrelated' =>
          refine ⟨hruns.acts acts, fun huser => ?_, t', ?_, hrelated'⟩
          · exact hsame.trans (acts_space (hruns.placed FastOutside.outside) mode own acts huser)
          · rw [XrInterp.actsAll, List.foldlM_append]
            unfold XrInterp.actsAll at hacts
            simp [hacts, hnext]

end

end Xremu
