import Xremu.Interp.PointerHistory
import Xremu.Interp.UserMode

/-!
# Which block starts

A block starts because `XrDecodeInstructions` found it or made it, or because a cached
pointer led to it: a path of a branch, the path of the linkage instruction or an entry of
a prediction table. Only the first of these looks at the mode and at the address space.
So what `XrDecodeInstructions` ensures holds whenever a block starts, in every run in
which the mode and the address space are, where a cached pointer is followed, such as they
were when it was made (`UserKept`, `SpaceKept`).
-/

namespace Xremu

open XrIblockCache

/-! ## Cached pointers that are followed -/

/-- What holds of the processor and the block when a block starts. -/
def Starts {M : Type} (Q : XrProcessor → XrIblock → Prop) (s : XrInterp M) : Prop :=
  ∀ i, s.point = .inst i 0 → Q s.machine.proc (s.cache.iblocks i)

/-- The slot that block `i` is left by, at this program counter. -/
def XrIblockCache.exitSlot (c : XrIblockCache) (i : Nat) (pc : Word) : XrExit → Option XrSlot
  | .follow path => some (.path i path)
  | .predict =>
      match (c.iblocks i).cachedPaths .true with
      | .ptable t => some (.table t (jalrIndex pc))
      | _ => none
  | _ => none

/-- A cached pointer is followed: its slot, the block that it leads to, and the machine then. -/
structure XrFollowed (M : Type) where
  slot : XrSlot
  next : Nat
  machine : Machine M

section

variable {M : Type} [XrBuild M]

/-- What the instruction about to be called dispatches to by a cached pointer;
`XrCheckConditions` in between would look the block up again. -/
def XrInterp.followed (s : XrInterp M) : Option (XrFollowed M) :=
  match s.point with
  | .inst i k =>
      match (s.cache.iblocks i).code.insts[k]? with
      | none => none
      | some inst =>
          match inst.exec s.machine i with
          | none => none
          | some (m, exit) =>
              match s.cache.cachedNext i m.proc.pc exit, s.cache.exitSlot i m.proc.pc exit with
              | .iblock j, some slot =>
                  if m.proc.dispatches &&& 31 = 0 then none else some ⟨slot, j, m⟩
              | _, _ => none
  | _ => none

/-- It holds of the block that a cached pointer leads to. -/
def CachedLaw (Q : XrProcessor → XrIblock → Prop) (s : XrInterp M) : Prop :=
  ∀ f ∈ s.followed, Q f.machine.proc (s.cache.iblocks f.next)

variable {Q : XrProcessor → XrIblock → Prop} {m m' m₁ : Machine M} {c c' : XrIblockCache}
  {i j k : Nat} {inst : XrCachedInst} {exit : XrExit} {s s' : XrInterp M} {hazard : Option Nat}
  {f : XrFollowed M} {h : XrHistory}

theorem EntryLaw.decoded (law : EntryLaw M Q) (hfound : Found m c hazard j m' c') :
    Q m'.proc (c'.iblocks j) :=
  law.same (.refl _) hfound.touched.cr hfound.touched.pc (law.found hfound)

omit [XrBuild M] in
/-- The pointer is in the slot. -/
theorem exitSlot_cached {pc : Word} (hit : c.cachedNext i pc exit = .iblock j) :
    ∃ slot, c.exitSlot i pc exit = some slot ∧ c.slot slot = .iblock j := by
  cases exit with
  | follow path => exact ⟨.path i path, rfl, hit⟩
  | predict =>
      unfold cachedNext at hit
      unfold exitSlot
      cases htable : (c.iblocks i).cachedPaths .true with
      | null =>
          simp only [htable] at hit
          cases hit
      | iblock l =>
          simp only [htable] at hit
          cases hit
      | ptable t =>
          simp only [htable] at hit
          refine ⟨.table t (jalrIndex pc), rfl, ?_⟩
          unfold predicted at hit
          by_cases hkey : (c.ptables t).pcs (jalrIndex pc) = pc
          · rwa [if_pos hkey] at hit
          · rw [if_neg hkey] at hit
            cases hit
  | next => cases hit
  | early => cases hit
  | trivial => cases hit
  | flush vpn => cases hit

theorem followed_of_cached {m₀ : Machine M} (hinst : (c.iblocks i).code.insts[k]? = some inst)
    (hexec : inst.exec m₀ i = some (m, exit)) (hit : c.cachedNext i m.proc.pc exit = .iblock j)
    (hdirect : m.proc.dispatches &&& 31 ≠ 0) :
    ∃ slot, XrInterp.followed ⟨m₀, c, .inst i k⟩ = some ⟨slot, j, m⟩ := by
  obtain ⟨slot, hslot, _⟩ := exitSlot_cached hit
  refine ⟨slot, ?_⟩
  unfold XrInterp.followed
  simp only [hinst, hexec, hit, hslot, if_neg hdirect]

/-- Block `i` is left by a cached pointer. -/
structure FollowsCached (s : XrInterp M) (f : XrFollowed M) (i k : Nat) (inst : XrCachedInst)
    (exit : XrExit) : Prop where
  point : s.point = .inst i k
  called : (s.cache.iblocks i).code.insts[k]? = some inst
  exec : inst.exec s.machine i = some (f.machine, exit)
  hit : s.cache.cachedNext i f.machine.proc.pc exit = .iblock f.next
  slot : s.cache.exitSlot i f.machine.proc.pc exit = some f.slot
  direct : f.machine.proc.dispatches &&& 31 ≠ 0

theorem cached_of_followed (hf : s.followed = some f) :
    ∃ i k inst exit, FollowsCached s f i k inst exit := by
  obtain ⟨m₀, c, point⟩ := s
  unfold XrInterp.followed at hf
  cases point with
  | inst i k =>
      cases hinst : (c.iblocks i).code.insts[k]? with
      | none =>
          simp only [hinst] at hf
          cases hf
      | some inst =>
          rcases hexec : inst.exec m₀ i with _ | ⟨m₁, exit⟩
          · simp only [hinst, hexec] at hf
            cases hf
          · simp only [hinst, hexec] at hf
            split at hf
            · rename_i l slot hit hslot
              by_cases hchecks : m₁.proc.dispatches &&& 31 = 0
              · rw [if_pos hchecks] at hf
                cases hf
              · rw [if_neg hchecks] at hf
                cases hf
                exact ⟨i, k, inst, exit, rfl, hinst, hexec, hit, hslot, hchecks⟩
            · cases hf
  | check => cases hf
  | retry => cases hf
  | noMore => cases hf

/-- The slot is in use, and the program counter is right. -/
structure LeadsOn (c : XrIblockCache) (f : XrFollowed M) : Prop where
  live : c.Live f.slot
  slot : c.slot f.slot = .iblock f.next
  active : c.Active f.next
  pc : (c.iblocks f.next).pc = f.machine.proc.pc

theorem XrInterp.Placed.leadsOn (hplaced : s.Placed) (hf : s.followed = some f) :
    LeadsOn s.cache f := by
  obtain ⟨i, k, inst, exit, hfollows⟩ := cached_of_followed hf
  have hstands := hplaced.stands i k hfollows.point
  have hran := exec_ran hfollows.exec
  obtain ⟨hactive, hpc⟩ := hstands.cached hplaced.reach hfollows.called hran hfollows.hit
  obtain ⟨slot, hslot, hheld⟩ := exitSlot_cached hfollows.hit
  obtain rfl := Option.some.inj (hslot.symm.trans hfollows.slot)
  refine ⟨?_, hheld, hactive, hpc⟩
  cases exit with
  | follow path =>
      rw [← Option.some.inj hfollows.slot]
      exact hstands.active
  | predict =>
      cases htable : (s.cache.iblocks i).cachedPaths .true with
      | null =>
          have hnone := hfollows.slot
          simp only [exitSlot, htable] at hnone
          cases hnone
      | iblock l =>
          have hnone := hfollows.slot
          simp only [exitSlot, htable] at hnone
          cases hnone
      | ptable t =>
          have hsome := hfollows.slot
          simp only [exitSlot, htable] at hsome
          rw [← Option.some.inj hsome]
          have htables := (inv_reach hplaced.reach).tables
          exact ⟨jalrIndex_lt _, i, hstands.active,
            (htables.plain i .true t hstands.active htable).2, htable⟩
  | next => cases hfollows.slot
  | early => cases hfollows.slot
  | trivial => cases hfollows.slot
  | flush vpn => cases hfollows.slot

/-! ## Blocks that start -/

omit [XrBuild M] in
/-- A dispatch starts the next block, or has conditions checked first. -/
theorem dispatch_point (h : (xrDispatch m c i j).point = .inst i' k') :
    i' = j ∧ m.proc.dispatches &&& 31 ≠ 0 := by
  unfold xrDispatch at h
  extract_lets m₁ dispatches m₂ at h
  by_cases hlook : dispatches &&& 31 = 0
  · have hcheck := (if_pos hlook).symm.trans h
    cases hcheck
  · have hinst := (if_neg hlook).symm.trans h
    cases hinst
    exact ⟨rfl, hlook⟩

/-- Dispatch to a block that the law holds of. -/
theorem EntryLaw.dispatch (law : EntryLaw M Q)
    (hq : m.proc.dispatches &&& 31 ≠ 0 → Q m.proc (c.iblocks j)) : Starts Q (xrDispatch m c i j) := by
  intro l hl
  obtain ⟨rfl, hdirect⟩ := dispatch_point hl
  have hsame : SameCode (c.iblocks l) ((xrDispatch m c i l).cache.iblocks l) := .refl _
  exact law.same (p := m.proc) hsame rfl rfl (hq hdirect)

theorem EntryLaw.leaves (law : EntryLaw M Q) (hstands : StandsAt m c i k) (hreach : c.Reach)
    (hinst : (c.iblocks i).code.insts[k]? = some inst) (hexec : inst.exec m i = some (m₁, exit))
    (hleaves : Leaves m₁ c i k exit s) (hcached : CachedLaw Q ⟨m, c, .inst i k⟩) : Starts Q s := by
  cases hleaves with
  | next =>
      intro l hl
      cases hl
  | early | trivial | flush _ | faulted _ _ | unpredicted _ _ _ =>
      intro l hl
      cases hl
  | @cached _ j hit =>
      refine law.dispatch fun hdirect => ?_
      obtain ⟨slot, hf⟩ := followed_of_cached hinst hexec hit hdirect
      exact hcached ⟨slot, j, m₁⟩ hf
  | @decoded path j m₂ c₂ null decode =>
      have hfound := decode_found hreach decode
      refine law.dispatch fun _ => ?_
      obtain ⟨-, hsame⟩ := comes_create c₂ j (.path i path) j
        ((linked_create c₂ j (.path i path)).lists.active j |>.mpr hfound.active)
      exact law.same hsame rfl rfl (law.decoded hfound)
  | @predicted t j c₁ m₂ c₂ table miss decode =>
      have hreach₁ := (table.reach hreach hstands.active (StandsAt.jalr hinst (exec_ran hexec))).1
      have hfound := decode_found hreach₁ decode
      refine law.dispatch fun _ => ?_
      obtain ⟨-, hsame⟩ := comes_predict c₂ t j m₂.proc.pc j
        ((predict_entry c₂ t j m₂.proc.pc j).1.mpr hfound.active)
      exact law.same hsame rfl rfl (law.decoded hfound)

theorem EntryLaw.retry {pending : Bool} (law : EntryLaw M Q) (hreach : c.Reach)
    (hrun : xrRetry pending m c = some s) : Starts Q s := by
  cases retries hrun with
  | stopped stops => exact fun l hl => by cases hl
  | faulted goes decode => exact fun l hl => by cases hl
  | enters goes decode =>
      rintro _ ⟨⟩
      exact law.decoded (decode_found hreach decode)

theorem EntryLaw.step {pending : Bool} (law : EntryLaw M Q) (hplaced : s.Placed)
    (hcached : CachedLaw Q s) (hstep : s.step pending = some s') : Starts Q s' := by
  obtain ⟨m, c, point⟩ := s
  cases point with
  | check =>
      cases hstep
      exact fun l hl => by cases hl
  | retry => exact law.retry hplaced.reach hstep
  | inst i k =>
      obtain ⟨inst, m₁, exit, hinst, hexec, hleaves⟩ := inst_step hstep
      exact law.leaves (hplaced.stands i k rfl) hplaced.reach hinst hexec hleaves hcached
  | noMore => cases hstep

/-- A cached pointer is followed whatever it leads to. -/
theorem leave_cached (hit : c.cachedNext i m.proc.pc exit = .iblock j) :
    xrLeave m c i k exit = some (xrDispatch m c i j) := by
  cases exit with
  | follow path =>
      have hpath : (c.iblocks i).cachedPaths path = .iblock j := hit
      show xrFollow m c i k path = _
      unfold xrFollow
      rw [hpath]
  | predict =>
      unfold cachedNext at hit
      cases htable : (c.iblocks i).cachedPaths .true with
      | null =>
          simp only [htable] at hit
          cases hit
      | iblock l =>
          simp only [htable] at hit
          cases hit
      | ptable t =>
          simp only [htable] at hit
          show xrPredict m c i k = _
          unfold xrPredict xrPredictBy
          simp only [htable, hit, reduceCtorEq, if_false]
  | next => cases hit
  | early => cases hit
  | trivial => cases hit
  | flush vpn => cases hit

theorem step_followed (pending : Bool) (hf : s.followed = some f) :
    ∃ i, s.step pending = some (xrDispatch f.machine s.cache i f.next) ∧
      (xrDispatch f.machine s.cache i f.next).point = .inst f.next 0 := by
  obtain ⟨i, k, inst, exit, hfollows⟩ := cached_of_followed hf
  refine ⟨i, ?_, ?_⟩
  · obtain ⟨m₀, c, point⟩ := s
    obtain rfl : point = .inst i k := hfollows.point
    show xrInst m₀ c i k = _
    unfold xrInst
    simp only [hfollows.called, hfollows.exec]
    exact leave_cached hfollows.hit
  · exact if_neg hfollows.direct

/-- Nothing else can go wrong, and this does. -/
theorem EntryLaw.necessary {pending : Bool} (law : EntryLaw M Q)
    (hstep : s.step pending = some s') (hstarts : Starts Q s') : CachedLaw Q s := by
  intro f hf
  obtain ⟨i, hdispatch, hpoint⟩ := step_followed pending hf
  obtain rfl := Option.some.inj (hstep.symm.trans hdispatch)
  have hq := hstarts f.next hpoint
  have hsame : SameCode ((xrDispatch f.machine s.cache i f.next).cache.iblocks f.next)
      (s.cache.iblocks f.next) := .refl _
  exact law.same (p := (xrDispatch f.machine s.cache i f.next).machine.proc) hsame rfl rfl hq

/-- In every run whose steps follow cached pointers to such blocks only. -/
theorem EntryLaw.starts {P : XrHistory → XrInterp M → Prop} (law : EntryLaw M Q)
    (hcached : ∀ (h : XrHistory) (s : XrInterp M), s.Placed → HistoryFits Q h s.cache → P h s →
      CachedLaw Q s) (hrun : XrInterp.Recorded P h s) : Starts Q s := by
  induction hrun with
  | start h m initial => exact fun l hl => by cases hl
  | @timeslice h s run idle ih => exact fun l hl => XrPoint.noConfusion (idle.symm.trans hl)
  | @call h s input cycles run idle ih =>
      exact fun l hl => absurd hl (xrExecuteFast_point input.pending cycles _ l 0)
  | @next h s s' input run ok step ih =>
      have hplaced := run.reach.placed.meets input
      have hfits := run.fits law
      exact law.step hplaced (hcached h (s.meets input) hplaced hfits ok) step

end

/-! ## Kernel pages -/

/-- In user mode the block is not one of a kernel page. -/
def KernelHidden (p : XrProcessor) (b : XrIblock) : Prop :=
  p.rs &&& rsUser ≠ 0 → b.pteFlags &&& pteKernel = 0

theorem kernelHidden_law (M : Type) [XrBuild M] : EntryLaw M KernelHidden := by
  constructor
  · intro p p' b b' hsame hcr hpc hq huser
    have hrs : p'.rs = p.rs := congrFun hcr crRs
    have hflags : b'.pteFlags = b.pteFlags := by rw [hsame]
    rw [hflags]
    exact hq (hrs ▸ huser)
  · intro m m' c c' hazard j hfound huser
    by_contra hkernel
    exact huser (hfound.kernel hkernel)

/-- User mode follows only pointers that user mode had made, or to blocks that were fetched from
pages that are not the kernel's. -/
def UserKept {M : Type} [XrBuild M] (h : XrHistory) (s : XrInterp M) : Prop :=
  ∀ f ∈ s.followed, f.machine.proc.rs &&& rsUser ≠ 0 →
    (h.madeFor f.slot).rs &&& rsUser ≠ 0 ∨ h.pageFlags f.next &&& pteKernel = 0

theorem UserKept.law {M : Type} [XrBuild M] {h : XrHistory} {s : XrInterp M} (hplaced : s.Placed)
    (hfits : HistoryFits KernelHidden h s.cache) (hkept : UserKept h s) :
    CachedLaw KernelHidden s := by
  intro f hf huser
  have hleads := hplaced.leadsOn hf
  rcases hkept f hf huser with hmade | hpage
  · exact hfits.made f.slot f.next hleads.live hleads.slot hmade
  · rw [hfits.flags f.next hleads.active]
    exact hpage

/-- In every run in which user mode follows no pointer that the kernel had made to a block of
one of its pages, no such block starts in user mode; and in no other run. -/
theorem kernel_hidden (M : Type) [XrBuild M] :
    (∀ (h : XrHistory) (s : XrInterp M), XrInterp.Recorded UserKept h s → Starts KernelHidden s) ∧
    (∀ (h : XrHistory) (s s' : XrInterp M) (input : XrInput M),
      XrInterp.Recorded (fun _ _ => True) h s → s.next input = some s' → Starts KernelHidden s' →
      UserKept h (s.meets input)) := by
  have law := kernelHidden_law M
  constructor
  · intro h s hrun
    exact law.starts (fun _ _ hplaced hfits hkept => hkept.law hplaced hfits) hrun
  · intro h s s' input hrun hstep hstarts f hf huser
    right
    have hleads := (hrun.reach.placed.meets input).leadsOn hf
    have hflags := (hrun.fits law).flags f.next hleads.active
    rw [← hflags]
    exact law.necessary hstep hstarts f hf huser

/-! ## Address spaces -/

/-- The block is one of the program counter, in the address space there is. -/
structure OwnSpace (p : XrProcessor) (b : XrIblock) : Prop where
  pc : b.pc = p.pc
  asid : b.asid = p.xrCurrentAsid

theorem xrCurrentAsid_congr {p p' : XrProcessor} (h : p'.cr = p.cr) :
    p'.xrCurrentAsid = p.xrCurrentAsid := by
  unfold XrProcessor.xrCurrentAsid XrProcessor.rs
  rw [h]

theorem ownSpace_law (M : Type) [XrBuild M] : EntryLaw M OwnSpace := by
  constructor
  · intro p p' b b' hsame hcr hpc hq
    constructor
    · rw [hsame.pc, hq.pc, hpc]
    · have hasid : b'.asid = b.asid := by rw [hsame]
      rw [hasid, hq.asid, xrCurrentAsid_congr hcr]
  · intro m m' c c' hazard j hfound
    exact ⟨hfound.pc, hfound.asid⟩

/-- Cached pointers are followed in the address space that they were made in. -/
def SpaceKept {M : Type} [XrBuild M] (h : XrHistory) (s : XrInterp M) : Prop :=
  ∀ f ∈ s.followed, f.machine.proc.xrCurrentAsid = (h.madeFor f.slot).xrCurrentAsid

/-- The program counter of a block that a cached pointer leads to is always right. -/
theorem SpaceKept.law {M : Type} [XrBuild M] {h : XrHistory} {s : XrInterp M} (hplaced : s.Placed)
    (hfits : HistoryFits OwnSpace h s.cache) (hkept : SpaceKept h s) : CachedLaw OwnSpace s := by
  intro f hf
  have hleads := hplaced.leadsOn hf
  refine ⟨hleads.pc, ?_⟩
  rw [hkept f hf]
  exact (hfits.made f.slot f.next hleads.live hleads.slot).asid

/-- In every run in which cached pointers are followed in the address spaces that they were
made in, every block that starts is one of the address space there is; and in no other run. -/
theorem space_owned (M : Type) [XrBuild M] :
    (∀ (h : XrHistory) (s : XrInterp M), XrInterp.Recorded SpaceKept h s → Starts OwnSpace s) ∧
    (∀ (h : XrHistory) (s s' : XrInterp M) (input : XrInput M),
      XrInterp.Recorded (fun _ _ => True) h s → s.next input = some s' → Starts OwnSpace s' →
      SpaceKept h (s.meets input)) := by
  have law := ownSpace_law M
  constructor
  · intro h s hrun
    exact law.starts (fun _ _ hplaced hfits hkept => hkept.law hplaced hfits) hrun
  · intro h s s' input hrun hstep hstarts f hf
    have hleads := (hrun.reach.placed.meets input).leadsOn hf
    have hmade := (hrun.fits law).made f.slot f.next hleads.live hleads.slot
    rw [← hmade.asid]
    exact (law.necessary hstep hstarts f hf).asid.symm

/-! ## Runs -/

/-- The history of the first call of `XrExecuteFast`. -/
def firstHistory (m : Machine (XrFastMem (XrStation Unit))) : Nat → XrHistory
  | 0 => ⟨fun _ => .zeroed 0, fun _ => 0⟩
  | n + 1 =>
      match (firstCall m n).next uneventful with
      | none => firstHistory m n
      | some _ => ((firstCall m n).meets uneventful).history uneventful.pending (firstHistory m n)

theorem firstCall_recorded {P : XrHistory → XrInterp (XrFastMem (XrStation Unit)) → Prop}
    {m : Machine (XrFastMem (XrStation Unit))} {n : Nat}
    (h : ∀ k, k < n → P (firstHistory m k) ((firstCall m k).meets uneventful)) :
    XrInterp.Recorded P (firstHistory m n) (firstCall m n) := by
  induction n with
  | zero =>
      exact .call uneventful 20000 (.timeslice (.start _ m initial_initialBlockCache) rfl) rfl
  | succ n ih =>
      have hrun := ih fun k hk => h k (Nat.lt_succ_of_lt hk)
      cases hnext : (firstCall m n).next uneventful with
      | none =>
          have hhistory : firstHistory m (n + 1) = firstHistory m n := by
            simp only [firstHistory, hnext]
          have hcall : firstCall m (n + 1) = firstCall m n := by
            simp only [firstCall, hnext, Option.getD_none]
          rw [hhistory, hcall]
          exact hrun
      | some s =>
          have hhistory : firstHistory m (n + 1) =
              ((firstCall m n).meets uneventful).history uneventful.pending (firstHistory m n) := by
            simp only [firstHistory, hnext]
          have hcall : firstCall m (n + 1) = s := by
            simp only [firstCall, hnext, Option.getD_some]
          rw [hhistory, hcall]
          exact .next uneventful hrun (h n (Nat.lt_succ_self n)) hnext

instance {M : Type} [XrBuild M] (h : XrHistory) (s : XrInterp M) : Decidable (UserKept h s) :=
  inferInstanceAs (Decidable (∀ f ∈ s.followed, _))

instance {M : Type} [XrBuild M] (h : XrHistory) (s : XrInterp M) : Decidable (SpaceKept h s) :=
  inferInstanceAs (Decidable (∀ f ∈ s.followed, _))

/-- The ITB entry of a page that is the second one of the boot ROM. -/
def romEntry (vpn flags : BitVec 64) : BitVec 64 := (vpn <<< 32) ||| 0x1FFFC20 ||| flags

/-- Pages 1 and 2 in every address space, valid; page 2 has these flags as well. -/
def romPages (flags : BitVec 64) (i : Nat) : BitVec 64 :=
  if i = 0 then romEntry 1 (pteValid ||| pteGlobal)
  else if i = 1 then romEntry 2 (pteValid ||| pteGlobal ||| flags)
  else tbInvalidEntry

/-- In user mode `J 2004` at 1000 and `J 1000` at 2004. -/
def userLoop : Machine (XrFastMem (XrStation Unit)) :=
  (atRom [0x400E, 0x2006] (fun i => if i = crRs then rsUser ||| rsMmu else 0) (romPages 0)).setPc
    0x1000

set_option maxRecDepth 20000 in
/-- The second time around the jumps follow cached pointers. -/
theorem kernel_hidden_loop :
    (firstCall userLoop 4).followed.isSome = true ∧ (firstCall userLoop 5).followed.isSome = true ∧
      Starts KernelHidden (firstCall userLoop 6) := by
  refine ⟨by decide +kernel, by decide +kernel, ?_⟩
  apply (kernel_hidden _).1 (firstHistory userLoop 6)
  apply firstCall_recorded
  decide +kernel

/-- `J 2004` in a page that is for all, which is called first by the kernel, and at 2004
in a kernel page RFE, which returns to it in user mode. -/
def kernelCall : Machine (XrFastMem (XrStation Unit)) :=
  (atRom [0x400E, 0xB0000029] (fun i =>
    if i = crRs then 0x504 else if i = crEb then 0xF000 else if i = crEpc then 0x1000 else 0)
    (romPages pteKernel)).setPc 0x1000

set_option maxRecDepth 20000 in
/-- The kernel's call has left a pointer to the block at 2004, which user mode follows. -/
theorem kernel_block_in_user_mode :
    XrInterp.Reach (fun _ => True) (firstCall kernelCall 7) ∧
      ¬Starts KernelHidden (firstCall kernelCall 7) := by
  refine ⟨firstCall_reach kernelCall 7, ?_⟩
  intro h
  have hpoint : (firstCall kernelCall 7).point = .inst 2046 0 := rfl
  have hhidden := h 2046 hpoint
  revert hhidden
  unfold KernelHidden
  decide

/-- At 1000 `MTCR ITBTAG, R1` and `J 2008`; at 2008 `MTCR ITBTAG, ZERO` and `J 1000`. -/
def spaceLoop : Machine (XrFastMem (XrStation Unit)) :=
  ((atRom [0xE0110829, 0x4016, 0xE0110029, 0x2006] (fun i => if i = crRs then rsMmu else 0)
    (romPages 0)).setReg 1 0x100000).setPc 0x1000

set_option maxRecDepth 20000 in
/-- Each jump is always made in the same address space, the one of R1 or 0. -/
theorem space_owned_loop :
    (firstCall spaceLoop 7).followed.isSome = true ∧ (firstCall spaceLoop 9).followed.isSome = true ∧
      Starts OwnSpace (firstCall spaceLoop 10) := by
  refine ⟨by decide +kernel, by decide +kernel, ?_⟩
  apply (space_owned _).1 (firstHistory spaceLoop 10)
  apply firstCall_recorded
  decide +kernel

/-- The same with another value for R1 at 2008. -/
def spaceHop : Machine (XrFastMem (XrStation Unit)) :=
  ((atRom [0xE0110829, 0x4016, 0x00200044, 0xE0110029, 0x2006] (fun i => if i = crRs then rsMmu else 0)
    (romPages 0)).setReg 1 0x100000).setPc 0x1000

set_option maxRecDepth 20000 in
/-- The second time the block at 2008 starts in address space 2, decoded for 1. -/
theorem block_of_other_space :
    XrInterp.Reach (fun _ => True) (firstCall spaceHop 9) ∧
      ¬Starts OwnSpace (firstCall spaceHop 9) := by
  refine ⟨firstCall_reach spaceHop 9, ?_⟩
  intro h
  have hpoint : (firstCall spaceHop 9).point = .inst 2046 0 := rfl
  have hasid := (h 2046 hpoint).asid
  revert hasid
  decide

end Xremu
