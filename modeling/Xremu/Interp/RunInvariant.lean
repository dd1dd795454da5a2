import Xremu.Interp.Run

/-!
# Where a run can be

At every step of a run the block cache is one that block cache operations reach, and the
program counter is that of the instruction about to be called. So a block is entered at
its own program counter, and its last instruction leads where its slots stand for.
-/

namespace Xremu

open XrIblockCache

/-! ## The instructions of a block -/

theorem XrBlockCode.inst_cases (code : XrBlockCode) {k : Nat} {inst : XrCachedInst}
    (h : code.insts[k]? = some inst) :
    (inst.func.kind.ends = false ∧ k + 1 < code.insts.length) ∨
      (inst = code.last ∧ code.insts.take k = code.body) := by
  have hlength : code.insts.length = code.body.length + 1 := by
    rw [code.insts_eq, List.length_append, List.length_singleton]
  have hk : k < code.insts.length := (List.getElem?_eq_some_iff.mp h).1
  by_cases hbody : k < code.body.length
  · left
    rw [code.insts_eq, List.getElem?_append_left hbody] at h
    exact ⟨code.body_goes_on inst (List.mem_of_getElem? h), by omega⟩
  · right
    have heq : k = code.body.length := by omega
    subst heq
    constructor
    · rw [code.insts_eq, List.getElem?_append_right (Nat.le_refl _), Nat.sub_self] at h
      exact (Option.some.inj h).symm
    · rw [code.insts_eq, List.take_left]

theorem advance_take {insts : List XrCachedInst} {k : Nat} {inst : XrCachedInst}
    (h : insts[k]? = some inst) (pc : Word) :
    advance (insts.take (k + 1)) pc =
      if inst.func.kind = .shift then advance (insts.take k) pc
      else advance (insts.take k) pc + 4 := by
  obtain ⟨hk, hget⟩ := List.getElem?_eq_some_iff.mp h
  rw [List.take_succ_eq_append_getElem hk, advance_append, hget]
  rfl

section

variable {M : Type} [XrBuild M]

theorem mtcrKernel_pc {m m' : Machine M} {rb : Nat} {value : Word} {exit : XrExit}
    (h : mtcrKernel m rb value = some (m', exit)) : m'.proc.pc = m.proc.pc + 4 := by
  unfold mtcrKernel at h
  extract_lets m₁ m₂ at h
  have hpc : m₁.proc.pc = m.proc.pc := (xrMtcr_written m.proc rb value).pc
  split at h
  · cases h
    exact congrArg (· + 4) ((XrBuild.icachectrl_touched value m₁).pc.trans hpc)
  split at h
  · cases h
    exact congrArg (· + 4) ((XrBuild.dcachectrl_touched value m₁).pc.trans hpc)
  split at h
  · cases h
    exact congrArg (· + 4) hpc
  · cases h
    exact congrArg (· + 4) hpc

theorem mtcrKernel_exit {m m' : Machine M} {rb : Nat} {value : Word} {exit : XrExit}
    (h : mtcrKernel m rb value = some (m', exit)) : exit = .next ∨ ∃ vpn, exit = .flush vpn := by
  unfold mtcrKernel at h
  extract_lets m₁ m₂ at h
  split at h
  · cases h
    exact Or.inr ⟨_, rfl⟩
  split at h
  · cases h
    exact Or.inl rfl
  split at h
  · cases h
    exact Or.inr ⟨_, rfl⟩
  · cases h
    exact Or.inl rfl

/-- The program counter after an instruction that goes on. -/
theorem Ran.next_pc {m m' : Machine M} {inst : XrCachedInst} (h : Ran m inst m' .next) :
    inst.func.kind.ends = false ∧
      m'.proc.pc = if inst.func.kind = .shift then m.proc.pc else m.proc.pc + 4 := by
  cases h with
  | step kind same regs pc =>
      rw [kind]
      exact ⟨rfl, pc⟩
  | shift kind same regs pc =>
      rw [kind]
      exact ⟨rfl, pc⟩
  | fault same regs raises leaves => rcases leaves with he | he <;> cases he
  | mtcr kind kernel wrote =>
      rw [kind]
      exact ⟨rfl, mtcrKernel_pc wrote⟩

/-- The instructions that a path is followed from. -/
def XrKind.Follows (kind : XrKind) : Prop := kind = .branch ∨ kind = .jump ∨ kind = .linkage

theorem XrKind.Follows.ends {kind : XrKind} (h : kind.Follows) : kind.ends = true := by
  rcases h with rfl | rfl | rfl <;> rfl

theorem XrKind.Follows.ne_jalr {kind : XrKind} (h : kind.Follows) : kind ≠ .jalr := by
  rcases h with rfl | rfl | rfl <;> decide

/-- The program counter after such an instruction. -/
theorem Ran.follow_pc {m m' : Machine M} {inst : XrCachedInst} {path : XrPath}
    (h : Ran m inst m' (.follow path)) :
    inst.func.kind.Follows ∧ SameControl m.proc m'.proc ∧
      m'.proc.pc = inst.target m.proc.pc path := by
  cases h with
  | fault same regs raises leaves => rcases leaves with he | he <;> cases he
  | mtcr kind kernel wrote => rcases mtcrKernel_exit wrote with he | ⟨_, he⟩ <;> cases he
  | follow kind same regs pc taken => exact ⟨kind, same, pc⟩

theorem Ran.predict_kind {m m' : Machine M} {inst : XrCachedInst} (h : Ran m inst m' .predict) :
    inst.func.kind = .jalr ∧ SameControl m.proc m'.proc ∧ m'.proc.pc &&& 3 = 0 := by
  cases h with
  | fault same regs raises leaves => rcases leaves with he | he <;> cases he
  | mtcr kind kernel wrote => rcases mtcrKernel_exit wrote with he | ⟨_, he⟩ <;> cases he
  | predict kind same regs aligned => exact ⟨kind, same, aligned⟩

/-! ## Decoding at the program counter -/

/-- Block `i` and its table are still there. -/
structure Survives (c : XrIblockCache) (i : Nat) (c' : XrIblockCache) : Prop where
  active : c'.Active i
  iblock : c'.iblocks i = { c.iblocks i with cachedPaths := (c'.iblocks i).cachedPaths }
  ptable : ∀ path t, c'.slot (.path i path) = .ptable t ↔ c.slot (.path i path) = .ptable t

/-- `XrDecodeInstructions` has found or made block `j`. -/
structure Found (m : Machine M) (c : XrIblockCache) (hazard : Option Nat) (j : Nat)
    (m' : Machine M) (c' : XrIblockCache) : Prop where
  touched : Touched m.proc m'.proc
  reach : c'.Reach
  active : c'.Active j
  pc : (c'.iblocks j).pc = m.proc.pc
  asid : (c'.iblocks j).asid = m.proc.xrCurrentAsid
  kernel : (c'.iblocks j).pteFlags &&& pteKernel ≠ 0 → m.proc.rs &&& rsUser = 0
  hazard : ∀ i, hazard = some i → c.Active i → Survives c i c'

/-- Block `i` has prediction table `t` now. -/
inductive Tabled (c : XrIblockCache) (i t : Nat) : XrIblockCache → Prop
  | old (table : (c.iblocks i).cachedPaths .true = .ptable t) : Tabled c i t c
  | new {c'} (null : (c.iblocks i).cachedPaths .true = .null) (given : c.givePtable i = some c')
      (table : (c'.iblocks i).cachedPaths .true = .ptable t) : Tabled c i t c'

/-- What can follow instruction `k` of block `i`. -/
inductive Leaves (m : Machine M) (c : XrIblockCache) (i k : Nat) : XrExit → XrInterp M → Prop
  | next : Leaves m c i k .next ⟨m, c, .inst i (k + 1)⟩
  | early : Leaves m c i k .early ⟨m.charge k, c, .check⟩
  | flush {vpn c'} (drop : c.drop vpn = some c') :
      Leaves m c i k (.flush vpn) ⟨m.charge k, c', .check⟩
  | trivial : Leaves m c i k .trivial ⟨m.charge (c.iblocks i).code.cycles, c, .check⟩
  | cached {exit j} (hit : c.cachedNext i m.proc.pc exit = .iblock j) :
      Leaves m c i k exit (xrDispatch m c i j)
  | decoded {path j m' c'} (null : (c.iblocks i).cachedPaths path = .null)
      (decode : xrDecodeInstructions m c (some i) = some (some j, m', c')) :
      Leaves m c i k (.follow path)
        (xrDispatch m' (c'.xrCreateCachedPointerToBlock j (.path i path)) i j)
  | faulted {path m' c'} (null : (c.iblocks i).cachedPaths path = .null)
      (decode : xrDecodeInstructions m c (some i) = some (none, m', c')) :
      Leaves m c i k (.follow path) ⟨m'.charge k, c', .check⟩
  | predicted {t j c₁ m' c'} (table : Tabled c i t c₁)
      (miss : c₁.predicted t m.proc.pc = .null)
      (decode : xrDecodeInstructions m c₁ (some i) = some (some j, m', c')) :
      Leaves m c i k .predict (xrDispatch m' (c'.predict t j m'.proc.pc) i j)
  | unpredicted {t c₁ m' c'} (table : Tabled c i t c₁)
      (miss : c₁.predicted t m.proc.pc = .null)
      (decode : xrDecodeInstructions m c₁ (some i) = some (none, m', c')) :
      Leaves m c i k .predict ⟨m'.charge k, c', .check⟩

/-- How `XrDecodeInstructions` ends. -/
inductive Decodes (m : Machine M) (c : XrIblockCache) (hazard : Option Nat) :
    Option Nat → Machine M → XrIblockCache → Prop
  | denied {i} (found : c.xrLookupIblock m.proc.pc m.proc.xrCurrentAsid = some i)
      (kernel : (c.iblocks i).pteFlags &&& pteKernel ≠ 0) (user : m.proc.rs &&& rsUser ≠ 0) :
      Decodes m c hazard none
        (xrBasicException (m.setCr crEbadaddr m.proc.pc) excPgf m.proc.pc) c
  | hit {i} (found : c.xrLookupIblock m.proc.pc m.proc.xrCurrentAsid = some i)
      (allowed : (c.iblocks i).pteFlags &&& pteKernel ≠ 0 → m.proc.rs &&& rsUser = 0) :
      Decodes m c hazard (some i) m c
  | unfetched {m'} (missed : c.xrLookupIblock m.proc.pc m.proc.xrCurrentAsid = none)
      (fetch : XrBuild.fetch m = some (none, m')) : Decodes m c hazard none m' c
  | fetched {f m' j c'} (missed : c.xrLookupIblock m.proc.pc m.proc.xrCurrentAsid = none)
      (fetch : XrBuild.fetch m = some (some f, m'))
      (done : c.decodeFetched hazard m.proc.pc m.proc.xrCurrentAsid f m'.tbmiss = some (j, c')) :
      Decodes m c hazard (some j) (XrBuild.emptyDtbCache j m') c'

/-- What `XrCheckConditions` does from its label on. -/
inductive Retries (pending : Bool) (m : Machine M) (c : XrIblockCache) : XrInterp M → Prop
  | stopped (stops : m.proc.Stops) :
      Retries pending m c ⟨{ m with proc := { m.proc with noMore := true } }, c, .noMore⟩
  | faulted {m' c'} (goes : ¬m.proc.Stops)
      (decode : xrDecodeInstructions (takeInterrupt pending m.countNmiMask) c none =
        some (none, m', c')) :
      Retries pending m c ⟨m'.charge xrIblockInsts, c', .retry⟩
  | enters {j m' c'} (goes : ¬m.proc.Stops)
      (decode : xrDecodeInstructions (takeInterrupt pending m.countNmiMask) c none =
        some (some j, m', c')) :
      Retries pending m c ⟨m', c', .inst j 0⟩

variable {m m' : Machine M} {c c' : XrIblockCache} {hazard : Option Nat} {j : Nat}

theorem decodes {out : Option Nat} (h : xrDecodeInstructions m c hazard = some (out, m', c')) :
    Decodes m c hazard out m' c' := by
  unfold xrDecodeInstructions at h
  extract_lets pc asid at h
  cases hlook : c.xrLookupIblock pc asid with
  | some i =>
      by_cases hdenied : (c.iblocks i).pteFlags &&& pteKernel ≠ 0 ∧ m.proc.rs &&& rsUser ≠ 0
      · simp only [hlook, if_pos hdenied] at h
        cases h
        exact .denied hlook hdenied.1 hdenied.2
      · simp only [hlook, if_neg hdenied] at h
        cases h
        refine .hit hlook fun hkernel => ?_
        by_contra huser
        exact hdenied ⟨hkernel, huser⟩
  | none =>
      simp only [hlook] at h
      rcases hfetch : XrBuild.fetch m with _ | ⟨_ | f, m₁⟩
      · simp only [hfetch] at h
        cases h
      · simp only [hfetch] at h
        cases h
        exact .unfetched hlook hfetch
      · simp only [hfetch] at h
        rcases hdone : c.decodeFetched hazard pc asid f m₁.tbmiss with _ | ⟨i, c₁⟩
        · simp only [hdone] at h
          cases h
        · simp only [hdone] at h
          cases h
          exact .fetched hlook hfetch hdone

theorem decode_found (h : c.Reach)
    (hrun : xrDecodeInstructions m c hazard = some (some j, m', c')) : Found m c hazard j m' c' := by
  have hinv := inv_reach h
  cases decodes hrun with
  | hit found allowed =>
      obtain ⟨hactive, hpc, hasid⟩ := lookup_some hinv.indexed found
      exact ⟨.refl _, h, hactive, hpc, hasid, allowed, fun i _ hi => ⟨hi, rfl, fun _ _ => Iff.rfl⟩⟩
  | @fetched f m₁ _ _ missed fetch done =>
      obtain ⟨i, c₁, hdone, hdecoded⟩ := decodeFetched_ok hinv hazard f m₁.tbmiss missed
      cases hdone.symm.trans done
      obtain ⟨v, hblock⟩ := hdecoded.iblock
      constructor
      case touched =>
        rw [XrBuild.emptyDtbCache_proc]
        exact XrBuild.fetch_done fetch
      case reach =>
        exact .decode hazard m.proc.pc m.proc.xrCurrentAsid f m₁.tbmiss j h missed done
      case active => exact hdecoded.active
      case pc =>
        rw [hblock]
        rfl
      case asid =>
        rw [hblock]
        rfl
      case kernel =>
        rw [hblock]
        exact XrBuild.fetch_kernel fetch
      case hazard =>
        intro i hz hi
        obtain ⟨hi', hne⟩ := hdecoded.hazard i hz hi
        exact ⟨hi', (hdecoded.old i hi' hne).2, fun path t => hdecoded.ptable i path t hne⟩

theorem decode_fault (hrun : xrDecodeInstructions m c hazard = some (none, m', c')) :
    Faulted m m' ∧ c' = c := by
  cases decodes hrun with
  | denied found kernel user =>
      exact ⟨(Raises.address m.proc.pc excPgf m.proc.pc (by decide)).faulted, rfl⟩
  | unfetched missed fetch => exact ⟨XrBuild.fetch_fault fetch, rfl⟩

theorem retries {pending : Bool} {s : XrInterp M} (h : xrRetry pending m c = some s) :
    Retries pending m c s := by
  unfold xrRetry at h
  by_cases hstops : m.proc.Stops
  · rw [if_pos hstops] at h
    cases h
    exact .stopped hstops
  · rw [if_neg hstops] at h
    rcases hdecode : xrDecodeInstructions (takeInterrupt pending m.countNmiMask) c none with
      _ | ⟨_ | j, m', c'⟩
    · simp only [hdecode] at h
      cases h
    · simp only [hdecode] at h
      cases h
      exact .faulted hstops hdecode
    · simp only [hdecode] at h
      cases h
      exact .enters hstops hdecode

/-! ## Leaving an instruction -/

theorem leaves_follow {i k : Nat} {path : XrPath} {s : XrInterp M}
    (h : xrFollow m c i k path = some s) : Leaves m c i k (.follow path) s := by
  unfold xrFollow at h
  cases hslot : (c.iblocks i).cachedPaths path with
  | iblock j =>
      simp only [hslot] at h
      cases h
      exact .cached hslot
  | ptable t =>
      simp only [hslot] at h
      cases h
  | null =>
      simp only [hslot] at h
      cases hdecode : xrDecodeInstructions m c (some i) with
      | none =>
          simp only [hdecode] at h
          cases h
      | some r =>
          obtain ⟨j, m', c'⟩ := r
          cases j with
          | none =>
              simp only [hdecode] at h
              cases h
              exact .faulted hslot hdecode
          | some j =>
              simp only [hdecode] at h
              cases h
              exact .decoded hslot hdecode

theorem jalrIndex_lt (pc : Word) : jalrIndex pc < 8 := by
  unfold jalrIndex
  rw [BitVec.toNat_and]
  exact Nat.lt_of_le_of_lt Nat.and_le_right (by decide)

/-- A new table predicts nothing. -/
theorem XrIblockCache.Given.predicted {i t u : Nat} (h : Given c i t c')
    (ht : (c'.iblocks i).cachedPaths .true = .ptable u) (pc : Word) :
    c'.predicted u pc = .null := by
  rw [h.iblock] at ht
  have htu : XrPointer.ptable t = .ptable u :=
    (Function.update_self XrPath.true (XrPointer.ptable t) (c.iblocks i).cachedPaths).symm.trans ht
  cases htu
  unfold XrIblockCache.predicted
  rw [h.entries _ (jalrIndex_lt pc)]
  split <;> rfl

theorem leaves_predictBy {i k t : Nat} {c₁ : XrIblockCache} {s : XrInterp M}
    (htable : Tabled c i t c₁) (hhit : ∀ j, c₁.predicted t m.proc.pc = .iblock j → c₁ = c)
    (h : xrPredictBy m c₁ i k t = some s) : Leaves m c i k .predict s := by
  unfold xrPredictBy at h
  cases hpred : c₁.predicted t m.proc.pc with
  | iblock j =>
      simp only [hpred] at h
      cases h
      obtain rfl := hhit j hpred
      have hslot : (c₁.iblocks i).cachedPaths .true = .ptable t := by
        cases htable with
        | old table => exact table
        | new null given table => exact table
      refine .cached ?_
      simp only [cachedNext, hslot]
      exact hpred
  | ptable u =>
      simp only [hpred] at h
      cases h
  | null =>
      simp only [hpred] at h
      cases hdecode : xrDecodeInstructions m c₁ (some i) with
      | none =>
          simp only [hdecode] at h
          cases h
      | some r =>
          obtain ⟨j, m', c'⟩ := r
          cases j with
          | none =>
              simp only [hdecode] at h
              cases h
              exact .unpredicted htable hpred hdecode
          | some j =>
              simp only [hdecode] at h
              cases h
              exact .predicted htable hpred hdecode

theorem leaves_predict {i k : Nat} {s : XrInterp M} (h : xrPredict m c i k = some s) :
    Leaves m c i k .predict s := by
  unfold xrPredict at h
  by_cases hnull : (c.iblocks i).cachedPaths .true = .null
  · simp only [hnull, if_true] at h
    cases hgive : c.givePtable i with
    | none =>
        simp only [hgive] at h
        cases h
    | some c₁ =>
        obtain ⟨u, hgiven⟩ := given_givePtable hgive
        simp only [hgive] at h
        cases hslot : (c₁.iblocks i).cachedPaths .true with
        | null =>
            simp only [hslot] at h
            cases h
        | iblock j =>
            simp only [hslot] at h
            cases h
        | ptable t =>
            simp only [hslot] at h
            refine leaves_predictBy (.new hnull hgive hslot) ?_ h
            intro j hpred
            rw [hgiven.predicted hslot m.proc.pc] at hpred
            cases hpred
  · simp only [hnull, if_false] at h
    cases hslot : (c.iblocks i).cachedPaths .true with
    | null => exact absurd hslot hnull
    | iblock j =>
        simp only [hslot] at h
        cases h
    | ptable t =>
        simp only [hslot] at h
        exact leaves_predictBy (.old hslot) (fun _ _ => rfl) h

theorem leaves_of_leave {i k : Nat} {exit : XrExit} {s : XrInterp M}
    (h : xrLeave m c i k exit = some s) : Leaves m c i k exit s := by
  cases exit with
  | next =>
      cases h
      exact .next
  | early =>
      cases h
      exact .early
  | trivial =>
      cases h
      exact .trivial
  | flush vpn =>
      obtain ⟨c', hdrop, rfl⟩ := Option.map_eq_some_iff.mp h
      exact .flush hdrop
  | follow path => exact leaves_follow h
  | predict => exact leaves_predict h

/-- The step of an instruction. -/
theorem inst_step {i k : Nat} {s : XrInterp M} (h : xrInst m c i k = some s) :
    ∃ inst m₁ exit, (c.iblocks i).code.insts[k]? = some inst ∧
      inst.exec m i = some (m₁, exit) ∧ Leaves m₁ c i k exit s := by
  unfold xrInst at h
  cases hinst : (c.iblocks i).code.insts[k]? with
  | none =>
      simp only [hinst] at h
      cases h
  | some inst =>
      cases hexec : inst.exec m i with
      | none =>
          simp only [hinst, hexec] at h
          cases h
      | some r =>
          obtain ⟨m₁, exit⟩ := r
          simp only [hinst, hexec] at h
          exact ⟨inst, m₁, exit, rfl, hexec, leaves_of_leave h⟩

end

end Xremu
