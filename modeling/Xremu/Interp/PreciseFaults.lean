import Xremu.Devices.HostPath
import Xremu.Fast.Build
import Xremu.Cached.Fetch
import Xremu.Interp.Alignment
import Xremu.Interp.BlockOrigins
import Xremu.Machine.Nesting

/-!
# Memory exceptions are precise

A load, a store, LL or SC whose access raises an exception. A cached instruction is the
main one of a word of its block (`MainAt`): the shift inserted before it, if there is
one, has written a register of the simulator's own, and its program counter is the
address of the word. The exception reports that address, and a return to it comes to a
block that starts with everything the word there is decoded to.

What the program sees of memory is, in the cached build, the flat memory that the caches
and RAM agree on, and in the fast build the memories of the station.
-/

namespace Xremu

/-! ## The word of an instruction -/

/-- Instruction `k` of these is what word `n` does, `pre` the shift before it; the words
start at `pc`. -/
structure MainOf (insts : List XrCachedInst) (tbmiss : Bool) (words : List Word) (pc : Word)
    (k n : Nat) (pre : List XrCachedInst) (inst : XrCachedInst) : Prop where
  word : ∃ w, words[n]? = some w ∧
    (xrDecode tbmiss w (pc + BitVec.ofNat 32 (4 * n))).insts = pre ++ [inst]
  shifts : ∀ i ∈ pre, i.func.kind = .shift
  taken : ∃ head, insts.take (k + 1) = head ++ (pre ++ [inst])
  pc : advance (insts.take k) pc = pc + BitVec.ofNat 32 (4 * n)

/-- Instruction `k` of block `b` is what its word `n` does. -/
def XrIblock.MainAt (b : XrIblock) (k n : Nat) (pre : List XrCachedInst) (inst : XrCachedInst) :
    Prop :=
  MainOf b.code.insts b.tbmiss b.words b.pc k n pre inst

theorem advance_shifts {is : List XrCachedInst} (h : ∀ i ∈ is, i.func.kind = .shift) (pc : Word) :
    advance is pc = pc := by
  induction is with
  | nil => rfl
  | cons i is ih =>
      rw [advance, if_pos (h i List.mem_cons_self)]
      exact ih fun j hj => h j (List.mem_cons_of_mem _ hj)

theorem address_succ (pc : Word) (n : Nat) :
    pc + 4 + BitVec.ofNat 32 (4 * n) = pc + BitVec.ofNat 32 (4 * (n + 1)) := by
  rw [BitVec.add_assoc, Nat.mul_succ, Nat.add_comm, BitVec.ofNat_add]
  rfl

/-- The first word of the loop. -/
theorem DecodedOk.mainOf {tbmiss : Bool} {ir pc : Word} {pre : List XrCachedInst}
    {main inst : XrCachedInst} (h : DecodedOk (xrDecode tbmiss ir pc) pre main) {k : Nat}
    (hk : (pre ++ [main])[k]? = some inst) (hshift : inst.func.kind ≠ .shift)
    (irs : List Word) (rest : List XrCachedInst) :
    MainOf ((xrDecode tbmiss ir pc).insts ++ rest) tbmiss (ir :: irs) pc k 0 pre inst := by
  rcases Nat.lt_or_ge k pre.length with hlt | hge
  · rw [List.getElem?_append_left hlt] at hk
    exact absurd (h.shifts inst (List.mem_of_getElem? hk)) hshift
  · rw [List.getElem?_append_right hge, List.getElem?_singleton] at hk
    have hlen : k = pre.length := by
      by_contra hne
      rw [if_neg (by omega)] at hk
      cases hk
    rw [if_pos (by omega)] at hk
    obtain rfl := Option.some.inj hk
    subst hlen
    have hzero : pc + BitVec.ofNat 32 (4 * 0) = pc := by simp
    rw [h.insts]
    refine ⟨⟨ir, rfl, ?_⟩, h.shifts, ⟨[], ?_⟩, ?_⟩
    · rw [hzero]
      exact h.insts
    · rw [List.take_append_of_le_length (by simp)]
      simp
    · rw [hzero, List.append_assoc, List.take_left]
      exact advance_shifts h.shifts pc

/-- A later word of the loop. -/
theorem MainOf.cons {tbmiss : Bool} {ir pc : Word} {irs : List Word} {k n : Nat}
    {insts pre first : List XrCachedInst} {inst : XrCachedInst}
    (h : MainOf insts tbmiss irs (pc + 4) k n pre inst) (hfirst : advance first pc = pc + 4) :
    MainOf (first ++ insts) tbmiss (ir :: irs) pc (first.length + k) (n + 1) pre inst := by
  obtain ⟨⟨w, hw, hdecode⟩, hshifts, ⟨head, hhead⟩, hpc⟩ := h
  refine ⟨⟨w, hw, ?_⟩, hshifts, ⟨first ++ head, ?_⟩, ?_⟩
  · rw [← address_succ]
    exact hdecode
  · rw [Nat.add_assoc, List.take_length_add_append, hhead, List.append_assoc]
  · rw [List.take_length_add_append, advance_append, hfirst, hpc, address_succ]

theorem mainOf_decodeLoop (tbmiss : Bool) (irs : List Word) (pc : Word) (room : Nat) {k : Nat}
    {inst : XrCachedInst} (hk : (xrDecodeLoop tbmiss irs pc room).1[k]? = some inst)
    (hshift : inst.func.kind ≠ .shift) (hlink : inst.func.kind ≠ .linkage) :
    ∃ n pre, MainOf (xrDecodeLoop tbmiss irs pc room).1 tbmiss irs pc k n pre inst := by
  have hlinkage : ∀ j : Nat, [linkageInst][j]? ≠ some inst := by
    intro j hj
    rw [List.mem_singleton.mp (List.mem_of_getElem? hj)] at hlink
    exact hlink rfl
  induction irs generalizing pc room k with
  | nil => exact absurd hk (hlinkage k)
  | cons ir irs ih =>
      obtain ⟨pre, main, hok⟩ := xrDecode_ok tbmiss ir pc
      -- Either the first word makes this instruction, or the rest of the loop does.
      have hcases : ∀ rest, (xrDecodeLoop tbmiss (ir :: irs) pc room).1 =
            (xrDecode tbmiss ir pc).insts ++ rest →
          (∀ j, rest[j]? = some inst → ∃ n pre, MainOf rest tbmiss irs (pc + 4) j n pre inst) →
          ∃ n pre, MainOf (xrDecodeLoop tbmiss (ir :: irs) pc room).1 tbmiss (ir :: irs) pc k n pre
            inst := by
        intro rest hloop hrest
        rw [hloop] at hk ⊢
        rcases Nat.lt_or_ge k (xrDecode tbmiss ir pc).insts.length with hlt | hge
        · rw [List.getElem?_append_left hlt, hok.insts] at hk
          exact ⟨0, pre, hok.mainOf hk hshift irs rest⟩
        · rw [List.getElem?_append_right hge] at hk
          obtain ⟨n, pre', hmain⟩ := hrest _ hk
          have hcons := @MainOf.cons tbmiss ir _ _ _ _ _ _ _ _ hmain (hok.advance pc)
          rw [Nat.add_sub_cancel' hge] at hcons
          exact ⟨n + 1, pre', hcons⟩
      rcases loopCases tbmiss ir irs pc room with ⟨_, hl⟩ | ⟨_, _, hl⟩ | ⟨_, _, hl⟩
      · refine hcases [] ?_ ?_
        · rw [hl, List.append_nil]
        · rintro j ⟨⟩
      · refine hcases [linkageInst] ?_ ?_
        · rw [hl]
        · exact fun j hj => absurd hj (hlinkage j)
      · exact hcases _ (congrArg Prod.fst hl) fun j hj => ih (pc + 4) _ hj

/-- The loop starts with all that the first word is decoded to. -/
theorem prefix_decodeLoop (tbmiss : Bool) (ir : Word) (irs : List Word) (pc : Word) (room : Nat) :
    (xrDecode tbmiss ir pc).insts <+: (xrDecodeLoop tbmiss (ir :: irs) pc room).1 := by
  rcases loopCases tbmiss ir irs pc room with ⟨_, hl⟩ | ⟨_, _, hl⟩ | ⟨_, _, hl⟩
  · rw [hl]
  · rw [hl]
    exact List.prefix_append _ _
  · rw [hl]
    exact List.prefix_append _ _

/-! ## The instructions that access memory -/

/-- What a load, a store, LL or SC asks of memory; an SC that has lost its lock asks nothing. -/
def XrCachedInst.memReq (inst : XrCachedInst) (p : XrProcessor) : Option XrMemReq :=
  let regOffset := p.reg inst.imm8_2 + p.reg inst.imm32_1.toNat
  let storeImmOffset := p.reg inst.imm8_1 + inst.imm32_1
  let loadImmOffset := p.reg inst.imm8_2 + inst.imm32_1
  match inst.func with
  | .storeLongRegOffset => some ⟨regOffset, false, p.reg inst.imm8_1, 4, false⟩
  | .storeIntRegOffset => some ⟨regOffset, false, p.reg inst.imm8_1, 2, false⟩
  | .storeByteRegOffset => some ⟨regOffset, false, p.reg inst.imm8_1, 1, false⟩
  | .storeLongImmOffsetImm => some ⟨storeImmOffset, false, signExt5 inst.imm8_2, 4, false⟩
  | .storeIntImmOffsetImm => some ⟨storeImmOffset, false, signExt5 inst.imm8_2, 2, false⟩
  | .storeByteImmOffsetImm => some ⟨storeImmOffset, false, signExt5 inst.imm8_2, 1, false⟩
  | .storeLongImmOffsetReg => some ⟨storeImmOffset, false, p.reg inst.imm8_2, 4, false⟩
  | .storeIntImmOffsetReg => some ⟨storeImmOffset, false, p.reg inst.imm8_2, 2, false⟩
  | .storeByteImmOffsetReg => some ⟨storeImmOffset, false, p.reg inst.imm8_2, 1, false⟩
  | .loadLongRegOffset => some ⟨regOffset, true, 0, 4, false⟩
  | .loadIntRegOffset => some ⟨regOffset, true, 0, 2, false⟩
  | .loadByteRegOffset => some ⟨regOffset, true, 0, 1, false⟩
  | .loadLongImmOffset => some ⟨loadImmOffset, true, 0, 4, false⟩
  | .loadIntImmOffset => some ⟨loadImmOffset, true, 0, 2, false⟩
  | .loadByteImmOffset => some ⟨loadImmOffset, true, 0, 1, false⟩
  | .ll => some ⟨p.reg inst.imm8_2, true, 0, 4, true⟩
  | .sc => if p.locked then some ⟨p.reg inst.imm8_2, false, p.reg inst.imm32_1.toNat, 4, true⟩ else none
  | _ => none

theorem memReq_kind {inst : XrCachedInst} {p : XrProcessor} {r : XrMemReq}
    (h : inst.memReq p = some r) : inst.func.kind = .step := by
  unfold XrCachedInst.memReq at h
  extract_lets regOffset storeImmOffset loadImmOffset at h
  cases hf : inst.func <;> rw [hf] at h <;> first | rfl | cases h

theorem memReq_length {inst : XrCachedInst} {p : XrProcessor} {r : XrMemReq}
    (h : inst.memReq p = some r) : r.length = 1 ∨ r.length = 2 ∨ r.length = 4 := by
  unfold XrCachedInst.memReq at h
  extract_lets regOffset storeImmOffset loadImmOffset at h
  split at h
  case h_17 =>
    split at h
    · cases h
      exact .inr (.inr rfl)
    · cases h
  all_goals
    cases h <;> simp

section

variable {M : Type} [XrBuild M] {m m' : Machine M} {inst : XrCachedInst} {i : Nat} {r : XrMemReq}

theorem storeAt_faulted {address value : Word} {length : Nat} {v : Option Word}
    (h : XrBuild.access m i ⟨address, false, value, length, false⟩ = some ((.fault, v), m')) :
    storeAt m i address value length = some (m', .early) := by
  unfold storeAt
  rw [h]
  rfl

theorem loadAt_faulted {address : Word} {rd length : Nat} {v : Option Word}
    (h : XrBuild.access m i ⟨address, true, 0, length, false⟩ = some ((.fault, v), m')) :
    loadAt m i address rd length = some (m', .early) := by
  unfold loadAt
  rw [h]
  rfl

/-- An instruction whose access raises an exception leaves early with what the exception
made of the processor. -/
theorem exec_faulted {v : Option Word} (hreq : inst.memReq m.proc = some r)
    (haccess : XrBuild.access m i r = some ((.fault, v), m')) :
    inst.exec m i = some (m', .early) := by
  unfold XrCachedInst.memReq at hreq
  unfold XrCachedInst.exec
  extract_lets regOffset storeImmOffset loadImmOffset at hreq
  cases hf : inst.func <;> simp only [hf] at hreq
  case sc =>
    by_cases hlocked : m.proc.locked = true
    · rw [if_pos hlocked] at hreq
      cases hreq
      have hheld : ¬m.proc.locked = false := by simp [hlocked]
      have haccess' : XrBuild.access m i
          ⟨m.reg inst.imm8_2, false, m.reg inst.imm32_1.toNat, 4, true⟩ =
            some ((.fault, v), m') := haccess
      simp [XrFunc.exec, xrExecuteStoreConditional, hheld, haccess']
    · rw [if_neg hlocked] at hreq
      cases hreq
  case ll =>
    cases hreq
    have haccess' : XrBuild.access m i ⟨m.reg inst.imm8_2, true, 0, 4, true⟩ =
        some ((.fault, v), m') := haccess
    unfold XrFunc.exec xrExecuteLoadLinked
    simp only
    rw [haccess']
    rfl
  all_goals
    cases hreq <;> first | exact storeAt_faulted haccess | exact loadAt_faulted haccess

end

/-! ## What the exception leaves -/

section

variable {M : Type} [ResetMem M] {m m₁ m' : Machine M}

/-- An exception taken between two instructions, at the program counter of `m`: the
registers of the program are as they were, the address is in EPC, or in TBPC after a TB
miss, and RFE goes back to it in the mode of `m`, whatever else the handler has done. -/
structure PreciseFault (m m' : Machine M) : Prop where
  reg : ∀ r, r < 32 → m'.proc.reg r = m.proc.reg r
  reported : ∃ exc : Word, m'.proc.pc = m.proc.cr crEb ||| (exc <<< 8) ∧
    (exc ∈ accessExcCodes ∧ m'.proc.cr crEpc = m.proc.pc ∨
      exc = excDtb ∧ m'.proc.cr crTbpc = m.proc.pc)
  returns : ∀ m₁, KeepsCr [crRs, crEpc, crTbpc] m' m₁ → Resumed m m.proc.pc (xrRfe m₁)

theorem Kept.visible {p p' : XrProcessor} (h : Kept p p') (r : Nat) (hr : r < 32) :
    p'.reg r = p.reg r :=
  h.reg r (Nat.ne_of_lt hr)

theorem precise_basic (heb : m.proc.cr crEb ≠ 0) (htb : m.proc.rs &&& rsTbmiss = 0) (v exc : Word)
    (code : exc ∈ accessExcCodes) :
    PreciseFault m (xrBasicException (m.setCr crEbadaddr v) exc m.proc.pc) := by
  have hset : ∀ i, i ≠ crEbadaddr → (m.setCr crEbadaddr v).proc.cr i = m.proc.cr i := by
    intro i hi
    rw [Machine.setCr_proc, XrProcessor.setCr_cr, Function.update_of_ne hi]
  have hrs : (m.setCr crEbadaddr v).proc.rs = m.proc.rs := hset crRs (by decide)
  have heb' : (m.setCr crEbadaddr v).proc.cr crEb = m.proc.cr crEb := hset crEb (by decide)
  have hv := xrBasicException_vectored (m := m.setCr crEbadaddr v) exc m.proc.pc (heb' ▸ heb)
  refine ⟨?_, ⟨exc, ?_, .inl ⟨code, ?_⟩⟩, ?_⟩
  · exact ((kept_setCr m.proc crEbadaddr v).trans (kept_basic (m.setCr crEbadaddr v) exc m.proc.pc)).visible
  · rw [hv.pc, ← heb']
    rfl
  · rw [hv.cr crEpc (by decide)]
    exact Function.update_self crEpc m.proc.pc (m.setCr crEbadaddr v).proc.cr
  · intro m₁ hkeep
    have hback := basicRoundTrip (m := m.setCr crEbadaddr v) (heb' ▸ heb) (hrs.symm ▸ htb) exc
      m.proc.pc m₁ fun i hi => hkeep i (List.mem_append_left [crTbpc] hi)
    unfold Resumed at hback ⊢
    rw [hrs] at hback
    exact hback

theorem precise_miss (heb : m.proc.cr crEb ≠ 0) (htb : m.proc.rs &&& rsTbmiss = 0) (virtual : Word)
    (writing : Bool) :
    PreciseFault m (tbMiss crDtbtag crDtbaddr excDtb virtual writing m) := by
  obtain ⟨k, hk⟩ : ∃ k : XrAccessKind, tbMiss crDtbtag crDtbaddr excDtb virtual writing m =
      tbMiss k.tag k.addr k.missExc virtual k.writing m ∧ k.missExc = excDtb := by
    cases writing with
    | true => exact ⟨.write, rfl, rfl⟩
    | false => exact ⟨.read, rfl, rfl⟩
  have hmissed : Missed m k virtual (tbMiss k.tag k.addr k.missExc virtual k.writing m) :=
    tbMiss_missed heb
  have hkept := kept_tbMiss crDtbtag crDtbaddr excDtb virtual writing m
  rw [hk.1] at hkept ⊢
  have htbpc := hmissed.tbpc
  have hrs := hmissed.rs
  rw [if_pos htb] at htbpc hrs
  refine ⟨hkept.visible, ⟨excDtb, ?_, .inr ⟨rfl, htbpc⟩⟩, ?_⟩
  · rw [← hk.2]
    exact tbMiss_pc heb htb
  · intro m₁ hkeep
    have hrs₁ : m₁.proc.rs = xrMissedRs m.proc.rs := (hkeep crRs (by decide)).trans hrs
    have hret := xrRfe_returned (m := m₁) (by rw [hrs₁, missedRs_user])
    constructor
    · rw [hret.rs, hrs₁]
      exact popped_missedRs m.proc.rs
    · rw [hret.pc, hrs₁, if_pos (missedRs_tbmiss m.proc.rs), hkeep crTbpc (by decide)]
      exact htbpc

theorem AccessRaises.precise (h : AccessRaises m m') (heb : m.proc.cr crEb ≠ 0)
    (htb : m.proc.rs &&& rsTbmiss = 0) : PreciseFault m m' := by
  cases h with
  | address v exc code => exact precise_basic heb htb v exc code
  | page virtual writing =>
      rw [xrPageFault_basic htb]
      refine precise_basic heb htb virtual (excPage writing) ?_
      cases writing <;> decide
  | miss virtual writing => exact precise_miss heb htb virtual writing

theorem AccessFaulted.precise (h : AccessFaulted m m') (heb : m.proc.cr crEb ≠ 0)
    (htb : m.proc.rs &&& rsTbmiss = 0) : PreciseFault m m' := by
  obtain ⟨m₁, htouched, hraises⟩ := h
  obtain ⟨hreg, hreported, hreturns⟩ :=
    hraises.precise (by rw [htouched.cr]; exact heb) (by rw [htouched.rs]; exact htb)
  unfold Resumed at hreturns
  rw [htouched.reg] at hreg
  rw [htouched.cr, htouched.pc] at hreported
  rw [htouched.rs, htouched.pc] at hreturns
  exact ⟨hreg, hreported, hreturns⟩

end

/-! ## The block at an address -/

section

variable (M : Type) [XrBuild M]

/-- A fetch from here, if it succeeds, comes to words. -/
def FetchesWords (pc : Word) : Prop :=
  ∀ (m m' : Machine M) (f : XrFetched), m.proc.pc = pc → XrBuild.fetch m = some (some f, m') →
    f.words ≠ []

/-- Each word of a fetch can be fetched from. -/
def RefetchesWords : Prop :=
  ∀ (m m' : Machine M) (f : XrFetched) (n : Nat), XrBuild.fetch m = some (some f, m') →
    n < f.words.length → FetchesWords M (m.proc.pc + BitVec.ofNat 32 (4 * n))

/-- A block has a word if its address can be fetched from, as that of each of its words can. -/
structure XrIblock.Filled (b : XrIblock) : Prop where
  first : FetchesWords M b.pc → b.words ≠ []
  words : ∀ n, n < b.words.length → FetchesWords M (b.pc + BitVec.ofNat 32 (4 * n))

/-- An instruction that starts at this address is executed as a whole: whenever the
processor is to go on there and gets to a block, it is at the start of one, and the block
starts with all that its first word is decoded to. -/
def ExecutesWhole (pc : Word) : Prop :=
  ∀ (P : XrInterp M → Prop) (s s' : XrInterp M) (input : XrInput M) (j l : Nat),
    XrInterp.Reach P s → s.point = .retry → s.machine.proc.pc = pc →
    ¬(input.pending ∧ s.machine.proc.rs &&& rsInt ≠ 0) → s.next input = some s' →
    s'.point = .inst j l →
    l = 0 ∧ (s'.cache.iblocks j).pc = pc ∧
      ∃ w rest, (s'.cache.iblocks j).words = w :: rest ∧
        (xrDecode (s'.cache.iblocks j).tbmiss w pc).insts <+: (s'.cache.iblocks j).code.insts

variable {M}

theorem holdsOfBlocks_filled (h : RefetchesWords M) : HoldsOfBlocks M (XrIblock.Filled M) where
  same := by
    rintro b b' hsame ⟨hfirst, hwords⟩
    rw [← hsame.pc, ← hsame.words] at hfirst hwords
    exact ⟨hfirst, hwords⟩
  fetched := by
    intro m m' f v hfetch
    refine ⟨fun hcan => hcan m m' f rfl hfetch, ?_⟩
    intro n hn
    exact h m m' f n hfetch hn

/-- With no interrupt to take, the block found or made is at the program counter. -/
theorem retry_enters {pending : Bool} {m : Machine M} {c : XrIblockCache} {s : XrInterp M}
    {j l : Nat} (hreach : c.Reach) (hquiet : ¬(pending ∧ m.proc.rs &&& rsInt ≠ 0))
    (hrun : xrRetry pending m c = some s) (hpoint : s.point = .inst j l) :
    l = 0 ∧ s.cache.Active j ∧ (s.cache.iblocks j).pc = m.proc.pc := by
  have hproc : (takeInterrupt pending m.countNmiMask).proc.pc = m.proc.pc := by
    have hrs : m.countNmiMask.proc.rs = m.proc.rs := by
      unfold Machine.countNmiMask
      split <;> rfl
    unfold takeInterrupt
    rw [hrs, if_neg hquiet]
    unfold Machine.countNmiMask
    split <;> rfl
  cases retries hrun with
  | stopped stops => cases hpoint
  | faulted goes decode => cases hpoint
  | enters goes decode =>
      cases hpoint
      have hfound := decode_found hreach decode
      exact ⟨rfl, hfound.active, hfound.pc.trans hproc⟩

theorem executesWhole_of_fetches (h : RefetchesWords M) {pc : Word} (hpc : FetchesWords M pc) :
    ExecutesWhole M pc := by
  intro P s s' input j l hreach hretry hat hquiet hstep hpoint
  have hmeets : (s.meets input).machine.proc.pc = s.machine.proc.pc ∧
      (s.meets input).machine.proc.rs = s.machine.proc.rs := by
    have houtside : Outside s.machine (s.meets input).machine := input.outside_ok s.machine
    unfold Outside at houtside
    rw [houtside]
    exact ⟨rfl, rfl⟩
  have hrun : xrRetry input.pending (s.meets input).machine s.cache = some s' := by
    unfold XrInterp.next XrInterp.step at hstep
    have hpoint' : (s.meets input).point = .retry := hretry
    rw [hpoint'] at hstep
    exact hstep
  rw [← hmeets.2] at hquiet
  obtain ⟨hl, hactive, hblock⟩ := retry_enters hreach.placed.reach hquiet hrun hpoint
  rw [hmeets.1, hat] at hblock
  refine ⟨hl, hblock, ?_⟩
  -- The block is filled, as every block in use.
  have hfilled : (s'.cache.iblocks j).Filled M :=
    (holdsOfBlocks_filled h).retry hreach.placed.reach hrun
      (hreach.blocks (holdsOfBlocks_filled h)) j hactive
  obtain ⟨w, rest, hwords⟩ := List.exists_cons_of_ne_nil (hfilled.first (hblock.symm ▸ hpc))
  refine ⟨w, rest, hwords, ?_⟩
  have hprefix := prefix_decodeLoop (s'.cache.iblocks j).tbmiss w rest pc xrIblockInsts
  rw [← hwords, ← hblock] at hprefix
  rw [← hblock]
  exact hprefix

end

/-! ## The fast build -/

section

variable {β : Type} [EBusHost β]

theorem fetchHost_words {m m' : Machine (XrFastMem β)} {pc fetchpc : Word} {flags : BitVec 64}
    {f : XrFetched} (h : fetchHost m pc fetchpc flags = (some f, m')) :
    f.words.length = xrInstCount pc pc := by
  unfold fetchHost at h
  split at h
  · cases h
  · cases h
    simp [hostWords]

theorem fastFetch_words {m m' : Machine (XrFastMem β)} {f : XrFetched}
    (h : fastFetch m = (some f, m')) :
    f.words.length = xrInstCount m.proc.pc m.proc.pc := by
  unfold fastFetch at h
  split at h
  · cases ht : xrTranslateIstream m m.proc.pc with
    | mk place m₁ =>
        rw [ht] at h
        rcases xrTranslateIstream_cases ht with ⟨rfl, _⟩ | ⟨phys, flags, rfl, htouched, _⟩
        · cases h
        · rw [← htouched.pc]
          exact fetchHost_words h
  · exact fetchHost_words h

/-- The words of a fetch end with the page, so there is one left at the address of each. -/
theorem fast_refetchesWords : RefetchesWords (XrFastMem β) := by
  intro m m' f n hfetch hn m₁ m₁' f₁ hpc hfetch₁ hnil
  have hlen := fastFetch_words (Option.some.inj hfetch)
  have hlen₁ := fastFetch_words (Option.some.inj hfetch₁)
  rw [hnil, hpc, xrInstCount_eq rfl] at hlen₁
  rw [hlen, xrInstCount_eq rfl] at hn
  rw [BitVec.toNat_add, BitVec.toNat_ofNat, List.length_nil] at hlen₁
  omega

/-! An access that fails leaves the bus to its devices. -/

variable {D : Type} [EBusDevices D]

/-- The memories and registers of the station are the same; its devices may not be. -/
def OnlyDevices (s s' : XrStation D) : Prop := s' = { s with devices := s'.devices }

theorem pBoardRead_onlyDevices (s : XrStation D) (p : XrProcessor) (address : Nat)
    (dest : Nat → Byte) (length : Nat) :
    OnlyDevices s (pBoardRead s p address dest length).bus := by
  unfold pBoardRead
  repeat' split
  all_goals rfl

theorem eBusRead_onlyDevices (s : XrStation D) (p : XrProcessor) (address : Nat)
    (dest : Nat → Byte) (length : Nat) :
    OnlyDevices s (eBusRead s p address dest length).bus := by
  unfold eBusRead
  extract_lets branch offset
  split
  · rfl
  split
  · rfl
  split
  · exact pBoardRead_onlyDevices s p offset dest length
  · rfl

theorem pBoardWrite_cases (s : XrStation D) (p : XrProcessor) (address : Nat) (src : Nat → Byte)
    (length : Nat) :
    (pBoardWrite s p address src length).reply = true ∨
      OnlyDevices s (pBoardWrite s p address src length).bus := by
  unfold pBoardWrite
  split
  · split
    · exact .inr rfl
    · exact .inr rfl
  split
  · exact .inl rfl
  split
  · by_cases hend : address - 0x1000 + length > nvramSize
    · simp only [if_pos hend, true_or]
    · simp only [if_neg hend, true_or]
  split
  · split
    · split
      · exact .inl rfl
      · exact .inl rfl
    · exact .inr rfl
  split
  · split
    · rcases s.lsicReply_write p ((address - 0x30000) / 4) (wordOf src) with h | ⟨lsic, h⟩
      · rw [h]
        exact .inr rfl
      · rw [h]
        exact .inl rfl
    · exact .inr rfl
  split
  · split
    · exact .inl rfl
    · exact .inr rfl
  · exact .inr rfl

/-- A write that is refused changes no memory. -/
theorem eBusWrite_cases (s : XrStation D) (p : XrProcessor) (address : Nat) (src : Nat → Byte)
    (length : Nat) :
    (eBusWrite s p address src length).reply = true ∨
      OnlyDevices s (eBusWrite s p address src length).bus := by
  unfold eBusWrite
  extract_lets branch offset
  split
  · split
    · exact .inl rfl
    · exact .inr rfl
  split
  · split
    · exact .inl rfl
    · exact .inr rfl
  split
  · exact pBoardWrite_cases s p offset src length
  · exact .inr rfl

/-- The memory of the fast build, as a program on any processor sees it. -/
def SameStores (m m' : Machine (XrFastMem (XrStation D))) : Prop :=
  OnlyDevices m.mem.bus m'.mem.bus

section

variable {m m' : Machine (XrFastMem (XrStation D))}

omit [EBusDevices D] in
theorem directBusError_bus (address : Word) (heb : m.proc.cr crEb ≠ 0) :
    (directBusError m address).mem = m.mem :=
  (AccessRaises.address (m := m) address excBus (by decide)).raises.mem heb

theorem directRead_fault {address : Word} {r : XrMemReq} {v : Option Word}
    (heb : m.proc.cr crEb ≠ 0) (h : directRead m address r = ((.fault, v), m')) :
    SameStores m m' := by
  unfold directRead at h
  extract_lets reply at h
  split at h
  · cases h
  · cases h
    unfold SameStores
    rw [directBusError_bus (m := busReply m reply) address heb]
    exact eBusRead_onlyDevices m.mem.bus m.proc address.toNat (fun _ => 0) r.length

theorem directWrite_fault {address : Word} {r : XrMemReq} {v : Option Word}
    (heb : m.proc.cr crEb ≠ 0) (h : directWrite m address r = ((.fault, v), m')) :
    SameStores m m' := by
  unfold directWrite at h
  extract_lets reply at h
  by_cases hdone : reply.reply = true
  · rw [if_pos hdone] at h
    cases h
  · rw [if_neg hdone] at h
    cases h
    unfold SameStores
    rw [directBusError_bus (m := busReply m reply) address heb]
    exact (eBusWrite_cases m.mem.bus m.proc address.toNat (byteOf r.srcvalue) r.length).resolve_left
      hdone

theorem accessTarget_fault {e : XrIblockDtbEntry} {r : XrMemReq} {v : Option Word}
    (heb : m.proc.cr crEb ≠ 0) (h : accessTarget m e r = ((.fault, v), m')) : SameStores m m' := by
  unfold accessTarget at h
  split at h
  · unfold readTarget at h
    split at h
    · exact directRead_fault heb h
    · extract_lets host loaded at h
      split at h <;> cases h
  · unfold writeTarget at h
    split at h
    · exact directWrite_fault heb h
    · extract_lets host stored at h
      split at h
      · cases hclaimed : stored.1 <;> rw [hclaimed] at h <;> cases h
      · cases h

/-- Translating an address remembers the page, and goes nowhere near the bus. -/
theorem xrTranslateDstream_bus {virtual : Word} {writing : Bool} {e : XrIblockDtbEntry}
    (h : xrTranslateDstream m virtual writing = (some e, m')) : m'.mem.bus = m.mem.bus := by
  cases translatesDstream h with
  | remembered hint ok => rfl
  | found other scan ok => rfl

theorem dataTarget_bus {block : Nat} {virtual : Word} {writing : Bool} {e : XrIblockDtbEntry}
    (h : dataTarget m block virtual writing = (some e, m')) : m'.mem.bus = m.mem.bus := by
  cases findsTarget h with
  | slot valid => rfl
  | translated translate =>
      rw [← xrTranslateDstream_bus translate]
      unfold XrFastMem.setSlot
      split <;> rfl

theorem fast_sameStores {block : Nat} {r : XrMemReq} {v : Option Word}
    (heb : m.proc.cr crEb ≠ 0) (h : xrDataAccess m block r = ((.fault, v), m')) :
    SameStores m m' := by
  rw [xrDataAccess_eq] at h
  split at h
  · cases h
    unfold SameStores
    have hraises := (AccessRaises.address (m := m) r.address excUna (by decide)).raises
    rw [show (unaligned m r.address).mem = m.mem from hraises.mem heb]
    rfl
  split at h
  · rcases ht : dataTarget m block r.address (!r.read) with ⟨_ | e, m₁⟩
    · rw [ht] at h
      cases h
      rcases dataTarget_cases ht with ⟨_, hraises⟩ | ⟨e, hsome, _⟩
      · unfold SameStores
        rw [hraises.raises.mem heb]
        rfl
      · cases hsome
    · rw [ht] at h
      rcases dataTarget_cases ht with ⟨hnone, _⟩ | ⟨_, _, htouched⟩
      · cases hnone
      · have hsame := accessTarget_fault (by rw [htouched.cr]; exact heb) h
        unfold SameStores at hsame ⊢
        rw [dataTarget_bus ht] at hsame
        exact hsame
  split at h
  · exact directRead_fault heb h
  · exact directWrite_fault heb h

end

end

/-! ## The cached build -/

section

/-- A fetch is of whole lines from that of the program counter on. -/
theorem fetchIcache_nonempty {m m' : Machine (XrCachedMem LineRam)} {pc fetchpc : Word}
    {flags : BitVec 64} {f : XrFetched} (h : fetchIcache m pc fetchpc flags = (some f, m')) :
    f.words ≠ [] := by
  unfold fetchIcache at h
  extract_lets line instcount at h
  have hcount : instcount = min 32 ((4096 - pc.toNat % 4096 / 16 * 16) / 4) := xrInstCount_line pc
  have hlines := @fetchLines_eq ((instcount + 3) / 4) (by omega) fetchpc m
  rcases hrun : fetchLines ((instcount + 3) / 4) fetchpc m with ⟨_ | ir, m₁⟩
  · rw [hrun] at h
    cases h
  · rw [hrun] at h hlines
    cases h
    have hlength := fetchedLines_length hlines.symm
    have hskip : ((pc - line) >>> 2).toNat ≤ 3 := by
      have hline : line.toNat = pc.toNat / 16 * 16 := line_toNat pc
      have hpc := pc.isLt
      rw [BitVec.toNat_ushiftRight, BitVec.toNat_sub, Nat.shiftRight_eq_div_pow]
      omega
    apply List.ne_nil_of_length_pos
    rw [List.length_drop, List.length_take]
    omega

theorem cachedFetch_nonempty {m m' : Machine (XrCachedMem LineRam)} {f : XrFetched}
    (h : cachedFetch m = (some f, m')) : f.words ≠ [] := by
  unfold cachedFetch at h
  extract_lets line at h
  split at h
  · rcases ht : xrTranslate m line false true with ⟨_ | ⟨phys, flags⟩, m₁⟩
    · rw [ht] at h
      cases h
    · rw [ht] at h
      exact fetchIcache_nonempty h
  · exact fetchIcache_nonempty h

theorem cached_refetchesWords : RefetchesWords (XrCachedMem LineRam) := by
  intro _ _ _ _ _ _ m m' f _ hfetch
  exact cachedFetch_nonempty (Option.some.inj hfetch)

/-! An access that fails leaves the flat memory that all caches and RAM agree on. -/

/-- The memory of the cached build, as a program on any processor sees it. -/
def SameFlat (m m' : Machine (XrCachedMem LineRam)) : Prop :=
  ∀ present populated flat, CacheInv present populated m.alone → present m.proc.id = true →
    m.proc.id < xrProcMax → Agrees populated flat m.alone →
    CacheInv present populated m'.alone ∧ Agrees populated flat m'.alone

section

open Concurrency XrCachedSys

variable {present populated : Nat → Bool} {flat : Nat → Byte} {s s' : XrCachedSys LineRam}
  {p : Nat} {r : XrMemReq} {m : Machine (XrCachedMem LineRam)}

/-- Without an address, nothing has happened but the exception. -/
theorem accessAddress_refused (h : CacheInv present populated s) (ha : Agrees populated flat s)
    (heb : (s.procs p).cr crEb ≠ 0) (hm : accessAddress (s.machine p) r = (none, m)) :
    CacheInv present populated (s.setMachine p m) ∧ Agrees populated flat (s.setMachine p m) := by
  refine ⟨(accessAddress_none h hm).1, ?_⟩
  rcases accessAddress_ends hm with ⟨_, hraises⟩ | ⟨_, hplace, _⟩
  · exact ha.of_mem (hraises.raises.mem heb)
  · cases hplace

/-- With one, only the last lookup is remembered. -/
theorem accessAddress_agrees (h : CacheInv present populated s) (ha : Agrees populated flat s)
    {place : Word × BitVec 64} (hm : accessAddress (s.machine p) r = (some place, m)) :
    Agrees populated flat (s.setMachine p m) := by
  unfold accessAddress at hm
  split at hm
  · cases (Prod.mk.inj hm).1
  split at hm
  · rcases xrTranslate_cases hm with ⟨hout, _⟩ | ⟨tbe, _, rfl⟩
    · cases hout
    · let g : XrCache → XrCache := fun c => { c with dtbLastResult := tbe.setWidth 32 }
      have hid : (s.machine p).proc.id = p := h.plant.ids p
      have hmem : (s.setMachine p (rememberLookup (s.machine p) r.address tbe false)).mem =
          (onCache p g s).mem := by
        simp only [setMachine, rememberLookup, Bool.false_eq_true, if_false, hid]
        rfl
      have hlines : (onCache p g s).lines = s.lines := lines_onCache_same ⟨rfl, rfl, rfl, rfl⟩
      have hg : Agrees populated flat (onCache p g s) := ha.onCache_same h hlines rfl
      exact hg.of_mem hmem
  · obtain ⟨_, rfl⟩ := Prod.mk.inj hm
    rw [setMachine_self]
    exact ha

theorem busError_same (h : CacheInv present populated s) (ha : Agrees populated flat s)
    (heb : (s.procs p).cr crEb ≠ 0) (address : Nat) :
    CacheInv present populated (busError p address s) ∧
      Agrees populated flat (busError p address s) :=
  ⟨⟨h.plant.busError p address, h.lines.falls (falls_busError h.plant h.lines p address)⟩,
    agrees_busError h.plant ha address (.inl heb)⟩

/-- What the bus had no answer to has not changed it. -/
theorem busDone_same {α : Type} {reply : EBusReply LineRam α} (h : CacheInv present populated s)
    (ha : Agrees populated flat s) (hbus : reply.bus = s.mem.bus) :
    CacheInv present populated (busDone p reply s) ∧
      Agrees populated flat (busDone p reply s) := by
  have hmem : (busDone p reply s).mem = s.mem := by
    unfold busDone
    rw [hbus]
  refine ⟨h.of_mem (fun q => ?_) hmem, ha.of_mem hmem⟩
  show (Function.update s.procs p { s.procs p with progress := reply.progress } q).id = q
  by_cases hq : q = p
  · subst hq
    rw [Function.update_self]
    exact h.plant.ids q
  · rw [Function.update_of_ne hq]
    exact h.plant.ids q

theorem noncached_same {a : XrAccessReq} {v : Option Word} (h : CacheInv present populated s)
    (ha : Agrees populated flat s) (heb : (s.procs p).cr crEb ≠ 0)
    (he : xrNoncachedAccess p a s = ((.fault, v), s')) :
    CacheInv present populated s' ∧ Agrees populated flat s' := by
  have hback : ∀ {α : Type} (reply : EBusReply LineRam α), reply.bus = s.mem.bus →
      CacheInv present populated (busError p a.address (busDone p reply s)) ∧
        Agrees populated flat (busError p a.address (busDone p reply s)) := by
    intro α reply hbus
    have hdone := busDone_same (p := p) h ha hbus
    refine busError_same hdone.1 hdone.2 ?_ a.address
    have hquiet : Touched (s.procs p) ((busDone p reply s).procs p) := quiet_busDone p reply s
    rw [hquiet.cr]
    exact heb
  unfold xrNoncachedAccess at he
  split at he
  · extract_lets reply at he
    split at he
    · cases (Prod.mk.inj he).1
    · obtain ⟨_, rfl⟩ := Prod.mk.inj he
      exact hback reply rfl
  · extract_lets reply at he
    by_cases hreply : reply.reply = true
    · rw [if_pos hreply] at he
      cases (Prod.mk.inj he).1
    · rw [if_neg hreply] at he
      obtain ⟨_, rfl⟩ := Prod.mk.inj he
      refine hback reply ?_
      have hwrite : EBus.write s.mem.bus (s.procs p) a.address (byteOf a.srcvalue) a.length = reply :=
        rfl
      simp only [EBus.write] at hwrite
      split at hwrite
      · rw [← hwrite] at hreply
        exact absurd rfl hreply
      · rw [← hwrite]

theorem xrAccess_same {v : Option Word} (h : CacheInv present populated s)
    (ha : Agrees populated flat s) (hp : present p = true ∧ p < xrProcMax)
    (hlen : r.length = 1 ∨ r.length = 2 ∨ r.length = 4) (heb : (s.procs p).cr crEb ≠ 0)
    (he : xrAccess p r s = some ((.fault, v), s')) :
    CacheInv present populated s' ∧ Agrees populated flat s' := by
  unfold xrAccess at he
  rcases hm : accessAddress (s.machine p) r with ⟨_ | ⟨address, flags⟩, m⟩
  · rw [hm] at he
    obtain ⟨_, rfl⟩ := Prod.mk.inj (Option.some.inj he)
    exact accessAddress_refused h ha heb hm
  · rw [hm] at he
    obtain ⟨hinv, _, hal⟩ := accessAddress_some h hlen hm
    have hag := accessAddress_agrees h ha hm
    have heb₁ : ((s.setMachine p m).procs p).cr crEb ≠ 0 := by
      rcases accessAddress_ends hm with ⟨hnone, _⟩ | ⟨_, _, htouched⟩
      · cases hnone
      · have hproc : (s.setMachine p m).procs p = m.proc := by simp [setMachine]
        rw [hproc, htouched.cr]
        exact heb
    simp only at he
    split at he
    · split at he
      · obtain ⟨_, rfl⟩ := Prod.mk.inj (Option.some.inj he)
        exact busError_same hinv hag heb₁ address.toNat
      · exact noncached_same hinv hag heb₁ (Option.some.inj he)
    · -- A miss may have written out and taken other lines before the bus refused.
      obtain ⟨out, s'', hexec, hserved⟩ := exec_access_served hinv hal hp
      rw [he] at hexec
      obtain ⟨rfl, rfl⟩ := Prod.mk.inj (Option.some.inj hexec)
      have hflat := hserved.agrees (.inr (.inr (.inl heb₁))) hag
      rw [XrMemOp.flatAfter_same (.inl fun hdone => by cases hdone)] at hflat
      exact ⟨hserved.inv, hflat⟩

theorem cached_sameFlat {m' : Machine (XrCachedMem LineRam)} {v : Option Word}
    (hlen : r.length = 1 ∨ r.length = 2 ∨ r.length = 4) (heb : m.proc.cr crEb ≠ 0)
    (h : cachedAccess m r = some ((.fault, v), m')) : SameFlat m m' := by
  intro present populated flat hinv hpresent hmax hag
  unfold cachedAccess at h
  have hproc : m.alone.procs m.proc.id = m.proc := congrArg Machine.proc (alone_machine m)
  rcases he : xrAccess m.proc.id { r with sc := r.sc && !r.read } m.alone with _ | ⟨res, s⟩
  · rw [he] at h
    cases h
  · rw [he] at h
    simp only at h
    split at h
    · cases h
    · obtain ⟨rfl, rfl⟩ := Prod.mk.inj (Option.some.inj h)
      obtain ⟨hinv', hag'⟩ :=
        xrAccess_same (r := { r with sc := r.sc && !r.read }) hinv hag ⟨hpresent, hmax⟩ hlen
          (by rw [hproc]; exact heb) he
      have hid : (s.machine m.proc.id).proc.id = m.proc.id := hinv'.plant.ids m.proc.id
      have hmem : (s.machine m.proc.id).alone.mem = s.mem := rfl
      refine ⟨hinv'.of_mem (fun q => ?_) hmem, hag'.of_mem hmem⟩
      show (Function.update XrProcessor.zeroed (s.machine m.proc.id).proc.id
        (s.machine m.proc.id).proc q).id = q
      rw [hid]
      by_cases hq : q = m.proc.id
      · subst hq
        rw [Function.update_self]
        exact hid
      · rw [Function.update_of_ne hq]
        rfl

end

end

/-! ## Both builds -/

section

variable (M : Type) [XrBuild M]

/-- Whatever the program can see is as it was before these instructions. -/
def Invisible (insts : List XrCachedInst) : Prop :=
  ∀ inst ∈ insts, ∀ (m : Machine M) (block : Nat), ∃ m', inst.exec m block = some (m', .next) ∧
    m'.mem = m.mem ∧ m'.proc.pc = m.proc.pc ∧ m'.proc.cr = m.proc.cr ∧
    ∀ r, r < 32 → m'.proc.reg r = m.proc.reg r

/-- At any point of any run that is about to call a load, a store, LL or SC, its access
raising an exception: the instruction leaves for its handler, with nothing done that
would show. -/
def MemoryFaultsPrecise (same : Machine M → Machine M → Prop) : Prop :=
  ∀ (P : XrInterp M → Prop) (s : XrInterp M) (input : XrInput M) (i k : Nat)
    (inst : XrCachedInst) (r : XrMemReq) (v : Option Word) (m' : Machine M),
    XrInterp.Reach P s → s.point = .inst i k →
    (s.cache.iblocks i).code.insts[k]? = some inst →
    (s.meets input).machine.proc.cr crEb ≠ 0 →
    (s.meets input).machine.proc.rs &&& rsTbmiss = 0 →
    inst.memReq (s.meets input).machine.proc = some r →
    XrBuild.access (s.meets input).machine i r = some ((.fault, v), m') →
    s.next input = some ⟨m'.charge k, s.cache, .check⟩ ∧
    PreciseFault (s.meets input).machine m' ∧ same (s.meets input).machine m' ∧
    (∃ n pre, (s.cache.iblocks i).MainAt k n pre inst ∧ Invisible M pre ∧
      (s.meets input).machine.proc.pc = (s.cache.iblocks i).pc + BitVec.ofNat 32 (4 * n)) ∧
    ExecutesWhole M (s.meets input).machine.proc.pc

variable {M}

theorem invisible_shifts {insts : List XrCachedInst} (h : ∀ i ∈ insts, i.func.kind = .shift) :
    Invisible M insts := by
  intro inst hinst m block
  have hsink : ∀ w : Word, ∀ r, r < 32 → (m.setReg fakeShiftSink w).proc.reg r = m.proc.reg r := by
    intro w r hr
    exact writesOnly_setReg m.proc fakeShiftSink w r (Nat.ne_of_lt (Nat.lt_succ_of_lt hr))
  have hkind := h inst hinst
  unfold XrCachedInst.exec
  cases hf : inst.func <;> rw [hf] at hkind <;> cases hkind
  all_goals exact ⟨_, rfl, rfl, rfl, rfl, hsink _⟩

/-- What a build has to show of its accesses and its fetch. -/
theorem precise_of_build {same : Machine M → Machine M → Prop} (hwords : RefetchesWords M)
    (hfault : ∀ {m m' : Machine M} {block : Nat} {r : XrMemReq} {v : Option Word},
      r.length = 1 ∨ r.length = 2 ∨ r.length = 4 → m.proc.cr crEb ≠ 0 →
      XrBuild.access m block r = some ((.fault, v), m') → AccessFaulted m m' ∧ same m m') :
    MemoryFaultsPrecise M same := by
  intro P s input i k inst r v m' hreach hpoint hinst heb htb hreq haccess
  obtain ⟨hfaulted, hsame⟩ := hfault (memReq_length hreq) heb haccess
  have hkind := memReq_kind hreq
  obtain ⟨n, pre, hmain⟩ := mainOf_decodeLoop (s.cache.iblocks i).tbmiss (s.cache.iblocks i).words
    (s.cache.iblocks i).pc xrIblockInsts hinst (by rw [hkind]; decide) (by rw [hkind]; decide)
  have hstands := (hreach.placed.meets input).stands i k hpoint
  have haddress : (s.meets input).machine.proc.pc =
      (s.cache.iblocks i).pc + BitVec.ofNat 32 (4 * n) := hstands.pc.trans hmain.pc
  refine ⟨?_, hfaulted.precise heb htb, hsame, ⟨n, pre, hmain, invisible_shifts hmain.shifts,
    haddress⟩, ?_⟩
  · have hpoint' : (s.meets input).point = .inst i k := hpoint
    have hstep : s.next input = xrInst (s.meets input).machine s.cache i k := by
      unfold XrInterp.next XrInterp.step
      rw [hpoint']
      rfl
    rw [hstep]
    unfold xrInst
    simp only [hinst, exec_faulted hreq haccess]
    rfl
  · -- The word is one that the block was decoded from, and so can be fetched again.
    obtain ⟨w, hw, _⟩ := hmain.word
    obtain ⟨hn, _⟩ := List.getElem?_eq_some_iff.mp hw
    rw [haddress]
    exact executesWhole_of_fetches hwords
      ((hreach.blocks (holdsOfBlocks_filled hwords) i hstands.active).words n hn)

end

/-- Memory exceptions are precise in both builds. -/
theorem memoryFaults_precise :
    MemoryFaultsPrecise (XrCachedMem LineRam) SameFlat ∧
    ∀ (D : Type) [EBusDevices D], MemoryFaultsPrecise (XrFastMem (XrStation D)) SameStores := by
  constructor
  · refine precise_of_build cached_refetchesWords ?_
    intro m m' block r v hlen heb haccess
    exact ⟨(cachedAccess_ends haccess).2 rfl, cached_sameFlat hlen heb haccess⟩
  · intro D _
    refine precise_of_build fast_refetchesWords ?_
    intro m m' block r v _ heb haccess
    have hrun : xrDataAccess m block r = ((.fault, v), m') := Option.some.inj haccess
    have hends := (dataEnds_dataAccess m block r).2
    rw [hrun] at hends
    exact ⟨hends rfl, fast_sameStores heb hrun⟩

/-- A boot ROM of words `LDL R1, [R2 + (R3 LSH 2)]`, and a processor with it and without
RAM; its exceptions go to 0x1000. -/
def shiftedLoad : Machine (XrFastMem (XrStation Unit)) :=
  let m := (stationMachine 0).setCr crEb 0x1000
  ⟨{ m.proc with pc := 0xFFFE1000, running := true },
    { m.mem with bus := { m.mem.bus with bootRom := fun k => byteOf 0xD0431079 (k % 4) } }⟩

/-- Its first call of `XrExecuteFast`, with this many steps after it. -/
def loads : Nat → XrInterp (XrFastMem (XrStation Unit))
  | 0 => XrInterp.call (XrInterp.timeslice ⟨shiftedLoad, XrIblockCache.initialBlockCache, .noMore⟩)
      uneventful 20000
  | n + 1 => ((loads n).next uneventful).getD (loads n)

set_option maxRecDepth 20000 in
theorem loads_reach : XrInterp.Reach (fun _ => True) (loads 3) := by
  have hcall : XrInterp.Reach (fun _ => True) (loads 0) :=
    ((XrInterp.Reach.start shiftedLoad XrIblockCache.initial_initialBlockCache).timeslice rfl).call
      uneventful 20000 rfl
  have hcheck : (loads 0).next uneventful = some (loads 1) := rfl
  have hretry : (loads 1).next uneventful = some (loads 2) := rfl
  have hshift : (loads 2).next uneventful = some (loads 3) := rfl
  exact ((hcall.next uneventful trivial hcheck).next uneventful trivial hretry).next
    uneventful trivial hshift

set_option maxRecDepth 20000 in
/-- The load takes a bus error after its shift. -/
theorem memoryFaults_precise_shiftedLoad :
    ∃ m', PreciseFault (loads 3).machine m' ∧ SameStores (loads 3).machine m' ∧
      ExecutesWhole (XrFastMem (XrStation Unit)) (loads 3).machine.proc.pc := by
  have hprecise := memoryFaults_precise.2 Unit (fun _ => True) (loads 3) uneventful 2047 1
    ⟨.loadLongRegOffset, 33, 1, 2⟩ ⟨0, true, 0, 4, false⟩ none
    (directBusError (loads 3).machine 0) loads_reach rfl rfl (by decide) (by decide) rfl rfl
  exact ⟨_, hprecise.2.1, hprecise.2.2.1, hprecise.2.2.2.2⟩

end Xremu
