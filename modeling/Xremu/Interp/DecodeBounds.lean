import Xremu.Interp.FetchFaults

/-!
# Decoding stays in bounds

The arrays of `XrDecodeInstructions` are lists in the model of the decoder: the fetched
words, and the cached instructions of a block. Here they are arrays again. `ir[]` is
what has been fetched into it, and a word of another page cannot be fetched; `Insts[]`
has `XR_IBLOCK_INSTS + 2` slots. An index that is out of bounds makes the result
undefined.

`decode_inBounds` says that this does not happen, in either build and on any page, and
that the block is the one the lists give.
-/

namespace Xremu

/-! ## The decode loop -/

/-- Write the next slot of `Insts[]`, of which this much is written. -/
def pushInst (insts : List XrCachedInst) (inst : XrCachedInst) : Option (List XrCachedInst) :=
  if insts.length < xrIblockInsts + 2 then some (insts ++ [inst]) else none

/-- The loop over the fetched words, from `instindex` on, of which there are `left` more
before `instcount`. The result is `Insts[]` and `Cycles`. -/
def xrDecodeFrom (tbmiss : Bool) (ir : Nat → Option Word) : (left instindex : Nat) → (pc : Word) →
    List XrCachedInst → (cycles : Nat) → Option (List XrCachedInst × Nat)
  | 0, _, _, insts, cycles => (pushInst insts linkageInst).map (·, cycles)
  | left + 1, instindex, pc, insts, cycles =>
      (ir instindex).bind fun word =>
        let r := xrDecode tbmiss word pc
        (r.insts.foldlM pushInst insts).bind fun insts =>
          if r.ends then some (insts, cycles + 1)
          else if xrIblockInsts ≤ insts.length then
            (pushInst insts linkageInst).map (·, cycles + 1)
          else xrDecodeFrom tbmiss ir left (instindex + 1) (pc + 4) insts (cycles + 1)

theorem pushInst_some {insts : List XrCachedInst} (h : insts.length < xrIblockInsts + 2)
    (inst : XrCachedInst) : pushInst insts inst = some (insts ++ [inst]) := if_pos h

theorem pushInsts_some {insts more : List XrCachedInst}
    (h : insts.length + more.length ≤ xrIblockInsts + 2) :
    more.foldlM pushInst insts = some (insts ++ more) := by
  induction more generalizing insts with
  | nil => simp
  | cons inst more ih =>
      rw [List.length_cons] at h
      have hroom : (insts ++ [inst]).length + more.length ≤ xrIblockInsts + 2 := by
        rw [List.length_append, List.length_singleton]
        omega
      have hrest := ih hroom
      rw [List.append_assoc] at hrest
      rw [List.foldlM_cons, pushInst_some (by omega)]
      exact hrest

/-- A block that is not full has a slot for a shift, one for its instruction and one for
the linkage, so the loop runs through. -/
theorem xrDecodeFrom_eq {tbmiss : Bool} {ir : Nat → Option Word} {words : List Word}
    {instindex : Nat} (hread : ∀ k, k < words.length → ir (instindex + k) = words[k]?) (pc : Word)
    {insts : List XrCachedInst} (hroom : insts.length < xrIblockInsts) (cycles : Nat) :
    xrDecodeFrom tbmiss ir words.length instindex pc insts cycles =
      some (insts ++ (xrDecodeLoop tbmiss words pc (xrIblockInsts - insts.length)).1,
        cycles + (xrDecodeLoop tbmiss words pc (xrIblockInsts - insts.length)).2) := by
  induction words generalizing instindex pc insts cycles with
  | nil =>
      show (pushInst insts linkageInst).map (·, cycles) = _
      rw [pushInst_some (by omega)]
      rfl
  | cons word words ih =>
      obtain ⟨pre, main, hok⟩ := xrDecode_ok tbmiss word pc
      obtain ⟨hpos, htwo⟩ := hok.length_pos
      have hfirst : ir instindex = some word := hread 0 (Nat.succ_pos _)
      have hlength : (insts ++ (xrDecode tbmiss word pc).insts).length =
          insts.length + (xrDecode tbmiss word pc).insts.length := List.length_append
      have hpush : (xrDecode tbmiss word pc).insts.foldlM pushInst insts =
          some (insts ++ (xrDecode tbmiss word pc).insts) := pushInsts_some (by omega)
      rw [List.length_cons, xrDecodeFrom, hfirst]
      dsimp only [Option.bind_some]
      rw [hpush]
      dsimp only [Option.bind_some]
      rcases loopCases tbmiss word words pc (xrIblockInsts - insts.length) with
        ⟨he, hloop⟩ | ⟨he, hfull, hloop⟩ | ⟨he, hmore, hloop⟩
      · rw [if_pos he, hloop]
      · have hlast : xrIblockInsts ≤ (insts ++ (xrDecode tbmiss word pc).insts).length := by omega
        rw [if_neg (by simp [he]), if_pos hlast, pushInst_some (by omega), hloop]
        simp
      · have hgoes : ¬xrIblockInsts ≤ (insts ++ (xrDecode tbmiss word pc).insts).length := by
          omega
        have hnext : ∀ k, k < words.length → ir (instindex + 1 + k) = words[k]? := by
          intro k hk
          have hk' := hread (k + 1) (Nat.succ_lt_succ hk)
          rw [List.getElem?_cons_succ] at hk'
          rw [Nat.add_assoc, Nat.add_comm 1 k]
          exact hk'
        rw [if_neg (by simp [he]), if_neg hgoes, ih hnext (pc + 4) (by omega), hloop, hlength,
          Nat.sub_sub, List.append_assoc, Nat.add_assoc, Nat.add_comm 1]

/-! ## The decoded block -/

/-- The cached instructions of words in a row. -/
def xrDecodeWords (tbmiss : Bool) : List Word → (pc : Word) → List XrCachedInst
  | [], _ => []
  | word :: words, pc => (xrDecode tbmiss word pc).insts ++ xrDecodeWords tbmiss words (pc + 4)

/-- Neither a virtual shift nor the linkage. -/
def XrCachedInst.architectural (inst : XrCachedInst) : Bool :=
  inst.func.kind != .shift && inst.func.kind != .linkage

/-- What decoding makes of the words of a block. -/
structure DecodesWords (tbmiss : Bool) (words : List Word) (pc : Word) (code : XrBlockCode) :
    Prop where
  /-- At least one word is decoded, at most as many as there are, or as a block has. -/
  some_word : 1 ≤ code.cycles
  cycles_le : code.cycles ≤ words.length ∧ code.cycles ≤ xrIblockInsts
  insts : code.insts = xrDecodeWords tbmiss (words.take code.cycles) pc ∨
    code.insts = xrDecodeWords tbmiss (words.take code.cycles) pc ++ [linkageInst]
  counted : code.cycles = code.insts.countP XrCachedInst.architectural
  size : code.insts.length ≤ xrIblockInsts + 2
  /-- The last slot does not fall through to another. -/
  last : code.last.func.kind.ends = true

theorem DecodedOk.counted {r : XrDecoded} {pre : List XrCachedInst} {main : XrCachedInst}
    (h : DecodedOk r pre main) : r.insts.countP XrCachedInst.architectural = 1 := by
  have hpre : pre.countP XrCachedInst.architectural = 0 := by
    apply List.countP_eq_zero.mpr
    intro i hi
    unfold XrCachedInst.architectural
    rw [h.shifts i hi]
    decide
  have hmain : main.architectural = true := by
    unfold XrCachedInst.architectural
    rw [Bool.and_eq_true, bne_iff_ne, bne_iff_ne]
    exact ⟨h.shift, h.linkage⟩
  rw [h.insts, List.countP_append, hpre, List.countP_singleton, if_pos hmain]

/-- The words that the loop has gone through, and what it has made of them. -/
theorem decodeLoop_words (tbmiss : Bool) (words : List Word) (pc : Word) (room : Nat) :
    let r := xrDecodeLoop tbmiss words pc room
    r.2 ≤ words.length ∧ (words ≠ [] → 1 ≤ r.2) ∧
    (r.1 = xrDecodeWords tbmiss (words.take r.2) pc ∨
      r.1 = xrDecodeWords tbmiss (words.take r.2) pc ++ [linkageInst]) ∧
    r.2 = r.1.countP XrCachedInst.architectural := by
  have hlinkage : linkageInst.architectural = false := rfl
  induction words generalizing pc room with
  | nil => exact ⟨Nat.le_refl _, fun h => absurd rfl h, Or.inr rfl, rfl⟩
  | cons word words ih =>
      obtain ⟨pre, main, hok⟩ := xrDecode_ok tbmiss word pc
      have hone : xrDecodeWords tbmiss ((word :: words).take 1) pc =
          (xrDecode tbmiss word pc).insts := List.append_nil _
      rcases loopCases tbmiss word words pc room with ⟨_, hloop⟩ | ⟨_, _, hloop⟩ | ⟨_, _, hloop⟩
      · rw [hloop]
        exact ⟨Nat.succ_pos _, fun _ => Nat.le_refl _, Or.inl hone.symm, hok.counted.symm⟩
      · rw [hloop]
        refine ⟨Nat.succ_pos _, fun _ => Nat.le_refl _, Or.inr ?_, ?_⟩
        · dsimp only
          rw [hone]
        · dsimp only
          rw [List.countP_append, hok.counted, List.countP_singleton, hlinkage]
          rfl
      · obtain ⟨hle, _, hinsts, hcount⟩ :=
          ih (pc + 4) (room - (xrDecode tbmiss word pc).insts.length)
        rw [hloop]
        refine ⟨Nat.succ_le_succ hle, fun _ => Nat.succ_pos _, ?_, ?_⟩
        · dsimp only
          rw [List.take_succ_cons, xrDecodeWords]
          rcases hinsts with hinsts | hinsts
          · exact Or.inl (congrArg _ hinsts)
          · refine Or.inr ?_
            rw [List.append_assoc]
            exact congrArg _ hinsts
        · dsimp only
          rw [List.countP_append, hok.counted, ← hcount, Nat.add_comm]

theorem decodesWords (tbmiss : Bool) {words : List Word} (hwords : words ≠ []) (pc : Word) :
    DecodesWords tbmiss words pc (xrDecodeBlock tbmiss words pc) := by
  obtain ⟨hle, hpos, hinsts, hcount⟩ := decodeLoop_words tbmiss words pc xrIblockInsts
  exact ⟨hpos hwords, ⟨hle, (xrDecodeBlock tbmiss words pc).cycles_le⟩, hinsts, hcount,
    (xrDecodeBlock tbmiss words pc).size, (xrDecodeBlock tbmiss words pc).last_ends⟩

/-! ## The fetch -/

/-- The page of an address is that of another. -/
def SamePage (a b : Word) : Prop := a &&& 0xFFFFF000 = b &&& 0xFFFFF000

instance (a b : Word) : Decidable (SamePage a b) := inferInstanceAs (Decidable (_ = _))

theorem samePage_iff {a b : Word} : SamePage a b ↔ a.toNat / 4096 = b.toNat / 4096 := by
  have ha : (a &&& 0xFFFFF000).toNat = a.toNat / 4096 * 4096 := toNat_and_highMask mask_page a
  have hb : (b &&& 0xFFFFF000).toNat = b.toNat / 4096 * 4096 := toNat_and_highMask mask_page b
  unfold SamePage
  rw [← BitVec.toNat_inj, ha, hb]
  omega

/-- A place further on in a page, in the address space or where the page is mapped. -/
theorem samePage_add {base pc : Word} {offset : Nat} (hoff : base.toNat % 4096 = pc.toNat % 4096)
    (h : pc.toNat % 4096 + offset < 4096) : SamePage (base + BitVec.ofNat 32 offset) base := by
  have hbase := base.isLt
  rw [samePage_iff, BitVec.toNat_add, BitVec.toNat_ofNat]
  omega

/-- A translation keeps the program counter, and the place in the page. -/
theorem fetchTranslation_place {M : Type} [ResetMem M] {m m₁ : Machine M} {virtual phys : Word}
    {flags : BitVec 64} (h : fetchTranslation m virtual = (some (phys, flags), m₁)) :
    m₁.proc.pc = m.proc.pc ∧ phys.toNat % 4096 = virtual.toNat % 4096 := by
  unfold fetchTranslation at h
  cases htbe : m.proc.itbEntry virtual with
  | none =>
      rw [htbe] at h
      cases h
  | some tbe =>
      rw [htbe] at h
      dsimp only at h
      cases hfault : tbeFault m.proc tbe false with
      | some f =>
          rw [hfault] at h
          cases h
      | none =>
          rw [hfault] at h
          cases h
          exact ⟨rfl, physOf_offset tbe virtual⟩

/-- `Insts[]` and `Cycles` of a block at `pc`. -/
def blockOf (tbmiss : Bool) (pc : Word) (f : XrFetched) : List XrCachedInst × Nat :=
  ((xrDecodeBlock tbmiss f.words pc).insts, (xrDecodeBlock tbmiss f.words pc).cycles)

/-- What is decoded by index is what the fetched words give, and there are some. -/
structure Indexed {M : Type} [XrBuild M] (pc : Word) (fetched : Option XrFetched × Machine M)
    (decoded : Option (Option (List XrCachedInst × Nat) × Machine M)) : Prop where
  defined : decoded = some (fetched.1.map (blockOf fetched.2.tbmiss pc), fetched.2)
  words : ∀ f, fetched.1 = some f → f.words ≠ []

theorem Indexed.failed {M : Type} [XrBuild M] {pc : Word} {m : Machine M} :
    Indexed pc (none, m) (some (none, m)) := by
  refine ⟨rfl, ?_⟩
  intro f hf
  cases hf

/-! ### The fast build -/

section

variable {β : Type} [EBusHost β]

/-- `ir[k]`, where `ir` points to the word at `pc`. -/
def hostWord (bus : β) (pc ir : Word) (k : Nat) : Option Word :=
  if k < xrIblockInsts ∧ SamePage (pc + BitVec.ofNat 32 (4 * k)) pc ∧
      SamePage (ir + BitVec.ofNat 32 (4 * k)) ir then
    some (zext (EBusHost.hostRead bus (ir.toNat + 4 * k)) 4)
  else none

/-- `XrDecodeInstructions` after the translation. -/
def decodeHost (m : Machine (XrFastMem β)) (pc fetchpc : Word) :
    Option (Option (List XrCachedInst × Nat) × Machine (XrFastMem β)) :=
  match eBusTranslate m.mem.bus fetchpc with
  | none => some (none, directBusError m pc)
  | some ir =>
      (xrDecodeFrom m.tbmiss (hostWord m.mem.bus pc ir) (xrInstCount pc pc) 0 pc [] 0).map
        fun block => (some block, m)

/-- `XrDecodeInstructions` where no block is cached. -/
def fastDecode (m : Machine (XrFastMem β)) :
    Option (Option (List XrCachedInst × Nat) × Machine (XrFastMem β)) :=
  if m.proc.rs &&& rsMmu ≠ 0 then
    match xrTranslateIstream m m.proc.pc with
    | (none, m) => some (none, m)
    | (some (fetchpc, _), m) => decodeHost m m.proc.pc fetchpc
  else decodeHost m m.proc.pc m.proc.pc

theorem decodeHost_indexed (m : Machine (XrFastMem β)) {pc fetchpc : Word} (flags : BitVec 64)
    (hoff : fetchpc.toNat % 4096 = pc.toNat % 4096) (hpc : Aligned pc) :
    Indexed pc (fetchHost m pc fetchpc flags) (decodeHost m pc fetchpc) := by
  have hpc4 := aligned_mod.mp hpc
  have hcount : xrInstCount pc pc = min 32 ((4096 - pc.toNat % 4096) / 4) := xrInstCount_eq rfl
  unfold decodeHost fetchHost
  cases hir : eBusTranslate m.mem.bus fetchpc with
  | none => exact .failed
  | some ir =>
      have hfetchpc : ir = fetchpc := by
        unfold eBusTranslate at hir
        split at hir
        · exact (Option.some.inj hir).symm
        · cases hir
      subst hfetchpc
      have hlength : (hostWords m.mem.bus ir (xrInstCount pc pc)).length = xrInstCount pc pc := by
        unfold hostWords
        rw [List.length_map, List.length_range]
      have hread : ∀ k, k < (hostWords m.mem.bus ir (xrInstCount pc pc)).length →
          hostWord m.mem.bus pc ir (0 + k) = (hostWords m.mem.bus ir (xrInstCount pc pc))[k]? := by
        intro k hk
        rw [hlength] at hk
        have hin : pc.toNat % 4096 + 4 * k < 4096 := by omega
        have hwithin : k < xrIblockInsts ∧ SamePage (pc + BitVec.ofNat 32 (4 * k)) pc ∧
            SamePage (ir + BitVec.ofNat 32 (4 * k)) ir :=
          ⟨show k < 32 by omega, samePage_add rfl hin, samePage_add hoff hin⟩
        unfold hostWord hostWords
        rw [Nat.zero_add, if_pos hwithin, List.getElem?_map, List.getElem?_range hk]
        rfl
      have hdecode := @xrDecodeFrom_eq m.tbmiss _ _ 0 hread pc [] (by decide) 0
      rw [hlength] at hdecode
      dsimp only
      rw [hdecode, List.nil_append, Nat.zero_add]
      refine ⟨rfl, fun f hf => ?_⟩
      cases hf
      apply List.ne_nil_of_length_pos
      dsimp only
      omega

/-- Every index of the fast build is in bounds. -/
theorem fastDecode_indexed (m : Machine (XrFastMem β)) (hpc : Aligned m.proc.pc) :
    Indexed m.proc.pc (fastFetch m) (fastDecode m) := by
  unfold fastFetch fastDecode
  by_cases hmmu : m.proc.rs &&& rsMmu ≠ 0
  · rw [if_pos hmmu, if_pos hmmu]
    cases hplace : xrTranslateIstream m m.proc.pc with
    | mk place m₁ =>
        rcases place with - | ⟨phys, flags⟩
        · exact .failed
        · rw [xrTranslateIstream_eq] at hplace
          obtain ⟨hkeep, hoff⟩ := fetchTranslation_place hplace
          rw [← hkeep] at hoff hpc ⊢
          exact decodeHost_indexed m₁ flags hoff hpc
  · rw [if_neg hmmu, if_neg hmmu]
    exact decodeHost_indexed m 0 rfl hpc

end

/-! ### The cached build -/

/-- The loop that fills `ir[]` a line at a time, from `ir.length` on. The line at `virtual`
is at `fetchpc`, and the fetch began at `frame`. -/
def fetchFrom (pc frame : Word) (instcount : Nat) (virtual fetchpc : Word) (ir : List Word)
    (m : Machine (XrCachedMem LineRam)) :
    Option (Option (List Word) × Machine (XrCachedMem LineRam)) :=
  if ir.length < instcount then
    if SamePage virtual pc ∧ SamePage fetchpc frame ∧ ir.length + 4 ≤ xrIblockInsts then
      match xrIcacheAccess fetchpc m with
      | (none, m) => some (none, m)
      | (some line, m) =>
          fetchFrom pc frame instcount (virtual + 16) (fetchpc + 16) (ir ++ lineWords line) m
    else none
  else some (some ir, m)
termination_by instcount - ir.length
decreasing_by
  rw [List.length_append]
  have hline : (lineWords line).length = 4 := rfl
  omega

/-- `XrDecodeInstructions` after the translation. -/
def decodeIcache (m : Machine (XrCachedMem LineRam)) (pc fetchpc : Word) :
    Option (Option (List XrCachedInst × Nat) × Machine (XrCachedMem LineRam)) :=
  let line := pc &&& 0xFFFFFFF0
  let instindex := ((pc - line) >>> 2).toNat
  let instcount := xrInstCount pc line
  match fetchFrom pc fetchpc instcount line fetchpc [] m with
  | none => none
  | some (none, m) => some (none, m)
  | some (some ir, m) =>
      (xrDecodeFrom m.tbmiss (fun k => ir[k]?) (instcount - instindex) instindex pc [] 0).map
        fun block => (some block, m)

/-- `XrDecodeInstructions` where no block is cached. -/
def cachedDecode (m : Machine (XrCachedMem LineRam)) :
    Option (Option (List XrCachedInst × Nat) × Machine (XrCachedMem LineRam)) :=
  let line := m.proc.pc &&& 0xFFFFFFF0
  if m.proc.rs &&& rsMmu ≠ 0 then
    match xrTranslate m line false true with
    | (none, m) => some (none, m)
    | (some (fetchpc, _), m) => decodeIcache m m.proc.pc fetchpc
  else decodeIcache m m.proc.pc line

/-- Whole lines up to the end of the page, at most as many as `ir[]` has room for. -/
theorem fetchFrom_eq {pc frame : Word} {instcount count : Nat} {ir : List Word}
    (hcount : instcount = ir.length + 4 * count) (hfits : instcount ≤ xrIblockInsts)
    {virtual fetchpc : Word}
    (hvirtual : ∀ k, k < count → SamePage (virtual + BitVec.ofNat 32 (16 * k)) pc)
    (hframe : ∀ k, k < count → SamePage (fetchpc + BitVec.ofNat 32 (16 * k)) frame)
    (m : Machine (XrCachedMem LineRam)) :
    fetchFrom pc frame instcount virtual fetchpc ir m =
      some ((fetchLines count fetchpc m).1.map (ir ++ ·), (fetchLines count fetchpc m).2) := by
  induction count generalizing ir virtual fetchpc m with
  | zero =>
      rw [fetchFrom, if_neg (by omega), fetchLines]
      simp
  | succ count ih =>
      have hnext : ∀ (a b : Word), (∀ k, k < count + 1 → SamePage (a + BitVec.ofNat 32 (16 * k)) b) →
          ∀ k, k < count → SamePage (a + 16 + BitVec.ofNat 32 (16 * k)) b := by
        intro a b h k hk
        have hk' := h (k + 1) (Nat.succ_lt_succ hk)
        have hsum : a + BitVec.ofNat 32 (16 * (k + 1)) = a + 16 + BitVec.ofNat 32 (16 * k) := by
          rw [Nat.mul_succ, Nat.add_comm, BitVec.ofNat_add, BitVec.add_assoc]
          rfl
        rwa [hsum] at hk'
      have hfirst : SamePage virtual pc ∧ SamePage fetchpc frame ∧
          ir.length + 4 ≤ xrIblockInsts := by
        refine ⟨?_, ?_, by omega⟩
        · have h0 := hvirtual 0 (Nat.succ_pos _)
          simpa using h0
        · have h0 := hframe 0 (Nat.succ_pos _)
          simpa using h0
      rw [fetchFrom, if_pos (by omega), if_pos hfirst, fetchLines]
      cases hline : xrIcacheAccess fetchpc m with
      | mk line m₁ =>
          cases line with
          | none => rfl
          | some line =>
              have hlength : instcount = (ir ++ lineWords line).length + 4 * count := by
                have hfour : (lineWords line).length = 4 := rfl
                rw [List.length_append]
                omega
              dsimp only
              rw [ih hlength (hnext virtual pc hvirtual) (hnext fetchpc frame hframe) m₁]
              cases hrest : fetchLines count (fetchpc + 16) m₁ with
              | mk words m₂ =>
                  cases words with
                  | none => rfl
                  | some words => simp

theorem decodeIcache_indexed (m : Machine (XrCachedMem LineRam)) {pc fetchpc : Word}
    (flags : BitVec 64) (hoff : fetchpc.toNat % 4096 = (pc &&& 0xFFFFFFF0).toNat % 4096)
    (hpc : Aligned pc) :
    Indexed pc (fetchIcache m pc fetchpc flags) (decodeIcache m pc fetchpc) := by
  have hpc4 := aligned_mod.mp hpc
  have hline := line_toNat pc
  have hcount : xrInstCount pc (pc &&& 0xFFFFFFF0) =
      min 32 ((4096 - pc.toNat % 4096 / 16 * 16) / 4) := xrInstCount_line pc
  have hindex : ((pc - (pc &&& 0xFFFFFFF0)) >>> 2).toNat = pc.toNat % 16 / 4 := by
    have hlt := pc.isLt
    rw [BitVec.toNat_ushiftRight, BitVec.toNat_sub, hline, Nat.shiftRight_eq_div_pow]
    omega
  have hlines : ∀ k, k < (xrInstCount pc (pc &&& 0xFFFFFFF0) + 3) / 4 →
      (pc &&& 0xFFFFFFF0).toNat % 4096 + 16 * k < 4096 := by
    intro k hk
    omega
  have hvirtual : ∀ k, k < (xrInstCount pc (pc &&& 0xFFFFFFF0) + 3) / 4 →
      SamePage ((pc &&& 0xFFFFFFF0) + BitVec.ofNat 32 (16 * k)) pc := by
    intro k hk
    have hpage : SamePage (pc &&& 0xFFFFFFF0) pc := by
      rw [samePage_iff]
      omega
    exact (samePage_add rfl (hlines k hk)).trans hpage
  have hframe : ∀ k, k < (xrInstCount pc (pc &&& 0xFFFFFFF0) + 3) / 4 →
      SamePage (fetchpc + BitVec.ofNat 32 (16 * k)) fetchpc :=
    fun k hk => samePage_add hoff (hlines k hk)
  have hfetch := @fetchFrom_eq pc fetchpc (xrInstCount pc (pc &&& 0xFFFFFFF0))
    ((xrInstCount pc (pc &&& 0xFFFFFFF0) + 3) / 4) []
    (by rw [List.length_nil]; omega) (show _ ≤ 32 by omega) _ _ hvirtual hframe m
  unfold decodeIcache fetchIcache
  dsimp only
  rw [hfetch]
  cases hwords : fetchLines ((xrInstCount pc (pc &&& 0xFFFFFFF0) + 3) / 4) fetchpc m with
  | mk words m₁ =>
      cases words with
      | none => exact .failed
      | some words =>
          have hlength : words.length = 4 * ((xrInstCount pc (pc &&& 0xFFFFFFF0) + 3) / 4) := by
            apply fetchedLines_length (m := m)
            rw [← fetchLines_eq (by omega) fetchpc m, hwords]
          have hdropped : ((words.take (xrInstCount pc (pc &&& 0xFFFFFFF0))).drop
              ((pc - (pc &&& 0xFFFFFFF0)) >>> 2).toNat).length =
              xrInstCount pc (pc &&& 0xFFFFFFF0) -
                ((pc - (pc &&& 0xFFFFFFF0)) >>> 2).toNat := by
            rw [List.length_drop, List.length_take]
            omega
          have hread : ∀ k, k < ((words.take (xrInstCount pc (pc &&& 0xFFFFFFF0))).drop
                ((pc - (pc &&& 0xFFFFFFF0)) >>> 2).toNat).length →
              words[((pc - (pc &&& 0xFFFFFFF0)) >>> 2).toNat + k]? =
                ((words.take (xrInstCount pc (pc &&& 0xFFFFFFF0))).drop
                  ((pc - (pc &&& 0xFFFFFFF0)) >>> 2).toNat)[k]? := by
            intro k hk
            rw [hdropped] at hk
            rw [List.getElem?_drop, List.getElem?_take_of_lt (by omega)]
          have hdecode := @xrDecodeFrom_eq m₁.tbmiss (fun k => words[k]?) _ _ hread pc []
            (by decide) 0
          rw [hdropped] at hdecode
          dsimp only [Option.map_some]
          rw [List.nil_append, hdecode, List.nil_append, Nat.zero_add]
          refine ⟨rfl, ?_⟩
          intro f hf
          cases hf
          apply List.ne_nil_of_length_pos
          dsimp only
          rw [hdropped, hindex]
          omega

/-- Every index of the cached build is in bounds. -/
theorem cachedDecode_indexed (m : Machine (XrCachedMem LineRam)) (hpc : Aligned m.proc.pc) :
    Indexed m.proc.pc (cachedFetch m) (cachedDecode m) := by
  unfold cachedFetch cachedDecode
  extract_lets line
  by_cases hmmu : m.proc.rs &&& rsMmu ≠ 0
  · rw [if_pos hmmu, if_pos hmmu]
    cases hplace : xrTranslate m line false true with
    | mk place m₁ =>
        rcases place with - | ⟨phys, flags⟩
        · exact .failed
        · rw [xrTranslate_fetch] at hplace
          obtain ⟨hkeep, hoff⟩ := fetchTranslation_place hplace
          show Indexed m.proc.pc (fetchIcache m₁ m₁.proc.pc phys flags)
            (decodeIcache m₁ m₁.proc.pc phys)
          rw [hkeep]
          exact decodeIcache_indexed m₁ flags hoff hpc
  · rw [if_neg hmmu, if_neg hmmu]
    exact decodeIcache_indexed m 0 rfl hpc

/-! ## Both builds -/

/-- No index of the decoder is out of bounds, and if the words could be fetched they make
a block. -/
structure DecodeInBounds {M : Type} [XrBuild M] (m : Machine M)
    (decoded : Option (Option (List XrCachedInst × Nat) × Machine M)) : Prop where
  defined : ∃ out m', XrBuild.fetch m = some (out, m') ∧
    decoded = some (out.map (blockOf m'.tbmiss m.proc.pc), m')
  block : ∀ f m', XrBuild.fetch m = some (some f, m') →
    DecodesWords m'.tbmiss f.words m.proc.pc (xrDecodeBlock m'.tbmiss f.words m.proc.pc)

theorem Indexed.inBounds {M : Type} [XrBuild M] {m : Machine M}
    {fetched : Option XrFetched × Machine M}
    {decoded : Option (Option (List XrCachedInst × Nat) × Machine M)}
    (h : Indexed m.proc.pc fetched decoded) (hfetch : XrBuild.fetch m = some fetched) :
    DecodeInBounds m decoded := by
  refine ⟨⟨fetched.1, fetched.2, hfetch, h.defined⟩, ?_⟩
  intro f m' hf
  rw [hfetch] at hf
  obtain rfl := Option.some.inj hf
  exact decodesWords m'.tbmiss (h.words f rfl) m.proc.pc

/-- Any processor state and any contents of memory, with an aligned program counter. -/
theorem decode_inBounds {β : Type} [EBusHost β] :
    (∀ m : Machine (XrCachedMem LineRam), Aligned m.proc.pc → DecodeInBounds m (cachedDecode m)) ∧
    (∀ m : Machine (XrFastMem β), Aligned m.proc.pc → DecodeInBounds m (fastDecode m)) :=
  ⟨fun m hpc => (cachedDecode_indexed m hpc).inBounds rfl,
    fun m hpc => (fastDecode_indexed m hpc).inBounds rfl⟩

/-- The last word of the address space. -/
def atLastWord {M : Type} (m : Machine M) : Machine M :=
  { m with proc := { m.proc with pc := 0xFFFFFFFC } }

theorem decode_inBounds_lastWord :
    DecodeInBounds (atLastWord midLine) (cachedDecode (atLastWord midLine)) ∧
    DecodeInBounds (atLastWord (stationMachine 0x400000))
      (fastDecode (atLastWord (stationMachine 0x400000))) :=
  ⟨(@decode_inBounds (XrStation Unit) _).1 (atLastWord midLine) (by decide),
    (@decode_inBounds (XrStation Unit) _).2 (atLastWord (stationMachine 0x400000)) (by decide)⟩

end Xremu
