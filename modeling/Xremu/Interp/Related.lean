import Xremu.Interp.PreciseFaults

/-!
# Two memories under one processor

The interpreter on two memory systems that are related, with the same processor record,
block cache and place in the code. If what a build is asked for is answered alike and leaves
the memories related, so does a step: `related_step`. What has to be shown of accesses and
fetches is asked only for those that the step makes, `AccessesAlike` and `FetchesAlike`.

The relation may depend on the lookup hints of the processor, since what a memory system
remembers of a page counts as long as there is a hint. It has to stand a hint that is
forgotten.
-/

namespace Xremu

/-- The lookup hints. -/
structure XrHints where
  itbLastVpn : Word
  itbLastResult : BitVec 64
  dtbLastVpn : Word

def XrProcessor.hints (p : XrProcessor) : XrHints := ⟨p.itbLastVpn, p.itbLastResult, p.dtbLastVpn⟩

section

variable {M N : Type}

/-- The same processor record, and memories that are related. -/
structure Machine.Related (R : XrHints → M → N → Prop) (m : Machine M) (n : Machine N) : Prop where
  proc : n.proc = m.proc
  mem : R m.proc.hints m.mem n.mem

/-- The same answer, and machines that are related. -/
structure AnswersAlike {α : Type} (R : XrHints → M → N → Prop) (x : α × Machine M)
    (y : α × Machine N) : Prop where
  answer : y.1 = x.1
  machine : x.2.Related R y.2

/-- The same exit. -/
structure ExitsAlike (R : XrHints → M → N → Prop) (x : Machine M × XrExit)
    (y : Machine N × XrExit) : Prop where
  exit : y.2 = x.2
  machine : x.1.Related R y.1

/-- The same block, or an exception of both, and the same block cache. -/
structure DecodesAlike (R : XrHints → M → N → Prop) (x : Option Nat × Machine M × XrIblockCache)
    (y : Option Nat × Machine N × XrIblockCache) : Prop where
  block : y.1 = x.1
  machine : x.2.1.Related R y.2.1
  cache : y.2.2 = x.2.2

structure XrInterp.Related (R : XrHints → M → N → Prop) (s : XrInterp M) (t : XrInterp N) :
    Prop where
  machine : s.machine.Related R t.machine
  cache : t.cache = s.cache
  point : t.point = s.point

end

/-! ## Branches and results -/

/-- Both take the same branch. -/
theorem alike_ite {α β : Type} {r : α → β → Prop} {P Q : Prop} [Decidable P] [Decidable Q]
    {a a' : α} {b b' : β} (hPQ : Q = P) (h : P → r a b) (h' : ¬P → r a' b') :
    r (if P then a else a') (if Q then b else b') := by
  by_cases hP : P
  · rw [if_pos hP, if_pos (hPQ ▸ hP)]
    exact h hP
  · rw [if_neg hP, if_neg (hPQ ▸ hP)]
    exact h' hP

section

variable {α β γ δ : Type} {r : α → β → Prop} {q : γ → δ → Prop}

theorem rel_bind {x : Option α} {y : Option β} {f : α → Option γ} {g : β → Option δ}
    (h : Option.Rel r x y) (hnext : ∀ a b, r a b → Option.Rel q (f a) (g b)) :
    Option.Rel q (x.bind f) (y.bind g) := by
  cases h with
  | some hab => exact hnext _ _ hab
  | none => exact .none

end

/-! ## Exceptions -/

section

variable {M N : Type} [XrBuild M] [XrBuild N] {R : XrHints → M → N → Prop} {m : Machine M}
  {n : Machine N}

variable (R) in
/-- What the two builds do of themselves leaves memories related. -/
structure BuildsAlike : Prop where
  forgetItb : ∀ {h a b}, R h a b → R { h with itbLastVpn := -1 } a b
  forgetDtb : ∀ {h a b}, R h a b → R { h with dtbLastVpn := -1 } a b
  reset : ∀ {p h a b}, R h a b → R h (ResetMem.resetMem p a) (ResetMem.resetMem p b)
  flushWriteBuffer : ∀ {m : Machine M} {n : Machine N}, m.Related R n →
    (XrBuild.flushWriteBuffer m).Related R (XrBuild.flushWriteBuffer n)
  icachectrl : ∀ {m : Machine M} {n : Machine N} value, m.Related R n →
    (XrBuild.icachectrl value m).Related R (XrBuild.icachectrl value n)
  dcachectrl : ∀ {m : Machine M} {n : Machine N} value, m.Related R n →
    (XrBuild.dcachectrl value m).Related R (XrBuild.dcachectrl value n)
  drain : ∀ {m : Machine M} {n : Machine N}, m.Related R n →
    (XrBuild.drain m).Related R (XrBuild.drain n)
  emptyDtbCache : ∀ {m : Machine M} {n : Machine N} block, m.Related R n →
    (XrBuild.emptyDtbCache block m).Related R (XrBuild.emptyDtbCache block n)

omit [XrBuild M] [XrBuild N] in
/-- A change of the processor record that both make. -/
theorem Machine.Related.update (h : m.Related R n) (f : XrProcessor → XrProcessor)
    (hhints : (f m.proc).hints = m.proc.hints) :
    Machine.Related R ⟨f m.proc, m.mem⟩ ⟨f n.proc, n.mem⟩ :=
  ⟨congrArg f h.proc, hhints ▸ h.mem⟩

theorem related_vector (hb : BuildsAlike R) (h : m.Related R n) (exc : Word) :
    (xrVectorException m exc).Related R (xrVectorException n exc) := by
  obtain ⟨p, a⟩ := m
  obtain ⟨q, b⟩ := n
  obtain ⟨hproc, hmem⟩ := h
  obtain rfl : q = p := hproc
  unfold xrVectorException
  by_cases heb : q.cr crEb = 0
  · rw [if_pos heb, if_pos heb]
    exact ⟨rfl, hb.forgetItb (hb.forgetDtb (hb.reset hmem))⟩
  · rw [if_neg heb, if_neg heb]
    exact ⟨rfl, hmem⟩

theorem related_basic (hb : BuildsAlike R) (h : m.Related R n) (exc pc : Word) :
    (xrBasicException m exc pc).Related R (xrBasicException n exc pc) := by
  unfold xrBasicException
  refine related_vector hb ?_ exc
  obtain ⟨p, a⟩ := m
  obtain ⟨q, b⟩ := n
  obtain ⟨hproc, hmem⟩ := h
  obtain rfl : q = p := hproc
  exact ⟨rfl, hmem⟩

/-- A lookup that found nothing. -/
theorem related_tbMiss (hb : BuildsAlike R) (h : m.Related R n) (tag addr : Nat)
    (exc virtual : Word) (writing : Bool) :
    (tbMiss tag addr exc virtual writing m).Related R (tbMiss tag addr exc virtual writing n) := by
  have hnote : (noteMiss tag addr virtual writing m).Related R
      (noteMiss tag addr virtual writing n) := by
    obtain ⟨p, a⟩ := m
    obtain ⟨q, b⟩ := n
    obtain ⟨hproc, hmem⟩ := h
    obtain rfl : q = p := hproc
    exact ⟨rfl, hmem⟩
  unfold tbMiss
  generalize noteMiss tag addr virtual writing m = m₁ at hnote ⊢
  generalize noteMiss tag addr virtual writing n = n₁ at hnote ⊢
  have hproc := hnote.proc
  dsimp only
  by_cases htb : m₁.proc.rs &&& rsTbmiss = 0
  · rw [if_pos htb, if_pos (hproc ▸ htb)]
    refine related_vector hb ?_ exc
    obtain ⟨p, a⟩ := m₁
    obtain ⟨q, b⟩ := n₁
    obtain rfl : q = p := hproc
    exact ⟨rfl, hnote.mem⟩
  · rw [if_neg htb, if_neg (hproc ▸ htb)]
    exact related_vector hb hnote exc

/-- What is wrong with an entry. -/
theorem related_take (hb : BuildsAlike R) (h : m.Related R n) (f : XrTbeFault) (virtual : Word)
    (writing : Bool) : (f.take m virtual writing).Related R (f.take n virtual writing) := by
  obtain ⟨p, a⟩ := m
  obtain ⟨q, b⟩ := n
  obtain ⟨hproc, hmem⟩ := h
  obtain rfl : q = p := hproc
  cases f with
  | notValid =>
      unfold XrTbeFault.take xrPageFault
      dsimp only
      split
      · refine related_vector hb ?_ _
        exact ⟨rfl, hmem⟩
      · refine related_vector hb ?_ _
        exact ⟨rfl, hmem⟩
  | protection =>
      unfold XrTbeFault.take xrProtectionFault
      refine related_basic hb ?_ _ _
      exact ⟨rfl, hmem⟩

theorem related_rfe (hb : BuildsAlike R) (h : m.Related R n) :
    (xrRfe m).Related R (xrRfe n) := by
  obtain ⟨p, a⟩ := m
  obtain ⟨q, b⟩ := n
  obtain ⟨hproc, hmem⟩ := h
  obtain rfl : q = p := hproc
  unfold xrRfe
  dsimp only
  split
  · refine related_basic hb ?_ excPrv _
    exact ⟨rfl, hmem⟩
  · exact ⟨rfl, hmem⟩

/-- MTCR forgets hints at most. -/
theorem mtcr_hints (hb : BuildsAlike R) (p : XrProcessor) (rb : Nat) (value : Word) {a : M} {b : N}
    (h : R p.hints a b) : R (xrMtcr p rb value).hints a b := by
  unfold xrMtcr
  extract_lets q
  have hq : R q.hints a b := h
  split
  · exact hq
  split
  · rcases tbctrlHint_cases value q.itbLastVpn with hsame | hforgot
    · simpa only [XrProcessor.hints, hsame] using hq
    · simpa only [XrProcessor.hints, hforgot] using hb.forgetItb hq
  split
  · rcases tbctrlHint_cases value q.dtbLastVpn with hsame | hforgot
    · simpa only [XrProcessor.hints, hsame] using hq
    · simpa only [XrProcessor.hints, hforgot] using hb.forgetDtb hq
  split
  · exact hq
  split
  · exact hq
  split
  · exact hq
  split
  · exact hb.forgetDtb hq
  split
  · exact hb.forgetItb hq
  · exact hq

/-! ## Instructions -/

variable {inst : XrCachedInst} {i : Nat}

variable (R) in
/-- The access of the instruction, if there is one, is answered alike. -/
def AccessesAlike (inst : XrCachedInst) (i : Nat) (m : Machine M) (n : Machine N) : Prop :=
  ∀ r, inst.memReq m.proc = some r →
    Option.Rel (AnswersAlike R) (XrBuild.access m i r) (XrBuild.access n i r)

omit [XrBuild M] [XrBuild N] in
/-- An early exit on a fault, and otherwise on to the next instruction. -/
theorem related_answer {x : XrResult × Machine M} {y : XrResult × Machine N}
    (h : AnswersAlike R x y) (f : XrResult → XrProcessor → XrProcessor)
    (hf : ∀ res p, (f res p).hints = p.hints) :
    Option.Rel (ExitsAlike R)
      (if x.1.1 = .fault then some (x.2, XrExit.early) else xrNext ⟨f x.1 x.2.proc, x.2.mem⟩)
      (if y.1.1 = .fault then some (y.2, XrExit.early) else xrNext ⟨f y.1 y.2.proc, y.2.mem⟩) := by
  obtain ⟨res, p, a⟩ := x
  obtain ⟨res', q, b⟩ := y
  obtain ⟨hres, hproc, hmem⟩ := h
  obtain rfl : res' = res := hres
  obtain rfl : q = p := hproc
  refine alike_ite rfl (fun _ => ?_) fun _ => ?_
  · exact .some ⟨rfl, rfl, hmem⟩
  · refine .some ⟨rfl, rfl, ?_⟩
    have hhints : (f res' q).hints = q.hints := hf res' q
    exact hhints.symm ▸ hmem

/-- Every handler. -/
theorem related_exec (hb : BuildsAlike R) (h : m.Related R n)
    (haccess : AccessesAlike R inst i m n) :
    Option.Rel (ExitsAlike R) (inst.exec m i) (inst.exec n i) := by
  obtain ⟨p, a⟩ := m
  obtain ⟨q, b⟩ := n
  have hproc := h.proc
  obtain rfl : q = p := hproc
  have hmem : R q.hints a b := h.mem
  obtain ⟨func, imm32, imm8, imm8'⟩ := inst
  have hraise : ∀ (p : XrProcessor) (exc pc : Word) (exit : XrExit), p.hints = q.hints →
      Option.Rel (ExitsAlike R) (some (xrBasicException ⟨p, a⟩ exc pc, exit))
        (some (xrBasicException ⟨p, b⟩ exc pc, exit)) :=
    fun p exc pc exit hp =>
      .some ⟨rfl, related_basic (m := ⟨p, a⟩) (n := ⟨p, b⟩) hb ⟨rfl, hp.symm ▸ hmem⟩ exc pc⟩
  have hsame : ∀ (p : XrProcessor) (exit : XrExit), p.hints = q.hints →
      Option.Rel (ExitsAlike R) (some (⟨p, a⟩, exit)) (some (⟨p, b⟩, exit)) :=
    fun p exit hp => .some ⟨rfl, rfl, hp.symm ▸ hmem⟩
  have hbranch : ∀ (taken : Word → Bool) (inst : XrCachedInst),
      Option.Rel (ExitsAlike R) (branch taken ⟨q, a⟩ i inst) (branch taken ⟨q, b⟩ i inst) :=
    fun taken inst => alike_ite rfl (fun _ => hsame _ _ rfl) fun _ => hsame _ _ rfl
  have hstore : ∀ (address value : Word) (length : Nat),
      Option.Rel (AnswersAlike R) (XrBuild.access ⟨q, a⟩ i ⟨address, false, value, length, false⟩)
        (XrBuild.access ⟨q, b⟩ i ⟨address, false, value, length, false⟩) →
      Option.Rel (ExitsAlike R) (storeAt ⟨q, a⟩ i address value length)
        (storeAt ⟨q, b⟩ i address value length) :=
    fun _ _ _ hacc => rel_bind hacc fun _ _ hxy => related_answer hxy (fun _ p => p) fun _ _ => rfl
  have hload : ∀ (address : Word) (rd length : Nat),
      Option.Rel (AnswersAlike R) (XrBuild.access ⟨q, a⟩ i ⟨address, true, 0, length, false⟩)
        (XrBuild.access ⟨q, b⟩ i ⟨address, true, 0, length, false⟩) →
      Option.Rel (ExitsAlike R) (loadAt ⟨q, a⟩ i address rd length)
        (loadAt ⟨q, b⟩ i address rd length) :=
    fun _ rd _ hacc => rel_bind hacc fun _ _ hxy =>
      related_answer hxy (fun res p => p.setReg rd (res.2.getD 0)) fun _ _ => rfl
  cases func with
  | illegalInstruction | sys | brk => exact hraise _ _ _ _ rfl
  | wmb | mb =>
      have hnext := (hb.flushWriteBuffer h).update (fun p => { p with pc := p.pc + 4 }) rfl
      exact .some ⟨rfl, hnext⟩
  | pause =>
      show Option.Rel _ (xrExecutePause ⟨q, a⟩ i ⟨.pause, imm32, imm8, imm8'⟩)
        (xrExecutePause ⟨q, b⟩ i ⟨.pause, imm32, imm8, imm8'⟩)
      exact alike_ite rfl (fun _ => hsame _ _ rfl) fun _ => hsame _ _ rfl
  | sc =>
      show Option.Rel _ (xrExecuteStoreConditional _ i _) (xrExecuteStoreConditional _ i _)
      refine alike_ite rfl (fun _ => hsame _ _ rfl) fun hlocked => ?_
      refine rel_bind (haccess _ (if_pos (by simpa using hlocked))) fun x y hxy => ?_
      exact related_answer hxy (fun res p => p.setReg imm8 (if res.1 = .scFailed then 0 else 1))
        fun _ _ => rfl
  | ll =>
      refine rel_bind (haccess _ rfl) fun x y hxy => ?_
      exact related_answer hxy (fun res p => { p.setReg imm8 (res.2.getD 0) with locked := true })
        fun _ _ => rfl
  | rfe => exact .some ⟨rfl, related_rfe hb h⟩
  | hlt =>
      show Option.Rel _ (xrExecuteHlt ⟨q, a⟩ i ⟨.hlt, imm32, imm8, imm8'⟩)
        (xrExecuteHlt ⟨q, b⟩ i ⟨.hlt, imm32, imm8, imm8'⟩)
      exact alike_ite rfl (fun _ => hraise _ _ _ _ rfl) fun _ => hsame _ _ rfl
  | mtcr =>
      show Option.Rel _ (xrExecuteMtcr _ i _) (xrExecuteMtcr _ i _)
      refine alike_ite rfl (fun _ => hraise _ _ _ _ rfl) fun _ => ?_
      have hwritten : Machine.Related R ⟨xrMtcr q imm8' (q.reg imm8), a⟩
          ⟨xrMtcr q imm8' (q.reg imm8), b⟩ := ⟨rfl, mtcr_hints hb _ _ _ hmem⟩
      have hnext : ∀ {m : Machine M} {n : Machine N} (exit : XrExit), m.Related R n →
          Option.Rel (ExitsAlike R) (some (m.setPc (m.proc.pc + 4), exit))
            (some (n.setPc (n.proc.pc + 4), exit)) :=
        fun exit h => .some ⟨rfl, h.update (fun p => { p with pc := p.pc + 4 }) rfl⟩
      refine alike_ite rfl (fun _ => hnext _ (hb.icachectrl _ hwritten)) fun _ => ?_
      refine alike_ite rfl (fun _ => hnext _ (hb.dcachectrl _ hwritten)) fun _ => ?_
      exact alike_ite rfl (fun _ => hnext _ hwritten) fun _ => hnext _ hwritten
  | mfcr =>
      show Option.Rel _ (xrExecuteMfcr _ i _) (xrExecuteMfcr _ i _)
      exact alike_ite rfl (fun _ => hraise _ _ _ _ rfl) fun _ => hsame _ _ rfl
  | jalr =>
      show Option.Rel _ (xrExecuteJalr _ i _) (xrExecuteJalr _ i _)
      exact alike_ite rfl (fun _ => hraise _ _ _ _ rfl) fun _ => hsame _ _ rfl
  | bpo => exact hbranch (fun rd => rd &&& 1 != 0) _
  | bpe => exact hbranch (fun rd => rd &&& 1 == 0) _
  | bge => exact hbranch (fun rd => !rd.slt 0) _
  | ble => exact hbranch (fun rd => rd.sle 0) _
  | bgt => exact hbranch (fun rd => (0 : Word).slt rd) _
  | blt => exact hbranch (fun rd => rd.slt 0) _
  | bne => exact hbranch (fun rd => rd != 0) _
  | beq => exact hbranch (fun rd => rd == 0) _
  | storeLongRegOffset | storeIntRegOffset | storeByteRegOffset
  | storeLongImmOffsetImm | storeIntImmOffsetImm | storeByteImmOffsetImm
  | storeLongImmOffsetReg | storeIntImmOffsetReg | storeByteImmOffsetReg =>
      exact hstore _ _ _ (haccess _ rfl)
  | loadLongRegOffset | loadIntRegOffset | loadByteRegOffset
  | loadLongImmOffset | loadIntImmOffset | loadByteImmOffset => exact hload _ _ _ (haccess _ rfl)
  -- The rest computes on registers.
  | _ => exact hsame _ _ rfl

/-! ## Decoding -/

variable {c : XrIblockCache}

variable (R) in
/-- A fetch is answered alike. -/
def FetchesAlike (m : Machine M) (n : Machine N) : Prop :=
  Option.Rel (AnswersAlike R) (XrBuild.fetch m) (XrBuild.fetch n)

theorem related_decode (hb : BuildsAlike R) (h : m.Related R n) (hfetch : FetchesAlike R m n)
    (hazard : Option Nat) :
    Option.Rel (DecodesAlike R) (xrDecodeInstructions m c hazard)
      (xrDecodeInstructions n c hazard) := by
  have hproc := h.proc
  unfold xrDecodeInstructions
  rw [hproc]
  extract_lets pc asid
  cases c.xrLookupIblock pc asid with
  | some i =>
      dsimp only
      refine alike_ite rfl (fun _ => ?_) fun _ => .some ⟨rfl, h, rfl⟩
      refine .some ⟨rfl, related_basic hb ?_ excPgf _, rfl⟩
      exact h.update (fun p => p.setCr crEbadaddr pc) rfl
  | none =>
      dsimp only
      unfold FetchesAlike at hfetch
      generalize XrBuild.fetch m = x at hfetch
      generalize XrBuild.fetch n = y at hfetch
      cases hfetch with
      | none => exact .none
      | @some x y hxy =>
          obtain ⟨f, m₁⟩ := x
          obtain ⟨f', n₁⟩ := y
          obtain ⟨hf, hm₁⟩ := hxy
          obtain rfl : f' = f := hf
          cases f' with
          | none => exact .some ⟨rfl, hm₁, rfl⟩
          | some f =>
              have htb : n₁.tbmiss = m₁.tbmiss := by
                unfold Machine.tbmiss
                rw [hm₁.proc]
              dsimp only
              rw [htb]
              cases c.decodeFetched hazard pc asid f m₁.tbmiss with
              | none => exact .none
              | some r => exact .some ⟨rfl, hb.emptyDtbCache _ hm₁, rfl⟩

/-! ## Steps -/

omit [XrBuild M] [XrBuild N] in
theorem related_dispatch (h : m.Related R n) (i j : Nat) :
    (xrDispatch m c i j).Related R (xrDispatch n c i j) := by
  obtain ⟨p, a⟩ := m
  obtain ⟨q, b⟩ := n
  obtain ⟨hproc, hmem⟩ := h
  obtain rfl : q = p := hproc
  exact ⟨⟨rfl, hmem⟩, rfl, rfl⟩

omit [XrBuild M] [XrBuild N] in
theorem related_charge (h : m.Related R n) (cycles : Nat) :
    (m.charge cycles).Related R (n.charge cycles) :=
  h.update (fun p => { p with cyclesDone := p.cyclesDone + BitVec.ofNat 32 cycles }) rfl

theorem related_follow (hb : BuildsAlike R) (h : m.Related R n) (hfetch : FetchesAlike R m n)
    (i k : Nat) (path : XrPath) :
    Option.Rel (XrInterp.Related R) (xrFollow m c i k path) (xrFollow n c i k path) := by
  unfold xrFollow
  cases (c.iblocks i).cachedPaths path with
  | iblock j => exact .some (related_dispatch h i j)
  | ptable t => exact .none
  | null =>
      dsimp only
      have hdecode := related_decode (c := c) hb h hfetch (some i)
      generalize xrDecodeInstructions m c (some i) = x at hdecode
      generalize xrDecodeInstructions n c (some i) = y at hdecode
      cases hdecode with
      | none => exact .none
      | @some x y hxy =>
          obtain ⟨j, m₁, c₁⟩ := x
          obtain ⟨j', n₁, c₁'⟩ := y
          obtain ⟨hj, hm₁, hc⟩ := hxy
          obtain rfl : j' = j := hj
          obtain rfl : c₁' = c₁ := hc
          cases j' with
          | none => exact .some ⟨related_charge hm₁ k, rfl, rfl⟩
          | some j => exact .some (related_dispatch hm₁ i j)

theorem related_predictBy (hb : BuildsAlike R) (h : m.Related R n) (hfetch : FetchesAlike R m n)
    (i k t : Nat) :
    Option.Rel (XrInterp.Related R) (xrPredictBy m c i k t) (xrPredictBy n c i k t) := by
  unfold xrPredictBy
  rw [h.proc]
  cases c.predicted t m.proc.pc with
  | iblock j => exact .some (related_dispatch h i j)
  | ptable t => exact .none
  | null =>
      dsimp only
      have hdecode := related_decode (c := c) hb h hfetch (some i)
      generalize xrDecodeInstructions m c (some i) = x at hdecode
      generalize xrDecodeInstructions n c (some i) = y at hdecode
      cases hdecode with
      | none => exact .none
      | @some x y hxy =>
          obtain ⟨j, m₁, c₁⟩ := x
          obtain ⟨j', n₁, c₁'⟩ := y
          obtain ⟨hj, hm₁, hc⟩ := hxy
          obtain rfl : j' = j := hj
          obtain rfl : c₁' = c₁ := hc
          cases j' with
          | none => exact .some ⟨related_charge hm₁ k, rfl, rfl⟩
          | some j =>
              have hpc : n₁.proc.pc = m₁.proc.pc := by rw [hm₁.proc]
              dsimp only
              rw [hpc]
              exact .some (related_dispatch hm₁ i j)

theorem related_predict (hb : BuildsAlike R) (h : m.Related R n) (hfetch : FetchesAlike R m n)
    (i k : Nat) :
    Option.Rel (XrInterp.Related R) (xrPredict m c i k) (xrPredict n c i k) := by
  unfold xrPredict
  cases (if (c.iblocks i).cachedPaths .true = .null then c.givePtable i else some c) with
  | none => exact .none
  | some c' =>
      dsimp only
      cases (c'.iblocks i).cachedPaths .true with
      | null => exact .none
      | iblock j => exact .none
      | ptable t => exact related_predictBy hb h hfetch i k t

theorem related_leave (hb : BuildsAlike R) (h : m.Related R n) {exit : XrExit}
    (hfetch : (exit = .predict ∨ ∃ path, exit = .follow path) → FetchesAlike R m n) (i k : Nat) :
    Option.Rel (XrInterp.Related R) (xrLeave m c i k exit) (xrLeave n c i k exit) := by
  cases exit with
  | next => exact .some ⟨h, rfl, rfl⟩
  | early => exact .some ⟨related_charge h k, rfl, rfl⟩
  | trivial => exact .some ⟨related_charge h _, rfl, rfl⟩
  | flush vpn =>
      unfold xrLeave
      dsimp only
      cases c.drop vpn with
      | none => exact .none
      | some c' => exact .some ⟨related_charge h k, rfl, rfl⟩
  | follow path => exact related_follow hb h (hfetch (.inr ⟨path, rfl⟩)) i k path
  | predict => exact related_predict hb h (hfetch (.inl rfl)) i k

/-- The access and the fetch of the step that instruction `k` of block `i` makes. -/
structure InstAlike (R : XrHints → M → N → Prop) (m : Machine M) (n : Machine N) (c : XrIblockCache)
    (i k : Nat) : Prop where
  access : ∀ inst, (c.iblocks i).code.insts[k]? = some inst → AccessesAlike R inst i m n
  fetch : ∀ inst m₁ n₁ exit, (c.iblocks i).code.insts[k]? = some inst →
    inst.exec m i = some (m₁, exit) → (exit = .predict ∨ ∃ path, exit = .follow path) →
    m₁.Related R n₁ → FetchesAlike R m₁ n₁

theorem related_inst (hb : BuildsAlike R) (h : m.Related R n) {i k : Nat}
    (halike : InstAlike R m n c i k) :
    Option.Rel (XrInterp.Related R) (xrInst m c i k) (xrInst n c i k) := by
  unfold xrInst
  cases hinst : (c.iblocks i).code.insts[k]? with
  | none => exact .none
  | some inst =>
      have hexec := related_exec hb h (halike.access inst hinst)
      dsimp only
      cases hx : inst.exec m i with
      | none =>
          rw [hx] at hexec
          generalize inst.exec n i = y at hexec
          cases hexec
          exact .none
      | some x =>
          rw [hx] at hexec
          generalize inst.exec n i = y at hexec
          cases hexec with
          | @some _ y hxy =>
              obtain ⟨m₁, exit⟩ := x
              obtain ⟨n₁, exit'⟩ := y
              obtain ⟨hexit, hm₁⟩ := hxy
              obtain rfl : exit' = exit := hexit
              refine related_leave hb hm₁ (fun hleaves => ?_) i k
              exact halike.fetch inst m₁ n₁ exit' hinst hx hleaves hm₁

omit [XrBuild M] [XrBuild N] in
/-- The processor is woken up. -/
theorem related_wake (h : m.Related R n) :
    Machine.Related R
      (if m.proc.halted then
        { m with proc := { m.proc with nmiMaskCounter := 0, halted := false } } else m)
      (if n.proc.halted then
        { n with proc := { n.proc with nmiMaskCounter := 0, halted := false } } else n) := by
  rw [h.proc]
  split
  · exact ⟨rfl, h.mem⟩
  · exact h

/-- A break of the user. -/
theorem related_nmi (hb : BuildsAlike R) (h : m.Related R n) :
    Machine.Related R
      (if m.proc.userBreak = true ∧ m.proc.nmiMaskCounter = 0 then
        let m := xrBasicException m excNmi m.proc.pc
        { m with proc := { m.proc with userBreak := false, halted := false } } else m)
      (if n.proc.userBreak = true ∧ n.proc.nmiMaskCounter = 0 then
        let n := xrBasicException n excNmi n.proc.pc
        { n with proc := { n.proc with userBreak := false, halted := false } } else n) := by
  rw [h.proc]
  split
  · exact (related_basic hb h excNmi _).update
      (fun p => { p with userBreak := false, halted := false }) rfl
  · exact h

/-- The same machine but for the memory, and the same point. -/
structure CallsAlike (R : XrHints → M → N → Prop) (x : Machine M × XrPoint)
    (y : Machine N × XrPoint) : Prop where
  machine : x.1.Related R y.1
  point : y.2 = x.2

/-- `XrExecuteFast` up to its loop. -/
theorem related_executeFast (hb : BuildsAlike R) (h : m.Related R n) (pending : Bool)
    (cycles : Word) :
    CallsAlike R (xrExecuteFast pending cycles m) (xrExecuteFast pending cycles n) := by
  have hproc := h.proc
  refine alike_ite (congrArg (fun p => p.running = false) hproc) (fun _ => ⟨h, rfl⟩) fun _ => ?_
  refine alike_ite
    (congrArg (fun p => p.halted = true ∧ ¬(pending ∧ p.rs &&& rsInt ≠ 0)) hproc)
    (fun _ => ⟨h.update (fun p => { p with nmiMaskCounter := 0 }) rfl, rfl⟩) fun _ => ?_
  have hnmi := related_nmi hb ((related_wake h).update
    (fun p => { p with cyclesGoal := cycles, cyclesDone := 0 }) rfl)
  extract_lets p₁ m₁ p₂ m₂ raised p₃ m₃ p₄ q₁ n₁ q₂ n₂ raised' q₃ n₃ q₄
  have hlast : m₃.Related R n₃ := hnmi
  refine alike_ite (congrArg (fun p => p.progress ≤ 0) hlast.proc) (fun _ => ⟨hlast, rfl⟩)
    fun _ => ?_
  exact ⟨hlast.update (fun p => { p with pauseCalls := 0, noMore := false }) rfl, rfl⟩

theorem related_retry (hb : BuildsAlike R) (h : m.Related R n) (pending : Bool)
    (hfetch : (takeInterrupt pending m.countNmiMask).Related R
        (takeInterrupt pending n.countNmiMask) →
      FetchesAlike R (takeInterrupt pending m.countNmiMask)
        (takeInterrupt pending n.countNmiMask)) :
    Option.Rel (XrInterp.Related R) (xrRetry pending m c) (xrRetry pending n c) := by
  have hproc := h.proc
  have hcount : m.countNmiMask.Related R n.countNmiMask := by
    unfold Machine.countNmiMask
    rw [hproc]
    split
    · exact ⟨rfl, h.mem⟩
    · exact h
  have htake : (takeInterrupt pending m.countNmiMask).Related R
      (takeInterrupt pending n.countNmiMask) := by
    unfold takeInterrupt
    rw [hcount.proc]
    split
    · exact (related_basic hb hcount excInt _).update
        (fun p => { p with progress := xrPollMax }) rfl
    · exact hcount
  unfold xrRetry
  rw [hproc]
  refine alike_ite rfl (fun _ => .some ⟨⟨rfl, h.mem⟩, rfl, rfl⟩) fun _ => ?_
  have hdecode := related_decode (c := c) hb htake (hfetch htake) none
  generalize xrDecodeInstructions (takeInterrupt pending m.countNmiMask) c none = x at hdecode
  generalize xrDecodeInstructions (takeInterrupt pending n.countNmiMask) c none = y at hdecode
  cases hdecode with
  | none => exact .none
  | @some x y hxy =>
      obtain ⟨j, m₁, c₁⟩ := x
      obtain ⟨j', n₁, c₁'⟩ := y
      obtain ⟨hj, hm₁, hc⟩ := hxy
      obtain rfl : j' = j := hj
      obtain rfl : c₁' = c₁ := hc
      cases j' with
      | none => exact .some ⟨related_charge hm₁ _, rfl, rfl⟩
      | some j => exact .some ⟨hm₁, rfl, rfl⟩

/-- What a step asks of the two builds is answered alike. -/
structure StepAlike (R : XrHints → M → N → Prop) (pending : Bool) (s : XrInterp M)
    (t : XrInterp N) : Prop where
  inst : ∀ i k, s.point = .inst i k → InstAlike R s.machine t.machine s.cache i k
  retry : s.point = .retry →
    (takeInterrupt pending s.machine.countNmiMask).Related R
      (takeInterrupt pending t.machine.countNmiMask) →
    FetchesAlike R (takeInterrupt pending s.machine.countNmiMask)
      (takeInterrupt pending t.machine.countNmiMask)

/-- A step of both. -/
theorem related_step (hb : BuildsAlike R) {s : XrInterp M} {t : XrInterp N} (h : s.Related R t)
    {pending : Bool} (halike : StepAlike R pending s t) :
    Option.Rel (XrInterp.Related R) (s.step pending) (t.step pending) := by
  unfold XrInterp.step
  rw [h.point, h.cache]
  cases hpoint : s.point with
  | check => exact .some ⟨hb.drain h.machine, rfl, rfl⟩
  | retry => exact related_retry hb h.machine pending (halike.retry hpoint)
  | inst i k => exact related_inst hb h.machine (halike.inst i k hpoint)
  | noMore => exact .none

end

end Xremu
