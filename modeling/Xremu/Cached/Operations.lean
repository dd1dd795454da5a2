import Xremu.Cached.Coherence
import Xremu.Cached.Dcache

/-!
# What each stretch of local code does to the lines

One lemma or two for every operation of `State.lean`: its effect on the states
and tags (`lines_..`, `flags_..`, or that it only lowers, `falls_..`), and that
it leaves the rest of the machine as it is (`Plant`).
-/

namespace Xremu

open XrCachedSys

namespace XrCachedSys

variable {β : Type}

/-- The states and tags in `s`. -/
def lines (s : XrCachedSys β) : LineView where
  flags p := (s.cache p).dcFlags
  tags p := (s.cache p).dcTags
  wb p := (s.cache p).wbIndices
  wbOf p := (s.cache p).dcIndexToWbIndex
  scFlags := s.mem.scache.flags
  scTags := s.mem.scache.tags
  scIds := s.mem.scache.exclusiveIds

@[simp] theorem lines_flags (s : XrCachedSys β) (p : Nat) :
    s.lines.flags p = (s.cache p).dcFlags := rfl
@[simp] theorem lines_tags (s : XrCachedSys β) (p : Nat) :
    s.lines.tags p = (s.cache p).dcTags := rfl
@[simp] theorem lines_wb (s : XrCachedSys β) (p : Nat) :
    s.lines.wb p = (s.cache p).wbIndices := rfl
@[simp] theorem lines_wbOf (s : XrCachedSys β) (p : Nat) :
    s.lines.wbOf p = (s.cache p).dcIndexToWbIndex := rfl
@[simp] theorem lines_scFlags (s : XrCachedSys β) : s.lines.scFlags = s.mem.scache.flags := rfl
@[simp] theorem lines_scTags (s : XrCachedSys β) : s.lines.scTags = s.mem.scache.tags := rfl
@[simp] theorem lines_scIds (s : XrCachedSys β) : s.lines.scIds = s.mem.scache.exclusiveIds := rfl

@[simp] theorem cache_onCache (p : Nat) (f : XrCache → XrCache) (s : XrCachedSys β) (q : Nat) :
    (onCache p f s).cache q = if q = p then f (s.cache p) else s.cache q := by
  simp only [cache, onCache, XrCachedMem.setCache_caches, Function.update_apply]

@[simp] theorem scache_onCache (p : Nat) (f : XrCache → XrCache) (s : XrCachedSys β) :
    (onCache p f s).mem.scache = s.mem.scache := rfl
@[simp] theorem cache_onScache (f : XrScache → XrScache) (s : XrCachedSys β) (q : Nat) :
    (onScache f s).cache q = s.cache q := rfl
@[simp] theorem cache_busDone {α : Type} (p : Nat) (r : EBusReply β α) (s : XrCachedSys β)
    (q : Nat) : (busDone p r s).cache q = s.cache q := rfl
@[simp] theorem scache_onScache (f : XrScache → XrScache) (s : XrCachedSys β) :
    (onScache f s).mem.scache = f s.mem.scache := rfl

theorem lines_ext {s s' : XrCachedSys β}
    (hd : ∀ p, (s'.cache p).dcFlags = (s.cache p).dcFlags ∧ (s'.cache p).dcTags = (s.cache p).dcTags ∧
      (s'.cache p).wbIndices = (s.cache p).wbIndices ∧
      (s'.cache p).dcIndexToWbIndex = (s.cache p).dcIndexToWbIndex)
    (hs : s'.mem.scache = s.mem.scache) : s'.lines = s.lines := by
  simp only [lines, hs, LineView.mk.injEq, and_true]
  exact ⟨funext fun p => (hd p).1, funext fun p => (hd p).2.1, funext fun p => (hd p).2.2.1,
    funext fun p => (hd p).2.2.2⟩

/-- Local code that leaves states, tags and write buffer of its cache alone. -/
theorem lines_onCache_same {p : Nat} {f : XrCache → XrCache} {s : XrCachedSys β}
    (h : (f (s.cache p)).dcFlags = (s.cache p).dcFlags ∧ (f (s.cache p)).dcTags = (s.cache p).dcTags ∧
      (f (s.cache p)).wbIndices = (s.cache p).wbIndices ∧
      (f (s.cache p)).dcIndexToWbIndex = (s.cache p).dcIndexToWbIndex) :
    (onCache p f s).lines = s.lines := by
  refine lines_ext (fun q => ?_) rfl
  by_cases hq : q = p
  · subst hq
    simpa using h
  · simp [hq]

@[simp] theorem lines_mergeData (p i off : Nat) (src : Nat → Byte) (length : Nat)
    (s : XrCachedSys β) : (onCache p (·.mergeData i off src length) s).lines = s.lines :=
  lines_onCache_same ⟨rfl, rfl, rfl, rfl⟩

theorem lines_setFlag (p i : Nat) (f : XrLine) (s : XrCachedSys β) :
    (onCache p (·.setFlag i f) s).lines = s.lines.setLine p i f ((s.cache p).dcTags i) := by
  simp only [lines, LineView.setLine, LineView.mk.injEq, scache_onCache, and_true]
  refine ⟨?_, ?_, ?_, ?_⟩ <;> funext q <;> by_cases hq : q = p <;>
    simp [hq, XrCache.setFlag]

theorem lines_insertWb (p w i : Nat) (s : XrCachedSys β) :
    (onCache p (·.insertWb w i) s).lines = s.lines.insertWb p w i := by
  simp only [lines, LineView.insertWb, LineView.mk.injEq, scache_onCache, and_true]
  refine ⟨?_, ?_, ?_, ?_⟩ <;> funext q <;> by_cases hq : q = p <;>
    simp [hq, XrCache.insertWb]

theorem lines_scFill (j tag p : Nat) (f : XrLine) (s : XrCachedSys β) :
    (onScache (XrScache.fill j tag p f) s).lines = s.lines.setSc j f tag p := rfl

variable {present populated : Nat → Bool}

theorem falls_clearWb {s : XrCachedSys β} (h : Coherent present populated s.lines) {p w i : Nat}
    (hw : s.lines.wb p w = some i) : Falls s.lines (onCache p (·.clearWb w i) s).lines where
  scFlags := rfl
  scTags := rfl
  scIds := rfl
  tags := by
    funext q
    by_cases hq : q = p <;> simp [hq, XrCache.clearWb]
  flags q j := by
    by_cases hq : q = p <;> simp [hq, XrCache.clearWb]
  wb {q x j} hb := by
    by_cases hq : q = p
    · subst hq
      by_cases hx : x = w
      · simp [XrCache.clearWb, hx] at hb
      · simpa [XrCache.clearWb, hx] using hb
    · simpa [hq] using hb
  inverse {q x j} := by
    by_cases hq : q = p
    · subst hq
      by_cases hx : x = w
      · subst hx
        by_cases hj : j = i
        · simp [XrCache.clearWb, hj]
        · have hb : s.lines.wbOf q j ≠ some x := fun hb => by
            rw [h.inverse.mpr hb] at hw
            exact hj (Option.some.inj hw)
          simpa [XrCache.clearWb, hj] using hb
      · by_cases hj : j = i
        · subst hj
          have hb : s.lines.wb q x ≠ some j := fun hb => by
            have hx' := h.inverse.mp hb
            rw [h.inverse.mp hw] at hx'
            exact hx (Option.some.inj hx').symm
          simpa [XrCache.clearWb, hx] using hb
        · simpa [XrCache.clearWb, hx, hj] using h.inverse (p := q) (w := x) (i := j)
    · simpa [hq] using h.inverse (p := q) (w := x) (i := j)

theorem flags_clearWb (p w i : Nat) (s : XrCachedSys β) :
    (onCache p (·.clearWb w i) s).lines.flags = s.lines.flags := by
  funext q
  by_cases hq : q = p <;> simp [hq, XrCache.clearWb]

theorem falls_setFlag {s : XrCachedSys β} (h : Coherent present populated s.lines) {p i : Nat}
    {f : XrLine} (hw : s.lines.wbOf p i = none) (hf : f.rank ≤ (s.lines.flags p i).rank) :
    Falls s.lines (onCache p (·.setFlag i f) s).lines := by
  rw [lines_setFlag]
  refine ⟨rfl, rfl, rfl, ?_, ?_, ?_, h.inverse⟩
  · funext q j
    rw [LineView.setLine_tags]
    split
    · next hqj => rw [hqj.1, hqj.2]; rfl
    · rfl
  · intro q j
    rw [LineView.setLine_flags]
    split
    · next hqj => rw [hqj.1, hqj.2]; exact hf
    · exact Nat.le_refl _
  · intro q x j hb
    exact ⟨hb, (h.buffered_setLine hw hb).trans (h.buffered hb).symm⟩

@[simp] theorem lines_nextReplacement (p : Nat) (s : XrCachedSys β) :
    (nextReplacement p s).lines = s.lines :=
  lines_onCache_same ⟨rfl, rfl, rfl, rfl⟩

theorem lines_backOut (p i j : Nat) (s : XrCachedSys β) :
    (backOut p i j s).lines =
      (s.lines.setSc j .invalid (s.mem.scache.tags j) (s.mem.scache.exclusiveIds j)).setLine p i
        .invalid ((s.cache p).dcTags i) := by
  unfold backOut
  rw [lines_setFlag, cache_onScache]
  congr 1
  simp [lines, LineView.setSc]

theorem lines_storeToLine (p w i : Nat) (a : XrAccessReq) (s : XrCachedSys β) :
    (storeToLine p w i a s).lines = s.lines.insertWb p w i := by
  rw [← lines_insertWb]
  refine lines_ext (fun q => ?_) rfl
  by_cases hq : q = p <;> simp [storeToLine, hq, XrCache.mergeData, XrCache.setData]

variable [EBus β]

@[simp] theorem cache_writeLine (p tag i : Nat) (s : XrCachedSys β) (q : Nat) :
    (writeLine p tag i s).cache q = s.cache q := rfl
@[simp] theorem scache_writeLine (p tag i : Nat) (s : XrCachedSys β) :
    (writeLine p tag i s).mem.scache = s.mem.scache := rfl
@[simp] theorem lines_writeLine (p tag i : Nat) (s : XrCachedSys β) :
    (writeLine p tag i s).lines = s.lines := rfl

/-- The stretch that writes a buffered line out. -/
theorem falls_writeOut {s : XrCachedSys β} (h : Coherent present populated s.lines) {p w i : Nat}
    (tag : Nat) (hw : s.lines.wb p w = some i) :
    Falls s.lines (onCache p (·.clearWb w i) (writeLine p tag i s)).lines :=
  falls_clearWb (s := writeLine p tag i s) h hw

theorem falls_forceWriteOut {s : XrCachedSys β} (h : Coherent present populated s.lines)
    (p tag i : Nat) : Falls s.lines (forceWriteOut p tag i s).lines := by
  unfold forceWriteOut
  split
  · exact h.refl_falls
  · next w hw => exact falls_writeOut h tag (h.inverse.mpr hw)

theorem wbOf_forceWriteOut (p tag i : Nat) (s : XrCachedSys β) :
    (forceWriteOut p tag i s).lines.wbOf p i = none := by
  unfold forceWriteOut
  split
  · next hw => exact hw
  · simp [XrCache.clearWb]

theorem flags_forceWriteOut (p tag i : Nat) (s : XrCachedSys β) :
    (forceWriteOut p tag i s).lines.flags = s.lines.flags := by
  unfold forceWriteOut
  split
  · rfl
  · exact flags_clearWb p _ i (writeLine p tag i s)

/-- Lowering line `i` of `p`: the line is written out first if need be. -/
theorem falls_lower {s : XrCachedSys β} (h : Coherent present populated s.lines) {p i : Nat}
    {f : XrLine} (tag : Nat) (hf : f.rank ≤ (s.lines.flags p i).rank) :
    Falls s.lines (onCache p (·.setFlag i f) (forceWriteOut p tag i s)).lines := by
  have hout := falls_forceWriteOut h p tag i
  refine hout.trans (falls_setFlag (h.falls hout) (wbOf_forceWriteOut p tag i s) ?_)
  rwa [flags_forceWriteOut]

theorem flags_lower (p i : Nat) (f : XrLine) (tag : Nat) (s : XrCachedSys β) (q j : Nat) :
    (onCache p (·.setFlag i f) (forceWriteOut p tag i s)).lines.flags q j =
      if q = p ∧ j = i then f else s.lines.flags q j := by
  rw [lines_setFlag, LineView.setLine_flags, flags_forceWriteOut]

theorem falls_downgrade {s : XrCachedSys β} (h : Coherent present populated s.lines)
    (p tag : Nat) (f : XrLine) : Falls s.lines (downgrade p tag f s).lines := by
  unfold downgrade
  split
  · exact h.refl_falls
  · next i hi =>
      have hi' := List.find?_some hi
      simp only [Bool.and_eq_true, decide_eq_true_eq] at hi'
      exact falls_lower h tag (Nat.le_of_lt hi'.1)

/-- `XrDowngradeLine` changes the state of the line of `tag` alone. -/
theorem flags_downgrade {s : XrCachedSys β} (h : Coherent present populated s.lines)
    (p tag : Nat) (f : XrLine) (q j : Nat) :
    (downgrade p tag f s).lines.flags q j =
      if q = p ∧ s.lines.tags p j = tag ∧ f.rank < (s.lines.flags p j).rank then f
      else s.lines.flags q j := by
  have hvalid : ∀ i, f.rank < (s.lines.flags p i).rank → s.lines.flags p i ≠ .invalid := by
    intro i hi h0
    rw [h0] at hi
    exact absurd hi (Nat.not_lt_zero _)
  unfold downgrade
  split
  · next hnone =>
      rw [if_neg]
      rintro ⟨rfl, htag, hrank⟩
      have hplace := (h.placed ⟨hvalid j hrank, htag⟩).1
      have hj := List.find?_eq_none.mp hnone j (mem_xrDcWays.mpr hplace)
      simp only [lines_tags, lines_flags] at htag hrank
      simp [htag, hrank] at hj
  · next i hi =>
      have hi' := List.find?_some hi
      simp only [Bool.and_eq_true, decide_eq_true_eq, beq_iff_eq] at hi'
      rw [flags_lower]
      by_cases hj : j = i
      · subst hj
        simp [hi']
      · rw [if_neg fun hqj => hj hqj.2, if_neg]
        rintro ⟨-, htag, hrank⟩
        exact hj (h.unique ⟨hvalid j hrank, htag⟩ ⟨hvalid i hi'.1, hi'.2⟩)

theorem falls_evictLine {s : XrCachedSys β} (h : Coherent present populated s.lines)
    (p i : Nat) : Falls s.lines (evictLine p i s).lines := by
  unfold evictLine
  split
  · exact h.refl_falls
  · exact falls_lower h _ (Nat.zero_le _)

theorem flags_evictLine (p i : Nat) (s : XrCachedSys β) (q j : Nat) :
    (evictLine p i s).lines.flags q j = if q = p ∧ j = i then .invalid else s.lines.flags q j := by
  unfold evictLine
  split
  · next h0 =>
      split
      · next hqj => rw [hqj.1, hqj.2]; exact h0
      · rfl
  · rw [flags_lower]

theorem lines_readLine (p tag i : Nat) (s : XrCachedSys β) :
    (readLine p tag i s).2.lines = s.lines := by
  unfold readLine
  dsimp only
  split
  · rfl
  · exact lines_onCache_same (s := busDone p _ s) ⟨rfl, rfl, rfl, rfl⟩

theorem lines_fillLine (p i tag : Nat) (f : XrLine) (s : XrCachedSys β) :
    (fillLine p i tag f s).2.lines = s.lines.setLine p i f tag := by
  unfold fillLine
  rw [lines_readLine]
  simp only [lines, LineView.setLine, LineView.mk.injEq, scache_onCache, and_true]
  refine ⟨?_, ?_, ?_, ?_⟩ <;> funext q <;> by_cases hq : q = p <;>
    simp [hq, XrCache.setLine]

end XrCachedSys

/-! ## The rest of the machine -/

/-- What is fixed in a run: the processors' numbers, which of them exist, and
which RAM lines answer. `abort()` has not been called. -/
structure Plant (present populated : Nat → Bool) (s : XrCachedSys LineRam) : Prop where
  ids : ∀ p, (s.procs p).id = p
  table : s.mem.present = present
  ram : s.mem.bus.populated = populated
  running : s.mem.aborted = false

namespace Plant

open XrCachedSys

variable {present populated : Nat → Bool} {s : XrCachedSys LineRam}

theorem onCache (h : Plant present populated s) (p : Nat) (f : XrCache → XrCache) :
    Plant present populated (onCache p f s) :=
  ⟨h.ids, h.table, h.ram, h.running⟩

theorem onScache (h : Plant present populated s) (f : XrScache → XrScache) :
    Plant present populated (onScache f s) :=
  ⟨h.ids, h.table, h.ram, h.running⟩

theorem busDone (h : Plant present populated s) {α : Type} (p : Nat) {r : EBusReply LineRam α}
    (hr : r.bus.populated = s.mem.bus.populated) : Plant present populated (busDone p r s) := by
  refine ⟨fun q => ?_, h.table, hr.trans h.ram, h.running⟩
  by_cases hq : q = p
  · subst hq
    simpa [XrCachedSys.busDone] using h.ids q
  · simpa [XrCachedSys.busDone, hq] using h.ids q

theorem writeLine (h : Plant present populated s) (p tag i : Nat) :
    Plant present populated (writeLine p tag i s) := by
  apply h.busDone
  simp only [EBus.write]
  split <;> rfl

theorem forceWriteOut (h : Plant present populated s) (p tag i : Nat) :
    Plant present populated (forceWriteOut p tag i s) := by
  unfold XrCachedSys.forceWriteOut
  split
  · exact h
  · exact (h.writeLine p tag i).onCache p _

theorem downgrade (h : Plant present populated s) (p tag : Nat) (f : XrLine) :
    Plant present populated (downgrade p tag f s) := by
  unfold XrCachedSys.downgrade
  split
  · exact h
  · exact (h.forceWriteOut p tag _).onCache p _

theorem evictLine (h : Plant present populated s) (p i : Nat) :
    Plant present populated (evictLine p i s) := by
  unfold XrCachedSys.evictLine
  split
  · exact h
  · exact (h.forceWriteOut p _ i).onCache p _

theorem readLine (h : Plant present populated s) (p tag i : Nat) :
    Plant present populated (readLine p tag i s).2 := by
  unfold XrCachedSys.readLine
  dsimp only
  have hr : (EBus.read s.mem.bus (s.procs p) tag 16).bus.populated = s.mem.bus.populated := rfl
  split
  · exact h.busDone p hr
  · next bytes _ => exact (h.busDone p hr).onCache p (·.setData i bytes)

theorem fillLine (h : Plant present populated s) (p i tag : Nat) (f : XrLine) :
    Plant present populated (fillLine p i tag f s).2 :=
  (h.onCache p _).readLine p tag i

theorem busError (h : Plant present populated s) (p address : Nat) :
    Plant present populated (busError p address s) := by
  unfold XrCachedSys.busError
  dsimp only
  refine ⟨fun q => ?_, ?_, ?_, ?_⟩
  · by_cases hq : q = p
    · subst hq
      simpa [setMachine, machine] using h.ids q
    · simpa [setMachine, hq] using h.ids q
  all_goals
    simp only [setMachine, xrBasicException_mem]
    split
  · exact h.table
  · exact h.table
  · exact h.ram
  · exact h.ram
  · exact h.running
  · exact h.running

/-- RAM reads answer by address only. -/
theorem answered (h : Plant present populated s) (p i : Nat) {tag : Nat} (ha : tag % 16 = 0) :
    (XrCachedSys.readLine p tag i s).1 = populated tag := by
  have ht : xrLineTag tag = tag := by
    simp only [xrLineTag]
    omega
  unfold XrCachedSys.readLine
  simp only [EBus.read, ht, h.ram]
  cases populated tag <;> rfl

end Plant

namespace XrCachedSys

variable {present populated : Nat → Bool} {s : XrCachedSys LineRam}

/-- A bus error with `EB = 0` resets the processor, which forgets its write buffer. -/
theorem mem_busError (hp : Plant present populated s) (p address : Nat) :
    (busError p address s).mem =
      if (s.procs p).cr crEb = 0 then (onCache p XrCache.reset s).mem else s.mem := by
  have hid : (s.machine p).proc.id = p := hp.ids p
  simp only [busError, setMachine, xrBasicException_mem, Machine.setCr_proc, XrProcessor.setCr_id,
    hid]
  rfl

theorem falls_reset (h : Coherent present populated s.lines) (p : Nat) :
    Falls s.lines (onCache p XrCache.reset s).lines where
  scFlags := rfl
  scTags := rfl
  scIds := rfl
  tags := by
    funext q
    by_cases hq : q = p <;> simp [hq, XrCache.reset]
  flags q i := by
    by_cases hq : q = p <;> simp [hq, XrCache.reset]
  wb {q w i} hb := by
    by_cases hq : q = p
    · simp [hq, XrCache.reset] at hb
    · simpa [hq] using hb
  inverse {q w i} := by
    by_cases hq : q = p
    · simp [hq, XrCache.reset]
    · simpa [hq] using h.inverse (p := q) (w := w) (i := i)

theorem lines_busError (hp : Plant present populated s) (p address : Nat) :
    (busError p address s).lines =
      if (s.procs p).cr crEb = 0 then (onCache p XrCache.reset s).lines else s.lines := by
  have hmem := mem_busError hp p address
  split at hmem
  · rw [if_pos ‹_›]
    simp only [lines, cache, hmem]
  · rw [if_neg ‹_›]
    simp only [lines, cache, hmem]

theorem falls_busError (hp : Plant present populated s) (h : Coherent present populated s.lines)
    (p address : Nat) : Falls s.lines (busError p address s).lines := by
  rw [lines_busError hp]
  split
  · exact falls_reset h p
  · exact h.refl_falls

theorem flags_busError (hp : Plant present populated s) (p address : Nat) :
    (busError p address s).lines.flags = s.lines.flags := by
  rw [lines_busError hp]
  split
  · funext q
    by_cases hq : q = p <;> simp [hq, XrCache.reset]
  · rfl

end XrCachedSys

/-! ## The Dcache line of a miss -/

/-- The invariant of the whole machine. -/
structure CacheInv (present populated : Nat → Bool) (s : XrCachedSys LineRam) : Prop where
  plant : Plant present populated s
  lines : Coherent present populated s.lines

/-- Every Dcache and Scache line is invalid and the write buffers are empty. -/
structure ColdStart (s : XrCachedSys LineRam) : Prop where
  ids : ∀ p, (s.procs p).id = p
  dcache : ∀ p i, (s.cache p).dcFlags i = .invalid
  buffers : ∀ p i, (s.cache p).wbIndices i = none ∧ (s.cache p).dcIndexToWbIndex i = none
  scache : ∀ j, s.mem.scache.flags j = .invalid
  running : s.mem.aborted = false

theorem coldStart_cold (n : Nat) (ram : LineRam) : ColdStart (cold n ram) :=
  ⟨fun _ => rfl, fun _ _ => rfl, fun _ _ => ⟨rfl, rfl⟩, fun _ => rfl, rfl⟩

theorem ColdStart.inv {s : XrCachedSys LineRam} (h : ColdStart s) :
    CacheInv s.mem.present s.mem.bus.populated s := by
  have hno : ∀ {p i t}, ¬s.lines.Has p i t := fun hi => hi.1 (h.dcache _ _)
  refine ⟨⟨h.ids, rfl, rfl, h.running⟩, ⟨fun hi => (hno hi).elim, fun hi => (hno hi).elim,
    fun hi => (hno hi).elim, fun hj => absurd (h.scache _) hj, fun hi => (hno hi).elim, ?_,
    fun hi => (hno hi).elim, fun hi => (hno hi).elim, ?_, ?_, ?_⟩⟩
  · intro p i hx
    rw [show s.lines.flags p i = .invalid from h.dcache p i] at hx
    cases hx
  · intro p w i
    simp [(h.buffers p w).1, (h.buffers p i).2]
  · intro p w i hw
    rw [show s.lines.wb p w = none from (h.buffers p w).1] at hw
    cases hw
  · intro p w i hw
    rw [show s.lines.wb p w = none from (h.buffers p w).1] at hw
    cases hw

/-- The Scache has the line of `tag` in state `f` for `p`. -/
structure Claimed (p tag : Nat) (f : XrLine) (v : LineView) : Prop where
  flags : v.scFlags (xrScSetNumber tag) = f
  tags : v.scTags (xrScSetNumber tag) = tag
  ids : v.scIds (xrScSetNumber tag) = p

theorem scMutex_set {tag : Nat} (ha : tag % 16 = 0) :
    scMutex (xrScSetNumber tag) = xrMutexIndex tag :=
  (xrMutexIndex_of_scSet ha).symm

theorem newstate_ne_invalid (a : XrAccessReq) : a.newstate ≠ .invalid := by
  unfold XrAccessReq.newstate
  split <;> simp

section Miss

variable {present populated : Nat → Bool} {s : XrCachedSys LineRam} {p : Nat} {a : XrAccessReq}

theorem replacedLine_set (s : XrCachedSys LineRam) (p : Nat) (a : XrAccessReq) :
    xrDcSetNumber a.tag = replacedLine s p a / 2 := by
  rw [XrAccessReq.tag, xrDcSetNumber_lineTag]
  simp only [replacedLine]
  omega

theorem falls_makeRoom (h : Coherent present populated s.lines) (p : Nat) (a : XrAccessReq) :
    Falls s.lines (makeRoom p a s).lines := by
  rw [← lines_nextReplacement p s] at h ⊢
  exact falls_evictLine h p _

theorem flags_makeRoom (s : XrCachedSys LineRam) (p : Nat) (a : XrAccessReq) (q j : Nat) :
    (makeRoom p a s).lines.flags q j =
      if q = p ∧ j = replacedLine s p a then .invalid else s.lines.flags q j := by
  rw [makeRoom, flags_evictLine, lines_nextReplacement]

/-- The replaced line is in no write buffer. -/
theorem wbOf_makeRoom (h : Coherent present populated s.lines) :
    (makeRoom p a s).lines.wbOf p (replacedLine s p a) = none := by
  refine (h.falls (falls_makeRoom h p a)).not_buffered ?_
  rw [flags_makeRoom, if_pos ⟨rfl, rfl⟩]
  simp

theorem lines_replaceLine (s : XrCachedSys LineRam) (p : Nat) (a : XrAccessReq) :
    (replaceLine p a s).2.lines =
      (makeRoom p a s).lines.setLine p (replacedLine s p a) a.newstate a.tag :=
  lines_fillLine p _ _ _ _

theorem wbOf_replaceLine (h : Coherent present populated s.lines) :
    (replaceLine p a s).2.lines.wbOf p (replacedLine s p a) = none := by
  rw [lines_replaceLine]
  exact wbOf_makeRoom h

theorem Plant.makeRoom (h : Plant present populated s) (p : Nat) (a : XrAccessReq) :
    Plant present populated (makeRoom p a s) :=
  (h.onCache p _ : Plant present populated (nextReplacement p s)).evictLine p _

theorem Plant.replaceLine (h : Plant present populated s) (p : Nat) (a : XrAccessReq) :
    Plant present populated (replaceLine p a s).2 :=
  (h.makeRoom p a).fillLine p _ _ _

theorem answered_replaceLine (h : Plant present populated s) :
    (replaceLine p a s).1.2 = populated a.tag :=
  ((h.makeRoom p a).onCache p (·.setLine (replacedLine s p a) a.newstate a.tag)).answered p _
    (xrLineTag_aligned _)

theorem Claimed.falls {v v' : LineView} {tag : Nat} {f : XrLine} (h : Claimed p tag f v)
    (hf : Falls v v') : Claimed p tag f v' :=
  ⟨by rw [hf.scFlags, h.flags], by rw [hf.scTags, h.tags], by rw [hf.scIds, h.ids]⟩

/-- The missing line, claimed in the Scache, may be filled in. -/
theorem coherent_replaceLine (h : CacheInv present populated s)
    (hcl : Claimed p a.tag a.newstate s.lines) (hmiss : ∀ i, ¬s.lines.Has p i a.tag)
    (hp : present p = true ∧ p < xrProcMax) (hpop : populated a.tag = true) :
    Coherent present populated (replaceLine p a s).2.lines := by
  have hf := falls_makeRoom h.lines p a
  have hcl' := hcl.falls hf
  rw [lines_replaceLine]
  exact (h.lines.falls hf).setLine (wbOf_makeRoom h.lines) (replacedLine_set s p a)
    (xrLineTag_aligned _) hpop hp ⟨hcl'.flags, hcl'.tags⟩ (fun _ => hcl'.ids)
    fun j _ hj => hmiss j (hf.has hj)

/-- The Scache entry of a line that was found may take the state of the access,
once no Dcache stands in its way. -/
theorem coherent_setScState (h : CacheInv present populated s)
    (hvalid : s.lines.scFlags (xrScSetNumber a.tag) ≠ .invalid)
    (htag : s.lines.scTags (xrScSetNumber a.tag) = a.tag)
    (hall : a.read = false → ∀ q i, ¬s.lines.Has q i a.tag)
    (hx : ∀ q i, s.lines.flags q i = .exclusive → s.lines.tags q i ≠ a.tag) :
    Coherent present populated
      (s.lines.setSc (xrScSetNumber a.tag) a.newstate (s.lines.scTags (xrScSetNumber a.tag)) p) := by
  refine h.lines.setScState hvalid (newstate_ne_invalid a) (fun hex q i u hi hset => ?_)
    fun _ q i hqx hset => ?_
  · have hread : a.read = false := by
      cases hr : a.read with
      | false => rfl
      | true => simp [XrAccessReq.newstate, hr] at hex
    have hu := (h.lines.included hi).2
    rw [hset, htag] at hu
    exact absurd (hu ▸ hi) (hall hread q i)
  · have hu := (h.lines.included (p := q) (i := i) ⟨by rw [hqx]; simp, rfl⟩).2
    rw [hset, htag] at hu
    exact hx q i hqx hu.symm

theorem lines_backOut_replaceLine (s : XrCachedSys LineRam) (p j : Nat) (a : XrAccessReq) :
    (backOut p (replaceLine p a s).1.1 j (replaceLine p a s).2).lines =
      ((makeRoom p a s).lines.setSc j .invalid ((replaceLine p a s).2.mem.scache.tags j)
        ((replaceLine p a s).2.mem.scache.exclusiveIds j)).setLine p (replacedLine s p a) .invalid
        (((replaceLine p a s).2.cache p).dcTags (replaceLine p a s).1.1) := by
  rw [lines_backOut, lines_replaceLine]
  exact LineView.setLine_setSc_setLine _ _ _ _ _ _ _ _ _ _ _

/-- No Dcache has a line that does not answer, so its Scache entry may go. -/
theorem coherent_backOut (h : CacheInv present populated s)
    (hcl : Claimed p a.tag a.newstate s.lines) (hpop : populated a.tag = false) :
    Coherent present populated
      (backOut p (replaceLine p a s).1.1 (xrScSetNumber a.tag) (replaceLine p a s).2).lines := by
  have hf := falls_makeRoom h.lines p a
  have hco := h.lines.falls hf
  rw [lines_backOut_replaceLine]
  refine (hco.setSc (fun q i t hi ht => ?_) (by simp)).setInvalid (wbOf_makeRoom h.lines)
  have htag := (hco.included hi).2
  rw [ht, (hcl.falls hf).tags] at htag
  have hans := hco.populated hi
  rw [← htag, hpop] at hans
  cases hans

/-! ## Upgrade and search -/

theorem lines_makeExclusive {index j : Nat} (ht : s.lines.tags p index = a.tag) :
    (makeExclusive p index j s).lines =
      (s.lines.setSc j .exclusive (s.lines.scTags j) p).setLine p index .exclusive a.tag := by
  rw [makeExclusive, lines_setFlag, cache_onScache, ← ht]
  have hsc : (onScache (XrScache.setState j p .exclusive) s).lines =
      s.lines.setSc j .exclusive (s.lines.scTags j) p := by
    simp [lines, LineView.setSc, XrScache.setState]
  rw [hsc]
  rfl

/-- A shared line of `p` that nobody else has may become exclusive. The
processor's own copy may have been taken away on the way. -/
theorem coherent_makeExclusive (h : CacheInv present populated s) {index : Nat}
    (ht : s.lines.tags p index = a.tag) (hx : s.lines.flags p index ≠ .exclusive)
    (hplace : xrDcSetNumber a.tag = index / 2) (hpop : populated a.tag = true)
    (hp : present p = true ∧ p < xrProcMax)
    (hsc : s.lines.scFlags (xrScSetNumber a.tag) ≠ .invalid ∧
      s.lines.scTags (xrScSetNumber a.tag) = a.tag)
    (hall : ∀ q i, q ≠ p → ¬s.lines.Has q i a.tag)
    (hnew : ∀ j, j ≠ index → ¬s.lines.Has p j a.tag) :
    Coherent present populated (makeExclusive p index (xrScSetNumber a.tag) s).lines := by
  have hstate : Coherent present populated
      (s.lines.setSc (xrScSetNumber a.tag) .exclusive (s.lines.scTags (xrScSetNumber a.tag)) p) := by
    refine h.lines.setScState hsc.1 (by simp) (fun _ q i u hi hset => ?_) (by simp)
    have hu := (h.lines.included hi).2
    rw [hset, hsc.2] at hu
    by_contra hq
    exact hall q i hq (hu ▸ hi)
  rw [lines_makeExclusive ht]
  exact hstate.setLine (h.lines.not_buffered hx) hplace (xrLineTag_aligned _) hpop hp
    ⟨by simp [LineView.setSc], by simpa [LineView.setSc] using hsc.2⟩
    (fun _ => by simp [LineView.setSc]) hnew

/-- The line made exclusive may enter the write buffer. -/
theorem coherent_upgrade (h : CacheInv present populated s) {fw index : Nat}
    (ht : s.lines.tags p index = a.tag) (hx : s.lines.flags p index ≠ .exclusive)
    (hfw : s.lines.wb p fw = none ∧ fw < 4)
    (hco : Coherent present populated (makeExclusive p index (xrScSetNumber a.tag) s).lines) :
    Coherent present populated
      ((makeExclusive p index (xrScSetNumber a.tag) s).lines.insertWb p fw index) := by
  have hl := lines_makeExclusive (j := xrScSetNumber a.tag) ht
  refine hco.insertWb ?_ ?_ hfw.2 ?_
  · rw [hl]
    exact hfw.1
  · rw [hl]
    exact h.lines.not_buffered hx
  · rw [hl, LineView.setLine_flags, if_pos ⟨rfl, rfl⟩]

/-- A write-buffer search that fails has seen no entry of the line; the entry it
leaves in `freewbindex` is free. -/
theorem searchWb_miss {c : XrCache} {tag : Nat} {is : List Nat} {fw out : Option Nat}
    (h : searchWb c tag is fw = .miss out) :
    (∀ w i, w ∈ is → c.wbIndices w = some i → c.dcTags i ≠ tag) ∧
      ((∃ w, out = some w ∧ w ∈ is ∧ c.wbIndices w = none) ∨ out = fw) := by
  induction is generalizing fw with
  | nil =>
      cases h
      exact ⟨by simp, Or.inr rfl⟩
  | cons x is ih =>
      unfold searchWb at h
      split at h
      · next hx =>
          have hrest := ih h
          refine ⟨fun w i hw hwi => ?_, Or.inl ?_⟩
          · rcases List.mem_cons.mp hw with rfl | hw
            · rw [hx] at hwi
              cases hwi
            · exact hrest.1 w i hw hwi
          · rcases hrest.2 with ⟨w, hout, hw, hfree⟩ | hout
            · exact ⟨w, hout, List.mem_cons_of_mem x hw, hfree⟩
            · exact ⟨x, hout, List.mem_cons_self, hx⟩
      · next index hx =>
          split at h
          · cases h
          · next htag =>
              have hrest := ih h
              refine ⟨fun w i hw hwi => ?_, ?_⟩
              · rcases List.mem_cons.mp hw with rfl | hw
                · rw [hx] at hwi
                  cases hwi
                  exact htag
                · exact hrest.1 w i hw hwi
              · rcases hrest.2 with ⟨w, hout, hw, hfree⟩ | hout
                · exact Or.inl ⟨w, hout, List.mem_cons_of_mem x hw, hfree⟩
                · exact Or.inr hout

/-- A search that leaves `freewbindex` unset has seen a full write buffer. -/
theorem searchWb_full {c : XrCache} {tag : Nat} {is : List Nat} {fw : Option Nat}
    (h : searchWb c tag is fw = .miss none) : fw = none ∧ ∀ w ∈ is, c.wbIndices w ≠ none := by
  induction is generalizing fw with
  | nil =>
      cases h
      exact ⟨rfl, by simp⟩
  | cons x is ih =>
      unfold searchWb at h
      split at h
      · exact absurd (ih h).1 (by simp)
      · next i hx =>
          split at h
          · cases h
          · refine ⟨(ih h).1, fun w hw => ?_⟩
            rcases List.mem_cons.mp hw with rfl | hw
            · simp [hx]
            · exact (ih h).2 w hw

/-- A write-buffer search that succeeds has found an entry of the line. -/
theorem searchWb_hit {c : XrCache} {tag index : Nat} {is : List Nat} {fw : Option Nat}
    (h : searchWb c tag is fw = .hit index) :
    ∃ w, c.wbIndices w = some index ∧ c.dcTags index = tag := by
  induction is generalizing fw with
  | nil => cases h
  | cons x is ih =>
      unfold searchWb at h
      split at h
      · exact ih h
      · next i hx =>
          split at h
          · next htag =>
              cases h
              exact ⟨x, hx, htag⟩
          · exact ih h

/-- After a failed search the line itself is in no write buffer entry. -/
theorem Coherent.wbOf_of_miss (h : Coherent present populated s.lines) {tag index : Nat}
    {fw out : Option Nat} (hs : searchWb (s.cache p) tag xrWbEntries fw = .miss out)
    (ht : s.lines.tags p index = tag) : s.lines.wbOf p index = none := by
  cases hb : s.lines.wbOf p index with
  | none => rfl
  | some w =>
      have hw := h.inverse.mpr hb
      have hlt := h.depth hw
      refine absurd ht ((searchWb_miss hs).1 w index ?_ hw)
      simp only [xrWbEntries, List.mem_cons, List.not_mem_nil, or_false]
      omega

theorem findLine_some {c : XrCache} {tag index : Nat} (h : c.findLine tag = some index) :
    c.dcFlags index ≠ .invalid ∧ c.dcTags index = tag := by
  simpa [XrCache.holds] using List.find?_some h

theorem Coherent.findLine_none (h : Coherent present populated s.lines) {tag : Nat}
    (hf : (s.cache p).findLine tag = none) (i : Nat) : ¬s.lines.Has p i tag := by
  intro hi
  have hw := List.find?_eq_none.mp hf i (mem_xrDcWays.mpr (h.placed hi).1)
  simp only [XrCache.holds, Bool.and_eq_true, bne_iff_ne, beq_iff_eq, not_and] at hw
  exact hw hi.1 hi.2

end Miss

end Xremu
