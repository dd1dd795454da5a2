import Xremu.Cached.Access

/-!
# What leaves the write buffers has been written

A line enters a write buffer with a store and leaves it when it is written out, by a
flush, a downgrade or an eviction, whoever causes it. `Drains` says so of code that
stores nothing: an entry that is gone has its bytes in RAM, one that is left still stands
for the same line with the same bytes, and the RAM of other lines is as it was. It
composes, because no line is in two write buffers.

An access drains first and then either stores (`Stored`), or takes a bus error, or does
neither (`AccessMoves`). `Buffers` is the byte view of the same facts, which the runs of
the interpreter go by.
-/

namespace Xremu

open Concurrency XrCachedSys

/-! ## Programs made of downgrades -/

section

variable {β : Type} [EBus β] {R : XrCachedSys β → XrCachedSys β → Prop}

/-- `R` allows to do nothing and to downgrade a line. -/
structure AllowsDowngrades (R : XrCachedSys β → XrCachedSys β → Prop) : Prop where
  refl : ∀ s, R s s
  downgrade : ∀ q tag newstate s, R s (downgrade q tag newstate s)

namespace AllowsDowngrades

theorem downgradeLine (h : AllowsDowngrades R) (q tag : Nat) (newstate : XrLine) :
    (xrDowngradeLine q tag newstate : XrCode β Unit).Keeps R := by
  refine Prog.keeps_bind (Prog.keeps_acquire _) fun _ => ?_
  refine Prog.keeps_bind (Prog.keeps_modify (h.downgrade q tag newstate)) fun _ => ?_
  exact Prog.keeps_release _

theorem downgradeProcs (h : AllowsDowngrades R) (thisproc : Option Nat) (tag : Nat)
    (newstate : XrLine) (procs : List Nat) :
    (downgradeProcs thisproc tag newstate procs : XrCode β Unit).Keeps R := by
  induction procs with
  | nil => exact Prog.keeps_pure ()
  | cons i is ih =>
      refine Prog.keeps_bind (Prog.keeps_get h.refl) fun s => ?_
      split
      · exact ih
      · exact Prog.keeps_bind (h.downgradeLine i tag newstate) fun _ => ih

theorem downgradeAll (h : AllowsDowngrades R) (thisproc : Option Nat) (tag : Nat)
    (newstate : XrLine) : (xrDowngradeAll thisproc tag newstate : XrCode β Unit).Keeps R :=
  h.downgradeProcs thisproc tag newstate _

theorem stealScacheEntry (h : AllowsDowngrades R) (index : Nat) :
    (stealScacheEntry index : XrCode β Unit).Keeps R := by
  refine Prog.keeps_bind (Prog.keeps_get h.refl) fun s => ?_
  split
  · exact Prog.keeps_pure ()
  · exact h.downgradeAll none _ .invalid
  · exact h.downgradeLine _ _ .invalid

theorem downgradeHolders (h : AllowsDowngrades R) (index : Nat) (a : XrAccessReq) :
    (downgradeHolders index a : XrCode β Unit).Keeps R := by
  refine Prog.keeps_bind (Prog.keeps_get h.refl) fun s => ?_
  split
  · exact h.downgradeLine _ a.tag _
  · split
    · exact Prog.keeps_pure ()
    · exact h.downgradeAll none a.tag .invalid
  · exact Prog.keeps_pure ()

theorem downgradeOthers (h : AllowsDowngrades R) (q index : Nat) (a : XrAccessReq) :
    (downgradeOthers q index a : XrCode β Unit).Keeps R := by
  refine Prog.keeps_bind (Prog.keeps_get h.refl) fun s => ?_
  split
  · exact h.downgradeAll _ a.tag .invalid
  · exact h.downgradeLine _ a.tag .invalid
  · exact Prog.keeps_pure ()

end AllowsDowngrades

end

/-! ## Draining -/

/-- Entries of the write buffers are left alone or written out. -/
structure Drains (s s' : XrCachedSys LineRam) : Prop where
  stay : ∀ {q w i}, s'.lines.wb q w = some i → s.lines.wb q w = some i ∧
    s'.lines.tags q i = s.lines.tags q i ∧ (s'.cache q).dc i = (s.cache q).dc i
  out : ∀ {q w i}, s.lines.wb q w = some i → s'.lines.wb q w ≠ some i →
    ∀ k, k < 16 → s'.mem.bus.bytes (s.lines.tags q i + k) = (s.cache q).dc i k
  ram : ∀ {t}, t % 16 = 0 → (∀ q w i, s.lines.wb q w = some i → s.lines.tags q i ≠ t) →
    ∀ k, k < 16 → s'.mem.bus.bytes (t + k) = s.mem.bus.bytes (t + k)
  cycles : ∀ q, (s.cache q).wbCycles ≠ 0 → (s'.cache q).wbCycles ≠ 0

section

variable {present populated : Nat → Bool} {s s' s'' : XrCachedSys LineRam}

/-- A line is in one write buffer entry at most. -/
theorem Coherent.buffered_once (h : Coherent present populated s.lines) {p q w x i j : Nat}
    (hp : s.lines.wb p w = some i) (hq : s.lines.wb q x = some j)
    (ht : s.lines.tags p i = s.lines.tags q j) : p = q ∧ w = x ∧ i = j := by
  have hhas : s.lines.Has q j (s.lines.tags q j) := ⟨by rw [h.buffered hq]; simp, rfl⟩
  obtain rfl : q = p := h.exclusive_alone (h.buffered hp) ht hhas
  have hij : i = j := h.unique ⟨by rw [h.buffered hp]; simp, ht⟩ hhas
  subst hij
  have hw : some w = some x := (h.inverse.mp hp).symm.trans (h.inverse.mp hq)
  exact ⟨rfl, Option.some.inj hw, rfl⟩

theorem Coherent.buffered_aligned (h : Coherent present populated s.lines) {p w i : Nat}
    (hp : s.lines.wb p w = some i) : s.lines.tags p i % 16 = 0 := by
  have hhas : s.lines.Has p i (s.lines.tags p i) := ⟨by rw [h.buffered hp]; simp, rfl⟩
  exact (h.placed hhas).2

namespace Drains

theorem refl (s : XrCachedSys LineRam) : Drains s s where
  stay hw := ⟨hw, rfl, rfl⟩
  out hw hne := absurd hw hne
  ram _ _ _ _ := rfl
  cycles _ hc := hc

theorem trans (hi : CacheInv present populated s) (h : Drains s s') (h' : Drains s' s'') :
    Drains s s'' where
  stay hw := by
    obtain ⟨hw', htags', hdc'⟩ := h'.stay hw
    obtain ⟨hw₀, htags, hdc⟩ := h.stay hw'
    exact ⟨hw₀, htags'.trans htags, hdc'.trans hdc⟩
  out {q w i} hw hgone k hk := by
    by_cases hleft : s'.lines.wb q w = some i
    · obtain ⟨-, htags, hdc⟩ := h.stay hleft
      rw [← htags, ← hdc]
      exact h'.out hleft hgone k hk
    -- The line has left its only entry, so the second part does not write it.
    · rw [h'.ram (hi.lines.buffered_aligned hw) ?_ k hk]
      · exact h.out hw hleft k hk
      · intro r x j hx htag
        obtain ⟨hx₀, htags, -⟩ := h.stay hx
        obtain ⟨rfl, rfl, rfl⟩ := hi.lines.buffered_once hx₀ hw (htags.symm.trans htag)
        exact hleft hx
  ram {t} ht hnone k hk := by
    rw [h'.ram ht ?_ k hk, h.ram ht hnone k hk]
    intro r x j hx htag
    obtain ⟨hx₀, htags, -⟩ := h.stay hx
    exact hnone r x j hx₀ (htags.symm.trans htag)
  cycles q hc := h'.cycles q (h.cycles q hc)

/-- Local code that touches neither the write buffers nor the lines in them. -/
theorem of_same (hwb : s'.lines.wb = s.lines.wb)
    (hline : ∀ q w i, s.lines.wb q w = some i →
      s'.lines.tags q i = s.lines.tags q i ∧ (s'.cache q).dc i = (s.cache q).dc i)
    (hbytes : s'.mem.bus.bytes = s.mem.bus.bytes)
    (hcycles : ∀ q, (s'.cache q).wbCycles = (s.cache q).wbCycles) : Drains s s' where
  stay {q w i} hw := by
    rw [hwb] at hw
    exact ⟨hw, hline q w i hw⟩
  out hw hne := by
    rw [hwb] at hne
    exact absurd hw hne
  ram _ _ _ _ := by rw [hbytes]
  cycles q hc := by rwa [hcycles]

/-- The stretch that writes a buffered line out. -/
theorem writeOut (h : CacheInv present populated s) {p w i : Nat} (hw : s.lines.wb p w = some i) :
    Drains s (onCache p (·.clearWb w i) (writeLine p ((s.cache p).dcTags i) i s)) := by
  have hfalls := falls_writeOut h.lines ((s.cache p).dcTags i) hw
  have hhas : s.lines.Has p i ((s.cache p).dcTags i) := ⟨by rw [h.lines.buffered hw]; simp, rfl⟩
  have hta := (h.lines.placed hhas).2
  have hbytes := bytes_writeLine h.plant (p := p) (i := i) hta (h.lines.populated hhas)
  have hdc : ∀ q, ((onCache p (·.clearWb w i) (writeLine p ((s.cache p).dcTags i) i s)).cache q).dc =
      (s.cache q).dc := fun q => by
    by_cases hq : q = p <;> simp [hq, XrCache.clearWb]
  refine ⟨fun {q x j} hx => ?_, fun {q x j} hx hgone k hk => ?_, fun {t} ht hnone k hk => ?_,
    fun q hc => ?_⟩
  · exact ⟨(hfalls.wb hx).1, by rw [hfalls.tags], by rw [hdc]⟩
  · -- Only the entry that was written out is gone.
    have hqx : q = p ∧ x = w := by
      by_contra hne
      refine hgone ?_
      by_cases hq : q = p
      · subst hq
        have hxw : x ≠ w := fun hxw => hne ⟨rfl, hxw⟩
        simpa [XrCache.clearWb, hxw] using hx
      · simpa [hq] using hx
    obtain ⟨rfl, rfl⟩ := hqx
    rw [hw] at hx
    obtain rfl := Option.some.inj hx
    change (writeLine q ((s.cache q).dcTags i) i s).mem.bus.bytes (s.lines.tags q i + k) = _
    rw [hbytes]
    exact copyBytes_of_lt hk
  · change (writeLine p ((s.cache p).dcTags i) i s).mem.bus.bytes (t + k) = _
    have hne : (s.cache p).dcTags i ≠ t := hnone p w i hw
    rw [hbytes]
    exact copyBytes_of_not (by omega)
  · by_cases hq : q = p
    · subst hq
      simpa [XrCache.clearWb] using hc
    · simpa [hq] using hc

theorem forceWriteOut (h : CacheInv present populated s) (p i : Nat) :
    Drains s (forceWriteOut p ((s.cache p).dcTags i) i s) := by
  unfold XrCachedSys.forceWriteOut
  split
  · exact .refl s
  · next w hw => exact .writeOut h (h.lines.inverse.mpr hw)

theorem setFlag (p i : Nat) (f : XrLine) (s : XrCachedSys LineRam) :
    Drains s (onCache p (·.setFlag i f) s) := by
  refine .of_same ?_ (fun q w j _ => ?_) rfl fun q => ?_
  · funext q
    by_cases hq : q = p <;> simp [hq, XrCache.setFlag]
  · by_cases hq : q = p <;> simp [hq, XrCache.setFlag]
  · by_cases hq : q = p <;> simp [hq, XrCache.setFlag]

theorem lower (h : CacheInv present populated s) (p i : Nat) (f : XrLine) :
    Drains s (onCache p (·.setFlag i f) (XrCachedSys.forceWriteOut p ((s.cache p).dcTags i) i s)) :=
  .trans h (.forceWriteOut h p i) (.setFlag p i f _)

theorem downgrade (h : CacheInv present populated s) (p tag : Nat) (f : XrLine) :
    Drains s (downgrade p tag f s) := by
  unfold XrCachedSys.downgrade
  split
  · exact .refl s
  · next i hi =>
      have hi' := List.find?_some hi
      simp only [Bool.and_eq_true, decide_eq_true_eq, beq_iff_eq] at hi'
      rw [← hi'.2]
      exact .lower h p i f

theorem onScache (f : XrScache → XrScache) (s : XrCachedSys LineRam) :
    Drains s (onScache f s) :=
  .of_same rfl (fun _ _ _ _ => ⟨rfl, rfl⟩) rfl fun _ => rfl

theorem makeRoom (h : CacheInv present populated s) (p : Nat) (a : XrAccessReq) :
    Drains s (makeRoom p a s) := by
  have hinv : CacheInv present populated (nextReplacement p s) :=
    (Sinks.onCache_same h (lines_nextReplacement p s) rfl).inv
  have hnext : Drains s (nextReplacement p s) := by
    refine .of_same (by rw [lines_nextReplacement]) (fun q w j _ => ?_) rfl fun q => ?_
    · rw [lines_nextReplacement]
      refine ⟨rfl, ?_⟩
      by_cases hq : q = p <;> simp [nextReplacement, hq]
    · by_cases hq : q = p <;> simp [nextReplacement, hq]
  refine .trans h hnext ?_
  unfold Xremu.makeRoom evictLine
  split
  · exact .refl _
  · exact .lower hinv p _ .invalid

/-- The line a miss brings in is in no write buffer. -/
theorem replaceLine (h : CacheInv present populated s) (p : Nat) (a : XrAccessReq) :
    Drains s (replaceLine p a s).2 := by
  have hroom := Drains.makeRoom h p a
  have hout := wbOf_makeRoom (p := p) (a := a) h.lines
  have hco := h.lines.falls (falls_makeRoom h.lines p a)
  refine .trans h hroom ?_
  have hlines := lines_replaceLine s p a
  have hother : ∀ q w i, (Xremu.makeRoom p a s).lines.wb q w = some i →
      ¬(q = p ∧ i = replacedLine s p a) := by
    rintro q w i hw ⟨rfl, rfl⟩
    rw [hco.inverse.mp hw] at hout
    cases hout
  have hrest : ∀ q i, ((Xremu.replaceLine p a s).2.mem.bus.bytes =
        (Xremu.makeRoom p a s).mem.bus.bytes ∧
      ((Xremu.replaceLine p a s).2.cache q).wbCycles = ((Xremu.makeRoom p a s).cache q).wbCycles) ∧
      (¬(q = p ∧ i = replacedLine s p a) → ((Xremu.replaceLine p a s).2.cache q).dc i =
        ((Xremu.makeRoom p a s).cache q).dc i) := by
    intro q i
    simp only [Xremu.replaceLine, fillLine, readLine]
    split
    · refine ⟨⟨rfl, ?_⟩, fun _ => ?_⟩ <;> by_cases hq : q = p <;> simp [hq, XrCache.setLine]
    · refine ⟨⟨rfl, ?_⟩, fun hne => ?_⟩
      · by_cases hq : q = p <;> simp [hq, XrCache.setLine, XrCache.setData]
      · by_cases hq : q = p
        · subst hq
          have hi : i ≠ replacedLine s q a := fun hi => hne ⟨rfl, hi⟩
          simp [XrCache.setLine, XrCache.setData, hi]
        · simp [hq]
  refine .of_same ?_ (fun q w i hw => ⟨?_, (hrest q i).2 (hother q w i hw)⟩) (hrest p 0).1.1
    fun q => (hrest q 0).1.2
  · rw [hlines]
    rfl
  · rw [hlines, LineView.setLine_tags, if_neg (hother q w i hw)]

theorem backOut (p i j : Nat) (s : XrCachedSys LineRam) : Drains s (backOut p i j s) := by
  have hsc := Drains.onScache
    (fun sc => { sc with flags := Function.update sc.flags j .invalid }) s
  have hflag := Drains.setFlag p i .invalid (XrCachedSys.onScache
    (fun sc => { sc with flags := Function.update sc.flags j .invalid }) s)
  exact ⟨fun hw => ⟨(hsc.stay (hflag.stay hw).1).1, (hflag.stay hw).2⟩, fun hw hne => hflag.out hw hne,
    fun ht hnone => hflag.ram ht hnone, fun q hc => hflag.cycles q hc⟩

end Drains

/-! ### Programs -/

/-- Code that only downgrades keeps the invariant and drains. -/
theorem allowsDowngrades_drains : AllowsDowngrades fun s s' : XrCachedSys LineRam =>
    CacheInv present populated s → CacheInv present populated s' ∧ Drains s s' where
  refl t h := ⟨h, .refl t⟩
  downgrade q tag newstate _ h :=
    ⟨(Sinks.downgrade h q tag newstate).inv, .downgrade h q tag newstate⟩

theorem drains_run {α : Type} {x : XrCode LineRam α}
    (hx : x.Keeps fun s s' => CacheInv present populated s →
      CacheInv present populated s' ∧ Drains s s')
    (h : CacheInv present populated s) : Drains s (x.run s).2 := by
  refine (hx.run (fun t h => ⟨h, .refl t⟩) (fun a b c hab hbc ha => ?_) s h).2
  obtain ⟨hb, hdab⟩ := hab ha
  obtain ⟨hc, hdbc⟩ := hbc hb
  exact ⟨hc, .trans ha hdab hdbc⟩

theorem drains_flushEntries (p : Nat) (is : List Nat) (h : CacheInv present populated s) :
    Drains s ((flushEntries p is).run s).2 := by
  induction is generalizing s with
  | nil => exact .refl s
  | cons i is ih =>
      simp only [flushEntries, Prog.run_bind, Prog.run_get]
      split
      · exact ih h
      · next index hw =>
          have hne : (s.cache p).wbIndices i ≠ none := by simp [hw]
          simp only [xrLockCache, xrUnlockCache, Prog.run_bind, Prog.run_acquire, Prog.run_get,
            hne, if_false, Prog.run_modify, Prog.run_release]
          exact .trans h (.writeOut h hw) (ih (Sinks.writeOut h hw).inv)

theorem drains_xrFlushWriteBuffer (p : Nat) (h : CacheInv present populated s) :
    Drains s ((xrFlushWriteBuffer p).run s).2 := drains_flushEntries p xrWbEntries h

theorem drains_claimScacheEntry (p : Nat) (a : XrAccessReq) (h : CacheInv present populated s) :
    Drains s ((claimScacheEntry p a).run s).2 := by
  have htag : a.tag % 16 = 0 := xrLineTag_aligned _
  by_cases hf : s.mem.scache.flags (xrScSetNumber a.tag) ≠ .invalid ∧
      s.mem.scache.tags (xrScSetNumber a.tag) = a.tag
  · simp only [claimScacheEntry, Prog.run_bind, run_xrFindOrReplaceInScache_found hf,
      Bool.false_eq_true, if_false, Prog.run_modify, Prog.run_pure]
    have hrun := drains_run (allowsDowngrades_drains.downgradeHolders (xrScSetNumber a.tag) a) h
    exact .trans h hrun (.onScache _ _)
  · have hcreated := run_xrFindOrReplaceInScache_created (p := p) (f := a.newstate) htag h hf
    simp only [claimScacheEntry, Prog.run_bind, hcreated.1, if_true, Prog.run_pure]
    have hfind : xrFindInScache s.mem.scache a.tag = none := if_neg hf
    simp only [xrFindOrReplaceInScache, hfind, Prog.run_bind, Prog.run_get, Prog.run_modify,
      Prog.run_pure]
    have hinv : CacheInv present populated (nextScReplacement s) :=
      ⟨h.plant.onScache _, h.lines⟩
    have hsteal := drains_run (allowsDowngrades_drains.stealScacheEntry (xrScSetNumber a.tag)) hinv
    have hnext : Drains s (nextScReplacement s) := .onScache _ s
    exact .trans h (.trans h hnext hsteal) (.onScache _ _)

end

/-! ## Accesses -/

/-- A store to a line of `p` that is in its write buffer when it is done. -/
structure Stored (p : Nat) (a : XrAccessReq) (s s' : XrCachedSys LineRam) : Prop where
  wb : ∀ {q w i}, s.lines.wb q w = some i → s'.lines.wb q w = some i
  others : ∀ q, q ≠ p → s'.lines.wb q = s.lines.wb q
  tags : s'.lines.tags = s.lines.tags
  bytes : s'.mem.bus.bytes = s.mem.bus.bytes
  cycles : ∀ q, (s'.cache q).wbCycles = (s.cache q).wbCycles
  line : ∃ w index, s'.lines.wb p w = some index ∧ s.lines.tags p index = a.tag ∧
    ∀ q i, (s'.cache q).dc i =
      if q = p ∧ i = index then copyBytes ((s.cache q).dc i) a.lineoffset (byteOf a.srcvalue) a.length
      else (s.cache q).dc i

/-- What a round of an access of `p` does to the write buffers. -/
inductive AccessMoves (present populated : Nat → Bool) (p : Nat) (a : XrAccessReq) (s : XrCachedSys LineRam) :
    Option Nat ⊕ XrResult → XrCachedSys LineRam → Prop
  | jump {fw s'} (drains : Drains s s') : AccessMoves present populated p a s (.inl fw) s'
  | quiet {r s'} (drains : Drains s s') (ok : r.1 ≠ .fault) (done : r.1 = .done → a.read = true) :
      AccessMoves present populated p a s (.inr r) s'
  | fault {s₁} (drains : Drains s s₁) (plant : Plant present populated s₁) :
      AccessMoves present populated p a s (.inr (.fault, none)) (busError p a.address s₁)
  | stored {s₁ s'} (drains : Drains s s₁) (write : a.read = false) (stored : Stored p a s₁ s')
      (armed : (s₁.cache p).wbCycles ≠ 0 ∨ ∃ w, s₁.lines.wb p w ≠ none) :
      AccessMoves present populated p a s (.inr (.done, none)) s'

section

variable {present populated : Nat → Bool} {s s' : XrCachedSys LineRam} {p : Nat} {a : XrAccessReq}

theorem AccessMoves.after {out : Option Nat ⊕ XrResult} {s₁ : XrCachedSys LineRam}
    (hi : CacheInv present populated s) (hd : Drains s s₁) (h : AccessMoves present populated p a s₁ out s') :
    AccessMoves present populated p a s out s' := by
  cases h with
  | jump drains => exact .jump (.trans hi hd drains)
  | quiet drains ok done => exact .quiet (.trans hi hd drains) ok done
  | fault drains plant => exact .fault (.trans hi hd drains) plant
  | stored drains write stored armed => exact .stored (.trans hi hd drains) write stored armed

/-- A store into a line that the write buffer has already. -/
theorem stored_mergeData {w index : Nat} (hw : s.lines.wb p w = some index)
    (ht : s.lines.tags p index = a.tag) :
    Stored p a s
      (onCache p (·.mergeData index a.lineoffset (byteOf a.srcvalue) a.length) s) := by
  have hl := lines_mergeData p index a.lineoffset (byteOf a.srcvalue) a.length s
  refine ⟨fun hx => by rwa [hl], fun q _ => by rw [hl], by rw [hl], rfl, fun q => ?_,
    w, index, by rw [hl]; exact hw, ht, fun q i => ?_⟩
  · by_cases hq : q = p <;> simp [hq, XrCache.mergeData, XrCache.setData]
  · by_cases hq : q = p
    · subst hq
      by_cases hi : i = index
      · subst hi
        simp [XrCache.mergeData, XrCache.setData]
      · simp [XrCache.mergeData, XrCache.setData, hi]
    · simp [hq]

/-- A store into a line that takes a free entry of the write buffer. -/
theorem stored_storeToLine {fw index : Nat} (hfw : s.lines.wb p fw = none)
    (ht : s.lines.tags p index = a.tag) : Stored p a s (storeToLine p fw index a s) := by
  have hl := lines_storeToLine p fw index a s
  refine ⟨fun {q w i} hw => ?_, fun q hq => ?_, by rw [hl]; rfl, rfl, fun q => ?_,
    fw, index, by rw [hl]; simp [LineView.insertWb], ht, fun q i => ?_⟩
  · rw [hl]
    by_cases hq : q = p
    · subst hq
      have hwfw : w ≠ fw := by
        rintro rfl
        rw [hfw] at hw
        cases hw
      simpa [LineView.insertWb, hwfw] using hw
    · simpa [LineView.insertWb, hq] using hw
  · rw [hl]
    simp [LineView.insertWb, hq]
  · by_cases hq : q = p <;>
      simp [storeToLine, hq, XrCache.mergeData, XrCache.setData, XrCache.insertWb]
  · by_cases hq : q = p
    · subst hq
      by_cases hi : i = index
      · subst hi
        simp [storeToLine, XrCache.mergeData, XrCache.setData, XrCache.insertWb]
      · simp [storeToLine, XrCache.mergeData, XrCache.setData, XrCache.insertWb, hi]
    · simp [storeToLine, hq]

/-- The write buffer entry a write has chosen is free, and the countdown is running. -/
def WriteReady (p fw : Nat) (a : XrAccessReq) (s : XrCachedSys LineRam) : Prop :=
  a.read = false → s.lines.wb p fw = none ∧ (s.cache p).wbCycles ≠ 0

theorem WriteReady.drains {fw : Nat} (h : WriteReady p fw a s) (hd : Drains s s') :
    WriteReady p fw a s' := by
  intro hr
  obtain ⟨hfree, hcycles⟩ := h hr
  refine ⟨?_, hd.cycles p hcycles⟩
  cases hw : s'.lines.wb p fw with
  | none => rfl
  | some i =>
      rw [(hd.stay hw).1] at hfree
      cases hfree

theorem moves_dcacheFill {fw index : Nat} (h : CacheInv present populated s)
    (hready : WriteReady p fw a s) :
    AccessMoves present populated p a s ((dcacheFill p fw index a).run s).1
      ((dcacheFill p fw index a).run s).2 := by
  have hreplace := Drains.replaceLine h p a
  have hans := answered_replaceLine (p := p) (a := a) h.plant
  simp only [dcacheFill, xrLockCache, xrUnlockCache, xrUnlockScache, Prog.run_bind,
    Prog.run_acquire, Prog.run_modifyGet, hans]
  have htag : (replaceLine p a s).2.lines.tags p (replaceLine p a s).1.1 = a.tag := by
    rw [lines_replaceLine, LineView.setLine_tags, if_pos ⟨rfl, rfl⟩]
  cases populated a.tag with
  | false =>
      simp only [if_true, Prog.run_bind, Prog.run_modify, Prog.run_release, Prog.run_pure]
      have hback := Drains.backOut p (replaceLine p a s).1.1 index (replaceLine p a s).2
      exact .fault (.trans h hreplace hback) (((h.plant.replaceLine p a).onScache _).onCache p _)
  | true =>
      simp only [Bool.true_eq_false, if_false, Prog.run_bind, Prog.run_release]
      cases hr : a.read with
      | true =>
          simp only [if_true, Prog.run_bind, Prog.run_get, Prog.run_release, Prog.run_pure]
          exact .quiet hreplace (by simp) fun _ => hr
      | false =>
          simp only [Bool.false_eq_true, if_false, Prog.run_bind, Prog.run_modify, Prog.run_release,
            Prog.run_pure]
          obtain ⟨hfree, hcycles⟩ := hready.drains hreplace hr
          exact .stored hreplace hr (stored_storeToLine hfree htag) (.inl hcycles)

theorem moves_dcacheMissed {fw : Nat} (h : CacheInv present populated s)
    (hready : WriteReady p fw a s) :
    AccessMoves present populated p a s ((dcacheMissed p fw a).run s).1
      ((dcacheMissed p fw a).run s).2 := by
  unfold dcacheMissed
  cases hsc : a.sc with
  | true =>
      simp only [if_true, Prog.run_pure]
      exact .quiet (.refl s) (by simp) (by simp)
  | false =>
      simp only [Bool.false_eq_true, if_false, dcacheMiss, xrLockScache, Prog.run_bind,
        Prog.run_acquire]
      have hclaim := run_claimScacheEntry (p := p) (a := a) h
      have hdrains := drains_claimScacheEntry p a h
      exact (moves_dcacheFill hclaim.2.inv (hready.drains hdrains)).after h hdrains

theorem moves_dcacheUpgrade {fw index : Nat} (h : CacheInv present populated s)
    (hr : a.read = false) (hi : s.lines.Has p index a.tag) (hready : WriteReady p fw a s) :
    AccessMoves present populated p a s ((dcacheUpgrade p fw index a).run s).1
      ((dcacheUpgrade p fw index a).run s).2 := by
  have hsc := h.lines.included hi
  have hfind : xrFindInScache s.mem.scache a.tag = some (xrScSetNumber a.tag) := if_pos hsc
  have hvalid : (s.cache p).dcFlags index ≠ .invalid := hi.1
  simp only [dcacheUpgrade, xrLockScache, xrUnlockScache, Prog.run_bind, Prog.run_acquire,
    Prog.run_get, hvalid, if_false, hfind, Prog.run_modify, Prog.run_release, Prog.run_pure]
  have hothers := run_downgradeOthers (p := p) (a := a) h
  have hdown := drains_run (allowsDowngrades_drains.downgradeOthers p (xrScSetNumber a.tag) a) h
  generalize ((downgradeOthers p (xrScSetNumber a.tag) a).run s).2 = s₁ at hothers hdown ⊢
  have ht : s₁.lines.tags p index = a.tag := by
    rw [hothers.1.falls.tags]
    exact hi.2
  have hlines := lines_makeExclusive (j := xrScSetNumber a.tag) ht
  have hexcl : Drains s₁ (makeExclusive p index (xrScSetNumber a.tag) s₁) :=
    .trans hothers.1.inv (.onScache _ s₁) (.setFlag p index .exclusive _)
  have hdrains : Drains s (makeExclusive p index (xrScSetNumber a.tag) s₁) := .trans h hdown hexcl
  obtain ⟨hfree, hcycles⟩ := hready.drains hdrains hr
  refine .stored hdrains hr (stored_storeToLine hfree ?_) (.inl hcycles)
  rw [hlines, LineView.setLine_tags, if_pos ⟨rfl, rfl⟩]

theorem moves_dcacheLookup {fw : Nat} (h : CacheInv present populated s)
    (hready : WriteReady p fw a s) :
    AccessMoves present populated p a s ((dcacheLookup p fw a).run s).1
      ((dcacheLookup p fw a).run s).2 := by
  simp only [dcacheLookup, Prog.run_bind, Prog.run_get]
  cases hf : (s.cache p).findLine a.tag with
  | some index =>
      have hi : s.lines.Has p index a.tag := findLine_some hf
      cases hr : a.read with
      | true =>
          simp only [if_true, Prog.run_pure]
          exact .quiet (.refl s) (by simp) fun _ => hr
      | false =>
          by_cases hx : (s.cache p).dcFlags index = .exclusive
          · simp only [Bool.false_eq_true, hx, if_false, if_true, xrUnlockCache, Prog.run_bind,
              Prog.run_modify, Prog.run_release, Prog.run_pure]
            obtain ⟨hfree, hcycles⟩ := hready hr
            exact .stored (.refl s) hr (stored_storeToLine hfree hi.2) (.inl hcycles)
          · simp only [Bool.false_eq_true, hx, if_false, xrUnlockCache, Prog.run_bind,
              Prog.run_release]
            exact moves_dcacheUpgrade h hr hi hready
  | none =>
      cases hr : a.read with
      | true =>
          simp only [if_true]
          exact moves_dcacheMissed h hready
      | false =>
          simp only [Bool.false_eq_true, if_false, xrUnlockCache, Prog.run_bind, Prog.run_release]
          exact moves_dcacheMissed h hready

/-- Setting the countdown off. -/
theorem drains_arm (p : Nat) (s : XrCachedSys LineRam) :
    Drains s (onCache p (fun c => { c with wbCycles := if c.wbCycles = 0 then 3 else c.wbCycles }) s) := by
  have hl : (onCache p (fun c =>
      { c with wbCycles := if c.wbCycles = 0 then 3 else c.wbCycles }) s).lines = s.lines :=
    lines_onCache_same ⟨rfl, rfl, rfl, rfl⟩
  have hdc : ∀ q, ((onCache p (fun c =>
      { c with wbCycles := if c.wbCycles = 0 then 3 else c.wbCycles }) s).cache q).dc =
      (s.cache q).dc := fun q => by
    by_cases hq : q = p <;> simp [hq]
  refine ⟨fun {q w i} hw => ?_, fun hw hne => ?_, fun _ _ _ _ => rfl, fun q hc => ?_⟩
  · rw [hl] at hw
    exact ⟨hw, by rw [hl], by rw [hdc]⟩
  · rw [hl] at hne
    exact absurd hw hne
  · by_cases hq : q = p
    · subst hq
      rw [cache_onCache, if_pos rfl]
      split
      · simp
      · exact hc
    · simpa [hq] using hc

theorem moves_xrDcacheAccess (h : CacheInv present populated s) :
    AccessMoves present populated p a s ((xrDcacheAccess p a none).run s).1
      ((xrDcacheAccess p a none).run s).2 := by
  unfold xrDcacheAccess
  cases hr : a.read with
  | true =>
      simp only [if_true]
      exact moves_dcacheLookup h fun hw => by simp [hr] at hw
  | false =>
      simp only [Bool.false_eq_true, if_false, xrLockCache, Prog.run_bind, Prog.run_acquire,
        Prog.run_get]
      cases hs : searchWb (s.cache p) a.tag xrWbEntries none with
      | hit index =>
          obtain ⟨w, hw, ht⟩ := searchWb_hit hs
          simp only [xrUnlockCache, Prog.run_bind, Prog.run_modify, Prog.run_release, Prog.run_pure]
          exact .stored (.refl s) hr (stored_mergeData hw ht) (.inr ⟨w, by simp [hw]⟩)
      | miss out =>
          cases out with
          | none =>
              simp only [xrUnlockCache, Prog.run_bind, Prog.run_release, Prog.run_pure]
              exact .jump (drains_xrFlushWriteBuffer p h)
          | some fw =>
              have hfree : s.lines.wb p fw = none := by
                rcases (searchWb_miss hs).2 with ⟨w, hw, -, hnone⟩ | hnone
                · obtain rfl := Option.some.inj hw
                  exact hnone
                · cases hnone
              simp only [Prog.run_bind, Prog.run_modify]
              have hl : (onCache p (fun c =>
                  { c with wbCycles := if c.wbCycles = 0 then 3 else c.wbCycles }) s).lines = s.lines :=
                lines_onCache_same ⟨rfl, rfl, rfl, rfl⟩
              have hinv := (Sinks.onCache_same h hl rfl).inv
              refine (moves_dcacheLookup hinv (fun _ => ⟨by rw [hl]; exact hfree, ?_⟩)).after h
                (drains_arm p s)
              rw [cache_onCache, if_pos rfl]
              split
              · simp
              · next hc => exact hc

/-- A whole access. -/
theorem access_moves (h : CacheInv present populated s) (hal : a.Aligned)
    (hp : present p = true ∧ p < xrProcMax) {r : XrResult}
    (hexec : (XrMemOp.access p a).exec s = some (r, s')) :
    AccessMoves present populated p a s (.inr r) s' := by
  have hmoves := moves_xrDcacheAccess (p := p) (a := a) h
  rcases run_xrDcacheAccess h hal hp with ⟨r₁, hr, -⟩ | ⟨-, hjump, hflush, hwb, -⟩
  · rw [XrMemOp.exec_access hr] at hexec
    cases hexec
    rwa [hr] at hmoves
  -- The write buffer was full: the first round has emptied it, so the second returns.
  · rcases run_xrDcacheAccess hflush.inv hal hp with ⟨r₁, hr, -⟩ | ⟨hfull, -⟩
    · have hexec₁ : (XrMemOp.access p a).exec s = some (r₁, _) :=
        (runLoop_jump hjump).trans (runLoop_return hr)
      rw [hexec₁] at hexec
      cases hexec
      rw [hjump] at hmoves
      have hnext := moves_xrDcacheAccess (p := p) (a := a) hflush.inv
      rw [hr] at hnext
      cases hmoves with
      | jump drains => exact hnext.after h drains
    · exact absurd (hwb 0) (hfull 0 (by decide))

end

/-! ## Byte by byte -/

/-- Byte `b` is `v` in a line that waits in the write buffer of `p`. -/
def Buffers (s : XrCachedSys LineRam) (p b : Nat) (v : Byte) : Prop :=
  ∃ w i, s.lines.wb p w = some i ∧ s.lines.tags p i ≤ b ∧ b < s.lines.tags p i + 16 ∧
    (s.cache p).dc i (b - s.lines.tags p i) = v

section

variable {s s' : XrCachedSys LineRam} {p q b : Nat} {v : Byte} {a : XrAccessReq}

/-- A byte that waits no longer is in RAM. -/
theorem Drains.buffers (h : Drains s s') (hb : Buffers s p b v) :
    Buffers s' p b v ∨ s'.mem.bus.bytes b = v := by
  obtain ⟨w, i, hw, hle, hlt, hv⟩ := hb
  by_cases hleft : s'.lines.wb p w = some i
  · obtain ⟨-, htags, hdc⟩ := h.stay hleft
    refine .inl ⟨w, i, hleft, ?_⟩
    rw [htags, hdc]
    exact ⟨hle, hlt, hv⟩
  · right
    have hbyte := h.out hw hleft (b - s.lines.tags p i) (by omega)
    rwa [Nat.add_sub_cancel' hle, hv] at hbyte

/-- A store leaves the bytes it does not write. -/
theorem Stored.buffers_old (h : Stored q a s s') (hb : Buffers s p b v)
    (hother : ¬(p = q ∧ a.address ≤ b ∧ b < a.address + a.length)) : Buffers s' p b v := by
  obtain ⟨w, i, hw, hle, hlt, hv⟩ := hb
  obtain ⟨x, index, -, htag, hdc⟩ := h.line
  refine ⟨w, i, h.wb hw, by rwa [h.tags], by rwa [h.tags], ?_⟩
  rw [h.tags, hdc]
  split
  · next hline =>
      obtain ⟨rfl, rfl⟩ := hline
      have haddr := a.address_eq
      rw [copyBytes_of_not (by omega)]
      exact hv
  · exact hv

theorem Stored.buffers_new (h : Stored p a s s') (hal : a.Aligned) (hle : a.address ≤ b)
    (hlt : b < a.address + a.length) : Buffers s' p b (byteOf a.srcvalue (b - a.address)) := by
  obtain ⟨w, index, hw, htag, hdc⟩ := h.line
  have haddr := a.address_eq
  have hin := hal.in_line
  refine ⟨w, index, hw, ?_, ?_, ?_⟩
  · rw [h.tags, htag]
    omega
  · rw [h.tags, htag]
    omega
  · have hoff : b - a.tag = a.lineoffset + (b - a.address) := by omega
    rw [h.tags, htag, hdc, if_pos ⟨rfl, rfl⟩, hoff]
    exact copyBytes_of_lt (by omega)

/-- With an empty write buffer no byte waits. -/
theorem not_buffers (h : ∀ w, s.lines.wb p w = none) : ¬Buffers s p b v := by
  rintro ⟨w, i, hw, -⟩
  rw [h w] at hw
  cases hw

end

end Xremu
