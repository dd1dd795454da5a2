import Xremu.Cached.Operations

/-!
# The caches and one flat memory

`Agrees flat s`: every valid Dcache line holds the bytes of `flat`, and so does
every RAM line that answers, unless the line waits in a write buffer. The lemmas
of this file say which stretches of local code keep it, and that a store changes
`flat` at the bytes it writes.
-/

namespace Xremu

open XrCachedSys

/-- What the caches and the RAM hold is `flat`. -/
structure Agrees (populated : Nat → Bool) (flat : Nat → Byte) (s : XrCachedSys LineRam) : Prop where
  cached : ∀ {p i t}, s.lines.Has p i t → ∀ k, k < 16 → (s.cache p).dc i k = flat (t + k)
  ram : ∀ {t}, t % 16 = 0 → populated t = true →
    (∀ p w i, s.lines.wb p w = some i → s.lines.tags p i ≠ t) →
    ∀ k, k < 16 → s.mem.bus.bytes (t + k) = flat (t + k)

section

variable {present populated : Nat → Bool} {flat : Nat → Byte} {s s' : XrCachedSys LineRam}

/-- Code that neither moves data nor empties write buffer entries. -/
theorem Agrees.of_same (h : Agrees populated flat s)
    (hhas : ∀ {p i t}, s'.lines.Has p i t → s.lines.Has p i t)
    (hdc : ∀ p i t, s'.lines.Has p i t → (s'.cache p).dc i = (s.cache p).dc i)
    (hbytes : s'.mem.bus.bytes = s.mem.bus.bytes)
    (hwb : ∀ {p w i}, s.lines.wb p w = some i →
      s'.lines.wb p w = some i ∧ s'.lines.tags p i = s.lines.tags p i) :
    Agrees populated flat s' where
  cached hi k hk := by
    rw [hdc _ _ _ hi]
    exact h.cached (hhas hi) k hk
  ram ha hpop hout k hk := by
    rw [hbytes]
    refine h.ram ha hpop (fun p w i hw => ?_) k hk
    have hw' := hwb hw
    rw [← hw'.2]
    exact hout p w i hw'.1

/-- The RAM after a line is written out. -/
theorem bytes_writeLine (hp : Plant present populated s) {p t i : Nat} (ha : t % 16 = 0)
    (hpop : populated t = true) :
    (writeLine p t i s).mem.bus.bytes =
      copyBytes s.mem.bus.bytes t ((s.cache p).dc i) 16 := by
  have ht : xrLineTag t = t := by
    simp only [xrLineTag]
    omega
  simp [writeLine, busDone, EBus.write, ht, hp.ram, hpop]

/-- Writing a buffered line out and taking it from the write buffer. -/
theorem Agrees.writeOut (hp : Plant present populated s) (hc : Coherent present populated s.lines)
    (h : Agrees populated flat s) {p w i : Nat} (hw : s.lines.wb p w = some i) :
    Agrees populated flat
      (onCache p (·.clearWb w i) (writeLine p ((s.cache p).dcTags i) i s)) := by
  have hhas : s.lines.Has p i ((s.cache p).dcTags i) :=
    ⟨by rw [hc.buffered hw]; simp, rfl⟩
  have hta := (hc.placed hhas).2
  have hf := falls_writeOut hc ((s.cache p).dcTags i) hw
  have hbytes := bytes_writeLine hp (p := p) (i := i) hta (hc.populated hhas)
  refine ⟨fun {q j t} hi k hk => ?_, fun {t} ha hpop hout k hk => ?_⟩
  · have hdc : ((onCache p (·.clearWb w i) (writeLine p ((s.cache p).dcTags i) i s)).cache q).dc =
        (s.cache q).dc := by
      by_cases hq : q = p <;> simp [hq, XrCache.clearWb]
    rw [hdc]
    exact h.cached (hf.has hi) k hk
  · change (writeLine p ((s.cache p).dcTags i) i s).mem.bus.bytes (t + k) = _
    rw [hbytes]
    by_cases ht : t = (s.cache p).dcTags i
    · rw [ht, copyBytes_of_lt hk]
      exact h.cached hhas k hk
    · -- Another line: it was not in a write buffer before either.
      rw [copyBytes_of_not (by omega)]
      refine h.ram ha hpop (fun q x j hx htag => ?_) k hk
      by_cases hqx : q = p ∧ x = w
      · obtain ⟨rfl, rfl⟩ := hqx
        rw [hw] at hx
        obtain rfl := Option.some.inj hx
        exact ht htag.symm
      · refine hout q x j ?_ (by rw [hf.tags]; exact htag)
        by_cases hq : q = p
        · subst hq
          have hxw : x ≠ w := fun hxw => hqx ⟨rfl, hxw⟩
          simpa [XrCache.clearWb, hxw] using hx
        · simpa [hq] using hx

end

/-! ## Steps that only take rights away -/

/-- `s'` comes from `s` by writing lines out and lowering them. -/
structure Sinks (present populated : Nat → Bool) (s s' : XrCachedSys LineRam) : Prop where
  inv : CacheInv present populated s'
  agrees : ∀ {flat}, Agrees populated flat s → Agrees populated flat s'
  falls : Falls s.lines s'.lines
  data : ∀ q, (s'.cache q).dc = (s.cache q).dc
  cr : ∀ q, (s'.procs q).cr = (s.procs q).cr

section

variable {present populated : Nat → Bool} {s s' s'' : XrCachedSys LineRam}

theorem Sinks.refl (h : CacheInv present populated s) :
    Sinks present populated s s :=
  ⟨h, id, h.lines.refl_falls, fun _ => rfl, fun _ => rfl⟩

theorem Sinks.trans (h : Sinks present populated s s')
    (h' : Sinks present populated s' s'') : Sinks present populated s s'' :=
  ⟨h'.inv, fun ha => h'.agrees (h.agrees ha), h.falls.trans h'.falls, fun q => (h'.data q).trans (h.data q),
    fun q => (h'.cr q).trans (h.cr q)⟩

theorem cr_busDone {α : Type} (p : Nat) (r : EBusReply LineRam α) (s : XrCachedSys LineRam)
    (q : Nat) : ((busDone p r s).procs q).cr = (s.procs q).cr := by
  by_cases hq : q = p
  · subst hq
    simp [busDone]
  · simp [busDone, hq]

/-- The stretch of a flush. -/
theorem Sinks.writeOut (h : CacheInv present populated s) {p w i : Nat} (hw : s.lines.wb p w = some i) :
    Sinks present populated s
      (onCache p (·.clearWb w i) (writeLine p ((s.cache p).dcTags i) i s)) where
  inv := ⟨(h.plant.writeLine p _ i).onCache p _, h.lines.falls (falls_writeOut h.lines _ hw)⟩
  agrees ha := ha.writeOut h.plant h.lines hw
  falls := falls_writeOut h.lines _ hw
  data q := by
    by_cases hq : q = p <;> simp [hq, XrCache.clearWb]
  cr q := cr_busDone p _ s q

theorem Sinks.forceWriteOut (h : CacheInv present populated s) (p i : Nat) :
    Sinks present populated s (forceWriteOut p ((s.cache p).dcTags i) i s) := by
  unfold XrCachedSys.forceWriteOut
  split
  · exact Sinks.refl h
  · next w hw => exact Sinks.writeOut h (h.lines.inverse.mpr hw)

/-- Lowering a line that is not in the write buffer. -/
theorem Sinks.setFlag (h : CacheInv present populated s) {p i : Nat} {f : XrLine} (hw : s.lines.wbOf p i = none)
    (hf : f.rank ≤ (s.lines.flags p i).rank) :
    Sinks present populated s (onCache p (·.setFlag i f) s) := by
  have hfalls := falls_setFlag h.lines hw hf
  have hdc : ∀ q, ((onCache p (·.setFlag i f) s).cache q).dc = (s.cache q).dc := fun q => by
    by_cases hq : q = p <;> simp [hq, XrCache.setFlag]
  refine ⟨⟨h.plant.onCache p _, h.lines.falls hfalls⟩, fun ha => ?_, hfalls, hdc, fun _ => rfl⟩
  refine ha.of_same hfalls.has (fun q j t _ => by rw [hdc]) rfl fun {q x j} hx => ⟨?_, ?_⟩
  · by_cases hq : q = p
    · subst hq
      simpa [XrCache.setFlag] using hx
    · simpa [hq] using hx
  · rw [hfalls.tags]

theorem Sinks.lower (h : CacheInv present populated s) {p i : Nat} {f : XrLine} (hf : f.rank ≤ (s.lines.flags p i).rank) :
    Sinks present populated s
      (onCache p (·.setFlag i f) (XrCachedSys.forceWriteOut p ((s.cache p).dcTags i) i s)) := by
  have hout := Sinks.forceWriteOut h p i
  refine hout.trans (Sinks.setFlag hout.inv (wbOf_forceWriteOut p _ i s) ?_)
  rwa [flags_forceWriteOut]

theorem Sinks.downgrade (h : CacheInv present populated s) (p tag : Nat) (f : XrLine) :
    Sinks present populated s (downgrade p tag f s) := by
  unfold XrCachedSys.downgrade
  split
  · exact Sinks.refl h
  · next i hi =>
      have hi' := List.find?_some hi
      simp only [Bool.and_eq_true, decide_eq_true_eq, beq_iff_eq] at hi'
      rw [← hi'.2]
      exact Sinks.lower h (Nat.le_of_lt hi'.1)

theorem Sinks.evictLine (h : CacheInv present populated s) (p i : Nat) : Sinks present populated s (evictLine p i s) := by
  unfold XrCachedSys.evictLine
  split
  · exact Sinks.refl h
  · exact Sinks.lower h (Nat.zero_le _)

/-- Local code that touches nothing the invariants speak of. -/
theorem Sinks.onCache_same (h : CacheInv present populated s) {p : Nat} {f : XrCache → XrCache} (hl : (onCache p f s).lines = s.lines)
    (hdc : (f (s.cache p)).dc = (s.cache p).dc) :
    Sinks present populated s (onCache p f s) := by
  have hdc' : ∀ q, ((onCache p f s).cache q).dc = (s.cache q).dc := fun q => by
    by_cases hq : q = p
    · subst hq
      simpa using hdc
    · simp [hq]
  refine ⟨⟨h.plant.onCache p f, by rw [hl]; exact h.lines⟩, fun ha => ?_,
    by rw [hl]; exact h.lines.refl_falls,
    hdc', fun _ => rfl⟩
  refine ha.of_same ?_ (fun q j t _ => by rw [hdc']) rfl ?_
  · intro q i t hi
    rwa [hl] at hi
  · intro q x i hx
    rw [hl]
    exact ⟨hx, rfl⟩

theorem Sinks.makeRoom (h : CacheInv present populated s) (p : Nat)
    (a : XrAccessReq) : Sinks present populated s (makeRoom p a s) := by
  have hnext : Sinks present populated s (nextReplacement p s) :=
    Sinks.onCache_same h (lines_nextReplacement p s) rfl
  exact hnext.trans (Sinks.evictLine hnext.inv p _)

/-- Invalidating lines while the write buffer is empty. -/
theorem Sinks.invalidate (h : CacheInv present populated s) {p : Nat} (lines : XrCache → Nat → Bool) (hw : ∀ w, s.lines.wb p w = none) :
    Sinks present populated s (onCache p (fun c => c.invalidate (lines c)) s) := by
  have hdc : ∀ q, ((onCache p (fun c => c.invalidate (lines c)) s).cache q).dc = (s.cache q).dc := fun q => by
    by_cases hq : q = p <;> simp [hq, XrCache.invalidate]
  have hfalls : Falls s.lines (onCache p (fun c => c.invalidate (lines c)) s).lines := by
    refine ⟨rfl, rfl, rfl, ?_, fun q i => ?_, fun {q w i} hb => ?_, fun {q w i} => ?_⟩
    · funext q
      by_cases hq : q = p <;> simp [hq, XrCache.invalidate]
    · by_cases hq : q = p
      · subst hq
        simp only [lines_flags, cache_onCache, if_true, XrCache.invalidate]
        split <;> simp [XrLine.rank]
      · simp [hq]
    · by_cases hq : q = p
      · subst hq
        have hb' : s.lines.wb q w = some i := by simpa [XrCache.invalidate] using hb
        rw [hw w] at hb'
        cases hb'
      · simpa [hq] using hb
    · by_cases hq : q = p
      · subst hq
        simpa [XrCache.invalidate] using h.lines.inverse (p := q) (w := w) (i := i)
      · simpa [hq] using h.lines.inverse (p := q) (w := w) (i := i)
  refine ⟨⟨h.plant.onCache p _, h.lines.falls hfalls⟩, fun ha => ?_, hfalls, hdc, fun _ => rfl⟩
  refine ha.of_same hfalls.has (fun q j t _ => by rw [hdc]) rfl fun {q x j} hx => ⟨?_, ?_⟩
  · by_cases hq : q = p
    · subst hq
      rw [hw x] at hx
      cases hx
    · simpa [hq] using hx
  · rw [hfalls.tags]

end

/-! ## Fill, back-out and reset -/

section

variable {present populated : Nat → Bool} {flat : Nat → Byte} {s : XrCachedSys LineRam} {p : Nat}
  {a : XrAccessReq}

theorem readLine_of_answer (hp : Plant present populated s) {tag : Nat} (i : Nat)
    (ha : tag % 16 = 0) (hpop : populated tag = true) :
    (readLine p tag i s).2 =
      onCache p (·.setData i fun k => s.mem.bus.bytes (tag + k))
        (busDone p (EBus.read s.mem.bus (s.procs p) tag 16) s) := by
  have ht : xrLineTag tag = tag := by
    simp only [xrLineTag]
    omega
  simp [readLine, EBus.read, ht, hp.ram, hpop]

theorem readLine_of_error (hp : Plant present populated s) {tag : Nat} (i : Nat)
    (ha : tag % 16 = 0) (hpop : populated tag = false) :
    (readLine p tag i s).2 = busDone p (EBus.read s.mem.bus (s.procs p) tag 16) s := by
  have ht : xrLineTag tag = tag := by
    simp only [xrLineTag]
    omega
  simp [readLine, EBus.read, ht, hp.ram, hpop]

/-- A line that is claimed and missed waits in no write buffer. -/
theorem Claimed.not_buffered (h : Coherent present populated s.lines)
    (hcl : Claimed p a.tag a.newstate s.lines) (hmiss : ∀ i, ¬s.lines.Has p i a.tag) {q w i : Nat}
    (hw : s.lines.wb q w = some i) : s.lines.tags q i ≠ a.tag := by
  intro ht
  have hx := h.buffered hw
  have hsc := h.owned hx
  have hhas : s.lines.Has q i a.tag := ⟨by rw [hx]; simp, ht⟩
  rw [ht] at hsc
  obtain rfl : p = q := hcl.ids.symm.trans (h.alone hhas hsc)
  exact hmiss i hhas

theorem agrees_replaceLine (h : CacheInv present populated s) (ha : Agrees populated flat s)
    (hcl : Claimed p a.tag a.newstate s.lines) (hmiss : ∀ i, ¬s.lines.Has p i a.tag)
    (hpop : populated a.tag = true) : Agrees populated flat (replaceLine p a s).2 := by
  have hroom := Sinks.makeRoom h p a
  have hout := wbOf_makeRoom (p := p) (a := a) h.lines
  have hcl' := hcl.falls hroom.falls
  have hmiss' : ∀ i, ¬(makeRoom p a s).lines.Has p i a.tag := fun i hi => hmiss i (hroom.falls.has hi)
  have htag : a.tag % 16 = 0 := xrLineTag_aligned _
  have hread : (replaceLine p a s).2 = _ :=
    readLine_of_answer (hroom.inv.plant.onCache p (·.setLine (replacedLine s p a) a.newstate a.tag))
      (replacedLine s p a) htag hpop
  have hlines := lines_replaceLine s p a
  refine ⟨fun {q j t} hi k hk => ?_, fun {t} hat hpt hnb k hk => ?_⟩
  · rw [hlines] at hi
    rcases LineView.has_setLine hi with ⟨rfl, rfl, rfl, -⟩ | ⟨hne, hold⟩
    · rw [hread]
      simp only [cache_onCache, if_true, XrCache.setData, Function.update_self]
      exact (hroom.agrees ha).ram htag hpop
        (fun r w i hw => Claimed.not_buffered hroom.inv.lines hcl' hmiss' hw) k hk
    · have hdc : ((replaceLine p a s).2.cache q).dc j = ((makeRoom p a s).cache q).dc j := by
        rw [hread]
        by_cases hq : q = p
        · subst hq
          have hj : j ≠ replacedLine s q a := fun hj => hne ⟨rfl, hj⟩
          simp [XrCache.setData, XrCache.setLine, hj]
        · simp [hq]
      rw [hdc]
      exact (hroom.agrees ha).cached hold k hk
  · have hbytes : (replaceLine p a s).2.mem.bus.bytes = (makeRoom p a s).mem.bus.bytes := by
      rw [hread]
      rfl
    rw [hbytes]
    refine (hroom.agrees ha).ram hat hpt (fun r w i hw => ?_) k hk
    have hne : ¬(r = p ∧ i = replacedLine s p a) := by
      rintro ⟨rfl, rfl⟩
      rw [hroom.inv.lines.inverse.mp hw] at hout
      cases hout
    have hnew := hnb r w i (by rw [hlines]; exact hw)
    rwa [hlines, LineView.setLine_tags, if_neg hne] at hnew

/-- Backing out of a miss moves no data. -/
theorem agrees_backOut (h : CacheInv present populated s) (ha : Agrees populated flat s) (j : Nat)
    (hpop : populated a.tag = false) :
    Agrees populated flat (backOut p (replaceLine p a s).1.1 j (replaceLine p a s).2) := by
  have hroom := Sinks.makeRoom h p a
  have hout := wbOf_makeRoom (p := p) (a := a) h.lines
  have hread : (replaceLine p a s).2 = _ :=
    readLine_of_error (hroom.inv.plant.onCache p (·.setLine (replacedLine s p a) a.newstate a.tag))
      (replacedLine s p a) (xrLineTag_aligned _) hpop
  have hlines := lines_backOut_replaceLine s p j a
  refine (hroom.agrees ha).of_same (fun {q i t} hi => ?_) (fun q i t _ => ?_) ?_ fun {q w i} hw => ⟨?_, ?_⟩
  · rw [hlines] at hi
    rcases LineView.has_setLine hi with ⟨-, -, -, hf⟩ | ⟨-, hold⟩
    · exact absurd rfl hf
    · exact hold
  · have hdc : ((backOut p (replacedLine s p a) j
        (replaceLine p a s).2).cache q).dc =
        ((replaceLine p a s).2.cache q).dc := by
      by_cases hq : q = p <;> simp [backOut, hq, XrCache.setFlag]
    change ((backOut p (replacedLine s p a) j _).cache q).dc i = _
    rw [hdc, hread]
    by_cases hq : q = p <;> simp [hq, XrCache.setLine]
  · change (replaceLine p a s).2.mem.bus.bytes = _
    rw [hread]
    rfl
  · rw [hlines]
    exact hw
  · rw [hlines, LineView.setLine_tags, if_neg]
    · rfl
    · rintro ⟨rfl, rfl⟩
      rw [hroom.inv.lines.inverse.mp hw] at hout
      cases hout

/-- A bus error keeps the contents unless it resets a processor whose write
buffer holds a line. -/
theorem agrees_busError (hp : Plant present populated s) (ha : Agrees populated flat s)
    (address : Nat) (hsafe : (s.procs p).cr crEb ≠ 0 ∨ ∀ w, s.lines.wb p w = none) :
    Agrees populated flat (busError p address s) := by
  have hmem := mem_busError hp p address
  have hlines := lines_busError hp p address
  by_cases heb : (s.procs p).cr crEb = 0
  · rw [if_pos heb] at hmem hlines
    have hempty : ∀ w, s.lines.wb p w = none := hsafe.resolve_left fun hne => hne heb
    have hcache : ∀ q, (busError p address s).cache q =
        if q = p then (s.cache p).reset else s.cache q := fun q => by
      simp only [cache, hmem]
      exact cache_onCache p XrCache.reset s q
    refine ha.of_same (fun {q i t} hi => ?_) (fun q i t _ => ?_) (by rw [hmem]; rfl)
      fun {q w i} hw => ?_
    · unfold LineView.Has at hi ⊢
      by_cases hq : q = p
      · subst hq
        simpa [hcache, XrCache.reset] using hi
      · simpa [hcache, hq] using hi
    · by_cases hq : q = p <;> simp [hcache, hq, XrCache.reset]
    · have hq : q ≠ p := by
        rintro rfl
        rw [hempty w] at hw
        cases hw
      simpa [hcache, hq] using hw
  · rw [if_neg heb] at hmem hlines
    refine ha.of_same (fun hi => ?_) (fun q i t _ => ?_) (by rw [hmem]) fun hw => ?_
    · rwa [hlines] at hi
    · simp only [cache, hmem]
    · rw [hlines]
      exact ⟨hw, rfl⟩

/-! ## Loads and stores -/

/-- The memory after a store. -/
def flatWrite (flat : Nat → Byte) (a : XrAccessReq) : Nat → Byte :=
  copyBytes flat a.address (byteOf a.srcvalue) a.length

/-- A naturally aligned access of 1, 2 or 4 bytes. -/
def XrAccessReq.Aligned (a : XrAccessReq) : Prop :=
  (a.length = 1 ∨ a.length = 2 ∨ a.length = 4) ∧ a.address % a.length = 0

theorem XrAccessReq.address_eq (a : XrAccessReq) : a.address = a.tag + a.lineoffset := by
  simp only [tag, lineoffset, xrLineTag]
  omega

/-- An aligned access stays in its line. -/
theorem XrAccessReq.Aligned.in_line (h : a.Aligned) : a.lineoffset + a.length ≤ 16 := by
  obtain ⟨h1 | h2 | h4, hm⟩ := h
  all_goals
    simp only [*, lineoffset] at *
    omega

theorem Agrees.load (ha : Agrees populated flat s) (hal : a.Aligned) {i : Nat}
    (hi : s.lines.Has p i a.tag) :
    loadFromLine s p i a = zext (fun k => flat (a.address + k)) a.length := by
  have hin := hal.in_line
  refine zext_congr fun k hk => ?_
  rw [ha.cached hi _ (by omega), a.address_eq, Nat.add_assoc]

/-- A store into a line that `p` has to itself, and that is in the write buffer
from then on. -/
theorem Agrees.store (hc : Coherent present populated s.lines) (ha : Agrees populated flat s)
    (hal : a.Aligned) {index : Nat} (hx : s.lines.flags p index = .exclusive)
    (ht : s.lines.tags p index = a.tag) {s' : XrCachedSys LineRam}
    (hflags : s'.lines.flags = s.lines.flags) (htags : s'.lines.tags = s.lines.tags)
    (hwb : ∀ {q w i}, s.lines.wb q w = some i → s'.lines.wb q w = some i)
    (hbuf : ∃ w, s'.lines.wb p w = some index) (hbytes : s'.mem.bus.bytes = s.mem.bus.bytes)
    (hdc : ∀ q j, (s'.cache q).dc j = if q = p ∧ j = index then
      copyBytes ((s.cache q).dc j) a.lineoffset (byteOf a.srcvalue) a.length else (s.cache q).dc j) :
    Agrees populated (flatWrite flat a) s' := by
  have hin := hal.in_line
  have hhas : s.lines.Has p index a.tag := ⟨by rw [hx]; simp, ht⟩
  have hold : ∀ {q i t}, s'.lines.Has q i t → s.lines.Has q i t := by
    intro q i t hi
    unfold LineView.Has at hi ⊢
    rwa [hflags, htags] at hi
  -- The store does not reach into another line.
  have hother : ∀ t k, t % 16 = 0 → t ≠ a.tag → k < 16 → flatWrite flat a (t + k) = flat (t + k) := by
    intro t k hta htne hk
    have hta' : a.tag % 16 = 0 := xrLineTag_aligned _
    refine copyBytes_of_not ?_
    rw [a.address_eq]
    omega
  refine ⟨fun {q j t} hi k hk => ?_, fun {t} hat hpt hnb k hk => ?_⟩
  · have hi' := hold hi
    rw [hdc]
    split
    · next hqj =>
        obtain ⟨rfl, rfl⟩ := hqj
        obtain rfl : a.tag = t := hhas.2.symm.trans hi'.2
        rw [flatWrite, a.address_eq]
        by_cases hb : a.lineoffset ≤ k ∧ k < a.lineoffset + a.length
        · rw [copyBytes, if_pos hb, copyBytes, if_pos (by omega), Nat.add_sub_add_left]
        · rw [copyBytes_of_not hb, copyBytes_of_not (by omega)]
          exact ha.cached hi' k hk
    · next hqj =>
        have htne : t ≠ a.tag := by
          rintro rfl
          have hsc := hc.owned hx
          rw [ht] at hsc
          have hq : q = p := (hc.alone hi' hsc).symm.trans (hc.alone hhas hsc)
          subst hq
          exact hqj ⟨rfl, hc.unique hi' hhas⟩
        rw [hother t k (hc.placed hi').2 htne hk]
        exact ha.cached hi' k hk
  · have htne : t ≠ a.tag := by
      rintro rfl
      obtain ⟨w, hw⟩ := hbuf
      exact hnb p w index hw (by rw [htags]; exact ht)
    rw [hother t k hat htne hk, hbytes]
    exact ha.ram hat hpt (fun q w i hw => by rw [← htags]; exact hnb q w i (hwb hw)) k hk

end

end Xremu
