import Mathlib.Tactic.Choose
import Xremu.Cached.CacheRuns
import Xremu.Cached.Transparent

/-!
# What a reset does to stores

`XrReset` empties the two maps of the write buffer and leaves the Dcache lines valid. A
line that was waiting is then a line like any other: nobody writes it out when it is taken
away, and its stores are lost with it. So a reset keeps the lines equal to RAM exactly if
every line waiting in the write buffer has already the bytes of RAM (`WrittenOut`).

A processor also resets when it takes an exception with `EB` 0. For a bus error this is in
the middle of an access; the state in which `XrReset` is called is the one the access ends
in when `EB` is set, because up to that call no code of the caches looks at a register
(`Twin`).
-/

namespace Xremu

open Concurrency XrCachedSys

/-- `XrReset` of processor `p`. -/
def resetProc (p : Nat) (s : XrCachedSys LineRam) : XrCachedSys LineRam :=
  s.setMachine p (xrReset (s.machine p))

/-- Every valid line that does not wait in a write buffer holds the bytes of RAM. -/
def LinesInRam (s : XrCachedSys LineRam) : Prop :=
  ∀ p i t, s.lines.Has p i t → s.lines.wbOf p i = none →
    ∀ k, k < 16 → (s.cache p).dc i k = s.mem.bus.bytes (t + k)

/-- What waits in the write buffer of `p` is in RAM already. -/
def WrittenOut (p : Nat) (s : XrCachedSys LineRam) : Prop :=
  ∀ w i, s.lines.wb p w = some i → ∀ k, k < 16 →
    s.mem.bus.bytes (s.lines.tags p i + k) = (s.cache p).dc i k

section

variable {present populated : Nat → Bool} {flat : Nat → Byte} {s s' : XrCachedSys LineRam} {p : Nat}

theorem linesInRam_of_mem (h : s'.mem = s.mem) : LinesInRam s' ↔ LinesInRam s := by
  simp only [LinesInRam, lines, cache, h]

theorem mem_resetProc (hid : (s.procs p).id = p) :
    (resetProc p s).mem = (onCache p XrCache.reset s).mem := by
  have hproc : (s.machine p).proc.id = p := hid
  show (s.machine p).mem.setCache (s.machine p).proc.id _ = _
  rw [hproc]
  rfl

/-- Resetting keeps the lines equal to RAM exactly if nothing waits that RAM has not got. -/
theorem linesInRam_reset_iff (h : CacheInv present populated s) (hs : LinesInRam s) :
    LinesInRam (onCache p XrCache.reset s) ↔ WrittenOut p s := by
  have hdc : ∀ q, ((onCache p XrCache.reset s).cache q).dc = (s.cache q).dc := by
    intro q
    by_cases hq : q = p <;> simp [hq, XrCache.reset]
  have hhas : ∀ q i t, (onCache p XrCache.reset s).lines.Has q i t ↔ s.lines.Has q i t := by
    intro q i t
    unfold LineView.Has
    by_cases hq : q = p <;> simp [hq, XrCache.reset]
  constructor
  · intro hclean w i hw k hk
    have hvalid : s.lines.Has p i (s.lines.tags p i) := ⟨by rw [h.lines.buffered hw]; simp, rfl⟩
    have hnone : (onCache p XrCache.reset s).lines.wbOf p i = none := by simp [XrCache.reset]
    have heq := hclean p i _ ((hhas p i _).mpr hvalid) hnone k hk
    rw [hdc] at heq
    exact heq.symm
  · intro hout q i t hi hnone k hk
    rw [hdc]
    rw [hhas] at hi
    cases hw : s.lines.wbOf q i with
    | none => exact hs q i t hi hw k hk
    | some w =>
        obtain rfl : q = p := by
          by_contra hq
          simp [hq] at hnone
          rw [lines_wbOf, hnone] at hw
          cases hw
        have heq := hout w i (h.lines.inverse.mpr hw) k hk
        rw [hi.2] at heq
        exact heq.symm

/-- With nothing waiting that RAM has not got, a reset changes no byte of the flat memory. -/
theorem Agrees.reset (ha : Agrees populated flat s) (h : CacheInv present populated s)
    (hout : WrittenOut p s) : Agrees populated flat (onCache p XrCache.reset s) := by
  have hfalls := falls_reset h.lines p
  refine ⟨fun {q i t} hi k hk => ?_, fun {t} ht hpop hnone k hk => ?_⟩
  · have hdc : ((onCache p XrCache.reset s).cache q).dc = (s.cache q).dc := by
      by_cases hq : q = p <;> simp [hq, XrCache.reset]
    rw [hdc]
    exact ha.cached (hfalls.has hi) k hk
  · show s.mem.bus.bytes (t + k) = _
    by_cases hwait : ∃ w i, s.lines.wb p w = some i ∧ s.lines.tags p i = t
    · obtain ⟨w, i, hw, rfl⟩ := hwait
      rw [hout w i hw k hk]
      exact ha.cached ⟨by rw [h.lines.buffered hw]; simp, rfl⟩ k hk
    · refine ha.ram ht hpop (fun q w i hw htag => ?_) k hk
      by_cases hq : q = p
      · subst hq
        exact hwait ⟨w, i, hw, htag⟩
      · refine hnone q w i ?_ (by rw [hfalls.tags]; exact htag)
        simpa [hq] using hw

/-- A line of a Dcache that does not wait itself waits nowhere. -/
theorem Coherent.not_waiting (h : Coherent present populated s.lines) {i t : Nat}
    (hi : s.lines.Has p i t) (hnone : s.lines.wbOf p i = none) {q w j : Nat}
    (hw : s.lines.wb q w = some j) : s.lines.tags q j ≠ t := by
  intro htag
  have hhas : s.lines.Has q j t := ⟨by rw [h.buffered hw]; simp, htag⟩
  obtain rfl : p = q := h.exclusive_alone (h.buffered hw) htag hi
  obtain rfl := h.unique hi hhas
  rw [h.inverse.mp hw] at hnone
  cases hnone

theorem Agrees.linesInRam (ha : Agrees populated flat s) (h : CacheInv present populated s) :
    LinesInRam s := by
  intro p i t hi hnone k hk
  rw [ha.cached hi k hk]
  refine (ha.ram (h.lines.placed hi).2 (h.lines.populated hi) (fun q w j hw => ?_) k hk).symm
  exact h.lines.not_waiting hi hnone hw

/-- Lines equal to RAM or waiting: together they are one flat memory. -/
theorem LinesInRam.agrees (hs : LinesInRam s) (h : CacheInv present populated s) :
    ∃ flat, Agrees populated flat s := by
  have hbyte : ∀ b, ∃ v : Byte,
      (∀ q w i, s.lines.wb q w = some i → s.lines.tags q i = b / 16 * 16 →
        (s.cache q).dc i (b % 16) = v) ∧
      ((∀ q w i, s.lines.wb q w = some i → s.lines.tags q i ≠ b / 16 * 16) →
        s.mem.bus.bytes b = v) := by
    intro b
    by_cases hwait : ∃ q w i, s.lines.wb q w = some i ∧ s.lines.tags q i = b / 16 * 16
    · obtain ⟨q, w, i, hw, htag⟩ := hwait
      refine ⟨(s.cache q).dc i (b % 16), fun r x j hx htag' => ?_, fun hnone => ?_⟩
      · obtain ⟨rfl, rfl, rfl⟩ := h.lines.buffered_once hx hw (htag'.trans htag.symm)
        rfl
      · exact absurd htag (hnone q w i hw)
    · exact ⟨s.mem.bus.bytes b, fun q w i hw htag => absurd ⟨q, w, i, hw, htag⟩ hwait, fun _ => rfl⟩
  choose flat hwaits hram using hbyte
  refine ⟨flat, fun {q i t} hi k hk => ?_, fun {t} ht hpop hnone k hk => ?_⟩
  · have ht := (h.lines.placed hi).2
    have hline : (t + k) / 16 * 16 = t := by omega
    have hoff : (t + k) % 16 = k := by omega
    cases hw : s.lines.wbOf q i with
    | some w =>
        have heq := hwaits (t + k) q w i (h.lines.inverse.mpr hw) (by rw [hline]; exact hi.2)
        rwa [hoff] at heq
    | none =>
        rw [hs q i t hi hw k hk]
        refine hram (t + k) fun r x j hx => ?_
        rw [hline]
        exact h.lines.not_waiting hi hw hx
  · refine hram (t + k) fun q w i hw => ?_
    have hline : (t + k) / 16 * 16 = t := by omega
    rw [hline]
    exact hnone q w i hw

end

/-! ## The caches look at no register -/

/-- Two states that differ in registers only, among them `EB` of processor `p`: it is 0 in
the first. -/
structure Twin (p : Nat) (s t : XrCachedSys LineRam) : Prop where
  mem : s.mem = t.mem
  ids : (s.procs p).id = p ∧ (t.procs p).id = p
  eb : (s.procs p).cr crEb = 0 ∧ (t.procs p).cr crEb ≠ 0

/-- How an access ends for the two: alike, but a bus error has reset the first. -/
def TwinEnds (p : Nat) (out : Option Nat ⊕ XrResult) (s t : XrCachedSys LineRam) : Prop :=
  match out with
  | .inl _ => Twin p s t
  | .inr r =>
      (r.1 ≠ .fault → s.mem = t.mem) ∧
        (r.1 = .fault → t.mem.aborted = false → s.mem = (onCache p XrCache.reset t).mem)

namespace Twin

variable {p : Nat} {s s' t t' : XrCachedSys LineRam}

theorem step (h : Twin p s t) (hm : s'.mem = t'.mem) (hs : QuietFor p s s')
    (ht : QuietFor p t t') : Twin p s' t' := by
  refine ⟨hm, ⟨hs.id.trans h.ids.1, ht.id.trans h.ids.2⟩, ?_⟩
  rw [hs.cr, ht.cr]
  exact h.eb

theorem cache (h : Twin p s t) (q : Nat) : s.cache q = t.cache q :=
  congrArg (fun m : XrCachedMem LineRam => m.caches q) h.mem

theorem onCache (h : Twin p s t) (q : Nat) (f : XrCache → XrCache) :
    Twin p (onCache q f s) (onCache q f t) :=
  h.step (by simp only [XrCachedSys.onCache, h.mem]) (.refl _) (.refl _)

theorem onScache (h : Twin p s t) (f : XrScache → XrScache) :
    Twin p (onScache f s) (onScache f t) :=
  h.step (by simp only [XrCachedSys.onScache, h.mem]) (.refl _) (.refl _)

theorem writeLine (h : Twin p s t) (q tag index : Nat) :
    Twin p (writeLine q tag index s) (writeLine q tag index t) := by
  refine h.step ?_ (quiet_writeLine q tag index s) (quiet_writeLine q tag index t)
  simp only [XrCachedSys.writeLine, busDone, EBus.write, h.cache, h.mem]
  split <;> rfl

theorem forceWriteOut (h : Twin p s t) (q tag index : Nat) :
    Twin p (forceWriteOut q tag index s) (forceWriteOut q tag index t) := by
  unfold XrCachedSys.forceWriteOut
  simp only [h.cache]
  split
  · exact h
  · exact (h.writeLine q tag index).onCache q _

theorem downgrade (h : Twin p s t) (q tag : Nat) (newstate : XrLine) :
    Twin p (downgrade q tag newstate s) (downgrade q tag newstate t) := by
  unfold XrCachedSys.downgrade
  cases hfind : (xrDcWays tag).find? fun index =>
      newstate.rank < ((t.cache q).dcFlags index).rank && (t.cache q).dcTags index == tag with
  | none =>
      simp only [h.cache, hfind]
      exact h
  | some index =>
      simp only [h.cache, hfind]
      exact (h.forceWriteOut q tag index).onCache q _

theorem evictLine (h : Twin p s t) (q index : Nat) :
    Twin p (evictLine q index s) (evictLine q index t) := by
  unfold XrCachedSys.evictLine
  rw [h.cache]
  by_cases hinvalid : (t.cache q).dcFlags index = .invalid
  · rw [if_pos hinvalid, if_pos hinvalid]
    exact h
  · rw [if_neg hinvalid, if_neg hinvalid]
    exact (h.forceWriteOut q _ index).onCache q _

theorem readLine (h : Twin p s t) (q tag index : Nat) :
    (readLine q tag index s).1 = (readLine q tag index t).1 ∧
      Twin p (readLine q tag index s).2 (readLine q tag index t).2 := by
  have hdone : Twin p (busDone q (EBus.read s.mem.bus (s.procs q) tag 16) s)
      (busDone q (EBus.read t.mem.bus (t.procs q) tag 16) t) := by
    refine h.step ?_ (quiet_busDone q _ s) (quiet_busDone q _ t)
    simp only [busDone, EBus.read, h.mem]
  unfold XrCachedSys.readLine
  simp only [EBus.read, h.mem] at hdone ⊢
  split
  · exact ⟨rfl, hdone⟩
  · next bytes _ => exact ⟨rfl, hdone.onCache q (·.setData index bytes)⟩

theorem replaceLine (h : Twin p s t) (q : Nat) (a : XrAccessReq) :
    (replaceLine q a s).1 = (replaceLine q a t).1 ∧
      Twin p (replaceLine q a s).2 (replaceLine q a t).2 := by
  have hindex : replacedLine s q a = replacedLine t q a := by
    simp only [replacedLine, h.cache]
  have hroom : Twin p (makeRoom q a s) (makeRoom q a t) := by
    unfold makeRoom
    rw [hindex]
    exact (h.onCache q _).evictLine q _
  have hread := (hroom.onCache q (·.setLine (replacedLine t q a) a.newstate a.tag)).readLine q a.tag
    (replacedLine t q a)
  simp only [Xremu.replaceLine, fillLine, hindex, hread.1, true_and]
  exact hread.2

/-! ### The programs -/

/-- A program that ends as it began, in twins. -/
abbrev Respects {α : Type} (p : Nat) (x : XrCode LineRam α) : Prop := x.Alike (Twin p) fun _ => Twin p

theorem flushEntries (q : Nat) (entries : List Nat) : Respects p (flushEntries q entries) := by
  induction entries with
  | nil => exact Prog.alike_pure fun _ _ => id
  | cons i is ih =>
      refine Prog.alike_get (fun s t h => ?_) fun s => ?_
      · simp only [h.cache]
      split
      · exact ih
      · refine Prog.alike_bind (Prog.alike_acquire _) fun _ => ?_
        refine Prog.alike_get (fun s t h => ?_) fun s => ?_
        · simp only [h.cache]
        split
        · exact Prog.alike_bind (Prog.alike_release _) fun _ => ih
        · refine Prog.alike_bind (Prog.alike_modify fun s t h => ?_) fun _ => ?_
          · exact (h.writeLine q _ _).onCache q _
          · exact Prog.alike_bind (Prog.alike_release _) fun _ => ih

theorem downgradeLine (q tag : Nat) (newstate : XrLine) :
    Respects p (xrDowngradeLine q tag newstate) := by
  refine Prog.alike_bind (Prog.alike_acquire _) fun _ => ?_
  refine Prog.alike_bind (Prog.alike_modify fun s t h => h.downgrade q tag newstate) fun _ => ?_
  exact Prog.alike_release _

theorem downgradeProcs (thisproc : Option Nat) (tag : Nat) (newstate : XrLine) (procs : List Nat) :
    Respects p (downgradeProcs thisproc tag newstate procs) := by
  induction procs with
  | nil => exact Prog.alike_pure fun _ _ => id
  | cons i is ih =>
      refine Prog.alike_get (fun s t h => ?_) fun s => ?_
      · simp only [h.mem]
      split
      · exact ih
      · exact Prog.alike_bind (downgradeLine i tag newstate) fun _ => ih

theorem stealScacheEntry (index : Nat) : Respects p (stealScacheEntry index) := by
  refine Prog.alike_get (fun s t h => ?_) fun s => ?_
  · simp only [h.mem]
  split
  · exact Prog.alike_pure fun _ _ => id
  · exact downgradeProcs none _ .invalid _
  · exact downgradeLine _ _ .invalid

theorem claimScacheEntry (q : Nat) (a : XrAccessReq) : Respects p (claimScacheEntry q a) := by
  refine Prog.alike_bind ?_ fun found => ?_
  · refine Prog.alike_get (fun s t h => ?_) fun s => ?_
    · simp only [h.mem]
    split
    · exact Prog.alike_pure fun _ _ => id
    · refine Prog.alike_bind (Prog.alike_modify fun s t h => h.onScache _) fun _ => ?_
      refine Prog.alike_bind (stealScacheEntry _) fun _ => ?_
      refine Prog.alike_bind (Prog.alike_modify fun s t h => h.onScache _) fun _ => ?_
      exact Prog.alike_pure fun _ _ => id
  · split
    · exact Prog.alike_pure fun _ _ => id
    · refine Prog.alike_bind ?_ fun _ => ?_
      · refine Prog.alike_get (fun s t h => ?_) fun s => ?_
        · simp only [h.mem]
        split
        · exact downgradeLine _ a.tag _
        · split
          · exact Prog.alike_pure fun _ _ => id
          · exact downgradeProcs none a.tag .invalid _
        · exact Prog.alike_pure fun _ _ => id
      · refine Prog.alike_bind (Prog.alike_modify fun s t h => h.onScache _) fun _ => ?_
        exact Prog.alike_pure fun _ _ => id

theorem downgradeOthers (q index : Nat) (a : XrAccessReq) :
    Respects p (downgradeOthers q index a) := by
  refine Prog.alike_get (fun s t h => ?_) fun s => ?_
  · simp only [h.mem]
  split
  · exact downgradeProcs _ a.tag .invalid _
  · exact downgradeLine _ a.tag .invalid
  · exact Prog.alike_pure fun _ _ => id

/-- A bus error resets the first twin, and the second not. -/
theorem busError (h : Twin p s t) (address : Nat) :
    (busError p address s).mem = (XrCachedSys.onCache p XrCache.reset (busError p address t)).mem := by
  have hs : (s.machine p).proc.id = p := h.ids.1
  have ht : (t.machine p).proc.id = p := h.ids.2
  have hmem : (XrCachedSys.busError p address t).mem = t.mem := by
    simp only [XrCachedSys.busError, setMachine, xrBasicException_mem]
    rw [if_neg]
    · rfl
    · exact h.eb.2
  simp only [XrCachedSys.onCache, hmem, ← h.mem]
  simp only [XrCachedSys.busError, setMachine, xrBasicException_mem]
  rw [if_pos]
  · simp [hs]
    rfl
  · exact h.eb.1

/-- An access that has returned without a bus error. -/
theorem ends_done {r : XrResult} (hr : r.1 ≠ .fault) : ∀ s t, Twin p s t → TwinEnds p (.inr r) s t :=
  fun _ _ h => ⟨fun _ => h.mem, fun he => absurd he hr⟩

/-! ### The access -/

/-- The first twin has taken the bus error of the second and is reset. -/
abbrev Forgets (p : Nat) (x : XrCode LineRam (Option Nat ⊕ XrResult)) : Prop :=
  x.Alike (Twin p) (TwinEnds p)

theorem dcacheFill (freewbindex scacheindex : Nat) (a : XrAccessReq) :
    Forgets p (dcacheFill p freewbindex scacheindex a) := by
  refine Prog.alike_bind (Prog.alike_acquire _) fun _ => ?_
  refine Prog.alike_bind (fun s t h => h.replaceLine p a) fun line => ?_
  split
  · refine Prog.alike_bind (Prog.alike_modify fun s t h => ?_) fun _ => ?_
    · exact (h.onScache _).onCache p _
    refine Prog.alike_bind (Prog.alike_release _) fun _ => ?_
    refine Prog.alike_bind (Prog.alike_release _) fun _ => ?_
    -- The last thing the access does.
    intro s t h
    refine ⟨rfl, fun hne => absurd rfl hne, fun _ _ => ?_⟩
    exact h.busError a.address
  · refine Prog.alike_bind (Prog.alike_release _) fun _ => ?_
    split
    · refine Prog.alike_get (fun s t h => ?_) fun s => ?_
      · simp only [loadFromLine, h.cache]
      refine Prog.alike_bind (Prog.alike_release _) fun _ => ?_
      exact Prog.alike_pure (ends_done (fun he => by cases he))
    · refine Prog.alike_bind (Prog.alike_modify fun s t h => h.onCache p _) fun _ => ?_
      refine Prog.alike_bind (Prog.alike_release _) fun _ => ?_
      exact Prog.alike_pure (ends_done (fun he => by cases he))

theorem dcacheMissed (freewbindex : Nat) (a : XrAccessReq) :
    Forgets p (dcacheMissed p freewbindex a) := by
  unfold Xremu.dcacheMissed
  split
  · exact Prog.alike_pure (ends_done (fun he => by cases he))
  · refine Prog.alike_bind (Prog.alike_acquire _) fun _ => ?_
    exact Prog.alike_bind (claimScacheEntry p a) fun index => dcacheFill freewbindex index a

theorem dcacheUpgrade (freewbindex index : Nat) (a : XrAccessReq) :
    Forgets p (dcacheUpgrade p freewbindex index a) := by
  refine Prog.alike_bind (Prog.alike_acquire _) fun _ => ?_
  refine Prog.alike_get (fun s t h => ?_) fun s => ?_
  · simp only [h.cache, h.mem]
  split
  · refine Prog.alike_bind (Prog.alike_release _) fun _ => ?_
    exact Prog.alike_pure fun _ _ => id
  split
  · intro s t h
    refine ⟨rfl, fun hne => absurd rfl hne, fun _ habort => ?_⟩
    cases habort
  · refine Prog.alike_bind (downgradeOthers p _ a) fun _ => ?_
    refine Prog.alike_bind (Prog.alike_modify fun s t h => ?_) fun _ => ?_
    · exact ((h.onScache _).onCache p _).onCache p _
    · refine Prog.alike_bind (Prog.alike_release _) fun _ => ?_
      exact Prog.alike_pure (ends_done (fun he => by cases he))

theorem dcacheLookup (freewbindex : Nat) (a : XrAccessReq) :
    Forgets p (dcacheLookup p freewbindex a) := by
  refine Prog.alike_get (fun s t h => ?_) fun s => ?_
  · simp only [loadFromLine, h.cache]
  split
  · split
    · exact Prog.alike_pure (ends_done (fun he => by cases he))
    split
    · refine Prog.alike_bind (Prog.alike_modify fun s t h => h.onCache p _) fun _ => ?_
      refine Prog.alike_bind (Prog.alike_release _) fun _ => ?_
      exact Prog.alike_pure (ends_done (fun he => by cases he))
    · exact Prog.alike_bind (Prog.alike_release _) fun _ => dcacheUpgrade freewbindex _ a
  · split
    · exact dcacheMissed freewbindex a
    · exact Prog.alike_bind (Prog.alike_release _) fun _ => dcacheMissed freewbindex a

theorem xrDcacheAccess (a : XrAccessReq) (freewbindex : Option Nat) :
    Forgets p (xrDcacheAccess p a freewbindex) := by
  unfold Xremu.xrDcacheAccess
  split
  · exact dcacheLookup 0 a
  refine Prog.alike_bind (Prog.alike_acquire _) fun _ => ?_
  refine Prog.alike_get (fun s t h => ?_) fun s => ?_
  · simp only [h.cache]
  split
  · refine Prog.alike_bind (Prog.alike_modify fun s t h => h.onCache p _) fun _ => ?_
    refine Prog.alike_bind (Prog.alike_release _) fun _ => ?_
    exact Prog.alike_pure (ends_done (fun he => by cases he))
  · refine Prog.alike_bind (Prog.alike_release _) fun _ => ?_
    refine Prog.alike_bind (flushEntries p xrWbEntries) fun _ => ?_
    exact Prog.alike_pure fun _ _ => id
  · refine Prog.alike_bind (Prog.alike_modify fun s t h => h.onCache p _) fun _ => ?_
    exact dcacheLookup _ a

/-- A whole access. -/
theorem access {a : XrAccessReq} {fuel : Nat} {freewbindex : Option Nat} (h : Twin p s t)
    {r : XrResult} (hs : runLoop (Xremu.xrDcacheAccess p a) fuel freewbindex s = some (r, s')) :
    ∃ t', runLoop (Xremu.xrDcacheAccess p a) fuel freewbindex t = some (r, t') ∧
      TwinEnds p (.inr r) s' t' := by
  induction fuel generalizing freewbindex s t with
  | zero => cases hs
  | succ fuel ih =>
      obtain ⟨hout, hends⟩ := xrDcacheAccess a freewbindex s t h
      cases he : ((Xremu.xrDcacheAccess p a freewbindex).run s).1 with
      | inl next =>
          rw [runLoop_jump he] at hs
          rw [he] at hout hends
          rw [runLoop_jump hout.symm]
          exact ih hends hs
      | inr r' =>
          rw [runLoop_return he] at hs
          cases hs
          rw [he] at hout hends
          exact ⟨_, runLoop_return hout.symm, hends⟩

end Twin

/-! ## Runs -/

/-- The state in which processor `p` has `EB` set to `value`. -/
def withEb (p : Nat) (value : Word) (s : XrCachedSys LineRam) : XrCachedSys LineRam :=
  s.setMachine p ((s.machine p).setCr crEb value)

/-- Runs in which `XrReset` is only called with a write buffer that RAM has got: by itself,
or from an exception that finds `EB` 0. -/
inductive ResetRun (s₀ : XrCachedSys LineRam) :
    List (XrMemOp × XrResult) → XrCachedSys LineRam → Prop where
  | nil : ResetRun s₀ [] s₀
  | op {trace s o r s'} : ResetRun s₀ trace s → o.Legal s₀.mem.present → o.exec s = some (r, s') →
      (∀ p a, o = .access p a → r.1 = .fault → (s.procs p).cr crEb ≠ 0) →
      ResetRun s₀ (trace ++ [(o, r)]) s'
  -- `t` is where the bus error of the access calls `XrReset`.
  | busError {trace s p a r s' value t} : ResetRun s₀ trace s →
      (XrMemOp.access p a).Legal s₀.mem.present → (XrMemOp.access p a).exec s = some (r, s') →
      (s.procs p).cr crEb = 0 → value ≠ 0 → r.1 = .fault →
      (XrMemOp.access p a).exec (withEb p value s) = some (r, t) → WrittenOut p t →
      ResetRun s₀ (trace ++ [(.access p a, r)]) s'
  | reset {trace s} (p : Nat) : ResetRun s₀ trace s → WrittenOut p s →
      ResetRun s₀ trace (resetProc p s)
  | fetch {trace s} (p : Nat) (address : Word) : ResetRun s₀ trace s →
      ((xrIcacheAccess address (s.machine p)).1 = none → (s.procs p).cr crEb = 0 → WrittenOut p s) →
      ResetRun s₀ trace (s.setMachine p (xrIcacheAccess address (s.machine p)).2)
  | icachectrl {trace s} (p : Nat) (value : Word) : ResetRun s₀ trace s →
      ResetRun s₀ trace (s.setMachine p (mtcrIcachectrl value (s.machine p)))
  | core {trace s} (p : Nat) (upd : XrProcessor → XrProcessor) (hint : Word) (cycles : Nat) :
      ResetRun s₀ trace s → (∀ x, (upd x).id = x.id) →
      ResetRun s₀ trace ((onCache p (fun c => { c with dtbLastResult := hint, wbCycles := cycles })
        s).setMachine p ⟨upd (s.procs p), (onCache p (fun c =>
          { c with dtbLastResult := hint, wbCycles := cycles }) s).mem⟩)

section

variable {present populated : Nat → Bool} {flat : Nat → Byte} {s s' t : XrCachedSys LineRam} {p : Nat}
  {a : XrAccessReq} {value : Word}

/-! ### The bus error of an access -/

theorem withEb_inv (h : CacheInv present populated s) (p : Nat) (value : Word) :
    CacheInv present populated (withEb p value s) :=
  h.of_mem (ids_setMachine h rfl) rfl

theorem twin_withEb (h : CacheInv present populated s) (heb : (s.procs p).cr crEb = 0)
    (hv : value ≠ 0) : Twin p s (withEb p value s) where
  mem := rfl
  ids := ⟨h.plant.ids p, (withEb_inv h p value).plant.ids p⟩
  eb := by
    refine ⟨heb, ?_⟩
    simpa [withEb, setMachine, Machine.setCr, XrProcessor.setCr, machine] using hv

/-- The access and its bus error, up to the call of `XrReset`, lose nothing; then comes
`XrReset`. -/
theorem exec_busError (h : CacheInv present populated s) (heb : (s.procs p).cr crEb = 0)
    (hv : value ≠ 0) (hl : (XrMemOp.access p a).Legal present) {r : XrResult} (hr : r.1 = .fault)
    (he : (XrMemOp.access p a).exec s = some (r, s'))
    (het : (XrMemOp.access p a).exec (withEb p value s) = some (r, t)) :
    CacheInv present populated t ∧ s'.mem = (onCache p XrCache.reset t).mem ∧
      ∀ {flat}, Agrees populated flat s → Agrees populated flat t := by
  have htwin := twin_withEb h heb hv
  have hinv := withEb_inv h p value
  obtain ⟨r', t', het', hserved⟩ := exec_access_served hinv hl.2 hl.1
  rw [het] at het'
  cases het'
  obtain ⟨t'', hexec, hends⟩ := htwin.access he
  have hsame : some (r, t) = some (r, t'') := het.symm.trans hexec
  cases hsame
  refine ⟨hserved.inv, hends.2 hr hserved.inv.plant.running, fun ha => ?_⟩
  have hagrees := hserved.agrees (.inr (.inr (.inl htwin.eb.2))) (ha.of_mem rfl)
  rwa [XrMemOp.flatAfter_same (.inl (by rw [hr]; simp))] at hagrees

/-- An access that does not reset agrees with the flat memory. -/
theorem exec_agrees (h : CacheInv present populated s) (ha : Agrees populated flat s)
    (hl : (XrMemOp.access p a).Legal present) {r : XrResult}
    (he : (XrMemOp.access p a).exec s = some (r, s'))
    (hhandled : r.1 = .fault → (s.procs p).cr crEb ≠ 0) :
    Agrees populated ((XrMemOp.access p a).flatAfter flat r) s' := by
  by_cases heb : (s.procs p).cr crEb = 0
  -- Without a bus error the twin with `EB` set ends in the same memory.
  · have hv : (1 : Word) ≠ 0 := by decide
    have htwin := twin_withEb h heb hv
    obtain ⟨t, het, hends⟩ := htwin.access he
    obtain ⟨r', t', het', hserved⟩ := exec_access_served (withEb_inv h p 1) hl.2 hl.1
    have hsame : some (r, t) = some (r', t') := het.symm.trans het'
    cases hsame
    have hagrees := hserved.agrees (.inr (.inr (.inl htwin.eb.2))) (ha.of_mem rfl)
    exact hagrees.of_mem (hends.1 fun hr => hhandled hr heb)
  · obtain ⟨r', t', he', hserved⟩ := exec_access_served h hl.2 hl.1
    rw [he] at he'
    cases he'
    exact hserved.agrees (.inr (.inr (.inl heb))) ha

/-! ### Instruction fetch -/

theorem Agrees.fetch (ha : Agrees populated flat s) (h : CacheInv present populated s)
    (p : Nat) (address : Word)
    (hout : (xrIcacheAccess address (s.machine p)).1 = none → (s.procs p).cr crEb = 0 →
      WrittenOut p s) :
    Agrees populated flat (s.setMachine p (xrIcacheAccess address (s.machine p)).2) := by
  rcases xrIcacheAccess_cases (h.plant.ids p) address with hit | ⟨reply, m, hmiss, hm⟩
  · rwa [hit]
  have hl := lines_icMissed p (xrLineTag address.toNat) reply s
  have hdc : ∀ q, ((icMissed p (xrLineTag address.toNat) reply s).cache q).dc = (s.cache q).dc := by
    intro q
    by_cases hq : q = p
    · subst hq
      cases reply <;> simp [icMissed, icFill]
    · simp [icMissed, hq]
  have hmissed : Agrees populated flat (icMissed p (xrLineTag address.toNat) reply s) :=
    ha.onCache_same h hl (by cases reply <;> rfl)
  have hinv : CacheInv present populated (icMissed p (xrLineTag address.toNat) reply s) :=
    h.onCache_same hl
  rw [hmiss]
  rcases hm with rfl | ⟨hnone, hm, hhandled⟩
  · rwa [setMachine_self]
  by_cases heb : (s.procs p).cr crEb = 0
  · rcases hm.mem with hmem | hmem
    · exact hmissed.of_mem hmem
    -- The bus error resets the processor; a fetch has touched no line.
    · have hproc : ((icMissed p (xrLineTag address.toNat) reply s).machine p).proc.id = p :=
        h.plant.ids p
      rw [hproc] at hmem
      refine (hmissed.reset (p := p) hinv fun w i hw k hk => ?_).of_mem hmem
      rw [hl] at hw ⊢
      rw [hdc]
      exact hout hnone heb w i hw k hk
  · exact hmissed.of_mem (hhandled heb)

/-! ### Every run -/

/-- What holds in every state of a run: the lines, waiting or in RAM, are the flat memory
that the completed stores have made. -/
structure StoresKept (s₀ : XrCachedSys LineRam) (trace : List (XrMemOp × XrResult))
    (s : XrCachedSys LineRam) : Prop where
  inv : CacheInv s₀.mem.present s₀.mem.bus.populated s
  agrees : Agrees s₀.mem.bus.populated (flatMemory s₀.mem.bus.bytes trace) s
  reads : FlatReads s₀.mem.bus.bytes trace

theorem flatReads_snoc {flat : Nat → Byte} {trace : List (XrMemOp × XrResult)}
    (h : FlatReads flat trace) {o : XrMemOp} {r : XrResult}
    (hlast : ∀ p a, o = .access p a → a.read = true → r.1 = .done →
      r.2 = some (zext (fun k => flatMemory flat trace (a.address + k)) a.length)) :
    FlatReads flat (trace ++ [(o, r)]) := by
  intro before p a r' after htrace hread hdone
  rcases Lists.snoc_split htrace with ⟨rfl, hop, rfl⟩ | ⟨rest, rfl, hrest⟩
  · cases hop
    exact hlast p a rfl hread hdone
  · exact h before p a r' rest hrest hread hdone

theorem flatMemory_snoc (flat : Nat → Byte) (trace : List (XrMemOp × XrResult)) (o : XrMemOp)
    (r : XrResult) : flatMemory flat (trace ++ [(o, r)]) = o.flatAfter (flatMemory flat trace) r := by
  simp [flatMemory]

theorem ResetRun.kept {s₀ : XrCachedSys LineRam} (hs : ColdStart s₀)
    {trace : List (XrMemOp × XrResult)} (h : ResetRun s₀ trace s) : StoresKept s₀ trace s := by
  induction h with
  | nil => exact ⟨hs.inv, hs.agrees, fun before p a r after he => by simp at he⟩
  | @op trace s o r s' _ hl he hhandled ih =>
      cases o with
      | access p a =>
          obtain ⟨r', s'', he', hserved⟩ := exec_access_served ih.inv hl.2 hl.1
          rw [he] at he'
          cases he'
          refine ⟨hserved.inv, ?_, flatReads_snoc ih.reads fun q b hop => ?_⟩
          · rw [flatMemory_snoc]
            exact exec_agrees ih.inv ih.agrees hl he (hhandled p a rfl)
          · cases hop
            exact hserved.value ih.agrees
      | flush p =>
          have hrun := exec_flush_sinks (p := p) ih.inv
          cases he
          refine ⟨hrun.inv, ?_, flatReads_snoc ih.reads fun q b hop => nomatch hop⟩
          rw [flatMemory_snoc]
          exact hrun.agrees ih.agrees
      | dcachectrl p value =>
          have hrun := exec_dcachectrl_sinks (p := p) ih.inv value
          cases he
          refine ⟨hrun.inv, ?_, flatReads_snoc ih.reads fun q b hop => nomatch hop⟩
          rw [flatMemory_snoc]
          exact hrun.agrees ih.agrees
  | @busError trace s p a r s' value t _ hl he heb hv hr het hout ih =>
      obtain ⟨hinv, hmem, hag⟩ := exec_busError ih.inv heb hv hl hr he het
      obtain ⟨r', s'', he', hserved⟩ := exec_access_served ih.inv hl.2 hl.1
      rw [he] at he'
      cases he'
      refine ⟨hserved.inv, ?_, flatReads_snoc ih.reads fun q b hop _ hdone => ?_⟩
      · rw [flatMemory_snoc, XrMemOp.flatAfter_same (.inl (by rw [hr]; simp))]
        exact ((hag ih.agrees).reset hinv hout).of_mem hmem
      · rw [hr] at hdone
        cases hdone
  | @reset trace s p _ hout ih =>
      have hm : Excepted (s.machine p) (xrReset (s.machine p)) := ⟨rfl, .inr rfl, .inr rfl⟩
      refine ⟨(excepted_setMachine ih.inv hm).1, ?_, ih.reads⟩
      exact (ih.agrees.reset ih.inv hout).of_mem (mem_resetProc (ih.inv.plant.ids p))
  | @fetch trace s p address _ hout ih =>
      exact ⟨ih.inv.fetch p address, ih.agrees.fetch ih.inv p address hout, ih.reads⟩
  | @icachectrl trace s p value _ ih =>
      have hid : (s.machine p).proc.id = p := ih.inv.plant.ids p
      rw [mtcrIcachectrl, setMachine_onIcache hid, setMachine_self]
      have hl := lines_icachectrl p value s
      exact ⟨ih.inv.onCache_same hl, ih.agrees.onCache_same ih.inv hl rfl, ih.reads⟩
  | @core trace s p upd hint cycles _ hid ih =>
      have hl := @lines_onCache_same LineRam p
        (fun c => { c with dtbLastResult := hint, wbCycles := cycles }) s ⟨rfl, rfl, rfl, rfl⟩
      have hinv := ih.inv.onCache_same hl
      refine ⟨hinv.of_mem (ids_setMachine hinv (hid (s.procs p))) rfl, ?_, ih.reads⟩
      exact (ih.agrees.onCache_same ih.inv hl rfl).of_mem rfl

/-- `XrReset` and the stores, in every run from `s₀`. -/
structure ResetsKeepStores (s₀ : XrCachedSys LineRam) : Prop where
  /-- `XrReset` keeps the lines equal to RAM exactly with a write buffer that RAM has got. -/
  reset : ∀ {s p}, CacheReach s₀ s → LinesInRam s →
    (LinesInRam (resetProc p s) ↔ WrittenOut p s)
  /-- And so it does when a bus error calls it, in state `t`. -/
  busError : ∀ {s p a r s' value t}, CacheReach s₀ s → LinesInRam s →
    (XrMemOp.access p a).Legal s.mem.present → (XrMemOp.access p a).exec s = some (r, s') →
    r.1 = .fault → (s.procs p).cr crEb = 0 → value ≠ 0 →
    (XrMemOp.access p a).exec (withEb p value s) = some (r, t) →
    (LinesInRam s' ↔ WrittenOut p t)
  /-- If all its resets are such, a run has lines equal to RAM throughout. -/
  lines : ∀ {trace s}, ResetRun s₀ trace s → LinesInRam s
  /-- Every load then delivers what the completed stores before it have left. -/
  reads : ∀ {trace s}, ResetRun s₀ trace s → FlatReads s₀.mem.bus.bytes trace

theorem resets_keep_stores_iff (n : Nat) (ram : LineRam) : ResetsKeepStores (cold n ram) where
  reset {s p} hreach hs := by
    have hinv := hreach.inv.inv
    rw [linesInRam_of_mem (mem_resetProc (hinv.plant.ids p))]
    exact linesInRam_reset_iff hinv hs
  busError {s p a r s' value t} hreach hs hl he hr heb hv het := by
    have hinv := hreach.inv.inv
    obtain ⟨flat, hflat⟩ := hs.agrees hinv
    obtain ⟨hinvt, hmem, hag⟩ := exec_busError hinv heb hv hl hr he het
    rw [linesInRam_of_mem hmem]
    exact linesInRam_reset_iff hinvt ((hag hflat).linesInRam hinvt)
  lines h := by
    have hkept := h.kept (coldStart_cold n ram)
    exact hkept.agrees.linesInRam hkept.inv
  reads h := (h.kept (coldStart_cold n ram)).reads

/-- Processor 0 stores 1 to address 0 and resets: the line is 1, RAM stays 0, and nothing
will write the line out. -/
theorem reset_leaves_line :
    ¬∀ s p, CacheReach (cold 1 LineRam.zeroed) s → LinesInRam s → LinesInRam (resetProc p s) := by
  intro hall
  let store : XrAccessReq := ⟨0, false, 1, 4, false⟩
  have hstore : ((xrDcacheAccess 0 store none).run (cold 1 LineRam.zeroed)).1 = .inr (.done, none) := by
    decide
  have hp : (cold 1 LineRam.zeroed).mem.present 0 = true ∧ 0 < xrProcMax := by decide
  have hlegal : (XrMemOp.access 0 store).Legal (cold 1 LineRam.zeroed).mem.present :=
    ⟨hp, by decide, by decide⟩
  have hexec := XrMemOp.exec_access hstore
  have hrun : ResetRun (cold 1 LineRam.zeroed) ([] ++ [(.access 0 store, .done, none)]) _ :=
    .op .nil hlegal hexec (fun _ _ _ he => by cases he)
  have hkept := hrun.kept (coldStart_cold 1 LineRam.zeroed)
  have hlines := hall _ 0 (.single (.op hlegal hexec)) (hkept.agrees.linesInRam hkept.inv)
  have heq := hlines 0 0 0 ⟨by decide, by decide⟩ (by decide) 0 (by decide)
  revert heq
  decide

end

end Xremu
