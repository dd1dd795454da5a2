import Xremu.Cached.Flat

/-!
# One access at a time

The lock programs run to their ends, nobody else running. What an operation
does to the invariants, to the flat memory and to the set of cached lines is
said once here, by function; the runs of `Transparent.lean` and of
`LoadLinked.lean` are sequences of these.
-/

namespace Xremu

open Concurrency XrCachedSys

/-! ## Operations -/

inductive XrMemOp where
  | access (p : Nat) (a : XrAccessReq)
  | flush (p : Nat)
  | dcachectrl (p : Nat) (value : Word)

namespace XrMemOp

/-- The operation run to its end. `XrDcacheAccess` jumps back to `restart` at most
once when nobody interferes. -/
def exec : XrMemOp → XrCachedSys LineRam → Option (XrResult × XrCachedSys LineRam)
  | .access p a, s => runLoop (xrDcacheAccess p a) 2 none s
  | .flush p, s => some ((.done, none), ((xrFlushWriteBuffer p).run s).2)
  | .dcachectrl p value, s => some ((.done, none), ((mtcrDcachectrl p value).run s).2)

/-- By a processor that exists, and naturally aligned. -/
def Legal (present : Nat → Bool) : XrMemOp → Prop
  | .access p a => (present p = true ∧ p < xrProcMax) ∧ a.Aligned
  | .flush p => present p = true ∧ p < xrProcMax
  | .dcachectrl p _ => present p = true ∧ p < xrProcMax

/-- What the operation does to a flat memory. -/
def flatAfter (flat : Nat → Byte) : XrMemOp → XrResult → Nat → Byte
  | .access _ a, r => if r.1 = .done ∧ a.read = false then flatWrite flat a else flat
  | _, _ => flat

theorem exec_access {p : Nat} {a : XrAccessReq} {s : XrCachedSys LineRam} {r : XrResult}
    (h : ((xrDcacheAccess p a none).run s).1 = .inr r) :
    (XrMemOp.access p a).exec s = some (r, ((xrDcacheAccess p a none).run s).2) :=
  runLoop_return h

theorem flatAfter_same {flat : Nat → Byte} {p : Nat} {a : XrAccessReq} {r : XrResult}
    (h : r.1 ≠ .done ∨ a.read = true) : (XrMemOp.access p a).flatAfter flat r = flat := by
  refine if_neg fun hw => ?_
  rcases h with h | h
  · exact h hw.1
  · rw [hw.2] at h
    cases h

/-- An access that would take a bus error finds `EB` set, or nothing in the write
buffer that a reset could lose: it is empty, or full and flushed first. -/
def Spares (s : XrCachedSys LineRam) : XrMemOp → Prop
  | .access p a =>
      s.mem.bus.populated a.tag = true ∨ a.sc = true ∨ (s.procs p).cr crEb ≠ 0 ∨
        (∀ w, w < 4 → (s.cache p).wbIndices w = none) ∨
        (a.read = false ∧ ∀ w, w < 4 → (s.cache p).wbIndices w ≠ none)
  | _ => True

end XrMemOp

/-! ## The functions of `Dcache.lean`, run without interruption -/

section Runs

variable {present populated : Nat → Bool} {flat : Nat → Byte} {s : XrCachedSys LineRam} {p : Nat}
  {a : XrAccessReq}

theorem run_flushEntries (is : List Nat) (h : CacheInv present populated s) :
    Sinks present populated s ((flushEntries p is).run s).2 ∧
      (∀ i ∈ is, ((flushEntries p is).run s).2.lines.wb p i = none) ∧
      ((flushEntries p is).run s).2.lines.flags = s.lines.flags := by
  induction is generalizing s with
  | nil => exact ⟨Sinks.refl h, by simp, rfl⟩
  | cons i is ih =>
      simp only [flushEntries, Prog.run_bind, Prog.run_get]
      split
      · next hw =>
          have hrest := ih h
          refine ⟨hrest.1, fun j hj => ?_, hrest.2.2⟩
          rcases List.mem_cons.mp hj with rfl | hj
          · exact (hrest.1.falls.own p).wb_none hw
          · exact hrest.2.1 j hj
      · next index hw =>
          have hne : (s.cache p).wbIndices i ≠ none := by simp [hw]
          simp only [xrLockCache, xrUnlockCache, Prog.run_bind, Prog.run_acquire, Prog.run_get,
            hne, if_false, Prog.run_modify, Prog.run_release]
          have hout := Sinks.writeOut h (p := p) (w := i) (i := index) hw
          have hrest := ih hout.inv
          refine ⟨hout.trans hrest.1, fun j hj => ?_, hrest.2.2.trans (flags_clearWb p i index _)⟩
          rcases List.mem_cons.mp hj with rfl | hj
          · refine (hrest.1.falls.own p).wb_none ?_
            simp [XrCache.clearWb]
          · exact hrest.2.1 j hj

theorem run_xrFlushWriteBuffer (h : CacheInv present populated s) :
    Sinks present populated s ((xrFlushWriteBuffer p).run s).2 ∧
      (∀ w, ((xrFlushWriteBuffer p).run s).2.lines.wb p w = none) ∧
      ((xrFlushWriteBuffer p).run s).2.lines.flags = s.lines.flags := by
  have hrun := run_flushEntries (p := p) xrWbEntries h
  refine ⟨hrun.1, fun w => ?_, hrun.2.2⟩
  by_cases hw : w < 4
  · refine hrun.2.1 w ?_
    simp only [xrWbEntries, List.mem_cons, List.not_mem_nil, or_false]
    omega
  · cases hb : ((xrFlushWriteBuffer p).run s).2.lines.wb p w with
    | none => rfl
    | some i => exact absurd (hrun.1.inv.lines.depth hb) hw

theorem run_xrDowngradeLine (q tag : Nat) (f : XrLine) (s : XrCachedSys LineRam) :
    (xrDowngradeLine q tag f).run s = ((), downgrade q tag f s) := by
  simp [xrDowngradeLine, xrLockCache, xrUnlockCache]

/-- After a downgrade the line is low. -/
theorem low_downgrade (h : Coherent present populated s.lines) (q tag : Nat) (f : XrLine) {i : Nat}
    (hi : (downgrade q tag f s).lines.Has q i tag) :
    ((downgrade q tag f s).lines.flags q i).rank ≤ f.rank := by
  have htag := hi.2
  rw [(falls_downgrade h q tag f).tags] at htag
  rw [flags_downgrade h]
  split
  · exact Nat.le_refl _
  · next hne => exact Nat.le_of_not_lt fun hlt => hne ⟨rfl, htag, hlt⟩

theorem run_downgradeProcs (thisproc : Option Nat) (tag : Nat) (f : XrLine) (is : List Nat)
    (h : CacheInv present populated s) :
    Sinks present populated s ((downgradeProcs thisproc tag f is).run s).2 ∧
      ∀ q i, q ∈ is → present q = true → thisproc ≠ some q →
        ((downgradeProcs thisproc tag f is).run s).2.lines.Has q i tag →
        (((downgradeProcs thisproc tag f is).run s).2.lines.flags q i).rank ≤ f.rank := by
  induction is generalizing s with
  | nil => exact ⟨Sinks.refl h, by simp⟩
  | cons x is ih =>
      simp only [downgradeProcs, Prog.run_bind, Prog.run_get]
      by_cases hskip : s.mem.present x = false ∨ thisproc = some x
      · simp only [hskip, if_true]
        have hrest := ih h
        refine ⟨hrest.1, fun q i hq hpres hthis => ?_⟩
        rcases List.mem_cons.mp hq with rfl | hq
        · rw [h.plant.table] at hskip
          rcases hskip with h0 | h0
          · rw [h0] at hpres
            cases hpres
          · exact absurd h0 hthis
        · exact hrest.2 q i hq hpres hthis
      · simp only [hskip, if_false, Prog.run_bind, run_xrDowngradeLine]
        have hdown := Sinks.downgrade h x tag f
        have hrest := ih hdown.inv
        refine ⟨hdown.trans hrest.1, fun q i hq hpres hthis hi => ?_⟩
        rcases List.mem_cons.mp hq with rfl | hq
        · exact Nat.le_trans (hrest.1.falls.flags q i)
            (low_downgrade h.lines q tag f (hrest.1.falls.has hi))
        · exact hrest.2 q i hq hpres hthis hi

theorem run_xrDowngradeAll (thisproc : Option Nat) (tag : Nat) (f : XrLine)
    (h : CacheInv present populated s) :
    Sinks present populated s ((xrDowngradeAll thisproc tag f).run s).2 ∧
      ∀ q i, thisproc ≠ some q → ((xrDowngradeAll thisproc tag f).run s).2.lines.Has q i tag →
        (((xrDowngradeAll thisproc tag f).run s).2.lines.flags q i).rank ≤ f.rank := by
  have hrun := run_downgradeProcs thisproc tag f (List.range xrProcMax) h
  refine ⟨hrun.1, fun q i hthis hi => ?_⟩
  have hpres := hrun.1.inv.lines.present hi
  exact hrun.2 q i (List.mem_range.mpr hpres.2) hpres.1 hthis hi

theorem run_stealScacheEntry (j : Nat) (h : CacheInv present populated s) :
    Sinks present populated s ((stealScacheEntry j).run s).2 ∧
      ∀ q i t, ((stealScacheEntry j).run s).2.lines.Has q i t → xrScSetNumber t ≠ j := by
  -- A line of the set is the line of the entry.
  have hentry : ∀ s', Sinks present populated s s' → ∀ q i t, s'.lines.Has q i t →
      xrScSetNumber t = j → s'.lines.Has q i (s.mem.scache.tags j) := by
    intro s' hs' q i t hi hset
    have htag := (hs'.inv.lines.included hi).2
    rw [hset, hs'.falls.scTags] at htag
    rwa [show s.mem.scache.tags j = t from htag]
  have hnot : ∀ {f : XrLine}, f.rank ≤ XrLine.invalid.rank → f = .invalid :=
    fun hf => XrLine.rank_eq_zero.mp (Nat.le_zero.mp hf)
  simp only [stealScacheEntry, Prog.run_bind, Prog.run_get]
  split
  · next hj =>
      refine ⟨Sinks.refl h, fun q i t hi hset => (h.lines.included hi).1 ?_⟩
      rw [hset]
      exact hj
  · have hrun := run_xrDowngradeAll none (s.mem.scache.tags j) .invalid h
    refine ⟨hrun.1, fun q i t hi hset => ?_⟩
    have hi' := hentry _ hrun.1 q i t hi hset
    exact hi'.1 (hnot (hrun.2 q i (by simp) hi'))
  · next hj =>
      rw [run_xrDowngradeLine]
      have hdown := Sinks.downgrade h (s.mem.scache.exclusiveIds j) (s.mem.scache.tags j) .invalid
      refine ⟨hdown, fun q i t hi hset => ?_⟩
      have hi' := hentry _ hdown q i t hi hset
      have hx : (downgrade (s.mem.scache.exclusiveIds j) (s.mem.scache.tags j) .invalid s).lines.scFlags
          (xrScSetNumber t) = .exclusive := by
        rw [hset, hdown.falls.scFlags]
        exact hj
      have hq := hdown.inv.lines.alone hi hx
      rw [hset, hdown.falls.scIds] at hq
      obtain rfl : s.mem.scache.exclusiveIds j = q := hq
      exact hi'.1 (hnot (low_downgrade h.lines _ _ _ hi'))

/-- The Scache entry of a missing line, claimed for `p`. -/
structure Claims (present populated : Nat → Bool) (p tag : Nat) (f : XrLine)
    (s s' : XrCachedSys LineRam) : Prop where
  inv : CacheInv present populated s'
  agrees : ∀ {flat}, Agrees populated flat s → Agrees populated flat s'
  own : ∀ q, OwnFalls q s.lines s'.lines
  cr : ∀ q, (s'.procs q).cr = (s.procs q).cr
  claimed : Claimed p tag f s'.lines

theorem Agrees.onScache (ha : Agrees populated flat s) (f : XrScache → XrScache) :
    Agrees populated flat (onScache f s) :=
  ha.of_same id (fun _ _ _ _ => rfl) rfl fun hw => ⟨hw, rfl⟩

theorem run_xrFindOrReplaceInScache_found {tag : Nat} {f : XrLine}
    (hf : s.mem.scache.flags (xrScSetNumber tag) ≠ .invalid ∧
      s.mem.scache.tags (xrScSetNumber tag) = tag) :
    (xrFindOrReplaceInScache p tag f).run s = ((xrScSetNumber tag, false), s) := by
  simp [xrFindOrReplaceInScache, xrFindInScache, hf]

theorem run_xrFindOrReplaceInScache_created {tag : Nat} {f : XrLine} (htag : tag % 16 = 0)
    (h : CacheInv present populated s)
    (hf : ¬(s.mem.scache.flags (xrScSetNumber tag) ≠ .invalid ∧
      s.mem.scache.tags (xrScSetNumber tag) = tag)) :
    ((xrFindOrReplaceInScache p tag f).run s).1 = (xrScSetNumber tag, true) ∧
      Claims present populated p tag f s ((xrFindOrReplaceInScache p tag f).run s).2 := by
  have hfind : xrFindInScache s.mem.scache tag = none := if_neg hf
  simp only [xrFindOrReplaceInScache, hfind, Prog.run_bind, Prog.run_get, Prog.run_modify,
    Prog.run_pure, true_and]
  have hnext : Sinks present populated s (nextScReplacement s) :=
    ⟨⟨h.plant.onScache _, h.lines⟩, fun ha => ha.onScache _, h.lines.refl_falls, fun _ => rfl, fun _ => rfl⟩
  have hsteal := run_stealScacheEntry (xrScSetNumber tag) hnext.inv
  have hsinks := hnext.trans hsteal.1
  refine ⟨⟨hsinks.inv.plant.onScache _, ?_⟩, fun ha => (hsinks.agrees ha).onScache _,
    fun q => (hsinks.falls.own q).trans ⟨rfl, fun _ => Nat.le_refl _, id⟩, hsinks.cr, ?_⟩
  · rw [lines_scFill]
    exact hsinks.inv.lines.setSc hsteal.2 fun _ => ⟨rfl, htag⟩
  · rw [lines_scFill]
    constructor <;> simp [LineView.setSc]

theorem run_downgradeHolders (h : CacheInv present populated s) :
    Sinks present populated s ((downgradeHolders (xrScSetNumber a.tag) a).run s).2 ∧
      (a.read = false → ∀ q i,
        ¬((downgradeHolders (xrScSetNumber a.tag) a).run s).2.lines.Has q i a.tag) ∧
      ∀ q i, ((downgradeHolders (xrScSetNumber a.tag) a).run s).2.lines.flags q i = .exclusive →
        ((downgradeHolders (xrScSetNumber a.tag) a).run s).2.lines.tags q i ≠ a.tag := by
  have hnot : ∀ {f : XrLine}, f.rank ≤ XrLine.invalid.rank → f = .invalid :=
    fun hf => XrLine.rank_eq_zero.mp (Nat.le_zero.mp hf)
  simp only [downgradeHolders, Prog.run_bind, Prog.run_get]
  split
  · next hx =>
      rw [run_xrDowngradeLine]
      have hdown := Sinks.downgrade h (s.mem.scache.exclusiveIds (xrScSetNumber a.tag)) a.tag
        (if a.read then .shared else .invalid)
      generalize hf : (if a.read then XrLine.shared else .invalid) = f at hdown ⊢
      have hone : ∀ q i, (downgrade (s.mem.scache.exclusiveIds (xrScSetNumber a.tag)) a.tag f
          s).lines.Has q i a.tag → ((downgrade (s.mem.scache.exclusiveIds (xrScSetNumber a.tag)) a.tag
          f s).lines.flags q i).rank ≤ f.rank := by
        intro q i hi
        have hq := hdown.inv.lines.alone hi (by rw [hdown.falls.scFlags]; exact hx)
        rw [hdown.falls.scIds] at hq
        obtain rfl : s.mem.scache.exclusiveIds (xrScSetNumber a.tag) = q := hq
        exact low_downgrade h.lines _ _ _ hi
      refine ⟨hdown, fun hr q i hi => ?_, fun q i hqx ht => ?_⟩
      · obtain rfl : XrLine.invalid = f := by simpa [hr] using hf
        exact hi.1 (hnot (hone q i hi))
      · have hrank := hone q i ⟨by rw [hqx]; simp, ht⟩
        rw [hqx, ← hf] at hrank
        split at hrank <;> simp [XrLine.rank] at hrank
  · next hs =>
      split
      · next hr =>
          refine ⟨Sinks.refl h, by simp [hr], fun q i hqx ht => ?_⟩
          have hsc := h.lines.owned (p := q) (i := i) hqx
          rw [show s.lines.tags q i = a.tag from ht, lines_scFlags, hs] at hsc
          cases hsc
      · have hrun := run_xrDowngradeAll none a.tag .invalid h
        have hnone : ∀ q i,
            ¬((xrDowngradeAll none a.tag .invalid).run s).2.lines.Has q i a.tag :=
          fun q i hi => hi.1 (hnot (hrun.2 q i (by simp) hi))
        exact ⟨hrun.1, fun _ => hnone, fun q i hqx ht => hnone q i ⟨by rw [hqx]; simp, ht⟩⟩
  · next h0 =>
      have hno : ∀ q i, ¬s.lines.Has q i a.tag := fun q i hi => (h.lines.included hi).1 h0
      exact ⟨Sinks.refl h, fun _ => hno, fun q i hqx ht => hno q i ⟨by
        rw [show s.lines.flags q i = .exclusive from hqx]; simp, ht⟩⟩

theorem run_claimScacheEntry (h : CacheInv present populated s) :
    ((claimScacheEntry p a).run s).1 = xrScSetNumber a.tag ∧
      Claims present populated p a.tag a.newstate s ((claimScacheEntry p a).run s).2 := by
  have htag : a.tag % 16 = 0 := xrLineTag_aligned _
  by_cases hf : s.mem.scache.flags (xrScSetNumber a.tag) ≠ .invalid ∧
      s.mem.scache.tags (xrScSetNumber a.tag) = a.tag
  · simp only [claimScacheEntry, Prog.run_bind, run_xrFindOrReplaceInScache_found hf,
      Bool.false_eq_true, if_false, Prog.run_modify, Prog.run_pure, true_and]
    have hrun := run_downgradeHolders (a := a) h
    generalize ((downgradeHolders (xrScSetNumber a.tag) a).run s).2 = s' at hrun ⊢
    obtain ⟨hsinks, hall, hx⟩ := hrun
    have htag' : s'.lines.scTags (xrScSetNumber a.tag) = a.tag := by
      rw [hsinks.falls.scTags]
      exact hf.2
    have hlines : (onScache (XrScache.setState (xrScSetNumber a.tag) p a.newstate) s').lines =
        s'.lines.setSc (xrScSetNumber a.tag) a.newstate
          (s'.lines.scTags (xrScSetNumber a.tag)) p := by
      simp [lines, LineView.setSc, XrScache.setState]
    refine ⟨⟨hsinks.inv.plant.onScache _, ?_⟩, fun ha => (hsinks.agrees ha).onScache _,
      fun q => (hsinks.falls.own q).trans ⟨rfl, fun _ => Nat.le_refl _, id⟩, hsinks.cr, ?_⟩
    · rw [hlines]
      have hvalid : s'.lines.scFlags (xrScSetNumber a.tag) ≠ .invalid := by
        rw [hsinks.falls.scFlags]
        exact hf.1
      exact coherent_setScState hsinks.inv hvalid htag' hall hx
    · rw [hlines, htag']
      constructor <;> simp [LineView.setSc]
  · have hrun := run_xrFindOrReplaceInScache_created (p := p) (f := a.newstate) htag h hf
    simp only [claimScacheEntry, Prog.run_bind, hrun.1, if_true, Prog.run_pure]
    exact ⟨trivial, hrun.2⟩

/-- The access cannot lose a line of the write buffer to a reset: it cannot take a
bus error, or the error does not reset, or there is nothing to lose. -/
def Keeps (populated : Nat → Bool) (p : Nat) (a : XrAccessReq) (s : XrCachedSys LineRam) : Prop :=
  a.sc = true ∨ populated a.tag = true ∨ (s.procs p).cr crEb ≠ 0 ∨ ∀ w, s.lines.wb p w = none

/-- An access of `p` that took `s` to `s'`. `keeps` is what it takes to lose no
data on the way. -/
structure Served (present populated : Nat → Bool) (keeps : Prop) (p : Nat) (a : XrAccessReq)
    (r : XrResult) (s s' : XrCachedSys LineRam) : Prop where
  inv : CacheInv present populated s'
  agrees : ∀ {flat}, keeps → Agrees populated flat s →
    Agrees populated ((XrMemOp.access p a).flatAfter flat r) s'
  value : ∀ {flat}, Agrees populated flat s → a.read = true → r.1 = .done →
    r.2 = some (zext (fun k => flat (a.address + k)) a.length)
  fetched : ∀ {q i t}, s'.lines.Has q i t →
    (∃ j, s.lines.Has q j t) ∨ (r.1 = .done ∧ q = p ∧ t = a.tag ∧ a.sc = false)
  alone : a.read = false → r.1 = .done → ∀ {q i}, s'.lines.Has q i a.tag → q = p
  sc : a.sc = true → (r.1 = .done ↔ ∃ i, s.lines.Has p i a.tag)

/-- What happens before the access proper counts as part of it, if it brings in no
other line. -/
theorem Served.after {k k' : Prop} {r : XrResult} {s₁ s' : XrCachedSys LineRam}
    (h : Served present populated k p a r s₁ s') (hk : k' → k)
    (hag : ∀ {flat}, Agrees populated flat s → Agrees populated flat s₁)
    (hfetch : ∀ {q i t}, s₁.lines.Has q i t →
      (∃ j, s.lines.Has q j t) ∨ (r.1 = .done ∧ q = p ∧ t = a.tag ∧ a.sc = false))
    (hsc : a.sc = true → ((∃ i, s₁.lines.Has p i a.tag) ↔ ∃ i, s.lines.Has p i a.tag)) :
    Served present populated k' p a r s s' where
  inv := h.inv
  agrees hk' ha := h.agrees (hk hk') (hag ha)
  value ha := h.value (hag ha)
  fetched {q i t} hi := by
    rcases h.fetched hi with ⟨j, hj⟩ | hnew
    · exact hfetch hj
    · exact Or.inr hnew
  alone := h.alone
  sc hs := (h.sc hs).trans (hsc hs)

/-- An access that failed on the way and only lost rights. -/
theorem served_fault {keeps : Prop} {r : XrResult} {s' : XrCachedSys LineRam}
    (hinv : CacheInv present populated s') (hr : r.1 ≠ .done)
    (hag : ∀ {flat}, keeps → Agrees populated flat s → Agrees populated flat s')
    (hfall : ∀ {q i t}, s'.lines.Has q i t → s.lines.Has q i t)
    (hsc : a.sc = true → ∀ i, ¬s.lines.Has p i a.tag) :
    Served present populated keeps p a r s s' where
  inv := hinv
  agrees hk ha := by
    rw [XrMemOp.flatAfter_same (Or.inl hr)]
    exact hag hk ha
  value _ _ hd := absurd hd hr
  fetched {_ i _} hi := Or.inl ⟨i, hfall hi⟩
  alone _ hd := absurd hd hr
  sc hs := ⟨fun hd => absurd hd hr, fun hi => absurd hi.choose_spec (hsc hs hi.choose)⟩

/-- A load from line `index`, which the access has just made sure of. -/
theorem served_load {keeps : Prop} {index : Nat} (h : CacheInv present populated s)
    (hal : a.Aligned) (hr : a.read = true) (hi : s.lines.Has p index a.tag) :
    Served present populated keeps p a (.done, some (loadFromLine s p index a)) s s where
  inv := h
  agrees _ ha := by
    rw [XrMemOp.flatAfter_same (Or.inr hr)]
    exact ha
  value ha _ _ := congrArg some (ha.load hal hi)
  fetched {_ i _} hi := Or.inl ⟨i, hi⟩
  alone hw := by
    rw [hr] at hw
    cases hw
  sc _ := ⟨fun _ => ⟨index, hi⟩, fun _ => rfl⟩

theorem cr_replaceLine (h : CacheInv present populated s) (q : Nat) :
    ((replaceLine p a s).2.procs q).cr = (s.procs q).cr := by
  have hroom := (Sinks.makeRoom h p a).cr q
  rw [← hroom]
  simp only [replaceLine, fillLine, readLine]
  split
  · exact cr_busDone p _ _ q
  · exact cr_busDone p _ (onCache p (·.setLine (replacedLine s p a) a.newstate a.tag)
      (makeRoom p a s)) q

/-- A line that is exclusive in `p` is in no other Dcache. -/
theorem Coherent.exclusive_alone (h : Coherent present populated s.lines) {index t : Nat}
    (hx : s.lines.flags p index = .exclusive) (ht : s.lines.tags p index = t) {q i : Nat}
    (hi : s.lines.Has q i t) : q = p := by
  have hown := h.owned hx
  have hhas : s.lines.Has p index t := ⟨by rw [hx]; simp, ht⟩
  rw [ht] at hown
  exact (h.alone hi hown).symm.trans (h.alone hhas hown)

/-- A store to line `index`, exclusive and in the write buffer when it is done. -/
theorem served_exclusive {keeps : Prop} {index : Nat} {s' : XrCachedSys LineRam}
    (h : CacheInv present populated s) (hinv : CacheInv present populated s')
    (hr : a.read = false) (hx : s.lines.flags p index = .exclusive)
    (ht : s.lines.tags p index = a.tag) (hflags : s'.lines.flags = s.lines.flags)
    (htags : s'.lines.tags = s.lines.tags)
    (hag : ∀ {flat}, Agrees populated flat s → Agrees populated (flatWrite flat a) s') :
    Served present populated keeps p a (.done, none) s s' := by
  have hold : ∀ {q i t}, s'.lines.Has q i t → s.lines.Has q i t := by
    intro q i t hi
    unfold LineView.Has at hi ⊢
    rwa [hflags, htags] at hi
  refine ⟨hinv, fun _ ha => ?_, by simp [hr], fun {_ i _} hi => Or.inl ⟨i, hold hi⟩,
    fun _ _ q i hi => h.lines.exclusive_alone hx ht (hold hi), fun _ => ?_⟩
  · simpa [XrMemOp.flatAfter, hr] using hag ha
  · exact ⟨fun _ => ⟨index, by rw [hx]; simp, ht⟩, fun _ => rfl⟩

/-- A store into line `index`, which the access has just made sure of. -/
theorem served_store {keeps : Prop} {fw index : Nat} (h : CacheInv present populated s)
    (hal : a.Aligned) (hr : a.read = false) (hx : s.lines.flags p index = .exclusive)
    (ht : s.lines.tags p index = a.tag) (hout : s.lines.wbOf p index = none)
    (hfw : s.lines.wb p fw = none ∧ fw < 4) :
    Served present populated keeps p a (.done, none) s (storeToLine p fw index a s) := by
  have hl := lines_storeToLine p fw index a s
  have hinv : CacheInv present populated (storeToLine p fw index a s) :=
    ⟨h.plant.onCache p _, by rw [hl]; exact h.lines.insertWb hfw.1 hout hfw.2 hx⟩
  refine served_exclusive h hinv hr hx ht (by rw [hl]; rfl) (by rw [hl]; rfl) fun ha => ?_
  refine ha.store h.lines hal hx ht (by rw [hl]; rfl) (by rw [hl]; rfl) (fun {q w i} hw => ?_)
    ⟨fw, by rw [hl]; simp [LineView.insertWb]⟩ rfl fun q j => ?_
  · rw [hl]
    by_cases hq : q = p
    · subst hq
      have hwfw : w ≠ fw := by
        rintro rfl
        rw [hfw.1] at hw
        cases hw
      simpa [LineView.insertWb, hwfw] using hw
    · simpa [LineView.insertWb, hq] using hw
  · by_cases hq : q = p
    · subst hq
      by_cases hj : j = index
      · subst hj
        simp [storeToLine, XrCache.mergeData, XrCache.setData, XrCache.insertWb]
      · simp [storeToLine, XrCache.mergeData, XrCache.setData, XrCache.insertWb, hj]
    · simp [storeToLine, hq]

theorem run_dcacheFill {fw : Nat} (h : CacheInv present populated s) (hal : a.Aligned)
    (hp : present p = true ∧ p < xrProcMax) (hcl : Claimed p a.tag a.newstate s.lines)
    (hmiss : ∀ i, ¬s.lines.Has p i a.tag) (hsc : a.sc = false)
    (hfw : a.read = false → s.lines.wb p fw = none ∧ fw < 4) :
    ∃ r, ((dcacheFill p fw (xrScSetNumber a.tag) a).run s).1 = .inr r ∧
      Served present populated (Keeps populated p a s) p a r s
        ((dcacheFill p fw (xrScSetNumber a.tag) a).run s).2 := by
  have hans := answered_replaceLine (p := p) (a := a) h.plant
  have hfall := falls_makeRoom h.lines p a
  simp only [dcacheFill, xrLockCache, xrUnlockCache, xrUnlockScache, Prog.run_bind,
    Prog.run_acquire, Prog.run_modifyGet, hans]
  cases hpop : populated a.tag with
  | false =>
      simp only [if_true, Prog.run_bind, Prog.run_modify, Prog.run_release, Prog.run_pure]
      have hinv : CacheInv present populated
          (backOut p (replaceLine p a s).1.1 (xrScSetNumber a.tag) (replaceLine p a s).2) :=
        ⟨((h.plant.replaceLine p a).onScache _).onCache p _, coherent_backOut h hcl hpop⟩
      have herr := falls_busError hinv.plant hinv.lines p a.address
      have hl := lines_backOut_replaceLine s p (xrScSetNumber a.tag) a
      refine ⟨(.fault, none), rfl, served_fault ⟨hinv.plant.busError p _, hinv.lines.falls herr⟩
        (by simp) (fun hk ha => ?_) (fun hi => ?_) (by simp [hsc])⟩
      · refine agrees_busError hinv.plant (agrees_backOut h ha (xrScSetNumber a.tag) hpop) a.address ?_
        rcases hk with hk | hk | heb | hempty
        · rw [hsc] at hk
          cases hk
        · rw [hpop] at hk
          cases hk
        · left
          change ((replaceLine p a s).2.procs p).cr crEb ≠ 0
          rwa [cr_replaceLine h]
        · right
          intro w
          rw [hl]
          exact (hfall.own p).wb_none (hempty w)
      · have hback := herr.has hi
        rw [hl] at hback
        rcases LineView.has_setLine hback with ⟨-, -, -, h0⟩ | ⟨-, hold⟩
        · exact absurd rfl h0
        · exact hfall.has hold
  | true =>
      have hco := coherent_replaceLine h hcl hmiss hp hpop
      have hinv : CacheInv present populated (replaceLine p a s).2 := ⟨h.plant.replaceLine p a, hco⟩
      have hl := lines_replaceLine s p a
      have hindex : (replaceLine p a s).1.1 = replacedLine s p a := rfl
      have hhas : (replaceLine p a s).2.lines.flags p (replacedLine s p a) = a.newstate ∧
          (replaceLine p a s).2.lines.tags p (replacedLine s p a) = a.tag := by
        rw [hl, LineView.setLine_flags, LineView.setLine_tags, if_pos ⟨rfl, rfl⟩, if_pos ⟨rfl, rfl⟩]
        exact ⟨rfl, rfl⟩
      -- The line just filled is the only one that was not there before.
      have hfetch : ∀ {q i t}, (replaceLine p a s).2.lines.Has q i t →
          (∃ j, s.lines.Has q j t) ∨ (q = p ∧ t = a.tag ∧ a.sc = false) := by
        intro q i t hi
        rw [hl] at hi
        rcases LineView.has_setLine hi with ⟨rfl, -, rfl, -⟩ | ⟨-, hold⟩
        · exact Or.inr ⟨rfl, rfl, hsc⟩
        · exact Or.inl ⟨i, hfall.has hold⟩
      have hafter : ∀ {r s'}, r.1 = .done →
          Served present populated True p a r (replaceLine p a s).2 s' →
          Served present populated (Keeps populated p a s) p a r s s' := by
        intro r s' hd hserved
        refine hserved.after (fun _ => trivial) (fun ha => agrees_replaceLine h ha hcl hmiss hpop)
          (fun hi => ?_) (by simp [hsc])
        exact (hfetch hi).imp_right fun hnew => ⟨hd, hnew⟩
      simp only [hindex, Bool.true_eq_false, if_false, Prog.run_bind, Prog.run_release]
      cases hr : a.read with
      | true =>
          simp only [if_true, Prog.run_bind, Prog.run_get, Prog.run_release, Prog.run_pure]
          refine ⟨_, rfl, hafter rfl (served_load hinv hal hr ⟨?_, hhas.2⟩)⟩
          rw [hhas.1]
          exact newstate_ne_invalid a
      | false =>
          simp only [Bool.false_eq_true, if_false, Prog.run_bind, Prog.run_modify, Prog.run_release,
            Prog.run_pure]
          refine ⟨_, rfl, hafter rfl
            (served_store hinv hal hr ?_ hhas.2 (wbOf_replaceLine h.lines) ?_)⟩
          · rw [hhas.1]
            simp [XrAccessReq.newstate, hr]
          · rw [hl]
            exact ⟨(hfall.own p).wb_none (hfw hr).1, (hfw hr).2⟩

theorem run_dcacheMissed {fw : Nat} (h : CacheInv present populated s) (hal : a.Aligned)
    (hp : present p = true ∧ p < xrProcMax) (hmiss : ∀ i, ¬s.lines.Has p i a.tag)
    (hfw : a.read = false → s.lines.wb p fw = none ∧ fw < 4) :
    ∃ r, ((dcacheMissed p fw a).run s).1 = .inr r ∧
      Served present populated (Keeps populated p a s) p a r s ((dcacheMissed p fw a).run s).2 := by
  unfold dcacheMissed
  cases hsc : a.sc with
  | true =>
      simp only [if_true, Prog.run_pure]
      exact ⟨_, rfl, served_fault h (by simp) (fun _ ha => ha) id fun _ => hmiss⟩
  | false =>
      simp only [Bool.false_eq_true, if_false, dcacheMiss, xrLockScache, Prog.run_bind,
        Prog.run_acquire]
      have hrun := run_claimScacheEntry (p := p) (a := a) h
      rw [hrun.1]
      obtain ⟨r, hr, hserved⟩ := run_dcacheFill hrun.2.inv hal hp hrun.2.claimed
        (fun i hi => hmiss i ((hrun.2.own p).has hi)) hsc
        (fun hr => ⟨(hrun.2.own p).wb_none (hfw hr).1, (hfw hr).2⟩)
      refine ⟨r, hr, hserved.after (fun hk => ?_) hrun.2.agrees
        (fun {q i _} hi => Or.inl ⟨i, (hrun.2.own q).has hi⟩) (by simp [hsc])⟩
      rcases hk with hk | hpop | heb | hempty
      · exact Or.inl hk
      · exact Or.inr (Or.inl hpop)
      · refine Or.inr (Or.inr (Or.inl ?_))
        rwa [hrun.2.cr]
      · exact Or.inr (Or.inr (Or.inr fun w => (hrun.2.own p).wb_none (hempty w)))

theorem run_downgradeOthers (h : CacheInv present populated s) :
    Sinks present populated s ((downgradeOthers p (xrScSetNumber a.tag) a).run s).2 ∧
      ∀ q i, q ≠ p →
        ¬((downgradeOthers p (xrScSetNumber a.tag) a).run s).2.lines.Has q i a.tag := by
  have hnot : ∀ {f : XrLine}, f.rank ≤ XrLine.invalid.rank → f = .invalid :=
    fun hf => XrLine.rank_eq_zero.mp (Nat.le_zero.mp hf)
  simp only [downgradeOthers, Prog.run_bind, Prog.run_get]
  split
  · have hrun := run_xrDowngradeAll (some p) a.tag .invalid h
    exact ⟨hrun.1, fun q i hq hi => hi.1 (hnot (hrun.2 q i (by simpa using hq.symm) hi))⟩
  · next hx =>
      rw [run_xrDowngradeLine]
      have hdown := Sinks.downgrade h (s.mem.scache.exclusiveIds (xrScSetNumber a.tag)) a.tag .invalid
      refine ⟨hdown, fun q i _ hi => ?_⟩
      have hq := hdown.inv.lines.alone hi (by rw [hdown.falls.scFlags]; exact hx)
      rw [hdown.falls.scIds] at hq
      obtain rfl : s.mem.scache.exclusiveIds (xrScSetNumber a.tag) = q := hq
      exact hi.1 (hnot (low_downgrade h.lines _ _ _ hi))
  · next h0 => exact ⟨Sinks.refl h, fun q i _ hi => (h.lines.included hi).1 h0⟩

theorem agrees_makeExclusive (ha : Agrees populated flat s) {index : Nat}
    (ht : s.lines.tags p index = a.tag)
    (hdc : ∀ k, k < 16 → (s.cache p).dc index k = flat (a.tag + k)) (j : Nat) :
    Agrees populated flat (makeExclusive p index j s) := by
  have hl := lines_makeExclusive (j := j) ht
  have hcache : ∀ q, ((makeExclusive p index j s).cache q).dc = (s.cache q).dc := fun q => by
    by_cases hq : q = p <;> simp [makeExclusive, hq, XrCache.setFlag]
  refine ⟨fun {q i t} hi k hk => ?_, fun {t} hat hpt hnb k hk => ?_⟩
  · rw [hcache]
    rw [hl] at hi
    rcases LineView.has_setLine hi with ⟨rfl, rfl, rfl, -⟩ | ⟨-, hold⟩
    · exact hdc k hk
    · exact ha.cached hold k hk
  · refine ha.ram hat hpt (fun q w i hw => ?_) k hk
    have htags := hnb q w i (by rw [hl]; exact hw)
    rw [hl, LineView.setLine_tags] at htags
    split at htags
    · next hqi => rwa [hqi.1, hqi.2, ht]
    · exact htags

theorem run_dcacheUpgrade {keeps : Prop} {fw index : Nat} (h : CacheInv present populated s)
    (hal : a.Aligned) (hr : a.read = false) (hi : s.lines.Has p index a.tag)
    (hx : s.lines.flags p index ≠ .exclusive) (hfw : s.lines.wb p fw = none ∧ fw < 4) :
    ∃ r, ((dcacheUpgrade p fw index a).run s).1 = .inr r ∧
      Served present populated keeps p a r s ((dcacheUpgrade p fw index a).run s).2 := by
  have hsc := h.lines.included hi
  have hfind : xrFindInScache s.mem.scache a.tag = some (xrScSetNumber a.tag) := if_pos hsc
  have hvalid : (s.cache p).dcFlags index ≠ .invalid := hi.1
  simp only [dcacheUpgrade, xrLockScache, xrUnlockScache, Prog.run_bind, Prog.run_acquire,
    Prog.run_get, hvalid, if_false, hfind, Prog.run_modify, Prog.run_release, Prog.run_pure]
  have hrun := run_downgradeOthers (p := p) (a := a) h
  generalize ((downgradeOthers p (xrScSetNumber a.tag) a).run s).2 = s' at hrun ⊢
  obtain ⟨hs, hall⟩ := hrun
  have ht : s'.lines.tags p index = a.tag := by
    rw [hs.falls.tags]
    exact hi.2
  have hx' := (hs.falls.own p).not_exclusive hx
  have hfw' := (hs.falls.own p).wb_none hfw.1
  have hco := coherent_makeExclusive hs.inv ht hx' (h.lines.placed hi).1 (h.lines.populated hi)
    (h.lines.present hi) ⟨by rw [hs.falls.scFlags]; exact hsc.1, by rw [hs.falls.scTags]; exact hsc.2⟩
    hall fun j hj hjt => hj (h.lines.unique (hs.falls.has hjt) hi)
  have hl := lines_makeExclusive (j := xrScSetNumber a.tag) ht
  have hhas : (makeExclusive p index (xrScSetNumber a.tag) s').lines.flags p index = .exclusive ∧
      (makeExclusive p index (xrScSetNumber a.tag) s').lines.tags p index = a.tag := by
    rw [hl, LineView.setLine_flags, LineView.setLine_tags, if_pos ⟨rfl, rfl⟩, if_pos ⟨rfl, rfl⟩]
    exact ⟨rfl, rfl⟩
  refine ⟨_, rfl, Served.after (k := True)
    (served_store ⟨(hs.inv.plant.onScache _).onCache p _, hco⟩ hal hr hhas.1 hhas.2 ?_ ?_)
    (fun _ => trivial) (fun ha => ?_) (fun hq => Or.inl ?_) fun _ => ?_⟩
  · rw [hl]
    exact hs.inv.lines.not_buffered hx'
  · rw [hl]
    exact ⟨hfw', hfw.2⟩
  · exact agrees_makeExclusive (hs.agrees ha) ht
      (fun k hk => by rw [hs.data]; exact ha.cached hi k hk) (xrScSetNumber a.tag)
  · rw [hl] at hq
    rcases LineView.has_setLine hq with ⟨rfl, -, rfl, -⟩ | ⟨-, hold⟩
    · exact ⟨index, hi⟩
    · exact ⟨_, hs.falls.has hold⟩
  · exact ⟨fun _ => ⟨index, hi⟩, fun _ => ⟨index, by rw [hhas.1]; simp, hhas.2⟩⟩

theorem run_dcacheLookup (fw : Nat) (h : CacheInv present populated s) (hal : a.Aligned)
    (hp : present p = true ∧ p < xrProcMax)
    (hfw : a.read = false → s.lines.wb p fw = none ∧ fw < 4)
    (hout : a.read = false → ∀ i, s.lines.tags p i = a.tag → s.lines.wbOf p i = none) :
    ∃ r, ((dcacheLookup p fw a).run s).1 = .inr r ∧
      Served present populated (Keeps populated p a s) p a r s ((dcacheLookup p fw a).run s).2 := by
  simp only [dcacheLookup, Prog.run_bind, Prog.run_get]
  cases hf : (s.cache p).findLine a.tag with
  | some index =>
      have hi : s.lines.Has p index a.tag := findLine_some hf
      cases hr : a.read with
      | true =>
          simp only [if_true, Prog.run_pure]
          exact ⟨_, rfl, served_load h hal hr hi⟩
      | false =>
          by_cases hx : (s.cache p).dcFlags index = .exclusive
          · simp only [Bool.false_eq_true, hx, if_false, if_true, xrUnlockCache, Prog.run_bind,
              Prog.run_modify, Prog.run_release, Prog.run_pure]
            exact ⟨_, rfl, served_store h hal hr hx hi.2 (hout hr index hi.2) (hfw hr)⟩
          · simp only [Bool.false_eq_true, hx, if_false, xrUnlockCache, Prog.run_bind,
              Prog.run_release]
            exact run_dcacheUpgrade h hal hr hi hx (hfw hr)
  | none =>
      have hmiss := h.lines.findLine_none hf
      cases hr : a.read with
      | true =>
          simp only [if_true]
          exact run_dcacheMissed h hal hp hmiss hfw
      | false =>
          simp only [Bool.false_eq_true, if_false, xrUnlockCache, Prog.run_bind, Prog.run_release]
          exact run_dcacheMissed h hal hp hmiss hfw

/-- `XrDcacheAccess` either returns, or has flushed a full write buffer and starts
again. -/
theorem run_xrDcacheAccess (h : CacheInv present populated s) (hal : a.Aligned)
    (hp : present p = true ∧ p < xrProcMax) :
    (∃ r, ((xrDcacheAccess p a none).run s).1 = .inr r ∧
      Served present populated (XrMemOp.Spares s (.access p a)) p a r s
        ((xrDcacheAccess p a none).run s).2) ∨
    ((∀ w, w < 4 → (s.cache p).wbIndices w ≠ none) ∧
      ((xrDcacheAccess p a none).run s).1 = .inl none ∧
      Sinks present populated s ((xrDcacheAccess p a none).run s).2 ∧
      (∀ w, ((xrDcacheAccess p a none).run s).2.lines.wb p w = none) ∧
      ((xrDcacheAccess p a none).run s).2.lines.flags = s.lines.flags) := by
  have hempty : (∀ w, w < 4 → (s.cache p).wbIndices w = none) → ∀ w, s.lines.wb p w = none := by
    intro hw w
    cases hb : s.lines.wb p w with
    | none => rfl
    | some i =>
        have hnone : s.lines.wb p w = none := hw w (h.lines.depth hb)
        rw [hb] at hnone
        cases hnone
  have hkeeps : (a.read = true ∨ ∃ w, w < 4 ∧ (s.cache p).wbIndices w = none) →
      XrMemOp.Spares s (.access p a) → Keeps populated p a s := by
    intro hfree hsafe
    rcases hsafe with hpop | hsc | heb | hw | ⟨hr, hfull⟩
    · rw [h.plant.ram] at hpop
      exact Or.inr (Or.inl hpop)
    · exact Or.inl hsc
    · exact Or.inr (Or.inr (Or.inl heb))
    · exact Or.inr (Or.inr (Or.inr (hempty hw)))
    · rcases hfree with hr' | ⟨w, hw, hnone⟩
      · rw [hr] at hr'
        cases hr'
      · exact absurd hnone (hfull w hw)
  unfold xrDcacheAccess
  cases hr : a.read with
  | true =>
      left
      simp only [if_true]
      obtain ⟨r, hrun, hserved⟩ := run_dcacheLookup 0 h hal hp (by simp [hr]) (by simp [hr])
      exact ⟨r, hrun, hserved.after (hkeeps (Or.inl hr)) id (fun {_ i _} hi => Or.inl ⟨i, hi⟩)
        fun _ => Iff.rfl⟩
  | false =>
      simp only [Bool.false_eq_true, if_false, xrLockCache, Prog.run_bind, Prog.run_acquire,
        Prog.run_get]
      cases hs : searchWb (s.cache p) a.tag xrWbEntries none with
      | hit index =>
          left
          obtain ⟨w, hw, ht⟩ := searchWb_hit hs
          simp only [xrUnlockCache, Prog.run_bind, Prog.run_modify, Prog.run_release, Prog.run_pure]
          have hl := lines_mergeData p index a.lineoffset (byteOf a.srcvalue) a.length s
          have hx := h.lines.buffered hw
          refine ⟨_, rfl, served_exclusive h ⟨h.plant.onCache p _, by rw [hl]; exact h.lines⟩ hr hx ht
            (by rw [hl]) (by rw [hl]) fun ha => ?_⟩
          refine ha.store h.lines hal hx ht (by rw [hl]) (by rw [hl]) (fun hx => by rwa [hl])
            ⟨w, by rw [hl]; exact hw⟩ rfl fun q j => ?_
          by_cases hq : q = p
          · subst hq
            by_cases hj : j = index
            · subst hj
              simp [XrCache.mergeData, XrCache.setData]
            · simp [XrCache.mergeData, XrCache.setData, hj]
          · simp [hq]
      | miss out =>
          have hmiss := searchWb_miss hs
          cases out with
          | none =>
              right
              simp only [xrUnlockCache, Prog.run_bind, Prog.run_release, Prog.run_pure, true_and]
              refine ⟨fun w hw => (searchWb_full hs).2 w ?_, run_xrFlushWriteBuffer h⟩
              simp only [xrWbEntries, List.mem_cons, List.not_mem_nil, or_false]
              omega
          | some fw =>
              left
              have hfw : s.lines.wb p fw = none ∧ fw < 4 := by
                rcases hmiss.2 with ⟨w, hw, hmem, hnone⟩ | hnone
                · obtain rfl := Option.some.inj hw
                  simp only [xrWbEntries, List.mem_cons, List.not_mem_nil, or_false] at hmem
                  exact ⟨hnone, by omega⟩
                · cases hnone
              simp only [Prog.run_bind, Prog.run_modify]
              have hl : (onCache p (fun c =>
                  { c with wbCycles := if c.wbCycles = 0 then 3 else c.wbCycles }) s).lines = s.lines :=
                lines_onCache_same ⟨rfl, rfl, rfl, rfl⟩
              have hs' := Sinks.onCache_same h hl rfl
              obtain ⟨r, hrun, hserved⟩ := run_dcacheLookup fw hs'.inv hal hp
                (fun _ => by rw [hl]; exact hfw)
                (fun _ i hi => by rw [hl] at hi ⊢; exact h.lines.wbOf_of_miss hs hi)
              refine ⟨r, hrun, hserved.after (fun hsafe => ?_) hs'.agrees
                (fun {_ i _} hi => Or.inl ⟨i, hs'.falls.has hi⟩) fun _ => by rw [hl]⟩
              rcases hkeeps (Or.inr ⟨fw, hfw.2, hfw.1⟩) hsafe with hk | hk | hk | hk
              · exact Or.inl hk
              · exact Or.inr (Or.inl hk)
              · exact Or.inr (Or.inr (Or.inl hk))
              · exact Or.inr (Or.inr (Or.inr fun w => (hs'.falls.own p).wb_none (hk w)))

end Runs

/-! ## Every operation -/

section

variable {present populated : Nat → Bool} {s : XrCachedSys LineRam} {p : Nat} {a : XrAccessReq}

/-- An access returns. -/
theorem exec_access_served (h : CacheInv present populated s) (hal : a.Aligned)
    (hp : present p = true ∧ p < xrProcMax) :
    ∃ r s', (XrMemOp.access p a).exec s = some (r, s') ∧
      Served present populated (XrMemOp.Spares s (.access p a)) p a r s s' := by
  rcases run_xrDcacheAccess h hal hp with ⟨r, hr, hs⟩ | ⟨-, hrun, hflush, hwb, hflags⟩
  · exact ⟨r, _, XrMemOp.exec_access hr, hs⟩
  · -- The write buffer was full; now it is empty, so the second round returns.
    have hspare : XrMemOp.Spares ((xrDcacheAccess p a none).run s).2 (.access p a) :=
      Or.inr (Or.inr (Or.inr (Or.inl fun w _ => hwb w)))
    rcases run_xrDcacheAccess hflush.inv hal hp with ⟨r, hr, hs⟩ | ⟨hfull, -⟩
    · refine ⟨r, _, (runLoop_jump hrun).trans (runLoop_return hr), hs.after (fun _ => hspare)
        hflush.agrees (fun {_ i _} hi => Or.inl ⟨i, hflush.falls.has hi⟩) fun _ => ?_⟩
      have hhas : ∀ i, ((xrDcacheAccess p a none).run s).2.lines.Has p i a.tag ↔
          s.lines.Has p i a.tag := by
        intro i
        unfold LineView.Has
        rw [hflags, hflush.falls.tags]
      exact exists_congr hhas
    · exact absurd (hwb 0) (hfull 0 (by decide))

/-- `WBFLUSH`, and `MTCR` to DCACHECTRL, only take lines away. -/
theorem exec_flush_sinks (h : CacheInv present populated s) :
    Sinks present populated s ((xrFlushWriteBuffer p).run s).2 :=
  (run_xrFlushWriteBuffer h).1

theorem exec_dcachectrl_sinks (h : CacheInv present populated s) (value : Word) :
    Sinks present populated s ((mtcrDcachectrl p value).run s).2 := by
  have hrun := run_xrFlushWriteBuffer (p := p) h
  have hinval := Sinks.invalidate hrun.1.inv (dcachectrlLines value) hrun.2.1
  simp only [mtcrDcachectrl, Prog.run_bind, Prog.run_modify]
  exact hrun.1.trans hinval

end

end Xremu
