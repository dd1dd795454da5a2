import Xremu.Cached.Dcache
import Xremu.Concurrency.Discipline

/-!
# The lock discipline of the cache simulation

What the code that takes cache mutexes may ask for (`MayAsk`): no mutex it holds, an
Scache mutex only while it holds none, and a cache mutex, of whichever processor, only
while it holds no other. Scache mutexes therefore come before cache mutexes, and no
interleaving of processors can end in a deadlock.

The lemmas follow the call graph upward: one for every function of `Dcache.lean`, each
about all states its pieces of local code may meet. A function that is called with
mutexes held is followed from any set of them that leaves it its cache mutexes, so the
same lemma serves callers that hold an Scache mutex and callers that hold nothing.
-/

namespace Xremu

open Concurrency XrCachedSys

/-! ## The order of the mutexes -/

def NoCacheHeld (held : Set XrLock) : Prop := ∀ q m, XrLock.cache q m ∉ held

/-- What may be asked for while holding `held`. -/
structure MayAsk (held : Set XrLock) (l : XrLock) : Prop where
  once : l ∉ held
  scache : ∀ m, l = .scache m → held = ∅
  cache : ∀ p m, l = .cache p m → NoCacheHeld held

/-- Scache mutexes come before cache mutexes. -/
def XrLock.rank : XrLock → Nat
  | .scache _ => 0
  | .cache _ _ => 1

theorem XrLock.rank_le (l : XrLock) : l.rank ≤ 1 := by
  cases l with
  | scache m => exact Nat.zero_le 1
  | cache p m => exact Nat.le_refl 1

theorem mayAsk_ascends : Ascends XrLock.rank MayAsk := by
  intro held l h k hk
  cases l with
  | scache m =>
      rw [h.scache m rfl] at hk
      exact absurd hk (Set.notMem_empty k)
  | cache p m =>
      cases k with
      | scache n => exact Nat.zero_lt_one
      | cache q n => exact absurd hk (h.cache p m rfl q n)

theorem mayAsk_scache (m : Nat) : MayAsk ∅ (.scache m) where
  once := Set.notMem_empty _
  scache _ _ := rfl
  cache _ _ h := nomatch h

theorem mayAsk_cache {held : Set XrLock} (h : NoCacheHeld held) (p m : Nat) :
    MayAsk held (.cache p m) where
  once := h p m
  scache _ hl := nomatch hl
  cache _ _ _ := h

theorem noCacheHeld_empty : NoCacheHeld ∅ := fun _ _ => Set.notMem_empty _

theorem noCacheHeld_scache (m : Nat) : NoCacheHeld {.scache m} := by
  intro q n hmem
  rw [Set.mem_singleton_iff] at hmem
  cases hmem

variable {β : Type}

/-! ## Mutex operations -/

section Mutexes

variable {held : Set XrLock} {s : XrCachedSys β} {p tag : Nat}
  {post : Unit → Set XrLock → XrCachedSys β → Prop}

theorem disciplined_xrLockScache (k : ∀ t, post () {.scache (xrMutexIndex tag)} t) :
    (xrLockScache tag : XrCode β Unit).Disciplined MayAsk post ∅ s := by
  refine Prog.disciplined_acquire (mayAsk_scache _) fun t => ?_
  rw [insert_empty_eq]
  exact k t

theorem disciplined_xrUnlockScache (k : ∀ t, post () ∅ t) :
    (xrUnlockScache tag : XrCode β Unit).Disciplined MayAsk post
      {.scache (xrMutexIndex tag)} s := by
  refine Prog.disciplined_release (Set.mem_singleton _) fun t => ?_
  rw [sdiff_self, Set.bot_eq_empty]
  exact k t

theorem disciplined_xrLockCache (h : NoCacheHeld held)
    (k : ∀ t, post () (insert (.cache p (xrMutexIndex tag)) held) t) :
    (xrLockCache p tag : XrCode β Unit).Disciplined MayAsk post held s :=
  Prog.disciplined_acquire (mayAsk_cache h p _) k

theorem disciplined_xrUnlockCache (h : NoCacheHeld held) (k : ∀ t, post () held t) :
    (xrUnlockCache p tag : XrCode β Unit).Disciplined MayAsk post
      (insert (.cache p (xrMutexIndex tag)) held) s := by
  refine Prog.disciplined_release (Set.mem_insert _ _) fun t => ?_
  rw [Set.insert_sdiff_self_of_notMem (h p _)]
  exact k t

/-- The Scache mutex of a miss goes first, the cache mutex after it. -/
theorem disciplined_xrUnlockScache_first
    (k : ∀ t, post () (insert (.cache p (xrMutexIndex tag)) ∅) t) :
    (xrUnlockScache tag : XrCode β Unit).Disciplined MayAsk post
      (insert (.cache p (xrMutexIndex tag)) {.scache (xrMutexIndex tag)}) s := by
  refine Prog.disciplined_release (Set.mem_insert_of_mem _ (Set.mem_singleton _)) fun t => ?_
  have hleft : (insert (.cache p (xrMutexIndex tag)) {.scache (xrMutexIndex tag)} \
      {.scache (xrMutexIndex tag)} : Set XrLock) = insert (.cache p (xrMutexIndex tag)) ∅ := by
    ext l
    cases l with
    | scache m => simp
    | cache q m => simp
  rw [hleft]
  exact k t

end Mutexes

variable [EBus β]

/-! ## The write buffer -/

section

variable {held : Set XrLock} {p tag : Nat}

theorem disciplined_flushEntries (h : NoCacheHeld held) (is : List Nat) (s : XrCachedSys β)
    {post : Unit → Set XrLock → XrCachedSys β → Prop} (k : ∀ t, post () held t) :
    (flushEntries p is : XrCode β Unit).Disciplined MayAsk post held s := by
  induction is generalizing s with
  | nil => exact k s
  | cons i is ih =>
      refine Prog.disciplined_bind (Prog.disciplined_get fun t => ?_)
      cases hindex : (t.cache p).wbIndices i with
      | none =>
          exact ih t
      | some index =>
          refine Prog.disciplined_bind (disciplined_xrLockCache h fun u => ?_)
          refine Prog.disciplined_bind (Prog.disciplined_get fun v => ?_)
          split_ifs with hnone
          · exact Prog.disciplined_bind (disciplined_xrUnlockCache h fun x => ih x)
          · refine Prog.disciplined_bind (Prog.disciplined_modify fun x => ?_)
            exact Prog.disciplined_bind (disciplined_xrUnlockCache h fun y => ih y)

/-- `XrFlushWriteBuffer` gives back every mutex it takes. -/
theorem disciplined_xrFlushWriteBuffer (h : NoCacheHeld held) (s : XrCachedSys β)
    {post : Unit → Set XrLock → XrCachedSys β → Prop} (k : ∀ t, post () held t) :
    (xrFlushWriteBuffer p : XrCode β Unit).Disciplined MayAsk post held s :=
  disciplined_flushEntries h xrWbEntries s k

/-! ## Downgrades and the Scache -/

theorem disciplined_xrDowngradeLine (h : NoCacheHeld held) {f : XrLine} (s : XrCachedSys β)
    {post : Unit → Set XrLock → XrCachedSys β → Prop} (k : ∀ t, post () held t) :
    (xrDowngradeLine p tag f : XrCode β Unit).Disciplined MayAsk post held s := by
  refine Prog.disciplined_bind (disciplined_xrLockCache h fun t => ?_)
  refine Prog.disciplined_bind (Prog.disciplined_modify fun u => ?_)
  exact disciplined_xrUnlockCache h k

theorem disciplined_downgradeProcs (h : NoCacheHeld held) {thisproc : Option Nat} {f : XrLine}
    (procs : List Nat) (s : XrCachedSys β) {post : Unit → Set XrLock → XrCachedSys β → Prop}
    (k : ∀ t, post () held t) :
    (downgradeProcs thisproc tag f procs : XrCode β Unit).Disciplined MayAsk post held s := by
  induction procs generalizing s with
  | nil => exact k s
  | cons i is ih =>
      refine Prog.disciplined_bind (Prog.disciplined_get fun t => ?_)
      split_ifs with hskip
      · exact ih t
      · exact Prog.disciplined_bind (disciplined_xrDowngradeLine h t fun u => ih u)

theorem disciplined_xrDowngradeAll (h : NoCacheHeld held) {thisproc : Option Nat} {f : XrLine}
    (s : XrCachedSys β) {post : Unit → Set XrLock → XrCachedSys β → Prop}
    (k : ∀ t, post () held t) :
    (xrDowngradeAll thisproc tag f : XrCode β Unit).Disciplined MayAsk post held s :=
  disciplined_downgradeProcs h (List.range xrProcMax) s k

theorem disciplined_stealScacheEntry (h : NoCacheHeld held) {index : Nat} (s : XrCachedSys β)
    {post : Unit → Set XrLock → XrCachedSys β → Prop} (k : ∀ t, post () held t) :
    (stealScacheEntry index : XrCode β Unit).Disciplined MayAsk post held s := by
  refine Prog.disciplined_bind (Prog.disciplined_get fun t => ?_)
  cases hflags : t.mem.scache.flags index with
  | invalid =>
      exact k t
  | shared =>
      exact disciplined_xrDowngradeAll h t k
  | exclusive =>
      exact disciplined_xrDowngradeLine h t k

/-- `XrFindOrReplaceInScache` gives back every cache mutex its eviction takes. -/
theorem disciplined_xrFindOrReplaceInScache (h : NoCacheHeld held) {f : XrLine}
    (s : XrCachedSys β) {post : Nat × Bool → Set XrLock → XrCachedSys β → Prop}
    (k : ∀ found t, post found held t) :
    (xrFindOrReplaceInScache p tag f : XrCode β (Nat × Bool)).Disciplined MayAsk post held s := by
  refine Prog.disciplined_bind (Prog.disciplined_get fun t => ?_)
  cases hfind : xrFindInScache t.mem.scache tag with
  | some index =>
      exact k (index, false) t
  | none =>
      refine Prog.disciplined_bind (Prog.disciplined_modify fun u => ?_)
      refine Prog.disciplined_bind (disciplined_stealScacheEntry h _ fun v => ?_)
      refine Prog.disciplined_bind (Prog.disciplined_modify fun x => ?_)
      exact k _ _

theorem disciplined_downgradeHolders (h : NoCacheHeld held) {index : Nat} {a : XrAccessReq}
    (s : XrCachedSys β) {post : Unit → Set XrLock → XrCachedSys β → Prop}
    (k : ∀ t, post () held t) :
    (downgradeHolders index a : XrCode β Unit).Disciplined MayAsk post held s := by
  refine Prog.disciplined_bind (Prog.disciplined_get fun t => ?_)
  cases hflags : t.mem.scache.flags index with
  | invalid =>
      exact k t
  | exclusive =>
      exact disciplined_xrDowngradeLine h t k
  | shared =>
      split_ifs with hread
      · exact k t
      · exact disciplined_xrDowngradeAll h t k

theorem disciplined_downgradeOthers (h : NoCacheHeld held) {index : Nat} {a : XrAccessReq}
    (s : XrCachedSys β) {post : Unit → Set XrLock → XrCachedSys β → Prop}
    (k : ∀ t, post () held t) :
    (downgradeOthers p index a : XrCode β Unit).Disciplined MayAsk post held s := by
  refine Prog.disciplined_bind (Prog.disciplined_get fun t => ?_)
  cases hflags : t.mem.scache.flags index with
  | invalid =>
      exact k t
  | exclusive =>
      exact disciplined_xrDowngradeLine h t k
  | shared =>
      exact disciplined_xrDowngradeAll h t k

theorem disciplined_claimScacheEntry (h : NoCacheHeld held) {a : XrAccessReq} (s : XrCachedSys β)
    {post : Nat → Set XrLock → XrCachedSys β → Prop} (k : ∀ index t, post index held t) :
    (claimScacheEntry p a : XrCode β Nat).Disciplined MayAsk post held s := by
  refine Prog.disciplined_bind (disciplined_xrFindOrReplaceInScache h s fun found t => ?_)
  split_ifs with hcreated
  · exact k found.1 t
  · refine Prog.disciplined_bind (disciplined_downgradeHolders h t fun u => ?_)
    exact Prog.disciplined_bind (Prog.disciplined_modify fun v => k _ _)

end

/-! ## The access -/

/-- How an access ends: with no mutex held, unless it called `abort()`. -/
def AccessReturns (held : Set XrLock) (s : XrCachedSys β) : Prop :=
  held = ∅ ∨ s.mem.aborted = true

section

variable {p : Nat} {a : XrAccessReq}

omit [EBus β] in
theorem accessReturns_empty (s : XrCachedSys β) : AccessReturns ∅ s := .inl rfl

theorem disciplined_dcacheFill {freewbindex index : Nat} (s : XrCachedSys β) :
    (dcacheFill p freewbindex index a : XrCode β (Option Nat ⊕ XrResult)).Disciplined MayAsk
      (fun _ => AccessReturns) {.scache (xrMutexIndex a.tag)} s := by
  have hsc : NoCacheHeld {.scache (xrMutexIndex a.tag)} := noCacheHeld_scache _
  refine Prog.disciplined_bind (disciplined_xrLockCache hsc fun t => ?_)
  refine Prog.disciplined_bind (Prog.disciplined_modifyGet fun u => ?_)
  split_ifs with herror hread
  -- A bus error: the line is taken back, and both mutexes go.
  · refine Prog.disciplined_bind (Prog.disciplined_modify fun v => ?_)
    refine Prog.disciplined_bind (disciplined_xrUnlockCache hsc fun x => ?_)
    refine Prog.disciplined_bind (disciplined_xrUnlockScache fun y => ?_)
    exact Prog.disciplined_bind (Prog.disciplined_modify fun z => accessReturns_empty _)
  · refine Prog.disciplined_bind (disciplined_xrUnlockScache_first fun v => ?_)
    refine Prog.disciplined_bind (Prog.disciplined_get fun x => ?_)
    exact Prog.disciplined_bind
      (disciplined_xrUnlockCache noCacheHeld_empty fun y => accessReturns_empty y)
  · refine Prog.disciplined_bind (disciplined_xrUnlockScache_first fun v => ?_)
    refine Prog.disciplined_bind (Prog.disciplined_modify fun x => ?_)
    exact Prog.disciplined_bind
      (disciplined_xrUnlockCache noCacheHeld_empty fun y => accessReturns_empty y)

theorem disciplined_dcacheMissed {freewbindex : Nat} (s : XrCachedSys β) :
    (dcacheMissed p freewbindex a : XrCode β (Option Nat ⊕ XrResult)).Disciplined MayAsk
      (fun _ => AccessReturns) ∅ s := by
  rw [dcacheMissed]
  split_ifs with hsc
  · exact accessReturns_empty s
  · refine Prog.disciplined_bind (disciplined_xrLockScache fun t => ?_)
    refine Prog.disciplined_bind (disciplined_claimScacheEntry (noCacheHeld_scache _) t ?_)
    exact fun index u => disciplined_dcacheFill u

theorem disciplined_dcacheUpgrade {freewbindex index : Nat} (s : XrCachedSys β) :
    (dcacheUpgrade p freewbindex index a : XrCode β (Option Nat ⊕ XrResult)).Disciplined MayAsk
      (fun _ => AccessReturns) ∅ s := by
  refine Prog.disciplined_bind (disciplined_xrLockScache fun t => ?_)
  refine Prog.disciplined_bind (Prog.disciplined_get fun u => ?_)
  split_ifs with hinvalid
  · exact Prog.disciplined_bind (disciplined_xrUnlockScache fun v => accessReturns_empty v)
  · cases hfind : xrFindInScache u.mem.scache a.tag with
    | none =>
        exact Prog.disciplined_bind (Prog.disciplined_modify fun v => .inr rfl)
    | some scacheindex =>
        have hsc : NoCacheHeld {.scache (xrMutexIndex a.tag)} := noCacheHeld_scache _
        refine Prog.disciplined_bind (disciplined_downgradeOthers hsc u fun v => ?_)
        refine Prog.disciplined_bind (Prog.disciplined_modify fun x => ?_)
        exact Prog.disciplined_bind (disciplined_xrUnlockScache fun y => accessReturns_empty y)

/-- A read looks its line up without a mutex. -/
theorem disciplined_dcacheLookup_read (hread : a.read = true) {freewbindex : Nat}
    (s : XrCachedSys β) :
    (dcacheLookup p freewbindex a : XrCode β (Option Nat ⊕ XrResult)).Disciplined MayAsk
      (fun _ => AccessReturns) ∅ s := by
  refine Prog.disciplined_bind (Prog.disciplined_get fun t => ?_)
  cases hfind : (t.cache p).findLine a.tag with
  | some index =>
      simp only [hread, if_true]
      exact accessReturns_empty t
  | none =>
      simp only [hread, if_true]
      exact disciplined_dcacheMissed t

/-- A write looks its line up under its cache mutex, and keeps it on a hit. -/
theorem disciplined_dcacheLookup_write (hread : a.read = false) {freewbindex : Nat}
    (s : XrCachedSys β) :
    (dcacheLookup p freewbindex a : XrCode β (Option Nat ⊕ XrResult)).Disciplined MayAsk
      (fun _ => AccessReturns) (insert (.cache p (xrMutexIndex a.tag)) ∅) s := by
  refine Prog.disciplined_bind (Prog.disciplined_get fun t => ?_)
  cases hfind : (t.cache p).findLine a.tag with
  | some index =>
      simp only [hread, Bool.false_eq_true, if_false]
      split_ifs with hexclusive
      · refine Prog.disciplined_bind (Prog.disciplined_modify fun u => ?_)
        exact Prog.disciplined_bind
          (disciplined_xrUnlockCache noCacheHeld_empty fun v => accessReturns_empty v)
      · exact Prog.disciplined_bind
          (disciplined_xrUnlockCache noCacheHeld_empty fun v => disciplined_dcacheUpgrade v)
  | none =>
      simp only [hread, Bool.false_eq_true, if_false]
      exact Prog.disciplined_bind
        (disciplined_xrUnlockCache noCacheHeld_empty fun v => disciplined_dcacheMissed v)

theorem disciplined_xrDcacheAccess {freewbindex : Option Nat} (s : XrCachedSys β) :
    (xrDcacheAccess p a freewbindex : XrCode β (Option Nat ⊕ XrResult)).Disciplined MayAsk
      (fun _ => AccessReturns) ∅ s := by
  rw [xrDcacheAccess]
  split_ifs with hread
  · exact disciplined_dcacheLookup_read hread s
  · have hwrite : a.read = false := Bool.eq_false_iff.mpr hread
    refine Prog.disciplined_bind (disciplined_xrLockCache noCacheHeld_empty fun t => ?_)
    refine Prog.disciplined_bind (Prog.disciplined_get fun u => ?_)
    cases hsearch : searchWb (u.cache p) a.tag xrWbEntries freewbindex with
    | hit index =>
        refine Prog.disciplined_bind (Prog.disciplined_modify fun v => ?_)
        exact Prog.disciplined_bind
          (disciplined_xrUnlockCache noCacheHeld_empty fun x => accessReturns_empty x)
    | miss found =>
        cases found with
        | none =>
            refine Prog.disciplined_bind (disciplined_xrUnlockCache noCacheHeld_empty fun v => ?_)
            exact Prog.disciplined_bind
              (disciplined_xrFlushWriteBuffer noCacheHeld_empty v fun x => accessReturns_empty x)
        | some free =>
            refine Prog.disciplined_bind (Prog.disciplined_modify fun v => ?_)
            exact disciplined_dcacheLookup_write hwrite _

end

/-! ## Processors -/

/-- What a processor does with the caches: an access, from its first round or a later one,
a flush of its write buffer, and anything else that takes no cache mutex. -/
inductive XrLockingOp (β : Type) where
  | access (a : XrAccessReq) (freewbindex : Option Nat)
  | flush
  | dcachectrl (value : Word)
  | other (upd : XrCachedSys β → XrCachedSys β)

/-- The code of an operation of processor `p`; `goto restart` is another round. -/
def XrLockingOp.code (p : Nat) : XrLockingOp β → XrCode β (XrLockingOp β ⊕ XrResult)
  | .access a freewbindex => do
      match ← xrDcacheAccess p a freewbindex with
      | .inl freewbindex => pure (.inl (.access a freewbindex))
      | .inr result => pure (.inr result)
  | .flush => do
      xrFlushWriteBuffer p
      pure (.inr (.done, none))
  | .dcachectrl value => do
      mtcrDcachectrl p value
      pure (.inr (.done, none))
  | .other upd => do
      Prog.modify upd
      pure (.inr (.done, none))

/-- `abort()` ends the emulator. -/
def HasAborted (s : XrCachedSys β) : Prop := s.mem.aborted = true

theorem disciplinedCode_xrLockingOp :
    DisciplinedCode MayAsk HasAborted (XrLockingOp.code (β := β)) := by
  intro p op s
  cases op with
  | access a freewbindex =>
      refine Prog.disciplined_bind ((disciplined_xrDcacheAccess s).mono ?_)
      intro out held t hend
      cases out with
      | inl freewbindex => exact hend
      | inr result => exact hend
  | flush =>
      exact Prog.disciplined_bind
        (disciplined_xrFlushWriteBuffer noCacheHeld_empty s fun t => .inl rfl)
  | dcachectrl value =>
      refine Prog.disciplined_bind (Prog.disciplined_bind ?_)
      refine disciplined_xrFlushWriteBuffer noCacheHeld_empty s fun t => ?_
      exact Prog.disciplined_modify fun u => .inl rfl
  | other upd => exact Prog.disciplined_bind (Prog.disciplined_modify fun t => .inl rfl)

/-- No processor waits in a circle, and one that is in the middle of an operation can go
on or waits for one that can. -/
structure DeadlockFree (c : Protocol.Config (XrCachedSys β) XrLock Nat (XrLockingOp β) XrResult) :
    Prop where
  noCircle : ¬CircularWait c
  goesOn : ∀ p, c.threads p ≠ .idle → ∃ q, Relation.ReflTransGen (WaitsFor c) p q ∧
    c.threads q ≠ .idle ∧ ∃ c', Turn XrLockingOp.code q c c'

/-- The lock discipline of the caches over the bus `β`. Each program is followed on every
path, whatever states its pieces of local code meet. -/
structure CacheLockDiscipline (β : Type) [EBus β] : Prop where
  /-- `XrDcacheAccess`, from the label `restart`, gives back what it takes. -/
  access : ∀ p a freewbindex (s : XrCachedSys β),
    (xrDcacheAccess p a freewbindex).Disciplined MayAsk
      (fun _ held t => held = ∅ ∨ HasAborted t) ∅ s
  /-- `XrFlushWriteBuffer` -/
  flush : ∀ p held (s : XrCachedSys β), NoCacheHeld held →
    (xrFlushWriteBuffer p).Disciplined MayAsk (fun _ left _ => left = held) held s
  /-- `XrDowngradeLine` -/
  downgradeLine : ∀ p tag newstate held (s : XrCachedSys β), NoCacheHeld held →
    (xrDowngradeLine p tag newstate).Disciplined MayAsk (fun _ left _ => left = held) held s
  /-- `XrDowngradeAll` -/
  downgradeAll : ∀ thisproc tag newstate held (s : XrCachedSys β), NoCacheHeld held →
    (xrDowngradeAll thisproc tag newstate).Disciplined MayAsk (fun _ left _ => left = held) held s
  /-- `XrFindOrReplaceInScache` -/
  findOrReplace : ∀ p tag newstate held (s : XrCachedSys β), NoCacheHeld held →
    (xrFindOrReplaceInScache p tag newstate).Disciplined MayAsk
      (fun _ left _ => left = held) held s
  /-- Processors that run these in any interleaving, from any state of the caches. -/
  deadlockFree : ∀ (s : XrCachedSys β) c, Interleaves XrLockingOp.code HasAborted s c →
    HasAborted c.world.st ∨ DeadlockFree c

theorem cache_lock_discipline : CacheLockDiscipline β where
  access p a freewbindex s := disciplined_xrDcacheAccess s
  flush p held s h := disciplined_xrFlushWriteBuffer h s fun t => rfl
  downgradeLine p tag newstate held s h := disciplined_xrDowngradeLine h s fun t => rfl
  downgradeAll thisproc tag newstate held s h := disciplined_xrDowngradeAll h s fun t => rfl
  findOrReplace p tag newstate held s h :=
    disciplined_xrFindOrReplaceInScache h s fun found t => rfl
  deadlockFree s c h := by
    refine (h.orderly disciplinedCode_xrLockingOp).imp id fun horderly => ?_
    exact ⟨horderly.not_circular mayAsk_ascends,
      fun p hp => horderly.goes_on XrLockingOp.code mayAsk_ascends XrLock.rank_le hp⟩

end Xremu
