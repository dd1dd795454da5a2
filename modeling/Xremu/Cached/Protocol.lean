import Xremu.Concurrency.Rely
import Xremu.Cached.Operations

/-!
# The mutex protocol of the caches

Processors run `XrDcacheAccess` and `XrFlushWriteBuffer` at the same time; one
step is a stretch of code between two mutex operations. What a processor may
rely on while it does nothing (`CacheRely`):
- nobody gives its lines new tags or more rights, or fills its write buffer;
- while it holds one of its cache mutexes, nobody touches the states of the
  lines under it;
- while it holds an Scache mutex, nobody touches any line or Scache entry
  under it, in any Dcache.

A step may change what the mutexes it holds allow (`Changes`).
-/

namespace Xremu

open Concurrency XrCachedSys

/-- The operations a processor may be in. `access` carries `freewbindex` across
`goto restart`; `core` is whatever the processor does between two calls. -/
inductive XrCacheOp where
  | access (a : XrAccessReq) (freewbindex : Option Nat)
  | flush
  | core (upd : XrProcessor → XrProcessor)

/-- The code of an operation of processor `p`. -/
def XrCacheOp.code (p : Nat) : XrCacheOp → XrCode LineRam (XrCacheOp ⊕ XrResult)
  | .access a freewbindex => do
      match ← xrDcacheAccess p a freewbindex with
      | .inl freewbindex => pure (.inl (.access a freewbindex))
      | .inr result => pure (.inr result)
  | .flush => do
      xrFlushWriteBuffer p
      pure (.inr (.done, none))
  | .core upd => do
      Prog.modify fun s => { s with procs := Function.update s.procs p (upd (s.procs p)) }
      pure (.inr (.done, none))

/-- The operations a processor may start. -/
def XrCacheOp.Starts : XrCacheOp → Prop
  | .access _ freewbindex => freewbindex = none
  | .flush => True
  | .core upd => ∀ x, (upd x).id = x.id

abbrev CacheWorld := World (XrCachedSys LineRam) XrLock Nat

/-! ## What the others may do -/

/-- Nothing under mutex `m` differs. -/
structure SameRegion (m : Nat) (v v' : LineView) : Prop where
  flags : ∀ q i, dcMutex i = m → v'.flags q i = v.flags q i
  tags : ∀ q i, dcMutex i = m → v'.tags q i = v.tags q i
  scFlags : ∀ j, scMutex j = m → v'.scFlags j = v.scFlags j
  scTags : ∀ j, scMutex j = m → v'.scTags j = v.scTags j
  scIds : ∀ j, scMutex j = m → v'.scIds j = v.scIds j

theorem SameRegion.refl (m : Nat) (v : LineView) : SameRegion m v v :=
  ⟨fun _ _ _ => rfl, fun _ _ _ => rfl, fun _ _ => rfl, fun _ _ => rfl, fun _ _ => rfl⟩

theorem SameRegion.trans {m : Nat} {u v w : LineView} (h : SameRegion m u v)
    (h' : SameRegion m v w) : SameRegion m u w where
  flags q i hi := (h'.flags q i hi).trans (h.flags q i hi)
  tags q i hi := (h'.tags q i hi).trans (h.tags q i hi)
  scFlags j hj := (h'.scFlags j hj).trans (h.scFlags j hj)
  scTags j hj := (h'.scTags j hj).trans (h.scTags j hj)
  scIds j hj := (h'.scIds j hj).trans (h.scIds j hj)

/-- What the other processors may do while `p` does nothing. -/
structure CacheRely (p : Nat) (u v : CacheWorld) : Prop where
  locks : ∀ l, u.owner l = some p ↔ v.owner l = some p
  own : OwnFalls p u.st.lines v.st.lines
  cache : ∀ i, u.owner (.cache p (dcMutex i)) = some p →
    v.st.lines.flags p i = u.st.lines.flags p i
  scache : ∀ m, u.owner (.scache m) = some p → SameRegion m u.st.lines v.st.lines

theorem CacheRely.refl (p : Nat) (w : CacheWorld) : CacheRely p w w :=
  ⟨fun _ => Iff.rfl, OwnFalls.refl p _, fun _ _ => rfl, fun m _ => SameRegion.refl m _⟩

theorem CacheRely.trans {p : Nat} {u v w : CacheWorld} (h : CacheRely p u v)
    (h' : CacheRely p v w) : CacheRely p u w where
  locks l := (h.locks l).trans (h'.locks l)
  own := h.own.trans h'.own
  cache i hi := (h'.cache i ((h.locks _).mp hi)).trans (h.cache i hi)
  scache m hm := (h.scache m hm).trans (h'.scache m ((h.locks _).mp hm))

/-- A change of one owner that `q` has no part in. -/
theorem CacheRely.of_owner {q : Nat} {w : CacheWorld} {l : XrLock} {o : Option Nat}
    (hl : w.owner l ≠ some q) (ho : o ≠ some q) :
    CacheRely q w { w with owner := Function.update w.owner l o } := by
  refine ⟨fun k => ?_, OwnFalls.refl q _, fun _ _ => rfl, fun m _ => SameRegion.refl m _⟩
  by_cases hk : k = l
  · subst hk
    simp [hl, ho]
  · simp [hk]

/-- The mutexes a processor holds: at most one of the Scache and one of a cache. -/
structure XrHeld where
  scache : Option Nat
  cache : Option (Nat × Nat)

def Holds (w : CacheWorld) (p : Nat) (h : XrHeld) : Prop :=
  (∀ m, w.owner (.scache m) = some p ↔ h.scache = some m) ∧
  ∀ q m, w.owner (.cache q m) = some p ↔ h.cache = some (q, m)

theorem CacheRely.holds {p : Nat} {u v : CacheWorld} {h : XrHeld} (hr : CacheRely p u v)
    (hh : Holds u p h) : Holds v p h :=
  ⟨fun m => (hr.locks _).symm.trans (hh.1 m), fun q m => (hr.locks _).symm.trans (hh.2 q m)⟩

/-- What an operation needs when it starts: no mutex held, and a `freewbindex`
kept from an earlier round is still free. -/
structure CachePre (present : Nat → Bool) (p : Nat) (o : XrCacheOp) (w : CacheWorld) : Prop where
  holds : Holds w p ⟨none, none⟩
  present : present p = true ∧ p < xrProcMax
  free : ∀ a fw, o = .access a (some fw) → w.st.lines.wb p fw = none ∧ fw < 4
  core : ∀ upd x, o = .core upd → (upd x).id = x.id

/-- The processors as threads. Only those in `XrProcessorTable` run. -/
def cacheProtocol (present populated : Nat → Bool) :
    Protocol (XrCachedSys LineRam) XrLock Nat XrCacheOp XrResult where
  code := XrCacheOp.code
  may p o := (present p = true ∧ p < xrProcMax) ∧ o.Starts
  Inv := CacheInv present populated
  Rely := CacheRely
  Idle p w := Holds w p ⟨none, none⟩
  Pre := CachePre present
  rely_refl := CacheRely.refl
  rely_trans := CacheRely.trans
  rely_acquire {p q l w} hq hl := CacheRely.of_owner (by simp [hl]) (by simpa using hq.symm)
  rely_release {p q l w} hq hl := CacheRely.of_owner (by simpa [hl] using hq.symm) (by simp)
  idle_stable hr hh := hr.holds hh
  pre_stable hr h :=
    ⟨hr.holds h.holds, h.present,
      fun a fw ho => ⟨hr.own.wb_none (h.free a fw ho).1, (h.free a fw ho).2⟩, h.core⟩
  pre_of_idle {p o w} hh hm := by
    refine ⟨hh, hm.1, ?_, ?_⟩
    · rintro a fw rfl
      exact absurd hm.2 (by simp [XrCacheOp.Starts])
    · rintro upd x rfl
      exact hm.2 x

/-! ## Mutex operations -/

/-- What `p` knows later while it keeps holding `h`. -/
structure Later (p : Nat) (h : XrHeld) (v v' : LineView) : Prop where
  own : OwnFalls p v v'
  cache : ∀ i, h.cache = some (p, dcMutex i) → v'.flags p i = v.flags p i
  scache : ∀ m, h.scache = some m → SameRegion m v v'

theorem Later.trans {p : Nat} {h : XrHeld} {u v w : LineView} (hu : Later p h u v)
    (hv : Later p h v w) : Later p h u w :=
  ⟨hu.own.trans hv.own, fun i hi => (hv.cache i hi).trans (hu.cache i hi),
    fun m hm => (hu.scache m hm).trans (hv.scache m hm)⟩

theorem CacheRely.later {p : Nat} {u v : CacheWorld} (hr : CacheRely p u v) {h : XrHeld}
    (hs : ∀ m, h.scache = some m → u.owner (.scache m) = some p)
    (hc : ∀ q m, h.cache = some (q, m) → u.owner (.cache q m) = some p) :
    Later p h u.st.lines v.st.lines :=
  ⟨hr.own, fun i hi => hr.cache i (hc p _ hi), fun m hm => hr.scache m (hs m hm)⟩

section Rules

variable {present populated : Nat → Bool} {p tag : Nat} {w₀ w : CacheWorld} {sc : Option Nat}
  {ca : Option (Nat × Nat)} {post : Unit → CacheWorld → CacheWorld → Prop}

theorem wp_xrLockScache (hy : (cacheProtocol present populated).Yield p w₀ w)
    (hh : Holds w p ⟨none, ca⟩)
    (k : ∀ v, CacheInv present populated v.st → Holds v p ⟨some (xrMutexIndex tag), ca⟩ →
      Later p ⟨none, ca⟩ w.st.lines v.st.lines → post () v v) :
    (cacheProtocol present populated).wp p (xrLockScache tag) post w₀ w := by
  refine ⟨hy, fun u hu iu hl v hv iv => k v iv ?_ ?_⟩
  · have hu' := CacheRely.holds hu hh
    refine CacheRely.holds hv ⟨fun m => ?_, fun q m => ?_⟩
    · by_cases hm : m = xrMutexIndex tag
      · simp [World.acquire, hm]
      · simpa [World.acquire, hm, Ne.symm hm] using hu'.1 m
    · simpa [World.acquire] using hu'.2 q m
  · have hu' := CacheRely.holds hu hh
    have hbefore : Later p ⟨none, ca⟩ w.st.lines u.st.lines :=
      CacheRely.later hu (by simp) fun q m => (hh.2 q m).mpr
    refine hbefore.trans (CacheRely.later hv (by simp) fun q m hc => ?_)
    simpa [World.acquire] using (hu'.2 q m).mpr hc

theorem wp_xrLockCache {q : Nat} (hy : (cacheProtocol present populated).Yield p w₀ w)
    (hh : Holds w p ⟨sc, none⟩)
    (k : ∀ v, CacheInv present populated v.st → Holds v p ⟨sc, some (q, xrMutexIndex tag)⟩ →
      Later p ⟨sc, none⟩ w.st.lines v.st.lines → post () v v) :
    (cacheProtocol present populated).wp p (xrLockCache q tag) post w₀ w := by
  refine ⟨hy, fun u hu iu hl v hv iv => k v iv ?_ ?_⟩
  · have hu' := CacheRely.holds hu hh
    refine CacheRely.holds hv ⟨fun m => ?_, fun r m => ?_⟩
    · simpa [World.acquire] using hu'.1 m
    · by_cases hm : r = q ∧ m = xrMutexIndex tag
      · simp [World.acquire, hm]
      · have hne : XrLock.cache r m ≠ .cache q (xrMutexIndex tag) := by simpa using hm
        have hne' : ¬(q = r ∧ xrMutexIndex tag = m) := by
          rintro ⟨rfl, rfl⟩
          exact hm ⟨rfl, rfl⟩
        simpa [World.acquire, hne, hne'] using hu'.2 r m
  · have hu' := CacheRely.holds hu hh
    have hbefore : Later p ⟨sc, none⟩ w.st.lines u.st.lines :=
      CacheRely.later hu (fun m => (hh.1 m).mpr) (by simp)
    refine hbefore.trans (CacheRely.later hv (fun m hs => ?_) (by simp))
    simpa [World.acquire] using (hu'.1 m).mpr hs

theorem wp_xrUnlockScache (hy : (cacheProtocol present populated).Yield p w₀ w)
    (hh : Holds w p ⟨some (xrMutexIndex tag), ca⟩)
    (k : ∀ v, CacheInv present populated v.st → Holds v p ⟨none, ca⟩ →
      Later p ⟨none, ca⟩ w.st.lines v.st.lines → post () v v) :
    (cacheProtocol present populated).wp p (xrUnlockScache tag) post w₀ w := by
  refine ⟨hy, fun u hu iu => ?_⟩
  have hu' := CacheRely.holds hu hh
  refine ⟨(hu'.1 _).mpr rfl, fun v hv iv => k v iv ?_ ?_⟩
  · refine CacheRely.holds hv ⟨fun m => ?_, fun q m => ?_⟩
    · by_cases hm : m = xrMutexIndex tag
      · simp [World.release, hm]
      · simpa [World.release, hm, Ne.symm hm] using hu'.1 m
    · simpa [World.release] using hu'.2 q m
  · have hbefore : Later p ⟨none, ca⟩ w.st.lines u.st.lines :=
      CacheRely.later hu (by simp) fun q m => (hh.2 q m).mpr
    refine hbefore.trans (CacheRely.later hv (by simp) fun q m hc => ?_)
    simpa [World.release] using (hu'.2 q m).mpr hc

theorem wp_xrUnlockCache {q : Nat} (hy : (cacheProtocol present populated).Yield p w₀ w)
    (hh : Holds w p ⟨sc, some (q, xrMutexIndex tag)⟩)
    (k : ∀ v, CacheInv present populated v.st → Holds v p ⟨sc, none⟩ →
      Later p ⟨sc, none⟩ w.st.lines v.st.lines → post () v v) :
    (cacheProtocol present populated).wp p (xrUnlockCache q tag) post w₀ w := by
  refine ⟨hy, fun u hu iu => ?_⟩
  have hu' := CacheRely.holds hu hh
  refine ⟨(hu'.2 _ _).mpr rfl, fun v hv iv => k v iv ?_ ?_⟩
  · refine CacheRely.holds hv ⟨fun m => ?_, fun r m => ?_⟩
    · simpa [World.release] using hu'.1 m
    · by_cases hm : r = q ∧ m = xrMutexIndex tag
      · simp [World.release, hm]
      · have hne : XrLock.cache r m ≠ .cache q (xrMutexIndex tag) := by simpa using hm
        have hne' : ¬(q = r ∧ xrMutexIndex tag = m) := by
          rintro ⟨rfl, rfl⟩
          exact hm ⟨rfl, rfl⟩
        simpa [World.release, hne, hne'] using hu'.2 r m
  · have hbefore : Later p ⟨sc, none⟩ w.st.lines u.st.lines :=
      CacheRely.later hu (fun m => (hh.1 m).mpr) (by simp)
    refine hbefore.trans (CacheRely.later hv (fun m hs => ?_) (by simp))
    simpa [World.release] using (hu'.1 m).mpr hs

end Rules

/-! ## Local code -/

/-- What a stretch of `p` that holds `h` may change. -/
structure Changes (p : Nat) (h : XrHeld) (v v' : LineView) : Prop where
  own : ∀ q, q ≠ p → OwnFalls q v v'
  cache : ∀ q i, q ≠ p → v'.flags q i ≠ v.flags q i → h.cache = some (q, dcMutex i)
  scache : ∀ m, h.scache ≠ some m → SameRegion m v v'

theorem Changes.trans {p : Nat} {h : XrHeld} {u v w : LineView} (hu : Changes p h u v)
    (hv : Changes p h v w) : Changes p h u w where
  own q hq := (hu.own q hq).trans (hv.own q hq)
  cache q i hq hne := by
    by_cases heq : v.flags q i = u.flags q i
    · exact hv.cache q i hq (heq ▸ hne)
    · exact hu.cache q i hq heq
  scache m hm := (hu.scache m hm).trans (hv.scache m hm)

theorem Changes.of_eq {p : Nat} {h : XrHeld} {v v' : LineView} (he : v' = v) :
    Changes p h v v' := by
  subst he
  exact ⟨fun q _ => OwnFalls.refl q _, fun _ _ _ hne => absurd rfl hne,
    fun m _ => SameRegion.refl m _⟩

/-- Lowering lines under the mutexes held. -/
theorem Changes.of_falls {p : Nat} {h : XrHeld} {v v' : LineView} (hf : Falls v v')
    (hs : ∀ q i, v'.flags q i ≠ v.flags q i → h.scache = some (dcMutex i))
    (hc : ∀ q i, q ≠ p → v'.flags q i ≠ v.flags q i → h.cache = some (q, dcMutex i)) :
    Changes p h v v' where
  own q _ := hf.own q
  cache := hc
  scache m hm := by
    refine ⟨fun q i hi => ?_, fun q i _ => by rw [hf.tags], fun j _ => by rw [hf.scFlags],
      fun j _ => by rw [hf.scTags], fun j _ => by rw [hf.scIds]⟩
    by_contra hne
    exact hm (hi ▸ hs q i hne)

theorem Changes.insertWb (p : Nat) (h : XrHeld) (v : LineView) (x i : Nat) :
    Changes p h v (v.insertWb p x i) where
  own q hq := ⟨rfl, fun _ => Nat.le_refl _, fun hw => by simpa [LineView.insertWb, hq] using hw⟩
  cache _ _ _ hne := absurd rfl hne
  scache m _ := ⟨fun _ _ _ => rfl, fun _ _ _ => rfl, fun _ _ => rfl, fun _ _ => rfl, fun _ _ => rfl⟩

theorem Changes.setLine {p i : Nat} {h : XrHeld} (hs : h.scache = some (dcMutex i)) (v : LineView)
    (f : XrLine) (t : Nat) : Changes p h v (v.setLine p i f t) where
  own q hq := ⟨by simp [LineView.setLine, hq], fun _ => by simp [LineView.setLine, hq], id⟩
  cache q j hq hne := absurd (by simp [LineView.setLine, hq]) hne
  scache m hm := by
    refine ⟨fun q j hj => ?_, fun q j hj => ?_, fun _ _ => rfl, fun _ _ => rfl, fun _ _ => rfl⟩
    all_goals
      have hji : j ≠ i := by
        rintro rfl
        exact hm (hj ▸ hs)
    · rw [LineView.setLine_flags, if_neg fun hqj => hji hqj.2]
    · rw [LineView.setLine_tags, if_neg fun hqj => hji hqj.2]

theorem Changes.setSc {p j : Nat} {h : XrHeld} (hs : h.scache = some (scMutex j)) (v : LineView)
    (f : XrLine) (t id : Nat) : Changes p h v (v.setSc j f t id) where
  own q _ := ⟨rfl, fun _ => Nat.le_refl _, fun hw => hw⟩
  cache _ _ _ hne := absurd rfl hne
  scache m hm := by
    refine ⟨fun _ _ _ => rfl, fun _ _ _ => rfl, fun k hk => ?_, fun k hk => ?_, fun k hk => ?_⟩
    all_goals
      have hkj : k ≠ j := by
        rintro rfl
        exact hm (hk ▸ hs)
      simp [LineView.setSc, hkj]

section Stretches

variable {present populated : Nat → Bool} {p tag : Nat} {w₀ w : CacheWorld} {h : XrHeld}

/-- Local code that keeps the invariant and only changes what the mutexes allow. -/
theorem yield_step (hy : (cacheProtocol present populated).Yield p w₀ w) (hh : Holds w p h)
    {s : XrCachedSys LineRam} (hi : CacheInv present populated s)
    (hc : Changes p h w.st.lines s.lines) :
    (cacheProtocol present populated).Yield p w₀ { w with st := s } := by
  refine ⟨hi, hy.owner, fun q hq => CacheRely.trans (hy.guar q hq) ?_⟩
  refine ⟨fun _ => Iff.rfl, hc.own q hq, fun i hi => ?_, fun m hm => hc.scache m fun hs => ?_⟩
  · by_contra hne
    have hp := (hh.2 q _).mpr (hc.cache q i hq hne)
    rw [hp] at hi
    exact hq (Option.some.inj hi).symm
  · have hp := (hh.1 m).mpr hs
    rw [hp] at hm
    exact hq (Option.some.inj hm).symm

theorem yield_refl (hi : CacheInv present populated w.st) :
    (cacheProtocol present populated).Yield p w w :=
  Protocol.Yield.refl _ hi

end Stretches

end Xremu
