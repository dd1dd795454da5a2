import Xremu.Cached.Build
import Xremu.Cached.Interleaving
import Xremu.Cached.Transparent
import Xremu.Concurrency.Atomicity
import Xremu.Interp.Alignment

/-!
# The caches are an atomic memory

`Interleaving.lean` says that the caches stay coherent while the processors run against
each other. Here is what that is good for: every load, store and flush takes effect at
one moment between its call and its return, as if there were no caches at all
(`flatObject`). So what one processor stores, every processor loads afterwards, and no
store is lost, in every interleaving (`cached_memory_atomic`).

Between two stretches of its own a processor may rely on two things about the data: nobody
writes into its lines (`DataRely.data`), and while it holds the Scache mutex of a line that
nobody has exclusive, the contents of that line stay (`DataRely.quiet`). The second is what
the upgrade of a shared line needs: it stores without its cache mutex.
-/

namespace Xremu

open Concurrency XrCachedSys
open Concurrency.Protocol.Implementation (eff_bind eff_mono eff_and_wp eff_get eff_get_now eff_modify
  eff_modify_now eff_modifyGet)

/-! ## The memory without caches -/

/-- What an operation does at once. Without an answer from the bus an access faults, and a
store-conditional may fail. -/
inductive FlatEffect (populated : Nat → Bool) :
    XrCacheOp → (Nat → Byte) → XrResult → (Nat → Byte) → Prop where
  | load {a fw flat} : a.read = true → populated a.tag = true →
      FlatEffect populated (.access a fw) flat
        (.done, some (zext (fun k => flat (a.address + k)) a.length)) flat
  | store {a fw flat} : a.read = false → populated a.tag = true →
      FlatEffect populated (.access a fw) flat (.done, none) (flatWrite flat a)
  | fault {a fw flat} : populated a.tag = false →
      FlatEffect populated (.access a fw) flat (.fault, none) flat
  | scFailed {a fw flat} : a.sc = true →
      FlatEffect populated (.access a fw) flat (.scFailed, none) flat
  | flush {flat} : FlatEffect populated .flush flat (.done, none) flat
  | core {upd flat} : FlatEffect populated (.core upd) flat (.done, none) flat

/-- RAM as one processor alone would see it, shared by all. -/
def flatObject (populated : Nat → Bool) : AtomicObject Nat XrCacheOp XrResult (Nat → Byte) where
  effect _ := FlatEffect populated

/-- `goto restart` goes on with the same access. Between two calls a processor leaves EB
alone: with EB 0 a bus error resets it, and the reset forgets its write buffer. -/
inductive GoesOn : XrCacheOp → XrCacheOp → Prop where
  | access {a fw} : a.Aligned → GoesOn (.access a none) (.access a fw)
  | flush : GoesOn .flush .flush
  | core {upd} : (∀ x, x.cr crEb ≠ 0 → (upd x).cr crEb ≠ 0) → GoesOn (.core upd) (.core upd)

/-! ## What a processor may rely on -/

/-- Nobody has the line of `t` to itself. -/
def Unowned (t : Nat) (v : LineView) : Prop :=
  ∀ q i, dcMutex i = xrMutexIndex t → v.flags q i = .exclusive → v.tags q i ≠ t

/-- `f` and `g` are the same on the line of `t`. -/
def SameOn (t : Nat) (f g : Nat → Byte) : Prop :=
  t % 16 = 0 → ∀ k, k < 16 → g (t + k) = f (t + k)

theorem SameOn.refl (t : Nat) (f : Nat → Byte) : SameOn t f f := fun _ _ _ => rfl

theorem SameOn.trans {t : Nat} {f g h : Nat → Byte} (hfg : SameOn t f g) (hgh : SameOn t g h) :
    SameOn t f h :=
  fun ht k hk => (hgh ht k hk).trans (hfg ht k hk)

theorem SameRegion.unowned {t : Nat} {v v' : LineView} (h : SameRegion (xrMutexIndex t) v v')
    (hu : Unowned t v) : Unowned t v' := by
  intro q i hi hx
  rw [h.flags q i hi] at hx
  rw [h.tags q i hi]
  exact hu q i hi hx

theorem Falls.unowned {t : Nat} {v v' : LineView} (h : Falls v v') (hu : Unowned t v) :
    Unowned t v' := by
  intro q i hi hx
  rw [h.tags]
  exact hu q i hi (h.exclusive hx)

/-- The data part of what the others may do while `p` does nothing. -/
structure DataRely (p : Nat) (u : CacheWorld) (f : Nat → Byte) (v : CacheWorld) (g : Nat → Byte) :
    Prop where
  data : (v.st.cache p).dc = (u.st.cache p).dc
  quiet : ∀ t, u.owner (.scache (xrMutexIndex t)) = some p → Unowned t u.st.lines → SameOn t f g

/-- The caches and RAM hold `flat`, and no bus error resets a processor. -/
structure StandsFor (populated : Nat → Bool) (s : XrCachedSys LineRam) (flat : Nat → Byte) :
    Prop where
  agrees : Agrees populated flat s
  eb : ∀ q, (s.procs q).cr crEb ≠ 0

/-- How the caches stand for the memory. -/
def flatImplementation (present populated : Nat → Bool) :
    (cacheProtocol present populated).Implementation (flatObject populated) where
  Inv := StandsFor populated
  Rely := DataRely
  GoesOn := GoesOn
  rely_refl _ _ f := ⟨rfl, fun t _ _ => .refl t f⟩
  rely_trans {p u f v g w h} hr hd hr' hd' := by
    replace hr : CacheRely p u v := hr
    refine ⟨hd'.data.trans hd.data, fun t ht hu => (hd.quiet t ht hu).trans ?_⟩
    exact hd'.quiet t ((hr.locks _).mp ht) ((hr.scache _ ht).unowned hu)
  rely_acquire _ _ := ⟨rfl, fun t _ _ => .refl t _⟩
  rely_release _ _ := ⟨rfl, fun t _ _ => .refl t _⟩

/-! ## Stretches of a processor -/

/-- A stretch of `p` from `u` that is now at `w` has not shown the others anything they do
not expect. -/
structure Ready (populated : Nat → Bool) (p : Nat) (u : CacheWorld) (f : Nat → Byte)
    (w : CacheWorld) (g : Nat → Byte) : Prop where
  stands : StandsFor populated w.st g
  data : ∀ q, q ≠ p → (w.st.cache q).dc = (u.st.cache q).dc
  guard : ∀ t, u.owner (.scache (xrMutexIndex t)) ≠ some p →
    (∀ i, dcMutex i = xrMutexIndex t → u.st.lines.flags p i = .exclusive →
      u.st.lines.tags p i ≠ t) → SameOn t f g

/-- What stays while `p` holds the Scache mutex `m`. -/
structure Stays (p m : Nat) (s : XrCachedSys LineRam) (f : Nat → Byte) (s' : XrCachedSys LineRam)
    (g : Nat → Byte) : Prop where
  data : (s'.cache p).dc = (s.cache p).dc
  quiet : ∀ t, xrMutexIndex t = m → Unowned t s.lines → Unowned t s'.lines ∧ SameOn t f g

theorem Stays.refl (p m : Nat) (s : XrCachedSys LineRam) (f : Nat → Byte) : Stays p m s f s f :=
  ⟨rfl, fun t _ hu => ⟨hu, .refl t f⟩⟩

theorem Stays.trans {p m : Nat} {s s' s'' : XrCachedSys LineRam} {f g h : Nat → Byte}
    (hs : Stays p m s f s' g) (hs' : Stays p m s' g s'' h) : Stays p m s f s'' h where
  data := hs'.data.trans hs.data
  quiet t ht hu :=
    have hone := hs.quiet t ht hu
    have htwo := hs'.quiet t ht hone.1
    ⟨htwo.1, hone.2.trans htwo.2⟩

section

variable {present populated : Nat → Bool} {p : Nat} {u v w : CacheWorld} {f g : Nat → Byte}
  {s : XrCachedSys LineRam}

theorem Ready.refl (h : StandsFor populated w.st f) : Ready populated p w f w f :=
  ⟨h, fun _ _ => rfl, fun t _ _ => .refl t f⟩

theorem Ready.yield (h : Ready populated p u f w g) :
    (flatImplementation present populated).Yield p u f w g := by
  refine ⟨h.stands, fun q hq => ⟨h.data q hq, fun t ht hu => ?_⟩⟩
  refine h.guard t (fun hp => hq ?_) fun i hi hx => hu p i hi hx
  rw [ht] at hp
  exact Option.some.inj hp

/-- Local code that neither changes the memory nor moves data. -/
theorem Ready.moves (h : Ready populated p u f w g) (hs : StandsFor populated s g)
    (hdata : ∀ q, q ≠ p → (s.cache q).dc = (w.st.cache q).dc) :
    Ready populated p u f { w with st := s } g :=
  ⟨hs, fun q hq => (hdata q hq).trans (h.data q hq), h.guard⟩

theorem StandsFor.sinks (h : StandsFor populated w.st g) (hs : Sinks present populated w.st s) :
    StandsFor populated s g :=
  ⟨hs.agrees h.agrees, fun q => by rw [hs.cr q]; exact h.eb q⟩

theorem Ready.sinks (h : Ready populated p u f w g) (hs : Sinks present populated w.st s) :
    Ready populated p u f { w with st := s } g :=
  h.moves (h.stands.sinks hs) fun q _ => hs.data q

theorem Stays.sinks (m : Nat) (hs : Sinks present populated w.st s) : Stays p m w.st g s g :=
  ⟨hs.data p, fun t _ hu => ⟨hs.falls.unowned hu, .refl t g⟩⟩

theorem Ready.onScache (h : Ready populated p u f w g) (sc : XrScache → XrScache) :
    Ready populated p u f { w with st := onScache sc w.st } g :=
  h.moves ⟨h.stands.agrees.onScache sc, h.stands.eb⟩ fun _ _ => rfl

/-- A store, into a line that `p` has to itself or while it holds the Scache mutex of it. -/
theorem Ready.store {a : XrAccessReq} (h : Ready populated p u f w g) (hal : a.Aligned)
    (hs : StandsFor populated s (flatWrite g a))
    (hdata : ∀ q, q ≠ p → (s.cache q).dc = (w.st.cache q).dc)
    (hmay : u.owner (.scache (xrMutexIndex a.tag)) = some p ∨
      ∃ i, dcMutex i = xrMutexIndex a.tag ∧ u.st.lines.flags p i = .exclusive ∧
        u.st.lines.tags p i = a.tag) :
    Ready populated p u f { w with st := s } (flatWrite g a) := by
  refine ⟨hs, fun q hq => (hdata q hq).trans (h.data q hq), fun t hfree hown ht k hk => ?_⟩
  have hne : t ≠ a.tag := by
    rintro rfl
    rcases hmay with hmay | ⟨i, hi, hx, htag⟩
    · exact hfree hmay
    · exact hown i hi hx htag
  have htag : a.tag % 16 = 0 := xrLineTag_aligned _
  have hin := hal.in_line
  rw [← h.guard t hfree hown ht k hk]
  refine copyBytes_of_not ?_
  rw [a.address_eq]
  omega

/-- What the others have done by the time `p` goes on. -/
theorem After.stays {m : Nat}
    (h : (flatImplementation present populated).After p w f v g)
    (hm : w.owner (.scache m) = some p) : Stays p m w.st f v.st g := by
  have hr : CacheRely p w v := h.rely
  refine ⟨h.data.data, fun t ht hu => ?_⟩
  subst ht
  exact ⟨(hr.scache _ hm).unowned hu, h.data.quiet t hm hu⟩

end

/-! ## Mutex operations -/

/-- Where `p` goes on after a mutex operation. -/
structure Resumes (present populated : Nat → Bool) (p : Nat) (h : XrHeld) (v : CacheWorld)
    (g : Nat → Byte) : Prop where
  inv : CacheInv present populated v.st
  holds : Holds v p h
  stands : StandsFor populated v.st g

section

variable {present populated : Nat → Bool} {p tag : Nat} {w₀ w : CacheWorld} {f₀ f : Nat → Byte}
  {st : Status XrCacheOp XrResult} {sc : Option Nat} {ca : Option (Nat × Nat)}
  {post : Unit → Status XrCacheOp XrResult → CacheWorld → (Nat → Byte) → CacheWorld →
    (Nat → Byte) → Prop}

theorem eff_xrLockScache (hr : Ready populated p w₀ f₀ w f) (hh : Holds w p ⟨none, ca⟩)
    (k : ∀ v g, Resumes present populated p ⟨some (xrMutexIndex tag), ca⟩ v g →
      Later p ⟨none, ca⟩ w.st.lines v.st.lines → post () st v g v g) :
    (flatImplementation present populated).eff p (xrLockScache tag) post st w₀ f₀ w f := by
  intro hy
  refine ⟨hr.yield, fun u b hu hl v c hv => ?_⟩
  have hlock : (cacheProtocol present populated).wp p (xrLockScache tag)
      (fun _ _ v => Holds v p ⟨some (xrMutexIndex tag), ca⟩ ∧
        Later p ⟨none, ca⟩ w.st.lines v.st.lines) w w :=
    wp_xrLockScache (yield_refl hy.inv) hh fun v _ hv hl => ⟨hv, hl⟩
  have hafter := hlock.2 u hu.rely hu.inv hl v hv.rely hv.inv
  exact k v c ⟨hv.inv, hafter.1, hv.stands⟩ hafter.2

theorem eff_xrUnlockScache (hr : Ready populated p w₀ f₀ w f)
    (hh : Holds w p ⟨some (xrMutexIndex tag), ca⟩)
    (k : ∀ v g, Resumes present populated p ⟨none, ca⟩ v g →
      Later p ⟨none, ca⟩ w.st.lines v.st.lines → post () st v g v g) :
    (flatImplementation present populated).eff p (xrUnlockScache tag) post st w₀ f₀ w f := by
  intro hy
  refine ⟨hr.yield, fun u b hu hl v c hv => ?_⟩
  have hunlock : (cacheProtocol present populated).wp p (xrUnlockScache tag)
      (fun _ _ v => Holds v p ⟨none, ca⟩ ∧ Later p ⟨none, ca⟩ w.st.lines v.st.lines) w w :=
    wp_xrUnlockScache (yield_refl hy.inv) hh fun v _ hv hl => ⟨hv, hl⟩
  have hafter := (hunlock.2 u hu.rely hu.inv).2 v hv.rely hv.inv
  exact k v c ⟨hv.inv, hafter.1, hv.stands⟩ hafter.2

theorem eff_xrLockCache {q : Nat} (hr : Ready populated p w₀ f₀ w f) (hh : Holds w p ⟨sc, none⟩)
    (k : ∀ v g, Resumes present populated p ⟨sc, some (q, xrMutexIndex tag)⟩ v g →
      Later p ⟨sc, none⟩ w.st.lines v.st.lines → (∀ m, sc = some m → Stays p m w.st f v.st g) →
      post () st v g v g) :
    (flatImplementation present populated).eff p (xrLockCache q tag) post st w₀ f₀ w f := by
  intro hy
  refine ⟨hr.yield, fun u b hu hl v c hv => ?_⟩
  have hlock : (cacheProtocol present populated).wp p (xrLockCache q tag)
      (fun _ _ v => Holds v p ⟨sc, some (q, xrMutexIndex tag)⟩ ∧
        Later p ⟨sc, none⟩ w.st.lines v.st.lines) w w :=
    wp_xrLockCache (yield_refl hy.inv) hh fun v _ hv hl => ⟨hv, hl⟩
  have hafter := hlock.2 u hu.rely hu.inv hl v hv.rely hv.inv
  refine k v c ⟨hv.inv, hafter.1, hv.stands⟩ hafter.2 fun m hm => ?_
  have howner : w.owner (.scache m) = some p := (hh.1 m).mpr hm
  have howner' : u.owner (.scache m) = some p := (CacheRely.locks hu.rely _).mp howner
  have hthen := After.stays (m := m) hv (by simpa [World.acquire] using howner')
  exact (After.stays hu howner).trans hthen

theorem eff_xrUnlockCache {q : Nat} (hr : Ready populated p w₀ f₀ w f)
    (hh : Holds w p ⟨sc, some (q, xrMutexIndex tag)⟩)
    (k : ∀ v g, Resumes present populated p ⟨sc, none⟩ v g →
      Later p ⟨sc, none⟩ w.st.lines v.st.lines → (∀ m, sc = some m → Stays p m w.st f v.st g) →
      post () st v g v g) :
    (flatImplementation present populated).eff p (xrUnlockCache q tag) post st w₀ f₀ w f := by
  intro hy
  refine ⟨hr.yield, fun u b hu hl v c hv => ?_⟩
  have hunlock : (cacheProtocol present populated).wp p (xrUnlockCache q tag)
      (fun _ _ v => Holds v p ⟨sc, none⟩ ∧ Later p ⟨sc, none⟩ w.st.lines v.st.lines) w w :=
    wp_xrUnlockCache (yield_refl hy.inv) hh fun v _ hv hl => ⟨hv, hl⟩
  have hafter := (hunlock.2 u hu.rely hu.inv).2 v hv.rely hv.inv
  refine k v c ⟨hv.inv, hafter.1, hv.stands⟩ hafter.2 fun m hm => ?_
  have howner : w.owner (.scache m) = some p := (hh.1 m).mpr hm
  have howner' : u.owner (.scache m) = some p := (CacheRely.locks hu.rely _).mp howner
  have hthen := After.stays (m := m) hv (by simpa [World.release] using howner')
  exact (After.stays hu howner).trans hthen

end

/-! ## Programs without an effect

What these do to the lines is in `Interleaving.lean`; here it is that the memory stays. -/

section

variable {present populated : Nat → Bool} {p m : Nat} {w₀ w : CacheWorld} {f₀ f : Nat → Byte}
  {st : Status XrCacheOp XrResult}

theorem eff_flushEntries {post : Unit → Status XrCacheOp XrResult → CacheWorld → (Nat → Byte) →
      CacheWorld → (Nat → Byte) → Prop} (is : List Nat)
    (hr : Ready populated p w₀ f₀ w f) (hh : Holds w p ⟨none, none⟩)
    (k : ∀ u g v h, Ready populated p u g v h → post () st u g v h) :
    (flatImplementation present populated).eff p (flushEntries p is) post st w₀ f₀ w f := by
  induction is generalizing w₀ w f₀ f with
  | nil => exact k w₀ f₀ w f hr
  | cons i is ih =>
      simp only [flushEntries, eff_bind]
      refine eff_get ?_
      split
      · exact ih hr hh
      · next index hw =>
          simp only [eff_bind]
          refine eff_xrLockCache hr hh fun u g hu hl _ => ?_
          refine eff_get ?_
          have hready : Ready populated p u g u g := .refl hu.stands
          split
          · simp only [eff_bind]
            exact eff_xrUnlockCache hready hu.holds fun v h hv _ _ => ih (.refl hv.stands) hv.holds
          · next hne =>
              -- An entry that is still there is the entry that was seen.
              obtain ⟨index', hw'⟩ := Option.ne_none_iff_exists'.mp hne
              have hsame := hl.own.wb hw'
              rw [lines_wb, hw] at hsame
              obtain rfl := Option.some.inj hsame
              have htag : (u.st.cache p).dcTags index = (w.st.cache p).dcTags index :=
                congrFun hl.own.tags index
              have hout := Sinks.writeOut hu.inv hw'
              rw [htag] at hout
              simp only [eff_bind]
              refine eff_modify ?_
              exact eff_xrUnlockCache (hready.sinks hout) hu.holds fun v h hv _ _ =>
                ih (.refl hv.stands) hv.holds

theorem eff_xrDowngradeLine {post : Unit → Status XrCacheOp XrResult → CacheWorld →
      (Nat → Byte) → CacheWorld → (Nat → Byte) → Prop} {q tag : Nat} {newstate : XrLine}
    (hr : Ready populated p w₀ f₀ w f) (hh : Holds w p ⟨some m, none⟩)
    (k : ∀ v h, Resumes present populated p ⟨some m, none⟩ v h → Stays p m w.st f v.st h →
      post () st v h v h) :
    (flatImplementation present populated).eff p (xrDowngradeLine q tag newstate) post
      st w₀ f₀ w f := by
  simp only [xrDowngradeLine, eff_bind]
  refine eff_xrLockCache hr hh fun u g hu _ hwu => ?_
  have hdown := Sinks.downgrade hu.inv q tag newstate
  refine eff_modify ?_
  refine eff_xrUnlockCache ((Ready.refl hu.stands).sinks hdown) hu.holds fun v h hv _ huv => ?_
  exact k v h hv ((hwu m rfl).trans ((Stays.sinks m hdown).trans (huv m rfl)))

theorem eff_downgradeProcs {post : Unit → Status XrCacheOp XrResult → CacheWorld →
      (Nat → Byte) → CacheWorld → (Nat → Byte) → Prop} {thisproc : Option Nat} {tag : Nat}
    {newstate : XrLine} (is : List Nat)
    (hr : Ready populated p w₀ f₀ w f) (hh : Holds w p ⟨some m, none⟩)
    (k : ∀ u g v h, Ready populated p u g v h → Stays p m w.st f v.st h → post () st u g v h) :
    (flatImplementation present populated).eff p (downgradeProcs thisproc tag newstate is) post
      st w₀ f₀ w f := by
  induction is generalizing w₀ w f₀ f with
  | nil => exact k w₀ f₀ w f hr (.refl p m w.st f)
  | cons i is ih =>
      simp only [downgradeProcs, eff_bind]
      refine eff_get ?_
      split
      · exact ih hr hh k
      · simp only [eff_bind]
        refine eff_xrDowngradeLine hr hh fun u g hu hwu => ?_
        exact ih (.refl hu.stands) hu.holds fun u' g' v h hready huv =>
          k u' g' v h hready (hwu.trans huv)

theorem eff_stealScacheEntry {post : Unit → Status XrCacheOp XrResult → CacheWorld →
      (Nat → Byte) → CacheWorld → (Nat → Byte) → Prop} {j : Nat}
    (hr : Ready populated p w₀ f₀ w f) (hh : Holds w p ⟨some m, none⟩)
    (k : ∀ u g v h, Ready populated p u g v h → post () st u g v h) :
    (flatImplementation present populated).eff p (stealScacheEntry j) post st w₀ f₀ w f := by
  simp only [stealScacheEntry, eff_bind]
  refine eff_get ?_
  split
  · exact k w₀ f₀ w f hr
  · exact eff_downgradeProcs _ hr hh fun u g v h hready _ => k u g v h hready
  · exact eff_xrDowngradeLine hr hh fun v h hv _ => k v h v h (.refl hv.stands)

theorem eff_xrFindOrReplaceInScache {post : Nat × Bool → Status XrCacheOp XrResult → CacheWorld →
      (Nat → Byte) → CacheWorld → (Nat → Byte) → Prop} {tag : Nat} {newstate : XrLine}
    (hr : Ready populated p w₀ f₀ w f) (hh : Holds w p ⟨some m, none⟩)
    (found : ∀ x, post (x, false) st w₀ f₀ w f)
    (created : ∀ x u g v h, Ready populated p u g v h → post (x, true) st u g v h) :
    (flatImplementation present populated).eff p (xrFindOrReplaceInScache p tag newstate) post
      st w₀ f₀ w f := by
  simp only [xrFindOrReplaceInScache, eff_bind]
  refine eff_get ?_
  split
  · exact found _
  · simp only [eff_bind]
    refine eff_modify ?_
    refine eff_stealScacheEntry (m := m) (hr.onScache _) hh fun u g v h hready => ?_
    refine eff_modify ?_
    exact created _ u g _ h (hready.onScache _)

theorem eff_downgradeHolders {post : Unit → Status XrCacheOp XrResult → CacheWorld →
      (Nat → Byte) → CacheWorld → (Nat → Byte) → Prop} {j : Nat} {a : XrAccessReq}
    (hr : Ready populated p w₀ f₀ w f) (hh : Holds w p ⟨some m, none⟩)
    (k : ∀ u g v h, Ready populated p u g v h → post () st u g v h) :
    (flatImplementation present populated).eff p (downgradeHolders j a) post st w₀ f₀ w f := by
  simp only [downgradeHolders, eff_bind]
  refine eff_get ?_
  split
  · exact eff_xrDowngradeLine hr hh fun v h hv _ => k v h v h (.refl hv.stands)
  · split
    · exact k w₀ f₀ w f hr
    · exact eff_downgradeProcs _ hr hh fun u g v h hready _ => k u g v h hready
  · exact k w₀ f₀ w f hr

theorem eff_claimScacheEntry {post : Nat → Status XrCacheOp XrResult → CacheWorld →
      (Nat → Byte) → CacheWorld → (Nat → Byte) → Prop} {a : XrAccessReq}
    (hr : Ready populated p w₀ f₀ w f) (hh : Holds w p ⟨some m, none⟩)
    (k : ∀ x u g v h, Ready populated p u g v h → post x st u g v h) :
    (flatImplementation present populated).eff p (claimScacheEntry p a) post st w₀ f₀ w f := by
  simp only [claimScacheEntry, eff_bind]
  refine eff_xrFindOrReplaceInScache hr hh (fun x => ?_) fun x u g v h hready => ?_
  · simp only [Bool.false_eq_true, if_false, eff_bind]
    refine eff_downgradeHolders hr hh fun u g v h hready => ?_
    exact eff_modify (k x u g _ h (hready.onScache _))
  · exact k x u g v h hready

theorem eff_downgradeOthers {post : Unit → Status XrCacheOp XrResult → CacheWorld →
      (Nat → Byte) → CacheWorld → (Nat → Byte) → Prop} {j : Nat} {a : XrAccessReq}
    (hr : Ready populated p w₀ f₀ w f) (hh : Holds w p ⟨some m, none⟩)
    (k : ∀ u g v h, Ready populated p u g v h → Stays p m w.st f v.st h → post () st u g v h) :
    (flatImplementation present populated).eff p (downgradeOthers p j a) post st w₀ f₀ w f := by
  simp only [downgradeOthers, eff_bind]
  refine eff_get ?_
  split
  · exact eff_downgradeProcs _ hr hh k
  · exact eff_xrDowngradeLine hr hh fun v h hv hwv => k v h v h (.refl hv.stands) hwv
  · exact k w₀ f₀ w f hr (.refl p m w.st f)

end

/-! ## The access -/

/-- How `XrDcacheAccess` leaves the memory, also at `goto restart`. -/
def Answers (populated : Nat → Bool) (p : Nat) (a : XrAccessReq) (r : Option Nat ⊕ XrResult)
    (st : Status XrCacheOp XrResult) (u : CacheWorld) (g : Nat → Byte) (v : CacheWorld)
    (h : Nat → Byte) : Prop :=
  match r with
  | .inl _ => st = .called (.access a none) ∧ Ready populated p u g v h
  | .inr out =>
      ∃ h', (flatObject populated).May p st h (.answered out) h' ∧ Ready populated p u g v h'

section

variable {present populated : Nat → Bool} {p : Nat} {w₀ w : CacheWorld} {f₀ f : Nat → Byte}
  {a : XrAccessReq}

theorem cr_busError_eb (q address : Nat) (s : XrCachedSys LineRam) :
    ((busError p address s).procs q).cr crEb = (s.procs q).cr crEb := by
  by_cases hq : q = p
  · subst hq
    obtain ⟨m, htouched, hraises⟩ := faulted_busError q address s
    have heb := hraises.raises.eb
    rw [htouched.cr] at heb
    exact heb
  · simp [busError, setMachine, hq]

/-- A store in the line `p` has to itself, up to the end of the access. -/
theorem eff_store {upd : XrCachedSys LineRam → XrCachedSys LineRam} (hread : a.read = false)
    (hpop : populated a.tag = true) (hh : Holds w p ⟨none, some (p, xrMutexIndex a.tag)⟩)
    (hr : Ready populated p w₀ f₀ { w with st := upd w.st } (flatWrite f a)) :
    (flatImplementation present populated).eff p
      (do
        Prog.modify upd
        xrUnlockCache p a.tag
        pure (.inr (.done, none)))
      (Answers populated p a) (.called (.access a none)) w₀ f₀ w f := by
  have heffect : (flatObject populated).effect p (.access a none) f (.done, none) (flatWrite f a) :=
    .store hread hpop
  simp only [eff_bind]
  refine eff_modify_now heffect ?_
  refine eff_xrUnlockCache hr hh fun v h hv _ _ => ?_
  exact ⟨h, .stay, .refl hv.stands⟩

theorem StandsFor.moves {s s' : XrCachedSys LineRam} {flat : Nat → Byte}
    (hs : StandsFor populated s flat) (ha : Agrees populated flat s')
    (hcr : ∀ q, (s'.procs q).cr = (s.procs q).cr) : StandsFor populated s' flat :=
  ⟨ha, fun q => by rw [hcr q]; exact hs.eb q⟩

/-- Entering a line in the write buffer and storing into it. -/
theorem Ready.storeToLine {fw index : Nat} (hr : Ready populated p w₀ f₀ w f)
    (h : CacheInv present populated w.st) (hal : a.Aligned) (hread : a.read = false)
    (hx : w.st.lines.flags p index = .exclusive) (ht : w.st.lines.tags p index = a.tag)
    (hout : w.st.lines.wbOf p index = none) (hfw : w.st.lines.wb p fw = none ∧ fw < 4)
    (hmay : w₀.owner (.scache (xrMutexIndex a.tag)) = some p ∨
      ∃ i, dcMutex i = xrMutexIndex a.tag ∧ w₀.st.lines.flags p i = .exclusive ∧
        w₀.st.lines.tags p i = a.tag) :
    Ready populated p w₀ f₀ { w with st := storeToLine p fw index a w.st } (flatWrite f a) := by
  have hserved : Served present populated True p a (.done, none) w.st
      (Xremu.storeToLine p fw index a w.st) := served_store h hal hread hx ht hout hfw
  have hag := hserved.agrees trivial hr.stands.agrees
  simp only [XrMemOp.flatAfter, hread, and_self, if_true] at hag
  refine hr.store hal ⟨hag, hr.stands.eb⟩ (fun q hq => ?_) hmay
  simp [Xremu.storeToLine, hq]

theorem Later.claimed {tag : Nat} {newstate : XrLine} {ca : Option (Nat × Nat)} {v v' : LineView}
    (h : Later p ⟨some (xrMutexIndex tag), ca⟩ v v') (htag : tag % 16 = 0)
    (hcl : Claimed p tag newstate v) : Claimed p tag newstate v' := by
  have hm : scMutex (xrScSetNumber tag) = xrMutexIndex tag := scMutex_set htag
  have hsame := h.scache _ rfl
  exact ⟨(hsame.scFlags _ hm).trans hcl.flags, (hsame.scTags _ hm).trans hcl.tags,
    (hsame.scIds _ hm).trans hcl.ids⟩

/-- After a miss: with the line read in, and the Scache mutex given back. -/
theorem eff_dcacheFilled {fw index : Nat} (hr : Ready populated p w₀ f₀ w f)
    (hh : Holds w p ⟨some (xrMutexIndex a.tag), some (p, xrMutexIndex a.tag)⟩) (hal : a.Aligned)
    (hpop : populated a.tag = true) (hindex : xrDcSetNumber a.tag = index / 2)
    (hflags : w.st.lines.flags p index = a.newstate) (htags : w.st.lines.tags p index = a.tag)
    (hout : w.st.lines.wbOf p index = none)
    (hinverse : ∀ {x}, w.st.lines.wb p x = some index ↔ w.st.lines.wbOf p index = some x)
    (hfw : a.read = false → w.st.lines.wb p fw = none ∧ fw < 4) :
    (flatImplementation present populated).eff p
      (do
        xrUnlockScache a.tag
        if a.read then
          let s ← Prog.get
          xrUnlockCache p a.tag
          pure (.inr (.done, some (loadFromLine s p index a)))
        else
          Prog.modify (storeToLine p fw index a)
          xrUnlockCache p a.tag
          pure (.inr (.done, none)))
      (Answers populated p a) (.called (.access a none)) w₀ f₀ w f := by
  have hmx : dcMutex index = xrMutexIndex a.tag :=
    (xrMutexIndex_of_set (xrLineTag_aligned a.address) hindex).symm
  simp only [eff_bind]
  refine eff_xrUnlockScache hr hh fun v g hv hwv => ?_
  -- The cache mutex was held, so the line is still in the state it was given.
  have hx : v.st.lines.flags p index = a.newstate := by
    rw [hwv.cache index (by rw [hmx]), hflags]
  have ht : v.st.lines.tags p index = a.tag := by
    rw [hwv.own.tags, htags]
  cases hread : a.read with
  | true =>
      have hhas : v.st.lines.Has p index a.tag :=
        ⟨by rw [hx]; exact newstate_ne_invalid a, ht⟩
      have heffect : (flatObject populated).effect p (.access a none) g
          (.done, some (zext (fun k => g (a.address + k)) a.length)) g := .load hread hpop
      simp only [if_true, eff_bind]
      rw [← hv.stands.agrees.load hal hhas] at heffect
      refine eff_get_now heffect ?_
      refine eff_xrUnlockCache (.refl hv.stands) hv.holds fun x h hx _ _ => ?_
      exact ⟨h, .stay, .refl hx.stands⟩
  | false =>
      have hx' : v.st.lines.flags p index = .exclusive := by
        rw [hx]
        simp [XrAccessReq.newstate, hread]
      have hwb : v.st.lines.wbOf p index = none := by
        cases hb : v.st.lines.wbOf p index with
        | none => rfl
        | some x =>
            have hb' := hinverse.mp (hwv.own.wb (hv.inv.lines.inverse.mpr hb))
            rw [hout] at hb'
            cases hb'
      have hfree := hwv.own.wb_none (hfw hread).1
      have hstore := (Ready.refl hv.stands).storeToLine hv.inv hal hread hx' ht hwb
        ⟨hfree, (hfw hread).2⟩ (.inr ⟨index, hmx, hx', ht⟩)
      exact eff_store hread hpop hv.holds hstore

/-- A miss moves no data in the other Dcaches. -/
theorem dc_replaceLine (h : CacheInv present populated w.st) {q : Nat} (hq : q ≠ p) :
    ((replaceLine p a w.st).2.cache q).dc = (w.st.cache q).dc := by
  have hroom := (Sinks.makeRoom h p a).data q
  rw [← hroom]
  simp only [replaceLine, fillLine, readLine]
  split <;> simp [hq]

/-- After a miss, in memory that does not answer. -/
theorem eff_dcacheFill_error (hinv : CacheInv present populated w.st)
    (hh : Holds w p ⟨some (xrMutexIndex a.tag), some (p, xrMutexIndex a.tag)⟩)
    (hs : StandsFor populated w.st f) (hpop : populated a.tag = false) :
    (flatImplementation present populated).eff p
      (do
        Prog.modify (backOut p (replaceLine p a w.st).1.1 (xrScSetNumber a.tag))
        xrUnlockCache p a.tag
        xrUnlockScache a.tag
        Prog.modify (busError p a.address)
        pure (.inr (.fault, none)))
      (Answers populated p a) (.called (.access a none)) w f
      { w with st := (replaceLine p a w.st).2 } f := by
  have hback := agrees_backOut (p := p) (a := a) hinv hs.agrees (xrScSetNumber a.tag) hpop
  have hstands := hs.moves hback fun q => cr_replaceLine (p := p) (a := a) hinv q
  have hready := (Ready.refl (p := p) hs).moves hstands fun q hq => by
    rw [← dc_replaceLine (a := a) hinv hq]
    simp [backOut, hq]
  simp only [eff_bind]
  refine eff_modify ?_
  refine eff_xrUnlockCache hready hh fun v g hv _ _ => ?_
  refine eff_xrUnlockScache (.refl hv.stands) hv.holds fun x h hx _ => ?_
  have heffect : (flatObject populated).effect p (.access a none) h (.fault, none) h := .fault hpop
  have hfault := agrees_busError hx.inv.plant hx.stands.agrees a.address (.inl (hx.stands.eb p))
  refine eff_modify_now heffect ⟨h, .stay, ?_⟩
  refine (Ready.refl hx.stands).moves ⟨hfault, fun q => ?_⟩ fun q hq => ?_
  · rw [cr_busError_eb]
    exact hx.stands.eb q
  · simp only [cache, mem_busError hx.inv.plant]
    split
    · simp [onCache, hq]
    · rfl

theorem eff_dcacheFill {fw : Nat} (hr : Ready populated p w₀ f₀ w f)
    (hh : Holds w p ⟨some (xrMutexIndex a.tag), none⟩) (hal : a.Aligned)
    (hp : present p = true ∧ p < xrProcMax)
    (hcl : Claimed p a.tag a.newstate w.st.lines) (hmiss : ∀ i, ¬w.st.lines.Has p i a.tag)
    (hfw : a.read = false → w.st.lines.wb p fw = none ∧ fw < 4) :
    (flatImplementation present populated).eff p (dcacheFill p fw (xrScSetNumber a.tag) a)
      (Answers populated p a) (.called (.access a none)) w₀ f₀ w f := by
  simp only [dcacheFill, eff_bind]
  refine eff_xrLockCache hr hh fun u g hu hwu _ => ?_
  have hcl' := hwu.claimed (xrLineTag_aligned _) hcl
  have hmiss' : ∀ i, ¬u.st.lines.Has p i a.tag := fun i hi => hmiss i (hwu.own.has hi)
  refine eff_modifyGet ?_
  rw [answered_replaceLine hu.inv.plant]
  split
  · next hpop => exact eff_dcacheFill_error hu.inv hu.holds hu.stands hpop
  · next hpop =>
      have hpop' : populated a.tag = true := by simpa using hpop
      have hag := agrees_replaceLine hu.inv hu.stands.agrees hcl' hmiss' hpop'
      have hco := coherent_replaceLine hu.inv hcl' hmiss' hp hpop'
      have hstands := hu.stands.moves hag fun q => cr_replaceLine (p := p) (a := a) hu.inv q
      have hready : Ready populated p u g { u with st := (replaceLine p a u.st).2 } g :=
        (Ready.refl hu.stands).moves hstands fun q hq => dc_replaceLine hu.inv hq
      have hlines := lines_replaceLine u.st p a
      refine eff_dcacheFilled hready hu.holds hal hpop' ?_ ?_ ?_ ?_ ?_ fun hread => ?_
      · exact replacedLine_set u.st p a
      · dsimp only
        rw [hlines, LineView.setLine_flags, if_pos ⟨rfl, rfl⟩]
      · dsimp only
        rw [hlines, LineView.setLine_tags, if_pos ⟨rfl, rfl⟩]
      · exact wbOf_replaceLine hu.inv.lines
      · exact hco.inverse
      · have hfree := hwu.own.wb_none (hfw hread).1
        refine ⟨?_, (hfw hread).2⟩
        dsimp only
        rw [hlines]
        exact ((falls_makeRoom hu.inv.lines p a).own p).wb_none hfree

theorem eff_dcacheMissed {fw : Nat} (hr : Ready populated p w₀ f₀ w f)
    (hh : Holds w p ⟨none, none⟩) (hal : a.Aligned) (hp : present p = true ∧ p < xrProcMax)
    (hmiss : ∀ i, ¬w.st.lines.Has p i a.tag)
    (hfw : a.read = false → w.st.lines.wb p fw = none ∧ fw < 4) :
    (flatImplementation present populated).eff p (dcacheMissed p fw a)
      (Answers populated p a) (.called (.access a none)) w₀ f₀ w f := by
  unfold dcacheMissed
  split
  · next hsc => exact ⟨f, .now (.scFailed hsc), hr⟩
  · simp only [dcacheMiss, eff_bind]
    refine eff_xrLockScache hr hh fun u g hu hwu => ?_
    have hclaim : (cacheProtocol present populated).wp p (claimScacheEntry p a)
        (fun x _ v => x = xrScSetNumber a.tag ∧ Holds v p ⟨some (xrMutexIndex a.tag), none⟩ ∧
          OwnFalls p u.st.lines v.st.lines ∧ Claimed p a.tag a.newstate v.st.lines) u u :=
      wp_claimScacheEntry (yield_refl hu.inv) hu.holds fun _ v _ hv hown hcl =>
        ⟨rfl, hv, hown, hcl⟩
    have hquiet : (flatImplementation present populated).eff p (claimScacheEntry p a)
        (fun _ st u' g' v h => st = .called (.access a none) ∧ Ready populated p u' g' v h)
        (.called (.access a none)) u g u g :=
      eff_claimScacheEntry (.refl hu.stands) hu.holds fun _ _ _ _ _ hready => ⟨rfl, hready⟩
    refine eff_mono ?_ (eff_and_wp hclaim hquiet)
    rintro x st u' g' v h ⟨⟨rfl, hv, hown, hcl⟩, rfl, hready⟩
    have hown' := hwu.own.trans hown
    exact eff_dcacheFill hready hv hal hp hcl (fun i hi => hmiss i (hown'.has hi))
      fun hread => ⟨hown'.wb_none (hfw hread).1, (hfw hread).2⟩

/-- A line that `p` has, but not to itself, nobody has to himself. -/
theorem Coherent.unowned {s : XrCachedSys LineRam} {index t : Nat}
    (h : Coherent present populated s.lines) (hhas : s.lines.Has p index t)
    (hx : s.lines.flags p index ≠ .exclusive) : Unowned t s.lines := by
  intro q i _ hqx hqt
  obtain rfl : p = q := h.exclusive_alone hqx hqt hhas
  have hi : s.lines.Has p i t := ⟨by rw [hqx]; simp, hqt⟩
  obtain rfl := h.unique hhas hi
  exact hx hqx

/-- The line becomes exclusive and is stored into, in one stretch under the Scache mutex. -/
theorem Ready.upgrade {fw index : Nat} (hr : Ready populated p w₀ f₀ w f)
    (h : CacheInv present populated w.st) (hal : a.Aligned) (hread : a.read = false)
    (hp : present p = true ∧ p < xrProcMax)
    (hindex : w.st.lines.tags p index = a.tag ∧ w.st.lines.flags p index ≠ .exclusive ∧
      xrDcSetNumber a.tag = index / 2 ∧ populated a.tag = true)
    (hsc : w.st.lines.scFlags (xrScSetNumber a.tag) ≠ .invalid ∧
      w.st.lines.scTags (xrScSetNumber a.tag) = a.tag)
    (hothers : ∀ q i, q ≠ p → ¬w.st.lines.Has q i a.tag)
    (hunique : ∀ j, j ≠ index → ¬w.st.lines.Has p j a.tag)
    (hdc : ∀ k, k < 16 → (w.st.cache p).dc index k = f (a.tag + k))
    (hfw : w.st.lines.wb p fw = none ∧ fw < 4)
    (howner : w₀.owner (.scache (xrMutexIndex a.tag)) = some p) :
    Ready populated p w₀ f₀
      { w with
        st := Xremu.storeToLine p fw index a
          (makeExclusive p index (xrScSetNumber a.tag) w.st) } (flatWrite f a) := by
  obtain ⟨ht, hx, hplace, hpop⟩ := hindex
  have hlines := lines_makeExclusive (j := xrScSetNumber a.tag) ht
  have hag := agrees_makeExclusive hr.stands.agrees ht hdc (xrScSetNumber a.tag)
  have hco := coherent_makeExclusive h ht hx hplace hpop hp hsc hothers hunique
  have hinv : CacheInv present populated (makeExclusive p index (xrScSetNumber a.tag) w.st) :=
    ⟨(h.plant.onScache _).onCache p _, hco⟩
  have hmade : Ready populated p w₀ f₀
      { w with st := makeExclusive p index (xrScSetNumber a.tag) w.st } f :=
    hr.moves (hr.stands.moves hag fun _ => rfl) fun q hq => by simp [makeExclusive, hq]
  refine hmade.storeToLine hinv hal hread ?_ ?_ ?_ ?_ (.inl howner)
  · dsimp only
    rw [hlines, LineView.setLine_flags, if_pos ⟨rfl, rfl⟩]
  · dsimp only
    rw [hlines, LineView.setLine_tags, if_pos ⟨rfl, rfl⟩]
  · dsimp only
    rw [hlines]
    exact h.lines.not_buffered hx
  · dsimp only
    rw [hlines]
    exact hfw

theorem eff_dcacheUpgrade {fw index : Nat} (hr : Ready populated p w₀ f₀ w f)
    (hh : Holds w p ⟨none, none⟩) (hal : a.Aligned) (hp : present p = true ∧ p < xrProcMax)
    (hread : a.read = false) (hfw : w.st.lines.wb p fw = none ∧ fw < 4)
    (ht : w.st.lines.tags p index = a.tag) (hx : w.st.lines.flags p index ≠ .exclusive) :
    (flatImplementation present populated).eff p (dcacheUpgrade p fw index a)
      (Answers populated p a) (.called (.access a none)) w₀ f₀ w f := by
  simp only [dcacheUpgrade, eff_bind]
  refine eff_xrLockScache hr hh fun u g hu hwu => ?_
  have hfree : u.st.lines.wb p fw = none := hwu.own.wb_none hfw.1
  refine eff_get ?_
  split
  · simp only [eff_bind]
    exact eff_xrUnlockScache (.refl hu.stands) hu.holds fun v h hv _ => ⟨rfl, .refl hv.stands⟩
  · next hvalid =>
      have hhas : u.st.lines.Has p index a.tag := ⟨hvalid, by rw [hwu.own.tags]; exact ht⟩
      have hsc := hu.inv.lines.included hhas
      have hnx : u.st.lines.flags p index ≠ .exclusive := hwu.own.not_exclusive hx
      have hunowned := hu.inv.lines.unowned hhas hnx
      have hplace := (hu.inv.lines.placed hhas).1
      have hfind : xrFindInScache u.st.mem.scache a.tag = some (xrScSetNumber a.tag) := if_pos hsc
      rw [hfind]
      simp only [eff_bind]
      have hothers : (cacheProtocol present populated).wp p
          (downgradeOthers p (xrScSetNumber a.tag) a)
          (fun _ u' v => (cacheProtocol present populated).Yield p u' v ∧
            Holds v p ⟨some (xrMutexIndex a.tag), none⟩ ∧ OwnFalls p u.st.lines v.st.lines ∧
            (v.st.lines.scFlags (xrScSetNumber a.tag) ≠ .invalid ∧
              v.st.lines.scTags (xrScSetNumber a.tag) = a.tag) ∧
            ∀ q i, q ≠ p → ¬v.st.lines.Has q i a.tag) u u :=
        wp_downgradeOthers (yield_refl hu.inv) hu.holds hsc fun _ _ hy hv hown hscv hall =>
          ⟨hy, hv, hown, hscv, hall⟩
      have hquiet : (flatImplementation present populated).eff p
          (downgradeOthers p (xrScSetNumber a.tag) a)
          (fun _ st u' g' v h => st = .called (.access a none) ∧ Ready populated p u' g' v h ∧
            Stays p (xrMutexIndex a.tag) u.st g v.st h)
          (.called (.access a none)) u g u g :=
        eff_downgradeOthers (.refl hu.stands) hu.holds fun _ _ _ _ hready hstays =>
          ⟨rfl, hready, hstays⟩
      refine eff_mono ?_
        (eff_and_wp hothers hquiet)
      rintro - st u' g' v h ⟨⟨hy, hv, hown, hscv, hall⟩, rfl, hready, hstays⟩
      have iv : CacheInv present populated v.st := hy.inv
      have htv : v.st.lines.tags p index = a.tag := by
        rw [hown.tags]
        exact hhas.2
      have hnx' := hown.not_exclusive hnx
      -- Nobody else could write the line meanwhile, so its bytes are still those of the memory.
      have hdc : ∀ k, k < 16 → (v.st.cache p).dc index k = h (a.tag + k) := by
        intro k hk
        rw [hstays.data, (hstays.quiet a.tag rfl hunowned).2 (xrLineTag_aligned _) k hk]
        exact hu.stands.agrees.cached hhas k hk
      have howner : u'.owner (.scache (xrMutexIndex a.tag)) = some p := by
        rw [← hy.owner]
        exact (hv.1 _).mpr rfl
      have hstore := hready.upgrade iv hal hread hp ⟨htv, hnx', hplace, hu.inv.lines.populated hhas⟩
        hscv hall (fun j hj hjt => hj (hu.inv.lines.unique (hown.has hjt) hhas)) hdc
        ⟨hown.wb_none hfree, hfw.2⟩ howner
      have heffect : (flatObject populated).effect p (.access a none) h (.done, none)
          (flatWrite h a) := .store hread (hu.inv.lines.populated hhas)
      refine eff_modify_now heffect ?_
      exact eff_xrUnlockScache hstore hv fun x h' hx _ => ⟨h', .stay, .refl hx.stands⟩

theorem eff_dcacheLookup_read (hread : a.read = true) (hr : Ready populated p w₀ f₀ w f)
    (hinv : CacheInv present populated w.st) (hh : Holds w p ⟨none, none⟩) (hal : a.Aligned)
    (hp : present p = true ∧ p < xrProcMax) :
    (flatImplementation present populated).eff p (dcacheLookup p 0 a)
      (Answers populated p a) (.called (.access a none)) w₀ f₀ w f := by
  simp only [dcacheLookup, hread, if_true, eff_bind]
  cases hf : (w.st.cache p).findLine a.tag with
  | some index =>
      have hhas : w.st.lines.Has p index a.tag := findLine_some hf
      have heffect : (flatObject populated).effect p (.access a none) f
          (.done, some (zext (fun k => f (a.address + k)) a.length)) f :=
        .load hread (hinv.lines.populated hhas)
      rw [← hr.stands.agrees.load hal hhas] at heffect
      refine eff_get_now heffect ?_
      rw [hf]
      exact ⟨f, .stay, hr⟩
  | none =>
      refine eff_get ?_
      rw [hf]
      exact eff_dcacheMissed hr hh hal hp (fun i => hinv.lines.findLine_none hf i) (by simp [hread])

theorem eff_dcacheLookup_write {fw : Nat} (hread : a.read = false)
    (hr : Ready populated p w₀ f₀ w f) (hinv : CacheInv present populated w.st)
    (hh : Holds w p ⟨none, some (p, xrMutexIndex a.tag)⟩) (hal : a.Aligned)
    (hp : present p = true ∧ p < xrProcMax) (hlines : w.st.lines = w₀.st.lines)
    (hfw : w.st.lines.wb p fw = none ∧ fw < 4)
    (hout : ∀ i, w.st.lines.tags p i = a.tag → w.st.lines.wbOf p i = none) :
    (flatImplementation present populated).eff p (dcacheLookup p fw a)
      (Answers populated p a) (.called (.access a none)) w₀ f₀ w f := by
  simp only [dcacheLookup, hread, Bool.false_eq_true, if_false, eff_bind]
  refine eff_get ?_
  split
  · next index hf =>
      have hhas : w.st.lines.Has p index a.tag := findLine_some hf
      split
      · next hx =>
          have hplace := hinv.lines.placed hhas
          have hmx : dcMutex index = xrMutexIndex a.tag :=
            (xrMutexIndex_of_set hplace.2 hplace.1).symm
          have hstore := hr.storeToLine hinv hal hread hx hhas.2 (hout index hhas.2) hfw
            (.inr ⟨index, hmx, by rw [← hlines]; exact hx, by rw [← hlines]; exact hhas.2⟩)
          exact eff_store hread (hinv.lines.populated hhas) hh hstore
      · next hx =>
          simp only [eff_bind]
          refine eff_xrUnlockCache hr hh fun v g hv hwv _ => ?_
          exact eff_dcacheUpgrade (.refl hv.stands) hv.holds hal hp hread
            ⟨hwv.own.wb_none hfw.1, hfw.2⟩ (by rw [hwv.own.tags]; exact hhas.2)
            (hwv.own.not_exclusive hx)
  · next hf =>
      simp only [eff_bind]
      refine eff_xrUnlockCache hr hh fun v g hv hwv _ => ?_
      exact eff_dcacheMissed (.refl hv.stands) hv.holds hal hp
        (fun i hi => hinv.lines.findLine_none hf i (hwv.own.has hi))
        fun _ => ⟨hwv.own.wb_none hfw.1, hfw.2⟩

/-- A store into a line that is in the write buffer already. -/
theorem Ready.mergeData {x index : Nat} (hinv : CacheInv present populated w.st)
    (hs : StandsFor populated w.st f) (hal : a.Aligned)
    (hw : w.st.lines.wb p x = some index) (ht : w.st.lines.tags p index = a.tag) :
    Ready populated p w f
      { w with st := onCache p (·.mergeData index a.lineoffset (byteOf a.srcvalue) a.length) w.st }
      (flatWrite f a) := by
  have hx := hinv.lines.buffered hw
  have hhas : w.st.lines.Has p index a.tag := ⟨by rw [hx]; simp, ht⟩
  have hplace := hinv.lines.placed hhas
  have hl := lines_mergeData p index a.lineoffset (byteOf a.srcvalue) a.length w.st
  refine (Ready.refl hs).store hal ⟨?_, hs.eb⟩ (fun q hq => by simp [hq])
    (.inr ⟨index, (xrMutexIndex_of_set hplace.2 hplace.1).symm, hx, ht⟩)
  refine hs.agrees.store hinv.lines hal hx ht (by rw [hl]) (by rw [hl]) (fun hy => by rwa [hl])
    ⟨x, by rw [hl]; exact hw⟩ rfl fun q j => ?_
  by_cases hq : q = p
  · subst hq
    by_cases hj : j = index
    · subst hj
      simp [XrCache.mergeData, XrCache.setData]
    · simp [XrCache.mergeData, XrCache.setData, hj]
  · simp [hq]

theorem eff_xrDcacheAccess {freewbindex : Option Nat} (hs : StandsFor populated w.st f)
    (hinv : CacheInv present populated w.st) (hh : Holds w p ⟨none, none⟩) (hal : a.Aligned)
    (hp : present p = true ∧ p < xrProcMax)
    (hfree : ∀ fw, freewbindex = some fw → w.st.lines.wb p fw = none ∧ fw < 4) :
    (flatImplementation present populated).eff p (xrDcacheAccess p a freewbindex)
      (Answers populated p a) (.called (.access a none)) w f w f := by
  have hready : Ready populated p w f w f := .refl hs
  unfold xrDcacheAccess
  cases hread : a.read with
  | true =>
      rw [if_pos rfl]
      exact eff_dcacheLookup_read hread hready hinv hh hal hp
  | false =>
      simp only [Bool.false_eq_true, if_false, eff_bind]
      refine eff_xrLockCache hready hh fun u g hu hwu _ => ?_
      have hready' : Ready populated p u g u g := .refl hu.stands
      refine eff_get ?_
      split
      · next index hsearch =>
          obtain ⟨x, hw, ht⟩ := searchWb_hit hsearch
          have hpop : populated a.tag = true :=
            hu.inv.lines.populated ⟨by rw [hu.inv.lines.buffered hw]; simp, ht⟩
          exact eff_store hread hpop hu.holds (.mergeData hu.inv hu.stands hal hw ht)
      · simp only [eff_bind]
        refine eff_xrUnlockCache hready' hu.holds fun v h hv _ _ => ?_
        exact eff_flushEntries _ (.refl hv.stands) hv.holds fun _ _ _ _ hready => ⟨rfl, hready⟩
      · next fw hsearch =>
          simp only [eff_bind]
          refine eff_modify ?_
          have hl : (onCache p (fun c =>
              { c with wbCycles := if c.wbCycles = 0 then 3 else c.wbCycles }) u.st).lines =
              u.st.lines := lines_onCache_same ⟨rfl, rfl, rfl, rfl⟩
          have hsinks := Sinks.onCache_same hu.inv hl rfl
          have hfw : u.st.lines.wb p fw = none ∧ fw < 4 := by
            rcases (searchWb_miss hsearch).2 with ⟨x, hx, hmem, hnone⟩ | hsame
            · obtain rfl := Option.some.inj hx
              simp only [xrWbEntries, List.mem_cons, List.not_mem_nil, or_false] at hmem
              exact ⟨hnone, by omega⟩
            · have hold := hfree fw hsame.symm
              exact ⟨hwu.own.wb_none hold.1, hold.2⟩
          refine eff_dcacheLookup_write hread (hready'.sinks hsinks) hsinks.inv hu.holds hal hp hl
            ?_ ?_
          · dsimp only
            rw [hl]
            exact hfw
          · dsimp only
            rw [hl]
            exact fun i hi => hu.inv.lines.wbOf_of_miss hsearch hi

/-- Every operation has its effect on the memory at one moment of its run. -/
theorem flatImplementation_sound (present populated : Nat → Bool) :
    (flatImplementation present populated).Sound := by
  intro p x y w flat iw hs hpre hgoes
  replace iw : CacheInv present populated w.st := iw
  replace hpre : CachePre present p y w := hpre
  replace hs : StandsFor populated w.st flat := hs
  change (flatImplementation present populated).eff p (y.code p) _ _ w flat w flat
  cases hgoes with
  | @access a fw hal =>
      simp only [XrCacheOp.code, eff_bind]
      refine eff_mono ?_
        (eff_xrDcacheAccess hs iw hpre.holds hal hpre.present fun x hx => hpre.free a x (by rw [hx]))
      intro out st u g v h hout
      cases out with
      | inl fw =>
          obtain ⟨hst, hready⟩ := hout
          exact fun _ => ⟨hready.yield, hst, .access hal⟩
      | inr result =>
          obtain ⟨h', hmay, hready⟩ := hout
          exact fun _ => ⟨h', hmay, hready.yield⟩
  | flush =>
      simp only [XrCacheOp.code, eff_bind]
      exact eff_flushEntries _ (.refl hs) hpre.holds fun _ _ _ h hready _ =>
        ⟨h, .now .flush, hready.yield⟩
  | @core upd heb =>
      simp only [XrCacheOp.code, eff_bind]
      refine eff_modify fun _ => ⟨flat, .now .core, ?_⟩
      have hupd : StandsFor populated
          { w.st with procs := Function.update w.st.procs p (upd (w.st.procs p)) } flat := by
        refine ⟨⟨hs.agrees.cached, hs.agrees.ram⟩, fun q => ?_⟩
        by_cases hq : q = p
        · subst hq
          simpa using heb _ (hs.eb q)
        · simpa [hq] using hs.eb q
      exact ((Ready.refl hs).moves hupd fun _ _ => rfl).yield

end

/-! ## Every interleaving -/

/-- The operations of the theorem: naturally aligned accesses, flushes, and what a processor
does on its own. -/
def XrCacheOp.Regular (present : Nat → Bool) (p : Nat) (x : XrCacheOp) : Prop :=
  (present p = true ∧ p < xrProcMax) ∧ x.Starts ∧ GoesOn x x

/-- However the processors run against each other, the answers they get are those of one
memory without caches, in which every operation takes effect at once. -/
theorem cached_memory_atomic {s : XrCachedSys LineRam} (hs : ColdStart s)
    (heb : ∀ p, (s.procs p).cr crEb ≠ 0)
    {c : Protocol.Config (XrCachedSys LineRam) XrLock Nat XrCacheOp XrResult}
    {hist : List (Event Nat XrCacheOp XrResult)}
    (run : (cacheProtocol s.mem.present s.mem.bus.populated).History
      (XrCacheOp.Regular s.mem.present) s c hist) :
    ∃ flat stats, (flatObject s.mem.bus.populated).Serves s.mem.bus.bytes flat stats hist ∧
      Agrees s.mem.bus.populated flat c.world.st := by
  have hstands : StandsFor s.mem.bus.populated s s.mem.bus.bytes := ⟨hs.agrees, heb⟩
  obtain ⟨flat, stats, hserves, hok⟩ := Protocol.Implementation.atomic
    (cacheProtocol_sound s.mem.present s.mem.bus.populated)
    (flatImplementation_sound s.mem.present s.mem.bus.populated) hs.inv hstands
    (fun p => ⟨by simp, by simp⟩) (fun p x hx => ⟨⟨hx.1, hx.2.1⟩, hx.2.2⟩) run
  have hend : StandsFor s.mem.bus.populated c.world.st flat := hok.stands
  exact ⟨flat, stats, hserves, hend.agrees⟩

/-- Two processors without a bus error handler to lose, cold. -/
def coldPair : XrCachedSys LineRam :=
  { cold 2 .zeroed with procs := fun p => { XrProcessor.zeroed p with cr := fun _ => 1 } }

/-- Processor 1 calls a load while processor 0 holds its cache mutex for a store. -/
theorem cached_memory_atomic_pair :
    ∃ c, (cacheProtocol coldPair.mem.present coldPair.mem.bus.populated).History
        (XrCacheOp.Regular coldPair.mem.present) coldPair c
        [.call 0 (.access ⟨0, false, 1, 4, false⟩ none), .call 1 (.access ⟨0, true, 0, 4, false⟩ none)] ∧
      c.world.owner (.cache 0 0) = some 0 ∧
      ∃ flat stats, (flatObject coldPair.mem.bus.populated).Serves coldPair.mem.bus.bytes flat stats
        [.call 0 (.access ⟨0, false, 1, 4, false⟩ none), .call 1 (.access ⟨0, true, 0, 4, false⟩ none)] ∧
        Agrees coldPair.mem.bus.populated flat c.world.st := by
  have hstart : ∀ (p : Nat) (a : XrAccessReq), p < 2 → a.Aligned →
      XrCacheOp.Regular coldPair.mem.present p (.access a none) := by
    intro p a hp hal
    exact ⟨⟨by simpa [coldPair, cold] using hp, by simp [xrProcMax]; omega⟩, rfl, .access hal⟩
  have hcalled : (cacheProtocol coldPair.mem.present coldPair.mem.bus.populated).History
      (XrCacheOp.Regular coldPair.mem.present) coldPair _ _ :=
    .call 0 (.access ⟨0, false, 1, 4, false⟩ none) .init rfl
      (hstart 0 _ (by decide) ⟨by decide, by decide⟩)
  have hlocked : (cacheProtocol coldPair.mem.present coldPair.mem.bus.populated).History
      (XrCacheOp.Regular coldPair.mem.present) coldPair _ _ :=
    .inside (p := 0) hcalled .lock (.lock rfl rfl)
  have hrun := hlocked.call 1 (.access ⟨0, true, 0, 4, false⟩ none) rfl
    (hstart 1 _ (by decide) ⟨by decide, by decide⟩)
  have hcold : ColdStart coldPair := by
    have hbase := coldStart_cold 2 .zeroed
    exact ⟨fun _ => rfl, hbase.dcache, hbase.buffers, hbase.scache, hbase.running⟩
  have heb : ∀ p, (coldPair.procs p).cr crEb ≠ 0 := fun _ => (by decide : (1 : Word) ≠ 0)
  exact ⟨_, hrun, rfl, cached_memory_atomic hcold heb hrun⟩

end Xremu
