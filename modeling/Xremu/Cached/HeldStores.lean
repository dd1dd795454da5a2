import Xremu.Cached.WriteBuffer
import Xremu.Interp.Cycles
import Xremu.Interp.WatchedRuns

/-!
# No store is held back

The account of `WriteBuffer.lean`, kept by an observer of the running processor. The rest of
the system goes on between its steps: the other processors access, fetch, flush and reset,
devices write RAM (`OthersStep`). `XrCheckConditions` empties the write buffer whenever the
countdown runs, and it is the first thing a chain of blocks comes to when it ends, however it
ends. So `XrExecuteFast` never returns with a store that RAM has not got, except those of
before a reset, which clears the account with the write buffer.
-/

namespace Xremu

open Concurrency XrCachedSys

/-- The account is kept up with every access and every look at RAM. -/
instance : Watcher (XrCachedMem LineRam) Owed where
  fresh _ := none
  access m r res m' owed :=
    match storedAt m r res with
    | none => settle m'.proc.id m'.mem owed
    | some address =>
        owe address.toNat r.length (byteOf r.srcvalue) (settle m'.proc.id m'.mem owed)
  look m owed := settle m.proc.id m.mem owed

/-! ## Instruction fetch -/

section

variable {present populated : Nat → Bool} {s s' : XrCachedSys LineRam} {p : Nat} {owed : Owed}

/-- What a fetch leaves of the write buffer: everything, or what its exception does. -/
structure FetchKeeps (present populated : Nat → Bool) (p : Nat) (failed : Prop)
    (s s' : XrCachedSys LineRam) : Prop where
  inv : CacheInv present populated s'
  done : ¬failed → SameBuffer p s s' ∧ (s'.procs p).cr = (s.procs p).cr
  fault : failed → KeepsUnlessReset p s s'

theorem FetchKeeps.after {s₁ : XrCachedSys LineRam} {failed : Prop} (hs : SameBuffer p s s₁)
    (hcr : (s₁.procs p).cr = (s.procs p).cr) (h : FetchKeeps present populated p failed s₁ s') :
    FetchKeeps present populated p failed s s' where
  inv := h.inv
  done hok := ⟨hs.trans (h.done hok).1, (h.done hok).2.trans hcr⟩
  fault hfail := (h.fault hfail).after_same hs (congrFun hcr crEb)

theorem FetchKeeps.refl {failed : Prop} (h : CacheInv present populated s) (hok : ¬failed) :
    FetchKeeps present populated p failed s s :=
  ⟨h, fun _ => ⟨.refl p s, rfl⟩, fun hfail => absurd hfail hok⟩

/-- A fetch that ends in an exception of state `s`. -/
theorem FetchKeeps.raised {failed : Prop} {m : Machine (XrCachedMem LineRam)}
    (h : CacheInv present populated s) (hraises : Raises (s.machine p) m) (hfail : failed) :
    FetchKeeps present populated p failed s (s.setMachine p m) where
  inv := h.raised hraises
  done hok := absurd hfail hok
  fault _ := (SameBuffer.refl p s).releases.raised (h.plant.ids p) rfl hraises

theorem machine_procs (s : XrCachedSys LineRam) (p : Nat) (m : Machine (XrCachedMem LineRam)) :
    (s.setMachine p m).procs p = m.proc := by
  simp [setMachine]

theorem sameBuffer_icMissed (p tag : Nat) (reply : Option (Nat → Byte)) (s : XrCachedSys LineRam) :
    SameBuffer p s (icMissed p tag reply s) := by
  refine .onCache ⟨?_, ?_, ?_, ?_⟩
  all_goals cases reply <;> rfl

theorem xrIcacheAccess_keeps {address : Word} {out : Option (Nat → Byte)}
    {m : Machine (XrCachedMem LineRam)} (h : CacheInv present populated s)
    (hrun : xrIcacheAccess address (s.machine p) = (out, m)) :
    FetchKeeps present populated p (out = none) s (s.setMachine p m) := by
  have hmissed : ∀ reply, CacheInv present populated (icMissed p (xrLineTag address.toNat) reply s) :=
    fun reply => h.onCache_same (lines_icMissed p _ reply s)
  rcases xrIcacheAccess_moves (h.plant.ids p) address with
    ⟨line, hhit⟩ | ⟨reply, ⟨line, hfill⟩ | ⟨m', hfault, hraises⟩⟩
  · rw [hhit] at hrun
    cases hrun
    rw [setMachine_self]
    exact .refl h (Option.some_ne_none line)
  · rw [hfill] at hrun
    cases hrun
    rw [← setMachine_icMissed p (xrLineTag address.toNat) reply, setMachine_self]
    exact (FetchKeeps.refl (hmissed reply) (Option.some_ne_none line)).after
      (sameBuffer_icMissed p _ reply s) rfl
  · rw [hfault] at hrun
    cases hrun
    rw [← setMachine_icMissed p (xrLineTag address.toNat) reply]
    exact (FetchKeeps.raised (hmissed reply) hraises rfl).after (sameBuffer_icMissed p _ reply s) rfl

theorem setMachine_setMachine (s : XrCachedSys LineRam) (p : Nat)
    (m m' : Machine (XrCachedMem LineRam)) :
    (s.setMachine p m).setMachine p m' = s.setMachine p m' := by
  simp [setMachine]

theorem fetchLines_keeps {count : Nat} {fetchpc : Word} {out : Option (List Word)}
    {m : Machine (XrCachedMem LineRam)} (h : CacheInv present populated s)
    (hrun : fetchLines count fetchpc (s.machine p) = (out, m)) :
    FetchKeeps present populated p (out = none) s (s.setMachine p m) := by
  induction count generalizing fetchpc s out m with
  | zero =>
      cases hrun
      rw [setMachine_self]
      exact .refl h (Option.some_ne_none _)
  | succ count ih =>
      rw [fetchLines] at hrun
      cases ha : xrIcacheAccess fetchpc (s.machine p) with
      | mk line m₁ =>
          rw [ha] at hrun
          have hfirst := xrIcacheAccess_keeps h ha
          cases line with
          | none =>
              cases hrun
              exact ⟨hfirst.inv, fun hok => absurd rfl hok, fun _ => hfirst.fault rfl⟩
          | some line =>
              obtain ⟨hsame, hcr⟩ := hfirst.done (Option.some_ne_none line)
              cases hl : fetchLines count (fetchpc + 16) m₁ with
              | mk words m₂ =>
                  have hl' : fetchLines count (fetchpc + 16) ((s.setMachine p m₁).machine p) =
                      (words, m₂) := by
                    rw [machine_setMachine]
                    exact hl
                  have hrest := ih hfirst.inv hl'
                  rw [setMachine_setMachine] at hrest
                  cases words with
                  | none =>
                      simp only [hl] at hrun
                      cases hrun
                      have hfail := hrest.after hsame hcr
                      exact ⟨hfail.inv, fun hok => absurd rfl hok, fun _ => hfail.fault rfl⟩
                  | some words =>
                      simp only [hl] at hrun
                      cases hrun
                      have hdone := hrest.after hsame hcr
                      exact ⟨hdone.inv, fun _ => hdone.done (Option.some_ne_none words),
                        fun hfail => absurd hfail (Option.some_ne_none _)⟩

/-- The translation of a fetch does not touch the memory, but for its exception. -/
theorem xrTranslate_keeps {virtual : Word} {out : Option (Word × BitVec 64)}
    {m : Machine (XrCachedMem LineRam)} (h : CacheInv present populated s)
    (hrun : xrTranslate (s.machine p) virtual false true = (out, m)) :
    FetchKeeps present populated p (out = none) s (s.setMachine p m) := by
  cases translates hrun with
  | unmapped lookup =>
      rcases translateLookup_sources lookup with ⟨-, hraises⟩ | ⟨tbe, hnone, -⟩
      · exact .raised h hraises rfl
      · cases hnone
  | @denied tbe f lookup fault => exact .raised h (f.raises _ virtual false) rfl
  | @mapped tbe lookup ok =>
      have hid := ids_setMachine (p := p) h
        (m := rememberLookup (s.machine p) virtual tbe true) rfl
      refine ⟨h.of_mem hid rfl, fun _ => ⟨.of_cache rfl, ?_⟩, fun hfail => by cases hfail⟩
      rw [machine_procs]
      rfl

theorem fetchIcache_keeps {pc fetchpc : Word} {flags : BitVec 64} {out : Option XrFetched}
    {m : Machine (XrCachedMem LineRam)} (h : CacheInv present populated s)
    (hrun : fetchIcache (s.machine p) pc fetchpc flags = (out, m)) :
    FetchKeeps present populated p (out = none) s (s.setMachine p m) := by
  unfold fetchIcache at hrun
  extract_lets line instcount at hrun
  cases hl : fetchLines ((instcount + 3) / 4) fetchpc (s.machine p) with
  | mk words m₁ =>
      rw [hl] at hrun
      have hlines := fetchLines_keeps h hl
      cases words with
      | none =>
          cases hrun
          exact ⟨hlines.inv, fun hok => absurd rfl hok, fun _ => hlines.fault rfl⟩
      | some words =>
          cases hrun
          exact ⟨hlines.inv, fun _ => hlines.done (Option.some_ne_none words),
            fun hfail => by cases hfail⟩

theorem cachedFetch_keeps {out : Option XrFetched} {m : Machine (XrCachedMem LineRam)}
    (h : CacheInv present populated s) (hrun : cachedFetch (s.machine p) = (out, m)) :
    FetchKeeps present populated p (out = none) s (s.setMachine p m) := by
  unfold cachedFetch at hrun
  extract_lets line at hrun
  split at hrun
  · cases ht : xrTranslate (s.machine p) line false true with
    | mk place m₁ =>
        rw [ht] at hrun
        have htranslate := xrTranslate_keeps h ht
        cases place with
        | none =>
            cases hrun
            exact ⟨htranslate.inv, fun hok => absurd rfl hok, fun _ => htranslate.fault rfl⟩
        | some place =>
            obtain ⟨hsame, hcr⟩ := htranslate.done (Option.some_ne_none place)
            have hrun' : fetchIcache ((s.setMachine p m₁).machine p) m₁.proc.pc place.1 place.2 =
                (out, m) := by
              rw [machine_setMachine]
              exact hrun
            have hfetch := fetchIcache_keeps htranslate.inv hrun'
            rw [setMachine_setMachine] at hfetch
            exact hfetch.after hsame hcr
  · exact fetchIcache_keeps h hrun

end

/-! ## The running processor -/

section

variable {present populated : Nat → Bool} {s s' : XrCachedSys LineRam} {p : Nat} {owed : Owed}

/-- The account of the observed processor is in order. -/
structure InOrder (present populated : Nat → Bool)
    (m : Machine (Watched (XrCachedMem LineRam) Owed)) : Prop where
  here : present m.proc.id = true ∧ m.proc.id < xrProcMax
  account : Accounted present populated m.proc.id m.mem.seen m.bare.alone

/-- And its write buffer is empty. -/
structure Emptied (present populated : Nat → Bool)
    (m : Machine (Watched (XrCachedMem LineRam) Owed)) : Prop extends
    InOrder present populated m where
  empty : ∀ w, (m.mem.mem.caches m.proc.id).wbIndices w = none

theorem alone_ids (m : Machine (XrCachedMem LineRam)) (q : Nat) : (m.alone.procs q).id = q := by
  by_cases hq : q = m.proc.id
  · subst hq
    simp [Machine.alone]
  · simp [Machine.alone, hq]
    rfl

/-- The observed processor, found in a state of the system. -/
theorem InOrder.of_sys {m : Machine (Watched (XrCachedMem LineRam) Owed)}
    {n : Machine (XrCachedMem LineRam)} (h : InOrder present populated m)
    (hid : n.proc.id = m.proc.id) (hmem : n.mem = s'.mem)
    (ha : Accounted present populated m.proc.id owed s') :
    InOrder present populated (n.watched owed) where
  here := by
    rw [Machine.watched_proc, hid]
    exact h.here
  account := by
    have halone : Accounted present populated m.proc.id owed n.alone :=
      ha.of_mem (alone_ids n) hmem
    rw [Machine.watched_proc, hid]
    exact halone

variable {m m' : Machine (Watched (XrCachedMem LineRam) Owed)}

theorem InOrder.core (h : InOrder present populated m) (hmem : m'.mem = m.mem)
    (hid : m'.proc.id = m.proc.id) : InOrder present populated m' := by
  have hm' : m' = m'.bare.watched m.mem.seen := by
    rw [← hmem]
    rfl
  have hsys : m'.bare.mem = m.bare.alone.mem := congrArg Watched.mem hmem
  rw [hm']
  exact h.of_sys hid hsys h.account

theorem Emptied.core (h : Emptied present populated m) (hmem : m'.mem = m.mem)
    (hid : m'.proc.id = m.proc.id) : Emptied present populated m' where
  toInOrder := h.toInOrder.core hmem hid
  empty := by
    rw [hmem, hid]
    exact h.empty

theorem emptied_reset (h : InOrder present populated m) : Emptied present populated (xrReset m) := by
  have hraise : Excepted (m.bare.alone.machine m.proc.id) (xrReset m.bare) := by
    have hself : m.bare.alone.machine m.proc.id = m.bare := alone_machine m.bare
    rw [hself]
    exact ⟨rfl, .inr rfl, .inr rfl⟩
  have hinv := (excepted_setMachine h.account.inv hraise).1
  have hnone : ∀ w, (m.bare.alone.setMachine m.proc.id (xrReset m.bare)).lines.wb m.proc.id w =
      none := by
    intro w
    simp [setMachine, lines, cache, xrReset, ResetMem.resetMem, XrCache.reset]
  refine ⟨h.of_sys (n := xrReset m.bare) rfl rfl (.of_empty hinv hnone), fun w => ?_⟩
  exact hnone w

/-! ### What the build does -/

/-- What the observer notes of an access is the account after it. -/
theorem accountOf_alone {m m₁ : Machine (XrCachedMem LineRam)} {r r' : XrMemReq} {res : XrResult}
    (hid : m₁.proc.id = m.proc.id) (hmem : m₁.mem = s'.mem)
    (hr : r' = { r with sc := r'.sc }) :
    accountOf m.proc.id m.alone s' r' res owed = noteAccess m r res m₁ owed := by
  have hproc : m.alone.procs m.proc.id = m.proc := congrArg Machine.proc (alone_machine m)
  have hstored : storedAt m r' res = storedAt m r res := by
    rw [hr]
    rfl
  have hsrc : r'.length = r.length ∧ r'.srcvalue = r.srcvalue := by
    rw [hr]
    exact ⟨rfl, rfl⟩
  unfold accountOf noteAccess excepted
  rw [hproc, alone_machine, hstored, hsrc.1, hsrc.2, ← hmem, ← hid]
  rfl

theorem InOrder.access {block : Nat} {r : XrMemReq} {res : XrResult}
    (h : InOrder present populated m) (hlen : r.length = 1 ∨ r.length = 2 ∨ r.length = 4)
    (hacc : XrBuild.access m block r = some (res, m')) : InOrder present populated m' := by
  obtain ⟨⟨res₁, m₁⟩, hout, heq⟩ := Option.map_eq_some_iff.mp hacc
  obtain ⟨rfl, rfl⟩ := Prod.mk.inj heq
  have hrun : cachedAccess m.bare r = some (res₁, m₁) := hout
  unfold cachedAccess at hrun
  split at hrun
  · cases hrun
  · next res s' hx =>
      split at hrun
      · cases hrun
      · obtain ⟨rfl, rfl⟩ := Prod.mk.inj (Option.some.inj hrun)
        have haccount := h.account.access (r := { r with sc := r.sc && !r.read }) h.here hlen hx
        have hid : (s'.machine m.proc.id).proc.id = m.proc.id := haccount.inv.plant.ids _
        have hnote : accountOf m.proc.id m.bare.alone s' { r with sc := r.sc && !r.read } res
            m.mem.seen = noteAccess m.bare r res (s'.machine m.proc.id) m.mem.seen :=
          accountOf_alone hid rfl rfl
        rw [hnote] at haccount
        exact h.of_sys hid rfl haccount

/-- An operation, and a look at RAM after it. -/
theorem InOrder.noted {m₁ : Machine (XrCachedMem LineRam)} (h : InOrder present populated m)
    (ha : Accounted present populated m.proc.id (settle m.proc.id s'.mem m.mem.seen) s')
    (hid : m₁.proc.id = m.proc.id) (hmem : m₁.mem = s'.mem) :
    InOrder present populated (lookAfter m m₁) := by
  have hlook : lookAfter m m₁ = m₁.watched (settle m.proc.id s'.mem m.mem.seen) := by
    rw [← hid, ← hmem]
    rfl
  rw [hlook]
  exact h.of_sys hid hmem ha

theorem InOrder.emptied {m₁ : Machine (XrCachedMem LineRam)}
    (h : InOrder present populated (m₁.watched owed)) (hmem : m₁.mem = s'.mem)
    (hnone : ∀ w, s'.lines.wb m₁.proc.id w = none) : Emptied present populated (m₁.watched owed) where
  toInOrder := h
  empty w := by
    show (m₁.mem.caches m₁.proc.id).wbIndices w = none
    rw [hmem]
    exact hnone w

/-- If it only has lines written out. -/
theorem InOrder.looks {n : Machine (XrCachedMem LineRam)} (h : InOrder present populated m)
    (hinv : CacheInv present populated s') (hr : Releases m.proc.id m.bare.alone s')
    (hid : n.proc.id = m.proc.id) (hmem : n.mem = s'.mem) :
    InOrder present populated (lookAfter m n) :=
  h.noted (h.account.releases hinv hr) hid hmem

theorem Emptied.looks {n : Machine (XrCachedMem LineRam)} (h : Emptied present populated m)
    (hinv : CacheInv present populated s') (hr : Releases m.proc.id m.bare.alone s')
    (hid : n.proc.id = m.proc.id) (hmem : n.mem = s'.mem) :
    Emptied present populated (lookAfter m n) := by
  refine (h.toInOrder.looks hinv hr hid hmem).emptied hmem fun w => ?_
  rw [hid]
  by_contra hw
  exact hr.wb w hw (h.empty w)

theorem flush_id {code : Nat → XrCode LineRam Unit}
    (hquiet : ∀ p q, (code q).Keeps (QuietFor p)) (m : Machine (XrCachedMem LineRam)) :
    (runAlone code m).proc.id = m.proc.id := (runAlone_touched hquiet m).id

theorem InOrder.flush (h : InOrder present populated m) :
    InOrder present populated (XrBuild.flushWriteBuffer m) := by
  have hquiet : ∀ p q, (xrFlushWriteBuffer q : XrCode LineRam Unit).Keeps (QuietFor p) :=
    fun _ q => keeps_flushEntries q xrWbEntries
  exact h.looks (exec_flush_sinks h.account.inv).inv
    (.of_drains (drains_xrFlushWriteBuffer m.proc.id h.account.inv)) (flush_id hquiet m.bare) rfl

theorem InOrder.dcachectrl (h : InOrder present populated m) (value : Word) :
    InOrder present populated (XrBuild.dcachectrl value m) := by
  have hdrains := drains_xrFlushWriteBuffer m.proc.id h.account.inv
  have hinv := (exec_dcachectrl_sinks (p := m.proc.id) h.account.inv value).inv
  refine h.looks hinv ?_ (flush_id (fun _ q => keeps_mtcrDcachectrl value q) m.bare) rfl
  -- The lines that are invalidated have been written out before.
  simp only [mtcrDcachectrl, Prog.run_bind, Prog.run_modify]
  exact (Releases.of_drains hdrains).then_same (.onCache ⟨rfl, rfl, rfl, rfl⟩) rfl

theorem InOrder.icachectrl (h : InOrder present populated m) (value : Word) :
    InOrder present populated (XrBuild.icachectrl value m) := by
  have hl := lines_icachectrl m.proc.id value m.bare.alone
  refine h.looks (h.account.inv.onCache_same hl) ?_ rfl rfl
  exact (SameBuffer.onCache ⟨rfl, rfl, rfl, rfl⟩).releases

/-- The end of an operation that has taken an exception. -/
theorem InOrder.excepts {m₁ : Machine (XrCachedMem LineRam)} (h : InOrder present populated m)
    (hinv : CacheInv present populated s') (hk : KeepsUnlessReset m.proc.id m.bare.alone s')
    (hid : m₁.proc.id = m.proc.id) (hmem : m₁.mem = s'.mem) :
    InOrder present populated
      (m₁.watched (excepted m.bare (Watcher.look m₁ m.mem.seen))) := by
  have hproc : m.bare.alone.procs m.proc.id = m.proc := congrArg Machine.proc (alone_machine m.bare)
  have hnotes : excepted m.bare (Watcher.look m₁ m.mem.seen) =
      if (m.bare.alone.procs m.proc.id).cr crEb = 0 then fun _ => none
      else settle m.proc.id s'.mem m.mem.seen := by
    rw [hproc, ← hid, ← hmem]
    rfl
  rw [hnotes]
  exact h.of_sys hid hmem (h.account.excepted hinv hk)

theorem KeepsUnlessReset.empty (h : KeepsUnlessReset p s s') (hnone : ∀ w, s.lines.wb p w = none)
    (w : Nat) : s'.lines.wb p w = none := by
  unfold KeepsUnlessReset at h
  split at h
  · exact h w
  · by_contra hw
    exact h.wb w hw (hnone w)

/-- An instruction fetch, which may end in an exception. -/
theorem InOrder.fetch {f : Option XrFetched} (h : InOrder present populated m)
    (hrun : XrBuild.fetch m = some (f, m')) :
    InOrder present populated m' ∧
      (Emptied present populated m → Emptied present populated m') := by
  obtain ⟨⟨out, m₁⟩, hout, heq⟩ := Option.map_eq_some_iff.mp hrun
  have hself : m.bare.alone.machine m.proc.id = m.bare := alone_machine m.bare
  have hfetch : cachedFetch (m.bare.alone.machine m.proc.id) = (out, m₁) := by
    rw [hself]
    exact Option.some.inj hout
  have hkeeps := cachedFetch_keeps h.account.inv hfetch
  have hid : m₁.proc.id = m.proc.id := by
    have hids := hkeeps.inv.plant.ids m.proc.id
    rwa [machine_procs] at hids
  cases out with
  | some f' =>
      obtain ⟨rfl, rfl⟩ := Prod.mk.inj heq
      have hreleases := (hkeeps.done (Option.some_ne_none f')).1.releases
      exact ⟨h.looks hkeeps.inv hreleases hid rfl, fun he => he.looks hkeeps.inv hreleases hid rfl⟩
  | none =>
      obtain ⟨rfl, rfl⟩ := Prod.mk.inj heq
      have hfault := hkeeps.fault rfl
      have hmem : m₁.mem = (m.bare.alone.setMachine m.proc.id m₁).mem := rfl
      have hin := h.excepts hkeeps.inv hfault hid hmem
      refine ⟨hin, fun he => hin.emptied hmem ?_⟩
      rw [hid]
      exact hfault.empty he.empty

/-- `XrCheckConditions` empties the write buffer: the countdown runs if there is anything in it. -/
theorem InOrder.drain (h : InOrder present populated m) :
    Emptied present populated (XrBuild.drain m) := by
  show Emptied present populated (lookAfter m (drainWb m.bare))
  unfold drainWb
  extract_lets c
  by_cases hzero : c.wbCycles = 0
  · rw [if_pos hzero]
    have hempty : ∀ w, (m.mem.mem.caches m.proc.id).wbIndices w = none := by
      intro w
      by_contra hw
      exact h.account.armed w hw hzero
    have hself : Emptied present populated m := ⟨h, hempty⟩
    exact hself.looks (n := m.bare) h.account.inv (SameBuffer.refl _ _).releases rfl rfl
  · rw [if_neg hzero]
    let stop : XrCache → XrCache := fun c => { c with wbCycles := 0 }
    have hl : (onCache m.proc.id stop m.bare.alone).lines = m.bare.alone.lines :=
      lines_onCache_same ⟨rfl, rfl, rfl, rfl⟩
    have hdc : ((onCache m.proc.id stop m.bare.alone).cache m.proc.id).dc =
        (m.bare.alone.cache m.proc.id).dc := by
      rw [cache_onCache, if_pos rfl]
    have hstopped := h.account.inv.onCache_same hl
    have hrun := run_xrFlushWriteBuffer (p := m.proc.id) hstopped
    have hdrains := drains_xrFlushWriteBuffer m.proc.id hstopped
    have hquiet : ∀ p q, (xrFlushWriteBuffer q : XrCode LineRam Unit).Keeps (QuietFor p) :=
      fun _ q => keeps_flushEntries q xrWbEntries
    have hid : (runAlone xrFlushWriteBuffer
        { m.bare with mem := m.bare.mem.setCache m.bare.proc.id (stop c) }).proc.id = m.proc.id :=
      flush_id hquiet _
    have haccount : Accounted present populated m.proc.id
        (settle m.proc.id ((xrFlushWriteBuffer m.proc.id).run
          (onCache m.proc.id stop m.bare.alone)).2.mem m.mem.seen)
        ((xrFlushWriteBuffer m.proc.id).run (onCache m.proc.id stop m.bare.alone)).2 := by
      refine ⟨hrun.1.inv, fun w hw => absurd (hrun.2.1 w) hw, fun b v hv => ?_⟩
      refine settle_buffered hrun.1.inv (fun howed => hdrains.buffers ?_) hv
      have hbuffers := h.account.buffered b v howed
      unfold Buffers at hbuffers ⊢
      rw [hl, hdc]
      exact hbuffers
    refine (h.noted haccount hid rfl).emptied rfl ?_
    rw [hid]
    exact hrun.2.1

theorem inOrder_kept : KeptByBuild (InOrder present populated) where
  core := fun h hmem hid _ => h.core hmem hid
  reset := fun h => (emptied_reset h).toInOrder
  fetch := fun h hrun => (h.fetch hrun).1
  emptyDtbCache := fun {m} _ h => h.looks (n := m.bare) h.account.inv
    (SameBuffer.refl _ _).releases rfl rfl
  access := fun h hlen hacc => h.access hlen hacc
  flushWriteBuffer := fun h => h.flush
  icachectrl := fun value h => h.icachectrl value
  dcachectrl := fun value h => h.dcachectrl value
  drain := fun h => h.drain.toInOrder

theorem emptied_kept : KeptByFetch (Emptied present populated) where
  core := fun h hmem hid _ => h.core hmem hid
  reset := fun h => emptied_reset h.toInOrder
  fetch := fun h hrun => (h.toInOrder.fetch hrun).2 h
  emptyDtbCache := fun {m} _ h => h.looks (n := m.bare) h.account.inv
    (SameBuffer.refl _ _).releases rfl rfl

end

/-! ## The rest of the system -/

/-- The processor an operation is of. -/
def XrMemOp.proc : XrMemOp → Nat
  | .access p _ | .flush p | .dcachectrl p _ => p

/-- What happens to the caches while processor `p` does not act. -/
inductive OthersStep (p : Nat) (s : XrCachedSys LineRam) : XrCachedSys LineRam → Prop
  | op {o : XrMemOp} {r s'} (other : o.proc ≠ p) (legal : o.Legal s.mem.present)
      (exec : o.exec s = some (r, s')) : OthersStep p s s'
  | fetch {q : Nat} (other : q ≠ p) (address : Word) :
      OthersStep p s (s.setMachine q (xrIcacheAccess address (s.machine q)).2)
  | icachectrl {q : Nat} (other : q ≠ p) (value : Word) :
      OthersStep p s (s.setMachine q (mtcrIcachectrl value (s.machine q)))
  | reset {q : Nat} (other : q ≠ p) : OthersStep p s (s.setMachine q (xrReset (s.machine q)))
  -- A device writes RAM, or a processor does past its Dcache.
  | ram (bytes : Nat → Byte) :
      OthersStep p s { s with mem := { s.mem with bus := { s.mem.bus with bytes := bytes } } }
  -- Another processor runs on.
  | core {q : Nat} (other : q ≠ p) (upd : XrProcessor → XrProcessor) (hint : Word) (cycles : Nat)
      (id : ∀ x, (upd x).id = x.id) :
      OthersStep p s ((onCache q (fun c => { c with dtbLastResult := hint, wbCycles := cycles })
        s).setMachine q ⟨upd (s.procs q), (onCache q (fun c =>
          { c with dtbLastResult := hint, wbCycles := cycles }) s).mem⟩)

section

variable {present populated : Nat → Bool} {s s' : XrCachedSys LineRam} {p q : Nat}

/-- Such steps are steps of the runs of the caches. -/
theorem OthersStep.cacheStep (h : OthersStep p s s') : CacheStep s s' := by
  cases h with
  | op other legal exec => exact .op legal exec
  | fetch other address => exact .fetch _ address
  | icachectrl other value => exact .icachectrl _ value
  | reset other => exact .reset _
  | ram bytes => exact .ram bytes
  | core other upd hint cycles id => exact .core _ upd hint cycles id

theorem cache_onCache_other (hq : q ≠ p) (f : XrCache → XrCache) (s : XrCachedSys LineRam) :
    (onCache q f s).cache p = s.cache p := by
  rw [cache_onCache, if_neg (Ne.symm hq)]

/-- An exception of another processor. -/
theorem sameBuffer_excepted {m : Machine (XrCachedMem LineRam)} (hid : (s.procs q).id = q)
    (hq : q ≠ p) (hm : Excepted (s.machine q) m) :
    SameBuffer p s (s.setMachine q m) ∧ (s.setMachine q m).mem.bus.bytes = s.mem.bus.bytes := by
  rcases hm.mem with hmem | hmem
  · refine ⟨.of_cache ?_, ?_⟩
    · exact congrArg (fun m : XrCachedMem LineRam => m.caches p) hmem
    · exact congrArg (fun m : XrCachedMem LineRam => m.bus.bytes) hmem
  · have hid' : (s.machine q).proc.id = q := hid
    rw [hid'] at hmem
    have hreset : (s.setMachine q m).mem = (onCache q XrCache.reset s).mem := hmem
    refine ⟨.of_cache ?_, ?_⟩
    · rw [← cache_onCache_other hq XrCache.reset s]
      exact congrArg (fun m : XrCachedMem LineRam => m.caches p) hreset
    · rw [hreset]
      rfl

theorem releases_op (h : CacheInv present populated s) {o : XrMemOp} (hq : o.proc ≠ p)
    (hl : o.Legal present) {r : XrResult} (he : o.exec s = some (r, s')) : Releases p s s' := by
  cases o with
  | access q a =>
      cases access_moves h hl.2 hl.1 he with
      | quiet drains ok done => exact .of_drains drains
      | stored drains write stored armed => exact .of_stored drains stored (Ne.symm hq)
      | @fault s₁ drains plant =>
          obtain ⟨hsame, hram⟩ := sameBuffer_excepted (p := p) (plant.ids q) hq
            (raises_busError q a.address s₁).excepts
          exact (Releases.of_drains drains).then_same hsame hram
  | flush q =>
      cases he
      exact .of_drains (drains_xrFlushWriteBuffer q h)
  | dcachectrl q value =>
      cases he
      simp only [mtcrDcachectrl, Prog.run_bind, Prog.run_modify]
      exact (Releases.of_drains (drains_xrFlushWriteBuffer q h)).then_same
        (.of_cache (cache_onCache_other hq _ _)) rfl

/-- Others have the lines of `p` written out, and do no more to its write buffer. -/
theorem OthersStep.releases (h : CacheInv present populated s) (hstep : OthersStep p s s') :
    Releases p s s' := by
  cases hstep with
  | op other legal exec =>
      rw [h.plant.table] at legal
      exact releases_op h other legal exec
  | @fetch q other address =>
      have hsame : ∀ reply, SameBuffer p s (icMissed q (xrLineTag address.toNat) reply s) :=
        fun reply => .of_cache (cache_onCache_other other _ s)
      rcases xrIcacheAccess_moves (h.plant.ids q) address with
        ⟨line, hhit⟩ | ⟨reply, ⟨line, hfill⟩ | ⟨m, hfault, hraises⟩⟩
      · rw [hhit, setMachine_self]
        exact (SameBuffer.refl p s).releases
      · rw [hfill, ← setMachine_icMissed q (xrLineTag address.toNat) reply, setMachine_self]
        exact (hsame reply).releases
      · rw [hfault]
        have hids : ((icMissed q (xrLineTag address.toNat) reply s).procs q).id = q :=
          h.plant.ids q
        exact ((hsame reply).trans (sameBuffer_excepted hids other hraises.excepts).1).releases
  | @icachectrl q other value =>
      have hid : (s.machine q).proc.id = q := h.plant.ids q
      rw [mtcrIcachectrl, setMachine_onIcache hid, setMachine_self]
      exact (SameBuffer.of_cache (cache_onCache_other other _ s)).releases
  | @reset q other =>
      have hm : Excepted (s.machine q) (xrReset (s.machine q)) := ⟨rfl, .inr rfl, .inr rfl⟩
      exact (sameBuffer_excepted (h.plant.ids q) other hm).1.releases
  | ram bytes =>
      refine SameBuffer.releases (.of_cache ?_)
      rfl
  | @core q other upd hint cycles id =>
      refine SameBuffer.releases (.of_cache ?_)
      exact cache_onCache_other other
        (fun c => { c with dtbLastResult := hint, wbCycles := cycles }) s

end

/-! ## Every run -/

/-- What happens between two steps of the observed processor. -/
inductive Meanwhile (m : Machine (Watched (XrCachedMem LineRam) Owed)) :
    Machine (Watched (XrCachedMem LineRam) Owed) → Prop
  /-- The system, in which the other processors are in any state, makes a step. -/
  | others {s s' : XrCachedSys LineRam} (self : s.machine m.proc.id = m.bare)
      (ids : ∀ q, (s.procs q).id = q) (step : OthersStep m.proc.id s s') :
      Meanwhile m (lookAfter m (s'.machine m.proc.id))
  /-- `UserBreak`, `Running` and `PauseCalls` are set from outside. -/
  | signals {m' : Machine (Watched (XrCachedMem LineRam) Owed)} (outside : Outside m m')
      (mem : m'.mem = m.mem) : Meanwhile m m'

section

variable {present populated : Nat → Bool} {m m' : Machine (Watched (XrCachedMem LineRam) Owed)}

theorem InOrder.meanwhile (h : InOrder present populated m) (hm : Meanwhile m m') :
    InOrder present populated m' ∧
      (Emptied present populated m → Emptied present populated m') := by
  cases hm with
  | @others s s' self ids step =>
      have hmem : s.mem = m.bare.alone.mem := congrArg Machine.mem self
      have hinv : CacheInv present populated s := h.account.inv.of_mem ids hmem
      have hinv' := hinv.step step.cacheStep
      have hsame : SameBuffer m.proc.id m.bare.alone s :=
        .of_cache (congrArg (fun m : XrCachedMem LineRam => m.caches _) hmem)
      have hreleases := (step.releases hinv).after_same hsame
      have hid : (s'.machine m.proc.id).proc.id = m.proc.id := hinv'.plant.ids _
      exact ⟨h.looks hinv' hreleases hid rfl, fun he => he.looks hinv' hreleases hid rfl⟩
  | signals outside mem =>
      have hid : m'.proc.id = m.proc.id := by rw [outside]
      exact ⟨h.core mem hid, fun he => he.core mem hid⟩

/-- Where the interpreter has just emptied the write buffer. -/
def XrPoint.IsEmptied (point : XrPoint) : Prop := point = .noMore ∨ point = .retry

theorem dispatch_unemptied {M : Type} (m : Machine M) (c : XrIblockCache) (i j : Nat) :
    ¬(xrDispatch m c i j).point.IsEmptied := by
  unfold xrDispatch XrPoint.IsEmptied
  extract_lets m₁ dispatches m₂
  split
  · simp
  · simp

/-- A block is only left for the start of `XrCheckConditions`, or for another block. -/
theorem inst_unemptied {M : Type} [XrBuild M] {m₁ : Machine M} {c : XrIblockCache} {i k : Nat}
    {s : XrInterp M} (h : xrInst m₁ c i k = some s) : ¬s.point.IsEmptied := by
  obtain ⟨inst, m₂, exit, -, -, hleaves⟩ := inst_step h
  cases hleaves with
  | next => simp [XrPoint.IsEmptied]
  | early => simp [XrPoint.IsEmptied]
  | flush drop => simp [XrPoint.IsEmptied]
  | trivial => simp [XrPoint.IsEmptied]
  | faulted null decode => simp [XrPoint.IsEmptied]
  | unpredicted table miss decode => simp [XrPoint.IsEmptied]
  | cached hit => exact dispatch_unemptied _ _ _ _
  | decoded null decode => exact dispatch_unemptied _ _ _ _
  | predicted table miss decode => exact dispatch_unemptied _ _ _ _

section

variable {m₀ : Machine (Watched (XrCachedMem LineRam) Owed)}
  {s s' : XrInterp (Watched (XrCachedMem LineRam) Owed)}

theorem InOrder.runs (h₀ : InOrder present populated m₀) (h : XrInterp.RunsIn Meanwhile m₀ s) :
    InOrder present populated s.machine :=
  h.keeps inOrder_kept (fun hin acts => (hin.meanwhile acts).1) h₀

/-- `XrExecuteFast` starts and ends with an empty write buffer, and so does every round of
`XrCheckConditions` up to the call of a block. -/
theorem Emptied.step {pending : Bool} (hin : InOrder present populated s.machine)
    (h : s.point.IsEmptied → Emptied present populated s.machine)
    (hstep : s.step pending = some s') :
    s'.point.IsEmptied → Emptied present populated s'.machine := by
  intro hemptied
  unfold XrInterp.step at hstep
  cases hpoint : s.point with
  | check =>
      simp only [hpoint] at hstep
      cases hstep
      exact hin.drain
  -- No store is executed between the label of `XrCheckConditions` and the call of a block.
  | retry =>
      simp only [hpoint] at hstep
      exact emptied_kept.retry (h (.inr hpoint)) hstep
  | inst i k =>
      simp only [hpoint] at hstep
      exact absurd hemptied (inst_unemptied hstep)
  | noMore =>
      simp only [hpoint] at hstep
      cases hstep

theorem Emptied.runs (h₀ : Emptied present populated m₀) (h : XrInterp.RunsIn Meanwhile m₀ s) :
    s.point.IsEmptied → Emptied present populated s.machine := by
  induction h with
  | start initial => exact fun _ => h₀
  | timeslice h idle ih => exact fun _ => emptied_kept.core (ih (.inl idle)) rfl rfl (.inl rfl)
  | call pending cycles h idle ih =>
      exact fun _ => emptied_kept.executeFast (ih (.inl idle)) pending cycles
  | step pending h step ih => exact Emptied.step (h₀.toInOrder.runs h) ih step
  | meanwhile h acts ih =>
      intro hpoint
      exact ((h₀.toInOrder.runs h).meanwhile acts).2 (ih hpoint)

end

end

/-- Processor `proc` of `n`, with empty caches and nothing on its account. -/
def coldMachine (n : Nat) (ram : LineRam) (proc : XrProcessor) :
    Machine (Watched (XrCachedMem LineRam) Owed) := ⟨proc, (cold n ram).mem, fun _ => none⟩

theorem coldMachine_emptied {n : Nat} (ram : LineRam) {proc : XrProcessor} (hp : proc.id < n)
    (hn : n ≤ xrProcMax) :
    Emptied (fun p => p < n) ram.populated (coldMachine n ram proc) := by
  have hinv : CacheInv (fun p => decide (p < n)) ram.populated (coldMachine n ram proc).bare.alone :=
    (coldStart_cold n ram).inv.of_mem (alone_ids _) rfl
  exact ⟨⟨⟨decide_eq_true hp, Nat.lt_of_lt_of_le hp hn⟩, .of_empty hinv fun _ => rfl⟩, fun _ => rfl⟩

/-- The write buffer of the observed processor holds nothing back. `XrExecuteFast` has returned
exactly where the interpreter is in no loop, and on the account is every byte that a cached store
has left since the last reset, until RAM has got it. -/
structure HoldsNothingBack (s : XrInterp (Watched (XrCachedMem LineRam) Owed)) : Prop where
  armed : ∀ w, (s.machine.mem.mem.caches s.machine.proc.id).wbIndices w ≠ none →
    (s.machine.mem.mem.caches s.machine.proc.id).wbCycles ≠ 0
  empty : s.point = .noMore →
    ∀ w, (s.machine.mem.mem.caches s.machine.proc.id).wbIndices w = none
  settled : s.point = .noMore → ∀ b, s.machine.mem.seen b = none

theorem no_store_held_back {n : Nat} (ram : LineRam) {proc : XrProcessor} (hp : proc.id < n)
    (hn : n ≤ xrProcMax) {s : XrInterp (Watched (XrCachedMem LineRam) Owed)}
    (h : XrInterp.RunsIn Meanwhile (coldMachine n ram proc) s) : HoldsNothingBack s := by
  have hcold := coldMachine_emptied ram hp hn
  have hin := hcold.toInOrder.runs h
  have hempty := hcold.runs h
  refine ⟨hin.account.armed, fun hidle => ?_, fun hidle b => ?_⟩
  · exact (hempty (.inl hidle)).empty
  · exact hin.account.nothing_owed (hempty (.inl hidle)).empty b

/-! ## A store before a halt -/

/-- RAM with these words from address 0 on. -/
def ramOf (words : List Word) : LineRam where
  populated _ := true
  bytes k := byteOf (words.getD (k / 4) 0) (k % 4)

/-- `mov byte [256], 5` and `hlt`, which ends the call. -/
def storesAndHalts : Machine (Watched (XrCachedMem LineRam) Owed) :=
  coldMachine 1 (ramOf [0x0100281A, 0xC0000029])
    { XrProcessor.zeroed 0 with running := true, progress := 1, dispatches := 1 }

/-- The first call of `XrExecuteFast`, with this many steps after it. -/
def haltingCall : Nat → XrInterp (Watched (XrCachedMem LineRam) Owed)
  | 0 => ⟨(xrExecuteFast false 100 storesAndHalts).1, XrIblockCache.initialBlockCache,
      (xrExecuteFast false 100 storesAndHalts).2⟩
  | n + 1 => ((haltingCall n).step false).getD (haltingCall n)

theorem haltingCall_runs (n : Nat) :
    XrInterp.RunsIn Meanwhile storesAndHalts (haltingCall n) := by
  induction n with
  | zero => exact .call false 100 (.start XrIblockCache.initial_initialBlockCache) rfl
  | succ n ih =>
      show XrInterp.RunsIn _ _ (((haltingCall n).step false).getD (haltingCall n))
      cases hstep : (haltingCall n).step false with
      | none => exact ih
      | some s => exact .step false ih hstep

set_option maxRecDepth 20000 in
/-- The byte is on the account when the block ends, and in RAM when the call returns. -/
theorem no_store_held_back_halt :
    (haltingCall 4).machine.mem.seen 256 = some 5 ∧
      (haltingCall 4).machine.mem.mem.bus.bytes 256 = 0 ∧
      (haltingCall 6).point = .noMore ∧ (haltingCall 6).machine.mem.mem.bus.bytes 256 = 5 ∧
      HoldsNothingBack (haltingCall 6) :=
  ⟨rfl, rfl, rfl, rfl, no_store_held_back _ (by decide) (by decide) (haltingCall_runs 6)⟩

/-! ## Without the observer -/

/-- What happens between two steps of a processor of the build. -/
inductive Around (m : Machine (XrCachedMem LineRam)) : Machine (XrCachedMem LineRam) → Prop
  | others {s s' : XrCachedSys LineRam} (self : s.machine m.proc.id = m)
      (ids : ∀ q, (s.procs q).id = q) (step : OthersStep m.proc.id s s') :
      Around m (s'.machine m.proc.id)
  | signals {m' : Machine (XrCachedMem LineRam)} (outside : Outside m m') (mem : m'.mem = m.mem) :
      Around m m'

theorem Around.observed {m : Machine (Watched (XrCachedMem LineRam) Owed)}
    {m' : Machine (XrCachedMem LineRam)} (h : Around m.bare m') :
    ∃ m'', Meanwhile m m'' ∧ m''.bare = m' := by
  cases h with
  | others self ids step => exact ⟨_, .others self ids step, rfl⟩
  | signals outside mem =>
      refine ⟨m'.watched m.mem.seen, .signals outside ?_, rfl⟩
      exact congrArg (fun mem => (⟨mem, m.mem.seen⟩ : Watched (XrCachedMem LineRam) Owed)) mem

/-- In the runs of the build a waiting write is always waiting for the countdown, and none waits
outside of `XrExecuteFast`. -/
theorem write_buffer_at_rest {n : Nat} (ram : LineRam) {proc : XrProcessor} (hp : proc.id < n)
    (hn : n ≤ xrProcMax) {s : XrInterp (XrCachedMem LineRam)}
    (h : XrInterp.RunsIn Around (coldMachine n ram proc).bare s) {w : Nat}
    (waits : (s.machine.mem.caches s.machine.proc.id).wbIndices w ≠ none) :
    (s.machine.mem.caches s.machine.proc.id).wbCycles ≠ 0 ∧ s.point ≠ .noMore := by
  have hobserved : ∃ s', XrInterp.RunsIn Meanwhile (coldMachine n ram proc) s' ∧ s'.bare = s :=
    h.observed fun m m' acts => Around.observed acts
  obtain ⟨s', hruns, rfl⟩ := hobserved
  have hin := (coldMachine_emptied ram hp hn).toInOrder.runs hruns
  have hempty := (coldMachine_emptied ram hp hn).runs hruns
  refine ⟨hin.account.armed w waits, fun hidle => ?_⟩
  exact waits ((hempty (.inl hidle)).empty w)

end Xremu
