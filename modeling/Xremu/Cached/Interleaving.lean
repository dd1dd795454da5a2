import Xremu.Cached.Protocol

/-!
# The caches under every interleaving

Every operation keeps to the mutex protocol, so the coherence invariant holds in
every state that any interleaving reaches, also while mutexes are held. One
lemma for each function of `Dcache.lean`, in its order: what the processor holds
and knows when it calls the function, and what it knows when the function is done.
-/

namespace Xremu

open Concurrency XrCachedSys

section Programs

variable {present populated : Nat → Bool} {p : Nat} {w₀ w : CacheWorld}

/-! ## Flush and downgrade -/

theorem wp_flushEntries {post : Unit → CacheWorld → CacheWorld → Prop} (is : List Nat)
    (hy : (cacheProtocol present populated).Yield p w₀ w) (hh : Holds w p ⟨none, none⟩)
    (k : ∀ u v, (cacheProtocol present populated).Yield p u v → Holds v p ⟨none, none⟩ →
      post () u v) :
    (cacheProtocol present populated).wp p (flushEntries p is) post w₀ w := by
  induction is generalizing w₀ w with
  | nil => exact k w₀ w hy hh
  | cons i is ih =>
      simp only [flushEntries, Protocol.wp_bind, Protocol.wp_get]
      split
      · exact ih hy hh
      · next index hw =>
          simp only [Protocol.wp_bind, Protocol.wp_get]
          refine wp_xrLockCache hy hh fun u iu hu hl => ?_
          split
          · rw [Protocol.wp_bind]
            exact wp_xrUnlockCache (yield_refl iu) hu fun v iv hv _ => ih (yield_refl iv) hv
          · next hne =>
              -- An entry that is still there is the entry that was seen.
              obtain ⟨index', hw'⟩ := Option.ne_none_iff_exists'.mp hne
              have hsame := hl.own.wb hw'
              rw [lines_wb, hw] at hsame
              obtain rfl := Option.some.inj hsame
              have hfalls := falls_writeOut iu.lines ((w.st.cache p).dcTags index) hw'
              simp only [Protocol.wp_bind, Protocol.wp_modify]
              refine wp_xrUnlockCache (yield_step (yield_refl iu) hu
                ⟨(iu.plant.writeLine p _ index).onCache p _, iu.lines.falls hfalls⟩ ?_) hu
                fun v iv hv _ => ih (yield_refl iv) hv
              have hflags := flags_clearWb p i index
                (writeLine p ((w.st.cache p).dcTags index) index u.st)
              exact Changes.of_falls hfalls (fun q j hne => absurd (by rw [hflags]; rfl) hne)
                fun q j _ hne => absurd (by rw [hflags]; rfl) hne

/-- What downgrades of `tag` in the Dcaches of `who` do, as `p` sees it. -/
structure Lowered (p : Nat) (who : Nat → Prop) (tag : Nat) (f : XrLine) (v v' : LineView) :
    Prop where
  own : OwnFalls p v v'
  tags : ∀ q i, dcMutex i = xrMutexIndex tag → v'.tags q i = v.tags q i
  flags : ∀ q i, dcMutex i = xrMutexIndex tag → (v'.flags q i).rank ≤ (v.flags q i).rank
  low : ∀ q i, who q → v'.Has q i tag → (v'.flags q i).rank ≤ f.rank
  scFlags : ∀ j, scMutex j = xrMutexIndex tag → v'.scFlags j = v.scFlags j
  scTags : ∀ j, scMutex j = xrMutexIndex tag → v'.scTags j = v.scTags j
  scIds : ∀ j, scMutex j = xrMutexIndex tag → v'.scIds j = v.scIds j

theorem Lowered.refl (p tag : Nat) (f : XrLine) (v : LineView) :
    Lowered p (fun _ => False) tag f v v :=
  ⟨OwnFalls.refl p v, fun _ _ _ => rfl, fun _ _ _ => Nat.le_refl _, fun _ _ h => h.elim,
    fun _ _ => rfl, fun _ _ => rfl, fun _ _ => rfl⟩

theorem Lowered.mono {who who' : Nat → Prop} {tag : Nat} {f : XrLine} {v v' : LineView}
    (h : Lowered p who tag f v v') (hw : ∀ q, (∃ i, v'.Has q i tag) → who' q → who q) :
    Lowered p who' tag f v v' :=
  { h with low := fun q i hq hi => h.low q i (hw q ⟨i, hi⟩ hq) hi }

theorem Lowered.trans {who who' : Nat → Prop} {tag : Nat} {f : XrLine} {u v x : LineView}
    (h : Lowered p who tag f u v) (h' : Lowered p who' tag f v x)
    (hx : Coherent present populated x) :
    Lowered p (fun q => who q ∨ who' q) tag f u x where
  own := h.own.trans h'.own
  tags q i hi := (h'.tags q i hi).trans (h.tags q i hi)
  flags q i hi := Nat.le_trans (h'.flags q i hi) (h.flags q i hi)
  low q i hq hi := by
    rcases hq with hq | hq
    · have hplace := hx.placed hi
      have hm := (xrMutexIndex_of_set hplace.2 hplace.1).symm
      have hle := h'.flags q i hm
      refine Nat.le_trans hle (h.low q i hq ⟨fun h0 => hi.1 ?_, ?_⟩)
      · rw [h0] at hle
        exact XrLine.rank_eq_zero.mp (Nat.le_zero.mp hle)
      · rw [← h'.tags q i hm]
        exact hi.2
    · exact h'.low q i hq hi
  scFlags j hj := (h'.scFlags j hj).trans (h.scFlags j hj)
  scTags j hj := (h'.scTags j hj).trans (h.scTags j hj)
  scIds j hj := (h'.scIds j hj).trans (h.scIds j hj)

/-- The state change of `XrDowngradeLine`. -/
theorem lowered_downgrade {s : XrCachedSys LineRam} (h : Coherent present populated s.lines)
    (q tag : Nat) (f : XrLine) :
    Lowered p (· = q) tag f s.lines (downgrade q tag f s).lines where
  own := (falls_downgrade h q tag f).own p
  tags r i _ := by rw [(falls_downgrade h q tag f).tags]
  flags r i _ := (falls_downgrade h q tag f).flags r i
  low r i hr hi := by
    subst hr
    have htag := hi.2
    rw [(falls_downgrade h r tag f).tags] at htag
    rw [flags_downgrade h]
    split
    · exact Nat.le_refl _
    · next hne => exact Nat.le_of_not_lt fun hlt => hne ⟨rfl, htag, hlt⟩
  scFlags j _ := by rw [(falls_downgrade h q tag f).scFlags]
  scTags j _ := by rw [(falls_downgrade h q tag f).scTags]
  scIds j _ := by rw [(falls_downgrade h q tag f).scIds]

theorem Later.lowered {tag : Nat} (f : XrLine) {ca : Option (Nat × Nat)} {v v' : LineView}
    (h : Later p ⟨some (xrMutexIndex tag), ca⟩ v v') : Lowered p (fun _ => False) tag f v v' := by
  have hs := h.scache _ rfl
  exact ⟨h.own, hs.tags, fun q i hi => Nat.le_of_eq (by rw [hs.flags q i hi]), fun _ _ hq => hq.elim,
    hs.scFlags, hs.scTags, hs.scIds⟩

theorem changes_downgrade {s : XrCachedSys LineRam} (h : Coherent present populated s.lines)
    (q tag : Nat) (f : XrLine) :
    Changes p ⟨some (xrMutexIndex tag), some (q, xrMutexIndex tag)⟩ s.lines
      (downgrade q tag f s).lines := by
  have hone : ∀ r i, (downgrade q tag f s).lines.flags r i ≠ s.lines.flags r i →
      r = q ∧ xrMutexIndex tag = dcMutex i := by
    intro r i hne
    rw [flags_downgrade h] at hne
    split at hne
    · next hri =>
        have hvalid : s.lines.flags q i ≠ .invalid := fun h0 => by
          rw [h0] at hri
          exact absurd hri.2.2 (Nat.not_lt_zero _)
        have hplace := h.placed ⟨hvalid, hri.2.1⟩
        exact ⟨hri.1, xrMutexIndex_of_set hplace.2 hplace.1⟩
    · exact absurd rfl hne
  refine Changes.of_falls (falls_downgrade h q tag f) (fun r i hne => ?_) fun r i _ hne => ?_
  · rw [(hone r i hne).2]
  · rw [(hone r i hne).1, (hone r i hne).2]

theorem wp_xrDowngradeLine {post : Unit → CacheWorld → CacheWorld → Prop} {q tag : Nat} {f : XrLine}
    (hy : (cacheProtocol present populated).Yield p w₀ w)
    (hh : Holds w p ⟨some (xrMutexIndex tag), none⟩)
    (k : ∀ v, CacheInv present populated v.st → Holds v p ⟨some (xrMutexIndex tag), none⟩ →
      Lowered p (· = q) tag f w.st.lines v.st.lines → post () v v) :
    (cacheProtocol present populated).wp p (xrDowngradeLine q tag f) post w₀ w := by
  simp only [xrDowngradeLine, Protocol.wp_bind, Protocol.wp_modify]
  refine wp_xrLockCache hy hh fun u iu hu hwu => ?_
  have hiu : CacheInv present populated (downgrade q tag f u.st) :=
    ⟨iu.plant.downgrade q tag f, iu.lines.falls (falls_downgrade iu.lines q tag f)⟩
  refine wp_xrUnlockCache
    (yield_step (yield_refl iu) hu hiu (changes_downgrade iu.lines q tag f)) hu fun v iv hv huv => ?_
  have hlow := ((hwu.lowered f).trans (lowered_downgrade iu.lines q tag f) hiu.lines).trans
    (huv.lowered f) iv.lines
  exact k v iv hv (hlow.mono fun r _ hr => Or.inl (Or.inr hr))

theorem wp_downgradeProcs {post : Unit → CacheWorld → CacheWorld → Prop} {thisproc : Option Nat}
    {tag : Nat} {f : XrLine} (is : List Nat)
    (hy : (cacheProtocol present populated).Yield p w₀ w)
    (hh : Holds w p ⟨some (xrMutexIndex tag), none⟩)
    (k : ∀ u v, (cacheProtocol present populated).Yield p u v →
      Holds v p ⟨some (xrMutexIndex tag), none⟩ →
      Lowered p (fun q => q ∈ is ∧ present q = true ∧ thisproc ≠ some q) tag f
        w.st.lines v.st.lines → post () u v) :
    (cacheProtocol present populated).wp p (downgradeProcs thisproc tag f is) post w₀ w := by
  induction is generalizing w₀ w with
  | nil => exact k w₀ w hy hh ((Lowered.refl p tag f _).mono fun q _ hq => by simp at hq)
  | cons i is ih =>
      have iw : CacheInv present populated w.st := hy.inv
      simp only [downgradeProcs, Protocol.wp_bind, Protocol.wp_get]
      split
      · next hskip =>
          refine ih hy hh fun u v hyv hv hlow => k u v hyv hv (hlow.mono ?_)
          rintro q - ⟨hq, hpres, hthis⟩
          rcases List.mem_cons.mp hq with rfl | hq
          · rw [iw.plant.table] at hskip
            rcases hskip with h0 | h0
            · rw [h0] at hpres
              cases hpres
            · exact absurd h0 hthis
          · exact ⟨hq, hpres, hthis⟩
      · rw [Protocol.wp_bind]
        refine wp_xrDowngradeLine hy hh fun u iu hu hlow => ?_
        refine ih (yield_refl iu) hu fun u' v hyv hv hlow' => k u' v hyv hv ?_
        have iv : CacheInv present populated v.st := hyv.inv
        refine (hlow.trans hlow' iv.lines).mono ?_
        rintro q - ⟨hq, hrest⟩
        rcases List.mem_cons.mp hq with rfl | hq
        · exact Or.inl rfl
        · exact Or.inr ⟨hq, hrest⟩

theorem wp_xrDowngradeAll {post : Unit → CacheWorld → CacheWorld → Prop} {thisproc : Option Nat}
    {tag : Nat} {f : XrLine} (hy : (cacheProtocol present populated).Yield p w₀ w)
    (hh : Holds w p ⟨some (xrMutexIndex tag), none⟩)
    (k : ∀ u v, (cacheProtocol present populated).Yield p u v →
      Holds v p ⟨some (xrMutexIndex tag), none⟩ →
      Lowered p (fun q => thisproc ≠ some q) tag f w.st.lines v.st.lines → post () u v) :
    (cacheProtocol present populated).wp p (xrDowngradeAll thisproc tag f) post w₀ w := by
  refine wp_downgradeProcs _ hy hh fun u v hyv hv hlow => k u v hyv hv (hlow.mono ?_)
  have iv : CacheInv present populated v.st := hyv.inv
  rintro q ⟨i, hi⟩ hq
  have hpres := iv.lines.present hi
  exact ⟨List.mem_range.mpr hpres.2, hpres.1, hq⟩

/-! ## The Scache -/

theorem wp_stealScacheEntry {post : Unit → CacheWorld → CacheWorld → Prop} {j : Nat}
    (hy : (cacheProtocol present populated).Yield p w₀ w)
    (hh : Holds w p ⟨some (scMutex j), none⟩)
    (k : ∀ u v, (cacheProtocol present populated).Yield p u v →
      Holds v p ⟨some (scMutex j), none⟩ → OwnFalls p w.st.lines v.st.lines →
      (∀ q i t, v.st.lines.Has q i t → xrScSetNumber t ≠ j) → post () u v) :
    (cacheProtocol present populated).wp p (stealScacheEntry j) post w₀ w := by
  have iw : CacheInv present populated w.st := hy.inv
  simp only [stealScacheEntry, Protocol.wp_bind, Protocol.wp_get]
  -- The line that loses its entry is guarded by the mutex held.
  have hold : w.st.mem.scache.flags j ≠ .invalid →
      xrMutexIndex (w.st.mem.scache.tags j) = scMutex j ∧
        xrScSetNumber (w.st.mem.scache.tags j) = j := by
    intro hj
    have hd := iw.lines.directory hj
    exact ⟨(xrMutexIndex_of_scSet hd.2).trans (congrArg scMutex hd.1), hd.1⟩
  -- Once no Dcache has that line, no Dcache has a line of the set.
  have hgone : ∀ (who : Nat → Prop) (v : CacheWorld), w.st.mem.scache.flags j ≠ .invalid →
      CacheInv present populated v.st →
      Lowered p who (w.st.mem.scache.tags j) .invalid w.st.lines v.st.lines →
      (∀ q i, v.st.lines.Has q i (w.st.mem.scache.tags j) → who q) →
      ∀ q i t, v.st.lines.Has q i t → xrScSetNumber t ≠ j := by
    intro who v hj iv hlow hwho q i t hi hset
    have htag := (iv.lines.included hi).2
    rw [hset, hlow.scTags j (hold hj).1.symm] at htag
    rw [← htag] at hi
    have hrank := hlow.low q i (hwho q i hi) hi
    exact hi.1 (XrLine.rank_eq_zero.mp (Nat.le_zero.mp hrank))
  split
  · next hj =>
      exact k w₀ w hy hh (OwnFalls.refl p _) fun q i t hi hset =>
        (iw.lines.included hi).1 (by rw [hset]; exact hj)
  · next hj =>
      have hne : w.st.mem.scache.flags j ≠ .invalid := by simp [hj]
      rw [← (hold hne).1] at hh k
      refine wp_xrDowngradeAll hy hh fun u v hyv hv hlow => k u v hyv hv hlow.own ?_
      exact hgone _ v hne hyv.inv hlow fun q i _ => by simp
  · next hj =>
      have hne : w.st.mem.scache.flags j ≠ .invalid := by simp [hj]
      have hset := (hold hne).2
      rw [← (hold hne).1] at hh k
      refine wp_xrDowngradeLine hy hh fun v iv hv hlow => k v v (yield_refl iv) hv hlow.own ?_
      refine hgone _ v hne iv hlow fun q i hi => ?_
      have hx := hlow.scFlags j (hold hne).1.symm
      have hid := hlow.scIds j (hold hne).1.symm
      have halone := iv.lines.alone hi (by rw [hset, hx]; exact hj)
      rw [hset, hid] at halone
      exact halone.symm

theorem wp_xrFindOrReplaceInScache {post : Nat × Bool → CacheWorld → CacheWorld → Prop} {tag : Nat}
    {f : XrLine} (ha : tag % 16 = 0) (hy : (cacheProtocol present populated).Yield p w₀ w)
    (hh : Holds w p ⟨some (xrMutexIndex tag), none⟩)
    (found : w.st.lines.scFlags (xrScSetNumber tag) ≠ .invalid →
      w.st.lines.scTags (xrScSetNumber tag) = tag → post (xrScSetNumber tag, false) w₀ w)
    (created : ∀ u v, (cacheProtocol present populated).Yield p u v →
      Holds v p ⟨some (xrMutexIndex tag), none⟩ → OwnFalls p w.st.lines v.st.lines →
      Claimed p tag f v.st.lines → post (xrScSetNumber tag, true) u v) :
    (cacheProtocol present populated).wp p (xrFindOrReplaceInScache p tag f) post w₀ w := by
  simp only [xrFindOrReplaceInScache, Protocol.wp_bind, Protocol.wp_get]
  by_cases hfind : w.st.mem.scache.flags (xrScSetNumber tag) ≠ .invalid ∧
      w.st.mem.scache.tags (xrScSetNumber tag) = tag
  · simp only [xrFindInScache, if_pos hfind]
    exact found hfind.1 hfind.2
  · simp only [xrFindInScache, if_neg hfind, Protocol.wp_bind, Protocol.wp_modify, Protocol.wp_pure]
    have iw : CacheInv present populated w.st := hy.inv
    have hnext : (cacheProtocol present populated).Yield p w₀
        { w with st := nextScReplacement w.st } :=
      yield_step hy hh ⟨iw.plant.onScache _, iw.lines⟩ (Changes.of_eq rfl)
    refine wp_stealScacheEntry hnext (by rw [scMutex_set ha]; exact hh) fun u v hyv hv hown hfree => ?_
    have iv : CacheInv present populated v.st := hyv.inv
    have hv' : Holds v p ⟨some (xrMutexIndex tag), none⟩ := by rwa [scMutex_set ha] at hv
    refine created u _ (yield_step hyv hv' ⟨iv.plant.onScache _, ?_⟩ ?_) hv'
      (hown.trans ⟨rfl, fun _ => Nat.le_refl _, id⟩) ?_
    · rw [lines_scFill]
      exact iv.lines.setSc hfree fun _ => ⟨rfl, ha⟩
    · rw [lines_scFill]
      exact Changes.setSc (by rw [scMutex_set ha]) _ _ _ _
    · rw [lines_scFill]
      constructor <;> simp [LineView.setSc]

/-! ## A miss -/

theorem wp_downgradeHolders {post : Unit → CacheWorld → CacheWorld → Prop} {a : XrAccessReq}
    (hy : (cacheProtocol present populated).Yield p w₀ w)
    (hh : Holds w p ⟨some (xrMutexIndex a.tag), none⟩)
    (htag : w.st.lines.scTags (xrScSetNumber a.tag) = a.tag)
    (hvalid : w.st.lines.scFlags (xrScSetNumber a.tag) ≠ .invalid)
    (k : ∀ u v, (cacheProtocol present populated).Yield p u v →
      Holds v p ⟨some (xrMutexIndex a.tag), none⟩ → OwnFalls p w.st.lines v.st.lines →
      v.st.lines.scFlags (xrScSetNumber a.tag) ≠ .invalid →
      v.st.lines.scTags (xrScSetNumber a.tag) = a.tag →
      (a.read = false → ∀ q i, ¬v.st.lines.Has q i a.tag) →
      (∀ q i, v.st.lines.flags q i = .exclusive → v.st.lines.tags q i ≠ a.tag) → post () u v) :
    (cacheProtocol present populated).wp p (downgradeHolders (xrScSetNumber a.tag) a) post w₀ w := by
  have iw : CacheInv present populated w.st := hy.inv
  have hm : scMutex (xrScSetNumber a.tag) = xrMutexIndex a.tag := scMutex_set (xrLineTag_aligned _)
  simp only [downgradeHolders, Protocol.wp_bind, Protocol.wp_get]
  split
  · next hx =>
      refine wp_xrDowngradeLine hy hh fun v iv hv hlow => ?_
      have hsc := hlow.scFlags _ hm
      have hone : ∀ q i, v.st.lines.Has q i a.tag →
          (v.st.lines.flags q i).rank ≤ (if a.read then XrLine.shared else .invalid).rank := by
        intro q i hi
        have hq := iv.lines.alone hi (hsc.trans hx)
        rw [hlow.scIds _ hm] at hq
        exact hlow.low q i hq.symm hi
      refine k v v (yield_refl iv) hv hlow.own (by rw [hsc]; exact hvalid)
        ((hlow.scTags _ hm).trans htag) (fun hr q i hi => ?_) fun q i hqx ht => ?_
      · have hrank := hone q i hi
        simp only [hr, Bool.false_eq_true, if_false] at hrank
        exact hi.1 (XrLine.rank_eq_zero.mp (Nat.le_zero.mp hrank))
      · have hrank := hone q i ⟨by simp [hqx], ht⟩
        rw [hqx] at hrank
        split at hrank <;> simp [XrLine.rank] at hrank
  · next hs =>
      split
      · next hr =>
          refine k w₀ w hy hh (OwnFalls.refl p _) hvalid htag (by simp [hr]) fun q i hqx ht => ?_
          have hsc := iw.lines.owned hqx
          rw [ht, lines_scFlags, hs] at hsc
          cases hsc
      · refine wp_xrDowngradeAll hy hh fun u v hyv hv hlow => ?_
        have hnone : ∀ q i, ¬v.st.lines.Has q i a.tag := fun q i hi =>
          hi.1 (XrLine.rank_eq_zero.mp (Nat.le_zero.mp (hlow.low q i (by simp) hi)))
        refine k u v hyv hv hlow.own (by rw [hlow.scFlags _ hm]; exact hvalid)
          ((hlow.scTags _ hm).trans htag) (fun _ => hnone) fun q i hqx ht => ?_
        exact hnone q i ⟨by simp [hqx], ht⟩
  · next hi => exact absurd hi hvalid

theorem wp_claimScacheEntry {post : Nat → CacheWorld → CacheWorld → Prop} {a : XrAccessReq}
    (hy : (cacheProtocol present populated).Yield p w₀ w)
    (hh : Holds w p ⟨some (xrMutexIndex a.tag), none⟩)
    (k : ∀ u v, (cacheProtocol present populated).Yield p u v →
      Holds v p ⟨some (xrMutexIndex a.tag), none⟩ → OwnFalls p w.st.lines v.st.lines →
      Claimed p a.tag a.newstate v.st.lines → post (xrScSetNumber a.tag) u v) :
    (cacheProtocol present populated).wp p (claimScacheEntry p a) post w₀ w := by
  have ha : a.tag % 16 = 0 := xrLineTag_aligned _
  simp only [claimScacheEntry, Protocol.wp_bind]
  refine wp_xrFindOrReplaceInScache ha hy hh (fun hvalid htag => ?_) fun u v hyv hv hown hcl => ?_
  · simp only [Bool.false_eq_true, if_false, Protocol.wp_bind, Protocol.wp_modify, Protocol.wp_pure]
    refine wp_downgradeHolders hy hh htag hvalid fun u v hyv hv hown hvalid' htag' hall hx => ?_
    have iv : CacheInv present populated v.st := hyv.inv
    have hlines : (onScache (XrScache.setState (xrScSetNumber a.tag) p a.newstate) v.st).lines =
        v.st.lines.setSc (xrScSetNumber a.tag) a.newstate
          (v.st.lines.scTags (xrScSetNumber a.tag)) p := by
      simp [lines, LineView.setSc, XrScache.setState]
    refine k u _ (yield_step hyv hv ⟨iv.plant.onScache _, ?_⟩ ?_) hv
      (hown.trans ⟨rfl, fun _ => Nat.le_refl _, id⟩) ?_
    · rw [hlines]
      exact coherent_setScState iv hvalid' htag' hall hx
    · rw [hlines]
      exact Changes.setSc (by rw [scMutex_set ha]) _ _ _ _
    · rw [hlines]
      constructor <;> simp [LineView.setSc]
      simpa using htag'
  · simp only [if_true, Protocol.wp_pure]
    exact k u v hyv hv hown hcl

/-- How `XrDcacheAccess` leaves the processor, also at `goto restart`. -/
def AccessEnds (present populated : Nat → Bool) (p : Nat) (r : Option Nat ⊕ XrResult)
    (w₀ w : CacheWorld) : Prop :=
  (cacheProtocol present populated).Yield p w₀ w ∧ Holds w p ⟨none, none⟩ ∧
    ∀ fw, r = .inl (some fw) → w.st.lines.wb p fw = none ∧ fw < 4

/-- What the miss does to its Dcache set, as the others see it. -/
theorem changes_makeRoom {s : XrCachedSys LineRam} (h : Coherent present populated s.lines)
    (a : XrAccessReq) (ca : Option (Nat × Nat)) :
    Changes p ⟨some (xrMutexIndex a.tag), ca⟩ s.lines (makeRoom p a s).lines := by
  have hmx := xrMutexIndex_of_set (xrLineTag_aligned _) (replacedLine_set s p a)
  refine Changes.of_falls (falls_makeRoom h p a) (fun q i hne => ?_) fun q i hq hne => ?_
  · rw [flags_makeRoom] at hne
    split at hne
    · next hqi => exact congrArg some (hqi.2 ▸ hmx)
    · exact absurd rfl hne
  · rw [flags_makeRoom, if_neg fun hqi => hq hqi.1] at hne
    exact absurd rfl hne

theorem changes_setLine {s : XrCachedSys LineRam} {a : XrAccessReq} (ca : Option (Nat × Nat))
    (v : LineView) (f : XrLine) (t : Nat) :
    Changes p ⟨some (xrMutexIndex a.tag), ca⟩ v (v.setLine p (replacedLine s p a) f t) :=
  Changes.setLine (congrArg some
    (xrMutexIndex_of_set (xrLineTag_aligned _) (replacedLine_set s p a))) v f t

theorem changes_busError (h : CacheInv present populated w.st) (hd : XrHeld) (a : Nat) :
    Changes p hd w.st.lines (busError p a w.st).lines := by
  have hflags := flags_busError h.plant p a
  exact Changes.of_falls (falls_busError h.plant h.lines p a)
    (fun q i hne => absurd (by rw [hflags]) hne) fun q i _ hne => absurd (by rw [hflags]) hne

theorem wp_dcacheFill {freewbindex : Nat} {a : XrAccessReq}
    (hy : (cacheProtocol present populated).Yield p w₀ w)
    (hh : Holds w p ⟨some (xrMutexIndex a.tag), none⟩) (hp : present p = true ∧ p < xrProcMax)
    (hcl : Claimed p a.tag a.newstate w.st.lines) (hmiss : ∀ i, ¬w.st.lines.Has p i a.tag)
    (hfree : a.read = false → w.st.lines.wb p freewbindex = none ∧ freewbindex < 4) :
    (cacheProtocol present populated).wp p (dcacheFill p freewbindex (xrScSetNumber a.tag) a)
      (AccessEnds present populated p) w₀ w := by
  simp only [dcacheFill, Protocol.wp_bind, Protocol.wp_modifyGet]
  refine wp_xrLockCache hy hh fun u iu hu hwu => ?_
  have hm : scMutex (xrScSetNumber a.tag) = xrMutexIndex a.tag := scMutex_set (xrLineTag_aligned _)
  have hsame := hwu.scache _ rfl
  have hcl' : Claimed p a.tag a.newstate u.st.lines :=
    ⟨(hsame.scFlags _ hm).trans hcl.flags, (hsame.scTags _ hm).trans hcl.tags,
      (hsame.scIds _ hm).trans hcl.ids⟩
  have hmiss' : ∀ i, ¬u.st.lines.Has p i a.tag := fun i hi => hmiss i (hwu.own.has hi)
  rw [answered_replaceLine iu.plant]
  split
  · next hpop =>
      simp only [Protocol.wp_bind, Protocol.wp_modify, Protocol.wp_pure]
      have hplant := ((iu.plant.replaceLine p a).onScache fun sc =>
        { sc with flags := Function.update sc.flags (xrScSetNumber a.tag) .invalid }).onCache p
          (·.setFlag (replacedLine u.st p a) .invalid)
      refine wp_xrUnlockCache (yield_step (yield_refl iu) hu
        ⟨hplant, coherent_backOut iu hcl' hpop⟩ ?_) hu fun v iv hv _ => ?_
      · rw [lines_backOut_replaceLine]
        exact (changes_makeRoom iu.lines a _).trans
          ((Changes.setSc (congrArg some hm.symm) _ _ _ _).trans (changes_setLine _ _ _ _))
      · refine wp_xrUnlockScache (yield_refl iv) hv fun x ix hx _ => ?_
        exact ⟨yield_step (yield_refl ix) hx ⟨ix.plant.busError p _,
          ix.lines.falls (falls_busError ix.plant ix.lines p _)⟩ (changes_busError ix _ _), hx, by simp⟩
  · next hpop =>
      simp only [Protocol.wp_bind]
      have hco := coherent_replaceLine iu hcl' hmiss' hp (by simpa using hpop)
      refine wp_xrUnlockScache (yield_step (yield_refl iu) hu
        ⟨iu.plant.replaceLine p a, hco⟩ ?_) hu fun v iv hv hlv => ?_
      · rw [lines_replaceLine]
        exact (changes_makeRoom iu.lines a _).trans (changes_setLine _ _ _ _)
      · split
        · simp only [Protocol.wp_bind, Protocol.wp_get, Protocol.wp_pure]
          exact wp_xrUnlockCache (yield_refl iv) hv fun x ix hx _ => ⟨yield_refl ix, hx, by simp⟩
        · next hread =>
            have hread' : a.read = false := by simpa using hread
            -- The cache mutex was held, so the line is still exclusive and not in the write buffer.
            have hx : v.st.lines.flags p (replacedLine u.st p a) = .exclusive := by
              rw [hlv.cache _ (congrArg (fun m => some (p, m))
                (xrMutexIndex_of_set (xrLineTag_aligned _) (replacedLine_set u.st p a)))]
              rw [lines_replaceLine, LineView.setLine_flags, if_pos ⟨rfl, rfl⟩]
              simp [XrAccessReq.newstate, hread']
            have hwb : v.st.lines.wbOf p (replacedLine u.st p a) = none := by
              cases hb : v.st.lines.wbOf p (replacedLine u.st p a) with
              | none => rfl
              | some x =>
                  have hb' := hco.inverse.mp (hlv.own.wb (iv.lines.inverse.mpr hb))
                  rw [wbOf_replaceLine iu.lines] at hb'
                  cases hb'
            have hfree' : v.st.lines.wb p freewbindex = none := by
              refine hlv.own.wb_none ?_
              rw [lines_replaceLine]
              exact ((falls_makeRoom iu.lines p a).own p).wb_none (hwu.own.wb_none (hfree hread').1)
            simp only [Protocol.wp_bind, Protocol.wp_modify, Protocol.wp_pure]
            refine wp_xrUnlockCache (yield_step (yield_refl iv) hv ⟨iv.plant.onCache p _, ?_⟩ ?_) hv
              fun x ix hx _ => ⟨yield_refl ix, hx, by simp⟩
            · rw [lines_storeToLine]
              exact iv.lines.insertWb hfree' hwb (hfree hread').2 hx
            · rw [lines_storeToLine]
              exact Changes.insertWb _ _ _ _ _

theorem wp_dcacheMissed {freewbindex : Nat} {a : XrAccessReq}
    (hy : (cacheProtocol present populated).Yield p w₀ w) (hh : Holds w p ⟨none, none⟩)
    (hp : present p = true ∧ p < xrProcMax) (hmiss : ∀ i, ¬w.st.lines.Has p i a.tag)
    (hfree : a.read = false → w.st.lines.wb p freewbindex = none ∧ freewbindex < 4) :
    (cacheProtocol present populated).wp p (dcacheMissed p freewbindex a)
      (AccessEnds present populated p) w₀ w := by
  unfold dcacheMissed
  split
  · exact ⟨hy, hh, by simp⟩
  · simp only [dcacheMiss, Protocol.wp_bind]
    refine wp_xrLockScache hy hh fun u iu hu hwu => ?_
    refine wp_claimScacheEntry (yield_refl iu) hu fun u' v hyv hv hown hcl => ?_
    have hown' := hwu.own.trans hown
    exact wp_dcacheFill hyv hv hp hcl (fun i hi => hmiss i (hown'.has hi))
      fun hr => ⟨hown'.wb_none (hfree hr).1, (hfree hr).2⟩

/-! ## A hit on a shared line -/

theorem wp_downgradeOthers {post : Unit → CacheWorld → CacheWorld → Prop} {a : XrAccessReq}
    (hy : (cacheProtocol present populated).Yield p w₀ w)
    (hh : Holds w p ⟨some (xrMutexIndex a.tag), none⟩)
    (hsc : w.st.lines.scFlags (xrScSetNumber a.tag) ≠ .invalid ∧
      w.st.lines.scTags (xrScSetNumber a.tag) = a.tag)
    (k : ∀ u v, (cacheProtocol present populated).Yield p u v →
      Holds v p ⟨some (xrMutexIndex a.tag), none⟩ → OwnFalls p w.st.lines v.st.lines →
      (v.st.lines.scFlags (xrScSetNumber a.tag) ≠ .invalid ∧
        v.st.lines.scTags (xrScSetNumber a.tag) = a.tag) →
      (∀ q i, q ≠ p → ¬v.st.lines.Has q i a.tag) → post () u v) :
    (cacheProtocol present populated).wp p (downgradeOthers p (xrScSetNumber a.tag) a) post w₀ w := by
  have hm : scMutex (xrScSetNumber a.tag) = xrMutexIndex a.tag := scMutex_set (xrLineTag_aligned _)
  simp only [downgradeOthers, Protocol.wp_bind, Protocol.wp_get]
  split
  · refine wp_xrDowngradeAll hy hh fun u v hyv hv hlow => ?_
    refine k u v hyv hv hlow.own ?_ fun q i hq hi => ?_
    · rw [hlow.scFlags _ hm, hlow.scTags _ hm]
      exact hsc
    · have hrank := hlow.low q i (by simpa using hq.symm) hi
      exact hi.1 (XrLine.rank_eq_zero.mp (Nat.le_zero.mp hrank))
  · next hx =>
      refine wp_xrDowngradeLine hy hh fun v iv hv hlow => ?_
      refine k v v (yield_refl iv) hv hlow.own ?_ fun q i _ hi => ?_
      · rw [hlow.scFlags _ hm, hlow.scTags _ hm]
        exact hsc
      · have hq := iv.lines.alone hi ((hlow.scFlags _ hm).trans hx)
        rw [hlow.scIds _ hm] at hq
        exact hi.1 (XrLine.rank_eq_zero.mp (Nat.le_zero.mp (hlow.low q i hq.symm hi)))
  · next h0 => exact absurd h0 hsc.1

theorem wp_dcacheUpgrade {freewbindex index : Nat} {a : XrAccessReq}
    (hy : (cacheProtocol present populated).Yield p w₀ w) (hh : Holds w p ⟨none, none⟩)
    (hp : present p = true ∧ p < xrProcMax)
    (hfree : w.st.lines.wb p freewbindex = none ∧ freewbindex < 4)
    (ht : w.st.lines.tags p index = a.tag) (hx : w.st.lines.flags p index ≠ .exclusive) :
    (cacheProtocol present populated).wp p (dcacheUpgrade p freewbindex index a)
      (AccessEnds present populated p) w₀ w := by
  simp only [dcacheUpgrade, Protocol.wp_bind, Protocol.wp_get]
  refine wp_xrLockScache hy hh fun u iu hu hwu => ?_
  have hfree' : u.st.lines.wb p freewbindex = none := hwu.own.wb_none hfree.1
  split
  · simp only [Protocol.wp_bind, Protocol.wp_pure]
    refine wp_xrUnlockScache (yield_refl iu) hu fun v iv hv huv => ⟨yield_refl iv, hv, ?_⟩
    rintro fw hfw
    obtain rfl : freewbindex = fw := by simpa using hfw
    exact ⟨huv.own.wb_none hfree', hfree.2⟩
  · next hvalid =>
      have hhas : u.st.lines.Has p index a.tag := ⟨hvalid, by rw [hwu.own.tags]; exact ht⟩
      have hsc := iu.lines.included hhas
      have hfind : xrFindInScache u.st.mem.scache a.tag = some (xrScSetNumber a.tag) := if_pos hsc
      rw [hfind]
      simp only [Protocol.wp_bind, Protocol.wp_modify, Protocol.wp_pure]
      refine wp_downgradeOthers (yield_refl iu) hu hsc fun u' v hyv hv hown hscv hall => ?_
      have iv : CacheInv present populated v.st := hyv.inv
      have htv : v.st.lines.tags p index = a.tag := by
        rw [hown.tags]
        exact hhas.2
      have hplace := (iu.lines.placed hhas).1
      have hmx := xrMutexIndex_of_set (xrLineTag_aligned a.address) hplace
      have hnx := hown.not_exclusive (hwu.own.not_exclusive hx)
      have hco := coherent_makeExclusive iv htv hnx hplace (iu.lines.populated hhas) hp hscv hall
        fun j hj hjt => hj (iu.lines.unique (hown.has hjt) hhas)
      refine wp_xrUnlockScache (yield_step hyv hv ⟨((iv.plant.onScache _).onCache p _).onCache p _, ?_⟩
        ?_) hv fun x ix hx _ => ⟨yield_refl ix, hx, by simp⟩
      · rw [lines_storeToLine]
        exact coherent_upgrade iv htv hnx ⟨hown.wb_none hfree', hfree.2⟩ hco
      · rw [lines_storeToLine, lines_makeExclusive htv]
        exact (Changes.setSc (congrArg some (scMutex_set (xrLineTag_aligned _)).symm) _ _ _ _).trans
          ((Changes.setLine (congrArg some hmx) _ _ _).trans (Changes.insertWb _ _ _ _ _))

/-! ## The access -/

theorem wp_dcacheLookup_read {a : XrAccessReq} (hr : a.read = true)
    (hy : (cacheProtocol present populated).Yield p w₀ w) (hh : Holds w p ⟨none, none⟩)
    (hp : present p = true ∧ p < xrProcMax) :
    (cacheProtocol present populated).wp p (dcacheLookup p 0 a) (AccessEnds present populated p)
      w₀ w := by
  have iw : CacheInv present populated w.st := hy.inv
  simp only [dcacheLookup, hr, if_true, Protocol.wp_bind, Protocol.wp_get]
  split
  · exact ⟨hy, hh, by simp⟩
  · next hf =>
      exact wp_dcacheMissed hy hh hp (fun i => iw.lines.findLine_none hf i) (by simp [hr])

theorem wp_dcacheLookup_write {freewbindex : Nat} {a : XrAccessReq} (hr : a.read = false)
    (hy : (cacheProtocol present populated).Yield p w₀ w)
    (hh : Holds w p ⟨none, some (p, xrMutexIndex a.tag)⟩) (hp : present p = true ∧ p < xrProcMax)
    (hfree : w.st.lines.wb p freewbindex = none ∧ freewbindex < 4)
    (hout : ∀ i, w.st.lines.tags p i = a.tag → w.st.lines.wbOf p i = none) :
    (cacheProtocol present populated).wp p (dcacheLookup p freewbindex a)
      (AccessEnds present populated p) w₀ w := by
  have iw : CacheInv present populated w.st := hy.inv
  simp only [dcacheLookup, hr, Bool.false_eq_true, if_false, Protocol.wp_bind, Protocol.wp_get]
  split
  · next index hf =>
      have hhas : w.st.lines.Has p index a.tag := findLine_some hf
      split
      · next hx =>
          simp only [Protocol.wp_bind, Protocol.wp_modify, Protocol.wp_pure]
          refine wp_xrUnlockCache (yield_step hy hh ⟨iw.plant.onCache p _, ?_⟩ ?_) hh
            fun v iv hv _ => ⟨yield_refl iv, hv, by simp⟩
          · rw [lines_storeToLine]
            exact iw.lines.insertWb hfree.1 (hout index hhas.2) hfree.2 hx
          · rw [lines_storeToLine]
            exact Changes.insertWb _ _ _ _ _
      · next hx =>
          simp only [Protocol.wp_bind]
          refine wp_xrUnlockCache hy hh fun v iv hv hwv => ?_
          exact wp_dcacheUpgrade (yield_refl iv) hv hp ⟨hwv.own.wb_none hfree.1, hfree.2⟩
            (by rw [hwv.own.tags]; exact hhas.2) (hwv.own.not_exclusive hx)
  · next hf =>
      simp only [Protocol.wp_bind]
      refine wp_xrUnlockCache hy hh fun v iv hv hwv => ?_
      exact wp_dcacheMissed (yield_refl iv) hv hp
        (fun i hi => iw.lines.findLine_none hf i (hwv.own.has hi))
        fun _ => ⟨hwv.own.wb_none hfree.1, hfree.2⟩

theorem wp_xrDcacheAccess {freewbindex : Option Nat} {a : XrAccessReq}
    (hy : (cacheProtocol present populated).Yield p w₀ w) (hh : Holds w p ⟨none, none⟩)
    (hp : present p = true ∧ p < xrProcMax)
    (hfree : ∀ fw, freewbindex = some fw → w.st.lines.wb p fw = none ∧ fw < 4) :
    (cacheProtocol present populated).wp p (xrDcacheAccess p a freewbindex)
      (AccessEnds present populated p) w₀ w := by
  unfold xrDcacheAccess
  cases hr : a.read with
  | true =>
      rw [if_pos rfl]
      exact wp_dcacheLookup_read hr hy hh hp
  | false =>
      simp only [Bool.false_eq_true, if_false, Protocol.wp_bind, Protocol.wp_get]
      refine wp_xrLockCache hy hh fun u iu hu hwu => ?_
      split
      · simp only [Protocol.wp_bind, Protocol.wp_modify, Protocol.wp_pure]
        have hlines := lines_mergeData p ‹Nat› a.lineoffset (byteOf a.srcvalue) a.length u.st
        refine wp_xrUnlockCache (yield_step (yield_refl iu) hu ⟨iu.plant.onCache p _, ?_⟩ ?_) hu
          fun v iv hv _ => ⟨yield_refl iv, hv, by simp⟩
        · rw [hlines]
          exact iu.lines
        · exact Changes.of_eq hlines
      · simp only [Protocol.wp_bind, Protocol.wp_pure]
        refine wp_xrUnlockCache (yield_refl iu) hu fun v iv hv _ => ?_
        exact wp_flushEntries _ (yield_refl iv) hv fun x y hy' hh' => ⟨hy', hh', by simp⟩
      · next fw hs =>
          simp only [Protocol.wp_bind, Protocol.wp_modify]
          have hlines : (onCache p (fun c =>
              { c with wbCycles := if c.wbCycles = 0 then 3 else c.wbCycles }) u.st).lines =
              u.st.lines := lines_onCache_same ⟨rfl, rfl, rfl, rfl⟩
          have hfw : u.st.lines.wb p fw = none ∧ fw < 4 := by
            rcases (searchWb_miss hs).2 with ⟨x, hx, hmem, hnone⟩ | hsame
            · obtain rfl := Option.some.inj hx
              simp only [xrWbEntries, List.mem_cons, List.not_mem_nil, or_false] at hmem
              exact ⟨hnone, by omega⟩
            · have hold := hfree fw hsame.symm
              exact ⟨hwu.own.wb_none hold.1, hold.2⟩
          refine wp_dcacheLookup_write hr (yield_step (yield_refl iu) hu ⟨iu.plant.onCache p _, ?_⟩ ?_)
            hu hp ?_ ?_
          · rw [hlines]
            exact iu.lines
          · exact Changes.of_eq hlines
          · dsimp only
            rw [hlines]
            exact hfw
          · dsimp only
            rw [hlines]
            exact fun i hi => iu.lines.wbOf_of_miss hs hi

end Programs

/-! ## The whole system -/

/-- Every operation keeps to the protocol. -/
theorem cacheProtocol_sound (present populated : Nat → Bool) :
    (cacheProtocol present populated).Sound := by
  intro p o w iw hpre
  replace hpre : CachePre present p o w := hpre
  change (cacheProtocol present populated).wp p (o.code p) _ w w
  cases o with
  | access a freewbindex =>
      simp only [XrCacheOp.code, Protocol.wp_bind]
      refine Protocol.wp_mono ?_ (wp_xrDcacheAccess (a := a) (yield_refl iw) hpre.holds hpre.present
        fun fw hfw => hpre.free a fw (by rw [hfw]))
      intro out u v hout
      obtain ⟨hy, hh, hfree⟩ := hout
      cases out with
      | inl fw =>
          refine ⟨hy, hh, hpre.present, ?_, ?_⟩
          · intro a' fw' ho
            cases ho
            exact hfree fw' rfl
          · intro upd x ho
            cases ho
      | inr result => exact ⟨hy, hh⟩
  | flush =>
      simp only [XrCacheOp.code, Protocol.wp_bind]
      exact wp_flushEntries _ (yield_refl iw) hpre.holds fun u v hy hh => ⟨hy, hh⟩
  | core upd =>
      simp only [XrCacheOp.code, Protocol.wp_bind, Protocol.wp_modify]
      refine ⟨yield_step (yield_refl iw) hpre.holds ⟨⟨fun q => ?_, iw.plant.table, iw.plant.ram,
        iw.plant.running⟩, iw.lines⟩ (Changes.of_eq rfl), hpre.holds⟩
      by_cases hq : q = p
      · subst hq
        simpa [hpre.core upd _ rfl] using iw.plant.ids q
      · simpa [hq] using iw.plant.ids q

/-- What is promised of the caches. -/
structure CoherentCaches (s : XrCachedSys LineRam) : Prop where
  no_abort : s.mem.aborted = false
  included : ∀ p i, (s.cache p).dcFlags i ≠ .invalid →
    xrFindInScache s.mem.scache ((s.cache p).dcTags i) ≠ none
  exclusive : ∀ p i, (s.cache p).dcFlags i = .exclusive →
    (∃ j, xrFindInScache s.mem.scache ((s.cache p).dcTags i) = some j ∧
      s.mem.scache.flags j = .exclusive ∧ s.mem.scache.exclusiveIds j = p) ∧
    ∀ q k, q ≠ p → (s.cache q).dcFlags k ≠ .invalid → (s.cache q).dcTags k ≠ (s.cache p).dcTags i
  inverse : ∀ p w i, (s.cache p).wbIndices w = some i ↔ (s.cache p).dcIndexToWbIndex i = some w
  buffered : ∀ p w i, (s.cache p).wbIndices w = some i → (s.cache p).dcFlags i = .exclusive
  unique : ∀ p i k, (s.cache p).dcFlags i ≠ .invalid → (s.cache p).dcFlags k ≠ .invalid →
    (s.cache p).dcTags i = (s.cache p).dcTags k → i = k

theorem CacheInv.coherentCaches {present populated : Nat → Bool} {s : XrCachedSys LineRam}
    (h : CacheInv present populated s) : CoherentCaches s where
  no_abort := h.plant.running
  included p i hi := by
    have hfound : xrFindInScache s.mem.scache ((s.cache p).dcTags i) = some _ :=
      if_pos (h.lines.included (p := p) (i := i) ⟨hi, rfl⟩)
    simp [hfound]
  exclusive p i hx := by
    have hi : s.lines.Has p i ((s.cache p).dcTags i) := ⟨by simp [hx], rfl⟩
    have hsc := h.lines.owned (p := p) (i := i) hx
    refine ⟨⟨_, if_pos (h.lines.included hi), hsc, h.lines.alone hi hsc⟩, fun q k hq hk ht => ?_⟩
    exact hq ((h.lines.alone (p := q) (i := k) ⟨hk, ht⟩ hsc).symm.trans (h.lines.alone hi hsc))
  inverse _ _ _ := h.lines.inverse
  buffered _ _ _ hw := h.lines.buffered hw
  unique _ _ _ hi hk ht := h.lines.unique ⟨hi, rfl⟩ ⟨hk, ht.symm⟩

/-- In every state of every interleaving of accesses and flushes, also while
mutexes are held, the caches are coherent and `abort()` has not been reached. -/
theorem coherent_of_interleaving {s : XrCachedSys LineRam} (hs : ColdStart s)
    {c : Protocol.Config (XrCachedSys LineRam) XrLock Nat XrCacheOp XrResult}
    (h : (cacheProtocol s.mem.present s.mem.bus.populated).Reach s c) :
    CoherentCaches c.world.st := by
  have hinv : (cacheProtocol s.mem.present s.mem.bus.populated).Inv c.world.st :=
    Protocol.inv_of_reach (cacheProtocol_sound _ _) hs.inv (fun p => ⟨by simp, by simp⟩) h
  exact CacheInv.coherentCaches hinv

/-- Processor 0 has stored a word. -/
def pairStored : CacheWorld :=
  (Protocol.soloOp (cacheProtocol (fun p => p < 2) LineRam.zeroed.populated) 0 2
    (.access ⟨0, false, 1, 4, false⟩ none) ⟨cold 2 .zeroed, fun _ => none⟩).get (by decide +kernel)

/-- Processor 1 has loaded one of another line. -/
def pairLoaded : CacheWorld :=
  (Protocol.soloOp (cacheProtocol (fun p => p < 2) LineRam.zeroed.populated) 1 2
    (.access ⟨64, true, 0, 4, false⟩ none) pairStored).get (by decide +kernel)

theorem pairLoaded_reach :
    (cacheProtocol (fun p => p < 2) LineRam.zeroed.populated).Reach (cold 2 .zeroed)
      ⟨pairLoaded, fun _ => .idle⟩ := by
  have hstored : (cacheProtocol (fun p => p < 2) LineRam.zeroed.populated).Reach (cold 2 .zeroed)
      ⟨pairStored, fun _ => .idle⟩ :=
    Protocol.Reach.soloOp (n := 2) (a := .access ⟨0, false, 1, 4, false⟩ none) .refl rfl
      ⟨by decide, rfl⟩ (Option.some_get _).symm
  exact hstored.soloOp (n := 2) (a := .access ⟨64, true, 0, 4, false⟩ none) rfl
    ⟨by decide, rfl⟩ (Option.some_get _).symm

/-- A line is exclusive and in the write buffer and another one shared, and processor 0 is in
the middle of a second write, its cache mutex taken. -/
theorem coherent_of_interleaving_locked :
    ∃ c, (cacheProtocol (fun p => p < 2) LineRam.zeroed.populated).Reach (cold 2 .zeroed) c ∧
      c.world.owner (.cache 0 0) = some 0 ∧ (c.world.st.cache 0).dcFlags 0 = .exclusive ∧
      (c.world.st.cache 0).wbIndices 3 = some 0 ∧ (c.world.st.cache 1).dcFlags 8 = .shared ∧
      CoherentCaches c.world.st := by
  have hstart : (cacheProtocol (fun p => p < 2) LineRam.zeroed.populated).may 0
      (.access ⟨0, false, 2, 4, false⟩ none) := ⟨by decide, rfl⟩
  have hfree : pairLoaded.owner (.cache 0 0) = none := by decide +kernel
  have hreach : (cacheProtocol (fun p => p < 2) LineRam.zeroed.populated).Reach (cold 2 .zeroed) _ :=
    .tail (.tail pairLoaded_reach ⟨0, .start rfl hstart⟩) ⟨0, .lock rfl hfree⟩
  refine ⟨_, hreach, rfl, ?_, ?_, ?_, coherent_of_interleaving (coldStart_cold 2 .zeroed) hreach⟩
  · show (pairLoaded.st.cache 0).dcFlags 0 = .exclusive
    decide +kernel
  · show (pairLoaded.st.cache 0).wbIndices 3 = some 0
    decide +kernel
  · show (pairLoaded.st.cache 1).dcFlags 8 = .shared
    decide +kernel

end Xremu
