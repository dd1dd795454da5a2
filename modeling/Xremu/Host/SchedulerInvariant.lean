import Xremu.Host.Scheduler

/-!
# The scheduler: no work is lost

Each step keeps `Holds`: there is one lemma for each function, which says where its
schedulable comes from and where it goes. `OnChain` is kept track of along the way, because
a chain belongs to one thread.
-/

namespace Xremu

open Concurrency Lists

theorem xrEntry_of_inj {W : Type} (a b : W) (h : XrEntry.of a = XrEntry.of b) : a = b :=
  XrEntry.of.inj h

theorem xrEntry_of_ne_head {W : Type} (list : XrListHead) (a : W) :
    XrEntry.of a ≠ XrEntry.head list := by
  intro h
  cases h

variable {T W : Type} [Fintype T]

/-- The schedulable is on the chain that hangs on the thread or on the one its loop has. -/
def OnChain (contents : XrPlace T → List W) (t : T) (w : W) : Prop :=
  w ∈ contents (.mine t) ∨ w ∈ contents (.remaining t)

namespace XrScheduler.Holds

variable {s : XrScheduler T W} {contents : XrPlace T → List W} {place : W → XrPlace T}

theorem enqueued (h : s.Holds contents place) {p : XrPlace T} {w : W} (hw : w ∈ contents p) :
    s.enqueued w = true := ((h.buckets.mem p w).mp hw).1

theorem place_eq (h : s.Holds contents place) {p : XrPlace T} {w : W}
    (hw : w ∈ contents p) : place w = p := ((h.buckets.mem p w).mp hw).2

theorem not_mem (h : s.Holds contents place) {w : W} (hw : s.enqueued w = false)
    (p : XrPlace T) : w ∉ contents p := by
  intro hmem
  rw [h.enqueued hmem] at hw
  cases hw

theorem disjoint (h : s.Holds contents place) {p q : XrPlace T} (hpq : p ≠ q) {a b : W}
    (ha : a ∈ contents p) (hb : b ∈ contents q) : a ≠ b := by
  rintro rfl
  exact hpq ((h.place_eq ha).symm.trans (h.place_eq hb))

/-- A schedulable that is on no list of entries or chain holds no pointer. -/
theorem next_none (h : s.Holds contents place) {w : W} (hmine : ∀ t, place w ≠ .mine t)
    (hremaining : ∀ t, place w ≠ .remaining t) : s.next w = none :=
  h.unlinked w fun t =>
    ⟨fun hw => hmine t (h.place_eq hw), fun hw => hremaining t (h.place_eq hw)⟩

end XrScheduler.Holds

variable [DecidableEq T] [DecidableEq W]

variable {s : XrScheduler T W} {contents : XrPlace T → List W} {place : W → XrPlace T}

omit [Fintype T] [DecidableEq W] in
/-- Only these two places are not lists of entries. -/
theorem onChain_update {contents : XrPlace T → List W} {p : XrPlace T} {l : List W}
    (hmine : ∀ t, p ≠ .mine t) (hremaining : ∀ t, p ≠ .remaining t) (t : T) (w : W) :
    OnChain (Function.update contents p l) t w ↔ OnChain contents t w := by
  unfold OnChain
  rw [Function.update_of_ne (Ne.symm (hmine t)), Function.update_of_ne (Ne.symm (hremaining t))]

/-! ## Queueing -/

theorem enqueued_update_true (enqueued : W → Bool) (work w : W) :
    Function.update enqueued work true w = true ↔ enqueued w = true ∨ w = work := by
  by_cases hw : w = work
  · subst hw
    simp
  · simp [hw]

theorem enqueued_update_false (enqueued : W → Bool) (work w : W) :
    Function.update enqueued work false w = true ↔ enqueued w = true ∧ w ≠ work := by
  by_cases hw : w = work
  · subst hw
    simp
  · simp [hw]

/-- An entry comes onto the work list or the next-frame list, and the other lists keep
their pointers. -/
theorem holds_insert (h : s.Holds contents place) {work : W} (hout : s.enqueued work = false)
    {p : XrPlace T} (hmine : ∀ t, p ≠ .mine t) (hremaining : ∀ t, p ≠ .remaining t)
    (hframe : p ≠ .frame) {links : Links (XrEntry W)} {semaphore : Nat} {l : List W}
    (hl : l.Perm (work :: contents p))
    (hwork : Ring .of links (.head .work) (Function.update contents p l .work))
    (hnext : Ring .of links (.head .nextFrame) (Function.update contents p l .nextFrame))
    (hother : ∀ w ∈ contents .frame, links.next (.of w) = s.links.next (.of w))
    (hpermits : (Function.update contents p l .work).length =
      semaphore + tally XrLoop.tokens s.loop) :
    XrScheduler.Holds
      { s with
        enqueued := Function.update s.enqueued work true
        links := links
        semaphore := semaphore }
      (Function.update contents p l) (Function.update place work p) := by
  have hnot : ¬ s.enqueued work = true := by
    rw [hout]
    decide
  have hmineEq : ∀ t, Function.update contents p l (.mine t) = contents (.mine t) :=
    fun t => Function.update_of_ne (Ne.symm (hmine t)) _ _
  have hremainingEq : ∀ t, Function.update contents p l (.remaining t) =
      contents (.remaining t) := fun t => Function.update_of_ne (Ne.symm (hremaining t)) _ _
  constructor
  · exact (h.buckets.insertAt hnot hl).congr (fun w => enqueued_update_true _ _ _)
      fun w _ => rfl
  · exact hwork
  · exact hnext
  · rw [Function.update_of_ne (Ne.symm hframe)]
    exact h.frame.congr hother
  · intro t
    rw [hmineEq]
    exact h.mine t
  · intro t
    rw [hremainingEq]
    exact h.remaining t
  · intro w hw
    refine h.unlinked w fun t => ?_
    have hwt := hw t
    rw [hmineEq, hremainingEq] at hwt
    exact hwt
  · exact hpermits

theorem holds_forAny (h : s.Holds contents place) (work : W) :
    ∃ contents' place', (xrScheduleWorkForAny s work).Holds contents' place' ∧
      ∀ t w, OnChain contents' t w → OnChain contents t w := by
  unfold xrScheduleWorkForAny
  by_cases hin : s.enqueued work = true
  · rw [if_pos hin]
    exact ⟨contents, place, h, fun _ _ hw => hw⟩
  rw [if_neg hin]
  rw [Bool.not_eq_true] at hin
  have hfresh : ∀ p, ∀ w ∈ contents p, w ≠ work := by
    rintro p w hw rfl
    exact h.not_mem hin p hw
  have hkeep : ∀ p, p ≠ .work → ∀ w ∈ contents p,
      (insertAtTailList s.links (.head .work) (.of work)).next (.of w) = s.links.next (.of w) ∧
      (insertAtTailList s.links (.head .work) (.of work)).prev (.of w) =
        s.links.prev (.of w) := by
    intro p hp w hw
    refine insertAtTailList_other h.work (xrEntry_of_ne_head _ w) ?_ ?_
    · exact fun heq => hfresh p w hw (xrEntry_of_inj _ _ heq)
    · exact fun b hb heq => h.disjoint hp hw hb (xrEntry_of_inj _ _ heq)
  refine ⟨_, _, holds_insert h hin (p := .work) nofun nofun nofun
    (List.perm_append_singleton work (contents .work)) ?_ ?_ ?_ ?_, ?_⟩
  · rw [Function.update_self]
    exact ring_insertAtTailList h.work (h.buckets.nodup _) (h.not_mem hin _) xrEntry_of_inj
      (xrEntry_of_ne_head _)
  · simp only [ne_eq, reduceCtorEq, not_false_eq_true, Function.update_of_ne]
    refine h.nextFrame.congr ?_ ?_ ?_
    · exact insertAtTailList_other h.work nofun nofun fun _ _ => nofun
    · exact fun w hw => (hkeep .nextFrame nofun w hw).1
    · exact fun w hw => (hkeep .nextFrame nofun w hw).2
  · exact fun w hw => (hkeep .frame nofun w hw).1
  · rw [Function.update_self, List.length_append, h.permits, List.length_singleton]
    omega
  · exact fun t w => (onChain_update nofun nofun t w).mp

theorem holds_forNextFrame (h : s.Holds contents place) (work : W) (front : Bool) :
    ∃ contents' place', (xrScheduleWorkForNextFrame s work front).Holds contents' place' ∧
      ∀ t w, OnChain contents' t w → OnChain contents t w := by
  unfold xrScheduleWorkForNextFrame
  by_cases hin : s.enqueued work = true
  · rw [if_pos hin]
    exact ⟨contents, place, h, fun _ _ hw => hw⟩
  rw [if_neg hin]
  rw [Bool.not_eq_true] at hin
  have hfresh : ∀ p, ∀ w ∈ contents p, w ≠ work := by
    rintro p w hw rfl
    exact h.not_mem hin p hw
  cases front with
  | true =>
      rw [if_pos rfl]
      have hkeep : ∀ p, p ≠ .nextFrame → ∀ w ∈ contents p,
          (insertAtHeadList s.links (.head .nextFrame) (.of work)).next (.of w) =
            s.links.next (.of w) ∧
          (insertAtHeadList s.links (.head .nextFrame) (.of work)).prev (.of w) =
            s.links.prev (.of w) := by
        intro p hp w hw
        refine insertAtHeadList_other h.nextFrame (xrEntry_of_ne_head _ w) ?_ ?_
        · exact fun heq => hfresh p w hw (xrEntry_of_inj _ _ heq)
        · exact fun b hb heq => h.disjoint hp hw hb (xrEntry_of_inj _ _ heq)
      refine ⟨_, _, holds_insert h hin (p := .nextFrame) nofun nofun nofun
        (List.Perm.refl _) ?_ ?_ ?_ ?_, ?_⟩
      · simp only [ne_eq, reduceCtorEq, not_false_eq_true, Function.update_of_ne]
        refine h.work.congr ?_ ?_ ?_
        · exact insertAtHeadList_other h.nextFrame nofun nofun fun _ _ => nofun
        · exact fun w hw => (hkeep .work nofun w hw).1
        · exact fun w hw => (hkeep .work nofun w hw).2
      · rw [Function.update_self]
        exact ring_insertAtHeadList h.nextFrame (h.buckets.nodup _) (h.not_mem hin _)
          xrEntry_of_inj (xrEntry_of_ne_head _)
      · exact fun w hw => (hkeep .frame nofun w hw).1
      · simp only [ne_eq, reduceCtorEq, not_false_eq_true, Function.update_of_ne]
        exact h.permits
      · exact fun t w => (onChain_update nofun nofun t w).mp
  | false =>
      rw [if_neg Bool.false_ne_true]
      have hkeep : ∀ p, p ≠ .nextFrame → ∀ w ∈ contents p,
          (insertAtTailList s.links (.head .nextFrame) (.of work)).next (.of w) =
            s.links.next (.of w) ∧
          (insertAtTailList s.links (.head .nextFrame) (.of work)).prev (.of w) =
            s.links.prev (.of w) := by
        intro p hp w hw
        refine insertAtTailList_other h.nextFrame (xrEntry_of_ne_head _ w) ?_ ?_
        · exact fun heq => hfresh p w hw (xrEntry_of_inj _ _ heq)
        · exact fun b hb heq => h.disjoint hp hw hb (xrEntry_of_inj _ _ heq)
      refine ⟨_, _, holds_insert h hin (p := .nextFrame) nofun nofun nofun
        (List.perm_append_singleton work (contents .nextFrame)) ?_ ?_ ?_ ?_, ?_⟩
      · simp only [ne_eq, reduceCtorEq, not_false_eq_true, Function.update_of_ne]
        refine h.work.congr ?_ ?_ ?_
        · exact insertAtTailList_other h.nextFrame nofun nofun fun _ _ => nofun
        · exact fun w hw => (hkeep .work nofun w hw).1
        · exact fun w hw => (hkeep .work nofun w hw).2
      · rw [Function.update_self]
        exact ring_insertAtTailList h.nextFrame (h.buckets.nodup _) (h.not_mem hin _)
          xrEntry_of_inj (xrEntry_of_ne_head _)
      · exact fun w hw => (hkeep .frame nofun w hw).1
      · simp only [ne_eq, reduceCtorEq, not_false_eq_true, Function.update_of_ne]
        exact h.permits
      · exact fun t w => (onChain_update nofun nofun t w).mp

theorem holds_forMe (h : s.Holds contents place) {after work : W} {s' : XrScheduler T W}
    (hcall : xrScheduleWorkForMe s after work = some s') :
    ∃ contents' place', s'.Holds contents' place' ∧
      ∀ t w, OnChain contents' t w → OnChain contents t w ∨
        (w = work ∧ s.preferredThread after = some t) := by
  unfold xrScheduleWorkForMe at hcall
  by_cases hin : s.enqueued work = true
  · rw [if_pos hin] at hcall
    cases hcall
    exact ⟨contents, place, h, fun _ _ hw => Or.inl hw⟩
  rw [if_neg hin, Option.map_eq_some_iff] at hcall
  obtain ⟨thread, hthread, rfl⟩ := hcall
  have hnew := h.not_mem (Bool.not_eq_true _ ▸ hin)
  have hnext : ∀ p, ∀ w ∈ contents p,
      Function.update s.next work (s.threadNext thread) w = s.next w := by
    intro p w hw
    refine Function.update_of_ne ?_ _ _
    rintro rfl
    exact hnew p hw
  refine ⟨Function.update contents (.mine thread) (work :: contents (.mine thread)),
    Function.update place work (.mine thread), ⟨?_, ?_, ?_, ?_, ?_, ?_, ?_, ?_⟩, ?_⟩
  · exact (h.buckets.insertAt hin (List.Perm.refl _)).congr
      (fun w => enqueued_update_true _ _ _) fun w _ => rfl
  · simp only [ne_eq, reduceCtorEq, not_false_eq_true, Function.update_of_ne]
    exact h.work
  · simp only [ne_eq, reduceCtorEq, not_false_eq_true, Function.update_of_ne]
    exact h.nextFrame
  · simp only [ne_eq, reduceCtorEq, not_false_eq_true, Function.update_of_ne]
    exact h.frame
  · intro t
    dsimp only
    by_cases ht : t = thread
    · subst ht
      rw [Function.update_self, Function.update_self]
      refine ⟨rfl, ?_⟩
      rw [Function.update_self]
      exact (h.mine t).congr (hnext _)
    · rw [Function.update_of_ne ht, Function.update_of_ne (by simpa using ht)]
      exact (h.mine t).congr (hnext _)
  · intro t
    simp only [ne_eq, reduceCtorEq, not_false_eq_true, Function.update_of_ne]
    exact (h.remaining t).congr (hnext _)
  · intro w hw
    have hne : w ≠ work := by
      rintro rfl
      exact (hw thread).1 (by rw [Function.update_self]; exact List.mem_cons_self)
    show Function.update s.next work (s.threadNext thread) w = none
    rw [Function.update_of_ne hne]
    refine h.unlinked w fun t => ?_
    obtain ⟨hmine, hremaining⟩ := hw t
    simp only [ne_eq, reduceCtorEq, not_false_eq_true, Function.update_of_ne] at hremaining
    refine ⟨fun hmem => hmine ?_, hremaining⟩
    by_cases ht : t = thread
    · subst ht
      rw [Function.update_self]
      exact List.mem_cons_of_mem _ hmem
    · rwa [Function.update_of_ne (by simpa using ht)]
  · simp only [ne_eq, reduceCtorEq, not_false_eq_true, Function.update_of_ne]
    exact h.permits
  · rintro t w (hmine | hremaining)
    · by_cases ht : t = thread
      · subst ht
        rw [Function.update_self] at hmine
        rcases List.mem_cons.mp hmine with rfl | hmem
        · exact Or.inr ⟨rfl, hthread⟩
        · exact Or.inl (Or.inl hmem)
      · rw [Function.update_of_ne (by simpa using ht)] at hmine
        exact Or.inl (Or.inl hmine)
    · simp only [ne_eq, reduceCtorEq, not_false_eq_true, Function.update_of_ne] at hremaining
      exact Or.inl (Or.inr hremaining)

/-! ## The loop of a thread -/

omit [DecidableEq W] in
/-- A thread moves in its loop, and its chain stays. -/
theorem holds_loop (h : s.Holds contents place) {t : T} {loop : XrLoop W} {semaphore : Nat}
    (hchain : loop.chain = (s.loop t).chain)
    (htokens : semaphore + loop.tokens = s.semaphore + (s.loop t).tokens) :
    XrScheduler.Holds
      { s with
        semaphore := semaphore
        loop := Function.update s.loop t loop } contents place := by
  refine ⟨h.buckets, h.work, h.nextFrame, h.frame, h.mine, ?_, h.unlinked, ?_⟩
  · intro u
    show Path some s.next (Function.update s.loop t loop u).chain (contents (.remaining u)) none
    by_cases hu : u = t
    · subst hu
      rw [Function.update_self, hchain]
      exact h.remaining u
    · rw [Function.update_of_ne hu]
      exact h.remaining u
  · have htally := tally_update XrLoop.tokens s.loop t loop
    have hpermits := h.permits
    show (contents .work).length = semaphore + tally XrLoop.tokens (Function.update s.loop t loop)
    omega

omit [DecidableEq T] [DecidableEq W] in
/-- A loop without a chain has nothing remaining. -/
theorem remaining_nil (h : s.Holds contents place) {t : T} (hchain : (s.loop t).chain = none) :
    contents (.remaining t) = [] := by
  have hpath := h.remaining t
  exact (hpath.nil_iff nofun).mp hchain

omit [DecidableEq W] in
/-- The chain of the thread becomes the chain of its loop. -/
theorem holds_takeNext (h : s.Holds contents place) {t : T} (hat : s.loop t = .idle) :
    ∃ contents' place', (xrTakeNext s t).Holds contents' place' ∧
      ∀ u w, OnChain contents' u w → OnChain contents u w := by
  have hempty : contents (.remaining t) = [] := remaining_nil h (by rw [hat]; rfl)
  have hchain : ((xrTakeNext s t).loop t).chain = s.threadNext t := by
    show XrLoop.chain (Function.update s.loop t _ t) = s.threadNext t
    rw [Function.update_self]
    cases s.threadNext t <;> rfl
  have htokens : ((xrTakeNext s t).loop t).tokens = (s.loop t).tokens := by
    show XrLoop.tokens (Function.update s.loop t _ t) = (s.loop t).tokens
    rw [Function.update_self, hat]
    cases s.threadNext t <;> rfl
  have hother : ∀ u, u ≠ t → (xrTakeNext s t).loop u = s.loop u :=
    fun u hu => Function.update_of_ne hu _ _
  -- What the place of another list has is as before.
  have hsame : ∀ p, p ≠ .mine t → p ≠ .remaining t →
      Function.update (Function.update contents (.mine t) []) (.remaining t)
        (contents (.mine t)) p = contents p := by
    intro p hmine hremaining
    rw [Function.update_of_ne hremaining, Function.update_of_ne hmine]
  have hmineT : Function.update (Function.update contents (.mine t) []) (.remaining t)
      (contents (.mine t)) (.mine t) = [] := by
    have hne : XrPlace.mine t ≠ .remaining t := nofun
    rw [Function.update_of_ne hne, Function.update_self]
  refine ⟨_, _, ⟨h.buckets.moveAll (k := .mine t) (j := .remaining t) hempty nofun,
    ?_, ?_, ?_, ?_, ?_, ?_, ?_⟩, ?_⟩
  · rw [hsame .work nofun nofun]
    exact h.work
  · rw [hsame .nextFrame nofun nofun]
    exact h.nextFrame
  · rw [hsame .frame nofun nofun]
    exact h.frame
  · intro u
    by_cases hu : u = t
    · subst hu
      rw [hmineT]
      show Function.update s.threadNext u none u = none
      exact Function.update_self _ _ _
    · rw [hsame (.mine u) (by simpa using hu) nofun]
      show Path some s.next (Function.update s.threadNext t none u) _ none
      rw [Function.update_of_ne hu]
      exact h.mine u
  · intro u
    by_cases hu : u = t
    · subst hu
      rw [hchain, Function.update_self]
      exact h.mine u
    · rw [hother u hu, hsame (.remaining u) nofun (by simpa using hu)]
      exact h.remaining u
  · intro w hw
    refine h.unlinked w fun u => ?_
    by_cases hu : u = t
    · subst hu
      refine ⟨?_, ?_⟩
      · have hw' := (hw u).2
        rw [Function.update_self] at hw'
        exact hw'
      · rw [hempty]
        exact List.not_mem_nil
    · have hw' := hw u
      rw [hsame (.mine u) (by simpa using hu) nofun,
        hsame (.remaining u) nofun (by simpa using hu)] at hw'
      exact hw'
  · rw [hsame .work nofun nofun]
    have htally := tally_update XrLoop.tokens s.loop t ((xrTakeNext s t).loop t)
    have hloop : Function.update s.loop t ((xrTakeNext s t).loop t) = (xrTakeNext s t).loop := by
      funext u
      by_cases hu : u = t
      · subst hu
        rw [Function.update_self]
      · rw [Function.update_of_ne hu, hother u hu]
    rw [hloop] at htally
    have hpermits := h.permits
    show _ = s.semaphore + _
    omega
  · rintro u w (hmine | hremaining)
    · by_cases hu : u = t
      · subst hu
        rw [hmineT] at hmine
        cases hmine
      · rw [hsame (.mine u) (by simpa using hu) nofun] at hmine
        exact Or.inl hmine
    · by_cases hu : u = t
      · subst hu
        rw [Function.update_self] at hremaining
        exact Or.inl hremaining
      · rw [hsame (.remaining u) nofun (by simpa using hu)] at hremaining
        exact Or.inr hremaining

omit [DecidableEq T] [DecidableEq W] in
/-- A token that was taken stands for an entry of the work list. -/
theorem work_ne_nil (h : s.Holds contents place) {t : T} (hat : s.loop t = .popping) :
    contents .work ≠ [] := by
  intro hnil
  have hle := le_tally XrLoop.tokens s.loop t
  have hpermits := h.permits
  rw [hat] at hle
  rw [hnil, List.length_nil] at hpermits
  have hone : (XrLoop.popping : XrLoop W).tokens = 1 := rfl
  omega

/-- The first entry of the work list goes to the thread, which it prefers from then on. -/
theorem holds_pop (h : s.Holds contents place) {t : T} (hat : s.loop t = .popping) :
    ∃ contents' place', (xrPopSchedulerWork s t).Holds contents' place' ∧
      ∀ u w, OnChain contents' u w → OnChain contents u w ∨
        (u = t ∧ (xrPopSchedulerWork s t).preferredThread w = some t) := by
  obtain ⟨work, rest, hlist⟩ := List.exists_cons_of_ne_nil (work_ne_nil h hat)
  have hring := h.work
  rw [hlist] at hring
  have hfirst : s.links.next (.head .work) = .of work := hring.next.1
  have hmem : work ∈ contents .work := by
    rw [hlist]
    exact List.mem_cons_self
  have hempty : contents (.remaining t) = [] := remaining_nil h (by rw [hat]; rfl)
  have hkeep : ∀ p, p ≠ .work → ∀ w ∈ contents p,
      (removeEntryList s.links (.of work)).next (.of w) = s.links.next (.of w) ∧
      (removeEntryList s.links (.of work)).prev (.of w) = s.links.prev (.of w) := by
    intro p hp w hw
    refine removeEntryList_other hring (xrEntry_of_ne_head _ w) fun b hb heq => ?_
    refine h.disjoint hp hw (b := b) ?_ (xrEntry_of_inj _ _ heq)
    rw [hlist]
    exact List.mem_cons_of_mem work hb
  have hsame : ∀ u, u ≠ t → Function.update (Function.update contents .work rest)
      (.remaining t) [work] (.remaining u) = contents (.remaining u) := by
    intro u hu
    have hne : XrPlace.remaining u ≠ .remaining t := by simpa using hu
    simp only [Function.update_of_ne hne, ne_eq, reduceCtorEq, not_false_eq_true,
      Function.update_of_ne]
  unfold xrPopSchedulerWork
  rw [hfirst]
  refine ⟨_, _, ⟨h.buckets.moveFirst (k := .work) (j := .remaining t) hlist hempty nofun,
    ?_, ?_, ?_, ?_, ?_, ?_, ?_⟩, ?_⟩
  · simp only [ne_eq, reduceCtorEq, not_false_eq_true, Function.update_of_ne,
      Function.update_self]
    refine ring_removeEntryList hring ?_ xrEntry_of_inj (xrEntry_of_ne_head _)
    rw [← hlist]
    exact h.buckets.nodup _
  · simp only [ne_eq, reduceCtorEq, not_false_eq_true, Function.update_of_ne]
    refine h.nextFrame.congr ?_ ?_ ?_
    · exact removeEntryList_other hring nofun fun _ _ => nofun
    · exact fun w hw => (hkeep .nextFrame nofun w hw).1
    · exact fun w hw => (hkeep .nextFrame nofun w hw).2
  · simp only [ne_eq, reduceCtorEq, not_false_eq_true, Function.update_of_ne]
    exact h.frame.congr fun w hw => (hkeep .frame nofun w hw).1
  · intro u
    simp only [ne_eq, reduceCtorEq, not_false_eq_true, Function.update_of_ne]
    exact h.mine u
  · intro u
    dsimp only
    by_cases hu : u = t
    · subst hu
      rw [Function.update_self, Function.update_self]
      refine ⟨rfl, h.next_none ?_ ?_⟩
      · rw [h.place_eq hmem]
        exact fun _ => nofun
      · rw [h.place_eq hmem]
        exact fun _ => nofun
    · rw [Function.update_of_ne hu, hsame u hu]
      exact h.remaining u
  · intro w hw
    refine h.unlinked w fun u => ?_
    have hmine := (hw u).1
    have hremaining := (hw u).2
    simp only [ne_eq, reduceCtorEq, not_false_eq_true, Function.update_of_ne] at hmine
    refine ⟨hmine, ?_⟩
    by_cases hu : u = t
    · subst hu
      rw [hempty]
      exact List.not_mem_nil
    · rw [hsame u hu] at hremaining
      exact hremaining
  · simp only [ne_eq, reduceCtorEq, not_false_eq_true, Function.update_of_ne,
      Function.update_self]
    have htally := tally_update XrLoop.tokens s.loop t (.ready work)
    have hpermits := h.permits
    rw [hat] at htally
    rw [hlist, List.length_cons] at hpermits
    have hone : (XrLoop.popping : XrLoop W).tokens = 1 := rfl
    have hzero : (XrLoop.ready work).tokens = 0 := rfl
    omega
  · rintro u w (hmine | hremaining)
    · simp only [ne_eq, reduceCtorEq, not_false_eq_true, Function.update_of_ne] at hmine
      exact Or.inl (Or.inl hmine)
    · by_cases hu : u = t
      · subst hu
        rw [Function.update_self, List.mem_singleton] at hremaining
        subst hremaining
        exact Or.inr ⟨rfl, Function.update_self _ _ _⟩
      · rw [hsame u hu] at hremaining
        exact Or.inl (Or.inr hremaining)

omit [DecidableEq T] [DecidableEq W] in
theorem remaining_cons (h : s.Holds contents place) {t : T} {work : W}
    (hat : s.loop t = .ready work) : ∃ rest, contents (.remaining t) = work :: rest := by
  have hpath := h.remaining t
  rw [hat] at hpath
  cases hcontents : contents (.remaining t) with
  | nil =>
      rw [hcontents] at hpath
      cases hpath
  | cons w rest =>
      rw [hcontents] at hpath
      have hw : work = w := Option.some.inj hpath.1
      exact ⟨rest, by rw [hw]⟩

/-- The schedulable that the loop is at leaves the chain. -/
theorem holds_dequeue (h : s.Holds contents place) {t : T} {work : W}
    (hat : s.loop t = .ready work) :
    ∃ contents' place', (xrDequeue s t work).Holds contents' place' ∧
      ∀ u w, OnChain contents' u w → OnChain contents u w := by
  have hpath := h.remaining t
  obtain ⟨rest, hlist⟩ := remaining_cons h hat
  rw [hat, hlist] at hpath
  have hmem : work ∈ contents (.remaining t) := by
    rw [hlist]
    exact List.mem_cons_self
  have hnodup := h.buckets.nodup (.remaining t)
  rw [hlist, List.nodup_cons] at hnodup
  have hnext : ∀ w, w ≠ work → Function.update s.next work none w = s.next w :=
    fun w hw => Function.update_of_ne hw _ _
  have hkeep : ∀ p, p ≠ .remaining t → ∀ w ∈ contents p,
      Function.update s.next work none w = s.next w :=
    fun p hp w hw => hnext w (h.disjoint hp hw hmem)
  refine ⟨Function.update contents (.remaining t) rest, place, ⟨?_, ?_, ?_, ?_, ?_, ?_, ?_, ?_⟩, ?_⟩
  · exact (h.buckets.removeFirst hlist).congr (fun w => enqueued_update_false _ _ _)
      fun w _ => rfl
  · simp only [ne_eq, reduceCtorEq, not_false_eq_true, Function.update_of_ne]
    exact h.work
  · simp only [ne_eq, reduceCtorEq, not_false_eq_true, Function.update_of_ne]
    exact h.nextFrame
  · simp only [ne_eq, reduceCtorEq, not_false_eq_true, Function.update_of_ne]
    exact h.frame
  · intro u
    simp only [ne_eq, reduceCtorEq, not_false_eq_true, Function.update_of_ne]
    exact (h.mine u).congr (hkeep (.mine u) nofun)
  · intro u
    show Path some (Function.update s.next work none)
      (XrLoop.chain (Function.update s.loop t (.running work (s.next work)) u)) _ none
    by_cases hu : u = t
    · subst hu
      rw [Function.update_self, Function.update_self]
      refine Path.congr hpath.2 fun w hw => hnext w ?_
      rintro rfl
      exact hnodup.1 hw
    · rw [Function.update_of_ne hu, Function.update_of_ne (by simpa using hu)]
      exact (h.remaining u).congr (hkeep (.remaining u) (by simpa using hu))
  · intro w hw
    show Function.update s.next work none w = none
    by_cases heq : w = work
    · subst heq
      exact Function.update_self _ _ _
    · rw [hnext w heq]
      refine h.unlinked w fun u => ?_
      have hmine := (hw u).1
      have hremaining := (hw u).2
      simp only [ne_eq, reduceCtorEq, not_false_eq_true, Function.update_of_ne] at hmine
      refine ⟨hmine, fun hin => hremaining ?_⟩
      by_cases hu : u = t
      · subst hu
        rw [hlist, List.mem_cons] at hin
        rw [Function.update_self]
        exact hin.resolve_left heq
      · rwa [Function.update_of_ne (by simpa using hu)]
  · simp only [ne_eq, reduceCtorEq, not_false_eq_true, Function.update_of_ne]
    have htally := tally_update XrLoop.tokens s.loop t (.running work (s.next work))
    have hpermits := h.permits
    rw [hat] at htally
    have hready : (XrLoop.ready work).tokens = 0 := rfl
    have hrunning : (XrLoop.running work (s.next work)).tokens = 0 := rfl
    show _ = s.semaphore +
      tally XrLoop.tokens (Function.update s.loop t (.running work (s.next work)))
    omega
  · rintro u w (hmine | hremaining)
    · simp only [ne_eq, reduceCtorEq, not_false_eq_true, Function.update_of_ne] at hmine
      exact Or.inl hmine
    · by_cases hu : u = t
      · subst hu
        rw [Function.update_self] at hremaining
        refine Or.inr ?_
        rw [hlist]
        exact List.mem_cons_of_mem work hremaining
      · rw [Function.update_of_ne (by simpa using hu)] at hremaining
        exact Or.inr hremaining

omit [DecidableEq W] in
/-- The loop goes on with what its chain had. -/
theorem holds_return (h : s.Holds contents place) {t : T} {work : W} {next : Option W}
    (hat : s.loop t = .running work next) : (xrNextWork s t next).Holds contents place := by
  cases next with
  | none =>
      refine holds_loop h ?_ ?_
      · rw [hat]
        rfl
      · rw [hat]
        rfl
  | some w =>
      refine holds_loop h ?_ ?_
      · rw [hat]
        rfl
      · rw [hat]
        rfl

/-! ## The start of a frame -/

/-- The local list has what the next-frame list had. -/
theorem path_xrSpliceLinks {l : Links (XrEntry W)} {as : List W}
    (h : Ring .of l (.head .nextFrame) as) (hnodup : as.Nodup) :
    Path .of (fun w => (xrSpliceLinks l).next (.of w)) ((xrSpliceLinks l).next (.head .frame)) as
      (.head .frame) := by
  rcases List.eq_nil_or_concat as with rfl | ⟨bs, b, rfl⟩
  · have hnil : l.next (.head .nextFrame) = .head .nextFrame := h.next
    show (xrSpliceLinks l).next (.head .frame) = .head .frame
    simp [xrSpliceLinks, initializeList, setNext, setPrev, hnil]
  · simp only [List.concat_eq_append] at h hnodup ⊢
    have hlast : l.prev (.head .nextFrame) = .of b := by
      have hprev := h.prev
      rw [List.reverse_append, List.reverse_singleton, List.singleton_append] at hprev
      exact hprev.1
    have hfull : l.next (.head .nextFrame) ≠ .head .nextFrame := by
      intro hnil
      have hempty := (h.next.nil_iff (xrEntry_of_ne_head _)).mp hnil
      simp at hempty
    obtain ⟨a, hfirst⟩ : ∃ a, l.next (.head .nextFrame) = XrEntry.of a := by
      rcases h.mirror.prev_head with heq | ⟨a, _, heq⟩
      · exact absurd heq hfull
      · exact ⟨a, heq⟩
    have hstart : (xrSpliceLinks l).next (.head .frame) = l.next (.head .nextFrame) := by
      simp [xrSpliceLinks, initializeList, setNext, setPrev, hfirst, hlast]
    rw [hstart]
    refine h.next.relink ?_ ?_
    · intro c hc
      have hcb : c ≠ b := by
        rw [List.nodup_append] at hnodup
        exact hnodup.2.2 c hc b (by simp)
      simp [xrSpliceLinks, initializeList, setNext, setPrev, hfirst, hlast, hcb]
    · simp [xrSpliceLinks, initializeList, setNext, setPrev, hfirst, hlast]

theorem ring_xrSpliceLinks {l : Links (XrEntry W)} {as : List W}
    (h : Ring .of l (.head .nextFrame) as) :
    Ring .of (xrSpliceLinks l) (.head .nextFrame) ([] : List W) := by
  unfold xrSpliceLinks
  by_cases hnil : l.next (.head .nextFrame) = .head .nextFrame
  · rw [if_pos (by simpa [initializeList, setNext, setPrev] using hnil)]
    have hempty := (h.next.nil_iff (xrEntry_of_ne_head _)).mp hnil
    rw [hempty] at h
    have hne : XrEntry.head XrListHead.nextFrame ≠ (XrEntry.head .frame : XrEntry W) := by
      intro heq
      cases heq
    refine h.congr (initializeList_other hne) (fun a ha => ?_) (fun a ha => ?_)
    · cases ha
    · cases ha
  · rw [if_neg (by simpa [initializeList, setNext, setPrev] using hnil)]
    exact ring_initializeList _ _

theorem xrSpliceLinks_other {l : Links (XrEntry W)} {as : List W}
    (h : Ring .of l (.head .nextFrame) as) {p : XrEntry W} (hnext : p ≠ .head .nextFrame)
    (hframe : p ≠ .head .frame) (has : ∀ a ∈ as, p ≠ .of a) :
    (xrSpliceLinks l).next p = l.next p ∧ (xrSpliceLinks l).prev p = l.prev p := by
  have hlast : p ≠ l.prev (.head .nextFrame) := by
    rcases h.prev_head with heq | ⟨b, hb, heq⟩
    · rw [heq]
      exact hnext
    · rw [heq]
      exact has b hb
  unfold xrSpliceLinks
  by_cases hnil : l.next (.head .nextFrame) = .head .nextFrame
  · rw [if_pos (by simpa [initializeList, setNext, setPrev] using hnil)]
    exact initializeList_other hframe
  · rw [if_neg (by simpa [initializeList, setNext, setPrev] using hnil)]
    obtain ⟨a, ha, hfirst⟩ := h.mirror.prev_head.resolve_left hnil
    have hfirst : l.next (.head .nextFrame) = .of a := hfirst
    have hpa : p ≠ .of a := has a (List.mem_reverse.mp ha)
    simp [initializeList, setNext, setPrev, hnext, hframe, hlast, hfirst, hpa]

theorem holds_splice (h : s.Holds contents place) (hat : s.frame = .out) :
    ∃ contents' place', (xrSplice s).Holds contents' place' ∧
      ∀ t w, OnChain contents' t w → OnChain contents t w := by
  have hempty : contents .frame = [] := by
    have hpath := h.frame
    rw [hat] at hpath
    exact (hpath.nil_iff (xrEntry_of_ne_head _)).mp rfl
  have hkeep : ∀ w ∈ contents .work,
      (xrSpliceLinks s.links).next (.of w) = s.links.next (.of w) ∧
      (xrSpliceLinks s.links).prev (.of w) = s.links.prev (.of w) := by
    intro w hw
    refine xrSpliceLinks_other h.nextFrame (xrEntry_of_ne_head _ w) (xrEntry_of_ne_head _ w) ?_
    have hne : (XrPlace.work : XrPlace T) ≠ .nextFrame := nofun
    exact fun a ha heq => h.disjoint hne hw ha (xrEntry_of_inj _ _ heq)
  refine ⟨_, _, ⟨h.buckets.moveAll (k := .nextFrame) (j := .frame) hempty nofun,
    ?_, ?_, ?_, ?_, ?_, ?_, ?_⟩, ?_⟩
  · simp only [ne_eq, reduceCtorEq, not_false_eq_true, Function.update_of_ne]
    refine h.work.congr ?_ (fun w hw => (hkeep w hw).1) (fun w hw => (hkeep w hw).2)
    exact xrSpliceLinks_other h.nextFrame nofun nofun fun _ _ => nofun
  · simp only [ne_eq, reduceCtorEq, not_false_eq_true, Function.update_of_ne,
      Function.update_self]
    exact ring_xrSpliceLinks h.nextFrame
  · rw [Function.update_self]
    exact path_xrSpliceLinks h.nextFrame (h.buckets.nodup _)
  · intro t
    simp only [ne_eq, reduceCtorEq, not_false_eq_true, Function.update_of_ne]
    exact h.mine t
  · intro t
    simp only [ne_eq, reduceCtorEq, not_false_eq_true, Function.update_of_ne]
    exact h.remaining t
  · intro w hw
    simp only [ne_eq, reduceCtorEq, not_false_eq_true, Function.update_of_ne] at hw
    exact h.unlinked w hw
  · simp only [ne_eq, reduceCtorEq, not_false_eq_true, Function.update_of_ne]
    exact h.permits
  · intro t w hw
    unfold OnChain at hw
    simp only [ne_eq, reduceCtorEq, not_false_eq_true, Function.update_of_ne] at hw
    exact hw

/-- The first entry of the local list is in no list until it is queued again. -/
theorem holds_clearEntry (h : s.Holds contents place) {work : W}
    (hat : s.frame = .walking (.of work)) :
    ∃ contents' place', (xrClearEntry s work).Holds contents' place' ∧
      ∀ t w, OnChain contents' t w → OnChain contents t w := by
  have hpath := h.frame
  rw [hat] at hpath
  obtain ⟨rest, hlist⟩ : ∃ rest, contents .frame = work :: rest := by
    cases hcontents : contents .frame with
    | nil =>
        rw [hcontents] at hpath
        cases hpath
    | cons w rest =>
        rw [hcontents] at hpath
        have hw : work = w := xrEntry_of_inj _ _ hpath.1
        exact ⟨rest, by rw [hw]⟩
  rw [hlist] at hpath
  refine ⟨Function.update contents .frame rest, place, ⟨?_, ?_, ?_, ?_, ?_, ?_, ?_, ?_⟩, ?_⟩
  · exact (h.buckets.removeFirst hlist).congr (fun w => enqueued_update_false _ _ _)
      fun w _ => rfl
  · simp only [ne_eq, reduceCtorEq, not_false_eq_true, Function.update_of_ne]
    exact h.work
  · simp only [ne_eq, reduceCtorEq, not_false_eq_true, Function.update_of_ne]
    exact h.nextFrame
  · rw [Function.update_self]
    exact hpath.2
  · intro t
    simp only [ne_eq, reduceCtorEq, not_false_eq_true, Function.update_of_ne]
    exact h.mine t
  · intro t
    simp only [ne_eq, reduceCtorEq, not_false_eq_true, Function.update_of_ne]
    exact h.remaining t
  · intro w hw
    simp only [ne_eq, reduceCtorEq, not_false_eq_true, Function.update_of_ne] at hw
    exact h.unlinked w hw
  · simp only [ne_eq, reduceCtorEq, not_false_eq_true, Function.update_of_ne]
    exact h.permits
  · exact fun t w => (onChain_update nofun nofun t w).mp

omit [DecidableEq T] [DecidableEq W] in
/-- The frame update thread moves, and its next entry is the same. -/
theorem holds_frame (h : s.Holds contents place) {frame : XrFrame W}
    (hentry : frame.entry = s.frame.entry) :
    XrScheduler.Holds { s with frame := frame } contents place := by
  refine ⟨h.buckets, h.work, h.nextFrame, ?_, h.mine, h.remaining, h.unlinked, h.permits⟩
  show Path .of (fun w => s.links.next (.of w)) frame.entry (contents .frame) (.head .frame)
  rw [hentry]
  exact h.frame

omit [Fintype T] [DecidableEq T] in
theorem xrScheduleWorkForAny_frame (s : XrScheduler T W) (work : W) :
    (xrScheduleWorkForAny s work).frame = s.frame := by
  unfold xrScheduleWorkForAny
  by_cases hin : s.enqueued work = true
  · rw [if_pos hin]
  · rw [if_neg hin]

/-! ## Runs -/

/-- How a schedulable comes onto a chain: it was there, or the thread takes it from the work
list, or it is queued for the thread that `after` prefers. -/
def CameOnChain (contents : XrPlace T → List W) (s s' : XrScheduler T W)
    (op : XrSchedulerOp T W) (t : T) (w : W) : Prop :=
  OnChain contents t w ∨ (op = .pop t ∧ s'.preferredThread w = some t) ∨
    ∃ after, op = .forMe after w ∧ s.preferredThread after = some t

theorem holds_step {s' : XrScheduler T W} {op : XrSchedulerOp T W}
    (h : s.Holds contents place) (hstep : XrSchedulerStep s op s') :
    ∃ contents' place', s'.Holds contents' place' ∧
      ∀ t w, OnChain contents' t w → CameOnChain contents s s' op t w := by
  cases hstep with
  | forAny work =>
      obtain ⟨contents', place', h', hon⟩ := holds_forAny h work
      exact ⟨contents', place', h', fun t w hw => Or.inl (hon t w hw)⟩
  | forNextFrame work front =>
      obtain ⟨contents', place', h', hon⟩ := holds_forNextFrame h work front
      exact ⟨contents', place', h', fun t w hw => Or.inl (hon t w hw)⟩
  | forMe after work call =>
      obtain ⟨contents', place', h', hon⟩ := holds_forMe h call
      refine ⟨contents', place', h', fun t w hw => ?_⟩
      rcases hon t w hw with hold | ⟨rfl, hprefers⟩
      · exact Or.inl hold
      · exact Or.inr (Or.inr ⟨after, rfl, hprefers⟩)
  | takeNext t at_ =>
      obtain ⟨contents', place', h', hon⟩ := holds_takeNext h at_
      exact ⟨contents', place', h', fun t w hw => Or.inl (hon t w hw)⟩
  | wait t at_ token =>
      refine ⟨contents, place, holds_loop h ?_ ?_, fun _ _ hw => Or.inl hw⟩
      · rw [at_]
        rfl
      · rw [at_]
        show s.semaphore - 1 + 1 = s.semaphore + 0
        omega
  | pop t at_ =>
      obtain ⟨contents', place', h', hon⟩ := holds_pop h at_
      refine ⟨contents', place', h', fun u w hw => ?_⟩
      rcases hon u w hw with hold | ⟨rfl, hprefers⟩
      · exact Or.inl hold
      · exact Or.inr (Or.inl ⟨rfl, hprefers⟩)
  | dequeue t work at_ =>
      obtain ⟨contents', place', h', hon⟩ := holds_dequeue h at_
      exact ⟨contents', place', h', fun t w hw => Or.inl (hon t w hw)⟩
  | «return» t work next at_ =>
      exact ⟨contents, place, holds_return h at_, fun _ _ hw => Or.inl hw⟩
  | splice at_ =>
      obtain ⟨contents', place', h', hon⟩ := holds_splice h at_
      exact ⟨contents', place', h', fun t w hw => Or.inl (hon t w hw)⟩
  | clearEntry work at_ =>
      obtain ⟨contents', place', h', hon⟩ := holds_clearEntry h at_
      exact ⟨contents', place', h', fun t w hw => Or.inl (hon t w hw)⟩
  | requeue work next at_ =>
      obtain ⟨contents', place', h', hon⟩ := holds_forAny h work
      refine ⟨contents', place', holds_frame h' ?_, fun t w hw => Or.inl (hon t w hw)⟩
      rw [xrScheduleWorkForAny_frame, at_]
      rfl
  | endFrame at_ =>
      refine ⟨contents, place, holds_frame h ?_, fun _ _ hw => Or.inl hw⟩
      rw [at_]
      rfl

omit [DecidableEq T] in
/-- At the start nothing is queued. -/
theorem holds_start (links : Links (XrEntry W)) :
    (xrStartScheduler links : XrScheduler T W).Holds (fun _ => []) (fun _ => .work) := by
  refine ⟨Buckets.empty (fun _ => rfl) (fun w => ?_), ?_, ?_, ?_, ?_, ?_, ?_, ?_⟩
  · exact Bool.false_ne_true
  · refine (ring_initializeList links (.head .work)).congr ?_ nofun nofun
    exact initializeList_other nofun
  · exact ring_initializeList _ _
  · rfl
  · exact fun _ => rfl
  · exact fun _ => rfl
  · exact fun _ _ => rfl
  · show 0 = 0 + tally XrLoop.tokens fun _ : T => (XrLoop.idle : XrLoop W)
    simp [tally, XrLoop.tokens]

omit [DecidableEq T] [DecidableEq W] in
/-- The pointers leave no choice. -/
theorem XrScheduler.Holds.unique {contents' : XrPlace T → List W} {place' : W → XrPlace T}
    (h : s.Holds contents place) (h' : s.Holds contents' place') : contents = contents' := by
  funext p
  cases p with
  | work => exact h.work.next.unique h'.work.next (xrEntry_of_ne_head _) xrEntry_of_inj
  | nextFrame =>
      exact h.nextFrame.next.unique h'.nextFrame.next (xrEntry_of_ne_head _) xrEntry_of_inj
  | frame => exact h.frame.unique h'.frame (xrEntry_of_ne_head _) xrEntry_of_inj
  | mine t => exact (h.mine t).unique (h'.mine t) nofun fun _ _ => Option.some.inj
  | remaining t =>
      exact (h.remaining t).unique (h'.remaining t) nofun fun _ _ => Option.some.inj

/-! ## No work is lost or run twice -/

/-- The step takes `w` off a chain to run it. -/
def RunsWork (s : XrScheduler T W) (op : XrSchedulerOp T W) (w : W) : Prop :=
  ∃ t, op = .dequeue t ∧ s.loop t = .ready w

/-- What a step does with the work that is queued. -/
structure KeepsWork (s : XrScheduler T W) (op : XrSchedulerOp T W) (s' : XrScheduler T W) :
    Prop where
  /-- `Enqueued` goes only when the work is run or the frame update thread has it. -/
  kept : ∀ w, s.enqueued w = true → s'.enqueued w = false →
    RunsWork s op w ∨ (op = .clearEntry ∧ s.frame = .walking (.of w))
  /-- The frame update thread queues what it has. -/
  requeued : ∀ w next, op = .requeue → s.frame = .cleared w next → s'.enqueued w = true
  /-- What is run was queued, and is no longer. -/
  once : ∀ w, RunsWork s op w → s.enqueued w = true ∧ s'.enqueued w = false

omit [Fintype T] [DecidableEq T] [DecidableEq W] in
/-- Nothing is to be done for work that is in a list. -/
theorem enqueued_already {s : XrScheduler T W} {work : W} (h : s.enqueued work = true) (w : W) :
    s.enqueued w = true ↔ s.enqueued w = true ∨ w = work := by
  constructor
  · exact Or.inl
  · rintro (hw | rfl)
    · exact hw
    · exact h

omit [Fintype T] [DecidableEq T] in
theorem enqueued_forAny (s : XrScheduler T W) (work w : W) :
    (xrScheduleWorkForAny s work).enqueued w = true ↔ s.enqueued w = true ∨ w = work := by
  unfold xrScheduleWorkForAny
  by_cases hin : s.enqueued work = true
  · rw [if_pos hin]
    exact enqueued_already hin w
  · rw [if_neg hin]
    exact enqueued_update_true _ _ _

omit [Fintype T] [DecidableEq T] in
theorem enqueued_forNextFrame (s : XrScheduler T W) (work : W) (front : Bool) (w : W) :
    (xrScheduleWorkForNextFrame s work front).enqueued w = true ↔
      s.enqueued w = true ∨ w = work := by
  unfold xrScheduleWorkForNextFrame
  by_cases hin : s.enqueued work = true
  · rw [if_pos hin]
    exact enqueued_already hin w
  · rw [if_neg hin]
    exact enqueued_update_true _ _ _

omit [Fintype T] in
theorem enqueued_forMe {s s' : XrScheduler T W} {after work : W}
    (hcall : xrScheduleWorkForMe s after work = some s') (w : W) :
    s'.enqueued w = true ↔ s.enqueued w = true ∨ w = work := by
  unfold xrScheduleWorkForMe at hcall
  by_cases hin : s.enqueued work = true
  · rw [if_pos hin] at hcall
    cases hcall
    exact enqueued_already hin w
  · rw [if_neg hin, Option.map_eq_some_iff] at hcall
    obtain ⟨thread, -, rfl⟩ := hcall
    exact enqueued_update_true _ _ _

omit [Fintype T] in
theorem enqueued_pop (s : XrScheduler T W) (t : T) :
    (xrPopSchedulerWork s t).enqueued = s.enqueued := by
  unfold xrPopSchedulerWork
  cases s.links.next (.head .work) with
  | head list => rfl
  | of work => rfl

omit [Fintype T] in
/-- Where `Enqueued` goes from one step to the next. -/
theorem kept_step {s' : XrScheduler T W} {op : XrSchedulerOp T W}
    (hstep : XrSchedulerStep s op s') {w : W} (hw : s.enqueued w = true)
    (hw' : s'.enqueued w = false) :
    RunsWork s op w ∨ (op = .clearEntry ∧ s.frame = .walking (.of w)) := by
  have hgone : ¬ s'.enqueued w = true := by
    rw [hw']
    exact Bool.false_ne_true
  cases hstep with
  | forAny work => exact absurd ((enqueued_forAny s work w).mpr (Or.inl hw)) hgone
  | forNextFrame work front =>
      exact absurd ((enqueued_forNextFrame s work front w).mpr (Or.inl hw)) hgone
  | forMe after work call => exact absurd ((enqueued_forMe call w).mpr (Or.inl hw)) hgone
  | takeNext t at_ => exact absurd hw hgone
  | wait t at_ token => exact absurd hw hgone
  | pop t at_ =>
      rw [enqueued_pop] at hgone
      exact absurd hw hgone
  | dequeue t work at_ =>
      refine Or.inl ⟨t, rfl, ?_⟩
      by_cases heq : w = work
      · rw [heq]
        exact at_
      · exact absurd ((enqueued_update_false s.enqueued work w).mpr ⟨hw, heq⟩) hgone
  | «return» t work next at_ => exact absurd hw hgone
  | splice at_ => exact absurd hw hgone
  | clearEntry work at_ =>
      refine Or.inr ⟨rfl, ?_⟩
      by_cases heq : w = work
      · rw [heq]
        exact at_
      · exact absurd ((enqueued_update_false s.enqueued work w).mpr ⟨hw, heq⟩) hgone
  | requeue work next at_ => exact absurd ((enqueued_forAny s work w).mpr (Or.inl hw)) hgone
  | endFrame at_ => exact absurd hw hgone

theorem keepsWork_step {s' : XrScheduler T W} {op : XrSchedulerOp T W}
    (h : s.Holds contents place) (hstep : XrSchedulerStep s op s') : KeepsWork s op s' := by
  constructor
  · exact fun w hw hw' => kept_step hstep hw hw'
  · rintro w next rfl hat
    cases hstep with
    | requeue work next' at_ =>
        have hsame := at_.symm.trans hat
        injection hsame with hwork
        subst hwork
        exact (enqueued_forAny s work work).mpr (Or.inr rfl)
  · rintro w ⟨t, rfl, hat⟩
    cases hstep with
    | dequeue t work at_ =>
        have hsame := at_.symm.trans hat
        injection hsame with hwork
        subst hwork
        refine ⟨?_, Function.update_self _ _ _⟩
        obtain ⟨rest, hlist⟩ := remaining_cons h at_
        refine h.enqueued (p := .remaining t) ?_
        rw [hlist]
        exact List.mem_cons_self

theorem holds_reach (hreach : s.Reach) : ∃ contents place, s.Holds contents place := by
  induction hreach with
  | init links => exact ⟨_, _, holds_start links⟩
  | step hs hstep ih =>
      obtain ⟨contents, place, h⟩ := ih
      obtain ⟨contents', place', h', -⟩ := holds_step h hstep
      exact ⟨contents', place', h'⟩

/-- Each schedulable with `Enqueued` set waits in exactly one place, no other one is in any,
the tokens suffice for the work list, and no step loses work or runs it twice. -/
structure XrScheduler.Conserves (s : XrScheduler T W) : Prop where
  placed : ∃ contents place, s.Holds contents place
  keeps : ∀ op s', XrSchedulerStep s op s' → KeepsWork s op s'

theorem scheduler_conserves (hreach : s.Reach) : s.Conserves := by
  obtain ⟨contents, place, h⟩ := holds_reach hreach
  exact ⟨⟨contents, place, h⟩, fun op s' hstep => keepsWork_step h hstep⟩

/-- Two threads, with one schedulable on the work list and one on the next-frame list. -/
def twoQueued : XrScheduler Bool Bool :=
  xrScheduleWorkForNextFrame (xrScheduleWorkForAny (xrStartScheduler ⟨id, id⟩) false) true false

theorem scheduler_conserves_two :
    twoQueued.Conserves ∧ twoQueued.links.next (.head .work) = .of false :=
  ⟨scheduler_conserves (((XrScheduler.Reach.init ⟨id, id⟩).step (.forAny false)).step
    (.forNextFrame true false)), by decide⟩

end Xremu
