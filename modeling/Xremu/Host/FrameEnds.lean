import Xremu.Host.SchedulerInvariant
import Mathlib.Data.Fintype.Card

/-!
# A frame comes to its end

`scheduler_conserves` says that no step loses work. This says that the steps come to an end
and that all the work is run: from any state, once nothing is queued but for the next frame,
the threads take only finitely many steps, and when none of them can go on, each schedulable
that was due has been run exactly once, however the threads were interleaved.

The token that `XrScheduleWorkForAny` posts for every entry of the work list is what keeps a
thread from sleeping on work. A schedulable that is queued for the next frame while the
frame update thread has it in hand is put off to that frame.
-/

namespace Xremu

open Concurrency Lists

variable {T W : Type}

/-- A step of a thread's loop that runs nothing, or of the frame update thread. -/
def XrSchedulerOp.GoesOn : XrSchedulerOp T W → Prop
  | .takeNext _ | .wait _ | .pop _ | .return _ | .clearEntry | .requeue | .endFrame => True
  | _ => False

variable [DecidableEq T] [DecidableEq W]

/-- What is left of a frame: the schedulables that were run, the number of steps, and the
state. Anything may be queued for the next frame at any time. -/
inductive FrameRun (s : XrScheduler T W) : List W → Nat → XrScheduler T W → Prop
  | nil : FrameRun s [] 0 s
  | queue {done : List W} {n : Nat} {s' : XrScheduler T W} (work : W) (front : Bool)
      (h : FrameRun s done n s') :
      FrameRun s done n (xrScheduleWorkForNextFrame s' work front)
  | dequeue {done : List W} {n : Nat} {s' : XrScheduler T W} (t : T) (work : W)
      (h : FrameRun s done n s') (at_ : s'.loop t = .ready work) :
      FrameRun s (done ++ [work]) (n + 1) (xrDequeue s' t work)
  | other {done : List W} {n : Nat} {s' s'' : XrScheduler T W} {op : XrSchedulerOp T W}
      (h : FrameRun s done n s') (goesOn : op.GoesOn) (step : XrSchedulerStep s' op s'') :
      FrameRun s done (n + 1) s''

/-- No thread can go on. -/
def XrScheduler.Still (s : XrScheduler T W) : Prop :=
  (∀ op s', op.GoesOn → ¬XrSchedulerStep s op s') ∧ ∀ t work, s.loop t ≠ .ready work

/-- A chain hangs only on a thread that will look at it. -/
def XrScheduler.Tended (s : XrScheduler T W) : Prop :=
  ∀ t, s.threadNext t ≠ none → s.loop t ≠ .waiting ∧ s.loop t ≠ .popping

/-- It waits to be run in this frame. -/
def XrScheduler.Waits (s : XrScheduler T W) (contents : XrPlace T → List W) (w : W) : Prop :=
  s.enqueued w = true ∧ w ∉ contents .nextFrame

instance (s : XrScheduler T W) (contents : XrPlace T → List W) (w : W) :
    Decidable (s.Waits contents w) := inferInstanceAs (Decidable (_ ∧ _))

/-- The frame update thread has it in hand, and nobody has queued it meanwhile. -/
def XrScheduler.InHand (s : XrScheduler T W) (w : W) : Prop :=
  (∃ next, s.frame = .cleared w next) ∧ s.enqueued w = false

variable [Fintype T]

/-! ## The next-frame list and the local list -/

section

variable {s s' : XrScheduler T W} {contents contents' : XrPlace T → List W}
  {place place' : W → XrPlace T}

omit [DecidableEq T] [DecidableEq W] in
/-- The next-frame list is as it was if the step leaves its pointers. -/
theorem nextFrame_same (h : s.Holds contents place) (h' : s'.Holds contents' place')
    (hhead : s'.links.next (.head .nextFrame) = s.links.next (.head .nextFrame))
    (hkeep : ∀ w ∈ contents .nextFrame, s'.links.next (.of w) = s.links.next (.of w)) :
    contents' .nextFrame = contents .nextFrame := by
  have hpath := h.nextFrame.next.congr hkeep
  rw [← hhead] at hpath
  exact h'.nextFrame.next.unique hpath (xrEntry_of_ne_head _) xrEntry_of_inj

omit [DecidableEq T] [DecidableEq W] in
theorem frame_same (h : s.Holds contents place) (h' : s'.Holds contents' place')
    (hentry : s'.frame.entry = s.frame.entry)
    (hkeep : ∀ w ∈ contents .frame, s'.links.next (.of w) = s.links.next (.of w)) :
    contents' .frame = contents .frame := by
  have hpath := h.frame.congr hkeep
  rw [← hentry] at hpath
  exact h'.frame.unique hpath (xrEntry_of_ne_head _) xrEntry_of_inj

/-- What a step leaves of the two lists. -/
structure ListsKept (contents contents' : XrPlace T → List W) : Prop where
  nextFrame : contents' .nextFrame = contents .nextFrame
  frame : contents' .frame = contents .frame

omit [DecidableEq T] [DecidableEq W] in
theorem listsKept_of_links (h : s.Holds contents place) (h' : s'.Holds contents' place')
    (hlinks : s'.links = s.links) (hentry : s'.frame.entry = s.frame.entry) :
    ListsKept contents contents' :=
  ⟨nextFrame_same h h' (by rw [hlinks]) fun w _ => by rw [hlinks],
    frame_same h h' hentry fun w _ => by rw [hlinks]⟩

theorem listsKept_pop (h : s.Holds contents place) {t : T} (hat : s.loop t = .popping)
    (h' : (xrPopSchedulerWork s t).Holds contents' place') : ListsKept contents contents' := by
  obtain ⟨work, rest, hlist⟩ := List.exists_cons_of_ne_nil (work_ne_nil h hat)
  have hring := h.work
  rw [hlist] at hring
  have hfirst : s.links.next (.head .work) = .of work := hring.next.1
  have hlinks : (xrPopSchedulerWork s t).links = removeEntryList s.links (.of work) := by
    unfold xrPopSchedulerWork
    rw [hfirst]
  have hframe : (xrPopSchedulerWork s t).frame = s.frame := by
    unfold xrPopSchedulerWork
    rw [hfirst]
  have hkeep : ∀ p, p ≠ .work → ∀ w ∈ contents p,
      (xrPopSchedulerWork s t).links.next (.of w) = s.links.next (.of w) := by
    intro p hp w hw
    rw [hlinks]
    refine (removeEntryList_other hring (xrEntry_of_ne_head _ w) fun b hb heq => ?_).1
    refine h.disjoint hp hw (b := b) ?_ (xrEntry_of_inj _ _ heq)
    rw [hlist]
    exact List.mem_cons_of_mem work hb
  refine ⟨nextFrame_same h h' ?_ (hkeep _ nofun), frame_same h h' (by rw [hframe]) (hkeep _ nofun)⟩
  rw [hlinks]
  exact (removeEntryList_other (p := .head .nextFrame) hring nofun fun _ _ => nofun).1

omit [DecidableEq T] in
theorem listsKept_forAny (h : s.Holds contents place) (work : W) {frame : XrFrame W}
    (hentry : frame.entry = s.frame.entry)
    (h' : XrScheduler.Holds { xrScheduleWorkForAny s work with frame := frame } contents' place') :
    ListsKept contents contents' := by
  by_cases hin : s.enqueued work = true
  · refine listsKept_of_links h h' ?_ hentry
    dsimp only
    unfold xrScheduleWorkForAny
    rw [if_pos hin]
  have hlinks : (xrScheduleWorkForAny s work).links =
      insertAtTailList s.links (.head .work) (.of work) := by
    unfold xrScheduleWorkForAny
    rw [if_neg hin]
  rw [Bool.not_eq_true] at hin
  have hkeep : ∀ p, p ≠ .work → ∀ w ∈ contents p,
      (xrScheduleWorkForAny s work).links.next (.of w) = s.links.next (.of w) := by
    intro p hp w hw
    rw [hlinks]
    refine (insertAtTailList_other h.work (xrEntry_of_ne_head _ w) ?_ ?_).1
    · intro heq
      obtain rfl := xrEntry_of_inj _ _ heq
      exact h.not_mem hin p hw
    · exact fun b hb heq => h.disjoint hp hw hb (xrEntry_of_inj _ _ heq)
  refine ⟨nextFrame_same h h' ?_ (hkeep _ nofun), frame_same h h' hentry (hkeep _ nofun)⟩
  dsimp only
  rw [hlinks]
  exact (insertAtTailList_other (p := .head .nextFrame) h.work nofun nofun fun _ _ => nofun).1

omit [DecidableEq T] in
/-- What is queued for the next frame is on its list, and nothing else changes there. -/
theorem mem_forNextFrame (h : s.Holds contents place) (work : W) (front : Bool)
    (h' : (xrScheduleWorkForNextFrame s work front).Holds contents' place') :
    (∀ w, w ∈ contents' .nextFrame ↔
      w ∈ contents .nextFrame ∨ (w = work ∧ s.enqueued work = false)) ∧
      contents' .frame = contents .frame := by
  by_cases hin : s.enqueued work = true
  · have hsame : xrScheduleWorkForNextFrame s work front = s := if_pos hin
    rw [hsame] at h'
    have hkept := listsKept_of_links h h' rfl rfl
    exact ⟨fun w => by simp [hkept.nextFrame, hin], hkept.frame⟩
  have hlinks : (xrScheduleWorkForNextFrame s work front).links =
      if front then insertAtHeadList s.links (.head .nextFrame) (.of work)
      else insertAtTailList s.links (.head .nextFrame) (.of work) := by
    unfold xrScheduleWorkForNextFrame
    rw [if_neg hin]
  have hframe : (xrScheduleWorkForNextFrame s work front).frame = s.frame := by
    unfold xrScheduleWorkForNextFrame
    rw [if_neg hin]
  rw [Bool.not_eq_true] at hin
  have hout := h.not_mem hin .nextFrame
  have hne : ∀ w ∈ contents .frame, (XrEntry.of w : XrEntry W) ≠ .of work := by
    intro w hw heq
    obtain rfl := xrEntry_of_inj _ _ heq
    exact h.not_mem hin .frame hw
  have hother : ∀ w ∈ contents .frame, ∀ b ∈ contents .nextFrame,
      (XrEntry.of w : XrEntry W) ≠ .of b :=
    fun w hw b hb heq =>
      h.disjoint (p := .frame) (q := .nextFrame) nofun hw hb (xrEntry_of_inj _ _ heq)
  have hnodup := h.buckets.nodup .nextFrame
  constructor
  · intro w
    cases front with
    | true =>
        rw [if_pos rfl] at hlinks
        have hring := ring_insertAtHeadList h.nextFrame hnodup hout xrEntry_of_inj
          (xrEntry_of_ne_head _)
        rw [← hlinks] at hring
        rw [h'.nextFrame.next.unique hring.next (xrEntry_of_ne_head _) xrEntry_of_inj]
        simp [hin, or_comm]
    | false =>
        rw [if_neg Bool.false_ne_true] at hlinks
        have hring := ring_insertAtTailList h.nextFrame hnodup hout xrEntry_of_inj
          (xrEntry_of_ne_head _)
        rw [← hlinks] at hring
        rw [h'.nextFrame.next.unique hring.next (xrEntry_of_ne_head _) xrEntry_of_inj]
        simp [hin]
  · refine frame_same h h' (by rw [hframe]) fun w hw => ?_
    rw [hlinks]
    cases front with
    | true => exact (insertAtHeadList_other h.nextFrame (xrEntry_of_ne_head _ w) (hne w hw)
        (hother w hw)).1
    | false => exact (insertAtTailList_other h.nextFrame (xrEntry_of_ne_head _ w) (hne w hw)
        (hother w hw)).1

end

/-! ## What a step does -/

/-- How far a thread is from the wait. -/
def XrLoop.rank : XrLoop W → Nat
  | .waiting => 0
  | .ready _ => 1
  | .idle => 2
  | .popping => 2
  | .running _ _ => 3

/-- How far the frame update thread is from its end. -/
def XrFrame.rank : XrFrame W → Nat
  | .out => 0
  | .walking _ => 1
  | .cleared _ _ => 8

/-- A step that runs nothing: a thread gets nearer to its wait, or the frame update thread
takes the next entry, queues it, or is through. -/
inductive FrameMove (s : XrScheduler T W) (contents : XrPlace T → List W) (s' : XrScheduler T W)
    (contents' : XrPlace T → List W) : Prop
  | loop (lists : ListsKept contents contents') (enqueued : s'.enqueued = s.enqueued)
      (frame : s'.frame = s.frame)
      (nearer : 3 * s'.semaphore + tally XrLoop.rank s'.loop <
        3 * s.semaphore + tally XrLoop.rank s.loop) : FrameMove s contents s' contents'
  | clear (work : W) (next : XrEntry W) (at_ : s.frame = .walking (.of work))
      (first : contents .frame = work :: contents' .frame)
      (nextFrame : contents' .nextFrame = contents .nextFrame)
      (enqueued : s'.enqueued = Function.update s.enqueued work false)
      (frame : s'.frame = .cleared work next) (semaphore : s'.semaphore = s.semaphore)
      (loop : s'.loop = s.loop) : FrameMove s contents s' contents'
  | requeue (work : W) (next : XrEntry W) (at_ : s.frame = .cleared work next)
      (lists : ListsKept contents contents')
      (enqueued : s'.enqueued = Function.update s.enqueued work true)
      (frame : s'.frame = .walking next) (semaphore : s'.semaphore ≤ s.semaphore + 1)
      (loop : s'.loop = s.loop) : FrameMove s contents s' contents'
  | endFrame (at_ : s.frame = .walking (.head .frame)) (lists : ListsKept contents contents')
      (enqueued : s'.enqueued = s.enqueued) (frame : s'.frame = .out)
      (semaphore : s'.semaphore = s.semaphore) (loop : s'.loop = s.loop) :
      FrameMove s contents s' contents'

section

variable {s s' : XrScheduler T W} {contents contents' : XrPlace T → List W}
  {place place' : W → XrPlace T}

omit [DecidableEq W] in
/-- A thread gets nearer. -/
theorem tally_rank_lt {t : T} {loop : XrLoop W} {semaphore : Nat}
    (h : 3 * semaphore + loop.rank < 3 * s.semaphore + (s.loop t).rank) :
    3 * semaphore + tally XrLoop.rank (Function.update s.loop t loop) <
      3 * s.semaphore + tally XrLoop.rank s.loop := by
  have htally := tally_update XrLoop.rank s.loop t loop
  omega

theorem frameMove_step {op : XrSchedulerOp T W} (h : s.Holds contents place)
    (h' : s'.Holds contents' place') (hop : op.GoesOn) (hstep : XrSchedulerStep s op s') :
    FrameMove s contents s' contents' := by
  cases hstep with
  | forAny work => exact hop.elim
  | forNextFrame work front => exact hop.elim
  | forMe after work call => exact hop.elim
  | splice at_ => exact hop.elim
  | dequeue t work at_ => exact hop.elim
  | takeNext t at_ =>
      refine .loop (listsKept_of_links h h' rfl rfl) rfl rfl (tally_rank_lt ?_)
      rw [at_]
      cases s.threadNext t <;> simp [XrLoop.rank, xrTakeNext]
  | wait t at_ token =>
      refine .loop (listsKept_of_links h h' rfl rfl) rfl rfl (tally_rank_lt ?_)
      rw [at_]
      simp only [XrLoop.rank]
      omega
  | pop t at_ =>
      have hlists := listsKept_pop h at_ h'
      obtain ⟨work, rest, hlist⟩ := List.exists_cons_of_ne_nil (work_ne_nil h at_)
      have hring := h.work
      rw [hlist] at hring
      have hfirst : s.links.next (.head .work) = .of work := hring.next.1
      have hpop : xrPopSchedulerWork s t =
          { s with
            links := removeEntryList s.links (.of work)
            preferredThread := Function.update s.preferredThread work (some t)
            loop := Function.update s.loop t (.ready work) } := by
        unfold xrPopSchedulerWork
        rw [hfirst]
      rw [hpop]
      refine .loop hlists rfl rfl (tally_rank_lt ?_)
      rw [at_]
      simp [XrLoop.rank]
  | «return» t work next at_ =>
      refine .loop (listsKept_of_links h h' rfl rfl) rfl rfl (tally_rank_lt ?_)
      rw [at_]
      cases next <;> simp [XrLoop.rank, xrNextWork]
  | clearEntry work at_ =>
      have hpath := h.frame
      rw [at_] at hpath
      cases hcontents : contents .frame with
      | nil =>
          rw [hcontents] at hpath
          cases hpath
      | cons w rest =>
          rw [hcontents] at hpath
          obtain ⟨hfirst, hrest⟩ := hpath
          obtain rfl := xrEntry_of_inj _ _ hfirst
          have hlast : contents' .frame = rest :=
            h'.frame.unique hrest (xrEntry_of_ne_head _) xrEntry_of_inj
          refine .clear work _ at_ (by rw [hlast, hcontents]) ?_ rfl rfl rfl rfl
          exact nextFrame_same h h' rfl fun _ _ => rfl
  | requeue work next at_ =>
      have hentry : (XrFrame.walking next).entry = s.frame.entry := by
        rw [at_]
        rfl
      refine .requeue work next at_ (listsKept_forAny h work hentry h') ?_ rfl ?_ ?_
      · funext w
        dsimp only
        unfold xrScheduleWorkForAny
        split
        · next hin =>
            by_cases hw : w = work
            · rw [hw, Function.update_self, hin]
            · rw [Function.update_of_ne hw]
        · rfl
      · dsimp only
        unfold xrScheduleWorkForAny
        split
        · omega
        · exact Nat.le_refl _
      · dsimp only
        unfold xrScheduleWorkForAny
        split <;> rfl
  | endFrame at_ =>
      have hentry : (XrFrame.out : XrFrame W).entry = s.frame.entry := by
        rw [at_]
        rfl
      exact .endFrame at_ (listsKept_of_links h h' rfl hentry) rfl rfl rfl rfl

/-! ## Work that is pending -/

/-- It will be run before the frame ends. -/
def XrScheduler.Pending (s : XrScheduler T W) (contents : XrPlace T → List W) (w : W) : Prop :=
  s.Waits contents w ∨ s.InHand w

/-- What the frame update thread has in hand waits nowhere else. -/
def XrScheduler.Apart (s : XrScheduler T W) (contents : XrPlace T → List W) : Prop :=
  ∀ w next, s.frame = .cleared w next → ¬s.Waits contents w

omit [DecidableEq T] in
theorem FrameMove.nextFrame (hm : FrameMove s contents s' contents') :
    contents' .nextFrame = contents .nextFrame := by
  cases hm with
  | loop lists _ _ _ => exact lists.nextFrame
  | clear work next _ _ nextFrame _ _ _ _ => exact nextFrame
  | requeue work next _ lists _ _ _ _ => exact lists.nextFrame
  | endFrame _ lists _ _ _ _ => exact lists.nextFrame

omit [DecidableEq T] in
theorem FrameMove.pending (hm : FrameMove s contents s' contents') (h : s.Holds contents place)
    (w : W) : s'.Pending contents' w ↔ s.Pending contents w := by
  unfold XrScheduler.Pending XrScheduler.Waits XrScheduler.InHand
  cases hm with
  | loop lists enqueued frame _ => rw [enqueued, frame, lists.nextFrame]
  | clear work next at_ first nextFrame enqueued frame _ _ =>
      have hmem : work ∈ contents .frame := by
        rw [first]
        exact List.mem_cons_self
      have hin := h.enqueued hmem
      have hout : work ∉ contents .nextFrame :=
        fun hnext => h.disjoint (p := .frame) (q := .nextFrame) nofun hmem hnext rfl
      rw [enqueued, frame, nextFrame, at_]
      by_cases hw : w = work
      · subst hw
        simp [hin, hout]
      · simp [Function.update_of_ne hw, Ne.symm hw]
  | requeue work next at_ lists enqueued frame _ _ =>
      rw [enqueued, frame, lists.nextFrame, at_]
      by_cases hw : w = work
      · subst hw
        cases hin : s.enqueued w with
        | false => simp [h.not_mem hin]
        | true => simp
      · simp [Function.update_of_ne hw, Ne.symm hw]
  | endFrame at_ lists enqueued frame _ _ => simp [enqueued, frame, lists.nextFrame, at_]

omit [DecidableEq T] in
theorem FrameMove.apart (hm : FrameMove s contents s' contents') (hapart : s.Apart contents) :
    s'.Apart contents' := by
  intro w next hw hwaits
  unfold XrScheduler.Waits at hwaits
  cases hm with
  | loop lists enqueued frame _ =>
      rw [enqueued, lists.nextFrame] at hwaits
      exact hapart w next (frame ▸ hw) hwaits
  | clear work next' at_ first nextFrame enqueued frame _ _ =>
      rw [frame] at hw
      obtain ⟨rfl, -⟩ := XrFrame.cleared.inj hw
      rw [enqueued, Function.update_self] at hwaits
      exact Bool.false_ne_true hwaits.1
  | requeue work next' at_ lists enqueued frame _ _ =>
      rw [frame] at hw
      cases hw
  | endFrame at_ lists enqueued frame _ _ =>
      rw [frame] at hw
      cases hw

/-- Running a schedulable is the end of its waiting. -/
theorem waits_dequeue (h : s.Holds contents place) {t : T} {work : W}
    (hat : s.loop t = .ready work) (h' : (xrDequeue s t work).Holds contents' place') :
    s.Waits contents work ∧
      ∀ w, (xrDequeue s t work).Waits contents' w ↔ s.Waits contents w ∧ w ≠ work := by
  have hlists := listsKept_of_links h h' rfl rfl
  obtain ⟨rest, hlist⟩ := remaining_cons h hat
  have hmem : work ∈ contents (.remaining t) := by
    rw [hlist]
    exact List.mem_cons_self
  refine ⟨⟨h.enqueued hmem, fun hnext => h.disjoint (p := .remaining t) (q := .nextFrame) nofun
    hmem hnext rfl⟩, fun w => ?_⟩
  unfold XrScheduler.Waits
  rw [hlists.nextFrame]
  by_cases hw : w = work
  · simp [xrDequeue, hw]
  · simp [xrDequeue, hw]

theorem pending_dequeue (h : s.Holds contents place) (hapart : s.Apart contents) {t : T} {work : W}
    (hat : s.loop t = .ready work) (h' : (xrDequeue s t work).Holds contents' place') :
    (xrDequeue s t work).Apart contents' ∧
      ∀ w, (xrDequeue s t work).Pending contents' w ↔ s.Pending contents w ∧ w ≠ work := by
  obtain ⟨hwork, hwaits⟩ := waits_dequeue h hat h'
  refine ⟨fun w next hw hwaits' => hapart w next hw ((hwaits w).mp hwaits').1, fun w => ?_⟩
  unfold XrScheduler.Pending XrScheduler.InHand
  rw [hwaits]
  by_cases hw : w = work
  · subst hw
    have hnot : ∀ next, s.frame ≠ .cleared w next := fun next hc => hapart w next hc hwork
    simp [xrDequeue, hnot]
  · simp [xrDequeue, hw]

omit [DecidableEq T] in
/-- Queueing for the next frame puts off what is in hand. -/
theorem pending_forNextFrame (h : s.Holds contents place) (hapart : s.Apart contents) (work : W)
    (front : Bool) (h' : (xrScheduleWorkForNextFrame s work front).Holds contents' place') :
    (∀ w, (xrScheduleWorkForNextFrame s work front).Waits contents' w ↔ s.Waits contents w) ∧
      ∀ w, (xrScheduleWorkForNextFrame s work front).Pending contents' w ↔
        s.Pending contents w ∧ ¬(w = work ∧ s.InHand work) := by
  obtain ⟨hmem, -⟩ := mem_forNextFrame h work front h'
  have henq := enqueued_forNextFrame s work front
  have hframe : (xrScheduleWorkForNextFrame s work front).frame = s.frame := by
    unfold xrScheduleWorkForNextFrame
    split <;> rfl
  have hwaits : ∀ w, (xrScheduleWorkForNextFrame s work front).Waits contents' w ↔
      s.Waits contents w := by
    intro w
    unfold XrScheduler.Waits
    rw [henq, hmem]
    cases hin : s.enqueued work with
    | true =>
        by_cases hw : w = work
        · subst hw
          simp [hin]
        · simp [hw]
    | false =>
        by_cases hw : w = work
        · subst hw
          simp [hin]
        · simp [hw]
  refine ⟨hwaits, fun w => ?_⟩
  unfold XrScheduler.Pending
  rw [hwaits]
  unfold XrScheduler.InHand
  rw [hframe, ← Bool.not_eq_true, henq]
  by_cases hw : w = work
  · subst hw
    constructor
    · rintro (hwait | ⟨-, hno⟩)
      · exact ⟨.inl hwait, fun hhand => hapart w _ hhand.2.1.choose_spec hwait⟩
      · exact absurd (.inr rfl) hno
    · rintro ⟨hwait | hhand, hnot⟩
      · exact .inl hwait
      · exact absurd ⟨rfl, hhand⟩ hnot
  · simp [hw]

omit [DecidableEq T] [DecidableEq W] [Fintype T] in
theorem XrScheduler.Tended.congr (h : s.Tended)
    (hsame : ∀ t, s'.threadNext t ≠ none → s.threadNext t ≠ none ∧
      (s'.loop t = s.loop t ∨ (s'.loop t ≠ .waiting ∧ s'.loop t ≠ .popping))) : s'.Tended := by
  intro t ht
  obtain ⟨hold, hloop | hloop⟩ := hsame t ht
  · rw [hloop]
    exact h t hold
  · exact hloop

omit [Fintype T] in
/-- A thread goes to its wait only when nothing hangs on it. -/
theorem XrScheduler.Tended.step {op : XrSchedulerOp T W} (h : s.Tended) (hop : op.GoesOn)
    (hstep : XrSchedulerStep s op s') : s'.Tended := by
  cases hstep with
  | forAny work => exact hop.elim
  | forNextFrame work front => exact hop.elim
  | forMe after work call => exact hop.elim
  | splice at_ => exact hop.elim
  | dequeue t work at_ => exact hop.elim
  | takeNext t at_ =>
      refine h.congr fun u hu => ?_
      by_cases hut : u = t
      · subst hut
        exact absurd (Function.update_self _ _ _) hu
      · have hnext : (xrTakeNext s t).threadNext u = s.threadNext u := Function.update_of_ne hut _ _
        exact ⟨hnext ▸ hu, .inl (Function.update_of_ne hut _ _)⟩
  | wait t at_ token =>
      refine h.congr fun u hu => ⟨hu, ?_⟩
      by_cases hut : u = t
      · subst hut
        exact absurd at_ (h u hu).1
      · exact .inl (Function.update_of_ne hut _ _)
  | pop t at_ =>
      refine h.congr fun u hu => ?_
      have hnext : (xrPopSchedulerWork s t).threadNext = s.threadNext := by
        unfold xrPopSchedulerWork
        split <;> rfl
      rw [hnext] at hu
      by_cases hut : u = t
      · subst hut
        exact absurd at_ (h u hu).2
      · refine ⟨hu, .inl ?_⟩
        unfold xrPopSchedulerWork
        split <;> exact Function.update_of_ne hut _ _
  | «return» t work next at_ =>
      refine h.congr fun u hu => ⟨hu, ?_⟩
      by_cases hut : u = t
      · subst hut
        refine .inr ?_
        have hloop : (xrNextWork s u next).loop u = _ := Function.update_self _ _ _
        rw [hloop]
        cases next <;> simp
      · exact .inl (Function.update_of_ne hut _ _)
  | clearEntry work at_ => exact h.congr fun u hu => ⟨hu, .inl rfl⟩
  | requeue work next at_ =>
      have hsame : (xrScheduleWorkForAny s work).threadNext = s.threadNext ∧
          (xrScheduleWorkForAny s work).loop = s.loop := by
        unfold xrScheduleWorkForAny
        split <;> exact ⟨rfl, rfl⟩
      exact h.congr fun u hu => ⟨hsame.1 ▸ hu, .inl (congrFun hsame.2 u)⟩
  | endFrame at_ => exact h.congr fun u hu => ⟨hu, .inl rfl⟩

/-! ## The steps that are left -/

variable [Fintype W]

/-- The schedulables that wait to be run in this frame. -/
def XrScheduler.waiting (s : XrScheduler T W) (contents : XrPlace T → List W) : Finset W :=
  Finset.univ.filter fun w => s.Waits contents w

omit [DecidableEq T] [Fintype T] in
theorem mem_waiting {w : W} : w ∈ s.waiting contents ↔ s.Waits contents w := by
  simp [XrScheduler.waiting]

omit [DecidableEq T] [Fintype T] in
theorem waiting_congr (h : ∀ w, s'.Waits contents' w ↔ s.Waits contents w) :
    s'.waiting contents' = s.waiting contents := by
  ext w
  rw [mem_waiting, mem_waiting]
  exact h w

omit [DecidableEq T] [Fintype T] in
/-- One of them less. -/
theorem card_waiting_less {work : W} (hwork : s.Waits contents work)
    (h : ∀ w, s'.Waits contents' w ↔ s.Waits contents w ∧ w ≠ work) :
    (s'.waiting contents').card + 1 = (s.waiting contents).card := by
  have herase : s'.waiting contents' = (s.waiting contents).erase work := by
    ext w
    rw [mem_waiting, Finset.mem_erase, mem_waiting, h]
    exact and_comm
  rw [herase]
  exact Finset.card_erase_add_one (mem_waiting.mpr hwork)

/-- Every step that is no queueing makes this less. -/
def XrScheduler.left (s : XrScheduler T W) (contents : XrPlace T → List W) : Nat :=
  3 * (s.waiting contents).card + 5 * (contents .frame).length + 3 * s.semaphore +
    tally XrLoop.rank s.loop + s.frame.rank

omit [DecidableEq T] in
theorem FrameMove.left_lt (hm : FrameMove s contents s' contents') (h : s.Holds contents place) :
    s'.left contents' < s.left contents := by
  unfold XrScheduler.left
  cases hm with
  | loop lists enqueued frame nearer =>
      have hwaits : s'.waiting contents' = s.waiting contents :=
        waiting_congr fun w => by simp only [XrScheduler.Waits, enqueued, lists.nextFrame]
      rw [hwaits, lists.frame, frame]
      omega
  | clear work next at_ first nextFrame enqueued frame semaphore loop =>
      have hmem : work ∈ contents .frame := by
        rw [first]
        exact List.mem_cons_self
      have hwork : s.Waits contents work :=
        ⟨h.enqueued hmem, fun hnext => h.disjoint (p := .frame) (q := .nextFrame) nofun hmem
          hnext rfl⟩
      have hcard : (s'.waiting contents').card + 1 = (s.waiting contents).card := by
        refine card_waiting_less hwork fun w => ?_
        unfold XrScheduler.Waits
        rw [enqueued, nextFrame]
        by_cases hw : w = work
        · simp [hw]
        · simp [hw]
      rw [first, frame, semaphore, loop, at_]
      simp only [List.length_cons, XrFrame.rank]
      omega
  | requeue work next at_ lists enqueued frame semaphore loop =>
      have hsub : s'.waiting contents' ⊆ insert work (s.waiting contents) := by
        intro w
        rw [Finset.mem_insert, mem_waiting, mem_waiting]
        unfold XrScheduler.Waits
        rw [enqueued, lists.nextFrame]
        by_cases hw : w = work
        · simp [hw]
        · simp [hw]
      have hcard := (Finset.card_le_card hsub).trans (Finset.card_insert_le _ _)
      rw [lists.frame, frame, loop, at_]
      simp only [XrFrame.rank]
      omega
  | endFrame at_ lists enqueued frame semaphore loop =>
      have hwaits : s'.waiting contents' = s.waiting contents :=
        waiting_congr fun w => by simp only [XrScheduler.Waits, enqueued, lists.nextFrame]
      rw [hwaits, lists.frame, frame, semaphore, loop, at_]
      simp only [XrFrame.rank]
      omega

theorem left_dequeue (h : s.Holds contents place) {t : T} {work : W}
    (hat : s.loop t = .ready work) (h' : (xrDequeue s t work).Holds contents' place') :
    (xrDequeue s t work).left contents' < s.left contents := by
  have hlists := listsKept_of_links h h' rfl rfl
  obtain ⟨hwork, hwaits⟩ := waits_dequeue h hat h'
  have hcard := card_waiting_less hwork hwaits
  have htally := tally_update XrLoop.rank s.loop t (.running work (s.next work))
  rw [hat] at htally
  unfold XrScheduler.left
  rw [hlists.frame]
  simp only [XrLoop.rank] at htally
  simp only [xrDequeue] at hcard htally ⊢
  omega

/-! ## The run of a frame -/

/-- What has become of a schedulable: nothing was to be done, it is still to be run, it was run,
or it is put off. -/
inductive Account (due : Prop) (runs : Nat) (pending listed : Prop) : Prop
  | idle (due : ¬due) (runs : runs = 0) (pending : ¬pending)
  | toRun (due : due) (runs : runs = 0) (pending : pending)
  | ran (due : due) (runs : runs = 1) (pending : ¬pending)
  | putOff (due : due) (runs : runs = 0) (pending : ¬pending) (listed : listed)

/-- A run of the frame from `s₀`: each step is one less that is left, and each schedulable is
accounted for. -/
structure FrameInv (s₀ : XrScheduler T W) (contents₀ : XrPlace T → List W) (done : List W) (n : Nat)
    (s : XrScheduler T W) (contents : XrPlace T → List W) : Prop where
  holds : ∃ place, s.Holds contents place
  apart : s.Apart contents
  tended : s.Tended
  left : n + s.left contents ≤ s₀.left contents₀
  account : ∀ w, Account (s₀.Waits contents₀ w) (done.count w) (s.Pending contents w)
    (w ∈ contents .nextFrame)

end

section

variable [Fintype W] {s₀ s : XrScheduler T W} {contents₀ : XrPlace T → List W}
  {place₀ : W → XrPlace T}

theorem FrameRun.inv (h₀ : s₀.Holds contents₀ place₀)
    (hframe : ∀ w next, s₀.frame ≠ .cleared w next) (htended : s₀.Tended) {done : List W} {n : Nat} (h : FrameRun s₀ done n s) :
    ∃ contents, FrameInv s₀ contents₀ done n s contents := by
  induction h with
  | nil =>
      refine ⟨contents₀, ⟨_, h₀⟩, fun w next hw => absurd hw (hframe w next), htended,
        Nat.le_of_eq (Nat.zero_add _), fun w => ?_⟩
      have hhand : ¬s₀.InHand w := fun hw => hw.1.elim fun next hc => hframe w next hc
      by_cases hw : s₀.Waits contents₀ w
      · exact .toRun hw rfl (.inl hw)
      · exact .idle hw rfl (not_or.mpr ⟨hw, hhand⟩)
  | @queue done n s work front _ ih =>
      obtain ⟨contents, ⟨place, h⟩, hapart, htended, hleft, haccount⟩ := ih
      obtain ⟨contents', place', h', -⟩ := holds_step h (.forNextFrame work front)
      obtain ⟨hwaits, hpending⟩ := pending_forNextFrame h hapart work front h'
      obtain ⟨hmem, hlist⟩ := mem_forNextFrame h work front h'
      have hsame : (xrScheduleWorkForNextFrame s work front).frame = s.frame ∧
          (xrScheduleWorkForNextFrame s work front).loop = s.loop ∧
          (xrScheduleWorkForNextFrame s work front).threadNext = s.threadNext ∧
          (xrScheduleWorkForNextFrame s work front).semaphore = s.semaphore := by
        unfold xrScheduleWorkForNextFrame
        split <;> exact ⟨rfl, rfl, rfl, rfl⟩
      obtain ⟨hframe', hloop, hnext, hsem⟩ := hsame
      refine ⟨contents', ⟨place', h'⟩, ?_, ?_, ?_, fun w => ?_⟩
      · intro w next hw
        rw [hwaits]
        exact hapart w next (hframe' ▸ hw)
      · exact htended.congr fun t ht => ⟨hnext ▸ ht, .inl (congrFun hloop t)⟩
      · unfold XrScheduler.left at hleft ⊢
        rw [waiting_congr hwaits, hlist, hframe', hloop, hsem]
        exact hleft
      · cases haccount w with
        | idle due runs pending => exact .idle due runs fun hp => pending ((hpending w).mp hp).1
        | toRun due runs pending =>
            by_cases hhand : w = work ∧ s.InHand work
            · refine .putOff due runs (fun hp => ((hpending w).mp hp).2 hhand) ?_
              exact (hmem w).mpr (.inr ⟨hhand.1, hhand.2.2⟩)
            · exact .toRun due runs ((hpending w).mpr ⟨pending, hhand⟩)
        | ran due runs pending => exact .ran due runs fun hp => pending ((hpending w).mp hp).1
        | putOff due runs pending listed =>
            exact .putOff due runs (fun hp => pending ((hpending w).mp hp).1)
              ((hmem w).mpr (.inl listed))
  | @dequeue done n s t work _ hat ih =>
      obtain ⟨contents, ⟨place, h⟩, hapart, htended, hleft, haccount⟩ := ih
      obtain ⟨contents', place', h', -⟩ := holds_step h (.dequeue t work hat)
      obtain ⟨hapart', hpending⟩ := pending_dequeue h hapart hat h'
      have hless := left_dequeue h hat h'
      have hlists := listsKept_of_links h h' rfl rfl
      refine ⟨contents', ⟨place', h'⟩, hapart', ?_, by omega, fun w => ?_⟩
      · refine htended.congr fun u hu => ⟨hu, ?_⟩
        by_cases hut : u = t
        · subst hut
          refine .inr ?_
          have hloop : (xrDequeue s u work).loop u = _ := Function.update_self _ _ _
          rw [hloop]
          simp
        · exact .inl (Function.update_of_ne hut _ _)
      · rw [List.count_append, hlists.nextFrame]
        by_cases hw : w = work
        · subst hw
          rw [List.count_singleton_self]
          have hpend : s.Pending contents w := .inl (waits_dequeue h hat h').1
          have hgone : ¬(xrDequeue s t w).Pending contents' w :=
            fun hp => ((hpending w).mp hp).2 rfl
          cases haccount w with
          | idle due runs pending => exact absurd hpend pending
          | toRun due runs pending => exact .ran due (by omega) hgone
          | ran due runs pending => exact absurd hpend pending
          | putOff due runs pending listed => exact absurd hpend pending
        · rw [List.count_singleton, if_neg (by simpa using Ne.symm hw), Nat.add_zero]
          have hsame : (xrDequeue s t work).Pending contents' w = s.Pending contents w :=
            propext ((hpending w).trans (and_iff_left hw))
          rw [hsame]
          exact haccount w
  | @other done n s s' op _ hop hstep ih =>
      obtain ⟨contents, ⟨place, h⟩, hapart, htended, hleft, haccount⟩ := ih
      obtain ⟨contents', place', h', -⟩ := holds_step h hstep
      have hmove := frameMove_step h h' hop hstep
      have hless := hmove.left_lt h
      refine ⟨contents', ⟨place', h'⟩, hmove.apart hapart, htended.step hop hstep, by omega,
        fun w => ?_⟩
      rw [propext (hmove.pending h w), hmove.nextFrame]
      exact haccount w

omit [Fintype W] in
/-- When no thread can go on, everything that is queued is on the next-frame list. -/
theorem still_done [Nonempty T] {contents : XrPlace T → List W} {place : W → XrPlace T}
    (h : s.Holds contents place) (htended : s.Tended) (hstill : s.Still) :
    (∀ w, s.enqueued w = true → w ∈ contents .nextFrame) ∧ s.frame = .out := by
  obtain ⟨hstep, hready⟩ := hstill
  have hloop : ∀ t, s.loop t = .waiting := by
    intro t
    cases hat : s.loop t with
    | idle => exact absurd (.takeNext t hat) (hstep (.takeNext t) _ trivial)
    | waiting => rfl
    | popping => exact absurd (.pop t hat) (hstep (.pop t) _ trivial)
    | ready work => exact absurd hat (hready t work)
    | running work next =>
        exact absurd (.return t work next hat) (hstep (.return t) _ trivial)
  have hframe : s.frame = .out := by
    cases hat : s.frame with
    | out => rfl
    | walking entry =>
        have hpath := h.frame
        rw [hat] at hpath
        cases hlist : contents .frame with
        | nil =>
            rw [hlist] at hpath
            have hend : entry = .head .frame := hpath
            subst hend
            exact absurd (.endFrame hat) (hstep .endFrame _ trivial)
        | cons w rest =>
            rw [hlist] at hpath
            have hfirst : entry = .of w := hpath.1
            subst hfirst
            exact absurd (.clearEntry w hat) (hstep .clearEntry _ trivial)
    | cleared work next => exact absurd (.requeue work next hat) (hstep .requeue _ trivial)
  have hpermits := h.permits
  have htally : tally XrLoop.tokens s.loop = 0 := by
    unfold tally
    refine Finset.sum_eq_zero fun t _ => ?_
    rw [hloop t]
    rfl
  refine ⟨fun w hw => ?_, hframe⟩
  have hmem := (h.buckets.mem (place w) w).mpr ⟨hw, rfl⟩
  cases hplace : place w with
  | nextFrame =>
      rw [hplace] at hmem
      exact hmem
  | work =>
      -- There is a token for it.
      rw [hplace] at hmem
      by_cases hsem : s.semaphore = 0
      · rw [hsem, htally] at hpermits
        rw [List.eq_nil_of_length_eq_zero hpermits] at hmem
        cases hmem
      · have t : T := Classical.arbitrary T
        exact absurd (.wait t (hloop t) hsem) (hstep (.wait t) _ trivial)
  | frame =>
      have hpath := h.frame
      rw [hframe] at hpath
      rw [hplace, (hpath.nil_iff (xrEntry_of_ne_head _)).mp rfl] at hmem
      cases hmem
  | mine t =>
      have hnext : s.threadNext t = none := by
        by_contra hne
        exact (htended t hne).1 (hloop t)
      rw [hplace, ((h.mine t).nil_iff nofun).mp hnext] at hmem
      cases hmem
  | remaining t =>
      rw [hplace, remaining_nil h (by rw [hloop t]; rfl)] at hmem
      cases hmem

end

/-- How a frame ends that starts in this state: after a bounded number of steps, and once no
thread can go on, whatever waited in the frame has been run once or was put off to the next
frame, nothing else was run, and only the next-frame list has anything. -/
structure XrScheduler.FrameEnds (s : XrScheduler T W) : Prop where
  bounded : ∃ bound, ∀ done n s', FrameRun s done n s' → n ≤ bound
  complete : ∀ done n s', FrameRun s done n s' → s'.Still →
    ∀ contents place contents' place', s.Holds contents place → s'.Holds contents' place' →
      (∀ w, s'.enqueued w = true ↔ w ∈ contents' .nextFrame) ∧
      ∀ w, (s.Waits contents w ∧
          (done.count w = 1 ∨ (done.count w = 0 ∧ w ∈ contents' .nextFrame))) ∨
        (¬s.Waits contents w ∧ done.count w = 0)

/-- However the threads are interleaved, the frame comes to its end and no work of it is left
out or run twice. -/
theorem frame_ends [Fintype W] [Nonempty T] {s : XrScheduler T W} (hreach : s.Reach)
    (hframe : ∀ w next, s.frame ≠ .cleared w next) (htended : s.Tended) : s.FrameEnds := by
  obtain ⟨contents₀, place₀, h₀⟩ := holds_reach hreach
  constructor
  · refine ⟨s.left contents₀, fun done n s' hrun => ?_⟩
    obtain ⟨contents, hinv⟩ := hrun.inv h₀ hframe htended
    exact (Nat.le_add_right n _).trans hinv.left
  · intro done n s' hrun hstill contents place contents' place' h h'
    obtain rfl := h.unique h₀
    obtain ⟨contents'', hinv⟩ := hrun.inv h hframe htended
    obtain ⟨place'', h''⟩ := hinv.holds
    obtain rfl := h'.unique h''
    obtain ⟨hlisted, hout⟩ := still_done h' hinv.tended hstill
    have hpending : ∀ w, ¬s'.Pending contents' w := by
      rintro w (⟨henq, hnot⟩ | ⟨⟨next, hc⟩, -⟩)
      · exact hnot (hlisted w henq)
      · rw [hout] at hc
        cases hc
    refine ⟨fun w => ⟨hlisted w, fun hw => h'.enqueued hw⟩, fun w => ?_⟩
    cases hinv.account w with
    | idle due runs _ => exact .inr ⟨due, runs⟩
    | toRun _ _ pending => exact absurd pending (hpending w)
    | ran due runs _ => exact .inl ⟨due, .inl runs⟩
    | putOff due runs _ listed => exact .inl ⟨due, .inr ⟨runs, listed⟩⟩

/-- Two threads, with one schedulable on the work list and one on the next-frame list. -/
theorem frame_ends_two : twoQueued.FrameEnds :=
  frame_ends (((XrScheduler.Reach.init ⟨id, id⟩).step (.forAny false)).step
    (.forNextFrame true false)) (fun _ _ => nofun) fun _ h => absurd rfl h

end Xremu
