import Xremu.Host.Ownership

/-!
# Runs of the threads

In a run in which every serial port is queued calmly, each call of `XrScheduleWorkForMe`
finds the thread that makes it, and each thread touches its own `Next` only. Without that
condition a port that was left with a long timeslice, and is queued from another thread than
before, writes the `Next` of the thread it ran on before.
-/

namespace Xremu

open Concurrency Lists

section

variable {T P D S : Type} [DecidableEq T] [DecidableEq P] [DecidableEq D] [DecidableEq S]

/-! ## The start -/

/-- A scheduler whose threads have not begun, with processors in its lists only. -/
structure XrScheduler.Fresh [Fintype T] (s : XrScheduler T (XrWork P D S)) : Prop where
  reach : s.Reach
  threadNext : ∀ t, s.threadNext t = none
  loop : ∀ t, s.loop t = .idle
  frame : s.frame = .out
  serial : ∀ port, s.enqueued (.serial port) = false

variable [Fintype T]

theorem XrScheduler.Fresh.forNextFrame {s : XrScheduler T (XrWork P D S)} (h : s.Fresh)
    (proc : P) : (xrScheduleWorkForNextFrame s (.processor proc) false).Fresh := by
  have hqueues := queues_forNextFrame s (.processor proc) false
  refine ⟨h.reach.step (.forNextFrame _ false), fun t => ?_, fun t => ?_, ?_, fun port => ?_⟩
  · rw [← h.threadNext t]
    unfold xrScheduleWorkForNextFrame
    split <;> rfl
  · rw [hqueues.loop]
    exact h.loop t
  · rw [hqueues.frame]
    exact h.frame
  · have hiff := hqueues.enqueued (.serial port)
    rw [h.serial] at hiff
    rw [Bool.eq_false_iff]
    intro henq
    rcases hiff.mp henq with hold | hwork
    · cases hold
    · cases hwork

theorem startHost_fresh (links : Links (XrEntry (XrWork P D S))) (procs : List P)
    (number : S → Nat) : (startHost links procs number : XrHost T P D S).scheduler.Fresh := by
  have hstart : (xrStartScheduler links : XrScheduler T (XrWork P D S)).Fresh :=
    ⟨.init links, fun _ => rfl, fun _ => rfl, rfl, fun _ => rfl⟩
  show (procs.foldl (fun s proc => xrScheduleWorkForNextFrame s (.processor proc) false)
    (xrStartScheduler links)).Fresh
  generalize (xrStartScheduler links : XrScheduler T (XrWork P D S)) = s at hstart
  induction procs generalizing s with
  | nil => exact hstart
  | cons proc procs ih => exact ih _ (hstart.forNextFrame proc)

namespace XrHost

variable {asynchronous : Bool} {s s' : XrHost T P D S} {op : XrHostOp T P D S}

/-- What holds in every state of such a run. -/
structure Law (s : XrHost T P D S) (contents : XrPlace T → List (XrWork P D S))
    (place : XrWork P D S → XrPlace T) : Prop where
  holds : s.scheduler.Holds contents place
  ordered : s.Ordered
  owned : s.Owned contents

theorem law_start (links : Links (XrEntry (XrWork P D S))) (procs : List P) (number : S → Nat) :
    ∃ contents place, (startHost links procs number : XrHost T P D S).Law contents place := by
  have hfresh := startHost_fresh (T := T) links procs number
  obtain ⟨contents, place, holds⟩ := holds_reach hfresh.reach
  have hidle : ∀ t w, ¬ (startHost links procs number : XrHost T P D S).Active t w := by
    rintro t w ⟨⟨next, hloop⟩, -⟩
    rw [hfresh.loop t] at hloop
    cases hloop
  have htally : ∀ w : XrWork P D S,
      tally (activeAt w) (startHost links procs number : XrHost T P D S).places = 0 := by
    intro w
    refine Finset.sum_eq_zero fun t _ => ?_
    unfold places
    rw [hfresh.loop t]
    rfl
  have htokens : ∀ w : XrWork P D S, (startHost links procs number : XrHost T P D S).tokens w =
      ((startHost links procs number : XrHost T P D S).scheduler.enqueued w).toNat := by
    intro w
    unfold tokens
    rw [htally, hfresh.frame]
    rfl
  refine ⟨contents, place, holds, ⟨fun proc => ?_, fun port => ?_, fun port => ?_⟩, ?_, ?_, ?_⟩
  · rw [htokens]
    exact Bool.toNat_le _
  · rw [htokens, hfresh.serial]
    rfl
  · exact SerialPort.Sends.init _
  · rintro t w (hmine | hremaining)
    · have hempty := ((holds.mine t).nil_iff nofun).mp (hfresh.threadNext t)
      rw [hempty] at hmine
      cases hmine
    · have hempty := remaining_nil holds (t := t) (by rw [hfresh.loop t]; rfl)
      rw [hempty] at hremaining
      cases hremaining
  · exact fun t w hactive => absurd hactive (hidle t w)
  · exact fun t port _ hactive => absurd hactive (hidle t _)

theorem law_step {contents : XrPlace T → List (XrWork P D S)} {place : XrWork P D S → XrPlace T}
    (h : s.Law contents place) (hstep : XrHostStep asynchronous s op (some s'))
    (hmeets : s.QueuesCalmly asynchronous op) :
    ∃ contents' place', s'.Law contents' place' := by
  obtain ⟨contents', place', holds', howned'⟩ :=
    owned_step h.holds h.ordered h.owned hstep hmeets
  exact ⟨contents', place', holds', ordered_step h.ordered h.holds hstep, howned'⟩

theorem law_reach (hreach : Reach asynchronous (QueuesCalmly asynchronous) s) :
    ∃ contents place, s.Law contents place := by
  induction hreach with
  | init links procs number => exact law_start links procs number
  | step _ hstep hmeets ih =>
      obtain ⟨contents, place, h⟩ := ih
      exact law_step h hstep hmeets

/-! ## Each thread touches its own `Next` -/

/-- A step whose calls find the thread that makes them, on which the emulator lives, and
which touches the `Next` of no other thread. -/
structure KeepsNext (asynchronous : Bool) (s : XrHost T P D S) (op : XrHostOp T P D S)
    (r : Option (XrHost T P D S)) : Prop where
  finds : ∀ t after work, op.forMe asynchronous s = some (t, after, work) → s.Finds t after
  lives : r ≠ none
  own : ∀ owner, op.Touches asynchronous s owner → op.thread = some owner

omit [Fintype T] in
theorem Finds.lives {t : T} {after : XrWork P D S} (h : s.Finds t after)
    (work : XrWork P D S) : xrScheduleWorkForMe s.scheduler after work ≠ none := by
  unfold Finds at h
  unfold xrScheduleWorkForMe
  cases henq : s.scheduler.enqueued work with
  | true => simp
  | false => simp [h]

omit [Fintype T] [DecidableEq T] [DecidableEq P] [DecidableEq D] [DecidableEq S] in
theorem forMe_thread {t : T} {after work : XrWork P D S}
    (hcall : op.forMe asynchronous s = some (t, after, work)) : op.thread = some t := by
  rcases forMe_cases hcall with ⟨proc, port, value, rfl, -⟩ | ⟨proc, disk, rfl, -⟩ |
    ⟨-, ⟨proc, rfl, -⟩ | ⟨port, timeslice, rfl, -⟩⟩ <;> rfl

omit [Fintype T] in
/-- A step accesses memory through a null pointer only in a call. -/
theorem lives_of_finds {r : Option (XrHost T P D S)} (hstep : XrHostStep asynchronous s op r)
    (hfinds : ∀ t after work, op.forMe asynchronous s = some (t, after, work) →
      s.Finds t after) : r ≠ none := by
  cases hstep with
  | scheduler sop plain step => exact nofun
  | dequeue t work at_ => exact nofun
  | «return» t work next at_ ended => exact nofun
  | splice dt works at_ list => exact nofun
  | serialWrite t proc port value runs =>
      rw [Ne, Option.map_eq_none_iff]
      intro hnone
      by_cases hstored : (serialWriteData asynchronous (s.port port) value).2 = .stored true
      · rw [hstored] at hnone
        exact (hfinds t _ _ (if_pos hstored)).lives _ hnone
      · cases hwritten : (serialWriteData asynchronous (s.port port) value).2 with
        | put =>
            rw [hwritten] at hnone
            cases hnone
        | discarded =>
            rw [hwritten] at hnone
            cases hnone
        | stored again =>
            cases again with
            | true => exact hstored hwritten
            | false =>
                rw [hwritten] at hnone
                cases hnone
  | serialCmd t port value => exact nofun
  | diskStart t proc disk runs =>
      rw [Ne, Option.map_eq_none_iff]
      exact (hfinds t _ _ rfl).lives _
  | processorEnd t proc exit runs =>
      rw [Ne, Option.map_eq_none_iff]
      cases exit with
      | nextFrame => exact nofun
      | forAny => exact nofun
      | forMe => exact (hfinds t _ _ rfl).lives _
  | diskEnd t disk nextFrame runs => exact nofun
  | serialRead t port runs at_ => exact nofun
  | serialRun t port timeslice runs at_ =>
      rw [Ne, Option.map_eq_none_iff]
      cases hexit : (s.exited port timeslice).2 with
      | nextFrame => exact nofun
      | done => exact nofun
      | forMe => exact (hfinds t _ _ (if_pos hexit)).lives _
  | serialStore t port timeslice next runs at_ => exact nofun

/-- In every run in which the serial ports are queued calmly, each call of
`XrScheduleWorkForMe` finds the thread that makes it, and each thread touches its own `Next`
only. -/
theorem schedule_for_me_owned (hreach : Reach asynchronous (QueuesCalmly asynchronous) s)
    {r : Option (XrHost T P D S)} (hstep : XrHostStep asynchronous s op r)
    (hmeets : s.QueuesCalmly asynchronous op) : KeepsNext asynchronous s op r := by
  obtain ⟨contents, place, h⟩ := law_reach hreach
  have hfinds : ∀ t after work, op.forMe asynchronous s = some (t, after, work) →
      s.Finds t after := fun t after work hcall => finds_step h.owned hstep hcall
  refine ⟨hfinds, lives_of_finds hstep hfinds, ?_⟩
  rintro owner (rfl | ⟨t, after, work, hcall, -, hprefers⟩)
  · rfl
  · have hfound : s.Finds t after := hfinds t after work hcall
    have ht : t = owner := Option.some.inj (hfound.symm.trans hprefers)
    rw [forMe_thread hcall, ht]

/-! ## Executable steps -/

/-- The entries of the local list from one on, at most `n`. -/
def entries (l : Links (XrEntry (XrWork P D S))) :
    Nat → XrEntry (XrWork P D S) → Option (List (XrWork P D S))
  | _, .head .frame => some []
  | n + 1, .of w => (entries l n (l.next (.of w))).map (w :: ·)
  | _, _ => none

omit [Fintype T] [DecidableEq P] [DecidableEq D] [DecidableEq S] in
theorem entries_path {l : Links (XrEntry (XrWork P D S))} {n : Nat}
    {entry : XrEntry (XrWork P D S)} {works : List (XrWork P D S)}
    (h : entries l n entry = some works) :
    Path .of (fun w => l.next (.of w)) entry works (.head .frame) := by
  induction n generalizing entry works with
  | zero =>
      cases entry with
      | of w => cases h
      | head list =>
          cases list with
          | frame =>
              cases h
              rfl
          | _ => cases h
  | succ n ih =>
      cases entry with
      | of w =>
          obtain ⟨rest, hrest, rfl⟩ := Option.map_eq_some_iff.mp h
          exact ⟨rfl, ih hrest⟩
      | head list =>
          cases list with
          | frame =>
              cases h
              rfl
          | _ => cases h

def plainNext (s : XrScheduler T (XrWork P D S)) :
    XrSchedulerOp T (XrWork P D S) → Option (XrScheduler T (XrWork P D S))
  | .takeNext t =>
      match s.loop t with
      | .idle => some (xrTakeNext s t)
      | _ => none
  | .wait t =>
      match s.loop t with
      | .waiting =>
          if s.semaphore = 0 then none
          else
            some { s with
              semaphore := s.semaphore - 1
              loop := Function.update s.loop t .popping }
      | _ => none
  | .pop t =>
      match s.loop t with
      | .popping => some (xrPopSchedulerWork s t)
      | _ => none
  | .clearEntry =>
      match s.frame with
      | .walking (.of work) => some (xrClearEntry s work)
      | _ => none
  | .requeue =>
      match s.frame with
      | .cleared work next => some { xrScheduleWorkForAny s work with frame := .walking next }
      | _ => none
  | .endFrame =>
      match s.frame with
      | .walking (.head .frame) => some { s with frame := .out }
      | _ => none
  | _ => none

omit [Fintype T] in
theorem plainNext_step {sched sched' : XrScheduler T (XrWork P D S)}
    {step : XrSchedulerOp T (XrWork P D S)} (h : plainNext sched step = some sched') :
    step.Plain ∧ XrSchedulerStep sched step sched' := by
  unfold plainNext at h
  split at h
  · split at h
    · cases h
      exact ⟨trivial, .takeNext _ ‹_›⟩
    · cases h
  · split at h
    · by_cases hsemaphore : sched.semaphore = 0
      · rw [if_pos hsemaphore] at h
        cases h
      · rw [if_neg hsemaphore] at h
        cases h
        exact ⟨trivial, .wait _ ‹_› hsemaphore⟩
    · cases h
  · split at h
    · cases h
      exact ⟨trivial, .pop _ ‹_›⟩
    · cases h
  · split at h
    · cases h
      exact ⟨trivial, .clearEntry _ ‹_›⟩
    · cases h
  · split at h
    · cases h
      exact ⟨trivial, .requeue _ _ ‹_›⟩
    · cases h
  · split at h
    · cases h
      exact ⟨trivial, .endFrame ‹_›⟩
    · cases h
  · cases h

/-- Whether the thread is active in `w`. -/
def runs (s : XrHost T P D S) (t : T) (w : XrWork P D S) : Bool :=
  match s.scheduler.loop t with
  | .running work _ => decide (work = w) && (s.body t).active
  | _ => false

omit [Fintype T] [DecidableEq T] in
theorem active_of_runs {t : T} {w : XrWork P D S} (h : s.runs t w = true) : s.Active t w := by
  unfold runs at h
  split at h
  · rename_i work next hloop
    rw [Bool.and_eq_true, decide_eq_true_eq] at h
    exact ⟨⟨next, by rw [← h.1]; exact hloop⟩, h.2⟩
  · cases h

/-- The state after a step, for the steps that a processor makes in its own name and those
of the serial ports and the scheduler; a local list may have `n` entries. -/
def next (asynchronous : Bool) (n : Nat) (s : XrHost T P D S) :
    XrHostOp T P D S → Option (XrHost T P D S)
  | .scheduler op => (plainNext s.scheduler op).map s.setScheduler
  | .dequeue t =>
      match s.scheduler.loop t with
      | .ready work =>
          some ((s.setScheduler (xrDequeue s.scheduler t work)).setBody t .entered)
      | _ => none
  | .return t =>
      match s.scheduler.loop t with
      | .running _ next =>
          if s.body t = .out then some (s.setScheduler (xrNextWork s.scheduler t next)) else none
      | _ => none
  | .splice dt =>
      match s.scheduler.frame with
      | .out =>
          (entries (xrSplice s.scheduler).links n
              ((xrSplice s.scheduler).links.next (.head .frame))).map fun works =>
            { s with
              scheduler := xrSplice s.scheduler
              timeslice := fun port => if .serial port ∈ works then dt else s.timeslice port }
      | _ => none
  | .serialWrite t proc port value =>
      if s.runs t (.processor proc) then
        (serialWritten s.scheduler proc port
            (serialWriteData asynchronous (s.port port) value).2).map fun scheduler =>
          (s.setPort port (serialWriteData asynchronous (s.port port) value).1).setScheduler
            scheduler
      else none
  | .diskStart t proc disk =>
      if s.runs t (.processor proc) then
        (xrScheduleWorkForMe s.scheduler (.processor proc) (.disk disk)).map s.setScheduler
      else none
  | .processorEnd t proc exit =>
      if s.runs t (.processor proc) then
        (processorExit s.scheduler proc exit).map fun scheduler =>
          (s.setScheduler scheduler).setBody t .out
      else none
  | .serialRead t port =>
      if s.runs t (.serial port) ∧ s.body t = .entered then
        some (s.setBody t (.sliced (s.timeslice port)))
      else none
  | .serialRun t port timeslice =>
      if s.runs t (.serial port) ∧ s.body t = .sliced timeslice then
        (serialQueue s.scheduler port (s.exited port timeslice).2).map fun scheduler =>
          ((s.setPort port (s.exited port timeslice).1).setScheduler scheduler).setBody t
            (.store (s.ran port timeslice).2)
      else none
  | .serialStore t port timeslice =>
      match s.scheduler.loop t with
      | .running work _ =>
          if work = .serial port ∧ s.body t = .store timeslice then
            some ({ s with timeslice := Function.update s.timeslice port timeslice }.setBody t
              .out)
          else none
      | _ => none
  | _ => none

omit [Fintype T] in
theorem next_step {n : Nat} (h : s.next asynchronous n op = some s') :
    XrHostStep asynchronous s op (some s') := by
  unfold next at h
  split at h
  · obtain ⟨sched, hsched, rfl⟩ := Option.map_eq_some_iff.mp h
    obtain ⟨hplain, hstep⟩ := plainNext_step hsched
    exact .scheduler _ hplain hstep
  · split at h
    · cases h
      exact .dequeue _ _ ‹_›
    · cases h
  · rename_i t
    split at h
    · by_cases hended : s.body t = .out
      · rw [if_pos hended] at h
        cases h
        exact .return t _ _ ‹_› hended
      · rw [if_neg hended] at h
        cases h
    · cases h
  · rename_i dt
    split at h
    · obtain ⟨works, hworks, rfl⟩ := Option.map_eq_some_iff.mp h
      exact .splice dt works ‹_› (entries_path hworks)
    · cases h
  · rename_i t proc port value
    by_cases hruns : s.runs t (.processor proc) = true
    · rw [if_pos hruns] at h
      rw [← h]
      exact .serialWrite t proc port value (active_of_runs hruns)
    · rw [if_neg hruns] at h
      cases h
  · rename_i t proc disk
    by_cases hruns : s.runs t (.processor proc) = true
    · rw [if_pos hruns] at h
      rw [← h]
      exact .diskStart t proc disk (active_of_runs hruns)
    · rw [if_neg hruns] at h
      cases h
  · rename_i t proc exit
    by_cases hruns : s.runs t (.processor proc) = true
    · rw [if_pos hruns] at h
      rw [← h]
      exact .processorEnd t proc exit (active_of_runs hruns)
    · rw [if_neg hruns] at h
      cases h
  · rename_i t port
    by_cases hruns : s.runs t (.serial port) = true ∧ s.body t = .entered
    · rw [if_pos hruns] at h
      cases h
      exact .serialRead t port (active_of_runs hruns.1) hruns.2
    · rw [if_neg hruns] at h
      cases h
  · rename_i t port timeslice
    by_cases hruns : s.runs t (.serial port) = true ∧ s.body t = .sliced timeslice
    · rw [if_pos hruns] at h
      rw [← h]
      exact .serialRun t port timeslice (active_of_runs hruns.1) hruns.2
    · rw [if_neg hruns] at h
      cases h
  · rename_i t port timeslice
    split at h
    · rename_i work next hloop
      by_cases hstore : work = .serial port ∧ s.body t = .store timeslice
      · rw [if_pos hstore] at h
        cases h
        rw [hstore.1] at hloop
        exact .serialStore t port timeslice next hloop hstore.2
      · rw [if_neg hstore] at h
        cases h
    · cases h
  · cases h

/-- The timeslice that the run of a port has yet to store is a short one. -/
def lowStore : XrBody → Bool
  | .store timeslice => decide (timeslice ≤ accumulatedCost)
  | _ => true

/-- A check that is enough for a port to be queued calmly. -/
def calm (asynchronous : Bool) (s : XrHost T P D S) : XrHostOp T P D S → Bool
  | .serialWrite t _ port value =>
      decide ((serialWriteData asynchronous (s.port port) value).2 ≠ .stored true) ||
        decide (s.scheduler.preferredThread (.serial port) = some t) ||
        (decide (s.timeslice port ≤ accumulatedCost) && decide (∀ u, lowStore (s.body u) = true))
  | _ => true

omit [DecidableEq P] [DecidableEq D] [DecidableEq S] in
theorem queuesCalmly_of_calm (h : calm asynchronous s op = true) :
    s.QueuesCalmly asynchronous op := by
  cases op with
  | serialWrite t proc port value =>
      intro hstored
      simp only [calm, hstored, ne_eq, not_true_eq_false, decide_false, Bool.false_or,
        Bool.or_eq_true, Bool.and_eq_true, decide_eq_true_eq] at h
      rcases h with hprefers | ⟨htime, hstores⟩
      · exact Or.inl hprefers
      · refine Or.inr ⟨htime, fun u next timeslice _ hbody => ?_⟩
        have hlow := hstores u
        rw [hbody] at hlow
        exact of_decide_eq_true hlow
  | _ => trivial

/-- The state after a run whose steps all pass the check. -/
def run (asynchronous : Bool) (check : XrHost T P D S → XrHostOp T P D S → Bool) (n : Nat) :
    List (XrHostOp T P D S) → XrHost T P D S → Option (XrHost T P D S)
  | [], s => some s
  | op :: ops, s =>
      if check s op then (s.next asynchronous n op).bind (run asynchronous check n ops) else none

omit [Fintype T] in
theorem run_reach {cond : XrHost T P D S → XrHostOp T P D S → Prop}
    {check : XrHost T P D S → XrHostOp T P D S → Bool} {n : Nat}
    {ops : List (XrHostOp T P D S)} (hs : Reach asynchronous cond s)
    (hcheck : ∀ r op, check r op = true → cond r op)
    (hrun : run asynchronous check n ops s = some s') : Reach asynchronous cond s' := by
  induction ops generalizing s with
  | nil =>
      cases hrun
      exact hs
  | cons op ops ih =>
      unfold run at hrun
      split at hrun
      · rename_i hop
        obtain ⟨r, hr, hrest⟩ := Option.bind_eq_some_iff.mp hrun
        exact ih (hs.step (next_step hr) (hcheck s op hop)) hrest
      · cases hrun

end XrHost

end

/-! ## A port that is queued from another thread -/

/-- Two threads, two processors, a disk and a port. -/
abbrev TwoThreads := XrHost Bool Bool Unit Unit

def twoThreads : TwoThreads := startHost ⟨id, id⟩ [false, true] fun _ => 0

def requeueOne : List (XrHostOp Bool Bool Unit Unit) :=
  [.scheduler .clearEntry, .scheduler .requeue]

/-- The thread takes what comes first in the work list. -/
def takeWork (t : Bool) : List (XrHostOp Bool Bool Unit Unit) :=
  [.scheduler (.takeNext t), .scheduler (.wait t), .scheduler (.pop t), .dequeue t]

/-- A frame starts, in which each thread takes a processor, and the second one is done. -/
def processorsTaken : List (XrHostOp Bool Bool Unit Unit) :=
  [.splice 200] ++ requeueOne ++ requeueOne ++ [.scheduler .endFrame] ++ takeWork false ++
    takeWork true ++ [.processorEnd true true .nextFrame, .return true]

/-- The processor writes enough to queue the port, and ends its run. -/
def portQueued (t : Bool) : List (XrHostOp Bool Bool Unit Unit) :=
  List.replicate 51 (.serialWrite t t () 0x41) ++
    [.processorEnd t t .nextFrame, .return t, .scheduler (.takeNext t), .dequeue t]

/-- The port runs, finds a timeslice and leaves another. -/
def portRuns (t : Bool) (found left : Int) : List (XrHostOp Bool Bool Unit Unit) :=
  [.serialRead t (), .serialRun t () found, .serialStore t () left, .return t]

/-- A frame of 200 ms, in which the first thread takes the port and the second one its
processor. -/
def longFrame : List (XrHostOp Bool Bool Unit Unit) :=
  [.splice 200] ++ requeueOne ++ requeueOne ++ requeueOne ++ [.scheduler .endFrame] ++
    takeWork false ++ portRuns false 200 150 ++ [.scheduler (.takeNext false), .dequeue false] ++
    portRuns false 150 149 ++ takeWork true

/-- The state after `ops`, which are checked. -/
def twoThreadsAfter (check : TwoThreads → XrHostOp Bool Bool Unit Unit → Bool)
    (ops : List (XrHostOp Bool Bool Unit Unit)) : TwoThreads :=
  (XrHost.run true check 3 ops twoThreads).getD twoThreads

theorem twoThreadsAfter_reach {cond : TwoThreads → XrHostOp Bool Bool Unit Unit → Prop}
    {check : TwoThreads → XrHostOp Bool Bool Unit Unit → Bool}
    {ops : List (XrHostOp Bool Bool Unit Unit)}
    (hcheck : ∀ s op, check s op = true → cond s op)
    (hsome : (XrHost.run true check 3 ops twoThreads).isSome = true) :
    XrHost.Reach true cond (twoThreadsAfter check ops) := by
  obtain ⟨s, hs⟩ := Option.isSome_iff_exists.mp hsome
  have hrun : XrHost.run true check 3 ops twoThreads = some (twoThreadsAfter check ops) := by
    unfold twoThreadsAfter
    rw [hs, Option.getD_some]
  exact XrHost.run_reach (.init ⟨id, id⟩ [false, true] fun _ => 0) hcheck hrun

/-- The state before the first processor writes the character that queues the port. -/
def writing : TwoThreads :=
  twoThreadsAfter (XrHost.calm true)
    (processorsTaken ++ List.replicate 50 (.serialWrite false false () 0x41))

/-- The state before the port, with a character to send and 200 ms, queues itself. -/
def sending : TwoThreads :=
  twoThreadsAfter (XrHost.calm true)
    (processorsTaken ++ portQueued false ++ portRuns false 0 0 ++ [.splice 200] ++ requeueOne ++
      requeueOne ++ requeueOne ++ [.scheduler .endFrame] ++ takeWork false ++
      [.serialRead false ()])

set_option maxRecDepth 20000 in
/-- The processor queues the port on the thread that it runs on, and the port, which that
thread takes in the next frame, queues itself there. -/
theorem schedule_for_me_owned_port :
    (writing.runs false (.processor false) = true ∧
      XrHostOp.forMe true writing (.serialWrite false false () 0x41) =
        some (false, .processor false, .serial ()) ∧
      ∃ r, XrHost.KeepsNext true writing (.serialWrite false false () 0x41) r) ∧
    XrHostOp.forMe true sending (.serialRun false () 200) =
        some (false, .serial (), .serial ()) ∧
      ∃ r, XrHost.KeepsNext true sending (.serialRun false () 200) r := by
  have hwriting : XrHost.Reach true (XrHost.QueuesCalmly true) writing :=
    twoThreadsAfter_reach (fun _ _ => XrHost.queuesCalmly_of_calm) (by decide)
  have hsending : XrHost.Reach true (XrHost.QueuesCalmly true) sending :=
    twoThreadsAfter_reach (fun _ _ => XrHost.queuesCalmly_of_calm) (by decide)
  have hproc : writing.runs false (.processor false) = true := by decide
  have hport : sending.runs false (.serial ()) = true := by decide
  refine ⟨⟨hproc, by decide, ?_⟩, by decide, ?_⟩
  · exact ⟨_, XrHost.schedule_for_me_owned hwriting
      (.serialWrite false false () 0x41 (XrHost.active_of_runs hproc))
      (XrHost.queuesCalmly_of_calm (by decide))⟩
  · exact ⟨_, XrHost.schedule_for_me_owned hsending
      (.serialRun false () 200 (XrHost.active_of_runs hport) (by decide)) trivial⟩

/-- The state in which the port is about to queue itself from the second thread. -/
def moved : TwoThreads :=
  twoThreadsAfter (fun _ _ => true)
    (processorsTaken ++ portQueued false ++ portRuns false 0 0 ++ longFrame ++ portQueued true ++
      [.serialRead true ()])

set_option maxRecDepth 20000 in
/-- The second thread runs the port, which prefers the first one, and queues it behind
itself. -/
theorem port_takes_other_thread :
    XrHost.Reach true (fun _ _ => True) moved ∧
      (∃ r, XrHostStep true moved (.serialRun true () 149) r) ∧
      XrHostOp.forMe true moved (.serialRun true () 149) =
        some (true, .serial (), .serial ()) ∧
      ¬ moved.Finds true (.serial ()) ∧
      XrHostOp.Touches true moved (.serialRun true () 149) false := by
  have hfirst : moved.scheduler.preferredThread (.serial ()) = some false := by decide
  have hcall : XrHostOp.forMe true moved (.serialRun true () 149) =
      some (true, .serial (), .serial ()) := by decide
  refine ⟨twoThreadsAfter_reach (fun _ _ _ => trivial) (by decide), ?_, hcall, ?_, ?_⟩
  · have hruns : moved.runs true (.serial ()) = true := by decide
    exact ⟨_, .serialRun true () 149 (XrHost.active_of_runs hruns) (by decide)⟩
  · intro hfinds
    have hsecond : moved.scheduler.preferredThread (.serial ()) = some true := hfinds
    rw [hfirst] at hsecond
    cases hsecond
  · exact Or.inr ⟨true, .serial (), .serial (), hcall, by decide, hfirst⟩

end Xremu
