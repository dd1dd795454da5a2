import Xremu.Concurrency.Tally
import Xremu.Host.Queue
import Xremu.Lists.Buckets

/-!
# The scheduler

Threads of the host run schedulables: processors, disks and serial ports. A schedulable
waits on the work list or the next-frame list, both circular lists through its `WorkEntry`,
or on a chain through its `Next`: the one that hangs on a thread, or the one that a
thread's loop still has before it. At the start of a frame the next-frame list is taken
over by a list of `XrScheduleAllNextFrameWork`, whose entries go to the work list one by one.

The steps of all threads are interleaved. A call that queues something is one step with its
test of `Enqueued`, and so is the dequeueing of a schedulable in the loop. The pointers are
those of the code. `Holds` says which schedulables each place has, from the pointers, and
that these are exactly the schedulables with `Enqueued` set, each in one place.
-/

namespace Xremu

open Concurrency Lists

/-- The heads of the circular lists; `frame` is the local one of
`XrScheduleAllNextFrameWork`. -/
inductive XrListHead where
  | work
  | nextFrame
  | frame
deriving DecidableEq

/-- What a pointer to a `ListEntry` points to. -/
inductive XrEntry (W : Type) where
  | head (list : XrListHead)
  | of (work : W)
deriving DecidableEq

/-- Where a thread is in `XrSchedulerLoop`. -/
inductive XrLoop (W : Type) where
  | idle                                   -- `work` is null
  | waiting                                -- in `XrWaitSemaphore` of `XrPopSchedulerWork`
  | popping                                -- it has taken a token
  | ready (work : W)                       -- about to dequeue `work`
  | running (work : W) (next : Option W)   -- in `work->Func`

/-- The chain that the loop still has before it. -/
def XrLoop.chain {W : Type} : XrLoop W → Option W
  | .ready work => some work
  | .running _ next => next
  | _ => none

/-- One for a thread that is past the wait and not past the pop. -/
def XrLoop.tokens {W : Type} : XrLoop W → Nat
  | .popping => 1
  | _ => 0

/-- Where the frame update thread is in `XrScheduleAllNextFrameWork`. -/
inductive XrFrame (W : Type) where
  | out
  | walking (listentry : XrEntry W)            -- at the top of the second loop
  | cleared (work : W) (next : XrEntry W)      -- before `XrScheduleWorkForAny`

/-- The next entry of the local list. -/
def XrFrame.entry {W : Type} : XrFrame W → XrEntry W
  | .out => .head .frame
  | .walking listentry => listentry
  | .cleared _ next => next

structure XrScheduler (T W : Type) where
  links : Links (XrEntry W)
  next : W → Option W
  preferredThread : W → Option T
  enqueued : W → Bool
  semaphore : Nat
  threadNext : T → Option W
  loop : T → XrLoop W
  frame : XrFrame W

section

variable {T W : Type} [DecidableEq T] [DecidableEq W]

/-- The scheduler after `XrInitializeScheduler` and `XrStartScheduler`, with initialised
schedulables. Their entries hold arbitrary pointers. -/
def xrStartScheduler (links : Links (XrEntry W)) : XrScheduler T W where
  links := initializeList (initializeList links (.head .work)) (.head .nextFrame)
  next := fun _ => none
  preferredThread := fun _ => none
  enqueued := fun _ => false
  semaphore := 0
  threadNext := fun _ => none
  loop := fun _ => .idle
  frame := .out

/-! ## Queueing -/

/-- `XrScheduleWorkForAny`. -/
def xrScheduleWorkForAny (s : XrScheduler T W) (work : W) : XrScheduler T W :=
  if s.enqueued work then s
  else
    { s with
      enqueued := Function.update s.enqueued work true
      links := insertAtTailList s.links (.head .work) (.of work)
      semaphore := s.semaphore + 1 }

/-- `XrScheduleWorkForNextFrame`. -/
def xrScheduleWorkForNextFrame (s : XrScheduler T W) (work : W) (front : Bool) :
    XrScheduler T W :=
  if s.enqueued work then s
  else
    { s with
      enqueued := Function.update s.enqueued work true
      links :=
        if front then insertAtHeadList s.links (.head .nextFrame) (.of work)
        else insertAtTailList s.links (.head .nextFrame) (.of work) }

/-- `XrScheduleWorkForMe`; `none` is the access through a null `PreferredThread`. -/
def xrScheduleWorkForMe (s : XrScheduler T W) (after work : W) : Option (XrScheduler T W) :=
  if s.enqueued work then some s
  else
    (s.preferredThread after).map fun thread =>
      { s with
        enqueued := Function.update s.enqueued work true
        next := Function.update s.next work (s.threadNext thread)
        threadNext := Function.update s.threadNext thread (some work) }

/-! ## The loop of a thread -/

/-- `work = thread->Next; thread->Next = 0`. -/
def xrTakeNext (s : XrScheduler T W) (t : T) : XrScheduler T W :=
  { s with
    threadNext := Function.update s.threadNext t none
    loop := Function.update s.loop t
      (match s.threadNext t with
        | some work => .ready work
        | none => .waiting) }

/-- The part of `XrPopSchedulerWork` under the mutex of the work list. -/
def xrPopSchedulerWork (s : XrScheduler T W) (t : T) : XrScheduler T W :=
  match s.links.next (.head .work) with
  | .head _ => { s with loop := Function.update s.loop t .waiting }
  | .of work =>
      { s with
        links := removeEntryList s.links (.of work)
        preferredThread := Function.update s.preferredThread work (some t)
        loop := Function.update s.loop t (.ready work) }

/-- `work->Enqueued = 0; next = work->Next; work->Next = 0`. -/
def xrDequeue (s : XrScheduler T W) (t : T) (work : W) : XrScheduler T W :=
  { s with
    enqueued := Function.update s.enqueued work false
    next := Function.update s.next work none
    loop := Function.update s.loop t (.running work (s.next work)) }

/-- `work = next`, after `work->Func` has returned. -/
def xrNextWork (s : XrScheduler T W) (t : T) (next : Option W) : XrScheduler T W :=
  { s with
    loop := Function.update s.loop t
      (match next with
        | some work => .ready work
        | none => .idle) }

/-! ## The start of a frame -/

/-- The pointers after the part of `XrScheduleAllNextFrameWork` under the mutex of the
next-frame list. -/
def xrSpliceLinks (l : Links (XrEntry W)) : Links (XrEntry W) :=
  let l := initializeList l (.head .frame)
  if l.next (.head .nextFrame) = .head .nextFrame then l
  else
    let l := setNext l (.head .frame) (l.next (.head .nextFrame))
    let l := setPrev l (.head .frame) (l.prev (.head .nextFrame))
    let l := setPrev l (l.next (.head .frame)) (.head .frame)
    let l := setNext l (l.prev (.head .frame)) (.head .frame)
    initializeList l (.head .nextFrame)

/-- The start of `XrScheduleAllNextFrameWork`. The loop that calls `StartTimeslice` changes
no queue. -/
def xrSplice (s : XrScheduler T W) : XrScheduler T W :=
  { s with
    links := xrSpliceLinks s.links
    frame := .walking ((xrSpliceLinks s.links).next (.head .frame)) }

/-- `next = listentry->Next; work->Enqueued = 0`. -/
def xrClearEntry (s : XrScheduler T W) (work : W) : XrScheduler T W :=
  { s with
    enqueued := Function.update s.enqueued work false
    frame := .cleared work (s.links.next (.of work)) }

/-! ## Steps -/

inductive XrSchedulerOp (T W : Type) where
  | forAny (work : W)
  | forNextFrame (work : W) (front : Bool)
  | forMe (after work : W)
  | takeNext (t : T)
  | wait (t : T)
  | pop (t : T)
  | dequeue (t : T)
  | return (t : T)
  | splice
  | clearEntry
  | requeue
  | endFrame

/-- A step. Anybody may queue any schedulable at any time. -/
inductive XrSchedulerStep (s : XrScheduler T W) : XrSchedulerOp T W → XrScheduler T W → Prop
  | forAny (work : W) : XrSchedulerStep s (.forAny work) (xrScheduleWorkForAny s work)
  | forNextFrame (work : W) (front : Bool) :
      XrSchedulerStep s (.forNextFrame work front) (xrScheduleWorkForNextFrame s work front)
  | forMe (after work : W) {s' : XrScheduler T W}
      (call : xrScheduleWorkForMe s after work = some s') :
      XrSchedulerStep s (.forMe after work) s'
  | takeNext (t : T) (at_ : s.loop t = .idle) : XrSchedulerStep s (.takeNext t) (xrTakeNext s t)
  | wait (t : T) (at_ : s.loop t = .waiting) (token : s.semaphore ≠ 0) :
      XrSchedulerStep s (.wait t)
        { s with
          semaphore := s.semaphore - 1
          loop := Function.update s.loop t .popping }
  | pop (t : T) (at_ : s.loop t = .popping) :
      XrSchedulerStep s (.pop t) (xrPopSchedulerWork s t)
  | dequeue (t : T) (work : W) (at_ : s.loop t = .ready work) :
      XrSchedulerStep s (.dequeue t) (xrDequeue s t work)
  | return (t : T) (work : W) (next : Option W) (at_ : s.loop t = .running work next) :
      XrSchedulerStep s (.return t) (xrNextWork s t next)
  | splice (at_ : s.frame = .out) : XrSchedulerStep s .splice (xrSplice s)
  | clearEntry (work : W) (at_ : s.frame = .walking (.of work)) :
      XrSchedulerStep s .clearEntry (xrClearEntry s work)
  | requeue (work : W) (next : XrEntry W) (at_ : s.frame = .cleared work next) :
      XrSchedulerStep s .requeue
        { xrScheduleWorkForAny s work with frame := .walking next }
  | endFrame (at_ : s.frame = .walking (.head .frame)) :
      XrSchedulerStep s .endFrame { s with frame := .out }

/-- The states of every interleaving. -/
inductive XrScheduler.Reach : XrScheduler T W → Prop
  | init (links : Links (XrEntry W)) : Reach (xrStartScheduler links)
  | step {s s' : XrScheduler T W} {op : XrSchedulerOp T W} (h : Reach s)
      (step : XrSchedulerStep s op s') : Reach s'

end

/-! ## What the pointers hold -/

/-- The places where a schedulable can wait. -/
inductive XrPlace (T : Type) where
  | work
  | nextFrame
  | frame
  | mine (t : T)
  | remaining (t : T)
deriving DecidableEq

variable {T W : Type} [Fintype T]

/-- `contents` is what the lists and chains have, and each enqueued schedulable is exactly
once in the list of its `place`, and no other one is in a list. The semaphore and the
threads that have taken a token from it suffice for the work list. -/
structure XrScheduler.Holds (s : XrScheduler T W) (contents : XrPlace T → List W)
    (place : W → XrPlace T) : Prop where
  buckets : Buckets contents (fun w => s.enqueued w = true) place
  work : Ring .of s.links (.head .work) (contents .work)
  nextFrame : Ring .of s.links (.head .nextFrame) (contents .nextFrame)
  frame : Path .of (fun w => s.links.next (.of w)) s.frame.entry (contents .frame)
    (.head .frame)
  mine : ∀ t, Path some s.next (s.threadNext t) (contents (.mine t)) none
  remaining : ∀ t, Path some s.next (s.loop t).chain (contents (.remaining t)) none
  unlinked : ∀ w, (∀ t, w ∉ contents (.mine t) ∧ w ∉ contents (.remaining t)) →
    s.next w = none
  permits : (contents .work).length = s.semaphore + tally XrLoop.tokens s.loop

end Xremu
