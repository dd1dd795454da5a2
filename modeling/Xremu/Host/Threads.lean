import Xremu.Devices.Serial
import Xremu.Host.SchedulerInvariant

/-!
# The schedulables on their threads

What the threads run out of the scheduler: processors, disks and serial ports. A processor
may queue a disk or a serial port behind itself, and a processor and a serial port may queue
themselves again, with `XrScheduleWorkForMe`. That function writes the `Next` of the thread
that its first argument prefers, without a lock.

What a processor executes and how long a disk takes is left open: a processor that runs may
write to any port and start any disk, and may end its run in each of its ways. The serial
ports are those of the code, with the timeslice in their schedulable, which a run reads
before it takes the mutex and writes after it has given it back. A disk's transfer passes a
null processor on, but reaches no port: its address is a multiple of 512, and of the ports
at such an address, 0x00 and 0x80, neither is there. The debugger is left out.
-/

namespace Xremu

open Concurrency Lists

inductive XrWork (P D S : Type) where
  | processor (proc : P)
  | disk (disk : D)
  | serial (port : S)
deriving DecidableEq

/-- How far a thread is in `work->Func`. -/
inductive XrBody where
  | out                          -- nothing left that touches a queue or a timeslice
  | entered
  | sliced (timeslice : Int)     -- `SerialSchedule` has read the timeslice
  | store (timeslice : Int)      -- it has given back the mutex
deriving DecidableEq

/-- Before the end of the run is decided. -/
def XrBody.active : XrBody → Bool
  | .entered => true
  | .sliced _ => true
  | _ => false

structure XrHost (T P D S : Type) where
  scheduler : XrScheduler T (XrWork P D S)
  port : S → SerialPort
  timeslice : S → Int
  body : T → XrBody

inductive XrProcessorExit where
  | nextFrame   -- the timeslice is used up
  | forMe       -- halted
  | forAny
deriving DecidableEq

inductive XrHostOp (T P D S : Type) where
  | scheduler (op : XrSchedulerOp T (XrWork P D S))
  | dequeue (t : T)
  | return (t : T)
  | splice (dt : Int)
  | serialWrite (t : T) (proc : P) (port : S) (value : Word)
  | serialCmd (t : T) (port : S) (value : Word)
  | diskStart (t : T) (proc : P) (disk : D)
  | processorEnd (t : T) (proc : P) (exit : XrProcessorExit)
  | diskEnd (t : T) (disk : D) (nextFrame : Bool)
  | serialRead (t : T) (port : S)
  | serialRun (t : T) (port : S) (timeslice : Int)
  | serialStore (t : T) (port : S) (timeslice : Int)

/-- The steps of the loop and of the frame update thread that run no schedulable and write
no timeslice. -/
def XrSchedulerOp.Plain {T W : Type} : XrSchedulerOp T W → Prop
  | .takeNext _ => True
  | .wait _ => True
  | .pop _ => True
  | .clearEntry => True
  | .requeue => True
  | .endFrame => True
  | _ => False

section

variable {T P D S : Type} [DecidableEq T] [DecidableEq P] [DecidableEq D] [DecidableEq S]

/-- The thread is in `Func` of `w`, before the end of the run is decided. -/
def XrHost.Active (s : XrHost T P D S) (t : T) (w : XrWork P D S) : Prop :=
  (∃ next, s.scheduler.loop t = .running w next) ∧ (s.body t).active = true

/-- The end of `XrProcessorSchedule`. -/
def processorExit (s : XrScheduler T (XrWork P D S)) (proc : P) :
    XrProcessorExit → Option (XrScheduler T (XrWork P D S))
  | .nextFrame => some (xrScheduleWorkForNextFrame s (.processor proc) false)
  | .forMe => xrScheduleWorkForMe s (.processor proc) (.processor proc)
  | .forAny => some (xrScheduleWorkForAny s (.processor proc))

/-- What the end of `SerialSchedule` does with the schedulable. -/
def serialQueue (s : XrScheduler T (XrWork P D S)) (port : S) :
    SerialExit → Option (XrScheduler T (XrWork P D S))
  | .nextFrame => some (xrScheduleWorkForNextFrame s (.serial port) true)
  | .forMe => xrScheduleWorkForMe s (.serial port) (.serial port)
  | .done => some s

/-- What a character that was written does with the schedulable. -/
def serialWritten (s : XrScheduler T (XrWork P D S)) (proc : P) (port : S) :
    SerialWritten → Option (XrScheduler T (XrWork P D S))
  | .stored true => xrScheduleWorkForMe s (.processor proc) (.serial port)
  | _ => some s

namespace XrHost

def setBody (s : XrHost T P D S) (t : T) (body : XrBody) : XrHost T P D S :=
  { s with body := Function.update s.body t body }

def setScheduler (s : XrHost T P D S) (scheduler : XrScheduler T (XrWork P D S)) :
    XrHost T P D S := { s with scheduler := scheduler }

def setPort (s : XrHost T P D S) (port : S) (value : SerialPort) : XrHost T P D S :=
  { s with port := Function.update s.port port value }

/-- The result of `SerialSchedule` up to the end, in a thread that has read `timeslice`. -/
def ran (s : XrHost T P D S) (port : S) (timeslice : Int) : SerialPort × Int :=
  serialRunWith (s.port port) timeslice (s.timeslice port)

def exited (s : XrHost T P D S) (port : S) (timeslice : Int) : SerialPort × SerialExit :=
  serialExit (s.ran port timeslice).1 (s.ran port timeslice).2

end XrHost

/-- A step of a thread, or of the frame update thread. With `none` the emulator has accessed
memory through a null pointer. -/
inductive XrHostStep (asynchronous : Bool) (s : XrHost T P D S) :
    XrHostOp T P D S → Option (XrHost T P D S) → Prop
  | scheduler (op : XrSchedulerOp T (XrWork P D S)) {scheduler : XrScheduler T (XrWork P D S)}
      (plain : op.Plain) (step : XrSchedulerStep s.scheduler op scheduler) :
      XrHostStep asynchronous s (.scheduler op) (some (s.setScheduler scheduler))
  | dequeue (t : T) (work : XrWork P D S) (at_ : s.scheduler.loop t = .ready work) :
      XrHostStep asynchronous s (.dequeue t)
        (some ((s.setScheduler (xrDequeue s.scheduler t work)).setBody t .entered))
  | return (t : T) (work : XrWork P D S) (next : Option (XrWork P D S))
      (at_ : s.scheduler.loop t = .running work next) (ended : s.body t = .out) :
      XrHostStep asynchronous s (.return t)
        (some (s.setScheduler (xrNextWork s.scheduler t next)))
  | splice (dt : Int) (works : List (XrWork P D S)) (at_ : s.scheduler.frame = .out)
      (list : Path .of (fun w => (xrSplice s.scheduler).links.next (.of w))
        ((xrSplice s.scheduler).links.next (.head .frame)) works (.head .frame)) :
      XrHostStep asynchronous s (.splice dt)
        (some { s with
          scheduler := xrSplice s.scheduler
          timeslice := fun port => if .serial port ∈ works then dt else s.timeslice port })
  | serialWrite (t : T) (proc : P) (port : S) (value : Word)
      (runs : s.Active t (.processor proc)) :
      XrHostStep asynchronous s (.serialWrite t proc port value)
        ((serialWritten s.scheduler proc port
            (serialWriteData asynchronous (s.port port) value).2).map fun scheduler =>
          (s.setPort port (serialWriteData asynchronous (s.port port) value).1).setScheduler
            scheduler)
  | serialCmd (t : T) (port : S) (value : Word) :
      XrHostStep asynchronous s (.serialCmd t port value)
        (some (s.setPort port (serialWriteCmd (s.port port) value)))
  | diskStart (t : T) (proc : P) (disk : D) (runs : s.Active t (.processor proc)) :
      XrHostStep asynchronous s (.diskStart t proc disk)
        ((xrScheduleWorkForMe s.scheduler (.processor proc) (.disk disk)).map s.setScheduler)
  | processorEnd (t : T) (proc : P) (exit : XrProcessorExit)
      (runs : s.Active t (.processor proc)) :
      XrHostStep asynchronous s (.processorEnd t proc exit)
        ((processorExit s.scheduler proc exit).map fun scheduler =>
          (s.setScheduler scheduler).setBody t .out)
  | diskEnd (t : T) (disk : D) (nextFrame : Bool) (runs : s.Active t (.disk disk)) :
      XrHostStep asynchronous s (.diskEnd t disk nextFrame)
        (some ((s.setScheduler
          (if nextFrame then xrScheduleWorkForNextFrame s.scheduler (.disk disk) true
            else s.scheduler)).setBody t .out))
  | serialRead (t : T) (port : S) (runs : s.Active t (.serial port))
      (at_ : s.body t = .entered) :
      XrHostStep asynchronous s (.serialRead t port)
        (some (s.setBody t (.sliced (s.timeslice port))))
  | serialRun (t : T) (port : S) (timeslice : Int) (runs : s.Active t (.serial port))
      (at_ : s.body t = .sliced timeslice) :
      XrHostStep asynchronous s (.serialRun t port timeslice)
        ((serialQueue s.scheduler port (s.exited port timeslice).2).map fun scheduler =>
          ((s.setPort port (s.exited port timeslice).1).setScheduler scheduler).setBody t
            (.store (s.ran port timeslice).2))
  | serialStore (t : T) (port : S) (timeslice : Int) (next : Option (XrWork P D S))
      (runs : s.scheduler.loop t = .running (.serial port) next)
      (at_ : s.body t = .store timeslice) :
      XrHostStep asynchronous s (.serialStore t port timeslice)
        (some ({ s with timeslice := Function.update s.timeslice port timeslice }.setBody t
          .out))

/-- The host after `XrInitializeProcessors`, which has queued the processors. -/
def startHost (links : Links (XrEntry (XrWork P D S))) (procs : List P) (number : S → Nat) :
    XrHost T P D S where
  scheduler := procs.foldl (fun s proc => xrScheduleWorkForNextFrame s (.processor proc) false)
    (xrStartScheduler links)
  port := fun port => serialInit (number port)
  timeslice := fun _ => 0
  body := fun _ => .out

/-- The states of the runs whose steps all meet `cond`. -/
inductive XrHost.Reach (asynchronous : Bool)
    (cond : XrHost T P D S → XrHostOp T P D S → Prop) : XrHost T P D S → Prop
  | init (links : Links (XrEntry (XrWork P D S))) (procs : List P) (number : S → Nat) :
      Reach asynchronous cond (startHost links procs number)
  | step {s s' : XrHost T P D S} {op : XrHostOp T P D S} (h : Reach asynchronous cond s)
      (step : XrHostStep asynchronous s op (some s')) (meets : cond s op) :
      Reach asynchronous cond s'

/-! ## Whose `Next` a step touches -/

/-- The call of `XrScheduleWorkForMe` that a step makes: the thread, `after` and `work`. -/
def XrHostOp.forMe (asynchronous : Bool) (s : XrHost T P D S) :
    XrHostOp T P D S → Option (T × XrWork P D S × XrWork P D S)
  | .serialWrite t proc port value =>
      if (serialWriteData asynchronous (s.port port) value).2 = .stored true then
        some (t, .processor proc, .serial port)
      else none
  | .diskStart t proc disk => some (t, .processor proc, .disk disk)
  | .processorEnd t proc .forMe => some (t, .processor proc, .processor proc)
  | .serialRun t port timeslice =>
      if (s.exited port timeslice).2 = .forMe then some (t, .serial port, .serial port)
      else none
  | _ => none

/-- `after->PreferredThread` is the thread that makes the call. -/
def XrHost.Finds (s : XrHost T P D S) (t : T) (after : XrWork P D S) : Prop :=
  s.scheduler.preferredThread after = some t

/-- The step reads or writes the `Next` of the thread. -/
def XrHostOp.Touches (asynchronous : Bool) (s : XrHost T P D S) (op : XrHostOp T P D S)
    (owner : T) : Prop :=
  op = .scheduler (.takeNext owner) ∨
    ∃ t after work, op.forMe asynchronous s = some (t, after, work) ∧
      s.scheduler.enqueued work = false ∧ s.scheduler.preferredThread after = some owner

/-- The thread that takes the step; the frame update thread is none of these. -/
def XrHostOp.thread : XrHostOp T P D S → Option T
  | .scheduler (.takeNext t) => some t
  | .scheduler (.wait t) => some t
  | .scheduler (.pop t) => some t
  | .dequeue t => some t
  | .return t => some t
  | .serialWrite t _ _ _ => some t
  | .serialCmd t _ _ => some t
  | .diskStart t _ _ => some t
  | .processorEnd t _ _ => some t
  | .diskEnd t _ _ => some t
  | .serialRead t _ => some t
  | .serialRun t _ _ => some t
  | .serialStore t _ _ => some t
  | _ => none

/-- No run of the port would find more than `ACCUMULATED_COST` in its timeslice. -/
def XrHost.LowTimeslice (s : XrHost T P D S) (port : S) : Prop :=
  s.timeslice port ≤ accumulatedCost ∧
    ∀ t next timeslice, s.scheduler.loop t = .running (.serial port) next →
      s.body t = .store timeslice → timeslice ≤ accumulatedCost

/-- A write that queues a serial port is made on the thread that the port prefers, or when
there is little in its timeslice. -/
def XrHost.QueuesCalmly (asynchronous : Bool) (s : XrHost T P D S) : XrHostOp T P D S → Prop
  | .serialWrite t _ port value =>
      (serialWriteData asynchronous (s.port port) value).2 = .stored true →
        s.scheduler.preferredThread (.serial port) = some t ∨ s.LowTimeslice port
  | _ => True

end

end Xremu
