import Xremu.Host.Tokens

/-!
# Whose `Next` a thread touches

`XrScheduleWorkForMe` is to be called on the thread that its first argument prefers. A
schedulable prefers the thread that last took it from the work list, so this could fail for
one that reached a thread on its chain: a serial port that was queued behind a processor.
It does not queue itself while the time it is charged for exceeds its timeslice.

`Ordered` is the law of the tokens: at most one for a processor, and one for a serial port
exactly when the port says it is enqueued. `Owned` is the law for the chains and the runs.
-/

namespace Xremu

open Concurrency Lists

section

variable {T P D S : Type} [DecidableEq T] [DecidableEq P] [DecidableEq D] [DecidableEq S]

/-- The schedulables that are queued once only: a disk may be started again before its run
has ended. -/
def XrWork.Single : XrWork P D S → Prop
  | .disk _ => False
  | _ => True

namespace XrHost

variable [Fintype T] {asynchronous : Bool} {s s' : XrHost T P D S} {op : XrHostOp T P D S}
  {w : XrWork P D S}

structure Ordered (s : XrHost T P D S) : Prop where
  processor : ∀ proc, s.tokens (.processor proc) ≤ 1
  serial : ∀ port, s.tokens (.serial port) = (s.port port).enqueued.toNat
  sends : ∀ port, (s.port port).Sends

omit [DecidableEq T] in
theorem Ordered.le_one (h : s.Ordered) (hw : w.Single) : s.tokens w ≤ 1 := by
  cases w with
  | processor proc => exact h.processor proc
  | disk disk => exact hw.elim
  | serial port =>
      rw [h.serial]
      exact Bool.toNat_le _

omit [DecidableEq T] in
/-- A step that keeps the tokens and what the ports say. -/
theorem Ordered.keep (h : s.Ordered)
    (htokens : ∀ w : XrWork P D S, w.Single → s.tokens w ≤ 1 → s'.tokens w = s.tokens w)
    (henqueued : ∀ port, (s'.port port).enqueued = (s.port port).enqueued)
    (hsends : ∀ port, (s'.port port).Sends) : s'.Ordered := by
  refine ⟨fun proc => ?_, fun port => ?_, hsends⟩
  · rw [htokens (.processor proc) trivial (h.processor proc)]
    exact h.processor proc
  · have hone : s.tokens (.serial port) ≤ 1 := h.le_one trivial
    rw [htokens (.serial port) trivial hone, h.serial, henqueued]

omit [DecidableEq T] in
theorem serial_enqueued (h : s.Ordered) {t : T} {port : S} (hactive : s.Active t (.serial port)) :
    (s.port port).enqueued = true := by
  have hpos := hactive.tally_pos
  have htokens := h.serial port
  unfold tokens at htokens
  cases henq : (s.port port).enqueued with
  | true => rfl
  | false =>
      rw [henq, Bool.toNat_false] at htokens
      omega

omit [DecidableEq T] in
theorem serial_idle (h : s.Ordered) {port : S} (hout : (s.port port).enqueued = false) :
    s.scheduler.enqueued (.serial port) = false ∧ s.tokens (.serial port) = 0 := by
  have htokens := h.serial port
  rw [hout, Bool.toNat_false] at htokens
  refine ⟨?_, htokens⟩
  unfold tokens at htokens
  cases henq : s.scheduler.enqueued (.serial port) with
  | false => rfl
  | true =>
      rw [henq, Bool.toNat_true] at htokens
      omega

variable {contents : XrPlace T → List (XrWork P D S)} {place : XrWork P D S → XrPlace T}

/-- What a write does to the tokens: it gives one to a port that it queues. -/
theorem ordered_write (h : s.Ordered) {port : S} {value : Word}
    {proc : P} {sched' : XrScheduler T (XrWork P D S)}
    (hcall : serialWritten s.scheduler proc port
      (serialWriteData asynchronous (s.port port) value).2 = some sched') :
    ((s.setPort port (serialWriteData asynchronous (s.port port) value).1).setScheduler
      sched').Ordered := by
  have hsends : ∀ q, (Function.update s.port port
      (serialWriteData asynchronous (s.port port) value).1 q).Sends := by
    intro q
    by_cases hq : q = port
    · subst hq
      rw [Function.update_self]
      exact (h.sends q).write value
    · rw [Function.update_of_ne hq]
      exact h.sends q
  rcases serialWritten_cases hcall with ⟨hkept, rfl⟩ | ⟨hstored, hcall⟩
  · refine h.keep (fun _ _ _ => rfl) (fun q => ?_) hsends
    show (Function.update s.port port _ q).enqueued = _
    by_cases hq : q = port
    · subst hq
      rw [Function.update_self, serialWriteData_enqueued, decide_eq_false hkept, Bool.or_false]
    · rw [Function.update_of_ne hq]
  · -- The port was not enqueued, so nothing was on its way.
    have hidle := serialWriteData_stored hstored
    obtain ⟨hout, hzero⟩ := serial_idle h hidle
    have htokens := fun w => tokens_queue
      (r := (s.setPort port (serialWriteData asynchronous (s.port port) value).1).setScheduler
        sched') (queues_forMe hcall) rfl w
    refine ⟨fun p => ?_, fun q => ?_, hsends⟩
    · rw [htokens, if_neg (fun hboth => by cases hboth.1)]
      exact h.processor p
    · rw [htokens]
      show _ = (Function.update s.port port _ q).enqueued.toNat
      by_cases hq : q = port
      · subst hq
        rw [Function.update_self, if_pos ⟨rfl, hout⟩, hzero, serialWriteData_enqueued,
          decide_eq_true hstored, Bool.or_true]
        rfl
      · have hne : (XrWork.serial q : XrWork P D S) ≠ .serial port :=
          fun heq => hq (XrWork.serial.inj heq)
        rw [Function.update_of_ne hq, if_neg (fun hboth => hne hboth.1), h.serial]
        rfl

/-- What the end of `SerialSchedule` does to the tokens: a port that is done has none. -/
theorem ordered_run (h : s.Ordered) {t : T} {port : S} {timeslice : Int}
    (hactive : s.Active t (.serial port)) {sched' : XrScheduler T (XrWork P D S)}
    (hexit : serialQueue s.scheduler port (s.exited port timeslice).2 = some sched') :
    (((s.setPort port (s.exited port timeslice).1).setScheduler sched').setBody t
      (.store (s.ran port timeslice).2)).Ordered := by
  have henq := serial_enqueued h hactive
  have hrun := (serialExit_cases (s.ran port timeslice).2
    ((serialRunWith_enqueued (s.port port) timeslice (s.timeslice port)).trans henq)).1
  have hsends : ∀ q, (Function.update s.port port (s.exited port timeslice).1 q).Sends := by
    intro q
    by_cases hq : q = port
    · subst hq
      rw [Function.update_self]
      exact (h.sends q).run henq timeslice _
    · rw [Function.update_of_ne hq]
      exact h.sends q
  by_cases hdone : (s.exited port timeslice).2 = .done
  · rw [hdone] at hexit
    cases hexit
    have htokens := fun w => tokens_done (s := s)
      (r := ((s.setPort port (s.exited port timeslice).1).setScheduler s.scheduler).setBody t
        (.store (s.ran port timeslice).2)) (b := .store (s.ran port timeslice).2) rfl rfl rfl
      hactive w
    refine ⟨fun p => ?_, fun q => ?_, hsends⟩
    · rw [htokens]
      have hle := h.processor p
      omega
    · rw [htokens, h.serial]
      show _ = (Function.update s.port port _ q).enqueued.toNat
      by_cases hq : q = port
      · subst hq
        have hout : (s.exited q timeslice).1.enqueued = false := by
          refine hrun.trans ?_
          exact decide_eq_false fun hne => hne hdone
        rw [Function.update_self, if_pos rfl, henq, hout]
        rfl
      · have hne : (XrWork.serial q : XrWork P D S) ≠ .serial port :=
          fun heq => hq (XrWork.serial.inj heq)
        rw [Function.update_of_ne hq, if_neg hne]
        rfl
  · have hone : s.tokens (.serial port) ≤ 1 := h.le_one trivial
    refine h.keep (fun w _ _ => ?_) (fun q => ?_) hsends
    · exact tokens_requeue (queues_serialQueue hexit hdone) rfl rfl hactive hone w
    · show (Function.update s.port port _ q).enqueued = _
      by_cases hq : q = port
      · subst hq
        rw [Function.update_self, henq]
        refine hrun.trans ?_
        exact decide_eq_true hdone
      · rw [Function.update_of_ne hq]

theorem ordered_step (h : s.Ordered) (holds : s.scheduler.Holds contents place)
    (hstep : XrHostStep asynchronous s op (some s')) : s'.Ordered := by
  generalize hr : some s' = r at hstep
  cases hstep with
  | scheduler sop plain step =>
      cases hr
      exact h.keep (fun w _ hone => tokens_plain holds plain step hone) (fun _ => rfl) h.sends
  | dequeue t work at_ =>
      cases hr
      exact h.keep (fun w _ _ => tokens_dequeue holds at_) (fun _ => rfl) h.sends
  | «return» t work next at_ ended =>
      cases hr
      exact h.keep (fun w _ _ => tokens_return ended) (fun _ => rfl) h.sends
  | splice dt works at_ list =>
      cases hr
      exact h.keep (fun w _ _ => tokens_splice at_) (fun _ => rfl) h.sends
  | serialWrite t proc port value runs =>
      obtain ⟨sched', hcall, rfl⟩ := Option.map_eq_some_iff.mp hr.symm
      exact ordered_write h hcall
  | serialCmd t port value =>
      cases hr
      obtain ⟨doInterrupts, heq⟩ := serialWriteCmd_eq (s.port port) value
      refine h.keep (fun _ _ _ => rfl) (fun q => ?_) fun q => ?_
      · show (Function.update s.port port _ q).enqueued = _
        by_cases hq : q = port
        · subst hq
          rw [Function.update_self, heq]
        · rw [Function.update_of_ne hq]
      · show (Function.update s.port port _ q).Sends
        by_cases hq : q = port
        · subst hq
          rw [Function.update_self]
          exact (h.sends q).writeCmd value
        · rw [Function.update_of_ne hq]
          exact h.sends q
  | diskStart t proc disk runs =>
      obtain ⟨sched', hcall, rfl⟩ := Option.map_eq_some_iff.mp hr.symm
      refine h.keep (fun w hw _ => ?_) (fun _ => rfl) h.sends
      have hne : w ≠ .disk disk := by
        rintro rfl
        exact hw
      rw [tokens_queue (r := s.setScheduler sched') (queues_forMe hcall) rfl w,
        if_neg (fun hboth => hne hboth.1), Nat.add_zero]
  | processorEnd t proc exit runs =>
      obtain ⟨sched', hexit, rfl⟩ := Option.map_eq_some_iff.mp hr.symm
      refine h.keep (fun w _ _ => ?_) (fun _ => rfl) h.sends
      exact tokens_requeue (queues_processorExit hexit) rfl rfl runs (h.processor proc) w
  | diskEnd t disk nextFrame runs =>
      cases hr
      refine h.keep (fun w hw _ => ?_) (fun _ => rfl) h.sends
      have hne : w ≠ .disk disk := by
        rintro rfl
        exact hw
      have hdone := tokens_done (s := s) (r := s.setBody t .out) (b := .out) rfl rfl rfl runs w
      rw [if_neg hne, Nat.sub_zero] at hdone
      cases nextFrame with
      | false => exact hdone
      | true =>
          have hqueue := tokens_queue (s := s.setBody t .out)
            (r := (s.setScheduler (xrScheduleWorkForNextFrame s.scheduler (.disk disk)
              true)).setBody t .out)
            (queues_forNextFrame s.scheduler (.disk disk) true) rfl w
          rw [if_neg (fun hboth => hne hboth.1), Nat.add_zero] at hqueue
          exact hqueue.trans hdone
  | serialRead t port runs at_ =>
      cases hr
      refine h.keep (fun w _ _ => ?_) (fun _ => rfl) h.sends
      have htally := tally_places (s := s)
        (r := s.setBody t (.sliced (s.timeslice port))) (activeAt w)
        (l := s.scheduler.loop t) (by rw [Function.update_eq_self]; rfl) rfl
      have hsame : activeAt w (s.places t) =
          activeAt w (s.scheduler.loop t, .sliced (s.timeslice port)) := by
        unfold places
        rw [at_]
        cases s.scheduler.loop t <;> rfl
      unfold tokens
      show (s.scheduler.enqueued w).toNat + clearedAt w s.scheduler.frame + _ = _
      omega
  | serialRun t port timeslice runs at_ =>
      obtain ⟨sched', hexit, rfl⟩ := Option.map_eq_some_iff.mp hr.symm
      exact ordered_run h runs hexit
  | serialStore t port timeslice next runs at_ =>
      cases hr
      refine h.keep (fun w _ _ => ?_) (fun _ => rfl) h.sends
      have htally := tally_places (s := s)
        (r := { s with timeslice := Function.update s.timeslice port timeslice }.setBody t
          .out) (activeAt w) (l := s.scheduler.loop t) (by rw [Function.update_eq_self]; rfl) rfl
      have hbefore : activeAt w (s.places t) = 0 := by
        unfold places
        rw [at_]
        exact activeAt_inactive (b := .store timeslice) _ rfl
      rw [hbefore, activeAt_inactive (b := .out) _ rfl] at htally
      unfold tokens
      show (s.scheduler.enqueued w).toNat + clearedAt w s.scheduler.frame + _ = _
      omega

/-! ## Whose chain a schedulable is on -/

/-- The thread may run the schedulable: it is the one that the schedulable prefers, or the
schedulable is a serial port that will not queue itself behind itself. -/
def Fine (s : XrHost T P D S) (t : T) : XrWork P D S → Prop
  | .processor proc => s.scheduler.preferredThread (.processor proc) = some t
  | .disk _ => True
  | .serial port => s.scheduler.preferredThread (.serial port) = some t ∨
      (accumulatedCost ≤ (s.port port).cost ∧ s.LowTimeslice port)

structure Owned (s : XrHost T P D S) (contents : XrPlace T → List (XrWork P D S)) : Prop where
  chain : ∀ t w, OnChain contents t w → s.Fine t w
  active : ∀ t w, s.Active t w → s.Fine t w
  sliced : ∀ t port timeslice, s.Active t (.serial port) → s.body t = .sliced timeslice →
    s.scheduler.preferredThread (.serial port) = some t ∨ timeslice ≤ accumulatedCost

omit [Fintype T] [DecidableEq T] [DecidableEq P] [DecidableEq D] [DecidableEq S] in
theorem Fine.of_prefers {t : T} (h : s.scheduler.preferredThread w = some t) : s.Fine t w := by
  cases w with
  | processor proc => exact h
  | disk disk => trivial
  | serial port => exact Or.inl h

/-- A step that leaves the thread that `w` prefers, takes no time off a port's account and
gives it no long timeslice. -/
structure Spares (s r : XrHost T P D S) (w : XrWork P D S) : Prop where
  preferredThread : r.scheduler.preferredThread w = s.scheduler.preferredThread w
  cost : ∀ port, w = .serial port → (s.port port).cost ≤ (r.port port).cost
  low : ∀ port, w = .serial port → s.LowTimeslice port → r.LowTimeslice port

omit [Fintype T] [DecidableEq T] [DecidableEq P] [DecidableEq D] [DecidableEq S] in
theorem Fine.spares {r : XrHost T P D S} {t : T} (h : s.Fine t w) (hspares : Spares s r w) :
    r.Fine t w := by
  cases w with
  | processor proc => exact hspares.preferredThread.trans h
  | disk disk => trivial
  | serial port =>
      rcases h with hprefers | ⟨hcost, hlow⟩
      · exact Or.inl (hspares.preferredThread.trans hprefers)
      · exact Or.inr ⟨le_trans hcost (hspares.cost port rfl), hspares.low port rfl hlow⟩

omit [Fintype T] [DecidableEq T] [DecidableEq P] [DecidableEq D] [DecidableEq S] in
/-- No thread gets a timeslice to store. -/
theorem LowTimeslice.keep {r : XrHost T P D S} {port : S} (h : s.LowTimeslice port)
    (htime : r.timeslice port = s.timeslice port)
    (hstore : ∀ t next timeslice, r.scheduler.loop t = .running (.serial port) next →
      r.body t = .store timeslice → s.scheduler.loop t = .running (.serial port) next ∧
        s.body t = .store timeslice) : r.LowTimeslice port := by
  refine ⟨?_, fun t next timeslice hloop hbody => ?_⟩
  · rw [htime]
    exact h.1
  · obtain ⟨hloop', hbody'⟩ := hstore t next timeslice hloop hbody
    exact h.2 t next timeslice hloop' hbody'

omit [Fintype T] [DecidableEq P] [DecidableEq D] [DecidableEq S] in
/-- A thread leaves `SerialSchedule`, or has not come to its end. -/
theorem LowTimeslice.setBody {port : S} (h : s.LowTimeslice port) (t : T) {b : XrBody}
    (hb : ∀ timeslice, b ≠ .store timeslice) : (s.setBody t b).LowTimeslice port := by
  refine h.keep rfl fun u next timeslice hloop hbody => ⟨hloop, ?_⟩
  change Function.update s.body t b u = _ at hbody
  by_cases hu : u = t
  · subst hu
    rw [Function.update_self] at hbody
    exact absurd hbody (hb timeslice)
  · rwa [Function.update_of_ne hu] at hbody

omit [Fintype T] [DecidableEq P] [DecidableEq D] [DecidableEq S] in
theorem spares_setBody (t : T) {b : XrBody} (hb : ∀ timeslice, b ≠ .store timeslice) :
    Spares s (s.setBody t b) w :=
  ⟨rfl, fun _ _ => le_refl _, fun _ _ hlow => hlow.setBody t hb⟩

omit [Fintype T] [DecidableEq P] [DecidableEq D] [DecidableEq S] in
theorem Spares.setBody {r : XrHost T P D S} (h : Spares s r w) (t : T) {b : XrBody}
    (hb : ∀ timeslice, b ≠ .store timeslice) : Spares s (r.setBody t b) w :=
  ⟨h.preferredThread, h.cost, fun port hport hlow => (h.low port hport hlow).setBody t hb⟩

omit [Fintype T] [DecidableEq T] [DecidableEq P] [DecidableEq D] [DecidableEq S] in
theorem spares_queues {sched' : XrScheduler T (XrWork P D S)} {work : XrWork P D S}
    (h : s.scheduler.Queues sched' work) : Spares s (s.setScheduler sched') w := by
  refine ⟨by rw [← h.preferredThread]; rfl, fun _ _ => le_refl _, fun port _ hlow => ?_⟩
  refine hlow.keep rfl fun u next timeslice hloop hbody => ⟨?_, hbody⟩
  rw [← h.loop]
  exact hloop

omit [Fintype T] [DecidableEq T] [DecidableEq P] [DecidableEq D] in
/-- A port's fields change, and its cost does not go down. -/
theorem spares_setPort {port : S} {value : SerialPort} (hcost : (s.port port).cost ≤ value.cost) :
    Spares s (s.setPort port value) w := by
  refine ⟨rfl, fun q _ => ?_, fun _ _ hlow => hlow⟩
  show (s.port q).cost ≤ (Function.update s.port port value q).cost
  by_cases hq : q = port
  · subst hq
    rw [Function.update_self]
    exact hcost
  · rw [Function.update_of_ne hq]

omit [Fintype T] [DecidableEq T] [DecidableEq P] [DecidableEq D] [DecidableEq S] in
theorem Spares.trans {r q : XrHost T P D S} (h : Spares s r w) (h' : Spares r q w) :
    Spares s q w :=
  ⟨h'.preferredThread.trans h.preferredThread,
    fun port hport => le_trans (h.cost port hport) (h'.cost port hport),
    fun port hport hlow => h'.low port hport (h.low port hport hlow)⟩

/-- Only the pop changes the preferred thread, of the first entry of the work list. -/
theorem preferredThread_plain {sched sched' : XrScheduler T (XrWork P D S)}
    (h : sched.Holds contents place) {step : XrSchedulerOp T (XrWork P D S)}
    (hplain : step.Plain) (hstep : XrSchedulerStep sched step sched') (hw : w ∉ contents .work) :
    sched'.preferredThread w = sched.preferredThread w := by
  cases hstep with
  | forAny work => exact hplain.elim
  | forNextFrame work front => exact hplain.elim
  | forMe after work call => exact hplain.elim
  | takeNext t at_ => rfl
  | wait t at_ token => rfl
  | pop t at_ =>
      unfold xrPopSchedulerWork
      cases hfirst : sched.links.next (.head .work) with
      | head list => rfl
      | of work =>
          refine Function.update_of_ne ?_ _ _
          rintro rfl
          refine hw ?_
          have hpath := h.work.next
          rw [hfirst] at hpath
          cases hcontents : contents .work with
          | nil =>
              rw [hcontents] at hpath
              cases hpath
          | cons v rest =>
              rw [hcontents] at hpath
              rw [xrEntry_of_inj _ _ hpath.1]
              exact List.mem_cons_self
  | dequeue t work at_ => exact hplain.elim
  | «return» t work next at_ => exact hplain.elim
  | splice at_ => exact hplain.elim
  | clearEntry work at_ => rfl
  | requeue work next at_ => rw [← (queues_forAny sched work).preferredThread]
  | endFrame at_ => rfl

omit [Fintype T] in
/-- A thread that runs a schedulable ran it before. -/
theorem running_plain {sched sched' : XrScheduler T (XrWork P D S)}
    {step : XrSchedulerOp T (XrWork P D S)} (hplain : step.Plain)
    (hstep : XrSchedulerStep sched step sched') {u : T} {next : Option (XrWork P D S)}
    (hloop : sched'.loop u = .running w next) : sched.loop u = .running w next := by
  rcases loop_plain hplain hstep with hsame | ⟨t, l, hupdate, -, hafter⟩
  · rw [← hsame]
    exact hloop
  · rw [hupdate] at hloop
    by_cases hu : u = t
    · subst hu
      rw [Function.update_self] at hloop
      exact absurd hloop (hafter _ _)
    · rwa [Function.update_of_ne hu] at hloop

theorem spares_plain (h : s.scheduler.Holds contents place)
    {sched' : XrScheduler T (XrWork P D S)} {step : XrSchedulerOp T (XrWork P D S)}
    (hplain : step.Plain) (hstep : XrSchedulerStep s.scheduler step sched')
    (hw : w ∉ contents .work) : Spares s (s.setScheduler sched') w := by
  refine ⟨preferredThread_plain h hplain hstep hw, fun _ _ => le_refl _, fun port _ hlow => ?_⟩
  exact hlow.keep rfl fun u next timeslice hloop hbody =>
    ⟨running_plain hplain hstep hloop, hbody⟩

/-- A schedulable that is on no list that others work on is spared by each step but its own
run. -/
theorem spares_step (h : s.scheduler.Holds contents place) (hwork : w ∉ contents .work)
    (hnext : w ∉ contents .nextFrame) (hstep : XrHostStep asynchronous s op (some s'))
    (hrun : ∀ t port timeslice, op = .serialRun t port timeslice → w ≠ .serial port) :
    Spares s s' w := by
  generalize hr : some s' = r at hstep
  cases hstep with
  | scheduler sop plain step =>
      cases hr
      exact spares_plain h plain step hwork
  | dequeue t work at_ =>
      cases hr
      refine ⟨rfl, fun _ _ => le_refl _, fun port _ hlow => ?_⟩
      refine hlow.keep rfl fun u next timeslice hloop hbody => ?_
      change Function.update s.scheduler.loop t _ u = _ at hloop
      change Function.update s.body t .entered u = _ at hbody
      by_cases hu : u = t
      · subst hu
        rw [Function.update_self] at hbody
        cases hbody
      · rw [Function.update_of_ne hu] at hloop hbody
        exact ⟨hloop, hbody⟩
  | «return» t work next at_ ended =>
      cases hr
      refine ⟨rfl, fun _ _ => le_refl _, fun port _ hlow => ?_⟩
      refine hlow.keep rfl fun u next' timeslice hloop hbody => ⟨?_, hbody⟩
      change Function.update s.scheduler.loop t _ u = _ at hloop
      by_cases hu : u = t
      · subst hu
        rw [Function.update_self] at hloop
        cases next <;> cases hloop
      · rwa [Function.update_of_ne hu] at hloop
  | splice dt works at_ list =>
      cases hr
      refine ⟨rfl, fun _ _ => le_refl _, fun port hport hlow => ?_⟩
      refine hlow.keep ?_ fun u next timeslice hloop hbody => ⟨hloop, hbody⟩
      -- The local list has the entries of the next-frame list.
      have hworks : works = contents .nextFrame :=
        list.unique (path_xrSpliceLinks h.nextFrame (h.buckets.nodup _)) (xrEntry_of_ne_head _)
          xrEntry_of_inj
      refine if_neg ?_
      rw [hworks, ← hport]
      exact hnext
  | serialWrite t proc port value runs =>
      obtain ⟨sched', hcall, rfl⟩ := Option.map_eq_some_iff.mp hr.symm
      have hport := spares_setPort (s := s) (w := w)
        (serialWriteData_cost asynchronous (s.port port) value)
      rcases serialWritten_cases hcall with ⟨-, rfl⟩ | ⟨-, hcall⟩
      · exact hport
      · exact hport.trans (spares_queues (queues_forMe hcall))
  | serialCmd t port value =>
      cases hr
      obtain ⟨doInterrupts, heq⟩ := serialWriteCmd_eq (s.port port) value
      rw [heq]
      exact spares_setPort (le_refl _)
  | diskStart t proc disk runs =>
      obtain ⟨sched', hcall, rfl⟩ := Option.map_eq_some_iff.mp hr.symm
      exact spares_queues (queues_forMe hcall)
  | processorEnd t proc exit runs =>
      obtain ⟨sched', hexit, rfl⟩ := Option.map_eq_some_iff.mp hr.symm
      exact (spares_queues (queues_processorExit hexit)).setBody t fun _ => nofun
  | diskEnd t disk nextFrame runs =>
      cases hr
      cases nextFrame with
      | false => exact spares_setBody t fun _ => nofun
      | true =>
          exact (spares_queues (queues_forNextFrame s.scheduler _ true)).setBody t fun _ => nofun
  | serialRead t port runs at_ =>
      cases hr
      exact spares_setBody t fun _ => nofun
  | serialRun t port timeslice runs at_ =>
      obtain ⟨sched', hexit, rfl⟩ := Option.map_eq_some_iff.mp hr.symm
      have hne : w ≠ .serial port := hrun t port timeslice rfl
      have hqueues : sched' = s.scheduler ∨ s.scheduler.Queues sched' (.serial port) := by
        by_cases hdone : (s.exited port timeslice).2 = .done
        · rw [hdone] at hexit
          cases hexit
          exact Or.inl rfl
        · exact Or.inr (queues_serialQueue hexit hdone)
      have hsched : sched'.preferredThread = s.scheduler.preferredThread ∧
          sched'.loop = s.scheduler.loop := by
        rcases hqueues with rfl | hqueues
        · exact ⟨rfl, rfl⟩
        · exact ⟨hqueues.preferredThread, hqueues.loop⟩
      refine ⟨?_, fun q hq => ?_, fun q hq hlow => ?_⟩
      · show sched'.preferredThread w = _
        rw [hsched.1]
      · show _ ≤ (Function.update s.port port _ q).cost
        rw [Function.update_of_ne (by rintro rfl; exact hne hq)]
      · -- The thread that is to store a timeslice stores it for another port.
        refine hlow.keep rfl fun u next timeslice' hloop hbody => ?_
        change sched'.loop u = _ at hloop
        change Function.update s.body t _ u = _ at hbody
        rw [hsched.2] at hloop
        by_cases hu : u = t
        · subst hu
          obtain ⟨⟨next', hruns⟩, -⟩ := runs
          rw [hruns] at hloop
          injection hloop with heq
          rw [hq] at hne
          exact absurd heq.symm hne
        · rw [Function.update_of_ne hu] at hbody
          exact ⟨hloop, hbody⟩
  | serialStore t port timeslice next runs at_ =>
      cases hr
      refine ⟨rfl, fun _ _ => le_refl _, fun q _ hlow => ?_⟩
      have htime : Function.update s.timeslice port timeslice q ≤ accumulatedCost := by
        by_cases hq : q = port
        · subst hq
          rw [Function.update_self]
          exact hlow.2 t next timeslice runs at_
        · rw [Function.update_of_ne hq]
          exact hlow.1
      have hstored : LowTimeslice
          { s with timeslice := Function.update s.timeslice port timeslice } q :=
        ⟨htime, hlow.2⟩
      exact hstored.setBody t fun _ => nofun

omit [Fintype T] [DecidableEq P] [DecidableEq D] [DecidableEq S] in
/-- A thread that is active after another body was set for a thread was active before, unless
it is that thread. -/
theorem active_setBody {t u : T} {b : XrBody} (h : (s.setBody t b).Active u w) :
    (u ≠ t ∧ s.Active u w) ∨ (u = t ∧ b.active = true ∧
      ∃ next, s.scheduler.loop u = .running w next) := by
  obtain ⟨⟨next, hloop⟩, hbody⟩ := h
  change (Function.update s.body t b u).active = true at hbody
  by_cases hu : u = t
  · subst hu
    rw [Function.update_self] at hbody
    exact Or.inr ⟨rfl, hbody, next, hloop⟩
  · rw [Function.update_of_ne hu] at hbody
    exact Or.inl ⟨hu, ⟨next, hloop⟩, hbody⟩

omit [Fintype T] [DecidableEq P] [DecidableEq D] [DecidableEq S] in
theorem active_ended {t u : T} {b : XrBody} (hb : b.active = false)
    (h : (s.setBody t b).Active u w) : u ≠ t ∧ s.Active u w := by
  rcases active_setBody h with hother | ⟨-, hactive, -⟩
  · exact hother
  · rw [hb] at hactive
    cases hactive

omit [Fintype T] [DecidableEq T] [DecidableEq P] [DecidableEq D] [DecidableEq S] in
theorem active_loop {sched' : XrScheduler T (XrWork P D S)} {u : T}
    (hloop : sched'.loop = s.scheduler.loop) (h : (s.setScheduler sched').Active u w) :
    s.Active u w := by
  obtain ⟨⟨next, hruns⟩, hbody⟩ := h
  refine ⟨⟨next, ?_⟩, hbody⟩
  rw [← hloop]
  exact hruns

omit [Fintype T] in
/-- A thread comes to run a schedulable by dequeueing it. -/
theorem active_step {u : T} (hstep : XrHostStep asynchronous s op (some s'))
    (h : s'.Active u w) :
    s.Active u w ∨ (op = .dequeue u ∧ s.scheduler.loop u = .ready w) := by
  generalize hr : some s' = r at hstep
  cases hstep with
  | scheduler sop plain step =>
      cases hr
      obtain ⟨⟨next, hloop⟩, hbody⟩ := h
      exact Or.inl ⟨⟨next, running_plain plain step hloop⟩, hbody⟩
  | dequeue t work at_ =>
      cases hr
      have hloop' : ∀ v, v ≠ t → (xrDequeue s.scheduler t work).loop v = s.scheduler.loop v :=
        fun v hv => Function.update_of_ne hv _ _
      rcases active_setBody h with ⟨hu, ⟨next, hloop⟩, hbody⟩ | ⟨rfl, -, next, hloop⟩
      · refine Or.inl ⟨⟨next, ?_⟩, hbody⟩
        rw [← hloop' u hu]
        exact hloop
      · refine Or.inr ⟨rfl, ?_⟩
        change Function.update s.scheduler.loop u _ u = _ at hloop
        rw [Function.update_self] at hloop
        injection hloop with hwork
        rw [← hwork]
        exact at_
  | «return» t work next at_ ended =>
      cases hr
      obtain ⟨⟨next', hloop⟩, hbody⟩ := h
      change Function.update s.scheduler.loop t _ u = _ at hloop
      by_cases hu : u = t
      · subst hu
        rw [Function.update_self] at hloop
        cases next <;> cases hloop
      · rw [Function.update_of_ne hu] at hloop
        exact Or.inl ⟨⟨next', hloop⟩, hbody⟩
  | splice dt works at_ list =>
      cases hr
      exact Or.inl h
  | serialWrite t proc port value runs =>
      obtain ⟨sched', hcall, rfl⟩ := Option.map_eq_some_iff.mp hr.symm
      rcases serialWritten_cases hcall with ⟨-, rfl⟩ | ⟨-, hcall⟩
      · exact Or.inl h
      · exact Or.inl (active_loop (queues_forMe hcall).loop h)
  | serialCmd t port value =>
      cases hr
      exact Or.inl h
  | diskStart t proc disk runs =>
      obtain ⟨sched', hcall, rfl⟩ := Option.map_eq_some_iff.mp hr.symm
      exact Or.inl (active_loop (queues_forMe hcall).loop h)
  | processorEnd t proc exit runs =>
      obtain ⟨sched', hexit, rfl⟩ := Option.map_eq_some_iff.mp hr.symm
      exact Or.inl (active_loop (queues_processorExit hexit).loop
        (active_ended (b := .out) rfl h).2)
  | diskEnd t disk nextFrame runs =>
      cases hr
      have hactive := (active_ended (b := .out) rfl h).2
      cases nextFrame with
      | false => exact Or.inl hactive
      | true =>
          exact Or.inl (active_loop (queues_forNextFrame s.scheduler _ true).loop hactive)
  | serialRead t port runs at_ =>
      cases hr
      rcases active_setBody h with ⟨-, hactive⟩ | ⟨rfl, -, hloop⟩
      · exact Or.inl hactive
      · refine Or.inl ⟨hloop, ?_⟩
        rw [at_]
        rfl
  | serialRun t port timeslice runs at_ =>
      obtain ⟨sched', hexit, rfl⟩ := Option.map_eq_some_iff.mp hr.symm
      have hactive := (active_ended (b := .store (s.ran port timeslice).2) rfl h).2
      by_cases hdone : (s.exited port timeslice).2 = .done
      · rw [hdone] at hexit
        cases hexit
        exact Or.inl hactive
      · exact Or.inl (active_loop (queues_serialQueue hexit hdone).loop hactive)
  | serialStore t port timeslice next runs at_ =>
      cases hr
      exact Or.inl (active_ended (b := .out) rfl h).2

/-- A run of a port that has come to its end is the only one. -/
theorem run_ends (h : s.Ordered) {t u : T} {port : S} {timeslice : Int}
    (hstep : XrHostStep asynchronous s (.serialRun t port timeslice) (some s')) :
    ¬ s'.Active u (.serial port) := by
  intro hactive
  generalize hr : some s' = r at hstep
  cases hstep with
  | serialRun t port timeslice runs at_ =>
      obtain ⟨sched', hexit, rfl⟩ := Option.map_eq_some_iff.mp hr.symm
      obtain ⟨hne, hrest⟩ := active_ended (b := .store (s.ran port timeslice).2) rfl hactive
      have hone : s.tokens (.serial port) ≤ 1 := h.le_one trivial
      have hbefore : s.Active u (.serial port) := by
        by_cases hdone : (s.exited port timeslice).2 = .done
        · rw [hdone] at hexit
          cases hexit
          exact hrest
        · exact active_loop (queues_serialQueue hexit hdone).loop hrest
      exact hne (hbefore.unique runs hone)

omit [Fintype T] in
/-- A thread reads the timeslice in one step. -/
theorem sliced_step {u : T} {timeslice : Int} (hstep : XrHostStep asynchronous s op (some s'))
    (h : s'.body u = .sliced timeslice) :
    (s.body u = .sliced timeslice ∧ op ≠ .dequeue u) ∨
      ∃ port, op = .serialRead u port ∧ s.Active u (.serial port) ∧
        timeslice = s.timeslice port := by
  -- The body of a thread that is set to something else is not this one.
  have hset : ∀ {t : T} {b : XrBody}, Function.update s.body t b u = .sliced timeslice →
      (u ≠ t ∧ s.body u = .sliced timeslice) ∨ (u = t ∧ b = .sliced timeslice) := by
    intro t b hbody
    by_cases hu : u = t
    · subst hu
      rw [Function.update_self] at hbody
      exact Or.inr ⟨rfl, hbody⟩
    · rw [Function.update_of_ne hu] at hbody
      exact Or.inl ⟨hu, hbody⟩
  generalize hr : some s' = r at hstep
  cases hstep with
  | scheduler sop plain step =>
      cases hr
      exact Or.inl ⟨h, nofun⟩
  | dequeue t work at_ =>
      cases hr
      rcases hset h with ⟨hne, hbody⟩ | ⟨-, hbody⟩
      · refine Or.inl ⟨hbody, ?_⟩
        intro heq
        injection heq with ht
        exact hne ht.symm
      · cases hbody
  | «return» t work next at_ ended =>
      cases hr
      exact Or.inl ⟨h, nofun⟩
  | splice dt works at_ list =>
      cases hr
      exact Or.inl ⟨h, nofun⟩
  | serialWrite t proc port value runs =>
      obtain ⟨sched', hcall, rfl⟩ := Option.map_eq_some_iff.mp hr.symm
      exact Or.inl ⟨h, nofun⟩
  | serialCmd t port value =>
      cases hr
      exact Or.inl ⟨h, nofun⟩
  | diskStart t proc disk runs =>
      obtain ⟨sched', hcall, rfl⟩ := Option.map_eq_some_iff.mp hr.symm
      exact Or.inl ⟨h, nofun⟩
  | processorEnd t proc exit runs =>
      obtain ⟨sched', hexit, rfl⟩ := Option.map_eq_some_iff.mp hr.symm
      rcases hset h with ⟨-, hbody⟩ | ⟨-, hbody⟩
      · exact Or.inl ⟨hbody, nofun⟩
      · cases hbody
  | diskEnd t disk nextFrame runs =>
      cases hr
      rcases hset h with ⟨-, hbody⟩ | ⟨-, hbody⟩
      · exact Or.inl ⟨hbody, nofun⟩
      · cases hbody
  | serialRead t port runs at_ =>
      cases hr
      rcases hset h with ⟨-, hbody⟩ | ⟨rfl, hbody⟩
      · exact Or.inl ⟨hbody, nofun⟩
      · injection hbody with htime
        exact Or.inr ⟨port, rfl, runs, htime.symm⟩
  | serialRun t port timeslice' runs at_ =>
      obtain ⟨sched', hexit, rfl⟩ := Option.map_eq_some_iff.mp hr.symm
      rcases hset h with ⟨-, hbody⟩ | ⟨-, hbody⟩
      · exact Or.inl ⟨hbody, nofun⟩
      · cases hbody
  | serialStore t port timeslice' next runs at_ =>
      cases hr
      rcases hset h with ⟨-, hbody⟩ | ⟨-, hbody⟩
      · exact Or.inl ⟨hbody, nofun⟩
      · cases hbody

/-! ## Every call finds its thread -/

omit [Fintype T] [DecidableEq T] [DecidableEq P] [DecidableEq D] [DecidableEq S] in
/-- The calls of `XrScheduleWorkForMe`: from a write or the start of a disk, and from a
schedulable for itself. -/
theorem forMe_cases {t : T} {after : XrWork P D S}
    (h : op.forMe asynchronous s = some (t, after, w)) :
    (∃ proc port value, op = .serialWrite t proc port value ∧ after = .processor proc ∧
        w = .serial port ∧ (serialWriteData asynchronous (s.port port) value).2 = .stored true) ∨
      (∃ proc disk, op = .diskStart t proc disk ∧ after = .processor proc ∧ w = .disk disk) ∨
      (after = w ∧ ((∃ proc, op = .processorEnd t proc .forMe ∧ w = .processor proc) ∨
        ∃ port timeslice, op = .serialRun t port timeslice ∧ w = .serial port ∧
          (s.exited port timeslice).2 = .forMe)) := by
  cases op with
  | serialWrite u proc port value =>
      by_cases hstored : (serialWriteData asynchronous (s.port port) value).2 = .stored true
      · rw [XrHostOp.forMe, if_pos hstored] at h
        cases h
        exact Or.inl ⟨proc, port, value, rfl, rfl, rfl, hstored⟩
      · rw [XrHostOp.forMe, if_neg hstored] at h
        cases h
  | diskStart u proc disk =>
      cases h
      exact Or.inr (Or.inl ⟨proc, disk, rfl, rfl, rfl⟩)
  | processorEnd u proc exit =>
      cases exit with
      | forMe =>
          cases h
          exact Or.inr (Or.inr ⟨rfl, Or.inl ⟨proc, rfl, rfl⟩⟩)
      | nextFrame => cases h
      | forAny => cases h
  | serialRun u port timeslice =>
      by_cases hexit : (s.exited port timeslice).2 = .forMe
      · rw [XrHostOp.forMe, if_pos hexit] at h
        cases h
        exact Or.inr (Or.inr ⟨rfl, Or.inr ⟨port, timeslice, rfl, rfl, hexit⟩⟩)
      · rw [XrHostOp.forMe, if_neg hexit] at h
        cases h
  | scheduler sop => cases h
  | dequeue u => cases h
  | «return» u => cases h
  | splice dt => cases h
  | serialCmd u port value => cases h
  | diskEnd u disk nextFrame => cases h
  | serialRead u port => cases h
  | serialStore u port timeslice => cases h

omit [Fintype T] in
/-- In a run whose steps meet the condition so far, every call finds the thread. -/
theorem finds_step (howned : s.Owned contents)
    {r : Option (XrHost T P D S)} (hstep : XrHostStep asynchronous s op r)
    {t : T} {after : XrWork P D S}
    (hcall : op.forMe asynchronous s = some (t, after, w)) : s.Finds t after := by
  rcases forMe_cases hcall with ⟨proc, port, value, rfl, rfl, rfl, -⟩ |
    ⟨proc, disk, rfl, rfl, rfl⟩ | ⟨rfl, hself⟩
  · cases hstep with
    | serialWrite t proc port value runs => exact howned.active t _ runs
  · cases hstep with
    | diskStart t proc disk runs => exact howned.active t _ runs
  · rcases hself with ⟨proc, rfl, rfl⟩ | ⟨port, timeslice, rfl, rfl, hexit⟩
    · cases hstep with
      | processorEnd t proc exit runs => exact howned.active t _ runs
    · cases hstep with
      | serialRun t port timeslice runs at_ =>
          rcases howned.active t _ runs with hprefers | ⟨hcost, -⟩
          · exact hprefers
          · rcases howned.sliced t port timeslice runs at_ with hprefers | hlow
            · exact hprefers
            · -- Such a run leaves itself no time to queue itself in.
              exact absurd hexit (serialExit_spent hcost hlow _)

/-! ## Runs -/

omit [DecidableEq T] in
/-- What is on a chain or running is on no list of entries. -/
theorem off_lists (holds : s.scheduler.Holds contents place) (hordered : s.Ordered) {t : T}
    (hw : w.Single) (hway : OnChain contents t w ∨ s.Active t w) :
    w ∉ contents .work ∧ w ∉ contents .nextFrame := by
  rcases hway with (hmine | hremaining) | hactive
  · have hplace := holds.place_eq hmine
    refine ⟨fun hin => ?_, fun hin => ?_⟩
    · cases hplace.symm.trans (holds.place_eq hin)
    · cases hplace.symm.trans (holds.place_eq hin)
  · have hplace := holds.place_eq hremaining
    refine ⟨fun hin => ?_, fun hin => ?_⟩
    · cases hplace.symm.trans (holds.place_eq hin)
    · cases hplace.symm.trans (holds.place_eq hin)
  · have hout := hactive.not_enqueued (hordered.le_one hw)
    exact ⟨holds.not_mem hout _, holds.not_mem hout _⟩

/-- A schedulable that is on a chain, or that is still running afterwards, stays fine. -/
theorem fine_keep (holds : s.scheduler.Holds contents place) (hordered : s.Ordered)
    (hstep : XrHostStep asynchronous s op (some s')) {t : T}
    (hway : OnChain contents t w ∨ (s.Active t w ∧ s'.Active t w)) (hw : w.Single) :
    Spares s s' w := by
  have hoff := off_lists holds hordered hw (hway.imp_right fun hboth => hboth.1)
  refine spares_step holds hoff.1 hoff.2 hstep ?_
  rintro u port timeslice rfl rfl
  rcases hway with hon | ⟨-, hactive⟩
  · -- The port runs, so it is on no chain.
    have hruns : s.Active u (.serial port) := by
      generalize hr : some s' = r at hstep
      cases hstep with
      | serialRun u port timeslice runs at_ => exact runs
    have hout := hruns.not_enqueued (hordered.le_one hw)
    rcases hon with hin | hin
    · exact holds.not_mem hout _ hin
    · exact holds.not_mem hout _ hin
  · exact run_ends hordered hstep hactive

/-- What a call puts on a chain is fine there. -/
theorem fine_forMe (hordered : s.Ordered) (howned : s.Owned contents)
    (hstep : XrHostStep asynchronous s op (some s'))
    (hmeets : s.QueuesCalmly asynchronous op) {t u : T} {after : XrWork P D S}
    (hcall : op.forMe asynchronous s = some (u, after, w))
    (hprefers : s.scheduler.preferredThread after = some t) : s'.Fine t w := by
  generalize hr : some s' = r at hstep
  rcases forMe_cases hcall with ⟨proc, port, value, rfl, rfl, rfl, hstored⟩ |
    ⟨proc, disk, rfl, -, rfl⟩ | ⟨rfl, hself⟩
  · cases hstep with
    | serialWrite u proc port value runs =>
        -- The processor runs on `u`, and so the port is queued there.
        have ht : u = t := Option.some.inj ((howned.active u _ runs).symm.trans hprefers)
        subst ht
        have hidle := serialWriteData_stored hstored
        have hfine : s.Fine u (.serial port) := by
          rcases hmeets hstored with hport | hlow
          · exact Or.inl hport
          · exact Or.inr ⟨serialWriteData_costly hstored ((hordered.sends port).empty hidle),
              hlow⟩
        obtain ⟨sched', hwritten, rfl⟩ := Option.map_eq_some_iff.mp hr.symm
        have hport := spares_setPort (s := s) (w := .serial port)
          (serialWriteData_cost asynchronous (s.port port) value)
        rcases serialWritten_cases hwritten with ⟨hnot, -⟩ | ⟨-, hqueue⟩
        · exact absurd hstored hnot
        · exact hfine.spares (hport.trans (spares_queues (queues_forMe hqueue)))
  · trivial
  · refine Fine.of_prefers ?_
    rcases hself with ⟨proc, rfl, rfl⟩ | ⟨port, timeslice, rfl, rfl, hexit⟩
    · cases hstep with
      | processorEnd u proc exit runs =>
          obtain ⟨sched', hend, rfl⟩ := Option.map_eq_some_iff.mp hr.symm
          show sched'.preferredThread _ = some t
          rw [(queues_processorExit hend).preferredThread]
          exact hprefers
    · cases hstep with
      | serialRun u port timeslice runs at_ =>
          obtain ⟨sched', hend, rfl⟩ := Option.map_eq_some_iff.mp hr.symm
          have hagain : (s.exited port timeslice).2 ≠ .done := by
            rw [hexit]
            exact nofun
          show sched'.preferredThread _ = some t
          rw [(queues_serialQueue hend hagain).preferredThread]
          exact hprefers

theorem owned_step (holds : s.scheduler.Holds contents place) (hordered : s.Ordered)
    (howned : s.Owned contents) (hstep : XrHostStep asynchronous s op (some s'))
    (hmeets : s.QueuesCalmly asynchronous op) :
    ∃ contents' place', s'.scheduler.Holds contents' place' ∧ s'.Owned contents' := by
  obtain ⟨contents', place', holds', hcame⟩ := holds_host_step holds hstep
  -- A schedulable that was fine stays so.
  have hkeep : ∀ t w, s.Fine t w → OnChain contents t w ∨ (s.Active t w ∧ s'.Active t w) →
      s'.Fine t w := by
    intro t w hfine hway
    cases w with
    | processor proc => exact hfine.spares (fine_keep holds hordered hstep hway trivial)
    | disk disk => trivial
    | serial port => exact hfine.spares (fine_keep holds hordered hstep hway trivial)
  refine ⟨contents', place', holds', ?_, ?_, ?_⟩
  · intro t w hon
    rcases hcame t w hon with hold | ⟨rfl, hprefers⟩ | ⟨u, after, hcall, hprefers⟩
    · exact hkeep t w (howned.chain t w hold) (Or.inl hold)
    · exact Fine.of_prefers hprefers
    · exact fine_forMe hordered howned hstep hmeets hcall hprefers
  · intro t w hactive
    rcases active_step hstep hactive with hold | ⟨-, hat⟩
    · exact hkeep t w (howned.active t w hold) (Or.inr ⟨hold, hactive⟩)
    · -- It was the first on the chain of the loop.
      obtain ⟨rest, hlist⟩ := remaining_cons holds hat
      have hon : OnChain contents t w := by
        refine Or.inr ?_
        rw [hlist]
        exact List.mem_cons_self
      exact hkeep t w (howned.chain t w hon) (Or.inl hon)
  · intro t port timeslice hactive hbody
    rcases active_step hstep hactive with hold | ⟨hdequeue, -⟩
    · have hspares : Spares s s' (.serial port) :=
        fine_keep holds hordered hstep (Or.inr ⟨hold, hactive⟩) trivial
      rw [hspares.preferredThread]
      rcases sliced_step hstep hbody with ⟨hbefore, -⟩ | ⟨port', rfl, hruns, rfl⟩
      · exact howned.sliced t port timeslice hold hbefore
      · -- The timeslice that the run has read is the one in the schedulable.
        have hport : port' = port := by
          obtain ⟨⟨next, hloop⟩, -⟩ := hold
          obtain ⟨⟨next', hloop'⟩, -⟩ := hruns
          rw [hloop] at hloop'
          injection hloop' with hwork
          injection hwork with heq
          exact heq.symm
        subst hport
        exact (howned.active t _ hold).imp_right fun hlow => hlow.2.1
    · rcases sliced_step hstep hbody with ⟨-, hne⟩ | ⟨port', hread, -⟩
      · exact absurd hdequeue hne
      · rw [hdequeue] at hread
        cases hread

end XrHost

end

end Xremu
