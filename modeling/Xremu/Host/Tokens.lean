import Xremu.Host.Threads

/-!
# What the threads do to the scheduler

`tokens` counts the ways in which a schedulable is on its way: queued, held by the frame
update thread, or running. A call that queues a schedulable adds one at most, and all other
steps move the one there is, so that a count of one is kept. `moves_step` says which step of
the scheduler is behind a step of a thread.
-/

namespace Xremu

open Concurrency Lists

/-! ## The scheduler -/

section

variable {T W : Type} [DecidableEq T] [DecidableEq W]

/-- What a call that queues `work` does to the rest of the scheduler. -/
structure XrScheduler.Queues (s s' : XrScheduler T W) (work : W) : Prop where
  enqueued : ∀ w, s'.enqueued w = true ↔ s.enqueued w = true ∨ w = work
  loop : s'.loop = s.loop
  frame : s'.frame = s.frame
  preferredThread : s'.preferredThread = s.preferredThread

omit [DecidableEq T] in
theorem queues_forAny (s : XrScheduler T W) (work : W) :
    s.Queues (xrScheduleWorkForAny s work) work := by
  refine ⟨enqueued_forAny s work, ?_, xrScheduleWorkForAny_frame s work, ?_⟩
  · unfold xrScheduleWorkForAny
    split <;> rfl
  · unfold xrScheduleWorkForAny
    split <;> rfl

omit [DecidableEq T] in
theorem queues_forNextFrame (s : XrScheduler T W) (work : W) (front : Bool) :
    s.Queues (xrScheduleWorkForNextFrame s work front) work := by
  refine ⟨enqueued_forNextFrame s work front, ?_, ?_, ?_⟩
  · unfold xrScheduleWorkForNextFrame
    split <;> rfl
  · unfold xrScheduleWorkForNextFrame
    split <;> rfl
  · unfold xrScheduleWorkForNextFrame
    split <;> rfl

theorem queues_forMe {s s' : XrScheduler T W} {after work : W}
    (hcall : xrScheduleWorkForMe s after work = some s') : s.Queues s' work := by
  refine ⟨enqueued_forMe hcall, ?_, ?_, ?_⟩ <;>
  · unfold xrScheduleWorkForMe at hcall
    by_cases hin : s.enqueued work = true
    · rw [if_pos hin] at hcall
      cases hcall
      rfl
    · rw [if_neg hin, Option.map_eq_some_iff] at hcall
      obtain ⟨thread, -, rfl⟩ := hcall
      rfl

/-- The scheduler's own steps move at most one thread, which runs nothing before and after. -/
theorem loop_plain {s s' : XrScheduler T W} {op : XrSchedulerOp T W} (hplain : op.Plain)
    (hstep : XrSchedulerStep s op s') : s'.loop = s.loop ∨
      ∃ t l, s'.loop = Function.update s.loop t l ∧
        (∀ w next, s.loop t ≠ .running w next) ∧ ∀ w next, l ≠ .running w next := by
  cases hstep with
  | forAny work => exact hplain.elim
  | forNextFrame work front => exact hplain.elim
  | forMe after work call => exact hplain.elim
  | takeNext t at_ =>
      refine Or.inr ⟨t, _, rfl, ?_, ?_⟩
      · intro w next heq
        rw [at_] at heq
        cases heq
      · intro w next
        cases s.threadNext t <;> exact nofun
  | wait t at_ token =>
      refine Or.inr ⟨t, _, rfl, ?_, fun _ _ => nofun⟩
      intro w next heq
      rw [at_] at heq
      cases heq
  | pop t at_ =>
      have hat : ∀ w next, s.loop t ≠ .running w next := by
        intro w next heq
        rw [at_] at heq
        cases heq
      unfold xrPopSchedulerWork
      cases s.links.next (.head .work) with
      | head list => exact Or.inr ⟨t, _, rfl, hat, fun _ _ => nofun⟩
      | of work => exact Or.inr ⟨t, _, rfl, hat, fun _ _ => nofun⟩
  | dequeue t work at_ => exact hplain.elim
  | «return» t work next at_ => exact hplain.elim
  | splice at_ => exact hplain.elim
  | clearEntry work at_ => exact Or.inl rfl
  | requeue work next at_ => exact Or.inl (queues_forAny s work).loop
  | endFrame at_ => exact Or.inl rfl

end

/-! ## Tokens -/

section

variable {T P D S : Type} [Fintype T] [DecidableEq T] [DecidableEq P] [DecidableEq D]
  [DecidableEq S]

/-- One for a thread that is active in `w`. -/
def activeAt (w : XrWork P D S) : XrLoop (XrWork P D S) × XrBody → Nat
  | (.running v _, body) => if v = w ∧ body.active = true then 1 else 0
  | _ => 0

/-- One when the frame update thread has cleared `Enqueued` of `w`, to queue it. -/
def clearedAt (w : XrWork P D S) : XrFrame (XrWork P D S) → Nat
  | .cleared v _ => if v = w then 1 else 0
  | _ => 0

namespace XrHost

def places (s : XrHost T P D S) (t : T) : XrLoop (XrWork P D S) × XrBody :=
  (s.scheduler.loop t, s.body t)

def tokens (s : XrHost T P D S) (w : XrWork P D S) : Nat :=
  (s.scheduler.enqueued w).toNat + clearedAt w s.scheduler.frame +
    tally (activeAt w) s.places

variable {s r : XrHost T P D S} {w : XrWork P D S} {t : T}

omit [Fintype T] [DecidableEq T] in
theorem active_iff : s.Active t w ↔ activeAt w (s.places t) = 1 := by
  unfold Active places activeAt
  cases hloop : s.scheduler.loop t with
  | running v next =>
      dsimp only
      constructor
      · rintro ⟨⟨next', heq⟩, hbody⟩
        rw [XrLoop.running.injEq] at heq
        rw [if_pos ⟨heq.1, hbody⟩]
      · intro hone
        by_cases hv : v = w ∧ (s.body t).active = true
        · exact ⟨⟨next, by rw [hv.1]⟩, hv.2⟩
        · rw [if_neg hv] at hone
          cases hone
  | idle => simp
  | waiting => simp
  | popping => simp
  | ready v => simp

omit [DecidableEq T] in
theorem Active.tally_pos (h : s.Active t w) : 1 ≤ tally (activeAt w) s.places := by
  have hle := le_tally (activeAt w) s.places t
  rw [active_iff.mp h] at hle
  exact hle

omit [DecidableEq T] in
/-- What is running is not queued. -/
theorem Active.not_enqueued (h : s.Active t w) (hone : s.tokens w ≤ 1) :
    s.scheduler.enqueued w = false := by
  have hpos := h.tally_pos
  unfold tokens at hone
  cases henq : s.scheduler.enqueued w with
  | false => rfl
  | true =>
      rw [henq, Bool.toNat_true] at hone
      omega

theorem Active.unique (h : s.Active t w) {u : T} (hu : s.Active u w)
    (hone : s.tokens w ≤ 1) : t = u := by
  unfold tokens at hone
  have hle : tally (activeAt w) s.places ≤ 1 := by omega
  refine eq_of_tally_le_one hle ?_ ?_
  · rw [active_iff.mp h]
    exact Nat.one_pos
  · rw [active_iff.mp hu]
    exact Nat.one_pos

omit [Fintype T] [DecidableEq D] [DecidableEq P] [DecidableEq S] in
theorem places_eq_update {l : XrLoop (XrWork P D S)} {b : XrBody}
    (hloop : r.scheduler.loop = Function.update s.scheduler.loop t l)
    (hbody : r.body = Function.update s.body t b) :
    r.places = Function.update s.places t (l, b) := by
  funext u
  unfold places
  rw [hloop, hbody]
  by_cases hu : u = t
  · subst hu
    rw [Function.update_self, Function.update_self, Function.update_self]
  · rw [Function.update_of_ne hu, Function.update_of_ne hu, Function.update_of_ne hu]

omit [DecidableEq P] [DecidableEq D] [DecidableEq S] in
/-- A thread moves. -/
theorem tally_places (weight : XrLoop (XrWork P D S) × XrBody → Nat)
    {l : XrLoop (XrWork P D S)} {b : XrBody}
    (hloop : r.scheduler.loop = Function.update s.scheduler.loop t l)
    (hbody : r.body = Function.update s.body t b) :
    tally weight r.places + weight (s.places t) = tally weight s.places + weight (l, b) := by
  rw [places_eq_update hloop hbody]
  exact tally_update weight s.places t (l, b)

omit [DecidableEq T] in
theorem tally_same (hloop : r.scheduler.loop = s.scheduler.loop) (hbody : r.body = s.body) :
    tally (activeAt w) r.places = tally (activeAt w) s.places := by
  have hplaces : r.places = s.places := by
    funext u
    unfold places
    rw [hloop, hbody]
  rw [hplaces]

omit [Fintype T] in
theorem activeAt_of_not_running {l : XrLoop (XrWork P D S)}
    (hl : ∀ v next, l ≠ .running v next) (b : XrBody) : activeAt w (l, b) = 0 := by
  cases l with
  | running v next => exact absurd rfl (hl v next)
  | _ => rfl

omit [Fintype T] [DecidableEq T] in
theorem activeAt_inactive (l : XrLoop (XrWork P D S)) {b : XrBody} (hb : b.active = false) :
    activeAt w (l, b) = 0 := by
  cases l with
  | running v next =>
      refine if_neg ?_
      rintro ⟨-, hactive⟩
      rw [hb] at hactive
      cases hactive
  | _ => rfl

omit [Fintype T] [DecidableEq T] in
/-- A thread is active in one schedulable. -/
theorem activeAt_other {work : XrWork P D S} (h : s.Active t work) (hne : w ≠ work)
    (b : XrBody) : activeAt w (s.scheduler.loop t, b) = 0 := by
  obtain ⟨⟨next, hloop⟩, -⟩ := h
  rw [hloop]
  refine if_neg ?_
  rintro ⟨heq, -⟩
  exact hne heq.symm

omit [Fintype T] [DecidableEq T] in
theorem queued_toNat {sched sched' : XrScheduler T (XrWork P D S)} {work : XrWork P D S}
    (h : sched.Queues sched' work) (w : XrWork P D S) :
    (sched'.enqueued w).toNat = if w = work then 1 else (sched.enqueued w).toNat := by
  have hiff := h.enqueued w
  by_cases hw : w = work
  · rw [if_pos hw, hiff.mpr (Or.inr hw)]
    rfl
  · rw [if_neg hw]
    have hsame : sched'.enqueued w = sched.enqueued w := by
      rw [Bool.eq_iff_iff, hiff]
      simp [hw]
    rw [hsame]

/-- A run that ends by queueing its schedulable again. -/
theorem tokens_requeue {work : XrWork P D S} {b : XrBody}
    (hqueues : s.scheduler.Queues r.scheduler work)
    (hbody : r.body = Function.update s.body t b) (hb : b.active = false)
    (hactive : s.Active t work) (hone : s.tokens work ≤ 1) (w : XrWork P D S) :
    r.tokens w = s.tokens w := by
  have htally := tally_places (s := s) (r := r) (activeAt w) (l := s.scheduler.loop t)
    (by rw [hqueues.loop, Function.update_eq_self]) hbody
  rw [activeAt_inactive _ hb] at htally
  unfold tokens
  rw [queued_toNat hqueues, hqueues.frame]
  by_cases hw : w = work
  · subst hw
    rw [if_pos rfl, hactive.not_enqueued hone, Bool.toNat_false]
    rw [active_iff.mp hactive] at htally
    omega
  · rw [if_neg hw]
    have hzero : activeAt w (s.places t) = 0 := activeAt_other hactive hw _
    omega

/-- A run that ends and queues nothing. -/
theorem tokens_done {work : XrWork P D S} {b : XrBody}
    (hscheduler : r.scheduler = s.scheduler)
    (hbody : r.body = Function.update s.body t b) (hb : b.active = false)
    (hactive : s.Active t work) (w : XrWork P D S) :
    r.tokens w = s.tokens w - if w = work then 1 else 0 := by
  have htally := tally_places (s := s) (r := r) (activeAt w) (l := s.scheduler.loop t)
    (by rw [hscheduler, Function.update_eq_self]) hbody
  rw [activeAt_inactive _ hb] at htally
  unfold tokens
  rw [hscheduler]
  by_cases hw : w = work
  · subst hw
    rw [if_pos rfl]
    rw [active_iff.mp hactive] at htally
    omega
  · rw [if_neg hw]
    have hzero : activeAt w (s.places t) = 0 := activeAt_other hactive hw _
    omega

omit [DecidableEq T] in
/-- A call that queues `work` while all threads stay where they are. -/
theorem tokens_queue {work : XrWork P D S} (hqueues : s.scheduler.Queues r.scheduler work)
    (hbody : r.body = s.body) (w : XrWork P D S) :
    r.tokens w = s.tokens w + if w = work ∧ s.scheduler.enqueued w = false then 1 else 0 := by
  unfold tokens
  rw [queued_toNat hqueues, hqueues.frame, tally_same hqueues.loop hbody]
  by_cases hw : w = work
  · rw [if_pos hw]
    cases henq : s.scheduler.enqueued w with
    | false =>
        rw [if_pos ⟨hw, rfl⟩, Bool.toNat_false]
        omega
    | true =>
        rw [if_neg (fun hboth => by cases hboth.2), Bool.toNat_true]
        omega
  · rw [if_neg hw, if_neg (fun hboth => hw hboth.1)]
    omega

theorem tally_plain {sched : XrScheduler T (XrWork P D S)}
    {op : XrSchedulerOp T (XrWork P D S)} (hplain : op.Plain)
    (hstep : XrSchedulerStep s.scheduler op sched) :
    tally (activeAt w) (s.setScheduler sched).places = tally (activeAt w) s.places := by
  rcases loop_plain hplain hstep with hloop | ⟨t, l, hloop, hbefore, hafter⟩
  · exact tally_same hloop rfl
  · have htally := tally_places (s := s) (r := s.setScheduler sched) (activeAt w)
      (b := s.body t) hloop (by rw [Function.update_eq_self]; rfl)
    rw [activeAt_of_not_running hafter] at htally
    have hzero : activeAt w (s.places t) = 0 := activeAt_of_not_running hbefore _
    omega

variable {contents : XrPlace T → List (XrWork P D S)} {place : XrWork P D S → XrPlace T}

omit [DecidableEq T] [DecidableEq P] [DecidableEq D] [DecidableEq S] in
/-- The entry at which the frame update thread is has `Enqueued` set. -/
theorem walking_enqueued (h : s.scheduler.Holds contents place) {work : XrWork P D S}
    (hat : s.scheduler.frame = .walking (.of work)) : s.scheduler.enqueued work = true := by
  have hpath := h.frame
  rw [hat] at hpath
  refine h.enqueued (p := .frame) ?_
  cases hcontents : contents .frame with
  | nil =>
      rw [hcontents] at hpath
      cases hpath
  | cons v rest =>
      rw [hcontents] at hpath
      have hv : work = v := xrEntry_of_inj _ _ hpath.1
      rw [hv]
      exact List.mem_cons_self

theorem tokens_plain (h : s.scheduler.Holds contents place)
    {sched : XrScheduler T (XrWork P D S)} {op : XrSchedulerOp T (XrWork P D S)}
    (hplain : op.Plain) (hstep : XrSchedulerStep s.scheduler op sched) (hone : s.tokens w ≤ 1) :
    (s.setScheduler sched).tokens w = s.tokens w := by
  have htally := tally_plain (w := w) hplain hstep
  unfold tokens at hone ⊢
  rw [htally]
  show (sched.enqueued w).toNat + clearedAt w sched.frame + _ = _
  cases hstep with
  | forAny work => exact hplain.elim
  | forNextFrame work front => exact hplain.elim
  | forMe after work call => exact hplain.elim
  | takeNext t at_ => rfl
  | wait t at_ token => rfl
  | pop t at_ =>
      rw [enqueued_pop]
      unfold xrPopSchedulerWork
      cases s.scheduler.links.next (.head .work) <;> rfl
  | dequeue t work at_ => exact hplain.elim
  | «return» t work next at_ => exact hplain.elim
  | splice at_ => exact hplain.elim
  | clearEntry work at_ =>
      rw [at_]
      show (Function.update s.scheduler.enqueued work false w).toNat +
        (if work = w then 1 else 0) + _ = _ + 0 + _
      by_cases hw : w = work
      · subst hw
        rw [Function.update_self, if_pos rfl, walking_enqueued h at_]
        rfl
      · rw [Function.update_of_ne hw, if_neg (Ne.symm hw)]
  | requeue work next at_ =>
      rw [at_] at hone ⊢
      show ((xrScheduleWorkForAny s.scheduler work).enqueued w).toNat + 0 + _ =
        _ + (if work = w then 1 else 0) + _
      change _ + (if work = w then 1 else 0) + _ ≤ 1 at hone
      rw [queued_toNat (queues_forAny s.scheduler work)]
      by_cases hw : w = work
      · rw [if_pos hw, if_pos hw.symm]
        rw [if_pos hw.symm] at hone
        omega
      · rw [if_neg hw, if_neg (Ne.symm hw)]
  | endFrame at_ =>
      rw [at_]
      rfl

/-- The schedulable goes from its chain to the thread. -/
theorem tokens_dequeue (h : s.scheduler.Holds contents place) {work : XrWork P D S}
    (hat : s.scheduler.loop t = .ready work) :
    ((s.setScheduler (xrDequeue s.scheduler t work)).setBody t .entered).tokens w =
      s.tokens w := by
  have htally := tally_places (s := s)
    (r := (s.setScheduler (xrDequeue s.scheduler t work)).setBody t .entered) (activeAt w)
    rfl rfl
  have hzero : activeAt w (s.places t) = 0 := by
    unfold places
    rw [hat]
    rfl
  obtain ⟨rest, hlist⟩ := remaining_cons h hat
  have henq : s.scheduler.enqueued work = true := by
    refine h.enqueued (p := .remaining t) ?_
    rw [hlist]
    exact List.mem_cons_self
  have hnew : activeAt w (XrLoop.running work (s.scheduler.next work), XrBody.entered) =
      if work = w then 1 else 0 := by
    by_cases hw : work = w
    · rw [if_pos hw]
      exact if_pos ⟨hw, rfl⟩
    · rw [if_neg hw]
      exact if_neg fun hboth => hw hboth.1
  rw [hnew, hzero] at htally
  unfold tokens
  show (Function.update s.scheduler.enqueued work false w).toNat +
    clearedAt w s.scheduler.frame + _ = _
  by_cases hw : w = work
  · subst hw
    rw [Function.update_self, henq, Bool.toNat_true, Bool.toNat_false]
    rw [if_pos rfl] at htally
    omega
  · rw [Function.update_of_ne hw]
    rw [if_neg (Ne.symm hw)] at htally
    omega

theorem tokens_return {next : Option (XrWork P D S)} (hended : s.body t = .out) :
    (s.setScheduler (xrNextWork s.scheduler t next)).tokens w = s.tokens w := by
  have htally := tally_places (s := s)
    (r := s.setScheduler (xrNextWork s.scheduler t next)) (activeAt w) (b := s.body t)
    rfl (by rw [Function.update_eq_self]; rfl)
  have hbefore : activeAt w (s.places t) = 0 := by
    unfold places
    rw [hended]
    exact activeAt_inactive _ rfl
  rw [hbefore, hended, activeAt_inactive (b := .out) _ rfl] at htally
  unfold tokens
  show (s.scheduler.enqueued w).toNat + clearedAt w s.scheduler.frame + _ = _
  omega

omit [DecidableEq T] in
theorem tokens_splice {timeslice : S → Int} (hat : s.scheduler.frame = .out) :
    tokens { s with scheduler := xrSplice s.scheduler, timeslice := timeslice } w =
      s.tokens w := by
  unfold tokens
  rw [hat]
  rfl

end XrHost

end

/-! ## The serial ports -/

/-- A port that has characters to send is enqueued. -/
structure SerialPort.Sends (port : SerialPort) : Prop where
  inv : ∃ accepted, port.Inv accepted
  sends : port.unsent ≠ 0 → port.enqueued = true

namespace SerialPort.Sends

variable {asynchronous : Bool} {port : SerialPort}

theorem empty (h : port.Sends) (hout : port.enqueued = false) : port.transmitBufferIndex = 0 := by
  obtain ⟨accepted, hinv⟩ := h.inv
  rcases hinv.send with hlt | ⟨-, hzero⟩
  · have hunsent : port.unsent ≠ 0 := by
      unfold SerialPort.unsent
      omega
    rw [h.sends hunsent] at hout
    cases hout
  · exact hzero

theorem init (number : Nat) : (serialInit number).Sends :=
  ⟨⟨[], serialInit_inv number⟩, fun hunsent => absurd rfl hunsent⟩

theorem write (h : port.Sends) (value : Word) :
    (serialWriteData asynchronous port value).1.Sends := by
  obtain ⟨accepted, hinv⟩ := h.inv
  refine ⟨⟨_, serialWriteData_inv hinv value⟩, ?_⟩
  unfold serialWriteData
  split
  · exact h.sends
  · split
    · exact h.sends
    · exact fun _ => rfl

theorem writeCmd (h : port.Sends) (value : Word) : (serialWriteCmd port value).Sends := by
  obtain ⟨accepted, hinv⟩ := h.inv
  obtain ⟨doInterrupts, heq⟩ := serialWriteCmd_eq port value
  rw [heq]
  exact ⟨⟨accepted, hinv.congr rfl rfl rfl rfl rfl⟩, h.sends⟩

theorem run (h : port.Sends) (henq : port.enqueued = true) (timeslice current : Int) :
    (serialExit (serialRunWith port timeslice current).1
      (serialRunWith port timeslice current).2).1.Sends := by
  obtain ⟨accepted, hinv⟩ := h.inv
  refine ⟨⟨accepted, serialExit_inv (serialRunWith_inv hinv timeslice current) _⟩, ?_⟩
  exact (serialExit_cases _ ((serialRunWith_enqueued port timeslice current).trans henq)).2

end SerialPort.Sends

theorem serialWriteData_cost (asynchronous : Bool) (port : SerialPort) (value : Word) :
    port.cost ≤ (serialWriteData asynchronous port value).1.cost := by
  unfold serialWriteData
  split
  · show port.cost ≤ port.cost + 1
    omega
  · split
    · exact le_refl _
    · exact le_refl _

theorem serialWriteData_enqueued (asynchronous : Bool) (port : SerialPort) (value : Word) :
    (serialWriteData asynchronous port value).1.enqueued =
      (port.enqueued || decide ((serialWriteData asynchronous port value).2 = .stored true)) := by
  unfold serialWriteData
  split
  · simp [serialPutCharacter]
  · split
    · simp
    · cases port.enqueued <;> rfl

theorem serialWriteData_stored {asynchronous : Bool} {port : SerialPort} {value : Word}
    (hstored : (serialWriteData asynchronous port value).2 = .stored true) :
    port.enqueued = false := by
  unfold serialWriteData at hstored
  split at hstored
  · cases hstored
  · split at hstored
    · cases hstored
    · simpa using hstored

/-- A character that goes into an empty buffer has found the time for the last ones
unpaid. -/
theorem serialWriteData_costly {asynchronous : Bool} {port : SerialPort} {value : Word}
    {scheduleForMe : Bool}
    (hstored : (serialWriteData asynchronous port value).2 = .stored scheduleForMe)
    (hempty : port.transmitBufferIndex = 0) : accumulatedCost ≤ port.cost := by
  unfold serialWriteData at hstored
  by_cases himmediate : (!asynchronous || decide (port.cost < accumulatedCost)) = true ∧
      port.transmitBufferIndex = 0
  · rw [if_pos himmediate] at hstored
    cases hstored
  · by_contra hlow
    refine himmediate ⟨?_, hempty⟩
    rw [decide_eq_true (by omega : port.cost < accumulatedCost), Bool.or_true]

/-- A run that cannot pay for the last characters has no time left. -/
theorem serialExit_spent {port : SerialPort} {timeslice : Int}
    (hcost : accumulatedCost ≤ port.cost) (hlow : timeslice ≤ accumulatedCost) (current : Int) :
    (serialExit (serialRunWith port timeslice current).1
      (serialRunWith port timeslice current).2).2 ≠ .forMe := by
  have hne : port.cost ≠ 0 := by
    unfold accumulatedCost at hcost
    omega
  have hle : ¬ port.cost < timeslice := by omega
  unfold serialRunWith
  rw [if_pos hne, if_neg hle]
  unfold serialExit
  split
  · exact nofun
  · split
    · rename_i hforMe
      exact absurd rfl hforMe.1
    · exact nofun

/-! ## What a step does to the scheduler -/

section

variable {T P D S : Type} [DecidableEq T] [DecidableEq P] [DecidableEq D] [DecidableEq S]

variable {sched sched' : XrScheduler T (XrWork P D S)}

theorem queues_processorExit {proc : P} {exit : XrProcessorExit}
    (hexit : processorExit sched proc exit = some sched') :
    sched.Queues sched' (.processor proc) := by
  cases exit with
  | nextFrame =>
      cases hexit
      exact queues_forNextFrame sched _ false
  | forMe => exact queues_forMe hexit
  | forAny =>
      cases hexit
      exact queues_forAny sched _

theorem queues_serialQueue {port : S} {exit : SerialExit}
    (hexit : serialQueue sched port exit = some sched') (hagain : exit ≠ .done) :
    sched.Queues sched' (.serial port) := by
  cases exit with
  | nextFrame =>
      cases hexit
      exact queues_forNextFrame sched _ true
  | forMe => exact queues_forMe hexit
  | done => exact absurd rfl hagain

theorem serialWritten_cases {proc : P} {port : S} {written : SerialWritten}
    (hcall : serialWritten sched proc port written = some sched') :
    (written ≠ .stored true ∧ sched' = sched) ∨
      (written = .stored true ∧
        xrScheduleWorkForMe sched (.processor proc) (.serial port) = some sched') := by
  cases written with
  | put =>
      cases hcall
      exact Or.inl ⟨nofun, rfl⟩
  | discarded =>
      cases hcall
      exact Or.inl ⟨nofun, rfl⟩
  | stored again =>
      cases again with
      | false =>
          cases hcall
          exact Or.inl ⟨nofun, rfl⟩
      | true => exact Or.inr ⟨rfl, hcall⟩

namespace XrHost

variable {asynchronous : Bool} {s s' : XrHost T P D S} {op : XrHostOp T P D S}

/-- The scheduler makes a step, of which only these two kinds put something on a chain. -/
def Moves (asynchronous : Bool) (s : XrHost T P D S) (op : XrHostOp T P D S)
    (sched' : XrScheduler T (XrWork P D S)) : Prop :=
  sched' = s.scheduler ∨
    ∃ step, XrSchedulerStep s.scheduler step sched' ∧
      (∀ t, step = .pop t → op = .scheduler (.pop t)) ∧
      ∀ after work, step = .forMe after work →
        ∃ t, op.forMe asynchronous s = some (t, after, work)

theorem moves_forMe {t : T} {after work : XrWork P D S}
    (hcall : xrScheduleWorkForMe s.scheduler after work = some sched')
    (hforMe : op.forMe asynchronous s = some (t, after, work)) :
    s.Moves asynchronous op sched' := by
  refine Or.inr ⟨.forMe after work, .forMe after work hcall, fun _ => nofun, ?_⟩
  intro after' work' heq
  injection heq with hafter hwork
  subst hafter hwork
  exact ⟨t, hforMe⟩

theorem moves_step (hstep : XrHostStep asynchronous s op (some s')) :
    s.Moves asynchronous op s'.scheduler := by
  generalize hr : some s' = r at hstep
  cases hstep with
  | scheduler sop plain step =>
      cases hr
      refine Or.inr ⟨sop, step, ?_, ?_⟩
      · rintro t rfl
        rfl
      · rintro after work rfl
        exact plain.elim
  | dequeue t work at_ =>
      cases hr
      exact Or.inr ⟨_, .dequeue t work at_, fun _ => nofun, fun _ _ => nofun⟩
  | «return» t work next at_ ended =>
      cases hr
      exact Or.inr ⟨_, .return t work next at_, fun _ => nofun, fun _ _ => nofun⟩
  | splice dt works at_ list =>
      cases hr
      exact Or.inr ⟨_, .splice at_, fun _ => nofun, fun _ _ => nofun⟩
  | serialWrite t proc port value runs =>
      obtain ⟨sched', hcall, rfl⟩ := Option.map_eq_some_iff.mp hr.symm
      rcases serialWritten_cases hcall with ⟨-, rfl⟩ | ⟨hstored, hcall⟩
      · exact Or.inl rfl
      · exact moves_forMe hcall (if_pos hstored)
  | serialCmd t port value =>
      cases hr
      exact Or.inl rfl
  | diskStart t proc disk runs =>
      obtain ⟨sched', hcall, rfl⟩ := Option.map_eq_some_iff.mp hr.symm
      exact moves_forMe hcall rfl
  | processorEnd t proc exit runs =>
      obtain ⟨sched', hexit, rfl⟩ := Option.map_eq_some_iff.mp hr.symm
      cases exit with
      | nextFrame =>
          cases hexit
          exact Or.inr ⟨_, .forNextFrame _ false, fun _ => nofun, fun _ _ => nofun⟩
      | forMe => exact moves_forMe hexit rfl
      | forAny =>
          cases hexit
          exact Or.inr ⟨_, .forAny _, fun _ => nofun, fun _ _ => nofun⟩
  | diskEnd t disk nextFrame runs =>
      cases hr
      cases nextFrame with
      | false => exact Or.inl rfl
      | true => exact Or.inr ⟨_, .forNextFrame _ true, fun _ => nofun, fun _ _ => nofun⟩
  | serialRead t port runs at_ =>
      cases hr
      exact Or.inl rfl
  | serialRun t port timeslice runs at_ =>
      obtain ⟨sched', hexit, rfl⟩ := Option.map_eq_some_iff.mp hr.symm
      cases hout : (s.exited port timeslice).2 with
      | nextFrame =>
          rw [hout] at hexit
          cases hexit
          exact Or.inr ⟨_, .forNextFrame _ true, fun _ => nofun, fun _ _ => nofun⟩
      | forMe =>
          rw [hout] at hexit
          exact moves_forMe hexit (if_pos hout)
      | done =>
          rw [hout] at hexit
          cases hexit
          exact Or.inl rfl
  | serialStore t port timeslice next runs at_ =>
      cases hr
      exact Or.inl rfl

variable [Fintype T] {contents : XrPlace T → List (XrWork P D S)}
  {place : XrWork P D S → XrPlace T}

/-- How a schedulable comes onto a chain of a thread. -/
theorem holds_host_step (h : s.scheduler.Holds contents place)
    (hstep : XrHostStep asynchronous s op (some s')) :
    ∃ contents' place', s'.scheduler.Holds contents' place' ∧
      ∀ t w, OnChain contents' t w → OnChain contents t w ∨
        (op = .scheduler (.pop t) ∧ s'.scheduler.preferredThread w = some t) ∨
        ∃ u after, op.forMe asynchronous s = some (u, after, w) ∧
          s.scheduler.preferredThread after = some t := by
  rcases moves_step hstep with heq | ⟨step, hsched, hpop, hforMe⟩
  · rw [heq]
    exact ⟨contents, place, h, fun _ _ hw => Or.inl hw⟩
  · obtain ⟨contents', place', h', hcame⟩ := holds_step h hsched
    refine ⟨contents', place', h', fun t w hw => ?_⟩
    rcases hcame t w hw with hold | ⟨hstepPop, hprefers⟩ | ⟨after, hstepMe, hprefers⟩
    · exact Or.inl hold
    · exact Or.inr (Or.inl ⟨hpop t hstepPop, hprefers⟩)
    · obtain ⟨u, hcall⟩ := hforMe after w hstepMe
      exact Or.inr (Or.inr ⟨u, after, hcall, hprefers⟩)

end XrHost

end

end Xremu
