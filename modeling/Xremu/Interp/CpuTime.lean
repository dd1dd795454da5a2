import Mathlib
import Xremu.Interp.Cycles
import Xremu.Devices.HostPath
import Xremu.Fast.Build

/-!
# Milliseconds of CPU time

`XrProcessorSchedule` lets the processor execute a millisecond's worth of cycles at a time.
`XrExecuteFast` may hand back more, and what is over is carried to the next iteration
in `CyclesThisRound`. An iteration takes one millisecond off the carry at most.

So the time is right as long as no iteration completes two milliseconds
(`cpuTime_accounted_iff`).
-/

namespace Xremu

open Relation

/-- `cyclesperms`. -/
def xrCyclesPerMs (frequency : Nat) : Word := BitVec.ofNat 32 ((frequency + 999) / 1000)

abbrev xrStepMs : Int := 17

/-- What `XrProcessorSchedule` works on. -/
structure XrCpuTime (M : Type) where
  interp : XrInterp M
  timeslice : Int
  cyclesThisRound : Word
  timerInterruptCounter : Word

section

variable {M : Type}

namespace XrCpuTime

/-- The timeslice of `XrProcessorStartTimeslice`. -/
def granted (timeslice dt : Int) : Int :=
  if timeslice + dt ≥ xrStepMs * 50 then xrStepMs else timeslice + dt

/-- `XrProcessorStartTimeslice`. -/
def startTimeslice (s : XrCpuTime M) (dt : Int) : XrCpuTime M :=
  { s with interp := s.interp.timeslice, timeslice := granted s.timeslice dt, cyclesThisRound := 0 }

/-- The interval timer; its interrupt is an input of the interpreter. -/
def tick (s : XrCpuTime M) (rtcIntervalMs : Word) : XrCpuTime M :=
  if rtcIntervalMs ≠ 0 ∧ rtcIntervalMs ≤ s.timerInterruptCounter then
    { s with timerInterruptCounter := 0 }
  else s

/-- After `XrExecuteFast`. -/
def charge (s : XrCpuTime M) (cyclesperms realcycles : Word) : XrCpuTime M :=
  let round := s.cyclesThisRound + realcycles
  if cyclesperms ≤ round then
    { s with
      cyclesThisRound := round - cyclesperms
      timeslice := s.timeslice - 1
      timerInterruptCounter := s.timerInterruptCounter + 1 }
  else { s with cyclesThisRound := round }

/-- At the end of an iteration. Whether the loop is left there does not matter here. -/
def pause (s : XrCpuTime M) : XrCpuTime M :=
  let p := s.interp.machine.proc
  if xrPauseMax ≤ p.pauseCalls ∨ p.halted = true ∨ p.progress ≤ 0 then
    { s with
      interp := { s.interp with
        machine := { s.interp.machine with proc := { p with pauseCalls := 0 } } } }
  else s

end XrCpuTime

/-- The time together with what has been counted since the timeslice was started. -/
structure XrCpuAccount (M : Type) where
  time : XrCpuTime M
  counts : List Word   -- what `XrExecuteFast` returned
  ticks : Nat          -- what was added to `TimerInterruptCounter`

namespace XrCpuAccount

/-- The cycles executed so far. -/
def spent (a : XrCpuAccount M) : Nat := (a.counts.map BitVec.toNat).sum

/-- `XrProcessorStartTimeslice`. -/
def start (s : XrCpuTime M) (dt : Int) : XrCpuAccount M := ⟨s.startTimeslice dt, [], 0⟩

/-- After an iteration in which `XrExecuteFast` got to `interp` and returned `r`. -/
def after (a : XrCpuAccount M) (cyclesperms rtcIntervalMs r : Word) (interp : XrInterp M) :
    XrCpuAccount M :=
  let ticked := a.time.tick rtcIntervalMs
  let charged := { ticked with interp := interp }.charge cyclesperms r
  { time := charged.pause
    counts := a.counts ++ [r]
    ticks := a.ticks + (charged.timerInterruptCounter - ticked.timerInterruptCounter).toNat }

/-- As many milliseconds have been charged as have been executed. -/
structure Accounted (cyclesperms : Word) (timeslice : Int) (a : XrCpuAccount M) : Prop where
  charged : timeslice - a.time.timeslice = (a.spent / cyclesperms.toNat : Nat)
  ticks : a.ticks = a.spent / cyclesperms.toNat
  carry : a.time.cyclesThisRound.toNat < cyclesperms.toNat

/-- A count that completes one millisecond at most. -/
def CompletesOne (cyclesperms : Word) (a : XrCpuAccount M) (r : Word) : Prop :=
  (a.spent + r.toNat) / cyclesperms.toNat ≤ a.spent / cyclesperms.toNat + 1

end XrCpuAccount

variable [XrBuild M]

/-- A call of `XrExecuteFast` with this many cycles, and what it returns. -/
inductive XrInterp.Returns (cycles : Word) (s : XrInterp M) : Word → XrInterp M → Prop
  | atOnce (input : XrInput M) (idle : s.point = .noMore)
      (done : (s.call input cycles).point = .noMore) : Returns cycles s cycles (s.call input cycles)
  | executed {s' : XrInterp M} (run : XrInterp.Executes cycles s s') (done : s'.point = .noMore) :
      Returns cycles s s'.machine.proc.cyclesDone s'

namespace XrCpuAccount

/-- One iteration of the loop of `XrProcessorSchedule`. -/
inductive Iteration (cyclesperms : Word) (a : XrCpuAccount M) (r : Word) : XrCpuAccount M → Prop
  | mk {interp : XrInterp M} (rtcIntervalMs : Word) (more : 0 < a.time.timeslice)
      (returns : a.time.interp.Returns cyclesperms r interp) :
      Iteration cyclesperms a r (a.after cyclesperms rtcIntervalMs r interp)

/-- Any number of iterations, in however many calls of `XrProcessorSchedule`. -/
def Iterates (cyclesperms : Word) : XrCpuAccount M → XrCpuAccount M → Prop :=
  ReflTransGen fun a b => ∃ r, Iteration cyclesperms a r b

end XrCpuAccount

/-! ## What an iteration does to the account -/

namespace XrCpuAccount

section

omit [XrBuild M]

theorem spent_after (a : XrCpuAccount M) (cyclesperms rtcIntervalMs r : Word) (interp : XrInterp M) :
    (a.after cyclesperms rtcIntervalMs r interp).spent = a.spent + r.toNat := by
  unfold spent after
  rw [List.map_append, List.sum_append]
  rfl

theorem pause_eq (s : XrCpuTime M) :
    s.pause.timeslice = s.timeslice ∧ s.pause.cyclesThisRound = s.cyclesThisRound := by
  unfold XrCpuTime.pause
  extract_lets p
  split
  · exact ⟨rfl, rfl⟩
  · exact ⟨rfl, rfl⟩

theorem tick_eq (s : XrCpuTime M) (rtcIntervalMs : Word) :
    (s.tick rtcIntervalMs).timeslice = s.timeslice ∧
      (s.tick rtcIntervalMs).cyclesThisRound = s.cyclesThisRound := by
  unfold XrCpuTime.tick
  split
  · exact ⟨rfl, rfl⟩
  · exact ⟨rfl, rfl⟩

/-- The carry, and what an iteration has charged. -/
structure Carried (a : XrCpuAccount M) (cyclesperms r : Word) (b : XrCpuAccount M) (ms : Nat) :
    Prop where
  spent : b.spent = a.spent + r.toNat
  timeslice : b.time.timeslice = a.time.timeslice - ms
  ticks : b.ticks = a.ticks + ms
  carry : b.time.cyclesThisRound =
    a.time.cyclesThisRound + r - BitVec.ofNat 32 (ms * cyclesperms.toNat)

/-- An iteration charges one millisecond or none. -/
theorem carried_after (a : XrCpuAccount M) (cyclesperms rtcIntervalMs r : Word)
    (interp : XrInterp M) :
    ∃ ms, ms = (if cyclesperms ≤ a.time.cyclesThisRound + r then 1 else 0) ∧
      Carried a cyclesperms r (a.after cyclesperms rtcIntervalMs r interp) ms := by
  refine ⟨_, rfl, ?_⟩
  have hspent := a.spent_after cyclesperms rtcIntervalMs r interp
  unfold after
  extract_lets ticked charged
  obtain ⟨hslice, hcarry⟩ := tick_eq a.time rtcIntervalMs
  obtain ⟨hslice', hcarry'⟩ := pause_eq charged
  have hround : ticked.cyclesThisRound + r = a.time.cyclesThisRound + r := by rw [hcarry]
  by_cases hms : cyclesperms ≤ a.time.cyclesThisRound + r
  · have hcharged : charged =
        { ticked with
          interp := interp
          cyclesThisRound := ticked.cyclesThisRound + r - cyclesperms
          timeslice := ticked.timeslice - 1
          timerInterruptCounter := ticked.timerInterruptCounter + 1 } := by
      apply if_pos
      rw [hround]
      exact hms
    rw [if_pos hms]
    constructor
    case spent => exact hspent
    case timeslice =>
      rw [hslice', hcharged]
      show ticked.timeslice - 1 = _
      rw [hslice]
      rfl
    case ticks =>
      rw [hcharged]
      show a.ticks + (ticked.timerInterruptCounter + 1 - ticked.timerInterruptCounter).toNat = _
      rw [BitVec.add_comm, BitVec.add_sub_cancel]
      rfl
    case carry =>
      rw [hcarry', hcharged, Nat.one_mul, BitVec.ofNat_toNat, BitVec.setWidth_eq]
      show ticked.cyclesThisRound + r - cyclesperms = _
      rw [hround]
  · have hcharged : charged =
        { ticked with interp := interp, cyclesThisRound := ticked.cyclesThisRound + r } := by
      apply if_neg
      rw [hround]
      exact hms
    rw [if_neg hms]
    constructor
    case spent => exact hspent
    case timeslice =>
      rw [hslice', hcharged]
      show ticked.timeslice = _
      rw [hslice]
      exact (Int.sub_zero _).symm
    case ticks =>
      rw [hcharged]
      show a.ticks + (ticked.timerInterruptCounter - ticked.timerInterruptCounter).toNat = _
      rw [BitVec.sub_self]
      rfl
    case carry =>
      rw [hcarry', hcharged, Nat.zero_mul]
      show ticked.cyclesThisRound + r = _
      rw [hround]
      exact (BitVec.sub_zero _).symm

/-- Every cycle is charged, or carried. -/
structure Exact (cyclesperms : Word) (timeslice : Int) (a : XrCpuAccount M) : Prop where
  sum : a.spent = cyclesperms.toNat * a.ticks + a.time.cyclesThisRound.toNat
  slice : timeslice - a.time.timeslice = a.ticks
  carry : a.time.cyclesThisRound.toNat < cyclesperms.toNat

theorem Exact.accounted {cyclesperms : Word} {timeslice : Int} {a : XrCpuAccount M}
    (h : Exact cyclesperms timeslice a) : Accounted cyclesperms timeslice a := by
  have hpos : 0 < cyclesperms.toNat := Nat.lt_of_le_of_lt (Nat.zero_le _) h.carry
  have hticks : a.spent / cyclesperms.toNat = a.ticks := by
    rw [h.sum, Nat.mul_add_div hpos, Nat.div_eq_of_lt h.carry, Nat.add_zero]
  constructor
  · rw [hticks]
    exact h.slice
  · exact hticks.symm
  · exact h.carry

theorem exact_start {cyclesperms : Word} (hpos : 0 < cyclesperms.toNat) (s : XrCpuTime M)
    (dt : Int) : Exact cyclesperms (start s dt).time.timeslice (start s dt) where
  sum := by
    show 0 = cyclesperms.toNat * 0 + 0
    omega
  slice := Int.sub_self _
  carry := hpos

theorem Exact.after {cyclesperms : Word} (hint : cyclesperms.toNat < 0x80000000)
    {timeslice : Int} {a : XrCpuAccount M} (h : Exact cyclesperms timeslice a)
    (rtcIntervalMs r : Word) (interp : XrInterp M) (hone : CompletesOne cyclesperms a r) :
    Exact cyclesperms timeslice (a.after cyclesperms rtcIntervalMs r interp) := by
  have hpos : 0 < cyclesperms.toNat := Nat.lt_of_le_of_lt (Nat.zero_le _) h.carry
  obtain ⟨hsum, hslice, hcarry⟩ := h
  -- The carry and the count are less than two milliseconds, so they do not overflow.
  have hround : a.time.cyclesThisRound.toNat + r.toNat < 2 * cyclesperms.toNat := by
    unfold CompletesOne at hone
    rw [hsum, Nat.add_assoc, Nat.mul_add_div hpos, Nat.mul_add_div hpos, Nat.div_eq_of_lt hcarry]
      at hone
    have hle : (a.time.cyclesThisRound.toNat + r.toNat) / cyclesperms.toNat < 2 := by omega
    have hlt := (Nat.div_lt_iff_lt_mul hpos).mp hle
    exact hlt
  have hadd : (a.time.cyclesThisRound + r).toNat = a.time.cyclesThisRound.toNat + r.toNat := by
    rw [BitVec.toNat_add]
    omega
  obtain ⟨ms, hms, hcarried⟩ := a.carried_after cyclesperms rtcIntervalMs r interp
  have hle : cyclesperms ≤ a.time.cyclesThisRound + r ↔
      cyclesperms.toNat ≤ a.time.cyclesThisRound.toNat + r.toNat := by
    rw [BitVec.le_def, hadd]
  by_cases hfull : cyclesperms ≤ a.time.cyclesThisRound + r
  · rw [if_pos hfull] at hms
    subst hms
    have hleft : (a.after cyclesperms rtcIntervalMs r interp).time.cyclesThisRound.toNat =
        a.time.cyclesThisRound.toNat + r.toNat - cyclesperms.toNat := by
      rw [hcarried.carry, Nat.one_mul, BitVec.ofNat_toNat, BitVec.setWidth_eq,
        BitVec.toNat_sub_of_le hfull, hadd]
    have hfull' := hle.mp hfull
    constructor
    · rw [hcarried.spent, hcarried.ticks, hleft, hsum, Nat.mul_add]
      omega
    · rw [hcarried.timeslice, hcarried.ticks]
      push_cast
      omega
    · rw [hleft]
      omega
  · rw [if_neg hfull] at hms
    subst hms
    have hleft : (a.after cyclesperms rtcIntervalMs r interp).time.cyclesThisRound.toNat =
        a.time.cyclesThisRound.toNat + r.toNat := by
      rw [hcarried.carry, Nat.zero_mul, BitVec.sub_zero, hadd]
    have hfull' : ¬cyclesperms.toNat ≤ a.time.cyclesThisRound.toNat + r.toNat :=
      fun hge => hfull (hle.mpr hge)
    constructor
    · rw [hcarried.spent, hcarried.ticks, hleft, hsum, Nat.add_zero]
      omega
    · rw [hcarried.timeslice, hcarried.ticks]
      push_cast
      omega
    · rw [hleft]
      omega

/-- More than one millisecond cannot be charged. -/
theorem Accounted.completesOne {cyclesperms : Word} {timeslice : Int} {a : XrCpuAccount M}
    (h : Accounted cyclesperms timeslice a) (rtcIntervalMs r : Word) (interp : XrInterp M)
    (h' : Accounted cyclesperms timeslice (a.after cyclesperms rtcIntervalMs r interp)) :
    CompletesOne cyclesperms a r := by
  obtain ⟨ms, hms, hcarried⟩ := a.carried_after cyclesperms rtcIntervalMs r interp
  have hle : ms ≤ 1 := by
    rw [hms]
    split
    · exact Nat.le_refl _
    · exact Nat.zero_le _
  have hticks := h'.ticks
  rw [hcarried.ticks, hcarried.spent, h.ticks] at hticks
  unfold CompletesOne
  rw [← hticks]
  exact Nat.add_le_add_left hle _

end

theorem Exact.iterates {cyclesperms : Word} (hint : cyclesperms.toNat < 0x80000000)
    {timeslice : Int} {a b : XrCpuAccount M} (h : Exact cyclesperms timeslice a)
    (run : Iterates cyclesperms a b)
    (hone : ∀ c r c', Iterates cyclesperms a c → Iteration cyclesperms c r c' →
      Iterates cyclesperms c' b → CompletesOne cyclesperms c r) :
    Exact cyclesperms timeslice b := by
  induction run with
  | refl => exact h
  | tail hrun hstep ih =>
      obtain ⟨r, hiter⟩ := hstep
      have hbefore := ih fun c r' c' hc hc' hrest => hone c r' c' hc hc' (hrest.tail ⟨r, hiter⟩)
      have hlast := hone _ r _ hrun hiter .refl
      cases hiter with
      | mk rtcIntervalMs more returns => exact hbefore.after hint rtcIntervalMs r _ hlast

end XrCpuAccount

open XrCpuAccount

theorem xrCyclesPerMs_toNat {frequency : Nat} (hfreq : frequency < 0x80000000) :
    (xrCyclesPerMs frequency).toNat = (frequency + 999) / 1000 := by
  unfold xrCyclesPerMs
  rw [BitVec.toNat_ofNat]
  omega

/-- Since the start of a timeslice, with the frequency an `int`. -/
theorem cpuTime_accounted_iff {frequency : Nat} (hpos : 0 < frequency)
    (hint : frequency < 0x80000000) (s : XrCpuTime M) (dt : Int) (a : XrCpuAccount M) :
    (∀ b, Iterates (xrCyclesPerMs frequency) (start s dt) b →
      Iterates (xrCyclesPerMs frequency) b a →
      Accounted (xrCyclesPerMs frequency) (start s dt).time.timeslice b) ↔
    (∀ b r b', Iterates (xrCyclesPerMs frequency) (start s dt) b →
      Iteration (xrCyclesPerMs frequency) b r b' → Iterates (xrCyclesPerMs frequency) b' a →
      CompletesOne (xrCyclesPerMs frequency) b r) := by
  have hms := xrCyclesPerMs_toNat hint
  generalize xrCyclesPerMs frequency = cyclesperms at *
  have hmspos : 0 < cyclesperms.toNat := by omega
  constructor
  · intro haccounted b r b' hb hiter hrest
    have hbefore := haccounted b hb (.head ⟨r, hiter⟩ hrest)
    have hafter := haccounted b' (hb.tail ⟨r, hiter⟩) hrest
    cases hiter with
    | mk rtcIntervalMs more returns => exact hbefore.completesOne rtcIntervalMs r _ hafter
  · intro hone b hb hrest
    apply Exact.accounted
    apply (exact_start hmspos s dt).iterates (by omega) hb
    intro c r c' hc hiter hc'
    exact hone c r c' hc hiter (hc'.trans hrest)

theorem XrCpuAccount.Iterates.counts {cyclesperms : Word} {a b : XrCpuAccount M}
    (run : Iterates cyclesperms a b) : a.counts <+: b.counts := by
  induction run with
  | refl => exact List.prefix_refl _
  | tail _ hstep ih =>
      obtain ⟨r, hiter⟩ := hstep
      cases hiter with
      | mk rtcIntervalMs more returns => exact ih.trans (List.prefix_append _ _)

end

/-! ## A processor that goes to sleep, one that goes in a circle and one that is nowhere -/

open XrCpuAccount

/-- Nothing happens outside. -/
def quietInput : XrInput (XrFastMem (XrStation Unit)) := ⟨id, false, fun _ => rfl⟩

/-- A processor of a station without RAM, about to start a timeslice of its own. -/
def timeOf (pc : Word) : XrCpuTime (XrFastMem (XrStation Unit)) where
  interp :=
    { machine :=
        { stationMachine 0 with
          proc := { XrProcessor.zeroed 0 with running := true, pc := pc } }
      cache := XrIblockCache.initialBlockCache
      point := .noMore }
  timeslice := 0
  cyclesThisRound := 0
  timerInterruptCounter := 0

/-- Its call of `XrExecuteFast` in a timeslice of `dt`, with this many inputs after it. -/
def quietCall (t : XrCpuTime (XrFastMem (XrStation Unit))) (dt : Int) (cycles : Word) :
    Nat → XrInterp (XrFastMem (XrStation Unit))
  | 0 => (start t dt).time.interp.call quietInput cycles
  | n + 1 => ((quietCall t dt cycles n).next quietInput).getD (quietCall t dt cycles n)

theorem quietCall_next {t : XrCpuTime (XrFastMem (XrStation Unit))} {dt : Int} {cycles : Word}
    {n : Nat} (h : ((quietCall t dt cycles n).next quietInput).isSome = true) :
    (quietCall t dt cycles n).next quietInput = some (quietCall t dt cycles (n + 1)) := by
  obtain ⟨s, hs⟩ := Option.isSome_iff_exists.mp h
  show _ = some (((quietCall t dt cycles n).next quietInput).getD (quietCall t dt cycles n))
  rw [hs]
  rfl

theorem quietCall_executes {t : XrCpuTime (XrFastMem (XrStation Unit))} {dt : Int} {cycles : Word}
    (idle : (start t dt).time.interp.point = .noMore)
    (starts : (quietCall t dt cycles 0).point = .check) {n : Nat}
    (h : ∀ k < n, ((quietCall t dt cycles k).next quietInput).isSome = true) :
    XrInterp.Executes cycles (start t dt).time.interp (quietCall t dt cycles n) := by
  induction n with
  | zero => exact .call quietInput idle starts
  | succ n ih =>
      have hbefore := ih fun k hk => h k (Nat.lt_succ_of_lt hk)
      exact hbefore.next quietInput (quietCall_next (h n (Nat.lt_succ_self n)))

/-- A processor at HLT in its boot ROM. -/
def dozing : XrCpuTime (XrFastMem (XrStation Unit)) :=
  let s := timeOf 0xFFFE1000
  let mem := s.interp.machine.mem
  let bus := { mem.bus with bootRom := fun k => byteOf 0xC0000029 (k % 4) }
  { s with
    interp := { s.interp with machine := { s.interp.machine with mem := { mem with bus := bus } } } }

/-- Its call of `XrExecuteFast` at 20 MHz. -/
def dozes : Nat → XrInterp (XrFastMem (XrStation Unit)) :=
  quietCall dozing 3 (xrCyclesPerMs 20000000)

/-- It executes one cycle and sleeps for so many milliseconds. -/
def dozed : Nat → XrCpuAccount (XrFastMem (XrStation Unit))
  | 0 => (start dozing 3).after (xrCyclesPerMs 20000000) 0 1 (dozes 5)
  | n + 1 => (dozed n).after (xrCyclesPerMs 20000000) 0 20000
      ((dozed n).time.interp.call quietInput (xrCyclesPerMs 20000000))

theorem dozes_executes :
    XrInterp.Executes (xrCyclesPerMs 20000000) (start dozing 3).time.interp (dozes 5) :=
  quietCall_executes rfl (by decide +kernel) (by decide +kernel)

set_option maxRecDepth 20000 in
theorem dozed_iterates : Iterates (xrCyclesPerMs 20000000) (start dozing 3) (dozed 2) := by
  have hfirst : Iteration (xrCyclesPerMs 20000000) (start dozing 3) 1 (dozed 0) :=
    .mk 0 (by decide) (.executed dozes_executes rfl)
  have hsecond : Iteration (xrCyclesPerMs 20000000) (dozed 0) 20000 (dozed 1) :=
    .mk 0 (by decide) (.atOnce quietInput rfl rfl)
  have hthird : Iteration (xrCyclesPerMs 20000000) (dozed 1) 20000 (dozed 2) :=
    .mk 0 (by decide) (.atOnce quietInput rfl rfl)
  exact .tail (.tail (.single ⟨1, hfirst⟩) ⟨20000, hsecond⟩) ⟨20000, hthird⟩

set_option maxRecDepth 20000 in
/-- Two milliseconds and a cycle: the cycle is carried. -/
theorem cpuTime_accounted_dozed :
    Accounted (xrCyclesPerMs 20000000) (start dozing 3).time.timeslice (dozed 2) ∧
      (dozed 2).spent = 40001 ∧ (dozed 2).ticks = 2 ∧ (dozed 2).time.cyclesThisRound = 1 := by
  refine ⟨?_, rfl, rfl, rfl⟩
  apply (cpuTime_accounted_iff (by decide) (by decide) dozing 3 (dozed 2)).mpr
  · intro b r b' _ hiter hrest
    have hcounts : b.counts ++ [r] <+: [1, 20000, 20000] := by
      have hprefix := hrest.counts
      cases hiter
      exact hprefix
    unfold CompletesOne spent
    rcases hb : b.counts with _ | ⟨x, _ | ⟨y, _ | ⟨z, rest⟩⟩⟩
    · rw [hb] at hcounts
      obtain rfl : r = 1 := by simpa using hcounts
      decide
    · rw [hb] at hcounts
      obtain ⟨rfl, rfl⟩ : x = 1 ∧ r = 20000 := by simpa using hcounts
      decide
    · rw [hb] at hcounts
      obtain ⟨rfl, rfl, rfl⟩ : x = 1 ∧ y = 20000 ∧ r = 20000 := by simpa using hcounts
      decide
    · rw [hb] at hcounts
      simp at hcounts
  · exact dozed_iterates
  · exact .refl

/-- A processor at a branch to itself in its boot ROM, 32 blocks before it looks. -/
def circling : XrCpuTime (XrFastMem (XrStation Unit)) :=
  let s := timeOf 0xFFFE1000
  let proc := { s.interp.machine.proc with dispatches := 1 }
  let bus := { s.interp.machine.mem.bus with bootRom := fun k => byteOf 0x0000003D (k % 4) }
  let mem := { s.interp.machine.mem with bus := bus }
  { s with
    interp := { s.interp with machine := { s.interp.machine with proc := proc, mem := mem } } }

/-- Its call of `XrExecuteFast` for one cycle. -/
def circles : Nat → XrInterp (XrFastMem (XrStation Unit)) := quietCall circling 3 1

theorem circles_isSome : ∀ n < 36, ((circles n).next quietInput).isSome = true := by
  decide +kernel

theorem circles_next {n : Nat} (hn : n < 36) :
    (circles n).next quietInput = some (circles (n + 1)) := quietCall_next (circles_isSome n hn)

theorem circles_executes :
    XrInterp.Executes 1 (start circling 3).time.interp (circles 36) :=
  quietCall_executes rfl (by decide +kernel) circles_isSome

/-- Each time around it dispatches a block of one cycle. -/
theorem circles_around : ∀ n < 32, (circles (n + 2)).point ≠ .retry ∧
    (circles (n + 2)).dispatched (circles (n + 3)) = 1 ∧
    (circles (n + 2)).charged (circles (n + 3)) = 1 := by
  decide +kernel

theorem circles_chain {n : Nat} (hn : n ≤ 32) : (circles 1).Chain n n (circles (n + 2)) := by
  induction n with
  | zero =>
      have htests : (circles 1).point = .retry := by decide +kernel
      have hcharged : (circles 1).charged (circles 2) = 0 := by decide +kernel
      have hdispatched : (circles 1).dispatched (circles 2) = 0 := by
        unfold XrInterp.dispatched
        rw [htests]
      have hlook := XrInterp.Chain.look quietInput htests (circles_next (by decide))
      rw [hdispatched, hcharged] at hlook
      exact hlook
  | succ n ih =>
      obtain ⟨haway, hdispatched, hcharged⟩ := circles_around n hn
      have hnext := (ih (Nat.le_of_succ_le hn)).next quietInput haway
        (circles_next (Nat.lt_of_lt_of_le (Nat.add_lt_add_right hn 2) (by decide)))
      rw [hdispatched, hcharged] at hnext
      exact hnext

/-- All of the 32 blocks, and a call for one cycle that returns 32. -/
theorem overrun_bounded_circles :
    ((circles 1).Chain 32 32 (circles 34) ∧ 32 ≤ 32 ∧ 32 ≤ 33 * xrIblockInsts) ∧
    (circles 36).machine.proc.cyclesDone.toNat = 32 ∧
    (circles 36).machine.proc.cyclesDone.toNat < (1 : Word).toNat + 33 * xrIblockInsts := by
  have hchain := circles_chain (Nat.le_refl 32)
  refine ⟨⟨hchain, overrun_bounded.chain hchain⟩, by decide +kernel, ?_⟩
  exact overrun_bounded.returned circles_executes (by decide +kernel)

/-- A jump to a branch of the bus with nothing in it. -/
def nowhere : XrCpuTime (XrFastMem (XrStation Unit)) := timeOf 0x10000000

/-- Its call of `XrExecuteFast`. -/
def lost (cycles : Word) : Nat → XrInterp (XrFastMem (XrStation Unit)) :=
  quietCall nowhere 1 cycles

theorem lost_executes : XrInterp.Executes 1 (start nowhere 1).time.interp (lost 1 3) :=
  quietCall_executes rfl (by decide +kernel) (by decide +kernel)

/-- At 1 kHz a fetch that fails costs 32 milliseconds, and one is charged. -/
theorem failed_fetch_charged_once :
    Iteration (xrCyclesPerMs 1000) (start nowhere 1) 32
      ((start nowhere 1).after (xrCyclesPerMs 1000) 0 32 (lost 1 3)) ∧
    ¬Accounted (xrCyclesPerMs 1000) (start nowhere 1).time.timeslice
      ((start nowhere 1).after (xrCyclesPerMs 1000) 0 32 (lost 1 3)) := by
  constructor
  · exact .mk 0 (by decide) (.executed lost_executes rfl)
  · intro haccounted
    exact absurd haccounted.carry (by decide)

end Xremu
