import Xremu.Concurrency.Tally

/-!
# The mutex

`XrMutex` is an atomic counter and a semaphore. A thread that finds the counter zero
has the mutex at once; another one waits for a token of the semaphore, which `XrUnlockMutex`
posts after it has found that it was not alone.

The steps of the three functions are interleaved in any order, and a thread may call
`XrLockMutex` or `XrTryLockMutex` while it holds the mutex. The semaphore counts; the
`int` counter is an integer, since fewer threads exist than it can count.
-/

namespace Xremu

open Concurrency

/-- Where a thread is in the functions of a mutex. -/
inductive XrMutexCall where
  | out
  | waiting      -- in `XrWaitSemaphore` of `XrLockMutex`
  | posting      -- in `XrUnlockMutex`, after the subtraction
  | trying       -- in `XrTryLockMutex`, before the counter is read
  | exchanging   -- in `XrTryLockMutex`, after the counter was read as zero
deriving DecidableEq

structure XrMutexPlace where
  holds : Bool
  call : XrMutexCall
deriving DecidableEq

structure XrMutex (T : Type) where
  contentionCounter : Int
  semaphore : Nat
  place : T → XrMutexPlace

/-- `XrInitializeMutex`. -/
def xrInitializeMutex {T : Type} : XrMutex T := ⟨0, 0, fun _ => ⟨false, .out⟩⟩

section

variable {T : Type} [DecidableEq T]

/-- The mutex after a step that leaves thread `t` at `place`. -/
def XrMutex.move (s : XrMutex T) (t : T) (counter : Int) (semaphore : Nat)
    (place : XrMutexPlace) : XrMutex T :=
  ⟨counter, semaphore, Function.update s.place t place⟩

/-- An atomic step of thread `t`. -/
inductive XrMutexStep (s : XrMutex T) (t : T) : XrMutex T → Prop
  /-- `XrLockMutex`: the counter was zero. -/
  | lock (call : (s.place t).call = .out) (free : s.contentionCounter = 0) :
      XrMutexStep s t (s.move t (s.contentionCounter + 1) s.semaphore ⟨true, .out⟩)
  | wait (call : (s.place t).call = .out) (taken : s.contentionCounter ≠ 0) :
      XrMutexStep s t
        (s.move t (s.contentionCounter + 1) s.semaphore ⟨(s.place t).holds, .waiting⟩)
  | wake (call : (s.place t).call = .waiting) (token : s.semaphore ≠ 0) :
      XrMutexStep s t (s.move t s.contentionCounter (s.semaphore - 1) ⟨true, .out⟩)
  /-- `XrUnlockMutex`: the counter was one. -/
  | unlock (call : s.place t = ⟨true, .out⟩) (alone : s.contentionCounter = 1) :
      XrMutexStep s t (s.move t (s.contentionCounter - 1) s.semaphore ⟨false, .out⟩)
  | unlockNext (call : s.place t = ⟨true, .out⟩) (waiters : s.contentionCounter ≠ 1) :
      XrMutexStep s t (s.move t (s.contentionCounter - 1) s.semaphore ⟨false, .posting⟩)
  | post (call : (s.place t).call = .posting) :
      XrMutexStep s t
        (s.move t s.contentionCounter (s.semaphore + 1) ⟨(s.place t).holds, .out⟩)
  /-- `XrTryLockMutex`. -/
  | try (call : (s.place t).call = .out) :
      XrMutexStep s t
        (s.move t s.contentionCounter s.semaphore ⟨(s.place t).holds, .trying⟩)
  | tryTaken (call : (s.place t).call = .trying) (taken : s.contentionCounter ≠ 0) :
      XrMutexStep s t (s.move t s.contentionCounter s.semaphore ⟨(s.place t).holds, .out⟩)
  | tryFree (call : (s.place t).call = .trying) (free : s.contentionCounter = 0) :
      XrMutexStep s t
        (s.move t s.contentionCounter s.semaphore ⟨(s.place t).holds, .exchanging⟩)
  | exchange (call : (s.place t).call = .exchanging) (free : s.contentionCounter = 0) :
      XrMutexStep s t (s.move t 1 s.semaphore ⟨true, .out⟩)
  | exchangeFails (call : (s.place t).call = .exchanging) (taken : s.contentionCounter ≠ 0) :
      XrMutexStep s t
        (s.move t s.contentionCounter s.semaphore ⟨(s.place t).holds, .trying⟩)

/-- The states of every interleaving. -/
inductive XrMutex.Reach : XrMutex T → Prop
  | init : Reach xrInitializeMutex
  | step {s s' : XrMutex T} (t : T) (h : Reach s) (step : XrMutexStep s t s') : Reach s'

end

/-! ## The invariant -/

namespace XrMutexPlace

def holding (p : XrMutexPlace) : Nat := if p.holds then 1 else 0

def waiting (p : XrMutexPlace) : Nat := if p.call = .waiting then 1 else 0

/-- How often `ContentionCounter` counts the thread. -/
def counted (p : XrMutexPlace) : Nat := p.holding + p.waiting

/-- Has the thread the mutex, or the token it is about to post? -/
def owns (p : XrMutexPlace) : Nat := p.holding + if p.call = .posting then 1 else 0

theorem holding_eq_zero {p : XrMutexPlace} : p.holding = 0 ↔ p.holds = false := by
  simp [holding]

end XrMutexPlace

/-- How many rights to a mutex of this counter there are. -/
def XrMutex.rights (counter : Int) : Nat := if counter = 0 then 0 else 1

section

variable {T : Type} [Fintype T]

/-- There is one right to the mutex while anybody wants it: held, about to be posted, or
a token of the semaphore. -/
structure XrMutex.Inv (s : XrMutex T) : Prop where
  counter : s.contentionCounter = tally XrMutexPlace.counted s.place
  right : tally XrMutexPlace.owns s.place + s.semaphore = XrMutex.rights s.contentionCounter

theorem XrMutex.inv_init : (xrInitializeMutex : XrMutex T).Inv := by
  constructor
  · simp [xrInitializeMutex, tally, XrMutexPlace.counted, XrMutexPlace.holding,
      XrMutexPlace.waiting]
  · simp [xrInitializeMutex, tally, XrMutexPlace.owns, XrMutexPlace.holding, XrMutex.rights]

/-- A thread that holds the mutex keeps the counter above zero. -/
theorem XrMutex.Inv.counted_le {s : XrMutex T} (h : s.Inv) (t : T) :
    ((s.place t).counted : Int) ≤ s.contentionCounter := by
  have hle := le_tally XrMutexPlace.counted s.place t
  rw [h.counter]
  exact Int.ofNat_le.mpr hle

theorem XrMutex.Inv.owns_le {s : XrMutex T} (h : s.Inv) (t : T) :
    (s.place t).owns + s.semaphore ≤ 1 := by
  have hle := le_tally XrMutexPlace.owns s.place t
  have hright := h.right
  unfold XrMutex.rights at hright
  split at hright <;> omega

variable [DecidableEq T]

/-- A step keeps the invariant when it moves the counter with what it counts of the thread,
and neither makes nor loses a right. -/
theorem XrMutex.Inv.move {s : XrMutex T} (h : s.Inv) {t : T} {counter : Int}
    {semaphore : Nat} {p : XrMutexPlace}
    (hcounter : counter + (s.place t).counted = s.contentionCounter + p.counted)
    (hright : p.owns + semaphore + XrMutex.rights s.contentionCounter =
      (s.place t).owns + s.semaphore + XrMutex.rights counter) :
    (s.move t counter semaphore p).Inv := by
  obtain ⟨hcount, hown⟩ := h
  have hcounted := tally_update XrMutexPlace.counted s.place t p
  have howns := tally_update XrMutexPlace.owns s.place t p
  constructor
  · show counter = tally XrMutexPlace.counted (Function.update s.place t p)
    omega
  · show tally XrMutexPlace.owns (Function.update s.place t p) + semaphore =
      XrMutex.rights counter
    omega

theorem XrMutex.inv_step {s s' : XrMutex T} {t : T} (h : s.Inv) (step : XrMutexStep s t s') :
    s'.Inv := by
  have hin := h.counted_le t
  have hown := h.owns_le t
  simp only [XrMutexPlace.counted, XrMutexPlace.owns] at hin hown
  -- The thread that takes the mutex did not hold it: the counter, or the token, says so.
  cases step with
  | lock call free =>
      have hout : (s.place t).holds = false := XrMutexPlace.holding_eq_zero.mp (by omega)
      refine h.move ?_ ?_
      · simp [XrMutexPlace.counted, XrMutexPlace.waiting, call, hout, XrMutexPlace.holding]
      · simp [XrMutexPlace.owns, call, hout, XrMutexPlace.holding, XrMutex.rights, free]
        omega
  | wait call taken =>
      have hsame : XrMutexPlace.holding ⟨(s.place t).holds, .waiting⟩ = (s.place t).holding :=
        rfl
      refine h.move ?_ ?_
      · simp [XrMutexPlace.counted, XrMutexPlace.waiting, call, hsame]
        omega
      · have hcounter : s.contentionCounter + 1 ≠ 0 := by omega
        simp [XrMutexPlace.owns, call, hsame, XrMutex.rights, taken, hcounter]
  | wake call token =>
      have hout : (s.place t).holds = false := XrMutexPlace.holding_eq_zero.mp (by omega)
      refine h.move ?_ ?_
      · simp [XrMutexPlace.counted, XrMutexPlace.waiting, call, hout, XrMutexPlace.holding]
      · simp [XrMutexPlace.owns, call, hout, XrMutexPlace.holding]
        omega
  | unlock call alone =>
      refine h.move ?_ ?_
      · simp [XrMutexPlace.counted, XrMutexPlace.waiting, call, XrMutexPlace.holding]
      · simp [XrMutexPlace.owns, call, XrMutexPlace.holding, XrMutex.rights, alone]
        omega
  | unlockNext call waiters =>
      have hone : (s.place t).holding = 1 := by simp [call, XrMutexPlace.holding]
      refine h.move ?_ ?_
      · simp [XrMutexPlace.counted, XrMutexPlace.waiting, call, XrMutexPlace.holding]
      · have hcounter : s.contentionCounter ≠ 0 := by omega
        have hless : s.contentionCounter - 1 ≠ 0 := by omega
        simp [XrMutexPlace.owns, call, XrMutexPlace.holding, XrMutex.rights, hcounter, hless]
  | post call =>
      have hsame : XrMutexPlace.holding ⟨(s.place t).holds, .out⟩ = (s.place t).holding := rfl
      refine h.move ?_ ?_
      · simp [XrMutexPlace.counted, XrMutexPlace.waiting, call, hsame]
      · simp [XrMutexPlace.owns, call, hsame]
        omega
  | «try» call =>
      have hsame : XrMutexPlace.holding ⟨(s.place t).holds, .trying⟩ = (s.place t).holding :=
        rfl
      refine h.move ?_ ?_
      · simp [XrMutexPlace.counted, XrMutexPlace.waiting, call, hsame]
      · simp [XrMutexPlace.owns, call, hsame]
  | tryTaken call taken =>
      have hsame : XrMutexPlace.holding ⟨(s.place t).holds, .out⟩ = (s.place t).holding := rfl
      refine h.move ?_ ?_
      · simp [XrMutexPlace.counted, XrMutexPlace.waiting, call, hsame]
      · simp [XrMutexPlace.owns, call, hsame]
  | tryFree call free =>
      have hsame : XrMutexPlace.holding ⟨(s.place t).holds, .exchanging⟩ =
          (s.place t).holding := rfl
      refine h.move ?_ ?_
      · simp [XrMutexPlace.counted, XrMutexPlace.waiting, call, hsame]
      · simp [XrMutexPlace.owns, call, hsame]
  | exchange call free =>
      have hout : (s.place t).holds = false := XrMutexPlace.holding_eq_zero.mp (by omega)
      refine h.move ?_ ?_
      · simp [XrMutexPlace.counted, XrMutexPlace.waiting, call, hout, XrMutexPlace.holding,
          free]
      · simp [XrMutexPlace.owns, call, hout, XrMutexPlace.holding, XrMutex.rights, free]
        omega
  | exchangeFails call taken =>
      have hsame : XrMutexPlace.holding ⟨(s.place t).holds, .trying⟩ = (s.place t).holding :=
        rfl
      refine h.move ?_ ?_
      · simp [XrMutexPlace.counted, XrMutexPlace.waiting, call, hsame]
      · simp [XrMutexPlace.owns, call, hsame]

theorem XrMutex.inv_reach {s : XrMutex T} (h : s.Reach) : s.Inv := by
  induction h with
  | init => exact XrMutex.inv_init
  | step t _ step ih => exact XrMutex.inv_step ih step

/-! ## Mutual exclusion, the counter, and no lost wakeup -/

/-- At most one thread holds the mutex; `ContentionCounter` counts those that hold it and
those that wait or are entering, in both roles a holder that waits for itself; and a token
is there for the waiters when nobody holds the mutex or is about to post. -/
structure XrMutex.Sound (s : XrMutex T) : Prop where
  exclusive : ∀ t u, (s.place t).holds = true → (s.place u).holds = true → t = u
  counter : s.contentionCounter =
    ↑((Finset.univ.filter fun t => (s.place t).holds = true).card +
      (Finset.univ.filter fun t => (s.place t).call = .waiting).card)
  wakes : (∀ t, (s.place t).holds = false ∧ (s.place t).call ≠ .posting) →
    (∀ t, (s.place t).call ≠ .waiting) ∨ s.semaphore ≠ 0

theorem XrMutex.Inv.exclusive {s : XrMutex T} (h : s.Inv) {t u : T}
    (ht : (s.place t).holds = true) (hu : (s.place u).holds = true) : t = u := by
  have hone : tally XrMutexPlace.owns s.place ≤ 1 := by
    have hright := h.right
    unfold XrMutex.rights at hright
    split at hright <;> omega
  refine eq_of_tally_le_one hone ?_ ?_
  · simp [XrMutexPlace.owns, XrMutexPlace.holding, ht]
  · simp [XrMutexPlace.owns, XrMutexPlace.holding, hu]

omit [DecidableEq T] in
theorem XrMutex.Inv.wakes {s : XrMutex T} (h : s.Inv)
    (hfree : ∀ t, (s.place t).holds = false ∧ (s.place t).call ≠ .posting) :
    (∀ t, (s.place t).call ≠ .waiting) ∨ s.semaphore ≠ 0 := by
  have hnone : tally XrMutexPlace.owns s.place = 0 := by
    by_contra hsome
    obtain ⟨t, ht⟩ := exists_of_tally_pos (Nat.pos_of_ne_zero hsome)
    simp [XrMutexPlace.owns, XrMutexPlace.holding, (hfree t).1, (hfree t).2] at ht
  by_cases htoken : s.semaphore = 0
  · left
    intro t hwait
    -- No right to the mutex is left, so its counter is zero and counts no waiter.
    have hzero : s.contentionCounter = 0 := by
      have hright := h.right
      unfold XrMutex.rights at hright
      by_contra hcounter
      rw [if_neg hcounter] at hright
      omega
    have hin := h.counted_le t
    simp [XrMutexPlace.counted, XrMutexPlace.waiting, hwait] at hin
    omega
  · exact Or.inr htoken

theorem xrMutex_sound {s : XrMutex T} (h : s.Reach) : s.Sound := by
  have hinv := XrMutex.inv_reach h
  refine ⟨fun t u => hinv.exclusive, ?_, hinv.wakes⟩
  have hsum := tally_add XrMutexPlace.holding XrMutexPlace.waiting s.place
  rw [hinv.counter, Finset.card_filter, Finset.card_filter]
  exact congrArg Nat.cast hsum

/-- One thread holds the mutex and the other waits for it. -/
def xrMutexContended : XrMutex (Fin 2) :=
  ((xrInitializeMutex.move 0 1 0 ⟨true, .out⟩).move 1 2 0 ⟨false, .waiting⟩)

theorem xrMutexContended_reach : xrMutexContended.Reach := by
  have hlock : XrMutexStep (xrInitializeMutex : XrMutex (Fin 2)) 0
      (xrInitializeMutex.move 0 1 0 ⟨true, .out⟩) := .lock rfl rfl
  have hwait : XrMutexStep ((xrInitializeMutex : XrMutex (Fin 2)).move 0 1 0 ⟨true, .out⟩) 1
      xrMutexContended := .wait rfl (by decide)
  exact .step 1 (.step 0 .init hlock) hwait

theorem xrMutex_sound_contended :
    xrMutexContended.Sound ∧ (xrMutexContended.place 0).holds = true ∧
      (xrMutexContended.place 1).call = .waiting :=
  ⟨xrMutex_sound xrMutexContended_reach, by decide, by decide⟩

end

end Xremu
