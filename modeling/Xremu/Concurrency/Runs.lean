import Xremu.Concurrency.Rely

/-!
# Runs of lock programs: what they return, and who waits for whom

`Runs` is an interleaving together with the results the threads have returned, in the
order in which they did. An operation returns when it gives back its last mutex: what
is left of its code then touches nothing shared.

A thread waits for another that holds the mutex it wants. Ranking the threads by
where they are rules out that they wait in a circle (`not_circular_of_rank`).
-/

namespace Concurrency

/-- Threads that run the code of their operations one after another, and promise each
other nothing. -/
def Protocol.ofCode {σ ι τ o r : Type} [DecidableEq ι] (code : τ → o → Prog σ ι (o ⊕ r)) :
    Protocol σ ι τ o r where
  code := code
  may _ _ := True
  Inv _ := True
  Rely _ _ _ := True
  Idle _ _ := True
  Pre _ _ _ := True
  rely_refl _ _ := trivial
  rely_trans _ _ := trivial
  rely_acquire _ _ := trivial
  rely_release _ _ := trivial
  idle_stable _ _ := trivial
  pre_stable _ _ := trivial
  pre_of_idle _ _ := trivial

section

variable {σ ι τ o r : Type}

/-- What a thread returns in a step: its result, when it gives back its last mutex. -/
def returned (p : τ) : Thread σ ι o r → Thread σ ι o r → List (τ × r)
  | .busy (.unlock _ _), .busy (.ret (.inr out)) => [(p, out)]
  | _, _ => []

open Protocol (Config)

/-! ## Waiting -/

/-- Thread `p` waits for a mutex that `q` holds. -/
def WaitsFor (c : Config σ ι τ o r) (p q : τ) : Prop :=
  ∃ l next, c.threads p = .busy (.lock l next) ∧ c.world.owner l = some q

/-- Some threads wait for each other in a circle. -/
def CircularWait (c : Config σ ι τ o r) : Prop := ∃ p, Relation.TransGen (WaitsFor c) p p

theorem not_circular_of_rank {c : Config σ ι τ o r} (rank : τ → Nat)
    (h : ∀ p q, WaitsFor c p q → rank q < rank p) : ¬CircularWait c := by
  have hall : ∀ p q, Relation.TransGen (WaitsFor c) p q → rank q < rank p := by
    intro p q hpq
    induction hpq with
    | single hw => exact h _ _ hw
    | tail _ hw ih => exact Nat.lt_trans (h _ _ hw) ih
  rintro ⟨p, hp⟩
  exact Nat.lt_irrefl _ (hall p p hp)

/-! ## What has been returned -/

variable [DecidableEq ι] [DecidableEq τ]

/-- The interleavings from the state `s`, all threads idle and all mutexes free, with
what was returned. -/
inductive Runs (P : Protocol σ ι τ o r) (s : σ) : Config σ ι τ o r → List (τ × r) → Prop
  | start : Runs P s ⟨⟨s, fun _ => none⟩, fun _ => .idle⟩ []
  | step {c c' trace p} : Runs P s c trace → P.Step p c c' →
      Runs P s c' (trace ++ returned p (c.threads p) (c'.threads p))

/-- An invariant of the configuration and what was returned, with a ghost state that
follows the run. -/
theorem Runs.invariant {P : Protocol σ ι τ o r} {s : σ} {ghost : Type}
    {Good : Config σ ι τ o r → List (τ × r) → ghost → Prop} {g : ghost}
    (hstart : Good ⟨⟨s, fun _ => none⟩, fun _ => .idle⟩ [] g)
    (hstep : ∀ {c c' trace p g}, Good c trace g → P.Step p c c' →
      ∃ g', Good c' (trace ++ returned p (c.threads p) (c'.threads p)) g')
    {c : Config σ ι τ o r} {trace : List (τ × r)} (run : Runs P s c trace) :
    ∃ g, Good c trace g := by
  induction run with
  | start => exact ⟨g, hstart⟩
  | step _ hs ih =>
      obtain ⟨g, hg⟩ := ih
      exact hstep hg hs

end

end Concurrency
