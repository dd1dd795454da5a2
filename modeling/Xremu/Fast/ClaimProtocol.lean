import Xremu.Concurrency.Runs
import Xremu.Fast.ClaimTable

/-!
# The claim tables under contention

Any number of processors claim addresses and store into them, each one operation
after another, in any interleaving of mutex operations and the stretches between
them (`claimTables`).

`ClaimPlace` is where a processor is in its operation. What it may do next depends
on the place and the tables only (`PlaceStep`); the code does nothing else
(`placeStep_of_step`).
-/

namespace Xremu

open Concurrency XrFastMem

inductive ClaimOp where
  | claim (phyaddr : Word) (address : Nat)
  | store (phyaddr : Word) (address : Nat) (val : Word)

/-- A completed operation. -/
inductive ClaimResult where
  | claimed (phyaddr : Word) (val : Word)
  | stored (phyaddr : Word) (ok : Bool)

def ClaimOp.phyaddr : ClaimOp → Word
  | .claim phyaddr _ => phyaddr
  | .store phyaddr _ _ => phyaddr

section

variable {β : Type} [EBusHost β]

abbrev ClaimProg (β : Type) := Prog (XrFastMem β) XrClaimLock (ClaimOp ⊕ ClaimResult)

def claimCode (p : Nat) : ClaimOp → Prog (XrFastMem β) XrClaimLock (ClaimOp ⊕ ClaimResult)
  | .claim phyaddr address => do
      let val ← xrClaimAddress p phyaddr address
      pure (.inr (.claimed phyaddr val))
  | .store phyaddr address val => do
      let ok ← xrStoreIfClaimed p phyaddr address val
      pure (.inr (.stored phyaddr ok))

/-- The processors and their claim tables. -/
def claimTables (β : Type) [EBusHost β] :
    Protocol (XrFastMem β) XrClaimLock Nat ClaimOp ClaimResult :=
  .ofCode claimCode

/-! ## The code, cut at its mutexes -/

/-- L1 and L2 entry of the address point at each other. -/
def takeTables (p : Nat) (phyaddr : Word) (m : XrFastMem β) : XrFastMem β :=
  (m.setL2 (xrL2ClaimIndex phyaddr) (some (p, xrL1ClaimIndex phyaddr))).setL1 p
    (xrL1ClaimIndex phyaddr) (some (xrL2ClaimIndex phyaddr))

/-- The remote L1 entry loses its claim, unless it gave it up in the meanwhile. -/
def remoteTables (phyaddr : Word) (remote : Nat × Nat) (m : XrFastMem β) : XrFastMem β :=
  if m.l2ClaimTable (xrL2ClaimIndex phyaddr) = none then m else m.setL1 remote.1 remote.2 none

/-- The end of `claimEntry`. -/
def takeEntry (p : Nat) (phyaddr : Word) (address : Nat) : ClaimProg β :=
  .act (takeTables p phyaddr) fun _ => .act id fun m =>
    .unlock (.l2 (xrL2ClaimIndex phyaddr)) (.ret (.inr (.claimed phyaddr (hostLong m address))))

/-- With the mutex of the remote L1 entry taken. -/
def underRemote (p : Nat) (phyaddr : Word) (address : Nat) (remote : Nat × Nat) : ClaimProg β :=
  .act (remoteTables phyaddr remote) fun _ =>
    .unlock (.l1 remote.1 remote.2) (takeEntry p phyaddr address)

/-- With the L2 mutex taken. -/
def underL2 (p : Nat) (phyaddr : Word) (address : Nat) : ClaimProg β :=
  .act id fun m =>
    match m.l2ClaimTable (xrL2ClaimIndex phyaddr) with
    | none => takeEntry p phyaddr address
    | some remote => .lock (.l1 remote.1 remote.2) (underRemote p phyaddr address remote)

/-- With the processor's own L1 mutex taken. -/
def underL1 (p : Nat) : ClaimOp → ClaimProg β
  | .claim phyaddr address => .act id fun m =>
      if m.l1 p (xrL1ClaimIndex phyaddr) = some (xrL2ClaimIndex phyaddr) then
        .unlock (.l1 p (xrL1ClaimIndex phyaddr))
          (.ret (.inr (.claimed phyaddr (hostLong m address))))
      else
        .act (dropClaim p (xrL1ClaimIndex phyaddr)) fun _ =>
          .unlock (.l1 p (xrL1ClaimIndex phyaddr))
            (.lock (.l2 (xrL2ClaimIndex phyaddr)) (underL2 p phyaddr address))
  | .store phyaddr address val => .act id fun m =>
      if m.l1 p (xrL1ClaimIndex phyaddr) ≠ some (xrL2ClaimIndex phyaddr) then
        .unlock (.l1 p (xrL1ClaimIndex phyaddr)) (.ret (.inr (.stored phyaddr false)))
      else
        .act (fun m => { m with bus := EBusHost.hostWrite m.bus address (byteOf val) 4 }) fun _ =>
          .unlock (.l1 p (xrL1ClaimIndex phyaddr)) (.ret (.inr (.stored phyaddr true)))

theorem claimCode_eq (p : Nat) (op : ClaimOp) :
    (claimCode p op : ClaimProg β) = .lock (.l1 p (xrL1ClaimIndex op.phyaddr)) (underL1 p op) := by
  cases op with
  | claim phyaddr address =>
      show Prog.lock _ (Prog.act id _) = Prog.lock _ (Prog.act id _)
      congr 2
      funext m
      simp only [Prog.bind]
      by_cases hj : m.l1 p (xrL1ClaimIndex phyaddr) = some (xrL2ClaimIndex phyaddr)
      · rw [if_pos hj, if_pos hj]
        rfl
      · rw [if_neg hj, if_neg hj]
        refine congrArg (Prog.act _) (funext fun _ => congrArg (Prog.unlock _)
          (congrArg (Prog.lock _) (congrArg (Prog.act id) (funext fun m' => ?_))))
        show Prog.bind (Prog.bind (Prog.bind _ _) _) _ = _
        simp only [Prog.bind]
        cases m'.l2ClaimTable (xrL2ClaimIndex phyaddr) with
        | none => rfl
        | some remote => rfl
  | store phyaddr address val =>
      show Prog.lock _ (Prog.act id _) = Prog.lock _ (Prog.act id _)
      congr 2
      funext m
      simp only [Prog.bind]
      by_cases hj : m.l1 p (xrL1ClaimIndex phyaddr) ≠ some (xrL2ClaimIndex phyaddr)
      · rw [if_pos hj, if_pos hj]
        rfl
      · rw [if_neg hj, if_neg hj]
        rfl

/-! ## Where a processor is -/

/-- Between any two steps of an operation. -/
inductive ClaimPlace where
  | idle
  | wantL1 (op : ClaimOp)
  | inL1 (op : ClaimOp)
  | found (phyaddr : Word) (val : Word)
  | dropped (phyaddr : Word) (address : Nat)
  | wantL2 (phyaddr : Word) (address : Nat)
  | inL2 (phyaddr : Word) (address : Nat)
  | wantRemote (phyaddr : Word) (address : Nat) (remote : Nat × Nat)
  | inRemote (phyaddr : Word) (address : Nat) (remote : Nat × Nat)
  | leaveRemote (phyaddr : Word) (address : Nat) (remote : Nat × Nat)
  | taking (phyaddr : Word) (address : Nat)
  | took (phyaddr : Word) (val : Word)
  | stored (phyaddr : Word) (ok : Bool)
  | done (out : ClaimResult)

namespace ClaimPlace

/-- What is left to run. -/
def thread (p : Nat) : ClaimPlace → Thread (XrFastMem β) XrClaimLock ClaimOp ClaimResult
  | .idle => .idle
  | .wantL1 op => .busy (claimCode p op)
  | .inL1 op => .busy (underL1 p op)
  | .found phyaddr val =>
      .busy (.unlock (.l1 p (xrL1ClaimIndex phyaddr)) (.ret (.inr (.claimed phyaddr val))))
  | .dropped phyaddr address =>
      .busy (.unlock (.l1 p (xrL1ClaimIndex phyaddr))
        (.lock (.l2 (xrL2ClaimIndex phyaddr)) (underL2 p phyaddr address)))
  | .wantL2 phyaddr address =>
      .busy (.lock (.l2 (xrL2ClaimIndex phyaddr)) (underL2 p phyaddr address))
  | .inL2 phyaddr address => .busy (underL2 p phyaddr address)
  | .wantRemote phyaddr address remote =>
      .busy (.lock (.l1 remote.1 remote.2) (underRemote p phyaddr address remote))
  | .inRemote phyaddr address remote => .busy (underRemote p phyaddr address remote)
  | .leaveRemote phyaddr address remote =>
      .busy (.unlock (.l1 remote.1 remote.2) (takeEntry p phyaddr address))
  | .taking phyaddr address => .busy (takeEntry p phyaddr address)
  | .took phyaddr val =>
      .busy (.unlock (.l2 (xrL2ClaimIndex phyaddr)) (.ret (.inr (.claimed phyaddr val))))
  | .stored phyaddr ok =>
      .busy (.unlock (.l1 p (xrL1ClaimIndex phyaddr)) (.ret (.inr (.stored phyaddr ok))))
  | .done out => .busy (.ret (.inr out))

/-- The mutexes a processor holds there. -/
def holds (p : Nat) : ClaimPlace → List XrClaimLock
  | .inL1 op => [.l1 p (xrL1ClaimIndex op.phyaddr)]
  | .found phyaddr _ | .dropped phyaddr _ | .stored phyaddr _ => [.l1 p (xrL1ClaimIndex phyaddr)]
  | .inL2 phyaddr _ | .wantRemote phyaddr _ _ | .taking phyaddr _ | .took phyaddr _ =>
      [.l2 (xrL2ClaimIndex phyaddr)]
  | .inRemote phyaddr _ remote | .leaveRemote phyaddr _ remote =>
      [.l1 remote.1 remote.2, .l2 (xrL2ClaimIndex phyaddr)]
  | _ => []

/-- `next` is where the processor is once it has the mutex it waits for. -/
inductive Waits (p : Nat) : ClaimPlace → XrClaimLock → ClaimPlace → Prop
  | own (op) : Waits p (.wantL1 op) (.l1 p (xrL1ClaimIndex op.phyaddr)) (.inL1 op)
  | entry (phyaddr address) :
      Waits p (.wantL2 phyaddr address) (.l2 (xrL2ClaimIndex phyaddr)) (.inL2 phyaddr address)
  | remote (phyaddr address remote) :
      Waits p (.wantRemote phyaddr address remote) (.l1 remote.1 remote.2)
        (.inRemote phyaddr address remote)

/-- Giving a mutex back. -/
inductive Gives (p : Nat) : ClaimPlace → XrClaimLock → ClaimPlace → Prop
  | found (phyaddr val) :
      Gives p (.found phyaddr val) (.l1 p (xrL1ClaimIndex phyaddr)) (.done (.claimed phyaddr val))
  | dropped (phyaddr address) :
      Gives p (.dropped phyaddr address) (.l1 p (xrL1ClaimIndex phyaddr)) (.wantL2 phyaddr address)
  | remote (phyaddr address remote) :
      Gives p (.leaveRemote phyaddr address remote) (.l1 remote.1 remote.2)
        (.taking phyaddr address)
  | took (phyaddr val) :
      Gives p (.took phyaddr val) (.l2 (xrL2ClaimIndex phyaddr)) (.done (.claimed phyaddr val))
  | stored (phyaddr ok) :
      Gives p (.stored phyaddr ok) (.l1 p (xrL1ClaimIndex phyaddr)) (.done (.stored phyaddr ok))

/-- A stretch under a mutex: the tables change in one of three ways. -/
inductive Stretch (p : Nat) (m : XrFastMem β) : ClaimPlace → ClaimPlace → XrFastMem β → Prop
  | hit {phyaddr address} (h : m.l1 p (xrL1ClaimIndex phyaddr) = some (xrL2ClaimIndex phyaddr)) :
      Stretch p m (.inL1 (.claim phyaddr address)) (.found phyaddr (hostLong m address)) m
  | drop {phyaddr address} (h : m.l1 p (xrL1ClaimIndex phyaddr) ≠ some (xrL2ClaimIndex phyaddr)) :
      Stretch p m (.inL1 (.claim phyaddr address)) (.dropped phyaddr address)
        (dropClaim p (xrL1ClaimIndex phyaddr) m)
  | refuse {phyaddr address val}
      (h : m.l1 p (xrL1ClaimIndex phyaddr) ≠ some (xrL2ClaimIndex phyaddr)) :
      Stretch p m (.inL1 (.store phyaddr address val)) (.stored phyaddr false) m
  | store {phyaddr address val}
      (h : m.l1 p (xrL1ClaimIndex phyaddr) = some (xrL2ClaimIndex phyaddr)) :
      Stretch p m (.inL1 (.store phyaddr address val)) (.stored phyaddr true)
        { m with bus := EBusHost.hostWrite m.bus address (byteOf val) 4 }
  | free {phyaddr address} (h : m.l2ClaimTable (xrL2ClaimIndex phyaddr) = none) :
      Stretch p m (.inL2 phyaddr address)
        (.took phyaddr (hostLong (takeTables p phyaddr m) address)) (takeTables p phyaddr m)
  | claimed {phyaddr address remote}
      (h : m.l2ClaimTable (xrL2ClaimIndex phyaddr) = some remote) :
      Stretch p m (.inL2 phyaddr address) (.wantRemote phyaddr address remote) m
  | invalidate {phyaddr address remote} :
      Stretch p m (.inRemote phyaddr address remote) (.leaveRemote phyaddr address remote)
        (remoteTables phyaddr remote m)
  | take {phyaddr address} :
      Stretch p m (.taking phyaddr address)
        (.took phyaddr (hostLong (takeTables p phyaddr m) address)) (takeTables p phyaddr m)

end ClaimPlace

/-- What a step of processor `p` returns when it gives a mutex back and is then at `place`. -/
def ClaimPlace.returns (p : Nat) : ClaimPlace → List (Nat × ClaimResult)
  | .done out => [(p, out)]
  | _ => []

/-- One step of processor `p`: the shared state, the place, and what is returned. -/
inductive PlaceStep (p : Nat) (w : World (XrFastMem β) XrClaimLock Nat) :
    ClaimPlace → World (XrFastMem β) XrClaimLock Nat → ClaimPlace → List (Nat × ClaimResult) → Prop
  | start (op) : PlaceStep p w .idle w (.wantL1 op) []
  | lock {place l next} (h : place.Waits p l next) (free : w.owner l = none) :
      PlaceStep p w place (w.acquire l p) next []
  | unlock {place l next} (h : place.Gives p l next) :
      PlaceStep p w place (w.release l) next (next.returns p)
  | stretch {place next m'} (h : place.Stretch p w.st next m') :
      PlaceStep p w place { w with st := m' } next []
  | finish (out) : PlaceStep p w (.done out) w .idle []

/-! ## The code does nothing else -/

theorem waits_of_thread {p : Nat} {place : ClaimPlace} {l : XrClaimLock} {rest : ClaimProg β}
    (h : place.thread p = .busy (.lock l rest)) :
    ∃ next, place.Waits p l next ∧ next.thread p = .busy rest := by
  cases place with
  | wantL1 op =>
      rw [ClaimPlace.thread, claimCode_eq] at h
      cases h
      exact ⟨_, .own op, rfl⟩
  | wantL2 phyaddr address =>
      cases h
      exact ⟨_, .entry phyaddr address, rfl⟩
  | wantRemote phyaddr address remote =>
      cases h
      exact ⟨_, .remote phyaddr address remote, rfl⟩
  | inL1 op => cases op <;> cases h
  | _ => cases h

theorem gives_of_thread {p : Nat} {place : ClaimPlace} {l : XrClaimLock} {rest : ClaimProg β}
    (h : place.thread p = .busy (.unlock l rest)) :
    ∃ next, place.Gives p l next ∧ next.thread p = .busy rest ∧
      returned p (.busy (.unlock l rest)) (next.thread (β := β) p) = next.returns p := by
  cases place with
  | found phyaddr val =>
      cases h
      exact ⟨_, .found phyaddr val, rfl, rfl⟩
  | dropped phyaddr address =>
      cases h
      exact ⟨_, .dropped phyaddr address, rfl, rfl⟩
  | leaveRemote phyaddr address remote =>
      cases h
      exact ⟨_, .remote phyaddr address remote, rfl, rfl⟩
  | took phyaddr val =>
      cases h
      exact ⟨_, .took phyaddr val, rfl, rfl⟩
  | stored phyaddr ok =>
      cases h
      exact ⟨_, .stored phyaddr ok, rfl, rfl⟩
  | wantL1 op =>
      rw [ClaimPlace.thread, claimCode_eq] at h
      cases h
  | inL1 op => cases op <;> cases h
  | _ => cases h

theorem stretch_of_thread {p : Nat} {place : ClaimPlace} {m : XrFastMem β}
    {upd : XrFastMem β → XrFastMem β} {rest : XrFastMem β → ClaimProg β}
    (h : place.thread p = .busy (.act upd rest)) :
    ∃ next, place.Stretch p m next ((Prog.act upd rest).settle m).2 ∧
      next.thread p = .busy ((Prog.act upd rest).settle m).1 := by
  cases place with
  | inL1 op =>
      cases op with
      | claim phyaddr address =>
          cases h
          by_cases hj : m.l1 p (xrL1ClaimIndex phyaddr) = some (xrL2ClaimIndex phyaddr)
          · simp only [Prog.settle, id_eq, if_pos hj]
            exact ⟨_, .hit hj, rfl⟩
          · simp only [Prog.settle, id_eq, if_neg hj]
            exact ⟨_, .drop hj, rfl⟩
      | store phyaddr address val =>
          cases h
          by_cases hj : m.l1 p (xrL1ClaimIndex phyaddr) = some (xrL2ClaimIndex phyaddr)
          · simp only [Prog.settle, id_eq, ne_eq, not_true_eq_false, hj, if_false]
            exact ⟨_, .store hj, rfl⟩
          · simp only [Prog.settle, id_eq, ne_eq, hj, not_false_eq_true, if_true]
            exact ⟨_, .refuse hj, rfl⟩
  | inL2 phyaddr address =>
      cases h
      cases hj : m.l2ClaimTable (xrL2ClaimIndex phyaddr) with
      | none =>
          simp only [Prog.settle, id_eq, hj]
          exact ⟨_, .free hj, rfl⟩
      | some remote =>
          simp only [Prog.settle, id_eq, hj]
          exact ⟨_, .claimed hj, rfl⟩
  | inRemote phyaddr address remote =>
      cases h
      exact ⟨_, .invalidate, rfl⟩
  | taking phyaddr address =>
      cases h
      exact ⟨_, .take, rfl⟩
  | wantL1 op =>
      rw [ClaimPlace.thread, claimCode_eq] at h
      cases h
  | _ => cases h

theorem done_of_thread {p : Nat} {place : ClaimPlace} {out : ClaimOp ⊕ ClaimResult}
    (h : place.thread (β := β) p = .busy (.ret out)) :
    ∃ result, place = .done result ∧ out = .inr result := by
  cases place with
  | done result =>
      cases h
      exact ⟨result, rfl, rfl⟩
  | wantL1 op =>
      rw [ClaimPlace.thread, claimCode_eq] at h
      cases h
  | inL1 op => cases op <;> cases h
  | _ => cases h

theorem idle_of_thread {p : Nat} {place : ClaimPlace} (h : place.thread (β := β) p = .idle) :
    place = .idle := by
  cases place with
  | idle => rfl
  | _ => cases h

/-- Every step of the code is a step of its processor's place. -/
theorem placeStep_of_step {p : Nat} {c c' : Protocol.Config (XrFastMem β) XrClaimLock Nat ClaimOp ClaimResult}
    {place : ClaimPlace} (hp : c.threads p = place.thread p) (h : (claimTables β).Step p c c') :
    ∃ next, PlaceStep p c.world place c'.world next
        (returned p (c.threads p) (c'.threads p)) ∧
      c'.threads = Function.update c.threads p (next.thread p) := by
  cases h with
  | @start w th a hidle _ =>
      have hthread : th p = place.thread p := hp
      rw [hidle] at hthread
      rw [idle_of_thread hthread.symm]
      simp only [hidle, Function.update_self]
      exact ⟨_, .start a, rfl⟩
  | @stretch w th upd rest hbusy =>
      have hthread : th p = place.thread p := hp
      rw [hbusy] at hthread
      obtain ⟨next, hstretch, hnext⟩ := stretch_of_thread (m := w.st) hthread.symm
      simp only [hbusy, Function.update_self, ← hnext]
      exact ⟨next, .stretch hstretch, rfl⟩
  | @lock w th l rest hbusy hfree =>
      have hthread : th p = place.thread p := hp
      rw [hbusy] at hthread
      obtain ⟨next, hwaits, hnext⟩ := waits_of_thread hthread.symm
      simp only [hbusy, Function.update_self, ← hnext]
      exact ⟨next, .lock hwaits hfree, rfl⟩
  | @unlock w th l rest hbusy =>
      have hthread : th p = place.thread p := hp
      rw [hbusy] at hthread
      obtain ⟨next, hgives, hnext, hret⟩ := gives_of_thread hthread.symm
      simp only [hbusy, Function.update_self, ← hnext, hret]
      exact ⟨next, .unlock hgives, rfl⟩
  | @jump w th a hbusy =>
      have hthread : th p = place.thread p := hp
      rw [hbusy] at hthread
      obtain ⟨result, _, hout⟩ := done_of_thread hthread.symm
      cases hout
  | @finish w th out hbusy =>
      have hthread : th p = place.thread p := hp
      rw [hbusy] at hthread
      obtain ⟨result, hplace, hout⟩ := done_of_thread hthread.symm
      cases hout
      rw [hplace]
      simp only [hbusy, Function.update_self]
      exact ⟨_, .finish out, rfl⟩

end

end Xremu
