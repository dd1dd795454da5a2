import Xremu.Concurrency.Prog
import Xremu.Fast.State

/-!
# The claim tables

`XrClaimAddress` and `XrStoreIfClaimed` as lock programs over the memory system,
one stretch of local code between two mutex operations. Each entry has a mutex of
its own. The single-threaded build has the same text without the mutexes; it is
what `Prog.run` gives.
-/

namespace Xremu

open Concurrency XrFastMem

/-- The mutexes of the claim table entries. -/
inductive XrClaimLock where
  | l1 (p i : Nat)
  | l2 (j : Nat)
deriving DecidableEq

/-- `XR_CLAIM_HASH(phyaddr)`. -/
def xrClaimHash (phyaddr : Word) : Word := (phyaddr >>> 2) ^^^ (phyaddr >>> 12)

/-- `XR_L1_CLAIM_INDEX(phyaddr)`; the table has 101 entries. -/
def xrL1ClaimIndex (phyaddr : Word) : Nat := (xrClaimHash phyaddr).toNat % 101

/-- `XR_L2_CLAIM_INDEX(phyaddr)`; the table has 3637 entries. -/
def xrL2ClaimIndex (phyaddr : Word) : Nat := (xrClaimHash phyaddr).toNat % 3637

variable {β : Type}

abbrev XrClaimCode (β α : Type) := Prog (XrFastMem β) XrClaimLock α

/-- The long at a host address. -/
def hostLong [EBusHost β] (m : XrFastMem β) (address : Nat) : Word := zext (EBusHost.hostRead m.bus address) 4

/-- Clear the L2 entry that L1 entry `i` of `p` points to, and the L1 entry. -/
def dropClaim (p i : Nat) (m : XrFastMem β) : XrFastMem β :=
  match m.l1 p i with
  | none => m
  | some k => (m.setL2 k none).setL1 p i none

/-- Invalidate the L1 entry that L2 entry `j` refers to. -/
def invalidateRemote (j : Nat) : XrClaimCode β Unit := do
  let m ← Prog.get
  match m.l2ClaimTable j with
  | none => pure ()
  | some remote =>
      Prog.acquire (.l1 remote.1 remote.2)
      Prog.modify fun m =>
        if m.l2ClaimTable j = none then m   -- invalidated in the meanwhile
        else m.setL1 remote.1 remote.2 none
      Prog.release (.l1 remote.1 remote.2)

/-- `XrClaimAddress` when L1 entry `i` of `p` does not point to L2 entry `j`; the L1
lock is held. -/
def claimEntry [EBusHost β] (p i j address : Nat) : XrClaimCode β Word := do
  Prog.modify (dropClaim p i)
  Prog.release (.l1 p i)
  Prog.acquire (.l2 j)
  invalidateRemote j
  Prog.modify fun m => (m.setL2 j (some (p, i))).setL1 p i (some j)
  let m ← Prog.get
  Prog.release (.l2 j)
  pure (hostLong m address)

/-- `address` is the host address of the long. -/
def xrClaimAddress [EBusHost β] (p : Nat) (phyaddr : Word) (address : Nat) : XrClaimCode β Word := do
  let i := xrL1ClaimIndex phyaddr
  let j := xrL2ClaimIndex phyaddr
  Prog.acquire (.l1 p i)
  let m ← Prog.get
  if m.l1 p i = some j then
    Prog.release (.l1 p i)
    pure (hostLong m address)
  else
    claimEntry p i j address

def xrStoreIfClaimed [EBusHost β] (p : Nat) (phyaddr : Word) (address : Nat) (val : Word) :
    XrClaimCode β Bool := do
  let i := xrL1ClaimIndex phyaddr
  let j := xrL2ClaimIndex phyaddr
  Prog.acquire (.l1 p i)
  let m ← Prog.get
  if m.l1 p i ≠ some j then
    Prog.release (.l1 p i)
    pure false
  else
    Prog.modify fun m => { m with bus := EBusHost.hostWrite m.bus address (byteOf val) 4 }
    Prog.release (.l1 p i)
    pure true

/-! ## The tables when nobody interferes -/

/-- The two levels point at each other. -/
def ClaimInv (m : XrFastMem β) : Prop :=
  ∀ p i j, m.l1 p i = some j ↔ m.l2ClaimTable j = some (p, i)

/-- `m'` comes from `m` by giving L2 entry `j` to L1 entry `i` of `p`: whoever had it
has lost it. -/
structure GivesClaim (p i j : Nat) (m m' : XrFastMem β) : Prop where
  inv : ClaimInv m'
  l1 : ∀ q k, m'.l1 q k =
    if q = p ∧ k = i then some j else if m.l1 q k = some j then none else m.l1 q k

theorem l1_dropClaim (p i q k : Nat) (m : XrFastMem β) :
    (dropClaim p i m).l1 q k = if q = p ∧ k = i then none else m.l1 q k := by
  unfold dropClaim
  split
  · next hnone =>
      split
      · next hqk =>
          rw [hqk.1, hqk.2]
          exact hnone
      · rfl
  · simp

theorem ClaimInv.dropClaim {m : XrFastMem β} (h : ClaimInv m) (p i : Nat) :
    ClaimInv (dropClaim p i m) := by
  intro q k j
  rw [l1_dropClaim]
  unfold Xremu.dropClaim
  cases hx : m.l1 p i with
  | none =>
      simp only
      split
      · next hqk =>
          obtain ⟨rfl, rfl⟩ := hqk
          constructor
          · intro hj
            cases hj
          · intro hj
            rw [(h _ _ _).mpr hj] at hx
            cases hx
      · exact h _ _ _
  | some x =>
      simp only [l2_setL1, l2_setL2]
      by_cases hjx : j = x
      · subst hjx
        simp only [Function.update_self]
        constructor
        · intro hj
          split at hj
          · cases hj
          · next hqk =>
              -- `j` was claimed by L1 entry `i` of `p` only.
              have hpi := (h _ _ _).mp hx
              rw [(h _ _ _).mp hj] at hpi
              exact absurd (Prod.mk.inj (Option.some.inj hpi)) hqk
        · intro hj
          cases hj
      · rw [Function.update_of_ne hjx]
        split
        · next hqk =>
            obtain ⟨rfl, rfl⟩ := hqk
            constructor
            · intro hj
              cases hj
            · intro hj
              rw [(h _ _ _).mpr hj] at hx
              exact absurd (Option.some.inj hx) hjx
        · exact h _ _ _

/-- Taking L2 entry `j` when L1 entry `i` of `p` has no claim. -/
theorem run_invalidateRemote (j : Nat) (m : XrFastMem β) :
    ((invalidateRemote j).run m).2.l2ClaimTable = m.l2ClaimTable ∧
      ∀ q k, ((invalidateRemote j).run m).2.l1 q k =
        if m.l2ClaimTable j = some (q, k) then none else m.l1 q k := by
  simp only [invalidateRemote, Prog.run_bind, Prog.run_get]
  cases hj : m.l2ClaimTable j with
  | none => simp
  | some remote =>
      obtain ⟨r, x⟩ := remote
      simp only [Prog.run_bind, Prog.run_acquire, Prog.run_modify, Prog.run_release, hj,
        reduceCtorEq, if_false, l2_setL1, true_and]
      intro q k
      rw [l1_setL1]
      by_cases hqk : q = r ∧ k = x
      · rw [if_pos hqk, if_pos (by rw [hqk.1, hqk.2])]
      · rw [if_neg hqk, if_neg]
        rintro hrx
        obtain ⟨rfl, rfl⟩ := Prod.mk.inj (Option.some.inj hrx)
        exact hqk ⟨rfl, rfl⟩

theorem run_claimEntry [EBusHost β] {m : XrFastMem β} (h : ClaimInv m) (p i j address : Nat) :
    GivesClaim p i j m ((claimEntry p i j address).run m).2 := by
  simp only [claimEntry, Prog.run_bind, Prog.run_modify, Prog.run_release, Prog.run_acquire,
    Prog.run_get, Prog.run_pure]
  have hdrop := h.dropClaim p i
  obtain ⟨hl2, hl1⟩ := run_invalidateRemote j (dropClaim p i m)
  generalize ((invalidateRemote j).run (dropClaim p i m)).2 = m₂ at hl2 hl1 ⊢
  -- Everybody but L1 entry `i` of `p` keeps what it had, unless it had `j`.
  have hfinal : ∀ q k, ((m₂.setL2 j (some (p, i))).setL1 p i (some j)).l1 q k =
      if q = p ∧ k = i then some j else if m.l1 q k = some j then none else m.l1 q k := by
    intro q k
    rw [l1_setL1, l1_setL2]
    split
    · rfl
    · next hqk =>
        rw [hl1, l1_dropClaim, if_neg hqk]
        have hiff : (dropClaim p i m).l2ClaimTable j = some (q, k) ↔ m.l1 q k = some j := by
          rw [← hdrop, l1_dropClaim, if_neg hqk]
        exact if_congr hiff rfl rfl
  refine ⟨fun q k x => ?_, hfinal⟩
  rw [hfinal, l2_setL1, l2_setL2, hl2]
  by_cases hx : x = j
  · subst hx
    rw [Function.update_self]
    constructor
    · intro hqx
      split at hqx
      · next hqk => rw [hqk.1, hqk.2]
      · split at hqx
        · cases hqx
        · next hne => exact absurd hqx hne
    · intro hpi
      obtain ⟨rfl, rfl⟩ := Prod.mk.inj (Option.some.inj hpi)
      rw [if_pos ⟨rfl, rfl⟩]
  · rw [Function.update_of_ne hx, ← hdrop, l1_dropClaim]
    split
    · constructor
      · intro hj
        exact absurd (Option.some.inj hj).symm hx
      · intro hnone
        cases hnone
    · split
      · next hj =>
          rw [hj]
          constructor
          · intro hnone
            cases hnone
          · intro hjx
            exact absurd (Option.some.inj hjx).symm hx
      · rfl

/-- A claim: L1 and L2 entry of the address point at each other afterwards. -/
theorem run_xrClaimAddress [EBusHost β] {m : XrFastMem β} (h : ClaimInv m) (p : Nat) (phyaddr : Word)
    (address : Nat) :
    GivesClaim p (xrL1ClaimIndex phyaddr) (xrL2ClaimIndex phyaddr) m
      ((xrClaimAddress p phyaddr address).run m).2 := by
  simp only [xrClaimAddress, Prog.run_bind, Prog.run_acquire, Prog.run_get]
  by_cases hj : m.l1 p (xrL1ClaimIndex phyaddr) = some (xrL2ClaimIndex phyaddr)
  · simp only [hj, if_true, Prog.run_bind, Prog.run_release, Prog.run_pure]
    refine ⟨h, fun q k => ?_⟩
    split
    · next hqk =>
        rw [hqk.1, hqk.2]
        exact hj
    · next hqk =>
        split
        · next hqj =>
            have hpi := (h _ _ _).mp hj
            rw [(h _ _ _).mp hqj] at hpi
            exact absurd (Prod.mk.inj (Option.some.inj hpi)) hqk
        · rfl
  · simp only [hj, if_false]
    exact run_claimEntry h p _ _ address

/-- A store-if-claimed: it stores exactly when the claim is there, and moves no claim. -/
theorem run_xrStoreIfClaimed [EBusHost β] (m : XrFastMem β) (p : Nat) (phyaddr : Word) (address : Nat)
    (val : Word) :
    (((xrStoreIfClaimed p phyaddr address val).run m).1 = true ↔
      m.l1 p (xrL1ClaimIndex phyaddr) = some (xrL2ClaimIndex phyaddr)) ∧
    ((xrStoreIfClaimed p phyaddr address val).run m).2.fast = m.fast ∧
    ((xrStoreIfClaimed p phyaddr address val).run m).2.l2ClaimTable = m.l2ClaimTable := by
  simp only [xrStoreIfClaimed, Prog.run_bind, Prog.run_acquire, Prog.run_get]
  by_cases hj : m.l1 p (xrL1ClaimIndex phyaddr) = some (xrL2ClaimIndex phyaddr)
  · simp [hj]
  · simp [hj]

end Xremu
