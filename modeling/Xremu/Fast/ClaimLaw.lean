import Mathlib.Data.List.Induction
import Xremu.Fast.ClaimProtocol
import Xremu.Lists.Log

/-!
# What the claim tables guarantee

The invariant of all interleavings of `claimTables` is `ClaimOk`. An L1 entry that
points to an L2 entry is always pointed back to. The other direction has one
exception: an L2 entry whose holder has invalidated the L1 entry it refers to and
not yet written its own. And the claim an L1 entry stands for is the last one that
was made of the L2 entry.
-/

namespace Xremu

open Concurrency XrFastMem ClaimPlace

/-! ## The last claim of an entry -/

/-- Who claimed L2 entry `j` with this result. -/
def claimEvent (j : Nat) : Nat × ClaimResult → Option Nat
  | (q, .claimed phyaddr _) => if xrL2ClaimIndex phyaddr = j then some q else none
  | (_, .stored _ _) => none

/-- Whose claim of L2 entry `j` was completed last. -/
def lastClaimer (j : Nat) (trace : List (Nat × ClaimResult)) : Option Nat :=
  trace.foldl (fun last e => (claimEvent j e).or last) none

theorem lastClaimer_concat (j : Nat) (trace : List (Nat × ClaimResult)) (e : Nat × ClaimResult) :
    lastClaimer j (trace ++ [e]) = (claimEvent j e).or (lastClaimer j trace) := by
  rw [lastClaimer, List.foldl_append]
  rfl

/-- A processor stores only if the last claim of the L2 entry is its own. -/
def StoresOwn (trace : List (Nat × ClaimResult)) : Prop :=
  ∀ before p phyaddr after, trace = before ++ (p, .stored phyaddr true) :: after →
    lastClaimer (xrL2ClaimIndex phyaddr) before = some p

theorem StoresOwn.concat {trace : List (Nat × ClaimResult)} {e : Nat × ClaimResult}
    (h : StoresOwn trace)
    (he : ∀ p phyaddr, e = (p, .stored phyaddr true) →
      lastClaimer (xrL2ClaimIndex phyaddr) trace = some p) :
    StoresOwn (trace ++ [e]) := by
  intro before p phyaddr after heq
  rcases Lists.snoc_split heq with ⟨rfl, hlast, rfl⟩ | ⟨rest, rfl, hrest⟩
  · exact he p phyaddr hlast
  · exact h before p phyaddr rest hrest

/-! ## The invariant -/

namespace ClaimPlace

/-- Between invalidating the remote L1 entry of L2 entry `j` and writing one's own. -/
def Replaces (j : Nat) : ClaimPlace → Prop
  | .leaveRemote phyaddr _ _ | .taking phyaddr _ => xrL2ClaimIndex phyaddr = j
  | _ => False

/-- The claim of L2 entry `j` is made and not yet returned. -/
def Took (j : Nat) : ClaimPlace → Prop
  | .took phyaddr _ => xrL2ClaimIndex phyaddr = j
  | _ => False

end ClaimPlace

section

variable {β : Type}

/-- What processor `p` knows of the tables. -/
def PlaceOk (p : Nat) (m : XrFastMem β) : ClaimPlace → Prop
  | .found phyaddr _ | .took phyaddr _ | .stored phyaddr true =>
      m.l1 p (xrL1ClaimIndex phyaddr) = some (xrL2ClaimIndex phyaddr)
  | .dropped phyaddr _ | .wantL2 phyaddr _ | .inL2 phyaddr _ =>
      m.l1 p (xrL1ClaimIndex phyaddr) = none
  | .wantRemote phyaddr _ remote | .inRemote phyaddr _ remote =>
      m.l1 p (xrL1ClaimIndex phyaddr) = none ∧
      ∀ r, m.l2ClaimTable (xrL2ClaimIndex phyaddr) = some r → r = remote
  | .leaveRemote phyaddr _ _ | .taking phyaddr _ =>
      m.l1 p (xrL1ClaimIndex phyaddr) = none ∧
      ∀ q k, m.l1 q k ≠ some (xrL2ClaimIndex phyaddr)
  | _ => True

/-- Each mutex is held by the processor whose place says so. -/
def OwnersOk (owner : XrClaimLock → Option Nat) (places : Nat → ClaimPlace) : Prop :=
  ∀ l q, owner l = some q ↔ l ∈ (places q).holds q

/-- The tables, the places and the last claims agree. -/
structure TablesOk (m : XrFastMem β) (trace : List (Nat × ClaimResult))
    (places : Nat → ClaimPlace) : Prop where
  forward : ∀ {p i j}, m.l1 p i = some j → m.l2ClaimTable j = some (p, i)
  back : ∀ {p i j}, m.l2ClaimTable j = some (p, i) →
    m.l1 p i = some j ∨ ∃ q, (places q).Replaces j
  place : ∀ p, PlaceOk p m (places p)
  last : ∀ {p i j}, m.l1 p i = some j → (places p).Took j ∨ lastClaimer j trace = some p

structure ClaimOk (w : World (XrFastMem β) XrClaimLock Nat) (trace : List (Nat × ClaimResult))
    (places : Nat → ClaimPlace) : Prop where
  owners : OwnersOk w.owner places
  tables : TablesOk w.st trace places
  stores : StoresOwn trace

/-! ## Mutexes -/

theorem ClaimPlace.Waits.holds {p : Nat} {place next : ClaimPlace} {l : XrClaimLock} (h : place.Waits p l next) :
    next.holds p = l :: place.holds p := by
  cases h <;> rfl

theorem ClaimPlace.Gives.holds {p : Nat} {place next : ClaimPlace} {l : XrClaimLock} (h : place.Gives p l next) :
    place.holds p = l :: next.holds p ∧ l ∉ next.holds p := by
  cases h <;> simp [ClaimPlace.holds]

theorem ClaimPlace.Stretch.holds [EBusHost β] {p : Nat} {m m' : XrFastMem β} {place next : ClaimPlace}
    (h : place.Stretch p m next m') : next.holds p = place.holds p := by
  cases h <;> rfl

theorem OwnersOk.unique {owner : XrClaimLock → Option Nat} {places : Nat → ClaimPlace}
    (h : OwnersOk owner places) {l : XrClaimLock} {p q : Nat} (hp : l ∈ (places p).holds p)
    (hq : l ∈ (places q).holds q) : p = q :=
  Option.some.inj (((h l p).mpr hp).symm.trans ((h l q).mpr hq))

theorem OwnersOk.keep {owner : XrClaimLock → Option Nat} {places : Nat → ClaimPlace}
    (h : OwnersOk owner places) {p : Nat} {next : ClaimPlace}
    (hn : next.holds p = (places p).holds p) : OwnersOk owner (Function.update places p next) := by
  intro l q
  by_cases hq : q = p
  · subst hq
    rw [Function.update_self, hn]
    exact h l q
  · rw [Function.update_of_ne hq]
    exact h l q

theorem OwnersOk.acquire {owner : XrClaimLock → Option Nat} {places : Nat → ClaimPlace}
    (h : OwnersOk owner places) {p : Nat} {l : XrClaimLock} {next : ClaimPlace}
    (free : owner l = none) (hn : next.holds p = l :: (places p).holds p) :
    OwnersOk (Function.update owner l (some p)) (Function.update places p next) := by
  intro k q
  by_cases hk : k = l
  · subst hk
    rw [Function.update_self]
    by_cases hq : q = p
    · subst hq
      simp [hn]
    · rw [Function.update_of_ne hq, ← h k q, free]
      simp [Ne.symm hq]
  · rw [Function.update_of_ne hk]
    by_cases hq : q = p
    · subst hq
      rw [Function.update_self, hn, h k q]
      simp [hk]
    · rw [Function.update_of_ne hq]
      exact h k q

theorem OwnersOk.release {owner : XrClaimLock → Option Nat} {places : Nat → ClaimPlace}
    (h : OwnersOk owner places) {p : Nat} {l : XrClaimLock} {next : ClaimPlace}
    (hp : (places p).holds p = l :: next.holds p) (hl : l ∉ next.holds p) :
    OwnersOk (Function.update owner l none) (Function.update places p next) := by
  have hmine : l ∈ (places p).holds p := by simp [hp]
  intro k q
  by_cases hk : k = l
  · subst hk
    rw [Function.update_self]
    by_cases hq : q = p
    · subst hq
      simpa using hl
    · rw [Function.update_of_ne hq]
      constructor
      · intro hnone
        cases hnone
      · intro hheld
        exact absurd (h.unique hheld hmine) hq
  · rw [Function.update_of_ne hk]
    by_cases hq : q = p
    · subst hq
      rw [Function.update_self, h k q, hp]
      simp [hk]
    · rw [Function.update_of_ne hq]
      exact h k q

/-! ## What others keep -/

/-- A processor elsewhere still knows what it knew. -/
theorem PlaceOk.mono {q : Nat} {m m' : XrFastMem β} {place : ClaimPlace} (h : PlaceOk q m place)
    (hkeep : ∀ i j, m.l1 q i = some j → .l1 q i ∈ place.holds q ∨ .l2 j ∈ place.holds q →
      m'.l1 q i = some j)
    (hnone : ∀ i, m.l1 q i = none → m'.l1 q i = none)
    (hl2 : ∀ j r, .l2 j ∈ place.holds q → m'.l2ClaimTable j = some r → m.l2ClaimTable j = some r)
    (hl1 : ∀ j, .l2 j ∈ place.holds q → (∀ r k, m.l1 r k ≠ some j) → ∀ r k, m'.l1 r k ≠ some j) :
    PlaceOk q m' place := by
  cases place with
  | found phyaddr val => exact hkeep _ _ h (.inl (by simp [holds]))
  | took phyaddr val => exact hkeep _ _ h (.inr (by simp [holds]))
  | stored phyaddr ok =>
      cases ok with
      | true => exact hkeep _ _ h (.inl (by simp [holds]))
      | false => trivial
  | dropped phyaddr address => exact hnone _ h
  | wantL2 phyaddr address => exact hnone _ h
  | inL2 phyaddr address => exact hnone _ h
  | wantRemote phyaddr address remote =>
      exact ⟨hnone _ h.1, fun r hr => h.2 r (hl2 _ r (by simp [holds]) hr)⟩
  | inRemote phyaddr address remote =>
      exact ⟨hnone _ h.1, fun r hr => h.2 r (hl2 _ r (by simp [holds]) hr)⟩
  | leaveRemote phyaddr address remote => exact ⟨hnone _ h.1, hl1 _ (by simp [holds]) h.2⟩
  | taking phyaddr address => exact ⟨hnone _ h.1, hl1 _ (by simp [holds]) h.2⟩
  | _ => trivial

theorem PlaceOk.congr {q : Nat} {m m' : XrFastMem β} {place : ClaimPlace} (h : PlaceOk q m place)
    (hl1 : ∀ r k, m'.l1 r k = m.l1 r k) (hl2 : m'.l2ClaimTable = m.l2ClaimTable) :
    PlaceOk q m' place :=
  h.mono (fun _ _ hj _ => by rw [hl1, hj]) (fun _ hn => by rw [hl1, hn])
    (fun _ _ _ hr => by rw [← hl2, hr]) (fun _ _ hn r k => by rw [hl1]; exact hn r k)

/-! ## The moves -/

section

variable {m m' : XrFastMem β} {trace : List (Nat × ClaimResult)} {places : Nat → ClaimPlace}
  {owner : XrClaimLock → Option Nat} {p : Nat} {next : ClaimPlace}

/-- The tables stay, and so does what `p` replaces and has taken. -/
theorem TablesOk.keep (h : TablesOk m trace places) (hl1 : ∀ r k, m'.l1 r k = m.l1 r k)
    (hl2 : m'.l2ClaimTable = m.l2ClaimTable) (hnext : PlaceOk p m next)
    (hrep : ∀ j, (places p).Replaces j → next.Replaces j) (htook : ∀ j, ¬(places p).Took j) :
    TablesOk m' trace (Function.update places p next) where
  forward hj := by
    rw [hl2]
    rw [hl1] at hj
    exact h.forward hj
  back hj := by
    rw [hl2] at hj
    rw [hl1]
    rcases h.back hj with hl | ⟨q, hq⟩
    · exact .inl hl
    · refine .inr ⟨q, ?_⟩
      by_cases hqp : q = p
      · subst hqp
        rw [Function.update_self]
        exact hrep _ hq
      · rwa [Function.update_of_ne hqp]
  place q := by
    by_cases hqp : q = p
    · subst hqp
      rw [Function.update_self]
      exact hnext.congr hl1 hl2
    · rw [Function.update_of_ne hqp]
      exact (h.place q).congr hl1 hl2
  last := by
    intro q i j hj
    rw [hl1] at hj
    rcases h.last hj with ht | hlast
    · by_cases hqp : q = p
      · subst hqp
        exact absurd ht (htook j)
      · exact .inl (by rwa [Function.update_of_ne hqp])
    · exact .inr hlast

/-- `p` gives up the claim its L1 entry `i` stands for. -/
theorem TablesOk.drop (h : TablesOk m trace places) {i : Nat} (hnext : PlaceOk p (dropClaim p i m) next)
    (hrep : ∀ j, ¬(places p).Replaces j) (htook : ∀ j, ¬(places p).Took j) :
    TablesOk (dropClaim p i m) trace (Function.update places p next) := by
  have hl1 : ∀ q k j, (dropClaim p i m).l1 q k = some j → ¬(q = p ∧ k = i) ∧ m.l1 q k = some j := by
    intro q k j hj
    rw [l1_dropClaim] at hj
    split at hj
    · cases hj
    · next hne => exact ⟨hne, hj⟩
  have hl2 : ∀ j r, (dropClaim p i m).l2ClaimTable j = some r →
      m.l2ClaimTable j = some r ∧ m.l1 p i ≠ some j := by
    intro j r hr
    unfold dropClaim at hr
    split at hr
    · next hnone => exact ⟨hr, by simp [hnone]⟩
    · next k hk =>
        rw [l2_setL1, l2_setL2] at hr
        by_cases hjk : j = k
        · subst hjk
          simp at hr
        · rw [Function.update_of_ne hjk] at hr
          refine ⟨hr, ?_⟩
          rw [hk]
          intro hkj
          exact hjk (Option.some.inj hkj).symm
  refine ⟨?_, ?_, ?_, ?_⟩
  · intro q k j hj
    obtain ⟨hne, hold⟩ := hl1 q k j hj
    have hfwd := h.forward hold
    -- The entry is not the one given up: that one is pointed back to by `p`.
    have hother : m.l1 p i ≠ some j := by
      intro hpi
      have hback := h.forward hpi
      rw [hfwd] at hback
      exact hne (Prod.mk.inj (Option.some.inj hback))
    unfold dropClaim
    split
    · exact hfwd
    · next x hx =>
        rw [l2_setL1, l2_setL2, Function.update_of_ne, hfwd]
        rintro rfl
        exact hother hx
  · intro q k j hj
    obtain ⟨hold, hpi⟩ := hl2 j _ hj
    rcases h.back hold with hl | ⟨r, hr⟩
    · refine .inl ?_
      rw [l1_dropClaim, if_neg, hl]
      rintro ⟨rfl, rfl⟩
      exact hpi hl
    · refine .inr ⟨r, ?_⟩
      rw [Function.update_of_ne]
      · exact hr
      · rintro rfl
        exact hrep j hr
  · intro q
    by_cases hqp : q = p
    · subst hqp
      rwa [Function.update_self]
    · rw [Function.update_of_ne hqp]
      have hsame : ∀ k, (dropClaim p i m).l1 q k = m.l1 q k := by
        intro k
        rw [l1_dropClaim, if_neg fun hqk => hqp hqk.1]
      refine (h.place q).mono ?_ ?_ ?_ ?_
      · intro k j hj _
        rw [hsame, hj]
      · intro k hk
        rw [hsame, hk]
      · intro j r _ hr
        exact (hl2 j r hr).1
      · intro j _ hnone r k hj
        exact hnone r k (hl1 r k j hj).2
  · intro q k j hj
    rcases h.last (hl1 q k j hj).2 with ht | hlast
    · refine .inl ?_
      rw [Function.update_of_ne]
      · exact ht
      · rintro rfl
        exact htook j ht
    · exact .inr hlast

theorem ClaimPlace.Replaces.holds {q j : Nat} {place : ClaimPlace} (h : place.Replaces j) :
    .l2 j ∈ place.holds q := by
  cases place with
  | leaveRemote phyaddr address remote =>
      obtain rfl := h
      simp [ClaimPlace.holds]
  | taking phyaddr address =>
      obtain rfl := h
      simp [ClaimPlace.holds]
  | _ => exact h.elim

/-- Invalidating the remote entry takes away the claims of the L2 entry, and no other. -/
theorem l1_remoteTables (h : TablesOk m trace places) (ho : OwnersOk owner places)
    {phyaddr : Word} {address : Nat} {remote : Nat × Nat}
    (hplace : places p = .inRemote phyaddr address remote) (q k y : Nat) :
    (remoteTables phyaddr remote m).l1 q k = some y ↔
      m.l1 q k = some y ∧ y ≠ xrL2ClaimIndex phyaddr := by
  have hp := h.place p
  rw [hplace] at hp
  -- Nobody else replaces this L2 entry, so what it refers to points to it.
  have hback : ∀ r x, m.l2ClaimTable (xrL2ClaimIndex phyaddr) = some (r, x) →
      m.l1 r x = some (xrL2ClaimIndex phyaddr) := by
    intro r x hrx
    rcases h.back hrx with hl | ⟨t, ht⟩
    · exact hl
    · have htp : t = p := ho.unique ht.holds (by simp [hplace, ClaimPlace.holds])
      rw [htp, hplace] at ht
      exact ht.elim
  unfold remoteTables
  by_cases hnone : m.l2ClaimTable (xrL2ClaimIndex phyaddr) = none
  · rw [if_pos hnone]
    constructor
    · intro hy
      refine ⟨hy, ?_⟩
      rintro rfl
      rw [h.forward hy] at hnone
      cases hnone
    · intro hy
      exact hy.1
  · obtain ⟨⟨r, x⟩, hrx⟩ := Option.ne_none_iff_exists'.mp hnone
    obtain rfl := hp.2 _ hrx
    rw [if_neg hnone, l1_setL1]
    by_cases hqk : q = r ∧ k = x
    · obtain ⟨rfl, rfl⟩ := hqk
      rw [if_pos ⟨rfl, rfl⟩, hback _ _ hrx]
      constructor
      · intro hy
        cases hy
      · rintro ⟨hy, hne⟩
        exact absurd (Option.some.inj hy).symm hne
    · rw [if_neg hqk]
      constructor
      · intro hy
        refine ⟨hy, ?_⟩
        rintro rfl
        rw [h.forward hy] at hrx
        exact hqk (Prod.mk.inj (Option.some.inj hrx))
      · intro hy
        exact hy.1

/-- `p` clears the L1 entry that its L2 entry refers to. -/
theorem TablesOk.invalidate (h : TablesOk m trace places) (ho : OwnersOk owner places)
    {phyaddr : Word} {address : Nat} {remote : Nat × Nat}
    (hplace : places p = .inRemote phyaddr address remote) :
    TablesOk (remoteTables phyaddr remote m) trace
      (Function.update places p (.leaveRemote phyaddr address remote)) := by
  have hl1 := l1_remoteTables h ho hplace
  have hl2 : (remoteTables phyaddr remote m).l2ClaimTable = m.l2ClaimTable := by
    unfold remoteTables
    split
    · rfl
    · rfl
  have hnone : ∀ q k, m.l1 q k = none → (remoteTables phyaddr remote m).l1 q k = none := by
    intro q k hk
    rw [Option.eq_none_iff_forall_ne_some]
    intro y hy
    rw [((hl1 q k y).mp hy).1] at hk
    cases hk
  have hp := h.place p
  rw [hplace] at hp
  refine ⟨?_, ?_, ?_, ?_⟩
  · intro q k y hy
    rw [hl2]
    exact h.forward ((hl1 q k y).mp hy).1
  · intro q k y hy
    rw [hl2] at hy
    by_cases hyj : y = xrL2ClaimIndex phyaddr
    · refine .inr ⟨p, ?_⟩
      rw [Function.update_self]
      exact hyj.symm
    · rcases h.back hy with hl | ⟨r, hr⟩
      · exact .inl ((hl1 q k y).mpr ⟨hl, hyj⟩)
      · refine .inr ⟨r, ?_⟩
        rw [Function.update_of_ne]
        · exact hr
        · rintro rfl
          rw [hplace] at hr
          exact hr
  · intro q
    by_cases hqp : q = p
    · subst hqp
      rw [Function.update_self]
      exact ⟨hnone _ _ hp.1, fun r k hk => ((hl1 r k _).mp hk).2 rfl⟩
    · rw [Function.update_of_ne hqp]
      refine (h.place q).mono ?_ ?_ ?_ ?_
      · intro k y hy hheld
        refine (hl1 q k y).mpr ⟨hy, ?_⟩
        rintro rfl
        -- Then `p` holds both mutexes.
        have hremote := hp.2 _ (h.forward hy)
        rcases hheld with hheld | hheld
        · exact hqp (ho.unique hheld (by simp [hplace, ClaimPlace.holds, ← hremote]))
        · exact hqp (ho.unique hheld (by simp [hplace, ClaimPlace.holds]))
      · intro k hk
        exact hnone q k hk
      · intro j r _ hr
        rwa [hl2] at hr
      · intro j _ hno r k hk
        exact hno r k ((hl1 r k j).mp hk).1
  · intro q k y hy
    rcases h.last ((hl1 q k y).mp hy).1 with ht | hlast
    · refine .inl ?_
      rw [Function.update_of_ne]
      · exact ht
      · rintro rfl
        rw [hplace] at ht
        exact ht.elim
    · exact .inr hlast

/-- `p` writes both entries. -/
theorem TablesOk.take (h : TablesOk m trace places) (ho : OwnersOk owner places)
    {phyaddr : Word} {val : Word}
    (hheld : .l2 (xrL2ClaimIndex phyaddr) ∈ (places p).holds p)
    (hnone : m.l1 p (xrL1ClaimIndex phyaddr) = none)
    (hfree : ∀ q k, m.l1 q k ≠ some (xrL2ClaimIndex phyaddr))
    (hrep : ∀ j, (places p).Replaces j → j = xrL2ClaimIndex phyaddr)
    (htook : ∀ j, ¬(places p).Took j) :
    TablesOk (takeTables p phyaddr m) trace (Function.update places p (.took phyaddr val)) := by
  have hl1 : ∀ q k y, (takeTables p phyaddr m).l1 q k = some y →
      (q = p ∧ k = xrL1ClaimIndex phyaddr ∧ y = xrL2ClaimIndex phyaddr) ∨
      m.l1 q k = some y ∧ y ≠ xrL2ClaimIndex phyaddr := by
    intro q k y hy
    rw [takeTables, l1_setL1, l1_setL2] at hy
    split at hy
    · next hqk => exact .inl ⟨hqk.1, hqk.2, (Option.some.inj hy).symm⟩
    · refine .inr ⟨hy, ?_⟩
      rintro rfl
      exact hfree q k hy
  have hkeep : ∀ q k, (q = p → k ≠ xrL1ClaimIndex phyaddr) →
      (takeTables p phyaddr m).l1 q k = m.l1 q k := by
    intro q k hqk
    rw [takeTables, l1_setL1, l1_setL2, if_neg fun hq => hqk hq.1 hq.2]
  have hmine : (takeTables p phyaddr m).l1 p (xrL1ClaimIndex phyaddr) =
      some (xrL2ClaimIndex phyaddr) := by
    rw [takeTables, l1_setL1, if_pos ⟨rfl, rfl⟩]
  have hl2 : (takeTables p phyaddr m).l2ClaimTable =
      Function.update m.l2ClaimTable (xrL2ClaimIndex phyaddr)
        (some (p, xrL1ClaimIndex phyaddr)) := rfl
  refine ⟨?_, ?_, ?_, ?_⟩
  · intro q k y hy
    rcases hl1 q k y hy with ⟨rfl, rfl, rfl⟩ | ⟨hold, hne⟩
    · rw [hl2, Function.update_self]
    · rw [hl2, Function.update_of_ne hne]
      exact h.forward hold
  · intro q k y hy
    rw [hl2] at hy
    by_cases hyj : y = xrL2ClaimIndex phyaddr
    · subst hyj
      rw [Function.update_self] at hy
      obtain ⟨rfl, rfl⟩ := Prod.mk.inj (Option.some.inj hy)
      exact .inl hmine
    · rw [Function.update_of_ne hyj] at hy
      rcases h.back hy with hl | ⟨r, hr⟩
      · refine .inl ?_
        rw [hkeep q k, hl]
        rintro rfl rfl
        rw [hnone] at hl
        cases hl
      · refine .inr ⟨r, ?_⟩
        rw [Function.update_of_ne]
        · exact hr
        · rintro rfl
          exact hyj (hrep y hr)
  · intro q
    by_cases hqp : q = p
    · subst hqp
      rw [Function.update_self]
      exact hmine
    · rw [Function.update_of_ne hqp]
      have hsame : ∀ k, (takeTables p phyaddr m).l1 q k = m.l1 q k :=
        fun k => hkeep q k fun hq => absurd hq hqp
      -- `p` has the L2 entry to itself.
      have hother : ∀ j, .l2 j ∈ (places q).holds q → j ≠ xrL2ClaimIndex phyaddr := by
        rintro j hj rfl
        exact hqp (ho.unique hj hheld)
      refine (h.place q).mono ?_ ?_ ?_ ?_
      · intro k y hy _
        rw [hsame, hy]
      · intro k hk
        rw [hsame, hk]
      · intro j r hj hr
        rwa [hl2, Function.update_of_ne (hother j hj)] at hr
      · intro j hj hno r k hk
        rcases hl1 r k j hk with ⟨_, _, hjj⟩ | ⟨hold, _⟩
        · exact hother j hj hjj
        · exact hno r k hold
  · intro q k y hy
    rcases hl1 q k y hy with ⟨rfl, _, rfl⟩ | ⟨hold, _⟩
    · refine .inl ?_
      rw [Function.update_self]
      rfl
    · rcases h.last hold with ht | hlast
      · refine .inl ?_
        rw [Function.update_of_ne]
        · exact ht
        · rintro rfl
          exact htook y ht
      · exact .inr hlast

/-- `p` returns its claim. -/
theorem TablesOk.claimed (h : TablesOk m trace places) {phyaddr : Word} {val : Word}
    (hmine : m.l1 p (xrL1ClaimIndex phyaddr) = some (xrL2ClaimIndex phyaddr))
    (hrep : ∀ j, ¬(places p).Replaces j)
    (htook : ∀ j, (places p).Took j → j = xrL2ClaimIndex phyaddr) :
    TablesOk m (trace ++ [(p, .claimed phyaddr val)])
      (Function.update places p (.done (.claimed phyaddr val))) where
  forward hj := h.forward hj
  back hj := by
    rcases h.back hj with hl | ⟨q, hq⟩
    · exact .inl hl
    · refine .inr ⟨q, ?_⟩
      rw [Function.update_of_ne]
      · exact hq
      · rintro rfl
        exact hrep _ hq
  place q := by
    by_cases hqp : q = p
    · subst hqp
      rw [Function.update_self]
      trivial
    · rw [Function.update_of_ne hqp]
      exact h.place q
  last := by
    intro q k j hj
    rw [lastClaimer_concat, claimEvent]
    by_cases hjj : xrL2ClaimIndex phyaddr = j
    · -- Only `p` has this entry.
      subst hjj
      have hback := h.forward hmine
      rw [h.forward hj] at hback
      obtain ⟨rfl, _⟩ := Prod.mk.inj (Option.some.inj hback)
      exact .inr (by simp)
    · rw [if_neg hjj]
      rcases h.last hj with ht | hlast
      · refine .inl ?_
        rw [Function.update_of_ne]
        · exact ht
        · rintro rfl
          exact hjj (htook j ht).symm
      · exact .inr hlast

theorem TablesOk.stored (h : TablesOk m trace places) (phyaddr : Word) (ok : Bool) :
    TablesOk m (trace ++ [(p, .stored phyaddr ok)]) places where
  forward hj := h.forward hj
  back hj := h.back hj
  place := h.place
  last hj := by
    rw [lastClaimer_concat]
    exact h.last hj

/-! ## One step -/

theorem ClaimPlace.Waits.placeOk {place : ClaimPlace} {l : XrClaimLock} (hw : place.Waits p l next)
    (h : PlaceOk p m place) : PlaceOk p m next := by
  cases hw with
  | own op => cases op <;> trivial
  | entry phyaddr address => exact h
  | remote phyaddr address remote => exact h

theorem TablesOk.wait (h : TablesOk m trace places) {place : ClaimPlace} {l : XrClaimLock}
    (hplace : places p = place) (hw : place.Waits p l next) :
    TablesOk m trace (Function.update places p next) := by
  have hp := h.place p
  rw [hplace] at hp
  refine h.keep (fun _ _ => rfl) rfl (hw.placeOk hp) ?_ ?_
  · rw [hplace]
    intro j hj
    cases hw <;> exact hj.elim
  · rw [hplace]
    intro j hj
    cases hw <;> exact hj.elim

theorem TablesOk.give (h : TablesOk m trace places) {place : ClaimPlace} {l : XrClaimLock}
    (hplace : places p = place) (hg : place.Gives p l next) :
    TablesOk m (trace ++ next.returns p) (Function.update places p next) := by
  have hp := h.place p
  rw [hplace] at hp
  cases hg with
  | found phyaddr val =>
      refine h.claimed hp ?_ ?_
      · rw [hplace]
        exact fun _ => id
      · rw [hplace]
        exact fun _ => False.elim
  | took phyaddr val =>
      refine h.claimed hp ?_ ?_
      · rw [hplace]
        exact fun _ => id
      · rw [hplace]
        exact fun _ => Eq.symm
  | dropped phyaddr address =>
      show TablesOk m (trace ++ []) _
      rw [List.append_nil]
      refine h.keep (fun _ _ => rfl) rfl hp ?_ ?_
      · rw [hplace]
        exact fun _ => False.elim
      · rw [hplace]
        exact fun _ => id
  | remote phyaddr address remote =>
      show TablesOk m (trace ++ []) _
      rw [List.append_nil]
      refine h.keep (fun _ _ => rfl) rfl hp ?_ ?_
      · rw [hplace]
        exact fun _ => id
      · rw [hplace]
        exact fun _ => id
  | stored phyaddr ok =>
      have hdone : TablesOk m trace (Function.update places p (.done (.stored phyaddr ok))) := by
        refine h.keep (fun _ _ => rfl) rfl trivial ?_ ?_
        · rw [hplace]
          exact fun _ => False.elim
        · rw [hplace]
          exact fun _ => id
      exact hdone.stored phyaddr ok

variable [EBusHost β]

theorem TablesOk.stretch (h : TablesOk m trace places) (ho : OwnersOk owner places)
    {place : ClaimPlace} (hplace : places p = place) (hs : place.Stretch p m next m') :
    TablesOk m' trace (Function.update places p next) := by
  have hp := h.place p
  rw [hplace] at hp
  have hquiet : ∀ op, place = .inL1 op → (∀ j, ¬(places p).Replaces j) ∧ ∀ j, ¬(places p).Took j := by
    rintro op rfl
    rw [hplace]
    exact ⟨fun _ => id, fun _ => id⟩
  cases hs with
  | hit hj =>
      have hq := hquiet _ rfl
      exact h.keep (fun _ _ => rfl) rfl hj (fun j hr => (hq.1 j hr).elim) hq.2
  | drop hj =>
      have hq := hquiet _ rfl
      refine h.drop ?_ hq.1 hq.2
      show (dropClaim p _ m).l1 p _ = none
      rw [l1_dropClaim, if_pos ⟨rfl, rfl⟩]
  | refuse hj =>
      have hq := hquiet _ rfl
      exact h.keep (fun _ _ => rfl) rfl trivial (fun j hr => (hq.1 j hr).elim) hq.2
  | store hj =>
      have hq := hquiet _ rfl
      exact h.keep (fun _ _ => rfl) rfl hj (fun j hr => (hq.1 j hr).elim) hq.2
  | @free phyaddr address hnone =>
      refine h.take ho (by simp [hplace, ClaimPlace.holds]) hp ?_ ?_ ?_
      · intro q k hj
        rw [h.forward hj] at hnone
        cases hnone
      · rw [hplace]
        exact fun _ => False.elim
      · rw [hplace]
        exact fun _ => id
  | @claimed phyaddr address remote hj =>
      refine h.keep (fun _ _ => rfl) rfl ⟨hp, ?_⟩ ?_ ?_
      · intro r hr
        rw [hj] at hr
        exact (Option.some.inj hr).symm
      · rw [hplace]
        exact fun _ => False.elim
      · rw [hplace]
        exact fun _ => id
  | invalidate => exact h.invalidate ho hplace
  | @take phyaddr address =>
      refine h.take ho (by simp [hplace, ClaimPlace.holds]) hp.1 hp.2 ?_ ?_
      · rw [hplace]
        exact fun _ => Eq.symm
      · rw [hplace]
        exact fun _ => id

/-- Every step keeps the invariant. -/
theorem ClaimOk.step {w w' : World (XrFastMem β) XrClaimLock Nat} {out : List (Nat × ClaimResult)}
    {place : ClaimPlace} (h : ClaimOk w trace places) (hplace : places p = place)
    (hs : PlaceStep p w place w' next out) :
    ClaimOk w' (trace ++ out) (Function.update places p next) := by
  cases hs with
  | start op =>
      rw [List.append_nil]
      refine ⟨h.owners.keep (by rw [hplace]; rfl), ?_, h.stores⟩
      refine h.tables.keep (fun _ _ => rfl) rfl trivial ?_ ?_
      · rw [hplace]
        exact fun _ => False.elim
      · rw [hplace]
        exact fun _ => id
  | lock hw free =>
      rw [List.append_nil]
      refine ⟨h.owners.acquire free ?_, h.tables.wait hplace hw, h.stores⟩
      rw [hplace]
      exact hw.holds
  | unlock hg =>
      refine ⟨h.owners.release ?_ hg.holds.2, h.tables.give hplace hg, ?_⟩
      · rw [hplace]
        exact hg.holds.1
      · cases hg with
        | found phyaddr val => exact h.stores.concat fun _ _ he => nomatch he
        | took phyaddr val => exact h.stores.concat fun _ _ he => nomatch he
        | dropped phyaddr address =>
            show StoresOwn (trace ++ [])
            rw [List.append_nil]
            exact h.stores
        | remote phyaddr address remote =>
            show StoresOwn (trace ++ [])
            rw [List.append_nil]
            exact h.stores
        | stored phyaddr ok =>
            refine h.stores.concat ?_
            intro q a he
            cases he
            -- The claim was there under the mutex.
            have hp := h.tables.place p
            rw [hplace] at hp
            rcases h.tables.last hp with ht | hlast
            · rw [hplace] at ht
              exact ht.elim
            · exact hlast
  | stretch hst =>
      rw [List.append_nil]
      refine ⟨h.owners.keep ?_, h.tables.stretch h.owners hplace hst, h.stores⟩
      rw [hplace]
      exact hst.holds
  | finish result =>
      rw [List.append_nil]
      refine ⟨h.owners.keep (by rw [hplace]; rfl), ?_, h.stores⟩
      refine h.tables.keep (fun _ _ => rfl) rfl trivial ?_ ?_
      · rw [hplace]
        exact fun _ => False.elim
      · rw [hplace]
        exact fun _ => id

end

/-! ## Every interleaving -/

variable [EBusHost β]

/-- The invariant with the threads that stand at these places. -/
def RunOk (c : Protocol.Config (XrFastMem β) XrClaimLock Nat ClaimOp ClaimResult)
    (trace : List (Nat × ClaimResult)) (places : Nat → ClaimPlace) : Prop :=
  (∀ p, c.threads p = (places p).thread p) ∧ ClaimOk c.world trace places

theorem runOk_start (bus : β) :
    RunOk ⟨⟨(XrFastSys.cold bus).mem, fun _ => none⟩, fun _ => .idle⟩ [] fun _ => .idle := by
  refine ⟨fun _ => rfl, ?_, ⟨?_, ?_, ?_, ?_⟩, ?_⟩
  · intro l q
    constructor
    · intro hl
      cases hl
    · intro hl
      cases hl
  · intro p i j hj
    cases hj
  · intro p i j hj
    cases hj
  · exact fun _ => trivial
  · intro p i j hj
    cases hj
  · intro before p phyaddr after heq
    simp at heq

theorem runOk_of_runs {bus : β} {c : Protocol.Config (XrFastMem β) XrClaimLock Nat ClaimOp ClaimResult}
    {trace : List (Nat × ClaimResult)}
    (run : Runs (claimTables β) (XrFastSys.cold bus).mem c trace) :
    ∃ places, RunOk c trace places := by
  refine run.invariant (runOk_start bus) ?_
  rintro c c' trace p places ⟨hthreads, hok⟩ hstep
  obtain ⟨next, hplace, hnext⟩ := placeStep_of_step (hthreads p) hstep
  refine ⟨Function.update places p next, ?_, hok.step rfl hplace⟩
  intro q
  rw [hnext]
  by_cases hq : q = p
  · subst hq
    rw [Function.update_self, Function.update_self]
  · rw [Function.update_of_ne hq, Function.update_of_ne hq]
    exact hthreads q

/-! ## The claims -/

theorem lastClaimer_append (j : Nat) (early late : List (Nat × ClaimResult)) :
    lastClaimer j (early ++ late) = (lastClaimer j late).or (lastClaimer j early) := by
  induction late using List.reverseRecOn with
  | nil => simp [lastClaimer]
  | append_singleton late e ih =>
      rw [← List.append_assoc, lastClaimer_concat, lastClaimer_concat, ih, Option.or_assoc]

theorem mem_of_lastClaimer {j p : Nat} {trace : List (Nat × ClaimResult)}
    (h : lastClaimer j trace = some p) :
    ∃ phyaddr val, (p, .claimed phyaddr val) ∈ trace ∧ xrL2ClaimIndex phyaddr = j := by
  induction trace using List.reverseRecOn with
  | nil => cases h
  | append_singleton trace e ih =>
      rw [lastClaimer_concat] at h
      rcases Option.or_eq_some_iff.mp h with he | ⟨_, hlast⟩
      · obtain ⟨q, result⟩ := e
        cases result with
        | claimed phyaddr val =>
            rw [claimEvent] at he
            split at he
            · next hj =>
                obtain rfl := Option.some.inj he
                exact ⟨phyaddr, val, by simp, hj⟩
            · cases he
        | stored phyaddr ok => cases he
      · obtain ⟨phyaddr, val, hmem, hj⟩ := ih hlast
        exact ⟨phyaddr, val, by simp [hmem], hj⟩

theorem lastClaimer_of_mem {j q : Nat} {phyaddr val : Word} {trace : List (Nat × ClaimResult)}
    (h : (q, .claimed phyaddr val) ∈ trace) (hj : xrL2ClaimIndex phyaddr = j) :
    ∃ p, lastClaimer j trace = some p := by
  obtain ⟨early, late, rfl⟩ := List.append_of_mem h
  rw [lastClaimer_append]
  cases hlate : lastClaimer j ((q, .claimed phyaddr val) :: late) with
  | some p => exact ⟨p, rfl⟩
  | none =>
      rw [← List.singleton_append, lastClaimer_append] at hlate
      have hone := (Option.or_eq_none_iff.mp hlate).2
      simp [lastClaimer, claimEvent, hj] at hone

/-- If `p` stores to `phyaddr`, nobody has completed a claim of the L2 entry since the
last claim of `p`, when that was a claim of `phyaddr`. -/
def ClaimLaw (trace : List (Nat × ClaimResult)) : Prop :=
  ∀ early p phyaddr val between after,
    trace = early ++ (p, .claimed phyaddr val) :: between ++ (p, .stored phyaddr true) :: after →
    (∀ b v, (p, .claimed b v) ∉ between) →
    ∀ q b v, (q, .claimed b v) ∈ between → xrL2ClaimIndex b ≠ xrL2ClaimIndex phyaddr

theorem StoresOwn.claimLaw {trace : List (Nat × ClaimResult)} (h : StoresOwn trace) :
    ClaimLaw trace := by
  intro early p phyaddr val between after heq hmine q b v hb hj
  have hlast := h _ p phyaddr after heq
  obtain ⟨r, hr⟩ := lastClaimer_of_mem hb hj
  rw [← List.singleton_append, ← List.append_assoc, lastClaimer_append, hr] at hlast
  obtain rfl := Option.some.inj hlast
  obtain ⟨c, w, hc, _⟩ := mem_of_lastClaimer hr
  exact hmine c w hc

/-- How far a place is from needing no mutex. -/
def ClaimPlace.waitRank : ClaimPlace → Nat
  | .wantL2 _ _ => 2
  | .wantL1 _ | .wantRemote _ _ _ => 1
  | _ => 0

/-- Nobody waits for a processor that waits as long. -/
theorem waitRank_lt {p q : Nat} {place next other : ClaimPlace} {l : XrClaimLock}
    (hw : place.Waits p l next) (hq : l ∈ other.holds q) : other.waitRank < place.waitRank := by
  cases hw with
  | own op => cases other <;> simp [ClaimPlace.holds, ClaimPlace.waitRank] at hq ⊢
  | entry phyaddr address => cases other <;> simp [ClaimPlace.holds, ClaimPlace.waitRank] at hq ⊢
  | remote phyaddr address remote =>
      cases other <;> simp [ClaimPlace.holds, ClaimPlace.waitRank] at hq ⊢

theorem RunOk.not_circular {c : Protocol.Config (XrFastMem β) XrClaimLock Nat ClaimOp ClaimResult}
    {trace : List (Nat × ClaimResult)} {places : Nat → ClaimPlace} (h : RunOk c trace places) :
    ¬CircularWait c := by
  refine not_circular_of_rank (fun p => (places p).waitRank) ?_
  rintro p q ⟨l, rest, hlock, howner⟩
  rw [h.1 p] at hlock
  obtain ⟨next, hw, _⟩ := waits_of_thread hlock
  exact waitRank_lt hw ((h.2.owners l q).mp howner)

/-- In every interleaving: a store goes through only if no other claim came in
between, an L2 entry points back to every L1 entry that points to it, and no
processors wait for each other's mutexes in a circle. -/
theorem claim_protocol {bus : β}
    {c : Protocol.Config (XrFastMem β) XrClaimLock Nat ClaimOp ClaimResult}
    {trace : List (Nat × ClaimResult)}
    (run : Runs (claimTables β) (XrFastSys.cold bus).mem c trace) :
    ClaimLaw trace ∧
    (∀ p i j, c.world.st.l1 p i = some j → c.world.st.l2ClaimTable j = some (p, i)) ∧
    ¬CircularWait c := by
  obtain ⟨places, hok⟩ := runOk_of_runs run
  exact ⟨hok.2.stores.claimLaw, fun _ _ _ hj => hok.2.tables.forward hj, hok.not_circular⟩

end

/-- A processor that claims address 0 and stores into it. -/
theorem claim_protocol_claim_store :
    ∃ c, Runs (claimTables LineRam) (XrFastSys.cold LineRam.zeroed).mem c
        [(0, .claimed 0 0), (0, .stored 0 true)] ∧
      ClaimLaw [(0, .claimed 0 0), (0, .stored 0 true)] ∧
      (∀ p i j, c.world.st.l1 p i = some j → c.world.st.l2ClaimTable j = some (p, i)) ∧
      ¬CircularWait c := by
  have idle : Runs (claimTables LineRam) (XrFastSys.cold LineRam.zeroed).mem _ [] := .start
  -- The claim: under the L1 mutex there is nothing to drop, then it takes the L2 entry.
  have started := idle.step (p := 0) (.start (a := .claim 0 0) rfl trivial)
  have inL1 := started.step (p := 0) (.lock rfl rfl)
  have dropped := inL1.step (p := 0) (.stretch rfl)
  have left := dropped.step (p := 0) (.unlock rfl)
  have inL2 := left.step (p := 0) (.lock rfl rfl)
  have took := inL2.step (p := 0) (.stretch rfl)
  have claimed := took.step (p := 0) (.unlock rfl)
  have finished := claimed.step (p := 0) (.finish rfl)
  -- The store.
  have started' := finished.step (p := 0) (.start (a := .store 0 0 1) rfl trivial)
  have inL1' := started'.step (p := 0) (.lock rfl rfl)
  have written := inL1'.step (p := 0) (.stretch rfl)
  have stored := written.step (p := 0) (.unlock rfl)
  exact ⟨_, stored, claim_protocol stored⟩

end Xremu
