import Xremu.Interp.Placed

/-!
# Where the blocks of a run come from

Every block in use was decoded from words that the build fetched, and nothing that
happens to it later changes more than its links. What holds of each block as it is
decoded, and does not depend on links, therefore holds of every block in use in every
run (`Reach.blocks`).
-/

namespace Xremu

open XrIblockCache

/-- The two records differ in their links only. -/
def SameCode (b b' : XrIblock) : Prop :=
  b' = { b with
    cachedByFifoIndex := b'.cachedByFifoIndex
    hasPtable := b'.hasPtable
    cachedPaths := b'.cachedPaths
    cachedBy := b'.cachedBy }

namespace SameCode

variable {b b' b'' : XrIblock}

theorem refl (b : XrIblock) : SameCode b b := rfl

theorem trans (h : SameCode b b') (h' : SameCode b' b'') : SameCode b b'' := by
  unfold SameCode at *
  rw [h] at h'
  exact h'

theorem pc (h : SameCode b b') : b'.pc = b.pc := by rw [h]
theorem words (h : SameCode b b') : b'.words = b.words := by rw [h]

end SameCode

/-- The blocks in use of `c'` are blocks in use of `c`. -/
def Comes (c c' : XrIblockCache) : Prop :=
  ∀ j, c'.Active j → c.Active j ∧ SameCode (c.iblocks j) (c'.iblocks j)

section

variable {c c' : XrIblockCache} {i j t : Nat}

theorem comes_create (c : XrIblockCache) (j : Nat) (s : XrSlot) :
    Comes c (c.xrCreateCachedPointerToBlock j s) := by
  have hlinked := linked_create c j s
  intro l hl
  refine ⟨(hlinked.lists.active l).mp hl, ?_⟩
  unfold SameCode
  rw [hlinked.iblock l]

theorem comes_predict (c : XrIblockCache) (t j : Nat) (pc : Word) : Comes c (c.predict t j pc) := by
  unfold predict
  extract_lets ptable k c₁
  exact comes_create c₁ j (.table t k)

theorem comes_given (h : c.givePtable i = some c') : Comes c c' := by
  obtain ⟨t, hgiven⟩ := given_givePtable h
  intro l hl
  refine ⟨(hgiven.lists.active l).mp hl, ?_⟩
  by_cases hli : l = i
  · subst hli
    unfold SameCode
    rw [hgiven.iblock]
  · rw [hgiven.iblock_ne l hli]
    exact .refl _

theorem Tabled.comes (h : Tabled c i t c') : Comes c c' := by
  cases h with
  | old table => exact fun l hl => ⟨hl, .refl _⟩
  | new null given table => exact comes_given given

theorem comes_drop {vpn : Option Word} (h : c.Reach) (hdrop : c.drop vpn = some c') :
    Comes c c' := by
  have hinv := inv_reach h
  intro l hl
  cases vpn with
  | none =>
      obtain ⟨c₁, hrun, _, hnone⟩ := xrInvalidateIblockCache_ok hinv
      obtain rfl := Option.some.inj (hrun.symm.trans hdrop)
      exact absurd hl (hnone l)
  | some vpn =>
      obtain ⟨c₁, hrun, _, hshrunk⟩ := xrInvalidateIblockCacheByVpn_ok hinv vpn
      obtain rfl := Option.some.inj (hrun.symm.trans hdrop)
      refine ⟨((hshrunk.active l).mp hl).1, ?_⟩
      unfold SameCode
      rw [hshrunk.iblock l]

end

/-! ## What holds of every block in use -/

/-- Every block in use is one of these. -/
def BlocksAre (Q : XrIblock → Prop) (c : XrIblockCache) : Prop := ∀ i, c.Active i → Q (c.iblocks i)

/-- Blocks are these when they are decoded, and remain so. -/
structure HoldsOfBlocks (M : Type) [XrBuild M] (Q : XrIblock → Prop) : Prop where
  same : ∀ {b b'}, SameCode b b' → Q b → Q b'
  fetched : ∀ {m m' : Machine M} {f} (v : Nat), XrBuild.fetch m = some (some f, m') →
    Q (newIblock m.proc.pc m.proc.xrCurrentAsid f m'.tbmiss v)

section

variable {M : Type} [XrBuild M] {Q : XrIblock → Prop} {m m' : Machine M}
  {c c' : XrIblockCache} {hazard : Option Nat} {j : Nat}

theorem HoldsOfBlocks.comes (hQ : HoldsOfBlocks M Q) (hcomes : Comes c c') (h : BlocksAre Q c) :
    BlocksAre Q c' := by
  intro i hi
  obtain ⟨hold, hsame⟩ := hcomes i hi
  exact hQ.same hsame (h i hold)

theorem HoldsOfBlocks.decode (hQ : HoldsOfBlocks M Q) (hreach : c.Reach)
    (hrun : xrDecodeInstructions m c hazard = some (some j, m', c')) (h : BlocksAre Q c) :
    BlocksAre Q c' := by
  cases decodes hrun with
  | hit found allowed => exact h
  | @fetched f m₁ _ _ missed fetch done =>
      obtain ⟨i, c₁, hdone, hdecoded⟩ :=
        decodeFetched_ok (inv_reach hreach) hazard f m₁.tbmiss missed
      cases hdone.symm.trans done
      obtain ⟨v, hnew⟩ := hdecoded.iblock
      intro l hl
      by_cases hlj : l = j
      · rw [hlj, hnew]
        exact hQ.fetched v fetch
      · obtain ⟨hold, hsame⟩ := hdecoded.old l hl hlj
        refine hQ.same ?_ (h l hold)
        unfold SameCode
        rw [hsame]

theorem HoldsOfBlocks.leaves {i k : Nat} {inst : XrCachedInst} {exit : XrExit} {s : XrInterp M}
    (hQ : HoldsOfBlocks M Q) (hstands : StandsAt m c i k) (hreach : c.Reach)
    (hinst : (c.iblocks i).code.insts[k]? = some inst) (hran : Ran m inst m' exit)
    (hleaves : Leaves m' c i k exit s) (h : BlocksAre Q c) : BlocksAre Q s.cache := by
  cases hleaves with
  | next | early | trivial | cached _ => exact h
  | flush drop => exact hQ.comes (comes_drop hreach drop) h
  | @decoded path j m₂ c₂ null decode =>
      exact hQ.comes (comes_create c₂ j (.path i path)) (hQ.decode hreach decode h)
  | faulted null decode =>
      obtain ⟨_, rfl⟩ := decode_fault decode
      exact h
  | @predicted t j c₁ m₂ c₂ table miss decode =>
      obtain ⟨hreach₁, _⟩ := table.reach hreach hstands.active (StandsAt.jalr hinst hran)
      have h₂ := hQ.decode hreach₁ decode (hQ.comes table.comes h)
      exact hQ.comes (comes_predict c₂ t j m₂.proc.pc) h₂
  | unpredicted table miss decode =>
      obtain ⟨_, rfl⟩ := decode_fault decode
      exact hQ.comes table.comes h

theorem HoldsOfBlocks.retry {pending : Bool} {s : XrInterp M} (hQ : HoldsOfBlocks M Q)
    (hreach : c.Reach) (hrun : xrRetry pending m c = some s) (h : BlocksAre Q c) :
    BlocksAre Q s.cache := by
  cases retries hrun with
  | stopped stops => exact h
  | faulted goes decode =>
      obtain ⟨_, rfl⟩ := decode_fault decode
      exact h
  | enters goes decode => exact hQ.decode hreach decode h

theorem HoldsOfBlocks.step {s s' : XrInterp M} {pending : Bool} (hQ : HoldsOfBlocks M Q)
    (hplaced : s.Placed) (hstep : s.step pending = some s') (h : BlocksAre Q s.cache) :
    BlocksAre Q s'.cache := by
  obtain ⟨m, c, point⟩ := s
  cases point with
  | check =>
      cases hstep
      exact h
  | retry => exact hQ.retry hplaced.reach hstep h
  | inst i k =>
      obtain ⟨inst, m₁, exit, hinst, hexec, hleaves⟩ := inst_step hstep
      exact hQ.leaves (hplaced.stands i k rfl) hplaced.reach hinst (exec_ran hexec) hleaves h
  | noMore => cases hstep

/-- What holds of the blocks of a build holds in every run. -/
theorem XrInterp.Reach.blocks {P : XrInterp M → Prop} {s : XrInterp M}
    (hQ : HoldsOfBlocks M Q) (h : Reach P s) : BlocksAre Q s.cache := by
  induction h with
  | @start m c h =>
      intro i hi
      unfold Active at hi
      rw [h.lru] at hi
      cases hi
  | timeslice h idle ih => exact ih
  | call input cycles h idle ih => exact ih
  | next input h ok step ih => exact hQ.step (h.placed.meets input) step ih

end

end Xremu
