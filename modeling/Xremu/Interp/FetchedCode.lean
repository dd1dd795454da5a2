import Xremu.Interp.BlockOrigins
import Xremu.Interp.PreciseFaults
import Xremu.Interp.UserMode

/-!
# Only code that was fetched is executed

The simulator may keep what it has decoded for as long as the program has not asked for
it to be dropped: `XrInvalidateIblockCache` and `XrInvalidateIblockCacheByVpn` are called
by MTCR only. A run is taken here with the trace of its fetches and its drops. Every
instruction it executes then is what a word of an earlier fetch is decoded to, executed at
the address of that word, and since that fetch the page of its block was not dropped.
-/

namespace Xremu

open XrIblockCache

/-- What the blocks in use depend on: the fetches and, by MTCR, the drops. -/
inductive XrCodeEvent (M : Type) where
  | fetched (m m' : Machine M) (f : XrFetched)
  | dropped (vpn : Option Word)

/-- The event drops the blocks of this page. -/
def XrCodeEvent.Drops {M : Type} (page : Word) : XrCodeEvent M → Prop
  | .fetched _ _ _ => False
  | .dropped none => True
  | .dropped (some vpn) => page = vpn

/-! ## The events of a step -/

section

variable {M : Type} [XrBuild M]

/-- The fetch of `XrDecodeInstructions`, which is made if there is no block. -/
def decodeEvents (m : Machine M) (c : XrIblockCache) : List (XrCodeEvent M) :=
  match c.xrLookupIblock m.proc.pc m.proc.xrCurrentAsid with
  | some _ => []
  | none =>
      match XrBuild.fetch m with
      | some (some f, m') => [.fetched m m' f]
      | _ => []

/-- Those of `xrPredictBy`. -/
def predictEvents (m : Machine M) (c : XrIblockCache) (i : Nat) : List (XrCodeEvent M) :=
  match (c.iblocks i).cachedPaths .true with
  | .ptable t => if c.predicted t m.proc.pc = .null then decodeEvents m c else []
  | _ => []

/-- Those of `xrLeave`. -/
def leaveEvents (m : Machine M) (c : XrIblockCache) (i : Nat) : XrExit → List (XrCodeEvent M)
  | .flush vpn => [.dropped vpn]
  | .follow path => if (c.iblocks i).cachedPaths path = .null then decodeEvents m c else []
  | .predict =>
      match if (c.iblocks i).cachedPaths .true = .null then c.givePtable i else some c with
      | none => []
      | some c => predictEvents m c i
  | _ => []

/-- Those of `xrInst`. -/
def instEvents (m : Machine M) (c : XrIblockCache) (i k : Nat) : List (XrCodeEvent M) :=
  match (c.iblocks i).code.insts[k]? with
  | none => []
  | some inst =>
      match inst.exec m i with
      | none => []
      | some (m, exit) => leaveEvents m c i exit

/-- Those of `XrInterp.step`. -/
def XrInterp.events (pending : Bool) (s : XrInterp M) : List (XrCodeEvent M) :=
  match s.point with
  | .retry =>
      if s.machine.proc.Stops then []
      else decodeEvents (takeInterrupt pending s.machine.countNmiMask) s.cache
  | .inst i k => instEvents s.machine s.cache i k
  | _ => []

/-- The runs, each with what was fetched and dropped in it. -/
inductive XrInterp.Traced : List (XrCodeEvent M) → XrInterp M → Prop
  | start (m : Machine M) {c : XrIblockCache} (h : c.Initial) : Traced [] ⟨m, c, .noMore⟩
  | timeslice {evs : List (XrCodeEvent M)} {s : XrInterp M} (h : Traced evs s)
      (idle : s.point = .noMore) : Traced evs s.timeslice
  | call {evs : List (XrCodeEvent M)} {s : XrInterp M} (input : XrInput M) (cycles : Word)
      (h : Traced evs s) (idle : s.point = .noMore) : Traced evs (s.call input cycles)
  | next {evs : List (XrCodeEvent M)} {s s' : XrInterp M} (input : XrInput M) (h : Traced evs s)
      (step : s.next input = some s') :
      Traced (evs ++ (s.meets input).events input.pending) s'

/-- A traced run is a run. -/
theorem XrInterp.Traced.reach {evs : List (XrCodeEvent M)} {s : XrInterp M} (h : Traced evs s) :
    Reach (fun _ => True) s := by
  induction h with
  | start m h => exact .start m h
  | timeslice h idle ih => exact .timeslice ih idle
  | call input cycles h idle ih => exact .call input cycles ih idle
  | next input h step ih => exact .next input ih trivial step

/-- Every run has its trace. -/
theorem XrInterp.Reach.traced {s : XrInterp M} (h : Reach (fun _ => True) s) :
    ∃ evs, Traced evs s := by
  induction h with
  | start m h => exact ⟨[], .start m h⟩
  | timeslice h idle ih =>
      obtain ⟨evs, htraced⟩ := ih
      exact ⟨evs, .timeslice htraced idle⟩
  | call input cycles h idle ih =>
      obtain ⟨evs, htraced⟩ := ih
      exact ⟨evs, .call input cycles htraced idle⟩
  | next input h ok step ih =>
      obtain ⟨evs, htraced⟩ := ih
      exact ⟨_, .next input htraced step⟩

end

/-! ## Blocks and their fetches -/

section

variable {M : Type} [XrBuild M] {evs : List (XrCodeEvent M)} {b b' : XrIblock}

/-- `b` was made of one of these fetches, and its page was not dropped afterwards. -/
def FetchedIn (evs : List (XrCodeEvent M)) (b : XrIblock) : Prop :=
  ∃ before after m m' f v, evs = before ++ .fetched m m' f :: after ∧
    XrBuild.fetch m = some (some f, m') ∧
    SameCode (newIblock m.proc.pc m.proc.xrCurrentAsid f m'.tbmiss v) b ∧
    ∀ e ∈ after, ¬e.Drops (pageOf b.pc)

theorem FetchedIn.same (hsame : SameCode b b') (h : FetchedIn evs b) : FetchedIn evs b' := by
  obtain ⟨before, after, m, m', f, v, hevs, hfetch, hmade, hafter⟩ := h
  refine ⟨before, after, m, m', f, v, hevs, hfetch, hmade.trans hsame, ?_⟩
  rw [hsame.pc]
  exact hafter

theorem FetchedIn.later (h : FetchedIn evs b) {more : List (XrCodeEvent M)}
    (hmore : ∀ e ∈ more, ¬e.Drops (pageOf b.pc)) : FetchedIn (evs ++ more) b := by
  obtain ⟨before, after, m, m', f, v, hevs, hfetch, hmade, hafter⟩ := h
  refine ⟨before, after ++ more, m, m', f, v, ?_, hfetch, hmade, ?_⟩
  · rw [hevs, List.append_assoc, List.cons_append]
  · intro e he
    rcases List.mem_append.mp he with he | he
    · exact hafter e he
    · exact hmore e he

/-- A fetch drops nothing. -/
theorem decodeEvents_fetches {m : Machine M} {c : XrIblockCache} {e : XrCodeEvent M}
    (he : e ∈ decodeEvents m c) (page : Word) : ¬e.Drops page := by
  unfold decodeEvents at he
  split at he
  · cases he
  · split at he
    · rw [List.mem_singleton.mp he]
      exact id
    · cases he

theorem fetchedIn_new {m m' : Machine M} {f : XrFetched}
    (hfetch : XrBuild.fetch m = some (some f, m')) (v : Nat) :
    FetchedIn (evs ++ [.fetched m m' f])
      (newIblock m.proc.pc m.proc.xrCurrentAsid f m'.tbmiss v) := by
  refine ⟨evs, [], m, m', f, v, rfl, hfetch, .refl _, ?_⟩
  rintro e ⟨⟩

/-- Every block in use was fetched, and its page not dropped since. -/
def BlocksFetched (evs : List (XrCodeEvent M)) (c : XrIblockCache) : Prop :=
  BlocksAre (FetchedIn evs) c

variable {m m' : Machine M} {c c' : XrIblockCache} {hazard : Option Nat} {i j k : Nat}

theorem BlocksFetched.comes (hcomes : Comes c c') (h : BlocksFetched evs c) :
    BlocksFetched evs c' := by
  intro l hl
  obtain ⟨hold, hsame⟩ := hcomes l hl
  exact (h l hold).same hsame

theorem BlocksFetched.later (h : BlocksFetched evs c) {more : List (XrCodeEvent M)}
    (hmore : ∀ e ∈ more, ∀ page, ¬e.Drops page) : BlocksFetched (evs ++ more) c :=
  fun l hl => (h l hl).later fun e he => hmore e he _

/-- A drop leaves no block that it is for. -/
theorem BlocksFetched.drop {vpn : Option Word} (hreach : c.Reach) (hdrop : c.drop vpn = some c')
    (h : BlocksFetched evs c) : BlocksFetched (evs ++ [.dropped vpn]) c' := by
  intro l hl
  obtain ⟨hold, hsame⟩ := comes_drop hreach hdrop l hl
  refine ((h l hold).same hsame).later fun e he hdrops => ?_
  rw [List.mem_singleton.mp he] at hdrops
  have hinv := inv_reach hreach
  cases vpn with
  | none =>
      obtain ⟨c₁, hrun, _, hnone⟩ := xrInvalidateIblockCache_ok hinv
      obtain rfl := Option.some.inj (hrun.symm.trans hdrop)
      exact hnone l hl
  | some vpn =>
      obtain ⟨c₁, hrun, _, hshrunk⟩ := xrInvalidateIblockCacheByVpn_ok hinv vpn
      obtain rfl := Option.some.inj (hrun.symm.trans hdrop)
      rw [hsame.pc] at hdrops
      exact ((hshrunk.active l).mp hl).2 hdrops

theorem BlocksFetched.decode (hreach : c.Reach)
    (hrun : xrDecodeInstructions m c hazard = some (some j, m', c')) (h : BlocksFetched evs c) :
    BlocksFetched (evs ++ decodeEvents m c) c' := by
  cases decodes hrun with
  | hit found allowed => exact h.later fun e he => decodeEvents_fetches he
  | @fetched f m₁ _ _ missed fetch done =>
      have hevents : decodeEvents m c = [.fetched m m₁ f] := by
        simp only [decodeEvents, missed, fetch]
      obtain ⟨i, c₁, hdone, hdecoded⟩ :=
        decodeFetched_ok (inv_reach hreach) hazard f m₁.tbmiss missed
      cases hdone.symm.trans done
      obtain ⟨v, hnew⟩ := hdecoded.iblock
      intro l hl
      by_cases hlj : l = j
      · rw [hlj, hnew, hevents]
        exact fetchedIn_new fetch v
      · obtain ⟨hold, hsame⟩ := hdecoded.old l hl hlj
        refine ((h l hold).same ?_).later fun e he => decodeEvents_fetches he _
        unfold SameCode
        rw [hsame]

theorem XrPointer.ne_null_of_iblock {p : XrPointer} {j : Nat} (h : p = .iblock j) :
    p ≠ .null := by
  rintro rfl
  cases h

theorem XrPointer.ne_null_of_ptable {p : XrPointer} {t : Nat} (h : p = .ptable t) :
    p ≠ .null := by
  rintro rfl
  cases h

/-- The events of JALR are those of the fetch at its target. -/
theorem predict_events {t : Nat} (htable : Tabled c i t c')
    (miss : c'.predicted t m.proc.pc = .null) :
    leaveEvents m c i .predict = decodeEvents m c' := by
  have hpredict : (c'.iblocks i).cachedPaths .true = .ptable t →
      predictEvents m c' i = decodeEvents m c' := by
    intro table
    unfold predictEvents
    rw [table]
    exact if_pos miss
  cases htable with
  | old table =>
      unfold leaveEvents
      dsimp only
      rw [if_neg (XrPointer.ne_null_of_ptable table)]
      exact hpredict table
  | new null given table =>
      unfold leaveEvents
      dsimp only
      rw [if_pos null, given]
      exact hpredict table

theorem leaveEvents_cached {exit : XrExit} (hit : c.cachedNext i m.proc.pc exit = .iblock j) :
    leaveEvents m c i exit = [] := by
  cases exit with
  | follow path =>
      have hslot : (c.iblocks i).cachedPaths path = .iblock j := hit
      exact if_neg (XrPointer.ne_null_of_iblock hslot)
  | predict =>
      cases hslot : (c.iblocks i).cachedPaths .true with
      | null =>
          simp only [cachedNext, hslot] at hit
          cases hit
      | iblock l =>
          simp only [cachedNext, hslot] at hit
          cases hit
      | ptable t =>
          simp only [cachedNext, hslot] at hit
          unfold leaveEvents
          dsimp only
          rw [if_neg (XrPointer.ne_null_of_ptable hslot)]
          dsimp only
          unfold predictEvents
          rw [hslot]
          exact if_neg (XrPointer.ne_null_of_iblock hit)
  | next => rfl
  | early => rfl
  | trivial => rfl
  | flush vpn => cases hit

theorem BlocksFetched.leaves {inst : XrCachedInst} {exit : XrExit} {s : XrInterp M}
    (hstands : StandsAt m c i k) (hreach : c.Reach)
    (hinst : (c.iblocks i).code.insts[k]? = some inst) (hran : Ran m inst m' exit)
    (hleaves : Leaves m' c i k exit s) (h : BlocksFetched evs c) :
    BlocksFetched (evs ++ leaveEvents m' c i exit) s.cache := by
  cases hleaves with
  | next => exact h.later (by rintro e ⟨⟩)
  | early => exact h.later (by rintro e ⟨⟩)
  | trivial => exact h.later (by rintro e ⟨⟩)
  | cached hit =>
      rw [leaveEvents_cached hit, List.append_nil]
      exact h
  | flush drop => exact h.drop hreach drop
  | @decoded path j m₂ c₂ null decode =>
      have hevents : leaveEvents m' c i (.follow path) = decodeEvents m' c := if_pos null
      rw [hevents]
      exact (h.decode hreach decode).comes (comes_create c₂ j (.path i path))
  | @faulted path m₂ c₂ null decode =>
      have hevents : leaveEvents m' c i (.follow path) = decodeEvents m' c := if_pos null
      obtain ⟨_, rfl⟩ := decode_fault decode
      rw [hevents]
      exact h.later fun e he => decodeEvents_fetches he
  | @predicted t j c₁ m₂ c₂ table miss decode =>
      obtain ⟨hreach₁, _⟩ := table.reach hreach hstands.active (StandsAt.jalr hinst hran)
      rw [predict_events table miss]
      exact ((h.comes table.comes).decode hreach₁ decode).comes (comes_predict c₂ t j m₂.proc.pc)
  | unpredicted table miss decode =>
      obtain ⟨_, rfl⟩ := decode_fault decode
      rw [predict_events table miss]
      exact (h.comes table.comes).later fun e he => decodeEvents_fetches he

theorem BlocksFetched.retry {pending : Bool} {s : XrInterp M} (hreach : c.Reach)
    (hrun : xrRetry pending m c = some s) (h : BlocksFetched evs c) :
    BlocksFetched (evs ++ (XrInterp.mk m c .retry).events pending) s.cache := by
  cases retries hrun with
  | stopped stops =>
      have hevents : (XrInterp.mk m c .retry).events pending = [] := if_pos stops
      rw [hevents, List.append_nil]
      exact h
  | faulted goes decode =>
      have hevents : (XrInterp.mk m c .retry).events pending =
        decodeEvents (takeInterrupt pending m.countNmiMask) c := if_neg goes
      obtain ⟨_, rfl⟩ := decode_fault decode
      rw [hevents]
      exact h.later fun e he => decodeEvents_fetches he
  | enters goes decode =>
      have hevents : (XrInterp.mk m c .retry).events pending =
        decodeEvents (takeInterrupt pending m.countNmiMask) c := if_neg goes
      rw [hevents]
      exact h.decode hreach decode

theorem BlocksFetched.step {s s' : XrInterp M} {pending : Bool} (hplaced : s.Placed)
    (hstep : s.step pending = some s') (h : BlocksFetched evs s.cache) :
    BlocksFetched (evs ++ s.events pending) s'.cache := by
  obtain ⟨m, c, point⟩ := s
  cases point with
  | check =>
      cases hstep
      exact h.later (by rintro e ⟨⟩)
  | retry => exact h.retry hplaced.reach hstep
  | inst i k =>
      obtain ⟨inst, m₁, exit, hinst, hexec, hleaves⟩ := inst_step hstep
      have hevents : (XrInterp.mk m c (.inst i k)).events pending = leaveEvents m₁ c i exit := by
        simp only [XrInterp.events, instEvents, hinst, hexec]
      rw [hevents]
      exact h.leaves (hplaced.stands i k rfl) hplaced.reach hinst (exec_ran hexec) hleaves
  | noMore => cases hstep

/-- In every run each block in use was fetched in it, and not dropped since. -/
theorem XrInterp.Traced.fetched {s : XrInterp M} (h : Traced evs s) :
    BlocksFetched evs s.cache := by
  induction h with
  | @start m c h =>
      intro i hi
      unfold Active at hi
      rw [h.lru] at hi
      cases hi
  | timeslice h idle ih => exact ih
  | call input cycles h idle ih => exact ih
  | next input h step ih => exact BlocksFetched.step (h.reach.placed.meets input) step ih

end

/-! ## Instructions and their words -/

/-- `inst`, executed at `pc`, belongs to what one of the words is decoded to; `start` is the
address of the first. -/
def WordOf (tbmiss : Bool) (words : List Word) (start pc : Word) (inst : XrCachedInst) : Prop :=
  ∃ n w, words[n]? = some w ∧ pc = start + BitVec.ofNat 32 (4 * n) ∧
    inst ∈ (xrDecode tbmiss w pc).insts

theorem WordOf.cons {tbmiss : Bool} {words : List Word} {start pc ir : Word} {inst : XrCachedInst}
    (h : WordOf tbmiss words (start + 4) pc inst) : WordOf tbmiss (ir :: words) start pc inst := by
  obtain ⟨n, w, hw, hpc, hmem⟩ := h
  exact ⟨n + 1, w, hw, hpc.trans (address_succ start n), hmem⟩

/-- Inside of what one word is decoded to, the program counter stays. -/
theorem DecodedOk.advance_take {r : XrDecoded} {pre : List XrCachedInst} {main : XrCachedInst}
    (h : DecodedOk r pre main) {k : Nat} (hk : k < r.insts.length) (pc : Word) :
    Xremu.advance (r.insts.take k) pc = pc := by
  have hlength : k ≤ pre.length := by
    rw [h.insts, List.length_append, List.length_singleton] at hk
    exact Nat.le_of_lt_succ hk
  rw [h.insts, List.take_append_of_le_length hlength]
  exact advance_shifts (fun i hi => h.shifts i (List.mem_of_mem_take hi)) pc

/-- Every instruction of a block but its linkage is made of one of the words. -/
theorem wordOf_decodeLoop (tbmiss : Bool) (words : List Word) (pc : Word) (room : Nat) {k : Nat}
    {inst : XrCachedInst} (hk : (xrDecodeLoop tbmiss words pc room).1[k]? = some inst)
    (hlink : inst ≠ linkageInst) :
    WordOf tbmiss words pc (advance ((xrDecodeLoop tbmiss words pc room).1.take k) pc) inst := by
  have hlinkage : ∀ j : Nat, [linkageInst][j]? ≠ some inst := fun j hj =>
    hlink (List.mem_singleton.mp (List.mem_of_getElem? hj))
  induction words generalizing pc room k with
  | nil => exact absurd hk (hlinkage k)
  | cons ir irs ih =>
      obtain ⟨pre, main, hok⟩ := xrDecode_ok tbmiss ir pc
      -- Either the first word makes this instruction, or the rest of the loop does.
      have hcases : ∀ rest, (xrDecodeLoop tbmiss (ir :: irs) pc room).1 =
            (xrDecode tbmiss ir pc).insts ++ rest →
          (∀ j, rest[j]? = some inst →
            WordOf tbmiss irs (pc + 4) (advance (rest.take j) (pc + 4)) inst) →
          WordOf tbmiss (ir :: irs) pc
            (advance ((xrDecodeLoop tbmiss (ir :: irs) pc room).1.take k) pc) inst := by
        intro rest hloop hrest
        rw [hloop] at hk ⊢
        rcases Nat.lt_or_ge k (xrDecode tbmiss ir pc).insts.length with hlt | hge
        · rw [List.getElem?_append_left hlt] at hk
          rw [List.take_append_of_le_length (Nat.le_of_lt hlt), hok.advance_take hlt]
          refine ⟨0, ir, rfl, ?_, List.mem_of_getElem? hk⟩
          exact (BitVec.add_zero pc).symm
        · obtain ⟨j, rfl⟩ := Nat.exists_eq_add_of_le hge
          rw [List.getElem?_append_right hge, Nat.add_sub_cancel_left] at hk
          rw [List.take_length_add_append, advance_append, hok.advance]
          exact (hrest j hk).cons
      rcases loopCases tbmiss ir irs pc room with ⟨_, hl⟩ | ⟨_, _, hl⟩ | ⟨_, _, hl⟩
      · refine hcases [] ?_ ?_
        · rw [hl, List.append_nil]
        · rintro j ⟨⟩
      · refine hcases [linkageInst] ?_ ?_
        · rw [hl]
        · exact fun j hj => absurd hj (hlinkage j)
      · exact hcases _ (congrArg Prod.fst hl) fun j hj => ih (pc + 4) _ hj

/-! ## What is executed -/

/-- An instruction about to be executed at `pc` is one that was fetched: there is a fetch in
the trace, after which the page of its first word was not dropped, and the instruction
belongs to what a word of that fetch is decoded to, `pc` being the address of the word; or
it is the instruction that links a block to the next. -/
def ExecutesFetched {M : Type} [XrBuild M] (evs : List (XrCodeEvent M)) (pc : Word)
    (inst : XrCachedInst) : Prop :=
  ∃ before after m m' f, evs = before ++ .fetched m m' f :: after ∧
    XrBuild.fetch m = some (some f, m') ∧ (∀ e ∈ after, ¬e.Drops (pageOf m.proc.pc)) ∧
    (inst = linkageInst ∨ WordOf m'.tbmiss f.words m.proc.pc pc inst)

/-- In every run of either build, whatever other threads and devices do: every instruction
that the simulator executes was fetched in the run, and its page was not dropped since. -/
theorem executes_fetched {M : Type} [XrBuild M] {evs : List (XrCodeEvent M)} {s : XrInterp M}
    {i k : Nat} {inst : XrCachedInst} (h : XrInterp.Traced evs s) (hpoint : s.point = .inst i k)
    (hinst : (s.cache.iblocks i).code.insts[k]? = some inst) :
    ExecutesFetched evs s.machine.proc.pc inst := by
  have hstands := h.reach.placed.stands i k hpoint
  obtain ⟨before, after, m, m', f, v, hevs, hfetch, hmade, hafter⟩ := h.fetched i hstands.active
  refine ⟨before, after, m, m', f, hevs, hfetch, ?_, ?_⟩
  · rw [hmade.pc] at hafter
    exact hafter
  · by_cases hlink : inst = linkageInst
    · exact .inl hlink
    · right
      have hcode : (s.cache.iblocks i).code = xrDecodeBlock m'.tbmiss f.words m.proc.pc := by
        rw [hmade]
        rfl
      have hpc := hstands.pc
      rw [hcode, hmade.pc] at hpc
      rw [hcode] at hinst
      rw [hpc]
      exact wordOf_decodeLoop m'.tbmiss f.words m.proc.pc xrIblockInsts hinst hlink

set_option maxRecDepth 20000 in
theorem executes_fetched_sys :
    ∃ evs inst, XrInterp.Traced evs (firstCall sysFromUser 2) ∧
      ((firstCall sysFromUser 2).cache.iblocks 2047).code.insts[0]? = some inst ∧
      ExecutesFetched evs (firstCall sysFromUser 2).machine.proc.pc inst := by
  obtain ⟨evs, htraced⟩ := (firstCall_reach sysFromUser 2).traced
  have hpoint : (firstCall sysFromUser 2).point = .inst 2047 0 := rfl
  have hroom := (htraced.reach.placed.stands 2047 0 hpoint).room
  exact ⟨evs, _, htraced, List.getElem?_eq_getElem hroom,
    executes_fetched htraced hpoint (List.getElem?_eq_getElem hroom)⟩

end Xremu
