import Xremu.Interp.BlockOrigins

/-!
# When a pointer was cached

A cached pointer is followed in whatever mode and address space the processor is in, and leads
to the block that was found in the mode and the address space it was in before. `XrHistory` says
what they were: for each slot the processor that the pointer in it was made for, and for each
record of the block cache the flags of the page that the words of its block were fetched from.
So what `XrDecodeInstructions` ensures of the processor and the block it finds holds, in every
run, of the processor a pointer was made for and the block that it leads to (`HistoryFits`).
-/

namespace Xremu

open XrIblockCache

/-- A law that `XrDecodeInstructions` ensures, about control registers and the program
counter. -/
structure EntryLaw (M : Type) [XrBuild M] (Q : XrProcessor → XrIblock → Prop) : Prop where
  same : ∀ {p p' b b'}, SameCode b b' → p'.cr = p.cr → p'.pc = p.pc → Q p b → Q p' b'
  found : ∀ {m m' : Machine M} {c c' hazard j}, Found m c hazard j m' c' →
    Q m.proc (c'.iblocks j)

/-! ## Histories -/

structure XrHistory where
  /-- The processor that the pointer in a slot was made for. -/
  madeFor : XrSlot → XrProcessor
  /-- The flags that the words of a block were fetched with. -/
  pageFlags : Nat → BitVec 64

section

variable {M : Type} [XrBuild M]

/-- After `XrDecodeInstructions`. -/
def decodeHistory (m : Machine M) (c : XrIblockCache) (hazard : Option Nat) (h : XrHistory) :
    XrHistory :=
  match c.xrLookupIblock m.proc.pc m.proc.xrCurrentAsid with
  | some _ => h
  | none =>
      match XrBuild.fetch m with
      | some (some f, m') =>
          match c.decodeFetched hazard m.proc.pc m.proc.xrCurrentAsid f m'.tbmiss with
          | some (j, _) => { h with pageFlags := Function.update h.pageFlags j f.flags }
          | none => h
      | _ => h

/-- After a pointer to the block at the program counter was made in `slot`, if there is one. -/
def linkHistory (m : Machine M) (c : XrIblockCache) (i : Nat) (slot : XrSlot) (h : XrHistory) :
    XrHistory :=
  match xrDecodeInstructions m c (some i) with
  | some (some _, _) =>
      let h := decodeHistory m c (some i) h
      { h with madeFor := Function.update h.madeFor slot m.proc }
  | _ => h

/-- After `xrPredictBy`. -/
def predictHistory (m : Machine M) (c : XrIblockCache) (i : Nat) (h : XrHistory) : XrHistory :=
  match (c.iblocks i).cachedPaths .true with
  | .ptable t =>
      if c.predicted t m.proc.pc = .null then linkHistory m c i (.table t (jalrIndex m.proc.pc)) h
      else h
  | _ => h

/-- After `xrLeave`. -/
def leaveHistory (m : Machine M) (c : XrIblockCache) (i : Nat) (h : XrHistory) :
    XrExit → XrHistory
  | .follow path =>
      if (c.iblocks i).cachedPaths path = .null then linkHistory m c i (.path i path) h else h
  | .predict =>
      match if (c.iblocks i).cachedPaths .true = .null then c.givePtable i else some c with
      | none => h
      | some c => predictHistory m c i h
  | _ => h

/-- After `xrInst`. -/
def instHistory (m : Machine M) (c : XrIblockCache) (i k : Nat) (h : XrHistory) : XrHistory :=
  match (c.iblocks i).code.insts[k]? with
  | none => h
  | some inst =>
      match inst.exec m i with
      | none => h
      | some (m, exit) => leaveHistory m c i h exit

/-- After `XrInterp.step`. -/
def XrInterp.history (pending : Bool) (s : XrInterp M) (h : XrHistory) : XrHistory :=
  match s.point with
  | .retry =>
      if s.machine.proc.Stops then h
      else decodeHistory (takeInterrupt pending s.machine.countNmiMask) s.cache none h
  | .inst i k => instHistory s.machine s.cache i k h
  | _ => h

/-- The runs each of whose steps is from a state with `P`, each with its history. -/
inductive XrInterp.Recorded (P : XrHistory → XrInterp M → Prop) : XrHistory → XrInterp M → Prop
  | start (h : XrHistory) (m : Machine M) {c : XrIblockCache} (initial : c.Initial) :
      Recorded P h ⟨m, c, .noMore⟩
  | timeslice {h : XrHistory} {s : XrInterp M} (run : Recorded P h s) (idle : s.point = .noMore) :
      Recorded P h s.timeslice
  | call {h : XrHistory} {s : XrInterp M} (input : XrInput M) (cycles : Word)
      (run : Recorded P h s) (idle : s.point = .noMore) : Recorded P h (s.call input cycles)
  | next {h : XrHistory} {s s' : XrInterp M} (input : XrInput M) (run : Recorded P h s)
      (ok : P h (s.meets input)) (step : s.next input = some s') :
      Recorded P ((s.meets input).history input.pending h) s'

/-- A recorded run is a run. -/
theorem XrInterp.Recorded.reach {P : XrHistory → XrInterp M → Prop} {h : XrHistory}
    {s : XrInterp M} (hrun : Recorded P h s) : Reach (fun _ => True) s := by
  induction hrun with
  | start h m initial => exact .start m initial
  | timeslice _ idle ih => exact .timeslice ih idle
  | call input cycles _ idle ih => exact .call input cycles ih idle
  | next input _ ok step ih => exact .next input ih trivial step

/-- Every run has its history. -/
theorem XrInterp.Reach.recorded {s : XrInterp M} (hrun : Reach (fun _ => True) s) :
    ∃ h, Recorded (fun _ _ => True) h s := by
  induction hrun with
  | start m initial => exact ⟨⟨fun _ => .zeroed 0, fun _ => 0⟩, .start _ m initial⟩
  | timeslice _ idle ih =>
      obtain ⟨h, hrecorded⟩ := ih
      exact ⟨h, .timeslice hrecorded idle⟩
  | call input cycles _ idle ih =>
      obtain ⟨h, hrecorded⟩ := ih
      exact ⟨h, .call input cycles hrecorded idle⟩
  | next input _ ok step ih =>
      obtain ⟨h, hrecorded⟩ := ih
      exact ⟨_, .next input hrecorded trivial step⟩

end

/-! ## What a history says of the block cache -/

/-- Pointers lead to blocks that `Q` holds of together with the processor they were made for,
and the flags of a block are those that it was fetched with. -/
structure HistoryFits (Q : XrProcessor → XrIblock → Prop) (h : XrHistory) (c : XrIblockCache) :
    Prop where
  made : ∀ s j, c.Live s → c.slot s = .iblock j → Q (h.madeFor s) (c.iblocks j)
  flags : ∀ j, c.Active j → (c.iblocks j).pteFlags = h.pageFlags j

section

variable {M : Type} [XrBuild M] {Q : XrProcessor → XrIblock → Prop} {h : XrHistory}
  {m m' : Machine M} {c c' : XrIblockCache} {hazard : Option Nat} {i j k t : Nat}

/-- With fewer blocks and pointers. -/
theorem HistoryFits.comes (law : EntryLaw M Q) (hcomes : Comes c c')
    (hpointers : PointersCome c c') (hreach : c'.Reach) (hfits : HistoryFits Q h c) :
    HistoryFits Q h c' := by
  constructor
  · intro s l hlive hs
    obtain ⟨hold, hheld⟩ := hpointers s l hlive hs
    have hactive := ((inv_reach hreach).pointers s l hlive hs).active
    exact law.same (hcomes l hactive).2 rfl rfl (hfits.made s l hold hheld)
  · intro l hl
    obtain ⟨hold, hsame⟩ := hcomes l hl
    rw [hsame]
    exact hfits.flags l hold

/-- With a new pointer. -/
theorem HistoryFits.link {slot : XrSlot} {p : XrProcessor} (law : EntryLaw M Q)
    (hcomes : Comes c c') (hpointers : PointersBesides slot j c c') (hreach : c'.Reach)
    (hq : Q p (c.iblocks j)) (hfits : HistoryFits Q h c) :
    HistoryFits Q { h with madeFor := Function.update h.madeFor slot p } c' := by
  constructor
  · intro s l hlive hs
    have hactive := ((inv_reach hreach).pointers s l hlive hs).active
    have hsame := (hcomes l hactive).2
    rcases hpointers s l hlive hs with ⟨rfl, rfl⟩ | ⟨hne, hold, hheld⟩
    · show Q (Function.update h.madeFor s p s) _
      rw [Function.update_self]
      exact law.same hsame rfl rfl hq
    · show Q (Function.update h.madeFor slot p s) _
      rw [Function.update_of_ne hne]
      exact law.same hsame rfl rfl (hfits.made s l hold hheld)
  · intro l hl
    obtain ⟨hold, hsame⟩ := hcomes l hl
    rw [hsame]
    exact hfits.flags l hold

/-- With the block at the program counter. -/
theorem HistoryFits.decode (law : EntryLaw M Q) (hreach : c.Reach)
    (hrun : xrDecodeInstructions m c hazard = some (some j, m', c')) (hfits : HistoryFits Q h c) :
    HistoryFits Q (decodeHistory m c hazard h) c' := by
  cases decodes hrun with
  | hit found allowed =>
      have hsame : decodeHistory m c hazard h = h := by simp only [decodeHistory, found]
      rw [hsame]
      exact hfits
  | @fetched f m₁ _ _ missed fetch done =>
      have hnew : decodeHistory m c hazard h =
          { h with pageFlags := Function.update h.pageFlags j f.flags } := by
        simp only [decodeHistory, missed, fetch, done]
      rw [hnew]
      obtain ⟨i, c₁, hdone, hdecoded⟩ :=
        decodeFetched_ok (inv_reach hreach) hazard f m₁.tbmiss missed
      cases hdone.symm.trans done
      obtain ⟨v, hblock⟩ := hdecoded.iblock
      have hsame : ∀ l, c'.Active l → l ≠ j → SameCode (c.iblocks l) (c'.iblocks l) := by
        intro l hl hlj
        unfold SameCode
        rw [(hdecoded.old l hl hlj).2]
      constructor
      · intro s l hlive hs
        obtain ⟨hactive, ⟨k, _, hknown⟩, _⟩ := hdecoded.inv.pointers s l hlive hs
        -- Nothing leads to the new block yet.
        have hlj : l ≠ j := by
          rintro rfl
          rw [hblock] at hknown
          cases hknown
        obtain ⟨hold, hheld⟩ := hdecoded.pointers s l hlive hs
        exact law.same (hsame l hactive hlj) rfl rfl (hfits.made s l hold hheld)
      · intro l hl
        show _ = Function.update h.pageFlags j f.flags l
        by_cases hlj : l = j
        · rw [hlj, hblock, Function.update_self]
          rfl
        · rw [Function.update_of_ne hlj, hsame l hl hlj]
          exact hfits.flags l (hdecoded.old l hl hlj).1

theorem linkHistory_decoded {slot : XrSlot}
    (hrun : xrDecodeInstructions m c (some i) = some (some j, m', c')) :
    linkHistory m c i slot h =
      { decodeHistory m c (some i) h with
        madeFor := Function.update (decodeHistory m c (some i) h).madeFor slot m.proc } := by
  simp only [linkHistory, hrun]

theorem linkHistory_faulted {slot : XrSlot}
    (hrun : xrDecodeInstructions m c (some i) = some (none, m', c')) :
    linkHistory m c i slot h = h := by
  simp only [linkHistory, hrun]

omit [XrBuild M] in
/-- The table of a block is old, or has no pointers. -/
theorem Tabled.pointers (htable : Tabled c i t c') (hreach : c'.Reach) (hj : (c.iblocks i).Jalr) :
    PointersCome c c' := by
  cases htable with
  | old table => exact .refl c
  | new null given table =>
      obtain ⟨u, hgiven⟩ := given_givePtable given
      exact hgiven.pointers (inv_reach hreach).toIblocksOk hj

/-- What JALR does to the history, once its block has a table. -/
theorem leaveHistory_predict (htable : Tabled c i t c') (miss : c'.predicted t m.proc.pc = .null) :
    leaveHistory m c i h .predict =
      linkHistory m c' i (.table t (jalrIndex m.proc.pc)) h := by
  have hpredict : (c'.iblocks i).cachedPaths .true = .ptable t →
      predictHistory m c' i h = linkHistory m c' i (.table t (jalrIndex m.proc.pc)) h := by
    intro table
    unfold predictHistory
    rw [table]
    exact if_pos miss
  unfold leaveHistory
  dsimp only
  cases htable with
  | old table =>
      rw [if_neg (by rw [table]; exact XrPointer.noConfusion)]
      exact hpredict table
  | new null given table =>
      rw [if_pos null, given]
      exact hpredict table

/-- A cached pointer leaves no trace. -/
theorem leaveHistory_cached {exit : XrExit} (hit : c.cachedNext i m.proc.pc exit = .iblock j) :
    leaveHistory m c i h exit = h := by
  cases exit with
  | follow path =>
      have hslot : (c.iblocks i).cachedPaths path = .iblock j := hit
      exact if_neg (by rw [hslot]; exact XrPointer.noConfusion)
  | predict =>
      cases hslot : (c.iblocks i).cachedPaths .true with
      | null =>
          simp only [cachedNext, hslot] at hit
          cases hit
      | iblock l =>
          simp only [cachedNext, hslot] at hit
          cases hit
      | ptable t =>
          simp only [cachedNext, hslot] at hit
          unfold leaveHistory
          dsimp only
          rw [if_neg (by rw [hslot]; exact XrPointer.noConfusion)]
          dsimp only
          unfold predictHistory
          rw [hslot]
          exact if_neg (by rw [hit]; exact XrPointer.noConfusion)
  | next => rfl
  | early => rfl
  | trivial => rfl
  | flush vpn => cases hit

theorem pointers_drop {vpn : Option Word} (hreach : c.Reach) (hdrop : c.drop vpn = some c') :
    PointersCome c c' := by
  have hinv := inv_reach hreach
  cases vpn with
  | none =>
      obtain ⟨c₁, hrun, hinv', hnone⟩ := xrInvalidateIblockCache_ok hinv
      obtain rfl := Option.some.inj (hrun.symm.trans hdrop)
      intro s l hlive hs
      exact absurd (hinv'.pointers s l hlive hs).active (hnone l)
  | some vpn =>
      obtain ⟨c₁, hrun, _, hshrunk⟩ := xrInvalidateIblockCacheByVpn_ok hinv vpn
      obtain rfl := Option.some.inj (hrun.symm.trans hdrop)
      exact hshrunk.pointers

theorem HistoryFits.leaves {inst : XrCachedInst} {exit : XrExit} {s : XrInterp M}
    (law : EntryLaw M Q) (hstands : StandsAt m c i k) (hreach : c.Reach)
    (hinst : (c.iblocks i).code.insts[k]? = some inst) (hran : Ran m inst m' exit)
    (hleaves : Leaves m' c i k exit s) (hfits : HistoryFits Q h c) :
    HistoryFits Q (leaveHistory m' c i h exit) s.cache := by
  have hplaced := placed_leaves hstands hreach hinst hran hleaves
  cases hleaves with
  | next | early | trivial => exact hfits
  | cached hit =>
      rw [leaveHistory_cached hit]
      exact hfits
  | flush drop =>
      exact hfits.comes law (comes_drop hreach drop) (pointers_drop hreach drop) hplaced.reach
  | @decoded path j m₂ c₂ null decode =>
      have hhistory : leaveHistory m' c i h (.follow path) =
        linkHistory m' c i (.path i path) h := if_pos null
      have hfound := decode_found hreach decode
      have hsurvives := hfound.hazard i rfl hstands.active
      have hother : ¬(c₂.iblocks i).Jalr := by
        rw [hsurvives.jalr]
        exact (hstands.leadsTo hinst hran).2
      have hlinked := linked_create c₂ j (.path i path)
      have hslots := hlinked.slotsOnly (inv_reach hfound.reach).tables hsurvives.active
        (by rintro _ _ ⟨⟩; exact hother)
      rw [hhistory, linkHistory_decoded decode]
      exact (hfits.decode law hreach decode).link law (comes_create c₂ j _)
        (hlinked.pointers hslots) hplaced.reach (law.found hfound)
  | @faulted path m₂ c₂ null decode =>
      have hhistory : leaveHistory m' c i h (.follow path) =
        linkHistory m' c i (.path i path) h := if_pos null
      obtain ⟨_, rfl⟩ := decode_fault decode
      rw [hhistory, linkHistory_faulted decode]
      exact hfits
  | @predicted t j c₁ m₂ c₂ table miss decode =>
      have hjalr := StandsAt.jalr hinst hran
      obtain ⟨hreach₁, hi₁, _, hslot₁⟩ := table.reach hreach hstands.active hjalr
      have hfound := decode_found hreach₁ decode
      have hsurvives := hfound.hazard i rfl hi₁
      have hslot₂ := (hsurvives.ptable .true t).mpr hslot₁
      have htables := (inv_reach hfound.reach).tables
      have howns : c₂.Owns i t := ⟨(htables.plain i .true t hsurvives.active hslot₂).2, hslot₂⟩
      have hpc : m₂.proc.pc = m'.proc.pc := hfound.touched.pc
      have hfits₁ := hfits.comes law table.comes (table.pointers hreach₁ hjalr) hreach₁
      rw [leaveHistory_predict table miss, linkHistory_decoded decode, ← hpc]
      exact (hfits₁.decode law hreach₁ decode).link law (comes_predict c₂ t j m₂.proc.pc)
        (predict_pointers htables hsurvives.active howns m₂.proc.pc) hplaced.reach
        (law.found hfound)
  | @unpredicted t c₁ m₂ c₂ table miss decode =>
      have hjalr := StandsAt.jalr hinst hran
      have hreach₁ := (table.reach hreach hstands.active hjalr).1
      obtain ⟨_, rfl⟩ := decode_fault decode
      rw [leaveHistory_predict table miss, linkHistory_faulted decode]
      exact hfits.comes law table.comes (table.pointers hreach₁ hjalr) hreach₁

theorem HistoryFits.retry {pending : Bool} {s : XrInterp M} (law : EntryLaw M Q)
    (hreach : c.Reach) (hrun : xrRetry pending m c = some s) (hfits : HistoryFits Q h c) :
    HistoryFits Q ((XrInterp.mk m c .retry).history pending h) s.cache := by
  cases retries hrun with
  | stopped stops =>
      have hhistory : (XrInterp.mk m c .retry).history pending h = h := if_pos stops
      rw [hhistory]
      exact hfits
  | faulted goes decode =>
      have hhistory : (XrInterp.mk m c .retry).history pending h =
        decodeHistory (takeInterrupt pending m.countNmiMask) c none h := if_neg goes
      have hsame : decodeHistory (takeInterrupt pending m.countNmiMask) c none h = h := by
        cases decodes decode with
        | denied found kernel user => simp only [decodeHistory, found]
        | unfetched missed fetch => simp only [decodeHistory, missed, fetch]
      obtain ⟨_, rfl⟩ := decode_fault decode
      rw [hhistory, hsame]
      exact hfits
  | enters goes decode =>
      have hhistory : (XrInterp.mk m c .retry).history pending h =
        decodeHistory (takeInterrupt pending m.countNmiMask) c none h := if_neg goes
      rw [hhistory]
      exact hfits.decode law hreach decode

theorem HistoryFits.step {s s' : XrInterp M} {pending : Bool} (law : EntryLaw M Q)
    (hplaced : s.Placed) (hstep : s.step pending = some s') (hfits : HistoryFits Q h s.cache) :
    HistoryFits Q (s.history pending h) s'.cache := by
  obtain ⟨m, c, point⟩ := s
  cases point with
  | check =>
      cases hstep
      exact hfits
  | retry => exact hfits.retry law hplaced.reach hstep
  | inst i k =>
      obtain ⟨inst, m₁, exit, hinst, hexec, hleaves⟩ := inst_step hstep
      have hhistory : (XrInterp.mk m c (.inst i k)).history pending h =
          leaveHistory m₁ c i h exit := by
        simp only [XrInterp.history, instHistory, hinst, hexec]
      rw [hhistory]
      exact hfits.leaves law (hplaced.stands i k rfl) hplaced.reach hinst (exec_ran hexec) hleaves
  | noMore => cases hstep

/-- In every run the history fits the block cache. -/
theorem XrInterp.Recorded.fits {P : XrHistory → XrInterp M → Prop} {s : XrInterp M}
    (law : EntryLaw M Q) (hrun : Recorded P h s) : HistoryFits Q h s.cache := by
  induction hrun with
  | @start h m c initial =>
      have hinv := inv_reach (.start initial)
      have hnone : ∀ i, ¬c.Active i := by
        intro i hi
        unfold Active at hi
        rw [initial.lru] at hi
        cases hi
      exact ⟨fun s j hlive hs => absurd (hinv.pointers s j hlive hs).active (hnone j),
        fun j hj => absurd hj (hnone j)⟩
  | timeslice _ idle ih => exact ih
  | call input cycles _ idle ih => exact ih
  | next input run ok step ih => exact HistoryFits.step law (run.reach.placed.meets input) step ih

end

end Xremu
