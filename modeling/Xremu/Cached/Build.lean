import Xremu.Cached.Access
import Xremu.Interp.Build

/-!
# The cached build under the interpreter

The Icache, instruction fetch line by line, and the instance of `XrBuild`: one
processor's accesses as single steps, the other processors standing still meanwhile.
Of an access the interpreter only relies on how far it reaches into its own processor
record, and that is a property of every stretch of its code (`Prog.Keeps`).
-/

namespace Xremu

open Concurrency XrCachedSys

section

variable {β : Type}

/-! ## The Icache -/

/-- The Icache indices of both ways of the set of this address. -/
def xrIcWays (address : Nat) : List Nat := [2 * (address / 16 % 1024), 2 * (address / 16 % 1024) + 1]

/-- The way of its set that holds the line, in search order. -/
def XrCache.findIcLine (c : XrCache) (tag : Nat) : Option Nat :=
  (xrIcWays tag).find? fun index => c.icFlags index != .invalid && c.icTags index == tag

variable [EBus β]

/-- The Icache line a miss replaces. -/
def icReplaced (c : XrCache) (tag : Nat) : Nat :=
  2 * (tag / 16 % 1024) + c.icReplacementIndex % 2

/-- Change the Icache of the running processor. -/
def onIcache (f : XrCache → XrCache) (m : Machine (XrCachedMem β)) : Machine (XrCachedMem β) :=
  { m with mem := m.mem.setCache m.proc.id (f (m.mem.caches m.proc.id)) }

/-- The chosen line after the bus has answered, or not. -/
def icFill (index tag : Nat) (reply : Option (Nat → Byte)) (c : XrCache) : XrCache :=
  match reply with
  | none => { c with icFlags := Function.update c.icFlags index .invalid }
  | some bytes =>
      { c with
        icFlags := Function.update c.icFlags index .shared
        icTags := Function.update c.icTags index tag
        ic := Function.update c.ic index bytes }

/-- What a bus access of the running processor leaves behind. -/
def icBusDone {α : Type} (reply : EBusReply β α) (m : Machine (XrCachedMem β)) :
    Machine (XrCachedMem β) :=
  ⟨{ m.proc with progress := reply.progress }, { m.mem with bus := reply.bus }⟩

/-- `XrIcacheAccess` on a miss. -/
def icacheMiss (address : Word) (m : Machine (XrCachedMem β)) :
    Option (Nat → Byte) × Machine (XrCachedMem β) :=
  let tag := xrLineTag address.toNat
  let index := icReplaced (m.mem.caches m.proc.id) tag
  let m := onIcache (fun c => { c with icReplacementIndex := c.icReplacementIndex + 1 }) m
  let reply := EBus.read m.mem.bus m.proc tag 16
  let m := onIcache (icFill index tag reply.reply) (icBusDone reply m)
  match reply.reply with
  | none =>
      let m := m.setCr crEbadaddr address
      (none, xrBasicException m excBus m.proc.pc)
  | some bytes => (some bytes, m)

/-- `XrIcacheAccess`. The result is the line. -/
def xrIcacheAccess (address : Word) (m : Machine (XrCachedMem β)) :
    Option (Nat → Byte) × Machine (XrCachedMem β) :=
  let c := m.mem.caches m.proc.id
  match c.findIcLine (xrLineTag address.toNat) with
  | some index => (some (c.ic index), m)
  | none => icacheMiss address m

/-- The four instruction words of a line. -/
def lineWords (line : Nat → Byte) : List Word :=
  (List.range 4).map fun k => zext (fun i => line (4 * k + i)) 4

/-- Fetch this many lines. -/
def fetchLines : (count : Nat) → (fetchpc : Word) → Machine (XrCachedMem β) →
    Option (List Word) × Machine (XrCachedMem β)
  | 0, _, m => (some [], m)
  | count + 1, fetchpc, m =>
      match xrIcacheAccess fetchpc m with
      | (none, m) => (none, m)
      | (some line, m) =>
          match fetchLines count (fetchpc + 16) m with
          | (none, m) => (none, m)
          | (some words, m) => (some (lineWords line ++ words), m)

/-- The fetch after the translation: whole lines, of which the words from the program
counter up to `instcount` are decoded. -/
def fetchIcache (m : Machine (XrCachedMem β)) (pc fetchpc : Word) (flags : BitVec 64) :
    Option XrFetched × Machine (XrCachedMem β) :=
  let line := pc &&& 0xFFFFFFF0
  let instcount := xrInstCount pc line
  match fetchLines ((instcount + 3) / 4) fetchpc m with
  | (none, m) => (none, m)
  | (some ir, m) => (some ⟨(ir.take instcount).drop ((pc - line) >>> 2).toNat, flags⟩, m)

/-- The fetch of `XrDecodeInstructions`. -/
def cachedFetch (m : Machine (XrCachedMem β)) : Option XrFetched × Machine (XrCachedMem β) :=
  let line := m.proc.pc &&& 0xFFFFFFF0
  if m.proc.rs &&& rsMmu ≠ 0 then
    match xrTranslate m line false true with
    | (none, m) => (none, m)
    | (some (fetchpc, flags), m) => fetchIcache m m.proc.pc fetchpc flags
  else fetchIcache m m.proc.pc line 0

/-- The Icache lines that a write of `value` to ICACHECTRL invalidates. -/
def icachectrlLines (value : Word) (c : XrCache) (i : Nat) : Bool :=
  if value &&& 3 = 3 then i < 2048
  else if value &&& 3 = 2 then
    let phys := value &&& 0xFFFFF000
    let lowindex := 2 * (phys.toNat / 16 % 1024)
    let highindex := 2 * ((phys + 4096).toNat / 16 % 1024)
    lowindex ≤ i && i < highindex && c.icTags i / 4096 * 4096 == phys.toNat
  else false

def mtcrIcachectrl (value : Word) (m : Machine (XrCachedMem β)) : Machine (XrCachedMem β) :=
  onIcache (fun c =>
    { c with icFlags := fun i => if icachectrlLines value c i then .invalid else c.icFlags i }) m

end

/-! ## How far an access reaches -/

/-- Of the record of processor `p` only lookup hints and `Progress` have changed. -/
def QuietFor {β : Type} (p : Nat) (s s' : XrCachedSys β) : Prop := Touched (s.procs p) (s'.procs p)

section

variable {β : Type} {p : Nat}

theorem QuietFor.refl (s : XrCachedSys β) : QuietFor p s s := Touched.refl _

theorem QuietFor.trans {s s' s'' : XrCachedSys β} (h : QuietFor p s s') (h' : QuietFor p s' s'') :
    QuietFor p s s'' := Touched.trans h h'

theorem quiet_busDone {α : Type} (q : Nat) (r : EBusReply β α) (s : XrCachedSys β) :
    QuietFor p s (busDone q r s) := by
  show Touched (s.procs p) (Function.update s.procs q { s.procs q with progress := r.progress } p)
  by_cases hq : p = q
  · subst hq
    rw [Function.update_self]
    rfl
  · rw [Function.update_of_ne hq]
    exact .refl _

theorem quiet_run {α : Type} {x : XrCode β α} (h : x.Keeps (QuietFor p)) (s : XrCachedSys β) :
    QuietFor p s (x.run s).2 :=
  h.run .refl (fun _ _ _ => .trans) s

/-- How `XrDcacheAccess` ends for processor `p`: it jumps back or is done, with nothing
of the record changed; or it fails with an exception, or with `abort()`. -/
def DcacheEnds (p : Nat) (s : XrCachedSys β) (out : (Option Nat ⊕ XrResult) × XrCachedSys β) :
    Prop :=
  match out.1 with
  | .inl _ => QuietFor p s out.2
  | .inr r =>
      (r.1 ≠ .fault → QuietFor p s out.2) ∧
        (r.1 = .fault → out.2.mem.aborted = true ∨ AccessFaulted (s.machine p) (out.2.machine p))

theorem DcacheEnds.of_quiet {s t : XrCachedSys β} {out : (Option Nat ⊕ XrResult) × XrCachedSys β}
    (h : DcacheEnds p t out) (hq : QuietFor p s t) : DcacheEnds p s out := by
  unfold DcacheEnds at *
  split
  · next heq =>
      rw [heq] at h
      exact hq.trans h
  · next heq =>
      rw [heq] at h
      refine ⟨fun hne => hq.trans (h.1 hne), fun he => ?_⟩
      rcases h.2 he with habort | hfault
      · exact .inl habort
      · exact .inr (hfault.of_touched hq)

theorem dcacheEnds_done {s s' : XrCachedSys β} {r : XrResult} (hr : r.1 ≠ .fault)
    (h : QuietFor p s s') : DcacheEnds p s (.inr r, s') :=
  ⟨fun _ => h, fun he => absurd he hr⟩

theorem faulted_busError (p address : Nat) (s : XrCachedSys β) :
    AccessFaulted (s.machine p) ((busError p address s).machine p) := by
  have hm : (busError p address s).machine p =
      xrBasicException ((s.machine p).setCr crEbadaddr (BitVec.ofNat 32 address)) excBus
        (s.machine p).proc.pc := by
    simp [busError, machine, setMachine]
  rw [hm]
  exact (AccessRaises.address _ excBus (by decide)).faulted

variable [EBus β]

theorem quiet_writeLine (q tag index : Nat) (s : XrCachedSys β) :
    QuietFor p s (writeLine q tag index s) := quiet_busDone q _ s

theorem quiet_forceWriteOut (q tag index : Nat) (s : XrCachedSys β) :
    QuietFor p s (forceWriteOut q tag index s) := by
  unfold forceWriteOut
  split
  · exact .refl s
  · exact quiet_writeLine q tag index s

theorem quiet_downgrade (q tag : Nat) (newstate : XrLine) (s : XrCachedSys β) :
    QuietFor p s (downgrade q tag newstate s) := by
  unfold downgrade
  split
  · exact .refl s
  · exact quiet_forceWriteOut q tag _ s

theorem quiet_evictLine (q index : Nat) (s : XrCachedSys β) :
    QuietFor p s (evictLine q index s) := by
  unfold evictLine
  split
  · exact .refl s
  · exact quiet_forceWriteOut q _ index s

theorem quiet_replaceLine (q : Nat) (a : XrAccessReq) (s : XrCachedSys β) :
    QuietFor p s (replaceLine q a s).2 := by
  have hroom : QuietFor p s (makeRoom q a s) :=
    quiet_evictLine q _ (nextReplacement q s)
  have hfill : ∀ (s' : XrCachedSys β) (tag index : Nat),
      QuietFor p s' (readLine q tag index s').2 := by
    intro s' tag index
    unfold readLine
    extract_lets r
    split
    · exact quiet_busDone q r s'
    · exact quiet_busDone q r s'
  exact hroom.trans (hfill _ a.tag _)

/-! ### The programs -/

theorem keeps_flushEntries (q : Nat) (entries : List Nat) :
    (flushEntries q entries : XrCode β Unit).Keeps (QuietFor p) := by
  induction entries with
  | nil => exact Prog.keeps_pure ()
  | cons i is ih =>
      refine Prog.keeps_bind (Prog.keeps_get .refl) fun s => ?_
      split
      · exact ih
      · refine Prog.keeps_bind (Prog.keeps_acquire _) fun _ => ?_
        refine Prog.keeps_bind (Prog.keeps_get .refl) fun s => ?_
        split
        · exact Prog.keeps_bind (Prog.keeps_release _) fun _ => ih
        · refine Prog.keeps_bind (Prog.keeps_modify fun s => ?_) fun _ => ?_
          · exact quiet_writeLine q _ _ s
          · exact Prog.keeps_bind (Prog.keeps_release _) fun _ => ih

theorem keeps_downgradeLine (q tag : Nat) (newstate : XrLine) :
    (xrDowngradeLine q tag newstate : XrCode β Unit).Keeps (QuietFor p) := by
  refine Prog.keeps_bind (Prog.keeps_acquire _) fun _ => ?_
  refine Prog.keeps_bind (Prog.keeps_modify (quiet_downgrade q tag newstate)) fun _ => ?_
  exact Prog.keeps_release _

theorem keeps_downgradeProcs (thisproc : Option Nat) (tag : Nat) (newstate : XrLine)
    (procs : List Nat) :
    (downgradeProcs thisproc tag newstate procs : XrCode β Unit).Keeps (QuietFor p) := by
  induction procs with
  | nil => exact Prog.keeps_pure ()
  | cons i is ih =>
      refine Prog.keeps_bind (Prog.keeps_get .refl) fun s => ?_
      split
      · exact ih
      · exact Prog.keeps_bind (keeps_downgradeLine i tag newstate) fun _ => ih

theorem keeps_downgradeAll (thisproc : Option Nat) (tag : Nat) (newstate : XrLine) :
    (xrDowngradeAll thisproc tag newstate : XrCode β Unit).Keeps (QuietFor p) :=
  keeps_downgradeProcs thisproc tag newstate _

theorem keeps_findOrReplace (q tag : Nat) (newstate : XrLine) :
    (xrFindOrReplaceInScache q tag newstate : XrCode β (Nat × Bool)).Keeps (QuietFor p) := by
  refine Prog.keeps_bind (Prog.keeps_get .refl) fun s => ?_
  split
  · exact Prog.keeps_pure _
  · refine Prog.keeps_bind (Prog.keeps_modify fun s => .refl _) fun _ => ?_
    refine Prog.keeps_bind ?_ fun _ => ?_
    · refine Prog.keeps_bind (Prog.keeps_get .refl) fun s => ?_
      split
      · exact Prog.keeps_pure ()
      · exact keeps_downgradeAll none _ .invalid
      · exact keeps_downgradeLine _ _ .invalid
    · exact Prog.keeps_bind (Prog.keeps_modify fun s => .refl _) fun _ => Prog.keeps_pure _

theorem keeps_claimScacheEntry (q : Nat) (a : XrAccessReq) :
    (claimScacheEntry q a : XrCode β Nat).Keeps (QuietFor p) := by
  refine Prog.keeps_bind (keeps_findOrReplace q a.tag a.newstate) fun found => ?_
  split
  · exact Prog.keeps_pure _
  · refine Prog.keeps_bind ?_ fun _ => ?_
    · refine Prog.keeps_bind (Prog.keeps_get .refl) fun s => ?_
      split
      · exact keeps_downgradeLine _ a.tag _
      · split
        · exact Prog.keeps_pure ()
        · exact keeps_downgradeAll none a.tag .invalid
      · exact Prog.keeps_pure ()
    · exact Prog.keeps_bind (Prog.keeps_modify fun s => .refl _) fun _ => Prog.keeps_pure _

theorem keeps_downgradeOthers (q scacheindex : Nat) (a : XrAccessReq) :
    (downgradeOthers q scacheindex a : XrCode β Unit).Keeps (QuietFor p) := by
  refine Prog.keeps_bind (Prog.keeps_get .refl) fun s => ?_
  split
  · exact keeps_downgradeAll _ a.tag .invalid
  · exact keeps_downgradeLine _ a.tag .invalid
  · exact Prog.keeps_pure ()

/-! ### The access -/

theorem dcacheEnds_fill (freewbindex scacheindex : Nat) (a : XrAccessReq) (s : XrCachedSys β) :
    DcacheEnds p s ((dcacheFill p freewbindex scacheindex a).run s) := by
  have hreplace := @quiet_replaceLine β p _ p a s
  cases hbus : (replaceLine p a s).1.2 with
  | false =>
      simp only [dcacheFill, xrLockCache, xrUnlockCache, xrUnlockScache, Prog.run_bind,
        Prog.run_acquire, Prog.run_modifyGet, hbus, if_true, Prog.run_modify, Prog.run_release,
        Prog.run_pure]
      refine ⟨fun hne => absurd rfl hne, fun _ => .inr ?_⟩
      refine AccessFaulted.of_touched (faulted_busError p a.address _) ?_
      exact hreplace
  | true =>
      simp only [dcacheFill, xrLockCache, xrUnlockCache, xrUnlockScache, Prog.run_bind,
        Prog.run_acquire, Prog.run_modifyGet, hbus, Bool.true_eq_false, if_false, Prog.run_release]
      cases a.read with
      | true => exact dcacheEnds_done (fun h => by cases h) hreplace
      | false => exact dcacheEnds_done (fun h => by cases h) hreplace

theorem dcacheEnds_missed (freewbindex : Nat) (a : XrAccessReq) (s : XrCachedSys β) :
    DcacheEnds p s ((dcacheMissed p freewbindex a).run s) := by
  unfold dcacheMissed
  split
  · exact dcacheEnds_done (fun h => by cases h) (.refl s)
  · simp only [dcacheMiss, Prog.run_bind, xrLockScache, Prog.run_acquire]
    have hclaim := @quiet_run β p _ _ (keeps_claimScacheEntry p a) s
    exact (dcacheEnds_fill freewbindex _ a _).of_quiet hclaim

theorem dcacheEnds_upgrade (freewbindex index : Nat) (a : XrAccessReq) (s : XrCachedSys β) :
    DcacheEnds p s ((dcacheUpgrade p freewbindex index a).run s) := by
  by_cases hinvalid : (s.cache p).dcFlags index = .invalid
  · simp only [dcacheUpgrade, Prog.run_bind, xrLockScache, Prog.run_acquire, Prog.run_get, hinvalid,
      if_true]
    exact QuietFor.refl s
  · simp only [dcacheUpgrade, Prog.run_bind, xrLockScache, Prog.run_acquire, Prog.run_get, hinvalid,
      if_false]
    cases xrFindInScache s.mem.scache a.tag with
    | none => exact ⟨fun hne => absurd rfl hne, fun _ => .inl rfl⟩
    | some scacheindex =>
        simp only [Prog.run_bind]
        have hothers := @quiet_run β p _ _ (keeps_downgradeOthers p scacheindex a) s
        exact dcacheEnds_done (fun h => by cases h) hothers

theorem dcacheEnds_lookup (freewbindex : Nat) (a : XrAccessReq) (s : XrCachedSys β) :
    DcacheEnds p s ((dcacheLookup p freewbindex a).run s) := by
  simp only [dcacheLookup, Prog.run_bind, Prog.run_get]
  cases (s.cache p).findLine a.tag with
  | some index =>
      by_cases hread : a.read = true
      · simp only [hread, if_true]
        exact dcacheEnds_done (fun h => by cases h) (.refl s)
      · by_cases hexcl : (s.cache p).dcFlags index = .exclusive
        · simp only [hread, hexcl, if_true]
          exact dcacheEnds_done (fun h => by cases h) (.refl s)
        · simp only [hread, hexcl, if_false, xrUnlockCache]
          exact dcacheEnds_upgrade freewbindex _ a s
  | none =>
      by_cases hread : a.read = true
      · simp only [hread, if_true]
        exact dcacheEnds_missed freewbindex a s
      · simp only [hread, xrUnlockCache]
        exact dcacheEnds_missed freewbindex a s

theorem dcacheEnds_access (a : XrAccessReq) (freewbindex : Option Nat) (s : XrCachedSys β) :
    DcacheEnds p s ((xrDcacheAccess p a freewbindex).run s) := by
  unfold xrDcacheAccess
  split
  · exact dcacheEnds_lookup 0 a s
  · simp only [Prog.run_bind, xrLockCache, Prog.run_acquire, Prog.run_get]
    cases searchWb (s.cache p) a.tag xrWbEntries freewbindex with
    | hit index => exact dcacheEnds_done (fun h => by cases h) (.refl s)
    | miss freewbindex =>
        cases freewbindex with
        | none =>
            simp only [Prog.run_bind, xrUnlockCache, Prog.run_release]
            exact @quiet_run β p _ _ (keeps_flushEntries p xrWbEntries) s
        | some freewbindex =>
            simp only [Prog.run_bind, Prog.run_modify]
            exact (dcacheEnds_lookup freewbindex a _).of_quiet (.refl s)

end

/-! ## The instance -/

section

variable {β : Type} {p : Nat}

/-- The result of an access, and whether the interpreter may rely on it. -/
def CachedEnds (m : Machine (XrCachedMem β)) (out : XrResult × Machine (XrCachedMem β)) : Prop :=
  (out.1.1 ≠ .fault → Touched m.proc out.2.proc) ∧
    (out.1.1 = .fault → out.2.mem.aborted = true ∨ AccessFaulted m out.2)

theorem CachedEnds.of_touched {m m₁ : Machine (XrCachedMem β)}
    {out : XrResult × Machine (XrCachedMem β)} (h : CachedEnds m₁ out)
    (ht : Touched m.proc m₁.proc) : CachedEnds m out := by
  refine ⟨fun hne => ht.trans (h.1 hne), fun he => ?_⟩
  rcases h.2 he with habort | hfault
  · exact .inl habort
  · exact .inr (hfault.of_touched ht)

theorem translateLookup_ends {m m' : Machine (XrCachedMem β)} {virtual : Word}
    {writing ifetch : Bool} {out : Option (BitVec 64)}
    (h : translateLookup m virtual writing ifetch = (out, m')) :
    (out = none ∧ Faulted m m' ∧ (ifetch = false → AccessRaises m m')) ∨
      (∃ tbe, out = some tbe ∧ m' = m) := by
  cases looksUp h with
  | itbHint hint => exact .inr ⟨_, rfl, rfl⟩
  | itbFound scan => exact .inr ⟨_, rfl, rfl⟩
  | itbMiss scan =>
      refine .inl ⟨rfl, (Raises.itbMiss virtual false).faulted, ?_⟩
      intro hdata
      cases hdata
  | dtbHint hint => exact .inr ⟨_, rfl, rfl⟩
  | dtbFound scan => exact .inr ⟨_, rfl, rfl⟩
  | dtbMiss scan =>
      have hmiss := AccessRaises.miss (m := m) virtual writing
      exact .inl ⟨rfl, hmiss.raises.faulted, fun _ => hmiss⟩

/-- A translation that succeeds shows a kernel page to the kernel only. -/
theorem xrTranslate_ends {m m' : Machine (XrCachedMem β)} {virtual : Word}
    {writing ifetch : Bool} {out : Option (Word × BitVec 64)}
    (h : xrTranslate m virtual writing ifetch = (out, m')) :
    (out = none ∧ Faulted m m' ∧ (ifetch = false → AccessRaises m m')) ∨
      (∃ phys flags, out = some (phys, flags) ∧ Touched m.proc m'.proc ∧
        (flags &&& pteKernel ≠ 0 → m.proc.rs &&& rsUser = 0)) := by
  cases translates h with
  | unmapped lookup =>
      rcases translateLookup_ends lookup with ⟨-, hfault⟩ | ⟨tbe, hnone, -⟩
      · exact .inl ⟨rfl, hfault⟩
      · cases hnone
  | @denied tbe f lookup fault =>
      have hfault := f.accessRaises m virtual writing
      exact .inl ⟨rfl, hfault.raises.faulted, fun _ => hfault⟩
  | mapped lookup ok =>
      refine .inr ⟨_, _, rfl, ?_, tbeFault_kernel ok⟩
      unfold rememberLookup
      cases ifetch with
      | true => rfl
      | false => rfl

theorem accessAddress_ends {m m' : Machine (XrCachedMem β)} {r : XrMemReq}
    {out : Option (Word × BitVec 64)} (h : accessAddress m r = (out, m')) :
    (out = none ∧ AccessRaises m m') ∨ (∃ place, out = some place ∧ Touched m.proc m'.proc) := by
  unfold accessAddress at h
  split at h
  · cases h
    exact .inl ⟨rfl, .address r.address excUna (by decide)⟩
  split at h
  · rcases xrTranslate_ends h with ⟨hnone, _, hfault⟩ | ⟨phys, flags, hout, htouched, _⟩
    · exact .inl ⟨hnone, hfault rfl⟩
    · exact .inr ⟨_, hout, htouched⟩
  · cases h
    exact .inr ⟨_, rfl, .refl _⟩

/-- Processor `m.proc` with its memory; of the others only the numbers count. -/
def Machine.alone (m : Machine (XrCachedMem β)) : XrCachedSys β :=
  ⟨Function.update XrProcessor.zeroed m.proc.id m.proc, m.mem⟩

theorem alone_machine (m : Machine (XrCachedMem β)) : m.alone.machine m.proc.id = m := by
  simp [Machine.alone, machine]

theorem machine_setMachine (s : XrCachedSys β) (p : Nat) (m : Machine (XrCachedMem β)) :
    (s.setMachine p m).machine p = m := by
  simp [setMachine, machine]

variable [EBus β]

theorem noncached_ends (r : XrAccessReq) (s : XrCachedSys β) :
    CachedEnds (s.machine p) ((xrNoncachedAccess p r s).1, (xrNoncachedAccess p r s).2.machine p) := by
  unfold xrNoncachedAccess
  split
  · extract_lets reply
    split
    · exact ⟨fun _ => quiet_busDone p reply s, fun he => by cases he⟩
    · refine ⟨fun hne => absurd rfl hne, fun _ => .inr ?_⟩
      exact (faulted_busError p r.address _).of_touched (quiet_busDone p reply s)
  · extract_lets reply
    split
    · exact ⟨fun _ => quiet_busDone p reply s, fun he => by cases he⟩
    · refine ⟨fun hne => absurd rfl hne, fun _ => .inr ?_⟩
      exact (faulted_busError p r.address _).of_touched (quiet_busDone p reply s)

theorem runLoop_ends {a : XrAccessReq} {fuel : Nat} {freewbindex : Option Nat}
    {s s' : XrCachedSys β} {r : XrResult}
    (h : runLoop (xrDcacheAccess p a) fuel freewbindex s = some (r, s')) :
    CachedEnds (s.machine p) (r, s'.machine p) := by
  induction fuel generalizing freewbindex s with
  | zero => cases h
  | succ fuel ih =>
      have hends := @dcacheEnds_access β p _ a freewbindex s
      rw [runLoop] at h
      split at h
      · next hrun =>
          rw [hrun] at hends
          exact (ih h).of_touched hends
      · next hrun =>
          rw [hrun] at hends
          cases h
          exact hends

end

section

variable {p : Nat}

theorem xrAccess_ends {r : XrMemReq} {s s' : XrCachedSys LineRam} {res : XrResult}
    (h : xrAccess p r s = some (res, s')) : CachedEnds (s.machine p) (res, s'.machine p) := by
  unfold xrAccess at h
  cases ha : accessAddress (s.machine p) r with
  | mk place m =>
      rw [ha] at h
      rcases accessAddress_ends ha with ⟨rfl, hfault⟩ | ⟨⟨address, flags⟩, rfl, htouched⟩
      · cases h
        refine ⟨fun hne => absurd rfl hne, fun _ => .inr ?_⟩
        rw [machine_setMachine]
        exact hfault.faulted
      · have hset : Touched (s.machine p).proc ((s.setMachine p m).machine p).proc := by
          rw [machine_setMachine]
          exact htouched
        simp only at h
        split at h
        · split at h
          · cases h
            refine ⟨fun hne => absurd rfl hne, fun _ => .inr ?_⟩
            exact (faulted_busError p address.toNat _).of_touched hset
          · have hends := @noncached_ends LineRam p _ (r.at address) (s.setMachine p m)
            rw [Option.some.inj h] at hends
            exact hends.of_touched hset
        · exact (runLoop_ends h).of_touched hset

/-- `XrAccess`; `abort()` does not return. -/
def cachedAccess (m : Machine (XrCachedMem LineRam)) (r : XrMemReq) :
    Option (XrResult × Machine (XrCachedMem LineRam)) :=
  -- An LL is a plain load here.
  match xrAccess m.proc.id { r with sc := r.sc && !r.read } m.alone with
  | none => none
  | some (res, s) => if s.mem.aborted then none else some (res, s.machine m.proc.id)

theorem cachedAccess_ends {m m' : Machine (XrCachedMem LineRam)} {r : XrMemReq} {res : XrResult}
    (h : cachedAccess m r = some (res, m')) :
    (res.1 ≠ .fault → Touched m.proc m'.proc) ∧ (res.1 = .fault → AccessFaulted m m') := by
  unfold cachedAccess at h
  split at h
  · cases h
  · next heq =>
      have hends := xrAccess_ends heq
      rw [alone_machine] at hends
      split at h
      · cases h
      · next habort =>
          cases h
          refine ⟨hends.1, fun he => ?_⟩
          rcases hends.2 he with h' | hfault
          · exact absurd h' habort
          · exact hfault

/-- A program of this processor, run to its end. -/
def runAlone (code : Nat → XrCode LineRam Unit) (m : Machine (XrCachedMem LineRam)) :
    Machine (XrCachedMem LineRam) :=
  ((code m.proc.id).run m.alone).2.machine m.proc.id

theorem runAlone_touched {code : Nat → XrCode LineRam Unit}
    (h : ∀ p q, (code q).Keeps (QuietFor p)) (m : Machine (XrCachedMem LineRam)) :
    Touched m.proc (runAlone code m).proc := by
  have hrun := @quiet_run LineRam m.proc.id _ _ (h m.proc.id m.proc.id) m.alone
  have hproc : m.alone.procs m.proc.id = m.proc := congrArg Machine.proc (alone_machine m)
  unfold QuietFor at hrun
  rw [hproc] at hrun
  exact hrun

/-- The write buffer empties at no charge. -/
def drainWb (m : Machine (XrCachedMem LineRam)) : Machine (XrCachedMem LineRam) :=
  let c := m.mem.caches m.proc.id
  if c.wbCycles = 0 then m
  else
    runAlone xrFlushWriteBuffer
      { m with mem := m.mem.setCache m.proc.id { c with wbCycles := 0 } }

theorem drainWb_touched (m : Machine (XrCachedMem LineRam)) : Touched m.proc (drainWb m).proc := by
  unfold drainWb
  extract_lets c
  split
  · exact .refl _
  · exact runAlone_touched (fun _ q => keeps_flushEntries q xrWbEntries) _

theorem keeps_mtcrDcachectrl (value : Word) (q : Nat) :
    (mtcrDcachectrl q value : XrCode LineRam Unit).Keeps (QuietFor p) := by
  refine Prog.keeps_bind (keeps_flushEntries q xrWbEntries) fun _ => ?_
  exact Prog.keeps_modify fun s => .refl _

/-! ### Fetch -/

theorem xrIcacheAccess_ends {m m' : Machine (XrCachedMem LineRam)} {address : Word}
    {out : Option (Nat → Byte)} (h : xrIcacheAccess address m = (out, m')) :
    (out = none ∧ Faulted m m') ∨ (∃ line, out = some line ∧ Touched m.proc m'.proc) := by
  unfold xrIcacheAccess at h
  extract_lets c at h
  split at h
  · cases h
    exact .inr ⟨_, rfl, .refl _⟩
  · unfold icacheMiss at h
    extract_lets tag index m₁ reply m₂ m₃ at h
    have htouched : Touched m.proc m₂.proc := rfl
    split at h
    · cases h
      refine .inl ⟨rfl, ?_⟩
      refine Faulted.of_touched (Raises.faulted ?_) htouched
      exact .address address excBus _ (by decide)
    · obtain ⟨hout, hm⟩ := Prod.mk.inj h
      rw [← hm]
      exact .inr ⟨_, hout.symm, htouched⟩

theorem fetchLines_ends {count : Nat} {fetchpc : Word} {m m' : Machine (XrCachedMem LineRam)}
    {out : Option (List Word)} (h : fetchLines count fetchpc m = (out, m')) :
    (out = none ∧ Faulted m m') ∨ (∃ words, out = some words ∧ Touched m.proc m'.proc) := by
  induction count generalizing fetchpc m m' out with
  | zero =>
      cases h
      exact .inr ⟨_, rfl, .refl _⟩
  | succ count ih =>
      rw [fetchLines] at h
      cases ha : xrIcacheAccess fetchpc m with
      | mk line m₁ =>
          rw [ha] at h
          rcases xrIcacheAccess_ends ha with ⟨rfl, hfault⟩ | ⟨line, rfl, htouched⟩
          · cases h
            exact .inl ⟨rfl, hfault⟩
          · cases hl : fetchLines count (fetchpc + 16) m₁ with
            | mk words m₂ =>
                simp only [hl] at h
                rcases ih hl with ⟨rfl, hfault⟩ | ⟨words, rfl, htouched'⟩
                · cases h
                  exact .inl ⟨rfl, hfault.of_touched htouched⟩
                · cases h
                  exact .inr ⟨_, rfl, htouched.trans htouched'⟩

theorem fetchIcache_ends {m m' : Machine (XrCachedMem LineRam)} {pc fetchpc : Word}
    {flags : BitVec 64} {out : Option XrFetched} (h : fetchIcache m pc fetchpc flags = (out, m')) :
    (out = none ∧ Faulted m m') ∨
      (∃ f, out = some f ∧ f.flags = flags ∧ Touched m.proc m'.proc) := by
  unfold fetchIcache at h
  extract_lets line instcount at h
  cases hl : fetchLines ((instcount + 3) / 4) fetchpc m with
  | mk words m₁ =>
      rw [hl] at h
      rcases fetchLines_ends hl with ⟨rfl, hfault⟩ | ⟨words, rfl, htouched⟩
      · cases h
        exact .inl ⟨rfl, hfault⟩
      · cases h
        exact .inr ⟨_, rfl, rfl, htouched⟩

theorem cachedFetch_ends {m m' : Machine (XrCachedMem LineRam)} {out : Option XrFetched}
    (h : cachedFetch m = (out, m')) :
    (out = none ∧ Faulted m m') ∨
      (∃ f, out = some f ∧ Touched m.proc m'.proc ∧
        (f.flags &&& pteKernel ≠ 0 → m.proc.rs &&& rsUser = 0)) := by
  unfold cachedFetch at h
  extract_lets line at h
  split at h
  · cases ht : xrTranslate m line false true with
    | mk place m₁ =>
        rw [ht] at h
        rcases xrTranslate_ends ht with ⟨rfl, hfault, _⟩ | ⟨phys, flags, rfl, htouched, hk⟩
        · cases h
          exact .inl ⟨rfl, hfault⟩
        · rcases fetchIcache_ends h with ⟨rfl, hfault⟩ | ⟨f, rfl, hflags, htouched'⟩
          · exact .inl ⟨rfl, hfault.of_touched htouched⟩
          · exact .inr ⟨f, rfl, htouched.trans htouched', hflags ▸ hk⟩
  · rcases fetchIcache_ends h with ⟨rfl, hfault⟩ | ⟨f, rfl, hflags, htouched⟩
    · exact .inl ⟨rfl, hfault⟩
    · refine .inr ⟨f, rfl, htouched, fun hk => absurd ?_ hk⟩
      rw [hflags]
      rfl

end

instance : XrBuild (XrCachedMem LineRam) where
  access m _ r := cachedAccess m r
  fetch m := some (cachedFetch m)
  flushWriteBuffer := runAlone xrFlushWriteBuffer
  icachectrl := mtcrIcachectrl
  dcachectrl value := runAlone (mtcrDcachectrl · value)
  drain := drainWb
  emptyDtbCache _ m := m
  access_done h hne := (cachedAccess_ends h).1 hne
  access_fault h := ((cachedAccess_ends h).2 rfl).faulted
  fetch_done := by
    intro m m' f h
    rcases cachedFetch_ends (Option.some.inj h) with ⟨hnone, _⟩ | ⟨_, _, htouched, _⟩
    · cases hnone
    · exact htouched
  fetch_kernel := by
    intro m m' f h
    rcases cachedFetch_ends (Option.some.inj h) with ⟨hnone, _⟩ | ⟨f', hf, _, hk⟩
    · cases hnone
    · cases hf
      exact hk
  fetch_fault := by
    intro m m' h
    rcases cachedFetch_ends (Option.some.inj h) with ⟨_, hfault⟩ | ⟨f', hf, _⟩
    · exact hfault
    · cases hf
  flushWriteBuffer_touched m := runAlone_touched (fun _ q => keeps_flushEntries q xrWbEntries) m
  icachectrl_touched _ m := .refl m.proc
  dcachectrl_touched value m := runAlone_touched (fun _ q => keeps_mtcrDcachectrl value q) m
  drain_touched := drainWb_touched
  emptyDtbCache_proc _ _ := rfl

end Xremu
