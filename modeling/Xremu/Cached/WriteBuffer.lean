import Xremu.Cached.CacheRuns
import Xremu.Cached.LookupHint
import Xremu.Interp.Alignment

/-!
# The write buffer of one processor

What a processor has stored into its Dcache and RAM has not got yet is an account
(`Owed`): byte by byte, the value that was stored last. A byte is struck off once RAM has
the value and it waits in the write buffer no more. The account is in order (`Accounted`)
if every byte on it waits in the write buffer, and the countdown runs while anything waits.

What others do to the write buffer (`Releases`) is to have its lines written out; an
exception does as much, or resets the processor (`KeepsUnlessReset`). Then the account of a
processor that executes one access after the other stays in order.
-/

namespace Xremu

open Concurrency XrCachedSys

/-! ## Accounts -/

/-- The bytes a processor has stored that RAM has not got yet. -/
abbrev Owed := Nat → Option Byte

/-- Byte `b` waits in the write buffer with value `v`. -/
def XrCache.waits (c : XrCache) (b : Nat) (v : Byte) : Bool :=
  xrWbEntries.any fun w =>
    match c.wbIndices w with
    | none => false
    | some i => c.dcTags i ≤ b && b < c.dcTags i + 16 && c.dc i (b - c.dcTags i) == v

/-- Strike off what RAM has got. -/
def settle (p : Nat) (mem : XrCachedMem LineRam) (owed : Owed) : Owed := fun b =>
  (owed b).filter fun v => mem.bus.bytes b != v || (mem.caches p).waits b v

/-- A store of these bytes is on the account. -/
def owe (address length : Nat) (src : Nat → Byte) (owed : Owed) : Owed := fun b =>
  if address ≤ b ∧ b < address + length then some (src (b - address)) else owed b

/-- The account of `p` is in order. -/
structure Accounted (present populated : Nat → Bool) (p : Nat) (owed : Owed)
    (s : XrCachedSys LineRam) : Prop where
  inv : CacheInv present populated s
  armed : ∀ w, s.lines.wb p w ≠ none → (s.cache p).wbCycles ≠ 0
  buffered : ∀ b v, owed b = some v → Buffers s p b v

section

variable {present populated : Nat → Bool} {s s₁ s' : XrCachedSys LineRam} {p q : Nat} {owed : Owed}

theorem settle_some {mem : XrCachedMem LineRam} {b : Nat} {v : Byte}
    (h : settle p mem owed b = some v) :
    owed b = some v ∧ (mem.bus.bytes b ≠ v ∨ (mem.caches p).waits b v = true) := by
  unfold settle at h
  rw [Option.filter_eq_some_iff, Bool.or_eq_true, bne_iff_ne] at h
  exact h

/-- Of a coherent write buffer the entries that are looked at are all there are. -/
theorem waits_iff (h : CacheInv present populated s) {b : Nat} {v : Byte} :
    (s.cache p).waits b v = true ↔ Buffers s p b v := by
  unfold XrCache.waits
  rw [List.any_eq_true]
  constructor
  · rintro ⟨w, -, hw⟩
    cases hi : (s.cache p).wbIndices w with
    | none =>
        rw [hi] at hw
        cases hw
    | some i =>
        simp only [hi, Bool.and_eq_true, decide_eq_true_eq, beq_iff_eq] at hw
        exact ⟨w, i, hi, hw.1.1, hw.1.2, hw.2⟩
  · rintro ⟨w, i, hi, hle, hlt, hv⟩
    have hw := h.lines.depth hi
    refine ⟨w, ?_, ?_⟩
    · simp only [xrWbEntries, List.mem_cons, List.not_mem_nil, or_false]
      omega
    · have hi' : (s.cache p).wbIndices w = some i := hi
      simp only [hi', Bool.and_eq_true, decide_eq_true_eq, beq_iff_eq]
      exact ⟨⟨hle, hlt⟩, hv⟩

theorem settle_buffered (h : CacheInv present populated s') {b : Nat} {v : Byte}
    (hwaits : owed b = some v → Buffers s' p b v ∨ s'.mem.bus.bytes b = v)
    (hs : settle p s'.mem owed b = some v) : Buffers s' p b v := by
  obtain ⟨howed, hleft⟩ := settle_some hs
  rcases hwaits howed with hbuffers | hram
  · exact hbuffers
  · rcases hleft with hne | hwait
    · exact absurd hram hne
    · exact (waits_iff h).mp hwait

theorem buffers_of_mem (hm : s'.mem = s.mem) {b : Nat} {v : Byte} :
    Buffers s' p b v ↔ Buffers s p b v := by
  simp only [Buffers, lines, cache, hm]

namespace Accounted

theorem of_mem (h : Accounted present populated p owed s) (hids : ∀ q, (s'.procs q).id = q)
    (hm : s'.mem = s.mem) : Accounted present populated p owed s' where
  inv := h.inv.of_mem hids hm
  armed w hw := by
    have hc : s'.cache p = s.cache p := congrArg (fun m : XrCachedMem LineRam => m.caches p) hm
    rw [lines_of_mem hm] at hw
    rw [hc]
    exact h.armed w hw
  buffered b v hv := (buffers_of_mem hm).mpr (h.buffered b v hv)

/-- A processor with an empty write buffer owes nothing. -/
theorem of_empty (h : CacheInv present populated s) (hnone : ∀ w, s.lines.wb p w = none) :
    Accounted present populated p (fun _ => none) s where
  inv := h
  armed w hw := absurd (hnone w) hw
  buffered b v hv := by cases hv

/-- Nothing is on the account of an empty write buffer. -/
theorem nothing_owed (h : Accounted present populated p owed s)
    (hnone : ∀ w, s.lines.wb p w = none) (b : Nat) : owed b = none := by
  cases hv : owed b with
  | none => rfl
  | some v => exact absurd (h.buffered b v hv) (not_buffers hnone)

end Accounted

/-! ## What others do to a write buffer -/

/-- The write buffer of `p` and the lines in it are the same. -/
structure SameBuffer (p : Nat) (s s' : XrCachedSys LineRam) : Prop where
  wb : s'.lines.wb p = s.lines.wb p
  tags : s'.lines.tags p = s.lines.tags p
  dc : (s'.cache p).dc = (s.cache p).dc
  cycles : (s'.cache p).wbCycles = (s.cache p).wbCycles

/-- Entries of the write buffer of `p` are left alone or written out. -/
structure Releases (p : Nat) (s s' : XrCachedSys LineRam) : Prop where
  buffers : ∀ {b v}, Buffers s p b v → Buffers s' p b v ∨ s'.mem.bus.bytes b = v
  wb : ∀ w, s'.lines.wb p w ≠ none → s.lines.wb p w ≠ none
  cycles : (s.cache p).wbCycles ≠ 0 → (s'.cache p).wbCycles ≠ 0

namespace SameBuffer

theorem refl (p : Nat) (s : XrCachedSys LineRam) : SameBuffer p s s := ⟨rfl, rfl, rfl, rfl⟩

theorem trans {s'' : XrCachedSys LineRam} (h : SameBuffer p s s') (h' : SameBuffer p s' s'') :
    SameBuffer p s s'' :=
  ⟨h'.wb.trans h.wb, h'.tags.trans h.tags, h'.dc.trans h.dc, h'.cycles.trans h.cycles⟩

theorem of_cache (h : s'.cache p = s.cache p) : SameBuffer p s s' := by
  refine ⟨?_, ?_, ?_, ?_⟩
  · rw [lines_wb, h, lines_wb]
  · rw [lines_tags, h, lines_tags]
  · rw [h]
  · rw [h]

/-- Local code of `p` that reaches neither the write buffer nor the lines. -/
theorem onCache {f : XrCache → XrCache}
    (h : (f (s.cache p)).wbIndices = (s.cache p).wbIndices ∧
      (f (s.cache p)).dcTags = (s.cache p).dcTags ∧ (f (s.cache p)).dc = (s.cache p).dc ∧
      (f (s.cache p)).wbCycles = (s.cache p).wbCycles) : SameBuffer p s (onCache p f s) := by
  obtain ⟨hwb, htags, hdc, hcycles⟩ := h
  refine ⟨?_, ?_, ?_, ?_⟩
  · rw [lines_wb, cache_onCache, if_pos rfl]
    exact hwb
  · rw [lines_tags, cache_onCache, if_pos rfl]
    exact htags
  · rw [cache_onCache, if_pos rfl]
    exact hdc
  · rw [cache_onCache, if_pos rfl]
    exact hcycles

theorem buffers (h : SameBuffer p s s') {b : Nat} {v : Byte} :
    Buffers s' p b v ↔ Buffers s p b v := by
  unfold Buffers
  rw [h.wb, h.tags, h.dc]

theorem releases (h : SameBuffer p s s') : Releases p s s' where
  buffers hb := .inl (h.buffers.mpr hb)
  wb w hw := by rwa [h.wb] at hw
  cycles hc := by rwa [h.cycles]

end SameBuffer

namespace Releases

theorem after_same (hs : SameBuffer p s s₁) (h : Releases p s₁ s') : Releases p s s' where
  buffers hb := h.buffers (hs.buffers.mpr hb)
  wb w hw := by
    rw [← hs.wb]
    exact h.wb w hw
  cycles hc := h.cycles (by rwa [hs.cycles])

theorem then_same (h : Releases p s s₁) (hs : SameBuffer p s₁ s')
    (hram : s'.mem.bus.bytes = s₁.mem.bus.bytes) : Releases p s s' where
  buffers hb := by
    rw [hs.buffers, hram]
    exact h.buffers hb
  wb w hw := h.wb w (by rwa [hs.wb] at hw)
  cycles hc := by
    rw [hs.cycles]
    exact h.cycles hc

theorem of_drains (h : Drains s s') : Releases p s s' where
  buffers hb := h.buffers hb
  wb w hw := by
    cases hi : s'.lines.wb p w with
    | none => exact absurd hi hw
    | some i =>
        rw [(h.stay hi).1]
        exact Option.some_ne_none i
  cycles hc := h.cycles p hc

/-- A store of another processor. -/
theorem of_stored {a : XrAccessReq} (hd : Drains s s₁) (h : Stored q a s₁ s') (hq : p ≠ q) :
    Releases p s s' where
  buffers hb := by
    rcases hd.buffers hb with hbuffers | hram
    · exact .inl (h.buffers_old hbuffers fun hin => hq hin.1)
    · rw [h.bytes]
      exact .inr hram
  wb w hw := by
    rw [h.others p hq] at hw
    exact (of_drains hd : Releases p s s₁).wb w hw
  cycles hc := by
    rw [h.cycles]
    exact hd.cycles p hc

end Releases

theorem Accounted.releases (h : Accounted present populated p owed s)
    (hinv : CacheInv present populated s') (hr : Releases p s s') :
    Accounted present populated p (settle p s'.mem owed) s' where
  inv := hinv
  armed w hw := hr.cycles (h.armed w (hr.wb w hw))
  buffered b v hv := settle_buffered hinv (fun howed => hr.buffers (h.buffered b v howed)) hv

/-! ## Exceptions -/

/-- `p` has taken an exception. With EB 0 it was reset, and its write buffer with it. -/
def KeepsUnlessReset (p : Nat) (s s' : XrCachedSys LineRam) : Prop :=
  if (s.procs p).cr crEb = 0 then ∀ w, s'.lines.wb p w = none else Releases p s s'

theorem KeepsUnlessReset.after_same (hs : SameBuffer p s s₁)
    (heb : (s₁.procs p).cr crEb = (s.procs p).cr crEb) (h : KeepsUnlessReset p s₁ s') :
    KeepsUnlessReset p s s' := by
  unfold KeepsUnlessReset at *
  rw [heb] at h
  by_cases hreset : (s.procs p).cr crEb = 0
  · rw [if_pos hreset] at h ⊢
    exact h
  · rw [if_neg hreset] at h ⊢
    exact .after_same hs h

theorem Accounted.excepted (h : Accounted present populated p owed s)
    (hinv : CacheInv present populated s') (hk : KeepsUnlessReset p s s') :
    Accounted present populated p
      (if (s.procs p).cr crEb = 0 then fun _ => none else settle p s'.mem owed) s' := by
  unfold KeepsUnlessReset at hk
  by_cases hreset : (s.procs p).cr crEb = 0
  · rw [if_pos hreset] at hk ⊢
    exact .of_empty hinv hk
  · rw [if_neg hreset] at hk ⊢
    exact h.releases hinv hk

/-- An exception, after what only had lines written out. -/
theorem Releases.raised {m : Machine (XrCachedMem LineRam)} (hr : Releases p s s₁)
    (hid : (s₁.procs p).id = p) (heb : (s₁.procs p).cr crEb = (s.procs p).cr crEb)
    (hraises : Raises (s₁.machine p) m) : KeepsUnlessReset p s (s₁.setMachine p m) := by
  unfold KeepsUnlessReset
  rw [← heb]
  by_cases hreset : (s₁.procs p).cr crEb = 0
  · rw [if_pos hreset]
    obtain ⟨m₁, exc, rfl, hprepared⟩ := hraises.vector
    have heb₁ : m₁.proc.cr crEb = 0 := by
      rw [hprepared.cr crEb (by decide)]
      exact hreset
    have hid₁ : m₁.proc.id = p := by
      rw [hprepared.proc]
      exact hid
    intro w
    simp [setMachine, lines, cache, xrVectorException_mem, heb₁, hid₁, ResetMem.resetMem,
      XrCache.reset]
  · rw [if_neg hreset]
    have hmem : m.mem = s₁.mem := hraises.mem hreset
    refine hr.then_same (.of_cache ?_) ?_
    · exact congrArg (fun m : XrCachedMem LineRam => m.caches p) hmem
    · exact congrArg (fun m : XrCachedMem LineRam => m.bus.bytes) hmem

theorem CacheInv.raised {m : Machine (XrCachedMem LineRam)} (h : CacheInv present populated s)
    (hraises : Raises (s.machine p) m) : CacheInv present populated (s.setMachine p m) :=
  (excepted_setMachine h hraises.excepts).1

theorem raises_busError (p address : Nat) (s : XrCachedSys LineRam) :
    Raises (s.machine p) (xrBasicException
      ((s.machine p).setCr crEbadaddr (BitVec.ofNat 32 address)) excBus (s.machine p).proc.pc) :=
  .address _ excBus _ (by decide)

end

/-! ## The accesses of the processor -/

/-- Where an access with this answer has stored into cached memory. -/
def storedAt (m : Machine (XrCachedMem LineRam)) (r : XrMemReq) (res : XrResult) : Option Word :=
  match (accessAddress m r).1 with
  | none => none
  | some (address, flags) =>
      if r.read = false ∧ res.1 = .done ∧ flags &&& pteNoncached = 0 then some address else none

/-- The account after an access of `p` in `s`. -/
def accountOf (p : Nat) (s s' : XrCachedSys LineRam) (r : XrMemReq) (res : XrResult)
    (owed : Owed) : Owed :=
  if res.1 = .fault then
    if (s.procs p).cr crEb = 0 then fun _ => none else settle p s'.mem owed
  else
    match storedAt (s.machine p) r res with
    | none => settle p s'.mem owed
    | some address => owe address.toNat r.length (byteOf r.srcvalue) (settle p s'.mem owed)

section

variable {present populated : Nat → Bool} {s s₁ s' : XrCachedSys LineRam} {p : Nat} {owed : Owed}
  {r : XrMemReq} {res : XrResult}

theorem accountOf_fault (h : res.1 = .fault) :
    accountOf p s s' r res owed =
      if (s.procs p).cr crEb = 0 then fun _ => none else settle p s'.mem owed := if_pos h

theorem accountOf_quiet (h : res.1 ≠ .fault) (hnone : storedAt (s.machine p) r res = none) :
    accountOf p s s' r res owed = settle p s'.mem owed := by
  unfold accountOf
  rw [if_neg h, hnone]

/-- The address of an access and its translation do not touch the write buffer. -/
theorem sameBuffer_address {m : Machine (XrCachedMem LineRam)} {place : Option (Word × BitVec 64)}
    (h : CacheInv present populated s) (hm : accessAddress (s.machine p) r = (place, m))
    (hplace : place ≠ none) :
    SameBuffer p s (s.setMachine p m) ∧ m.proc.cr = (s.procs p).cr := by
  have hcr : m.proc.cr = (s.procs p).cr := by
    rcases accessAddress_ends hm with ⟨hnone, -⟩ | ⟨_, -, htouched⟩
    · exact absurd hnone hplace
    · exact htouched.cr
  refine ⟨?_, hcr⟩
  unfold accessAddress at hm
  split at hm
  · cases hm
    exact absurd rfl hplace
  split at hm
  · rcases xrTranslate_cases hm with ⟨hnone, -⟩ | ⟨tbe, -, rfl⟩
    · exact absurd hnone hplace
    · have hid : (s.machine p).proc.id = p := h.plant.ids p
      have hmem : (s.setMachine p (rememberLookup (s.machine p) r.address tbe false)).mem =
          (onCache p (fun c => { c with dtbLastResult := tbe.setWidth 32 }) s).mem := by
        simp only [setMachine, rememberLookup, Bool.false_eq_true, if_false, hid]
        rfl
      have hsame : SameBuffer p s
          (onCache p (fun c => { c with dtbLastResult := tbe.setWidth 32 }) s) :=
        .onCache ⟨rfl, rfl, rfl, rfl⟩
      have hcache : (s.setMachine p (rememberLookup (s.machine p) r.address tbe false)).cache p =
          (onCache p (fun c => { c with dtbLastResult := tbe.setWidth 32 }) s).cache p :=
        congrArg (fun m : XrCachedMem LineRam => m.caches p) hmem
      exact hsame.trans (.of_cache hcache)
  · cases hm
    rw [setMachine_self]
    exact .refl p s

/-- The store of an access, in order on the account. -/
theorem Accounted.stored {a : XrAccessReq} (h : Accounted present populated p owed s)
    (hinv : CacheInv present populated s') (hr : Releases p s s₁) (hs : Stored p a s₁ s')
    (hal : a.Aligned) (harmed : (s₁.cache p).wbCycles ≠ 0 ∨ ∃ w, s₁.lines.wb p w ≠ none) :
    Accounted present populated p
      (owe a.address a.length (byteOf a.srcvalue) (settle p s'.mem owed)) s' where
  inv := hinv
  armed w _ := by
    rw [hs.cycles]
    rcases harmed with hcycles | ⟨x, hx⟩
    · exact hcycles
    · exact hr.cycles (h.armed x (hr.wb x hx))
  buffered b v hv := by
    unfold owe at hv
    by_cases hin : a.address ≤ b ∧ b < a.address + a.length
    · rw [if_pos hin] at hv
      cases hv
      exact hs.buffers_new hal hin.1 hin.2
    · rw [if_neg hin] at hv
      refine settle_buffered hinv (fun howed => ?_) hv
      rcases hr.buffers (h.buffered b v howed) with hbuffers | hram
      · exact .inl (hs.buffers_old hbuffers fun hout => hin hout.2)
      · rw [hs.bytes]
        exact .inr hram

/-- EB is the same at the bus error that ends an access as before the access. -/
theorem eb_busError {a : XrAccessReq} {v : Option Word} (hrunning : s'.mem.aborted = false)
    {address : Nat} (he : (XrMemOp.access p a).exec s = some ((.fault, v), s'))
    (herror : s' = busError p address s₁) : (s₁.procs p).cr crEb = (s.procs p).cr crEb := by
  have hends : CachedEnds (s.machine p) ((.fault, v), s'.machine p) := runLoop_ends he
  obtain ⟨m, htouched, hraises⟩ : AccessFaulted (s.machine p) (s'.machine p) := by
    rcases hends.2 rfl with habort | hfault
    · have habort' : s'.mem.aborted = true := habort
      rw [hrunning] at habort'
      cases habort'
    · exact hfault
  have hfrom : (s'.procs p).cr crEb = (s.procs p).cr crEb := by
    have heb := hraises.raises.eb
    rw [htouched.cr] at heb
    exact heb
  have hto : (s'.procs p).cr crEb = (s₁.procs p).cr crEb := by
    obtain ⟨m₁, htouched₁, hraises₁⟩ := faulted_busError p address s₁
    have heb := hraises₁.raises.eb
    rw [htouched₁.cr, ← herror] at heb
    exact heb
  exact hto.symm.trans hfrom

/-! ### Whole accesses -/

theorem inv_busDone {α : Type} {reply : EBusReply LineRam α} (h : CacheInv present populated s)
    (hr : reply.bus.populated = s.mem.bus.populated) :
    CacheInv present populated (busDone p reply s) :=
  ⟨h.plant.busDone p hr, h.lines⟩

/-- `XrNoncachedAccess` writes RAM past the write buffer. -/
theorem xrNoncachedAccess_keeps {a : XrAccessReq} (h : CacheInv present populated s)
    (he : xrNoncachedAccess p a s = (res, s')) :
    CacheInv present populated s' ∧ (res.1 = .fault → KeepsUnlessReset p s s') ∧
      (res.1 ≠ .fault → Releases p s s') := by
  have hdone : ∀ {α : Type} (reply : EBusReply LineRam α),
      reply.bus.populated = s.mem.bus.populated → CacheInv present populated (busDone p reply s) ∧
        SameBuffer p s (busDone p reply s) :=
    fun reply hpop => ⟨inv_busDone h hpop, .of_cache rfl⟩
  have herror : ∀ {α : Type} (reply : EBusReply LineRam α),
      reply.bus.populated = s.mem.bus.populated →
      CacheInv present populated (busError p a.address (busDone p reply s)) ∧
        KeepsUnlessReset p s (busError p a.address (busDone p reply s)) := by
    intro α reply hpop
    obtain ⟨hinv, hsame⟩ := hdone reply hpop
    have hraises := raises_busError p a.address (busDone p reply s)
    refine ⟨hinv.raised hraises, hsame.releases.raised (hinv.plant.ids p) ?_ hraises⟩
    rw [cr_busDone]
  unfold xrNoncachedAccess at he
  split at he
  · extract_lets reply at he
    split at he
    · obtain ⟨rfl, rfl⟩ := Prod.mk.inj he
      obtain ⟨hinv, hsame⟩ := hdone reply rfl
      exact ⟨hinv, fun hf => (by cases hf), fun _ => hsame.releases⟩
    · obtain ⟨rfl, rfl⟩ := Prod.mk.inj he
      obtain ⟨hinv, hkeeps⟩ := herror reply rfl
      exact ⟨hinv, fun _ => hkeeps, fun hne => absurd rfl hne⟩
  · extract_lets reply at he
    have hpop : reply.bus.populated = s.mem.bus.populated := by
      simp only [reply, EBus.write]
      split
      · rfl
      · rfl
    split at he
    · obtain ⟨rfl, rfl⟩ := Prod.mk.inj he
      obtain ⟨hinv, hsame⟩ := hdone reply hpop
      exact ⟨hinv, fun hf => (by cases hf), fun _ => hsame.releases⟩
    · obtain ⟨rfl, rfl⟩ := Prod.mk.inj he
      obtain ⟨hinv, hkeeps⟩ := herror reply hpop
      exact ⟨hinv, fun _ => hkeeps, fun hne => absurd rfl hne⟩

/-- An access keeps the account in order. -/
theorem Accounted.access (h : Accounted present populated p owed s)
    (hp : present p = true ∧ p < xrProcMax)
    (hlen : r.length = 1 ∨ r.length = 2 ∨ r.length = 4) (he : xrAccess p r s = some (res, s')) :
    Accounted present populated p (accountOf p s s' r res owed) s' := by
  unfold xrAccess at he
  cases hm : accessAddress (s.machine p) r with
  | mk place m =>
      rw [hm] at he
      cases place with
      | none =>
          obtain ⟨rfl, rfl⟩ := Prod.mk.inj (Option.some.inj he)
          rcases accessAddress_ends hm with ⟨-, hraises⟩ | ⟨_, hsome, -⟩
          · rw [accountOf_fault rfl]
            exact h.excepted (h.inv.raised hraises.raises)
              ((SameBuffer.refl p s).releases.raised (h.inv.plant.ids p) rfl hraises.raises)
          · cases hsome
      | some place =>
          obtain ⟨address, flags⟩ := place
          obtain ⟨hinv, -, hal⟩ := accessAddress_some h.inv hlen hm
          obtain ⟨hsame, hcr⟩ := sameBuffer_address h.inv hm (Option.some_ne_none _)
          have heb : ((s.setMachine p m).procs p).cr crEb = (s.procs p).cr crEb := by
            rw [← hcr]
            simp [setMachine]
          have hplace : (accessAddress (s.machine p) r).1 = some (address, flags) := by rw [hm]
          simp only at he
          by_cases hnc : flags &&& pteNoncached ≠ 0
          · rw [if_pos hnc] at he
            have hstored : storedAt (s.machine p) r res = none := by
              unfold storedAt
              rw [hplace]
              exact if_neg fun hs => hnc hs.2.2
            -- A noncached access is not on the account.
            have hend : CacheInv present populated s' ∧
                (res.1 = .fault → KeepsUnlessReset p (s.setMachine p m) s') ∧
                (res.1 ≠ .fault → Releases p (s.setMachine p m) s') := by
              split at he
              · cases he
                have hraises := raises_busError p address.toNat (s.setMachine p m)
                exact ⟨hinv.raised hraises,
                  fun _ => (SameBuffer.refl p _).releases.raised (hinv.plant.ids p) rfl hraises,
                  fun hne => absurd rfl hne⟩
              · exact xrNoncachedAccess_keeps hinv (Option.some.inj he)
            obtain ⟨hinv', hfault, hok⟩ := hend
            by_cases hf : res.1 = .fault
            · rw [accountOf_fault hf]
              exact h.excepted hinv' ((hfault hf).after_same hsame heb)
            · rw [accountOf_quiet hf hstored]
              exact h.releases hinv' (.after_same hsame (hok hf))
          · rw [if_neg hnc] at he
            have hinv' := hinv.exec (o := .access p (r.at address)) ⟨hp, hal⟩ he
            have hmoves := access_moves hinv hal hp he
            cases hmoves with
            | quiet drains ok done =>
                have hstored : storedAt (s.machine p) r res = none := by
                  unfold storedAt
                  rw [hplace]
                  refine if_neg fun hs => ?_
                  have hread := done hs.2.1
                  rw [show (r.at address).read = r.read from rfl, hs.1] at hread
                  cases hread
                rw [accountOf_quiet ok hstored]
                exact h.releases hinv' (.after_same hsame (.of_drains drains))
            | @fault s₁ drains plant =>
                rw [accountOf_fault rfl]
                refine h.excepted hinv' ?_
                have hebs := eb_busError hinv'.plant.running he rfl
                have hkeeps := (Releases.of_drains drains).raised (plant.ids p) hebs
                  (raises_busError p (r.at address).address s₁)
                exact hkeeps.after_same hsame heb
            | @stored s₁ _ drains write stored armed =>
                have hstored : storedAt (s.machine p) r (.done, none) = some address := by
                  unfold storedAt
                  rw [hplace]
                  exact if_pos ⟨write, rfl, not_not.mp hnc⟩
                have hat : accountOf p s s' r (.done, none) owed =
                    owe address.toNat r.length (byteOf r.srcvalue) (settle p s'.mem owed) := by
                  unfold accountOf
                  rw [if_neg (by decide), hstored]
                rw [hat]
                exact h.stored hinv' (.after_same hsame (.of_drains drains)) stored hal armed

end

end Xremu
