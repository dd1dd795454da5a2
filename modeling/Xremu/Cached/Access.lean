import Xremu.Cached.Atomic
import Xremu.Machine.Translate

/-!
# `XrAccess` of the cached build

The access of an instruction: alignment, translation, and then either the bus or
the Dcache. It is one atomic step here; what happens when the Dcache part is
interleaved is the subject of `Interleaving.lean`.

`XrTranslate` serves loads, stores and instruction fetch. The last lookup is
remembered; of the data one only the low 32 bits, `DtbLastResult` being a
`uint32_t`.
-/

namespace Xremu

open Concurrency XrCachedSys

/-! ## `XrTranslate` -/

section

variable {β : Type}

/-- The entry of the last lookup, or the one found now. -/
def translateLookup (m : Machine (XrCachedMem β)) (virtual : Word) (writing ifetch : Bool) :
    Option (BitVec 64) × Machine (XrCachedMem β) :=
  if ifetch then
    if m.proc.itbLastVpn = vpnOf virtual then (some m.proc.itbLastResult, m)
    else
      let r := xrLookupItb m virtual
      (r.1.map m.proc.itb, r.2)
  else
    if m.proc.dtbLastVpn = vpnOf virtual then
      (some ((m.mem.caches m.proc.id).dtbLastResult.setWidth 64), m)
    else
      let r := xrLookupDtb m virtual writing
      (r.1.map m.proc.dtb, r.2)

/-- Remember a lookup. -/
def rememberLookup (m : Machine (XrCachedMem β)) (virtual : Word) (tbe : BitVec 64)
    (ifetch : Bool) : Machine (XrCachedMem β) :=
  if ifetch then
    { m with proc := { m.proc with itbLastVpn := vpnOf virtual, itbLastResult := tbe } }
  else
    ⟨{ m.proc with dtbLastVpn := vpnOf virtual },
      m.mem.setCache m.proc.id
        { m.mem.caches m.proc.id with dtbLastResult := tbe.setWidth 32 }⟩

/-- The result is the physical address and the flags of the page. -/
def xrTranslate (m : Machine (XrCachedMem β)) (virtual : Word) (writing ifetch : Bool) :
    Option (Word × BitVec 64) × Machine (XrCachedMem β) :=
  match translateLookup m virtual writing ifetch with
  | (none, m) => (none, m)
  | (some tbe, m) =>
      match tbeFault m.proc tbe writing with
      | some f => (none, f.take m virtual writing)
      | none => (some (physOf tbe virtual, tbe &&& 31), rememberLookup m virtual tbe ifetch)

/-! ### How they end -/

inductive LooksUp (m : Machine (XrCachedMem β)) (virtual : Word) (writing : Bool) :
    (ifetch : Bool) → Option (BitVec 64) → Machine (XrCachedMem β) → Prop
  | itbHint (hint : m.proc.itbLastVpn = vpnOf virtual) :
      LooksUp m virtual writing true (some m.proc.itbLastResult) m
  | itbFound {i} (scan : tbScan m.proc.itb (tbMatching (m.proc.cr crItbtag) virtual) = some i) :
      LooksUp m virtual writing true (some (m.proc.itb i)) m
  | itbMiss (scan : tbScan m.proc.itb (tbMatching (m.proc.cr crItbtag) virtual) = none) :
      LooksUp m virtual writing true none (tbMiss crItbtag crItbaddr excItb virtual false m)
  | dtbHint (hint : m.proc.dtbLastVpn = vpnOf virtual) :
      LooksUp m virtual writing false
        (some ((m.mem.caches m.proc.id).dtbLastResult.setWidth 64)) m
  | dtbFound {i} (scan : tbScan m.proc.dtb (tbMatching (m.proc.cr crDtbtag) virtual) = some i) :
      LooksUp m virtual writing false (some (m.proc.dtb i)) m
  | dtbMiss (scan : tbScan m.proc.dtb (tbMatching (m.proc.cr crDtbtag) virtual) = none) :
      LooksUp m virtual writing false none (tbMiss crDtbtag crDtbaddr excDtb virtual writing m)

variable {m m' : Machine (XrCachedMem β)} {virtual : Word} {writing ifetch : Bool}

theorem looksUp {out : Option (BitVec 64)}
    (h : translateLookup m virtual writing ifetch = (out, m')) :
    LooksUp m virtual writing ifetch out m' := by
  unfold translateLookup at h
  cases ifetch with
  | true =>
      simp only [if_true] at h
      split at h
      · next hint =>
          cases h
          exact .itbHint hint
      · unfold xrLookupItb at h
        cases hscan : tbScan m.proc.itb (tbMatching (m.proc.cr crItbtag) virtual) with
        | none =>
            rw [hscan] at h
            cases h
            exact .itbMiss hscan
        | some i =>
            rw [hscan] at h
            cases h
            exact .itbFound hscan
  | false =>
      simp only [Bool.false_eq_true, if_false] at h
      split at h
      · next hint =>
          cases h
          exact .dtbHint hint
      · unfold xrLookupDtb at h
        cases hscan : tbScan m.proc.dtb (tbMatching (m.proc.cr crDtbtag) virtual) with
        | none =>
            rw [hscan] at h
            cases h
            exact .dtbMiss hscan
        | some i =>
            rw [hscan] at h
            cases h
            exact .dtbFound hscan

inductive Translates (m : Machine (XrCachedMem β)) (virtual : Word) (writing ifetch : Bool) :
    Option (Word × BitVec 64) → Machine (XrCachedMem β) → Prop
  | unmapped {m' : Machine (XrCachedMem β)}
      (lookup : translateLookup m virtual writing ifetch = (none, m')) :
      Translates m virtual writing ifetch none m'
  | denied {tbe f} (lookup : translateLookup m virtual writing ifetch = (some tbe, m))
      (fault : tbeFault m.proc tbe writing = some f) :
      Translates m virtual writing ifetch none (f.take m virtual writing)
  | mapped {tbe} (lookup : translateLookup m virtual writing ifetch = (some tbe, m))
      (ok : tbeFault m.proc tbe writing = none) :
      Translates m virtual writing ifetch (some (physOf tbe virtual, tbe &&& 31))
        (rememberLookup m virtual tbe ifetch)

theorem translates {out : Option (Word × BitVec 64)}
    (h : xrTranslate m virtual writing ifetch = (out, m')) :
    Translates m virtual writing ifetch out m' := by
  unfold xrTranslate at h
  rcases hl : translateLookup m virtual writing ifetch with ⟨_ | tbe, m₁⟩
  · rw [hl] at h
    cases h
    exact .unmapped hl
  · rw [hl] at h
    have hsame : m₁ = m := by
      cases looksUp hl <;> rfl
    subst hsame
    cases hf : tbeFault m₁.proc tbe writing with
    | some f =>
        simp only [hf] at h
        cases h
        exact .denied hl hf
    | none =>
        simp only [hf] at h
        cases h
        exact .mapped hl hf

end

/-! ## `XrAccess` -/

/-- `XR_NONCACHED_PHYS_BASE`. -/
abbrev xrNoncachedPhysBase : Word := 0xC0000000

/-- `XrAccess` up to the physical address and the flags of the access. -/
def accessAddress {β : Type} (m : Machine (XrCachedMem β)) (r : XrMemReq) :
    Option (Word × BitVec 64) × Machine (XrCachedMem β) :=
  if r.address &&& (BitVec.ofNat 32 r.length - 1) ≠ 0 then
    let m := m.setCr crEbadaddr r.address
    (none, xrBasicException m excUna m.proc.pc)
  else if m.proc.rs &&& rsMmu ≠ 0 then
    xrTranslate m r.address (!r.read) false
  else
    (some (r.address, if xrNoncachedPhysBase ≤ r.address then pteNoncached else 0), m)

/-- The request with its physical address. -/
def XrMemReq.at (r : XrMemReq) (address : Word) : XrAccessReq :=
  ⟨address.toNat, r.read, r.srcvalue, r.length, r.sc⟩

/-- `XrNoncachedAccess`, with the mask `XrAccess` puts on the value read. -/
def xrNoncachedAccess {β : Type} [EBus β] (p : Nat) (r : XrAccessReq) (s : XrCachedSys β) :
    XrResult × XrCachedSys β :=
  if r.read then
    let reply := EBus.read s.mem.bus (s.procs p) r.address r.length
    match reply.reply with
    | some bytes => ((.done, some (zext bytes r.length)), busDone p reply s)
    | none => ((.fault, none), busError p r.address (busDone p reply s))
  else
    let reply := EBus.write s.mem.bus (s.procs p) r.address (byteOf r.srcvalue) r.length
    if reply.reply then ((.done, none), busDone p reply s)
    else ((.fault, none), busError p r.address (busDone p reply s))

/-- `XrAccess` of processor `p`. `none` would be a Dcache access that never returns. -/
def xrAccess (p : Nat) (r : XrMemReq) (s : XrCachedSys LineRam) :
    Option (XrResult × XrCachedSys LineRam) :=
  match accessAddress (s.machine p) r with
  | (none, m) => some ((.fault, none), s.setMachine p m)
  | (some (address, flags), m) =>
      if flags &&& pteNoncached ≠ 0 then
        -- SC on noncached memory is answered with a bus error.
        if r.sc then some ((.fault, none), busError p address.toNat (s.setMachine p m))
        else some (xrNoncachedAccess p (r.at address) (s.setMachine p m))
      else
        (XrMemOp.access p (r.at address)).exec (s.setMachine p m)

/-! ## Load-linked and store-conditional -/

/-- `proc->Locked`. -/
def setLocked (p : Nat) (s : XrCachedSys LineRam) : XrCachedSys LineRam :=
  { s with procs := Function.update s.procs p { s.procs p with locked := true } }

/-- The memory side of `XrExecuteLL`, its address taken from the register. -/
def xrExecuteLL (p : Nat) (address : Word) (s : XrCachedSys LineRam) :
    Option (XrResult × XrCachedSys LineRam) :=
  match xrAccess p ⟨address, true, 0, 4, false⟩ s with
  | some ((.done, value), s) => some ((.done, value), setLocked p s)
  | r => r

/-- The memory side of `XrExecuteSC`; the destination register becomes 1 exactly
when the status is `done`, 0 when it is `scFailed`. -/
def xrExecuteSC (p : Nat) (address value : Word) (s : XrCachedSys LineRam) :
    Option (XrResult × XrCachedSys LineRam) :=
  if (s.procs p).locked then xrAccess p ⟨address, false, value, 4, true⟩ s
  else some ((.scFailed, none), s)

/-! ## What an access does to the lines -/

section

variable {present populated : Nat → Bool} {s : XrCachedSys LineRam} {p : Nat}

theorem lines_of_mem {s' : XrCachedSys LineRam} (hm : s'.mem = s.mem) : s'.lines = s.lines := by
  simp only [lines, cache, hm]

/-- The registers do not matter to the invariant, but for the processors' numbers. -/
theorem CacheInv.of_mem (h : CacheInv present populated s) {s' : XrCachedSys LineRam}
    (hids : ∀ q, (s'.procs q).id = q) (hm : s'.mem = s.mem) : CacheInv present populated s' := by
  refine ⟨⟨hids, ?_, ?_, ?_⟩, ?_⟩
  · rw [hm]
    exact h.plant.table
  · rw [hm]
    exact h.plant.ram
  · rw [hm]
    exact h.plant.running
  · rw [lines_of_mem hm]
    exact h.lines

theorem Agrees.of_mem {flat : Nat → Byte} {s' : XrCachedSys LineRam}
    (ha : Agrees populated flat s) (hm : s'.mem = s.mem) :
    Agrees populated flat s' := by
  have hl := lines_of_mem hm
  refine ha.of_same (fun hi => ?_) (fun q i t _ => ?_) (by rw [hm]) fun hw => ?_
  · rwa [hl] at hi
  · simp only [cache, hm]
  · rw [hl]
    exact ⟨hw, rfl⟩

/-- Code of `p` that neither lines nor data show. -/
theorem Agrees.onCache_same {flat : Nat → Byte} (ha : Agrees populated flat s)
    (h : CacheInv present populated s)
    {f : XrCache → XrCache} (hl : (onCache p f s).lines = s.lines)
    (hdc : (f (s.cache p)).dc = (s.cache p).dc) : Agrees populated flat (onCache p f s) :=
  (Sinks.onCache_same h hl hdc).agrees ha

theorem ids_setMachine (h : CacheInv present populated s) {m : Machine (XrCachedMem LineRam)}
    (hm : m.proc.id = (s.machine p).proc.id) (q : Nat) : ((s.setMachine p m).procs q).id = q := by
  by_cases hq : q = p
  · subst hq
    have hid : (s.machine q).proc.id = q := h.plant.ids q
    simp [setMachine, hm, hid]
  · simpa [setMachine, hq] using h.plant.ids q

/-- The state after an exception of processor `p`. -/
theorem excepted_setMachine (h : CacheInv present populated s)
    {m : Machine (XrCachedMem LineRam)} (hm : Excepted (s.machine p) m) :
    CacheInv present populated (s.setMachine p m) ∧ Falls s.lines (s.setMachine p m).lines := by
  have hid : (s.machine p).proc.id = p := h.plant.ids p
  have hids := ids_setMachine h hm.id
  rcases hm.mem with hmem | hmem
  · have hmem' : (s.setMachine p m).mem = s.mem := hmem
    refine ⟨h.of_mem hids hmem', ?_⟩
    rw [lines_of_mem hmem']
    exact h.lines.refl_falls
  · rw [hid] at hmem
    have hmem' : (s.setMachine p m).mem = (onCache p XrCache.reset s).mem := hmem
    have hfalls := falls_reset h.lines p
    have hreset : CacheInv present populated (onCache p XrCache.reset s) :=
      ⟨h.plant.onCache p _, h.lines.falls hfalls⟩
    refine ⟨hreset.of_mem hids hmem', ?_⟩
    rw [lines_of_mem hmem']
    exact hfalls

/-! The address of an access. -/

theorem physOf_toNat (tbe : BitVec 64) (virtual : Word) :
    (physOf tbe virtual).toNat =
      (((tbe &&& 0x1FFFFE0) <<< 7).toNat + virtual.toNat % 4096) % 4294967296 := by
  have hoff : (virtual &&& 0xFFF).toNat = virtual.toNat % 4096 := by
    rw [BitVec.toNat_and]
    exact Nat.and_two_pow_sub_one_eq_mod virtual.toNat 12
  simp only [physOf, BitVec.toNat_setWidth, BitVec.toNat_add, hoff]
  generalize ((tbe &&& 0x1FFFFE0) <<< 7).toNat = page
  omega

theorem physOf_offset (tbe : BitVec 64) (virtual : Word) :
    (physOf tbe virtual).toNat % 4096 = virtual.toNat % 4096 := by
  have hpage : (tbe &&& 0x1FFFFE0).toNat % 32 = 0 := by
    have h : (tbe.toNat &&& 0x1FFFFE0) % 2 ^ 5 = 0 := by
      rw [← Nat.and_two_pow_sub_one_eq_mod, Nat.and_assoc]
      exact Nat.and_zero _
    rw [BitVec.toNat_and]
    exact h
  rw [physOf_toNat, BitVec.toNat_shiftLeft, Nat.shiftLeft_eq]
  omega

/-- A lookup that finds an entry changes nothing. -/
theorem translateLookup_cases {m m' : Machine (XrCachedMem LineRam)} {virtual : Word}
    {writing ifetch : Bool} {out : Option (BitVec 64)}
    (h : translateLookup m virtual writing ifetch = (out, m')) :
    (out = none ∧ Excepted m m') ∨ (∃ tbe, out = some tbe ∧ m' = m) := by
  cases looksUp h with
  | itbHint hint => exact Or.inr ⟨_, rfl, rfl⟩
  | itbFound scan => exact Or.inr ⟨_, rfl, rfl⟩
  | itbMiss scan => exact Or.inl ⟨rfl, excepted_tbMiss _ _ _ _ _ m⟩
  | dtbHint hint => exact Or.inr ⟨_, rfl, rfl⟩
  | dtbFound scan => exact Or.inr ⟨_, rfl, rfl⟩
  | dtbMiss scan => exact Or.inl ⟨rfl, excepted_tbMiss _ _ _ _ _ m⟩

/-- A data translation either takes an exception, or remembers the entry it used. -/
theorem xrTranslate_cases {m m' : Machine (XrCachedMem LineRam)} {virtual : Word}
    {writing : Bool} {out : Option (Word × BitVec 64)}
    (h : xrTranslate m virtual writing false = (out, m')) :
    (out = none ∧ Excepted m m') ∨
      (∃ tbe, out = some (physOf tbe virtual, tbe &&& 31) ∧
        m' = rememberLookup m virtual tbe false) := by
  cases translates h with
  | unmapped lookup =>
      rcases translateLookup_cases lookup with ⟨-, hex⟩ | ⟨tbe, hnone, -⟩
      · exact Or.inl ⟨rfl, hex⟩
      · cases hnone
  | denied lookup fault => exact Or.inl ⟨rfl, excepted_take _ _ _ _⟩
  | mapped lookup ok => exact Or.inr ⟨_, rfl, rfl⟩

theorem setMachine_self (s : XrCachedSys LineRam) (p : Nat) : s.setMachine p (s.machine p) = s := by
  simp [setMachine, machine]

/-- The access got no address: it took an exception. -/
theorem accessAddress_none (h : CacheInv present populated s) {r : XrMemReq}
    {m : Machine (XrCachedMem LineRam)} (hm : accessAddress (s.machine p) r = (none, m)) :
    CacheInv present populated (s.setMachine p m) ∧ Falls s.lines (s.setMachine p m).lines := by
  refine excepted_setMachine h ?_
  unfold accessAddress at hm
  split at hm
  · obtain ⟨-, rfl⟩ := Prod.mk.inj hm
    refine excepted_basic ?_ ?_ ?_ _ _
    · simp
    · simp
    · simp
  · split at hm
    · rcases xrTranslate_cases hm with ⟨-, hex⟩ | ⟨tbe, hout, -⟩
      · exact hex
      · cases hout
    · cases (Prod.mk.inj hm).1

/-- The access got an address: it is aligned, and nothing happened to the lines. -/
theorem accessAddress_some (h : CacheInv present populated s) {r : XrMemReq}
    (hlen : r.length = 1 ∨ r.length = 2 ∨ r.length = 4) {address : Word} {flags : BitVec 64}
    {m : Machine (XrCachedMem LineRam)}
    (hm : accessAddress (s.machine p) r = (some (address, flags), m)) :
    CacheInv present populated (s.setMachine p m) ∧ (s.setMachine p m).lines = s.lines ∧
      (r.at address).Aligned := by
  unfold accessAddress at hm
  split at hm
  · cases (Prod.mk.inj hm).1
  · next hmask =>
      have hal := aligned_of_mask hlen (not_not.mp hmask)
      split at hm
      · rcases xrTranslate_cases hm with ⟨hout, -⟩ | ⟨tbe, hout, rfl⟩
        · cases hout
        · obtain ⟨rfl, -⟩ := Prod.mk.inj (Option.some.inj hout)
          -- Only the remembered lookup has changed.
          let g : XrCache → XrCache := fun c => { c with dtbLastResult := tbe.setWidth 32 }
          have hid : (s.machine p).proc.id = p := h.plant.ids p
          have hmem : (s.setMachine p (rememberLookup (s.machine p) r.address tbe false)).mem =
              (onCache p g s).mem := by
            simp only [setMachine, rememberLookup, Bool.false_eq_true, if_false, hid]
            rfl
          have hl : (onCache p g s).lines = s.lines := lines_onCache_same ⟨rfl, rfl, rfl, rfl⟩
          have hinv : CacheInv present populated (onCache p g s) :=
            ⟨h.plant.onCache p g, by rw [hl]; exact h.lines⟩
          refine ⟨hinv.of_mem (ids_setMachine h rfl) hmem, (lines_of_mem hmem).trans hl, hlen, ?_⟩
          · have hoff := physOf_offset tbe r.address
            simp only [XrMemReq.at]
            rcases hlen with hlen | hlen | hlen
            all_goals
              rw [hlen] at hal ⊢
              omega
      · obtain ⟨hout, rfl⟩ := Prod.mk.inj hm
        obtain ⟨rfl, -⟩ := Prod.mk.inj (Option.some.inj hout)
        rw [setMachine_self]
        exact ⟨h, rfl, hlen, hal⟩

end

end Xremu
