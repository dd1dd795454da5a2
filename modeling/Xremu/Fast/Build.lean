import Xremu.Fast.DataTranslation
import Xremu.Interp.Build

/-!
# The fast build under the interpreter

Instruction fetch of the fast build (`XrTranslateIstream`, and the words read through
the host pointer of the page), and its instance of `XrBuild`. The control registers of
the caches do nothing here.
-/

namespace Xremu

section

variable {β : Type}

/-! ## Instruction fetch -/

/-- The entry of the last instruction lookup, or the one found now. -/
def istreamLookup (m : Machine (XrFastMem β)) (virtual : Word) :
    Option (BitVec 64) × Machine (XrFastMem β) :=
  if m.proc.itbLastVpn = vpnOf virtual then (some m.proc.itbLastResult, m)
  else
    match xrLookupItb m virtual with
    | (none, m) => (none, m)
    | (some i, m) => (some (m.proc.itb i), m)

/-- The result is the physical address and the flags of the page. -/
def xrTranslateIstream (m : Machine (XrFastMem β)) (virtual : Word) :
    Option (Word × BitVec 64) × Machine (XrFastMem β) :=
  match istreamLookup m virtual with
  | (none, m) => (none, m)
  | (some tbe, m) =>
      match tbeFault m.proc tbe false with
      | some f => (none, f.take m virtual false)
      | none =>
          (some (physOf tbe virtual, tbe &&& 31),
            { m with proc := { m.proc with itbLastVpn := vpnOf virtual, itbLastResult := tbe } })

variable [EBusHost β]

/-- `ir[0]` to `ir[count - 1]`. -/
def hostWords (bus : β) (ir : Word) (count : Nat) : List Word :=
  (List.range count).map fun k => zext (EBusHost.hostRead bus (ir.toNat + 4 * k)) 4

/-- The fetch after the translation. -/
def fetchHost (m : Machine (XrFastMem β)) (pc fetchpc : Word) (flags : BitVec 64) :
    Option XrFetched × Machine (XrFastMem β) :=
  match eBusTranslate m.mem.bus fetchpc with
  | none => (none, directBusError m pc)
  | some ir => (some ⟨hostWords m.mem.bus ir (xrInstCount pc pc), flags⟩, m)

/-- The fetch of `XrDecodeInstructions`. -/
def fastFetch (m : Machine (XrFastMem β)) : Option XrFetched × Machine (XrFastMem β) :=
  if m.proc.rs &&& rsMmu ≠ 0 then
    match xrTranslateIstream m m.proc.pc with
    | (none, m) => (none, m)
    | (some (fetchpc, flags), m) => fetchHost m m.proc.pc fetchpc flags
  else fetchHost m m.proc.pc m.proc.pc 0

/-- Decoding marks the block's slots invalid; what they pointed to stays. -/
def XrFast.emptyDtbCache (block : Nat) (f : XrFast) : XrFast :=
  { f with
    dtbLoadCache := Function.update f.dtbLoadCache block fun i => (f.dtbLoadCache block i).emptied
    dtbStoreCache :=
      Function.update f.dtbStoreCache block fun i => (f.dtbStoreCache block i).emptied }

end

/-! ## How far they reach -/

section

variable {β : Type}

theorem istreamLookup_scan {m : Machine (XrFastMem β)} {virtual : Word}
    (h : m.proc.itbLastVpn ≠ vpnOf virtual) :
    istreamLookup m virtual =
      ((xrLookupItb m virtual).1.map m.proc.itb, (xrLookupItb m virtual).2) := by
  unfold istreamLookup
  rw [if_neg h]
  unfold xrLookupItb
  cases tbScan m.proc.itb (tbMatching (m.proc.cr crItbtag) virtual) with
  | none => rfl
  | some i => rfl

theorem istreamLookup_cases {m m' : Machine (XrFastMem β)} {virtual : Word}
    {out : Option (BitVec 64)} (h : istreamLookup m virtual = (out, m')) :
    (out = none ∧ Faulted m m') ∨ (∃ tbe, out = some tbe ∧ m' = m) := by
  unfold istreamLookup xrLookupItb at h
  split at h
  · cases h
    exact .inr ⟨_, rfl, rfl⟩
  · cases hscan : tbScan m.proc.itb (tbMatching (m.proc.cr crItbtag) virtual) with
    | none =>
        rw [hscan] at h
        cases h
        exact .inl ⟨rfl, (Raises.itbMiss virtual false).faulted⟩
    | some i =>
        rw [hscan] at h
        cases h
        exact .inr ⟨_, rfl, rfl⟩

/-- A translation that succeeds shows a kernel page to the kernel only. -/
theorem xrTranslateIstream_cases {m m' : Machine (XrFastMem β)} {virtual : Word}
    {out : Option (Word × BitVec 64)} (h : xrTranslateIstream m virtual = (out, m')) :
    (out = none ∧ Faulted m m') ∨
      (∃ phys flags, out = some (phys, flags) ∧ Touched m.proc m'.proc ∧
        (flags &&& pteKernel ≠ 0 → m.proc.rs &&& rsUser = 0)) := by
  unfold xrTranslateIstream at h
  cases hl : istreamLookup m virtual with
  | mk tbe m₁ =>
      rw [hl] at h
      rcases istreamLookup_cases hl with ⟨rfl, hfault⟩ | ⟨tbe, rfl, rfl⟩
      · cases h
        exact .inl ⟨rfl, hfault⟩
      · cases hf : tbeFault m₁.proc tbe false with
        | some f =>
            simp only [hf] at h
            cases h
            exact .inl ⟨rfl, (f.raises m₁ virtual false).faulted⟩
        | none =>
            simp only [hf] at h
            cases h
            refine .inr ⟨_, _, rfl, rfl, fun hk => ?_⟩
            exact tbeFault_kernel hf hk

/-- How an access ends: it is done, or it has taken an exception. -/
def DataAccessEnds (m : Machine (XrFastMem β)) (out : XrResult × Machine (XrFastMem β)) : Prop :=
  (out.1.1 ≠ .fault → Touched m.proc out.2.proc) ∧ (out.1.1 = .fault → AccessFaulted m out.2)

theorem DataAccessEnds.of_touched {m m₁ : Machine (XrFastMem β)}
    {out : XrResult × Machine (XrFastMem β)} (h : DataAccessEnds m₁ out)
    (ht : Touched m.proc m₁.proc) : DataAccessEnds m out :=
  ⟨fun hne => ht.trans (h.1 hne), fun he => (h.2 he).of_touched ht⟩

theorem dataEnds_busError {α : Type} (m : Machine (XrFastMem β)) (r : EBusReply β α)
    (address : Word) : AccessFaulted m (directBusError (busReply m r) address) := by
  refine ⟨busReply m r, rfl, ?_⟩
  exact .address address excBus (by decide)

variable [EBusHost β]

theorem xrTranslateDstream_cases {m m' : Machine (XrFastMem β)} {virtual : Word} {writing : Bool}
    {out : Option XrIblockDtbEntry} (h : xrTranslateDstream m virtual writing = (out, m')) :
    (out = none ∧ AccessRaises m m') ∨ (∃ e, out = some e ∧ Touched m.proc m'.proc) := by
  cases translatesDstream h with
  | remembered hint ok => exact .inr ⟨_, rfl, .refl _⟩
  | @refused f hint fault => exact .inl ⟨rfl, f.accessRaises m virtual writing⟩
  | missed other scan => exact .inl ⟨rfl, .miss virtual writing⟩
  | @denied i f other scan fault => exact .inl ⟨rfl, f.accessRaises m virtual writing⟩
  | found other scan ok => exact .inr ⟨_, rfl, rfl⟩

theorem dataTarget_cases {m m' : Machine (XrFastMem β)} {block : Nat} {virtual : Word}
    {writing : Bool} {out : Option XrIblockDtbEntry}
    (h : dataTarget m block virtual writing = (out, m')) :
    (out = none ∧ AccessRaises m m') ∨ (∃ e, out = some e ∧ Touched m.proc m'.proc) := by
  cases findsTarget h with
  | slot valid => exact .inr ⟨_, rfl, .refl _⟩
  | faulted translate => exact xrTranslateDstream_cases translate
  | translated translate =>
      rcases xrTranslateDstream_cases translate with ⟨hnone, -⟩ | ⟨e, -, htouched⟩
      · cases hnone
      · exact .inr ⟨_, rfl, htouched⟩

theorem dataEnds_directWrite (m : Machine (XrFastMem β)) (address : Word) (r : XrMemReq) :
    DataAccessEnds m (directWrite m address r) := by
  unfold directWrite
  extract_lets reply
  split
  · exact ⟨fun _ => rfl, fun h => by cases h⟩
  · exact ⟨fun h => absurd rfl h, fun _ => dataEnds_busError m reply address⟩

theorem dataEnds_directRead (m : Machine (XrFastMem β)) (address : Word) (r : XrMemReq) :
    DataAccessEnds m (directRead m address r) := by
  unfold directRead
  extract_lets reply
  split
  · exact ⟨fun _ => rfl, fun h => by cases h⟩
  · exact ⟨fun h => absurd rfl h, fun _ => dataEnds_busError m reply address⟩

theorem dataEnds_target (m : Machine (XrFastMem β)) (e : XrIblockDtbEntry) (r : XrMemReq) :
    DataAccessEnds m (accessTarget m e r) := by
  unfold accessTarget
  split
  · unfold readTarget
    split
    · exact dataEnds_directRead m _ r
    · extract_lets host loaded
      split
      · exact ⟨fun _ => rfl, fun h => by cases h⟩
      · exact ⟨fun _ => rfl, fun h => by cases h⟩
  · unfold writeTarget
    split
    · exact dataEnds_directWrite m _ r
    · extract_lets host stored
      split
      · refine ⟨fun _ => rfl, fun h => ?_⟩
        dsimp only at h
        split at h <;> cases h
      · exact ⟨fun _ => rfl, fun h => by cases h⟩

theorem dataEnds_dataAccess (m : Machine (XrFastMem β)) (block : Nat) (r : XrMemReq) :
    DataAccessEnds m (xrDataAccess m block r) := by
  rw [xrDataAccess_eq]
  split
  · refine ⟨fun h => absurd rfl h, fun _ => ?_⟩
    exact (AccessRaises.address r.address excUna (by decide)).faulted
  split
  · cases ht : dataTarget m block r.address (!r.read) with
    | mk e m₁ =>
        rcases dataTarget_cases ht with ⟨rfl, hfault⟩ | ⟨e, rfl, htouched⟩
        · exact ⟨fun h => absurd rfl h, fun _ => hfault.faulted⟩
        · exact (dataEnds_target m₁ e r).of_touched htouched
  split
  · exact dataEnds_directRead m r.address r
  · exact dataEnds_directWrite m r.address r

theorem fetchHost_cases {m m' : Machine (XrFastMem β)} {pc fetchpc : Word} {flags : BitVec 64}
    {out : Option XrFetched} (h : fetchHost m pc fetchpc flags = (out, m')) :
    (out = none ∧ Faulted m m') ∨ (∃ f, out = some f ∧ f.flags = flags ∧ m' = m) := by
  unfold fetchHost at h
  split at h
  · cases h
    exact .inl ⟨rfl, (Raises.address pc excBus m.proc.pc (by decide)).faulted⟩
  · cases h
    exact .inr ⟨_, rfl, rfl, rfl⟩

theorem fastFetch_cases {m m' : Machine (XrFastMem β)} {out : Option XrFetched}
    (h : fastFetch m = (out, m')) :
    (out = none ∧ Faulted m m') ∨
      (∃ f, out = some f ∧ Touched m.proc m'.proc ∧
        (f.flags &&& pteKernel ≠ 0 → m.proc.rs &&& rsUser = 0)) := by
  unfold fastFetch at h
  split at h
  · cases ht : xrTranslateIstream m m.proc.pc with
    | mk e m₁ =>
        rw [ht] at h
        rcases xrTranslateIstream_cases ht with ⟨rfl, hfault⟩ | ⟨phys, flags, rfl, htouched, hk⟩
        · cases h
          exact .inl ⟨rfl, hfault⟩
        · rcases fetchHost_cases h with ⟨rfl, hfault⟩ | ⟨f, rfl, hflags, rfl⟩
          · exact .inl ⟨rfl, hfault.of_touched htouched⟩
          · exact .inr ⟨f, rfl, htouched, hflags ▸ hk⟩
  · rcases fetchHost_cases h with ⟨rfl, hfault⟩ | ⟨f, rfl, hflags, rfl⟩
    · exact .inl ⟨rfl, hfault⟩
    · refine .inr ⟨f, rfl, .refl _, fun hk => absurd ?_ hk⟩
      rw [hflags]
      rfl

end

instance {β : Type} [EBusHost β] : XrBuild (XrFastMem β) where
  access m block r := some (xrDataAccess m block r)
  fetch m := some (fastFetch m)
  flushWriteBuffer m := m
  icachectrl _ m := m
  dcachectrl _ m := m
  drain m := m
  emptyDtbCache block m :=
    { m with mem := m.mem.setFast m.proc.id ((m.mem.fast m.proc.id).emptyDtbCache block) }
  access_done := by
    intro m m' block r res h hne
    have hout : xrDataAccess m block r = (res, m') := Option.some.inj h
    have hends := (dataEnds_dataAccess m block r).1
    rw [hout] at hends
    exact hends hne
  access_fault := by
    intro m m' block r v h
    have hout : xrDataAccess m block r = ((.fault, v), m') := Option.some.inj h
    have hends := (dataEnds_dataAccess m block r).2
    rw [hout] at hends
    exact (hends rfl).faulted
  fetch_done := by
    intro m m' f h
    rcases fastFetch_cases (Option.some.inj h) with ⟨hnone, _⟩ | ⟨_, _, htouched, _⟩
    · cases hnone
    · exact htouched
  fetch_kernel := by
    intro m m' f h
    rcases fastFetch_cases (Option.some.inj h) with ⟨hnone, _⟩ | ⟨f', hf, _, hk⟩
    · cases hnone
    · cases hf
      exact hk
  fetch_fault := by
    intro m m' h
    rcases fastFetch_cases (Option.some.inj h) with ⟨_, hfault⟩ | ⟨f', hf, _⟩
    · exact hfault
    · cases hf
  flushWriteBuffer_touched m := .refl m.proc
  icachectrl_touched _ m := .refl m.proc
  dcachectrl_touched _ m := .refl m.proc
  drain_touched m := .refl m.proc
  emptyDtbCache_proc _ _ := rfl

end Xremu
