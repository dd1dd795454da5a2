import Xremu.Cached.Fetch
import Xremu.Devices.HostPath
import Xremu.Fast.Build
import Xremu.Interp.Alignment

/-!
# Faults of instruction fetch

When `XrDecodeInstructions` reports a fault, and with which address. `fetchPlace` says
where the program counter leads under the ITB. The fast build translates the program
counter itself, the cached build the start of its Icache line, which is in the same page.

A block that is cached already is found by its program counter and address space, without
a translation; all that is asked about it then is whether its page is the kernel's. What
is wrong with a page of the miss handlers is reported as a fault of the address that
missed. Where the cached build fetches lines that it need not have, or the fast build
words that are not there, is left open by `ExactFaults`.
-/

namespace Xremu

/-! ## The registers an exception leaves -/

section

variable {M : Type} [ResetMem M]

theorem vector_cr (m : Machine M) (exc : Word) {i : Nat}
    (hi : i ∉ [crRs, crEb, crIcachectrl, crDcachectrl, crWhami]) :
    (xrVectorException m exc).proc.cr i = m.proc.cr i := by
  simp only [List.mem_cons, List.not_mem_nil, or_false, not_or] at hi
  obtain ⟨hrs, heb, hic, hdc, hwhami⟩ := hi
  unfold xrVectorException
  split
  · show resetCr m.proc i = m.proc.cr i
    unfold resetCr
    rw [if_neg hrs, if_neg heb, if_neg hic, if_neg hdc, if_neg hwhami]
  · exact Function.update_of_ne hrs _ _

/-- The address a fault or a miss at `virtual` is reported with: during a miss, the one
that missed. -/
def XrProcessor.reported (p : XrProcessor) (virtual : Word) : Word :=
  if p.rs &&& rsTbmiss = 0 then virtual else p.cr crTbmissaddr

theorem itbMiss_reported (m : Machine M) (virtual : Word) (writing : Bool) :
    (tbMiss crItbtag crItbaddr excItb virtual writing m).proc.cr crTbmissaddr =
      m.proc.reported virtual := by
  have hnote : ∀ i, i ≠ crItbtag → i ≠ crItbaddr →
      (noteMiss crItbtag crItbaddr virtual writing m).proc.cr i = m.proc.cr i := by
    intro i htag haddr
    simp [noteMiss, Function.update_of_ne htag, Function.update_of_ne haddr]
  have hrs : (noteMiss crItbtag crItbaddr virtual writing m).proc.rs = m.proc.rs :=
    hnote crRs (by decide) (by decide)
  unfold tbMiss XrProcessor.reported
  extract_lets m₁ m₂ m₃
  by_cases hmiss : m.proc.rs &&& rsTbmiss = 0
  · rw [if_pos (by rw [hrs]; exact hmiss), if_pos hmiss, vector_cr _ _ (by decide)]
    simp [m₃, m₂, crTbmissaddr, crRs, crTbpc]
  · rw [if_neg (by rw [hrs]; exact hmiss), if_neg hmiss, vector_cr _ _ (by decide)]
    exact hnote crTbmissaddr (by decide) (by decide)

/-- The address that the fault of a page is reported with. -/
def XrTbeFault.reported (f : XrTbeFault) (p : XrProcessor) (virtual : Word) : Word :=
  match f with
  | .notValid => p.reported virtual
  | .protection => virtual

theorem take_reported (f : XrTbeFault) (m : Machine M) (virtual : Word) (writing : Bool) :
    (f.take m virtual writing).proc.cr crEbadaddr = f.reported m.proc virtual := by
  cases f with
  | notValid =>
      simp only [XrTbeFault.take, xrPageFault, XrTbeFault.reported, XrProcessor.reported]
      by_cases hmiss : m.proc.rs &&& rsTbmiss = 0
      · rw [if_neg (not_not.mpr hmiss), if_pos hmiss, vector_cr _ _ (by decide)]
        simp [xrPushMode, xrSetEcause, crEbadaddr, crRs, crEpc]
      · rw [if_pos hmiss, if_neg hmiss, vector_cr _ _ (by decide)]
        simp [xrSetEcause, crEbadaddr, crRs, crEpc]
  | protection =>
      simp only [XrTbeFault.take, xrProtectionFault, XrTbeFault.reported, xrBasicException]
      rw [vector_cr _ _ (by decide)]
      simp [xrPushMode, xrSetEcause, crEbadaddr, crRs, crEpc]

end

/-! ## Where the program counter leads -/

/-- What the translation of an address to fetch from comes to. -/
inductive XrFetchPlace where
  | miss
  | refused (fault : XrTbeFault)
  | found (phys : Word) (flags : BitVec 64)

/-- The ITB entry of an address: that of the last lookup, or the first that matches. -/
def XrProcessor.itbEntry (p : XrProcessor) (virtual : Word) : Option (BitVec 64) :=
  if p.itbLastVpn = vpnOf virtual then some p.itbLastResult
  else (tbScan p.itb (tbMatching (p.cr crItbtag) virtual)).map p.itb

def XrProcessor.fetchPlace (p : XrProcessor) (virtual : Word) : XrFetchPlace :=
  if p.rs &&& rsMmu ≠ 0 then
    match p.itbEntry virtual with
    | none => .miss
    | some tbe =>
        match tbeFault p tbe false with
        | some f => .refused f
        | none => .found (physOf tbe virtual) (tbe &&& 31)
  else .found virtual 0

/-- The translation of an address for instruction fetch, the same in both builds. -/
def fetchTranslation {M : Type} [ResetMem M] (m : Machine M) (virtual : Word) :
    Option (Word × BitVec 64) × Machine M :=
  match m.proc.itbEntry virtual with
  | none => (none, tbMiss crItbtag crItbaddr excItb virtual false m)
  | some tbe =>
      match tbeFault m.proc tbe false with
      | some f => (none, f.take m virtual false)
      | none =>
          (some (physOf tbe virtual, tbe &&& 31),
            { m with proc := { m.proc with itbLastVpn := vpnOf virtual, itbLastResult := tbe } })

/-- A lookup that goes by the hint, and scans the ITB without one. -/
theorem lookup_itbEntry {M : Type} [ResetMem M] {m : Machine M} {virtual : Word}
    {lookup : Option (BitVec 64) × Machine M}
    (hhint : m.proc.itbLastVpn = vpnOf virtual → lookup = (some m.proc.itbLastResult, m))
    (hscan : m.proc.itbLastVpn ≠ vpnOf virtual →
      lookup = ((xrLookupItb m virtual).1.map m.proc.itb, (xrLookupItb m virtual).2)) :
    (∃ tbe, m.proc.itbEntry virtual = some tbe ∧ lookup = (some tbe, m)) ∨
      m.proc.itbEntry virtual = none ∧
        lookup = (none, tbMiss crItbtag crItbaddr excItb virtual false m) := by
  unfold XrProcessor.itbEntry
  by_cases hvpn : m.proc.itbLastVpn = vpnOf virtual
  · rw [if_pos hvpn]
    exact .inl ⟨_, rfl, hhint hvpn⟩
  · rw [if_neg hvpn, hscan hvpn]
    unfold xrLookupItb
    cases tbScan m.proc.itb (tbMatching (m.proc.cr crItbtag) virtual) with
    | none => exact .inr ⟨rfl, rfl⟩
    | some i => exact .inl ⟨_, rfl, rfl⟩

/-- The start of an Icache line is in the page of what it holds. -/
theorem vpnOf_line (pc : Word) : vpnOf (pc &&& 0xFFFFFFF0) = vpnOf pc := by
  apply BitVec.eq_of_toNat_eq
  simp only [vpnOf, BitVec.toNat_ushiftRight, line_toNat, Nat.shiftRight_eq_div_pow]
  omega

theorem physOf_line (tbe : BitVec 64) (pc : Word) :
    physOf tbe (pc &&& 0xFFFFFFF0) = physOf tbe pc - BitVec.ofNat 32 (pc.toNat % 16) := by
  apply BitVec.eq_of_toNat_eq
  rw [BitVec.toNat_sub, physOf_toNat, physOf_toNat, line_toNat, BitVec.toNat_ofNat]
  generalize ((tbe &&& 0x1FFFFE0) <<< 7).toNat = page
  omega

theorem fetchPlace_line (p : XrProcessor) (pc : Word) :
    p.fetchPlace (pc &&& 0xFFFFFFF0) =
      match p.fetchPlace pc with
      | .found phys flags => .found (phys - BitVec.ofNat 32 (pc.toNat % 16)) flags
      | place => place := by
  have hentry : p.itbEntry (pc &&& 0xFFFFFFF0) = p.itbEntry pc := by
    simp only [XrProcessor.itbEntry, tbMatching, vpnOf_line]
  unfold XrProcessor.fetchPlace
  rw [hentry]
  by_cases hmmu : p.rs &&& rsMmu ≠ 0
  · simp only [if_pos hmmu]
    cases p.itbEntry pc with
    | none => rfl
    | some tbe =>
        simp only
        cases tbeFault p tbe false with
        | some f => rfl
        | none =>
            simp only
            rw [physOf_line]
  · simp only [if_neg hmmu]
    congr 1
    apply BitVec.eq_of_toNat_eq
    have hlt := pc.isLt
    simp only [line_toNat, BitVec.toNat_sub, BitVec.toNat_ofNat]
    omega

/-! ## Faults -/

section

variable {M : Type} [XrBuild M]

/-- The exception of `XrDecodeInstructions`, after which the machine is this one. -/
def FailsWith (m : Machine M) (c : XrIblockCache) (hazard : Option Nat) (m' : Machine M) : Prop :=
  ∃ c', xrDecodeInstructions m c hazard = some (none, m', c')

def Fails (m : Machine M) (c : XrIblockCache) (hazard : Option Nat) : Prop :=
  ∃ m', FailsWith m c hazard m'

/-- The block that is cached for the program counter. -/
def blockAt (m : Machine M) (c : XrIblockCache) : Option Nat :=
  c.xrLookupIblock m.proc.pc m.proc.xrCurrentAsid

/-- The instruction at the program counter is found, at an address that can be read. -/
def Fetchable (m : Machine M) (readable : Word → Prop) : Prop :=
  ∃ phys flags, m.proc.fetchPlace m.proc.pc = .found phys flags ∧ readable phys

/-- Every word that was fetched is what memory has at its address. -/
def FetchesOnly (m : Machine M) (held : Word → Word → Prop) : Prop :=
  ∀ f m' phys flags, XrBuild.fetch m = some (some f, m') →
    m.proc.fetchPlace m.proc.pc = .found phys flags →
    ∀ (k : Nat) (w : Word), f.words[k]? = some w → held (phys + BitVec.ofNat 32 (4 * k)) w

/-- The faults are those of the instruction at the program counter, and say so. -/
structure FaultsAtPc (m : Machine M) (c : XrIblockCache) (hazard : Option Nat)
    (readable : Word → Prop) (held : Word → Word → Prop) : Prop where
  fails_iff : Fails m c hazard ↔ ¬Fetchable m readable
  words : blockAt m c = none → FetchesOnly m held
  page : ∀ m', FailsWith m c hazard m' →
    blockAt m c ≠ none ∨ (∃ f, m.proc.fetchPlace m.proc.pc = .refused f) →
    m'.proc.cr crEbadaddr = m.proc.pc
  miss : ∀ m', FailsWith m c hazard m' → blockAt m c = none →
    m.proc.fetchPlace m.proc.pc = .miss → m'.proc.cr crTbmissaddr = m.proc.pc

/-- The faults of a build that may fetch more than the instruction at the program counter.
`alone` is when the rest of the fetch does not change whether it fails, `within` when the
rest is there, `start` when the program counter is the address that is translated. -/
structure ExactFaults (m : Machine M) (c : XrIblockCache) (hazard : Option Nat)
    (readable : Word → Prop) (held : Word → Word → Prop) (alone within start : Prop) : Prop where
  raised : ∀ m', FailsWith m c hazard m' → Faulted m m'
  block_iff : ∀ i, blockAt m c = some i →
    (Fails m c hazard ↔ (c.iblocks i).pteFlags &&& pteKernel ≠ 0 ∧ m.proc.rs &&& rsUser ≠ 0)
  block : ∀ i m', blockAt m c = some i → FailsWith m c hazard m' →
    m'.proc.cr crEbadaddr = m.proc.pc
  fails_iff : blockAt m c = none → alone → (Fails m c hazard ↔ ¬Fetchable m readable)
  words : blockAt m c = none → within → FetchesOnly m held
  page : ∀ f m', blockAt m c = none → start → m.proc.fetchPlace m.proc.pc = .refused f →
    FailsWith m c hazard m' → m'.proc.cr crEbadaddr = f.reported m.proc m.proc.pc
  miss : ∀ m', blockAt m c = none → start → m.proc.fetchPlace m.proc.pc = .miss →
    FailsWith m c hazard m' → m'.proc.cr crTbmissaddr = m.proc.reported m.proc.pc

variable {m m' : Machine M} {c : XrIblockCache} {hazard : Option Nat}
  {readable : Word → Prop} {held : Word → Word → Prop} {alone within start : Prop}

/-- Away from the miss handlers, what is not cached faults at the program counter. -/
theorem ExactFaults.faultsAtPc (h : ExactFaults m c hazard readable held alone within start)
    (hblock : blockAt m c = none) (hmiss : m.proc.rs &&& rsTbmiss = 0) (halone : alone)
    (hwithin : within) (hstart : start) : FaultsAtPc m c hazard readable held where
  fails_iff := h.fails_iff hblock halone
  words _ := h.words hblock hwithin
  page m' hfails hpage := by
    rcases hpage with hblock' | ⟨f, hplace⟩
    · exact absurd hblock hblock'
    · rw [h.page f m' hblock hstart hplace hfails]
      cases f with
      | notValid => exact if_pos hmiss
      | protection => rfl
  miss m' hfails _ hplace := by
    rw [h.miss m' hblock hstart hplace hfails]
    exact if_pos hmiss

theorem failsWith_block {i : Nat} (h : blockAt m c = some i) :
    FailsWith m c hazard m' ↔
      ((c.iblocks i).pteFlags &&& pteKernel ≠ 0 ∧ m.proc.rs &&& rsUser ≠ 0) ∧
      m' = xrBasicException (m.setCr crEbadaddr m.proc.pc) excPgf m.proc.pc := by
  have hlook : c.xrLookupIblock m.proc.pc m.proc.xrCurrentAsid = some i := h
  unfold FailsWith xrDecodeInstructions
  simp only [hlook]
  by_cases hdenied : (c.iblocks i).pteFlags &&& pteKernel ≠ 0 ∧ m.proc.rs &&& rsUser ≠ 0
  · rw [if_pos hdenied]
    constructor
    · rintro ⟨c', hrun⟩
      cases hrun
      exact ⟨hdenied, rfl⟩
    · rintro ⟨-, rfl⟩
      exact ⟨c, rfl⟩
  · rw [if_neg hdenied]
    constructor
    · rintro ⟨c', hrun⟩
      cases hrun
    · rintro ⟨hdenied', -⟩
      exact absurd hdenied' hdenied

theorem failsWith_fetch (h : blockAt m c = none) :
    FailsWith m c hazard m' ↔ XrBuild.fetch m = some (none, m') := by
  have hlook : c.xrLookupIblock m.proc.pc m.proc.xrCurrentAsid = none := h
  unfold FailsWith xrDecodeInstructions
  simp only [hlook]
  cases hfetch : XrBuild.fetch m with
  | none =>
      constructor
      · rintro ⟨c', hrun⟩
        cases hrun
      · intro hrun
        cases hrun
  | some r =>
      obtain ⟨f, m₁⟩ := r
      cases f with
      | none =>
          constructor
          · rintro ⟨c', hrun⟩
            cases hrun
            rfl
          · intro hrun
            cases hrun
            exact ⟨c, rfl⟩
      | some f =>
          constructor
          · rintro ⟨c', hrun⟩
            simp only at hrun
            cases hdone : c.decodeFetched hazard m.proc.pc m.proc.xrCurrentAsid f m₁.tbmiss with
            | none =>
                rw [hdone] at hrun
                cases hrun
            | some r =>
                rw [hdone] at hrun
                cases hrun
          · intro hrun
            cases hrun

/-- A fetch that translates `virtual`, which leads to this place, and has `words` of the
physical address. -/
structure FetchesFrom (m : Machine M) (virtual : Word) (place : XrFetchPlace)
    (words : Word → BitVec 64 → Option XrFetched) : Prop where
  miss : place = .miss →
    XrBuild.fetch m = some (none, tbMiss crItbtag crItbaddr excItb virtual false m)
  refused : ∀ f, place = .refused f → XrBuild.fetch m = some (none, f.take m virtual false)
  found : ∀ phys flags, place = .found phys flags →
    ∃ m', XrBuild.fetch m = some (words phys flags, m')

namespace FetchesFrom

variable {virtual : Word} {words : Word → BitVec 64 → Option XrFetched}

theorem missing
    (h : XrBuild.fetch m = some (none, tbMiss crItbtag crItbaddr excItb virtual false m)) :
    FetchesFrom m virtual .miss words := by
  refine ⟨fun _ => h, ?_, ?_⟩
  · intro f hplace
    cases hplace
  · intro phys flags hplace
    cases hplace

theorem refusing {f : XrTbeFault} (h : XrBuild.fetch m = some (none, f.take m virtual false)) :
    FetchesFrom m virtual (.refused f) words := by
  refine ⟨?_, ?_, ?_⟩
  · intro hplace
    cases hplace
  · intro f' hplace
    cases hplace
    exact h
  · intro phys flags hplace
    cases hplace

theorem finding {phys : Word} {flags : BitVec 64} {r : Option XrFetched × Machine M}
    (h : XrBuild.fetch m = some r) (hr : r.1 = words phys flags) :
    FetchesFrom m virtual (.found phys flags) words := by
  refine ⟨?_, ?_, ?_⟩
  · intro hplace
    cases hplace
  · intro f hplace
    cases hplace
  · intro phys' flags' hplace
    cases hplace
    exact ⟨r.2, by rw [h, ← hr]⟩

end FetchesFrom

/-- What both builds do with the translation of an address. -/
theorem fetchesFrom_translate {virtual : Word} {words : Word → BitVec 64 → Option XrFetched}
    (rest : Machine M → Word → Word → BitVec 64 → Option XrFetched × Machine M)
    (hon : m.proc.rs &&& rsMmu ≠ 0 → XrBuild.fetch m = some
      (match fetchTranslation m virtual with
      | (none, m) => (none, m)
      | (some (phys, flags), m) => rest m m.proc.pc phys flags))
    (hoff : m.proc.rs &&& rsMmu = 0 → XrBuild.fetch m = some (rest m m.proc.pc virtual 0))
    (hrest : ∀ m₁ phys flags, m₁.mem = m.mem → m₁.proc.id = m.proc.id →
      (rest m₁ m.proc.pc phys flags).1 = words phys flags) :
    FetchesFrom m virtual (m.proc.fetchPlace virtual) words := by
  unfold XrProcessor.fetchPlace
  unfold fetchTranslation at hon
  by_cases hmmu : m.proc.rs &&& rsMmu ≠ 0
  · replace hon := hon hmmu
    rw [if_pos hmmu]
    cases hentry : m.proc.itbEntry virtual with
    | none =>
        rw [hentry] at hon
        exact .missing hon
    | some tbe =>
        rw [hentry] at hon
        cases hfault : tbeFault m.proc tbe false with
        | some f =>
            simp only [hfault] at hon ⊢
            exact .refusing hon
        | none =>
            simp only [hfault] at hon ⊢
            refine .finding hon ?_
            exact hrest _ _ _ rfl rfl
  · rw [if_neg hmmu]
    refine .finding (hoff (not_not.mp hmmu)) ?_
    exact hrest m virtual 0 rfl rfl

theorem FetchesFrom.exactFaults {virtual : Word} {words : Word → BitVec 64 → Option XrFetched}
    (h : FetchesFrom m virtual (m.proc.fetchPlace m.proc.pc) words)
    (hstart : start → virtual = m.proc.pc)
    (halone : alone → ∀ phys flags, m.proc.fetchPlace m.proc.pc = .found phys flags →
      (words phys flags = none ↔ ¬readable phys))
    (hheld : within → ∀ phys flags f, m.proc.fetchPlace m.proc.pc = .found phys flags →
      words phys flags = some f → ∀ (k : Nat) (w : Word), f.words[k]? = some w →
        held (phys + BitVec.ofNat 32 (4 * k)) w) :
    ExactFaults m c hazard readable held alone within start where
  raised m' hfails := by
    obtain ⟨c', hrun⟩ := hfails
    exact (decode_fault hrun).1
  block_iff i hi := by
    constructor
    · rintro ⟨m', hfails⟩
      exact ((failsWith_block hi).mp hfails).1
    · intro hdenied
      exact ⟨_, (failsWith_block hi).mpr ⟨hdenied, rfl⟩⟩
  block i m' hi hfails := by
    obtain ⟨-, rfl⟩ := (failsWith_block hi).mp hfails
    exact take_reported .protection m m.proc.pc false
  fails_iff hblock hal := by
    constructor
    · rintro ⟨m', hfails⟩ ⟨phys, flags, hplace, hread⟩
      obtain ⟨m₁, hfetch⟩ := h.found phys flags hplace
      rw [failsWith_fetch hblock, hfetch] at hfails
      have hnone := congrArg Prod.fst (Option.some.inj hfails)
      exact (halone hal phys flags hplace).mp hnone hread
    · intro hnot
      -- The translation ends the fetch, or the words do.
      cases hplace : m.proc.fetchPlace m.proc.pc with
      | miss => exact ⟨_, (failsWith_fetch hblock).mpr (h.miss hplace)⟩
      | refused f => exact ⟨_, (failsWith_fetch hblock).mpr (h.refused f hplace)⟩
      | found phys flags =>
          obtain ⟨m₁, hfetch⟩ := h.found phys flags hplace
          have hnone := (halone hal phys flags hplace).mpr
            fun hread => hnot ⟨phys, flags, hplace, hread⟩
          rw [hnone] at hfetch
          exact ⟨m₁, (failsWith_fetch hblock).mpr hfetch⟩
  words _ hwithin f m' phys flags hfetch hplace := by
    obtain ⟨m₁, hfetch'⟩ := h.found phys flags hplace
    rw [hfetch'] at hfetch
    exact hheld hwithin phys flags f hplace (congrArg Prod.fst (Option.some.inj hfetch))
  page f m' hblock hst hplace hfails := by
    rw [failsWith_fetch hblock, h.refused f hplace, hstart hst] at hfails
    obtain ⟨-, rfl⟩ := Prod.mk.inj (Option.some.inj hfails)
    exact take_reported f m m.proc.pc false
  miss m' hblock hst hplace hfails := by
    rw [failsWith_fetch hblock, h.miss hplace, hstart hst] at hfails
    obtain ⟨-, rfl⟩ := Prod.mk.inj (Option.some.inj hfails)
    exact itbMiss_reported m m.proc.pc false

end

/-! ## The fast build -/

section

variable {D : Type} [EBusDevices D]

/-- What the fast build has words of: what can be pointed at, where the bus reads them. -/
def HostReadable (m : Machine (XrFastMem (XrStation D))) (phys : Word) : Prop :=
  (m.mem.bus.pointer phys.toNat).isSome ∧
    (EBus.read m.mem.bus m.proc phys.toNat 4).reply.isSome

/-- The word that the bus reads. -/
def BusHolds (m : Machine (XrFastMem (XrStation D))) (phys w : Word) : Prop :=
  ∃ bytes, (EBus.read m.mem.bus m.proc phys.toNat 4).reply = some bytes ∧ w = zext bytes 4

/-- RAM does not end inside the instruction at the program counter. -/
def WordWhole (m : Machine (XrFastMem (XrStation D))) : Prop :=
  ∀ phys flags, m.proc.fetchPlace m.proc.pc = .found phys flags → phys.toNat < ramMaximum →
    ramOffsetOf phys.toNat < m.mem.bus.ram.size (ramSlotOf phys.toNat) →
    ramOffsetOf phys.toNat + 4 ≤ m.mem.bus.ram.size (ramSlotOf phys.toNat)

/-- RAM does not end inside the page of the program counter. -/
def PageWhole (m : Machine (XrFastMem (XrStation D))) : Prop :=
  ∀ phys flags, m.proc.fetchPlace m.proc.pc = .found phys flags → phys.toNat < ramMaximum →
    ramOffsetOf phys.toNat < m.mem.bus.ram.size (ramSlotOf phys.toNat) →
    ramOffsetOf phys.toNat / 4096 * 4096 + 4096 ≤ m.mem.bus.ram.size (ramSlotOf phys.toNat)

/-- The words of the fast build. -/
def hostFetched (m : Machine (XrFastMem (XrStation D))) (phys : Word) (flags : BitVec 64) :
    Option XrFetched :=
  (eBusTranslate m.mem.bus phys).map fun ir =>
    ⟨hostWords m.mem.bus ir (xrInstCount m.proc.pc m.proc.pc), flags⟩

variable {m : Machine (XrFastMem (XrStation D))}

theorem fetchPlace_offset {p : XrProcessor} {pc phys : Word} {flags : BitVec 64}
    (h : p.fetchPlace pc = .found phys flags) : phys.toNat % 4096 = pc.toNat % 4096 := by
  unfold XrProcessor.fetchPlace at h
  split at h
  · split at h
    · cases h
    · split at h
      · cases h
      · cases h
        exact physOf_offset _ pc
  · cases h
    rfl

theorem xrTranslateIstream_eq {β : Type} (m : Machine (XrFastMem β)) (virtual : Word) :
    xrTranslateIstream m virtual = fetchTranslation m virtual := by
  unfold xrTranslateIstream fetchTranslation
  rcases @lookup_itbEntry _ _ m virtual (istreamLookup m virtual) (fun hvpn => if_pos hvpn)
      istreamLookup_scan with ⟨tbe, hentry, hlookup⟩ | ⟨hentry, hlookup⟩
  · rewrite [hentry, hlookup]
    rfl
  · rewrite [hentry, hlookup]
    rfl

theorem fastFetch_from (m : Machine (XrFastMem (XrStation D))) :
    FetchesFrom m m.proc.pc (m.proc.fetchPlace m.proc.pc) (hostFetched m) := by
  refine fetchesFrom_translate fetchHost ?_ ?_ ?_
  · intro hmmu
    show some (fastFetch m) = _
    rw [fastFetch, if_pos hmmu, xrTranslateIstream_eq]
    rcases fetchTranslation m m.proc.pc with ⟨_ | ⟨phys, flags⟩, m₁⟩
    · rfl
    · rfl
  · intro hmmu
    show some (fastFetch m) = _
    rw [fastFetch, if_neg (not_not.mpr hmmu)]
  · intro m₁ phys flags hmem _
    unfold fetchHost hostFetched
    rw [hmem]
    cases eBusTranslate m.mem.bus phys with
    | none => rfl
    | some ir => rfl

theorem xrInstCount_pos {pc : Word} (hpc : Aligned pc) : 0 < xrInstCount pc pc := by
  have hpc4 := aligned_mod.mp hpc
  rw [xrInstCount_eq rfl]
  omega

theorem word_place {p : XrProcessor} {pc phys : Word} {flags : BitVec 64} {k : Nat}
    (hplace : p.fetchPlace pc = .found phys flags) (hpc : Aligned pc)
    (hk : k < xrInstCount pc pc) :
    (phys + BitVec.ofNat 32 (4 * k)).toNat = phys.toNat + 4 * k ∧
      (phys.toNat + 4 * k) % 4096 + 4 ≤ 4096 ∧ (phys.toNat + 4 * k) / 4096 = phys.toNat / 4096 := by
  have hoff := fetchPlace_offset hplace
  have hpc4 := aligned_mod.mp hpc
  rw [xrInstCount_eq rfl] at hk
  have hlt := phys.isLt
  refine ⟨?_, by omega, by omega⟩
  rw [BitVec.toNat_add, BitVec.toNat_ofNat]
  omega

theorem hostFetched_none {phys : Word} {flags : BitVec 64} :
    hostFetched m phys flags = none ↔ m.mem.bus.pointer phys.toNat = none := by
  have htranslate : EBusHost.translate m.mem.bus phys = (m.mem.bus.pointer phys.toNat).isSome := rfl
  unfold hostFetched eBusTranslate
  rw [htranslate]
  cases m.mem.bus.pointer phys.toNat with
  | none => exact ⟨fun _ => rfl, fun _ => rfl⟩
  | some q =>
      constructor
      · intro h
        cases h
      · intro h
        cases h

theorem hostFetched_some {phys : Word} {flags : BitVec 64} {f : XrFetched}
    (h : hostFetched m phys flags = some f) :
    (∃ q, m.mem.bus.pointer phys.toNat = some q) ∧
      f.words = hostWords m.mem.bus phys (xrInstCount m.proc.pc m.proc.pc) := by
  cases hq : m.mem.bus.pointer phys.toNat with
  | none =>
      rw [hostFetched_none.mpr hq] at h
      cases h
  | some q =>
      have htranslate : EBusHost.translate m.mem.bus phys = true := by
        show (m.mem.bus.pointer phys.toNat).isSome = true
        rw [hq]
        rfl
      rw [hostFetched, eBusTranslate, if_pos htranslate] at h
      cases h
      exact ⟨⟨q, rfl⟩, rfl⟩

/-- The faults of the fast build. -/
theorem fast_exactFaults (m : Machine (XrFastMem (XrStation D))) (c : XrIblockCache)
    (hazard : Option Nat) (hpc : Aligned m.proc.pc) :
    ExactFaults m c hazard (HostReadable m) (BusHolds m) (WordWhole m) (PageWhole m) True := by
  obtain ⟨hbranch, hmax, hslot, hrom, hsize⟩ := memoryMap
  refine (fastFetch_from m).exactFaults (fun _ => rfl) ?_ ?_
  · intro hwhole phys flags hplace
    rw [hostFetched_none]
    constructor
    · rintro hnone ⟨hsome, -⟩
      rw [hnone] at hsome
      cases hsome
    · intro hnot
      cases hq : m.mem.bus.pointer phys.toNat with
      | none => rfl
      | some q =>
          refine absurd ⟨by rw [hq]; rfl, ?_⟩ hnot
          obtain ⟨-, hend, -⟩ := word_place hplace hpc (xrInstCount_pos hpc)
          obtain ⟨q', hpage⟩ := pointer_pageStart hq phys.isLt
          have hfits : phys.toNat < ramMaximum →
              ramOffsetOf phys.toNat + 4 ≤ m.mem.bus.ram.size (ramSlotOf phys.toNat) := by
            intro hram
            rcases XrStation.pointer_cases hq phys.isLt with ⟨-, hoff, -⟩ | ⟨hge, -⟩
            · exact hwhole phys flags hplace hram hoff
            · omega
          obtain ⟨bytes, hread, -⟩ := busRead_host hpage phys.isLt (by omega) hend hfits m.proc
          rw [hread]
          rfl
  · intro hpage phys flags f hplace hwords k w hw
    obtain ⟨⟨q, hq⟩, hf⟩ := hostFetched_some hwords
    rw [hf] at hw
    have hk : k < xrInstCount m.proc.pc m.proc.pc := by
      by_contra hge
      rw [hostWords, List.getElem?_eq_none (by simpa using hge)] at hw
      cases hw
    obtain ⟨haddress, hend, hsame⟩ := word_place hplace hpc hk
    obtain ⟨q', hstart⟩ := pointer_pageStart hq phys.isLt
    have hlt := (phys + BitVec.ofNat 32 (4 * k)).isLt
    rw [haddress] at hlt
    rw [← hsame] at hstart
    have hfits : phys.toNat + 4 * k < ramMaximum →
        ramOffsetOf (phys.toNat + 4 * k) + 4 ≤
          m.mem.bus.ram.size (ramSlotOf (phys.toNat + 4 * k)) := by
      intro hram
      rcases XrStation.pointer_cases hq phys.isLt with ⟨hphys, hoff, -⟩ | ⟨hge, -⟩
      · have hwhole := hpage phys flags hplace hphys hoff
        have hslots : ramSlotOf (phys.toNat + 4 * k) = ramSlotOf phys.toNat := by
          unfold ramSlotOf
          omega
        have hoffset : ramOffsetOf (phys.toNat + 4 * k) / 4096 = ramOffsetOf phys.toNat / 4096 := by
          unfold ramOffsetOf
          omega
        rw [hslots]
        unfold ramOffsetOf at *
        omega
      · omega
    obtain ⟨bytes, hread, hvalue⟩ := busRead_host hstart hlt (by omega) hend hfits m.proc
    refine ⟨bytes, ?_, ?_⟩
    · rw [haddress, hread]
    · rw [← hvalue]
      simp only [hostWords, List.getElem?_map, List.getElem?_range hk, Option.map_some] at hw
      exact (Option.some.inj hw).symm

end

/-! ## The cached build -/

section

variable {m : Machine (XrCachedMem LineRam)}

/-- Where the line of the program counter can be had, so can the others of its fetch. -/
def LinesWhole (m : Machine (XrCachedMem LineRam)) : Prop :=
  ∀ phys flags, m.proc.fetchPlace m.proc.pc = .found phys flags → (fetchedLine m phys).isSome →
    ∀ k, k < fetchedLineCount m.proc.pc → (fetchedLine m (phys + BitVec.ofNat 32 (16 * k))).isSome

/-- The words of the cached build. -/
def lineFetched (m : Machine (XrCachedMem LineRam)) (phys : Word) (flags : BitVec 64) :
    Option XrFetched :=
  (fetchIcache m m.proc.pc (phys - BitVec.ofNat 32 (m.proc.pc.toNat % 16)) flags).1

theorem xrTranslate_fetch (m : Machine (XrCachedMem LineRam)) (virtual : Word) :
    xrTranslate m virtual false true = fetchTranslation m virtual := by
  unfold xrTranslate fetchTranslation
  rcases @lookup_itbEntry _ _ m virtual (translateLookup m virtual false true)
      (fun hvpn => if_pos hvpn) (fun hvpn => if_neg hvpn) with
    ⟨tbe, hentry, hlookup⟩ | ⟨hentry, hlookup⟩
  · rewrite [hentry, hlookup]
    rfl
  · rewrite [hentry, hlookup]
    rfl

theorem fetchIcache_congr {m₁ : Machine (XrCachedMem LineRam)} (hmem : m₁.mem = m.mem)
    (hid : m₁.proc.id = m.proc.id) (pc fetchpc : Word) (flags : BitVec 64) :
    (fetchIcache m₁ pc fetchpc flags).1 = (fetchIcache m pc fetchpc flags).1 := by
  have hline : ∀ address, fetchedLine m₁ address = fetchedLine m address := by
    intro address
    unfold fetchedLine
    rw [hmem, hid]
  rw [fetchIcache_eq, fetchIcache_eq, fetchedLines_congr fun k _ => hline _]

theorem cachedFetch_from (m : Machine (XrCachedMem LineRam)) :
    FetchesFrom m (m.proc.pc &&& 0xFFFFFFF0) (m.proc.fetchPlace m.proc.pc) (lineFetched m) := by
  have h : FetchesFrom m (m.proc.pc &&& 0xFFFFFFF0)
      (m.proc.fetchPlace (m.proc.pc &&& 0xFFFFFFF0))
      (fun phys flags => (fetchIcache m m.proc.pc phys flags).1) := by
    refine fetchesFrom_translate fetchIcache ?_ ?_ ?_
    · intro hmmu
      show some (cachedFetch m) = _
      unfold cachedFetch
      extract_lets line
      rw [if_pos hmmu, xrTranslate_fetch]
      rcases fetchTranslation m line with ⟨_ | ⟨phys, flags⟩, m₁⟩
      · rfl
      · rfl
    · intro hmmu
      show some (cachedFetch m) = _
      unfold cachedFetch
      rw [if_neg (not_not.mpr hmmu)]
    · intro m₁ phys flags hmem hid
      exact fetchIcache_congr hmem hid _ _ _
  -- The line is in the page of the program counter.
  rw [fetchPlace_line] at h
  cases hplace : m.proc.fetchPlace m.proc.pc with
  | miss =>
      rw [hplace] at h
      exact .missing (h.miss rfl)
  | refused f =>
      rw [hplace] at h
      exact .refusing (h.refused f rfl)
  | found phys flags =>
      rw [hplace] at h
      obtain ⟨m₁, hfetch⟩ := h.found _ _ rfl
      exact .finding hfetch rfl

theorem fetchedLine_tag {a b : Word} (h : xrLineTag a.toNat = xrLineTag b.toNat) :
    fetchedLine m a = fetchedLine m b := by
  simp only [fetchedLine, h]

/-- The faults of the cached build. -/
theorem cached_exactFaults (m : Machine (XrCachedMem LineRam)) (c : XrIblockCache)
    (hazard : Option Nat) (hpc : Aligned m.proc.pc) :
    ExactFaults m c hazard (fun phys => (fetchedLine m phys).isSome)
      (fun phys w => fetchedWord m phys = some w) (LinesWhole m) True
      (m.proc.pc.toNat % 16 = 0) := by
  have hpc4 := aligned_mod.mp hpc
  -- A line of the fetch is the one that holds the address so far from the program counter.
  have hstart : ∀ phys flags, m.proc.fetchPlace m.proc.pc = .found phys flags →
      phys.toNat % 16 = m.proc.pc.toNat % 16 := by
    intro phys flags hplace
    have hoff := fetchPlace_offset hplace
    omega
  have hlines : ∀ phys flags, m.proc.fetchPlace m.proc.pc = .found phys flags → ∀ k,
      fetchedLine m (phys - BitVec.ofNat 32 (m.proc.pc.toNat % 16) + BitVec.ofNat 32 (16 * k)) =
        fetchedLine m (phys + BitVec.ofNat 32 (16 * k)) := by
    intro phys flags hplace k
    have hoff := hstart phys flags hplace
    have hlt := phys.isLt
    apply fetchedLine_tag
    simp only [xrLineTag, BitVec.toNat_add, BitVec.toNat_sub, BitVec.toNat_ofNat]
    omega
  refine (cachedFetch_from m).exactFaults ?_ ?_ ?_
  · intro hzero
    apply BitVec.eq_of_toNat_eq
    rw [line_toNat]
    omega
  · intro hwhole phys flags hplace
    have hpos := (fetchedLineCount_bounds m.proc.pc).1
    have hfirst : phys + BitVec.ofNat 32 (16 * 0) = phys := by simp
    rw [lineFetched, fetchIcache_eq, Option.map_eq_none_iff, fetchedLines_none]
    constructor
    · rintro ⟨k, hk, hnone⟩ hsome
      have hk' := hwhole phys flags hplace hsome k hk
      rw [← hlines phys flags hplace, hnone] at hk'
      cases hk'
    · intro hnot
      refine ⟨0, hpos, ?_⟩
      rw [hlines phys flags hplace, hfirst]
      exact Option.not_isSome_iff_eq_none.mp hnot
  · intro _ phys flags f hplace hwords k w hw
    have hoff := hstart phys flags hplace
    have hlt := phys.isLt
    have hround : (phys - BitVec.ofNat 32 (m.proc.pc.toNat % 16)).toNat % 16 = 0 := by
      rw [BitVec.toNat_sub, BitVec.toNat_ofNat]
      omega
    have hword := fetchIcache_words hpc4 hround hwords hw
    have hsum : phys - BitVec.ofNat 32 (m.proc.pc.toNat % 16) +
        BitVec.ofNat 32 (m.proc.pc.toNat % 16 + 4 * k) = phys + BitVec.ofNat 32 (4 * k) := by
      rw [BitVec.ofNat_add, ← BitVec.add_assoc, BitVec.sub_add_cancel]
    rwa [hsum] at hword

/-- The RAM slots as they answer to lines: a line that the slot does not hold whole is not
there. -/
def RamSlots.lines (ram : RamSlots) : LineRam where
  populated line :=
    decide (line < ramMaximum ∧ ramOffsetOf line + 16 ≤ ram.size (ramSlotOf line))
  bytes a := ram.bytes (ramSlotOf a) (ramOffsetOf a)

/-- `RAMRead` of a line, whatever the sizes of the slots. -/
theorem ramRead_lines (ram : RamSlots) (p : XrProcessor) {line : Nat} (hline : line % 16 = 0)
    (hram : line < ramMaximum) (dest : Nat → Byte) :
    match (EBus.read ram.lines p line 16).reply with
    | none => ramRead ram line dest 16 = none
    | some bytes => ∃ out, ramRead ram line dest 16 = some out ∧ ∀ k, k < 16 → out k = bytes k := by
  have htag : xrLineTag line = line := by
    unfold xrLineTag
    omega
  have hreply : (EBus.read ram.lines p line 16).reply =
      if line < ramMaximum ∧ ramOffsetOf line + 16 ≤ ram.size (ramSlotOf line) then
        some fun k => ram.bytes (ramSlotOf (line + k)) (ramOffsetOf (line + k)) else none := by
    show (if ram.lines.populated (xrLineTag line) then _ else none) = _
    rw [htag]
    by_cases hfits : line < ramMaximum ∧ ramOffsetOf line + 16 ≤ ram.size (ramSlotOf line)
    · have hpop : ram.lines.populated line = true := decide_eq_true hfits
      rw [if_pos hfits, if_pos hpop]
      rfl
    · rw [if_neg hfits, if_neg (by simpa [RamSlots.lines] using hfits)]
  rw [hreply]
  by_cases hfits : ramOffsetOf line + 16 ≤ ram.size (ramSlotOf line)
  · rw [if_pos ⟨hram, hfits⟩]
    refine ⟨_, by rw [ramRead, if_neg (Nat.not_lt_of_le hfits)], fun k hk => ?_⟩
    -- A line is in one slot.
    have hslot : ramSlotOf (line + k) = ramSlotOf line := by
      unfold ramSlotOf
      omega
    have hoff : ramOffsetOf (line + k) = ramOffsetOf line + k := by
      unfold ramOffsetOf
      omega
    simp only [hslot, hoff]
    exact copyFrom_of_lt hk
  · rw [if_neg fun h => hfits h.2]
    exact if_pos (Nat.lt_of_not_le hfits)

end

/-! ## Both builds -/

/-- What `XrDecodeInstructions` faults at. -/
theorem fetchFaults_exact {D : Type} [EBusDevices D] (c : XrIblockCache) (hazard : Option Nat) :
    (∀ m : Machine (XrCachedMem LineRam), Aligned m.proc.pc →
      ExactFaults m c hazard (fun phys => (fetchedLine m phys).isSome)
        (fun phys w => fetchedWord m phys = some w) (LinesWhole m) True
        (m.proc.pc.toNat % 16 = 0)) ∧
    (∀ m : Machine (XrFastMem (XrStation D)), Aligned m.proc.pc →
      ExactFaults m c hazard (HostReadable m) (BusHolds m) (WordWhole m) (PageWhole m) True) :=
  ⟨fun m hpc => cached_exactFaults m c hazard hpc, fun m hpc => fast_exactFaults m c hazard hpc⟩

/-- A program counter in the middle of a line, all caches empty. -/
def midLine : Machine (XrCachedMem LineRam) :=
  let m := (XrCachedSys.cold 1 LineRam.zeroed).machine 0
  { m with proc := { m.proc with pc := 0x1008 } }

theorem fetchFaults_exact_started :
    ExactFaults midLine .initialBlockCache none (fun phys => (fetchedLine midLine phys).isSome)
      (fun phys w => fetchedWord midLine phys = some w) (LinesWhole midLine) True
      (midLine.proc.pc.toNat % 16 = 0) ∧
    ExactFaults (stationMachine 0x400000) .initialBlockCache none
      (HostReadable (stationMachine 0x400000)) (BusHolds (stationMachine 0x400000))
      (WordWhole (stationMachine 0x400000)) (PageWhole (stationMachine 0x400000)) True :=
  ⟨(@fetchFaults_exact Unit _ .initialBlockCache none).1 midLine (by decide),
    (@fetchFaults_exact Unit _ .initialBlockCache none).2 (stationMachine 0x400000) (by decide)⟩

/-- A processor with the MMU and a vector base, at 0x2000, whose last lookup is forgotten. -/
def mappedMachine (rs : Word) : Machine (XrFastMem (XrStation Unit)) :=
  let m := ((stationMachine 0x400000).setCr crRs (rsMmu ||| rs)).setCr crEb 0x1000
  { m with proc := { m.proc with pc := 0x2000, itbLastVpn := -1 } }

/-- The handler of a miss at 0x5000 jumps to a page whose ITB entry is not valid. -/
def missHandler : Machine (XrFastMem (XrStation Unit)) :=
  let m := (mappedMachine rsTbmiss).setCr crTbmissaddr 0x5000
  { m with proc := { m.proc with itb := Function.update m.proc.itb 4 0x200000000 } }

/-- The cache with a block of 0x2000. -/
def cachedBlock : XrIblockCache := XrIblockCache.initialBlockCache.afterDecode none 0x2000 [0x38]

theorem cachedBlock_reach : cachedBlock.Reach :=
  (XrIblockCache.Reach.start XrIblockCache.initial_initialBlockCache).afterDecode none 0x2000 [0x38]
    (by decide +kernel)

set_option maxRecDepth 20000 in
theorem missHandler_block : blockAt missHandler .initialBlockCache = none := by
  rfl

/-- The fault of the miss handler is reported as one at 0x5000. -/
theorem missHandler_reported (readable : Word → Prop) (held : Word → Word → Prop) :
    ¬FaultsAtPc missHandler .initialBlockCache none readable held := by
  intro h
  have hplace : missHandler.proc.fetchPlace missHandler.proc.pc = .refused .notValid := rfl
  have hfails : FailsWith missHandler .initialBlockCache none _ :=
    (failsWith_fetch missHandler_block).mpr
      ((fastFetch_from missHandler).refused .notValid hplace)
  have hpage := h.page _ hfails (.inr ⟨.notValid, hplace⟩)
  rw [take_reported] at hpage
  revert hpage
  decide

/-- A block is executed without an ITB entry for its page. -/
theorem cachedBlock_found (readable : Word → Prop) (held : Word → Word → Prop) :
    ¬FaultsAtPc (mappedMachine 0) cachedBlock none readable held := by
  intro h
  have hplace : (mappedMachine 0).proc.fetchPlace (mappedMachine 0).proc.pc = .miss := rfl
  have hnot : ¬Fetchable (mappedMachine 0) readable := by
    rintro ⟨phys, flags, hfound, -⟩
    rw [hplace] at hfound
    cases hfound
  obtain ⟨m', hfails⟩ := h.fails_iff.mpr hnot
  have hblock : blockAt (mappedMachine 0) cachedBlock = some 2047 := by
    unfold blockAt
    decide +kernel
  have hflags : (cachedBlock.iblocks 2047).pteFlags &&& pteKernel = 0 := by decide +kernel
  exact ((failsWith_block hblock).mp hfails).1.1 hflags

theorem faultsAtPc_fails :
    (Aligned missHandler.proc.pc ∧
      ¬FaultsAtPc missHandler .initialBlockCache none
        (fun phys => (EBus.read missHandler.mem.bus missHandler.proc phys.toNat 4).reply.isSome)
        (BusHolds missHandler)) ∧
    cachedBlock.Reach ∧ Aligned (mappedMachine 0).proc.pc ∧
      ¬FaultsAtPc (mappedMachine 0) cachedBlock none
        (fun phys => (EBus.read (mappedMachine 0).mem.bus (mappedMachine 0).proc phys.toNat
          4).reply.isSome)
        (BusHolds (mappedMachine 0)) :=
  ⟨⟨by decide, missHandler_reported _ _⟩, cachedBlock_reach, by decide, cachedBlock_found _ _⟩

end Xremu
