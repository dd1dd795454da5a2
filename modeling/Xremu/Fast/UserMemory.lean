import Xremu.Fast.UserRuns

/-!
# User mode and the memory of the station

On the bus of the station: what user mode does is decided by the bytes of the pages that the
translation buffers let it see, and it leaves RAM alone but for the pages that they let it
write. Where they let it get at RAM only (`DataInRam`), it leaves everything else alone too.
-/

namespace Xremu

section

variable {D : Type}

/-- The byte of RAM at a physical address. -/
def XrStation.ramByte (s : XrStation D) (address : Nat) : Byte :=
  s.ram.bytes (ramSlotOf address) (ramOffsetOf address)

/-- Stations that differ in their RAM only. -/
def OnlyRam (s t : XrStation D) : Prop := t = { s with ram := t.ram }

namespace OnlyRam

variable {s t u : XrStation D}

theorem refl (s : XrStation D) : OnlyRam s s := rfl

theorem trans (h : OnlyRam s t) (h' : OnlyRam t u) : OnlyRam s u := by
  unfold OnlyRam at h h' ⊢
  rw [h] at h'
  exact h'

theorem symm (h : OnlyRam s t) : OnlyRam t s := by
  unfold OnlyRam at h ⊢
  rw [h]

end OnlyRam

/-- Stations that differ in their RAM only, and not in these pages. -/
structure StationsAlike (sees : Nat → Prop) (s t : XrStation D) : Prop where
  rest : OnlyRam s t
  size : t.ram.size = s.ram.size
  seen : ∀ a, a < ramMaximum → sees (pageStart a) → t.ramByte a = s.ramByte a

/-- What only loads and stores in these pages have changed. -/
structure Unwritten (data : Bool → Nat → Prop) (s₀ s : XrStation D) : Prop where
  size : s.ram.size = s₀.ram.size
  kept : ∀ a, a < ramMaximum → ¬data true (pageStart a) → s.ramByte a = s₀.ramByte a
  rest : (∀ writing page, data writing page → page < ramMaximum) → OnlyRam s₀ s

/-- Alike, and each as it was but for what may be written. -/
structure StationsKept (sees : Nat → Prop) (data : Bool → Nat → Prop) (s₀ t₀ s t : XrStation D) :
    Prop where
  alike : StationsAlike sees s t
  left : Unwritten data s₀ s
  right : Unwritten data t₀ t

theorem Unwritten.refl (data : Bool → Nat → Prop) (s : XrStation D) : Unwritten data s s :=
  ⟨rfl, fun _ _ _ => rfl, fun _ => .refl s⟩

theorem StationsAlike.refl (sees : Nat → Prop) (s : XrStation D) : StationsAlike sees s s :=
  ⟨.refl s, rfl, fun _ _ _ => rfl⟩

theorem Unwritten.trans {data : Bool → Nat → Prop} {s s' s'' : XrStation D}
    (h : Unwritten data s s') (h' : Unwritten data s' s'') : Unwritten data s s'' :=
  ⟨h'.size.trans h.size, fun a ha hnot => (h'.kept a ha hnot).trans (h.kept a ha hnot),
    fun hram => (h.rest hram).trans (h'.rest hram)⟩

theorem pageStart_add {a k : Nat} (h : a % 4096 + k < 4096) : pageStart (a + k) = pageStart a := by
  unfold pageStart
  omega

/-! ## Pointers -/

variable {s t : XrStation D} {sees : Nat → Prop} {data : Bool → Nat → Prop}

theorem pointer_size (h : t.ram.size = s.ram.size) (address : Nat) :
    t.pointer address = s.pointer address := by
  unfold XrStation.pointer ramTranslateExt ramTranslate
  rw [h]

/-- The bytes of a page are next to each other in their slot. -/
theorem ramByte_add (s : XrStation D) {a k : Nat} (hk : a % 4096 + k < 4096) :
    s.ramByte (a + k) = s.ram.bytes (ramSlotOf a) (ramOffsetOf a + k) := by
  have hslot : ramSlotOf (a + k) = ramSlotOf a := by
    unfold ramSlotOf
    omega
  have hoffset : ramOffsetOf (a + k) = ramOffsetOf a + k := by
    unfold ramOffsetOf
    omega
  unfold XrStation.ramByte
  rw [hslot, hoffset]

/-- A byte behind the pointer of a page. -/
theorem hostBytes_ram {q : HostPointer} {a k : Nat} (hq : s.pointer (pageStart a) = some q)
    (ha : a < ramMaximum) (hk : a % 4096 + k < 4096) :
    s.hostBytes q (a % 4096 + k) = s.ramByte (a + k) := by
  obtain ⟨hbranch, hmax, hslot, hrom, hsize⟩ := memoryMap
  rcases pointer_page hq (by omega) with ⟨-, rfl, hoff⟩ | ⟨hge, -⟩
  · have hoffset : ramOffsetOf a - a % 4096 + (a % 4096 + k) = ramOffsetOf a + k := by omega
    unfold XrStation.hostBytes
    dsimp only
    rw [ramByte_add s hk, hoffset]
  · omega

/-! ## Stores -/

/-- `s'` is `s` with these bytes of RAM written. -/
structure RamStored (a length : Nat) (src : Nat → Byte) (s s' : XrStation D) : Prop where
  rest : OnlyRam s s'
  size : s'.ram.size = s.ram.size
  bytes : ∀ a', a' < ramMaximum →
    s'.ramByte a' = if a ≤ a' ∧ a' < a + length then src (a' - a) else s.ramByte a'

/-- A copy into a slot, in one page. -/
theorem stored_copy (s : XrStation D) {a length : Nat} (src : Nat → Byte)
    (hlen : a % 4096 + length ≤ 4096) :
    RamStored a length src s { s with ram := { s.ram with
      bytes := Function.update s.ram.bytes (ramSlotOf a)
        (copyBytes (s.ram.bytes (ramSlotOf a)) (ramOffsetOf a) src length) } } := by
  refine ⟨rfl, rfl, fun a' ha' => ?_⟩
  unfold XrStation.ramByte
  dsimp only
  by_cases hslot : ramSlotOf a' = ramSlotOf a
  · rw [hslot, Function.update_self]
    unfold copyBytes
    have hin : (ramOffsetOf a ≤ ramOffsetOf a' ∧ ramOffsetOf a' < ramOffsetOf a + length) ↔
        (a ≤ a' ∧ a' < a + length) := by
      unfold ramSlotOf at hslot
      unfold ramOffsetOf
      omega
    by_cases hwritten : a ≤ a' ∧ a' < a + length
    · have hsub : ramOffsetOf a' - ramOffsetOf a = a' - a := by
        unfold ramSlotOf at hslot
        unfold ramOffsetOf
        omega
      rw [if_pos (hin.mpr hwritten), if_pos hwritten, hsub]
    · rw [if_neg (hin.not.mpr hwritten), if_neg hwritten]
  · rw [Function.update_of_ne hslot, if_neg]
    unfold ramSlotOf at hslot
    omega

/-- Both are written to in a page that may be written. -/
theorem StationsKept.stored {s₀ t₀ s t s' t' : XrStation D} (h : StationsKept sees data s₀ t₀ s t)
    {a length : Nat} {src : Nat → Byte} (hpage : data true (pageStart a))
    (hlen : a % 4096 + length ≤ 4096) (hs : RamStored a length src s s')
    (ht : RamStored a length src t t') : StationsKept sees data s₀ t₀ s' t' := by
  have hunwritten : ∀ {u u' : XrStation D}, RamStored a length src u u' → Unwritten data u u' := by
    intro u u' hu
    refine ⟨hu.size, fun a' ha' hnot => ?_, fun _ => hu.rest⟩
    rw [hu.bytes a' ha', if_neg]
    intro hwritten
    have hsame : pageStart a' = pageStart a := by
      unfold pageStart
      omega
    rw [hsame] at hnot
    exact hnot hpage
  refine ⟨⟨?_, ?_, ?_⟩, h.left.trans (hunwritten hs), h.right.trans (hunwritten ht)⟩
  · exact hs.rest.symm.trans (h.alike.rest.trans ht.rest)
  · rw [ht.size, hs.size]
    exact h.alike.size
  · intro a' ha' hsees
    rw [ht.bytes a' ha', hs.bytes a' ha', h.alike.seen a' ha' hsees]

theorem stored_host {q : HostPointer} {a : Nat} {src : Nat → Byte} {length : Nat}
    (hq : s.pointer (pageStart a) = some q) (ha : a < ramMaximum)
    (hlen : a % 4096 + length ≤ 4096) :
    RamStored a length src s (s.hostStore q (a % 4096) src length) := by
  obtain ⟨hbranch, hmax, hslot, hrom, hsize⟩ := memoryMap
  rcases pointer_page hq (by omega) with ⟨-, rfl, hoff⟩ | ⟨hge, -⟩
  · have ho : ramOffsetOf a - a % 4096 + a % 4096 = ramOffsetOf a := by omega
    unfold XrStation.hostStore
    dsimp only
    rw [ho]
    exact stored_copy s src hlen
  · omega

/-! ## Beyond RAM -/

variable [EBusDevices D]

/-- A reply with other RAM. -/
def EBusReply.onRam {α : Type} (r : EBusReply (XrStation D) α) (ram : RamSlots) :
    EBusReply (XrStation D) α :=
  { r with bus := { r.bus with ram := ram } }

omit [EBusDevices D] in
theorem onRam_ite {α : Type} {P : Prop} [Decidable P] {x x' y y' : EBusReply (XrStation D) α}
    {ram : RamSlots} (h : x = y.onRam ram) (h' : x' = y'.onRam ram) :
    (if P then x else x') = (if P then y else y').onRam ram := by
  split
  · exact h
  · exact h'

omit [EBusDevices D] in
theorem lsicReply_onRam (s : XrStation D) (ram : RamSlots) (p : XrProcessor)
    (r : LsicReply LsicTable) :
    ({ s with ram := ram } : XrStation D).lsicReply p r = (s.lsicReply p r).onRam ram := rfl

/-- The platform board does not look at RAM. -/
theorem pBoardWrite_onRam (s : XrStation D) (ram : RamSlots) (p : XrProcessor) (address : Nat)
    (src : Nat → Byte) (length : Nat) :
    pBoardWrite { s with ram := ram } p address src length =
      (pBoardWrite s p address src length).onRam ram := by
  unfold pBoardWrite
  refine onRam_ite (onRam_ite rfl rfl) ?_
  refine onRam_ite rfl ?_
  refine onRam_ite ?_ ?_
  · generalize address - 0x1000 = offset
    exact onRam_ite rfl rfl
  refine onRam_ite (onRam_ite (onRam_ite rfl rfl) rfl) ?_
  refine onRam_ite (onRam_ite ?_ rfl) (onRam_ite (onRam_ite rfl rfl) rfl)
  exact lsicReply_onRam s ram p _

theorem pBoardRead_onRam (s : XrStation D) (ram : RamSlots) (p : XrProcessor) (address : Nat)
    (dest : Nat → Byte) (length : Nat) :
    pBoardRead { s with ram := ram } p address dest length =
      (pBoardRead s p address dest length).onRam ram := by
  unfold pBoardRead
  refine onRam_ite (onRam_ite rfl rfl) ?_
  refine onRam_ite (onRam_ite rfl rfl) ?_
  refine onRam_ite (onRam_ite rfl rfl) ?_
  refine onRam_ite (onRam_ite rfl rfl) ?_
  refine onRam_ite (onRam_ite ?_ rfl) rfl
  split
  · next v hread =>
      have hread' : lsicRead s.processors s.lsic ((address - 0x30000) / 4) = some v := hread
      rw [hread']
      rfl
  · next hread =>
      have hread' : lsicRead s.processors s.lsic ((address - 0x30000) / 4) = none := hread
      rw [hread']
      rfl

/-- Nor does a branch of the bus that is not RAM. -/
theorem eBusWrite_onRam (s : XrStation D) (ram : RamSlots) (p : XrProcessor) {address : Nat}
    (h : ramMaximum ≤ address) (src : Nat → Byte) (length : Nat) :
    eBusWrite { s with ram := ram } p address src length =
      (eBusWrite s p address src length).onRam ram := by
  obtain ⟨hbranch, hmax, hslot, hrom, hsize⟩ := memoryMap
  unfold eBusWrite
  extract_lets branch offset
  have h0 : ¬branch = 0 := by omega
  have h1 : ¬branch = 1 := by omega
  rw [if_neg h0, if_neg h0, if_neg h1, if_neg h1]
  exact onRam_ite (pBoardWrite_onRam s ram p _ src length) rfl

theorem eBusRead_onRam (s : XrStation D) (ram : RamSlots) (p : XrProcessor) {address : Nat}
    (h : ramMaximum ≤ address) (dest : Nat → Byte) (length : Nat) :
    eBusRead { s with ram := ram } p address dest length =
      (eBusRead s p address dest length).onRam ram := by
  obtain ⟨hbranch, hmax, hslot, hrom, hsize⟩ := memoryMap
  unfold eBusRead
  extract_lets branch offset
  have h0 : ¬branch = 0 := by omega
  have h1 : ¬branch = 1 := by omega
  rw [if_neg h0, if_neg h0, if_neg h1, if_neg h1]
  exact onRam_ite (pBoardRead_onRam s ram p _ dest length) rfl

/-! ## The operations -/

variable {s₀ t₀ : XrStation D}

omit [EBusDevices D] in
/-- What is not in RAM is answered without it. -/
theorem StationsKept.replied (h : StationsKept sees data s₀ t₀ s t) {α : Type}
    {r : EBusReply (XrStation D) α} (hr : r = r.onRam s.ram) {writing : Bool} {page : Nat}
    (hpage : data writing page) (hbeyond : ramMaximum ≤ page) :
    RepliesAlike (StationsKept sees data s₀ t₀) r (r.onRam t.ram) := by
  have hram : r.bus.ram = s.ram := by
    rw [hr]
    rfl
  have hnot : ¬∀ writing page, data writing page → page < ramMaximum := fun hall =>
    absurd (hall writing page hpage) (Nat.not_lt_of_le hbeyond)
  have hunwritten : ∀ {u₀ u v : XrStation D}, Unwritten data u₀ u → v.ram = u.ram →
      Unwritten data u₀ v := by
    intro u₀ u v hu hv
    refine ⟨by rw [hv, hu.size], fun a ha hclean => ?_, fun hall => absurd hall hnot⟩
    rw [← hu.kept a ha hclean]
    unfold XrStation.ramByte
    rw [hv]
  refine ⟨⟨⟨rfl, ?_, fun a ha hsees => ?_⟩, hunwritten h.left hram, hunwritten h.right rfl⟩,
    rfl, rfl⟩
  · rw [hram]
    exact h.alike.size
  · have hseen := h.alike.seen a ha hsees
    unfold XrStation.ramByte at hseen ⊢
    rw [hram]
    exact hseen

omit [EBusDevices D] in
/-- Both boot ROMs are written to, with a page of it among those that may be. -/
theorem StationsKept.storedRom (h : StationsKept sees data s₀ t₀ s t)
    (hnot : ¬∀ writing page, data writing page → page < ramMaximum) (offset off : Nat)
    (src : Nat → Byte) (length : Nat) :
    StationsKept sees data s₀ t₀ (s.hostStore (.rom offset) off src length)
      (t.hostStore (.rom offset) off src length) := by
  have hrest : OnlyRam (s.hostStore (.rom offset) off src length)
      (t.hostStore (.rom offset) off src length) := by
    have hbefore := h.alike.rest
    unfold OnlyRam at hbefore
    unfold XrStation.hostStore OnlyRam
    rw [hbefore]
  exact ⟨⟨hrest, h.alike.size, h.alike.seen⟩,
    ⟨h.left.size, h.left.kept, fun hall => absurd hall hnot⟩,
    ⟨h.right.size, h.right.kept, fun hall => absurd hall hnot⟩⟩

omit [EBusDevices D] in
/-- The bytes of a range in one page that is seen. -/
theorem StationsAlike.range (h : StationsAlike sees s t) {a k : Nat} (hsees : sees (pageStart a))
    (ha : a < ramMaximum) (hk : a % 4096 + k < 4096) : t.ramByte (a + k) = s.ramByte (a + k) := by
  refine h.seen (a + k) ?_ ?_
  · obtain ⟨hbranch, hmax, hslot, hrom, hsize⟩ := memoryMap
    omega
  · rw [pageStart_add hk]
    exact hsees

theorem hostRead_alike (h : StationsAlike sees s t) {a k : Nat} (hlt : a < 0x100000000)
    (hsees : sees (pageStart a)) (hk : a % 4096 + k < 4096) :
    EBusHost.hostRead t a k = EBusHost.hostRead s a k := by
  have hpointer := pointer_size h.size (pageStart a)
  cases hq : s.pointer (pageStart a) with
  | none =>
      rw [hq] at hpointer
      unfold pageStart at hq hpointer
      simp only [EBusHost.hostRead, hq, hpointer]
  | some q =>
      rw [hq] at hpointer
      rw [hostRead_eq hq, hostRead_eq hpointer]
      rcases pointer_page hq hlt with ⟨hram, -, -⟩ | ⟨hge, rfl, -⟩
      · rw [hostBytes_ram hq hram hk, hostBytes_ram hpointer hram hk]
        exact h.range hsees hram hk
      · have hrest : t.bootRom = s.bootRom := by rw [h.rest]
        unfold XrStation.hostBytes
        dsimp only
        rw [hrest]

theorem hostWrite_kept (h : StationsKept sees data s₀ t₀ s t) {a length : Nat}
    (hlt : a < 0x100000000) (hpage : data true (pageStart a)) (hlen : a % 4096 + length ≤ 4096)
    (src : Nat → Byte) :
    StationsKept sees data s₀ t₀ (EBusHost.hostWrite s a src length)
      (EBusHost.hostWrite t a src length) := by
  have hpointer := pointer_size h.alike.size (pageStart a)
  cases hq : s.pointer (pageStart a) with
  | none =>
      rw [hq] at hpointer
      unfold pageStart at hq hpointer
      simp only [EBusHost.hostWrite, hq, hpointer]
      exact h
  | some q =>
      rw [hq] at hpointer
      rw [hostWrite_eq hq, hostWrite_eq hpointer]
      rcases pointer_page hq hlt with ⟨hram, -, -⟩ | ⟨hge, rfl, -⟩
      · exact h.stored hpage hlen (stored_host hq hram hlen) (stored_host hpointer hram hlen)
      · -- The boot ROM; its page may be written, so that nothing but RAM is promised.
        obtain ⟨hbranch, hmax, hslot, hrom, hsize⟩ := memoryMap
        have hnot : ¬∀ writing page, data writing page → page < ramMaximum := by
          intro hall
          have hbelow := hall true _ hpage
          unfold pageStart at hbelow
          omega
        exact h.storedRom hnot _ _ src length

theorem read_kept (h : StationsKept sees data s₀ t₀ s t) {a length : Nat}
    (hsees : ∀ page, data false page → sees page) (hpage : data false (pageStart a))
    (hlen : a % 4096 + length ≤ 4096) (p : XrProcessor) :
    RepliesAlike (StationsKept sees data s₀ t₀) (EBus.read s p a length)
      (EBus.read t p a length) := by
  have hreads : ∀ u : XrStation D, EBus.read u p a length = eBusRead u p a (fun _ => 0) length :=
    fun _ => rfl
  rw [hreads, hreads]
  by_cases hram : a < ramMaximum
  · rw [eBusRead_ram s p hram, eBusRead_ram t p hram]
    refine ⟨h, rfl, ?_⟩
    unfold ramRead
    dsimp only
    rw [h.alike.size]
    refine alike_ite (r := Eq) rfl (fun _ => rfl) fun _ => congrArg some ?_
    funext k
    by_cases hk : k < length
    · have hbyte := h.alike.range (k := k) (hsees _ hpage) hram (by omega)
      rw [ramByte_add t (by omega), ramByte_add s (by omega)] at hbyte
      have hcopy : ∀ bytes : Nat → Byte, copyBytes (fun _ => 0) 0 bytes length k = bytes k := by
        intro bytes
        unfold copyBytes
        rw [if_pos ⟨Nat.zero_le k, by omega⟩, Nat.sub_zero]
      rw [hcopy, hcopy, hbyte]
    · rw [copyBytes_of_not (by omega), copyBytes_of_not (by omega)]
  · have hbeyond : ramMaximum ≤ pageStart a := by
      obtain ⟨hbranch, hmax, hslot, hrom, hsize⟩ := memoryMap
      unfold pageStart
      omega
    have hother := eBusRead_onRam s t.ram p (Nat.le_of_not_lt hram) (fun _ => 0) length
    rw [← h.alike.rest] at hother
    rw [hother]
    have hsame := eBusRead_onRam s s.ram p (Nat.le_of_not_lt hram) (fun _ => 0) length
    exact h.replied hsame hpage hbeyond

theorem write_kept (h : StationsKept sees data s₀ t₀ s t) {a length : Nat}
    (hpage : data true (pageStart a)) (hlen : a % 4096 + length ≤ 4096) (p : XrProcessor)
    (src : Nat → Byte) :
    RepliesAlike (StationsKept sees data s₀ t₀) (EBus.write s p a src length)
      (EBus.write t p a src length) := by
  have hwrites : ∀ u : XrStation D, EBus.write u p a src length = eBusWrite u p a src length :=
    fun _ => rfl
  rw [hwrites, hwrites]
  by_cases hram : a < ramMaximum
  · rw [eBusWrite_ram s p hram, eBusWrite_ram t p hram]
    unfold ramWrite
    dsimp only
    by_cases hend : ramOffsetOf a + length > s.ram.size (ramSlotOf a)
    · have hend' : ramOffsetOf a + length > t.ram.size (ramSlotOf a) := by rwa [h.alike.size]
      rw [if_pos hend, if_pos hend']
      exact ⟨h, rfl, rfl⟩
    · have hend' : ¬ramOffsetOf a + length > t.ram.size (ramSlotOf a) := by rwa [h.alike.size]
      rw [if_neg hend, if_neg hend']
      exact ⟨h.stored hpage hlen (stored_copy s src hlen) (stored_copy t src hlen), rfl, rfl⟩
  · have hbeyond : ramMaximum ≤ pageStart a := by
      obtain ⟨hbranch, hmax, hslot, hrom, hsize⟩ := memoryMap
      unfold pageStart
      omega
    have hother := eBusWrite_onRam s t.ram p (Nat.le_of_not_lt hram) src length
    rw [← h.alike.rest] at hother
    rw [hother]
    have hsame := eBusWrite_onRam s s.ram p (Nat.le_of_not_lt hram) src length
    exact h.replied hsame hpage hbeyond

theorem station_busesAlike (hsees : ∀ page, data false page → sees page) :
    BusesAlike sees data (StationsKept sees data s₀ t₀) where
  translate h page := congrArg Option.isSome (pointer_size h.alike.size page.toNat)
  hostRead h _ _ hlt hseen hk := hostRead_alike h.alike hlt hseen hk
  hostWrite h _ _ hlt hpage hlen src := hostWrite_kept h hlt hpage hlen src
  read h _ _ _ hpage hlen p := read_kept h hsees hpage hlen p
  write h _ _ _ hpage hlen p src := write_kept h hpage hlen p src

/-! ## User mode -/

variable {m : Machine (XrFastMem (XrStation D))} {s₀ s : XrInterp (XrFastMem (XrStation D))}
  {l : List UserAct}

theorem userRun_station (hfresh : DataStart m) (hreached : XrInterp.RunsIn FastOutside m s₀)
    {c : XrStation D} (hc : StationsAlike (SeenPage s₀.machine) s₀.machine.mem.bus c)
    (hrun : UserRun s₀ l s) :
    ∃ c', (s₀.onBus c).actsAll l = some (s.onBus c') ∧
      StationsKept (SeenPage s₀.machine) (DataPage s₀.machine) s₀.machine.mem.bus c
        s.machine.mem.bus c' := by
  have hbuses : BusesAlike (SeenPage s₀.machine) (DataPage s₀.machine)
      (StationsKept (SeenPage s₀.machine) (DataPage s₀.machine) s₀.machine.mem.bus c) :=
    station_busesAlike fun _ h => h.seen
  obtain ⟨-, -, t, hacts, hrelated⟩ := userRun_alike hbuses hfresh hreached
    ⟨hc, .refl _ _, .refl _ _⟩ hrun
  obtain ⟨ht, hkept⟩ := hrelated.onBus
  refine ⟨t.machine.mem.bus, ?_, hkept⟩
  rw [hacts, ← ht]

/-- User mode gets at no device: its data pages are all in the window of RAM. -/
def DataInRam (m : Machine (XrFastMem (XrStation D))) : Prop :=
  ∀ writing page, DataPage m writing page → page < ramMaximum

/-- In every state up to the entry into the kernel, everything but RAM is as it was, and RAM
too but for the pages that the translation buffers let user mode write. -/
theorem user_isolated (D : Type) [EBusDevices D] (m : Machine (XrFastMem (XrStation D)))
    (s₀ s : XrInterp (XrFastMem (XrStation D))) (l : List UserAct) (hfresh : DataStart m)
    (hreached : XrInterp.RunsIn FastOutside m s₀) (hram : DataInRam s₀.machine)
    (hrun : UserRun s₀ l s) :
    Unwritten (DataPage s₀.machine) s₀.machine.mem.bus s.machine.mem.bus ∧
      OnlyRam s₀.machine.mem.bus s.machine.mem.bus := by
  obtain ⟨c', -, hkept⟩ := userRun_station hfresh hreached (.refl _ _) hrun
  exact ⟨hkept.left, hkept.left.rest hram⟩

/-- Whatever else is in RAM, the same run is made, to the same processor, blocks and claims,
and the devices are left as they were. -/
theorem user_noninterference (D : Type) [EBusDevices D] (m : Machine (XrFastMem (XrStation D)))
    (s₀ s : XrInterp (XrFastMem (XrStation D))) (l : List UserAct) (hfresh : DataStart m)
    (hreached : XrInterp.RunsIn FastOutside m s₀) (hram : DataInRam s₀.machine)
    (hrun : UserRun s₀ l s) (c : XrStation D)
    (hc : StationsAlike (SeenPage s₀.machine) s₀.machine.mem.bus c) :
    ∃ c', (s₀.onBus c).actsAll l = some (s.onBus c') ∧
      StationsAlike (SeenPage s₀.machine) s.machine.mem.bus c' ∧ OnlyRam c c' := by
  obtain ⟨c', hacts, hkept⟩ := userRun_station hfresh hreached hc hrun
  exact ⟨c', hacts, hkept.alike, hkept.right.rest hram⟩

end

/-! ## A store -/

/-- User mode in a page of the boot ROM, with page 0 in frame 1: a store to address 0. -/
def userStores : Machine (XrFastMem (XrStation Unit)) :=
  let mem := (stationMachine 0x400000).mem
  ⟨{ startedProc with
      cr := fun i => if i = crRs then rsUser ||| rsMmu else 0
      itb := fun i => if i = 0 then 0x000FFFE101FFFC21 else 0
      dtb := fun i => if i = 0 then 0x23 else 0 },
    { mem with bus := { mem.bus with bootRom := romOf [0x80A] } }⟩

theorem dataStart_userStores : DataStart userStores := by
  refine ⟨rfl, fun block index writing => ?_⟩
  cases writing <;> rfl

/-- In a block that was decoded and remembers no page, in address space 0. -/
theorem own_of_null {s : XrInterp (XrFastMem (XrStation Unit))}
    (htag : s.machine.proc.cr crDtbtag = 0)
    (h : ∀ i k, s.point = .inst i k → ∀ index writing,
      ((s.machine.mem.fast s.machine.proc.id).slot i index writing).matchingDtbe =
          tbInvalidMatching ∧
        ((s.machine.mem.fast s.machine.proc.id).slot i index writing).dtbePointer = none) :
    UserAct.Own (.step false) s := by
  rintro pending ⟨⟩
  refine ⟨fun _ hpending => (by cases hpending.1), fun i k inst r hpoint _ _ => ?_⟩
  obtain ⟨hempty, hnull⟩ := h i k hpoint (dtbCacheIndex r.address) (!r.read)
  constructor
  · intro hmatching
    -- The tag of an emptied slot is the one of address space 4095.
    unfold Machine.dataSlot at hmatching
    rw [hempty, htag] at hmatching
    have htop := congrArg (fun tag => tag.getLsbD 31) hmatching
    simp [tbMatching, vpnOf, tbInvalidMatching] at htop
  · intro hvalid
    simp [slotValid, Machine.dataSlot, hnull] at hvalid

set_option maxRecDepth 20000 in
theorem own_userStores : UserAct.Own (.step false) (ramCall userStores 2) := by
  refine own_of_null rfl fun i k hpoint index writing => ?_
  have hinst : XrPoint.inst 2047 0 = .inst i k := hpoint
  cases hinst
  cases writing <;> exact ⟨rfl, rfl⟩

set_option maxRecDepth 20000 in
theorem userRun_userStores :
    UserRun (ramCall userStores 0) [.step false, .step false, .step false]
      (ramCall userStores 3) := by
  have hown : ∀ n, n < 2 → UserAct.Own (.step false) (ramCall userStores n) := by
    intro n hn
    have hcheck : n = 0 ∨ n = 1 := by omega
    rcases hcheck with rfl | rfl
    · exact own_of_null rfl fun i k hpoint => by cases hpoint
    · exact own_of_null rfl fun i k hpoint => by cases hpoint
  refine .act (l := [.step false, .step false]) (.step false) ?_ ⟨by decide, by decide, by decide⟩
    own_userStores rfl
  refine .act (l := [.step false]) (.step false) ?_ ⟨by decide, by decide, by decide⟩
    (hown 1 (by decide)) rfl
  exact .act (l := []) (.step false) .start ⟨by decide, by decide, by decide⟩
    (hown 0 (by decide)) rfl

/-- The DTB has frames 1 and 0. -/
theorem dataInRam_userStores : DataInRam (ramCall userStores 0).machine := by
  rintro writing page ⟨tbe, ⟨i, -, rfl⟩ | ⟨hne, -⟩, -, rfl⟩
  · have hdtb : (ramCall userStores 0).machine.proc.dtb i = if i = 0 then 0x23 else 0 := rfl
    rw [hdtb]
    by_cases hi : i = 0
    · rw [if_pos hi]
      decide
    · rw [if_neg hi]
      decide
  · exact absurd rfl hne

theorem user_isolated_store :
    Unwritten (DataPage (ramCall userStores 0).machine) (ramCall userStores 0).machine.mem.bus
        (ramCall userStores 3).machine.mem.bus ∧
      OnlyRam (ramCall userStores 0).machine.mem.bus (ramCall userStores 3).machine.mem.bus :=
  user_isolated Unit _ _ _ _ dataStart_userStores (ramCall_runs userStores 0)
    dataInRam_userStores userRun_userStores

/-- The same station, with a byte of frame 5. -/
def otherRam (s : XrStation Unit) : XrStation Unit :=
  { s with ram := { s.ram with
      bytes := fun slot offset =>
        if slot = 0 ∧ offset = 0x5000 then 1 else s.ram.bytes slot offset } }

set_option maxRecDepth 20000 in
/-- What user mode sees is frame 1 and the code. -/
theorem seenPage_userStores {page : Nat} (h : SeenPage (ramCall userStores 0).machine page) :
    page ≠ 0x5000 := by
  rintro rfl
  rcases h with ⟨tbe, ⟨i, -, rfl⟩ | ⟨hne, -⟩, hok, hpage⟩ |
    ⟨tbe, ⟨i, -, rfl⟩ | ⟨hne, -⟩, hok, hpage⟩
  · have hdtb : (ramCall userStores 0).machine.proc.dtb i = if i = 0 then 0x23 else 0 := rfl
    rw [hdtb] at hpage
    by_cases hi : i = 0
    · rw [if_pos hi] at hpage
      exact absurd hpage (by decide)
    · rw [if_neg hi] at hpage
      exact absurd hpage (by decide)
  · exact hne rfl
  · have hitb : (ramCall userStores 0).machine.proc.itb i =
        if i = 0 then 0x000FFFE101FFFC21 else 0 := rfl
    rw [hitb] at hpage
    by_cases hi : i = 0
    · rw [if_pos hi] at hpage
      exact absurd hpage (by decide)
    · rw [if_neg hi] at hpage
      exact absurd hpage (by decide)
  · exact hne rfl

theorem otherRam_alike (s : XrStation Unit) {sees : Nat → Prop} (h : ¬sees 0x5000) :
    StationsAlike sees s (otherRam s) := by
  refine ⟨rfl, rfl, fun a ha hsees => ?_⟩
  unfold XrStation.ramByte otherRam
  dsimp only
  rw [if_neg]
  rintro ⟨hslot, hoffset⟩
  have hpage : pageStart a = 0x5000 := by
    unfold ramSlotOf at hslot
    unfold ramOffsetOf at hoffset
    unfold pageStart
    omega
  rw [hpage] at hsees
  exact h hsees

theorem user_noninterference_store :
    ∃ c', ((ramCall userStores 0).onBus (otherRam (ramCall userStores 0).machine.mem.bus)).actsAll
        [.step false, .step false, .step false] = some ((ramCall userStores 3).onBus c') ∧
      StationsAlike (SeenPage (ramCall userStores 0).machine)
        (ramCall userStores 3).machine.mem.bus c' ∧
      OnlyRam (otherRam (ramCall userStores 0).machine.mem.bus) c' :=
  user_noninterference Unit _ _ _ _ dataStart_userStores (ramCall_runs userStores 0)
    dataInRam_userStores userRun_userStores _
    (otherRam_alike _ fun h => seenPage_userStores h rfl)

end Xremu
