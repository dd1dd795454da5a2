import Xremu.Devices.DiskTransfer

/-!
# What a disk write stores

A write command reads the transfer's range off the bus into the buffer of the disk and
stores the buffer. The bus can refuse the read, or leave bytes of the buffer as they
are, and the buffer then holds what an earlier transfer left in it.

`UnreadStaysOut` is that such bytes do not get into the image. They do, unless the
sectors hold them already (`diskWrite_unread_iff`).
-/

namespace Xremu

section

variable {D : Type}

/-! ## What the bus puts into a buffer -/

/-- A read that does not look at the buffer it is given: each byte is put there, or left. -/
def Blind (read : (Nat → Byte) → Option (Nat → Byte)) : Prop :=
  ∃ answer : Option (Nat → Option Byte),
    ∀ dest, read dest = answer.map fun given k => (given k).getD (dest k)

theorem Blind.refuses {read : (Nat → Byte) → Option (Nat → Byte)} (h : ∀ dest, read dest = none) :
    Blind read :=
  ⟨none, h⟩

theorem Blind.leaves {read : (Nat → Byte) → Option (Nat → Byte)}
    (h : ∀ dest, read dest = some dest) : Blind read :=
  ⟨some fun _ => none, h⟩

theorem Blind.copies {read : (Nat → Byte) → Option (Nat → Byte)} (src : Nat → Byte) (n : Nat)
    (h : ∀ dest, read dest = some (copyBytes dest 0 src n)) : Blind read := by
  refine ⟨some fun k => if k < n then some (src k) else none, ?_⟩
  intro dest
  rw [h dest, Option.map_some]
  congr 1
  funext k
  show _ = (if k < n then some (src k) else none).getD (dest k)
  by_cases hk : k < n
  · have hcopy := @copyBytes_of_lt dest src 0 n k hk
    rw [Nat.zero_add] at hcopy
    rw [hcopy, if_pos hk]
    rfl
  · rw [if_neg hk, copyBytes_of_not]
    · rfl
    · omega

variable [EBusDevices D]

/-- What the boards of the other branches have to do for `eBusRead_blind`. -/
def BlindBoards (D : Type) [EBusDevices D] : Prop :=
  ∀ (d : D) (p : XrProcessor) (address length : Nat),
    Blind fun dest => (EBusDevices.readBranch d p address dest length).reply

theorem ramRead_blind (ram : RamSlots) (address length : Nat) :
    Blind fun dest => ramRead ram address dest length := by
  by_cases hover : ramOffsetOf address + length > ram.size (ramSlotOf address)
  · exact Blind.refuses fun _ => if_pos hover
  · exact Blind.copies _ length fun _ => if_neg hover

theorem pBoardRead_blind (s : XrStation D) (p : XrProcessor) (address length : Nat) :
    Blind fun dest => (pBoardRead s p address dest length).reply := by
  unfold pBoardRead
  split
  · split
    · -- A port answers with a word.
      simp only [XrStation.reply]
      cases (EBusDevices.readPort s.devices p (address / 4) length).reply with
      | none => exact Blind.refuses fun _ => rfl
      | some v => exact Blind.copies _ 4 fun _ => rfl
    · exact Blind.refuses fun _ => rfl
  split
  · split
    · exact Blind.leaves fun _ => rfl
    · exact Blind.copies _ length fun _ => rfl
  split
  · split
    · exact Blind.leaves fun _ => rfl
    · exact Blind.copies _ length fun _ => rfl
  split
  · split
    · exact Blind.copies _ 4 fun _ => rfl
    · exact Blind.refuses fun _ => rfl
  split
  · split
    · split
      · exact Blind.copies _ 4 fun _ => rfl
      · exact Blind.refuses fun _ => rfl
    · exact Blind.refuses fun _ => rfl
  · exact Blind.refuses fun _ => rfl

theorem eBusRead_blind (hboards : BlindBoards D) (s : XrStation D) (p : XrProcessor)
    (address length : Nat) : Blind fun dest => (eBusRead s p address dest length).reply := by
  unfold eBusRead
  extract_lets branch offset
  split
  · exact ramRead_blind s.ram offset length
  split
  · exact ramRead_blind s.ram _ length
  split
  · exact pBoardRead_blind s p offset length
  · exact hboards s.devices p address length

/-- The bus puts `v` in place `k`, whatever the buffer holds. -/
def BusDelivers (s : XrStation D) (address length k : Nat) (v : Byte) : Prop :=
  ∀ dest, ∃ data,
    (eBusRead s (XrProcessor.zeroed 0) address dest length).reply = some data ∧ data k = v

/-- RAM delivers the whole range or nothing. -/
theorem busDelivers_ram_iff {s : XrStation D} {address length k : Nat} (hlt : address < ramMaximum)
    (hk : k < length) : (∃ v, BusDelivers s address length k v) ↔
      ramOffsetOf address + length ≤ s.ram.size (ramSlotOf address) := by
  unfold BusDelivers
  simp only [eBusRead_ram s _ hlt]
  constructor
  · rintro ⟨v, hv⟩
    obtain ⟨data, hdata, _⟩ := hv fun _ => 0
    by_contra hfits
    rw [ramRead, if_pos (Nat.lt_of_not_le hfits)] at hdata
    cases hdata
  · intro hfits
    refine ⟨s.ram.bytes (ramSlotOf address) (ramOffsetOf address + k), ?_⟩
    intro dest
    refine ⟨_, if_neg (Nat.not_lt_of_le hfits), ?_⟩
    exact copyFrom_of_lt hk

/-! ## What gets into the image -/

/-- A refused read changes no image, and a sector gets no byte that the bus has not
delivered. -/
structure UnreadStaysOut (t : DksTransfer) (id : Nat) (s s' : Dks D) : Prop where
  refused : (eBusRead s.bus (XrProcessor.zeroed 0) t.address.toNat (s.disks id).temporaryBuffer
      t.bytes).reply = none → ∀ j, (s'.disks j).image = (s.disks j).image
  delivered : ∀ k, k < t.bytes →
    (s'.disks id).image (t.imageStart + k) = (s.disks id).image (t.imageStart + k) ∨
    BusDelivers s.bus t.address.toNat t.bytes k ((s'.disks id).image (t.imageStart + k))

/-- The bytes of the buffer that the bus does not replace are in the image already. -/
def UnreadThere (t : DksTransfer) (id : Nat) (s : Dks D) : Prop :=
  ∀ k, k < t.bytes → (∃ v, BusDelivers s.bus t.address.toNat t.bytes k v) ∨
    (s.disks id).temporaryBuffer k = (s.disks id).image (t.imageStart + k)

variable {s : Dks D} {id : Nat} {t : DksTransfer}

/-- A byte is delivered, or it is the one that was in the buffer. -/
theorem busLeft_cases (hboards : BlindBoards D) (bus : XrStation D) (a n k : Nat)
    (dest : Nat → Byte) :
    BusDelivers bus a n k
      ((eBusRead bus (XrProcessor.zeroed 0) a dest n).reply.getD dest k) ∨
    (eBusRead bus (XrProcessor.zeroed 0) a dest n).reply.getD dest k = dest k ∧
      ¬∃ v, BusDelivers bus a n k v := by
  obtain ⟨answer, hanswer⟩ := eBusRead_blind hboards bus (XrProcessor.zeroed 0) a n
  have hread : ∀ other, (eBusRead bus (XrProcessor.zeroed 0) a other n).reply =
      answer.map fun given k => (given k).getD (other k) := hanswer
  rw [hread dest]
  cases answer with
  | none =>
      refine Or.inr ⟨rfl, ?_⟩
      rintro ⟨v, hv⟩
      obtain ⟨data, hdata, _⟩ := hv dest
      rw [hread dest] at hdata
      cases hdata
  | some given =>
      rw [Option.map_some, Option.getD_some]
      cases hk : given k with
      | some v =>
          left
          intro other
          refine ⟨_, hread other, ?_⟩
          show (given k).getD (other k) = v
          rw [hk, Option.getD_some]
      | none =>
          refine Or.inr ⟨rfl, ?_⟩
          rintro ⟨v, hv⟩
          -- Two buffers that differ there.
          obtain ⟨data, hdata, rfl⟩ := hv fun _ => 0
          obtain ⟨data', hdata', heq⟩ := hv fun _ => 1
          rw [hread] at hdata hdata'
          obtain rfl := Option.some.inj hdata
          obtain rfl := Option.some.inj hdata'
          have heq' : (given k).getD 1 = (given k).getD 0 := heq
          rw [hk] at heq'
          exact absurd heq' (by decide)

theorem Pending.unread_iff (hboards : BlindBoards D) (h : Pending s id t)
    (hwrite : t.ioType = .write) :
    UnreadStaysOut t id s (dksTransfer s id) ↔ UnreadThere t id s := by
  obtain ⟨_, himage⟩ := dksTransfer_write h hwrite
  have hstored : ∀ k, k < t.bytes → ((dksTransfer s id).disks id).image (t.imageStart + k) =
      (eBusRead s.bus (XrProcessor.zeroed 0) t.address.toNat (s.disks id).temporaryBuffer
        t.bytes).reply.getD (s.disks id).temporaryBuffer k := by
    intro k hk
    rw [himage, copyBytes_of_lt hk]
  have hcases := fun k => busLeft_cases hboards s.bus t.address.toNat t.bytes k
    (s.disks id).temporaryBuffer
  constructor
  · intro hout k hk
    rcases hcases k with hgiven | ⟨hleft, hnot⟩
    · exact Or.inl ⟨_, hgiven⟩
    · -- What was left in the buffer was stored.
      right
      rcases hout.delivered k hk with hsame | hgiven
      · rw [hstored k hk, hleft] at hsame
        exact hsame
      · exact absurd ⟨_, hgiven⟩ hnot
  · intro hthere
    constructor
    · intro hrefused j
      by_cases hj : j = id
      · subst hj
        funext x
        rw [himage, hrefused, Option.getD_none]
        by_cases hx : t.imageStart ≤ x ∧ x < t.imageStart + t.bytes
        · obtain ⟨k, rfl⟩ := Nat.exists_eq_add_of_le hx.1
          have hk : k < t.bytes := Nat.lt_of_add_lt_add_left hx.2
          rw [copyBytes_of_lt hk]
          rcases hthere k hk with ⟨v, hv⟩ | hsame
          · obtain ⟨data, hdata, _⟩ := hv (s.disks j).temporaryBuffer
            rw [hrefused] at hdata
            cases hdata
          · exact hsame
        · rw [copyBytes_of_not hx]
      · rw [dksTransfer_other s hj]
    · intro k hk
      rw [hstored k hk]
      rcases hcases k with hgiven | ⟨hleft, hnot⟩
      · exact Or.inr hgiven
      · rcases hthere k hk with hgiven | hsame
        · exact absurd hgiven hnot
        · exact Or.inl (hleft.trans hsame)

/-- From an accepted write command to the end of its transfer. -/
theorem diskWrite_unread_iff {s₀ s₁ s₂ s₃ : Dks D} {interval : Nat} (hboards : BlindBoards D)
    (hreach : DksReach s₀) (hsel : s₀.selected = some id)
    (hcmd : dksDispatchIo s₀ .write interval = some s₁)
    (hwait : DksWaits id s₁ s₂) (htransfer : DksStep s₂ (.transfer id) s₃) :
    UnreadStaysOut ⟨.write, s₀.transferAddress, s₀.portA, s₀.transferCount⟩ id s₂ s₃ ↔
      UnreadThere ⟨.write, s₀.transferAddress, s₀.portA, s₀.transferCount⟩ id s₂ := by
  have hinv := dksInv_reach hreach
  obtain ⟨j, hd⟩ := dksDispatchIo_dispatched hcmd
  have hj : j = id := Option.some.inj (hd.selected.symm.trans hsel)
  subst hj
  have hpending := hwait.pending (hd.inv hinv) (hd.pending hinv)
  have hs₃ : s₃ = dksTransfer s₂ j := by
    cases htransfer
    rfl
  rw [hs₃]
  exact hpending.unread_iff hboards rfl

end

/-! ## Two writes -/

/-- The write command for `transferTo`, up to its transfer. -/
def writeFrom (address : Word) : Dks Unit :=
  (dksDispatchIo (transferTo address) .write 0).getD (transferTo address)

theorem writeFrom_accepted (address : Word)
    (h : (dksDispatchIo (transferTo address) .write 0).isSome = true) :
    dksDispatchIo (transferTo address) .write 0 = some (writeFrom address) := by
  obtain ⟨s, hs⟩ := Option.isSome_iff_exists.mp h
  rw [writeFrom, hs]
  rfl

theorem blindBoards_unit : BlindBoards Unit :=
  fun _ _ _ _ => Blind.refuses fun _ => rfl

/-- Two sectors of RAM. -/
theorem diskWrite_unread_ram :
    UnreadStaysOut ⟨.write, (transferTo 0x1000).transferAddress, (transferTo 0x1000).portA,
      (transferTo 0x1000).transferCount⟩ 0 (writeFrom 0x1000) (dksTransfer (writeFrom 0x1000) 0) := by
  apply (diskWrite_unread_iff blindBoards_unit (transferTo_reach 0x1000) (by decide)
    (writeFrom_accepted _ (by decide)) .refl (.transfer _ 0 (by decide) (by decide))).mpr
  intro k hk
  left
  apply (busDelivers_ram_iff (by decide) hk).mpr
  decide

/-- Nothing is plugged in at 64 MB. What gets into the image is the buffer as the disk was
attached with it. -/
theorem write_from_nowhere_stores :
    DksReach (transferTo 0x4000000) ∧
    (transferTo 0x4000000).selected = some 0 ∧
    dksDispatchIo (transferTo 0x4000000) .write 0 = some (writeFrom 0x4000000) ∧
    DksStep (writeFrom 0x4000000) (.transfer 0) (dksTransfer (writeFrom 0x4000000) 0) ∧
    (eBusRead (writeFrom 0x4000000).bus (XrProcessor.zeroed 0) 0x4000000
      ((writeFrom 0x4000000).disks 0).temporaryBuffer 1024).reply = none ∧
    ((writeFrom 0x4000000).disks 0).image 2560 = 0xAA ∧
    ((dksTransfer (writeFrom 0x4000000) 0).disks 0).image 2560 = 0 ∧
    ¬UnreadStaysOut ⟨.write, 0x4000000, 5, 2⟩ 0 (writeFrom 0x4000000)
      (dksTransfer (writeFrom 0x4000000) 0) := by
  have hnone : (eBusRead (writeFrom 0x4000000).bus (XrProcessor.zeroed 0) 0x4000000
      ((writeFrom 0x4000000).disks 0).temporaryBuffer 1024).reply = none := by
    rw [eBusRead_ram _ _ (by decide)]
    rfl
  have hold : ((writeFrom 0x4000000).disks 0).image 2560 = 0xAA := by decide
  have hnew : ((dksTransfer (writeFrom 0x4000000) 0).disks 0).image 2560 = 0 := by decide
  refine ⟨transferTo_reach _, by decide, writeFrom_accepted _ (by decide),
    .transfer _ 0 (by decide) (by decide), hnone, hold, hnew, ?_⟩
  intro hout
  have hsame := congrFun (hout.refused hnone 0) 2560
  rw [hold, hnew] at hsame
  exact absurd hsame (by decide)

end Xremu
