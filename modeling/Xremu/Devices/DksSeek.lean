import Xremu.Devices.DksLatency

/-!
# Disk operations that take no time

A seek is charged in whole milliseconds, so a transfer close to the head is charged
nothing. `DKSSeek` means to count the sectors such transfers rotate by and to charge a
millisecond when there were more of them than pass in one. What it counts is a time
and not sectors, and it counts when the time is exactly zero: the counter never moves
(`dksSeek_eq`).

Here the times come from the geometry of the disk: where the head and the platter are
when the command is given. The commands of a disk are kept with the distances they
had to go and the interval they were given, and `zeroTimeBounded_iff` says for which
of them the promise of the counter is kept.
-/

namespace Xremu

/-! ## The geometry -/

def tracksPerCylinder : Nat := 4

/-- `MS_PER_ROTATION`, at 5400 rotations a minute. -/
def msPerRotation : ℚ≥0 := 1000 / (5400 / 60)

def settleTimeMs : ℚ≥0 := (3 : Nat)

def seekPerCylMs : ℚ≥0 := 1 / 10

/-- `SECTOR_PER_MS`. -/
def sectorPerMs (sectorsPerTrack : Nat) : ℚ≥0 := sectorsPerTrack / msPerRotation

structure DksGeometry where
  sectorsPerTrack : Nat
  /-- The sector under the head. -/
  platterLocation : Nat
  /-- The cylinder the head is at. -/
  headLocation : Nat
  seekTo : Nat
deriving DecidableEq

namespace DksGeometry

def lbaToSector (g : DksGeometry) (lba : Nat) : Nat := lba % g.sectorsPerTrack

def lbaToTrack (g : DksGeometry) (lba : Nat) : Nat := lba / g.sectorsPerTrack

def lbaToCylinder (g : DksGeometry) (lba : Nat) : Nat := g.lbaToTrack lba / tracksPerCylinder

/-- A slot of the disk table with no disk in it. -/
def absent : DksGeometry := ⟨0, 0, 0, 0⟩

/-- The track length `DKSAttachImage` makes up. The heads only go into a number it
prints. -/
def attach (sectorCount : Word) : DksGeometry :=
  ⟨if sectorCount % 17 ≠ 0 ∨ sectorCount > 0x44000 then 63 else 17, 0, 0, 0⟩

/-- The cylinders between the head and the sector. -/
def cylinders (g : DksGeometry) (lba : Nat) : Nat :=
  ((g.headLocation : Int) - g.lbaToCylinder lba).natAbs

/-- The sectors the platter turns by until the sector is under the head. -/
def rotation (g : DksGeometry) (lba : Nat) : Nat :=
  let sectorseek := (g.lbaToSector lba : Int) - g.platterLocation
  (if sectorseek < 0 then sectorseek + g.sectorsPerTrack else sectorseek).toNat

def cylseek (g : DksGeometry) (lba : Nat) : ℚ≥0 :=
  g.cylinders lba * seekPerCylMs +
    if g.headLocation ≠ g.lbaToCylinder lba then settleTimeMs else 0

def sectorseek (g : DksGeometry) (lba : Nat) : ℚ≥0 :=
  g.rotation lba / sectorPerMs g.sectorsPerTrack

/-- The platter goes on turning while the disk has nothing to do. -/
def spin (g : DksGeometry) (timeslice : Nat) : DksGeometry :=
  { g with
    platterLocation :=
      ⌊(g.platterLocation : ℚ≥0) + sectorPerMs g.sectorsPerTrack * timeslice⌋₊ % g.sectorsPerTrack }

/-- The end of `DKSCompleteTransfer`. -/
def arrive (g : DksGeometry) : DksGeometry :=
  { g with
    platterLocation := g.lbaToSector g.seekTo
    headLocation := g.lbaToCylinder g.seekTo }

/-- What `DKSSeek` calls nearby takes less than a millisecond: nothing to seek, and
fewer sectors to turn by than pass in one. -/
theorem floor_seek_eq_zero {g : DksGeometry} (hpos : 0 < g.sectorsPerTrack) (lba : Nat) :
    ⌊g.sectorseek lba + g.cylseek lba⌋₊ = 0 ↔
      g.cylinders lba = 0 ∧ (g.rotation lba : ℚ≥0) < sectorPerMs g.sectorsPerTrack := by
  have hsector : 0 < sectorPerMs g.sectorsPerTrack := by
    have hcast : (0 : ℚ≥0) < g.sectorsPerTrack := Nat.cast_pos.mpr hpos
    exact div_pos hcast (by norm_num [msPerRotation])
  have hhead : g.headLocation = g.lbaToCylinder lba ↔ g.cylinders lba = 0 := by
    unfold cylinders
    omega
  rw [Nat.floor_eq_zero]
  constructor
  · intro hlt
    have hnear : g.headLocation = g.lbaToCylinder lba := by
      by_contra hfar
      -- The settle time alone is more.
      have hsettle : (3 : ℚ≥0) ≤ g.sectorseek lba + g.cylseek lba := by
        unfold cylseek settleTimeMs
        rw [if_pos hfar]
        exact (le_add_of_nonneg_left zero_le).trans (le_add_of_nonneg_left zero_le)
      exact absurd (hsettle.trans_lt hlt) (by norm_num)
    refine ⟨hhead.mp hnear, ?_⟩
    have hseek : g.sectorseek lba < 1 := (le_add_of_nonneg_right zero_le).trans_lt hlt
    exact (div_lt_one hsector).mp hseek
  · rintro ⟨hzero, hlt⟩
    unfold cylseek
    rw [hzero, if_neg (not_not.mpr (hhead.mpr hzero)), Nat.cast_zero, zero_mul, add_zero, add_zero]
    exact (div_lt_one hsector).mpr hlt

end DksGeometry

/-! ## Runs -/

/-- A command as the drive took it: how far it had to go, and the interval stored for
it. -/
structure DksCharge where
  cylinders : Nat
  rotated : Nat
  interval : Nat
deriving DecidableEq

structure DksDrives (D : Type) where
  ledger : DksLedger D
  geometry : Nat → DksGeometry
  /-- The commands each disk has accepted, the last one at the end. -/
  charges : Nat → List DksCharge

section

variable {D : Type}

namespace DksDrives

def sectorPerMs (s : DksDrives D) (id : Nat) : ℚ≥0 :=
  Xremu.sectorPerMs (s.geometry id).sectorsPerTrack

/-- `DKSPortA + DKSTransferCount`. -/
def lba (s : DksDrives D) : Nat := (s.ledger.dks.portA + s.ledger.dks.transferCount).toNat

/-- `DKSWriteCMD`, with the seek taken from the geometry of the selected disk. -/
def writeCmd (s : DksDrives D) (value : Word) : DksDrives D :=
  match s.ledger.dks.selected with
  | none => { s with ledger := s.ledger.writeCmd s.sectorPerMs value 0 0 }
  | some id =>
      let g := s.geometry id
      let sectorseek := g.sectorseek s.lba
      let cylseek := g.cylseek s.lba
      let ledger := s.ledger.writeCmd s.sectorPerMs value sectorseek cylseek
      let interval := (s.ledger.seek s.sectorPerMs sectorseek cylseek id).1
      if (dksAccepted s.ledger.dks value interval).isSome then
        { ledger := ledger
          geometry := Function.update s.geometry id { g with seekTo := s.lba }
          charges := Function.update s.charges id
            (s.charges id ++
              [⟨g.cylinders s.lba, g.rotation s.lba, (ledger.dks.disks id).operationInterval⟩]) }
      else { s with ledger := ledger }

/-- `DKSSchedule`. -/
def schedule (s : DksDrives D) (id timeslice : Nat) : DksDrives D :=
  { s with
    ledger := s.ledger.schedule id timeslice
    geometry :=
      if dksScheduleExit s.ledger.dks id timeslice = .soak then
        Function.update s.geometry id ((s.geometry id).spin timeslice)
      else s.geometry }

/-- The end of a transfer: the head and the platter are where the seek went. -/
def finish (s : DksDrives D) (id : Nat) : DksDrives D :=
  { s with
    ledger := { s.ledger with dks := dksFinish s.ledger.dks id }
    geometry := Function.update s.geometry id (s.geometry id).arrive }

/-- The controller as it is started. -/
structure Started (s : DksDrives D) : Prop where
  ledger : s.ledger.Started
  geometry : ∀ id, s.geometry id =
    if (s.ledger.dks.disks id).present then .attach (s.ledger.dks.disks id).sectorCount else .absent
  charges : ∀ id, s.charges id = []

variable [EBusDevices D]

/-- Any commands and timeslices for all the disks. -/
inductive Reach : DksDrives D → Prop
  | start {s} : s.Started → Reach s
  | writeCmd {s} (value : Word) : Reach s → Reach (s.writeCmd value)
  | schedule {s} (id timeslice : Nat) : Reach s → Reach (s.schedule id timeslice)
  | finish {s} (id : Nat) : Reach s → (s.ledger.dks.disks id).transferred = true →
      Reach (s.finish id)
  | other {s} {op : DksOp D} {dks : Dks D} : Reach s → DksLedger.Untimed op →
      (∀ id, op ≠ .finish id) → DksStep s.ledger.dks op dks →
      Reach { s with ledger := { s.ledger with dks := dks } }

end DksDrives

/-! ## Time for nothing -/

def rotatedBy (charges : List DksCharge) : Nat := (charges.map (·.rotated)).sum

/-- However the commands with no interval follow each other, they turn the platter by no
more sectors than pass in a millisecond and those of the last of them, and with more
the next one is charged. -/
structure ZeroTimeBounded (perMs : ℚ≥0) (charges : List DksCharge) : Prop where
  bounded : ∀ run c, run ++ [c] <:+: charges → (∀ d ∈ run ++ [c], d.interval = 0) →
    (rotatedBy (run ++ [c]) : ℚ≥0) ≤ perMs + c.rotated
  charged : ∀ run c, run ++ [c] <:+: charges → (∀ d ∈ run, d.interval = 0) →
    perMs < rotatedBy run → 1 ≤ c.interval

/-- Nothing to seek, and less than a millisecond to turn. -/
def DksCharge.Nearby (perMs : ℚ≥0) (c : DksCharge) : Prop :=
  c.cylinders = 0 ∧ (c.rotated : ℚ≥0) < perMs

/-- The nearby commands a disk begins with turn the platter by no more sectors than pass
in a millisecond, those of the last one aside. -/
def NearbyBounded (perMs : ℚ≥0) (charges : List DksCharge) : Prop :=
  ∀ run c, run ++ [c] <+: charges → (∀ d ∈ run ++ [c], d.Nearby perMs) →
    (rotatedBy run : ℚ≥0) ≤ perMs

theorem rotatedBy_append (run more : List DksCharge) :
    rotatedBy (run ++ more) = rotatedBy run + rotatedBy more := by
  unfold rotatedBy
  rw [List.map_append, List.sum_append]

theorem rotatedBy_snoc (run : List DksCharge) (c : DksCharge) :
    rotatedBy (run ++ [c]) = rotatedBy run + c.rotated := by
  rw [rotatedBy_append]
  rfl

/-- The two halves say the same. -/
theorem zeroTimeBounded_of_charged {perMs : ℚ≥0} {charges : List DksCharge}
    (h : ∀ run c, run ++ [c] <:+: charges → (∀ d ∈ run ++ [c], d.interval = 0) →
      (rotatedBy run : ℚ≥0) ≤ perMs) : ZeroTimeBounded perMs charges := by
  constructor
  · intro run c hrun hzero
    rw [rotatedBy_snoc, Nat.cast_add]
    exact add_le_add_left (h run c hrun hzero) _
  · intro run c hrun hzero hover
    by_contra hfree
    have hlast : c.interval = 0 := by omega
    have hall : ∀ d ∈ run ++ [c], d.interval = 0 := by
      intro d hd
      rcases List.mem_append.mp hd with hin | hin
      · exact hzero d hin
      · rw [List.mem_singleton.mp hin]
        exact hlast
    exact absurd (h run c hrun hall) (not_le.mpr hover)

/-- The stored interval of a command is zero when it and all before it were nearby, and
not again after one that was not. -/
def ChargedInOrder (perMs : ℚ≥0) (charges : List DksCharge) : Prop :=
  ∀ run c, run ++ [c] <+: charges →
    (c.interval = 0 ↔ ∀ d ∈ run ++ [c], d.Nearby perMs)

theorem ChargedInOrder.bounded_iff {perMs : ℚ≥0} {charges : List DksCharge}
    (h : ChargedInOrder perMs charges) : ZeroTimeBounded perMs charges ↔ NearbyBounded perMs charges := by
  constructor
  · intro hbounded run c hprefix hnear
    have hzero : ∀ d ∈ run ++ [c], d.interval = 0 := by
      intro d hd
      -- Each of them ends a shorter beginning of nearby commands.
      obtain ⟨front, back, hsplit⟩ := List.append_of_mem hd
      have hshort : front ++ [d] <+: run ++ [c] := by
        rw [hsplit]
        exact ⟨back, by simp⟩
      apply (h front d (hshort.trans hprefix)).mpr
      intro e he
      exact hnear e (hshort.mem he)
    have hle := hbounded.bounded run c hprefix.isInfix hzero
    rw [rotatedBy_snoc, Nat.cast_add] at hle
    exact le_of_add_le_add_right hle
  · intro hnearby
    apply zeroTimeBounded_of_charged
    rintro run c ⟨front, back, hsplit⟩ hzero
    have hprefix : (front ++ run) ++ [c] <+: charges := by
      rw [← hsplit]
      exact ⟨back, by simp⟩
    have hlast : c.interval = 0 := hzero c (by simp)
    have hle := hnearby (front ++ run) c hprefix ((h _ c hprefix).mp hlast)
    rw [rotatedBy_append, Nat.cast_add] at hle
    exact (le_add_of_nonneg_left zero_le).trans hle

theorem ChargedInOrder.nil (perMs : ℚ≥0) : ChargedInOrder perMs [] := by
  intro run c hprefix
  have hnil := List.prefix_nil.mp hprefix
  simp at hnil

theorem ChargedInOrder.snoc {perMs : ℚ≥0} {charges : List DksCharge} {c : DksCharge}
    (h : ChargedInOrder perMs charges)
    (hlast : c.interval = 0 ↔ ∀ d ∈ charges ++ [c], d.Nearby perMs) :
    ChargedInOrder perMs (charges ++ [c]) := by
  intro run d hprefix
  rcases List.prefix_concat_iff.mp hprefix with hall | hold
  · obtain ⟨rfl, hd⟩ := List.append_inj' hall rfl
    obtain rfl := List.cons.inj hd |>.1
    exact hlast
  · exact h run d hold

/-! ## What the drives do -/

variable {s : DksDrives D} {id : Nat}

/-- A command that a disk accepts. -/
structure DksDrives.Accepts (s : DksDrives D) (value : Word) (id : Nat) : Prop where
  inside : (s.ledger.dks.disks id).sectorCount ≠ 0
  geometry : (s.writeCmd value).geometry =
    Function.update s.geometry id { s.geometry id with seekTo := s.lba }
  charges : (s.writeCmd value).charges =
    Function.update s.charges id (s.charges id ++
      [⟨(s.geometry id).cylinders s.lba, (s.geometry id).rotation s.lba,
        ((s.writeCmd value).ledger.dks.disks id).operationInterval⟩])
  account : (s.writeCmd value).ledger.account =
    Function.update s.ledger.account id
      { cost := ⌊(s.geometry id).sectorseek s.lba + (s.geometry id).cylseek s.lba⌋₊
        consumed := 0
        earlier := (s.ledger.account id).earlier + (s.ledger.account id).cost }

/-- A step that the accounts and positions of the drives do not notice. -/
structure DksDrives.Passes (s r : DksDrives D) : Prop where
  geometry : ∀ id, (r.geometry id).sectorsPerTrack = (s.geometry id).sectorsPerTrack
  charges : r.charges = s.charges
  earlier : ∀ id, (r.ledger.account id).earlier = (s.ledger.account id).earlier
  cost : ∀ id, (r.ledger.account id).cost = (s.ledger.account id).cost

theorem DksDrives.writeCmd_cases (s : DksDrives D) (value : Word) :
    s.Passes (s.writeCmd value) ∨ ∃ id, s.Accepts value id := by
  cases hsel : s.ledger.dks.selected with
  | none =>
      left
      have hnone : ∀ interval, dksAccepted s.ledger.dks value interval = none := by
        intro interval
        cases haccepted : dksAccepted s.ledger.dks value interval with
        | none => rfl
        | some p =>
            obtain ⟨hid, -⟩ := dksAccepted_selected haccepted
            rw [hsel] at hid
            cases hid
      have hcmd : s.writeCmd value =
          { s with ledger := s.ledger.writeCmd s.sectorPerMs value 0 0 } := by
        unfold DksDrives.writeCmd
        rw [hsel]
      have haccount : (s.ledger.writeCmd s.sectorPerMs value 0 0).account = s.ledger.account := by
        unfold DksLedger.writeCmd
        extract_lets interval dks
        rw [hnone interval]
      rw [hcmd]
      exact ⟨fun _ => rfl, rfl, fun id => congrArg (fun a => (a id).earlier) haccount,
        fun id => congrArg (fun a => (a id).cost) haccount⟩
  | some id =>
      let interval := (s.ledger.seek s.sectorPerMs ((s.geometry id).sectorseek s.lba)
        ((s.geometry id).cylseek s.lba) id).1
      cases haccepted : dksAccepted s.ledger.dks value interval with
      | none =>
          left
          have hcmd : s.writeCmd value = { s with
              ledger := s.ledger.writeCmd s.sectorPerMs value ((s.geometry id).sectorseek s.lba)
                ((s.geometry id).cylseek s.lba) } := by
            unfold DksDrives.writeCmd
            rw [hsel]
            dsimp only
            rw [haccepted]
            rfl
          have haccount : (s.ledger.writeCmd s.sectorPerMs value ((s.geometry id).sectorseek s.lba)
              ((s.geometry id).cylseek s.lba)).account = s.ledger.account := by
            unfold DksLedger.writeCmd
            rw [hsel]
            dsimp only
            rw [haccepted]
          rw [hcmd]
          exact ⟨fun _ => rfl, rfl, fun id => congrArg (fun a => (a id).earlier) haccount,
            fun id => congrArg (fun a => (a id).cost) haccount⟩
      | some p =>
          obtain ⟨j, t⟩ := p
          right
          obtain ⟨hid, ioType, -, hsome⟩ := dksAccepted_selected haccepted
          obtain rfl : id = j := Option.some.inj (hsel.symm.trans hid)
          obtain ⟨s', hs'⟩ := Option.isSome_iff_exists.mp hsome
          obtain ⟨k, hd⟩ := dksDispatchIo_dispatched hs'
          obtain rfl : id = k := Option.some.inj (hsel.symm.trans hd.selected)
          have hcmd : s.writeCmd value =
              { ledger := s.ledger.writeCmd s.sectorPerMs value ((s.geometry id).sectorseek s.lba)
                  ((s.geometry id).cylseek s.lba)
                geometry := Function.update s.geometry id { s.geometry id with seekTo := s.lba }
                charges := Function.update s.charges id (s.charges id ++
                  [⟨(s.geometry id).cylinders s.lba, (s.geometry id).rotation s.lba,
                    ((s.ledger.writeCmd s.sectorPerMs value ((s.geometry id).sectorseek s.lba)
                      ((s.geometry id).cylseek s.lba)).dks.disks id).operationInterval⟩]) } := by
            unfold DksDrives.writeCmd
            rw [hsel]
            dsimp only
            rw [haccepted]
            rfl
          refine ⟨id, ?_, ?_, ?_, ?_⟩
          · intro hempty
            have hinside := hd.inside
            rw [hempty] at hinside
            exact absurd hinside BitVec.not_lt_zero
          · rw [hcmd]
          · rw [hcmd]
          · rw [hcmd]
            show (s.ledger.writeCmd s.sectorPerMs value ((s.geometry id).sectorseek s.lba)
              ((s.geometry id).cylseek s.lba)).account = _
            unfold DksLedger.writeCmd
            rw [hsel]
            dsimp only
            rw [haccepted]

theorem DksDrives.writeCmd_ledger (s : DksDrives D) (value : Word) : ∃ sectorseek cylseek,
    (s.writeCmd value).ledger = s.ledger.writeCmd s.sectorPerMs value sectorseek cylseek := by
  unfold DksDrives.writeCmd
  split
  · exact ⟨0, 0, rfl⟩
  · dsimp only
    split
    · exact ⟨_, _, rfl⟩
    · exact ⟨_, _, rfl⟩

theorem DksDrives.Passes.sectorPerMs {r : DksDrives D} (h : s.Passes r) :
    r.sectorPerMs = s.sectorPerMs := by
  funext id
  exact congrArg Xremu.sectorPerMs (h.geometry id)

theorem DksDrives.Accepts.sectorsPerTrack {value : Word} {j : Nat} (h : s.Accepts value j)
    (id : Nat) : ((s.writeCmd value).geometry id).sectorsPerTrack =
      (s.geometry id).sectorsPerTrack := by
  rw [h.geometry, Function.update_apply]
  split
  · rename_i hid
    rw [hid]
  · rfl

theorem DksDrives.Accepts.sectorPerMs {value : Word} {j : Nat} (h : s.Accepts value j) :
    (s.writeCmd value).sectorPerMs = s.sectorPerMs := by
  funext id
  exact congrArg Xremu.sectorPerMs (h.sectorsPerTrack id)

/-- The promise of the counter, in terms of the account of the disk. -/
structure DksDrives.InOrder (s : DksDrives D) (id : Nat) : Prop where
  turning : (s.ledger.dks.disks id).sectorCount ≠ 0 → 0 < (s.geometry id).sectorsPerTrack
  nearby : (∀ c ∈ s.charges id, c.Nearby (s.sectorPerMs id)) ↔
    (s.ledger.account id).earlier + (s.ledger.account id).cost = 0
  charges : ChargedInOrder (s.sectorPerMs id) (s.charges id)

theorem DksDrives.InOrder.passes {r : DksDrives D} (h : s.InOrder id) (hpasses : s.Passes r)
    (hcount : (r.ledger.dks.disks id).sectorCount = (s.ledger.dks.disks id).sectorCount) :
    r.InOrder id := by
  have hper : r.sectorPerMs id = s.sectorPerMs id := congrFun hpasses.sectorPerMs id
  constructor
  · rw [hcount, hpasses.geometry]
    exact h.turning
  · rw [hpasses.charges, hper, hpasses.earlier, hpasses.cost]
    exact h.nearby
  · rw [hpasses.charges, hper]
    exact h.charges

theorem DksDrives.InOrder.accepts {value : Word} {j : Nat} (h : ∀ id, s.InOrder id)
    (haccepts : s.Accepts value j) (hcharged : DksCharged (s.writeCmd value).ledger id)
    (hcount : ((s.writeCmd value).ledger.dks.disks id).sectorCount =
      (s.ledger.dks.disks id).sectorCount) : (s.writeCmd value).InOrder id := by
  have hspt := haccepts.sectorsPerTrack id
  have hper : (s.writeCmd value).sectorPerMs id = s.sectorPerMs id :=
    congrFun haccepts.sectorPerMs id
  by_cases hid : id = j
  · subst hid
    -- The new command is nearby exactly when it costs nothing.
    have hcost := DksGeometry.floor_seek_eq_zero ((h id).turning haccepts.inside) s.lba
    have hnearby : (∀ c ∈ (s.writeCmd value).charges id, c.Nearby (s.sectorPerMs id)) ↔
        ((s.writeCmd value).ledger.account id).earlier +
          ((s.writeCmd value).ledger.account id).cost = 0 := by
      rw [haccepts.charges, haccepts.account, Function.update_self, Function.update_self]
      simp only [List.forall_mem_append, List.forall_mem_singleton]
      rw [(h id).nearby]
      constructor
      · rintro ⟨hold, hnew⟩
        rw [hold, hcost.mpr hnew]
      · intro hsum
        exact ⟨Nat.eq_zero_of_add_eq_zero_right hsum,
          hcost.mp (Nat.eq_zero_of_add_eq_zero_left hsum)⟩
    refine ⟨?_, ?_, ?_⟩
    · rw [hcount, hspt]
      exact (h id).turning
    · rw [hper]
      exact hnearby
    · rw [hper]
      have hlast := hcharged.interval.trans hnearby.symm
      rw [haccepts.charges, Function.update_self] at hlast ⊢
      exact (h id).charges.snoc hlast
  · refine ⟨?_, ?_, ?_⟩
    · rw [hcount, hspt]
      exact (h id).turning
    · rw [hper, haccepts.charges, haccepts.account, Function.update_of_ne hid,
        Function.update_of_ne hid]
      exact (h id).nearby
    · rw [hper, haccepts.charges, Function.update_of_ne hid]
      exact (h id).charges

variable [EBusDevices D]

/-- Nothing that happens to a disk changes its size. -/
theorem dksStep_sectorCount {s s' : Dks D} {op : DksOp D} (h : DksStep s op s') (j : Nat) :
    (s'.disks j).sectorCount = (s.disks j).sectorCount := by
  rcases dksStep_cases h with hq | ⟨ioType, id, hd⟩ | ⟨id, _, _, rfl⟩ | ⟨id, _, rfl⟩
  · exact (hq.disks j).sectorCount
  · obtain ⟨interval, completing, rfl⟩ := hd.result
    rw [Dks.setDisk_disks]
    split
    · rename_i hj
      rw [hj]
    · rfl
  · exact (dksTransfer_geometry s id j).sectorCount
  · rw [dksFinish_disks]
    split
    · rename_i hj
      rw [hj]
    · rfl

/-! ### Every run -/

omit [EBusDevices D] in
theorem DksDrives.Started.inOrder (h : s.Started) (id : Nat) : s.InOrder id := by
  constructor
  · intro hcount
    rcases h.ledger.dks.disks id with hnone | ⟨image, length, himage⟩
    · rw [hnone] at hcount
      exact absurd rfl hcount
    · have hpresent : (s.ledger.dks.disks id).present = true := by
        rw [himage]
        rfl
      rw [h.geometry, if_pos hpresent]
      show 0 < if _ then 63 else 17
      split <;> decide
  · rw [h.charges, h.ledger.account]
    exact iff_of_true (List.forall_mem_nil _) rfl
  · rw [h.charges]
    exact ChargedInOrder.nil _

theorem DksDrives.Reach.inOrder (h : s.Reach) :
    s.ledger.Reach s.sectorPerMs ∧ ∀ id, s.InOrder id := by
  induction h with
  | start hstart => exact ⟨.start hstart.ledger, hstart.inOrder⟩
  | @writeCmd s value _ ih =>
      obtain ⟨hledger, horder⟩ := ih
      obtain ⟨sectorseek, cylseek, hcmd⟩ := s.writeCmd_ledger value
      obtain ⟨interval, hdks⟩ := s.ledger.writeCmd_dks s.sectorPerMs value sectorseek cylseek
      have hreach : (s.writeCmd value).ledger.Reach s.sectorPerMs := by
        rw [hcmd]
        exact .writeCmd value sectorseek cylseek hledger
      have hcount : ∀ id, ((s.writeCmd value).ledger.dks.disks id).sectorCount =
          (s.ledger.dks.disks id).sectorCount := by
        rw [hcmd, hdks]
        exact dksStep_sectorCount (.writeCmd s.ledger.dks value interval)
      rcases s.writeCmd_cases value with hpasses | ⟨j, haccepts⟩
      · exact ⟨hpasses.sectorPerMs ▸ hreach, fun id => (horder id).passes hpasses (hcount id)⟩
      · exact ⟨haccepts.sectorPerMs ▸ hreach,
          fun id => .accepts horder haccepts (hreach.charged id) (hcount id)⟩
  | @schedule s id timeslice _ ih =>
      obtain ⟨hledger, horder⟩ := ih
      have hpasses : s.Passes (s.schedule id timeslice) := by
        refine ⟨fun j => ?_, rfl, fun j => ?_, fun j => ?_⟩
        · -- A platter that turns is as long as before.
          unfold DksDrives.schedule
          dsimp only
          split
          · rw [Function.update_apply]
            split
            · rename_i hj
              rw [hj]
              rfl
            · rfl
          · rfl
        · unfold DksDrives.schedule DksLedger.schedule
          dsimp only
          rw [Function.update_apply]
          split
          · rename_i hj
            rw [hj]
          · rfl
        · unfold DksDrives.schedule DksLedger.schedule
          dsimp only
          rw [Function.update_apply]
          split
          · rename_i hj
            rw [hj]
          · rfl
      refine ⟨hpasses.sectorPerMs ▸ .schedule id timeslice hledger, fun j => ?_⟩
      exact (horder j).passes hpasses (dksStep_sectorCount (.schedule s.ledger.dks id timeslice) j)
  | @finish s id _ htransferred ih =>
      obtain ⟨hledger, horder⟩ := ih
      have hstep : DksStep s.ledger.dks (.finish id) (dksFinish s.ledger.dks id) :=
        .finish s.ledger.dks id htransferred
      have hpasses : s.Passes (s.finish id) := by
        refine ⟨fun j => ?_, rfl, fun _ => rfl, fun _ => rfl⟩
        unfold DksDrives.finish
        dsimp only
        rw [Function.update_apply]
        split
        · rename_i hj
          rw [hj]
          rfl
        · rfl
      refine ⟨hpasses.sectorPerMs ▸ .other hledger (.finish id) hstep, fun j => ?_⟩
      exact (horder j).passes hpasses (dksStep_sectorCount hstep j)
  | @other s op dks _ hop _ hstep ih =>
      obtain ⟨hledger, horder⟩ := ih
      have hpasses : s.Passes { s with ledger := { s.ledger with dks := dks } } :=
        ⟨fun _ => rfl, rfl, fun _ => rfl, fun _ => rfl⟩
      refine ⟨.other hledger hop hstep, fun j => ?_⟩
      exact (horder j).passes hpasses (dksStep_sectorCount hstep j)

/-- Any commands on all the disks, and any time between them. The operations that take no
time are bounded if the commands a disk begins with bound themselves, and only then. -/
theorem zeroTimeBounded_iff (h : s.Reach) (id : Nat) :
    ZeroTimeBounded (s.sectorPerMs id) (s.charges id) ↔
      NearbyBounded (s.sectorPerMs id) (s.charges id) :=
  (h.inOrder.2 id).charges.bounded_iff

end

/-! ## Reads one after the other -/

/-- The sample disk of 128 sectors, 63 to a track. -/
def drivesSample : DksDrives Unit where
  ledger := latencySample
  geometry id := if id = 0 then .attach 128 else .absent
  charges _ := []

namespace DksDrives

/-- Port A, then a command. -/
def ports (s : DksDrives Unit) (portA value : Word) : DksDrives Unit :=
  writeCmd { s with ledger := { s.ledger with dks := { s.ledger.dks with portA := portA } } } value

/-- A read of the next five sectors, and its transfer. -/
def readAt (s : DksDrives Unit) (sector : Word) : DksDrives Unit :=
  let s := s.ports sector 2
  finish { s with ledger := { s.ledger with dks := dksTransfer s.ledger.dks 0 } } 0

theorem Reach.ports {s : DksDrives Unit} (h : s.Reach) (portA value : Word) :
    (s.ports portA value).Reach :=
  .writeCmd value (.other h (.writePortA portA) (fun _ hop => by cases hop) (.writePortA s.ledger.dks portA))

theorem Reach.readAt {s : DksDrives Unit} (h : s.Reach) (sector : Word)
    (hcompleting : ((s.ports sector 2).ledger.dks.disks 0).completing = true)
    (htransferred : ((s.ports sector 2).ledger.dks.disks 0).transferred = false) :
    (s.readAt sector).Reach := by
  have hread := h.ports sector 2
  have hmoved := Reach.other hread (.transfer 0) (fun _ hop => by cases hop)
    (.transfer (s.ports sector 2).ledger.dks 0 hcompleting htransferred)
  apply Reach.finish 0 hmoved
  show ((dksTransfer (s.ports sector 2).ledger.dks 0).disks 0).transferred = true
  unfold dksTransfer
  extract_lets disk t
  split
  · rw [Dks.setDisk_disks, if_pos rfl]
  · rw [Dks.setDisk_disks, if_pos rfl]
    rfl

end DksDrives

/-- Five sectors at a time. -/
def fiveAtATime : DksDrives Unit := (drivesSample.ports 0 1).ports 5 8

/-- The first ten sectors. -/
def tenSectors : DksDrives Unit := (fiveAtATime.readAt 0).readAt 5

theorem tenSectors_reach : tenSectors.Reach := by
  have hstart : drivesSample.Reach := by
    refine .start ⟨⟨⟨diskSample_disks, rfl, rfl, rfl, rfl⟩, rfl, fun _ => rfl, fun _ => rfl⟩, ?_,
      fun _ => rfl⟩
    intro id
    show (if id = 0 then DksGeometry.attach 128 else .absent) =
      if (if id = 0 then dksAttachImage (fun _ => 0xAA) 0x10000 else .absent).present then
        .attach (if id = 0 then dksAttachImage (fun _ => 0xAA) 0x10000 else .absent).sectorCount
      else .absent
    by_cases hid : id = 0
    · rw [if_pos hid, if_pos hid]
      rfl
    · rw [if_neg hid, if_neg hid]
      rfl
  have hfive : fiveAtATime.Reach := (hstart.ports 0 1).ports 5 8
  have hfirst := hfive.readAt 0 (by decide +kernel) (by decide +kernel)
  exact hfirst.readAt 5 (by decide +kernel) (by decide +kernel)

theorem tenSectors_charges : tenSectors.charges 0 = [⟨0, 5, 0⟩, ⟨0, 5, 0⟩] := by decide +kernel

/-- Two reads turn the platter by ten sectors, within the bound. -/
theorem zeroTimeBounded_tenSectors :
    ZeroTimeBounded (tenSectors.sectorPerMs 0) (tenSectors.charges 0) := by
  apply (zeroTimeBounded_iff tenSectors_reach 0).mpr
  rw [tenSectors_charges]
  have hper : tenSectors.sectorPerMs 0 = 567 / 100 := by decide +kernel
  rw [hper]
  intro run c hprefix _
  rcases run with - | ⟨d, - | ⟨e, run⟩⟩
  · exact zero_le
  · obtain ⟨rfl, -⟩ : d = ⟨0, 5, 0⟩ ∧ _ := List.cons_prefix_cons.mp hprefix
    show ((5 : Nat) : ℚ≥0) ≤ 567 / 100
    decide +kernel
  · have hlength := hprefix.length_le
    simp at hlength

/-- A third read, which takes no time either: fifteen sectors for nothing. -/
theorem fifteen_sectors_for_nothing :
    (tenSectors.readAt 10).Reach ∧
    ¬ZeroTimeBounded ((tenSectors.readAt 10).sectorPerMs 0) ((tenSectors.readAt 10).charges 0) := by
  refine ⟨tenSectors_reach.readAt 10 (by decide +kernel) (by decide +kernel), ?_⟩
  have hcharges : (tenSectors.readAt 10).charges 0 = [⟨0, 5, 0⟩, ⟨0, 5, 0⟩, ⟨0, 5, 0⟩] := by
    decide +kernel
  have hper : (tenSectors.readAt 10).sectorPerMs 0 = 567 / 100 := by decide +kernel
  rw [hcharges, hper]
  intro hbounded
  have hle := hbounded.bounded [⟨0, 5, 0⟩, ⟨0, 5, 0⟩] ⟨0, 5, 0⟩ List.infix_rfl (by decide)
  have hsum : ((15 : Nat) : ℚ≥0) ≤ 567 / 100 + (5 : Nat) := hle
  revert hsum
  decide +kernel

end Xremu
