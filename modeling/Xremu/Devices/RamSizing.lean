import Mathlib.Data.Nat.Count
import Xremu.Devices.HostPath

/-!
# How much RAM a node gets

`RAMInit` deals the RAM of a node out in units of 4 MB, one to each of its slots in turn,
and adds what is left to the first. The slots share the units evenly, but when the first
is full already there is no room for the rest: `nodeSized_iff`.
-/

namespace Xremu

/-! ## The shares of the slots -/

/-- What the first slot of a node gets. -/
def firstShare (nodeRam : Nat) : Nat :=
  (nodeRam / 0x400000 + 1) / 2 * 0x400000 + nodeRam % 0x400000

def secondShare (nodeRam : Nat) : Nat := nodeRam / 0x400000 / 2 * 0x400000

theorem shares_sum (nodeRam : Nat) : firstShare nodeRam + secondShare nodeRam = nodeRam := by
  unfold firstShare secondShare
  omega

theorem secondShare_le {nodeRam : Nat} (h : nodeRam ≤ 0x4000000) :
    secondShare nodeRam ≤ 0x2000000 := by
  unfold secondShare
  omega

/-- Sixteen units are even; of fifteen, eight are in the first slot. -/
theorem firstShare_le_iff {nodeRam : Nat} (h : nodeRam ≤ 0x4000000) :
    firstShare nodeRam ≤ 0x2000000 ↔ ¬(0x3C00000 < nodeRam ∧ nodeRam < 0x4000000) := by
  unfold firstShare
  omega

/-- The units of a node, from its first slot on (`i` is 0, or 2 after a full turn) and from
its second. -/
theorem ramStack_sizes (first : Nat) (sizes : Nat → Nat) (units : Nat) (k : Nat) :
    (∀ i, i = 0 ∨ i = slotsPerNode → ramStack first units i sizes k =
      sizes k + if k = first then (units + 1) / 2 * 0x400000
        else if k = first + 1 then units / 2 * 0x400000 else 0) ∧
    ramStack first units 1 sizes k =
      sizes k + if k = first then units / 2 * 0x400000
        else if k = first + 1 then (units + 1) / 2 * 0x400000 else 0 := by
  have hslots : slotsPerNode = 2 := rfl
  induction units generalizing sizes with
  | zero =>
      constructor
      · intro i _
        show sizes k = _
        split_ifs <;> omega
      · show sizes k = _
        split_ifs <;> omega
  | succ units ih =>
      constructor
      · intro i hi
        have hturn : (if i ≥ slotsPerNode then 0 else i) = 0 := by
          rcases hi with rfl | rfl
          · rfl
          · rfl
        rw [ramStack, hturn, (ih _).2, Nat.add_zero]
        by_cases hk : k = first
        · subst hk
          rw [Function.update_self, if_pos rfl, if_pos rfl]
          omega
        · rw [Function.update_of_ne hk, if_neg hk, if_neg hk]
      · have hturn : (if 1 ≥ slotsPerNode then 0 else 1) = 1 := rfl
        rw [ramStack, hturn, (ih _).1 (1 + 1) (Or.inr rfl)]
        by_cases hk : k = first + 1
        · subst hk
          rw [Function.update_self, if_neg (Nat.succ_ne_self first),
            if_neg (Nat.succ_ne_self first), if_pos rfl, if_pos rfl]
          omega
        · rw [Function.update_of_ne hk, if_neg hk, if_neg hk]

/-- One node: its own two slots, and no other. -/
theorem ramInitNode_sizes (nodeRam sizes : Nat → Nat) (nodeid k : Nat) :
    ramInitNode nodeRam sizes nodeid k =
      sizes k + if k = nodeid * slotsPerNode then firstShare (nodeRam nodeid)
        else if k = nodeid * slotsPerNode + 1 then secondShare (nodeRam nodeid) else 0 := by
  unfold ramInitNode
  rw [Function.update_apply]
  by_cases hfirst : k = nodeid * slotsPerNode
  · rw [if_pos hfirst, if_pos hfirst, ← hfirst,
      (ramStack_sizes k sizes (nodeRam nodeid / 0x400000) k).1 0 (Or.inl rfl), if_pos rfl,
      firstShare, Nat.add_assoc]
  · rw [if_neg hfirst, if_neg hfirst,
      (ramStack_sizes _ sizes (nodeRam nodeid / 0x400000) k).1 0 (Or.inl rfl), if_neg hfirst]
    rfl

/-- `RAMInit` gives the slots of every node their shares. -/
theorem ramInit_shares (nodeRam : Nat → Nat) {nodeid : Nat} (h : nodeid < xrNodeMax) :
    ramInit nodeRam (nodeid * slotsPerNode) = firstShare (nodeRam nodeid) ∧
    ramInit nodeRam (nodeid * slotsPerNode + 1) = secondShare (nodeRam nodeid) := by
  have hslots : slotsPerNode = 2 := rfl
  have hnodes : xrNodeMax = 4 := rfl
  have hrange : List.range xrNodeMax = [0, 1, 2, 3] := rfl
  have hshares : ∀ k, ramInit nodeRam k = ramInitNode nodeRam (ramInitNode nodeRam
      (ramInitNode nodeRam (ramInitNode nodeRam (fun _ => 0) 0) 1) 2) 3 k := by
    intro k
    unfold ramInit
    rw [hrange]
    rfl
  rw [hshares, hshares]
  simp only [ramInitNode_sizes, hslots]
  have hcases : nodeid = 0 ∨ nodeid = 1 ∨ nodeid = 2 ∨ nodeid = 3 := by omega
  rcases hcases with rfl | rfl | rfl | rfl
  · simp
  · simp
  · simp
  · simp

/-! ## What answers on the bus -/

section

variable {D : Type} [EBusDevices D]

/-- The byte at an address can be read. -/
def RamAnswers (s : XrStation D) (address : Nat) : Prop :=
  (eBusRead s (XrProcessor.zeroed 0) address (fun _ => 0) 1).reply.isSome = true

instance (s : XrStation D) (address : Nat) : Decidable (RamAnswers s address) :=
  inferInstanceAs (Decidable (_ = true))

theorem ramAnswers_iff (s : XrStation D) {address : Nat} (h : address < ramMaximum) :
    RamAnswers s address ↔ ramOffsetOf address < s.ram.size (ramSlotOf address) := by
  unfold RamAnswers
  rw [eBusRead_ram s _ h]
  unfold ramRead
  dsimp only
  by_cases hout : ramOffsetOf address + 1 > s.ram.size (ramSlotOf address)
  · rw [if_pos hout]
    constructor
    · intro hnone
      cases hnone
    · intro hlt
      omega
  · rw [if_neg hout]
    exact ⟨fun _ => by omega, fun _ => rfl⟩

/-- RAM of a node: each slot fits its part of the address space, and together they are what
the node has, on the bus as well. -/
structure NodeSized (s : XrStation D) (nodeid nodeRam : Nat) : Prop where
  slots : ∀ i, i < slotsPerNode → s.ram.size (nodeid * slotsPerNode + i) ≤ ramSlotSize
  sum : s.ram.size (nodeid * slotsPerNode) + s.ram.size (nodeid * slotsPerNode + 1) = nodeRam
  answers : Nat.count (fun k => RamAnswers s (nodeid * ramPerNode + k)) ramPerNode = nodeRam

/-- The numbers below a bound that are below another one. -/
theorem count_lt {m n : Nat} (h : m ≤ n) : Nat.count (fun k => k < m) n = m := by
  obtain ⟨r, rfl⟩ := Nat.exists_eq_add_of_le h
  rw [Nat.count_add, Nat.count_iff_forall.mpr fun _ hk => hk, Nat.count_iff_forall_not.mpr]
  · rfl
  · intro k _ hlt
    omega

/-- Each slot answers up to its size. -/
theorem slot_answers (s : XrStation D) {slot : Nat} (hslot : slot < ramSlotCount)
    (hsize : s.ram.size slot ≤ ramSlotSize) :
    Nat.count (fun k => RamAnswers s (slot * ramSlotSize + k)) ramSlotSize = s.ram.size slot := by
  obtain ⟨-, hmax, hslotsize, -, -⟩ := memoryMap
  have hcount : ramSlotCount = 8 := rfl
  rw [hslotsize] at hsize ⊢
  have hsame : ∀ k, k < 0x2000000 →
      (RamAnswers s (slot * 0x2000000 + k) ↔ k < s.ram.size slot) := by
    intro k hk
    have hlt : slot * 0x2000000 + k < ramMaximum := by omega
    have hslotof : ramSlotOf (slot * 0x2000000 + k) = slot := by
      unfold ramSlotOf
      omega
    have hoffset : ramOffsetOf (slot * 0x2000000 + k) = k := by
      unfold ramOffsetOf
      omega
    rw [ramAnswers_iff s hlt, hslotof, hoffset]
  apply Nat.le_antisymm
  · calc Nat.count (fun k => RamAnswers s (slot * 0x2000000 + k)) 0x2000000
        ≤ Nat.count (fun k => k < s.ram.size slot) 0x2000000 :=
          Nat.count_mono_left fun k hk => (hsame k hk).mp
      _ = s.ram.size slot := count_lt hsize
  · calc s.ram.size slot
        = Nat.count (fun k => k < s.ram.size slot) 0x2000000 := (count_lt hsize).symm
      _ ≤ Nat.count (fun k => RamAnswers s (slot * 0x2000000 + k)) 0x2000000 :=
          Nat.count_mono_left fun k hk => (hsame k hk).mpr

/-- A node answers as its two slots do. -/
theorem node_answers (s : XrStation D) {nodeid : Nat} (hnode : nodeid < xrNodeMax)
    (hsizes : ∀ i, i < slotsPerNode → s.ram.size (nodeid * slotsPerNode + i) ≤ ramSlotSize) :
    Nat.count (fun k => RamAnswers s (nodeid * ramPerNode + k)) ramPerNode =
      s.ram.size (nodeid * slotsPerNode) + s.ram.size (nodeid * slotsPerNode + 1) := by
  have hnodes : xrNodeMax = 4 := rfl
  have hslots : slotsPerNode = 2 := rfl
  have hcount : ramSlotCount = 8 := rfl
  have hper : ramPerNode = ramSlotSize + ramSlotSize := rfl
  have hbase : nodeid * ramPerNode = nodeid * slotsPerNode * ramSlotSize := by
    rw [Nat.mul_assoc]
  have hslot : nodeid * slotsPerNode + 1 < ramSlotCount := by
    rw [hslots]
    omega
  have hfirst := slot_answers s (Nat.lt_of_succ_lt hslot) (hsizes 0 (by decide))
  have hsecond := slot_answers s hslot (hsizes 1 (by decide))
  have hnext : ∀ k, nodeid * slotsPerNode * ramSlotSize + (ramSlotSize + k) =
      (nodeid * slotsPerNode + 1) * ramSlotSize + k := by
    intro k
    rw [Nat.succ_mul, Nat.add_assoc]
  rw [hbase, hper, Nat.count_add, hfirst]
  simp only [hnext]
  rw [hsecond]

/-- For each node, whatever the others have: its RAM is there unless it is more than fifteen
units and less than sixteen. -/
theorem nodeSized_iff (s : XrStation D) {nodeRam : Nat → Nat} (hinit : s.ram.size = ramInit nodeRam)
    {nodeid : Nat} (hnode : nodeid < xrNodeMax) (hram : nodeRam nodeid ≤ ramPerNode) :
    NodeSized s nodeid (nodeRam nodeid) ↔
      ¬(0x3C00000 < nodeRam nodeid ∧ nodeRam nodeid < 0x4000000) := by
  have hslots : slotsPerNode = 2 := rfl
  have hslotsize : ramSlotSize = 0x2000000 := rfl
  have hram : nodeRam nodeid ≤ 0x4000000 := hram
  obtain ⟨hfirst, hsecond⟩ := ramInit_shares nodeRam hnode
  rw [← hinit] at hfirst hsecond
  constructor
  · intro hsized
    have hle := hsized.slots 0 (by decide)
    rw [Nat.add_zero, hfirst] at hle
    exact (firstShare_le_iff hram).mp hle
  · intro hroom
    have hsizes : ∀ i, i < slotsPerNode →
        s.ram.size (nodeid * slotsPerNode + i) ≤ ramSlotSize := by
      intro i hi
      have hcases : i = 0 ∨ i = 1 := by omega
      rcases hcases with rfl | rfl
      · rw [Nat.add_zero, hfirst]
        exact (firstShare_le_iff hram).mpr hroom
      · rw [hsecond]
        exact secondShare_le hram
    refine ⟨hsizes, ?_, ?_⟩
    · rw [hfirst, hsecond]
      exact shares_sum _
    · rw [node_answers s hnode hsizes, hfirst, hsecond]
      exact shares_sum _

end

/-- The 48 MB of a single node. -/
theorem nodeSized_48 :
    NodeSized (stationOf 0x3000000) 0 ((mainRam ⟨1, 0x3000000, []⟩).getD (fun _ => 0) 0) :=
  (nodeSized_iff (stationOf 0x3000000) rfl (by decide) (by decide)).mpr (by decide)

/-- `-cpus 1 -ramsize` 62 MB: the first slot would have 34 MB, and two of them cannot be
addressed. -/
theorem node_overflows_slot :
    (mainRam ⟨1, 0x3E00000, []⟩).isSome = true ∧
    (mainRam ⟨1, 0x3E00000, []⟩).getD (fun _ => 0) 0 = 0x3E00000 ∧
    (stationOf 0x3E00000).ram.size 0 = 0x2200000 ∧
    ¬NodeSized (stationOf 0x3E00000) 0 0x3E00000 := by
  refine ⟨by decide, by decide, by decide, ?_⟩
  intro hsized
  have hle := hsized.slots 0 (by decide)
  revert hle
  decide

end Xremu
