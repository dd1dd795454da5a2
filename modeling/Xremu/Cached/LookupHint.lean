import Mathlib.Data.List.Induction
import Xremu.Cached.Build

/-!
# The hint of the last lookup

`XrTranslate` remembers the last entry it used with its page number, and does not look
at the translation buffer while the next address is in the same page. MTCR drops the
hint when the address space changes and when entries are invalidated, but not when an
entry is written: the entry the hint came from may be overwritten, or another one may be
written before it.

`XrTb` is one translation buffer with its hint. A hint is honest when a scan would find
the remembered PTE. Where the hint survives, `WriteKeeps` and `InvalidateKeeps` are
exactly when it stays honest.
-/

namespace Xremu

/-! ## A translation buffer and its hint -/

structure XrTb where
  entries : Nat → BitVec 64
  tag : Word
  lastVpn : Word
  lastPte : Word

/-- The PTE of an entry, as it was written. -/
def pteOf (tbe : BitVec 64) : Word := tbe.setWidth 32

namespace XrTb

/-- The entry that a scan finds for the page of an address. -/
def scan (t : XrTb) (virtual : Word) : Option Nat := tbScan t.entries (tbMatching t.tag virtual)

def Honest (t : XrTb) : Prop :=
  ∀ virtual, t.lastVpn = vpnOf virtual →
    ∃ i, t.scan virtual = some i ∧ pteOf (t.entries i) = t.lastPte

/-- Only valid entries are remembered. -/
def Valid (t : XrTb) : Prop :=
  ∀ virtual, t.lastVpn = vpnOf virtual → t.lastPte &&& 1 ≠ 0

/-- Entry `j` is written. -/
def write (t : XrTb) (j : Nat) (tbe : BitVec 64) : XrTb :=
  { t with entries := Function.update t.entries j tbe }

/-- A write to ITBCTRL or DTBCTRL. -/
def ctrl (t : XrTb) (value : Word) : XrTb :=
  { t with entries := tbctrl value t.entries, lastVpn := tbctrlHint value t.lastVpn }

/-- A write before the entry of the remembered page is of another page or of the same PTE;
a write over it leaves another entry of the same PTE to be found, or is one. -/
structure WriteKeeps (t : XrTb) (j : Nat) (tbe : BitVec 64) : Prop where
  before : ∀ virtual i, t.lastVpn = vpnOf virtual → t.scan virtual = some i → j < i →
    tbMatches tbe (tbMatching t.tag virtual) = true → pteOf tbe = pteOf (t.entries i)
  hit : ∀ virtual, t.lastVpn = vpnOf virtual → t.scan virtual = some j →
    ∃ i, (t.write j tbe).scan virtual = some i ∧
      pteOf ((t.write j tbe).entries i) = pteOf (t.entries j)

/-- An invalid entry is one of page 0 in address space 4095. If that page is remembered, no
entry of another page is invalidated before its own. -/
def InvalidateKeeps (t : XrTb) (value : Word) : Prop :=
  t.lastVpn = 0 → value >>> 12 ≠ 0 → t.tag &&& 0xFFF00000 = 0xFFF00000 →
    ∀ i, t.scan 0 = some i → ∀ k, k < i → tbInvalidates value k (t.entries k) = false

variable {t t' : XrTb} {virtual : Word} {i j : Nat} {tbe : BitVec 64}

theorem scan_some : t.scan virtual = some i ↔
    i < xrTbSize ∧ tbMatches (t.entries i) (tbMatching t.tag virtual) = true ∧
      ∀ k, k < i → tbMatches (t.entries k) (tbMatching t.tag virtual) = false := by
  unfold scan tbScan
  rw [List.find?_range_eq_some, List.mem_range]
  simp only [Bool.not_eq_true']
  constructor
  · rintro ⟨hmatch, hlt, hfirst⟩
    exact ⟨hlt, hmatch, hfirst⟩
  · rintro ⟨hlt, hmatch, hfirst⟩
    exact ⟨hmatch, hlt, hfirst⟩

theorem write_ne {k : Nat} (h : k ≠ j) : (t.write j tbe).entries k = t.entries k := by
  show Function.update t.entries j tbe k = t.entries k
  rw [Function.update_of_ne h]

theorem write_self : (t.write j tbe).entries j = tbe := by
  show Function.update t.entries j tbe j = tbe
  rw [Function.update_self]

/-! ## Writing an entry -/

/-- A write behind the entry found does not matter. -/
theorem scan_write_behind (h : t.scan virtual = some i) (hj : i < j) :
    (t.write j tbe).scan virtual = some i := by
  obtain ⟨hlt, hmatch, hfirst⟩ := scan_some.mp h
  refine scan_some.mpr ⟨hlt, ?_, ?_⟩
  · rw [write_ne (by omega)]
    exact hmatch
  · intro k hk
    rw [write_ne (by omega)]
    exact hfirst k hk

/-- A write before it matters if the entry matches. -/
theorem scan_write_before (h : t.scan virtual = some i) (hj : j < i) :
    (t.write j tbe).scan virtual =
      some (if tbMatches tbe (tbMatching t.tag virtual) then j else i) := by
  obtain ⟨hlt, hmatch, hfirst⟩ := scan_some.mp h
  refine scan_some.mpr ?_
  by_cases hnew : tbMatches tbe (tbMatching t.tag virtual) = true
  · rw [if_pos hnew]
    refine ⟨by omega, ?_, ?_⟩
    · rw [write_self]
      exact hnew
    · intro k hk
      rw [write_ne (by omega)]
      exact hfirst k (by omega)
  · rw [if_neg hnew]
    refine ⟨hlt, ?_, ?_⟩
    · rw [write_ne (by omega)]
      exact hmatch
    · intro k hk
      by_cases hkj : k = j
      · subst hkj
        rw [write_self]
        exact eq_false_of_ne_true hnew
      · rw [write_ne hkj]
        exact hfirst k hk

/-- The hint stays honest when an entry is written exactly if the write keeps what is
found. -/
theorem Honest.write_iff (h : t.Honest) : (t.write j tbe).Honest ↔ t.WriteKeeps j tbe := by
  constructor
  · intro hwrite
    constructor
    · intro virtual i hvpn hscan hj hnew
      obtain ⟨l, hl, hpte⟩ := h virtual hvpn
      obtain ⟨l', hl', hpte'⟩ := hwrite virtual hvpn
      obtain rfl : i = l := Option.some.inj (hscan.symm.trans hl)
      rw [scan_write_before hscan hj, if_pos hnew] at hl'
      obtain rfl : j = l' := Option.some.inj hl'
      rw [write_self] at hpte'
      exact hpte'.trans hpte.symm
    · intro virtual hvpn hscan
      obtain ⟨l, hl, hpte⟩ := h virtual hvpn
      obtain ⟨l', hl', hpte'⟩ := hwrite virtual hvpn
      obtain rfl : j = l := Option.some.inj (hscan.symm.trans hl)
      exact ⟨l', hl', hpte'.trans hpte.symm⟩
  · intro hkeeps virtual hvpn
    obtain ⟨i, hscan, hpte⟩ := h virtual hvpn
    rcases Nat.lt_trichotomy j i with hj | hj | hj
    · refine ⟨_, scan_write_before hscan hj, ?_⟩
      by_cases hnew : tbMatches tbe (tbMatching t.tag virtual) = true
      · rw [if_pos hnew, write_self]
        exact (hkeeps.before virtual i hvpn hscan hj hnew).trans hpte
      · rw [if_neg hnew, write_ne (by omega)]
        exact hpte
    · subst hj
      obtain ⟨l, hl, hsame⟩ := hkeeps.hit virtual hvpn hscan
      exact ⟨l, hl, hsame.trans hpte⟩
    · refine ⟨i, scan_write_behind hscan hj, ?_⟩
      rw [write_ne (by omega)]
      exact hpte

/-! ## Invalidating a page -/

/-- The page number of an entry. -/
def vpnField (tbe : BitVec 64) : Word := (tbe >>> 32).setWidth 32 &&& 0xFFFFF

theorem mask_low20 : ∀ i, i < 32 → (0xFFFFF : Word).getLsbD i = decide (i < 20) := by
  decide

theorem mask_low20_64 : ∀ i, i < 64 → (0xFFFFF : BitVec 64).getLsbD i = decide (i < 20) := by
  decide

theorem mask_low32_64 : ∀ i, i < 64 → (0xFFFFFFFF : BitVec 64).getLsbD i = decide (i < 32) := by
  decide

theorem mask_vpnField : ∀ i, i < 64 →
    (0x000FFFFF00000000 : BitVec 64).getLsbD i = (decide (32 ≤ i) && decide (i < 52)) := by
  decide

/-- An entry that matches is of the page, whatever its address space. -/
theorem matches_vpn {tag : Word} (h : tbMatches tbe (tbMatching tag virtual) = true) :
    vpnField tbe = vpnOf virtual := by
  have hbit : ∀ i, i < 20 → tbe.getLsbD (32 + i) = (vpnOf virtual).getLsbD i := by
    intro i hi
    unfold tbMatches at h
    extract_lets mask at h
    have hmask : mask.getLsbD i = true := by
      unfold mask
      split
      · rw [mask_low20_64 i (by omega)]
        exact decide_eq_true hi
      · rw [mask_low32_64 i (by omega)]
        exact decide_eq_true (by omega)
    have heq := congrArg (fun v : BitVec 64 => v.getLsbD i) (eq_of_beq h)
    simp only [BitVec.getLsbD_and, hmask, Bool.and_true, BitVec.getLsbD_ushiftRight,
      BitVec.getLsbD_setWidth] at heq
    rw [heq]
    have h64 : decide (i < 64) = true := decide_eq_true (by omega)
    have hasid : ¬20 ≤ i := by omega
    unfold tbMatching
    simp only [h64, BitVec.getLsbD_or, BitVec.getLsbD_and, mask_asid i (by omega), hasid,
      decide_false, Bool.and_false, Bool.false_or, Bool.true_and]
  apply BitVec.eq_of_getLsbD_eq
  intro i hi
  unfold vpnField
  rw [BitVec.getLsbD_and, mask_low20 i hi, BitVec.getLsbD_setWidth, BitVec.getLsbD_ushiftRight]
  by_cases h20 : i < 20
  · simp [h20, hbit i h20, hi]
  · simp [h20, vpnOf_bit virtual (Nat.le_of_not_lt h20)]

/-- The entries that are invalidated with a page are those of the page. -/
theorem invalidates_vpn {value : Word} (hmode : value &&& 3 = 0)
    (h : tbInvalidates value j tbe = true) : vpnField tbe = value >>> 12 := by
  unfold tbInvalidates at h
  rw [hmode, if_neg (by decide), if_neg (by decide), if_neg (by decide), Bool.and_eq_true] at h
  have heq : tbe &&& (0x000FFFFF00000000 : BitVec 64) = (value >>> 12).setWidth 64 <<< 32 :=
    eq_of_beq h.2
  apply BitVec.eq_of_getLsbD_eq
  intro i hi
  have hbit := congrArg (fun v : BitVec 64 => v.getLsbD (32 + i)) heq
  simp only [BitVec.getLsbD_and, BitVec.getLsbD_shiftLeft, BitVec.getLsbD_setWidth,
    mask_vpnField (32 + i) (by omega)] at hbit
  unfold vpnField
  rw [BitVec.getLsbD_and, mask_low20 i hi, BitVec.getLsbD_setWidth, BitVec.getLsbD_ushiftRight]
  by_cases h20 : i < 20
  · have hge : ¬32 + i < 32 := by omega
    have h52 : 32 + i < 52 := by omega
    have h64 : 32 + i < 64 := by omega
    have hsub : 32 + i - 32 = i := by omega
    have hi64 : i < 64 := by omega
    simp only [h52, h64, hge, hsub, hi64, Nat.le_add_right, decide_true, decide_false,
      Bool.and_true, Bool.true_and, Bool.not_false] at hbit
    simp only [h20, hi, decide_true, Bool.and_true, Bool.true_and]
    exact hbit
  · have hhigh := vpnOf_bit value (Nat.le_of_not_lt h20)
    unfold vpnOf at hhigh
    rw [hhigh]
    simp [h20]

/-- An invalid entry is found for page 0 of address space 4095 alone. -/
theorem invalid_matches_iff {tag : Word} :
    tbMatches tbInvalidEntry (tbMatching tag virtual) = true ↔
      tag &&& 0xFFF00000 = 0xFFF00000 ∧ vpnOf virtual = 0 := by
  have hmatches : tbMatches tbInvalidEntry (tbMatching tag virtual) = true ↔
      tbMatching tag virtual = 0xFFF00000 := by
    have hmask : tbMatches tbInvalidEntry (tbMatching tag virtual) =
        ((0xFFF00000 : BitVec 64) == (tbMatching tag virtual).setWidth 64 &&& 0xFFFFFFFF) := rfl
    have hwide : (tbMatching tag virtual).setWidth 64 &&& (0xFFFFFFFF : BitVec 64) =
        (tbMatching tag virtual).setWidth 64 := by
      apply BitVec.eq_of_getLsbD_eq
      intro i hi
      rw [BitVec.getLsbD_and, mask_low32_64 i hi, BitVec.getLsbD_setWidth]
      by_cases h32 : i < 32
      · simp [h32]
      · simp [h32, BitVec.getLsbD_of_ge (tbMatching tag virtual) i (Nat.le_of_not_lt h32)]
    rw [hmask, hwide, beq_iff_eq]
    constructor
    · intro h
      have hnarrow := congrArg (BitVec.setWidth 32) h
      rw [BitVec.setWidth_setWidth_of_le _ (by decide), BitVec.setWidth_eq] at hnarrow
      exact hnarrow.symm
    · intro h
      rw [h]
      rfl
  rw [hmatches]
  constructor
  · intro h
    have hasid := tbMatching_asid tag virtual
    rw [h] at hasid
    refine ⟨hasid.symm, ?_⟩
    apply BitVec.eq_of_getLsbD_eq
    intro i hi
    by_cases h20 : 20 ≤ i
    · rw [vpnOf_bit virtual h20]
      exact BitVec.getLsbD_zero.symm
    · have hbit := congrArg (fun v : Word => v.getLsbD i) h
      simp only [tbMatching, BitVec.getLsbD_or, BitVec.getLsbD_and, mask_asid i hi, h20,
        decide_false, Bool.and_false, Bool.false_or] at hbit
      exact hbit.trans BitVec.getLsbD_zero.symm
  · rintro ⟨hasid, hvpn⟩
    unfold tbMatching
    rw [hasid, hvpn]
    rfl

theorem ctrl_entries (value : Word) (k : Nat) : (t.ctrl value).entries k =
    if tbInvalidates value k (t.entries k) then tbInvalidEntry else t.entries k := rfl

/-- A hint that was dropped is of no page. -/
theorem dropped_ne (virtual : Word) : (-1 : Word) ≠ vpnOf virtual := by
  intro h
  have hbit := congrArg (fun v : Word => v.getLsbD 20) h
  rw [vpnOf_bit virtual (Nat.le_refl 20)] at hbit
  cases hbit

theorem honest_dropped (h : t.lastVpn = -1) : t.Honest := by
  intro virtual hvpn
  exact absurd (h.symm.trans hvpn) (dropped_ne virtual)

theorem valid_dropped (h : t.lastVpn = -1) : t.Valid := by
  intro virtual hvpn
  exact absurd (h.symm.trans hvpn) (dropped_ne virtual)

/-- The entry of another page is left alone. -/
theorem ctrl_found {value : Word} (hmode : value &&& 3 = 0) (hother : vpnOf virtual ≠ value >>> 12)
    (hscan : t.scan virtual = some i) : tbInvalidates value i (t.entries i) = false := by
  apply eq_false_of_ne_true
  intro hinvalid
  have hpage := matches_vpn (scan_some.mp hscan).2.1
  exact hother (hpage.symm.trans (invalidates_vpn hmode hinvalid))

/-- The hint stays honest when a page is invalidated exactly if this keeps what is found. -/
theorem Honest.ctrl_iff {value : Word} (h : t.Honest) (hvalid : t.Valid) (hmode : value &&& 3 = 0) :
    (t.ctrl value).Honest ↔ t.InvalidateKeeps value := by
  by_cases hpage : t.lastVpn = value >>> 12
  · -- The hint is dropped.
    have hhint : (t.ctrl value).lastVpn = -1 := by
      show tbctrlHint value t.lastVpn = -1
      rw [tbctrlHint, if_pos hmode, if_pos hpage]
    constructor
    · intro _ hzero hne
      exact absurd (hpage.symm.trans hzero) hne
    · intro _
      exact honest_dropped hhint
  have hhint : (t.ctrl value).lastVpn = t.lastVpn := by
    show tbctrlHint value t.lastVpn = t.lastVpn
    rw [tbctrlHint, if_pos hmode, if_neg hpage]
  constructor
  · intro hctrl hzero _ hasid i hscan k hk
    apply eq_false_of_ne_true
    intro hinvalid
    have hzero' : t.lastVpn = vpnOf 0 := hzero
    obtain ⟨l, hl, hpte⟩ := hctrl 0 (hhint.trans hzero')
    obtain ⟨_, hlmatch, hlfirst⟩ := scan_some.mp hl
    obtain ⟨_, _, hfirst⟩ := scan_some.mp hscan
    -- The entry found now is at `k` or before it, so it is one that was invalidated.
    have hle : l ≤ k := by
      by_contra hlt
      have hno := hlfirst k (by omega)
      rw [ctrl_entries, if_pos hinvalid] at hno
      have hyes : tbMatches tbInvalidEntry (tbMatching t.tag 0) = true :=
        invalid_matches_iff.mpr ⟨hasid, rfl⟩
      exact Bool.false_ne_true (hno.symm.trans hyes)
    rw [ctrl_entries] at hlmatch hpte
    by_cases hlinvalid : tbInvalidates value l (t.entries l) = true
    · rw [if_pos hlinvalid] at hpte
      apply hvalid 0 hzero'
      have hlast : pteOf tbInvalidEntry = t.lastPte := hpte
      rw [← hlast]
      rfl
    · rw [if_neg hlinvalid] at hlmatch
      have hno := hfirst l (by omega)
      exact Bool.false_ne_true (hno.symm.trans hlmatch)
  · intro hkeeps virtual hvpn
    rw [hhint] at hvpn
    obtain ⟨i, hscan, hpte⟩ := h virtual hvpn
    obtain ⟨hlt, hmatch, hfirst⟩ := scan_some.mp hscan
    have hsame : (t.ctrl value).entries i = t.entries i := by
      rw [ctrl_entries, ctrl_found hmode (hvpn ▸ hpage) hscan]
      rfl
    refine ⟨i, scan_some.mpr ⟨hlt, ?_, ?_⟩, ?_⟩
    · rw [hsame]
      exact hmatch
    · intro k hk
      rw [ctrl_entries]
      by_cases hinvalid : tbInvalidates value k (t.entries k) = true
      · rw [if_pos hinvalid]
        apply eq_false_of_ne_true
        intro hfound
        obtain ⟨hasid, hzero⟩ := invalid_matches_iff.mp hfound
        have hscan₀ : t.scan 0 = some i := by
          rw [← hscan]
          unfold scan tbMatching
          rw [hzero]
          rfl
        have hlast : t.lastVpn = 0 := hvpn.trans hzero
        have hno := hkeeps hlast (fun hv => hpage (hlast.trans hv.symm)) hasid i hscan₀ k hk
        exact Bool.false_ne_true (hno.symm.trans hinvalid)
      · rw [if_neg hinvalid]
        exact hfirst k hk
    · rw [hsame]
      exact hpte

/-! ## Translating -/

theorem scan_congr (hentries : t'.entries = t.entries)
    (hasid : t'.tag &&& 0xFFF00000 = t.tag &&& 0xFFF00000) (virtual : Word) :
    t'.scan virtual = t.scan virtual := by
  unfold scan tbMatching
  rw [hentries, hasid]

/-- What a translation does to a buffer: nothing but to the hint, and to the page in its tag. -/
inductive Looks (t : XrTb) : XrTb → Prop
  | dropped {t' : XrTb} (dropped : t'.lastVpn = -1) : Looks t t'
  | same {t' : XrTb} (entries : t'.entries = t.entries)
      (asid : t'.tag &&& 0xFFF00000 = t.tag &&& 0xFFF00000) (vpn : t'.lastVpn = t.lastVpn)
      (pte : t'.lastPte = t.lastPte) : Looks t t'
  | found {t' : XrTb} {virtual : Word} {i : Nat} (entries : t'.entries = t.entries) (tag : t'.tag = t.tag)
      (vpn : t'.lastVpn = vpnOf virtual) (scan : t.scan virtual = some i)
      (pte : t'.lastPte = pteOf (t.entries i)) (valid : t'.lastPte &&& 1 ≠ 0) : Looks t t'

theorem Looks.honest (h : t.Looks t') (ht : t.Honest) : t'.Honest := by
  cases h with
  | dropped dropped => exact honest_dropped dropped
  | same entries asid vpn pte =>
      intro virtual hvpn
      obtain ⟨i, hscan, hpte⟩ := ht virtual (vpn.symm.trans hvpn)
      refine ⟨i, (scan_congr entries asid virtual).trans hscan, ?_⟩
      rw [entries, pte]
      exact hpte
  | @found page i entries tag vpn scan pte valid =>
      intro virtual hvpn
      refine ⟨i, ?_, ?_⟩
      · rw [← scan]
        unfold XrTb.scan tbMatching
        rw [entries, tag, ← hvpn, vpn]
      · rw [entries, pte]

theorem Looks.valid (h : t.Looks t') (ht : t.Valid) : t'.Valid := by
  cases h with
  | dropped dropped => exact valid_dropped dropped
  | same entries asid vpn pte =>
      intro virtual hvpn
      rw [pte]
      exact ht virtual (vpn.symm.trans hvpn)
  | found entries tag vpn scan pte valid => exact fun _ _ => valid

end XrTb

/-! ## The two buffers of a processor -/

section

variable {β : Type}

namespace Machine

/-- The ITB or the DTB with its hint. -/
def tb (m : Machine (XrCachedMem β)) : (ifetch : Bool) → XrTb
  | true => ⟨m.proc.itb, m.proc.cr crItbtag, m.proc.itbLastVpn, pteOf m.proc.itbLastResult⟩
  | false =>
      ⟨m.proc.dtb, m.proc.cr crDtbtag, m.proc.dtbLastVpn, (m.mem.caches m.proc.id).dtbLastResult⟩

/-- Without the hint, so that the next translation scans the whole buffer. -/
def forgetLookup (m : Machine (XrCachedMem β)) : (ifetch : Bool) → Machine (XrCachedMem β)
  | true => { m with proc := { m.proc with itbLastVpn := -1, itbLastResult := 0 } }
  | false =>
      ⟨{ m.proc with dtbLastVpn := -1 },
        m.mem.setCache m.proc.id { m.mem.caches m.proc.id with dtbLastResult := 0 }⟩

/-- MTCR of `value` to control register `rb`, as far as the processor record goes. -/
def mtcr (m : Machine (XrCachedMem β)) (rb : Nat) (value : Word) : Machine (XrCachedMem β) :=
  { m with proc := xrMtcr m.proc rb value }

end Machine

/-- ITBPTE and so on, and DTBPTE and so on. -/
def crTbpte (ifetch : Bool) : Nat := if ifetch then crItbpte else crDtbpte
def crTbtag (ifetch : Bool) : Nat := if ifetch then crItbtag else crDtbtag
def crTbindex (ifetch : Bool) : Nat := if ifetch then crItbindex else crDtbindex
def crTbctrl (ifetch : Bool) : Nat := if ifetch then crItbctrl else crDtbctrl

/-- What is done to the buffers: translations, and writes to control registers. -/
inductive XrTbOp where
  | translate (virtual : Word) (writing ifetch : Bool)
  | mtcr (rb : Nat) (value : Word)

namespace XrTbOp

def run (m : Machine (XrCachedMem β)) : XrTbOp → Machine (XrCachedMem β)
  | translate virtual writing ifetch => (xrTranslate m virtual writing ifetch).2
  | mtcr rb value => m.mtcr rb value

def runAll (m : Machine (XrCachedMem β)) (ops : List XrTbOp) : Machine (XrCachedMem β) :=
  ops.foldl run m

/-- Where an operation leaves a hint, it leaves what a scan finds for it. -/
def Keeps (m : Machine (XrCachedMem β)) : XrTbOp → Prop
  | translate _ _ _ => True
  | mtcr rb value => ∀ ifetch,
      (rb = crTbpte ifetch →
        (m.tb ifetch).WriteKeeps (m.proc.cr (crTbindex ifetch)).toNat
          (tbEntry (m.proc.cr (crTbtag ifetch)) value)) ∧
      (rb = crTbctrl ifetch → value &&& 3 = 0 → (m.tb ifetch).InvalidateKeeps value)

end XrTbOp

/-- A translation that is answered by the hint is what it would be by a scan: the same PTE,
and the same result and processor but for the hint itself. -/
structure HintAgrees (m : Machine (XrCachedMem β)) : Prop where
  entry : ∀ ifetch virtual, (m.tb ifetch).lastVpn = vpnOf virtual →
    ∃ i, (m.tb ifetch).scan virtual = some i ∧
      pteOf ((m.tb ifetch).entries i) = (m.tb ifetch).lastPte
  outcome : ∀ ifetch virtual writing, (m.tb ifetch).lastVpn = vpnOf virtual →
    (xrTranslate m virtual writing ifetch).1 =
        (xrTranslate (m.forgetLookup ifetch) virtual writing ifetch).1 ∧
      (xrTranslate m virtual writing ifetch).2.forgetLookup ifetch =
        (xrTranslate (m.forgetLookup ifetch) virtual writing ifetch).2.forgetLookup ifetch

/-! ## Writes to control registers -/

variable {m m' : Machine (XrCachedMem β)}

theorem tb_mtcr (m : Machine (XrCachedMem β)) (rb : Nat) (value : Word) (ifetch : Bool) :
    (m.mtcr rb value).tb ifetch =
      if rb = crTbctrl ifetch then (m.tb ifetch).ctrl value
      else if rb = crTbpte ifetch then
        (m.tb ifetch).write (m.proc.cr (crTbindex ifetch)).toNat
          (tbEntry (m.proc.cr (crTbtag ifetch)) value)
      else if rb = crTbtag ifetch then
        { m.tb ifetch with tag := value, lastVpn := -1 }
      else m.tb ifetch := by
  cases ifetch with
  | true =>
      by_cases hctrl : rb = crItbctrl
      · subst hctrl
        rfl
      by_cases hpte : rb = crItbpte
      · subst hpte
        rfl
      by_cases htag : rb = crItbtag
      · subst htag
        rfl
      simp only [crTbctrl, crTbpte, crTbtag, if_true, if_neg hctrl, if_neg hpte, if_neg htag]
      have hset : ∀ v : Word, Function.update m.proc.cr rb v crItbtag = m.proc.cr crItbtag :=
        fun v => Function.update_of_ne (Ne.symm htag) v m.proc.cr
      unfold Machine.mtcr xrMtcr
      extract_lets q
      split
      · rfl
      split
      · rfl
      split
      · rfl
      split
      · exact congrArg (fun tag => { m.tb true with tag := tag }) (hset _)
      split
      · exact congrArg (fun tag => { m.tb true with tag := tag }) (hset _)
      · exact congrArg (fun tag => { m.tb true with tag := tag }) (hset _)
  | false =>
      by_cases hctrl : rb = crDtbctrl
      · subst hctrl
        rfl
      by_cases hpte : rb = crDtbpte
      · subst hpte
        rfl
      by_cases htag : rb = crDtbtag
      · subst htag
        rfl
      simp only [crTbctrl, crTbpte, crTbtag, Bool.false_eq_true, if_false, if_neg hctrl,
        if_neg hpte, if_neg htag]
      have hset : ∀ v : Word, Function.update m.proc.cr rb v crDtbtag = m.proc.cr crDtbtag :=
        fun v => Function.update_of_ne (Ne.symm htag) v m.proc.cr
      unfold Machine.mtcr xrMtcr
      extract_lets q
      split
      · rfl
      split
      · rfl
      split
      · rfl
      split
      · exact congrArg (fun tag => { m.tb false with tag := tag }) (hset _)
      split
      · exact congrArg (fun tag => { m.tb false with tag := tag }) (hset _)
      · exact congrArg (fun tag => { m.tb false with tag := tag }) (hset _)

/-! ## Translations -/

theorem Raises.looks (h : Raises m m') (ifetch : Bool) : (m.tb ifetch).Looks (m'.tb ifetch) := by
  obtain ⟨m₁, exc, rfl, hprepared⟩ := h.vector
  have htb : (xrVectorException m₁ exc).tb ifetch = m₁.tb ifetch ∨
      ((xrVectorException m₁ exc).tb ifetch).lastVpn = -1 := by
    unfold xrVectorException
    split
    · right
      cases ifetch <;> rfl
    · left
      cases ifetch <;> rfl
  rcases htb with hsame | hdropped
  · rw [hsame]
    have hproc := hprepared.proc
    cases ifetch with
    | true =>
        refine .same ?_ (hprepared.asid crItbtag (Or.inl rfl)) ?_ ?_
        · show m₁.proc.itb = m.proc.itb
          rw [hproc]
        · show m₁.proc.itbLastVpn = m.proc.itbLastVpn
          rw [hproc]
        · show pteOf m₁.proc.itbLastResult = pteOf m.proc.itbLastResult
          rw [hproc]
    | false =>
        refine .same ?_ (hprepared.asid crDtbtag (Or.inr rfl)) ?_ ?_
        · show m₁.proc.dtb = m.proc.dtb
          rw [hproc]
        · show m₁.proc.dtbLastVpn = m.proc.dtbLastVpn
          rw [hproc]
        · show (m₁.mem.caches m₁.proc.id).dtbLastResult = (m.mem.caches m.proc.id).dtbLastResult
          rw [hproc, hprepared.mem]
  · exact .dropped hdropped

/-- Where the entry that a translation uses comes from. -/
theorem translateLookup_sources {virtual : Word} {writing ifetch : Bool} {out : Option (BitVec 64)}
    (h : translateLookup m virtual writing ifetch = (out, m')) :
    (out = none ∧ Raises m m') ∨ (∃ tbe, out = some tbe ∧ m' = m ∧
      (((m.tb ifetch).lastVpn = vpnOf virtual ∧ pteOf tbe = (m.tb ifetch).lastPte) ∨
        ∃ i, (m.tb ifetch).scan virtual = some i ∧ tbe = (m.tb ifetch).entries i)) := by
  cases looksUp h with
  | itbHint hint => exact Or.inr ⟨_, rfl, rfl, Or.inl ⟨hint, rfl⟩⟩
  | @itbFound i scan => exact Or.inr ⟨_, rfl, rfl, Or.inr ⟨i, scan, rfl⟩⟩
  | itbMiss scan => exact Or.inl ⟨rfl, .itbMiss virtual false⟩
  | dtbHint hint =>
      refine Or.inr ⟨_, rfl, rfl, Or.inl ⟨hint, ?_⟩⟩
      unfold pteOf
      rw [BitVec.setWidth_setWidth_of_le _ (by decide), BitVec.setWidth_eq]
      rfl
  | @dtbFound i scan => exact Or.inr ⟨_, rfl, rfl, Or.inr ⟨i, scan, rfl⟩⟩
  | dtbMiss scan => exact Or.inl ⟨rfl, .dtbMiss virtual writing⟩

/-- Masks of the low half of an entry see only its PTE. -/
theorem and_of_pteOf {tbe tbe' mask : BitVec 64} (h : pteOf tbe = pteOf tbe')
    (hmask : (mask.setWidth 32).setWidth 64 = mask) : tbe &&& mask = tbe' &&& mask := by
  apply BitVec.eq_of_getLsbD_eq
  intro i hi
  rw [BitVec.getLsbD_and, BitVec.getLsbD_and]
  by_cases h32 : i < 32
  · have hbit := congrArg (fun v : Word => v.getLsbD i) h
    simp only [pteOf, BitVec.getLsbD_setWidth, h32, decide_true, Bool.true_and] at hbit
    rw [hbit]
  · have hzero : mask.getLsbD i = false := by
      rw [← hmask, BitVec.getLsbD_setWidth,
        BitVec.getLsbD_of_ge (mask.setWidth 32) i (Nat.le_of_not_lt h32), Bool.and_false]
    rw [hzero, Bool.and_false, Bool.and_false]

theorem pteOf_valid {tbe : BitVec 64} (h : tbe &&& pteValid ≠ 0) : pteOf tbe &&& 1 ≠ 0 := by
  intro hzero
  apply h
  have hsame : pteOf tbe = pteOf ((pteOf tbe).setWidth 64) := by
    unfold pteOf
    rw [BitVec.setWidth_setWidth_of_le _ (by decide), BitVec.setWidth_eq]
  have hwide := congrArg (BitVec.setWidth 64) hzero
  rw [BitVec.setWidth_and] at hwide
  rw [and_of_pteOf hsame rfl]
  exact hwide

theorem tb_remember (m : Machine (XrCachedMem β)) (virtual : Word) (tbe : BitVec 64)
    (ifetch side : Bool) :
    (rememberLookup m virtual tbe ifetch).tb side =
      if side = ifetch then
        { m.tb side with lastVpn := vpnOf virtual, lastPte := pteOf tbe }
      else m.tb side := by
  cases ifetch with
  | true => cases side <;> rfl
  | false =>
      cases side with
      | true => rfl
      | false =>
          have hcache : (Function.update m.mem.caches m.proc.id
              { m.mem.caches m.proc.id with dtbLastResult := tbe.setWidth 32 } m.proc.id) =
                { m.mem.caches m.proc.id with dtbLastResult := tbe.setWidth 32 } :=
            Function.update_self _ _ _
          exact congrArg (fun c : XrCache =>
            { m.tb false with lastVpn := vpnOf virtual, lastPte := c.dtbLastResult }) hcache

theorem translate_looks (m : Machine (XrCachedMem β)) (virtual : Word) (writing ifetch side : Bool) :
    (m.tb side).Looks ((xrTranslate m virtual writing ifetch).2.tb side) := by
  unfold xrTranslate
  cases hl : translateLookup m virtual writing ifetch with
  | mk out m₁ =>
      rcases translateLookup_sources hl with ⟨rfl, hraises⟩ | ⟨tbe, rfl, rfl, hsource⟩
      · exact hraises.looks side
      · cases hf : tbeFault m₁.proc tbe writing with
        | some f =>
            simp only [hf]
            exact (f.raises m₁ virtual writing).looks side
        | none =>
            simp only [hf]
            rw [tb_remember]
            by_cases hside : side = ifetch
            · subst hside
              rw [if_pos rfl]
              rcases hsource with ⟨hvpn, hpte⟩ | ⟨i, hscan, rfl⟩
              · exact .same rfl rfl hvpn.symm hpte
              · exact .found rfl rfl rfl hscan rfl (pteOf_valid (tbeFault_none hf).1)
            · rw [if_neg hside]
              exact .same rfl rfl rfl rfl

/-! ## The same outcome -/

theorem tbeFault_congr {tbe tbe' : BitVec 64} (h : pteOf tbe = pteOf tbe') (p : XrProcessor)
    (writing : Bool) : tbeFault p tbe writing = tbeFault p tbe' writing := by
  have hvalid : tbe &&& pteValid = tbe' &&& pteValid := and_of_pteOf h rfl
  have hkernel : tbe &&& pteKernel = tbe' &&& pteKernel := and_of_pteOf h rfl
  have hwritable : tbe &&& pteWritable = tbe' &&& pteWritable := and_of_pteOf h rfl
  unfold tbeFault
  rw [hvalid, hkernel, hwritable]

theorem physOf_congr {tbe tbe' : BitVec 64} (h : pteOf tbe = pteOf tbe') (virtual : Word) :
    physOf tbe virtual = physOf tbe' virtual := by
  have hframe : tbe &&& 0x1FFFFE0 = tbe' &&& 0x1FFFFE0 := and_of_pteOf h rfl
  unfold physOf
  rw [hframe]

/-- What was remembered for a page is all that is forgotten with it. -/
theorem forget_remember (m : Machine (XrCachedMem β)) (virtual : Word) (tbe : BitVec 64)
    (ifetch : Bool) :
    (rememberLookup m virtual tbe ifetch).forgetLookup ifetch = m.forgetLookup ifetch := by
  cases ifetch with
  | true => rfl
  | false =>
      simp [rememberLookup, Machine.forgetLookup, XrCachedMem.setCache]

theorem forget_forget (m : Machine (XrCachedMem β)) (ifetch : Bool) :
    (m.forgetLookup ifetch).forgetLookup ifetch = m.forgetLookup ifetch := by
  cases ifetch with
  | true => rfl
  | false =>
      simp [Machine.forgetLookup, XrCachedMem.setCache]

/-! An exception does not look at the hints. -/

theorem forget_cr (m : Machine (XrCachedMem β)) (ifetch : Bool) :
    (m.forgetLookup ifetch).proc.cr = m.proc.cr := by
  cases ifetch <;> rfl

theorem forget_pc (m : Machine (XrCachedMem β)) (ifetch : Bool) :
    (m.forgetLookup ifetch).proc.pc = m.proc.pc := by
  cases ifetch <;> rfl

theorem forget_lastWrite (m : Machine (XrCachedMem β)) (ifetch : Bool) :
    (m.forgetLookup ifetch).proc.lastTbMissWasWrite = m.proc.lastTbMissWasWrite := by
  cases ifetch <;> rfl

theorem forget_setCr (m : Machine (XrCachedMem β)) (ifetch : Bool) (i : Nat) (v : Word) :
    (m.forgetLookup ifetch).setCr i v = (m.setCr i v).forgetLookup ifetch := by
  cases ifetch <;> rfl

theorem forget_vector (m : Machine (XrCachedMem β)) (exc : Word) (ifetch : Bool) :
    (xrVectorException (m.forgetLookup ifetch) exc).forgetLookup ifetch =
      (xrVectorException m exc).forgetLookup ifetch := by
  unfold xrVectorException
  rw [forget_cr]
  by_cases heb : m.proc.cr crEb = 0
  · rw [if_pos heb, if_pos heb]
    cases ifetch with
    | true => rfl
    | false =>
        refine congrArg (Machine.mk _) ?_
        simp [Machine.forgetLookup, xrReset, ResetMem.resetMem, XrCachedMem.setCache,
          XrCache.reset, XrProcessor.reset]
  · rw [if_neg heb, if_neg heb]
    cases ifetch with
    | true => rfl
    | false =>
        simp [Machine.forgetLookup, XrCachedMem.setCache, XrProcessor.setCr, XrProcessor.rs]

theorem forget_take (f : XrTbeFault) (m : Machine (XrCachedMem β)) (virtual : Word)
    (writing ifetch : Bool) :
    (f.take (m.forgetLookup ifetch) virtual writing).forgetLookup ifetch =
      (f.take m virtual writing).forgetLookup ifetch := by
  cases f with
  | notValid =>
      have hrs : (m.forgetLookup ifetch).proc.rs = m.proc.rs := congrFun (forget_cr m ifetch) crRs
      simp only [XrTbeFault.take, xrPageFault]
      rw [hrs]
      by_cases hmiss : m.proc.rs &&& rsTbmiss ≠ 0
      · rw [if_pos hmiss, if_pos hmiss]
        simp only [xrSetEcause, XrProcessor.rs, forget_cr, forget_setCr, forget_lastWrite]
        exact forget_vector _ _ ifetch
      · rw [if_neg hmiss, if_neg hmiss]
        simp only [xrPushMode, xrSetEcause, XrProcessor.rs, forget_cr, forget_setCr, forget_pc]
        exact forget_vector _ _ ifetch
  | protection =>
      simp only [XrTbeFault.take, xrProtectionFault, xrBasicException, xrPushMode, xrSetEcause,
        XrProcessor.rs, forget_cr, forget_setCr, forget_pc]
      exact forget_vector _ _ ifetch

theorem forget_tbeFault (m : Machine (XrCachedMem β)) (tbe : BitVec 64) (writing ifetch : Bool) :
    tbeFault (m.forgetLookup ifetch).proc tbe writing = tbeFault m.proc tbe writing := by
  cases ifetch <;> rfl

theorem lookup_hinted {virtual : Word} {ifetch : Bool} (writing : Bool)
    (h : (m.tb ifetch).lastVpn = vpnOf virtual) :
    ∃ tbe, translateLookup m virtual writing ifetch = (some tbe, m) ∧
      pteOf tbe = (m.tb ifetch).lastPte := by
  cases ifetch with
  | true =>
      refine ⟨m.proc.itbLastResult, ?_, rfl⟩
      have hhint : m.proc.itbLastVpn = vpnOf virtual := h
      simp only [translateLookup, if_true, if_pos hhint]
  | false =>
      refine ⟨(m.mem.caches m.proc.id).dtbLastResult.setWidth 64, ?_, ?_⟩
      · have hhint : m.proc.dtbLastVpn = vpnOf virtual := h
        simp only [translateLookup, Bool.false_eq_true, if_false, if_pos hhint]
      · unfold pteOf
        rw [BitVec.setWidth_setWidth_of_le _ (by decide), BitVec.setWidth_eq]
        rfl

theorem lookup_scanned {virtual : Word} {ifetch : Bool} {i : Nat} (writing : Bool)
    (h : (m.tb ifetch).scan virtual = some i) :
    translateLookup (m.forgetLookup ifetch) virtual writing ifetch =
      (some ((m.tb ifetch).entries i), m.forgetLookup ifetch) := by
  have hno := XrTb.dropped_ne virtual
  cases ifetch with
  | true =>
      have hhint : (m.forgetLookup true).proc.itbLastVpn ≠ vpnOf virtual := hno
      have hscan : tbScan (m.forgetLookup true).proc.itb
          (tbMatching ((m.forgetLookup true).proc.cr crItbtag) virtual) = some i := h
      simp only [translateLookup, if_true, if_neg hhint, xrLookupItb, hscan]
      rfl
  | false =>
      have hhint : (m.forgetLookup false).proc.dtbLastVpn ≠ vpnOf virtual := hno
      have hscan : tbScan (m.forgetLookup false).proc.dtb
          (tbMatching ((m.forgetLookup false).proc.cr crDtbtag) virtual) = some i := h
      simp only [translateLookup, Bool.false_eq_true, if_false, if_neg hhint, xrLookupDtb, hscan]
      rfl

/-- With an honest hint the outcome is that of a scan. -/
theorem hintAgrees_of_honest (h : ∀ ifetch, (m.tb ifetch).Honest) : HintAgrees m := by
  refine ⟨h, ?_⟩
  intro ifetch virtual writing hvpn
  obtain ⟨i, hscan, hpte⟩ := h ifetch virtual hvpn
  obtain ⟨tbe, hlookup, htbe⟩ := lookup_hinted writing hvpn
  have hsame : pteOf tbe = pteOf ((m.tb ifetch).entries i) := htbe.trans hpte.symm
  have hfault : tbeFault (m.forgetLookup ifetch).proc ((m.tb ifetch).entries i) writing =
      tbeFault m.proc tbe writing := by
    rw [forget_tbeFault, tbeFault_congr hsame]
  have hflags : tbe &&& 31 = (m.tb ifetch).entries i &&& 31 := and_of_pteOf hsame rfl
  unfold xrTranslate
  rw [hlookup, lookup_scanned writing hscan]
  simp only [hfault]
  cases hf : tbeFault m.proc tbe writing with
  | some f => exact ⟨rfl, (forget_take f m virtual writing ifetch).symm⟩
  | none =>
      refine ⟨?_, ?_⟩
      · show some _ = some _
        rw [physOf_congr hsame, hflags]
      · show Machine.forgetLookup _ ifetch = Machine.forgetLookup _ ifetch
        rw [forget_remember, forget_remember, forget_forget]

/-! ## Runs -/

namespace XrTbOp

/-- An operation after which the hints are honest, if they were before, exactly if it keeps
what they stand for. -/
theorem honest_run_iff (op : XrTbOp) (h : ∀ side, (m.tb side).Honest)
    (hvalid : ∀ side, (m.tb side).Valid) :
    (∀ side, ((op.run m).tb side).Honest) ↔ op.Keeps m := by
  cases op with
  | translate virtual writing ifetch =>
      constructor
      · intro _
        exact trivial
      · intro _ side
        exact (translate_looks m virtual writing ifetch side).honest (h side)
  | mtcr rb value =>
      refine forall_congr' fun side => ?_
      show ((m.mtcr rb value).tb side).Honest ↔ _
      rw [tb_mtcr]
      by_cases hctrl : rb = crTbctrl side
      · have hpte : rb ≠ crTbpte side := by
          subst hctrl
          cases side <;> decide
        rw [if_pos hctrl]
        by_cases hmode : value &&& 3 = 0
        · rw [(h side).ctrl_iff (hvalid side) hmode]
          exact ⟨fun hkeeps => ⟨fun he => absurd he hpte, fun _ _ => hkeeps⟩,
            fun hkeeps => hkeeps.2 hctrl hmode⟩
        · have hdropped : ((m.tb side).ctrl value).lastVpn = -1 := by
            show tbctrlHint value _ = -1
            rw [tbctrlHint, if_neg hmode]
          exact ⟨fun _ => ⟨fun he => absurd he hpte, fun _ he => absurd he hmode⟩,
            fun _ => XrTb.honest_dropped hdropped⟩
      rw [if_neg hctrl]
      by_cases hpte : rb = crTbpte side
      · rw [if_pos hpte, (h side).write_iff]
        exact ⟨fun hkeeps => ⟨fun _ => hkeeps, fun he => absurd he hctrl⟩,
          fun hkeeps => hkeeps.1 hpte⟩
      rw [if_neg hpte]
      constructor
      · intro _
        exact ⟨fun he => absurd he hpte, fun he => absurd he hctrl⟩
      · intro _
        by_cases htag : rb = crTbtag side
        · rw [if_pos htag]
          exact XrTb.honest_dropped rfl
        · rw [if_neg htag]
          exact h side

theorem valid_run (op : XrTbOp) (h : ∀ side, (m.tb side).Valid) (side : Bool) :
    ((op.run m).tb side).Valid := by
  cases op with
  | translate virtual writing ifetch =>
      exact (translate_looks m virtual writing ifetch side).valid (h side)
  | mtcr rb value =>
      show ((m.mtcr rb value).tb side).Valid
      rw [tb_mtcr]
      by_cases hctrl : rb = crTbctrl side
      · rw [if_pos hctrl]
        rcases tbctrlHint_cases value (m.tb side).lastVpn with hhint | hhint
        · intro virtual hvpn
          exact h side virtual (hhint.symm.trans hvpn)
        · exact XrTb.valid_dropped hhint
      rw [if_neg hctrl]
      by_cases hpte : rb = crTbpte side
      · rw [if_pos hpte]
        exact h side
      rw [if_neg hpte]
      by_cases htag : rb = crTbtag side
      · rw [if_pos htag]
        exact XrTb.valid_dropped rfl
      · rw [if_neg htag]
        exact h side

theorem runAll_snoc (m : Machine (XrCachedMem β)) (ops : List XrTbOp) (op : XrTbOp) :
    runAll m (ops ++ [op]) = op.run (runAll m ops) := by
  unfold runAll
  rw [List.foldl_append]
  rfl

theorem valid_runAll (m : Machine (XrCachedMem β)) (ops : List XrTbOp) (side : Bool) :
    ((runAll (xrReset m) ops).tb side).Valid := by
  induction ops using List.reverseRecOn generalizing side with
  | nil =>
      apply XrTb.valid_dropped
      cases side <;> rfl
  | append_singleton ops op ih =>
      rw [runAll_snoc]
      exact op.valid_run ih side

end XrTbOp

open XrTbOp in
/-- From a reset on, whatever is translated and written: the hints agree with a scan all
along exactly if every write keeps what they stand for. -/
theorem hints_agree_iff (m : Machine (XrCachedMem β)) (ops : List XrTbOp) :
    (∀ pre, pre <+: ops → HintAgrees (runAll (xrReset m) pre)) ↔
      ∀ pre op, pre ++ [op] <+: ops → op.Keeps (runAll (xrReset m) pre) := by
  constructor
  · intro hagrees pre op hprefix
    have hbefore := hagrees pre ((List.prefix_append pre [op]).trans hprefix)
    have hafter := hagrees (pre ++ [op]) hprefix
    rw [runAll_snoc] at hafter
    exact (op.honest_run_iff hbefore.entry (valid_runAll m pre)).mp hafter.entry
  · intro hkeeps pre hprefix
    apply hintAgrees_of_honest
    induction pre using List.reverseRecOn with
    | nil =>
        intro side
        apply XrTb.honest_dropped
        cases side <;> rfl
    | append_singleton pre op ih =>
        rw [runAll_snoc]
        have hbefore := ih ((List.prefix_append pre [op]).trans hprefix)
        exact (op.honest_run_iff hbefore (valid_runAll m pre)).mpr (hkeeps pre op hprefix)

end

/-! ## An entry that is written again -/

/-- A processor that has just been initialized. -/
def firstProcessor : Machine (XrCachedMem LineRam) := (XrCachedSys.cold 1 .zeroed).machine 0

/-- A page is mapped in entry 4 and used; then the same entry gets another frame. -/
def remapped : List XrTbOp :=
  [.mtcr crDtbindex 4, .mtcr crDtbtag 5, .mtcr crDtbpte 0x21, .translate 0x5000 false false,
    .mtcr crDtbindex 4, .mtcr crDtbpte 0x41]

/-- The next load from the page still goes to the old frame. -/
theorem remapped_hint_stale :
    ¬∀ (m : Machine (XrCachedMem LineRam)) (ops : List XrTbOp),
      HintAgrees (XrTbOp.runAll (xrReset m) ops) := by
  intro h
  have hentry := (h firstProcessor remapped).entry false 0x5000
  obtain ⟨i, hscan, hpte⟩ := hentry (by decide)
  have hfound : ((XrTbOp.runAll (xrReset firstProcessor) remapped).tb false).scan 0x5000 = some 4 := by
    decide
  obtain rfl : 4 = i := Option.some.inj (hfound.symm.trans hscan)
  revert hpte
  decide

end Xremu
