import Xremu.Machine.Processor

/-!
# The bus

`EBusRead`, `EBusWrite` and `EBusTranslate` dispatch on the address to a device.
The processor core only sees their results, so the bus is a class; what is
proved for every `EBus` instance holds whatever devices are plugged in. A device
may lower the processor's `Progress` (`XrDecrementProgress`), nothing else of it.

`LineRam` is the bus as the cache simulation uses it: 16-byte lines that answer
or not by address only. Multi-byte values are little-endian (`CopyWithLength`,
`CopyWithLengthZext`).
-/

namespace Xremu

/-- Byte `k` of a value as `CopyWithLength` stores it. -/
def byteOf (v : Word) (k : Nat) : Byte := v.extractLsb' (8 * k) 8

/-- `CopyWithLengthZext`: the value of 1, 2 or 4 bytes, zero-extended. -/
def zext (bytes : Nat → Byte) (length : Nat) : Word :=
  match length with
  | 1 => (bytes 0).setWidth 32
  | 2 => (bytes 1 ++ bytes 0).setWidth 32
  | 4 => bytes 3 ++ bytes 2 ++ bytes 1 ++ bytes 0
  | _ => 0

/-- `CopyWithLength` into a byte array at offset `off`. -/
def copyBytes (bytes : Nat → Byte) (off : Nat) (src : Nat → Byte) (length : Nat) : Nat → Byte :=
  fun a => if off ≤ a ∧ a < off + length then src (a - off) else bytes a

theorem copyBytes_of_lt {bytes src : Nat → Byte} {off length a : Nat} (h : a < length) :
    copyBytes bytes off src length (off + a) = src a := by
  simp [copyBytes, h]

theorem copyBytes_of_not {bytes src : Nat → Byte} {off length a : Nat}
    (h : ¬(off ≤ a ∧ a < off + length)) : copyBytes bytes off src length a = bytes a := by
  simp [copyBytes, h]

/-- Writing into an array changes it unless the bytes are there already. -/
theorem copyBytes_eq_self_iff {bytes src : Nat → Byte} {off length : Nat} :
    copyBytes bytes off src length = bytes ↔ ∀ k, k < length → src k = bytes (off + k) := by
  constructor
  · intro h k hk
    have hcopy := @copyBytes_of_lt bytes src off length k hk
    rw [← hcopy, h]
  · intro h
    funext x
    by_cases hx : off ≤ x ∧ x < off + length
    · obtain ⟨k, rfl⟩ := Nat.exists_eq_add_of_le hx.1
      rw [copyBytes_of_lt (by omega)]
      exact h k (by omega)
    · exact copyBytes_of_not hx

theorem zext_byteOf (v : Word) : zext (byteOf v) 4 = v := by
  unfold zext byteOf
  apply BitVec.eq_of_getLsbD_eq
  intro i hi
  simp only [BitVec.getLsbD_append, BitVec.getLsbD_extractLsb']
  by_cases h0 : i < 8
  · simp [h0]
  by_cases h1 : i - 8 < 8
  · have hbit : 8 + (i - 8) = i := by omega
    simp [h0, h1, hbit]
  by_cases h2 : i - 8 - 8 < 8
  · have hbit : 16 + (i - 8 - 8) = i := by omega
    simp [h0, h1, h2, hbit]
  · have hlast : i - 8 - 8 - 8 < 8 := by omega
    have hbit : 24 + (i - 8 - 8 - 8) = i := by omega
    simp [h0, h1, h2, hlast, hbit]

theorem zext_congr {f g : Nat → Byte} {length : Nat} (h : ∀ k, k < length → f k = g k) :
    zext f length = zext g length := by
  unfold zext
  split
  · rw [h 0 (by omega)]
  · rw [h 0 (by omega), h 1 (by omega)]
  · rw [h 0 (by omega), h 1 (by omega), h 2 (by omega), h 3 (by omega)]
  · rfl

/-- What a port access returns: `EBUSSUCCESS` or `EBUSERROR`. -/
inductive EBusStatus where
  | success
  | error
deriving DecidableEq

/-- The result of a bus access: `none` (or `false`) is `EBUSERROR`. -/
structure EBusReply (β α : Type) where
  bus : β
  progress : Int
  reply : α

class EBus (β : Type) where
  read : β → XrProcessor → (address length : Nat) → EBusReply β (Option (Nat → Byte))
  write : β → XrProcessor → (address : Nat) → (Nat → Byte) → (length : Nat) → EBusReply β Bool

/-- RAM in 16-byte lines. -/
structure LineRam where
  populated : Nat → Bool   -- by line address
  bytes : Nat → Byte

/-- RAM of zeros that answers everywhere. -/
def LineRam.zeroed : LineRam := ⟨fun _ => true, fun _ => 0⟩

/-- Clearing the low bits of a word rounds it down to a multiple of a power of two. -/
theorem toNat_and_highMask {mask : Word} {k : Nat}
    (hmask : ∀ i, i < 32 → mask.getLsbD i = decide (k ≤ i)) (v : Word) :
    (v &&& mask).toNat = v.toNat / (1 <<< k) * (1 <<< k) := by
  have hshift : v &&& mask = (v >>> k) <<< k := by
    apply BitVec.eq_of_getLsbD_eq
    intro i hi
    rw [BitVec.getLsbD_and, hmask i hi, BitVec.getLsbD_shiftLeft]
    by_cases hk : k ≤ i
    · simp [hk, hi]
    · simp [hk]
  rw [Nat.one_shiftLeft]
  have hlt := Nat.lt_of_le_of_lt (Nat.div_mul_le_self v.toNat (2 ^ k)) v.isLt
  rw [hshift, BitVec.toNat_shiftLeft, BitVec.toNat_ushiftRight, Nat.shiftLeft_eq,
    Nat.shiftRight_eq_div_pow, Nat.mod_eq_of_lt hlt]

/-- `address & ~(XR_DC_LINE_SIZE - 1)`. -/
def xrLineTag (address : Nat) : Nat := address / 16 * 16

instance : EBus LineRam where
  read r p address _ :=
    ⟨r, p.progress,
      if r.populated (xrLineTag address) then some fun k => r.bytes (address + k) else none⟩
  write r p address src length :=
    if r.populated (xrLineTag address) then
      ⟨{ r with bytes := copyBytes r.bytes address src length }, p.progress, true⟩
    else ⟨r, p.progress, false⟩

end Xremu
