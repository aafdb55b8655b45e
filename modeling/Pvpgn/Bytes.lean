import Pvpgn.Limbs
import Mathlib.Data.List.Flatten

/-!
Byte strings as numbers, least significant byte first, and the four bytes of a limb.
-/

namespace Pvpgn.Bytes
open Limbs Nat
open List hiding count

def number : List UInt8 → Nat
  | [] => 0
  | byte :: rest => byte.toNat + 256 * number rest

def littleEndian (count value : Nat) : List UInt8 :=
  (range count).map fun index => UInt8.ofNat (value / 256 ^ index)

def lowBytes : Nat → UInt32 → List UInt8
  | 0, _ => []
  | count + 1, limb => (limb &&& 0xff).toUInt8 :: lowBytes count (limb >>> 8)

def limbBytes (limb : UInt32) : List UInt8 := lowBytes 4 limb

def blocks (size : Nat) : Nat → List UInt8 → List (List UInt8)
  | 0, _ => []
  | count + 1, bytes => bytes.take size :: blocks size count (bytes.drop size)

theorem byte_lt (byte : UInt8) : byte.toNat < 256 := UInt8.toNat_lt byte

theorem number_cons (byte : UInt8) (rest : List UInt8) :
    number (byte :: rest) = byte.toNat + 256 * number rest := rfl

theorem number_append (low high : List UInt8) :
    number (low ++ high) = number low + 256 ^ low.length * number high := by
  induction low with
  | nil => simp [number]
  | cons byte rest ih =>
    rw [cons_append, number_cons, number_cons, ih, length_cons, pow_succ]
    ring

variable (size count : Nat) (bytes : List UInt8) (limb : UInt32) (limbs : List UInt32)

theorem number_zeros : number (replicate count 0) = 0 := by
  induction count with
  | zero => rfl
  | succ count ih => rw [replicate_succ, number_cons, ih]; rfl

theorem number_lt : number bytes < 256 ^ bytes.length := by
  induction bytes with
  | nil => exact one_pos
  | cons byte rest ih =>
    have small := byte_lt byte
    rw [number_cons, length_cons, pow_succ]
    omega

theorem number_injective (left right : List UInt8) (same : left.length = right.length)
    (equal : number left = number right) : left = right := by
  induction left generalizing right with
  | nil => exact (length_eq_zero_iff.mp same.symm).symm
  | cons byte rest ih =>
    cases right with
    | nil => simp at same
    | cons other others =>
      have small := byte_lt byte
      have otherSmall := byte_lt other
      rw [number_cons, number_cons] at equal
      have heads : byte = other := UInt8.toNat_inj.mp (by omega)
      have tails := ih others (by simpa using same) (by omega)
      rw [heads, tails]

theorem little_endian_length (value : Nat) : (littleEndian count value).length = count := by
  simp [littleEndian]

theorem little_endian_number (value : Nat) :
    number (littleEndian count value) = value % 256 ^ count := by
  induction count generalizing value with
  | zero => simp [littleEndian, number, Nat.mod_one]
  | succ count ih =>
    have step : littleEndian (count + 1) value =
        UInt8.ofNat value :: littleEndian count (value / 256) := by
      simp only [littleEndian, range_succ_eq_map, map_cons, List.map_map, Nat.pow_zero, Nat.div_one]
      congr 1
      apply map_congr_left
      intro index _
      rw [Function.comp_apply, Nat.pow_succ', Nat.div_div_eq_div_mul]
    have low : (UInt8.ofNat value).toNat = value % 256 := UInt8.toNat_ofNat'
    rw [step, number_cons, ih, low, Nat.pow_succ', Nat.mod_mul]

example : littleEndian 4 0x0a0b0c0d = [0x0d, 0x0c, 0x0b, 0x0a] := by decide +kernel

theorem low_bytes_number : number (lowBytes count limb) = limb.toNat % 256 ^ count := by
  induction count generalizing limb with
  | zero => simp [lowBytes, number, mod_one]
  | succ count ih =>
    have mask : (0xff : UInt32).toNat = 2 ^ 8 - 1 := rfl
    have eight : (8 : UInt32).toNat % 32 = 8 := rfl
    have low : (limb &&& 0xff).toUInt8.toNat = limb.toNat % 256 := by
      rw [UInt32.toNat_toUInt8, UInt32.toNat_and, mask, and_two_pow_sub_one_eq_mod]
      omega
    have high : (limb >>> 8).toNat = limb.toNat / 256 := by
      rw [UInt32.toNat_shiftRight, eight, shiftRight_eq_div_pow]
    rw [lowBytes, number_cons, ih, low, high, pow_succ', mod_mul]

theorem limb_bytes_length : (limbBytes limb).length = 4 := rfl

theorem limb_bytes_number : number (limbBytes limb) = limb.toNat := by
  rw [limbBytes, low_bytes_number]
  exact mod_eq_of_lt (limb_lt limb)

theorem limbs_bytes_length : (limbs.flatMap limbBytes).length = 4 * limbs.length := by
  induction limbs with
  | nil => rfl
  | cons limb rest ih =>
    rw [flatMap_cons, length_append, ih, limb_bytes_length, length_cons]
    omega

theorem limbs_bytes_number : number (limbs.flatMap limbBytes) = value limbs := by
  induction limbs with
  | nil => rfl
  | cons limb rest ih =>
    rw [flatMap_cons, number_append, ih, limb_bytes_number, limb_bytes_length, value_cons,
      show 256 ^ 4 = 2 ^ 32 by decide]

theorem limbs_bytes_reverse : (limbs.flatMap limbBytes).reverse = (limbs.reverse.map fun limb =>
    (limbBytes limb).reverse).flatten := by
  induction limbs with
  | nil => rfl
  | cons limb rest ih =>
    rw [flatMap_cons, reverse_append, ih, reverse_cons, map_append, flatten_append]
    simp

theorem blocks_flatten (groups : List (List UInt8)) (tail : List UInt8)
    (sized : ∀ group ∈ groups, group.length = size) :
    blocks size groups.length (groups.flatten ++ tail) = groups := by
  induction groups with
  | nil => rfl
  | cons group rest ih =>
    have here := sized group mem_cons_self
    have later := ih fun other member => sized other (mem_cons_of_mem group member)
    rw [length_cons, blocks, flatten_cons, append_assoc, take_left' here, drop_left' here, later]

theorem flatten_blocks (whole : bytes.length = size * count) :
    (blocks size count bytes).flatten = bytes := by
  induction count generalizing bytes with
  | zero =>
    rw [mul_zero, length_eq_zero_iff] at whole
    rw [whole]
    rfl
  | succ count ih =>
    rw [mul_succ] at whole
    rw [blocks, flatten_cons, ih _ (by rw [length_drop]; omega), take_append_drop]

theorem blocks_length : (blocks size count bytes).length = count := by
  induction count generalizing bytes with
  | zero => rfl
  | succ count ih => rw [blocks, length_cons, ih]

theorem blocks_sized (whole : bytes.length = size * count) :
    ∀ group ∈ blocks size count bytes, group.length = size := by
  induction count generalizing bytes with
  | zero => simp [blocks]
  | succ count ih =>
    rw [mul_succ] at whole
    intro group member
    rcases mem_cons.mp member with first | later
    · rw [first, length_take]
      omega
    · exact ih (bytes.drop size) (by rw [length_drop]; omega) group later

theorem flatten_injective (left right : List (List UInt8))
    (leftSized : ∀ group ∈ left, group.length = size)
    (rightSized : ∀ group ∈ right, group.length = size) (same : left.length = right.length)
    (equal : left.flatten = right.flatten) : left = right := by
  have leftBack := blocks_flatten size left [] leftSized
  have rightBack := blocks_flatten size right [] rightSized
  rw [← leftBack, ← rightBack, equal, same]

/-- Reversing the order of the groups keeps a string, up to less than one group cut off
in front, exactly when the order of the groups reads the same both ways. -/
theorem flatten_reverse_drop (cut : Nat) (groups : List (List UInt8)) (small : cut ≤ size)
    (sized : ∀ group ∈ groups, group.length = size) :
    groups.reverse.flatten.drop cut = groups.flatten.drop cut ↔ groups.reverse = groups := by
  refine ⟨fun equal => ?_, fun same => by rw [same]⟩
  cases groups with
  | nil => rfl
  | cons first rest =>
    rcases eq_nil_or_concat rest with empty | ⟨middle, last, split⟩
    · rw [empty]
      rfl
    rw [concat_eq_append] at split
    subst split
    have firstSize := sized first (by simp)
    have lastSize := sized last (by simp)
    have middleSized : ∀ group ∈ middle, group.length = size :=
      fun group member => sized group (by simp [member])
    have forward : (first :: (middle ++ [last])).flatten = first ++ (middle.flatten ++ last) := by
      simp
    have backward : (first :: (middle ++ [last])).reverse.flatten =
        last ++ (middle.reverse.flatten ++ first) := by simp
    rw [forward, backward, drop_append_of_le_length (by omega),
      drop_append_of_le_length (by omega), ← append_assoc, ← append_assoc] at equal
    obtain ⟨front, ends⟩ := append_inj' equal (by omega)
    subst ends
    have inner := append_cancel_left front
    have mirrored := flatten_injective size middle.reverse middle
      (fun group member => middleSized group (mem_reverse.mp member)) middleSized
      (length_reverse) inner
    simp [mirrored]

end Pvpgn.Bytes
