import Pvpgn.BigIntArithmetic
import Pvpgn.Bytes

/-!
The byte strings of common/bigint.cpp: the constructor from a buffer and `getData`.
Both fail an assertion on an odd block size, and swap past the buffer when its
length is no multiple of the block size; both are `none` here.
-/

namespace Pvpgn.BigIntBytes
open Limbs Bytes BigIntArithmetic List Option

/-- The swaps of one block exchange its bytes end for end. -/
def swapBlocks (blockSize : Nat) (bytes : List UInt8) : Option (List UInt8) :=
  if blockSize % 2 = 0 ∧ bytes.length % blockSize = 0 then
    some ((blocks blockSize (bytes.length / blockSize) bytes).map reverse).flatten
  else none

-- `for (i=input_size-1; i>=0; i--)` over the bytes in the order they are read.
def loadBytes : List UInt8 → List UInt32 → List UInt32
  | [], segment => segment
  | byte :: rest, segment =>
    let j := rest.length / 4
    loadBytes rest (segment.set j ((segment.getD j 0 <<< 8) + byte.toUInt32))

def segmentsFor (inputSize : Nat) : Nat :=
  if inputSize % 4 = 0 then inputSize / 4 else inputSize / 4 + 1

def ofBytes (input : List UInt8) (blockSize : Nat) (bigEndian : Bool) : Option BigInt := do
  let read ← if bigEndian then some input
    else if blockSize = 1 then some input.reverse
    else (swapBlocks blockSize input).map reverse
  some ⟨loadBytes read (replicate (segmentsFor input.length) 0)⟩

/-- The bytes of one segment, lowest first, towards the front of the buffer; `room` is
the number of bytes from `out` up to `pos`. -/
def storeBytes : Nat → UInt32 → Nat → List UInt8 → List UInt8 × Nat
  | 0, _, room, out => (out, room)
  | _ + 1, _, 0, out => (out, 0)
  | count + 1, data, room + 1, out =>
    storeBytes count (data >>> 8) room (out.set room (data &&& 0xff).toUInt8)

def storeSegments : List UInt32 → Nat → List UInt8 → List UInt8
  | [], _, out => out
  | data :: rest, room, out =>
    let stored := storeBytes 4 data room out
    storeSegments rest stored.2 stored.1

def getData (number : BigInt) (byteCount blockSize : Nat) (bigEndian : Bool) :
    Option (List UInt8) :=
  let out := storeSegments number.segment.reverse byteCount (replicate byteCount 0)
  if !bigEndian && decide (1 < blockSize) then swapBlocks blockSize out else some out

/-! Reading a buffer. -/

-- Induction on the bytes still to read. The segment being filled holds the bytes read
-- for it so far, the segments below it are zero.
theorem load_bytes_value (bytes : List UInt8) (segment : List UInt32)
    (room : segmentsFor bytes.length ≤ segment.length)
    (blank : ∀ index, index < bytes.length / 4 → segment.getD index 0 = 0)
    (partly : (segment.getD (bytes.length / 4) 0).toNat < 256 ^ (4 - bytes.length % 4)) :
    (loadBytes bytes segment).length = segment.length ∧
      value (loadBytes bytes segment) =
        value (segment.drop (bytes.length / 4 + 1)) * 2 ^ (32 * (bytes.length / 4 + 1)) +
          (segment.getD (bytes.length / 4) 0).toNat * 256 ^ bytes.length + number bytes.reverse := by
  induction bytes generalizing segment with
  | nil =>
    refine ⟨rfl, ?_⟩
    have split := value_drop_step segment 0
    rw [drop_zero] at split
    simp [loadBytes, number, split]
    ring
  | cons byte rest ih =>
    have inside : rest.length / 4 < segment.length := by
      rw [segmentsFor, length_cons] at room
      split at room <;> omega
    have byteSmall := byte_lt byte
    have here (pushed : UInt32) :
        (segment.set (rest.length / 4) pushed).getD (rest.length / 4) 0 = pushed := by
      rw [getD_eq_getElem _ _ (by rwa [length_set]), getElem_set_self]
    have elsewhere (pushed : UInt32) (index : Nat) (different : index ≠ rest.length / 4) :
        (segment.set (rest.length / 4) pushed).getD index 0 = segment.getD index 0 := by
      rw [getD_eq_getElem?_getD, getElem?_set_ne (Ne.symm different), ← getD_eq_getElem?_getD]
    have above (pushed : UInt32) : (segment.set (rest.length / 4) pushed).drop (rest.length / 4 + 1) =
        segment.drop (rest.length / 4 + 1) := drop_set_of_lt (by omega)
    have enough : segmentsFor rest.length ≤ segment.length := by
      rw [segmentsFor]
      split <;> omega
    have last : number (byte :: rest).reverse =
        number rest.reverse + 256 ^ rest.length * byte.toNat := by
      rw [reverse_cons, number_append, length_reverse, number_cons, number]
      ring
    have shifted : ((segment.getD (rest.length / 4) 0 <<< 8) + byte.toUInt32).toNat =
        ((segment.getD (rest.length / 4) 0).toNat * 256 % 2 ^ 32 + byte.toNat) % 2 ^ 32 := by
      have eight : (8 : UInt32).toNat % 32 = 8 := rfl
      rw [UInt32.toNat_add, UInt32.toNat_shiftLeft, eight, Nat.shiftLeft_eq, UInt8.toNat_toUInt32]
    rw [last, loadBytes]
    simp only [length_cons] at *
    generalize (segment.getD (rest.length / 4) 0 <<< 8) + byte.toUInt32 = filled at *
    by_cases starts : (rest.length + 1) % 4 = 0
    · -- The first byte of a segment still zero.
      have zero := blank (rest.length / 4) (by omega)
      have pushed : filled.toNat = byte.toNat := by
        have nothing : (0 : UInt32).toNat = 0 := rfl
        rw [shifted, zero, nothing]
        omega
      obtain ⟨length, total⟩ := ih (segment.set (rest.length / 4) filled) (by rwa [length_set])
        (fun index below => by rw [elsewhere _ _ (by omega)]; exact blank index (by omega))
        (by rw [here, pushed, show 4 - rest.length % 4 = 1 by omega]; omega)
      refine ⟨by rw [length, length_set], ?_⟩
      have full : (rest.length + 1) / 4 = rest.length / 4 + 1 := by omega
      have power : 2 ^ (32 * (rest.length / 4 + 1)) = 256 ^ (rest.length + 1) := by
        rw [show 256 = 2 ^ 8 by decide, ← Nat.pow_mul]
        congr 1
        omega
      rw [total, here, above, pushed, full, value_drop_step segment (rest.length / 4 + 1),
        power_succ (rest.length / 4 + 1), power]
      ring
    · -- A segment that holds bytes already and has room for one more.
      have same : (rest.length + 1) / 4 = rest.length / 4 := by omega
      rw [same] at partly blank ⊢
      have step : 4 - rest.length % 4 = 4 - (rest.length + 1) % 4 + 1 := by omega
      have limit : 256 ^ (4 - (rest.length + 1) % 4) ≤ 256 ^ 3 :=
        Nat.pow_le_pow_right (by omega) (by omega)
      have pushed : filled.toNat = (segment.getD (rest.length / 4) 0).toNat * 256 + byte.toNat := by
        omega
      obtain ⟨length, total⟩ := ih (segment.set (rest.length / 4) filled) (by rwa [length_set])
        (fun index below => by rw [elsewhere _ _ (by omega)]; exact blank index (by omega))
        (by rw [here, pushed, step, Nat.pow_succ]; omega)
      refine ⟨by rw [length, length_set], ?_⟩
      rw [total, here, above, pushed, Nat.pow_succ]
      ring

theorem load_bytes_exact (bytes : List UInt8) :
    (loadBytes bytes (replicate (segmentsFor bytes.length) 0)).length = segmentsFor bytes.length ∧
      value (loadBytes bytes (replicate (segmentsFor bytes.length) 0)) = number bytes.reverse := by
  have zero (index : Nat) :
      (replicate (segmentsFor bytes.length) (0 : UInt32)).getD index 0 = 0 := by
    rw [getD_eq_getElem?_getD, getElem?_replicate]
    split <;> rfl
  have nothing : (0 : UInt32).toNat = 0 := rfl
  obtain ⟨length, total⟩ := load_bytes_value bytes (replicate (segmentsFor bytes.length) 0)
    (by rw [length_replicate]) (fun index _ => zero index)
    (by rw [zero, nothing]; exact Nat.pow_pos (by omega))
  refine ⟨by rw [length, length_replicate], ?_⟩
  rw [total, zero, nothing, drop_replicate, value_replicate, Nat.zero_mul, Nat.zero_mul,
    Nat.zero_add]

theorem of_bytes_big_endian (input : List UInt8) (blockSize : Nat) :
    ∃ read, ofBytes input blockSize true = some read ∧
      read.segment.length = segmentsFor input.length ∧ val read = number input.reverse := by
  obtain ⟨length, total⟩ := load_bytes_exact input
  exact ⟨_, by simp [ofBytes], length, total⟩

theorem of_bytes_little_endian (input : List UInt8) :
    ∃ read, ofBytes input 1 false = some read ∧ val read = number input := by
  obtain ⟨_, total⟩ := load_bytes_exact input.reverse
  rw [length_reverse, reverse_reverse] at total
  exact ⟨_, by simp [ofBytes], total⟩

/-! Filling a buffer. -/

-- `room` zero bytes are left in front of the bytes already stored.
theorem store_bytes_exact (count : Nat) (data : UInt32) (room : Nat) (stored : List UInt8) :
    storeBytes count data room (replicate room 0 ++ stored) =
      (replicate (room - count) 0 ++ ((lowBytes count data).take room).reverse ++ stored,
        room - count) := by
  induction count generalizing data room stored with
  | zero => simp [storeBytes, lowBytes]
  | succ count ih =>
    cases room with
    | zero => simp [storeBytes]
    | succ room =>
      have placed (byte : UInt8) : (replicate (room + 1) 0 ++ stored).set room byte =
          replicate room 0 ++ byte :: stored := by
        rw [replicate_succ', append_assoc, set_append_right _ _ (by simp)]
        simp
      rw [storeBytes, placed, ih, lowBytes, take_succ_cons, reverse_cons, Nat.add_sub_add_right]
      simp

theorem store_segments_exact (segments : List UInt32) (room : Nat) (stored : List UInt8) :
    storeSegments segments room (replicate room 0 ++ stored) =
      replicate (room - 4 * segments.length) 0 ++
        ((segments.flatMap limbBytes).take room).reverse ++ stored := by
  induction segments generalizing room stored with
  | nil => simp [storeSegments]
  | cons data rest ih =>
    have later := ih (room - 4) (((limbBytes data).take room).reverse ++ stored)
    rw [← append_assoc] at later
    rw [storeSegments, store_bytes_exact]
    rw [← limbBytes, later, flatMap_cons, take_append, limb_bytes_length,
      reverse_append, length_cons, show room - 4 * (rest.length + 1) =
        room - 4 - 4 * rest.length by omega]
    simp

def stored (number : BigInt) (byteCount : Nat) : List UInt8 :=
  replicate (byteCount - 4 * number.segment.length) 0 ++
    ((number.segment.reverse.flatMap limbBytes).take byteCount).reverse

theorem get_data_big_endian (number : BigInt) (byteCount blockSize : Nat) :
    getData number byteCount blockSize true = some (stored number byteCount) := by
  have filled := store_segments_exact number.segment.reverse byteCount []
  rw [append_nil, append_nil, length_reverse] at filled
  simp [getData, filled, stored]

theorem stored_length (number : BigInt) (byteCount : Nat) : (stored number byteCount).length = byteCount := by
  rw [stored, length_append, length_replicate, length_reverse, length_take,
    limbs_bytes_length, length_reverse]
  omega

theorem stored_full (number : BigInt) (byteCount : Nat)
    (full : byteCount ≤ 4 * number.segment.length) : stored number byteCount =
      (number.segment.map fun limb => (limbBytes limb).reverse).flatten.drop
        (4 * number.segment.length - byteCount) := by
  have size := limbs_bytes_length number.segment.reverse
  rw [length_reverse] at size
  rw [stored, show byteCount - 4 * number.segment.length = 0 by omega, replicate_zero,
    nil_append, reverse_take, limbs_bytes_reverse, reverse_reverse, size]

/-! From bytes to bytes. -/

def RoundTrips (data : List UInt8) : Prop :=
  ∃ read, ofBytes data 1 true = some read ∧ getData read data.length 1 true = some data

/-- The groups of four bytes counted from the end, the first one filled up with zeros. -/
def words (data : List UInt8) : List (List UInt8) :=
  blocks 4 (segmentsFor data.length)
    (replicate (4 * segmentsFor data.length - data.length) 0 ++ data)

theorem segments_for_bound (size : Nat) : size ≤ 4 * segmentsFor size ∧ 4 * segmentsFor size < size + 4 := by
  rw [segmentsFor]
  split <;> omega

theorem segments_are_words (data : List UInt8) (read : BigInt)
    (count : read.segment.length = segmentsFor data.length) (equal : val read = number data.reverse) :
    (read.segment.map fun limb => (limbBytes limb).reverse).reverse = words data := by
  obtain ⟨enough, _⟩ := segments_for_bound data.length
  have filler : (replicate (4 * segmentsFor data.length - data.length) (0 : UInt8) ++
      data).length = 4 * segmentsFor data.length := by
    rw [length_append, length_replicate]
    omega
  have bytes : read.segment.flatMap limbBytes =
      (replicate (4 * segmentsFor data.length - data.length) 0 ++ data).reverse := by
    apply number_injective
    · rw [limbs_bytes_length, count, length_reverse, filler]
    · rw [limbs_bytes_number, reverse_append, reverse_replicate, number_append,
        number_zeros, Nat.mul_zero, Nat.add_zero, ← equal, val]
  have flat := limbs_bytes_reverse read.segment
  rw [bytes, reverse_reverse] at flat
  apply flatten_injective 4
  · intro group member
    obtain ⟨limb, _, same⟩ := List.mem_map.mp (mem_reverse.mp member)
    rw [← same, length_reverse, limb_bytes_length]
  · exact blocks_sized _ _ _ filler
  · rw [length_reverse, length_map, count, words, blocks_length]
  · rw [words, flatten_blocks _ _ _ filler, flat, map_reverse]

/-- Reading a buffer and storing it at its own length gives it back exactly when its
32-bit words read the same from both ends, which one word always does. -/
theorem round_trip_iff (data : List UInt8) :
    RoundTrips data ↔ (words data).reverse = words data := by
  obtain ⟨read, done, count, equal⟩ := of_bytes_big_endian data 1
  obtain ⟨enough, close⟩ := segments_for_bound data.length
  have mirrored := segments_are_words data read count equal
  have backward : (read.segment.map fun limb => (limbBytes limb).reverse) = (words data).reverse := by
    rw [← mirrored, reverse_reverse]
  have filler : (replicate (4 * segmentsFor data.length - data.length) (0 : UInt8) ++
      data).length = 4 * segmentsFor data.length := by
    rw [length_append, length_replicate]
    omega
  have forward : data = (words data).flatten.drop (4 * segmentsFor data.length - data.length) := by
    rw [words, flatten_blocks _ _ _ filler, drop_left' (by rw [length_replicate])]
  have written : stored read data.length =
      (words data).reverse.flatten.drop (4 * segmentsFor data.length - data.length) := by
    rw [stored_full read _ (by omega), backward, count]
  rw [← flatten_reverse_drop 4 (4 * segmentsFor data.length - data.length) (words data) (by omega)
    (blocks_sized _ _ _ filler), ← written, ← forward]
  constructor
  · rintro ⟨other, otherDone, back⟩
    rw [some.inj (done.symm.trans otherDone)]
    rw [get_data_big_endian] at back
    exact some.inj back
  · intro same
    exact ⟨read, done, by rw [get_data_big_endian, same]⟩

/-- The eight bytes come back with their two words exchanged. -/
theorem round_trip_swaps_words :
    getData ⟨[0x90abcdef, 0x12345678]⟩ 8 1 true = some [0x90, 0xab, 0xcd, 0xef, 0x12, 0x34, 0x56, 0x78] ∧
      ofBytes [0x12, 0x34, 0x56, 0x78, 0x90, 0xab, 0xcd, 0xef] 1 true =
        some ⟨[0x90abcdef, 0x12345678]⟩ ∧
      ¬RoundTrips [0x12, 0x34, 0x56, 0x78, 0x90, 0xab, 0xcd, 0xef] := by
  have read : ofBytes [0x12, 0x34, 0x56, 0x78, 0x90, 0xab, 0xcd, 0xef] 1 true =
      some ⟨[0x90abcdef, 0x12345678]⟩ := by decide
  refine ⟨by decide, read, ?_⟩
  rintro ⟨other, done, back⟩
  rw [← some.inj (read.symm.trans done)] at back
  revert back
  decide

/-! The little-endian form with blocks of four bytes. -/

-- `getData(out, byteCount, 4, false)` gives the number as `byteCount` bytes, and reading
-- them back gives the number again.
def Transfers (number : BigInt) (byteCount : Nat) : Prop :=
  ∃ out, getData number byteCount 4 false = some out ∧ out = littleEndian byteCount (val number) ∧
    ∃ back, ofBytes out 1 false = some back ∧ val back = val number

theorem take_limbs (limbs : List UInt32) (count : Nat) :
    (limbs.flatMap limbBytes).take (4 * count) = (limbs.take count).flatMap limbBytes := by
  induction limbs generalizing count with
  | nil => simp
  | cons limb rest ih =>
    cases count with
    | zero => simp
    | succ count =>
      rw [flatMap_cons, take_succ_cons, flatMap_cons, take_append,
        limb_bytes_length, take_of_length_le (by rw [limb_bytes_length]; omega),
        show 4 * (count + 1) - 4 = 4 * count by omega, ih]

theorem get_data_blocks (number : BigInt) (width : Nat) :
    getData number (4 * width) 4 false =
      some (replicate (4 * (width - number.segment.length)) 0 ++
        (number.segment.drop (number.segment.length - width)).flatMap limbBytes) := by
  have filled := get_data_big_endian number (4 * width) 1
  rw [getData, Bool.not_true, Bool.false_and, if_neg (by decide), some_inj] at filled
  have size := stored_length number (4 * width)
  have zeros (count : Nat) : (replicate count (replicate 4 (0 : UInt8))).flatten =
      replicate (4 * count) 0 := by
    rw [flatten_replicate_replicate, Nat.mul_comm]
  have kept : (number.segment.reverse.flatMap limbBytes).take (4 * width) =
      (number.segment.drop (number.segment.length - width)).reverse.flatMap limbBytes := by
    rw [take_limbs, take_reverse]
  have groups : stored number (4 * width) =
      (replicate (width - number.segment.length) (replicate 4 0) ++
        (number.segment.drop (number.segment.length - width)).map
          fun limb => (limbBytes limb).reverse).flatten := by
    rw [stored, kept, limbs_bytes_reverse, reverse_reverse, flatten_append, zeros]
    congr 2
    omega
  have sized : ∀ group ∈ replicate (width - number.segment.length) (replicate 4 (0 : UInt8)) ++
      (number.segment.drop (number.segment.length - width)).map
        (fun limb => (limbBytes limb).reverse), group.length = 4 := by
    intro group member
    rcases mem_append.mp member with blank | segment
    · rw [eq_of_mem_replicate blank, length_replicate]
    · obtain ⟨limb, _, same⟩ := List.mem_map.mp segment
      rw [← same, length_reverse, limb_bytes_length]
  have count : (replicate (width - number.segment.length) (replicate 4 (0 : UInt8)) ++
      (number.segment.drop (number.segment.length - width)).map
        fun limb => (limbBytes limb).reverse).length = width := by
    rw [length_append, length_replicate, length_map, length_drop]
    omega
  have cut := blocks_flatten 4 _ [] sized
  rw [append_nil, count, ← groups] at cut
  have turned : (replicate (width - number.segment.length) (replicate 4 (0 : UInt8))).map
      reverse = replicate (width - number.segment.length) (replicate 4 0) := by
    rw [map_replicate, reverse_replicate]
  rw [getData, filled, if_pos (by decide), swapBlocks, size, if_pos (by omega),
    Nat.mul_div_cancel_left _ (by omega), cut, map_append, turned, flatten_append, zeros,
    List.map_map, flatMap_def]
  congr 4

theorem get_data_number (number : BigInt) (width : Nat) :
    ∃ out, getData number (4 * width) 4 false = some out ∧ out.length = 4 * width ∧
      Bytes.number out = 2 ^ (32 * (width - number.segment.length)) *
        (val number / 2 ^ (32 * (number.segment.length - width))) := by
  refine ⟨_, get_data_blocks number width, ?_, ?_⟩
  · rw [length_append, length_replicate, limbs_bytes_length, length_drop]
    omega
  rw [number_append, number_zeros, length_replicate, limbs_bytes_number, value_drop,
    Nat.zero_add, val, show 256 = 2 ^ 8 by decide, ← Nat.pow_mul]
  congr 2
  omega

/-- The little-endian form of a number that fits is right, and reads back, exactly when
the number has one segment for each four bytes, or is zero. -/
theorem transfers_iff (number : BigInt) (width : Nat) (fits : val number < 256 ^ (4 * width)) :
    Transfers number (4 * width) ↔ (number.segment.length = width ∨ val number = 0) := by
  obtain ⟨out, done, length, total⟩ := get_data_number number width
  constructor
  · rintro ⟨other, otherDone, exact_bytes, _⟩
    have same : other = out := some.inj (otherDone.symm.trans done)
    rw [← same, exact_bytes, little_endian_number, Nat.mod_eq_of_lt fits] at total
    by_contra neither
    obtain ⟨different, nonzero⟩ := not_or.mp neither
    rcases Nat.lt_or_gt_of_ne different with fewer | more
    · have scale : 2 ≤ 2 ^ (32 * (width - number.segment.length)) := by
        calc 2 = 2 ^ 1 := rfl
          _ ≤ 2 ^ (32 * (width - number.segment.length)) :=
            Nat.pow_le_pow_right (by omega) (by omega)
      rw [show number.segment.length - width = 0 by omega, Nat.mul_zero, Nat.pow_zero,
        Nat.div_one] at total
      have grown := Nat.mul_le_mul_right (val number) scale
      omega
    · have scale : 2 ≤ 2 ^ (32 * (number.segment.length - width)) := by
        calc 2 = 2 ^ 1 := rfl
          _ ≤ 2 ^ (32 * (number.segment.length - width)) :=
            Nat.pow_le_pow_right (by omega) (by omega)
      rw [show width - number.segment.length = 0 by omega, Nat.mul_zero, Nat.pow_zero,
        Nat.one_mul] at total
      have shrunk := Nat.div_lt_self (Nat.pos_of_ne_zero nonzero) scale
      omega
  · intro condition
    have equal : Bytes.number out = val number := by
      rw [total]
      rcases condition with same | zero
      · simp [same]
      · simp [zero]
    obtain ⟨back, read, value⟩ := of_bytes_little_endian out
    refine ⟨out, done, ?_, back, read, value.trans equal⟩
    apply number_injective
    · rw [length, little_endian_length]
    · rw [equal, little_endian_number, Nat.mod_eq_of_lt fits]

theorem transfers_iff_sample : Transfers ⟨[5, 7]⟩ 8 :=
  (transfers_iff ⟨[5, 7]⟩ 2 (by decide)).mpr (Or.inl rfl)

/-- The number one in a buffer of 32 bytes lands in the last block. -/
theorem short_number_misplaced :
    getData ⟨[1]⟩ 32 4 false = some (replicate 28 0 ++ [1, 0, 0, 0]) ∧
      val ⟨[1]⟩ < 256 ^ 32 ∧ ¬Transfers ⟨[1]⟩ 32 := by
  have written : getData ⟨[1]⟩ 32 4 false = some (replicate 28 0 ++ [1, 0, 0, 0]) := by decide
  refine ⟨written, by decide, ?_⟩
  rintro ⟨out, done, expected, _⟩
  rw [← some.inj (written.symm.trans done)] at expected
  revert expected
  decide

end Pvpgn.BigIntBytes
