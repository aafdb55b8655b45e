import Pvpgn.PacketFraming

/-!
Building packets: `packet_set_size` and the calls that append a string or data. A read or a write
outside an array is `none`.
-/

namespace Pvpgn.PacketAppend
open PacketFraming List Option UInt32

def bnShortSet (data : List UInt8) (offset : Nat) (src : UInt16) : List UInt8 :=
  (data.set offset (src &&& 0xff).toUInt8).set (offset + 1) (src >>> 8).toUInt8

/-- `bn_short_set` of the size field, with the conversion to 16 bits. -/
def setSizeField (packet : Packet) (offset size : Nat) : Packet :=
  { packet with
    data := bnShortSet packet.data offset (UInt16.ofNat size)
    room := by rw [bnShortSet, length_set, length_set, packet.room] }

/-- The classes that refuse a size below the one of their header. -/
def refusesShort : PacketClass → Bool
  | .bnet | .file | .udp | .w3route => true
  | _ => false

def packetSetSize (packet : Packet) (size : Nat) : Int × Packet :=
  if maxPacketSize < size then (-1, packet)
  else if refusesShort packet.pclass ∧ size ≠ 0 ∧ size < packetGetHeaderSize packet.pclass then
    (-1, packet)
  else match packet.pclass with
    | .init => if size ≠ 0 ∧ size ≠ 1 then (-1, packet) else (0, { packet with len := size })
    | .bnet => (0, setSizeField packet 2 size)
    | .file => (0, setSizeField packet 0 size)
    | .udp => (0, { packet with len := size })
    | .raw => (0, { packet with len := size })
    | .d2game => (0, { packet with len := size })
    | .d2cs => (0, setSizeField packet 0 size)
    | .d2gs => (0, setSizeField packet 0 size)
    | .d2csBnetd => (0, setSizeField packet 0 size)
    | .w3route => (0, setSizeField packet 2 size)
    | .wolgameres => (0, { packet with len := size })

/-- The source of `memcpy` must have as many bytes as are copied. -/
def copyFrom (source : List UInt8) (count : Nat) : Option (List UInt8) :=
  if count ≤ source.length then some (source.take count) else none

/-- What the three calls share: `len` bytes are wanted, and `bytes` says what is written when there
is room for so many of them. The result of `packet_set_size` is not looked at. -/
def appendWith (packet : Packet) (len : UInt32) (bytes : Nat → Option (List UInt8)) :
    Option (Int × Packet) :=
  let size : UInt16 := UInt16.ofNat (packetGetSize packet)
  if maxPacketSize ≤ size.toNat then some (-1, packet)
  else
    let left : UInt32 := 3072 - size.toUInt32
    let addlen : UInt16 := if len < left then len.toUInt16 else left.toUInt16
    if addlen < 1 then some (-1, packet)
    else do
      let written ← bytes addlen.toNat
      let packet ← store packet size.toNat written
      some (addlen.toNat, (packetSetSize packet (size.toNat + addlen.toNat)).2)

/-- `str` without its NUL, which is written anyhow. -/
def packetAppendString (packet : Packet) (str : List UInt8) : Option (Int × Packet) :=
  appendWith packet (ofNat (str.length + 1)) fun addlen =>
    (copyFrom (str ++ [0]) (addlen - 1)).map (· ++ [0])

def packetAppendNtstring (packet : Packet) (str : List UInt8) : Option (Int × Packet) :=
  appendWith packet (ofNat str.length) (copyFrom (str ++ [0]))

def packetAppendData (packet : Packet) (data : List UInt8) (len : UInt32) : Option (Int × Packet) :=
  appendWith packet len (copyFrom data)

/-- The packet grew by `added` and nothing in front of it but the size field changed. -/
structure Appended (packet after : Packet) (added : List UInt8) : Prop where
  pclass : after.pclass = packet.pclass
  size : packetGetSize after = packetGetSize packet + added.length
  bound : packetGetSize after ≤ maxPacketSize
  earlier : ∀ index, packetGetHeaderSize packet.pclass ≤ index → index < packetGetSize packet →
    after.data[index]? = packet.data[index]?
  bytes : (after.data.drop (packetGetSize packet)).take added.length = added

/-- A call ends: refused, with the packet as it was, or with the number of bytes it appended. -/
def Ends (call : Option (Int × Packet)) (packet : Packet) (bytes : Nat → List UInt8) : Prop :=
  call = some (-1, packet) ∨ ∃ (count : Nat) (after : Packet), 0 < count ∧
    call = some ((count : Int), after) ∧ (bytes count).length = count ∧
    Appended packet after (bytes count)

/-! Sizes. -/

theorem short_bytes (src : UInt16) :
    (src &&& 0xff).toUInt8.toUInt16 ||| (src >>> 8).toUInt8.toUInt16 <<< 8 = src := by
  have bound := UInt16.toNat_lt src
  have mask : (0xff : UInt16).toNat = 2 ^ 8 - 1 := rfl
  have amount : (8 : UInt16).toNat % 16 = 8 := rfl
  have low : (src &&& 0xff).toUInt8.toUInt16.toNat = src.toNat % 256 := by
    rw [UInt8.toNat_toUInt16, UInt16.toNat_toUInt8, UInt16.toNat_and, mask,
      Nat.and_two_pow_sub_one_eq_mod]
    omega
  have high : ((src >>> 8).toUInt8.toUInt16 <<< 8).toNat = 2 ^ 8 * (src.toNat / 256) := by
    rw [UInt16.toNat_shiftLeft, amount, UInt8.toNat_toUInt16, UInt16.toNat_toUInt8,
      UInt16.toNat_shiftRight, amount, Nat.shiftRight_eq_div_pow, Nat.shiftLeft_eq]
    omega
  apply UInt16.toNat_inj.mp
  rw [UInt16.toNat_or, low, high, Nat.or_comm, ← Nat.two_pow_add_eq_or_of_lt (by omega)]
  omega

theorem bn_short_set_get (data : List UInt8) (offset : Nat) (src : UInt16)
    (room : offset + 2 ≤ data.length) :
    bnShortGet (bnShortSet data offset src) offset = src.toNat := by
  have low : (bnShortSet data offset src).getD offset 0 = (src &&& 0xff).toUInt8 := by
    rw [bnShortSet, getD_eq_getElem?_getD, getElem?_set_ne (by omega),
      getElem?_set_self (by omega), getD_some]
  have high : (bnShortSet data offset src).getD (offset + 1) 0 = (src >>> 8).toUInt8 := by
    rw [bnShortSet, getD_eq_getElem?_getD, getElem?_set_self (by rw [length_set]; omega), getD_some]
  rw [bnShortGet, low, high, short_bytes]

theorem bn_short_set_other (data : List UInt8) (offset index : Nat) (src : UInt16)
    (behind : offset + 2 ≤ index) : (bnShortSet data offset src)[index]? = data[index]? := by
  rw [bnShortSet, getElem?_set_ne (by omega), getElem?_set_ne (by omega)]

variable (packet : Packet) (size : Nat)

theorem checked_size_small (small : size ≤ maxPacketSize) : checkedSize size = size :=
  if_neg (by omega)

/-- What a size that the class accepts does to a packet. -/
structure Resized (packet after : Packet) (size : Nat) : Prop where
  pclass : after.pclass = packet.pclass
  size : packetGetSize after = size
  data : ∀ index, packetGetHeaderSize packet.pclass ≤ index →
    after.data[index]? = packet.data[index]?

theorem set_size_field (offset size : Nat) (small : size ≤ maxPacketSize)
    (carries : sizeOffset packet.pclass = some offset) :
    Resized packet (setSizeField packet offset size) size := by
  obtain ⟨inside, header⟩ := size_inside_header carries
  have room := packet.room
  have bound : size < 2 ^ 16 := by
    rw [maxPacketSize] at small
    omega
  refine ⟨rfl, ?_, fun index behind => ?_⟩
  · rw [packet_get_size_carrying (setSizeField packet offset size) carries, setSizeField,
      bn_short_set_get _ _ _ (by omega), UInt16.toNat_ofNat', Nat.mod_eq_of_lt bound,
      checked_size_small size small]
  · exact bn_short_set_other packet.data offset index _ (by omega)

theorem set_len (small : size ≤ maxPacketSize)
    (plain : packet.pclass = .udp ∨ packet.pclass = .raw ∨ packet.pclass = .d2game) :
    Resized packet { packet with len := size } size := by
  refine ⟨rfl, ?_, fun _ _ => rfl⟩
  rcases plain with shape | shape | shape <;>
    simp [packetGetSize, shape, checked_size_small size small]

theorem set_size_exact (notInit : packet.pclass ≠ .init) (notWol : packet.pclass ≠ .wolgameres)
    (large : packetGetHeaderSize packet.pclass ≤ size) (small : size ≤ maxPacketSize) :
    Resized packet (packetSetSize packet size).2 size := by
  rw [packetSetSize, if_neg (by omega), if_neg (by omega)]
  split
  · next shape => exact absurd shape notInit
  · next shape => exact set_size_field packet 2 size small (by rw [shape]; rfl)
  · next shape => exact set_size_field packet 0 size small (by rw [shape]; rfl)
  · next shape => exact set_len packet size small (Or.inl shape)
  · next shape => exact set_len packet size small (Or.inr (Or.inl shape))
  · next shape => exact set_len packet size small (Or.inr (Or.inr shape))
  · next shape => exact set_size_field packet 0 size small (by rw [shape]; rfl)
  · next shape => exact set_size_field packet 0 size small (by rw [shape]; rfl)
  · next shape => exact set_size_field packet 0 size small (by rw [shape]; rfl)
  · next shape => exact set_size_field packet 2 size small (by rw [shape]; rfl)
  · next shape => exact absurd shape notWol

/-! Appending. -/

theorem packet_get_size_bound (notWol : packet.pclass ≠ .wolgameres) :
    packetGetSize packet ≤ maxPacketSize := by
  have bound (size : Nat) : checkedSize size ≤ maxPacketSize := by
    rw [checkedSize]
    split <;> omega
  rw [packetGetSize]
  split <;> first | exact bound _ | contradiction

theorem store_bytes (offset : Nat) (bytes : List UInt8)
    (room : offset + bytes.length ≤ maxPacketSize) :
    ∃ stored, store packet offset bytes = some stored ∧
      stored.pclass = packet.pclass ∧ stored.len = packet.len ∧
      (∀ index < offset, stored.data[index]? = packet.data[index]?) ∧
      (stored.data.drop offset).take bytes.length = bytes := by
  have cells := packet.room
  have front : (packet.data.take offset).length = offset := by
    rw [length_take]
    omega
  rw [store, dif_pos room]
  refine ⟨_, rfl, rfl, rfl, fun index before => ?_, ?_⟩
  · dsimp only
    rw [append_assoc, getElem?_append_left (by omega), getElem?_take_of_lt before]
  · dsimp only
    rw [append_assoc, drop_left' front, take_left' rfl]

theorem append_with_ends (len : UInt32) (bytes : Nat → Option (List UInt8))
    (source : Nat → List UInt8) (notInit : packet.pclass ≠ .init)
    (notWol : packet.pclass ≠ .wolgameres)
    (header : packetGetHeaderSize packet.pclass ≤ packetGetSize packet)
    (readable : ∀ count, 0 < count → count ≤ len.toNat →
      bytes count = some (source count) ∧ (source count).length = count) :
    Ends (appendWith packet len bytes) packet source := by
  have bound := packet_get_size_bound packet notWol
  have largest : maxPacketSize = 3072 := rfl
  have size : (UInt16.ofNat (packetGetSize packet)).toNat = packetGetSize packet := by
    rw [UInt16.toNat_ofNat']
    omega
  rw [appendWith]
  simp only [size]
  by_cases full : maxPacketSize ≤ packetGetSize packet
  · rw [if_pos full]
    exact Or.inl rfl
  rw [if_neg full]
  have left : (3072 - (UInt16.ofNat (packetGetSize packet)).toUInt32 : UInt32).toNat =
      3072 - packetGetSize packet := by
    have whole : (3072 : UInt32).toNat = 3072 := rfl
    have small : (UInt16.ofNat (packetGetSize packet)).toUInt32 ≤ 3072 := by
      rw [UInt32.le_iff_toNat_le, UInt16.toNat_toUInt32, size]
      omega
    rw [UInt32.toNat_sub_of_le _ _ small, UInt16.toNat_toUInt32, size, whole]
  generalize (3072 - (UInt16.ofNat (packetGetSize packet)).toUInt32 : UInt32) = room at left ⊢
  obtain ⟨addlen, chosen⟩ : ∃ addlen : UInt16,
      addlen = if len < room then len.toUInt16 else room.toUInt16 := ⟨_, rfl⟩
  have taken : addlen.toNat ≤ len.toNat ∧ addlen.toNat ≤ 3072 - packetGetSize packet := by
    rw [chosen]
    by_cases less : len < room
    · rw [if_pos less, UInt32.toNat_toUInt16]
      rw [UInt32.lt_iff_toNat_lt] at less
      omega
    · rw [if_neg less, UInt32.toNat_toUInt16]
      rw [UInt32.lt_iff_toNat_lt] at less
      omega
  rw [← chosen]
  by_cases nothing : addlen < 1
  · rw [if_pos nothing]
    exact Or.inl rfl
  have positive : 0 < addlen.toNat := by
    rw [UInt16.lt_iff_toNat_lt] at nothing
    have one : (1 : UInt16).toNat = 1 := rfl
    omega
  obtain ⟨read, length⟩ := readable addlen.toNat positive taken.1
  obtain ⟨stored, done, pclass, _, before, written⟩ :=
    store_bytes packet (packetGetSize packet) (source addlen.toNat) (by omega)
  have resized := set_size_exact stored (packetGetSize packet + addlen.toNat)
    (by rw [pclass]; exact notInit) (by rw [pclass]; exact notWol) (by rw [pclass]; omega)
    (by omega)
  rw [if_neg nothing]
  simp only [read, done, bind_eq_bind, bind_some]
  refine Or.inr ⟨addlen.toNat, _, positive, rfl, length, ?_⟩
  · refine ⟨resized.pclass.trans pclass, ?_, ?_, ?_, ?_⟩
    · rw [resized.size, length]
    · rw [resized.size]
      omega
    · intro index behind inside
      rw [resized.data index (by rw [pclass]; exact behind), before index inside]
    · refine Eq.trans ?_ written
      apply ext_getElem?
      intro index
      rw [getElem?_take, getElem?_take, getElem?_drop, getElem?_drop,
        resized.data _ (by rw [pclass]; omega)]

theorem copy_from_inside (source : List UInt8) (count : Nat) (inside : count ≤ source.length) :
    copyFrom source count = some (source.take count) := if_pos inside

/-- Every append refuses and leaves the packet, or adds the first bytes of its argument, as many as
its result says. -/
theorem appends_exact (packet : Packet) (notInit : packet.pclass ≠ .init)
    (notWol : packet.pclass ≠ .wolgameres)
    (header : packetGetHeaderSize packet.pclass ≤ packetGetSize packet) :
    (∀ str, Ends (packetAppendString packet str) packet fun count =>
      str.take (count - 1) ++ [0]) ∧
    (∀ str, Ends (packetAppendNtstring packet str) packet fun count => str.take count) ∧
    ∀ (data : List UInt8) (len : UInt32), len.toNat ≤ data.length →
      Ends (packetAppendData packet data len) packet fun count => data.take count := by
  refine ⟨fun str => ?_, fun str => ?_, fun data len block => ?_⟩
  · apply append_with_ends packet _ _ _ notInit notWol header
    intro count positive within
    rw [toNat_ofNat'] at within
    rw [copy_from_inside _ _ (by simp only [length_append, length_singleton]; omega),
      map_some, take_append_of_le_length (by omega)]
    refine ⟨rfl, ?_⟩
    rw [length_append, length_take, length_singleton]
    omega
  · apply append_with_ends packet _ _ _ notInit notWol header
    intro count positive within
    rw [toNat_ofNat'] at within
    rw [copy_from_inside _ _ (by simp only [length_append, length_singleton]; omega),
      take_append_of_le_length (by omega)]
    refine ⟨rfl, ?_⟩
    rw [length_take]
    omega
  · apply append_with_ends packet _ _ _ notInit notWol header
    intro count positive within
    rw [copy_from_inside _ _ (by omega)]
    refine ⟨rfl, ?_⟩
    rw [length_take]
    omega

def replyPacket : Packet :=
  { pclass := .bnet, len := 0, data := 255 :: 15 :: 4 :: 0 :: replicate 3068 0,
    room := by simp only [length_cons, length_replicate]; rfl }

theorem reply_appends :
    (∀ str, Ends (packetAppendString replyPacket str) replyPacket fun count =>
      str.take (count - 1) ++ [0]) ∧
    (∀ str, Ends (packetAppendNtstring replyPacket str) replyPacket fun count => str.take count) ∧
    ∀ (data : List UInt8) (len : UInt32), len.toNat ≤ data.length →
      Ends (packetAppendData replyPacket data len) replyPacket fun count => data.take count :=
  appends_exact replyPacket (by decide) (by decide) (by decide)

end Pvpgn.PacketAppend
