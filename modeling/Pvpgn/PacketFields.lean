import Pvpgn.Bytes

/-!
The fields of a packet by their offsets. A packet is the bytes that its size counts; `none` is a
field that does not lie inside them.
-/

namespace Pvpgn.PacketFields

/-- `bn_byte_get` -/
def byteAt (packet : List UInt8) (offset : Nat) : Option UInt8 := packet[offset]?

/-- `bn_int_get` -/
def intAt (packet : List UInt8) (offset : Nat) : Option UInt32 :=
  if offset + 4 ≤ packet.length then
    some (UInt32.ofNat (Bytes.number ((packet.drop offset).take 4)))
  else none

variable {packet : List UInt8} {offset : Nat}

theorem int_at_inside (inside : offset + 4 ≤ packet.length) :
    ∃ value, intAt packet offset = some value :=
  ⟨_, if_pos inside⟩

theorem int_at_some {value : UInt32} (read : intAt packet offset = some value) :
    offset + 4 ≤ packet.length := by
  by_contra outside
  rw [intAt, if_neg outside] at read
  cases read

theorem byte_at_inside (inside : offset < packet.length) :
    ∃ value, byteAt packet offset = some value :=
  ⟨_, List.getElem?_eq_getElem inside⟩

end Pvpgn.PacketFields
