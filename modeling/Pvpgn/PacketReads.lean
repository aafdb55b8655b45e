import Pvpgn.PacketFraming

/-!
Reading a received packet: `packet_get_str_const` and `packet_get_data_const`, with the positions of
the data that the first one looks at.
-/

namespace Pvpgn.PacketReads
open PacketFraming List

/-- The memory from `u.data` on; `beyond` lies behind the packet's room. -/
def byteAt (packet : Packet) (beyond : Nat → UInt8) (pos : Nat) : UInt8 :=
  packet.data[pos]?.getD (beyond pos)

/-- The loop of `packet_get_str_const` from `pos` on: the positions it reads, and whether it ends at
a NUL that passes the test behind the loop. -/
def scanString (byte : Nat → UInt8) (size offset maxlen pos : Nat) : List Nat × Bool :=
  if byte pos = 0 then ([pos], !decide (size ≤ pos ∨ maxlen ≤ pos - offset))
  else if size ≤ pos ∨ maxlen ≤ pos - offset then ([pos], false)
  else
    let rest := scanString byte size offset maxlen (pos + 1)
    (pos :: rest.1, rest.2)
termination_by size + 1 - pos

/-- The positions that a call reads, and the one its pointer names; NULL is `none`. -/
structure Answer where
  reads : List Nat
  pointer : Option Nat

def packetGetStrConst (packet : Packet) (beyond : Nat → UInt8) (offset maxlen : UInt32) : Answer :=
  let size := packetGetSize packet
  if size ≤ offset.toNat then ⟨[], none⟩
  else
    let scan := scanString (byteAt packet beyond) size offset.toNat maxlen.toNat offset.toNat
    ⟨scan.1, if scan.2 then some offset.toNat else none⟩

/-- The sum of the range check is one of 32 bits. -/
def packetGetDataConst (packet : Packet) (offset len : UInt32) : Option Nat :=
  if len < 1 then none
  else if packetGetSize packet < (offset + len).toNat then none
  else some offset.toNat

/-- A string from `start` on that ends with its NUL before `size`. -/
def StringInside (byte : Nat → UInt8) (size start : Nat) : Prop :=
  ∃ nul, start ≤ nul ∧ nul < size ∧ byte nul = 0 ∧ ∀ pos, start ≤ pos → pos < nul → byte pos ≠ 0

/-- What a handler relies on when it asks for a string and for data at an offset. -/
structure Barrier (packet : Packet) (beyond : Nat → UInt8) (offset maxlen len : UInt32) : Prop where
  reads : ∀ pos ∈ (packetGetStrConst packet beyond offset maxlen).reads, pos < packetGetSize packet
  string : ∀ start, (packetGetStrConst packet beyond offset maxlen).pointer = some start →
    start = offset.toNat ∧ StringInside (byteAt packet beyond) (packetGetSize packet) start
  data : ∀ start, packetGetDataConst packet offset len = some start →
    start = offset.toNat ∧ start + len.toNat ≤ packetGetSize packet

/-- There is a NUL between the offset and the end of the packet, or `maxlen` ends the scan before
that end. -/
def ScanStops (packet : Packet) (offset maxlen : UInt32) : Prop :=
  offset.toNat < packetGetSize packet →
    (∃ pos, offset.toNat ≤ pos ∧ pos < packetGetSize packet ∧ packet.data[pos]? = some 0) ∨
      offset.toNat + maxlen.toNat < packetGetSize packet

/-- The range check does not wrap around to a small sum. -/
def SumFits (packet : Packet) (offset len : UInt32) : Prop :=
  offset.toNat + len.toNat < 2 ^ 32 ∨ packetGetSize packet < offset.toNat + len.toNat - 2 ^ 32

section Strings
variable (byte : Nat → UInt8) (size offset maxlen : Nat)

/-- From a position inside the packet on, the scan stays inside exactly if a NUL or `maxlen` stops
it before the end. -/
theorem scan_inside_iff (pos : Nat) (later : offset ≤ pos) :
    (∀ read ∈ (scanString byte size offset maxlen pos).1, read < size) ↔
      pos < size ∧ ((∃ nul, pos ≤ nul ∧ nul < size ∧ byte nul = 0) ∨ offset + maxlen < size) := by
  induction pos using scanString.induct byte size offset maxlen with
  | case1 pos ends =>
    rw [scanString, if_pos ends]
    constructor
    · intro inside
      have here := inside pos (mem_singleton_self pos)
      exact ⟨here, Or.inl ⟨pos, le_refl pos, here, ends⟩⟩
    · rintro ⟨here, -⟩ read member
      rw [mem_singleton.mp member]
      exact here
  | case2 pos goes stop =>
    rw [scanString, if_neg goes, if_pos stop]
    constructor
    · intro inside
      have here := inside pos (mem_singleton_self pos)
      exact ⟨here, Or.inr (by omega)⟩
    · rintro ⟨here, -⟩ read member
      rw [mem_singleton.mp member]
      exact here
  | case3 pos goes further ih =>
    rw [scanString, if_neg goes, if_neg further]
    simp only [mem_cons, forall_eq_or_imp, ih (by omega)]
    constructor
    · rintro ⟨here, -, ⟨nul, after, before, ends⟩ | short⟩
      · exact ⟨here, Or.inl ⟨nul, by omega, before, ends⟩⟩
      · exact ⟨here, Or.inr short⟩
    · rintro ⟨here, ⟨nul, after, before, ends⟩ | short⟩
      · have other : nul ≠ pos := fun same => goes (same ▸ ends)
        exact ⟨here, by omega, Or.inl ⟨nul, by omega, before, ends⟩⟩
      · exact ⟨here, by omega, Or.inr short⟩

theorem scan_found (pos : Nat) (found : (scanString byte size offset maxlen pos).2 = true) :
    ∃ nul, pos ≤ nul ∧ nul < size ∧ nul - offset < maxlen ∧ byte nul = 0 ∧
      ∀ other, pos ≤ other → other < nul → byte other ≠ 0 := by
  induction pos using scanString.induct byte size offset maxlen with
  | case1 pos ends =>
    rw [scanString, if_pos ends] at found
    have passed : ¬(size ≤ pos ∨ maxlen ≤ pos - offset) := by simpa using found
    exact ⟨pos, le_refl pos, by omega, by omega, ends, fun other after before => by omega⟩
  | case2 pos goes stop =>
    rw [scanString, if_neg goes, if_pos stop] at found
    cases found
  | case3 pos goes further ih =>
    rw [scanString, if_neg goes, if_neg further] at found
    obtain ⟨nul, after, before, short, ends, between⟩ := ih found
    refine ⟨nul, by omega, before, short, ends, fun other first last => ?_⟩
    rcases Nat.eq_or_lt_of_le first with rfl | beyond
    · exact goes
    · exact between other beyond last

theorem scan_string (pos : Nat) (found : (scanString byte size offset maxlen pos).2 = true) :
    StringInside byte size pos := by
  obtain ⟨nul, after, before, -, ends, between⟩ := scan_found byte size offset maxlen pos found
  exact ⟨nul, after, before, ends, between⟩

end Strings

section Calls
variable (packet : Packet) (beyond : Nat → UInt8) (offset maxlen len : UInt32)

theorem size_in_room : packetGetSize packet ≤ packet.data.length := by
  have checked : ∀ size, checkedSize size ≤ maxPacketSize := by
    intro size
    unfold checkedSize
    split <;> omega
  rw [packet.room]
  unfold packetGetSize
  split
  all_goals first | exact checked _ | skip
  dsimp only
  split <;> exact checked _

theorem byte_zero_iff {pos : Nat} (inside : pos < packetGetSize packet) :
    byteAt packet beyond pos = 0 ↔ packet.data[pos]? = some 0 := by
  have room := size_in_room packet
  rw [byteAt, getElem?_eq_getElem (by omega)]
  simp

theorem str_reads_iff :
    (∀ pos ∈ (packetGetStrConst packet beyond offset maxlen).reads, pos < packetGetSize packet) ↔
      ScanStops packet offset maxlen := by
  rw [packetGetStrConst, ScanStops]
  by_cases refused : packetGetSize packet ≤ offset.toNat
  · have outside : ¬offset.toNat < packetGetSize packet := by omega
    simp [refused, outside]
  have inside : offset.toNat < packetGetSize packet := by omega
  have scan := scan_inside_iff (byteAt packet beyond) (packetGetSize packet) offset.toNat
    maxlen.toNat offset.toNat (le_refl _)
  simp only [refused, if_false, inside, forall_const, true_and, scan]
  constructor
  · rintro (⟨nul, after, before, ends⟩ | short)
    · exact Or.inl ⟨nul, after, before, (byte_zero_iff packet beyond before).mp ends⟩
    · exact Or.inr short
  · rintro (⟨nul, after, before, ends⟩ | short)
    · exact Or.inl ⟨nul, after, before, (byte_zero_iff packet beyond before).mpr ends⟩
    · exact Or.inr short

section
variable (start : Nat)
  (found : (packetGetStrConst packet beyond offset maxlen).pointer = some start)
include start found

theorem str_pointer_scan :
    start = offset.toNat ∧ (scanString (byteAt packet beyond) (packetGetSize packet) offset.toNat
      maxlen.toNat offset.toNat).2 = true := by
  rw [packetGetStrConst] at found
  by_cases refused : packetGetSize packet ≤ offset.toNat
  · simp [refused] at found
  simp only [refused, if_false] at found
  cases scan : (scanString (byteAt packet beyond) (packetGetSize packet) offset.toNat
      maxlen.toNat offset.toNat).2 with
  | false => simp [scan] at found
  | true =>
    simp only [scan, if_true, Option.some.injEq] at found
    exact ⟨found.symm, rfl⟩

theorem str_pointer :
    start = offset.toNat ∧ StringInside (byteAt packet beyond) (packetGetSize packet) start := by
  obtain ⟨rfl, scan⟩ := str_pointer_scan packet beyond offset maxlen start found
  exact ⟨rfl, scan_string _ _ _ _ _ scan⟩

end

theorem data_iff :
    (∀ start, packetGetDataConst packet offset len = some start →
        start = offset.toNat ∧ start + len.toNat ≤ packetGetSize packet) ↔
      SumFits packet offset len := by
  have first := UInt32.toNat_lt offset
  have second := UInt32.toNat_lt len
  have sum : (offset + len).toNat = (offset.toNat + len.toNat) % 2 ^ 32 :=
    UInt32.toNat_add offset len
  have small : packetGetSize packet ≤ 3072 := (size_in_room packet).trans_eq packet.room
  have positive : len < 1 ↔ len.toNat = 0 := by
    exact Nat.lt_one_iff
  unfold packetGetDataConst SumFits
  by_cases empty : len < 1
  · have none : len.toNat = 0 := positive.mp empty
    simp only [empty, if_true]
    exact iff_of_true (by simp) (Or.inl (by omega))
  by_cases large : packetGetSize packet < (offset + len).toNat
  · simp only [empty, large, if_true, if_false]
    exact iff_of_true (by simp) (by omega)
  · simp only [empty, large, if_false, Option.some.injEq, forall_eq', true_and]
    omega

/-- The two calls stay inside the packet exactly if the scan for the NUL is stopped before the end
and the sum of offset and length does not wrap around into the packet. -/
theorem barrier_exact :
    Barrier packet beyond offset maxlen len ↔
      ScanStops packet offset maxlen ∧ SumFits packet offset len := by
  constructor
  · intro barrier
    exact ⟨(str_reads_iff packet beyond offset maxlen).mp barrier.reads,
      (data_iff packet offset len).mp barrier.data⟩
  rintro ⟨stops, fits⟩
  exact {
    reads := (str_reads_iff packet beyond offset maxlen).mpr stops
    string := str_pointer packet beyond offset maxlen
    data := (data_iff packet offset len).mpr fits }

end Calls

def sixBytes : Packet where
  pclass := .file
  len := 0
  data := [6, 0, 1, 1, 65, 66] ++ replicate 3066 67
  room := by decide +kernel

/-- No NUL behind the header: the byte behind the packet is read. And a length that wraps the sum
around gets a pointer. -/
theorem reads_behind_packet :
    ¬Barrier sixBytes (fun _ => 0) 4 100 1 ∧ ¬Barrier sixBytes (fun _ => 0) 5 0 4294967292 := by
  have cells : ∀ pos, 4 ≤ pos → pos < 6 → sixBytes.data[pos]? ≠ some 0 := by decide +kernel
  constructor
  · intro barrier
    have stops := (str_reads_iff sixBytes (fun _ => 0) 4 100).mp barrier.reads
    rcases stops (by decide) with ⟨pos, after, before, ends⟩ | short
    · exact cells pos after before ends
    · exact absurd short (by decide)
  · intro barrier
    have pointer : packetGetDataConst sixBytes 5 4294967292 = some 5 := by decide +kernel
    have inside := (barrier.data 5 pointer).2
    exact absurd inside (by decide)

end Pvpgn.PacketReads
