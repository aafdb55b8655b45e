import Pvpgn.CheckedArray
import Mathlib.Algebra.Order.Ring.Nat

/-!
Receiving packets from a stream socket: the header and size rules of every packet class and
`net_recv_packet`, called again with a fresh packet after each complete one. A write outside the
packet's data is `none`.
-/

namespace Pvpgn.PacketFraming
open List Option Nat

def maxPacketSize : Nat := 3072
def maxWolGameresPacketSize : Nat := 65535

inductive PacketClass where
  | init | bnet | file | udp | raw | d2game | d2gs | d2csBnetd | d2cs | w3route | wolgameres
  deriving DecidableEq

structure Packet where
  pclass : PacketClass
  /-- Only used by the classes without a length in the header. -/
  len : Nat
  data : List UInt8
  room : data.length = maxPacketSize

def bnShortGet (data : List UInt8) (offset : Nat) : Nat :=
  ((data.getD offset 0).toUInt16 ||| (data.getD (offset + 1) 0).toUInt16 <<< 8).toNat

/-- Most significant byte first. -/
def bnShortNget (data : List UInt8) (offset : Nat) : Nat :=
  ((data.getD (offset + 1) 0).toUInt16 ||| (data.getD offset 0).toUInt16 <<< 8).toNat

def checkedSize (size : Nat) : Nat := if maxPacketSize < size then 0 else size

def packetGetSize (packet : Packet) : Nat :=
  match packet.pclass with
  | .init => checkedSize 1
  | .bnet => checkedSize (bnShortGet packet.data 2)
  | .file => checkedSize (bnShortGet packet.data 0)
  | .udp => checkedSize packet.len
  | .raw => checkedSize packet.len
  | .d2game => checkedSize packet.len
  | .d2gs => checkedSize (bnShortGet packet.data 0)
  | .d2csBnetd => checkedSize (bnShortGet packet.data 0)
  | .d2cs => checkedSize (bnShortGet packet.data 0)
  | .w3route => checkedSize (bnShortGet packet.data 2)
  | .wolgameres =>
    let size := bnShortNget packet.data 0
    if size = 0 then checkedSize (bnShortNget packet.data 2) else checkedSize size

def packetGetHeaderSize : PacketClass → Nat
  | .init => 0
  | .bnet => 4
  | .file => 4
  | .udp => 4
  | .raw => 0
  | .d2game => 0
  | .d2cs => 3
  | .d2gs => 8
  | .d2csBnetd => 8
  | .w3route => 4
  | .wolgameres => 4

/-- `packet_get_raw_data_build` gives a pointer for this offset. -/
def packetGetRawDataBuild (packet : Packet) (offset : Nat) : Bool :=
  !((maxPacketSize ≤ offset && packet.pclass ≠ .wolgameres) || maxWolGameresPacketSize ≤ offset)

/-- What the socket does at one call of `psock_recv`: at least one more byte has arrived (`data`
says how many beyond the first), none has yet, or the connection is gone. -/
inductive Event where
  | data (extra : Nat)
  | later
  | closed

/-- The result, the bytes stored and the rest of the stream. -/
def netRecv (stream : List UInt8) (len : Nat) : Event → Int × List UInt8 × List UInt8
  | .closed => (-1, [], stream)
  | .later => (0, [], stream)
  | .data extra =>
    if stream = [] then (0, [], stream)
    else if min (extra + 1) len = 0 then (-1, [], stream)
    else ((stream.take (min (extra + 1) len)).length, stream.take (min (extra + 1) len),
      stream.drop (min (extra + 1) len))

def store (packet : Packet) (offset : Nat) (bytes : List UInt8) : Option Packet :=
  if inside : offset + bytes.length ≤ maxPacketSize then
    some { packet with
      data := packet.data.take offset ++ bytes ++ packet.data.drop (offset + bytes.length)
      room := by
        have room := packet.room
        simp only [length_append, length_take, length_drop]
        omega }
  else none

structure Received where
  result : Int
  packet : Packet
  currsize : Nat
  stream : List UInt8
  /-- The offset and length of the `recv` that was made, if any. -/
  request : Option (Nat × Nat)

/-- The common end of `net_recv_packet`, from the call of `net_recv` on. -/
def receiveInto (packet : Packet) (currsize : Nat) (stream : List UInt8) (len : Nat)
    (event : Event) : Option Received := do
  let (addlen, bytes, rest) := netRecv stream len event
  if addlen ≤ 0 then
    some { result := addlen, packet, currsize, stream := rest, request := some (currsize, len) }
  else
    let packet ← store packet currsize bytes
    let currsize' := currsize + bytes.length
    let complete := packetGetHeaderSize packet.pclass ≤ currsize' ∧ currsize' = packetGetSize packet
    some { result := if complete then 1 else 0, packet, currsize := currsize', stream := rest,
           request := some (currsize, len) }

def netRecvPacket (packet : Packet) (currsize : Nat) (stream : List UInt8) (event : Event) :
    Option Received :=
  let headerSize := packetGetHeaderSize packet.pclass
  let failed : Received := { result := -1, packet, currsize, stream, request := none }
  if maxPacketSize ≤ headerSize then some failed
  else if packetGetRawDataBuild packet currsize = false then some failed
  else if currsize < headerSize then
    receiveInto packet currsize stream (headerSize - currsize) event
  else
    let totalSize := packetGetSize packet
    if totalSize < headerSize then some failed
    else if totalSize ≤ currsize then some failed
    else receiveInto packet currsize stream (totalSize - currsize) event

/-- A connection whose reader takes a fresh packet after every complete one and stops at an
error. -/
structure Connection where
  packet : Packet
  currsize : Nat
  stream : List UInt8
  delivered : List (List UInt8)
  /-- For every `recv` the number of packets before it, its offset and its length. -/
  requests : List (Nat × Nat × Nat)
  closed : Bool

def step (fresh : Nat → Packet) (connection : Connection) (event : Event) : Option Connection :=
  if connection.closed then some connection
  else do
    let received ← netRecvPacket connection.packet connection.currsize connection.stream event
    let requests := connection.requests ++
      (received.request.map fun request => (connection.delivered.length, request)).toList
    if received.result = 1 then
      some { packet := fresh (connection.delivered.length + 1), currsize := 0,
             stream := received.stream, requests,
             delivered := connection.delivered ++ [received.packet.data.take received.currsize],
             closed := false }
    else
      some { packet := received.packet, currsize := received.currsize, stream := received.stream,
             requests, delivered := connection.delivered,
             closed := received.result < 0 }

def run (fresh : Nat → Packet) : List Event → Connection → Option Connection
  | [], connection => some connection
  | event :: rest, connection => do
    let next ← step fresh connection event
    run fresh rest next

def start (fresh : Nat → Packet) (stream : List UInt8) : Connection :=
  { packet := fresh 0, currsize := 0, stream, delivered := [], requests := [], closed := false }

/-- Where the classes with a length in the header keep it. -/
def sizeOffset : PacketClass → Option Nat
  | .bnet => some 2
  | .file => some 0
  | .d2gs => some 0
  | .d2csBnetd => some 0
  | .d2cs => some 0
  | .w3route => some 2
  | _ => none

def WellFormed (pclass : PacketClass) (offset : Nat) (frame : List UInt8) : Prop :=
  packetGetHeaderSize pclass ≤ frame.length ∧ frame.length ≤ maxPacketSize ∧
    bnShortGet frame offset = frame.length

/-- The stream goes on with a header whose size is too small or too large. -/
def Malformed (pclass : PacketClass) (offset : Nat) (stream : List UInt8) : Prop :=
  packetGetHeaderSize pclass ≤ stream.length ∧
    (bnShortGet stream offset < packetGetHeaderSize pclass ∨
      maxPacketSize < bnShortGet stream offset)

section Carrying
variable {pclass : PacketClass} {offset : Nat}

theorem size_inside_header (carries : sizeOffset pclass = some offset) :
    offset + 2 ≤ packetGetHeaderSize pclass ∧ packetGetHeaderSize pclass < maxPacketSize := by
  cases pclass <;> simp_all [sizeOffset, packetGetHeaderSize, maxPacketSize] <;> omega

theorem packet_get_size_carrying (packet : Packet)
    (carries : sizeOffset packet.pclass = some offset) :
    packetGetSize packet = checkedSize (bnShortGet packet.data offset) := by
  cases shape : packet.pclass <;> simp_all [sizeOffset, packetGetSize]

theorem bn_short_get_prefix (left right : List UInt8) (offset count : Nat)
    (inside : offset + 2 ≤ count)
    (same : left.take count = right.take count) : bnShortGet left offset = bnShortGet right offset := by
  have at_ (index : Nat) (small : index < count) : left.getD index 0 = right.getD index 0 := by
    have entries := congrArg (·[index]?) same
    simp only [getElem?_take_of_lt small] at entries
    rw [getD_eq_getElem?_getD, getD_eq_getElem?_getD, entries]
  rw [bnShortGet, bnShortGet, at_ offset (by omega), at_ (offset + 1) (by omega)]

end Carrying

theorem raw_data_build (packet : Packet) (offset : Nat) (inside : offset < maxPacketSize) :
    packetGetRawDataBuild packet offset = true := by
  have notMax : ¬maxPacketSize ≤ offset := by omega
  have notWol : ¬maxWolGameresPacketSize ≤ offset := by
    simp only [maxPacketSize, maxWolGameresPacketSize] at inside ⊢
    omega
  simp [packetGetRawDataBuild, notMax, notWol]

/-- What a `recv` that fits the packet does: some bytes move from the stream into the packet, at
least one when there is one. -/
theorem receive_into_spec (packet : Packet) (currsize len : Nat) (stream : List UInt8)
    (event : Event) (positive : 0 < len) (inside : currsize + len ≤ maxPacketSize)
    (alive : event ≠ .closed) :
    ∃ got rest packet', receiveInto packet currsize stream len event =
        some { result := if got ≠ [] ∧ packetGetHeaderSize packet.pclass ≤ currsize + got.length ∧
                  currsize + got.length = packetGetSize packet' then 1 else 0,
               packet := packet', currsize := currsize + got.length, stream := rest,
               request := some (currsize, len) } ∧
      stream = got ++ rest ∧ got.length ≤ len ∧ packet'.pclass = packet.pclass ∧
      packet'.data.take (currsize + got.length) = packet.data.take currsize ++ got ∧
      ((∃ extra, event = .data extra) → stream ≠ [] → got ≠ []) := by
  cases event with
  | closed => exact absurd rfl alive
  | later =>
    refine ⟨[], stream, packet, ?_, by simp, by simp, rfl, by simp, ?_⟩
    · simp [receiveInto, netRecv]
    · rintro ⟨extra, impossible⟩
      contradiction
  | data extra =>
    by_cases empty : stream = []
    · refine ⟨[], stream, packet, ?_, by simp, by simp, rfl, by simp, ?_⟩
      · simp [receiveInto, netRecv, empty]
      · intro _ nonempty
        exact absurd empty nonempty
    have some_ := length_pos_iff.mpr empty
    have count : ¬min (extra + 1) len = 0 := by omega
    have gotLength : (stream.take (min (extra + 1) len)).length =
        min (min (extra + 1) len) stream.length := length_take
    have nonempty : stream.take (min (extra + 1) len) ≠ [] := by
      apply ne_nil_of_length_pos
      omega
    have fits : currsize + (stream.take (min (extra + 1) len)).length ≤ maxPacketSize := by
      omega
    have notZero : ¬((stream.take (min (extra + 1) len)).length : Int) ≤ 0 := by omega
    have before : (packet.data.take currsize).length = currsize := by
      rw [length_take, packet.room]
      omega
    refine ⟨stream.take (min (extra + 1) len), stream.drop (min (extra + 1) len),
      { packet with
        data := packet.data.take currsize ++ stream.take (min (extra + 1) len) ++
          packet.data.drop (currsize + (stream.take (min (extra + 1) len)).length)
        room := by
          have room := packet.room
          simp only [length_append, length_drop, before]
          omega },
      ?_, (take_append_drop _ _).symm, by omega, rfl, ?_, fun _ _ => nonempty⟩
    · simp only [receiveInto, netRecv, if_neg empty, if_neg count, if_neg notZero, store,
        dif_pos fits, bind_eq_bind, bind_some, ne_eq, nonempty, not_false_eq_true, true_and]
    · rw [take_append_of_le_length (by rw [length_append, before])]
      exact take_of_length_le (by rw [length_append, before])

section Calls
variable {packet : Packet} {currsize offset : Nat}

theorem net_recv_packet_carried (currsize : Nat) (stream : List UInt8) (event : Event)
    (carries : sizeOffset packet.pclass = some offset) (within : currsize < maxPacketSize) :
    netRecvPacket packet currsize stream event =
      if currsize < packetGetHeaderSize packet.pclass then
        receiveInto packet currsize stream (packetGetHeaderSize packet.pclass - currsize) event
      else if packetGetSize packet < packetGetHeaderSize packet.pclass ∨
          packetGetSize packet ≤ currsize then
        some { result := -1, packet, currsize, stream, request := none }
      else receiveInto packet currsize stream (packetGetSize packet - currsize) event := by
  have small := (size_inside_header carries).2
  simp only [netRecvPacket, if_neg (not_le.mpr small), raw_data_build packet currsize within,
    Bool.true_eq_false, if_false]
  split_ifs <;> first | rfl | omega

section
variable (stream : List UInt8) (event : Event) (carries : sizeOffset packet.pclass = some offset)
include stream event carries

theorem net_recv_packet_header (early : currsize < packetGetHeaderSize packet.pclass) :
    netRecvPacket packet currsize stream event =
      receiveInto packet currsize stream (packetGetHeaderSize packet.pclass - currsize) event := by
  rw [net_recv_packet_carried _ _ _ carries (lt_trans early (size_inside_header carries).2),
    if_pos early]

theorem net_recv_packet_body (late : packetGetHeaderSize packet.pclass ≤ currsize)
    (sized : packetGetHeaderSize packet.pclass ≤ packetGetSize packet)
    (open_ : currsize < packetGetSize packet) (bounded : packetGetSize packet ≤ maxPacketSize) :
    netRecvPacket packet currsize stream event =
      receiveInto packet currsize stream (packetGetSize packet - currsize) event := by
  rw [net_recv_packet_carried _ _ _ carries (by omega), if_neg (not_lt.mpr late), if_neg (by omega)]

end

theorem net_recv_packet_corrupted (currsize : Nat) (stream : List UInt8) (event : Event)
    (carries : sizeOffset packet.pclass = some offset)
    (header : currsize = packetGetHeaderSize packet.pclass)
    (bad : packetGetSize packet < packetGetHeaderSize packet.pclass) :
    netRecvPacket packet currsize stream event =
      some { result := -1, packet, currsize, stream, request := none } := by
  rw [net_recv_packet_carried _ _ _ carries (header ▸ (size_inside_header carries).2),
    if_neg (not_lt.mpr (le_of_eq header.symm)), if_pos (Or.inl bad)]

end Calls

/-- A request stays inside the packet that is being received; behind the last one it asks for a
header. -/
def Bounded (pclass : PacketClass) (frames : List (List UInt8)) (request : Nat × Nat × Nat) : Prop :=
  request.2.1 + request.2.2 ≤
    ((frames[request.1]?).map List.length).getD (packetGetHeaderSize pclass)

/-- Between two calls: the packets before the current one are delivered, the buffer starts with the
received part of the current one, and the socket still has the rest. -/
structure Reading (pclass : PacketClass) (frames : List (List UInt8)) (after : List UInt8)
    (connection : Connection) : Prop where
  sameClass : connection.packet.pclass = pclass
  alive : connection.closed = false
  requests : ∀ request ∈ connection.requests, Bounded pclass frames request
  position : ∃ rest, frames = connection.delivered ++ rest ∧
    (connection.packet.data.take connection.currsize).length = connection.currsize ∧
    connection.packet.data.take connection.currsize ++ connection.stream = rest.flatten ++ after ∧
    (∀ frame ∈ rest.head?, connection.currsize < frame.length) ∧
    (rest = [] → connection.currsize ≤ packetGetHeaderSize pclass)

structure Rejected (pclass : PacketClass) (frames : List (List UInt8)) (connection : Connection) :
    Prop where
  closed : connection.closed = true
  delivered : connection.delivered = frames
  requests : ∀ request ∈ connection.requests, Bounded pclass frames request

theorem reading_start (fresh : Nat → Packet) (pclass : PacketClass) (frames : List (List UInt8))
    (after : List UInt8) (classes : ∀ index, (fresh index).pclass = pclass)
    (positive : ∀ frame ∈ frames, 0 < frame.length) :
    Reading pclass frames after (start fresh (frames.flatten ++ after)) where
  sameClass := classes 0
  alive := rfl
  requests := by simp [start]
  position := by
    refine ⟨frames, rfl, by simp [start], by simp [start], ?_, by simp [start]⟩
    intro frame first
    exact positive frame (mem_of_mem_head? first)

def Event.arrives : Event → Bool
  | .data _ => true
  | _ => false

theorem arrives_data {event : Event} (arrives : event.arrives = true) :
    ∃ extra, event = .data extra := by
  cases event <;> simp [Event.arrives] at arrives ⊢

variable {connection : Connection}

theorem step_received (fresh : Nat → Packet) {event : Event}
    {received : Received} (alive : connection.closed = false)
    (call : netRecvPacket connection.packet connection.currsize connection.stream event =
      some received) :
    step fresh connection event = some
      (if received.result = 1 then
        { packet := fresh (connection.delivered.length + 1), currsize := 0,
          stream := received.stream,
          requests := connection.requests ++
            (received.request.map fun request => (connection.delivered.length, request)).toList,
          delivered := connection.delivered ++ [received.packet.data.take received.currsize],
          closed := false }
      else
        { packet := received.packet, currsize := received.currsize, stream := received.stream,
          requests := connection.requests ++
            (received.request.map fun request => (connection.delivered.length, request)).toList,
          delivered := connection.delivered, closed := received.result < 0 }) := by
  simp only [step, alive, Bool.false_eq_true, if_false, call, bind_eq_bind, bind_some]
  split <;> rfl

section Step
variable {fresh : Nat → Packet} {pclass : PacketClass} {offset : Nat}
  {frames : List (List UInt8)} {after : List UInt8} {connection : Connection} {event : Event}

section
variable (carries : sizeOffset pclass = some offset)
include carries

theorem step_frame (classes : ∀ index, (fresh index).pclass = pclass)
    (formed : ∀ frame ∈ frames, WellFormed pclass offset frame) (alive : event ≠ .closed)
    (reading : Reading pclass frames after connection) (frame : List UInt8)
    (rest : List (List UInt8)) (split : frames = connection.delivered ++ frame :: rest)
    (position : connection.packet.data.take connection.currsize ++ connection.stream =
      (frame :: rest).flatten ++ after)
    (length : (connection.packet.data.take connection.currsize).length = connection.currsize)
    (partial_ : connection.currsize < frame.length) :
    ∃ next, step fresh connection event = some next ∧ Reading pclass frames after next ∧
      next.stream.length ≤ connection.stream.length ∧
      (event.arrives = true → next.stream.length < connection.stream.length) := by
  obtain ⟨headed, bounded, sized⟩ := formed frame (by simp [split])
  obtain ⟨inHeader, headerSmall⟩ := size_inside_header carries
  have sameClass := reading.sameClass
  have carries' : sizeOffset connection.packet.pclass = some offset := by rw [sameClass, carries]
  have prefix_ : connection.packet.data.take connection.currsize =
      frame.take connection.currsize := by
    rw [← take_left' length, position, flatten_cons, append_assoc,
      take_append_of_le_length (by omega)]
  -- The request: up to the header first, then up to the size it holds.
  obtain ⟨len, call, positive, inside⟩ : ∃ len, netRecvPacket connection.packet connection.currsize
      connection.stream event = receiveInto connection.packet connection.currsize connection.stream
        len event ∧ 0 < len ∧ connection.currsize + len ≤ frame.length := by
    by_cases early : connection.currsize < packetGetHeaderSize pclass
    · refine ⟨packetGetHeaderSize pclass - connection.currsize, ?_, by omega, by omega⟩
      rw [net_recv_packet_header _ _ carries' (by rw [sameClass]; exact early), sameClass]
    have field := bn_short_get_prefix connection.packet.data frame offset
      connection.currsize (by omega) prefix_
    have size : packetGetSize connection.packet = frame.length := by
      rw [packet_get_size_carrying _ carries', field, sized, checkedSize, if_neg (by omega)]
    refine ⟨frame.length - connection.currsize, ?_, by omega, by omega⟩
    rw [net_recv_packet_body _ _ carries' (by rw [sameClass]; omega) (by rw [sameClass, size]; omega)
      (by omega) (by omega), size]
  obtain ⟨got, left, packet', received, streams, short, class', data, progress⟩ :=
    receive_into_spec connection.packet connection.currsize len connection.stream event positive
      (by omega) alive
  rw [received] at call
  rw [streams, ← append_assoc, ← data, flatten_cons, append_assoc] at position
  have total : (packet'.data.take (connection.currsize + got.length)).length =
      connection.currsize + got.length := by
    rw [data, length_append, length]
  have start_ : packet'.data.take (connection.currsize + got.length) =
      frame.take (connection.currsize + got.length) := by
    rw [← take_left' total, position, take_append_of_le_length (by omega)]
  have size (late : packetGetHeaderSize pclass ≤ connection.currsize + got.length) :
      packetGetSize packet' = frame.length := by
    have field := bn_short_get_prefix packet'.data frame offset
      (connection.currsize + got.length) (by omega) start_
    rw [packet_get_size_carrying _ (by rw [class', carries']), field, sized, checkedSize,
      if_neg (by omega)]
  have lengths := congrArg List.length position
  simp only [length_append, total] at lengths
  have streamLength := congrArg List.length streams
  rw [length_append] at streamLength
  have requests : ∀ request ∈ connection.requests ++
      [(connection.delivered.length, connection.currsize, len)],
      Bounded pclass frames request := by
    intro request member
    rcases mem_append.mp member with old | new
    · exact reading.requests request old
    · rw [mem_singleton.mp new]
      simpa [Bounded, split] using inside
  have shorter : left.length ≤ connection.stream.length := by omega
  have moves : event.arrives = true → left.length < connection.stream.length := by
    intro arrives
    have some_ : connection.stream ≠ [] := by
      apply ne_nil_of_length_pos
      omega
    have gotLength := length_pos_iff.mpr (progress (arrives_data arrives) some_)
    omega
  have stepped := step_received fresh reading.alive call
  by_cases whole : connection.currsize + got.length = frame.length
  · have nonempty : got ≠ [] := by
      apply ne_nil_of_length_pos
      omega
    have complete : got ≠ [] ∧ packetGetHeaderSize connection.packet.pclass ≤
        connection.currsize + got.length ∧
        connection.currsize + got.length = packetGetSize packet' := by
      rw [sameClass]
      exact ⟨nonempty, by omega, by rw [size (by omega)]; exact whole⟩
    have frameRead : packet'.data.take (connection.currsize + got.length) = frame := by
      rw [start_, whole, take_length]
    simp only [if_pos complete, frameRead, if_true] at stepped
    rw [frameRead] at position
    refine ⟨_, stepped, ⟨classes _, rfl, by simpa using requests, rest, ?_, ?_, ?_, ?_, ?_⟩,
      shorter, moves⟩
    · simp [split]
    · simp
    · simpa using append_cancel_left position
    · intro other first
      have member := mem_of_mem_head? first
      have headed' := (formed other (by simp [split, member])).1
      have positive' : 0 < other.length := by omega
      exact positive'
    · intro _
      simp
  · have incomplete : ¬(got ≠ [] ∧ packetGetHeaderSize connection.packet.pclass ≤
        connection.currsize + got.length ∧
        connection.currsize + got.length = packetGetSize packet') := by
      rintro ⟨_, late, same⟩
      rw [sameClass] at late
      rw [size late] at same
      exact whole same
    simp only [if_neg incomplete, Int.zero_ne_one, if_false] at stepped
    refine ⟨_, stepped, ⟨?_, by simp, by simpa using requests, frame :: rest, split, total, ?_,
      ?_, ?_⟩, shorter, moves⟩
    · simpa using class'.trans sameClass
    · simpa using position
    · intro other first
      have same : frame = other := by simpa using first
      have below : connection.currsize + got.length < frame.length := by omega
      rw [← same]
      exact below
    · intro impossible
      simp at impossible

/-- Behind the last packet a call reads a header at most; a bad one is rejected by the call after
it. -/
theorem step_after (tail : after = [] ∨ Malformed pclass offset after) (alive : event ≠ .closed)
    (reading : Reading pclass frames after connection) (split : frames = connection.delivered)
    (position : connection.packet.data.take connection.currsize ++ connection.stream = after)
    (length : (connection.packet.data.take connection.currsize).length = connection.currsize)
    (partial_ : connection.currsize ≤ packetGetHeaderSize pclass) :
    ∃ next, step fresh connection event = some next ∧
      ((Reading pclass frames after next ∧ next.stream.length ≤ connection.stream.length ∧
          (after ≠ [] → event.arrives = true → next.stream.length < connection.stream.length)) ∨
        (after ≠ [] ∧ Rejected pclass frames next)) := by
  obtain ⟨inHeader, headerSmall⟩ := size_inside_header carries
  have sameClass := reading.sameClass
  have carries' : sizeOffset connection.packet.pclass = some offset := by rw [sameClass, carries]
  have lengths := congrArg List.length position
  rw [length_append, length] at lengths
  by_cases early : connection.currsize < packetGetHeaderSize pclass
  · have call := net_recv_packet_header connection.stream event carries'
      (by rw [sameClass]; exact early)
    rw [sameClass] at call
    obtain ⟨got, left, packet', received, streams, short, class', data, progress⟩ :=
      receive_into_spec connection.packet connection.currsize
        (packetGetHeaderSize pclass - connection.currsize) connection.stream event (by omega)
        (by omega) alive
    rw [received] at call
    have total : (packet'.data.take (connection.currsize + got.length)).length =
        connection.currsize + got.length := by
      rw [data, length_append, length]
    rw [streams, ← append_assoc, ← data] at position
    have streamLength := congrArg List.length streams
    rw [length_append] at streamLength
    have incomplete : ¬(got ≠ [] ∧ packetGetHeaderSize connection.packet.pclass ≤
        connection.currsize + got.length ∧
        connection.currsize + got.length = packetGetSize packet') := by
      rintro ⟨nonempty, late, same⟩
      rw [sameClass] at late
      rcases tail with none | ⟨_, bad⟩
      · rw [none, length_nil] at lengths
        omega
      have start_ : packet'.data.take (connection.currsize + got.length) =
          after.take (connection.currsize + got.length) := by
        rw [← position, take_left' total]
      have field := bn_short_get_prefix packet'.data after offset
        (connection.currsize + got.length) (by omega) start_
      rw [packet_get_size_carrying _ (by rw [class', carries']), field, checkedSize] at same
      split at same <;> omega
    have stepped := step_received fresh reading.alive call
    simp only [if_neg incomplete, Int.zero_ne_one, if_false] at stepped
    have shorter : left.length ≤ connection.stream.length := by omega
    have inside : connection.currsize + got.length ≤ packetGetHeaderSize pclass := by omega
    refine ⟨_, stepped,
      Or.inl ⟨⟨?_, by simp, ?_, [], ?_, total, ?_, by simp, fun _ => inside⟩, shorter, ?_⟩⟩
    · simpa using class'.trans sameClass
    · intro request member
      simp only [map_some, toList_some, mem_append, mem_singleton] at member
      rcases member with old | new
      · exact reading.requests request old
      · rw [new]
        simp only [Bounded, ← split, getElem?_length, map_none, getD_none]
        omega
    · simpa using split
    · simpa using position
    · intro more arrives
      have some_ : connection.stream ≠ [] := by
        rcases tail with none | ⟨long, _⟩
        · exact absurd none more
        · apply ne_nil_of_length_pos
          omega
      have gotLength := length_pos_iff.mpr (progress (arrives_data arrives) some_)
      have moves : left.length < connection.stream.length := by omega
      exact moves
  · rcases tail with none | ⟨long, bad⟩
    · rw [none, length_nil] at lengths
      omega
    have start_ : connection.packet.data.take connection.currsize =
        after.take connection.currsize := by
      rw [← position, take_left' length]
    have field := bn_short_get_prefix connection.packet.data after offset
      connection.currsize (by omega) start_
    have small : packetGetSize connection.packet < packetGetHeaderSize pclass := by
      rw [packet_get_size_carrying _ carries', field, checkedSize]
      split <;> omega
    have call := net_recv_packet_corrupted connection.currsize
      connection.stream event carries'
      (by rw [sameClass]; omega) (by rw [sameClass]; exact small)
    have stepped := step_received fresh reading.alive call
    refine ⟨_, stepped, Or.inr ⟨?_, rfl, split.symm, by simpa using reading.requests⟩⟩
    intro none
    rw [none, length_nil] at lengths
    omega

theorem step_reading (classes : ∀ index, (fresh index).pclass = pclass)
    (formed : ∀ frame ∈ frames, WellFormed pclass offset frame)
    (tail : after = [] ∨ Malformed pclass offset after) (alive : event ≠ .closed)
    (reading : Reading pclass frames after connection) :
    ∃ next, step fresh connection event = some next ∧
      ((Reading pclass frames after next ∧ next.stream.length ≤ connection.stream.length ∧
          (connection.stream ≠ [] ∨ after ≠ [] → event.arrives = true →
            next.stream.length < connection.stream.length)) ∨
        (after ≠ [] ∧ Rejected pclass frames next)) := by
  obtain ⟨rest, split, length, position, current, last⟩ := reading.position
  cases rest with
  | nil =>
    rw [append_nil] at split
    obtain ⟨next, stepped, outcome⟩ := step_after carries tail alive reading split
      (by simpa using position) length (last rfl)
    refine ⟨next, stepped, outcome.imp_left ?_⟩
    rintro ⟨kept, shorter, moves⟩
    refine ⟨kept, shorter, ?_⟩
    rintro (some_ | more) arrives
    · refine moves ?_ arrives
      rintro rfl
      simp at position
      exact some_ position.2
    · exact moves more arrives
  | cons frame others =>
    obtain ⟨next, stepped, kept, shorter, moves⟩ := step_frame carries classes formed alive reading
      frame others split position length (current frame rfl)
    exact ⟨next, stepped, Or.inl ⟨kept, shorter, fun _ => moves⟩⟩

end

end Step

section Run
variable {fresh : Nat → Packet} {pclass : PacketClass} {offset : Nat}
  {frames : List (List UInt8)} {after : List UInt8}

theorem run_rejected (events : List Event) (connection : Connection)
    (rejected : Rejected pclass frames connection) : run fresh events connection = some connection := by
  induction events with
  | nil => rfl
  | cons event rest ih => simp [run, step, rejected.closed, ih]

/-- Any cut of the stream: the connection goes on reading, and has then taken a byte for every call
that found one, or it is rejected at the bad header. -/
theorem run_reading (carries : sizeOffset pclass = some offset)
    (classes : ∀ index, (fresh index).pclass = pclass)
    (formed : ∀ frame ∈ frames, WellFormed pclass offset frame)
    (tail : after = [] ∨ Malformed pclass offset after) (events : List Event)
    (alive : ∀ event ∈ events, event ≠ .closed) (connection : Connection)
    (reading : Reading pclass frames after connection) :
    ∃ final, run fresh events connection = some final ∧
      ((Reading pclass frames after final ∧
          (final.stream.length + events.countP Event.arrives ≤ connection.stream.length ∨
            (after = [] ∧ final.stream = []))) ∨
        (after ≠ [] ∧ Rejected pclass frames final)) := by
  induction events generalizing connection with
  | nil => exact ⟨connection, rfl, Or.inl ⟨reading, Or.inl (by simp)⟩⟩
  | cons event rest ih =>
    obtain ⟨next, stepped, outcome⟩ := step_reading carries classes formed tail
      (alive event (by simp)) reading
    rcases outcome with ⟨kept, shorter, moves⟩ | ⟨more, rejected⟩
    · obtain ⟨final, ran, outcome⟩ := ih (fun other member => alive other (by simp [member])) next
        kept
      refine ⟨final, by simp [run, stepped, ran], outcome.imp_left ?_⟩
      rintro ⟨reads, count⟩
      refine ⟨reads, ?_⟩
      rcases count with count | drained
      · by_cases stuck : connection.stream = [] ∧ after = []
        · rw [stuck.1, length_nil] at shorter
          have empty : final.stream = [] := eq_nil_of_length_eq_zero (by omega)
          exact Or.inr ⟨stuck.2, empty⟩
        left
        rw [not_and_or] at stuck
        rw [countP_cons]
        by_cases arrives : event.arrives = true
        · have decreased := moves stuck arrives
          rw [if_pos arrives]
          omega
        · rw [if_neg arrives]
          omega
      · exact Or.inr drained
    · exact ⟨next, by simp [run, stepped, run_rejected rest next rejected], Or.inr ⟨more, rejected⟩⟩

theorem reading_delivered (reading : Reading pclass frames [] connection)
    (drained : connection.stream = []) : connection.delivered = frames := by
  obtain ⟨rest, split, length, position, current, _⟩ := reading.position
  cases rest with
  | nil => simpa using split.symm
  | cons frame others =>
    have lengths := congrArg List.length position
    have partial_ := current frame rfl
    simp only [drained, append_nil, length, flatten_cons, length_append] at lengths
    omega

theorem reading_prefix (reading : Reading pclass frames after connection) :
    connection.delivered <+: frames := by
  obtain ⟨rest, split, _⟩ := reading.position
  exact ⟨rest, split.symm⟩

theorem reading_before_bad (reading : Reading pclass frames after connection) :
    after.length ≤ connection.stream.length + packetGetHeaderSize pclass := by
  obtain ⟨rest, _, length, position, current, last⟩ := reading.position
  have lengths := congrArg List.length position
  rw [length_append, length, length_append] at lengths
  cases rest with
  | nil =>
    have partial_ := last rfl
    omega
  | cons frame others =>
    have partial_ := current frame rfl
    rw [flatten_cons, length_append] at lengths
    omega

theorem bounded_inside (carries : sizeOffset pclass = some offset)
    (formed : ∀ frame ∈ frames, WellFormed pclass offset frame) (request : Nat × Nat × Nat)
    (bounded : Bounded pclass frames request) : request.2.1 + request.2.2 ≤ maxPacketSize := by
  have small := (size_inside_header carries).2
  rw [Bounded] at bounded
  cases found : frames[request.1]? with
  | none =>
    rw [found, map_none, getD_none] at bounded
    omega
  | some frame =>
    have fits := (formed frame (mem_of_getElem? found)).2.1
    rw [found, map_some, getD_some] at bounded
    omega

/-- However the stream is cut, `net_recv_packet` delivers exactly its packets: a prefix of them at
any time, all of them when the stream is read, and no `recv` reaches beyond the current packet or
the packet's data. A header with a bad size closes the connection once it has been read. -/
theorem receive_frames (pclass : PacketClass) (offset : Nat)
    (carries : sizeOffset pclass = some offset) (fresh : Nat → Packet)
    (classes : ∀ index, (fresh index).pclass = pclass) (frames : List (List UInt8))
    (formed : ∀ frame ∈ frames, WellFormed pclass offset frame) (events : List Event)
    (alive : ∀ event ∈ events, event ≠ .closed) :
    (∃ final, run fresh events (start fresh frames.flatten) = some final ∧
      final.closed = false ∧ final.delivered <+: frames ∧
      (∀ request ∈ final.requests, Bounded pclass frames request ∧
        request.2.1 + request.2.2 ≤ maxPacketSize) ∧
      (final.stream = [] ∨ frames.flatten.length ≤ events.countP Event.arrives →
        final.delivered = frames)) ∧
      ∀ after, Malformed pclass offset after →
        ∃ final, run fresh events (start fresh (frames.flatten ++ after)) = some final ∧
          final.delivered <+: frames ∧ (final.closed = true → final.delivered = frames) ∧
          (∀ request ∈ final.requests, Bounded pclass frames request ∧
            request.2.1 + request.2.2 ≤ maxPacketSize) ∧
          (frames.flatten.length + packetGetHeaderSize pclass < events.countP Event.arrives →
            final.closed = true ∧ final.delivered = frames) := by
  have inHeader := (size_inside_header carries).1
  have positive : ∀ frame ∈ frames, 0 < frame.length := by
    intro frame member
    have headed := (formed frame member).1
    omega
  have bounds {final : Connection} (requests : ∀ request ∈ final.requests,
      Bounded pclass frames request) : ∀ request ∈ final.requests,
      Bounded pclass frames request ∧ request.2.1 + request.2.2 ≤ maxPacketSize :=
    fun request member => ⟨requests request member,
      bounded_inside carries formed request (requests request member)⟩
  constructor
  · have reading := reading_start fresh pclass frames [] classes positive
    rw [append_nil] at reading
    obtain ⟨final, ran, outcome⟩ := run_reading carries classes formed (Or.inl rfl) events alive _
      reading
    rcases outcome with ⟨reads, count⟩ | ⟨more, _⟩
    · refine ⟨final, ran, reads.alive, reading_prefix reads, bounds reads.requests, ?_⟩
      rintro (drained | enough)
      · exact reading_delivered reads drained
      rcases count with count | ⟨_, drained⟩
      · have length : (start fresh frames.flatten).stream.length = frames.flatten.length := rfl
        exact reading_delivered reads (eq_nil_of_length_eq_zero (by omega))
      · exact reading_delivered reads drained
    · exact absurd rfl more
  intro after bad
  have reading := reading_start fresh pclass frames after classes positive
  obtain ⟨final, ran, outcome⟩ := run_reading carries classes formed (Or.inr bad) events alive _
    reading
  rcases outcome with ⟨reads, count⟩ | ⟨_, rejected⟩
  · refine ⟨final, ran, reading_prefix reads, ?_, bounds reads.requests, ?_⟩
    · intro closed
      simp [reads.alive] at closed
    intro enough
    have before := reading_before_bad reads
    have long := bad.1
    have length : (start fresh (frames.flatten ++ after)).stream.length =
        frames.flatten.length + after.length := length_append
    rcases count with count | ⟨none, _⟩
    · omega
    · rw [none, length_nil] at long
      omega
  · refine ⟨final, ran, ?_, fun _ => rejected.delivered, bounds rejected.requests,
      fun _ => ⟨rejected.closed, rejected.delivered⟩⟩
    exact ⟨[], by rw [rejected.delivered, append_nil]⟩

def exampleFresh (_ : Nat) : Packet :=
  { pclass := .d2cs, len := 0, data := replicate maxPacketSize 0, room := length_replicate }

/-- Two packets, the first one a header only, in pieces of two bytes. -/
theorem receive_frames_d2cs :
    ∃ final, run exampleFresh
        [.data 1, .later, .data 1, .data 1, .data 1, .data 0, .data 1, .data 0, .data 1]
        (start exampleFresh [[3, 0, 7], [5, 0, 9, 1, 2]].flatten) = some final ∧
      final.delivered = [[3, 0, 7], [5, 0, 9, 1, 2]] := by
  obtain ⟨⟨final, ran, _, _, _, all⟩, _⟩ := receive_frames .d2cs 0 rfl exampleFresh (fun _ => rfl)
    [[3, 0, 7], [5, 0, 9, 1, 2]] (by
      intro frame member
      simp only [mem_cons, not_mem_nil, or_false] at member
      rcases member with rfl | rfl <;> exact ⟨by decide, by decide, by decide⟩)
    [.data 1, .later, .data 1, .data 1, .data 1, .data 0, .data 1, .data 0, .data 1] (by
      intro event member
      simp only [mem_cons, not_mem_nil, or_false] at member
      rcases member with rfl | rfl | rfl | rfl | rfl | rfl | rfl | rfl | rfl <;> simp)
  refine ⟨final, ran, all (Or.inr ?_)⟩
  decide

end Run

end Pvpgn.PacketFraming
