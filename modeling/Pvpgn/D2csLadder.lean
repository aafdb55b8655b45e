import Pvpgn.D2LadderFile
import Pvpgn.PacketReads

/-!
The ladders as d2cs serves them (`d2cs/d2ladder.cpp` and the ladder requests of `handle_d2cs.cpp`).
The table has one ladder for each type below `max_ladder_type`. An access outside the table, or to
an entry that a ladder does not hold, is `none`.
-/

namespace Pvpgn.D2csLadder
open Stdio Bytes CheckedArray PacketFraming PacketReads List Option UInt32
open D2Ladder (D2LadderInfo maxCharnameLen)
open D2LadderFile (field readInfo strncpy sizeofHeader sizeofIndex sizeofInfo)

/-- A `t_d2cs_client_ladderinfo`; its other fields are always zero. -/
structure ClientLadderInfo where
  explow : UInt32
  status : UInt16
  level : UInt8
  charname : List UInt8
  sized : charname.length = maxCharnameLen
  deriving DecidableEq

/-- A `t_d2ladder`: room for `len` entries of which `info` has been written, NULL is `none`. -/
structure Ladder where
  type : UInt32
  len : UInt32
  info : Option (List ClientLadderInfo)
  fits : ∀ entries, info = some entries → entries.length ≤ len.toNat
  deriving DecidableEq

def Ladder.currLen (ladder : Ladder) : Nat := (ladder.info.getD []).length

def Ladder.entryAt (ladder : Ladder) (index : Nat) : Option ClientLadderInfo := do
  let entries ← ladder.info
  readAt entries index

structure Table where
  ladderData : Option (List Ladder)
  maxLadderType : UInt32
  deriving DecidableEq

def noTable : Table := ⟨none, 0⟩

section Reading

/-- The bytes of a block that was read, `behind` is the memory after it. -/
def bytesAt (block : List UInt8) (behind : Nat → UInt8) (offset count : Nat) : List UInt8 :=
  (List.range count).map fun k => block[offset + k]?.getD (behind (offset + k))

structure LadderIndex where
  type : UInt32
  offset : UInt32
  number : UInt32

def ladderIndex (block : List UInt8) (behind : Nat → UInt8) (i : Nat) : LadderIndex :=
  let bytes := bytesAt block behind (i * sizeofIndex) sizeofIndex
  ⟨ofNat (field bytes 0 4), ofNat (field bytes 4 4), ofNat (field bytes 8 4)⟩

def statusBit (status flag mask : UInt16) : UInt16 := if status &&& flag ≠ 0 then mask else 0

def ladderstatus (status : UInt16) (chclass : UInt8) : UInt16 :=
  (status &&& 0x0f00) |||
    (if status &&& 0x04 ≠ 0 then 0x20 ||| statusBit status 0x08 0x10 else 0) |||
    (if status &&& 0x20 ≠ 0 then 0x40 ||| (min chclass 6).toUInt16 else (min chclass 4).toUInt16)

theorem strncpy_length (size : Nat) (name : Text) : (strncpy size name).length = size := by
  simp only [strncpy, length_append, length_take, length_replicate]
  omega

def clientInfo (info : D2LadderInfo) : ClientLadderInfo where
  explow := info.experience
  status := ladderstatus info.status info.chclass
  level := info.level
  charname := strncpy maxCharnameLen info.charname
  sized := strncpy_length _ _

/-- What `memset` leaves of a ladder. -/
def zeroLadder : Ladder := ⟨0, 0, none, fun _ absent => by cases absent⟩

def d2ladderlistCreate (maxtype : UInt32) : List Ladder := replicate maxtype.toNat zeroLadder

def createdLadder (type len : UInt32) : Ladder where
  type := type
  len := len
  info := some []
  fits := by
    rintro entries ⟨⟩
    exact Nat.zero_le _

/-- The largest type that passes the check is not in the table. -/
def d2ladderCreate (table : Table) (type len : UInt32) : Option (Int × Table) :=
  if table.maxLadderType < type then some (-1, table)
  else do
    let ladders ← table.ladderData
    let ladders ← writeAt ladders type.toNat (createdLadder type len)
    some (0, { table with ladderData := some ladders })

def Ladder.push (ladder : Ladder) (entry : ClientLadderInfo) : Option Ladder :=
  match ladder.info with
  | none => none
  | some entries =>
    if room : entries.length < ladder.len.toNat then
      some {
        type := ladder.type
        len := ladder.len
        info := some (entries ++ [entry])
        fits := by
          rintro _ ⟨⟩
          rw [length_append, length_singleton]
          exact room }
    else none

def d2ladderAppendLadder (table : Table) (type : UInt32) (info : D2LadderInfo) :
    Option (Int × Table) :=
  if table.maxLadderType < type then some (-1, table)
  else do
    let ladders ← table.ladderData
    let ladder ← readAt ladders type.toNat
    match ladder.push (clientInfo info) with
    | none => some (-1, table)
    | some filled => do
      let ladders ← writeAt ladders type.toNat filled
      some (0, { table with ladderData := some ladders })

def appendLoop (type : UInt32) (block : List UInt8) (behind : Nat → UInt8) :
    Nat → Nat → Table → Option Table
  | 0, _, table => some table
  | left + 1, n, table => do
    let appended ← d2ladderAppendLadder table type
      (readInfo (bytesAt block behind (n * sizeofInfo) sizeofInfo))
    appendLoop type block behind left (n + 1) appended.2

/-- The entries of a ladder that was created. The size of their block is an `unsigned int`. -/
def readInfos (file : List UInt8) (behind : Nat → UInt8) (index : LadderIndex) (table : Table) :
    Option Table :=
  let temp := (index.number * 24).toNat
  let block := (file.drop index.offset.toNat).take temp
  if block.length ≠ temp then some table
  else appendLoop index.type block behind index.number.toNat 0 table

def readEntry (file : List UInt8) (behind : Nat → UInt8) (index : LadderIndex) (table : Table) :
    Option Table := do
  let created ← d2ladderCreate table index.type index.number
  if created.1 < 0 then some created.2 else readInfos file behind index created.2

/-- The memory behind the index, and behind the block of each ladder. -/
structure Memory where
  index : Nat → UInt8
  info : Nat → Nat → UInt8

def readLoop (file header : List UInt8) (memory : Memory) : Nat → Nat → Table → Option Table
  | 0, _, table => some table
  | left + 1, i, table => do
    let table ← readEntry file (memory.info i) (ladderIndex header memory.index i) table
    readLoop file header memory left (i + 1) table

def fileMaxtype (file : List UInt8) : UInt32 := ofNat (field file 0 4)

/-- The size of the index, an `unsigned int`. -/
def indexSize (file : List UInt8) : Nat := (fileMaxtype file * 12).toNat

def indexBlock (file : List UInt8) : List UInt8 := (file.drop sizeofHeader).take (indexSize file)

/-- The table as it is before the loop. -/
def listTable (maxtype : UInt32) : Table := ⟨some (d2ladderlistCreate maxtype), maxtype⟩

/-- No file is one that does not open. -/
def d2ladderReadladder (file : Option (List UInt8)) (memory : Memory) (table : Table) :
    Option (Int × Table) :=
  match file with
  | none => some (-1, table)
  | some file =>
    if file.length < sizeofHeader then some (-1, table)
    else if (indexBlock file).length ≠ indexSize file then
      some (-1, listTable (fileMaxtype file))
    else
      (readLoop file (indexBlock file) memory (fileMaxtype file).toNat 0
        (listTable (fileMaxtype file))).map fun table => (0, table)

def destroyLoop (ladders : List Ladder) : Nat → Nat → Option Unit
  | 0, _ => some ()
  | left + 1, i => do
    let _ ← readAt ladders i
    destroyLoop ladders left (i + 1)

def d2ladderDestroy (table : Table) : Option Table :=
  match table.ladderData with
  | none => some noTable
  | some ladders => (destroyLoop ladders table.maxLadderType.toNat 0).map fun _ => noTable

def d2ladderRefresh (file : Option (List UInt8)) (memory : Memory) (table : Table) :
    Option (Int × Table) := do
  let empty ← d2ladderDestroy table
  d2ladderReadladder file memory empty

end Reading

section Requests

/-- The range that `d2ladder_get_ladder` returns, in its ladder. -/
structure Range where
  start : UInt32
  count : UInt32
  ladder : Ladder

def clampRange (ladder : Ladder) (start count : UInt32) : Range :=
  if ladder.currLen < count.toNat then ⟨0, ofNat ladder.currLen, ladder⟩
  else if ladder.currLen < (start + count).toNat then
    ⟨ofNat ladder.currLen - count, count, ladder⟩
  else ⟨start, count, ladder⟩

/-- The ladder of a type; it is refused where it is empty or not of that type. -/
def ladderOf (table : Table) (type : UInt32) : Option (Option Ladder) :=
  match table.ladderData with
  | none => some none
  | some ladders => do
    let ladder ← readAt ladders type.toNat
    if ladder.currLen = 0 then some none
    else if ladder.type ≠ type then some none
    else some (some ladder)

def d2ladderGetLadder (table : Table) (start count type : UInt32) : Option (Option Range) := do
  let ladder ← ladderOf table type
  some (ladder.map fun ladder => clampRange ladder start count)

/-- `!strcasecmp` of an entry's characters and a name; `none` reads behind the characters. -/
def sameName : List UInt8 → Text → Option Bool
  | [], _ => none
  | byte :: rest, name =>
    if tolower byte ≠ tolower (name.headD 0) then some false
    else if byte = 0 then some true
    else sameName rest name.tail

/-- The position is returned as an `int`. -/
def findLoop (ladder : Ladder) (charname : Text) : Nat → Nat → Option Int
  | 0, _ => some (-1)
  | left + 1, i => do
    let entry ← ladder.entryAt i
    let same ← sameName entry.charname charname
    if same then some ((i : Int).bmod (2 ^ 32)) else findLoop ladder charname left (i + 1)

def d2ladderFindCharacterPos (table : Table) (type : UInt32) (charname : Text) : Option Int := do
  let ladder ← ladderOf table type
  match ladder with
  | none => some (-1)
  | some ladder => findLoop ladder charname ladder.currLen 0

/-- `prefs_get_ladderlist_count` -/
def ladderlistCount : UInt32 := 0x10

def countPerPacket : Nat := 14

/-- A `t_d2cs_client_ladderreply` and what is appended to it. -/
structure LadderReply where
  type : UInt8
  totalLen : UInt16
  currLen : UInt16
  contLen : UInt16
  data : List UInt8
  deriving DecidableEq

def infoBytes (info : ClientLadderInfo) : List UInt8 :=
  littleEndian 4 info.explow.toNat ++ (littleEndian 4 0 ++ (littleEndian 2 info.status.toNat ++
    (info.level :: 0 :: info.charname)))

/-- The entries of packet `i`, from its entry `n` on. -/
def infoLoop (range : Range) (i : Nat) : Nat → Nat → Option (List ClientLadderInfo)
  | 0, _ => some []
  | left + 1, n =>
    if range.count.toNat ≤ n + i * countPerPacket then some []
    else do
      let entry ← range.ladder.entryAt (range.start.toNat + (n + i * countPerPacket))
      let rest ← infoLoop range i left (n + 1)
      some (entry :: rest)

/-- The first packet has the header of the ladder, and loses its last four bytes. -/
def packetData (range : Range) (i : Nat) (entries : List ClientLadderInfo) : List UInt8 :=
  if i = 0 then
    let data := littleEndian 2 range.start.toNat ++ (littleEndian 2 0 ++
      (littleEndian 4 range.count.toNat ++ (littleEndian 4 range.count.toNat ++
        entries.flatMap infoBytes)))
    data.take (data.length - 4)
  else littleEndian 4 0 ++ entries.flatMap infoBytes

def npacket (count : UInt32) : Nat :=
  count.toNat / countPerPacket + if count.toNat % countPerPacket ≠ 0 then 1 else 0

def sendLoop (range : Range) (type : UInt8) (totalLen : Nat) :
    Nat → Nat → Nat → Option (List LadderReply)
  | 0, _, _ => some []
  | left + 1, i, contLen => do
    let entries ← infoLoop range i countPerPacket 0
    let data := packetData range i entries
    let rest ← sendLoop range type totalLen left (i + 1) (contLen + data.length)
    some (⟨type, UInt16.ofNat totalLen, UInt16.ofNat data.length, UInt16.ofNat contLen, data⟩ ::
      rest)

/-- What a request does: the value of its handler, the range it was given and its replies. -/
structure Answer where
  result : Int
  range : Option Range
  replies : List LadderReply

def sendRange (type : UInt8) (range : Range) : Option Answer := do
  let packets := npacket range.count
  let replies ← sendLoop range type (range.count.toNat * 28 + 8 + 4 * packets - 4) packets 0 0
  some ⟨0, some range, replies⟩

def d2csSendClientLadder (table : Table) (type : UInt8) (start : UInt16) : Option Answer := do
  let range ← d2ladderGetLadder table start.toUInt32 ladderlistCount type.toUInt32
  match range with
  | none => some ⟨0, none, []⟩
  | some range => sendRange type range

def onClientLadderreq (table : Table) (packet : Packet) : Option Answer :=
  d2csSendClientLadder table (UInt8.ofNat (field packet.data 3 1))
    (UInt16.ofNat (field packet.data 4 2))

/-- The overall ladder that the flags of a request name. -/
def overallType (packet : Packet) : UInt8 :=
  let hardcore := field packet.data 3 4
  let expansion := field packet.data 7 4
  if hardcore ≠ 0 ∧ expansion ≠ 0 then 0x13
  else if hardcore = 0 ∧ expansion ≠ 0 then 0x1b
  else if hardcore ≠ 0 ∧ expansion = 0 then 0x00
  else 0x09

/-- The name behind a `t_client_d2cs_charladderreq`. -/
def requestName (packet : Packet) (beyond : Nat → UInt8) : Option Text :=
  (packetGetStrConst packet beyond 11 16).pointer.map fun start => cstring (packet.data.drop start)

/-- The ladder around a character, whose position is cut to an `unsigned short`. -/
def sendAround (table : Table) (type : UInt8) (pos : Int) : Option Answer :=
  if pos < 0 then some ⟨0, none, [⟨type, 0, 0, 0, []⟩]⟩
  else d2csSendClientLadder table type (UInt16.ofNat (pos - (ladderlistCount.toNat / 2)).toNat)

def onClientCharladderreq (table : Table) (packet : Packet) (beyond : Nat → UInt8) :
    Option Answer :=
  match requestName packet beyond with
  | none => some ⟨-1, none, []⟩
  | some charname => do
    let pos ← d2ladderFindCharacterPos table (overallType packet).toUInt32 charname
    sendAround table (overallType packet) pos

/-- The two requests for a ladder. -/
inductive Request
  | ladderreq
  | charladderreq

def answer (request : Request) (table : Table) (packet : Packet) (beyond : Nat → UInt8) :
    Option Answer :=
  match request with
  | .ladderreq => onClientLadderreq table packet
  | .charladderreq => onClientCharladderreq table packet beyond

end Requests

section Table
variable (table : Table) (maxtype : UInt32)

def HasTypes : Prop :=
  table.maxLadderType = maxtype ∧
    ∃ ladders, table.ladderData = some ladders ∧ ladders.length = maxtype.toNat

theorem list_table_types : HasTypes (listTable maxtype) maxtype := ⟨rfl, _, rfl, length_replicate⟩

variable {table maxtype}

section
variable (has : HasTypes table maxtype)
include has

theorem create_refused (type len : UInt32) (large : maxtype < type) :
    d2ladderCreate table type len = some (-1, table) := by
  rw [d2ladderCreate, has.1, if_pos large]

theorem create_outside (len : UInt32) :
    d2ladderCreate table maxtype len = none := by
  obtain ⟨bound, ladders, present, count⟩ := has
  have outside : writeAt ladders maxtype.toNat (createdLadder maxtype len) = none :=
    if_neg (by omega)
  rw [d2ladderCreate, bound, if_neg (by simp), present]
  simp only [bind_eq_bind, bind_some, outside, bind_none]

theorem create_inside (type len : UInt32) (small : type < maxtype) :
    ∃ created, d2ladderCreate table type len = some (0, created) ∧ HasTypes created maxtype := by
  obtain ⟨bound, ladders, present, count⟩ := has
  have below : type.toNat < maxtype.toNat := lt_iff_toNat_lt.mp small
  have passes : ¬ maxtype < type := by
    rw [lt_iff_toNat_lt]
    omega
  refine ⟨⟨some (ladders.set type.toNat (createdLadder type len)), table.maxLadderType⟩, ?_,
    bound, _, rfl, by rw [length_set, count]⟩
  rw [d2ladderCreate, bound, if_neg passes, present]
  simp only [bind_eq_bind, bind_some, write_inside ladders type.toNat _ (by omega)]

theorem append_inside (type : UInt32) (info : D2LadderInfo) (small : type < maxtype) :
    ∃ appended, d2ladderAppendLadder table type info = some appended ∧
      HasTypes appended.2 maxtype := by
  obtain ⟨bound, ladders, present, count⟩ := has
  have below : type.toNat < maxtype.toNat := lt_iff_toNat_lt.mp small
  have passes : ¬ maxtype < type := by
    rw [lt_iff_toNat_lt]
    omega
  have inside : type.toNat < ladders.length := by omega
  rw [d2ladderAppendLadder, bound, if_neg passes, present]
  simp only [bind_eq_bind, bind_some, read_inside ladders type.toNat inside]
  cases ladders[type.toNat].push (clientInfo info) with
  | none => exact ⟨_, rfl, bound, ladders, present, count⟩
  | some filled =>
    simp only [write_inside ladders type.toNat filled inside, bind_some]
    exact ⟨_, rfl, rfl, _, rfl, by rw [length_set, count]⟩

end

theorem append_loop_inside (type : UInt32) (small : type < maxtype) (block : List UInt8)
    (behind : Nat → UInt8) (left n : Nat) (has : HasTypes table maxtype) :
    ∃ after, appendLoop type block behind left n table = some after ∧ HasTypes after maxtype := by
  induction left generalizing n table with
  | zero => exact ⟨table, rfl, has⟩
  | succ left ih =>
    obtain ⟨appended, appends, keeps⟩ := append_inside has type
      (readInfo (bytesAt block behind (n * sizeofInfo) sizeofInfo)) small
    obtain ⟨after, loops, kept⟩ := ih (n + 1) keeps
    refine ⟨after, ?_, kept⟩
    simp only [appendLoop, appends, bind_eq_bind, bind_some, loops]

section
variable (file : List UInt8) (behind : Nat → UInt8) (index : LadderIndex)
include file behind index

theorem read_infos_inside (small : index.type < maxtype) (has : HasTypes table maxtype) :
    ∃ after, readInfos file behind index table = some after ∧ HasTypes after maxtype := by
  unfold readInfos
  dsimp only
  split
  · exact ⟨table, rfl, has⟩
  · exact append_loop_inside index.type small _ behind _ 0 has

theorem read_entry_inside (other : index.type ≠ maxtype) (has : HasTypes table maxtype) :
    ∃ after, readEntry file behind index table = some after ∧ HasTypes after maxtype := by
  rcases UInt32.lt_or_lt_of_ne other with small | large
  · obtain ⟨created, creates, keeps⟩ := create_inside has index.type index.number small
    obtain ⟨after, reads, kept⟩ := read_infos_inside file behind index small keeps
    refine ⟨after, ?_, kept⟩
    simp only [readEntry, creates, bind_eq_bind, bind_some]
    exact reads
  · refine ⟨table, ?_, has⟩
    simp only [readEntry, create_refused has index.type index.number large, bind_eq_bind, bind_some]
    exact if_pos (by decide)

theorem read_entry_outside (same : index.type = maxtype) (has : HasTypes table maxtype) :
    readEntry file behind index table = none := by
  simp only [readEntry, same, create_outside has, bind_eq_bind, bind_none]

end

theorem read_loop_inside (file header : List UInt8) (memory : Memory) (left i : Nat)
    (has : HasTypes table maxtype)
    (others : ∀ j, i ≤ j → j < i + left → (ladderIndex header memory.index j).type ≠ maxtype) :
    ∃ after, readLoop file header memory left i table = some after ∧ HasTypes after maxtype := by
  induction left generalizing i table with
  | zero => exact ⟨table, rfl, has⟩
  | succ left ih =>
    obtain ⟨next, reads, keeps⟩ := read_entry_inside file (memory.info i)
      (ladderIndex header memory.index i) (others i (le_refl i) (by omega)) has
    obtain ⟨after, loops, kept⟩ := ih (i + 1) keeps fun j later before =>
      others j (by omega) (by omega)
    refine ⟨after, ?_, kept⟩
    simp only [readLoop, reads, bind_eq_bind, bind_some, loops]

theorem read_loop_outside (file header : List UInt8) (memory : Memory) (left i j : Nat)
    (has : HasTypes table maxtype) (later : i ≤ j) (before : j < i + left)
    (same : (ladderIndex header memory.index j).type = maxtype) :
    readLoop file header memory left i table = none := by
  induction left generalizing i table with
  | zero => omega
  | succ left ih =>
    by_cases here : (ladderIndex header memory.index i).type = maxtype
    · simp only [readLoop, read_entry_outside file (memory.info i) _ here has,
        bind_eq_bind, bind_none]
    -- An entry that stays inside leaves a table of the same length to the ones behind it.
    obtain ⟨next, reads, keeps⟩ := read_entry_inside file (memory.info i) _ here has
    have further : i ≠ j := fun equal => here (equal ▸ same)
    simp only [readLoop, reads, bind_eq_bind, bind_some]
    exact ih (i + 1) keeps (by omega) (by omega)

end Table

section Answers
variable {table : Table} {maxtype : UInt32}

theorem ladder_of_inside (has : HasTypes table maxtype) (type : UInt32) (small : type < maxtype) :
    ∃ found, ladderOf table type = some found := by
  obtain ⟨bound, ladders, present, count⟩ := has
  have below : type.toNat < maxtype.toNat := lt_iff_toNat_lt.mp small
  simp only [ladderOf, present, read_inside ladders type.toNat (by omega), bind_eq_bind, bind_some]
  split
  · exact ⟨none, rfl⟩
  · split
    · exact ⟨none, rfl⟩
    · exact ⟨_, rfl⟩

theorem ladder_of_outside (has : HasTypes table maxtype) (type : UInt32)
    (large : ¬ type < maxtype) : ladderOf table type = none := by
  obtain ⟨bound, ladders, present, count⟩ := has
  have above : ladders.length ≤ type.toNat := by
    rw [lt_iff_toNat_lt] at large
    omega
  have outside : readAt ladders type.toNat = none := getElem?_eq_none above
  simp only [ladderOf, present, outside, bind_eq_bind, bind_none]

variable (ladder : Ladder)

theorem curr_len_small : ladder.currLen < 2 ^ 32 := by
  have room := toNat_lt ladder.len
  cases written : ladder.info with
  | none => simp [Ladder.currLen, written]
  | some entries =>
    have fits := ladder.fits entries written
    simp only [Ladder.currLen, written, getD_some]
    omega

def Range.Inside (range : Range) : Prop :=
  range.start.toNat + range.count.toNat ≤ range.ladder.currLen

theorem clamp_inside (start count : UInt32) (small : start.toNat + count.toNat < 2 ^ 32) :
    (clampRange ladder start count).Inside := by
  have loaded := curr_len_small ladder
  have sum : (start + count).toNat = start.toNat + count.toNat := by
    exact Nat.mod_eq_of_lt small
  have exact : (ofNat ladder.currLen).toNat = ladder.currLen :=
    toNat_ofNat_of_lt loaded
  -- Fewer entries than asked for, a start too late for them, or a range that lies inside.
  unfold clampRange Range.Inside
  by_cases short : ladder.currLen < count.toNat
  · simp only [short, if_true, UInt32.toNat_zero, exact]
    omega
  by_cases late : ladder.currLen < (start + count).toNat
  · have enough : count ≤ ofNat ladder.currLen := by
      rw [le_iff_toNat_le, exact]
      omega
    simp only [short, late, if_true, if_false, UInt32.toNat_sub_of_le _ _ enough, exact]
    omega
  · simp only [short, late, if_false]
    omega

theorem entry_inside (index : Nat) (inside : index < ladder.currLen) :
    ∃ entry, ladder.entryAt index = some entry := by
  cases written : ladder.info with
  | none =>
    rw [Ladder.currLen, written] at inside
    cases inside
  | some entries =>
    rw [Ladder.currLen, written] at inside
    exact ⟨entries[index], by
      simp only [Ladder.entryAt, written, bind_eq_bind, bind_some]
      exact read_inside entries index inside⟩

variable (range : Range)

theorem info_loop_inside (inside : range.Inside) (i left n : Nat) :
    ∃ entries, infoLoop range i left n = some entries := by
  induction left generalizing n with
  | zero => exact ⟨[], rfl⟩
  | succ left ih =>
    by_cases last : range.count.toNat ≤ n + i * countPerPacket
    · exact ⟨[], by rw [infoLoop, if_pos last]⟩
    have loaded : range.start.toNat + (n + i * countPerPacket) < range.ladder.currLen := by
      unfold Range.Inside at inside
      omega
    obtain ⟨entry, reads⟩ := entry_inside range.ladder _ loaded
    obtain ⟨rest, loops⟩ := ih (n + 1)
    exact ⟨entry :: rest, by
      simp only [infoLoop, last, if_false, reads, loops, bind_eq_bind, bind_some]⟩

theorem send_loop_inside (inside : range.Inside) (type : UInt8) (totalLen left i contLen : Nat) :
    ∃ replies, sendLoop range type totalLen left i contLen = some replies := by
  induction left generalizing i contLen with
  | zero => exact ⟨[], rfl⟩
  | succ left ih =>
    obtain ⟨entries, reads⟩ := info_loop_inside range inside i countPerPacket 0
    obtain ⟨rest, loops⟩ := ih (i + 1) (contLen + (packetData range i entries).length)
    simp only [sendLoop, reads, loops, bind_eq_bind, bind_some]
    exact ⟨_, rfl⟩

/-- The handler stays inside the table and the entries, and the range it is given lies in them. -/
def Answered (outcome : Option Answer) : Prop :=
  ∃ given, outcome = some given ∧ ∀ range, given.range = some range → range.Inside

theorem send_answered (has : HasTypes table maxtype) (type : UInt8) (start : UInt16)
    (small : type.toUInt32 < maxtype) : Answered (d2csSendClientLadder table type start) := by
  obtain ⟨found, finds⟩ := ladder_of_inside has type.toUInt32 small
  simp only [d2csSendClientLadder, d2ladderGetLadder, finds, bind_eq_bind, bind_some]
  cases found with
  | none => exact ⟨_, rfl, fun range given => by cases given⟩
  | some ladder =>
    have inside : (clampRange ladder start.toUInt32 ladderlistCount).Inside := by
      apply clamp_inside
      have bound := UInt16.toNat_lt start
      rw [UInt16.toNat_toUInt32]
      have count : ladderlistCount.toNat = 16 := rfl
      omega
    simp only [map_some, sendRange]
    obtain ⟨replies, sends⟩ := send_loop_inside _ inside type
      ((clampRange ladder start.toUInt32 ladderlistCount).count.toNat * 28 + 8 +
        4 * npacket (clampRange ladder start.toUInt32 ladderlistCount).count - 4)
      (npacket (clampRange ladder start.toUInt32 ladderlistCount).count) 0 0
    simp only [sends, bind_eq_bind, bind_some]
    refine ⟨_, rfl, ?_⟩
    rintro range ⟨⟩
    exact inside

theorem send_outside (has : HasTypes table maxtype) (type : UInt8) (start : UInt16)
    (large : ¬ type.toUInt32 < maxtype) : d2csSendClientLadder table type start = none := by
  simp only [d2csSendClientLadder, d2ladderGetLadder,
    ladder_of_outside has type.toUInt32 large, bind_eq_bind, bind_none]

theorem tolower_zero (byte : UInt8) (zero : tolower byte = 0) : byte = 0 := by
  by_cases upper : isupper byte = true
  · have range : 65 ≤ byte.toNat ∧ byte.toNat ≤ 90 := by
      simpa [isupper, UInt8.le_iff_toNat_le] using upper
    rw [tolower, if_pos upper] at zero
    have value := congrArg UInt8.toNat zero
    change (byte.toNat + 32) % 256 = 0 at value
    omega
  · rwa [tolower, if_neg upper] at zero

theorem same_name_inside (chars : List UInt8) (name : Text) (short : name.length < chars.length) :
    ∃ same, sameName chars name = some same := by
  induction chars generalizing name with
  | nil => cases short
  | cons byte rest ih =>
    unfold sameName
    by_cases other : tolower byte ≠ tolower (name.headD 0)
    · exact ⟨false, if_pos other⟩
    rw [if_neg other]
    by_cases ends : byte = 0
    · exact ⟨true, if_pos ends⟩
    rw [if_neg ends]
    -- Behind the name its NUL is compared, which only another NUL equals.
    cases name with
    | nil => exact absurd (tolower_zero byte (not_not.mp other)) ends
    | cons first name =>
      rw [length_cons, length_cons] at short
      exact ih name (by omega)

theorem find_loop_inside (charname : Text) (short : charname.length < 16) (left i : Nat)
    (inside : i + left ≤ ladder.currLen) : ∃ pos, findLoop ladder charname left i = some pos := by
  induction left generalizing i with
  | zero => exact ⟨-1, rfl⟩
  | succ left ih =>
    obtain ⟨entry, reads⟩ := entry_inside ladder i (by omega)
    have room : charname.length < entry.charname.length := by
      rw [entry.sized]
      exact short
    obtain ⟨same, compares⟩ := same_name_inside entry.charname charname room
    simp only [findLoop, reads, compares, bind_eq_bind, bind_some]
    cases same with
    | true => exact ⟨_, rfl⟩
    | false => exact ih (i + 1) (by omega)

theorem find_inside (has : HasTypes table maxtype) (type : UInt32) (charname : Text)
    (short : charname.length < 16) (small : type < maxtype) :
    ∃ pos, d2ladderFindCharacterPos table type charname = some pos := by
  obtain ⟨found, finds⟩ := ladder_of_inside has type small
  simp only [d2ladderFindCharacterPos, finds, bind_eq_bind, bind_some]
  cases found with
  | none => exact ⟨-1, rfl⟩
  | some ladder => exact find_loop_inside ladder charname short ladder.currLen 0 (by omega)

theorem cstring_short (bytes : Text) (nul : Nat) (ends : bytes[nul]? = some 0) :
    (cstring bytes).length ≤ nul := by
  induction bytes generalizing nul with
  | nil => cases ends
  | cons first rest ih =>
    by_cases zero : first = 0
    · simp [cstring, zero]
    cases nul with
    | zero => exact absurd (some.inj ends) zero
    | succ nul =>
      have shorter : (cstring rest).length ≤ nul := ih nul ends
      rw [cstring, takeWhile_cons_of_pos (by simpa using zero), length_cons]
      exact Nat.succ_le_succ shorter

theorem request_name_short (packet : Packet) (beyond : Nat → UInt8) (charname : Text)
    (named : requestName packet beyond = some charname) : charname.length < 16 := by
  obtain ⟨start, found, rfl⟩ := map_eq_some_iff.mp named
  obtain ⟨rfl, scan⟩ := str_pointer_scan packet beyond 11 16 start found
  obtain ⟨nul, later, inside, short, ends, -⟩ := scan_found _ _ _ _ _ scan
  change 11 ≤ nul at later
  have stops : (packet.data.drop 11)[nul - 11]? = some 0 := by
    rw [getElem?_drop, Nat.add_sub_cancel' later]
    exact (byte_zero_iff packet beyond inside).mp ends
  exact (cstring_short _ _ stops).trans_lt short

def requestType (request : Request) (packet : Packet) (beyond : Nat → UInt8) : Option UInt8 :=
  match request with
  | .ladderreq => some (UInt8.ofNat (field packet.data 3 1))
  | .charladderreq => (requestName packet beyond).map fun _ => overallType packet

theorem charladder_inside (has : HasTypes table maxtype) (packet : Packet) (beyond : Nat → UInt8)
    (small : ∀ charname, requestName packet beyond = some charname →
      (overallType packet).toUInt32 < maxtype) :
    Answered (onClientCharladderreq table packet beyond) := by
  unfold onClientCharladderreq
  cases named : requestName packet beyond with
  | none => exact ⟨_, rfl, fun range given => by cases given⟩
  | some charname =>
    have below := small charname named
    obtain ⟨pos, finds⟩ := find_inside has (overallType packet).toUInt32 charname
      (request_name_short packet beyond charname named) below
    simp only [finds, bind_eq_bind, bind_some]
    unfold sendAround
    by_cases absent : pos < 0
    · rw [if_pos absent]
      exact ⟨_, rfl, fun range given => by cases given⟩
    · rw [if_neg absent]
      exact send_answered has _ _ below

theorem charladder_outside (has : HasTypes table maxtype) (packet : Packet) (beyond : Nat → UInt8)
    (charname : Text) (named : requestName packet beyond = some charname)
    (large : ¬ (overallType packet).toUInt32 < maxtype) :
    onClientCharladderreq table packet beyond = none := by
  simp only [onClientCharladderreq, named, d2ladderFindCharacterPos,
    ladder_of_outside has _ large, bind_eq_bind, bind_none]

theorem answered_iff (has : HasTypes table maxtype) (request : Request) (packet : Packet)
    (beyond : Nat → UInt8) :
    Answered (answer request table packet beyond) ↔
      ∀ type, requestType request packet beyond = some type → type.toUInt32 < maxtype := by
  cases request with
  | ladderreq =>
    constructor
    · rintro answered type ⟨⟩
      by_contra large
      obtain ⟨given, answers, -⟩ := answered
      rw [answer, onClientLadderreq, send_outside has _ _ large] at answers
      cases answers
    · exact fun small => send_answered has _ _ (small _ rfl)
  | charladderreq =>
    constructor
    · intro answered type looks
      obtain ⟨charname, named, rfl⟩ := map_eq_some_iff.mp looks
      by_contra large
      obtain ⟨given, answers, -⟩ := answered
      rw [answer, charladder_outside has packet beyond charname named large] at answers
      cases answers
    · intro small
      apply charladder_inside has
      intro charname named
      exact small _ (by rw [requestType, named, map_some])

end Answers

section Safety
variable (file : List UInt8) (memory : Memory)

/-- The header and the index can be read. -/
def Accepted : Prop := sizeofHeader ≤ file.length ∧ (indexBlock file).length = indexSize file

instance : Decidable (Accepted file) := inferInstanceAs (Decidable (_ ∧ _))

def TypesFit : Prop :=
  ∀ i < (fileMaxtype file).toNat,
    (ladderIndex (indexBlock file) memory.index i).type ≠ fileMaxtype file

instance : Decidable (TypesFit file memory) :=
  inferInstanceAs (Decidable (∀ i < (fileMaxtype file).toNat, _ ≠ _))

variable {file}

theorem accepted_reads (accepted : Accepted file) (table : Table) :
    d2ladderReadladder (some file) memory table =
      (readLoop file (indexBlock file) memory (fileMaxtype file).toNat 0
        (listTable (fileMaxtype file))).map fun table => (0, table) := by
  have header : ¬ file.length < sizeofHeader := not_lt.mpr accepted.1
  simp only [d2ladderReadladder, header, accepted.2, if_false, ne_eq, not_true_eq_false]

theorem file_read (accepted : Accepted file) (fit : TypesFit file memory) (table : Table) :
    ∃ loaded, d2ladderReadladder (some file) memory table = some (0, loaded) ∧
      HasTypes loaded (fileMaxtype file) := by
  obtain ⟨loaded, reads, has⟩ := read_loop_inside file (indexBlock file) memory
    (fileMaxtype file).toNat 0 (list_table_types (fileMaxtype file))
    fun j _ before => fit j (by omega)
  exact ⟨loaded, by rw [accepted_reads memory accepted, reads, map_some], has⟩

theorem file_outside (accepted : Accepted file) (large : ¬ TypesFit file memory) (table : Table) :
    d2ladderReadladder (some file) memory table = none := by
  unfold TypesFit at large
  push Not at large
  obtain ⟨j, before, same⟩ := large
  rw [accepted_reads memory accepted, read_loop_outside file (indexBlock file) memory
    (fileMaxtype file).toNat 0 j (list_table_types (fileMaxtype file)) (Nat.zero_le j)
    (by omega) same, map_none]

variable (file) in
/-- Reading the file stays inside the table, and so does the request that is answered from it. -/
def Safe (request : Request) (packet : Packet) (beyond : Nat → UInt8) : Prop :=
  ∃ loaded, d2ladderReadladder (some file) memory noTable = some (0, loaded) ∧
    Answered (answer request loaded packet beyond)

theorem ladder_safe_iff (accepted : Accepted file) (request : Request) (packet : Packet)
    (beyond : Nat → UInt8) :
    Safe file memory request packet beyond ↔
      TypesFit file memory ∧
        ∀ type, requestType request packet beyond = some type →
          type.toUInt32 < fileMaxtype file := by
  constructor
  · rintro ⟨loaded, reads, answered⟩
    by_cases fit : TypesFit file memory
    · obtain ⟨table, same, has⟩ := file_read memory accepted fit noTable
      rw [reads, Option.some.injEq, Prod.mk.injEq] at same
      rw [← same.2] at has
      exact ⟨fit, (answered_iff has request packet beyond).mp answered⟩
    · rw [file_outside memory accepted fit] at reads
      cases reads
  · rintro ⟨fit, small⟩
    obtain ⟨loaded, reads, has⟩ := file_read memory accepted fit noTable
    exact ⟨loaded, reads, (answered_iff has request packet beyond).mpr small⟩

/-- A file with one ladder of one character, whose index gives it this type. -/
def oneLadder (type : UInt8) : List UInt8 :=
  [1, 0, 0, 0, 0, 0, 0, 0] ++ [type, 0, 0, 0, 20, 0, 0, 0, 1, 0, 0, 0] ++
    [232, 3, 0, 0, 0, 0, 9, 1] ++ [65, 110, 110] ++ replicate 13 0

def zeroMemory : Memory := ⟨fun _ => 0, fun _ _ => 0⟩

def typeRequest (type : UInt8) : Packet where
  pclass := .d2cs
  len := 0
  data := [6, 0, 0x11, type, 0, 0] ++ replicate 3066 0
  room := by simp only [length_append, length_replicate]; rfl

theorem one_ladder_accepted : Accepted (oneLadder 0) ∧ Accepted (oneLadder 1) := by
  decide +kernel

theorem one_ladder_fits : TypesFit (oneLadder 0) zeroMemory := by
  decide +kernel

theorem first_ladder_safe : Safe (oneLadder 0) zeroMemory .ladderreq (typeRequest 0) fun _ => 0 :=
  (ladder_safe_iff zeroMemory one_ladder_accepted.1 .ladderreq (typeRequest 0) fun _ => 0).mpr
    ⟨one_ladder_fits, by
      rintro type ⟨⟩
      decide +kernel⟩

/-- A client asks for a type that the file does not have; and the index of a file names the type
that the check lets pass. -/
theorem next_type_outside :
    (Accepted (oneLadder 0) ∧
      ¬ Safe (oneLadder 0) zeroMemory .ladderreq (typeRequest 1) fun _ => 0) ∧
    (Accepted (oneLadder 1) ∧
      ¬ Safe (oneLadder 1) zeroMemory .ladderreq (typeRequest 0) fun _ => 0) := by
  refine ⟨⟨one_ladder_accepted.1, ?_⟩, one_ladder_accepted.2, ?_⟩
  · rintro ⟨loaded, reads, answered⟩
    obtain ⟨table, same, has⟩ := file_read zeroMemory one_ladder_accepted.1 one_ladder_fits noTable
    rw [reads, Option.some.injEq, Prod.mk.injEq] at same
    rw [← same.2] at has
    have below := (answered_iff has .ladderreq (typeRequest 1) fun _ => 0).mp answered 1 rfl
    exact absurd below (by decide +kernel)
  · rintro ⟨loaded, reads, answered⟩
    cases reads

end Safety

end Pvpgn.D2csLadder
