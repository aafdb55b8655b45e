import Pvpgn.CharLock
import Pvpgn.D2Ladder
import Pvpgn.Bytes
import Pvpgn.PacketFraming
import Mathlib.Algebra.Order.BigOperators.Group.List

/-!
The requests of the game servers to the character database (`dbspacket.cpp`): the loop over the
packets of a connection's read buffer, the names at the end of every request, and the character
files that are read under a character's lock.
-/

namespace Pvpgn.DbsPacket
open Stdio LinkedMemory CharLock List Option Function
open PacketFraming (bnShortGet)

def maxUsernameLen : Nat := 16
def kBufferSize : Nat := 1024 * 20

def connectClassD2gsToD2dbs : UInt8 := 0x65
def d2gsD2dbsSaveDataRequest : Nat := 0x30
def d2gsD2dbsGetDataRequest : Nat := 0x31
def d2gsD2dbsUpdateLadder : Nat := 0x32
def d2gsD2dbsCharLock : Nat := 0x33
def d2gsD2dbsEchoreply : Nat := 0x34

def d2gsDataCharsave : Nat := 1
def d2gsDataPortrait : Nat := 2

def d2dbsSaveDataSuccess : Nat := 0
def d2dbsSaveDataFailed : Nat := 1
def d2dbsGetDataSuccess : Nat := 0
def d2dbsGetDataFailed : Nat := 1
def d2dbsGetDataCharlocked : Nat := 2

inductive Reply
  | saveData (size : Nat) (seqno : UInt32) (datatype result : Nat) (charName : Text)
  | getData (size : Nat) (seqno : UInt32) (datatype result datalen : Nat)
      (charcreatetime allowladder : UInt32) (charName data : Text)

structure Connection where
  type : UInt8
  stats : UInt8
  serverid : UInt32
  lastActive : Int
  nCharsInReadBuffer : Nat
  nCharsInWriteBuffer : Nat
  readBuf : List UInt8
  writeBuf : List Reply

/-- A character file that is read: whether `fopen` succeeds, its size unless `ftell` fails, and what
`fread` brings at a position when it is asked for a number of bytes. -/
structure FileRead where
  opened : Bool
  filesize : Option Nat
  fread : Nat → Nat → Text

/-- A character file that is written, and renamed at last. -/
structure FileWrite where
  opened : Bool
  fwrite : Nat → Nat → Nat
  renamed : Bool

/-- What local variables hold before anything is assigned to them. -/
structure Stack where
  gsid : UInt32
  charinfo : Text

/-- The preferences, the clock, the allocator, and what every call of the file functions finds; the
files are counted in the order in which they are used. -/
structure Environment where
  difficultyHack : Bool
  ladderinitTime : UInt32
  verified : Bool
  now : Nat → Int
  address : Memory Charlockinfo → Nat
  reading : Nat → FileRead
  writing : Nat → FileWrite
  stack : Nat → Stack

/-- `readEnd` is where the furthest read of a request's bytes ended, `calls` counts the files, and
`updates` are the characters given to `d2ladder_update`. -/
structure Server where
  conn : Connection
  locks : Charlock
  updates : List D2Ladder.D2LadderInfo
  saved : List Text
  calls : Nat
  readEnd : Nat

def bnIntGet (data : List UInt8) (offset : Nat) : UInt32 :=
  UInt32.ofNat (Bytes.number ((data.drop offset).take 4))

def bnByteGet (data : List UInt8) (offset : Nat) : Nat := (data.getD offset 0).toNat

def overwrite (data : List UInt8) (offset : Nat) (bytes : List UInt8) : List UInt8 :=
  data.take offset ++ bytes ++ data.drop (offset + bytes.length)

def touch (server : Server) (position : Nat) : Server :=
  { server with readEnd := max server.readEnd position }

/-- What `strncpy` copies before the NUL that it finds or pads. -/
def strncpy (data : List UInt8) (position limit : Nat) : Text :=
  ((data.drop position).take limit).takeWhile (· ≠ 0)

/-- The names of a request one after the other, each in a field of its own length. A name that
leaves no room for its NUL is an error. -/
def readNames (server : Server) (readpos : Nat) : List Nat → Server × Option (List Text × Nat)
  | [] => (server, some ([], readpos))
  | limit :: limits =>
    let name := strncpy server.conn.readBuf readpos limit
    if name.length = limit then (touch server (readpos + limit), none)
    else
      let (server, found) := readNames (touch server (readpos + name.length + 1))
        (readpos + name.length + 1) limits
      (server, found.map fun (names, readpos) => (name :: names, readpos))

/-- The loop over `fread`; `none` when it brings nothing. -/
def freadLoop (file : FileRead) (filesize : Nat) (data : Text) : Option Text :=
  if data.length < filesize then
    let writelen := min 2000 (filesize - data.length)
    let bytes := (file.fread data.length writelen).take writelen
    if bytes.length = 0 then none else freadLoop file filesize (data ++ bytes)
  else some data
termination_by filesize - data.length
decreasing_by
  change filesize - (data ++ bytes).length < filesize - data.length
  rw [length_append]
  omega

/-- `dbs_packet_getdata_charsave` and `dbs_packet_getdata_charinfo`: the file's bytes, none when it
cannot be read; their number is the value returned. -/
def getdataFile (file : FileRead) (bufsize : Nat) : Text :=
  if !file.opened then []
  else match file.filesize with
    | none => []
    | some filesize =>
      if bufsize < filesize then [] else (freadLoop file filesize []).getD []

def fwriteLoop (file : FileWrite) (datalen curlen : Nat) : Bool :=
  if curlen < datalen then
    let writelen := min 2000 (datalen - curlen)
    let readlen := min (file.fwrite curlen writelen) writelen
    if readlen = 0 then false else fwriteLoop file datalen (curlen + readlen)
  else true
termination_by datalen - curlen
decreasing_by
  change datalen - (curlen + readlen) < datalen - curlen
  omega

/-- The part that `dbs_packet_savedata_charsave` and `dbs_packet_savedata_charinfo` share. -/
def savedataFile (env : Environment) (server : Server) (data : Text) : Nat × Server :=
  let file := env.writing server.calls
  let server := { server with calls := server.calls + 1 }
  if !file.opened then (0, server)
  else if !fwriteLoop file data.length 0 then (0, server)
  else if !file.renamed then (0, server)
  else (data.length, { server with saved := server.saved ++ [data] })

def d2charsaveChecksumOffset : Nat := 0x0C

def checksumLoop (offset : Nat) : Text → Nat → UInt32 → UInt32
  | [], _, checksum => checksum
  | byte :: rest, index, checksum =>
    let ch := if offset ≤ index ∧ index < offset + 4 then 0 else byte.toUInt32
    let ch := if 0x80000000 ≤ checksum then ch + 1 else ch
    checksumLoop offset rest (index + 1) (2 * checksum + ch)

def d2charsaveChecksum (data : Text) (offset : Nat) : UInt32 := checksumLoop offset data 0 0

def dataAt (server : Server) (readpos datalen : Nat) : Text :=
  (server.conn.readBuf.drop readpos).take datalen

def dbsPacketSavedataCharsave (env : Environment) (server : Server) (readpos datalen : Nat) :
    Nat × Server :=
  let server := touch (touch server (readpos + d2charsaveChecksumOffset + 4)) (readpos + datalen)
  let data := dataAt server readpos datalen
  if bnIntGet server.conn.readBuf (readpos + d2charsaveChecksumOffset) ≠
      d2charsaveChecksum data d2charsaveChecksumOffset then (0, server)
  else savedataFile env server data

def dbsPacketSavedataCharinfo (env : Environment) (server : Server) (readpos datalen : Nat) :
    Nat × Server :=
  let server := touch server (readpos + datalen)
  savedataFile env server (dataAt server readpos datalen)

def charinfoSize : Nat := 0xC0
def charinfoPortraitLevelOffset : Nat := 0x89
def charinfoPortraitStatusOffset : Nat := 0x8A
def charinfoSummaryLevelOffset : Nat := 0xB8
def charinfoSummaryStatusOffset : Nat := 0xB4
def charinfoPortraitGfxOffset : Nat := 0x72
def charinfoPortraitColorOffset : Nat := 0x7E
def charsaveLevelOffset : Nat := 0x2B
def charsaveStatusOffset : Nat := 0x24
def charsaveGfxOffset : Nat := 0x88

/-- The bytes of a number, as `bn_byte_set`, `bn_short_set` and `bn_int_set` write them. -/
def bnBytes (count value : Nat) : List UInt8 := Bytes.littleEndian count value

/-- The portrait levels are set in the read buffer. -/
def dbsPacketSetCharinfoLevel (env : Environment) (server : Server) (readpos : Nat) : Server :=
  if env.difficultyHack then
    let server := touch server (readpos + charinfoSummaryLevelOffset + 4)
    let buf := server.conn.readBuf
    let level := (bnIntGet buf (readpos + charinfoSummaryLevelOffset)).toNat
    let plevel := bnByteGet buf (readpos + charinfoPortraitLevelOffset)
    if level ≠ plevel then
      let buf := overwrite buf (readpos + charinfoPortraitLevelOffset) (bnBytes 1 255)
      let buf := overwrite buf (readpos + charinfoSummaryLevelOffset) (bnBytes 4 255)
      { server with conn := { server.conn with readBuf := buf } }
    else server
  else server

def charstatusToPortstatus (status : Nat) : Nat :=
  ((((status &&& 0xFF00) <<< 1) ||| (status &&& 0x00FF)) ||| 0x8080) % 0x10000

/-- The level of a charsave, which rolls over after 255. -/
def charsaveLevel (buf : List UInt8) (readpos : Nat) : Nat :=
  let level := bnByteGet buf (readpos + charsaveLevelOffset)
  if level = 0 then 255 else level

/-- Both loops copy from `CHARSAVE_GFX_OFFSET`. -/
def fixedCharinfo (buf : List UInt8) (readpos : Nat) (charinfo : Text) : Text :=
  let level := if bnByteGet charinfo charinfoPortraitLevelOffset = 255 then 255
    else charsaveLevel buf readpos
  let status := bnShortGet buf (readpos + charsaveStatusOffset)
  let gfx := (buf.drop (readpos + charsaveGfxOffset)).take 11
  let charinfo := overwrite charinfo charinfoPortraitLevelOffset (bnBytes 1 level)
  let charinfo := overwrite charinfo charinfoSummaryLevelOffset (bnBytes 4 level)
  let charinfo := overwrite charinfo charinfoPortraitStatusOffset
    (bnBytes 2 (charstatusToPortstatus status))
  let charinfo := overwrite charinfo charinfoSummaryStatusOffset (bnBytes 4 status)
  let charinfo := overwrite charinfo charinfoPortraitGfxOffset gfx
  overwrite charinfo charinfoPortraitColorOffset gfx

/-- A buffer of `CHARINFO_SIZE` bytes of which a file fills the first. -/
def fillCharinfo (env : Environment) (server : Server) (data : Text) : Text :=
  data ++ ((env.stack server.calls).charinfo.take charinfoSize).drop data.length

def dbsPacketFixCharinfo (env : Environment) (server : Server) (readpos : Nat) : Bool × Server :=
  if env.difficultyHack then
    let server := touch server (readpos + charsaveLevelOffset + 1)
    if charsaveLevel server.conn.readBuf readpos < 100 then (true, server)
    else
      let data := getdataFile (env.reading server.calls) charinfoSize
      let charinfo := fillCharinfo env server data
      let server := { server with calls := server.calls + 1 }
      if data.length = 0 then (false, server)
      else
        let server := touch server (readpos + charsaveGfxOffset + 11)
        let (saved, server) := savedataFile env server
          (fixedCharinfo server.conn.readBuf readpos charinfo)
        (saved ≠ 0, server)
  else (true, server)

/-- The data of a save request: the result of the reply, or that the request is an error. -/
def saveCharData (env : Environment) (server : Server) (datatype readpos datalen : Nat) :
    Option Nat × Server :=
  if datatype = d2gsDataCharsave then
    let (saved, server) := dbsPacketSavedataCharsave env server readpos datalen
    if saved = 0 then (some d2dbsSaveDataFailed, server)
    else
      let (fixed, server) := dbsPacketFixCharinfo env server readpos
      (some (if fixed then d2dbsSaveDataSuccess else d2dbsSaveDataFailed), server)
  else if datatype = d2gsDataPortrait then
    let server := dbsPacketSetCharinfoLevel env server readpos
    let (saved, server) := dbsPacketSavedataCharinfo env server readpos datalen
    (some (if saved = 0 then d2dbsSaveDataFailed else d2dbsSaveDataSuccess), server)
  else (none, server)

def sizeofSaveDataRequest : Nat := 12
def sizeofSaveDataReply : Nat := 14
def sizeofGetDataRequest : Nat := 10
def sizeofGetDataReply : Nat := 24
def sizeofUpdateLadder : Nat := 24
def sizeofCharLock : Nat := 12

/-- A reply is queued if the write buffer has room for it. -/
def queueReply (server : Server) (writelen : Nat) (reply : Reply) : Int × Server :=
  if kBufferSize < server.conn.nCharsInWriteBuffer + writelen then (0, server)
  else (1, { server with conn := { server.conn with
    nCharsInWriteBuffer := server.conn.nCharsInWriteBuffer + writelen
    writeBuf := server.conn.writeBuf ++ [reply] } })

def dbsPacketSavedata (env : Environment) (server : Server) : Int × Server :=
  let buf := server.conn.readBuf
  let datatype := bnShortGet buf 8
  let datalen := bnShortGet buf 10
  match readNames (touch server sizeofSaveDataRequest) sizeofSaveDataRequest
      [maxUsernameLen, maxCharnameLen, maxRealmnameLen] with
  | (server, some ([_, charName, _], readpos)) =>
    if readpos + datalen ≠ bnShortGet buf 0 then (-1, server)
    else match saveCharData env server datatype readpos datalen with
      | (none, server) => (-1, server)
      | (some result, server) =>
        let writelen := sizeofSaveDataReply + charName.length + 1
        queueReply server writelen
          (.saveData writelen (bnIntGet buf 4) datatype result (charName.map tolower))
  | (server, _) => (-1, server)

def dbsPacketEchoreply (env : Environment) (server : Server) : Int × Server :=
  (1, { server with conn := { server.conn with lastActive := env.now server.calls } })

/-- What a request for a charsave answers with. -/
structure Loaded where
  result : Nat
  data : Text
  charinfo : Text
  charName : Text

/-- The files of a character that was locked for this server. `gsid` is the variable that
`cl_query_charlock_status` sets only when the character is locked. -/
def readLocked (env : Environment) (server : Server) (charName : Text) (gsid : UInt32) :
    Option (Loaded × Server) := do
  let data := getdataFile (env.reading server.calls) kBufferSize
  let charName := charName.map tolower
  let server := { server with calls := server.calls + 1 }
  if data.length = 0 then
    let (_, locks) ← clUnlockChar server.locks charName gsid
    some (⟨d2dbsGetDataFailed, [], [], charName⟩, { server with locks })
  else
    let file := getdataFile (env.reading server.calls) charinfoSize
    let charinfo := fillCharinfo env server file
    let server := { server with calls := server.calls + 1 }
    if file.length = 0 then
      let (_, locks) ← clUnlockChar server.locks charName gsid
      some (⟨d2dbsGetDataFailed, data, [], charName⟩, { server with locks })
    else some (⟨d2dbsGetDataSuccess, data, charinfo, charName⟩, server)

def loadCharsave (env : Environment) (server : Server) (charName realmName : Text) :
    Option (Loaded × Server) := do
  let locked : Loaded := ⟨d2dbsGetDataCharlocked, [], [], charName⟩
  let (status, owner) ← clQueryCharlockStatus server.locks charName
  let gsid := owner.getD (env.stack server.calls).gsid
  if status ≠ 0 then some (locked, server)
  else
    let (failed, locks) ← clLockChar server.locks (env.address server.locks.memory) charName
      realmName server.conn.serverid
    let server := { server with locks }
    if failed ≠ 0 then some (locked, server) else readLocked env server charName gsid

def loadPortrait (env : Environment) (server : Server) (charName : Text) : Loaded × Server :=
  let data := getdataFile (env.reading server.calls) kBufferSize
  let result := if data.length = 0 then d2dbsGetDataFailed else d2dbsGetDataSuccess
  (⟨result, data, [], charName.map tolower⟩, { server with calls := server.calls + 1 })

/-- `charcreatetime` and `allowladder` of a reply about a charsave. -/
def createTimes (env : Environment) (loaded : Loaded) : UInt32 × UInt32 :=
  if loaded.result = d2dbsGetDataSuccess then
    let createTime := bnIntGet loaded.charinfo 8
    (createTime, if env.ladderinitTime ≤ createTime then 1 else 0)
  else (0, 0)

def getdataReply (env : Environment) (server : Server) (seqno : UInt32) (datatype : Nat)
    (loaded : Loaded) : Int × Server :=
  let (charcreatetime, allowladder) := if datatype = d2gsDataCharsave then createTimes env loaded
    else (0, 0)
  let writelen := loaded.data.length + sizeofGetDataReply + loaded.charName.length + 1
  queueReply server writelen (.getData writelen seqno datatype loaded.result loaded.data.length
    charcreatetime allowladder loaded.charName loaded.data)

def dbsPacketGetdata (env : Environment) (server : Server) : Option (Int × Server) :=
  let buf := server.conn.readBuf
  let datatype := bnShortGet buf 8
  match readNames (touch server sizeofGetDataRequest) sizeofGetDataRequest
      [maxUsernameLen, maxCharnameLen, maxRealmnameLen] with
  | (server, some ([_, charName, realmName], readpos)) =>
    if readpos ≠ bnShortGet buf 0 then some (-1, server)
    else if datatype = d2gsDataCharsave then do
      let (loaded, server) ← loadCharsave env server charName realmName
      some (getdataReply env server (bnIntGet buf 4) datatype loaded)
    else if datatype = d2gsDataPortrait then
      let (loaded, server) := loadPortrait env server charName
      some (getdataReply env server (bnIntGet buf 4) datatype loaded)
    else some (-1, server)
  | (server, _) => some (-1, server)

def dbsPacketUpdateladder (server : Server) : Int × Server :=
  let buf := server.conn.readBuf
  match readNames server sizeofUpdateLadder [maxCharnameLen, maxRealmnameLen] with
  | (server, some ([charName, _], readpos)) =>
    if readpos ≠ bnShortGet buf 0 then (-1, server)
    else
      let charladderinfo : D2Ladder.D2LadderInfo := {
        charname := charName
        experience := bnIntGet buf 12
        level := (bnIntGet buf 8).toUInt8
        status := UInt16.ofNat (bnShortGet buf 22)
        chclass := UInt8.ofNat (bnShortGet buf 20) }
      (1, touch { server with updates := server.updates ++ [charladderinfo] } sizeofUpdateLadder)
  | (server, _) => (-1, server)

def dbsPacketCharlock (env : Environment) (server : Server) : Option (Int × Server) :=
  let buf := server.conn.readBuf
  match readNames server sizeofCharLock [maxUsernameLen, maxCharnameLen, maxRealmnameLen] with
  | (server, some ([_, charName, realmName], readpos)) =>
    if readpos ≠ bnShortGet buf 0 then some (-1, server)
    else do
      let (_, locks) ← if bnIntGet buf 8 ≠ 0 then
        clLockChar server.locks (env.address server.locks.memory) charName realmName
          server.conn.serverid
        else clUnlockChar server.locks charName server.conn.serverid
      some (1, touch { server with locks } sizeofCharLock)
  | (server, _) => some (-1, server)

def dispatch (env : Environment) (server : Server) : Option (Int × Server) :=
  let type := bnShortGet server.conn.readBuf 2
  if type = d2gsD2dbsSaveDataRequest then some (dbsPacketSavedata env server)
  else if type = d2gsD2dbsGetDataRequest then dbsPacketGetdata env server
  else if type = d2gsD2dbsUpdateLadder then some (dbsPacketUpdateladder server)
  else if type = d2gsD2dbsCharLock then dbsPacketCharlock env server
  else if type = d2gsD2dbsEchoreply then some (dbsPacketEchoreply env server)
  else some (-1, server)

def consume (conn : Connection) (readlen : Nat) : Connection :=
  let left := conn.nCharsInReadBuffer - readlen
  { conn with
    nCharsInReadBuffer := left
    readBuf := overwrite conn.readBuf 0 ((conn.readBuf.drop readlen).take left) }

/-- One round of the loop: it ends with a value, or goes on. -/
inductive Round
  | ends (retval : Int) (server : Server)
  | continues (server : Server)

def round (env : Environment) (server : Server) : Option Round :=
  if server.conn.nCharsInReadBuffer < 8 then some (.ends 1 server)
  else
    let readlen := bnShortGet server.conn.readBuf 0
    if server.conn.nCharsInReadBuffer < readlen then some (.ends 1 server)
    else do
      let (retval, server) ← dispatch env { server with readEnd := 0 }
      if retval ≠ 1 then some (.ends retval server)
      else some (.continues { server with conn := consume server.conn readlen })

/-- `budget` bounds the rounds; `none` when it does not suffice. -/
def rounds (env : Environment) : Nat → Server → Option (Int × Server)
  | 0, _ => none
  | budget + 1, server => do
    match ← round env server with
    | .ends retval server => some (retval, server)
    | .continues server => rounds env budget server

def dbsPacketHandle (env : Environment) (budget : Nat) (server : Server) : Option (Int × Server) :=
  let conn := server.conn
  if conn.stats = 0 then
    if conn.nCharsInReadBuffer < 1 then some (0, server)
    else
      let conn := { conn with stats := 1, type := conn.readBuf.getD 0 0 }
      if conn.type ≠ connectClassD2gsToD2dbs ∨ !env.verified then some (-1, { server with conn })
      else some (1, { server with conn := consume conn 1 })
  else if conn.stats = 1 then
    if conn.type = connectClassD2gsToD2dbs then rounds env budget server else some (-1, server)
  else some (-1, server)

section Names

theorem strncpy_length (data : List UInt8) (position limit : Nat) :
    (strncpy data position limit).length ≤ limit := by
  rw [strncpy]
  have copied := (takeWhile_sublist (· ≠ (0 : UInt8))
    (l := (data.drop position).take limit)).length_le
  have bounded := length_take_le limit (data.drop position)
  omega

example : strncpy [97, 98, 0, 99] 0 3 = [97, 98] ∧ strncpy [97, 98, 0, 99] 0 1 = [97] := by
  decide +kernel

/-- Where the reading of the names ends: behind the last NUL, or behind the field of the first name
that has none. -/
def namesEnd (buf : List UInt8) (readpos : Nat) : List Nat → Nat
  | [] => readpos
  | limit :: limits =>
    let name := strncpy buf readpos limit
    if name.length = limit then readpos + limit
    else namesEnd buf (readpos + name.length + 1) limits

/-- The names of a request, unless one of them is too long. -/
def namesOf (buf : List UInt8) (readpos : Nat) : List Nat → Option (List Text)
  | [] => some []
  | limit :: limits =>
    let name := strncpy buf readpos limit
    if name.length = limit then none
    else (namesOf buf (readpos + name.length + 1) limits).map (name :: ·)

variable (buf : List UInt8) (readpos : Nat) (limits : List Nat)

theorem names_end_least : readpos ≤ namesEnd buf readpos limits := by
  induction limits generalizing readpos with
  | nil => exact le_refl readpos
  | cons limit limits ih =>
    rw [namesEnd]
    split
    · omega
    · have later := ih (readpos + (strncpy buf readpos limit).length + 1)
      omega

theorem names_end_past (limit : Nat) (limits : List Nat) (positive : 0 < limit) :
    readpos < namesEnd buf readpos (limit :: limits) := by
  rw [namesEnd]
  split
  · omega
  · have later := names_end_least buf (readpos + (strncpy buf readpos limit).length + 1) limits
    omega

theorem names_end_most : namesEnd buf readpos limits ≤ readpos + limits.sum := by
  induction limits generalizing readpos with
  | nil => exact le_refl readpos
  | cons limit limits ih =>
    rw [namesEnd, sum_cons]
    have bounded := strncpy_length buf readpos limit
    split
    · omega
    · have later := ih (readpos + (strncpy buf readpos limit).length + 1)
      omega

theorem names_short {names : List Text} (found : namesOf buf readpos limits = some names) :
    Forall₂ (fun name limit => name.length < limit) names limits := by
  induction limits generalizing readpos names with
  | nil =>
    cases found
    exact .nil
  | cons limit limits ih =>
    rw [namesOf] at found
    split at found
    · cases found
    rename_i terminated
    obtain ⟨rest, others, same⟩ := map_eq_some_iff.mp found
    subst same
    have bounded := strncpy_length buf readpos limit
    exact .cons (by omega) (ih _ others)

section
variable (server : Server)
include server

@[simp] theorem touch_conn (position : Nat) :
    (touch server position).conn = server.conn := rfl

@[simp] theorem touch_locks (position : Nat) :
    (touch server position).locks = server.locks := rfl

@[simp] theorem touch_calls (position : Nat) :
    (touch server position).calls = server.calls := rfl

@[simp] theorem touch_end (position : Nat) :
    (touch server position).readEnd = max server.readEnd position := rfl

@[simp] theorem touch_data (position readpos datalen : Nat) :
    dataAt (touch server position) readpos datalen = dataAt server readpos datalen := rfl

theorem touch_twice (first second : Nat) :
    touch (touch server first) second = touch server (max first second) := by
  simp [touch, max_assoc]

theorem touch_within (position : Nat) (within : position ≤ server.readEnd) :
    touch server position = server := by
  rw [touch, max_eq_left within]

theorem read_names (readpos : Nat) (limits : List Nat)
    (started : limits ≠ [] ∨ readpos ≤ server.readEnd) :
    readNames server readpos limits =
      (touch server (namesEnd server.conn.readBuf readpos limits),
        (namesOf server.conn.readBuf readpos limits).map fun names =>
          (names, namesEnd server.conn.readBuf readpos limits)) := by
  induction limits generalizing server readpos with
  | nil => rw [readNames, namesEnd, touch_within server readpos (by simpa using started)]; rfl
  | cons limit limits ih =>
    rw [readNames, namesEnd, namesOf]
    by_cases long : (strncpy server.conn.readBuf readpos limit).length = limit
    · simp only [if_pos long, map_none]
    have later := names_end_least server.conn.readBuf
      (readpos + (strncpy server.conn.readBuf readpos limit).length + 1) limits
    simp only [if_neg long]
    rw [ih _ _ (.inr (by simp)), touch_conn, touch_twice, max_eq_right later]
    simp only [Option.map_map]
    rfl

end

end Names

/-- Where the names of a request start, and the lengths of their fields. -/
def requestNames (type : Nat) : Option (Nat × List Nat) :=
  if type = d2gsD2dbsSaveDataRequest then
    some (sizeofSaveDataRequest, [maxUsernameLen, maxCharnameLen, maxRealmnameLen])
  else if type = d2gsD2dbsGetDataRequest then
    some (sizeofGetDataRequest, [maxUsernameLen, maxCharnameLen, maxRealmnameLen])
  else if type = d2gsD2dbsUpdateLadder then
    some (sizeofUpdateLadder, [maxCharnameLen, maxRealmnameLen])
  else if type = d2gsD2dbsCharLock then
    some (sizeofCharLock, [maxUsernameLen, maxCharnameLen, maxRealmnameLen])
  else none

def written (file : FileWrite) (datalen : Nat) : Bool :=
  file.opened && fwriteLoop file datalen 0 && file.renamed && 0 < datalen

def charsaveStored (env : Environment) (server : Server) (readpos datalen : Nat) : Prop :=
  bnIntGet server.conn.readBuf (readpos + d2charsaveChecksumOffset) =
    d2charsaveChecksum (dataAt server readpos datalen) d2charsaveChecksumOffset ∧
  written (env.writing server.calls) datalen = true

instance (env : Environment) (server : Server) (readpos datalen : Nat) :
    Decidable (charsaveStored env server readpos datalen) :=
  inferInstanceAs (Decidable (_ ∧ _))

/-- How many bytes of a save request's data are read whatever their number is: the checksum; of a
charsave that is stored the level, and the looks if a portrait is fixed; the level of a portrait. -/
def dataNeeded (env : Environment) (server : Server) (datatype readpos datalen : Nat) : Nat :=
  if datatype = d2gsDataCharsave then
    if charsaveStored env server readpos datalen ∧ env.difficultyHack = true then
      if 100 ≤ charsaveLevel server.conn.readBuf readpos ∧
          getdataFile (env.reading (server.calls + 1)) charinfoSize ≠ [] then
        charsaveGfxOffset + 11
      else charsaveLevelOffset + 1
    else d2charsaveChecksumOffset + 4
  else if datatype = d2gsDataPortrait ∧ env.difficultyHack = true
    then charinfoSummaryLevelOffset + 4
  else 0

section Ends
variable (env : Environment) (server : Server)

theorem savedata_file_end (data : Text) :
    (savedataFile env server data).2.readEnd = server.readEnd ∧
    (savedataFile env server data).2.conn = server.conn ∧
    (savedataFile env server data).2.locks = server.locks ∧
    (savedataFile env server data).2.calls = server.calls + 1 ∧
    ((savedataFile env server data).1 ≠ 0 ↔
      written (env.writing server.calls) data.length = true) := by
  simp only [savedataFile, written]
  cases (env.writing server.calls).opened <;> cases (env.writing server.calls).renamed <;>
    cases fwriteLoop (env.writing server.calls) data.length 0 <;> simp [Nat.pos_iff_ne_zero]

variable (readpos : Nat)

theorem savedata_charsave_end (datalen : Nat)
    (room : readpos + datalen ≤ server.conn.readBuf.length) :
    (dbsPacketSavedataCharsave env server readpos datalen).2.readEnd =
      max (max server.readEnd (readpos + d2charsaveChecksumOffset + 4)) (readpos + datalen) ∧
    (dbsPacketSavedataCharsave env server readpos datalen).2.conn = server.conn ∧
    (dbsPacketSavedataCharsave env server readpos datalen).2.locks = server.locks ∧
    ((dbsPacketSavedataCharsave env server readpos datalen).1 ≠ 0 ↔
      charsaveStored env server readpos datalen) ∧
    (charsaveStored env server readpos datalen →
      (dbsPacketSavedataCharsave env server readpos datalen).2.calls = server.calls + 1) := by
  have length : (dataAt server readpos datalen).length = datalen := by
    rw [dataAt, length_take, length_drop]
    omega
  obtain ⟨fileEnd, fileConn, fileLocks, fileCalls, stored⟩ := savedata_file_end env
    (touch (touch server (readpos + d2charsaveChecksumOffset + 4)) (readpos + datalen))
    (dataAt server readpos datalen)
  rw [length] at stored
  have unfolded : dbsPacketSavedataCharsave env server readpos datalen =
      if bnIntGet server.conn.readBuf (readpos + d2charsaveChecksumOffset) ≠
        d2charsaveChecksum (dataAt server readpos datalen) d2charsaveChecksumOffset then
        (0, touch (touch server (readpos + d2charsaveChecksumOffset + 4)) (readpos + datalen))
      else savedataFile env (touch (touch server (readpos + d2charsaveChecksumOffset + 4))
        (readpos + datalen)) (dataAt server readpos datalen) := rfl
  rw [unfolded, charsaveStored]
  by_cases right : bnIntGet server.conn.readBuf (readpos + d2charsaveChecksumOffset) =
      d2charsaveChecksum (dataAt server readpos datalen) d2charsaveChecksumOffset
  · rw [if_neg (by simpa using right)]
    exact ⟨fileEnd, fileConn, fileLocks, by simpa [right] using stored, fun _ => fileCalls⟩
  · rw [if_pos right]
    exact ⟨rfl, rfl, rfl, by simp [right], fun kept => absurd kept.1 right⟩

theorem fix_charinfo_end :
    (dbsPacketFixCharinfo env server readpos).2.readEnd = (if env.difficultyHack = true then
      if 100 ≤ charsaveLevel server.conn.readBuf readpos ∧
          getdataFile (env.reading server.calls) charinfoSize ≠ [] then
        max server.readEnd (readpos + charsaveGfxOffset + 11)
      else max server.readEnd (readpos + charsaveLevelOffset + 1) else server.readEnd) ∧
    (dbsPacketFixCharinfo env server readpos).2.conn = server.conn ∧
    (dbsPacketFixCharinfo env server readpos).2.locks = server.locks := by
  rw [dbsPacketFixCharinfo]
  by_cases hack : env.difficultyHack = true
  · simp only [if_pos hack]
    split
    · rename_i low
      rw [touch_conn] at low
      rw [if_neg (by omega)]
      exact ⟨rfl, rfl, rfl⟩
    rename_i high
    rw [touch_conn] at high
    split
    · rename_i unread
      have empty : getdataFile (env.reading server.calls) charinfoSize = [] :=
        length_eq_zero_iff.mp unread
      rw [if_neg (by simp [empty])]
      exact ⟨rfl, rfl, rfl⟩
    rename_i loaded
    have some : getdataFile (env.reading server.calls) charinfoSize ≠ [] :=
      fun empty => loaded (length_eq_zero_iff.mpr empty)
    rw [if_pos ⟨by omega, some⟩]
    obtain ⟨fileEnd, fileConn, fileLocks, -⟩ := savedata_file_end env
      (touch { touch server (readpos + charsaveLevelOffset + 1) with
        calls := server.calls + 1 } (readpos + charsaveGfxOffset + 11))
      (fixedCharinfo server.conn.readBuf readpos (fillCharinfo env
        (touch server (readpos + charsaveLevelOffset + 1))
        (getdataFile (env.reading server.calls) charinfoSize)))
    refine ⟨fileEnd.trans ?_, fileConn, fileLocks⟩
    simp only [touch_end, charsaveLevelOffset, charsaveGfxOffset]
    omega
  · rw [if_neg hack, if_neg hack]
    exact ⟨rfl, rfl, rfl⟩

theorem overwrite_length (data : List UInt8) (offset : Nat) (bytes : List UInt8)
    (room : offset + bytes.length ≤ data.length) :
    (overwrite data offset bytes).length = data.length := by
  simp only [overwrite, length_append, length_take, length_drop]
  omega

theorem set_charinfo_level_end
    (room : readpos + charinfoSummaryLevelOffset + 4 ≤ server.conn.readBuf.length) :
    (dbsPacketSetCharinfoLevel env server readpos).readEnd = (if env.difficultyHack = true then
      max server.readEnd (readpos + charinfoSummaryLevelOffset + 4) else server.readEnd) ∧
    (dbsPacketSetCharinfoLevel env server readpos).locks = server.locks ∧
    (dbsPacketSetCharinfoLevel env server readpos).conn.readBuf.length =
      server.conn.readBuf.length ∧
    (dbsPacketSetCharinfoLevel env server readpos).conn.nCharsInReadBuffer =
      server.conn.nCharsInReadBuffer := by
  simp only [charinfoSummaryLevelOffset] at room
  rw [dbsPacketSetCharinfoLevel]
  split
  · dsimp only
    split
    · refine ⟨rfl, rfl, ?_, rfl⟩
      have level : (bnBytes 1 255).length = 1 := by rw [bnBytes, Bytes.little_endian_length]
      have summary : (bnBytes 4 255).length = 4 := by rw [bnBytes, Bytes.little_endian_length]
      have first := overwrite_length server.conn.readBuf (readpos + charinfoPortraitLevelOffset)
        (bnBytes 1 255) (by rw [level, charinfoPortraitLevelOffset]; omega)
      exact (overwrite_length _ _ _ (by
        rw [touch_conn, first, summary, charinfoSummaryLevelOffset]
        omega)).trans
        first
    · exact ⟨rfl, rfl, rfl, rfl⟩
  · exact ⟨rfl, rfl, rfl, rfl⟩

theorem save_char_data_end (datatype readpos datalen size : Nat) (whole : readpos + datalen = size)
    (inside : size ≤ server.conn.readBuf.length)
    (room : readpos + charinfoSummaryLevelOffset + 4 ≤ server.conn.readBuf.length)
    (before : server.readEnd ≤ readpos) :
    ((saveCharData env server datatype readpos datalen).2.readEnd ≤ size ↔
      dataNeeded env server datatype readpos datalen ≤ datalen) ∧
    (saveCharData env server datatype readpos datalen).2.locks = server.locks ∧
    (saveCharData env server datatype readpos datalen).2.conn.readBuf.length =
      server.conn.readBuf.length ∧
    (saveCharData env server datatype readpos datalen).2.conn.nCharsInReadBuffer =
      server.conn.nCharsInReadBuffer := by
  rw [saveCharData, dataNeeded]
  by_cases charsave : datatype = d2gsDataCharsave
  · obtain ⟨savedEnd, savedConn, savedLocks, stored, calls⟩ :=
      savedata_charsave_end env server readpos
      datalen (by omega)
    rw [if_pos charsave, if_pos charsave]
    simp only []
    by_cases unsaved : (dbsPacketSavedataCharsave env server readpos datalen).1 = 0
    · rw [if_pos unsaved, if_neg (by tauto)]
      refine ⟨?_, savedLocks, by rw [savedConn], by rw [savedConn]⟩
      rw [savedEnd, d2charsaveChecksumOffset]
      omega
    rw [if_neg unsaved]
    have kept := stored.mp unsaved
    obtain ⟨fixedEnd, fixedConn, fixedLocks⟩ := fix_charinfo_end env
      (dbsPacketSavedataCharsave env server readpos datalen).2 readpos
    refine ⟨?_, fixedLocks.trans savedLocks, by rw [fixedConn, savedConn],
      by rw [fixedConn, savedConn]⟩
    rw [fixedEnd, savedEnd, savedConn, calls kept]
    by_cases hack : env.difficultyHack = true
    · have read : charsaveStored env server readpos datalen ∧ env.difficultyHack = true :=
        ⟨kept, hack⟩
      rw [if_pos hack, if_pos read]
      split <;> simp only [d2charsaveChecksumOffset, charsaveGfxOffset, charsaveLevelOffset] <;>
        omega
    · rw [if_neg hack, if_neg (by tauto), d2charsaveChecksumOffset]
      omega
  · rw [if_neg charsave, if_neg charsave]
    by_cases portrait : datatype = d2gsDataPortrait
    · obtain ⟨levelEnd, levelLocks, levelLength, levelFilled⟩ := set_charinfo_level_end env server
        readpos room
      obtain ⟨fileEnd, fileConn, fileLocks, -⟩ := savedata_file_end env
        (touch (dbsPacketSetCharinfoLevel env server readpos) (readpos + datalen))
        (dataAt (dbsPacketSetCharinfoLevel env server readpos) readpos datalen)
      rw [if_pos portrait]
      refine ⟨?_, fileLocks.trans levelLocks,
        (congrArg (·.readBuf.length) fileConn).trans levelLength,
        (congrArg (·.nCharsInReadBuffer) fileConn).trans levelFilled⟩
      change (savedataFile env _ _).2.readEnd ≤ size ↔ _
      rw [touch_data, fileEnd, touch_end, levelEnd]
      by_cases hack : env.difficultyHack = true
      · rw [if_pos hack, if_pos ⟨portrait, hack⟩, charinfoSummaryLevelOffset]
        omega
      · rw [if_neg hack, if_neg (by tauto)]
        omega
    · rw [if_neg portrait, if_neg (by tauto)]
      refine ⟨?_, rfl, rfl, rfl⟩
      simp only [zero_le, iff_true]
      omega

end Ends

/-- A packet is read within its bounds: the names end inside it, an echo has a whole header, and the
data of a save request is as long as what is read of it. -/
structure PacketSound (env : Environment) (server : Server) : Prop where
  names : ∀ start limits, requestNames (bnShortGet server.conn.readBuf 2) = some (start, limits) →
    namesEnd server.conn.readBuf start limits ≤ bnShortGet server.conn.readBuf 0
  header : bnShortGet server.conn.readBuf 2 = d2gsD2dbsEchoreply →
    8 ≤ bnShortGet server.conn.readBuf 0
  data : bnShortGet server.conn.readBuf 2 = d2gsD2dbsSaveDataRequest → ∀ readpos datalen,
    namesOf server.conn.readBuf sizeofSaveDataRequest
      [maxUsernameLen, maxCharnameLen, maxRealmnameLen] ≠ none →
    readpos = namesEnd server.conn.readBuf sizeofSaveDataRequest
      [maxUsernameLen, maxCharnameLen, maxRealmnameLen] →
    datalen = bnShortGet server.conn.readBuf 10 →
    readpos + datalen = bnShortGet server.conn.readBuf 0 →
    dataNeeded env server (bnShortGet server.conn.readBuf 8) readpos datalen ≤ datalen

/-- What the fixed arrays and the lock table promise. -/
structure Valid (server : Server) : Prop where
  room : server.conn.readBuf.length = kBufferSize
  filled : server.conn.nCharsInReadBuffer ≤ kBufferSize
  locks : ∃ chains queues, Holds server.locks chains queues

section Handlers
variable (env : Environment) (server : Server)

/-- A packet was handled inside its bounds, and a packet that is taken out has at least a header. -/
def Inside (size : Nat) (retval : Int) (after : Server) : Prop :=
  after.readEnd ≤ size ∧ (retval = 1 → 8 ≤ size)

theorem three_names (buf : List UInt8) (readpos first second third : Nat) :
    namesOf buf readpos [first, second, third] = none ∨ ∃ one two three,
      namesOf buf readpos [first, second, third] = some [one, two, three] ∧
      two.length < second := by
  cases found : namesOf buf readpos [first, second, third] with
  | none => exact .inl rfl
  | some names =>
    right
    rcases names_short buf readpos _ found with _ | ⟨-, _ | ⟨short, _ | ⟨-, _ | _⟩⟩⟩
    exact ⟨_, _, _, rfl, short⟩

theorem two_names (buf : List UInt8) (readpos first second : Nat) :
    namesOf buf readpos [first, second] = none ∨ ∃ one two,
      namesOf buf readpos [first, second] = some [one, two] := by
  cases found : namesOf buf readpos [first, second] with
  | none => exact .inl rfl
  | some names =>
    right
    rcases names_short buf readpos _ found with _ | ⟨-, _ | ⟨-, _ | _⟩⟩
    exact ⟨_, _, rfl⟩

theorem queue_reply_kept (writelen : Nat) (reply : Reply) :
    (queueReply server writelen reply).2.readEnd = server.readEnd ∧
    (queueReply server writelen reply).2.locks = server.locks ∧
    (queueReply server writelen reply).2.conn.readBuf = server.conn.readBuf ∧
    (queueReply server writelen reply).2.conn.nCharsInReadBuffer =
      server.conn.nCharsInReadBuffer := by
  rw [queueReply]
  split <;> exact ⟨rfl, rfl, rfl, rfl⟩

theorem savedata_inside (valid : Valid server) (start : server.readEnd = 0)
    (whole : bnShortGet server.conn.readBuf 0 ≤ server.conn.nCharsInReadBuffer)
    (request : bnShortGet server.conn.readBuf 2 = d2gsD2dbsSaveDataRequest) :
    (Inside (bnShortGet server.conn.readBuf 0) (dbsPacketSavedata env server).1
      (dbsPacketSavedata env server).2 ↔ PacketSound env server) ∧
    (dbsPacketSavedata env server).2.locks = server.locks ∧
    (dbsPacketSavedata env server).2.conn.readBuf.length = server.conn.readBuf.length ∧
    (dbsPacketSavedata env server).2.conn.nCharsInReadBuffer = server.conn.nCharsInReadBuffer := by
  let limits := [maxUsernameLen, maxCharnameLen, maxRealmnameLen]
  obtain ⟨finish, finishDef⟩ : ∃ finish,
    namesEnd server.conn.readBuf sizeofSaveDataRequest limits = finish := ⟨_, rfl⟩
  have past : sizeofSaveDataRequest < finish := finishDef ▸ names_end_past _ _ _ _ (by decide)
  have most : finish ≤ sizeofSaveDataRequest + limits.sum := finishDef ▸ names_end_most _ _ _
  have total : sizeofSaveDataRequest + limits.sum = 76 := by decide
  have twelve : sizeofSaveDataRequest = 12 := rfl
  have read := read_names (touch server sizeofSaveDataRequest) sizeofSaveDataRequest limits
    (.inl (by simp))
  rw [touch_conn, finishDef, touch_twice, max_eq_right past.le] at read
  have sound : PacketSound env server ↔ finish ≤ bnShortGet server.conn.readBuf 0 ∧
      (namesOf server.conn.readBuf sizeofSaveDataRequest limits ≠ none →
        finish + bnShortGet server.conn.readBuf 10 = bnShortGet server.conn.readBuf 0 →
        dataNeeded env server (bnShortGet server.conn.readBuf 8) finish
          (bnShortGet server.conn.readBuf 10) ≤ bnShortGet server.conn.readBuf 10) := by
    subst finishDef
    constructor
    · exact fun sound => ⟨sound.names _ _ (by rw [request]; rfl), fun named =>
        sound.data request _ _ named rfl rfl⟩
    rintro ⟨names, data⟩
    refine ⟨?_, by simp [request, d2gsD2dbsSaveDataRequest, d2gsD2dbsEchoreply], ?_⟩
    · rw [request]
      rintro start limits found
      cases found
      exact names
    · rintro - readpos datalen named rfl rfl
      exact data named
  rw [sound, dbsPacketSavedata, read]
  rcases three_names server.conn.readBuf sizeofSaveDataRequest maxUsernameLen maxCharnameLen
    maxRealmnameLen with failed | ⟨accountName, charName, realmName, found, -⟩
  · have none : namesOf server.conn.readBuf sizeofSaveDataRequest limits = none := failed
    rw [none]
    simp [Inside, start]
  have some : namesOf server.conn.readBuf sizeofSaveDataRequest limits =
    some [accountName, charName, realmName] := found
  rw [some]
  simp only [map_some]
  by_cases fits : finish + bnShortGet server.conn.readBuf 10 = bnShortGet server.conn.readBuf 0
  · obtain ⟨dataEnd, dataLocks, dataLength, dataFilled⟩ := save_char_data_end env
      (touch server finish) (bnShortGet server.conn.readBuf 8) finish
      (bnShortGet server.conn.readBuf 10) (bnShortGet server.conn.readBuf 0) fits
      (by rw [touch_conn, valid.room]; exact whole.trans valid.filled)
      (by rw [touch_conn, valid.room, charinfoSummaryLevelOffset, kBufferSize]; omega)
      (by rw [touch_end, start]; omega)
    have same : dataNeeded env (touch server finish) = dataNeeded env server := rfl
    rw [same] at dataEnd
    rw [if_neg (by simpa using fits)]
    simp only [reduceCtorEq, not_false_eq_true, ne_eq, true_imp_iff]
    generalize saveCharData env (touch server finish) (bnShortGet server.conn.readBuf 8) finish
      (bnShortGet server.conn.readBuf 10) = saved at dataEnd dataLocks dataLength dataFilled ⊢
    rcases saved with ⟨_ | result, after⟩
    · refine ⟨?_, dataLocks, dataLength, dataFilled⟩
      simp only [Inside, Int.reduceNeg]
      rw [dataEnd]
      omega
    obtain ⟨replyEnd, replyLocks, replyBuf, replyFilled⟩ := queue_reply_kept after
      (sizeofSaveDataReply + charName.length + 1)
      (.saveData (sizeofSaveDataReply + charName.length + 1) (bnIntGet server.conn.readBuf 4)
        (bnShortGet server.conn.readBuf 8) result (charName.map tolower))
    refine ⟨?_, replyLocks.trans dataLocks, (congrArg length replyBuf).trans dataLength,
      replyFilled.trans dataFilled⟩
    rw [Inside, replyEnd, dataEnd]
    omega
  · rw [if_pos fits]
    simp only [Inside, touch_end, ne_eq, reduceCtorEq, not_false_eq_true, true_imp_iff]
    refine ⟨⟨fun inside => ⟨by omega, fun wrong => absurd wrong fits⟩, fun sound =>
      ⟨by omega, ?_⟩⟩,
      rfl, rfl, rfl⟩
    omega
end Handlers

section Locking
variable (env : Environment) (server : Server)

def charsaveData : Text := getdataFile (env.reading server.calls) kBufferSize
def charinfoData : Text := getdataFile (env.reading (server.calls + 1)) charinfoSize

def FilesRead : Prop := charsaveData env server ≠ [] ∧ charinfoData env server ≠ []

def Fresh : Prop := ∀ memory, load memory (env.address memory) = none

def lockOf (charName realmName : Text) : Operation :=
  .lock (env.address server.locks.memory) charName realmName server.conn.serverid

theorem tolower_shape : ∀ value < 256,
    tolower (tolower (UInt8.ofNat value)) = tolower (UInt8.ofNat value) := by
  decide +kernel

theorem tolower_twice (name : Text) : (name.map tolower).map tolower = name.map tolower := by
  rw [List.map_map]
  congr 1
  funext byte
  have shape := tolower_shape byte.toNat byte.toNat_lt
  simpa only [UInt8.ofNat_toNat, comp_apply] using shape

theorem settle_unlock_lower (locks : Locks) (name : Text) (gsid : UInt32) :
    settle locks (.unlock (name.map tolower) gsid) = settle locks (.unlock name gsid) := by
  simp only [settle, tolower_twice]

variable {chains queues : Nat → List Nat} {locks : Locks}

theorem read_locked_locks (holds : Holds server.locks chains queues)
    (represents : Represents server.locks locks) {charName : Text}
    (short : charName.length < CharLock.maxCharnameLen) (gsid : UInt32) :
    ∃ loaded after, readLocked env server charName gsid = some (loaded, after) ∧
      after.conn = server.conn ∧ after.readEnd = server.readEnd ∧
      (∃ chains queues, Holds after.locks chains queues) ∧ loaded.charName = charName.map tolower ∧
      ((FilesRead env server ∧ loaded.result = d2dbsGetDataSuccess ∧
        loaded.data = charsaveData env server ∧ Represents after.locks locks) ∨
      (¬ FilesRead env server ∧ loaded.result = d2dbsGetDataFailed ∧
        Represents after.locks (settle locks (.unlock charName gsid)))) := by
  have lowerShort : (charName.map tolower).length < CharLock.maxCharnameLen := by simpa using short
  obtain ⟨unlocked, chainsAfter, queuesAfter, ran, holdsAfter, representsAfter⟩ :=
    settle_represented holds represents (.unlock (charName.map tolower) gsid) lowerShort
  rw [settle_unlock_lower] at representsAfter
  change clUnlockChar server.locks (charName.map tolower) gsid = some (0, unlocked) at ran
  rw [readLocked]
  simp only [length_eq_zero_iff, ran, bind_eq_bind]
  split
  · next empty =>
    exact ⟨_, _, rfl, rfl, rfl, ⟨_, _, holdsAfter⟩, rfl,
      .inr ⟨fun read => read.1 empty, rfl, representsAfter⟩⟩
  next full =>
  split
  · next unread =>
    exact ⟨_, _, rfl, rfl, rfl, ⟨_, _, holdsAfter⟩, rfl,
      .inr ⟨fun read => read.2 unread, rfl, representsAfter⟩⟩
  · next read =>
    exact ⟨_, _, rfl, rfl, rfl, ⟨_, _, holds⟩, rfl, .inl ⟨⟨full, read⟩, rfl, rfl, represents⟩⟩

/-- A character that is locked stays as it is; a free one is locked, and after a failed read
unlocked for the server that the variable `gsid` names. -/
theorem load_charsave_locks (fresh : Fresh env) (holds : Holds server.locks chains queues)
    (represents : Represents server.locks locks) {charName : Text}
    (short : charName.length < CharLock.maxCharnameLen) (realmName : Text) :
    ∃ loaded after, loadCharsave env server charName realmName = some (loaded, after) ∧
      after.conn = server.conn ∧ after.readEnd = server.readEnd ∧
      (∃ chains queues, Holds after.locks chains queues) ∧
      loaded.charName.length = charName.length ∧
      ((locks (charName.map tolower) ≠ none ∧ loaded.result = d2dbsGetDataCharlocked ∧
        Represents after.locks locks) ∨
      (locks (charName.map tolower) = none ∧ FilesRead env server ∧
        loaded.result = d2dbsGetDataSuccess ∧ loaded.data = charsaveData env server ∧
        Represents after.locks (settle locks (lockOf env server charName realmName))) ∨
      (locks (charName.map tolower) = none ∧ ¬ FilesRead env server ∧
        loaded.result = d2dbsGetDataFailed ∧
        Represents after.locks (settle (settle locks (lockOf env server charName realmName))
          (.unlock charName (env.stack server.calls).gsid)))) := by
  rw [loadCharsave]
  rcases holds.query_locked charName short with ⟨owner, locked, answer⟩ | ⟨free, answer⟩
  · have owned := (represents _ owner).mpr locked
    simp only [answer, bind_eq_bind, bind_some]
    rw [if_pos (by decide)]
    exact ⟨_, _, rfl, rfl, rfl, ⟨_, _, holds⟩, rfl, .inl ⟨by simp [owned], rfl, represents⟩⟩
  have unowned : locks (charName.map tolower) = none :=
    eq_none_iff_forall_ne_some.mpr fun gsid owned =>
      free gsid ((represents _ gsid).mp owned)
  obtain ⟨taken, chainsAfter, queuesAfter, ran, holdsAfter, representsAfter⟩ :=
    settle_represented holds represents (lockOf env server charName realmName)
      ⟨short, fresh server.locks.memory⟩
  change clLockChar server.locks (env.address server.locks.memory) charName realmName
    server.conn.serverid = some (0, taken) at ran
  obtain ⟨loaded, after, read, conn, readEnd, holdsLast, name, outcome⟩ := read_locked_locks env
    { server with locks := taken } holdsAfter representsAfter short (env.stack server.calls).gsid
  simp only [answer, bind_eq_bind, bind_some]
  rw [if_neg (by decide)]
  simp only [ran, bind_some]
  rw [if_neg (by decide)]
  refine ⟨loaded, after, read, conn, readEnd, holdsLast, by simp [name], .inr ?_⟩
  rcases outcome with ⟨files, result, data, last⟩ | ⟨files, result, last⟩
  · exact .inl ⟨unowned, files, result, data, last⟩
  · exact .inr ⟨unowned, files, result, last⟩
end Locking

structure CharsaveRequest (server : Server) (accountName charName realmName : Text) : Prop where
  names : namesOf server.conn.readBuf sizeofGetDataRequest
    [maxUsernameLen, maxCharnameLen, maxRealmnameLen] = some [accountName, charName, realmName]
  size : namesEnd server.conn.readBuf sizeofGetDataRequest
    [maxUsernameLen, maxCharnameLen, maxRealmnameLen] = bnShortGet server.conn.readBuf 0
  datatype : bnShortGet server.conn.readBuf 8 = d2gsDataCharsave

section Getdata
variable {env : Environment} {server : Server} {locks : Locks} {chains queues : Nat → List Nat}
  {accountName charName realmName : Text}

section
variable (free : locks (charName.map tolower) = none)
include free

theorem settle_lock :
    settle locks (lockOf env server charName realmName) =
      update locks (charName.map tolower) (some server.conn.serverid) := by
  funext key
  by_cases here : key = charName.map tolower
  · subst here
    simp [settle, lockOf, free]
  · simp [settle, lockOf, here]

end

theorem request_short (request : CharsaveRequest server accountName charName realmName) :
    charName.length < CharLock.maxCharnameLen := by
  rcases three_names server.conn.readBuf sizeofGetDataRequest maxUsernameLen maxCharnameLen
    maxRealmnameLen with failed | ⟨one, two, three, found, short⟩
  · rw [request.names] at failed
    cases failed
  · rw [request.names] at found
    cases found
    exact short

theorem getdata_request (request : CharsaveRequest server accountName charName realmName)
    {loaded : Loaded} {after : Server}
    (ran : loadCharsave env (touch server (bnShortGet server.conn.readBuf 0)) charName realmName =
      some (loaded, after)) :
    dbsPacketGetdata env server =
      some (getdataReply env after (bnIntGet server.conn.readBuf 4) d2gsDataCharsave loaded) := by
  have past : sizeofGetDataRequest < bnShortGet server.conn.readBuf 0 :=
    request.size ▸ names_end_past _ _ _ _ (by decide)
  have read := read_names (touch server sizeofGetDataRequest) sizeofGetDataRequest
    [maxUsernameLen, maxCharnameLen, maxRealmnameLen] (.inl (by simp))
  rw [touch_conn, request.size, request.names, touch_twice, max_eq_right past.le] at read
  rw [dbsPacketGetdata, read]
  simp only [map_some, ne_eq, not_true_eq_false, if_false, request.datatype, if_true, ran,
    bind_eq_bind, bind_some]

theorem getdata_reply_cases (env : Environment) (server : Server) (seqno : UInt32) (datatype : Nat)
    (loaded : Loaded) :
    (kBufferSize < server.conn.nCharsInWriteBuffer + (loaded.data.length + sizeofGetDataReply +
      loaded.charName.length + 1) ∧ getdataReply env server seqno datatype loaded = (0, server)) ∨
    (server.conn.nCharsInWriteBuffer + (loaded.data.length + sizeofGetDataReply +
      loaded.charName.length + 1) ≤ kBufferSize ∧
      ∃ after size charcreatetime allowladder,
        getdataReply env server seqno datatype loaded = (1, after) ∧
        after.locks = server.locks ∧
        after.conn.writeBuf = server.conn.writeBuf ++ [.getData size seqno datatype loaded.result
          loaded.data.length charcreatetime allowladder loaded.charName loaded.data]) := by
  simp only [getdataReply, queueReply]
  split
  · rename_i full
    exact .inl ⟨full, rfl⟩
  · rename_i room
    exact .inr ⟨by omega, _, _, _, _, rfl, rfl, rfl⟩

end Getdata

section Dispatch
variable {env : Environment} {server : Server}

theorem names_sound (start : Nat) (limits : List Nat)
    (request : requestNames (bnShortGet server.conn.readBuf 2) = some (start, limits))
    (other : bnShortGet server.conn.readBuf 2 ≠ d2gsD2dbsSaveDataRequest) :
    PacketSound env server ↔
      namesEnd server.conn.readBuf start limits ≤ bnShortGet server.conn.readBuf 0 := by
  refine ⟨fun sound => sound.names start limits request, fun names => ⟨?_, ?_, fun save => ?_⟩⟩
  · intro otherStart otherLimits found
    rw [request] at found
    cases found
    exact names
  · intro echo
    rw [echo] at request
    simp [requestNames, d2gsD2dbsEchoreply, d2gsD2dbsSaveDataRequest, d2gsD2dbsGetDataRequest,
      d2gsD2dbsUpdateLadder, d2gsD2dbsCharLock] at request
  · exact absurd save other

structure Kept (server after : Server) : Prop where
  locks : ∃ chains queues, Holds after.locks chains queues
  length : after.conn.readBuf.length = server.conn.readBuf.length
  filled : after.conn.nCharsInReadBuffer = server.conn.nCharsInReadBuffer

/-- A packet that unlocks the character. -/
def Unlocks (buf : List UInt8) (key : Text) : Prop :=
  bnShortGet buf 2 = d2gsD2dbsCharLock ∧ bnIntGet buf 8 = 0 ∧ ∃ accountName charName realmName,
    namesOf buf sizeofCharLock [maxUsernameLen, maxCharnameLen, maxRealmnameLen] =
      some [accountName, charName, realmName] ∧ charName.map tolower = key

/-- Every lock stays, but for one of this server that the packet unlocks. -/
def Keeps (server after : Server) : Prop :=
  ∀ key owner, Locked server.locks key owner → Locked after.locks key owner ∨
    server.conn.serverid = owner ∧ Unlocks server.conn.readBuf key

theorem updateladder_inside (valid : Valid server) (start : server.readEnd = 0)
    (request : bnShortGet server.conn.readBuf 2 = d2gsD2dbsUpdateLadder) :
    (Inside (bnShortGet server.conn.readBuf 0) (dbsPacketUpdateladder server).1
      (dbsPacketUpdateladder server).2 ↔ PacketSound env server) ∧
    Kept server (dbsPacketUpdateladder server).2 ∧
    Keeps server (dbsPacketUpdateladder server).2 := by
  have past := names_end_past server.conn.readBuf sizeofUpdateLadder maxCharnameLen
    [maxRealmnameLen] (by decide)
  have header : 8 ≤ sizeofUpdateLadder := by decide
  rw [names_sound sizeofUpdateLadder [maxCharnameLen, maxRealmnameLen]
    (by rw [request]; rfl) (by rw [request]; decide)]
  rw [dbsPacketUpdateladder, read_names _ _ _ (.inl (by simp))]
  rcases two_names server.conn.readBuf sizeofUpdateLadder maxCharnameLen maxRealmnameLen with
    failed | ⟨charName, realmName, found⟩
  · rw [failed]
    exact ⟨by simp [Inside, start], ⟨valid.locks, rfl, rfl⟩, fun _ _ => .inl⟩
  rw [found]
  simp only [map_some]
  split
  · exact ⟨by simp [Inside, start], ⟨valid.locks, rfl, rfl⟩, fun _ _ => .inl⟩
  rename_i fits
  rw [not_ne_iff] at fits
  refine ⟨?_, ⟨valid.locks, rfl, rfl⟩, fun _ _ => .inl⟩
  simp only [Inside, touch_end]
  omega

theorem charlock_inside (fresh : Fresh env) (valid : Valid server) (start : server.readEnd = 0)
    (request : bnShortGet server.conn.readBuf 2 = d2gsD2dbsCharLock) :
    ∃ retval after, dbsPacketCharlock env server = some (retval, after) ∧
      (Inside (bnShortGet server.conn.readBuf 0) retval after ↔ PacketSound env server) ∧
      Kept server after ∧ Keeps server after := by
  have past := names_end_past server.conn.readBuf sizeofCharLock maxUsernameLen
    [maxCharnameLen, maxRealmnameLen] (by decide)
  have header : 8 ≤ sizeofCharLock := by decide
  rw [names_sound sizeofCharLock [maxUsernameLen, maxCharnameLen, maxRealmnameLen]
    (by rw [request]; rfl) (by rw [request]; decide)]
  rw [dbsPacketCharlock, read_names _ _ _ (.inl (by simp))]
  generalize namesEnd server.conn.readBuf sizeofCharLock _ = finish at past ⊢
  rcases three_names server.conn.readBuf sizeofCharLock maxUsernameLen maxCharnameLen
    maxRealmnameLen with failed | ⟨accountName, charName, realmName, found, short⟩
  · rw [failed]
    exact ⟨-1, _, rfl, by simp [Inside, start], ⟨valid.locks, rfl, rfl⟩, fun _ _ => .inl⟩
  rw [found]
  simp only [map_some]
  by_cases fits : finish = bnShortGet server.conn.readBuf 0
  · rw [if_neg (by simpa using fits)]
    obtain ⟨chains, queues, holds⟩ := valid.locks
    obtain ⟨locks, represents⟩ := represents_exists holds
    have inside (after : Server) (readEnd : after.readEnd = max finish sizeofCharLock) :
        Inside (bnShortGet server.conn.readBuf 0) 1 after ↔
          finish ≤ bnShortGet server.conn.readBuf 0 := by
      rw [Inside, readEnd]
      omega
    by_cases lockstatus : bnIntGet server.conn.readBuf 8 ≠ 0
    · obtain ⟨locked, chainsAfter, queuesAfter, ran, holdsAfter, moved⟩ :=
        settle_represented holds represents (lockOf env server charName realmName)
          ⟨short, fresh server.locks.memory⟩
      change clLockChar server.locks (env.address server.locks.memory) charName realmName
        server.conn.serverid = some (0, locked) at ran
      simp only [if_pos lockstatus, touch_locks, touch_conn, ran]
      refine ⟨1, _, rfl, inside _ (by simp [start]), ⟨⟨_, _, holdsAfter⟩, rfl, rfl⟩, ?_⟩
      exact fun key owner locked => .inl ((moved key owner).mp
        (by simp [settle, lockOf, (represents key owner).mpr locked]))
    · obtain ⟨unlocked, chainsAfter, queuesAfter, ran, holdsAfter, moved⟩ :=
        settle_represented holds represents (.unlock charName server.conn.serverid) short
      change clUnlockChar server.locks charName server.conn.serverid = some (0, unlocked) at ran
      simp only [if_neg lockstatus, touch_locks, touch_conn, ran]
      refine ⟨1, _, rfl, inside _ (by simp [start]), ⟨⟨_, _, holdsAfter⟩, rfl, rfl⟩, ?_⟩
      intro key owner locked
      have owned := (represents key owner).mpr locked
      by_cases released : key = charName.map tolower ∧ locks key = some server.conn.serverid
      · rw [owned, some.injEq] at released
        exact .inr ⟨released.2.symm, request, not_not.mp lockstatus, _, _, _, found,
          released.1.symm⟩
      · exact .inl ((moved key owner).mp ((if_neg released).trans owned))
  · rw [if_pos fits]
    exact ⟨-1, _, rfl, by simp [Inside, start], ⟨valid.locks, rfl, rfl⟩, fun _ _ => .inl⟩

theorem getdata_reply_kept (env : Environment) (after : Server) (seqno : UInt32) (datatype : Nat)
    (loaded : Loaded) :
    (getdataReply env after seqno datatype loaded).2.readEnd = after.readEnd ∧
    (getdataReply env after seqno datatype loaded).2.locks = after.locks ∧
    (getdataReply env after seqno datatype loaded).2.conn.readBuf = after.conn.readBuf ∧
    (getdataReply env after seqno datatype loaded).2.conn.nCharsInReadBuffer =
      after.conn.nCharsInReadBuffer := by
  rw [getdataReply]
  exact queue_reply_kept _ _ _

theorem getdata_inside (fresh : Fresh env) (valid : Valid server) (start : server.readEnd = 0)
    (request : bnShortGet server.conn.readBuf 2 = d2gsD2dbsGetDataRequest) :
    ∃ retval after, dbsPacketGetdata env server = some (retval, after) ∧
      (Inside (bnShortGet server.conn.readBuf 0) retval after ↔ PacketSound env server) ∧
      Kept server after ∧ Keeps server after := by
  have past := names_end_past server.conn.readBuf sizeofGetDataRequest maxUsernameLen
    [maxCharnameLen, maxRealmnameLen] (by decide)
  have header : 8 ≤ sizeofGetDataRequest := by decide
  rw [names_sound sizeofGetDataRequest [maxUsernameLen, maxCharnameLen, maxRealmnameLen]
    (by rw [request]; rfl) (by rw [request]; decide)]
  have read := read_names (touch server sizeofGetDataRequest) sizeofGetDataRequest
    [maxUsernameLen, maxCharnameLen, maxRealmnameLen] (.inl (by simp))
  rw [touch_conn, touch_twice, max_eq_right past.le] at read
  rw [dbsPacketGetdata, read]
  generalize namesEnd server.conn.readBuf sizeofGetDataRequest _ = finish at past ⊢
  rcases three_names server.conn.readBuf sizeofGetDataRequest maxUsernameLen maxCharnameLen
    maxRealmnameLen with failed | ⟨accountName, charName, realmName, found, short⟩
  · rw [failed]
    exact ⟨-1, _, rfl, by simp [Inside, start], ⟨valid.locks, rfl, rfl⟩, fun _ _ => .inl⟩
  rw [found]
  simp only [map_some]
  by_cases fits : finish = bnShortGet server.conn.readBuf 0
  · rw [if_neg (by simpa using fits)]
    have replied (after : Server) (seqno : UInt32) (datatype : Nat) (loaded : Loaded)
        (conn : after.conn = server.conn)
          (readEnd : after.readEnd = bnShortGet server.conn.readBuf 0)
        (locks : ∃ chains queues, Holds after.locks chains queues) (keeps : Keeps server after) :
        (Inside (bnShortGet server.conn.readBuf 0)
          (getdataReply env after seqno datatype loaded).1
          (getdataReply env after seqno datatype loaded).2 ↔
            finish ≤ bnShortGet server.conn.readBuf 0) ∧
          Kept server (getdataReply env after seqno datatype loaded).2 ∧
          Keeps server (getdataReply env after seqno datatype loaded).2 := by
      obtain ⟨replyEnd, replyLocks, replyBuf, replyFilled⟩ :=
        getdata_reply_kept env after seqno datatype loaded
      refine ⟨?_, ⟨replyLocks ▸ locks, by rw [replyBuf, conn], by rw [replyFilled, conn]⟩, ?_⟩
      case refine_2 => rwa [Keeps, replyLocks]
      rw [Inside, replyEnd, readEnd]
      omega
    have touched : (touch server finish).readEnd = bnShortGet server.conn.readBuf 0 := by
      rw [touch_end, start, fits, zero_max]
    by_cases charsave : bnShortGet server.conn.readBuf 8 = d2gsDataCharsave
    · obtain ⟨chains, queues, holds⟩ := valid.locks
      obtain ⟨locks, represents⟩ := represents_exists holds
      obtain ⟨loaded, after, ran, conn, readEnd, holdsAfter, -, moved⟩ := load_charsave_locks env
        (touch server finish) fresh holds represents short realmName
      simp only [if_pos charsave, ran]
      refine ⟨_, _, rfl, replied after _ _ loaded conn (readEnd.trans touched) holdsAfter ?_⟩
      -- the unlocking after a failed read is of the name that was just locked
      intro key owner locked
      have owned := (represents key owner).mpr locked
      rcases moved with ⟨-, -, moved⟩ | ⟨free, -, -, -, moved⟩ | ⟨free, -, -, moved⟩
      · exact .inl ((moved key owner).mp owned)
      all_goals
        have apart : key ≠ charName.map tolower := fun here => by
          rw [here, free] at owned
          cases owned
        exact .inl ((moved key owner).mp (by simp [settle, lockOf, apart, owned]))
    · rw [if_neg charsave]
      split
      · exact ⟨_, _, rfl, replied _ _ _ _ rfl touched valid.locks fun _ _ => .inl⟩
      · exact ⟨-1, _, rfl, by simp [Inside, start], ⟨valid.locks, rfl, rfl⟩, fun _ _ => .inl⟩
  · rw [if_pos fits]
    exact ⟨-1, _, rfl, by simp [Inside, start], ⟨valid.locks, rfl, rfl⟩, fun _ _ => .inl⟩

theorem dispatch_inside (fresh : Fresh env) (valid : Valid server) (start : server.readEnd = 0)
    (whole : bnShortGet server.conn.readBuf 0 ≤ server.conn.nCharsInReadBuffer) :
    ∃ retval after, dispatch env server = some (retval, after) ∧
      (Inside (bnShortGet server.conn.readBuf 0) retval after ↔ PacketSound env server) ∧
      Kept server after ∧ Keeps server after := by
  rw [dispatch]
  by_cases save : bnShortGet server.conn.readBuf 2 = d2gsD2dbsSaveDataRequest
  · obtain ⟨inside, locks, length, filled⟩ := savedata_inside env server valid start whole save
    rw [if_pos save]
    exact ⟨_, _, rfl, inside, ⟨locks ▸ valid.locks, length, filled⟩,
      fun _ _ locked => .inl (locks.symm ▸ locked)⟩
  rw [if_neg save]
  by_cases get : bnShortGet server.conn.readBuf 2 = d2gsD2dbsGetDataRequest
  · rw [if_pos get]
    exact getdata_inside fresh valid start get
  rw [if_neg get]
  by_cases ladder : bnShortGet server.conn.readBuf 2 = d2gsD2dbsUpdateLadder
  · rw [if_pos ladder]
    exact ⟨_, _, rfl, updateladder_inside valid start ladder⟩
  rw [if_neg ladder]
  by_cases lock : bnShortGet server.conn.readBuf 2 = d2gsD2dbsCharLock
  · rw [if_pos lock]
    exact charlock_inside fresh valid start lock
  rw [if_neg lock]
  have nameless : requestNames (bnShortGet server.conn.readBuf 2) = none := by
    simp [requestNames, save, get, ladder, lock]
  by_cases echo : bnShortGet server.conn.readBuf 2 = d2gsD2dbsEchoreply
  · rw [if_pos echo]
    refine ⟨_, _, rfl, ⟨fun inside => ?_, fun sound => ?_⟩,
      ⟨valid.locks, rfl, rfl⟩, fun _ _ => .inl⟩
    · exact ⟨by simp [nameless], fun _ => inside.2 rfl, fun wrong => absurd wrong save⟩
    · exact ⟨by simp [start], fun _ => sound.header echo⟩
  · rw [if_neg echo]
    refine ⟨-1, _, rfl, iff_of_true ⟨by simp [start], by simp⟩ ?_,
      ⟨valid.locks, rfl, rfl⟩, fun _ _ => .inl⟩
    exact ⟨by simp [nameless], fun wrong => absurd wrong echo, fun wrong => absurd wrong save⟩
end Dispatch

inductive Continues (env : Environment) (server : Server) : Server → Prop
  | start : Continues env server server
  | again {reached after : Server} (before : Continues env server reached)
      (goes : round env reached = some (.continues after)) : Continues env server after

def Looping (server : Server) : Prop :=
  server.conn.stats = 1 ∧ server.conn.type = connectClassD2gsToD2dbs

def Whole (server : Server) : Prop :=
  8 ≤ server.conn.nCharsInReadBuffer ∧
    bnShortGet server.conn.readBuf 0 ≤ server.conn.nCharsInReadBuffer

/-- The loop ends; a round that goes on takes a header at least and no more than was received; and
the handlers read inside the packet. -/
structure HandleSound (env : Environment) (server : Server) : Prop where
  ends : ∃ budget retval after, dbsPacketHandle env budget server = some (retval, after)
  removes : ∀ reached after, Looping server → Continues env server reached →
    round env reached = some (.continues after) → ∃ readlen, 8 ≤ readlen ∧
      readlen ≤ reached.conn.nCharsInReadBuffer ∧
      after.conn.nCharsInReadBuffer = reached.conn.nCharsInReadBuffer - readlen
  inside : ∀ reached, Looping server → Continues env server reached → Whole reached →
    ∃ retval after, dispatch env { reached with readEnd := 0 } = some (retval, after) ∧
      after.readEnd ≤ bnShortGet reached.conn.readBuf 0

section Loop
variable {env : Environment} {server : Server}

theorem sound_reset : PacketSound env { server with readEnd := 0 } ↔ PacketSound env server :=
  ⟨fun sound => ⟨sound.names, sound.header, sound.data⟩,
    fun sound => ⟨sound.names, sound.header, sound.data⟩⟩

theorem consume_length (conn : Connection) (readlen : Nat)
    (filled : conn.nCharsInReadBuffer ≤ conn.readBuf.length) :
    (consume conn readlen).readBuf.length = conn.readBuf.length := by
  rw [consume]
  refine overwrite_length _ _ _ ?_
  rw [length_take, length_drop]
  omega

theorem round_whole (fresh : Fresh env) (valid : Valid server) (whole : Whole server) :
    ∃ retval after, dispatch env { server with readEnd := 0 } = some (retval, after) ∧
      (Inside (bnShortGet server.conn.readBuf 0) retval after ↔ PacketSound env server) ∧
      (retval ≠ 1 → round env server = some (.ends retval after)) ∧
      (retval = 1 → ∃ final, round env server = some (.continues final) ∧ Valid final ∧
        final.conn.nCharsInReadBuffer =
          server.conn.nCharsInReadBuffer - bnShortGet server.conn.readBuf 0) := by
  obtain ⟨retval, after, ran, inside, kept, -⟩ := dispatch_inside fresh
    (show Valid { server with readEnd := 0 } from ⟨valid.room, valid.filled, valid.locks⟩)
    rfl whole.2
  rw [sound_reset] at inside
  have unfolded : round env server = if retval ≠ 1 then some (.ends retval after)
      else some (.continues { after with
        conn := consume after.conn (bnShortGet server.conn.readBuf 0) }) := by
    rw [round, if_neg (by have := whole.1; omega)]
    simp only [if_neg (Nat.not_lt.mpr whole.2), ran, bind_eq_bind, bind_some]
  refine ⟨retval, after, ran, inside, fun stops => by rw [unfolded, if_pos stops], fun goes => ?_⟩
  rw [unfolded, if_neg (by simpa using goes)]
  refine ⟨_, rfl, ⟨?_, ?_, kept.locks⟩, ?_⟩
  · have length := kept.length
    have filled := kept.filled
    simp only at length filled
    rw [consume_length _ _ (by rw [length, filled, valid.room]; exact valid.filled), length]
    exact valid.room
  · have filled := kept.filled
    simp only at filled
    simp only [consume, filled]
    exact (Nat.sub_le _ _).trans valid.filled
  · simp only [consume, kept.filled]

theorem round_incomplete (short : ¬ Whole server) : round env server = some (.ends 1 server) := by
  rw [round]
  split
  · rfl
  rename_i header
  simp only
  rw [if_pos]
  by_contra all
  exact short ⟨by omega, by omega⟩

theorem continues_valid (fresh : Fresh env) (valid : Valid server) {reached : Server}
    (reaches : Continues env server reached) : Valid reached := by
  induction reaches with
  | start => exact valid
  | @again reached after before goes ih =>
    by_cases whole : Whole reached
    · obtain ⟨retval, handled, -, -, stops, goesOn⟩ := round_whole fresh ih whole
      by_cases one : retval = 1
      · obtain ⟨final, ran, finalValid, -⟩ := goesOn one
        rw [goes] at ran
        cases ran
        exact finalValid
      · rw [goes] at stops
        cases stops one
    · rw [round_incomplete whole] at goes
      cases goes

/-- Every round takes at least a header, so the buffer bounds their number. -/
theorem rounds_end (fresh : Fresh env) (valid : Valid server)
    (sound : ∀ reached, Continues env server reached → Whole reached → PacketSound env reached) :
    ∃ budget retval after, rounds env budget server = some (retval, after) := by
  induction left : server.conn.nCharsInReadBuffer using Nat.strong_induction_on
    generalizing server with
  | _ count ih =>
    by_cases whole : Whole server
    · obtain ⟨retval, handled, -, inside, stops, goesOn⟩ := round_whole fresh valid whole
      by_cases one : retval = 1
      · obtain ⟨final, ran, finalValid, fewer⟩ := goesOn one
        have header := (inside.mpr (sound server .start whole)).2 one
        have later (reached : Server) (reach : Continues env final reached) :
            Continues env server reached := by
          induction reach with
          | start => exact .again .start ran
          | again before goes ih => exact .again ih goes
        obtain ⟨budget, result, after, done⟩ := ih final.conn.nCharsInReadBuffer
          (by have := whole.1; omega) finalValid
          (fun reached reach => sound reached (later reached reach)) rfl
        exact ⟨budget + 1, result, after, by simp [rounds, ran, done]⟩
      · exact ⟨1, retval, handled, by simp [rounds, stops one]⟩
    · exact ⟨1, 1, server, by simp [rounds, round_incomplete whole]⟩

/-- The loop is sound exactly when every packet that it comes to is. -/
theorem handle_sound_iff (fresh : Fresh env) (valid : Valid server) :
    HandleSound env server ↔ ∀ reached, Looping server → Continues env server reached →
      Whole reached → PacketSound env reached := by
  constructor
  · intro handle reached looping reach whole
    obtain ⟨retval, after, ran, inside, -, goesOn⟩ :=
      round_whole fresh (continues_valid fresh valid reach) whole
    obtain ⟨otherRetval, otherAfter, same, within⟩ := handle.inside reached looping reach whole
    rw [ran] at same
    cases same
    refine inside.mp ⟨within, fun one => ?_⟩
    obtain ⟨final, goes, -, left⟩ := goesOn one
    obtain ⟨readlen, header, most, removed⟩ := handle.removes reached final looping reach goes
    have := whole.2
    omega
  intro sound
  refine ⟨?_, ?_, ?_⟩
  · by_cases looping : Looping server
    · obtain ⟨budget, retval, after, done⟩ := rounds_end fresh valid
        fun reached reach => sound reached looping reach
      refine ⟨budget, retval, after, ?_⟩
      simp [dbsPacketHandle, looping.1, looping.2, done]
    refine ⟨0, ?_⟩
    simp only [dbsPacketHandle]
    split
    · split
      · exact ⟨_, _, rfl⟩
      · split <;> exact ⟨_, _, rfl⟩
    split
    · rename_i stats
      rw [if_neg fun type => looping ⟨stats, type⟩]
      exact ⟨_, _, rfl⟩
    · exact ⟨_, _, rfl⟩
  · intro reached after looping reach goes
    by_cases whole : Whole reached
    · obtain ⟨retval, handled, -, inside, stops, goesOn⟩ :=
        round_whole fresh (continues_valid fresh valid reach) whole
      by_cases one : retval = 1
      · obtain ⟨final, ran, -, left⟩ := goesOn one
        rw [goes] at ran
        cases ran
        exact ⟨_, (inside.mpr (sound reached looping reach whole)).2 one, whole.2, left⟩
      · rw [goes] at stops
        cases stops one
    · rw [round_incomplete whole] at goes
      cases goes
  · intro reached looping reach whole
    obtain ⟨retval, after, ran, inside, -⟩ :=
      round_whole fresh (continues_valid fresh valid reach) whole
    exact ⟨retval, after, ran, (inside.mpr (sound reached looping reach whole)).1⟩
end Loop

section Samples

def nextAddress (memory : Memory Charlockinfo) : Nat := memory.keys.sum + 1

theorem next_address_fresh (memory : Memory Charlockinfo) :
    load memory (nextAddress memory) = none := by
  by_contra used
  obtain ⟨cell, present⟩ := ne_none_iff_exists'.mp used
  have listed := allocated_key memory (nextAddress memory) cell present
  have bounded := single_le_sum (fun key _ => Nat.zero_le key) _ listed
  rw [nextAddress] at bounded
  omega

/-- Character files of one byte, or none; `gsid` is what the unset variable holds. -/
def sampleEnvironment (opened : Bool) (gsid : UInt32) : Environment where
  difficultyHack := false
  ladderinitTime := 0
  verified := true
  now := fun _ => 0
  address := nextAddress
  reading := fun _ => ⟨opened, some 1, fun _ _ => [65]⟩
  writing := fun _ => ⟨true, fun _ asked => asked, true⟩
  stack := fun _ => ⟨gsid, []⟩

theorem sample_fresh (opened : Bool) (gsid : UInt32) : Fresh (sampleEnvironment opened gsid) :=
  next_address_fresh

def sampleLocks : Charlock := ⟨3, 1, some [none, none, none], some [none], ∅⟩

theorem sample_locks : Holds sampleLocks (fun _ => []) (fun _ => []) ∧
    Represents sampleLocks fun _ => none :=
  init_holds (show clInit ⟨0, 0, none, none, ∅⟩ 3 1 = some (0, sampleLocks) from rfl) rfl

def sampleServer (bytes : List UInt8) (filled : Nat) : Server where
  conn := {
    type := connectClassD2gsToD2dbs
    stats := 1
    serverid := 1
    lastActive := 0
    nCharsInReadBuffer := filled
    nCharsInWriteBuffer := 0
    readBuf := bytes ++ replicate (kBufferSize - bytes.length) 0
    writeBuf := [] }
  locks := sampleLocks
  updates := []
  saved := []
  calls := 0
  readEnd := 0

theorem sample_valid (bytes : List UInt8) (filled : Nat) (short : bytes.length ≤ kBufferSize)
    (within : filled ≤ kBufferSize) : Valid (sampleServer bytes filled) := by
  refine ⟨?_, within, _, _, sample_locks.1⟩
  change (bytes ++ replicate (kBufferSize - bytes.length) 0).length = kBufferSize
  rw [length_append, length_replicate]
  omega

def charsaveBytes : List UInt8 := [16, 0, 0x31, 0, 1, 0, 0, 0, 1, 0, 97, 0, 98, 0, 99, 0]

theorem charsave_sample : CharsaveRequest (sampleServer charsaveBytes 16) [97] [98] [99] :=
  ⟨rfl, rfl, rfl⟩

theorem handle_sound_sample :
    HandleSound (sampleEnvironment true 7) (sampleServer [8, 0, 0x34, 0] 8) := by
  have valid := sample_valid [8, 0, 0x34, 0] 8 (by decide) (by decide)
  have reached (server : Server)
      (reach : Continues (sampleEnvironment true 7) (sampleServer [8, 0, 0x34, 0] 8) server) :
      server = sampleServer [8, 0, 0x34, 0] 8 ∨ server.conn.nCharsInReadBuffer < 8 := by
    induction reach with
    | start => exact .inl rfl
    | again before goes ih =>
      right
      rcases ih with first | short
      · subst first
        cases goes
        decide
      · rw [round_incomplete (fun whole => absurd whole.1 (by omega))] at goes
        cases goes
  refine (handle_sound_iff (sample_fresh true 7) valid).mpr fun server _ reach whole => ?_
  rcases reached server reach with first | short
  · subst first
    refine ⟨fun start limits names => ?_, fun _ => by decide, fun save => ?_⟩
    · cases names
    · cases save
  · exact absurd whole.1 (by omega)

/-- An echo reply with size 0 is taken out again and again. -/
theorem empty_echo_never_ends : Valid (sampleServer [0, 0, 0x34, 0] 8) ∧
    ¬ HandleSound (sampleEnvironment true 7) (sampleServer [0, 0, 0x34, 0] 8) := by
  refine ⟨sample_valid _ 8 (by decide) (by decide), ?_⟩
  intro handle
  have goes : round (sampleEnvironment true 7) (sampleServer [0, 0, 0x34, 0] 8) =
    some (.continues _) := rfl
  obtain ⟨readlen, header, most, left⟩ := handle.removes _ _ ⟨rfl, rfl⟩ .start goes
  have kept : 8 = 8 - readlen := left
  omega

end Samples

end Pvpgn.DbsPacket
