import Pvpgn.SqlEngine
import Pvpgn.IrcNames

/-!
The clans in an SQL database (`sql_common.cpp`). The message of the day is escaped before it is put
into a statement, and the name of the clan is not.
-/

namespace Pvpgn.SqlClans
open Stdio SqlText SqlEngine

def clanNameMax : Nat := 24
def clanMotdMax : Nat := 224
def querySize : Nat := 1024
def clanNew : Int8 := 0
def clanPeon : Int8 := 1

structure Member where
  uid : UInt32
  status : Int8
  joinTime : Int
  fullmember : Bool
  modified : Bool

structure Clan where
  clanid : UInt32
  tag : UInt32
  clanname : Text
  clanMotd : Text
  creationTime : Int
  members : List Member

/-- `std::time(NULL)` and `prefs_get_clan_newer_time`. -/
structure Clock where
  time : Int
  newerTime : UInt32

/-- The configured start of the table names. -/
structure TabPrefix where
  name : Text
  word : ∀ byte ∈ name, isWord byte = true
  short : name.length < 64

def TabPrefix.clan (tab : TabPrefix) : Text := tab.name ++ text "clan"

def TabPrefix.clanmember (tab : TabPrefix) : Text := tab.name ++ text "clanmember"

/-- `snprintf` into `query` -/
def snprintf (query : Text) : Text := query.take (querySize - 1)

/-- `%d` of an `unsigned int` -/
def printedInt (value : UInt32) : Text := signed value.toInt32.toInt

/-- `%u` of a `time_t` -/
def printedTime (time : Int) : Text := unsigned (UInt32.ofInt time).toNat

def countClan (tab : TabPrefix) (clanid : UInt32) : Text :=
  text "SELECT count(*) FROM " ++ (tab.clan ++ (text " WHERE cid='" ++
    (unsigned clanid.toNat ++ text "'")))

def insertClan (tab : TabPrefix) (clan : Clan) (escMotd : Text) : Text :=
  text "INSERT INTO " ++ (tab.clan ++
    (text " (cid, short, name, motd, creation_time) VALUES('" ++
      (unsigned clan.clanid.toNat ++ (text "', '" ++ (printedInt clan.tag ++ (text "', '" ++
        (clan.clanname ++ (text "', '" ++ (escMotd ++ (text "', '" ++
          (printedTime clan.creationTime ++ text "')")))))))))))

def updateClan (tab : TabPrefix) (clan : Clan) (escMotd : Text) : Text :=
  text "UPDATE " ++ (tab.clan ++ (text " SET short='" ++ (printedInt clan.tag ++
    (text "', name='" ++ (clan.clanname ++ (text "', motd='" ++ (escMotd ++
      (text "', creation_time='" ++ (printedTime clan.creationTime ++
        (text "' WHERE cid='" ++ (unsigned clan.clanid.toNat ++ text "'")))))))))))

def countMember (tab : TabPrefix) (uid : UInt32) : Text :=
  text "SELECT count(*) FROM " ++ (tab.clanmember ++ (text " WHERE uid='" ++
    (unsigned uid.toNat ++ text "'")))

def insertMember (tab : TabPrefix) (clanid : UInt32) (member : Member) : Text :=
  text "INSERT INTO " ++ (tab.clanmember ++ (text " (cid, uid, status, join_time) VALUES('" ++
    (unsigned clanid.toNat ++ (text "', '" ++ (unsigned member.uid.toNat ++ (text "', '" ++
      (signed member.status.toInt ++ (text "', '" ++ (printedTime member.joinTime ++
        text "')")))))))))

def updateMember (tab : TabPrefix) (clanid : UInt32) (member : Member) : Text :=
  text "UPDATE " ++ (tab.clanmember ++ (text " SET cid='" ++ (unsigned clanid.toNat ++
    (text "', status='" ++ (signed member.status.toInt ++ (text "', join_time='" ++
      (printedTime member.joinTime ++ (text "' WHERE uid='" ++ (unsigned member.uid.toNat ++
        text "'")))))))))

def firstValue (rows : List (List (Option Text))) : Option Text :=
  rows.head?.bind fun row => row.head?.bind id

/-- The database, and what was submitted to change it. -/
structure Session where
  database : Database
  submitted : List Text

def submitted (sql : Sql) (session : Session) (query : Text) : Session × Int :=
  let answer := submit sql session.database (snprintf query)
  (⟨answer.1, session.submitted ++ [snprintf query]⟩, answer.2.1)

/-- Whether a row is counted, or `none` when the count fails. -/
def counted (sql : Sql) (session : Session) (query : Text) : Option Bool := do
  let rows ← queryRes sql session.database (snprintf query)
  let field ← firstValue rows
  some (1 ≤ numeral field)

def promoted (clock : Clock) (member : Member) : Member :=
  if member.status = clanNew ∧
      ((clock.newerTime * 3600).toNat : Int) < clock.time - member.joinTime then
    { member with status := clanPeon, modified := true }
  else member

/-- One round of the loop of `sql_write_clan`; `false` is the return with -1. -/
def writeMember (sql : Sql) (tab : TabPrefix) (clock : Clock) (clanid : UInt32)
    (session : Session) (member : Member) : Session × Bool :=
  if !member.fullmember then (session, true)
  else if !(promoted clock member).modified then (session, true)
  else
    match counted sql session (countMember tab member.uid) with
    | none => (session, false)
    | some there =>
      let query :=
        if there then updateMember tab clanid (promoted clock member)
        else insertMember tab clanid (promoted clock member)
      ((submitted sql session query).1, 0 ≤ (submitted sql session query).2)

def writeMembers (sql : Sql) (tab : TabPrefix) (clock : Clock) (clanid : UInt32) :
    Session → List Member → Session × Int
  | session, [] => (session, 0)
  | session, member :: rest =>
    let (session, goes) := writeMember sql tab clock clanid session member
    if goes then writeMembers sql tab clock clanid session rest else (session, -1)

/-- `none` is a write behind `esc_motd`. -/
def sqlWriteClan (sql : Sql) (tab : TabPrefix) (clock : Clock) (database : Database)
    (clan : Clan) : Option (Session × Int) :=
  let session : Session := ⟨database, []⟩
  match counted sql session (countClan tab clan.clanid) with
  | none => some (session, -1)
  | some there =>
    if clanMotdMax * 2 + 1 < (sql.escape clan.clanMotd).length + 1 then none
    else
      let query :=
        if there then updateClan tab clan (sql.escape clan.clanMotd)
        else insertClan tab clan (sql.escape clan.clanMotd)
      if (submitted sql session query).2 < 0 then some ((submitted sql session query).1, -1)
      else
        some (writeMembers sql tab clock clan.clanid (submitted sql session query).1 clan.members)

structure Loaded where
  clanid : UInt32
  tag : UInt32
  clanname : Text
  clanMotd : Text
  creationTime : Int

def selectClans (tab : TabPrefix) : Text :=
  text "SELECT cid, short, name, motd, creation_time FROM " ++ (tab.clan ++ text " WHERE cid > 0")

def selectMembers (tab : TabPrefix) (clanid : UInt32) : Text :=
  text "SELECT uid, status, join_time FROM " ++ (tab.clanmember ++ (text " WHERE cid='" ++
    (unsigned clanid.toNat ++ text "'")))

inductive RowRead where
  /-- A value that is NULL where a string is read. -/
  | fault
  | nullCid
  | badCid
  | clan (loaded : Loaded)

def readRow : List (Option Text) → RowRead
  | some cid :: values =>
    if IrcNames.atoi cid = 0 then .badCid
    else
      match values with
      | [some short, some name, some motd, some creationTime] =>
        .clan ⟨IrcNames.atoi cid, IrcNames.atoi short, name, motd,
          (IrcNames.atoi creationTime).toInt32.toInt⟩
      | _ => .fault
  | _ => .nullCid

/-- The loop of `sql_load_clans`, with the clans that are given to the callback. -/
def loadRows (sql : Sql) (tab : TabPrefix) (database : Database) :
    List (List (Option Text)) → Option (List Loaded × Int)
  | [] => some ([], 0)
  | row :: rest =>
    match readRow row with
    | .fault => none
    | .nullCid => loadRows sql tab database rest
    | .badCid => some ([], -1)
    | .clan clan =>
      (loadRows sql tab database rest).map fun later =>
        if (queryRes sql database (snprintf (selectMembers tab clan.clanid))).isSome then
          (clan :: later.1, later.2)
        else later

def sqlLoadClans (sql : Sql) (tab : TabPrefix) (database : Database) :
    Option (List Loaded × Int) :=
  match queryRes sql database (snprintf (selectClans tab)) with
  | none => some ([], -1)
  | some rows => loadRows sql tab database rows

end Pvpgn.SqlClans
