import Pvpgn.DbsPacket

/-!
The character locks under the packets of several game servers: a character that was handed out is
not handed out again before its server has unlocked it or is gone.
-/

namespace Pvpgn.CharsaveLocks
open Stdio CharLock DbsPacket List Option Function
open PacketFraming (bnShortGet)

/-- What reaches the lock table: a packet of a game server, or the end of its connection. -/
inductive Event
  | packet (env : Environment) (server : Server)
  | gone (gsid : UInt32)

/-- One handler; the handlers of all connections work on one table. -/
inductive Handled : Charlock → Event → Charlock → Prop
  | packet {env : Environment} {server after : Server} {retval : Int} (fresh : Fresh env)
      (room : server.conn.readBuf.length = kBufferSize)
      (filled : server.conn.nCharsInReadBuffer ≤ kBufferSize) (start : server.readEnd = 0)
      (whole : bnShortGet server.conn.readBuf 0 ≤ server.conn.nCharsInReadBuffer)
      (ran : dispatch env server = some (retval, after)) :
      Handled server.locks (.packet env server) after.locks
  | gone {store after : Charlock} {gsid : UInt32}
      (ran : clUnlockAllCharByGsid store gsid = some after) : Handled store (.gone gsid) after

def Run (store : Charlock) : List Event → Charlock → Prop
  | [], last => last = store
  | event :: events, last => ∃ middle, Handled store event middle ∧ Run middle events last

def Releases (key : Text) (gsid : UInt32) : Event → Prop
  | .packet _ server => server.conn.serverid = gsid ∧ Unlocks server.conn.readBuf key
  | .gone other => other = gsid

def Delivers : Reply → Prop
  | .getData _ _ _ result _ _ _ _ _ => result = d2dbsGetDataSuccess
  | .saveData .. => False

/-- A request for the character is answered with its files. -/
def HandsOut (env : Environment) (server : Server) (key : Text) : Prop :=
  bnShortGet server.conn.readBuf 2 = d2gsD2dbsGetDataRequest ∧
    (∃ accountName charName realmName, CharsaveRequest server accountName charName realmName ∧
      charName.map tolower = key) ∧
    ∃ retval after reply, dispatch env server = some (retval, after) ∧
      after.conn.writeBuf = server.conn.writeBuf ++ [reply] ∧ Delivers reply

section Packets
variable {env : Environment} {server after : Server} {locks : Locks} {retval : Int} {key : Text}
  {chains queues : Nat → List Nat} (fresh : Fresh env) (holds : Holds server.locks chains queues)
  (represents : Represents server.locks locks)
include fresh holds represents

/-- A reply that does not fit is not queued; the files are in it if they are read and the character
is free, which is then locked. -/
theorem answer_cases (type : bnShortGet server.conn.readBuf 2 = d2gsD2dbsGetDataRequest)
    {accountName charName realmName : Text}
    (request : CharsaveRequest server accountName charName realmName) :
    ∃ retval after, dispatch env server = some (retval, after) ∧
      ((after.conn.writeBuf = server.conn.writeBuf ∧ (FilesRead env server →
        locks (charName.map tolower) = none → kBufferSize < server.conn.nCharsInWriteBuffer +
          ((charsaveData env server).length + sizeofGetDataReply + charName.length + 1))) ∨
      ∃ reply, after.conn.writeBuf = server.conn.writeBuf ++ [reply] ∧
        (Delivers reply ↔ locks (charName.map tolower) = none ∧ FilesRead env server) ∧
        (Delivers reply → Locked after.locks (charName.map tolower) server.conn.serverid)) := by
  obtain ⟨loaded, middle, read, conn, -, -, length, outcome⟩ := load_charsave_locks env
    (touch server (bnShortGet server.conn.readBuf 0)) fresh holds represents
    (request_short request) realmName
  rw [touch_conn] at conn
  rw [dispatch, if_neg (by rw [type]; decide), if_pos type, getdata_request request read]
  rcases getdata_reply_cases env middle (bnIntGet server.conn.readBuf 4) d2gsDataCharsave loaded
    with ⟨full, answer⟩ | ⟨-, after, _, _, _, answer, same, listed⟩
  · rw [conn] at full
    refine ⟨_, _, congrArg some answer, .inl ⟨by rw [conn], fun files free => ?_⟩⟩
    rcases outcome with ⟨busy, -⟩ | ⟨-, -, -, data, -⟩ | ⟨-, unread, -⟩
    · exact absurd free busy
    · rwa [data, length] at full
    · exact absurd files unread
  rw [conn] at listed
  refine ⟨_, after, congrArg some answer, .inr ⟨_, listed, ?_⟩⟩
  rw [same]
  rcases outcome with ⟨busy, locked, -⟩ | ⟨free, files, success, -, kept⟩ | ⟨-, unread, failed, -⟩
  · have lost : loaded.result ≠ d2dbsGetDataSuccess := by rw [locked]; decide
    exact ⟨iff_of_false lost fun free => busy free.1, fun success => absurd success lost⟩
  · rw [settle_lock free] at kept
    exact ⟨iff_of_true success ⟨free, files⟩, fun _ => (kept _ _).mp (update_self ..)⟩
  · have lost : loaded.result ≠ d2dbsGetDataSuccess := by rw [failed]; decide
    exact ⟨iff_of_false lost fun files => unread files.2, fun success => absurd success lost⟩

theorem handed_out_locked (handed : HandsOut env server key)
    (ran : dispatch env server = some (retval, after)) :
    locks key = none ∧ Locked after.locks key server.conn.serverid := by
  obtain ⟨type, ⟨_, _, _, request, rfl⟩, _, _, _, again, answer, delivers⟩ := handed
  obtain ⟨_, _, same, ⟨kept, -⟩ | ⟨_, listed, free, locked⟩⟩ :=
    answer_cases fresh holds represents type request
  · rw [again, some.injEq, Prod.mk.injEq] at same
    rw [same.2, kept] at answer
    simp at answer
  rw [ran, some.injEq, Prod.mk.injEq] at again same
  rw [again.2.symm.trans same.2, listed, append_cancel_left_eq] at answer
  rw [← (cons.inj answer).1] at delivers
  rw [same.2]
  exact ⟨(free.mp delivers).1, locked delivers⟩

end Packets

section Runs
variable {store after last : Charlock} {key : Text} {owner : UInt32}
  {chains queues : Nat → List Nat}

/-- Each event keeps the table, and keeps every lock that it does not release. -/
theorem event_keeps {event : Event} (key : Text) (owner : UInt32)
    (holds : Holds store chains queues) (handled : Handled store event after) :
    (∃ chains queues, Holds after chains queues) ∧
      (Locked store key owner → Locked after key owner ∨ Releases key owner event) := by
  cases handled with
  | packet fresh room filled start whole ran =>
    obtain ⟨_, _, again, -, kept, keeps⟩ :=
      dispatch_inside fresh ⟨room, filled, _, _, holds⟩ start whole
    rw [ran, some.injEq, Prod.mk.injEq] at again
    obtain ⟨-, rfl⟩ := again
    exact ⟨kept.locks, keeps key owner⟩
  | @gone _ _ gsid ran =>
    obtain ⟨locks, represents⟩ := represents_exists holds
    obtain ⟨later, _, _, done, holdsAfter, kept⟩ :=
      settle_represented holds represents (.unlockAll gsid) trivial
    rw [CharLock.step, ran, map_some, some.injEq, Prod.mk.injEq] at done
    obtain ⟨-, rfl⟩ := done
    refine ⟨⟨_, _, holdsAfter⟩, fun locked => ?_⟩
    by_cases left : gsid = owner
    · exact .inr left
    · refine .inl ((kept key owner).mp ?_)
      simp [settle, (represents key owner).mpr locked, Ne.symm left]

/-- The induction is on the events before the second answer, which finds the character free. -/
theorem run_releases {second : Environment} {other : Server} (again : HandsOut second other key)
    (between : List Event) (holds : Holds store chains queues) (locked : Locked store key owner)
    (run : Run store (between ++ [.packet second other]) last) :
    ∃ event ∈ between, Releases key owner event := by
  induction between generalizing store chains queues with
  | nil =>
    obtain ⟨_, handled, -⟩ := run
    cases handled with
    | packet fresh _ _ _ _ ran =>
      obtain ⟨_, represents⟩ := represents_exists holds
      have free := (handed_out_locked fresh holds represents again ran).1
      rw [(represents _ _).mpr locked] at free
      cases free
  | cons event events ih =>
    obtain ⟨_, handled, run⟩ := run
    obtain ⟨⟨_, _, kept⟩, keeps⟩ := event_keeps key owner holds handled
    rcases keeps locked with still | released
    · obtain ⟨later, inside, released⟩ := ih kept still run
      exact ⟨later, mem_cons_of_mem _ inside, released⟩
    · exact ⟨event, mem_cons_self, released⟩

/-- Between two answers with the files of one character, the first game server has unlocked it or
its connection has ended. -/
theorem handed_out_once {tbllen maxgs : UInt32} {locks : Locks} {between : List Event}
    {first second : Environment} {holder other : Server}
    (reached : Reached tbllen maxgs store locks)
    (run : Run store (.packet first holder :: (between ++ [.packet second other])) last)
    (handed : HandsOut first holder key) (again : HandsOut second other key) :
    ∃ event ∈ between, Releases key holder.conn.serverid event := by
  obtain ⟨chains, queues, holds, represents⟩ := reached_represented reached
  obtain ⟨_, handled, run⟩ := run
  obtain ⟨⟨_, _, kept⟩, -⟩ := event_keeps key 0 holds handled
  cases handled with
  | packet fresh _ _ _ _ ran =>
    have locked := (handed_out_locked fresh holds represents handed ran).2
    exact run_releases again between kept locked run

end Runs

section Sample

def host (table : Charlock) : Server := { sampleServer charsaveBytes 16 with locks := table }

theorem host_hands_out {table : Charlock} {locks : Locks} {chains queues : Nat → List Nat}
    (holds : Holds table chains queues) (represents : Represents table locks)
    (free : locks [98] = none) : HandsOut (sampleEnvironment true 7) (host table) [98] ∧
      ∃ after, Handled table (.packet (sampleEnvironment true 7) (host table)) after ∧
        Locked after [98] 1 := by
  have loaded : freadLoop ⟨true, some 1, fun _ _ => [65]⟩ 1 [] = some [65] := by
    simp [freadLoop]
  have files : FilesRead (sampleEnvironment true 7) (host table) := by
    constructor
    · simp [charsaveData, getdataFile, sampleEnvironment, loaded, kBufferSize]
    · simp [charinfoData, getdataFile, sampleEnvironment, loaded, charinfoSize]
  have type : bnShortGet (sampleServer charsaveBytes 16).conn.readBuf 2 =
    d2gsD2dbsGetDataRequest := rfl
  have request : CharsaveRequest (host table) [97] [98] [99] :=
    ⟨charsave_sample.names, charsave_sample.size, charsave_sample.datatype⟩
  have valid := sample_valid charsaveBytes 16 (by decide) (by decide)
  obtain ⟨_, after, ran, ⟨-, full⟩ | ⟨_, listed, delivers, locked⟩⟩ :=
    answer_cases (sample_fresh true 7) (show Holds (host table).locks _ _ from holds) represents
      type request
  · have room := full files free
    simp [charsaveData, getdataFile, sampleEnvironment, host, sampleServer, loaded, kBufferSize,
      sizeofGetDataReply] at room
  · have success := delivers.mpr ⟨free, files⟩
    have handled : Handled (host table).locks (.packet (sampleEnvironment true 7) (host table)) _ :=
      .packet (sample_fresh true 7) valid.room valid.filled rfl
        (show bnShortGet (sampleServer charsaveBytes 16).conn.readBuf 0 = 16 from rfl).le ran
    exact ⟨⟨type, ⟨_, _, _, request, rfl⟩, _, _, _, ran, listed, success⟩, _, handled,
      locked success⟩

/-- The character is handed out, its game server goes, and it is handed out again. -/
theorem handed_out_again : ∃ table last,
    Run sampleLocks (.packet (sampleEnvironment true 7) (host sampleLocks) ::
      ([.gone 1] ++ [.packet (sampleEnvironment true 7) (host table)])) last ∧
    ∃ event ∈ [Event.gone 1], Releases [98] 1 event := by
  obtain ⟨handed, first, ran, locked⟩ := host_hands_out sample_locks.1 sample_locks.2 rfl
  obtain ⟨⟨_, _, holds⟩, -⟩ := event_keeps [98] 1 sample_locks.1 ran
  obtain ⟨locks, represents⟩ := represents_exists holds
  obtain ⟨_, _, _, done, left, settled⟩ :=
    settle_represented holds represents (.unlockAll 1) trivial
  obtain ⟨table, gone, same⟩ := map_eq_some_iff.mp done
  obtain ⟨-, rfl⟩ := Prod.mk.inj same
  obtain ⟨again, last, rerun, -⟩ := host_hands_out left settled
    (by simp [settle, (represents [98] 1).mpr locked])
  have rest : Run first [.gone 1, .packet _ (host table)] last :=
    ⟨table, .gone gone, last, rerun, rfl⟩
  exact ⟨table, last, ⟨first, ran, rest⟩, handed_out_once
    (.init (show clInit ⟨0, 0, none, none, ∅⟩ 3 1 = some (0, sampleLocks) from rfl))
    ⟨first, ran, rest⟩ handed again⟩

end Sample

end Pvpgn.CharsaveLocks
