import Pvpgn.ObjectStore
import Pvpgn.TrackerXml

/-!
The main loop of the tracker: a list of the servers that have sent packets, which goes to a file
from time to time. A use of a server that was freed, or of a cursor that is no longer listed, is
`none`.
-/

namespace Pvpgn.Tracker
open Stdio ObjectList ObjectStore TrackPacket TrackerFile TrackerXml List Option
open LinkedList (Cursor cursorBehind)

structure Prefs where
  expire : UInt32
  update : UInt32
  xmlMode : Int

/-- `(signed)prefs.expire` and `(signed)prefs.update` -/
def signed32 (value : UInt32) : Int := value.toInt32.toInt

structure State where
  servers : Store Server
  last : Int
  packet : Text

/-- One turn of the loop: when it starts, when its dump starts if it makes one and whether the file
could be opened, the datagram that is waiting then, and when that is handled. -/
structure Round where
  now : Int
  start : Int
  opened : Bool
  datagram : Option (InAddr × Text)
  stamp : Int

/-- What the tracker did with its file and its socket. -/
inductive Event where
  | wrote (time : Int) (file : Text)
  | received (time : Int) (address : InAddr) (bytes : Text)
deriving DecidableEq

def entries (servers : Store Server) : List Server := servers.objects.map Prod.snd

def isShutdown (packet : Text) : Bool := bnIntNget (slice packet flags) &&& shutdownFlag ≠ 0

def printRecord (xmlMode : Int) (record : Record) : Text :=
  if xmlMode = 1 then xmlRecord record else plainRecord record

section Model
variable (prefs : Prefs)

/-- The body of the first traversal, with the file as far as it is written. -/
def dumpServer (last : Int) (curr : Nat) (state : Store Server × Text) :
    Option ((Store Server × Text) × Option Cursor) := do
  let server ← state.1.get curr
  if server.updated + signed32 prefs.expire < last then
    let cursor := cursorWithout (addresses state.1.objects) curr
    some ((state.1.free curr, state.2), some cursor)
  else do
    let record ← serverRecord server
    some ((state.1, state.2 ++ printRecord prefs.xmlMode record), some (.elem curr))

def writeFile (last : Int) (servers : Store Server) : Option (Store Server × Text) :=
  walk (fun state => addresses state.1.objects) (dumpServer prefs last)
    (servers.objects.length + 1) (servers, []) (addresses servers.objects).head?

/-- The body of the second traversal. It breaks the loop with `curr` where it is. -/
def findServer (packet : Text) (address : InAddr) (now : Int) (curr : Nat)
    (state : Store Server × Cursor) : Option ((Store Server × Cursor) × Option Cursor) := do
  let server ← state.1.get curr
  if server.address = address then
    if isShutdown packet then
      let cursor := cursorWithout (addresses state.1.objects) curr
      some ((state.1.free curr, cursor), none)
    else
      let servers := state.1.edit curr fun server => { server with info := packet, updated := now }
      some ((servers, .elem curr), none)
  else some (state, some (.elem curr))

def serverPacket (servers : Store Server) (packet : Text) (address : InAddr) (now : Int) :
    Option (Store Server × Text) :=
  if trackVersion ≤ bnShortNget (slice packet packetVersion) then do
    let packet ← fixups packet
    let (servers, curr) ← walk (fun state => addresses state.1.objects)
      (findServer packet address now) (servers.objects.length + 1) (servers, .null)
      (addresses servers.objects).head?
    match curr with
    | .null =>
      if isShutdown packet then some (servers, packet)
      else some (servers.append ⟨address, packet, now⟩, packet)
    | _ => some (servers, packet)
  else some (servers, packet)

def due (state : State) (round : Round) : Bool := state.last + signed32 prefs.update < round.now

def dump (state : State) (round : Round) : Option (State × List Event) :=
  if due prefs state round then
    if round.opened then do
      let (servers, file) ← writeFile prefs round.start state.servers
      some ({ state with servers := servers, last := round.start }, [.wrote round.start file])
    else some ({ state with last := round.start }, [])
  else some (state, [])

-- After a failure to open the file the loop goes on without a look at the socket.
def waiting (state : State) (round : Round) : Option (InAddr × Text) :=
  if due prefs state round ∧ !round.opened then none else round.datagram

def receive (state : State) (now : Int) (datagram : Option (InAddr × Text)) :
    Option (State × List Event) :=
  match datagram with
  | none => some (state, [])
  | some (address, bytes) => do
    let (servers, packet) ← serverPacket state.servers (recvfrom state.packet bytes) address now
    some ({ state with servers := servers, packet := packet }, [.received now address bytes])

def serverRound (state : State) (round : Round) : Option (State × List Event) := do
  let (after, written) ← dump prefs state round
  let (after, got) ← receive after round.stamp (waiting prefs state round)
  some (after, written ++ got)

end Model

/-! The two traversals. -/

section Traversals
variable (prefs : Prefs)

def expired (last : Int) (server : Server) : Bool := server.updated + signed32 prefs.expire < last

/-- What the first traversal has kept of the servers that it has passed. -/
def keptOf (last : Int) (seen : Objects Server) : Objects Server :=
  seen.filter fun entry => !expired prefs last entry.2

/-- The servers that were passed lie before the cursor as far as they were kept, and are written. -/
def Dumped (last : Int) (print : Nat × Server → Text) (servers : Store Server)
    (state : Store Server × Text) (front back : List Nat) : Prop :=
  ∃ seen ahead, servers.objects = seen ++ ahead ∧
    state.1.objects = keptOf prefs last seen ++ ahead ∧
    addresses (keptOf prefs last seen) = front ∧ addresses ahead = back ∧
    state.2 = (keptOf prefs last seen).flatMap print

variable {prefs}

theorem dump_step {last : Int} {record : Server → Record} {servers : Store Server}
    (prints : ∀ server ∈ entries servers, serverRecord server = some (record server))
    {state : Store Server × Text} {front back : List Nat} {curr : Nat}
    (so : Dumped prefs last (fun entry => printRecord prefs.xmlMode (record entry.2)) servers state
      front (curr :: back)) :
    ∃ after cursor before, dumpServer prefs last curr state = some (after, some cursor) ∧
      next (addresses after.1.objects) cursor = some back.head? ∧
      Dumped prefs last (fun entry => printRecord prefs.xmlMode (record entry.2)) servers after
        before back := by
  obtain ⟨store, file⟩ := state
  obtain ⟨seen, ahead, split, listed, _, behind, written⟩ := so
  cases ahead with
  | nil => cases behind
  | cons entry rest =>
    obtain ⟨address, server⟩ := entry
    obtain ⟨rfl, rfl⟩ := cons_eq_cons.mp behind
    simp only at listed written
    obtain ⟨passed, removed, resumed⟩ := Store.next_split listed
    have present := Store.get_split listed
    by_cases old : server.updated + signed32 prefs.expire < last
    · have gone : keptOf prefs last (seen ++ [(address, server)]) = keptOf prefs last seen := by
        simp [keptOf, expired, old]
      refine ⟨(store.free address, file), cursorBehind (addresses (keptOf prefs last seen)), _,
        ?_, resumed, seen ++ [(address, server)], rest, by simp [split], ?_, rfl, rfl, ?_⟩
      · simp only [dumpServer, present, bind_eq_bind, bind_some, if_pos old, removed]
      · rw [gone, Store.free_split listed]
      · rw [gone, written]
    have stays : keptOf prefs last (seen ++ [(address, server)]) =
        keptOf prefs last seen ++ [(address, server)] := by
      simp [keptOf, expired, old]
    have printed := prints server (by
      rw [entries, split]
      simp)
    refine ⟨(store, file ++ printRecord prefs.xmlMode (record server)), .elem address, _, ?_,
      passed, seen ++ [(address, server)], rest, by simp [split], ?_, rfl, rfl, ?_⟩
    · simp only [dumpServer, present, bind_eq_bind, bind_some, if_neg old, printed]
    · rw [stays, listed, append_assoc, singleton_append]
    · rw [stays, flatMap_append, written, flatMap_singleton]

theorem write_file_spec (last : Int) (servers : Store Server) (record : Server → Record)
    (prints : ∀ server ∈ entries servers, serverRecord server = some (record server)) :
    ∃ after, writeFile prefs last servers = some (after,
        (entries after).flatMap fun server => printRecord prefs.xmlMode (record server)) ∧
      entries after = (entries servers).filter fun server => !expired prefs last server := by
  let print (entry : Nat × Server) : Text := printRecord prefs.xmlMode (record entry.2)
  obtain ⟨⟨after, file⟩, walked, whole, written⟩ := walk_rule
    (fun state => addresses state.1.objects) (dumpServer prefs last)
    (Dumped prefs last print servers)
    (fun state => state.1.objects = keptOf prefs last servers.objects ∧
      state.2 = (keptOf prefs last servers.objects).flatMap print)
    (fun _ back => back.length)
    (by
      rintro state front ⟨seen, ahead, split, listed, _, finished, written⟩
      rw [addresses, map_eq_nil_iff] at finished
      rw [finished, append_nil] at split listed
      rw [split]
      exact ⟨listed, written⟩)
    (by
      intro state front curr back so
      obtain ⟨after, cursor, before, done, moved, kept⟩ := dump_step prints so
      exact ⟨after, some cursor, done, before, back, moved, kept, by simp⟩)
    (servers.objects.length + 1) (servers, []) [] (addresses servers.objects)
    ⟨[], servers.objects, rfl, rfl, rfl, rfl, rfl⟩ (by simp [addresses])
  simp only at whole written
  refine ⟨after, ?_, ?_⟩
  · rw [writeFile, walked, written, entries, whole, flatMap_map]
  · rw [entries, entries, whole, keptOf, List.filter_map]
    rfl

/-- How the second traversal ends: behind the last server, or at the one with this address, which it
has removed or brought up to date. -/
def Found (packet : Text) (address : InAddr) (now : Int) (servers : Store Server)
    (state : Store Server × Cursor) : Prop :=
  (state = (servers, .null) ∧ ∀ entry ∈ servers.objects, entry.2.address ≠ address) ∨
    ∃ front curr server back, servers.objects = front ++ (curr, server) :: back ∧
      server.address = address ∧ state.2 ≠ .null ∧
      state.1.objects = if isShutdown packet then front ++ back
        else front ++ (curr, ⟨address, packet, now⟩) :: back

theorem behind_not_null (front : List Nat) : cursorBehind front ≠ .null := by
  rw [cursorBehind]
  split <;> simp

theorem find_server_spec (packet : Text) (address : InAddr) (now : Int) (servers : Store Server) :
    ∃ after, walk (fun state => addresses state.1.objects) (findServer packet address now)
        (servers.objects.length + 1) (servers, .null) (addresses servers.objects).head? =
          some after ∧ Found packet address now servers after := by
  refine walk_rule (fun state => addresses state.1.objects) (findServer packet address now)
    (fun state _ back => state = (servers, .null) ∧ ∃ seen ahead,
      servers.objects = seen ++ ahead ∧ addresses ahead = back ∧
      ∀ entry ∈ seen, entry.2.address ≠ address)
    (Found packet address now servers) (fun _ back => back.length) ?_ ?_
    (servers.objects.length + 1) _ [] _
    ⟨rfl, [], servers.objects, rfl, rfl, by simp⟩ (by simp [addresses])
  · rintro state front ⟨rfl, seen, ahead, split, finished, missed⟩
    rw [addresses, map_eq_nil_iff] at finished
    rw [finished, append_nil] at split
    exact Or.inl ⟨rfl, split ▸ missed⟩
  rintro state front curr back ⟨rfl, seen, ahead, split, behind, missed⟩
  cases ahead with
  | nil => cases behind
  | cons entry rest =>
    obtain ⟨place, server⟩ := entry
    obtain ⟨rfl, rfl⟩ := cons_eq_cons.mp behind
    obtain ⟨passed, removed, _⟩ := Store.next_split split
    have present := Store.get_split split
    by_cases here : server.address = address
    · by_cases down : isShutdown packet = true
      · refine ⟨(servers.free place, cursorBehind (addresses seen)), none, ?_,
          Or.inr ⟨seen, place, server, rest, split, here, behind_not_null _, ?_⟩⟩
        · simp only [findServer, present, bind_eq_bind, bind_some, if_pos here,
            if_pos down, removed]
        · rw [if_pos down, Store.free_split split]
      · refine ⟨(servers.edit place fun server =>
            { server with info := packet, updated := now }, .elem place), none, ?_,
          Or.inr ⟨seen, place, server, rest, split, here, by simp, ?_⟩⟩
        · simp only [findServer, present, bind_eq_bind, bind_some, if_pos here, if_neg down]
        · rw [if_neg down, Store.edit_split _ split, here]
    · refine ⟨(servers, .null), some (.elem place), ?_, addresses (seen ++ [(place, server)]),
        addresses rest, passed, ⟨rfl, seen ++ [(place, server)], rest, by simp [split], rfl,
          ?_⟩, by simp [addresses]⟩
      · simp only [findServer, present, bind_eq_bind, bind_some, if_neg here]
      intro entry member
      rcases mem_append.mp member with old | new
      · exact missed entry old
      · rw [mem_singleton.mp new]
        exact here

end Traversals

/-! One packet. -/

variable {packet : Text} {back front : List Server} {now : Int} {server : Server}

theorem others_split (distinct : ((front ++ server :: back).map Server.address).Nodup)
    (other : Server) :
    other ∈ front ++ back ↔ other.address ≠ server.address ∧ other ∈ front ++ server :: back := by
  rw [map_append, map_cons, nodup_middle, nodup_cons, ← map_append]
    at distinct
  constructor
  · intro member
    refine ⟨fun same => distinct.1 (same ▸ List.mem_map_of_mem member), ?_⟩
    rcases mem_append.mp member with before | behind
    · exact mem_append_left _ before
    · exact mem_append_right _ (mem_cons_of_mem _ behind)
  · rintro ⟨apart, member⟩
    rcases mem_append.mp member with before | same
    · exact mem_append_left _ before
    · rcases mem_cons.mp same with rfl | behind
      · exact absurd rfl apart
      · exact mem_append_right _ behind

/-- Where the list ends up with the server of a packet in it, or without one at its address. -/
def Renewed (packet : Text) (address : InAddr) (now : Int) (before after : List Server) : Prop :=
  (after.map Server.address).Nodup ∧ ∀ server, server ∈ after ↔
    (isShutdown packet = false ∧ server = ⟨address, packet, now⟩) ∨
      (server.address ≠ address ∧ server ∈ before)

theorem replaced_renewed (distinct : ((front ++ server :: back).map Server.address).Nodup)
    (up : isShutdown packet = false) :
    Renewed packet server.address now (front ++ server :: back)
      (front ++ ⟨server.address, packet, now⟩ :: back) := by
  refine ⟨by simpa using distinct, fun other => ?_⟩
  rw [← others_split distinct]
  simp only [mem_append, mem_cons, up, true_and]
  constructor
  · rintro (before | rfl | behind)
    · exact Or.inr (Or.inl before)
    · exact Or.inl rfl
    · exact Or.inr (Or.inr behind)
  · rintro (rfl | before | behind)
    · exact Or.inr (Or.inl rfl)
    · exact Or.inl before
    · exact Or.inr (Or.inr behind)

theorem removed_renewed (distinct : ((front ++ server :: back).map Server.address).Nodup)
    (down : isShutdown packet = true) :
    Renewed packet server.address now (front ++ server :: back) (front ++ back) := by
  refine ⟨?_, fun other => ?_⟩
  · rw [map_append, map_cons, nodup_middle, nodup_cons, ← map_append]
      at distinct
    exact distinct.2
  · rw [others_split distinct]
    simp [down]

theorem absent_renewed {servers : List Server} {address : InAddr}
    (distinct : (servers.map Server.address).Nodup)
    (missed : ∀ server ∈ servers, server.address ≠ address) :
    Renewed packet address now servers
      (if isShutdown packet then servers else servers ++ [⟨address, packet, now⟩]) := by
  have others (server : Server) :
      server.address ≠ address ∧ server ∈ servers ↔ server ∈ servers :=
    ⟨And.right, fun member => ⟨missed server member, member⟩⟩
  by_cases down : isShutdown packet = true
  · rw [if_pos down]
    exact ⟨distinct, fun server => by simp [down, others]⟩
  rw [if_neg down]
  refine ⟨?_, fun server => ?_⟩
  · rw [map_append]
    apply distinct.append (by simp)
    intro known member last
    obtain ⟨server, listed, rfl⟩ := List.mem_map.mp member
    exact missed server listed (by simpa using last)
  · simp only [others, mem_append, mem_singleton, down]
    tauto

theorem shutdown_kept {info : Text} (others : ∀ other, (∀ field ∈ textFields,
    Apart other field) → slice info other = slice packet other) :
    isShutdown info = isShutdown packet := by
  rw [isShutdown, isShutdown, others flags]
  simp [textFields, Apart, flags, software, version, platform, serverDesc, serverLocation,
    serverUrl, contactName, contactEmail]

theorem server_packet_spec (servers : Store Server) (packet : Text) (address : InAddr) (now : Int)
    (whole : packet.length = packetSize)
    (accepted : trackVersion ≤ bnShortNget (slice packet packetVersion))
    (distinct : ((entries servers).map Server.address).Nodup) :
    ∃ after info, fixups packet = some info ∧ info.length = packetSize ∧
      serverPacket servers packet address now = some (after, info) ∧
      isShutdown info = isShutdown packet ∧ (∀ field ∈ textFields, Neat (slice info field)) ∧
      Renewed info address now (entries servers) (entries after) := by
  obtain ⟨info, fixed, sized, neat, others⟩ := fixups_neat packet whole
  have kept := shutdown_kept others
  obtain ⟨⟨store, curr⟩, walked, found⟩ := find_server_spec info address now servers
  rcases found with ⟨same, missed⟩ | ⟨front, place, server, back, split, here, stopped, listed⟩
  · obtain ⟨unchanged, null⟩ := Prod.mk.inj same
    subst unchanged null
    have renewed : Renewed info address now (entries store) _ := absent_renewed distinct (by
      intro server member
      obtain ⟨entry, known, rfl⟩ := List.mem_map.mp member
      exact missed entry known)
    refine ⟨if isShutdown info then store else store.append ⟨address, info, now⟩, info, fixed,
      sized, ?_, kept, neat, ?_⟩
    · rw [serverPacket, if_pos accepted]
      simp only [fixed, walked, bind_eq_bind, bind_some]
      split <;> rfl
    have list : entries (if isShutdown info then store
        else store.append ⟨address, info, now⟩) =
        if isShutdown info then entries store
        else entries store ++ [⟨address, info, now⟩] := by
      split <;> simp [entries]
    rw [list]
    exact renewed
  · refine ⟨store, info, fixed, sized, ?_, kept, neat, ?_⟩
    · rw [serverPacket, if_pos accepted]
      simp only [fixed, walked, bind_eq_bind, bind_some]
    rw [entries, split, map_append, map_cons] at distinct ⊢
    subst here
    by_cases down : isShutdown info = true
    · rw [entries, listed, if_pos down, map_append]
      exact removed_renewed distinct down
    · rw [entries, listed, if_neg down, map_append, map_cons]
      exact replaced_renewed distinct (by simpa using down)

end Pvpgn.Tracker
