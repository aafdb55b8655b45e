import Pvpgn.AnongameMatch
import Pvpgn.PacketFields
import Mathlib.Algebra.Order.BigOperators.Group.Finset
import Mathlib.Tactic.IntervalCases

/-!
`_handle_anongame_search` on the bytes of a packet. `none` is a read behind the packet, an index
outside `info`, `tc` or a record's `tc`, or a use of `tc[0]` that nothing was assigned to.
-/

namespace Pvpgn.AnongameSearch
open AnongameMatch PacketFields Option Nat Prod Finset

def optionSearch : UInt8 := 0
def optionAtSearch : UInt8 := 5
def optionAtInviterSearch : UInt8 := 6

/-- The entries of `info` in a packet, and those of `tc`. -/
def infoCount : Nat := 5
def tcCount : Nat := anongameMaxGamecount / 2

/-- What the handler finds: connections by the uids of their accounts, whether the reply and the
packets of a match can be created, and whether the address of the route is known. -/
structure Calls where
  lookup : UInt32 → Option Conn
  replyCreated : Bool
  routed : Bool
  packetCreated : Nat → Bool

/-- The match lists with the records, and `players`. -/
structure Server where
  world : World
  players : Nat → Nat

/-! The fields of the three packets. -/

/-- `info` lies at the same place in both packets of arranged teams. -/
def infoAt (packet : List UInt8) (index : Nat) : Option UInt32 :=
  if index < infoCount then intAt packet (18 + 4 * index) else none

inductive Request
  | search (mapPrefs : UInt32) (type gametype : UInt8)
  | atInviterSearch (tid mapPrefs : UInt32) (type gametype teamsize : UInt8)
  | atSearch (tid : UInt32) (teamsize : UInt8)
  | invalid

/-- The first `switch`. The count, the id and the race are read into the record as well. -/
def readRequest (packet : List UInt8) : Option Request := do
  let option ← byteAt packet 4
  if option = optionAtInviterSearch then
    let _count ← intAt packet 5
    let _id ← intAt packet 49
    let tid ← intAt packet 9
    let _race ← intAt packet 53
    let mapPrefs ← intAt packet 44
    let type ← byteAt packet 42
    let gametype ← byteAt packet 43
    let teamsize ← byteAt packet 17
    some (.atInviterSearch tid mapPrefs type gametype teamsize)
  else if option = optionAtSearch then
    let _count ← intAt packet 5
    let _id ← intAt packet 43
    let tid ← intAt packet 9
    let _race ← intAt packet 47
    let teamsize ← byteAt packet 17
    some (.atSearch tid teamsize)
  else if option = optionSearch then
    let _count ← intAt packet 5
    let _id ← intAt packet 20
    let _race ← intAt packet 24
    let mapPrefs ← intAt packet 15
    let type ← byteAt packet 13
    let gametype ← byteAt packet 14
    some (.search mapPrefs type gametype)
  else some .invalid

/-! The handler. -/

/-- The loop that assigns `tc`. A member who is not found ends it. -/
def findTeam (calls : Calls) (packet : List UInt8) : Nat → List Conn → Option (Option (List Conn))
  | 0, tc => some (some tc)
  | left + 1, tc =>
    if tc.length < tcCount then do
      let uid ← infoAt packet tc.length
      match calls.lookup uid with
      | none => some none
      | some member => findTeam calls packet left (tc ++ [member])
    else none

inductive Next
  | returns (code : Int)
  | queues (ticket : Ticket)

/-- Each member's `tc` gets the whole team. -/
def inviteMembers (a : Anongame) (team : List Conn) (world : World) : Option (World × Bool) :=
  if team.length ≤ tcCount then some (inviteTeam a team world) else none

/-- `_handle_anongame_search` up to its call of `_anongame_queue`. -/
def prepare (calls : Calls) (world : World) (c : Conn) (packet : List UInt8) :
    Option (World × Next) := do
  let a := (world.anongame c).getD newAnongame
  match ← readRequest packet with
  | .invalid => some (setAnongame world c (some a), .returns (-1))
  | .search mapPrefs type gametype =>
    let queue := gametypeToQueue type gametype
    let a := { a with mapPrefs := mapPrefs, type := type, gametype := gametype, queue := queue }
    if queue < 0 ∨ !calls.replyCreated then some (setAnongame world c (some a), .returns (-1))
    else some (setAnongame world c (some { a with tc := fillTeam a.tc [c] }),
      .queues ⟨c, queue, mapPrefs⟩)
  | .atInviterSearch tid mapPrefs type gametype teamsize =>
    let queue := gametypeToQueue type gametype
    let a := { a with
      tid := tid, mapPrefs := mapPrefs, type := type, gametype := gametype, queue := queue }
    let world := setAnongame world c (some a)
    if queue < 0 ∨ !calls.replyCreated then some (world, .returns (-1))
    else do
      match ← findTeam calls packet teamsize.toNat [] with
      | none => some (world, .returns (-1))
      | some team =>
        let (world, set) ← inviteMembers a team world
        if set then do
          let first ← team.head?
          some (world, .queues ⟨first, queue, mapPrefs⟩)
        else some (world, .returns 0)
  | .atSearch tid teamsize =>
    let a := { a with tid := tid }
    let world := setAnongame world c (some a)
    if !calls.replyCreated then some (world, .returns (-1))
    else do
      match ← findTeam calls packet teamsize.toNat [] with
      | none => some (world, .returns (-1))
      | some team =>
        if team.all fun member => (world.anongame member).any fun ta => ta.tid = tid then do
          let first ← team.head?
          some (world, .queues ⟨first, a.queue, a.mapPrefs⟩)
        else some (world, .returns 0)

/-- `_anongame_match`: `player[queue]` when a match is complete, and the count in `players`. -/
def matchPlayers (env : Environment) (server : Server) (c : Conn) (queue : Nat) :
    Option (List (Option Conn) × Server) := do
  let a ← server.world.anongame c
  let level := levelByQueue env c queue
  let (progress, _) ← matchLoop env server.world c queue level (matchBudget env) 0
    (startProgress env level a.mapPrefs)
  let (found, world) ← anongameMatch env server.world c queue
  some (found.getD [], {
    world := world
    players := Function.update server.players queue (playersOf env queue progress.chosen.length) })

def searchFound (calls : Calls) (world : World) (found : List (Option Conn)) : Bool :=
  calls.routed && found.zipIdx.all fun (c, index) =>
    (c.bind world.anongame).isSome && calls.packetCreated index

def serve (env : Environment) (calls : Calls) (server : Server) (c : Conn) :
    Next → Option (Int × Server)
  | .returns code => some (code, server)
  | .queues ticket => do
    let (code, world) ← anongameQueue env server.world ticket.target ticket.queue ticket.mapPrefs
    if code < 0 then some (-1, { server with world })
    else
      let queue := ticket.queue.toNat
      let (found, server) ← matchPlayers env { server with world } c queue
      if server.players queue = totalplayers env queue then
        if searchFound calls server.world found then
          some (0, { server with players := Function.update server.players queue 0 })
        else some (-1, server)
      else some (0, server)

/-- The handler stays inside the packet and the arrays, and has changed no match list and no count
when it returns -1. -/
def Safe (env : Environment) (calls : Calls) (server : Server) (c : Conn) (packet : List UInt8) :
    Prop :=
  ∃ world next, prepare calls server.world c packet = some (world, next) ∧
    ∀ after, serve env calls { server with world } c next = some (-1, after) →
      after.world.matchlists = server.world.matchlists ∧ after.players = server.players

/-! When it is safe. -/

def packetSize (option : UInt8) : Nat :=
  if option = optionAtInviterSearch then 57
  else if option = optionAtSearch then 51
  else if option = optionSearch then 28
  else 5

/-- A team has a member, and no more than `info` has entries unless one of those is not found. -/
def TeamFits (calls : Calls) (packet : List UInt8) (teamsize : UInt8) : Prop :=
  0 < teamsize ∧ (teamsize.toNat ≤ infoCount ∨
    ∃ index < infoCount, (infoAt packet index).bind calls.lookup = none)

/-- The teams of the requests that come to the second `switch`. -/
def RequestFits (calls : Calls) (packet : List UInt8) : Request → Prop
  | .atInviterSearch _ _ type gametype teamsize =>
    0 ≤ gametypeToQueue type gametype → calls.replyCreated = true → TeamFits calls packet teamsize
  | .atSearch _ teamsize => calls.replyCreated = true → TeamFits calls packet teamsize
  | _ => True

def members (calls : Calls) (packet : List UInt8) (teamsize : UInt8) : List (Option Conn) :=
  (List.range teamsize.toNat).map fun index => (infoAt packet index).bind calls.lookup

def searchOf (calls : Calls) (packet : List UInt8) : Request → Option Search
  | .search mapPrefs type gametype => some (.search mapPrefs type gametype)
  | .atInviterSearch tid mapPrefs type gametype teamsize =>
    some (.atInviterSearch tid mapPrefs type gametype (members calls packet teamsize))
  | .atSearch tid teamsize => some (.atSearch tid (members calls packet teamsize))
  | .invalid => none

/-- A match that the request completes is told to all of its players. -/
def MatchTold (env : Environment) (calls : Calls) (server : Server) (c : Conn)
    (packet : List UInt8) (request : Request) : Prop :=
  calls.replyCreated = true → ∀ search ∈ searchOf calls packet request, ∀ world ticket,
    prepareSearch server.world c search = some (world, some ticket) → ∀ queued,
      anongameQueue env world ticket.target ticket.queue ticket.mapPrefs = some (0, queued) →
        ∀ found after, matchPlayers env { server with world := queued } c ticket.queue.toNat =
          some (found, after) →
          after.players ticket.queue.toNat = totalplayers env ticket.queue.toNat →
            searchFound calls after.world found = true

/-- The packet has the size of its option, its team fits the arrays, and a complete match is told
to its players. -/
def RequestSafe (env : Environment) (calls : Calls) (server : Server) (c : Conn)
    (packet : List UInt8) : Prop :=
  (∃ option, packet[4]? = some option ∧ packetSize option ≤ packet.length) ∧
    ∀ request, readRequest packet = some request →
      RequestFits calls packet request ∧ MatchTold env calls server c packet request

section Reading
variable {packet : List UInt8}

theorem info_at_inside {index : Nat} (entry : index < infoCount) (long : 38 ≤ packet.length) :
    ∃ uid, infoAt packet index = some uid := by
  rw [infoCount] at entry
  rw [infoAt, infoCount, if_pos entry]
  exact int_at_inside (by omega)

theorem read_request_cases {request : Request} (read : readRequest packet = some request) :
    ∃ option, packet[4]? = some option ∧ packetSize option ≤ packet.length ∧
      (38 ≤ packetSize option ∨
        (∃ mapPrefs type gametype, request = .search mapPrefs type gametype) ∨
        request = .invalid) := by
  simp only [readRequest, bind_eq_bind, bind_eq_some_iff] at read
  obtain ⟨option, present, rest⟩ := read
  refine ⟨option, present, ?_⟩
  rw [packetSize]
  by_cases inviter : option = optionAtInviterSearch
  · rw [if_pos inviter] at rest ⊢
    simp only [bind_eq_some_iff] at rest
    obtain ⟨-, -, -, -, -, -, race, last, -⟩ := rest
    exact ⟨int_at_some last, .inl (by decide)⟩
  rw [if_neg inviter] at rest ⊢
  by_cases member : option = optionAtSearch
  · rw [if_pos member] at rest ⊢
    simp only [bind_eq_some_iff] at rest
    obtain ⟨-, -, -, -, -, -, race, last, -⟩ := rest
    exact ⟨int_at_some last, .inl (by decide)⟩
  rw [if_neg member] at rest ⊢
  by_cases single : option = optionSearch
  · rw [if_pos single] at rest ⊢
    simp only [bind_eq_some_iff] at rest
    obtain ⟨-, -, -, -, race, last, prefs, -, type, -, gametype, -, same⟩ := rest
    exact ⟨int_at_some last, .inr (.inl ⟨prefs, type, gametype, (some.inj same).symm⟩)⟩
  · rw [if_neg single] at rest ⊢
    exact ⟨(List.getElem?_eq_some_iff.mp present).1, .inr (.inr (some.inj rest).symm)⟩

theorem read_inviter (option : packet[4]? = some optionAtInviterSearch)
    (long : 57 ≤ packet.length) : ∃ request, readRequest packet = some request := by
  obtain ⟨count, countIs⟩ := int_at_inside (by omega : 5 + 4 ≤ packet.length)
  obtain ⟨id, idIs⟩ := int_at_inside (by omega : 49 + 4 ≤ packet.length)
  obtain ⟨tid, tidIs⟩ := int_at_inside (by omega : 9 + 4 ≤ packet.length)
  obtain ⟨race, raceIs⟩ := int_at_inside (by omega : 53 + 4 ≤ packet.length)
  obtain ⟨prefs, prefsIs⟩ := int_at_inside (by omega : 44 + 4 ≤ packet.length)
  obtain ⟨type, typeIs⟩ := byte_at_inside (by omega : 42 < packet.length)
  obtain ⟨gametype, gametypeIs⟩ := byte_at_inside (by omega : 43 < packet.length)
  obtain ⟨teamsize, teamsizeIs⟩ := byte_at_inside (by omega : 17 < packet.length)
  refine ⟨.atInviterSearch tid prefs type gametype teamsize, ?_⟩
  rw [readRequest, byteAt, option, bind_eq_bind, bind_some, if_pos rfl, countIs, idIs,
    tidIs, raceIs, prefsIs, typeIs, gametypeIs, teamsizeIs]
  rfl

theorem read_member (option : packet[4]? = some optionAtSearch) (long : 51 ≤ packet.length) :
    ∃ request, readRequest packet = some request := by
  obtain ⟨count, countIs⟩ := int_at_inside (by omega : 5 + 4 ≤ packet.length)
  obtain ⟨id, idIs⟩ := int_at_inside (by omega : 43 + 4 ≤ packet.length)
  obtain ⟨tid, tidIs⟩ := int_at_inside (by omega : 9 + 4 ≤ packet.length)
  obtain ⟨race, raceIs⟩ := int_at_inside (by omega : 47 + 4 ≤ packet.length)
  obtain ⟨teamsize, teamsizeIs⟩ := byte_at_inside (by omega : 17 < packet.length)
  refine ⟨.atSearch tid teamsize, ?_⟩
  rw [readRequest, byteAt, option, bind_eq_bind, bind_some, if_neg (by decide),
    if_pos rfl, countIs, idIs, tidIs, raceIs, teamsizeIs]
  rfl

theorem read_single (option : packet[4]? = some optionSearch) (long : 28 ≤ packet.length) :
    ∃ request, readRequest packet = some request := by
  obtain ⟨count, countIs⟩ := int_at_inside (by omega : 5 + 4 ≤ packet.length)
  obtain ⟨id, idIs⟩ := int_at_inside (by omega : 20 + 4 ≤ packet.length)
  obtain ⟨race, raceIs⟩ := int_at_inside (by omega : 24 + 4 ≤ packet.length)
  obtain ⟨prefs, prefsIs⟩ := int_at_inside (by omega : 15 + 4 ≤ packet.length)
  obtain ⟨type, typeIs⟩ := byte_at_inside (by omega : 13 < packet.length)
  obtain ⟨gametype, gametypeIs⟩ := byte_at_inside (by omega : 14 < packet.length)
  refine ⟨.search prefs type gametype, ?_⟩
  rw [readRequest, byteAt, option, bind_eq_bind, bind_some, if_neg (by decide),
    if_neg (by decide), if_pos rfl, countIs, idIs, raceIs, prefsIs, typeIs, gametypeIs]
  rfl

theorem read_request_iff : (∃ request, readRequest packet = some request) ↔
    ∃ option, packet[4]? = some option ∧ packetSize option ≤ packet.length := by
  constructor
  · rintro ⟨request, read⟩
    obtain ⟨option, present, long, -⟩ := read_request_cases read
    exact ⟨option, present, long⟩
  rintro ⟨option, present, long⟩
  rw [packetSize] at long
  by_cases inviter : option = optionAtInviterSearch
  · rw [if_pos inviter] at long
    exact read_inviter (inviter ▸ present) long
  rw [if_neg inviter] at long
  by_cases member : option = optionAtSearch
  · rw [if_pos member] at long
    exact read_member (member ▸ present) long
  rw [if_neg member] at long
  by_cases single : option = optionSearch
  · rw [if_pos single] at long
    exact read_single (single ▸ present) long
  · refine ⟨.invalid, ?_⟩
    rw [readRequest, byteAt, present, bind_eq_bind, bind_some,
      if_neg inviter, if_neg member, if_neg single]

theorem team_packet_long {request : Request} (read : readRequest packet = some request)
    (team : (∃ tid mapPrefs type gametype teamsize,
      request = .atInviterSearch tid mapPrefs type gametype teamsize) ∨
      ∃ tid teamsize, request = .atSearch tid teamsize) : 38 ≤ packet.length := by
  obtain ⟨option, -, long, large | ⟨mapPrefs, type, gametype, rfl⟩ | rfl⟩ := read_request_cases read
  · exact large.trans long
  · simp at team
  · simp at team

end Reading

section Team
variable {calls : Calls} {packet : List UInt8}

theorem find_team_cases (calls : Calls) (long : 38 ≤ packet.length) (left : Nat) (tc : List Conn)
    (few : tc.length ≤ infoCount) :
    (∃ team, findTeam calls packet left tc = some (some team) ∧ tc.length + left ≤ infoCount ∧
      team.map some = tc.map some ++
        (List.range' tc.length left).map fun index => (infoAt packet index).bind calls.lookup) ∨
    (findTeam calls packet left tc = some none ∧ ∃ index, tc.length ≤ index ∧ index < infoCount ∧
      index < tc.length + left ∧ (infoAt packet index).bind calls.lookup = none) ∨
    findTeam calls packet left tc = none ∧ infoCount < tc.length + left ∧
      ∀ index, tc.length ≤ index → index < infoCount →
        (infoAt packet index).bind calls.lookup ≠ none := by
  induction left generalizing tc with
  | zero => exact .inl ⟨tc, rfl, few, by simp⟩
  | succ left ih =>
    have room : tc.length < tcCount := lt_of_le_of_lt few (by decide)
    rw [findTeam, if_pos room, bind_eq_bind]
    by_cases entry : tc.length < infoCount
    · obtain ⟨uid, read⟩ := info_at_inside entry long
      rw [read, bind_some]
      cases found : calls.lookup uid with
      | none =>
        refine .inr (.inl ⟨rfl, tc.length, le_refl _, entry, by omega, ?_⟩)
        rw [read, bind_some, found]
      | some member =>
        have here : (infoAt packet tc.length).bind calls.lookup = some member := by
          rw [read, bind_some, found]
        have length : (tc ++ [member]).length = tc.length + 1 := List.length_append
        have further := ih (tc ++ [member]) (by rw [length]; exact entry)
        rw [length] at further
        rcases further with ⟨team, run, inside, same⟩ | ⟨run, index, bounds⟩ |
          ⟨run, many, others⟩
        · refine .inl ⟨team, run, by omega, ?_⟩
          rw [same, List.range'_succ, List.map_cons, here]
          simp
        · exact .inr (.inl ⟨run, index, by omega, by omega, by omega, bounds.2.2.2⟩)
        · refine .inr (.inr ⟨run, by omega, fun index lower upper => ?_⟩)
          obtain same | later := eq_or_lt_of_le lower
          · rw [← same, here]
            exact some_ne_none member
          · exact others index later upper
    · have outside : infoAt packet tc.length = none := if_neg entry
      rw [outside]
      exact .inr (.inr ⟨rfl, by omega, fun index lower upper => by omega⟩)

theorem find_team_iff (long : 38 ≤ packet.length) (teamsize : UInt8) :
    (∃ result, findTeam calls packet teamsize.toNat [] = some result ∧ result ≠ some []) ↔
      TeamFits calls packet teamsize := by
  have positive : 0 < teamsize ↔ 0 < teamsize.toNat := UInt8.lt_iff_toNat_lt
  rw [TeamFits, positive]
  rcases find_team_cases calls long teamsize.toNat [] (zero_le _) with
    ⟨team, run, inside, same⟩ | ⟨run, index, -, entry, early, missing⟩ | ⟨run, many, others⟩
  · rw [List.length_nil, zero_add] at inside
    have length : team.length = teamsize.toNat := by
      simpa using congrArg List.length same
    rw [run]
    constructor
    · rintro ⟨result, same, nonempty⟩
      cases same
      have filled : team ≠ [] := fun empty => nonempty (by rw [empty])
      exact ⟨by rw [← length]; exact List.length_pos_iff.mpr filled, .inl inside⟩
    · rintro ⟨some_member, -⟩
      refine ⟨some team, rfl, fun empty => ?_⟩
      rw [some.inj empty] at length
      rw [← length] at some_member
      exact absurd some_member (lt_irrefl 0)
  · rw [run]
    rw [List.length_nil, zero_add] at early
    exact iff_of_true ⟨none, rfl, by simp⟩ ⟨by omega, .inr ⟨index, entry, missing⟩⟩
  · rw [run]
    rw [List.length_nil, zero_add] at many
    refine iff_of_false (by rintro ⟨result, impossible, -⟩; cases impossible) ?_
    rintro ⟨-, small | ⟨index, entry, missing⟩⟩
    · omega
    · exact others index (zero_le _) entry missing

variable {teamsize : UInt8}

section
variable (long : 38 ≤ packet.length)
include long

theorem look_up_found {first : Conn} {rest : List Conn}
    (found : findTeam calls packet teamsize.toNat [] = some (some (first :: rest))) :
    lookupTeam (members calls packet teamsize) = some (some (first, rest)) ∧
      (first :: rest).length ≤ tcCount := by
  rcases find_team_cases calls long teamsize.toNat [] (zero_le _) with
    ⟨team, run, inside, same⟩ | ⟨run, -⟩ | ⟨run, -⟩
  · rw [found] at run
    cases run
    rw [List.map_nil, List.nil_append, List.length_nil, ← List.range_eq_range'] at same
    have length : (first :: rest).length ≤ infoCount := by
      have := congrArg List.length same
      simp only [List.length_map, List.length_range, List.length_nil] at this inside
      omega
    have all : (members calls packet teamsize) = (first :: rest).map some := same.symm
    have few : ¬ anongameMaxGamecount / 2 < ((first :: rest).map some).length := by
      rw [List.length_map]
      simp only [infoCount, anongameMaxGamecount] at length ⊢
      omega
    refine ⟨?_, le_trans length (by decide)⟩
    rw [all, lookupTeam, if_neg, if_neg few]
    · simp
    rw [← List.map_take, Bool.not_eq_true, List.any_eq_false]
    intro member listed
    obtain ⟨c, -, rfl⟩ := List.mem_map.mp listed
    exact Bool.false_ne_true
  · rw [found] at run
    cases run
  · rw [found] at run
    cases run

theorem look_up_missing (missing : findTeam calls packet teamsize.toNat [] = some none) :
    lookupTeam (members calls packet teamsize) = some none := by
  rcases find_team_cases calls long teamsize.toNat [] (zero_le _) with
    ⟨team, run, -⟩ | ⟨-, index, -, entry, early, absent⟩ | ⟨run, -⟩
  · rw [missing] at run
    cases run
  · rw [List.length_nil, zero_add] at early
    rw [lookupTeam, if_pos]
    rw [List.any_eq_true]
    refine ⟨none, List.mem_take_iff_getElem.mpr ⟨index, ?_, ?_⟩, rfl⟩
    · rw [members, List.length_map, List.length_range]
      simp only [infoCount, anongameMaxGamecount] at entry ⊢
      omega
    · simp only [members, List.getElem_map, List.getElem_range]
      exact absent
  · rw [missing] at run
    cases run

theorem fitting_team (fits : TeamFits calls packet teamsize) :
    (findTeam calls packet teamsize.toNat [] = some none ∧
      lookupTeam (members calls packet teamsize) = some none) ∨
    ∃ first rest, findTeam calls packet teamsize.toNat [] = some (some (first :: rest)) ∧
      lookupTeam (members calls packet teamsize) = some (some (first, rest)) ∧
      (first :: rest).length ≤ tcCount := by
  obtain ⟨result, found, nonempty⟩ := (find_team_iff long teamsize).mpr fits
  cases result with
  | none => exact .inl ⟨found, look_up_missing long found⟩
  | some team =>
    cases team with
    | nil => exact absurd rfl nonempty
    | cons first rest => exact .inr ⟨first, rest, found, look_up_found long found⟩

theorem unfitting_team (unfit : ¬ TeamFits calls packet teamsize) :
    findTeam calls packet teamsize.toNat [] = none ∨
      findTeam calls packet teamsize.toNat [] = some (some []) := by
  rw [← find_team_iff long] at unfit
  cases found : findTeam calls packet teamsize.toNat [] with
  | none => exact .inl rfl
  | some result =>
    have empty : result = some [] := by
      by_contra nonempty
      exact unfit ⟨result, found, nonempty⟩
    exact .inr (congrArg some empty)

end

end Team

variable {ticket : Ticket}

section Prepare
variable {calls : Calls} {world : World} {c : Conn} {packet : List UInt8}

theorem invite_lists (a : Anongame) (team joined : List Conn) (state : World × Bool) :
    (joined.foldl (inviteMember a team) state).1.matchlists = state.1.matchlists := by
  induction joined generalizing state with
  | nil => rfl
  | cons member rest ih => exact ih (inviteMember a team state member)

theorem invite_members_lists {a : Anongame} {team : List Conn} {world invited : World} {set : Bool}
    (joined : inviteMembers a team world = some (invited, set)) :
    invited.matchlists = world.matchlists := by
  unfold inviteMembers at joined
  split at joined
  · have same := congrArg (fun state => state.1.matchlists) (some.inj joined)
    rw [← same]
    exact invite_lists a team team _
  · cases joined

theorem prepare_lists {after : World} {next : Next}
    (prepared : prepare calls world c packet = some (after, next)) :
    after.matchlists = world.matchlists := by
  obtain ⟨request, -, done⟩ := bind_eq_some_iff.mp prepared
  cases request with
  | invalid =>
    cases done
    rfl
  | search mapPrefs type gametype =>
    dsimp only at done
    split at done
    · cases done
      rfl
    · cases done
      rfl
  | atInviterSearch tid mapPrefs type gametype teamsize =>
    dsimp only at done
    split at done
    · cases done
      rfl
    obtain ⟨found, -, done⟩ := bind_eq_some_iff.mp done
    cases found with
    | none =>
      cases done
      rfl
    | some team =>
      obtain ⟨⟨invited, set⟩, joined, done⟩ := bind_eq_some_iff.mp done
      have lists : invited.matchlists = world.matchlists :=
        (invite_members_lists joined).trans (setAnongame_matchlists world c _)
      cases set with
      | true =>
        obtain ⟨first, -, done⟩ := bind_eq_some_iff.mp done
        cases done
        exact lists
      | false =>
        cases done
        exact lists
  | atSearch tid teamsize =>
    dsimp only at done
    split at done
    · cases done
      rfl
    obtain ⟨found, -, done⟩ := bind_eq_some_iff.mp done
    cases found with
    | none =>
      cases done
      rfl
    | some team =>
      dsimp only at done
      split at done
      · obtain ⟨first, -, done⟩ := bind_eq_some_iff.mp done
        cases done
        rfl
      · cases done
        rfl

/-- What a request comes to is what it comes to with its members looked up before. -/
def Agrees (after : World) (next : Next) (searched : Option (World × Option Ticket)) : Prop :=
  (∃ code, next = .returns code ∧ searched = some (after, none)) ∨
    ∃ ticket, next = .queues ticket ∧ searched = some (after, some ticket)

theorem team_agrees (joined : World × Bool) (first : Conn) (rest : List Conn) (queue : Int)
    (mapPrefs : UInt32) : ∃ after next,
      (if joined.2 = true then
        ((first :: rest).head?).bind fun first =>
          some (joined.1, Next.queues ⟨first, queue, mapPrefs⟩)
        else some (joined.1, .returns 0)) = some (after, next) ∧
      Agrees after next (some (joined.1, if joined.2 = true then some ⟨first, queue, mapPrefs⟩
        else none)) := by
  obtain ⟨world, set⟩ := joined
  cases set with
  | true => exact ⟨_, _, rfl, .inr ⟨_, rfl, rfl⟩⟩
  | false => exact ⟨_, _, rfl, .inl ⟨0, rfl, rfl⟩⟩

variable {request : Request}

theorem prepare_fits (world : World) (c : Conn) (read : readRequest packet = some request)
    (fits : RequestFits calls packet request) :
    ∃ after next, prepare calls world c packet = some (after, next) ∧
      (calls.replyCreated = true → ∀ search ∈ searchOf calls packet request,
        Agrees after next (prepareSearch world c search)) := by
  rw [prepare, read, bind_eq_bind, bind_some]
  cases request with
  | invalid => exact ⟨_, _, rfl, fun _ search known => by cases known⟩
  | search mapPrefs type gametype =>
    by_cases created : calls.replyCreated = true
    · by_cases unknown : gametypeToQueue type gametype < 0
      · refine ⟨_, _, if_pos (.inl unknown), fun _ search known => ?_⟩
        cases known
        exact .inl ⟨-1, rfl, if_pos unknown⟩
      · refine ⟨_, _, if_neg (by simp [unknown, created]), fun _ search known => ?_⟩
        cases known
        exact .inr ⟨_, rfl, if_neg unknown⟩
    · exact ⟨_, _, if_pos (.inr (by simpa using created)), fun reply => absurd reply created⟩
  | atInviterSearch tid mapPrefs type gametype teamsize =>
    have long := team_packet_long read (.inl ⟨_, _, _, _, _, rfl⟩)
    dsimp only
    by_cases created : calls.replyCreated = true
    · by_cases unknown : gametypeToQueue type gametype < 0
      · refine ⟨_, _, if_pos (.inl unknown), fun _ search known => ?_⟩
        cases known
        exact .inl ⟨-1, rfl, if_pos unknown⟩
      rw [if_neg (by simp [unknown, created])]
      rcases fitting_team long (fits (by omega) created) with
        ⟨found, looked⟩ | ⟨first, rest, found, looked, few⟩
      · rw [found, bind_eq_bind, bind_some]
        refine ⟨_, _, rfl, fun _ search known => ?_⟩
        cases known
        refine .inl ⟨-1, rfl, ?_⟩
        rw [prepareSearch, if_neg unknown, looked]
        rfl
      rw [found, bind_eq_bind, bind_some]
      dsimp only
      rw [inviteMembers, if_pos few, bind_eq_bind, bind_some]
      let a : Anongame := { (world.anongame c).getD newAnongame with
        tid := tid
        mapPrefs := mapPrefs
        type := type
        gametype := gametype
        queue := gametypeToQueue type gametype }
      obtain ⟨after, next, run, agrees⟩ := team_agrees
        (inviteTeam a (first :: rest) (setAnongame world c (some a))) first rest
        (gametypeToQueue type gametype) mapPrefs
      refine ⟨after, next, run, fun _ search known => ?_⟩
      cases known
      rw [prepareSearch, if_neg unknown, looked]
      exact agrees
    · exact ⟨_, _, if_pos (.inr (by simpa using created)), fun reply => absurd reply created⟩
  | atSearch tid teamsize =>
    have long := team_packet_long read (.inr ⟨_, _, rfl⟩)
    dsimp only
    by_cases created : calls.replyCreated = true
    · rw [if_neg (by simp [created])]
      rcases fitting_team long (fits created) with
        ⟨found, looked⟩ | ⟨first, rest, found, looked, few⟩
      · rw [found, bind_eq_bind, bind_some]
        refine ⟨_, _, rfl, fun _ search known => ?_⟩
        cases known
        refine .inl ⟨-1, rfl, ?_⟩
        rw [prepareSearch, looked]
        rfl
      · rw [found, bind_eq_bind, bind_some]
        let a : Anongame := { (world.anongame c).getD newAnongame with tid := tid }
        obtain ⟨after, next, run, agrees⟩ := team_agrees
          (setAnongame world c (some a), (first :: rest).all fun member =>
            ((setAnongame world c (some a)).anongame member).any fun ta => ta.tid = tid)
          first rest a.queue a.mapPrefs
        refine ⟨after, next, run, fun _ search known => ?_⟩
        cases known
        rw [prepareSearch, looked]
        exact agrees
    · exact ⟨_, _, if_pos (by simpa using created), fun reply => absurd reply created⟩

theorem prepare_queues (read : readRequest packet = some request) {after : World}
    (prepared : prepare calls world c packet = some (after, .queues ticket)) :
    calls.replyCreated = true ∧ ∃ search, search ∈ searchOf calls packet request := by
  rw [prepare, read, bind_eq_bind, bind_some] at prepared
  by_cases created : calls.replyCreated = true
  · refine ⟨created, ?_⟩
    cases request with
    | invalid => cases prepared
    | search mapPrefs type gametype => exact ⟨_, rfl⟩
    | atInviterSearch tid mapPrefs type gametype teamsize => exact ⟨_, rfl⟩
    | atSearch tid teamsize => exact ⟨_, rfl⟩
  have missing : (!calls.replyCreated) = true := by simpa using created
  cases request with
  | invalid => cases prepared
  | search mapPrefs type gametype =>
    dsimp only at prepared
    rw [if_pos (.inr missing)] at prepared
    cases prepared
  | atInviterSearch tid mapPrefs type gametype teamsize =>
    dsimp only at prepared
    rw [if_pos (.inr missing)] at prepared
    cases prepared
  | atSearch tid teamsize =>
    dsimp only at prepared
    rw [if_pos missing] at prepared
    cases prepared

theorem prepare_outside (read : readRequest packet = some request)
    (unfit : ¬ RequestFits calls packet request) : prepare calls world c packet = none := by
  rw [prepare, read, bind_eq_bind, bind_some]
  cases request with
  | invalid => exact absurd trivial unfit
  | search mapPrefs type gametype => exact absurd trivial unfit
  | atInviterSearch tid mapPrefs type gametype teamsize =>
    have long := team_packet_long read (.inl ⟨_, _, _, _, _, rfl⟩)
    simp only [RequestFits, Classical.not_imp] at unfit
    obtain ⟨known, created, outside⟩ := unfit
    dsimp only
    rw [if_neg (by simp [created, known])]
    rcases unfitting_team long outside with found | found
    · rw [found]
      rfl
    · rw [found]
      rfl
  | atSearch tid teamsize =>
    have long := team_packet_long read (.inr ⟨_, _, rfl⟩)
    simp only [RequestFits, Classical.not_imp] at unfit
    obtain ⟨created, outside⟩ := unfit
    dsimp only
    rw [if_neg (by simp [created])]
    rcases unfitting_team long outside with found | found
    · rw [found]
      rfl
    · rw [found]
      rfl

end Prepare

/-! A complete match changes the lists: one entry is added and at least two are taken out. -/

section Entries
variable {env : Environment} {world : World} {queue : Nat}

def weight (world : World) (queue : Nat) (g : Matchdata → Nat) : Nat :=
  ∑ level ∈ range maxLevel, ((world.matchlists queue level).map g).sum

theorem weight_set (world : World) (queue : Nat) (g : Matchdata → Nat) {level : Nat}
    (inside : level < maxLevel) (list : List Matchdata) :
    weight (setList world queue level list) queue g + ((world.matchlists queue level).map g).sum =
      weight world queue g + (list.map g).sum := by
  have member : level ∈ range maxLevel := mem_range.mpr inside
  have others : ∑ other ∈ (range maxLevel).erase level,
      (((setList world queue level list).matchlists queue other).map g).sum =
      ∑ other ∈ (range maxLevel).erase level, ((world.matchlists queue other).map g).sum := by
    refine sum_congr rfl fun other listed => ?_
    rw [setList_other _ _ _ _ _ _ (by simp [ne_of_mem_erase listed])]
  rw [weight, weight, ← add_sum_erase _ _ member, ← add_sum_erase _ _ member, others, setList_same]
  omega

theorem weight_unqueue (known : queue < anongameTypes) {c : Conn}
    (listed : ∃ level < maxLevel, ∃ md ∈ world.matchlists queue level, md.c = c) :
    ∃ md, md.c = c ∧ ∀ g, weight (anongameUnqueue world c queue) queue g + g md =
      weight world queue g := by
  obtain ⟨level, inside, entry, present, same⟩ := listed
  unfold anongameUnqueue
  rw [if_neg (by omega)]
  simp only [Int.toNat_natCast]
  split
  · rename_i absent
    have none_here := List.find?_eq_none.mp absent level (List.mem_range.mpr inside)
    exact absurd (List.any_eq_true.mpr ⟨entry, present, by simpa using same⟩) none_here
  rename_i found foundIs
  have foundInside : found < maxLevel := List.mem_range.mp (List.mem_of_find?_eq_some foundIs)
  have holder := List.find?_some foundIs
  simp only [List.any_eq_true] at holder
  obtain ⟨first, firstIn, firstOf⟩ := holder
  obtain ⟨md, before, after, -, taken, whole, rest⟩ :=
    List.exists_of_eraseP (p := fun md => decide (md.c = c)) firstIn firstOf
  refine ⟨md, by simpa using taken, fun g => ?_⟩
  have change := weight_set world queue g foundInside
    ((world.matchlists queue found).eraseP fun md => md.c = c)
  rw [rest] at change ⊢
  rw [whole] at change
  simp only [List.map_append, List.map_cons, List.sum_append, List.sum_cons] at change
  omega

theorem weight_positive {c : Conn}
    (positive : 0 < weight world queue fun md => if md.c = c then 1 else 0) :
    ∃ level < maxLevel, ∃ md ∈ world.matchlists queue level, md.c = c := by
  by_contra none
  have nought : weight world queue (fun md => if md.c = c then 1 else 0) = 0 := by
    refine sum_eq_zero fun level inside => List.sum_eq_zero fun value listed => ?_
    obtain ⟨md, present, rfl⟩ := List.mem_map.mp listed
    rw [if_neg]
    exact fun same => none ⟨level, mem_range.mp inside, md, present, same⟩
  omega

theorem weight_unqueue_all (known : queue < anongameTypes) (players : List Conn) (world : World)
    (enough : ∀ c, players.count c ≤ weight world queue fun md => if md.c = c then 1 else 0) :
    weight (players.foldl (fun world c => anongameUnqueue world c queue) world) queue (fun _ => 1) +
      players.length = weight world queue fun _ => 1 := by
  induction players generalizing world with
  | nil => simp
  | cons first rest ih =>
    have some_entry : 0 < weight world queue fun md => if md.c = first then 1 else 0 := by
      have := enough first
      rw [List.count_cons_self] at this
      omega
    obtain ⟨md, same, taken⟩ := weight_unqueue known (weight_positive some_entry)
    have further := ih (anongameUnqueue world first queue) fun c => by
      have before := enough c
      have less := taken fun md => if md.c = c then 1 else 0
      rw [List.count_cons] at before
      by_cases here : first = c
      · subst here
        rw [if_pos same] at less
        rw [if_pos (by simp)] at before
        omega
      · rw [if_neg (by rw [same]; exact here)] at less
        omega
    have one := taken fun _ => 1
    rw [List.foldl_cons, List.length_cons]
    omega

end Entries

section Chosen
variable {env : Environment} {world : World} {c : Conn} {queue : Nat}

variable {level : Int} {progress : Progress} {enough : Bool} {after : Progress}

theorem traverse_chosen (todo : List Matchdata)
    (run : traverse env world c queue level todo progress = some (after, enough)) :
    (∃ taken : List Matchdata, taken.Sublist todo ∧
      after.chosen.map snd = progress.chosen.map snd ++ taken) ∧
    (enough = true → playersOf env queue after.chosen.length = totalplayers env queue) := by
  induction todo generalizing progress with
  | nil =>
    cases run
    exact ⟨⟨[], List.Sublist.refl _, by simp⟩, by simp⟩
  | cons md rest ih =>
    unfold AnongameMatch.traverse at run
    by_cases suited : suits env c progress.curPrefs md = true
    · rw [if_pos suited] at run
      by_cases room : takes env world queue progress.chosen.length md = true
      · rw [if_pos room] at run
        dsimp only at run
        split at run
        · rename_i complete
          cases run
          exact ⟨⟨[md], by simp, by simp⟩, fun _ => complete⟩
        · obtain ⟨⟨taken, sub, chosen⟩, complete⟩ := ih run
          refine ⟨⟨md :: taken, sub.cons_cons md, ?_⟩, complete⟩
          rw [chosen]
          simp
      · rw [if_neg room] at run
        cases run
    · rw [if_neg suited] at run
      obtain ⟨⟨taken, sub, chosen⟩, complete⟩ := ih run
      exact ⟨⟨taken, sub.cons md, chosen⟩, complete⟩

theorem next_rank (small : level < maxLevel) (delta : Int) :
    rank delta < rank (nextDelta level delta) := by
  unfold nextDelta rank
  simp only [maxLevel] at small ⊢
  split_ifs <;> omega

/-- What was chosen is among the entries of the levels that were visited, each once. -/
def Among (world : World) (queue : Nat) (visited : Finset Nat) (progress : Progress) : Prop :=
  ∀ g : Matchdata → Nat, ((progress.chosen.map snd).map g).sum ≤
    ∑ level ∈ visited, ((world.matchlists queue level).map g).sum

variable {found : List (Option Conn)} {mapPrefs : UInt32} {visited : Finset Nat}

theorem visit_among (among : Among world queue visited progress)
    (fresh : ∀ other ∈ visited, (other : Int) ≠ level)
    (run : visit env world c queue level progress = some (after, enough)) :
    (∃ now, (now = visited ∨ ∃ here : Nat, (here : Int) = level ∧ here < maxLevel ∧
      now = insert here visited) ∧ Among world queue now after) ∧
    (enough = true → playersOf env queue after.chosen.length = totalplayers env queue) := by
  unfold visit at run
  split at run
  · obtain ⟨list, listIs, run⟩ := bind_eq_some_iff.mp run
    unfold listAt at listIs
    split at listIs
    · rename_i inside
      obtain ⟨here, rfl⟩ := Int.eq_ofNat_of_zero_le inside.2.1
      obtain ⟨⟨taken, sub, chosen⟩, complete⟩ := traverse_chosen list run
      refine ⟨⟨insert here visited, .inr ⟨here, rfl, by omega, rfl⟩, fun g => ?_⟩, complete⟩
      have absent : here ∉ visited := fun listed => fresh here listed rfl
      have few := (sub.map g).sum_le_sum fun _ _ => zero_le _
      have before := among g
      rw [chosen, List.map_append, List.sum_append, sum_insert absent]
      rw [← some.inj listIs, Int.toNat_natCast] at few
      omega
    · cases listIs
  · cases run
    exact ⟨⟨visited, .inl rfl, among⟩, by simp⟩

theorem match_among (small : level < maxLevel) (budget : Nat) (visited : Finset Nat) {delta : Int}
    (levels : ∀ other ∈ visited, other < maxLevel ∧ rank (other - level) < rank delta)
    (among : Among world queue visited progress)
    (run : matchLoop env world c queue level budget delta progress = some (after, enough)) :
    (∃ now : Finset Nat, (∀ other ∈ now, other < maxLevel) ∧ Among world queue now after) ∧
    (enough = true → playersOf env queue after.chosen.length = totalplayers env queue) := by
  induction budget generalizing delta progress visited with
  | zero => cases run
  | succ budget ih =>
    unfold matchLoop at run
    split at run
    · obtain ⟨⟨later, complete⟩, visits, run⟩ := bind_eq_some_iff.mp run
      obtain ⟨⟨now, grown, kept⟩, whole⟩ := visit_among among (by
        intro other listed same
        have earlier := (levels other listed).2
        rw [same, add_sub_cancel_left] at earlier
        exact lt_irrefl _ earlier) visits
      have further := next_rank small delta
      have nowLevels : ∀ other ∈ now,
          other < maxLevel ∧ rank (other - level) < rank (nextDelta level delta) := by
        intro other listed
        rcases grown with rfl | ⟨here, hereIs, inside, rfl⟩
        · exact ⟨(levels other listed).1, lt_trans (levels other listed).2 further⟩
        rcases mem_insert.mp listed with rfl | old
        · refine ⟨inside, ?_⟩
          rw [hereIs, add_sub_cancel_left]
          exact further
        · exact ⟨(levels other old).1, lt_trans (levels other old).2 further⟩
      dsimp only at run
      split at run
      · cases run
        exact ⟨⟨now, fun other listed => (nowLevels other listed).1, kept⟩,
          fun _ => whole (by assumption)⟩
      · split at run
        · cases run
          exact ⟨⟨now, fun other listed => (nowLevels other listed).1, kept⟩, by simp⟩
        · exact ih now nowLevels kept run
    · cases run
      exact ⟨⟨visited, fun other listed => (levels other listed).1, among⟩, by simp⟩

theorem among_weight (inside : ∀ other ∈ visited, other < maxLevel)
    (among : Among world queue visited progress) (g : Matchdata → Nat) :
    ((progress.chosen.map snd).map g).sum ≤ weight world queue g :=
  le_trans (among g) (sum_le_sum_of_subset fun other listed =>
    mem_range.mpr (inside other listed))

theorem loop_chosen (run : matchLoop env world c queue level (matchBudget env) 0
      (startProgress env level mapPrefs) = some (progress, enough)) :
    (∀ g, ((progress.chosen.map snd).map g).sum ≤ weight world queue g) ∧
    (enough = true → playersOf env queue progress.chosen.length = totalplayers env queue) := by
  by_cases small : level < maxLevel
  · obtain ⟨⟨now, inside, among⟩, complete⟩ := match_among small (matchBudget env) ∅
      (by simp) (fun g => by simp [startProgress]) run
    exact ⟨among_weight inside among, complete⟩
  -- The list of the searcher's own level is the first one.
  rw [matchBudget, matchLoop] at run
  split at run
  · have outside :
        visit env world c queue (level + 0) (startProgress env level mapPrefs) = none := by
      rw [visit, if_pos]
      · rw [listAt, if_neg (by omega)]
        rfl
      · unfold startProgress
        dsimp only
        split <;> omega
    rw [outside] at run
    cases run
  · cases run
    exact ⟨fun g => by simp [startProgress], by simp⟩

theorem totalplayers_two (tournament : 2 ≤ env.tournamentPlayers) (known : queue < anongameTypes) :
    2 ≤ totalplayers env queue := by
  rw [anongameTypes] at known
  interval_cases queue
  all_goals first
    | exact tournament
    | exact le_of_ble_eq_true rfl

theorem arranged_teams (isArranged : arranged env queue = true) : 2 ≤ totalteams queue := by
  have cases : queue = 5 ∨ queue = 7 ∨ queue = 8 ∨ queue = 17 ∨ queue = 9 := by
    unfold arranged at isArranged
    split at isArranged
    · rename_i kinds
      simp only [typeAt2v2, typeAt3v3, typeAt4v4, typeAt2v2v2] at kinds
      omega
    split at isArranged
    · rename_i tournament
      simp only [typeTy] at tournament
      omega
    · cases isArranged
  obtain rfl | rfl | rfl | rfl | rfl := cases
  all_goals decide

theorem weight_count (entries : List Matchdata) (c : Conn) :
    (entries.map fun md => if md.c = c then 1 else 0).sum = (entries.map Matchdata.c).count c := by
  induction entries with
  | nil => rfl
  | cons md rest ih =>
    rw [List.map_cons, List.sum_cons, ih, List.map_cons, List.count_cons]
    by_cases same : md.c = c
    · simp [same, add_comm]
    · simp [same]

theorem match_shrinks (known : queue < anongameTypes) (total : 2 ≤ totalplayers env queue)
    {after : World} (run : anongameMatch env world c queue = some (some found, after)) :
    weight after queue (fun _ => 1) + 2 ≤ weight world queue fun _ => 1 := by
  rw [anongameMatch] at run
  simp only [bind_eq_bind, bind_eq_some_iff] at run
  obtain ⟨a, -, ⟨progress, enough⟩, loop, ended⟩ := run
  obtain ⟨bound, complete⟩ := loop_chosen loop
  dsimp only at ended
  cases enough with
  | false => cases ended
  | true =>
    have whole := complete rfl
    rw [if_neg (by simp)] at ended
    have counts (players : List Conn) (perm : players.Perm (progress.chosen.map fun entry =>
        entry.2.c)) (person : Conn) : players.count person ≤
        weight world queue fun md => if md.c = person then 1 else 0 := by
      have few := bound fun md => if md.c = person then 1 else 0
      rw [weight_count, List.map_map] at few
      rw [perm.count_eq]
      exact few
    split at ended
    · rename_i isArranged
      have several : 2 ≤ progress.chosen.length := by
        by_contra few
        have smaller := div_lt_self (by omega : 0 < totalplayers env queue)
          (arranged_teams isArranged)
        have bounded := mul_le_mul_right (totalplayers env queue / totalteams queue)
          (by omega : progress.chosen.length ≤ 1)
        rw [playersOf, if_pos isArranged] at whole
        omega
      have removed := weight_unqueue_all known _ world (counts _ (List.Perm.refl _))
      rw [List.length_map] at removed
      cases ended
      omega
    · rename_i single
      have several : 2 ≤ progress.chosen.length := by
        rw [playersOf, if_neg single] at whole
        omega
      have perm := (orderQueue_perm env queue _).trans
        (sortByLevel_perm env world (progress.chosen.map fun entry => entry.2.c))
      have removed := weight_unqueue_all known _ world (counts _ perm)
      rw [perm.length_eq, List.length_map] at removed
      cases ended
      omega

theorem match_changes (tournament : 2 ≤ env.tournamentPlayers) {target : Conn} {place : Int}
    {queued : World} {players : Nat → Nat} {after : Server}
    (added : anongameQueue env world target place mapPrefs = some (0, queued))
    (run : matchPlayers env ⟨queued, players⟩ c place.toNat = some (found, after)) :
    after.world.matchlists ≠ world.matchlists := by
  obtain ⟨impossible, -⟩ | ⟨queue, level, rfl, known, -, inside, -, rfl⟩ :=
    anongameQueue_cases env world queued target place 0 mapPrefs added
  · cases impossible
  have grown := weight_set world queue (fun _ => 1) inside
    (world.matchlists queue level ++ [⟨target, mapPrefs, env.versiontag target⟩])
  rw [List.map_append, List.sum_append] at grown
  simp only [matchPlayers, bind_eq_bind, bind_eq_some_iff] at run
  obtain ⟨a, record, ⟨progress, enough⟩, loop, ⟨told, later⟩, matched, ended⟩ := run
  cases ended
  intro same
  have weights : weight later queue (fun _ => 1) = weight world queue fun _ => 1 := by
    rw [weight, same]
    rfl
  cases told with
  | none =>
    rw [anongameMatch] at matched
    simp only [record, loop, bind_eq_bind, bind_some] at matched
    cases enough with
    | false =>
      cases matched
      simp only [List.map_cons, List.map_nil, List.sum_cons, List.sum_nil] at grown
      omega
    | true =>
      rw [if_neg (by simp)] at matched
      split at matched
      · cases matched
      · cases matched
  | some players =>
    have shrunk := match_shrinks known (totalplayers_two tournament known) matched
    simp only [List.map_cons, List.map_nil, List.sum_cons, List.sum_nil] at grown
    omega

end Chosen

section Safety
variable {env : Environment} {calls : Calls} {server : Server} {c : Conn} {packet : List UInt8}

theorem serve_queues (calls : Calls) {before queued : World}
    {found : List (Option Conn)} {after : Server}
    (added : anongameQueue env before ticket.target ticket.queue ticket.mapPrefs = some (0, queued))
    (run : matchPlayers env { server with world := queued } c ticket.queue.toNat =
      some (found, after))
    (whole : after.players ticket.queue.toNat = totalplayers env ticket.queue.toNat)
    (lost : searchFound calls after.world found = false) :
    serve env calls { server with world := before } c (.queues ticket) = some (-1, after) := by
  rw [serve]
  rw [added, bind_eq_bind, bind_some]
  dsimp only
  rw [if_neg (by decide), run, bind_eq_bind, bind_some]
  rw [if_pos whole, lost, if_neg Bool.false_ne_true]

theorem serve_fails {before : World} {after : Server}
    (failed : serve env calls { server with world := before } c (.queues ticket) =
      some (-1, after)) :
    after = { server with world := before } ∨ ∃ queued found,
      anongameQueue env before ticket.target ticket.queue ticket.mapPrefs = some (0, queued) ∧
      matchPlayers env { server with world := queued } c ticket.queue.toNat = some (found, after) ∧
      after.players ticket.queue.toNat = totalplayers env ticket.queue.toNat ∧
      searchFound calls after.world found = false := by
  rw [serve] at failed
  simp only [bind_eq_bind, bind_eq_some_iff] at failed
  obtain ⟨⟨code, queued⟩, added, failed⟩ := failed
  obtain ⟨rfl, rfl⟩ | ⟨queue, level, -, -, -, -, rfl, -⟩ :=
    anongameQueue_cases env before queued _ _ code _ added
  · cases failed
    exact .inl rfl
  obtain ⟨⟨found, matched⟩, run, failed⟩ := bind_eq_some_iff.mp failed
  split at failed
  · rename_i whole
    split at failed
    · cases failed
    · rename_i lost
      cases failed
      exact .inr ⟨queued, found, added, run, whole, by simpa using lost⟩
  · cases failed

/-- A search is safe if its packet is as long as its option says, its team fits the arrays and the
match that it completes is told to the players. Nothing less will do, as long as a tournament game
has players. -/
theorem search_safe_iff (env : Environment) (calls : Calls) (server : Server) (c : Conn)
    (packet : List UInt8) :
    (RequestSafe env calls server c packet → Safe env calls server c packet) ∧
      (2 ≤ env.tournamentPlayers → Safe env calls server c packet →
        RequestSafe env calls server c packet) := by
  constructor
  · rintro ⟨sized, requests⟩
    obtain ⟨request, read⟩ := read_request_iff.mpr sized
    obtain ⟨fits, told⟩ := requests request read
    obtain ⟨after, next, prepared, agrees⟩ := prepare_fits server.world c read fits
    refine ⟨after, next, prepared, fun later failed => ?_⟩
    have lists := prepare_lists prepared
    cases next with
    | returns code =>
      cases failed
      exact ⟨lists, rfl⟩
    | queues ticket =>
      rcases serve_fails failed with rfl | ⟨queued, found, added, run, whole, lost⟩
      · exact ⟨lists, rfl⟩
      obtain ⟨reply, search, known⟩ := prepare_queues read prepared
      rcases agrees reply search known with ⟨code, impossible, -⟩ | ⟨same, sameNext, searched⟩
      · cases impossible
      cases sameNext
      rw [told reply search known after ticket searched queued added found later run whole]
        at lost
      cases lost
  · rintro tournament ⟨world, next, prepared, unchanged⟩
    obtain ⟨request, read, -⟩ := bind_eq_some_iff.mp prepared
    refine ⟨read_request_iff.mp ⟨request, read⟩, fun other again => ?_⟩
    rw [read] at again
    cases again
    have fits : RequestFits calls packet request := by
      by_contra unfit
      rw [prepare_outside read unfit] at prepared
      cases prepared
    refine ⟨fits, ?_⟩
    intro reply search known before ticket searched queued added found after run whole
    by_contra lost
    obtain ⟨same, sameNext, again, agrees⟩ := prepare_fits server.world c read fits
    rw [prepared] at again
    cases again
    rcases agrees reply search known with ⟨code, -, none_searched⟩ | ⟨told, rfl, told_searched⟩
    · rw [searched] at none_searched
      cases none_searched
    rw [searched] at told_searched
    cases told_searched
    have failed := serve_queues calls added run whole (by simpa using lost)
    have lists := prepare_lists prepared
    rw [← lists] at unchanged
    exact match_changes tournament added run (unchanged after failed).1

def memberPacket (teamsize : UInt8) : List UInt8 :=
  [0xff, 0x44, 51, 0, optionAtSearch] ++ List.replicate 12 0 ++ [teamsize] ++ List.replicate 33 0

def nobody : Calls := ⟨fun _ => none, true, true, fun _ => true⟩

def plainEnvironment : Environment :=
  ⟨fun _ _ => 10, fun _ => none, 6, false, 2, fun _ => 0, fun _ => 0⟩

theorem absent_team_safe :
    Safe plainEnvironment nobody ⟨emptyWorld, fun _ => 0⟩ 7 (memberPacket 2) := by
  refine (search_safe_iff plainEnvironment nobody ⟨emptyWorld, fun _ => 0⟩ 7 (memberPacket 2)).1 ?_
  refine ⟨⟨optionAtSearch, rfl, by decide⟩, fun request again => ?_⟩
  cases again
  refine ⟨fun _ => ⟨by decide, .inl (by decide)⟩, ?_⟩
  intro _ search known world ticket searched
  cases known
  cases searched

/-- A team without members is queued by a connection that was never looked up. -/
theorem empty_team_unsafe :
    ¬ Safe plainEnvironment nobody ⟨emptyWorld, fun _ => 0⟩ 7 (memberPacket 0) := by
  rintro ⟨world, next, prepared, -⟩
  cases prepared

end Safety

end Pvpgn.AnongameSearch
