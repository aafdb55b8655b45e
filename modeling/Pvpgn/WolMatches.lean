import Pvpgn.TextUtil
import Mathlib.Data.List.Find
import Mathlib.Data.List.Induction
import Mathlib.Data.List.Nodup

/-!
The matches of Westwood clients (`anongame_wol.cpp`). Every message to the bot adds an entry to the
match list, a Match request starts a game with the first other entry of the channel, and entries
are removed when their connection goes away.
-/

namespace Pvpgn.WolMatches
open Stdio TextUtil List Option Bool

def space : UInt8 := 32
def clienttagRedalert2 : UInt32 := 0x52414C32
def clienttagYurisrev : UInt32 := 0x59555249
def ral2ChannelFfa : Text := text "Lob 38 0"
def yuriChannelFfa : Text := text "Lob 40 0"
def yuriChannelCoop : Text := text "Lob 39 0"

/-- `t_anongame_wol_player`; the number stands for its address. -/
structure Player (Conn : Type) where
  address : Nat
  conn : Conn

structure State (Conn Channel : Type) where
  matchlist : List (Player Conn)
  channel : Conn → Option Channel
  allocated : Nat

section Code
variable {Conn Channel : Type} [DecidableEq Conn] [DecidableEq Channel]

/-- What the server knows of its connections and channels. -/
structure Server (Conn Channel : Type) where
  clienttag : Conn → UInt32
  channelName : Channel → Text

/-- `channel_get_name`, which has no name for no channel. -/
def channelGetName (server : Server Conn Channel) (channel : Option Channel) : Text :=
  (channel.map server.channelName).getD []

/-- `anongame_wol_player_create` -/
def playerCreate (state : State Conn Channel) (conn : Conn) :
    State Conn Channel × Player Conn :=
  let player := ⟨state.allocated, conn⟩
  ({ state with
    matchlist := state.matchlist ++ [player]
    allocated := state.allocated + 1 }, player)

/-- The games that `anongame_wol_trystart` can start for a client in a channel. -/
def startable (clienttag : UInt32) (channelname : Text) : Bool :=
  if clienttag = clienttagRedalert2 then channelname = ral2ChannelFfa
  else if clienttag = clienttagYurisrev then
    channelname = yuriChannelFfa || channelname = yuriChannelCoop
  else false

/-- `anongame_wol_trystart`, with the connections that the start message is sent to. -/
def trystart (server : Server Conn Channel) (state : State Conn Channel)
    (player1 : Player Conn) : List Conn :=
  match state.matchlist.find? fun player2 => player1.address ≠ player2.address &&
      state.channel player1.conn = state.channel player2.conn with
  | none => []
  | some player2 =>
    if startable (server.clienttag player1.conn)
        (channelGetName server (state.channel player1.conn)) then
      [player1.conn, player2.conn]
    else []

/-- Whether the line is a Match command. -/
def isMatch (line : Text) : Bool := space ∈ line && line.takeWhile (· ≠ space) = text "Match"

/-- `anongame_wol_tokenize_line` -/
def tokenizeLine (server : Server Conn Channel) (state : State Conn Channel) (conn : Conn)
    (line : Text) : State Conn Channel × List Conn :=
  let (state, player) := playerCreate state conn
  (state, if isMatch line then trystart server state player else [])

/-- `anongame_wol_destroy` -/
def destroy (state : State Conn Channel) (conn : Conn) : State Conn Channel :=
  { state with matchlist := state.matchlist.filter fun player => conn ≠ player.conn }

inductive Event (Conn Channel : Type) where
  | message (conn : Conn) (line : Text)
  | channel (conn : Conn) (entered : Option Channel)
  | gone (conn : Conn)

def step (server : Server Conn Channel) (state : State Conn Channel) :
    Event Conn Channel → State Conn Channel × List Conn
  | .message conn line => tokenizeLine server state conn line
  | .channel conn entered =>
    ({ state with channel := Function.update state.channel conn entered }, [])
  | .gone conn =>
    ({ destroy state conn with channel := Function.update state.channel conn none }, [])

/-- What has happened to connections, the latest first. -/
inductive Note (Conn : Type) where
  | request (conn : Conn)
  | start (recipients : List Conn)
  | gone (conn : Conn)

/-- Whether a connection has sent a Match request that no start message has answered. -/
def waiting (conn : Conn) : List (Note Conn) → Bool
  | [] => false
  | .request other :: earlier => other = conn || waiting conn earlier
  | .start recipients :: earlier => conn ∉ recipients && waiting conn earlier
  | .gone other :: earlier => other ≠ conn && waiting conn earlier

structure Config (Conn Channel : Type) where
  state : State Conn Channel
  notes : List (Note Conn)

/-- The notes when a start message is sent: a request comes before what it starts. -/
def asked (event : Event Conn Channel) (notes : List (Note Conn)) : List (Note Conn) :=
  match event with
  | .message conn line => if isMatch line then .request conn :: notes else notes
  | .channel _ _ => notes
  | .gone conn => .gone conn :: notes

def advance (server : Server Conn Channel) (config : Config Conn Channel)
    (event : Event Conn Channel) : Config Conn Channel :=
  let result := step server config.state event
  ⟨result.1, if result.2 = [] then asked event config.notes
    else .start result.2 :: asked event config.notes⟩

def empty : Config Conn Channel := ⟨⟨[], fun _ => none, 0⟩, []⟩

def run (server : Server Conn Channel) (events : List (Event Conn Channel)) :
    Config Conn Channel := events.foldl (advance server) empty

/-- A start message goes to two connections of one channel, which both wait for a match. -/
def FairStart (state : State Conn Channel) (notes : List (Note Conn)) (recipients : List Conn) :
    Prop :=
  ∃ one other, recipients = [one, other] ∧ one ≠ other ∧
    (∃ channel, state.channel one = some channel ∧ state.channel other = some channel) ∧
    waiting one notes = true ∧ waiting other notes = true

/-- In the whole run each connection has at most one entry, start messages are fair, and between two
of them for a connection it has sent a new request. -/
structure Sound (server : Server Conn Channel) (events : List (Event Conn Channel)) : Prop where
  once : ∀ done later, events = done ++ later →
    ((run server done).state.matchlist.map Player.conn).Nodup
  fair : ∀ done event later, events = done ++ event :: later →
    (step server (run server done).state event).2 ≠ [] →
      FairStart (run server done).state (asked event (run server done).notes)
        (step server (run server done).state event).2
  again : ∀ later between earlier first second conn,
    (run server events).notes = later ++ .start second :: (between ++ .start first :: earlier) →
    conn ∈ first → conn ∈ second → .request conn ∈ between

def partner (state : State Conn Channel) (conn : Conn) : Option (Player Conn) :=
  state.matchlist.find? fun player => state.channel conn = state.channel player.conn

/-- The sender has no entry yet, and where its request starts a game, the first entry of its
channel is of a connection that waits. -/
def Meets (server : Server Conn Channel) (config : Config Conn Channel) :
    Event Conn Channel → Prop
  | .message conn line =>
    (∀ player ∈ config.state.matchlist, player.conn ≠ conn) ∧
      (isMatch line = true →
        startable (server.clienttag conn)
          (channelGetName server (config.state.channel conn)) = true →
        ∀ found, partner config.state conn = some found → waiting found.conn config.notes = true)
  | _ => True

section Facts
variable {server : Server Conn Channel} {config : Config Conn Channel} {conn : Conn}

def Allocated (state : State Conn Channel) : Prop :=
  ∀ player ∈ state.matchlist, player.address < state.allocated

variable (events : List (Event Conn Channel)) (state : State Conn Channel)
  (event : Event Conn Channel)

theorem step_allocated (allocated : Allocated state) : Allocated (step server state event).1 := by
  cases event with
  | message conn line =>
    intro player inside
    rcases mem_append.mp inside with old | new
    · exact Nat.lt_succ_of_lt (allocated player old)
    · rw [mem_singleton.mp new]
      exact Nat.lt_succ_self state.allocated
  | channel conn entered => exact allocated
  | gone conn => exact fun player inside => allocated player (mem_filter.mp inside).1

theorem run_append : run server (events ++ [event]) = advance server (run server events) event := by
  rw [run, foldl_append]
  rfl

theorem run_allocated : Allocated (run server events).state := by
  induction events using reverseRecOn with
  | nil => exact fun player never => absurd never not_mem_nil
  | append_singleton events event ih =>
    rw [run_append]
    exact step_allocated _ event ih

omit [DecidableEq Conn] in
theorem other_entry (allocated : Allocated state) (conn : Conn) :
    (state.matchlist ++ [(⟨state.allocated, conn⟩ : Player Conn)]).find? (fun player =>
      state.allocated ≠ player.address && state.channel conn = state.channel player.conn) =
      partner state conn := by
  have fresh : [(⟨state.allocated, conn⟩ : Player Conn)].find? (fun player =>
      state.allocated ≠ player.address && state.channel conn = state.channel player.conn) =
      none := by simp
  rw [find?_append, fresh, or_none]
  apply find?_congr
  intro player inside
  have older := allocated player inside
  have apart : state.allocated ≠ player.address := by omega
  rw [decide_eq_true apart, Bool.true_and]

theorem start_partner (allocated : Allocated state) (conn : Conn) (line : Text) :
    (step server state (.message conn line)).2 =
      if isMatch line = true ∧ startable (server.clienttag conn)
          (channelGetName server (state.channel conn)) = true then
        ((partner state conn).map fun found => [conn, found.conn]).getD []
      else [] := by
  have started : trystart server (playerCreate state conn).1 ⟨state.allocated, conn⟩ =
      if startable (server.clienttag conn) (channelGetName server (state.channel conn)) = true then
        ((partner state conn).map fun found => [conn, found.conn]).getD []
      else [] := by
    rw [trystart]
    split
    · next none =>
        have nobody := (other_entry state allocated conn).symm.trans none
        rw [nobody, map_none, getD_none, ite_self]
    · next player found =>
        have somebody := (other_entry state allocated conn).symm.trans found
        rw [somebody]
        rfl
  have sent : (step server state (.message conn line)).2 =
      if isMatch line = true then
        trystart server (playerCreate state conn).1 ⟨state.allocated, conn⟩ else [] := rfl
  rw [sent, started, ite_and]

omit [DecidableEq Conn] [DecidableEq Channel] in
theorem startable_channel {clienttag : UInt32} {channel : Option Channel}
    (startable : startable clienttag (channelGetName server channel) = true) :
    ∃ found, channel = some found := by
  cases channel with
  | some found => exact ⟨found, rfl⟩
  | none =>
    have nameless : channelGetName server (none : Option Channel) = [] := rfl
    rw [nameless, WolMatches.startable] at startable
    split at startable
    · exact absurd startable (by decide)
    split at startable
    · exact absurd startable (by decide)
    · exact absurd startable (by decide)

def entered (state : State Conn Channel) : List Conn := state.matchlist.map Player.conn

theorem step_once (once : (entered config.state).Nodup) (meets : Meets server config event) :
    (entered (step server config.state event).1).Nodup := by
  cases event with
  | message conn line =>
    have grown : entered (step server config.state (.message conn line)).1 =
        entered config.state ++ [conn] := map_append
    rw [grown, ← concat_eq_append]
    apply once.concat
    intro inside
    obtain ⟨player, old, same⟩ := List.mem_map.mp inside
    exact meets.1 player old same
  | channel conn entered => exact once
  | gone conn => exact once.sublist (filter_sublist.map Player.conn)

theorem step_fair (allocated : Allocated config.state) (meets : Meets server config event)
    (sent : (step server config.state event).2 ≠ []) :
    FairStart config.state (asked event config.notes) (step server config.state event).2 := by
  cases event with
  | channel conn entered => exact absurd rfl sent
  | gone conn => exact absurd rfl sent
  | message conn line =>
    rw [start_partner config.state allocated] at sent ⊢
    split at sent
    · next both =>
        rw [if_pos both]
        cases found : partner config.state conn with
        | none => simp [found] at sent
        | some player =>
          have inside := mem_of_find?_eq_some found
          have shared : config.state.channel conn = config.state.channel player.conn := by
            simpa using find?_some found
          obtain ⟨channel, here⟩ := startable_channel both.2
          have apart : conn ≠ player.conn := (meets.1 player inside).symm
          have waits := meets.2 both.1 both.2 player found
          refine ⟨conn, player.conn, rfl, apart, ⟨channel, here, shared ▸ here⟩, ?_, ?_⟩
          · simp [asked, both.1, waiting]
          · simp [asked, both.1, waiting, waits]
    · exact absurd rfl sent

def answered : List (Note Conn) → Prop
  | [] => True
  | .start recipients :: earlier =>
    (∀ conn ∈ recipients, waiting conn earlier = true) ∧ answered earlier
  | .request _ :: earlier => answered earlier
  | .gone _ :: earlier => answered earlier

theorem waiting_since (between earlier : List (Note Conn)) {first : List Conn}
    (started : conn ∈ first) (waits : waiting conn (between ++ .start first :: earlier) = true) :
    .request conn ∈ between := by
  induction between with
  | nil => simp [waiting, started] at waits
  | cons note rest ih =>
    cases note with
    | request other =>
      rw [cons_append, waiting, or_eq_true, decide_eq_true_eq] at waits
      rcases waits with same | later
      · exact same ▸ mem_cons_self
      · exact mem_cons_of_mem _ (ih later)
    | start recipients =>
      rw [cons_append, waiting, and_eq_true] at waits
      exact mem_cons_of_mem _ (ih waits.2)
    | gone other =>
      rw [cons_append, waiting, and_eq_true] at waits
      exact mem_cons_of_mem _ (ih waits.2)

variable {notes : List (Note Conn)} {recipients : List Conn}

theorem answered_start (later earlier : List (Note Conn))
    (fine : answered (later ++ .start recipients :: earlier)) :
    ∀ conn ∈ recipients, waiting conn earlier = true := by
  induction later with
  | nil => exact fine.1
  | cons note rest ih =>
    cases note with
    | request other => exact ih fine
    | start others => exact ih fine.2
    | gone other => exact ih fine

omit [DecidableEq Channel] in
theorem asked_answered (fine : answered notes) : answered (asked event notes) := by
  cases event with
  | message conn line =>
    rw [asked]
    split
    · exact fine
    · exact fine
  | channel conn entered => exact fine
  | gone conn => exact fine

omit [DecidableEq Channel] in
theorem fair_waiting {state : State Conn Channel} (fair : FairStart state notes recipients) :
    ∀ conn ∈ recipients, waiting conn notes = true := by
  obtain ⟨one, other, rfl, _, _, oneWaits, otherWaits⟩ := fair
  simp [oneWaits, otherWaits]

theorem step_answered (allocated : Allocated config.state) (fine : answered config.notes)
    (meets : Meets server config event) : answered (advance server config event).notes := by
  rw [advance]
  split
  · exact asked_answered event fine
  · next sent =>
      exact ⟨fair_waiting (step_fair event allocated meets sent), asked_answered event fine⟩

theorem run_kept (meets : ∀ done event later, events = done ++ event :: later →
      Meets server (run server done) event) :
    (entered (run server events).state).Nodup ∧ answered (run server events).notes := by
  induction events using reverseRecOn with
  | nil => exact ⟨nodup_nil, trivial⟩
  | append_singleton events event ih =>
    obtain ⟨once, fine⟩ := ih fun done first later split =>
      meets done first (later ++ [event]) (by rw [split]; simp)
    have now := meets events event [] rfl
    rw [run_append]
    exact ⟨step_once event once now, step_answered event (run_allocated events) fine now⟩

theorem sound_meets (sound : Sound server events) (done : List (Event Conn Channel))
    (event : Event Conn Channel) (later : List (Event Conn Channel))
    (split : events = done ++ event :: later) : Meets server (run server done) event := by
  cases event with
  | channel conn entered => trivial
  | gone conn => trivial
  | message conn line =>
    constructor
    · have once := sound.once (done ++ [.message conn line]) later (by rw [split]; simp)
      rw [run_append] at once
      have grown : ((advance server (run server done) (.message conn line)).state.matchlist.map
          Player.conn) = (run server done).state.matchlist.map Player.conn ++ [conn] :=
        map_append
      rw [grown, nodup_append] at once
      intro player inside same
      exact once.2.2 _ (List.mem_map_of_mem inside) _ (mem_singleton_self conn) same
    intro command starts found first
    have recipients : (step server (run server done).state (.message conn line)).2 =
        [conn, found.conn] := by
      rw [start_partner _ (run_allocated done), if_pos ⟨command, starts⟩, first]
      rfl
    have fair := sound.fair done _ later split (by rw [recipients]; exact cons_ne_nil _ _)
    rw [recipients] at fair
    obtain ⟨one, other, same, apart, _, _, waits⟩ := fair
    obtain ⟨rfl, rest⟩ := List.cons.inj same
    obtain ⟨rfl, _⟩ := List.cons.inj rest
    rw [asked, if_pos command, waiting, or_eq_true] at waits
    exact waits.resolve_left (by simpa using apart)

/-- A run is sound if and only if every one of its steps meets the condition. -/
theorem sound_iff (server : Server Conn Channel) (events : List (Event Conn Channel)) :
    Sound server events ↔ ∀ done event later, events = done ++ event :: later →
      Meets server (run server done) event := by
  constructor
  · exact sound_meets events
  intro meets
  refine ⟨?_, ?_, ?_⟩
  · intro done later split
    exact (run_kept done fun first event rest start =>
      meets first event (rest ++ later) (by rw [split, start]; simp)).1
  · intro done event later split sent
    exact step_fair event (run_allocated done) (meets done event later split) sent
  · intro later between earlier first second conn split started again
    have fine := (run_kept events meets).2
    rw [split] at fine
    exact waiting_since between earlier started (answered_start later _ fine conn again)

end Facts

end Code

/-- Two connections in the lobby of Red Alert 2. -/
def redAlert : Server Bool Unit where
  clienttag := fun _ => clienttagRedalert2
  channelName := fun _ => ral2ChannelFfa

def matchLine : Text := text "Match COU=-2, COL=-2"

/-- A client that asks twice is started against itself. -/
theorem own_partner : ¬ Sound redAlert
    [.channel true (some ()), .message true matchLine, .message true matchLine] := by
  intro sound
  have fair := sound.fair [.channel true (some ()), .message true matchLine]
    (.message true matchLine) [] rfl (by decide)
  obtain ⟨one, other, same, apart, _⟩ := fair
  obtain ⟨rfl, rest⟩ := List.cons.inj same
  obtain ⟨rfl, _⟩ := List.cons.inj rest
  exact apart rfl

end Pvpgn.WolMatches
