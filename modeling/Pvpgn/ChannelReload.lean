import Pvpgn.ChannelEntry
import Pvpgn.ChannelRuns

/-!
`channellist_reload`: the members of all channels are copied into temporary records, every channel
is destroyed, the channel file is read again, and everybody is sent back by the short name of the
channel. A copy of a short name that is NULL is a fault, as is a use of a record that was freed.
-/

namespace Pvpgn.ChannelReload
open Stdio ObjectList ObjectStore Channels ChannelMembers ChannelCalls ChannelEntry List
open ChannelRuns
open LinkedList (Cursor cursorBehind)

/-- A line of the channel file whose fields are all valid; the name is NULL for `NONE`. -/
structure Line where
  name : Option Text
  sname : Option Text
  clienttag : UInt32
  botflag : Bool
  operflag : Bool
  logflag : Bool
  country : Option Text
  realmname : Option Text
  max : Int
  modflag : Bool

structure OldMember where
  connection : Nat
  next : Option Nat

structure OldChannel where
  shortname : Option Nat
  memberlist : Option Nat

/-- What `xmalloc` and `xstrdup` have given to `channellist_reload`. -/
structure Records where
  channels : Store OldChannel
  members : Store OldMember
  names : Store Text

structure State where
  server : Server
  records : Records
  channellistOld : List Nat

def noRecords : Records := ⟨.empty, .empty, .empty⟩

def loadLine (env : LogEnv) (channels : ChannelList) (line : Line) : ChannelList :=
  match line.name with
  | some name =>
    (channelCreate env channels name line.sname line.clienttag true line.botflag line.operflag
      line.logflag line.country line.realmname line.max line.modflag false false).1
  | none =>
    match channelFormatName line.sname line.country line.realmname 1 with
    | some newname =>
      (channelCreate env channels newname line.sname line.clienttag true line.botflag
        line.operflag line.logflag line.country line.realmname line.max line.modflag false
        true).1
    | none => channels

/-- A file that cannot be opened is `none`. -/
def channellistLoadPermanent (env : LogEnv) (channels : ChannelList) (file : Option (List Line)) :
    ChannelList :=
  (file.getD []).foldl (loadLine env) channels

def cleared (store : Store Channel) : Store Channel := ⟨[], store.allocated, nodup_nil, by simp⟩

/-- `list_destroy` and `channellist_create` -/
def channellistCreate (env : Env) (file : Option (List Line)) (server : Server) : Server :=
  let channels := { server.channels with head := cleared server.channels.head }
  { server with channels := channellistLoadPermanent env.log channels file }

def copyMember (old : Nat) (records : Records) (connection : Nat) : Option Records := do
  let channel ← records.channels.get old
  some { records with
    members := records.members.append ⟨connection, channel.memberlist⟩
    channels := records.channels.edit old fun channel =>
      { channel with memberlist := some records.members.allocated } }

def setChannelVar (server : Server) (c : Nat) : Server := server.editConn c (.inChannel none)

/-- The second inner loop, over the copies. More copies than are allocated would not end it. -/
def removeMembers (channel : Nat) (members : Store OldMember) :
    Nat → Option Nat → Server → Option Server
  | _, none, server => some server
  | 0, some _, _ => none
  | rounds + 1, some curr, server => do
    let member ← members.get curr
    let (server, _) ← channelDelConnection server channel member.connection
    removeMembers channel members rounds member.next (setChannelVar server member.connection)

def saveMembers (curr : Nat) (channel : Channel) (state : State) : Option State := do
  if channel.memberlist = [] then some state
  else do
    let shortname ← channel.shortname
    let old := state.records.channels.allocated
    let records ← channel.memberlist.foldlM (copyMember old)
      { state.records with
        names := state.records.names.append shortname
        channels := state.records.channels.append ⟨some state.records.names.allocated, none⟩ }
    let saved ← records.channels.get old
    let server ← removeMembers curr records.members records.members.objects.length
      saved.memberlist state.server
    some ⟨server, records, old :: state.channellistOld⟩

/-- The trick to avoid automatic channel destruction. -/
def markPermanent (channel : Channel) : Channel :=
  { channel with flags := channel.flags ||| channelFlagsPermanent }

def markTemporary (channel : Channel) : Channel :=
  { channel with flags := channel.flags &&& ~~~ channelFlagsPermanent }

/-- The body of the first traversal. -/
def reloadChannel (curr : Nat) (state : State) : Option (State × Option Cursor) := do
  let channel ← state.server.channel curr
  let marked := state.server.editChannel curr markPermanent
  let state ← saveMembers curr channel { state with server := marked }
  let server := state.server.editChannel curr markTemporary
  let elems := addresses server.channels.head.objects
  let (server, result) ← channelDestroy server curr
  some ({ state with server }, some (if result < 0 then .elem curr else cursorWithout elems curr))

/-- The records of copied members in the order of their allocation; the links are the addresses and
the connections from the head of the list. -/
def recordsOf : List (Nat × Nat) → Objects OldMember
  | [] => []
  | (address, c) :: rest => recordsOf rest ++ [(address, ⟨c, rest.head?.map Prod.fst⟩)]

structure Saved where
  address : Nat
  name : Nat
  shortname : Text
  links : List (Nat × Nat)

def Saved.connections (saved : Saved) : List Nat := saved.links.map Prod.snd

def Saved.first (saved : Saved) : Option Nat := saved.links.head?.map Prod.fst

structure Holds (records : Records) (saved : List Saved) : Prop where
  channels : records.channels.objects =
    (saved.map fun entry => (entry.address, ⟨some entry.name, entry.first⟩)).reverse
  names : records.names.objects = (saved.map fun entry => (entry.name, entry.shortname)).reverse
  members : records.members.objects = saved.reverse.flatMap fun entry => recordsOf entry.links

theorem holds_nothing : Holds noRecords [] := ⟨rfl, rfl, rfl⟩

theorem record_member {links front back : List (Nat × Nat)} {address c : Nat}
    (split : links = front ++ (address, c) :: back) :
    (address, ⟨c, back.head?.map Prod.fst⟩) ∈ recordsOf links := by
  subst split
  induction front with
  | nil => simp [recordsOf]
  | cons first rest ih => exact mem_append_left _ ih

section Copies
variable {records : Records} {saved : List Saved} {entry : Saved}

section
variable (holds : Holds records saved) (member : entry ∈ saved)
include holds member

theorem Holds.channel :
    records.channels.get entry.address = some ⟨some entry.name, entry.first⟩ := by
  rw [Store.get_mem, holds.channels, mem_reverse]
  exact mem_map_of_mem member

theorem Holds.name :
    records.names.get entry.name = some entry.shortname := by
  rw [Store.get_mem, holds.names, mem_reverse]
  exact mem_map_of_mem member

theorem Holds.link {front back : List (Nat × Nat)} {address c : Nat}
    (split : entry.links = front ++ (address, c) :: back) :
    records.members.get address = some ⟨c, back.head?.map Prod.fst⟩ := by
  rw [Store.get_mem, holds.members]
  exact mem_flatMap.mpr ⟨entry, mem_reverse.mpr member, record_member split⟩

end

theorem length_records (links : List (Nat × Nat)) : (recordsOf links).length = links.length := by
  induction links with
  | nil => rfl
  | cons link rest ih => simp [recordsOf, ih]

theorem Holds.enough (holds : Holds records saved) (member : entry ∈ saved) :
    entry.links.length ≤ records.members.objects.length := by
  obtain ⟨front, back, split⟩ := append_of_mem (mem_reverse.mpr member)
  rw [holds.members, split]
  simp only [flatMap_append, flatMap_cons, length_append, length_records]
  omega

theorem copy_member (holds : Holds records (entry :: saved)) (connection : Nat) :
    ∃ after address, copyMember entry.address records connection = some after ∧
      Holds after ({ entry with links := (address, connection) :: entry.links } :: saved) := by
  have there := holds.channel mem_cons_self
  refine ⟨{ records with
    members := records.members.append ⟨connection, entry.first⟩
    channels := records.channels.edit entry.address fun channel =>
      { channel with memberlist := some records.members.allocated } },
    records.members.allocated, ?_, ?_, ?_, ?_⟩
  · rw [copyMember, there]
    rfl
  · have split : records.channels.objects = (saved.map fun entry =>
        (entry.address, (⟨some entry.name, entry.first⟩ : OldChannel))).reverse ++
          (entry.address, ⟨some entry.name, entry.first⟩) :: [] := by
      simp [holds.channels]
    rw [Store.edit_split _ split]
    simp [Saved.first]
  · simp [holds.names]
  · simp [holds.members, recordsOf, Saved.first]

theorem copy_members (connections : List Nat) (holds : Holds records (entry :: saved)) :
    ∃ after links, connections.foldlM (copyMember entry.address) records = some after ∧
      Holds after ({ entry with links } :: saved) ∧
      links.map Prod.snd = connections.reverse ++ entry.connections := by
  induction connections generalizing records entry with
  | nil => exact ⟨records, entry.links, rfl, holds, rfl⟩
  | cons connection rest ih =>
    obtain ⟨middle, address, copied, held⟩ := copy_member holds connection
    obtain ⟨after, links, ran, kept, order⟩ := ih held
    refine ⟨after, links, ?_, kept, ?_⟩
    · rw [foldlM_cons, copied]
      exact ran
    · rw [order]
      simp [Saved.connections]

theorem save_channel (holds : Holds records saved) (shortname : Text) :
    Holds { records with
        names := records.names.append shortname
        channels := records.channels.append ⟨some records.names.allocated, none⟩ }
      (⟨records.channels.allocated, records.names.allocated, shortname, []⟩ :: saved) := by
  refine ⟨?_, ?_, ?_⟩
  · simp [holds.channels, Saved.first]
  · simp [holds.names]
  · simp [holds.members, recordsOf]

end Copies

/-! The first traversal. -/

structure Emptying (server after : Server) (curr : Nat) (out : List Nat) : Prop where
  channels : ∀ place, place ≠ curr → after.channel place = server.channel place
  list : addresses after.channels.head.objects = addresses server.channels.head.objects
  conns : addresses after.conns.objects = addresses server.conns.objects
  seats : ∀ c, seatOf after.conns c = if c ∈ out then none else seatOf server.conns c

section Expelling
variable {pool : Pool} {server : Server} {curr c : Nat} {channel : Channel}

theorem member_alive (consistent : Consistent pool none server)
    (found : server.channel curr = some channel) (member : c ∈ channel.memberlist) :
    ∃ conn, server.conns.get c = some conn ∧ conn.channel = some curr :=
  seat_alive ((consistent.seated.members c curr).mpr ⟨channel, found, member⟩)

theorem vacate_permanent (always : permanent channel = true) (head : Store Channel)
    (address c : Nat) : vacate head address c channel = head.edit address (removeMember c) := by
  rw [vacate, if_neg (by simp [always])]

theorem expel_member (consistent : Consistent pool none server)
    (found : server.channel curr = some channel) (always : permanent channel = true)
    (member : c ∈ channel.memberlist) :
    ∃ middle, channelDelConnection server curr c = some (middle, 0) ∧
      Consistent pool none (setChannelVar middle c) ∧
      (setChannelVar middle c).channel curr = some (removeMember c channel) ∧
      Emptying server (setChannelVar middle c) curr [c] := by
  obtain ⟨conn, alive, here⟩ := member_alive consistent found member
  have seat : seatOf server.conns c = some curr := by
    rw [seatOf, alive]
    exact here
  obtain ⟨conns, deleted, retouched⟩ := del_connection found alive member
  have moved := retouched_under retouched c
    (fun conn => show plain (conn.inChannel none) = (plain conn).inChannel none from rfl)
  have vacated := seated_vacate consistent.seated found seat (consistent_few consistent found)
  have settled : Settled server (setChannelVar { server with
      channels := { server.channels with head := vacate server.channels.head curr c channel }
      conns } c) c none := settled_of_moved alive moved
  refine ⟨_, deleted, consistent_moved consistent alive moved rfl vacated, ?_, ?_, ?_,
    settled.listed, fun other => ?_⟩
  · rw [Server.channel, setChannelVar, Server.editConn]
    simp only [vacate_permanent always]
    rw [Store.get_edit, if_pos rfl]
    exact congrArg (Option.map (removeMember c)) found
  · intro place away
    rw [Server.channel, setChannelVar, Server.editConn]
    simp only [vacate_permanent always]
    rw [Store.get_edit, if_neg away]
    rfl
  · simp [setChannelVar, Server.editConn, vacate_permanent always]
  · by_cases own : other = c
    · rw [own, if_pos mem_cons_self]
      exact settled.own
    · rw [if_neg (by simpa using own)]
      exact settled.others other own

theorem remove_members {members : Store OldMember} (links : List (Nat × Nat)) (rounds : Nat)
    (enough : links.length ≤ rounds)
    (copied : ∀ front back address c, links = front ++ (address, c) :: back →
      members.get address = some ⟨c, back.head?.map Prod.fst⟩)
    (consistent : Consistent pool none server) (found : server.channel curr = some channel)
    (always : permanent channel = true) (same : (links.map Prod.snd).Perm channel.memberlist) :
    ∃ after left, removeMembers curr members rounds (links.head?.map Prod.fst) server = some after ∧
      Consistent pool none after ∧ after.channel curr = some left ∧ left.memberlist = [] ∧
      Emptying server after curr (links.map Prod.snd) := by
  induction links generalizing server channel rounds with
  | nil =>
    refine ⟨server, channel, by cases rounds <;> rfl, consistent, found, ?_, fun _ _ => rfl, rfl,
      rfl, fun _ => rfl⟩
    exact nil_perm.mp same
  | cons link rest ih =>
    obtain ⟨address, c⟩ := link
    obtain ⟨more, rfl⟩ := Nat.exists_eq_add_of_le' (le_trans (by simp) enough : 1 ≤ rounds)
    have member : c ∈ channel.memberlist := same.subset mem_cons_self
    obtain ⟨middle, deleted, consistentMiddle, there, first⟩ :=
      expel_member consistent found always member
    have fewer : (rest.map Prod.snd).Perm (removeMember c channel).memberlist :=
      (cons_perm_iff_perm_erase.mp same).2
    have further (front back : List (Nat × Nat)) (other d : Nat)
        (split : rest = front ++ (other, d) :: back) :
        members.get other = some ⟨d, back.head?.map Prod.fst⟩ := by
      refine copied ((address, c) :: front) back other d ?_
      rw [split]
      rfl
    obtain ⟨after, left, ran, consistentAfter, last, empty, then_⟩ :=
      ih more (by simpa using enough) further consistentMiddle there always fewer
    have read := copied [] rest address c rfl
    refine ⟨after, left, ?_, consistentAfter, last, empty, fun place away => ?_,
      then_.list.trans first.list, then_.conns.trans first.conns, fun other => ?_⟩
    · simp only [head?_cons, Option.map_some, removeMembers, read, deleted,
        Option.bind_eq_bind, Option.bind_some, ran]
    · rw [then_.channels place away, first.channels place away]
    rw [then_.seats, first.seats]
    by_cases later : other ∈ rest.map Prod.snd
    · rw [if_pos later]
      exact (if_pos (mem_cons_of_mem _ later)).symm
    · by_cases own : other = c
      · simp [own]
      · simp only [mem_cons, map_cons, later, mem_nil_iff, if_false]

theorem seated_reflag {head : Store Channel} {seat : Nat → Option Nat}
    (change : Channel → Channel) (seated : Seated none head seat)
    (members : ∀ channel, (change channel).memberlist = channel.memberlist)
    (count : ∀ channel, (change channel).currmembers = channel.currmembers) (curr : Nat) :
    Seated (some curr) (head.edit curr change) seat := by
  have back {place : Nat} {later : Channel}
      (there : (head.edit curr change).get place = some later) :
      ∃ channel, head.get place = some channel ∧ later.memberlist = channel.memberlist ∧
        later.currmembers = channel.currmembers ∧ (place ≠ curr → later = channel) := by
    rw [Store.get_edit] at there
    split at there
    · rename_i same
      obtain ⟨channel, found, rfl⟩ := Option.map_eq_some_iff.mp there
      exact ⟨channel, found, members channel, count channel, fun away => absurd same away⟩
    · exact ⟨later, there, rfl, rfl, fun _ => rfl⟩
  constructor
  · intro c place
    rw [seated.members, Store.get_edit]
    by_cases same : place = curr
    · rw [if_pos same]
      simp [members]
    · rw [if_neg same]
  · intro place later there
    obtain ⟨channel, found, list, _⟩ := back there
    rw [list]
    exact seated.once place channel found
  · intro place later there
    obtain ⟨channel, found, list, counted, _⟩ := back there
    rw [list, counted]
    exact seated.counted place channel found
  · intro place later there
    obtain ⟨channel, found, list, _, unless_⟩ := back there
    by_cases same : place = curr
    · exact .inr (.inr (congrArg some same.symm))
    rw [unless_ same]
    rcases seated.peopled place channel found with always | some | never
    · exact .inl always
    · exact .inr (.inl some)
    · cases never

theorem flag_set (flags flag : UInt32) : (flags ||| flag) &&& flag = flag := by
  rw [← UInt32.toBitVec_inj]
  simp only [UInt32.toBitVec_and, UInt32.toBitVec_or]
  ext index bound
  simp only [BitVec.getElem_and, BitVec.getElem_or]
  cases flags.toBitVec[index] <;> simp

theorem permanent_mark (channel : Channel) : permanent (markPermanent channel) = true := by
  rw [permanent, hasFlag, markPermanent, flag_set]
  rfl

section
variable (consistent : Consistent pool none server) (found : server.channel curr = some channel)
include consistent found

theorem mark_consistent :
    Consistent pool none (server.editChannel curr markPermanent) := by
  refine ⟨?_, consistent.accounts, consistent.room⟩
  have marked : (server.channels.head.edit curr markPermanent).get curr =
      some (markPermanent channel) := by
    rw [Store.get_edit, if_pos rfl]
    exact congrArg (Option.map markPermanent) found
  have reflagged : Seated (some curr) (server.channels.head.edit curr markPermanent)
      (seatOf server.conns) :=
    seated_reflag markPermanent consistent.seated (fun _ => rfl) (fun _ => rfl) curr
  exact seated_settle reflagged marked (.inl (permanent_mark channel))

theorem drop_channel (empty : channel.memberlist = []) :
    ∃ after, channelDestroy (server.editChannel curr markTemporary) curr = some (after, 0) ∧
      Consistent pool none after ∧ after.conns = server.conns ∧
      after.channels.head = (server.channels.head.edit curr markTemporary).free curr := by
  have marked : (server.channels.head.edit curr markTemporary).get curr =
      some (markTemporary channel) := by
    rw [Store.get_edit, if_pos rfl]
    exact congrArg (Option.map markTemporary) found
  have there : (server.editChannel curr markTemporary).channel curr =
      some (markTemporary channel) := marked
  have bare : ¬ (markTemporary channel).memberlist ≠ [] := not_not.mpr empty
  refine ⟨{ server with channels :=
      { server.channels with head := (server.channels.head.edit curr markTemporary).free curr } },
    ?_, ⟨?_, consistent.accounts, consistent.room⟩, rfl, rfl⟩
  · rw [channelDestroy, there, Option.bind_eq_bind, Option.bind_some, if_neg bare]
    rfl
  · have reflagged : Seated (some curr) (server.channels.head.edit curr markTemporary)
        (seatOf server.conns) :=
      seated_reflag markTemporary consistent.seated (fun _ => rfl) (fun _ => rfl) curr
    exact seated_free reflagged marked empty

end

theorem emptying_refl (server : Server) (curr : Nat) : Emptying server server curr [] :=
  ⟨fun _ _ => rfl, rfl, rfl, fun _ => rfl⟩

theorem save_members (state : State) (channel : Channel) {saved : List Saved} {marked : Channel}
    (consistent : Consistent pool none state.server)
    (found : state.server.channel curr = some marked) (always : permanent marked = true)
    (same : marked.memberlist = channel.memberlist) (holds : Holds state.records saved)
    (named : channel.memberlist ≠ [] → channel.shortname.isSome) :
    ∃ after left more, saveMembers curr channel state = some after ∧
      Consistent pool none after.server ∧ after.server.channel curr = some left ∧
      left.memberlist = [] ∧ Emptying state.server after.server curr channel.memberlist ∧
      Holds after.records (more ++ saved) ∧
      after.channellistOld = more.map Saved.address ++ state.channellistOld ∧
      (more.flatMap Saved.connections).Perm channel.memberlist ∧
      ∀ entry ∈ more, channel.shortname = some entry.shortname := by
  by_cases empty : channel.memberlist = []
  · refine ⟨state, marked, [], ?_, consistent, found, same.trans empty, ?_, holds, rfl, ?_,
      fun _ never => absurd never not_mem_nil⟩
    · rw [saveMembers, if_pos empty]
    · rw [empty]
      exact emptying_refl _ _
    · rw [empty]
      exact Perm.refl _
  obtain ⟨shortname, name⟩ := Option.isSome_iff_exists.mp (named empty)
  obtain ⟨records, links, copied, held, order⟩ :=
    copy_members channel.memberlist (save_channel holds shortname)
  have connections : links.map Prod.snd = channel.memberlist.reverse := by
    simpa [Saved.connections] using order
  have perm : (links.map Prod.snd).Perm marked.memberlist := by
    rw [connections, same]
    exact reverse_perm _
  obtain ⟨after, left, ran, kept, last, bare, emptying⟩ := remove_members links
    records.members.objects.length (held.enough mem_cons_self)
    (fun front back address c split => held.link mem_cons_self split)
    consistent found always perm
  refine ⟨⟨after, records, state.records.channels.allocated :: state.channellistOld⟩, left,
    [⟨state.records.channels.allocated, state.records.names.allocated, shortname, links⟩], ?_,
    kept, last, bare, ⟨emptying.channels, emptying.list, emptying.conns, fun c => ?_⟩, held, rfl,
    ?_, ?_⟩
  · have read := held.channel mem_cons_self
    simp only [saveMembers, if_neg empty, name, copied, read, Option.bind_eq_bind, Option.bind_some]
    rw [Saved.first] at *
    simp only [ran, Option.bind_some]
  · rw [emptying.seats, connections]
    simp only [mem_reverse]
  · simp only [flatMap_cons, flatMap_nil, append_nil, Saved.connections]
    rw [connections]
    exact reverse_perm _
  · intro entry member
    rw [mem_singleton.mp member]
    exact name

end Expelling

section Destroying
variable {pool : Pool} {start : Server}

structure Halfway (pool : Pool) (start : Server) (state : State) (back : List Nat)
    (saved : List Saved) : Prop where
  consistent : Consistent pool none state.server
  left : addresses state.server.channels.head.objects = back
  same : ∀ place ∈ back, state.server.channel place = start.channel place
  conns : addresses state.server.conns.objects = addresses start.conns.objects
  seats : ∀ c, seatOf state.server.conns c = (seatOf start.conns c).filter (· ∈ back)
  holds : Holds state.records saved
  old : state.channellistOld = saved.map Saved.address
  copied : ∀ entry ∈ saved, ∃ place channel, place ∉ back ∧ start.channel place = some channel ∧
    channel.shortname = some entry.shortname ∧ ∀ c ∈ entry.connections, c ∈ channel.memberlist
  complete : ∀ c place, seatOf start.conns c = some place → place ∉ back →
    c ∈ saved.flatMap Saved.connections
  once : (saved.flatMap Saved.connections).Nodup

theorem halfway_start (consistent : Consistent pool none start) :
    Halfway pool start ⟨start, noRecords, []⟩ (addresses start.channels.head.objects) [] := by
  have listed (c place : Nat) (here : seatOf start.conns c = some place) :
      place ∈ addresses start.channels.head.objects := by
    obtain ⟨channel, found, _⟩ := seated_listed consistent.seated here
    exact (start.channels.head.get_listed place).mp ⟨channel, found⟩
  refine ⟨consistent, rfl, fun _ _ => rfl, rfl, fun c => ?_, holds_nothing, rfl,
    fun _ never => absurd never not_mem_nil, fun c place here away => ?_, nodup_nil⟩
  · cases here : seatOf start.conns c with
    | none => rfl
    | some place =>
      have member := listed c place here
      simp [Option.filter, member]
  · exact absurd (listed c place here) away

variable {back : List Nat}

theorem first_gone {elems : List Nat} {curr : Nat} (distinct : elems.Nodup)
    (split : elems = curr :: back) : elems.filter (· ≠ curr) = back ∧
      cursorWithout elems curr = .listhead ∧ curr ∉ back := by
  subst split
  have apart := (nodup_cons.mp distinct).1
  have gone : ([] ++ curr :: back).filter (· ≠ curr) = [] ++ back := filter_split distinct
  have cursor : cursorWithout ([] ++ curr :: back) curr = cursorBehind [] := cursor_without distinct
  exact ⟨gone, cursor, apart⟩

theorem reload_round {state : State} {curr : Nat} {saved : List Saved}
    (consistent : Consistent pool none start) (half : Halfway pool start state (curr :: back) saved)
    (named : ∀ place channel, start.channel place = some channel → channel.memberlist ≠ [] →
      channel.shortname.isSome) :
    ∃ after more, reloadChannel curr state = some (after, some .listhead) ∧
      Halfway pool start after back more := by
  have listed : curr ∈ addresses state.server.channels.head.objects := by
    rw [half.left]
    exact mem_cons_self
  obtain ⟨channel, found⟩ := (state.server.channels.head.get_listed curr).mpr listed
  have there : state.server.channel curr = some channel := found
  have source : start.channel curr = some channel := by
    rw [← half.same curr mem_cons_self, there]
  have marked : (state.server.editChannel curr markPermanent).channel curr =
      some (markPermanent channel) := by
    rw [Server.channel, Server.editChannel, Store.get_edit, if_pos rfl]
    exact congrArg (Option.map markPermanent) found
  obtain ⟨after, left, more, ran, kept, last, bare, emptying, holds, old, perm, names⟩ :=
    save_members { state with server := state.server.editChannel curr markPermanent } channel
      (mark_consistent half.consistent there) marked (permanent_mark channel) rfl half.holds
      (named curr channel source)
  have elems : addresses after.server.channels.head.objects = curr :: back := by
    rw [emptying.list, Server.editChannel, Store.addresses_edit, half.left]
  obtain ⟨rest, cursor, away⟩ := first_gone after.server.channels.head.distinct elems
  obtain ⟨dropped, gone, settled, conns, head⟩ := drop_channel kept last bare
  have seated (c place : Nat) (other : Channel) (known : start.channel place = some other) :
      c ∈ other.memberlist ↔ seatOf start.conns c = some place := by
    rw [consistent.seated.members]
    constructor
    · exact fun inside => ⟨other, known, inside⟩
    · rintro ⟨again, same, inside⟩
      rw [Server.channel, same] at known
      exact Option.some.inj known ▸ inside
  have still : seatOf (state.server.editChannel curr markPermanent).conns =
      seatOf state.server.conns := rfl
  refine ⟨{ after with server := dropped }, more ++ saved, ?_, settled, ?_, fun place inside => ?_,
    ?_, fun c => ?_, holds, ?_, fun entry inside => ?_, fun c place here outside => ?_, ?_⟩
  · simp only [reloadChannel, there, ran, gone, Option.bind_eq_bind, Option.bind_some]
    have list : addresses (after.server.editChannel curr markTemporary).channels.head.objects =
        addresses after.server.channels.head.objects := Store.addresses_edit _ _ _
    rw [if_neg (lt_irrefl 0), list, cursor]
  · have list : (dropped.channels.head.objects) =
        without (after.server.channels.head.edit curr markTemporary).objects curr := by
      rw [head]
      rfl
    rw [list, addresses_without, Store.addresses_edit, rest]
  · have apart : place ≠ curr := ne_of_mem_of_not_mem inside away
    rw [Server.channel, head, Store.get_free, if_neg apart, Store.get_edit, if_neg apart]
    refine (emptying.channels place apart).trans ?_
    rw [← half.same place (mem_cons_of_mem _ inside), Server.channel, Server.editChannel,
      Store.get_edit, if_neg apart]
    rfl
  · rw [conns, emptying.conns]
    exact half.conns
  · rw [conns, emptying.seats, still, half.seats]
    by_cases inside : c ∈ channel.memberlist
    · have here := (seated c curr channel source).mp inside
      rw [if_pos inside, here]
      simp [Option.filter, away]
    rw [if_neg inside]
    have apart : seatOf start.conns c ≠ some curr := fun here =>
      inside ((seated c curr channel source).mpr here)
    cases here : seatOf start.conns c with
    | none => rfl
    | some place =>
      have other : place ≠ curr := fun same => apart (by rw [here, same])
      simp [Option.filter, other]
  · rw [old, map_append]
    exact congrArg _ half.old
  · rcases mem_append.mp inside with new | past
    · refine ⟨curr, channel, away, source, names entry new, fun c member => ?_⟩
      exact perm.subset (mem_flatMap.mpr ⟨entry, new, member⟩)
    · obtain ⟨place, other, outside, known, name, members⟩ := half.copied entry past
      exact ⟨place, other, fun behind => outside (mem_cons_of_mem _ behind), known, name, members⟩
  · rw [flatMap_append, mem_append]
    by_cases same : place = curr
    · subst same
      exact .inl (perm.symm.subset ((seated c place channel source).mpr here))
    · exact .inr (half.complete c place here (by simp [same, outside]))
  · rw [flatMap_append]
    refine Nodup.append (perm.nodup_iff.mpr (consistent.seated.once curr channel source))
      half.once fun c new past => ?_
    have here := (seated c curr channel source).mp (perm.subset new)
    obtain ⟨entry, inside, member⟩ := mem_flatMap.mp past
    obtain ⟨place, other, outside, known, _, members⟩ := half.copied entry inside
    have there := (seated c place other known).mp (members c member)
    rw [here] at there
    exact outside (Option.some.inj there ▸ mem_cons_self)

end Destroying

/-! The new list. -/

section Loading
variable {pool : Pool} {head : Store Channel} {seat : Nat → Option Nat}

theorem create_seated (env : LogEnv) (channels : ChannelList) (fullname : Text)
    (shortname : Option Text) (clienttag : UInt32) (botflag operflag logflag : Bool)
    (country realmname : Option Text) (maxmembers : Int) (moderated clanflag autoname : Bool)
    (seated : Seated none channels.head seat) :
    Seated none (channelCreate env channels fullname shortname clienttag true botflag operflag
      logflag country realmname maxmembers moderated clanflag autoname).1.head seat := by
  rcases create_outcome env channels fullname shortname clienttag true botflag operflag logflag
    country realmname maxmembers moderated clanflag autoname with
    refused | ⟨channel, totalcount, created, made⟩
  · rw [refused]
    exact seated
  · rw [made]
    exact seated_append seated created.memberlist created.currmembers (.inl created.permanent)

variable {channels : ChannelList}

theorem load_line_seated (env : LogEnv) (line : Line) (seated : Seated none channels.head seat) :
    Seated none (loadLine env channels line).head seat := by
  rw [loadLine]
  split
  · exact create_seated _ _ _ _ _ _ _ _ _ _ _ _ _ _ seated
  · split
    · exact create_seated _ _ _ _ _ _ _ _ _ _ _ _ _ _ seated
    · exact seated

theorem load_seated (env : LogEnv) (file : Option (List Line))
    (seated : Seated none channels.head seat) :
    Seated none (channellistLoadPermanent env channels file).head seat := by
  rw [channellistLoadPermanent]
  generalize file.getD [] = lines
  induction lines generalizing channels with
  | nil => exact seated
  | cons line rest ih => exact ih (load_line_seated env line seated)

theorem cleared_seated (head : Store Channel) (nowhere : ∀ c, seat c = none) :
    Seated none (cleared head) seat := by
  refine ⟨fun c place => ?_, fun _ _ never => (by cases never), fun _ _ never => (by cases never),
    fun _ _ never => (by cases never)⟩
  rw [nowhere]
  refine iff_of_false (Option.some_ne_none place).symm ?_
  rintro ⟨_, never, _⟩
  cases never

theorem create_consistent {server : Server} (env : Env) (file : Option (List Line))
    (consistent : Consistent pool none server) (nowhere : ∀ c, seatOf server.conns c = none) :
    Consistent pool none (channellistCreate env file server) :=
  ⟨load_seated env.log file (cleared_seated server.channels.head nowhere), consistent.accounts,
    consistent.room⟩

end Loading

/-! The second traversal. -/

section Rejoining
variable {pool : Pool} {env : Env} {start server : Server} {records : Records}
  {saved : List Saved} {entry : Saved}

variable {todo : List Nat}

section
variable (consistent : Consistent pool none start) (holds : Holds records saved)
include consistent holds

end

end Rejoining

/-! The third traversal. -/

section Releasing
variable {records : Records} {saved : List Saved} {entry : Saved}

theorem Holds.distinct (holds : Holds records saved) : (saved.map Saved.address).Nodup := by
  have distinct := records.channels.distinct
  rw [holds.channels, addresses, map_reverse, nodup_reverse, map_map] at distinct
  exact distinct

end Releasing

/-! A whole reload. -/

section Seats
variable {pool : Pool} {server : Server} {c : Nat}

end Seats

def twoPlayers (env : Env) (channelname : Text) : List (Env × Event) :=
  [(env, .accept .telnet none none), (env, .login 0 7), (env, .accept .telnet none none),
    (env, .login 1 8), (env, .setChannel 0 channelname), (env, .setChannel 1 channelname)]

end Pvpgn.ChannelReload
