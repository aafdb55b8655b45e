import Pvpgn.ObjectStore
import Pvpgn.Stdio

/-!
The chat channels of `channel.cpp`: creating one, and finding one by a full or a short name, where
a new copy of a permanent channel is created when the others are full. A NULL text is `none`.
-/

namespace Pvpgn.Channels
open Stdio ObjectStore

def channelFlagsNone : UInt32 := 0x00
def channelFlagsPublic : UInt32 := 0x01
def channelFlagsModerated : UInt32 := 0x02
def channelFlagsThevoid : UInt32 := 0x08
def channelFlagsSystem : UInt32 := 0x10
def channelFlagsPermanent : UInt32 := 0x40
def channelFlagsAllowbots : UInt32 := 0x80
def channelFlagsAllowopers : UInt32 := 0x100
def channelFlagsClan : UInt32 := 0x200
def channelFlagsAutoname : UInt32 := 0x400

def channelNameBanned : Text := text "THE VOID"
def channelNameKicked : Text := text "THE VOID"

/-- A channel. `channel_create` refuses an empty name and an empty short name. -/
structure Channel where
  name : Text
  shortname : Option Text
  country : Option Text
  realmname : Option Text
  flags : UInt32
  maxmembers : Int
  currmembers : Int
  clienttag : UInt32
  id : UInt32
  memberlist : List Nat
  banlist : List Text
  logname : Option Text
  named : name ≠ []
  aliased : shortname ≠ some []

abbrev Entry := Nat × Channel

/-- `channellist_head` and `totalcount` -/
structure ChannelList where
  head : Store Channel
  totalcount : UInt32

structure LogEnv where
  chanlogdir : Text
  dstr : Text

def hasFlag (flags flag : UInt32) : Bool := flags &&& flag ≠ 0

def flagIf (condition : Bool) (flag : UInt32) : UInt32 := if condition then flag else 0

def channellistFindChannelByFullname (channels : ChannelList) (name : Text) : Option Entry :=
  channels.head.objects.find? fun entry => sameCaseless entry.2.name name

/-- What `channel_create` checks before it creates another permanent channel of a full name. -/
def refuses (channel : Channel) (clienttag : UInt32) (botflag operflag logflag : Bool)
    (maxmembers : Int) (moderated : Bool) : Bool :=
  (channel.clienttag ≠ 0 && clienttag ≠ 0 && channel.clienttag = clienttag) ||
    (channel.flags &&& channelFlagsAllowbots ≠ flagIf botflag channelFlagsAllowbots ||
      channel.flags &&& channelFlagsAllowopers ≠ flagIf operflag channelFlagsAllowopers ||
      channel.maxmembers ≠ maxmembers ||
      channel.flags &&& channelFlagsModerated ≠ flagIf moderated channelFlagsModerated ||
      channel.logname.isSome ≠ logflag)

def newFlags (shortname : Option Text) (clienttag : UInt32) (permflag botflag operflag : Bool)
    (maxmembers : Int) (moderated clanflag autoname : Bool) : UInt32 :=
  flagIf permflag channelFlagsPublic |||
    flagIf (permflag && clienttag ≠ 0 && maxmembers ≠ -1) channelFlagsSystem |||
    flagIf moderated channelFlagsModerated |||
    flagIf (shortname.any fun own =>
      sameCaseless own channelNameKicked || sameCaseless own channelNameBanned)
      channelFlagsThevoid |||
    flagIf permflag channelFlagsPermanent |||
    flagIf botflag channelFlagsAllowbots |||
    flagIf operflag channelFlagsAllowopers |||
    flagIf clanflag channelFlagsClan |||
    flagIf autoname channelFlagsAutoname

def channelCreate (env : LogEnv) (channels : ChannelList) (fullname : Text)
    (shortname : Option Text) (clienttag : UInt32) (permflag botflag operflag logflag : Bool)
    (country realmname : Option Text) (maxmembers : Int) (moderated clanflag autoname : Bool) :
    ChannelList × Option Entry :=
  if named : fullname = [] then (channels, none)
  else if aliased : shortname = some [] then (channels, none)
  else if permflag && (channellistFindChannelByFullname channels fullname).any fun entry =>
      refuses entry.2 clienttag botflag operflag logflag maxmembers moderated then (channels, none)
  else
    let totalcount := if channels.totalcount + 1 = 0 then 1 else channels.totalcount + 1
    let channel : Channel :=
      { name := fullname, shortname, country, realmname
        flags := newFlags shortname clienttag permflag botflag operflag maxmembers moderated
          clanflag autoname
        maxmembers, currmembers := 0, clienttag, id := totalcount
        memberlist := [], banlist := []
        logname := if logflag then
            some (env.chanlogdir ++ text "/chanlog-" ++ env.dstr ++ text "-" ++
              zeroPadded 6 (unsigned totalcount.toNat))
          else none
        named, aliased }
    ({ head := channels.head.append channel, totalcount }, some (channels.head.allocated, channel))

structure Created (channel : Channel) (fullname : Text) (permflag : Bool) (maxmembers : Int) :
    Prop where
  name : channel.name = fullname
  permanent : hasFlag channel.flags channelFlagsPermanent = permflag
  maxmembers : channel.maxmembers = maxmembers
  currmembers : channel.currmembers = 0
  memberlist : channel.memberlist = []

theorem new_flags_permanent (shortname : Option Text) (clienttag : UInt32)
    (permflag botflag operflag : Bool) (maxmembers : Int) (moderated clanflag autoname : Bool) :
    hasFlag (newFlags shortname clienttag permflag botflag operflag maxmembers moderated clanflag
      autoname) channelFlagsPermanent = permflag := by
  rw [newFlags]
  generalize (permflag && clienttag ≠ 0 && maxmembers ≠ -1) = system
  generalize (shortname.any fun own =>
    sameCaseless own channelNameKicked || sameCaseless own channelNameBanned) = thevoid
  revert permflag botflag operflag moderated clanflag autoname system thevoid
  decide +kernel

theorem create_cases (env : LogEnv) (channels : ChannelList) {fullname : Text}
    {shortname : Option Text} (clienttag : UInt32) (permflag botflag operflag logflag : Bool)
    (country realmname : Option Text) (maxmembers : Int) (moderated clanflag autoname : Bool)
    (named : fullname ≠ []) (aliased : shortname ≠ some []) :
    let refused := permflag && (channellistFindChannelByFullname channels fullname).any fun entry =>
      refuses entry.2 clienttag botflag operflag logflag maxmembers moderated
    let result := channelCreate env channels fullname shortname clienttag permflag botflag
      operflag logflag country realmname maxmembers moderated clanflag autoname
    (refused = true → result = (channels, none)) ∧
      (refused = false → ∃ channel totalcount, Created channel fullname permflag maxmembers ∧
        result = ({ head := channels.head.append channel, totalcount },
          some (channels.head.allocated, channel))) := by
  intro refused result
  constructor
  · intro stop
    simp only [result, channelCreate, dif_neg named, dif_neg aliased]
    rw [if_pos stop]
  · intro go
    simp only [result, channelCreate, dif_neg named, dif_neg aliased]
    rw [if_neg (Bool.not_eq_true _ ▸ go)]
    exact ⟨_, _, ⟨rfl, new_flags_permanent _ _ _ _ _ _ _ _ _, rfl, rfl, rfl⟩, rfl⟩

theorem create_outcome (env : LogEnv) (channels : ChannelList) (fullname : Text)
    (shortname : Option Text) (clienttag : UInt32) (permflag botflag operflag logflag : Bool)
    (country realmname : Option Text) (maxmembers : Int) (moderated clanflag autoname : Bool) :
    let result := channelCreate env channels fullname shortname clienttag permflag botflag
      operflag logflag country realmname maxmembers moderated clanflag autoname
    result = (channels, none) ∨
      ∃ channel totalcount, Created channel fullname permflag maxmembers ∧
        result = ({ head := channels.head.append channel, totalcount },
          some (channels.head.allocated, channel)) := by
  intro result
  by_cases named : fullname = []
  · exact Or.inl (dif_pos named)
  by_cases aliased : shortname = some []
  · left
    simp only [result, channelCreate, dif_neg named]
    exact dif_pos aliased
  obtain ⟨stop, go⟩ := create_cases env channels clienttag permflag botflag operflag logflag
    country realmname maxmembers moderated clanflag autoname named aliased
  cases refused : permflag && (channellistFindChannelByFullname channels fullname).any
      fun entry => refuses entry.2 clienttag botflag operflag logflag maxmembers moderated with
  | true => exact Or.inl (stop refused)
  | false => exact Or.inr (go refused)

/-- `sprintf` with `"%s%s%s%s%s-%d"` -/
def channelFormatName (sname country realmname : Option Text) (id : Nat) : Option Text :=
  sname.map fun sname =>
    (realmname.elim [] fun realmname => realmname ++ text " ") ++ sname ++
      (country.elim [] fun country => text " " ++ country) ++ text "-" ++ unsigned id

/-- The local variables of `channellist_find_channel_by_name`. -/
structure Locals where
  foundperm : Bool
  foundlang : Bool
  maxchannel : Nat
  saveshortname : Option Text
  savespecialname : Option Text
  savetag : UInt32
  savebotflag : UInt32
  saveoperflag : UInt32
  savelogflag : Bool
  savemoderated : UInt32
  savecountry : Option Text
  saverealmname : Option Text
  savemaxmembers : Int

def Locals.initial : Locals := ⟨false, false, 0, none, none, 0, 0, 0, false, 0, none, none, 0⟩

/-- The country and the realm are right, for a request that may have found its language already. -/
def suits (country realmname : Option Text) (foundlang : Bool) (channel : Channel) : Bool :=
  ((channel.country = none && !foundlang) || country = none ||
      (channel.country.isSome && country.isSome && channel.country = country)) &&
    (channel.realmname = none || realmname = none || channel.realmname = realmname)

def hasRoom (channel : Channel) : Bool :=
  channel.maxmembers = -1 || channel.currmembers < channel.maxmembers

def count (channel : Channel) (locals : Locals) : Locals :=
  if !locals.foundlang && channel.country.isSome then
    { locals with
      foundlang := true
      savespecialname := if hasFlag channel.flags channelFlagsAutoname then locals.savespecialname
        else some channel.name
      maxchannel := 1 }
  else { locals with maxchannel := locals.maxchannel + 1 }

/-- What is kept of a channel in case a copy of it has to be created. -/
def save (country realmname : Option Text) (channel : Channel) (locals : Locals) : Locals :=
  { locals with
    foundperm := true
    saveshortname := channel.shortname
    savetag := channel.clienttag
    savebotflag := channel.flags &&& channelFlagsAllowbots
    saveoperflag := channel.flags &&& channelFlagsAllowopers
    savelogflag := channel.logname.isSome
    savecountry := if country.isSome then country else channel.country
    saverealmname := if realmname.isSome then realmname else channel.realmname
    savemaxmembers := channel.maxmembers
    savemoderated := channel.flags &&& channelFlagsModerated }

/-- A channel with the short name, for which the search goes on (`some`) or ends. -/
def visit (country realmname : Option Text) (locals : Locals) (channel : Channel) :
    Option Locals :=
  if suits country realmname locals.foundlang channel then
    if hasRoom channel then none
    else some (save country realmname channel (count channel locals))
  else some (save country realmname channel locals)

def hasShortname (channel : Channel) (name : Text) : Bool :=
  channel.shortname.any fun shortname => sameCaseless shortname name

section Search
variable (env : LogEnv) (country realmname : Option Text)

/-- The traversal from the element at an index. `recurse` is the search for another name, which
reads the same list and may add to it. -/
def searchLoop (recurse : ChannelList → Text → Option (ChannelList × Option Entry)) (name : Text) :
    Nat → Nat → Locals → ChannelList → Option (ChannelList × (Entry ⊕ Locals))
  | 0, _, _, _ => none
  | steps + 1, index, locals, channels =>
    match channels.head.objects[index]? with
    | none => some (channels, .inr locals)
    | some channel =>
      if sameCaseless channel.2.name name then some (channels, .inl channel)
      else if hasShortname channel.2 name then do
        let (channels, specialChannel) ← recurse channels channel.2.name
        let channel := specialChannel.getD channel
        match visit country realmname locals channel.2 with
        | none => some (channels, .inl channel)
        | some locals => searchLoop recurse name steps (index + 1) locals channels
      else searchLoop recurse name steps (index + 1) locals channels

/-- The full name of a copy. -/
def channelname (locals : Locals) : Option Text :=
  if !locals.foundlang || locals.savespecialname.isNone then
    channelFormatName locals.saveshortname locals.savecountry locals.saverealmname
      (locals.maxchannel + 1)
  else
    channelFormatName locals.savespecialname none locals.saverealmname (locals.maxchannel + 1)

/-- Behind the traversal: all channels of the short name are full. -/
def createCopy (locals : Locals) (channels : ChannelList) : ChannelList × Option Entry :=
  if locals.foundperm then
    match channelname locals with
    | none => (channels, none)
    | some channelname =>
      channelCreate env channels channelname locals.saveshortname locals.savetag true
        (locals.savebotflag ≠ 0) (locals.saveoperflag ≠ 0) locals.savelogflag
        locals.savecountry locals.saverealmname locals.savemaxmembers
        (locals.savemoderated ≠ 0) false true
  else (channels, none)

/-- The search, with a bound on the depth of its recursion. -/
def searchChannel : Nat → ChannelList → Text → Option (ChannelList × Option Entry)
  | 0, _, _ => none
  | depth + 1, channels, name => do
    let (channels, outcome) ← searchLoop country realmname (searchChannel depth) name
      (channels.head.objects.length + 1) 0 .initial channels
    match outcome with
    | .inl channel => some (channels, some channel)
    | .inr locals => some (createCopy env locals channels)

/-- `channellist_find_channel_by_name`. No search goes deeper than the list is long. -/
def channellistFindChannelByName (channels : ChannelList) (name : Text) :
    Option (ChannelList × Option Entry) :=
  searchChannel env country realmname (channels.head.objects.length + 1) channels name

end Search

end Pvpgn.Channels
