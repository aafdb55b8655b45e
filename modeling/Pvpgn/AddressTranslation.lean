import Pvpgn.StrToNum

/-!
The address translation file (`trans.cpp`) and the networks in it (`addr.cpp`). `none` around a
whole result is an `int` expression that overflows.
-/

namespace Pvpgn.AddressTranslation
open Stdio TextUtil List Option

/-- What the operating system looks up: hosts, dotted addresses, and services by name and
protocol. -/
structure Lookup where
  host : Text → Option UInt32
  inetAton : Text → Option UInt32
  service : Text → Text → Option UInt16

structure Addr where
  ip : UInt32
  port : UInt16
  deriving DecidableEq

structure Netaddr where
  ip : UInt32
  mask : UInt32

/-- A network as it is written. -/
inductive Network
  | bits (ip count : UInt32)
  | mask (ip netmask : UInt32)

structure Trans where
  input : Addr
  output : Addr
  network : Netaddr

inductive Program
  | bnetd | d2cs

section Load
variable (lookup : Lookup)

/-- The text in front of the last `byte` and behind it. -/
def strrchr (byte : UInt8) (input : Text) : Option (Text × Text) :=
  if byte ∈ input then
    let behind := input.reverse.takeWhile (· ≠ byte)
    some (input.take (input.length - behind.length - 1), behind.reverse)
  else none

def strtok (delimiters input : Text) : List Text :=
  (input.splitOnP (· ∈ delimiters)).filter (· ≠ [])

/-- With 0 as the default address and port. -/
def addrCreateStr (str : Text) : Option Addr := do
  let (host, port) ← match strrchr 58 str with
    | none => some (str, 0)
    | some (host, portstr) =>
      let (portstr, protstr) := (strrchr 47 portstr).getD (portstr, text "tcp")
      if portstr = [] then some (host, 0)
      else ((StrToNum.strToUshort portstr).or (lookup.service portstr protstr)).map (host, ·)
  let ip ← lookup.host (if host = [] then text "0.0.0.0" else host)
  some ⟨ip, port⟩

/-- `~((1<<(32-netmask))-1)` -/
def bitMask (netmask : UInt32) : Option UInt32 :=
  if netmask = 0 then some 0
  else
    let power := 2 ^ (32 - netmask.toNat)
    if power < 2 ^ 31 then some (~~~(UInt32.ofNat power - 1)) else none

/-- What `netaddr_create_str` reads; the mask is computed of it. -/
def netaddrCreateStr (netstr : Text) : Option Network :=
  match strtok [47] netstr with
  | netipstr :: netmaskstr :: _ => (lookup.host netipstr).bind fun ip =>
    match strToUint netmaskstr with
    | none => (lookup.inetAton netmaskstr).map (.mask ip)
    | some netmask => if netmask > 32 then none else some (.bits ip netmask)
  | _ => none

def Network.netaddr : Network → Option Netaddr
  | .bits ip count => (bitMask count).map (Netaddr.mk ip)
  | .mask ip netmask => some ⟨ip, netmask⟩

def netaddrContainsAddrNum (network : Netaddr) (ipaddr : UInt32) : Bool :=
  ipaddr &&& network.mask = network.ip

/-- The four parts of a line that the program wants. -/
def lineParts (program : Program) (buff : Text) : Option (Text × Text × Text × Text) :=
  let shown := buff.dropWhile fun byte => byte = 32 || byte = 9
  if shown = [] ∨ shown.head? = some 35 then none
  else match strtok [32, 9] (((strrchr 35 buff).map Prod.fst).getD buff) with
    | input :: output :: excluded :: included :: _ =>
      match strrchr 58 input, program with
      | none, _ => none
      | some (_, port), .bnetd =>
        if port = text "4000" then none else some (input, output, excluded, included)
      | some (_, port), .d2cs =>
        if port = text "4000" then some (input, output, excluded, included) else none
    | _ => none

def wholeNetwork (network : Text) : Text :=
  if network = text "ANY" then text "0.0.0.0/0" else network

/-- A network of a list, with what the pair is translated from and into. -/
def newEntry (input output network : Text) : Option (Addr × Addr × Network) := do
  if network = text "NONE" then none
  else some (← addrCreateStr lookup input, ← addrCreateStr lookup output,
    ← netaddrCreateStr lookup (wholeNetwork network))

/-- The loop over a list of networks. It does not see an empty one at the end, which would be no
network. -/
def addNetworks (input output networks : Text) : List (Addr × Addr × Network) :=
  (networks.splitOn 44).filterMap (newEntry lookup input output)

/-- The entries of a line: to be excluded is to be translated into the input. -/
def addLine (parts : Text × Text × Text × Text) : List (Addr × Addr × Network) :=
  let (input, output, excluded, included) := parts
  addNetworks lookup input input excluded ++ addNetworks lookup input output included

def toTrans (entry : Addr × Addr × Network) : Option Trans :=
  entry.2.2.netaddr.map fun network => ⟨entry.1, entry.2.1, network⟩

def transLoad (program : Program) (file : Text) : Option (List Trans) :=
  (((fileLines file).filterMap (lineParts program)).flatMap (addLine lookup)).mapM toTrans

end Load

/-- The result and the pair as `*addr` and `*port` hold it then. -/
def transNet (list : List Trans) (clientaddr : UInt32) (pair : Addr) : Int × Addr :=
  match list with
  | [] => (0, pair)
  | entry :: rest =>
    if entry.input ≠ pair then transNet rest clientaddr pair
    else if netaddrContainsAddrNum entry.network clientaddr = false then
      transNet rest clientaddr pair
    else (1, entry.output)

/-! What it is to do. -/

def Network.contains (client : UInt32) : Network → Bool
  | .bits ip count => client.toNat / 2 ^ (32 - count.toNat) = ip.toNat / 2 ^ (32 - count.toNat)
  | .mask ip netmask => client &&& netmask = ip &&& netmask

/-- No bit outside of the mask is set. -/
def Network.clean : Network → Bool
  | .bits ip count => ip.toNat % 2 ^ (32 - count.toNat) = 0
  | .mask ip netmask => ip &&& netmask = ip

/-- A mask of one bit cannot be computed. -/
def Network.halves : Network → Bool
  | .bits _ count => count = 1
  | .mask .. => false

structure Line where
  input : Option Addr
  output : Option Addr
  excluded : List Network
  included : List Network

section Purpose
variable (lookup : Lookup)

def readNetworks (networks : Text) : List Network :=
  ((networks.splitOn 44).filter (· ≠ text "NONE")).filterMap fun network =>
    netaddrCreateStr lookup (wholeNetwork network)

def lines (program : Program) (file : Text) : List Line :=
  ((fileLines file).filterMap (lineParts program)).map fun (input, output, excluded, included) =>
    ⟨addrCreateStr lookup input, addrCreateStr lookup output, readNetworks lookup excluded,
      readNetworks lookup included⟩

end Purpose

variable (client : UInt32) (pair : Addr)

/-- A line without an output translates nobody. -/
def Line.decides (line : Line) : Option Addr :=
  if line.input = some pair then
    if line.excluded.any (·.contains client) then some pair
    else if line.included.any (·.contains client) then line.output
    else none
  else none

def translated (lines : List Line) : Addr := (lines.findSome? (Line.decides client pair)).getD pair

def Translated (lookup : Lookup) (program : Program) (file : Text) : Prop :=
  ∃ list value, transLoad lookup program file = some list ∧
    transNet list client pair = (value, translated client pair (lines lookup program file))

/-- The networks of a line that are read, with what the address is translated into. -/
def Line.entries (line : Line) : List (Addr × Addr × Network) :=
  line.input.elim [] fun input => line.excluded.map (input, input, ·) ++
    line.output.elim [] fun output => line.included.map (input, output, ·)

def holds (entry : Addr × Addr × Network) : Bool := entry.1 = pair && entry.2.2.contains client

def outcome (entries : List (Addr × Addr × Network)) : Addr :=
  ((entries.find? (holds client pair)).map (·.2.1)).getD pair

/-- No network has a mask of one bit, and the first one that holds the client has no bit outside of
its mask, if the networks without such bits do not give the same. -/
def Settled (lines : List Line) : Prop :=
  let entries := lines.flatMap Line.entries
  (∀ entry ∈ entries, entry.2.2.halves = false) ∧
    ∀ entry, entries.find? (holds client pair) = some entry → entry.2.2.clean = true ∨
      outcome client pair (entries.filter (·.2.2.clean)) = entry.2.1

variable {client pair}

theorem find_networks {input output : Addr} (networks : List Network) :
    ((networks.map (input, output, ·)).find? (holds client pair)).map (·.2.1) =
      if input = pair ∧ networks.any (·.contains client) then some output else none := by
  induction networks with
  | nil => simp
  | cons network rest ih =>
    rw [map_cons, find?_cons, any_cons]
    cases found : holds client pair (input, output, network) with
    | true =>
      obtain ⟨same, inside⟩ : input = pair ∧ network.contains client = true := by
        simpa [holds] using found
      simp [same, inside]
    | false =>
      have other : input = pair → network.contains client = false := by simpa [holds] using found
      rw [ih]
      by_cases same : input = pair
      · simp [same, other same]
      · simp [same]

theorem line_decides (line : Line) :
    (line.entries.find? (holds client pair)).map (·.2.1) = line.decides client pair := by
  obtain ⟨input, output, excluded, included⟩ := line
  rw [Line.entries, Line.decides]
  cases input with
  | none => rfl
  | some input =>
    rw [elim_some, find?_append, map_or, find_networks]
    cases output with
    | none => by_cases same : input = pair <;> simp [same]
    | some output =>
      rw [elim_some, find_networks]
      by_cases same : input = pair
      · subst same
        split <;> simp_all
      · simp [same]

theorem outcome_lines (lines : List Line) :
    outcome client pair (lines.flatMap Line.entries) = translated client pair lines := by
  rw [outcome, find?_flatMap, map_findSome?, translated]
  congr 2
  funext line
  exact line_decides line

/-! The masks. -/

theorem bit_mask {count : UInt32} (other : count ≠ 1) : ∃ mask, bitMask count = some mask ∧
    ∀ client : UInt32, (client &&& mask).toNat =
      client.toNat / 2 ^ (32 - count.toNat) * 2 ^ (32 - count.toNat) := by
  by_cases zero : count = 0
  · subst zero
    refine ⟨0, rfl, fun client => ?_⟩
    have inside : client.toNat < 2 ^ 32 := client.toNat_lt
    rw [UInt32.and_zero, UInt32.toNat_zero]
    omega
  have large : 2 ≤ count.toNat := by
    simp only [ne_eq, ← UInt32.toNat_inj, UInt32.toNat_one, UInt32.toNat_zero] at other zero
    omega
  have below : 2 ^ (32 - count.toNat) < 2 ^ 31 := Nat.pow_lt_pow_right (by decide) (by omega)
  refine ⟨_, by rw [bitMask, if_neg zero, if_pos below], fun client => ?_⟩
  generalize 32 - count.toNat = power at below
  have positive : 0 < 2 ^ power := Nat.two_pow_pos power
  have fits : 2 ^ power < UInt32.size := below.trans (by decide)
  have ones : (UInt32.ofNat (2 ^ power) - 1).toNat = 2 ^ power - 1 := by
    rw [UInt32.toNat_sub_of_le, UInt32.toNat_ofNat_of_lt' fits]
    · rfl
    · rwa [UInt32.le_iff_toNat_le, UInt32.toNat_ofNat_of_lt' fits]
  have flipped : UInt32.size - 1 - (2 ^ power - 1) = 2 ^ 32 - ((2 ^ power - 1) + 1) := by
    simp only [UInt32.size]
    omega
  rw [UInt32.toNat_and, UInt32.toNat_not, ones, flipped]
  apply Nat.eq_of_testBit_eq
  intro bit
  rw [Nat.testBit_and, Nat.testBit_two_pow_sub_succ (by omega), Nat.testBit_two_pow_sub_one,
    Nat.testBit_mul_two_pow, Nat.testBit_div_two_pow]
  by_cases low : bit < power
  · simp [low]
  rw [Nat.sub_add_cancel (by omega)]
  by_cases high : bit < 32
  · simp [low, high, Nat.le_of_not_lt low]
  · have out : client.toNat < 2 ^ bit :=
      lt_of_lt_of_le client.toNat_lt (Nat.pow_le_pow_right (by decide) (by omega))
    simp [Nat.testBit_lt_two_pow out]

theorem netaddr_none (network : Network) : network.netaddr = none ↔ network.halves = true := by
  cases network with
  | mask => simp [Network.netaddr, Network.halves]
  | bits ip count =>
    by_cases one : count = 1
    · subst one
      exact iff_of_true rfl rfl
    · obtain ⟨mask, computed, -⟩ := bit_mask one
      simp [Network.netaddr, Network.halves, computed, one]

theorem netaddr_contains {network : Network} {netaddr : Netaddr}
    (made : network.netaddr = some netaddr) : netaddrContainsAddrNum netaddr client =
      (network.clean && network.contains client) := by
  cases network with
  | mask ip netmask =>
    obtain rfl := some.inj made
    simp only [netaddrContainsAddrNum, Network.clean, Network.contains]
    grind
  | bits ip count =>
    have other : count ≠ 1 := by
      rintro rfl
      cases made
    obtain ⟨mask, computed, low⟩ := bit_mask other
    rw [Network.netaddr, computed] at made
    obtain rfl := some.inj made
    have positive : 0 < 2 ^ (32 - count.toNat) := Nat.two_pow_pos _
    rw [Bool.eq_iff_iff, netaddrContainsAddrNum, decide_eq_true_iff, Network.clean,
      Network.contains, Bool.and_eq_true, decide_eq_true_iff, decide_eq_true_iff,
      ← UInt32.toNat_inj, low]
    constructor
    · intro same
      rw [← same, Nat.mul_mod_left, Nat.mul_div_cancel _ positive]
      exact ⟨rfl, rfl⟩
    · rintro ⟨clean, same⟩
      rw [same]
      exact Nat.div_mul_cancel (Nat.dvd_of_mod_eq_zero clean)

/-! The list that is loaded. -/

variable {lookup : Lookup}

theorem networks_added (input output networks : Text) :
    addNetworks lookup input output networks =
      (addrCreateStr lookup input).elim [] fun input => (addrCreateStr lookup output).elim []
        fun output => (readNetworks lookup networks).map (input, output, ·) := by
  rw [addNetworks, readNetworks]
  induction networks.splitOn 44 with
  | nil => cases addrCreateStr lookup input <;> cases addrCreateStr lookup output <;> rfl
  | cons network rest ih =>
    rw [filterMap_cons, ih, newEntry, filter_cons]
    by_cases nothing : network = text "NONE"
    · simp [nothing]
    cases addrCreateStr lookup input with
    | none => simp [nothing]
    | some input =>
      cases addrCreateStr lookup output with
      | none => simp [nothing]
      | some output =>
        cases read : netaddrCreateStr lookup (wholeNetwork network) <;> simp [nothing, read]

theorem list_loaded (program : Program) (file : Text) :
    transLoad lookup program file =
      ((lines lookup program file).flatMap Line.entries).mapM toTrans := by
  rw [transLoad, lines, flatMap_map]
  congr 2
  funext ⟨input, output, excluded, included⟩
  simp only [addLine, Line.entries, networks_added]
  cases addrCreateStr lookup input <;> rfl

/-! What is found in it. -/

variable {entry : Addr × Addr × Network}

section
variable {entries : List (Addr × Addr × Network)}

theorem first_found {list : List Trans} (made : entries.mapM toTrans = some list) :
    (transNet list client pair).2 =
      outcome client pair (entries.filter (·.2.2.clean)) := by
  induction entries generalizing list with
  | nil =>
    obtain rfl : [] = list := by simpa using made
    rfl
  | cons entry rest ih =>
    obtain ⟨input, output, network⟩ := entry
    simp only [mapM_cons, toTrans, bind_eq_bind, bind_eq_some_iff,
      map_eq_some_iff, Option.pure_def, some.injEq] at made
    obtain ⟨_, ⟨netaddr, computed, rfl⟩, list, made, rfl⟩ := made
    rw [transNet, netaddr_contains computed, filter_cons]
    by_cases same : input = pair
    · cases network.clean <;> cases inside : network.contains client <;>
        simp [same, outcome, holds, inside, ih made]
    · cases network.clean <;> simp [same, outcome, holds, ih made]

theorem all_made :
    (∃ list, entries.mapM toTrans = some list) ↔ ∀ entry ∈ entries, entry.2.2.halves = false := by
  induction entries with
  | nil => simp
  | cons entry rest ih =>
    rw [mapM_cons, forall_mem_cons, ← ih, ← Bool.not_eq_true, ← netaddr_none, toTrans]
    cases entry.2.2.netaddr <;> simp [bind_eq_some_iff]

theorem outcome_found (found : entries.find? (holds client pair) = some entry) :
    outcome client pair entries = entry.2.1 := by
  simp [outcome, found]

theorem find_clean (found : entries.find? (holds client pair) = some entry)
    (clean : entry.2.2.clean = true) :
    (entries.filter (·.2.2.clean)).find? (holds client pair) = some entry := by
  obtain ⟨held, before, after, rfl, others⟩ := find?_eq_some_iff_append.mp found
  rw [filter_append, filter_cons, if_pos clean, find?_append, find?_cons_of_pos held]
  have nowhere : (before.filter (·.2.2.clean)).find? (holds client pair) = none := by
    rw [find?_eq_none]
    intro entry listed
    simpa using others entry (mem_of_mem_filter listed)
  rw [nowhere, none_or]

end

theorem outcome_clean (entries : List (Addr × Addr × Network)) :
    outcome client pair (entries.filter (·.2.2.clean)) = outcome client pair entries ↔
      ∀ entry, entries.find? (holds client pair) = some entry → entry.2.2.clean = true ∨
        outcome client pair (entries.filter (·.2.2.clean)) = entry.2.1 := by
  constructor
  · intro same entry found
    exact .inr (same.trans (outcome_found found))
  intro settled
  cases found : entries.find? (holds client pair) with
  | none =>
    have nowhere : (entries.filter (·.2.2.clean)).find? (holds client pair) = none := by
      rw [find?_eq_none] at found ⊢
      exact fun entry listed => found entry (mem_of_mem_filter listed)
    rw [outcome, outcome, nowhere, found]
  | some entry =>
    rw [outcome_found found]
    obtain clean | same := settled entry found
    · exact outcome_found (find_clean found clean)
    · exact same

theorem file_translated (lookup : Lookup) (program : Program) (file : Text) (client : UInt32)
    (pair : Addr) : Translated client pair lookup program file ↔
      Settled client pair (lines lookup program file) := by
  rw [Translated, Settled, ← all_made, ← outcome_clean, ← outcome_lines, list_loaded]
  constructor
  · rintro ⟨list, value, made, same⟩
    exact ⟨⟨list, made⟩, by rw [← first_found made, same]⟩
  · rintro ⟨⟨list, made⟩, same⟩
    exact ⟨list, (transNet list client pair).1, made, by rw [← same, ← first_found made]⟩

def exampleLookup : Lookup where
  host host :=
    if host = text "1.1.1.1" then some 0x01010101
    else if host = text "2.2.2.2" then some 0x02020202
    else if host = text "192.168.0.1" then some 0xc0a80001
    else none
  inetAton _ := none
  service _ _ := none

/-- 192.168.0.1/24 does not hold 192.168.0.5. -/
theorem host_bits_lost : ¬ Translated 0xc0a80005 ⟨0x01010101, 6112⟩ exampleLookup .bnetd
    (text "1.1.1.1:6112 2.2.2.2:6112 NONE 192.168.0.1/24\n") := by
  rintro ⟨list, value, made, same⟩
  have kept : (transLoad exampleLookup .bnetd
      (text "1.1.1.1:6112 2.2.2.2:6112 NONE 192.168.0.1/24\n")).map (fun list =>
        (transNet list 0xc0a80005 ⟨0x01010101, 6112⟩).2) = some ⟨0x01010101, 6112⟩ := by
    decide +kernel
  rw [made, Option.map_some, same, Option.some.injEq] at kept
  dsimp only at kept
  revert kept
  decide +kernel

end Pvpgn.AddressTranslation
