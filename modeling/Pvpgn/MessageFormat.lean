import Pvpgn.ClosedCharacters
import Pvpgn.D2LadderFile
import Pvpgn.IpBan

/-!
`message_format_line` copies a line of a text file with its escapes replaced. Before each turn of
its loop the buffer has room for 64 bytes more, which is what an escape may write. A write outside
the buffer and a use of a null pointer are `none`.
-/

namespace Pvpgn.MessageFormat
open Stdio CheckedArray CharBuffer Tag List Option Nat
open ClosedCharacters (tagUintToStr)
open D2LadderFile (strncpy)
open IpBan (Address inetNtoa)

/-- `MAX_INC` -/
def maxInc : Nat := 64

/-- `MAX_USERNAME_LEN` -/
def maxUsernameLen : Nat := 16

structure CString where
  bytes : Text
  plain : 0 ∉ bytes

/-- A line as `file_get_line` gives it, which counts its bytes in an `unsigned int`. -/
structure Line extends CString where
  counted : bytes.length < 2 ^ 32

structure Server where
  accounts : UInt32
  channels : Int32
  games : Int32
  users : UInt32
  gameCount : UInt32 → Int32
  userCount : UInt32 → Int32
  hostname : Option CString
  servername : CString
  contactName : CString

/-- `chatname` is what `conn_get_chatname` finds, and `mails` the size of the mailbox. -/
structure Connection where
  chatname : Option CString
  loggeduser : Option CString
  userid : UInt32
  mails : UInt32
  addr : Address
  clienttag : UInt32

def connGetClienttag (conn : Connection) : UInt32 :=
  if conn.clienttag = 0 then tagStrToUint (text "UNKN") else conn.clienttag

def clientTitles : List (String × String) :=
  [("W3XP", "Warcraft III Frozen Throne"), ("WAR3", "Warcraft III"),
    ("D2XP", "Diablo II Lord of Destruction"), ("D2DV", "Diablo II"),
    ("JSTR", "Starcraft (Japan)"), ("W2BN", "Warcraft II"), ("DSHR", "Diablo I (Shareware)"),
    ("DRTL", "Diablo I"), ("SSHR", "Starcraft (Shareware)"), ("SEXP", "Starcraft: Brood War"),
    ("STAR", "Starcraft"), ("CHAT", "Chat"), ("IIRC", "Internet Relay Chat"),
    ("WCHT", "Westwood Chat"), ("TSUN", "Tiberian Sun"), ("TSXP", "Tiberian Sun: Firestorm"),
    ("RALT", "Red Alert"), ("RAL2", "Red Alert 2"), ("DN2K", "Dune 2000"), ("NOXX", "Nox"),
    ("NOXQ", "Nox Quest"), ("RNGD", "Renegade"), ("RFDS", "Renegade Free Dedicated Server"),
    ("YURI", "Yuri's Revenge"), ("EBFD", "Emepror: Battle for Dune"),
    ("LOR3", "Lands of Lore 3"), ("WWOL", "Westwood Online")]

def clienttagGetTitle (clienttag : UInt32) : Text :=
  match clientTitles.find? fun entry => tagStrToUint (text entry.1) = clienttag with
  | some entry => text entry.2
  | none => text "Unknown"

/-- What an escape stands for, by how it gets into the buffer. -/
inductive Escape where
  | letter (byte : UInt8)
  /-- `sprintf` and `strcpy` -/
  | print (value : Text)
  /-- `strncpy` of `size - 1` bytes and a NUL -/
  | copy (name : Option CString) (size : Nat)
  | hostname
  | kind (letter : UInt8)
  | bad

def mailText (mails : UInt32) : Text :=
  if 0 < mails then
    text "You have " ++ unsigned mails.toNat ++ text " message(s) in your mailbox."
  else text "You have no mail."

theorem unsigned_plain (value : Nat) : 0 ∉ unsigned value := by
  intro zero
  have digit := is_digit_digits base_ten value 0 zero
  exact absurd digit (by decide)

theorem inet_plain (address : Address) : 0 ∉ inetNtoa address := by
  simp [inetNtoa, IpBan.dot, intercalate, unsigned_plain]

def escapes (server : Server) (conn : Connection) : List (Char × Escape) :=
  [('%', .letter 37), ('a', .print (unsigned server.accounts.toNat)),
    ('c', .print (signed server.channels.toInt)),
    ('g', .print (signed server.games.toInt)),
    ('h', .hostname),
    ('i', .print (35 :: zeroPadded 8 (unsigned conn.userid.toNat))),
    ('l', .copy (conn.chatname.or conn.loggeduser) maxUsernameLen),
    ('m', .print (mailText conn.mails)),
    ('r', .copy (some ⟨inetNtoa conn.addr, inet_plain conn.addr⟩) maxInc),
    ('s', .print server.servername.bytes),
    ('t', .print (tagUintToStr (connGetClienttag conn))),
    ('u', .print (signed server.users.toInt32.toInt)),
    ('v', .print (text "PvPGN 1.99.0-SVN")),
    ('C', .kind 67),
    ('B', .kind 66),
    ('E', .kind 69),
    ('G', .print (signed (server.gameCount (connGetClienttag conn)).toInt)),
    ('H', .print server.contactName.bytes),
    ('I', .kind 73),
    ('M', .kind 77),
    ('N', .print (clienttagGetTitle (connGetClienttag conn))),
    ('T', .kind 84),
    ('U', .print (signed (server.userCount (connGetClienttag conn)).toInt)),
    ('W', .kind 87)]

def escape (server : Server) (conn : Connection) (symbol : UInt8) : Escape :=
  match (escapes server conn).find? fun entry => entry.1.toUInt8 = symbol with
  | some entry => entry.2
  | none => .bad

/-- The buffer, whose first byte is the kind of the line. -/
structure Out where
  cells : Text
  outpos : Nat
  outlen : Nat

def putText (out : Out) (bytes : Text) : Option Out :=
  (putAll ⟨out.cells, out.outpos⟩ bytes).map fun buffer => { out with cells := buffer.cells }

/-- `outpos += strlen(&out[outpos]);` -/
def skipText (out : Out) : Option Out :=
  (stringAt (out.cells.drop out.outpos)).map fun value =>
    { out with outpos := (out.outpos + value.length) % 2 ^ 32 }

def localhost : Text := text "localhost"

/-- A name that does not fit is an error, which `gethostname` reports after copying its start. -/
def putHostname (server : Server) (out : Out) : Option Out :=
  match server.hostname with
  | none => putText out (localhost ++ [0])
  | some name =>
    if name.bytes.length < maxInc then putText out (name.bytes ++ [0])
    else do
      let out ← putText out (name.bytes.take maxInc)
      putText out (localhost ++ [0])

def expand (server : Server) (out : Out) : Escape → Option Out
  | .letter byte =>
    (writeAt out.cells out.outpos byte).map fun cells =>
      { out with cells, outpos := (out.outpos + 1) % 2 ^ 32 }
  | .print value => do skipText (← putText out (value ++ [0]))
  | .copy none _ => none
  | .copy (some name) size => do
    skipText (← putText out (strncpy (size - 1) name.bytes ++ [0]))
  | .hostname => do skipText (← putHostname server out)
  | .kind letter => (writeAt out.cells 0 letter).map fun cells => { out with cells }
  | .bad => some out

/-- Memory as `xmalloc` and `xrealloc` give it. -/
def fresh (memory : Nat → UInt8) (size : Nat) : Text := (range size).map memory

def grow (memory : Nat → UInt8) (out : Out) : Out :=
  if out.outlen ≤ (out.outpos + maxInc) % 2 ^ 32 then
    let outlen := (out.outlen + maxInc) % 2 ^ 32
    { out with cells := (out.cells ++ fresh memory outlen).take outlen, outlen }
  else out

/-- What the turns of the loop find. A `%` at the end is followed by the NUL. -/
def pieces (server : Server) (conn : Connection) : Text → List Escape
  | [] => []
  | c :: rest =>
    if c ≠ 37 then .letter c :: pieces server conn rest
    else match rest with
      | [] => [escape server conn 0]
      | symbol :: rest => escape server conn symbol :: pieces server conn rest

def formatLoop (server : Server) (memory : Nat → UInt8) : List Escape → Out → Option Out
  | [], out => some out
  | piece :: rest, out => do
    let out ← expand server out piece
    formatLoop server memory rest (grow memory out)

def messageFormatLine (server : Server) (conn : Connection) (memory : Nat → UInt8) (line : Line) :
    Option Text := do
  let cells ← writeAt (fresh memory (maxInc + 1)) 0 73
  let out ← formatLoop server memory (pieces server conn line.bytes) ⟨cells, 1, maxInc⟩
  writeAt out.cells out.outpos 0

/-! What a line is to become. -/

def hostValue (server : Server) : Text :=
  match server.hostname with
  | some name => if name.bytes.length < maxInc then name.bytes else localhost
  | none => localhost

def Escape.value (server : Server) : Escape → Text
  | .letter byte => [byte]
  | .print value => value
  | .copy name size => (name.elim [] CString.bytes).take (size - 1)
  | .hostname => hostValue server
  | .kind _ => []
  | .bad => []

def body (server : Server) (pieces : List Escape) : Text := pieces.flatMap (Escape.value server)

def Escape.kind? : Escape → Option UInt8
  | .kind byte => some byte
  | _ => none

/-- The last escape that sets the kind decides. -/
def lineKind (pieces : List Escape) : UInt8 := (pieces.filterMap Escape.kind?).getLastD 73

def Formatted (server : Server) (conn : Connection) (line : Line) : Prop :=
  ∀ memory, ∃ out, messageFormatLine server conn memory line = some out ∧
    stringAt out = some (lineKind (pieces server conn line.bytes) ::
      body server (pieces server conn line.bytes))

/-- The text and the room behind it are counted in an `unsigned int`. -/
def Sized (server : Server) (conn : Connection) (line : Line) : Prop :=
  (body server (pieces server conn line.bytes)).length + 130 ≤ 2 ^ 32

/-- No configured value is longer than `MAX_INC` allows, and there is a name. -/
structure ShortValues (server : Server) (conn : Connection) : Prop where
  servername : server.servername.bytes.length < maxInc
  contactName : server.contactName.bytes.length < maxInc
  named : (conn.chatname.or conn.loggeduser).isSome

/-! The values of the escapes. -/

variable {server : Server} {conn : Connection} {memory : Nat → UInt8}

def Escape.Short : Escape → Prop
  | .letter byte => byte ≠ 0
  | .print value => value.length < maxInc ∧ 0 ∉ value
  | .copy name size => name.isSome ∧ 0 < size ∧ size ≤ maxInc
  | .hostname => True
  | .kind byte => byte ≠ 0
  | .bad => True

theorem unsigned_short (value : Nat) (small : value < 10 ^ 10) : (unsigned value).length ≤ 10 :=
  digits_length_le 10 value 10 (by omega) (by omega) small

theorem word_short (word : UInt32) : (unsigned word.toNat).length ≤ 10 :=
  unsigned_short _ (by have := word.toNat_lt; omega)

theorem signed_short (number : Int32) : (Escape.print (signed number.toInt)).Short := by
  have least := number.le_toInt
  have most := number.toInt_lt
  cases sign : number.toInt with
  | ofNat value =>
    rw [sign, Int.ofNat_eq_natCast] at most
    have short := unsigned_short value (by omega)
    exact ⟨lt_of_le_of_lt short (by decide), unsigned_plain value⟩
  | negSucc value =>
    have short := unsigned_short (value + 1) (by omega)
    refine ⟨?_, ?_⟩
    · exact lt_of_le_of_lt (succ_le_succ short) (by decide)
    · rw [signed, mem_cons, not_or]
      exact ⟨by decide, unsigned_plain (value + 1)⟩

theorem userid_short (userid : UInt32) :
    (Escape.print (35 :: zeroPadded 8 (unsigned userid.toNat))).Short := by
  have short := word_short userid
  refine ⟨?_, ?_⟩
  · simp only [zeroPadded, length_cons, length_append, length_replicate, maxInc]
    omega
  · simp [zeroPadded, mem_replicate, unsigned_plain]

theorem mail_short (mails : UInt32) : (Escape.print (mailText mails)).Short := by
  have short := word_short mails
  rw [mailText]
  split
  · refine ⟨?_, ?_⟩
    · simp only [length_append, maxInc]
      have before : (text "You have ").length = 9 := by decide
      have behind : (text " message(s) in your mailbox.").length = 28 := by decide
      omega
    · rw [mem_append, mem_append]
      rintro ((before | number) | behind)
      · exact absurd before (by decide)
      · exact unsigned_plain _ number
      · exact absurd behind (by decide)
  · exact ⟨by decide, by decide⟩

theorem tag_short (tag : UInt32) : (Escape.print (tagUintToStr tag)).Short := by
  rw [tagUintToStr]
  split
  · exact ⟨by decide, by decide⟩
  · refine ⟨lt_of_le_of_lt (takeWhile_sublist _).length_le (by simp [tagBytes, maxInc]),
      fun zero => ?_⟩
    simpa using mem_takeWhile_imp zero

theorem title_short (tag : UInt32) : (Escape.print (clienttagGetTitle tag)).Short := by
  have all : ∀ entry ∈ clientTitles, (text entry.2).length < maxInc ∧ 0 ∉ text entry.2 := by
    decide +kernel
  rw [clienttagGetTitle]
  split
  · rename_i entry found
    exact all entry (mem_of_find?_eq_some found)
  · exact ⟨by decide, by decide⟩

theorem escape_short (short : ShortValues server conn) (symbol : UInt8) :
    (escape server conn symbol).Short := by
  have all : ∀ entry ∈ escapes server conn, entry.2.Short := by
    have accounts := word_short server.accounts
    rw [escapes]
    simp only [forall_mem_cons, not_mem_nil, false_implies, implies_true, and_true]
    have kinds (byte : UInt8) (some_byte : byte ≠ 0) : (Escape.kind byte).Short := some_byte
    exact ⟨show (37 : UInt8) ≠ 0 by decide,
      ⟨lt_of_le_of_lt accounts (by decide), unsigned_plain _⟩, signed_short _, signed_short _,
      trivial, userid_short _, ⟨short.named, by decide, by decide⟩, mail_short _,
      ⟨rfl, by decide, by decide⟩, ⟨short.servername, server.servername.plain⟩, tag_short _,
      signed_short _, ⟨by decide, by decide⟩, kinds _ (by decide), kinds _ (by decide),
      kinds _ (by decide), signed_short _, ⟨short.contactName, server.contactName.plain⟩,
      kinds _ (by decide), kinds _ (by decide), title_short _, kinds _ (by decide),
      signed_short _, kinds _ (by decide)⟩
  rw [escape]
  split
  · rename_i entry found
    exact all entry (mem_of_find?_eq_some found)
  · trivial

theorem pieces_short (short : ShortValues server conn) :
    ∀ line : Text, 0 ∉ line → ∀ piece ∈ pieces server conn line, piece.Short
  | [], _ => by simp [pieces]
  | c :: rest, plain => by
    rw [mem_cons, not_or] at plain
    by_cases escaped : c = 37
    · cases rest with
      | nil => simpa [pieces, escaped] using escape_short short 0
      | cons symbol rest =>
        simp only [pieces, escaped, ne_eq, not_true_eq_false, if_false, forall_mem_cons]
        exact ⟨escape_short short symbol,
          pieces_short short rest fun zero => plain.2 (mem_cons_of_mem _ zero)⟩
    · unfold pieces
      rw [if_pos escaped, forall_mem_cons]
      exact ⟨Ne.symm plain.1, pieces_short short rest plain.2⟩

/-! One turn. -/

structure Printed (out after : Out) (value : Text) : Prop where
  outpos : after.outpos = out.outpos + value.length
  outlen : after.outlen = out.outlen
  length : after.cells.length = out.cells.length
  start : after.cells.take after.outpos = out.cells.take out.outpos ++ value

variable {piece : Escape} (out : Out)

theorem put_text (bytes : Text) (room : out.outpos + bytes.length ≤ out.cells.length) :
    ∃ cells, putText out bytes = some { out with cells } ∧ cells.length = out.cells.length ∧
      cells.take (out.outpos + bytes.length) = out.cells.take out.outpos ++ bytes := by
  refine ⟨_, by rw [putText, put_all _ _ _ room]; rfl, ?_, ?_⟩
  · simp only [length_append, length_take, length_drop]
    omega
  · exact take_left' (by simp only [length_append, length_take]; omega)

theorem print_value (value rest : Text) (plain : 0 ∉ value)
    (room : out.outpos + (value ++ 0 :: rest).length ≤ out.cells.length)
    (counted : out.outpos + value.length < 2 ^ 32) :
    ∃ after, (putText out (value ++ 0 :: rest)).bind skipText = some after ∧
      Printed out after value := by
  obtain ⟨cells, written, length, start⟩ := put_text out _ room
  have short : (out.cells.take out.outpos).length = out.outpos := by
    rw [length_take]
    exact min_eq_left (by omega)
  have split : cells = out.cells.take out.outpos ++
      (value ++ 0 :: (rest ++ cells.drop (out.outpos + (value ++ 0 :: rest).length))) := by
    conv_lhs => rw [← take_append_drop (out.outpos + (value ++ 0 :: rest).length) cells, start]
    simp
  have behind : stringAt (cells.drop out.outpos) = some value := by
    rw [split, drop_left' short]
    exact string_written value _ plain
  refine ⟨⟨cells, (out.outpos + value.length) % 2 ^ 32, out.outlen⟩,
    by rw [written, bind_some, skipText, behind, map_some], ?_, rfl, length, ?_⟩
  · exact mod_eq_of_lt counted
  · rw [mod_eq_of_lt counted, split, ← append_assoc]
    exact take_left' (by rw [length_append, short])

structure Expanded (server : Server) (piece : Escape) (out after : Out) : Prop where
  outpos : after.outpos = out.outpos + (piece.value server).length
  outlen : after.outlen = out.outlen
  length : after.cells.length = out.cells.length
  start : ∀ kind done, out.cells.take out.outpos = kind :: done →
    after.cells.take after.outpos = piece.kind?.getD kind :: (done ++ piece.value server)

theorem Printed.expanded {out after : Out} (printed : Printed out after (piece.value server))
    (same : piece.kind? = none) : Expanded server piece out after :=
  ⟨printed.outpos, printed.outlen, printed.length, fun kind done holds => by
    rw [printed.start, holds, same]
    rfl⟩

theorem host_printed (room : out.outpos + maxInc ≤ out.cells.length)
    (counted : out.outpos + (hostValue server).length < 2 ^ 32) :
    ∃ after, (putHostname server out).bind skipText = some after ∧
      Printed out after (hostValue server) := by
  have fits : (localhost ++ [0]).length ≤ maxInc := by decide
  revert counted
  rw [hostValue, putHostname]
  cases server.hostname with
  | none => exact print_value out localhost [] (by decide) (by omega)
  | some name =>
    intro counted
    dsimp only at counted ⊢
    by_cases small : name.bytes.length < maxInc
    · rw [if_pos small] at counted
      rw [if_pos small, if_pos small]
      refine print_value out name.bytes [] name.plain ?_ counted
      rw [length_append, length_singleton]
      omega
    rw [if_neg small] at counted
    rw [if_neg small, if_neg small]
    obtain ⟨cells, written, length, start⟩ := put_text out (name.bytes.take maxInc)
      (by rw [length_take]; omega)
    obtain ⟨after, result, printed⟩ := print_value { out with cells } localhost []
      (by decide) (by change out.outpos + _ ≤ cells.length; omega) counted
    have kept : cells.take out.outpos = out.cells.take out.outpos := by
      have both := congrArg (take out.outpos) start
      rwa [take_take, min_eq_left (le_add_right _ _), take_append_of_le_length
        (by rw [length_take]; omega), take_take, min_self] at both
    refine ⟨after, ?_, printed.outpos, printed.outlen, printed.length.trans length, ?_⟩
    · rw [written]
      exact result
    · rw [printed.start, kept]

theorem strncpy_value (count : Nat) (name : Text) :
    ∃ rest, strncpy count name ++ [0] = name.take count ++ 0 :: rest := by
  rw [strncpy]
  cases count - name.length with
  | zero => exact ⟨[], by simp⟩
  | succ more => exact ⟨replicate more 0 ++ [0], by simp [replicate_succ]⟩

theorem expand_short (server : Server) (short : piece.Short) (out : Out) (positive : 0 < out.outpos)
    (room : out.outpos + maxInc ≤ out.cells.length)
    (counted : out.outpos + (piece.value server).length < 2 ^ 32) :
    ∃ after, expand server out piece = some after ∧ Expanded server piece out after := by
  cases piece with
  | letter byte =>
    change out.outpos + 1 < 2 ^ 32 at counted
    obtain ⟨cells, written, length, start⟩ := put_text out [byte]
      (by rw [length_singleton]; exact le_trans (by simp [maxInc]) room)
    have inside : out.outpos < out.cells.length := by
      unfold maxInc at room
      omega
    have set : out.cells.set out.outpos byte = cells := by
      simpa [putText, putAll, put, write_inside _ _ _ inside] using written
    refine ⟨⟨cells, (out.outpos + 1) % 2 ^ 32, out.outlen⟩,
      by rw [expand, write_inside _ _ _ inside, set, map_some], Printed.expanded ?_ rfl⟩
    refine ⟨mod_eq_of_lt counted, rfl, length, ?_⟩
    rw [mod_eq_of_lt counted]
    exact start
  | print value =>
    obtain ⟨after, result, printed⟩ := print_value out value [] short.2
      (by rw [length_append, length_singleton]; exact le_trans
            (Nat.add_le_add_left short.1 _) room) counted
    exact ⟨after, result, printed.expanded rfl⟩
  | copy name size =>
    obtain ⟨some_name, positive, fits⟩ := short
    obtain ⟨name, rfl⟩ := isSome_iff_exists.mp some_name
    obtain ⟨rest, copied⟩ := strncpy_value (size - 1) name.bytes
    have length : (name.bytes.take (size - 1) ++ 0 :: rest).length = size := by
      rw [← copied, length_append, D2LadderFile.strncpy_length, length_singleton]
      omega
    obtain ⟨after, result, printed⟩ := print_value out (name.bytes.take (size - 1)) rest
      (fun zero => name.plain (mem_of_mem_take zero)) (by rw [length]; omega) counted
    refine ⟨after, ?_, printed.expanded rfl⟩
    rw [expand, copied]
    exact result
  | hostname =>
    obtain ⟨after, result, printed⟩ := host_printed out room counted
    exact ⟨after, result, printed.expanded rfl⟩
  | kind byte =>
    have inside : 0 < out.cells.length := by omega
    refine ⟨{ out with cells := out.cells.set 0 byte },
      by rw [expand, write_inside _ _ _ inside, map_some], rfl, rfl, length_set,
      fun kind done holds => ?_⟩
    rw [take_set, holds]
    simp [Escape.kind?, Escape.value]
  | bad =>
    refine ⟨out, rfl, rfl, rfl, rfl, fun kind done holds => ?_⟩
    rw [holds]
    simp [Escape.kind?, Escape.value]

/-! The loop. -/

/-- There is room for any escape. The bound on the length keeps it from going round. -/
structure Room (out : Out) : Prop where
  positive : 0 < out.outpos
  room : out.outpos + maxInc ≤ out.cells.length
  sized : out.cells.length = out.outlen ∨ out.cells.length = out.outlen + 1 ∧ out.outpos = 1 ∧
    out.outlen = maxInc
  counted : out.outlen ≤ out.outpos + 128

theorem value_short (server : Server) (short : piece.Short) :
    (piece.value server).length < maxInc := by
  cases piece with
  | letter byte => exact (by decide : 1 < maxInc)
  | print value => exact short.1
  | copy name size =>
    have taken := length_take_le (size - 1) (name.elim [] CString.bytes)
    have fits : size - 1 < maxInc := by
      have := short.2
      omega
    exact lt_of_le_of_lt taken fits
  | hostname =>
    rw [Escape.value, hostValue]
    split
    · split
      · assumption
      · decide
    · decide
  | kind byte => exact (by decide : 0 < maxInc)
  | bad => exact (by decide : 0 < maxInc)

theorem grow_room (memory : Nat → UInt8) {out after : Out} (short : piece.Short) (room : Room out)
    (expanded : Expanded server piece out after) (counted : after.outpos + 128 < 2 ^ 32) :
    Room (grow memory after) ∧ (grow memory after).outpos = after.outpos ∧
      (grow memory after).cells.take after.outpos = after.cells.take after.outpos := by
  have value := value_short server short
  obtain ⟨positive, inside, sized, bounded⟩ := room
  rw [← expanded.length, ← expanded.outlen] at sized
  rw [← expanded.outlen] at bounded
  have place := expanded.outpos
  have length := expanded.length
  unfold maxInc at value inside sized
  rw [grow]
  unfold maxInc
  split
  · rw [mod_eq_of_lt (by omega)]
    have cells : ((after.cells ++ fresh memory (after.outlen + 64)).take
        (after.outlen + 64)).length = after.outlen + 64 := by
      rw [length_take, length_append, fresh, length_map, length_range]
      omega
    refine ⟨⟨?_, ?_, Or.inl cells, ?_⟩, rfl, ?_⟩
    · change 0 < after.outpos
      omega
    · change after.outpos + maxInc ≤ List.length _
      rw [cells, maxInc]
      omega
    · change after.outlen + 64 ≤ after.outpos + 128
      omega
    · rw [take_take, min_eq_left (by omega), take_append_of_le_length (by omega)]
  · exact ⟨⟨by omega, by unfold maxInc; omega, Or.inl (by omega), by omega⟩, rfl, rfl⟩

theorem format_loop (server : Server) (memory : Nat → UInt8) (list : List Escape) :
    ∀ (out : Out) (kind : UInt8) (done : Text), (∀ piece ∈ list, piece.Short) → Room out →
      out.cells.take out.outpos = kind :: done →
      out.outpos + (body server list).length + 128 < 2 ^ 32 →
      ∃ after, formatLoop server memory list out = some after ∧ after.outpos < after.cells.length ∧
        after.cells.take after.outpos =
          (list.filterMap Escape.kind?).getLastD kind :: (done ++ body server list) := by
  induction list with
  | nil =>
    intro out kind done _ room start _
    have inside := room.room
    unfold maxInc at inside
    exact ⟨out, rfl, by omega, by simpa [body] using start⟩
  | cons piece rest ih =>
    intro out kind done short room start counted
    rw [forall_mem_cons] at short
    have total : (body server (piece :: rest)).length =
        (piece.value server).length + (body server rest).length := by
      simp [body]
    obtain ⟨after, expands, expanded⟩ :=
      expand_short server short.1 out room.positive room.room (by omega)
    obtain ⟨grown, place, kept⟩ := grow_room memory short.1 room expanded (by
      rw [expanded.outpos]
      omega)
    have started := expanded.start kind done start
    rw [← kept, ← place] at started
    obtain ⟨final, result, inside, written⟩ := ih _ _ _ short.2 grown started (by
      rw [place, expanded.outpos]
      omega)
    refine ⟨final, by rw [formatLoop, expands]; exact result, inside, ?_⟩
    rw [written]
    cases same : piece.kind? with
    | none => simp [body, same]
    | some byte =>
      rw [filterMap_cons_some same, getLastD_cons]
      simp [body]

theorem kind_present (list : List Escape) (short : ∀ piece ∈ list, piece.Short) :
    lineKind list ≠ 0 := by
  rw [lineKind, getLastD_eq_getLast?]
  cases last : (list.filterMap Escape.kind?).getLast? with
  | none => decide
  | some byte =>
    obtain ⟨piece, member, kind⟩ := mem_filterMap.mp (mem_of_getLast? last)
    cases piece <;> cases kind
    exact short _ member

theorem value_plain (short : piece.Short)
    (named : ∀ name ∈ server.hostname, (0 : UInt8) ∉ name.bytes) : 0 ∉ piece.value server := by
  cases piece with
  | letter byte => simpa [Escape.value] using Ne.symm short
  | print value => exact short.2
  | copy name size =>
    intro zero
    obtain ⟨name, rfl⟩ := isSome_iff_exists.mp short.1
    exact name.plain (mem_of_mem_take zero)
  | hostname =>
    rw [Escape.value, hostValue]
    split
    · split
      · rename_i name found _
        exact named name found
      · decide
    · decide
  | kind byte => simp [Escape.value]
  | bad => simp [Escape.value]

theorem start_written (memory : Nat → UInt8) : writeAt (fresh memory (maxInc + 1)) 0 73 =
    some ((fresh memory (maxInc + 1)).set 0 73) :=
  write_inside _ _ _ (by simp [fresh, maxInc])

theorem short_formatted (short : ShortValues server conn) (line : Line)
    (sized : Sized server conn line) : Formatted server conn line := by
  intro memory
  have pieces := pieces_short short line.bytes line.plain
  obtain ⟨after, loops, inside, written⟩ := format_loop server memory _
    ⟨(fresh memory (maxInc + 1)).set 0 73, 1, maxInc⟩ 73 [] pieces
    ⟨one_pos, by simp [fresh, maxInc], Or.inr (by simp [fresh, maxInc]), by simp [maxInc]⟩
    (by simp [fresh, range_succ_eq_map]) (by
      unfold Sized at sized
      change 1 + _ + 128 < 2 ^ 32
      omega)
  refine ⟨after.cells.set after.outpos 0, ?_, ?_⟩
  · change (formatLoop server memory _ _).bind _ = _
    rw [loops, bind_some, write_inside _ _ _ inside]
  rw [nil_append] at written
  rw [set_eq_take_append_cons_drop, if_pos inside, written]
  refine string_written _ _ ?_
  rw [mem_cons, not_or, body, mem_flatMap]
  refine ⟨Ne.symm (kind_present _ pieces), ?_⟩
  rintro ⟨piece, member, zero⟩
  exact value_plain (pieces piece member) (fun name _ => name.plain) zero

/-! A value that is too long overflows the first buffer. -/

theorem put_all_outside (bytes cells : Text) (position : Nat)
    (outside : cells.length < position + bytes.length) (inside : position ≤ cells.length) :
    putAll ⟨cells, position⟩ bytes = none := by
  induction bytes generalizing cells position with
  | nil =>
    rw [length_nil] at outside
    omega
  | cons byte rest ih =>
    rw [putAll, put]
    by_cases last : position < cells.length
    · rw [write_inside _ _ _ last, map_some, bind_some]
      refine ih _ _ ?_ ?_
      · rw [length_cons] at outside
        change (cells.set position byte).length < position + 1 + rest.length
        rw [length_set]
        omega
      · rw [length_set]
        exact last
    · rw [writeAt, if_neg last]
      rfl

theorem format_single (line : Line) (memory : Nat → UInt8) (piece : Escape)
    (single : pieces server conn line.bytes = [piece])
    (fails : ∀ cells : Text, cells.length = maxInc + 1 →
      expand server ⟨cells, 1, maxInc⟩ piece = none) :
    messageFormatLine server conn memory line = none := by
  rw [messageFormatLine, start_written, single]
  simp only [bind_eq_bind, bind_some, formatLoop]
  rw [fails _ (by simp [fresh])]
  rfl

theorem print_overflows {value cells : Text} (long : maxInc ≤ value.length)
    (length : cells.length = maxInc + 1) :
    expand server ⟨cells, 1, maxInc⟩ (.print value) = none := by
  have outside : putAll ⟨cells, 1⟩ (value ++ [0]) = none :=
    put_all_outside _ _ _ (by rw [length, length_append, length_singleton]; omega)
      (by omega)
  rw [expand, putText, outside]
  rfl

def escaped (symbol : UInt8) (plain : symbol ≠ 0) : Line where
  bytes := [37, symbol]
  plain := by simpa using Ne.symm plain
  counted := by simp

/-- With short values every line is formatted right; and where lines of two bytes are, the values
are short. -/
theorem message_line_formatted (server : Server) (conn : Connection) :
    (ShortValues server conn → ∀ line, Sized server conn line → Formatted server conn line) ∧
      ((∀ line : Line, line.bytes.length ≤ 2 → Formatted server conn line) →
        ShortValues server conn) := by
  refine ⟨fun short line sized => short_formatted short line sized, fun formatted => ?_⟩
  have returns (symbol : UInt8) (plain : symbol ≠ 0) :
      messageFormatLine server conn (fun _ => 0) (escaped symbol plain) ≠ none := by
    obtain ⟨out, result, -⟩ := formatted (escaped symbol plain) (by simp [escaped]) fun _ => 0
    simp [result]
  refine ⟨?_, ?_, ?_⟩
  · by_contra long
    exact returns 115 (by decide) (format_single _ _ (.print server.servername.bytes) rfl
      fun cells length => print_overflows (Nat.le_of_not_lt long) length)
  · by_contra long
    exact returns 72 (by decide) (format_single _ _ (.print server.contactName.bytes) rfl
      fun cells length => print_overflows (Nat.le_of_not_lt long) length)
  · by_contra unnamed
    refine returns 108 (by decide) (format_single _ _
      (.copy (conn.chatname.or conn.loggeduser) maxUsernameLen) rfl fun cells length => ?_)
    rw [not_isSome_iff_eq_none.mp unnamed, expand]

def emptyServer : Server where
  accounts := 0
  channels := 0
  games := 0
  users := 0
  gameCount _ := 0
  userCount _ := 0
  hostname := none
  servername := ⟨replicate 64 97, by decide⟩
  contactName := ⟨[], by decide⟩

def somebody : Connection where
  chatname := none
  loggeduser := some ⟨text "bob", by decide⟩
  userid := 1
  mails := 0
  addr := ⟨127, 0, 0, 1⟩
  clienttag := 0

theorem long_servername_overflows :
    messageFormatLine emptyServer somebody (fun _ => 0) (escaped 115 (by decide)) = none ∧
      ¬Formatted emptyServer somebody (escaped 115 (by decide)) := by
  have overflows : messageFormatLine emptyServer somebody (fun _ => 0)
      (escaped 115 (by decide)) = none :=
    format_single _ _ (.print emptyServer.servername.bytes) rfl fun cells length =>
      print_overflows (by decide) length
  refine ⟨overflows, fun formatted => ?_⟩
  obtain ⟨out, result, -⟩ := formatted fun _ => 0
  cases result

end Pvpgn.MessageFormat
