import Pvpgn.ChannelMembers
import Pvpgn.CharBuffer

/-!
`handle_irc_common_packet` cuts what IRC clients send into lines. The line that a packet leaves
unfinished is kept in the connection as a string and put back into the buffer by the next packet. A
write outside the buffer is `none`.
-/

namespace Pvpgn.IrcPackets
open Stdio CheckedArray CharBuffer List Option
open ChannelMembers (ConnClass)

/-- `MAX_IRC_MESSAGE_LEN` -/
def maxIrcMessageLen : Nat := 512

variable {σ : Type}

/-- `other` is everything else that `handle_irc_common_line` works on. -/
structure Connection (σ : Type) where
  cclass : ConnClass
  ircline : Option Text
  other : σ

/-- What `handle_irc_common_line` makes of a line. It does not touch the unfinished one. -/
abbrev LineHandler (σ : Type) := ConnClass × σ → Text → ConnClass × σ

def speaksIrc (cclass : ConnClass) : Bool :=
  cclass = .ircinit || cclass = .irc || cclass = .wol || cclass = .wserv || cclass = .wladder

def zeros : Text := replicate maxIrcMessageLen 0

/-- The variables of the loop, and the lines that were handed on. -/
structure Reading (σ : Type) where
  ircline : Text
  ircpos : Nat
  conn : Connection σ
  lines : List Text

def endOfLine (handleLine : LineHandler σ) (s : Reading σ) (line : Text) : Reading σ :=
  { ircline := zeros
    ircpos := 0
    conn := { s.conn with
      cclass := (handleLine (s.conn.cclass, s.conn.other) line).1
      other := (handleLine (s.conn.cclass, s.conn.other) line).2 }
    lines := s.lines ++ [line] }

def packetLoop (handleLine : LineHandler σ) : Text → Reading σ → Option (Int × Reading σ)
  | [], s => do
    let line ← stringAt s.ircline
    some (0, { s with conn := { s.conn with ircline := some line } })
  | byte :: data, s =>
    if byte = 10 then do
      let line ← stringAt s.ircline
      packetLoop handleLine data (endOfLine handleLine s line)
    else if s.ircpos < maxIrcMessageLen - 1 then do
      let ircline ← writeAt s.ircline s.ircpos byte
      packetLoop handleLine data { s with ircline := ircline, ircpos := s.ircpos + 1 }
    else if 100 + maxIrcMessageLen < s.ircpos + 1 then some (-1, s)
    else packetLoop handleLine data { s with ircpos := s.ircpos + 1 }

/-- `strcpy(ircline,data)` when there is a line. -/
def fetchIrcline (data : Option Text) : Option Text :=
  match data with
  | none => some zeros
  | some data => (putAll ⟨zeros, 0⟩ (data ++ [0])).map Buffer.cells

/-- The returned value, the connection, and the lines that were handed on. -/
def handleIrcCommonPacket (handleLine : LineHandler σ) (conn : Connection σ) (packet : Text) :
    Option (Int × Connection σ × List Text) :=
  if !speaksIrc conn.cclass then some (-1, conn, [])
  else do
    let ircline ← fetchIrcline conn.ircline
    let restored ← stringAt ircline
    let (result, after) ← packetLoop handleLine packet ⟨ircline, restored.length, conn, []⟩
    some (result, after.conn, after.lines)

/-- The calls for some packets up to one that returns -1: whether none did, and all lines. -/
def handlePackets (handleLine : LineHandler σ) :
    Connection σ → List Text → Option (Bool × List Text)
  | _, [] => some (true, [])
  | conn, packet :: rest => do
    let (result, conn, lines) ← handleIrcCommonPacket handleLine conn packet
    if result = -1 then some (false, lines)
    else
      let (fine, later) ← handlePackets handleLine conn rest
      some (fine, lines ++ later)

/-- The newline-terminated pieces of a stream, each cut to its first bytes. -/
def handedLines (stream : Text) : List Text :=
  (stream.splitOn 10).dropLast.map (·.take (maxIrcMessageLen - 1))

theorem handed_newline (part stream : Text) (unbroken : 10 ∉ part) :
    handedLines (part ++ 10 :: stream) = part.take 511 :: handedLines stream := by
  rw [handedLines, splitOn_append_cons_self_of_not_mem unbroken,
    dropLast_cons_of_ne_nil (splitOn_ne_nil 10 stream), map_cons]
  rfl

theorem handed_unbroken (part : Text) (unbroken : 10 ∉ part) : handedLines part = [] := by
  rw [handedLines, splitOn_eq_singleton unbroken]
  rfl

theorem write_filled (content : Text) (byte : UInt8) (room : content.length < 512) :
    writeAt (filled 512 content).cells content.length byte =
      some (filled 512 (content ++ [byte])).cells := by
  have put_byte := put_all_filled 512 content [byte] (by rw [length_singleton]; omega)
  simp only [putAll, put, filled_position] at put_byte
  cases result : writeAt (filled 512 content).cells content.length byte with
  | none => simp [result] at put_byte
  | some cells =>
    rw [result, map_some, bind_some, some_inj] at put_byte
    rw [← put_byte]

/-- The buffer holds the start of the unfinished line `part`. The count of its bytes is exact only
while they fit. -/
structure Follows (s : Reading σ) (part : Text) : Prop where
  plain : 0 ∉ part
  unbroken : 10 ∉ part
  buffer : s.ircline = (filled 512 (part.take 511)).cells
  position : min s.ircpos 511 = min part.length 511

variable {part : Text} (handleLine : LineHandler σ) {s : Reading σ}

theorem plain_take (plain : 0 ∉ part) : 0 ∉ part.take 511 :=
  fun member => plain (mem_of_mem_take member)

theorem Follows.string (follows : Follows s part) : stringAt s.ircline = some (part.take 511) := by
  rw [follows.buffer]
  exact string_filled 512 _ (plain_take follows.plain) (by rw [length_take]; omega)

theorem follows_newline (s : Reading σ) (line : Text) : Follows (endOfLine handleLine s line) [] :=
  ⟨not_mem_nil, not_mem_nil, rfl, rfl⟩

variable (conn : Connection σ) {byte : UInt8}

theorem Follows.stored (follows : Follows s part) (present : byte ≠ 0) (other : byte ≠ 10)
    (room : s.ircpos < 511) :
    ∃ ircline, writeAt s.ircline s.ircpos byte = some ircline ∧
      Follows { s with ircline := ircline, ircpos := s.ircpos + 1 } (part ++ [byte]) := by
  have length : s.ircpos = part.length := by
    have position := follows.position
    omega
  have whole : part.take 511 = part := take_of_length_le (by omega)
  have buffer := follows.buffer
  rw [whole] at buffer
  refine ⟨(filled 512 (part ++ [byte])).cells, ?_, ?_, ?_, ?_, ?_⟩
  · rw [buffer, length]
    exact write_filled part byte (by omega)
  · simpa using ⟨follows.plain, Ne.symm present⟩
  · simpa using ⟨follows.unbroken, Ne.symm other⟩
  · rw [take_of_length_le (by rw [length_append, length_singleton]; omega)]
  · simp only [length_append, length_singleton]
    omega

theorem Follows.counted (follows : Follows s part) (present : byte ≠ 0) (other : byte ≠ 10)
    (full : ¬s.ircpos < 511) : Follows { s with ircpos := s.ircpos + 1 } (part ++ [byte]) := by
  have position := follows.position
  refine ⟨by simpa using ⟨follows.plain, Ne.symm present⟩,
    by simpa using ⟨follows.unbroken, Ne.symm other⟩, ?_, ?_⟩
  · rw [take_append_of_le_length (by omega)]
    exact follows.buffer
  · simp only [length_append, length_singleton]
    omega

/-- What a call has handed on when it ends: the lines of the stream up to the unfinished line
`rest`, which is kept. -/
structure Ends (before : List Text) (part data : Text) (after : Reading σ) (rest : Text) :
    Prop where
  plain : 0 ∉ rest
  unbroken : 10 ∉ rest
  kept : after.conn.ircline = some (rest.take 511)
  lines : ∃ new, after.lines = before ++ new ∧ ∀ stream,
    handedLines (part ++ data ++ stream) = new ++ handedLines (rest ++ stream)

theorem packetLoop_ends (data : Text) (s : Reading σ) (part : Text) (plain : 0 ∉ data)
    (follows : Follows s part) :
    ∃ result after, packetLoop handleLine data s = some (result, after) ∧
      (result ≠ -1 → ∃ rest, Ends s.lines part data after rest) := by
  induction data generalizing s part with
  | nil =>
    refine ⟨_, _, by rw [packetLoop, follows.string]; rfl, fun _ => ⟨part, follows.plain,
      follows.unbroken, rfl, [], by simp, by simp⟩⟩
  | cons byte data ih =>
    rw [mem_cons, not_or] at plain
    by_cases newline : byte = 10
    · subst newline
      obtain ⟨result, after, run, ends⟩ := ih _ [] plain.2
        (follows_newline handleLine s (part.take 511))
      refine ⟨result, after, ?_, fun fine => ?_⟩
      · rw [packetLoop, if_pos rfl, follows.string]
        exact run
      obtain ⟨rest, unfinished⟩ := ends fine
      obtain ⟨new, lines, stream⟩ := unfinished.lines
      refine ⟨rest, unfinished.plain, unfinished.unbroken, unfinished.kept,
        part.take 511 :: new, by simp [lines, endOfLine], fun later => ?_⟩
      rw [append_assoc, cons_append, handed_newline part _ follows.unbroken, cons_append]
      exact congrArg _ (stream later)
    have extend (next : Reading σ) (held : Follows next (part ++ [byte]))
        (same : next.lines = s.lines)
        (run : packetLoop handleLine (byte :: data) s = packetLoop handleLine data next) :
        ∃ result after, packetLoop handleLine (byte :: data) s = some (result, after) ∧
          (result ≠ -1 → ∃ rest, Ends s.lines part (byte :: data) after rest) := by
      obtain ⟨result, after, ran, ends⟩ := ih next (part ++ [byte]) plain.2 held
      refine ⟨result, after, run.trans ran, fun fine => ?_⟩
      obtain ⟨rest, unfinished⟩ := ends fine
      obtain ⟨new, lines, stream⟩ := unfinished.lines
      refine ⟨rest, unfinished.plain, unfinished.unbroken, unfinished.kept, new,
        by rw [lines, same], fun later => ?_⟩
      have whole := stream later
      rwa [append_assoc part, singleton_append] at whole
    by_cases room : s.ircpos < maxIrcMessageLen - 1
    · obtain ⟨ircline, write, held⟩ := follows.stored (Ne.symm plain.1) newline room
      refine extend _ held rfl ?_
      rw [packetLoop, if_neg newline, if_pos room, write]
      rfl
    · by_cases flood : 100 + maxIrcMessageLen < s.ircpos + 1
      · refine ⟨-1, s, ?_, fun fine => absurd rfl fine⟩
        rw [packetLoop, if_neg newline, if_neg room, if_pos flood]
      · refine extend _ (follows.counted (Ne.symm plain.1) newline room) rfl ?_
        rw [packetLoop, if_neg newline, if_neg room, if_neg flood]

structure Keeps (conn : Connection σ) (part : Text) : Prop where
  plain : 0 ∉ part
  unbroken : 10 ∉ part
  kept : conn.ircline.getD [] = part.take 511

theorem fetch_kept {conn : Connection σ} (keeps : Keeps conn part) :
    fetchIrcline conn.ircline = some (filled 512 (part.take 511)).cells := by
  have kept := keeps.kept
  cases stored : conn.ircline with
  | none =>
    rw [stored, getD_none] at kept
    rw [← kept]
    rfl
  | some data =>
    rw [stored, getD_some] at kept
    have short : data.length ≤ 511 := by rw [kept, length_take]; omega
    have put := put_all_filled 512 [] (data ++ [0]) (by
      simp only [length_nil, length_append, length_singleton]
      omega)
    have cells : (filled 512 (data ++ [0])).cells = (filled 512 data).cells := by
      have zeros : replicate (512 - data.length) (0 : UInt8) =
          0 :: replicate (512 - (data.length + 1)) 0 := by
        rw [← replicate_succ]
        congr 1
        omega
      simp [filled, zeros]
    rw [fetchIrcline, ← kept, ← cells]
    exact congrArg (Option.map Buffer.cells) put

theorem packet_ends (packet part : Text) (plain : 0 ∉ packet) (keeps : Keeps conn part) :
    ∃ result after lines, handleIrcCommonPacket handleLine conn packet =
        some (result, after, lines) ∧
      (result ≠ -1 → ∃ rest, Keeps after rest ∧ ∀ stream,
        handedLines (part ++ packet ++ stream) = lines ++ handedLines (rest ++ stream)) := by
  by_cases speaks : speaksIrc conn.cclass = true
  · have length : (part.take 511).length < 512 := by rw [length_take]; omega
    have string := string_filled 512 _ (plain_take keeps.plain) length
    obtain ⟨result, after, run, ends⟩ := packetLoop_ends handleLine packet
      ⟨(filled 512 (part.take 511)).cells, (part.take 511).length, conn, []⟩ part plain
      ⟨keeps.plain, keeps.unbroken, rfl, by simp only [length_take]; omega⟩
    refine ⟨result, after.conn, after.lines, ?_, fun fine => ?_⟩
    · simp only [handleIrcCommonPacket, speaks, Bool.not_true, Bool.false_eq_true, if_false,
        fetch_kept keeps, string, run, bind_eq_bind, bind_some]
    obtain ⟨rest, unfinished⟩ := ends fine
    obtain ⟨new, lines, stream⟩ := unfinished.lines
    refine ⟨rest, ⟨unfinished.plain, unfinished.unbroken, by rw [unfinished.kept]; rfl⟩, ?_⟩
    rw [lines]
    exact stream
  · exact ⟨-1, conn, [], by simp [handleIrcCommonPacket, speaks], fun fine => absurd rfl fine⟩

theorem packets_end (packets : List Text) (part : Text) (plain : ∀ packet ∈ packets, 0 ∉ packet)
    (keeps : Keeps conn part) :
    ∃ fine lines, handlePackets handleLine conn packets = some (fine, lines) ∧
      (fine = true → lines = handedLines (part ++ packets.flatten)) := by
  induction packets generalizing conn part with
  | nil =>
    refine ⟨true, [], rfl, fun _ => ?_⟩
    rw [flatten_nil, append_nil, handed_unbroken part keeps.unbroken]
  | cons packet rest ih =>
    obtain ⟨result, after, lines, call, ends⟩ := packet_ends handleLine conn packet part
      (plain packet mem_cons_self) keeps
    by_cases failed : result = -1
    · exact ⟨false, lines, by simp [handlePackets, call, failed], by simp⟩
    obtain ⟨unfinished, kept, stream⟩ := ends failed
    obtain ⟨fine, later, run, handed⟩ := ih after unfinished
      (fun other member => plain other (mem_cons_of_mem packet member)) kept
    refine ⟨fine, lines ++ later, by simp [handlePackets, call, failed, run], fun all => ?_⟩
    rw [handed all, flatten_cons, ← append_assoc, stream]

/-- However a stream without NULs is divided into packets, no call writes outside the buffer, and
when none fails the lines of the stream are handed on in order, each cut to 511 bytes. -/
theorem irc_lines_handed (handleLine : LineHandler σ) (conn : Connection σ) (packets : List Text)
    (fresh : conn.ircline = none) (plain : ∀ packet ∈ packets, 0 ∉ packet) :
    ∃ fine lines, handlePackets handleLine conn packets = some (fine, lines) ∧
      (fine = true → lines = handedLines packets.flatten) :=
  packets_end handleLine conn packets [] plain
    ⟨not_mem_nil, not_mem_nil, by rw [fresh]; rfl⟩

theorem irc_lines_handed_example :
    ∃ fine lines, handlePackets (fun conn _ => conn) (⟨.irc, none, ()⟩ : Connection Unit)
        [text "NICK a\nUS", text "ER b\n"] = some (fine, lines) ∧
      (fine = true → lines = handedLines [text "NICK a\nUS", text "ER b\n"].flatten) :=
  irc_lines_handed _ _ _ rfl (by decide)

end Pvpgn.IrcPackets
