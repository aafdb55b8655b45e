import Pvpgn.TrackPacket
import Pvpgn.TextUtil
import Mathlib.Data.List.Chain

/-!
What the file of the tracker says of a server, and its format with separator lines. A reader of that
format takes the servers out of the file again.
-/

namespace Pvpgn.TrackerFile
open Stdio TextUtil CharBuffer TrackPacket List Option

structure InAddr where
  first : UInt8
  second : UInt8
  third : UInt8
  fourth : UInt8
deriving DecidableEq, Inhabited

def InAddr.bytes (address : InAddr) : Text :=
  [address.first, address.second, address.third, address.fourth]

structure Server where
  address : InAddr
  info : Text
  updated : Int
deriving DecidableEq

/-- What the file says of a server. -/
structure Record where
  address : InAddr
  port : UInt16
  location : Text
  software : Text
  version : Text
  users : UInt32
  channels : UInt32
  games : UInt32
  description : Text
  platform : Text
  url : Text
  contactName : Text
  contactEmail : Text
  uptime : UInt32
  totalGames : UInt32
  logins : UInt32
deriving DecidableEq, Inhabited

/-- The arguments of the `fprintf` calls. -/
def serverRecord (server : Server) : Option Record := do
  let location ← textAt server.info serverLocation
  let software ← textAt server.info software
  let version ← textAt server.info version
  let description ← textAt server.info serverDesc
  let platform ← textAt server.info platform
  let url ← textAt server.info serverUrl
  let name ← textAt server.info contactName
  let email ← textAt server.info contactEmail
  some {
    address := server.address
    port := bnShortNget (slice server.info port)
    location := location
    software := software
    version := version
    users := bnIntNget (slice server.info users)
    channels := bnIntNget (slice server.info channels)
    games := bnIntNget (slice server.info games)
    description := description
    platform := platform
    url := url
    contactName := name
    contactEmail := email
    uptime := bnIntNget (slice server.info uptime)
    totalGames := bnIntNget (slice server.info totalGames)
    logins := bnIntNget (slice server.info totalLogins) }

def inetNtoa (address : InAddr) : Text :=
  [46].intercalate (address.bytes.map fun byte => unsigned byte.toNat)

def values (record : Record) : List Text :=
  [inetNtoa record.address, unsigned record.port.toNat, record.location, record.software,
    record.version, unsigned record.users.toNat, unsigned record.channels.toNat,
    unsigned record.games.toNat, record.description, record.platform, record.url,
    record.contactName, record.contactEmail, unsigned record.uptime.toNat,
    unsigned record.totalGames.toNat, unsigned record.logins.toNat]

def fieldLine : Text := text "##"

def recordLine : Text := text "###"

/-- `"%s\n##\n"` for each value and `"###\n"` at the end. -/
def plainRecord (record : Record) : Text :=
  ((values record).flatMap fun value => value ++ newline :: (fieldLine ++ [newline])) ++
    (recordLine ++ [newline])

/-! A reader of the values. -/

def readUnsigned (bits : Nat) (field : Text) : Option Nat :=
  if field ≠ [] ∧ field.all (isDigit 10) ∧ fromDigits 10 field < 2 ^ bits then
    some (fromDigits 10 field)
  else none

def readAddress (field : Text) : Option InAddr := do
  let bytes ← (field.splitOn 46).mapM (readUnsigned 8)
  match bytes with
  | [first, second, third, fourth] =>
    some ⟨.ofNat first, .ofNat second, .ofNat third, .ofNat fourth⟩
  | _ => none

def readRecord : List Text → Option Record
  | [address, port, location, software, version, users, channels, games, description, platform,
      url, contactName, contactEmail, uptime, totalGames, logins] => do
      let address ← readAddress address
      let port ← readUnsigned 16 port
      let users ← readUnsigned 32 users
      let channels ← readUnsigned 32 channels
      let games ← readUnsigned 32 games
      let uptime ← readUnsigned 32 uptime
      let totalGames ← readUnsigned 32 totalGames
      let logins ← readUnsigned 32 logins
      some {
        address := address
        port := .ofNat port
        location := location
        software := software
        version := version
        users := .ofNat users
        channels := .ofNat channels
        games := .ofNat games
        description := description
        platform := platform
        url := url
        contactName := contactName
        contactEmail := contactEmail
        uptime := .ofNat uptime
        totalGames := .ofNat totalGames
        logins := .ofNat logins }
  | _ => none

/-! A reader of the lines. -/

section Terminated
variable {Item : Type}

variable (separator : Item) (pieces : List (List Item))

theorem join_terminated (nonempty : pieces ≠ []) :
    pieces.flatMap (· ++ [separator]) = [separator].intercalate pieces ++ [separator] := by
  induction pieces with
  | nil => exact absurd rfl nonempty
  | cons piece rest ih =>
    cases rest with
    | nil => simp
    | cons next rest =>
      rw [flatMap_cons, ih (by simp), intercalate_cons_cons]
      simp

theorem piece_inside (separator : List Item) (pieces : List (List Item)) :
    ∀ piece ∈ pieces, piece <:+: separator.intercalate pieces := by
  induction pieces with
  | nil => simp
  | cons first rest ih =>
    intro piece member
    cases rest with
    | nil =>
      simp [mem_singleton.mp member]
    | cons next rest =>
      rw [intercalate_cons_cons]
      rcases mem_cons.mp member with rfl | later
      · exact ⟨[], separator ++ separator.intercalate (next :: rest), by simp⟩
      · exact (ih piece later).trans (suffix_append _ _).isInfix

variable [DecidableEq Item]

/-- The pieces that end at a separator each. -/
def terminated (separator : Item) (items : List Item) : Option (List (List Item)) :=
  let pieces := items.splitOn separator
  if pieces.getLast? = some [] then some pieces.dropLast else none

theorem terminated_pieces (free : ∀ piece ∈ pieces, separator ∉ piece) :
    terminated separator (pieces.flatMap (· ++ [separator])) = some pieces := by
  have split : (pieces.flatMap (· ++ [separator])).splitOn separator = pieces ++ [[]] := by
    induction pieces with
    | nil => simp
    | cons piece rest ih =>
      have first := free piece mem_cons_self
      have others := ih fun other member => free other (mem_cons_of_mem _ member)
      rw [flatMap_cons, append_assoc, singleton_append,
        splitOn_append_cons_self_of_not_mem first, others, cons_append]
  simp [terminated, split]

theorem split_free (items : List Item) : ∀ piece ∈ items.splitOn separator, separator ∉ piece := by
  induction items with
  | nil => simp
  | cons item rest ih =>
    rw [splitOn_cons_eq_if_modifyHead]
    by_cases hit : item = separator
    · simpa [hit] using ih
    obtain ⟨first, others, parts⟩ := exists_cons_of_ne_nil (splitOn_ne_nil separator rest)
    rw [parts] at ih ⊢
    simp only [beq_iff_eq, hit, if_false, modifyHead_cons, mem_cons, forall_eq_or_imp] at ih ⊢
    exact ⟨not_or.mpr ⟨fun same => hit same.symm, ih.1⟩, ih.2⟩

end Terminated

/-- Records end at a `###` line, and their fields at a `##` line. -/
def plainFields (file : Text) : Option (List (List Text)) := do
  let lines ← terminated newline file
  let records ← terminated recordLine lines
  records.mapM fun record => do
    let fields ← terminated fieldLine record
    some (fields.map ([newline].intercalate ·))

/-! The values come back. -/

def texts (record : Record) : List Text :=
  [record.location, record.software, record.version, record.description, record.platform,
    record.url, record.contactName, record.contactEmail]

theorem map_reads {Source Target Value : Type} (print : Source → Target)
    (read : Target → Option Value) (value : Source → Value) (sources : List Source)
    (exact : ∀ source ∈ sources, read (print source) = some (value source)) :
    (sources.map print).mapM read = some (sources.map value) := by
  induction sources with
  | nil => rfl
  | cons source rest ih =>
    have first := exact source mem_cons_self
    have others := ih fun other member => exact other (mem_cons_of_mem _ member)
    simp [first, others]

theorem read_unsigned (bits value : Nat) (fits : value < 2 ^ bits) :
    readUnsigned bits (unsigned value) = some value := by
  have nonempty := digits_ne_nil 10 value
  have numerals := is_digit_digits base_ten value
  have exact := from_digits_digits base_ten value
  rw [readUnsigned, unsigned, exact, if_pos ⟨nonempty, all_eq_true.mpr numerals, fits⟩]

theorem read_address (address : InAddr) : readAddress (inetNtoa address) = some address := by
  have dotless : ∀ field ∈ address.bytes.map fun byte => unsigned byte.toNat, 46 ∉ field := by
    intro field member dot
    obtain ⟨byte, _, rfl⟩ := mem_map.mp member
    exact absurd (unsigned_range _ _ dot).1 (by decide)
  have split : (inetNtoa address).splitOn 46 = address.bytes.map fun byte => unsigned byte.toNat :=
    splitOn_intercalate 46 dotless (by simp [InAddr.bytes])
  have bytes := map_reads (fun byte : UInt8 => unsigned byte.toNat) (readUnsigned 8)
    UInt8.toNat address.bytes fun byte _ => read_unsigned 8 byte.toNat byte.toNat_lt
  rw [readAddress, split, bytes]
  simp [InAddr.bytes]

variable (fields : List Text) (record : Record)

theorem read_record : readRecord (values record) = some record := by
  have word (value : UInt32) : readUnsigned 32 (unsigned value.toNat) = some value.toNat :=
    read_unsigned 32 value.toNat value.toNat_lt
  have port := read_unsigned 16 record.port.toNat record.port.toNat_lt
  simp only [values, readRecord, read_address, port, word, bind_eq_bind, bind_some,
    UInt16.ofNat_toNat, UInt32.ofNat_toNat]

theorem values_hold (holds : Text → Prop)
    (numeral : ∀ field : Text, (∀ byte ∈ field, 46 ≤ byte ∧ byte ≤ 57) → holds field)
    (record : Record) (stored : ∀ field ∈ texts record, holds field) :
    ∀ value ∈ values record, holds value := by
  have number (value : Nat) : holds (unsigned value) := by
    apply numeral
    intro byte member
    obtain ⟨least, most⟩ := unsigned_range value byte member
    exact ⟨UInt8.le_trans (by decide) least, most⟩
  have address : holds (inetNtoa record.address) := by
    apply numeral
    intro byte member
    have range (part : UInt8) (inside : byte ∈ unsigned part.toNat) : 46 ≤ byte ∧ byte ≤ 57 := by
      obtain ⟨least, most⟩ := unsigned_range part.toNat byte inside
      exact ⟨UInt8.le_trans (by decide) least, most⟩
    simp only [inetNtoa, InAddr.bytes, map_cons, map_nil, intercalate_cons_cons,
      intercalate_singleton, mem_append, mem_singleton] at member
    rcases member with ((first | rfl) | (second | rfl) | (third | rfl) | fourth)
    · exact range _ first
    · decide
    · exact range _ second
    · decide
    · exact range _ third
    · decide
    · exact range _ fourth
  simp only [texts, mem_cons, not_mem_nil, or_false, forall_eq_or_imp, forall_eq]
    at stored
  simp only [values, mem_cons, not_mem_nil, or_false, forall_eq_or_imp, forall_eq,
    number, address, stored, and_self]

/-! The lines come back. -/

def plainLines (fields : List Text) : List Text :=
  (fields.map (·.splitOn newline)).flatMap (· ++ [fieldLine])

theorem plain_record_lines :
    plainRecord record = (plainLines (values record) ++ [recordLine]).flatMap (· ++ [newline]) := by
  have field (value : Text) : ((value.splitOn newline) ++ [fieldLine]).flatMap (· ++ [newline]) =
      value ++ newline :: (fieldLine ++ [newline]) := by
    rw [flatMap_append, join_terminated _ _ (splitOn_ne_nil _ _), intercalate_splitOn]
    simp
  rw [plainRecord, flatMap_append, plainLines, flatMap_assoc, flatMap_map]
  simp [field]

theorem no_pair_part {part whole : Text} (inside : part <:+: whole) (plain : NoPair whole) :
    NoPair part := plain.infix inside

theorem numeral_no_pair (field : Text) (range : ∀ byte ∈ field, 46 ≤ byte ∧ byte ≤ 57) :
    NoPair field := by
  apply Pairwise.isChain
  apply pairwise_of_forall_mem_list
  rintro left member right _ ⟨hash, _⟩
  have least := (range left member).1
  rw [hash] at least
  exact absurd least (by decide)

theorem separators_paired : ¬NoPair fieldLine ∧ ¬NoPair recordLine := by
  have fields : fieldLine = [35, 35] := by decide
  have records : recordLine = [35, 35, 35] := by decide
  simp [NoPair, fields, records]

theorem plain_lines_free (plain : ∀ field ∈ fields, NoPair field) :
    ∀ line ∈ plainLines fields, newline ∉ line ∧ line ≠ recordLine := by
  intro line member
  simp only [plainLines, mem_flatMap, mem_append, mem_singleton] at member
  obtain ⟨pieces, listed, inside⟩ := member
  obtain ⟨field, known, rfl⟩ := mem_map.mp listed
  rcases inside with piece | rfl
  · refine ⟨split_free newline field line piece, ?_⟩
    rintro rfl
    have part := piece_inside [newline] _ _ piece
    rw [intercalate_splitOn] at part
    exact separators_paired.2 (no_pair_part part (plain field known))
  · decide

theorem pieces_no_field_line (plain : ∀ field ∈ fields, NoPair field) :
    ∀ pieces ∈ fields.map (·.splitOn newline), fieldLine ∉ pieces := by
  intro pieces listed piece
  obtain ⟨field, known, rfl⟩ := mem_map.mp listed
  have part := piece_inside [newline] _ _ piece
  rw [intercalate_splitOn] at part
  exact separators_paired.1 (no_pair_part part (plain field known))

theorem plain_fields_read (records : List Record)
    (plain : ∀ record ∈ records, ∀ value ∈ values record, NoPair value) :
    plainFields (records.flatMap plainRecord) = some (records.map values) := by
  have file : records.flatMap plainRecord =
      ((records.map fun record => plainLines (values record)).flatMap
        (· ++ [recordLine])).flatMap (· ++ [newline]) := by
    rw [flatMap_assoc, flatMap_map]
    exact congrArg (records.flatMap ·) (funext plain_record_lines)
  have lines : ∀ line ∈ (records.map fun record => plainLines (values record)).flatMap
      (· ++ [recordLine]), newline ∉ line := by
    intro line member
    simp only [mem_flatMap, List.mem_map, mem_append, mem_singleton] at member
    obtain ⟨_, ⟨record, listed, rfl⟩, inside | rfl⟩ := member
    · exact (plain_lines_free _ (plain record listed) line inside).1
    · decide
  have groups : ∀ group ∈ records.map fun record => plainLines (values record),
      recordLine ∉ group := by
    intro group member inside
    obtain ⟨record, listed, rfl⟩ := mem_map.mp member
    exact (plain_lines_free _ (plain record listed) _ inside).2 rfl
  simp only [plainFields, file, terminated_pieces newline _ lines,
    terminated_pieces recordLine _ groups, bind_eq_bind, bind_some]
  clear file lines groups
  induction records with
  | nil => rfl
  | cons record rest ih =>
    have pieces := pieces_no_field_line _ (plain record mem_cons_self)
    have others := ih fun other member => plain other (mem_cons_of_mem _ member)
    have joined : ((values record).map (·.splitOn newline)).map ([newline].intercalate ·) =
        values record := by
      rw [List.map_map]
      exact map_congr_left fun field _ => intercalate_splitOn newline
    simp only [map_cons, mapM_cons, plainLines, terminated_pieces fieldLine _ pieces,
      joined, bind_eq_bind, bind_some, Option.pure_def]
    simp only [plainLines] at others
    rw [others, bind_some]

end Pvpgn.TrackerFile
