import Pvpgn.Tag
import Pvpgn.TextUtil
import Mathlib.Data.List.AList

/-!
The file storage of clans: one text file a clan, named by its tag, with a first line of raw quoted
strings and one line a full member. The reader finds each string by the next quote.
-/

namespace Pvpgn.ClanFile
open Stdio TextUtil Tag List Option UInt32

def clanNameMax : Nat := 24
def clanMotdMax : Nat := 224

def clanNew : UInt8 := 0
def clanPeon : UInt8 := 1

structure ClanMember where
  uid : UInt32
  status : UInt8
  joinTime : Int
  fullmember : Int
  deriving DecidableEq

structure Clan where
  clanid : UInt32
  tag : UInt32
  clanname : Text
  creationTime : Int
  clanMotd : Text
  members : List ClanMember
  created : Int
  modified : Bool
  channelType : UInt8
  deriving DecidableEq

abbrev Files := AList fun _ : Text => Text

/-- `std::time(NULL)` and the preference for how many hours a new member stays new. -/
structure Clock where
  time : Int
  clanNewerTime : UInt32

def Clock.promotes (clock : Clock) (member : ClanMember) : Bool :=
  member.status = clanNew ∧ (clock.clanNewerTime * 3600).toNat < clock.time - member.joinTime

def Clock.promote (clock : Clock) (member : ClanMember) : ClanMember :=
  if clock.promotes member then { member with status := clanPeon } else member

section Tags

def clantagToStr (tag : UInt32) : Text := cstring (tagBytes tag)

def strToClantag (str : Text) : UInt32 :=
  if str.getD 0 0 ≠ 0 then
    promote (str.getD 0 0) <<< 24 |||
      (if str.getD 1 0 ≠ 0 then
        promote (str.getD 1 0) <<< 16 |||
          (if str.getD 2 0 ≠ 0 then
            promote (str.getD 2 0) <<< 8 |||
              (if str.getD 3 0 ≠ 0 then promote (str.getD 3 0) else 0)
          else 0)
      else 0)
  else 0

/-- A tag of four bytes survives as a string: zero bytes stand only at its end, and a byte that is
negative as a `char` is preceded by bytes of ones only, which its sign runs into. -/
def ReadableBytes (first second third fourth : UInt8) : Prop :=
  (second = 0 → third = 0) ∧ (third = 0 → fourth = 0) ∧ (128 ≤ second → first = 255) ∧
    (128 ≤ third → first = 255 ∧ second = 255) ∧
    (128 ≤ fourth → first = 255 ∧ second = 255 ∧ third = 255)

instance (first second third fourth : UInt8) :
    Decidable (ReadableBytes first second third fourth) :=
  inferInstanceAs (Decidable ((second = 0 → third = 0) ∧ (third = 0 → fourth = 0) ∧
    (128 ≤ second → first = 255) ∧ (128 ≤ third → first = 255 ∧ second = 255) ∧
    (128 ≤ fourth → first = 255 ∧ second = 255 ∧ third = 255)))

def Readable (tag : UInt32) : Prop :=
  ReadableBytes (tagByte 24 tag) (tagByte 16 tag) (tagByte 8 tag) (tagByte 0 tag)

variable (first second third byte fourth : UInt8)

theorem or_sign_byte (sign : UInt8) :
    byte ||| signByte sign = byte ↔ (128 ≤ sign → byte = 255) := by
  by_cases negative : 128 ≤ sign
  · have ones : byte ||| 255 = 255 := UInt8.or_neg_one
    simp only [signByte, negative, if_true, ones, true_imp_iff]
    exact eq_comm
  · simp [signByte, negative]

theorem or_absorb (left right : UInt8) :
    byte ||| (left ||| right) = byte ↔ byte ||| left = byte ∧ byte ||| right = byte := by
  constructor
  · intro whole
    refine ⟨?_, ?_⟩
    · calc byte ||| left = (byte ||| (left ||| right)) ||| left := by rw [whole]
        _ = byte ||| ((left ||| left) ||| right) := by ac_rfl
        _ = byte := by rw [UInt8.or_self, whole]
    · calc byte ||| right = (byte ||| (left ||| right)) ||| right := by rw [whole]
        _ = byte ||| (left ||| (right ||| right)) := by ac_rfl
        _ = byte := by rw [UInt8.or_self, whole]
  · rintro ⟨withLeft, withRight⟩
    rw [← UInt8.or_assoc, withLeft, withRight]

theorem str_to_clantag_bytes (nonzero : first ≠ 0) :
    tagBytes (strToClantag (cstring [first, second, third, fourth])) =
        [first, second, third, fourth] ↔ ReadableBytes first second third fourth := by
  have positive : ¬(128 : UInt8) ≤ 0 := by decide
  have one := (tag_bytes_char first).1
  have two := (tag_bytes_char second).2.1
  have three := (tag_bytes_char third).2.2.1
  have four := (tag_bytes_char fourth).2.2.2
  -- The cases are where the string ends.
  by_cases secondZero : second = 0
  · subst secondZero
    have read : tagBytes (strToClantag (cstring [first, 0, third, fourth])) = [first, 0, 0, 0] := by
      simp [strToClantag, cstring, nonzero, one]
    rw [read, ReadableBytes]
    constructor
    · intro same
      obtain ⟨rfl, rfl⟩ : 0 = third ∧ 0 = fourth := by simpa using same
      simp [positive]
    · rintro ⟨thirdZero, fourthZero, _⟩
      rw [thirdZero rfl, fourthZero (thirdZero rfl)]
  by_cases thirdZero : third = 0
  · subst thirdZero
    have read : tagBytes (strToClantag (cstring [first, second, 0, fourth])) =
        [first ||| signByte second, second, 0, 0] := by
      simp [strToClantag, cstring, nonzero, secondZero, tag_bytes_or, one, two]
    rw [read, ReadableBytes]
    constructor
    · intro same
      obtain ⟨sign, rfl⟩ : first ||| signByte second = first ∧ 0 = fourth := by simpa using same
      simpa [positive, secondZero] using (or_sign_byte first second).mp sign
    · rintro ⟨_, fourthZero, sign, _⟩
      rw [fourthZero rfl, (or_sign_byte first second).mpr sign]
  by_cases fourthZero : fourth = 0
  · subst fourthZero
    have read : tagBytes (strToClantag (cstring [first, second, third, 0])) =
        [first ||| (signByte second ||| signByte third), second ||| signByte third, third, 0] := by
      simp [strToClantag, cstring, nonzero, secondZero, thirdZero, tag_bytes_or, one, two, three]
    rw [read, ReadableBytes]
    simp only [cons.injEq, and_true, or_absorb, or_sign_byte, secondZero, thirdZero, positive]
    tauto
  · have read : tagBytes (strToClantag (cstring [first, second, third, fourth])) =
        [first ||| (signByte second ||| (signByte third ||| signByte fourth)),
          second ||| (signByte third ||| signByte fourth), third ||| signByte fourth, fourth] := by
      simp [strToClantag, cstring, nonzero, secondZero, thirdZero, fourthZero, tag_bytes_or, one,
        two, three, four]
    rw [read, ReadableBytes]
    simp only [cons.injEq, and_true, or_absorb, or_sign_byte, secondZero, thirdZero]
    tauto

theorem str_to_clantag_iff (tag : UInt32) (nonempty : clantagToStr tag ≠ []) :
    strToClantag (clantagToStr tag) = tag ↔ Readable tag := by
  have nonzero : tagByte 24 tag ≠ 0 := by
    intro zero
    exact nonempty (by simp [clantagToStr, cstring, tagBytes, zero])
  rw [← tag_bytes_inj]
  exact str_to_clantag_bytes _ _ _ _ nonzero

/-- A tag of up to four bytes survives as a number when a byte that is negative as a `char` is
preceded by bytes of ones only. -/
def ReadableText (str : Text) : Prop := ∀ k, 128 ≤ str.getD k 0 → ∀ j < k, str.getD j 0 = 255

variable (rest : Text)

theorem readable_text_bytes (short : rest.length ≤ 3) (nulFree : 0 ∉ first :: rest) :
    ReadableText (first :: rest) ↔
      ReadableBytes first (rest.getD 0 0) (rest.getD 1 0) (rest.getD 2 0) := by
  have positive : ¬(128 : UInt8) ≤ 0 := by decide
  have ends : (rest.getD 0 0 = 0 → rest.getD 1 0 = 0) ∧
      (rest.getD 1 0 = 0 → rest.getD 2 0 = 0) := by
    rcases rest with _ | ⟨second, _ | ⟨third, rest⟩⟩
    · simp
    · simp
    · simp only [mem_cons, not_or] at nulFree
      simp [Ne.symm nulFree.2.1, Ne.symm nulFree.2.2.1]
  constructor
  · intro readable
    refine ⟨ends.1, ends.2, fun second => readable 1 second 0 (by decide), fun third => ?_,
      fun fourth => ?_⟩
    · exact ⟨readable 2 third 0 (by decide), readable 2 third 1 (by decide)⟩
    · exact ⟨readable 3 fourth 0 (by decide), readable 3 fourth 1 (by decide),
        readable 3 fourth 2 (by decide)⟩
  rintro ⟨-, -, second, third, fourth⟩ k negative j before
  have inside : k < 4 := by
    by_contra outside
    have none : (first :: rest)[k]? = none := getElem?_eq_none (by rw [length_cons]; omega)
    rw [getD_eq_getElem?_getD, none] at negative
    exact positive negative
  interval_cases k
  · omega
  · obtain rfl : j = 0 := by omega
    exact second negative
  · obtain ⟨one, two⟩ := third negative
    interval_cases j
    · exact one
    · exact two
  · obtain ⟨one, two, three⟩ := fourth negative
    interval_cases j
    · exact one
    · exact two
    · exact three

theorem cstring_filled (short : rest.length ≤ 3) (nulFree : 0 ∉ first :: rest) :
    cstring [first, rest.getD 0 0, rest.getD 1 0, rest.getD 2 0] = first :: rest := by
  simp only [mem_cons, not_or] at nulFree
  rcases rest with _ | ⟨second, _ | ⟨third, _ | ⟨fourth, rest⟩⟩⟩
  · simp [cstring, Ne.symm nulFree.1]
  · simp only [mem_cons, not_or] at nulFree
    simp [cstring, Ne.symm nulFree.1, Ne.symm nulFree.2.1]
  · simp only [mem_cons, not_or] at nulFree
    simp [cstring, Ne.symm nulFree.1, Ne.symm nulFree.2.1, Ne.symm nulFree.2.2.1]
  · have empty : rest = [] := eq_nil_of_length_eq_zero (by
      simp only [length_cons] at short
      omega)
    simp only [empty, mem_cons, not_or] at nulFree
    simp [empty, cstring, Ne.symm nulFree.1, Ne.symm nulFree.2.1, Ne.symm nulFree.2.2.1,
      Ne.symm nulFree.2.2.2.1]

theorem filled_cstring (nonzero : first ≠ 0)
    (ends : (second = 0 → third = 0) ∧ (third = 0 → fourth = 0)) :
    let str := cstring [first, second, third, fourth]
    [first, second, third, fourth] = [first, str.getD 1 0, str.getD 2 0, str.getD 3 0] := by
  by_cases two : second = 0
  · simp [cstring, nonzero, two, ends.1 two, ends.2 (ends.1 two)]
  by_cases three : third = 0
  · simp [cstring, nonzero, two, three, ends.2 three]
  · by_cases four : fourth = 0
    · simp [cstring, nonzero, two, three, four]
    · simp [cstring, nonzero, two, three, four]

theorem readable_round_trip (str : Text) (nonempty : str ≠ []) (short : str.length ≤ 4)
    (nulFree : 0 ∉ str) (readable : ReadableText str) : clantagToStr (strToClantag str) = str := by
  obtain ⟨first, rest, rfl⟩ := exists_cons_of_ne_nil nonempty
  have few : rest.length ≤ 3 := Nat.le_of_succ_le_succ short
  have filled := cstring_filled first rest few nulFree
  have nonzero : first ≠ 0 := by
    rintro rfl
    exact nulFree mem_cons_self
  have bytes := (str_to_clantag_bytes first _ _ _ nonzero).mpr
    ((readable_text_bytes first rest few nulFree).mp readable)
  rw [filled] at bytes
  rw [clantagToStr, bytes, filled]

/-- Written as a number and back, exactly the readable tags stay what they are. -/
theorem clantag_round_trip_iff (str : Text) (nonempty : str ≠ []) (short : str.length ≤ 4)
    (nulFree : 0 ∉ str) : clantagToStr (strToClantag str) = str ↔ ReadableText str := by
  refine ⟨fun same => ?_, readable_round_trip str nonempty short nulFree⟩
  obtain ⟨first, rest, rfl⟩ := exists_cons_of_ne_nil nonempty
  have few : rest.length ≤ 3 := Nat.le_of_succ_le_succ short
  have nonzero : first ≠ 0 := by
    rintro rfl
    exact nulFree mem_cons_self
  -- The number is one that was read, so its bytes end in zeros.
  obtain ⟨two, three, -⟩ := (str_to_clantag_iff (strToClantag (first :: rest))
    (by rw [same]; exact nonempty)).mp (by rw [same])
  simp only [clantagToStr, tagBytes] at same
  have start : tagByte 24 (strToClantag (first :: rest)) = first := by
    rw [cstring, takeWhile_cons] at same
    split at same
    · exact (List.cons.inj same).1
    · cases same
  have bytes := filled_cstring (tagByte 24 (strToClantag (first :: rest))) _ _ _
    (by rw [start]; exact nonzero) ⟨two, three⟩
  rw [same, start] at bytes
  rw [readable_text_bytes first rest few nulFree, ← str_to_clantag_bytes first _ _ _ nonzero,
    cstring_filled first rest few nulFree, tagBytes, start]
  exact bytes

theorem pvgn_round_trip : clantagToStr (strToClantag (text "PvGN")) = text "PvGN" := by
  refine (clantag_round_trip_iff (text "PvGN") (by decide) (by decide) (by decide)).mpr ?_
  refine (readable_text_bytes 80 [118, 71, 78] (by decide) (by decide)).mpr (by decide)

theorem accented_tags_meet : strToClantag [65, 233] = strToClantag [66, 233] ∧
    clantagToStr (strToClantag [65, 233]) = [255, 233] := by
  decide

end Tags

/-- A name under which a file can be created in a directory. -/
def isFileName (name : Text) : Bool :=
  name ≠ [] && !name.contains 47 && name ≠ [46] && name ≠ [46, 46]

section Format

/-- `"\"%s\",\"%s\",%i,%i\n"` -/
def header (clan : Clan) : Text :=
  quote :: clan.clanname ++ quote :: 44 :: quote :: clan.clanMotd ++ quote :: 44 ::
    signed clan.clanid.toInt32.toInt ++ 44 :: signed (Int32.ofInt clan.creationTime).toInt ++ [newline]

/-- `"%i,%c,%u\n"` -/
def memberLine (member : ClanMember) : Text :=
  signed member.uid.toInt32.toInt ++ 44 :: (member.status + 48) :: 44 ::
    unsigned (ofInt member.joinTime).toNat ++ [newline]

def isFull (member : ClanMember) : Bool := member.fullmember = 1

def clanText (clan : Clan) : Text := header clan ++ (clan.members.filter isFull).flatMap memberLine

/-- `",%d,%d\n"` -/
def headerFormat : List Directive :=
  [.literal 44, .conversion (.signed 10), .literal 44, .conversion (.signed 10), .white]

/-- `"%i,%c,%i\n"` -/
def memberFormat : List Directive :=
  [.conversion (.signed 0), .literal 44, .conversion .char, .literal 44, .conversion (.signed 0),
    .white]

/-- Name, message of the day, clan id and creation time from the first line of a clan file. -/
def parseHeader (line : Text) : Option (Text × Text × Int × Int) :=
  match line with
  | 34 :: clanname =>
    match clanname.dropWhile notQuote with
    | [] => none
    | _ :: afterName =>
      if clanNameMax ≤ (clanname.takeWhile notQuote).length then none
      else match afterName with
        | 44 :: 34 :: motd =>
          match motd.dropWhile notQuote with
          | [] => none
          | _ :: afterMotd =>
            match sscanf afterMotd headerFormat with
            | [.signed cid, .signed creationTime] =>
              some (clanname.takeWhile notQuote, motd.takeWhile notQuote, cid, creationTime)
            | _ => none
        | _ => none
  | _ => none

/-- The loop over the member lines, with fuel; a member without an account is skipped. -/
def readMembers (accounts : UInt32 → Bool) : Nat → Text → List ClanMember
  | 0, _ => []
  | fuel + 1, file =>
    match scan memberFormat file with
    | ([.signed memberUid, .char memberStatus, .signed memberJoinTime], rest) =>
      let uid := (Int32.ofInt memberUid).toUInt32
      if accounts uid then
        { uid, status := memberStatus - 48, joinTime := memberJoinTime, fullmember := 1 } ::
          readMembers accounts fuel rest
      else readMembers accounts fuel rest
    | _ => []

end Format

/-- What loading depends on besides the files. -/
structure Server where
  accounts : UInt32 → Bool
  clock : Clock
  channelDefaultPrivate : UInt8

def loadClan (server : Server) (dentry contents : Text) : Option Clan :=
  if 4 < dentry.length then none
  else match fgets 1024 contents with
    | none => none
    | some (line, rest) =>
      match parseHeader (cstring line) with
      | none => none
      | some (clanname, motd, cid, creationTime) =>
        let members := readMembers server.accounts (rest.length + 1) rest
        some { clanid := (Int32.ofInt cid).toUInt32, tag := strToClantag dentry, clanname,
               creationTime, clanMotd := motd, members := members.map server.clock.promote,
               created := 1, modified := members.any server.clock.promotes,
               channelType := server.channelDefaultPrivate }

def fileLoadClans (server : Server) (files : Files) : List Clan :=
  files.entries.filterMap fun entry => loadClan server entry.1 entry.2

/-- The clan, whose new members may have been promoted, and the directory. -/
def fileWriteClan (clock : Clock) (clan : Clan) (files : Files) : Clan × Files :=
  if isFileName (clantagToStr clan.tag) then
    let promoted := { clan with members := clan.members.map clock.promote }
    (promoted, files.insert (clantagToStr clan.tag) (clanText promoted))
  else (clan, files)

/-- What should come back: the full members, promoted by the clocks at the write and at the load. -/
def Clan.reloaded (clan : Clan) (clock : Clock) (server : Server) : Clan :=
  let members := (clan.members.filter isFull).map clock.promote
  { clan with
    members := members.map server.clock.promote
    created := 1
    modified := members.any server.clock.promotes
    channelType := server.channelDefaultPrivate }

def Carried (field : Text) : Prop := quote ∉ field ∧ newline ∉ field

structure Storable (clan : Clan) : Prop where
  fileName : isFileName (clantagToStr clan.tag) = true
  readable : Readable clan.tag
  clanname : Carried clan.clanname
  clanMotd : Carried clan.clanMotd
  creationTime : -2 ^ 31 ≤ clan.creationTime ∧ clan.creationTime < 2 ^ 31
  joinTimes : ∀ member ∈ clan.members, isFull member = true →
    0 ≤ member.joinTime ∧ member.joinTime < 2 ^ 31

section Promotion
variable (clock : Clock) (member : ClanMember)

@[simp] theorem promote_uid : (clock.promote member).uid = member.uid := by
  unfold Clock.promote
  split <;> rfl

@[simp] theorem promote_join_time : (clock.promote member).joinTime = member.joinTime := by
  unfold Clock.promote
  split <;> rfl

@[simp] theorem promote_fullmember : (clock.promote member).fullmember = member.fullmember := by
  unfold Clock.promote
  split <;> rfl

theorem filter_promote (members : List ClanMember) :
    (members.map clock.promote).filter isFull = (members.filter isFull).map clock.promote := by
  rw [List.filter_map]
  congr 1
  apply filter_congr
  intro member _
  simp [isFull]

end Promotion

section Reading

theorem parse_header_shape (line clanname motd : Text) (cid creationTime : Int)
    (parsed : parseHeader line = some (clanname, motd, cid, creationTime)) :
    ∃ rest, line = quote :: clanname ++ quote :: 44 :: quote :: motd ++ quote :: rest ∧
      quote ∉ clanname ∧ quote ∉ motd := by
  unfold parseHeader at parsed
  split at parsed
  case h_2 => contradiction
  next afterOpen =>
  split at parsed
  case h_1 => contradiction
  next stop afterName nameEnds =>
  split at parsed
  case isTrue => contradiction
  split at parsed
  case h_2 => contradiction
  next afterComma =>
  split at parsed
  case h_1 => contradiction
  next stop afterMotd motdEnds =>
  split at parsed
  case h_2 => contradiction
  next scanned =>
  cases parsed
  obtain ⟨nameShape, nameFree⟩ := split_at_quote _ _ _ nameEnds
  obtain ⟨motdShape, motdFree⟩ := split_at_quote _ _ _ motdEnds
  refine ⟨afterMotd, ?_, nameFree, motdFree⟩
  conv =>
    lhs
    rw [nameShape, motdShape]
  simp

theorem parse_header_written (clanname motd : Text) (cid creationTime : Int)
    (nameFree : quote ∉ clanname) (motdFree : quote ∉ motd) (short : clanname.length < clanNameMax)
    (cidLeast : -2 ^ 31 ≤ cid) (cidMost : cid < 2 ^ 31) (timeLeast : -2 ^ 31 ≤ creationTime)
    (timeMost : creationTime < 2 ^ 31) :
    parseHeader (quote :: clanname ++ quote :: 44 :: quote :: motd ++ quote :: 44 :: signed cid ++
        44 :: signed creationTime ++ [newline]) = some (clanname, motd, cid, creationTime) := by
  have nameRun := not_quote_run clanname nameFree
  have motdRun := not_quote_run motd motdFree
  have ends : Separated [newline] := (separated_cons newline []).mpr (by decide)
  have scanned : sscanf (44 :: (signed cid ++ 44 :: (signed creationTime ++ [newline])))
      headerFormat = [.signed cid, .signed creationTime] := by
    rw [sscanf, headerFormat, scan_literal,
      scan_signed 10 cid _ _ (Or.inr rfl) cidLeast cidMost (comma_separated _), scan_literal,
      scan_signed 10 creationTime _ _ (Or.inr rfl) timeLeast timeMost ends]
    rfl
  have tooLong : ¬clanNameMax ≤ clanname.length := by omega
  simp only [cons_append, append_assoc]
  unfold parseHeader
  simp only [take_run _ _ _ nameRun (stops_at_quote _), drop_run _ _ _ nameRun (stops_at_quote _),
    take_run _ _ _ motdRun (stops_at_quote _), drop_run _ _ _ motdRun (stops_at_quote _), scanned,
    if_neg tooLong]

variable (members : List ClanMember) (value : Int)

theorem signed_length (least : -2 ^ 31 ≤ value) (most : value < 2 ^ 31) :
    (signed value).length ≤ 11 := by
  cases value with
  | ofNat value =>
    have bound : value < 10 ^ 10 := by
      simp only [Int.ofNat_eq_natCast] at most
      omega
    have short := digits_length_le 10 value 10 (by omega) (by omega) bound
    simp only [signed]
    omega
  | negSucc value =>
    have bound : value + 1 < 10 ^ 10 := by omega
    have short := digits_length_le 10 (value + 1) 10 (by omega) (by omega) bound
    simp only [signed, length_cons]
    omega

def headerContent (clan : Clan) : Text :=
  quote :: clan.clanname ++ quote :: 44 :: quote :: clan.clanMotd ++ quote :: 44 ::
    signed clan.clanid.toInt32.toInt ++ 44 :: signed (Int32.ofInt clan.creationTime).toInt

theorem header_eq (clan : Clan) : header clan = headerContent clan ++ [newline] := rfl

variable {clan : Clan}

theorem header_content_length (nameShort : clan.clanname.length < clanNameMax)
    (motdShort : clan.clanMotd.length < clanMotdMax) : (headerContent clan).length + 1 < 1024 := by
  have id := signed_length clan.clanid.toInt32.toInt clan.clanid.toInt32.le_toInt
    clan.clanid.toInt32.toInt_lt
  have time := signed_length (Int32.ofInt clan.creationTime).toInt
    (Int32.ofInt clan.creationTime).le_toInt (Int32.ofInt clan.creationTime).toInt_lt
  simp only [clanNameMax, clanMotdMax] at nameShort motdShort
  simp only [headerContent, length_append, length_cons]
  omega

theorem header_content_bytes (byte : UInt8) (member : byte ∈ headerContent clan) :
    byte ∈ clan.clanname ∨ byte ∈ clan.clanMotd ∨ byte = quote ∨ Ordinary byte := by
  have comma : Ordinary 44 := ordinary_of_range 44 (by decide) (by decide)
  simp only [headerContent, mem_append, mem_cons] at member
  rcases member with ((((rfl | name) | rfl | rfl | rfl | motd) | rfl | rfl | id) | rfl | time)
  · exact Or.inr (Or.inr (Or.inl rfl))
  · exact Or.inl name
  · exact Or.inr (Or.inr (Or.inl rfl))
  · exact Or.inr (Or.inr (Or.inr comma))
  · exact Or.inr (Or.inr (Or.inl rfl))
  · exact Or.inr (Or.inl motd)
  · exact Or.inr (Or.inr (Or.inl rfl))
  · exact Or.inr (Or.inr (Or.inr comma))
  · exact Or.inr (Or.inr (Or.inr (signed_ordinary _ byte id)))
  · exact Or.inr (Or.inr (Or.inr comma))
  · exact Or.inr (Or.inr (Or.inr (signed_ordinary _ byte time)))

theorem header_nul_free (nameNul : 0 ∉ clan.clanname) (motdNul : 0 ∉ clan.clanMotd) :
    0 ∉ header clan := by
  rw [header_eq, mem_append, not_or]
  refine ⟨?_, by decide⟩
  intro member
  rcases header_content_bytes 0 member with name | motd | mark | ordinary
  · exact nameNul name
  · exact motdNul motd
  · exact absurd mark (by decide)
  · exact ordinary.1.1 rfl

theorem read_header (nameNul : 0 ∉ clan.clanname) (motdNul : 0 ∉ clan.clanMotd)
    (nameShort : clan.clanname.length < clanNameMax)
    (motdShort : clan.clanMotd.length < clanMotdMax) (name : Carried clan.clanname)
    (motd : Carried clan.clanMotd) (rest : Text) :
    fgets 1024 (header clan ++ rest) = some (header clan, rest) ∧
      parseHeader (cstring (header clan)) =
        some (clan.clanname, clan.clanMotd, clan.clanid.toInt32.toInt,
          (Int32.ofInt clan.creationTime).toInt) := by
  have oneLine : 10 ∉ headerContent clan := by
    intro member
    rcases header_content_bytes 10 member with inName | inMotd | mark | ordinary
    · exact name.2 inName
    · exact motd.2 inMotd
    · exact absurd mark (by decide)
    · exact ordinary.1.2.1 rfl
  have line := fgets_line 1024 (headerContent clan) rest (header_content_length nameShort motdShort)
    oneLine
  refine ⟨by simpa [header_eq] using line, ?_⟩
  rw [cstring_nul_free _ (header_nul_free nameNul motdNul)]
  exact parse_header_written clan.clanname clan.clanMotd _ _ name.1 motd.1 nameShort
    clan.clanid.toInt32.le_toInt clan.clanid.toInt32.toInt_lt
    (Int32.ofInt clan.creationTime).le_toInt (Int32.ofInt clan.creationTime).toInt_lt

theorem loaded_texts_carried (contents line rest clanname motd : Text) (cid creationTime : Int)
    (read : fgets 1024 contents = some (line, rest))
    (parsed : parseHeader (cstring line) = some (clanname, motd, cid, creationTime)) :
    Carried clanname ∧ Carried motd := by
  obtain ⟨after, shape, nameFree, motdFree⟩ := parse_header_shape _ _ _ _ _ parsed
  have taken : line = (takeLine 1023 contents).1 := by
    unfold fgets at read
    split at read
    · contradiction
    · exact (Prod.mk.inj (some.inj read)).1.symm
  have whole := takeWhile_append_dropWhile (p := fun byte : UInt8 => decide (byte ≠ 0))
    (l := line)
  have split : (takeLine 1023 contents).1 =
      (quote :: clanname ++ quote :: 44 :: quote :: motd) ++
        (quote :: after ++ line.dropWhile (· ≠ 0)) := by
    rw [← taken]
    conv =>
      lhs
      rw [← whole]
    rw [show line.takeWhile (fun byte : UInt8 => decide (byte ≠ 0)) = cstring line from rfl, shape]
    simp
  have oneLine := take_line_newline 1023 contents _ _ split (by simp)
  simp only [cons_append, mem_cons, mem_append, not_or] at oneLine
  exact ⟨⟨nameFree, oneLine.2.1⟩, ⟨motdFree, oneLine.2.2.2.2.2⟩⟩

theorem signed_head_black (rest : Text) : Stops isspace (signed value ++ rest) := by
  obtain ⟨byte, tail, shape, black⟩ : ∃ byte tail, signed value = byte :: tail ∧
      isspace byte = false := by
    cases value with
    | ofNat value =>
      obtain ⟨byte, tail, shape, least, _⟩ := digits_unsigned_head value
      exact ⟨byte, tail, shape, range_not_white byte least⟩
    | negSucc value => exact ⟨45, _, rfl, by decide⟩
  rw [shape, cons_append]
  exact (stops_cons _ _ _).mpr black

theorem members_black : Stops isspace (members.flatMap memberLine) := by
  cases members with
  | nil => exact stops_nil _
  | cons member rest =>
    rw [flatMap_cons, memberLine]
    simp only [append_assoc, cons_append]
    exact signed_head_black _ _

/-- A join time is printed as an unsigned number but read into an `int`. -/
theorem scan_member (member : ClanMember) (rest : Text) (black : Stops isspace rest)
    (fits : (ofInt member.joinTime).toNat < 2 ^ 31) :
    scan memberFormat (memberLine member ++ rest) =
      ([.signed member.uid.toInt32.toInt, .char (member.status + 48),
        .signed (ofInt member.joinTime).toNat], rest) := by
  have ends : Separated (newline :: rest) := (separated_cons newline rest).mpr (by decide)
  have time := scan_signed 0 (ofInt member.joinTime).toNat [.white] (newline :: rest)
    (Or.inl rfl) (by omega) (by exact_mod_cast fits) ends
  have skipped : scan [.white] (newline :: rest) = ([], rest) := by
    have blank : isspace newline = true := by decide
    have unchanged := scan_white [] rest black
    simpa [scan, blank] using unchanged
  have printed : signed ((ofInt member.joinTime).toNat : Int) =
      unsigned (ofInt member.joinTime).toNat := rfl
  rw [skipped, printed] at time
  simp only [memberLine, memberFormat, append_assoc, cons_append, nil_append]
  rw [scan_signed 0 _ _ _ (Or.inl rfl) member.uid.toInt32.le_toInt member.uid.toInt32.toInt_lt
    (comma_separated _), scan_literal, scan_char, scan_literal, time]

/-- From 2038 on the number does not fit and the line counts as the end of the file. -/
theorem scan_member_overflow (member : ClanMember) (rest : Text)
    (large : 2 ^ 31 ≤ (ofInt member.joinTime).toNat) :
    (scan memberFormat (memberLine member ++ rest)).1 =
      [.signed member.uid.toInt32.toInt, .char (member.status + 48)] := by
  have ends : Separated (newline :: rest) := (separated_cons newline rest).mpr (by decide)
  have failed : convert (.signed 0) (unsigned (ofInt member.joinTime).toNat ++
      newline :: rest) = none := by
    have tooLarge : ¬(-2 ^ 31 ≤ ((ofInt member.joinTime).toNat : Int) ∧
        ((ofInt member.joinTime).toNat : Int) < 2 ^ 31) := by
      omega
    simp only [convert, unsigned, integer_digits 0 _ _ (Or.inl rfl) ends]
    rw [if_neg tooLarge]
  simp only [memberLine, memberFormat, append_assoc, cons_append, nil_append]
  rw [scan_signed 0 _ _ _ (Or.inl rfl) member.uid.toInt32.le_toInt member.uid.toInt32.toInt_lt
    (comma_separated _), scan_literal, scan_char, scan_literal, scan_failed _ failed]

def fits (member : ClanMember) : Bool := (ofInt member.joinTime).toNat < 2 ^ 31

def cut (member : ClanMember) : ClanMember :=
  { member with joinTime := (ofInt member.joinTime).toNat }

theorem read_members (accounts : UInt32 → Bool) (members : List ClanMember) (fuel : Nat)
    (enough : members.length < fuel) (exist : ∀ member ∈ members, accounts member.uid = true)
    (full : ∀ member ∈ members, member.fullmember = 1) :
    readMembers accounts fuel (members.flatMap memberLine) = (members.takeWhile fits).map cut := by
  -- Induction on the members: one call of `fscanf` for each, up to the first that fails.
  induction members generalizing fuel with
  | nil =>
    cases fuel with
    | zero => simp at enough
    | succ fuel => simp [readMembers, scan, memberFormat, convert, integer, magnitude, number]
  | cons member rest ih =>
    cases fuel with
    | zero => simp at enough
    | succ fuel =>
      have others := ih fuel (by simpa using enough)
        (fun other inside => exist other (by simp [inside]))
        fun other inside => full other (by simp [inside])
      rw [flatMap_cons]
      by_cases small : (ofInt member.joinTime).toNat < 2 ^ 31
      · have scanned := scan_member member (rest.flatMap memberLine) (members_black rest) small
        have uid : (Int32.ofInt member.uid.toInt32.toInt).toUInt32 = member.uid := by
          rw [Int32.ofInt_toInt]
          rfl
        have status : member.status + 48 - 48 = member.status := by simp
        have taken : fits member = true := by simpa [fits] using small
        simp only [readMembers, scanned, uid, status, exist member (by simp), if_true, others,
          takeWhile_cons, taken, map_cons, cons.injEq, and_true]
        rw [cut, full member (by simp)]
      · have failed := scan_member_overflow member (rest.flatMap memberLine) (by omega)
        have ended : readMembers accounts (fuel + 1)
            (memberLine member ++ rest.flatMap memberLine) = [] := by
          rw [readMembers]
          split
          · next equal => simp [equal] at failed
          · rfl
        have dropped : fits member = false := by simpa [fits] using small
        rw [ended, takeWhile_cons, dropped]
        rfl

theorem cut_of_range (member : ClanMember) (least : 0 ≤ member.joinTime)
    (most : member.joinTime < 2 ^ 31) : fits member = true ∧ cut member = member := by
  have word := word_of_int member.joinTime
  have time : ((ofInt member.joinTime).toNat : Int) = member.joinTime := by omega
  refine ⟨by simp [fits]; omega, ?_⟩
  rw [cut, time]

theorem range_of_cut (member : ClanMember) (small : fits member = true)
    (same : (cut member).joinTime = member.joinTime) :
    0 ≤ member.joinTime ∧ member.joinTime < 2 ^ 31 := by
  simp only [fits, decide_eq_true_eq] at small
  simp only [cut] at same
  omega

theorem read_members_unchanged
    (range : ∀ member ∈ members, 0 ≤ member.joinTime ∧ member.joinTime < 2 ^ 31) :
    (members.takeWhile fits).map cut = members := by
  have all : members.takeWhile fits = members := by
    rw [takeWhile_eq_self_iff]
    exact fun member inside => (cut_of_range member (range member inside).1 (range member inside).2).1
  rw [all]
  calc members.map cut = members.map id := map_congr_left fun member inside =>
        (cut_of_range member (range member inside).1 (range member inside).2).2
    _ = members := map_id members

theorem read_members_range (clock : Clock) (members : List ClanMember)
    (same : ((members.takeWhile fits).map cut).map clock.promote = members.map clock.promote) :
    ∀ member ∈ members, 0 ≤ member.joinTime ∧ member.joinTime < 2 ^ 31 := by
  induction members with
  | nil => simp
  | cons member rest ih =>
    by_cases small : fits member = true
    · simp only [takeWhile_cons, small, if_true, map_cons, cons.injEq] at same
      have times := congrArg ClanMember.joinTime same.1
      simp only [promote_join_time] at times
      exact forall_mem_cons.mpr ⟨range_of_cut member small times, ih same.2⟩
    · simp [small] at same

end Reading

theorem members_length (members : List ClanMember) :
    members.length ≤ (members.flatMap memberLine).length := by
  induction members with
  | nil => simp
  | cons member rest ih =>
    simp only [flatMap_cons, length_append, length_cons, memberLine]
    omega

theorem load_written (server : Server) (files : Files) (name contents : Text) :
    fileLoadClans server (files.insert name contents) =
      (loadClan server name contents).toList ++ fileLoadClans server (files.erase name) := by
  rw [fileLoadClans, AList.entries_insert, filterMap_cons]
  cases loadClan server name contents <;> rfl

theorem load_clan_text_iff (clock : Clock) (server : Server) (clan : Clan)
    (nameNul : 0 ∉ clan.clanname) (motdNul : 0 ∉ clan.clanMotd)
    (nameShort : clan.clanname.length < clanNameMax)
    (motdShort : clan.clanMotd.length < clanMotdMax)
    (exist : ∀ member ∈ clan.members, isFull member = true → server.accounts member.uid = true)
    (fileName : isFileName (clantagToStr clan.tag) = true) :
    loadClan server (clantagToStr clan.tag)
        (clanText { clan with members := clan.members.map clock.promote }) =
        some (clan.reloaded clock server) ↔ Storable clan := by
  have nonempty : clantagToStr clan.tag ≠ [] := by
    intro empty
    simp [isFileName, empty] at fileName
  have tagLength : ¬4 < (clantagToStr clan.tag).length := by
    have shorter := (List.takeWhile_prefix (p := fun byte : UInt8 => decide (byte ≠ 0))
      (l := tagBytes clan.tag)).length_le
    simpa [clantagToStr, cstring, tagBytes] using shorter
  have text : clanText { clan with members := clan.members.map clock.promote } =
      header clan ++ (((clan.members.filter isFull).map clock.promote).flatMap memberLine) := by
    rw [clanText, filter_promote]
    rfl
  have membersRead := read_members server.accounts
    ((clan.members.filter isFull).map clock.promote)
    ((((clan.members.filter isFull).map clock.promote).flatMap memberLine).length + 1)
    (Nat.lt_succ_of_le (members_length _))
    (by
      intro member inside
      obtain ⟨original, listed, rfl⟩ := mem_map.mp inside
      obtain ⟨isMember, full⟩ := mem_filter.mp listed
      simpa using exist original isMember full)
    (by
      intro member inside
      obtain ⟨original, listed, rfl⟩ := mem_map.mp inside
      simpa [isFull] using (mem_filter.mp listed).2)
  have joinTimes : (∀ member ∈ (clan.members.filter isFull).map clock.promote,
      0 ≤ member.joinTime ∧ member.joinTime < 2 ^ 31) ↔
      ∀ member ∈ clan.members, isFull member = true →
        0 ≤ member.joinTime ∧ member.joinTime < 2 ^ 31 := by
    simp only [List.forall_mem_map, mem_filter, promote_join_time, and_imp]
  have id : (Int32.ofInt clan.clanid.toInt32.toInt).toUInt32 = clan.clanid := by
    rw [Int32.ofInt_toInt]
    rfl
  rw [text]
  constructor
  · intro loaded
    have carried : Carried clan.clanname ∧ Carried clan.clanMotd := by
      unfold loadClan at loaded
      rw [if_neg tagLength] at loaded
      split at loaded
      · contradiction
      next line rest read =>
      split at loaded
      · contradiction
      next clanname motd cid creationTime parsed =>
      have same := some.inj loaded
      have texts := loaded_texts_carried _ _ _ _ _ _ _ read parsed
      have nameSame : clanname = clan.clanname := congrArg Clan.clanname same
      have motdSame : motd = clan.clanMotd := congrArg Clan.clanMotd same
      rwa [nameSame, motdSame] at texts
    obtain ⟨read, parsed⟩ := read_header nameNul motdNul nameShort motdShort carried.1 carried.2
      (((clan.members.filter isFull).map clock.promote).flatMap memberLine)
    simp only [loadClan, if_neg tagLength, read, parsed, membersRead, some.injEq] at loaded
    have tag : strToClantag (clantagToStr clan.tag) = clan.tag := congrArg Clan.tag loaded
    have time : (Int32.ofInt clan.creationTime).toInt = clan.creationTime :=
      congrArg Clan.creationTime loaded
    have members := congrArg Clan.members loaded
    refine ⟨fileName, (str_to_clantag_iff clan.tag nonempty).mp tag, carried.1, carried.2, ?_, ?_⟩
    · rw [← time]
      exact ⟨Int32.le_toInt _, Int32.toInt_lt _⟩
    · exact joinTimes.mp (read_members_range server.clock _ members)
  · intro storable
    obtain ⟨read, parsed⟩ := read_header nameNul motdNul nameShort motdShort storable.clanname
      storable.clanMotd (((clan.members.filter isFull).map clock.promote).flatMap memberLine)
    have tag := (str_to_clantag_iff clan.tag nonempty).mpr storable.readable
    have time : (Int32.ofInt clan.creationTime).toInt = clan.creationTime :=
      Int32.toInt_ofInt_of_le storable.creationTime.1 storable.creationTime.2
    have unchanged := read_members_unchanged _ (joinTimes.mpr storable.joinTimes)
    simp only [loadClan, if_neg tagLength, read, parsed, membersRead, unchanged, id, tag, time]
    rfl

/-- Writing a clan into any clan directory and loading the directory gives the clan back beside the
others exactly when the clan is storable: the writer escapes nothing, so a quote or a newline in a
text ends it for the reader, and both times must fit an `int`. -/
theorem load_written_clan_iff (clock : Clock) (server : Server) (clan : Clan) (files : Files)
    (names : ∀ name ∈ files, isFileName name = true) (nameNul : 0 ∉ clan.clanname)
    (motdNul : 0 ∉ clan.clanMotd) (nameShort : clan.clanname.length < clanNameMax)
    (motdShort : clan.clanMotd.length < clanMotdMax)
    (exist : ∀ member ∈ clan.members, isFull member = true → server.accounts member.uid = true) :
    fileLoadClans server (fileWriteClan clock clan files).2 =
        clan.reloaded clock server :: fileLoadClans server (files.erase (clantagToStr clan.tag)) ↔
      Storable clan := by
  by_cases fileName : isFileName (clantagToStr clan.tag) = true
  · rw [← load_clan_text_iff clock server clan nameNul motdNul nameShort motdShort exist fileName]
    simp only [fileWriteClan, fileName, if_true, load_written]
    cases loadClan server (clantagToStr clan.tag)
        (clanText { clan with members := clan.members.map clock.promote }) with
    | none => simp
    | some loaded => simp
  have absent : clantagToStr clan.tag ∉ files := fun member => fileName (names _ member)
  have unchanged : files.erase (clantagToStr clan.tag) = files := by
    apply AList.ext
    exact kerase_of_notMem_keys absent
  simp only [fileWriteClan, fileName, unchanged]
  constructor
  · intro same
    simp at same
  · intro storable
    exact absurd storable.fileName fileName

def exampleClan : Clan :=
  { clanid := 7, tag := 0x41424344, clanname := text "Alpha, Beta", creationTime := 1100000000,
    clanMotd := text "Be there at 8", created := 1, modified := false, channelType := 0,
    members := [{ uid := 3, status := 4, joinTime := 1100000000, fullmember := 1 },
      { uid := 4, status := 0, joinTime := 1100000100, fullmember := 1 },
      { uid := 5, status := 1, joinTime := 0, fullmember := 0 }] }

def exampleClock : Clock := { time := 1100003600, clanNewerTime := 168 }

def exampleServer : Server :=
  { accounts := fun _ => true, clock := { time := 1200000000, clanNewerTime := 168 },
    channelDefaultPrivate := 0 }

theorem load_written_clan_iff_example :
    fileLoadClans exampleServer (fileWriteClan exampleClock exampleClan ∅).2 =
      exampleClan.reloaded exampleClock exampleServer ::
        fileLoadClans exampleServer
          ((∅ : Files).erase (clantagToStr exampleClan.tag)) := by
  refine (load_written_clan_iff exampleClock exampleServer exampleClan ∅
    (fun name member => absurd member (AList.notMem_empty name)) (by decide) (by decide) (by decide)
    (by decide) (fun _ _ _ => rfl)).mpr ?_
  refine ⟨by decide, ?_, ⟨by decide, by decide⟩, ⟨by decide, by decide⟩, by decide, by decide⟩
  have readable : ReadableBytes 65 66 67 68 := by decide
  exact readable

/-- A quote in the message of the day makes the clan vanish. -/
theorem quoted_message_clan_lost :
    fileLoadClans exampleServer (fileWriteClan exampleClock
        { exampleClan with clanMotd := text "say \"hi\"" } ∅).2 = [] ∧
      fileLoadClans exampleServer (fileWriteClan exampleClock
          { exampleClan with clanMotd := text "say \"hi\"" } ∅).2 ≠
        Clan.reloaded { exampleClan with clanMotd := text "say \"hi\"" } exampleClock
            exampleServer ::
          fileLoadClans exampleServer ((∅ : Files).erase (clantagToStr exampleClan.tag)) := by
  have lost : fileLoadClans exampleServer (fileWriteClan exampleClock
      { exampleClan with clanMotd := text "say \"hi\"" } ∅).2 = [] := by
    decide +kernel
  exact ⟨lost, by simp [lost]⟩

end Pvpgn.ClanFile
