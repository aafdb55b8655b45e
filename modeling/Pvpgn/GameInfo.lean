import Pvpgn.PacketFields
import Pvpgn.StringTokens
import Pvpgn.StrToNum
import Pvpgn.GameSlots

/-!
`game_parse_info` reads the info string of a new game, which each family of clients lays out in its
own way. `none` is an access outside the string or a copy of it.
-/

namespace Pvpgn.GameInfo
open Stdio TextUtil CharBuffer PacketFields StringTokens List Option

inductive GameMaptype
  | none | selfmade | blizzard | ladder | pgl | kbk | compusa

inductive GameTileset
  | none | badlands | space | installation | ashworld | jungle | desert | ice | twilight

inductive GameSpeed
  | none | slowest | slower | slow | normal | fast | faster | fastest

structure Game where
  type : GameSlots.GameType
  clienttag : UInt32
  mapname : Option Text
  maptype : GameMaptype
  tileset : GameTileset
  speed : GameSpeed
  mapsizeX : UInt32
  mapsizeY : UInt32
  maxplayers : UInt32
  difficulty : UInt32
  description : Option Text

def bngmaptypeToGmaptype (bngmaptype : UInt32) : GameMaptype :=
  [.selfmade, .blizzard, .ladder, .pgl, .kbk, .compusa].getD bngmaptype.toNat .none

def bngtilesetToGtileset (bngtileset : UInt32) : GameTileset :=
  [.badlands, .space, .installation, .ashworld, .jungle, .desert, .ice, .twilight].getD
    bngtileset.toNat .none

def bngspeedToGspeed (bngspeed : UInt32) : GameSpeed :=
  [.slowest, .slower, .slow, .normal, .fast, .faster, .fastest].getD bngspeed.toNat .none

def w3speedToGspeed (w3speed : UInt8) : GameSpeed :=
  [.slow, .normal, .fast].getD w3speed.toNat .none

/-- `bitmask = *enc >> 1` of a signed character. -/
def startMask (enc : UInt8) : UInt8 := (enc.toInt8 >>> 1).toUInt8

def decryptLoop : Text → Nat → UInt8 → Buffer → Option Buffer
  | [], _, _, dec => put dec 0
  | enc :: rest, pos, bitmask, dec =>
    if pos % 8 ≠ 0 then
      (put dec (if bitmask &&& 1 = 0 then enc - 1 else enc)).bind
        (decryptLoop rest (pos + 1) (bitmask >>> 1))
    else decryptLoop rest (pos + 1) (startMask enc) dec

/-- `_w3_decrypt_mapinfo` works in a copy; what it has not written is not part of the result. -/
def w3DecryptMapinfo (enc : Text) : Option (List UInt8) :=
  (decryptLoop enc 0 0 ⟨enc ++ [0], 0⟩).map fun dec => dec.cells.take dec.position

/-- `bn_short_get` -/
def shortAt (packet : List UInt8) (offset : Nat) : Option UInt32 := do
  some ((← byteAt packet offset).toUInt32 + 256 * (← byteAt packet (offset + 1)).toUInt32)

def parseWarcraft3 (game : Game) (gameinfo : Text) : Option (Int × Game) :=
  if gameinfo = [] then some (-1, game)
  else if gameinfo.length < 0xf + 2 + 1 + 2 + 4 then some (-1, game)
  else do
    let pstr ← w3DecryptMapinfo (gameinfo.drop 9)
    some (0, { game with
      speed := w3speedToGspeed (← byteAt pstr 0)
      mapsizeX := ← shortAt pstr 5
      mapsizeY := ← shortAt pstr 7
      mapname := ← stringAt (pstr.drop 13) })

def parseDiablo2 (game : Game) (gameinfo : Text) : Int × Game :=
  match gameinfo with
  | [] =>
    if game.type = .diablo2closed then (0, { game with difficulty := 0, description := some [] })
    else (-1, game)
  | difficulty :: description =>
    match strToUint [difficulty] with
    | none => (-1, game)
    | some bngdifficulty =>
      let type := if game.type = .diablo2closed then .diablo2open else game.type
      (0, { game with difficulty := bngdifficulty, description := some description, type })

/-- A field that is empty or no number stands for a value of its own. -/
def numberOr (field : Text) (default : UInt32) : UInt32 :=
  if field = [] then default else (strToUint field).getD default

/-- The ten fields of the first line and the map name of the second. -/
def setFields (game : Game) (fields : List Text) (mapname : Text) : Int × Game :=
  match fields with
  | [_, mapsize, maxplayers, speed, maptype, _, _, _, tileset, _] =>
    let bngmapsize := numberOr mapsize 88
    (0, { game with
      mapsizeX := bngmapsize / 10 * 32
      mapsizeY := bngmapsize % 10 * 32
      maxplayers := numberOr maxplayers 8 % 10
      speed := bngspeedToGspeed (numberOr speed 4)
      maptype := bngmaptypeToGmaptype (numberOr maptype 0)
      tileset := bngtilesetToGtileset (numberOr tileset 0)
      mapname := some mapname })
  | _ => (-1, game)

/-- Starcraft, Brood War, or Warcraft II. -/
def parseLines (game : Game) (gameinfo : Text) : Option (Int × Game) := do
  let (line1, next) ← strtok carriageReturn (gameinfo ++ [0])
  match line1 with
  | none => some (-1, game)
  | some line1 =>
    let (line2, _) ← strtok carriageReturn next
    match line2 with
    | none => some (-1, game)
    | some mapname => (strseps 44 10 (line1 ++ [0])).map fun fields => setFields game fields mapname

def gameParseInfo (game : Game) (gameinfo : Text) : Option (Int × Game) :=
  let clienttag := game.clienttag
  if clienttag = 0 then some (-1, game)
  else if clienttag = 0x4452544C ∨ clienttag = 0x44534852 then
    some (0, { game with maxplayers := 4 })
  else if clienttag = 0x44324456 ∨ clienttag = 0x44325850 then some (parseDiablo2 game gameinfo)
  else if clienttag = 0x57415233 ∨ clienttag = 0x57335850 then parseWarcraft3 game gameinfo
  else parseLines game gameinfo

/-! The encoding of the map info. -/

/-- Bytes under a mask from a bit on: as they are where the bit is set, else increased by one. -/
def stored (mask : UInt8) : Nat → Text → Text
  | _, [] => []
  | bit, byte :: rest =>
    (if mask.toNat / 2 ^ bit % 2 = 1 then byte else byte + 1) :: stored mask (bit + 1) rest

/-- The groups of seven bytes, of which the last may be shorter, each behind its mask. -/
inductive Encoding : Text → Text → Prop
  | none : Encoding [] []
  | group {mask : UInt8} {bytes rest enc : Text} (marked : mask.toNat % 2 = 1)
    (some : bytes ≠ []) (most : bytes.length ≤ 7) (last : bytes.length < 7 → rest = [])
    (nulFree : 0 ∉ stored mask 1 bytes) (others : Encoding rest enc) :
    Encoding (bytes ++ rest) (mask :: stored mask 1 bytes ++ enc)

/-- What the loop writes in front of the NUL. -/
def decrypted : Text → Nat → UInt8 → Text
  | [], _, _ => []
  | enc :: rest, pos, bitmask =>
    if pos % 8 ≠ 0 then
      (if bitmask &&& 1 = 0 then enc - 1 else enc) :: decrypted rest (pos + 1) (bitmask >>> 1)
    else decrypted rest (pos + 1) (startMask enc)

variable {enc bytes rest gameinfo head : Text} {pos : Nat} {bitmask mask : UInt8} {game : Game}

theorem loop_puts {dec : Buffer} :
    decryptLoop enc pos bitmask dec = putAll dec (decrypted enc pos bitmask ++ [0]) := by
  induction enc generalizing pos bitmask dec with
  | nil => cases written : put dec 0 <;> simp [decryptLoop, decrypted, putAll, written]
  | cons byte rest ih =>
    rw [decryptLoop, decrypted]
    split
    · simp only [ih, cons_append, putAll]
    · exact ih

theorem decrypted_length (enc : Text) (pos : Nat) (bitmask : UInt8) :
    (decrypted enc pos bitmask).length + (pos + enc.length + 7) / 8 =
      enc.length + (pos + 7) / 8 := by
  induction enc generalizing pos bitmask with
  | nil => simp [decrypted]
  | cons byte rest ih =>
    rw [decrypted]
    split
    · have next := ih (pos + 1) (bitmask >>> 1)
      simp only [length_cons]
      omega
    · have next := ih (pos + 1) (startMask byte)
      simp only [length_cons]
      omega

theorem decrypt_run : w3DecryptMapinfo enc = some (decrypted enc 0 0 ++ [0]) := by
  have length := decrypted_length enc 0 0
  rw [w3DecryptMapinfo, loop_puts, put_all _ _ _ (by simp; omega), take_zero, nil_append,
    Option.map_some, take_left' (Nat.zero_add _).symm]

/-- The shifts of the signed mask leave its bits where they are looked for. -/
theorem start_mask_bit (bit : Nat) (small : bit < 7) :
    (startMask mask).toNat / 2 ^ bit % 2 = mask.toNat / 2 ^ (bit + 1) % 2 := by
  have all : ∀ bit < 7, ∀ value < 256,
      (startMask (UInt8.ofNat value)).toNat / 2 ^ bit % 2 = value / 2 ^ (bit + 1) % 2 := by
    decide +kernel
  simpa using all bit small mask.toNat mask.toNat_lt

theorem group_decrypted {bit : Nat} (phase : pos % 8 = bit + 1) (inside : bit + bytes.length ≤ 7)
    (held : bitmask.toNat = (startMask mask).toNat / 2 ^ bit) : ∃ left,
    decrypted (stored mask (bit + 1) bytes ++ enc) pos bitmask =
      bytes ++ decrypted enc (pos + bytes.length) left := by
  induction bytes generalizing pos bit bitmask with
  | nil => exact ⟨bitmask, rfl⟩
  | cons byte rest ih =>
    rw [length_cons] at inside
    have test : bitmask &&& 1 = 0 ↔ mask.toNat / 2 ^ (bit + 1) % 2 ≠ 1 := by
      rw [← start_mask_bit bit (by omega), ← held, ← UInt8.toNat_inj, UInt8.toNat_and]
      simp
    have next : (bitmask >>> 1).toNat = (startMask mask).toNat / 2 ^ (bit + 1) := by
      rw [UInt8.toNat_shiftRight, held, Nat.pow_succ, ← Nat.div_div_eq_div_mul]
      simp [Nat.shiftRight_eq_div_pow]
    obtain ⟨left, others⟩ : ∃ left, decrypted (stored mask (bit + 2) rest ++ enc) (pos + 1)
        (bitmask >>> 1) = rest ++ decrypted enc (pos + 1 + rest.length) left := by
      cases rest with
      | nil => exact ⟨_, rfl⟩
      | cons second rest => exact ih (by rw [length_cons] at inside; omega) (by omega) next
    refine ⟨left, ?_⟩
    have one : ∀ stored, stored = (if mask.toNat / 2 ^ (bit + 1) % 2 = 1 then byte else byte + 1) →
        (if bitmask &&& 1 = 0 then stored - 1 else stored) = byte := by
      rintro _ rfl
      by_cases set : mask.toNat / 2 ^ (bit + 1) % 2 = 1
      · rw [if_pos set, if_neg fun clear => test.mp clear set]
      · rw [if_neg set, if_pos (test.mpr set), UInt8.add_sub_cancel]
    have total : pos + (rest.length + 1) = pos + 1 + rest.length := by omega
    rw [stored, cons_append, decrypted, if_pos (by omega), others, one _ rfl, length_cons, total,
      cons_append]

theorem encoding_nil (encoding : Encoding [] enc) : enc = [] := by
  generalize shape : ([] : Text) = bytes at encoding
  cases encoding with
  | none => rfl
  | group _ nonempty => exact absurd (append_eq_nil_iff.mp shape.symm).1 nonempty

theorem encoding_decrypted (encoding : Encoding bytes enc) (bitmask : UInt8) (phase : pos % 8 = 0) :
    decrypted enc pos bitmask = bytes := by
  induction encoding generalizing pos bitmask with
  | none => rfl
  | @group mask bytes rest enc _ _ most last _ others ih =>
    rw [cons_append, decrypted, if_neg (by simpa using phase)]
    obtain ⟨left, group⟩ : ∃ left, decrypted (stored mask 1 bytes ++ enc) (pos + 1)
        (startMask mask) = bytes ++ decrypted enc (pos + 1 + bytes.length) left :=
      group_decrypted (by omega) (by omega) (by simp)
    rw [group]
    by_cases whole : bytes.length = 7
    · rw [ih _ (by omega)]
    · obtain rfl := last (by omega)
      rw [encoding_nil others]
      rfl

theorem warcraft3_run (long : 24 ≤ gameinfo.length) :
    13 ≤ (decrypted (gameinfo.drop 9) 0 0).length ∧
    ∀ bytes, bytes = decrypted (gameinfo.drop 9) 0 0 →
      parseWarcraft3 game gameinfo = some (0, { game with
        speed := w3speedToGspeed (bytes.getD 0 0)
        mapsizeX := (bytes.getD 5 0).toUInt32 + 256 * (bytes.getD 6 0).toUInt32
        mapsizeY := (bytes.getD 7 0).toUInt32 + 256 * (bytes.getD 8 0).toUInt32
        mapname := some (cstring (bytes.drop 13)) }) := by
  have length := decrypted_length (gameinfo.drop 9) 0 0
  rw [length_drop] at length
  -- The shortest string that passes the check has fifteen bytes behind the first nine, two of them
  -- masks.
  have enough : 13 ≤ (decrypted (gameinfo.drop 9) 0 0).length := by omega
  refine ⟨enough, ?_⟩
  rintro bytes rfl
  have nonempty : gameinfo ≠ [] := by
    rintro rfl
    simp at long
  rw [parseWarcraft3, if_neg nonempty, if_neg (by omega), decrypt_run]
  generalize decrypted (gameinfo.drop 9) 0 0 = bytes at enough
  have read index (inside : index < 13) :
      byteAt (bytes ++ [0]) index = some (bytes.getD index 0) := by
    have before : index < bytes.length := by omega
    simp [byteAt, getElem?_append_left, before]
  have name : stringAt ((bytes ++ [0]).drop 13) = some (cstring (bytes.drop 13)) := by
    rw [drop_append_of_le_length enough, stringAt, if_pos (by simp), take_string (by decide),
      cstring]
  simp [shortAt, read, name]

theorem lines_inside : ∃ value after, parseLines game gameinfo = some (value, after) := by
  obtain ⟨line1, next, first, ended⟩ := strtok_inside carriageReturn
    (by simp : 0 ∈ gameinfo ++ [0])
  obtain ⟨line2, _, second, -⟩ := strtok_inside carriageReturn ended
  simp only [parseLines, first, second, bind_eq_bind, bind_some]
  cases line1 with
  | none => exact ⟨_, _, rfl⟩
  | some line1 =>
    cases line2 with
    | none => exact ⟨_, _, rfl⟩
    | some mapname =>
      obtain ⟨fields, separated⟩ := strseps_inside 44 10 (by simp : 0 ∈ line1 ++ [0])
      exact ⟨_, _, congrArg (Option.map fun fields => setFields game fields mapname) separated⟩

/-- No access leaves the string or a copy of it; a Warcraft 3 client's map info is decoded, and the
fields are those of the bytes that were encoded. -/
theorem info_parsed :
    (∀ game gameinfo, ∃ value after, gameParseInfo game gameinfo = some (value, after)) ∧
    ∀ bytes enc, Encoding bytes enc → w3DecryptMapinfo enc = some (bytes ++ [0]) ∧
      ∀ game head, head.length = 9 → 15 ≤ enc.length →
        game.clienttag = 0x57415233 ∨ game.clienttag = 0x57335850 →
        13 ≤ bytes.length ∧ gameParseInfo game (head ++ enc) = some (0, { game with
          speed := w3speedToGspeed (bytes.getD 0 0)
          mapsizeX := (bytes.getD 5 0).toUInt32 + 256 * (bytes.getD 6 0).toUInt32
          mapsizeY := (bytes.getD 7 0).toUInt32 + 256 * (bytes.getD 8 0).toUInt32
          mapname := some (cstring (bytes.drop 13)) }) := by
  constructor
  · intro game gameinfo
    simp only [gameParseInfo]
    split_ifs with unset diablo diablo2 warcraft3
    · exact ⟨_, _, rfl⟩
    · exact ⟨_, _, rfl⟩
    · exact ⟨_, _, rfl⟩
    · by_cases long : 24 ≤ gameinfo.length
      · exact ⟨_, _, (warcraft3_run long).2 _ rfl⟩
      unfold parseWarcraft3
      split
      · exact ⟨_, _, rfl⟩
      · exact ⟨_, _, if_pos (by omega)⟩
    · exact lines_inside
  · intro bytes enc encoding
    have decoded := encoding_decrypted encoding 0 (Nat.zero_mod 8)
    refine ⟨by rw [decrypt_run, decoded], fun game head nine long tag => ?_⟩
    have behind : decrypted ((head ++ enc).drop 9) 0 0 = bytes := by
      rw [drop_left' nine, decoded]
    have enough : 24 ≤ (head ++ enc).length := by
      rw [length_append]
      omega
    obtain ⟨enough, run⟩ := warcraft3_run enough
    refine ⟨behind ▸ enough, ?_⟩
    have branch : gameParseInfo game (head ++ enc) = parseWarcraft3 game (head ++ enc) := by
      rcases tag with tag | tag <;> simp [gameParseInfo, tag]
    rw [branch, run bytes behind.symm]

end Pvpgn.GameInfo
