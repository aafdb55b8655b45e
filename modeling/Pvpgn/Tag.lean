import Pvpgn.Stdio

/-!
Four-character tags packed into a 32-bit word, most significant byte first, and the table of client
tags.
-/

namespace Pvpgn.Tag
open Stdio List Nat

/-- A `char` as the `int` it is promoted to: bytes from 128 on are negative. -/
def promote (byte : UInt8) : UInt32 := byte.toInt8.toInt32.toUInt32

/-- The byte of a tag that starts at a bit. -/
def tagByte (bit : UInt32) (tag : UInt32) : UInt8 := ((tag >>> bit) &&& 0xff).toUInt8

/-- The four characters of a tag, the first one in the highest byte. -/
def tagBytes (tag : UInt32) : Text := [tagByte 24 tag, tagByte 16 tag, tagByte 8 tag, tagByte 0 tag]

def tagStrToUint (tagStr : Text) : UInt32 :=
  promote (tagStr.getD 0 0) <<< 24 ||| promote (tagStr.getD 1 0) <<< 16 |||
    promote (tagStr.getD 2 0) <<< 8 ||| promote (tagStr.getD 3 0)

/-- `CLIENTTAG_X` beside `CLIENTTAG_X_UINT`. -/
def clientTags : List (String × UInt32) :=
  [("CHAT", 0x43484154), ("STAR", 0x53544152), ("SEXP", 0x53455850), ("SSHR", 0x53534852),
    ("DRTL", 0x4452544C), ("DSHR", 0x44534852), ("W2BN", 0x5732424E), ("D2DV", 0x44324456),
    ("JSTR", 0x4A535452), ("D2ST", 0x44325354), ("D2XP", 0x44325850), ("WAR3", 0x57415233),
    ("W3XP", 0x57335850), ("IIRC", 0x49495243), ("WCHT", 0x57434854), ("TSUN", 0x5453554E),
    ("TSXP", 0x54535850), ("RALT", 0x52414C54), ("RAL2", 0x52414C32), ("DN2K", 0x444E324B),
    ("NOXX", 0x4E4F5858), ("NOXQ", 0x4E4F5851), ("RNGD", 0x524E4744), ("RFDS", 0x52464453),
    ("YURI", 0x59555249), ("EBFD", 0x45424644), ("LOR3", 0x4C4F5233), ("WWOL", 0x57574F4C)]

def tagUnknown : String := "UNKN"

def clienttagUintToStr (clienttag : UInt32) : Text :=
  match clientTags.find? fun entry => entry.2 = clienttag with
  | some entry => text entry.1
  | none => text tagUnknown

def tagCheckClient (tag : UInt32) : Bool := clientTags.any fun entry => entry.2 = tag

variable (bit left right tag : UInt32)

theorem tag_byte_eq : tagByte bit tag = (tag >>> bit).toUInt8 := by
  have ones : (0xff : UInt32).toUInt8 = -1 := rfl
  rw [tagByte, UInt32.toUInt8_and, ones, UInt8.and_neg_one]

theorem tag_byte_or : tagByte bit (left ||| right) = tagByte bit left ||| tagByte bit right := by
  simp only [tag_byte_eq, UInt32.shiftRight_or, UInt32.toUInt8_or]

theorem tag_byte_nat (small : bit.toNat < 32) :
    (tagByte bit tag).toNat = tag.toNat / 2 ^ bit.toNat % 256 := by
  rw [tag_byte_eq, UInt32.toNat_toUInt8, UInt32.toNat_shiftRight, mod_eq_of_lt small,
    shiftRight_eq_div_pow]

theorem tag_bytes_inj : tagBytes left = tagBytes right ↔ left = right := by
  constructor
  · intro same
    simp only [tagBytes, cons.injEq, and_true, ← UInt8.toNat_inj] at same
    obtain ⟨first, second, third, fourth⟩ := same
    rw [tag_byte_nat 24 left (by decide), tag_byte_nat 24 right (by decide)] at first
    rw [tag_byte_nat 16 left (by decide), tag_byte_nat 16 right (by decide)] at second
    rw [tag_byte_nat 8 left (by decide), tag_byte_nat 8 right (by decide)] at third
    rw [tag_byte_nat 0 left (by decide), tag_byte_nat 0 right (by decide)] at fourth
    have bits24 : (24 : UInt32).toNat = 24 := rfl
    have bits16 : (16 : UInt32).toNat = 16 := rfl
    have bits8 : (8 : UInt32).toNat = 8 := rfl
    have bits0 : (0 : UInt32).toNat = 0 := rfl
    have leftBound := left.toNat_lt
    have rightBound := right.toNat_lt
    rw [bits24] at first
    rw [bits16] at second
    rw [bits8] at third
    rw [bits0] at fourth
    apply UInt32.toNat_inj.mp
    omega
  · rintro rfl
    rfl

example : tagBytes (tagStrToUint (text "STAR")) = text "STAR" := by decide +kernel

/-- The byte that the sign of a `char` fills the higher bytes with. -/
def signByte (byte : UInt8) : UInt8 := if 128 ≤ byte then 255 else 0

theorem promote_to_nat : ∀ value < 256, (promote (UInt8.ofNat value)).toNat =
    value + 4294967040 * (if 128 ≤ value then 1 else 0) := by
  decide +kernel

theorem sign_byte_to_nat (byte : UInt8) :
    (signByte byte).toNat = 255 * (if 128 ≤ byte.toNat then 1 else 0) := by
  by_cases negative : 128 ≤ byte
  · simp [signByte, negative, show 128 ≤ byte.toNat from UInt8.le_iff_toNat_le.mp negative]
  · have positive : ¬128 ≤ byte.toNat := fun large => negative (UInt8.le_iff_toNat_le.mpr large)
    simp [signByte, negative, positive]

theorem tag_bytes_or :
    tagBytes (left ||| right) = zipWith (· ||| ·) (tagBytes left) (tagBytes right) := by
  simp only [tagBytes, tag_byte_or, zipWith_cons_cons, zipWith_nil_right]

theorem tag_bytes_char (byte : UInt8) :
    tagBytes (promote byte <<< 24) = [byte, 0, 0, 0] ∧
      tagBytes (promote byte <<< 16) = [signByte byte, byte, 0, 0] ∧
      tagBytes (promote byte <<< 8) = [signByte byte, signByte byte, byte, 0] ∧
      tagBytes (promote byte) = [signByte byte, signByte byte, signByte byte, byte] := by
  have value := promote_to_nat byte.toNat byte.toNat_lt
  rw [UInt8.ofNat_toNat] at value
  have bound : byte.toNat < 256 := byte.toNat_lt
  simp only [tagBytes, cons.injEq, and_true, ← UInt8.toNat_inj, sign_byte_to_nat]
  simp only [tag_byte_nat _ _ (show (24 : UInt32).toNat < 32 by decide),
    tag_byte_nat _ _ (show (16 : UInt32).toNat < 32 by decide),
    tag_byte_nat _ _ (show (8 : UInt32).toNat < 32 by decide),
    tag_byte_nat _ _ (show (0 : UInt32).toNat < 32 by decide), UInt32.toNat_shiftLeft,
    UInt32.reduceToNat, UInt8.reduceToNat, shiftLeft_eq, reduceMod, reducePow, value]
  by_cases negative : 128 ≤ byte.toNat
  · simp only [negative, if_true]
    omega
  · simp only [negative, if_false]
    omega

/-- Every client tag is four capital letters or digits that pack to its number. -/
theorem client_tags_pack : ∀ entry ∈ clientTags,
    tagStrToUint (text entry.1) = entry.2 ∧ (text entry.1).length = 4 ∧
      (text entry.1).all (fun byte => 48 ≤ byte ∧ byte ≤ 90) = true := by
  decide +kernel

theorem client_tag_string (known : tagCheckClient tag = true) :
    tagStrToUint (clienttagUintToStr tag) = tag ∧ (clienttagUintToStr tag).length = 4 ∧
      ∀ byte ∈ clienttagUintToStr tag, 48 ≤ byte ∧ byte ≤ 90 := by
  obtain ⟨entry, listed, same⟩ := any_eq_true.mp known
  cases found : clientTags.find? fun entry => entry.2 = tag with
  | none => exact absurd same (by simpa using find?_eq_none.mp found entry listed)
  | some hit =>
    have packs := client_tags_pack hit (mem_of_find?_eq_some found)
    have equal : hit.2 = tag := by simpa using find?_some found
    rw [equal] at packs
    simpa [clienttagUintToStr, found] using packs

end Pvpgn.Tag
