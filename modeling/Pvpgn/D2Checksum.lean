import Pvpgn.CharacterSave
import Pvpgn.D2LadderFile
import Pvpgn.InjectiveFold

/-!
The checksum of the charsaves and of the ladder file. Both loops are the same fold over the bytes,
which reads the field of the checksum itself as zeros.
-/

namespace Pvpgn.D2Checksum
open Stdio Bytes InjectiveFold List Option Nat
open DbsPacket (d2charsaveChecksum d2charsaveChecksumOffset bnIntGet overwrite FileRead freadLoop)
open D2LadderFile (d2ladderChecksum checksumOffset sizeofHeader)

/-! The functions that read and write the ladder file. -/

section Files

/-- A file that is opened to be read or changed: it is read up to its end, or the log gets an
error. `none` is a name that is not set. -/
def readLadderFile (ladderFile : Option FileRead) : Option (List UInt8) := do
  let file ← ladderFile
  if !file.opened then none
  else do
    let filesize ← file.filesize
    if filesize < sizeofHeader then none else freadLoop file filesize []

/-- `fwrite` is how many of the four bytes are written; `contents` is the file. -/
def d2ladderChecksumSet (ladderFile : Option FileRead) (fwrite : Nat) (contents : List UInt8) :
    Int × List UInt8 :=
  match readLadderFile ladderFile with
  | none => (-1, contents)
  | some buffer =>
    let checksum := littleEndian 4 (d2ladderChecksum buffer checksumOffset).toNat
    (0, overwrite contents checksumOffset (checksum.take fwrite))

def d2ladderChecksumCheck (ladderFile : Option FileRead) : Int :=
  match readLadderFile ladderFile with
  | none => -1
  | some buffer =>
    let oldchecksum := bnIntGet buffer checksumOffset
    if oldchecksum = d2ladderChecksum buffer checksumOffset then 1 else 0

/-- The calls read a file: each `fread` before its end brings the bytes at its position, at least
one of them. -/
structure Reads (file : FileRead) (contents : List UInt8) : Prop where
  opened : file.opened = true
  filesize : file.filesize = some contents.length
  fread : ∀ position asked, position < contents.length → 0 < asked →
    file.fread position asked ≠ [] ∧ file.fread position asked <+: contents.drop position

end Files

section Steps

/-- Four bytes from an offset on. -/
def InField (offset i : Nat) : Prop := offset ≤ i ∧ i < offset + 4

instance (offset i : Nat) : Decidable (InField offset i) :=
  inferInstanceAs (Decidable (offset ≤ i ∧ i < offset + 4))

def checksumStep (offset i : Nat) (checksum : UInt32) (byte : UInt8) : UInt32 :=
  2 * checksum +
    ((if InField offset i then 0 else byte.toUInt32) + if 2 ^ 31 ≤ checksum then 1 else 0)

theorem charsave_fold (data : List UInt8) (offset : Nat) :
    d2charsaveChecksum data offset = foldFrom (checksumStep offset) 0 0 data := by
  have loop (i : Nat) (checksum : UInt32) : DbsPacket.checksumLoop offset data i checksum =
      foldFrom (checksumStep offset) i checksum data := by
    induction data generalizing i checksum with
    | nil => rfl
    | cons byte rest ih =>
      rw [DbsPacket.checksumLoop, ih, foldFrom]
      congr 1
      rw [checksumStep]
      by_cases negative : (0x80000000 : UInt32) ≤ checksum
      · rw [if_pos negative, if_pos (show (2 : UInt32) ^ 31 ≤ checksum from negative)]
        rfl
      · rw [if_neg negative, if_neg (show ¬(2 : UInt32) ^ 31 ≤ checksum from negative),
          UInt32.add_zero]
        rfl
  exact loop 0 0

theorem ladder_fold (data : List UInt8) (offset : Nat) :
    d2ladderChecksum data offset = foldFrom (checksumStep offset) 0 0 data := by
  have loop (i : Nat) (checksum : UInt32) : D2LadderFile.checksumLoop offset i checksum data =
      foldFrom (checksumStep offset) i checksum data := by
    induction data generalizing i checksum with
    | nil => rfl
    | cons byte rest ih =>
      rw [D2LadderFile.checksumLoop, ih, foldFrom]
      rfl
  exact loop 0 0

theorem carry_value (checksum : UInt32) :
    (if 2 ^ 31 ≤ checksum then (1 : UInt32) else 0).toNat = checksum.toNat / 2 ^ 31 := by
  have small := checksum.toNat_lt
  have bit : (2 : UInt32) ^ 31 ≤ checksum ↔ 2 ^ 31 ≤ checksum.toNat := UInt32.le_iff_toNat_le
  split
  · next negative =>
      have value := bit.mp negative
      rw [UInt32.toNat_one]
      omega
  · next positive =>
      have value : checksum.toNat < 2 ^ 31 := Nat.lt_of_not_le fun large => positive (bit.mpr large)
      rw [UInt32.toNat_zero]
      omega

theorem rotation_injective {left right : Nat} (leftSmall : left < 2 ^ 32)
    (rightSmall : right < 2 ^ 32)
    (turned : (2 * left + left / 2 ^ 31) % 2 ^ 32 = (2 * right + right / 2 ^ 31) % 2 ^ 32) :
    left = right := by
  have leftSign : left / 2 ^ 31 = 0 ∨ left / 2 ^ 31 = 1 := by omega
  have rightSign : right / 2 ^ 31 = 0 ∨ right / 2 ^ 31 = 1 := by omega
  rcases leftSign with zero | one
  · rcases rightSign with otherZero | otherOne
    · omega
    · omega
  · rcases rightSign with otherZero | otherOne
    · omega
    · omega

theorem step_injective (offset i : Nat) (byte : UInt8) :
    Function.Injective fun checksum => checksumStep offset i checksum byte := by
  intro left right same
  unfold checksumStep at same
  generalize (if InField offset i then (0 : UInt32) else byte.toUInt32) = ch at same
  have two : (2 : UInt32).toNat = 2 := rfl
  rw [← UInt32.toNat_inj] at same ⊢
  simp only [UInt32.toNat_add, UInt32.toNat_mul, carry_value, two, add_mod_mod, mod_add_mod] at same
  -- What is added is the same on both sides.
  have turned : (2 * left.toNat + left.toNat / 2 ^ 31) % 2 ^ 32 =
      (2 * right.toNat + right.toNat / 2 ^ 31) % 2 ^ 32 := by
    refine ModEq.add_right_cancel' ch.toNat ?_
    have order (a b : Nat) : 2 * a + b + ch.toNat = 2 * a + (ch.toNat + b) := by omega
    rw [ModEq, order, order]
    exact same
  exact rotation_injective left.toNat_lt right.toNat_lt turned

theorem step_seen (offset i : Nat) (outside : ¬InField offset i) (checksum : UInt32)
    {left right : UInt8} (apart : left ≠ right) :
    checksumStep offset i checksum left ≠ checksumStep offset i checksum right := by
  intro same
  rw [checksumStep, checksumStep, if_neg outside, if_neg outside] at same
  have leftSmall := left.toNat_lt
  have rightSmall := right.toNat_lt
  rw [← UInt32.toNat_inj] at same
  simp only [UInt32.toNat_add, UInt8.toNat_toUInt32] at same
  exact apart (UInt8.toNat_inj.mp (by omega))

end Steps

section Detection

def SameOutside (offset : Nat) (data other : List UInt8) : Prop :=
  data.length = other.length ∧ ∀ i, ¬InField offset i → data[i]? = other[i]?

def OneByteDiffers (offset : Nat) (data other : List UInt8) : Prop :=
  data.length = other.length ∧
    ∃ k, ¬InField offset k ∧ data[k]? ≠ other[k]? ∧ ∀ i, i ≠ k → data[i]? = other[i]?

variable {data other : List UInt8}

theorem field_unseen {offset : Nat} (same : SameOutside offset data other) :
    foldFrom (checksumStep offset) 0 0 data = foldFrom (checksumStep offset) 0 0 other := by
  refine fold_congr _ 0 0 data other same.1 fun i first second checksum => ?_
  rw [zero_add, checksumStep, checksumStep]
  by_cases inside : InField offset i
  · rw [if_pos inside, if_pos inside]
  · have byte := same.2 i inside
    rw [getElem?_eq_getElem first, getElem?_eq_getElem second] at byte
    rw [some.inj byte]

theorem split_at_difference {k : Nat} (lengths : data.length = other.length)
    (apart : data[k]? ≠ other[k]?) (same : ∀ i, i ≠ k → data[i]? = other[i]?) :
    ∃ front left right back, data = front ++ left :: back ∧ other = front ++ right :: back ∧
      left ≠ right ∧ front.length = k := by
  have inside : k < data.length := by
    by_contra outside
    exact apart (by rw [getElem?_eq_none (by omega), getElem?_eq_none (by omega)])
  have insideOther : k < other.length := by omega
  rw [getElem?_eq_getElem inside, getElem?_eq_getElem insideOther] at apart
  have fronts : other.take k = data.take k := by
    apply ext_getElem?
    intro i
    rw [getElem?_take, getElem?_take]
    split
    · next small => exact (same i (Nat.ne_of_lt small)).symm
    · rfl
  have backs : other.drop (k + 1) = data.drop (k + 1) := by
    apply ext_getElem?
    intro i
    rw [getElem?_drop, getElem?_drop]
    exact (same (k + 1 + i) (by omega)).symm
  refine ⟨data.take k, data[k], other[k], data.drop (k + 1), ?_, ?_, fun equal => apart (by
    rw [equal]), length_take_of_le (le_of_lt inside)⟩
  · rw [cons_getElem_drop_succ, take_append_drop]
  · rw [← fronts, ← backs, cons_getElem_drop_succ, take_append_drop]

theorem byte_seen {offset : Nat} (differs : OneByteDiffers offset data other) :
    foldFrom (checksumStep offset) 0 0 data ≠ foldFrom (checksumStep offset) 0 0 other := by
  obtain ⟨lengths, k, outside, apart, same⟩ := differs
  obtain ⟨front, left, right, back, rfl, rfl, bytes, rfl⟩ := split_at_difference lengths apart same
  refine fold_differs _ (step_injective offset) 0 0 front back left right fun checksum => ?_
  rw [zero_add]
  exact step_seen offset _ outside checksum bytes

end Detection

section LadderFile

variable {contents : List UInt8} {file : FileRead}

theorem fread_loop_whole (reads : Reads file contents) (data : List UInt8)
    (part : data <+: contents) : freadLoop file contents.length data = some contents := by
  induction left : contents.length - data.length using Nat.strong_induction_on
    generalizing data with
  | _ count ih =>
    obtain ⟨rest, rfl⟩ := part
    rw [freadLoop]
    by_cases more : data.length < (data ++ rest).length
    · rw [if_pos more]
      dsimp only
      have positive : 0 < min 2000 ((data ++ rest).length - data.length) := by omega
      obtain ⟨some_bytes, ⟨tail, whole⟩⟩ := reads.fread data.length _ more positive
      rw [drop_left] at whole
      generalize file.fread data.length (min 2000 ((data ++ rest).length - data.length)) = bytes
        at some_bytes whole
      generalize min 2000 ((data ++ rest).length - data.length) = asked at positive
      have taken : (bytes.take asked).length ≠ 0 := by
        rw [length_take]
        have := length_pos_of_ne_nil some_bytes
        omega
      rw [if_neg taken]
      -- The read may be short, but what is there so far is still the file's beginning.
      have ahead : data ++ bytes.take asked <+: data ++ rest := by
        rw [prefix_append_right_inj, ← whole]
        exact (List.take_prefix asked bytes).trans (prefix_append bytes tail)
      refine ih _ ?_ _ ahead rfl
      have longer : (data ++ bytes.take asked).length =
          data.length + (bytes.take asked).length := length_append
      omega
    · rw [if_neg more]
      have empty : rest = [] := by
        apply eq_nil_of_length_eq_zero
        rw [length_append] at more
        omega
      rw [empty, append_nil]

theorem read_whole (reads : Reads file contents) (header : sizeofHeader ≤ contents.length) :
    readLadderFile (some file) = some contents := by
  simp only [readLadderFile, reads.opened, reads.filesize, bind_eq_bind, bind_some]
  rw [if_neg (by decide), if_neg (by omega)]
  exact fread_loop_whole reads [] nil_prefix

theorem set_layout (contents : List UInt8) (header : sizeofHeader ≤ contents.length)
    (checksum : List UInt8) (four : checksum.length = 4) :
    SameOutside checksumOffset (overwrite contents checksumOffset checksum) contents ∧
      bnIntGet (overwrite contents checksumOffset checksum) checksumOffset =
        UInt32.ofNat (number checksum) := by
  unfold sizeofHeader at header
  unfold checksumOffset
  have start : (contents.take 4).length = 4 := length_take_of_le (by omega)
  constructor
  · constructor
    · simp only [overwrite, length_append, length_drop, start, four]
      omega
    intro i outside
    unfold InField at outside
    rw [overwrite, four, append_assoc]
    by_cases before : i < 4
    · rw [getElem?_append_left (by omega), getElem?_take, if_pos before]
    rw [getElem?_append_right (by omega), getElem?_append_right (by omega),
      getElem?_drop, start, four]
    congr 1
    omega
  · rw [bnIntGet, overwrite, append_assoc, drop_left' start, take_left' four]

def wholeFile (contents : List UInt8) : FileRead where
  opened := true
  filesize := some contents.length
  fread := fun position asked => (contents.drop position).take asked

theorem whole_reads (contents : List UInt8) : Reads (wholeFile contents) contents := by
  refine ⟨rfl, rfl, fun position asked inside positive => ⟨fun empty => ?_, take_prefix _ _⟩⟩
  have length := congrArg length empty
  change ((contents.drop position).take asked).length = 0 at length
  rw [length_take, length_drop] at length
  omega

theorem set_then_check {after : FileRead} (header : sizeofHeader ≤ contents.length)
    (reads : Reads file contents)
    (again : Reads after (d2ladderChecksumSet (some file) 4 contents).2) :
    (d2ladderChecksumSet (some file) 4 contents).1 = 0 ∧
      d2ladderChecksumCheck (some after) = 1 := by
  have four : (littleEndian 4 (d2ladderChecksum contents checksumOffset).toNat).length = 4 :=
    little_endian_length 4 _
  obtain ⟨same, field⟩ := set_layout contents header _ four
  have whole : d2ladderChecksumSet (some file) 4 contents = (0, overwrite contents checksumOffset
      (littleEndian 4 (d2ladderChecksum contents checksumOffset).toNat)) := by
    rw [d2ladderChecksumSet, read_whole reads header]
    dsimp only
    rw [take_of_length_le (by rw [four])]
  rw [whole] at again ⊢
  refine ⟨rfl, ?_⟩
  have length : sizeofHeader ≤ (overwrite contents checksumOffset
      (littleEndian 4 (d2ladderChecksum contents checksumOffset).toNat)).length := by
    rw [same.1]
    exact header
  have value := UInt32.toNat_lt (d2ladderChecksum contents checksumOffset)
  have sum : d2ladderChecksum (overwrite contents checksumOffset
      (littleEndian 4 (d2ladderChecksum contents checksumOffset).toNat)) checksumOffset =
      d2ladderChecksum contents checksumOffset :=
    (ladder_fold _ _).trans ((field_unseen same).trans (ladder_fold _ _).symm)
  rw [d2ladderChecksumCheck, read_whole again length]
  dsimp only
  rw [field, sum, little_endian_number, mod_eq_of_lt (by simpa using value),
    UInt32.ofNat_toNat, if_pos rfl]

end LadderFile

section Uploads

theorem field_kept {data other : List UInt8} (offset k : Nat) (outside : ¬InField offset k)
    (same : ∀ i, i ≠ k → data[i]? = other[i]?) : bnIntGet data offset = bnIntGet other offset := by
  have bytes : (data.drop offset).take 4 = (other.drop offset).take 4 := by
    apply ext_getElem?
    intro i
    rw [getElem?_take, getElem?_take, getElem?_drop, getElem?_drop]
    split
    · next small =>
        apply same
        rintro rfl
        exact outside ⟨le_add_right _ _, Nat.add_lt_add_left small _⟩
    · rfl
  rw [bnIntGet, bnIntGet, bytes]

/-- The upload arrives with one byte changed that is not of the checksum. -/
def Corrupted (datalen : Nat) (data other : List UInt8) : Prop :=
  data.length = other.length ∧
    ∃ k < datalen, ¬InField d2charsaveChecksumOffset k ∧ data[k]? ≠ other[k]? ∧
      ∀ i, i ≠ k → data[i]? = other[i]?

theorem corrupted_rejected (rounds : Nat) (dirs : CharacterSave.Directories)
    (calls : CharacterSave.FileCalls) (charName : Text) {data other : List UInt8} {datalen : Nat}
    (right : CharacterSave.checksumRight data datalen) (corrupted : Corrupted datalen data other)
    (files : FileTable.Files Text UInt8) :
    CharacterSave.dbsPacketSavedataCharsave rounds dirs calls charName other datalen files =
      some (0, files) := by
  obtain ⟨lengths, k, inside, outside, apart, same⟩ := corrupted
  have differs : OneByteDiffers d2charsaveChecksumOffset (data.take datalen)
      (other.take datalen) := by
    refine ⟨by rw [length_take, length_take, lengths], k, outside, ?_, fun i other => ?_⟩
    · rw [getElem?_take, getElem?_take, if_pos inside, if_pos inside]
      exact apart
    · rw [getElem?_take, getElem?_take, same i other]
  have sums := byte_seen differs
  rw [← charsave_fold, ← charsave_fold] at sums
  have header := field_kept d2charsaveChecksumOffset k outside same
  have wrong : bnIntGet other d2charsaveChecksumOffset ≠
      d2charsaveChecksum (other.take datalen) d2charsaveChecksumOffset := by
    rw [← header]
    exact fun equal => sums ((Eq.symm right).trans equal)
  exact if_pos wrong

end Uploads

/-- The checksums do not see their own field and see every other byte, so that a ladder file whose
checksum is set passes its check, and a corrupted charsave is not saved. -/
theorem checksums_detect :
    (∀ offset data other, SameOutside offset data other →
      d2charsaveChecksum data offset = d2charsaveChecksum other offset ∧
        d2ladderChecksum data offset = d2ladderChecksum other offset) ∧
    (∀ offset data other, OneByteDiffers offset data other →
      d2charsaveChecksum data offset ≠ d2charsaveChecksum other offset ∧
        d2ladderChecksum data offset ≠ d2ladderChecksum other offset) ∧
    (∀ contents file after, sizeofHeader ≤ contents.length → Reads file contents →
      Reads after (d2ladderChecksumSet (some file) 4 contents).2 →
      (d2ladderChecksumSet (some file) 4 contents).1 = 0 ∧ d2ladderChecksumCheck (some after) = 1) ∧
    ∀ rounds dirs calls charName data other datalen, CharacterSave.checksumRight data datalen →
      Corrupted datalen data other → ∀ files,
      CharacterSave.dbsPacketSavedataCharsave rounds dirs calls charName other datalen files =
        some (0, files) := by
  refine ⟨fun offset data other same => ?_, fun offset data other differs => ?_,
    fun contents file after => set_then_check, fun rounds dirs calls charName data other datalen =>
      corrupted_rejected rounds dirs calls charName⟩
  · rw [charsave_fold, charsave_fold, ladder_fold, ladder_fold]
    exact ⟨field_unseen same, field_unseen same⟩
  · rw [charsave_fold, charsave_fold, ladder_fold, ladder_fold]
    exact ⟨byte_seen differs, byte_seen differs⟩

/-- An empty ladder file, and a charsave of zeros whose first byte becomes a one. -/
theorem zeros_detected :
    let file : List UInt8 := replicate 8 0
    d2ladderChecksumCheck (some (wholeFile
        (d2ladderChecksumSet (some (wholeFile file)) 4 file).2)) = 1 ∧
      CharacterSave.dbsPacketSavedataCharsave 17 CharacterSave.exampleDirectories
        CharacterSave.workingCalls (text "Ama") (1 :: replicate 15 0) 16 (fun _ => none) =
        some (0, fun _ => none) := by
  intro file
  obtain ⟨-, -, checked, rejected⟩ := checksums_detect
  have right : CharacterSave.checksumRight (0 :: replicate 15 0) 16 := by
    unfold CharacterSave.checksumRight
    decide
  have corrupted : Corrupted 16 (0 :: replicate 15 0) (1 :: replicate 15 0) := by
    refine ⟨rfl, 0, by decide, by decide, by decide, ?_⟩
    rintro (_ | i) other
    · exact absurd rfl other
    · rw [getElem?_cons_succ, getElem?_cons_succ]
  have header : sizeofHeader ≤ file.length := by decide
  exact ⟨(checked file (wholeFile file) _ header (whole_reads file) (whole_reads _)).2,
    rejected 17 CharacterSave.exampleDirectories CharacterSave.workingCalls (text "Ama")
      (0 :: replicate 15 0) (1 :: replicate 15 0) 16 right corrupted fun _ => none⟩

end Pvpgn.D2Checksum
