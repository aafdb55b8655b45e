import Pvpgn.Bytes
import Pvpgn.D2Ladder
import Mathlib.Data.UInt

/-!
The file of all ladders (`d2ladder.cpp`). It holds the entries of each ladder in their order. Reading
it does not copy them: every entry is put into an empty ladder the way an update is.
-/

namespace Pvpgn.D2LadderFile
open Stdio Bytes D2Ladder List Option Nat UInt32

/-- `D2LADDER_MAXTYPE` -/
def maxType : Nat := 35

def sizeofHeader : Nat := 8
def sizeofIndex : Nat := 12
def sizeofInfo : Nat := 24
def checksumOffset : Nat := 4

/-- The ladders in the order of their types, and `d2ladder_maxtype`. -/
structure D2LadderList where
  maxtype : Nat
  ladders : List (List D2LadderInfo)
  deriving DecidableEq

/-- `d2ladderlist_init` -/
def d2ladderlistInit : D2LadderList := ⟨maxType, replicate maxType []⟩

def strncpy (size : Nat) (name : Text) : List UInt8 :=
  name.take size ++ replicate (size - name.length) 0

/-- A `t_d2ladderfile_ladderinfo`. -/
def infoBytes (info : D2LadderInfo) : List UInt8 :=
  littleEndian 4 info.experience.toNat ++ (littleEndian 2 info.status.toNat ++
    info.level :: info.chclass :: strncpy maxCharnameLen info.charname)

/-- The `t_d2ladderfile_ladderindex` of each ladder from `type` on. The number in `start` is an
`int`: it goes on modulo 2^32. -/
def indexBytes : Nat → UInt32 → List (List D2LadderInfo) → List UInt8
  | _, _, [] => []
  | type, start, ladder :: rest =>
    littleEndian 4 type ++ (littleEndian 4 start.toNat ++ (littleEndian 4 ladder.length ++
      indexBytes (type + 1) (start + ofNat (ladder.length * sizeofInfo)) rest))

def dataBytes (ladders : List (List D2LadderInfo)) : List UInt8 :=
  ladders.flatMap fun ladder => ladder.flatMap infoBytes

/-- From byte `i` on. The sum is an `int`, which doubles modulo 2^32. -/
def checksumLoop (offset : Nat) : Nat → UInt32 → List UInt8 → UInt32
  | _, checksum, [] => checksum
  | i, checksum, byte :: rest =>
    let ch := if offset ≤ i ∧ i < offset + 4 then 0 else byte.toUInt32
    let ch := ch + if 2 ^ 31 ≤ checksum then 1 else 0
    checksumLoop offset (i + 1) (2 * checksum + ch) rest

def d2ladderChecksum (data : List UInt8) (offset : Nat) : UInt32 := checksumLoop offset 0 0 data

/-- `d2ladder_checksum_set` -/
def d2ladderChecksumSet (file : List UInt8) : List UInt8 :=
  file.take checksumOffset ++ (littleEndian 4 (d2ladderChecksum file checksumOffset).toNat ++
    file.drop sizeofHeader)

/-- The file that is written; `none` is a ladder that is not there. -/
def d2ladderSaveladder (list : D2LadderList) : Option (List UInt8) :=
  if list.ladders.length < maxType then none
  else
    let start := ofNat (sizeofHeader + maxType * sizeofIndex)
    some (d2ladderChecksumSet (littleEndian 4 list.maxtype ++ (littleEndian 4 0 ++
      (indexBytes 0 start (list.ladders.take maxType) ++
        dataBytes (list.ladders.take list.maxtype)))))

def field (bytes : List UInt8) (offset size : Nat) : Nat := number ((bytes.drop offset).take size)

def readInfo (bytes : List UInt8) : D2LadderInfo where
  experience := ofNat (field bytes 0 4)
  status := UInt16.ofNat (field bytes 4 2)
  level := UInt8.ofNat (field bytes 6 1)
  chclass := UInt8.ofNat (field bytes 7 1)
  charname := cstring ((bytes.drop 8).take maxCharnameLen)

def named (infos : List D2LadderInfo) : List D2LadderInfo :=
  infos.filter fun info => info.charname ≠ []

/-- The ladder at an offset. It is not there if `fread` returns no more than 0, as an `int`. `none`
is a use of bytes that were not read. -/
def readLadder (threshold : UInt32) (file : List UInt8) (offset number : Nat) :
    Option (Option (List D2LadderInfo)) :=
  let data := (file.drop offset).take (number * sizeofInfo)
  if (data.length : Int).bmod (2 ^ 32) ≤ 0 then some none
  else if data.length < number * sizeofInfo then none
  else (run threshold (replicate number emptyInfo)
    (named ((blocks sizeofInfo number data).map readInfo))).map some

/-- The loop over the types. -/
def readLoop (threshold : UInt32) (file lhead : List UInt8) :
    Nat → Nat → List (List D2LadderInfo) → Option (List (List D2LadderInfo))
  | 0, _, ladders => some ladders
  | left + 1, type, ladders =>
    let number := field lhead (type * sizeofIndex + 8) 4
    if number = 0 ∨ ladders.length ≤ type then
      readLoop threshold file lhead left (type + 1) ladders
    else do
      let read ← readLadder threshold file (field lhead (type * sizeofIndex + 4) 4) number
      match read with
      | none => readLoop threshold file lhead left (type + 1) ladders
      | some ladder => readLoop threshold file lhead left (type + 1) (ladders.set type ladder)

/-- The sizes of all ladders together. -/
def sumNumbers (lhead : List UInt8) : Nat → Nat
  | 0 => 0
  | types + 1 => sumNumbers lhead types + field lhead (types * sizeofIndex + 8) 4 * sizeofInfo

def d2ladderReadladder (threshold : UInt32) (file : List UInt8) (list : D2LadderList) :
    Option (Int × D2LadderList) :=
  if file.length < sizeofHeader then some (-1, list)
  else
    let maxtype := field file 0 4
    if maxType < maxtype then some (-1, list)
    else
      let list := { list with maxtype }
      let blocksize := maxtype * sizeofIndex
      if file.length - sizeofHeader < blocksize then some (-1, list)
      else
        let lhead := (file.drop sizeofHeader).take blocksize
        if lhead.length = 0 then some (-1, list)
        else if file.length - sizeofHeader - blocksize < sumNumbers lhead maxtype then
          some (-1, list)
        else do
          let ladders ← readLoop threshold file lhead maxtype 0 list.ladders
          some (0, { list with ladders })

variable {ladder : List D2LadderInfo}

section Format

theorem field_first (bytes tail : List UInt8) {size value : Nat} (small : value < 256 ^ size)
    (starts : bytes = littleEndian size value ++ tail) : field bytes 0 size = value := by
  subst starts
  rw [field, drop_zero, take_left' (little_endian_length size value),
    little_endian_number, mod_eq_of_lt small]

theorem field_skip (front bytes : List UInt8) (offset size : Nat) {skipped : Nat}
    (length : front.length = skipped) :
    field (front ++ bytes) (skipped + offset) size = field bytes offset size := by
  subst length
  rw [field, field, drop_length_add_append]

theorem strncpy_length (size : Nat) (name : Text) : (strncpy size name).length = size := by
  simp only [strncpy, length_append, length_take, length_replicate]
  omega

theorem info_bytes_length (info : D2LadderInfo) : (infoBytes info).length = sizeofInfo := by
  simp [infoBytes, little_endian_length, strncpy_length, sizeofInfo, maxCharnameLen]

/-- A name as a `char` array of `MAX_CHARNAME_LEN` bytes can hold it. -/
def NameFits (name : Text) : Prop := name.length ≤ maxCharnameLen ∧ 0 ∉ name

theorem cstring_strncpy {name : Text} (fits : NameFits name) :
    cstring (strncpy maxCharnameLen name) = name := by
  have all : ∀ byte ∈ name, decide (byte ≠ 0) = true := by
    intro byte member
    have nonzero : byte ≠ 0 := fun same => fits.2 (same ▸ member)
    simpa using nonzero
  rw [cstring, strncpy, take_of_length_le fits.1, takeWhile_append_of_pos all]
  cases maxCharnameLen - name.length with
  | zero => simp
  | succ count => simp [replicate_succ]

theorem read_info_bytes {info : D2LadderInfo} (fits : NameFits info.charname) :
    readInfo (infoBytes info) = info := by
  have experience : field (infoBytes info) 0 4 = info.experience.toNat :=
    field_first _ _ (toNat_lt info.experience) rfl
  have status : field (infoBytes info) 4 2 = info.status.toNat := by
    exact field_first _ _ (UInt16.toNat_lt info.status) rfl
  have rest : (infoBytes info).drop 6 =
      info.level :: info.chclass :: strncpy maxCharnameLen info.charname := by
    rw [infoBytes, ← append_assoc]
    exact drop_left' (by simp [little_endian_length])
  have level : field (infoBytes info) 6 1 = info.level.toNat := by
    simp [field, rest, Bytes.number]
  have chclass : field (infoBytes info) 7 1 = info.chclass.toNat := by
    rw [field, show 7 = 6 + 1 from rfl, ← drop_drop, rest]
    simp [Bytes.number]
  have charname : ((infoBytes info).drop 8).take maxCharnameLen =
      strncpy maxCharnameLen info.charname := by
    rw [show 8 = 6 + 2 from rfl, ← drop_drop, rest, drop_succ_cons, drop_succ_cons,
      drop_zero, take_of_length_le (le_of_eq (strncpy_length _ _))]
  simp only [readInfo, experience, status, level, chclass, charname, cstring_strncpy fits,
    UInt32.ofNat_toNat, UInt16.ofNat_toNat, UInt8.ofNat_toNat]

theorem read_ladder_bytes (fits : ∀ info ∈ ladder, NameFits info.charname) :
    (blocks sizeofInfo ladder.length (ladder.flatMap infoBytes)).map readInfo = ladder := by
  have groups := blocks_flatten sizeofInfo (ladder.map infoBytes) [] (by
    intro group member
    obtain ⟨info, _, rfl⟩ := mem_map.mp member
    exact info_bytes_length info)
  rw [append_nil, length_map, ← flatMap_def] at groups
  rw [groups, List.map_map]
  refine (map_congr_left fun info member => ?_).trans (map_id ladder)
  exact read_info_bytes (fits info member)

variable (ladder : List D2LadderInfo)

theorem ladder_bytes_length : (ladder.flatMap infoBytes).length = ladder.length * sizeofInfo := by
  induction ladder with
  | nil => rfl
  | cons info rest ih =>
    rw [flatMap_cons, length_append, ih, info_bytes_length, length_cons, succ_mul, add_comm]

def total (ladders : List (List D2LadderInfo)) : Nat := (ladders.map List.length).sum

variable (front back rest : List (List D2LadderInfo))

theorem data_bytes_append : dataBytes (front ++ back) = dataBytes front ++ dataBytes back := by
  rw [dataBytes, flatMap_append, dataBytes, dataBytes]

theorem data_bytes_cons :
    dataBytes (ladder :: rest) = ladder.flatMap infoBytes ++ dataBytes rest := by
  rw [dataBytes, flatMap_cons, dataBytes]

theorem total_append : total (front ++ back) = total front + total back := by
  rw [total, map_append, sum_append, total, total]

theorem total_cons : total (ladder :: rest) = ladder.length + total rest := by
  rw [total, map_cons, sum_cons, total]

theorem data_bytes_length (ladders : List (List D2LadderInfo)) :
    (dataBytes ladders).length = total ladders * sizeofInfo := by
  induction ladders with
  | nil => rfl
  | cons ladder rest ih =>
    rw [dataBytes] at ih
    rw [dataBytes, flatMap_cons, length_append, ih, ladder_bytes_length, total_cons, add_mul]

theorem index_bytes_length (type : Nat) (start : UInt32) (ladders : List (List D2LadderInfo)) :
    (indexBytes type start ladders).length = ladders.length * sizeofIndex := by
  induction ladders generalizing type start with
  | nil => simp [indexBytes]
  | cons ladder rest ih =>
    simp only [indexBytes, length_append, little_endian_length, ih, length_cons, sizeofIndex]
    omega

theorem index_bytes_append (type : Nat) (start : UInt32) (front back : List (List D2LadderInfo)) :
    indexBytes type start (front ++ back) = indexBytes type start front ++
      indexBytes (type + front.length) (start + ofNat (total front * sizeofInfo)) back := by
  induction front generalizing type start with
  | nil => simp [indexBytes, total]
  | cons ladder rest ih =>
    have offsets : start + ofNat (ladder.length * sizeofInfo) +
        ofNat (total rest * sizeofInfo) = start + ofNat (total (ladder :: rest) * sizeofInfo) := by
      rw [total_cons, add_mul, ofNat_add, add_assoc]
    rw [cons_append, indexBytes, ih, indexBytes, offsets, length_cons]
    simp only [append_assoc, add_comm rest.length 1, add_assoc]

theorem index_record (start : UInt32) (front back : List (List D2LadderInfo))
    (ladder : List D2LadderInfo) (tail : List UInt8) (small : ladder.length < 2 ^ 32) :
    field (indexBytes 0 start (front ++ ladder :: back) ++ tail) (front.length * sizeofIndex + 4) 4 =
        (start + ofNat (total front * sizeofInfo)).toNat ∧
      field (indexBytes 0 start (front ++ ladder :: back) ++ tail) (front.length * sizeofIndex + 8) 4 =
        ladder.length := by
  rw [index_bytes_append, append_assoc]
  have skip := index_bytes_length 0 start front
  rw [field_skip _ _ 4 4 skip, field_skip _ _ 8 4 skip, indexBytes]
  constructor
  · exact field_first _ _ (toNat_lt _) rfl
  · exact field_first _ _ small rfl

end Format

def dataStart : Nat := sizeofHeader + maxType * sizeofIndex

section Reading
variable {threshold : UInt32} {file : List UInt8} {after : List D2LadderInfo → List D2LadderInfo}

variable {head : List UInt8} {list : D2LadderList}

theorem read_ladder_at {front back : List (List D2LadderInfo)} (starts : head.length = dataStart)
    (whole : file = head ++ dataBytes (front ++ ladder :: back))
    (names : ∀ info ∈ ladder, NameFits info.charname) (some_ : ladder ≠ [])
    (small : ladder.length * sizeofInfo < 2 ^ 31) :
    readLadder threshold file (dataStart + total front * sizeofInfo) ladder.length =
      (run threshold (replicate ladder.length emptyInfo) (named ladder)).map some := by
  have split : file = head ++ dataBytes front ++ (ladder.flatMap infoBytes ++ dataBytes back) := by
    rw [whole, data_bytes_append, data_bytes_cons, append_assoc]
  have skipped : (head ++ dataBytes front).length = dataStart + total front * sizeofInfo := by
    rw [length_append, starts, data_bytes_length]
  have bytes : (file.drop (dataStart + total front * sizeofInfo)).take
      (ladder.length * sizeofInfo) = ladder.flatMap infoBytes := by
    rw [split, drop_left' skipped, take_left' (ladder_bytes_length ladder)]
  have positive : 0 < ladder.length := length_pos_iff.mpr some_
  have length := ladder_bytes_length ladder
  have signed : ((ladder.flatMap infoBytes).length : Int).bmod (2 ^ 32) =
      ((ladder.length * sizeofInfo : Nat) : Int) := by
    rw [length]
    exact Int.bmod_eq_of_le (by omega) (by omega)
  have more : ¬((ladder.length * sizeofInfo : Nat) : Int) ≤ 0 := by
    simp only [sizeofInfo]
    omega
  unfold readLadder
  simp only [bytes, signed]
  rw [if_neg more, length, if_neg (lt_irrefl _), read_ladder_bytes names]

theorem read_loop_spec (front back : List (List D2LadderInfo))
    (done extra : List (List D2LadderInfo)) (starts : head.length = dataStart)
    (whole : file = head ++ dataBytes (front ++ back)) (same : done.length = front.length)
    (names : ∀ ladder ∈ back, ∀ info ∈ ladder, NameFits info.charname)
    (small : dataStart + total (front ++ back) * sizeofInfo < 2 ^ 31)
    (ran : ∀ ladder ∈ back, ladder ≠ [] →
      run threshold (replicate ladder.length emptyInfo) (named ladder) = some (after ladder))
    (empty : after [] = []) :
    readLoop threshold file (indexBytes 0 (ofNat dataStart) (front ++ back)) back.length
        front.length (done ++ (replicate back.length [] ++ extra)) =
      some (done ++ (back.map after ++ extra)) := by
  induction back generalizing front done with
  | nil => rfl
  | cons ladder rest ih =>
    obtain ⟨namesHere, namesRest⟩ := forall_mem_cons.mp names
    obtain ⟨ranHere, ranRest⟩ := forall_mem_cons.mp ran
    have shift : front ++ ladder :: rest = front ++ [ladder] ++ rest := append_cons ..
    have next := ih (front ++ [ladder]) (done ++ [after ladder]) (by rwa [← shift])
      (by simp [same]) namesRest (by rwa [← shift]) ranRest
    have inside : total front * sizeofInfo + ladder.length * sizeofInfo + dataStart < 2 ^ 31 := by
      rw [total_append, total_cons] at small
      simp only [sizeofInfo] at small ⊢
      omega
    have few : ladder.length < 2 ^ 32 := by
      simp only [sizeofInfo] at inside
      omega
    obtain ⟨offset, number⟩ := index_record (ofNat dataStart) front rest ladder [] few
    have short : ladder.length * sizeofInfo < 2 ^ 31 := by omega
    have start : dataStart + total front * sizeofInfo < 2 ^ 32 := by omega
    rw [append_nil, ← ofNat_add, toNat_ofNat_of_lt' start] at offset
    rw [append_nil] at number
    rw [length_cons, readLoop]
    simp only [number, offset]
    have cells : done ++ (replicate (rest.length + 1) [] ++ extra) =
        done ++ [] :: (replicate rest.length [] ++ extra) := by
      rw [replicate_succ, cons_append]
    by_cases none_ : ladder = []
    · subst none_
      rw [if_pos (Or.inl length_nil), cells, map_cons]
      rw [empty] at next ⊢
      simpa using next
    have more : ¬(ladder.length = 0 ∨
        (done ++ (replicate (rest.length + 1) [] ++ extra)).length ≤ front.length) := by
      rw [length_eq_zero_iff, cells, length_append, length_cons, same]
      rintro (empty_ | short_)
      · exact none_ empty_
      · omega
    rw [if_neg more, read_ladder_at starts whole namesHere none_ short, ranHere none_,
      cells, ← same]
    simp only [map_some, bind_eq_bind, bind_some]
    rw [set_append_right _ _ (le_refl _), Nat.sub_self, set_cons_zero, same]
    simpa using next

theorem sum_numbers_spec (ladders : List (List D2LadderInfo)) (count : Nat)
    (inside : count ≤ ladders.length) (small : dataStart + total ladders * sizeofInfo < 2 ^ 31) :
    sumNumbers (indexBytes 0 (ofNat dataStart) ladders) count =
      total (ladders.take count) * sizeofInfo := by
  induction count with
  | zero => rfl
  | succ count ih =>
    have here : ladders = ladders.take count ++ ladders[count] :: ladders.drop (count + 1) := by
      simp
    have few : ladders[count].length < 2 ^ 32 := by
      rw [here, total_append, total_cons] at small
      simp only [sizeofInfo] at small
      omega
    have record := (index_record (ofNat dataStart) (ladders.take count)
      (ladders.drop (count + 1)) ladders[count] [] few).2
    rw [← here, append_nil, length_take, min_eq_left (by omega)] at record
    rw [sumNumbers, ih (by omega), record, take_add_one, getElem?_eq_getElem (by omega),
      toList_some, total_append, total_cons, add_mul]
    rfl

theorem checksum_set_layout (start old rest : List UInt8) (startLength : start.length = 4)
    (oldLength : old.length = 4) : ∃ checksum, checksum.length = 4 ∧
      d2ladderChecksumSet (start ++ (old ++ rest)) = start ++ (checksum ++ rest) := by
  refine ⟨littleEndian 4 (d2ladderChecksum (start ++ (old ++ rest)) checksumOffset).toNat,
    little_endian_length 4 _, ?_⟩
  have front : (start ++ old).length = sizeofHeader := by
    rw [length_append, startLength, oldLength, sizeofHeader]
  have back : (start ++ (old ++ rest)).drop sizeofHeader = rest := by
    rw [← append_assoc, drop_left' front]
  rw [d2ladderChecksumSet, back, checksumOffset, take_left' startLength]

theorem save_layout (types : list.ladders.length = maxType) :
    ∃ checksum, checksum.length = 4 ∧ d2ladderSaveladder list =
      some (littleEndian 4 list.maxtype ++ (checksum ++
        (indexBytes 0 (ofNat dataStart) list.ladders ++
          dataBytes (list.ladders.take list.maxtype)))) := by
  obtain ⟨checksum, length, layout⟩ := checksum_set_layout (littleEndian 4 list.maxtype)
    (littleEndian 4 0) (indexBytes 0 (ofNat dataStart) list.ladders ++
      dataBytes (list.ladders.take list.maxtype)) (little_endian_length 4 _)
    (little_endian_length 4 _)
  refine ⟨checksum, length, ?_⟩
  unfold d2ladderSaveladder
  rw [if_neg (by omega), take_of_length_le (le_of_eq types)]
  exact congrArg some layout

theorem read_layout {used : List (List D2LadderInfo)} {checksum : List UInt8}
    (checksumLength : checksum.length = 4) (inside : used.length ≤ maxType)
    (names : ∀ ladder ∈ used, ∀ info ∈ ladder, NameFits info.charname)
    (small : dataStart + total used * sizeofInfo < 2 ^ 31) (ran : ∀ ladder ∈ used, ladder ≠ [] →
      run threshold (replicate ladder.length emptyInfo) (named ladder) = some (after ladder))
    (empty : after [] = []) :
    d2ladderReadladder threshold (littleEndian 4 used.length ++ (checksum ++
      (indexBytes 0 (ofNat dataStart) (used ++ replicate (maxType - used.length) []) ++
        dataBytes used))) d2ladderlistInit =
      some (if used = [] then -1 else 0,
        ⟨used.length, used.map after ++ replicate (maxType - used.length) []⟩) := by
  generalize lateIs : replicate (maxType - used.length) ([] : List D2LadderInfo) = late
  have lateLength : late.length = maxType - used.length := by
    rw [← lateIs, length_replicate]
  generalize startIs : ofNat dataStart = start at *
  have indexLength : (indexBytes 0 start (used ++ late)).length = maxType * sizeofIndex := by
    rw [index_bytes_length, length_append, lateLength, Nat.add_sub_cancel' inside]
  generalize fileIs : littleEndian 4 used.length ++ (checksum ++
    (indexBytes 0 start (used ++ late) ++ dataBytes used)) = file
  have headerLength : (littleEndian 4 used.length ++ checksum).length = sizeofHeader := by
    rw [length_append, little_endian_length, checksumLength, sizeofHeader]
  have headLength : (littleEndian 4 used.length ++ checksum ++
      indexBytes 0 start (used ++ late)).length = dataStart := by
    rw [length_append, headerLength, indexLength, dataStart]
  have whole : file = littleEndian 4 used.length ++ checksum ++
      indexBytes 0 start (used ++ late) ++ dataBytes used := by
    rw [← fileIs, append_assoc, append_assoc]
  have length : file.length = dataStart + total used * sizeofInfo := by
    rw [whole, length_append, headLength, data_bytes_length]
  have few : used.length < 256 ^ 4 := lt_of_le_of_lt inside (by decide)
  have maxtype : field file 0 4 = used.length := field_first _ _ few fileIs.symm
  have lhead : (file.drop sizeofHeader).take (used.length * sizeofIndex) =
      indexBytes 0 start used := by
    rw [whole, append_assoc, drop_left' headerLength, index_bytes_append,
      append_assoc, take_left' (index_bytes_length 0 start used)]
  have lheadLength := index_bytes_length 0 start used
  have sums : sumNumbers (indexBytes 0 start used) used.length = total used * sizeofInfo := by
    subst startIs
    rw [sum_numbers_spec used used.length (le_refl _) small, take_length]
  have room : sizeofHeader + used.length * sizeofIndex ≤ dataStart :=
    Nat.add_le_add_left (mul_le_mul_right sizeofIndex inside) sizeofHeader
  unfold d2ladderReadladder
  simp only [maxtype, lhead, lheadLength, sums]
  rw [if_neg (by omega), if_neg (by omega), if_neg (by omega)]
  by_cases none_ : used = []
  · subst none_
    rw [length_nil, Nat.zero_mul, if_pos rfl, if_pos rfl, ← lateIs]
    rfl
  have positive := length_pos_iff.mpr none_
  have indexed : used.length * sizeofIndex ≠ 0 := by
    simp only [sizeofIndex]
    omega
  rw [if_neg indexed, if_neg (by omega), if_neg none_]
  have fresh : d2ladderlistInit.ladders = [] ++ (replicate used.length [] ++ late) := by
    rw [← lateIs, nil_append, ← replicate_add, Nat.add_sub_cancel' inside]
    rfl
  have loop := read_loop_spec [] used [] late headLength whole rfl names small ran empty
  rw [startIs, nil_append used, length_nil, ← fresh, nil_append] at loop
  rw [loop]
  rfl

variable (after) in
theorem read_saved (types : list.ladders.length = maxType) (inside : list.maxtype ≤ maxType)
    (unused : ∀ ladder ∈ list.ladders.drop list.maxtype, ladder = [])
    (names : ∀ ladder ∈ list.ladders, ∀ info ∈ ladder, NameFits info.charname)
    (small : dataStart + total list.ladders * sizeofInfo < 2 ^ 31)
    (ran : ∀ ladder ∈ list.ladders, ladder ≠ [] →
      run threshold (replicate ladder.length emptyInfo) (named ladder) = some (after ladder))
    (empty : after [] = []) :
    ∃ saved code, d2ladderSaveladder list = some saved ∧
      d2ladderReadladder threshold saved d2ladderlistInit =
        some (code, ⟨list.maxtype, list.ladders.map after⟩) := by
  obtain ⟨checksum, checksumLength, saved⟩ := save_layout types
  have usedLength : (list.ladders.take list.maxtype).length = list.maxtype := by
    rw [length_take, types, min_eq_left inside]
  have rest : list.ladders.drop list.maxtype = replicate (maxType - list.maxtype) [] :=
    eq_replicate_iff.mpr ⟨by rw [length_drop, types], unused⟩
  have split := take_append_drop list.maxtype list.ladders
  have used : ∀ ladder ∈ list.ladders.take list.maxtype, ladder ∈ list.ladders :=
    fun _ => mem_of_mem_take
  rw [rest] at split
  have shorter : total (list.ladders.take list.maxtype) ≤ total list.ladders := by
    rw [← take_append_drop list.maxtype list.ladders, total_append, take_append_drop]
    exact le_add_right _ _
  have fewer : dataStart + total (list.ladders.take list.maxtype) * sizeofInfo < 2 ^ 31 := by
    have scaled := mul_le_mul_right sizeofInfo shorter
    omega
  have read := read_layout checksumLength (by omega)
    (fun ladder member => names ladder (used ladder member)) fewer
    (fun ladder member => ran ladder (used ladder member)) empty
  rw [usedLength, split] at read
  refine ⟨_, if list.ladders.take list.maxtype = [] then -1 else 0, saved, read.trans ?_⟩
  have mapped := congrArg (map after) split
  rw [map_append, map_replicate, empty] at mapped
  rw [mapped]

end Reading

/-- What `d2ladder_update` maintains: the entries of a ladder are in order, no name is there twice,
and an entry without a name is zero. -/
structure Maintained (list : D2LadderList) : Prop where
  types : list.ladders.length = maxType
  inside : list.maxtype ≤ maxType
  unused : ∀ ladder ∈ list.ladders.drop list.maxtype, ladder = []
  names : ∀ ladder ∈ list.ladders, ∀ info ∈ ladder, NameFits info.charname
  ranked : ∀ ladder ∈ list.ladders, Ranked ladder
  distinct : ∀ ladder ∈ list.ladders, ladder.Pairwise Apart
  zeroed : ∀ ladder ∈ list.ladders, ∀ info ∈ ladder, info.charname = [] → info = emptyInfo

/-- No two characters have the same experience. -/
def NoTies (ladder : List D2LadderInfo) : Prop :=
  (named ladder).Pairwise fun first second => first.experience ≠ second.experience

def kept (threshold : UInt32) (ladder : List D2LadderInfo) : List D2LadderInfo :=
  (named ladder).filter fun info => threshold ≤ info.experience

/-- The characters that reach the threshold, and then empty entries. -/
def restored (threshold : UInt32) (ladder : List D2LadderInfo) : List D2LadderInfo :=
  kept threshold ladder ++ replicate (ladder.length - (kept threshold ladder).length) emptyInfo

section Inserting
variable {threshold : UInt32}

theorem empty_above (info : D2LadderInfo) : ¬info.experience < emptyInfo.experience :=
  UInt32.not_lt.mpr (UInt32.zero_le)

variable {front : List D2LadderInfo}

theorem ranked_empties (ranked : Ranked front) (count : Nat) :
    Ranked (front ++ replicate count emptyInfo) := by
  refine pairwise_append.mpr ⟨ranked, ?_, ?_⟩
  · exact pairwise_replicate.mpr (Or.inr (UInt32.le_refl _))
  · intro first _ second member
    rw [eq_of_mem_replicate member]
    exact UInt32.zero_le

variable {info : D2LadderInfo} {ladder : List D2LadderInfo}

theorem apart_different {entry : D2LadderInfo} (apart : Apart entry info)
    (named : info.charname ≠ []) : sameCharname entry.charname info.charname = false := by
  cases same : sameCharname entry.charname info.charname with
  | false => rfl
  | true => exact absurd (same_charname_empty same (apart same)) named

theorem run_falling (front infos : List D2LadderInfo) (count : Nat) (ranked : Ranked front)
    (names : ∀ info ∈ infos, info.charname ≠ []) (distinct : (front ++ infos).Pairwise Apart)
    (above : ∀ first ∈ front, ∀ info ∈ infos, info.experience < first.experience)
    (falling : infos.Pairwise fun first second => second.experience < first.experience)
    (room : infos.length ≤ count) :
    run threshold (front ++ replicate count emptyInfo) infos =
      some (front ++ (infos.filter fun info => threshold ≤ info.experience) ++
        replicate (count - (infos.filter fun info => threshold ≤ info.experience).length)
          emptyInfo) := by
  induction infos generalizing front count with
  | nil => simp [run]
  | cons info rest ih =>
    obtain ⟨count, rfl⟩ : ∃ less, count = less + 1 := ⟨count - 1, by
      rw [length_cons] at room
      omega⟩
    obtain ⟨name, restNames⟩ := forall_mem_cons.mp names
    obtain ⟨lower, restFalling⟩ := pairwise_cons.mp falling
    have others : ∀ entry ∈ front ++ replicate (count + 1) emptyInfo,
        sameCharname entry.charname info.charname = false := by
      intro entry member
      rcases mem_append.mp member with inFront | empty
      · have apart := (pairwise_append.mp distinct).2.2 entry inFront info mem_cons_self
        exact apart_different apart name
      · rw [eq_of_mem_replicate empty]
        exact apart_different (fun _ => rfl) name
    have some_ : front ++ replicate (count + 1) emptyInfo ≠ [] := by simp
    have wholeRanked := ranked_empties ranked (count + 1)
    rw [run]
    by_cases low : info.experience < threshold
    · have skipped : ¬threshold ≤ info.experience := UInt32.not_le.mpr low
      rw [insert_low_unlisted some_ others low, filter_cons_of_neg (by simpa using skipped)]
      exact ih front (count + 1) ranked restNames
        (distinct.sublist ((sublist_cons_self info rest).append_left front))
        (fun first member later inside => above first member later (mem_cons_of_mem _ inside))
        restFalling (by rw [length_cons] at room; omega)
    have enough : threshold ≤ info.experience := UInt32.not_lt.mp low
    obtain ⟨code, inserted⟩ := insert_unlisted some_ wholeRanked others low
    have placed : (place info (front ++ replicate (count + 1) emptyInfo)).dropLast =
        front ++ [info] ++ replicate count emptyInfo := by
      rw [place_split (fun first member => above first member info mem_cons_self)
        (fun entry member => by
          rw [eq_of_mem_replicate member]
          exact empty_above info), replicate_succ', ← cons_append,
        ← append_assoc, dropLast_concat]
      simp
    have next := ih (front ++ [info]) count ?_ restNames (by simpa using distinct) ?_ restFalling
      (by simpa using room)
    · rw [inserted, placed, filter_cons_of_pos (by simpa using enough)]
      simp only [bind_eq_bind, bind_some]
      rw [next]
      simp
    · refine pairwise_append.mpr ⟨ranked, pairwise_singleton _ _, ?_⟩
      intro first member second single
      rw [mem_singleton.mp single]
      exact UInt32.le_of_lt (above first member info mem_cons_self)
    · intro first member later inside
      rcases mem_append.mp member with inFront | single
      · exact above first inFront later (mem_cons_of_mem _ inside)
      · rw [mem_singleton.mp single]
        exact lower later inside

theorem named_falling (ranked : Ranked ladder) (noTies : NoTies ladder) :
    (named ladder).Pairwise fun first second => second.experience < first.experience := by
  refine (Pairwise.and (ranked.filter _) noTies).imp ?_
  rintro first second ⟨below, distinct⟩
  exact UInt32.lt_of_le_of_ne below (Ne.symm distinct)

theorem run_named (ranked : Ranked ladder) (distinct : ladder.Pairwise Apart)
    (noTies : NoTies ladder) :
    run threshold (replicate ladder.length emptyInfo) (named ladder) =
      some (restored threshold ladder) := by
  have names : ∀ info ∈ named ladder, info.charname ≠ [] := fun info member => by
    simpa using (mem_filter.mp member).2
  exact run_falling [] (named ladder) ladder.length .nil names (distinct.filter _) (by simp)
    (named_falling ranked noTies) (length_filter_le _ _)

theorem kept_split {back : List D2LadderInfo} (name : info.charname ≠ [])
    (enough : threshold ≤ info.experience) :
    kept threshold (front ++ info :: back) = kept threshold front ++ info :: kept threshold back := by
  simp [kept, named, name, enough]

theorem restored_position (ranked : Ranked ladder)
    (zeroed : ∀ info ∈ ladder, info.charname = [] → info = emptyInfo) {i : Nat}
    (here : ladder[i]? = some info) (name : info.charname ≠ [])
    (enough : threshold ≤ info.experience) (positive : 0 < info.experience) :
    (restored threshold ladder)[i]? = some info := by
  obtain ⟨inside, rfl⟩ := List.getElem?_eq_some_iff.mp here
  have split : ladder = ladder.take i ++ ladder[i] :: ladder.drop (i + 1) := by simp
  have front : ∀ entry ∈ ladder.take i, ladder[i].experience ≤ entry.experience := by
    intro entry member
    rw [split] at ranked
    exact (pairwise_append.mp ranked).2.2 entry member _ mem_cons_self
  have all : kept threshold (ladder.take i) = ladder.take i := by
    rw [kept, named, List.filter_filter, filter_eq_self]
    intro entry member
    have more := front entry member
    have reaches := UInt32.le_trans enough more
    have filled : entry.charname ≠ [] := by
      intro unnamed
      rw [zeroed entry (mem_of_mem_take member) unnamed] at more
      exact lt_irrefl 0 (lt_of_lt_of_le positive more)
    simp [reaches, filled]
  have keptSplit : kept threshold ladder = ladder.take i ++ ladder[i] ::
      kept threshold (ladder.drop (i + 1)) := by
    calc kept threshold ladder
        = kept threshold (ladder.take i ++ ladder[i] :: ladder.drop (i + 1)) := by rw [← split]
      _ = kept threshold (ladder.take i) ++ ladder[i] :: kept threshold (ladder.drop (i + 1)) := by
          rw [kept_split name enough]
      _ = _ := by rw [all]
  have length : (ladder.take i).length = i := length_take_of_le (le_of_lt inside)
  rw [restored, keptSplit, append_assoc, getElem?_append_right (le_of_eq length),
    length, Nat.sub_self]
  rfl

end Inserting

/-- What a saved file gives back, for ladders without ties in a file of less than 2^31 bytes: the
characters that reach the threshold, in their order and at the front. -/
theorem save_read_restores (threshold : UInt32) {list : D2LadderList} (maintained : Maintained list)
    (noTies : ∀ ladder ∈ list.ladders, NoTies ladder)
    (small : dataStart + total list.ladders * sizeofInfo < 2 ^ 31) :
    (∃ saved code, d2ladderSaveladder list = some saved ∧
      d2ladderReadladder threshold saved d2ladderlistInit =
        some (code, ⟨list.maxtype, list.ladders.map (restored threshold)⟩)) ∧
    ∀ ladder ∈ list.ladders, ∀ (i : Nat) (info : D2LadderInfo), ladder[i]? = some info → info.charname ≠ [] →
      threshold ≤ info.experience → 0 < info.experience →
        (restored threshold ladder)[i]? = some info := by
  constructor
  · refine read_saved (restored threshold) maintained.types maintained.inside maintained.unused
      maintained.names small ?_ rfl
    intro ladder member _
    exact run_named (maintained.ranked ladder member) (maintained.distinct ladder member)
      (noTies ladder member)
  · intro ladder member i info here name enough positive
    exact restored_position (maintained.ranked ladder member) (maintained.zeroed ladder member) here
      name enough positive

section Examples

def sorceress (experience : UInt32) : D2LadderInfo := ⟨experience, 0, 0, 1, [98]⟩

def oneLadder (ladder : List D2LadderInfo) : D2LadderList := ⟨maxType, ladder :: replicate 34 []⟩

theorem one_ladder_maintained (ranked : Ranked ladder) (distinct : ladder.Pairwise Apart)
    (names : ∀ info ∈ ladder, NameFits info.charname)
    (zeroed : ∀ info ∈ ladder, info.charname = [] → info = emptyInfo) :
    Maintained (oneLadder ladder) := by
  have each {property : List D2LadderInfo → Prop} (here : property ladder) (none_ : property []) :
      ∀ other ∈ (oneLadder ladder).ladders, property other := by
    intro other member
    rcases mem_cons.mp member with rfl | empty
    · exact here
    · rw [eq_of_mem_replicate empty]
      exact none_
  exact {
    types := rfl
    inside := le_refl _
    unused := by simp [oneLadder, maxType]
    names := each names (by simp)
    ranked := each ranked .nil
    distinct := each distinct .nil
    zeroed := each zeroed (by simp) }

theorem one_ladder_read (threshold : UInt32) {ladder after : List D2LadderInfo}
    (maintained : Maintained (oneLadder ladder))
    (small : dataStart + total (oneLadder ladder).ladders * sizeofInfo < 2 ^ 31)
    (ran : run threshold (replicate ladder.length emptyInfo) (named ladder) = some after) :
    ∃ saved code, d2ladderSaveladder (oneLadder ladder) = some saved ∧
      d2ladderReadladder threshold saved d2ladderlistInit = some (code, oneLadder after) := by
  let reread (entries : List D2LadderInfo) : List D2LadderInfo :=
    (run threshold (replicate entries.length emptyInfo) (named entries)).getD []
  have here : reread ladder = after := by simp only [reread, ran, getD_some]
  obtain ⟨saved, code, save, read⟩ := read_saved reread maintained.types
    maintained.inside maintained.unused maintained.names small (by
      intro entries member some_
      rcases mem_cons.mp member with rfl | empty
      · rw [ran, here]
      · exact absurd (eq_of_mem_replicate empty) some_) rfl
  refine ⟨saved, code, save, read.trans ?_⟩
  rw [oneLadder, oneLadder, map_cons, here, map_replicate]
  rfl

def tied : D2LadderList := oneLadder [amazon 200, sorceress 200]

theorem tied_maintained : Maintained tied := by
  refine one_ladder_maintained ?_ ?_ ?_ ?_ <;>
    simp [Ranked, Apart, NameFits, amazon, sorceress, maxCharnameLen, sameCharname, sameCaseless,
      tolower, isupper]

/-- Two characters with the same experience change places, and those below the threshold are
dropped. -/
theorem tied_not_restored : Maintained tied ∧
    (∃ saved code, d2ladderSaveladder tied = some saved ∧
      d2ladderReadladder 0 saved d2ladderlistInit =
        some (code, oneLadder [sorceress 200, amazon 200])) ∧
    (∃ saved code, d2ladderSaveladder tied = some saved ∧
      d2ladderReadladder 300 saved d2ladderlistInit =
        some (code, oneLadder [emptyInfo, emptyInfo])) ∧
    tied ≠ oneLadder [sorceress 200, amazon 200] ∧ tied ≠ oneLadder [emptyInfo, emptyInfo] := by
  refine ⟨tied_maintained, ?_, ?_, by decide, by decide⟩
  · exact one_ladder_read 0 tied_maintained (by decide) (by decide)
  · exact one_ladder_read 300 tied_maintained (by decide) (by decide)

def untied : D2LadderList := oneLadder [amazon 300, sorceress 200]

theorem untied_maintained : Maintained untied := by
  refine one_ladder_maintained ?_ ?_ ?_ ?_ <;>
    simp [Ranked, Apart, NameFits, amazon, sorceress, maxCharnameLen, sameCharname, sameCaseless,
      tolower, isupper]

theorem untied_restored :
    (∃ saved code, d2ladderSaveladder untied = some saved ∧
      d2ladderReadladder 250 saved d2ladderlistInit =
        some (code, ⟨maxType, untied.ladders.map (restored 250)⟩)) ∧
    (restored 250 [amazon 300, sorceress 200])[0]? = some (amazon 300) := by
  have restores := save_read_restores 250 untied_maintained (by
    intro ladder member
    rcases mem_cons.mp member with rfl | empty
    · simp [NoTies, named, amazon, sorceress]
    · rw [eq_of_mem_replicate empty]
      exact .nil) (by decide)
  exact ⟨restores.1, restores.2 _ mem_cons_self 0 (amazon 300) rfl (by decide) (by decide)
    (by decide)⟩

end Examples

end Pvpgn.D2LadderFile
