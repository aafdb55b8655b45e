import Pvpgn.Bytes
import Pvpgn.Ladder

/-!
The binary ladder files, `LadderList::saveBinary` and `LadderList::loadBinary` of `ladder.cpp`. A
file is the bytes stored under the name of the list, none if there is no such file. Words are
written as the machine keeps them, least significant byte first.
-/

namespace Pvpgn.LadderFile
open Bytes Ladder Nat UInt32
open List hiding count

def magick : UInt32 := 0xdeadc0de

def writedata (words : List UInt32) : List UInt8 := words.flatMap limbBytes

/-- The loops never read past the size of the file. -/
def readdata (input : List UInt8) : UInt32 × List UInt8 :=
  (ofNat (number (input.take 4)), input.drop 4)

def addWords (checksum : UInt32) (words : List UInt32) : UInt32 := words.foldl (· + ·) checksum

def results (entry : LadderEntry) : List UInt32 := [entry.uid, entry.secondary, entry.primary, 0]

def writeEntries : List LadderEntry → UInt32 → List UInt8
  | [], checksum => writedata [checksum]
  | entry :: rest, checksum =>
    writedata (results entry) ++ writeEntries rest (addWords checksum (results entry))

def image (entries : List LadderEntry) : List UInt8 := writedata [magick] ++ writeEntries entries 0

def saveBinary (list : LadderList) (file : Option (List UInt8)) :
    LadderList × Option (List UInt8) :=
  if list.saved then (list, file) else ({ list with saved := true }, some (image list.ladder))

def save (list : LadderList) (ranks : Ranks) (file : Option (List UInt8)) :
    LadderList × Ranks × Option (List UInt8) :=
  let (sorted, stored) := sortAndUpdate list ranks
  let (saved, file) := saveBinary sorted file
  (saved, stored, file)

-- Only accounts are looked up, whatever the list refers to.
def loadValues (known : UInt32 → Bool) (list : LadderList) : List UInt32 → LadderList
  | [uid, secondary, primary, tertiary] =>
    if known uid then addEntry list uid primary secondary tertiary (.account uid) else list
  | _ => list

def readEntries (known : UInt32 → Bool) : Nat → List UInt8 → LadderList → UInt32 →
    LadderList × UInt32 × List UInt8
  | 0, input, list, checksum => (list, checksum, input)
  | count + 1, input, list, checksum =>
    let (uid, input) := readdata input
    let (secondary, input) := readdata input
    let (primary, input) := readdata input
    let (tertiary, input) := readdata input
    let values := [uid, secondary, primary, tertiary]
    readEntries known count input (loadValues known list values) (addWords checksum values)

/-- `filesize` and `noe`, 32-bit numbers both, as the number of records. -/
def entryCount (length : Nat) : Option Nat :=
  let filesize := length % 4294967296
  let noe := (filesize / 4 + 4294967296 - 2) % 4294967296
  if filesize % 4 = 0 ∧ noe % 4 = 0 then some (noe / 4) else none

def loadBinary (known : UInt32 → Bool) (list : LadderList) : Option (List UInt8) → Bool × LadderList
  | none => (false, list)
  | some bytes =>
    let (start, input) := readdata bytes
    if start ≠ magick then (false, list)
    else
      match entryCount bytes.length with
      | none => (false, list)
      | some count =>
        let (loaded, checksum, input) := readEntries known count input list 0
        let (filechecksum, _) := readdata input
        if filechecksum ≠ checksum then (false, { loaded with ladder := [] }) else (true, loaded)

/-- The entries with their values and the order they have after `sortAndUpdate` are the same. -/
def Reloaded (list loaded : LadderList) : Prop :=
  loaded.ladder.map LadderEntry.values = list.ladder.map LadderEntry.values ∧
    ∀ ranks, (sortAndUpdate { loaded with dirty := true } ranks).1.ladder.map LadderEntry.values =
      (sortAndUpdate { list with dirty := true } ranks).1.ladder.map LadderEntry.values

/-- What a saved list of any kind looks like: records of four words and their sum. -/
def Intact (file : List UInt8) : Prop :=
  ∃ records : List (List UInt32), (∀ record ∈ records, record.length = 4) ∧
    file = writedata (magick :: (records.flatten ++ [addWords 0 records.flatten]))

section Words

theorem writedata_append (left right : List UInt32) :
    writedata (left ++ right) = writedata left ++ writedata right := flatMap_append

theorem writedata_length (words : List UInt32) : (writedata words).length = 4 * words.length :=
  limbs_bytes_length words

theorem writedata_injective {left right : List UInt32} (same : writedata left = writedata right) :
    left = right := by
  have lengths := congrArg length same
  rw [writedata_length, writedata_length] at lengths
  have blocks := flatten_injective 4 (left.map limbBytes) (right.map limbBytes)
    (by simp [limb_bytes_length]) (by simp [limb_bytes_length]) (by simpa using by omega)
    (by simpa [writedata, flatMap] using same)
  refine map_injective_iff.mpr (fun first second equal => ?_) blocks
  have values := congrArg number equal
  rw [limb_bytes_number, limb_bytes_number] at values
  exact UInt32.toNat_inj.mp values

theorem readdata_writedata (word : UInt32) (words : List UInt32) (rest : List UInt8) :
    readdata (writedata (word :: words) ++ rest) = (word, writedata words ++ rest) := by
  have first : writedata (word :: words) ++ rest = limbBytes word ++ (writedata words ++ rest) := by
    rw [writedata, flatMap_cons, append_assoc, writedata]
  rw [readdata, first, take_left' (limb_bytes_length word),
    drop_left' (limb_bytes_length word), limb_bytes_number]
  simp

theorem add_words_append (checksum : UInt32) (left right : List UInt32) :
    addWords checksum (left ++ right) = addWords (addWords checksum left) right :=
  foldl_append

theorem write_entries_words (entries : List LadderEntry) (checksum : UInt32) :
    writeEntries entries checksum =
      writedata (entries.flatMap results ++ [addWords checksum (entries.flatMap results)]) := by
  induction entries generalizing checksum with
  | nil => rfl
  | cons entry rest ih =>
    rw [writeEntries, ih, ← writedata_append, flatMap_cons, add_words_append, append_assoc]

theorem image_words (entries : List LadderEntry) :
    image entries = writedata (magick :: (entries.flatMap results ++
      [addWords 0 (entries.flatMap results)])) := by
  rw [image, write_entries_words, ← writedata_append, singleton_append]

theorem words_of_bytes (count : Nat) (bytes : List UInt8) (whole : bytes.length = 4 * count) :
    ∃ words : List UInt32, words.length = count ∧ bytes = writedata words := by
  induction count generalizing bytes with
  | zero => exact ⟨[], rfl, eq_nil_of_length_eq_zero (by omega)⟩
  | succ count ih =>
    obtain ⟨words, length, same⟩ := ih (bytes.drop 4) (by rw [length_drop]; omega)
    have taken : (bytes.take 4).length = 4 := by
      rw [length_take]
      omega
    have small : number (bytes.take 4) < 4294967296 := by
      have bound := number_lt (bytes.take 4)
      rw [taken] at bound
      simpa using bound
    refine ⟨ofNat (number (bytes.take 4)) :: words, by simp [length], ?_⟩
    have first : limbBytes (ofNat (number (bytes.take 4))) = bytes.take 4 := by
      apply number_injective
      · rw [limb_bytes_length, taken]
      · rw [limb_bytes_number, toNat_ofNat', mod_eq_of_lt small]
    rw [writedata, flatMap_cons, first, ← writedata, ← same, take_append_drop]

theorem records_of_words (count : Nat) (words : List UInt32) (whole : words.length = 4 * count) :
    ∃ records : List (List UInt32), records.length = count ∧
      (∀ record ∈ records, record.length = 4) ∧ words = records.flatten := by
  induction count generalizing words with
  | zero => exact ⟨[], rfl, by simp, eq_nil_of_length_eq_zero (by omega)⟩
  | succ count ih =>
    obtain ⟨records, length, sized, same⟩ := ih (words.drop 4) (by rw [length_drop]; omega)
    refine ⟨words.take 4 :: records, by simp [length], ?_, ?_⟩
    · intro record member
      rcases mem_cons.mp member with here | later
      · rw [here, length_take]
        omega
      · exact sized record later
    · rw [flatten_cons, ← same, take_append_drop]

theorem records_length (records : List (List UInt32)) (sized : ∀ record ∈ records, record.length = 4) :
    records.flatten.length = 4 * records.length := by
  induction records with
  | nil => rfl
  | cons record rest ih =>
    have here := sized record mem_cons_self
    rw [flatten_cons, length_append, here,
      ih fun other member => sized other (mem_cons_of_mem record member), length_cons]
    omega

end Words

section Loading
variable (known : UInt32 → Bool)

theorem read_entries_records (records : List (List UInt32))
    (sized : ∀ record ∈ records, record.length = 4) (rest : List UInt8) (list : LadderList)
    (checksum : UInt32) :
    readEntries known records.length (writedata records.flatten ++ rest) list checksum =
      (records.foldl (loadValues known) list, addWords checksum records.flatten, rest) := by
  induction records generalizing list checksum with
  | nil => rfl
  | cons record others ih =>
    have later := ih fun other member => sized other (mem_cons_of_mem record member)
    match record, sized record mem_cons_self with
    | [uid, secondary, primary, tertiary], _ =>
      simp only [length_cons, readEntries, flatten_cons, cons_append,
        nil_append, readdata_writedata, later]
      rfl

theorem entry_count_iff (length count : Nat) :
    entryCount length = some count ↔ length % 4294967296 = 8 + 16 * count := by
  rw [entryCount]
  simp only [Option.ite_none_right_eq_some, Option.some.injEq]
  omega

theorem load_words (first stored : UInt32) (records : List (List UInt32))
    (sized : ∀ record ∈ records, record.length = 4) (more : List UInt8) (list : LadderList)
    (file : List UInt8)
    (content : file = writedata (first :: (records.flatten ++ [stored])) ++ more)
    (size : file.length % 4294967296 = 8 + 16 * records.length) :
    loadBinary known list (some file) =
      if first ≠ magick then (false, list)
      else if stored ≠ addWords 0 records.flatten then
        (false, { records.foldl (loadValues known) list with ladder := [] })
      else (true, records.foldl (loadValues known) list) := by
  have start : readdata file =
      (first, writedata records.flatten ++ (writedata [stored] ++ more)) := by
    rw [content, readdata_writedata, writedata_append, append_assoc]
  have tail : readdata (writedata [stored] ++ more) = (stored, more) :=
    readdata_writedata stored [] more
  have count := (entry_count_iff file.length records.length).mpr size
  simp only [loadBinary, start, count, read_entries_records known records sized, tail]

variable (list : LadderList) (file : List UInt8)

theorem load_unsized (unsized : entryCount file.length = none) :
    loadBinary known list (some file) = (false, list) := by
  simp only [loadBinary, unsized, ite_self]

theorem load_values_type (record : List UInt32) :
    (loadValues known list record).referenceType = list.referenceType ∧
      (loadValues known list record).ladder.length ≤ list.ladder.length + 1 := by
  unfold loadValues addEntry
  split
  · split
    · split <;> simp
    · simp
  · simp

theorem read_entries_length (count : Nat) (input : List UInt8) (list : LadderList)
    (checksum : UInt32) :
    (readEntries known count input list checksum).1.ladder.length ≤ list.ladder.length + count := by
  induction count generalizing input list checksum with
  | zero => exact le_refl _
  | succ count ih =>
    refine le_trans (ih _ _ _)
      (le_trans (Nat.add_le_add_right (load_values_type known list _).2 count) ?_)
    omega

theorem load_length (count : Nat) (size : file.length % 4294967296 = 8 + 16 * count) :
    (loadBinary known list (some file)).2.ladder.length ≤ list.ladder.length + count := by
  have counted := (entry_count_iff file.length count).mpr size
  simp only [loadBinary, counted]
  split
  · exact le_add_right _ _
  split
  · exact zero_le _
  · exact read_entries_length known count _ _ _

theorem load_rejected (file : Option (List UInt8)) (empty : list.ladder = [])
    (failed : (loadBinary known list file).1 = false) :
    (loadBinary known list file).2.ladder = [] := by
  cases file with
  | none => exact empty
  | some bytes =>
    simp only [loadBinary] at failed ⊢
    by_cases start : (readdata bytes).1 ≠ magick
    · rw [if_pos start]
      exact empty
    rw [if_neg start] at failed ⊢
    cases counted : entryCount bytes.length with
    | none => exact empty
    | some count =>
      simp only [counted] at failed ⊢
      split at failed
      · next other =>
          rw [if_pos other]
      · cases failed

theorem load_accepts_iff :
    (loadBinary known list (some file)).1 = true ↔ Intact (file.take (file.length % 4294967296)) := by
  have seen : (file.take (file.length % 4294967296)).length = file.length % 4294967296 := by
    rw [length_take]
    exact min_eq_left (mod_le _ _)
  constructor
  · intro accepted
    cases counted : entryCount file.length with
    | none =>
      rw [load_unsized known list file counted] at accepted
      cases accepted
    | some count =>
      have size := (entry_count_iff file.length count).mp counted
      obtain ⟨words, length, same⟩ := words_of_bytes (2 + 4 * count)
        (file.take (file.length % 4294967296)) (by omega)
      obtain ⟨first, body, rfl⟩ := exists_cons_of_length_pos (l := words) (by omega)
      rcases eq_nil_or_concat body with empty | ⟨front, stored, split⟩
      · rw [empty, length_singleton] at length
        omega
      rw [concat_eq_append] at split
      subst split
      simp only [length_cons, length_append, length_nil] at length
      obtain ⟨records, counts, sized, rfl⟩ := records_of_words count front (by omega)
      have content := take_append_drop (file.length % 4294967296) file
      rw [same] at content
      rw [load_words known first stored records sized _ list file content.symm
        (by rw [counts]; exact size)] at accepted
      split at accepted
      · cases accepted
      next start =>
        split at accepted
        · cases accepted
        · next sum =>
            rw [not_ne_iff] at start sum
            exact ⟨records, sized, by rw [same, start, sum]⟩
  · rintro ⟨records, sized, same⟩
    have size : file.length % 4294967296 = 8 + 16 * records.length := by
      rw [← seen, same, writedata_length, length_cons, length_append,
        records_length records sized, length_singleton]
      omega
    have content := take_append_drop (file.length % 4294967296) file
    rw [same] at content
    rw [load_words known magick _ records sized _ list file content.symm size]
    simp

theorem mismatched_not_intact (first stored : UInt32) (entries : List UInt32)
    (mismatch : stored ≠ addWords 0 entries) :
    ¬ Intact (writedata (first :: (entries ++ [stored]))) := by
  rintro ⟨records, sized, same⟩
  have words := writedata_injective same
  have ends := append_inj' (cons.inj words).2 rfl
  rw [← ends.1] at ends
  exact mismatch (cons.inj ends.2).1

end Loading

section Reload
variable (known : UInt32 → Bool)

theorem rank_entries_values (key : LadderKey) (entries : List LadderEntry) (rank : Nat)
    (ranks : Ranks) :
    (rankEntries key rank entries ranks).1.map LadderEntry.values =
      (entries.take (maxRankKeptInLadder + 1 - rank)).map LadderEntry.values := by
  induction entries generalizing rank ranks with
  | nil => simp [rankEntries]
  | cons entry rest ih =>
    have values (stored : Ranks) : (entry.setRank key stored rank).1.values = entry.values := by
      unfold LadderEntry.setRank
      split <;> rfl
    rw [rankEntries]
    split
    · next inside =>
        rw [show maxRankKeptInLadder + 1 - rank = maxRankKeptInLadder + 1 - (rank + 1) + 1 by omega,
          take_succ_cons, map_cons]
        split
        · rw [map_cons, ih, values]
        · rw [map_cons, ih]
    · rw [ih]
      have before : maxRankKeptInLadder + 1 - (rank + 1) = 0 := by omega
      have here : maxRankKeptInLadder + 1 - rank = 0 := by omega
      rw [before, here, take_zero, take_zero]

variable (list : LadderList) (entries : List LadderEntry)

theorem sort_entries_values :
    (sortEntries entries).map LadderEntry.values = sortEntries (entries.map LadderEntry.values) := by
  apply map_mergeSort
  intro left _ right _
  rfl

theorem ranking_values (ranks : Ranks) :
    (sortAndUpdate { list with dirty := true } ranks).1.ladder.map LadderEntry.values =
      (sortEntries (list.ladder.map LadderEntry.values)).take maxRankKeptInLadder := by
  rw [sort_dirty rfl, rank_entries_values, Nat.add_sub_cancel, map_take, sort_entries_values]

theorem reloaded_iff (loaded : LadderList) :
    Reloaded list loaded ↔
      loaded.ladder.map LadderEntry.values = list.ladder.map LadderEntry.values := by
  refine ⟨fun same => same.1, fun same => ⟨same, fun ranks => ?_⟩⟩
  rw [ranking_values, ranking_values, same]

theorem load_fitting {list : LadderList} (own : list.referenceType = .account)
    (entries : List LadderEntry) (fits : ∀ entry ∈ entries, entry.Fits .account)
    (exist : ∀ entry ∈ entries, known entry.uid = true) :
    ((entries.map results).foldl (loadValues known) list).ladder =
      list.ladder ++ entries.map fun entry => { entry with tertiary := 0, rank := 0 } := by
  induction entries generalizing list with
  | nil => simp
  | cons entry rest ih =>
    have object : entry.referencedObject = .account entry.uid := by
      have fit := fits entry mem_cons_self
      cases kind : entry.referencedObject with
      | account uid =>
        rw [LadderEntry.Fits, kind] at fit
        exact congrArg _ fit.1
      | team teamid =>
        rw [LadderEntry.Fits, kind] at fit
        cases fit.2
    have loaded : loadValues known list (results entry) = { list with
        ladder := list.ladder ++ [{ entry with tertiary := 0, rank := 0 }]
        dirty := true } := by
      simp [loadValues, results, exist entry mem_cons_self, addEntry, own,
        LadderReferencedObject.getReferenceType, object]
    rw [map_cons, foldl_cons, loaded]
    refine (ih ?_ (fun other member => fits other (mem_cons_of_mem entry member))
      (fun other member => exist other (mem_cons_of_mem entry member))).trans ?_
    · exact own
    · simp

theorem load_unfitting {list : LadderList} (other : list.referenceType ≠ .account)
    (records : List (List UInt32)) : records.foldl (loadValues known) list = list := by
  induction records with
  | nil => rfl
  | cons record rest ih =>
    have skipped : loadValues known list record = list := by
      unfold loadValues addEntry
      split
      · simp [LadderReferencedObject.getReferenceType, other]
      · rfl
    rw [foldl_cons, skipped, ih]

theorem image_length : (image entries).length = 8 + 16 * entries.length := by
  have sized : ∀ record ∈ entries.map results, record.length = 4 := by
    simp [results]
  rw [image_words, writedata_length, length_cons, length_append,
    flatMap, records_length _ sized, length_map, length_singleton]
  omega

theorem load_image (few : entries.length < 2 ^ 28) :
    loadBinary known list (some (image entries)) =
      (true, (entries.map results).foldl (loadValues known) list) := by
  have size : (image entries).length % 4294967296 = 8 + 16 * (entries.map results).length := by
    rw [image_length, length_map]
    omega
  rw [load_words known magick _ (entries.map results) (by simp [results]) [] list _
    (by rw [image_words, append_nil, flatMap]) size]
  simp

theorem values_kept :
    (entries.map fun entry => ({ entry with tertiary := 0, rank := 0 } : LadderEntry)).map
        LadderEntry.values = entries.map LadderEntry.values ↔
      ∀ entry ∈ entries, entry.tertiary = 0 := by
  rw [map_map, map_inj_left]
  refine forall_congr' fun entry => forall_congr' fun _ => ?_
  constructor
  · intro same
    exact (congrArg LadderEntry.tertiary same).symm
  · intro zero
    simp [LadderEntry.values, zero]

theorem save_binary_image {list : LadderList} {file : Option (List UInt8)}
    (stored : list.saved = true → file = some (image list.ladder)) :
    (saveBinary list file).1.ladder = list.ladder ∧
      (saveBinary list file).2 = some (image list.ladder) := by
  unfold saveBinary
  split
  · next saved => exact ⟨rfl, stored saved⟩
  · exact ⟨rfl, rfl⟩

/-- A saved ladder comes back with the same entries exactly when it is empty, or refers to
accounts, has no tertiary value and fits the size of a file. A file whose checksum is not the sum
of its words is rejected, up to a size of 32 bits. -/
theorem load_saved_iff (list : LadderList) (file : Option (List UInt8))
    (stored : list.saved = true → file = some (image list.ladder))
    (fits : ∀ entry ∈ list.ladder, entry.Fits list.referenceType)
    (exist : list.referenceType = .account → ∀ entry ∈ list.ladder, known entry.uid = true) :
    (((loadBinary known (create list.ladderKey list.referenceType) (saveBinary list file).2).1 =
          true ∧
        Reloaded list (loadBinary known (create list.ladderKey list.referenceType)
          (saveBinary list file).2).2) ↔
      list.ladder = [] ∨ list.referenceType = .account ∧
        (∀ entry ∈ list.ladder, entry.tertiary = 0) ∧ list.ladder.length < 2 ^ 28) ∧
    ∀ first stored entries, stored ≠ addWords 0 entries →
      let bytes := writedata (first :: (entries ++ [stored]))
      let (accepted, loaded) := loadBinary known (create list.ladderKey list.referenceType)
        (some bytes)
      (accepted = false ∧ loaded.ladder = [] ↔
        bytes.length < 4294967296 ∨ ¬ Intact (bytes.take (bytes.length % 4294967296))) := by
  constructor
  · rw [(save_binary_image stored).2, reloaded_iff]
    by_cases few : list.ladder.length < 2 ^ 28
    · rw [load_image known _ _ few]
      by_cases own : list.referenceType = .account
      · rw [own] at fits ⊢
        rw [load_fitting known rfl list.ladder fits (exist own), create, nil_append, values_kept]
        constructor
        · rintro ⟨_, zero⟩
          exact Or.inr ⟨rfl, zero, few⟩
        · rintro (empty | ⟨_, zero, _⟩)
          · simp [empty]
          · exact ⟨rfl, zero⟩
      · rw [@load_unfitting known (create list.ladderKey list.referenceType) own]
        constructor
        · rintro ⟨_, same⟩
          exact Or.inl (map_eq_nil_iff.mp same.symm)
        · rintro (empty | ⟨account, _⟩)
          · simp [empty, create]
          · exact absurd account own
    · have size : (image list.ladder).length % 4294967296 =
          8 + 16 * (list.ladder.length % 268435456) := by
        rw [image_length]
        omega
      have most := load_length known (create list.ladderKey list.referenceType) _ _ size
      constructor
      · rintro ⟨_, same⟩
        have lengths := congrArg List.length same
        rw [length_map, length_map] at lengths
        rw [lengths, create, length_nil] at most
        omega
      · rintro (empty | ⟨_, _, short⟩)
        · exact absurd (by simp [empty]) few
        · exact absurd short few
  · intro first stored entries mismatch bytes
    have accepts := load_accepts_iff known (create list.ladderKey list.referenceType) bytes
    have rejects := load_rejected known (create list.ladderKey list.referenceType) (some bytes) rfl
    constructor
    · rintro ⟨rejected, _⟩
      exact Or.inr fun whole => Bool.false_ne_true (rejected.symm.trans (accepts.mpr whole))
    intro short
    have unread : ¬ Intact (bytes.take (bytes.length % 4294967296)) := by
      rcases short with small | unread
      · rw [mod_eq_of_lt small, take_length]
        exact mismatched_not_intact first stored entries mismatch
      · exact unread
    have rejected := Bool.eq_false_iff.mpr (mt accepts.mp unread)
    exact ⟨rejected, rejects rejected⟩

/-- One entry without a tertiary value, and a file whose checksum should be 6. -/
theorem load_saved_iff_normal :
    let list := addEntry (create starRatings .account) 7 1500 12 0 (.account 7)
    (((loadBinary (fun _ => true) (create starRatings .account) (saveBinary list none).2).1 = true ∧
        Reloaded list (loadBinary (fun _ => true) (create starRatings .account)
          (saveBinary list none).2).2) ↔
      list.ladder = [] ∨ list.referenceType = .account ∧
        (∀ entry ∈ list.ladder, entry.tertiary = 0) ∧ list.ladder.length < 2 ^ 28) ∧
    let bytes := writedata (magick :: ([1, 2, 3, 0] ++ [5]))
    let (accepted, loaded) := loadBinary (fun _ => true) (create starRatings .account) (some bytes)
    (accepted = false ∧ loaded.ladder = [] ↔
      bytes.length < 4294967296 ∨ ¬ Intact (bytes.take (bytes.length % 4294967296))) := by
  intro list
  have fits : ∀ entry ∈ list.ladder, entry.Fits list.referenceType := by
    intro entry listed
    rw [show entry = ⟨7, 1500, 12, 0, 0, .account 7⟩ from mem_singleton.mp listed]
    exact ⟨rfl, rfl⟩
  have both := load_saved_iff (fun _ => true) list none (fun saved => absurd saved (by decide)) fits
    (fun _ _ _ => rfl)
  exact ⟨both.1, both.2 magick 5 [1, 2, 3, 0] (by decide)⟩

-- The ratio of a rating ladder is the tertiary value.
theorem saved_ratio_lost :
    let list := addEntry (create starRatings .account) 7 1500 12 640 (.account 7)
    let (accepted, loaded) := loadBinary (fun _ => true) (create starRatings .account)
      (saveBinary list none).2
    accepted = true ∧ loaded.ladder = [⟨7, 1500, 12, 0, 0, .account 7⟩] ∧
      ¬ Reloaded list loaded := by
  intro list
  have fits : ∀ entry ∈ list.ladder, entry.Fits .account := by
    intro entry listed
    rw [show entry = ⟨7, 1500, 12, 640, 0, .account 7⟩ from mem_singleton.mp listed]
    exact ⟨rfl, rfl⟩
  have loads : loadBinary (fun _ => true) (create starRatings .account) (saveBinary list none).2 =
      (true, (list.ladder.map results).foldl (loadValues fun _ => true)
        (create starRatings .account)) :=
    load_image _ _ _ (by decide)
  have entries := @load_fitting (fun _ => true) (create starRatings .account) rfl list.ladder fits
    (fun _ _ => rfl)
  rw [loads]
  refine ⟨rfl, entries, fun same => ?_⟩
  have kept := same.1
  have zero := (values_kept list.ladder).mp kept _ (mem_singleton.mpr rfl)
  exact absurd zero (by decide)

end Reload

end Pvpgn.LadderFile
