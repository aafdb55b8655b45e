import Pvpgn.DbsPacket
import Pvpgn.FileTable

/-!
The files under which the character database keeps an uploaded character (`dbspacket.cpp`). An
upload is written to a temporary file, the file under the save name becomes the backup, and the
temporary file takes its name.
-/

namespace Pvpgn.CharacterSave
open Stdio FileTable List Option Bool
open DbsPacket (bnIntGet d2charsaveChecksum d2charsaveChecksumOffset)

structure Directories where
  charsaveDir : Text
  charsaveBakDir : Text
  charinfoDir : Text
  charinfoBakDir : Text

/-- What the system does in one save: whether `fopen` works, how many bytes `fwrite` takes at a
position when it is given a number of them, and whether each of the two renamings works. -/
structure FileCalls where
  opened : Bool
  fwrite : Nat → Nat → Nat
  backedUp : Bool
  installed : Bool

/-- `"%s/%s"` -/
def inDirectory (dir name : Text) : Text := dir ++ 47 :: name

/-- `"%s/.%s.tmp"` -/
def temporary (dir name : Text) : Text := dir ++ 47 :: 46 :: (name ++ text ".tmp")

/-- The loop over `fwrite`, with its unsigned short counters; whether it ends without an error. -/
def fwriteLoop (calls : FileCalls) (filename data : Text) : Nat → UInt16 → UInt16 →
    Files Text UInt8 → Option (Bool × Files Text UInt8)
  | 0, _, _, _ => none
  | rounds + 1, curlen, leftlen, files =>
    if curlen.toNat < data.length then
      let writelen := if 2000 < leftlen then 2000 else leftlen
      let readlen := min (calls.fwrite curlen.toNat writelen.toNat) writelen.toNat
      if readlen = 0 then some (false, files)
      else
        let bytes := (data.drop curlen.toNat).take readlen
        fwriteLoop calls filename data rounds (curlen + UInt16.ofNat readlen)
          (leftlen - UInt16.ofNat readlen) (append files filename bytes)
    else some (true, files)

/-- The two renamings. That the backup fails is only logged. -/
def replaceFile (calls : FileCalls) (filename savefile bakfile data : Text)
    (files : Files Text UInt8) : Nat × Files Text UInt8 :=
  let backed := rename calls.backedUp files savefile bakfile
  let renamed := rename calls.installed backed.2 filename savefile
  if renamed.1 = -1 then (0, renamed.2) else (data.length, renamed.2)

/-- The part that both functions share, from `fopen` on. -/
def saveFile (rounds : Nat) (calls : FileCalls) (filename savefile bakfile data : Text)
    (files : Files Text UInt8) : Option (Nat × Files Text UInt8) :=
  if !calls.opened then some (0, files)
  else
    (fwriteLoop calls filename data rounds 0 (UInt16.ofNat data.length)
      (create files filename)).map fun (written, files) =>
        if written then replaceFile calls filename savefile bakfile data files else (0, files)

/-- `data` points into a buffer, where the header may lie behind the upload. -/
def dbsPacketSavedataCharsave (rounds : Nat) (dirs : Directories) (calls : FileCalls)
    (charName data : Text) (datalen : Nat) (files : Files Text UInt8) :
    Option (Nat × Files Text UInt8) :=
  let charName := charName.map tolower
  let checksumHeader := bnIntGet data d2charsaveChecksumOffset
  let checksumCalc := d2charsaveChecksum (data.take datalen) d2charsaveChecksumOffset
  if checksumHeader ≠ checksumCalc then some (0, files)
  else
    saveFile rounds calls (temporary dirs.charsaveDir charName)
      (inDirectory dirs.charsaveDir charName) (inDirectory dirs.charsaveBakDir charName)
      (data.take datalen) files

/-- A directory for the backup is made before if there is none, which changes no file. -/
def dbsPacketSavedataCharinfo (rounds : Nat) (dirs : Directories) (calls : FileCalls)
    (accountName charName data : Text) (datalen : Nat) (files : Files Text UInt8) :
    Option (Nat × Files Text UInt8) :=
  let accountName := accountName.map tolower
  let charName := charName.map tolower
  let dir := inDirectory dirs.charinfoDir accountName
  saveFile rounds calls (temporary dir charName) (inDirectory dir charName)
    (inDirectory (inDirectory dirs.charinfoBakDir accountName) charName) (data.take datalen) files

section Names

theorem no_shifted_suffix {Item : Type} (x : Item) (part : List Item) (some_part : part ≠ [])
    (absent : x ∉ part) (list : List Item) : ¬x :: list <:+ list ++ part := by
  -- Induction on the length: behind a long list, its own end is such a list again.
  induction count : list.length using Nat.strong_induction_on generalizing list with
  | _ length ih =>
    intro ends
    have partEnds : part <:+ list ++ part := suffix_append list part
    by_cases short : list.length < part.length
    · have inside := suffix_of_suffix_length_le ends partEnds (by
        rw [length_cons]
        omega)
      exact absent (inside.subset mem_cons_self)
    have listEnds := (suffix_cons x list).trans ends
    obtain ⟨front, rfl⟩ := suffix_of_suffix_length_le partEnds listEnds (by omega)
    have positive := length_pos_of_ne_nil some_part
    rw [length_append] at count
    apply ih front.length (by omega) front rfl
    obtain ⟨before, whole⟩ := ends
    have parts : (before ++ x :: front) ++ part = (front ++ part) ++ part := by
      rw [← whole]
      simp
    exact ⟨before, append_cancel_right parts⟩

theorem temporary_not_save (dir name : Text) : temporary dir name ≠ inDirectory dir name := by
  intro same
  have lengths := congrArg List.length same
  simp only [temporary, inDirectory, length_append, length_cons] at lengths
  omega

theorem temporary_not_backup (dir bakDir name : Text) :
    temporary dir name ≠ inDirectory bakDir name := by
  intro same
  refine no_shifted_suffix 47 (text ".tmp") (by decide) (by decide) name ?_
  have backup : 47 :: name <:+ inDirectory bakDir name := suffix_append bakDir _
  have ending : name ++ text ".tmp" <:+ temporary dir name :=
    ((suffix_cons 46 _).trans (suffix_cons 47 _)).trans (suffix_append dir _)
  exact suffix_of_suffix_length_le backup (same ▸ ending) (by
    rw [length_cons, length_append]
    exact Nat.add_le_add_left (by decide) _)

end Names

def FileCalls.writing (calls : FileCalls) : DbsPacket.FileWrite :=
  ⟨calls.opened, calls.fwrite, calls.installed⟩

section Writing
variable (calls : FileCalls) {filename data : Text}

theorem fwrite_loop_run (small : data.length < 65536) (rounds curlen : Nat)
    (inside : curlen ≤ data.length) (enough : data.length - curlen < rounds)
    (files : Files Text UInt8) (there : files filename = some (data.take curlen)) :
    ∃ after, fwriteLoop calls filename data rounds (UInt16.ofNat curlen)
        (UInt16.ofNat (data.length - curlen)) files =
          some (DbsPacket.fwriteLoop calls.writing data.length curlen, after) ∧
      (∀ other, other ≠ filename → after other = files other) ∧
      (DbsPacket.fwriteLoop calls.writing data.length curlen = true →
        after filename = some data) := by
  -- Each round appends what was taken, so that the file is the data up to `curlen`.
  induction rounds generalizing curlen files with
  | zero => omega
  | succ rounds ih =>
    have position : (UInt16.ofNat curlen).toNat = curlen := by
      exact Nat.mod_eq_of_lt (by omega)
    have left : (UInt16.ofNat (data.length - curlen)).toNat = data.length - curlen := by
      exact Nat.mod_eq_of_lt (by omega)
    have asked : (if 2000 < UInt16.ofNat (data.length - curlen) then (2000 : UInt16)
        else UInt16.ofNat (data.length - curlen)).toNat = min 2000 (data.length - curlen) := by
      split
      · next many =>
          rw [UInt16.lt_iff_toNat_lt, left] at many
          exact (Nat.min_eq_left (Nat.le_of_lt many)).symm
      · next few =>
          rw [UInt16.lt_iff_toNat_lt, left] at few
          rw [left]
          exact (Nat.min_eq_right (Nat.le_of_not_lt few)).symm
    rw [fwriteLoop, DbsPacket.fwriteLoop]
    dsimp only
    rw [position, asked]
    by_cases more : curlen < data.length
    · rw [if_pos more, if_pos more]
      obtain ⟨readlen, taken⟩ : ∃ readlen, min (calls.fwrite curlen
          (min 2000 (data.length - curlen))) (min 2000 (data.length - curlen)) = readlen :=
        ⟨_, rfl⟩
      have chunk : readlen ≤ data.length - curlen := by omega
      simp only [FileCalls.writing, taken]
      by_cases nothing : readlen = 0
      · rw [if_pos nothing, if_pos nothing]
        exact ⟨files, rfl, fun _ _ => rfl, fun wrong => absurd wrong false_ne_true⟩
      rw [if_neg nothing, if_neg nothing, ← UInt16.ofNat_add, ← UInt16.ofNat_sub chunk, Nat.sub_sub]
      have written : append files filename ((data.drop curlen).take readlen) filename =
          some (data.take (curlen + readlen)) := by
        rw [append_same files filename _ _ there, ← take_add]
      obtain ⟨after, ran, kept, whole⟩ := ih (curlen + readlen) (by omega) (by omega) _ written
      exact ⟨after, ran, fun other apart => by
        rw [kept other apart, append_other files _ apart], whole⟩
    · rw [if_neg more, if_neg more]
      refine ⟨files, rfl, fun _ _ => rfl, fun _ => ?_⟩
      rw [there, take_of_length_le (by omega)]

end Writing

/-- A save that ends says by its value whether the upload is the file under the save name, and
leaves the file when it says no. -/
def Faithful (savefile data : Text) (files : Files Text UInt8)
    (saved : Option (Nat × Files Text UInt8)) : Prop :=
  ∃ result after, saved = some (result, after) ∧
    (result ≠ 0 → after savefile = some data) ∧ (result = 0 → after savefile = files savefile)

/-- All is written, and then a file with a backup is not replaced, or an empty upload replaces one:
the value is 0 as after an error. -/
def Loses (calls : FileCalls) (savefile bakfile data : Text) (files : Files Text UInt8) : Prop :=
  calls.opened = true ∧ DbsPacket.fwriteLoop calls.writing data.length 0 = true ∧
    if calls.installed then data = [] ∧ files savefile ≠ some []
    else calls.backedUp = true ∧ bakfile ≠ savefile ∧ files savefile ≠ none

section Saves
variable (calls : FileCalls) {filename savefile bakfile data : Text} (files : Files Text UInt8)

theorem faithful_some (result : Nat) (after : Files Text UInt8) :
    Faithful savefile data files (some (result, after)) ↔
      (result ≠ 0 → after savefile = some data) ∧
        (result = 0 → after savefile = files savefile) := by
  constructor
  · rintro ⟨_, _, same, right⟩
    obtain ⟨rfl, rfl⟩ := Prod.mk.inj (some.inj same)
    exact right
  · exact fun right => ⟨result, after, rfl, right⟩

theorem replace_installed (installed : calls.installed = true) (fromSave : filename ≠ savefile)
    (fromBackup : filename ≠ bakfile) (whole : files filename = some data) :
    (replaceFile calls filename savefile bakfile data files).1 = data.length ∧
      (replaceFile calls filename savefile bakfile data files).2 savefile = some data := by
  have waits : (rename calls.backedUp files savefile bakfile).2 filename = some data := by
    rw [rename_other calls.backedUp files fromSave fromBackup, whole]
  have there : (rename calls.backedUp files savefile bakfile).2 filename ≠ none := by
    rw [waits]
    exact some_ne_none data
  rw [replaceFile, installed, rename_works _ there]
  exact ⟨rfl, by rw [← waits]; exact move_new _⟩

variable (filename savefile bakfile data) in
theorem replace_missed (missed : calls.installed = false) :
    (replaceFile calls filename savefile bakfile data files).1 = 0 ∧
      ((replaceFile calls filename savefile bakfile data files).2 savefile = files savefile ↔
        ¬(calls.backedUp = true ∧ bakfile ≠ savefile ∧ files savefile ≠ none)) := by
  rw [replaceFile, missed, rename_fails]
  refine ⟨rfl, ?_⟩
  change (rename calls.backedUp files savefile bakfile).2 savefile = files savefile ↔ _
  unfold rename
  by_cases moved : calls.backedUp = true ∧ files savefile ≠ none
  · rw [if_pos moved]
    by_cases apart : bakfile = savefile
    · rw [move, if_pos apart.symm]
      exact iff_of_true rfl fun lost => lost.2.1 apart
    have gone : move files savefile bakfile savefile = none := move_old files (Ne.symm apart)
    dsimp only
    rw [gone]
    exact iff_of_false (Ne.symm moved.2) fun kept => kept ⟨moved.1, apart, moved.2⟩
  · rw [if_neg moved]
    exact iff_of_true rfl fun lost => moved ⟨lost.1, lost.2.2⟩

theorem replace_iff (written : Files Text UInt8) (fromSave : filename ≠ savefile)
    (fromBackup : filename ≠ bakfile) (same : written savefile = files savefile)
    (whole : written filename = some data) :
    Faithful savefile data files (some (replaceFile calls filename savefile bakfile data written)) ↔
      ¬if calls.installed then data = [] ∧ files savefile ≠ some []
        else calls.backedUp = true ∧ bakfile ≠ savefile ∧ files savefile ≠ none := by
  rw [← Prod.mk.eta (p := replaceFile calls filename savefile bakfile data written), faithful_some]
  by_cases installed : calls.installed = true
  · obtain ⟨value, now⟩ := replace_installed calls written installed fromSave fromBackup whole
    rw [value, now, if_pos installed, and_iff_right fun _ => rfl]
    constructor
    · rintro kept ⟨rfl, other⟩
      exact other (kept rfl).symm
    intro right nothing
    have empty : data = [] := eq_nil_of_length_eq_zero nothing
    by_contra changed
    exact right ⟨empty, fun was => changed (by rw [was, empty])⟩
  · obtain ⟨value, kept⟩ := replace_missed calls filename savefile bakfile data written
      (eq_false_of_not_eq_true installed)
    rw [value, if_neg installed, ← same, ← kept]
    exact ⟨fun right => right.2 rfl, fun stays => ⟨fun wrong => absurd rfl wrong, fun _ => stays⟩⟩

theorem save_file_iff (small : data.length < 65536) (rounds : Nat) (enough : data.length < rounds)
    (fromSave : filename ≠ savefile) (fromBackup : filename ≠ bakfile) :
    Faithful savefile data files (saveFile rounds calls filename savefile bakfile data files) ↔
      ¬Loses calls savefile bakfile data files := by
  unfold saveFile Loses
  by_cases opened : calls.opened = true
  · obtain ⟨after, ran, kept, whole⟩ := fwrite_loop_run calls small rounds 0 (Nat.zero_le _)
      (by omega) (create files filename) (create_same files filename)
    have same : after savefile = files savefile := by
      rw [kept savefile (Ne.symm fromSave), create_other files (Ne.symm fromSave)]
    have start : fwriteLoop calls filename data rounds 0 (UInt16.ofNat data.length)
        (create files filename) = _ := ran
    rw [opened, if_neg (by decide), start, map_some]
    by_cases written : DbsPacket.fwriteLoop calls.writing data.length 0 = true
    · rw [written]
      refine (replace_iff calls files after fromSave fromBackup same (whole written)).trans ?_
      rw [and_iff_right rfl, and_iff_right rfl]
    · rw [eq_false_of_not_eq_true written]
      refine iff_of_true ⟨0, after, rfl, fun wrong => absurd rfl wrong, fun _ => same⟩ ?_
      rintro ⟨-, wrong, -⟩
      exact false_ne_true wrong
  · rw [eq_false_of_not_eq_true opened, if_pos (by decide)]
    refine iff_of_true ⟨0, files, rfl, fun wrong => absurd rfl wrong, fun _ => rfl⟩ ?_
    rintro ⟨wrong, -⟩
    exact false_ne_true wrong

end Saves

section Requests
variable (dirs : Directories) (calls : FileCalls) (files : Files Text UInt8)
  (accountName charName data : Text) (datalen : Nat)

def charsaveFile : Text := inDirectory dirs.charsaveDir (charName.map tolower)
def charsaveBackup : Text := inDirectory dirs.charsaveBakDir (charName.map tolower)

def charinfoFile : Text :=
  inDirectory (inDirectory dirs.charinfoDir (accountName.map tolower)) (charName.map tolower)

def charinfoBackup : Text :=
  inDirectory (inDirectory dirs.charinfoBakDir (accountName.map tolower)) (charName.map tolower)

/-- The upload of a charsave carries its checksum. -/
def checksumRight : Prop :=
  bnIntGet data d2charsaveChecksumOffset =
    d2charsaveChecksum (data.take datalen) d2charsaveChecksumOffset

/-- Both functions tell by their value what became of the file, unless the save loses it. -/
theorem savedata_faithful_iff (inside : datalen ≤ data.length) (small : datalen < 65536)
    (rounds : Nat) (enough : datalen < rounds) :
    (Faithful (charsaveFile dirs charName) (data.take datalen) files
        (dbsPacketSavedataCharsave rounds dirs calls charName data datalen files) ↔
      ¬(checksumRight data datalen ∧ Loses calls (charsaveFile dirs charName)
        (charsaveBackup dirs charName) (data.take datalen) files)) ∧
    (Faithful (charinfoFile dirs accountName charName) (data.take datalen) files
        (dbsPacketSavedataCharinfo rounds dirs calls accountName charName data datalen files) ↔
      ¬Loses calls (charinfoFile dirs accountName charName)
        (charinfoBackup dirs accountName charName) (data.take datalen) files) := by
  have count : (data.take datalen).length = datalen := by
    rw [length_take]
    exact Nat.min_eq_left inside
  have few : (data.take datalen).length < 65536 := by rw [count]; exact small
  have more : (data.take datalen).length < rounds := by rw [count]; exact enough
  constructor
  · unfold dbsPacketSavedataCharsave checksumRight
    by_cases right : bnIntGet data d2charsaveChecksumOffset =
        d2charsaveChecksum (data.take datalen) d2charsaveChecksumOffset
    · rw [and_iff_right right]
      rw [if_neg (not_not_intro right)]
      exact save_file_iff calls files few rounds more (temporary_not_save _ _)
        (temporary_not_backup _ _ _)
    · rw [if_pos right]
      refine iff_of_true ?_ fun lost => right lost.1
      exact ⟨0, files, rfl, fun wrong => absurd rfl wrong, fun _ => rfl⟩
  · exact save_file_iff calls files few rounds more (temporary_not_save _ _)
      (temporary_not_backup _ _ _)

end Requests

def exampleDirectories : Directories where
  charsaveDir := text "save"
  charsaveBakDir := text "bak"
  charinfoDir := text "info"
  charinfoBakDir := text "infobak"

def workingCalls : FileCalls where
  opened := true
  fwrite := fun _ _ => 10
  backedUp := true
  installed := true

theorem new_character_saved :
    Faithful (charsaveFile exampleDirectories (text "Ama")) (replicate 16 0) (fun _ => none)
      (dbsPacketSavedataCharsave 17 exampleDirectories workingCalls (text "Ama")
        (replicate 20 0) 16 fun _ => none) ∧
    Faithful (charinfoFile exampleDirectories (text "Joe") (text "Ama")) (replicate 16 0)
      (fun _ => none)
      (dbsPacketSavedataCharinfo 17 exampleDirectories workingCalls (text "Joe") (text "Ama")
        (replicate 20 0) 16 fun _ => none) := by
  obtain ⟨charsave, charinfo⟩ := savedata_faithful_iff exampleDirectories workingCalls
    (fun _ => none) (text "Joe") (text "Ama") (replicate 20 0) 16 (by decide) (by decide) 17
    (by decide)
  refine ⟨charsave.mpr ?_, charinfo.mpr ?_⟩
  · rintro ⟨-, -, -, lost⟩
    exact absurd lost.1 (by decide)
  · rintro ⟨-, -, lost⟩
    exact absurd lost.1 (by decide)

/-- When the temporary file cannot be renamed, the character that was saved before is gone. -/
theorem backup_loses_save :
    ¬Faithful (charsaveFile exampleDirectories (text "Ama")) (replicate 16 0)
      (fun name => if name = text "save/ama" then some [1] else none)
      (dbsPacketSavedataCharsave 17 exampleDirectories { workingCalls with installed := false }
        (text "Ama") (replicate 16 0) 16
        fun name => if name = text "save/ama" then some [1] else none) := by
  rintro ⟨result, after, ran, -, kept⟩
  have lost : (dbsPacketSavedataCharsave 17 exampleDirectories { workingCalls with
      installed := false } (text "Ama") (replicate 16 0) 16
      fun name => if name = text "save/ama" then some [1] else none).map
        (fun saved => (saved.1, saved.2 (charsaveFile exampleDirectories (text "Ama")))) =
      some (0, none) := by decide
  rw [ran] at lost
  obtain ⟨rfl, gone⟩ := Prod.mk.inj (some.inj lost)
  exact absurd (gone.symm.trans (kept rfl)) (by decide)

end Pvpgn.CharacterSave
