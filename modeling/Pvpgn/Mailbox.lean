import Pvpgn.IrcNames

/-!
The mail of an account (`mail.cpp`, `pdir.cpp`). A message is a file that is named by the second of
its delivery, and its index is its place in a scan of the directory, which each operation makes
again. The order of a scan is the directory's own, and may change whenever a file comes or goes.
-/

namespace Pvpgn.Mailbox
open Stdio TextUtil List Option

structure Entry where
  name : Text
  readable : Bool
  content : Text
  deriving DecidableEq

/-- The files of a directory in the order of a scan, without `.` and `..`. -/
structure Directory where
  entries : List Entry
  distinct : (entries.map Entry.name).Nodup

structure Arrangement where
  arrange : List Entry → List Entry
  perm : ∀ entries, (arrange entries).Perm entries

structure Mail where
  sender : Text
  message : Text
  timestamp : Int
  deriving DecidableEq

/-- The directory of the mailbox, if there is one, and for each opening whether its own directory
stream is open. -/
structure State where
  directory : Option Directory
  mailboxes : List Bool

def dot : UInt8 := 46

def hidden (entry : Entry) : Bool := entry.name.head? = some dot

theorem distinct_arranged (arrangement : Arrangement) {entries : List Entry}
    (distinct : (entries.map Entry.name).Nodup) :
    ((arrangement.arrange entries).map Entry.name).Nodup :=
  ((arrangement.perm entries).map Entry.name).nodup_iff.mpr distinct

def overwrite (name content : Text) (entry : Entry) : Entry :=
  if entry.name = name then { entry with content } else entry

theorem overwrite_names (name content : Text) (entries : List Entry) :
    (entries.map (overwrite name content)).map Entry.name = entries.map Entry.name := by
  rw [List.map_map]
  apply map_congr_left
  intro entry _
  simp only [Function.comp_apply, overwrite]
  split <;> rfl

/-- `std::ofstream` truncates a file that exists. -/
def Directory.write (directory : Directory) (name content : Text) (arrangement : Arrangement) :
    Directory :=
  if present : name ∈ directory.entries.map Entry.name then
    ⟨directory.entries.map (overwrite name content), by
      rw [overwrite_names]
      exact directory.distinct⟩
  else
    ⟨arrangement.arrange (⟨name, true, content⟩ :: directory.entries), by
      apply distinct_arranged
      exact nodup_cons.mpr ⟨present, directory.distinct⟩⟩

def Directory.remove (directory : Directory) (name : Text) (arrangement : Arrangement) :
    Directory where
  entries := arrangement.arrange (directory.entries.filter fun entry => entry.name ≠ name)
  distinct := distinct_arranged arrangement
    (directory.distinct.sublist (filter_sublist.map Entry.name))

def noFiles : Directory := ⟨[], nodup_nil⟩

/-- What the directory stream of an opening reads. A stream that could not be opened has no end
to read, and `read` gives NULL at once. -/
def scanned (state : State) (mailbox : Nat) : List Entry :=
  if state.mailboxes[mailbox]? = some true then
    (state.directory.map Directory.entries).getD []
  else []

def size (state : State) (mailbox : Nat) : UInt32 := UInt32.ofNat (scanned state mailbox).length

/-- The file name: the time in 15 digits. -/
def stamp (time : UInt64) : Text := zeroPadded 15 (unsigned time.toNat)

/-- `getline` up to a newline, and what is left. -/
def getline (input : Text) : Text × Text :=
  (input.takeWhile (· ≠ newline), (input.dropWhile (· ≠ newline)).tail)

def mailOf (entry : Entry) : Mail where
  sender := (getline entry.content).1
  message := (getline (getline entry.content).2).1
  timestamp := (IrcNames.atoi entry.name).toInt32.toInt

/-- What an operation gives: `failed` is an exception. -/
inductive Outcome where
  | done
  | failed
  | count (count : UInt32)
  | mail (mail : Mail)
  | mails (mails : List Mail)
  deriving DecidableEq

/-- What the file system allows: a directory to be made and to be opened, a file to be opened. -/
structure Permission where
  makes : Bool
  lists : Bool
  opens : Bool

/-- `p_mkdir`, whose result is not looked at. -/
def madeDir (directory : Option Directory) (makes : Bool) : Option Directory :=
  if makes then some (directory.getD noFiles) else directory

/-- `createOpenDir`, with whether the directory was opened. -/
def createOpenDir (state : State) (mailbox : Nat) (permission : Permission) : State × Bool :=
  let directory := madeDir state.directory permission.makes
  if directory.isSome && permission.lists then
    ({ directory, mailboxes := state.mailboxes.set mailbox true }, true)
  else ({ state with directory }, false)

def openedDir (state : State) (mailbox : Nat) (permission : Permission) : State × Bool :=
  if state.mailboxes[mailbox]? = some true then (state, true)
  else createOpenDir state mailbox permission

def written (sender mess : Text) : Text := sender ++ newline :: mess ++ [newline]

def storeFile (arrangement : Arrangement) (state : State) (name content : Text) : State :=
  { state with directory := state.directory.map fun directory =>
      directory.write name content arrangement }

def deliver (state : State) (mailbox : Nat) (time : UInt64) (sender mess : Text)
    (permission : Permission) (arrangement : Arrangement) : State × Outcome :=
  let (state, opened) := openedDir state mailbox permission
  if opened && permission.opens then
    (storeFile arrangement state (stamp time) (written sender mess), .done)
  else (state, .failed)

/-- The loop of `read` and `erase` behind the first file, with the number of files to go. -/
def locateLoop : List Entry → Option Entry → Nat → Option Entry
  | _, dentry, 0 => dentry
  | [], _, _ + 1 => none
  | entry :: rest, _, left + 1 =>
    locateLoop rest (some entry) (if hidden entry then left + 1 else left)

def locate (entries : List Entry) (idx : Nat) : Option Entry :=
  locateLoop entries.tail entries.head? idx

def readFile (entry : Entry) : Option Mail := if entry.readable then some (mailOf entry) else none

def read (state : State) (mailbox idx : Nat) : Outcome :=
  match (locate (scanned state mailbox) idx).bind readFile with
  | some mail => .mail mail
  | none => .failed

/-- A file that cannot be read is passed over. -/
def readAll (state : State) (mailbox : Nat) : List Mail :=
  ((scanned state mailbox).filter fun entry => !hidden entry).filterMap readFile

def removeFile (arrangement : Arrangement) (state : State) (entry : Entry) : State :=
  { state with directory := state.directory.map fun directory =>
      directory.remove entry.name arrangement }

/-- `removes` is whether the file can be removed. -/
def erase (state : State) (mailbox idx : Nat) (removes : Bool) (arrangement : Arrangement) :
    State :=
  match locate (scanned state mailbox) idx with
  | none => state
  | some entry => if removes then removeFile arrangement state entry else state

/-- `removes` says which files can be removed. -/
def clear (state : State) (mailbox : Nat) (removes : Entry → Bool) (arrangement : Arrangement) :
    State :=
  (scanned state mailbox).foldl (fun state entry =>
    if removes entry then removeFile arrangement state entry else state) state

inductive Event where
  | openMailbox
  | deliver (mailbox : Nat) (time : UInt64) (sender mess : Text) (permission : Permission)
      (arrangement : Arrangement)
  | erase (mailbox idx : Nat) (removes : Bool) (arrangement : Arrangement)
  | clear (mailbox : Nat) (removes : Entry → Bool) (arrangement : Arrangement)
  | read (mailbox idx : Nat)
  | readAll (mailbox : Nat)
  | size (mailbox : Nat)

def step (state : State) : Event → State × Outcome
  | .openMailbox =>
    ({ state with mailboxes := state.mailboxes ++ [state.directory.isSome] }, .done)
  | .deliver mailbox time sender mess permission arrangement =>
    deliver state mailbox time sender mess permission arrangement
  | .erase mailbox idx removes arrangement => (erase state mailbox idx removes arrangement, .done)
  | .clear mailbox removes arrangement => (clear state mailbox removes arrangement, .done)
  | .read mailbox idx => (state, read state mailbox idx)
  | .readAll mailbox => (state, .mails (readAll state mailbox))
  | .size mailbox => (state, .count (size state mailbox))

def run (state : State) (events : List Event) : State :=
  events.foldl (fun state event => (step state event).1) state

def files (state : State) : List Entry := (state.directory.map Directory.entries).getD []

def messages (state : State) : List Mail := (files state).map mailOf

/-- A delivery adds one message, and only an erasure or a clearing takes messages away. An index is
the place of a message in what `readAll` lists. -/
def Correct (before : State) (event : Event) (after : State) (outcome : Outcome) : Prop :=
  match event with
  | .openMailbox => files after = files before
  | .deliver _ _ sender mess _ _ =>
    (outcome = .done ∧ ∃ file, (files after).Perm (file :: files before) ∧
      (newline ∉ sender → newline ∉ mess →
        (mailOf file).sender = sender ∧ (mailOf file).message = mess)) ∨
    (outcome = .failed ∧ files after = files before)
  | .erase _ idx removes _ =>
    if idx < (messages before).length ∧ removes = true then
      (files after).Perm ((files before).eraseIdx idx)
    else files after = files before
  | .clear _ removes _ => (files after).Perm ((files before).filter fun file => !removes file)
  | .read _ idx =>
    files after = files before ∧ outcome = ((messages before)[idx]?.map Outcome.mail).getD .failed
  | .readAll _ => files after = files before ∧ outcome = .mails (messages before)
  | .size _ =>
    files after = files before ∧
      ∃ count, outcome = .count count ∧ count.toNat = (messages before).length

/-- An opening whose directory stream is not open only as long as there is no directory. -/
def Listening (state : State) (mailbox : Nat) : Prop :=
  state.mailboxes[mailbox]? = some true ∨ state.directory = none

/-- No delivery in a second of which there is a file, and no other use of an opening from before the
directory was made. -/
def Careful (state : State) : Event → Prop
  | .openMailbox => True
  | .deliver _ time _ _ _ _ => stamp time ∉ (files state).map Entry.name
  | .erase mailbox _ _ _ => Listening state mailbox
  | .clear mailbox _ _ => Listening state mailbox
  | .read mailbox _ => Listening state mailbox
  | .readAll mailbox => Listening state mailbox
  | .size mailbox => Listening state mailbox ∧ (files state).length < 2 ^ 32

structure Tidy (state : State) : Prop where
  plain : ∀ entry ∈ files state, entry.readable = true ∧ hidden entry = false
  listed : ∀ mailbox : Nat, state.mailboxes[mailbox]? = some true → state.directory.isSome

section Steps
variable {state : State} {mailbox idx : Nat} {entries : List Entry} {entry : Entry}

theorem scanned_files (listening : Listening state mailbox) :
    scanned state mailbox = files state := by
  rcases listening with opened | none
  · exact if_pos opened
  · rw [scanned, files, none]
    split <;> rfl

theorem locate_loop_plain (plain : ∀ entry ∈ entries, hidden entry = false) (dentry : Option Entry)
    (left : Nat) : locateLoop entries dentry (left + 1) = entries[left]? := by
  induction entries generalizing dentry left with
  | nil => simp [locateLoop]
  | cons entry rest ih =>
    obtain ⟨own, others⟩ := forall_mem_cons.mp plain
    rw [locateLoop, own]
    cases left with
    | zero => cases rest <;> rfl
    | succ left => exact ih others _ left

theorem locate_plain (plain : ∀ entry ∈ entries, hidden entry = false) (idx : Nat) :
    locate entries idx = entries[idx]? := by
  cases entries with
  | nil => cases idx <;> rfl
  | cons entry rest =>
    cases idx with
    | zero => cases rest <;> rfl
    | succ idx => exact locate_loop_plain (forall_mem_cons.mp plain).2 _ idx

theorem read_all_plain (tidy : Tidy state) (listening : Listening state mailbox) :
    readAll state mailbox = messages state := by
  have plain := tidy.plain
  rw [readAll, scanned_files listening, messages, filterMap_filter, ← filterMap_eq_map]
  apply filterMap_congr
  intro entry inside
  obtain ⟨readable, shown⟩ := plain entry inside
  simp [readFile, readable, shown]

theorem read_plain (tidy : Tidy state) (listening : Listening state mailbox) (idx : Nat) :
    read state mailbox idx = ((messages state)[idx]?.map Outcome.mail).getD .failed := by
  rw [read, scanned_files listening,
    locate_plain (fun entry inside => (tidy.plain entry inside).2), messages, getElem?_map]
  cases found : (files state)[idx]? with
  | none => rfl
  | some entry =>
    have readable := (tidy.plain entry (mem_of_getElem? found)).1
    simp [readFile, readable]

theorem filter_name (distinct : (entries.map Entry.name).Nodup)
    (found : entries[idx]? = some entry) :
    (entries.filter fun other => other.name ≠ entry.name) = entries.eraseIdx idx := by
  induction entries generalizing idx with
  | nil => cases found
  | cons first rest ih =>
    obtain ⟨apart, distinct⟩ := nodup_cons.mp distinct
    cases idx with
    | zero =>
      cases found
      have others : (rest.filter fun other => other.name ≠ entry.name) = rest := by
        rw [filter_eq_self]
        intro other inside
        rw [decide_eq_true_eq]
        exact fun same => apart (same ▸ mem_map_of_mem inside)
      rw [filter_cons_of_neg (by simp), others]
      rfl
    | succ idx =>
      have inside : entry ∈ rest := mem_of_getElem? found
      have differs : first.name ≠ entry.name := fun same =>
        apart (same ▸ mem_map_of_mem inside)
      rw [filter_cons_of_pos (by simpa using differs), ih distinct found]
      rfl

variable (arrangement : Arrangement) (removes : Entry → Bool) (scan : List Entry)

theorem files_remove (state : State) (entry : Entry) :
    (files (removeFile arrangement state entry)).Perm
      ((files state).filter fun other => other.name ≠ entry.name) := by
  cases there : state.directory with
  | none => simp [files, removeFile, there]
  | some directory =>
    simp only [files, removeFile, there]
    exact arrangement.perm _

theorem files_distinct (state : State) : ((files state).map Entry.name).Nodup := by
  rw [files]
  cases state.directory with
  | none => exact nodup_nil
  | some directory => exact directory.distinct

theorem files_clear (state : State) :
    (files (scan.foldl (fun state entry =>
        if removes entry then removeFile arrangement state entry else state) state)).Perm
      ((files state).filter fun file =>
        scan.all fun entry => !(removes entry && file.name = entry.name)) := by
  induction scan generalizing state with
  | nil => simp
  | cons entry rest ih =>
    rw [foldl_cons]
    refine (ih _).trans ?_
    split
    · rename_i removed
      refine ((files_remove arrangement state entry).filter _).trans ?_
      rw [List.filter_filter]
      apply Perm.of_eq
      apply filter_congr
      intro file _
      simp [removed, Bool.and_comm]
    · rename_i kept
      simp [kept]

theorem clear_files (distinct : (entries.map Entry.name).Nodup) (removes : Entry → Bool) :
    (entries.filter fun file => entries.all fun entry =>
        !(removes entry && file.name = entry.name)) =
      entries.filter fun file => !removes file := by
  apply filter_congr
  intro file inside
  rw [Bool.eq_iff_iff, List.all_eq_true, Bool.not_eq_true']
  constructor
  · intro all
    simpa using all file inside
  intro kept entry other
  by_cases same : file.name = entry.name
  · rw [← inj_on_of_nodup_map distinct inside other same, kept]
    rfl
  · simp [same]

theorem write_absent (directory : Directory) {name : Text} (content : Text)
    (arrangement : Arrangement) (absent : name ∉ directory.entries.map Entry.name) :
    (directory.write name content arrangement).entries.Perm
      (⟨name, true, content⟩ :: directory.entries) := by
  rw [Directory.write, dif_neg absent]
  exact arrangement.perm _

theorem getline_line (line rest : Text) (plain : newline ∉ line) :
    getline (line ++ newline :: rest) = (line, rest) := by
  have accepted : ∀ byte ∈ line, (decide (byte ≠ newline)) = true := by
    intro byte inside
    rw [decide_eq_true_eq]
    rintro rfl
    exact plain inside
  have stops : Stops (fun byte => decide (byte ≠ newline)) (newline :: rest) :=
    (stops_cons _ newline rest).mpr (by simp)
  rw [getline, take_run _ line _ accepted stops, drop_run _ line _ accepted stops]
  rfl

theorem mail_written (name sender mess : Text) (one : newline ∉ sender) (other : newline ∉ mess) :
    (mailOf ⟨name, true, written sender mess⟩).sender = sender ∧
      (mailOf ⟨name, true, written sender mess⟩).message = mess := by
  have first : getline (written sender mess) = (sender, mess ++ [newline]) := by
    rw [written, append_assoc]
    exact getline_line sender _ one
  have second := getline_line mess [] other
  simp only [mailOf, first, second]
  trivial

theorem stamp_shown (time : UInt64) (content : Text) :
    hidden ⟨stamp time, true, content⟩ = false := by
  have digits : ∀ byte ∈ stamp time, 48 ≤ byte := by
    intro byte inside
    rcases mem_append.mp inside with padding | digit
    · rw [eq_of_mem_replicate padding]
      exact UInt8.le_refl _
    · exact (unsigned_range time.toNat byte digit).1
  rw [hidden, decide_eq_false_iff_not]
  intro head
  exact absurd (digits dot (mem_of_mem_head? head)) (by decide)

theorem tidy_fewer {after : State} (tidy : Tidy state)
    (fewer : ∀ file ∈ files after, file ∈ files state)
    (mailboxes : after.mailboxes = state.mailboxes)
    (made : state.directory.isSome → after.directory.isSome) : Tidy after := by
  constructor
  · exact fun file inside => tidy.plain file (fewer file inside)
  · intro mailbox opened
    rw [mailboxes] at opened
    exact made (tidy.listed mailbox opened)

section
variable (tidy : Tidy state)
include tidy

theorem open_step :
    Tidy { state with mailboxes := state.mailboxes ++ [state.directory.isSome] } := by
  refine ⟨tidy.plain, fun mailbox opened => ?_⟩
  rw [getElem?_append] at opened
  split at opened
  · exact tidy.listed mailbox opened
  · obtain ⟨_, same⟩ := List.getElem?_eq_some_iff.mp opened
    simpa using same

theorem opened_dir (mailbox : Nat) (permission : Permission) :
    Tidy (openedDir state mailbox permission).1 ∧
      files (openedDir state mailbox permission).1 = files state ∧
      ((openedDir state mailbox permission).2 = true →
        (openedDir state mailbox permission).1.directory.isSome) := by
  have made : files { state with directory := madeDir state.directory permission.makes } =
      files state := by
    simp only [files, madeDir]
    cases permission.makes <;> cases state.directory <;> rfl
  rw [openedDir]
  split
  · rename_i opened
    exact ⟨tidy, rfl, fun _ => tidy.listed mailbox opened⟩
  simp only [createOpenDir]
  split
  · rename_i opened
    rw [Bool.and_eq_true] at opened
    refine ⟨⟨?_, fun _ _ => opened.1⟩, made, fun _ => opened.1⟩
    intro file inside
    exact tidy.plain file (made ▸ inside)
  refine ⟨⟨?_, ?_⟩, made, fun never => nomatch never⟩
  · intro file inside
    exact tidy.plain file (made ▸ inside)
  intro other opened
  have there := tidy.listed other opened
  cases permission.makes with
  | true => rfl
  | false => exact there

theorem deliver_step (mailbox : Nat) (time : UInt64) (sender mess : Text)
    (permission : Permission) (arrangement : Arrangement)
    (fresh : stamp time ∉ (files state).map Entry.name) :
    Tidy (deliver state mailbox time sender mess permission arrangement).1 ∧
      Correct state (.deliver mailbox time sender mess permission arrangement)
        (deliver state mailbox time sender mess permission arrangement).1
        (deliver state mailbox time sender mess permission arrangement).2 := by
  obtain ⟨kept, same, there⟩ := opened_dir tidy mailbox permission
  simp only [deliver]
  split
  · rename_i allowed
    rw [Bool.and_eq_true] at allowed
    obtain ⟨directory, present⟩ := isSome_iff_exists.mp (there allowed.1)
    have before : directory.entries = files state := by
      rw [← same, files, present]
      rfl
    have added := write_absent directory (written sender mess) arrangement (before ▸ fresh)
    rw [before] at added
    have after : files (storeFile arrangement (openedDir state mailbox permission).1 (stamp time)
        (written sender mess)) =
          (directory.write (stamp time) (written sender mess) arrangement).entries := by
      simp only [files, storeFile, present, map_some, getD_some]
    refine ⟨⟨?_, ?_⟩, .inl ⟨rfl, ⟨stamp time, true, written sender mess⟩, ?_,
      mail_written _ sender mess⟩⟩
    · intro file inside
      rw [after, added.mem_iff] at inside
      rcases mem_cons.mp inside with rfl | old
      · exact ⟨rfl, stamp_shown time _⟩
      · exact tidy.plain file old
    · intro other opened
      simp only [storeFile, present, map_some, isSome_some]
    · rw [after]
      exact added
  · exact ⟨kept, .inr ⟨rfl, same⟩⟩

theorem erase_step (listening : Listening state mailbox) (idx : Nat) (removes : Bool)
    (arrangement : Arrangement) :
    Tidy (erase state mailbox idx removes arrangement) ∧
      Correct state (.erase mailbox idx removes arrangement)
        (erase state mailbox idx removes arrangement) .done := by
  have length : (messages state).length = (files state).length := length_map _
  simp only [erase, Correct, scanned_files listening, length,
    locate_plain (fun entry inside => (tidy.plain entry inside).2)]
  cases found : (files state)[idx]? with
  | none =>
    have outside := getElem?_eq_none_iff.mp found
    refine ⟨tidy, ?_⟩
    rw [if_neg (by omega)]
  | some entry =>
    obtain ⟨inside, _⟩ := List.getElem?_eq_some_iff.mp found
    cases removes with
    | false => exact ⟨tidy, by simp⟩
    | true =>
      have removed := files_remove arrangement state entry
      refine ⟨tidy_fewer tidy ?_ rfl ?_, ?_⟩
      · intro file member
        exact (mem_filter.mp (removed.mem_iff.mp member)).1
      · intro there
        simpa [removeFile] using there
      · rw [if_pos ⟨inside, rfl⟩, ← filter_name (files_distinct state) found]
        exact removed

theorem clear_tidy :
    Tidy (scan.foldl (fun state entry =>
      if removes entry then removeFile arrangement state entry else state) state) := by
  induction scan generalizing state with
  | nil => exact tidy
  | cons entry rest ih =>
    rw [foldl_cons]
    apply ih
    split
    · refine tidy_fewer tidy ?_ rfl ?_
      · intro file member
        exact (mem_filter.mp ((files_remove arrangement state entry).mem_iff.mp member)).1
      · intro there
        simpa [removeFile] using there
    · exact tidy

theorem clear_step (listening : Listening state mailbox) (removes : Entry → Bool)
    (arrangement : Arrangement) :
    Tidy (clear state mailbox removes arrangement) ∧
      Correct state (.clear mailbox removes arrangement)
        (clear state mailbox removes arrangement) .done := by
  refine ⟨clear_tidy arrangement removes _ tidy, ?_⟩
  have cleared := files_clear arrangement removes (files state) state
  rw [clear_files (files_distinct state)] at cleared
  simp only [clear, scanned_files listening]
  exact cleared

theorem step_correct (event : Event) (careful : Careful state event) :
    Tidy (step state event).1 ∧ Correct state event (step state event).1 (step state event).2 := by
  cases event with
  | openMailbox => exact ⟨open_step tidy, rfl⟩
  | deliver mailbox time sender mess permission arrangement =>
    exact deliver_step tidy mailbox time sender mess permission arrangement careful
  | erase mailbox idx removes arrangement => exact erase_step tidy careful idx removes arrangement
  | clear mailbox removes arrangement => exact clear_step tidy careful removes arrangement
  | read mailbox idx => exact ⟨tidy, rfl, read_plain tidy careful idx⟩
  | readAll mailbox => exact ⟨tidy, rfl, congrArg Outcome.mails (read_all_plain tidy careful)⟩
  | size mailbox =>
    refine ⟨tidy, rfl, _, rfl, ?_⟩
    rw [size, scanned_files careful.1, messages, length_map, UInt32.toNat_ofNat',
      Nat.mod_eq_of_lt careful.2]

end

end Steps

def CarefulRun (state : State) (events : List Event) : Prop :=
  ∀ front event back, events = front ++ event :: back → Careful (run state front) event

theorem careful_nil (state : State) : CarefulRun state [] := by
  intro front event back same
  simp at same

theorem careful_cons (state : State) (event : Event) (rest : List Event) :
    CarefulRun state (event :: rest) ↔
      Careful state event ∧ CarefulRun (step state event).1 rest := by
  constructor
  · intro careful
    refine ⟨careful [] event rest rfl, fun front next back same => ?_⟩
    exact careful (event :: front) next back (by rw [same, cons_append])
  rintro ⟨own, later⟩ front next back same
  cases front with
  | nil =>
    cases same
    exact own
  | cons first front =>
    cases same
    exact later front next back rfl

theorem run_tidy {state : State} {events : List Event} (tidy : Tidy state)
    (careful : CarefulRun state events) : Tidy (run state events) := by
  induction events generalizing state with
  | nil => exact tidy
  | cons event rest ih =>
    obtain ⟨own, later⟩ := (careful_cons state event rest).mp careful
    exact ih (step_correct tidy event own).1 later

/-- In a careful run from a mailbox whose files are messages each operation does what it should. -/
theorem mail_kept (directory : Option Directory) (events : List Event)
    (tidy : Tidy ⟨directory, []⟩) (careful : CarefulRun ⟨directory, []⟩ events)
    (front back : List Event) (event : Event) (split : events = front ++ event :: back) :
    let before := run ⟨directory, []⟩ front
    Correct before event (step before event).1 (step before event).2 := by
  have first : CarefulRun ⟨directory, []⟩ front := by
    intro one other two same
    exact careful one other (two ++ event :: back) (by rw [split, same]; simp)
  exact (step_correct (run_tidy tidy first) event (careful front event back split)).2

def asCreated : Arrangement := ⟨id, fun entries => Perm.refl entries⟩

def allowed : Permission := ⟨true, true, true⟩

def fromAnn (time : UInt64) : Event := .deliver 0 time (text "Ann") (text "hello") allowed asCreated

def fromBob (time : UInt64) : Event := .deliver 0 time (text "Bob") (text "hi") allowed asCreated

theorem bob_read :
    (step (run ⟨none, []⟩ [.openMailbox, fromAnn 100, fromBob 101]) (.read 0 0)).2 =
      .mail ⟨text "Bob", text "hi", 101⟩ := by
  have careful : CarefulRun ⟨none, []⟩ [.openMailbox, fromAnn 100, fromBob 101, .read 0 0] := by
    simp only [careful_cons, careful_nil, and_true]
    refine ⟨trivial, ?_, ?_, .inl rfl⟩
    · exact not_mem_nil
    · change stamp 101 ∉ [stamp 100]
      decide +kernel
  have tidy : Tidy ⟨none, []⟩ := ⟨by simp [files], by simp⟩
  exact (mail_kept none _ tidy careful _ [] (.read 0 0) rfl).2.trans (by rfl)

/-- Two deliveries in one second leave one message. -/
theorem ann_lost :
    ¬ Correct (run ⟨none, []⟩ [.openMailbox, fromAnn 100]) (fromBob 100)
      (step (run ⟨none, []⟩ [.openMailbox, fromAnn 100]) (fromBob 100)).1
      (step (run ⟨none, []⟩ [.openMailbox, fromAnn 100]) (fromBob 100)).2 := by
  rintro (⟨_, file, added, _⟩ | ⟨failed, _⟩)
  · have grown := added.length_eq
    cases grown
  · revert failed
    decide +kernel

end Pvpgn.Mailbox
