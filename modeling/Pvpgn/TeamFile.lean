import Pvpgn.Tag
import Pvpgn.TextUtil
import Mathlib.Data.List.AList
import Mathlib.Data.Fin.VecNotation
import Mathlib.Data.Fintype.Pi
import Mathlib.Tactic.FinCases

/-!
The file storage of arranged teams: a text file of three lines a team, named by the team id in
hexadecimal. Writing and loading use the directory of the teams, removing the one of the clans.
-/

namespace Pvpgn.TeamFile
open Stdio TextUtil Tag List Option Function UInt32 Prod

/-- The stored fields of a team; `teammembers` holds uids, 0 for an unused slot. -/
structure Team where
  size : UInt8
  wins : Int32
  losses : Int32
  xp : Int32
  level : Int32
  rank : Int32
  teamid : UInt32
  teammembers : Fin 4 → UInt32
  clienttag : UInt32
  lastgame : Int
  deriving DecidableEq

/-- Two to four members in the first slots, none in the others, and a client tag the server knows. -/
structure Team.Valid (team : Team) : Prop where
  least : 2 ≤ team.size
  most : team.size ≤ 4
  members : ∀ slot : Fin 4, slot.val < team.size.toNat ↔ team.teammembers slot ≠ 0
  tag : tagCheckClient team.clienttag = true

section Format

/-- `"%u,%c,%s,%u"` -/
def firstLine (team : Team) : Text :=
  unsigned team.teamid.toNat ++ 44 :: (team.size + 48) :: 44 :: clienttagUintToStr team.clienttag ++
    44 :: unsigned (ofInt team.lastgame).toNat

/-- `"%u,%u,%u,%u"` -/
def secondLine (team : Team) : Text :=
  unsigned (team.teammembers 0).toNat ++ 44 :: unsigned (team.teammembers 1).toNat ++
    44 :: unsigned (team.teammembers 2).toNat ++ 44 :: unsigned (team.teammembers 3).toNat

/-- `"%d,%d,%d,%d,%d"` -/
def thirdLine (team : Team) : Text :=
  signed team.wins.toInt ++ 44 :: signed team.losses.toInt ++ 44 :: signed team.xp.toInt ++
    44 :: signed team.level.toInt ++ 44 :: signed team.rank.toInt

def teamText (team : Team) : Text :=
  firstLine team ++ newline :: (secondLine team ++ newline :: (thirdLine team ++ [newline]))

/-- `"%u,%c,%4s,%u"` -/
def firstFormat : List Directive :=
  [.conversion .unsigned, .literal 44, .conversion .char, .literal 44, .conversion (.word 4),
    .literal 44, .conversion .unsigned]

/-- `"%u,%u,%u,%u"` -/
def secondFormat : List Directive :=
  [.conversion .unsigned, .literal 44, .conversion .unsigned, .literal 44, .conversion .unsigned,
    .literal 44, .conversion .unsigned]

/-- `"%d,%d,%d,%d,%d"` -/
def thirdFormat : List Directive :=
  [.conversion (.signed 10), .literal 44, .conversion (.signed 10), .literal 44,
    .conversion (.signed 10), .literal 44, .conversion (.signed 10), .literal 44,
    .conversion (.signed 10)]

/-- One entry of the directory: the team it holds, or `none` after an error in the log. -/
def loadTeam (dentry contents : Text) : Option Team :=
  if dentry.length ≠ 8 then none
  else
    let teamid := strtoul16 dentry
    match fileGetLine contents with
    | none => none
    | some (line, rest) =>
      match sscanf line firstFormat with
      | [.unsigned fteamid, .char digit, .string clienttag, .unsigned lastgame] =>
        let size := digit - 48
        if fteamid ≠ teamid then none
        else if size < 2 ∨ 4 < size then none
        else if tagCheckClient (tagStrToUint clienttag) = false then none
        else match fileGetLine rest with
          | none => none
          | some (line, rest) =>
            match sscanf line secondFormat with
            | [.unsigned first, .unsigned second, .unsigned third, .unsigned fourth] =>
              let teammembers : Fin 4 → UInt32 := ![first, second, third, fourth]
              if ∃ slot : Fin 4, if slot.val < size.toNat then teammembers slot = 0
                  else teammembers slot ≠ 0 then none
              else match fileGetLine rest with
                | none => none
                | some (line, _) =>
                  match sscanf line thirdFormat with
                  | [.signed wins, .signed losses, .signed xp, .signed level,
                      .signed rank] =>
                      some { size, wins := Int32.ofInt wins, losses := Int32.ofInt losses,
                             xp := Int32.ofInt xp, level := Int32.ofInt level,
                             rank := Int32.ofInt rank, teamid, teammembers,
                             clienttag := tagStrToUint clienttag,
                             lastgame := lastgame.toNat }
                  | _ => none
            | _ => none
      | _ => none

end Format

section RoundTrip
variable {team : Team}

theorem valid_size (valid : team.Valid) : team.size = 2 ∨ team.size = 3 ∨ team.size = 4 := by
  have least := UInt8.le_iff_toNat_le.mp valid.least
  have most := UInt8.le_iff_toNat_le.mp valid.most
  simp only [← UInt8.toNat_inj]
  have two : (2 : UInt8).toNat = 2 := rfl
  have three : (3 : UInt8).toNat = 3 := rfl
  have four : (4 : UInt8).toNat = 4 := rfl
  omega

theorem first_line_ordinary (valid : team.Valid) : ∀ byte ∈ firstLine team, Ordinary byte := by
  obtain ⟨_, _, letters⟩ := client_tag_string team.clienttag valid.tag
  have comma : Ordinary 44 := ordinary_of_range 44 (by decide) (by decide)
  have digit : Ordinary (team.size + 48) := by
    rcases valid_size valid with two | three | four
    · exact ordinary_of_range _ (by rw [two]; decide) (by rw [two]; decide)
    · exact ordinary_of_range _ (by rw [three]; decide) (by rw [three]; decide)
    · exact ordinary_of_range _ (by rw [four]; decide) (by rw [four]; decide)
  intro byte member
  simp only [firstLine, mem_append, mem_cons] at member
  rcases member with (number | rfl | rfl | rfl | tag) | rfl | number
  · exact unsigned_ordinary _ byte number
  · exact comma
  · exact digit
  · exact comma
  · exact ordinary_of_range byte (UInt8.le_trans (by decide) (letters byte tag).1) (letters byte tag).2
  · exact comma
  · exact unsigned_ordinary _ byte number

theorem second_line_ordinary : ∀ byte ∈ secondLine team, Ordinary byte := by
  have comma : Ordinary 44 := ordinary_of_range 44 (by decide) (by decide)
  intro byte member
  simp only [secondLine, mem_append, mem_cons] at member
  rcases member with ((number | rfl | number) | rfl | number) | rfl | number
  all_goals first | exact comma | exact unsigned_ordinary _ byte number

theorem third_line_ordinary : ∀ byte ∈ thirdLine team, Ordinary byte := by
  have comma : Ordinary 44 := ordinary_of_range 44 (by decide) (by decide)
  intro byte member
  simp only [thirdLine, mem_append, mem_cons] at member
  rcases member with (((number | rfl | number) | rfl | number) | rfl | number) | rfl | number
  all_goals first | exact comma | exact signed_ordinary _ byte number

theorem scan_first_line (valid : team.Valid) :
    sscanf (firstLine team) firstFormat =
      [.unsigned team.teamid, .char (team.size + 48), .string (clienttagUintToStr team.clienttag),
        .unsigned (ofInt team.lastgame)] := by
  obtain ⟨_, four, letters⟩ := client_tag_string team.clienttag valid.tag
  have nonempty : clienttagUintToStr team.clienttag ≠ [] := by
    intro empty
    simp [empty] at four
  have black : ∀ byte ∈ clienttagUintToStr team.clienttag, isspace byte = false := by
    intro byte member
    exact range_not_white byte (letters byte member).1
  have last := scan_unsigned (ofInt team.lastgame) [] [] separated_nil
  rw [append_nil] at last
  simp only [sscanf, firstLine, firstFormat, append_assoc, cons_append]
  rw [scan_unsigned _ _ _ (comma_separated _), scan_literal, scan_char, scan_literal,
    scan_word 4 _ _ _ four nonempty black, scan_literal, last]
  rfl

theorem scan_second_line :
    sscanf (secondLine team) secondFormat =
      [.unsigned (team.teammembers 0), .unsigned (team.teammembers 1),
        .unsigned (team.teammembers 2), .unsigned (team.teammembers 3)] := by
  have last := scan_unsigned (team.teammembers 3) [] [] separated_nil
  rw [append_nil] at last
  simp only [sscanf, secondLine, secondFormat, append_assoc, cons_append]
  rw [scan_unsigned _ _ _ (comma_separated _), scan_literal, scan_unsigned _ _ _ (comma_separated _),
    scan_literal, scan_unsigned _ _ _ (comma_separated _), scan_literal, last]
  rfl

theorem scan_int (value : Int32) (format : List Directive) (rest : Text)
    (separated : Separated rest) :
    scan (.conversion (.signed 10) :: format) (signed value.toInt ++ rest) =
      (.signed value.toInt :: (scan format rest).1, (scan format rest).2) :=
  scan_signed 10 value.toInt format rest (Or.inr rfl) value.le_toInt value.toInt_lt separated

theorem scan_third_line :
    sscanf (thirdLine team) thirdFormat =
      [.signed team.wins.toInt, .signed team.losses.toInt, .signed team.xp.toInt,
        .signed team.level.toInt, .signed team.rank.toInt] := by
  have last := scan_int team.rank [] [] separated_nil
  rw [append_nil] at last
  simp only [sscanf, thirdLine, thirdFormat, append_assoc, cons_append]
  rw [scan_int _ _ _ (comma_separated _), scan_literal, scan_int _ _ _ (comma_separated _),
    scan_literal, scan_int _ _ _ (comma_separated _), scan_literal,
    scan_int _ _ _ (comma_separated _), scan_literal, last]
  rfl

/-- What the file keeps of a team: the time of the last game is cut to 32 bits. -/
def Team.stored (team : Team) : Team :=
  { team with lastgame := (ofInt team.lastgame).toNat }

theorem load_team_text (valid : team.Valid) :
    loadTeam (hex8 team.teamid) (teamText team) = some team.stored := by
  have first := file_get_line_ordinary (firstLine team)
    (secondLine team ++ newline :: (thirdLine team ++ [newline])) (first_line_ordinary valid)
  have second := file_get_line_ordinary (secondLine team) (thirdLine team ++ [newline])
    second_line_ordinary
  have third := file_get_line_ordinary (thirdLine team) [] third_line_ordinary
  have tag := (client_tag_string team.clienttag valid.tag).1
  have known : ¬tagCheckClient team.clienttag = false := by simp [valid.tag]
  have size : team.size + 48 - 48 = team.size := by simp
  have inRange : ¬(team.size < 2 ∨ 4 < team.size) := by
    simp only [not_or, UInt8.not_lt]
    exact ⟨valid.least, valid.most⟩
  have members : ![team.teammembers 0, team.teammembers 1, team.teammembers 2,
      team.teammembers 3] = team.teammembers := by
    ext slot
    fin_cases slot <;> rfl
  have used : ¬∃ slot : Fin 4, if slot.val < team.size.toNat then team.teammembers slot = 0
      else team.teammembers slot ≠ 0 := by
    rintro ⟨slot, wrong⟩
    have right := valid.members slot
    by_cases inside : slot.val < team.size.toNat
    · rw [if_pos inside] at wrong
      exact right.mp inside wrong
    · rw [if_neg inside] at wrong
      exact inside (right.mpr wrong)
  simp only [loadTeam, hex8_length, teamText, first, second, third, scan_first_line valid,
    scan_second_line, scan_third_line, strtoul16_hex8, tag, size, members, Int32.ofInt_toInt]
  rw [if_neg (by simp), if_neg (by simp), if_neg inRange, if_neg known, if_neg used]
  rfl

end RoundTrip

/-! The files are keyed by the directory they are in and their name there. Two paths may name one
directory, so directories are compared as such and not as strings. -/

section Storage
variable {Dir : Type} [DecidableEq Dir]

abbrev Files (Dir : Type) := AList fun _ : Dir × Text => Text

structure Directories (Dir : Type) where
  clansdir : Dir
  teamsdir : Dir

inductive Operation where
  | write (team : Team)
  | remove (teamid : UInt32)

def fileWriteTeam (dirs : Directories Dir) (team : Team) (files : Files Dir) : Files Dir :=
  files.insert (dirs.teamsdir, hex8 team.teamid) (teamText team)

/-- The path is built from `clansdir`. -/
def fileRemoveTeam (dirs : Directories Dir) (teamid : UInt32) (files : Files Dir) : Files Dir :=
  files.erase (dirs.clansdir, hex8 teamid)

def loadEntry (dirs : Directories Dir) (entry : Sigma fun _ : Dir × Text => Text) : Option Team :=
  if entry.1.1 = dirs.teamsdir then loadTeam entry.1.2 entry.2 else none

/-- The teams handed to the callback, in the order the directory lists its entries. -/
def fileLoadTeams (dirs : Directories Dir) (files : Files Dir) : List Team :=
  files.entries.filterMap (loadEntry dirs)

def step (dirs : Directories Dir) (files : Files Dir) : Operation → Files Dir
  | .write team => fileWriteTeam dirs team files
  | .remove teamid => fileRemoveTeam dirs teamid files

def run (dirs : Directories Dir) (operations : List Operation) (files : Files Dir) : Files Dir :=
  operations.foldl (step dirs) files

def recordStep (removes : Bool) (teams : UInt32 → Option Team) : Operation → UInt32 → Option Team
  | .write team => Function.update teams team.teamid (some team)
  | .remove teamid => if removes then Function.update teams teamid none else teams

def record (removes : Bool) (operations : List Operation) : UInt32 → Option Team :=
  operations.foldl (recordStep removes) fun _ => none

def latest (operations : List Operation) : UInt32 → Option Team := record true operations

def written (operations : List Operation) : UInt32 → Option Team := record false operations

/-- Exactly the teams that are there are loaded, each once. -/
def Delivers (loaded : List Team) (teams : UInt32 → Option Team) : Prop :=
  (loaded.map Team.teamid).Nodup ∧ ∀ team, team ∈ loaded ↔ teams team.teamid = some team

def Operation.Valid : Operation → Prop
  | .write team => team.Valid
  | .remove _ => True

/-- The team directory holds one file for every team of the record and no other. -/
structure Holds (dirs : Directories Dir) (files : Files Dir) (teams : UInt32 → Option Team) :
    Prop where
  valid : ∀ teamid team, teams teamid = some team → team.Valid ∧ team.teamid = teamid
  content : ∀ teamid, files.lookup (dirs.teamsdir, hex8 teamid) = (teams teamid).map teamText
  named : ∀ name, (dirs.teamsdir, name) ∈ files → ∃ teamid, name = hex8 teamid

theorem hex8_injective (left right : UInt32) (same : hex8 left = hex8 right) : left = right := by
  rw [← strtoul16_hex8 left, ← strtoul16_hex8 right, same]

variable {dirs : Directories Dir} {files : Files Dir} {teams : UInt32 → Option Team}

theorem holds_write (holds : Holds dirs files teams) (team : Team) (valid : team.Valid)
    (removes : Bool) :
    Holds dirs (fileWriteTeam dirs team files) (recordStep removes teams (.write team)) := by
  refine ⟨?_, ?_, ?_⟩
  · intro teamid other found
    by_cases same : teamid = team.teamid
    · subst same
      have equal : team = other := by simpa [recordStep] using found
      exact equal ▸ ⟨valid, rfl⟩
    · rw [recordStep, update_of_ne same] at found
      exact holds.valid teamid other found
  · intro teamid
    by_cases same : teamid = team.teamid
    · subst same
      simp [fileWriteTeam, recordStep]
    have names : (dirs.teamsdir, hex8 teamid) ≠ (dirs.teamsdir, hex8 team.teamid) :=
      fun equal => same (hex8_injective _ _ (mk.inj equal).2)
    rw [fileWriteTeam, AList.lookup_insert_ne names, recordStep, update_of_ne same]
    exact holds.content teamid
  · intro name member
    rcases (AList.mem_insert files).mp member with same | old
    · exact ⟨team.teamid, (mk.inj same).2⟩
    · exact holds.named name old

theorem holds_remove (holds : Holds dirs files teams) (teamid : UInt32) :
    Holds dirs (fileRemoveTeam dirs teamid files)
      (recordStep (dirs.clansdir = dirs.teamsdir) teams (.remove teamid)) := by
  have kept : ∀ name, (dirs.teamsdir, name) ∈ fileRemoveTeam dirs teamid files →
      ∃ id, name = hex8 id := by
    intro name member
    exact holds.named name (AList.mem_erase.mp member).2
  by_cases same : dirs.clansdir = dirs.teamsdir
  · refine ⟨?_, ?_, kept⟩
    · intro id team found
      by_cases removed : id = teamid
      · simp [recordStep, same, removed] at found
      · simp only [recordStep, same, decide_true, if_true, update_of_ne removed] at found
        exact holds.valid id team found
    intro id
    by_cases removed : id = teamid
    · subst removed
      simp [fileRemoveTeam, recordStep, same]
    have names : (dirs.teamsdir, hex8 id) ≠ (dirs.clansdir, hex8 teamid) :=
      fun equal => removed (hex8_injective _ _ (mk.inj equal).2)
    rw [fileRemoveTeam, AList.lookup_erase_ne names]
    simp only [recordStep, same, decide_true, if_true, update_of_ne removed]
    exact holds.content id
  · have unchanged : recordStep (dirs.clansdir = dirs.teamsdir) teams (.remove teamid) = teams := by
      simp [recordStep, same]
    rw [unchanged]
    refine ⟨holds.valid, ?_, kept⟩
    intro id
    have names : (dirs.teamsdir, hex8 id) ≠ (dirs.clansdir, hex8 teamid) :=
      fun equal => same (mk.inj equal).1.symm
    rw [fileRemoveTeam, AList.lookup_erase_ne names]
    exact holds.content id

theorem holds_run (operations : List Operation) (valid : ∀ operation ∈ operations, operation.Valid)
    (holds : Holds dirs files teams) :
    Holds dirs (run dirs operations files)
      (operations.foldl (recordStep (dirs.clansdir = dirs.teamsdir)) teams) := by
  induction operations generalizing files teams with
  | nil => exact holds
  | cons operation rest ih =>
    refine ih (fun other member => valid other (by simp [member])) ?_
    cases operation with
    | write team => exact holds_write holds team (valid (.write team) (by simp)) _
    | remove teamid => exact holds_remove holds teamid

theorem holds_empty (dirs : Directories Dir) (files : Files Dir)
    (empty : ∀ name, (dirs.teamsdir, name) ∉ files) : Holds dirs files fun _ => none where
  valid := by simp
  content teamid := by simpa using AList.lookup_eq_none.mpr (empty (hex8 teamid))
  named name member := absurd member (empty name)

theorem load_entry_holds (holds : Holds dirs files teams) (entry : Sigma fun _ : Dir × Text => Text)
    (listed : entry ∈ files.entries) (team : Team) (loaded : loadEntry dirs entry = some team) :
    ∃ original, teams team.teamid = some original ∧ original.stored = team ∧
      entry.1 = (dirs.teamsdir, hex8 team.teamid) := by
  obtain ⟨⟨directory, name⟩, contents⟩ := entry
  have inside : directory = dirs.teamsdir := by
    by_contra outside
    simp [loadEntry, outside] at loaded
  subst inside
  have found := AList.mem_lookup_iff.mpr listed
  obtain ⟨teamid, rfl⟩ := holds.named name (AList.lookup_isSome.mp (by simp [mem_def.mp found]))
  rw [holds.content teamid, mem_def, map_eq_some_iff] at found
  obtain ⟨original, present, rfl⟩ := found
  obtain ⟨valid, rfl⟩ := holds.valid teamid original present
  have read := load_team_text valid
  rw [loadEntry, if_pos rfl, read] at loaded
  have same := Option.some.inj loaded
  refine ⟨original, ?_, same, ?_⟩ <;> rw [← same]
  · exact present
  · rfl

theorem mem_load_teams (holds : Holds dirs files teams) (team : Team) :
    team ∈ fileLoadTeams dirs files ↔
      ∃ original, teams team.teamid = some original ∧ original.stored = team := by
  constructor
  · intro member
    obtain ⟨entry, listed, loaded⟩ := mem_filterMap.mp member
    obtain ⟨original, present, same, _⟩ := load_entry_holds holds entry listed team loaded
    exact ⟨original, present, same⟩
  rintro ⟨original, present, rfl⟩
  obtain ⟨valid, named⟩ := holds.valid _ original present
  have content := holds.content original.teamid
  have id : original.stored.teamid = original.teamid := rfl
  rw [id] at present
  rw [present, map_some] at content
  refine mem_filterMap.mpr ⟨_, AList.mem_lookup_iff.mp content, ?_⟩
  rw [loadEntry, if_pos rfl]
  exact load_team_text valid

theorem load_teams_nodup (holds : Holds dirs files teams) :
    ((fileLoadTeams dirs files).map Team.teamid).Nodup := by
  rw [Nodup, pairwise_map, fileLoadTeams, pairwise_filterMap]
  refine (nodupKeys_iff_pairwise.mp files.nodupKeys).imp_of_mem ?_
  intro left right leftListed rightListed different first loadedFirst second loadedSecond same
  obtain ⟨_, _, _, leftKey⟩ := load_entry_holds holds left leftListed first loadedFirst
  obtain ⟨_, _, _, rightKey⟩ := load_entry_holds holds right rightListed second loadedSecond
  exact different (by rw [leftKey, rightKey, same])

theorem written_of_latest (operations : List Operation) (teamid : UInt32) (team : Team)
    (present : latest operations teamid = some team) : written operations teamid = some team := by
  have kept (operations : List Operation) (left right : UInt32 → Option Team)
      (below : ∀ teamid team, left teamid = some team → right teamid = some team) :
      ∀ teamid team, operations.foldl (recordStep true) left teamid = some team →
        operations.foldl (recordStep false) right teamid = some team := by
    induction operations generalizing left right with
    | nil => exact below
    | cons operation rest ih =>
      refine ih _ _ ?_
      intro id other found
      cases operation with
      | write team =>
        by_cases same : id = team.teamid
        · simpa [recordStep, same] using found
        · simp only [recordStep, update_of_ne same] at found ⊢
          exact below id other found
      | remove removed =>
        by_cases same : id = removed
        · simp [recordStep, same] at found
        · simp only [recordStep, if_true, update_of_ne same] at found
          exact below id other found
  exact kept operations _ _ (fun _ _ found => found) teamid team present

theorem stored_eq_iff (team : Team) :
    team.stored = team ↔ 0 ≤ team.lastgame ∧ team.lastgame < 2 ^ 32 := by
  have word := word_of_int team.lastgame
  constructor
  · intro same
    have times := congrArg Team.lastgame same
    simp only [Team.stored, word] at times
    omega
  · intro range
    have times : ((ofInt team.lastgame).toNat : Int) = team.lastgame := by
      omega
    rw [Team.stored, times]

theorem kept_record (dirs : Directories Dir) (operations : List Operation) :
    operations.foldl (recordStep (dirs.clansdir = dirs.teamsdir)) (fun _ => none) =
      if dirs.clansdir = dirs.teamsdir then latest operations else written operations := by
  by_cases same : dirs.clansdir = dirs.teamsdir <;> simp [same, latest, written, record]

/-- Loading after any history of writes and removals gives the teams as last written exactly when
removals reach the team directory, or every team that was removed was written again, and the times
of the last games fit 32 bits. -/
theorem load_teams_iff (dirs : Directories Dir) (files : Files Dir) (operations : List Operation)
    (empty : ∀ name, (dirs.teamsdir, name) ∉ files)
    (valid : ∀ operation ∈ operations, operation.Valid) :
    Delivers (fileLoadTeams dirs (run dirs operations files)) (latest operations) ↔
      (dirs.clansdir = dirs.teamsdir ∨
          ∀ teamid, written operations teamid = latest operations teamid) ∧
        ∀ teamid team, latest operations teamid = some team →
          0 ≤ team.lastgame ∧ team.lastgame < 2 ^ 32 := by
  have holds := holds_run operations valid (holds_empty dirs files empty)
  rw [kept_record] at holds
  constructor
  · rintro ⟨_, delivered⟩
    have survives : ∀ teamid team,
        (if dirs.clansdir = dirs.teamsdir then latest operations else written operations) teamid =
          some team → latest operations teamid = some team.stored := by
      intro teamid team present
      obtain ⟨_, rfl⟩ := holds.valid teamid team present
      exact (delivered team.stored).mp ((mem_load_teams holds team.stored).mpr ⟨team, present, rfl⟩)
    refine ⟨?_, ?_⟩
    · by_cases same : dirs.clansdir = dirs.teamsdir
      · exact Or.inl same
      right
      intro teamid
      simp only [if_neg same] at survives
      cases found : written operations teamid with
      | none =>
        cases left : latest operations teamid with
        | none => rfl
        | some team => simp [written_of_latest operations teamid team left] at found
      | some team =>
        have left := survives teamid team found
        rw [left, ← found, written_of_latest operations teamid _ left]
    · intro teamid team found
      have present : (if dirs.clansdir = dirs.teamsdir then latest operations
          else written operations) teamid = some team := by
        by_cases same : dirs.clansdir = dirs.teamsdir
        · rwa [if_pos same]
        · rw [if_neg same]
          exact written_of_latest operations teamid team found
      have kept := survives teamid team present
      exact (stored_eq_iff team).mp (Option.some.inj (kept.symm.trans found))
  · rintro ⟨reached, times⟩
    have record : (if dirs.clansdir = dirs.teamsdir then latest operations
        else written operations) = latest operations := by
      by_cases same : dirs.clansdir = dirs.teamsdir
      · rw [if_pos same]
      · rw [if_neg same]
        exact funext (reached.resolve_left same)
    rw [record] at holds
    refine ⟨load_teams_nodup holds, ?_⟩
    intro team
    rw [mem_load_teams holds]
    constructor
    · rintro ⟨original, found, rfl⟩
      have whole := (stored_eq_iff original).mpr (times _ original found)
      rwa [whole] at found ⊢
    · intro found
      exact ⟨team, found, (stored_eq_iff team).mpr (times _ team found)⟩

end Storage

def exampleTeam : Team :=
  { size := 2, wins := 3, losses := -1, xp := 250, level := 1, rank := 0, teamid := 1,
    teammembers := ![10, 11, 0, 0], clienttag := 0x57335850, lastgame := 1100000000 }

theorem example_team_valid : exampleTeam.Valid where
  least := by decide
  most := by decide
  members := by decide
  tag := by decide

def exampleDirectories : Directories Text :=
  { clansdir := text "var/clans", teamsdir := text "var/teams" }

theorem load_teams_iff_rewritten :
    Delivers (fileLoadTeams exampleDirectories
        (run exampleDirectories [.write exampleTeam, .remove 1, .write exampleTeam] ∅))
      (latest [.write exampleTeam, .remove 1, .write exampleTeam]) := by
  refine (load_teams_iff exampleDirectories ∅ [.write exampleTeam, .remove 1, .write exampleTeam]
    (fun _ => AList.notMem_empty _) ?_).mpr ⟨Or.inr ?_, ?_⟩
  · intro operation member
    simp only [mem_cons, not_mem_nil, or_false] at member
    rcases member with rfl | rfl | rfl
    · exact example_team_valid
    · trivial
    · exact example_team_valid
  · intro teamid
    by_cases same : teamid = 1
    · subst same
      decide
    · have other : teamid ≠ exampleTeam.teamid := same
      simp [written, latest, record, recordStep, same, other]
  · intro teamid team found
    by_cases same : teamid = 1
    · subst same
      have equal : exampleTeam = team := by simpa [latest, record, recordStep, exampleTeam] using found
      rw [← equal]
      decide
    · have other : teamid ≠ exampleTeam.teamid := same
      simp [latest, record, recordStep, same, other] at found

/-- A removed team is still there at the next load. -/
theorem removed_team_loaded :
    fileLoadTeams exampleDirectories
        (run exampleDirectories [.write exampleTeam, .remove 1] ∅) = [exampleTeam] ∧
      ¬Delivers (fileLoadTeams exampleDirectories
          (run exampleDirectories [.write exampleTeam, .remove 1] ∅))
        (latest [.write exampleTeam, .remove 1]) := by
  have loaded : fileLoadTeams exampleDirectories
      (run exampleDirectories [.write exampleTeam, .remove 1] ∅) = [exampleTeam] := by
    decide +kernel
  refine ⟨loaded, ?_⟩
  rintro ⟨_, delivered⟩
  have present := (delivered exampleTeam).mp (by simp [loaded])
  have absent : latest [.write exampleTeam, .remove 1] exampleTeam.teamid = none := by decide
  simp [absent] at present

end Pvpgn.TeamFile
