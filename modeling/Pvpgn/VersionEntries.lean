import Pvpgn.Stdio

/-!
`versioncheck_validate` looks for the entry of a client in the version list. `none` is a call of
`strdup` with a null pointer, or of `free` with memory that was not allocated.
-/

namespace Pvpgn.VersionEntries
open Stdio List Option

structure ParsedExeinfo where
  exe : Text
  time : Int
  size : UInt32

/-- What the server is configured with, and its `mktime` for the month, the day, the year, the hour,
the minute and the second. -/
structure Prefs where
  versionExeinfoMatch : Text
  versionExeinfoMaxdiff : UInt32
  mktime : List UInt32 → Int

/-- `%u` with a field width or without. -/
def scanUnsigned (width : Option Nat) (input : Text) : Option (UInt32 × Text) :=
  let field := input.dropWhile isspace
  let width := width.getD field.length
  (integer 10 (field.take width)).map fun (value, rest) =>
    (UInt32.ofInt value, rest ++ field.drop width)

/-- Numbers, each with the character that must follow it; blanks in front of a number are
skipped. -/
def scanNumbers : List (Option Nat × Option UInt8) → Text → Option (List UInt32)
  | [], _ => some []
  | (width, separator) :: rest, input => do
    let (value, input) ← scanUnsigned width input
    let input ← match separator with
      | none => some input
      | some byte => if input.head? = some byte then some input.tail else none
    let values ← scanNumbers rest input
    some (value :: values)

/-- `"%02u/%02u/%u %02u:%02u:%02u %u"` -/
def exeinfoFormat : List (Option Nat × Option UInt8) :=
  [(some 2, some 47), (some 2, some 47), (none, none), (some 2, some 58), (some 2, some 58),
    (some 2, none), (none, none)]

/-- `%*s` -/
def skipWord (input : Text) : Option Text :=
  let word := input.dropWhile isspace
  if word = [] then none else some (word.dropWhile fun byte => !isspace byte)

/-- `strchr` for a blank, and the loop over the blanks. -/
def pastBlanks (text : Text) : Option Text :=
  if 32 ∈ text then some ((text.dropWhile (· ≠ 32)).dropWhile (· = 32)) else none

def parseDate (prefs : Prefs) (exe exeinfo : Text) : Option ParsedExeinfo :=
  match scanNumbers exeinfoFormat exeinfo with
  | some [mon, mday, year, hour, min, sec, size] =>
    let year := if year.toInt32 < 80 then year + 100 else year
    some ⟨exe, prefs.mktime [mon, mday, year, hour, min, sec], size⟩
  | _ => do
    let (size, _) ← scanUnsigned none (← skipWord (← skipWord exeinfo))
    some ⟨exe, -1, size⟩

def parseExeinfo (prefs : Prefs) (exeinfo : Text) : Option ParsedExeinfo :=
  if prefs.versionExeinfoMatch = text "parse" then
    if exeinfo = [] ∨ exeinfo = text "badexe" then none
    else do
      let marker ← pastBlanks (← pastBlanks (← pastBlanks exeinfo.reverse))
      parseDate prefs marker.reverse (exeinfo.drop (marker.length + 1))
  else some ⟨exeinfo, 0, 0⟩

def safeToupper (byte : UInt8) : UInt8 := if 97 ≤ byte ∧ byte ≤ 122 then byte - 32 else byte

/-- The result is 0 for a match. -/
def versioncheckCompareExeinfo (prefs : Prefs) (pattern found : ParsedExeinfo) : Int :=
  let method := prefs.versionExeinfoMatch
  if sameCaseless method (text "none") then 0
  else if pattern.exe.length ≠ found.exe.length then 1
  else if method = text "exact" then if sameCaseless pattern.exe found.exe then 0 else 1
  else if method = text "exactcase" then if pattern.exe = found.exe then 0 else 1
  else if method = text "wildcard" then
    if (pattern.exe.zip found.exe).all fun (wild, byte) =>
      wild = 63 || safeToupper wild = safeToupper byte then 0 else 1
  else if method = text "parse" then
    if sameCaseless pattern.exe found.exe = false then 1
    else if pattern.size ≠ found.size then 1
    else if pattern.time ≠ -1 ∧ prefs.versionExeinfoMaxdiff ≠ 0 ∧
      (pattern.time - found.time).natAbs > prefs.versionExeinfoMaxdiff.toInt32.toInt then 1
    else 0
  else -1

structure VersionInfo where
  eqn : Text
  mpqfile : Text
  archtag : UInt32
  clienttag : UInt32
  /-- It is optional in the file. -/
  versiontag : Option Text
  parsedExeinfo : Option ParsedExeinfo
  versionid : UInt64
  gameversion : UInt64
  checksum : UInt64

structure VersionCheck where
  eqn : Text
  mpqfile : Text
  versiontag : Option Text
  /-- The tag of `dummyvc` is not allocated. -/
  allocated : Bool

/-- What a client has sent. -/
structure Client where
  archtag : UInt32
  clienttag : UInt32
  exeinfo : Text
  versionid : UInt64
  gameversion : UInt64
  checksum : UInt64

section Validate
variable (prefs : Prefs) (client : Client)

def candidate (vc : VersionCheck) (vi : VersionInfo) : Bool :=
  vi.archtag = client.archtag && vi.clienttag = client.clienttag && vi.eqn = vc.eqn &&
    vi.mpqfile = vc.mpqfile && (vi.versionid = 0 || vi.versionid = client.versionid) &&
    (vi.gameversion = 0 || vi.gameversion = client.gameversion)

/-- `versioncheck_set_versiontag` as it is written out in the loop. -/
def setVersiontag (vc : VersionCheck) (vi : VersionInfo) : Option VersionCheck :=
  if vc.versiontag.isSome ∧ vc.allocated = false then none
  else vi.versiontag.map fun tag => { vc with versiontag := some tag, allocated := true }

def badExe (parsed : Option ParsedExeinfo) (vi : VersionInfo) : Bool :=
  match parsed, vi.parsedExeinfo with
  | none, _ => true
  | some _, none => false
  | some found, some pattern => versioncheckCompareExeinfo prefs pattern found ≠ 0

def badChecksum (vi : VersionInfo) : Bool := vi.checksum ≠ 0 && vi.checksum ≠ client.checksum

def validateLoop (parsed : Option ParsedExeinfo) :
    List VersionInfo → Bool → Bool → VersionCheck → Option (Int × VersionCheck)
  | [], badexe, badcs, vc => some (if badcs then -1 else if badexe then -1 else 0, vc)
  | vi :: rest, badexe, badcs, vc =>
    if candidate client vc vi then do
      let badexe := badExe prefs parsed vi
      let badcs := badChecksum client vi
      let vc ← setVersiontag vc vi
      if badexe || badcs then validateLoop parsed rest badexe badcs vc else some (1, vc)
    else validateLoop parsed rest badexe badcs vc

def versioncheckValidate (list : List VersionInfo) (vc : VersionCheck) :
    Option (Int × VersionCheck) :=
  validateLoop prefs client (parseExeinfo prefs client.exeinfo) list false false vc

/-! What it is to do. -/

/-- An entry without exe info matches every string that can be parsed, and one with a checksum of 0
every checksum. -/
def accepts (vi : VersionInfo) : Bool :=
  (parseExeinfo prefs client.exeinfo).any (fun found => vi.parsedExeinfo.all fun pattern =>
    versioncheckCompareExeinfo prefs pattern found = 0) &&
    (vi.checksum = 0 || vi.checksum = client.checksum)

def verdict (list : List VersionInfo) (vc : VersionCheck) : Int :=
  if list.any fun vi => candidate client vc vi && accepts prefs client vi then 1
  else if list.any (candidate client vc) then -1
  else 0

def Validated (list : List VersionInfo) (vc : VersionCheck) : Prop :=
  ∃ after, versioncheckValidate prefs client list vc = some (verdict prefs client list vc, after) ∧
    ∀ vi, list.find? (fun vi => candidate client vc vi && accepts prefs client vi) = some vi →
      after.versiontag = vi.versiontag

/-- The candidates up to the first that matches. -/
def looked : List VersionInfo → List VersionInfo
  | [] => []
  | vi :: rest => if accepts prefs client vi then [vi] else vi :: looked rest

/-- Each candidate that is looked at has a version tag, and the one of the client, which is freed
for the first, was allocated. -/
def Tagged (list : List VersionInfo) (vc : VersionCheck) : Prop :=
  let candidates := looked prefs client (list.filter (candidate client vc))
  (∀ vi ∈ candidates, vi.versiontag ≠ none) ∧
    (candidates ≠ [] → vc.versiontag = none ∨ vc.allocated = true)

end Validate

variable {prefs : Prefs} {client : Client} {list : List VersionInfo} {vc after : VersionCheck}
  {vi : VersionInfo}

theorem accepts_iff : accepts prefs client vi =
    !(badExe prefs (parseExeinfo prefs client.exeinfo) vi || badChecksum client vi) := by
  unfold accepts badExe badChecksum
  cases parseExeinfo prefs client.exeinfo <;> cases vi.parsedExeinfo <;> grind

theorem tag_set : setVersiontag vc vi = some after ↔ (vc.versiontag = none ∨ vc.allocated = true) ∧
    ∃ tag, vi.versiontag = some tag ∧ after = ⟨vc.eqn, vc.mpqfile, some tag, true⟩ := by
  unfold setVersiontag
  cases vc.versiontag <;> cases vc.allocated <;> cases vi.versiontag <;> simp [eq_comm]

theorem tagged_cons {rest : List VersionInfo} (found : candidate client vc vi) :
    Tagged prefs client (vi :: rest) vc ↔ ∃ after, setVersiontag vc vi = some after ∧
      (accepts prefs client vi ∨ Tagged prefs client rest after) := by
  have same tag : candidate client ⟨vc.eqn, vc.mpqfile, tag, true⟩ = candidate client vc := rfl
  simp only [Tagged, tag_set, filter_cons, found, if_true, looked]
  constructor
  · rintro ⟨tags, free⟩
    have own : ∃ tag, vi.versiontag = some tag := by
      apply ne_none_iff_exists'.mp
      by_cases right : accepts prefs client vi <;> simp_all
    obtain ⟨tag, own⟩ := own
    refine ⟨_, ⟨free (by split <;> simp), tag, own, rfl⟩, ?_⟩
    by_cases right : accepts prefs client vi
    · exact .inl right
    · simp_all
  · rintro ⟨_, ⟨free, tag, own, rfl⟩, right | ⟨tags, _⟩⟩
    · simp_all
    refine ⟨fun entry member => ?_, fun _ => free⟩
    rw [same] at tags
    split at member
    · simp_all
    · rcases mem_cons.mp member with rfl | member
      · simp [own]
      · exact tags _ member

theorem loop_cons {rest : List VersionInfo} {badexe badcs : Bool} (found : candidate client vc vi) :
    let parsed := parseExeinfo prefs client.exeinfo
    validateLoop prefs client parsed (vi :: rest) badexe badcs vc =
      (setVersiontag vc vi).bind fun after => if accepts prefs client vi then some (1, after)
        else validateLoop prefs client parsed rest (badExe prefs parsed vi)
          (badChecksum client vi) after := by
  simp only [validateLoop, found, if_true, accepts_iff]
  congr 1
  funext after
  cases badExe prefs (parseExeinfo prefs client.exeinfo) vi || badChecksum client vi <;> rfl

theorem loop_run {badexe badcs : Bool} {value : Int}
    (run : validateLoop prefs client (parseExeinfo prefs client.exeinfo) list badexe badcs vc =
      some (value, after)) : Tagged prefs client list vc := by
  induction list generalizing badexe badcs vc with
  | nil => simp [Tagged, looked]
  | cons vi rest ih =>
    by_cases found : candidate client vc vi
    · rw [loop_cons found, Option.bind_eq_some_iff] at run
      obtain ⟨next, set, run⟩ := run
      refine (tagged_cons found).mpr ⟨next, set, ?_⟩
      split at run
      · exact .inl ‹_›
      · exact .inr (ih run)
    · simp only [validateLoop, found] at run
      simpa [Tagged, found] using ih run

theorem tagged_run (badexe badcs : Bool) (tagged : Tagged prefs client list vc) :
    ∃ after, validateLoop prefs client (parseExeinfo prefs client.exeinfo) list badexe badcs vc =
      some (if list.any fun vi => candidate client vc vi && accepts prefs client vi then 1
        else if list.any (candidate client vc) || badcs || badexe then -1 else 0, after) ∧
    ∀ vi, list.find? (fun vi => candidate client vc vi && accepts prefs client vi) = some vi →
      after.versiontag = vi.versiontag := by
  induction list generalizing badexe badcs vc with
  | nil => cases badcs <;> cases badexe <;> simp [validateLoop]
  | cons vi rest ih =>
    by_cases found : candidate client vc vi
    · obtain ⟨next, set, next_tagged⟩ := (tagged_cons found).mp tagged
      obtain ⟨-, tag, own, rfl⟩ := tag_set.mp set
      rw [loop_cons found, set]
      by_cases right : accepts prefs client vi
      · exact ⟨⟨vc.eqn, vc.mpqfile, some tag, true⟩, by simp [right, found],
          by simp [right, found, own]⟩
      obtain ⟨after, run, last⟩ := ih (badExe prefs (parseExeinfo prefs client.exeinfo) vi)
        (badChecksum client vi) (next_tagged.resolve_left right)
      have bad : (badChecksum client vi || badExe prefs (parseExeinfo prefs client.exeinfo) vi) =
          true := by
        grind [accepts_iff]
      refine ⟨after, ?_, ?_⟩
      · simp only [Option.bind_some, right, Bool.false_eq_true, if_false, run, Bool.or_assoc, bad]
        simp [found, right]
        rfl
      · simp only [find?_cons, right, Bool.and_false]
        exact last
    · obtain ⟨after, run, last⟩ := ih badexe badcs (by simpa [Tagged, found] using tagged)
      exact ⟨after, by simpa [validateLoop, found] using run, by simpa [found] using last⟩

theorem entry_validated : Validated prefs client list vc ↔ Tagged prefs client list vc := by
  constructor
  · rintro ⟨after, run, -⟩
    exact loop_run run
  · intro tagged
    obtain ⟨after, run, last⟩ := tagged_run false false tagged
    exact ⟨after, by simpa [versioncheckValidate, verdict] using run, last⟩

/-- The candidate has no version tag, which the file may leave out. -/
theorem missing_tag_copied :
    ¬ Validated ⟨[], 0, fun _ => 0⟩ ⟨1, 2, [], 3, 4, 5⟩ [⟨[], [], 1, 2, none, none, 3, 4, 5⟩]
      ⟨[], [], some [], true⟩ := by
  rintro ⟨after, run, -⟩
  cases run

end Pvpgn.VersionEntries
