import Mathlib.Data.List.DropRight
import Pvpgn.ClosedCharacters
import Pvpgn.IpBan
import Pvpgn.TrackerFile

/-!
The file of banned addresses: `ipbanlist_save` prints a line for each entry, and `ipbanlist_load`
guesses the form of the entry again from the text. Printing outside an array is `none`.
-/

namespace Pvpgn.IpBanFile
open Stdio IpBan TextUtil List Option UInt32 Prod
open ClosedCharacters (sprintf)

/-- `MAX_MESSAGE_LEN` -/
def maxMessageLen : Nat := 255

def printed : Form → Text
  | .exact info1 => info1
  | .wildcard info1 info2 info3 info4 => [dot].intercalate [info1, info2, info3, info4]
  | .range info1 info2 => info1 ++ minus :: info2
  | .netmask info1 info2 => info1 ++ slash :: info2
  | .prefixed info1 info2 => info1 ++ slash :: info2

def ipbanEntryToStr (form : Form) : Option Text := sprintf maxMessageLen (printed form)

def blank (byte : UInt8) : Bool := byte = 32 || byte = 9

def saveEntry (entry : IpbanEntry) : Option Text := do
  let ipstr ← ipbanEntryToStr entry.form
  sprintf 1024 ((if entry.endtime = 0 then ipstr else ipstr ++ 32 :: signed entry.endtime) ++
    [newline])

def ipbanlistSave (entries : List IpbanEntry) : Option Text := (entries.mapM saveEntry).map flatten

/-- `strtoul` in base 10 on digits. -/
def strtoul10 (field : Text) : Nat := min (fromDigits 10 field) (2 ^ 64 - 1)

/-- The parts between colons are each worth 60 times the next; a last part without digits is left
out. -/
def clockstrToSeconds (clockstr : Text) : Option UInt32 :=
  if clockstr.all fun byte => isdigit byte || byte = 58 then
    let fields := clockstr.splitOn 58
    let fields := if fields.getLast? = some [] then fields.dropLast else fields
    some (fields.foldl (fun temp field => temp * 60 + ofNat (strtoul10 field)) 0)
  else none

/-- The text and the end time of a line, if it is not empty and no comment. -/
def lineEntry (buff : Text) : Option (Text × Int) :=
  let ip := buff.dropWhile blank
  if ip = [] ∨ ip.head? = some 35 then none
  else
    let ip := ip.rdropWhile blank
    if ip.any blank then
      let timestr := (ip.dropWhile (!blank ·)).dropWhile blank
      some (ip.takeWhile (!blank ·), (((clockstrToSeconds timestr).getD 0).toNat : Int))
    else some (ip, 0)

def loadLine (state : State) (buff : Text) : Option State :=
  match lineEntry buff with
  | none => some state
  | some (ip, endtime) => (ipbanlistAdd state (some ip) endtime).map snd

def ipbanlistLoad (state : State) (file : Text) : Option State :=
  (fileLines file).foldlM loadLine state

def addAll (adds : List (Text × Int)) : Option State :=
  adds.foldlM (fun state add => (ipbanlistAdd state (some add.1) add.2).map snd) ⟨[], 0⟩

structure Restores (entries : List IpbanEntry) (file : Text) (loaded : List IpbanEntry) : Prop where
  saved : ipbanlistSave entries = some file
  read : ipbanlistLoad ⟨[], 0⟩ file = some ⟨loaded, 0⟩
  length : loaded.length = entries.length
  endtimes : loaded.map IpbanEntry.endtime = entries.map IpbanEntry.endtime
  answers : ∀ (now interval lastchecktime : Int) (address : Address),
    (ipbanlistCheck now interval ⟨loaded, lastchecktime⟩ (some (inetNtoa address))).map fst =
      (ipbanlistCheck now interval ⟨entries, lastchecktime⟩ (some (inetNtoa address))).map fst

/-- The text fits its array and the end time an `unsigned int`; and a wildcard whose asterisks all
stand behind its first four parts has no slash in these. -/
structure Faithful (entry : IpbanEntry) : Prop where
  fits : (printed entry.form).length < maxMessageLen
  positive : 0 ≤ entry.endtime
  small : entry.endtime < 2 ^ 32
  wild : ∀ info1 info2 info3 info4, entry.form = .wildcard info1 info2 info3 info4 →
    star ∉ printed entry.form → slash ∉ printed entry.form

/-! An accepted text and the form made of it. -/

variable {byte : UInt8}

theorem strchr_found {input before behind : Text}
    (found : strchr byte input = some (before, behind)) : input = before ++ byte :: behind := by
  rw [strchr] at found
  split at found
  · rename_i member
    obtain ⟨rfl, rfl⟩ := mk.inj (some.inj found)
    have stops : input.dropWhile (· ≠ byte) ≠ [] := by
      rw [ne_eq, dropWhile_eq_nil_iff]
      intro all
      simpa using all byte member
    have head := head_dropWhile_not (fun other => decide (other ≠ byte)) stops
    have same : (input.dropWhile (· ≠ byte)).head stops = byte := by simpa using head
    have whole := takeWhile_append_dropWhile (p := fun other => decide (other ≠ byte))
      (l := input)
    rw [← cons_head_tail stops, same] at whole
    exact whole.symm
  · cases found

theorem strchr_none {input : Text} (missing : byte ∉ input) :
    strchr byte input = none := if_neg missing

structure Parts (first second third fourth : Text) : Prop where
  plain : ∀ part ∈ [first, second, third, fourth], dot ∉ part
  sized : ∀ part ∈ [first, second, third, fourth], 1 ≤ part.length ∧ part.length ≤ 3

variable {first second third fourth : Text}

section
variable (parts : Parts first second third fourth)
include parts

theorem Parts.split :
    strsep ([dot].intercalate [first, second, third, fourth]) = [first, second, third, fourth] :=
  splitOn_intercalate dot parts.plain (by simp)

theorem Parts.exact :
    ipbanCouldBeExactIpStr ([dot].intercalate [first, second, third, fourth]) = true := by
  rw [ipbanCouldBeExactIpStr, parts.split]
  simpa using parts.sized

theorem Parts.tokens :
    strtok ([dot].intercalate [first, second, third, fourth]) = [first, second, third, fourth] := by
  change (strsep _).filter _ = _
  rw [parts.split, filter_eq_self]
  exact fun part member => by simpa using length_pos_iff.mp (parts.sized part member).1

end

variable {entries : List IpbanEntry} {entry : IpbanEntry} {form : Form}

theorem wildcard_parts {cp : Text} (exact_ip : ipbanCouldBeExactIpStr cp = true)
    (made : wildcardForm cp = some form) :
    ∃ first second third fourth, form = .wildcard first second third fourth ∧
      Parts first second third fourth ∧ printed form <+: cp := by
  have joined : [dot].intercalate (strsep cp) = cp := intercalate_splitOn dot
  rw [ipbanCouldBeExactIpStr, Bool.and_eq_true, decide_eq_true_eq] at exact_ip
  have free := TrackerFile.split_free dot cp
  change ∀ part ∈ strsep cp, dot ∉ part at free
  rw [wildcardForm, show strtok cp = (strsep cp).filter fun token => token ≠ [] from rfl] at made
  obtain ⟨many, sized⟩ := exact_ip
  rcases fields : strsep cp with _ | ⟨first, _ | ⟨second, _ | ⟨third, _ | ⟨fourth, rest⟩⟩⟩⟩
  · simp [fields] at many
  · simp [fields] at many
  · simp [fields] at many
  · simp [fields] at many
  rw [fields] at joined sized free made
  have sized : ∀ part ∈ [first, second, third, fourth],
      1 ≤ part.length ∧ part.length ≤ 3 := by simpa using sized
  have kept : ([first, second, third, fourth].filter fun token => token ≠ []) =
      [first, second, third, fourth] := by
    rw [filter_eq_self]
    exact fun part member => by simpa using length_pos_iff.mp (sized part member).1
  rw [show first :: second :: third :: fourth :: rest =
    [first, second, third, fourth] ++ rest from rfl, filter_append, kept] at made
  refine ⟨first, second, third, fourth, (some.inj made).symm,
    ⟨fun part member => free part (mem_of_mem_take (i := 4) member), sized⟩, ?_⟩
  obtain rfl := some.inj made
  rw [← joined, printed]
  cases rest with
  | nil => exact prefix_refl _
  | cons fifth rest =>
    simp only [intercalate_cons_cons, intercalate_singleton, append_assoc]
    simp only [prefix_append_right_inj]
    exact prefix_append _ _

/-- What is known of an entry: its text is legal, and the form is made of the text that it is
printed as, but for a wildcard. -/
structure Accepted (form : Form) : Prop where
  legal : ∀ byte ∈ printed form, legal byte = true
  long : 7 ≤ (printed form).length
  again : (∀ info1 info2 info3 info4, form ≠ .wildcard info1 info2 info3 info4) →
    ipbanStrToIpbanEntry (some (printed form)) = some (some form)
  parts : ∀ info1 info2 info3 info4, form = .wildcard info1 info2 info3 info4 →
    Parts info1 info2 info3 info4 ∧ minus ∉ printed form

theorem accepted_text {cp : Text} (made : ipbanStrToIpbanEntry (some cp) = some (some form)) :
    Accepted form := by
  have again := made
  simp only [ipbanStrToIpbanEntry] at made
  split at made
  · cases made
  obtain ⟨could, is, made⟩ := bind_eq_some_iff.mp made
  cases could with
  | false => cases made
  | true =>
    rw [if_neg (by decide)] at made
    rw [ipbanCouldBeIpStr] at is
    split at is
    · cases is
    split at is
    · cases is
    rename_i legal
    rw [Bool.not_eq_true', Bool.not_eq_false, List.all_eq_true] at legal
    -- a form that is printed as its text
    have same (text : printed form = cp)
        (other : ∀ info1 info2 info3 info4, form ≠ .wildcard info1 info2 info3 info4) :
        Accepted form := by
      refine ⟨text ▸ legal, by rw [text]; omega, fun _ => text ▸ again, ?_⟩
      exact fun _ _ _ _ wild => absurd wild (other _ _ _ _)
    cases dash : strchr minus cp with
    | some ends =>
      rw [dash] at made
      obtain rfl := some.inj (some.inj made)
      exact same (strchr_found dash).symm fun _ _ _ _ => by simp
    | none =>
      rw [dash] at made is
      dsimp only at made is
      split at made
      · rename_i stars
        rw [if_pos stars] at is
        obtain ⟨_, _, _, _, rfl, parts, begins⟩ :=
          wildcard_parts (some.inj is) (some.inj made)
        refine ⟨fun byte member => legal byte (begins.subset member), ?_,
          fun other => absurd rfl (other _ _ _ _), ?_⟩
        · have sized := parts.sized
          simp only [forall_mem_cons] at sized
          simp only [printed, intercalate_cons_cons, intercalate_singleton,
            length_append, length_singleton]
          omega
        · rintro _ _ _ _ ⟨⟩
          refine ⟨parts, fun member => ?_⟩
          rw [strchr, if_pos (begins.subset member)] at dash
          cases dash
      · split at made
        · rename_i base mask bar
          split at made <;> obtain rfl := some.inj (some.inj made) <;>
            exact same (strchr_found bar).symm fun _ _ _ _ => by simp
        · obtain rfl := some.inj (some.inj made)
          exact same rfl fun _ _ _ _ => by simp

/-- The form that is guessed from the printed text: a wildcard without asterisks has become an exact
address. -/
def reread (form : Form) : Form :=
  match form with
  | .wildcard _ _ _ _ => if star ∈ printed form then form else .exact (printed form)
  | _ => form

theorem printed_read (accepted : Accepted form)
    (wild : ∀ info1 info2 info3 info4, form = .wildcard info1 info2 info3 info4 →
      star ∉ printed form → slash ∉ printed form) :
    ipbanStrToIpbanEntry (some (printed form)) = some (some (reread form)) := by
  cases form with
  | wildcard info1 info2 info3 info4 =>
    obtain ⟨parts, dash⟩ := accepted.parts _ _ _ _ rfl
    have bar := wild _ _ _ _ rfl
    have long := accepted.long
    have nonempty : printed (.wildcard info1 info2 info3 info4) ≠ [] := length_pos_iff.mp (by omega)
    have exact_ip := parts.exact
    have tokens : wildcardForm (printed (.wildcard info1 info2 info3 info4)) =
        some (.wildcard info1 info2 info3 info4) := by
      rw [wildcardForm, printed, parts.tokens]
    change ipbanCouldBeExactIpStr (printed (.wildcard info1 info2 info3 info4)) = true at exact_ip
    have could : ipbanCouldBeIpStr (printed (.wildcard info1 info2 info3 info4)) = some true := by
      rw [ipbanCouldBeIpStr, if_neg (by omega), all_eq_true.mpr accepted.legal,
        strchr_none dash]
      by_cases stars : star ∈ printed (.wildcard info1 info2 info3 info4)
      · simp [strchr, stars, exact_ip]
      · simp [strchr, stars, bar stars, exact_ip]
    simp only [ipbanStrToIpbanEntry, if_neg nonempty, could, bind_eq_bind,
      bind_some, strchr_none dash, reread]
    by_cases stars : star ∈ printed (.wildcard info1 info2 info3 info4)
    · simp [strchr, stars, tokens]
    · simp [strchr, stars, bar stars]
  | exact info1 => exact accepted.again fun _ _ _ _ => by simp
  | range info1 info2 => exact accepted.again fun _ _ _ _ => by simp
  | netmask info1 info2 => exact accepted.again fun _ _ _ _ => by simp
  | prefixed info1 info2 => exact accepted.again fun _ _ _ _ => by simp

theorem check_reread (accepted : Accepted form) (address : Address) :
    checkEntry (inetNtoa address) (unsigned address.first.toNat) (unsigned address.second.toNat)
        (unsigned address.third.toNat) (unsigned address.fourth.toNat) (reread form) =
      checkEntry (inetNtoa address) (unsigned address.first.toNat) (unsigned address.second.toNat)
        (unsigned address.third.toNat) (unsigned address.fourth.toNat) form := by
  cases form with
  | wildcard info1 info2 info3 info4 =>
    rw [reread]
    split
    · rfl
    rename_i stars
    have apart := (accepted.parts _ _ _ _ rfl).1
    have other (info : Text) (member : info ∈ [info1, info2, info3, info4]) :
        info ≠ [star] := by
      rintro rfl
      refine stars ?_
      simp only [mem_cons, not_mem_nil, or_false] at member
      rcases member with rfl | rfl | rfl | rfl <;> simp [printed, intercalate_cons_cons]
    have equal : printed (.wildcard info1 info2 info3 info4) = inetNtoa address ↔
        [info1, info2, info3, info4] = [unsigned address.first.toNat,
          unsigned address.second.toNat, unsigned address.third.toNat,
          unsigned address.fourth.toNat] := by
      refine ⟨fun same => ?_, fun same => congrArg [dot].intercalate same⟩
      rw [← apart.tokens, ← inet_tokens]
      exact congrArg strtok same
    simp only [checkEntry, equal, ne_eq, other info1 (by simp), other info2 (by simp),
      other info3 (by simp), other info4 (by simp), not_false_eq_true, true_and]
    grind [verdict]
  | _ => rfl

/-! A line of the file. -/

theorem legal_range (known : legal byte = true) : 42 ≤ byte ∧ byte ≤ 57 := by
  simp only [legal, isdigit, Bool.or_eq_true, Bool.and_eq_true] at known
  have known := known.imp_right of_decide_eq_true
  rcases known with (((range | point) | asterisk) | bar) | rfl
  · exact ⟨UInt8.le_trans (by decide) (of_decide_eq_true range.1), of_decide_eq_true range.2⟩
  · rw [of_decide_eq_true point]; decide
  · rw [of_decide_eq_true asterisk]; decide
  · rw [of_decide_eq_true bar]; decide
  · decide

theorem range_dark (range : 42 ≤ byte ∧ byte ≤ 57) : blank byte = false := by
  have least := UInt8.le_iff_toNat_le.mp range.1
  simp only [blank, Bool.or_eq_false_iff, decide_eq_false_iff_not]
  constructor <;> rintro rfl <;> simp at least

theorem seconds_read (value : Nat) (small : value < 2 ^ 32) :
    clockstrToSeconds (unsigned value) = some (ofNat value) := by
  have range := unsigned_range value
  have plain : (58 : UInt8) ∉ unsigned value := fun member => by
    have most := (range 58 member).2
    exact absurd most (by decide)
  have numerals : (unsigned value).all (fun byte => isdigit byte || byte = 58) = true := by
    rw [List.all_eq_true]
    intro byte member
    simp [isdigit, range byte member]
  have last : [unsigned value].getLast? ≠ some [] := by
    simp [unsigned, digits_ne_nil]
  have read : fromDigits 10 (unsigned value) = value := from_digits_digits base_ten value
  simp only [clockstrToSeconds, if_pos numerals, splitOn_eq_singleton plain, if_neg last,
    foldl_cons, foldl_nil, strtoul10, read, Nat.min_eq_left (show value ≤ 2 ^ 64 - 1 by omega)]
  simp

def lineText (entry : IpbanEntry) : Text :=
  if entry.endtime = 0 then printed entry.form
  else printed entry.form ++ 32 :: signed entry.endtime

theorem line_read (accepted : Accepted entry.form) (positive : 0 ≤ entry.endtime)
    (small : entry.endtime < 2 ^ 32) :
    lineEntry (lineText entry) = some (printed entry.form, entry.endtime) := by
  obtain ⟨form, endtime⟩ := entry
  obtain ⟨value, rfl⟩ := Int.eq_ofNat_of_zero_le positive
  dsimp only at accepted small ⊢
  have dark : ∀ byte ∈ printed form, blank byte = false := fun byte member =>
    range_dark (legal_range (accepted.legal byte member))
  have long := accepted.long
  obtain ⟨first, rest, shape⟩ := exists_cons_of_length_pos (show 0 < (printed form).length by omega)
  have first_legal := legal_range (accepted.legal first (shape ▸ mem_cons_self))
  have remark : first ≠ 35 := by
    rintro rfl
    exact absurd first_legal.1 (by decide)
  by_cases forever : (value : Int) = 0
  · have line : lineText ⟨form, value⟩ = printed form := if_pos forever
    have trimmed : (printed form).rdropWhile blank = printed form := by
      rw [rdropWhile_eq_self_iff]
      intro nonempty
      simp [dark _ (getLast_mem nonempty)]
    have none : (printed form).any blank = false := by
      simpa using dark
    rw [line, lineEntry]
    have front : (printed form).dropWhile blank = printed form := by
      rw [shape, dropWhile_cons_of_neg (by simp [dark first (shape ▸ mem_cons_self)])]
    simp only [front, trimmed, none]
    rw [if_neg (by simp [shape, remark]), forever]
    rfl
  have line : lineText ⟨form, value⟩ = printed form ++ 32 :: unsigned value := if_neg forever
  have time_dark : ∀ byte ∈ unsigned value, blank byte = false := fun byte member =>
    range_dark ⟨UInt8.le_trans (by decide) (unsigned_range value byte member).1,
      (unsigned_range value byte member).2⟩
  have filled : unsigned value ≠ [] := digits_ne_nil 10 value
  have trimmed : (printed form ++ 32 :: unsigned value).rdropWhile blank =
      printed form ++ 32 :: unsigned value := by
    rw [rdropWhile_eq_self_iff]
    intro nonempty
    rw [getLast_append_of_ne_nil _ (by simp), getLast_cons filled, time_dark _ (getLast_mem filled)]
    decide
  have front : (printed form ++ 32 :: unsigned value).dropWhile blank =
      printed form ++ 32 :: unsigned value := by
    rw [shape, cons_append, dropWhile_cons_of_neg (by simp [dark first (shape ▸ mem_cons_self)])]
  have some_blank : (printed form ++ 32 :: unsigned value).any blank = true :=
    any_eq_true.mpr ⟨32, by simp, by decide⟩
  have word : (printed form ++ 32 :: unsigned value).takeWhile (!blank ·) = printed form := by
    rw [takeWhile_append_of_pos (by simpa using dark),
      takeWhile_cons_of_neg (by decide), append_nil]
  have time : ((printed form ++ 32 :: unsigned value).dropWhile (!blank ·)).dropWhile blank =
      unsigned value := by
    rw [dropWhile_append_of_pos (by simpa using dark),
      dropWhile_cons_of_neg (by decide), dropWhile_cons_of_pos (by decide)]
    obtain ⟨digit, digits, number⟩ := exists_cons_of_ne_nil filled
    rw [number, dropWhile_cons_of_neg (by simp [time_dark digit (number ▸ mem_cons_self)])]
  rw [line, lineEntry]
  simp only [front, trimmed, some_blank, word, time, if_true]
  rw [if_neg (by simp [shape, remark]), seconds_read value (by omega)]
  simp only [getD_some, toNat_ofNat', Nat.mod_eq_of_lt (show value < 2 ^ 32 by omega)]

theorem line_ordinary (accepted : Accepted entry.form) :
    ∀ byte ∈ lineText entry, Ordinary byte := by
  have text_ordinary : ∀ byte ∈ printed entry.form, Ordinary byte := fun byte member => by
    have least := UInt8.le_iff_toNat_le.mp (legal_range (accepted.legal byte member)).1
    have most := UInt8.le_iff_toNat_le.mp (legal_range (accepted.legal byte member)).2
    refine ⟨⟨?_, ?_, ?_⟩, ?_⟩ <;> rintro rfl
    · exact absurd least (by decide)
    · exact absurd least (by decide)
    · exact absurd least (by decide)
    · exact absurd most (by decide)
  intro byte member
  rw [lineText] at member
  split at member
  · exact text_ordinary byte member
  rw [mem_append, mem_cons] at member
  rcases member with member | rfl | member
  · exact text_ordinary byte member
  · exact ⟨⟨by decide, by decide, by decide⟩, by decide⟩
  · exact signed_ordinary entry.endtime byte member

theorem entry_saved (faithful : Faithful entry) :
    saveEntry entry = some (lineText entry ++ [newline]) := by
  have fits := faithful.fits
  obtain ⟨value, number⟩ := Int.eq_ofNat_of_zero_le faithful.positive
  have small := faithful.small
  have width : (signed entry.endtime).length ≤ 10 := by
    rw [number]
    exact digits_length_le 10 value 10 (by decide) (by decide) (by omega)
  rw [maxMessageLen] at fits
  rw [saveEntry, ipbanEntryToStr, sprintf, if_pos (show _ ≤ maxMessageLen from faithful.fits)]
  refine if_pos ?_
  split
  · simp only [length_append, length_singleton]
    omega
  · simp only [length_append, length_cons, length_nil]
    omega

/-! The whole list. -/

def reload (entry : IpbanEntry) : IpbanEntry := { entry with form := reread entry.form }

theorem list_saved (faithful : ∀ entry ∈ entries, Faithful entry) :
    ipbanlistSave entries = some ((entries.map lineText).flatMap (· ++ [newline])) := by
  have lines : entries.mapM saveEntry =
      some (entries.map fun entry => lineText entry ++ [newline]) := by
    induction entries with
    | nil => rfl
    | cons entry rest ih =>
      rw [forall_mem_cons] at faithful
      rw [mapM_cons, entry_saved faithful.1, ih faithful.2]
      rfl
  rw [ipbanlistSave, lines, map_some, flatMap_map, flatMap]

theorem line_loaded (accepted : Accepted entry.form) (faithful : Faithful entry) (state : State) :
    loadLine state (lineText entry) =
      some { state with entries := state.entries ++ [reload entry] } := by
  rw [loadLine, line_read accepted faithful.positive faithful.small]
  simp only [ipbanlistAdd, printed_read accepted faithful.wild, bind_eq_bind, bind_some, map_some]
  rfl

theorem lines_loaded (accepted : ∀ entry ∈ entries, Accepted entry.form)
    (faithful : ∀ entry ∈ entries, Faithful entry) (state : State) :
    (entries.map lineText).foldlM loadLine state =
      some { state with entries := state.entries ++ entries.map reload } := by
  induction entries generalizing state with
  | nil => simp
  | cons entry rest ih =>
    rw [forall_mem_cons] at accepted faithful
    rw [map_cons, foldlM_cons, line_loaded accepted.1 faithful.1]
    exact (ih accepted.2 faithful.2 _).trans (by simp)

theorem entries_answer (accepted : ∀ entry ∈ entries, Accepted entry.form) (address : Address)
    (counter : Nat) :
    checkEntries (inetNtoa address) (unsigned address.first.toNat) (unsigned address.second.toNat)
        (unsigned address.third.toNat) (unsigned address.fourth.toNat) counter
        (entries.map reload) =
      checkEntries (inetNtoa address) (unsigned address.first.toNat)
        (unsigned address.second.toNat) (unsigned address.third.toNat)
        (unsigned address.fourth.toNat) counter entries := by
  induction entries generalizing counter with
  | nil => rfl
  | cons entry rest ih =>
    rw [forall_mem_cons] at accepted
    rw [map_cons, checkEntries, checkEntries, reload]
    simp only [check_reread accepted.1, ih accepted.2]

theorem refresh_reload (now interval lastchecktime : Int) (entries : List IpbanEntry) :
    refresh now interval ⟨entries.map reload, lastchecktime⟩ =
      { refresh now interval ⟨entries, lastchecktime⟩ with
        entries := (refresh now interval ⟨entries, lastchecktime⟩).entries.map reload } := by
  rw [refresh, refresh]
  split
  · simp only [ipbanlistUnloadExpired, List.filter_map]
    rfl
  · rfl

theorem refresh_subset (now interval : Int) (state : State) :
    (refresh now interval state).entries ⊆ state.entries := by
  rw [refresh]
  split
  · exact filter_subset_self _
  · exact fun _ member => member

theorem list_restored (accepted : ∀ entry ∈ entries, Accepted entry.form)
    (faithful : ∀ entry ∈ entries, Faithful entry) :
    ∃ file loaded, Restores entries file loaded := by
  refine ⟨_, entries.map reload, list_saved faithful, ?_, by simp, ?_, ?_⟩
  · have ordinary : ∀ line ∈ entries.map lineText, ∀ byte ∈ line, Ordinary byte := by
      intro line member
      obtain ⟨entry, listed, rfl⟩ := mem_map.mp member
      exact line_ordinary (accepted entry listed)
    rw [ipbanlistLoad, file_lines_plain _ (fun line member byte inside =>
      (ordinary line member byte inside).1) fun line member byte last =>
        (ordinary line member byte (mem_of_getLast? last)).2,
      lines_loaded accepted faithful]
    rfl
  · rw [List.map_map]
    rfl
  · intro now interval lastchecktime address
    have known : ∀ entry ∈ (refresh now interval ⟨entries, lastchecktime⟩).entries,
        Accepted entry.form := fun entry member =>
      accepted entry (refresh_subset now interval _ member)
    rw [ipbanlistCheck, ipbanlistCheck, refresh_reload, inet_tokens]
    simp only [entries_answer known, bind_eq_bind, map_bind]
    rfl

theorem add_accepted {state state' : State} {add : Text × Int}
    (accepted : ∀ entry ∈ state.entries, Accepted entry.form)
    (added : (ipbanlistAdd state (some add.1) add.2).map snd = some state') :
    ∀ entry ∈ state'.entries, Accepted entry.form := by
  rw [map_eq_some_iff] at added
  obtain ⟨⟨result, state'⟩, added, rfl⟩ := added
  obtain ⟨made, parsed, added⟩ := bind_eq_some_iff.mp added
  cases made with
  | none =>
    obtain ⟨-, rfl⟩ := mk.inj (some.inj added)
    exact accepted
  | some form =>
    obtain ⟨-, rfl⟩ := mk.inj (some.inj added)
    rw [forall_mem_append, forall_mem_singleton]
    exact ⟨accepted, accepted_text parsed⟩

theorem added_accepted (adds : List (Text × Int)) : ∀ {start state : State},
    (∀ entry ∈ start.entries, Accepted entry.form) →
    adds.foldlM (fun state add => (ipbanlistAdd state (some add.1) add.2).map snd) start =
      some state → ∀ entry ∈ state.entries, Accepted entry.form := by
  induction adds with
  | nil =>
    intro start state accepted added
    obtain rfl := some.inj added
    exact accepted
  | cons add rest ih =>
    intro start state accepted added
    obtain ⟨middle, first, others⟩ := bind_eq_some_iff.mp added
    exact ih (add_accepted accepted first) others

/-- The list is restored from its file if each entry survives the way it is written. -/
theorem ban_list_restored (adds : List (Text × Int)) (state : State)
    (added : addAll adds = some state) (faithful : ∀ entry ∈ state.entries, Faithful entry) :
    ∃ file loaded, Restores state.entries file loaded :=
  list_restored (added_accepted adds (by simp) added) faithful

/-- All five forms, and a wildcard without asterisks among its four parts. -/
theorem ban_list_restored_example : ∃ state file loaded,
    addAll [(text "10.0.0.1", 0), (text "10.*.0.*", 1700000000), (text "10.0.0.1-10.0.0.9", 0),
      (text "10.0.0.0/255.0.0.0", 5), (text "10.0.0.0/8", 0), (text "1.2.3.4.*", 0)] = some state ∧
      state.entries.length = 6 ∧ Restores state.entries file loaded := by
  have added : addAll [(text "10.0.0.1", 0), (text "10.*.0.*", 1700000000),
      (text "10.0.0.1-10.0.0.9", 0), (text "10.0.0.0/255.0.0.0", 5), (text "10.0.0.0/8", 0),
      (text "1.2.3.4.*", 0)] = some ⟨[⟨.exact (text "10.0.0.1"), 0⟩,
        ⟨.wildcard (text "10") (text "*") (text "0") (text "*"), 1700000000⟩,
        ⟨.range (text "10.0.0.1") (text "10.0.0.9"), 0⟩,
        ⟨.netmask (text "10.0.0.0") (text "255.0.0.0"), 5⟩,
        ⟨.prefixed (text "10.0.0.0") (text "8"), 0⟩,
        ⟨.wildcard (text "1") (text "2") (text "3") (text "4"), 0⟩], 0⟩ := by
    rfl
  obtain ⟨file, loaded, restores⟩ := ban_list_restored _ _ added (by
    simp only [forall_mem_cons]
    refine ⟨?_, ?_, ?_, ?_, ?_, ?_, by simp⟩ <;> refine ⟨by decide, by decide, by decide, ?_⟩ <;>
      rintro _ _ _ _ ⟨⟩ <;> decide)
  exact ⟨_, file, loaded, added, rfl, restores⟩

/-- An end time that does not fit an `unsigned int` comes back as another. -/
theorem long_ban_shortened : ∃ state, addAll [(text "10.0.0.1", 4780000000)] = some state ∧
    ¬ ∃ file loaded, Restores state.entries file loaded := by
  refine ⟨⟨[⟨.exact (text "10.0.0.1"), 4780000000⟩], 0⟩, by rfl, ?_⟩
  rintro ⟨file, loaded, restores⟩
  have written : ipbanlistSave [⟨.exact (text "10.0.0.1"), 4780000000⟩] =
      some (text "10.0.0.1 4780000000\n") := by rfl
  obtain rfl := Option.some.inj (written.symm.trans restores.saved)
  have again : ipbanlistLoad ⟨[], 0⟩ (text "10.0.0.1 4780000000\n") =
      some ⟨[⟨.exact (text "10.0.0.1"), 485032704⟩], 0⟩ := by rfl
  obtain ⟨rfl, -⟩ := State.mk.inj (Option.some.inj (again.symm.trans restores.read))
  exact absurd restores.endtimes (by decide)

end Pvpgn.IpBanFile
