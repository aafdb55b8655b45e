import Pvpgn.FilePlain
import Mathlib.Data.List.AList

/-!
Where the file storage keeps an account: the path built when an account is created, the one built
when it is looked up by name, and the names the server accepts at all. The file system is a map from
paths to contents.
-/

namespace Pvpgn.AccountFile
open Stdio TextUtil FilePlain List Option

abbrev Files := AList fun _ : Text => Text

def slash : UInt8 := 47

structure Storage where
  accountsdir : Text
  defacct : Text
  savebyname : Bool
  maxuserid : UInt32
  files : Files

def minUsernameLen : Nat := 2
def maxUsernameLen : Nat := 16

def isalnum (byte : UInt8) : Bool :=
  (48 ≤ byte && byte ≤ 57) || (65 ≤ byte && byte ≤ 90) || (97 ≤ byte && byte ≤ 122)

/-- `account_check_name` accepts the name; the allowed symbols are a preference. -/
def accountCheckName (symbols name : Text) : Bool :=
  (name.all fun ch => ch != slash && ch != backslash && (isalnum ch || symbols.contains ch)) &&
    minUsernameLen ≤ name.length && name.length < maxUsernameLen

def defaultSymbols : Text := text "-_[]"

def path (directory name : Text) : Text := directory ++ slash :: name

def fileCreateAccount (storage : Storage) (username : Text) : Option Text :=
  if storage.savebyname then
    if username = storage.defacct then none
    else some (path storage.accountsdir (escapeFsChars username))
  else some (path storage.accountsdir
    (zeroPadded 6 (unsigned (storage.maxuserid + 1).toNat)))

def accountTmp : Text := text ".bnetd_acct_temp"

/-- The driver writes a temporary file, which is renamed to the account's. -/
def fileWriteAttrs (driver : List Attr → Text) (storage : Storage) (info : Text)
    (attributes : List Attr) : Storage :=
  { storage with
    files := ((storage.files.insert (path storage.accountsdir accountTmp) (driver attributes)).erase
      (path storage.accountsdir accountTmp)).insert info (driver attributes) }

/-- Only a lookup by name in a storage that saves by name is answered, by a file that exists. -/
def fileReadAccount (storage : Storage) (accname : Option Text) : Option Text :=
  match accname with
  | some name =>
    if storage.savebyname then
      if path storage.accountsdir name ∈ storage.files then
        some (path storage.accountsdir name)
      else none
    else none
  | none => none

def lastComponent (name : Text) : Text := (name.reverse.takeWhile (· ≠ slash)).reverse

theorem upper_hex_shape : ∀ value < 256, (upperHex (UInt8.ofNat value)).length = 2 ∧
    fromDigits 16 (upperHex (UInt8.ofNat value)) = value ∧
    (upperHex (UInt8.ofNat value)).all (fun byte => !isReserved byte) = true := by
  decide +kernel

variable (byte : UInt8) (name : Text)

theorem upper_hex_length : (upperHex byte).length = 2 := by
  have shape := upper_hex_shape byte.toNat byte.toNat_lt
  rw [UInt8.ofNat_toNat] at shape
  exact shape.1

theorem upper_hex_injective (left right : UInt8) (same : upperHex left = upperHex right) :
    left = right := by
  have leftShape := upper_hex_shape left.toNat left.toNat_lt
  have rightShape := upper_hex_shape right.toNat right.toNat_lt
  rw [UInt8.ofNat_toNat] at leftShape rightShape
  apply UInt8.toNat_inj.mp
  calc left.toNat = fromDigits 16 (upperHex left) := leftShape.2.1.symm
    _ = fromDigits 16 (upperHex right) := by rw [same]
    _ = right.toNat := rightShape.2.1

theorem upper_hex_plain : ∀ digit ∈ upperHex byte, isReserved digit = false := by
  have shape := upper_hex_shape byte.toNat byte.toNat_lt
  simpa using shape.2.2

theorem escape_fs_plain (plain : isReserved byte = false) : escapeFsChar byte = [byte] := by
  simp [escapeFsChar, plain]

theorem escape_fs_reserved (reserved : isReserved byte = true) :
    escapeFsChar byte = 37 :: upperHex byte := by
  simp [escapeFsChar, reserved]

variable (directory left right : Text)

theorem escape_fs_injective (same : escapeFsChars left = escapeFsChars right) : left = right := by
  have percent : isReserved 37 = true := by decide
  induction left generalizing right with
  | nil =>
    cases right with
    | nil => rfl
    | cons byte rest =>
      by_cases reserved : isReserved byte = true
      · simp [escapeFsChars, escape_fs_reserved byte reserved] at same
      · simp [escapeFsChars, escape_fs_plain byte (by simpa using reserved)] at same
  | cons first tail ih =>
    cases right with
    | nil =>
      by_cases reserved : isReserved first = true
      · simp [escapeFsChars, escape_fs_reserved first reserved] at same
      · simp [escapeFsChars, escape_fs_plain first (by simpa using reserved)] at same
    | cons second rest =>
      rw [escapeFsChars, escapeFsChars, flatMap_cons, flatMap_cons] at same
      by_cases firstReserved : isReserved first = true
      · rw [escape_fs_reserved first firstReserved] at same
        by_cases secondReserved : isReserved second = true
        · rw [escape_fs_reserved second secondReserved] at same
          have digits := (List.cons.inj same).2
          have lengths : (upperHex first).length = (upperHex second).length := by
            rw [upper_hex_length, upper_hex_length]
          have parts := append_inj digits lengths
          rw [upper_hex_injective first second parts.1, ih rest parts.2]
        · rw [escape_fs_plain second (by simpa using secondReserved)] at same
          have start : 37 = second := (List.cons.inj same).1
          exact absurd (start ▸ percent) secondReserved
      · rw [escape_fs_plain first (by simpa using firstReserved)] at same
        by_cases secondReserved : isReserved second = true
        · rw [escape_fs_reserved second secondReserved] at same
          have start : first = 37 := (List.cons.inj same).1
          exact absurd (start ▸ percent) firstReserved
        · rw [escape_fs_plain second (by simpa using secondReserved)] at same
          have parts := List.cons.inj same
          rw [parts.1, ih rest parts.2]

theorem escape_fs_clean :
    ∀ byte ∈ escapeFsChars name, byte ≠ slash ∧ byte ≠ backslash ∧ byte ≠ 58 := by
  have clean (byte : UInt8) (plain : isReserved byte = false) :
      byte ≠ slash ∧ byte ≠ backslash ∧ byte ≠ 58 := by
    refine ⟨?_, ?_, ?_⟩ <;> rintro rfl <;> exact absurd plain (by decide)
  intro byte member
  obtain ⟨source, _, escaped⟩ := mem_flatMap.mp member
  by_cases reserved : isReserved source = true
  · rw [escape_fs_reserved source reserved] at escaped
    rcases mem_cons.mp escaped with rfl | digit
    · decide
    · exact clean byte (upper_hex_plain source byte digit)
  · have plain : isReserved source = false := by simpa using reserved
    rw [escape_fs_plain source plain] at escaped
    rw [mem_singleton.mp escaped]
    exact clean source plain

theorem escape_fs_length : name.length ≤ (escapeFsChars name).length := by
  induction name with
  | nil => simp
  | cons byte rest ih =>
    have one : 1 ≤ (escapeFsChar byte).length := by
      by_cases reserved : isReserved byte = true
      · simp [escape_fs_reserved byte reserved]
      · simp [escape_fs_plain byte (by simpa using reserved)]
    rw [escapeFsChars, flatMap_cons, length_append, length_cons]
    have others : rest.length ≤ (rest.flatMap escapeFsChar).length := ih
    omega

theorem escape_fs_fixed_iff :
    escapeFsChars name = name ↔ ∀ byte ∈ name, isReserved byte = false := by
  induction name with
  | nil => simp [escapeFsChars]
  | cons byte rest ih =>
    rw [forall_mem_cons, escapeFsChars, flatMap_cons]
    by_cases reserved : isReserved byte = true
    · rw [escape_fs_reserved byte reserved]
      constructor
      · intro same
        have lengths := congrArg length same
        have others := escape_fs_length rest
        simp only [escapeFsChars] at others
        simp only [cons_append, length_cons, length_append, upper_hex_length] at lengths
        omega
      · intro plain
        simp [reserved] at plain
    · have plain : isReserved byte = false := by simpa using reserved
      rw [escape_fs_plain byte plain]
      simp only [singleton_append, List.cons.injEq, true_and, plain]
      exact ih

theorem path_injective (same : path directory left = path directory right) : left = right :=
  (List.cons.inj (append_cancel_left same)).2

theorem last_component_path (name : Text) (clean : slash ∉ name) :
    lastComponent (path directory name) = name := by
  have run : ∀ byte ∈ name.reverse, decide (byte ≠ slash) = true := by
    intro byte member
    have different : byte ≠ slash := fun same => clean (by simpa [same] using member)
    simpa using different
  have stops : Stops (fun byte => decide (byte ≠ slash)) (slash :: directory.reverse) :=
    (stops_cons _ _ _).mpr (by simp)
  have reversed : (path directory name).reverse = name.reverse ++ slash :: directory.reverse := by
    simp [path]
  rw [lastComponent, reversed, take_run _ _ _ run stops, reverse_reverse]

theorem read_saved_account (driver : List Attr → Text) (storage : Storage) (info name : Text)
    (attributes : List Attr) (byName : storage.savebyname = true) :
    fileReadAccount (fileWriteAttrs driver storage info attributes) (some name) = some info ↔
      path storage.accountsdir name = info := by
  constructor
  · intro found
    simp only [fileReadAccount, fileWriteAttrs, byName, if_true] at found
    by_cases listed : path storage.accountsdir name ∈ AList.insert info (driver attributes)
        ((storage.files.insert (path storage.accountsdir accountTmp) (driver attributes)).erase
          (path storage.accountsdir accountTmp))
    · rw [if_pos listed] at found
      exact some.inj found
    · rw [if_neg listed] at found
      contradiction
  · rintro rfl
    simp [fileReadAccount, fileWriteAttrs, byName]

/-- In a storage that saves by name distinct names get distinct paths with a safe last component,
but an account is found again by its name exactly when the name has nothing to escape: the lookup
does not escape it. -/
theorem create_then_read_account (driver : List Attr → Text) (storage : Storage)
    (name other : Text) (attributes : List Attr) (byName : storage.savebyname = true)
    (ordinary : name ≠ storage.defacct) (otherOrdinary : other ≠ storage.defacct) :
    (name ≠ other → fileCreateAccount storage name ≠ fileCreateAccount storage other) ∧
      ∃ info, fileCreateAccount storage name = some info ∧
        (∀ byte ∈ lastComponent info, byte ≠ slash ∧ byte ≠ backslash ∧ byte ≠ 58) ∧
        (fileReadAccount (fileWriteAttrs driver storage info attributes) (some name) = some info ↔
          ∀ byte ∈ name, isReserved byte = false) := by
  have created : fileCreateAccount storage name =
      some (path storage.accountsdir (escapeFsChars name)) := by
    simp [fileCreateAccount, byName, ordinary]
  have otherCreated : fileCreateAccount storage other =
      some (path storage.accountsdir (escapeFsChars other)) := by
    simp [fileCreateAccount, byName, otherOrdinary]
  refine ⟨?_, _, created, ?_, ?_⟩
  · intro different same
    rw [created, otherCreated] at same
    have escaped := path_injective _ _ _ (some.inj same)
    exact different (escape_fs_injective name other escaped)
  · have clean : slash ∉ escapeFsChars name := fun member => (escape_fs_clean name _ member).1 rfl
    rw [last_component_path _ _ clean]
    exact escape_fs_clean name
  · rw [read_saved_account driver storage _ name attributes byName, ← escape_fs_fixed_iff]
    constructor
    · intro same
      exact (path_injective _ _ _ same).symm
    · intro fixed
      rw [fixed]

def exampleStorage : Storage :=
  { accountsdir := text "users", defacct := text "default", savebyname := true, maxuserid := 0,
    files := ∅ }

theorem create_then_read_account_plain :
    fileReadAccount (fileWriteAttrs (fun _ => []) exampleStorage (text "users/[A]-1") [])
      (some (text "[A]-1")) = some (text "users/[A]-1") := by
  obtain ⟨_, info, created, _, found⟩ := create_then_read_account (fun _ => []) exampleStorage
    (text "[A]-1") (text "x%") [] rfl (by decide) (by decide)
  have same : info = text "users/[A]-1" := by
    have computed : fileCreateAccount exampleStorage (text "[A]-1") =
        some (text "users/[A]-1") := by decide +kernel
    exact some.inj (created.symm.trans computed)
  rw [same] at found
  have unreserved : (text "[A]-1").all (fun byte => !isReserved byte) = true := by decide
  exact found.mpr (by simpa using unreserved)

/-- With `%` among the allowed symbols an account is created and cannot be found again. -/
theorem created_account_not_found :
    accountCheckName (text "-_[]%") (text "a%b") = true ∧
      fileCreateAccount exampleStorage (text "a%b") = some (text "users/a%25b") ∧
      fileReadAccount (fileWriteAttrs (fun _ => []) exampleStorage (text "users/a%25b") [])
        (some (text "a%b")) = none := by
  decide +kernel

end Pvpgn.AccountFile
