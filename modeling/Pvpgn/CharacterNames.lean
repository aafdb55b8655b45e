import Pvpgn.AccountFile
import Pvpgn.CharBuffer
import Pvpgn.CharacterList
import Pvpgn.D2LadderFile

/-!
The checks of character and account names and the file names that are made of them. A name is a C
string: a check reads it up to its NUL, and a file name copies it into an array of fixed size. A
read outside the string or an array is `none`.
-/

namespace Pvpgn.CharacterNames
open Stdio CheckedArray CharBuffer List Option
open AccountFile (isalnum slash minUsernameLen maxUsernameLen)
open D2LadderFile (strncpy)
open D2Ladder (maxCharnameLen)

def minCharnameLen : Nat := 2

structure Prefs where
  accountAllowedSymbols : Text
  charsaveDir : Text
  bakCharsaveDir : Text
  charinfoDir : Text
  bakCharinfoDir : Text

/-- `isalpha` in the C locale. -/
def isalpha (byte : UInt8) : Bool := (65 ≤ byte && byte ≤ 90) || (97 ≤ byte && byte ≤ 122)

/-- The loop of a check from position `i` on: the position it ends at, or `some none` when it
returns. -/
def scanName (allowed : UInt8 → Bool) (memory : Text) : Nat → Nat → Option (Option Nat)
  | 0, i => some (some i)
  | left + 1, i => do
    let ch ← readAt memory i
    if ch = 0 then some (some i)
    else if allowed ch then scanName allowed memory left (i + 1)
    else some none

/-- Both checks go through at most `MAX_CHARNAME_LEN` characters after the first. -/
def checkName (first allowed : UInt8 → Bool) (least most : Nat) (name : Text) : Option Int := do
  let ch ← readAt (name ++ [0]) 0
  if first ch then
    let found ← scanName allowed (name ++ [0]) maxCharnameLen 1
    match found with
    | none => some (-1)
    | some i => if least ≤ i ∨ i ≤ most then some 0 else some (-1)
  else some (-1)

def charnameSymbol (ch : UInt8) : Bool := isalpha ch || ch == 45 || ch == 95 || ch == 46

def acctnameSymbol (prefs : Prefs) (ch : UInt8) : Bool :=
  isalnum ch || prefs.accountAllowedSymbols.contains ch

def d2charCheckCharname (name : Text) : Option Int :=
  checkName isalpha charnameSymbol minCharnameLen maxCharnameLen name

def d2charCheckAcctname (prefs : Prefs) (name : Text) : Option Int :=
  checkName isalnum (acctnameSymbol prefs) minUsernameLen maxUsernameLen name

def strtolower (cells : Text) : Option Text :=
  if 0 ∈ cells then some ((cells.takeWhile (· ≠ 0)).map tolower ++ cells.dropWhile (· ≠ 0))
  else none

def charFile (dir charname : Text) : Option Text := do
  let tmpchar ← writeAt (strncpy maxCharnameLen charname) (maxCharnameLen - 1) 0
  let tmpchar ← strtolower tmpchar
  let printed ← stringAt tmpchar
  some (dir ++ slash :: printed)

def d2charGetSavefileName (prefs : Prefs) (charname : Text) : Option Text :=
  charFile prefs.charsaveDir charname

def d2charGetBakSavefileName (prefs : Prefs) (charname : Text) : Option Text :=
  charFile prefs.bakCharsaveDir charname

def d2charGetInfodirName (prefs : Prefs) (account : Text) : Option Text := do
  let tmpacct ← writeAt (strncpy maxUsernameLen account) (maxUsernameLen - 1) 0
  let tmpacct ← strtolower tmpacct
  let printed ← stringAt tmpacct
  some (prefs.charinfoDir ++ slash :: printed)

/-- The terminator that is meant for `tmpacct` is written to `tmpchar`. -/
def infoFile (dir account charname : Text) : Option Text := do
  let tmpchar ← writeAt (strncpy maxCharnameLen charname) (maxCharnameLen - 1) 0
  let tmpchar ← strtolower tmpchar
  let tmpchar ← writeAt tmpchar (maxUsernameLen - 1) 0
  let tmpacct ← strtolower (strncpy maxUsernameLen account)
  let printedAcct ← stringAt tmpacct
  let printedChar ← stringAt tmpchar
  some (dir ++ slash :: (printedAcct ++ slash :: printedChar))

def d2charGetInfofileName (prefs : Prefs) (account charname : Text) : Option Text :=
  infoFile prefs.charinfoDir account charname

def d2charGetBakInfofileName (prefs : Prefs) (account charname : Text) : Option Text :=
  infoFile prefs.bakCharinfoDir account charname

/-! What the checks are for. -/

structure Subject where
  account : Text
  charname : Text
  plainAccount : 0 ∉ account
  plainCharname : 0 ∉ charname

def Valid (first allowed : UInt8 → Bool) (least most : Nat) (name : Text) : Prop :=
  (least ≤ name.length ∧ name.length ≤ most - 1) ∧
    name.head?.any first = true ∧ name.tail.all allowed = true

def ValidCharname : Text → Prop := Valid isalpha charnameSymbol minCharnameLen maxCharnameLen

def ValidAcctname (prefs : Prefs) : Text → Prop :=
  Valid isalnum (acctnameSymbol prefs) minUsernameLen maxUsernameLen

def lower (name : Text) : Text := name.map tolower

structure NamesRight (prefs : Prefs) (subject : Subject) : Prop where
  charname : d2charCheckCharname subject.charname = some 0 ↔ ValidCharname subject.charname
  acctname : d2charCheckAcctname prefs subject.account = some 0 ↔
    ValidAcctname prefs subject.account
  charnameFits : d2charCheckCharname subject.charname = some 0 →
    subject.charname.length + 1 ≤ maxCharnameLen
  acctnameFits : d2charCheckAcctname prefs subject.account = some 0 →
    subject.account.length + 1 ≤ maxUsernameLen

structure Accepted (prefs : Prefs) (subject : Subject) : Prop where
  charname : d2charCheckCharname subject.charname = some 0
  acctname : d2charCheckAcctname prefs subject.account = some 0

structure FilesRight (prefs : Prefs) (subject : Subject) : Prop where
  savefile : d2charCheckCharname subject.charname = some 0 →
    d2charGetSavefileName prefs subject.charname =
      some (prefs.charsaveDir ++ slash :: lower subject.charname)
  bakSavefile : d2charCheckCharname subject.charname = some 0 →
    d2charGetBakSavefileName prefs subject.charname =
      some (prefs.bakCharsaveDir ++ slash :: lower subject.charname)
  infodir : d2charCheckAcctname prefs subject.account = some 0 →
    d2charGetInfodirName prefs subject.account =
      some (prefs.charinfoDir ++ slash :: lower subject.account)
  infofile : Accepted prefs subject →
    d2charGetInfofileName prefs subject.account subject.charname = some (prefs.charinfoDir ++
      slash :: (lower subject.account ++ slash :: lower subject.charname))
  bakInfofile : Accepted prefs subject →
    d2charGetBakInfofileName prefs subject.account subject.charname = some (prefs.bakCharinfoDir ++
      slash :: (lower subject.account ++ slash :: lower subject.charname))

structure Apart (prefs : Prefs) (one two : Subject) : Prop where
  charnames : d2charCheckCharname one.charname = some 0 →
    d2charCheckCharname two.charname = some 0 → lower one.charname ≠ lower two.charname →
    d2charGetSavefileName prefs one.charname ≠ d2charGetSavefileName prefs two.charname ∧
    d2charGetBakSavefileName prefs one.charname ≠ d2charGetBakSavefileName prefs two.charname
  accounts : d2charCheckAcctname prefs one.account = some 0 →
    d2charCheckAcctname prefs two.account = some 0 → lower one.account ≠ lower two.account →
    d2charGetInfodirName prefs one.account ≠ d2charGetInfodirName prefs two.account
  infofiles : Accepted prefs one → Accepted prefs two →
    (lower one.account, lower one.charname) ≠ (lower two.account, lower two.charname) →
    d2charGetInfofileName prefs one.account one.charname ≠
      d2charGetInfofileName prefs two.account two.charname ∧
    d2charGetBakInfofileName prefs one.account one.charname ≠
      d2charGetBakInfofileName prefs two.account two.charname

structure Right (prefs : Prefs) (one two : Subject) : Prop where
  names : NamesRight prefs one ∧ NamesRight prefs two
  files : FilesRight prefs one ∧ FilesRight prefs two
  apart : Apart prefs one two

def Looks (first allowed : UInt8 → Bool) (name : Text) : Prop :=
  name.head?.any first = true ∧ (name.tail.take maxCharnameLen).all allowed = true

def Sized (first allowed : UInt8 → Bool) (name : Text) : Prop :=
  Looks first allowed name → 2 ≤ name.length ∧ name.length < 16

def SubjectSized (prefs : Prefs) (subject : Subject) : Prop :=
  Sized isalpha charnameSymbol subject.charname ∧
    Sized isalnum (acctnameSymbol prefs) subject.account

/-! The checks. -/

variable (first allowed : UInt8 → Bool) (name : Text) {prefs : Prefs} {subject : Subject}

theorem scanName_eq (left : Nat) (front rest : Text) (plain : 0 ∉ rest) :
    scanName allowed (front ++ (rest ++ [0])) left front.length =
      if (rest.take left).all allowed then some (some (front.length + min left rest.length))
      else some none := by
  induction left generalizing front rest with
  | zero => simp [scanName]
  | succ left ih =>
    cases rest with
    | nil => simp [scanName, readAt]
    | cons ch others =>
      rw [mem_cons, not_or] at plain
      have read : readAt (front ++ (ch :: others ++ [0])) front.length = some ch := by
        simp [readAt]
      have step := ih (front ++ [ch]) others plain.2
      rw [length_append, length_singleton, append_assoc] at step
      have amount : front.length + 1 + min left others.length =
          front.length + min (left + 1) (others.length + 1) := by omega
      simp only [scanName, read, bind_eq_bind, bind_some,
        if_neg (Ne.symm plain.1), take_succ_cons, all_cons, length_cons]
      by_cases fine : allowed ch = true
      · simp only [fine, if_true, Bool.true_and]
        rw [← amount]
        exact step
      · simp [fine]

theorem checkName_zero (plain : 0 ∉ name) (ended : first 0 = false) :
    checkName first allowed 2 16 name =
      if name.head?.any first && (name.tail.take maxCharnameLen).all allowed then some 0
      else some (-1) := by
  cases name with
  | nil => simp [checkName, readAt, ended]
  | cons ch rest =>
    rw [mem_cons, not_or] at plain
    have scanned := scanName_eq allowed maxCharnameLen [ch] rest plain.2
    rw [length_singleton, singleton_append] at scanned
    have always : 2 ≤ 1 + min maxCharnameLen rest.length ∨
        1 + min maxCharnameLen rest.length ≤ 16 := by omega
    simp only [checkName, cons_append, readAt, getElem?_cons_zero, bind_eq_bind, bind_some,
      scanned, head?_cons, any_some, tail_cons]
    by_cases alpha : first ch = true
    · by_cases fine : (rest.take maxCharnameLen).all allowed = true
      · simp [alpha, fine, always]
      · simp [alpha, fine]
    · simp [alpha]

theorem charname_accepted (plain : 0 ∉ name) :
    d2charCheckCharname name = some 0 ↔ Looks isalpha charnameSymbol name := by
  have zero := checkName_zero isalpha charnameSymbol name plain (by decide)
  rw [d2charCheckCharname, show minCharnameLen = 2 from rfl, show maxCharnameLen = 16 from rfl,
    zero]
  simp only [Looks, ← Bool.and_eq_true]
  split <;> simp_all

theorem acctname_accepted (prefs : Prefs) (name : Text) (plain : 0 ∉ name) :
    d2charCheckAcctname prefs name = some 0 ↔ Looks isalnum (acctnameSymbol prefs) name := by
  have zero := checkName_zero isalnum (acctnameSymbol prefs) name plain (by decide)
  rw [d2charCheckAcctname, show minUsernameLen = 2 from rfl, show maxUsernameLen = 16 from rfl,
    zero]
  simp only [Looks, ← Bool.and_eq_true]
  split <;> simp_all

theorem valid_looks (valid : Valid first allowed 2 16 name) : Looks first allowed name := by
  obtain ⟨-, start, others⟩ := valid
  refine ⟨start, all_eq_true.mpr fun ch member => ?_⟩
  exact all_eq_true.mp others ch (mem_of_mem_take member)

theorem sized_iff :
    (Looks first allowed name ↔ Valid first allowed 2 16 name) ↔ Sized first allowed name := by
  constructor
  · intro same looks
    have bounds := (same.mp looks).1
    omega
  intro sized
  refine ⟨fun looks => ?_, valid_looks first allowed name⟩
  have bounds := sized looks
  have whole : name.tail.take maxCharnameLen = name.tail := by
    refine take_of_length_le ?_
    rw [length_tail, show maxCharnameLen = 16 from rfl]
    omega
  exact ⟨⟨bounds.1, by omega⟩, looks.1, whole ▸ looks.2⟩

/-! The file names. -/

theorem lower_plain (plain : 0 ∉ name) : 0 ∉ lower name := by
  intro member
  obtain ⟨ch, source, zero⟩ := mem_map.mp member
  exact plain ((CharacterList.tolower_eq_zero ch).mp zero ▸ source)

theorem plain_test (plain : 0 ∉ name) : ∀ ch ∈ name, decide (ch ≠ 0) = true := by
  intro ch member
  have nonzero : ch ≠ 0 := fun same => plain (same ▸ member)
  simpa using nonzero

theorem terminate_short (short : name.length < 16) :
    writeAt (strncpy 16 name) 15 0 = some (strncpy 16 name) := by
  rw [write_inside _ _ _ (by rw [D2LadderFile.strncpy_length]; omega), strncpy,
    take_of_length_le (by omega), set_append_right _ _ (by omega), set_replicate_self]

theorem strtolower_short (plain : 0 ∉ name) (short : name.length < 16) :
    strtolower (strncpy 16 name) = some (strncpy 16 (lower name)) := by
  have zeros : replicate (16 - name.length) (0 : UInt8) = 0 :: replicate (15 - name.length) 0 := by
    rw [← replicate_succ]
    congr 1
    omega
  have same : (lower name).length = name.length := by simp [lower]
  rw [strtolower, strncpy, take_of_length_le (by omega), strncpy, take_of_length_le (by omega),
    same, zeros, if_pos (by simp), takeWhile_append_of_pos (plain_test name plain),
    dropWhile_append_of_pos (plain_test name plain)]
  simp [lower]

theorem string_short (plain : 0 ∉ name) (short : name.length < 16) :
    stringAt (strncpy 16 name) = some name := by
  have cells := string_filled 16 name plain short
  rw [strncpy, take_of_length_le (by omega)]
  exact cells

theorem charFile_short (dir name : Text) (plain : 0 ∉ name) (short : name.length < 16) :
    charFile dir name = some (dir ++ slash :: lower name) := by
  have same : (lower name).length < 16 := by simpa [lower] using short
  simp only [charFile, show maxCharnameLen = 16 from rfl, Nat.add_one_sub_one,
    terminate_short name short, strtolower_short name plain short,
    string_short _ (lower_plain name plain) same, bind_eq_bind, bind_some]

theorem infoFile_short (dir account charname : Text) (plainAccount : 0 ∉ account)
    (plainCharname : 0 ∉ charname) (shortAccount : account.length < 16)
    (shortCharname : charname.length < 16) : infoFile dir account charname =
      some (dir ++ slash :: (lower account ++ slash :: lower charname)) := by
  have sameAccount : (lower account).length < 16 := by simpa [lower] using shortAccount
  have sameCharname : (lower charname).length < 16 := by simpa [lower] using shortCharname
  simp only [infoFile, show maxCharnameLen = 16 from rfl, show maxUsernameLen = 16 from rfl,
    Nat.add_one_sub_one, terminate_short _ shortCharname, terminate_short _ sameCharname,
    strtolower_short charname plainCharname shortCharname,
    strtolower_short account plainAccount shortAccount,
    string_short _ (lower_plain charname plainCharname) sameCharname,
    string_short _ (lower_plain account plainAccount) sameAccount, bind_eq_bind, bind_some]

theorem last_slash {front front' name name' : Text}
    (same : front ++ slash :: name = front' ++ slash :: name') (free : slash ∉ name)
    (free' : slash ∉ name') : front = front' ∧ name = name' := by
  obtain ⟨between, rfl, rest⟩ | ⟨between, rfl, rest⟩ := append_eq_append_iff.mp same
  · cases between with
    | nil => simpa using rest
    | cons byte others =>
      obtain ⟨rfl, rfl⟩ := cons.inj rest
      simp at free
  · cases between with
    | nil => simpa using rest.symm
    | cons byte others =>
      obtain ⟨rfl, rfl⟩ := cons.inj rest
      simp at free'

theorem tolower_slash : ∀ byte : UInt8, tolower byte = slash → byte = slash := by
  have all : ∀ value < 256, tolower (UInt8.ofNat value) = slash → UInt8.ofNat value = slash := by
    decide +kernel
  intro byte
  have found := all byte.toNat byte.toNat_lt
  rwa [UInt8.ofNat_toNat] at found

theorem valid_no_slash (valid : ValidCharname name) : slash ∉ lower name := by
  obtain ⟨-, start, others⟩ := valid
  intro member
  obtain ⟨ch, source, low⟩ := mem_map.mp member
  obtain rfl := tolower_slash ch low
  cases name with
  | nil => simp at source
  | cons first rest =>
    rcases mem_cons.mp source with rfl | later
    · have letter : isalpha slash = true := start
      exact absurd letter (by decide)
    · exact absurd (all_eq_true.mp others slash later) (by decide)

/-! The result. -/

theorem names_right (sized : SubjectSized prefs subject) : NamesRight prefs subject := by
  have charname : d2charCheckCharname subject.charname = some 0 ↔ ValidCharname subject.charname :=
    (charname_accepted _ subject.plainCharname).trans ((sized_iff _ _ _).mpr sized.1)
  have acctname : d2charCheckAcctname prefs subject.account = some 0 ↔
      ValidAcctname prefs subject.account :=
    (acctname_accepted prefs _ subject.plainAccount).trans ((sized_iff _ _ _).mpr sized.2)
  refine ⟨charname, acctname, fun zero => ?_, fun zero => ?_⟩
  · have bounds := (charname.mp zero).1.2
    simp only [show maxCharnameLen = 16 from rfl] at bounds ⊢
    omega
  · have bounds := (acctname.mp zero).1.2
    simp only [show maxUsernameLen = 16 from rfl] at bounds ⊢
    omega

theorem NamesRight.sized (right : NamesRight prefs subject) : SubjectSized prefs subject :=
  ⟨(sized_iff _ _ _).mp ((charname_accepted _ subject.plainCharname).symm.trans right.charname),
    (sized_iff _ _ _).mp ((acctname_accepted prefs _ subject.plainAccount).symm.trans
      right.acctname)⟩

theorem files_right (right : NamesRight prefs subject) :
    FilesRight prefs subject where
  savefile zero := charFile_short _ _ subject.plainCharname (right.charnameFits zero)
  bakSavefile zero := charFile_short _ _ subject.plainCharname (right.charnameFits zero)
  infodir zero := charFile_short _ _ subject.plainAccount (right.acctnameFits zero)
  infofile both := infoFile_short _ _ _ subject.plainAccount subject.plainCharname
    (right.acctnameFits both.acctname) (right.charnameFits both.charname)
  bakInfofile both := infoFile_short _ _ _ subject.plainAccount subject.plainCharname
    (right.acctnameFits both.acctname) (right.charnameFits both.charname)

theorem path_injective {dir left right : Text}
    (same : some (dir ++ slash :: left) = some (dir ++ slash :: right)) : left = right := by
  simpa using same

theorem info_path_injective {dir account account' charname charname' : Text}
    (same : some (dir ++ slash :: (account ++ slash :: charname)) =
      some (dir ++ slash :: (account' ++ slash :: charname'))) (free : slash ∉ charname)
    (free' : slash ∉ charname') : (account, charname) = (account', charname') := by
  obtain ⟨accounts, charnames⟩ := last_slash (path_injective same) free free'
  rw [accounts, charnames]

theorem apart {one two : Subject} (names : NamesRight prefs one) (names' : NamesRight prefs two)
    (files : FilesRight prefs one) (files' : FilesRight prefs two) :
    Apart prefs one two where
  charnames zero zero' differ := by
    rw [files.savefile zero, files'.savefile zero', files.bakSavefile zero,
      files'.bakSavefile zero']
    exact ⟨fun same => differ (path_injective same), fun same => differ (path_injective same)⟩
  accounts zero zero' differ := by
    rw [files.infodir zero, files'.infodir zero']
    exact fun same => differ (path_injective same)
  infofiles both both' differ := by
    have free := valid_no_slash _ (names.charname.mp both.charname)
    have free' := valid_no_slash _ (names'.charname.mp both'.charname)
    rw [files.infofile both, files'.infofile both', files.bakInfofile both,
      files'.bakInfofile both']
    exact ⟨fun same => differ (info_path_injective same free free'),
      fun same => differ (info_path_injective same free free')⟩

/-- The checks and the file names do what they are for exactly when no name whose first seventeen
characters are allowed has one character or more than fifteen. -/
theorem names_checked (prefs : Prefs) (one two : Subject) :
    Right prefs one two ↔ SubjectSized prefs one ∧ SubjectSized prefs two := by
  constructor
  · intro right
    exact ⟨right.names.1.sized, right.names.2.sized⟩
  rintro ⟨sized, sized'⟩
  have names := names_right sized
  have names' := names_right sized'
  have files := files_right names
  have files' := files_right names'
  exact ⟨⟨names, names'⟩, ⟨files, files'⟩, apart names names' files files'⟩

def plainPrefs : Prefs :=
  ⟨AccountFile.defaultSymbols, text "charsave", text "bak/charsave", text "charinfo",
    text "bak/charinfo"⟩

def sixteen : Subject := ⟨text "player", text "abcdefghijklmnop", by decide, by decide⟩
def sixteenOther : Subject := ⟨text "player", text "abcdefghijklmnoq", by decide, by decide⟩

/-- Two names of sixteen letters are accepted and have one save file. -/
theorem long_names_collide : ¬Right plainPrefs sixteen sixteenOther ∧
    d2charCheckCharname sixteen.charname = some 0 ∧
    d2charCheckCharname sixteenOther.charname = some 0 ∧
    d2charGetSavefileName plainPrefs sixteen.charname =
      d2charGetSavefileName plainPrefs sixteenOther.charname := by
  have first : d2charCheckCharname sixteen.charname = some 0 := by decide
  have second : d2charCheckCharname sixteenOther.charname = some 0 := by decide
  have same : d2charGetSavefileName plainPrefs sixteen.charname =
      d2charGetSavefileName plainPrefs sixteenOther.charname := by decide
  refine ⟨fun right => ?_, first, second, same⟩
  exact (right.apart.charnames first second (by decide)).1 same

end Pvpgn.CharacterNames
