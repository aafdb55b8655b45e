import Pvpgn.RawAttr
import Pvpgn.Tag

/-!
The list of an account's characters in a closed realm: an addition prints the old list and the new
name into an array of 256 bytes and stores it, and a check takes the list apart at its commas. A
write outside an array is `none`.
-/

namespace Pvpgn.ClosedCharacters
open Stdio CheckedArray CharBuffer RawAttr Tag List Option Nat Function
open TextUtil (upperHex)

/-- What `account_get_strattr` finds for a key; keys are compared without case. -/
abbrev Attrs := Text → Option Text

def accountGetStrattr (account : Attrs) (key : Text) : Option Text := account (key.map tolower)

def accountSetStrattr (account : Attrs) (key val : Text) : Attrs :=
  update account (key.map tolower) (some val)

structure CharName where
  bytes : Text
  nonempty : bytes ≠ []
  short : bytes.length ≤ 31
  noComma : 44 ∉ bytes

/-- The name and the data of a `t_character`, whose array holds them, with the content that
`hex_buffer` has before the call. -/
structure Addition where
  name : CharName
  data : Text
  hexBuffer : Text
  someData : data ≠ []
  dataHeld : data.length ≤ 64
  hexBufferSize : hexBuffer.length = 356

def tagUintToStr (tag : UInt32) : Text := if tag = 0 then text "UNKN" else cstring (tagBytes tag)

/-- `sprintf` into an array of that size. -/
def sprintf (size : Nat) (printed : Text) : Option Text :=
  if printed.length + 1 ≤ size then some printed else none

/-- `"BNET\\CharacterList\\%s\\%s\\0"`: the last two characters are a backslash and a zero. -/
def listKey (clienttag : UInt32) (realmname : Text) : Text :=
  text "BNET\\CharacterList\\" ++ tagUintToStr clienttag ++ text "\\" ++ realmname ++ text "\\0"

/-- `"BNET\\Characters\\%s\\%s\\%s\\0"` -/
def characterKey (clienttag : UInt32) (realmname name : Text) : Text :=
  text "BNET\\Characters\\" ++ tagUintToStr clienttag ++ text "\\" ++ realmname ++ text "\\" ++
    name ++ text "\\0"

def accountGetClosedCharacterlist (account : Attrs) (clienttag : UInt32) (realmname : Text) :
    Option (Option Text) :=
  if clienttag = 0 then some none
  else do
    let realmkey ← sprintf 256 (listKey clienttag realmname)
    some (accountGetStrattr account realmkey)

/-- `strncpy(tempname, start, name_len)` and the NUL behind it, in an array of 32 bytes. -/
def copyName (start : Text) (nameLen : Nat) : Option Text :=
  if nameLen + 1 ≤ 32 then some (start.take nameLen) else none

/-- The loop over the list and the name behind the last comma. The first text is what `next_char`
points to, `start` what `start` points to. -/
def scanList (charname : Text) : Text → Text → Nat → Option Int
  | [], start, nameLen => do
    let tempname ← copyName start nameLen
    some (if tempname = charname then 1 else 0)
  | ch :: rest, start, nameLen =>
    if ch = 44 then do
      let tempname ← copyName start nameLen
      if tempname = charname then some 1 else scanList charname rest rest 0
    else scanList charname rest start (nameLen + 1)

def accountCheckClosedCharacter (account : Attrs) (clienttag : UInt32) (realmname charname : Text) :
    Option Int := do
  let charlist ← accountGetClosedCharacterlist account clienttag realmname
  match charlist with
  | none => some 0
  | some charlist => scanList charname charlist charlist 0

def charsInRealm (oldList : Option Text) (name : Text) : Option Text :=
  match oldList with
  | some oldList => sprintf 256 (oldList ++ text "," ++ name)
  | none => sprintf 256 name

def accountAddClosedCharacter (account : Attrs) (clienttag : UInt32) (realmname : Text)
    (ch : Addition) : Option (Int × Attrs) :=
  if clienttag = 0 then some (-1, account)
  else do
    let key ← sprintf 256 (listKey clienttag realmname)
    let chars ← charsInRealm (accountGetStrattr account key) ch.name.bytes
    let account := accountSetStrattr account key chars
    let key ← sprintf 256 (characterKey clienttag realmname ch.name.bytes)
    let hexBuffer ← strToHex ch.data 0 ch.hexBuffer
    let hex ← stringAt hexBuffer
    some (0, accountSetStrattr account key hex)

/-- A sequence of calls, with the names whose call returned 0. -/
def addAll (clienttag : UInt32) (realmname : Text) :
    List Addition → Attrs → Option (List Text × Attrs)
  | [], account => some ([], account)
  | ch :: rest, account => do
    let (result, account) ← accountAddClosedCharacter account clienttag realmname ch
    let (names, account) ← addAll clienttag realmname rest account
    some (if result = 0 then ch.name.bytes :: names else names, account)

/-- No call writes outside an array, and a check afterwards knows the names that were added. -/
def KnowsAdded (clienttag : UInt32) (realmname : Text) (account : Attrs)
    (additions : List Addition) : Prop :=
  ∃ names after, addAll clienttag realmname additions account = some (names, after) ∧
    ∀ charname, accountCheckClosedCharacter after clienttag realmname charname =
      some (if names.contains charname then 1 else 0)

def joined (additions : List Addition) : Text :=
  [44].intercalate (additions.map fun ch => ch.name.bytes)

structure Fits (clienttag : UInt32) (realmname : Text) (additions : List Addition) : Prop where
  list : (joined additions).length ≤ 255
  listKey : (listKey clienttag realmname).length ≤ 255
  characterKeys : ∀ ch ∈ additions, (characterKey clienttag realmname ch.name.bytes).length ≤ 255

/-! The scan of a list. -/

theorem sprintf_fits (printed : Text) : sprintf 256 printed =
    if printed.length ≤ 255 then some printed else none := by
  unfold sprintf
  by_cases fits : printed.length ≤ 255
  · rw [if_pos fits, if_pos (by omega)]
  · rw [if_neg fits, if_neg (by omega)]

variable (clienttag : UInt32) (realmname : Text) (account : Attrs) (done additions : List Addition)
  (ch : Addition) (charname : Text)

theorem scanList_name (name tail start : Text) (nameLen : Nat) (noComma : 44 ∉ name) :
    scanList charname (name ++ tail) start nameLen =
      scanList charname tail start (nameLen + name.length) := by
  induction name generalizing nameLen with
  | nil => rfl
  | cons ch rest ih =>
    rw [mem_cons, not_or] at noComma
    rw [cons_append, scanList, if_neg (Ne.symm noComma.1), ih (nameLen + 1) noComma.2,
      length_cons, add_right_comm, add_assoc]

theorem scanList_names (names : List CharName) (some_name : names ≠ []) :
    scanList charname ([44].intercalate (names.map CharName.bytes))
        ([44].intercalate (names.map CharName.bytes)) 0 =
      some (if charname ∈ names.map CharName.bytes then 1 else 0) := by
  induction names with
  | nil => exact absurd rfl some_name
  | cons name rest ih =>
    have short : name.bytes.length + 1 ≤ 32 := by
      have := name.short
      omega
    cases rest with
    | nil =>
      have scanned := scanList_name charname name.bytes [] name.bytes 0 name.noComma
      rw [append_nil, zero_add] at scanned
      simp only [map_cons, map_nil, intercalate_singleton, scanned, scanList, copyName,
        if_pos short, take_length, bind_eq_bind, bind_some, mem_singleton, eq_comm]
    | cons next others =>
      have later := ih (by simp)
      simp only [map_cons] at later
      simp only [map_cons, intercalate_cons_cons, append_assoc,
        scanList_name charname name.bytes _ _ 0 name.noComma, zero_add, singleton_append,
        scanList, if_true, copyName, if_pos short, take_left', bind_eq_bind, bind_some, later]
      by_cases same : name.bytes = charname
      · simp [same]
      · simp [same, Ne.symm same]

/-! One addition. -/

theorem intercalate_snoc (separator last : Text) (pieces : List Text) (some_piece : pieces ≠ []) :
    separator.intercalate (pieces ++ [last]) =
      separator.intercalate pieces ++ separator ++ last := by
  induction pieces with
  | nil => exact absurd rfl some_piece
  | cons piece rest ih =>
    cases rest with
    | nil => simp
    | cons next others =>
      have later := ih (by simp)
      simp only [cons_append] at later ⊢
      rw [intercalate_cons_cons, later, intercalate_cons_cons]
      simp only [append_assoc]

theorem joined_snoc (some_name : additions ≠ []) :
    joined (additions ++ [ch]) = joined additions ++ text "," ++ ch.name.bytes := by
  have some_piece : additions.map (fun ch => ch.name.bytes) ≠ [] := by simpa using some_name
  rw [joined, map_append, map_singleton, intercalate_snoc _ _ _ some_piece]
  rfl

def Stored (clienttag : UInt32) (realmname : Text) (account : Attrs) (additions : List Addition) :
    Prop :=
  accountGetStrattr account (listKey clienttag realmname) =
    if additions = [] then none else some (joined additions)

theorem keys_differ (name : Text) :
    (listKey clienttag realmname).map tolower ≠
      (characterKey clienttag realmname name).map tolower := by
  intro same
  have starts := congrArg (List.take 15) same
  simp only [listKey, characterKey, append_assoc, map_append] at starts
  rw [take_append_of_le_length (by decide), take_append_of_le_length (by decide)] at starts
  exact absurd starts (by decide)

theorem upperHex_length (byte : UInt8) : (upperHex byte).length = 2 := by
  obtain ⟨high, low, shape, -⟩ := triple_shape byte
  have length := congrArg List.length shape
  simpa [triple] using length

theorem strToHex_safe (data : Text) (i : Nat) (target : Text)
    (room : (i + data.length) * 3 + 1 ≤ target.length) :
    ∃ cells, strToHex data i target = some cells ∧ cells.length = target.length ∧
      (data ≠ [] → 0 ∈ cells) := by
  induction data generalizing i target with
  | nil => exact ⟨target, rfl, rfl, fun none => absurd rfl none⟩
  | cons c rest ih =>
    rw [length_cons] at room
    have four : (upperHex c ++ [32, 0]).length = 4 := by simp [upperHex_length]
    have put := put_all target (upperHex c ++ [32, 0]) (i * 3) (by omega)
    generalize printed : target.take (i * 3) ++ (upperHex c ++ [32, 0]) ++
      target.drop (i * 3 + (upperHex c ++ [32, 0]).length) = cells at put
    have size : cells.length = target.length := by
      simp only [← printed, length_append, length_take, length_drop, four]
      omega
    have inside : i * 3 + 3 < cells.length := by omega
    obtain ⟨last, result, length, zero⟩ := ih (i + 1) (cells.set (i * 3 + 3) 0)
      (by rw [length_set]; omega)
    rw [length_set, size] at length
    refine ⟨last, ?_, length, fun _ => ?_⟩
    · rw [strToHex, put, bind_eq_bind, bind_some, write_inside _ _ _ inside]
      exact result
    by_cases more : rest = []
    · subst more
      rw [strToHex, some_inj] at result
      rw [← result]
      exact mem_iff_getElem.mpr ⟨i * 3 + 3, by simpa using inside, by simp⟩
    · exact zero more

theorem hex_printed : ∃ hex, (strToHex ch.data 0 ch.hexBuffer).bind stringAt = some hex := by
  obtain ⟨cells, result, -, zero⟩ := strToHex_safe ch.data 0 ch.hexBuffer (by
    have held := ch.dataHeld
    have size := ch.hexBufferSize
    omega)
  refine ⟨cells.takeWhile (· ≠ 0), ?_⟩
  rw [result, bind_some, stringAt, if_pos (zero ch.someData)]

theorem charsInRealm_stored :
    charsInRealm (if additions = [] then none else some (joined additions)) ch.name.bytes =
      sprintf 256 (joined (additions ++ [ch])) := by
  by_cases first : additions = []
  · simp [first, charsInRealm, joined]
  · rw [if_neg first, charsInRealm, joined_snoc additions ch first]

theorem add_eq (named : clienttag ≠ 0) (keyFits : (listKey clienttag realmname).length ≤ 255)
    (stored : Stored clienttag realmname account additions) :
    (accountAddClosedCharacter account clienttag realmname ch = none ↔
      ¬((joined (additions ++ [ch])).length ≤ 255 ∧
        (characterKey clienttag realmname ch.name.bytes).length ≤ 255)) ∧
    ∀ result after, accountAddClosedCharacter account clienttag realmname ch =
      some (result, after) →
      result = 0 ∧ Stored clienttag realmname after (additions ++ [ch]) := by
  obtain ⟨hex, printed⟩ := hex_printed ch
  have shape : accountAddClosedCharacter account clienttag realmname ch =
      (sprintf 256 (joined (additions ++ [ch]))).bind fun chars =>
        (sprintf 256 (characterKey clienttag realmname ch.name.bytes)).bind fun key =>
          some (0, accountSetStrattr (accountSetStrattr account (listKey clienttag realmname) chars)
            key hex) := by
    simp only [accountAddClosedCharacter, if_neg named, sprintf_fits (listKey _ _), if_pos keyFits,
      bind_eq_bind, bind_some]
    rw [stored, charsInRealm_stored]
    simp only [← bind_assoc, printed, bind_some]
  rw [shape, sprintf_fits, sprintf_fits]
  by_cases list : (joined (additions ++ [ch])).length ≤ 255
  · by_cases key : (characterKey clienttag realmname ch.name.bytes).length ≤ 255
    · rw [if_pos list, bind_some, if_pos key, bind_some]
      refine ⟨by simp [list, key], fun result after done => ?_⟩
      obtain ⟨rfl, rfl⟩ : 0 = result ∧ _ = after := by simpa using done
      refine ⟨rfl, ?_⟩
      rw [Stored, if_neg (by simp), accountGetStrattr, accountSetStrattr,
        update_of_ne (keys_differ _ _ _), accountSetStrattr, update_self]
    · simp [list, key]
  · simp [list]

/-! The calls of an account's life. -/

theorem joined_begins (more : List Addition) :
    (joined done).length ≤ (joined (done ++ more)).length := by
  induction more generalizing done with
  | nil => simp
  | cons ch rest ih =>
    have later := ih (done ++ [ch])
    rw [append_assoc, singleton_append] at later
    refine le_trans ?_ later
    by_cases first : done = []
    · simp [first, joined]
    · simp only [joined_snoc done ch first, length_append]
      omega

theorem addAll_fits (named : clienttag ≠ 0) (fits : Fits clienttag realmname (done ++ additions))
    (stored : Stored clienttag realmname account done) :
    ∃ after, addAll clienttag realmname additions account =
        some (additions.map fun ch => ch.name.bytes, after) ∧
      Stored clienttag realmname after (done ++ additions) := by
  induction additions generalizing account done with
  | nil => exact ⟨account, rfl, by simpa using stored⟩
  | cons ch rest ih =>
    have whole : done ++ ch :: rest = done ++ [ch] ++ rest := by simp
    rw [whole] at fits ⊢
    obtain ⟨safe, added⟩ := add_eq clienttag realmname account done ch named fits.listKey stored
    have inside : (joined (done ++ [ch])).length ≤ 255 ∧
        (characterKey clienttag realmname ch.name.bytes).length ≤ 255 :=
      ⟨(joined_begins _ rest).trans fits.list, fits.characterKeys ch (by simp)⟩
    cases call : accountAddClosedCharacter account clienttag realmname ch with
    | none => exact absurd inside (safe.mp call)
    | some outcome =>
      obtain ⟨zero, next⟩ := added outcome.1 outcome.2 call
      obtain ⟨after, run, last⟩ := ih outcome.2 (done ++ [ch]) fits next
      refine ⟨after, ?_, last⟩
      simp only [addAll, call, bind_eq_bind, bind_some, run, zero, if_true, map_cons]

theorem addAll_ends (named : clienttag ≠ 0) (keyFits : (listKey clienttag realmname).length ≤ 255)
    (before : (joined done).length ≤ 255) (stored : Stored clienttag realmname account done)
    (ends : (addAll clienttag realmname additions account).isSome) :
    (joined (done ++ additions)).length ≤ 255 ∧
      ∀ ch ∈ additions, (characterKey clienttag realmname ch.name.bytes).length ≤ 255 := by
  induction additions generalizing account done with
  | nil => exact ⟨by simpa using before, by simp⟩
  | cons ch rest ih =>
    obtain ⟨safe, added⟩ := add_eq clienttag realmname account done ch named keyFits stored
    cases call : accountAddClosedCharacter account clienttag realmname ch with
    | none => simp [addAll, call] at ends
    | some outcome =>
      have inside : (joined (done ++ [ch])).length ≤ 255 ∧
          (characterKey clienttag realmname ch.name.bytes).length ≤ 255 := by
        by_contra outside
        rw [safe.mpr outside] at call
        simp at call
      have later : (addAll clienttag realmname rest outcome.2).isSome := by
        cases run : addAll clienttag realmname rest outcome.2 with
        | none => simp [addAll, call, run] at ends
        | some _ => rfl
      obtain ⟨list, keys⟩ := ih outcome.2 (done ++ [ch]) inside.1
        (added outcome.1 outcome.2 call).2 later
      rw [append_assoc, singleton_append] at list
      refine ⟨list, fun other member => ?_⟩
      rcases mem_cons.mp member with rfl | behind
      · exact inside.2
      · exact keys other behind

theorem check_stored (account : Attrs) (additions : List Addition) (named : clienttag ≠ 0)
    (keyFits : (listKey clienttag realmname).length ≤ 255)
    (stored : Stored clienttag realmname account additions) :
    accountCheckClosedCharacter account clienttag realmname charname =
      some (if charname ∈ additions.map (fun ch => ch.name.bytes) then 1 else 0) := by
  have list : accountGetClosedCharacterlist account clienttag realmname =
      some (if additions = [] then none else some (joined additions)) := by
    rw [accountGetClosedCharacterlist, if_neg named, sprintf_fits, if_pos keyFits,
      bind_eq_bind, bind_some, stored]
  rw [accountCheckClosedCharacter, list, bind_eq_bind, bind_some]
  by_cases none : additions = []
  · simp [none]
  have scanned := scanList_names charname (additions.map Addition.name) (by simpa using none)
  rw [List.map_map] at scanned
  rw [if_neg none]
  exact scanned

theorem addAll_untagged : addAll 0 realmname additions account = some ([], account) := by
  induction additions with
  | nil => rfl
  | cons ch rest ih => simp [addAll, accountAddClosedCharacter, ih]

/-- Names are added safely and known afterwards exactly when the list, which has a comma between
two names, and the keys fit their arrays. Without a client tag nothing is added. -/
theorem closed_characters_known (clienttag : UInt32) (realmname : Text) (account : Attrs)
    (additions : List Addition)
    (fresh : accountGetStrattr account (listKey clienttag realmname) = none) :
    KnowsAdded clienttag realmname account additions ↔
      clienttag = 0 ∨ Fits clienttag realmname additions := by
  have stored : Stored clienttag realmname account [] := by simpa [Stored] using fresh
  by_cases named : clienttag = 0
  · subst named
    refine iff_of_true ⟨[], account, addAll_untagged realmname account additions, ?_⟩ (.inl rfl)
    intro charname
    simp [accountCheckClosedCharacter, accountGetClosedCharacterlist]
  simp only [named, false_or]
  constructor
  · rintro ⟨names, after, run, known⟩
    have keyFits : (listKey clienttag realmname).length ≤ 255 := by
      by_contra long
      have check := known []
      simp [accountCheckClosedCharacter, accountGetClosedCharacterlist, named, sprintf_fits,
        long] at check
    obtain ⟨list, keys⟩ := addAll_ends clienttag realmname account [] additions named keyFits
      (by simp [joined]) stored (by simp [run])
    exact ⟨list, keyFits, keys⟩
  · intro fits
    obtain ⟨after, run, last⟩ := addAll_fits clienttag realmname account [] additions named fits
      stored
    refine ⟨_, after, run, fun charname => ?_⟩
    rw [check_stored clienttag realmname charname after additions named fits.listKey last]
    simp only [contains_iff_mem]

def nameOf (letter : UInt8) (plain : 44 ≠ letter) : CharName :=
  ⟨replicate 31 letter, by simp, by simp, by simp [plain]⟩

def longNamed (letter : UInt8) (plain : 44 ≠ letter) : Addition :=
  ⟨nameOf letter plain, [1], replicate 356 0, cons_ne_nil 1 [], by decide, length_replicate⟩

theorem closed_characters_known_example :
    KnowsAdded 0x44324456 (text "realm") (fun _ => none)
      (replicate 7 (longNamed 97 (by decide))) :=
  (closed_characters_known 0x44324456 (text "realm") (fun _ => none) _ rfl).mpr
    (.inr ⟨by decide +kernel, by decide, by decide +kernel⟩)

/-- The eighth name of 31 letters makes a list of 255 characters, the ninth overflows. -/
theorem nine_long_names_overflow :
    addAll 0x44324456 (text "realm") (replicate 9 (longNamed 97 (by decide)))
        (fun _ => none) = none ∧
      ¬KnowsAdded 0x44324456 (text "realm") (fun _ => none)
        (replicate 9 (longNamed 97 (by decide))) := by
  have overflow : addAll 0x44324456 (text "realm")
      (replicate 9 (longNamed 97 (by decide))) (fun _ => none) = none := by
    by_contra ends
    have inside := addAll_ends 0x44324456 (text "realm") (fun _ => none) [] _ (by decide)
      (by decide) (by simp [joined]) (by simp [Stored, accountGetStrattr])
      (isSome_iff_ne_none.mpr ends)
    exact absurd inside.1 (by decide +kernel)
  refine ⟨overflow, ?_⟩
  rintro ⟨names, after, run, -⟩
  rw [overflow] at run
  simp at run

end Pvpgn.ClosedCharacters
