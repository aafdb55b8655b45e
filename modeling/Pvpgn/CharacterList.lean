import Mathlib.Data.List.Induction
import Mathlib.Data.List.Lex
import Pvpgn.Stdio
import Pvpgn.StableInsertion

/-!
The character list of an account: `d2charlist_add_char` puts each character before the first entry
that is greater in the configured key. For the name only as many bytes are compared as the new name
has.
-/

namespace Pvpgn.CharacterList
open Stdio StableInsertion List

/-- The fields of `t_d2charinfo_file` that are compared; the name is the array that holds it. -/
structure D2charinfoFile where
  charname : Text
  createTime : UInt32
  lastTime : UInt32
  experience : UInt32
  deriving DecidableEq

structure D2charlist where
  charinfo : D2charinfoFile
  expirationTime : UInt32
  deriving DecidableEq

def strncasecmp : Nat → Text → Text → Int
  | 0, _, _ => 0
  | count + 1, left, right =>
    let a := tolower (left.headD 0)
    let b := tolower (right.headD 0)
    if a ≠ b then (a.toNat : Int) - b.toNat
    else if a = 0 then 0
    else strncasecmp count left.tail right.tail

def strlen (bytes : Text) : Nat := (cstring bytes).length

/-- `list` are the entries behind `list_head` in order. -/
def d2charlistAddChar (d2charSort : Text) (list : List D2charlist) (charinfo : D2charinfoFile)
    (expirationTime : UInt32) : List D2charlist :=
  let charlist : D2charlist := ⟨charinfo, expirationTime⟩
  if list = [] then [charlist]
  else if sameCaseless d2charSort (text "name") then
    insertBefore (fun ccharlist => decide (strncasecmp (strlen charinfo.charname)
      charinfo.charname ccharlist.charinfo.charname < 0)) charlist list
  else if sameCaseless d2charSort (text "ctime") then
    insertBefore (fun ccharlist =>
      decide (charinfo.createTime < ccharlist.charinfo.createTime)) charlist list
  else if sameCaseless d2charSort (text "mtime") then
    insertBefore (fun ccharlist =>
      decide (charinfo.lastTime < ccharlist.charinfo.lastTime)) charlist list
  else if sameCaseless d2charSort (text "level") then
    insertBefore (fun ccharlist =>
      decide (charinfo.experience < ccharlist.charinfo.experience)) charlist list
  else list ++ [charlist]

/-- A sequence of calls from an empty list. -/
def addAll (d2charSort : Text) (added : List D2charlist) : List D2charlist :=
  added.foldl (fun list charlist =>
    d2charlistAddChar d2charSort list charlist.charinfo charlist.expirationTime) []

inductive SortKey where
  | name
  | ctime
  | mtime
  | level
  deriving DecidableEq

def SortKey.word : SortKey → Text
  | .name => text "name"
  | .ctime => text "ctime"
  | .mtime => text "mtime"
  | .level => text "level"

def wholeName (charname : Text) : List Nat :=
  (cstring charname).map fun byte => (tolower byte).toNat

def nameKey (charlist : D2charlist) : List Nat := wholeName charlist.charinfo.charname

def timeKey : SortKey → D2charlist → Nat
  | .name, _ => 0
  | .ctime, charlist => charlist.charinfo.createTime.toNat
  | .mtime, charlist => charlist.charinfo.lastTime.toNat
  | .level, charlist => charlist.charinfo.experience.toNat

def SortedBy (key : SortKey) (list added : List D2charlist) : Prop :=
  if key = .name then Sorted nameKey list added else Sorted (timeKey key) list added

def Shortens (later earlier : D2charlist) : Prop :=
  nameKey later <+: nameKey earlier ∧ nameKey later ≠ nameKey earlier

instance (later earlier : D2charlist) : Decidable (Shortens later earlier) :=
  inferInstanceAs (Decidable (_ ∧ _))

variable (d2charSort : Text) (key : SortKey) (byte : UInt8)

theorem tolower_eq_zero : tolower byte = 0 ↔ byte = 0 := by
  unfold tolower isupper
  by_cases upper : (65 ≤ byte && byte ≤ 90) = true
  · simp only [upper, if_true]
    simp only [Bool.and_eq_true, decide_eq_true_eq, UInt8.le_iff_toNat_le] at upper
    have small : 65 ≤ byte.toNat ∧ byte.toNat ≤ 90 := upper
    simp only [← UInt8.toNat_inj, UInt8.toNat_add, UInt8.toNat_ofNat]
    omega
  · simp [upper]

theorem cstring_cons (rest : Text) (present : byte ≠ 0) :
    cstring (byte :: rest) = byte :: cstring rest := by
  simp [cstring, present]

theorem wholeName_nil (charname : Text) (ended : charname.headD 0 = 0) :
    wholeName charname = [] := by
  cases charname with
  | nil => rfl
  | cons byte rest =>
    have zero : byte = 0 := ended
    simp [wholeName, cstring, zero]

theorem wholeName_cons (rest : Text) (present : byte ≠ 0) :
    wholeName (byte :: rest) = (tolower byte).toNat :: wholeName rest := by
  simp [wholeName, cstring_cons byte rest present]

/-- Only the bytes of the new name are compared, so a name it begins is not above it. -/
theorem strncasecmp_neg (new other : Text) : strncasecmp (strlen new) new other < 0 ↔
    wholeName new < wholeName other ∧ ¬wholeName new <+: wholeName other := by
  induction new generalizing other with
  | nil => simp [strlen, cstring, strncasecmp, wholeName]
  | cons byte rest ih =>
    by_cases ended : byte = 0
    · simp [strlen, cstring, strncasecmp, wholeName, ended]
    have count : strlen (byte :: rest) = strlen rest + 1 := by
      simp [strlen, cstring_cons byte rest ended]
    rw [count, wholeName_cons byte rest ended]
    have lower : tolower byte ≠ 0 := fun zero => ended ((tolower_eq_zero byte).mp zero)
    by_cases stopped : other.headD 0 = 0
    · have zero : tolower 0 = 0 := by decide
      rw [wholeName_nil other stopped]
      simp only [strncasecmp, headD_cons, stopped, zero, ne_eq, lower, not_false_eq_true,
        if_true, not_lt_nil, false_and, iff_false]
      simp
    obtain ⟨next, tail, rfl⟩ : ∃ next tail, other = next :: tail := by
      cases other with
      | nil => simp at stopped
      | cons next tail => exact ⟨next, tail, rfl⟩
    rw [wholeName_cons next tail stopped, cons_lt_cons_iff, cons_prefix_cons]
    by_cases same : tolower byte = tolower next
    · have step := ih tail
      simp only [strncasecmp, headD_cons, same, ne_eq, not_true_eq_false, if_false,
        tail_cons, lt_self_iff_false, true_and, false_or]
      rw [if_neg (same ▸ lower)]
      exact step
    · have differ : (tolower byte).toNat ≠ (tolower next).toNat := by
        simpa [UInt8.toNat_inj] using same
      simp only [strncasecmp, headD_cons, same, ne_eq, not_false_eq_true, if_true,
        differ, false_and, or_false, and_true]
      omega

def precedes (key : SortKey) (charlist ccharlist : D2charlist) : Bool :=
  if key = .name then decide (strncasecmp (strlen charlist.charinfo.charname)
    charlist.charinfo.charname ccharlist.charinfo.charname < 0)
  else decide (timeKey key charlist < timeKey key ccharlist)

section
variable (chosen : sameCaseless d2charSort key.word = true)
include chosen

theorem addChar_eq (list : List D2charlist) (charlist : D2charlist) :
    d2charlistAddChar d2charSort list charlist.charinfo charlist.expirationTime =
      insertBefore (precedes key charlist) charlist list := by
  have lower : d2charSort.map tolower = key.word.map tolower := by simpa [sameCaseless] using chosen
  have tests (word : SortKey) : sameCaseless d2charSort word.word = decide (key = word) := by
    rw [sameCaseless, lower]
    cases key <;> cases word <;> decide
  unfold d2charlistAddChar
  by_cases empty : list = []
  · simp [empty, insertBefore]
  simp only [if_neg empty]
  rw [show text "name" = SortKey.name.word from rfl,
    show text "ctime" = SortKey.ctime.word from rfl,
    show text "mtime" = SortKey.mtime.word from rfl,
    show text "level" = SortKey.level.word from rfl]
  simp only [tests]
  cases key <;> simp [UInt32.lt_iff_toNat_lt] <;> rfl

theorem addAll_snoc (added : List D2charlist) (charlist : D2charlist) :
    addAll d2charSort (added ++ [charlist]) =
      insertBefore (precedes key charlist) charlist (addAll d2charSort added) := by
  rw [addAll, foldl_append, foldl_cons, foldl_nil]
  exact addChar_eq d2charSort key chosen (addAll d2charSort added) charlist

theorem addAll_perm (added : List D2charlist) :
    (addAll d2charSort added).Perm added := by
  induction added using reverseRecOn with
  | nil => exact .refl []
  | append_singleton added charlist ih =>
    rw [addAll_snoc d2charSort key chosen]
    exact (insert_perm _ charlist _).trans (ih.append_right [charlist])

theorem addAll_times (other : key ≠ .name) (added : List D2charlist) :
    Sorted (timeKey key) (addAll d2charSort added) added := by
  induction added using reverseRecOn with
  | nil => exact ⟨.refl [], List.Pairwise.nil, fun _ => rfl⟩
  | append_singleton added charlist ih =>
    rw [addAll_snoc d2charSort key chosen]
    refine ih.insert _ charlist fun ccharlist _ => ?_
    rw [precedes, if_neg other, decide_eq_true_eq]

end

theorem precedes_name (charlist ccharlist : D2charlist) :
    precedes .name charlist ccharlist = true ↔
      nameKey charlist < nameKey ccharlist ∧ ¬nameKey charlist <+: nameKey ccharlist := by
  rw [precedes, if_pos rfl, decide_eq_true_eq]
  exact strncasecmp_neg _ _

theorem prefix_le {left right : List Nat} (begins : left <+: right) : left ≤ right := by
  obtain ⟨rest, rfl⟩ := begins
  exact not_lt.mp fun less => le_append_left less

theorem extension_lt {name above extended : List Nat} (less : name < above)
    (other : ¬name <+: above) (begins : name <+: extended) : extended < above := by
  induction name generalizing above extended with
  | nil => exact absurd nil_prefix other
  | cons byte rest ih =>
    obtain ⟨tail, rfl⟩ := begins
    cases above with
    | nil => simp at less
    | cons next others =>
      rw [cons_append, cons_lt_cons_iff]
      rcases cons_lt_cons_iff.mp less with smaller | ⟨rfl, equal⟩
      · exact .inl smaller
      · exact .inr ⟨rfl, ih equal (fun same => other (cons_prefix_cons.mpr ⟨rfl, same⟩))
          (prefix_append rest tail)⟩

theorem addAll_names (d2charSort : Text) (chosen : sameCaseless d2charSort (text "name") = true)
    (added : List D2charlist)
    (clean : added.Pairwise fun earlier later => ¬Shortens later earlier) :
    Sorted nameKey (addAll d2charSort added) added := by
  induction added using reverseRecOn with
  | nil => exact ⟨.refl [], List.Pairwise.nil, fun _ => rfl⟩
  | append_singleton added charlist ih =>
    obtain ⟨before, -, last⟩ := pairwise_append.mp clean
    have sorted := ih before
    rw [addAll_snoc d2charSort .name chosen]
    refine sorted.insert _ charlist fun ccharlist member => ?_
    have longer := last ccharlist (sorted.perm.mem_iff.mp member) charlist mem_cons_self
    rw [precedes_name]
    exact ⟨And.left, fun less => ⟨less, fun begins => longer ⟨begins, less.ne⟩⟩⟩

theorem shortened_misplaced (list : List D2charlist) (charlist ccharlist : D2charlist)
    (member : ccharlist ∈ list) (shortens : Shortens charlist ccharlist) :
    ¬(insertBefore (precedes .name charlist) charlist list).Pairwise
      fun left right => nameKey left ≤ nameKey right := by
  intro ascending
  have below : nameKey charlist < nameKey ccharlist :=
    lt_of_le_of_ne (prefix_le shortens.1) shortens.2
  obtain ⟨-, behind, across⟩ := pairwise_append.mp ascending
  rw [← takeWhile_append_dropWhile (p := fun entry => !precedes .name charlist entry)
    (l := list)] at member
  rcases mem_append.mp member with taken | dropped
  · exact absurd (across ccharlist taken charlist mem_cons_self) (not_le.mpr below)
  obtain none | ⟨head, tail, shape, found⟩ := dropped_head (precedes .name charlist) list
  · rw [none] at dropped
    exact absurd dropped not_mem_nil
  rw [shape] at dropped behind
  obtain ⟨above, other⟩ := (precedes_name charlist head).mp found
  have wrong := extension_lt above other shortens.1
  rcases mem_cons.mp dropped with rfl | later
  · exact lt_irrefl _ wrong
  · have ordered := (pairwise_cons.mp behind).2
    exact absurd (rel_of_pairwise_cons ordered later) (not_le.mpr wrong)

theorem ascending_clean (d2charSort : Text) (chosen : sameCaseless d2charSort (text "name") = true)
    (added : List D2charlist) (ascending : (addAll d2charSort added).Pairwise
      fun left right => nameKey left ≤ nameKey right) :
    added.Pairwise fun earlier later => ¬Shortens later earlier := by
  induction added using reverseRecOn with
  | nil => exact List.Pairwise.nil
  | append_singleton added charlist ih =>
    rw [addAll_snoc d2charSort .name chosen] at ascending
    have before := ih (ascending.sublist (sublist_insert _ charlist _))
    refine pairwise_append.mpr ⟨before, pairwise_singleton _ _, ?_⟩
    intro earlier member later last shortens
    rw [mem_singleton.mp last] at shortens
    have held := (addAll_perm d2charSort .name chosen added).mem_iff.mpr member
    exact shortened_misplaced _ charlist earlier held shortens ascending

/-- The list is in the order of its key exactly when it is not sorted by name, or no character is
added whose name is a proper beginning of one already there. -/
theorem character_list_sorted (d2charSort : Text) (key : SortKey)
    (chosen : sameCaseless d2charSort key.word = true) (added : List D2charlist) :
    SortedBy key (addAll d2charSort added) added ↔
      key ≠ .name ∨ added.Pairwise fun earlier later => ¬Shortens later earlier := by
  by_cases byName : key = .name
  · subst byName
    simp only [SortedBy, if_true, ne_eq, not_true_eq_false, false_or]
    exact ⟨fun sorted => ascending_clean d2charSort chosen added sorted.ascending,
      addAll_names d2charSort chosen added⟩
  · simp only [SortedBy, ne_eq, byName, not_false_eq_true, true_or, iff_true]
    exact addAll_times d2charSort key chosen byName added

def named (charname : String) : D2charlist := ⟨⟨text charname, 1, 2, 3⟩, 0⟩

theorem character_list_sorted_example :
    SortedBy .name (addAll (text "Name") [named "Ann", named "bob", named "ann"])
      [named "Ann", named "bob", named "ann"] :=
  (character_list_sorted (text "Name") .name (by decide) _).mpr (.inr (by decide))

/-- `Bob` is added behind `Bobby`. -/
theorem prefix_name_misplaced :
    addAll (text "name") [named "Bobby", named "Bob"] = [named "Bobby", named "Bob"] ∧
      ¬SortedBy .name (addAll (text "name") [named "Bobby", named "Bob"])
        [named "Bobby", named "Bob"] := by
  have result : addAll (text "name") [named "Bobby", named "Bob"] =
      [named "Bobby", named "Bob"] := by decide
  refine ⟨result, fun sorted => ?_⟩
  have clean := ascending_clean (text "name") (by decide) _ sorted.ascending
  exact absurd clean (by decide)

end Pvpgn.CharacterList
