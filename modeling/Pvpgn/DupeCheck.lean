import Pvpgn.PacketFields

/-!
`dbsdupecheck` walks through the items of a character save. A pointer is an offset into the save or
`NULL`; `none` is an access outside the save.
-/

namespace Pvpgn.DupeCheck
open PacketFields List Option Nat UInt32

/-- A save of `datalen` bytes. -/
structure Save where
  bytes : List UInt8
  counted : bytes.length < 2 ^ 32

variable (save : Save)

/-- `data[0] == 'J' && data[1] == 'M'` -/
def isDelimit (data : Nat) : Option Bool := do
  let first ← byteAt save.bytes data
  if first = 74 then
    let second ← byteAt save.bytes (data + 1)
    some (second = 77)
  else some false

/-- The turns from `count` to `datalen`. -/
def findLoop (datap : Nat) : Nat → Option (Option Nat)
  | 0 => some none
  | turns + 1 => do
    if ← isDelimit save datap then some (some datap) else findLoop datap turns

def findDelimiter (data : Nat) (datalen : UInt32) : Option (Option Nat) :=
  findLoop save data (datalen.toNat - 1)

/-- The difference of a null pointer and a pointer is undefined. -/
def skipTo (datap : Nat) (restlen : UInt32) : Option (Nat × UInt32) := do
  let pointer ← (← findDelimiter save datap restlen)
  some (pointer, restlen - ofNat (pointer - datap))

def skiplen : Nat := 750

/-- The `do` loop with fuel. -/
def search : Nat → Nat → UInt32 → Option (Nat × UInt32)
  | 0, _, _ => none
  | fuel + 1, datap, restlen => do
    let (datap, restlen) ← skipTo save datap restlen
    let again ← (do if ← isDelimit save datap then
      let second ← isDelimit save (datap + 4)
      some (!second) else some true)
    if again then search fuel datap restlen else some (datap, restlen)

def items : Nat → Nat → UInt32 → Option Unit
  | 0, _, _ => some ()
  | left + 1, datap, restlen => do
    let flags ← byteAt save.bytes (datap + 4)
    if flags &&& 0x20 = 0x20 then items left (datap + 14) (restlen - 14)
    else
      let _uid ← intAt save.bytes (datap + 14)
      let (datap, restlen) ← skipTo save datap restlen
      items left datap restlen

/-- It never finds a dupe. -/
def dbsdupecheck (fuel : Nat) : Option Unit :=
  if save.bytes.length < skiplen then some ()
  else do
    let (datap, restlen) ← search save fuel skiplen (ofNat (save.bytes.length - skiplen))
    let low ← byteAt save.bytes (datap + 2)
    let high ← byteAt save.bytes (datap + 3)
    items save (low.toNat + 256 * high.toNat) (datap + 4) (restlen - 4)

/-! What it is to do. -/

/-- A delimiter begins here. -/
def Delimiter (position : Nat) : Prop :=
  save.bytes[position]? = some 74 ∧ save.bytes[position + 1]? = some 77

/-- The result is the first place from `start` on where a delimiter begins, if there is one. -/
def First (start : Nat) : Option Nat → Prop
  | some found => start ≤ found ∧ Delimiter save found ∧
      ∀ position, start ≤ position → position < found → ¬Delimiter save position
  | none => ∀ position, start ≤ position → ¬Delimiter save position

def Scans : Prop :=
  (∃ fuel, dbsdupecheck save fuel = some ()) ∧
    ∃ found, findDelimiter save 0 (ofNat save.bytes.length) = some found ∧ First save 0 found

/-- The items that are counted: the flags of each lie in the save, and one that is not simple begins
with the delimiter and has the eighteen bytes that are looked at. It is looked at again. -/
def Regular : Nat → Nat → Prop
  | 0, _ => True
  | left + 1, position => ∃ flags, save.bytes[position + 4]? = some flags ∧
    if flags &&& 0x20 = 0x20 then Regular left (position + 14)
    else Delimiter save position ∧ position + 18 ≤ save.bytes.length

/-- The `itemcount` that is read behind the first delimiter. -/
def itemcount : Nat :=
  (save.bytes.getD (skiplen + 2) 0).toNat + 256 * (save.bytes.getD (skiplen + 3) 0).toNat

variable {save} {position : Nat}

theorem is_delimit_true : isDelimit save position = some true ↔ Delimiter save position := by
  rw [isDelimit, byteAt, byteAt, Delimiter]
  cases save.bytes[position]? with
  | none => simp
  | some first => cases save.bytes[position + 1]? <;> by_cases j : first = 74 <;> simp [j]

theorem find_loop (turns : Nat) (place : Nat) : findLoop save position turns = some (some place) ↔
    0 < turns ∧ place = position ∧ Delimiter save position := by
  induction turns with
  | zero => simp [findLoop]
  | succ turns ih =>
    rw [findLoop, bind_eq_bind, bind_eq_some_iff]
    constructor
    · rintro ⟨begins, found, rest⟩
      cases begins with
      | true =>
        obtain rfl := some.inj (some.inj rest)
        exact ⟨succ_pos turns, rfl, is_delimit_true.mp found⟩
      | false => exact ⟨succ_pos turns, (ih.mp rest).2⟩
    · rintro ⟨_, rfl, begins⟩
      exact ⟨true, is_delimit_true.mpr begins, rfl⟩

theorem find_nothing (turns : Nat) (absent : ¬Delimiter save position)
    (inside : 0 < turns → position + 1 < save.bytes.length) :
    findLoop save position turns = some none := by
  induction turns with
  | zero => rfl
  | succ turns ih =>
    have long := inside (succ_pos turns)
    have other : isDelimit save position = some false := by
      rw [Delimiter, getElem?_eq_getElem (lt_of_succ_lt long), getElem?_eq_getElem long] at absent
      rw [isDelimit, byteAt, byteAt, getElem?_eq_getElem (lt_of_succ_lt long),
        getElem?_eq_getElem long, bind_eq_bind, bind_some]
      split <;> simp_all
    rw [findLoop, other]
    exact ih fun _ => long

theorem skip_to (restlen : UInt32) (after : Nat × UInt32) :
    skipTo save position restlen = some after ↔
      1 < restlen.toNat ∧ Delimiter save position ∧ after = (position, restlen) := by
  simp only [skipTo, findDelimiter, bind_eq_bind, bind_eq_some_iff]
  constructor
  · rintro ⟨_, found, pointer, rfl, rest⟩
    obtain ⟨turns, rfl, begins⟩ := (find_loop _ _).mp found
    exact ⟨by omega, begins, by simpa using (some.inj rest).symm⟩
  · rintro ⟨turns, begins, rfl⟩
    exact ⟨_, (find_loop _ _).mpr ⟨by omega, rfl, begins⟩, position, rfl, by simp⟩

theorem search_iff (fuel : Nat) (restlen : UInt32) (after : Nat × UInt32) :
    search save fuel position restlen = some after ↔ 0 < fuel ∧ 1 < restlen.toNat ∧
      Delimiter save position ∧ Delimiter save (position + 4) ∧ after = (position, restlen) := by
  induction fuel with
  | zero => simp [search]
  | succ fuel ih =>
    simp only [search, bind_eq_bind, bind_eq_some_iff, skip_to]
    constructor
    · rintro ⟨_, ⟨long, begins, rfl⟩, again, second, rest⟩
      refine ⟨succ_pos fuel, long, begins, ?_⟩
      cases again with
      | true => exact (ih.mp rest).2.2.2
      | false =>
        obtain ⟨_, first, second⟩ := second
        obtain rfl := some.inj (first.symm.trans (is_delimit_true.mpr begins))
        obtain ⟨other, next, ends⟩ := bind_eq_some_iff.mp second
        obtain rfl : other = true := by simpa using ends
        exact ⟨is_delimit_true.mp next, (some.inj rest).symm⟩
    · rintro ⟨_, long, begins, second, rfl⟩
      refine ⟨_, ⟨long, begins, rfl⟩, false, ⟨true, is_delimit_true.mpr begins, ?_⟩, rfl⟩
      exact bind_eq_some_iff.mpr ⟨true, is_delimit_true.mpr second, rfl⟩

theorem items_stuck {flags : UInt8} (here : save.bytes[position + 4]? = some flags)
    (extended : flags &&& 0x20 ≠ 0x20) (begins : Delimiter save position)
    (inside : position + 18 ≤ save.bytes.length) {restlen : UInt32} (long : 1 < restlen.toNat)
    (left : Nat) : items save left position restlen = some () := by
  induction left with
  | zero => rfl
  | succ left ih =>
    obtain ⟨uid, read⟩ := int_at_inside inside
    rw [items, byteAt, here, bind_eq_bind, bind_some, if_neg extended, read,
      (skip_to restlen _).mpr ⟨long, begins, rfl⟩]
    exact ih

theorem items_iff (position left : Nat) (restlen : UInt32) (rest : position ≤ save.bytes.length →
    restlen = ofNat (save.bytes.length - position)) :
    items save left position restlen = some () ↔ Regular save left position := by
  induction left generalizing position restlen with
  | zero => simp [items, Regular]
  | succ left ih =>
    rw [items, bind_eq_bind, bind_eq_some_iff, Regular]
    refine exists_congr fun flags => and_congr_right fun here => ?_
    obtain ⟨inside, -⟩ := List.getElem?_eq_some_iff.mp here
    obtain rfl := rest (by omega)
    have counted := save.counted
    by_cases simple : flags &&& 0x20 = 0x20
    · rw [if_pos simple, if_pos simple]
      refine ih _ _ fun within => ?_
      have split : save.bytes.length - position = save.bytes.length - (position + 14) + 14 := by
        omega
      rw [split, ofNat_add]
      exact UInt32.add_sub_cancel _ _
    rw [if_neg simple, if_neg simple]
    constructor
    · intro went
      obtain ⟨_, read, went⟩ := bind_eq_some_iff.mp went
      obtain ⟨_, moved, -⟩ := bind_eq_some_iff.mp went
      exact ⟨((skip_to _ _).mp moved).2.1, int_at_some read⟩
    rintro ⟨begins, last⟩
    have long : 1 < (ofNat (save.bytes.length - position)).toNat := by
      rw [toNat_ofNat_of_lt' (lt_of_le_of_lt (sub_le ..) counted)]
      omega
    have stuck := items_stuck here simple begins last long (left + 1)
    rw [items, bind_eq_bind, bind_eq_some_iff] at stuck
    obtain ⟨_, again, stuck⟩ := stuck
    obtain rfl := some.inj (again.symm.trans here)
    rwa [if_neg simple] at stuck

theorem find_first : (∃ found, findDelimiter save 0 (ofNat save.bytes.length) = some found ∧
    First save 0 found) ↔ Delimiter save 0 ∨ ∀ position, ¬Delimiter save position := by
  constructor
  · rintro ⟨_ | found, finds, first⟩
    · exact Or.inr fun position => first position (zero_le _)
    · obtain ⟨-, rfl, begins⟩ := (find_loop _ _).mp finds
      exact Or.inl begins
  rintro (begins | absent)
  · have long := (List.getElem?_eq_some_iff.mp begins.2).1
    refine ⟨some 0, (find_loop _ _).mpr ⟨?_, rfl, begins⟩, le_refl 0, begins, by omega⟩
    rw [toNat_ofNat_of_lt' save.counted]
    omega
  · refine ⟨none, find_nothing _ (absent 0) fun turns => ?_, fun position _ => absent position⟩
    rw [toNat_ofNat_of_lt' save.counted] at turns
    omega

theorem save_scanned (save : Save) : Scans save ↔
    (save.bytes.length < skiplen ∨ Delimiter save skiplen ∧ Delimiter save (skiplen + 4) ∧
      Regular save (itemcount save) (skiplen + 4)) ∧
    (Delimiter save 0 ∨ ∀ position, ¬Delimiter save position) := by
  refine and_congr ?_ find_first
  simp only [dbsdupecheck]
  split
  · next short => simp [short]
  next long =>
  have counted := save.counted
  rw [or_iff_right long]
  have walks := @items_iff save (skiplen + 4) (itemcount save)
    (UInt32.ofNat (save.bytes.length - skiplen) - 4) fun within => by
      rw [show save.bytes.length - skiplen = save.bytes.length - (skiplen + 4) + 4 by omega,
        UInt32.ofNat_add]
      exact UInt32.add_sub_cancel _ _
  simp only [bind_eq_bind, bind_eq_some_iff, search_iff]
  constructor
  · rintro ⟨fuel, _, ⟨-, -, begins, second, rfl⟩, low, here, high, behind, walked⟩
    refine ⟨begins, second, walks.mp ?_⟩
    rw [itemcount, getD_eq_getElem?_getD, getD_eq_getElem?_getD, ← byteAt, ← byteAt, here, behind]
    exact walked
  rintro ⟨begins, second, regular⟩
  have last := (List.getElem?_eq_some_iff.mp second.1).1
  refine ⟨1, _, ⟨one_pos, ?_, begins, second, rfl⟩, _, getElem?_eq_getElem (by omega), _,
    getElem?_eq_getElem (by omega), ?_⟩
  · rw [UInt32.toNat_ofNat_of_lt' (lt_of_le_of_lt (sub_le ..) counted)]
    omega
  · rw [← walks, itemcount, getD_eq_getElem?_getD, getD_eq_getElem?_getD,
      getElem?_eq_getElem (by omega), getElem?_eq_getElem (by omega)] at regular
    exact regular

/-- The delimiter behind the first byte is not found. -/
theorem later_delimiter_missed : ¬Scans ⟨[0, 74, 77], by decide⟩ := by
  rintro ⟨-, found, finds, first⟩
  obtain rfl : found = none := (Option.some.inj finds).symm
  exact first 1 (zero_le 1) ⟨rfl, rfl⟩

end Pvpgn.DupeCheck
