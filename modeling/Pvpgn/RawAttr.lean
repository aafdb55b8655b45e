import Pvpgn.AttrGroup
import Pvpgn.CharBuffer

/-!
Attributes of raw bytes: `account_set_rawattr` stores them as hexadecimal digits and
`account_get_rawattr` takes the length from that text. A read or a write outside an array is `none`.
-/

namespace Pvpgn.RawAttr
open Stdio TextUtil CheckedArray CharBuffer AttrGroup List Option

/-- The loop of `str_to_hex`, with the NUL of `sprintf` and the one that is written behind it. -/
def strToHex : Text → Nat → Text → Option Text
  | [], _, target => some target
  | c :: rest, i, target => do
    let printed ← putAll ⟨target, i * 3⟩ (upperHex c ++ [32, 0])
    let target ← writeAt printed.cells (i * 3 + 3) 0
    strToHex rest (i + 1) target

/-- A hexadecimal digit in the arithmetic of `char`. -/
def hexDigit (c : UInt8) : UInt8 := if (57 : Int8) < c.toInt8 then c - 65 + 10 else c - 48

/-- The loop of `hex_to_str` for `datalen` bytes from byte `i` on. -/
def hexToStr (source : Text) : Nat → Nat → Option Text
  | 0, _ => some []
  | datalen + 1, i => do
    let high ← readAt source (i * 3)
    let low ← readAt source (i * 3 + 1)
    let rest ← hexToStr source datalen (i + 1)
    some ((0 + 16 * hexDigit high + 1 * hexDigit low) :: rest)

variable {σ : Type}

/-- `fresh` is the buffer as it is allocated; the string in it is what is stored. -/
def accountSetRawattr (server : Server σ) (now : Int) (world : World σ) (id : Nat) (key val : Text)
    (fresh : Text) : Option (World σ) := do
  let tempBuffer ← strToHex val 0 fresh
  let text ← stringAt tempBuffer
  attrgroupSetAttr server now world id key (some text)

def accountGetRawattr (server : Server σ) (now : Int) (world : World σ) (id : Nat) (key : Text) :
    Option (Option Text × World σ) := do
  let (temp, world) ← attrgroupGetAttr server now world id key
  match temp with
  | none => some (none, world)
  | some temp => do
    let result ← hexToStr (temp ++ [0]) (temp.length / 3) 0
    some (some result, world)

/-- What is stored after some calls comes back, also after more calls that do not set the key. -/
def Recovered (server : Server σ) (start : World σ) (before : List Event) (now : Int) (id : Nat)
    (key data fresh : Text) : Prop :=
  ∃ world stored, run server before start = some world ∧
    accountSetRawattr server now world id key data fresh = some stored ∧
    ∀ later : List Event, (∀ event ∈ later, setsVal id key event = none) →
      ∃ after, run server later stored = some after ∧ ∀ time, ∃ last,
        accountGetRawattr server time after id key = some (some data, last)

/-! The digits. -/

def triple (byte : UInt8) : Text := upperHex byte ++ [32]

theorem triple_values : ∀ value < 256, ∃ high low, triple (UInt8.ofNat value) = [high, low, 32] ∧
    high ≠ 0 ∧ low ≠ 0 ∧ 0 + 16 * hexDigit high + 1 * hexDigit low = UInt8.ofNat value := by
  have shapes : ∀ value < 256, (triple (UInt8.ofNat value)).length = 3 ∧
      (triple (UInt8.ofNat value)).getD 2 0 = 32 ∧ (triple (UInt8.ofNat value)).getD 0 0 ≠ 0 ∧
      (triple (UInt8.ofNat value)).getD 1 0 ≠ 0 ∧
      0 + 16 * hexDigit ((triple (UInt8.ofNat value)).getD 0 0) +
        1 * hexDigit ((triple (UInt8.ofNat value)).getD 1 0) = UInt8.ofNat value := by
    decide +kernel
  intro value small
  obtain ⟨three, space, first, second, total⟩ := shapes value small
  obtain ⟨high, low, last, shape⟩ := length_eq_three.mp three
  rw [shape] at space first second total ⊢
  refine ⟨high, low, ?_, first, second, total⟩
  have blank : last = 32 := space
  rw [blank]

theorem triple_shape (byte : UInt8) : ∃ high low, triple byte = [high, low, 32] ∧
    high ≠ 0 ∧ low ≠ 0 ∧ 0 + 16 * hexDigit high + 1 * hexDigit low = byte := by
  have known := triple_values byte.toNat byte.toNat_lt
  rwa [UInt8.ofNat_toNat] at known

def hexText (data : Text) : Text := data.flatMap triple

theorem hex_text_length (data : Text) : (hexText data).length = 3 * data.length := by
  induction data with
  | nil => rfl
  | cons byte rest ih =>
    obtain ⟨high, low, shape, _⟩ := triple_shape byte
    rw [hexText] at ih
    rw [hexText, flatMap_cons, length_append, ih, shape, length_cons]
    simp only [length_cons, length_nil]
    omega

theorem hex_text_nul_free (data : Text) : 0 ∉ hexText data := by
  intro member
  obtain ⟨byte, _, inside⟩ := mem_flatMap.mp member
  obtain ⟨high, low, shape, first, second, _⟩ := triple_shape byte
  rw [shape] at inside
  simp only [mem_cons, not_mem_nil, or_false] at inside
  rcases inside with zero | zero | zero
  · exact first zero.symm
  · exact second zero.symm
  · exact absurd zero (by decide)

theorem str_to_hex_exact (data : Text) (i : Nat) (target : Text) (some_data : data ≠ [])
    (size : target.length = (i + data.length) * 3 + 1) :
    strToHex data i target = some (target.take (i * 3) ++ hexText data ++ [0]) := by
  induction data generalizing i target with
  | nil => exact absurd rfl some_data
  | cons byte rest ih =>
    obtain ⟨high, low, shape, _⟩ := triple_shape byte
    have printed : upperHex byte ++ [32, 0] = [high, low, 32, 0] := by
      have split : upperHex byte ++ [32, 0] = triple byte ++ [0] := by simp [triple]
      rw [split, shape]
      rfl
    rw [length_cons] at size
    have put := put_all target [high, low, 32, 0] (i * 3)
      (by simp only [length_cons, length_nil]; omega)
    have taken : (target.take (i * 3)).length = i * 3 := by
      rw [length_take]
      omega
    have again : writeAt (target.take (i * 3) ++ [high, low, 32, 0] ++
        target.drop (i * 3 + 4)) (i * 3 + 3) 0 =
        some (target.take (i * 3) ++ [high, low, 32, 0] ++ target.drop (i * 3 + 4)) := by
      have inside : i * 3 + 3 < (target.take (i * 3) ++ [high, low, 32, 0] ++
          target.drop (i * 3 + 4)).length := by
        simp only [length_append, length_cons, length_nil, taken]
        omega
      rw [write_inside _ _ _ inside, append_assoc, set_append_right _ _ (by omega),
        taken, Nat.add_sub_cancel_left]
      rfl
    have text : hexText (byte :: rest) = [high, low, 32] ++ hexText rest := by
      rw [hexText, flatMap_cons, shape, hexText]
    simp only [strToHex, printed, put, length_cons, length_nil, Nat.zero_add,
      Nat.reduceAdd, bind_eq_bind, bind_some, again]
    rw [text]
    by_cases last : rest = []
    · subst last
      rw [drop_eq_nil_of_le (by simp only [length_nil] at size; omega), strToHex]
      simp [hexText]
    rw [ih (i + 1) _ last (by
      simp only [length_append, length_cons, length_nil, taken, length_drop]
      omega)]
    have front : ((target.take (i * 3) ++ [high, low, 32, 0] ++
        target.drop (i * 3 + 4)).take ((i + 1) * 3)) =
        target.take (i * 3) ++ [high, low, 32] := by
      rw [append_assoc, take_append, taken, take_of_length_le (by omega),
        show (i + 1) * 3 - i * 3 = 3 by omega]
      rfl
    rw [front]
    simp only [append_assoc]

theorem hex_to_str_exact (front data tail : Text) (i : Nat) (place : front.length = i * 3) :
    hexToStr (front ++ hexText data ++ tail) data.length i = some data := by
  induction data generalizing front i with
  | nil => rfl
  | cons byte rest ih =>
    obtain ⟨high, low, shape, _, _, total⟩ := triple_shape byte
    have text : front ++ hexText (byte :: rest) ++ tail =
        front ++ high :: low :: 32 :: (hexText rest ++ tail) := by
      rw [hexText, flatMap_cons, shape, ← hexText]
      simp
    have first : readAt (front ++ high :: low :: 32 :: (hexText rest ++ tail)) (i * 3) =
        some high := by
      rw [readAt, getElem?_append_right (by omega), place, Nat.sub_self]
      rfl
    have second : readAt (front ++ high :: low :: 32 :: (hexText rest ++ tail)) (i * 3 + 1) =
        some low := by
      rw [readAt, getElem?_append_right (by omega), place, Nat.add_sub_cancel_left]
      rfl
    have next := ih (front ++ [high, low, 32]) (i + 1)
      (by simp only [length_append, length_cons, length_nil, place]; omega)
    have regrouped : front ++ [high, low, 32] ++ hexText rest ++ tail =
        front ++ high :: low :: 32 :: (hexText rest ++ tail) := by simp
    rw [regrouped] at next
    rw [text, length_cons, hexToStr]
    simp only [first, second, next, bind_eq_bind, bind_some, total]

/-! Storing and reading back. -/

theorem buffer_string (data fresh : Text) (size : fresh.length = data.length * 3 + 1) :
    (strToHex data 0 fresh).bind stringAt =
      if data ≠ [] ∨ fresh = [0] then some (hexText data) else none := by
  by_cases some_data : data ≠ []
  · have printed := str_to_hex_exact data 0 fresh some_data (by omega)
    rw [if_pos (Or.inl some_data), printed, bind_some]
    exact string_written (hexText data) [] (hex_text_nul_free data)
  rw [not_not] at some_data
  subst some_data
  obtain ⟨cell, rfl⟩ := length_eq_one_iff.mp size
  rw [strToHex, bind_some]
  by_cases zero : cell = 0
  · rw [zero, if_pos (Or.inr rfl)]
    rfl
  · rw [if_neg (by simp [zero]), stringAt, if_neg (by simpa using Ne.symm zero)]

theorem unchanged_val (later : List Event) (values : Nat → Text → Option Text) (id : Nat)
    (key : Text) (others : ∀ event ∈ later, setsVal id key event = none) :
    later.foldl applied values id (canonical key) = values id (canonical key) := by
  have unset : later.reverse.findSome? (setsVal id key) = none := by
    rw [findSome?_eq_none_iff]
    exact fun event member => others event (mem_reverse.mp member)
  rw [applied_all_val, unset, getD_none]

/-- Raw bytes come back from an account's attributes exactly when there is a byte, or the buffer
for none happens to begin with a NUL. -/
theorem raw_attr_recovered_iff (server : Server σ) (plain : PlainStorage server.storage)
    (start : World σ) (initial : Nat → List (Text × Text))
    (unused : ∀ id, Fresh server.storage (start.groups id) (initial id)) (before : List Event)
    (now : Int) (id : Nat) (key data fresh : Text) (size : fresh.length = data.length * 3 + 1) :
    Recovered server start before now id key data fresh ↔ data ≠ [] ∨ fresh = [0] := by
  have string := buffer_string data fresh size
  constructor
  · rintro ⟨world, stored, _, stores, _⟩
    by_contra unterminated
    rw [if_neg unterminated] at string
    simp only [accountSetRawattr, bind_eq_bind, ← bind_assoc, string, bind_none] at stores
    cases stores
  intro terminated
  rw [if_pos terminated] at string
  obtain ⟨world, runs, holds⟩ := run_holds server plain before start _ fun id =>
    fresh_holds server.storage (start.groups id) (initial id) (unused id)
  obtain ⟨stored, sets, loaded⟩ :=
    set_attr_holds server plain now world id key (some (hexText data)) (holds id)
  have storedHolds := holds.change id loaded.frame loaded.holds
  refine ⟨world, stored, runs, ?_, fun later others => ?_⟩
  · simp only [accountSetRawattr, bind_eq_bind, ← bind_assoc, string, bind_some, sets]
  obtain ⟨after, goes, afterHolds⟩ := run_holds server plain later stored _ storedHolds
  refine ⟨after, goes, fun time => ?_⟩
  obtain ⟨last, gets, _⟩ := get_attr_holds server plain time after id key afterHolds
  rw [unchanged_val later _ id key others, Function.update_self, Function.update_self,
    some_or] at gets
  have count : (hexText data).length / 3 = data.length := by
    rw [hex_text_length]
    omega
  have read := hex_to_str_exact [] data [0] 0 rfl
  rw [nil_append] at read
  refine ⟨last, ?_⟩
  simp only [accountGetRawattr, gets, bind_eq_bind, bind_some, count, read]

def saltKey : Text := text "BNET\\acct\\salt"

theorem salt_recovered :
    Recovered memoryServer sampleWorld [] 10 1 saltKey [0, 127, 128, 255]
      (replicate 13 204) :=
  (raw_attr_recovered_iff memoryServer memoryServer_plain sampleWorld samplePairs
    (fun _ => ⟨rfl, rfl, rfl, fun loaded => by cases loaded⟩) [] 10 1 saltKey [0, 127, 128, 255]
    (replicate 13 204) rfl).mpr (Or.inl (by decide))

/-- No bytes: what is stored is read from a buffer of one byte that was never written. -/
theorem no_bytes_not_stored :
    accountSetRawattr memoryServer 10 sampleWorld 1 saltKey [] [204] = none ∧
      ¬Recovered memoryServer sampleWorld [] 10 1 saltKey [] [204] := by
  have unterminated : accountSetRawattr memoryServer 10 sampleWorld 1 saltKey [] [204] = none := rfl
  refine ⟨unterminated, ?_⟩
  rintro ⟨world, stored, runs, stores, _⟩
  cases stores

end Pvpgn.RawAttr
