import Pvpgn.Stdio
import Mathlib.Tactic.Positivity

/-!
The list of banned addresses (`ipban.cpp`). An entry is one of five forms of text; addresses are
compared as text or as `unsigned long` of 64 bits, which `ipban_str_to_ulong` makes from an `int` of
32 bits. A `none` is a use of a null pointer or a number that does not fit an `int`.
-/

namespace Pvpgn.IpBan
open Stdio List Option Nat

/-- The value of the digits at the start, 0 without digits. It is undefined outside `int`. -/
def atoi (input : Text) : Option Int :=
  let value := ((integer 10 input).map Prod.fst).getD 0
  if -2 ^ 31 ≤ value ∧ value < 2 ^ 31 then some value else none

def dot : UInt8 := 46
def star : UInt8 := 42
def slash : UInt8 := 47
def minus : UInt8 := 45

/-- What successive calls of `strsep` return. -/
def strsep (input : Text) : List Text := input.splitOn dot

/-- What successive calls of `strtok` return. -/
def strtok (input : Text) : List Text := (input.splitOn dot).filter fun token => token ≠ []

/-- The text before and behind the first `byte`. -/
def strchr (byte : UInt8) (input : Text) : Option (Text × Text) :=
  if byte ∈ input then
    some (input.takeWhile (· ≠ byte), (input.dropWhile (· ≠ byte)).tail)
  else none

inductive Form
  | exact (info1 : Text)
  | wildcard (info1 info2 info3 info4 : Text)
  | range (info1 info2 : Text)
  | netmask (info1 info2 : Text)
  | prefixed (info1 info2 : Text)
  deriving DecidableEq

structure IpbanEntry where
  form : Form
  endtime : Int

def ipbanCouldBeExactIpStr (str : Text) : Bool :=
  4 ≤ (strsep str).length &&
    ((strsep str).take 4).all fun field => 1 ≤ field.length && field.length ≤ 3

def legal (byte : UInt8) : Bool :=
  isdigit byte || byte = dot || byte = star || byte = slash || byte = minus

/-- The last byte of a prefix is not looked at. -/
def ipbanCouldBeIpStr (str : Text) : Option Bool :=
  if str.length < 7 then some false
  else if !str.all legal then some false
  else match strchr minus str with
    | some (first, last) => some (ipbanCouldBeExactIpStr first && ipbanCouldBeExactIpStr last)
    | none =>
      if (strchr star str).isSome then some (ipbanCouldBeExactIpStr str)
      else match strchr slash str with
        | some (base, mask) =>
          if dot ∈ mask then some (ipbanCouldBeExactIpStr base && ipbanCouldBeExactIpStr mask)
          else if !ipbanCouldBeExactIpStr base then some false
          else if !mask.dropLast.all isdigit then some false
          else do
            let bits ← atoi mask
            some (!decide (bits > 32))
        | none => some (ipbanCouldBeExactIpStr str)

def wildcardForm (str : Text) : Option Form :=
  match strtok str with
  | info1 :: info2 :: info3 :: info4 :: _ => some (.wildcard info1 info2 info3 info4)
  | _ => none

/-- The entry, or `some none` for NULL. -/
def ipbanStrToIpbanEntry (ipstr : Option Text) : Option (Option Form) :=
  match ipstr with
  | none => some none
  | some str =>
    if str = [] then some none
    else do
      let could ← ipbanCouldBeIpStr str
      if !could then some none
      else match strchr minus str with
        | some (first, last) => some (some (.range first last))
        | none =>
          if (strchr star str).isSome then some (wildcardForm str)
          else match strchr slash str with
            | some (base, mask) =>
              if dot ∈ mask then some (some (.netmask base mask))
              else some (some (.prefixed base mask))
            | none => some (some (.exact str))

structure State where
  entries : List IpbanEntry
  lastchecktime : Int

/-- `ipbanlist_add` -/
def ipbanlistAdd (state : State) (cp : Option Text) (endtime : Int) : Option (Int × State) := do
  let entry ← ipbanStrToIpbanEntry cp
  match entry with
  | none => some (-1, state)
  | some form => some (0, { state with entries := state.entries ++ [⟨form, endtime⟩] })

def ipbanlistUnloadExpired (now : Int) (entries : List IpbanEntry) : List IpbanEntry :=
  entries.filter fun entry => ¬(entry.endtime - now ≤ 0 ∧ entry.endtime ≠ 0)

/-- Shifts and sums in `int`, and then all 64 bits of an `unsigned long`. -/
def ipbanStrToUlong (ipaddr : Text) : Option (BitVec 64) :=
  match strtok ipaddr with
  | ip1 :: ip2 :: ip3 :: ip4 :: _ => do
    let first ← atoi ip1
    let second ← atoi ip2
    let third ← atoi ip3
    let fourth ← atoi ip4
    let lip := BitVec.ofInt 32 first <<< 24 + BitVec.ofInt 32 second <<< 16 +
      BitVec.ofInt 32 third <<< 8 + BitVec.ofInt 32 fourth
    some (lip.signExtend 64)
  | _ => none

/-- What an entry does with an address: `ipbanlist_check` returns its number, goes on behind it, or
returns -1. -/
inductive Verdict
  | banned
  | passed
  | failed
  deriving DecidableEq

def verdict (hit : Bool) : Verdict := if hit then .banned else .passed

/-- One round of the loop; `ip1` to `ip4` are the parts of the address. -/
def checkEntry (ipaddr ip1 ip2 ip3 ip4 : Text) : Form → Option Verdict
  | .exact info1 => some (verdict (info1 = ipaddr))
  | .wildcard info1 info2 info3 info4 =>
    if info1 ≠ [star] ∧ ip1 ≠ info1 then some .passed
    else if info2 ≠ [star] ∧ ip2 ≠ info2 then some .passed
    else if info3 ≠ [star] ∧ ip3 ≠ info3 then some .passed
    else if info4 ≠ [star] ∧ ip4 ≠ info4 then some .passed
    else some .banned
  | .range info1 info2 => do
    let lip ← ipbanStrToUlong ipaddr
    let low ← ipbanStrToUlong info1
    if low ≤ lip then
      let high ← ipbanStrToUlong info2
      some (verdict (lip ≤ high))
    else some .passed
  | .netmask info1 info2 => do
    let lip1 ← ipbanStrToUlong ipaddr
    if lip1 = 0 then some .failed
    else
      let lip2 ← ipbanStrToUlong info1
      if lip2 = 0 then some .failed
      else
        let netmask ← ipbanStrToUlong info2
        if netmask = 0 then some .failed
        else some (verdict (lip1 &&& netmask = lip2 &&& netmask))
  | .prefixed info1 info2 => do
    let lip1 ← ipbanStrToUlong ipaddr
    if lip1 = 0 then some .failed
    else
      let lip2 ← ipbanStrToUlong info1
      if lip2 = 0 then some .failed
      else
        let bits ← atoi info2
        let shift := (32 - bits).toNat
        some (verdict (lip1 >>> shift = lip2 >>> shift))

def checkEntries (ipaddr ip1 ip2 ip3 ip4 : Text) : Nat → List IpbanEntry → Option Int
  | _, [] => some 0
  | counter, entry :: rest => do
    let found ← checkEntry ipaddr ip1 ip2 ip3 ip4 entry.form
    match found with
    | .banned => some (counter + 1 : Int)
    | .passed => checkEntries ipaddr ip1 ip2 ip3 ip4 (counter + 1) rest
    | .failed => some (-1)

/-- The list that `ipbanlist_check` walks. `interval` is `prefs_get_ipban_check_int`. -/
def refresh (now interval : Int) (state : State) : State :=
  if now - state.lastchecktime ≥ interval then
    { entries := ipbanlistUnloadExpired now state.entries, lastchecktime := now }
  else state

def ipbanlistCheck (now interval : Int) (state : State) (ipaddr : Option Text) :
    Option (Int × State) :=
  match ipaddr with
  | none => some (-1, state)
  | some ipaddr => do
    let state := refresh now interval state
    match strtok ipaddr with
    | ip1 :: ip2 :: ip3 :: ip4 :: _ =>
      let result ← checkEntries ipaddr ip1 ip2 ip3 ip4 0 state.entries
      some (result, state)
    | _ => some (-1, state)

/-- An address with octets from 0 to 255. -/
structure Address where
  first : UInt8
  second : UInt8
  third : UInt8
  fourth : UInt8

def inetNtoa (address : Address) : Text :=
  [dot].intercalate [unsigned address.first.toNat, unsigned address.second.toNat,
    unsigned address.third.toNat, unsigned address.fourth.toNat]

abbrev Octets := Int × Int × Int × Int

/-- What is left of a number in 32 bits. -/
def wrapped (number : Int) : Nat := (number % 2 ^ 32).toNat

def weigh (octets : Octets) : Int :=
  octets.1 * 2 ^ 24 + octets.2.1 * 2 ^ 16 + octets.2.2.1 * 2 ^ 8 + octets.2.2.2

def Address.octets (address : Address) : Octets :=
  (address.first.toNat, address.second.toNat, address.third.toNat, address.fourth.toNat)

def Address.number (address : Address) : Nat := wrapped (weigh address.octets)

def octets (info : Text) : Option Octets :=
  match strtok info with
  | ip1 :: ip2 :: ip3 :: ip4 :: _ => do
    let first ← atoi ip1
    let second ← atoi ip2
    let third ← atoi ip3
    let fourth ← atoi ip4
    some (first, second, third, fourth)
  | _ => none

/-- The number that a text denotes in 32 bits. An octet above 255 adds to the ones before it. -/
def numberOf (info : Text) : Nat := wrapped (((octets info).map weigh).getD 0)

def bitsOf (info : Text) : Nat := ((atoi info).getD 0).toNat

def OctetMatches (info : Text) (octet : UInt8) : Prop :=
  info = [star] ∨ atoi info = some (octet.toNat : Int)

def Matches (address : Address) : Form → Prop
  | .exact info1 => (strtok info1).length = 4 ∧ octets info1 = some address.octets
  | .wildcard info1 info2 info3 info4 => OctetMatches info1 address.first ∧
      OctetMatches info2 address.second ∧ OctetMatches info3 address.third ∧
      OctetMatches info4 address.fourth
  | .range info1 info2 => numberOf info1 ≤ address.number ∧ address.number ≤ numberOf info2
  | .netmask info1 info2 => address.number &&& numberOf info2 = numberOf info1 &&& numberOf info2
  | .prefixed info1 info2 => address.number / 2 ^ (32 - bitsOf info2) =
      numberOf info1 / 2 ^ (32 - bitsOf info2)

instance (info : Text) (octet : UInt8) : Decidable (OctetMatches info octet) :=
  inferInstanceAs (Decidable (_ ∨ _))

instance (address : Address) : (form : Form) → Decidable (Matches address form)
  | .exact info1 =>
    inferInstanceAs (Decidable ((strtok info1).length = 4 ∧ octets info1 = some address.octets))
  | .wildcard info1 info2 info3 info4 =>
    inferInstanceAs (Decidable (OctetMatches info1 address.first ∧
      OctetMatches info2 address.second ∧ OctetMatches info3 address.third ∧
      OctetMatches info4 address.fourth))
  | .range info1 info2 => inferInstanceAs
      (Decidable (numberOf info1 ≤ address.number ∧ address.number ≤ numberOf info2))
  | .netmask info1 info2 => inferInstanceAs
      (Decidable (address.number &&& numberOf info2 = numberOf info1 &&& numberOf info2))
  | .prefixed info1 info2 => inferInstanceAs (Decidable (address.number / 2 ^ (32 - bitsOf info2) =
      numberOf info1 / 2 ^ (32 - bitsOf info2)))

def firstMatch (address : Address) (entries : List IpbanEntry) : Int :=
  match entries.findIdx? fun entry => Matches address entry.form with
  | some index => index + 1
  | none => 0

/-- A part of a wildcard that is written as the octet is. -/
def Spelled (info : Text) (octet : UInt8) : Prop := info = [star] ∨ info = unsigned octet.toNat

/-- Where the comparison that the code makes is the one that the form means. An exact or wildcard
entry for the address is written like the address. The numbers of a netmask or prefix are not 0,
and a prefix of 0 bits agrees with the address in its first bit. -/
def Regular (address : Address) : Form → Prop
  | .exact info1 => Matches address (.exact info1) → info1 = inetNtoa address
  | .wildcard info1 info2 info3 info4 => Matches address (.wildcard info1 info2 info3 info4) →
      Spelled info1 address.first ∧ Spelled info2 address.second ∧ Spelled info3 address.third ∧
      Spelled info4 address.fourth
  | .range _ _ => True
  | .netmask info1 info2 => address.number ≠ 0 ∧ numberOf info1 ≠ 0 ∧ numberOf info2 ≠ 0
  | .prefixed info1 info2 => address.number ≠ 0 ∧ numberOf info1 ≠ 0 ∧
      (bitsOf info2 = 0 → address.number / 2 ^ 31 = numberOf info1 / 2 ^ 31)

def RegularUpTo (address : Address) : List IpbanEntry → Prop
  | [] => True
  | entry :: rest => Regular address entry.form ∧
      (Matches address entry.form ∨ RegularUpTo address rest)

def Accepted (state : State) : Prop :=
  ∀ entry ∈ state.entries, ∃ ipstr, ipbanStrToIpbanEntry ipstr = some (some entry.form)

section Words

theorem word_shift (value : Int) (count : Nat)
    (power : BitVec.ofInt 32 (2 ^ count) = BitVec.twoPow 32 count) :
    BitVec.ofInt 32 value <<< count = BitVec.ofInt 32 (value * 2 ^ count) := by
  rw [BitVec.shiftLeft_eq_mul_twoPow, BitVec.ofInt_mul, power]

theorem word_weigh (first second third fourth : Int) :
    BitVec.ofInt 32 first <<< 24 + BitVec.ofInt 32 second <<< 16 + BitVec.ofInt 32 third <<< 8 +
      BitVec.ofInt 32 fourth = BitVec.ofInt 32 (weigh (first, second, third, fourth)) := by
  rw [word_shift first 24 (by decide), word_shift second 16 (by decide),
    word_shift third 8 (by decide), weigh, BitVec.ofInt_add, BitVec.ofInt_add, BitVec.ofInt_add]

theorem word_to_nat (number : Int) : (BitVec.ofInt 32 number).toNat = wrapped number := by
  rfl

variable (left right word : BitVec 32)

theorem extend_to_nat : (word.signExtend 64).toNat =
    word.toNat + if 2 ^ 31 ≤ word.toNat then 2 ^ 64 - 2 ^ 32 else 0 := by
  rw [BitVec.toNat_signExtend, BitVec.toNat_setWidth, mod_eq_of_lt (by omega), BitVec.msb_eq_decide]
  simp

theorem extend_zero : word.signExtend 64 = 0 ↔ word.toNat = 0 := by
  rw [← BitVec.toNat_inj, extend_to_nat]
  split
  · simp
    omega
  · simp

theorem extend_le : left.signExtend 64 ≤ right.signExtend 64 ↔ left.toNat ≤ right.toNat := by
  rw [BitVec.le_def, extend_to_nat, extend_to_nat]
  split <;> split <;> omega

theorem extend_injective {left right : BitVec 32}
    (same : left.signExtend 64 = right.signExtend 64) : left = right := by
  apply BitVec.eq_of_toNat_eq
  apply le_antisymm
  · exact (extend_le left right).mp (same ▸ BitVec.le_refl _)
  · exact (extend_le right left).mp (same ▸ BitVec.le_refl _)

theorem extend_and (mask : BitVec 32) :
    left.signExtend 64 &&& mask.signExtend 64 = right.signExtend 64 &&& mask.signExtend 64 ↔
      left.toNat &&& mask.toNat = right.toNat &&& mask.toNat := by
  rw [← BitVec.signExtend_and, ← BitVec.signExtend_and, ← BitVec.toNat_and, ← BitVec.toNat_and,
    BitVec.toNat_inj]
  exact ⟨extend_injective, fun same => by rw [same]⟩

theorem extend_div {shift : Nat} (small : shift ≤ 32) :
    (word.signExtend 64).toNat / 2 ^ shift = word.toNat / 2 ^ shift +
      if 2 ^ 31 ≤ word.toNat then (2 ^ 32 - 1) * 2 ^ (32 - shift) else 0 := by
  have split : 2 ^ 64 - 2 ^ 32 = 2 ^ shift * ((2 ^ 32 - 1) * 2 ^ (32 - shift)) := by
    have whole : 2 ^ shift * 2 ^ (32 - shift) = 2 ^ 32 := by
      rw [← pow_add, Nat.add_sub_cancel' small]
    rw [mul_left_comm, whole]
    rfl
  rw [extend_to_nat]
  by_cases high : 2 ^ 31 ≤ word.toNat
  · rw [if_pos high, if_pos high, split, add_mul_div_left _ _ (Nat.two_pow_pos shift)]
  · rw [if_neg high, if_neg high, add_zero, add_zero]

/-- A shift of all 32 bits leaves copies of the first bit. -/
theorem extend_shift (shift : Nat) (small : shift ≤ 32) :
    left.signExtend 64 >>> shift = right.signExtend 64 >>> shift ↔
      left.toNat / 2 ^ min shift 31 = right.toNat / 2 ^ min shift 31 := by
  have leftSmall := left.isLt
  have rightSmall := right.isLt
  rw [← BitVec.toNat_inj, BitVec.toNat_ushiftRight, BitVec.toNat_ushiftRight,
    shiftRight_eq_div_pow, shiftRight_eq_div_pow, extend_div left small,
    extend_div right small]
  by_cases all : shift = 32
  · subst all
    rw [div_eq_of_lt leftSmall, div_eq_of_lt rightSmall, Nat.sub_self, pow_zero,
      min_eq_right (by omega)]
    split <;> split <;> omega
  rw [min_eq_left (by omega)]
  have top (word : Nat) : 2 ^ 31 ≤ word ↔ 2 ^ (31 - shift) ≤ word / 2 ^ shift := by
    rw [le_div_iff_mul_le (Nat.two_pow_pos shift), ← pow_add, Nat.sub_add_cancel (by omega)]
  have leftTop := top left.toNat
  have rightTop := top right.toNat
  split <;> split <;> omega

end Words

section Texts

theorem from_digits_lt (field : Text) (numeral : ∀ byte ∈ field, isDigit 10 byte = true) :
    fromDigits 10 field < 10 ^ field.length := by
  induction field using reverseRecOn with
  | nil => simp [fromDigits]
  | append_singleton front byte ih =>
    have small := ih fun other member => numeral other (mem_append_left _ member)
    have last : digitValue byte < 10 := of_decide_eq_true (numeral byte (by simp))
    rw [from_digits_append, length_append, length_singleton, pow_succ]
    omega

variable {input : Text}

variable {byte : UInt8} {value : Int}

theorem integer_bound {rest : Text} (read : integer 10 input = some (value, rest)) :
    -(10 ^ input.length : Int) < value ∧ value < 10 ^ input.length ∧
      (minus ∉ input → 0 ≤ value) := by
  have bound (digits : Text) (shorter : digits.length ≤ input.length) (found : Nat)
      (tail : Text) (numeral : magnitude 10 digits = some (found, tail)) :
      (found : Int) < 10 ^ input.length := by
    have plain : magnitude 10 digits = number 10 digits := by simp [magnitude]
    rw [plain, number] at numeral
    split_ifs at numeral
    cases numeral
    have small := from_digits_lt (digits.takeWhile (isDigit 10)) fun byte member =>
      mem_takeWhile_imp member
    have shorterRun := (List.takeWhile_prefix (p := isDigit 10) (l := digits)).length_le
    have power := Nat.pow_le_pow_right (show 0 < 10 by decide) (shorterRun.trans shorter)
    exact_mod_cast lt_of_lt_of_le small power
  have start := (dropWhile_suffix isspace (l := input)).length_le
  rw [integer] at read
  split at read
  · next rest' shape =>
      obtain ⟨⟨found, tail⟩, numeral, same⟩ := map_eq_some_iff.mp read
      cases same
      have small := bound rest' (by rw [shape] at start; simp at start; omega) found tail numeral
      refine ⟨by omega, by omega, fun absent => ?_⟩
      have inside : minus ∈ input.dropWhile isspace := by rw [shape]; simp [minus]
      exact absurd (dropWhile_subset isspace inside) absent
  · next rest' shape =>
      obtain ⟨⟨found, tail⟩, numeral, same⟩ := map_eq_some_iff.mp read
      cases same
      have small := bound rest' (by rw [shape] at start; simp at start; omega) found tail numeral
      exact ⟨by omega, small, fun _ => by omega⟩
  · obtain ⟨⟨found, tail⟩, numeral, same⟩ := map_eq_some_iff.mp read
    cases same
    have small := bound _ start found tail numeral
    exact ⟨by omega, small, fun _ => by omega⟩

theorem atoi_short (short : input.length ≤ 3) : ∃ value, atoi input = some value := by
  have power : (10 : Int) ^ input.length ≤ 10 ^ 3 := pow_le_pow_right₀ (by decide) short
  have small : -2 ^ 31 ≤ ((integer 10 input).map Prod.fst).getD 0 ∧
      ((integer 10 input).map Prod.fst).getD 0 < 2 ^ 31 := by
    cases read : integer 10 input with
    | none => simp
    | some found =>
      obtain ⟨low, high, _⟩ := integer_bound read
      simp only [map_some, getD_some]
      omega
  exact ⟨_, if_pos small⟩

theorem atoi_nonneg (read : atoi input = some value) (unsigned : minus ∉ input) : 0 ≤ value := by
  simp only [atoi] at read
  split_ifs at read
  cases read
  cases found : integer 10 input with
  | none => simp
  | some pair => simpa using (integer_bound found).2.2 unsigned

theorem exact_octets {info : Text} (could : ipbanCouldBeExactIpStr info = true) :
    ∃ values, octets info = some values ∧
      ipbanStrToUlong info = some ((BitVec.ofInt 32 (weigh values)).signExtend 64) := by
  rw [ipbanCouldBeExactIpStr, Bool.and_eq_true, decide_eq_true_eq] at could
  obtain ⟨enough, fit⟩ := could
  match fields : strsep info with
  | [] => simp [fields] at enough
  | [_] => simp [fields] at enough
  | [_, _] => simp [fields] at enough
  | [_, _, _] => simp [fields] at enough
  | ip1 :: ip2 :: ip3 :: ip4 :: rest =>
    simp only [fields, take_succ_cons, take_zero, all_cons, all_nil,
      Bool.and_true, Bool.and_eq_true, decide_eq_true_eq] at fit
    obtain ⟨⟨some1, short1⟩, ⟨some2, short2⟩, ⟨some3, short3⟩, some4, short4⟩ := fit
    have filled {field : Text} (some_ : 1 ≤ field.length) : field ≠ [] := length_pos_iff.mp some_
    have tokens : strtok info = ip1 :: ip2 :: ip3 :: ip4 ::
        rest.filter fun token => token ≠ [] := by
      rw [strsep] at fields
      simp [strtok, fields, filled some1, filled some2, filled some3, filled some4]
    obtain ⟨first, read1⟩ := atoi_short short1
    obtain ⟨second, read2⟩ := atoi_short short2
    obtain ⟨third, read3⟩ := atoi_short short3
    obtain ⟨fourth, read4⟩ := atoi_short short4
    refine ⟨(first, second, third, fourth), ?_, ?_⟩
    · simp [octets, tokens, read1, read2, read3, read4]
    · simp only [ipbanStrToUlong, tokens, read1, read2, read3, read4, bind_eq_bind,
        bind_some, word_weigh]

theorem unsigned_decimal (octet : UInt8) : dot ∉ unsigned octet.toNat ∧
    unsigned octet.toNat ≠ [] ∧ atoi (unsigned octet.toNat) = some (octet.toNat : Int) := by
  have small := UInt8.toNat_lt octet
  refine ⟨?_, digits_ne_nil 10 _, ?_⟩
  · intro member
    have numeral := is_digit_digits base_ten _ dot member
    exact absurd numeral (by decide)
  have read := integer_digits 10 octet.toNat [] (Or.inr rfl) separated_nil
  rw [append_nil] at read
  rw [atoi, unsigned, read]
  simp only [map_some, getD_some]
  exact if_pos ⟨by omega, by omega⟩

theorem inet_tokens (address : Address) : strtok (inetNtoa address) =
    [unsigned address.first.toNat, unsigned address.second.toNat, unsigned address.third.toNat,
      unsigned address.fourth.toNat] := by
  have parts : (inetNtoa address).splitOn dot = [unsigned address.first.toNat,
      unsigned address.second.toNat, unsigned address.third.toNat,
      unsigned address.fourth.toNat] := by
    apply splitOn_intercalate
    · simp [(unsigned_decimal _).1]
    · simp
  simp [strtok, parts, (unsigned_decimal _).2.1]

theorem inet_octets (address : Address) : octets (inetNtoa address) = some address.octets := by
  simp [octets, inet_tokens, (unsigned_decimal _).2.2, Address.octets]

example : inetNtoa ⟨192, 168, 0, 7⟩ = text "192.168.0.7" := by decide +kernel

theorem inet_ulong (address : Address) : ipbanStrToUlong (inetNtoa address) =
    some ((BitVec.ofInt 32 (weigh address.octets)).signExtend 64) := by
  simp only [ipbanStrToUlong, inet_tokens, (unsigned_decimal _).2.2, bind_eq_bind,
    bind_some, word_weigh]
  rfl

def Sound : Form → Prop
  | .exact info1 => ipbanCouldBeExactIpStr info1 = true
  | .wildcard _ _ _ _ => True
  | .range info1 info2 => ipbanCouldBeExactIpStr info1 = true ∧ ipbanCouldBeExactIpStr info2 = true
  | .netmask info1 info2 =>
    ipbanCouldBeExactIpStr info1 = true ∧ ipbanCouldBeExactIpStr info2 = true
  | .prefixed info1 info2 => ipbanCouldBeExactIpStr info1 = true ∧
      ∃ bits, atoi info2 = some bits ∧ 0 ≤ bits ∧ bits ≤ 32

theorem strchr_none (missed : strchr byte input = none) : byte ∉ input := by
  intro member
  simp [strchr, member] at missed

theorem strchr_some {before after : Text} (found : strchr byte input = some (before, after)) :
    after ⊆ input := by
  by_cases member : byte ∈ input
  · rw [strchr, if_pos member] at found
    cases found
    exact fun other inside => dropWhile_subset _ (mem_of_mem_tail inside)
  · rw [strchr, if_neg member] at found
    cases found

theorem accepted_sound {ipstr : Option Text} {form : Form}
    (accepted : ipbanStrToIpbanEntry ipstr = some (some form)) : Sound form := by
  cases ipstr with
  | none => cases accepted
  | some str =>
    rw [ipbanStrToIpbanEntry] at accepted
    by_cases empty : str = []
    · rw [if_pos empty] at accepted
      cases accepted
    rw [if_neg empty, bind_eq_bind, bind_eq_some_iff] at accepted
    obtain ⟨could, read, accepted⟩ := accepted
    cases could with
    | false => cases accepted
    | true =>
      simp only [Bool.not_true, Bool.false_eq_true, if_false] at accepted
      rw [ipbanCouldBeIpStr] at read
      by_cases short : str.length < 7
      · rw [if_pos short] at read
        cases read
      by_cases strange : (!str.all legal) = true
      · rw [if_neg short, if_pos strange] at read
        cases read
      rw [if_neg short, if_neg strange] at read
      cases dash : strchr minus str with
      | some halves =>
        simp only [dash, some.injEq] at read accepted
        subst accepted
        simpa [Sound] using read
      | none =>
        simp only [dash] at read accepted
        by_cases starred : (strchr star str).isSome
        · rw [if_pos starred, some.injEq, wildcardForm] at accepted
          split at accepted
          · cases accepted
            trivial
          · cases accepted
        rw [if_neg starred] at read accepted
        cases slashed : strchr slash str with
        | none =>
          simp only [slashed, some.injEq] at read accepted
          subst accepted
          exact read
        | some halves =>
          obtain ⟨base, mask⟩ := halves
          simp only [slashed] at read accepted
          by_cases dotted : dot ∈ mask
          · rw [if_pos dotted, some.injEq] at read accepted
            cases accepted
            simpa [Sound] using read
          rw [if_neg dotted, some.injEq] at accepted
          cases accepted
          by_cases loose : (!ipbanCouldBeExactIpStr base) = true
          · rw [if_neg dotted, if_pos loose] at read
            cases read
          by_cases letters : (!mask.dropLast.all isdigit) = true
          · rw [if_neg dotted, if_neg loose, if_pos letters] at read
            cases read
          rw [if_neg dotted, if_neg loose, if_neg letters] at read
          obtain ⟨bits, value, few⟩ := bind_eq_some_iff.mp read
          have small : bits ≤ 32 := by simpa using few
          have unsigned_ : minus ∉ mask := fun member =>
            strchr_none dash (strchr_some slashed member)
          exact ⟨by simpa using loose, bits, value, atoi_nonneg value unsigned_, small⟩

end Texts

section Checks

def Right (address : Address) (form : Form) (found : Verdict) : Prop :=
  (found = .banned ∧ Matches address form) ∨ (found = .passed ∧ ¬Matches address form)

variable {form : Form}

theorem right_verdict {address : Address} {hit : Bool} :
    Right address form (verdict hit) ↔ (hit = true ↔ Matches address form) := by
  cases hit <;> simp [Right, verdict]

def judge (address : Address) (form : Form) : Option Verdict :=
  checkEntry (inetNtoa address) (unsigned address.first.toNat) (unsigned address.second.toNat)
    (unsigned address.third.toNat) (unsigned address.fourth.toNat) form

variable {address : Address}

theorem exact_judged (info1 : Text) : ∃ found, judge address (.exact info1) = some found ∧
    (Right address (.exact info1) found ↔ Regular address (.exact info1)) := by
  refine ⟨_, rfl, right_verdict.trans ?_⟩
  rw [decide_eq_true_eq]
  constructor
  · exact fun same => same.mpr
  intro regular
  refine ⟨?_, regular⟩
  rintro rfl
  exact ⟨by rw [inet_tokens]; rfl, inet_octets address⟩

variable {info : Text}

theorem spelled_matches {octet : UInt8} (spelled : Spelled info octet) :
    OctetMatches info octet := by
  rcases spelled with wild | same
  · exact Or.inl wild
  · exact Or.inr (same ▸ (unsigned_decimal octet).2.2)

instance (info : Text) (octet : UInt8) : Decidable (Spelled info octet) :=
  inferInstanceAs (Decidable (_ ∨ _))

theorem wildcard_judged (info1 info2 info3 info4 : Text) :
    ∃ found, judge address (.wildcard info1 info2 info3 info4) = some found ∧
      (Right address (.wildcard info1 info2 info3 info4) found ↔
        Regular address (.wildcard info1 info2 info3 info4)) := by
  have part (info : Text) (octet : UInt8) :
      (info ≠ [star] ∧ unsigned octet.toNat ≠ info) ↔ ¬Spelled info octet := by
    simp only [Spelled, not_or, ne_eq, eq_comm]
  have judged : judge address (.wildcard info1 info2 info3 info4) = some (verdict
      (Spelled info1 address.first ∧ Spelled info2 address.second ∧ Spelled info3 address.third ∧
        Spelled info4 address.fourth)) := by
    simp only [judge, checkEntry, part]
    by_cases first : Spelled info1 address.first <;>
      by_cases second : Spelled info2 address.second <;>
      by_cases third : Spelled info3 address.third <;>
      by_cases fourth : Spelled info4 address.fourth <;>
      simp [first, second, third, fourth, verdict]
  refine ⟨_, judged, right_verdict.trans ?_⟩
  rw [decide_eq_true_eq]
  constructor
  · exact fun same => same.mpr
  intro regular
  refine ⟨?_, regular⟩
  rintro ⟨first, second, third, fourth⟩
  exact ⟨spelled_matches first, spelled_matches second, spelled_matches third,
    spelled_matches fourth⟩

theorem exact_word (could : ipbanCouldBeExactIpStr info = true) :
    ∃ word : BitVec 32, ipbanStrToUlong info = some (word.signExtend 64) ∧
      word.toNat = numberOf info := by
  obtain ⟨values, read, ulong⟩ := exact_octets could
  exact ⟨_, ulong, by rw [word_to_nat, numberOf, read]; rfl⟩

theorem inet_word (address : Address) :
    ∃ word : BitVec 32, ipbanStrToUlong (inetNtoa address) = some (word.signExtend 64) ∧
      word.toNat = address.number :=
  ⟨_, inet_ulong address, word_to_nat _⟩

variable {info1 info2 : Text}

theorem range_judged (sound : Sound (.range info1 info2)) :
    ∃ found, judge address (.range info1 info2) = some found ∧
      (Right address (.range info1 info2) found ↔ Regular address (.range info1 info2)) := by
  obtain ⟨lip, ulong, number⟩ := inet_word address
  obtain ⟨low, lowUlong, lowNumber⟩ := exact_word sound.1
  obtain ⟨high, highUlong, highNumber⟩ := exact_word sound.2
  have judged : judge address (.range info1 info2) = some (verdict
      (numberOf info1 ≤ address.number ∧ address.number ≤ numberOf info2)) := by
    simp only [judge, checkEntry, ulong, lowUlong, highUlong, bind_eq_bind,
      bind_some, extend_le, number, lowNumber, highNumber]
    by_cases above : numberOf info1 ≤ address.number
    · simp [above]
    · simp [above, verdict]
  refine ⟨_, judged, right_verdict.trans ?_⟩
  simp [Regular, Matches]

theorem netmask_judged (sound : Sound (.netmask info1 info2)) :
    ∃ found, judge address (.netmask info1 info2) = some found ∧
      (Right address (.netmask info1 info2) found ↔ Regular address (.netmask info1 info2)) := by
  obtain ⟨lip1, ulong1, number1⟩ := inet_word address
  obtain ⟨lip2, ulong2, number2⟩ := exact_word sound.1
  obtain ⟨mask, ulong3, number3⟩ := exact_word sound.2
  simp only [judge, checkEntry, ulong1, ulong2, ulong3, bind_eq_bind, bind_some,
    extend_zero, extend_and, number1, number2, number3, Regular]
  by_cases zero1 : address.number = 0
  · exact ⟨.failed, if_pos zero1, by simp [Right, zero1]⟩
  by_cases zero2 : numberOf info1 = 0
  · exact ⟨.failed, by rw [if_neg zero1, if_pos zero2], by simp [Right, zero2]⟩
  by_cases zero3 : numberOf info2 = 0
  · exact ⟨.failed, by rw [if_neg zero1, if_neg zero2, if_pos zero3], by simp [Right, zero3]⟩
  rw [if_neg zero1, if_neg zero2, if_neg zero3]
  refine ⟨_, rfl, right_verdict.trans ?_⟩
  simp [Matches, zero1, zero2, zero3]

theorem prefixed_judged (sound : Sound (.prefixed info1 info2)) :
    ∃ found, judge address (.prefixed info1 info2) = some found ∧
      (Right address (.prefixed info1 info2) found ↔ Regular address (.prefixed info1 info2)) := by
  obtain ⟨could, bits, read, low, high⟩ := sound
  obtain ⟨lip1, ulong1, number1⟩ := inet_word address
  obtain ⟨lip2, ulong2, number2⟩ := exact_word could
  have shift : (32 - bits).toNat = 32 - bitsOf info2 := by
    rw [bitsOf, read, getD_some]
    omega
  simp only [judge, checkEntry, ulong1, ulong2, read, bind_eq_bind, bind_some,
    extend_zero, shift, extend_shift lip1 lip2 _ (sub_le 32 _), number1, number2, Regular]
  by_cases zero1 : address.number = 0
  · exact ⟨.failed, if_pos zero1, by simp [Right, zero1]⟩
  by_cases zero2 : numberOf info1 = 0
  · exact ⟨.failed, by rw [if_neg zero1, if_pos zero2], by simp [Right, zero2]⟩
  rw [if_neg zero1, if_neg zero2]
  refine ⟨_, rfl, right_verdict.trans ?_⟩
  by_cases whole : bitsOf info2 = 0
  · -- no bit is compared, and the code still compares the first
    have empty : address.number / 2 ^ 32 = numberOf info1 / 2 ^ 32 := by
      rw [← number1, ← number2, div_eq_of_lt lip1.isLt, div_eq_of_lt lip2.isLt]
    norm_num at empty
    simp [Matches, whole, zero1, zero2, empty]
  · rw [min_eq_left (show 32 - bitsOf info2 ≤ 31 by omega)]
    simp [Matches, whole, zero1, zero2]

theorem judged (address : Address) (sound : Sound form) :
    ∃ found, judge address form = some found ∧
      (Right address form found ↔ Regular address form) := by
  cases form with
  | exact info1 => exact exact_judged info1
  | wildcard info1 info2 info3 info4 => exact wildcard_judged info1 info2 info3 info4
  | range info1 info2 => exact range_judged sound
  | netmask info1 info2 => exact netmask_judged sound
  | prefixed info1 info2 => exact prefixed_judged sound

theorem first_match_cons (entry : IpbanEntry) (rest : List IpbanEntry) :
    firstMatch address (entry :: rest) =
      if Matches address entry.form then 1
      else if firstMatch address rest = 0 then 0 else firstMatch address rest + 1 := by
  by_cases hit : Matches address entry.form
  · simp [firstMatch, findIdx?_cons, hit]
  cases found : rest.findIdx? fun entry => Matches address entry.form with
  | none => simp [firstMatch, findIdx?_cons, hit, found]
  | some index =>
    simp [firstMatch, findIdx?_cons, hit, found]
    omega

theorem first_match_nonneg (address : Address) (entries : List IpbanEntry) :
    0 ≤ firstMatch address entries := by
  rw [firstMatch]
  split <;> omega

theorem walk_judged (address : Address) (entries : List IpbanEntry)
    (sound : ∀ entry ∈ entries, Sound entry.form) (counter : Nat) :
    ∃ result, checkEntries (inetNtoa address) (unsigned address.first.toNat)
        (unsigned address.second.toNat) (unsigned address.third.toNat)
        (unsigned address.fourth.toNat) counter entries = some result ∧
      (result = -1 ∨ result = 0 ∨ counter < result) ∧
      (result = (if firstMatch address entries = 0 then 0
        else counter + firstMatch address entries) ↔ RegularUpTo address entries) := by
  induction entries generalizing counter with
  | nil => exact ⟨0, rfl, Or.inr (Or.inl rfl), by simp [firstMatch, RegularUpTo]⟩
  | cons entry rest ih =>
    obtain ⟨later, walked, shape, right⟩ :=
      ih (fun other inside => sound other (mem_cons_of_mem _ inside)) (counter + 1)
    obtain ⟨found, verdict, regular⟩ := judged address (sound entry mem_cons_self)
    rw [judge] at verdict
    have behind := first_match_nonneg address rest
    simp only [checkEntries, verdict, bind_eq_bind, bind_some, first_match_cons, RegularUpTo]
    by_cases hit : Matches address entry.form
    · cases found with
      | banned =>
        refine ⟨_, rfl, by omega, ?_⟩
        simp [hit, ← regular, Right]
      | passed =>
        refine ⟨later, walked, by omega, ?_⟩
        simp [hit, ← regular, Right]
        omega
      | failed =>
        refine ⟨-1, rfl, by omega, ?_⟩
        simp [hit, ← regular, Right]
        omega
    · cases found with
      | banned =>
        refine ⟨_, rfl, by omega, ?_⟩
        simp [hit, ← regular, Right]
        split <;> omega
      | passed =>
        refine ⟨later, walked, by omega, ?_⟩
        simp [hit, ← regular, Right, ← right]
        split <;> omega
      | failed =>
        refine ⟨-1, rfl, by omega, ?_⟩
        simp [hit, ← regular, Right]
        split <;> omega

end Checks

section Lists

theorem refresh_accepted {state : State} (now interval : Int) (accepted : Accepted state) :
    Accepted (refresh now interval state) := by
  rw [refresh]
  split
  · intro entry member
    exact accepted entry (mem_of_mem_filter member)
  · exact accepted

/-- The check of an address always ends. It gives the number of the first entry that matches, or 0
without one, exactly when the entries up to there are regular. -/
theorem check_first_match (now interval : Int) (state : State) (accepted : Accepted state)
    (address : Address) :
    ∃ result, ipbanlistCheck now interval state (some (inetNtoa address)) =
        some (result, refresh now interval state) ∧
      (result = firstMatch address (refresh now interval state).entries ↔
        RegularUpTo address (refresh now interval state).entries) := by
  have sound (entry : IpbanEntry) (member : entry ∈ (refresh now interval state).entries) :
      Sound entry.form := by
    obtain ⟨ipstr, read⟩ := refresh_accepted now interval accepted entry member
    exact accepted_sound read
  obtain ⟨result, walked, _, right⟩ := walk_judged address _ sound 0
  refine ⟨result, ?_, ?_⟩
  · simp only [ipbanlistCheck, inet_tokens, walked, bind_eq_bind, bind_some]
  · rw [← right]
    split <;> omega

def localNets : State where
  entries := [⟨.range (text "10.0.0.1") (text "10.0.0.9"), 0⟩,
    ⟨.netmask (text "10.0.0.0") (text "255.0.0.0"), 0⟩]
  lastchecktime := 0

theorem local_nets_checked :
    ipbanlistCheck 0 1 localNets (some (inetNtoa ⟨10, 1, 2, 3⟩)) = some (2, localNets) := by
  have accepted : Accepted localNets := by
    intro entry member
    rcases mem_cons.mp member with rfl | other
    · exact ⟨text "10.0.0.1-10.0.0.9", by decide⟩
    · rw [mem_singleton.mp other]
      exact ⟨text "10.0.0.0/255.0.0.0", by decide⟩
  have regular : RegularUpTo ⟨10, 1, 2, 3⟩ localNets.entries := by
    refine ⟨trivial, Or.inr ⟨⟨?_, ?_, ?_⟩, Or.inl ?_⟩⟩ <;> decide
  obtain ⟨result, checked, right⟩ := check_first_match 0 1 localNets accepted ⟨10, 1, 2, 3⟩
  rw [right.mpr regular] at checked
  exact checked

/-- A ban of 0.0.0.0/8 refuses every address, here one that no entry matches. -/
theorem zero_net_refuses :
    ipbanStrToIpbanEntry (some (text "0.0.0.0/8")) =
        some (some (.prefixed (text "0.0.0.0") (text "8"))) ∧
      firstMatch ⟨10, 1, 2, 3⟩ [⟨.prefixed (text "0.0.0.0") (text "8"), 0⟩] = 0 ∧
      ipbanlistCheck 0 1 ⟨[⟨.prefixed (text "0.0.0.0") (text "8"), 0⟩], 0⟩
        (some (inetNtoa ⟨10, 1, 2, 3⟩)) =
        some (-1, ⟨[⟨.prefixed (text "0.0.0.0") (text "8"), 0⟩], 0⟩) := by
  refine ⟨by decide, by decide, ?_⟩
  rfl

end Lists

end Pvpgn.IpBan
