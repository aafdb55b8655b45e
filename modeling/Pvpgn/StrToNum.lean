import Pvpgn.TextUtil

/-!
`str_to_uint` and `str_to_ushort` of the common library. Both look for an overflow after it has
happened, in the arithmetic of their type.
-/

namespace Pvpgn.StrToNum
open Stdio TextUtil List Option Nat

/-- The call with what `*num` held before: its result and what `*num` holds then. -/
def strToUintInto (str : Text) (num : UInt32) : Int × UInt32 :=
  match strToUint str with
  | some val => (0, val)
  | none => (-1, num)

/-- The loop of `str_to_ushort`. -/
def strToUshortLoop : Text → UInt16 → Option UInt16
  | [], val => some val
  | byte :: rest, pval =>
    let val := pval * 10
    if val / 10 ≠ pval then none
    else if isdigit byte then
      let sum := val + (byte - 48).toUInt16
      if sum < val then none else strToUshortLoop rest sum
    else none

def strToUshort (str : Text) : Option UInt16 :=
  match str.dropWhile fun byte => byte = 32 || byte = 9 with
  | 43 :: rest => strToUshortLoop rest 0 -- +
  | rest => strToUshortLoop rest 0

def strToUshortInto (str : Text) (num : UInt16) : Int × UInt16 :=
  match strToUshort str with
  | some val => (0, val)
  | none => (-1, num)

/-- A run of spaces and tabs, at most one plus sign, and digits whose value is less than
`modulus`. -/
def Numeral (modulus : Nat) (str : Text) (value : Nat) : Prop :=
  ∃ blanks sign field, str = blanks ++ sign ++ field ∧
    (∀ byte ∈ blanks, byte = 32 ∨ byte = 9) ∧ (sign = [] ∨ sign = [43]) ∧
    (∀ byte ∈ field, isdigit byte = true) ∧ value = fromDigits 10 field ∧ value < modulus

/-- What a call into a variable of a type with `modulus` values is for. -/
structure ReadsNumerals {Value : Type} (modulus : Nat) (toNat : Value → Nat)
    (call : Text → Value → Int × Value) : Prop where
  accepts : ∀ str num, (call str num).1 = 0 ↔ ∃ value, Numeral modulus str value
  stores : ∀ str num value, Numeral modulus str value → toNat (call str num).2 = value
  refuses : ∀ str num, (¬∃ value, Numeral modulus str value) → call str num = (-1, num)

/-! The loop over the numbers below any modulus. -/

def checkedLoop (modulus : Nat) : Text → Nat → Option Nat
  | [], val => some val
  | byte :: rest, pval =>
    let val := pval * 10 % modulus
    if val / 10 ≠ pval then none
    else if isdigit byte then
      let sum := (val + (byte.toNat - 48)) % modulus
      if sum < val then none else checkedLoop modulus rest sum
    else none

theorem digit_byte (byte : UInt8) (numeral : isdigit byte = true) :
    48 ≤ byte.toNat ∧ byte.toNat ≤ 57 ∧ digitValue byte = byte.toNat - 48 := by
  rw [isdigit, Bool.and_eq_true, decide_eq_true_eq, decide_eq_true_eq] at numeral
  refine ⟨UInt8.le_iff_toNat_le.mp numeral.1, UInt8.le_iff_toNat_le.mp numeral.2, ?_⟩
  rw [digitValue, if_pos numeral]

variable (modulus : Nat) (str : Text) (val : Nat)

/-- A loop whose tests and whose next value are those of the loop over the numbers. -/
theorem loop_checked {Value : Type} (toNat : Value → Nat) (loop : Text → Value → Option Value)
    (product : Value → Value) (sum : UInt8 → Value → Value) (overflows : Value → Prop)
    (wraps : UInt8 → Value → Prop) [DecidablePred overflows] [∀ byte, DecidablePred (wraps byte)]
    (stop : ∀ val, loop [] val = some val)
    (turn : ∀ byte rest val, loop (byte :: rest) val = if overflows val then none
      else if isdigit byte then if wraps byte val then none else loop rest (sum byte val) else none)
    (multiplied : ∀ val, toNat (product val) = toNat val * 10 % modulus)
    (overflow : ∀ val, overflows val ↔ toNat (product val) / 10 ≠ toNat val)
    (added : ∀ byte val, isdigit byte = true →
      toNat (sum byte val) = (toNat (product val) + (byte.toNat - 48)) % modulus)
    (wrap : ∀ byte val, wraps byte val ↔ toNat (sum byte val) < toNat (product val))
    (val : Value) : (loop str val).map toNat = checkedLoop modulus str (toNat val) := by
  induction str generalizing val with
  | nil => rw [stop, map_some, checkedLoop]
  | cons byte rest ih =>
    rw [turn, checkedLoop, ← multiplied]
    by_cases lost : overflows val
    · rw [if_pos lost, if_pos ((overflow val).mp lost), map_none]
    rw [if_neg lost, if_neg fun same => lost ((overflow val).mpr same)]
    by_cases numeral : isdigit byte = true
    · have less := wrap byte val
      rw [added byte val numeral] at less
      rw [if_pos numeral, if_pos numeral]
      by_cases wrapped : wraps byte val
      · rw [if_pos wrapped, if_pos (less.mp wrapped), map_none]
      · rw [if_neg wrapped, if_neg fun small => wrapped (less.mpr small), ih,
          added byte val numeral]
    · rw [if_neg numeral, if_neg numeral, map_none]

theorem uint_loop_checked (val : UInt32) :
    (strToUintLoop str val).map UInt32.toNat = checkedLoop (2 ^ 32) str val.toNat := by
  refine loop_checked (2 ^ 32) str UInt32.toNat strToUintLoop (fun val => val * 10)
    (fun byte val => val * 10 + (byte - 48).toUInt32) (fun val => val * 10 / 10 ≠ val)
    (fun byte val => val * 10 + (byte - 48).toUInt32 < val * 10) (fun _ => rfl)
    (fun _ _ _ => rfl) (fun val => UInt32.toNat_mul val 10) (fun val => ?_) ?_
    (fun _ _ => UInt32.lt_iff_toNat_lt) val
  · rw [ne_eq, ← UInt32.toNat_inj, UInt32.toNat_div]
    rfl
  · intro byte val numeral
    obtain ⟨low, _, _⟩ := digit_byte byte numeral
    have digit : (byte - 48).toUInt32.toNat = byte.toNat - 48 := by
      rw [UInt8.toNat_toUInt32, UInt8.toNat_sub_of_le byte 48 (UInt8.le_iff_toNat_le.mpr low)]
      rfl
    rw [UInt32.toNat_add, digit]

theorem ushort_loop_checked (val : UInt16) :
    (strToUshortLoop str val).map UInt16.toNat = checkedLoop (2 ^ 16) str val.toNat := by
  refine loop_checked (2 ^ 16) str UInt16.toNat strToUshortLoop (fun val => val * 10)
    (fun byte val => val * 10 + (byte - 48).toUInt16) (fun val => val * 10 / 10 ≠ val)
    (fun byte val => val * 10 + (byte - 48).toUInt16 < val * 10) (fun _ => rfl)
    (fun _ _ _ => rfl) (fun val => UInt16.toNat_mul val 10) (fun val => ?_) ?_
    (fun _ _ => UInt16.lt_iff_toNat_lt) val
  · rw [ne_eq, ← UInt16.toNat_inj, UInt16.toNat_div]
    rfl
  · intro byte val numeral
    obtain ⟨low, _, _⟩ := digit_byte byte numeral
    have digit : (byte - 48).toUInt16.toNat = byte.toNat - 48 := by
      rw [UInt8.toNat_toUInt16, UInt8.toNat_sub_of_le byte 48 (UInt8.le_iff_toNat_le.mpr low)]
      rfl
    rw [UInt16.toNat_add, digit]

/-! Both tests catch every overflow and nothing else. -/

theorem product_test (small : val < modulus) :
    val * 10 % modulus / 10 = val ↔ val * 10 < modulus := by
  constructor
  · intro same
    by_contra large
    have split := div_add_mod (val * 10) modulus
    have positive : 0 < val * 10 / modulus := div_pos (by omega) (by omega)
    have lost := mul_le_mul_left modulus positive
    omega
  · intro fits
    rw [mod_eq_of_lt fits]
    omega

theorem sum_test (digit : Nat) (small : val < modulus) (bound : digit < modulus) :
    (val + digit) % modulus < val ↔ modulus ≤ val + digit := by
  constructor
  · intro wrapped
    by_contra fits
    rw [mod_eq_of_lt (by omega)] at wrapped
    omega
  · intro large
    rw [mod_eq_sub_mod large, mod_eq_of_lt (by omega)]
    omega

def extended (val : Nat) (field : Text) : Nat :=
  field.foldl (fun value byte => 10 * value + digitValue byte) val

theorem extended_grows (field : Text) : val ≤ extended val field := by
  induction field generalizing val with
  | nil => exact le_refl val
  | cons byte rest ih =>
    have step := ih (10 * val + digitValue byte)
    rw [extended, foldl_cons]
    rw [extended] at step
    omega

theorem checked_loop_exact (large : 10 ≤ modulus) (field : Text) (val result : Nat)
    (small : val < modulus) : checkedLoop modulus field val = some result ↔
      (∀ byte ∈ field, isdigit byte = true) ∧ result = extended val field ∧ result < modulus := by
  induction field generalizing val with
  | nil =>
    rw [checkedLoop, Option.some.injEq]
    constructor
    · rintro rfl
      exact ⟨fun _ member => absurd member not_mem_nil, rfl, small⟩
    · exact fun same => same.2.1.symm
  | cons byte rest ih =>
    have test := product_test modulus val small
    rw [checkedLoop]
    by_cases numeral : isdigit byte = true
    · obtain ⟨low, high, digit⟩ := digit_byte byte numeral
      have grows := extended_grows (10 * val + digitValue byte) rest
      have unfolded : extended val (byte :: rest) = extended (10 * val + digitValue byte) rest :=
        rfl
      rw [unfolded]
      by_cases fits : val * 10 < modulus
      · rw [if_neg (not_not.mpr (test.mpr fits)), if_pos numeral, mod_eq_of_lt fits]
        have sum := sum_test modulus (val * 10) (byte.toNat - 48) fits (by omega)
        by_cases wraps : modulus ≤ val * 10 + (byte.toNat - 48)
        · rw [if_pos (sum.mpr wraps)]
          constructor
          · intro impossible
            cases impossible
          · rintro ⟨_, same, bound⟩
            omega
        · have next : (val * 10 + (byte.toNat - 48)) % modulus = 10 * val + digitValue byte := by
            rw [mod_eq_of_lt (by omega), digit]
            omega
          rw [if_neg (fun less => wraps (sum.mp less)), next, ih _ (by omega)]
          simp only [forall_mem_cons, numeral, true_and]
      · rw [if_pos (fun same => fits (test.mp same))]
        constructor
        · intro impossible
          cases impossible
        · rintro ⟨_, same, bound⟩
          omega
    · constructor
      · intro impossible
        split at impossible <;> cases impossible
      · rintro ⟨allDigits, _⟩
        exact absurd (allDigits byte mem_cons_self) numeral

/-! The string in front of the digits. -/

def skipSign : Text → Text
  | 43 :: rest => rest
  | rest => rest

def field (str : Text) : Text := skipSign (str.dropWhile fun byte => byte = 32 || byte = 9)

theorem skip_sign_other (rest : Text) (other : ∀ tail, rest ≠ 43 :: tail) :
    skipSign rest = rest := by
  rw [skipSign]
  intro tail plus
  exact other tail plus

theorem str_to_uint_field : strToUint str = strToUintLoop (field str) 0 := by
  rw [strToUint, field]
  split
  · next plus => rw [plus, skipSign]
  · next other => rw [skip_sign_other _ other]

theorem str_to_ushort_field : strToUshort str = strToUshortLoop (field str) 0 := by
  rw [strToUshort, field]
  split
  · next plus => rw [plus, skipSign]
  · next other => rw [skip_sign_other _ other]

theorem field_split (blanks sign digits : Text) (blank : ∀ byte ∈ blanks, byte = 32 ∨ byte = 9)
    (plus : sign = [] ∨ sign = [43]) (numerals : ∀ byte ∈ digits, isdigit byte = true) :
    field (blanks ++ sign ++ digits) = digits := by
  have skipped : ∀ byte ∈ blanks, (decide (byte = 32) || decide (byte = 9)) = true := by
    intro byte member
    simpa using blank byte member
  rw [field, append_assoc, dropWhile_append_of_pos skipped]
  rcases plus with rfl | rfl
  · rw [nil_append]
    cases digits with
    | nil => rfl
    | cons first rest =>
      obtain ⟨low, high, _⟩ := digit_byte first (numerals first mem_cons_self)
      have notBlank : ¬ ((decide (first = 32) || decide (first = 9)) = true) := by
        simp only [Bool.or_eq_true, decide_eq_true_eq]
        rintro (rfl | rfl)
        · exact absurd low (by decide)
        · exact absurd low (by decide)
      rw [dropWhile_cons_of_neg (p := fun byte => decide (byte = 32) || decide (byte = 9))
        notBlank, skip_sign_other]
      intro tail plus
      rw [List.cons.injEq] at plus
      rw [plus.1] at low
      exact absurd low (by decide)
  · rfl

theorem field_shape : ∃ blanks sign, str = blanks ++ sign ++ field str ∧ (∀ byte ∈ blanks, byte = 32
    ∨ byte = 9) ∧ (sign = [] ∨ sign = [43]) := by
  have whole := takeWhile_append_dropWhile
    (p := fun byte : UInt8 => decide (byte = 32) || decide (byte = 9)) (l := str)
  have blank : ∀ byte ∈ str.takeWhile fun byte => byte = 32 || byte = 9, byte = 32 ∨ byte = 9 := by
    intro byte member
    simpa using mem_takeWhile_imp member
  rw [field]
  by_cases plus : ∃ tail, (str.dropWhile fun byte => byte = 32 || byte = 9) = 43 :: tail
  · obtain ⟨tail, found⟩ := plus
    refine ⟨_, [43], ?_, blank, Or.inr rfl⟩
    rw [found, skipSign, append_assoc, singleton_append, ← found, whole]
  · rw [skip_sign_other _ (fun tail found => plus ⟨tail, found⟩)]
    exact ⟨_, [], by rw [append_nil, whole], blank, Or.inl rfl⟩

theorem numeral_iff (large : 10 ≤ modulus) (str : Text) (value : Nat) :
    checkedLoop modulus (field str) 0 = some value ↔ Numeral modulus str value := by
  rw [checked_loop_exact modulus large (field str) 0 value (by omega)]
  constructor
  · rintro ⟨numerals, same, bound⟩
    obtain ⟨blanks, sign, shape, blank, plus⟩ := field_shape str
    exact ⟨blanks, sign, field str, shape, blank, plus, numerals, same, bound⟩
  · rintro ⟨blanks, sign, digits, rfl, blank, plus, numerals, same, bound⟩
    rw [field_split blanks sign digits blank plus numerals]
    exact ⟨numerals, same, bound⟩

theorem reads_numerals {Value : Type} (large : 10 ≤ modulus) (toNat : Value → Nat)
    (call : Text → Value → Int × Value) (parse : Text → Option Value)
    (checked : ∀ str, (parse str).map toNat = checkedLoop modulus (field str) 0)
    (found : ∀ str num val, parse str = some val → call str num = (0, val))
    (missing : ∀ str num, parse str = none → call str num = (-1, num)) :
    ReadsNumerals modulus toNat call := by
  have stored : ∀ str value, Numeral modulus str value → ∃ val, parse str = some val ∧
      toNat val = value := by
    intro str value numeral
    have accepted := (numeral_iff modulus large str value).mpr numeral
    rw [← checked] at accepted
    exact map_eq_some_iff.mp accepted
  have refused : ∀ str, (¬∃ value, Numeral modulus str value) → parse str = none := by
    intro str none_fits
    cases result : parse str with
    | none => rfl
    | some val =>
      have accepted := checked str
      rw [result, map_some] at accepted
      exact absurd ⟨_, (numeral_iff modulus large str _).mp accepted.symm⟩ none_fits
  constructor
  · intro str num
    by_cases numeral : ∃ value, Numeral modulus str value
    · obtain ⟨value, reads⟩ := numeral
      obtain ⟨val, parsed, _⟩ := stored str value reads
      rw [found str num val parsed]
      exact ⟨fun _ => ⟨value, reads⟩, fun _ => rfl⟩
    · rw [missing str num (refused str numeral)]
      exact ⟨fun code => absurd code (by simp), fun reads => absurd reads numeral⟩
  · intro str num value numeral
    obtain ⟨val, parsed, same⟩ := stored str value numeral
    rw [found str num val parsed, same]
  · intro str num none_fits
    exact missing str num (refused str none_fits)

/-- Both functions accept exactly the numerals that fit their type, store the value of one and
leave the variable alone otherwise. -/
theorem numerals_read_exactly :
    ReadsNumerals (2 ^ 32) UInt32.toNat strToUintInto ∧
      ReadsNumerals (2 ^ 16) UInt16.toNat strToUshortInto := by
  constructor
  · apply reads_numerals (2 ^ 32) (by decide) UInt32.toNat strToUintInto strToUint
    · intro str
      rw [str_to_uint_field]
      exact uint_loop_checked (field str) 0
    · intro str num val parsed
      rw [strToUintInto, parsed]
    · intro str num refused
      rw [strToUintInto, refused]
  · apply reads_numerals (2 ^ 16) (by decide) UInt16.toNat strToUshortInto strToUshort
    · intro str
      rw [str_to_ushort_field]
      exact ushort_loop_checked (field str) 0
    · intro str num val parsed
      rw [strToUshortInto, parsed]
    · intro str num refused
      rw [strToUshortInto, refused]

-- The largest number that fits, and one more.
example : strToUshortInto (text " \t+65535") 7 = (0, 65535) ∧
    strToUshortInto (text "65536") 7 = (-1, 7) := by decide +kernel

end Pvpgn.StrToNum
