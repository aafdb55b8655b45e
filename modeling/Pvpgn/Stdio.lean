import Mathlib.Data.List.Basic
import Mathlib.Data.List.TakeWhile
import Mathlib.Data.Nat.Digits.Defs
import Mathlib.Tactic.IntervalCases

/-!
Formatted output and input of the C standard library on byte strings: the conversions of `printf`
with their field widths, and `scanf` as a list of directives that consume a prefix of the input.
A conversion whose value does not fit its target is undefined in C and fails here.
-/

namespace Pvpgn.Stdio
open Nat UInt32
open List hiding count

abbrev Text := List UInt8

/-- The bytes of an ASCII literal. -/
def text (literal : String) : Text := literal.toList.map Char.toUInt8

/-- The string a `char const *` to these bytes denotes. -/
def cstring (bytes : Text) : Text := bytes.takeWhile (· ≠ 0)

/-- The bytes up to a newline, at most `count`, and the rest of the file. -/
def takeLine : Nat → Text → Text × Text
  | 0, file => ([], file)
  | _ + 1, [] => ([], [])
  | count + 1, byte :: rest =>
    if byte = 10 then ([byte], rest)
    else (byte :: (takeLine count rest).1, (takeLine count rest).2)

/-- `fgets` into a buffer of `size` bytes. -/
def fgets (size : Nat) (file : Text) : Option (Text × Text) :=
  if file = [] then none else some (takeLine (size - 1) file)

def isspace (byte : UInt8) : Bool := byte = 32 || (9 ≤ byte && byte ≤ 13)

/-- `isprint` in the C locale. -/
def isprint (byte : UInt8) : Bool := 32 ≤ byte && byte ≤ 126

def isupper (byte : UInt8) : Bool := 65 ≤ byte && byte ≤ 90

def tolower (byte : UInt8) : UInt8 := if isupper byte then byte + 32 else byte

def isdigit (byte : UInt8) : Bool := 48 ≤ byte && byte ≤ 57

/-- `strcasecmp` and `strncasecmp` on strings of that length find no difference. -/
def sameCaseless (left right : Text) : Bool := left.map tolower = right.map tolower

def digit (value : Nat) : UInt8 := (digitChar value).toUInt8

/-- `%u`, `%o` and `%x` print the digits of a number without leading zeros. -/
def digits (base value : Nat) : Text := (toDigits base value).map Char.toUInt8

/-- A field width with the `0` flag. -/
def zeroPadded (width : Nat) (field : Text) : Text := replicate (width - field.length) 48 ++ field

def unsigned (value : Nat) : Text := digits 10 value

/-- `%d` and `%i`. -/
def signed : Int → Text
  | .ofNat value => digits 10 value
  | .negSucc value => 45 :: digits 10 (value + 1)

/-- The value of a digit, 16 for a byte that is none. -/
def digitValue (byte : UInt8) : Nat :=
  if 48 ≤ byte ∧ byte ≤ 57 then byte.toNat - 48
  else if 97 ≤ byte ∧ byte ≤ 102 then byte.toNat - 87
  else if 65 ≤ byte ∧ byte ≤ 70 then byte.toNat - 55
  else 16

def isDigit (base : Nat) (byte : UInt8) : Bool := digitValue byte < base

def fromDigits (base : Nat) (field : Text) : Nat :=
  field.foldl (fun value byte => base * value + digitValue byte) 0

/-- The longest run of digits and what follows it. -/
def number (base : Nat) (input : Text) : Option (Nat × Text) :=
  if input.takeWhile (isDigit base) = [] then none
  else some (fromDigits base (input.takeWhile (isDigit base)), input.dropWhile (isDigit base))

/-- With base 0 the prefix chooses the base, as for `%i`. -/
def magnitude (base : Nat) (input : Text) : Option (Nat × Text) :=
  if base ≠ 0 then number base input
  else match input with
    | 48 :: 120 :: rest => number 16 rest
    | 48 :: 88 :: rest => number 16 rest
    | 48 :: rest => number 8 (48 :: rest)
    | other => number 10 other

/-- The magnitude `strtoul` reads in base 16, after an optional `0x`; 0 without digits. -/
def hexMagnitude (input : Text) : Nat :=
  let found := match input with
    | 48 :: 120 :: rest => (number 16 rest).or (number 16 input)
    | 48 :: 88 :: rest => (number 16 rest).or (number 16 input)
    | other => number 16 other
  (found.map Prod.fst).getD 0

/-- `(unsigned int) strtoul(input, NULL, 16)` -/
def strtoul16 (input : Text) : UInt32 :=
  match input.dropWhile isspace with
  | 45 :: rest => 0 - ofNat (hexMagnitude rest)
  | 43 :: rest => ofNat (hexMagnitude rest)
  | other => ofNat (hexMagnitude other)

def integer (base : Nat) (input : Text) : Option (Int × Text) :=
  match input.dropWhile isspace with
  | 45 :: rest => (magnitude base rest).map fun found => (-(found.1 : Int), found.2)
  | 43 :: rest => (magnitude base rest).map fun found => ((found.1 : Int), found.2)
  | other => (magnitude base other).map fun found => ((found.1 : Int), found.2)

inductive Conversion where
  /-- `%[...]` -/
  | scanset (accepts : UInt8 → Bool)
  /-- `%4s` -/
  | word (width : Nat)
  /-- `%c` -/
  | char
  /-- `%u` into an `unsigned int` -/
  | unsigned
  /-- `%d` (base 10) and `%i` (base 0) into an `int` -/
  | signed (base : Nat)

inductive Directive where
  | literal (byte : UInt8)
  | white
  | conversion (kind : Conversion)

inductive Argument where
  | string (bytes : Text)
  | char (byte : UInt8)
  | unsigned (value : UInt32)
  | signed (value : Int)
  deriving DecidableEq

def convert (kind : Conversion) (input : Text) : Option (Argument × Text) :=
  match kind with
  | .scanset accepts =>
    if input.takeWhile accepts = [] then none
    else some (.string (input.takeWhile accepts), input.dropWhile accepts)
  | .word width =>
    let start := input.dropWhile isspace
    let field := (start.take width).takeWhile fun byte => !isspace byte
    if field = [] then none else some (.string field, start.drop field.length)
  | .char =>
    match input with
    | byte :: rest => some (.char byte, rest)
    | [] => none
  | .unsigned =>
    match integer 10 input with
    | some (value, rest) =>
      if 0 ≤ value ∧ value < 2 ^ 32 then some (.unsigned (ofNat value.toNat), rest)
      else none
    | none => none
  | .signed base =>
    match integer base input with
    | some (value, rest) =>
      if -2 ^ 31 ≤ value ∧ value < 2 ^ 31 then some (.signed value, rest) else none
    | none => none

/-- The assigned arguments and the input left after the last directive that matched. -/
def scan : List Directive → Text → List Argument × Text
  | [], input => ([], input)
  | .literal byte :: rest, input =>
    match input with
    | next :: tail => if next = byte then scan rest tail else ([], input)
    | [] => ([], input)
  | .white :: rest, input => scan rest (input.dropWhile isspace)
  | .conversion kind :: rest, input =>
    match convert kind input with
    | some (value, tail) => (value :: (scan rest tail).1, (scan rest tail).2)
    | none => ([], input)

def sscanf (input : Text) (format : List Directive) : List Argument := (scan format input).1

variable (base : Nat) (accepts : UInt8 → Bool) (byte : UInt8) (value : Nat)
  (format : List Directive) (field : Text)

theorem digit_value (small : value < 16) : digitValue (digit value) = value := by
  interval_cases value <;> rfl

theorem digits_small (small : value < base) : digits base value = [digit value] := by
  simp [digits, toDigits_of_lt_base small, digit]

theorem digits_step (large : 1 < base) (big : base ≤ value) :
    digits base value = digits base (value / base) ++ [digit (value % base)] := by
  simp [digits, toDigits_of_base_le large big, digit]

theorem digits_ne_nil : digits base value ≠ [] := by
  simp [digits]

variable (count width : Nat)

theorem digits_length_le (large : 1 < base) (positive : 0 < width) (bound : value < base ^ width) :
    (digits base value).length ≤ width := by
  rw [digits, length_map]
  exact (length_toDigits_le_iff large positive).mpr bound

theorem from_digits_append (byte : UInt8) :
    fromDigits base (field ++ [byte]) = base * fromDigits base field + digitValue byte := by
  simp [fromDigits]

theorem range_not_white (least : 48 ≤ byte) : isspace byte = false := by
  have bound : 48 ≤ byte.toNat := UInt8.le_iff_toNat_le.mp least
  have high : (13 : UInt8).toNat = 13 := rfl
  simp only [isspace, UInt8.le_iff_toNat_le, Bool.or_eq_false_iff, Bool.and_eq_false_iff,
    decide_eq_false_iff_not]
  refine ⟨by rintro rfl; exact absurd least (by decide), Or.inr (by omega)⟩

theorem digit_not_white (numeral : isDigit 16 byte = true) : isspace byte = false := by
  apply range_not_white
  have value : digitValue byte < 16 := of_decide_eq_true numeral
  rw [digitValue] at value
  split at value
  · next decimal => exact decimal.1
  split at value
  · next lower => exact UInt8.le_trans (by decide) lower.1
  · split at value
    · next upper => exact UInt8.le_trans (by decide) upper.1
    · omega

theorem digit_range (numeral : isDigit 10 byte = true) : 48 ≤ byte ∧ byte ≤ 57 := by
  have value : digitValue byte < 10 := of_decide_eq_true numeral
  rw [digitValue] at value
  split at value
  · next decimal => exact decimal
  split at value
  · next lower =>
      have least : 97 ≤ byte.toNat := UInt8.le_iff_toNat_le.mp lower.1
      omega
  split at value
  · next upper =>
      have least : 65 ≤ byte.toNat := UInt8.le_iff_toNat_le.mp upper.1
      omega
  · omega

/-- A base that `printf` and `scanf` know. -/
structure Base (base : Nat) : Prop where
  large : 1 < base
  small : base ≤ 16

theorem base_ten : Base 10 := ⟨by omega, by omega⟩

theorem from_digits_digits {base : Nat} (known : Base base) (value : Nat) :
    fromDigits base (digits base value) = value := by
  induction value using Nat.strong_induction_on with
  | _ value ih =>
    have large := known.large
    have small := known.small
    by_cases single : value < base
    · rw [digits_small base value single]
      simp [fromDigits, digit_value value (by omega)]
    have remainder := mod_lt value (by omega : base > 0)
    have smaller : value / base < value := div_lt_self (by omega) large
    rw [digits_step base value large (by omega), from_digits_append, ih _ smaller,
      digit_value _ (by omega), div_add_mod]

theorem is_digit_digits {base : Nat} (known : Base base) (value : Nat) :
    ∀ byte ∈ digits base value, isDigit base byte = true := by
  induction value using Nat.strong_induction_on with
  | _ value ih =>
    have large := known.large
    have small := known.small
    by_cases single : value < base
    · rw [digits_small base value single]
      simp [isDigit, digit_value value (by omega), single]
    have remainder := mod_lt value (by omega : base > 0)
    have smaller : value / base < value := div_lt_self (by omega) large
    rw [digits_step base value large (by omega)]
    intro byte member
    rcases mem_append.mp member with early | last
    · exact ih _ smaller byte early
    · rw [mem_singleton.mp last, isDigit, digit_value _ (by omega)]
      simpa using remainder

theorem take_line_short (content rest : Text) (count : Nat) (fits : content.length < count)
    (oneLine : 10 ∉ content) :
    takeLine count (content ++ 10 :: rest) = (content ++ [10], rest) := by
  induction content generalizing count with
  | nil =>
    cases count with
    | zero => simp at fits
    | succ count => simp [takeLine]
  | cons byte tail ih =>
    cases count with
    | zero => simp at fits
    | succ count =>
      have different : byte ≠ 10 := fun same => oneLine (by simp [same])
      have tailLine : 10 ∉ tail := fun member => oneLine (by simp [member])
      simp only [length_cons] at fits
      simp [takeLine, different, ih count (by omega) tailLine]

theorem take_line_newline (file before after : Text)
    (shape : (takeLine count file).1 = before ++ after) (nonempty : after ≠ []) : 10 ∉ before := by
  induction count generalizing file before with
  | zero =>
    have empty : before = [] ∧ after = [] := by
      simpa [takeLine, eq_comm] using shape
    exact absurd empty.2 nonempty
  | succ count ih =>
    cases file with
    | nil =>
      have empty : before = [] ∧ after = [] := by
        simpa [takeLine, eq_comm] using shape
      exact absurd empty.2 nonempty
    | cons byte rest =>
      cases before with
      | nil => simp
      | cons first tail =>
        by_cases ends : byte = 10
        · simp only [takeLine, ends, if_true, cons_append, cons.injEq] at shape
          have empty := append_eq_nil_iff.mp shape.2.symm
          exact absurd empty.2 nonempty
        · simp only [takeLine, ends, if_false, cons_append, cons.injEq] at shape
          rw [mem_cons, not_or]
          exact ⟨by rw [← shape.1]; exact fun same => ends same.symm, ih rest tail shape.2⟩

theorem fgets_line (size : Nat) (content rest : Text) (fits : content.length + 1 < size)
    (oneLine : 10 ∉ content) :
    fgets size (content ++ 10 :: rest) = some (content ++ [10], rest) := by
  rw [fgets, if_neg (by simp), take_line_short content rest (size - 1) (by omega) oneLine]

/-- The input does not go on with another digit. -/
def Stops (accepts : UInt8 → Bool) (input : Text) : Prop :=
  ∀ byte ∈ input.head?, accepts byte = false

theorem stops_nil : Stops accepts [] := by
  simp [Stops]

variable (rest : Text)

theorem stops_cons : Stops accepts (byte :: rest) ↔ accepts byte = false := by
  simp [Stops]

section
variable (accepted : ∀ byte ∈ field, accepts byte = true) (stops : Stops accepts rest)
include accepted stops

theorem take_run :
    (field ++ rest).takeWhile accepts = field := by
  induction field with
  | nil =>
    cases rest with
    | nil => rfl
    | cons byte tail => simp [(stops_cons accepts byte tail).mp stops]
  | cons byte field ih =>
    have head := accepted byte (by simp)
    simp [head, ih fun other member => accepted other (by simp [member])]

theorem drop_run :
    (field ++ rest).dropWhile accepts = rest := by
  have whole := takeWhile_append_dropWhile (p := accepts) (l := field ++ rest)
  rw [take_run accepts field rest accepted stops] at whole
  exact append_cancel_left whole

end

theorem number_digits {base : Nat} (known : Base base) (value : Nat) (rest : Text)
    (stops : Stops (isDigit base) rest) :
    number base (digits base value ++ rest) = some (value, rest) := by
  have accepted := is_digit_digits known value
  rw [number, take_run _ _ _ accepted stops, drop_run _ _ _ accepted stops,
    if_neg (digits_ne_nil base value), from_digits_digits known]

/-- The bytes that could continue a number in some base. -/
def isNumeral (byte : UInt8) : Bool := isDigit 16 byte || byte = 120 || byte = 88

/-- What follows a number does not run on with it. -/
def Separated (rest : Text) : Prop := Stops isNumeral rest

theorem separated_nil : Separated [] := stops_nil isNumeral

theorem separated_cons :
    Separated (byte :: rest) ↔ isNumeral byte = false := stops_cons isNumeral byte rest

theorem comma_separated : Separated (44 :: rest) := (separated_cons 44 rest).mpr (by decide)

theorem stops_digit {base : Nat} (small : base ≤ 16) {rest : Text} (separated : Separated rest) :
    Stops (isDigit base) rest := by
  intro byte member
  have plain := separated byte member
  simp only [isNumeral, isDigit, Bool.or_eq_false_iff, decide_eq_false_iff_not] at plain ⊢
  omega

theorem digits_head (positive : 0 < value) :
    ∃ byte rest, digits 10 value = byte :: rest ∧ 49 ≤ byte ∧ byte ≤ 57 := by
  induction value using Nat.strong_induction_on with
  | _ value ih =>
    by_cases single : value < 10
    · refine ⟨digit value, [], digits_small 10 value single, ?_⟩
      interval_cases value <;> decide
    · obtain ⟨byte, rest, shape, bounds⟩ := ih (value / 10) (by omega) (by omega)
      exact ⟨byte, rest ++ [digit (value % 10)],
        by rw [digits_step 10 value (by omega) (by omega), shape, cons_append], bounds⟩

theorem digits_zero : digits base 0 = [48] := by
  rw [digits, toDigits_zero]
  rfl

/-- A decimal numeral without a sign is read alike with base 10 and with the base left open: only
a zero starts with a `0`. -/
theorem magnitude_digits (base10 : base = 0 ∨ base = 10) (separated : Separated rest) :
    magnitude base (digits 10 value ++ rest) = some (value, rest) := by
  have decimal := number_digits base_ten value rest (stops_digit (by omega) separated)
  rcases base10 with automatic | fixed
  · subst automatic
    by_cases zero : value = 0
    · subst zero
      have octal : number 8 (48 :: rest) = some (0, rest) := by
        have known : Base 8 := ⟨by omega, by omega⟩
        simpa [digits_zero] using number_digits known 0 rest (stops_digit (by omega) separated)
      rw [digits_zero]
      cases rest with
      | nil => simpa [magnitude] using octal
      | cons byte tail =>
        have plain := (separated_cons byte tail).mp separated
        have lower : byte ≠ 120 := by rintro rfl; simp [isNumeral] at plain
        have upper : byte ≠ 88 := by rintro rfl; simp [isNumeral] at plain
        simpa [magnitude, lower, upper] using octal
    · obtain ⟨byte, tail, shape, least, most⟩ := digits_head value (by omega)
      have nonzero : byte ≠ 48 := by rintro rfl; exact absurd least (by decide)
      rw [shape, cons_append] at decimal ⊢
      simpa [magnitude, nonzero] using decimal
  · subst fixed
    simpa [magnitude] using decimal

theorem digits_unsigned_head :
    ∃ byte rest, digits 10 value = byte :: rest ∧ 48 ≤ byte ∧ byte ≤ 57 := by
  by_cases zero : value = 0
  · exact ⟨48, [], by rw [zero, digits_zero], by decide, by decide⟩
  · obtain ⟨byte, rest, shape, least, most⟩ := digits_head value (by omega)
    exact ⟨byte, rest, shape, UInt8.le_trans (by decide) least, most⟩

theorem integer_digits (base10 : base = 0 ∨ base = 10) (separated : Separated rest) :
    integer base (digits 10 value ++ rest) = some ((value : Int), rest) := by
  have read := magnitude_digits base value rest base10 separated
  obtain ⟨byte, tail, shape, least, most⟩ := digits_unsigned_head value
  rw [shape, cons_append] at read ⊢
  have black : isspace byte = false := by
    have digit := is_digit_digits base_ten value byte (by simp [shape])
    apply digit_not_white
    simp only [isDigit, decide_eq_true_eq] at digit ⊢
    omega
  have minus : byte ≠ 45 := by rintro rfl; exact absurd least (by decide)
  have plus : byte ≠ 43 := by rintro rfl; exact absurd least (by decide)
  simp [integer, black, minus, plus, read]

theorem integer_signed (value : Int) (rest : Text) (base10 : base = 0 ∨ base = 10)
    (separated : Separated rest) : integer base (signed value ++ rest) = some (value, rest) := by
  cases value with
  | ofNat value => exact integer_digits base value rest base10 separated
  | negSucc value =>
    have read := magnitude_digits base (value + 1) rest base10 separated
    have black : isspace 45 = false := by decide
    simp [signed, integer, black, read, Int.negSucc_eq]

theorem convert_unsigned (fits : value < 2 ^ 32) (separated : Separated rest) :
    convert .unsigned (unsigned value ++ rest) = some (.unsigned (ofNat value), rest) := by
  have bound : 0 ≤ (value : Int) ∧ (value : Int) < 2 ^ 32 := ⟨by omega, by exact_mod_cast fits⟩
  simp only [convert, unsigned, integer_digits 10 value rest (Or.inr rfl) separated]
  rw [if_pos bound, Int.toNat_natCast]

theorem convert_signed (value : Int) (rest : Text) (base10 : base = 0 ∨ base = 10)
    (least : -2 ^ 31 ≤ value) (most : value < 2 ^ 31) (separated : Separated rest) :
    convert (.signed base) (signed value ++ rest) = some (.signed value, rest) := by
  simp only [convert, integer_signed base value rest base10 separated]
  rw [if_pos ⟨least, most⟩]

theorem convert_scanset (nonempty : field ≠ []) (accepted : ∀ byte ∈ field, accepts byte = true)
    (stops : Stops accepts rest) :
    convert (.scanset accepts) (field ++ rest) = some (.string field, rest) := by
  simp [convert, take_run _ _ _ accepted stops, drop_run _ _ _ accepted stops, nonempty]

@[simp] theorem scan_nil (input : Text) : scan [] input = ([], input) := rfl

@[simp] theorem scan_literal :
    scan (.literal byte :: format) (byte :: rest) = scan format rest := by
  simp [scan]

theorem scan_literal_ne (next : UInt8) (format : List Directive) (rest : Text)
    (different : next ≠ byte) :
    scan (.literal byte :: format) (next :: rest) = ([], next :: rest) := by
  simp [scan, different]

theorem scan_white (black : Stops isspace rest) :
    scan (.white :: format) rest = scan format rest := by
  have unchanged := drop_run isspace [] rest (by simp) black
  rw [nil_append] at unchanged
  rw [scan, unchanged]

example : sscanf (text "7, -2;")
    [.conversion .unsigned, .literal 44, .white, .conversion (.signed 10)] =
    [.unsigned 7, .signed (-2)] := by decide +kernel

variable {input : Text} {kind : Conversion}

theorem scan_conversion {tail : Text} {value : Argument}
    (converted : convert kind input = some (value, tail)) :
    scan (.conversion kind :: format) input =
      (value :: (scan format tail).1, (scan format tail).2) := by
  simp [scan, converted]

theorem scan_unsigned (value : UInt32) (format : List Directive) (rest : Text)
    (separated : Separated rest) :
    scan (.conversion .unsigned :: format) (unsigned value.toNat ++ rest) =
      (.unsigned value :: (scan format rest).1, (scan format rest).2) := by
  have converted := convert_unsigned value.toNat rest value.toNat_lt separated
  rw [UInt32.ofNat_toNat] at converted
  exact scan_conversion format converted

theorem scan_signed (value : Int) (format : List Directive) (rest : Text)
    (base10 : base = 0 ∨ base = 10) (least : -2 ^ 31 ≤ value) (most : value < 2 ^ 31)
    (separated : Separated rest) :
    scan (.conversion (.signed base) :: format) (signed value ++ rest) =
      (.signed value :: (scan format rest).1, (scan format rest).2) :=
  scan_conversion format (convert_signed base value rest base10 least most separated)

theorem scan_char :
    scan (.conversion .char :: format) (byte :: rest) =
      (.char byte :: (scan format rest).1, (scan format rest).2) :=
  scan_conversion format rfl

theorem scan_word (field : Text) (format : List Directive) (rest : Text)
    (full : field.length = width) (nonempty : field ≠ [])
    (black : ∀ byte ∈ field, isspace byte = false) :
    scan (.conversion (.word width) :: format) (field ++ rest) =
      (.string field :: (scan format rest).1, (scan format rest).2) := by
  have start : (field ++ rest).dropWhile isspace = field ++ rest := by
    cases field with
    | nil => exact absurd rfl nonempty
    | cons byte tail => simp [black byte (by simp)]
  have whole : field.takeWhile (fun byte => !isspace byte) = field := by
    rw [takeWhile_eq_self_iff]
    intro byte member
    simp [black byte member]
  have converted : convert (.word width) (field ++ rest) = some (.string field, rest) := by
    simp only [convert, start, ← full, take_left, whole, if_neg nonempty, drop_left]
  exact scan_conversion format converted

theorem scan_failed (failed : convert kind input = none) :
    scan (.conversion kind :: format) input = ([], input) := by
  simp [scan, failed]

theorem from_digits_zeros (field : Text) :
    fromDigits base (replicate count 48 ++ field) = fromDigits base field := by
  have zero : digitValue 48 = 0 := by decide
  induction count with
  | zero => rfl
  | succ count ih =>
    rw [← ih, replicate_succ, cons_append]
    simp [fromDigits, zero]

/-- `%08x` of a 32-bit number. -/
def hex8 (value : UInt32) : Text := zeroPadded 8 (digits 16 value.toNat)

theorem hex8_length (value : UInt32) : (hex8 value).length = 8 := by
  have bound : value.toNat < 16 ^ 8 := value.toNat_lt
  have fits := digits_length_le 16 value.toNat 8 (by omega) (by omega) bound
  rw [hex8, zeroPadded, length_append, length_replicate]
  omega

theorem hex8_digits (value : UInt32) : ∀ byte ∈ hex8 value, isDigit 16 byte = true := by
  intro byte member
  rcases mem_append.mp member with padding | digit
  · rw [eq_of_mem_replicate padding]
    decide
  · exact is_digit_digits ⟨by omega, by omega⟩ value.toNat byte digit

theorem number_hex8 (value : UInt32) : number 16 (hex8 value) = some (value.toNat, []) := by
  have accepted := hex8_digits value
  have taken := take_run (isDigit 16) (hex8 value) [] accepted (stops_nil _)
  have dropped := drop_run (isDigit 16) (hex8 value) [] accepted (stops_nil _)
  have nonempty : hex8 value ≠ [] := by
    intro empty
    have length := hex8_length value
    simp [empty] at length
  rw [append_nil] at taken dropped
  rw [number, taken, dropped, if_neg nonempty, hex8, zeroPadded, from_digits_zeros,
    from_digits_digits ⟨by omega, by omega⟩]

theorem hex_magnitude_hex8 (value : UInt32) : hexMagnitude (hex8 value) = value.toNat := by
  have found := number_hex8 value
  have accepted := hex8_digits value
  have notPrefix (first second : UInt8) (rest : Text) (shape : hex8 value = first :: second :: rest) :
      second ≠ 120 ∧ second ≠ 88 := by
    have digit := accepted second (by simp [shape])
    refine ⟨?_, ?_⟩ <;> rintro rfl <;> exact absurd digit (by decide)
  unfold hexMagnitude
  split
  · next rest shape => exact absurd rfl (notPrefix 48 120 rest shape).1
  · next rest shape => exact absurd rfl (notPrefix 48 88 rest shape).2
  · next plain => simp [found]

theorem strtoul16_hex8 (value : UInt32) : strtoul16 (hex8 value) = value := by
  have magnitude := hex_magnitude_hex8 value
  have accepted := hex8_digits value
  have length := hex8_length value
  cases shape : hex8 value with
  | nil => simp [shape] at length
  | cons first rest =>
    have digit := accepted first (by simp [shape])
    have black := digit_not_white first digit
    have minus : first ≠ 45 := by rintro rfl; exact absurd digit (by decide)
    have plus : first ≠ 43 := by rintro rfl; exact absurd digit (by decide)
    rw [shape] at magnitude
    simp [strtoul16, black, minus, plus, magnitude]

theorem word_of_int (value : Int) : ((ofInt value).toNat : Int) = value % 2 ^ 32 := by
  have nonnegative : 0 ≤ value % 2 ^ 32 := Int.emod_nonneg _ (by decide)
  rw [ofInt, toNat_ofNat', mod_eq_of_lt (by omega)]
  exact Int.toNat_of_nonneg nonnegative

end Pvpgn.Stdio
