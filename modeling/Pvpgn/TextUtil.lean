import Pvpgn.Stdio

/-!
The string helpers of the common library that the file storage is built on: reading a logical line
of a text file, and the three ways a byte string is escaped.
-/

namespace Pvpgn.TextUtil
open Stdio List UInt8

abbrev quote : UInt8 := 34
abbrev backslash : UInt8 := 92
abbrev newline : UInt8 := 10
abbrev carriageReturn : UInt8 := 13

def notQuote (byte : UInt8) : Bool := byte ≠ quote

/-- The loop of `str_to_uint`; both checks for an overflow are made after it has happened. -/
def strToUintLoop : Text → UInt32 → Option UInt32
  | [], val => some val
  | byte :: rest, pval =>
    let val := pval * 10
    if val / 10 ≠ pval then none
    else if isdigit byte then
      let sum := val + (byte - 48).toUInt32
      if sum < val then none else strToUintLoop rest sum
    else none

def strToUint (str : Text) : Option UInt32 :=
  match str.dropWhile fun byte => byte = 32 || byte = 9 with
  | 43 :: rest => strToUintLoop rest 0 -- +
  | rest => strToUintLoop rest 0

/-- The loop of `file_get_line`: the bytes of the line so far, the byte before the current one, and
whether the end of the file stopped it. -/
def fileGetLineLoop : Text → Text → UInt8 → Text × Text × Bool
  | [], line, _ => (line, [], true)
  | curr :: rest, line, prev =>
    if curr = carriageReturn then fileGetLineLoop rest line prev
    else if curr = newline then
      if line = [] ∨ prev ≠ backslash then (line, rest, false)
      else fileGetLineLoop rest line.dropLast 0
    else fileGetLineLoop rest (line ++ [curr]) curr

/-- The next logical line as a C string and the rest of the file; `none` at its end. -/
def fileGetLine (file : Text) : Option (Text × Text) :=
  match fileGetLineLoop file [] 0 with
  | (line, rest, eof) => if eof ∧ line = [] then none else some (cstring line, rest)

/-- A loop that calls `file_get_line` until it returns `NULL`, with fuel. -/
def readLines : Nat → Text → List Text
  | 0, _ => []
  | fuel + 1, file =>
    match fileGetLine file with
    | none => []
    | some (line, rest) => line :: readLines fuel rest

/-- Every call that returns a line takes a byte, so the length of the file is fuel enough. -/
def fileLines (file : Text) : List Text := readLines (file.length + 1) file

/-- `sprintf("%02X")` of one byte. -/
def upperHex (byte : UInt8) : Text :=
  zeroPadded 2 ((Nat.toDigits 16 byte.toNat).map fun char => char.toUpper.toUInt8)

def isReserved (byte : UInt8) : Bool :=
  byte = 0 || byte = 37 || byte = 47 || byte = 92 || byte = 58 -- NUL % / \ :

def escapeFsChar (byte : UInt8) : Text :=
  if isReserved byte then 37 :: upperHex byte else [byte]

def escapeFsChars (input : Text) : Text := input.flatMap escapeFsChar

/-- `sprintf("%03o")` of one byte. -/
def octal (byte : UInt8) : Text := zeroPadded 3 (digits 8 byte.toNat)

def escapeChar (byte : UInt8) : Text :=
  if byte = backslash then [backslash, backslash]
  else if byte = quote then [backslash, quote]
  else if isprint byte then [byte]
  else if byte = 7 then [backslash, 97]    -- \a
  else if byte = 8 then [backslash, 98]    -- \b
  else if byte = 9 then [backslash, 116]   -- \t
  else if byte = 10 then [backslash, 110]  -- \n
  else if byte = 11 then [backslash, 118]  -- \v
  else if byte = 12 then [backslash, 102]  -- \f
  else if byte = 13 then [backslash, 114]  -- \r
  else backslash :: octal byte

def escapeChars (input : Text) : Text := input.flatMap escapeChar

/-- The escapes that `unescape_chars` reads as one letter. -/
def unescapeLetter (byte : UInt8) : Option UInt8 :=
  if byte = backslash then some backslash
  else if byte = quote then some quote
  else if byte = 97 then some 7
  else if byte = 98 then some 8
  else if byte = 116 then some 9
  else if byte = 110 then some 10
  else if byte = 118 then some 11
  else if byte = 102 then some 12
  else if byte = 114 then some 13
  else none

def isOctal (byte : UInt8) : Bool := 48 ≤ byte && byte ≤ 55

/-- A bad escape is left as it is: the backslash and the fewer than three octal digits after it, or
three that name no byte, are copied. -/
def unescapeChars : Text → Text
  | [] => []
  | curr :: rest =>
    if curr ≠ backslash then curr :: unescapeChars rest
    else match rest with
      | [] => [backslash]
      | first :: tail =>
        match unescapeLetter first with
        | some byte => byte :: unescapeChars tail
        | none =>
          if !isOctal first then backslash :: unescapeChars (first :: tail)
          else match tail with
            | [] => [backslash, first]
            | second :: tail =>
              if !isOctal second then
                backslash :: first :: unescapeChars (second :: tail)
              else match tail with
                | [] => [backslash, first, second]
                | third :: tail =>
                  if !isOctal third then
                    backslash :: first :: second :: unescapeChars (third :: tail)
                  else
                    let num := fromDigits 8 [first, second, third]
                    if num < 1 ∨ 255 < num then
                      backslash :: first :: second :: third :: unescapeChars tail
                    else ofNat num :: unescapeChars tail


theorem octal_readable : ∀ value < 256,
    (octal (ofNat value)).length = 3 ∧ (octal (ofNat value)).all isOctal = true ∧
      (octal (ofNat value)).head?.bind unescapeLetter = none ∧
      fromDigits 8 (octal (ofNat value)) = value := by
  decide +kernel

variable (byte : UInt8) (content input rest : Text)

theorem unescape_octal (nonzero : byte ≠ 0) :
    unescapeChars (backslash :: octal byte ++ rest) = byte :: unescapeChars rest := by
  obtain ⟨three, digits, letter, value⟩ := octal_readable byte.toNat byte.toNat_lt
  rw [UInt8.ofNat_toNat] at three digits letter value
  obtain ⟨first, second, third, shape⟩ := length_eq_three.mp three
  rw [shape] at digits letter value ⊢
  have noLetter : unescapeLetter first = none := letter
  have inRange : ¬(byte.toNat < 1 ∨ 255 < byte.toNat) := by
    have different : byte.toNat ≠ 0 := fun zero => nonzero (UInt8.toNat_inj.mp zero)
    have bound : byte.toNat < 256 := byte.toNat_lt
    omega
  simp only [all_cons, all_nil, Bool.and_true, Bool.and_eq_true] at digits
  obtain ⟨first_, second_, third_⟩ := digits
  simp only [cons_append, nil_append, unescapeChars, noLetter, first_, second_, third_, value]
  rw [if_neg inRange, UInt8.ofNat_toNat]
  rfl

theorem unescape_plain (plain : byte ≠ backslash) :
    unescapeChars (byte :: rest) = byte :: unescapeChars rest := by
  rw [unescapeChars.eq_def]
  simp [plain]

example : unescapeChars (text "a\\101\\\"") = text "aA\"" := by decide +kernel

theorem unescape_letter (letter byte : UInt8) (rest : Text)
    (known : unescapeLetter letter = some byte) :
    unescapeChars (backslash :: letter :: rest) = byte :: unescapeChars rest := by
  rw [unescapeChars.eq_def]
  simp [known]

theorem unescape_escape_char (nonzero : byte ≠ 0) :
    unescapeChars (escapeChar byte ++ rest) = byte :: unescapeChars rest := by
  by_cases isBackslash : byte = backslash
  · subst isBackslash
    exact unescape_letter backslash backslash rest rfl
  by_cases isQuote : byte = quote
  · subst isQuote
    exact unescape_letter quote quote rest rfl
  by_cases printable : isprint byte = true
  · simpa [escapeChar, isBackslash, isQuote, printable] using
      unescape_plain byte rest isBackslash
  by_cases alert : byte = 7
  · subst alert
    exact unescape_letter 97 7 rest rfl
  by_cases backspace : byte = 8
  · subst backspace
    exact unescape_letter 98 8 rest rfl
  by_cases tab : byte = 9
  · subst tab
    exact unescape_letter 116 9 rest rfl
  by_cases lineFeed : byte = 10
  · subst lineFeed
    exact unescape_letter 110 10 rest rfl
  by_cases vertical : byte = 11
  · subst vertical
    exact unescape_letter 118 11 rest rfl
  by_cases formFeed : byte = 12
  · subst formFeed
    exact unescape_letter 102 12 rest rfl
  by_cases carriage : byte = 13
  · subst carriage
    exact unescape_letter 114 13 rest rfl
  have numeric : escapeChar byte = backslash :: octal byte := by
    simp [escapeChar, isBackslash, isQuote, printable, alert, backspace, tab, lineFeed, vertical,
      formFeed, carriage]
  rw [numeric]
  exact unescape_octal byte rest nonzero

theorem unescape_escape_append (nulFree : 0 ∉ input) :
    unescapeChars (escapeChars input ++ rest) = input ++ unescapeChars rest := by
  induction input with
  | nil => rfl
  | cons byte tail ih =>
    have nonzero : byte ≠ 0 := fun zero => nulFree (by simp [zero])
    have tailFree : 0 ∉ tail := fun member => nulFree (by simp [member])
    rw [escapeChars, flatMap_cons, append_assoc, unescape_escape_char _ _ nonzero]
    exact congrArg (byte :: ·) (ih tailFree)

theorem unescape_escape (nulFree : 0 ∉ input) : unescapeChars (escapeChars input) = input := by
  have whole := unescape_escape_append input [] nulFree
  simpa [unescapeChars] using whole

theorem escape_char_bytes : ∀ value < 256,
    (escapeChar (ofNat value)).all isprint = true ∧
      (ofNat value ≠ quote → quote ∉ escapeChar (ofNat value)) := by
  decide +kernel

theorem escape_printable : ∀ byte ∈ escapeChars input, isprint byte = true := by
  intro byte member
  obtain ⟨source, _, inside⟩ := mem_flatMap.mp member
  have printable := (escape_char_bytes source.toNat source.toNat_lt).1
  rw [UInt8.ofNat_toNat] at printable
  exact all_eq_true.mp printable byte inside

theorem escape_no_quote (quoteFree : quote ∉ input) : quote ∉ escapeChars input := by
  intro member
  obtain ⟨source, inside, escaped⟩ := mem_flatMap.mp member
  have different : source ≠ quote := by
    rintro rfl
    exact quoteFree inside
  have absent := (escape_char_bytes source.toNat source.toNat_lt).2
  rw [UInt8.ofNat_toNat] at absent
  exact absent different escaped

theorem escape_at_quote (before after : Text) :
    escapeChars (before ++ quote :: after) =
      escapeChars before ++ backslash :: quote :: escapeChars after := by
  have escaped : escapeChar quote = [backslash, quote] := rfl
  simp [escapeChars, escaped]

theorem not_quote_run (field : Text) (quoteFree : quote ∉ field) :
    ∀ byte ∈ field, notQuote byte = true := by
  intro byte member
  have different : byte ≠ quote := fun same => quoteFree (same ▸ member)
  simpa [notQuote] using different

theorem stops_at_quote : Stops notQuote (quote :: rest) :=
  (stops_cons notQuote quote rest).mpr (by decide)

theorem split_at_quote (stop : UInt8) (found : content.dropWhile notQuote = stop :: rest) :
    content = content.takeWhile notQuote ++ quote :: rest ∧ quote ∉ content.takeWhile notQuote := by
  have stopped := head?_dropWhile_not notQuote content
  rw [found] at stopped
  have same : stop = quote := by simpa [notQuote] using stopped
  have whole := takeWhile_append_dropWhile (p := notQuote) (l := content)
  rw [found, same] at whole
  refine ⟨whole.symm, ?_⟩
  intro member
  exact absurd (mem_takeWhile_imp member) (by decide)

/-- The bytes that `file_get_line` passes through unchanged. -/
def Plain (byte : UInt8) : Prop := byte ≠ 0 ∧ byte ≠ newline ∧ byte ≠ carriageReturn

theorem plain_of_isprint (printable : isprint byte = true) : Plain byte := by
  refine ⟨?_, ?_, ?_⟩ <;> rintro rfl <;> exact absurd printable (by decide)

theorem cstring_nul_free (bytes : Text) (nulFree : 0 ∉ bytes) : cstring bytes = bytes := by
  rw [cstring, takeWhile_eq_self_iff]
  intro byte member
  have nonzero : byte ≠ 0 := fun zero => nulFree (zero ▸ member)
  simpa using nonzero

theorem file_get_line_loop_plain (file line : Text) (prev : UInt8)
    (plain : ∀ byte ∈ content, Plain byte) :
    fileGetLineLoop (content ++ file) line prev =
      fileGetLineLoop file (line ++ content) ((content.getLast?).getD prev) := by
  induction content generalizing line prev with
  | nil => simp
  | cons byte rest ih =>
    obtain ⟨_, notNewline, notReturn⟩ := plain byte (by simp)
    rw [cons_append, fileGetLineLoop, if_neg notReturn, if_neg notNewline,
      ih _ _ fun other member => plain other (by simp [member])]
    cases rest with
    | nil => simp
    | cons next tail => simp [getLast?_cons]

theorem file_get_line_plain (plain : ∀ byte ∈ content, Plain byte)
    (ends : ∀ byte ∈ content.getLast?, byte ≠ backslash) :
    fileGetLine (content ++ newline :: rest) = some (content, rest) := by
  have stops : content = [] ∨ (content.getLast?).getD 0 ≠ backslash := by
    cases found : content.getLast? with
    | none => exact Or.inl (getLast?_eq_none_iff.mp found)
    | some byte => exact Or.inr (ends byte (by simp [found]))
  have nulFree : 0 ∉ content := fun member => (plain 0 member).1 rfl
  have read := file_get_line_loop_plain content (newline :: rest) [] 0 plain
  rw [nil_append, fileGetLineLoop, if_neg (by decide), if_pos rfl, if_pos stops] at read
  simp [fileGetLine, read, cstring_nul_free content nulFree]

/-- A byte with no meaning to `file_get_line` at all. -/
def Ordinary (byte : UInt8) : Prop := Plain byte ∧ byte ≠ backslash

theorem file_get_line_ordinary (ordinary : ∀ byte ∈ content, Ordinary byte) :
    fileGetLine (content ++ newline :: rest) = some (content, rest) :=
  file_get_line_plain content rest (fun byte member => (ordinary byte member).1)
    fun byte member => (ordinary byte (mem_of_mem_getLast? member)).2

theorem ordinary_of_range (least : 44 ≤ byte) (most : byte ≤ 90) : Ordinary byte := by
  refine ⟨⟨?_, ?_, ?_⟩, ?_⟩ <;> rintro rfl
  · exact absurd least (by decide)
  · exact absurd least (by decide)
  · exact absurd least (by decide)
  · exact absurd most (by decide)

theorem unsigned_range (value : Nat) : ∀ byte ∈ unsigned value, 48 ≤ byte ∧ byte ≤ 57 := by
  intro byte member
  have numeral := is_digit_digits base_ten value byte member
  exact digit_range byte numeral

theorem unsigned_ordinary (value : Nat) : ∀ byte ∈ unsigned value, Ordinary byte := by
  intro byte member
  obtain ⟨least, most⟩ := unsigned_range value byte member
  exact ordinary_of_range byte (UInt8.le_trans (by decide) least) (UInt8.le_trans most (by decide))

theorem signed_ordinary (value : Int) : ∀ byte ∈ signed value, Ordinary byte := by
  cases value with
  | ofNat value => exact unsigned_ordinary value
  | negSucc value =>
    intro byte member
    rcases mem_cons.mp member with rfl | digit
    · exact ordinary_of_range 45 (by decide) (by decide)
    · exact unsigned_ordinary (value + 1) byte digit

theorem read_lines_plain (lines : List Text) (fuel : Nat) (enough : lines.length < fuel)
    (plain : ∀ line ∈ lines, ∀ byte ∈ line, Plain byte)
    (ends : ∀ line ∈ lines, ∀ byte ∈ line.getLast?, byte ≠ backslash) :
    readLines fuel (lines.flatMap (· ++ [newline])) = lines := by
  induction lines generalizing fuel with
  | nil =>
    cases fuel with
    | zero => simp at enough
    | succ fuel => rfl
  | cons line rest ih =>
    cases fuel with
    | zero => simp at enough
    | succ fuel =>
      have first := file_get_line_plain line (rest.flatMap (· ++ [newline]))
        (plain line (by simp)) (ends line (by simp))
      have shape : (line :: rest).flatMap (· ++ [newline]) =
          line ++ newline :: rest.flatMap (· ++ [newline]) := by simp
      simp only [length_cons] at enough
      have others := ih fuel (by omega) (fun other member => plain other (by simp [member]))
        fun other member => ends other (by simp [member])
      rw [shape, readLines, first]
      exact congrArg (line :: ·) others

theorem file_lines_plain (lines : List Text) (plain : ∀ line ∈ lines, ∀ byte ∈ line, Plain byte)
    (ends : ∀ line ∈ lines, ∀ byte ∈ line.getLast?, byte ≠ backslash) :
    fileLines (lines.flatMap (· ++ [newline])) = lines := by
  have enough : lines.length < (lines.flatMap (· ++ [newline])).length + 1 := by
    clear plain ends
    induction lines with
    | nil => simp
    | cons line rest ih =>
      simp only [flatMap_cons, length_append, length_cons] at ih ⊢
      omega
  exact read_lines_plain lines _ enough plain ends

end Pvpgn.TextUtil
