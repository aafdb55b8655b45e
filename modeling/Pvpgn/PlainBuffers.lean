import Pvpgn.CharBuffer
import Pvpgn.FilePlain

/-!
The two arrays that `plain_read_attrs` allocates for a line, and what `sscanf` stores into them
while it goes through the format. A write outside an array is `none`.
-/

namespace Pvpgn.PlainBuffers
open Stdio TextUtil CheckedArray CharBuffer FilePlain List Option

/-- A field with its NUL in the next array, and the arrays after that one. -/
def storeField : List Text → Argument → Option (Text × List Text)
  | array :: others, .string bytes => do
    let stored ← putAll ⟨array, 0⟩ (bytes ++ [0])
    some (stored.cells, others)
  | _, _ => none

/-- `sscanf` into arrays, one for each conversion in order: a field is stored as soon as it was
read. The count of the fields and the arrays afterwards. -/
def scanInto : List Directive → Text → List Text → Option (Nat × List Text)
  | [], _, arrays => some (0, arrays)
  | .literal byte :: rest, input, arrays =>
    match input with
    | next :: tail => if next = byte then scanInto rest tail arrays else some (0, arrays)
    | [] => some (0, arrays)
  | .white :: rest, input, arrays => scanInto rest (input.dropWhile isspace) arrays
  | .conversion kind :: rest, input, arrays =>
    match convert kind input with
    | none => some (0, arrays)
    | some (field, tail) => do
      let (stored, others) ← storeField arrays field
      let (count, others) ← scanInto rest tail others
      some (count + 1, stored :: others)

/-- What a line hands to the callback; `freshKey` and `freshVal` are the arrays as allocated. -/
def plainReadBuffers (buff freshKey freshVal : Text) : Option (Option (Text × Text)) :=
  if buff = [] ∨ buff.head? = some 35 then some none
  else if buff.length < 6 then some none
  else do
    let (count, arrays) ← scanInto entryFormat buff [freshKey, freshVal]
    let esckey ← arrays[0]?
    let escval ← arrays[1]?
    if count = 2 then do
      let key ← stringAt esckey
      let val ← stringAt escval
      some (some (unescapeChars key, unescapeChars val))
    else do
      let (count, arrays) ← scanInto emptyFormat buff [esckey]
      let esckey ← arrays[0]?
      if count = 1 then do
        let escval ← writeAt escval 0 0
        let key ← stringAt esckey
        let val ← stringAt escval
        some (some (unescapeChars key, unescapeChars val))
      else some none

/-- `std::strlen(buff)-5+1` -/
def len (buff : Text) : Nat := buff.length - 5 + 1

/-- No write of the line leaves its array. -/
def WritesInside (buff : Text) : Prop :=
  ∀ freshKey freshVal : Text, freshKey.length = len buff → freshVal.length = len buff →
    ∃ result, plainReadBuffers buff freshKey freshVal = some result

/-- The line is not scanned, or it does not begin with a quote and a key, or four characters at
least stand behind the key: its closing quote and three more. -/
def KeyFits (buff : Text) : Prop :=
  buff = [] ∨ buff.head? = some 35 ∨ buff.length < 6 ∨
    ∀ rest, buff = quote :: rest → rest.takeWhile notQuote = [] ∨
      4 ≤ (rest.dropWhile notQuote).length

/-! What is stored, from what `sscanf` assigns. -/

def storeAll : List Argument → List Text → Option (List Text)
  | [], arrays => some arrays
  | .string bytes :: others, array :: arrays =>
    if bytes.length + 1 ≤ array.length then
      (storeAll others arrays).map fun rest =>
        (bytes ++ 0 :: array.drop (bytes.length + 1)) :: rest
    else none
  | _, _ => none

theorem put_beyond (array bytes : Text) (position : Nat) (start : position ≤ array.length)
    (beyond : array.length < position + bytes.length) : putAll ⟨array, position⟩ bytes = none := by
  induction bytes generalizing array position with
  | nil =>
    rw [length_nil] at beyond
    omega
  | cons byte rest ih =>
    rw [length_cons] at beyond
    by_cases inside : position < array.length
    · rw [putAll, put, write_inside _ _ _ inside, map_some, bind_some]
      apply ih (array.set position byte) (position + 1)
      · rw [length_set]
        omega
      · rw [length_set]
        omega
    · rw [putAll, put, writeAt, if_neg inside]
      rfl

theorem put_string (array bytes : Text) : (putAll ⟨array, 0⟩ (bytes ++ [0])).map Buffer.cells =
    if bytes.length + 1 ≤ array.length then some (bytes ++ 0 :: array.drop (bytes.length + 1))
    else none := by
  have size : (bytes ++ [(0 : UInt8)]).length = bytes.length + 1 := by simp
  by_cases fits : bytes.length + 1 ≤ array.length
  · rw [if_pos fits, put_all array (bytes ++ [0]) 0 (by rw [size]; omega), size]
    simp
  · rw [if_neg fits, put_beyond array (bytes ++ [0]) 0 (Nat.zero_le _) (by rw [size]; omega)]
    rfl

variable (format : List Directive) (buff input : Text)

/-- The arrays hold what `sscanf` assigns, and a field without room leaves its array. -/
theorem scan_into_stores (arrays : List Text) :
    scanInto format input arrays = (storeAll (scan format input).1 arrays).map fun stored =>
      ((scan format input).1.length, stored) := by
  induction format generalizing input arrays with
  | nil => rfl
  | cons directive rest ih =>
    cases directive with
    | literal byte =>
      cases input with
      | nil => rfl
      | cons next tail =>
        rw [scanInto, scan]
        by_cases same : next = byte
        · rw [if_pos same, if_pos same, ih]
        · rw [if_neg same, if_neg same]
          rfl
    | white =>
      exact ih _ _
    | conversion kind =>
      rw [scanInto, scan]
      cases converted : convert kind input with
      | none => rfl
      | some result =>
        obtain ⟨value, tail⟩ := result
        simp only [ih, bind_eq_bind]
        cases arrays with
        | nil => cases value <;> rfl
        | cons array others =>
          cases value with
          | string bytes =>
            have put := put_string array bytes
            simp only [storeField, storeAll, bind_eq_bind]
            by_cases fits : bytes.length + 1 ≤ array.length
            · rw [if_pos fits] at put ⊢
              obtain ⟨stored, done, cells⟩ := map_eq_some_iff.mp put
              simp only [done, bind_some, cells]
              cases storeAll (scan rest tail).1 others with
              | none => rfl
              | some kept => rfl
            · rw [if_neg fits] at put ⊢
              rw [map_eq_none_iff.mp put]
              rfl
          | char byte => rfl
          | unsigned number => rfl
          | signed number => rfl

/-! What the two formats assign. -/

def between : List Directive := [.literal quote, .white, .literal 61, .white, .literal quote]

theorem scan_literal_args (byte : UInt8) (format : List Directive) (input : Text) :
    (scan (.literal byte :: format) input).1 = [] ∨
      ∃ tail, tail.length + 1 = input.length ∧ Sublist tail input ∧
        (scan (.literal byte :: format) input).1 = (scan format tail).1 := by
  cases input with
  | nil => exact Or.inl rfl
  | cons next tail =>
    by_cases same : next = byte
    · exact Or.inr ⟨tail, rfl, sublist_cons_self next tail, by rw [scan, if_pos same]⟩
    · exact Or.inl (by rw [scan, if_neg same])

theorem between_args :
    (scan (between ++ format) input).1 = [] ∨
      ∃ tail, tail.length + 3 ≤ input.length ∧ Sublist tail input ∧
        (scan (between ++ format) input).1 = (scan format tail).1 := by
  rcases scan_literal_args quote ([.white, .literal 61, .white, .literal quote] ++ format) input
    with stopped | ⟨first, firstLength, firstInside, firstSame⟩
  · exact Or.inl stopped
  have firstSpaces := dropWhile_sublist (l := first) isspace
  rcases scan_literal_args 61 ([.white, .literal quote] ++ format) (first.dropWhile isspace)
    with stopped | ⟨second, secondLength, secondInside, secondSame⟩
  · exact Or.inl (firstSame.trans stopped)
  have secondSpaces := dropWhile_sublist (l := second) isspace
  rcases scan_literal_args quote format (second.dropWhile isspace)
    with stopped | ⟨third, thirdLength, thirdInside, thirdSame⟩
  · exact Or.inl (firstSame.trans (secondSame.trans stopped))
  have firstLess := firstSpaces.length_le
  have secondLess := secondSpaces.length_le
  have inside := thirdInside.trans (secondSpaces.trans
    (secondInside.trans (firstSpaces.trans firstInside)))
  exact Or.inr ⟨third, by omega, inside, firstSame.trans (secondSame.trans thirdSame)⟩

theorem key_args (rest : Text) (found : rest.takeWhile notQuote ≠ []) :
    (scan (keyFormat ++ format) (quote :: rest)).1 = .string (rest.takeWhile notQuote) ::
      (scan (between ++ format) (rest.dropWhile notQuote)).1 := by
  have converted : convert (.scanset notQuote) rest =
      some (.string (rest.takeWhile notQuote), rest.dropWhile notQuote) := by
    rw [convert, if_neg found]
  rw [keyFormat, cons_append, scan, if_pos rfl, cons_append, scan_conversion _ converted]
  rfl

theorem no_key_args (nothing : ∀ rest, buff = quote :: rest → rest.takeWhile notQuote = []) :
    (scan (keyFormat ++ format) buff).1 = [] := by
  rcases scan_literal_args quote (keyFormat.tail ++ format) buff with stopped | _
  · exact stopped
  cases buff with
  | nil => rfl
  | cons next rest =>
    by_cases opens : next = quote
    · subst opens
      have empty : convert (.scanset notQuote) rest = none := by
        rw [convert, if_pos (nothing rest rfl)]
      rw [keyFormat, cons_append, scan, if_pos rfl, cons_append, scan, empty]
    · rw [keyFormat, cons_append, scan, if_neg opens]

theorem value_args :
    (scan (between ++ [.conversion (.scanset notQuote), .literal quote]) input).1 = [] ∨
      ∃ value, (scan (between ++ [.conversion (.scanset notQuote), .literal quote]) input).1 =
        [.string value] ∧ value.length + 3 ≤ input.length ∧ Sublist value input := by
  rcases between_args [.conversion (.scanset notQuote), .literal quote] input
    with stopped | ⟨tail, shorter, within, same⟩
  · exact Or.inl stopped
  rw [same]
  have taken := takeWhile_sublist (p := notQuote) (l := tail)
  have bound := taken.length_le
  by_cases empty : tail.takeWhile notQuote = []
  · exact Or.inl (by simp [scan, convert, empty])
  right
  have converted : convert (.scanset notQuote) tail =
      some (.string (tail.takeWhile notQuote), tail.dropWhile notQuote) := by
    rw [convert, if_neg empty]
  refine ⟨tail.takeWhile notQuote, ?_, by omega, taken.trans within⟩
  rw [scan_conversion _ converted]
  rcases scan_literal_args quote [] (tail.dropWhile notQuote) with stopped | ⟨_, _, _, ended⟩
  · rw [stopped]
  · rw [ended]
    rfl

theorem empty_args : (scan (between ++ [.literal quote]) input).1 = [] := by
  rcases between_args [.literal quote] input with stopped | ⟨tail, _, _, same⟩
  · exact stopped
  rw [same]
  rcases scan_literal_args quote [] tail with stopped | ⟨_, _, _, ended⟩
  · exact stopped
  · rw [ended]
    rfl

/-! One line. -/

theorem quoted_line (rest : Text) : ¬(quote :: rest = [] ∨ (quote :: rest).head? = some 35) := by
  rintro (nothing | comment)
  · cases nothing
  · exact absurd (some.inj comment) (by decide)

theorem key_length (rest : Text) :
    (rest.takeWhile notQuote).length + (rest.dropWhile notQuote).length = rest.length := by
  rw [← length_append, takeWhile_append_dropWhile]

theorem no_key_read (freshKey freshVal : Text)
    (nothing : ∀ rest, buff = quote :: rest → rest.takeWhile notQuote = []) :
    plainReadBuffers buff freshKey freshVal = some none := by
  have first : (scan entryFormat buff).1 = [] := no_key_args _ buff nothing
  have second : (scan emptyFormat buff).1 = [] := no_key_args _ buff nothing
  rw [plainReadBuffers]
  split
  · rfl
  split
  · rfl
  · simp [scan_into_stores, first, second, storeAll]

theorem no_key_line (nothing : ∀ rest, buff = quote :: rest → rest.takeWhile notQuote = []) :
    plainReadLine buff = none := by
  have first : (scan entryFormat buff).1 = [] := no_key_args _ buff nothing
  have second : (scan emptyFormat buff).1 = [] := no_key_args _ buff nothing
  rw [plainReadLine]
  split
  · rfl
  split
  · rfl
  · simp [sscanf, first, second]

theorem fitting_key_read (rest freshKey freshVal : Text) (nulFree : 0 ∉ rest)
    (found : rest.takeWhile notQuote ≠ []) (long : ¬(quote :: rest).length < 6)
    (keyRoom : freshKey.length = len (quote :: rest))
    (valRoom : freshVal.length = len (quote :: rest))
    (fits : 4 ≤ (rest.dropWhile notQuote).length) :
    plainReadBuffers (quote :: rest) freshKey freshVal = some (plainReadLine (quote :: rest)) := by
  have start := quoted_line rest
  have whole := key_length rest
  have positive := length_pos_of_ne_nil found
  rw [len, length_cons] at keyRoom valRoom
  have keyFits : (rest.takeWhile notQuote).length + 1 ≤ freshKey.length := by omega
  have keyClean : 0 ∉ rest.takeWhile notQuote := fun member =>
    nulFree ((takeWhile_sublist _).subset member)
  have first := key_args [.conversion (.scanset notQuote), .literal quote] rest found
  rw [← entryFormat] at first
  have second := key_args [.literal quote] rest found
  rw [← emptyFormat, empty_args] at second
  have keyString (tail : Text) : stringAt (rest.takeWhile notQuote ++ 0 :: tail) =
      some (rest.takeWhile notQuote) := string_written _ tail keyClean
  rw [plainReadBuffers, plainReadLine, if_neg start, if_neg start, if_neg long, if_neg long]
  simp only [scan_into_stores, sscanf, first, second, bind_eq_bind]
  rcases value_args (rest.dropWhile notQuote) with nothing | ⟨value, one, shorter, within⟩
  · obtain ⟨cell, cells, shape⟩ := exists_cons_of_length_pos (l := freshVal) (by omega)
    have ended : stringAt (0 :: cells) = some [] := string_written [] cells not_mem_nil
    rw [shape, nothing]
    simp [storeAll, keyFits, keyString, writeAt, ended]
  have valFits : value.length + 1 ≤ freshVal.length := by omega
  have valClean : 0 ∉ value := fun member =>
    nulFree ((dropWhile_sublist notQuote).subset (within.subset member))
  have valString (tail : Text) : stringAt (value ++ 0 :: tail) = some value :=
    string_written value tail valClean
  rw [one]
  simp [storeAll, keyFits, valFits, keyString, valString]

theorem long_key_overflows (rest freshKey freshVal : Text) (found : rest.takeWhile notQuote ≠ [])
    (long : ¬(quote :: rest).length < 6) (keyRoom : freshKey.length = len (quote :: rest))
    (short : ¬4 ≤ (rest.dropWhile notQuote).length) :
    plainReadBuffers (quote :: rest) freshKey freshVal = none := by
  have start := quoted_line rest
  have whole := key_length rest
  rw [length_cons] at long
  rw [len, length_cons] at keyRoom
  have keyLong : ¬(rest.takeWhile notQuote).length + 1 ≤ freshKey.length := by omega
  have first := key_args [.conversion (.scanset notQuote), .literal quote] rest found
  rw [← entryFormat] at first
  rw [plainReadBuffers, if_neg start, if_neg (by rw [length_cons]; exact long)]
  simp only [scan_into_stores, first, storeAll, if_neg keyLong, map_none, bind_eq_bind, bind_none]

theorem plain_read_buffers_exact (freshKey freshVal : Text) (nulFree : 0 ∉ buff)
    (keyRoom : freshKey.length = len buff) (valRoom : freshVal.length = len buff)
    (fits : KeyFits buff) :
    plainReadBuffers buff freshKey freshVal = some (plainReadLine buff) := by
  by_cases skipped : buff = [] ∨ buff.head? = some 35
  · rw [plainReadBuffers, plainReadLine, if_pos skipped, if_pos skipped]
  by_cases short : buff.length < 6
  · rw [plainReadBuffers, plainReadLine, if_neg skipped, if_neg skipped, if_pos short, if_pos short]
  have scanned := ((fits.resolve_left (fun empty => skipped (Or.inl empty))).resolve_left
    (fun comment => skipped (Or.inr comment))).resolve_left short
  by_cases key : ∃ rest, buff = quote :: rest ∧ rest.takeWhile notQuote ≠ []
  · obtain ⟨rest, rfl, found⟩ := key
    exact fitting_key_read rest freshKey freshVal
      (fun member => nulFree (mem_cons_of_mem _ member)) found short keyRoom valRoom
      ((scanned rest rfl).resolve_left found)
  · have nothing : ∀ rest, buff = quote :: rest → rest.takeWhile notQuote = [] := by
      intro rest shape
      by_contra found
      exact key ⟨rest, shape, found⟩
    rw [no_key_read buff freshKey freshVal nothing, no_key_line buff nothing]

/-- A line is stored inside its arrays exactly when it is not scanned, begins with no key, or has
four characters behind the key. -/
theorem writes_inside_iff (buff : Text) (nulFree : 0 ∉ buff) :
    WritesInside buff ↔ KeyFits buff := by
  constructor
  · intro inside
    by_contra overflows
    rw [KeyFits, not_or, not_or, not_or] at overflows
    obtain ⟨_, _, long, key⟩ := overflows
    simp only [not_forall, not_or] at key
    obtain ⟨rest, rfl, found, short⟩ := key
    obtain ⟨result, read⟩ := inside (replicate (len (quote :: rest)) 0)
      (replicate (len (quote :: rest)) 0) length_replicate length_replicate
    rw [long_key_overflows rest _ _ found long length_replicate short] at read
    cases read
  · intro fits freshKey freshVal keyRoom valRoom
    exact ⟨_, plain_read_buffers_exact buff freshKey freshVal nulFree keyRoom valRoom fits⟩

theorem age_line_inside : WritesInside (text "\"age\"=\"7\"") := by
  refine (writes_inside_iff (text "\"age\"=\"7\"") (by decide)).mpr ?_
  refine Or.inr (Or.inr (Or.inr fun rest shape => Or.inr ?_))
  have behind : rest = text "age\"=\"7\"" := (List.cons.inj shape).2.symm
  rw [behind]
  decide

/-- An opening quote and no other one: five characters and a NUL into an array of two. -/
theorem unclosed_key_overflows : text "\"abcde" = [34, 97, 98, 99, 100, 101] ∧
    len (text "\"abcde") = 2 ∧
    plainReadBuffers (text "\"abcde") [0, 0] [0, 0] = none ∧ ¬WritesInside (text "\"abcde") := by
  have overflow : plainReadBuffers (text "\"abcde") [0, 0] [0, 0] = none := by decide +kernel
  refine ⟨by decide, by decide, overflow, ?_⟩
  intro inside
  obtain ⟨result, read⟩ := inside [0, 0] [0, 0] (by decide) (by decide)
  cases read

end Pvpgn.PlainBuffers
