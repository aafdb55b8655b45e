import Pvpgn.CharBuffer
import Pvpgn.TextUtil

/-!
`unescape_chars` over its two arrays: the string with its NUL, and the buffer that is as long. Every
read and write is checked.
-/

namespace Pvpgn.Unescape
open Stdio TextUtil CheckedArray CharBuffer Option Nat UInt8
open List hiding count

/-- The digits that an octal escape takes into `temp`, at most `count` more, and the position
behind them. -/
def octalDigits (input : Text) : Nat → Nat → Text → Option (Text × Nat)
  | 0, inpos, temp => some (temp, inpos)
  | count + 1, inpos, temp => do
    let curr ← readAt input inpos
    if isOctal curr then octalDigits input count (inpos + 1) (temp ++ [curr])
    else some (temp, inpos)

/-- `strcpy(&out[outpos],temp); outpos += strlen(temp);` -/
def copyString (out : Buffer) (temp : Text) : Option Buffer := do
  let out ← putAll out temp
  let cells ← writeAt out.cells out.position 0
  some ⟨cells, out.position⟩

/-- The default branch, for what stands behind the backslash. -/
def octalEscape (input : Text) (inpos : Nat) (out : Buffer) : Option (Nat × Buffer) := do
  -- `inpos--` behind the digits is taken back by the step of the loop
  let (temp, stop) ← octalDigits input 3 inpos []
  let num := fromDigits 8 temp
  if temp.length < 3 ∨ num < 1 ∨ 255 < num then do
    let out ← put out backslash
    let out ← copyString out temp
    some (stop, out)
  else do
    let out ← put out (ofNat num)
    some (stop, out)

/-- One turn of the loop: the position it goes on from and the buffer. -/
def unescapeTurn (input : Text) (inpos : Nat) (out : Buffer) : Option (Nat × Buffer) := do
  let curr ← readAt input inpos
  if curr ≠ backslash then do
    let out ← put out curr
    some (inpos + 1, out)
  else do
    let next ← readAt input (inpos + 1)
    match unescapeLetter next with
    | some byte => do
      let out ← put out byte
      some (inpos + 2, out)
    | none => octalEscape input (inpos + 1) out

def unescapeLoop (input : Text) (inlen : Nat) : Nat → Nat → Buffer → Option Buffer
  | 0, _, _ => none
  | rounds + 1, inpos, out =>
    if inpos < inlen then do
      let (inpos, out) ← unescapeTurn input inpos out
      unescapeLoop input inlen rounds inpos out
    else some out

/-- `input` is the memory up to the NUL, `fresh` the buffer as it is allocated. -/
def unescapeBuffer (input fresh : Text) : Option Text := do
  let inlen := (cstring input).length
  let out ← unescapeLoop input inlen (inlen + 1) 0 ⟨fresh, 0⟩
  writeAt out.cells out.position 0

/-! The buffer. -/

/-- The buffer has `size` cells and starts with `done`. -/
structure Filled (out : Buffer) (size : Nat) (done : Text) : Prop where
  cells : out.cells.length = size
  position : out.position = done.length
  start : out.cells.take done.length = done

variable (input rest : Text) {done : Text} {out : Buffer} {size : Nat}

section
variable (filled : Filled out size done)
include filled

theorem Filled.put (byte : UInt8) (room : done.length < size) :
    ∃ after, CharBuffer.put out byte = some after ∧ Filled after size (done ++ [byte]) := by
  have inside : out.position < out.cells.length := by
    rw [filled.cells, filled.position]
    exact room
  refine ⟨⟨out.cells.set out.position byte, out.position + 1⟩, ?_, ?_, ?_, ?_⟩
  · rw [CharBuffer.put, write_inside _ _ _ inside, map_some]
  · rw [length_set, filled.cells]
  · rw [length_append, length_singleton, filled.position]
  · rw [filled.position] at inside
    rw [length_append, length_singleton, filled.position, take_add_one,
      take_set_of_le (le_refl _), filled.start, getElem?_set_self inside]
    rfl

theorem Filled.put_all (bytes : Text) (room : done.length + bytes.length ≤ size) :
    ∃ after, putAll out bytes = some after ∧ Filled after size (done ++ bytes) := by
  induction bytes generalizing out done with
  | nil => exact ⟨out, rfl, by rw [append_nil]; exact filled⟩
  | cons byte rest ih =>
    rw [length_cons] at room
    obtain ⟨middle, first, middleFilled⟩ := filled.put byte (by omega)
    obtain ⟨after, others, afterFilled⟩ := ih middleFilled
      (by rw [length_append, length_singleton]; omega)
    refine ⟨after, ?_, ?_⟩
    · rw [putAll, first, bind_some, others]
    · rw [append_assoc, singleton_append] at afterFilled
      exact afterFilled

theorem Filled.write_nul (room : done.length < size) :
    ∃ cells, writeAt out.cells out.position 0 = some cells ∧
      Filled ⟨cells, out.position⟩ size done ∧ cells.drop done.length =
        0 :: out.cells.drop (done.length + 1) := by
  have inside : out.position < out.cells.length := by
    rw [filled.cells, filled.position]
    exact room
  refine ⟨out.cells.set out.position 0, write_inside _ _ _ inside, ⟨?_, filled.position, ?_⟩, ?_⟩
  · rw [length_set, filled.cells]
  · rw [filled.position, take_set_of_le (le_refl _), filled.start]
  · rw [filled.position] at inside ⊢
    rw [drop_eq_getElem_cons (by simpa using inside), getElem_set_self, drop_set_of_lt (by omega)]

theorem Filled.copy_string (temp : Text) (room : done.length + temp.length < size) :
    ∃ after, copyString out temp = some after ∧ Filled after size (done ++ temp) := by
  obtain ⟨middle, copied, middleFilled⟩ := filled.put_all temp (by omega)
  obtain ⟨cells, ended, afterFilled, _⟩ :=
    middleFilled.write_nul (by rw [length_append]; exact room)
  refine ⟨⟨cells, middle.position⟩, ?_, afterFilled⟩
  simp only [copyString, copied, ended, bind_eq_bind, bind_some]

end

/-! The octal digits. -/

def octalPrefix (rest : Text) : Text := (rest.take 3).takeWhile isOctal

theorem read_drop (inpos : Nat) : readAt input inpos = (input.drop inpos).head? := by
  rw [readAt, head?_drop]

theorem octal_digits_exact (input rest : Text) (count inpos : Nat) (temp : Text)
    (here : input.drop inpos = rest ++ [0]) :
    octalDigits input count inpos temp = some (temp ++ (rest.take count).takeWhile isOctal,
      inpos + ((rest.take count).takeWhile isOctal).length) := by
  induction count generalizing inpos rest temp with
  | zero => simp [octalDigits]
  | succ count ih =>
    have nul : isOctal 0 = false := rfl
    cases rest with
    | nil => simp [octalDigits, read_drop, here, nul]
    | cons first rest =>
      by_cases octal : isOctal first = true
      · have behind : input.drop (inpos + 1) = rest ++ [0] := by
          rw [← tail_drop, here]
          rfl
        have next := ih rest (inpos + 1) (temp ++ [first]) behind
        simp only [octalDigits, read_drop, here, cons_append, head?_cons,
          bind_eq_bind, bind_some, octal, if_true, next, take_succ_cons,
          takeWhile_cons, append_assoc, nil_append, length_cons]
        rw [add_right_comm, add_assoc]
      · simp [octalDigits, read_drop, here, octal]

theorem octal_prefix_length :
    (octalPrefix rest).length ≤ 3 ∧ (octalPrefix rest).length ≤ rest.length := by
  have bound := (takeWhile_sublist (p := isOctal) (l := rest.take 3)).length_le
  rw [length_take] at bound
  rw [octalPrefix]
  omega

theorem letter_nonzero (letter byte : UInt8) (known : unescapeLetter letter = some byte) :
    byte ≠ 0 := by
  rintro rfl
  revert known
  unfold unescapeLetter
  split_ifs with escape <;> simp [backslash, quote]

/-- A numeric escape on the level of strings: three digits of a byte are that byte, anything
else stays with its backslash. -/
theorem unescape_numeric (plain : rest.head?.bind unescapeLetter = none) :
    unescapeChars (backslash :: rest) =
      if (octalPrefix rest).length < 3 ∨ fromDigits 8 (octalPrefix rest) < 1 ∨
          255 < fromDigits 8 (octalPrefix rest) then
        backslash :: octalPrefix rest ++ unescapeChars (rest.drop (octalPrefix rest).length)
      else ofNat (fromDigits 8 (octalPrefix rest)) :: unescapeChars (rest.drop 3) := by
  cases rest with
  | nil => simp [unescapeChars, octalPrefix]
  | cons first tail =>
    have noLetter : unescapeLetter first = none := plain
    by_cases octal : isOctal first = true
    · cases tail with
      | nil => simp [unescapeChars, octalPrefix, noLetter, octal]
      | cons second tail =>
        by_cases octalSecond : isOctal second = true
        · cases tail with
          | nil => simp [unescapeChars, octalPrefix, noLetter, octal, octalSecond]
          | cons third tail =>
            by_cases octalThird : isOctal third = true
            · simp [unescapeChars, octalPrefix, noLetter, octal, octalSecond, octalThird]
            · simp [unescapeChars, octalPrefix, noLetter, octal, octalSecond, octalThird]
        · rw [unescapeChars.eq_def]
          simp [octalPrefix, noLetter, octal, octalSecond]
    · rw [unescapeChars.eq_def]
      simp [octalPrefix, noLetter, octal]

/-! The loop. -/

theorem octal_escape_exact (tail done : Text) (inpos size : Nat) (out : Buffer)
    (here : input.drop inpos = tail ++ [0]) (plain : tail.head?.bind unescapeLetter = none)
    (nulFree : 0 ∉ tail) (filled : Filled out size done)
    (room : done.length + tail.length + 1 < size) :
    ∃ count bytes after, octalEscape input inpos out = some (inpos + count, after) ∧
      count ≤ tail.length ∧ bytes.length ≤ count + 1 ∧ 0 ∉ bytes ∧
      unescapeChars (backslash :: tail) = bytes ++ unescapeChars (tail.drop count) ∧
      Filled after size (done ++ bytes) := by
  have digits := octal_digits_exact input tail 3 inpos [] here
  rw [nil_append, ← octalPrefix] at digits
  obtain ⟨three, within⟩ := octal_prefix_length tail
  have spelled := unescape_numeric tail plain
  by_cases bad : (octalPrefix tail).length < 3 ∨ fromDigits 8 (octalPrefix tail) < 1 ∨
      255 < fromDigits 8 (octalPrefix tail)
  · obtain ⟨middle, first, middleFilled⟩ := filled.put backslash (by omega)
    obtain ⟨after, copied, afterFilled⟩ := middleFilled.copy_string (octalPrefix tail)
      (by rw [length_append, length_singleton]; omega)
    refine ⟨(octalPrefix tail).length, backslash :: octalPrefix tail, after, ?_, within,
      by rw [length_cons], ?_, by rw [spelled, if_pos bad], ?_⟩
    · simp only [octalEscape, digits, if_pos bad, first, copied, bind_eq_bind, bind_some]
    · intro member
      rcases mem_cons.mp member with zero | inside
      · exact absurd zero (by decide)
      · exact nulFree (mem_of_mem_take ((takeWhile_sublist _).subset inside))
    · rw [append_assoc, singleton_append] at afterFilled
      exact afterFilled
  · have all : (octalPrefix tail).length = 3 := by omega
    have nonzero : (0 : UInt8) ≠ ofNat (fromDigits 8 (octalPrefix tail)) := by
      intro zero
      have number := congrArg toNat zero
      rw [toNat_ofNat'] at number
      have nothing : (0 : UInt8).toNat = 0 := rfl
      omega
    obtain ⟨after, written, afterFilled⟩ :=
      filled.put (ofNat (fromDigits 8 (octalPrefix tail))) (by omega)
    refine ⟨3, [ofNat (fromDigits 8 (octalPrefix tail))], after, ?_, by omega, by simp,
      by simpa using nonzero, by rw [spelled, if_neg bad]; rfl, afterFilled⟩
    simp only [octalEscape, digits, if_neg bad, written, bind_eq_bind, bind_some]
    rw [all]

-- What one turn takes from the input is at least what it writes.
theorem unescape_turn_exact (done : Text) (inpos size : Nat) (out : Buffer)
    (here : input.drop inpos = rest ++ [0]) (more : rest ≠ []) (nulFree : 0 ∉ rest)
    (filled : Filled out size done) (room : done.length + rest.length < size) :
    ∃ count bytes after, unescapeTurn input inpos out = some (inpos + count, after) ∧
      1 ≤ count ∧ count ≤ rest.length ∧ bytes.length ≤ count ∧ 0 ∉ bytes ∧
      unescapeChars rest = bytes ++ unescapeChars (rest.drop count) ∧
      Filled after size (done ++ bytes) := by
  obtain ⟨curr, tail, rfl⟩ := exists_cons_of_ne_nil more
  have behind : input.drop (inpos + 1) = tail ++ [0] := by
    rw [← tail_drop, here]
    rfl
  have nonzero : (0 : UInt8) ≠ curr := fun zero => nulFree (by simp [zero])
  by_cases escape : curr = backslash
  · subst escape
    by_cases letter : ∃ first byte, tail.head? = some first ∧ unescapeLetter first = some byte
    · obtain ⟨first, byte, head, known⟩ := letter
      obtain ⟨others, rfl⟩ : ∃ others, tail = first :: others := by
        cases tail with
        | nil => cases head
        | cons other others => exact ⟨others, by rw [Option.some.inj head]⟩
      obtain ⟨after, written, afterFilled⟩ := filled.put byte (by omega)
      refine ⟨2, [byte], after, ?_, by omega, by simp, by simp, ?_, ?_, afterFilled⟩
      · simp only [unescapeTurn, read_drop, here, behind, cons_append, head?_cons,
          bind_eq_bind, bind_some, known, written, ne_eq, not_true_eq_false, if_false]
      · simpa using (letter_nonzero first byte known).symm
      · exact unescape_letter first byte others known
    have plain : tail.head?.bind unescapeLetter = none := by
      cases tail with
      | nil => rfl
      | cons first others =>
        cases known : unescapeLetter first with
        | none => exact known
        | some byte => exact absurd ⟨first, byte, rfl, known⟩ letter
    obtain ⟨next, nextIs, unknown⟩ : ∃ next, (tail ++ [0]).head? = some next ∧
        unescapeLetter next = none := by
      cases tail with
      | nil => exact ⟨0, rfl, rfl⟩
      | cons first others => exact ⟨first, rfl, plain⟩
    obtain ⟨count, bytes, after, done, within, fewer, clean, spelled, afterFilled⟩ :=
      octal_escape_exact input tail done (inpos + 1) size out behind plain
        (fun member => nulFree (mem_cons_of_mem _ member)) filled (by omega)
    refine ⟨count + 1, bytes, after, ?_, by omega, by rw [length_cons]; omega, fewer, clean,
      by rw [spelled, drop_succ_cons], afterFilled⟩
    rw [add_comm count, ← add_assoc, ← done]
    simp only [unescapeTurn, read_drop, here, behind, cons_append, head?_cons, nextIs,
      bind_eq_bind, bind_some, unknown, ne_eq, not_true_eq_false, if_false]
  · obtain ⟨after, written, afterFilled⟩ := filled.put curr (by omega)
    refine ⟨1, [curr], after, ?_, by omega, by simp, by simp, by simpa using nonzero, ?_,
      afterFilled⟩
    · simp only [unescapeTurn, read_drop, here, cons_append, head?_cons,
        bind_eq_bind, bind_some, ne_eq, escape, not_false_eq_true, if_true, written]
    · exact unescape_plain curr tail escape

theorem unescape_loop_exact (inlen rounds : Nat) (rest done : Text) (inpos size : Nat)
    (out : Buffer) (here : input.drop inpos = rest ++ [0]) (ends : inpos + rest.length = inlen)
    (enough : rest.length < rounds) (nulFree : 0 ∉ rest) (filled : Filled out size done)
    (room : done.length + rest.length < size) :
    ∃ after bytes, unescapeLoop input inlen rounds inpos out = some after ∧
      bytes = unescapeChars rest ∧ 0 ∉ bytes ∧ done.length + bytes.length < size ∧
      Filled after size (done ++ bytes) := by
  induction rounds generalizing rest done inpos out with
  | zero => omega
  | succ rounds ih =>
    by_cases more : rest = []
    · subst more
      refine ⟨out, [], ?_, by simp [unescapeChars], not_mem_nil, room, ?_⟩
      · rw [length_nil] at ends
        rw [unescapeLoop, if_neg (by omega)]
      · rw [append_nil]
        exact filled
    obtain ⟨count, bytes, middle, turn, least, most, fewer, clean, spelled, middleFilled⟩ :=
      unescape_turn_exact input rest done inpos size out here more nulFree filled room
    have left : (rest.drop count).length = rest.length - count := length_drop
    have behind : input.drop (inpos + count) = rest.drop count ++ [0] := by
      rw [← drop_drop, here, drop_append_of_le_length most]
    obtain ⟨after, others, loop, othersAre, othersClean, fits, afterFilled⟩ :=
      ih (rest.drop count) (done ++ bytes) (inpos + count) middle behind (by omega) (by omega)
        (fun member => nulFree (mem_of_mem_drop member)) middleFilled
        (by rw [length_append]; omega)
    refine ⟨after, bytes ++ others, ?_, by rw [spelled, othersAre], ?_, ?_, ?_⟩
    · rw [unescapeLoop, if_pos (by omega)]
      simp only [turn, loop, bind_eq_bind, bind_some]
    · rw [mem_append, not_or]
      exact ⟨clean, othersClean⟩
    · rw [length_append] at fits ⊢
      omega
    · rw [← append_assoc]
      exact afterFilled

theorem unescape_buffer_exact (fresh : Text) (nulFree : 0 ∉ input)
    (size : fresh.length = input.length + 1) :
    ∃ cells, unescapeBuffer (input ++ [0]) fresh = some cells ∧ cells.length = input.length + 1 ∧
      stringAt cells = some (unescapeChars input) := by
  have length : cstring (input ++ [0]) = input := by
    rw [cstring, takeWhile_append_of_pos]
    · simp
    intro byte member
    rw [decide_eq_true_eq]
    rintro rfl
    exact nulFree member
  have start : Filled ⟨fresh, 0⟩ (input.length + 1) [] := ⟨size, rfl, rfl⟩
  obtain ⟨out, bytes, loop, spelled, clean, fits, filled⟩ := unescape_loop_exact (input ++ [0])
    input.length (input.length + 1) input [] 0 (input.length + 1) ⟨fresh, 0⟩ rfl (by omega)
    (by omega) nulFree start (by rw [length_nil]; omega)
  rw [nil_append] at filled
  rw [length_nil, zero_add] at fits
  obtain ⟨cells, ended, afterFilled, tail⟩ := filled.write_nul fits
  refine ⟨cells, ?_, afterFilled.cells, ?_⟩
  · simp only [unescapeBuffer, length, loop, bind_eq_bind, bind_some, ended]
  have whole := take_append_drop bytes.length cells
  rw [tail] at whole
  have kept : cells.take bytes.length = bytes := afterFilled.start
  rw [kept] at whole
  rw [← whole, string_written bytes _ clean, spelled]

/-- Escaping and unescaping gives every string back, and unescaping any string at all reads
nothing behind its NUL and writes into as many bytes as the string has with it. -/
theorem unescape_safe_and_inverse (input : Text) (nulFree : 0 ∉ input) :
    (∀ fresh : Text, fresh.length = (escapeChars input).length + 1 →
      ∃ cells, unescapeBuffer (escapeChars input ++ [0]) fresh = some cells ∧
        stringAt cells = some input) ∧
      ∀ fresh : Text, fresh.length = input.length + 1 → ∃ cells,
        unescapeBuffer (input ++ [0]) fresh = some cells ∧ cells.length = input.length + 1 := by
  have printable : 0 ∉ escapeChars input := fun member =>
    absurd (escape_printable input 0 member) (by decide)
  constructor
  · intro fresh size
    obtain ⟨cells, done, _, string⟩ :=
      unescape_buffer_exact (escapeChars input) fresh printable size
    exact ⟨cells, done, by rw [string, unescape_escape input nulFree]⟩
  · intro fresh size
    obtain ⟨cells, done, kept, _⟩ := unescape_buffer_exact input fresh nulFree size
    exact ⟨cells, done, kept⟩

/-- A string that ends in the middle of an escape. -/
theorem cut_escape_safe :
    (∀ fresh : Text, fresh.length = (escapeChars [92, 52, 49]).length + 1 →
      ∃ cells, unescapeBuffer (escapeChars [92, 52, 49] ++ [0]) fresh = some cells ∧
        stringAt cells = some [92, 52, 49]) ∧
      ∀ fresh : Text, fresh.length = [92, 52, 49].length + 1 → ∃ cells,
        unescapeBuffer ([92, 52, 49] ++ [0]) fresh = some cells ∧
          cells.length = [92, 52, 49].length + 1 :=
  unescape_safe_and_inverse [92, 52, 49] (by decide)

end Pvpgn.Unescape
