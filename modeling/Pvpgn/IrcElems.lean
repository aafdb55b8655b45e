import Pvpgn.TrackerFile

/-!
`irc_split_elems` cuts a list into its elements by writing NULs over separators, and gives pointers
to them. Rows of separators are counted once but cut one by one, so that the elements are the words
of the list only when no separator follows another. Pointers are positions; an access outside the
memory is `none`.
-/

namespace Pvpgn.IrcElems
open Stdio CheckedArray CharBuffer List Option Nat

def blank : UInt8 := 32

/-- The search of `strchr` in the cells from a pointer on: how far behind it the byte stands. -/
def searchCells (symbol : UInt8) : Text → Option (Option Nat)
  | [] => none
  | c :: rest =>
    if c = symbol then some (some 0)
    else if c = 0 then some none
    else (searchCells symbol rest).map fun found => found.map (· + 1)

def strchr (memory : Text) (start : Nat) (symbol : UInt8) : Option (Option Nat) :=
  (searchCells symbol (memory.drop start)).map fun found => found.map (start + ·)

def stringFrom (memory : Text) (start : Nat) : Option Text := stringAt (memory.drop start)

/-! `irc_split_elems` -/

/-- `while ((list[i+1]!='\0')&&(list[i]==separator)) i++;` on the cells from `list+i` on. -/
def skipRow (separator : UInt8) : Text → Option Text
  | c :: next :: rest =>
    if next ≠ 0 ∧ c = separator then skipRow separator (next :: rest)
    else some (c :: next :: rest)
  | _ => none

/-- The loop that counts separators, on the cells from `list+i` on. -/
def countSeparators (separator : UInt8) (ignoreblank : Bool) : Nat → Text → Option Nat
  | 0, _ => none
  | _ + 1, [] => none
  | fuel + 1, c :: rest =>
    if c = 0 then some 0
    else if c = separator then do
      let reached ← if ignoreblank then skipRow separator (c :: rest) else some (c :: rest)
      let count ← countSeparators separator ignoreblank fuel reached.tail
      some (count + 1)
    else countSeparators separator ignoreblank fuel rest

/-- `while ((*out[i]+1)==separator) out[i]++;` where `*out[i]+1` is the byte's value and one. -/
def advance (separator : UInt8) : Text → Nat → Option Nat
  | [], _ => none
  | c :: rest, out =>
    if c.toInt8.toInt + 1 = separator.toInt8.toInt then advance separator rest (out + 1)
    else some out

/-- The loop that cuts: so many more elements behind the one at `prev`. It has no result when a
separator is missing. -/
def cutElems (separator : UInt8) (ignoreblank : Bool) :
    Nat → Text → Nat → Option (Text × Option (List Nat))
  | 0, memory, _ => some (memory, some [])
  | left + 1, memory, prev => do
    let found ← strchr memory prev separator
    match found with
    | none => some (memory, none)
    | some out => do
      let out ← if ignoreblank then advance separator (memory.drop out) out else some out
      let memory ← writeAt memory out 0
      let (memory, rest) ← cutElems separator ignoreblank left memory (out + 1)
      some (memory, rest.map fun rest => (out + 1) :: rest)

/-- The elements with the terminating `NULL`; the last one is `NULL` too when it is ignored. -/
def terminate (ignored : Bool) (out : List Nat) : List (Option Nat) :=
  if ignored then out.dropLast.map some ++ [none, none] else out.map some ++ [none]

def ircSplitElems (memory : Text) (list : Nat) (separator : UInt8) (ignoreblank : Bool) :
    Option (Text × Option (List (Option Nat))) := do
  let count ← countSeparators separator ignoreblank (memory.length + 1) (memory.drop list)
  let (memory, out) ← cutElems separator ignoreblank count memory list
  match out with
  | none => some (memory, none)
  | some out => do
    let last ← readAt memory ((list :: out).getLast (cons_ne_nil list out))
    some (memory, some (terminate (ignoreblank && last == 0) (list :: out)))

def ircGetListelems (memory : Text) (list : Nat) : Option (Text × Option (List (Option Nat))) :=
  ircSplitElems memory list 44 false

def ircGetParamelems (memory : Text) (list : Nat) : Option (Text × Option (List (Option Nat))) :=
  ircSplitElems memory list blank true

/-- The maximal runs of other bytes than blanks. -/
def words (params : Text) : List Text := (params.splitOn blank).filter (· ≠ [])

/-! Searching and counting. -/

/-- The rows of blanks; inside a row its other blanks do not count. -/
def rows (inside : Bool) : Text → Nat
  | [] => 0
  | c :: rest =>
    if c = blank then (if inside then 0 else 1) + rows true rest else rows false rest

theorem search_absent (symbol : UInt8) (text behind : Text) (plain : 0 ∉ text)
    (absent : symbol ∉ text) (nonzero : symbol ≠ 0) :
    searchCells symbol (text ++ 0 :: behind) = some none := by
  induction text with
  | nil => simp [searchCells, Ne.symm nonzero]
  | cons c rest ih =>
    rw [mem_cons, not_or] at plain absent
    rw [cons_append, searchCells, if_neg (Ne.symm absent.1), if_neg (Ne.symm plain.1),
      ih plain.2 absent.2]
    rfl

theorem search_found (symbol : UInt8) (front behind : Text) (plain : 0 ∉ front)
    (absent : symbol ∉ front) :
    searchCells symbol (front ++ symbol :: behind) = some (some front.length) := by
  induction front with
  | nil => simp [searchCells]
  | cons c rest ih =>
    rw [mem_cons, not_or] at plain absent
    rw [cons_append, searchCells, if_neg (Ne.symm absent.1), if_neg (Ne.symm plain.1),
      ih plain.2 absent.2]
    rfl

variable (cuts : Nat) (front text params rest behind : Text)

theorem string_from (plain : 0 ∉ text) :
    stringFrom (front ++ (text ++ 0 :: behind)) front.length = some text := by
  rw [stringFrom, drop_left]
  exact string_written text behind plain

/-- A row is left at the byte behind it, or at its last blank when the string ends. -/
theorem skipRow_ends (plain : 0 ∉ rest) :
    ∃ reached left, skipRow blank (blank :: (rest ++ 0 :: behind)) =
        some (reached :: (left ++ 0 :: behind)) ∧
      left.length ≤ rest.length ∧ 0 ∉ left ∧ rows true rest = rows false left := by
  induction rest with
  | nil => exact ⟨blank, [], by simp [skipRow], le_refl 0, not_mem_nil, rfl⟩
  | cons c rest ih =>
    rw [mem_cons, not_or] at plain
    have turn : skipRow blank (blank :: (c :: rest ++ 0 :: behind)) =
        skipRow blank (c :: (rest ++ 0 :: behind)) := by
      rw [cons_append, skipRow, if_pos ⟨Ne.symm plain.1, rfl⟩]
    rw [turn]
    by_cases another : c = blank
    · obtain ⟨reached, left, found, shorter, clean, same⟩ := ih plain.2
      rw [another]
      refine ⟨reached, left, found, by rw [length_cons]; omega, clean, ?_⟩
      simpa [rows] using same
    · refine ⟨c, rest, ?_, by simp, plain.2, by simp [rows, another]⟩
      cases rest with
      | nil => simp [skipRow]
      | cons next tail => simp [skipRow, another]

theorem count_rows (fuel : Nat) (text behind : Text) (plain : 0 ∉ text)
    (enough : text.length < fuel) :
    countSeparators blank true fuel (text ++ 0 :: behind) = some (rows false text) := by
  induction fuel generalizing text with
  | zero => omega
  | succ fuel ih =>
    cases text with
    | nil => simp [countSeparators, rows]
    | cons c rest =>
      rw [mem_cons, not_or] at plain
      rw [length_cons] at enough
      rw [cons_append, countSeparators, if_neg (Ne.symm plain.1)]
      by_cases row : c = blank
      · obtain ⟨reached, left, found, shorter, clean, same⟩ := skipRow_ends rest behind plain.2
        have later := ih left clean (by omega)
        rw [if_pos row, if_pos rfl, row, found]
        simp only [bind_eq_bind, bind_some, tail_cons, later]
        simp [rows, same, add_comm]
      · rw [if_neg row, ih rest plain.2 (by omega)]
        simp [rows, row]

/-! Cutting. -/

def cutAt : Nat → Text → List Text
  | 0, text => [text]
  | cuts + 1, text =>
    text.takeWhile (· ≠ blank) :: cutAt cuts (text.dropWhile (· ≠ blank)).tail

theorem cutAt_ne_nil : cutAt cuts text ≠ [] := by
  cases cuts <;> simp [cutAt]

theorem before_blank {front : Text} (absent : blank ∉ front) :
    (front ++ blank :: rest).takeWhile (· ≠ blank) = front ∧
      (front ++ blank :: rest).dropWhile (· ≠ blank) = blank :: rest := by
  have all : ∀ c ∈ front, decide (c ≠ blank) = true := by
    intro c member
    have other : c ≠ blank := fun same => absent (same ▸ member)
    simpa using other
  rw [takeWhile_append_of_pos all, dropWhile_append_of_pos all]
  simp

theorem no_blank {text : Text} (absent : blank ∉ text) :
    text.takeWhile (· ≠ blank) = text ∧ text.dropWhile (· ≠ blank) = [] := by
  have all : ∀ c ∈ text, decide (c ≠ blank) = true := by
    intro c member
    have other : c ≠ blank := fun same => absent (same ▸ member)
    simpa using other
  exact ⟨takeWhile_eq_self_iff.mpr all, dropWhile_eq_nil_iff.mpr all⟩

/-- The character after a blank is not skipped: 33 is no blank. -/
theorem advance_blank (out : Nat) (rest : Text) : advance blank (blank :: rest) out = some out := by
  rw [advance, if_neg (by decide)]

theorem cutElems_pieces (plain : 0 ∉ text) (enough : cuts ≤ text.count blank) :
    ∃ after out, cutElems blank true cuts (front ++ (text ++ 0 :: behind)) front.length =
        some (front ++ (after ++ 0 :: behind), some out) ∧
      after.length = text.length ∧
      (front.length :: out).map (stringFrom (front ++ (after ++ 0 :: behind))) =
        (cutAt cuts text).map some := by
  induction cuts generalizing front text with
  | zero =>
    refine ⟨text, [], rfl, rfl, ?_⟩
    rw [map_singleton, string_from front text behind plain]
    rfl
  | succ cuts ih =>
    have present : blank ∈ text := count_pos_iff.mp (by omega)
    obtain ⟨piece, rest, rfl, absent⟩ := eq_append_cons_of_mem present
    rw [mem_append, mem_cons, not_or, not_or] at plain
    obtain ⟨cleanPiece, -, cleanRest⟩ := plain
    have fewer : cuts ≤ rest.count blank := by
      rw [count_append, count_cons_self, count_eq_zero.mpr absent] at enough
      omega
    obtain ⟨after, out, run, length, strings⟩ := ih (front ++ (piece ++ [0])) rest cleanRest fewer
    have found : strchr (front ++ (piece ++ blank :: rest ++ 0 :: behind)) front.length blank =
        some (some (front.length + piece.length)) := by
      rw [strchr, drop_left, append_assoc, cons_append,
        search_found blank piece _ cleanPiece absent]
      rfl
    have cell : (front ++ (piece ++ blank :: rest ++ 0 :: behind)).drop
        (front.length + piece.length) = blank :: (rest ++ 0 :: behind) := by
      rw [← append_assoc, ← append_assoc, ← length_append, append_assoc, drop_left, cons_append]
    have write : writeAt (front ++ (piece ++ blank :: rest ++ 0 :: behind))
        (front.length + piece.length) 0 =
        some (front ++ (piece ++ [0]) ++ (rest ++ 0 :: behind)) := by
      rw [write_inside _ _ _ (by simp only [length_append, length_cons]; omega)]
      simp
    have next : front.length + piece.length + 1 = (front ++ (piece ++ [0])).length := by
      simp only [length_append, length_singleton]
      omega
    have pieces := before_blank rest absent
    refine ⟨piece ++ 0 :: after, (front ++ (piece ++ [0])).length :: out, ?_, ?_, ?_⟩
    · simp only [cutElems, found, bind_eq_bind, bind_some, if_true, cell,
        advance_blank, write, next, run]
      simp
    · simp [length]
    have whole : front ++ (piece ++ 0 :: after ++ 0 :: behind) =
        front ++ (piece ++ [0]) ++ (after ++ 0 :: behind) := by simp
    rw [map_cons, whole, strings, cutAt, pieces.1, pieces.2, tail_cons, map_cons]
    congr 1
    rw [← whole, append_assoc, cons_append]
    exact string_from front piece _ cleanPiece

theorem cutAt_length : (cutAt cuts text).length = cuts + 1 := by
  induction cuts generalizing text with
  | zero => rfl
  | succ cuts ih => rw [cutAt, length_cons, ih]

theorem cutAt_total (enough : cuts ≤ text.count blank) :
    ((cutAt cuts text).map List.length).sum + cuts = text.length := by
  induction cuts generalizing text with
  | zero => simp [cutAt]
  | succ cuts ih =>
    have present : blank ∈ text := count_pos_iff.mp (by omega)
    obtain ⟨piece, rest, rfl, absent⟩ := eq_append_cons_of_mem present
    have fewer : cuts ≤ rest.count blank := by
      rw [count_append, count_cons_self, count_eq_zero.mpr absent] at enough
      omega
    have later := ih rest fewer
    have pieces := before_blank rest absent
    rw [cutAt, pieces.1, pieces.2, tail_cons, map_cons, sum_cons]
    simp only [length_append, length_cons]
    omega

/-! When the pieces are the words. -/

def dropBlankLast (pieces : List Text) : List Text :=
  if pieces.getLast? = some [] then pieces.dropLast else pieces

/-- The parameters as they are cut. -/
def cutParams (params : Text) : List Text := dropBlankLast (cutAt (rows false params) params)

def Single (text : Text) : Prop := text.IsChain fun left right => ¬(left = blank ∧ right = blank)

theorem dropBlankLast_cons (piece : Text) (pieces : List Text) (more : pieces ≠ []) :
    dropBlankLast (piece :: pieces) = piece :: dropBlankLast pieces := by
  rw [dropBlankLast, dropBlankLast, getLast?_cons_of_ne_nil more]
  by_cases ignored : pieces.getLast? = some []
  · rw [if_pos ignored, if_pos ignored, dropLast_cons_of_ne_nil more]
  · rw [if_neg ignored, if_neg ignored]

theorem rows_le (inside : Bool) (text : Text) : rows inside text ≤ text.count blank := by
  induction text generalizing inside with
  | nil => exact le_refl 0
  | cons c rest ih =>
    by_cases row : c = blank
    · subst row
      have later := ih true
      rw [rows, if_pos rfl, count_cons_self]
      split <;> omega
    · rw [rows, if_neg row, count_cons_of_ne row]
      exact ih false

theorem rows_single :
    (rows false text = text.count blank → Single text) ∧
      (rows true text = text.count blank → Single (blank :: text)) := by
  induction text with
  | nil => exact ⟨fun _ => .nil, fun _ => .singleton blank⟩
  | cons c rest ih =>
    by_cases row : c = blank
    · subst row
      have most := rows_le true rest
      simp only [rows, if_true, count_cons_self, Bool.false_eq_true, if_false]
      exact ⟨fun all => ih.2 (by omega), fun all => by omega⟩
    have chain (single : Single rest) : Single (c :: rest) ∧ Single (blank :: c :: rest) := by
      have first : Single (c :: rest) := by
        cases rest with
        | nil => exact .singleton c
        | cons next tail => exact .cons_cons (fun both => row both.1) single
      exact ⟨first, .cons_cons (fun both => row both.2) first⟩
    simp only [rows, if_neg row, count_cons_of_ne row]
    exact ⟨fun all => (chain (ih.1 all)).1, fun all => (chain (ih.1 all)).2⟩

theorem last_blank (fewer : cuts < text.count blank) :
    ∃ piece, (cutAt cuts text).getLast? = some piece ∧ blank ∈ piece := by
  induction cuts generalizing text with
  | zero => exact ⟨text, rfl, count_pos_iff.mp fewer⟩
  | succ cuts ih =>
    have present : blank ∈ text := count_pos_iff.mp (by omega)
    obtain ⟨front, rest, rfl, absent⟩ := eq_append_cons_of_mem present
    rw [count_append, count_cons_self, count_eq_zero.mpr absent] at fewer
    have pieces := before_blank rest absent
    rw [cutAt, pieces.2, tail_cons, getLast?_cons_of_ne_nil (cutAt_ne_nil cuts rest)]
    exact ih rest (by omega)

theorem word_plain (word : Text) (member : word ∈ words params) : blank ∉ word ∧ word ≠ [] := by
  obtain ⟨piece, nonempty⟩ := mem_filter.mp member
  exact ⟨TrackerFile.split_free blank params word piece, by simpa using nonempty⟩

theorem cutParams_single (same : cutParams params = words params) : Single (blank :: params) := by
  have all : rows false params = params.count blank := by
    by_contra fewer
    have most := rows_le false params
    obtain ⟨piece, last, spaced⟩ := last_blank (rows false params) params (by omega)
    have kept : piece ∈ cutParams params := by
      have nonempty : piece ≠ [] := ne_nil_of_mem spaced
      rw [cutParams, dropBlankLast, if_neg (by rw [last]; simpa using nonempty)]
      exact mem_of_getLast? last
    rw [same] at kept
    exact (word_plain params piece kept).1 spaced
  have single := (rows_single params).1 all
  cases params with
  | nil => exact .singleton blank
  | cons c rest =>
    refine .cons_cons (fun both => ?_) single
    obtain ⟨-, rfl⟩ := both
    have first : [] ∈ cutParams (blank :: rest) := by
      rw [cutParams, rows, if_pos rfl, if_neg (by decide), add_comm, cutAt,
        dropBlankLast_cons _ _ (cutAt_ne_nil _ _)]
      simp
    rw [same] at first
    exact (word_plain _ _ first).2 rfl

theorem rows_front (absent : blank ∉ front) : rows false (front ++ rest) = rows false rest := by
  induction front with
  | nil => rfl
  | cons c others ih =>
    rw [mem_cons, not_or] at absent
    rw [cons_append, rows, if_neg (Ne.symm absent.1), ih absent.2]

theorem words_cut (absent : blank ∉ front) (some_letter : front ≠ []) :
    words (front ++ blank :: rest) = front :: words rest := by
  rw [words, splitOn_append_cons_self_of_not_mem absent,
    filter_cons_of_pos (by simpa using some_letter)]
  rfl

theorem single_cutParams (single : Single (blank :: params)) : cutParams params = words params := by
  generalize size : params.length = length
  induction length using Nat.strong_induction_on generalizing params with
  | _ length ih =>
    have start : params.head? ≠ some blank := by
      cases params with
      | nil => simp
      | cons c rest =>
        intro first
        exact (isChain_cons_cons.mp single).1 ⟨rfl, by simpa using first⟩
    by_cases present : blank ∈ params
    · obtain ⟨front, rest, rfl, absent⟩ := eq_append_cons_of_mem present
      have some_letter : front ≠ [] := by
        rintro rfl
        exact start rfl
      have later : Single (blank :: rest) := by
        have whole : blank :: (front ++ blank :: rest) = blank :: front ++ blank :: rest := rfl
        rw [Single, whole] at single
        exact single.right_of_append
      have next := ih rest.length (by
        simp only [length_append, length_cons] at size
        omega) rest later rfl
      have rows_rest : rows true rest = rows false rest := by
        cases rest with
        | nil => rfl
        | cons c tail =>
          have other : c ≠ blank :=
            fun same => (isChain_cons_cons.mp later).1 ⟨rfl, same⟩
          rw [rows, rows, if_neg other, if_neg other]
      have pieces := before_blank rest absent
      rw [words_cut front rest absent some_letter, ← next, cutParams, rows_front front _ absent,
        rows, if_pos rfl, if_neg (by decide), rows_rest, Nat.add_comm, cutAt, pieces.1, pieces.2,
        tail_cons, dropBlankLast_cons _ _ (cutAt_ne_nil _ _)]
      rfl
    · have none : rows false params = 0 := by
        have most := rows_le false params
        rw [count_eq_zero.mpr present] at most
        omega
      rw [cutParams, none, cutAt, words, splitOn_eq_singleton present, dropBlankLast]
      by_cases empty : params = []
      · simp [empty]
      · simp [empty]

/-! The lengths of the elements. -/

/-- Rows of blanks need other characters between them. A string in which they take all the room
there is ends with a blank. -/
theorem rows_room :
    (2 * rows false text ≤ text.length + 1 ∧ 2 * rows true text ≤ text.length) ∧
      (2 * rows false text = text.length + 1 → (cutAt (rows false text) text).getLast? = some []) ∧
      (2 * rows true text = text.length → (cutAt (rows true text) text).getLast? = some []) := by
  induction text with
  | nil => exact ⟨by decide, by decide, fun _ => rfl⟩
  | cons c rest ih =>
    obtain ⟨⟨outer, inner⟩, outerEnd, innerEnd⟩ := ih
    by_cases row : c = blank
    · subst row
      simp only [rows, if_true, Bool.false_eq_true, if_false, length_cons]
      refine ⟨by omega, fun full => ?_, by omega⟩
      rw [add_comm, cutAt, getLast?_cons_of_ne_nil (cutAt_ne_nil _ _)]
      exact innerEnd (by omega)
    simp only [rows, if_neg row, length_cons]
    refine ⟨by omega, by omega, fun full => ?_⟩
    have last := outerEnd (by omega)
    obtain ⟨cuts, some_row⟩ : ∃ cuts, rows false rest = cuts + 1 := ⟨rows false rest - 1, by omega⟩
    rw [some_row, cutAt, getLast?_cons_of_ne_nil (cutAt_ne_nil _ _)] at last ⊢
    rw [dropWhile_cons_of_pos (by simpa using row)]
    exact last

theorem sum_quoted (pieces : List Text) : (pieces.map fun piece => piece.length + 3).sum =
    (pieces.map List.length).sum + 3 * pieces.length := by
  induction pieces with
  | nil => rfl
  | cons piece rest ih =>
    simp only [map_cons, sum_cons, length_cons, ih]
    omega

theorem cutParams_room (short : params.length ≤ 511) :
    ((cutParams params).map fun piece => piece.length + 3).sum ≤ 1024 := by
  obtain ⟨⟨most, -⟩, full, -⟩ := rows_room params
  have total := cutAt_total (rows false params) params (rows_le false params)
  have number := cutAt_length (rows false params) params
  rw [cutParams, dropBlankLast]
  by_cases ignored : (cutAt (rows false params) params).getLast? = some []
  · obtain ⟨pieces, parts⟩ := getLast?_eq_some_iff.mp ignored
    rw [parts, map_append, sum_append] at total
    rw [parts, length_append, length_singleton] at number
    rw [if_pos ignored, parts, dropLast_concat, sum_quoted]
    omega
  · have room : 2 * rows false params ≠ params.length + 1 := fun all => ignored (full all)
    rw [if_neg ignored, sum_quoted]
    omega

/-! The pointers. -/

theorem cell_at {memory : Text} {pointer : Nat} {piece : Text}
    (string : stringFrom memory pointer = some piece) :
    ∃ c, readAt memory pointer = some c ∧ (c = 0 ↔ piece = []) := by
  rw [stringFrom, stringAt] at string
  split at string
  · have cells := some_inj.mp string
    cases shape : memory.drop pointer with
    | nil => simp_all
    | cons c rest =>
      have read : readAt memory pointer = some c := by
        rw [readAt, ← head?_drop, shape]
        rfl
      refine ⟨c, read, ?_⟩
      rw [← cells, shape]
      by_cases zero : c = 0 <;> simp [zero]
  · simp at string

theorem elems_cut (plain : 0 ∉ params) :
    ∃ (after : Text) (pointers : List Nat) (more : List (Option Nat)),
      ircGetParamelems (front ++ (params ++ 0 :: behind)) front.length =
        some (front ++ (after ++ 0 :: behind), some (pointers.map some ++ none :: more)) ∧
      after.length = params.length ∧
      pointers.map (stringFrom (front ++ (after ++ 0 :: behind))) =
        (cutParams params).map some := by
  obtain ⟨after, out, run, length, strings⟩ := cutElems_pieces (rows false params) front params
    behind plain (rows_le false params)
  have counted : countSeparators blank true ((front ++ (params ++ 0 :: behind)).length + 1)
      ((front ++ (params ++ 0 :: behind)).drop front.length) = some (rows false params) := by
    rw [drop_left]
    exact count_rows _ params behind plain (by simp only [length_append]; omega)
  obtain ⟨pieces, piece, parts⟩ : ∃ pieces piece,
      cutAt (rows false params) params = pieces ++ [piece] :=
    ⟨_, _, (dropLast_concat_getLast (cutAt_ne_nil _ _)).symm⟩
  obtain ⟨pointers, pointer, all⟩ : ∃ pointers pointer,
      front.length :: out = pointers ++ [pointer] :=
    ⟨_, _, (dropLast_concat_getLast (cons_ne_nil _ _)).symm⟩
  rw [all, parts, map_append, map_append] at strings
  obtain ⟨fronts, lasts⟩ := append_inj' strings rfl
  have last : stringFrom (front ++ (after ++ 0 :: behind)) pointer = some piece := by
    simpa using lasts
  obtain ⟨c, read, zero⟩ := cell_at last
  have split : ircGetParamelems (front ++ (params ++ 0 :: behind)) front.length =
      some (front ++ (after ++ 0 :: behind),
        some (terminate (true && c == 0) (pointers ++ [pointer]))) := by
    simp only [ircGetParamelems, ircSplitElems, counted, run, bind_eq_bind, bind_some,
      all, getLast_concat, read]
  rw [split]
  by_cases ignored : c = 0
  · have empty := zero.mp ignored
    refine ⟨after, pointers, [none], ?_, length, ?_⟩
    · simp [terminate, ignored]
    · rw [cutParams, dropBlankLast, parts, empty, if_pos (by simp), dropLast_concat]
      exact fronts
  · have present : piece ≠ [] := fun empty => ignored (zero.mpr empty)
    refine ⟨after, pointers ++ [pointer], [], ?_, length, ?_⟩
    · simp [terminate, ignored]
    · rw [cutParams, dropBlankLast, parts, if_neg (by simpa using present), map_append,
        map_append, fronts]
      simp [last]

end Pvpgn.IrcElems
