import Mathlib.Algebra.Order.BigOperators.Group.List
import Mathlib.Data.List.DropRight
import Mathlib.Data.List.GetD
import Pvpgn.CharBuffer
import Pvpgn.Stdio

/-!
`replace_args` puts words of a command into the line of an alias. A reference is found by `sscanf`;
the text it stands for lies between two offsets. An access outside an array, and a number that does
not fit an `int`, is `none`.
-/

namespace Pvpgn.AliasArgs
open Stdio CheckedArray CharBuffer List Option Nat

def blank : UInt8 := 32
def tab : UInt8 := 9

def countFrom : Bool → Text → Nat
  | _, [] => 0
  | notWs, c :: rest =>
    let notWs := notWs && c ≠ blank
    if notWs = false ∧ c ≠ blank then countFrom true rest + 1 else countFrom notWs rest

def countArgs (text : Text) : Nat := countFrom true text + 1

def offsetsFrom : Bool → Nat → Text → List Nat
  | _, _, [] => []
  | notWs, position, c :: rest =>
    let notWs := notWs && c ≠ blank
    if notWs = false ∧ c ≠ blank then position :: offsetsFrom true (position + 1) rest
    else offsetsFrom notWs (position + 1) rest

def getOffsets (text : Text) : List Nat := 0 :: offsetsFrom true 0 text

inductive Reference where
  | whole
  | digit (arg : Nat)
  | braces (input : Text)
  | other
  deriving DecidableEq

inductive Piece where
  | plain (c : UInt8)
  | dollar (reference : Reference)
  deriving DecidableEq

/-- What the turns of the loop find; `inside` is the search for the closing brace. -/
def pieces : Bool → Text → List Piece
  | _, [] => []
  | true, c :: rest => pieces (c ≠ 125) rest
  | false, c :: rest =>
    if c ≠ 36 then .plain c :: pieces false rest
    else match rest with
      | [] => [.dollar .other]
      | symbol :: rest =>
        if symbol = 42 then .dollar .whole :: pieces false rest
        else if symbol = 123 then .dollar (.braces rest) :: pieces true rest
        else if isdigit symbol then .dollar (.digit (symbol.toNat - 48)) :: pieces false rest
        else .dollar .other :: pieces false rest

/-- `%d`: the number and what is behind it, or no number. -/
def scanInt (input : Text) : Option (Option (Int × Text)) :=
  match integer 10 input with
  | none => some none
  | some (value, rest) =>
    if -2 ^ 31 ≤ value ∧ value < 2 ^ 31 then some (some (value, rest)) else none

/-- `{%d-%d}`, which need not be closed, and if that does not match `{%d%c`. -/
def braceArgs (numargs : Int) (input : Text) : Option (Option (Int × Int)) := do
  match ← scanInt input with
  | none => some none
  | some (_, []) => some none
  | some (arg, symbol :: rest) =>
    match ← if symbol = 45 then scanInt rest else some none with
    | some (second, _) => some (some (arg, second))
    | none =>
      if symbol = 125 then
        if 0 ≤ arg then some (some (arg, arg))
        else if arg = -2 ^ 31 then none
        else some (some (0, -arg))
      else if symbol = 45 then some (some (arg, numargs - 1))
      else some none

def readOffset (offsets : List Nat) (index : Int) : Option Nat :=
  if 0 ≤ index then readAt offsets index.toNat else none

/-- `off1` and `off2`, unless the turn ends before they are used. Behind any other symbol both are
where the last copy ended, and nothing is copied. -/
def offsetsOf (offsets : List Nat) (numargs : Int) (text : Text) :
    Reference → Option (Option (Nat × Nat))
  | .whole => (readOffset offsets 0).map fun off1 => some (off1, text.length)
  | .digit arg =>
    if numargs ≤ arg then some none
    else (readOffset offsets arg).map fun off1 => some (off1,
      off1 + ((text.drop off1).takeWhile fun c => c ≠ blank && c ≠ tab).length)
  | .braces input => do
    match ← braceArgs numargs input with
    | none => some none
    | some (arg1, arg2) =>
      let arg2 := if numargs ≤ arg2 then numargs - 1 else arg2
      if arg2 < arg1 then some none
      else
        let off1 ← readOffset offsets arg1
        if arg2 + 1 = numargs then some (some (off1, text.length))
        else
          let off2 ← readOffset offsets (arg2 + 1)
          some (some (off1, off2 - 1))
  | .other => some (some (0, 0))

structure Out where
  cells : Text
  outpos : Nat
  size : Nat

def fresh (memory : Nat → UInt8) (size : Nat) : Text := (range size).map memory

/-- The new output, into which the old one is moved and the text between the offsets is copied. -/
def insertText (memory : Nat → UInt8) (text : Text) (off1 off2 : Nat) (out : Out) : Option Out :=
  let size := (out.size + (off2 + 2 ^ 32 - off1) + 1) % 2 ^ 32
  if out.outpos ≤ out.cells.length ∧ out.outpos ≤ size ∧ off2 ≤ text.length then
    (putAll ⟨out.cells.take out.outpos ++ (fresh memory size).drop out.outpos, out.outpos⟩
      ((text.take off2).drop off1)).map fun buffer => ⟨buffer.cells, buffer.position, size⟩
  else none

def turn (memory : Nat → UInt8) (offsets : List Nat) (numargs : Int) (text : Text) (out : Out) :
    Piece → Option Out
  | .plain c => (writeAt out.cells out.outpos c).map fun cells =>
    { out with cells, outpos := out.outpos + 1 }
  | .dollar reference => do
    match ← offsetsOf offsets numargs text reference with
    | none => some out
    | some (off1, off2) => insertText memory text off1 off2 out

def replaceArgs (memory : Nat → UInt8) (template : Text) (offsets : List Nat) (numargs : Int)
    (text : Text) : Option Text := do
  let out ← (pieces false template).foldlM (turn memory offsets numargs text)
    ⟨template ++ [0], 0, template.length⟩
  writeAt out.cells out.outpos 0

/-! What the references stand for. -/

def lastArg (text : Text) (arg : Int) : Int := min arg (countArgs text - 1)

def wordStart (text : Text) (arg : Int) : Nat := (getOffsets text).getD arg.toNat 0

def wordEnd (text : Text) (arg : Int) : Nat :=
  if arg + 1 = countArgs text then text.length else wordStart text (arg + 1) - 1

/-- The words of a range with what follows them. -/
def spaced (text : Text) (first last : Int) : Text :=
  (text.take (wordEnd text last)).drop (wordStart text first)

def Reference.value (text : Text) : Reference → Text
  | .whole => text
  | .digit arg =>
    if arg < countArgs text then
      (text.drop (wordStart text arg)).takeWhile fun c => c ≠ blank && c ≠ tab
    else []
  | .braces input =>
    ((braceArgs (countArgs text) input).join.map fun args =>
      if 0 ≤ args.1 ∧ args.1 ≤ lastArg text args.2 then
        (spaced text args.1 (lastArg text args.2)).rdropWhile (· = blank)
      else []).getD []
  | .other => []

def Piece.value (text : Text) : Piece → Text
  | .plain c => [c]
  | .dollar reference => reference.value text

def Replaces (template text : Text) : Prop :=
  ∀ memory, ∃ out,
    replaceArgs memory template (getOffsets text) (countArgs text) text = some out ∧
      stringAt out = some ((pieces false template).flatMap (Piece.value text))

/-- The numbers fit an `int`; and a range that is not empty starts with no negative number, and its
last word is followed by one blank, or by none at the end of the text. -/
def Suits (text : Text) : Piece → Prop
  | .dollar (.braces input) => ∃ args, braceArgs (countArgs text) input = some args ∧
      ∀ first second, args = some (first, second) → first ≤ lastArg text second →
        0 ≤ first ∧ (spaced text first (lastArg text second)).getLast? ≠ some blank
  | _ => True

/-! The offsets. -/

theorem offsets_length (notWs : Bool) (position : Nat) (text : Text) :
    (offsetsFrom notWs position text).length = countFrom notWs text := by
  induction text generalizing notWs position with
  | nil => rfl
  | cons c rest ih =>
    simp only [offsetsFrom, countFrom]
    split
    · rw [length_cons, ih]
    · exact ih _ _

theorem get_offsets_length (text : Text) : (getOffsets text).length = countArgs text := by
  rw [getOffsets, length_cons, offsets_length, countArgs]

theorem offsets_inside (notWs : Bool) (position : Nat) (text : Text) :
    (offsetsFrom notWs position text).Pairwise (· < ·) ∧
      ∀ offset ∈ offsetsFrom notWs position text, position ≤ offset ∧
        (notWs = true → position < offset) ∧ offset < position + text.length := by
  induction text generalizing notWs position with
  | nil => simp [offsetsFrom]
  | cons c rest ih =>
    simp only [offsetsFrom, length_cons]
    split
    · rename_i starts
      obtain ⟨ordered, inside⟩ := ih true (position + 1)
      rw [pairwise_cons, forall_mem_cons]
      refine ⟨⟨fun offset member => by have := inside offset member; omega, ordered⟩,
        ⟨le_refl _, fun word => ?_, by omega⟩, fun offset member => ?_⟩
      · rw [word, Bool.true_and, decide_eq_false_iff_not] at starts
        exact absurd starts.2 starts.1
      · have := inside offset member
        omega
    · obtain ⟨ordered, inside⟩ := ih (notWs && decide (c ≠ blank)) (position + 1)
      refine ⟨ordered, fun offset member => ?_⟩
      have := inside offset member
      omega

theorem get_offsets_ordered (text : Text) : (getOffsets text).Pairwise (· < ·) := by
  obtain ⟨ordered, inside⟩ := offsets_inside true 0 text
  exact pairwise_cons.mpr ⟨fun offset member => (inside offset member).2.1 rfl, ordered⟩

theorem read_offset {text : Text} {arg : Int} (first : 0 ≤ arg) (last : arg < countArgs text) :
    readOffset (getOffsets text) arg = some (wordStart text arg) := by
  have inside : arg.toNat < (getOffsets text).length := by
    rw [get_offsets_length]
    omega
  rw [readOffset, if_pos first, read_inside _ _ inside, wordStart, getD_eq_getElem _ _ inside]

theorem start_inside (text : Text) (arg : Int) (first : 0 ≤ arg) (last : arg < countArgs text) :
    wordStart text arg ≤ text.length := by
  have inside : arg.toNat < (getOffsets text).length := by
    rw [get_offsets_length]
    omega
  rw [wordStart, getD_eq_getElem _ _ inside]
  rcases mem_cons.mp (getElem_mem inside) with zero | later
  · rw [zero]
    exact zero_le _
  · have := (offsets_inside true 0 text).2 _ later
    omega

theorem start_before (text : Text) (left right : Int) (first : 0 ≤ left) (less : left < right)
    (last : right < countArgs text) : wordStart text left < wordStart text right := by
  have count := get_offsets_length text
  rw [wordStart, wordStart, getD_eq_getElem _ _ (by omega), getD_eq_getElem _ _ (by omega)]
  exact pairwise_iff_getElem.mp (get_offsets_ordered text) _ _ _ _ (by omega)

/-! What a reference copies. -/

def copied (text : Text) (found : Option (Nat × Nat)) : Text :=
  found.elim [] fun offsets => (text.take offsets.2).drop offsets.1

def Inside (text : Text) (found : Option (Nat × Nat)) : Prop :=
  ∀ off1 off2, found = some (off1, off2) → off1 ≤ off2 ∧ off2 ≤ text.length

structure Found (text : Text) (reference : Reference) (found : Option (Nat × Nat)) : Prop where
  offsets : offsetsOf (getOffsets text) (countArgs text) text reference = some found
  inside : Inside text found
  value : reference.value text <+: copied text found
  suits : Suits text (.dollar reference) ↔ reference.value text = copied text found

variable {found : Option (Nat × Nat)}

theorem Found.exact {text : Text} {reference : Reference}
    (offsets : offsetsOf (getOffsets text) (countArgs text) text reference = some found)
    (inside : Inside text found) (value : reference.value text = copied text found)
    (suits : Suits text (.dollar reference)) : Found text reference found :=
  ⟨offsets, inside, value ▸ prefix_refl _, iff_of_true suits value⟩

theorem nothing_inside (text : Text) : Inside text none := fun _ _ found => nomatch found

theorem some_inside {text : Text} {off1 off2 : Nat} (order : off1 ≤ off2)
    (inside : off2 ≤ text.length) : Inside text (some (off1, off2)) := by
  rintro _ _ ⟨⟩
  exact ⟨order, inside⟩

theorem digit_found (text : Text) (arg : Nat) : ∃ found, Found text (.digit arg) found := by
  by_cases beyond : countArgs text ≤ arg
  · refine ⟨none, Found.exact ?_ (nothing_inside text) ?_ trivial⟩
    · rw [offsetsOf, if_pos (by omega)]
    · rw [Reference.value, if_neg (by omega)]
      rfl
  have start := start_inside text arg (by omega) (by omega)
  set word := (text.drop (wordStart text arg)).takeWhile fun c => c ≠ blank && c ≠ tab with is
  have length : word.length ≤ text.length - wordStart text arg := by
    rw [← length_drop]
    exact (takeWhile_sublist _).length_le
  refine ⟨some (wordStart text arg, wordStart text arg + word.length), Found.exact ?_
    (some_inside (Nat.le_add_right _ _) (by omega)) ?_ trivial⟩
  · rw [offsetsOf, if_neg (by omega), read_offset (by omega) (by omega), map_some, is]
  · rw [Reference.value, if_pos (by omega), copied, elim_some, drop_take, Nat.add_sub_cancel_left]
    exact prefix_iff_eq_take.mp (List.takeWhile_prefix _)

theorem braces_found (text : Text) (input : Text) :
    (offsetsOf (getOffsets text) (countArgs text) text (.braces input) = none ∧
        ¬Suits text (.dollar (.braces input))) ∨
      ∃ found, Found text (.braces input) found := by
  cases parsed : braceArgs (countArgs text) input with
  | none =>
    refine Or.inl ⟨by rw [offsetsOf, parsed]; rfl, ?_⟩
    rintro ⟨args, also, -⟩
    rw [parsed] at also
    cases also
  | some args =>
    cases args with
    | none =>
      refine Or.inr ⟨none, Found.exact (by rw [offsetsOf, parsed]; rfl) (nothing_inside text)
        (by rw [Reference.value, parsed]; rfl) ⟨none, parsed, fun _ _ some => nomatch some⟩⟩
    | some args =>
      obtain ⟨first, second⟩ := args
      have clamp : (if (countArgs text : Int) ≤ second then (countArgs text : Int) - 1
          else second) = lastArg text second := by
        rw [lastArg]
        split <;> omega
      have least : lastArg text second < countArgs text := by
        omega
      have offsets : offsetsOf (getOffsets text) (countArgs text) text (.braces input) =
          if lastArg text second < first then some none
          else (readOffset (getOffsets text) first).bind fun off1 =>
            if lastArg text second + 1 = countArgs text then some (some (off1, text.length))
            else (readOffset (getOffsets text) (lastArg text second + 1)).bind fun off2 =>
              some (some (off1, off2 - 1)) := by
        rw [offsetsOf, parsed, ← clamp]
        rfl
      have value : Reference.value text (.braces input) =
          if 0 ≤ first ∧ first ≤ lastArg text second then
            (spaced text first (lastArg text second)).rdropWhile (· = blank)
          else [] := by
        rw [Reference.value, parsed]
        rfl
      have suits : Suits text (.dollar (.braces input)) ↔ (first ≤ lastArg text second →
          0 ≤ first ∧ (spaced text first (lastArg text second)).getLast? ≠ some blank) := by
        rw [Suits, parsed]
        simp
      generalize lastArg text second = last at offsets value suits least
      by_cases empty : last < first
      · refine Or.inr ⟨none, Found.exact (offsets.trans (if_pos empty)) (nothing_inside text)
          (value.trans (if_neg (by omega))) (suits.mpr fun order => absurd empty (by omega))⟩
      rw [if_neg empty] at offsets
      by_cases negative : first < 0
      · refine Or.inl ⟨?_, fun holds => ?_⟩
        · rw [offsets, readOffset, if_neg (by omega)]
          rfl
        · have := (suits.mp holds (by omega)).1
          omega
      refine Or.inr ⟨some (wordStart text first, wordEnd text last), ?_, ?_, ?_, ?_⟩
      · rw [offsets, read_offset (by omega) (by omega), bind_some, wordEnd]
        split
        · rfl
        · rw [read_offset (by omega) (by omega), bind_some]
      · rw [wordEnd]
        split
        · exact some_inside (start_inside _ _ (by omega) (by omega)) (le_refl _)
        have before := start_before text first (last + 1) (by omega)
          (by omega) (by omega)
        have inside := start_inside text (last + 1) (by omega) (by omega)
        exact some_inside (by omega) (by omega)
      · rw [value, if_pos (by omega)]
        exact rdropWhile_prefix _ _
      · rw [value, if_pos (by omega), suits]
        change _ ↔ rdropWhile _ (spaced text first last) = spaced text first last
        rw [rdropWhile_eq_self_iff]
        refine ⟨fun holds present ends => (holds (by omega)).2 ?_,
          fun holds _ => ⟨by omega, fun ends => ?_⟩⟩
        · rw [getLast?_eq_some_getLast present, of_decide_eq_true ends]
        · have present := ne_nil_of_mem (mem_of_getLast? ends)
          rw [getLast?_eq_some_getLast present, Option.some.injEq] at ends
          exact holds present (decide_eq_true ends)

theorem reference_found (text : Text) (reference : Reference) :
    (offsetsOf (getOffsets text) (countArgs text) text reference = none ∧
        ¬Suits text (.dollar reference)) ∨
      ∃ found, Found text reference found := by
  cases reference with
  | whole =>
    refine Or.inr ⟨some (0, text.length), Found.exact ?_
      (some_inside (zero_le _) (le_refl _)) ?_ trivial⟩
    · rfl
    · simp [Reference.value, copied]
  | digit arg => exact Or.inr (digit_found text arg)
  | braces input => exact braces_found text input
  | other =>
    exact Or.inr ⟨some (0, 0), Found.exact rfl (some_inside (le_refl _) (zero_le _))
      rfl trivial⟩

/-! The output. -/

structure Holds (text : Text) (out : Out) (done : Text) (left : Nat) : Prop where
  start : out.cells.take out.outpos = done
  outpos : out.outpos = done.length
  room : out.outpos + left < out.cells.length
  counted : out.outpos + left ≤ out.size
  bounded : out.size + left * (text.length + 1) < 2 ^ 32

variable {memory : Nat → UInt8} {done : Text} {left : Nat} {out : Out}

theorem plain_written {offsets : List Nat} {numargs : Int} {text : Text}
    (holds : Holds text out done (left + 1)) (c : UInt8) :
    ∃ after, turn memory offsets numargs text out (.plain c) = some after ∧
      Holds text after (done ++ [c]) left := by
  obtain ⟨start, outpos, room, counted, bounded⟩ := holds
  have inside : out.outpos < out.cells.length := by omega
  refine ⟨⟨out.cells.set out.outpos c, out.outpos + 1, out.size⟩,
    by rw [turn, write_inside _ _ _ inside, map_some], ⟨?_, ?_, ?_, ?_, ?_⟩⟩
  · rw [take_add_one, take_set_of_le (le_refl _), start, getElem?_set_self inside]
    rfl
  · rw [length_append, ← outpos, length_singleton]
  · change out.outpos + 1 + left < (out.cells.set out.outpos c).length
    rw [length_set]
    omega
  · change out.outpos + 1 + left ≤ out.size
    omega
  · rw [add_one_mul] at bounded
    change out.size + left * (text.length + 1) < 2 ^ 32
    omega

theorem dollar_written {text : Text} (holds : Holds text out done (left + 1))
    {reference : Reference} (is : Found text reference found) :
    ∃ after, turn memory (getOffsets text) (countArgs text) text out (.dollar reference) =
        some after ∧ Holds text after (done ++ copied text found) left := by
  obtain ⟨start, outpos, room, counted, bounded⟩ := holds
  rw [add_one_mul] at bounded
  rw [turn, is.offsets]
  cases found with
  | none =>
    refine ⟨out, rfl, ⟨?_, ?_, by omega, by omega, by omega⟩⟩
    · simpa [copied] using start
    · simpa [copied] using outpos
  | some offsets =>
    obtain ⟨off1, off2⟩ := offsets
    obtain ⟨order, inside⟩ := is.inside off1 off2 rfl
    have size : (out.size + (off2 + 2 ^ 32 - off1) + 1) % 2 ^ 32 =
        out.size + (off2 - off1) + 1 := by
      rw [show out.size + (off2 + 2 ^ 32 - off1) + 1 =
        out.size + (off2 - off1) + 1 + 2 ^ 32 by omega, add_mod_right]
      exact mod_eq_of_lt (by omega)
    have length : (copied text (some (off1, off2))).length = off2 - off1 := by
      simp only [copied, elim_some, length_drop, length_take]
      omega
    set moved := out.cells.take out.outpos ++
      (fresh memory (out.size + (off2 - off1) + 1)).drop out.outpos with movedIs
    have movedLength : moved.length = out.size + (off2 - off1) + 1 := by
      simp only [movedIs, fresh, length_append, length_take, length_drop, length_map, length_range]
      omega
    have kept : moved.take out.outpos = done := by
      rw [movedIs, take_left' (by rw [length_take]; omega), start]
    have written := put_all moved (copied text (some (off1, off2))) out.outpos
      (by rw [length, movedLength]; omega)
    have both : (done ++ copied text (some (off1, off2))).length = out.outpos + (off2 - off1) := by
      rw [length_append, length, outpos]
    refine ⟨⟨done ++ copied text (some (off1, off2)) ++ moved.drop (out.outpos + (off2 - off1)),
      out.outpos + (off2 - off1), out.size + (off2 - off1) + 1⟩, ?_,
      ⟨take_left' both, both.symm, ?_, ?_, ?_⟩⟩
    · change insertText memory text off1 off2 out = _
      rw [insertText, size, if_pos ⟨by omega, by omega, inside⟩]
      change (putAll ⟨moved, out.outpos⟩ (copied text (some (off1, off2)))).map _ = _
      rw [written, kept, length]
      rfl
    · change out.outpos + (off2 - off1) + left < List.length _
      rw [length_append, both, length_drop, movedLength]
      omega
    · change out.outpos + (off2 - off1) + left ≤ out.size + (off2 - off1) + 1
      omega
    · change out.size + (off2 - off1) + 1 + left * (text.length + 1) < 2 ^ 32
      omega

def Piece.copied (text : Text) : Piece → Option Text
  | .plain c => some [c]
  | .dollar reference => (offsetsOf (getOffsets text) (countArgs text) text reference).map
      (AliasArgs.copied text)

theorem piece_cases (text : Text) (piece : Piece) :
    (piece.copied text = none ∧ ¬Suits text piece) ∨
      ∃ bytes, piece.copied text = some bytes ∧ piece.value text <+: bytes ∧
        (Suits text piece ↔ piece.value text = bytes) := by
  cases piece with
  | plain c => exact Or.inr ⟨[c], rfl, prefix_refl _, iff_of_true trivial rfl⟩
  | dollar reference =>
    rcases reference_found text reference with ⟨fault, unsuited⟩ | ⟨found, is⟩
    · exact Or.inl ⟨by rw [Piece.copied, fault]; rfl, unsuited⟩
    · exact Or.inr ⟨_, by rw [Piece.copied, is.offsets, map_some], is.value, is.suits⟩

variable {piece : Piece}

theorem piece_written (memory : Nat → UInt8) {text : Text} (holds : Holds text out done (left + 1))
    {bytes : Text} (copies : piece.copied text = some bytes) :
    ∃ after, turn memory (getOffsets text) (countArgs text) text out piece = some after ∧
      Holds text after (done ++ bytes) left := by
  cases piece with
  | plain c =>
    cases copies
    exact plain_written holds c
  | dollar reference =>
    rcases reference_found text reference with ⟨fault, -⟩ | ⟨found, is⟩
    · rw [Piece.copied, fault] at copies
      cases copies
    · rw [Piece.copied, is.offsets] at copies
      cases copies
      exact dollar_written holds is

theorem piece_faults {text : Text} (fault : piece.copied text = none) (out : Out) :
    turn memory (getOffsets text) (countArgs text) text out piece = none := by
  cases piece with
  | plain c => cases fault
  | dollar reference =>
    rw [turn, map_eq_none_iff.mp fault]
    rfl

theorem run_written (memory : Nat → UInt8) {text : Text} (list : List Piece)
    (copies : ∀ piece ∈ list, piece.copied text ≠ none) (out : Out) (done : Text)
    (holds : Holds text out done list.length) :
    ∃ after, list.foldlM (turn memory (getOffsets text) (countArgs text) text) out = some after ∧
      Holds text after (done ++ list.flatMap fun piece => (piece.copied text).getD []) 0 := by
  induction list generalizing out done with
  | nil => exact ⟨out, rfl, by simpa using holds⟩
  | cons piece rest ih =>
    rw [forall_mem_cons] at copies
    obtain ⟨bytes, is⟩ := ne_none_iff_exists'.mp copies.1
    obtain ⟨middle, steps, holds⟩ := piece_written memory holds is
    obtain ⟨after, runs, holds⟩ := ih copies.2 middle _ holds
    refine ⟨after, by rw [foldlM_cons, steps]; exact runs, ?_⟩
    rwa [flatMap_cons, is, getD_some, ← append_assoc]

theorem run_faults {text : Text} (list : List Piece) (member : piece ∈ list)
    (fault : piece.copied text = none) (out : Out) :
    list.foldlM (turn memory (getOffsets text) (countArgs text) text) out = none := by
  induction list generalizing out with
  | nil => cases member
  | cons first rest ih =>
    rw [foldlM_cons]
    rcases mem_cons.mp member with rfl | later
    · rw [piece_faults fault]
      rfl
    · cases turn memory (getOffsets text) (countArgs text) text out first with
      | none => rfl
      | some out => exact ih later out

theorem pieces_read (inside : Bool) (template : Text) :
    (pieces inside template).length ≤ template.length ∧
      ∀ c, Piece.plain c ∈ pieces inside template → c ∈ template := by
  fun_induction pieces inside template with
  | case1 => simp
  | case2 c rest ih =>
    exact ⟨le_succ_of_le ih.1, fun d member => mem_cons_of_mem _ (ih.2 d member)⟩
  | case3 c rest plain ih =>
    refine ⟨succ_le_succ ih.1, fun d member => ?_⟩
    rcases mem_cons.mp member with same | later
    · cases same
      exact mem_cons_self
    · exact mem_cons_of_mem _ (ih.2 d later)
  | case4 => simp
  | case5 | case6 | case7 | case8 =>
    rename_i ih
    refine ⟨by simpa using le_succ_of_le ih.1, fun d member => ?_⟩
    rcases mem_cons.mp member with same | later
    · cases same
    · exact mem_cons_of_mem _ (mem_cons_of_mem _ (ih.2 d later))

theorem copied_plain {template text : Text} (plainTemplate : 0 ∉ template) (plainText : 0 ∉ text) :
    0 ∉ (pieces false template).flatMap fun piece => (piece.copied text).getD [] := by
  rw [mem_flatMap]
  rintro ⟨piece, member, zero⟩
  cases piece with
  | plain c =>
    obtain rfl := mem_singleton.mp zero
    exact plainTemplate ((pieces_read false template).2 _ member)
  | dollar reference =>
    rw [Piece.copied] at zero
    rcases reference_found text reference with ⟨fault, -⟩ | ⟨found, is⟩
    · simp [fault] at zero
    rw [is.offsets] at zero
    cases found with
    | none => cases zero
    | some offsets => exact plainText (mem_of_mem_take (mem_of_mem_drop zero))

theorem flat_map_pieces {list : List Piece} {left right : Piece → Text}
    (shorter : ∀ piece ∈ list, left piece <+: right piece)
    (same : (list.flatMap left).length = (list.flatMap right).length) :
    ∀ piece ∈ list, left piece = right piece := by
  have totals (rest : List Piece) (all : ∀ piece ∈ rest, left piece <+: right piece) :
      (rest.flatMap left).length ≤ (rest.flatMap right).length := by
    rw [length_flatMap, length_flatMap]
    exact sum_le_sum fun piece member => (all piece member).length_le
  induction list with
  | nil => simp
  | cons piece rest ih =>
    rw [forall_mem_cons] at shorter ⊢
    simp only [flatMap_cons, length_append] at same
    have first := shorter.1.length_le
    have others := totals rest shorter.2
    exact ⟨shorter.1.eq_of_length (by omega), ih shorter.2 (by omega)⟩

/-- The references are replaced by their values exactly in the lines whose ranges suit the text. -/
theorem references_replaced {template text : Text} (plainTemplate : 0 ∉ template)
    (plainText : 0 ∉ text) (sized : template.length * (text.length + 2) < 2 ^ 32) :
    Replaces template text ↔ ∀ piece ∈ pieces false template, Suits text piece := by
  have written (copies : ∀ piece ∈ pieces false template, piece.copied text ≠ none) (memory) :
      ∃ out, replaceArgs memory template (getOffsets text) (countArgs text) text = some out ∧
        stringAt out = some ((pieces false template).flatMap fun piece =>
          (piece.copied text).getD []) := by
    have fewer := (pieces_read false template).1
    obtain ⟨after, runs, holds⟩ := run_written memory (pieces false template) copies
      ⟨template ++ [0], 0, template.length⟩ [] ⟨rfl, rfl, by simp; omega, by simpa using fewer, by
        have most := mul_le_mul_right (text.length + 1) fewer
        have split : template.length * (text.length + 2) =
          template.length + template.length * (text.length + 1) := by ring
        change template.length + _ < _
        omega⟩
    refine ⟨after.cells.set after.outpos 0, ?_, ?_⟩
    · rw [replaceArgs, runs]
      exact write_inside _ _ _ holds.room
    · have inside : after.outpos < after.cells.length := holds.room
      rw [set_eq_take_append_cons_drop, if_pos inside, holds.start, nil_append]
      exact string_written _ _ (copied_plain plainTemplate plainText)
  constructor
  · intro replaces
    have copies : ∀ piece ∈ pieces false template, piece.copied text ≠ none := by
      intro piece member fault
      obtain ⟨out, result, -⟩ := replaces fun _ => 0
      rw [replaceArgs, run_faults _ member fault] at result
      cases result
    obtain ⟨out, result, is⟩ := written copies fun _ => 0
    obtain ⟨_, also, value⟩ := replaces fun _ => 0
    obtain rfl := Option.some.inj (result.symm.trans also)
    have same := congrArg List.length (Option.some.inj (value.symm.trans is))
    intro piece member
    have equal := flat_map_pieces (fun piece member => ?_) same piece member
    · rcases piece_cases text piece with ⟨fault, -⟩ | ⟨bytes, copied, -, suits⟩
      · exact absurd fault (copies piece member)
      · rw [copied] at equal
        exact suits.mpr equal
    · rcases piece_cases text piece with ⟨fault, -⟩ | ⟨bytes, copied, shorter, -⟩
      · exact absurd fault (copies piece member)
      · rw [copied]
        exact shorter
  · intro suits memory
    have values : ∀ piece ∈ pieces false template, piece.copied text = some (piece.value text) := by
      intro piece member
      rcases piece_cases text piece with ⟨-, unsuited⟩ | ⟨bytes, copied, -, exact_iff⟩
      · exact absurd (suits piece member) unsuited
      · rw [copied, exact_iff.mp (suits piece member)]
    obtain ⟨out, result, is⟩ := written (fun piece member => by simp [values piece member]) memory
    refine ⟨out, result, is.trans (congrArg some ?_)⟩
    exact flatMap_congr fun piece member => by rw [values piece member, getD_some]

theorem references_replaced_example : Replaces (text "/me $\x7b1\x7d") (text "/x a") := by
  refine (references_replaced (by decide +kernel) (by decide +kernel) (by decide +kernel)).mpr ?_
  have parsed : pieces false (text "/me $\x7b1\x7d") =
      [.plain 47, .plain 109, .plain 101, .plain 32, .dollar (.braces (text "1\x7d"))] := by
    decide +kernel
  have last : Suits (text "/x a") (.dollar (.braces (text "1\x7d"))) := by
    refine ⟨some (1, 1), by decide +kernel, fun first second same _ => ?_⟩
    cases same
    decide +kernel
  rw [parsed]
  simpa [Suits] using last

/-- The minus sign in front belongs to the number, and the range starts at the offset with index
-1. -/
theorem negative_start_outside :
    replaceArgs (fun _ => 0) (text "$\x7b-1-\x7d") (getOffsets (text "/x a")) 2 (text "/x a") = none ∧
      ¬Replaces (text "$\x7b-1-\x7d") (text "/x a") := by
  have outside : replaceArgs (fun _ => 0) (text "$\x7b-1-\x7d") (getOffsets (text "/x a")) 2
      (text "/x a") = none := by decide +kernel
  refine ⟨outside, fun replaces => ?_⟩
  obtain ⟨out, result, -⟩ := replaces fun _ => 0
  cases result

end Pvpgn.AliasArgs
