import Pvpgn.TextUtil

/-!
The plain file driver for account attributes: one quoted line an attribute, with both sides escaped,
read back with `sscanf` and unescaped.
-/

namespace Pvpgn.FilePlain
open Stdio TextUtil List Option UInt8

structure Attr where
  key : Option Text
  val : Option Text
  dirty : Bool := false
  deriving DecidableEq

def Attr.clearDirty (attr : Attr) : Attr := { attr with dirty := false }

/-- `strncmp(left, right, count) == 0` -/
def samePrefix (count : Nat) (left right : Text) : Bool := left.take count = right.take count

def line (key val : Text) : Text := quote :: key ++ quote :: 61 :: quote :: val ++ [quote]

/-- What one attribute adds to the file: nothing when its key or value is `NULL`, or when the
escaped key passes for a default character. -/
def plainWriteAttr (attr : Attr) : Text :=
  match attr.key.map escapeChars, attr.val.map escapeChars with
  | some key, some val =>
    if samePrefix 20 (text "BNET\\CharacterDefault\\") key then []
    else line key val ++ [newline]
  | _, _ => []

def plainWriteAttrs (attributes : List Attr) : Text × List Attr :=
  (attributes.flatMap plainWriteAttr, attributes.map Attr.clearDirty)

/-- `"\"%[^\"]\" = \""` -/
def keyFormat : List Directive :=
  [.literal quote, .conversion (.scanset notQuote), .literal quote, .white, .literal 61, .white,
    .literal quote]

/-- `"\"%[^\"]\" = \"%[^\"]\""` -/
def entryFormat : List Directive := keyFormat ++ [.conversion (.scanset notQuote), .literal quote]

/-- `"\"%[^\"]\" = \"\""`, for an empty value. -/
def emptyFormat : List Directive := keyFormat ++ [.literal quote]

/-- The key and the value a line hands to the callback. -/
def plainReadLine (buff : Text) : Option (Text × Text) :=
  if buff = [] ∨ buff.head? = some 35 then none
  else if buff.length < 6 then none
  else match sscanf buff entryFormat with
    | [.string esckey, .string escval] => some (unescapeChars esckey, unescapeChars escval)
    | _ =>
      match sscanf buff emptyFormat with
      | [.string esckey] => some (unescapeChars esckey, unescapeChars [])
      | _ => none

/-- The calls of the callback, in order. -/
def plainReadAttrs (file : Text) : List (Text × Text) := (fileLines file).filterMap plainReadLine

def stored (pair : Text × Text) : Attr := { key := some pair.1, val := some pair.2 }

theorem escape_char_shape : ∀ value < 256,
    (escapeChar (ofNat value) = [ofNat value] ∧ ofNat value ≠ backslash) ∨
      (escapeChar (ofNat value)).head? = some backslash ∧ (escapeChar (ofNat value)).length ≠ 1 ∧
        (escapeChar (ofNat value))[1]? ≠ some 67 := by
  decide +kernel

theorem escape_char_cases (byte : UInt8) :
    (escapeChar byte = [byte] ∧ byte ≠ backslash) ∨
      ∃ next rest, escapeChar byte = backslash :: next :: rest ∧ next ≠ 67 := by
  have shape := escape_char_shape byte.toNat byte.toNat_lt
  rw [UInt8.ofNat_toNat] at shape
  refine shape.imp_right ?_
  rintro ⟨head, long, second⟩
  match found : escapeChar byte with
  | [] => simp [found] at head
  | [_] => simp [found] at long
  | first :: next :: rest =>
    simp only [found, head?_cons, some.injEq] at head
    exact ⟨next, rest, by rw [head], by simpa [found] using second⟩

theorem escape_no_backslash_c (before key : Text) (plain : backslash ∉ before) :
    ¬ before ++ [backslash, 67] <+: escapeChars key := by
  -- Induction on the bytes before the backslash: each is an escaped byte of the key on its own.
  induction before generalizing key with
  | nil =>
    intro starts
    cases key with
    | nil => simp [escapeChars] at starts
    | cons first tail =>
      rw [escapeChars, flatMap_cons] at starts
      rcases escape_char_cases first with ⟨shape, other⟩ | ⟨next, rest, shape, other⟩
      · rw [shape] at starts
        exact other (by simpa using (cons_prefix_cons.mp starts).1.symm)
      · rw [shape] at starts
        have second := (cons_prefix_cons.mp starts).2
        exact other (by simpa using (cons_prefix_cons.mp second).1.symm)
  | cons byte before ih =>
    intro starts
    have different : byte ≠ backslash := fun same => plain (by simp [same])
    have others : backslash ∉ before := fun member => plain (by simp [member])
    cases key with
    | nil => simp [escapeChars] at starts
    | cons first tail =>
      rw [escapeChars, flatMap_cons, cons_append] at starts
      rcases escape_char_cases first with ⟨shape, other⟩ | ⟨next, rest, shape, other⟩
      · rw [shape] at starts
        exact ih tail others (cons_prefix_cons.mp starts).2
      · rw [shape] at starts
        exact different (cons_prefix_cons.mp starts).1

variable (field key rest : Text) (format : List Directive) (val : Text)

/-- The skip of `plain_write_attrs` compares with an escaped key, where no backslash is followed by
a `C`: it never happens. -/
theorem escape_never_default :
    samePrefix 20 (text "BNET\\CharacterDefault\\") (escapeChars key) = false := by
  rw [samePrefix, decide_eq_false_iff_not]
  intro same
  have start : text "BNET" ++ [backslash, 67] <+: (text "BNET\\CharacterDefault\\").take 20 := by
    decide
  rw [same] at start
  exact escape_no_backslash_c (text "BNET") key (by decide)
    (start.trans (List.take_prefix 20 (escapeChars key)))

theorem plain_write_attr_stored (pair : Text × Text) :
    plainWriteAttr (stored pair) = line (escapeChars pair.1) (escapeChars pair.2) ++ [newline] := by
  simp [plainWriteAttr, stored, escape_never_default]

theorem convert_quoted (nonempty : field ≠ []) (quoteFree : quote ∉ field) :
    convert (.scanset notQuote) (field ++ quote :: rest) = some (.string field, quote :: rest) :=
  convert_scanset notQuote field (quote :: rest) nonempty (not_quote_run field quoteFree)
    (stops_at_quote rest)

theorem scan_key (nonempty : field ≠ []) (quoteFree : quote ∉ field) :
    scan (keyFormat ++ format) (quote :: field ++ quote :: rest) =
      (.string field :: (scan ([.white, .literal 61, .white, .literal quote] ++ format) rest).1,
        (scan ([.white, .literal 61, .white, .literal quote] ++ format) rest).2) := by
  have converted := convert_quoted field rest nonempty quoteFree
  simp only [keyFormat, cons_append, nil_append, scan_literal]
  rw [scan_conversion _ converted]
  simp only [scan_literal]

theorem scan_equals :
    scan ([.white, .literal 61, .white, .literal quote] ++ format) (61 :: quote :: rest) =
      scan format rest := by
  have before : Stops isspace (61 :: quote :: rest) := (stops_cons _ _ _).mpr (by decide)
  have after : Stops isspace (quote :: rest) := (stops_cons _ _ _).mpr (by decide)
  simp only [cons_append, nil_append]
  rw [scan_white _ _ before, scan_literal, scan_white _ _ after, scan_literal]

theorem scan_between (rest : Text) :
    (scan ([.white, .literal 61, .white, .literal quote] ++ format) rest).1 = [] ∨
      ∃ value, (scan ([.white, .literal 61, .white, .literal quote] ++ format) rest).1 =
        (scan format value).1 := by
  simp only [cons_append, nil_append, scan]
  generalize dropWhile isspace rest = atEquals
  cases atEquals with
  | nil => exact Or.inl rfl
  | cons first tail =>
    by_cases equals : first = 61
    · simp only [equals, if_true]
      generalize dropWhile isspace tail = atQuote
      cases atQuote with
      | nil => exact Or.inl rfl
      | cons second value =>
        by_cases opens : second = quote
        · exact Or.inr ⟨value, by simp [opens]⟩
        · exact Or.inl (by simp [opens])
    · exact Or.inl (by simp [equals])

theorem scan_value (value : Text) :
    (scan [.conversion (.scanset notQuote), .literal quote] value).1 = [] ∨
      ∃ field, (scan [.conversion (.scanset notQuote), .literal quote] value).1 =
        [.string field] := by
  have ending (rest : Text) : (scan [.literal quote] rest).1 = [] := by
    cases rest with
    | nil => rfl
    | cons byte tail => by_cases same : byte = quote <;> simp [scan, same]
  by_cases empty : value.takeWhile notQuote = []
  · exact Or.inl (by simp [scan, convert, empty])
  right
  refine ⟨value.takeWhile notQuote, ?_⟩
  have converted : convert (.scanset notQuote) value =
      some (.string (value.takeWhile notQuote), value.dropWhile notQuote) := by
    simp [convert, empty]
  rw [scan_conversion [.literal quote] converted]
  simp [ending]

theorem quoted_start :
    ¬(quote :: field ++ rest = [] ∨ (quote :: field ++ rest).head? = some 35) := by
  have different : quote ≠ 35 := by decide
  simp [different]

theorem plain_read_line_key (nonempty : field ≠ []) (quoteFree : quote ∉ field)
    (long : 4 ≤ rest.length) :
    ∃ value, plainReadLine (quote :: field ++ quote :: rest) =
      some (unescapeChars field, value) := by
  have length : ¬(quote :: field ++ quote :: rest).length < 6 := by
    simp only [cons_append, length_cons, length_append]
    omega
  have entry := scan_key field rest [.conversion (.scanset notQuote), .literal quote] nonempty
    quoteFree
  have empty := scan_key field rest [.literal quote] nonempty quoteFree
  have noValue : (scan ([.white, .literal 61, .white, .literal quote] ++ [.literal quote]) rest).1 =
      [] := by
    rcases scan_between [.literal quote] rest with none | ⟨value, same⟩
    · exact none
    rw [same]
    cases value with
    | nil => rfl
    | cons byte tail => by_cases closes : byte = quote <;> simp [scan, closes]
  rw [plainReadLine, if_neg (quoted_start _ _), if_neg length, sscanf, sscanf, entryFormat, emptyFormat, entry,
    empty, noValue]
  rcases scan_between [.conversion (.scanset notQuote), .literal quote] rest with none | ⟨at_, same⟩
  · rw [none]
    exact ⟨_, rfl⟩
  rw [same]
  rcases scan_value at_ with none | ⟨value, found⟩
  · rw [none]
    exact ⟨_, rfl⟩
  · rw [found]
    exact ⟨_, rfl⟩

theorem plain_read_line_value (value rest : Text) (keyNonempty : key ≠ [])
    (valueNonempty : value ≠ []) (keyFree : quote ∉ key) (valueFree : quote ∉ value) :
    plainReadLine (quote :: key ++ quote :: 61 :: quote :: value ++ quote :: rest) =
      some (unescapeChars key, unescapeChars value) := by
  have shape : quote :: key ++ quote :: 61 :: quote :: value ++ quote :: rest =
      quote :: key ++ quote :: 61 :: quote :: (value ++ quote :: rest) := by simp
  have keyLength := length_pos_iff.mpr keyNonempty
  have length : ¬(quote :: key ++ quote :: 61 :: quote :: (value ++ quote :: rest)).length < 6 := by
    simp only [cons_append, length_cons, length_append]
    omega
  have entry := scan_key key (61 :: quote :: (value ++ quote :: rest))
    [.conversion (.scanset notQuote), .literal quote] keyNonempty keyFree
  rw [scan_equals, scan_conversion _ (convert_quoted value rest valueNonempty valueFree)] at entry
  rw [shape, plainReadLine, if_neg (quoted_start _ _), if_neg length, sscanf, entryFormat, entry]
  simp

theorem plain_read_line_empty (nonempty : key ≠ []) (quoteFree : quote ∉ key) :
    plainReadLine (line key []) = some (unescapeChars key, []) := by
  have shape : line key [] = quote :: key ++ quote :: [61, quote, quote] := by simp [line]
  have keyLength := length_pos_iff.mpr nonempty
  have length : ¬(quote :: key ++ quote :: [61, quote, quote]).length < 6 := by
    simp only [cons_append, length_cons, length_append, length_nil]
    omega
  have entry := scan_key key [61, quote, quote] [.conversion (.scanset notQuote), .literal quote]
    nonempty quoteFree
  have empty := scan_key key [61, quote, quote] [.literal quote] nonempty quoteFree
  have failed : convert (.scanset notQuote) [quote] = none := by decide
  rw [scan_equals, scan_failed _ failed] at entry
  rw [scan_equals] at empty
  rw [shape, plainReadLine, if_neg (quoted_start _ _), if_neg length, sscanf, sscanf, entryFormat,
    emptyFormat, entry, empty]
  simp [unescapeChars]

theorem escape_ne_nil (input : Text) (nonempty : input ≠ []) : escapeChars input ≠ [] := by
  intro empty
  cases input with
  | nil => exact nonempty rfl
  | cons byte rest =>
    rw [escapeChars, flatMap_cons, append_eq_nil_iff] at empty
    rcases escape_char_cases byte with ⟨shape, _⟩ | ⟨next, tail, shape, _⟩ <;>
      simp [shape] at empty

theorem escape_up_to_quote (input : Text) (nulFree : 0 ∉ input) (quoted : quote ∈ input) :
    ∃ before after, quote ∉ escapeChars before ++ [backslash] ∧
      escapeChars input = escapeChars before ++ backslash :: quote :: escapeChars after ∧
      unescapeChars (escapeChars before ++ [backslash]) ≠ input := by
  obtain ⟨before, after, shape, fresh⟩ := eq_append_cons_of_mem quoted
  have scanned : quote ∉ escapeChars before ++ [backslash] := by
    simp only [mem_append, mem_singleton, not_or]
    exact ⟨escape_no_quote before fresh, by decide⟩
  refine ⟨before, after, scanned, by rw [shape, escape_at_quote], ?_⟩
  have beforeFree : 0 ∉ before := fun member => nulFree (by simp [shape, member])
  rw [unescape_escape_append before [backslash] beforeFree, shape]
  intro same
  have tails := append_cancel_left same
  exact absurd (List.cons.inj tails).1 (by decide)

theorem plain_line_round_trip (nonempty : key ≠ []) (keyNulFree : 0 ∉ key) (valNulFree : 0 ∉ val) :
    ∃ pair, plainReadLine (line (escapeChars key) (escapeChars val)) = some pair ∧
      (pair = (key, val) ↔ quote ∉ key ∧ quote ∉ val) := by
  by_cases keyQuoted : quote ∈ key
  · obtain ⟨before, after, scanned, shape, wrong⟩ := escape_up_to_quote key keyNulFree keyQuoted
    have written : line (escapeChars key) (escapeChars val) =
        quote :: (escapeChars before ++ [backslash]) ++ quote ::
          (escapeChars after ++ quote :: 61 :: quote :: escapeChars val ++ [quote]) := by
      simp [line, shape]
    obtain ⟨value, read⟩ := plain_read_line_key (escapeChars before ++ [backslash])
      (escapeChars after ++ quote :: 61 :: quote :: escapeChars val ++ [quote]) (by simp) scanned
      (by simp; omega)
    refine ⟨_, by rw [written, read], ?_⟩
    constructor
    · intro same
      exact absurd (congrArg Prod.fst same) wrong
    · intro free
      exact absurd keyQuoted free.1
  have keyField := escape_ne_nil key nonempty
  have keyFree := escape_no_quote key keyQuoted
  by_cases empty : val = []
  · subst empty
    refine ⟨_, plain_read_line_empty _ keyField keyFree, ?_⟩
    simp [unescape_escape key keyNulFree, keyQuoted]
  by_cases valQuoted : quote ∈ val
  · obtain ⟨before, after, scanned, shape, wrong⟩ := escape_up_to_quote val valNulFree valQuoted
    have written : line (escapeChars key) (escapeChars val) =
        quote :: escapeChars key ++ quote :: 61 :: quote :: (escapeChars before ++ [backslash]) ++
          quote :: (escapeChars after ++ [quote]) := by
      simp [line, shape]
    refine ⟨_, by rw [written, plain_read_line_value _ _ _ keyField (by simp) keyFree scanned], ?_⟩
    constructor
    · intro same
      exact absurd (congrArg Prod.snd same) wrong
    · intro free
      exact absurd valQuoted free.2
  · have valField := escape_ne_nil val empty
    have valFree := escape_no_quote val valQuoted
    refine ⟨_, plain_read_line_value (escapeChars key) (escapeChars val) [] keyField valField
      keyFree valFree, ?_⟩
    simp [unescape_escape key keyNulFree, unescape_escape val valNulFree, keyQuoted, valQuoted]

theorem line_plain : ∀ byte ∈ line (escapeChars key) (escapeChars val), Plain byte := by
  intro byte member
  have mark : Plain quote := ⟨by decide, by decide, by decide⟩
  have equals : Plain 61 := ⟨by decide, by decide, by decide⟩
  simp only [line, mem_append, mem_cons, not_mem_nil, or_false] at member
  rcases member with ((rfl | inKey) | rfl | rfl | rfl | inVal) | rfl
  · exact mark
  · exact plain_of_isprint byte (escape_printable key byte inKey)
  · exact mark
  · exact equals
  · exact mark
  · exact plain_of_isprint byte (escape_printable val byte inVal)
  · exact mark

theorem line_ends : ∀ byte ∈ (line key val).getLast?, byte ≠ backslash := by
  intro byte member
  simp only [line, getLast?_concat, mem_def, some.injEq] at member
  rw [← member]
  decide

theorem plain_file_lines (attrs : List (Text × Text)) :
    fileLines (plainWriteAttrs (attrs.map stored)).1 =
      attrs.map fun pair => line (escapeChars pair.1) (escapeChars pair.2) := by
  have file : (plainWriteAttrs (attrs.map stored)).1 =
      (attrs.map fun pair => line (escapeChars pair.1) (escapeChars pair.2)).flatMap
        (· ++ [newline]) := by
    simp only [plainWriteAttrs, flatMap_map, plain_write_attr_stored]
  rw [file]
  apply file_lines_plain
  · intro written member
    obtain ⟨pair, _, rfl⟩ := List.mem_map.mp member
    exact line_plain pair.1 pair.2
  · intro written member
    obtain ⟨pair, _, rfl⟩ := List.mem_map.mp member
    exact line_ends _ _

/-- The plain file driver returns the attributes it was given, in order, exactly when no key and no
value holds a quote: the scan sets of the reader stop at a quote although the writer escaped it. -/
theorem plain_round_trip_iff (attrs : List (Text × Text)) (nonempty : ∀ pair ∈ attrs, pair.1 ≠ [])
    (nulFree : ∀ pair ∈ attrs, 0 ∉ pair.1 ∧ 0 ∉ pair.2) :
    plainReadAttrs (plainWriteAttrs (attrs.map stored)).1 = attrs ↔
      ∀ pair ∈ attrs, quote ∉ pair.1 ∧ quote ∉ pair.2 := by
  rw [plainReadAttrs, plain_file_lines, filterMap_map]
  -- Induction on the attributes: each line gives exactly one pair.
  induction attrs with
  | nil => simp
  | cons pair rest ih =>
    obtain ⟨read, found, exact_⟩ := plain_line_round_trip pair.1 pair.2 (nonempty pair (by simp))
      (nulFree pair (by simp)).1 (nulFree pair (by simp)).2
    have others := ih (fun other member => nonempty other (by simp [member]))
      fun other member => nulFree other (by simp [member])
    rw [filterMap_cons_some (by exact found), List.cons.injEq, others, exact_, forall_mem_cons]

theorem plain_round_trip_iff_profile :
    plainReadAttrs (plainWriteAttrs ([(text "a\\b\t", []), (text "x", text "1 = \n#")].map
        stored)).1 = [(text "a\\b\t", []), (text "x", text "1 = \n#")] ↔
      ∀ pair ∈ [(text "a\\b\t", []), (text "x", text "1 = \n#")], quote ∉ pair.1 ∧ quote ∉ pair.2 :=
  plain_round_trip_iff [(text "a\\b\t", []), (text "x", text "1 = \n#")] (by decide) (by decide)

/-- A profile text with one quote comes back as a backslash. -/
theorem plain_round_trip_quote :
    plainReadAttrs (plainWriteAttrs ([(text "age", text "\"")].map stored)).1 =
      [(text "age", text "\\")] ∧
    plainReadAttrs (plainWriteAttrs ([(text "age", text "\"")].map stored)).1 ≠
      [(text "age", text "\"")] := by
  decide +kernel

end Pvpgn.FilePlain
