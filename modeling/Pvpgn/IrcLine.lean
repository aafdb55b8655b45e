import Pvpgn.IrcElems

/-!
How `handle_irc_common_line` takes an IRC line apart: in a copy of the line NULs are written behind
the prefix, the command and each parameter, and the parts are pointers into the copy. Pointers are
positions; an access outside the copy or an array is `none`.
-/

namespace Pvpgn.IrcLine
open Stdio CheckedArray CharBuffer IrcElems List Option

/-- `MAX_IRC_MESSAGE_LEN` -/
def maxIrcMessageLen : Nat := 512

def colon : UInt8 := 58

/-! `handle_irc_common_line` -/

/-- The copy of the line, the pointers into it, and the text for the log. -/
structure Outcome where
  line : Text
  prefixp : Option Nat
  command : Nat
  params : Option (List (Option Nat))
  text : Option Nat
  numparams : Nat
  paramtemp : Text

/-- `for (numparams=0;params[numparams];numparams++);` -/
def countParams : List (Option Nat) → Option Nat
  | [] => none
  | none :: _ => some 0
  | some _ :: rest => (countParams rest).map (· + 1)

/-- `strcat` in an array of that size. -/
def strcat (size : Nat) (content more : Text) : Option Text :=
  if content.length + more.length + 1 ≤ size then some (content ++ more) else none

/-- One parameter in quotes, behind a blank unless it is the first. -/
def printParam (first : Bool) (param paramtemp : Text) : Option Text := do
  let paramtemp ← if first then some paramtemp
    else strcat (maxIrcMessageLen * 2) paramtemp [blank]
  let paramtemp ← strcat (maxIrcMessageLen * 2) paramtemp [34]
  let paramtemp ← strcat (maxIrcMessageLen * 2) paramtemp param
  strcat (maxIrcMessageLen * 2) paramtemp [34]

def printParams (line : Text) : List (Option Nat) → Bool → Text → Option Text
  | [], _, _ => none
  | none :: _, _, paramtemp => some paramtemp
  | some param :: rest, first, paramtemp => do
    let param ← stringFrom line param
    let paramtemp ← printParam first param paramtemp
    printParams line rest false paramtemp

def logParams (line : Text) (prefixp : Option Nat) (command : Nat)
    (params : Option (List (Option Nat))) (text : Option Nat) : Option Outcome :=
  match params with
  | none => some ⟨line, prefixp, command, none, text, 0, []⟩
  | some params => do
    let numparams ← countParams params
    let paramtemp ← if 0 < numparams then printParams line params true [] else some []
    some ⟨line, prefixp, command, some params, text, numparams, paramtemp⟩

/-- Where a blank before a colon stands in the cells from `tempparams` on. -/
def searchText : Text → Option (Option Nat)
  | [] => none
  | c :: rest =>
    if c = 0 then some none
    else do
      let next ← rest.head?
      if c = blank ∧ next = colon then some (some 0)
      else (searchText rest).map fun found => found.map (· + 1)

def splitParams (line : Text) (prefixp : Option Nat) (command tempparams : Nat) :
    Option Outcome := do
  let found ← searchText (line.drop tempparams)
  let line ← match found with
    | none => some line
    | some i => writeAt line (tempparams + i) 0
  let (line, params) ← ircGetParamelems line tempparams
  logParams line prefixp command params (found.map fun i => tempparams + i + 2)

def splitCommand (line : Text) (prefixp : Option Nat) (command : Nat) : Option Outcome := do
  let found ← strchr line command blank
  match found with
  | none => logParams line prefixp command none none
  | some cut => do
    let line ← writeAt line cut 0
    let c ← readAt line (cut + 1)
    if c = colon then logParams line prefixp command none (some (cut + 2))
    else splitParams line prefixp command (cut + 1)

/-- The split of a line, `some none` when -1 is returned. What is done with it follows. -/
def handleIrcCommonLine (ircline : Text) : Option (Option Outcome) :=
  if ircline = [] then some none
  else do
    let line := ircline.take maxIrcMessageLen ++ [0]
    let first ← readAt line 0
    if first = colon then do
      let found ← strchr line 0 blank
      match found with
      | none => some none
      | some cut => do
        let line ← writeAt line cut 0
        (splitCommand line (some 0) (cut + 1)).map some
    else (splitCommand line none 0).map some

/-! What a line is: `[:prefix] command [params] [:text]`. -/

structure Message where
  prefixText : Option Text
  command : Text
  params : List Text
  text : Option Text

def beforeText : Text → Text
  | [] => []
  | c :: rest => if c = blank ∧ rest.head? = some colon then [] else c :: beforeText rest

def afterText : Text → Option Text
  | [] => none
  | c :: rest => if c = blank ∧ rest.head? = some colon then some rest.tail else afterText rest

def behindPrefix (line : Text) : Text :=
  if line.head? = some colon then (line.dropWhile (· ≠ blank)).tail else line

def behindCommand (line : Text) : Text := (behindPrefix line).dropWhile (· ≠ blank)

def message (line : Text) : Option Message :=
  if line = [] ∨ (line.head? = some colon ∧ blank ∉ line) then none
  else some {
    prefixText := if line.head? = some colon then some (line.takeWhile (· ≠ blank)) else none
    command := (behindPrefix line).takeWhile (· ≠ blank)
    params := words (beforeText (behindCommand line))
    text := afterText (behindCommand line) }

/-- The pointers are into the copy of the line, to the parts of the message, and those to the
parameters are followed by `NULL`. -/
structure Splits (line : Text) (message : Message) (outcome : Outcome) : Prop where
  copied : outcome.line.length = line.length + 1
  prefixText : outcome.prefixp.map (stringFrom outcome.line) = message.prefixText.map some
  command : stringFrom outcome.line outcome.command = some message.command
  params : ((outcome.params.getD []).take outcome.numparams).map
    (fun param => param.bind (stringFrom outcome.line)) = message.params.map some
  ended : ∀ params, outcome.params = some params → params[outcome.numparams]? = some none
  text : outcome.text.map (stringFrom outcome.line) = message.text.map some

/-- The line is refused or split right, without an access outside the copy or `paramtemp`. -/
def SplitsRight (line : Text) : Prop :=
  ∃ result, handleIrcCommonLine line = some result ∧ Option.Rel (Splits line) (message line) result

/-- Between the command and the text no blank follows a blank. -/
def SinglySpaced (line : Text) : Prop :=
  (beforeText (behindCommand line)).IsChain fun left right => ¬(left = blank ∧ right = blank)

instance (line : Text) : Decidable (SinglySpaced line) :=
  inferInstanceAs (Decidable (List.IsChain _ _))

/-! The room in `paramtemp`. -/

theorem strcat_room (content more : Text) (room : content.length + more.length ≤ 1023) :
    strcat (maxIrcMessageLen * 2) content more = some (content ++ more) :=
  if_pos (Nat.succ_le_succ room)

theorem quote_fits (param paramtemp : Text) (room : paramtemp.length + param.length + 2 ≤ 1023) :
    ((strcat (maxIrcMessageLen * 2) paramtemp [34]).bind fun paramtemp =>
      (strcat (maxIrcMessageLen * 2) paramtemp param).bind fun paramtemp =>
        strcat (maxIrcMessageLen * 2) paramtemp [34]) =
      some (paramtemp ++ [34] ++ param ++ [34]) := by
  rw [strcat_room paramtemp [34] (by simp; omega), bind_some,
    strcat_room _ param (by simp; omega), bind_some, strcat_room _ [34] (by simp; omega)]

theorem printParam_fits (first : Bool) (param paramtemp : Text)
    (room : paramtemp.length + param.length + 3 ≤ 1023 + if first then 1 else 0) :
    ∃ printed, printParam first param paramtemp = some printed ∧
      printed.length + (if first then 1 else 0) = paramtemp.length + param.length + 3 := by
  cases first with
  | false =>
    simp only [Bool.false_eq_true, if_false, Nat.add_zero] at room ⊢
    refine ⟨paramtemp ++ [blank] ++ [34] ++ param ++ [34], ?_, by simp; omega⟩
    have quoted := quote_fits param (paramtemp ++ [blank]) (by simp; omega)
    rw [printParam, if_neg (by decide), strcat_room paramtemp [blank] (by simp; omega)]
    exact quoted
  | true =>
    simp only [if_true] at room ⊢
    exact ⟨paramtemp ++ [34] ++ param ++ [34], quote_fits param paramtemp (by omega),
      by simp; omega⟩

variable (front line command : Text) (pointers : List Nat) (params : Text)
  (more : List (Option Nat))

theorem printParams_fits (pieces : List Text) (first : Bool) (paramtemp : Text)
    (strings : pointers.map (stringFrom line) = pieces.map some)
    (room : paramtemp.length + (pieces.map fun piece => piece.length + 3).sum ≤
      1023 + if first then 1 else 0) :
    ∃ printed, printParams line (pointers.map some ++ none :: more) first paramtemp =
      some printed := by
  induction pointers generalizing pieces first paramtemp with
  | nil => exact ⟨paramtemp, rfl⟩
  | cons pointer rest ih =>
    cases pieces with
    | nil => simp at strings
    | cons piece others =>
      obtain ⟨read, later⟩ := List.cons.inj strings
      simp only [map_cons, sum_cons] at room
      obtain ⟨printed, done, length⟩ := printParam_fits first piece paramtemp (by omega)
      obtain ⟨last, run⟩ := ih others false printed later (by
        omega)
      refine ⟨last, ?_⟩
      simp only [map_cons, cons_append, printParams, read, done, bind_eq_bind, bind_some]
      exact run

theorem count_pointers :
    countParams (pointers.map some ++ none :: more) = some pointers.length := by
  induction pointers with
  | nil => rfl
  | cons pointer rest ih => simp [countParams, ih]

/-! The split of a line. -/

theorem text_found (plain : 0 ∉ params) :
    (afterText params = none ∧ beforeText params = params ∧
      searchText (params ++ [0]) = some none) ∨
    ∃ rest, afterText params = some rest ∧ params = beforeText params ++ blank :: colon :: rest ∧
      searchText (params ++ [0]) = some (some (beforeText params).length) := by
  induction params with
  | nil => exact .inl ⟨rfl, rfl, rfl⟩
  | cons c rest ih =>
    rw [mem_cons, not_or] at plain
    obtain ⟨next, tail, shape⟩ : ∃ next tail, rest ++ [0] = next :: tail := by
      cases rest with
      | nil => exact ⟨0, [], rfl⟩
      | cons next tail => exact ⟨next, tail ++ [0], rfl⟩
    have same : next = colon ↔ rest.head? = some colon := by
      cases rest with
      | nil =>
        obtain ⟨rfl, -⟩ := List.cons.inj shape
        simp [colon]
      | cons other others =>
        obtain ⟨rfl, -⟩ := List.cons.inj shape
        simp
    have turn : searchText (c :: rest ++ [0]) = if c = blank ∧ rest.head? = some colon
        then some (some 0)
        else (searchText (rest ++ [0])).map fun found => found.map (· + 1) := by
      rw [cons_append, searchText, if_neg (Ne.symm plain.1), shape, head?_cons,
        bind_eq_bind, bind_some, ← shape]
      simp only [same]
    rw [turn, beforeText, afterText]
    by_cases here : c = blank ∧ rest.head? = some colon
    · obtain ⟨others, parts⟩ := head?_eq_some_iff.mp here.2
      simp only [if_pos here]
      exact .inr ⟨rest.tail, rfl, by simp [here.1, parts], rfl⟩
    · simp only [if_neg here]
      rcases ih plain.2 with ⟨none, whole, found⟩ | ⟨others, some_text, parts, found⟩
      · exact .inl ⟨none, by rw [whole], by rw [found]; rfl⟩
      · exact .inr ⟨others, some_text, by rw [cons_append, ← parts], by rw [found]; rfl⟩

/-- The parameters of what stands between the command and the text. -/
def regionParams (region : Text) : List Text := if region = [] then [] else cutParams region.tail

structure CommandSplit (front text : Text) (prefixp : Option Nat) (o : Outcome) : Prop where
  kept : ∃ after, o.line = front ++ after ∧ after.length = text.length + 1
  prefixp : o.prefixp = prefixp
  command : stringFrom o.line o.command = some (text.takeWhile (· ≠ blank))
  params : ((o.params.getD []).take o.numparams).map
    (fun param => param.bind (stringFrom o.line)) =
      (regionParams (beforeText (text.dropWhile (· ≠ blank)))).map some
  ended : ∀ params, o.params = some params → params[o.numparams]? = some none
  text : o.text.map (stringFrom o.line) = (afterText (text.dropWhile (· ≠ blank))).map some

variable (prefixp : Option Nat)

theorem logged (command : Nat) (text : Option Nat) (pointers : List Nat) (more : List (Option Nat))
    (params : Text) (short : params.length ≤ 511)
    (strings : pointers.map (stringFrom line) = (cutParams params).map some) :
    ∃ printed, logParams line prefixp command (some (pointers.map some ++ none :: more)) text =
      some ⟨line, prefixp, command, some (pointers.map some ++ none :: more), text,
        pointers.length, printed⟩ := by
  have room := cutParams_room params short
  obtain ⟨printed, run⟩ := printParams_fits line pointers more (cutParams params) true [] strings
    (by simp only [length_nil, if_true]; omega)
  by_cases some_param : 0 < pointers.length
  · refine ⟨printed, ?_⟩
    simp only [logParams, count_pointers, bind_eq_bind, bind_some, if_pos some_param, run]
  · refine ⟨[], ?_⟩
    simp only [logParams, count_pointers, bind_eq_bind, bind_some, if_neg some_param]

theorem taken_params :
    ((pointers.map some ++ none :: more).take pointers.length).map
        (fun param => param.bind (stringFrom line)) = pointers.map (stringFrom line) := by
  rw [take_left' (by simp), List.map_map]
  rfl

theorem params_split (behind : Text) (prefixp : Option Nat) (command : Nat) (text : Option Nat)
    (plain : 0 ∉ params) (short : params.length ≤ 511) :
    ∃ after o, ((ircGetParamelems (front ++ (params ++ 0 :: behind)) front.length).bind fun out =>
        logParams out.1 prefixp command out.2 text) = some o ∧
      o.line = front ++ (after ++ 0 :: behind) ∧ after.length = params.length ∧
      o.prefixp = prefixp ∧ o.command = command ∧ o.text = text ∧
      ((o.params.getD []).take o.numparams).map (fun param => param.bind (stringFrom o.line)) =
        (cutParams params).map some ∧
      ∀ params, o.params = some params → params[o.numparams]? = some none := by
  obtain ⟨after, pointers, more, run, length, strings⟩ := elems_cut front params behind plain
  obtain ⟨printed, log⟩ := logged _ prefixp command text pointers more params short strings
  refine ⟨after, _, by rw [run, bind_some]; exact log, rfl, length, rfl, rfl, rfl, ?_, ?_⟩
  · rw [getD_some, taken_params, strings]
  · rintro _ ⟨rfl⟩
    rw [getElem?_append_right (by simp), length_map, Nat.sub_self]
    rfl

theorem write_cut (text behind : Text) (c : UInt8) :
    writeAt (front ++ (text ++ c :: behind)) (front.length + text.length) 0 =
      some (front ++ (text ++ 0 :: behind)) := by
  rw [write_inside _ _ _ (by simp only [length_append, length_cons]; omega)]
  simp

theorem strchr_found (text behind : Text) (plain : 0 ∉ text) (absent : blank ∉ text) :
    strchr (front ++ (text ++ blank :: behind)) front.length blank =
      some (some (front.length + text.length)) := by
  rw [strchr, drop_left, search_found blank text behind plain absent]
  rfl

theorem strchr_absent (text behind : Text) (plain : 0 ∉ text) (absent : blank ∉ text) :
    strchr (front ++ (text ++ 0 :: behind)) front.length blank = some none := by
  rw [strchr, drop_left, search_absent blank text behind plain absent (by decide)]
  rfl

theorem string_behind {line : Text} {pointer : Nat} (text behind : Text) (plain : 0 ∉ text)
    (shape : line = front ++ (text ++ 0 :: behind)) (place : pointer = front.length) :
    stringFrom line pointer = some text := by
  rw [shape, place]
  exact string_from front text behind plain

theorem command_alone (plain : 0 ∉ command) (absent : blank ∉ command) :
    ∃ o, splitCommand (front ++ (command ++ [0])) prefixp front.length = some o ∧
      CommandSplit front command prefixp o := by
  have parts := no_blank absent
  refine ⟨⟨front ++ (command ++ [0]), prefixp, front.length, none, none, 0, []⟩, ?_,
    ⟨command ++ [0], rfl, by simp⟩, rfl, ?_, ?_, by simp, ?_⟩
  · rw [splitCommand, strchr_absent front command [] plain absent]
    rfl
  · rw [parts.1]
    exact string_from front command [] plain
  · rw [parts.2]
    rfl
  · rw [parts.2]
    rfl

theorem command_text (text : Text) (prefixp : Option Nat)
    (plain : 0 ∉ command ++ blank :: colon :: text) (absent : blank ∉ command) :
    ∃ o, splitCommand (front ++ (command ++ blank :: colon :: text ++ [0])) prefixp front.length =
        some o ∧ CommandSplit front (command ++ blank :: colon :: text) prefixp o := by
  simp only [mem_append, mem_cons, not_or] at plain
  obtain ⟨cleanCommand, -, -, cleanText⟩ := plain
  have parts := before_blank (colon :: text) absent
  refine ⟨⟨front ++ (command ++ 0 :: (colon :: text ++ [0])), prefixp, front.length, none,
    some (front.length + command.length + 2), 0, []⟩, ?_,
    ⟨command ++ 0 :: (colon :: text ++ [0]), rfl, by simp; omega⟩, rfl, ?_, ?_, by simp, ?_⟩
  · have next : readAt (front ++ (command ++ 0 :: (colon :: text ++ [0])))
        (front.length + command.length + 1) = some colon := by
      have shape : front ++ (command ++ 0 :: (colon :: text ++ [0])) =
          front ++ (command ++ [0]) ++ (colon :: text ++ [0]) := by simp
      have place : front.length + command.length + 1 = (front ++ (command ++ [0])).length := by
        simp only [length_append, length_singleton]
        omega
      rw [readAt, shape, place, getElem?_append_right (Nat.le_refl _), Nat.sub_self]
      rfl
    rw [append_assoc, cons_append, splitCommand,
      strchr_found front command _ cleanCommand absent, bind_eq_bind, bind_some]
    simp only [write_cut, bind_eq_bind, bind_some, next, if_true, logParams]
  · rw [parts.1]
    exact string_from front command _ cleanCommand
  · rw [parts.2, beforeText, if_pos ⟨rfl, rfl⟩]
    rfl
  · rw [parts.2, afterText, if_pos ⟨rfl, rfl⟩, map_some, map_some, tail_cons]
    congr 1
    exact string_behind (front ++ (command ++ [0, colon])) text [] cleanText (by simp)
      (by simp; omega)

theorem command_params (plain : 0 ∉ command ++ blank :: params) (absent : blank ∉ command)
    (other : params.head? ≠ some colon) (short : params.length ≤ 511) :
    ∃ o, splitCommand (front ++ (command ++ blank :: params ++ [0])) prefixp front.length =
        some o ∧ CommandSplit front (command ++ blank :: params) prefixp o := by
  simp only [mem_append, mem_cons, not_or] at plain
  obtain ⟨cleanCommand, -, cleanParams⟩ := plain
  have parts := before_blank params absent
  have place : front.length + command.length + 1 = (front ++ (command ++ [0])).length := by
    simp only [length_append, length_singleton]
    omega
  have shape (tail : Text) :
      front ++ (command ++ 0 :: tail) = front ++ (command ++ [0]) ++ tail := by
    simp
  have start : splitCommand (front ++ (command ++ blank :: params ++ [0])) prefixp front.length =
      splitParams (front ++ (command ++ [0]) ++ (params ++ [0])) prefixp front.length
        (front ++ (command ++ [0])).length := by
    have next : ∃ c, readAt (front ++ (command ++ [0]) ++ (params ++ [0]))
        (front ++ (command ++ [0])).length = some c ∧ c ≠ colon := by
      rw [readAt, getElem?_append_right (Nat.le_refl _), Nat.sub_self]
      cases params with
      | nil => exact ⟨0, rfl, by decide⟩
      | cons c rest => exact ⟨c, rfl, by simpa using other⟩
    obtain ⟨c, read, plainer⟩ := next
    rw [append_assoc, cons_append, splitCommand,
      strchr_found front command _ cleanCommand absent, bind_eq_bind, bind_some]
    simp only [write_cut, bind_eq_bind, bind_some]
    rw [shape (params ++ [0]), place]
    simp only [read, bind_some, if_neg plainer]
  have region : beforeText (blank :: params) = blank :: beforeText params ∧
      afterText (blank :: params) = afterText params := by
    rw [beforeText, afterText, if_neg (fun both => other both.2), if_neg fun both => other both.2]
    exact ⟨rfl, rfl⟩
  have search : searchText ((front ++ (command ++ [0]) ++ (params ++ [0])).drop
      (front ++ (command ++ [0])).length) = searchText (params ++ [0]) := by
    rw [drop_left]
  rw [start]
  rcases text_found params cleanParams with
    ⟨no_text, whole, found⟩ | ⟨text, some_text, split, found⟩
  · obtain ⟨after, o, run, line, length, same, own, texts, strings, ended⟩ := params_split
      (front ++ (command ++ [0])) params [] prefixp front.length none cleanParams short
    refine ⟨o, ?_,
      ⟨command ++ 0 :: (after ++ [0]), by rw [line]; simp, by simp [length]; omega⟩, same,
      ?_, ?_, ended, ?_⟩
    · simp only [splitParams, search, found, bind_eq_bind, bind_some, map_none]
      exact run
    · rw [parts.1]
      exact string_behind front command (after ++ [0]) cleanCommand (by rw [line]; simp) own
    · rw [parts.2, region.1, strings, whole]
      rfl
    · rw [parts.2, region.2, no_text, texts]
      rfl
  have cleanBefore : 0 ∉ beforeText params ∧ 0 ∉ text := by
    rw [split] at cleanParams
    simp only [mem_append, mem_cons, not_or] at cleanParams
    exact ⟨cleanParams.1, cleanParams.2.2.2⟩
  have lengths := congrArg List.length split
  simp only [length_append, length_cons] at lengths
  obtain ⟨after, o, run, line, length, same, own, texts, strings, ended⟩ := params_split
    (front ++ (command ++ [0])) (beforeText params) (colon :: text ++ [0]) prefixp front.length
    (some ((front ++ (command ++ [0])).length + (beforeText params).length + 2)) cleanBefore.1
    (by omega)
  have cells : front ++ (command ++ [0]) ++ (params ++ [0]) =
      front ++ (command ++ [0]) ++ (beforeText params ++ blank :: (colon :: text ++ [0])) := by
    conv_lhs => rw [split]
    simp
  refine ⟨o, ?_, ⟨command ++ 0 :: (after ++ 0 :: (colon :: text ++ [0])), by rw [line]; simp,
    by simp [length, lengths]; omega⟩, same, ?_, ?_, ended, ?_⟩
  · simp only [splitParams, search, found, bind_eq_bind, bind_some, map_some]
    rw [cells, write_cut, bind_some]
    exact run
  · rw [parts.1]
    exact string_behind front command (after ++ 0 :: (colon :: text ++ [0])) cleanCommand
      (by rw [line]; simp) own
  · rw [parts.2, region.1, strings]
    rfl
  · rw [parts.2, region.2, some_text, texts, map_some, map_some]
    congr 1
    exact string_behind (front ++ (command ++ [0]) ++ (after ++ [0, colon])) text [] cleanBefore.2
      (by rw [line]; simp) (by simp [length]; omega)

theorem command_split (text : Text) (prefixp : Option Nat) (plain : 0 ∉ text)
    (short : text.length ≤ 512) :
    ∃ o, splitCommand (front ++ (text ++ [0])) prefixp front.length = some o ∧
      CommandSplit front text prefixp o := by
  by_cases present : blank ∈ text
  · obtain ⟨command, rest, rfl, absent⟩ := eq_append_cons_of_mem present
    by_cases direct : rest.head? = some colon
    · obtain ⟨text, rfl⟩ := head?_eq_some_iff.mp direct
      exact command_text front command text prefixp plain absent
    · exact command_params front command rest prefixp plain absent direct (by
        simp only [length_append, length_cons] at short
        omega)
  · exact command_alone front text prefixp plain present

def cutMessage (line : Text) : Option Message :=
  (message line).map fun whole =>
    { whole with params := regionParams (beforeText (behindCommand line)) }

theorem line_split (plain : 0 ∉ line) (short : line.length ≤ maxIrcMessageLen) :
    ∃ result, handleIrcCommonLine line = some result ∧
      Option.Rel (Splits line) (cutMessage line) result := by
  have copy : line.take maxIrcMessageLen = line := take_of_length_le short
  by_cases empty : line = []
  · refine ⟨none, by rw [handleIrcCommonLine, if_pos empty], ?_⟩
    rw [cutMessage, message, if_pos (.inl empty)]
    exact .none
  obtain ⟨c, tail, shape⟩ := exists_cons_of_ne_nil empty
  have first : readAt (line ++ [0]) 0 = some c := by rw [shape]; rfl
  have head : line.head? = some c := by rw [shape]; rfl
  by_cases marked : c = colon
  · by_cases present : blank ∈ line
    · obtain ⟨front, rest, split, absent⟩ := eq_append_cons_of_mem present
      have clean := plain
      have size := short
      rw [split] at clean size
      simp only [mem_append, mem_cons, not_or] at clean
      simp only [length_append, length_cons, maxIrcMessageLen] at size
      have parts := before_blank rest absent
      obtain ⟨o, run, done⟩ := command_split (front ++ [0]) rest (some 0) clean.2.2 (by omega)
      obtain ⟨after, kept, length⟩ := done.kept
      have found := strchr_found [] front (rest ++ [0]) clean.1 absent
      have write := write_cut [] front (rest ++ [0]) blank
      rw [nil_append, length_nil, Nat.zero_add] at found write
      refine ⟨some o, ?_, ?_⟩
      · rw [handleIrcCommonLine, if_neg empty]
        simp only [copy, first, bind_eq_bind, bind_some, if_pos marked]
        rw [split, append_assoc, cons_append, found, bind_some]
        simp only [write, bind_some]
        have cells : ([] : Text) ++ (front ++ 0 :: (rest ++ [0])) =
            front ++ [0] ++ (rest ++ [0]) := by simp
        have place : front.length + 1 = (front ++ [0]).length := by simp
        rw [cells, place, run]
        rfl
      · have behind : behindPrefix line = rest := by
          rw [behindPrefix, if_pos (by rw [head, marked]), split, parts.2, tail_cons]
        rw [cutMessage, message, if_neg (by simp [empty, present]), behindCommand, behind]
        refine .some ⟨?_, ?_, done.command, done.params, done.ended, done.text⟩
        · rw [kept, split]
          simp only [length_append, length_cons, length_nil, length]
          omega
        · have prefixText : stringFrom o.line 0 = some front :=
            string_behind [] front after clean.1 (by rw [kept]; simp) rfl
          rw [done.prefixp, if_pos (by rw [head, marked]), split, parts.1, map_some, prefixText]
          rfl
    · refine ⟨none, ?_, ?_⟩
      · have found := strchr_absent [] line [] plain present
        rw [nil_append, length_nil] at found
        rw [handleIrcCommonLine, if_neg empty]
        simp only [copy, first, bind_eq_bind, bind_some, if_pos marked, found]
      · rw [cutMessage, message, if_pos (.inr ⟨by rw [head, marked], present⟩)]
        exact .none
  · have unmarked : line.head? ≠ some colon := by rw [head]; simpa using marked
    obtain ⟨o, run, done⟩ := command_split [] line none plain short
    obtain ⟨after, kept, length⟩ := done.kept
    rw [nil_append, length_nil] at run
    refine ⟨some o, ?_, ?_⟩
    · rw [handleIrcCommonLine, if_neg empty]
      simp only [copy, first, bind_eq_bind, bind_some, if_neg marked, run, map_some]
    rw [cutMessage, message, if_neg (by simp [empty, unmarked]), behindCommand, behindPrefix,
      if_neg unmarked]
    refine .some ⟨by rw [kept, nil_append, length], ?_, done.command, done.params,
      done.ended, done.text⟩
    rw [done.prefixp, if_neg unmarked]
    rfl

theorem region_words (text : Text) :
    regionParams (beforeText (text.dropWhile (· ≠ blank))) =
        words (beforeText (text.dropWhile (· ≠ blank))) ↔
      Single (beforeText (text.dropWhile (· ≠ blank))) := by
  have none : regionParams [] = words [] ↔ Single [] := iff_of_true rfl .nil
  by_cases present : blank ∈ text
  · obtain ⟨command, rest, rfl, absent⟩ := eq_append_cons_of_mem present
    rw [(before_blank rest absent).2, beforeText]
    by_cases direct : rest.head? = some colon
    · rw [if_pos ⟨rfl, direct⟩]
      exact none
    · rw [if_neg fun both => direct both.2]
      exact ⟨cutParams_single _, single_cutParams _⟩
  · rw [(no_blank present).2]
    exact none

theorem region_eq : regionParams (beforeText (behindCommand line)) = words (beforeText
    (behindCommand line)) ↔ SinglySpaced line :=
  region_words (behindPrefix line)

theorem SplitsRight.single {line : Text} (right : SplitsRight line) (plain : 0 ∉ line)
    (short : line.length ≤ maxIrcMessageLen) : SinglySpaced line := by
  obtain ⟨result, run, cut⟩ := line_split line plain short
  obtain ⟨other, run', right⟩ := right
  obtain rfl : result = other := some_inj.mp (run.symm.trans run')
  rw [← region_eq]
  by_cases refused : line = [] ∨ (line.head? = some colon ∧ blank ∉ line)
  · have nothing : behindPrefix line = [] := by
      rcases refused with rfl | ⟨marked, absent⟩
      · rfl
      · rw [behindPrefix, if_pos marked, (no_blank absent).2]
        rfl
    rw [behindCommand, nothing]
    rfl
  · rw [cutMessage, message, if_neg refused, map_some] at cut
    rw [message, if_neg refused] at right
    cases cut with
    | some own =>
      cases right with
      | some whole =>
        have same := own.params.symm.trans whole.params
        exact map_injective_iff.mpr (some_injective _) same

theorem single_splits {line : Text} (single : SinglySpaced line) (plain : 0 ∉ line)
    (short : line.length ≤ maxIrcMessageLen) : SplitsRight line := by
  obtain ⟨result, run, cut⟩ := line_split line plain short
  have same := (region_eq line).mpr single
  have whole : cutMessage line = message line := by
    rw [cutMessage, message]
    split
    · rfl
    · rw [map_some, same]
  exact ⟨result, run, whole ▸ cut⟩

/-- A line is split right exactly when no blank follows a blank between the command and the
text. -/
theorem irc_line_split (line : Text) (plain : 0 ∉ line)
    (short : line.length ≤ maxIrcMessageLen) : SplitsRight line ↔ SinglySpaced line :=
  ⟨fun right => right.single plain short, fun single => single_splits single plain short⟩

theorem irc_line_split_example :
    SplitsRight (text ":a MODE #room +o bob :text") :=
  (irc_line_split _ (by decide) (by decide)).mpr (by decide)

/-- Two blanks before the only parameter make an empty first one. -/
theorem double_blank_shifts : ¬SplitsRight (text "JOIN  #room") := fun right =>
  absurd (right.single (by decide) (by decide)) (by decide)

end Pvpgn.IrcLine
