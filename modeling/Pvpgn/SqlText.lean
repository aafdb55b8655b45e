import Pvpgn.TextUtil

/-!
The words, signs and string literals of an SQL statement. A quote ends a literal unless it is
escaped: by another quote in every dialect, and by a backslash in some. A name that is put into a
statement as it is denotes itself if and only if it needs no escape.
-/

namespace Pvpgn.SqlText
open Stdio TextUtil List Option

def apostrophe : UInt8 := 39
def commaSign : UInt8 := 44

def isWord (byte : UInt8) : Bool :=
  isdigit byte || isupper byte || (97 ≤ byte && byte ≤ 122) || byte = 95

inductive Token where
  | word (name : Text)
  | sign (byte : UInt8)
  | literal (value : Text)
  deriving DecidableEq

/-- Where a reader stands; `closing` is behind a quote that may be the first of two. -/
inductive Mode where
  | outside
  | word (name : Text)
  | literal (value : Text)
  | closing (value : Text)
  | escaped (value : Text)

/-- The byte that a backslash and `byte` denote. -/
def unescape (byte : UInt8) : UInt8 :=
  if byte = 48 then 0
  else if byte = 98 then 8
  else if byte = 116 then 9
  else if byte = 110 then 10
  else if byte = 114 then 13
  else if byte = 90 then 26
  else byte

def start (byte : UInt8) : Mode × List Token :=
  if isspace byte then (.outside, [])
  else if byte = apostrophe then (.literal [], [])
  else if isWord byte then (.word [byte], [])
  else (.outside, [.sign byte])

/-- `backslashes` is whether the dialect escapes with backslashes too. -/
def advance (backslashes : Bool) (mode : Mode) (byte : UInt8) : Mode × List Token :=
  match mode with
  | .outside => start byte
  | .word name =>
    if isWord byte then (.word (name ++ [byte]), [])
    else ((start byte).1, .word name :: (start byte).2)
  | .literal value =>
    if byte = apostrophe then (.closing value, [])
    else if backslashes && byte = backslash then (.escaped value, [])
    else (.literal (value ++ [byte]), [])
  | .closing value =>
    if byte = apostrophe then (.literal (value ++ [apostrophe]), [])
    else ((start byte).1, .literal value :: (start byte).2)
  | .escaped value => (.literal (value ++ [unescape byte]), [])

def scan (backslashes : Bool) : Mode → Text → Mode × List Token
  | mode, [] => (mode, [])
  | mode, byte :: rest =>
    let first := advance backslashes mode byte
    let later := scan backslashes first.1 rest
    (later.1, first.2 ++ later.2)

/-- A literal must be closed. -/
def finish : Mode → Option (List Token)
  | .outside => some []
  | .word name => some [.word name]
  | .literal _ => none
  | .closing value => some [.literal value]
  | .escaped _ => none

def tokensFrom (backslashes : Bool) (mode : Mode) (input : Text) : Option (List Token) :=
  (finish (scan backslashes mode input).1).map ((scan backslashes mode input).2 ++ ·)

def tokens (backslashes : Bool) (input : Text) : Option (List Token) :=
  tokensFrom backslashes .outside input

section Reading
variable {backslashes : Bool} {mode : Mode} {value : Text} {byte : UInt8}

@[simp] theorem scan_nil : scan backslashes mode [] = (mode, []) := rfl

theorem scan_append (mode : Mode) (left right : Text) :
    scan backslashes mode (left ++ right) =
      ((scan backslashes (scan backslashes mode left).1 right).1,
        (scan backslashes mode left).2 ++
          (scan backslashes (scan backslashes mode left).1 right).2) := by
  induction left generalizing mode with
  | nil => rfl
  | cons byte rest ih => simp only [cons_append, scan, ih, append_assoc]

theorem tokens_from_append (mode : Mode) (left right : Text) :
    tokensFrom backslashes mode (left ++ right) =
      (tokensFrom backslashes (scan backslashes mode left).1 right).map
        ((scan backslashes mode left).2 ++ ·) := by
  simp only [tokensFrom, scan_append, Option.map_map]
  apply Option.map_congr
  intro tail _
  exact append_assoc _ _ _

theorem tokens_from_cons (mode : Mode) (byte : UInt8) (rest : Text) :
    tokensFrom backslashes mode (byte :: rest) =
      (tokensFrom backslashes (advance backslashes mode byte).1 rest).map
        ((advance backslashes mode byte).2 ++ ·) := by
  have split := @tokens_from_append backslashes mode [byte] rest
  simpa [scan] using split

variable (name : Text) {found : Text} {more : List Token} (rest word : Text)

theorem scan_word (plain : ∀ byte ∈ word, isWord byte = true) :
    scan backslashes (.word name) word = (.word (name ++ word), []) := by
  induction word generalizing name with
  | nil => simp
  | cons byte rest ih =>
    obtain ⟨own, others⟩ := forall_mem_cons.mp plain
    simp [scan, advance, own, ih _ others]

/-- A byte that denotes itself in a literal. -/
def Literal (backslashes : Bool) (byte : UInt8) : Prop :=
  byte ≠ apostrophe ∧ (backslashes = true → byte ≠ backslash)

instance (backslashes : Bool) (byte : UInt8) : Decidable (Literal backslashes byte) :=
  inferInstanceAs (Decidable (_ ∧ _))

theorem advance_literal (value : Text) (plain : Literal backslashes byte) :
    advance backslashes (.literal value) byte = (.literal (value ++ [byte]), []) := by
  have unescaped : ¬ (backslashes && byte = backslash) = true := by
    rw [Bool.and_eq_true, decide_eq_true_eq]
    exact fun both => plain.2 both.1 both.2
  rw [advance, if_neg plain.1, if_neg unescaped]

theorem scan_literal (value field : Text) (plain : ∀ byte ∈ field, Literal backslashes byte) :
    scan backslashes (.literal value) field = (.literal (value ++ field), []) := by
  induction field generalizing value with
  | nil => simp
  | cons byte rest ih =>
    obtain ⟨own, others⟩ := forall_mem_cons.mp plain
    simp [scan, advance_literal value own, ih _ others]

theorem scan_chain {first second : Mode} {left right : Text} {one two : List Token}
    (before : scan backslashes mode left = (first, one))
    (behind : scan backslashes first right = (second, two)) :
    scan backslashes mode (left ++ right) = (second, one ++ two) := by
  rw [scan_append, before, behind]

theorem tokens_scanned {last : Mode} {query : Text} {found ends : List Token}
    (read : scan backslashes .outside query = (last, found)) (ended : finish last = some ends) :
    tokens backslashes query = some (found ++ ends) := by
  rw [tokens, tokensFrom, read, ended]
  rfl

theorem word_black (plain : isWord byte = true) : isspace byte = false ∧ byte ≠ apostrophe := by
  constructor
  · rw [Bool.eq_false_iff]
    intro white
    simp only [isspace, isWord, isdigit, isupper, Bool.or_eq_true, Bool.and_eq_true,
      decide_eq_true_eq, UInt8.le_iff_toNat_le, ← UInt8.toNat_inj] at white plain
    simp at white plain
    omega
  · rintro rfl
    exact absurd plain (by decide)

theorem scan_outside (some : word ≠ []) (plain : ∀ byte ∈ word, isWord byte = true) :
    scan backslashes .outside word = (.word word, []) := by
  obtain ⟨byte, rest, rfl⟩ := exists_cons_of_ne_nil some
  obtain ⟨own, others⟩ := forall_mem_cons.mp plain
  obtain ⟨black, unquoted⟩ := word_black own
  have first : start byte = (.word [byte], []) := by
    rw [start, black, if_neg (by decide), if_neg unquoted, if_pos own]
  rw [scan, advance, first]
  simp only [scan_word [byte] rest others]
  rfl

theorem unsigned_literal (backslashes : Bool) (value : Nat) :
    ∀ byte ∈ unsigned value, Literal backslashes byte := by
  intro byte inside
  obtain ⟨least, most⟩ := unsigned_range value byte inside
  constructor
  · rintro rfl
    exact absurd least (by decide)
  · rintro _ rfl
    exact absurd most (by decide)

theorem signed_literal (backslashes : Bool) (value : Int) :
    ∀ byte ∈ signed value, Literal backslashes byte := by
  cases value with
  | ofNat value => exact unsigned_literal backslashes value
  | negSucc value =>
    intro byte inside
    rcases mem_cons.mp inside with rfl | digit
    · exact ⟨by decide, fun _ => by decide⟩
    · exact unsigned_literal backslashes _ byte digit

theorem closing_done {more : List Token} {found : Text} {rest : Text} (other : byte ≠ apostrophe)
    (read : tokensFrom backslashes (.closing value) (byte :: rest) =
      some (.literal found :: more)) : found = value := by
  rw [tokens_from_cons, advance, if_neg other] at read
  obtain ⟨later, _, same⟩ := map_eq_some_iff.mp read
  cases same
  rfl

theorem tokens_silent {next : Mode} (silent : advance backslashes mode byte = (next, [])) :
    tokensFrom backslashes mode (byte :: rest) = tokensFrom backslashes next rest := by
  rw [tokens_from_cons, silent]
  simp

theorem special_cases (special : ¬ Literal backslashes byte) :
    byte = apostrophe ∨ backslashes = true ∧ byte = backslash := by
  by_contra neither
  rw [not_or, not_and] at neither
  exact special neither

theorem literal_grows (value : Text) :
    (tokensFrom backslashes (.literal value) rest = some (.literal found :: more) →
      value <+: found) ∧
    (tokensFrom backslashes (.closing value) rest = some (.literal found :: more) →
      value <+: found) ∧
    (tokensFrom backslashes (.escaped value) rest = some (.literal found :: more) →
      value <+: found) := by
  induction rest generalizing value with
  | nil =>
    refine ⟨fun never => ?_, fun read => ?_, fun never => ?_⟩
    · simp [tokensFrom, finish] at never
    · simp only [tokensFrom, finish, scan_nil, map_some, nil_append,
        some.injEq, List.cons.injEq, Token.literal.injEq] at read
      exact read.1 ▸ prefix_rfl
    · simp [tokensFrom, finish] at never
  | cons byte rest ih =>
    refine ⟨fun read => ?_, fun read => ?_, fun read => ?_⟩
    · by_cases plain : Literal backslashes byte
      · rw [tokens_silent rest (advance_literal value plain)] at read
        exact (prefix_append _ _).trans ((ih _).1 read)
      · rcases special_cases plain with rfl | ⟨rfl, rfl⟩
        · exact (ih value).2.1 read
        · exact (ih value).2.2 read
    · by_cases quoted : byte = apostrophe
      · subst quoted
        exact (prefix_append _ _).trans ((ih _).1 read)
      · exact closing_done quoted read ▸ prefix_rfl
    · exact (prefix_append _ _).trans ((ih _).1 read)

theorem unescape_special (special : ¬ Literal backslashes (unescape byte)) :
    ¬ Literal true byte := by
  intro plain
  apply special
  constructor
  · rw [unescape]
    split_ifs
    all_goals first
      | decide
      | exact plain.1
  · intro _
    rw [unescape]
    split_ifs
    all_goals first
      | decide
      | exact plain.2 rfl

theorem comma_literal (backslashes : Bool) : Literal backslashes commaSign :=
  ⟨by decide, fun _ => by decide⟩

variable {special : Text}

theorem head_special {value tail : Text} (shape : found = value ++ special ++ tail)
    (some : special ≠ []) (grows : value ++ [byte] <+: found) :
    ∃ others, special = byte :: others := by
  obtain ⟨first, others, rfl⟩ := exists_cons_of_ne_nil some
  rw [shape, append_assoc, prefix_append_right_inj, cons_append, cons_prefix_cons] at grows
  exact ⟨others, by rw [grows.1]⟩

/-- Behind a quote at the end of a name the literal goes on with the comma. -/
theorem quote_past_end (value rest : Text)
    (read : tokensFrom backslashes (.literal (value ++ [apostrophe])) (commaSign :: rest) =
      some (.literal found :: more)) (shape : found = value ++ special ++ [byte])
    (some : special ≠ []) (all : ∀ byte ∈ special, ¬ Literal backslashes byte)
    (last : ¬ Literal backslashes byte) : False := by
  have comma := comma_literal backslashes
  rw [tokens_silent rest (advance_literal _ comma)] at read
  have grows := (literal_grows rest _).1 read
  obtain ⟨others, rfl⟩ := head_special shape some ((prefix_append _ _).trans grows)
  rw [shape] at grows
  simp only [append_assoc, cons_append, nil_append,
    prefix_append_right_inj, cons_prefix_cons, true_and] at grows
  cases others with
  | nil => exact last ((cons_prefix_cons.mp grows).1 ▸ comma)
  | cons second others =>
    have same := (cons_prefix_cons.mp grows).1
    exact all second (by simp) (same ▸ comma)

/-- Two bytes are read for one that needs an escape, so that a literal never ends with what is left
to read behind such bytes. -/
theorem literal_behind (count : Nat) (left : Text) (short : left.length ≤ count)
    (value special rest : Text) (more : List Token) (some : special ≠ [])
    (all : ∀ byte ∈ special, ¬ Literal backslashes byte) :
    tokensFrom backslashes (.literal value) (left ++ apostrophe :: commaSign :: rest) ≠
      .some (.literal (value ++ special ++ left) :: more) := by
  induction count generalizing left value special with
  | zero =>
    rw [length_eq_zero_iff.mp (Nat.le_zero.mp short), nil_append, tokens_silent _ rfl]
    intro read
    simpa [some] using closing_done (by decide) read
  | succ count ih =>
    cases left with
    | nil =>
      intro read
      simpa [some] using closing_done (by decide) read
    | cons first left =>
      intro read
      rw [cons_append] at read
      -- both bytes of an escape are special, and the rest is read behind them
      have behind (byte second : UInt8) (left : Text) (few : left.length ≤ count)
          (one : ¬ Literal backslashes first) (two : ¬ Literal backslashes byte →
            ¬ Literal backslashes second)
          (read : tokensFrom backslashes (.literal (value ++ [byte]))
            (left ++ apostrophe :: commaSign :: rest) =
              .some (.literal (value ++ special ++ first :: second :: left) :: more)) :
          False := by
        obtain ⟨others, rfl⟩ := head_special rfl some ((literal_grows _ _).1 read)
        have shape : value ++ (byte :: others) ++ first :: second :: left =
            value ++ [byte] ++ (others ++ [first, second]) ++ left := by simp
        rw [shape] at read
        refine ih left few _ (others ++ [first, second]) (by simp) ?_ read
        intro other inside
        simp only [mem_append, mem_cons, not_mem_nil, or_false] at inside
        rcases inside with old | rfl | rfl
        · exact all other (mem_cons_of_mem _ old)
        · exact one
        · exact two (all byte mem_cons_self)
      by_cases plain : Literal backslashes first
      · rw [tokens_silent _ (advance_literal value plain)] at read
        obtain ⟨others, rfl⟩ := head_special rfl some ((literal_grows _ _).1 read)
        exact all first mem_cons_self plain
      rcases special_cases plain with rfl | ⟨rfl, rfl⟩
      · cases left with
        | nil =>
          exact quote_past_end value rest read rfl some all plain
        | cons second left =>
          by_cases quoted : second = apostrophe
          · subst quoted
            exact behind apostrophe apostrophe left (by simp at short; omega) plain
              (fun special => special) read
          · simpa [some] using closing_done quoted read
      · cases left with
        | nil =>
          exact quote_past_end value rest read rfl some all plain
        | cons second left =>
          exact behind _ second left (by simp at short; omega) plain
            (fun special => unescape_special special) read

theorem literal_itself (value rest : Text)
    (read : tokensFrom backslashes (.literal value) (name ++ apostrophe :: commaSign :: rest) =
      some (.literal (value ++ name) :: more)) : ∀ byte ∈ name, Literal backslashes byte := by
  induction name generalizing value with
  | nil => simp
  | cons first left ih =>
    rw [cons_append] at read
    by_cases plain : Literal backslashes first
    · rw [tokens_silent _ (advance_literal value plain), append_cons value first left] at read
      exact forall_mem_cons.mpr ⟨plain, ih _ read⟩
    exfalso
    have grown {byte : UInt8} {input : Text}
        (read : tokensFrom backslashes (.literal (value ++ [byte])) input =
          some (.literal (value ++ first :: left) :: more)) : byte = first := by
      have grows := (literal_grows _ _).1 read
      rw [prefix_append_right_inj, cons_prefix_cons] at grows
      exact grows.1
    rcases special_cases plain with rfl | ⟨rfl, rfl⟩
    · rw [tokens_silent _ rfl] at read
      cases left with
      | nil =>
        rw [nil_append, tokens_silent _ rfl,
          tokens_silent rest (advance_literal _ (comma_literal backslashes))] at read
        have grows := (literal_grows _ _).1 read
        simpa using grows.length_le
      | cons second left =>
        rw [cons_append] at read
        by_cases quoted : second = apostrophe
        · subst quoted
          rw [tokens_silent _ rfl, append_cons] at read
          exact literal_behind left.length left (Nat.le_refl _) (value ++ [apostrophe])
            [apostrophe] rest more (by simp) (by simpa using plain) (by simpa using read)
        · simpa using closing_done quoted read
    · rw [tokens_silent _ rfl] at read
      cases left with
      | nil =>
        exact absurd (grown read) (by decide)
      | cons second left =>
        rw [cons_append, tokens_silent _ rfl] at read
        have same := grown read
        have special : ¬ Literal true second := unescape_special (same ▸ plain)
        rw [same] at read
        exact literal_behind left.length left (Nat.le_refl _) (value ++ [backslash])
          [second] rest more (by simp) (by simpa using special) (by simpa using read)

end Reading

/-- What an engine documents of the function that escapes a string for a literal. -/
structure Escapes (backslashes : Bool) (escape : Text → Text) : Prop where
  denotes : ∀ value field, 0 ∉ field →
    scan backslashes (.literal value) (escape field) = (.literal (value ++ field), [])
  length : ∀ field, (escape field).length ≤ 2 * field.length

end Pvpgn.SqlText
