import Pvpgn.Channels
import Pvpgn.CharBuffer
import Pvpgn.TextUtil

/-!
The names of channels as IRC clients see them (`irc.cpp`). The bytes that IRC forbids in a name are
escaped with a percent sign, and a name that becomes too long is given as the number of its channel.
A use of a null pointer or a write outside the buffer is a fault, `none`.
-/

namespace Pvpgn.IrcNames
open Stdio ObjectStore Channels CharBuffer TextUtil List Option

def maxChannelnameLen : Nat := 32

abbrev backspace : UInt8 := 8
abbrev space : UInt8 := 32
abbrev exclamation : UInt8 := 33
abbrev hash : UInt8 := 35
abbrev percent : UInt8 := 37
abbrev comma : UInt8 := 44
abbrev dash : UInt8 := 45
abbrev colon : UInt8 := 58
abbrev equals : UInt8 := 61
abbrev underscore : UInt8 := 95
abbrev letterB : UInt8 := 98
abbrev letterN : UInt8 := 110
abbrev letterR : UInt8 := 114

structure Client where
  wol : Bool
  clienttag : UInt32

/-- What the loop of `irc_convert_channel` writes for one byte. -/
def escaped (byte : UInt8) : Text :=
  if byte = space then [underscore]
  else if byte = underscore then [percent, underscore]
  else if byte = percent then [percent, percent]
  else if byte = backspace then [percent, letterB]
  else if byte = newline then [percent, letterN]
  else if byte = carriageReturn then [percent, letterR]
  else if byte = colon then [percent, equals]
  else if byte = comma then [percent, dash]
  else [byte]

def convertLoop (channelid : UInt32) : Text → Buffer → Option Text
  | [], out => stringAt out.cells
  | byte :: rest, out => do
    let out ← putAll out (escaped byte)
    if maxChannelnameLen ≤ out.position + 2 then do
      let out ← putAll { out with position := 0 }
        (exclamation :: unsigned channelid.toNat ++ [0])
      stringAt out.cells
    else convertLoop channelid rest out

/-- The name that is converted: the short one for a Westwood client of the channel's own game. -/
def bname (channel : Channel) (c : Client) : Option Text :=
  if c.wol && channel.clienttag ≠ 0 && c.clienttag = channel.clienttag then channel.shortname
  else some channel.name

def ircConvertChannel (channel : Option Channel) (c : Client) : Option Text :=
  match channel with
  | none => some (text "*")
  | some channel => do
    let bname ← bname channel c
    let out ← put (filled maxChannelnameLen []) hash
    convertLoop channel.id bname out

/-- `atoi` as an `unsigned int`: what `strtol` reads into a `long` of 64 bits, cut. -/
def atoi (input : Text) : UInt32 :=
  let value := ((integer 10 input).map Prod.fst).getD 0
  UInt32.ofInt (max (-2 ^ 63) (min value (2 ^ 63 - 1)))

def channellistFindChannelBychannelid (channels : ChannelList) (channelid : UInt32) :
    Option Entry :=
  channels.head.objects.find? fun entry => entry.2.id = channelid

/-- What the loop of `irc_convert_ircname` writes for one byte, and the next `special`, which stays
set behind an escaped byte. -/
def unescaped (byte : UInt8) (special : Bool) : Text × Bool :=
  if byte = underscore then ([space], special)
  else if byte = percent then if special then ([percent], false) else ([], true)
  else if special then
    if byte = underscore then ([underscore], special)
    else if byte = letterB then ([backspace], special)
    else if byte = letterN then ([newline], special)
    else if byte = letterR then ([carriageReturn], special)
    else if byte = equals then ([colon], special)
    else if byte = dash then ([comma], special)
    else ([percent, byte], special)
  else ([byte], special)

/-- A NULL is `some none`. -/
def ircnameLoop : Text → Bool → Buffer → Option (Option Text)
  | [], _, out => (stringAt out.cells).map some
  | byte :: rest, special, out => do
    let out ← putAll out (unescaped byte special).1
    if maxChannelnameLen ≤ out.position + 2 then some none
    else ircnameLoop rest (unescaped byte special).2 out

def ircConvertIrcname (channels : ChannelList) (pircname : Text) : Option (Option Text) :=
  match pircname with
  | [] => some none
  | first :: ircname =>
    if first = exclamation then
      some ((channellistFindChannelBychannelid channels (atoi ircname)).map fun entry =>
        entry.2.name)
    else if first ≠ hash then some none
    else ircnameLoop ircname false (filled maxChannelnameLen [])

/-- No byte that IRC gives a meaning. -/
def Clean (shown : Text) : Prop :=
  ∀ byte ∈ shown, byte ∉ [space, comma, colon, backspace, newline, carriageReturn]

def shownLength (name : Text) : Nat := (name.flatMap escaped).length

/-- The bytes that are shown as a percent sign and a letter or sign. -/
def lettered (byte : UInt8) : Bool := byte ∈ [backspace, newline, carriageReturn, colon, comma]

/-- No underscore, and at most one byte that is shown with a letter, with nothing but spaces and
percent signs behind it. -/
def undamaged : Text → Bool
  | [] => true
  | byte :: rest =>
    byte ≠ underscore &&
      if lettered byte then rest.all fun byte => byte = space || byte = percent
      else undamaged rest

section Showing
variable {name done rest : Text} {byte : UInt8}

theorem escaped_length (byte : UInt8) : (escaped byte).length ≤ 2 := by
  simp only [escaped]
  split_ifs <;> simp

theorem escaped_nul_free (nonzero : byte ≠ 0) : 0 ∉ escaped byte := by
  simp only [escaped]
  split_ifs
  all_goals first
    | decide
    | simpa using nonzero.symm

theorem escaped_clean (byte : UInt8) : Clean (escaped byte) := by
  simp only [escaped]
  split_ifs with one two three four five six seven eight
  all_goals
    intro other member
    simp only [mem_cons, not_mem_nil, or_false] at member
  case neg =>
    subst member
    simp [one, four, five, six, seven, eight]
  all_goals
    rcases member with rfl | rfl <;> decide

theorem clean_append {left right : Text} (first : Clean left) (second : Clean right) :
    Clean (left ++ right) := by
  intro byte member
  rcases mem_append.mp member with inside | inside
  · exact first byte inside
  · exact second byte inside

variable (special : Bool) (channelid : UInt32)

theorem unsigned_length : (unsigned channelid.toNat).length ≤ 10 := by
  apply digits_length_le 10 _ 10 (by decide) (by decide)
  have small := channelid.toNat_lt
  omega

theorem number_clean : Clean (exclamation :: unsigned channelid.toNat) := by
  intro byte member
  rcases mem_cons.mp member with rfl | inside
  · decide
  · obtain ⟨least, most⟩ := unsigned_range channelid.toNat byte inside
    simp only [mem_cons, not_mem_nil, or_false]
    rintro (rfl | rfl | rfl | rfl | rfl | rfl) <;> revert least most <;> decide

theorem number_written (content : Text) (room : content.length ≤ maxChannelnameLen) :
    ((putAll { filled maxChannelnameLen content with position := 0 }
      (exclamation :: unsigned channelid.toNat ++ [0])).bind fun out => stringAt out.cells) =
        some (exclamation :: unsigned channelid.toNat) := by
  have short := unsigned_length channelid
  have total : (filled maxChannelnameLen content).cells.length = 32 := by
    simp only [filled, length_append, length_replicate]
    simp only [maxChannelnameLen] at room ⊢
    omega
  have nulFree : 0 ∉ exclamation :: unsigned channelid.toNat := by
    intro member
    rcases mem_cons.mp member with same | inside
    · cases same
    · exact absurd (unsigned_range channelid.toNat 0 inside).1 (by decide)
  rw [put_all, bind_some, take_zero, nil_append, append_assoc, singleton_append]
  · exact string_written _ _ nulFree
  · simp only [length_append, length_cons, length_nil]
    omega

theorem convert_loop (room : done.length + 2 < maxChannelnameLen) (doneFree : 0 ∉ done)
    (nulFree : 0 ∉ name) :
    convertLoop channelid name (filled maxChannelnameLen done) =
      some (if done.length + shownLength name + 2 < maxChannelnameLen then
        done ++ name.flatMap escaped
      else exclamation :: unsigned channelid.toNat) := by
  induction name generalizing done with
  | nil =>
    have inside : done.length < maxChannelnameLen := by omega
    rw [convertLoop, string_filled _ _ doneFree inside]
    simp [shownLength, room]
  | cons byte rest ih =>
    rw [mem_cons, not_or] at nulFree
    have short := escaped_length byte
    have written := put_all_filled maxChannelnameLen done (escaped byte) (by omega)
    have total : shownLength (byte :: rest) = (escaped byte).length + shownLength rest := by
      simp [shownLength]
    have grown : (done ++ escaped byte).length = done.length + (escaped byte).length :=
      length_append
    simp only [convertLoop, written, bind_eq_bind, bind_some]
    split
    · rename_i full
      rw [filled_position] at full
      rw [number_written channelid _ (by omega), if_neg (by omega)]
    rename_i fits
    rw [filled_position] at fits
    rw [ih (by omega) _ nulFree.2, total]
    · simp only [grown, flatMap_cons, append_assoc, Nat.add_assoc]
    intro member
    rcases mem_append.mp member with inside | inside
    · exact doneFree inside
    · exact escaped_nul_free (Ne.symm nulFree.1) inside

def readBack : Text → Bool → Text → Option Text
  | [], _, done => some done
  | byte :: rest, special, done =>
    if maxChannelnameLen ≤ (done ++ (unescaped byte special).1).length + 2 then none
    else readBack rest (unescaped byte special).2 (done ++ (unescaped byte special).1)

theorem unescaped_length (byte : UInt8) (special : Bool) :
    (unescaped byte special).1.length ≤ 2 := by
  simp only [unescaped]
  split_ifs <;> simp

theorem unescaped_nul_free (nonzero : byte ≠ 0) : 0 ∉ (unescaped byte special).1 := by
  simp only [unescaped]
  split_ifs
  all_goals
    simp only [mem_cons, not_mem_nil, or_false, not_or]
  all_goals first
    | decide
    | exact nonzero.symm
    | exact ⟨by decide, nonzero.symm⟩

theorem ircname_loop (room : done.length + 2 < maxChannelnameLen) (doneFree : 0 ∉ done)
    (nulFree : 0 ∉ name) :
    ircnameLoop name special (filled maxChannelnameLen done) =
      some (readBack name special done) := by
  induction name generalizing special done with
  | nil =>
    have inside : done.length < maxChannelnameLen := by omega
    rw [ircnameLoop, string_filled _ _ doneFree inside]
    rfl
  | cons byte rest ih =>
    rw [mem_cons, not_or] at nulFree
    have short := unescaped_length byte special
    have written := put_all_filled maxChannelnameLen done (unescaped byte special).1 (by omega)
    simp only [ircnameLoop, written, bind_eq_bind, bind_some, readBack]
    by_cases full : maxChannelnameLen ≤ (done ++ (unescaped byte special).1).length + 2
    · rw [if_pos full]
      exact if_pos full
    rw [if_neg full]
    refine (if_neg full).trans ?_
    apply ih _ (by omega) _ nulFree.2
    intro member
    rcases mem_append.mp member with inside | inside
    · exact doneFree inside
    · exact unescaped_nul_free special (Ne.symm nulFree.1) inside

theorem read_back_start {result : Text} (read : readBack name special done = some result) :
    done <+: result := by
  induction name generalizing special done with
  | nil =>
    cases read
    exact prefix_refl _
  | cons byte rest ih =>
    rw [readBack] at read
    split at read
    · cases read
    · exact (prefix_append _ _).trans (ih _ read)

theorem read_back_cons
    (fits : done.length + (unescaped byte special).1.length + 2 < maxChannelnameLen) :
    readBack (byte :: rest) special done =
      readBack rest (unescaped byte special).2 (done ++ (unescaped byte special).1) := by
  rw [readBack, length_append, if_neg (Nat.not_le_of_lt fits)]

section
variable (fits : done.length + 1 + 2 < maxChannelnameLen)
include fits

theorem read_back_space :
    readBack (escaped space ++ rest) special done = readBack rest special (done ++ [space]) :=
  read_back_cons special fits

theorem read_back_percent :
    readBack (escaped percent ++ rest) special done =
      readBack rest special (done ++ [percent]) := by
  change readBack (percent :: percent :: rest) special done = _
  cases special with
  | true =>
    rw [read_back_cons true fits, read_back_cons]
    · exact congrArg _ (append_nil _)
    · rw [length_append]
      exact fits
  | false =>
    rw [read_back_cons false (by simp only [unescaped]; exact Nat.lt_of_succ_lt fits)]
    change readBack (percent :: rest) true (done ++ []) = _
    rw [append_nil, read_back_cons true fits]
    rfl

theorem read_back_sign (letter : UInt8) :
    readBack (percent :: letter :: rest) true done =
      readBack (letter :: rest) false (done ++ [percent]) :=
  read_back_cons true fits

theorem read_back_escape (sign : UInt8) :
    readBack (percent :: sign :: rest) false done = readBack (sign :: rest) true done := by
  rw [read_back_cons false (by simp only [unescaped]; exact Nat.lt_of_succ_lt fits)]
  exact congrArg _ (append_nil done)

theorem read_back_underscore :
    readBack (escaped underscore ++ rest) false done = readBack rest true (done ++ [space]) := by
  change readBack (percent :: underscore :: rest) false done = _
  rw [read_back_escape fits, read_back_cons true fits]
  rfl

end

theorem lettered_cases (letter : lettered byte = true) :
    byte = backspace ∨ byte = newline ∨ byte = carriageReturn ∨ byte = colon ∨ byte = comma := by
  simpa [lettered] using letter

theorem escaped_lettered (letter : lettered byte = true) :
    ∃ sign, escaped byte = [percent, sign] ∧ unescaped sign true = ([byte], true) := by
  rcases lettered_cases letter with rfl | rfl | rfl | rfl | rfl
  · exact ⟨letterB, rfl, rfl⟩
  · exact ⟨letterN, rfl, rfl⟩
  · exact ⟨letterR, rfl, rfl⟩
  · exact ⟨equals, rfl, rfl⟩
  · exact ⟨dash, rfl, rfl⟩

theorem read_back_lettered (letter : lettered byte = true)
    (fits : done.length + 1 + 2 < maxChannelnameLen) :
    readBack (escaped byte ++ rest) false done = readBack rest true (done ++ [byte]) := by
  obtain ⟨sign, shape, meaning⟩ := escaped_lettered letter
  rw [shape]
  change readBack (percent :: sign :: rest) false done = _
  rw [read_back_escape fits, read_back_cons true (by rw [meaning]; exact fits), meaning]

structure Ordinary (byte : UInt8) : Prop where
  space : byte ≠ space
  underscore : byte ≠ underscore
  percent : byte ≠ percent
  lettered : lettered byte = false

theorem escaped_ordinary (ordinary : Ordinary byte) : escaped byte = [byte] := by
  have plain := ordinary.lettered
  simp only [lettered, mem_cons, not_mem_nil, or_false, decide_eq_false_iff_not, not_or] at plain
  obtain ⟨one, two, three, four, five⟩ := plain
  simp only [escaped]
  rw [if_neg ordinary.space, if_neg ordinary.underscore, if_neg ordinary.percent, if_neg one,
    if_neg two, if_neg three, if_neg four, if_neg five]

theorem read_back_ordinary (ordinary : Ordinary byte)
    (fits : done.length + 1 + 2 < maxChannelnameLen) :
    readBack (escaped byte ++ rest) false done = readBack rest false (done ++ [byte]) := by
  have same : unescaped byte false = ([byte], false) := by
    simp [unescaped, ordinary.underscore, ordinary.percent]
  rw [escaped_ordinary ordinary, singleton_append,
    read_back_cons false (by rw [same]; exact fits), same]

theorem unescaped_ordinary (ordinary : Ordinary byte) :
    ∃ wrong tail, (unescaped byte true).1 = wrong :: tail ∧ wrong ≠ byte := by
  simp only [unescaped, if_neg ordinary.underscore, if_neg ordinary.percent, if_true]
  split_ifs with b n r e d
  · exact ⟨_, _, rfl, by rw [b]; decide⟩
  · exact ⟨_, _, rfl, by rw [n]; decide⟩
  · exact ⟨_, _, rfl, by rw [r]; decide⟩
  · exact ⟨_, _, rfl, by rw [e]; decide⟩
  · exact ⟨_, _, rfl, by rw [d]; decide⟩
  · exact ⟨_, _, rfl, ordinary.percent.symm⟩

theorem read_back_wrong {wrong : UInt8} (tail : Text) (differs : wrong ≠ byte) :
    readBack name special (done ++ wrong :: tail) ≠ some (done ++ byte :: rest) := by
  intro read
  have start := read_back_start special read
  rw [prefix_append_right_inj, cons_prefix_cons] at start
  exact differs start.1

theorem byte_kinds (byte : UInt8) :
    byte = space ∨ byte = underscore ∨ byte = percent ∨ lettered byte = true ∨ Ordinary byte := by
  by_cases blank : byte = space
  · exact Or.inl blank
  by_cases line : byte = underscore
  · exact Or.inr (Or.inl line)
  by_cases sign : byte = percent
  · exact Or.inr (Or.inr (Or.inl sign))
  by_cases letter : lettered byte = true
  · exact Or.inr (Or.inr (Or.inr (Or.inl letter)))
  · exact Or.inr (Or.inr (Or.inr (Or.inr ⟨blank, line, sign, by simpa using letter⟩)))

theorem shown_length_cons (byte : UInt8) (name : Text) :
    shownLength (byte :: name) = (escaped byte).length + shownLength name := by
  simp [shownLength]

theorem escaped_some (byte : UInt8) : 1 ≤ (escaped byte).length := by
  simp only [escaped]
  split_ifs <;> simp

theorem next_fits (fits : done.length + shownLength (byte :: rest) + 2 < maxChannelnameLen) :
    done.length + 1 + 2 < maxChannelnameLen ∧
      (done ++ [byte]).length + shownLength rest + 2 < maxChannelnameLen := by
  have some := escaped_some byte
  rw [shown_length_cons] at fits
  rw [length_append, length_singleton]
  omega

/-- Behind an escaped byte only spaces and percent signs come back. -/
theorem read_back_special (fits : done.length + shownLength name + 2 < maxChannelnameLen) :
    readBack (name.flatMap escaped) true done = some (done ++ name) ↔
      name.all (fun byte => byte = space || byte = percent) = true := by
  induction name generalizing done with
  | nil => simp [readBack]
  | cons byte rest ih =>
    obtain ⟨room, next⟩ := next_fits fits
    have back := ih next
    rw [append_assoc, singleton_append] at back
    have signed {tail : Text} (shape : escaped byte = percent :: tail)
        (long : tail ≠ []) (differs : percent ≠ byte) :
        readBack (escaped byte ++ rest.flatMap escaped) true done ≠
          .some (done ++ byte :: rest) := by
      obtain ⟨sign, last, rfl⟩ := exists_cons_of_ne_nil long
      rw [shape]
      change readBack (percent :: sign :: (last ++ rest.flatMap escaped)) true done ≠ _
      rw [read_back_sign room]
      exact read_back_wrong _ _ differs
    rw [flatMap_cons, all_cons]
    rcases byte_kinds byte with rfl | rfl | rfl | letter | ordinary
    · rw [read_back_space true room, back]
      simp
    · exact iff_of_false (signed rfl (by simp) (by decide)) fun all =>
        absurd (Bool.and_eq_true_iff.mp all).1 (by decide)
    · rw [read_back_percent true room, back]
      simp
    · obtain ⟨sign, shape, _⟩ := escaped_lettered letter
      have differs : byte ≠ space ∧ byte ≠ percent := by
        rcases lettered_cases letter with rfl | rfl | rfl | rfl | rfl <;> decide
      refine iff_of_false (signed shape (by simp) differs.2.symm) ?_
      simp [differs]
    · refine iff_of_false ?_ (by simp [ordinary.space, ordinary.percent])
      obtain ⟨wrong, tail, shape, differs⟩ := unescaped_ordinary ordinary
      rw [escaped_ordinary ordinary, singleton_append, readBack, shape]
      split
      · exact (some_ne_none _).symm
      · exact read_back_wrong _ _ differs

theorem read_back_iff (fits : done.length + shownLength name + 2 < maxChannelnameLen) :
    readBack (name.flatMap escaped) false done = some (done ++ name) ↔ undamaged name = true := by
  induction name generalizing done with
  | nil => simp [readBack, undamaged]
  | cons byte rest ih =>
    obtain ⟨room, next⟩ := next_fits fits
    have plain := ih next
    have special := read_back_special next
    rw [append_assoc, singleton_append] at plain special
    rw [flatMap_cons, undamaged]
    rcases byte_kinds byte with rfl | rfl | rfl | letter | ordinary
    · rw [read_back_space false room, plain]
      rfl
    · rw [read_back_underscore room]
      exact iff_of_false (read_back_wrong true [] (by decide)) (by simp)
    · rw [read_back_percent false room, plain]
      rfl
    · have differs : byte ≠ underscore := by
        rcases lettered_cases letter with rfl | rfl | rfl | rfl | rfl <;> decide
      rw [read_back_lettered letter room, special, if_pos letter]
      simp [differs]
    · rw [read_back_ordinary ordinary room, plain, ordinary.lettered]
      simp [ordinary.underscore]

theorem atoi_unsigned : atoi (unsigned channelid.toNat) = channelid := by
  have read := integer_digits 10 channelid.toNat [] (Or.inr rfl) separated_nil
  rw [append_nil] at read
  have small := channelid.toNat_lt
  have cut : max (-2 ^ 63) (min (channelid.toNat : Int) (2 ^ 63 - 1)) = channelid.toNat := by
    omega
  simp only [atoi, unsigned, read, map_some, getD_some, cut]
  apply UInt32.toNat_inj.mp
  have word := word_of_int channelid.toNat
  omega

theorem convert_channel (channel : Channel) (c : Client) (named : bname channel c = some name)
    (nulFree : 0 ∉ name) :
    ircConvertChannel (some channel) c =
      some (if shownLength name < 29 then hash :: name.flatMap escaped
        else exclamation :: unsigned channel.id.toNat) := by
  have first : put (filled maxChannelnameLen []) hash = some (filled maxChannelnameLen [hash]) :=
    rfl
  have fits : [hash].length + shownLength name + 2 < maxChannelnameLen ↔ shownLength name < 29 := by
    simp only [maxChannelnameLen, length_singleton]
    omega
  simp only [ircConvertChannel, named, first, bind_eq_bind, bind_some]
  rw [convert_loop channel.id (by decide) (by decide) nulFree]
  simp only [fits]
  rfl

theorem escaped_all_nul_free (nulFree : 0 ∉ name) : 0 ∉ name.flatMap escaped := by
  intro member
  obtain ⟨byte, inside, zero⟩ := mem_flatMap.mp member
  apply escaped_nul_free _ zero
  rintro rfl
  exact nulFree inside

theorem shown_clean (name : Text) (channelid : UInt32) :
    Clean (if shownLength name < 29 then hash :: name.flatMap escaped
      else exclamation :: unsigned channelid.toNat) := by
  split
  · refine clean_append (?_ : Clean [hash]) ?_
    · intro byte member
      rw [mem_singleton.mp member]
      decide
    · intro byte member
      obtain ⟨origin, _, inside⟩ := mem_flatMap.mp member
      exact escaped_clean origin byte inside
  · exact number_clean channelid

theorem convert_ircname (channels : ChannelList) (nulFree : 0 ∉ name) :
    ∃ result, ircConvertIrcname channels name = some result := by
  cases name with
  | nil => exact ⟨none, rfl⟩
  | cons first ircname =>
    rw [mem_cons, not_or] at nulFree
    simp only [ircConvertIrcname]
    split_ifs
    · exact ⟨_, rfl⟩
    · exact ⟨_, rfl⟩
    · exact ⟨_, ircname_loop false (by decide) (by simp) nulFree.2⟩

end Showing

/-- What is shown comes back as the name that was converted, and a number as the name of its
channel. -/
def ComesBack (channels : ChannelList) (channel : Channel) (c : Client) : Prop :=
  ∃ name shown back, bname channel c = some name ∧
    ircConvertChannel (some channel) c = some shown ∧ Clean shown ∧
    ircConvertIrcname channels shown = some (some back) ∧
    back = if shown.head? = some hash then name else channel.name

/-- A name that is shown in full is not damaged, and another one belongs to the first channel of
its number. -/
def Recoverable (channels : ChannelList) (channel : Channel) (c : Client) : Prop :=
  ∃ name, bname channel c = some name ∧
    if shownLength name < 29 then undamaged name = true
    else (channellistFindChannelBychannelid channels channel.id).map (fun entry => entry.2.name) =
      some channel.name

theorem name_comes_back_iff (channels : ChannelList) (channel : Channel) (c : Client)
    (nulFree : 0 ∉ channel.name)
    (aliasFree : ∀ shortname, channel.shortname = some shortname → 0 ∉ shortname) :
    (∀ name, bname channel c = some name →
      ∃ shown, ircConvertChannel (some channel) c = some shown ∧ Clean shown) ∧
    (∀ pircname, 0 ∉ pircname → ∃ result, ircConvertIrcname channels pircname = some result) ∧
    (ComesBack channels channel c ↔ Recoverable channels channel c) := by
  have free {name : Text} (named : bname channel c = some name) : 0 ∉ name := by
    rw [bname] at named
    split at named
    · exact aliasFree name named
    · cases named
      exact nulFree
  refine ⟨?_, fun pircname plain => convert_ircname channels plain, ?_⟩
  · intro name named
    exact ⟨_, convert_channel channel c named (free named), shown_clean name channel.id⟩
  have back {name : Text} (named : bname channel c = some name) :
      (∃ shown back, ircConvertChannel (some channel) c = some shown ∧ Clean shown ∧
        ircConvertIrcname channels shown = some (some back) ∧
        back = if shown.head? = some hash then name else channel.name) ↔
      if shownLength name < 29 then undamaged name = true
      else (channellistFindChannelBychannelid channels channel.id).map
        (fun entry => entry.2.name) = some channel.name := by
    have shown := convert_channel channel c named (free named)
    have clean := shown_clean name channel.id
    by_cases fits : shownLength name < 29
    · rw [if_pos fits] at shown clean ⊢
      have room : ([] : Text).length + shownLength name + 2 < maxChannelnameLen := by
        simp only [maxChannelnameLen, length_nil]
        omega
      have read : ircConvertIrcname channels (hash :: name.flatMap escaped) =
          some (readBack (name.flatMap escaped) false []) :=
        ircname_loop false (by decide) (by simp) (escaped_all_nul_free (free named))
      rw [← read_back_iff room, nil_append]
      constructor
      · rintro ⟨_, back, converted, _, result, same⟩
        rw [shown] at converted
        cases converted
        rw [read] at result
        rw [Option.some.inj result, same]
        rfl
      · intro returned
        exact ⟨_, name, shown, clean, read.trans (congrArg some returned), rfl⟩
    · rw [if_neg fits] at shown clean ⊢
      have read : ircConvertIrcname channels (exclamation :: unsigned channel.id.toNat) =
          some ((channellistFindChannelBychannelid channels channel.id).map fun entry =>
            entry.2.name) := by
        simp only [ircConvertIrcname, if_true, atoi_unsigned]
      constructor
      · rintro ⟨_, back, converted, _, result, same⟩
        rw [shown] at converted
        cases converted
        rw [read] at result
        rw [Option.some.inj result, same]
        rfl
      · intro first
        exact ⟨_, channel.name, shown, clean, read.trans (congrArg some first), rfl⟩
  constructor
  · rintro ⟨name, shown, returned, named, rest⟩
    exact ⟨name, named, (back named).mp ⟨shown, returned, rest⟩⟩
  · rintro ⟨name, named, recoverable⟩
    obtain ⟨shown, returned, rest⟩ := (back named).mpr recoverable
    exact ⟨name, shown, returned, named, rest⟩

def userChannel (name : Text) (named : name ≠ []) : Channel :=
  { name, shortname := none, country := none, realmname := none, flags := channelFlagsNone
    maxmembers := -1, currmembers := 0, clienttag := 0, id := 1, memberlist := [], banlist := []
    logname := none, named, aliased := by simp }

def ircClient : Client := ⟨false, 0⟩

def listing (channel : Channel) : ChannelList := ⟨Store.empty.append channel, 1⟩

def redTeam : Channel := userChannel (text "red team 100%") (by decide)

theorem red_team_back : ComesBack (listing redTeam) redTeam ircClient :=
  (name_comes_back_iff (listing redTeam) redTeam ircClient (by decide)
    (fun _ none => nomatch none)).2.2.mpr ⟨_, rfl, by decide⟩

def teamOne : Channel := userChannel (text "team_one") (by decide)

/-- The underscore comes back as a space, and a percent sign in front of the bytes behind it. -/
theorem underscore_lost : ¬ ComesBack (listing teamOne) teamOne ircClient := by
  rintro ⟨name, shown, back, named, converted, _, read, same⟩
  cases converted
  cases named
  cases read
  exact absurd same (by decide)

end Pvpgn.IrcNames
