import Pvpgn.TextUtil

/-!
The topics of channels and their file (`topic.cpp`). Every topic is a line of two quoted fields,
which `topiclist_load` reads with `fscanf` into two buffers. A write outside a buffer is a fault,
`none`.
-/

namespace Pvpgn.Topics
open Stdio TextUtil List Option Nat

def maxChannelnameLen : Nat := 32
def maxTopicLen : Nat := 201

structure Topic where
  channelName : Text
  topic : Text
  /-- `DO_SAVE_TOPIC` -/
  save : Bool
  deriving DecidableEq

/-- `topiclist_head`, which is NULL until a file was loaded, and the topic file. -/
structure State where
  head : Option (List Topic)
  file : Option Text

def matching (channelName : Text) (topic : Topic) : Bool :=
  sameCaseless channelName topic.channelName

def getTopic (topics : List Topic) (channelName : Text) : Option Topic :=
  topics.find? (matching channelName)

def channelGetTopic (state : State) (channelName : Text) : Option Text :=
  ((state.head.getD []).find? (matching channelName)).map Topic.topic

def comma : UInt8 := 44

def line (topic : Topic) : Text :=
  quote :: topic.channelName ++ [quote, comma, quote] ++ topic.topic ++ [quote, newline]

def written (topics : List Topic) : Text := (topics.filter fun topic => topic.save).flatMap line

/-- `opens` is whether the file can be opened. -/
def topiclistSave (state : State) (opens : Bool) : State × Int :=
  match state.head with
  | none => (state, 0)
  | some topics => if opens then ({ state with file := some (written topics) }, 0) else (state, -1)

/-- Without a list nothing is added. -/
def topiclistAddTopic (state : State) (channelName topicText : Text) (doSave : Bool) : State :=
  { state with head := state.head.map fun topics => ⟨channelName, topicText, doSave⟩ :: topics }

/-- The text of the first topic of the name is replaced, and its mark stays. -/
def replaceTopic (channelName topicText : Text) : List Topic → List Topic
  | [] => []
  | topic :: rest =>
    if matching channelName topic then { topic with topic := topicText } :: rest
    else topic :: replaceTopic channelName topicText rest

/-- `channel_set_topic` up to its test of `do_save`. -/
def enterTopic (state : State) (channelName topicText : Text) (doSave : Bool) : State :=
  if (getTopic (state.head.getD []) channelName).isSome then
    { state with head := state.head.map (replaceTopic channelName topicText) }
  else topiclistAddTopic state channelName topicText doSave

def channelSetTopic (state : State) (opens : Bool) (channelName topicText : Option Text)
    (doSave : Bool) : State × Int :=
  match channelName, topicText with
  | none, _ => (state, -1)
  | some _, none => (state, -1)
  | some channelName, some topicText =>
    if doSave then topiclistSave (enterTopic state channelName topicText doSave) opens
    else (enterTopic state channelName topicText doSave, 0)

/-- `"\"%[^\"]\",\"%[^\"]\"\n"` -/
def topicFormat : List Directive :=
  [.literal quote, .conversion (.scanset notQuote), .literal quote, .literal comma, .literal quote,
    .conversion (.scanset notQuote), .literal quote, .white]

/-- What the conversions of one `fscanf` write; with the second one the topic is added. -/
def loadLoop : Nat → Text → List Topic → Option (List Topic)
  | 0, _, topics => some topics
  | fuel + 1, file, topics =>
    match scan topicFormat file with
    | ([.string channelName, .string topic], rest) =>
      if channelName.length < maxChannelnameLen ∧ topic.length < maxTopicLen then
        loadLoop fuel rest (⟨cstring channelName, cstring topic, true⟩ :: topics)
      else none
    | ([.string channelName], _) =>
      if channelName.length < maxChannelnameLen then some topics else none
    | _ => some topics

/-- The old list is unloaded, also when the file cannot be opened. -/
def topiclistLoad (state : State) : Option (State × Int) :=
  match state.file with
  | none => some ({ state with head := none }, -1)
  | some file =>
    (loadLoop (file.length + 1) file []).map fun topics =>
      ({ state with head := some topics }, 0)

/-- What each `fscanf` of the load reads. -/
def reads : Nat → Text → List (List Argument)
  | 0, _ => []
  | fuel + 1, file =>
    let (arguments, rest) := scan topicFormat file
    if arguments.length = 2 then arguments :: reads fuel rest else [arguments]

/-- What is read for a name fits the one buffer, and what is read for a topic the other. -/
def FitsBuffers (arguments : List Argument) : Prop :=
  (∀ channelName, arguments[0]? = some (.string channelName) →
    channelName.length < maxChannelnameLen) ∧
  ∀ topic, arguments[1]? = some (.string topic) → topic.length < maxTopicLen

section Reading
variable {file rest : Text} {topics : List Topic} {topic : Topic}

theorem literal_cases (byte : UInt8) (format : List Directive) (input : Text) :
    (∃ tail, input = byte :: tail ∧ scan (.literal byte :: format) input = scan format tail) ∨
      scan (.literal byte :: format) input = ([], input) := by
  cases input with
  | nil => exact Or.inr rfl
  | cons next tail =>
    by_cases same : next = byte
    · exact Or.inl ⟨tail, by rw [same], by rw [same, scan_literal]⟩
    · exact Or.inr (scan_literal_ne byte next format tail same)

theorem field_cases (format : List Directive) (input : Text) :
    (∃ field tail, field ≠ [] ∧ quote ∉ field ∧ tail.length ≤ input.length ∧
      scan (.conversion (.scanset notQuote) :: format) input =
        (.string field :: (scan format tail).1, (scan format tail).2)) ∨
      scan (.conversion (.scanset notQuote) :: format) input = ([], input) := by
  by_cases empty : input.takeWhile notQuote = []
  · exact Or.inr (scan_failed format (by simp [convert, empty]))
  left
  refine ⟨_, input.dropWhile notQuote, empty, ?_, (dropWhile_sublist _).length_le,
    scan_conversion format (by simp [convert, empty])⟩
  intro member
  exact absurd (mem_takeWhile_imp member) (by decide)

theorem closing_shorter (input : Text) :
    (scan [.literal quote, .white] input).1 = [] ∧
      (scan [.literal quote, .white] input).2.length ≤ input.length := by
  rcases literal_cases quote [.white] input with ⟨tail, rfl, read⟩ | stopped
  · have shorter := (dropWhile_sublist (l := tail) isspace).length_le
    exact ⟨rfl, le_succ_of_le shorter⟩
  · rw [stopped]
    exact ⟨rfl, le_refl _⟩

theorem scan_cases (file : Text) :
    (∃ channelName text rest, scan topicFormat file = ([.string channelName, .string text], rest) ∧
      rest.length < file.length) ∨
    (∃ channelName rest, scan topicFormat file = ([.string channelName], rest)) ∨
    ∃ rest, scan topicFormat file = ([], rest) := by
  rw [topicFormat]
  rcases literal_cases quote _ file with ⟨opened, rfl, read⟩ | stopped
  · rw [read, length_cons]
    rcases field_cases _ opened with ⟨name, afterName, _, _, shorter, read⟩ | stopped
    · rw [read]
      rcases literal_cases quote _ afterName with ⟨one, rfl, read⟩ | stopped
      · rw [read]
        rcases literal_cases comma _ one with ⟨two, rfl, read⟩ | stopped
        · rw [read]
          rcases literal_cases quote _ two with ⟨three, rfl, read⟩ | stopped
          · rw [read]
            rcases field_cases [.literal quote, .white] three with
              ⟨text, afterText, _, _, less, read⟩ | stopped
            · obtain ⟨none, last⟩ := closing_shorter afterText
              rw [read, none]
              refine Or.inl ⟨name, text, _, rfl, ?_⟩
              change (scan [.literal quote, .white] afterText).2.length < _
              simp only [length_cons] at shorter
              omega
            · exact Or.inr (Or.inl ⟨name, _, by rw [stopped]⟩)
          · exact Or.inr (Or.inl ⟨name, _, by rw [stopped]⟩)
        · exact Or.inr (Or.inl ⟨name, _, by rw [stopped]⟩)
      · exact Or.inr (Or.inl ⟨name, _, by rw [stopped]⟩)
    · exact Or.inr (Or.inr ⟨_, stopped⟩)
  · exact Or.inr (Or.inr ⟨_, stopped⟩)

theorem load_loop_fits (fuel : Nat) (file : Text) (topics : List Topic) :
    (∃ result, loadLoop fuel file topics = some result) ↔
      ∀ arguments ∈ reads fuel file, FitsBuffers arguments := by
  induction fuel generalizing file topics with
  | zero => simp [loadLoop, reads]
  | succ fuel ih =>
    rw [loadLoop, reads]
    rcases scan_cases file with ⟨name, text, rest, read, _⟩ | ⟨name, rest, read⟩ | ⟨rest, read⟩
    · have fits : FitsBuffers [.string name, .string text] ↔
          name.length < maxChannelnameLen ∧ text.length < maxTopicLen := by
        simp [FitsBuffers]
      simp only [read, length_cons, length_nil, if_true, forall_mem_cons, fits]
      by_cases small : name.length < maxChannelnameLen ∧ text.length < maxTopicLen
      · rw [if_pos small, ih]
        exact (and_iff_right small).symm
      · rw [if_neg small]
        exact iff_of_false (by simp) fun all => small all.1
    · simp only [read]
      by_cases small : name.length < maxChannelnameLen
      · simp [FitsBuffers, small]
      · simp [FitsBuffers, small]
    · simp [read, FitsBuffers]

/-- A topic whose line is read as it was written. -/
structure Writable (topic : Topic) : Prop where
  named : topic.channelName ≠ []
  short : topic.channelName.length < maxChannelnameLen
  nameFree : quote ∉ topic.channelName ∧ 0 ∉ topic.channelName
  some : topic.topic ≠ []
  fits : topic.topic.length < maxTopicLen
  topicFree : quote ∉ topic.topic ∧ 0 ∉ topic.topic

theorem scan_line (writable : Writable topic) (black : Stops isspace rest) :
    scan topicFormat (line topic ++ rest) =
      ([.string topic.channelName, .string topic.topic], rest) := by
  have name := convert_scanset notQuote topic.channelName
    ([quote, comma, quote] ++ topic.topic ++ [quote, newline] ++ rest) writable.named
    (not_quote_run _ writable.nameFree.1) (stops_at_quote _)
  have text := convert_scanset notQuote topic.topic ([quote, newline] ++ rest) writable.some
    (not_quote_run _ writable.topicFree.1) (stops_at_quote _)
  have shape : line topic ++ rest = quote :: (topic.channelName ++
      ([quote, comma, quote] ++ topic.topic ++ [quote, newline] ++ rest)) := by
    simp [line]
  have between : [quote, comma, quote] ++ topic.topic ++ [quote, newline] ++ rest =
      quote :: comma :: quote :: (topic.topic ++ ([quote, newline] ++ rest)) := by
    simp
  have white : ∀ byte ∈ [newline], isspace byte = true := by
    intro byte member
    rw [mem_singleton.mp member]
    rfl
  have ends : scan [.white] (newline :: rest) = ([], rest) := by
    have unchanged := drop_run isspace [newline] rest white black
    rw [singleton_append] at unchanged
    rw [scan, unchanged, scan_nil]
  rw [shape, topicFormat, scan_literal, scan_conversion _ name, between, scan_literal,
    scan_literal, scan_literal, scan_conversion _ text]
  rw [cons_append, scan_literal, singleton_append, ends]

theorem lines_black (topics : List Topic) : Stops isspace (topics.flatMap line) := by
  cases topics with
  | nil => exact stops_nil _
  | cons topic rest => exact (stops_cons isspace quote _).mpr (by decide)

theorem lines_length (topics : List Topic) : topics.length ≤ (topics.flatMap line).length := by
  induction topics with
  | nil => exact le_refl _
  | cons topic rest ih =>
    simp only [flatMap_cons, length_append, length_cons, line]
    omega

theorem load_lines (entries : List Topic) (writable : ∀ topic ∈ entries, Writable topic)
    (saved : ∀ topic ∈ entries, topic.save = true) (fuel : Nat)
    (enough : entries.length < fuel) (topics : List Topic) :
    loadLoop fuel (entries.flatMap line) topics = some (entries.reverse ++ topics) := by
  induction entries generalizing fuel topics with
  | nil =>
    obtain ⟨fuel, rfl⟩ := exists_eq_succ_of_ne_zero (ne_of_gt enough)
    rfl
  | cons topic rest ih =>
    obtain ⟨fuel, rfl⟩ := exists_eq_succ_of_ne_zero (ne_of_gt (zero_lt_of_lt enough))
    have own := writable topic mem_cons_self
    have marked : (⟨topic.channelName, topic.topic, true⟩ : Topic) = topic := by
      rw [← saved topic mem_cons_self]
    have next := ih (fun other member => writable other (mem_cons_of_mem _ member))
      (fun other member => saved other (mem_cons_of_mem _ member)) fuel
      (by simpa using enough) (topic :: topics)
    simp only [loadLoop, flatMap_cons, scan_line own (lines_black rest)]
    rw [if_pos ⟨own.short, own.fits⟩, cstring_nul_free _ own.nameFree.2,
      cstring_nul_free _ own.topicFree.2, marked, next]
    simp

end Reading

/-- A call as the callers make it: only `/topic`, which limits the text, asks for it to be saved. -/
structure Call where
  opens : Bool
  channelName : Text
  topicText : Text
  doSave : Bool
  short : channelName.length < maxChannelnameLen
  allowed : doSave = true → topicText.length < maxTopicLen
  nulFree : 0 ∉ channelName ∧ 0 ∉ topicText

def set (state : State) (call : Call) : State :=
  (channelSetTopic state call.opens (some call.channelName) (some call.topicText) call.doSave).1

def run (state : State) (calls : List Call) : State := calls.foldl set state

def Writes (call : Call) : Prop := call.doSave = true ∧ call.opens = true

/-- The text and the mark with which the topic of each channel was last set. -/
abbrev Ledger := Text → Option (Text × Bool)

def note (ledger : Ledger) (call : Call) : Ledger := fun channelName =>
  if sameCaseless channelName call.channelName then some (call.topicText, call.doSave)
  else ledger channelName

def opening (start : List Topic) : Ledger := fun channelName =>
  (getTopic start channelName).map fun topic => (topic.topic, true)

def toSave (ledger : Ledger) (channelName : Text) : Option Text :=
  (ledger channelName).bind fun entry => if entry.2 then some entry.1 else none

/-- A text to be saved is one that the file can hold, and a channel keeps its mark. -/
structure Careful (state : State) (call : Call) : Prop where
  holds : call.doSave = true → call.channelName ≠ [] ∧ quote ∉ call.channelName ∧
    call.topicText ≠ [] ∧ quote ∉ call.topicText
  marked : ∀ topic, getTopic (state.head.getD []) call.channelName = some topic →
    topic.save = call.doSave

def Distinct (topics : List Topic) : Prop :=
  topics.Pairwise fun first second => ¬ sameCaseless first.channelName second.channelName

structure Kept (topics : List Topic) (ledger : Ledger) : Prop where
  distinct : Distinct topics
  agrees : ∀ channelName,
    (getTopic topics channelName).map (fun topic => (topic.topic, topic.save)) = ledger channelName
  writable : ∀ topic ∈ topics, topic.save = true → Writable topic

section Setting
variable {topics : List Topic} {topic old : Topic} {channelName topicText other : Text}
  {ledger : Ledger} {state : State} {call : Call}

theorem caseless_iff (left right : Text) :
    sameCaseless left right = true ↔ left.map tolower = right.map tolower := by
  rw [sameCaseless, decide_eq_true_iff]

theorem get_topic_iff (distinct : Distinct topics) :
    getTopic topics channelName = some topic ↔
      topic ∈ topics ∧ matching channelName topic = true := by
  constructor
  · exact fun found => ⟨mem_of_find?_eq_some found, find?_some found⟩
  rintro ⟨member, matched⟩
  induction topics with
  | nil => cases member
  | cons first rest ih =>
    obtain ⟨apart, distinct⟩ := pairwise_cons.mp distinct
    rw [getTopic, find?_cons]
    rcases mem_cons.mp member with rfl | inside
    · rw [matched]
    have unmatched : matching channelName first = false := by
      rw [Bool.eq_false_iff]
      intro same
      apply apart topic inside
      rw [matching, caseless_iff] at same matched
      rw [caseless_iff, ← same, matched]
    rw [unmatched]
    exact ih distinct inside

theorem replace_names (channelName topicText : Text) (topics : List Topic) :
    (replaceTopic channelName topicText topics).map Topic.channelName =
      topics.map Topic.channelName := by
  induction topics with
  | nil => rfl
  | cons first rest ih =>
    rw [replaceTopic]
    split
    · rfl
    · rw [map_cons, ih, map_cons]

theorem distinct_names : Distinct topics ↔
    (topics.map Topic.channelName).Pairwise fun first second => ¬ sameCaseless first second := by
  rw [Distinct, pairwise_map]

theorem get_replace (channelName topicText other : Text) (topics : List Topic) :
    getTopic (replaceTopic channelName topicText topics) other =
      if sameCaseless other channelName then
        (getTopic topics other).map fun topic => { topic with topic := topicText }
      else getTopic topics other := by
  induction topics with
  | nil => simp [replaceTopic, getTopic]
  | cons first rest ih =>
    simp only [getTopic] at ih ⊢
    rw [replaceTopic]
    by_cases here : matching channelName first = true
    · rw [if_pos here, find?_cons, find?_cons]
      have same : matching other { first with topic := topicText } =
          sameCaseless other channelName := by
        rw [matching, caseless_iff] at here
        simp only [matching, sameCaseless, here]
      have before : matching other first = sameCaseless other channelName := same
      rw [same, before]
      cases sameCaseless other channelName <;> rfl
    · rw [if_neg here, find?_cons, find?_cons, ih]
      by_cases matched : matching other first = true
      · have apart : ¬ sameCaseless other channelName = true := by
          intro same
          apply here
          rw [matching, caseless_iff] at matched ⊢
          rw [caseless_iff] at same
          rw [← same, matched]
        rw [matched, if_neg apart, if_neg apart]
      · rw [Bool.not_eq_true] at matched
        rw [matched]

theorem mem_replace (inside : topic ∈ replaceTopic channelName topicText topics) :
    topic ∈ topics ∨ ∃ old, getTopic topics channelName = some old ∧
      topic = { old with topic := topicText } := by
  induction topics with
  | nil => cases inside
  | cons first rest ih =>
    rw [replaceTopic] at inside
    rw [getTopic, find?_cons]
    split at inside
    · rename_i here
      rw [here]
      rcases mem_cons.mp inside with rfl | behind
      · exact Or.inr ⟨first, rfl, rfl⟩
      · exact Or.inl (mem_cons_of_mem _ behind)
    · rename_i away
      rw [Bool.not_eq_true] at away
      rw [away]
      rcases mem_cons.mp inside with rfl | behind
      · exact Or.inl mem_cons_self
      · exact (ih behind).imp_left (mem_cons_of_mem _)

theorem kept_replace (kept : Kept topics ledger)
    (found : getTopic topics call.channelName = some old)
    (careful : call.doSave = true → call.topicText ≠ [] ∧ quote ∉ call.topicText)
    (marked : old.save = call.doSave) :
    Kept (replaceTopic call.channelName call.topicText topics) (note ledger call) := by
  constructor
  · rw [distinct_names, replace_names, ← distinct_names]
    exact kept.distinct
  · intro other
    rw [get_replace, note]
    by_cases same : sameCaseless other call.channelName = true
    · have own : getTopic topics other = some old := by
        rw [← found]
        apply congrArg (fun test => topics.find? test)
        funext topic
        rw [caseless_iff] at same
        simp only [matching, sameCaseless, same]
      rw [if_pos same, if_pos same, own, ← marked]
      rfl
    · rw [if_neg same, if_neg same]
      exact kept.agrees other
  · intro topic inside save
    rcases mem_replace inside with old | ⟨first, here, rfl⟩
    · exact kept.writable topic old save
    rw [found] at here
    cases here
    have before := kept.writable old (mem_of_find?_eq_some found) save
    obtain ⟨some, quoteFree⟩ := careful (marked ▸ save)
    exact ⟨before.named, before.short, before.nameFree, some, call.allowed (marked ▸ save),
      quoteFree, call.nulFree.2⟩

theorem kept_add (kept : Kept topics ledger) (absent : getTopic topics call.channelName = none)
    (careful : call.doSave = true → call.channelName ≠ [] ∧ quote ∉ call.channelName ∧
      call.topicText ≠ [] ∧ quote ∉ call.topicText) :
    Kept (⟨call.channelName, call.topicText, call.doSave⟩ :: topics) (note ledger call) := by
  constructor
  · refine pairwise_cons.mpr ⟨fun topic inside same => ?_, kept.distinct⟩
    exact find?_eq_none.mp absent topic inside same
  · intro other
    rw [getTopic, find?_cons, note, matching]
    cases same : sameCaseless other call.channelName with
    | true => rfl
    | false => exact kept.agrees other
  · intro topic inside save
    rcases mem_cons.mp inside with rfl | old
    · obtain ⟨named, nameFree, some, topicFree⟩ := careful save
      exact ⟨named, call.short, ⟨nameFree, call.nulFree.1⟩, some, call.allowed save,
        ⟨topicFree, call.nulFree.2⟩⟩
    · exact kept.writable topic old save

section
variable (listed : state.head = some topics) (kept : Kept topics ledger)
  (careful : Careful state call)
include listed kept careful

theorem enter_kept :
    ∃ later, enterTopic state call.channelName call.topicText call.doSave =
      { state with head := some later } ∧ Kept later (note ledger call) := by
  have marked := careful.marked
  rw [listed, getD_some] at marked
  rw [enterTopic, listed, getD_some]
  cases found : getTopic topics call.channelName with
  | some old =>
    exact ⟨_, if_pos rfl, kept_replace kept found (fun save => (careful.holds save).2.2)
      (marked old found)⟩
  | none =>
    refine ⟨_, (if_neg (by simp)).trans ?_, kept_add kept found careful.holds⟩
    rw [topiclistAddTopic, listed, map_some]

theorem set_kept :
    ∃ later, (set state call).head = some later ∧ Kept later (note ledger call) ∧
      (Writes call → (set state call).file = some (written later)) ∧
      (¬ Writes call → (set state call).file = state.file) := by
  obtain ⟨later, entered, keeps⟩ := enter_kept listed kept careful
  refine ⟨later, ?_⟩
  rw [set, channelSetTopic, entered, Writes]
  cases save : call.doSave with
  | false =>
    refine ⟨rfl, keeps, ?_, fun _ => rfl⟩
    rintro ⟨never, _⟩
    cases never
  | true =>
    cases opened : call.opens with
    | false =>
      refine ⟨rfl, keeps, ?_, fun _ => rfl⟩
      rintro ⟨_, never⟩
      cases never
    | true => exact ⟨rfl, keeps, fun _ => rfl, fun quiet => absurd ⟨rfl, rfl⟩ quiet⟩

end

def CarefulRun (state : State) (calls : List Call) : Prop :=
  ∀ front call back, calls = front ++ call :: back → Careful (run state front) call

theorem run_kept {calls : List Call} (listed : state.head = some topics)
    (kept : Kept topics ledger) (careful : CarefulRun state calls) :
    ∃ later, (run state calls).head = some later ∧ Kept later (calls.foldl note ledger) ∧
      ((∀ call ∈ calls, ¬ Writes call) → (run state calls).file = state.file) := by
  induction calls generalizing state topics ledger with
  | nil => exact ⟨topics, listed, kept, fun _ => rfl⟩
  | cons call rest ih =>
    obtain ⟨middle, here, keeps, _, quiet⟩ := set_kept listed kept (careful [] call rest rfl)
    have next : CarefulRun (set state call) rest := by
      intro front other back same
      exact careful (call :: front) other back (by rw [same, cons_append])
    obtain ⟨later, last, still, silent⟩ := ih here keeps next
    refine ⟨later, last, still, fun none => ?_⟩
    obtain ⟨first, others⟩ := forall_mem_cons.mp none
    exact (silent others).trans (quiet first)

theorem distinct_reverse (distinct : Distinct topics) : Distinct topics.reverse := by
  rw [Distinct, pairwise_reverse]
  refine distinct.imp fun apart same => apart ?_
  rw [caseless_iff] at same ⊢
  exact same.symm

theorem load_written (kept : Kept topics ledger) (head : Option (List Topic)) :
    ∃ loaded, topiclistLoad ⟨head, some (written topics)⟩ = some loaded ∧
      ∀ channelName, channelGetTopic loaded.1 channelName = toSave ledger channelName := by
  have entries : ∀ topic ∈ topics.filter fun topic => topic.save,
      topic ∈ topics ∧ topic.save = true := fun topic => mem_filter.mp
  have read := load_lines (topics.filter fun topic => topic.save)
    (fun topic inside => kept.writable topic (entries topic inside).1 (entries topic inside).2)
    (fun topic inside => (entries topic inside).2) ((written topics).length + 1)
    (lt_succ_of_le (lines_length _)) []
  rw [← written, append_nil] at read
  have loads : topiclistLoad ⟨head, some (written topics)⟩ = some
      (⟨some (topics.filter fun topic => topic.save).reverse, some (written topics)⟩, 0) := by
    simp only [topiclistLoad, read, map_some]
  refine ⟨_, loads, fun channelName => ?_⟩
  have apart := distinct_reverse (kept.distinct.filter fun topic => topic.save)
  have same (topic : Topic) :
      getTopic (topics.filter fun topic => topic.save).reverse channelName = some topic ↔
        getTopic topics channelName = some topic ∧ topic.save = true := by
    rw [get_topic_iff apart, get_topic_iff kept.distinct, mem_reverse, mem_filter]
    tauto
  rw [toSave, ← kept.agrees, channelGetTopic, getD_some, ← getTopic]
  cases found : getTopic topics channelName with
  | none =>
    have missed : getTopic (topics.filter fun topic => topic.save).reverse channelName = none := by
      rw [eq_none_iff_forall_ne_some]
      intro topic there
      rw [((same topic).mp there).1] at found
      cases found
    rw [missed]
    rfl
  | some topic =>
    by_cases save : topic.save = true
    · rw [(same topic).mpr ⟨found, save⟩]
      simp [save]
    have missed : getTopic (topics.filter fun topic => topic.save).reverse channelName = none := by
      rw [eq_none_iff_forall_ne_some]
      intro other there
      obtain ⟨here, marked⟩ := (same other).mp there
      rw [found] at here
      cases here
      exact save marked
    rw [missed]
    simp [save]

theorem load_marked (fuel : Nat) (file : Text) (topics : List Topic)
    (marked : ∀ topic ∈ topics, topic.save = true) {start : List Topic}
    (loaded : loadLoop fuel file topics = some start) : ∀ topic ∈ start, topic.save = true := by
  induction fuel generalizing file topics with
  | zero =>
    cases loaded
    exact marked
  | succ fuel ih =>
    rw [loadLoop] at loaded
    split at loaded
    · split at loaded
      · refine ih _ _ ?_ loaded
        exact forall_mem_cons.mpr ⟨rfl, marked⟩
      · cases loaded
    · split at loaded
      · cases loaded
        exact marked
      · cases loaded
    · cases loaded
      exact marked

theorem careful_split {front back : List Call} (careful : CarefulRun state (front ++ back)) :
    CarefulRun state front ∧ CarefulRun (run state front) back := by
  constructor
  · intro first call last same
    exact careful first call (last ++ back) (by rw [same, append_assoc, cons_append])
  intro first call last same
  have whole := careful (front ++ first) call last (by rw [same, append_assoc])
  rw [run, foldl_append] at whole
  exact whole

end Setting

/-- What a save of the loaded list can hold: no empty field, and no channel twice. -/
structure Tidy (start : List Topic) : Prop where
  distinct : Distinct start
  writable : ∀ topic ∈ start, Writable topic

/-- In a run whose calls are careful, the file that was written last gives each channel the topic
that it had then, if that topic was to be saved, and no other channel one. A load stays in its
buffers for exactly the files whose fields fit them. -/
theorem topics_come_back (initial : Text) (head : Option (List Topic)) (start : List Topic)
    (calls : List Call)
    (loaded : topiclistLoad ⟨head, some initial⟩ = some (⟨some start, some initial⟩, 0))
    (tidy : Tidy start) (careful : CarefulRun ⟨some start, some initial⟩ calls) :
    (∀ state, (∃ result, topiclistLoad state = some result) ↔
      ∀ file, state.file = some file →
        ∀ arguments ∈ reads (file.length + 1) file, FitsBuffers arguments) ∧
    ∀ front call back, calls = front ++ call :: back → Writes call →
      (∀ other ∈ back, ¬ Writes other) →
      ∃ result, topiclistLoad (run ⟨some start, some initial⟩ calls) = some result ∧
        ∀ channelName, channelGetTopic result.1 channelName =
          toSave ((front ++ [call]).foldl note (opening start)) channelName := by
  constructor
  · intro state
    cases there : state.file with
    | none => simp [topiclistLoad, there]
    | some file =>
      have fits := load_loop_fits (file.length + 1) file []
      simp only [topiclistLoad, there, Option.some.injEq, forall_eq']
      rw [← fits]
      cases loadLoop (file.length + 1) file [] <;> simp
  rintro front call back rfl writes quiet
  have marked : ∀ topic ∈ start, topic.save = true := by
    obtain ⟨topics, read, same⟩ := map_eq_some_iff.mp loaded
    cases same
    exact load_marked _ _ [] (by simp) read
  have kept : Kept start (opening start) := by
    refine ⟨tidy.distinct, fun channelName => ?_, fun topic inside _ =>
      tidy.writable topic inside⟩
    apply Option.map_congr
    intro topic found
    rw [marked topic (mem_of_find?_eq_some found)]
  obtain ⟨before, behind⟩ := careful_split careful
  obtain ⟨middle, listed, keeps, _⟩ := run_kept rfl kept before
  obtain ⟨later, there, still, wrote, _⟩ := set_kept listed keeps (behind [] call back rfl)
  rw [← singleton_append] at behind
  obtain ⟨_, _, _, silent⟩ := run_kept there still (careful_split behind).2
  obtain ⟨result, loads, gives⟩ := load_written still
    (run ⟨some start, some initial⟩ (front ++ call :: back)).head
  refine ⟨result, ?_, fun channelName => ?_⟩
  · rw [← loads, ← wrote writes, ← silent quiet]
    simp only [run, foldl_append, foldl_cons]
  · rw [gives, foldl_append]
    rfl

def setLobby : Call where
  opens := true
  channelName := text "Lobby"
  topicText := text "be nice"
  doSave := true
  short := by decide
  allowed := by decide
  nulFree := by decide

theorem lobby_comes_back : ∃ result,
    topiclistLoad (run ⟨some [], some []⟩ [setLobby]) = some result ∧
      channelGetTopic result.1 (text "LOBBY") = some (text "be nice") := by
  have careful : CarefulRun ⟨some [], some []⟩ [setLobby] := by
    intro front call back same
    cases front with
    | nil =>
      cases same
      exact ⟨by decide, by decide⟩
    | cons first rest => simp at same
  obtain ⟨result, loads, gives⟩ := (topics_come_back [] none [] [setLobby] rfl
    ⟨by simp [Distinct], by simp⟩ careful).2 [] setLobby [] rfl ⟨rfl, rfl⟩ (by simp)
  exact ⟨result, loads, (gives _).trans (by decide)⟩

def clearAttic : Call where
  opens := true
  channelName := text "Attic"
  topicText := []
  doSave := true
  short := by decide
  allowed := by decide
  nulFree := by decide

/-- Behind an empty topic nothing is read, and the topic of another channel is lost. -/
theorem lobby_lost :
    (topiclistLoad (run ⟨some [], some []⟩ [setLobby, clearAttic])).map
        (fun result => channelGetTopic result.1 (text "Lobby")) = some none ∧
      toSave ([setLobby, clearAttic].foldl note (opening [])) (text "Lobby") =
        some (text "be nice") := by
  decide +kernel

end Pvpgn.Topics
