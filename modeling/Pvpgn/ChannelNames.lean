import Pvpgn.Channels
import Mathlib.Data.List.Induction

/-!
What `channellist_find_channel_by_name` finds and when it creates a copy. The recursive search is
first shown to be one traversal, in which a channel with the short name stands for the channel that
its own full name leads to.
-/

namespace Pvpgn.ChannelNames
open Stdio ObjectStore Channels Option
open Nat (exists_eq_succ_of_ne_zero le_of_lt_succ lt_succ_self succ_eq_add_one)

section Search
variable (env : LogEnv) (country realmname : Option Text)

/-- The traversal of a front of the list, given in reverse. -/
def survey : List Entry → Text → Entry ⊕ Locals
  | [], _ => .inr .initial
  | channel :: front, name =>
    match survey front name with
    | .inl found => .inl found
    | .inr locals =>
      if sameCaseless channel.2.name name then .inl channel
      else if hasShortname channel.2 name then
        let special := (survey front channel.2.name).elim id fun _ => channel
        match visit country realmname locals special.2 with
        | none => .inl special
        | some locals => .inr locals
      else .inr locals

/-- The channel that a channel with the short name stands for: the search for its full name ends at
the channel itself at the latest. -/
def standsFor (front : List Entry) (channel : Entry) : Entry :=
  (survey country realmname front channel.2.name).elim id fun _ => channel

variable {env country realmname} {channels : ChannelList} {name : Text}
  {recurse : ChannelList → Text → Option (ChannelList × Option Entry)}

theorem survey_cons (channel : Entry) (front : List Entry) (name : Text) :
    survey country realmname (channel :: front) name =
      match survey country realmname front name with
      | .inl found => .inl found
      | .inr locals =>
        if sameCaseless channel.2.name name then .inl channel
        else if hasShortname channel.2 name then
          match visit country realmname locals
            (standsFor country realmname front channel).2 with
          | none => .inl (standsFor country realmname front channel)
          | some locals => .inr locals
        else .inr locals := rfl

theorem survey_found {front : List Entry} {channel : Entry}
    (found : survey country realmname front name = .inl channel) (later : List Entry) :
    survey country realmname (later ++ front) name = .inl channel := by
  induction later with
  | nil => exact found
  | cons other later ih => rw [List.cons_append, survey, ih]

/-- The recursive searches from a front of the list end. -/
def Resolves (country realmname : Option Text) (channels : ChannelList) (length : Nat)
    (recurse : ChannelList → Text → Option (ChannelList × Option Entry)) : Prop :=
  ∀ front channel back, channels.head.objects = front ++ channel :: back → front.length < length →
    recurse channels channel.2.name =
      some (channels, some (standsFor country realmname front.reverse channel))

theorem loop_survey {length : Nat} (resolves : Resolves country realmname channels length recurse)
    (name : Text) {front middle back : List Entry} {locals : Locals}
    (listed : channels.head.objects = front ++ middle ++ back)
    (within : (front ++ middle).length ≤ length)
    (passed : survey country realmname front.reverse name = .inr locals) (steps : Nat) :
    searchLoop country realmname recurse name (middle.length + steps) front.length locals channels =
      match survey country realmname (front ++ middle).reverse name with
      | .inl channel => some (channels, .inl channel)
      | .inr locals =>
        searchLoop country realmname recurse name steps (front ++ middle).length locals
          channels := by
  induction middle generalizing front locals with
  | nil => simp [passed]
  | cons channel middle ih =>
    have split : channels.head.objects = front ++ channel :: (middle ++ back) := by
      rw [listed, List.append_assoc, List.cons_append]
    have here : channels.head.objects[front.length]? = some channel := by
      rw [split, List.getElem?_append_right (Nat.le_refl _), Nat.sub_self]
      rfl
    have parts : front ++ channel :: middle = front ++ [channel] ++ middle := by simp
    have count : (channel :: middle).length + steps = (middle.length + steps) + 1 := by
      rw [List.length_cons]
      omega
    have onward {locals : Locals}
        (passed : survey country realmname (front ++ [channel]).reverse name = .inr locals) :
        searchLoop country realmname recurse name (middle.length + steps) (front.length + 1)
            locals channels =
          match survey country realmname (front ++ channel :: middle).reverse name with
          | .inl channel => some (channels, .inl channel)
          | .inr locals =>
            searchLoop country realmname recurse name steps
              (front ++ channel :: middle).length locals channels := by
      have rest := ih (by rw [listed, parts]) (by rw [← parts]; exact within) passed
      rw [← parts, List.length_append, List.length_singleton] at rest
      exact rest
    have ended {found : Entry}
        (here : survey country realmname (front ++ [channel]).reverse name = .inl found) :
        survey country realmname (front ++ channel :: middle).reverse name = .inl found := by
      rw [parts, List.reverse_append]
      exact survey_found here _
    have step : survey country realmname (front ++ [channel]).reverse name =
        survey country realmname (channel :: front.reverse) name := by simp
    rw [survey_cons, passed] at step
    rw [count, searchLoop, here]
    by_cases full : sameCaseless channel.2.name name
    · simp only [if_pos full] at step ⊢
      rw [ended step]
    simp only [if_neg full] at step ⊢
    by_cases short : hasShortname channel.2 name
    · have inside : front.length < length := by
        simp only [List.length_append, List.length_cons] at within
        omega
      simp only [if_pos short] at step ⊢
      rw [resolves front channel _ split inside]
      simp only [bind_eq_bind, bind_some, getD_some]
      cases visited : visit country realmname locals
          (standsFor country realmname front.reverse channel).2 with
      | none =>
        rw [visited] at step
        rw [ended step]
      | some locals =>
        rw [visited] at step
        exact onward step
    · simp only [if_neg short] at step ⊢
      exact onward step

theorem search_resolves (env : LogEnv) (country realmname : Option Text) (depth : Nat) :
    Resolves country realmname channels depth (searchChannel env country realmname depth) := by
  induction depth with
  | zero => exact fun _ _ _ _ inside => absurd inside (Nat.not_lt_zero _)
  | succ depth ih =>
    intro front channel back listed inside
    have steps : channels.head.objects.length + 1 = front.length + (back.length + 1 + 1) := by
      rw [listed, List.length_append, List.length_cons]
      omega
    have whole : channels.head.objects = [] ++ front ++ channel :: back := listed
    have ran := loop_survey ih channel.2.name whole (Nat.le_of_lt_succ inside) rfl
      (back.length + 1 + 1)
    rw [List.length_nil, List.nil_append, ← steps] at ran
    rw [searchChannel, ran, standsFor]
    cases survey country realmname front.reverse channel.2.name with
    | inl found => rfl
    | inr locals =>
      have here : channels.head.objects[front.length]? = some channel := by
        rw [listed, List.getElem?_append_right (Nat.le_refl _), Nat.sub_self]
        rfl
      have same : sameCaseless channel.2.name channel.2.name = true := by simp [sameCaseless]
      simp only [searchLoop, here, if_pos same]
      rfl

theorem search_survey {depth : Nat} (deep : channels.head.objects.length < depth) :
    searchChannel env country realmname depth channels name =
      match survey country realmname channels.head.objects.reverse name with
      | .inl channel => some (channels, some channel)
      | .inr locals => some (createCopy env locals channels) := by
  obtain ⟨depth, rfl⟩ := exists_eq_succ_of_ne_zero (ne_zero_of_lt deep)
  have listed : channels.head.objects = [] ++ channels.head.objects ++ [] := by simp
  have ran := loop_survey (search_resolves env country realmname depth) name listed
    (le_of_lt_succ deep) rfl 1
  rw [List.length_nil, List.nil_append] at ran
  rw [succ_eq_add_one, searchChannel, ran]
  cases survey country realmname channels.head.objects.reverse name with
  | inl found => rfl
  | inr locals =>
    have past : channels.head.objects[channels.head.objects.length]? = none := by simp
    simp only [searchLoop, past]
    rfl

end Search

/-! Which channels a search asks for room, and what it knows when none of them has any. -/
section Asked
variable (country realmname : Option Text)

def suiting (candidates : List Channel) : List Channel :=
  candidates.filter (suits country realmname false)

def countryless (channel : Channel) : Bool := channel.country.isNone

/-- Channels without a country are asked up to the first one that has one. -/
def general (candidates : List Channel) : List Channel :=
  (suiting country realmname candidates).takeWhile countryless

/-- From there on, the channels of the requested country, or all if none is requested. -/
def languageSpecific (candidates : List Channel) : List Channel :=
  ((suiting country realmname candidates).dropWhile countryless).filter
    (suits country realmname true)

def asked (candidates : List Channel) : List Channel :=
  general country realmname candidates ++ languageSpecific country realmname candidates

/-- The channels that the number of a copy counts. -/
def counted (candidates : List Channel) : List Channel :=
  if languageSpecific country realmname candidates = [] then general country realmname candidates
  else languageSpecific country realmname candidates

def tally (candidates : List Channel) : Locals :=
  { Locals.initial with
    foundlang := languageSpecific country realmname candidates ≠ []
    maxchannel := (counted country realmname candidates).length
    savespecialname := (languageSpecific country realmname candidates).head?.bind fun first =>
      if hasFlag first.flags channelFlagsAutoname then none else some first.name }

def summary (candidates : List Channel) : Locals :=
  candidates.getLast?.elim (tally country realmname candidates) fun last =>
    save country realmname last (tally country realmname candidates)

variable {country realmname}

theorem suits_language (channel : Channel) : suits country realmname true channel =
    (suits country realmname false channel && (country.isNone || channel.country.isSome)) := by
  cases country <;> cases home : channel.country <;> simp [suits, home]

theorem language_nil {candidates : List Channel} :
    languageSpecific country realmname candidates = [] ↔
      (suiting country realmname candidates).dropWhile countryless = [] := by
  rw [languageSpecific]
  constructor
  · intro none
    by_contra some
    have first := List.head_dropWhile_not countryless some
    have member := List.head_mem some
    have suited := (List.mem_filter.mp ((List.dropWhile_sublist _).subset member)).2
    have missed := List.filter_eq_nil_iff.mp none _ member
    rw [suits_language, suited] at missed
    simp [isNone_eq_false_iff.mp first] at missed
  · intro nil
    rw [nil, List.filter_nil]

section
variable (candidates : List Channel) (channel : Channel)
include candidates channel

theorem suiting_append :
    suiting country realmname (candidates ++ [channel]) = suiting country realmname candidates ++
      if suits country realmname false channel then [channel] else [] := by
  simp [suiting, List.filter_append, List.filter_cons]

theorem language_append :
    languageSpecific country realmname (candidates ++ [channel]) =
      if suits country realmname true channel ∧
          (languageSpecific country realmname candidates ≠ [] ∨ ¬ countryless channel) then
        languageSpecific country realmname candidates ++ [channel]
      else languageSpecific country realmname candidates := by
  have known : languageSpecific country realmname candidates = [] ↔
      (suiting country realmname candidates).dropWhile countryless = [] := language_nil
  rw [languageSpecific, suiting_append, List.dropWhile_append]
  by_cases nil : languageSpecific country realmname candidates = []
  · rw [if_pos (List.isEmpty_iff.mpr (known.mp nil)), nil]
    by_cases suited : suits country realmname false channel
    · by_cases home : countryless channel
      · simp [suited, home]
      · simp [suited, home, List.filter_cons]
    · simp [suits_language, suited]
  · rw [if_neg (fun empty => nil (known.mpr (List.isEmpty_iff.mp empty))), List.filter_append,
      ← languageSpecific]
    by_cases suited : suits country realmname false channel
    · by_cases language : suits country realmname true channel
      · simp [suited, language, nil]
      · simp [suited, language]
    · simp [suits_language, suited]

theorem general_append :
    general country realmname (candidates ++ [channel]) =
      if languageSpecific country realmname candidates = [] ∧
          suits country realmname false channel ∧ countryless channel then
        general country realmname candidates ++ [channel]
      else general country realmname candidates := by
  rw [general, suiting_append, List.takeWhile_append]
  have known : languageSpecific country realmname candidates = [] ↔
      (suiting country realmname candidates).dropWhile countryless = [] := language_nil
  have whole : ((suiting country realmname candidates).takeWhile countryless).length =
        (suiting country realmname candidates).length ↔
      (suiting country realmname candidates).dropWhile countryless = [] := by
    have parts := congrArg List.length
      (List.takeWhile_append_dropWhile (p := countryless)
        (l := suiting country realmname candidates))
    rw [List.length_append] at parts
    rw [← List.length_eq_zero_iff]
    omega
  by_cases nil : languageSpecific country realmname candidates = []
  · have all : general country realmname candidates = suiting country realmname candidates := by
      have parts := List.takeWhile_append_dropWhile (p := countryless)
        (l := suiting country realmname candidates)
      rw [known.mp nil, List.append_nil] at parts
      exact parts
    rw [if_pos (whole.mpr (known.mp nil)), all]
    by_cases suited : suits country realmname false channel
    · by_cases home : countryless channel
      · simp [nil, suited, home]
      · simp [suited, home]
    · simp [suited]
  · rw [if_neg (fun all => nil (known.mpr (whole.mp all))), if_neg (fun both => nil both.1)]
    rfl

theorem asked_append :
    asked country realmname (candidates ++ [channel]) = asked country realmname candidates ++
      if suits country realmname (languageSpecific country realmname candidates ≠ []) channel then
        [channel]
      else [] := by
  rw [asked, asked, general_append, language_append]
  by_cases nil : languageSpecific country realmname candidates = []
  · by_cases suited : suits country realmname false channel
    · by_cases home : countryless channel
      · simp [nil, suited, home]
      have language : suits country realmname true channel := by
        rw [countryless, isNone_iff_eq_none] at home
        simp [suits_language, suited, isSome_iff_ne_none.mpr home]
      simp [nil, suited, home, language]
    · simp [nil, suited, suits_language]
  · by_cases language : suits country realmname true channel
    · simp [nil, language]
    · simp [nil, language]

theorem tally_append :
    tally country realmname (candidates ++ [channel]) =
      if suits country realmname (languageSpecific country realmname candidates ≠ []) channel then
        count channel (tally country realmname candidates)
      else tally country realmname candidates := by
  rw [tally, tally, counted, counted, general_append, language_append]
  by_cases nil : languageSpecific country realmname candidates = []
  · by_cases suited : suits country realmname false channel
    · by_cases home : channel.country.isNone
      · have none : channel.country = none := isNone_iff_eq_none.mp home
        simp [nil, suited, countryless, none, count]
      · have some : channel.country.isSome :=
          isSome_iff_ne_none.mpr (mt isNone_iff_eq_none.mpr home)
        simp [nil, suited, countryless, suits_language, some, home, count, Locals.initial]
    · simp [nil, suited, suits_language]
  · by_cases language : suits country realmname true channel
    · obtain ⟨first, rest, found⟩ := List.exists_cons_of_ne_nil nil
      simp [found, language, count]
    · simp [nil, language]

end

theorem summary_foundlang (candidates : List Channel) :
    (summary country realmname candidates).foundlang =
      decide (languageSpecific country realmname candidates ≠ []) := by
  rw [summary]
  cases candidates.getLast? <;> rfl

theorem save_summary (candidates : List Channel) (channel : Channel) :
    save country realmname channel (summary country realmname candidates) =
      save country realmname channel (tally country realmname candidates) := by
  rw [summary]
  cases candidates.getLast? <;> rfl

theorem count_save (channel last : Channel) (locals : Locals) :
    count channel (save country realmname last locals) =
      save country realmname last (count channel locals) := by
  have kept : (save country realmname last locals).foundlang = locals.foundlang := rfl
  rw [count, count, kept]
  split <;> rfl

theorem save_count (candidates : List Channel) (channel : Channel) :
    save country realmname channel (count channel (summary country realmname candidates)) =
      save country realmname channel (count channel (tally country realmname candidates)) := by
  rw [summary]
  cases candidates.getLast? with
  | none => rfl
  | some last =>
    rw [elim_some, count_save]
    rfl

theorem visits_summary (candidates : List Channel) :
    candidates.foldlM (visit country realmname) Locals.initial =
      if (asked country realmname candidates).any hasRoom then none
      else some (summary country realmname candidates) := by
  induction candidates using List.reverseRecOn with
  | nil => rfl
  | append_singleton candidates channel ih =>
    rw [List.foldlM_append, ih, asked_append, List.any_append]
    by_cases room : (asked country realmname candidates).any hasRoom
    · simp [room]
    have whole : summary country realmname (candidates ++ [channel]) =
        save country realmname channel (tally country realmname (candidates ++ [channel])) := by
      rw [summary, List.getLast?_concat, elim_some]
    simp only [if_neg room, bind_eq_bind, bind_some, List.foldlM_cons,
      List.foldlM_nil, visit, summary_foundlang]
    rw [Bool.not_eq_true] at room
    rw [room, Bool.false_or, whole, tally_append]
    split
    · by_cases own : hasRoom channel
      · simp [own]
      · simp [own, save_count]
    · simp [save_summary]

end Asked

/-! The claim of the search, and the lists for which it holds. -/
section Verdict
variable (country realmname : Option Text)

/-- The channels that those with the short name stand for, for a front given in reverse. -/
def candidates : List Entry → Text → List Channel
  | [], _ => []
  | channel :: front, name =>
    candidates front name ++
      if hasShortname channel.2 name then [(standsFor country realmname front channel).2] else []

/-- A request by short name, country and realm. -/
def Matching (name : Text) (channel : Channel) : Prop :=
  hasShortname channel name ∧ suits country realmname false channel

structure Served (channels : ChannelList) (name : Text) (after : ChannelList)
    (result : Option Entry) : Prop where
  found : (∃ channel ∈ channels.head.objects, sameCaseless channel.2.name name ∨
    Matching country realmname name channel.2) → result ≠ none
  listed : ∀ channel, result = some channel → channel ∈ after.head.objects
  room : ∀ channel, result = some channel →
    (channel ∈ channels.head.objects ∧ sameCaseless channel.2.name name) ∨ hasRoom channel.2
  full : after.head.objects ≠ channels.head.objects →
    ∀ channel ∈ channels.head.objects, Matching country realmname name channel.2 →
      ¬ hasRoom channel.2
  fresh : ∀ copy ∈ after.head.objects, copy ∉ channels.head.objects →
    ∀ channel ∈ channels.head.objects, ¬ sameCaseless channel.2.name copy.2.name

/-- The full name of a copy. The last candidate is what the copy is made of, and the number is one
more than there are channels of the language. -/
def copyName (candidates : List Channel) (last : Channel) : Option Text :=
  let realmname' := if realmname.isSome then realmname else last.realmname
  let number := (counted country realmname candidates).length + 1
  let special := (languageSpecific country realmname candidates).head?.filter fun first =>
    !hasFlag first.flags channelFlagsAutoname
  match special with
  | some first => channelFormatName (some first.name) none realmname' number
  | none => channelFormatName last.shortname
      (if country.isSome then country else last.country) realmname' number

def NothingMatches (channels : ChannelList) (name : Text) : Prop :=
  ∀ channel ∈ channels.head.objects, ¬ Matching country realmname name channel.2

/-- A copy helps if its name is new, if it takes members, and if no channel with room is passed
over. A request that no channel matches needs no copy. -/
def CopyServes (channels : ChannelList) (name : Text) (candidates : List Channel)
    (last : Channel) : Prop :=
  match copyName country realmname candidates last with
  | none => NothingMatches country realmname channels name
  | some copy =>
    match channellistFindChannelByFullname channels copy with
    | some channel =>
      refuses channel.2 last.clienttag (hasFlag last.flags channelFlagsAllowbots)
        (hasFlag last.flags channelFlagsAllowopers) last.logname.isSome last.maxmembers
        (hasFlag last.flags channelFlagsModerated) ∧
        NothingMatches country realmname channels name
    | none =>
      (last.maxmembers = -1 ∨ 0 < last.maxmembers) ∧
        ∀ channel ∈ channels.head.objects, Matching country realmname name channel.2 →
          hasRoom channel.2 → channel.2 ∈ asked country realmname candidates

/-- A channel has the full name, or one that is asked has room, or a copy helps. -/
def Serves (channels : ChannelList) (name : Text) : Prop :=
  let candidates := candidates country realmname channels.head.objects.reverse name
  (∃ channel ∈ channels.head.objects, sameCaseless channel.2.name name) ∨
    (∃ channel ∈ asked country realmname candidates, hasRoom channel) ∨
    ∀ last, candidates.getLast? = some last →
      CopyServes country realmname channels name candidates last

variable {country realmname} {channels : ChannelList} {name : Text}

theorem stands_for_listed (front : List Entry) (channel : Entry) :
    standsFor country realmname front channel ∈ channel :: front := by
  have inside (name : Text) (found : Entry)
      (hit : survey country realmname front name = .inl found) : found ∈ front := by
    induction front generalizing name found with
    | nil => cases hit
    | cons other front ih =>
      rw [survey_cons] at hit
      cases before : survey country realmname front name with
      | inl earlier =>
        rw [before] at hit
        cases hit
        exact List.mem_cons_of_mem _ (ih _ _ before)
      | inr locals =>
        have stands : standsFor country realmname front other ∈ other :: front := by
          rw [standsFor]
          cases own : survey country realmname front other.2.name with
          | inl found => exact List.mem_cons_of_mem _ (ih _ _ own)
          | inr locals => exact List.mem_cons_self
        simp only [before] at hit
        split at hit
        · cases hit
          exact List.mem_cons_self
        split at hit
        · split at hit
          · cases hit
            exact stands
          · cases hit
        · cases hit
  rw [standsFor]
  cases own : survey country realmname front channel.2.name with
  | inl found => exact List.mem_cons_of_mem _ (inside _ _ own)
  | inr locals => exact List.mem_cons_self

variable {last : Channel} {front : List Entry}

theorem survey_hit {found : Entry} (hit : survey country realmname front name = .inl found) :
    found ∈ front ∧ (sameCaseless found.2.name name ∨ hasRoom found.2) := by
  induction front with
  | nil => cases hit
  | cons channel front ih =>
    rw [survey_cons] at hit
    cases before : survey country realmname front name with
    | inl earlier =>
      rw [before] at hit
      cases hit
      exact ⟨List.mem_cons_of_mem _ (ih before).1, (ih before).2⟩
    | inr locals =>
      simp only [before] at hit
      by_cases full : sameCaseless channel.2.name name
      · rw [if_pos full] at hit
        cases hit
        exact ⟨List.mem_cons_self, Or.inl full⟩
      rw [if_neg full] at hit
      by_cases short : hasShortname channel.2 name
      · rw [if_pos short] at hit
        cases visited : visit country realmname locals
            (standsFor country realmname front channel).2 with
        | none =>
          simp only [visited] at hit
          cases hit
          refine ⟨stands_for_listed front channel, Or.inr ?_⟩
          rw [visit] at visited
          split at visited
          · split at visited
            · assumption
            · cases visited
          · cases visited
        | some locals =>
          simp only [visited] at hit
          cases hit
      · rw [if_neg short] at hit
        cases hit

theorem survey_passed {locals : Locals} :
    survey country realmname front name = .inr locals ↔
      (∀ channel ∈ front, ¬ sameCaseless channel.2.name name) ∧
        (candidates country realmname front name).foldlM (visit country realmname)
          Locals.initial = some locals := by
  induction front generalizing locals with
  | nil =>
    rw [survey, candidates, List.foldlM_nil]
    simp
  | cons channel front ih =>
    rw [survey_cons, candidates, List.foldlM_append, List.forall_mem_cons]
    cases before : survey country realmname front name with
    | inl found =>
      have missed : ¬ ∃ locals, (∀ channel ∈ front, ¬ sameCaseless channel.2.name name) ∧
          (candidates country realmname front name).foldlM (visit country realmname)
            Locals.initial = some locals := by
        rintro ⟨locals, passed⟩
        rw [ih.mpr passed] at before
        cases before
      constructor
      · intro passed
        cases passed
      · rintro ⟨⟨_, others⟩, visited⟩
        obtain ⟨middle, passed, _⟩ := bind_eq_some_iff.mp visited
        exact absurd ⟨middle, others, passed⟩ missed
    | inr middle =>
      obtain ⟨others, visited⟩ := ih.mp before
      have apart : ∀ (address : Nat) (other : Channel), (address, other) ∈ front →
          sameCaseless other.name name = false := by
        intro address other inside
        simpa using others (address, other) inside
      by_cases full : sameCaseless channel.2.name name
      · simp [full]
      by_cases short : hasShortname channel.2 name
      · cases own : visit country realmname middle
            (standsFor country realmname front channel).2 with
        | none => simp [full, short, visited, own]
        | some last =>
          simpa [full, short, visited, own] using fun _ : last = locals => apart
      · simpa [full, short, visited] using fun _ : middle = locals => apart

theorem format_ne_nil {sname country realmname : Option Text} {id : Nat} {copy : Text}
    (formatted : channelFormatName sname country realmname id = some copy) : copy ≠ [] := by
  obtain ⟨name, _, rfl⟩ := map_eq_some_iff.mp formatted
  have dash : text "-" ≠ [] := by decide
  simp [dash]

theorem copy_name_ne_nil {candidates : List Channel} {copy : Text}
    (formatted : copyName country realmname candidates last = some copy) : copy ≠ [] := by
  rw [copyName] at formatted
  split at formatted
  · exact format_ne_nil formatted
  · exact format_ne_nil formatted

theorem channelname_copy (candidates : List Channel) (last : Channel) :
    channelname (save country realmname last (tally country realmname candidates)) =
      copyName country realmname candidates last := by
  rw [channelname, copyName]
  cases language : languageSpecific country realmname candidates with
  | nil => simp [save, tally, language]
  | cons first rest =>
    by_cases automatic : hasFlag first.flags channelFlagsAutoname
    · simp [save, tally, language, automatic, Option.filter]
    · simp [save, tally, language, automatic, Option.filter]

theorem create_copy (env : LogEnv) (channels : ChannelList) {candidates : List Channel}
    (found : candidates.getLast? = some last) :
    createCopy env (summary country realmname candidates) channels =
      match copyName country realmname candidates last with
      | none => (channels, none)
      | some copy =>
        channelCreate env channels copy last.shortname last.clienttag true
          (hasFlag last.flags channelFlagsAllowbots) (hasFlag last.flags channelFlagsAllowopers)
          last.logname.isSome (if country.isSome then country else last.country)
          (if realmname.isSome then realmname else last.realmname) last.maxmembers
          (hasFlag last.flags channelFlagsModerated) false true := by
  have kept : (save country realmname last (tally country realmname candidates)).foundperm = true :=
    rfl
  rw [summary, found, elim_some, createCopy, if_pos kept, channelname_copy]
  cases copyName country realmname candidates last <;> rfl

theorem served_hit {found : Entry}
    (hit : survey country realmname channels.head.objects.reverse name = .inl found) :
    Served country realmname channels name channels (some found) := by
  obtain ⟨member, verdict⟩ := survey_hit hit
  have inside : found ∈ channels.head.objects := List.mem_reverse.mp member
  constructor
  · exact fun _ none => some_ne_none _ none
  · rintro channel ⟨⟩
    exact inside
  · rintro channel ⟨⟩
    exact verdict.imp_left fun full => ⟨inside, full⟩
  · exact fun changed => absurd rfl changed
  · exact fun copy member absent => absurd member absent

theorem served_nothing
    (unnamed : ∀ channel ∈ channels.head.objects, ¬ sameCaseless channel.2.name name) :
    Served country realmname channels name channels none ↔
      NothingMatches country realmname channels name := by
  constructor
  · intro served channel member matching
    exact served.found ⟨channel, member, Or.inr matching⟩ rfl
  intro nothing
  constructor
  · rintro ⟨channel, member, full | matching⟩
    · exact absurd full (unnamed channel member)
    · exact absurd matching (nothing channel member)
  · rintro channel ⟨⟩
  · rintro channel ⟨⟩
  · exact fun changed => absurd rfl changed
  · exact fun copy member absent => absurd member absent

theorem served_created {copy : Channel} {totalcount : UInt32} {fullname : Text}
    (created : Created copy fullname true last.maxmembers) :
    Served country realmname channels name
        { head := channels.head.append copy, totalcount } (some (channels.head.allocated, copy)) ↔
      (∀ channel ∈ channels.head.objects, ¬ sameCaseless channel.2.name fullname) ∧
        (last.maxmembers = -1 ∨ 0 < last.maxmembers) ∧
        ∀ channel ∈ channels.head.objects, Matching country realmname name channel.2 →
          ¬ hasRoom channel.2 := by
  have absent : (channels.head.allocated, copy) ∉ channels.head.objects := fun member =>
    lt_irrefl _ (channels.head.below _ (List.mem_map_of_mem member))
  have room : hasRoom copy ↔ last.maxmembers = -1 ∨ 0 < last.maxmembers := by
    simp [hasRoom, created.maxmembers, created.currmembers]
  constructor
  · intro served
    refine ⟨?_, ?_, served.full ?_⟩
    · rw [← created.name]
      exact served.fresh _ (by simp) absent
    · rcases served.room _ rfl with ⟨listed, _⟩ | own
      · exact absurd listed absent
      · exact room.mp own
    · simp
  rintro ⟨fresh, takes, full⟩
  constructor
  · exact fun _ none => some_ne_none _ none
  · rintro channel ⟨⟩
    simp
  · rintro channel ⟨⟩
    exact Or.inr (room.mpr takes)
  · exact fun _ => full
  · intro other member new
    rcases List.mem_append.mp member with old | last
    · exact absurd old new
    · rw [List.mem_singleton.mp last, created.name]
      exact fresh

theorem served_copy (env : LogEnv) {candidates : List Channel}
    (unnamed : ∀ channel ∈ channels.head.objects, ¬ sameCaseless channel.2.name name)
    (packed : ∀ channel ∈ asked country realmname candidates, ¬ hasRoom channel)
    (found : candidates.getLast? = some last) :
    Served country realmname channels name
        (createCopy env (summary country realmname candidates) channels).1
        (createCopy env (summary country realmname candidates) channels).2 ↔
      CopyServes country realmname channels name candidates last := by
  rw [create_copy env channels found, CopyServes]
  cases formatted : copyName country realmname candidates last with
  | none => exact served_nothing unnamed
  | some copy =>
    obtain ⟨stop, go⟩ := create_cases env channels last.clienttag true
      (hasFlag last.flags channelFlagsAllowbots) (hasFlag last.flags channelFlagsAllowopers)
      last.logname.isSome (if country.isSome then country else last.country)
      (if realmname.isSome then realmname else last.realmname) last.maxmembers
      (hasFlag last.flags channelFlagsModerated) false true (copy_name_ne_nil formatted)
      last.aliased
    cases listed : channellistFindChannelByFullname channels copy with
    | none =>
      obtain ⟨channel, totalcount, created, result⟩ := go (by simp [listed])
      have fresh : ∀ channel ∈ channels.head.objects,
          ¬ sameCaseless channel.2.name copy := List.find?_eq_none.mp listed
      simp only [result, listed]
      rw [served_created created]
      constructor
      · rintro ⟨_, takes, full⟩
        exact ⟨takes, fun channel member matching room =>
          absurd room (full channel member matching)⟩
      · rintro ⟨takes, overlooked⟩
        exact ⟨fresh, takes, fun channel member matching room =>
          packed _ (overlooked channel member matching room) room⟩
    | some old =>
      by_cases clash : refuses old.2 last.clienttag
          (hasFlag last.flags channelFlagsAllowbots) (hasFlag last.flags channelFlagsAllowopers)
          last.logname.isSome last.maxmembers (hasFlag last.flags channelFlagsModerated)
      · simp only [stop (by simp [listed, clash]), listed]
        rw [served_nothing unnamed]
        exact (and_iff_right clash).symm
      obtain ⟨channel, totalcount, created, result⟩ := go (by simp [listed, clash])
      simp only [result, listed]
      rw [served_created created]
      constructor
      · rintro ⟨fresh, _⟩
        exact absurd (List.find?_some listed) (fresh old (List.mem_of_find?_eq_some listed))
      · rintro ⟨refused, _⟩
        exact absurd refused clash

theorem candidates_nil (none : candidates country realmname front name = []) :
    ∀ channel ∈ front, ¬ hasShortname channel.2 name := by
  induction front with
  | nil => simp
  | cons channel front ih =>
    rw [candidates, List.append_eq_nil_iff] at none
    intro other member
    rcases List.mem_cons.mp member with rfl | inside
    · intro short
      rw [if_pos short] at none
      cases none.2
    · exact ih none.1 other inside

theorem create_copy_outcome (env : LogEnv) (locals : Locals) (channels : ChannelList) :
    createCopy env locals channels = (channels, none) ∨
      ∃ copy totalcount fullname maxmembers, Created copy fullname true maxmembers ∧
        createCopy env locals channels = ({ head := channels.head.append copy, totalcount },
          some (channels.head.allocated, copy)) := by
  rw [createCopy]
  split
  · split
    · exact Or.inl rfl
    · next fullname _ =>
      refine (create_outcome env channels fullname _ _ _ _ _ _ _ _ _ _ _ _).imp_right ?_
      rintro ⟨copy, totalcount, created, result⟩
      exact ⟨copy, totalcount, fullname, _, created, result⟩
  · exact Or.inl rfl

theorem search_cases (env : LogEnv) (country realmname : Option Text) (channels : ChannelList)
    (name : Text) :
    ∃ after result,
      channellistFindChannelByName env country realmname channels name = some (after, result) ∧
      ((after = channels ∧ ∀ channel, result = some channel → channel ∈ channels.head.objects) ∨
        ∃ copy totalcount fullname maxmembers, Created copy fullname true maxmembers ∧
          after = { head := channels.head.append copy, totalcount } ∧
          result = some (channels.head.allocated, copy)) := by
  rw [channellistFindChannelByName, search_survey (lt_succ_self _)]
  cases outcome : survey country realmname channels.head.objects.reverse name with
  | inl found =>
    refine ⟨channels, some found, rfl, Or.inl ⟨rfl, ?_⟩⟩
    rintro channel ⟨⟩
    exact List.mem_reverse.mp (survey_hit outcome).1
  | inr locals =>
    have visited := (survey_passed.mp outcome).2
    rw [visits_summary] at visited
    split at visited
    · cases visited
    cases visited
    rcases create_copy_outcome env (summary country realmname _) channels with
      same | ⟨copy, totalcount, fullname, maxmembers, created, result⟩
    · refine ⟨channels, none, congrArg some same, Or.inl ⟨rfl, ?_⟩⟩
      rintro channel ⟨⟩
    · exact ⟨_, _, congrArg some result,
        Or.inr ⟨copy, totalcount, fullname, maxmembers, created, rfl, rfl⟩⟩

/-- The search ends whatever its depth, and it does what it is for exactly for the lists in which a
channel is found or a copy helps. -/
theorem search_served_iff (env : LogEnv) (country realmname : Option Text) (channels : ChannelList)
    (name : Text) :
    ∃ after result,
      channellistFindChannelByName env country realmname channels name = some (after, result) ∧
      (∀ depth, channels.head.objects.length < depth →
        searchChannel env country realmname depth channels name = some (after, result)) ∧
      (Served country realmname channels name after result ↔
        Serves country realmname channels name) := by
  have unnamedIff : (∀ channel ∈ channels.head.objects.reverse,
        ¬ sameCaseless channel.2.name name) ↔
      ¬ ∃ channel ∈ channels.head.objects, sameCaseless channel.2.name name := by simp
  have packedIff (candidates : List Channel) : ¬ (asked country realmname candidates).any hasRoom ↔
      ¬ ∃ channel ∈ asked country realmname candidates, hasRoom channel := by simp
  cases outcome : survey country realmname channels.head.objects.reverse name with
  | inl found =>
    have ran {depth : Nat} (deep : channels.head.objects.length < depth) :
        searchChannel env country realmname depth channels name = some (channels, some found) := by
      rw [search_survey deep, outcome]
    refine ⟨channels, some found, ran (lt_succ_self _), fun _ => ran,
      iff_of_true (served_hit outcome) ?_⟩
    by_contra unserved
    rw [Serves, not_or, not_or] at unserved
    have passed := survey_passed.mpr ⟨unnamedIff.mpr unserved.1, by
      rw [visits_summary, if_neg ((packedIff _).mpr unserved.2.1)]⟩
    rw [outcome] at passed
    cases passed
  | inr locals =>
    obtain ⟨unnamed, visited⟩ := survey_passed.mp outcome
    rw [visits_summary] at visited
    split at visited
    · cases visited
    rename_i packed
    cases visited
    have ran {depth : Nat} (deep : channels.head.objects.length < depth) :
        searchChannel env country realmname depth channels name =
          some (createCopy env (summary country realmname
            (candidates country realmname channels.head.objects.reverse name)) channels) := by
      rw [search_survey deep, outcome]
    refine ⟨(createCopy env (summary country realmname _) channels).1,
      (createCopy env (summary country realmname _) channels).2, ran (lt_succ_self _),
      fun _ => ran, ?_⟩
    rw [Serves, or_iff_right (unnamedIff.mp unnamed), or_iff_right ((packedIff _).mp packed)]
    have unnamedHere : ∀ channel ∈ channels.head.objects, ¬ sameCaseless channel.2.name name :=
      fun channel member => unnamed channel (List.mem_reverse.mpr member)
    cases ends : (candidates country realmname channels.head.objects.reverse name).getLast? with
    | none =>
      have nil := List.getLast?_eq_none_iff.mp ends
      have nothing : NothingMatches country realmname channels name :=
        fun channel member matching =>
          candidates_nil nil channel (List.mem_reverse.mpr member) matching.1
      refine iff_of_true ?_ (fun last some => by cases some)
      rw [nil]
      exact (served_nothing unnamedHere).mpr nothing
    | some last =>
      rw [served_copy env unnamedHere _ ends]
      · constructor
        · rintro serves _ ⟨⟩
          exact serves
        · exact fun serves => serves last rfl
      · intro channel member room
        exact packed (List.any_eq_true.mpr ⟨channel, member, room⟩)

end Verdict

section Lobbies

def lobby (country : Text) (number : Nat) : Channel where
  name := text "Lobby " ++ country ++ text "-" ++ unsigned number
  shortname := some (text "Lobby")
  country := some country
  realmname := none
  flags := newFlags (some (text "Lobby")) 0x53544152 true true false 1 false false true
  maxmembers := 1
  currmembers := 1
  clienttag := 0x53544152
  id := 1
  memberlist := [0]
  banlist := []
  logname := none
  named := by simp [text]
  aliased := by simp [text]

def lobbyEnv : LogEnv := { chanlogdir := text "var", dstr := text "20040101000000" }

def fullLobbies : ChannelList :=
  { head := (Store.empty.append (lobby (text "USA") 1)).append (lobby (text "KOR") 1)
    totalcount := 2 }

/-- A request without a country counts both channels, and numbers a copy of the last one. -/
example : ((channellistFindChannelByName lobbyEnv none none fullLobbies (text "Lobby")).bind
    Prod.snd).map (fun channel => channel.2.name) = some (text "Lobby KOR-3") := by rfl

/-- The copy is full too. The next copy for that country would have its name, and is refused. -/
def numberedLobbies : ChannelList :=
  { head := fullLobbies.head.append (lobby (text "KOR") 3), totalcount := 3 }

theorem copy_refused : ¬ ∀ (country realmname : Option Text) (channels : ChannelList) (name : Text),
    ∃ after result,
      channellistFindChannelByName lobbyEnv country realmname channels name =
        some (after, result) ∧ Served country realmname channels name after result := by
  intro claim
  obtain ⟨after, result, ran, served⟩ :=
    claim (some (text "KOR")) none numberedLobbies (text "Lobby")
  cases ran
  have matching : Matching (some (text "KOR")) none (text "Lobby") (lobby (text "KOR") 1) :=
    ⟨by rfl, by rfl⟩
  refine served.found ⟨(1, lobby (text "KOR") 1), ?_, Or.inr matching⟩ rfl
  simp [numberedLobbies, fullLobbies, Store.empty]

end Lobbies

end Pvpgn.ChannelNames
