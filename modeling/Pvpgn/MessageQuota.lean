import Mathlib.Algebra.BigOperators.Group.List.Basic
import Mathlib.Algebra.Order.Floor.Div
import Pvpgn.Stdio

/-!
`conn_quota_exceeded` charges each message of a connection with lines and keeps the charges of the
last `quota_time` seconds in a list, with their total in an `unsigned int`.
-/

namespace Pvpgn.MessageQuota
open Stdio List Nat UInt32

structure Prefs where
  quota : Bool
  quotaLines : UInt32
  quotaTime : UInt32
  quotaWrapline : UInt32
  quotaMaxline : UInt32
  quotaDobae : UInt32

def clamped (value : UInt32) (most : Nat) : Nat :=
  let rez := if value.toNat < 1 then 1 else value.toNat
  if most < rez then most else rez

def prefsGetQuotaLines (prefs : Prefs) : Nat := clamped prefs.quotaLines 100

def prefsGetQuotaTime (prefs : Prefs) : Nat :=
  let rez := if prefs.quotaTime.toNat < 1 then 1 else prefs.quotaTime.toNat
  if 10 < rez then 60 else rez

def prefsGetQuotaWrapline (prefs : Prefs) : Nat := clamped prefs.quotaWrapline 256

def prefsGetQuotaMaxline (prefs : Prefs) : Nat := clamped prefs.quotaMaxline 256

def prefsGetQuotaDobae (prefs : Prefs) : Nat := clamped prefs.quotaDobae 100

structure Qline where
  inf : Int
  count : UInt32

structure Quota where
  totcount : UInt32
  list : List Qline

/-- `commandGroups` are the groups of the account, if there is one. -/
structure Connection where
  commandGroups : Option UInt32
  quota : Quota

/-- The traversal takes lines off the head until one is younger than `quota_time`. -/
def expire (time now : Int) : List Qline → UInt32 → Quota
  | [], totcount => ⟨totcount, []⟩
  | qline :: rest, totcount =>
    if qline.inf + time ≤ now then expire time now rest (totcount - qline.count)
    else ⟨totcount, qline :: rest⟩

def lineCount (prefs : Prefs) (text : Text) : UInt32 :=
  if prefsGetQuotaWrapline prefs < text.length then
    ofNat ((text.length + prefsGetQuotaWrapline prefs - 1) / prefsGetQuotaWrapline prefs)
  else 1

/-- `adminCon` is the group of the command that exempts. The result 2 comes with the disconnect. -/
def connQuotaExceeded (prefs : Prefs) (adminCon : UInt32) (now : Int) (con : Connection)
    (text : Text) : Int × Connection :=
  if !prefs.quota || con.commandGroups.all fun groups => groups &&& adminCon ≠ 0 then (0, con)
  else if prefsGetQuotaMaxline prefs < text.length then (1, con)
  else
    let quota := expire (prefsGetQuotaTime prefs) now con.quota.list con.quota.totcount
    let count := lineCount prefs text
    let quota : Quota := ⟨quota.totcount + count, quota.list ++ [⟨now, count⟩]⟩
    let con := { con with quota }
    if prefsGetQuotaLines prefs ≤ quota.totcount.toNat then
      if prefsGetQuotaDobae prefs ≤ quota.totcount.toNat then (2, con) else (1, con)
    else (0, con)

/-! A run: the messages of a connection, each with the time of its call. -/

structure Message where
  now : Int
  text : Text

def call (prefs : Prefs) (adminCon : UInt32) (con : Connection) (message : Message) :
    Int × Connection :=
  connQuotaExceeded prefs adminCon message.now con message.text

def run (prefs : Prefs) (adminCon : UInt32) (con : Connection) (messages : List Message) :
    Connection :=
  messages.foldl (fun con message => (call prefs adminCon con message).2) con

/-- A new connection of an account that is not exempt. -/
def newcomer (groups : UInt32) : Connection := ⟨some groups, 0, []⟩

structure Charge where
  now : Int
  lines : Nat
  deriving DecidableEq

def charge (prefs : Prefs) (message : Message) : Option Charge :=
  if message.text.length ≤ prefsGetQuotaMaxline prefs then
    some ⟨message.now, max 1 (message.text.length ⌈/⌉ prefsGetQuotaWrapline prefs)⟩
  else none

/-- The charges of the last `quota_time` seconds, in order. -/
def window (prefs : Prefs) (now : Int) (messages : List Message) : List Charge :=
  (messages.filterMap (charge prefs)).filter fun charge =>
    now < charge.now + prefsGetQuotaTime prefs

def windowLines (prefs : Prefs) (now : Int) (messages : List Message) : Nat :=
  ((window prefs now messages).map Charge.lines).sum

def Qline.charge (qline : Qline) : Charge := ⟨qline.inf, qline.count.toNat⟩

def lines (list : List Qline) : Nat := (list.map fun qline => qline.count.toNat).sum

structure QuotaRight (prefs : Prefs) (before : List Message) (message : Message) (result : Int)
    (quota : Quota) : Prop where
  ordered : quota.list.Pairwise fun left right => left.inf ≤ right.inf
  total : quota.totcount.toNat = lines quota.list
  charged : message.text.length ≤ prefsGetQuotaMaxline prefs →
    quota.list.map Qline.charge = window prefs message.now (before ++ [message])
  answer : result ≠ 0 ↔ prefsGetQuotaMaxline prefs < message.text.length ∨
    prefsGetQuotaLines prefs ≤ windowLines prefs message.now (before ++ [message])

variable {prefs : Prefs}

theorem clamped_bounds (value : UInt32) (most : Nat) (positive : 0 < most) :
    0 < clamped value most ∧ clamped value most ≤ most := by
  rw [clamped]
  split <;> split <;> omega

theorem time_positive (prefs : Prefs) : 0 < prefsGetQuotaTime prefs := by
  rw [prefsGetQuotaTime]
  split <;> split <;> omega

theorem line_count (prefs : Prefs) {text : Text}
    (short : text.length ≤ prefsGetQuotaMaxline prefs) :
    (lineCount prefs text).toNat = max 1 (text.length ⌈/⌉ prefsGetQuotaWrapline prefs) := by
  obtain ⟨positive, -⟩ := clamped_bounds prefs.quotaWrapline 256 (by omega)
  have most := (clamped_bounds prefs.quotaMaxline 256 (by omega)).2
  change 0 < prefsGetQuotaWrapline prefs at positive
  change prefsGetQuotaMaxline prefs ≤ 256 at most
  rw [lineCount, ceilDiv_eq_add_pred_div]
  split
  · have least : 1 ≤ (text.length + prefsGetQuotaWrapline prefs - 1) /
        prefsGetQuotaWrapline prefs := (le_div_iff_mul_le positive).mpr (by omega)
    have bounded : (text.length + prefsGetQuotaWrapline prefs - 1) /
        prefsGetQuotaWrapline prefs < 2 ^ 32 :=
      lt_of_le_of_lt (div_le_self _ _) (by omega)
    rw [toNat_ofNat_of_lt' bounded, max_eq_right least]
  · have least : (text.length + prefsGetQuotaWrapline prefs - 1) /
        prefsGetQuotaWrapline prefs ≤ 1 := by
      rw [div_le_iff_le_mul_add_pred positive]
      omega
    rw [max_eq_left least]
    rfl

theorem drop_old (time now : Int) {list : List Qline}
    (ordered : list.Pairwise fun left right => left.inf ≤ right.inf) :
    list.dropWhile (fun qline => qline.inf + time ≤ now) =
      list.filter fun qline => now < qline.inf + time := by
  induction list with
  | nil => rfl
  | cons qline rest ih =>
    obtain ⟨least, ordered⟩ := pairwise_cons.mp ordered
    by_cases old : qline.inf + time ≤ now
    · rw [dropWhile_cons_of_pos (by simpa using old), ih ordered,
        filter_cons_of_neg (by simpa using old)]
    rw [dropWhile_cons_of_neg (by simpa using old), eq_comm, filter_eq_self]
    intro later member
    rw [decide_eq_true_eq]
    rcases mem_cons.mp member with rfl | member
    · omega
    · have := least later member
      omega

theorem expire_total (time now : Int) (list : List Qline) (totcount : UInt32)
    (total : totcount.toNat = lines list) :
    (expire time now list totcount).list = list.dropWhile (fun qline => qline.inf + time ≤ now) ∧
      (expire time now list totcount).totcount.toNat =
        lines (list.dropWhile fun qline => qline.inf + time ≤ now) := by
  induction list generalizing totcount with
  | nil => exact ⟨rfl, total⟩
  | cons qline rest ih =>
    rw [lines, map_cons, sum_cons] at total
    by_cases old : qline.inf + time ≤ now
    · have enough : qline.count ≤ totcount := by
        rw [UInt32.le_iff_toNat_le]
        omega
      rw [expire, if_pos old, dropWhile_cons_of_pos (by simpa using old)]
      refine ih _ ?_
      rw [UInt32.toNat_sub_of_le _ _ enough, total, Nat.add_sub_cancel_left, lines]
    · rw [expire, if_neg old, dropWhile_cons_of_neg (by simpa using old)]
      exact ⟨rfl, total⟩

/-- The list is the end of all charges, and the others were too old for some call. -/
structure Holds (prefs : Prefs) (before : List Message) (quota : Quota) : Prop where
  charges : ∃ old, before.filterMap (charge prefs) = old ++ quota.list.map Qline.charge ∧
    ∀ charge ∈ old, ∃ message ∈ before, charge.now + prefsGetQuotaTime prefs ≤ message.now
  total : quota.totcount.toNat = lines quota.list

def Ordered (messages : List Message) : Prop :=
  messages.Pairwise fun left right => left.now ≤ right.now

variable {before : List Message} {quota : Quota}

theorem Holds.ordered (holds : Holds prefs before quota) (ordered : Ordered before) :
    quota.list.Pairwise fun left right => left.inf ≤ right.inf := by
  obtain ⟨old, charges, -⟩ := holds.charges
  have all : (before.filterMap (charge prefs)).Pairwise fun left right => left.now ≤ right.now := by
    rw [pairwise_filterMap]
    refine ordered.imp fun {left right} least first charged second also => ?_
    have time (message : Message) (found : Charge) (is : charge prefs message = some found) :
        found.now = message.now := by
      rw [charge] at is
      split at is <;> cases is
      rfl
    rw [time left first charged, time right second also]
    exact least
  rw [charges, pairwise_append] at all
  exact (pairwise_map.mp all.2.1).imp id

variable (adminCon : UInt32) {groups : UInt32} {message : Message}

theorem charge_step (holds : Holds prefs before quota) (ordered : Ordered (before ++ [message]))
    (short : message.text.length ≤ prefsGetQuotaMaxline prefs)
    (fits : windowLines prefs message.now (before ++ [message]) < 2 ^ 32) {kept : Quota}
    (expired : expire (prefsGetQuotaTime prefs) message.now quota.list quota.totcount = kept)
    {after : Quota} (appended : after = ⟨kept.totcount + lineCount prefs message.text,
      kept.list ++ [⟨message.now, lineCount prefs message.text⟩]⟩) :
    Holds prefs (before ++ [message]) after ∧
      after.list.map Qline.charge = window prefs message.now (before ++ [message]) ∧
      after.totcount.toNat = windowLines prefs message.now (before ++ [message]) := by
  have parts := pairwise_append.mp ordered
  obtain ⟨old, charges, gone⟩ := holds.charges
  obtain ⟨list, total⟩ := expire_total (prefsGetQuotaTime prefs) message.now quota.list
    quota.totcount holds.total
  rw [expired] at list total
  have count := line_count prefs short
  have charged : charge prefs message =
      some (Qline.charge ⟨message.now, lineCount prefs message.text⟩) := by
    rw [charge, if_pos short, Qline.charge, count]
  have all : (before ++ [message]).filterMap (charge prefs) =
      old ++ (quota.list ++ [(⟨message.now, lineCount prefs message.text⟩ : Qline)]).map
        Qline.charge := by
    rw [filterMap_append, charges, filterMap_cons_some charged]
    simp
  have windowIs : after.list.map Qline.charge = window prefs message.now (before ++ [message]) := by
    have none : old.filter (fun charge =>
        message.now < charge.now + prefsGetQuotaTime prefs) = [] := by
      rw [filter_eq_nil_iff]
      intro charge member
      obtain ⟨earlier, there, past⟩ := gone charge member
      have := parts.2.2 earlier there message (mem_singleton_self _)
      rw [decide_eq_true_eq]
      omega
    have positive := time_positive prefs
    rw [appended, list, drop_old _ _ (holds.ordered parts.1), window, all, filter_append, none,
      nil_append, map_append, map_append, filter_append, List.filter_map]
    congr 1
    have young : message.now < message.now + prefsGetQuotaTime prefs := by omega
    simp [Qline.charge, young]
  have sum : lines after.list = windowLines prefs message.now (before ++ [message]) := by
    rw [windowLines, ← windowIs, List.map_map]
    rfl
  have totals : after.totcount.toNat = lines after.list := by
    have split : lines after.list = kept.totcount.toNat + (lineCount prefs message.text).toNat := by
      rw [total, appended, list]
      simp [lines]
    rw [split, appended]
    rw [UInt32.toNat_add, mod_eq_of_lt]
    rw [← split, sum]
    exact fits
  refine ⟨⟨⟨old ++ (quota.list.takeWhile fun qline =>
    qline.inf + prefsGetQuotaTime prefs ≤ message.now).map Qline.charge, ?_, ?_⟩, totals⟩, windowIs,
    totals.trans sum⟩
  · rw [all, appended, list, append_assoc, ← map_append, ← append_assoc, takeWhile_append_dropWhile]
  intro charge member
  rcases mem_append.mp member with member | member
  · obtain ⟨earlier, there, past⟩ := gone charge member
    exact ⟨earlier, mem_append_left _ there, past⟩
  · obtain ⟨qline, taken, rfl⟩ := List.mem_map.mp member
    exact ⟨message, by simp, by simpa [Qline.charge] using mem_takeWhile_imp taken⟩

/-- No window of the run holds 2^32 lines or more. -/
def Bounded (prefs : Prefs) (messages : List Message) : Prop :=
  ∀ before message, before ++ [message] <+: messages →
    windowLines prefs message.now (before ++ [message]) < 2 ^ 32

theorem call_right (enabled : prefs.quota = true) (counted : groups &&& adminCon = 0)
    (holds : Holds prefs before quota) (ordered : Ordered (before ++ [message]))
    (fits : windowLines prefs message.now (before ++ [message]) < 2 ^ 32) :
    ∃ result after, call prefs adminCon ⟨some groups, quota⟩ message =
        (result, ⟨some groups, after⟩) ∧
      Holds prefs (before ++ [message]) after ∧
      QuotaRight prefs before message result after := by
  have passes : ¬((!prefs.quota ||
      (some groups : Option UInt32).all fun groups => groups &&& adminCon ≠ 0) = true) := by
    simp [enabled, counted]
  rw [call, connQuotaExceeded, if_neg passes]
  by_cases long : prefsGetQuotaMaxline prefs < message.text.length
  · have uncharged : (before ++ [message]).filterMap (charge prefs) =
        before.filterMap (charge prefs) := by
      rw [filterMap_append, filterMap_cons_none (by rw [charge, if_neg (by omega)])]
      simp
    rw [if_pos long]
    refine ⟨1, quota, rfl, ⟨?_, holds.total⟩, holds.ordered (pairwise_append.mp ordered).1,
      holds.total, fun short => absurd long (by omega), by simp [long]⟩
    obtain ⟨old, charges, gone⟩ := holds.charges
    refine ⟨old, uncharged.trans charges, fun charge member => ?_⟩
    obtain ⟨earlier, there, past⟩ := gone charge member
    exact ⟨earlier, mem_append_left _ there, past⟩
  · obtain ⟨after, windowIs, total⟩ :=
      charge_step holds ordered (Nat.le_of_not_lt long) fits rfl rfl
    have right (result : Int) (answer : result ≠ 0 ↔
        prefsGetQuotaLines prefs ≤ windowLines prefs message.now (before ++ [message])) :
        QuotaRight prefs before message result _ :=
      ⟨after.ordered ordered, after.total, fun _ => windowIs, by simp [long, answer]⟩
    rw [if_neg long]
    simp only [total]
    split
    · rename_i full
      split
      · exact ⟨2, _, rfl, after, right 2 (by simp [full])⟩
      · exact ⟨1, _, rfl, after, right 1 (by simp [full])⟩
    · rename_i free
      exact ⟨0, _, rfl, after, right 0 (by simp [free])⟩

theorem run_holds (enabled : prefs.quota = true) (counted : groups &&& adminCon = 0)
    (messages : List Message) (ordered : Ordered messages) (fits : Bounded prefs messages) :
    ∃ quota, run prefs adminCon (newcomer groups) messages = ⟨some groups, quota⟩ ∧
      Holds prefs messages quota := by
  induction messages using reverseRecOn with
  | nil => exact ⟨⟨0, []⟩, rfl, ⟨[], rfl, by simp⟩, rfl⟩
  | append_singleton before message ih =>
    obtain ⟨quota, reached, holds⟩ := ih (pairwise_append.mp ordered).1
      fun first last begins => fits first last (begins.trans (prefix_append _ _))
    obtain ⟨result, after, answer, holds, -⟩ := call_right adminCon enabled counted holds ordered
      (fits before message (prefix_refl _))
    refine ⟨after, ?_, holds⟩
    rw [run, foldl_append]
    change (call prefs adminCon (run prefs adminCon (newcomer groups) before) message).2 = _
    rw [reached, answer]

end Pvpgn.MessageQuota
