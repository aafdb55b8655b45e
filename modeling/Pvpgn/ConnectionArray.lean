import Pvpgn.EmbeddedList
import Mathlib.Data.List.Range

/-!
The map from session numbers to connections (`connarray`). The entries that hold no connection are
linked through the array.
-/

namespace Pvpgn.ConnectionArray
open EmbeddedList List

/-- The connection of each entry, and `arrayflist`, whose nodes are the indices of free entries. -/
structure ConnArray where
  entries : List (Option Nat)
  arrayflist : Elist (Option Nat)

def connarrayCreate (maxcons : Nat) : ConnArray where
  entries := replicate maxcons none
  arrayflist := (range maxcons).foldl (fun list i => elistAddTail list none (some i))
    (elistInit (Option Nat))

def connarrayGetConn (array : ConnArray) (index : UInt32) : Option Nat :=
  (array.entries[index.toNat]?).join

/-- The two assertions: a free entry is there, and it holds no connection. -/
def connarrayAddConn (array : ConnArray) (c : Nat) : Option (Nat × ConnArray) :=
  match array.arrayflist.next none with
  | none => none
  | some curr =>
    if array.entries[curr]? = some none then
      some (curr, {
        entries := array.entries.set curr (some c)
        arrayflist := elistDel array.arrayflist (some curr) })
    else none

def connarrayDelConn (array : ConnArray) (index : UInt32) : ConnArray :=
  if array.entries.length ≤ index.toNat then array
  else {
    entries := array.entries.set index.toNat none
    arrayflist := elistAddTail array.arrayflist none (some index.toNat) }

/-- Exactly the entries without a connection are linked. -/
def Free (array : ConnArray) : Prop :=
  ∃ free, Ring array.arrayflist free ∧ ∀ index, index ∈ free ↔ array.entries[index]? = some none

theorem link_entries (indices nodes : List Nat) (list : Elist (Option Nat)) (ring : Ring list nodes)
    (distinct : (nodes ++ indices).Nodup) :
    Ring (indices.foldl (fun list i => elistAddTail list none (some i)) list)
      (nodes ++ indices) := by
  induction indices generalizing nodes list with
  | nil =>
    rw [append_nil]
    exact ring
  | cons index rest ih =>
    have fresh : index ∉ nodes := by
      intro member
      exact (nodup_append.mp distinct).2.2 index member index mem_cons_self rfl
    have whole : nodes ++ index :: rest = nodes ++ [index] ++ rest := by simp
    rw [foldl_cons, whole]
    exact ih _ _ (ring.add_tail fresh) (whole ▸ distinct)

theorem create_free (maxcons : Nat) : Free (connarrayCreate maxcons) := by
  refine ⟨range maxcons, ?_, fun index => ?_⟩
  · exact link_entries (range maxcons) [] _ ring_init nodup_range
  · rw [connarrayCreate, mem_range, getElem?_replicate]
    split <;> simp [*]

section Entries
variable {array : ConnArray} {c index : Nat}

theorem add_conn_spec (free : Free array) (room : array.entries[index]? = some none) (c : Nat) :
    ∃ taken after, connarrayAddConn array c = some (taken, after) ∧
      array.entries[taken]? = some none ∧ after.entries = array.entries.set taken (some c) ∧
      Free after := by
  obtain ⟨nodes, ring, unused⟩ := free
  cases nodes with
  | nil => exact absurd ((unused index).mpr room) not_mem_nil
  | cons taken rest =>
    have empty := (unused taken).mp mem_cons_self
    have first : array.arrayflist.next none = some taken := ring.first
    refine ⟨taken, ⟨array.entries.set taken (some c), elistDel array.arrayflist (some taken)⟩,
      ?_, empty, rfl, rest, ?_, fun other => ?_⟩
    · rw [connarrayAddConn, first]
      exact if_pos empty
    · have whole : Ring array.arrayflist ([] ++ taken :: rest) := ring
      exact whole.del
    have apart := (nodup_cons.mp ring.nodup).1
    obtain ⟨inside, -⟩ := List.getElem?_eq_some_iff.mp empty
    have before := unused other
    rw [getElem?_set]
    by_cases same : taken = other
    · subst same
      simp [apart, inside]
    · rw [if_neg same, ← before]
      simp [Ne.symm same]

theorem del_conn_spec (free : Free array) (number : UInt32)
    (used : array.entries[number.toNat]? = some (some c)) :
    (connarrayDelConn array number).entries = array.entries.set number.toNat none ∧
      Free (connarrayDelConn array number) := by
  obtain ⟨nodes, ring, unused⟩ := free
  obtain ⟨inside, -⟩ := List.getElem?_eq_some_iff.mp used
  have fresh : number.toNat ∉ nodes := by
    intro member
    have empty := (unused _).mp member
    rw [used] at empty
    cases empty
  rw [connarrayDelConn, if_neg (Nat.not_le.mpr inside)]
  refine ⟨rfl, nodes ++ [number.toNat], ring.add_tail fresh, fun other => ?_⟩
  rw [mem_append, mem_singleton, unused, getElem?_set]
  by_cases same : number.toNat = other
  · subst same
    simp [inside]
  · simp [same, Ne.symm same]

end Entries

end Pvpgn.ConnectionArray
