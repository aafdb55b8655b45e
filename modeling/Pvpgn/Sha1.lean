import Mathlib.Algebra.Order.Ring.Nat
import Mathlib.Data.List.Range
import Mathlib.Data.List.GetD

/-!
SHA-1 as FIPS 180 defines it, over lists of bytes: padding, message schedule, the
eighty rounds and the chaining of blocks.
-/

namespace Pvpgn.Sha1
open List

structure Chaining where
  a : UInt32
  b : UInt32
  c : UInt32
  d : UInt32
  e : UInt32
  deriving DecidableEq

def initial : Chaining := ⟨0x67452301, 0xefcdab89, 0x98badcfe, 0x10325476, 0xc3d2e1f0⟩

def rotl (count word : UInt32) : UInt32 := (word <<< count) ||| (word >>> (32 - count))

def ch (x y z : UInt32) : UInt32 := (x &&& y) ^^^ (~~~x &&& z)

def parity (x y z : UInt32) : UInt32 := x ^^^ y ^^^ z

def maj (x y z : UInt32) : UInt32 := (x &&& y) ^^^ (x &&& z) ^^^ (y &&& z)

/-- One round, `T = ROTL5(a) + f(b, c, d) + e + K + W`. -/
def round (mix : UInt32 → UInt32 → UInt32 → UInt32) (constant : UInt32) (state : Chaining)
    (word : UInt32) : Chaining :=
  ⟨rotl 5 state.a + mix state.b state.c state.d + state.e + constant + word,
    state.a, rotl 30 state.b, state.c, state.d⟩

/-- Rounds `20 * quarter` to `20 * quarter + 19`. -/
def quarterRounds (words : List UInt32) (quarter : Nat) (mix : UInt32 → UInt32 → UInt32 → UInt32)
    (constant : UInt32) (state : Chaining) : Chaining :=
  (range' (20 * quarter) 20).foldl
    (fun state t => round mix constant state (words.getD t 0)) state

def rounds (words : List UInt32) (state : Chaining) : Chaining :=
  let state := quarterRounds words 0 ch 0x5a827999 state
  let state := quarterRounds words 1 parity 0x6ed9eba1 state
  let state := quarterRounds words 2 maj 0x8f1bbcdc state
  quarterRounds words 3 parity 0xca62c1d6 state

def schedule (block : List UInt32) : List UInt32 :=
  (range' 16 64).foldl
    (fun words t => words ++ [rotl 1 (words.getD (t - 3) 0 ^^^ words.getD (t - 8) 0 ^^^
      words.getD (t - 14) 0 ^^^ words.getD (t - 16) 0)]) block

def wordAt (bytes : List UInt8) (index : Nat) : UInt32 :=
  ((bytes.getD (4 * index) 0).toUInt32 <<< 24) |||
    ((bytes.getD (4 * index + 1) 0).toUInt32 <<< 16) |||
    ((bytes.getD (4 * index + 2) 0).toUInt32 <<< 8) ||| (bytes.getD (4 * index + 3) 0).toUInt32

def blockWords (bytes : List UInt8) : List UInt32 := (range 16).map (wordAt bytes)

def add (left right : Chaining) : Chaining :=
  ⟨left.a + right.a, left.b + right.b, left.c + right.c, left.d + right.d, left.e + right.e⟩

def compress (state : Chaining) (block : List UInt32) : Chaining :=
  add state (rounds (schedule block) state)

def absorb : Nat → Chaining → List UInt8 → Chaining
  | 0, state, _ => state
  | blocks + 1, state, bytes => absorb blocks (compress state (blockWords bytes)) (bytes.drop 64)

def lengthBytes (size : Nat) : List UInt8 :=
  (range 8).map fun i => UInt8.ofNat (8 * size / 256 ^ (7 - i))

/-- The fewest zeros that complete a block of 64 bytes. -/
def zeros (size : Nat) : Nat := (119 - size % 64) % 64

def padding (size : Nat) : List UInt8 := 0x80 :: replicate (zeros size) 0 ++ lengthBytes size

def pad (message : List UInt8) : List UInt8 := message ++ padding message.length

def digest (message : List UInt8) : Chaining :=
  absorb ((pad message).length / 64) initial (pad message)

-- The digest of "abc".
example : digest [0x61, 0x62, 0x63] =
    ⟨0xa9993e36, 0x4706816a, 0xba3e2571, 0x7850c26c, 0x9cd0d89d⟩ := by decide +kernel

variable (bytes : List UInt8) (size : Nat)

theorem padding_length : (padding size).length = zeros size + 9 := by
  simp [padding, lengthBytes]

/-- A padded message is whole blocks: one more than the message fills when at least
nine bytes of its last block are free, else two more. -/
theorem padded_blocks : size + (padding size).length = 64 * ((size + 8) / 64 + 1) := by
  rw [padding_length, zeros]
  omega

theorem padded_front (position : Nat) (front : position < bytes.length + 1 + zeros size) :
    (bytes ++ padding size).getD position 0 =
      if position < bytes.length then bytes.getD position 0
      else if position = bytes.length then 0x80 else 0 := by
  by_cases data : position < bytes.length
  · rw [if_pos data, getD_append _ _ _ _ data]
  rw [if_neg data, getD_append_right _ _ _ _ (by omega), padding]
  by_cases ends : position = bytes.length
  · simp [ends]
  obtain ⟨gap, distance⟩ : ∃ gap, position - bytes.length = gap + 1 :=
    ⟨position - bytes.length - 1, by omega⟩
  have inside : gap < (replicate (zeros size) (0 : UInt8)).length := by
    rw [length_replicate]
    omega
  rw [if_neg ends, distance, cons_append, getD_cons_succ, getD_append _ _ _ _ inside]
  simp

theorem padded_length (index : Nat) :
    (bytes ++ padding size).getD (bytes.length + 1 + zeros size + index) 0 =
      (lengthBytes size).getD index 0 := by
  have before : (bytes ++ 0x80 :: replicate (zeros size) 0).length =
      bytes.length + 1 + zeros size := by
    simp
    omega
  rw [padding, ← append_assoc, getD_append_right _ _ _ _ (by omega), before,
    Nat.add_sub_cancel_left]

theorem word_congr (left right : List UInt8) (index : Nat)
    (same : ∀ offset, offset < 4 → left.getD (4 * index + offset) 0 = right.getD (4 * index + offset) 0) :
    wordAt left index = wordAt right index := by
  have first := same 0 (by omega)
  rw [Nat.add_zero] at first
  simp only [wordAt, first, same 1 (by omega), same 2 (by omega), same 3 (by omega)]

theorem words_congr (left right : List UInt8)
    (same : ∀ position, position < 64 → left.getD position 0 = right.getD position 0) :
    blockWords left = blockWords right := by
  apply map_congr_left
  intro index member
  have inside := mem_range.mp member
  exact word_congr left right index fun offset small => same _ (by omega)

theorem words_append (tail : List UInt8) (full : 64 ≤ bytes.length) :
    blockWords (bytes ++ tail) = blockWords bytes := by
  apply words_congr
  intro position inside
  rw [getD_append _ _ _ _ (by omega)]

theorem absorb_append (blocks : Nat) (state : Chaining) (bytes tail : List UInt8)
    (full : 64 * blocks ≤ bytes.length) :
    absorb blocks state (bytes ++ tail) = absorb blocks state bytes := by
  induction blocks generalizing state bytes with
  | zero => rfl
  | succ blocks ih =>
    rw [absorb, absorb, words_append _ _ (by omega), drop_append_of_le_length (by omega)]
    apply ih
    rw [length_drop]
    omega

theorem absorb_add (first second : Nat) (state : Chaining) (bytes : List UInt8) :
    absorb (first + second) state bytes =
      absorb second (absorb first state bytes) (bytes.drop (64 * first)) := by
  induction first generalizing state bytes with
  | zero => simp [absorb]
  | succ first ih =>
    rw [show first + 1 + second = first + second + 1 by omega, absorb, absorb, ih, drop_drop]
    congr 2
    omega

theorem add_fixed (state change : Chaining) : add state change = state ↔ change = ⟨0, 0, 0, 0, 0⟩ := by
  obtain ⟨a, b, c, d, e⟩ := change
  obtain ⟨a', b', c', d', e'⟩ := state
  simp [add]

end Pvpgn.Sha1
