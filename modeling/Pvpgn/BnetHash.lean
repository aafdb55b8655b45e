import Pvpgn.Sha1

/-!
The hashes of common/bnethash.cpp. Both variants share the block filling and the
eighty rounds; `sha1_hash` adds the padding and the length. A pointer with its size
is a byte list, and the registers of `do_hash` keep the spare `g` of the source.
-/

namespace Pvpgn.BnetHash
open List Nat UInt32

abbrev Hash := Sha1.Chaining

inductive HashVariant where
  | blizzard
  | sha1
  deriving DecidableEq

-- `ROTL32(x,n)` of common/introtate.h.
def rotl32 (word count : UInt32) : UInt32 :=
  (word <<< (count &&& 31)) ||| (word >>> (-count &&& 31))

def hashInit : Hash := ⟨0x67452301, 0xefcdab89, 0x98badcfe, 0x10325476, 0xc3d2e1f0⟩

structure Registers where
  a : UInt32
  b : UInt32
  c : UInt32
  d : UInt32
  e : UInt32
  g : UInt32

def mixFirst (state : Registers) (word : UInt32) : UInt32 :=
  word + rotl32 state.a 5 + state.e + ((state.b &&& state.c) ||| (~~~state.b &&& state.d)) + 0x5a827999

def mixSecond (state : Registers) (word : UInt32) : UInt32 :=
  (state.d ^^^ state.c ^^^ state.b) + state.e + rotl32 state.g 5 + word + 0x6ed9eba1

def mixThird (state : Registers) (word : UInt32) : UInt32 :=
  word + rotl32 state.g 5 + state.e +
    ((state.c &&& state.b) ||| (state.d &&& state.c) ||| (state.d &&& state.b)) - 0x70e44324

def mixFourth (state : Registers) (word : UInt32) : UInt32 :=
  (state.d ^^^ state.c ^^^ state.b) + state.e + rotl32 state.g 5 + word - 0x359d3e2a

-- `e = d; d = c; c = ROTL32(b,30); b = a; a = g;`
def shift (state : Registers) (g : UInt32) : Registers :=
  ⟨g, state.a, rotl32 state.b 30, state.c, state.d, g⟩

def twentyRounds (mix : Registers → UInt32 → UInt32) (tmp : List UInt32) (first : Nat)
    (state : Registers) : Registers :=
  (range' first 20).foldl (fun state i => shift state (mix state (tmp.getD i 0))) state

/-- The blizzard variant rotates the constant 1 by the word. -/
def spread (variant : HashVariant) (word : UInt32) : UInt32 :=
  match variant with
  | .blizzard => rotl32 1 word
  | .sha1 => rotl32 word 1

def expand (variant : HashVariant) (block : List UInt32) : List UInt32 :=
  (range 64).foldl
    (fun tmp i => tmp ++ [spread variant (tmp.getD i 0 ^^^ tmp.getD (i + 8) 0 ^^^
      tmp.getD (i + 2) 0 ^^^ tmp.getD (i + 13) 0)]) block

-- `g` has no value before the first round; no round of the first twenty reads it.
def doHash (hash : Hash) (block : List UInt32) (variant : HashVariant) : Hash :=
  let tmp := expand variant block
  let state : Registers := ⟨hash.a, hash.b, hash.c, hash.d, hash.e, 0⟩
  let state := twentyRounds mixFirst tmp 0 state
  let state := twentyRounds mixSecond tmp 20 state
  let state := twentyRounds mixThird tmp 40 state
  let state := twentyRounds mixFourth tmp 60 state
  ⟨hash.a + state.g, hash.b + state.b, hash.c + state.c, hash.d + state.d, hash.e + state.e⟩

/-- One of the four byte steps of hash_set_16: the shift of either variant and the
end mark of the sha1 one. -/
def setByte (variant : HashVariant) (src : List UInt8) (count pos : Nat)
    (low high mark word : UInt32) : UInt32 :=
  match variant with
  | .blizzard => if pos < count then word ||| ((src.getD pos 0).toUInt32 <<< low) else word
  | .sha1 =>
    if pos < count then word ||| ((src.getD pos 0).toUInt32 <<< high)
    else if pos = count then word ||| mark
    else word

def setWord (variant : HashVariant) (src : List UInt8) (count pos : Nat) : UInt32 :=
  let word := setByte variant src count pos 0 24 0x80000000 0
  let word := setByte variant src count (pos + 1) 8 16 0x800000 word
  let word := setByte variant src count (pos + 2) 16 8 0x8000 word
  setByte variant src count (pos + 3) 24 0 0x80 word

def hashSet16 (src : List UInt8) (count : Nat) (variant : HashVariant) : List UInt32 :=
  (range 16).map fun i => setWord variant src count (4 * i)

def bnetLoop (hash : Hash) (data : List UInt8) : Hash :=
  if 0 < data.length then
    let inc := if 64 < data.length then 64 else data.length
    bnetLoop (doHash hash (hashSet16 data inc .blizzard) .blizzard) (data.drop inc)
  else hash
termination_by data.length
decreasing_by
  rw [length_drop]
  split <;> omega

def bnetHash (data : List UInt8) : Hash := bnetLoop hashInit data

-- `size_low += 8; if (size_low==0) size_high++;`
def countByte (size : UInt32 × UInt32) : UInt32 × UInt32 :=
  let low := size.2 + 8
  (if low = 0 then size.1 + 1 else size.1, low)

def orBytes (word value : UInt32) : UInt32 :=
  word ||| (((value >>> 24) &&& 0xff) <<< 24) ||| (((value >>> 16) &&& 0xff) <<< 16) |||
    (((value >>> 8) &&& 0xff) <<< 8) ||| (value &&& 0xff)

def hashSetLength (dst : List UInt32) (size : Nat) : List UInt32 :=
  let counted := countByte^[size] (0, 0)
  let dst := dst.set 14 (orBytes (dst.getD 14 0) counted.1)
  dst.set 15 (orBytes (dst.getD 15 0) counted.2)

def sha1Step (orgSize : Nat) (hash : Hash) (data : List UInt8) (inc : Nat) : Hash :=
  if 64 ≤ data.length then
    doHash hash (hashSet16 data inc .sha1) .sha1
  else if 55 < data.length then
    let hash := doHash hash (hashSet16 data inc .sha1) .sha1
    doHash hash (hashSetLength (hashSet16 data 0 .blizzard) orgSize) .sha1
  else
    doHash hash (hashSetLength (hashSet16 data inc .sha1) orgSize) .sha1

def sha1Loop (orgSize : Nat) (hash : Hash) (data : List UInt8) : Hash :=
  if 0 < data.length then
    let inc := if 64 ≤ data.length then 64 else data.length
    sha1Loop orgSize (sha1Step orgSize hash data inc) (data.drop inc)
  else hash
termination_by data.length
decreasing_by
  rw [length_drop]
  split <;> omega

def sha1Hash (data : List UInt8) : Hash := sha1Loop data.length hashInit data

/-! The rounds are those of the standard. -/

variable (x y : UInt32) (src : List UInt8) (size : Nat) (z : UInt32)

theorem or_is_ch : (x &&& y) ||| (~~~x &&& z) = Sha1.ch x y z := by
  apply UInt32.toBitVec_inj.mp
  ext i inside
  simp only [Sha1.ch, UInt32.toBitVec_or, UInt32.toBitVec_and, UInt32.toBitVec_not,
    UInt32.toBitVec_xor, BitVec.getElem_or, BitVec.getElem_and, BitVec.getElem_not,
    BitVec.getElem_xor]
  cases x.toBitVec[i] <;> simp

theorem or_is_maj : (y &&& x) ||| (z &&& y) ||| (z &&& x) = Sha1.maj x y z := by
  apply UInt32.toBitVec_inj.mp
  ext i inside
  simp only [Sha1.maj, UInt32.toBitVec_or, UInt32.toBitVec_and, UInt32.toBitVec_xor,
    BitVec.getElem_or, BitVec.getElem_and, BitVec.getElem_xor]
  cases x.toBitVec[i] <;> cases y.toBitVec[i] <;> simp

theorem xor_is_parity : z ^^^ y ^^^ x = Sha1.parity x y z := by
  rw [Sha1.parity]
  ac_rfl

variable (bytes : List UInt8) (count total : Nat) (word : UInt32)

theorem rotate_five : rotl32 word 5 = Sha1.rotl 5 word := rfl

theorem rotate_one : rotl32 word 1 = Sha1.rotl 1 word := rfl

def chaining (state : Registers) : Sha1.Chaining := ⟨state.a, state.b, state.c, state.d, state.e⟩

def Mixes (mix : Registers → UInt32 → UInt32) (select : UInt32 → UInt32 → UInt32 → UInt32)
    (constant : UInt32) : Prop :=
  ∀ state word, state.g = state.a → mix state word =
    Sha1.rotl 5 state.a + select state.b state.c state.d + state.e + constant + word

theorem first_mixes : Mixes mixFirst Sha1.ch 0x5a827999 := by
  intro state word _
  rw [mixFirst, or_is_ch, rotate_five]
  grind

theorem second_mixes : Mixes mixSecond Sha1.parity 0x6ed9eba1 := by
  intro state word copied
  rw [mixSecond, xor_is_parity, rotate_five, copied]
  grind

theorem third_mixes : Mixes mixThird Sha1.maj 0x8f1bbcdc := by
  intro state word copied
  rw [mixThird, or_is_maj, rotate_five, copied]
  grind

theorem fourth_mixes : Mixes mixFourth Sha1.parity 0xca62c1d6 := by
  intro state word copied
  rw [mixFourth, xor_is_parity, rotate_five, copied]
  grind

theorem rounds_refine (mix : Registers → UInt32 → UInt32)
    (select : UInt32 → UInt32 → UInt32 → UInt32) (constant : UInt32)
    (mixes : Mixes mix select constant) (tmp : List UInt32) (indices : List Nat)
    (state : Registers) (copied : state.g = state.a) :
    let last := indices.foldl (fun state i => shift state (mix state (tmp.getD i 0))) state
    last.g = last.a ∧ chaining last =
      indices.foldl (fun state t => Sha1.round select constant state (tmp.getD t 0)) (chaining state) := by
  induction indices generalizing state with
  | nil => exact ⟨copied, rfl⟩
  | cons i rest ih =>
    have step : chaining (shift state (mix state (tmp.getD i 0))) =
        Sha1.round select constant (chaining state) (tmp.getD i 0) := by
      rw [mixes state _ copied]
      rfl
    simp only [foldl_cons]
    rw [← step]
    exact ih (shift state (mix state (tmp.getD i 0))) rfl

theorem expand_is_schedule (block : List UInt32) : expand .sha1 block = Sha1.schedule block := by
  have shifted : range' 16 64 = (range 64).map fun i => i + 16 := by decide
  rw [expand, Sha1.schedule, shifted, foldl_map]
  congr 1
  funext tmp i
  rw [spread, rotate_one, show i + 16 - 3 = i + 13 by omega, show i + 16 - 8 = i + 8 by omega,
    show i + 16 - 14 = i + 2 by omega, show i + 16 - 16 = i by omega]
  congr 3
  ac_rfl

theorem do_hash_compresses (hash : Hash) (block : List UInt32) :
    doHash hash block .sha1 = Sha1.compress hash block := by
  have ignored (tmp : List UInt32) (state : Registers) : twentyRounds mixFirst tmp 0 state =
      twentyRounds mixFirst tmp 0 { state with g := state.a } := rfl
  have first := rounds_refine _ _ _ first_mixes (Sha1.schedule block) (range' 0 20)
    ⟨hash.a, hash.b, hash.c, hash.d, hash.e, hash.a⟩ rfl
  have second := rounds_refine _ _ _ second_mixes (Sha1.schedule block) (range' 20 20) _ first.1
  have third := rounds_refine _ _ _ third_mixes (Sha1.schedule block) (range' 40 20) _ second.1
  have fourth := rounds_refine _ _ _ fourth_mixes (Sha1.schedule block) (range' 60 20) _ third.1
  have whole : chaining _ = Sha1.rounds (Sha1.schedule block) hash :=
    fourth.2.trans (by rw [third.2, second.2, first.2]; rfl)
  rw [Sha1.compress, ← whole, doHash, expand_is_schedule, ignored]
  rfl

/-! Block filling against the padded message. -/

def shownByte (src : List UInt8) (count pos : Nat) : UInt8 :=
  if pos < count then src.getD pos 0 else if pos = count then 0x80 else 0

theorem set_byte_shows (pos : Nat) (low high mark word : UInt32)
    (marked : mark = (0x80 : UInt8).toUInt32 <<< high) :
    setByte .sha1 src count pos low high mark word =
      word ||| ((shownByte src count pos).toUInt32 <<< high) := by
  rw [setByte, shownByte]
  by_cases data : pos < count
  · rw [if_pos data, if_pos data]
  rw [if_neg data, if_neg data]
  by_cases ends : pos = count
  · rw [if_pos ends, if_pos ends, marked]
  · rw [if_neg ends, if_neg ends]
    simp

theorem set_16_words (shown : ∀ pos, pos < 64 → bytes.getD pos 0 = shownByte src count pos) :
    hashSet16 src count .sha1 = Sha1.blockWords bytes := by
  apply map_congr_left
  intro i member
  have inside := mem_range.mp member
  rw [setWord, set_byte_shows src count _ 0 24 0x80000000 _ rfl,
    set_byte_shows src count _ 8 16 0x800000 _ rfl, set_byte_shows src count _ 16 8 0x8000 _ rfl,
    set_byte_shows src count _ 24 0 0x80 _ rfl, Sha1.wordAt,
    shown _ (by omega), shown _ (by omega), shown _ (by omega), shown _ (by omega)]
  simp

theorem set_16_zero : hashSet16 src 0 .blizzard = Sha1.blockWords [] := by
  apply map_congr_left
  intro i _
  simp [setWord, setByte, Sha1.wordAt]

theorem bits_counted : countByte^[size] (0, 0) = (ofNat (8 * size / 2 ^ 32), ofNat (8
    * size)) := by
  induction size with
  | zero => rfl
  | succ size ih =>
    have low : ofNat (8 * size) + 8 = ofNat (8 * (size + 1)) := by
      rw [mul_add, ofNat_add]
      rfl
    have wraps : ofNat (8 * (size + 1)) = 0 ↔ 8 * (size + 1) % 2 ^ 32 = 0 := by
      rw [← UInt32.toNat_inj, toNat_ofNat']
      rfl
    rw [Function.iterate_succ_apply', ih, countByte, low]
    by_cases carry : 8 * (size + 1) % 2 ^ 32 = 0
    · have next : 8 * (size + 1) / 2 ^ 32 = 8 * size / 2 ^ 32 + 1 := by omega
      rw [if_pos (wraps.mpr carry), next, ofNat_add]
      rfl
    · have same : 8 * (size + 1) / 2 ^ 32 = 8 * size / 2 ^ 32 := by omega
      rw [if_neg (fun zero => carry (wraps.mp zero)), same]

-- Three bytes have 24 bits.
example : countByte^[3] (0, 0) = (0, 24) := by decide +kernel

theorem length_byte (power : Nat) (small : power ≤ 24) :
    (ofNat total >>> ofNat power) &&& 0xff =
      (UInt8.ofNat (total / 2 ^ power)).toUInt32 := by
  have mask : (0xff : UInt32).toNat = 2 ^ 8 - 1 := rfl
  have amount : power % 2 ^ 32 % 32 = power := by omega
  have halves : 2 ^ 32 = 2 ^ power * 2 ^ (32 - power) := by
    rw [← pow_add]
    congr 1
    omega
  have divides : 2 ^ 8 ∣ 2 ^ (32 - power) := pow_dvd_pow 2 (by omega)
  apply UInt32.toNat_inj.mp
  rw [UInt32.toNat_and, mask, and_two_pow_sub_one_eq_mod, UInt32.toNat_shiftRight,
    toNat_ofNat', toNat_ofNat', amount, shiftRight_eq_div_pow, halves,
    mod_mul_right_div_self, mod_mod_of_dvd _ divides, UInt8.toNat_toUInt32, UInt8.toNat_ofNat']

theorem or_bytes_exact : orBytes 0 (ofNat total) =
    ((UInt8.ofNat (total / 2 ^ 24)).toUInt32 <<< 24) |||
      ((UInt8.ofNat (total / 2 ^ 16)).toUInt32 <<< 16) |||
      ((UInt8.ofNat (total / 2 ^ 8)).toUInt32 <<< 8) ||| (UInt8.ofNat total).toUInt32 := by
  have first := length_byte total 24 (by omega)
  have second := length_byte total 16 (by omega)
  have third := length_byte total 8 (by omega)
  have fourth := length_byte total 0 (by omega)
  rw [pow_zero, Nat.div_one] at fourth
  rw [← first, ← second, ← third, ← fourth, orBytes]
  simp

theorem length_bytes_get (i : Nat) (inside : i < 8) :
    (Sha1.lengthBytes size).getD i 0 = UInt8.ofNat (8 * size / 256 ^ (7 - i)) := by
  simp [Sha1.lengthBytes, inside]

/-- Storing the length in words 14 and 15 is putting its bytes at the end of a block
whose last eight bytes are still zero. -/
theorem set_length_words (after : List UInt8) (size : Nat)
    (kept : ∀ pos, pos < 56 → after.getD pos 0 = bytes.getD pos 0)
    (blank : ∀ pos, 56 ≤ pos → pos < 64 → bytes.getD pos 0 = 0)
    (stored : ∀ i, i < 8 → after.getD (56 + i) 0 = (Sha1.lengthBytes size).getD i 0) :
    hashSetLength (Sha1.blockWords bytes) size = Sha1.blockWords after := by
  have word (index : Nat) (inside : index < 16) :
      (Sha1.blockWords bytes).getD index 0 = Sha1.wordAt bytes index := by
    simp [Sha1.blockWords, inside]
  have zero (index : Nat) (first : 14 ≤ index) (last : index < 16) : Sha1.wordAt bytes index = 0 := by
    rw [Sha1.wordAt, blank _ (by omega) (by omega), blank _ (by omega) (by omega),
      blank _ (by omega) (by omega), blank _ (by omega) (by omega)]
    rfl
  have high : orBytes 0 (ofNat (8 * size / 2 ^ 32)) = Sha1.wordAt after 14 := by
    rw [or_bytes_exact, Sha1.wordAt, stored 0 (by omega), stored 1 (by omega), stored 2 (by omega),
      stored 3 (by omega), length_bytes_get _ _ (by omega), length_bytes_get _ _ (by omega),
      length_bytes_get _ _ (by omega), length_bytes_get _ _ (by omega)]
    simp only [Nat.div_div_eq_div_mul, Nat.reduceMul, reducePow, Nat.reduceSub]
  have low : orBytes 0 (ofNat (8 * size)) = Sha1.wordAt after 15 := by
    rw [or_bytes_exact, Sha1.wordAt, stored 4 (by omega), stored 5 (by omega), stored 6 (by omega),
      stored 7 (by omega), length_bytes_get _ _ (by omega), length_bytes_get _ _ (by omega),
      length_bytes_get _ _ (by omega), length_bytes_get _ _ (by omega)]
    simp
  have unchanged : ((Sha1.blockWords bytes).set 14 (Sha1.wordAt after 14)).getD 15 0 = 0 := by
    rw [getD_eq_getElem?_getD, getElem?_set_ne (by omega), ← getD_eq_getElem?_getD,
      word 15 (by omega), zero 15 (by omega) (by omega)]
  rw [hashSetLength, bits_counted, word 14 (by omega), zero 14 (by omega) (by omega)]
  simp only [high, unchanged, low]
  apply ext_getElem
  · simp [Sha1.blockWords]
  intro index left right
  have inside : index < 16 := by simpa [Sha1.blockWords] using right
  rw [getElem_set, getElem_set]
  by_cases last : 15 = index
  · subst last
    simp [Sha1.blockWords]
  by_cases beforeLast : 14 = index
  · subst beforeLast
    simp [Sha1.blockWords]
  rw [if_neg last, if_neg beforeLast]
  simp only [Sha1.blockWords, getElem_map, getElem_range]
  exact Sha1.word_congr bytes after index fun offset small => (kept _ (by omega)).symm

theorem short_block_words (aligned : size % 64 = src.length % 64) (short : src.length ≤ 55) :
    hashSetLength (hashSet16 src src.length .sha1) size =
      Sha1.blockWords (src ++ Sha1.padding size) := by
  have filler : src.length + 1 + Sha1.zeros size = 56 := by
    rw [Sha1.zeros]
    omega
  have front (pos : Nat) (inside : pos < 56) :
      (src ++ Sha1.padding size).getD pos 0 = shownByte src src.length pos :=
    Sha1.padded_front src size pos (by omega)
  have shown (pos : Nat) (_ : pos < 64) :
      (src ++ [0x80]).getD pos 0 = shownByte src src.length pos := by
    rw [shownByte]
    by_cases data : pos < src.length
    · rw [if_pos data, getD_append _ _ _ _ data]
    rw [if_neg data, getD_append_right _ _ _ _ (by omega)]
    by_cases ends : pos = src.length
    · simp [ends]
    · rw [if_neg ends, getD_eq_default]
      rw [length_singleton]
      omega
  rw [set_16_words src _ src.length shown]
  apply set_length_words
  · intro pos inside
    rw [front pos inside, shown pos (by omega)]
  · intro pos first last
    rw [shown pos last, shownByte, if_neg (by omega), if_neg (by omega)]
  · intro i _
    rw [← filler, Sha1.padded_length]

theorem long_block_words (aligned : size % 64 = src.length % 64) (long : 55 < src.length)
    (partly : src.length < 64) :
    hashSet16 src src.length .sha1 = Sha1.blockWords (src ++ Sha1.padding size) ∧
      hashSetLength (hashSet16 src 0 .blizzard) size =
        Sha1.blockWords ((src ++ Sha1.padding size).drop 64) := by
  have filler : src.length + 1 + Sha1.zeros size = 120 := by
    rw [Sha1.zeros]
    omega
  have spilled (pos : Nat) : ((src ++ Sha1.padding size).drop 64).getD pos 0 =
      (src ++ Sha1.padding size).getD (64 + pos) 0 := by
    rw [getD_eq_getElem?_getD, getElem?_drop, ← getD_eq_getElem?_getD]
  constructor
  · apply set_16_words
    intro pos inside
    exact Sha1.padded_front src size pos (by omega)
  rw [set_16_zero]
  apply set_length_words
  · intro pos inside
    rw [spilled, Sha1.padded_front src size _ (by omega), if_neg (by omega), if_neg (by omega)]
    rfl
  · intro pos _ _
    rfl
  · intro i _
    rw [spilled, show 64 + (56 + i) = src.length + 1 + Sha1.zeros size + i by omega,
      Sha1.padded_length]

theorem full_block_words : hashSet16 src 64 .sha1 = Sha1.blockWords src := by
  apply set_16_words
  intro pos inside
  rw [shownByte, if_pos inside]

-- Induction on the whole blocks of the data. After them the code pads what is left,
-- but leaves without padding when nothing is.
theorem loop_absorbs (blocks orgSize : Nat) (hash : Hash) (data : List UInt8)
    (counted : data.length / 64 = blocks) (aligned : orgSize % 64 = data.length % 64) :
    sha1Loop orgSize hash data =
      if data.length % 64 = 0 then Sha1.absorb blocks hash data
      else Sha1.absorb ((data ++ Sha1.padding orgSize).length / 64) hash
        (data ++ Sha1.padding orgSize) := by
  induction blocks generalizing hash data with
  | zero =>
    rw [sha1Loop]
    by_cases some_left : 0 < data.length
    · have padded := Sha1.padding_length orgSize
      have ends : sha1Loop orgSize (sha1Step orgSize hash data data.length)
          (data.drop data.length) = sha1Step orgSize hash data data.length := by
        rw [drop_length, sha1Loop, if_neg (by simp)]
      rw [if_pos some_left, if_neg (by omega), if_neg (by omega), ends, sha1Step,
        if_neg (by omega), length_append, padded]
      rw [Sha1.zeros] at padded ⊢
      by_cases long : 55 < data.length
      · obtain ⟨first, second⟩ := long_block_words data orgSize aligned long (by omega)
        rw [if_pos long, show (data.length + ((119 - orgSize % 64) % 64 + 9)) / 64 = 2 by omega]
        simp only [first, second, do_hash_compresses, Sha1.absorb]
      · have only := short_block_words data orgSize aligned (by omega)
        rw [if_neg long, show (data.length + ((119 - orgSize % 64) % 64 + 9)) / 64 = 1 by omega]
        simp only [only, do_hash_compresses, Sha1.absorb]
    · rw [if_neg some_left, if_pos (by omega), Sha1.absorb]
  | succ blocks ih =>
    have full : 64 ≤ data.length := by omega
    have rest := ih (Sha1.compress hash (Sha1.blockWords data)) (data.drop 64)
      (by rw [length_drop]; omega) (by rw [length_drop]; omega)
    have step : sha1Step orgSize hash data 64 = Sha1.compress hash (Sha1.blockWords data) := by
      rw [sha1Step, if_pos full, full_block_words, do_hash_compresses]
    rw [sha1Loop, if_pos (by omega), if_pos full]
    change sha1Loop orgSize (sha1Step orgSize hash data 64) (data.drop 64) = _
    rw [step, rest]
    have size : (data.drop 64).length = data.length - 64 := length_drop
    by_cases exact_blocks : data.length % 64 = 0
    · rw [if_pos exact_blocks, if_pos (by omega), Sha1.absorb]
    have count : (data ++ Sha1.padding orgSize).length / 64 =
        (data.drop 64 ++ Sha1.padding orgSize).length / 64 + 1 := by
      rw [length_append, length_append, size]
      omega
    rw [if_neg exact_blocks, if_neg (by omega), count, Sha1.absorb, Sha1.words_append _ _ full,
      drop_append_of_le_length full]

/-- `sha1_hash` gives the standard's digest exactly for the strings whose length is
no multiple of 64, and for those multiples of 64 where the padding block it leaves
out would add nothing to the chaining value. -/
theorem sha1_hash_exact_iff (data : List UInt8) :
    sha1Hash data = Sha1.digest data ↔
      (data.length % 64 ≠ 0 ∨
        Sha1.rounds (Sha1.schedule (Sha1.blockWords (Sha1.padding data.length)))
          (Sha1.absorb (data.length / 64) Sha1.initial data) = ⟨0, 0, 0, 0, 0⟩) := by
  have run := loop_absorbs (data.length / 64) data.length hashInit data rfl rfl
  rw [sha1Hash, run, Sha1.digest, Sha1.pad]
  by_cases aligned : data.length % 64 = 0
  · have blocks : (data ++ Sha1.padding data.length).length / 64 = data.length / 64 + 1 := by
      rw [length_append, Sha1.padded_blocks]
      omega
    have rest : (data ++ Sha1.padding data.length).drop (64 * (data.length / 64)) =
        Sha1.padding data.length := by
      rw [show 64 * (data.length / 64) = data.length by omega, drop_left]
    rw [if_pos aligned, blocks, Sha1.absorb_add, rest, Sha1.absorb_append _ _ _ _ (by omega),
      Sha1.absorb, Sha1.absorb, Sha1.compress, eq_comm]
    simp only [aligned, ne_eq, not_true_eq_false, false_or]
    exact Sha1.add_fixed _ _
  · simp only [aligned, ne_eq, not_false_eq_true, true_or, iff_true]
    rfl

theorem sha1_hash_empty_differs : sha1Hash [] = hashInit ∧
    Sha1.digest [] = ⟨0xda39a3ee, 0x5e6b4b0d, 0x3255bfef, 0x95601890, 0xafd80709⟩ ∧
    sha1Hash [] ≠ Sha1.digest [] := by
  have standard : Sha1.digest [] = ⟨0xda39a3ee, 0x5e6b4b0d, 0x3255bfef, 0x95601890, 0xafd80709⟩ := by
    decide +kernel
  have computed : sha1Hash [] = hashInit := by
    rw [sha1Hash, sha1Loop, if_neg (by decide)]
  refine ⟨computed, standard, ?_⟩
  rw [computed, standard]
  decide

end Pvpgn.BnetHash
