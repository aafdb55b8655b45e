import Pvpgn.BigIntBytes
import Pvpgn.BnetHash
import Mathlib.Data.Nat.ModEq

/-!
The session key of common/bnetsrp3.cpp. Sums, differences, products, remainders and
powers of BigInt are read as the operations on natural numbers they stand for; byte
strings are the code's own. The hash function is a parameter. A hash lies in memory as
the bytes of five little-endian words.
-/

namespace Pvpgn.SessionKey
open Bytes BigIntArithmetic BigIntBytes BnetHash Option

/-! BigInt's operators, read exactly. -/

def plus (left right : BigInt) : BigInt := canonical (val left + val right)

def minus (left right : BigInt) : BigInt := canonical (val left - val right)

def times (left right : BigInt) : BigInt := canonical (val left * val right)

def modulo (left right : BigInt) : BigInt := canonical (val left % val right)

def powm (base exponent modulus : BigInt) : BigInt :=
  canonical (val base ^ val exponent % val modulus)

def bnetsrp3_N : List UInt8 :=
  [0xF8, 0xFF, 0x1A, 0x8B, 0x61, 0x99, 0x18, 0x03, 0x21, 0x86, 0xB6, 0x8C, 0xA0, 0x92, 0xB5, 0x55,
    0x7E, 0x97, 0x6C, 0x78, 0xC7, 0x32, 0x12, 0xD9,
    0x12, 0x16, 0xF6, 0x65, 0x85, 0x23, 0xC7, 0x87]

def modulusN : BigInt := (ofBytes bnetsrp3_N 1 true).getD zero

def generatorG : BigInt := ofUInt32 0x2F

structure BnetSrp3 where
  a : BigInt
  b : BigInt
  s : BigInt
  cachedB : Option BigInt
  username : List UInt8
  password : List UInt8
  rawSalt : List UInt8

-- `std::toupper` of the C locale, on the characters before the terminator.
def toUpper (symbol : UInt8) : UInt8 :=
  if 97 ≤ symbol ∧ symbol ≤ 122 then symbol - 32 else symbol

def upperString (source : List UInt8) : List UInt8 := (source.takeWhile (· ≠ 0)).map toUpper

-- `init`: exactly one of password and salt. The two drawn numbers stand for the calls of
-- `BigInt::random(32)`.
def init (username : List UInt8) (password : Option (List UInt8)) (salt : Option BigInt)
    (drawnKey drawnSalt : BigInt) : Option BnetSrp3 :=
  match password, salt with
  | some password, none => do
    let rawSalt ← getData drawnSalt 32 1 true
    some ⟨modulo drawnKey modulusN, zero, drawnSalt, none, upperString username,
      upperString password, rawSalt⟩
  | none, some salt => do
    let rawSalt ← getData salt 32 1 true
    some ⟨zero, modulo drawnKey modulusN, salt, none, upperString username, [], rawSalt⟩
  | _, _ => none

def setSalt (party : BnetSrp3) (salt : BigInt) : Option BnetSrp3 := do
  let rawSalt ← getData salt 32 1 true
  some { party with s := salt, rawSalt := rawSalt }

section Hashing

variable (hash : List UInt8 → Hash)

-- `bn_int_nset` writes the word in network order, `bn_int_get` reads it back.
def swapWord (word : UInt32) : UInt32 :=
  let low : UInt32 := 0xff
  ((word >>> 24) &&& low) ||| (((word >>> 16) &&& low) <<< 8) |||
    (((word >>> 8) &&& low) <<< 16) ||| ((word &&& low) <<< 24)

def littleEndianSha1Hash (data : List UInt8) : Hash :=
  let hashout := hash data
  ⟨swapWord hashout.a, swapWord hashout.b, swapWord hashout.c, swapWord hashout.d,
    swapWord hashout.e⟩

def hashMemory (value : Hash) : List UInt8 :=
  [value.a, value.b, value.c, value.d, value.e].flatMap limbBytes

-- x = H(s, H(username ':' password))
def getClientPrivateKey (party : BnetSrp3) : Option BigInt :=
  let userpass := party.username ++ 0x3a :: party.password
  let userpassHash := littleEndianSha1Hash hash userpass
  let privateValue := party.rawSalt ++ hashMemory userpassHash
  ofBytes (hashMemory (littleEndianSha1Hash hash privateValue)) 1 false

/-- The first word of the hash of B's bytes. -/
def getScrambler (publicB : BigInt) : Option BigInt := do
  let rawB ← getData publicB 32 4 false
  some (ofUInt32 (hash rawB).a)

def getClientSecret (party : BnetSrp3) (publicB : BigInt) : Option BigInt := do
  let x ← getClientPrivateKey hash party
  let u ← getScrambler hash publicB
  some (powm (minus (plus modulusN publicB) (powm generatorG x modulusN))
    (plus (times x u) party.a) modulusN)

def getServerSessionPublicKey (party : BnetSrp3) (v : BigInt) : BigInt × BnetSrp3 :=
  match party.cachedB with
  | some publicB => (publicB, party)
  | none =>
    let publicB := modulo (plus v (powm generatorG party.b modulusN)) modulusN
    (publicB, { party with cachedB := some publicB })

def getServerSecret (party : BnetSrp3) (publicA v : BigInt) : Option (BigInt × BnetSrp3) := do
  let (publicB, party) := getServerSessionPublicKey party v
  let u ← getScrambler hash publicB
  some (powm (modulo (times publicA (powm v u modulusN)) modulusN) party.b modulusN, party)

/-- Bytes at even and at odd places of the secret, hashed apart and woven together again. -/
def hashSecret (secret : BigInt) : Option BigInt := do
  let rawSecret ← getData secret 32 4 false
  let odd := (List.range 16).map fun i => rawSecret.getD (2 * i) 0
  let even := (List.range 16).map fun i => rawSecret.getD (2 * i + 1) 0
  let oddHash := hashMemory (littleEndianSha1Hash hash odd)
  let evenHash := hashMemory (littleEndianSha1Hash hash even)
  ofBytes ((List.range 20).flatMap fun i => [oddHash.getD i 0, evenHash.getD i 0]) 1 false

def getVerifier (party : BnetSrp3) : Option BigInt := do
  let x ← getClientPrivateKey hash party
  some (powm generatorG x modulusN)

def getClientSessionPublicKey (party : BnetSrp3) : BigInt := powm generatorG party.a modulusN

def getHashedClientSecret (party : BnetSrp3) (publicB : BigInt) : Option BigInt := do
  let clientSecret ← getClientSecret hash party publicB
  hashSecret hash clientSecret

def getHashedServerSecret (party : BnetSrp3) (publicA v : BigInt) : Option (BigInt × BnetSrp3) := do
  let (serverSecret, party) ← getServerSecret hash party publicA v
  let key ← hashSecret hash serverSecret
  some (key, party)

end Hashing

/-! The two secrets as numbers. -/

/-- The exchange over any modulus and generator: taking the verifier back out of B leaves
the server's power. -/
theorem secrets_congruent (modulus g x u a b : Nat) (positive : 0 < modulus) :
    (modulus + (g ^ x % modulus + g ^ b % modulus) % modulus - g ^ x % modulus) ^ (x * u + a) % modulus =
      (g ^ a % modulus * ((g ^ x % modulus) ^ u % modulus) % modulus) ^ b % modulus := by
  have below := Nat.mod_lt (g ^ x) positive
  have base : modulus + (g ^ x % modulus + g ^ b % modulus) % modulus - g ^ x % modulus ≡
      g ^ b [MOD modulus] := by
    apply Nat.ModEq.add_right_cancel' (g ^ x % modulus)
    rw [Nat.sub_add_cancel (by omega)]
    calc modulus + (g ^ x % modulus + g ^ b % modulus) % modulus
        ≡ g ^ x % modulus + g ^ b % modulus [MOD modulus] := by
          simp [Nat.ModEq, Nat.add_mod]
      _ ≡ g ^ b + g ^ x % modulus [MOD modulus] := by
          rw [Nat.add_comm]
          exact Nat.ModEq.add_right _ (Nat.mod_modEq _ _)
  have verifier : g ^ x % modulus ≡ g ^ x [MOD modulus] := Nat.mod_modEq _ _
  have publicKey : g ^ a % modulus ≡ g ^ a [MOD modulus] := Nat.mod_modEq _ _
  have server : g ^ a % modulus * ((g ^ x % modulus) ^ u % modulus) % modulus ≡
      g ^ a * (g ^ x) ^ u [MOD modulus] :=
    (Nat.mod_modEq _ _).trans
      (publicKey.mul ((Nat.mod_modEq _ _).trans (verifier.pow u)))
  have powers : (g ^ b) ^ (x * u + a) = (g ^ a * (g ^ x) ^ u) ^ b := by
    rw [← Nat.pow_mul, ← Nat.pow_mul, ← Nat.pow_add, ← Nat.pow_mul]
    congr 1
    ring
  calc (modulus + (g ^ x % modulus + g ^ b % modulus) % modulus - g ^ x % modulus) ^ (x * u + a) % modulus
      = (g ^ b) ^ (x * u + a) % modulus := base.pow _
    _ = (g ^ a * (g ^ x) ^ u) ^ b % modulus := by rw [powers]
    _ = (g ^ a % modulus * ((g ^ x % modulus) ^ u % modulus) % modulus) ^ b % modulus :=
        ((server.pow b).symm)

theorem modulus_positive : 0 < val modulusN := by decide

section
variable (hash : List UInt8 → Hash)
include hash

theorem private_key_read (party : BnetSrp3) :
    ∃ x, getClientPrivateKey hash party = some x := by
  obtain ⟨x, read, _⟩ := of_bytes_little_endian
    (hashMemory (littleEndianSha1Hash hash
      (party.rawSalt ++ hashMemory (littleEndianSha1Hash hash (party.username ++ 0x3a :: party.password)))))
  exact ⟨x, read⟩

theorem scrambler_read (publicB : BigInt) :
    ∃ u, getScrambler hash publicB = some u := by
  obtain ⟨rawB, raw, _⟩ := get_data_number publicB 8
  exact ⟨ofUInt32 (hash rawB).a, by
    rw [getScrambler, raw, bind_eq_bind, bind_some]⟩

theorem secret_hashed (secret : BigInt) :
    ∃ key, hashSecret hash secret = some key := by
  obtain ⟨rawSecret, raw, _⟩ := get_data_number secret 8
  rw [hashSecret, raw, bind_eq_bind, bind_some]
  exact (of_bytes_little_endian _).imp fun key read => read.1

theorem keys_agree (client server : BnetSrp3) (v : BigInt) (fresh : server.cachedB = none)
    (verifier : getVerifier hash client = some v) :
    ∃ key after, getHashedClientSecret hash client (getServerSessionPublicKey server v).1 = some key ∧
      getHashedServerSecret hash server (getClientSessionPublicKey client) v = some (key, after) ∧
      getHashedServerSecret hash (getServerSessionPublicKey server v).2
        (getClientSessionPublicKey client) v = some (key, after) := by
  obtain ⟨x, read⟩ := private_key_read hash client
  obtain ⟨u, scrambled⟩ := scrambler_read hash
    (modulo (plus v (powm generatorG server.b modulusN)) modulusN)
  rw [getVerifier, read, bind_eq_bind, bind_some] at verifier
  have shared := Option.some.inj verifier
  have same : powm (minus (plus modulusN (modulo (plus v (powm generatorG server.b modulusN)) modulusN))
        (powm generatorG x modulusN)) (plus (times x u) client.a) modulusN =
      powm (modulo (times (getClientSessionPublicKey client) (powm v u modulusN)) modulusN)
        server.b modulusN := by
    have congruent := secrets_congruent (val modulusN) (val generatorG) (val x) (val u)
      (val client.a) (val server.b) modulus_positive
    rw [← shared]
    simp only [powm, minus, plus, times, modulo, getClientSessionPublicKey, val_canonical]
    rw [congruent]
  obtain ⟨key, hashed⟩ := secret_hashed hash
    (powm (modulo (times (getClientSessionPublicKey client) (powm v u modulusN)) modulusN)
      server.b modulusN)
  refine ⟨key, (getServerSessionPublicKey server v).2, ?_, ?_, ?_⟩
  · simp only [getHashedClientSecret, getClientSecret, getServerSessionPublicKey, fresh, read,
      scrambled, same, hashed, bind_eq_bind, bind_some]
  · simp only [getHashedServerSecret, getServerSecret, getServerSessionPublicKey, fresh, scrambled,
      hashed, bind_eq_bind, bind_some]
  · simp only [getHashedServerSecret, getServerSecret, getServerSessionPublicKey, fresh, scrambled,
      hashed, bind_eq_bind, bind_some]

end

/-- For every login, hash function and drawn keys, client and server derive the same
session key, whether the server sent its public key before or derives it now. -/
theorem session_keys_agree (hash : List UInt8 → Hash) (username password : List UInt8)
    (salt drawnA drawnSalt drawnB unused : BigInt) :
    ∃ first client server v key after,
      init username (some password) none drawnA drawnSalt = some first ∧
      setSalt first salt = some client ∧ client.a = modulo drawnA modulusN ∧
      init username none (some salt) drawnB unused = some server ∧
      server.b = modulo drawnB modulusN ∧
      getVerifier hash client = some v ∧
      getHashedClientSecret hash client (getServerSessionPublicKey server v).1 = some key ∧
      getHashedServerSecret hash server (getClientSessionPublicKey client) v = some (key, after) ∧
      getHashedServerSecret hash (getServerSessionPublicKey server v).2
        (getClientSessionPublicKey client) v = some (key, after) := by
  have drawn := get_data_big_endian drawnSalt 32 1
  have given := get_data_big_endian salt 32 1
  have started : init username (some password) none drawnA drawnSalt = some
      ⟨modulo drawnA modulusN, zero, drawnSalt, none, upperString username, upperString password,
        stored drawnSalt 32⟩ := by
    simp only [init, drawn, bind_eq_bind, bind_some]
  have salted (party : BnetSrp3) :
      setSalt party salt = some { party with s := salt, rawSalt := stored salt 32 } := by
    simp only [setSalt, given, bind_eq_bind, bind_some]
  have served : init username none (some salt) drawnB unused = some
      ⟨zero, modulo drawnB modulusN, salt, none, upperString username, [], stored salt 32⟩ := by
    simp only [init, given, bind_eq_bind, bind_some]
  obtain ⟨x, read⟩ := private_key_read hash
    ⟨modulo drawnA modulusN, zero, salt, none, upperString username, upperString password,
      stored salt 32⟩
  have verifier : getVerifier hash ⟨modulo drawnA modulusN, zero, salt, none, upperString username,
      upperString password, stored salt 32⟩ = some (powm generatorG x modulusN) := by
    rw [getVerifier, read, bind_eq_bind, bind_some]
  obtain ⟨key, after, agreed⟩ := keys_agree hash _
    ⟨zero, modulo drawnB modulusN, salt, none, upperString username, [], stored salt 32⟩ _ rfl verifier
  exact ⟨_, _, _, _, key, after, started, salted _, rfl, served, rfl, verifier, agreed⟩

end Pvpgn.SessionKey
