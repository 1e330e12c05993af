import Mathlib.Tactic.Ring
import Mathlib.Data.Nat.Basic

/-! # Little-endian words

A number is written as its low bytes, the least significant first. Writing a
word and reading it back is the identity, and so is reading a block of bytes
and writing it again.
-/

namespace LittleEndian

/-- The `k` low bytes of a number, the least significant first. -/
def bytes : ℕ → ℕ → List (BitVec 8)
  | 0, _ => []
  | k + 1, n => BitVec.ofNat 8 n :: bytes k (n / 256)

/-- The number that a block of bytes stands for. -/
def value : List (BitVec 8) → ℕ
  | [] => 0
  | b :: bs => b.toNat + 256 * value bs

@[simp] theorem length_bytes (k n : ℕ) : (bytes k n).length = k := by
  induction k generalizing n <;> simp [bytes, *]

theorem value_bytes (k n : ℕ) : value (bytes k n) = n % 256 ^ k := by
  induction k generalizing n with
  | zero => simp [bytes, value, Nat.mod_one]
  | succ k ih =>
    have hs : n % 256 ^ (k + 1) = n % 256 + 256 * (n / 256 % 256 ^ k) := by
      rw [pow_succ', Nat.mod_mul]
    simp only [bytes, value, ih, BitVec.toNat_ofNat, hs]

theorem value_lt (bs : List (BitVec 8)) : value bs < 256 ^ bs.length := by
  induction bs with
  | nil => simp [value]
  | cons b bs ih =>
    have hb : b.toNat < 256 := b.isLt
    simp only [value, List.length_cons, pow_succ]
    omega

theorem bytes_value (bs : List (BitVec 8)) : bytes bs.length (value bs) = bs := by
  induction bs with
  | nil => rfl
  | cons b bs ih =>
    have hb : b.toNat < 256 := b.isLt
    have hd : (b.toNat + 256 * value bs) / 256 = value bs := by omega
    have hm : BitVec.ofNat 8 (b.toNat + 256 * value bs) = b := by
      apply BitVec.eq_of_toNat_eq
      rw [BitVec.toNat_ofNat]
      omega
    simp only [List.length_cons, value, bytes, hd, hm, ih]

variable {k : ℕ}

theorem pow_bytes (k : ℕ) : 256 ^ k = 2 ^ (8 * k) := by
  rw [pow_mul]; rfl

/-- A word of `k` bytes as it lies in memory. -/
def encode (k : ℕ) (v : BitVec (8 * k)) : List (BitVec 8) := bytes k v.toNat

/-- The word of `k` bytes that a block of memory holds. -/
def decode (k : ℕ) (bs : List (BitVec 8)) : BitVec (8 * k) := BitVec.ofNat (8 * k) (value bs)

@[simp] theorem length_encode (v : BitVec (8 * k)) : (encode k v).length = k :=
  length_bytes k v.toNat

@[simp] theorem decode_encode (v : BitVec (8 * k)) : decode k (encode k v) = v := by
  apply BitVec.eq_of_toNat_eq
  rw [decode, encode, value_bytes, BitVec.toNat_ofNat, pow_bytes, Nat.mod_mod,
    Nat.mod_eq_of_lt v.isLt]

theorem encode_decode {bs : List (BitVec 8)} (h : bs.length = k) : encode k (decode k bs) = bs := by
  have hv : value bs < 2 ^ (8 * k) := by rw [← pow_bytes, ← h]; exact value_lt bs
  rw [encode, decode, BitVec.toNat_ofNat, Nat.mod_eq_of_lt hv, ← h]
  exact bytes_value bs

end LittleEndian
