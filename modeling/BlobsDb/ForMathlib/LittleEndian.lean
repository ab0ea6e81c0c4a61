import Mathlib.Data.Nat.Basic
import Mathlib.Tactic.Ring

/-!
# Little endian numbers

`leBytes k n` writes the number `n` into `k` bytes, least significant byte first, dropping what
does not fit; `leNat` reads a number back. Numbers that fit survive the round trip.
`takeNat` reads a number off the front of a longer list of bytes.
-/

/-- The `k` low bytes of `n`, least significant first. -/
def leBytes : ℕ → ℕ → List UInt8
  | 0, _ => []
  | k + 1, n => UInt8.ofNat n :: leBytes k (n / 256)

/-- The number whose bytes are given, least significant first. -/
def leNat : List UInt8 → ℕ
  | [] => 0
  | b :: l => b.toNat + 256 * leNat l

@[simp] theorem length_leBytes (k n : ℕ) : (leBytes k n).length = k := by
  induction k generalizing n with
  | zero => rfl
  | succ k ih => simp [leBytes, ih]

/-- Reading back a number keeps what fits into the bytes. -/
theorem leNat_leBytes (k n : ℕ) : leNat (leBytes k n) = n % 256 ^ k := by
  induction k generalizing n with
  | zero => simp [leBytes, leNat, Nat.mod_one]
  | succ k ih =>
    have hb : (UInt8.ofNat n).toNat = n % 256 := by simp
    rw [leBytes, leNat, ih, hb, pow_succ, Nat.mul_comm (256 ^ k), Nat.mod_mul]

theorem leNat_leBytes_of_lt {k n : ℕ} (h : n < 256 ^ k) : leNat (leBytes k n) = n := by
  rw [leNat_leBytes, Nat.mod_eq_of_lt h]

/-- The number in the first `k` bytes and the bytes after it, when there are that many. -/
def takeNat (k : ℕ) (l : List UInt8) : Option (ℕ × List UInt8) :=
  if k ≤ l.length then some (leNat (l.take k), l.drop k) else none

theorem takeNat_leBytes_append {k n : ℕ} (h : n < 256 ^ k) (l : List UInt8) :
    takeNat k (leBytes k n ++ l) = some (n, l) := by
  rw [takeNat, if_pos (by simp), List.take_left' (length_leBytes k n),
    List.drop_left' (length_leBytes k n), leNat_leBytes_of_lt h]
