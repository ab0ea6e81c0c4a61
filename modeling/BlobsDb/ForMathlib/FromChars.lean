import Mathlib.Data.List.TakeWhile
import Mathlib.Data.Nat.Digits.Defs

/-!
# Numbers in texts

`fromChars` reads a decimal number at the beginning of a text, the way `std::from_chars` does for
an integer type with a sign. It has no result of its own for texts that do not begin with a number
and for numbers that the type does not have: the variable keeps its value, and all that tells the
two from a number that was read is the text that is left, or an error code besides.

`Numeral s n` says that the whole text is a decimal number. A text is read to its end if it is a
numeral, in the range of the type or not, or if it is empty (`rest_eq_nil_iff`).
-/

namespace FromChars

/-- The number a digit stands for. -/
def digit (c : Char) : ℕ := c.toNat - '0'.toNat

/-- The number that some digits stand for. -/
def decimal (ds : List Char) : ℕ := Nat.ofDigits 10 (ds.map digit).reverse

/-- Texts that are decimal numbers: there is at least one digit, and there may be a minus sign
before the digits. -/
inductive Numeral : List Char → ℤ → Prop
  | nonneg {ds : List Char} (hne : ds ≠ []) (hds : ∀ c ∈ ds, c.isDigit = true) :
    Numeral ds (decimal ds)
  | neg {ds : List Char} (hne : ds ≠ []) (hds : ∀ c ∈ ds, c.isDigit = true) :
    Numeral ('-' :: ds) (-decimal ds)

/-- Reads digits on from a number: the number and what is left of the text. -/
def scanDigits (value : ℕ) : List Char → ℕ × List Char
  | [] => (value, [])
  | c :: s => if c.isDigit then scanDigits (10 * value + digit c) s else (value, c :: s)

/-- `std::from_chars` for integers between `lo` and `hi`: the variable, which was `value`, and what
is left of the text. -/
def fromChars (lo hi : ℤ) (s : List Char) (value : ℤ) : ℤ × List Char :=
  let digits := if s.head? = some '-' then s.tail else s
  let r := scanDigits 0 digits
  if r.2 = digits then (value, s)
  else
    let n : ℤ := if s.head? = some '-' then -r.1 else r.1
    (if lo ≤ n ∧ n ≤ hi then n else value, r.2)

variable {lo hi n value : ℤ} {s ds : List Char}

theorem decimal_cons (c : Char) (ds : List Char) :
    decimal (c :: ds) = digit c * 10 ^ ds.length + decimal ds := by
  rw [decimal, List.map_cons, Nat.ofDigits_reverse_cons, decimal, List.length_map]
  ring

/-- All digits at the beginning are read. -/
theorem scanDigits_eq (value : ℕ) (s : List Char) :
    scanDigits value s = (value * 10 ^ (s.takeWhile Char.isDigit).length +
      decimal (s.takeWhile Char.isDigit), s.dropWhile Char.isDigit) := by
  induction s generalizing value with
  | nil => simp [scanDigits, decimal]
  | cons c s ih =>
    rw [scanDigits]
    split_ifs with hc
    · rw [ih, List.takeWhile_cons_of_pos hc, List.dropWhile_cons_of_pos hc, decimal_cons,
        List.length_cons]
      congr 1
      ring
    · rw [List.takeWhile_cons_of_neg hc, List.dropWhile_cons_of_neg hc]
      simp [decimal]

theorem scanDigits_of_digits (hds : ∀ c ∈ ds, c.isDigit = true) :
    scanDigits 0 ds = (decimal ds, []) := by
  rw [scanDigits_eq, List.takeWhile_eq_self_iff.mpr hds, List.dropWhile_eq_nil_iff.mpr hds,
    Nat.zero_mul, Nat.zero_add]

theorem head?_ne_of_digits (hds : ∀ c ∈ ds, c.isDigit = true) : ds.head? ≠ some '-' := fun h => by
  have hdigit := hds '-' (List.mem_of_head? h)
  exact absurd hdigit (by decide)

/-- A numeral is read to its end, and it is the value if it is in the range. -/
theorem fromChars_of_numeral (h : Numeral s n) :
    fromChars lo hi s value = (if lo ≤ n ∧ n ≤ hi then n else value, []) := by
  cases h with
  | nonneg hne hds =>
    have hsign := head?_ne_of_digits hds
    simp only [fromChars, if_neg hsign, scanDigits_of_digits hds, if_neg hne.symm]
  | neg hne hds =>
    simp only [fromChars, List.head?_cons, if_true, List.tail_cons, scanDigits_of_digits hds,
      if_neg hne.symm]

/-- A text is the numeral of one number. -/
theorem Numeral.unique {m : ℤ} (hn : Numeral s n) (hm : Numeral s m) : n = m := by
  have hread : ∀ {k}, Numeral s k → min n m ≤ k ∧ k ≤ max n m →
      fromChars (min n m) (max n m) s 0 = (k, []) := fun hk hrange => by
    rw [fromChars_of_numeral hk, if_pos hrange]
  have hboth := (hread hn ⟨min_le_left n m, le_max_left n m⟩).symm.trans
    (hread hm ⟨min_le_right n m, le_max_right n m⟩)
  exact (Prod.mk.inj hboth).1

theorem digits_of_scanDigits (h : (scanDigits 0 s).2 = []) : ∀ c ∈ s, c.isDigit = true := by
  rw [scanDigits_eq] at h
  exact List.dropWhile_eq_nil_iff.mp h

/-- Only numerals and the empty text are read to their end. -/
theorem rest_eq_nil_iff :
    (fromChars lo hi s value).2 = [] ↔ s = [] ∨ ∃ n, Numeral s n := by
  constructor
  · intro h
    unfold fromChars at h
    dsimp only at h
    rw [apply_ite Prod.snd] at h
    dsimp only at h
    by_cases hsign : s.head? = some '-'
    · obtain ⟨ds, rfl⟩ := List.head?_eq_some_iff.mp hsign
      rw [if_pos hsign, List.tail_cons] at h
      split_ifs at h with hnone
      have hne : ds ≠ [] := fun hds => hnone (by rw [hds]; rfl)
      exact Or.inr ⟨_, .neg hne (digits_of_scanDigits h)⟩
    · rw [if_neg hsign] at h
      split_ifs at h with hnone
      · exact Or.inl h
      · have hne : s ≠ [] := fun hs => hnone (by rw [hs]; rfl)
        exact Or.inr ⟨_, .nonneg hne (digits_of_scanDigits h)⟩
  · rintro (rfl | ⟨n, hn⟩)
    · rfl
    · rw [fromChars_of_numeral hn]

/-- The variable keeps its value if there is nothing to read. -/
theorem fromChars_nil : fromChars lo hi [] value = (value, []) := rfl

end FromChars
