import Mathlib.Order.CompletePartialOrder
import Mathlib.Order.Interval.Set.Basic
import Mathlib.Data.Set.Lattice
import Mathlib.Algebra.BigOperators.Group.List.Basic
import Mathlib.Algebra.Ring.Nat

/-!
# Extents and the positions they cover

An `Extent` is a run of `size` positions starting at `offset`. `coverage l x` counts how often
the extents of a list cover the position `x`. Counting turns layout questions into arithmetic:
it is additive under appending, does not see the order of the list, and a list of extents
partitions the first `n` positions exactly when every position below `n` is counted once and
every other position is not counted (`partitions_iff`).
-/

/-- A run of `size` positions starting at `offset`. -/
structure Extent where
  offset : ℕ
  size : ℕ
  deriving DecidableEq, Repr

instance : Inhabited Extent := ⟨⟨0, 0⟩⟩

namespace Extent

/-- The position right after the extent. -/
def endOffset (e : Extent) : ℕ := e.offset + e.size

/-- The positions of the extent. -/
def positions (e : Extent) : Set ℕ := Set.Ico e.offset e.endOffset

theorem mem_positions {e : Extent} {x : ℕ} :
    x ∈ e.positions ↔ e.offset ≤ x ∧ x < e.offset + e.size := Iff.rfl

/-- How often the extent covers the position `x`: once or not at all. -/
def covers (e : Extent) (x : ℕ) : ℕ := if e.offset ≤ x ∧ x < e.offset + e.size then 1 else 0

@[simp] theorem covers_default (x : ℕ) : (default : Extent).covers x = 0 := by
  simp [covers, default]

theorem covers_of_size_eq_zero {e : Extent} (h : e.size = 0) (x : ℕ) : e.covers x = 0 := by
  simp only [covers, h]
  exact if_neg (by omega)

theorem covers_eq_one_iff {e : Extent} {x : ℕ} : e.covers x = 1 ↔ x ∈ e.positions := by
  simp [covers, mem_positions]

theorem covers_eq_zero_iff {e : Extent} {x : ℕ} : e.covers x = 0 ↔ x ∉ e.positions := by
  simp [covers, mem_positions]

theorem covers_le_one (e : Extent) (x : ℕ) : e.covers x ≤ 1 := by
  unfold covers; split_ifs <;> simp

/-- Cutting an extent at one of its positions covers the same positions. -/
theorem covers_split {o n s : ℕ} (h : s ≤ n) (x : ℕ) :
    (⟨o, s⟩ : Extent).covers x + (⟨o + s, n - s⟩ : Extent).covers x = (⟨o, n⟩ : Extent).covers x := by
  simp only [covers]
  split_ifs <;> omega

/-- Extents that do not meet. -/
def Apart (a b : Extent) : Prop := a.endOffset ≤ b.offset ∨ b.endOffset ≤ a.offset

instance (a b : Extent) : Decidable (a.Apart b) := by unfold Apart; infer_instance

theorem Apart.not_mem {a b : Extent} (h : a.Apart b) {x : ℕ} (ha : x ∈ a.positions) :
    x ∉ b.positions := by
  simp only [Apart, endOffset] at h
  simp only [mem_positions] at ha ⊢
  omega

end Extent

/-- How often the extents of the list cover the position `x`. -/
def coverage (l : List Extent) (x : ℕ) : ℕ := (l.map fun e => e.covers x).sum

@[simp] theorem coverage_nil (x : ℕ) : coverage [] x = 0 := rfl

@[simp] theorem coverage_cons (e : Extent) (l : List Extent) (x : ℕ) :
    coverage (e :: l) x = e.covers x + coverage l x := by simp [coverage]

@[simp] theorem coverage_append (l l' : List Extent) (x : ℕ) :
    coverage (l ++ l') x = coverage l x + coverage l' x := by simp [coverage]

theorem coverage_perm {l l' : List Extent} (h : l.Perm l') (x : ℕ) :
    coverage l x = coverage l' x := (h.map _).sum_eq

theorem coverage_pos_of_mem {l : List Extent} {e : Extent} {x : ℕ} (he : e ∈ l)
    (hx : x ∈ e.positions) : 0 < coverage l x := by
  obtain ⟨l₁, l₂, rfl⟩ := List.append_of_mem he
  simp only [coverage_append, coverage_cons, Extent.covers_eq_one_iff.mpr hx]
  omega

theorem exists_mem_of_coverage_pos {l : List Extent} {x : ℕ} (h : 0 < coverage l x) :
    ∃ e ∈ l, x ∈ e.positions := by
  induction l with
  | nil => simp at h
  | cons a l ih =>
    by_cases ha : x ∈ a.positions
    · exact ⟨a, List.mem_cons_self, ha⟩
    · rw [coverage_cons, Extent.covers_eq_zero_iff.mpr ha, Nat.zero_add] at h
      obtain ⟨e, he, hx⟩ := ih h
      exact ⟨e, List.mem_cons_of_mem _ he, hx⟩

/-- The extents of the list are pairwise disjoint and together are exactly the first `n`
positions. -/
def Partitions (l : List Extent) (n : ℕ) : Prop :=
  l.Pairwise (fun a b => Disjoint a.positions b.positions) ∧
    ⋃ e ∈ l, e.positions = Set.Iio n

/-- Extents covering no position twice are pairwise disjoint, and conversely. -/
theorem pairwise_disjoint_iff {l : List Extent} :
    l.Pairwise (fun a b => Disjoint a.positions b.positions) ↔ ∀ x, coverage l x ≤ 1 := by
  induction l with
  | nil => simp
  | cons a l ih =>
    rw [List.pairwise_cons, ih]
    constructor
    · rintro ⟨ha, hl⟩ x
      rw [coverage_cons]
      by_cases hx : x ∈ a.positions
      · have : coverage l x = 0 := by
          by_contra hne
          obtain ⟨e, he, hxe⟩ := exists_mem_of_coverage_pos (Nat.pos_of_ne_zero hne)
          exact Set.disjoint_left.mp (ha e he) hx hxe
        rw [this]
        exact Extent.covers_le_one a x
      · rw [Extent.covers_eq_zero_iff.mpr hx, Nat.zero_add]
        exact hl x
    · intro h
      refine ⟨fun e he => Set.disjoint_left.mpr fun x hx hxe => ?_, fun x => ?_⟩
      · have h1 := h x
        have h2 := coverage_pos_of_mem he hxe
        rw [coverage_cons, Extent.covers_eq_one_iff.mpr hx] at h1
        omega
      · have h1 := h x
        rw [coverage_cons] at h1
        omega

/-- A list partitions the first `n` positions exactly when it covers each of them once and no
other position. -/
theorem partitions_iff {l : List Extent} {n : ℕ} :
    Partitions l n ↔ ∀ x, coverage l x = if x < n then 1 else 0 := by
  have hmem : ∀ x, x ∈ ⋃ e ∈ l, e.positions ↔ 0 < coverage l x := fun x => by
    simp only [Set.mem_iUnion, exists_prop]
    exact ⟨fun ⟨_, he, hx⟩ => coverage_pos_of_mem he hx, exists_mem_of_coverage_pos⟩
  rw [Partitions, pairwise_disjoint_iff]
  constructor
  · rintro ⟨h1, h2⟩ x
    have hx : 0 < coverage l x ↔ x < n := by rw [← hmem, h2]; rfl
    have := h1 x
    split_ifs <;> omega
  · intro h
    refine ⟨fun x => by rw [h]; split_ifs <;> simp, Set.ext fun x => ?_⟩
    rw [hmem, h, Set.mem_Iio]
    split_ifs <;> simp_all
