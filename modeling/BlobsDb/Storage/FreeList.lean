import BlobsDb.ForMathlib.Extent
import BlobsDb.Storage.File

/-!
# The free list

The free list hands out space of the file: the first free block that is large enough is cut, and
without one the file grows. Blocks that are given back are appended; `reorganize` sorts the list
and merges neighbours.

The proofs count: `FreeList.free L x` says how often the position `x` is free, where all
positions from the end offset on are free once. Every operation moves such counts without losing
or doubling any.
-/

namespace BlobsDb

/-- The free blocks, the end of the managed part of the file, and the block the list itself was
stored in. -/
structure FreeList where
  endOffset : ℕ
  entries : List BlockReference
  fileLocation : BlockReference
  deriving DecidableEq

/-- A sorting of blocks by offset. Blocks with the same offset come in any order, as they may
for an unstable sort. -/
structure OffsetSort where
  sort : List BlockReference → List BlockReference
  perm : ∀ l, (sort l).Perm l
  sorted : ∀ l, (sort l).Pairwise fun a b => a.offset ≤ b.offset

namespace FreeList

/-- `FreeMemoryBlock` -/
def freeMemoryBlock (L : FreeList) (location : BlockReference) : FreeList :=
  { L with entries := L.entries ++ [location] }

/-- Cuts `size` bytes off the first block that has them: the offset of the cut and what is left
of the list. -/
def cutFirst (size : ℕ) : List BlockReference → Option (ℕ × List BlockReference)
  | [] => none
  | b :: m =>
    if size ≤ b.size then some (b.offset, ⟨b.offset + size, b.size - size⟩ :: m)
    else
      match cutFirst size m with
      | none => none
      | some (offset, m) => some (offset, b :: m)

/-- `AllocateMemoryBlock` -/
def allocateMemoryBlock (L : FreeList) (size : ℕ) : ℕ × FreeList :=
  match cutFirst size L.entries with
  | some (offset, m) => (offset, { L with entries := m })
  | none => (L.endOffset, { L with endOffset := L.endOffset + size })

/-- The merging pass over a block and those after it: a block that ends where the next one
starts gives its space to the next one and stays behind without size. -/
def mergeFrom (pos : BlockReference) : List BlockReference → List BlockReference
  | [] => [pos]
  | next :: m =>
    if pos.endOffset = next.offset then
      ⟨pos.offset, 0⟩ :: mergeFrom ⟨next.offset - pos.size, next.size + pos.size⟩ m
    else pos :: mergeFrom next m

/-- The merging pass of `Reorganize`. -/
def mergeNeighbours : List BlockReference → List BlockReference
  | [] => []
  | pos :: m => mergeFrom pos m

/-- `Reorganize` -/
def reorganize (L : FreeList) (σ : OffsetSort) : FreeList :=
  if 1 < L.entries.length then
    { L with entries := (mergeNeighbours (σ.sort L.entries)).filter fun b => b.size ≠ 0 }
  else L

/-- `CalculateRequiredSize` -/
def calculateRequiredSize (L : FreeList) : ℕ := 16 + 16 * L.entries.length

/-- `EstimateRequiredSize` -/
def estimateRequiredSize (L : FreeList) (additionalFreeBlocks : ℕ) : ℕ :=
  L.calculateRequiredSize + 16 * additionalFreeBlocks

/-- How often the position `x` is free. -/
def free (L : FreeList) (x : ℕ) : ℕ := coverage L.entries x + if L.endOffset ≤ x then 1 else 0

theorem coverage_cutFirst {size offset : ℕ} {l m : List BlockReference}
    (h : cutFirst size l = some (offset, m)) (x : ℕ) :
    (⟨offset, size⟩ : Extent).covers x + coverage m x = coverage l x := by
  induction l generalizing m with
  | nil => cases h
  | cons b l ih =>
    rw [cutFirst] at h
    split_ifs at h with hb
    · cases h
      rw [coverage_cons, coverage_cons, ← Nat.add_assoc]
      exact congrArg (· + coverage l x) (Extent.covers_split (o := b.offset) hb x)
    · split at h
      · cases h
      · next offset' m' hm =>
        cases h
        have := ih hm
        simp only [coverage_cons]
        omega

/-- An allocated block was free before and is not free any more. -/
theorem free_allocateMemoryBlock (L : FreeList) (size x : ℕ) :
    (⟨(L.allocateMemoryBlock size).1, size⟩ : Extent).covers x +
      (L.allocateMemoryBlock size).2.free x = L.free x := by
  unfold allocateMemoryBlock
  split
  · next offset m h =>
    have := coverage_cutFirst h x
    simp only [free]
    omega
  · simp only [free, Extent.covers]
    split_ifs <;> omega

theorem free_freeMemoryBlock (L : FreeList) (r : BlockReference) (x : ℕ) :
    (L.freeMemoryBlock r).free x = r.covers x + L.free x := by
  change coverage (L.entries ++ [r]) x + (if L.endOffset ≤ x then 1 else 0) =
    r.covers x + (coverage L.entries x + if L.endOffset ≤ x then 1 else 0)
  rw [coverage_append, coverage_cons, coverage_nil]
  omega

theorem coverage_mergeFrom (pos : BlockReference) (l : List BlockReference) (x : ℕ) :
    coverage (mergeFrom pos l) x = pos.covers x + coverage l x := by
  induction l generalizing pos with
  | nil => simp [mergeFrom]
  | cons next m ih =>
    rw [mergeFrom]
    split_ifs with h
    · -- the two blocks are the parts of the merged one
      have hpos : pos.offset + pos.size = next.offset := h
      have hoff : next.offset - pos.size = pos.offset := by omega
      have hsplit := Extent.covers_split (o := pos.offset) (Nat.le_add_left pos.size next.size) x
      rw [hpos, Nat.add_sub_cancel] at hsplit
      rw [coverage_cons, coverage_cons, ih, hoff, ← hsplit, Extent.covers_of_size_eq_zero rfl,
        Nat.zero_add, Nat.add_assoc]
    · simp only [coverage_cons, ih]

theorem coverage_mergeNeighbours (l : List BlockReference) (x : ℕ) :
    coverage (mergeNeighbours l) x = coverage l x := by
  cases l with
  | nil => rfl
  | cons pos m => rw [mergeNeighbours, coverage_mergeFrom, coverage_cons]

theorem coverage_filter_size (l : List BlockReference) (x : ℕ) :
    coverage (l.filter fun b => b.size ≠ 0) x = coverage l x := by
  induction l with
  | nil => rfl
  | cons b l ih =>
    by_cases hb : b.size = 0
    · rw [List.filter_cons_of_neg (by simpa using hb), ih, coverage_cons,
        Extent.covers_of_size_eq_zero hb, Nat.zero_add]
    · rw [List.filter_cons_of_pos (by simpa using hb), coverage_cons, ih, coverage_cons]

/-- Reorganizing changes neither which positions are free nor how often. -/
theorem free_reorganize (L : FreeList) (σ : OffsetSort) (x : ℕ) :
    (L.reorganize σ).free x = L.free x := by
  unfold reorganize
  split_ifs
  · simp only [free, coverage_filter_size, coverage_mergeNeighbours,
      coverage_perm (σ.perm L.entries)]
  · rfl

theorem length_mergeNeighbours (l : List BlockReference) :
    (mergeNeighbours l).length = l.length := by
  have hfrom : ∀ (m : List BlockReference) pos, (mergeFrom pos m).length = m.length + 1 :=
    fun m => by
      induction m with
      | nil => exact fun pos => rfl
      | cons next m ih =>
        intro pos
        rw [mergeFrom]
        split_ifs <;> simp [ih]
  cases l with
  | nil => rfl
  | cons pos m => exact hfrom m pos

/-- Reorganizing never adds entries. -/
theorem length_reorganize_le (L : FreeList) (σ : OffsetSort) :
    (L.reorganize σ).entries.length ≤ L.entries.length := by
  unfold reorganize
  split_ifs
  · refine (List.length_filter_le _ _).trans ?_
    rw [length_mergeNeighbours, (σ.perm L.entries).length_eq]
  · exact Nat.le_refl _

theorem length_allocateMemoryBlock (L : FreeList) (size : ℕ) :
    (L.allocateMemoryBlock size).2.entries.length = L.entries.length := by
  have hcut : ∀ {l m : List BlockReference} {offset : ℕ}, cutFirst size l = some (offset, m) →
      m.length = l.length := fun {l} => by
    induction l with
    | nil => intro m offset h; cases h
    | cons b l ih =>
      intro m offset h
      rw [cutFirst] at h
      split_ifs at h
      · cases h; rfl
      · split at h
        · cases h
        · next hm => cases h; simp [ih hm]
  unfold allocateMemoryBlock
  split
  · next h => exact hcut h
  · rfl

/-! ### Limits -/

/-- The free blocks lie in the managed part of the file. -/
def Within (L : FreeList) : Prop := ∀ b ∈ L.entries, b.endOffset ≤ L.endOffset

theorem endOffset_le_allocateMemoryBlock (L : FreeList) (size : ℕ) :
    L.endOffset ≤ (L.allocateMemoryBlock size).2.endOffset := by
  unfold allocateMemoryBlock
  split
  · exact Nat.le_refl _
  · exact Nat.le_add_right _ _

theorem endOffset_cutFirst {size offset limit : ℕ} {l m : List BlockReference}
    (h : cutFirst size l = some (offset, m)) (hl : ∀ b ∈ l, b.endOffset ≤ limit) :
    offset + size ≤ limit ∧ ∀ b ∈ m, b.endOffset ≤ limit := by
  induction l generalizing m with
  | nil => cases h
  | cons b l ih =>
    have hb := hl b List.mem_cons_self
    have hl' : ∀ b ∈ l, b.endOffset ≤ limit := fun b hb => hl b (List.mem_cons_of_mem _ hb)
    rw [cutFirst] at h
    split_ifs at h with hsize
    · cases h
      rw [Extent.endOffset] at hb
      refine ⟨by omega, fun b' hb' => ?_⟩
      rcases List.mem_cons.mp hb' with rfl | hb'
      · rw [Extent.endOffset]
        change b.offset + size + (b.size - size) ≤ limit
        omega
      · exact hl' b' hb'
    · split at h
      · cases h
      · next hm =>
        cases h
        obtain ⟨h1, h2⟩ := ih hm hl'
        refine ⟨h1, fun b' hb' => ?_⟩
        rcases List.mem_cons.mp hb' with rfl | hb'
        · exact hb
        · exact h2 b' hb'

/-- An allocated block lies in the managed part of the file, and so do the blocks left. -/
theorem Within.allocateMemoryBlock {L : FreeList} (h : L.Within) (size : ℕ) :
    (L.allocateMemoryBlock size).1 + size ≤ (L.allocateMemoryBlock size).2.endOffset ∧
      (L.allocateMemoryBlock size).2.Within := by
  unfold FreeList.allocateMemoryBlock
  split
  · next hm => exact endOffset_cutFirst hm h
  · exact ⟨Nat.le_refl _, fun b hb => (h b hb).trans (Nat.le_add_right _ _)⟩

theorem Within.freeMemoryBlock {L : FreeList} (h : L.Within) {r : BlockReference}
    (hr : r.endOffset ≤ L.endOffset) : (L.freeMemoryBlock r).Within := fun b hb => by
  rcases List.mem_append.mp hb with hb | hb
  · exact h b hb
  · rw [List.mem_singleton.mp hb]
    exact hr

theorem endOffset_mergeFrom {limit : ℕ} {pos : BlockReference} {l : List BlockReference}
    (hpos : pos.endOffset ≤ limit) (hl : ∀ b ∈ l, b.endOffset ≤ limit) :
    ∀ b ∈ mergeFrom pos l, b.endOffset ≤ limit := by
  induction l generalizing pos with
  | nil =>
    intro b hb
    rw [List.mem_singleton.mp hb]
    exact hpos
  | cons next m ih =>
    have hnext := hl next List.mem_cons_self
    have hm : ∀ b ∈ m, b.endOffset ≤ limit := fun b hb => hl b (List.mem_cons_of_mem _ hb)
    intro b hb
    rw [mergeFrom] at hb
    split_ifs at hb with h
    · rcases List.mem_cons.mp hb with rfl | hb
      · exact (Nat.le_add_right _ _).trans hpos
      · refine ih ?_ hm b hb
        rw [Extent.endOffset] at hnext h ⊢
        change next.offset - pos.size + (next.size + pos.size) ≤ limit
        omega
    · rcases List.mem_cons.mp hb with rfl | hb
      · exact hpos
      · exact ih hnext hm b hb

theorem Within.reorganize {L : FreeList} (h : L.Within) (σ : OffsetSort) :
    (L.reorganize σ).Within := by
  unfold FreeList.reorganize
  split_ifs
  · intro b hb
    have hsort : ∀ b ∈ σ.sort L.entries, b.endOffset ≤ L.endOffset := fun b hb =>
      h b ((σ.perm L.entries).subset hb)
    have hmem := (List.mem_filter.mp hb).1
    cases hl : σ.sort L.entries with
    | nil =>
      rw [hl] at hmem
      cases hmem
    | cons pos m =>
      rw [hl] at hsort hmem
      exact endOffset_mergeFrom (hsort pos List.mem_cons_self)
        (fun b hb => hsort b (List.mem_cons_of_mem _ hb)) b hmem
  · exact h

@[simp]
theorem endOffset_reorganize (L : FreeList) (σ : OffsetSort) :
    (L.reorganize σ).endOffset = L.endOffset := by
  unfold reorganize
  split_ifs <;> rfl

@[simp]
theorem fileLocation_reorganize (L : FreeList) (σ : OffsetSort) :
    (L.reorganize σ).fileLocation = L.fileLocation := by
  unfold reorganize
  split_ifs <;> rfl

end FreeList

end BlobsDb
