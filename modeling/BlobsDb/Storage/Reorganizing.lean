import BlobsDb.Storage.FreeList
import Mathlib.Data.List.Sort

/-!
# The canonical form of the free list

Between two reorganizations the free list has blocks in any order, and empty blocks where one was
used up. `Canonical` lists are ascending, have no empty blocks and no neighbours left to merge.

The merging pass compares each block with the one right behind it in the sorted list. An empty
block with the offset of another one may be sorted behind it, and then hides where the next block
starts. `Joined` lists have no such empty block, and these are the lists that end up canonical
(`reorganized_iff`).
-/

namespace BlobsDb

variable {pos next a b : BlockReference} {l m : List BlockReference}

/-- The list is sorted by insertion, so that of blocks with the same offset the last comes
first. -/
def OffsetSort.lastFirst : OffsetSort where
  sort l := l.reverse.insertionSort fun a b => a.offset ≤ b.offset
  perm l := (List.perm_insertionSort _ _).trans l.reverse_perm
  sorted l :=
    have : Std.Total fun a b : BlockReference => a.offset ≤ b.offset :=
      ⟨fun _ _ => Nat.le_total _ _⟩
    have : IsTrans BlockReference fun a b => a.offset ≤ b.offset := ⟨fun _ _ _ => Nat.le_trans⟩
    List.pairwise_insertionSort _ l.reverse

namespace FreeList

/-! ### The merging pass -/

/-- What the merging pass leaves when the empty blocks are removed. -/
def mergeKept (pos : BlockReference) (m : List BlockReference) : List BlockReference :=
  (mergeFrom pos m).filter fun b => b.size ≠ 0

theorem mergeKept_nil (h : pos.size ≠ 0) : mergeKept pos [] = [pos] := by
  rw [mergeKept, mergeFrom, List.filter_cons_of_pos (by simpa using h), List.filter_nil]

/-- A block that touches the next one is merged with it. -/
theorem mergeKept_of_eq (h : pos.endOffset = next.offset) :
    mergeKept pos (next :: m) = mergeKept ⟨pos.offset, pos.size + next.size⟩ m := by
  have hoff : next.offset - pos.size = pos.offset := by
    rw [Extent.endOffset] at h
    omega
  rw [mergeKept, mergeFrom, if_pos h, List.filter_cons_of_neg (by simp), hoff, Nat.add_comm]
  rfl

theorem mergeKept_of_ne (hpos : pos.size ≠ 0) (h : pos.endOffset ≠ next.offset) :
    mergeKept pos (next :: m) = pos :: mergeKept next m := by
  rw [mergeKept, mergeFrom, if_neg h, List.filter_cons_of_pos (by simpa using hpos)]
  rfl

/-- An empty block has no effect on those after it. -/
theorem mergeKept_of_empty (hpos : pos.size = 0) :
    mergeKept pos (next :: m) = mergeKept next m := by
  by_cases h : pos.endOffset = next.offset
  · rw [mergeKept_of_eq h, hpos, Nat.zero_add]
    rw [Extent.endOffset, hpos, Nat.add_zero] at h
    rw [h]
  · rw [mergeKept, mergeFrom, if_neg h, List.filter_cons_of_neg (by simpa using hpos)]
    rfl

theorem size_ne_of_mem_mergeKept (h : b ∈ mergeKept pos m) : b.size ≠ 0 := by
  simpa using (List.mem_filter.mp h).2

theorem coverage_mergeKept (pos : BlockReference) (m : List BlockReference) (x : ℕ) :
    coverage (mergeKept pos m) x = coverage (pos :: m) x := by
  rw [mergeKept, coverage_filter_size, coverage_mergeFrom, coverage_cons]

/-- The first block that is left starts where the first block did that is not empty. -/
theorem offset_head_mergeKept (pos : BlockReference) (m : List BlockReference) :
    (mergeKept pos m).head?.map Extent.offset =
      ((pos :: m).find? fun b => b.size ≠ 0).map Extent.offset := by
  induction m generalizing pos with
  | nil =>
    by_cases hpos : pos.size = 0
    · simp [mergeKept, mergeFrom, hpos]
    · simp [mergeKept_nil hpos, hpos]
  | cons next m ih =>
    by_cases hpos : pos.size = 0
    · rw [mergeKept_of_empty hpos, ih]
      exact congrArg _ (List.find?_cons_of_neg (by simpa using hpos)).symm
    · rw [List.find?_cons_of_pos (by simpa using hpos)]
      by_cases h : pos.endOffset = next.offset
      · rw [mergeKept_of_eq h, ih, List.find?_cons_of_pos (by simp [hpos])]
        rfl
      · rw [mergeKept_of_ne hpos h]
        rfl

/-! ### Order -/

/-- The blocks are sorted by offset. -/
abbrev ByOffset (l : List BlockReference) : Prop :=
  l.Pairwise fun a b => a.offset ≤ b.offset

/-- Merging keeps the order. -/
theorem byOffset_mergeKept (h : ByOffset (pos :: m)) :
    ByOffset (mergeKept pos m) ∧ ∀ b ∈ mergeKept pos m, pos.offset ≤ b.offset := by
  induction m generalizing pos with
  | nil =>
    by_cases hpos : pos.size = 0
    · simp [mergeKept, mergeFrom, hpos]
    · simp [mergeKept_nil hpos]
  | cons next m ih =>
    obtain ⟨hpos, hm⟩ := List.pairwise_cons.mp h
    have hle := hpos next List.mem_cons_self
    by_cases hsize : pos.size = 0
    · rw [mergeKept_of_empty hsize]
      exact ⟨(ih hm).1, fun b hb => hle.trans ((ih hm).2 b hb)⟩
    · by_cases htouch : pos.endOffset = next.offset
      · rw [mergeKept_of_eq htouch]
        refine ih (List.pairwise_cons.mpr ⟨fun b hb => ?_, (List.pairwise_cons.mp hm).2⟩)
        exact hpos b (List.mem_cons_of_mem _ hb)
      · rw [mergeKept_of_ne hsize htouch]
        refine ⟨List.pairwise_cons.mpr ⟨fun b hb => hle.trans ((ih hm).2 b hb), (ih hm).1⟩, ?_⟩
        intro b hb
        rcases List.mem_cons.mp hb with rfl | hb
        · exact le_rfl
        · exact hle.trans ((ih hm).2 b hb)

/-- A block that is not empty starts behind the end of an earlier one that it does not meet. -/
theorem endOffset_le_of_disjoint (hb : b.size ≠ 0) (hle : a.offset ≤ b.offset)
    (hd : Disjoint a.positions b.positions) : a.endOffset ≤ b.offset := by
  by_contra hlt
  rw [Extent.endOffset] at hlt
  have hmem : b.offset ∈ a.positions := Extent.mem_positions.mpr (by omega)
  exact Set.disjoint_left.mp hd hmem (Extent.mem_positions.mpr (by omega))

/-- The blocks that are left end before the next one starts. -/
theorem pairwise_mergeKept (h : ByOffset (pos :: m)) (hd : ∀ x, coverage (pos :: m) x ≤ 1) :
    (mergeKept pos m).Pairwise fun a b => a.endOffset ≤ b.offset := by
  have hdisjoint := pairwise_disjoint_iff.mpr fun x => (coverage_mergeKept pos m x).trans_le (hd x)
  refine ((byOffset_mergeKept h).1.and hdisjoint).imp_of_mem fun {a b} _ hb hab => ?_
  exact endOffset_le_of_disjoint (size_ne_of_mem_mergeKept hb) hab.1 hab.2

/-! ### Neighbours -/

/-- When the next block that is not empty starts at the end of one, the block right behind does so
as well. -/
def JoinedWith (a : BlockReference) (m : List BlockReference) : Prop :=
  ∀ y ∈ m.find? (fun b => b.size ≠ 0), y.offset = a.endOffset →
    ∀ z ∈ m.head?, z.offset = a.endOffset

/-- In a sorted list: between a block and the next one that is not empty, if they touch, are only
empty blocks that lie where they touch. -/
def Joined : List BlockReference → Prop
  | [] => True
  | a :: m => (a.size ≠ 0 → JoinedWith a m) ∧ Joined m

instance (a : BlockReference) (m : List BlockReference) : Decidable (JoinedWith a m) := by
  unfold JoinedWith
  infer_instance

instance Joined.decidable : (l : List BlockReference) → Decidable (Joined l)
  | [] => inferInstanceAs (Decidable True)
  | a :: m =>
    have := Joined.decidable m
    inferInstanceAs (Decidable ((a.size ≠ 0 → JoinedWith a m) ∧ Joined m))

/-- An empty block is joined with those behind it. -/
theorem joinedWith_of_empty (ha : a.size = 0) (h : ByOffset (a :: m)) : JoinedWith a m := by
  obtain ⟨hle, hm⟩ := List.pairwise_cons.mp h
  intro y hy htouch z hz
  rw [Extent.endOffset, ha, Nat.add_zero] at htouch ⊢
  obtain ⟨m, rfl⟩ : ∃ m', m = z :: m' := by
    cases m with
    | nil => cases hz
    | cons z' m' =>
      cases hz
      exact ⟨m', rfl⟩
  have hzy : z.offset ≤ y.offset := by
    rcases List.mem_cons.mp (List.mem_of_find?_eq_some hy) with rfl | hy
    · exact le_rfl
    · exact (List.pairwise_cons.mp hm).1 y hy
  exact le_antisymm (hzy.trans_eq htouch) (hle z List.mem_cons_self)

/-- No two neighbours are left when the sorted list is joined, and only then. -/
theorem pairwise_ne_mergeKept_iff (h : ByOffset (pos :: m))
    (hd : ∀ x, coverage (pos :: m) x ≤ 1) :
    (mergeKept pos m).Pairwise (fun a b => a.endOffset ≠ b.offset) ↔ Joined (pos :: m) := by
  induction m generalizing pos with
  | nil =>
    have : Joined [pos] := ⟨fun _ y hy => (nomatch hy), trivial⟩
    by_cases hpos : pos.size = 0
    · simp [mergeKept, mergeFrom, hpos, this]
    · simp [mergeKept_nil hpos, this]
  | cons next m ih =>
    obtain ⟨hle, hm⟩ := List.pairwise_cons.mp h
    have hdm : ∀ x, coverage (next :: m) x ≤ 1 := fun x =>
      (Nat.le_add_left _ _).trans ((coverage_cons pos (next :: m) x).symm.trans_le (hd x))
    by_cases hpos : pos.size = 0
    · rw [mergeKept_of_empty hpos, ih hm hdm]
      exact ⟨fun h => ⟨fun hne => absurd hpos hne, h⟩, fun h => h.2⟩
    by_cases htouch : pos.endOffset = next.offset
    · -- the merged block ends where the next one does
      have hend : (⟨pos.offset, pos.size + next.size⟩ : BlockReference).endOffset =
          next.endOffset := by
        rw [Extent.endOffset] at htouch
        simp only [Extent.endOffset]
        omega
      have hby : ByOffset (⟨pos.offset, pos.size + next.size⟩ :: m) :=
        List.pairwise_cons.mpr ⟨fun b hb => hle b (List.mem_cons_of_mem _ hb),
          (List.pairwise_cons.mp hm).2⟩
      have hcover : ∀ x, coverage (⟨pos.offset, pos.size + next.size⟩ :: m) x ≤ 1 := fun x => by
        have := coverage_mergeKept pos (next :: m) x
        rw [mergeKept_of_eq htouch, coverage_mergeKept] at this
        exact this.trans_le (hd x)
      have hfirst : JoinedWith pos (next :: m) := fun y hy _ z hz => by
        cases hz
        exact htouch.symm
      have hnext : JoinedWith ⟨pos.offset, pos.size + next.size⟩ m ↔ JoinedWith next m := by
        rw [JoinedWith, JoinedWith, hend]
      rw [mergeKept_of_eq htouch, ih hby hcover, Joined, Joined, Joined, hnext]
      constructor
      · rintro ⟨h1, h2⟩
        exact ⟨fun _ => hfirst, fun _ => h1 (by simp [hpos]), h2⟩
      · rintro ⟨-, h1, h2⟩
        refine ⟨fun _ => ?_, h2⟩
        by_cases hsize : next.size = 0
        · exact joinedWith_of_empty hsize hm
        · exact h1 hsize
    · rw [mergeKept_of_ne hpos htouch, List.pairwise_cons, ih hm hdm, Joined]
      refine and_congr_left fun _ => ?_
      -- only the first block that is left can touch
      have hpair := pairwise_mergeKept h hd
      rw [mergeKept_of_ne hpos htouch] at hpair
      have hhead := offset_head_mergeKept next m
      constructor
      · intro hne _ y hy hoff
        obtain ⟨b, hb, hby⟩ : ∃ b, (mergeKept next m).head? = some b ∧ b.offset = y.offset := by
          rw [show (next :: m).find? (fun b => b.size ≠ 0) = some y from hy,
            Option.map_some, Option.map_eq_some_iff] at hhead
          exact hhead
        exact absurd (hby.trans hoff).symm (hne b (List.mem_of_head? hb))
      · intro hjoined b hb heq
        obtain ⟨c, rest, hrest⟩ := List.exists_cons_of_ne_nil (List.ne_nil_of_mem hb)
        have hcb : c.offset ≤ b.offset := by
          have hby := (byOffset_mergeKept hm).1
          rw [hrest] at hb hby
          rcases List.mem_cons.mp hb with rfl | hb
          · exact le_rfl
          · exact (List.pairwise_cons.mp hby).1 b hb
        have hposc : pos.endOffset ≤ c.offset :=
          (List.pairwise_cons.mp hpair).1 c (hrest ▸ List.mem_cons_self)
        rw [hrest] at hhead
        obtain ⟨y, hy, hyc⟩ := Option.map_eq_some_iff.mp hhead.symm
        have hyend : y.offset = pos.endOffset := by
          rw [hyc]
          exact le_antisymm (hcb.trans_eq heq.symm) hposc
        exact htouch (hjoined hpos y hy hyend next rfl).symm

/-! ### Reorganizing -/

/-- What reorganizing is for. -/
structure Canonical (l : List BlockReference) : Prop where
  ascending : l.Pairwise fun a b => a.offset < b.offset
  nonempty : ∀ b ∈ l, b.size ≠ 0
  merged : l.Pairwise fun a b => a.endOffset ≠ b.offset

/-- The blocks of two lists cover the same positions. -/
def SamePositions (l m : List BlockReference) : Prop :=
  ∀ x, (∃ b ∈ l, x ∈ b.positions) ↔ ∃ b ∈ m, x ∈ b.positions

theorem samePositions_of_coverage (h : ∀ x, coverage l x = coverage m x) : SamePositions l m := by
  have hpos : ∀ (l : List BlockReference) x, (∃ b ∈ l, x ∈ b.positions) ↔ 0 < coverage l x :=
    fun l x => ⟨fun ⟨_, hb, hx⟩ => coverage_pos_of_mem hb hx, exists_mem_of_coverage_pos⟩
  intro x
  rw [hpos, hpos, h]

theorem canonical_mergeKept_iff (h : ByOffset (pos :: m)) (hd : ∀ x, coverage (pos :: m) x ≤ 1) :
    Canonical (mergeKept pos m) ↔ Joined (pos :: m) := by
  rw [← pairwise_ne_mergeKept_iff h hd]
  refine ⟨fun hc => hc.merged, fun hne => ⟨?_, fun b => size_ne_of_mem_mergeKept, hne⟩⟩
  refine (pairwise_mergeKept h hd).imp_of_mem fun {a b} ha _ hle => ?_
  have := size_ne_of_mem_mergeKept ha
  rw [Extent.endOffset] at hle
  omega

/-- Reorganizing disjoint blocks keeps the positions, and gives the canonical form exactly when
the list is not a single empty block and the sorting put no empty block between two blocks that
touch, other than where they touch. -/
theorem reorganized_iff (L : FreeList) (σ : OffsetSort)
    (hd : L.entries.Pairwise fun a b => Disjoint a.positions b.positions) :
    SamePositions (L.reorganize σ).entries L.entries ∧ Canonical (L.reorganize σ).entries ↔
      (∀ b, L.entries = [b] → b.size ≠ 0) ∧ Joined (σ.sort L.entries) := by
  have hsame : SamePositions (L.reorganize σ).entries L.entries :=
    samePositions_of_coverage fun x => by
      have := free_reorganize L σ x
      rw [free, free, endOffset_reorganize] at this
      omega
  rw [and_iff_right hsame]
  by_cases hlength : 1 < L.entries.length
  · obtain ⟨pos, m, hsort⟩ : ∃ pos m, σ.sort L.entries = pos :: m := by
      refine List.exists_cons_of_ne_nil fun hnil => ?_
      have := (σ.perm L.entries).length_eq
      rw [hnil, List.length_nil] at this
      omega
    have hentries : (L.reorganize σ).entries = mergeKept pos m := by
      rw [reorganize, if_pos hlength, hsort]
      rfl
    have hcover : ∀ x, coverage (pos :: m) x ≤ 1 := fun x => by
      rw [← hsort, coverage_perm (σ.perm L.entries)]
      exact pairwise_disjoint_iff.mp hd x
    have hone : ∀ b, L.entries = [b] → b.size ≠ 0 := fun b hb => by
      rw [hb] at hlength
      exact absurd hlength (by simp)
    have hby : ByOffset (pos :: m) := hsort ▸ σ.sorted L.entries
    rw [hentries, hsort, canonical_mergeKept_iff hby hcover, and_iff_right hone]
  · have hentries : (L.reorganize σ).entries = L.entries := by rw [reorganize, if_neg hlength]
    have hperm := σ.perm L.entries
    rw [hentries]
    have hlength : L.entries.length ≤ 1 := not_lt.mp hlength
    rcases Nat.le_one_iff_eq_zero_or_eq_one.mp hlength with hzero | hone
    · have hl := List.length_eq_zero_iff.mp hzero
      rw [hl, List.perm_nil] at hperm
      rw [hl, hperm]
      exact ⟨fun _ => ⟨fun b hb => absurd hb (by simp), trivial⟩,
        fun _ => ⟨.nil, fun b hb => absurd hb (by simp), .nil⟩⟩
    · obtain ⟨b, hl⟩ := List.length_eq_one_iff.mp hone
      rw [hl, List.perm_singleton] at hperm
      rw [hl, hperm]
      constructor
      · intro hc
        refine ⟨fun a ha => hc.nonempty a (by rw [ha]; exact List.mem_cons_self), ?_⟩
        exact ⟨fun _ y hy => absurd hy (by simp), trivial⟩
      · rintro ⟨hone, -⟩
        refine ⟨List.pairwise_singleton _ _, fun a ha => ?_, List.pairwise_singleton _ _⟩
        rw [List.mem_singleton.mp ha]
        exact hone b rfl

/-- Three blocks, two of which touch, and one without size where one of them starts, which the sorting
puts first. -/
theorem reorganized_iff_touching :
    SamePositions ((⟨300, [⟨100, 50⟩, ⟨20, 30⟩, ⟨0, 20⟩, ⟨20, 0⟩], default⟩ : FreeList).reorganize
        .lastFirst).entries [⟨100, 50⟩, ⟨20, 30⟩, ⟨0, 20⟩, ⟨20, 0⟩] ∧
      Canonical ((⟨300, [⟨100, 50⟩, ⟨20, 30⟩, ⟨0, 20⟩, ⟨20, 0⟩], default⟩ : FreeList).reorganize
        .lastFirst).entries :=
  (reorganized_iff ⟨300, [⟨100, 50⟩, ⟨20, 30⟩, ⟨0, 20⟩, ⟨20, 0⟩], default⟩ .lastFirst
    (pairwise_disjoint_iff.mpr fun x => by
      simp only [coverage_cons, coverage_nil, Extent.covers]
      split_ifs <;> omega)).mpr
    ⟨fun b hb => (nomatch hb), by decide⟩

/-- A list after a commit has used up the block at 80, released one at 100 and released its own
at 500: the block that was used up is left without size where the released one starts. -/
def usedUp : FreeList :=
  let L : FreeList := ⟨1024, [⟨80, 20⟩, ⟨150, 20⟩], ⟨500, 64⟩⟩
  let L := (L.allocateMemoryBlock 20).2
  let L := (L.allocateMemoryBlock (L.estimateRequiredSize 2)).2
  (L.freeMemoryBlock ⟨100, 50⟩).freeMemoryBlock ⟨500, 64⟩

/-- The sorting may put the empty block behind the released one, which is then not merged with the
block it touches. -/
theorem not_canonical_usedUp :
    usedUp.entries.Pairwise (fun a b => Disjoint a.positions b.positions) ∧
      ¬(SamePositions (usedUp.reorganize .lastFirst).entries usedUp.entries ∧
        Canonical (usedUp.reorganize .lastFirst).entries) := by
  refine ⟨pairwise_disjoint_iff.mpr fun x => ?_, fun h => absurd h.2.merged (by decide)⟩
  rw [show usedUp.entries = [⟨100, 0⟩, ⟨150, 20⟩, ⟨100, 50⟩, ⟨500, 64⟩] from rfl]
  simp only [coverage_cons, coverage_nil, Extent.covers]
  split_ifs <;> omega

end FreeList

end BlobsDb
