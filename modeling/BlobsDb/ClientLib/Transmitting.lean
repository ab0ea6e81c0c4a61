import BlobsDb.ClientLib.Calls

/-!
# What a commit does with what was noted

The writes of a transaction are transmitted in an order in which everything is created before
something is written to it, and deletions come last. Applied to the database that the transaction
found, they make it the database that the transaction has seen
(`DatabaseState.Tracks.foldl_update`): what entries create on their way is written as well, or it is
deleted in the end.

Thus a transaction does to the database what its calls mean, one after the other, when it is committed
(`Performs.foldl_update`).
-/

namespace BlobsDb

/-- A list is sorted by a key, if the elements are compared like their keys. -/
theorem pairwise_key_insertionSort {α κ : Type*} [LinearOrder κ] {r : α → α → Prop}
    [DecidableRel r] {key : α → κ} {as : List α}
    (h : as.Pairwise fun a b => (r a b ↔ key a ≤ key b) ∧ (r b a ↔ key b ≤ key a)) :
    (as.insertionSort r).Pairwise fun a b => key a ≤ key b := by
  have hmap : (as.insertionSort r).map key = (as.map key).insertionSort (· ≤ ·) := by
    induction as with
    | nil => rfl
    | cons a as ih =>
      obtain ⟨ha, has⟩ := List.pairwise_cons.mp h
      rw [List.insertionSort_cons, List.map_orderedInsert r (· ≤ ·), ih has, List.map_cons,
        List.insertionSort_cons]
      · exact fun b hb => (ha b ((List.mem_insertionSort r).mp hb)).2
      · exact fun b hb => (ha b ((List.mem_insertionSort r).mp hb)).1
  rw [← List.pairwise_map, hmap]
  exact List.pairwise_insertionSort (· ≤ ·) _

namespace ClientLib

open Access (idOf)

namespace DatabaseState

variable {state : DatabaseState} {v₀ v w : View} {l l' a b : BlobLocation} {s : SegmentId}
  {c : ClusterId} {n : UInt32} {d : List UInt8} {u : BlobData} {us us' : List BlobData}
  {missed : BlobLocation → Prop}

/-! ### The order of the writes -/

/-- One id comes first, the others are in order. -/
def rank (first id : UInt32) : ℕ := if id = first then 0 else id.toNat + 1

/-- The rank puts one id first, and keeps the order of the others. -/
theorem rank_lt_rank {first id id' : UInt32} (h : id ≠ id') : rank first id < rank first id' ↔
    id = first ∨ id' ≠ first ∧ id < id' := by
  by_cases h1 : id = first <;> by_cases h2 : id' = first
  · exact absurd (h1.trans h2.symm) h
  · simp [rank, h1, h2]
  · simp [rank, h1, h2]
  · simp [rank, h1, h2, UInt32.lt_iff_toNat_lt]

theorem rank_inj {first id id' : UInt32} : rank first id = rank first id' ↔ id = id' := by
  refine ⟨fun h => ?_, fun h => by rw [h]⟩
  by_contra hne
  rcases lt_or_gt_of_ne hne with hlt | hlt
  all_goals
    unfold rank at h
    split_ifs at h with h1 h2
    · exact hne (h1.trans h2.symm)
    · exact hne (UInt32.toNat_inj.mp (Nat.succ.inj h))

/-- What the writes are sorted by. -/
def transmitKey (l : BlobLocation) : ℕ ×ₗ ℕ ×ₗ ℕ :=
  toLex (rank nextFreeSegmentId l.segment,
    toLex (rank nextFreeClusterId l.cluster, rank nextFreeBlobId l.blob))

/-- The location is not on the way to other locations: the next free ids have one location each. -/
structure Regular (l : BlobLocation) : Prop where
  segment : l.segment = nextFreeSegmentId → l = nextSegmentLocation
  cluster : l.cluster = nextFreeClusterId → l.blob = nextFreeBlobId

/-- The comparison of the source compares keys. -/
theorem transmitBefore_iff (ha : Regular a) (hb : Regular b) (hne : a ≠ b) :
    transmitBefore a b = true ↔ transmitKey a < transmitKey b := by
  obtain ⟨s, c, x⟩ := a
  obtain ⟨s', c', x'⟩ := b
  rw [transmitKey, transmitKey, Prod.Lex.toLex_lt_toLex, Prod.Lex.toLex_lt_toLex, rank_inj, rank_inj]
  by_cases hs : s = s'
  · subst hs
    have hsegment : s ≠ nextFreeSegmentId := fun h => hne ((ha.segment h).trans (hb.segment h).symm)
    by_cases hc : c = c'
    · subst hc
      have hcluster : c ≠ nextFreeClusterId := fun h =>
        hne (by rw [show x = x' from (ha.cluster h).trans (hb.cluster h).symm])
      have hblob : x ≠ x' := fun h => hne (by rw [h])
      rw [rank_lt_rank hblob]
      by_cases hx : x = nextFreeBlobId <;> by_cases hx' : x' = nextFreeBlobId <;>
        simp [transmitBefore, hsegment, hcluster, hx, hx']
    · rw [rank_lt_rank hc]
      by_cases hx : c = nextFreeClusterId <;> by_cases hx' : c' = nextFreeClusterId <;>
        simp [transmitBefore, hsegment, hc, hx, hx']
  · rw [rank_lt_rank hs]
    by_cases hx : s = nextFreeSegmentId <;> by_cases hx' : s' = nextFreeSegmentId <;>
      simp [transmitBefore, hs, hx, hx']

/-- The entries of the blobs that were written. -/
def sortedWrites (state : DatabaseState) : List BlobData :=
  (state.writtenBlobs.entries.map fun e => (⟨e.1, some e.2⟩ : BlobData)).insertionSort
    fun a b => transmitBefore b.toBlobLocation a.toBlobLocation = false

/-- Everything that was written is transmitted, once. -/
theorem mem_sortedWrites : u ∈ state.sortedWrites ↔
    ∃ l d, state.writtenBlobs.find l = some d ∧ u = ⟨l, some d⟩ := by
  rw [sortedWrites, List.mem_insertionSort, List.mem_map]
  constructor
  · rintro ⟨e, he, rfl⟩
    exact ⟨e.1, e.2, FlatMap.find_eq_some_iff.mpr he, rfl⟩
  · rintro ⟨l, d, hfind, rfl⟩
    exact ⟨(l, d), FlatMap.find_eq_some_iff.mp hfind, rfl⟩

/-- The writes are transmitted in the order of their keys. -/
theorem pairwise_sortedWrites (h : ∀ l, (state.writtenBlobs.find l).isSome → Regular l) :
    state.sortedWrites.Pairwise fun u u' =>
      transmitKey u.toBlobLocation ≤ transmitKey u'.toBlobLocation := by
  refine pairwise_key_insertionSort (List.pairwise_map.mpr ?_)
  have hregular : ∀ e ∈ state.writtenBlobs.entries, Regular e.1 := fun e he =>
    h e.1 (by rw [FlatMap.find_eq_some_iff.mpr he]; rfl)
  refine state.writtenBlobs.sorted.imp_of_mem fun {e e'} he he' hlt => ?_
  rw [← Bool.not_eq_true, ← Bool.not_eq_true,
    transmitBefore_iff (hregular e he) (hregular e' he') hlt.ne,
    transmitBefore_iff (hregular e' he') (hregular e he) hlt.ne', not_lt, not_lt]
  exact ⟨Iff.rfl, Iff.rfl⟩

end DatabaseState

end ClientLib

/-! ### What is created on the way -/

namespace View

variable {v₀ w : View} {s : SegmentId} {c : ClusterId} {n : UInt32} {l : BlobLocation}
  {d : List UInt8} {u : BlobData}

theorem ne_of_le_max {id first max : UInt32} (h : id ≤ max) (hfirst : max < first) : id ≠ first :=
  (lt_of_le_of_lt h hfirst).ne

/-- An entry for a next free cluster id touches its segment and sets the id. -/
theorem update_nextCluster (hs : u.segment ≤ maxSegmentId) (hc : u.cluster = nextFreeClusterId) :
    w.update u = (w.touchSegment u.segment).setNextCluster u.segment u.readId := by
  rw [update, if_neg (ne_of_le_max hs (by decide)), hc, if_neg (by decide), if_pos rfl]

/-- An entry that deletes a segment. -/
theorem update_deleteSegment (hs : u.segment ≤ maxSegmentId) (hc : u.cluster = segmentDeleteId) :
    w.update u = w.deleteSegment u.segment := by
  rw [update, if_neg (ne_of_le_max hs (by decide)), if_pos hc]

section

variable (hs : u.segment ≤ maxSegmentId) (hc : u.cluster ≤ maxClusterId)
include hs hc

/-- An entry for a next free blob id touches its segment and cluster and sets the id. -/
theorem update_nextBlob (hb : u.blob = nextFreeBlobId) : w.update u =
    ((w.touchSegment u.segment).touchCluster u.segment u.cluster).setNextBlob u.segment u.cluster
      u.readId := by
  rw [update, if_neg (ne_of_le_max hs (by decide)), if_neg (ne_of_le_max hc (by decide)),
    if_neg (ne_of_le_max hc (by decide)), hb, if_neg (by decide)]
  exact if_pos rfl

/-- An entry for a blob touches its segment and cluster and writes the blob. -/
theorem update_blob (hb : u.blob ≤ maxBlobId) : w.update u =
    ((w.touchSegment u.segment).touchCluster u.segment u.cluster).setBlob u.toBlobLocation u.data := by
  rw [update, if_neg (ne_of_le_max hs (by decide)), if_neg (ne_of_le_max hc (by decide)),
    if_neg (ne_of_le_max hc (by decide)), if_neg (ne_of_le_max hb (by decide))]
  exact if_neg (ne_of_le_max hb (by decide))

/-- An entry that deletes a cluster touches its segment first. -/
theorem update_deleteCluster (hb : u.blob = clusterDeleteId) :
    w.update u = (w.touchSegment u.segment).deleteCluster u.segment u.cluster := by
  rw [update, if_neg (ne_of_le_max hs (by decide)), if_neg (ne_of_le_max hc (by decide)),
    if_neg (ne_of_le_max hc (by decide)), if_pos hb]

end

theorem eq_none_of_isSome_imp {α β : Type*} {o : Option α} {o' : Option β}
    (h : o.isSome → o'.isSome) (ho : o' = none) : o = none :=
  Option.not_isSome_iff_eq_none.mp (mt h (Option.not_isSome_iff_eq_none.mpr ho))

/-- The clusters and blobs that are created with new segments and clusters. -/
def fill (v₀ w : View) : View where
  nextSegment := w.nextSegment
  segment := w.segment
  cluster s c := (w.cluster s c).or
    (if c = 0 ∧ v₀.segment s = none ∧ (w.segment s).isSome then some 1 else none)
  blob l := (w.blob l).or
    (if l.blob = 0 ∧ v₀.cluster l.segment l.cluster = none ∧ ((w.cluster l.segment l.cluster).isSome ∨
      l.cluster = 0 ∧ v₀.segment l.segment = none ∧ (w.segment l.segment).isSome)
    then some [] else none)

/-- Everything is in something, and what was found is there. -/
structure Nested (v₀ w : View) : Prop where
  cluster : ∀ s c, (w.cluster s c).isSome → (w.segment s).isSome
  blob : ∀ l, (w.blob l).isSome → (w.cluster l.segment l.cluster).isSome
  foundSegment : ∀ s, (v₀.segment s).isSome → (w.segment s).isSome
  foundCluster : ∀ s c, (v₀.cluster s c).isSome → (w.cluster s c).isSome

/-- Nothing is missing in the database that was found. -/
theorem fill_self : fill v₀ v₀ = v₀ := by
  refine View.ext rfl rfl (funext₂ fun s c => ?_) (funext fun l => ?_)
  · cases hs : v₀.segment s <;> simp [fill, hs]
  · cases hs : v₀.segment l.segment <;> cases hc : v₀.cluster l.segment l.cluster <;>
      simp [fill, hs, hc]

/-- What is created on the way of a next free cluster id is written as well. -/
theorem setNextCluster_fill (h : Nested v₀ w) :
    ((fill v₀ w).touchSegment s).setNextCluster s n = fill v₀ (w.setNextCluster s n) := by
  cases hs : w.segment s with
  | some k =>
    rw [touchSegment, if_pos (by rw [show (fill v₀ w).segment s = w.segment s from rfl, hs]; rfl)]
    refine View.ext rfl rfl (funext₂ fun s' c => ?_) (funext fun l => ?_)
    · by_cases hne : s' = s <;> simp [fill, setNextCluster, hne, hs]
    · by_cases hne : l.segment = s <;> simp [fill, setNextCluster, hne, hs]
  | none =>
    have hfound : v₀.segment s = none := eq_none_of_isSome_imp (h.foundSegment s) hs
    have hcluster : ∀ c, w.cluster s c = none := fun c => eq_none_of_isSome_imp (h.cluster s c) hs
    have hfoundCluster : ∀ c, v₀.cluster s c = none := fun c =>
      eq_none_of_isSome_imp (h.foundCluster s c) (hcluster c)
    have hblob : ∀ l, l.segment = s → w.blob l = none := fun l hl =>
      eq_none_of_isSome_imp (h.blob l) (by rw [hl, hcluster])
    rw [touchSegment, if_neg (by rw [show (fill v₀ w).segment s = w.segment s from rfl, hs]; simp)]
    refine View.ext rfl (funext fun s' => ?_) (funext₂ fun s' c => ?_) (funext fun l => ?_)
    · by_cases hne : s' = s <;> simp [fill, setNextCluster, addSegment, hne]
    · by_cases hne : s' = s
      · simp [fill, setNextCluster, addSegment, hne, hfound, hcluster]
      · simp [fill, setNextCluster, addSegment, hne]
    · by_cases hne : l.segment = s
      · simp [fill, setNextCluster, addSegment, hne, hfound, hcluster, hfoundCluster, hblob l hne,
          and_comm]
      · simp [fill, setNextCluster, addSegment, hne]

/-- A segment that is there is not created. -/
theorem touchSegment_of_isSome (h : (w.segment s).isSome) : w.touchSegment s = w := if_pos h

theorem touchCluster_of_isSome (h : (w.cluster s c).isSome) : w.touchCluster s c = w := if_pos h

/-- What is created on the way of a next free blob id is written as well. -/
theorem setNextBlob_fill (h : Nested v₀ w) (hs : (w.segment s).isSome) :
    (((fill v₀ w).touchSegment s).touchCluster s c).setNextBlob s c n =
      fill v₀ (w.setNextBlob s c n) := by
  rw [touchSegment_of_isSome (show ((fill v₀ w).segment s).isSome from hs)]
  have hiff : ((fill v₀ w).cluster s c).isSome ↔
      (w.cluster s c).isSome ∨ c = 0 ∧ v₀.segment s = none ∧ (w.segment s).isSome := by
    cases hw : w.cluster s c <;> simp [fill, hw]
  by_cases hc : ((fill v₀ w).cluster s c).isSome
  · rw [touchCluster_of_isSome hc]
    refine View.ext rfl rfl (funext₂ fun s' c' => ?_) (funext fun l => ?_)
    · by_cases hne : s' = s ∧ c' = c <;> simp [fill, setNextBlob, hne]
      rfl
    · by_cases hne : l.segment = s ∧ l.cluster = c
      · simp only [fill, setNextBlob, hne, hiff.mp hc, and_true, if_true, Option.isSome_some,
          true_or]
      · simp [fill, setNextBlob, hne]
  · rw [touchCluster, if_neg hc]
    rw [hiff, not_or, Option.not_isSome_iff_eq_none] at hc
    obtain ⟨hcluster, hnot⟩ := hc
    have hfound : v₀.cluster s c = none := eq_none_of_isSome_imp (h.foundCluster s c) hcluster
    have hblob : ∀ l, l.segment = s ∧ l.cluster = c → w.blob l = none := fun l hl =>
      eq_none_of_isSome_imp (h.blob l) (by rw [hl.1, hl.2, hcluster])
    refine View.ext rfl rfl (funext₂ fun s' c' => ?_) (funext fun l => ?_)
    · by_cases hne : s' = s ∧ c' = c <;> simp [fill, setNextBlob, addCluster, hne]
      rfl
    · by_cases hne : l.segment = s ∧ l.cluster = c
      · simp [fill, setNextBlob, addCluster, hne, hfound, hblob l hne]
      · simp [fill, setNextBlob, addCluster, hne]

/-- What is created on the way of a blob is written as well. -/
theorem setBlob_fill (hs : (w.segment l.segment).isSome)
    (hc : (w.cluster l.segment l.cluster).isSome) :
    (((fill v₀ w).touchSegment l.segment).touchCluster l.segment l.cluster).setBlob l (some d) =
      fill v₀ (w.setBlob l (some d)) := by
  rw [touchSegment_of_isSome (show ((fill v₀ w).segment l.segment).isSome from hs),
    touchCluster_of_isSome]
  · refine View.ext rfl rfl rfl (funext fun l' => ?_)
    by_cases hne : l' = l <;> simp [fill, setBlob, hne]
    rfl
  · obtain ⟨n, hn⟩ := Option.isSome_iff_exists.mp hc
    simp [fill, hn]

/-! ### Deletions -/

/-- Entries that delete blobs delete these blobs. -/
theorem foldl_deleteBlobs {ls : List BlobLocation} (w : View) (hls : ∀ l ∈ ls,
      (l.segment ≤ maxSegmentId ∧ l.cluster ≤ maxClusterId ∧ l.blob ≤ maxBlobId) ∧
        (w.segment l.segment).isSome ∧ (w.cluster l.segment l.cluster).isSome) :
    (ls.map fun l => (⟨l, none⟩ : BlobData)).foldl update w =
      { w with blob := fun l => if l ∈ ls then none else w.blob l } := by
  induction ls generalizing w with
  | nil => rfl
  | cons l ls ih =>
    obtain ⟨⟨⟨hs, hc, hb⟩, hsegment, hcluster⟩, hrest⟩ := List.forall_mem_cons.mp hls
    rw [List.map_cons, List.foldl_cons, update_blob hs hc hb, touchSegment_of_isSome hsegment,
      touchCluster_of_isSome hcluster, ih (w.setBlob l none) hrest]
    refine View.ext rfl rfl rfl (funext fun l' => ?_)
    by_cases hl : l' = l <;> simp [setBlob, hl]

/-- Entries that delete clusters delete these clusters. -/
theorem foldl_deleteClusters {ks : List (SegmentId ×ₗ ClusterId)} (w : View) (hks : ∀ k ∈ ks,
      (k.1 ≤ maxSegmentId ∧ k.2 ≤ maxClusterId) ∧ (w.segment k.1).isSome) :
    (ks.map fun k => (⟨⟨k.1, k.2, clusterDeleteId⟩, some []⟩ : BlobData)).foldl update w =
      { w with
        cluster := fun s c => if toLex (s, c) ∈ ks then none else w.cluster s c
        blob := fun l => if toLex (l.segment, l.cluster) ∈ ks then none else w.blob l } := by
  induction ks generalizing w with
  | nil => rfl
  | cons k ks ih =>
    obtain ⟨⟨⟨hs, hc⟩, hsegment⟩, hrest⟩ := List.forall_mem_cons.mp hks
    have hk : ∀ s c, toLex (s, c) = k ↔ s = k.1 ∧ c = k.2 := fun s c => Prod.ext_iff
    rw [List.map_cons, List.foldl_cons, update_deleteCluster hs hc rfl,
      touchSegment_of_isSome hsegment, ih (w.deleteCluster k.1 k.2) hrest]
    refine View.ext rfl rfl (funext₂ fun s c => ?_) (funext fun l => ?_)
    · by_cases hne : s = k.1 ∧ c = k.2 <;> simp [deleteCluster, List.mem_cons, hk, hne]
    · by_cases hne : l.segment = k.1 ∧ l.cluster = k.2 <;>
        simp [deleteCluster, List.mem_cons, hk, hne]

/-- Entries that delete segments delete these segments. -/
theorem foldl_deleteSegments {ss : List SegmentId} (w : View) (hss : ∀ s ∈ ss, s ≤ maxSegmentId) :
    (ss.map fun s => (⟨⟨s, segmentDeleteId, clusterDeleteId⟩, some []⟩ : BlobData)).foldl update w =
      { w with
        segment := fun s => if s ∈ ss then none else w.segment s
        cluster := fun s c => if s ∈ ss then none else w.cluster s c
        blob := fun l => if l.segment ∈ ss then none else w.blob l } := by
  induction ss generalizing w with
  | nil => rfl
  | cons s ss ih =>
    obtain ⟨hs, hrest⟩ := List.forall_mem_cons.mp hss
    rw [List.map_cons, List.foldl_cons, update_deleteSegment hs rfl, ih (w.deleteSegment s) hrest]
    refine View.ext rfl (funext fun s' => ?_) (funext₂ fun s' c => ?_) (funext fun l => ?_)
    · by_cases hne : s' = s <;> simp [deleteSegment, hne]
    · by_cases hne : s' = s <;> simp [deleteSegment, hne]
    · by_cases hne : l.segment = s <;> simp [deleteSegment, hne]

namespace Nested

theorem self (h : v₀.WF) : Nested v₀ v₀ where
  cluster := fun s c hc => by
    obtain ⟨n, hn⟩ := Option.isSome_iff_exists.mp hc
    obtain ⟨k, hk, -⟩ := h.exists_segment hn
    rw [hk]
    rfl
  blob := fun l hl => by
    obtain ⟨d, hd⟩ := Option.isSome_iff_exists.mp hl
    obtain ⟨n, hn, -⟩ := h.blob l d hd
    rw [hn]
    rfl
  foundSegment := fun _ => id
  foundCluster := fun _ _ => id

variable (h : Nested v₀ w)
include h

theorem setNextSegment : Nested v₀ (w.setNextSegment n) := { h with }

theorem setNextCluster : Nested v₀ (w.setNextCluster s n) where
  cluster := fun s' c hc => isSome_segment_setNextCluster (h.cluster s' c hc)
  blob := h.blob
  foundSegment := fun s' hs => isSome_segment_setNextCluster (h.foundSegment s' hs)
  foundCluster := h.foundCluster

theorem setNextBlob (hs : (w.segment s).isSome) : Nested v₀ (w.setNextBlob s c n) where
  cluster := fun s' c' hc => by
    by_cases hne : s' = s ∧ c' = c
    · rw [hne.1]
      exact hs
    · rw [cluster_setNextBlob_of_ne hne] at hc
      exact h.cluster s' c' hc
  blob := fun l hl => isSome_cluster_setNextBlob (h.blob l hl)
  foundSegment := h.foundSegment
  foundCluster := fun s' c' hc => isSome_cluster_setNextBlob (h.foundCluster s' c' hc)

theorem setBlob {data : Option (List UInt8)} (hc : (w.cluster l.segment l.cluster).isSome) :
    Nested v₀ (w.setBlob l data) where
  cluster := h.cluster
  blob := fun l' hl => by
    by_cases hne : l' = l
    · rw [hne]
      exact hc
    · rw [blob_setBlob_of_ne hne] at hl
      exact h.blob l' hl
  foundSegment := h.foundSegment
  foundCluster := h.foundCluster

end Nested

end View

namespace ClientLib

open Access (idOf)
open View (Nested fill)

namespace DatabaseState

variable {state : DatabaseState} {v₀ v : View} {l : BlobLocation} {s : SegmentId} {c : ClusterId}
  {n : UInt32} {d : List UInt8} {u x : BlobData} {us us' : List BlobData}
  {missed : BlobLocation → Prop}

/-! ### The writes -/

/-- The state with those writes only that are among the entries. -/
def sent (state : DatabaseState) (us : List BlobData) : DatabaseState :=
  { create none with
    writtenBlobs := state.writtenBlobs.filterKeys fun l => us.any fun u => u.toBlobLocation = l }

/-- What was sent is what was written. -/
theorem find_sent (hmem : ⟨l, some d⟩ ∈ us) (hfind : state.writtenBlobs.find l = some d) :
    (state.sent us).writtenBlobs.find l = some d := by
  rw [sent, FlatMap.find_filterKeys, if_pos, hfind]
  exact List.any_eq_true.mpr ⟨⟨l, some d⟩, hmem, decide_eq_true rfl⟩

theorem sent_nil (state : DatabaseState) : state.sent [] = create none := by
  have hempty : state.writtenBlobs.filterKeys (fun l => ([] : List BlobData).any
      fun u => u.toBlobLocation = l) = .empty :=
    FlatMap.ext_find fun l => FlatMap.find_filterKeys _ _ l
  rw [sent, hempty]
  rfl

/-- Sending one more write. -/
theorem sent_concat (hfind : state.writtenBlobs.find l = some d) :
    state.sent (us ++ [⟨l, some d⟩]) = (state.sent us).writeBlob l d := by
  have heq : (state.sent (us ++ [⟨l, some d⟩])).writtenBlobs =
      ((state.sent us).writeBlob l d).writtenBlobs := FlatMap.ext_find fun l' => by
    rw [find_writeBlob, sent, sent, FlatMap.find_filterKeys, FlatMap.find_filterKeys]
    by_cases hl : l' = l
    · simp [hl, hfind]
    · simp [hl, Ne.symm hl]
  rw [writeBlob, ← show (state.sent (us ++ [⟨l, some d⟩])).writtenBlobs =
    (state.sent us).writtenBlobs.insert l d from heq]
  rfl

namespace Tracks

/-- What is written are blobs and next free ids. -/
theorem written_cases (h : state.Tracks missed v₀ v) (hl : (state.writtenBlobs.find l).isSome) :
    l = nextSegmentLocation ∨
      (∃ s, (v.segment s).isSome ∧ l = ⟨s, nextFreeClusterId, nextFreeBlobId⟩) ∨
      (∃ s c, (v.cluster s c).isSome ∧ l = ⟨s, c, nextFreeBlobId⟩) ∨ (v.blob l).isSome := by
  have hdelete : ¬clusterDeleteId ≤ nextFreeBlobId := by decide
  have hlist : ¬blobListId ≤ nextFreeBlobId := by decide
  have hstored := h.stored l hl
  cases h.written l hl with
  | nextFreeSegmentId => exact Or.inl rfl
  | segmentList => exact absurd hstored hlist
  | nextFreeClusterId hs => exact Or.inr (Or.inl ⟨_, hs, rfl⟩)
  | segmentDelete _ => exact absurd hstored hdelete
  | clusterList _ => exact absurd hstored hlist
  | nextFreeBlobId hc => exact Or.inr (Or.inr (Or.inl ⟨_, _, hc, rfl⟩))
  | clusterDelete _ => exact absurd hstored hdelete
  | blobList _ => exact absurd hstored hlist
  | blob hb => exact Or.inr (Or.inr (Or.inr hb))

/-- Only ids in their ranges, and next free ids, are written. -/
theorem regular (h : state.Tracks missed v₀ v) (hl : (state.writtenBlobs.find l).isSome) :
    Regular l := by
  have hsegment : ∀ s n, v.segment s = some n → s ≠ nextFreeSegmentId := fun s n hn heq =>
    absurd (heq ▸ h.seen.segment_le hn) (by decide)
  have hcluster : ∀ s c n, v.cluster s c = some n → s ≠ nextFreeSegmentId ∧ c ≠ nextFreeClusterId :=
    fun s c n hn => ⟨fun heq => absurd (heq ▸ (h.seen.cluster_le hn).1) (by decide),
      fun heq => absurd (heq ▸ (h.seen.cluster_le hn).2) (by decide)⟩
  rcases h.written_cases hl with rfl | ⟨s, hs, rfl⟩ | ⟨s, c, hc, rfl⟩ | hb
  · exact ⟨fun _ => rfl, fun _ => rfl⟩
  · obtain ⟨n, hn⟩ := Option.isSome_iff_exists.mp hs
    exact ⟨fun heq => absurd heq (hsegment s n hn), fun _ => rfl⟩
  · obtain ⟨n, hn⟩ := Option.isSome_iff_exists.mp hc
    exact ⟨fun heq => absurd heq (hcluster s c n hn).1, fun _ => rfl⟩
  · obtain ⟨d, hd⟩ := Option.isSome_iff_exists.mp hb
    obtain ⟨n, hn, -⟩ := h.seen.blob l d hd
    exact ⟨fun heq => absurd heq (hcluster _ _ n hn).1, fun heq => absurd heq (hcluster _ _ n hn).2⟩

/-- What sorts before an entry is transmitted before it. -/
theorem mem_of_lt (h : state.Tracks missed v₀ v) (hus : us ++ u :: us' = state.sortedWrites)
    (hx : x ∈ state.sortedWrites)
    (hlt : transmitKey x.toBlobLocation < transmitKey u.toBlobLocation) : x ∈ us := by
  have hsorted := pairwise_sortedWrites fun l hl => h.regular hl
  rw [← hus] at hx hsorted
  rcases List.mem_append.mp hx with hx | hx
  · exact hx
  rcases List.mem_cons.mp hx with rfl | hx
  · exact absurd hlt (lt_irrefl _)
  · have hle := (List.pairwise_cons.mp (List.pairwise_append.mp hsorted).2.1).1 x hx
    exact absurd hlt (not_lt.mpr hle)

/-- The segment of an entry was there, or it was created before. -/
theorem segment_sent (h : state.Tracks missed v₀ v) (hus : us ++ u :: us' = state.sortedWrites)
    (hs : (v.segment u.segment).isSome) (hc : u.cluster ≠ nextFreeClusterId) :
    (((state.sent us).view v₀).segment u.segment).isSome := by
  obtain ⟨n, hn⟩ := Option.isSome_iff_exists.mp hs
  obtain ⟨hle, hlive⟩ := h.live_of_segment hn
  rw [← h.view, show (state.view v₀).segment u.segment = _ from if_pos ⟨hle, hlive⟩] at hs
  rw [show ((state.sent us).view v₀).segment u.segment = _ from if_pos ⟨hle, rfl⟩]
  cases hfind : state.writtenBlobs.find ⟨u.segment, nextFreeClusterId, nextFreeBlobId⟩ with
  | none =>
    rw [hfind] at hs
    rw [Option.isSome_or, Bool.or_eq_true]
    exact Or.inr hs
  | some d =>
    have hlt : transmitKey ⟨u.segment, nextFreeClusterId, nextFreeBlobId⟩ <
        transmitKey u.toBlobLocation := by
      simp [transmitKey, Prod.Lex.toLex_lt_toLex, rank, hc]
    rw [find_sent (h.mem_of_lt hus (mem_sortedWrites.mpr ⟨_, d, hfind, rfl⟩) hlt) hfind]
    rfl

/-- The cluster of an entry was there, or it was created before. -/
theorem cluster_sent (h : state.Tracks missed v₀ v) (hus : us ++ u :: us' = state.sortedWrites)
    (hc : (v.cluster u.segment u.cluster).isSome) (hb : u.blob ≠ nextFreeBlobId) :
    (((state.sent us).view v₀).cluster u.segment u.cluster).isSome := by
  obtain ⟨n, hn⟩ := Option.isSome_iff_exists.mp hc
  obtain ⟨hle, hlive⟩ := h.live_of_cluster hn
  rw [← h.view, show (state.view v₀).cluster u.segment u.cluster = _ from if_pos ⟨hle, hlive⟩] at hc
  rw [show ((state.sent us).view v₀).cluster u.segment u.cluster = _ from if_pos ⟨hle, rfl⟩]
  cases hfind : state.writtenBlobs.find ⟨u.segment, u.cluster, nextFreeBlobId⟩ with
  | none =>
    rw [hfind] at hc
    rw [Option.isSome_or, Bool.or_eq_true]
    exact Or.inr hc
  | some d =>
    have hlt : transmitKey ⟨u.segment, u.cluster, nextFreeBlobId⟩ < transmitKey u.toBlobLocation := by
      simp [transmitKey, Prod.Lex.toLex_lt_toLex, rank, hb]
    rw [find_sent (h.mem_of_lt hus (mem_sortedWrites.mpr ⟨_, d, hfind, rfl⟩) hlt) hfind]
    rfl

/-- The writes lead to what was written, together with what is created on the way. -/
theorem foldl_writes (h : state.Tracks missed v₀ v) (hus : us ++ us' = state.sortedWrites) :
    us.foldl View.update v₀ = fill v₀ ((state.sent us).view v₀) ∧
      Nested v₀ ((state.sent us).view v₀) := by
  induction us using List.reverseRecOn generalizing us' with
  | nil =>
    have hcreate : (DatabaseState.create none).Tracks missed v₀ v₀ := .create h.found none
    rw [sent_nil, hcreate.view]
    exact ⟨View.fill_self.symm, .self h.found⟩
  | append_singleton us u ih =>
    rw [List.append_assoc] at hus
    obtain ⟨heq, hnested⟩ := ih hus
    obtain ⟨l, d, hfind, rfl⟩ := mem_sortedWrites.mp
      (hus ▸ List.mem_append_right us List.mem_cons_self)
    rw [List.foldl_append, List.foldl_cons, List.foldl_nil, heq, sent_concat hfind]
    rcases h.written_cases (by rw [hfind]; rfl) with rfl | ⟨s, hs, rfl⟩ | ⟨s, c, hc, rfl⟩ | hb
    · rw [view_writeBlob_nextSegment]
      exact ⟨rfl, hnested.setNextSegment⟩
    · obtain ⟨n, hn⟩ := Option.isSome_iff_exists.mp hs
      have hle := h.seen.segment_le hn
      rw [view_writeBlob_nextCluster hle rfl, View.update_nextCluster hle rfl]
      exact ⟨View.setNextCluster_fill hnested, hnested.setNextCluster⟩
    · obtain ⟨n, hn⟩ := Option.isSome_iff_exists.mp hc
      obtain ⟨k, hk, -⟩ := h.seen.exists_segment hn
      obtain ⟨hs, hle⟩ := h.seen.cluster_le hn
      have hsegment := h.segment_sent hus (by rw [hk]; rfl) (View.ne_of_le_max hle (by decide))
      rw [view_writeBlob_nextBlob hle rfl, View.update_nextBlob hs hle rfl]
      exact ⟨View.setNextBlob_fill hnested hsegment, hnested.setNextBlob hsegment⟩
    · obtain ⟨x, hx⟩ := Option.isSome_iff_exists.mp hb
      obtain ⟨n, hn, -⟩ := h.seen.blob l x hx
      obtain ⟨k, hk, -⟩ := h.seen.exists_segment hn
      obtain ⟨hs, hc, hle⟩ := h.seen.blob_le hx
      have hsegment := h.segment_sent hus (by rw [hk]; rfl) (View.ne_of_le_max hc (by decide))
      have hcluster := h.cluster_sent hus (by rw [hn]; rfl) (View.ne_of_le_max hle (by decide))
      rw [view_writeBlob hle rfl, View.update_blob hs hc hle]
      exact ⟨View.setBlob_fill hsegment hcluster, hnested.setBlob hcluster⟩

end Tracks

/-- The state with what was written, and without what was deleted. -/
def wrote (state : DatabaseState) : DatabaseState :=
  { create none with writtenBlobs := state.writtenBlobs }

/-- In the end all writes were sent. -/
theorem sent_sortedWrites (state : DatabaseState) : state.sent state.sortedWrites = state.wrote := by
  have hfind : (state.sent state.sortedWrites).writtenBlobs = state.writtenBlobs :=
    FlatMap.ext_find fun l => by
      cases hl : state.writtenBlobs.find l with
      | some d => exact find_sent (mem_sortedWrites.mpr ⟨l, d, hl, rfl⟩) hl
      | none =>
        rw [sent, FlatMap.find_filterKeys, hl]
        split_ifs <;> rfl
  rw [wrote, ← hfind]
  rfl

/-- What was not deleted is seen where it was written. -/
theorem segment_wrote (hlive : state.isSegmentDeleted s = false) :
    (state.wrote.view v₀).segment s = (state.view v₀).segment s := by
  simp only [view, hlive, show state.wrote.isSegmentDeleted s = false from rfl]
  rfl

/-- The writes alone make the clusters that are not deleted. -/
theorem cluster_wrote (hlive : state.isClusterDeleted s c = false) :
    (state.wrote.view v₀).cluster s c = (state.view v₀).cluster s c := by
  simp only [view, hlive, show state.wrote.isClusterDeleted s c = false from rfl]
  rfl

/-- The writes alone make the blobs that are not deleted. -/
theorem blob_wrote (hlive : state.isBlobDeleted l = false) :
    (state.wrote.view v₀).blob l = (state.view v₀).blob l := by
  simp only [view, hlive, show state.wrote.isBlobDeleted l = false from rfl]
  rfl

namespace Tracks

/-- What was deleted is not seen. -/
theorem segment_of_deleted (h : state.Tracks missed v₀ v) (hdel : state.isSegmentDeleted s = true) :
    v.segment s = none := by
  rw [← h.view]
  exact if_neg fun hlive => Bool.eq_false_iff.mp hlive.2 hdel

/-- Deleted clusters are not seen. -/
theorem cluster_of_deleted (h : state.Tracks missed v₀ v)
    (hdel : state.isClusterDeleted s c = true) : v.cluster s c = none := by
  rw [← h.view]
  exact if_neg fun hlive => Bool.eq_false_iff.mp hlive.2 hdel

/-- Deleted blobs are not seen. -/
theorem blob_of_deleted (h : state.Tracks missed v₀ v) (hdel : state.isBlobDeleted l = true) :
    v.blob l = none := by
  rw [← h.view]
  exact if_neg fun hlive => Bool.eq_false_iff.mp hlive.2 hdel

/-- The first cluster of a new segment is seen, or it was deleted. -/
theorem isSome_firstCluster (h : state.Tracks missed v₀ v) (hsettled : View.Settled v₀ v)
    (hfound : v₀.segment s = none) (hs : (v.segment s).isSome)
    (hlive : state.isClusterDeleted s 0 = false) : (v.cluster s 0).isSome := by
  obtain ⟨n, hn⟩ := Option.isSome_iff_exists.mp hs
  have hnew := h.newClusters s 0 n hn (by rw [hfound]; exact le_rfl)
    (hsettled.segment s n hfound hn)
  exact hnew.resolve_right (Bool.eq_false_iff.mp (isClusterDeleted_eq_false_iff.mp hlive).2)

/-- The first blob of a new cluster is seen, or it was deleted. -/
theorem isSome_firstBlob (h : state.Tracks missed v₀ v) (hsettled : View.Settled v₀ v)
    (hfound : v₀.cluster s c = none) (hc : (v.cluster s c).isSome)
    (hlive : state.isBlobDeleted ⟨s, c, 0⟩ = false) : (v.blob ⟨s, c, 0⟩).isSome := by
  obtain ⟨n, hn⟩ := Option.isSome_iff_exists.mp hc
  have hnew := h.newBlobs s c n hfound hn (hsettled.cluster s c n hfound hn)
  exact hnew.resolve_right (Bool.eq_false_iff.mp (isBlobDeleted_eq_false_iff.mp hlive).2)

/-- Apart from what was deleted, what is created on the way is seen. -/
theorem cluster_fill (h : state.Tracks missed v₀ v) (hsettled : View.Settled v₀ v)
    (hlive : state.isClusterDeleted s c = false) :
    (fill v₀ (state.wrote.view v₀)).cluster s c = v.cluster s c := by
  have hsegment : (state.wrote.view v₀).segment s = (state.view v₀).segment s :=
    segment_wrote (isClusterDeleted_eq_false_iff.mp hlive).1
  change Option.or _ _ = _
  rw [cluster_wrote hlive, hsegment, h.view]
  split_ifs with hfirst
  · obtain ⟨rfl, hfound, hs⟩ := hfirst
    exact Option.or_of_isSome (h.isSome_firstCluster hsettled hfound hs hlive)
  · exact Option.or_none

/-- The writes and what is created on their way make the blobs that are not deleted. -/
theorem blob_fill (h : state.Tracks missed v₀ v) (hsettled : View.Settled v₀ v)
    (hlive : state.isBlobDeleted l = false) :
    (fill v₀ (state.wrote.view v₀)).blob l = v.blob l := by
  obtain ⟨s, c, b⟩ := l
  have hcluster : state.isClusterDeleted s c = false := (isBlobDeleted_eq_false_iff.mp hlive).1
  have hsegment : (state.wrote.view v₀).segment s = (state.view v₀).segment s :=
    segment_wrote (isClusterDeleted_eq_false_iff.mp hcluster).1
  change Option.or _ _ = _
  rw [blob_wrote hlive, cluster_wrote hcluster, hsegment, h.view]
  split_ifs with hfirst
  · obtain ⟨rfl, hfound, hc⟩ := hfirst
    refine Option.or_of_isSome (h.isSome_firstBlob hsettled hfound ?_ hlive)
    rcases hc with hc | ⟨rfl, hfound', hs⟩
    · exact hc
    · exact h.isSome_firstCluster hsettled hfound' hs hcluster
  · exact Option.or_none

/-- The commit of a transaction leads from the database that was found to the one that was seen. -/
theorem foldl_update (h : state.Tracks missed v₀ v) (hsettled : View.Settled v₀ v) :
    state.getSortedWritesToTransmit.foldl View.update v₀ = v := by
  have hsegment : ∀ s n, v.segment s = some n → ((state.wrote.view v₀).segment s).isSome :=
    fun s n hn => by
      rw [segment_wrote (h.live_of_segment hn).2, h.view, hn]
      rfl
  have hcluster : ∀ s c n, v.cluster s c = some n →
      ((fill v₀ (state.wrote.view v₀)).cluster s c).isSome := fun s c n hn => by
    rw [h.cluster_fill hsettled (h.live_of_cluster hn).2, hn]
    rfl
  rw [show state.getSortedWritesToTransmit = state.sortedWrites ++ _ ++ _ ++ _ from rfl,
    List.foldl_append, List.foldl_append, List.foldl_append,
    (h.foldl_writes (List.append_nil _)).1, sent_sortedWrites, View.foldl_deleteBlobs,
    View.foldl_deleteClusters, View.foldl_deleteSegments]
  · refine View.ext ?_ (funext fun s => ?_) (funext₂ fun s c => ?_) (funext fun l => ?_)
    · rw [← h.view]
      rfl
    · dsimp only
      split_ifs with hs
      · exact (h.segment_of_deleted (FlatMap.mem_keys.mp hs)).symm
      · rw [FlatMap.mem_keys, Bool.not_eq_true] at hs
        exact (segment_wrote hs).trans (by rw [h.view])
    · dsimp only
      split_ifs with hs hc
      · exact (h.cluster_of_deleted (Bool.or_eq_true_iff.mpr (Or.inl (FlatMap.mem_keys.mp hs)))).symm
      · exact (h.cluster_of_deleted (Bool.or_eq_true_iff.mpr (Or.inr (FlatMap.mem_keys.mp hc)))).symm
      · rw [FlatMap.mem_keys, Bool.not_eq_true] at hs hc
        exact h.cluster_fill hsettled (isClusterDeleted_eq_false_iff.mpr ⟨hs, hc⟩)
    · dsimp only
      split_ifs with hs hc hb
      · rw [FlatMap.mem_keys] at hs
        exact (h.blob_of_deleted (by simp [isBlobDeleted, isClusterDeleted, isSegmentDeleted, hs])).symm
      · rw [FlatMap.mem_keys] at hc
        exact (h.blob_of_deleted (by simp [isBlobDeleted, isClusterDeleted, hc])).symm
      · rw [FlatMap.mem_keys] at hb
        exact (h.blob_of_deleted (by simp [isBlobDeleted, hb])).symm
      · rw [FlatMap.mem_keys, Bool.not_eq_true] at hs hc hb
        exact h.blob_fill hsettled
          (isBlobDeleted_eq_false_iff.mpr ⟨isClusterDeleted_eq_false_iff.mpr ⟨hs, hc⟩, hb⟩)
  · intro s hs
    exact View.le_of_lt_succ (h.deletedSegments s (FlatMap.mem_keys.mp hs)) h.seen.nextSegment
  · intro k hk
    obtain ⟨n, hn, hlt⟩ := h.deletedClusters k.1 k.2 (FlatMap.mem_keys.mp hk)
    exact ⟨⟨h.seen.segment_le hn, View.le_of_lt_succ hlt (h.seen.segment k.1 n hn).2⟩,
      hsegment k.1 n hn⟩
  · intro l hl
    obtain ⟨n, hn, hlt⟩ := h.deletedBlobs l (FlatMap.mem_keys.mp hl)
    obtain ⟨k, hk, -⟩ := h.seen.exists_segment hn
    obtain ⟨hs, hc⟩ := h.seen.cluster_le hn
    exact ⟨⟨hs, hc, View.le_of_lt_succ hlt (h.seen.cluster _ _ n hn).2⟩, hsegment _ k hk,
      hcluster _ _ n hn⟩

end Tracks

end DatabaseState

/-! ### A whole transaction -/

end ClientLib

/-- What calls do to a database, one after the other. -/
inductive View.DoesAll (missed : BlobLocation → Prop) (v : View) :
    List (ClientLib.Call × ClientLib.Reply) → View → Prop
  | nil : DoesAll missed v [] v
  | snoc {es : List (ClientLib.Call × ClientLib.Reply)} {v' v'' : View} {call : ClientLib.Call}
    {reply : ClientLib.Reply} (h : DoesAll missed v es v') (hdoes : v'.Does missed call reply v'') :
    DoesAll missed v (es ++ [(call, reply)]) v''

namespace ClientLib

open DatabaseTransaction (Sees)

/-- Calls in a transaction, and what those that succeed return. -/
inductive Performs (server : Replies) (missed : BlobLocation → Prop) (t : DbTree μ 3)
    (db : DatabaseTransaction) : List (Call × Reply) → DatabaseTransaction → Prop
  | nil : Performs server missed t db [] db
  | succeeds {es : List (Call × Reply)} {db' db'' : DatabaseTransaction} {call : Call} {reply : Reply}
    (h : Performs server missed t db es db') (hallowed : call.Allowed missed t db')
    (hcall : (call.perform server).run db' = .ok reply db'') :
    Performs server missed t db (es ++ [(call, reply)]) db''
  | fails {es : List (Call × Reply)} {db' db'' : DatabaseTransaction} {call : Call} {error : Exception}
    (h : Performs server missed t db es db') (hallowed : call.Allowed missed t db')
    (hcall : (call.perform server).run db' = .error error db'') : Performs server missed t db es db''

namespace Performs

variable {t : DbTree μ 3} {version : BlobLocation → CommitId} {server : Replies}
  {missed : BlobLocation → Prop} {db db' : DatabaseTransaction} {v : View}
  {es : List (Call × Reply)}

/-- What the client sees is what its calls have done to what it saw before. -/
theorem sees (h : Performs server missed t db es db') (ha : Answers t version server)
    (hv : Sees missed t version v db) (hsettled : (View.of t).Settled v) :
    ∃ v', v.DoesAll missed es v' ∧ Sees missed t version v' db' ∧ (View.of t).Settled v' := by
  induction h with
  | nil => exact ⟨v, .nil, hv, hsettled⟩
  | succeeds _ hallowed hcall ih =>
    obtain ⟨v', hall, hv', hsettled'⟩ := ih
    have hensures := ensures_perform ha hv' hsettled' hallowed
    rw [EStateM.Ensures, hcall] at hensures
    obtain ⟨v'', hdoes, hv''⟩ := hensures
    exact ⟨v'', hall.snoc hdoes, hv'', hdoes.settled hsettled'⟩
  | fails _ hallowed hcall ih =>
    obtain ⟨v', hall, hv', hsettled'⟩ := ih
    have hensures := ensures_perform ha hv' hsettled' hallowed
    rw [EStateM.Ensures, hcall] at hensures
    exact ⟨v', hall, hensures, hsettled'⟩

/-- The entries of its commit do to the database what the calls of a transaction mean. -/
theorem foldl_update (h : Performs server missed t db es db') (ha : Answers t version server)
    (hstart : Sees missed t version (View.of t) db) :
    (View.of t).DoesAll missed es
      (db'.state.getSortedWritesToTransmit.foldl View.update (View.of t)) := by
  have hsettled : (View.of t).Settled (View.of t) :=
    ⟨fun _ _ hn hn' => (nomatch hn.symm.trans hn'), fun _ _ _ hn hn' => (nomatch hn.symm.trans hn')⟩
  obtain ⟨v', hall, hv', hsettled'⟩ := h.sees ha hstart hsettled
  rwa [hv'.tracks.foldl_update hsettled']

end Performs

end ClientLib

end BlobsDb
