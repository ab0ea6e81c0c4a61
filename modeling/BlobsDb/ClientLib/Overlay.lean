import BlobsDb.ClientLib.Operations
import BlobsDb.ClientLib.Releasing
import BlobsDb.ClientLib.View

/-!
# What a transaction makes of a database

`DatabaseState.view` is the database as a transaction sees it: what it wrote and deleted lies over
what it found. Each note in the state changes this view as if it was done in the database at once.
-/

namespace BlobsDb

namespace ClientLib

open Access (idOf idData)

/-- An id is read back from its bytes. -/
theorem idOf_idData (id : UInt32) : idOf (idData id) = id := by
  rw [idOf, idData, List.take_of_length_le (length_leBytes 4 _).le, ofNat_leNat_leBytes]

namespace DatabaseState

variable {state : DatabaseState} {v : View} {l : BlobLocation} {s : SegmentId} {c : ClusterId}
  {data : List UInt8}

/-- The location of the next free segment id. -/
abbrev nextSegmentLocation : BlobLocation := ⟨nextFreeSegmentId, nextFreeClusterId, nextFreeBlobId⟩

/-- The transaction deleted the location, or the cluster or segment it is in. -/
def isBlobDeleted (state : DatabaseState) (l : BlobLocation) : Bool :=
  state.isClusterDeleted l.segment l.cluster || (state.deletedBlobs.find l).isSome

/-- What the transaction did, over a database. -/
def view (state : DatabaseState) (v : View) : View where
  nextSegment := ((state.writtenBlobs.find nextSegmentLocation).map idOf).getD v.nextSegment
  segment s :=
    if s ≤ maxSegmentId ∧ state.isSegmentDeleted s = false then
      ((state.writtenBlobs.find ⟨s, nextFreeClusterId, nextFreeBlobId⟩).map idOf).or (v.segment s)
    else none
  cluster s c :=
    if c ≤ maxClusterId ∧ state.isClusterDeleted s c = false then
      ((state.writtenBlobs.find ⟨s, c, nextFreeBlobId⟩).map idOf).or (v.cluster s c)
    else none
  blob l :=
    if l.blob ≤ maxBlobId ∧ state.isBlobDeleted l = false then
      (state.writtenBlobs.find l).or (v.blob l)
    else none

/-- What is seen was not deleted. -/
theorem live_of_segment (h : ((state.view v).segment s).isSome) :
    s ≤ maxSegmentId ∧ state.isSegmentDeleted s = false := by
  by_contra hcon
  rw [show (state.view v).segment s = none from if_neg hcon] at h
  cases h

/-- A cluster that is seen is not deleted. -/
theorem live_of_cluster (h : ((state.view v).cluster s c).isSome) :
    c ≤ maxClusterId ∧ state.isClusterDeleted s c = false := by
  by_contra hcon
  rw [show (state.view v).cluster s c = none from if_neg hcon] at h
  cases h

/-- A blob that is seen is not deleted. -/
theorem live_of_blob (h : ((state.view v).blob l).isSome) :
    l.blob ≤ maxBlobId ∧ state.isBlobDeleted l = false := by
  by_contra hcon
  rw [show (state.view v).blob l = none from if_neg hcon] at h
  cases h

/-- A cluster is there as long as neither its segment nor itself is deleted. -/
theorem isClusterDeleted_eq_false_iff : state.isClusterDeleted s c = false ↔
    state.isSegmentDeleted s = false ∧ (state.deletedClusters.find (toLex (s, c))).isSome = false :=
  Bool.or_eq_false_iff

theorem isBlobDeleted_eq_false_iff : state.isBlobDeleted l = false ↔
    state.isClusterDeleted l.segment l.cluster = false ∧
      (state.deletedBlobs.find l).isSome = false :=
  Bool.or_eq_false_iff

/-! ### Notes -/

/-- Blobs are not at special locations. -/
theorem ne_of_blob_le {l l' : BlobLocation} (h : l.blob ≤ maxBlobId) (h' : ¬l'.blob ≤ maxBlobId) :
    l ≠ l' := fun heq => h' (heq ▸ h)

@[simp]
theorem find_writeBlob (l' : BlobLocation) : (state.writeBlob l data).writtenBlobs.find l' =
    if l' = l then some data else state.writtenBlobs.find l' := by
  rw [writeBlob, FlatMap.find_insert]
  congr

@[simp]
theorem isSegmentDeleted_writeBlob : (state.writeBlob l data).isSegmentDeleted =
    state.isSegmentDeleted := rfl

@[simp]
theorem isClusterDeleted_writeBlob : (state.writeBlob l data).isClusterDeleted =
    state.isClusterDeleted := rfl

@[simp]
theorem isBlobDeleted_writeBlob : (state.writeBlob l data).isBlobDeleted = state.isBlobDeleted := rfl

theorem view_writeBlob_nextSegment :
    (state.writeBlob nextSegmentLocation data).view v = (state.view v).setNextSegment (idOf data) := by
  refine View.ext ?_ (funext fun s' => ?_) (funext₂ fun s' c' => ?_) (funext fun l' => ?_)
  · simp [view, View.setNextSegment]
  · have hne : s' ≤ maxSegmentId → s' ≠ nextFreeSegmentId := fun h heq => absurd (heq ▸ h) (by decide)
    by_cases h : s' ≤ maxSegmentId <;> simp [view, View.setNextSegment, h]
    simp [hne h]
  · have hne : c' ≤ maxClusterId → c' ≠ nextFreeClusterId := fun h heq => absurd (heq ▸ h) (by decide)
    by_cases h : c' ≤ maxClusterId <;> simp [view, View.setNextSegment, h]
    simp [hne h]
  · have hne : l'.blob ≤ maxBlobId → l' ≠ nextSegmentLocation := fun h =>
      ne_of_blob_le h (by decide)
    by_cases h : l'.blob ≤ maxBlobId <;> simp [view, View.setNextSegment, h]
    simp [hne h]

/-- Writing a next free cluster id sets it in the view. -/
theorem view_writeBlob_nextCluster (hs : s ≤ maxSegmentId) (hlive : state.isSegmentDeleted s = false) :
    (state.writeBlob ⟨s, nextFreeClusterId, nextFreeBlobId⟩ data).view v =
      (state.view v).setNextCluster s (idOf data) := by
  refine View.ext ?_ (funext fun s' => ?_) (funext₂ fun s' c' => ?_) (funext fun l' => ?_)
  · have hne : s ≠ nextFreeSegmentId := fun heq => absurd (heq ▸ hs) (by decide)
    simp [view, View.setNextCluster, hne.symm]
  · by_cases h : s' = s
    · subst h
      simp [view, View.setNextCluster, hs, hlive]
    · simp [view, View.setNextCluster, h]
  · have hne : c' ≤ maxClusterId → c' ≠ nextFreeClusterId := fun h heq => absurd (heq ▸ h) (by decide)
    by_cases h : c' ≤ maxClusterId <;> simp [view, View.setNextCluster, h]
    simp [hne h]
  · have hne : l'.blob ≤ maxBlobId → l' ≠ ⟨s, nextFreeClusterId, nextFreeBlobId⟩ := fun h =>
      ne_of_blob_le h (show ¬nextFreeBlobId ≤ maxBlobId by decide)
    by_cases h : l'.blob ≤ maxBlobId <;> simp [view, View.setNextCluster, h]
    simp [hne h]

/-- Writing a next free blob id sets it in the view. -/
theorem view_writeBlob_nextBlob (hc : c ≤ maxClusterId) (hlive : state.isClusterDeleted s c = false) :
    (state.writeBlob ⟨s, c, nextFreeBlobId⟩ data).view v =
      (state.view v).setNextBlob s c (idOf data) := by
  have hne : nextFreeClusterId ≠ c := fun heq => absurd (heq ▸ hc) (by decide)
  refine View.ext ?_ (funext fun s' => ?_) (funext₂ fun s' c' => ?_) (funext fun l' => ?_)
  · simp [view, View.setNextBlob, hne]
  · simp [view, View.setNextBlob, hne]
  · by_cases h : s' = s ∧ c' = c
    · obtain ⟨rfl, rfl⟩ := h
      simp [view, View.setNextBlob, hc, hlive]
    · simp [view, View.setNextBlob, h]
  · have hne : l'.blob ≤ maxBlobId → l' ≠ ⟨s, c, nextFreeBlobId⟩ := fun h =>
      ne_of_blob_le h (show ¬nextFreeBlobId ≤ maxBlobId by decide)
    by_cases h : l'.blob ≤ maxBlobId <;> simp [view, View.setNextBlob, h]
    simp [hne h]

/-- Writing a blob that is not deleted sets it in the view. -/
theorem view_writeBlob (hb : l.blob ≤ maxBlobId) (hlive : state.isBlobDeleted l = false) :
    (state.writeBlob l data).view v = (state.view v).setBlob l (some data) := by
  have hne : ∀ s c, (⟨s, c, nextFreeBlobId⟩ : BlobLocation) ≠ l := fun s c =>
    (ne_of_blob_le hb (show ¬nextFreeBlobId ≤ maxBlobId by decide)).symm
  refine View.ext ?_ (funext fun s' => ?_) (funext₂ fun s' c' => ?_) (funext fun l' => ?_)
  · simp [view, View.setBlob, hne]
  · simp [view, View.setBlob, hne]
  · simp [view, View.setBlob, hne]
  · by_cases h : l' = l
    · subst h
      simp [view, View.setBlob, hb, hlive]
    · simp [view, View.setBlob, h]

theorem find_deletedBlobs_createBlob (l' : BlobLocation) :
    (state.createBlob l).deletedBlobs.find l' =
      if l' = l then none else state.deletedBlobs.find l' := by
  by_cases hl : l' = l <;> unfold createBlob <;> split_ifs with h <;> simp_all

/-- A blob that is created again is no longer deleted. -/
theorem isBlobDeleted_createBlob (hlive : state.isClusterDeleted l.segment l.cluster = false)
    (l' : BlobLocation) : (state.createBlob l).isBlobDeleted l' =
      if l' = l then false else state.isBlobDeleted l' := by
  have hcluster : (state.createBlob l).isClusterDeleted = state.isClusterDeleted := by
    unfold createBlob
    split_ifs <;> rfl
  rw [isBlobDeleted, hcluster, find_deletedBlobs_createBlob, isBlobDeleted]
  by_cases h : l' = l
  · rw [h, hlive]
    simp
  · simp [h]

/-- Creating a blob sets it in the view, also where it was deleted. -/
theorem view_createBlob (hb : l.blob ≤ maxBlobId)
    (hlive : state.isClusterDeleted l.segment l.cluster = false) :
    ((state.createBlob l).writeBlob l data).view v = (state.view v).setBlob l (some data) := by
  have hwritten : (state.createBlob l).writtenBlobs = state.writtenBlobs := by
    unfold createBlob
    split_ifs <;> rfl
  have hsegment : (state.createBlob l).isSegmentDeleted = state.isSegmentDeleted := by
    unfold createBlob
    split_ifs <;> rfl
  have hcluster : (state.createBlob l).isClusterDeleted = state.isClusterDeleted := by
    unfold createBlob
    split_ifs <;> rfl
  have hdeleted := isBlobDeleted_createBlob hlive
  rw [view_writeBlob hb (by simp [hdeleted])]
  refine View.ext (by simp [view, View.setBlob, hwritten]) (funext fun s' => ?_)
    (funext₂ fun s' c' => ?_) (funext fun l' => ?_)
  · simp [view, View.setBlob, hwritten, hsegment]
  · simp [view, View.setBlob, hwritten, hcluster]
  · by_cases h : l' = l <;> simp [view, View.setBlob, hwritten, hdeleted, h]

theorem isBlobDeleted_deleteBlob (l' : BlobLocation) :
    (state.deleteBlob l).isBlobDeleted l' = (state.isBlobDeleted l' || decide (l' = l)) := by
  by_cases h : l' = l <;>
    simp [isBlobDeleted, isClusterDeleted, isSegmentDeleted, deleteBlob, h]

/-- Deleting a blob removes it from the view. -/
theorem view_deleteBlob (hb : l.blob ≤ maxBlobId) :
    (state.deleteBlob l).view v = (state.view v).setBlob l none := by
  have hne : ∀ s c, (⟨s, c, nextFreeBlobId⟩ : BlobLocation) ≠ l := fun s c =>
    (ne_of_blob_le hb (show ¬nextFreeBlobId ≤ maxBlobId by decide)).symm
  refine View.ext ?_ (funext fun s' => ?_) (funext₂ fun s' c' => ?_) (funext fun l' => ?_)
  · simp [view, View.setBlob, deleteBlob, hne]
  · simp [view, View.setBlob, deleteBlob, hne, isSegmentDeleted]
  · simp [view, View.setBlob, deleteBlob, hne, isClusterDeleted, isSegmentDeleted]
  · by_cases h : l' = l
    · simp [view, View.setBlob, isBlobDeleted_deleteBlob, h]
    · simp only [view, View.setBlob, isBlobDeleted_deleteBlob, h, decide_false, Bool.or_false, if_false]
      simp [deleteBlob, h]

/-- The locations between these two are those of the cluster. -/
theorem between_cluster : between ⟨s, c, 0⟩ ⟨s, c, 0xffffffff⟩ l = true ↔
    l.segment = s ∧ l.cluster = c := by
  rw [between, Bool.and_eq_true, decide_eq_true_iff, decide_eq_true_iff, cluster_range_iff,
    Prod.mk.injEq]

/-- The locations between these two are those of the segment. -/
theorem between_segment : between ⟨s, 0, 0⟩ ⟨s, 0xffffffff, 0xffffffff⟩ l = true ↔
    l.segment = s := by
  rw [between, Bool.and_eq_true, decide_eq_true_iff, decide_eq_true_iff, segment_range_iff]

/-- What lies outside of a cluster is left. -/
theorem find_outside_cluster {ω : Type} (m : FlatMap BlobLocation ω) (l' : BlobLocation) :
    (m.filterKeys fun l => !between ⟨s, c, 0⟩ ⟨s, c, 0xffffffff⟩ l).find l' =
      if l'.segment = s ∧ l'.cluster = c then none else m.find l' := by
  rw [FlatMap.find_filterKeys]
  by_cases h : l'.segment = s ∧ l'.cluster = c
  · rw [if_pos h, between_cluster.mpr h]
    rfl
  · rw [if_neg h, Bool.eq_false_iff.mpr (mt between_cluster.mp h)]
    rfl

/-- What lies outside of a segment is left. -/
theorem find_outside_segment {ω : Type} (m : FlatMap BlobLocation ω) (l' : BlobLocation) :
    (m.filterKeys fun l => !between ⟨s, 0, 0⟩ ⟨s, 0xffffffff, 0xffffffff⟩ l).find l' =
      if l'.segment = s then none else m.find l' := by
  rw [FlatMap.find_filterKeys]
  by_cases h : l'.segment = s
  · rw [if_pos h, between_segment.mpr h]
    rfl
  · rw [if_neg h, Bool.eq_false_iff.mpr (mt between_segment.mp h)]
    rfl

theorem find_outside_clusters (m : FlatSet (SegmentId ×ₗ ClusterId)) (s' : SegmentId)
    (c' : ClusterId) :
    (m.filterKeys fun k => !(toLex (s, 0) ≤ k && k ≤ toLex (s, 0xffffffff))).find (toLex (s', c')) =
      if s' = s then none else m.find (toLex (s', c')) := by
  have hrange : (decide (toLex (s, 0) ≤ toLex (s', c')) &&
      decide (toLex (s', c') ≤ toLex (s, 0xffffffff))) = decide (s' = s) := by
    rw [← Bool.decide_and, decide_eq_decide, Prod.Lex.toLex_le_toLex, Prod.Lex.toLex_le_toLex]
    have hc := c'.toNat_lt
    simp only [UInt32.lt_iff_toNat_lt, UInt32.le_iff_toNat_le, ← UInt32.toNat_inj,
      UInt32.toNat_zero, show (0xffffffff : UInt32).toNat = 4294967295 by decide]
    omega
  rw [FlatMap.find_filterKeys, hrange]
  by_cases h : s' = s <;> simp [h]

theorem isClusterDeleted_deleteCluster (s' : SegmentId) (c' : ClusterId) :
    (state.deleteCluster s c).isClusterDeleted s' c' =
      (state.isClusterDeleted s' c' || decide (s' = s ∧ c' = c)) := by
  by_cases h : s' = s ∧ c' = c
  · simp [deleteCluster, isClusterDeleted, isSegmentDeleted, h]
  · have hne : toLex (s', c') ≠ toLex (s, c) := fun heq => h (by simpa using heq)
    rw [decide_eq_false h]
    simp [deleteCluster, isClusterDeleted, isSegmentDeleted, hne]

/-- With a cluster its blobs are deleted. -/
theorem isBlobDeleted_deleteCluster (l' : BlobLocation) :
    (state.deleteCluster s c).isBlobDeleted l' =
      (state.isBlobDeleted l' || decide (l'.segment = s ∧ l'.cluster = c)) := by
  rw [isBlobDeleted, isClusterDeleted_deleteCluster, show (state.deleteCluster s c).deletedBlobs.find l' =
    _ from find_outside_cluster _ l', isBlobDeleted]
  by_cases h : l'.segment = s ∧ l'.cluster = c <;> simp [h]

/-- Deleting a cluster removes it from the view, with all its blobs. -/
theorem view_deleteCluster (hc : c ≤ maxClusterId) :
    (state.deleteCluster s c).view v = (state.view v).deleteCluster s c := by
  have hwritten : ∀ l', (state.deleteCluster s c).writtenBlobs.find l' =
      if l'.segment = s ∧ l'.cluster = c then none else state.writtenBlobs.find l' :=
    fun l' => find_outside_cluster _ l'
  have hne : ¬nextFreeClusterId = c := fun heq => absurd (heq ▸ hc) (by decide)
  refine View.ext ?_ (funext fun s' => ?_) (funext₂ fun s' c' => ?_) (funext fun l' => ?_)
  · simp only [view, View.deleteCluster, hwritten, hne, and_false, if_false]
  · simp only [view, View.deleteCluster, hwritten, hne, and_false, if_false]
    rfl
  · by_cases h : s' = s ∧ c' = c
    · simp [view, View.deleteCluster, isClusterDeleted_deleteCluster, h]
    · simp only [view, View.deleteCluster, isClusterDeleted_deleteCluster, hwritten, if_neg h,
        decide_eq_false h, Bool.or_false]
  · by_cases h : l'.segment = s ∧ l'.cluster = c
    · simp [view, View.deleteCluster, isBlobDeleted_deleteCluster, h]
    · simp only [view, View.deleteCluster, isBlobDeleted_deleteCluster, hwritten, if_neg h,
        decide_eq_false h, Bool.or_false]

theorem isSegmentDeleted_deleteSegment (s' : SegmentId) :
    (state.deleteSegment s).isSegmentDeleted s' = (state.isSegmentDeleted s' || decide (s' = s)) := by
  by_cases h : s' = s <;> simp [deleteSegment, isSegmentDeleted, h]

/-- With a segment its clusters are deleted. -/
theorem isClusterDeleted_deleteSegment (s' : SegmentId) (c' : ClusterId) :
    (state.deleteSegment s).isClusterDeleted s' c' =
      (state.isClusterDeleted s' c' || decide (s' = s)) := by
  have hclusters : (state.deleteSegment s).deletedClusters.find (toLex (s', c')) =
      if s' = s then none else state.deletedClusters.find (toLex (s', c')) :=
    find_outside_clusters _ s' c'
  rw [isClusterDeleted, isSegmentDeleted_deleteSegment, hclusters, isClusterDeleted]
  by_cases h : s' = s <;> simp [h]

/-- With a segment its blobs are deleted. -/
theorem isBlobDeleted_deleteSegment (l' : BlobLocation) :
    (state.deleteSegment s).isBlobDeleted l' =
      (state.isBlobDeleted l' || decide (l'.segment = s)) := by
  rw [isBlobDeleted, isClusterDeleted_deleteSegment, show (state.deleteSegment s).deletedBlobs.find l' =
    _ from find_outside_segment _ l', isBlobDeleted]
  by_cases h : l'.segment = s <;> simp [h]

/-- Deleting a segment removes it from the view, with all that is in it. -/
theorem view_deleteSegment (hs : s ≤ maxSegmentId) :
    (state.deleteSegment s).view v = (state.view v).deleteSegment s := by
  have hwritten : ∀ l', (state.deleteSegment s).writtenBlobs.find l' =
      if l'.segment = s then none else state.writtenBlobs.find l' :=
    fun l' => find_outside_segment _ l'
  have hne : ¬nextFreeSegmentId = s := fun heq => absurd (heq ▸ hs) (by decide)
  refine View.ext ?_ (funext fun s' => ?_) (funext₂ fun s' c' => ?_) (funext fun l' => ?_)
  · simp only [view, View.deleteSegment, hwritten, hne, if_false]
  · by_cases h : s' = s
    · simp [view, View.deleteSegment, isSegmentDeleted_deleteSegment, h]
    · simp [view, View.deleteSegment, isSegmentDeleted_deleteSegment, hwritten, h]
  · by_cases h : s' = s
    · simp [view, View.deleteSegment, isClusterDeleted_deleteSegment, h]
    · simp [view, View.deleteSegment, isClusterDeleted_deleteSegment, hwritten, h]
  · by_cases h : l'.segment = s
    · simp [view, View.deleteSegment, isBlobDeleted_deleteSegment, h]
    · simp [view, View.deleteSegment, isBlobDeleted_deleteSegment, hwritten, h]

end DatabaseState

end ClientLib

end BlobsDb
