import BlobsDb.ClientLib.Overlay

/-!
# What a transaction notes

`DatabaseState.Tracks` says what the sets of created and deleted segments, clusters and blobs have to
do with the database as the transaction found it and the database as the transaction sees it. What an
operation notes keeps it, and the view changes as if the operation was done at once.
-/

namespace BlobsDb

namespace ClientLib

open Access (idOf idData)

namespace DatabaseState

variable {state : DatabaseState} {v₀ v : View} {l : BlobLocation} {s : SegmentId} {c : ClusterId}
  {b n n' : UInt32} {data : List UInt8} {missed : BlobLocation → Prop}

/-- What is noted fits to the database `v₀` that was found and the database `v` that is seen. New blobs
are among the created ones, but for some that are `missed`. -/
structure Tracks (missed : BlobLocation → Prop) (v₀ : View) (state : DatabaseState) (v : View) :
    Prop where
  view : state.view v₀ = v
  found : v₀.WF
  seen : v.WF
  written : ∀ l, (state.writtenBlobs.find l).isSome → v.Has l
  stored : ∀ l, (state.writtenBlobs.find l).isSome → l.blob ≤ nextFreeBlobId
  createdSegments : ∀ s, (state.createdSegments.find s).isSome ↔
    v₀.segment s = none ∧ (v.segment s).isSome
  createdClusters : ∀ s c, (state.createdClusters.find (toLex (s, c))).isSome ↔
    v₀.cluster s c = none ∧ (v.cluster s c).isSome
  createdBlobs : ∀ l, (state.createdBlobs.find l).isSome → v₀.blob l = none ∧ (v.blob l).isSome
  listed : ∀ l, v₀.blob l = none → (v.blob l).isSome →
    (state.createdBlobs.find l).isSome ∨ missed l
  freshSegments : ∀ s, (state.createdSegments.find s).isSome → v₀.nextSegment ≤ s
  freshClusters : ∀ s c n, (state.createdClusters.find (toLex (s, c))).isSome →
    v₀.segment s = some n → n ≤ c
  deletedSegments : ∀ s, (state.deletedSegments.find s).isSome → s < v.nextSegment
  deletedClusters : ∀ s c, (state.deletedClusters.find (toLex (s, c))).isSome →
    ∃ n, v.segment s = some n ∧ c < n
  deletedBlobs : ∀ l, (state.deletedBlobs.find l).isSome →
    ∃ n, v.cluster l.segment l.cluster = some n ∧ l.blob < n
  nextSegment : v₀.nextSegment ≤ v.nextSegment
  nextCluster : ∀ s n n', v₀.segment s = some n → v.segment s = some n' → n ≤ n'
  nextBlob : ∀ s c n n', v₀.cluster s c = some n → v.cluster s c = some n' → n ≤ n'
  /-- The segments with new ids are there, or were deleted. -/
  newSegments : ∀ s, v₀.nextSegment ≤ s → s < v.nextSegment →
    (v.segment s).isSome ∨ (state.deletedSegments.find s).isSome
  newClusters : ∀ s c n, v.segment s = some n → (v₀.segment s).getD 0 ≤ c → c < n →
    (v.cluster s c).isSome ∨ (state.deletedClusters.find (toLex (s, c))).isSome
  /-- The first blob of a new cluster is there, or was deleted. -/
  newBlobs : ∀ s c n, v₀.cluster s c = none → v.cluster s c = some n → 0 < n →
    (v.blob ⟨s, c, 0⟩).isSome ∨ (state.deletedBlobs.find ⟨s, c, 0⟩).isSome

/-- Locks are not tracked. -/
theorem Tracks.heldLocks (h : state.Tracks missed v₀ v) (locks : HeldLocks) :
    { state with heldLocks := locks }.Tracks missed v₀ v := { h with }

/-- `CreateBlob` only takes the blob off the deleted ones, or puts it to the created ones. -/
theorem exists_createBlob (state : DatabaseState) (l : BlobLocation) :
    ∃ deleted created, state.createBlob l =
      { state with deletedBlobs := deleted, createdBlobs := created } ∧
      (∀ l', deleted.find l' = if l' = l then none else state.deletedBlobs.find l') ∧
      ∀ l', (created.find l').isSome ↔ (state.createdBlobs.find l').isSome ∨
        l' = l ∧ state.deletedBlobs.find l = none := by
  refine ⟨(state.createBlob l).deletedBlobs, (state.createBlob l).createdBlobs, ?_,
    fun l' => find_deletedBlobs_createBlob l', fun l' => ?_⟩
  · unfold createBlob
    split_ifs <;> rfl
  · unfold createBlob
    split_ifs with h
    · rw [Option.isSome_iff_ne_none] at h
      simp [h]
    · rw [Option.not_isSome_iff_eq_none] at h
      by_cases hl : l' = l <;> simp [hl, h]

namespace Tracks

theorem live_of_segment (h : state.Tracks missed v₀ v) (hn : v.segment s = some n) :
    s ≤ maxSegmentId ∧ state.isSegmentDeleted s = false :=
  DatabaseState.live_of_segment (v := v₀) (by rw [h.view, hn]; rfl)

theorem live_of_cluster (h : state.Tracks missed v₀ v) (hn : v.cluster s c = some n) :
    c ≤ maxClusterId ∧ state.isClusterDeleted s c = false :=
  DatabaseState.live_of_cluster (v := v₀) (by rw [h.view, hn]; rfl)

/-- Special locations are not among the deleted blobs. -/
theorem find_deletedBlobs_of_lt (h : state.Tracks missed v₀ v) (hb : maxBlobId < l.blob) :
    state.deletedBlobs.find l = none := by
  by_contra hcon
  obtain ⟨k, hk, hlt⟩ := h.deletedBlobs l (Option.isSome_iff_ne_none.mpr hcon)
  exact absurd (View.le_of_lt_succ hlt (h.seen.cluster _ _ k hk).2) (not_le.mpr hb)

/-- Special locations are not in the deleted clusters. -/
theorem find_deletedClusters_of_lt (h : state.Tracks missed v₀ v) (hc : maxClusterId < c) :
    state.deletedClusters.find (toLex (s, c)) = none := by
  by_contra hcon
  obtain ⟨k, hk, hlt⟩ := h.deletedClusters s c (Option.isSome_iff_ne_none.mpr hcon)
  exact absurd (View.le_of_lt_succ hlt (h.seen.segment s k hk).2) (not_le.mpr hc)

/-- A special location of a cluster is deleted with the cluster. -/
theorem isBlobDeleted_of_lt (h : state.Tracks missed v₀ v) (hb : maxBlobId < l.blob) :
    state.isBlobDeleted l = state.isClusterDeleted l.segment l.cluster := by
  rw [isBlobDeleted, h.find_deletedBlobs_of_lt hb]
  exact Bool.or_false _

/-- A special location of a segment is deleted with the segment. -/
theorem isClusterDeleted_of_lt (h : state.Tracks missed v₀ v) (hc : maxClusterId < c) :
    state.isClusterDeleted s c = state.isSegmentDeleted s := by
  rw [isClusterDeleted, h.find_deletedClusters_of_lt hc]
  exact Bool.or_false _

theorem isBlobDeleted_nextFreeBlobId (h : state.Tracks missed v₀ v) (hn : v.cluster s c = some n) :
    state.isBlobDeleted ⟨s, c, nextFreeBlobId⟩ = false :=
  (h.isBlobDeleted_of_lt (show maxBlobId < nextFreeBlobId by decide)).trans (h.live_of_cluster hn).2

theorem isBlobDeleted_nextFreeClusterId (h : state.Tracks missed v₀ v) (hn : v.segment s = some n) :
    state.isBlobDeleted ⟨s, nextFreeClusterId, nextFreeBlobId⟩ = false :=
  (h.isBlobDeleted_of_lt (show maxBlobId < nextFreeBlobId by decide)).trans
    ((h.isClusterDeleted_of_lt (show maxClusterId < nextFreeClusterId by decide)).trans
      (h.live_of_segment hn).2)

/-- From the next free id on blobs are new. -/
theorem new_of_le (h : state.Tracks missed v₀ v) (hn : v.cluster s c = some n) (hb : n ≤ b) :
    v₀.blob ⟨s, c, b⟩ = none ∧ state.deletedBlobs.find ⟨s, c, b⟩ = none := by
  refine ⟨?_, ?_⟩
  · by_contra hcon
    obtain ⟨d, hd⟩ := Option.ne_none_iff_exists'.mp hcon
    obtain ⟨k, hk, hlt⟩ := h.found.blob _ d hd
    exact absurd (lt_of_lt_of_le hlt ((h.nextBlob s c k n hk hn).trans hb)) (lt_irrefl _)
  · by_contra hcon
    obtain ⟨k, hk, hlt⟩ := h.deletedBlobs _ (Option.isSome_iff_ne_none.mpr hcon)
    obtain rfl := Option.some.inj (hn.symm.trans hk)
    exact absurd (lt_of_lt_of_le hlt hb) (lt_irrefl _)

/-! ### What was found and not deleted -/

theorem isSome_segment (h : state.Tracks missed v₀ v) (hs : (v₀.segment s).isSome)
    (hlive : state.isSegmentDeleted s = false) : (v.segment s).isSome := by
  obtain ⟨n, hn⟩ := Option.isSome_iff_exists.mp hs
  rw [← h.view, show (state.view v₀).segment s = _ from if_pos ⟨h.found.segment_le hn, hlive⟩, hn]
  simp

theorem isSome_cluster (h : state.Tracks missed v₀ v) (hc : (v₀.cluster s c).isSome)
    (hlive : state.isClusterDeleted s c = false) : (v.cluster s c).isSome := by
  obtain ⟨n, hn⟩ := Option.isSome_iff_exists.mp hc
  rw [← h.view, show (state.view v₀).cluster s c = _ from
    if_pos ⟨(h.found.cluster_le hn).2, hlive⟩, hn]
  simp

theorem isSome_blob (h : state.Tracks missed v₀ v) (hb : (v₀.blob l).isSome)
    (hlive : state.isBlobDeleted l = false) : (v.blob l).isSome := by
  obtain ⟨d, hd⟩ := Option.isSome_iff_exists.mp hb
  rw [← h.view, show (state.view v₀).blob l = _ from
    if_pos ⟨(h.found.blob_le hd).2.2, hlive⟩, hd]
  simp

/-- What was found is there until it is deleted. -/
theorem has_of_found (h : state.Tracks missed v₀ v) (hl : v₀.Has l) (hlive : state.isBlobDeleted l = false) :
    v.Has l := by
  have hcluster : state.isClusterDeleted l.segment l.cluster = false :=
    (isBlobDeleted_eq_false_iff.mp hlive).1
  have hsegment : state.isSegmentDeleted l.segment = false :=
    (isClusterDeleted_eq_false_iff.mp hcluster).1
  cases hl with
  | nextFreeSegmentId => exact .nextFreeSegmentId
  | segmentList => exact .segmentList
  | nextFreeClusterId hs => exact .nextFreeClusterId (h.isSome_segment hs hsegment)
  | segmentDelete hs => exact .segmentDelete (h.isSome_segment hs hsegment)
  | clusterList hs => exact .clusterList (h.isSome_segment hs hsegment)
  | nextFreeBlobId hc => exact .nextFreeBlobId (h.isSome_cluster hc hcluster)
  | clusterDelete hc => exact .clusterDelete (h.isSome_cluster hc hcluster)
  | blobList hc => exact .blobList (h.isSome_cluster hc hcluster)
  | blob hb => exact .blob (h.isSome_blob hb hlive)

/-! ### Notes -/

/-- A blob is written that is there already. -/
theorem writeBlob (h : state.Tracks missed v₀ v) (hb : (v.blob l).isSome) :
    (state.writeBlob l data).Tracks missed v₀ (v.setBlob l (some data)) := by
  have hlive := live_of_blob (h.view ▸ hb)
  exact {
    h with
    view := by rw [view_writeBlob hlive.1 hlive.2, h.view]
    seen := h.seen.setBlob fun _ => by
      obtain ⟨d, hd⟩ := Option.isSome_iff_exists.mp hb
      exact h.seen.blob l d hd
    written := fun l' hl' => by
      rw [find_writeBlob] at hl'
      split_ifs at hl' with hne
      · rw [hne]
        exact (View.Has.blob hb).setBlob
      · exact (h.written l' hl').setBlob
    stored := fun l' hl' => by
      rw [find_writeBlob] at hl'
      split_ifs at hl' with hne
      · rw [hne]
        exact hlive.1.trans (by decide)
      · exact h.stored l' hl'
    createdBlobs := fun l' hl' =>
      ⟨(h.createdBlobs l' hl').1, View.isSome_blob_setBlob (h.createdBlobs l' hl').2⟩
    listed := fun l' hl' hsome => by
      by_cases hne : l' = l
      · rw [hne] at hl' ⊢
        exact h.listed l hl' hb
      · exact h.listed l' hl' (by rwa [View.blob_setBlob_of_ne hne] at hsome)
    newBlobs := fun s c n hs hc hn => (h.newBlobs s c n hs hc hn).imp View.isSome_blob_setBlob id }

/-- A blob is created, and the next free id raised. -/
theorem createBlob (h : state.Tracks missed v₀ v) (hn : v.cluster s c = some n) (hle : n ≤ n')
    (hmax : n' ≤ maxBlobId + 1) (hb : b < n')
    (hfound : state.deletedBlobs.find ⟨s, c, b⟩ = none → v₀.blob ⟨s, c, b⟩ = none)
    (hmissed : (state.deletedBlobs.find ⟨s, c, b⟩).isSome → v₀.blob ⟨s, c, b⟩ = none →
      missed ⟨s, c, b⟩)
    (hfirst : v₀.cluster s c = none → 0 < n ∨ b = 0) :
    (((state.writeBlob ⟨s, c, nextFreeBlobId⟩ (idData n')).createBlob ⟨s, c, b⟩).writeBlob
      ⟨s, c, b⟩ data).Tracks missed v₀ ((v.setNextBlob s c n').setBlob ⟨s, c, b⟩ (some data)) := by
  have hsome : (v.cluster s c).isSome := by rw [hn]; rfl
  have hlive := h.live_of_cluster hn
  have hbmax : b ≤ maxBlobId := View.le_of_lt_succ hb hmax
  have hself : ((v.setNextBlob s c n').setBlob ⟨s, c, b⟩ (some data)).cluster s c = some n' :=
    View.cluster_setNextBlob_self
  have hcluster : ∀ s' c', (v.cluster s' c').isSome ↔
      (((v.setNextBlob s c n').setBlob ⟨s, c, b⟩ (some data)).cluster s' c').isSome := fun s' c' => by
    by_cases hne : s' = s ∧ c' = c
    · rw [hne.1, hne.2, hself, hn]
      rfl
    · rw [show ((v.setNextBlob s c n').setBlob ⟨s, c, b⟩ (some data)).cluster s' c' =
        v.cluster s' c' from View.cluster_setNextBlob_of_ne hne]
  -- no next free id goes down, so what was below one stays below it
  have hraised : ∀ s' c' k, v.cluster s' c' = some k →
      ∃ k', ((v.setNextBlob s c n').setBlob ⟨s, c, b⟩ (some data)).cluster s' c' = some k' ∧
        k ≤ k' := fun s' c' k hk => by
    by_cases hne : s' = s ∧ c' = c
    · rw [hne.1, hne.2, hn] at hk
      rw [hne.1, hne.2]
      obtain rfl := Option.some.inj hk
      exact ⟨n', hself, hle⟩
    · exact ⟨k, (View.cluster_setNextBlob_of_ne hne).trans hk, le_rfl⟩
  have hblob : ∀ l', (v.blob l').isSome →
      (((v.setNextBlob s c n').setBlob ⟨s, c, b⟩ (some data)).blob l').isSome := fun l' hl' =>
    View.isSome_blob_setBlob (v := v.setNextBlob s c n') hl'
  have hnew : (((v.setNextBlob s c n').setBlob ⟨s, c, b⟩ (some data)).blob ⟨s, c, b⟩).isSome := by
    rw [View.blob_setBlob_self]
    rfl
  have hview : (((state.writeBlob ⟨s, c, nextFreeBlobId⟩ (idData n')).createBlob ⟨s, c, b⟩).writeBlob
      ⟨s, c, b⟩ data).view v₀ = ((state.writeBlob ⟨s, c, nextFreeBlobId⟩ (idData n')).view v₀).setBlob
        ⟨s, c, b⟩ (some data) := view_createBlob hbmax hlive.2
  rw [view_writeBlob_nextBlob hlive.1 hlive.2, h.view, idOf_idData] at hview
  obtain ⟨deleted, created, heq, hdeleted, hcreated⟩ :=
    exists_createBlob (state.writeBlob ⟨s, c, nextFreeBlobId⟩ (idData n')) ⟨s, c, b⟩
  rw [heq] at hview ⊢
  exact {
    h with
    view := hview
    seen := by
      refine (h.seen.setNextBlob (h.seen.exists_segment hn) (fun k hk => ?_) hmax).setBlob
        fun _ => ⟨n', hself, hb⟩
      obtain rfl := Option.some.inj (hn.symm.trans hk)
      exact hle
    written := fun l' hl' => by
      rw [find_writeBlob] at hl'
      split_ifs at hl' with h1
      · rw [h1]
        exact .blob hnew
      · rw [find_writeBlob] at hl'
        split_ifs at hl' with h2
        · rw [h2]
          exact .nextFreeBlobId ((hcluster s c).mp hsome)
        · exact (h.written l' hl').setNextBlob.setBlob
    stored := fun l' hl' => by
      rw [find_writeBlob] at hl'
      split_ifs at hl' with h1
      · rw [h1]
        exact hbmax.trans (by decide)
      · rw [find_writeBlob] at hl'
        split_ifs at hl' with h2
        · rw [h2]
        · exact h.stored l' hl'
    createdClusters := fun s' c' =>
      (h.createdClusters s' c').trans (and_congr_right fun _ => hcluster s' c')
    createdBlobs := fun l' hl' => by
      rcases (hcreated l').mp hl' with hold | ⟨rfl, hlive'⟩
      · exact ⟨(h.createdBlobs l' hold).1, hblob l' (h.createdBlobs l' hold).2⟩
      · exact ⟨hfound hlive', hnew⟩
    listed := fun l' hl' hsome' => by
      change (created.find l').isSome ∨ _
      rw [hcreated]
      by_cases hne : l' = ⟨s, c, b⟩
      · rw [hne] at hl' ⊢
        cases hdel : state.deletedBlobs.find ⟨s, c, b⟩ with
        | none => exact Or.inl (Or.inr ⟨rfl, hdel⟩)
        | some x => exact Or.inr (hmissed (by rw [hdel]; rfl) hl')
      · rw [View.blob_setBlob_of_ne hne] at hsome'
        exact (h.listed l' hl' hsome').imp_left Or.inl
    deletedBlobs := fun l' hl' => by
      change (deleted.find l').isSome at hl'
      rw [hdeleted] at hl'
      split_ifs at hl'
      · cases hl'
      · obtain ⟨k, hk, hlt⟩ := h.deletedBlobs l' hl'
        obtain ⟨k', hk', hle'⟩ := hraised _ _ k hk
        exact ⟨k', hk', lt_of_lt_of_le hlt hle'⟩
    nextBlob := fun s' c' k k' hk hk' => by
      obtain ⟨k₁, hk₁⟩ := Option.isSome_iff_exists.mp ((hcluster s' c').mpr (by rw [hk']; rfl))
      obtain ⟨k₂, hk₂, hle'⟩ := hraised s' c' k₁ hk₁
      obtain rfl := Option.some.inj (hk'.symm.trans hk₂)
      exact (h.nextBlob s' c' k k₁ hk hk₁).trans hle'
    newClusters := fun s' c' k hk hge hlt =>
      (h.newClusters s' c' k hk hge hlt).imp (hcluster s' c').mp id
    newBlobs := fun s' c' k hk₀ hk hlt => by
      -- the first blob of a new cluster is there, was deleted, or is this one
      have hold : (v.blob ⟨s', c', 0⟩).isSome ∨ (state.deletedBlobs.find ⟨s', c', 0⟩).isSome ∨
          (⟨s', c', 0⟩ : BlobLocation) = ⟨s, c, b⟩ := by
        by_cases hne : s' = s ∧ c' = c
        · obtain ⟨rfl, rfl⟩ := hne
          rcases hfirst hk₀ with hpos | rfl
          · exact (h.newBlobs s' c' n hk₀ hn hpos).imp id Or.inl
          · exact Or.inr (Or.inr rfl)
        · exact (h.newBlobs s' c' k hk₀ ((View.cluster_setNextBlob_of_ne hne).symm.trans hk) hlt).imp
            id Or.inl
      by_cases heq' : (⟨s', c', 0⟩ : BlobLocation) = ⟨s, c, b⟩
      · exact Or.inl (by rw [heq']; exact hnew)
      · refine hold.imp (hblob _) fun hold => ?_
        change (deleted.find ⟨s', c', 0⟩).isSome
        rw [hdeleted, if_neg heq']
        exact hold.resolve_right heq' }

theorem cluster_eq_none (h : state.Tracks missed v₀ v) (hn : v.segment s = some c) : v.cluster s c = none := by
  by_contra hcon
  obtain ⟨k, hk⟩ := Option.ne_none_iff_exists'.mp hcon
  obtain ⟨k', hk', hlt⟩ := h.seen.exists_segment hk
  obtain rfl := Option.some.inj (hn.symm.trans hk')
  exact lt_irrefl _ hlt

/-- A cluster is created that has no blobs yet, and the next free id raised. -/
theorem createCluster (h : state.Tracks missed v₀ v) (hn : v.segment s = some c) (hc : c ≤ maxClusterId) :
    (((state.writeBlob ⟨s, nextFreeClusterId, nextFreeBlobId⟩ (idData (c + 1))).createCluster s
      c).writeBlob ⟨s, c, nextFreeBlobId⟩ (idData 0)).Tracks missed v₀
        ((v.setNextCluster s (c + 1)).setNextBlob s c 0) := by
  have hsome : (v.segment s).isSome := by rw [hn]; rfl
  have hlive := h.live_of_segment hn
  have hself : ((v.setNextCluster s (c + 1)).setNextBlob s c 0).segment s = some (c + 1) :=
    View.segment_setNextCluster_self
  have hnone := h.cluster_eq_none hn
  have hne_of_some : ∀ s' c', (v.cluster s' c').isSome → ¬(s' = s ∧ c' = c) :=
    fun s' c' hsome ⟨h1, h2⟩ => by
      rw [h1, h2, hnone] at hsome
      cases hsome
  -- the next free id is above the deleted clusters and above those that were found
  have hdeleted : state.isClusterDeleted s c = false := by
    rw [isClusterDeleted, hlive.2, Bool.false_or, Bool.eq_false_iff]
    intro hcon
    obtain ⟨k, hk, hlt⟩ := h.deletedClusters s c hcon
    obtain rfl := Option.some.inj (hn.symm.trans hk)
    exact lt_irrefl _ hlt
  have hfound : v₀.cluster s c = none := by
    by_contra hcon
    obtain ⟨k, hk⟩ := Option.ne_none_iff_exists'.mp hcon
    obtain ⟨k', hk', hlt⟩ := h.found.exists_segment hk
    exact absurd (lt_of_lt_of_le hlt (h.nextCluster s k' c hk' hn)) (lt_irrefl _)
  have hview := @view_writeBlob_nextBlob _ v₀ _ _ (idData 0) hc
    (show ((state.writeBlob ⟨s, nextFreeClusterId, nextFreeBlobId⟩ (idData (c + 1))).createCluster s
      c).isClusterDeleted s c = false from hdeleted)
  rw [show ((state.writeBlob ⟨s, nextFreeClusterId, nextFreeBlobId⟩ (idData (c + 1))).createCluster s
    c).view v₀ = (state.writeBlob ⟨s, nextFreeClusterId, nextFreeBlobId⟩ (idData (c + 1))).view v₀
    from rfl, view_writeBlob_nextCluster hlive.1 hlive.2, h.view, idOf_idData, idOf_idData] at hview
  have hlt : c < c + 1 := (View.lt_succ_iff hc).mpr le_rfl
  have hother : ∀ s' c', ¬(s' = s ∧ c' = c) →
      ((v.setNextCluster s (c + 1)).setNextBlob s c 0).cluster s' c' = v.cluster s' c' :=
    fun s' c' hne => View.cluster_setNextBlob_of_ne hne
  -- no next free id goes down, so what was below one stays below it
  have hraised : ∀ s' k, v.segment s' = some k →
      ∃ k', ((v.setNextCluster s (c + 1)).setNextBlob s c 0).segment s' = some k' ∧ k ≤ k' :=
    fun s' k hk => by
      by_cases hne : s' = s
      · rw [hne, hn] at hk
        rw [hne]
        obtain rfl := Option.some.inj hk
        exact ⟨c + 1, hself, hlt.le⟩
      · exact ⟨k, (View.segment_setNextCluster_of_ne hne).trans hk, le_rfl⟩
  have hsegment : ∀ s', (v.segment s').isSome ↔
      (((v.setNextCluster s (c + 1)).setNextBlob s c 0).segment s').isSome := fun s' => by
    by_cases hne : s' = s
    · rw [hne, hself, hn]
      rfl
    · rw [show ((v.setNextCluster s (c + 1)).setNextBlob s c 0).segment s' = v.segment s' from
        View.segment_setNextCluster_of_ne hne]
  exact {
    h with
    view := hview
    seen := by
      refine View.WF.setNextBlob (h.seen.setNextCluster (h.seen.segment s c hn).1 (fun k hk => ?_)
        (View.succ_le hc)) ⟨c + 1, View.segment_setNextCluster_self, hlt⟩ (fun k hk => ?_)
        UInt32.zero_le
      · obtain rfl := Option.some.inj (hn.symm.trans hk)
        exact hlt.le
      · cases hnone.symm.trans hk
    written := fun l' hl' => by
      rw [find_writeBlob] at hl'
      split_ifs at hl' with h1
      · rw [h1]
        exact .nextFreeBlobId (by rw [View.cluster_setNextBlob_self]; rfl)
      · change ((state.writeBlob _ _).writtenBlobs.find l').isSome at hl'
        rw [find_writeBlob] at hl'
        split_ifs at hl' with h2
        · rw [h2]
          exact .nextFreeClusterId (by rw [hself]; rfl)
        · exact (h.written l' hl').setNextCluster.setNextBlob
    stored := fun l' hl' => by
      rw [find_writeBlob] at hl'
      split_ifs at hl' with h1
      · rw [h1]
      · change ((state.writeBlob _ _).writtenBlobs.find l').isSome at hl'
        rw [find_writeBlob] at hl'
        split_ifs at hl' with h2
        · rw [h2]
        · exact h.stored l' hl'
    createdSegments := fun s' =>
      (h.createdSegments s').trans (and_congr_right fun _ => hsegment s')
    createdClusters := fun s' c' => by
      change ((state.createdClusters.insert (toLex (s, c)) ()).find (toLex (s', c'))).isSome ↔ _
      by_cases hne : s' = s ∧ c' = c
      · rw [hne.1, hne.2, FlatMap.find_insert, if_pos rfl, View.cluster_setNextBlob_self]
        exact iff_of_true rfl ⟨hfound, rfl⟩
      · have hkey : toLex (s', c') ≠ toLex (s, c) := fun heq => hne (by simpa using heq)
        rw [FlatMap.find_insert, if_neg hkey, hother s' c' hne]
        exact h.createdClusters s' c'
    freshClusters := fun s' c' k hc' hk => by
      change ((state.createdClusters.insert (toLex (s, c)) ()).find (toLex (s', c'))).isSome at hc'
      by_cases hne : s' = s ∧ c' = c
      · rw [hne.1] at hk
        rw [hne.2]
        exact h.nextCluster s k c hk hn
      · have hkey : toLex (s', c') ≠ toLex (s, c) := fun heq => hne (by simpa using heq)
        rw [FlatMap.find_insert, if_neg hkey] at hc'
        exact h.freshClusters s' c' k hc' hk
    deletedClusters := fun s' c' hc' => by
      obtain ⟨k, hk, hlt'⟩ := h.deletedClusters s' c' hc'
      obtain ⟨k', hk', hle⟩ := hraised s' k hk
      exact ⟨k', hk', lt_of_lt_of_le hlt' hle⟩
    deletedBlobs := fun l' hl' => by
      obtain ⟨k, hk, hlt'⟩ := h.deletedBlobs l' hl'
      exact ⟨k, (hother _ _ (hne_of_some _ _ (by rw [hk]; rfl))).trans hk, hlt'⟩
    nextCluster := fun s' k k' hk hk' => by
      obtain ⟨k₁, hk₁⟩ := Option.isSome_iff_exists.mp ((hsegment s').mpr (by rw [hk']; rfl))
      obtain ⟨k₂, hk₂, hle⟩ := hraised s' k₁ hk₁
      obtain rfl := Option.some.inj (hk'.symm.trans hk₂)
      exact (h.nextCluster s' k k₁ hk hk₁).trans hle
    nextBlob := fun s' c' k k' hk hk' => by
      have hne : ¬(s' = s ∧ c' = c) := fun ⟨h1, h2⟩ => by
        rw [h1, h2, hfound] at hk
        cases hk
      exact h.nextBlob s' c' k k' hk ((hother s' c' hne).symm.trans hk')
    newSegments := fun s' hge hlt => (h.newSegments s' hge hlt).imp (hsegment s').mp id
    newClusters := fun s' c' k hk hge hlt' => by
      by_cases hne : s' = s ∧ c' = c
      · rw [hne.1, hne.2, View.cluster_setNextBlob_self]
        exact Or.inl rfl
      · rw [hother s' c' hne]
        by_cases hs : s' = s
        · subst hs
          obtain rfl := Option.some.inj (hself.symm.trans hk)
          exact h.newClusters s' c' c hn hge
            (lt_of_le_of_ne ((View.lt_succ_iff hc).mp hlt') fun heq => hne ⟨rfl, heq⟩)
        · exact h.newClusters s' c' k ((View.segment_setNextCluster_of_ne hs).symm.trans hk) hge hlt'
    newBlobs := fun s' c' k hk₀ hk hlt' => by
      have hne : ¬(s' = s ∧ c' = c) := fun ⟨h1, h2⟩ => by
        rw [h1, h2, View.cluster_setNextBlob_self] at hk
        obtain rfl := Option.some.inj hk
        exact lt_irrefl _ hlt'
      exact h.newBlobs s' c' k hk₀ ((hother s' c' hne).symm.trans hk) hlt' }

/-- A segment is created that has no clusters yet, and the next free id raised. -/
theorem createSegment (h : state.Tracks missed v₀ v) (hn : v.nextSegment = s) (hs : s ≤ maxSegmentId) :
    (((state.writeBlob nextSegmentLocation (idData (s + 1))).createSegment s).writeBlob
      ⟨s, nextFreeClusterId, nextFreeBlobId⟩ (idData 0)).Tracks missed v₀
        ((v.setNextSegment (s + 1)).setNextCluster s 0) := by
  have hlt : s < s + 1 := (View.lt_succ_iff hs).mpr le_rfl
  -- the next free id is above the deleted segments and above those that were found
  have hdeleted : state.isSegmentDeleted s = false := by
    rw [Bool.eq_false_iff]
    intro hcon
    exact lt_irrefl s (lt_of_lt_of_eq (h.deletedSegments s hcon) hn)
  have hnone : v.segment s = none := by
    by_contra hcon
    obtain ⟨k, hk⟩ := Option.ne_none_iff_exists'.mp hcon
    exact lt_irrefl s (lt_of_lt_of_eq (h.seen.segment s k hk).1 hn)
  have hfound : v₀.segment s = none := by
    by_contra hcon
    obtain ⟨k, hk⟩ := Option.ne_none_iff_exists'.mp hcon
    exact lt_irrefl s (lt_of_lt_of_le (h.found.segment s k hk).1 (h.nextSegment.trans_eq hn))
  have hother : ∀ s', s' ≠ s →
      ((v.setNextSegment (s + 1)).setNextCluster s 0).segment s' = v.segment s' :=
    fun s' hne => View.segment_setNextCluster_of_ne hne
  have hself : ((v.setNextSegment (s + 1)).setNextCluster s 0).segment s = some 0 :=
    View.segment_setNextCluster_self
  have hne_of_some : ∀ s' k, v.segment s' = some k → s' ≠ s := fun s' k hk heq => by
    rw [heq, hnone] at hk
    cases hk
  have hview := @view_writeBlob_nextCluster _ v₀ _ (idData 0) hs
    (show ((state.writeBlob nextSegmentLocation (idData (s + 1))).createSegment s).isSegmentDeleted s =
      false from hdeleted)
  rw [show ((state.writeBlob nextSegmentLocation (idData (s + 1))).createSegment s).view v₀ =
    (state.writeBlob nextSegmentLocation (idData (s + 1))).view v₀ from rfl,
    view_writeBlob_nextSegment, h.view, idOf_idData, idOf_idData] at hview
  exact {
    h with
    view := hview
    seen := by
      refine View.WF.setNextCluster (h.seen.setNextSegment (hn ▸ hlt.le) (View.succ_le hs)) hlt
        (fun k hk => ?_) UInt32.zero_le
      cases hnone.symm.trans hk
    written := fun l' hl' => by
      rw [find_writeBlob] at hl'
      split_ifs at hl' with h1
      · rw [h1]
        exact .nextFreeClusterId (by rw [hself]; rfl)
      · change ((state.writeBlob _ _).writtenBlobs.find l').isSome at hl'
        rw [find_writeBlob] at hl'
        split_ifs at hl' with h2
        · rw [h2]
          exact .nextFreeSegmentId
        · exact (h.written l' hl').setNextSegment.setNextCluster
    stored := fun l' hl' => by
      rw [find_writeBlob] at hl'
      split_ifs at hl' with h1
      · rw [h1]
      · change ((state.writeBlob _ _).writtenBlobs.find l').isSome at hl'
        rw [find_writeBlob] at hl'
        split_ifs at hl' with h2
        · rw [h2]
        · exact h.stored l' hl'
    createdSegments := fun s' => by
      change ((state.createdSegments.insert s ()).find s').isSome ↔ _
      by_cases hne : s' = s
      · rw [hne, FlatMap.find_insert, if_pos rfl, hself]
        exact iff_of_true rfl ⟨hfound, rfl⟩
      · rw [FlatMap.find_insert, if_neg hne, hother s' hne]
        exact h.createdSegments s'
    freshSegments := fun s' hs' => by
      change ((state.createdSegments.insert s ()).find s').isSome at hs'
      by_cases hne : s' = s
      · rw [hne]
        exact h.nextSegment.trans_eq hn
      · rw [FlatMap.find_insert, if_neg hne] at hs'
        exact h.freshSegments s' hs'
    deletedSegments := fun s' hs' => (h.deletedSegments s' hs').trans_le (hn ▸ hlt.le)
    deletedClusters := fun s' c' hc' => by
      obtain ⟨k, hk, hlt'⟩ := h.deletedClusters s' c' hc'
      exact ⟨k, (hother s' (hne_of_some s' k hk)).trans hk, hlt'⟩
    nextSegment := h.nextSegment.trans (hn ▸ hlt.le)
    nextCluster := fun s' k k' hk hk' => by
      have hne : s' ≠ s := fun heq => by
        rw [heq, hfound] at hk
        cases hk
      exact h.nextCluster s' k k' hk ((hother s' hne).symm.trans hk')
    newSegments := fun s' hge hlt' => by
      by_cases hne : s' = s
      · rw [hne, hself]
        exact Or.inl rfl
      · rw [hother s' hne]
        exact h.newSegments s' hge (lt_of_lt_of_eq
          (lt_of_le_of_ne ((View.lt_succ_iff hs).mp hlt') hne) hn.symm)
    newClusters := fun s' c' k hk hge hlt' => by
      have hne : s' ≠ s := fun heq => by
        rw [heq, hself] at hk
        obtain rfl := Option.some.inj hk
        exact absurd hlt' (by simp)
      exact h.newClusters s' c' k ((hother s' hne).symm.trans hk) hge hlt' }

/-- A blob is deleted. -/
theorem deleteBlob (h : state.Tracks missed v₀ v) (hl : l.blob ≤ maxBlobId) (hb : (v.blob l).isSome) :
    (state.deleteBlob l).Tracks missed v₀ (v.setBlob l none) := by
  obtain ⟨d, hd⟩ := Option.isSome_iff_exists.mp hb
  have hother : ∀ l', l' ≠ l → (v.setBlob l none).blob l' = v.blob l' := fun l' hne =>
    View.blob_setBlob_of_ne hne
  exact {
    h with
    view := by rw [view_deleteBlob hl, h.view]
    seen := h.seen.setBlob fun hcon => by cases hcon
    written := fun l' hl' => by
      change ((state.writtenBlobs.erase l).find l').isSome at hl'
      rw [FlatMap.find_erase] at hl'
      split_ifs at hl' with hne
      · cases hl'
      · exact (h.written l' hl').deleteBlob hne
    stored := fun l' hl' => by
      change ((state.writtenBlobs.erase l).find l').isSome at hl'
      rw [FlatMap.find_erase] at hl'
      split_ifs at hl' with hne
      · cases hl'
      · exact h.stored l' hl'
    createdBlobs := fun l' hl' => by
      change ((state.createdBlobs.erase l).find l').isSome at hl'
      rw [FlatMap.find_erase] at hl'
      split_ifs at hl' with hne
      · cases hl'
      · rw [hother l' hne]
        exact h.createdBlobs l' hl'
    listed := fun l' hl' hsome => by
      change ((state.createdBlobs.erase l).find l').isSome ∨ _
      by_cases hne : l' = l
      · rw [hne, View.blob_setBlob_self] at hsome
        cases hsome
      · rw [FlatMap.find_erase, if_neg hne]
        exact h.listed l' hl' (by rwa [hother l' hne] at hsome)
    deletedBlobs := fun l' hl' => by
      change ((state.deletedBlobs.insert l ()).find l').isSome at hl'
      rw [FlatMap.find_insert] at hl'
      split_ifs at hl' with hne
      · rw [hne]
        exact h.seen.blob l d hd
      · exact h.deletedBlobs l' hl'
    newBlobs := fun s c n hs hc hn => by
      change ((v.setBlob l none).blob ⟨s, c, 0⟩).isSome ∨
        ((state.deletedBlobs.insert l ()).find ⟨s, c, 0⟩).isSome
      rw [FlatMap.find_insert]
      by_cases hne : (⟨s, c, 0⟩ : BlobLocation) = l
      · rw [if_pos hne]
        exact Or.inr rfl
      · rw [if_neg hne, hother _ hne]
        exact h.newBlobs s c n hs hc hn }

/-- A cluster is deleted. -/
theorem deleteCluster (h : state.Tracks missed v₀ v) (hc : c ≤ maxClusterId) (hn : v.cluster s c = some n) :
    (state.deleteCluster s c).Tracks missed v₀ (v.deleteCluster s c) := by
  have hself : (v.deleteCluster s c).cluster s c = none := View.cluster_deleteCluster_self
  have hcluster : ∀ s' c', ¬(s' = s ∧ c' = c) →
      (v.deleteCluster s c).cluster s' c' = v.cluster s' c' := fun s' c' hne =>
    View.cluster_deleteCluster_of_ne hne
  have hblob : ∀ l', ¬(l'.segment = s ∧ l'.cluster = c) →
      (v.deleteCluster s c).blob l' = v.blob l' := fun l' hne => View.blob_deleteCluster_of_ne hne
  -- what is noted of the cluster goes, what is noted of others stays
  exact {
    h with
    view := by rw [view_deleteCluster hc, h.view]
    seen := h.seen.deleteCluster
    written := fun l' hl' => by
      rw [show (state.deleteCluster s c).writtenBlobs.find l' = _ from find_outside_cluster _ l'] at hl'
      split_ifs at hl' with hne
      · cases hl'
      · exact (h.written l' hl').deleteCluster hne
    stored := fun l' hl' => by
      rw [show (state.deleteCluster s c).writtenBlobs.find l' = _ from find_outside_cluster _ l'] at hl'
      split_ifs at hl' with hne
      · cases hl'
      · exact h.stored l' hl'
    createdClusters := fun s' c' => by
      change ((state.createdClusters.erase (toLex (s, c))).find (toLex (s', c'))).isSome ↔ _
      by_cases hne : s' = s ∧ c' = c
      · rw [hne.1, hne.2, FlatMap.find_erase, if_pos rfl, hself]
        simp
      · have hkey : toLex (s', c') ≠ toLex (s, c) := fun heq => hne (by simpa using heq)
        rw [FlatMap.find_erase, if_neg hkey, hcluster s' c' hne]
        exact h.createdClusters s' c'
    createdBlobs := fun l' hl' => by
      rw [show (state.deleteCluster s c).createdBlobs.find l' = _ from find_outside_cluster _ l'] at hl'
      split_ifs at hl' with hne
      · cases hl'
      · rw [hblob l' hne]
        exact h.createdBlobs l' hl'
    listed := fun l' hl' hsome => by
      rw [show (state.deleteCluster s c).createdBlobs.find l' = _ from find_outside_cluster _ l']
      by_cases hne : l'.segment = s ∧ l'.cluster = c
      · rw [View.blob_deleteCluster_of_mem hne] at hsome
        cases hsome
      · rw [if_neg hne]
        exact h.listed l' hl' (by rwa [hblob l' hne] at hsome)
    freshClusters := fun s' c' k hc' hk => by
      change ((state.createdClusters.erase (toLex (s, c))).find (toLex (s', c'))).isSome at hc'
      rw [FlatMap.find_erase] at hc'
      split_ifs at hc'
      · cases hc'
      · exact h.freshClusters s' c' k hc' hk
    deletedClusters := fun s' c' hc' => by
      change ((state.deletedClusters.insert (toLex (s, c)) ()).find (toLex (s', c'))).isSome at hc'
      by_cases hne : s' = s ∧ c' = c
      · rw [hne.1, hne.2]
        exact h.seen.exists_segment hn
      · have hkey : toLex (s', c') ≠ toLex (s, c) := fun heq => hne (by simpa using heq)
        rw [FlatMap.find_insert, if_neg hkey] at hc'
        exact h.deletedClusters s' c' hc'
    deletedBlobs := fun l' hl' => by
      rw [show (state.deleteCluster s c).deletedBlobs.find l' = _ from find_outside_cluster _ l'] at hl'
      split_ifs at hl' with hne
      · cases hl'
      · rw [hcluster _ _ hne]
        exact h.deletedBlobs l' hl'
    nextBlob := fun s' c' k k' hk hk' => by
      by_cases hne : s' = s ∧ c' = c
      · rw [hne.1, hne.2, hself] at hk'
        cases hk'
      · exact h.nextBlob s' c' k k' hk ((hcluster s' c' hne).symm.trans hk')
    -- a new cluster may be missing below the next free id, now that it was deleted
    newClusters := fun s' c' k hk hge hlt => by
      change _ ∨ ((state.deletedClusters.insert (toLex (s, c)) ()).find (toLex (s', c'))).isSome
      by_cases hne : s' = s ∧ c' = c
      · rw [hne.1, hne.2, FlatMap.find_insert, if_pos rfl]
        exact Or.inr rfl
      · have hkey : toLex (s', c') ≠ toLex (s, c) := fun heq => hne (by simpa using heq)
        rw [FlatMap.find_insert, if_neg hkey, hcluster s' c' hne]
        exact h.newClusters s' c' k hk hge hlt
    newBlobs := fun s' c' k hk₀ hk hlt => by
      have hne : ¬(s' = s ∧ c' = c) := fun ⟨h1, h2⟩ => by
        rw [h1, h2, hself] at hk
        cases hk
      rw [hblob ⟨s', c', 0⟩ hne, show (state.deleteCluster s c).deletedBlobs.find ⟨s', c', 0⟩ = _ from
        find_outside_cluster _ _, if_neg hne]
      exact h.newBlobs s' c' k hk₀ ((hcluster s' c' hne).symm.trans hk) hlt }

/-- A segment is deleted. -/
theorem deleteSegment (h : state.Tracks missed v₀ v) (hs : s ≤ maxSegmentId) (hn : v.segment s = some n) :
    (state.deleteSegment s).Tracks missed v₀ (v.deleteSegment s) := by
  have hself : (v.deleteSegment s).segment s = none := View.segment_deleteSegment_self
  have hsegment : ∀ s', s' ≠ s → (v.deleteSegment s).segment s' = v.segment s' := fun s' hne =>
    View.segment_deleteSegment_of_ne hne
  have hcluster : ∀ s' c', s' ≠ s → (v.deleteSegment s).cluster s' c' = v.cluster s' c' :=
    fun s' c' hne => View.cluster_deleteSegment_of_ne hne
  have hgone : ∀ c', (v.deleteSegment s).cluster s c' = none := fun c' =>
    View.cluster_deleteSegment_self
  have hblob : ∀ l', l'.segment ≠ s → (v.deleteSegment s).blob l' = v.blob l' := fun l' hne =>
    View.blob_deleteSegment_of_ne hne
  -- what is noted of the segment goes, what is noted of others stays
  exact {
    h with
    view := by rw [view_deleteSegment hs, h.view]
    seen := h.seen.deleteSegment
    written := fun l' hl' => by
      rw [show (state.deleteSegment s).writtenBlobs.find l' = _ from find_outside_segment _ l'] at hl'
      split_ifs at hl' with hne
      · cases hl'
      · exact (h.written l' hl').deleteSegment hne
    stored := fun l' hl' => by
      rw [show (state.deleteSegment s).writtenBlobs.find l' = _ from find_outside_segment _ l'] at hl'
      split_ifs at hl' with hne
      · cases hl'
      · exact h.stored l' hl'
    createdSegments := fun s' => by
      change ((state.createdSegments.erase s).find s').isSome ↔ _
      by_cases hne : s' = s
      · rw [hne, FlatMap.find_erase, if_pos rfl, hself]
        simp
      · rw [FlatMap.find_erase, if_neg hne, hsegment s' hne]
        exact h.createdSegments s'
    createdClusters := fun s' c' => by
      rw [show (state.deleteSegment s).createdClusters.find (toLex (s', c')) = _ from
        find_outside_clusters _ s' c']
      by_cases hne : s' = s
      · rw [hne, if_pos rfl, hgone]
        simp
      · rw [if_neg hne, hcluster s' c' hne]
        exact h.createdClusters s' c'
    createdBlobs := fun l' hl' => by
      rw [show (state.deleteSegment s).createdBlobs.find l' = _ from find_outside_segment _ l'] at hl'
      split_ifs at hl' with hne
      · cases hl'
      · rw [hblob l' hne]
        exact h.createdBlobs l' hl'
    listed := fun l' hl' hsome => by
      rw [show (state.deleteSegment s).createdBlobs.find l' = _ from find_outside_segment _ l']
      by_cases hne : l'.segment = s
      · rw [View.blob_deleteSegment_of_mem hne] at hsome
        cases hsome
      · rw [if_neg hne]
        exact h.listed l' hl' (by rwa [hblob l' hne] at hsome)
    freshSegments := fun s' hs' => by
      change ((state.createdSegments.erase s).find s').isSome at hs'
      rw [FlatMap.find_erase] at hs'
      split_ifs at hs'
      · cases hs'
      · exact h.freshSegments s' hs'
    freshClusters := fun s' c' k hc' hk => by
      rw [show (state.deleteSegment s).createdClusters.find (toLex (s', c')) = _ from
        find_outside_clusters _ s' c'] at hc'
      split_ifs at hc'
      · cases hc'
      · exact h.freshClusters s' c' k hc' hk
    deletedSegments := fun s' hs' => by
      change ((state.deletedSegments.insert s ()).find s').isSome at hs'
      by_cases hne : s' = s
      · rw [hne]
        exact (h.seen.segment s n hn).1
      · rw [FlatMap.find_insert, if_neg hne] at hs'
        exact h.deletedSegments s' hs'
    deletedClusters := fun s' c' hc' => by
      rw [show (state.deleteSegment s).deletedClusters.find (toLex (s', c')) = _ from
        find_outside_clusters _ s' c'] at hc'
      split_ifs at hc' with hne
      · cases hc'
      · rw [hsegment s' hne]
        exact h.deletedClusters s' c' hc'
    deletedBlobs := fun l' hl' => by
      rw [show (state.deleteSegment s).deletedBlobs.find l' = _ from find_outside_segment _ l'] at hl'
      split_ifs at hl' with hne
      · cases hl'
      · rw [hcluster _ _ hne]
        exact h.deletedBlobs l' hl'
    nextCluster := fun s' k k' hk hk' => by
      by_cases hne : s' = s
      · rw [hne, hself] at hk'
        cases hk'
      · exact h.nextCluster s' k k' hk ((hsegment s' hne).symm.trans hk')
    nextBlob := fun s' c' k k' hk hk' => by
      by_cases hne : s' = s
      · rw [hne, hgone] at hk'
        cases hk'
      · exact h.nextBlob s' c' k k' hk ((hcluster s' c' hne).symm.trans hk')
    newSegments := fun s' hge hlt => by
      change _ ∨ ((state.deletedSegments.insert s ()).find s').isSome
      by_cases hne : s' = s
      · rw [hne, FlatMap.find_insert, if_pos rfl]
        exact Or.inr rfl
      · rw [FlatMap.find_insert, if_neg hne, hsegment s' hne]
        exact h.newSegments s' hge hlt
    newClusters := fun s' c' k hk hge hlt => by
      have hne : s' ≠ s := fun heq => by
        rw [heq, hself] at hk
        cases hk
      rw [hcluster s' c' hne, show (state.deleteSegment s).deletedClusters.find (toLex (s', c')) = _ from
        find_outside_clusters _ s' c', if_neg hne]
      exact h.newClusters s' c' k ((hsegment s' hne).symm.trans hk) hge hlt
    newBlobs := fun s' c' k hk₀ hk hlt => by
      have hne : s' ≠ s := fun heq => by
        rw [heq, hgone] at hk
        cases hk
      rw [hblob ⟨s', c', 0⟩ hne, show (state.deleteSegment s).deletedBlobs.find ⟨s', c', 0⟩ = _ from
        find_outside_segment _ _, if_neg hne]
      exact h.newBlobs s' c' k hk₀ ((hcluster s' c' hne).symm.trans hk) hlt }

/-- At first nothing is noted. -/
theorem create (hv : v₀.WF) (stickyLocks : Option HeldLocks) :
    (DatabaseState.create stickyLocks).Tracks missed v₀ v₀ where
  view := by
    refine View.ext rfl (funext fun s => ?_) (funext₂ fun s c => ?_) (funext fun l => ?_)
    · cases hs : v₀.segment s with
      | none => simp [DatabaseState.view, DatabaseState.create, hs]
      | some n =>
        have hle := hv.segment_le hs
        simp [DatabaseState.view, DatabaseState.create, isSegmentDeleted, hs, hle]
    · cases hc : v₀.cluster s c with
      | none => simp [DatabaseState.view, DatabaseState.create, hc]
      | some n =>
        have hle := (hv.cluster_le hc).2
        simp [DatabaseState.view, DatabaseState.create, isClusterDeleted, isSegmentDeleted, hc, hle]
    · cases hb : v₀.blob l with
      | none => simp [DatabaseState.view, DatabaseState.create, hb]
      | some d =>
        have hle := (hv.blob_le hb).2.2
        simp [DatabaseState.view, DatabaseState.create, isBlobDeleted, isClusterDeleted,
          isSegmentDeleted, hb, hle]
  found := hv
  seen := hv
  written := fun _ h => by cases h
  stored := fun _ h => by cases h
  createdSegments := fun s => iff_of_false (by simp [DatabaseState.create]) fun ⟨h1, h2⟩ => by
    rw [h1] at h2
    cases h2
  createdClusters := fun s c => iff_of_false (by simp [DatabaseState.create]) fun ⟨h1, h2⟩ => by
    rw [h1] at h2
    cases h2
  createdBlobs := fun _ h => by cases h
  listed := fun l h h' => by
    rw [h] at h'
    cases h'
  freshSegments := fun _ h => by cases h
  freshClusters := fun _ _ _ h => by cases h
  deletedSegments := fun _ h => by cases h
  deletedClusters := fun _ _ h => by cases h
  deletedBlobs := fun _ h => by cases h
  nextSegment := le_rfl
  nextCluster := fun s n n' h h' => (Option.some.inj (h.symm.trans h')).le
  nextBlob := fun s c n n' h h' => (Option.some.inj (h.symm.trans h')).le
  newSegments := fun s h h' => absurd (lt_of_le_of_lt h h') (lt_irrefl _)
  newClusters := fun s c n hn h h' => by
    rw [hn] at h
    exact absurd (lt_of_le_of_lt h h') (lt_irrefl _)
  newBlobs := fun s c n h h' _ => by
    rw [h] at h'
    cases h'

end Tracks

end DatabaseState

end ClientLib

end BlobsDb
