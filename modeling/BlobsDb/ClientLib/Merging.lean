import BlobsDb.ClientLib.Accessing

/-!
# Lists of what is seen

The lists of ids that a client gets are those of the server, without what it deleted and with what it
created in its transaction. They are ascending (`mergeBlobIdList_spec`) and have the ids of what is
seen in them (`Tracks.mem_mergeBlobIdList`), but for the blobs that are missed.
-/

namespace BlobsDb

namespace ClientLib

variable {μ : Type} {t : DbTree μ 3} {state : DatabaseState} {v₀ v : View} {s : SegmentId}
  {c : ClusterId} {b : BlobId} {data : List UInt8} {missed : BlobLocation → Prop}

theorem lt_of_location_lt {b b' : BlobId} (h : (⟨s, c, b⟩ : BlobLocation) < ⟨s, c, b'⟩) : b < b' := by
  rw [← not_le, BlobLocation.le_iff_position] at h
  simp only [BlobLocation.position] at h
  rw [UInt32.lt_iff_toNat_lt]
  omega

namespace DatabaseState

/-! ### Created blobs -/

theorem fst_insertCreated (ids created : List BlobId) (needsSort : Bool) :
    (insertCreated ids needsSort created).1 = ids ++ created := by
  induction created generalizing ids needsSort with
  | nil => exact (List.append_nil ids).symm
  | cons b created ih => rw [insertCreated, ih, List.append_assoc, List.singleton_append]

theorem snd_insertCreated_true (ids created : List BlobId) :
    (insertCreated ids true created).2 = true := by
  induction created generalizing ids with
  | nil => rfl
  | cons b created ih => rw [insertCreated, Bool.true_or, ih]

theorem le_getLast {ids : List BlobId} (hids : ids.Pairwise (· < ·)) {last : BlobId}
    (hlast : ids.getLast? = some last) : ∀ b ∈ ids, b ≤ last := fun b hb => by
  obtain ⟨init, rfl⟩ := List.getLast?_eq_some_iff.mp hlast
  rcases List.mem_append.mp hb with hb | hb
  · exact ((List.pairwise_append.mp hids).2.2 b hb last (List.mem_singleton_self last)).le
  · exact (List.mem_singleton.mp hb).le

/-- Nothing needs to be sorted if each created blob is above the last one before it. -/
theorem pairwise_of_snd_insertCreated {ids created : List BlobId} {needsSort : Bool}
    (hids : ids.Pairwise (· < ·)) (hnodup : (ids ++ created).Nodup)
    (h : (insertCreated ids needsSort created).2 = false) : (ids ++ created).Pairwise (· < ·) := by
  induction created generalizing ids needsSort with
  | nil => rwa [List.append_nil]
  | cons b created ih =>
    rw [insertCreated] at h
    have hlast : (needsSort || ids.getLast?.any fun last => decide (b < last)) = false := by
      by_contra hcon
      rw [Bool.eq_true_of_not_eq_false hcon, snd_insertCreated_true] at h
      cases h
    rw [hlast] at h
    have hle := (Bool.or_eq_false_iff.mp hlast).2
    have heq : ids ++ b :: created = (ids ++ [b]) ++ created := by
      rw [List.append_assoc, List.singleton_append]
    rw [heq] at hnodup ⊢
    refine ih (List.pairwise_append.mpr ⟨hids, List.pairwise_singleton _ _, fun b' hb' b'' hb'' => ?_⟩)
      hnodup h
    obtain rfl := List.mem_singleton.mp hb''
    have hne : b' ≠ b'' := fun hcon => by
      rw [List.append_assoc, List.singleton_append] at hnodup
      exact (List.nodup_append.mp hnodup).2.2 b' hb' b'' List.mem_cons_self hcon
    cases hlast' : ids.getLast? with
    | none =>
      rw [List.getLast?_eq_none_iff.mp hlast'] at hb'
      cases hb'
    | some last =>
      rw [hlast', Option.any_some, decide_eq_false_iff_not, not_lt] at hle
      exact lt_of_le_of_ne ((le_getLast hids hlast' b' hb').trans hle) hne

/-! ### Lists of blobs -/

/-- The blobs of a cluster that were created. -/
def createdIn (state : DatabaseState) (s : SegmentId) (c : ClusterId) : List BlobId :=
  (state.createdBlobs.keys.filter (between ⟨s, c, 0⟩ ⟨s, c, 0xffffffff⟩)).map BlobLocation.blob

theorem mem_createdIn : b ∈ state.createdIn s c ↔ (state.createdBlobs.find ⟨s, c, b⟩).isSome := by
  rw [createdIn, List.mem_map]
  constructor
  · rintro ⟨l, hl, rfl⟩
    obtain ⟨hkey, hbetween⟩ := List.mem_filter.mp hl
    obtain ⟨rfl, rfl⟩ := between_cluster.mp hbetween
    exact FlatMap.mem_keys.mp hkey
  · exact fun h => ⟨⟨s, c, b⟩, List.mem_filter.mpr
      ⟨FlatMap.mem_keys.mpr h, between_cluster.mpr ⟨rfl, rfl⟩⟩, rfl⟩

theorem pairwise_createdIn : (state.createdIn s c).Pairwise (· < ·) := by
  have hkeys : state.createdBlobs.keys.Pairwise (· < ·) := by
    rw [FlatMap.keys, List.pairwise_map]
    exact state.createdBlobs.sorted
  rw [createdIn, List.pairwise_map]
  refine (hkeys.filter _).imp_of_mem fun {l l'} hl hl' hlt => ?_
  obtain ⟨hs, hc⟩ := between_cluster.mp (List.mem_filter.mp hl).2
  obtain ⟨hs', hc'⟩ := between_cluster.mp (List.mem_filter.mp hl').2
  obtain ⟨s₁, c₁, b₁⟩ := l
  obtain ⟨s₂, c₂, b₂⟩ := l'
  subst hs hc hs' hc'
  exact lt_of_location_lt hlt

/-- The merged list of the blobs that are left and those that were created. -/
theorem mergeBlobIdList_spec {ids : List BlobId} (hids : ids.Pairwise (· < ·))
    (hnew : ∀ b ∈ ids, (state.createdBlobs.find ⟨s, c, b⟩).isSome = false) :
    (state.mergeBlobIdList s c ids).Pairwise (· < ·) ∧
      ∀ b, b ∈ state.mergeBlobIdList s c ids ↔
        b ∈ ids ∧ state.deletedBlobs.find ⟨s, c, b⟩ = none ∨
          (state.createdBlobs.find ⟨s, c, b⟩).isSome := by
  have hleft : (ids.filter fun b => (state.deletedBlobs.find ⟨s, c, b⟩).isNone).Pairwise (· < ·) :=
    hids.filter _
  have hnodup : (ids.filter (fun b => (state.deletedBlobs.find ⟨s, c, b⟩).isNone) ++
      state.createdIn s c).Nodup := by
    refine List.nodup_append.mpr ⟨hleft.imp ne_of_lt, pairwise_createdIn.imp ne_of_lt, ?_⟩
    rintro b hb b' hb' rfl
    have hnone := hnew b (List.mem_filter.mp hb).1
    rw [mem_createdIn.mp hb'] at hnone
    cases hnone
  have hmem : ∀ b, b ∈ ids.filter (fun b => (state.deletedBlobs.find ⟨s, c, b⟩).isNone) ++
      state.createdIn s c ↔ b ∈ ids ∧ state.deletedBlobs.find ⟨s, c, b⟩ = none ∨
        (state.createdBlobs.find ⟨s, c, b⟩).isSome := fun b => by
    rw [List.mem_append, List.mem_filter, mem_createdIn, Option.isNone_iff_eq_none]
  have hmerge : state.mergeBlobIdList s c ids =
      if (insertCreated (ids.filter fun b => (state.deletedBlobs.find ⟨s, c, b⟩).isNone) false
        (state.createdIn s c)).2 then (insertCreated (ids.filter fun b =>
          (state.deletedBlobs.find ⟨s, c, b⟩).isNone) false
            (state.createdIn s c)).1.insertionSort (· ≤ ·)
      else (insertCreated (ids.filter fun b => (state.deletedBlobs.find ⟨s, c, b⟩).isNone) false
        (state.createdIn s c)).1 := rfl
  rw [fst_insertCreated] at hmerge
  rw [hmerge]
  split_ifs with hsort
  · refine ⟨?_, fun b => ?_⟩
    · have hsorted := List.pairwise_insertionSort (· ≤ ·)
        (ids.filter (fun b => (state.deletedBlobs.find ⟨s, c, b⟩).isNone) ++ state.createdIn s c)
      exact hsorted.imp₂ (fun _ _ hle hne => lt_of_le_of_ne hle hne)
        ((List.perm_insertionSort (· ≤ ·) _).nodup_iff.mpr hnodup)
    · rw [List.mem_insertionSort, hmem]
  · exact ⟨pairwise_of_snd_insertCreated hleft hnodup (Bool.eq_false_iff.mpr hsort), hmem⟩

/-- The list of the blobs that are seen. -/
theorem Tracks.mem_mergeBlobIdList (h : state.Tracks missed v₀ v)
    {ids : List BlobId} (hlive : ids ≠ [] → state.isClusterDeleted s c = false)
    (hids : ids.Pairwise (· < ·)) (hmem : ∀ b, b ∈ ids ↔ (v₀.blob ⟨s, c, b⟩).isSome) :
    (state.mergeBlobIdList s c ids).Pairwise (· < ·) ∧
      (∀ b ∈ state.mergeBlobIdList s c ids, (v.blob ⟨s, c, b⟩).isSome) ∧
      ∀ b, (v.blob ⟨s, c, b⟩).isSome → b ∈ state.mergeBlobIdList s c ids ∨
        v₀.blob ⟨s, c, b⟩ = none ∧ missed ⟨s, c, b⟩ := by
  have hnew : ∀ b ∈ ids, (state.createdBlobs.find ⟨s, c, b⟩).isSome = false := fun b hb => by
    rw [Bool.eq_false_iff]
    intro hcreated
    have hsome := (hmem b).mp hb
    rw [(h.createdBlobs _ hcreated).1] at hsome
    cases hsome
  obtain ⟨hsorted, hmerged⟩ := mergeBlobIdList_spec hids hnew
  refine ⟨hsorted, fun b hb => ?_, fun b hb => ?_⟩
  · rcases (hmerged b).mp hb with ⟨hb, hdeleted⟩ | hb
    · refine h.isSome_blob ((hmem b).mp hb) ?_
      rw [isBlobDeleted, hlive (List.ne_nil_of_mem hb), hdeleted]
      rfl
    · exact (h.createdBlobs _ hb).2
  · rw [hmerged, hmem]
    cases hfound : v₀.blob ⟨s, c, b⟩ with
    | none => exact (h.listed _ hfound hb).imp Or.inr fun hmissed => ⟨rfl, hmissed⟩
    | some d =>
      have hdeleted := (live_of_blob (v := v₀) (h.view ▸ hb)).2
      refine Or.inl (Or.inl ⟨rfl, ?_⟩)
      exact Option.not_isSome_iff_eq_none.mp
        (Bool.eq_false_iff.mp (isBlobDeleted_eq_false_iff.mp hdeleted).2)

/-! ### Lists of clusters and segments -/

/-- The clusters of a segment that were created. -/
def createdClustersIn (state : DatabaseState) (s : SegmentId) : List ClusterId :=
  (state.createdClusters.keys.filter fun k =>
    toLex (s, 0) ≤ k && k ≤ toLex (s, 0xffffffff)).map fun k => (ofLex k).2

theorem clusters_range_iff (k : SegmentId ×ₗ ClusterId) :
    (decide (toLex (s, 0) ≤ k) && decide (k ≤ toLex (s, 0xffffffff))) = true ↔ (ofLex k).1 = s := by
  have hlt := (ofLex k).2.toNat_lt
  rw [← Bool.decide_and, decide_eq_true_iff, ← toLex_ofLex k, ← Prod.mk.eta (p := ofLex k),
    Prod.Lex.toLex_le_toLex, Prod.Lex.toLex_le_toLex]
  simp only [UInt32.lt_iff_toNat_lt, UInt32.le_iff_toNat_le, ← UInt32.toNat_inj,
    UInt32.toNat_zero, show (0xffffffff : UInt32).toNat = 4294967295 by decide, ofLex_toLex]
  omega

theorem mem_createdClustersIn : c ∈ state.createdClustersIn s ↔
    (state.createdClusters.find (toLex (s, c))).isSome := by
  rw [createdClustersIn, List.mem_map]
  constructor
  · rintro ⟨k, hk, rfl⟩
    obtain ⟨hkey, hs⟩ := List.mem_filter.mp hk
    obtain rfl := (clusters_range_iff k).mp hs
    exact FlatMap.mem_keys.mp hkey
  · exact fun h => ⟨toLex (s, c), List.mem_filter.mpr
      ⟨FlatMap.mem_keys.mpr h, (clusters_range_iff _).mpr rfl⟩, rfl⟩

theorem pairwise_createdClustersIn : (state.createdClustersIn s).Pairwise (· < ·) := by
  have hkeys : state.createdClusters.keys.Pairwise (· < ·) := by
    rw [FlatMap.keys, List.pairwise_map]
    exact state.createdClusters.sorted
  rw [createdClustersIn, List.pairwise_map]
  refine (hkeys.filter _).imp_of_mem fun {k k'} hk hk' hlt => ?_
  have hs := (clusters_range_iff k).mp (List.mem_filter.mp hk).2
  have hs' := (clusters_range_iff k').mp (List.mem_filter.mp hk').2
  refine ((Prod.Lex.lt_iff.mp hlt).resolve_left fun hcon => ?_).2
  rw [hs, hs'] at hcon
  exact lt_irrefl s hcon

/-- The list of the clusters that are seen. -/
theorem Tracks.mem_mergeClusterIdList (h : state.Tracks missed v₀ v)
    (hlive : state.isSegmentDeleted s = false) {ids : List ClusterId} (hids : ids.Pairwise (· < ·))
    (hmem : ∀ c, c ∈ ids ↔ (v₀.cluster s c).isSome) :
    (state.mergeClusterIdList s ids).Pairwise (· < ·) ∧
      ∀ c, c ∈ state.mergeClusterIdList s ids ↔ (v.cluster s c).isSome := by
  have hmerge : state.mergeClusterIdList s ids =
      (ids.filter fun c => (state.deletedClusters.find (toLex (s, c))).isNone) ++
        state.createdClustersIn s := rfl
  have hdeleted : ∀ c, (state.deletedClusters.find (toLex (s, c))).isNone = true ↔
      state.isClusterDeleted s c = false := fun c => by
    rw [isClusterDeleted, hlive, Bool.false_or, Bool.eq_false_iff, Option.isNone_iff_eq_none]
    exact Option.not_isSome_iff_eq_none.symm
  refine ⟨?_, fun c => ?_⟩
  · rw [hmerge]
    refine List.pairwise_append.mpr ⟨hids.filter _, pairwise_createdClustersIn, fun c hc c' hc' => ?_⟩
    obtain ⟨n, hn⟩ := Option.isSome_iff_exists.mp ((hmem c).mp (List.mem_filter.mp hc).1)
    obtain ⟨k, hk, hlt⟩ := h.found.exists_segment hn
    exact lt_of_lt_of_le hlt (h.freshClusters s c' k (mem_createdClustersIn.mp hc') hk)
  · rw [hmerge, List.mem_append, List.mem_filter, hmem, hdeleted, mem_createdClustersIn,
      h.createdClusters]
    refine ⟨fun hc => hc.elim (fun hc => h.isSome_cluster hc.1 hc.2) And.right, fun hc => ?_⟩
    cases hfound : v₀.cluster s c with
    | none => exact Or.inr ⟨rfl, hc⟩
    | some n => exact Or.inl ⟨rfl, (DatabaseState.live_of_cluster (v := v₀) (h.view ▸ hc)).2⟩

/-- The list of the segments that are seen. -/
theorem Tracks.mem_mergeSegmentIdList (h : state.Tracks missed v₀ v) {ids : List SegmentId}
    (hids : ids.Pairwise (· < ·)) (hmem : ∀ s, s ∈ ids ↔ (v₀.segment s).isSome) :
    (state.mergeSegmentIdList ids).Pairwise (· < ·) ∧
      ∀ s, s ∈ state.mergeSegmentIdList ids ↔ (v.segment s).isSome := by
  have hdeleted : ∀ s, (state.deletedSegments.find s).isNone = true ↔
      state.isSegmentDeleted s = false := fun s => by
    rw [isSegmentDeleted, Bool.eq_false_iff, Option.isNone_iff_eq_none]
    exact Option.not_isSome_iff_eq_none.symm
  have hkeys : state.createdSegments.keys.Pairwise (· < ·) := by
    rw [FlatMap.keys, List.pairwise_map]
    exact state.createdSegments.sorted
  refine ⟨?_, fun s => ?_⟩
  · refine List.pairwise_append.mpr ⟨hids.filter _, hkeys, fun s hs s' hs' => ?_⟩
    obtain ⟨n, hn⟩ := Option.isSome_iff_exists.mp ((hmem s).mp (List.mem_filter.mp hs).1)
    exact lt_of_lt_of_le (h.found.segment s n hn).1 (h.freshSegments s' (FlatMap.mem_keys.mp hs'))
  · rw [mergeSegmentIdList, List.mem_append, List.mem_filter, hmem, hdeleted, FlatMap.mem_keys,
      h.createdSegments]
    refine ⟨fun hs => hs.elim (fun hs => h.isSome_segment hs.1 hs.2) And.right, fun hs => ?_⟩
    cases hfound : v₀.segment s with
    | none => exact Or.inr ⟨rfl, hs⟩
    | some n => exact Or.inl ⟨rfl, (DatabaseState.live_of_segment (v := v₀) (h.view ▸ hs)).2⟩

end DatabaseState

/-- In an ascending list the first id that is not below another one is this one, if it is there. -/
theorem find?_eq_some_of_mem {ids : List UInt32} {id : UInt32} (hids : ids.Pairwise (· < ·))
    (h : id ∈ ids) : ids.find? (id ≤ ·) = some id := by
  induction ids with
  | nil => cases h
  | cons i ids ih =>
    obtain ⟨hfirst, hrest⟩ := List.pairwise_cons.mp hids
    rcases List.mem_cons.mp h with rfl | h
    · rw [List.find?_cons_of_pos (by simp)]
    · rw [List.find?_cons_of_neg (by simpa using hfirst id h)]
      exact ih hrest h

/-! ### Lists of the server -/

/-- The ids in a list of the server. -/
theorem idsOfRanges_keys {n : ℕ} {x : DbTree μ (n + 1)} {data : List UInt8}
    (hle : ∀ id, (x.children.find id).isSome → id ≤ maxBlobId)
    (hdata : idListContent x.children.keys = data) :
    (idsOfRanges data).Pairwise (· < ·) ∧
      ∀ id, id ∈ idsOfRanges data ↔ (x.children.find id).isSome := by
  have hkeys : x.children.keys.Pairwise (· < ·) := by
    rw [FlatMap.keys, List.pairwise_map]
    exact x.children.sorted
  rw [← hdata, (idsOfRanges_idListContent (Or.inr (Or.inr rfl)) hkeys fun id hid =>
    hle id (FlatMap.mem_keys.mp hid)).1]
  exact ⟨hkeys, fun id => FlatMap.mem_keys⟩

theorem blobs_of_content (h : (View.of t).WF) (hc : c ≤ maxClusterId)
    (hdata : t.content ⟨s, c, blobListId⟩ = some data) : (idsOfRanges data).Pairwise (· < ·) ∧
      ∀ b, b ∈ idsOfRanges data ↔ ((View.of t).blob ⟨s, c, b⟩).isSome := by
  rw [DbTree.content_blobList hc] at hdata
  obtain ⟨C, hC, hdata⟩ := Option.map_eq_some_iff.mp hdata
  have hblob : ∀ b, ((View.of t).blob ⟨s, c, b⟩).isSome ↔ (C.children.find b).isSome := fun b => by
    simp [View.of, hC]
  obtain ⟨hsorted, hmem⟩ := idsOfRanges_keys (fun b hb => by
    obtain ⟨d, hd⟩ := Option.isSome_iff_exists.mp ((hblob b).mpr hb)
    exact (h.blob_le hd).2.2) hdata
  exact ⟨hsorted, fun b => (hmem b).trans (hblob b).symm⟩

theorem clusters_of_content (h : (View.of t).WF) (hs : s ≤ maxSegmentId)
    (hdata : t.content ⟨s, clusterListId, blobListId⟩ = some data) :
    (idsOfRanges data).Pairwise (· < ·) ∧
      ∀ c, c ∈ idsOfRanges data ↔ ((View.of t).cluster s c).isSome := by
  rw [DbTree.content_clusterList hs] at hdata
  obtain ⟨S, hS, hdata⟩ := Option.map_eq_some_iff.mp hdata
  have hcluster : ∀ c, ((View.of t).cluster s c).isSome ↔ (S.children.find c).isSome := fun c => by
    simp [View.of, DbTree.getCluster, hS]
  obtain ⟨hsorted, hmem⟩ := idsOfRanges_keys (fun c hc => by
    obtain ⟨n, hn⟩ := Option.isSome_iff_exists.mp ((hcluster c).mpr hc)
    exact (h.cluster_le hn).2) hdata
  exact ⟨hsorted, fun c => (hmem c).trans (hcluster c).symm⟩

theorem segments_of_content (h : (View.of t).WF)
    (hdata : t.content ⟨segmentListId, clusterListId, blobListId⟩ = some data) :
    (idsOfRanges data).Pairwise (· < ·) ∧
      ∀ s, s ∈ idsOfRanges data ↔ ((View.of t).segment s).isSome := by
  rw [DbTree.content_segmentList] at hdata
  have hsegment : ∀ s, ((View.of t).segment s).isSome ↔ (t.children.find s).isSome := fun s => by
    simp [View.of, DbTree.getSegment]
  obtain ⟨hsorted, hmem⟩ := idsOfRanges_keys (fun s hs => by
    obtain ⟨n, hn⟩ := Option.isSome_iff_exists.mp ((hsegment s).mpr hs)
    exact h.segment_le hn) (Option.some.inj hdata)
  exact ⟨hsorted, fun s => (hmem s).trans (hsegment s).symm⟩

end ClientLib

end BlobsDb
