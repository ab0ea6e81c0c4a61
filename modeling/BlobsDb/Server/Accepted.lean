import BlobsDb.Server.Ledger

/-!
# Commits that are accepted

A commit is in range if it uses the ids that clients give to segments, clusters and blobs, and the
reserved ids as they are meant. Step by step, the entries of a commit in range that clash with none
of the entries before them are `Allowed` when they pass validation, the client owns what they
delete, and what they copy is loaded (`Ledger.validateBlob`). `Ledger` is what holds between the
steps: what is noted is exactly what the entries so far create.
-/

namespace BlobsDb

open DbTree (SegmentCreated ClusterCreated HasCluster Allowed BelowNextFree HasLocation)

/-- The entry is one a client library writes: its ids are not above the maximal ones, or they stand
for a next free id or for a deletion. -/
def BlobData.InRange (u : BlobData) : Prop :=
  u.WritesNextSegment ∨ u.segment ≤ maxSegmentId ∧
    (u.cluster = nextFreeClusterId ∨ u.cluster = segmentDeleteId ∨ u.cluster ≤ maxClusterId ∧
      (u.blob = nextFreeBlobId ∨ u.blob = clusterDeleteId ∨ u.blob ≤ maxBlobId))

instance (u : BlobData) : Decidable u.InRange :=
  inferInstanceAs (Decidable (u.segment = nextFreeSegmentId ∨ u.segment ≤ maxSegmentId ∧
    (u.cluster = nextFreeClusterId ∨ u.cluster = segmentDeleteId ∨ u.cluster ≤ maxClusterId ∧
      (u.blob = nextFreeBlobId ∨ u.blob = clusterDeleteId ∨ u.blob ≤ maxBlobId))))

/-- The ids of blobs are in their range. -/
theorem DbTree.BelowNextFree.blob_le {μ : Type} {c : DbTree μ 1} (hc : BelowNextFree c)
    {b : BlobId} {x : DbTree μ 0} (hx : c.children.find b = some x) : b ≤ maxBlobId := by
  have hlt := lt_of_lt_of_le (hc.2 b x hx).1 hc.1
  rw [UInt32.lt_iff_toNat_lt, toNat_add_one (le_refl _)] at hlt
  exact UInt32.le_iff_toNat_le.mpr (Nat.le_of_lt_succ hlt)

/-! ### What a deletion locks -/

section

variable {μ : Type} {t : DbTree μ 3} {s : SegmentId} {c : ClusterId} {l l' : BlobLocation}
  {ls : List BlobLocation}

/-- A location is among its own locks. -/
theorem self_mem_forEachLockForLocation (h : forEachLockForLocation t l = some ls) : l ∈ ls := by
  unfold forEachLockForLocation at h
  split_ifs at h
  · obtain ⟨s, -, rfl⟩ := Option.map_eq_some_iff.mp h
    exact List.mem_cons_self
  · obtain ⟨c, -, rfl⟩ := Option.map_eq_some_iff.mp h
    exact List.mem_cons_self
  · obtain rfl := Option.some.inj h
    exact List.mem_cons_self
  · obtain rfl := Option.some.inj h
    exact List.mem_cons_self
  · obtain rfl := Option.some.inj h
    exact List.mem_cons_self
  · obtain rfl := Option.some.inj h
    exact List.mem_cons_self

/-- The locations of a cluster. -/
theorem mem_of_hasLocation_cluster (hl : HasLocation t l) (hc : l.cluster ≤ maxClusterId)
    (hs : l.segment ≤ maxSegmentId) : ∃ x, t.getCluster l.segment l.cluster = some x ∧
      l ∈ (⟨l.segment, l.cluster, clusterDeleteId⟩ : BlobLocation) ::
        clusterLocations l.segment l.cluster x := by
  cases hl with
  | nextFreeSegmentId => exact absurd hs (by decide)
  | segmentList => exact absurd hs (by decide)
  | nextFreeClusterId => exact absurd hc (show ¬nextFreeClusterId ≤ maxClusterId by decide)
  | segmentDelete => exact absurd hc (show ¬segmentDeleteId ≤ maxClusterId by decide)
  | clusterList => exact absurd hc (show ¬clusterListId ≤ maxClusterId by decide)
  | nextFreeBlobId hx =>
    obtain ⟨x, hx⟩ := Option.isSome_iff_exists.mp hx
    exact ⟨x, hx, by simp [clusterLocations]⟩
  | clusterDelete hx =>
    obtain ⟨x, hx⟩ := Option.isSome_iff_exists.mp hx
    exact ⟨x, hx, by simp⟩
  | blobList hx =>
    obtain ⟨x, hx⟩ := Option.isSome_iff_exists.mp hx
    exact ⟨x, hx, by simp [clusterLocations]⟩
  | @blob _ _ b x hx hb =>
    refine ⟨x, hx, ?_⟩
    simp only [clusterLocations, List.mem_cons, List.mem_map]
    exact Or.inr (Or.inr (Or.inr ⟨b, FlatMap.mem_keys.mpr hb, rfl⟩))

/-- A client that deletes a cluster locks all locations in it. -/
theorem mem_forEachLockForLocation_cluster (h : forEachLockForLocation t l' = some ls)
    (hdel : l'.blob = clusterDeleteId) (hseg : l'.cluster ≠ segmentDeleteId)
    (hl : HasLocation t l) (hs : l.segment ≤ maxSegmentId) (hc : l.cluster ≤ maxClusterId)
    (heqs : l'.segment = l.segment) (heqc : l'.cluster = l.cluster) : l ∈ ls := by
  obtain ⟨x, hx, hmem⟩ := mem_of_hasLocation_cluster hl hc hs
  rw [forEachLockForLocation, if_pos hdel, if_neg hseg, heqs, heqc, hx] at h
  obtain rfl := Option.some.inj h
  have hself : l' = ⟨l.segment, l.cluster, clusterDeleteId⟩ := by
    cases l'
    simp_all
  simp only [clusterLocations, List.mem_cons] at hmem ⊢
  rw [hself]
  tauto

/-- A client that deletes a segment locks all locations in it. -/
theorem mem_forEachLockForLocation_segment (ht : BelowNextFree t)
    (h : forEachLockForLocation t l' = some ls) (hdel : l'.blob = clusterDeleteId)
    (hseg : l'.cluster = segmentDeleteId) (hl : HasLocation t l) (hs : l.segment ≤ maxSegmentId)
    (heq : l'.segment = l.segment) : l ∈ ls := by
  have hself : l' = ⟨l.segment, segmentDeleteId, clusterDeleteId⟩ := by
    cases l'
    simp_all
  rw [forEachLockForLocation, if_pos hdel, if_pos hseg] at h
  obtain ⟨seg, hsome, rfl⟩ := Option.map_eq_some_iff.mp h
  by_cases hc : l.cluster ≤ maxClusterId
  · obtain ⟨x, hx, hmem⟩ := mem_of_hasLocation_cluster hl hc hs
    obtain ⟨seg', hseg', hfind⟩ := DbTree.getCluster_eq_some_iff.mp hx
    rw [heq, hseg'] at hsome
    obtain rfl := Option.some.inj hsome
    simp only [List.mem_cons, List.mem_flatMap]
    refine Or.inr (Or.inr (Or.inr (Or.inr ⟨(l.cluster, x), FlatMap.find_eq_some_iff.mp hfind, ?_⟩)))
    rw [heq]
    exact List.mem_cons.mp hmem
  · have hnone : (t.getCluster l.segment l.cluster).isSome → False := fun hx =>
      hc (ht.cluster_le hx)
    rw [hself]
    cases hl with
    | nextFreeSegmentId => exact absurd hs (by decide)
    | segmentList => exact absurd hs (by decide)
    | nextFreeClusterId => simp
    | segmentDelete => simp
    | clusterList => simp
    | nextFreeBlobId hx => exact (hnone hx).elim
    | clusterDelete hx => exact (hnone hx).elim
    | blobList hx => exact (hnone hx).elim
    | blob hx _ => exact (hnone (Option.isSome_iff_exists.mpr ⟨_, hx⟩)).elim

/-- What is locked in another state of the tree, and exists in this one, is locked in this one. -/
theorem mem_forEachLockForLocation_of_hasLocation {t' : DbTree μ 3} {ls' : List BlobLocation}
    (ht : BelowNextFree t) (h : forEachLockForLocation t l' = some ls)
    (h' : forEachLockForLocation t' l' = some ls') (hmem : l ∈ ls') (hl : HasLocation t l) :
    l ∈ ls := by
  by_cases hdel : l'.blob = clusterDeleteId
  swap
  · -- the tree does not matter
    rw [forEachLockForLocation, if_neg hdel] at h h'
    exact Option.some.inj (h.symm.trans h') ▸ hmem
  by_cases hseg : l'.cluster = segmentDeleteId
  · have hs : l'.segment ≤ maxSegmentId := by
      rw [forEachLockForLocation, if_pos hdel, if_pos hseg] at h
      obtain ⟨x, hx, -⟩ := Option.map_eq_some_iff.mp h
      exact ht.segment_le (by rw [hx]; rfl)
    have hcases : l.segment = l'.segment ∨ l = ⟨segmentListId, clusterListId, blobListId⟩ := by
      rw [forEachLockForLocation, if_pos hdel, if_pos hseg] at h'
      obtain ⟨x, -, rfl⟩ := Option.map_eq_some_iff.mp h'
      simp only [List.mem_cons, List.mem_flatMap, clusterLocations, List.mem_map] at hmem
      rcases hmem with rfl | rfl | rfl | rfl | ⟨e, -, rfl | rfl | rfl | ⟨_, -, rfl⟩⟩ <;> simp
    rcases hcases with heq | rfl
    · exact mem_forEachLockForLocation_segment ht h hdel hseg hl (heq ▸ hs) heq.symm
    · rw [forEachLockForLocation, if_pos hdel, if_pos hseg] at h
      obtain ⟨x, -, rfl⟩ := Option.map_eq_some_iff.mp h
      simp
  · have hc : l'.segment ≤ maxSegmentId ∧ l'.cluster ≤ maxClusterId := by
      rw [forEachLockForLocation, if_pos hdel, if_neg hseg] at h
      obtain ⟨x, hx, -⟩ := Option.map_eq_some_iff.mp h
      obtain ⟨seg, hsome, -⟩ := DbTree.getCluster_eq_some_iff.mp hx
      exact ⟨ht.segment_le (by rw [hsome]; rfl), ht.cluster_le (by rw [hx]; rfl)⟩
    have hcases : l.segment = l'.segment ∧ l.cluster = l'.cluster ∨
        l = ⟨l'.segment, clusterListId, blobListId⟩ := by
      rw [forEachLockForLocation, if_pos hdel, if_neg hseg] at h'
      obtain ⟨x, -, rfl⟩ := Option.map_eq_some_iff.mp h'
      simp only [List.mem_cons, List.mem_map] at hmem
      rcases hmem with rfl | rfl | rfl | rfl | ⟨_, -, rfl⟩ <;> simp
    rcases hcases with ⟨heqs, heqc⟩ | rfl
    · exact mem_forEachLockForLocation_cluster h hdel hseg hl (heqs ▸ hc.1) (heqc ▸ hc.2) heqs.symm
        heqc.symm
    · rw [forEachLockForLocation, if_pos hdel, if_neg hseg] at h
      obtain ⟨x, -, rfl⟩ := Option.map_eq_some_iff.mp h
      simp

/-- A location of the database that the message locks in another tree is locked in this one too. -/
theorem mem_forEachLockInMessage_of_hasLocation {t' : DbTree μ 3} {ls' : List BlobLocation}
    {as : List BlobAddress} (ht : BelowNextFree t) (h : forEachLockInMessage t as = some ls)
    (h' : forEachLockInMessage t' as = some ls') (hmem : l ∈ ls') (hl : HasLocation t l) :
    l ∈ ls := by
  induction as generalizing ls ls' with
  | nil =>
    obtain rfl := Option.some.inj h'
    exact absurd hmem List.not_mem_nil
  | cons a as ih =>
    rw [forEachLockInMessage] at h h'
    split at h
    · next ls₁ ls₂ h₁ h₂ =>
      obtain rfl := Option.some.inj h
      split at h'
      · next ls₁' ls₂' h₁' h₂' =>
        obtain rfl := Option.some.inj h'
        rcases List.mem_append.mp hmem with hmem | hmem
        · exact List.mem_append_left _ (mem_forEachLockForLocation_of_hasLocation ht h₁ h₁' hmem hl)
        · exact List.mem_append_right _ (ih h₂ h₂' hmem)
      · cases h'
    · cases h

end

/-! ### What the ranges tell -/

namespace BlobCreationRanges

variable {t : Tree 3} {us : List BlobData} {S : BlobLocation → Prop} {b : BlobCreationRanges}
  {s : SegmentId} {c : ClusterId} {l : BlobLocation}

/-- A cluster is created if a range for it says so. -/
theorem encompassesCreatedCluster_iff : b.encompassesCreatedCluster s c = true ↔
    ∃ r ∈ b.ranges, r.first.segment = s ∧ r.first.cluster = c ∧ r.isCreatedCluster = true := by
  simp only [encompassesCreatedCluster, List.any_eq_true, Bool.and_eq_true, decide_eq_true_eq,
    and_assoc]

/-- A segment is created if a range for it says so. -/
theorem encompassesCreatedSegment_iff : b.encompassesCreatedSegment s = true ↔
    ∃ r ∈ b.ranges, r.first.segment = s ∧ r.isCreatedSegment = true := by
  simp only [encompassesCreatedSegment, List.any_eq_true, Bool.and_eq_true, decide_eq_true_eq]

/-- Only a created cluster is noted as one. -/
theorem Sound.clusterCreated (h : Sound t us S b)
    (hb : b.encompassesCreatedCluster s c = true) : ClusterCreated t us s c := by
  obtain ⟨r, hr, rfl, rfl, hcluster⟩ := encompassesCreatedCluster_iff.mp hb
  rw [BlobLocationRange.isCreatedCluster, decide_eq_true_eq] at hcluster
  cases h.kinds r hr with
  | segment => exact absurd hcluster (show ¬(0 : UInt32) = maxClusterId + 1 + 1 by decide)
  | cluster _ hcreated => exact hcreated
  | blobs => exact absurd hcluster.symm (add_one_ne _)

/-- Only a created segment is noted as one. -/
theorem Sound.segmentCreated (h : Sound t us S b) (hb : b.encompassesCreatedSegment s = true) :
    SegmentCreated t us s := by
  obtain ⟨r, hr, rfl, hsegment⟩ := encompassesCreatedSegment_iff.mp hb
  rw [BlobLocationRange.isCreatedSegment, decide_eq_true_eq] at hsegment
  cases h.kinds r hr with
  | segment _ hcreated => exact hcreated
  | cluster => exact absurd hsegment.symm (add_one_ne _)
  | blobs => exact absurd hsegment.symm (add_one_ne _)

/-- What is noted stays noted. -/
structure Extends (b b' : BlobCreationRanges) : Prop where
  encompasses : ∀ l, b.encompasses l = true → b'.encompasses l = true
  cluster : ∀ s c, b.encompassesCreatedCluster s c = true → b'.encompassesCreatedCluster s c = true
  segment : ∀ s, b.encompassesCreatedSegment s = true → b'.encompassesCreatedSegment s = true

namespace Extends

variable {b' b'' : BlobCreationRanges}

theorem refl (b : BlobCreationRanges) : b.Extends b := ⟨fun _ => id, fun _ _ => id, fun _ => id⟩

theorem trans (h : b.Extends b') (h' : b'.Extends b'') : b.Extends b'' :=
  ⟨fun l hl => h'.encompasses l (h.encompasses l hl), fun s c hc => h'.cluster s c (h.cluster s c hc),
    fun s hs => h'.segment s (h.segment s hs)⟩

/-- Each range is still there, possibly with more blobs. -/
theorem of_ranges (h : ∀ r ∈ b.ranges, ∃ r' ∈ b'.ranges, r'.first = r.first ∧
    r'.last.segment = r.last.segment ∧ r'.last.cluster = r.last.cluster ∧
    r.last.position ≤ r'.last.position) : b.Extends b' := by
  refine ⟨fun l hl => ?_, fun s c hc => ?_, fun s hs => ?_⟩
  · obtain ⟨r, hr, hl⟩ := encompasses_iff.mp hl
    obtain ⟨r', hr', hfirst, -, -, hle⟩ := h r hr
    refine encompasses_iff.mpr ⟨r', hr', ?_⟩
    rw [BlobLocationRange.encompasses_iff] at hl ⊢
    rw [hfirst]
    exact ⟨hl.1, lt_of_lt_of_le hl.2 hle⟩
  · obtain ⟨r, hr, hs, hc, hcreated⟩ := encompassesCreatedCluster_iff.mp hc
    obtain ⟨r', hr', hfirst, -, hcluster, -⟩ := h r hr
    refine encompassesCreatedCluster_iff.mpr ⟨r', hr', hfirst ▸ hs, hfirst ▸ hc, ?_⟩
    rw [BlobLocationRange.isCreatedCluster] at hcreated ⊢
    rw [hfirst, hcluster]
    exact hcreated
  · obtain ⟨r, hr, hs, hcreated⟩ := encompassesCreatedSegment_iff.mp hs
    obtain ⟨r', hr', hfirst, hsegment, -⟩ := h r hr
    refine encompassesCreatedSegment_iff.mpr ⟨r', hr', hfirst ▸ hs, ?_⟩
    rw [BlobLocationRange.isCreatedSegment] at hcreated ⊢
    rw [hfirst, hsegment]
    exact hcreated

/-- A book with more ranges extends the old one. -/
theorem append {rs : List BlobLocationRange} (hb : b'.ranges = b.ranges ++ rs) : b.Extends b' :=
  of_ranges fun r hr => ⟨r, hb ▸ List.mem_append_left _ hr, rfl, rfl, rfl, le_refl _⟩

/-- Entering a blob. -/
theorem enter (hle : l.blob ≤ maxBlobId) :
    b.Extends (b.enter (.ofBlob l.segment l.cluster l.blob)) := by
  unfold BlobCreationRanges.enter
  split
  · next s hs =>
    split_ifs with heq
    · refine of_ranges fun r hr => ?_
      rw [← List.dropLast_append_getLast? s hs] at hr
      rcases List.mem_append.mp hr with hr | hr
      · exact ⟨r, List.mem_append_left _ hr, rfl, rfl, rfl, le_refl _⟩
      · obtain rfl := List.mem_singleton.mp hr
        refine ⟨_, List.mem_append_right _ (List.mem_singleton_self _), rfl, ?_⟩
        simp only [heq, BlobLocationRange.ofBlob, BlobLocation.position, toNat_add_one hle,
          true_and]
        omega
    · exact append rfl
  · exact append rfl

end Extends

/-- A blob that is entered is noted. -/
theorem encompasses_enter (h : Sound t us S b) (hle : l.blob ≤ maxBlobId) :
    (b.enter (.ofBlob l.segment l.cluster l.blob)).encompasses l = true := by
  have hself : (BlobLocationRange.ofBlob l.segment l.cluster l.blob).encompasses l = true :=
    (BlobLocationRange.encompasses_ofBlob hle).mpr rfl
  unfold BlobCreationRanges.enter
  split
  · next r hr =>
    split_ifs with heq
    · refine encompasses_iff.mpr ⟨_, List.mem_append_right _ (List.mem_singleton_self _), ?_⟩
      refine (BlobLocationRange.encompasses_concat (h.kinds r (List.mem_of_getLast? hr)).position_le
        ?_ heq).mpr (Or.inr hself)
      simp only [BlobLocationRange.ofBlob, BlobLocation.position, toNat_add_one hle]
      omega
    · exact encompasses_iff.mpr ⟨_, List.mem_append_right _ (List.mem_singleton_self _), hself⟩
  · exact encompasses_iff.mpr ⟨_, List.mem_append_right _ (List.mem_singleton_self _), hself⟩

/-- Nothing else is. -/
theorem Sound.of_encompasses_enter {l' : BlobLocation} (h : Sound t us S b)
    (hc : l.cluster ≤ maxClusterId) (hle : l.blob ≤ maxBlobId) (hnew : b.encompasses l = false)
    (hzero : ∀ r ∈ b.ranges, r.last = l → l.blob ≠ 0)
    (hl' : (b.enter (.ofBlob l.segment l.cluster l.blob)).encompasses l' = true) :
    b.encompasses l' = true ∨ l' = l := by
  have hself : Sound t us (fun l' => b.encompasses l' = true ∨ l' = l) b :=
    ⟨h.kinds, h.apart, fun _ => Or.inl⟩
  exact (hself.enter (Or.inr rfl) hc hle hnew hzero).encompassed l' hl'

/-- Entering a range leaves the committed ids. -/
@[simp]
theorem committedNextFreeBlobIds_enter (r : BlobLocationRange) :
    (b.enter r).committedNextFreeBlobIds = b.committedNextFreeBlobIds := by
  unfold enter
  split
  · split_ifs <;> rfl
  · rfl

/-- Entering ids one after another only adds. -/
theorem Extends.foldl {create : BlobCreationRanges → UInt32 → BlobCreationRanges}
    (hextends : ∀ (b : BlobCreationRanges) id, b.Extends (create b id)) (ids : List UInt32)
    (b : BlobCreationRanges) : b.Extends (ids.foldl create b) := by
  induction ids generalizing b with
  | nil => exact .refl b
  | cons id ids ih => exact (hextends b id).trans (ih (create b id))

/-- Several objects are created, one after another. -/
theorem foldl_create {create : BlobCreationRanges → UInt32 → BlobCreationRanges}
    {Adds : UInt32 → BlobLocation → Prop} {Good : UInt32 → Prop} {ids : List UInt32}
    (hadds : ∀ b id l, Good id → ((create b id).encompasses l = true ↔
      b.encompasses l = true ∨ Adds id l))
    (hextends : ∀ (b : BlobCreationRanges) id, b.Extends (create b id))
    (hcommitted : ∀ b id, (create b id).committedNextFreeBlobIds = b.committedNextFreeBlobIds)
    (hgood : ∀ id ∈ ids, Good id) (b : BlobCreationRanges) :
    (∀ l, (ids.foldl create b).encompasses l = true ↔
      b.encompasses l = true ∨ ∃ id ∈ ids, Adds id l) ∧
      (ids.foldl create b).committedNextFreeBlobIds = b.committedNextFreeBlobIds ∧
      ∀ id ∈ ids, ∃ b', (create b' id).Extends (ids.foldl create b) := by
  induction ids generalizing b with
  | nil => exact ⟨fun l => by simp, rfl, fun _ hid => nomatch hid⟩
  | cons id ids ih =>
    obtain ⟨hid, hgood⟩ := List.forall_mem_cons.mp hgood
    obtain ⟨h1, h2, h3⟩ := ih hgood (create b id)
    refine ⟨fun l => ?_, h2.trans (hcommitted b id), fun id' hid' => ?_⟩
    · rw [List.foldl_cons, h1, hadds b id l hid, List.exists_mem_cons_iff, or_assoc]
    · rcases List.mem_cons.mp hid' with rfl | hid'
      · exact ⟨b, .foldl hextends ids _⟩
      · exact h3 id' hid'

theorem extends_enterNewCluster : b.Extends (b.enterNewCluster s c) := .append rfl

theorem extends_enterNewSegment : b.Extends (b.enterNewSegment s) :=
  extends_enterNewCluster.trans (.append rfl)

theorem encompassesCreatedCluster_enterNewCluster :
    (b.enterNewCluster s c).encompassesCreatedCluster s c = true :=
  encompassesCreatedCluster_iff.mpr ⟨⟨⟨s, c, maxBlobId + 1⟩, ⟨s, c + 1, 0⟩⟩,
    List.mem_append_right _ (List.mem_cons_of_mem _ (List.mem_singleton_self _)), rfl, rfl,
    decide_eq_true rfl⟩

theorem encompassesCreatedSegment_enterNewSegment :
    (b.enterNewSegment s).encompassesCreatedSegment s = true :=
  encompassesCreatedSegment_iff.mpr ⟨⟨⟨s, maxClusterId + 1, 0⟩, ⟨s + 1, 0, 0⟩⟩,
    List.mem_append_right _ (List.mem_singleton_self _), rfl, decide_eq_true rfl⟩

end BlobCreationRanges

/-! ### What holds between the entries -/

namespace DbTree

variable {μ : Type} {t : DbTree μ 3} {us : List BlobData} {u : BlobData} {s : SegmentId}
  {c : ClusterId}

/-- An entry creates the segments between the next free id and the one it writes. -/
theorem segmentCreated_concat : SegmentCreated t (us ++ [u]) s ↔
    SegmentCreated t us s ∨ u.WritesNextSegment ∧ t.info ≤ s ∧ s < u.readId := by
  simp only [SegmentCreated, List.mem_append, List.mem_singleton, or_and_right, exists_or,
    exists_eq_left]

/-- An entry creates the first clusters of new segments, and the clusters between the next free id
and the one it writes. -/
theorem clusterCreated_concat : ClusterCreated t (us ++ [u]) s c ↔ ClusterCreated t us s c ∨
    u.WritesNextSegment ∧ t.info ≤ s ∧ s < u.readId ∧ c = 0 ∨
    u.WritesNextCluster s ∧ t.nextClusterId s ≤ c ∧ c < u.readId := by
  simp only [ClusterCreated, segmentCreated_concat, List.mem_append, List.mem_singleton,
    or_and_right, exists_or, exists_eq_left, and_assoc]
  exact ⟨fun h => by rcases h with (h | h) | h | h <;> simp [h],
    fun h => by rcases h with (h | h) | h | h <;> simp [h]⟩

end DbTree

namespace Database.Inv

variable {db : Database} {t : Tree 3} {s : SegmentId} {c : ClusterId} {l : BlobLocation}

/-- What does not exist counts as loaded. -/
theorem segmentLoaded_of_none (h : db.Inv t) (hs : t.getSegment s = none) : db.SegmentLoaded s :=
  fun o ho => by
    obtain ⟨x, hx, -⟩ := Heap.view_child h.view h.loaded ho
    rw [show t.getSegment s = some x from hx] at hs
    cases hs

/-- A cluster that is not there counts as loaded with its segment. -/
theorem clusterLoaded_of_none (h : db.Inv t) (hs : db.SegmentLoaded s)
    (hc : t.getCluster s c = none) : db.ClusterLoaded s c := fun o ho o' ho' => by
  obtain ⟨x, hx, hview⟩ := Heap.view_child h.view h.loaded ho
  obtain ⟨y, hy, -⟩ := Heap.view_child hview (hs o ho) ho'
  rw [DbTree.getCluster_eq_some_iff.mpr ⟨x, hx, hy⟩] at hc
  cases hc

/-- A path into a segment that is not there counts as loaded. -/
theorem pathLoaded_of_none (h : db.Inv t) (hs : t.getSegment l.segment = none) :
    db.PathLoaded l := by
  have hsegment := h.segmentLoaded_of_none hs
  exact ⟨hsegment, h.clusterLoaded_of_none hsegment (by rw [DbTree.getCluster, hs])⟩

/-- A loaded cluster has its next free id in memory. -/
theorem nextFreeId_of_getObject (h : db.Inv t) (hl : db.PathLoaded ⟨s, c, 0⟩) {p : Pointer}
    (hp : db.heap.getObject db.snapshot [s, c] = some p) :
    ∃ x, t.getCluster s c = some x ∧ x.info = (db.heap.directories p).nextFreeId := by
  simp only [Heap.getObject] at hp
  split at hp
  · cases hp
  · next o ho =>
    split at hp
    · cases hp
    · next o' ho' =>
      obtain rfl := Option.some.inj hp
      obtain ⟨x, hx, hview⟩ := Heap.view_child h.view h.loaded ho
      obtain ⟨y, hy, hview'⟩ := Heap.view_child hview (hl.1 o ho) ho'
      refine ⟨y, DbTree.getCluster_eq_some_iff.mpr ⟨x, hx, hy⟩, ?_⟩
      exact ((Heap.view_succ_of_loaded (hl.2 o ho o' ho')).mp hview').2.1

end Database.Inv

namespace Validation

open BlobCreationRanges (AddsCluster AddsSegment)

variable {own : BlobLocation → Bool} {t : Tree 3} {us : List BlobData} {ws : List BlobLocation}
  {v v' : Validation} {u : BlobData} {l : BlobLocation} {b : Bool}

/-- What holds when the entries `us` have passed, and the locations `ws` were asked for: the ranges
noted are those of what the entries create, and what the client may write to is loaded. -/
structure Ledger (own : BlobLocation → Bool) (t : Tree 3) (us : List BlobData)
    (ws : List BlobLocation) (v : Validation) : Prop where
  inv : v.database.Inv t
  owned : ∀ l, own l = true → v.database.PathLoaded l
  loaded : ∀ l, v.created.encompasses l = true → v.database.PathLoaded l
  sound : v.created.Sound t us (Creatable t us ws)
  parent : ∀ s c, ClusterCreated t us s c → (t.getSegment s).isSome ∨ SegmentCreated t us s
  segment : ∀ s, SegmentCreated t us s → s ≤ maxSegmentId ∧
    v.created.encompassesCreatedSegment s = true ∧
    ∀ l, AddsSegment s l → v.created.encompasses l = true
  cluster : ∀ s c, ClusterCreated t us s c → s ≤ maxSegmentId ∧ c ≤ maxClusterId ∧
    v.created.encompassesCreatedCluster s c = true ∧
    ∀ l, AddsCluster s c l → v.created.encompasses l = true
  committed : ∀ e ∈ v.created.committedNextFreeBlobIds, e.blob ≤ maxBlobId + 1 ∧
    ∃ u ∈ us, u.WritesNextBlob e.segment e.cluster ∧ u.readId = e.blob

/-- A location that is tested: one the entry asks for, or one that is not created. -/
def Asked (t : Tree 3) (ws : List BlobLocation) (l : BlobLocation) : Prop :=
  l ∈ ws ∨ maxBlobId < l.blob ∨
    ∃ c, t.getCluster l.segment l.cluster = some c ∧ (c.children.find l.blob).isSome

/-- More locations may have been asked for and created, nothing else happened. -/
structure Notes (v v' : Validation) : Prop where
  extend : v.created.Extends v'.created
  committed : v'.created.committedNextFreeBlobIds = v.created.committedNextFreeBlobIds

theorem Notes.refl (v : Validation) : v.Notes v := ⟨.refl _, rfl⟩

theorem Notes.trans {v'' : Validation} (h : v.Notes v') (h' : v'.Notes v'') : v.Notes v'' :=
  ⟨h.extend.trans h'.extend, h'.committed.trans h.committed⟩

namespace Ledger

variable (h : Ledger own t us ws v) (ht : BelowNextFree t)

include h

/-- Loading something. -/
theorem loads (hl : v.database.Loads v'.database) (hcreated : v'.created = v.created) :
    Ledger own t us ws v' where
  inv := hl.inv h.inv
  owned l hown := h.inv.pathLoaded hl (h.owned l hown)
  loaded l hin := h.inv.pathLoaded hl (h.loaded l (hcreated ▸ hin))
  sound := hcreated ▸ h.sound
  parent := h.parent
  segment := hcreated ▸ h.segment
  cluster := hcreated ▸ h.cluster
  committed := hcreated ▸ h.committed

/-- A load keeps the ledger. -/
theorem load {path : List UInt32} (hload : v.load path = some v') :
    Ledger own t us ws v' ∧ v.Notes v' := by
  obtain ⟨hcreated, hdb⟩ := load_eq_some hload
  exact ⟨h.loads (h.inv.loads_of_loadPath hdb) hcreated, hcreated ▸ .refl _, by rw [hcreated]⟩

include ht

/-- A blob that is about to be created does not continue the range of another cluster. -/
theorem blob_ne_zero (hcluster : HasCluster t us l.segment l.cluster)
    (hnew : v.created.encompasses l = false) {r : BlobLocationRange} (hr : r ∈ v.created.ranges)
    (hlast : r.last = l) : l.blob ≠ 0 := by
  intro hzero
  have hexists : (t.getCluster l.segment l.cluster).isSome := by
    refine hcluster.resolve_right fun hcreated => ?_
    rw [(h.cluster _ _ hcreated).2.2.2 l ⟨rfl, rfl, Or.inl hzero⟩] at hnew
    cases hnew
  obtain ⟨x, hx⟩ := Option.isSome_iff_exists.mp hexists
  obtain ⟨seg, hseg, -⟩ := DbTree.getCluster_eq_some_iff.mp hx
  subst hlast
  cases h.sound.kinds r hr with
  | @segment s hs hcreated =>
    -- the segment after a new one does not exist
    obtain ⟨e, -, -, hge, -⟩ := hcreated
    have hlt := lt_of_lt_of_le (ht.segment hseg).1 hge
    rw [UInt32.lt_iff_toNat_lt, toNat_add_one hs] at hlt
    omega
  | @cluster s c hc hcreated =>
    rcases hcreated with ⟨hs, -⟩ | ⟨e, -, -, hge, -⟩
    · rw [hs.getSegment ht] at hseg
      cases hseg
    · have hlt := lt_of_lt_of_le (ht.cluster hx).1 hge
      rw [UInt32.lt_iff_toNat_lt, toNat_add_one hc] at hlt
      omega
  | blobs _ hlt _ => exact absurd (hlt.trans_eq hzero) (not_lt.mpr UInt32.zero_le)

/-- What `TryCreateBlob` does. -/
theorem tryCreateBlob (hcluster : l.blob ≤ maxBlobId → HasCluster t us l.segment l.cluster)
    (hfresh : ∀ c, t.getCluster l.segment l.cluster = some c → c.children.find l.blob = none)
    (hnew : v.created.encompasses l = false) (hws : l.blob ≤ maxBlobId → l.segment ≤ maxSegmentId ∧
      l.cluster ≤ maxClusterId ∧ l ∈ ws) (hloaded : l.blob ≤ maxBlobId → v.database.PathLoaded l) :
    Ledger own t us ws (v.tryCreateBlob l).2 ∧ v.Notes (v.tryCreateBlob l).2 ∧
      ((v.tryCreateBlob l).1 = true → (v.tryCreateBlob l).2.created.encompasses l = true) := by
  unfold Validation.tryCreateBlob BlobCreationRanges.tryCreateBlob
  cases hfind : v.created.committedNextFreeBlobIds.find? fun e =>
      e.segment = l.segment && e.cluster = l.cluster with
  | none => exact ⟨h, .refl v, fun hb => (nomatch hb)⟩
  | some e =>
    dsimp only
    split_ifs with hle
    · exact ⟨h, .refl v, fun hb => (nomatch hb)⟩
    obtain ⟨hmax, u, hu, hwrites, hid⟩ := h.committed e (List.mem_of_find?_eq_some hfind)
    have he := List.find?_some hfind
    simp only [Bool.and_eq_true, decide_eq_true_eq] at he
    rw [he.1, he.2] at hwrites
    have hb : l.blob ≤ maxBlobId := by
      have hlt := lt_of_lt_of_le (not_le.mp hle) hmax
      rw [UInt32.lt_iff_toNat_lt, toNat_add_one (le_refl _)] at hlt
      exact UInt32.le_iff_toNat_le.mpr (Nat.le_of_lt_succ hlt)
    obtain ⟨hs, hc, hl⟩ := hws hb
    have hcreatable : Creatable t us ws l :=
      .blob hs hc hb (hcluster hb) ⟨u, hu, hwrites, hid ▸ not_le.mp hle⟩ hfresh hl
    have hzero : ∀ r ∈ v.created.ranges, r.last = l → l.blob ≠ 0 := fun r hr hlast =>
      h.blob_ne_zero ht (hcluster hb) hnew hr hlast
    have hextends : v.created.Extends (v.created.enter (.ofBlob l.segment l.cluster l.blob)) :=
      .enter hb
    have hin := BlobCreationRanges.encompasses_enter h.sound hb
    refine ⟨⟨h.inv, h.owned, fun l' hl' => ?_, h.sound.enter hcreatable hc hb hnew hzero, h.parent,
      fun s hs => ?_, fun s c hc => ?_, ?_⟩, ⟨hextends,
        BlobCreationRanges.committedNextFreeBlobIds_enter _⟩, fun _ => hin⟩
    · rcases h.sound.of_encompasses_enter hc hb hnew hzero hl' with hl' | rfl
      · exact h.loaded l' hl'
      · exact hloaded hb
    · obtain ⟨h1, h2, h3⟩ := h.segment s hs
      exact ⟨h1, hextends.segment s h2, fun l' hl' => hextends.encompasses l' (h3 l' hl')⟩
    · obtain ⟨h1, h2, h3, h4⟩ := h.cluster s c hc
      exact ⟨h1, h2, hextends.cluster s c h3, fun l' hl' => hextends.encompasses l' (h4 l' hl')⟩
    · rw [BlobCreationRanges.committedNextFreeBlobIds_enter]
      exact h.committed

/-- What the test of a location does, and what it says. -/
theorem mayWrite (hl : Asked t ws l) (htest : mayWrite own t l v = some (b, v')) :
    Ledger own t us ws v' ∧ v.Notes v' ∧
      (b = true → own l = true ∨ v'.created.encompasses l = true) := by
  unfold Validation.mayWrite encompassesWithBlobCreation at htest
  split_ifs at htest with hown hin hcreated
  · cases htest
    exact ⟨h, .refl v, fun _ => Or.inl hown⟩
  · cases htest
    exact ⟨h, .refl v, fun _ => Or.inr hin⟩
  · -- the cluster is a new one of this commit, or one that is looked up
    have hnew := Bool.eq_false_iff.mpr hin
    have hcreated := h.sound.clusterCreated hcreated
    obtain ⟨hs, hc, -, hadds⟩ := h.cluster _ _ hcreated
    have hnone := hcreated.getCluster ht
    have htry := h.tryCreateBlob (l := l) ht (fun _ => Or.inr hcreated) (fun c hc => ?_) hnew
      (fun hb => ⟨hs, hc, ?_⟩) fun _ => h.loaded ⟨l.segment, l.cluster, 0⟩
        (hadds _ ⟨rfl, rfl, Or.inl rfl⟩)
    · rw [Option.some.inj htest] at htry
      exact ⟨htry.1, htry.2.1, fun hb => Or.inr (htry.2.2 hb)⟩
    · rw [hnone] at hc
      cases hc
    · rcases hl with hl | hmax | ⟨c, hc, -⟩
      · exact hl
      · exact absurd hb (not_le.mpr hmax)
      · rw [hnone] at hc
        cases hc
  · have hnew := Bool.eq_false_iff.mpr hin
    split at htest
    · cases htest
    · next v₁ hload =>
      obtain ⟨hcreated₁, hdb⟩ := load_eq_some hload
      obtain ⟨h₁, hnotes⟩ := h.load hload
      split at htest
      · cases htest
        exact ⟨h₁, hnotes, fun hb => (nomatch hb)⟩
      · next c hc =>
        split_ifs at htest with hfind
        · cases htest
          exact ⟨h₁, hnotes, fun hb => (nomatch hb)⟩
        · obtain ⟨hs, hc'⟩ := h.inv.loaded_of_loadPath hdb
          have htry := h₁.tryCreateBlob (l := l) ht (fun _ => Or.inl (by rw [hc]; rfl))
            (fun c' hc' => ?_) (hcreated₁ ▸ hnew) (fun hb => ?_) fun _ => ⟨hs, hc' _ _ rfl⟩
          · rw [Option.some.inj htest] at htry
            exact ⟨htry.1, hnotes.trans htry.2.1, fun hb => Or.inr (htry.2.2 hb)⟩
          · rw [hc] at hc'
            obtain rfl := Option.some.inj hc'
            exact Option.not_isSome_iff_eq_none.mp hfind
          · rcases hl with hl | hmax | ⟨c', hc', hfind'⟩
            · obtain ⟨seg, hseg, -⟩ := DbTree.getCluster_eq_some_iff.mp hc
              exact ⟨ht.segment_le (by rw [hseg]; rfl), ht.cluster_le (by rw [hc]; rfl), hl⟩
            · exact absurd hb (not_le.mpr hmax)
            · rw [hc] at hc'
              obtain rfl := Option.some.inj hc'
              exact absurd hfind' hfind

/-- What the tests for an entry do, and what they say. -/
theorem allLocks (hl : l ∈ ws) (htest : allLocksForLocation t (Validation.mayWrite own t)
      Validation.load (fun v => v.created.encompassesCreatedCluster)
      (fun v => v.created.encompassesCreatedSegment) l v = some (true, v')) :
    Ledger own t us ws v' ∧ v.Notes v' ∧
      (l.blob = clusterDeleteId ∧ (l.cluster = segmentDeleteId ∧ SegmentCreated t us l.segment ∨
          l.cluster ≠ segmentDeleteId ∧ ClusterCreated t us l.segment l.cluster) ∨
        ∃ ls, forEachLockForLocation t l = some ls ∧
          ∀ l' ∈ ls, own l' = true ∨ v'.created.encompasses l' = true) := by
  classical
  -- locations that are not visited do not matter
  set test : BlobLocation → Validation → Option (Bool × Validation) := fun l' st =>
    if Visits t l l' then Validation.mayWrite own t l' st else none with htestdef
  have hcongr : ∀ l', Visits t l l' → ∀ st, Validation.mayWrite own t l' st = test l' st :=
    fun l' hl' st => (if_pos hl').symm
  rw [allLocksForLocation_congr hcongr] at htest
  have hasked : ∀ l', Visits t l l' → Asked t ws l' := fun l' hl' => by
    rcases hl' with rfl | hl'
    · exact Or.inl hl
    · exact Or.inr hl'
  have hmay : ∀ l' st b st', test l' st = some (b, st') → Ledger own t us ws st →
      Ledger own t us ws st' ∧ st.Notes st' ∧
        (b = true → own l' = true ∨ st'.created.encompasses l' = true) := by
    intro l' st b st' hst h
    rw [htestdef] at hst
    dsimp only at hst
    split_ifs at hst with hvisits
    exact h.mayWrite ht (hasked l' hvisits) hst
  have hp : Progress test Validation.load fun st st' => Ledger own t us ws st →
      Ledger own t us ws st' ∧ st.Notes st' :=
    ⟨fun st h => ⟨h, .refl st⟩, fun _ _ _ h₁ h₂ h => by
      obtain ⟨h3, h4⟩ := h₁ h
      obtain ⟨h5, h6⟩ := h₂ h3
      exact ⟨h5, h4.trans h6⟩, fun l' st b st' hst h => by
      obtain ⟨h1, h2, -⟩ := hmay l' st b st' hst h
      exact ⟨h1, h2⟩, fun path st st' hst h => h.load hst⟩
  obtain ⟨hR, hcases, -⟩ := allLocksForLocation_spec hp htest
  obtain ⟨h', hnotes⟩ := hR h
  refine ⟨h', hnotes, ?_⟩
  rcases hcases rfl with ⟨hblob, v₁, hv₁, -, hcreated⟩ | ⟨ls, hls, htested, -⟩
  · have h₁ := (hv₁ h).1
    exact Or.inl ⟨hblob, hcreated.imp (fun hc => ⟨hc.1, h₁.sound.segmentCreated hc.2.2⟩)
      fun hc => ⟨hc.1, h₁.sound.clusterCreated hc.2.2⟩⟩
  · refine Or.inr ⟨ls, hls, fun l' hl' => ?_⟩
    obtain ⟨v₁, v₂, hv₁, hmay', hv₂⟩ := htested l' hl'
    obtain ⟨h₂, -, hown⟩ := hmay l' v₁ true v₂ hmay' (hv₁ h).1
    exact (hown rfl).imp_right fun hin => (hv₂ h₂).2.extend.encompasses l' hin

omit ht in
/-- An entry that creates neither segments nor clusters. -/
theorem concat (hs : ¬u.WritesNextSegment) (hc : ∀ s, ¬u.WritesNextCluster s) :
    Ledger own t (us ++ [u]) ws v := by
  have hsegment : ∀ s, SegmentCreated t (us ++ [u]) s → SegmentCreated t us s := fun s h =>
    (DbTree.segmentCreated_concat.mp h).resolve_right fun h => hs h.1
  have hcluster : ∀ s c, ClusterCreated t (us ++ [u]) s c → ClusterCreated t us s c :=
    fun s c h => (DbTree.clusterCreated_concat.mp h).resolve_right fun h =>
      h.elim (fun h => hs h.1) fun h => hc s h.1
  have hsub : us ⊆ us ++ [u] := List.subset_append_left _ _
  refine ⟨h.inv, h.owned, h.loaded, h.sound.mono hsub fun l hl => hl.mono hsub (List.Subset.refl _),
    fun s c hcreated => ?_, fun s hcreated => h.segment s (hsegment s hcreated),
    fun s c hcreated => h.cluster s c (hcluster s c hcreated), fun e he => ?_⟩
  · exact (h.parent s c (hcluster s c hcreated)).imp_right fun hs => hs.mono hsub
  · obtain ⟨h1, u', hu', h2⟩ := h.committed e he
    exact ⟨h1, u', hsub hu', h2⟩

omit ht in
/-- The ledger stays when more locations are listed. -/
theorem mono {ws' : List BlobLocation} (hsub : ws ⊆ ws') : Ledger own t us ws' v :=
  { h with sound := h.sound.mono (List.Subset.refl _) fun _ hl => hl.mono (List.Subset.refl _) hsub }

omit ht in
/-- Nothing is created outside of segments that exist or are created. -/
theorem parent_of_creatable (hl : Creatable t us ws l) :
    (t.getSegment l.segment).isSome ∨ SegmentCreated t us l.segment := by
  cases hl with
  | first _ _ hcreated _ => exact h.parent _ _ hcreated
  | reserved _ _ hcreated _ => exact h.parent _ _ hcreated
  | reservedCluster _ hcreated _ => exact Or.inr hcreated
  | blob _ _ _ hcluster _ _ _ =>
    exact hcluster.elim (fun hc => Or.inl (DbTree.isSome_getSegment_of_getCluster hc))
      fun hc => h.parent _ _ hc

/-- New segments. -/
theorem nextSegment (hclash : ∀ e ∈ us, ¬e.WritesNextSegment) (hu : u.WritesNextSegment)
    (hge : t.info ≤ u.readId) (hle : u.readId ≤ maxSegmentId + 1) :
    Ledger own t (us ++ [u]) ws
      { v with created := (idsFrom t.info u.readId).foldl .enterNewSegment v.created } := by
  have hsub : us ⊆ us ++ [u] := List.subset_append_left _ _
  have hids : ∀ s ∈ idsFrom t.info u.readId, s ≤ maxSegmentId ∧ SegmentCreated t (us ++ [u]) s ∧
      t.getSegment s = none ∧ ¬SegmentCreated t us s := fun s hs => by
    obtain ⟨h1, h2⟩ := (mem_idsFrom hge).mp hs
    have hcreated : SegmentCreated t (us ++ [u]) s :=
      DbTree.segmentCreated_concat.mpr (Or.inr ⟨hu, h1, h2⟩)
    have hlt := lt_of_lt_of_le h2 hle
    rw [UInt32.lt_iff_toNat_lt, toNat_add_one (show maxSegmentId ≤ maxBlobId from le_refl _)] at hlt
    exact ⟨UInt32.le_iff_toNat_le.mpr (Nat.le_of_lt_succ hlt), hcreated, hcreated.getSegment ht,
      fun ⟨e, he, hw, _⟩ => hclash e he hw⟩
  have hadds : ∀ s l, AddsSegment s l → l.segment = s := fun s l hl => hl.elim (·.1) (·.1)
  have hnew : ∀ s ∈ idsFrom t.info u.readId, ∀ l, AddsSegment s l →
      Creatable t (us ++ [u]) ws l ∧ v.created.encompasses l = false := fun s hs l hl => by
    obtain ⟨hmax, hcreated, hnone, hnot⟩ := hids s hs
    obtain rfl := hadds s l hl
    refine ⟨?_, Bool.eq_false_iff.mpr fun hin => ?_⟩
    · rcases hl with ⟨-, hc, hb⟩ | ⟨-, hc⟩
      · have hle : l.cluster ≤ maxClusterId := hc ▸ UInt32.zero_le
        have hcluster : ClusterCreated t (us ++ [u]) l.segment l.cluster := Or.inl ⟨hcreated, hc⟩
        exact hb.elim (.first hmax hle hcluster) (.reserved hmax hle hcluster)
      · exact .reservedCluster hmax hcreated hc
    · rcases h.parent_of_creatable (h.sound.encompassed l hin) with hs | hs
      · rw [hnone] at hs
        cases hs
      · exact hnot hs
  obtain ⟨h1, h3, h4⟩ := BlobCreationRanges.foldl_create
    (fun b _ _ => BlobCreationRanges.encompasses_enterNewSegment (b := b))
    (fun _ _ => BlobCreationRanges.extends_enterNewSegment) (fun _ _ => rfl)
    (fun s hs => (hids s hs).1) v.created
  have h2 : v.created.Extends ((idsFrom t.info u.readId).foldl .enterNewSegment v.created) :=
    .foldl (fun _ _ => BlobCreationRanges.extends_enterNewSegment) _ _
  have hcreated : ∀ s, SegmentCreated t (us ++ [u]) s → s ∈ idsFrom t.info u.readId := fun s hs =>
    (mem_idsFrom hge).mpr ((DbTree.segmentCreated_concat.mp hs).elim
      (fun ⟨e, he, hw, _⟩ => absurd hw (hclash e he)) (·.2))
  refine ⟨h.inv, h.owned, fun l hl => ?_, ?_, fun s c hc => ?_, fun s hs => ?_, fun s c hc => ?_,
    fun e he => ?_⟩
  · rcases (h1 l).mp hl with hl | ⟨s, hs, hl⟩
    · exact h.loaded l hl
    · exact h.inv.pathLoaded_of_none (hadds s l hl ▸ (hids s hs).2.2.1)
  · exact (h.sound.mono hsub fun l hl => hl.mono hsub (List.Subset.refl _)).foldl_enterNewSegment
      (nodup_idsFrom _ _) (fun s hs => ⟨(hids s hs).1, (hids s hs).2.1⟩) hnew
  · rcases DbTree.clusterCreated_concat.mp hc with hc | ⟨-, h5, h6, -⟩ | ⟨hw, -⟩
    · exact (h.parent s c hc).imp_right fun hs => hs.mono hsub
    · exact Or.inr (DbTree.segmentCreated_concat.mpr (Or.inr ⟨hu, h5, h6⟩))
    · exact absurd hu hw.1.1
  · have hmem := hcreated s hs
    obtain ⟨b', hb'⟩ := h4 s hmem
    exact ⟨(hids s hmem).1,
      hb'.segment s BlobCreationRanges.encompassesCreatedSegment_enterNewSegment,
      fun l hl => (h1 l).mpr (Or.inr ⟨s, hmem, hl⟩)⟩
  · rcases DbTree.clusterCreated_concat.mp hc with hc | ⟨-, h5, h6, rfl⟩ | ⟨hw, -⟩
    · obtain ⟨h5, h6, h7, h8⟩ := h.cluster s c hc
      exact ⟨h5, h6, h2.cluster s c h7, fun l hl => h2.encompasses l (h8 l hl)⟩
    · have hmem := (mem_idsFrom hge).mpr ⟨h5, h6⟩
      obtain ⟨b', hb'⟩ := h4 s hmem
      have hfirst : (b'.enterNewCluster s 0).Extends (b'.enterNewSegment s) := .append rfl
      exact ⟨(hids s hmem).1, UInt32.zero_le, (hfirst.trans hb').cluster s 0
        BlobCreationRanges.encompassesCreatedCluster_enterNewCluster,
        fun l hl => (h1 l).mpr (Or.inr ⟨s, hmem, Or.inl hl⟩)⟩
    · exact absurd hu hw.1.1
  · rw [h3] at he
    obtain ⟨h5, u', hu', h6⟩ := h.committed e he
    exact ⟨h5, u', hsub hu', h6⟩

/-- New clusters of a segment. -/
theorem nextCluster (hclash : ∀ e ∈ us, ¬e.WritesNextCluster u.segment)
    (hu : u.WritesNextCluster u.segment) (hmax : u.segment ≤ maxSegmentId)
    (hs : (t.getSegment u.segment).isSome ∨ SegmentCreated t us u.segment)
    (hloaded : v.database.SegmentLoaded u.segment) (hge : t.nextClusterId u.segment ≤ u.readId)
    (hle : u.readId ≤ maxClusterId + 1) :
    Ledger own t (us ++ [u]) ws { v with
      created := (idsFrom (t.nextClusterId u.segment) u.readId).foldl
        (fun b c => b.enterNewCluster u.segment c) v.created } := by
  have hsub : us ⊆ us ++ [u] := List.subset_append_left _ _
  -- no cluster of the range existed or was created by an entry before
  have hids : ∀ c ∈ idsFrom (t.nextClusterId u.segment) u.readId, c ≤ maxClusterId ∧
      ClusterCreated t (us ++ [u]) u.segment c ∧ ¬HasCluster t us u.segment c := fun c hc => by
    obtain ⟨h1, h2⟩ := (mem_idsFrom hge).mp hc
    have hlt := lt_of_lt_of_le h2 hle
    rw [UInt32.lt_iff_toNat_lt, toNat_add_one (show maxClusterId ≤ maxBlobId from le_refl _)] at hlt
    refine ⟨UInt32.le_iff_toNat_le.mpr (Nat.le_of_lt_succ hlt),
      DbTree.clusterCreated_concat.mpr (Or.inr (Or.inr ⟨hu, h1, h2⟩)), ?_⟩
    rintro (hexists | ⟨hcreated, rfl⟩ | ⟨e, he, hw, -⟩)
    · obtain ⟨x, hx⟩ := Option.isSome_iff_exists.mp hexists
      exact absurd (ht.cluster hx).1 (not_lt.mpr h1)
    · obtain ⟨e, -, -, hinfo, -⟩ := hcreated
      rw [DbTree.info_le_nextClusterId ht hinfo] at h1
      exact absurd h1 (by decide)
    · exact hclash e he hw
  have hnone : ∀ c ∈ idsFrom (t.nextClusterId u.segment) u.readId,
      t.getCluster u.segment c = none := fun c hc =>
    Option.not_isSome_iff_eq_none.mp fun hexists => (hids c hc).2.2 (Or.inl hexists)
  -- so no range that is there has a location of it
  have hnew : ∀ c ∈ idsFrom (t.nextClusterId u.segment) u.readId, ∀ l,
      AddsCluster u.segment c l → Creatable t (us ++ [u]) ws l ∧ v.created.encompasses l = false := by
    rintro c hc l ⟨hseg, rfl, hb⟩
    obtain ⟨hcmax, hcreated, hnot⟩ := hids _ hc
    rw [← hseg] at hmax hcreated hnot
    refine ⟨hb.elim (.first hmax hcmax hcreated) (.reserved hmax hcmax hcreated),
      Bool.eq_false_iff.mpr fun hin => hnot ?_⟩
    cases h.sound.encompassed l hin with
    | first _ _ hcluster _ => exact Or.inr hcluster
    | reserved _ _ hcluster _ => exact Or.inr hcluster
    | reservedCluster _ _ hlt => exact absurd hcmax (not_le.mpr hlt)
    | blob _ _ _ hcluster _ _ _ => exact hcluster
  obtain ⟨h1, h3, h4⟩ := BlobCreationRanges.foldl_create
    (fun b _ _ => BlobCreationRanges.encompasses_enterNewCluster (b := b) (s := u.segment))
    (fun _ _ => BlobCreationRanges.extends_enterNewCluster) (fun _ _ => rfl)
    (fun c hc => (hids c hc).1) v.created
  have h2 : v.created.Extends ((idsFrom (t.nextClusterId u.segment) u.readId).foldl
      (fun b c => b.enterNewCluster u.segment c) v.created) :=
    .foldl (fun _ _ => BlobCreationRanges.extends_enterNewCluster) _ _
  have hnext : ¬u.WritesNextSegment := hu.1.1
  have hsegment : ∀ s, SegmentCreated t (us ++ [u]) s → SegmentCreated t us s := fun s hs =>
    (DbTree.segmentCreated_concat.mp hs).resolve_right fun hs => hnext hs.1
  refine ⟨h.inv, h.owned, fun l hl => ?_, ?_, fun s c hc => ?_, fun s hs => ?_, fun s c hc => ?_,
    fun e he => ?_⟩
  · rcases (h1 l).mp hl with hl | ⟨c, hc, hseg, rfl, -⟩
    · exact h.loaded l hl
    · rw [← hseg] at hloaded
      exact ⟨hloaded, h.inv.clusterLoaded_of_none hloaded (hseg ▸ hnone _ hc)⟩
  · exact (h.sound.mono hsub fun l hl => hl.mono hsub (List.Subset.refl _)).foldl_enterNewCluster
      (nodup_idsFrom _ _) (fun c hc => ⟨(hids c hc).1, (hids c hc).2.1⟩) hnew
  · rcases DbTree.clusterCreated_concat.mp hc with hc | ⟨hw, -⟩ | ⟨hw, -⟩
    · exact (h.parent s c hc).imp_right fun hs => hs.mono hsub
    · exact absurd hw hnext
    · rw [← hw.2.1]
      exact hs.imp_right fun hs => hs.mono hsub
  · obtain ⟨h5, h6, h7⟩ := h.segment s (hsegment s hs)
    exact ⟨h5, h2.segment s h6, fun l hl => h2.encompasses l (h7 l hl)⟩
  · rcases DbTree.clusterCreated_concat.mp hc with hc | ⟨hw, -⟩ | ⟨hw, h5, h6⟩
    · obtain ⟨h5, h6, h7, h8⟩ := h.cluster s c hc
      exact ⟨h5, h6, h2.cluster s c h7, fun l hl => h2.encompasses l (h8 l hl)⟩
    · exact absurd hw hnext
    · obtain rfl := hw.2.1
      have hmem := (mem_idsFrom hge).mpr ⟨h5, h6⟩
      obtain ⟨b', hb'⟩ := h4 c hmem
      exact ⟨hmax, (hids c hmem).1, hb'.cluster _ c
        BlobCreationRanges.encompassesCreatedCluster_enterNewCluster,
        fun l hl => (h1 l).mpr (Or.inr ⟨c, hmem, hl⟩)⟩
  · rw [h3] at he
    obtain ⟨h5, u', hu', h6⟩ := h.committed e he
    exact ⟨h5, u', hsub hu', h6⟩

omit ht in
/-- The next free id of a cluster is written. -/
theorem nextBlob (hu : u.WritesNextBlob u.segment u.cluster) (hle : u.readId ≤ maxBlobId + 1) :
    Ledger own t (us ++ [u]) ws { v with
      created := v.created.nextFreeBlobIdCommitted u.segment u.cluster u.readId } := by
  have hconcat : Ledger own t (us ++ [u]) ws v :=
    h.concat hu.1.1.1 fun s hw => hu.1.2.1 hw.2.2
  refine { hconcat with
    loaded := hconcat.loaded
    sound := hconcat.sound.congr rfl
    segment := hconcat.segment
    cluster := hconcat.cluster
    committed := fun e he => ?_ }
  rcases List.mem_append.mp he with he | he
  · exact hconcat.committed e he
  · obtain rfl := List.mem_singleton.mp he
    exact ⟨hle, u, List.mem_append_right _ (List.mem_singleton_self u), hu, rfl⟩

end Ledger

/-- The id an entry writes is the one read from its data. -/
theorem writtenId_eq_some {id : UInt32} (h : writtenId u = some id) : id = u.readId := by
  unfold writtenId at h
  split at h
  · cases h
  · split_ifs at h
    exact (Option.some.inj h).symm

/-- What is known of an entry that has passed after the entries `us`. -/
structure Passed (own : BlobLocation → Bool) (t : Tree 3) (us : List BlobData) (u : BlobData)
    (v : Validation) : Prop where
  allowed : Allowed t us u
  loaded : u.CopiesSegment → v.database.PathLoaded u.toBlobLocation
  owned : ∀ l, u.Deletes l → HasLocation t l → own l = true
  noted : u.CopiesCluster → u.blob ≠ nextFreeBlobId →
    own u.toBlobLocation = true ∨ v.created.encompasses u.toBlobLocation = true

namespace Ledger

variable (h : Ledger own t us ws v) (ht : BelowNextFree t)

include h ht

/-- An entry that creates segments. -/
theorem passed_nextSegment (hclash : ∀ e ∈ us, ¬e.Clashes u) (hs : u.WritesNextSegment)
    (hok : nextFreeSegmentIdWritten t u v = (.success, v')) :
    Passed own t us u v' ∧ Ledger own t (us ++ [u]) ws v' ∧ v.created.Extends v'.created := by
  have hother : ∀ e ∈ us, ¬e.WritesNextSegment := fun e he hw => hclash e he (.nextSegment hw hs)
  unfold nextFreeSegmentIdWritten at hok
  split_ifs at hok
  · cases hok
  split at hok
  · cases hok
  · next id hid =>
    obtain rfl := writtenId_eq_some hid
    split_ifs at hok with hbad
    · cases hok
    obtain rfl := (Prod.mk.inj hok).2
    rw [not_or, not_lt, not_lt] at hbad
    refine ⟨⟨.nextSegment hs hbad.1 hbad.2, fun hu => absurd hs hu.1, fun l hl => ?_,
      fun hu => absurd hs hu.1.1⟩, h.nextSegment ht hother hs hbad.1 hbad.2,
      .foldl (fun _ _ => BlobCreationRanges.extends_enterNewSegment) _ _⟩
    rcases hl with (hl | hl) | hl
    · exact absurd hs hl.2.1
    · exact absurd hs hl.1.1
    · exact absurd hs hl.1.1.1

variable (hwrite : own u.toBlobLocation = true ∨ v.created.encompasses u.toBlobLocation = true)

include hwrite

omit ht in
/-- What an entry concerns is loaded. -/
theorem pathLoaded : v.database.PathLoaded u.toBlobLocation :=
  hwrite.elim (h.owned _) (h.loaded _)

/-- An entry that creates clusters. -/
theorem passed_nextCluster (hclash : ∀ e ∈ us, ¬e.Clashes u) (hrange : u.InRange)
    (hs : u.segment ≠ nextFreeSegmentId) (hc : u.cluster = nextFreeClusterId)
    (hok : nextFreeClusterIdWritten t u v = some (.success, v')) :
    Passed own t us u v' ∧ Ledger own t (us ++ [u]) ws v' ∧ v.created.Extends v'.created := by
  have hu : u.WritesNextCluster u.segment := ⟨⟨hs, hc ▸ by decide⟩, rfl, hc⟩
  have hother : ∀ e ∈ us, ¬e.WritesNextCluster u.segment := fun e he hw =>
    hclash e he (.nextCluster hw hu)
  have hmax : u.segment ≤ maxSegmentId := (hrange.resolve_left hs).1
  unfold nextFreeClusterIdWritten at hok
  split_ifs at hok with hblob
  · cases hok
  split at hok
  · cases hok
  · next v₁ hload =>
    obtain ⟨hcreated, hdb⟩ := load_eq_some hload
    obtain ⟨h₁, hnotes⟩ := h.load hload
    have hloaded := (h.inv.loaded_of_loadPath hdb).1
    split at hok
    · cases hok
    · next nextFreeId hnext =>
      have hexists : nextFreeId = t.nextClusterId u.segment ∧
          ((t.getSegment u.segment).isSome ∨ SegmentCreated t us u.segment) := by
        unfold DbTree.nextClusterId
        split at hnext
        · next seg hseg =>
          obtain rfl := Option.some.inj hnext
          rw [hseg]
          exact ⟨rfl, Or.inl rfl⟩
        · next hseg =>
          split_ifs at hnext with hin
          obtain rfl := Option.some.inj hnext
          rw [hseg]
          refine ⟨rfl, Or.inr ?_⟩
          exact (h₁.parent_of_creatable (h₁.sound.encompassed _ hin)).resolve_left (by rw [hseg]; simp)
      obtain ⟨rfl, hparent⟩ := hexists
      split at hok
      · cases hok
      · next id hid =>
        obtain rfl := writtenId_eq_some hid
        split_ifs at hok with hbad
        · cases hok
        obtain rfl := (Prod.mk.inj (Option.some.inj hok)).2
        rw [not_or, not_lt, not_lt] at hbad
        refine ⟨⟨.nextCluster hu hparent hbad.1 hbad.2, fun _ => h₁.pathLoaded (hcreated ▸ hwrite),
          fun l hl => ?_, fun hu => absurd hc hu.2.1⟩,
          h₁.nextCluster ht hother hu hmax hparent hloaded hbad.1 hbad.2,
          hnotes.extend.trans (.foldl (fun _ _ => BlobCreationRanges.extends_enterNewCluster) _ _)⟩
        rcases hl with (hl | hl) | hl
        · exact absurd hl.2.2 hu.1.2
        · exact absurd hc hl.2.1
        · exact absurd hc hl.1.2.1

/-- What may be written and exists is the client's. -/
theorem own_of_hasLocation (hl : HasLocation t u.toBlobLocation) : own u.toBlobLocation = true :=
  hwrite.resolve_right fun hin => (h.sound.encompassed _ hin).not_hasLocation ht hl

/-- An entry that writes the next free blob id of a cluster. -/
theorem passed_nextBlob (hrange : u.InRange) (hu : u.WritesNextBlob u.segment u.cluster)
    (hok : nextFreeBlobIdWritten t u v = some (.success, v')) :
    Passed own t us u v' ∧ Ledger own t (us ++ [u]) ws v' ∧ v.created.Extends v'.created := by
  have hc : u.cluster ≤ maxClusterId := by
    have hcases := (hrange.resolve_left hu.1.1.1).2
    exact ((hcases.resolve_left hu.1.2.1).resolve_left hu.1.1.2).1
  have hreserved : ¬u.blob ≤ maxBlobId := by
    rw [hu.2.2.2]
    decide
  have hcommitted : ∀ v₁ : Validation, Ledger own t us ws v₁ → v.created.Extends v₁.created →
      t.nextBlobId u.segment u.cluster ≤ u.readId → u.readId ≤ maxBlobId + 1 →
      HasCluster t us u.segment u.cluster →
      v' = { v₁ with created := v₁.created.nextFreeBlobIdCommitted u.segment u.cluster u.readId } →
      Passed own t us u v' ∧ Ledger own t (us ++ [u]) ws v' ∧ v.created.Extends v'.created := by
    rintro v₁ h₁ hextends hle hmax hcluster rfl
    have hpath : v₁.database.PathLoaded u.toBlobLocation :=
      h₁.pathLoaded (hwrite.imp_right (hextends.encompasses _))
    refine ⟨⟨.nextBlob hu hcluster hle hmax, fun _ => hpath, fun l hl => ?_,
      fun _ hne => absurd hu.2.2.2 hne⟩, h₁.nextBlob hu hmax,
      hextends.trans (.append (List.append_nil _).symm)⟩
    rcases hl with (hl | hl) | hl
    · exact absurd hl.2.2 hu.1.1.2
    · exact absurd hl.2.2.1 hu.1.2.2
    · exact absurd hu.2.2.2 hl.2.1
  obtain ⟨v₁, nextFreeId, hv₁, ⟨hr, -⟩ | ⟨id, -, hid, hle, hmax, hv'⟩⟩ :=
    nextFreeBlobIdWritten_cases hok
  · exact absurd rfl hr
  obtain rfl := writtenId_eq_some hid
  rcases hv₁ with ⟨rfl, rfl, hin⟩ | ⟨hload, hlooked⟩
  · have hcreated : ClusterCreated t us u.segment u.cluster := by
      cases h.sound.encompassed _ hin with
      | first _ _ hcreated _ => exact hcreated
      | reserved _ _ hcreated _ => exact hcreated
      | reservedCluster _ _ hlt => exact absurd hc (not_le.mpr hlt)
      | blob _ _ hle _ _ _ _ => exact absurd hle hreserved
    refine hcommitted v₁ h (.refl _) ?_ hmax (Or.inr hcreated) hv'
    rw [DbTree.nextBlobId, hcreated.getCluster ht]
    exact hle
  · obtain ⟨p, hp, rfl⟩ := hlooked rfl
    obtain ⟨hcreated, -⟩ := load_eq_some hload
    obtain ⟨h₁, hnotes⟩ := h.load hload
    have hpath : v₁.database.PathLoaded ⟨u.segment, u.cluster, 0⟩ :=
      h₁.pathLoaded (hcreated ▸ hwrite)
    obtain ⟨x, hx, hinfo⟩ := h₁.inv.nextFreeId_of_getObject hpath hp
    refine hcommitted v₁ h₁ hnotes.extend ?_ hmax (Or.inl (by rw [hx]; rfl)) hv'
    rw [DbTree.nextBlobId, hx]
    exact (le_of_eq hinfo).trans hle

variable (hown : ∀ l, own l = true → HasLocation t l)

include hown

/-- An entry that writes or deletes a blob. -/
theorem passed_blob (hrange : u.InRange) (hu : u.CopiesCluster) (hn : u.blob ≠ nextFreeBlobId) :
    Passed own t us u v ∧ Ledger own t (us ++ [u]) ws v := by
  obtain ⟨-, hcases⟩ := hrange.resolve_left hu.1.1
  obtain ⟨hc, hcases⟩ := (hcases.resolve_left hu.2.1).resolve_left hu.1.2
  have hb : u.blob ≤ maxBlobId := (hcases.resolve_left hn).resolve_left hu.2.2
  have hexists : HasCluster t us u.segment u.cluster ∧
      (u.blob < t.nextBlobId u.segment u.cluster ∨
        ∃ e ∈ us, e.WritesNextBlob u.segment u.cluster ∧ u.blob < e.readId) := by
    rcases hwrite with hwrite | hin
    · obtain ⟨x, hx, hmem⟩ := mem_of_hasLocation_cluster (hown _ hwrite) hc
        (hrange.resolve_left hu.1.1).1
      refine ⟨Or.inl (by rw [hx]; rfl), Or.inl ?_⟩
      simp only [clusterLocations, List.mem_cons, List.mem_map] at hmem
      rcases hmem with heq | heq | heq | ⟨b, hb, heq⟩
      · exact absurd (congrArg BlobLocation.blob heq) hu.2.2
      · exact absurd (congrArg BlobLocation.blob heq) hn
      · rw [show u.blob = blobListId from congrArg BlobLocation.blob heq] at hb
        exact absurd hb (by decide)
      · obtain ⟨y, hy⟩ := Option.isSome_iff_exists.mp (FlatMap.mem_keys.mp hb)
        rw [← show b = u.blob from congrArg BlobLocation.blob heq, DbTree.nextBlobId, hx]
        exact ((ht.cluster hx).2.2 b y hy).1
    · cases h.sound.encompassed _ hin with
      | first _ _ hcreated hzero =>
        refine ⟨Or.inr hcreated, Or.inl ?_⟩
        rw [DbTree.nextBlobId, hcreated.getCluster ht, show u.blob = 0 from hzero]
        exact (by decide : (0 : UInt32) < 1)
      | reserved _ _ _ hlt => exact absurd hb (not_le.mpr hlt)
      | reservedCluster _ _ hlt => exact absurd hc (not_le.mpr hlt)
      | blob _ _ _ hcluster hbelow _ _ => exact ⟨hcluster, Or.inr hbelow⟩
  refine ⟨⟨.blob hu hn hexists.1 hexists.2, fun _ => h.pathLoaded hwrite, fun l hl hlocation => ?_,
    fun _ _ => hwrite⟩, h.concat hu.1.1 fun s hw => hu.2.1 hw.2.2⟩
  rcases hl with (hl | hl) | ⟨-, -, -, rfl⟩
  · exact absurd hl.2.2 hu.1.2
  · exact absurd hl.2.2.1 hu.2.2
  · exact h.own_of_hasLocation ht hwrite hlocation

end Ledger

namespace Ledger

variable (h : Ledger own t us ws v) (ht : BelowNextFree t)

include h ht

/-- An entry that deletes a segment. -/
theorem passed_deleteSegment (hrange : u.InRange) (hu : u.DeletesSegment u.segment)
    (hdel : u.blob = clusterDeleteId) (hcases : SegmentCreated t us u.segment ∨
      ∃ ls, forEachLockForLocation t u.toBlobLocation = some ls ∧
        ∀ l ∈ ls, own l = true ∨ v.created.encompasses l = true) :
    Passed own t us u v ∧ Ledger own t (us ++ [u]) ws v := by
  refine ⟨⟨.deleteSegment hu, fun hcopies => absurd hu.2.2 hcopies.2, fun l hl hlocation => ?_,
    fun hcopies => absurd hu.2.2 hcopies.1.2⟩, h.concat hu.2.1 fun s hw => hw.1.2 hu.2.2⟩
  have hseg : u.segment = l.segment := by
    rcases hl with (hl | hl) | hl
    · exact hl.1
    · exact hl.2.2.2.1
    · exact congrArg BlobLocation.segment hl.2.2.2
  have hmax : l.segment ≤ maxSegmentId := hseg ▸ (hrange.resolve_left hu.2.1).1
  rcases hcases with hcreated | ⟨ls, hls, hmay⟩
  · refine absurd hlocation (Creatable.not_hasLocation (?_ : Creatable t us [] l) ht)
    rw [hseg] at hcreated
    by_cases hc : l.cluster ≤ maxClusterId
    · exfalso
      obtain ⟨x, hx, -⟩ := mem_of_hasLocation_cluster hlocation hc hmax
      obtain ⟨seg, hs, -⟩ := DbTree.getCluster_eq_some_iff.mp hx
      rw [hcreated.getSegment ht] at hs
      cases hs
    · exact .reservedCluster hmax hcreated (not_le.mp hc)
  · have hmem := mem_forEachLockForLocation_segment ht hls hdel hu.2.2 hlocation hmax hseg
    exact (hmay l hmem).resolve_right fun hin =>
      (h.sound.encompassed l hin).not_hasLocation ht hlocation

/-- An entry that deletes a cluster. -/
theorem passed_deleteCluster (hown : ∀ l, own l = true → HasLocation t l) (hrange : u.InRange)
    (hu : u.CopiesSegment) (hn : u.cluster ≠ nextFreeClusterId) (hdel : u.blob = clusterDeleteId)
    (hcases : ClusterCreated t us u.segment u.cluster ∨
      ∃ ls, forEachLockForLocation t u.toBlobLocation = some ls ∧
        ∀ l ∈ ls, own l = true ∨ v.created.encompasses l = true) :
    Passed own t us u v ∧ Ledger own t (us ++ [u]) ws v := by
  obtain ⟨hs, hc⟩ := hrange.resolve_left hu.1
  obtain ⟨hc, -⟩ := (hc.resolve_left hn).resolve_left hu.2
  have hself : own u.toBlobLocation = true → (t.getCluster u.segment u.cluster).isSome := fun ho => by
    obtain ⟨x, hx, -⟩ := mem_of_hasLocation_cluster (hown _ ho) hc hs
    rw [hx]
    rfl
  have hcluster : HasCluster t us u.segment u.cluster ∧ v.database.PathLoaded u.toBlobLocation := by
    rcases hcases with hcreated | ⟨ls, hls, hmay⟩
    · exact ⟨Or.inr hcreated, h.loaded ⟨u.segment, u.cluster, 0⟩
        ((h.cluster _ _ hcreated).2.2.2 _ ⟨rfl, rfl, Or.inl rfl⟩)⟩
    · have hwrite := hmay _ (self_mem_forEachLockForLocation hls)
      refine ⟨?_, h.pathLoaded hwrite⟩
      rcases hwrite with hwrite | hin
      · exact Or.inl (hself hwrite)
      · cases h.sound.encompassed _ hin with
        | first _ _ hcreated _ => exact Or.inr hcreated
        | reserved _ _ hcreated _ => exact Or.inr hcreated
        | reservedCluster _ _ hlt => exact absurd hc (not_le.mpr hlt)
        | blob _ _ _ hcluster _ _ _ => exact hcluster
  refine ⟨⟨.deleteCluster hu hn hdel hcluster.1, fun _ => hcluster.2, fun l hl hlocation => ?_,
    fun hcopies => absurd hdel hcopies.2.2⟩, h.concat hu.1 fun s hw => hn hw.2.2⟩
  obtain ⟨hseg, hclu⟩ : u.segment = l.segment ∧ u.cluster = l.cluster := by
    rcases hl with (hl | hl) | hl
    · exact absurd hl.2.2 hu.2
    · exact ⟨hl.2.2.2.1, hl.2.2.2.2⟩
    · exact absurd hdel hl.1.2.2
  rw [hseg] at hs
  rw [hclu] at hc
  rcases hcases with hcreated | ⟨ls, hls, hmay⟩
  · obtain ⟨x, hx, -⟩ := mem_of_hasLocation_cluster hlocation hc hs
    rw [← hseg, ← hclu, hcreated.getCluster ht] at hx
    cases hx
  · have hmem := mem_forEachLockForLocation_cluster hls hdel hu.2 hlocation hs hc hseg hclu
    exact (hmay l hmem).resolve_right fun hin =>
      (h.sound.encompassed l hin).not_hasLocation ht hlocation

end Ledger

namespace Ledger

variable (h : Ledger own t us (us.map BlobData.toBlobLocation) v) (ht : BelowNextFree t)
  (hown : ∀ l, own l = true → HasLocation t l)

include h ht hown

/-- An entry that passes. -/
theorem validateBlob (hrange : u.InRange) (hclash : ∀ e ∈ us, ¬e.Clashes u)
    (hu : Validation.validateBlob own t u v = some (.success, v')) :
    Passed own t us u v' ∧
      Ledger own t (us ++ [u]) ((us ++ [u]).map BlobData.toBlobLocation) v' ∧
      v.created.Extends v'.created := by
  have hmem : u.toBlobLocation ∈ (us ++ [u]).map BlobData.toBlobLocation :=
    List.mem_map_of_mem (List.mem_append_right _ (List.mem_singleton_self u))
  have hsub : us.map BlobData.toBlobLocation ⊆ (us ++ [u]).map BlobData.toBlobLocation :=
    List.map_subset _ (List.subset_append_left _ _)
  unfold Validation.validateBlob at hu
  split at hu
  · cases hu
  · cases hu
  · next v₁ hlocks =>
    obtain ⟨h₁, hnotes, hcases⟩ := (h.mono hsub).allLocks ht hmem hlocks
    have hwrite : u.blob ≠ clusterDeleteId →
        own u.toBlobLocation = true ∨ v₁.created.encompasses u.toBlobLocation = true := fun hne => by
      obtain ⟨ls, hls, hmay⟩ := hcases.resolve_left fun hdel => hne hdel.1
      exact hmay _ (self_mem_forEachLockForLocation hls)
    have hextends : ∀ {v₂ : Validation} {P Q : Prop}, P ∧ Q ∧ v₁.created.Extends v₂.created →
        P ∧ Q ∧ v.created.Extends v₂.created := fun ⟨hP, hQ, hE⟩ =>
      ⟨hP, hQ, hnotes.extend.trans hE⟩
    split_ifs at hu with hlist hdelete hsegment hcluster hblob
    · cases hu
    · cases hu
    · exact hextends (h₁.passed_nextSegment ht hclash hsegment (Option.some.inj hu))
    · have hne : u.blob ≠ clusterDeleteId := by
        unfold nextFreeClusterIdWritten at hu
        split_ifs at hu with hb
        · cases hu
        · rw [not_not] at hb
          exact hb ▸ by decide
      exact hextends (h₁.passed_nextCluster ht (hwrite hne) hclash hrange hsegment hcluster hu)
    · have hne : u.blob ≠ clusterDeleteId := hblob ▸ by decide
      have hwrites : u.WritesNextBlob u.segment u.cluster :=
        ⟨⟨⟨hsegment, fun hc => hdelete ⟨hc, hne⟩⟩, hcluster, hne⟩, rfl, rfl, hblob⟩
      exact hextends (h₁.passed_nextBlob ht (hwrite hne) hrange hwrites hu)
    · obtain rfl := (Prod.mk.inj (Option.some.inj hu)).2
      refine (and_assoc.mp ⟨?_, hnotes.extend⟩)
      by_cases hne : u.blob = clusterDeleteId
      · by_cases hseg : u.cluster = segmentDeleteId
        · refine h₁.passed_deleteSegment ht hrange ⟨rfl, hsegment, hseg⟩ hne
            (hcases.imp_left fun hdel => ?_)
          exact hdel.2.elim (·.2) fun hdel => absurd hseg hdel.1
        · refine h₁.passed_deleteCluster ht hown hrange ⟨hsegment, hseg⟩ hcluster hne
            (hcases.imp_left fun hdel => ?_)
          exact hdel.2.elim (fun hdel => absurd hdel.1 hseg) (·.2)
      · exact h₁.passed_blob ht (hwrite hne) hown hrange
          ⟨⟨hsegment, fun hc => hdelete ⟨hc, hne⟩⟩, hcluster, hne⟩ hblob

end Ledger

end Validation

end BlobsDb
