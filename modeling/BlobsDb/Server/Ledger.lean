import BlobsDb.Server.Accepting

/-!
# What a validation keeps book of

A validation notes what the entries create, as ranges of locations, so that the entries after them
may write there. `Ledger` says what the notes stand for: a location in a range is `Creatable`, it
is not there yet and the entries so far create it or write it (`Ledger.encompassed`). No location
is in two ranges, and so no lock is granted twice.

An orderly commit that is accepted is a sequence of `Allowed` entries, all segments and clusters it
copies are loaded, and what it deletes its client owns (`Accepted`).
-/

namespace BlobsDb

/-! ### The order of the locations -/

theorem toNat_maxBlobId : maxBlobId.toNat = 4294967039 := by decide

/-- Ids of blobs are far from the end of the numbers. -/
theorem toNat_add_one {a : UInt32} (h : a ≤ maxBlobId) : (a + 1).toNat = a.toNat + 1 := by
  rw [UInt32.le_iff_toNat_le, toNat_maxBlobId] at h
  rw [UInt32.toNat_add, show (1 : UInt32).toNat = 1 from rfl]
  omega

theorem add_one_ne (a : UInt32) : a + 1 ≠ a := by
  have h1 := a.toNat_lt
  intro h
  rw [← UInt32.toNat_inj, UInt32.toNat_add, show (1 : UInt32).toNat = 1 from rfl] at h
  omega

/-- The ids from one id up to another one. -/
theorem mem_idsFrom {a b id : UInt32} (h : a ≤ b) : id ∈ idsFrom a b ↔ a ≤ id ∧ id < b := by
  have h1 := b.toNat_lt
  have h2 := id.toNat_lt
  have hsub := UInt32.toNat_sub_of_le _ _ h
  rw [UInt32.le_iff_toNat_le] at h
  simp only [idsFrom, List.mem_map, List.mem_range, UInt32.le_iff_toNat_le,
    UInt32.lt_iff_toNat_lt, hsub]
  constructor
  · rintro ⟨i, hi, rfl⟩
    rw [UInt32.toNat_add, UInt32.toNat_ofNat']
    omega
  · rintro ⟨h3, h4⟩
    refine ⟨id.toNat - a.toNat, by omega, UInt32.toNat_inj.mp ?_⟩
    rw [UInt32.toNat_add, UInt32.toNat_ofNat']
    omega

/-- A range of ids names each id once. -/
theorem nodup_idsFrom (a b : UInt32) : (idsFrom a b).Nodup := by
  refine (List.nodup_map_iff_inj_on List.nodup_range).mpr fun i hi j hj h => ?_
  rw [List.mem_range] at hi hj
  have h1 := (b - a).toNat_lt
  have h2 := a.toNat_lt
  have h3 := UInt32.toNat_inj.mpr h
  simp only [UInt32.toNat_add, UInt32.toNat_ofNat'] at h3
  omega

namespace BlobLocation

variable {a b l : BlobLocation}

/-- The place of a location in the order. -/
def position (l : BlobLocation) : ℕ :=
  l.segment.toNat * 2 ^ 64 + l.cluster.toNat * 2 ^ 32 + l.blob.toNat

/-- Locations are told apart by their position. -/
theorem position_inj : a.position = b.position ↔ a = b := by
  refine ⟨fun h => ?_, fun h => h ▸ rfl⟩
  have h1 := a.cluster.toNat_lt
  have h2 := b.cluster.toNat_lt
  have h3 := a.blob.toNat_lt
  have h4 := b.blob.toNat_lt
  simp only [position] at h
  cases a
  cases b
  simp only [BlobLocation.mk.injEq, ← UInt32.toNat_inj] at *
  omega

/-- Locations are ordered by their position. -/
theorem lt_iff : a.lt b = true ↔ a.position < b.position := by
  have h1 := a.cluster.toNat_lt
  have h2 := b.cluster.toNat_lt
  have h3 := a.blob.toNat_lt
  have h4 := b.blob.toNat_lt
  simp only [lt, position, Bool.or_eq_true, Bool.and_eq_true, decide_eq_true_eq,
    UInt32.lt_iff_toNat_lt, ← UInt32.toNat_inj]
  omega

/-- The order of the locations is that of their positions. -/
theorem le_iff : a.le b = true ↔ a.position ≤ b.position := by
  rw [le, Bool.or_eq_true, decide_eq_true_eq, lt_iff, ← position_inj]
  omega

/-- The special locations of a segment. -/
def OfSegment (l : BlobLocation) : Prop :=
  l = ⟨l.segment, nextFreeClusterId, nextFreeBlobId⟩ ∨
    l = ⟨l.segment, segmentDeleteId, clusterDeleteId⟩ ∨ l = ⟨l.segment, clusterListId, blobListId⟩

/-- Locations of a segment itself come after those of its clusters. -/
theorem OfSegment.cluster_lt (h : l.OfSegment) : maxClusterId < l.cluster := by
  rcases h with h | h | h
  · exact lt_of_lt_of_eq (show maxClusterId < nextFreeClusterId by decide) (congrArg cluster h).symm
  · exact lt_of_lt_of_eq (show maxClusterId < segmentDeleteId by decide) (congrArg cluster h).symm
  · exact lt_of_lt_of_eq (show maxClusterId < clusterListId by decide) (congrArg cluster h).symm

/-- The special locations of a cluster. -/
def OfCluster (l : BlobLocation) : Prop :=
  l.blob = nextFreeBlobId ∨ l.blob = clusterDeleteId ∨ l.blob = blobListId

/-- Locations of a cluster itself come after its blobs. -/
theorem OfCluster.blob_lt (h : l.OfCluster) : maxBlobId < l.blob := by
  rcases h with h | h | h <;> rw [h] <;> decide

/-- A location that segments have: a special one, one of a cluster, or a blob. -/
def Regular (l : BlobLocation) : Prop :=
  l.OfSegment ∨ l.cluster ≤ maxClusterId ∧ (l.OfCluster ∨ l.blob ≤ maxBlobId)

end BlobLocation

namespace BlobLocationRange

variable {r r' : BlobLocationRange} {l : BlobLocation} {s : SegmentId} {c : ClusterId} {b b' : BlobId}

/-- A range has the locations from its first up to its last one. -/
theorem encompasses_iff : r.encompasses l = true ↔
    r.first.position ≤ l.position ∧ l.position < r.last.position := by
  rw [encompasses, Bool.and_eq_true, BlobLocation.le_iff, BlobLocation.lt_iff]

/-- What is in the range of some blobs. -/
theorem encompasses_blobs : (⟨⟨s, c, b⟩, ⟨s, c, b'⟩⟩ : BlobLocationRange).encompasses l = true ↔
    l.segment = s ∧ l.cluster = c ∧ b ≤ l.blob ∧ l.blob < b' := by
  have h1 := l.cluster.toNat_lt
  have h2 := l.blob.toNat_lt
  have h3 := c.toNat_lt
  have h4 := b.toNat_lt
  have h5 := b'.toNat_lt
  simp only [encompasses_iff, BlobLocation.position, ← UInt32.toNat_inj, UInt32.le_iff_toNat_le,
    UInt32.lt_iff_toNat_lt]
  omega

/-- The range of a blob has only this blob. -/
theorem encompasses_ofBlob (hb : b ≤ maxBlobId) : (ofBlob s c b).encompasses l = true ↔
    l = ⟨s, c, b⟩ := by
  rw [ofBlob, encompasses_blobs]
  cases l
  simp only [BlobLocation.mk.injEq, ← UInt32.toNat_inj, UInt32.le_iff_toNat_le,
    UInt32.lt_iff_toNat_lt, toNat_add_one hb]
  omega

/-- What is in the range of the reserved ids of a cluster. -/
theorem encompasses_cluster (hc : c ≤ maxClusterId) :
    (⟨⟨s, c, maxBlobId + 1⟩, ⟨s, c + 1, 0⟩⟩ : BlobLocationRange).encompasses l = true ↔
      l.segment = s ∧ l.cluster = c ∧ maxBlobId < l.blob := by
  have h1 := l.cluster.toNat_lt
  have h2 := l.blob.toNat_lt
  simp only [encompasses_iff, BlobLocation.position, ← UInt32.toNat_inj, UInt32.lt_iff_toNat_lt,
    toNat_add_one hc, toNat_add_one (le_refl _), toNat_maxBlobId, UInt32.toNat_zero]
  rw [UInt32.le_iff_toNat_le, show maxClusterId.toNat = 4294967039 from toNat_maxBlobId] at hc
  omega

/-- What is in the range of the reserved ids of a segment. -/
theorem encompasses_segment (hs : s ≤ maxSegmentId) :
    (⟨⟨s, maxClusterId + 1, 0⟩, ⟨s + 1, 0, 0⟩⟩ : BlobLocationRange).encompasses l = true ↔
      l.segment = s ∧ maxClusterId < l.cluster := by
  have h1 := l.cluster.toNat_lt
  have h2 := l.blob.toNat_lt
  have h3 : maxClusterId.toNat = 4294967039 := toNat_maxBlobId
  simp only [encompasses_iff, BlobLocation.position, ← UInt32.toNat_inj, UInt32.lt_iff_toNat_lt,
    toNat_add_one hs, toNat_add_one (show maxClusterId ≤ maxBlobId from le_refl _), h3,
    UInt32.toNat_zero]
  omega

/-- The range that two ranges make when one starts where the other ends. -/
theorem encompasses_concat (hr : r.first.position ≤ r.last.position)
    (hr' : r'.first.position ≤ r'.last.position) (h : r.last = r'.first) :
    (⟨r.first, r'.last⟩ : BlobLocationRange).encompasses l = true ↔
      r.encompasses l = true ∨ r'.encompasses l = true := by
  simp only [encompasses_iff, ← h] at hr' ⊢
  omega

end BlobLocationRange

/-! ### What the ranges stand for -/

namespace DbTree

variable {μ : Type} {t : DbTree μ 3} {us us' : List BlobData} {s : SegmentId} {c : ClusterId}

/-- A segment that was created is so after more entries. -/
theorem SegmentCreated.mono (h : SegmentCreated t us s) (hsub : us ⊆ us') :
    SegmentCreated t us' s := by
  obtain ⟨e, he, hw⟩ := h
  exact ⟨e, hsub he, hw⟩

/-- More entries create no less. -/
theorem ClusterCreated.mono (h : ClusterCreated t us s c) (hsub : us ⊆ us') :
    ClusterCreated t us' s c := by
  rcases h with ⟨hs, hc⟩ | ⟨e, he, hw⟩
  · exact Or.inl ⟨hs.mono hsub, hc⟩
  · exact Or.inr ⟨e, hsub he, hw⟩

/-- More entries have no fewer clusters. -/
theorem HasCluster.mono (h : HasCluster t us s c) (hsub : us ⊆ us') : HasCluster t us' s c :=
  h.imp_right fun h => h.mono hsub

/-- The ids of segments are in their range. -/
theorem BelowNextFree.segment_le (ht : BelowNextFree t) (hs : (t.getSegment s).isSome) :
    s ≤ maxSegmentId := by
  obtain ⟨x, hx⟩ := Option.isSome_iff_exists.mp hs
  have h1 := lt_of_lt_of_le (ht.segment hx).1 ht.1
  rw [UInt32.lt_iff_toNat_lt, toNat_add_one (le_refl _)] at h1
  exact UInt32.le_iff_toNat_le.mpr (Nat.le_of_lt_succ h1)

/-- The ids of clusters are in their range. -/
theorem BelowNextFree.cluster_le (ht : BelowNextFree t) (hc : (t.getCluster s c).isSome) :
    c ≤ maxClusterId := by
  obtain ⟨x, hx⟩ := Option.isSome_iff_exists.mp hc
  obtain ⟨seg, hs, hfind⟩ := getCluster_eq_some_iff.mp hx
  have hseg := (ht.segment hs).2
  have h1 := lt_of_lt_of_le (hseg.2 c x hfind).1 hseg.1
  rw [UInt32.lt_iff_toNat_lt, toNat_add_one (le_refl _)] at h1
  exact UInt32.le_iff_toNat_le.mpr (Nat.le_of_lt_succ h1)

theorem isSome_getSegment_of_getCluster (hc : (t.getCluster s c).isSome) :
    (t.getSegment s).isSome := by
  obtain ⟨x, hx⟩ := Option.isSome_iff_exists.mp hc
  obtain ⟨seg, hs, -⟩ := getCluster_eq_some_iff.mp hx
  rw [hs]
  rfl

/-- What is created is not there. -/
theorem SegmentCreated.getSegment (h : SegmentCreated t us s) (ht : BelowNextFree t) :
    t.getSegment s = none := by
  obtain ⟨e, -, -, hge, -⟩ := h
  cases hs : t.getSegment s with
  | none => rfl
  | some x => exact absurd (ht.segment hs).1 (not_lt.mpr hge)

/-- A cluster that is created was not there. -/
theorem ClusterCreated.getCluster (h : ClusterCreated t us s c) (ht : BelowNextFree t) :
    t.getCluster s c = none := by
  rcases h with ⟨hs, -⟩ | ⟨e, -, -, hge, -⟩
  · rw [DbTree.getCluster, hs.getSegment ht]
  · cases hc : t.getCluster s c with
    | none => rfl
    | some x => exact absurd (ht.cluster hc).1 (not_lt.mpr hge)

end DbTree

open DbTree (SegmentCreated ClusterCreated HasCluster Allowed BelowNextFree HasLocation)

/-- A location that the entries `us` create, and that is not there yet: the first blob or a reserved
id of a new cluster, a reserved id of a new segment, or a blob below a next free id they write. Such
a blob is one of the locations `ws`, those of the entries. -/
inductive Creatable (t : Tree 3) (us : List BlobData) (ws : List BlobLocation)
    (l : BlobLocation) : Prop
  | first (hs : l.segment ≤ maxSegmentId) (hc : l.cluster ≤ maxClusterId)
      (hcreated : ClusterCreated t us l.segment l.cluster) (hb : l.blob = 0)
  | reserved (hs : l.segment ≤ maxSegmentId) (hc : l.cluster ≤ maxClusterId)
      (hcreated : ClusterCreated t us l.segment l.cluster) (hb : maxBlobId < l.blob)
  | reservedCluster (hs : l.segment ≤ maxSegmentId) (hcreated : SegmentCreated t us l.segment)
      (hc : maxClusterId < l.cluster)
  | blob (hs : l.segment ≤ maxSegmentId) (hc : l.cluster ≤ maxClusterId) (hle : l.blob ≤ maxBlobId)
      (hcluster : HasCluster t us l.segment l.cluster)
      (hb : ∃ e ∈ us, e.WritesNextBlob l.segment l.cluster ∧ l.blob < e.readId)
      (hfresh : ∀ c, t.getCluster l.segment l.cluster = some c → c.children.find l.blob = none)
      (hl : l ∈ ws)

/-- The three kinds of ranges. -/
inductive BlobLocationRange.Kind (t : Tree 3) (us : List BlobData) : BlobLocationRange → Prop
  | segment {s : SegmentId} (hs : s ≤ maxSegmentId) (hcreated : SegmentCreated t us s) :
    Kind t us ⟨⟨s, maxClusterId + 1, 0⟩, ⟨s + 1, 0, 0⟩⟩
  | cluster {s : SegmentId} {c : ClusterId} (hc : c ≤ maxClusterId)
      (hcreated : ClusterCreated t us s c) : Kind t us ⟨⟨s, c, maxBlobId + 1⟩, ⟨s, c + 1, 0⟩⟩
  | blobs {s : SegmentId} {c : ClusterId} {b b' : BlobId} (hc : c ≤ maxClusterId) (hlt : b < b')
      (hle : b' ≤ maxBlobId + 1) : Kind t us ⟨⟨s, c, b⟩, ⟨s, c, b'⟩⟩

section

variable {t : Tree 3} {us us' : List BlobData} {ws ws' : List BlobLocation} {u : BlobData}
  {s : SegmentId} {c : ClusterId} {l l' : BlobLocation} {r r' : BlobLocationRange}

/-- More entries and more locations make no less creatable. -/
theorem Creatable.mono (h : Creatable t us ws l) (hsub : us ⊆ us') (hsub' : ws ⊆ ws') :
    Creatable t us' ws' l := by
  cases h with
  | first hs hc hcreated hb => exact .first hs hc (hcreated.mono hsub) hb
  | reserved hs hc hcreated hb => exact .reserved hs hc (hcreated.mono hsub) hb
  | reservedCluster hs hcreated hc => exact .reservedCluster hs (hcreated.mono hsub) hc
  | blob hs hc hle hcluster hb hfresh hl =>
    obtain ⟨e, he, hw⟩ := hb
    exact .blob hs hc hle (hcluster.mono hsub) ⟨e, hsub he, hw⟩ hfresh (hsub' hl)

/-- What is to be created is not there. -/
theorem Creatable.not_hasLocation (h : Creatable t us ws l) (ht : BelowNextFree t) :
    ¬HasLocation t l := by
  have hsegment : l.segment ≤ maxSegmentId := by cases h <;> assumption
  have hcluster : (t.getSegment l.segment).isSome → l.cluster ≤ maxClusterId := fun hs => by
    cases h with
    | reservedCluster _ hcreated _ => simp [hcreated.getSegment ht] at hs
    | _ => assumption
  have hblob : ∀ x, t.getCluster l.segment l.cluster = some x →
      l.blob ≤ maxBlobId ∧ x.children.find l.blob = none := fun x hx => by
    cases h with
    | first _ _ hcreated _ => simp [hcreated.getCluster ht] at hx
    | reserved _ _ hcreated _ => simp [hcreated.getCluster ht] at hx
    | reservedCluster _ hcreated _ =>
      obtain ⟨seg, hs, -⟩ := DbTree.getCluster_eq_some_iff.mp hx
      simp [hcreated.getSegment ht] at hs
    | blob _ _ hle _ _ hfresh _ => exact ⟨hle, hfresh x hx⟩
  intro hl
  cases hl with
  | nextFreeSegmentId => exact absurd hsegment (by decide)
  | segmentList => exact absurd hsegment (by decide)
  | nextFreeClusterId hs =>
    exact absurd (hcluster hs) (show ¬nextFreeClusterId ≤ maxClusterId by decide)
  | segmentDelete hs =>
    exact absurd (hcluster hs) (show ¬segmentDeleteId ≤ maxClusterId by decide)
  | clusterList hs =>
    exact absurd (hcluster hs) (show ¬clusterListId ≤ maxClusterId by decide)
  | nextFreeBlobId hc =>
    obtain ⟨x, hx⟩ := Option.isSome_iff_exists.mp hc
    exact absurd (hblob x hx).1 (show ¬nextFreeBlobId ≤ maxBlobId by decide)
  | clusterDelete hc =>
    obtain ⟨x, hx⟩ := Option.isSome_iff_exists.mp hc
    exact absurd (hblob x hx).1 (show ¬clusterDeleteId ≤ maxBlobId by decide)
  | blobList hc =>
    obtain ⟨x, hx⟩ := Option.isSome_iff_exists.mp hc
    exact absurd (hblob x hx).1 (show ¬blobListId ≤ maxBlobId by decide)
  | blob hc hb =>
    rw [(hblob _ hc).2] at hb
    cases hb

namespace BlobLocationRange.Kind

/-- A range keeps its kind when entries are added. -/
theorem mono (h : r.Kind t us) (hsub : us ⊆ us') : r.Kind t us' := by
  cases h with
  | segment hs hcreated => exact .segment hs (hcreated.mono hsub)
  | cluster hc hcreated => exact .cluster hc (hcreated.mono hsub)
  | blobs hc hlt hle => exact .blobs hc hlt hle

/-- A range does not end before it starts. -/
theorem position_le (h : r.Kind t us) : r.first.position ≤ r.last.position := by
  cases h with
  | segment hs _ =>
    have h1 : maxClusterId.toNat = 4294967039 := toNat_maxBlobId
    simp only [BlobLocation.position, toNat_add_one hs, UInt32.toNat_zero,
      toNat_add_one (show maxClusterId ≤ maxBlobId from le_refl _), h1]
    omega
  | cluster hc _ =>
    simp only [BlobLocation.position, toNat_add_one hc, toNat_add_one (le_refl _), toNat_maxBlobId]
    omega
  | blobs _ hlt _ =>
    rw [UInt32.lt_iff_toNat_lt] at hlt
    simp only [BlobLocation.position]
    omega

/-- A blob that continues a range, which is one of blobs, since the first blob of a cluster does not
continue the range of another one. -/
theorem concat (h : r.Kind t us) (hb : l.blob ≤ maxBlobId) (hlast : r.last = l)
    (hzero : l.blob ≠ 0) :
    (⟨r.first, ⟨l.segment, l.cluster, l.blob + 1⟩⟩ : BlobLocationRange).Kind t us := by
  subst hlast
  cases h with
  | segment => exact absurd rfl hzero
  | cluster => exact absurd rfl hzero
  | blobs hc hlt _ =>
    refine .blobs hc ?_ ?_
    · rw [UInt32.lt_iff_toNat_lt] at hlt ⊢
      rw [toNat_add_one hb]
      exact Nat.lt_succ_of_lt hlt
    · rw [UInt32.le_iff_toNat_le] at hb ⊢
      rw [toNat_add_one hb, toNat_add_one (le_refl _)]
      exact Nat.succ_le_succ hb

/-- The locks of a range are what is in it, each once. -/
theorem implicitLocks_spec (h : r.Kind t us) : r.implicitLocks.Nodup ∧
    ∀ l, l ∈ r.implicitLocks ↔ r.encompasses l = true ∧ l.Regular := by
  unfold BlobLocationRange.implicitLocks BlobLocationRange.isCreatedSegment
    BlobLocationRange.isCreatedCluster
  cases h with
  | @segment s hs _ =>
    simp only [decide_true, if_true, List.mem_cons, List.not_mem_nil, or_false,
      BlobLocationRange.encompasses_segment hs]
    refine ⟨by simp [nextFreeClusterId, segmentDeleteId, clusterListId, maxClusterId], fun l => ?_⟩
    constructor
    · intro hl
      have hsegment : l.segment = s := by rcases hl with rfl | rfl | rfl <;> rfl
      have hspecial : l.OfSegment := by
        subst hsegment
        exact hl
      exact ⟨⟨hsegment, hspecial.cluster_lt⟩, Or.inl hspecial⟩
    · rintro ⟨⟨rfl, hlt⟩, hl | ⟨hle, -⟩⟩
      · exact hl
      · exact absurd hle (not_le.mpr hlt)
  | @cluster s c hc _ =>
    simp only [(add_one_ne s).symm, decide_false, Bool.false_eq_true, decide_true, if_true, if_false,
      List.mem_cons, List.not_mem_nil, or_false, BlobLocationRange.encompasses_cluster hc]
    refine ⟨by simp [nextFreeBlobId, clusterDeleteId, blobListId, maxBlobId], fun l => ?_⟩
    obtain ⟨segment, cluster, blob⟩ := l
    constructor
    · intro hl
      obtain ⟨rfl, rfl⟩ : segment = s ∧ cluster = c := by
        rcases hl with hl | hl | hl <;> cases hl <;> exact ⟨rfl, rfl⟩
      have hspecial : BlobLocation.OfCluster ⟨segment, cluster, blob⟩ :=
        hl.imp (congrArg BlobLocation.blob)
          (Or.imp (congrArg BlobLocation.blob) (congrArg BlobLocation.blob))
      exact ⟨⟨rfl, rfl, hspecial.blob_lt⟩, Or.inr ⟨hc, Or.inl hspecial⟩⟩
    · rintro ⟨⟨rfl, rfl, hlt⟩, hl | ⟨-, hl | hle⟩⟩
      · exact absurd hc (not_le.mpr hl.cluster_lt)
      · rcases hl with hb | hb | hb <;> cases hb
        · exact Or.inl rfl
        · exact Or.inr (Or.inl rfl)
        · exact Or.inr (Or.inr rfl)
      · exact absurd hle (not_le.mpr hlt)
  | @blobs s c b b' hc hlt hle =>
    simp only [(add_one_ne s).symm, (add_one_ne c).symm, decide_false, Bool.false_eq_true, if_false,
      BlobLocationRange.encompasses_blobs, List.mem_map, mem_idsFrom (le_of_lt hlt)]
    refine ⟨(nodup_idsFrom b b').map fun i j hij => by simpa using hij, fun l => ?_⟩
    constructor
    · rintro ⟨blob, hblob, rfl⟩
      have hmax := lt_of_lt_of_le hblob.2 hle
      rw [UInt32.lt_iff_toNat_lt, toNat_add_one (le_refl _)] at hmax
      exact ⟨⟨rfl, rfl, hblob⟩, Or.inr ⟨hc, Or.inr (UInt32.le_iff_toNat_le.mpr
        (Nat.le_of_lt_succ hmax))⟩⟩
    · rintro ⟨⟨rfl, rfl, hblob⟩, -⟩
      exact ⟨l.blob, hblob, rfl⟩

end BlobLocationRange.Kind

/-! ### Entering ranges -/

namespace BlobCreationRanges

variable {b b' : BlobCreationRanges} {S S' : BlobLocation → Prop}

/-- The created ranges encompass what one of them does. -/
theorem encompasses_iff :
    b.encompasses l = true ↔ ∃ r ∈ b.ranges, r.encompasses l = true := by
  rw [encompasses, List.any_eq_true]

/-- All ranges are of one of the kinds, no location is in two of them, and all locations in them
have a property. -/
structure Sound (t : Tree 3) (us : List BlobData) (S : BlobLocation → Prop)
    (b : BlobCreationRanges) : Prop where
  kinds : ∀ r ∈ b.ranges, r.Kind t us
  apart : b.ranges.Pairwise fun r r' => ∀ l, r.encompasses l = true → r'.encompasses l = false
  encompassed : ∀ l, b.encompasses l = true → S l

namespace Sound

theorem empty : Sound t us S .empty :=
  ⟨fun _ hr => (nomatch hr), List.Pairwise.nil, fun _ hl => nomatch hl⟩

/-- The ranges stay sound when entries are added. -/
theorem mono (h : Sound t us S b) (hsub : us ⊆ us') (hS : ∀ l, S l → S' l) : Sound t us' S' b :=
  ⟨fun r hr => (h.kinds r hr).mono hsub, h.apart, fun l hl => hS l (h.encompassed l hl)⟩

/-- Soundness is about the ranges only. -/
theorem congr (h : Sound t us S b) (hb : b'.ranges = b.ranges) : Sound t us S b' := by
  refine ⟨hb ▸ h.kinds, hb ▸ h.apart, fun l hl => h.encompassed l ?_⟩
  rw [encompasses_iff, ← hb, ← encompasses_iff]
  exact hl

/-- A new range at the end. -/
theorem append (h : Sound t us S b) (hr : r.Kind t us)
    (hnew : ∀ l, r.encompasses l = true → S l ∧ b.encompasses l = false)
    (hb : b'.ranges = b.ranges ++ [r]) : Sound t us S b' := by
  refine ⟨fun r' hr' => ?_, ?_, fun l hl => ?_⟩
  · rw [hb] at hr'
    rcases List.mem_append.mp hr' with hr' | hr'
    · exact h.kinds r' hr'
    · rwa [List.mem_singleton.mp hr']
  · rw [hb]
    refine List.pairwise_append.mpr ⟨h.apart, List.pairwise_singleton _ _, fun r' hr' r'' hr'' l hl => ?_⟩
    rw [List.mem_singleton.mp hr'']
    by_contra hl'
    have hfree := (hnew l (Bool.of_not_eq_false hl')).2
    rw [encompasses_iff.mpr ⟨r', hr', hl⟩] at hfree
    cases hfree
  · obtain ⟨r', hr', hl⟩ := encompasses_iff.mp hl
    rw [hb] at hr'
    rcases List.mem_append.mp hr' with hr' | hr'
    · exact h.encompassed l (encompasses_iff.mpr ⟨r', hr', hl⟩)
    · rw [List.mem_singleton.mp hr'] at hl
      exact (hnew l hl).1

/-- A new blob. -/
theorem enter (h : Sound t us S b) (hl : S l) (hc : l.cluster ≤ maxClusterId)
    (hle : l.blob ≤ maxBlobId) (hnew : b.encompasses l = false) (hzero : ∀ r ∈ b.ranges, r.last = l → l.blob ≠ 0) :
    Sound t us S (b.enter (.ofBlob l.segment l.cluster l.blob)) := by
  have hrange : ∀ l', (BlobLocationRange.ofBlob l.segment l.cluster l.blob).encompasses l' = true →
      S l' ∧ b.encompasses l' = false := fun l' hl' => by
    rw [BlobLocationRange.encompasses_ofBlob hle] at hl'
    subst hl'
    exact ⟨hl, hnew⟩
  have hkind : (BlobLocationRange.ofBlob l.segment l.cluster l.blob).Kind t us := by
    refine .blobs hc ?_ ?_
    · rw [UInt32.lt_iff_toNat_lt, toNat_add_one hle]
      exact Nat.lt_succ_self _
    · rw [UInt32.le_iff_toNat_le, toNat_add_one hle, toNat_add_one (le_refl _)]
      exact Nat.succ_le_succ (UInt32.le_iff_toNat_le.mp hle)
  unfold BlobCreationRanges.enter
  split
  · next s hs =>
    have hsplit := List.dropLast_append_getLast? s hs
    split_ifs with heq
    · -- the range of the blob continues the last one
      have hmem : s ∈ b.ranges := List.mem_of_getLast? hs
      have hconcat : ∀ l', (⟨s.first, (BlobLocationRange.ofBlob l.segment l.cluster l.blob).last⟩ :
          BlobLocationRange).encompasses l' = true ↔ s.encompasses l' = true ∨
            (BlobLocationRange.ofBlob l.segment l.cluster l.blob).encompasses l' = true := fun l' =>
        BlobLocationRange.encompasses_concat (h.kinds s hmem).position_le hkind.position_le heq
      have hapart := h.apart
      rw [← hsplit] at hapart
      obtain ⟨h1, -, h2⟩ := List.pairwise_append.mp hapart
      refine ⟨fun r hr => ?_, List.pairwise_append.mpr ⟨h1, List.pairwise_singleton _ _,
        fun r hr r' hr' l' hl' => ?_⟩, fun l' hl' => ?_⟩
      · rcases List.mem_append.mp hr with hr | hr
        · exact h.kinds r (List.mem_of_mem_dropLast hr)
        · rw [List.mem_singleton.mp hr]
          exact (h.kinds s hmem).concat hle heq (hzero s hmem heq)
      · rw [List.mem_singleton.mp hr']
        by_contra hin
        rcases (hconcat l').mp (Bool.of_not_eq_false hin) with hin | hin
        · rw [h2 r hr s (List.mem_singleton_self s) l' hl'] at hin
          cases hin
        · have hfree := (hrange l' hin).2
          rw [encompasses_iff.mpr ⟨r, List.mem_of_mem_dropLast hr, hl'⟩] at hfree
          cases hfree
      · obtain ⟨r, hr, hl'⟩ := encompasses_iff.mp hl'
        rcases List.mem_append.mp hr with hr | hr
        · exact h.encompassed l' (encompasses_iff.mpr ⟨r, List.mem_of_mem_dropLast hr, hl'⟩)
        · rw [List.mem_singleton.mp hr] at hl'
          rcases (hconcat l').mp hl' with hl' | hl'
          · exact h.encompassed l' (encompasses_iff.mpr ⟨s, hmem, hl'⟩)
          · exact (hrange l' hl').1
    · exact h.append hkind hrange rfl
  · exact h.append hkind hrange rfl

/-- Several objects are created, one after another. `Adds id l` says that the location comes with
the object. -/
theorem foldl {create : BlobCreationRanges → UInt32 → BlobCreationRanges}
    {Adds : UInt32 → BlobLocation → Prop} {Good : UInt32 → Prop} {ids : List UInt32}
    (hcreate : ∀ b id, Sound t us S b → Good id →
      (∀ l, Adds id l → S l ∧ b.encompasses l = false) → Sound t us S (create b id))
    (hadds : ∀ b id l, Good id → ((create b id).encompasses l = true ↔
      b.encompasses l = true ∨ Adds id l))
    (hinj : ∀ id id' l, Adds id l → Adds id' l → id = id') (h : Sound t us S b) (hn : ids.Nodup)
    (hgood : ∀ id ∈ ids, Good id)
    (hnew : ∀ id ∈ ids, ∀ l, Adds id l → S l ∧ b.encompasses l = false) :
    Sound t us S (ids.foldl create b) := by
  induction ids generalizing b with
  | nil => exact h
  | cons id ids ih =>
    obtain ⟨hid, hn⟩ := List.nodup_cons.mp hn
    obtain ⟨hgood₁, hgood⟩ := List.forall_mem_cons.mp hgood
    obtain ⟨hnew₁, hnew⟩ := List.forall_mem_cons.mp hnew
    refine ih (hcreate b id h hgood₁ hnew₁) hn hgood fun id' hid' l hl => ?_
    obtain ⟨h1, h2⟩ := hnew id' hid' l hl
    refine ⟨h1, Bool.eq_false_iff.mpr fun hin => ?_⟩
    rcases (hadds b id l hgood₁).mp hin with hin | hin
    · rw [h2] at hin
      cases hin
    · exact hid (hinj id id' l hin hl ▸ hid')

end Sound

/-- What a new cluster adds. -/
def AddsCluster (s : SegmentId) (c : ClusterId) (l : BlobLocation) : Prop :=
  l.segment = s ∧ l.cluster = c ∧ (l.blob = 0 ∨ maxBlobId < l.blob)

/-- What a new segment adds. -/
def AddsSegment (s : SegmentId) (l : BlobLocation) : Prop :=
  AddsCluster s 0 l ∨ l.segment = s ∧ maxClusterId < l.cluster

/-- A book with more ranges has the locations of these as well. -/
theorem encompasses_append {rs : List BlobLocationRange} (hb : b'.ranges = b.ranges ++ rs) :
    b'.encompasses l = true ↔ b.encompasses l = true ∨ ∃ r ∈ rs, r.encompasses l = true := by
  simp only [encompasses_iff, hb, List.mem_append, or_and_right, exists_or]

/-- The range of a first blob is that blob. -/
theorem encompasses_ofBlob_zero : (BlobLocationRange.ofBlob s c 0).encompasses l = true ↔
    l.segment = s ∧ l.cluster = c ∧ l.blob = 0 := by
  rw [BlobLocationRange.encompasses_ofBlob UInt32.zero_le]
  cases l
  simp only [BlobLocation.mk.injEq]

/-- Entering a new cluster adds the locations of this cluster. -/
theorem encompasses_enterNewCluster (hc : c ≤ maxClusterId) :
    (b.enterNewCluster s c).encompasses l = true ↔
      b.encompasses l = true ∨ AddsCluster s c l := by
  rw [encompasses_append (b := b) rfl]
  simp only [List.mem_cons, List.not_mem_nil, or_false, exists_eq_or_imp, exists_eq_left,
    encompasses_ofBlob_zero, BlobLocationRange.encompasses_cluster hc, AddsCluster]
  tauto

/-- Entering a new segment adds the locations of this segment. -/
theorem encompasses_enterNewSegment (hs : s ≤ maxSegmentId) :
    (b.enterNewSegment s).encompasses l = true ↔ b.encompasses l = true ∨ AddsSegment s l := by
  rw [encompasses_append (b := b.enterNewCluster s 0) rfl,
    encompasses_enterNewCluster UInt32.zero_le]
  simp only [List.mem_singleton, exists_eq_left, BlobLocationRange.encompasses_segment hs,
    AddsSegment, or_assoc]

namespace Sound

/-- A book stays sound when a created cluster is entered whose locations it did not have. -/
theorem enterNewCluster (h : Sound t us S b) (hc : c ≤ maxClusterId ∧ ClusterCreated t us s c)
    (hnew : ∀ l, AddsCluster s c l → S l ∧ b.encompasses l = false) :
    Sound t us S (b.enterNewCluster s c) := by
  have hfirst : Sound t us S { b with ranges := b.ranges ++ [.ofBlob s c 0] } := by
    refine h.append (.blobs hc.1 (by decide) (by decide)) (fun l hl => ?_) rfl
    obtain ⟨h1, h2, h3⟩ := encompasses_ofBlob_zero.mp hl
    exact hnew l ⟨h1, h2, Or.inl h3⟩
  refine hfirst.append (.cluster hc.1 hc.2) (fun l hl => ?_)
    (List.append_assoc b.ranges [.ofBlob s c 0] [_]).symm
  obtain ⟨h1, h2, h3⟩ := (BlobLocationRange.encompasses_cluster hc.1).mp hl
  obtain ⟨h4, h5⟩ := hnew l ⟨h1, h2, Or.inr h3⟩
  refine ⟨h4, Bool.eq_false_iff.mpr fun hin => ?_⟩
  rcases (encompasses_append rfl).mp hin with hin | ⟨r, hr, hin⟩
  · rw [h5] at hin
    cases hin
  · rw [List.mem_singleton.mp hr] at hin
    have hzero := (encompasses_ofBlob_zero.mp hin).2.2
    rw [hzero] at h3
    exact absurd h3 (by decide)

/-- A book stays sound when a created segment is entered whose locations it did not have. -/
theorem enterNewSegment (h : Sound t us S b) (hs : s ≤ maxSegmentId ∧ SegmentCreated t us s)
    (hnew : ∀ l, AddsSegment s l → S l ∧ b.encompasses l = false) :
    Sound t us S (b.enterNewSegment s) := by
  have hfirst : Sound t us S (b.enterNewCluster s 0) :=
    h.enterNewCluster ⟨UInt32.zero_le, Or.inl ⟨hs.2, rfl⟩⟩ fun l hl => hnew l (Or.inl hl)
  refine hfirst.append (.segment hs.1 hs.2) (fun l hl => ?_) rfl
  obtain ⟨h1, h2⟩ := (BlobLocationRange.encompasses_segment hs.1).mp hl
  obtain ⟨h3, h4⟩ := hnew l (Or.inr ⟨h1, h2⟩)
  refine ⟨h3, Bool.eq_false_iff.mpr fun hin => ?_⟩
  rcases (encompasses_enterNewCluster UInt32.zero_le).mp hin with hin | hin
  · rw [h4] at hin
    cases hin
  · rw [hin.2.1] at h2
    exact absurd h2 (by decide)

/-- Several new clusters of a segment. -/
theorem foldl_enterNewCluster {ids : List ClusterId} (h : Sound t us S b) (hn : ids.Nodup)
    (hids : ∀ c ∈ ids, c ≤ maxClusterId ∧ ClusterCreated t us s c)
    (hnew : ∀ c ∈ ids, ∀ l, AddsCluster s c l → S l ∧ b.encompasses l = false) :
    Sound t us S (ids.foldl (fun b c => b.enterNewCluster s c) b) :=
  foldl (fun _ _ h hgood hnew => h.enterNewCluster hgood hnew)
    (fun _ _ _ hgood => encompasses_enterNewCluster hgood.1)
    (fun _ _ _ hl hl' => hl.2.1.symm.trans hl'.2.1) h hn hids hnew

/-- Several new segments. -/
theorem foldl_enterNewSegment {ids : List SegmentId} (h : Sound t us S b) (hn : ids.Nodup)
    (hids : ∀ s ∈ ids, s ≤ maxSegmentId ∧ SegmentCreated t us s)
    (hnew : ∀ s ∈ ids, ∀ l, AddsSegment s l → S l ∧ b.encompasses l = false) :
    Sound t us S (ids.foldl BlobCreationRanges.enterNewSegment b) := by
  have hsegment : ∀ s l, AddsSegment s l → l.segment = s := fun s l hl => by
    rcases hl with hl | hl <;> exact hl.1
  exact foldl (fun _ _ h hgood hnew => h.enterNewSegment hgood hnew)
    (fun _ _ _ hgood => encompasses_enterNewSegment hgood.1)
    (fun _ _ l hl hl' => (hsegment _ l hl).symm.trans (hsegment _ l hl')) h hn hids hnew

end Sound

end BlobCreationRanges

end

/-! ### Which locations are tested -/

section

variable {μ σ : Type} {t : DbTree μ 3} {test test' : BlobLocation → σ → Option (Bool × σ)}
  {load : List UInt32 → σ → Option σ} {createdCluster : σ → SegmentId → ClusterId → Bool}
  {createdSegment : σ → SegmentId → Bool} {l l' : BlobLocation} {st : σ}

/-- The locations that are tested for a location are that location itself, blobs that exist, and
locations with reserved ids. -/
def Visits (t : DbTree μ 3) (l l' : BlobLocation) : Prop :=
  l' = l ∨ maxBlobId < l'.blob ∨
    ∃ c, t.getCluster l'.segment l'.cluster = some c ∧ (c.children.find l'.blob).isSome

/-- A list is tested alike by tests that agree on it. -/
theorem allLocations_congr {ls : List BlobLocation}
    (h : ∀ l ∈ ls, ∀ st, test l st = test' l st) :
    allLocations test ls st = allLocations test' ls st := by
  induction ls generalizing st with
  | nil => rfl
  | cons l ls ih =>
    obtain ⟨hl, hls⟩ := List.forall_mem_cons.mp h
    have hnext : allLocations test ls = allLocations test' ls := funext fun st => ih hls
    rw [allLocations, allLocations, hl, hnext]

/-- The locations of a cluster are visited when the cluster is deleted. -/
theorem visits_clusterLocations {s : SegmentId} {c : ClusterId} {x : DbTree μ 1}
    (hx : t.getCluster s c = some x)
    (hl : l' ∈ ⟨s, c, clusterDeleteId⟩ :: clusterLocations s c x) : Visits t l l' := by
  simp only [clusterLocations, List.mem_cons, List.mem_map] at hl
  rcases hl with rfl | rfl | rfl | ⟨blob, hblob, rfl⟩
  · exact Or.inr (Or.inl (show maxBlobId < clusterDeleteId by decide))
  · exact Or.inr (Or.inl (show maxBlobId < nextFreeBlobId by decide))
  · exact Or.inr (Or.inl (show maxBlobId < blobListId by decide))
  · exact Or.inr (Or.inr ⟨x, hx, FlatMap.mem_keys.mp hblob⟩)

/-- Tests that agree on all locations visited have one result. -/
theorem allClusters_congr {s : SegmentId} {es : List (ClusterId × DbTree μ 1)}
    (hes : ∀ e ∈ es, t.getCluster s e.1 = some e.2)
    (h : ∀ l', Visits t l l' → ∀ st, test l' st = test' l' st) :
    allClusters test load s es st = allClusters test' load s es st := by
  induction es generalizing st with
  | nil => rfl
  | cons e es ih =>
    obtain ⟨he, hes⟩ := List.forall_mem_cons.mp hes
    have hnext : allClusters test load s es = allClusters test' load s es :=
      funext fun st => ih hes
    have hfirst : ∀ st, allLocations test (⟨s, e.1, clusterDeleteId⟩ ::
        clusterLocations s e.1 e.2) st = allLocations test' (⟨s, e.1, clusterDeleteId⟩ ::
        clusterLocations s e.1 e.2) st := fun st =>
      allLocations_congr fun l' hl' => h l' (visits_clusterLocations he hl')
    rw [allClusters, allClusters, hnext]
    cases load [s, e.1] st with
    | none => rfl
    | some st =>
      dsimp only
      rw [hfirst]

/-- Nothing else is tested. -/
theorem allLocksForLocation_congr (h : ∀ l', Visits t l l' → ∀ st, test l' st = test' l' st) :
    allLocksForLocation t test load createdCluster createdSegment l st =
      allLocksForLocation t test' load createdCluster createdSegment l st := by
  have hlist : ∀ ls, (∀ l' ∈ ls, Visits t l l') → ∀ st,
      allLocations test ls st = allLocations test' ls st := fun ls hls st =>
    allLocations_congr fun l' hl' => h l' (hls l' hl')
  have hnextFree : ∀ s c, Visits t l ⟨s, c, nextFreeBlobId⟩ := fun s c =>
    Or.inr (Or.inl (show maxBlobId < nextFreeBlobId by decide))
  have hlists : ∀ s c, Visits t l ⟨s, c, blobListId⟩ := fun s c =>
    Or.inr (Or.inl (show maxBlobId < blobListId by decide))
  have hpair : ∀ s c, ∀ l' ∈ [l, ⟨s, c, blobListId⟩], Visits t l l' := fun s c => by
    simp only [List.forall_mem_cons]
    exact ⟨Or.inl rfl, hlists _ _, nofun⟩
  have hfour : ∀ s c s' c' s'' c'', ∀ l' ∈ [l, ⟨s, c, nextFreeBlobId⟩, ⟨s', c', blobListId⟩,
      ⟨s'', c'', blobListId⟩], Visits t l l' := fun s c s' c' s'' c'' => by
    simp only [List.forall_mem_cons]
    exact ⟨Or.inl rfl, hnextFree _ _, hlists _ _, hlists _ _, nofun⟩
  unfold allLocksForLocation
  split_ifs with hblob hcluster
  · cases load [l.segment] st with
    | none => rfl
    | some st =>
      dsimp only
      rw [hlist _ (hfour _ _ _ _ _ _)]
      congr 2
      funext st
      cases hs : t.getSegment l.segment with
      | none => rfl
      | some s =>
        refine allClusters_congr (fun e he => ?_) h
        exact DbTree.getCluster_eq_some_iff.mpr ⟨s, hs, FlatMap.find_eq_some_iff.mpr he⟩
  · cases load [l.segment, l.cluster] st with
    | none => rfl
    | some st =>
      dsimp only
      rw [hlist _ (hfour _ _ _ _ _ _)]
      congr 2
      funext st
      cases hc : t.getCluster l.segment l.cluster with
      | none => rfl
      | some c =>
        refine hlist _ (fun l' hl' => ?_) st
        obtain ⟨blob, hb, rfl⟩ := List.mem_map.mp hl'
        exact Or.inr (Or.inr ⟨c, hc, FlatMap.mem_keys.mp hb⟩)
  · exact hlist _ (hpair _ _) st
  · exact hlist _ (hpair _ _) st
  · exact hlist _ (hpair _ _) st
  · exact h l (Or.inl rfl) st

end

end BlobsDb
