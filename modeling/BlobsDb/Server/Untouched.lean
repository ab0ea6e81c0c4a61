import BlobsDb.Server.Contents
import BlobsDb.Server.Granting

/-!
# What a commit leaves alone

What is found at a location of a tree is what a read of it is answered
(`DbTree.map_content_readContent`). It is changed only by entries that change it (`Changes`,
`Admissible.content_updates`), and a client whose entries pass has locked what they change for
writing (`Passes.own_of_changes`). The one exception is the list a blob is taken off: validation does
not ask for its lock.
-/

namespace BlobsDb

open DbTree (BelowNextFree HasLocation HasBlob Admissible SegmentCreated ClusterCreated)

namespace DbTree

variable {μ : Type} {m : μ} {t : DbTree μ 3} {us : List BlobData} {u : BlobData} {s : SegmentId}
  {c : ClusterId} {b : BlobId} {l : BlobLocation}

/-- What is found at a location. -/
def content (t : DbTree μ 3) (l : BlobLocation) : Option (List UInt8) :=
  let list {n : ℕ} (t : DbTree μ (n + 1)) : List UInt8 := idListContent t.children.keys
  let next {n : ℕ} (t : DbTree μ (n + 1)) : List UInt8 := leBytes 4 t.info.toNat
  if l.blob = blobListId then
    if l.cluster = clusterListId then
      if l.segment = segmentListId then some (list t) else (t.getSegment l.segment).map list
    else (t.getCluster l.segment l.cluster).map list
  else if l.blob = nextFreeBlobId then
    if l.cluster = nextFreeClusterId then
      if l.segment = nextFreeSegmentId then some (next t) else (t.getSegment l.segment).map next
    else (t.getCluster l.segment l.cluster).map next
  else
    (t.getCluster l.segment l.cluster).bind fun c => (c.children.find l.blob).map fun b => b.data

/-- Reads answer with what is found. -/
theorem map_content_readContent (t : Tree 3) (nextFreeIdCommit : CommitId) (l : BlobLocation) :
    (Tree.readContent t nextFreeIdCommit l).map VersionedContent.content = content t l := by
  unfold Tree.readContent content
  by_cases hlist : l.blob = blobListId
  · simp only [hlist, if_true]
    split_ifs <;> simp [Function.comp_def]
  by_cases hnext : l.blob = nextFreeBlobId
  · simp only [hnext, and_true, if_true, show nextFreeBlobId ≠ blobListId by decide, if_false]
    split_ifs <;> simp_all [Function.comp_def]
  · simp only [hlist, hnext, and_false, if_false, Option.map_bind, Option.map_map, Function.comp_def]

theorem content_changeMark {ν : Type} (g : μ → ν) : content (changeMark g t) l = content t l := by
  have hkeys : ∀ {n : ℕ} (t : DbTree μ (n + 1)), (changeMark g t).children.keys = t.children.keys :=
    fun t => by rw [children_changeMark, FlatMap.keys_map]
  have hinfo : ∀ {n : ℕ} (t : DbTree μ (n + 1)), (changeMark g t).info = t.info := fun _ => rfl
  have hdata : ∀ (t : DbTree μ 1) (b : BlobId),
      ((changeMark g t).children.find b).map (fun b => b.data) =
        (t.children.find b).map fun b => b.data := fun t b => by
    rw [find_changeMark]
    cases t.children.find b <;> rfl
  unfold content
  simp only [getSegment_changeMark, getCluster_changeMark, Option.map_map, Option.bind_map,
    Function.comp_def, hkeys, hinfo, hdata]

theorem content_nextFreeSegmentId :
    content t ⟨nextFreeSegmentId, nextFreeClusterId, nextFreeBlobId⟩ =
      some (leBytes 4 t.info.toNat) := rfl

theorem content_segmentList : content t ⟨segmentListId, clusterListId, blobListId⟩ =
    some (idListContent t.children.keys) := rfl

theorem content_nextFreeClusterId (hs : s ≤ maxSegmentId) :
    content t ⟨s, nextFreeClusterId, nextFreeBlobId⟩ =
      (t.getSegment s).map fun x => leBytes 4 x.info.toNat := by
  refine if_neg fun heq => ?_
  rw [show s = nextFreeSegmentId from heq] at hs
  exact absurd hs (by decide)

theorem content_clusterList (hs : s ≤ maxSegmentId) : content t ⟨s, clusterListId, blobListId⟩ =
    (t.getSegment s).map fun x => idListContent x.children.keys := by
  refine if_neg fun heq => ?_
  rw [show s = segmentListId from heq] at hs
  exact absurd hs (by decide)

theorem content_nextFreeBlobId (hc : c ≤ maxClusterId) : content t ⟨s, c, nextFreeBlobId⟩ =
    (t.getCluster s c).map fun x => leBytes 4 x.info.toNat := by
  refine if_neg fun heq => ?_
  rw [show c = nextFreeClusterId from heq] at hc
  exact absurd hc (by decide)

theorem content_blobList (hc : c ≤ maxClusterId) : content t ⟨s, c, blobListId⟩ =
    (t.getCluster s c).map fun x => idListContent x.children.keys := by
  refine if_neg fun heq => ?_
  rw [show c = clusterListId from heq] at hc
  exact absurd hc (by decide)

theorem content_of_ne (hlist : b ≠ blobListId) (hnext : b ≠ nextFreeBlobId) :
    content t ⟨s, c, b⟩ = (t.getCluster s c).bind fun x =>
      (x.children.find b).map fun b => b.data := by
  rw [content, if_neg hlist, if_neg hnext]

/-- Nothing is found at what is locked to delete a cluster. -/
theorem content_delete (ht : BelowNextFree t) : content t ⟨s, c, clusterDeleteId⟩ = none := by
  rw [content_of_ne (by decide) (by decide), Option.bind_eq_none_iff]
  intro x hx
  rw [Option.map_eq_none_iff, ← Option.not_isSome_iff_eq_none]
  intro hsome
  obtain ⟨y, hy⟩ := Option.isSome_iff_exists.mp hsome
  exact absurd ((ht.cluster hx).2.blob_le hy) (by decide)

/-! ### Entries -/

/-- The entry changes what is found at the location. The blobs it is entered in a list with, or
taken off the list, are not all that it changes. -/
inductive Changes (t : DbTree μ 3) (u : BlobData) : BlobLocation → Prop
  | nextSegment (hu : u.WritesNextSegment) :
    Changes t u ⟨nextFreeSegmentId, nextFreeClusterId, nextFreeBlobId⟩
  | segments (hu : u.WritesNextSegment ∨ u.DeletesSegment u.segment) :
    Changes t u ⟨segmentListId, clusterListId, blobListId⟩
  | nextCluster {s : SegmentId} (hu : u.WritesNextCluster s) :
    Changes t u ⟨s, nextFreeClusterId, nextFreeBlobId⟩
  | clusters {s : SegmentId} (hu : u.WritesNextCluster s ∨ u.CopiesSegment ∧
      u.cluster ≠ nextFreeClusterId ∧ u.blob = clusterDeleteId ∧ u.segment = s) :
    Changes t u ⟨s, clusterListId, blobListId⟩
  | nextBlob {s : SegmentId} {c : ClusterId} (hu : u.WritesNextBlob s c) :
    Changes t u ⟨s, c, nextFreeBlobId⟩
  | blobs {s : SegmentId} {c : ClusterId} (hu : u.WritesNextBlob s c) :
    Changes t u ⟨s, c, blobListId⟩
  | listed (hu : u.CopiesCluster) (hn : u.blob ≠ nextFreeBlobId)
      (hnew : u.data = none ∨ ¬HasLocation t u.toBlobLocation) :
    Changes t u ⟨u.segment, u.cluster, blobListId⟩
  | blob (hu : u.CopiesCluster) (hn : u.blob ≠ nextFreeBlobId) : Changes t u u.toBlobLocation
  | deleted {l : BlobLocation} (hu : u.Deletes l) : Changes t u l

/-- A blob that is neither written nor deleted keeps its data. -/
theorem data_update {d : List UInt8} (h : ∃ x, t.getCluster s c = some x ∧
      (x.children.find b).map (fun b => b.data) = some d) (hd : ¬u.Deletes ⟨s, c, b⟩)
    (hw : u.CopiesCluster → u.blob ≠ nextFreeBlobId → u.toBlobLocation ≠ ⟨s, c, b⟩) :
    ∃ x, (update m u t).getCluster s c = some x ∧
      (x.children.find b).map (fun b => b.data) = some d := by
  obtain ⟨x, hx, hb⟩ := h
  obtain ⟨seg, hs, hfind⟩ := getCluster_eq_some_iff.mp hx
  by_cases hnot : u.segment = nextFreeSegmentId ∨ s ≠ u.segment
  · exact ⟨x, (getCluster_update_of_not hnot).trans hx, hb⟩
  rw [not_or, not_not] at hnot
  obtain ⟨hnext, rfl⟩ := hnot
  have hcopies : u.CopiesSegment := ⟨hnext, fun hdel => hd (Or.inl (Or.inl ⟨rfl, hnext, hdel⟩))⟩
  have hfirst : (touch m (t.getSegment u.segment)).children.find c = some x := by
    rw [hs]
    exact hfind
  by_cases hother : u.cluster = nextFreeClusterId ∨ c ≠ u.cluster
  · refine ⟨x, ?_, hb⟩
    rw [getCluster_update_of_copies hcopies, find_updateSegment, if_pos hother, hfirst]
  rw [not_or, not_not] at hother
  obtain ⟨hn, rfl⟩ := hother
  have hcopiesCluster : u.CopiesCluster := ⟨hcopies, hn, fun hdel =>
    hd (Or.inl (Or.inr ⟨hcopies, hn, hdel, rfl, rfl⟩))⟩
  refine ⟨_, getCluster_update_self hcopiesCluster, ?_⟩
  rw [hfirst, find_updateCluster, if_pos]
  · exact hb
  · by_contra hblob
    rw [not_or, not_not] at hblob
    exact hw hcopiesCluster hblob.1 (by rw [hblob.2])

theorem data_updates {d : List UInt8} (h : ∃ x, t.getCluster s c = some x ∧
      (x.children.find b).map (fun b => b.data) = some d) (hd : ∀ u ∈ us, ¬u.Deletes ⟨s, c, b⟩)
    (hw : ∀ u ∈ us, u.CopiesCluster → u.blob ≠ nextFreeBlobId → u.toBlobLocation ≠ ⟨s, c, b⟩) :
    ∃ x, (updates m us t).getCluster s c = some x ∧
      (x.children.find b).map (fun b => b.data) = some d := by
  induction us using List.reverseRecOn with
  | nil => exact h
  | append_singleton us u ih =>
    obtain ⟨hd, hdu⟩ := NextFree.forall_mem_concat.mp hd
    obtain ⟨hw, hwu⟩ := NextFree.forall_mem_concat.mp hw
    rw [updates_concat]
    exact data_update (ih hd hw) hdu hwu

/-- A location of a blob. -/
theorem HasLocation.hasBlob (hl : HasLocation t l) (hb : l.blob ≤ maxBlobId) :
    HasBlob t l.segment l.cluster l.blob := by
  have hnext : ¬BlobsDb.nextFreeBlobId ≤ maxBlobId := by decide
  have hdelete : ¬clusterDeleteId ≤ maxBlobId := by decide
  have hlist : ¬blobListId ≤ maxBlobId := by decide
  cases hl with
  | nextFreeSegmentId => exact absurd hb hnext
  | segmentList => exact absurd hb hlist
  | nextFreeClusterId => exact absurd hb hnext
  | segmentDelete => exact absurd hb hdelete
  | clusterList => exact absurd hb hlist
  | nextFreeBlobId => exact absurd hb hnext
  | clusterDelete => exact absurd hb hdelete
  | blobList => exact absurd hb hlist
  | blob hc hblob => exact ⟨_, hc, hblob⟩

/-- An entry that deletes a location changes it. -/
theorem not_deletes_of_not_changes (hus : ∀ u ∈ us, ¬Changes t u l) : ∀ u ∈ us, ¬u.Deletes l :=
  fun u hu hdel => hus u hu (.deleted hdel)

namespace Admissible

variable (h : Admissible t us)

include h

/-- The list of segments stays unless segments are created or deleted. -/
theorem content_updates_segmentList
    (hus : ∀ u ∈ us, ¬Changes t u ⟨segmentListId, clusterListId, blobListId⟩) :
    content (updates m us t) ⟨segmentListId, clusterListId, blobListId⟩ =
      content t ⟨segmentListId, clusterListId, blobListId⟩ := by
  refine congrArg (fun ids => some (idListContent ids)) (FlatMap.keys_congr fun s => ⟨fun hs => ?_,
    fun hs => ?_⟩)
  · refine (h.hasSegment hs).resolve_right fun hcreated => ?_
    obtain ⟨e, he, hw, -⟩ := hcreated
    exact hus e he (.segments (Or.inl hw))
  · exact isSome_getSegment_updates (Or.inl hs) fun u hu hdel =>
      hus u hu (.segments (Or.inr ⟨rfl, hdel.2⟩))

/-- The next free cluster id of a segment stays unless it is written. -/
theorem content_updates_nextFreeClusterId (hs : (t.getSegment s).isSome)
    (hus : ∀ u ∈ us, ¬Changes t u ⟨s, nextFreeClusterId, nextFreeBlobId⟩) :
    content (updates m us t) ⟨s, nextFreeClusterId, nextFreeBlobId⟩ =
      content t ⟨s, nextFreeClusterId, nextFreeBlobId⟩ := by
  have ht := h.below
  have hafter : After t us (updates m us t) := h.after
  have hd := not_deletes_of_not_changes hus
  have hle := ht.segment_le hs
  obtain ⟨x, hx⟩ := Option.isSome_iff_exists.mp hs
  obtain ⟨y, hy⟩ := Option.isSome_iff_exists.mp (isSome_getSegment_updates (m := m) (Or.inl hs)
    fun u hu hdel => hd u hu (Or.inl (Or.inl hdel)))
  have hinfo := (hafter.segment s y hy).eq_of_not_writes fun u hu hw => hus u hu (.nextCluster hw)
  rw [nextClusterId, hx] at hinfo
  rw [content_nextFreeClusterId hle, content_nextFreeClusterId hle, hx, hy, Option.map_some,
    Option.map_some, hinfo]
  rfl

/-- The list of clusters stays unless clusters are created or deleted. -/
theorem content_updates_clusterList (hs : (t.getSegment s).isSome)
    (hus : ∀ u ∈ us, ¬Changes t u ⟨s, clusterListId, blobListId⟩) :
    content (updates m us t) ⟨s, clusterListId, blobListId⟩ =
      content t ⟨s, clusterListId, blobListId⟩ := by
  have ht := h.below
  have hafter : After t us (updates m us t) := h.after
  have hd := not_deletes_of_not_changes hus
  have hle := ht.segment_le hs
  obtain ⟨x, hx⟩ := Option.isSome_iff_exists.mp hs
  obtain ⟨y, hy⟩ := Option.isSome_iff_exists.mp (isSome_getSegment_updates (m := m) (Or.inl hs)
    fun u hu hdel => hd u hu (Or.inl (Or.inl hdel)))
  rw [content_clusterList hle, content_clusterList hle, hx, hy]
  refine congrArg (fun ids => some (idListContent ids)) (FlatMap.keys_congr fun c => ?_)
  have hx' : (x.children.find c).isSome ↔ (t.getCluster s c).isSome := by rw [getCluster, hx]
  have hy' : (y.children.find c).isSome ↔ ((updates m us t).getCluster s c).isSome := by
    rw [getCluster, hy]
  rw [hx', hy']
  refine ⟨fun hc => ?_, fun hc => ?_⟩
  · refine (h.hasCluster hc).resolve_right fun hcreated => ?_
    rcases hcreated with ⟨hcreated, -⟩ | ⟨e, he, hw, -⟩
    · rw [hcreated.getSegment ht] at hx
      cases hx
    · exact hus e he (.clusters (Or.inl hw))
  · refine isSome_getCluster_updates (Or.inl hc) fun u hu hdel => ?_
    rcases hdel with hdel | hdel
    · exact hd u hu (Or.inl (Or.inl hdel))
    · exact hus u hu (.clusters (Or.inr ⟨hdel.1, hdel.2.1, hdel.2.2.1, hdel.2.2.2.1⟩))

/-- The next free blob id of a cluster stays unless it is written. -/
theorem content_updates_nextFreeBlobId (hc : (t.getCluster s c).isSome)
    (hus : ∀ u ∈ us, ¬Changes t u ⟨s, c, nextFreeBlobId⟩) :
    content (updates m us t) ⟨s, c, nextFreeBlobId⟩ =
      content t ⟨s, c, nextFreeBlobId⟩ := by
  have ht := h.below
  have hafter : After t us (updates m us t) := h.after
  have hd := not_deletes_of_not_changes hus
  have hle := ht.cluster_le hc
  obtain ⟨x, hx⟩ := Option.isSome_iff_exists.mp hc
  obtain ⟨y, hy⟩ := Option.isSome_iff_exists.mp (isSome_getCluster_updates (m := m) (Or.inl hc)
    fun u hu hdel => hd u hu (Or.inl hdel))
  have hinfo := (hafter.cluster s c y hy).eq_of_not_writes fun u hu hw => hus u hu (.nextBlob hw)
  rw [nextBlobId, hx] at hinfo
  rw [content_nextFreeBlobId hle, content_nextFreeBlobId hle, hx, hy, Option.map_some,
    Option.map_some, hinfo]
  rfl

/-- The list of blobs stays unless blobs are created or deleted. -/
theorem content_updates_blobList (hc : (t.getCluster s c).isSome)
    (hus : ∀ u ∈ us, ¬Changes t u ⟨s, c, blobListId⟩) :
    content (updates m us t) ⟨s, c, blobListId⟩ =
      content t ⟨s, c, blobListId⟩ := by
  have ht := h.below
  have hafter : After t us (updates m us t) := h.after
  have hd := not_deletes_of_not_changes hus
  have hle := ht.cluster_le hc
  obtain ⟨x, hx⟩ := Option.isSome_iff_exists.mp hc
  obtain ⟨y, hy⟩ := Option.isSome_iff_exists.mp (isSome_getCluster_updates (m := m) (Or.inl hc)
    fun u hu hdel => hd u hu (Or.inl hdel))
  rw [content_blobList hle, content_blobList hle, hx, hy]
  refine congrArg (fun ids => some (idListContent ids)) (FlatMap.keys_congr fun b =>
    ⟨fun hb => ?_, fun hb => ?_⟩)
  · rcases h.hasBlob ⟨y, hy, hb⟩ with ⟨z, hz, hb⟩ | ⟨hcreated, -⟩ | ⟨u, hu, hcopies, hn, hloc⟩
    · exact Option.some.inj (hx.symm.trans hz) ▸ hb
    · rw [hcreated.getCluster ht] at hx
      cases hx
    · obtain rfl : u.segment = s := congrArg BlobLocation.segment hloc
      obtain rfl : u.cluster = c := congrArg BlobLocation.cluster hloc
      obtain rfl : u.blob = b := congrArg BlobLocation.blob hloc
      by_contra hnot
      refine hus u hu (.listed hcopies hn (Or.inr fun hl => hnot ?_))
      obtain ⟨z, hz⟩ := Option.isSome_iff_exists.mp hb
      obtain ⟨w, hw, hw'⟩ := hl.hasBlob ((hafter.below.cluster hy).2.blob_le hz)
      exact Option.some.inj (hx.symm.trans hw) ▸ hw'
  · have hblob : HasBlob (updates m us t) s c b := by
      refine HasBlob.updates ⟨x, hx, hb⟩ fun u hu hdel => ?_
      rcases hdel with hdel | ⟨hcopies, hn, hdata, hloc⟩
      · exact hd u hu (Or.inl hdel)
      · obtain rfl : u.segment = s := congrArg BlobLocation.segment hloc
        obtain rfl : u.cluster = c := congrArg BlobLocation.cluster hloc
        exact hus u hu (.listed hcopies hn (Or.inl hdata))
    obtain ⟨z, hz, hb⟩ := hblob
    exact Option.some.inj (hy.symm.trans hz) ▸ hb

/-- A blob stays unless it is written or deleted. -/
theorem content_updates_blob {b : BlobId} {x : DbTree μ 1}
    (hc : t.getCluster s c = some x) (hb : (x.children.find b).isSome)
    (hus : ∀ u ∈ us, ¬Changes t u ⟨s, c, b⟩) :
    content (updates m us t) ⟨s, c, b⟩ =
      content t ⟨s, c, b⟩ := by
  have ht := h.below
  have hd := not_deletes_of_not_changes hus
  obtain ⟨z, hz⟩ := Option.isSome_iff_exists.mp hb
  have hle := (ht.cluster hc).2.blob_le hz
  have hlist : b ≠ blobListId := fun heq => absurd (heq ▸ hle) (by decide)
  have hnext : b ≠ nextFreeBlobId := fun heq => absurd (heq ▸ hle) (by decide)
  obtain ⟨y, hy, hdata⟩ := data_updates (m := m) (d := z.data)
    ⟨x, hc, by rw [hz]; rfl⟩ hd fun u hu hcopies hn hloc => hus u hu (hloc ▸ .blob hcopies hn)
  rw [content_of_ne hlist hnext, content_of_ne hlist hnext, hc, hy, Option.bind_some,
    Option.bind_some, hdata, hz]
  rfl

/-- What no entry changes stays. -/
theorem content_updates (hl : HasLocation t l) (hus : ∀ u ∈ us, ¬Changes t u l) :
    content (updates m us t) l = content t l := by
  have hafter : After t us (updates m us t) := h.after
  cases hl with
  | nextFreeSegmentId =>
    rw [content_nextFreeSegmentId, content_nextFreeSegmentId,
      hafter.info.eq_of_not_writes fun u hu hw => hus u hu (.nextSegment hw)]
  | segmentList => exact h.content_updates_segmentList hus
  | nextFreeClusterId hs => exact h.content_updates_nextFreeClusterId hs hus
  | segmentDelete => rw [content_delete hafter.below, content_delete h.below]
  | clusterList hs => exact h.content_updates_clusterList hs hus
  | nextFreeBlobId hc => exact h.content_updates_nextFreeBlobId hc hus
  | clusterDelete => rw [content_delete hafter.below, content_delete h.below]
  | blobList hc => exact h.content_updates_blobList hc hus
  | blob hc hb => exact h.content_updates_blob hc hb hus

end Admissible

/-- A location of a segment or of something in it. -/
theorem HasLocation.isSome_getSegment (hl : HasLocation t l) (hs : l.segment ≤ maxSegmentId) :
    (t.getSegment l.segment).isSome := by
  cases hl with
  | nextFreeSegmentId => exact absurd hs (show ¬BlobsDb.nextFreeSegmentId ≤ maxSegmentId by decide)
  | segmentList => exact absurd hs (show ¬segmentListId ≤ maxSegmentId by decide)
  | nextFreeClusterId hsome => exact hsome
  | segmentDelete hsome => exact hsome
  | clusterList hsome => exact hsome
  | nextFreeBlobId hc => exact isSome_getSegment_of_getCluster hc
  | clusterDelete hc => exact isSome_getSegment_of_getCluster hc
  | blobList hc => exact isSome_getSegment_of_getCluster hc
  | blob hc => exact isSome_getSegment_of_getCluster (by rw [hc]; rfl)

end DbTree

namespace Validation

variable {own : BlobLocation → Bool} {t : Tree 3} {us : List BlobData} {u : BlobData}
  {v : Validation} {s : SegmentId} {c : ClusterId} {l : BlobLocation}

/-! ### What is locked -/

namespace Locked

variable (h : Locked own t us u)

include h

theorem own_nextSegment (hu : u.WritesNextSegment) :
    own ⟨nextFreeSegmentId, nextFreeClusterId, nextFreeBlobId⟩ = true ∧
      own ⟨segmentListId, clusterListId, blobListId⟩ = true := by
  have hloc := h.nextSegment hu
  have hb : u.blob ≠ clusterDeleteId := by
    rw [show u.blob = nextFreeBlobId from congrArg BlobLocation.blob hloc]
    decide
  obtain ⟨ls, hls, howned⟩ := h.locks.resolve_left fun hdel => hb hdel.1
  rw [hloc] at hls
  obtain rfl := Option.some.inj hls
  exact ⟨howned _ List.mem_cons_self .nextFreeSegmentId,
    howned _ (List.mem_cons_of_mem _ List.mem_cons_self) .segmentList⟩

theorem own_nextCluster (hu : u.WritesNextCluster s) (hs : (t.getSegment s).isSome)
    (hne : s ≠ nextFreeSegmentId) : own ⟨s, nextFreeClusterId, nextFreeBlobId⟩ = true ∧
      own ⟨s, clusterListId, blobListId⟩ = true := by
  have hloc := h.nextCluster s hu
  have hb : u.blob ≠ clusterDeleteId := by
    rw [show u.blob = nextFreeBlobId from congrArg BlobLocation.blob hloc]
    decide
  obtain ⟨ls, hls, howned⟩ := h.locks.resolve_left fun hdel => hb hdel.1
  rw [hloc, forEachLockForLocation, if_neg (show nextFreeBlobId ≠ clusterDeleteId by decide),
    if_pos rfl, if_pos rfl, if_neg hne] at hls
  obtain rfl := Option.some.inj hls
  exact ⟨howned _ List.mem_cons_self (.nextFreeClusterId hs),
    howned _ (List.mem_cons_of_mem _ List.mem_cons_self) (.clusterList hs)⟩

theorem own_nextBlob (hu : u.WritesNextBlob s c) (hc : (t.getCluster s c).isSome) :
    own ⟨s, c, nextFreeBlobId⟩ = true ∧ own ⟨s, c, blobListId⟩ = true := by
  obtain ⟨hcopies, rfl, rfl, hblob⟩ := hu
  obtain ⟨ls, hls, howned⟩ := h.locks.resolve_left fun hdel => hcopies.2.2 hdel.1
  rw [forEachLockForLocation, if_neg hcopies.2.2, if_pos hblob, if_neg hcopies.2.1] at hls
  obtain rfl := Option.some.inj hls
  refine ⟨?_, howned _ (List.mem_cons_of_mem _ List.mem_cons_self) (.blobList hc)⟩
  rw [← hblob]
  refine howned _ List.mem_cons_self ?_
  rw [show u.toBlobLocation = ⟨u.segment, u.cluster, nextFreeBlobId⟩ by rw [← hblob]]
  exact .nextFreeBlobId hc

end Locked

/-- A client whose entries pass has locked what they change, apart from lists that blobs are taken
off. -/
theorem Passes.own_of_changes (h : Passes own t us v) (ht : BelowNextFree t)
    (hown : ∀ l, own l = true → HasLocation t l) (hrange : ∀ u ∈ us, u.InRange) (hu : u ∈ us)
    (hc : DbTree.Changes t u l) (hl : HasLocation t l)
    (hlists : u.DeletesBlob u.toBlobLocation →
      HasLocation t ⟨u.segment, u.cluster, blobListId⟩ →
        own ⟨u.segment, u.cluster, blobListId⟩ = true) : own l = true := by
  have hlocked : ∀ e ∈ us, ∃ us₁, us₁ ⊆ us ∧ Locked own t us₁ e := fun e he => by
    obtain ⟨us₁, us₂, heq⟩ := List.append_of_mem he
    exact ⟨us₁, heq ▸ List.subset_append_left _ _, (h.allowed us₁ e us₂ heq).2⟩
  obtain ⟨us₁, hsub, hlock⟩ := hlocked u hu
  have hsegment : u.CopiesSegment → u.segment ≤ maxSegmentId := fun hcopies =>
    ((hrange u hu).resolve_left hcopies.1).1
  have hcluster : u.CopiesCluster → u.cluster ≤ maxClusterId := fun hcopies => by
    have hcases := ((hrange u hu).resolve_left hcopies.1.1).2
    exact ((hcases.resolve_left hcopies.2.1).resolve_left hcopies.1.2).1
  cases hc with
  | nextSegment hw => exact (hlock.own_nextSegment hw).1
  | segments hw =>
    rcases hw with hw | hdel
    · exact (hlock.own_nextSegment hw).2
    rcases hlock.locks with ⟨-, ⟨-, e, he, hw, -⟩ | ⟨hne, -⟩⟩ | ⟨ls, hls, howned⟩
    · -- the segment was created by an entry before
      obtain ⟨us₂, -, hlock'⟩ := hlocked e (hsub he)
      exact (hlock'.own_nextSegment hw).2
    · exact absurd hdel.2.2 hne
    · rw [forEachLockForLocation, if_pos (hlock.segmentDelete hdel), if_pos hdel.2.2] at hls
      obtain ⟨x, -, rfl⟩ := Option.map_eq_some_iff.mp hls
      exact howned _ (by simp) .segmentList
  | nextCluster hw =>
    have hs := hl.isSome_getSegment (hw.2.1 ▸ hsegment hw.1)
    exact (hlock.own_nextCluster hw hs (hw.2.1 ▸ hw.1.1)).1
  | clusters hw =>
    rcases hw with hw | ⟨hcopies, hn, hdel, rfl⟩
    · have hs := hl.isSome_getSegment (hw.2.1 ▸ hsegment hw.1)
      exact (hlock.own_nextCluster hw hs (hw.2.1 ▸ hw.1.1)).2
    have hs := hl.isSome_getSegment (hsegment hcopies)
    rcases hlock.locks with ⟨-, ⟨hseg, -⟩ | ⟨-, ⟨hcreated, -⟩ | ⟨e, he, hw, -⟩⟩⟩ | ⟨ls, hls, howned⟩
    · exact absurd hseg hcopies.2
    · rw [hcreated.getSegment ht] at hs
      cases hs
    · -- the cluster was created by an entry before
      obtain ⟨us₂, -, hlock'⟩ := hlocked e (hsub he)
      exact (hlock'.own_nextCluster hw hs hcopies.1).2
    · rw [forEachLockForLocation, if_pos hdel, if_neg hcopies.2] at hls
      obtain ⟨x, -, rfl⟩ := Option.map_eq_some_iff.mp hls
      exact howned _ (by simp) (.clusterList hs)
  | nextBlob hw =>
    obtain ⟨x, hx, -⟩ := mem_of_hasLocation_cluster hl (hw.2.2.1 ▸ hcluster hw.1)
      (hw.2.1 ▸ hsegment hw.1.1)
    exact (hlock.own_nextBlob hw (by rw [hx]; rfl)).1
  | blobs hw =>
    obtain ⟨x, hx, -⟩ := mem_of_hasLocation_cluster hl (hw.2.2.1 ▸ hcluster hw.1)
      (hw.2.1 ▸ hsegment hw.1.1)
    exact (hlock.own_nextBlob hw (by rw [hx]; rfl)).2
  | listed hcopies hn hnew =>
    rcases hnew with hdata | hnew
    · exact hlists ⟨hcopies, hn, hdata, rfl⟩ hl
    obtain ⟨x, hx, -⟩ := mem_of_hasLocation_cluster hl (hcluster hcopies) (hsegment hcopies.1)
    -- a blob that is not there was created, so the next free id was written
    rcases h.noted u hu hcopies hn with ho | hin
    · exact absurd (hown _ ho) hnew
    · have hnone : ¬ClusterCreated t us u.segment u.cluster := fun hcreated => by
        rw [hcreated.getCluster ht] at hx
        cases hx
      cases h.ledger.sound.encompassed _ hin with
      | first _ _ hcreated => exact absurd hcreated hnone
      | reserved _ _ hcreated => exact absurd hcreated hnone
      | reservedCluster _ _ hlt => exact absurd (hcluster hcopies) (not_le.mpr hlt)
      | blob _ _ _ _ hb =>
        obtain ⟨e, he, hw, -⟩ := hb
        obtain ⟨us₂, -, hlock'⟩ := hlocked e he
        exact (hlock'.own_nextBlob hw (by rw [hx]; rfl)).2
  | blob hcopies hn =>
    exact (h.noted u hu hcopies hn).resolve_right fun hin =>
      (h.ledger.sound.encompassed _ hin).not_hasLocation ht hl
  | deleted hdel => exact h.owned u hu l hdel hl

/-- What the client of a commit has not locked stays, if it has locked the lists that it takes blobs
off. -/
theorem Passes.untouched (h : Passes own t us v) (hadm : Admissible t us)
    (hown : ∀ l, own l = true → HasLocation t l) (hrange : ∀ u ∈ us, u.InRange)
    (hlists : ∀ u ∈ us, u.DeletesBlob u.toBlobLocation →
      HasLocation t ⟨u.segment, u.cluster, blobListId⟩ →
        own ⟨u.segment, u.cluster, blobListId⟩ = true)
    {σ : Schedule} {r : CommitResult} (hcommits : v.database.Commits us σ r) :
    ∃ t', (v.database.applyToDatabase r σ).Inv t' ∧ ∀ l, HasLocation t l → own l = false →
      HasLocation t' l ∧ t'.content l = t.content l := by
  obtain ⟨t', hinv', -, hlogical, -, hlocations⟩ := h.exists_commit hadm hcommits
  refine ⟨t', hinv', fun l hl hnot => ?_⟩
  have hus : ∀ u ∈ us, ¬DbTree.Changes t u l := fun u hu hc => by
    rw [h.own_of_changes hadm.below hown hrange hu hc hl (hlists u hu)] at hnot
    cases hnot
  have hd : ∀ u ∈ us, ¬u.Deletes l := fun u hu hdel => hus u hu (.deleted hdel)
  refine ⟨(hlocations t.mark l).mpr (hl.updates hd), ?_⟩
  -- the marks of the trees do not matter
  let m : Mark := { t.mark with commitId := v.database.commitId + 1 }
  have hupdates : Tree.logical t' = Tree.logical (DbTree.updates m us t) :=
    hlogical.trans (DbTree.changeMark_updates Mark.commitId m us t).symm
  calc t'.content l = (Tree.logical t').content l := (DbTree.content_changeMark _).symm
    _ = (Tree.logical (DbTree.updates m us t)).content l := by rw [hupdates]
    _ = (DbTree.updates m us t).content l := DbTree.content_changeMark _
    _ = t.content l := hadm.content_updates hl hus

end Validation

end BlobsDb
