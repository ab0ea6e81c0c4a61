import BlobsDb.Server.Lookup

/-!
# Orderly commits

Every id in a database is below the next free id of its parent. A commit keeps this if it is
orderly: it writes each next free id at most once, it leaves alone what it deleted, and it uses no
reserved ids. `Allowed t us u` is what validation makes sure of when the entry `u` comes after the
entries `us` of a commit to the tree `t`; `After t us t'` is what holds of the tree `t'` that the
entries `us` lead to.
-/

namespace BlobsDb

namespace DbTree

variable {μ ν : Type} {n : ℕ}

/-! ### What updates change -/

section

variable (m : μ) (u : BlobData) (id : UInt32)

theorem find_touch_none : (touch m (none : Option (DbTree μ (n + 1)))).children.find id =
    if id = 0 then some (created m n) else none := by
  change (FlatMap.empty.insert 0 (created m n)).find id = _
  rw [FlatMap.find_insert]
  rfl

theorem find_touch_some (t : DbTree μ (n + 1)) :
    (touch m (some t)).children.find id = t.children.find id := rfl

theorem info_update (t : DbTree μ 3) :
    (update m u t).info = if u.segment = nextFreeSegmentId then u.readId else t.info := by
  unfold update
  split_ifs <;> rfl

/-- An entry changes at most the segment it is about. -/
theorem getSegment_update (t : DbTree μ 3) : (update m u t).getSegment id =
    if u.segment = nextFreeSegmentId ∨ id ≠ u.segment then t.getSegment id
    else if u.cluster = segmentDeleteId then none
    else some (updateSegment m u (touch m (t.getSegment u.segment))) := by
  unfold update getSegment
  by_cases hs : u.segment = nextFreeSegmentId
  · simp [hs, setNextFreeId]
  by_cases hd : u.cluster = segmentDeleteId
  · by_cases hid : id = u.segment <;>
      simp [hs, hd, hid, eraseChild, FlatMap.find_erase]
  · by_cases hid : id = u.segment <;>
      simp [hs, hd, hid, setChild, FlatMap.find_insert]

theorem info_updateSegment (s : DbTree μ 2) :
    (updateSegment m u s).info = if u.cluster = nextFreeClusterId then u.readId else s.info := by
  unfold updateSegment
  split_ifs <;> rfl

/-- Within its segment, an entry changes at most the cluster it is about. -/
theorem find_updateSegment (s : DbTree μ 2) : (updateSegment m u s).children.find id =
    if u.cluster = nextFreeClusterId ∨ id ≠ u.cluster then s.children.find id
    else if u.blob = clusterDeleteId then none
    else some (updateCluster m u (touch m (s.children.find u.cluster))) := by
  unfold updateSegment
  by_cases hc : u.cluster = nextFreeClusterId
  · simp [hc, setNextFreeId]
  by_cases hd : u.blob = clusterDeleteId
  · by_cases hid : id = u.cluster <;>
      simp [hc, hd, hid, eraseChild, FlatMap.find_erase]
  · by_cases hid : id = u.cluster <;>
      simp [hc, hd, hid, setChild, FlatMap.find_insert]

theorem info_updateCluster (c : DbTree μ 1) :
    (updateCluster m u c).info = if u.blob = nextFreeBlobId then u.readId else c.info := by
  unfold updateCluster
  split_ifs
  · rfl
  · cases u.data <;> rfl

/-- Within its cluster, an entry changes at most the blob it is about. -/
theorem find_updateCluster (c : DbTree μ 1) : (updateCluster m u c).children.find id =
    if u.blob = nextFreeBlobId ∨ id ≠ u.blob then c.children.find id
    else u.data.map fun data => LevelTree.leaf m data := by
  unfold updateCluster
  by_cases hb : u.blob = nextFreeBlobId
  · simp [hb, setNextFreeId]
  cases hdata : u.data with
  | none =>
    by_cases hid : id = u.blob <;> simp [hb, hid, eraseChild, FlatMap.find_erase]
  | some data =>
    by_cases hid : id = u.blob <;> simp [hb, hid, setChild, FlatMap.find_insert]

end

/-! ### Ids below the next free id -/

/-- The next free id of the segment, or of a new one. -/
def nextClusterId (t : DbTree μ 3) (segment : SegmentId) : ClusterId :=
  ((t.getSegment segment).map LevelTree.Inner.info).getD 1

/-- The next free id of the cluster, or of a new one. -/
def nextBlobId (t : DbTree μ 3) (segment : SegmentId) (cluster : ClusterId) : BlobId :=
  ((t.getCluster segment cluster).map LevelTree.Inner.info).getD 1

/-- All ids are below the next free id of their parent, which is at most one above the maximal id
(the same number at all levels). -/
def BelowNextFree : {n : ℕ} → DbTree μ n → Prop
  | 0, _ => True
  | _ + 1, t => t.info ≤ maxBlobId + 1 ∧
    ∀ id c, t.children.find id = some c → id < t.info ∧ BelowNextFree c

/-- Whether ids are below the next free ones does not depend on versions. -/
theorem belowNextFree_changeMark (g : μ → ν) {t : DbTree μ n} :
    BelowNextFree (changeMark g t) ↔ BelowNextFree t := by
  induction n with
  | zero => rfl
  | succ n ih =>
    refine and_congr Iff.rfl ⟨fun h id c hc => ?_, fun h id c hc => ?_⟩
    · obtain ⟨h1, h2⟩ := h id (changeMark g c) (by rw [find_changeMark, hc]; rfl)
      exact ⟨h1, ih.mp h2⟩
    · rw [find_changeMark] at hc
      obtain ⟨d, hd, rfl⟩ := Option.map_eq_some_iff.mp hc
      obtain ⟨h1, h2⟩ := h id d hd
      exact ⟨h1, ih.mpr h2⟩

/-- A new object has its ids below the next free one. -/
theorem belowNextFree_created (m : μ) (n : ℕ) : BelowNextFree (created m n) := by
  induction n with
  | zero => trivial
  | succ n ih =>
    refine ⟨show (1 : UInt32) ≤ maxBlobId + 1 by decide, fun id c hc => ?_⟩
    obtain ⟨rfl, rfl⟩ := FlatMap.find_insert_empty_eq_some.mp hc
    exact ⟨show (0 : UInt32) < 1 by decide, ih⟩

theorem belowNextFree_setMark (m : μ) {t : DbTree μ n} :
    BelowNextFree (t.setMark m) ↔ BelowNextFree t := by
  cases n <;> rfl

theorem BelowNextFree.touch {m : μ} {t : Option (DbTree μ n)} (h : ∀ c ∈ t, BelowNextFree c) :
    BelowNextFree (touch m t) := by
  cases t with
  | none => exact belowNextFree_created m n
  | some t => exact (belowNextFree_setMark m).mpr (h t rfl)

variable {t t' : DbTree μ 3}

/-- The ids of segments are below the next free one, and so within each segment. -/
theorem BelowNextFree.segment (h : BelowNextFree t) {segment : SegmentId} {s : DbTree μ 2}
    (hs : t.getSegment segment = some s) : segment < t.info ∧ BelowNextFree s := h.2 segment s hs

theorem getCluster_eq_some_iff {segment : SegmentId} {cluster : ClusterId} {c : DbTree μ 1} :
    t.getCluster segment cluster = some c ↔
      ∃ s, t.getSegment segment = some s ∧ s.children.find cluster = some c := by
  unfold getCluster
  cases t.getSegment segment <;> simp

/-- The ids of clusters are below the next free one, and so within each cluster. -/
theorem BelowNextFree.cluster (h : BelowNextFree t) {segment : SegmentId} {cluster : ClusterId}
    {c : DbTree μ 1} (hc : t.getCluster segment cluster = some c) :
    cluster < t.nextClusterId segment ∧ BelowNextFree c := by
  obtain ⟨s, hs, hfind⟩ := getCluster_eq_some_iff.mp hc
  rw [nextClusterId, hs]
  exact (h.segment hs).2.2 cluster c hfind

end DbTree

/-! ### Entries that go together -/

namespace BlobData

/-- The entry writes the next free segment id. -/
def WritesNextSegment (u : BlobData) : Prop := u.segment = nextFreeSegmentId

/-- The entry writes the next free cluster id of a segment. -/
def WritesNextCluster (u : BlobData) (segment : SegmentId) : Prop :=
  u.CopiesSegment ∧ u.segment = segment ∧ u.cluster = nextFreeClusterId

/-- The entry writes the next free blob id of a cluster. -/
def WritesNextBlob (u : BlobData) (segment : SegmentId) (cluster : ClusterId) : Prop :=
  u.CopiesCluster ∧ u.segment = segment ∧ u.cluster = cluster ∧ u.blob = nextFreeBlobId

/-- An entry should not come after the entry `e`: both create segments, or clusters of the same
segment, or both write the same next free blob id and it is decreased, or `e` deletes the segment
or the cluster that the other changes something in. -/
inductive Clashes (e u : BlobData) : Prop
  | nextSegment (he : e.WritesNextSegment) (hu : u.WritesNextSegment)
  | nextCluster (he : e.WritesNextCluster u.segment) (hu : u.WritesNextCluster u.segment)
  | nextBlob (he : e.WritesNextBlob u.segment u.cluster)
      (hu : u.WritesNextBlob u.segment u.cluster) (hlt : u.readId < e.readId)
  | segment (he : e.DeletesSegment u.segment) (hu : u.CopiesSegment)
  | cluster (he : e.DeletesCluster u.segment u.cluster) (hu : u.CopiesCluster)

end BlobData

/-- What the writes of a next free id lead to: it is the old id or one that was written, and none
of these is above it. -/
structure NextFree (writes : BlobData → Prop) (us : List BlobData) (old new : UInt32) :
    Prop where
  ge : old ≤ new
  eq : new = old ∨ ∃ e ∈ us, writes e ∧ new = e.readId
  written : ∀ e ∈ us, writes e → e.readId ≤ new

namespace NextFree

variable {writes : BlobData → Prop} {us : List BlobData} {u : BlobData} {old new : UInt32}

/-- Entries that do not write the id leave it. -/
theorem of_not_writes (h : ∀ e ∈ us, ¬writes e) : NextFree writes us old old :=
  ⟨le_refl old, Or.inl rfl, fun e he hw => absurd hw (h e he)⟩

theorem eq_of_not_writes (h : NextFree writes us old new) (hus : ∀ e ∈ us, ¬writes e) :
    new = old :=
  h.eq.resolve_right fun ⟨e, he, hw, _⟩ => hus e he hw

theorem forall_mem_concat {P : BlobData → Prop} :
    (∀ e ∈ us ++ [u], P e) ↔ (∀ e ∈ us, P e) ∧ P u := by
  simp only [List.mem_append, List.mem_singleton, or_imp, forall_and, forall_eq]

theorem exists_mem_concat {P : BlobData → Prop} (he : ∃ e ∈ us, P e) : ∃ e ∈ us ++ [u], P e := by
  obtain ⟨e, he, hP⟩ := he
  exact ⟨e, List.mem_append_left _ he, hP⟩

/-- An entry that does not write the id leaves it. -/
theorem concat_of_not (h : NextFree writes us old new) (hu : ¬writes u) :
    NextFree writes (us ++ [u]) old new :=
  ⟨h.ge, h.eq.imp_right exists_mem_concat,
    forall_mem_concat.mpr ⟨h.written, fun hw => absurd hw hu⟩⟩

/-- The next free id is written once more. -/
theorem le_readId (h : NextFree writes us old new) (hge : old ≤ u.readId)
    (hus : ∀ e ∈ us, writes e → e.readId ≤ u.readId) : new ≤ u.readId := by
  rcases h.eq with rfl | ⟨e, he, hw, rfl⟩
  · exact hge
  · exact hus e he hw

/-- An entry that writes the id, and does not lower it, sets it. -/
theorem concat (hu : writes u) (hge : old ≤ u.readId)
    (hus : ∀ e ∈ us, writes e → e.readId ≤ u.readId) :
    NextFree writes (us ++ [u]) old u.readId :=
  ⟨hge, Or.inr ⟨u, List.mem_append_right _ (List.mem_singleton_self u), hu, rfl⟩,
    forall_mem_concat.mpr ⟨hus, fun _ => le_refl _⟩⟩

end NextFree

namespace DbTree

variable {μ : Type} {t t₁ : DbTree μ 3} {us : List BlobData} {u : BlobData} {s : SegmentId}
  {c : ClusterId} {m : μ}

/-- The entries create the segment. -/
def SegmentCreated (t : DbTree μ 3) (us : List BlobData) (segment : SegmentId) : Prop :=
  ∃ e ∈ us, e.WritesNextSegment ∧ t.info ≤ segment ∧ segment < e.readId

/-- The entries create the cluster, possibly with its segment. -/
def ClusterCreated (t : DbTree μ 3) (us : List BlobData) (segment : SegmentId)
    (cluster : ClusterId) : Prop :=
  (SegmentCreated t us segment ∧ cluster = 0) ∨
    ∃ e ∈ us, e.WritesNextCluster segment ∧ t.nextClusterId segment ≤ cluster ∧ cluster < e.readId

/-- The cluster exists or is created by the entries. -/
def HasCluster (t : DbTree μ 3) (us : List BlobData) (segment : SegmentId)
    (cluster : ClusterId) : Prop :=
  (t.getCluster segment cluster).isSome ∨ ClusterCreated t us segment cluster

/-- What validation ensures of an entry that comes after others. -/
inductive Allowed (t : DbTree μ 3) (us : List BlobData) (u : BlobData) : Prop
  | nextSegment (hs : u.WritesNextSegment) (hge : t.info ≤ u.readId)
      (hle : u.readId ≤ maxSegmentId + 1)
  | nextCluster (hu : u.WritesNextCluster u.segment)
      (hs : (t.getSegment u.segment).isSome ∨ SegmentCreated t us u.segment)
      (hge : t.nextClusterId u.segment ≤ u.readId) (hle : u.readId ≤ maxClusterId + 1)
  | nextBlob (hu : u.WritesNextBlob u.segment u.cluster)
      (hc : t.HasCluster us u.segment u.cluster)
      (hge : t.nextBlobId u.segment u.cluster ≤ u.readId) (hle : u.readId ≤ maxBlobId + 1)
  | deleteSegment (hu : u.DeletesSegment u.segment)
  | deleteCluster (hu : u.CopiesSegment) (hn : u.cluster ≠ nextFreeClusterId)
      (hd : u.blob = clusterDeleteId) (hc : t.HasCluster us u.segment u.cluster)
  | blob (hu : u.CopiesCluster) (hn : u.blob ≠ nextFreeBlobId)
      (hc : t.HasCluster us u.segment u.cluster)
      (hb : u.blob < t.nextBlobId u.segment u.cluster ∨
        ∃ e ∈ us, e.WritesNextBlob u.segment u.cluster ∧ u.blob < e.readId)

/-- The next free id of an existing segment after some entries. -/
abbrev NextCluster (t : DbTree μ 3) (us : List BlobData) (segment : SegmentId)
    (new : ClusterId) : Prop :=
  NextFree (fun e => e.WritesNextCluster segment) us (t.nextClusterId segment) new

/-- The next free id of an existing cluster after some entries. -/
abbrev NextBlob (t : DbTree μ 3) (us : List BlobData) (segment : SegmentId) (cluster : ClusterId)
    (new : BlobId) : Prop :=
  NextFree (fun e => e.WritesNextBlob segment cluster) us (t.nextBlobId segment cluster) new

/-- The cluster was deleted, or it did not exist and was left alone. -/
def ClusterGone (t : DbTree μ 3) (us : List BlobData) (segment : SegmentId)
    (cluster : ClusterId) : Prop :=
  (∃ e ∈ us, e.DeletesCluster segment cluster) ∨
    t.getCluster segment cluster = none ∧ ∀ e ∈ us, ¬e.WritesNextBlob segment cluster

/-- What the entries of a commit to `t` lead to. -/
structure After (t : DbTree μ 3) (us : List BlobData) (t₁ : DbTree μ 3) : Prop where
  below : BelowNextFree t₁
  info : NextFree BlobData.WritesNextSegment us t.info t₁.info
  segment : ∀ segment s, t₁.getSegment segment = some s → NextCluster t us segment s.info
  segment_none : ∀ segment, t₁.getSegment segment = none → (∃ e ∈ us, e.DeletesSegment segment) ∨
    t.getSegment segment = none ∧ ∀ e ∈ us, e.segment = segment → ¬e.CopiesSegment
  cluster : ∀ segment cluster c, t₁.getCluster segment cluster = some c →
    NextBlob t us segment cluster c.info
  cluster_none : ∀ segment cluster, t₁.getCluster segment cluster = none →
    ClusterGone t us segment cluster

/-! ### One more entry -/

/-- A segment that is not there yet starts with one cluster. -/
theorem info_le_nextClusterId (ht : BelowNextFree t) (hs : t.info ≤ s) : t.nextClusterId s = 1 := by
  unfold nextClusterId
  cases hfind : t.getSegment s with
  | none => rfl
  | some seg => exact absurd (ht.segment hfind).1 (not_lt.mpr hs)

theorem ClusterGone.concat {cluster : ClusterId} (h : ClusterGone t us s cluster)
    (hu : ¬u.WritesNextBlob s cluster) : ClusterGone t (us ++ [u]) s cluster :=
  h.imp NextFree.exists_mem_concat fun h => ⟨h.1, NextFree.forall_mem_concat.mpr ⟨h.2, hu⟩⟩

namespace After

open NextFree (forall_mem_concat exists_mem_concat)

/-- Before the first entry, nothing has happened. -/
theorem nil (ht : BelowNextFree t) : After t [] (t.setMark m) where
  below := (belowNextFree_setMark m).mpr ht
  info := .of_not_writes fun _ he => (nomatch he)
  segment segment s hs := by
    have heq : t.nextClusterId segment = s.info := by
      rw [nextClusterId, show t.getSegment segment = some s from hs]
      rfl
    exact heq ▸ .of_not_writes fun _ he => (nomatch he)
  segment_none segment hs := Or.inr ⟨hs, fun _ he => nomatch he⟩
  cluster segment cluster c hc := by
    have heq : t.nextBlobId segment cluster = c.info := by
      rw [nextBlobId, show t.getCluster segment cluster = some c from hc]
      rfl
    exact heq ▸ .of_not_writes fun _ he => (nomatch he)
  cluster_none segment cluster hc := Or.inr ⟨hc, fun _ he => nomatch he⟩

variable (h : After t us t₁)

include h

/-- The segment to change. -/
theorem touchSegment (hdel : ∀ e ∈ us, ¬e.DeletesSegment s) :
    NextCluster t us s (touch m (t₁.getSegment s)).info ∧
      ∀ c, (∀ x, (touch m (t₁.getSegment s)).children.find c = some x →
          NextBlob t us s c x.info) ∧
        ((touch m (t₁.getSegment s)).children.find c = none → ClusterGone t us s c) := by
  cases hs : t₁.getSegment s with
  | some seg =>
    refine ⟨h.segment s seg hs, fun c => ⟨fun x hx => ?_, fun hx => ?_⟩⟩
    · exact h.cluster s c x (getCluster_eq_some_iff.mpr ⟨seg, hs, hx⟩)
    · refine h.cluster_none s c ?_
      rw [getCluster, hs]
      exact hx
  | none =>
    rcases h.segment_none s hs with ⟨e, he, hd⟩ | ⟨hnone, hfresh⟩
    · exact absurd hd (hdel e he)
    have hnext : t.nextClusterId s = 1 := by
      rw [nextClusterId, hnone]
      rfl
    have hcluster : ∀ c, t.getCluster s c = none := fun c => by rw [getCluster, hnone]
    have hblob : ∀ c, t.nextBlobId s c = 1 := fun c => by
      rw [nextBlobId, hcluster]
      rfl
    have hnot : ∀ c, ∀ e ∈ us, ¬e.WritesNextBlob s c := fun c e he hw =>
      hfresh e he hw.2.1 hw.1.1
    refine ⟨?_, fun c => ⟨fun x hx => ?_, fun _ => Or.inr ⟨hcluster c, hnot c⟩⟩⟩
    · rw [NextCluster, hnext]
      exact .of_not_writes fun e he hw => hfresh e he hw.2.1 hw.1
    · rw [find_touch_none] at hx
      split_ifs at hx
      obtain rfl := Option.some.inj hx
      rw [NextBlob, hblob]
      exact .of_not_writes (hnot c)

/-- Segments that exist or are created are below the next free id. -/
theorem segment_lt (ht : BelowNextFree t) (hs : (t.getSegment s).isSome ∨ SegmentCreated t us s) :
    s < t₁.info := by
  rcases hs with hs | ⟨e, he, hnext, -, hlt⟩
  · obtain ⟨seg, hs⟩ := Option.isSome_iff_exists.mp hs
    exact lt_of_lt_of_le (ht.segment hs).1 h.info.ge
  · exact lt_of_lt_of_le hlt (h.info.written e he hnext)

/-- Clusters that exist or are created are below the next free id, and so are their segments. -/
theorem cluster_lt (ht : BelowNextFree t) (hdel : ∀ e ∈ us, ¬e.DeletesSegment s)
    (hc : HasCluster t us s c) :
    s < t₁.info ∧ c < (touch m (t₁.getSegment s)).info := by
  obtain ⟨h1, -⟩ := h.touchSegment (m := m) hdel
  rcases hc with hc | ⟨hs, rfl⟩ | ⟨e, he, hw, -, hlt⟩
  · obtain ⟨x, hx⟩ := Option.isSome_iff_exists.mp hc
    obtain ⟨seg, hs, -⟩ := getCluster_eq_some_iff.mp hx
    exact ⟨lt_of_lt_of_le (ht.segment hs).1 h.info.ge, lt_of_lt_of_le (ht.cluster hx).1 h1.ge⟩
  · obtain ⟨e, he, -, hge, hlt⟩ := id hs
    have hone := h1.ge
    rw [info_le_nextClusterId ht hge] at hone
    exact ⟨h.segment_lt ht (Or.inr hs), lt_of_lt_of_le (by decide) hone⟩
  · refine ⟨?_, lt_of_lt_of_le hlt (h1.written e he hw)⟩
    cases hs : t₁.getSegment s with
    | some seg => exact (h.below.segment hs).1
    | none =>
      rcases h.segment_none s hs with ⟨d, hd, hdeletes⟩ | ⟨-, hfresh⟩
      · exact absurd hdeletes (hdel d hd)
      · exact absurd hw.1 (hfresh e he hw.2.1)

/-- An entry that changes something in a segment. -/
theorem copySegment {S : DbTree μ 2} (hu : u.CopiesSegment)
    (hS : updateSegment m u (touch m (t₁.getSegment u.segment)) = S) (hlt : u.segment < t₁.info)
    (hbelow : BelowNextFree S) (hsegment : NextCluster t (us ++ [u]) u.segment S.info)
    (hcluster : ∀ c, (∀ x, S.children.find c = some x → NextBlob t (us ++ [u]) u.segment c x.info) ∧
      (S.children.find c = none → ClusterGone t (us ++ [u]) u.segment c)) :
    After t (us ++ [u]) (update m u t₁) := by
  have hinfo : (update m u t₁).info = t₁.info := by rw [info_update, if_neg hu.1]
  have hself : (update m u t₁).getSegment u.segment = some S := by
    rw [getSegment_update, if_neg (by simp [hu.1]), if_neg hu.2, hS]
  have hne : ∀ segment, segment ≠ u.segment →
      (update m u t₁).getSegment segment = t₁.getSegment segment := fun segment hseg => by
    rw [getSegment_update, if_pos (Or.inr hseg)]
  have hneCluster : ∀ segment c, segment ≠ u.segment →
      (update m u t₁).getCluster segment c = t₁.getCluster segment c := fun segment c hseg => by
    rw [getCluster, getCluster, hne segment hseg]
  have hnextCluster : ∀ segment, segment ≠ u.segment → ¬u.WritesNextCluster segment :=
    fun segment hseg hw => hseg hw.2.1.symm
  have hnextBlob : ∀ segment c, segment ≠ u.segment → ¬u.WritesNextBlob segment c :=
    fun segment c hseg hw => hseg hw.2.1.symm
  refine ⟨⟨hinfo ▸ h.below.1, fun id x hx => ?_⟩, ?_, fun segment x hx => ?_, fun segment hx => ?_,
    fun segment c x hx => ?_, fun segment c hx => ?_⟩
  · by_cases hid : id = u.segment
    · subst hid
      obtain rfl := Option.some.inj (hself.symm.trans hx)
      exact ⟨hinfo ▸ hlt, hbelow⟩
    · rw [hinfo]
      exact h.below.segment ((hne id hid).symm.trans hx)
  · rw [hinfo]
    exact h.info.concat_of_not hu.1
  · by_cases hid : segment = u.segment
    · subst hid
      obtain rfl := Option.some.inj (hself.symm.trans hx)
      exact hsegment
    · exact (h.segment segment x ((hne segment hid).symm.trans hx)).concat_of_not
        (hnextCluster segment hid)
  · by_cases hid : segment = u.segment
    · subst hid
      rw [hself] at hx
      cases hx
    · refine (h.segment_none segment ((hne segment hid).symm.trans hx)).imp exists_mem_concat
        fun hnone => ⟨hnone.1, forall_mem_concat.mpr ⟨hnone.2, fun heq => absurd heq.symm hid⟩⟩
  · by_cases hid : segment = u.segment
    · subst hid
      rw [getCluster, hself] at hx
      exact (hcluster c).1 x hx
    · rw [hneCluster segment c hid] at hx
      exact (h.cluster segment c x hx).concat_of_not (hnextBlob segment c hid)
  · by_cases hid : segment = u.segment
    · subst hid
      rw [getCluster, hself] at hx
      exact (hcluster c).2 hx
    · rw [hneCluster segment c hid] at hx
      exact (h.cluster_none segment c hx).concat (hnextBlob segment c hid)

/-- An entry that changes something in a cluster. -/
theorem copyCluster {C : DbTree μ 1} (ht : BelowNextFree t) (hclash : ∀ e ∈ us, ¬e.Clashes u)
    (hu : u.CopiesCluster) (hc : t.HasCluster us u.segment u.cluster)
    (hC : updateCluster m u (touch m
      ((touch m (t₁.getSegment u.segment)).children.find u.cluster)) = C)
    (hbelow : BelowNextFree C) (hcluster : NextBlob t (us ++ [u]) u.segment u.cluster C.info) :
    After t (us ++ [u]) (update m u t₁) := by
  have hdel : ∀ e ∈ us, ¬e.DeletesSegment u.segment := fun e he hd =>
    hclash e he (.segment hd hu.1)
  obtain ⟨h1, h4⟩ := h.touchSegment (m := m) hdel
  obtain ⟨h5, h6⟩ := h.cluster_lt (m := m) ht hdel hc
  have hbelow' : BelowNextFree (touch m (t₁.getSegment u.segment)) :=
    BelowNextFree.touch fun s hs => (h.below.segment hs).2
  have hnext : ¬u.WritesNextCluster u.segment := fun hw => hu.2.1 hw.2.2
  have hfind : ∀ id, (updateSegment m u (touch m (t₁.getSegment u.segment))).children.find id =
      if id = u.cluster then some C
      else (touch m (t₁.getSegment u.segment)).children.find id := fun id => by
    rw [find_updateSegment, hC]
    by_cases hid : id = u.cluster <;> simp [hid, hu.2.1, hu.2.2]
  have hinfo : (updateSegment m u (touch m (t₁.getSegment u.segment))).info =
      (touch m (t₁.getSegment u.segment)).info := by
    rw [info_updateSegment, if_neg hu.2.1]
  refine h.copySegment hu.1 rfl h5 ⟨?_, fun id x hx => ?_⟩ ?_
    fun id => ⟨fun x hx => ?_, fun hx => ?_⟩
  · rw [hinfo]
    exact hbelow'.1
  · rw [hinfo]
    rw [hfind] at hx
    split_ifs at hx with hid
    · obtain rfl := Option.some.inj hx
      exact ⟨hid ▸ h6, hbelow⟩
    · exact hbelow'.2 id x hx
  · rw [hinfo]
    exact h1.concat_of_not hnext
  · rw [hfind] at hx
    split_ifs at hx with hid
    · obtain rfl := Option.some.inj hx
      rw [hid]
      exact hcluster
    · exact ((h4 id).1 x hx).concat_of_not fun hw => hid hw.2.2.1.symm
  · rw [hfind] at hx
    split_ifs at hx with hid
    exact ((h4 id).2 hx).concat fun hw => hid hw.2.2.1.symm

/-- The cluster to change. -/
theorem touchCluster (hdel : ∀ e ∈ us, ¬e.DeletesCluster s c) :
    BelowNextFree (touch m ((touch m (t₁.getSegment s)).children.find c)) ∧
      NextBlob t us s c (touch m ((touch m (t₁.getSegment s)).children.find c)).info := by
  obtain ⟨-, h4⟩ := h.touchSegment (m := m) fun e he hd => hdel e he (Or.inl hd)
  have hbelow : BelowNextFree (touch m (t₁.getSegment s)) :=
    BelowNextFree.touch fun s hs => (h.below.segment hs).2
  refine ⟨BelowNextFree.touch fun x hx => (hbelow.2 c x hx).2, ?_⟩
  cases hx : (touch m (t₁.getSegment s)).children.find c with
  | some x => exact (h4 c).1 x hx
  | none =>
    rcases (h4 c).2 hx with ⟨e, he, hd⟩ | ⟨hnone, hfresh⟩
    · exact absurd hd (hdel e he)
    have hnext : t.nextBlobId s c = 1 := by
      rw [nextBlobId, hnone]
      rfl
    rw [NextBlob, hnext]
    exact .of_not_writes hfresh

/-- The other clusters of a segment that an entry changes something in. -/
theorem keepClusters (hclash : ∀ e ∈ us, ¬e.Clashes u) (hu : u.CopiesSegment) :
    NextCluster t us u.segment (touch m (t₁.getSegment u.segment)).info ∧
      ∀ c, ¬u.WritesNextBlob u.segment c →
        (∀ x, (touch m (t₁.getSegment u.segment)).children.find c = some x →
          NextBlob t (us ++ [u]) u.segment c x.info) ∧
        ((touch m (t₁.getSegment u.segment)).children.find c = none →
          ClusterGone t (us ++ [u]) u.segment c) := by
  obtain ⟨h1, h4⟩ := h.touchSegment (m := m) fun e he hd => hclash e he (.segment hd hu)
  exact ⟨h1, fun c hw => ⟨fun x hx => ((h4 c).1 x hx).concat_of_not hw,
    fun hx => ((h4 c).2 hx).concat hw⟩⟩

/-- An entry that writes the next free segment id creates segments and changes no other. -/
theorem concat_nextSegment (hclash : ∀ e ∈ us, ¬e.Clashes u) (hs : u.WritesNextSegment)
    (hge : t.info ≤ u.readId) (hle : u.readId ≤ maxSegmentId + 1) :
    After t (us ++ [u]) (update m u t₁) := by
  have hus : ∀ e ∈ us, e.WritesNextSegment → e.readId ≤ u.readId := fun e he hw =>
    absurd (.nextSegment hw hs) (hclash e he)
  have hinfo : (update m u t₁).info = u.readId := by
    rw [info_update]
    exact if_pos hs
  have hseg : ∀ id, (update m u t₁).getSegment id = t₁.getSegment id := fun id => by
    rw [getSegment_update]
    exact if_pos (Or.inl hs)
  have hcl : ∀ id c, (update m u t₁).getCluster id c = t₁.getCluster id c := fun id c => by
    rw [getCluster, getCluster, hseg]
  refine ⟨⟨by rw [hinfo]; exact hle, fun id x hx => ?_⟩, by rw [hinfo]; exact .concat hs hge hus,
    fun id x hx => ?_, fun id hx => ?_, fun id c x hx => ?_, fun id c hx => ?_⟩
  · obtain ⟨h5, h6⟩ := h.below.segment ((hseg id).symm.trans hx)
    exact ⟨hinfo ▸ lt_of_lt_of_le h5 (h.info.le_readId hge hus), h6⟩
  · exact (h.segment id x ((hseg id).symm.trans hx)).concat_of_not fun hw => hw.1.1 hs
  · exact (h.segment_none id ((hseg id).symm.trans hx)).imp exists_mem_concat fun hn =>
      ⟨hn.1, forall_mem_concat.mpr ⟨hn.2, fun _ hcopies => hcopies.1 hs⟩⟩
  · exact (h.cluster id c x ((hcl id c).symm.trans hx)).concat_of_not fun hw => hw.1.1.1 hs
  · exact (h.cluster_none id c ((hcl id c).symm.trans hx)).concat fun hw => hw.1.1.1 hs

/-- An entry that writes the next free cluster id of a segment. -/
theorem concat_nextCluster (ht : BelowNextFree t) (hclash : ∀ e ∈ us, ¬e.Clashes u)
    (hu : u.WritesNextCluster u.segment)
    (hs : (t.getSegment u.segment).isSome ∨ SegmentCreated t us u.segment)
    (hge : t.nextClusterId u.segment ≤ u.readId) (hle : u.readId ≤ maxClusterId + 1) :
    After t (us ++ [u]) (update m u t₁) := by
  have hbelow : BelowNextFree (touch m (t₁.getSegment u.segment)) :=
    BelowNextFree.touch fun s hs => (h.below.segment hs).2
  obtain ⟨h1, hkeep⟩ := h.keepClusters (m := m) hclash hu.1
  have hus : ∀ e ∈ us, e.WritesNextCluster u.segment → e.readId ≤ u.readId := fun e he hw =>
    absurd (.nextCluster hw hu) (hclash e he)
  have hinfo : (updateSegment m u (touch m (t₁.getSegment u.segment))).info = u.readId := by
    rw [info_updateSegment, if_pos hu.2.2]
  have hfind : ∀ id, (updateSegment m u (touch m (t₁.getSegment u.segment))).children.find id =
      (touch m (t₁.getSegment u.segment)).children.find id := fun id => by
    rw [find_updateSegment, if_pos (Or.inl hu.2.2)]
  refine h.copySegment hu.1 rfl (h.segment_lt ht hs) ⟨by rw [hinfo]; exact hle, fun id x hx => ?_⟩
    (by rw [hinfo]; exact .concat hu hge hus) fun c => ?_
  · obtain ⟨h5, h6⟩ := hbelow.2 id x ((hfind id).symm.trans hx)
    exact ⟨hinfo ▸ lt_of_lt_of_le h5 (h1.le_readId hge hus), h6⟩
  · rw [hfind]
    exact hkeep c fun hw => hw.1.2.1 hu.2.2

/-- An entry that writes the next free blob id of a cluster. -/
theorem concat_nextBlob (ht : BelowNextFree t) (hclash : ∀ e ∈ us, ¬e.Clashes u)
    (hu : u.WritesNextBlob u.segment u.cluster) (hc : t.HasCluster us u.segment u.cluster)
    (hge : t.nextBlobId u.segment u.cluster ≤ u.readId) (hle : u.readId ≤ maxBlobId + 1) :
    After t (us ++ [u]) (update m u t₁) := by
  have hus : ∀ e ∈ us, e.WritesNextBlob u.segment u.cluster → e.readId ≤ u.readId :=
    fun e he hw => not_lt.mp fun hlt => hclash e he (.nextBlob hw hu hlt)
  obtain ⟨h5, h6⟩ := h.touchCluster (m := m) fun e he hd => hclash e he (.cluster hd hu.1)
  set C := touch m ((touch m (t₁.getSegment u.segment)).children.find u.cluster)
  have hinfo : (updateCluster m u C).info = u.readId := by
    rw [info_updateCluster, if_pos hu.2.2.2]
  have hfind : ∀ id, (updateCluster m u C).children.find id = C.children.find id := fun id => by
    rw [find_updateCluster, if_pos (Or.inl hu.2.2.2)]
  refine h.copyCluster ht hclash hu.1 hc rfl ⟨by rw [hinfo]; exact hle, fun id x hx => ?_⟩
    (by rw [hinfo]; exact .concat hu hge hus)
  have h7 := (h5.2 id x ((hfind id).symm.trans hx)).1
  exact ⟨hinfo ▸ lt_of_lt_of_le h7 (h6.le_readId hge hus), trivial⟩

/-- An entry that deletes a segment. -/
theorem concat_deleteSegment (hu : u.DeletesSegment u.segment) :
    After t (us ++ [u]) (update m u t₁) := by
  have hinfo : (update m u t₁).info = t₁.info := by rw [info_update, if_neg hu.2.1]
  have hseg : ∀ id, (update m u t₁).getSegment id =
      if id = u.segment then none else t₁.getSegment id := fun id => by
    rw [getSegment_update]
    by_cases hid : id = u.segment <;> simp [hid, hu.2.1, hu.2.2]
  have hcl : ∀ id c, (update m u t₁).getCluster id c =
      if id = u.segment then none else t₁.getCluster id c := fun id c => by
    rw [getCluster, hseg]
    by_cases hid : id = u.segment <;> simp [hid, getCluster]
  have hnext : ∀ id, ¬u.WritesNextCluster id := fun id hw => hw.1.2 hu.2.2
  have hnextBlob : ∀ id c, ¬u.WritesNextBlob id c := fun id c hw => hw.1.1.2 hu.2.2
  refine ⟨⟨hinfo ▸ h.below.1, fun id x hx => ?_⟩, ?_, fun id x hx => ?_, fun id hx => ?_,
    fun id c x hx => ?_, fun id c hx => ?_⟩
  · replace hx := (hseg id).symm.trans hx
    split_ifs at hx
    rw [hinfo]
    exact h.below.segment hx
  · rw [hinfo]
    exact h.info.concat_of_not hu.2.1
  · rw [hseg] at hx
    split_ifs at hx
    exact (h.segment id x hx).concat_of_not (hnext id)
  · rw [hseg] at hx
    split_ifs at hx with hid
    · exact Or.inl ⟨u, List.mem_append_right _ (List.mem_singleton_self u), hid ▸ hu⟩
    · exact (h.segment_none id hx).imp exists_mem_concat fun hn =>
        ⟨hn.1, forall_mem_concat.mpr ⟨hn.2, fun heq => absurd heq.symm hid⟩⟩
  · rw [hcl] at hx
    split_ifs at hx
    exact (h.cluster id c x hx).concat_of_not (hnextBlob id c)
  · rw [hcl] at hx
    split_ifs at hx with hid
    · exact Or.inl ⟨u, List.mem_append_right _ (List.mem_singleton_self u), Or.inl (hid ▸ hu)⟩
    · exact (h.cluster_none id c hx).concat (hnextBlob id c)

/-- An entry that deletes a cluster. -/
theorem concat_deleteCluster (ht : BelowNextFree t) (hclash : ∀ e ∈ us, ¬e.Clashes u)
    (hu : u.CopiesSegment) (hn : u.cluster ≠ nextFreeClusterId) (hd : u.blob = clusterDeleteId)
    (hc : t.HasCluster us u.segment u.cluster) : After t (us ++ [u]) (update m u t₁) := by
  have hbelow : BelowNextFree (touch m (t₁.getSegment u.segment)) :=
    BelowNextFree.touch fun s hs => (h.below.segment hs).2
  obtain ⟨h1, hkeep⟩ := h.keepClusters (m := m) hclash hu
  have hinfo : (updateSegment m u (touch m (t₁.getSegment u.segment))).info =
      (touch m (t₁.getSegment u.segment)).info := by rw [info_updateSegment, if_neg hn]
  have hfind : ∀ id, (updateSegment m u (touch m (t₁.getSegment u.segment))).children.find id =
      if id = u.cluster then none
      else (touch m (t₁.getSegment u.segment)).children.find id := fun id => by
    rw [find_updateSegment]
    by_cases hid : id = u.cluster <;> simp [hid, hn, hd]
  have hlt := (h.cluster_lt (m := m) ht (fun e he hd => hclash e he (.segment hd hu)) hc).1
  refine h.copySegment hu rfl hlt
    ⟨by rw [hinfo]; exact hbelow.1, fun id x hx => ?_⟩
    (by rw [hinfo]; exact h1.concat_of_not fun hw => hn hw.2.2) fun c => ?_
  · replace hx := (hfind id).symm.trans hx
    split_ifs at hx
    rw [hinfo]
    exact hbelow.2 id x hx
  · rw [hfind]
    split_ifs with hid
    · exact ⟨fun x hx => hx.elim, fun _ => Or.inl ⟨u,
        List.mem_append_right _ (List.mem_singleton_self u),
        Or.inr ⟨hu, hn, hd, rfl, hid.symm⟩⟩⟩
    · exact hkeep c fun hw => hw.1.2.2 hd

/-- An entry that writes or deletes a blob. -/
theorem concat_blob (ht : BelowNextFree t) (hclash : ∀ e ∈ us, ¬e.Clashes u)
    (hu : u.CopiesCluster) (hn : u.blob ≠ nextFreeBlobId)
    (hc : t.HasCluster us u.segment u.cluster)
    (hb : u.blob < t.nextBlobId u.segment u.cluster ∨
      ∃ e ∈ us, e.WritesNextBlob u.segment u.cluster ∧ u.blob < e.readId) :
    After t (us ++ [u]) (update m u t₁) := by
  obtain ⟨h5, h6⟩ := h.touchCluster (m := m) fun e he hd => hclash e he (.cluster hd hu)
  set C := touch m ((touch m (t₁.getSegment u.segment)).children.find u.cluster)
  have hinfo : (updateCluster m u C).info = C.info := by rw [info_updateCluster, if_neg hn]
  refine h.copyCluster ht hclash hu hc rfl ⟨by rw [hinfo]; exact h5.1, fun id x hx => ?_⟩
    (by rw [hinfo]; exact h6.concat_of_not fun hw => hn hw.2.2.2)
  refine ⟨?_, trivial⟩
  replace hx := (find_updateCluster m u id C).symm.trans hx
  rw [hinfo]
  split_ifs at hx with hid
  · exact (h5.2 id x hx).1
  · obtain rfl : id = u.blob := not_not.mp fun hne => hid (Or.inr hne)
    rcases hb with hb | ⟨e, he, hw, hlt⟩
    · exact lt_of_lt_of_le hb h6.ge
    · exact lt_of_lt_of_le hlt (h6.written e he hw)

/-- One more entry. -/
theorem concat (ht : BelowNextFree t) (hclash : ∀ e ∈ us, ¬e.Clashes u) (hu : Allowed t us u) :
    After t (us ++ [u]) (update m u t₁) := by
  cases hu with
  | nextSegment hs hge hle => exact h.concat_nextSegment hclash hs hge hle
  | nextCluster hu hs hge hle => exact h.concat_nextCluster ht hclash hu hs hge hle
  | nextBlob hu hc hge hle => exact h.concat_nextBlob ht hclash hu hc hge hle
  | deleteSegment hu => exact h.concat_deleteSegment hu
  | deleteCluster hu hn hd hc => exact h.concat_deleteCluster ht hclash hu hn hd hc
  | blob hu hn hc hb => exact h.concat_blob ht hclash hu hn hc hb

omit h in
/-- What an orderly commit leads to. -/
theorem updates (ht : BelowNextFree t)
    (hallowed : ∀ us₁ u us₂, us = us₁ ++ u :: us₂ → Allowed t us₁ u)
    (hclash : us.Pairwise fun e u => ¬e.Clashes u) : After t us (updates m us t) := by
  induction us using List.reverseRecOn with
  | nil => exact nil ht
  | append_singleton us u ih =>
    obtain ⟨h1, -, h2⟩ := List.pairwise_append.mp hclash
    rw [DbTree.updates, List.foldl_append]
    refine (ih (fun us₁ e us₂ heq => ?_) h1).concat ht (fun e he => h2 e he u
      (List.mem_singleton_self u)) (hallowed us u [] rfl)
    exact hallowed us₁ e (us₂ ++ [u]) (by rw [heq, List.append_assoc]; rfl)

end After

/-! ### Locations -/

/-- The locations of a database: its blobs, and the special locations of the database, and of its
segments and clusters. -/
inductive HasLocation (t : DbTree μ 3) : BlobLocation → Prop
  | nextFreeSegmentId : HasLocation t ⟨nextFreeSegmentId, nextFreeClusterId, nextFreeBlobId⟩
  | segmentList : HasLocation t ⟨segmentListId, clusterListId, blobListId⟩
  | nextFreeClusterId {segment : SegmentId} (hs : (t.getSegment segment).isSome) :
    HasLocation t ⟨segment, BlobsDb.nextFreeClusterId, nextFreeBlobId⟩
  | segmentDelete {segment : SegmentId} (hs : (t.getSegment segment).isSome) :
    HasLocation t ⟨segment, segmentDeleteId, clusterDeleteId⟩
  | clusterList {segment : SegmentId} (hs : (t.getSegment segment).isSome) :
    HasLocation t ⟨segment, clusterListId, blobListId⟩
  | nextFreeBlobId {segment : SegmentId} {cluster : ClusterId}
      (hc : (t.getCluster segment cluster).isSome) :
    HasLocation t ⟨segment, cluster, BlobsDb.nextFreeBlobId⟩
  | clusterDelete {segment : SegmentId} {cluster : ClusterId}
      (hc : (t.getCluster segment cluster).isSome) :
    HasLocation t ⟨segment, cluster, clusterDeleteId⟩
  | blobList {segment : SegmentId} {cluster : ClusterId}
      (hc : (t.getCluster segment cluster).isSome) :
    HasLocation t ⟨segment, cluster, blobListId⟩
  | blob {segment : SegmentId} {cluster : ClusterId} {blob : BlobId} {x : DbTree μ 1}
      (hc : t.getCluster segment cluster = some x) (hb : (x.children.find blob).isSome) :
    HasLocation t ⟨segment, cluster, blob⟩

end DbTree

namespace BlobData

/-- The entry deletes the blob. -/
def DeletesBlob (u : BlobData) (l : BlobLocation) : Prop :=
  u.CopiesCluster ∧ u.blob ≠ nextFreeBlobId ∧ u.data = none ∧ u.toBlobLocation = l

/-- The entry deletes the location. -/
def Deletes (u : BlobData) (l : BlobLocation) : Prop :=
  u.DeletesCluster l.segment l.cluster ∨ u.DeletesBlob l

/-- What an entry deletes is noted. -/
theorem isDeleted_noted (u : BlobData) (l : BlobLocation) (d : Deleted) :
    (d.noted u).isDeleted l = true ↔ d.isDeleted l = true ∨ u.Deletes l := by
  unfold Deleted.noted Deletes DeletesCluster DeletesBlob CopiesCluster CopiesSegment
    DeletesSegment
  by_cases hs : u.segment = nextFreeSegmentId
  · simp [hs]
  by_cases hd : u.cluster = segmentDeleteId
  · simp only [hs, hd, if_false, if_true, Deleted.isDeleted, decide_eq_true_eq, List.mem_append,
      List.mem_singleton, ne_eq, not_true_eq_false, not_false_eq_true, and_false, false_and,
      and_true, or_false, eq_comm (a := l.segment)]
    tauto
  by_cases hn : u.cluster = nextFreeClusterId
  · simp [hs, hn, show (nextFreeClusterId : UInt32) ≠ segmentDeleteId by decide]
  by_cases hc : u.blob = clusterDeleteId
  · simp only [hs, hd, hn, hc, if_false, if_true, Deleted.isDeleted, decide_eq_true_eq,
      List.mem_append, List.mem_singleton, ne_eq, not_true_eq_false, not_false_eq_true, and_false,
      false_and, and_true, true_and, or_false, false_or, Prod.mk.injEq, eq_comm (a := l.segment),
      eq_comm (a := l.cluster)]
    tauto
  by_cases hb : u.blob = nextFreeBlobId
  · simp [hs, hd, hn, hb, show (nextFreeBlobId : UInt32) ≠ clusterDeleteId by decide]
  cases hdata : u.data with
  | none =>
    simp only [hs, hd, hn, hc, hb, if_false, Deleted.isDeleted, decide_eq_true_eq, List.mem_append,
      List.mem_singleton, ne_eq, not_false_eq_true, and_false, false_and, and_true, true_and,
      or_false, false_or, eq_comm (a := l)]
    tauto
  | some data => simp [hs, hd, hn, hc, hb]

/-- What some entry deletes is noted in the end. -/
theorem isDeleted_foldl_noted (us : List BlobData) (l : BlobLocation) (d : Deleted) :
    (us.foldl Deleted.noted d).isDeleted l = true ↔
      d.isDeleted l = true ∨ ∃ u ∈ us, u.Deletes l := by
  induction us generalizing d with
  | nil => simp
  | cons u us ih => rw [List.foldl_cons, ih, isDeleted_noted, or_assoc, List.exists_mem_cons_iff]

end BlobData

namespace DbTree

variable {μ : Type} {t : DbTree μ 3} {u : BlobData} {us : List BlobData} {s : SegmentId}
  {c : ClusterId} {l : BlobLocation} {m : μ}

/-! Segments, clusters and locations stay until they are deleted. -/

/-- A segment stays until it is deleted. -/
theorem isSome_getSegment_update (hs : (t.getSegment s).isSome) (hd : ¬u.DeletesSegment s) :
    ((update m u t).getSegment s).isSome := by
  rw [getSegment_update]
  split_ifs with h h'
  · exact hs
  · rw [not_or, not_not] at h
    exact absurd ⟨h.2.symm, h.1, h'⟩ hd
  · rfl

/-- An entry for something in a segment leaves the segment there. -/
theorem isSome_getSegment_of_copies (hu : u.CopiesSegment) :
    ((update m u t).getSegment u.segment).isSome := by
  rw [getSegment_update, if_neg (by simp [hu.1]), if_neg hu.2]
  rfl

theorem getCluster_update_of_copies (hu : u.CopiesSegment) : (update m u t).getCluster u.segment c =
    (updateSegment m u (touch m (t.getSegment u.segment))).children.find c := by
  rw [getCluster, getSegment_update, if_neg (by simp [hu.1]), if_neg hu.2]

theorem isSome_find_touch {n : ℕ} {o : Option (DbTree μ (n + 1))} {id : UInt32} {x : DbTree μ (n + 1)}
    (ho : o = some x) (hx : (x.children.find id).isSome) :
    ((touch m o).children.find id).isSome := by
  rw [ho]
  exact hx

/-- A cluster stays until it is deleted. -/
theorem isSome_getCluster_update (hc : (t.getCluster s c).isSome)
    (hd : ¬u.DeletesCluster s c) : ((update m u t).getCluster s c).isSome := by
  obtain ⟨x, hx⟩ := Option.isSome_iff_exists.mp hc
  obtain ⟨seg, hs, hfind⟩ := getCluster_eq_some_iff.mp hx
  by_cases hseg : u.segment = nextFreeSegmentId ∨ s ≠ u.segment
  · rw [getCluster, getSegment_update, if_pos hseg]
    exact hc
  rw [not_or, not_not] at hseg
  obtain ⟨hnot, rfl⟩ := hseg
  by_cases hdel : u.cluster = segmentDeleteId
  · exact absurd (Or.inl ⟨rfl, hnot, hdel⟩) hd
  rw [getCluster_update_of_copies ⟨hnot, hdel⟩, find_updateSegment]
  split_ifs with h h'
  · exact isSome_find_touch hs (by rw [hfind]; rfl)
  · rw [not_or, not_not] at h
    exact absurd (Or.inr ⟨⟨hnot, hdel⟩, h.1, h', rfl, h.2.symm⟩) hd
  · rfl

/-- An entry for something in a cluster leaves the cluster there. -/
theorem isSome_getCluster_of_copies (hu : u.CopiesCluster) :
    ((update m u t).getCluster u.segment u.cluster).isSome := by
  rw [getCluster_update_of_copies hu.1, find_updateSegment, if_neg (by simp [hu.2.1]),
    if_neg hu.2.2]
  rfl

/-- A segment that an entry creates has its first cluster, unless this is deleted. -/
theorem isSome_getCluster_zero (hu : u.CopiesSegment) (hs : t.getSegment u.segment = none)
    (hd : ¬u.DeletesCluster u.segment 0) : ((update m u t).getCluster u.segment 0).isSome := by
  rw [getCluster_update_of_copies hu, find_updateSegment, hs]
  split_ifs with h h'
  · rw [find_touch_none, if_pos rfl]
    rfl
  · rw [not_or, not_not] at h
    exact absurd (Or.inr ⟨hu, h.1, h', rfl, h.2.symm⟩) hd
  · rfl

end DbTree

end BlobsDb
