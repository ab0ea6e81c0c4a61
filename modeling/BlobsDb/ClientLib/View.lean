import BlobsDb.Server.Untouched

/-!
# What a client sees of a database

A `View` is a database as its clients know it: which segments, clusters and blobs there are, what is
in the blobs, and the next free ids. `View.of` is the view of a tree, and `View.update` is what one
entry of a commit means for it (`View.of_updates`).
-/

namespace BlobsDb

open DbTree (HasLocation BelowNextFree content)

/-- The segments, clusters and blobs of a database. Segments and clusters have the next free id in
them. -/
@[ext]
structure View where
  nextSegment : SegmentId
  segment : SegmentId → Option ClusterId
  cluster : SegmentId → ClusterId → Option BlobId
  blob : BlobLocation → Option (List UInt8)

namespace View

variable {v : View} {s s' : SegmentId} {c c' : ClusterId} {n : UInt32} {l l' : BlobLocation}
  {d : List UInt8} {u : BlobData}

/-! ### Changes -/

def setNextSegment (n : SegmentId) (v : View) : View := { v with nextSegment := n }

def setNextCluster (s : SegmentId) (n : ClusterId) (v : View) : View :=
  { v with segment := fun s' => if s' = s then some n else v.segment s' }

def setNextBlob (s : SegmentId) (c : ClusterId) (n : BlobId) (v : View) : View :=
  { v with cluster := fun s' c' => if s' = s ∧ c' = c then some n else v.cluster s' c' }

/-- Writes a blob, or deletes it if there is no data. -/
def setBlob (l : BlobLocation) (data : Option (List UInt8)) (v : View) : View :=
  { v with blob := fun l' => if l' = l then data else v.blob l' }

/-- A new cluster has an empty blob. -/
def addCluster (s : SegmentId) (c : ClusterId) (v : View) : View :=
  { v with
    cluster := fun s' c' => if s' = s ∧ c' = c then some 1 else v.cluster s' c'
    blob := fun l => if l.segment = s ∧ l.cluster = c then if l.blob = 0 then some [] else none
      else v.blob l }

/-- A new segment has a cluster. -/
def addSegment (s : SegmentId) (v : View) : View :=
  { v with
    segment := fun s' => if s' = s then some 1 else v.segment s'
    cluster := fun s' c' => if s' = s then if c' = 0 then some 1 else none else v.cluster s' c'
    blob := fun l => if l.segment = s then if l.cluster = 0 ∧ l.blob = 0 then some [] else none
      else v.blob l }

def deleteCluster (s : SegmentId) (c : ClusterId) (v : View) : View :=
  { v with
    cluster := fun s' c' => if s' = s ∧ c' = c then none else v.cluster s' c'
    blob := fun l => if l.segment = s ∧ l.cluster = c then none else v.blob l }

def deleteSegment (s : SegmentId) (v : View) : View :=
  { v with
    segment := fun s' => if s' = s then none else v.segment s'
    cluster := fun s' c' => if s' = s then none else v.cluster s' c'
    blob := fun l => if l.segment = s then none else v.blob l }

theorem segment_setNextCluster_self : (v.setNextCluster s n).segment s = some n := if_pos rfl

theorem segment_setNextCluster_of_ne (h : s' ≠ s) :
    (v.setNextCluster s n).segment s' = v.segment s' := if_neg h

theorem cluster_setNextBlob_self : (v.setNextBlob s c n).cluster s c = some n := if_pos ⟨rfl, rfl⟩

theorem cluster_setNextBlob_of_ne (h : ¬(s' = s ∧ c' = c)) :
    (v.setNextBlob s c n).cluster s' c' = v.cluster s' c' := if_neg h

theorem blob_setBlob_self {data : Option (List UInt8)} : (v.setBlob l data).blob l = data := if_pos rfl

theorem blob_setBlob_of_ne {data : Option (List UInt8)} (h : l' ≠ l) :
    (v.setBlob l data).blob l' = v.blob l' := if_neg h

theorem cluster_deleteCluster_self : (v.deleteCluster s c).cluster s c = none := if_pos ⟨rfl, rfl⟩

theorem cluster_deleteCluster_of_ne (h : ¬(s' = s ∧ c' = c)) :
    (v.deleteCluster s c).cluster s' c' = v.cluster s' c' := if_neg h

theorem blob_deleteCluster_of_mem (h : l.segment = s ∧ l.cluster = c) :
    (v.deleteCluster s c).blob l = none := if_pos h

theorem blob_deleteCluster_of_ne (h : ¬(l.segment = s ∧ l.cluster = c)) :
    (v.deleteCluster s c).blob l = v.blob l := if_neg h

theorem segment_deleteSegment_self : (v.deleteSegment s).segment s = none := if_pos rfl

theorem segment_deleteSegment_of_ne (h : s' ≠ s) :
    (v.deleteSegment s).segment s' = v.segment s' := if_neg h

theorem cluster_deleteSegment_self : (v.deleteSegment s).cluster s c = none := if_pos rfl

theorem cluster_deleteSegment_of_ne (h : s' ≠ s) :
    (v.deleteSegment s).cluster s' c = v.cluster s' c := if_neg h

theorem blob_deleteSegment_of_mem (h : l.segment = s) : (v.deleteSegment s).blob l = none := if_pos h

theorem blob_deleteSegment_of_ne (h : l.segment ≠ s) : (v.deleteSegment s).blob l = v.blob l :=
  if_neg h

/-! ### Entries of commits -/

/-- A segment is created if it is not there. -/
def touchSegment (s : SegmentId) (v : View) : View :=
  if (v.segment s).isSome then v else v.addSegment s

/-- A cluster is created if it is not there. -/
def touchCluster (s : SegmentId) (c : ClusterId) (v : View) : View :=
  if (v.cluster s c).isSome then v else v.addCluster s c

/-- What an entry of a commit means. -/
def update (v : View) (u : BlobData) : View :=
  if u.segment = nextFreeSegmentId then v.setNextSegment u.readId
  else if u.cluster = segmentDeleteId then v.deleteSegment u.segment
  else if u.cluster = nextFreeClusterId then
    (v.touchSegment u.segment).setNextCluster u.segment u.readId
  else if u.blob = clusterDeleteId then (v.touchSegment u.segment).deleteCluster u.segment u.cluster
  else
    let v := (v.touchSegment u.segment).touchCluster u.segment u.cluster
    if u.blob = nextFreeBlobId then v.setNextBlob u.segment u.cluster u.readId
    else v.setBlob u.toBlobLocation u.data

/-! ### Trees -/

section

variable {μ : Type} {m : μ} {t : DbTree μ 3} {S : DbTree μ 2} {C : DbTree μ 1}

/-- The view of a database. -/
def of (t : DbTree μ 3) : View where
  nextSegment := t.info
  segment s := (t.getSegment s).map fun x => x.info
  cluster s c := (t.getCluster s c).map fun x => x.info
  blob l := (t.getCluster l.segment l.cluster).bind fun x =>
    (x.children.find l.blob).map fun b => b.data

/-- The view with another segment. -/
def putSegment (s : SegmentId) (S : DbTree μ 2) (v : View) : View :=
  { v with
    segment := fun s' => if s' = s then some S.info else v.segment s'
    cluster := fun s' c => if s' = s then (S.children.find c).map fun x => x.info else v.cluster s' c
    blob := fun l => if l.segment = s then (S.children.find l.cluster).bind fun x =>
      (x.children.find l.blob).map fun b => b.data else v.blob l }

/-- A segment of the tree is put into the view. -/
theorem of_setChild : View.of (DbTree.setChild t s S) = (View.of t).putSegment s S := by
  have hsegment : ∀ s', (DbTree.setChild t s S).getSegment s' =
      if s' = s then some S else t.getSegment s' := fun s' => by
    rw [DbTree.getSegment, DbTree.setChild, LevelTree.children_setChildren, FlatMap.find_insert,
      DbTree.getSegment]
  refine View.ext rfl (funext fun s' => ?_) (funext₂ fun s' c => ?_) (funext fun l => ?_)
  · by_cases h : s' = s <;> simp [View.of, putSegment, hsegment, h]
  · by_cases h : s' = s <;> simp [View.of, putSegment, DbTree.getCluster, hsegment, h]
  · by_cases h : l.segment = s <;> simp [View.of, putSegment, DbTree.getCluster, hsegment, h]

/-- A segment is erased with all that is in it. -/
theorem of_eraseChild : View.of (DbTree.eraseChild t s) = (View.of t).deleteSegment s := by
  have hsegment : ∀ s', (DbTree.eraseChild t s).getSegment s' =
      if s' = s then none else t.getSegment s' := fun s' => by
    rw [DbTree.getSegment, DbTree.eraseChild, LevelTree.children_setChildren, FlatMap.find_erase,
      DbTree.getSegment]
  refine View.ext rfl (funext fun s' => ?_) (funext₂ fun s' c => ?_) (funext fun l => ?_)
  · by_cases h : s' = s <;> simp [View.of, deleteSegment, hsegment, h]
  · by_cases h : s' = s <;> simp [View.of, deleteSegment, DbTree.getCluster, hsegment, h]
  · by_cases h : l.segment = s <;> simp [View.of, deleteSegment, DbTree.getCluster, hsegment, h]

theorem find_created {n : ℕ} {id : UInt32} : (DbTree.created m (n + 1)).children.find id =
    if id = 0 then some (DbTree.created m n) else none :=
  DbTree.find_touch_none m id

/-- A segment that is created has one cluster with one empty blob. -/
theorem putSegment_created : v.putSegment s (DbTree.created m 2) = v.addSegment s := by
  refine View.ext rfl rfl (funext₂ fun s' c => ?_) (funext fun l => ?_)
  · by_cases h : s' = s <;> by_cases hc : c = 0 <;>
      simp [putSegment, addSegment, find_created, h, hc]
    rfl
  · by_cases h : l.segment = s <;> by_cases hc : l.cluster = 0 <;> by_cases hb : l.blob = 0 <;>
      simp [putSegment, addSegment, find_created, h, hc, hb]
    rfl

/-- Touching a segment creates it if it is not there. -/
theorem touchSegment_of : (View.of t).touchSegment s =
    (View.of t).putSegment s (DbTree.touch m (t.getSegment s)) := by
  cases hs : t.getSegment s with
  | none =>
    have hnone : ((View.of t).segment s).isSome = false := by simp [View.of, hs]
    rw [touchSegment, hnone, DbTree.touch, putSegment_created]
    rfl
  | some S =>
    have hsome : ((View.of t).segment s).isSome = true := by simp [View.of, hs]
    rw [touchSegment, hsome]
    refine View.ext rfl (funext fun s' => ?_) (funext₂ fun s' c => ?_) (funext fun l => ?_)
    · by_cases h : s' = s <;> simp [View.of, putSegment, h, hs]
      rfl
    · by_cases h : s' = s <;> simp [View.of, putSegment, DbTree.getCluster, h, hs]
      rfl
    · by_cases h : l.segment = s <;> simp [View.of, putSegment, DbTree.getCluster, h, hs]
      rfl

/-- The next free id of a segment shows as that of its view. -/
theorem putSegment_setNextFreeId : v.putSegment s (DbTree.setNextFreeId S n) =
    (v.putSegment s S).setNextCluster s n := by
  refine View.ext rfl (funext fun s' => ?_) rfl rfl
  by_cases h : s' = s <;> simp [putSegment, setNextCluster, h]
  rfl

/-- A cluster that is taken from a segment is gone from the view. -/
theorem putSegment_eraseChild : v.putSegment s (DbTree.eraseChild S c) =
    (v.putSegment s S).deleteCluster s c := by
  have hfind : ∀ c', (DbTree.eraseChild S c).children.find c' =
      if c' = c then none else S.children.find c' := fun c' => by
    rw [DbTree.eraseChild, LevelTree.children_setChildren, FlatMap.find_erase]
  refine View.ext rfl rfl (funext₂ fun s' c' => ?_) (funext fun l => ?_)
  · by_cases h : s' = s <;> by_cases hc : c' = c <;> simp [putSegment, deleteCluster, hfind, h, hc]
  · by_cases h : l.segment = s <;> by_cases hc : l.cluster = c <;>
      simp [putSegment, deleteCluster, hfind, h, hc]

/-- The view with another cluster. -/
def putCluster (s : SegmentId) (c : ClusterId) (C : DbTree μ 1) (v : View) : View :=
  { v with
    cluster := fun s' c' => if s' = s ∧ c' = c then some C.info else v.cluster s' c'
    blob := fun l => if l.segment = s ∧ l.cluster = c then (C.children.find l.blob).map fun b => b.data
      else v.blob l }

/-- A cluster that is put in a segment is seen in the view. -/
theorem putSegment_setChild : v.putSegment s (DbTree.setChild S c C) =
    (v.putSegment s S).putCluster s c C := by
  have hfind : ∀ c', (DbTree.setChild S c C).children.find c' =
      if c' = c then some C else S.children.find c' := fun c' => by
    rw [DbTree.setChild, LevelTree.children_setChildren, FlatMap.find_insert]
  refine View.ext rfl rfl (funext₂ fun s' c' => ?_) (funext fun l => ?_)
  · by_cases h : s' = s <;> by_cases hc : c' = c <;> simp [putSegment, putCluster, hfind, h, hc]
  · by_cases h : l.segment = s <;> by_cases hc : l.cluster = c <;>
      simp [putSegment, putCluster, hfind, h, hc]

/-- Touching a cluster creates it if it is not there. -/
theorem touchCluster_putSegment : (v.putSegment s S).touchCluster s c =
    (v.putSegment s S).putCluster s c (DbTree.touch m (S.children.find c)) := by
  have hcluster : (v.putSegment s S).cluster s c = (S.children.find c).map fun x => x.info :=
    if_pos rfl
  cases hc : S.children.find c with
  | none =>
    rw [hc] at hcluster
    rw [touchCluster, hcluster]
    refine View.ext rfl (funext fun s' => rfl) (funext₂ fun s' c' => ?_) (funext fun l => ?_)
    · by_cases h : s' = s ∧ c' = c <;> simp [addCluster, putCluster, h]
      rfl
    · by_cases h : l.segment = s ∧ l.cluster = c <;> by_cases hb : l.blob = 0 <;>
        simp [addCluster, putCluster, DbTree.touch, find_created, h, hb]
      rfl
  | some C =>
    rw [hc] at hcluster
    rw [touchCluster, hcluster]
    refine View.ext rfl (funext fun s' => rfl) (funext₂ fun s' c' => ?_) (funext fun l => ?_)
    · by_cases h : s' = s ∧ c' = c <;> simp [putSegment, putCluster, h, hc]
      rfl
    · by_cases h : l.segment = s ∧ l.cluster = c <;> simp [putSegment, putCluster, h, hc]
      rfl

/-- What an entry does within its cluster. -/
theorem putCluster_updateCluster (v : View) :
    v.putCluster u.segment u.cluster (DbTree.updateCluster m u C) =
      let v := v.putCluster u.segment u.cluster C
      if u.blob = nextFreeBlobId then v.setNextBlob u.segment u.cluster u.readId
      else v.setBlob u.toBlobLocation u.data := by
  have hloc : ∀ l : BlobLocation, l = u.toBlobLocation ↔
      (l.segment = u.segment ∧ l.cluster = u.cluster) ∧ l.blob = u.blob := fun l => by
    obtain ⟨s, c, b⟩ := l
    change BlobLocation.mk s c b = ⟨u.segment, u.cluster, u.blob⟩ ↔ _
    rw [BlobLocation.mk.injEq, and_assoc]
  have hinfo : u.blob ≠ nextFreeBlobId → (DbTree.updateCluster m u C).info = C.info := fun hb => by
    rw [DbTree.info_updateCluster, if_neg hb]
  dsimp only
  split_ifs with hb
  · refine View.ext rfl rfl (funext₂ fun s' c' => ?_) (funext fun l => ?_)
    · by_cases h : s' = u.segment ∧ c' = u.cluster <;>
        simp [putCluster, setNextBlob, h, DbTree.info_updateCluster, hb]
    · by_cases h : l.segment = u.segment ∧ l.cluster = u.cluster <;>
        simp [putCluster, setNextBlob, h, DbTree.find_updateCluster, hb]
  · refine View.ext rfl rfl (funext₂ fun s' c' => ?_) (funext fun l => ?_)
    · by_cases h : s' = u.segment ∧ c' = u.cluster <;> simp [putCluster, setBlob, h, hinfo hb]
    · by_cases h : l.segment = u.segment ∧ l.cluster = u.cluster <;>
        by_cases hl : l.blob = u.blob <;>
          simp [putCluster, setBlob, hloc, h, hl, DbTree.find_updateCluster, hb]
      cases u.data <;> rfl

/-- An entry means for the view what it means for the tree. -/
theorem of_update : View.of (DbTree.update m u t) = (View.of t).update u := by
  unfold View.update DbTree.update
  split_ifs with hs hc hn hd hb
  · rfl
  · exact of_eraseChild
  · rw [of_setChild, DbTree.updateSegment, if_pos hn, putSegment_setNextFreeId,
      touchSegment_of (m := m)]
    rfl
  · rw [of_setChild, DbTree.updateSegment, if_neg hn, if_pos hd, putSegment_eraseChild,
      touchSegment_of (m := m)]
    rfl
  all_goals
    rw [of_setChild, DbTree.updateSegment, if_neg hn, if_neg hd, putSegment_setChild,
      touchSegment_of (m := m), touchCluster_putSegment (m := m)]
    refine (putCluster_updateCluster _).trans ?_
    simp only [hb, if_true, if_false]
    rfl

/-- Versions are not part of the view. -/
theorem of_setMark : View.of (t.setMark m) = View.of t := rfl

/-- The meaning of a commit, on views. -/
theorem of_updates (us : List BlobData) :
    View.of (DbTree.updates m us t) = us.foldl update (View.of t) := by
  have hfold : ∀ t : DbTree μ 3, View.of (us.foldl (fun t u => DbTree.update m u t) t) =
      us.foldl update (View.of t) := fun t => by
    induction us generalizing t with
    | nil => rfl
    | cons u us ih => rw [List.foldl_cons, List.foldl_cons, ih, of_update]
  rw [DbTree.updates, hfold, of_setMark]

end

/-! ### Locations -/

/-- The locations of a database: its blobs, and the special locations of the database, and of its
segments and clusters. -/
inductive Has (v : View) : BlobLocation → Prop
  | nextFreeSegmentId : Has v ⟨nextFreeSegmentId, nextFreeClusterId, nextFreeBlobId⟩
  | segmentList : Has v ⟨segmentListId, clusterListId, blobListId⟩
  | nextFreeClusterId {s : SegmentId} (hs : (v.segment s).isSome) :
    Has v ⟨s, BlobsDb.nextFreeClusterId, nextFreeBlobId⟩
  | segmentDelete {s : SegmentId} (hs : (v.segment s).isSome) :
    Has v ⟨s, segmentDeleteId, clusterDeleteId⟩
  | clusterList {s : SegmentId} (hs : (v.segment s).isSome) : Has v ⟨s, clusterListId, blobListId⟩
  | nextFreeBlobId {s : SegmentId} {c : ClusterId} (hc : (v.cluster s c).isSome) :
    Has v ⟨s, c, BlobsDb.nextFreeBlobId⟩
  | clusterDelete {s : SegmentId} {c : ClusterId} (hc : (v.cluster s c).isSome) :
    Has v ⟨s, c, clusterDeleteId⟩
  | blobList {s : SegmentId} {c : ClusterId} (hc : (v.cluster s c).isSome) : Has v ⟨s, c, blobListId⟩
  | blob {l : BlobLocation} (hb : (v.blob l).isSome) : Has v l

/-- A location with the id of a blob is one. -/
theorem Has.isSome_blob (h : v.Has l) (hb : l.blob ≤ maxBlobId) : (v.blob l).isSome := by
  have hnext : ¬BlobsDb.nextFreeBlobId ≤ maxBlobId := by decide
  have hdelete : ¬clusterDeleteId ≤ maxBlobId := by decide
  have hlist : ¬blobListId ≤ maxBlobId := by decide
  cases h with
  | nextFreeSegmentId => exact absurd hb hnext
  | segmentList => exact absurd hb hlist
  | nextFreeClusterId _ => exact absurd hb hnext
  | segmentDelete _ => exact absurd hb hdelete
  | clusterList _ => exact absurd hb hlist
  | nextFreeBlobId _ => exact absurd hb hnext
  | clusterDelete _ => exact absurd hb hdelete
  | blobList _ => exact absurd hb hlist
  | blob h => exact h

/-- Every id is below the next free id, which is at most one above the maximal id. -/
structure WF (v : View) : Prop where
  nextSegment : v.nextSegment ≤ maxSegmentId + 1
  segment : ∀ s n, v.segment s = some n → s < v.nextSegment ∧ n ≤ maxClusterId + 1
  cluster : ∀ s c n, v.cluster s c = some n → (∃ k, v.segment s = some k ∧ c < k) ∧ n ≤ maxBlobId + 1
  blob : ∀ l d, v.blob l = some d → ∃ n, v.cluster l.segment l.cluster = some n ∧ l.blob < n

/-- Below the next number is at most the number. -/
theorem le_of_lt_succ {a b : UInt32} (ha : a < b) (hb : b ≤ maxBlobId + 1) : a ≤ maxBlobId := by
  have hmax : maxBlobId.toNat = 0xfffffeff := rfl
  have hsucc : (maxBlobId + 1).toNat = 0xffffff00 := rfl
  rw [UInt32.lt_iff_toNat_lt] at ha
  rw [UInt32.le_iff_toNat_le] at hb ⊢
  omega

/-- The next id is above the ids up to this one. -/
theorem lt_succ_iff {a b : UInt32} (hb : b ≤ maxBlobId) : a < b + 1 ↔ a ≤ b := by
  have hmax : maxBlobId.toNat = 0xfffffeff := rfl
  rw [UInt32.le_iff_toNat_le] at hb
  rw [UInt32.lt_iff_toNat_lt, UInt32.le_iff_toNat_le, UInt32.toNat_add,
    show (1 : UInt32).toNat = 1 from rfl]
  omega

theorem succ_le {b : UInt32} (hb : b ≤ maxBlobId) : b + 1 ≤ maxBlobId + 1 := by
  have hmax : maxBlobId.toNat = 0xfffffeff := rfl
  have hsucc : (maxBlobId + 1).toNat = 0xffffff00 := rfl
  rw [UInt32.le_iff_toNat_le] at hb ⊢
  rw [UInt32.toNat_add, show (1 : UInt32).toNat = 1 from rfl]
  omega

namespace WF

variable (h : v.WF)
include h

/-- The ids of segments are in their range. -/
theorem segment_le (hs : v.segment s = some n) : s ≤ maxSegmentId :=
  le_of_lt_succ (h.segment s n hs).1 h.nextSegment

/-- A cluster is in a segment, below its next free id. -/
theorem exists_segment (hc : v.cluster s c = some n) : ∃ k, v.segment s = some k ∧ c < k :=
  (h.cluster s c n hc).1

/-- The ids of clusters are in their range. -/
theorem cluster_le (hc : v.cluster s c = some n) : s ≤ maxSegmentId ∧ c ≤ maxClusterId := by
  obtain ⟨k, hk, hlt⟩ := h.exists_segment hc
  exact ⟨h.segment_le hk, le_of_lt_succ hlt (h.segment s k hk).2⟩

/-- The ids of blobs are in their range. -/
theorem blob_le (hb : v.blob l = some d) :
    l.segment ≤ maxSegmentId ∧ l.cluster ≤ maxClusterId ∧ l.blob ≤ maxBlobId := by
  obtain ⟨n, hn, hlt⟩ := h.blob l d hb
  obtain ⟨hs, hc⟩ := h.cluster_le hn
  exact ⟨hs, hc, le_of_lt_succ hlt (h.cluster _ _ n hn).2⟩

end WF

section

variable {μ : Type} {t : DbTree μ 3}

/-- The locations of a tree are those of its view. -/
theorem has_of (h : HasLocation t l) : (View.of t).Has l := by
  have hsegment : ∀ s, (t.getSegment s).isSome → ((View.of t).segment s).isSome := fun s hs =>
    Option.isSome_map.trans hs
  have hcluster : ∀ s c, (t.getCluster s c).isSome → ((View.of t).cluster s c).isSome :=
    fun s c hc => Option.isSome_map.trans hc
  cases h with
  | nextFreeSegmentId => exact .nextFreeSegmentId
  | segmentList => exact .segmentList
  | nextFreeClusterId hs => exact .nextFreeClusterId (hsegment _ hs)
  | segmentDelete hs => exact .segmentDelete (hsegment _ hs)
  | clusterList hs => exact .clusterList (hsegment _ hs)
  | nextFreeBlobId hc => exact .nextFreeBlobId (hcluster _ _ hc)
  | clusterDelete hc => exact .clusterDelete (hcluster _ _ hc)
  | blobList hc => exact .blobList (hcluster _ _ hc)
  | blob hc hb => exact .blob (by simpa [View.of, hc] using hb)

/-- A tree whose ids are below the next free ones gives a well-formed view. -/
theorem wf_of (ht : BelowNextFree t) : (View.of t).WF where
  nextSegment := ht.1
  segment := fun s n hn => by
    obtain ⟨S, hS, rfl⟩ := Option.map_eq_some_iff.mp hn
    exact ⟨(ht.segment hS).1, (ht.segment hS).2.1⟩
  cluster := fun s c n hn => by
    obtain ⟨C, hC, rfl⟩ := Option.map_eq_some_iff.mp hn
    obtain ⟨S, hS, hfind⟩ := DbTree.getCluster_eq_some_iff.mp hC
    obtain ⟨hlt, hbelow⟩ := (ht.segment hS).2.2 c C hfind
    exact ⟨⟨S.info, Option.map_eq_some_iff.mpr ⟨S, hS, rfl⟩, hlt⟩, hbelow.1⟩
  blob := fun l d hd => by
    obtain ⟨C, hC, hd⟩ := Option.bind_eq_some_iff.mp hd
    obtain ⟨x, hx, -⟩ := Option.map_eq_some_iff.mp hd
    exact ⟨C.info, Option.map_eq_some_iff.mpr ⟨C, hC, rfl⟩, ((ht.cluster hC).2.2 l.blob x hx).1⟩

end

/-- What is locked to delete a cluster is there if the cluster is. -/
theorem Has.isSome_cluster (h : v.Has l) (hv : v.WF) (hb : l.blob = clusterDeleteId)
    (hc : l.cluster ≤ maxClusterId) : (v.cluster l.segment l.cluster).isSome := by
  have hnext : BlobsDb.nextFreeBlobId ≠ clusterDeleteId := by decide
  have hlist : blobListId ≠ clusterDeleteId := by decide
  cases h with
  | nextFreeSegmentId => exact absurd hb hnext
  | segmentList => exact absurd hb hlist
  | nextFreeClusterId _ => exact absurd hb hnext
  | segmentDelete _ => exact absurd hc (show ¬segmentDeleteId ≤ maxClusterId by decide)
  | clusterList _ => exact absurd hb hlist
  | nextFreeBlobId _ => exact absurd hb hnext
  | clusterDelete h => exact h
  | blobList _ => exact absurd hb hlist
  | blob h =>
    obtain ⟨d, hd⟩ := Option.isSome_iff_exists.mp h
    have hle := (hv.blob_le hd).2.2
    rw [hb] at hle
    exact absurd hle (by decide)

/-- What is locked to delete a segment is there if the segment is. -/
theorem Has.isSome_segment (h : v.Has l) (hv : v.WF) (hb : l.blob = clusterDeleteId)
    (hc : l.cluster = segmentDeleteId) : (v.segment l.segment).isSome := by
  have hnext : BlobsDb.nextFreeBlobId ≠ clusterDeleteId := by decide
  have hlist : blobListId ≠ clusterDeleteId := by decide
  cases h with
  | nextFreeSegmentId => exact absurd hb hnext
  | segmentList => exact absurd hb hlist
  | nextFreeClusterId _ => exact absurd hb hnext
  | segmentDelete h => exact h
  | clusterList _ => exact absurd hb hlist
  | nextFreeBlobId _ => exact absurd hb hnext
  | @clusterDelete s c h =>
    obtain ⟨n, hn⟩ := Option.isSome_iff_exists.mp h
    have hle := (hv.cluster_le hn).2
    rw [show c = segmentDeleteId from hc] at hle
    exact absurd hle (by decide)
  | blobList _ => exact absurd hb hlist
  | blob h =>
    obtain ⟨d, hd⟩ := Option.isSome_iff_exists.mp h
    have hle := (hv.blob_le hd).2.2
    rw [hb] at hle
    exact absurd hle (by decide)

/-! ### Changes keep it in order -/

/-- More locations are there when more segments, clusters and blobs are. -/
theorem Has.mono {v' : View} (h : v.Has l) (hs : ∀ s, (v.segment s).isSome → (v'.segment s).isSome)
    (hc : ∀ s c, (v.cluster s c).isSome → (v'.cluster s c).isSome)
    (hb : ∀ l, (v.blob l).isSome → (v'.blob l).isSome) : v'.Has l := by
  cases h with
  | nextFreeSegmentId => exact .nextFreeSegmentId
  | segmentList => exact .segmentList
  | nextFreeClusterId h => exact .nextFreeClusterId (hs _ h)
  | segmentDelete h => exact .segmentDelete (hs _ h)
  | clusterList h => exact .clusterList (hs _ h)
  | nextFreeBlobId h => exact .nextFreeBlobId (hc _ _ h)
  | clusterDelete h => exact .clusterDelete (hc _ _ h)
  | blobList h => exact .blobList (hc _ _ h)
  | blob h => exact .blob (hb _ h)

theorem isSome_blob_setBlob (h : (v.blob l').isSome) : ((v.setBlob l (some d)).blob l').isSome := by
  by_cases hne : l' = l <;> simp [setBlob, hne, h]

theorem isSome_cluster_setNextBlob (h : (v.cluster s' c').isSome) :
    ((v.setNextBlob s c n).cluster s' c').isSome := by
  by_cases hne : s' = s ∧ c' = c <;> simp [setNextBlob, hne, h]

theorem isSome_segment_setNextCluster (h : (v.segment s').isSome) :
    ((v.setNextCluster s n).segment s').isSome := by
  by_cases hne : s' = s <;> simp [setNextCluster, hne, h]

theorem Has.setBlob (h : v.Has l') : (v.setBlob l (some d)).Has l' :=
  h.mono (fun _ => id) (fun _ _ => id) fun _ => isSome_blob_setBlob

theorem Has.setNextBlob (h : v.Has l) : (v.setNextBlob s c n).Has l :=
  h.mono (fun _ => id) (fun _ _ => isSome_cluster_setNextBlob) fun _ => id

theorem Has.setNextCluster (h : v.Has l) : (v.setNextCluster s n).Has l :=
  h.mono (fun _ => isSome_segment_setNextCluster) (fun _ _ => id) fun _ => id

theorem Has.setNextSegment (h : v.Has l) : (v.setNextSegment n).Has l :=
  h.mono (fun _ => id) (fun _ _ => id) fun _ => id

/-- Deleting one blob leaves the other locations. -/
theorem Has.deleteBlob (h : v.Has l') (hne : l' ≠ l) : (v.setBlob l none).Has l' := by
  cases h with
  | nextFreeSegmentId => exact .nextFreeSegmentId
  | segmentList => exact .segmentList
  | nextFreeClusterId h => exact .nextFreeClusterId h
  | segmentDelete h => exact .segmentDelete h
  | clusterList h => exact .clusterList h
  | nextFreeBlobId h => exact .nextFreeBlobId h
  | clusterDelete h => exact .clusterDelete h
  | blobList h => exact .blobList h
  | blob h => exact .blob (by rwa [blob_setBlob_of_ne hne])

/-- What is not in the cluster stays. -/
theorem Has.deleteCluster (h : v.Has l) (hne : ¬(l.segment = s ∧ l.cluster = c)) :
    (v.deleteCluster s c).Has l := by
  cases h with
  | nextFreeSegmentId => exact .nextFreeSegmentId
  | segmentList => exact .segmentList
  | nextFreeClusterId h => exact .nextFreeClusterId h
  | segmentDelete h => exact .segmentDelete h
  | clusterList h => exact .clusterList h
  | nextFreeBlobId h => exact .nextFreeBlobId (by rwa [cluster_deleteCluster_of_ne hne])
  | clusterDelete h => exact .clusterDelete (by rwa [cluster_deleteCluster_of_ne hne])
  | blobList h => exact .blobList (by rwa [cluster_deleteCluster_of_ne hne])
  | blob h => exact .blob (by rwa [blob_deleteCluster_of_ne hne])

/-- What is not in the segment stays. -/
theorem Has.deleteSegment (h : v.Has l) (hne : l.segment ≠ s) : (v.deleteSegment s).Has l := by
  cases h with
  | nextFreeSegmentId => exact .nextFreeSegmentId
  | segmentList => exact .segmentList
  | nextFreeClusterId h => exact .nextFreeClusterId (by rwa [segment_deleteSegment_of_ne hne])
  | segmentDelete h => exact .segmentDelete (by rwa [segment_deleteSegment_of_ne hne])
  | clusterList h => exact .clusterList (by rwa [segment_deleteSegment_of_ne hne])
  | nextFreeBlobId h => exact .nextFreeBlobId (by rwa [cluster_deleteSegment_of_ne hne])
  | clusterDelete h => exact .clusterDelete (by rwa [cluster_deleteSegment_of_ne hne])
  | blobList h => exact .blobList (by rwa [cluster_deleteSegment_of_ne hne])
  | blob h => exact .blob (by rwa [blob_deleteSegment_of_ne hne])

namespace WF

/-- Writing a blob of a cluster keeps a view well formed. -/
theorem setBlob {data : Option (List UInt8)} (h : v.WF)
    (hl : data.isSome → ∃ n, v.cluster l.segment l.cluster = some n ∧ l.blob < n) :
    (v.setBlob l data).WF where
  nextSegment := h.nextSegment
  segment := h.segment
  cluster := h.cluster
  blob := fun l' d hd => by
    by_cases hne : l' = l
    · subst hne
      rw [blob_setBlob_self] at hd
      exact hl (by rw [hd]; rfl)
    · exact h.blob l' d (by rwa [blob_setBlob_of_ne hne] at hd)

/-- Raising the next free blob id keeps a view well formed. -/
theorem setNextBlob (h : v.WF) (hk : ∃ k, v.segment s = some k ∧ c < k)
    (hle : ∀ n', v.cluster s c = some n' → n' ≤ n) (hn : n ≤ maxBlobId + 1) :
    (v.setNextBlob s c n).WF where
  nextSegment := h.nextSegment
  segment := h.segment
  cluster := fun s' c' n' hn' => by
    by_cases hne : s' = s ∧ c' = c
    · obtain ⟨rfl, rfl⟩ := hne
      obtain rfl := Option.some.inj (cluster_setNextBlob_self.symm.trans hn')
      exact ⟨hk, hn⟩
    · exact h.cluster s' c' n' (by rwa [cluster_setNextBlob_of_ne hne] at hn')
  blob := fun l d hd => by
    obtain ⟨n', hn', hlt⟩ := h.blob l d hd
    by_cases hne : l.segment = s ∧ l.cluster = c
    · rw [hne.1, hne.2] at hn' ⊢
      exact ⟨n, cluster_setNextBlob_self, lt_of_lt_of_le hlt (hle n' hn')⟩
    · exact ⟨n', by rwa [cluster_setNextBlob_of_ne hne], hlt⟩

/-- Raising the next free cluster id keeps a view well formed. -/
theorem setNextCluster (h : v.WF) (hs : s < v.nextSegment)
    (hle : ∀ n', v.segment s = some n' → n' ≤ n) (hn : n ≤ maxClusterId + 1) :
    (v.setNextCluster s n).WF where
  nextSegment := h.nextSegment
  segment := fun s' n' hn' => by
    by_cases hne : s' = s
    · subst hne
      obtain rfl := Option.some.inj (segment_setNextCluster_self.symm.trans hn')
      exact ⟨hs, hn⟩
    · exact h.segment s' n' (by rwa [segment_setNextCluster_of_ne hne] at hn')
  cluster := fun s' c n' hn' => by
    obtain ⟨⟨k, hk, hlt⟩, hle'⟩ := h.cluster s' c n' hn'
    refine ⟨?_, hle'⟩
    by_cases hne : s' = s
    · subst hne
      exact ⟨n, segment_setNextCluster_self, lt_of_lt_of_le hlt (hle k hk)⟩
    · exact ⟨k, by rwa [segment_setNextCluster_of_ne hne], hlt⟩
  blob := h.blob

/-- Raising the next free segment id keeps a view well formed. -/
theorem setNextSegment (h : v.WF) (hle : v.nextSegment ≤ n) (hn : n ≤ maxSegmentId + 1) :
    (v.setNextSegment n).WF where
  nextSegment := hn
  segment := fun s' n' hn' => ⟨lt_of_lt_of_le (h.segment s' n' hn').1 hle, (h.segment s' n' hn').2⟩
  cluster := h.cluster
  blob := h.blob

/-- Deleting a cluster keeps a view well formed. -/
theorem deleteCluster (h : v.WF) : (v.deleteCluster s c).WF where
  nextSegment := h.nextSegment
  segment := h.segment
  cluster := fun s' c' n' hn' => by
    by_cases hne : s' = s ∧ c' = c
    · rw [hne.1, hne.2, cluster_deleteCluster_self] at hn'
      cases hn'
    · exact h.cluster s' c' n' (by rwa [cluster_deleteCluster_of_ne hne] at hn')
  blob := fun l d hd => by
    by_cases hne : l.segment = s ∧ l.cluster = c
    · rw [blob_deleteCluster_of_mem hne] at hd
      cases hd
    · rw [cluster_deleteCluster_of_ne hne]
      exact h.blob l d (by rwa [blob_deleteCluster_of_ne hne] at hd)

/-- Deleting a segment keeps a view well formed. -/
theorem deleteSegment (h : v.WF) : (v.deleteSegment s).WF where
  nextSegment := h.nextSegment
  segment := fun s' n' hn' => by
    by_cases hne : s' = s
    · rw [hne, segment_deleteSegment_self] at hn'
      cases hn'
    · exact h.segment s' n' (by rwa [segment_deleteSegment_of_ne hne] at hn')
  cluster := fun s' c' n' hn' => by
    by_cases hne : s' = s
    · rw [hne, cluster_deleteSegment_self] at hn'
      cases hn'
    · rw [segment_deleteSegment_of_ne hne]
      exact h.cluster s' c' n' (by rwa [cluster_deleteSegment_of_ne hne] at hn')
  blob := fun l d hd => by
    by_cases hne : l.segment = s
    · rw [blob_deleteSegment_of_mem hne] at hd
      cases hd
    · rw [cluster_deleteSegment_of_ne hne]
      exact h.blob l d (by rwa [blob_deleteSegment_of_ne hne] at hd)

end WF

end View

end BlobsDb
