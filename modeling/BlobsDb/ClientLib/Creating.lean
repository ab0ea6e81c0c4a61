import BlobsDb.ClientLib.Accessing

/-!
# Creating and deleting

What is written, created and deleted is seen at once (`DatabaseTransaction.Sees`). Once the next free
id is read and locked, nothing that is needed to create a blob, a cluster or a segment is requested
from the server any more, and it can not fail (`ensures_newBlob`, `ensures_newCluster`,
`ensures_newSegment`).
-/

namespace BlobsDb

namespace View

variable {v : View} {s : SegmentId} {c : ClusterId}

/-- A cluster is created with an empty blob. -/
theorem addCluster_eq (h : v.WF) (hc : v.cluster s c = none) :
    ((v.setNextBlob s c 0).setNextBlob s c 1).setBlob ⟨s, c, 0⟩ (some []) = v.addCluster s c := by
  have hblob : ∀ l : BlobLocation, l.segment = s ∧ l.cluster = c → v.blob l = none := fun l hl => by
    by_contra hcon
    obtain ⟨d, hd⟩ := Option.ne_none_iff_exists'.mp hcon
    obtain ⟨n, hn, -⟩ := h.blob l d hd
    rw [hl.1, hl.2, hc] at hn
    cases hn
  have hloc : ∀ l : BlobLocation, l = ⟨s, c, 0⟩ ↔ (l.segment = s ∧ l.cluster = c) ∧ l.blob = 0 :=
    fun l => by
      obtain ⟨s', c', b'⟩ := l
      rw [BlobLocation.mk.injEq, and_assoc]
  refine View.ext rfl rfl (funext₂ fun s' c' => ?_) (funext fun l => ?_)
  · by_cases hne : s' = s ∧ c' = c <;> simp [setBlob, setNextBlob, addCluster, hne]
  · by_cases hne : l.segment = s ∧ l.cluster = c <;> by_cases hb : l.blob = 0 <;>
      simp [setBlob, setNextBlob, addCluster, hloc, hne, hb]
    exact hblob l hne

/-- A segment is created with a cluster. -/
theorem addSegment_eq (h : v.WF) (hs : v.segment s = none) :
    ((v.setNextCluster s 0).setNextCluster s 1).addCluster s 0 = v.addSegment s := by
  have hcluster : ∀ c, v.cluster s c = none := fun c => by
    by_contra hcon
    obtain ⟨n, hn⟩ := Option.ne_none_iff_exists'.mp hcon
    obtain ⟨k, hk, -⟩ := h.exists_segment hn
    cases hs.symm.trans hk
  have hblob : ∀ l : BlobLocation, l.segment = s → v.blob l = none := fun l hl => by
    by_contra hcon
    obtain ⟨d, hd⟩ := Option.ne_none_iff_exists'.mp hcon
    obtain ⟨n, hn, -⟩ := h.blob l d hd
    rw [hl, hcluster] at hn
    cases hn
  refine View.ext rfl (funext fun s' => ?_) (funext₂ fun s' c' => ?_) (funext fun l => ?_)
  · by_cases hne : s' = s <;> simp [setNextCluster, addCluster, addSegment, hne]
  · by_cases hne : s' = s <;> by_cases hc : c' = 0 <;>
      simp [setNextCluster, addCluster, addSegment, hne, hc]
    exact hcluster c'
  · by_cases hne : l.segment = s <;> by_cases hc : l.cluster = 0 <;> by_cases hb : l.blob = 0 <;>
      simp [setNextCluster, addCluster, addSegment, hne, hc, hb]
    all_goals exact hblob l hne

end View

namespace ClientLib

open DbTree (HasLocation)
open Access (idOf idData)

variable {μ : Type} {t : DbTree μ 3} {version : BlobLocation → CommitId} {server : Replies}
  {db db' : DatabaseTransaction} {v v' : View} {l l' : BlobLocation} {s : SegmentId} {c : ClusterId}
  {n n' : UInt32} {data : List UInt8} {missed : BlobLocation → Prop}

namespace DatabaseTransaction

/-! ### What is noted -/

/-- A blob is created. -/
def created (db : DatabaseTransaction) (l : BlobLocation) (nextFree : BlobId) : DatabaseTransaction :=
  ((db.noted fun state => state.writeBlob ⟨l.segment, l.cluster, nextFreeBlobId⟩
    (idData nextFree)).acquired .write l).noted fun state => state.createBlob l

/-- A cluster is created, without its first blob. -/
def createdCluster (db : DatabaseTransaction) (s : SegmentId) (c : ClusterId) : DatabaseTransaction :=
  (((((db.noted fun state => state.writeBlob ⟨s, nextFreeClusterId, nextFreeBlobId⟩
    (idData (c + 1))).acquired .write ⟨s, c, nextFreeBlobId⟩).acquired .write
      ⟨s, c, clusterDeleteId⟩).acquired .write ⟨s, c, blobListId⟩).noted
        fun state => state.createCluster s c).noted
          fun state => state.writeBlob ⟨s, c, nextFreeBlobId⟩ (idData 0)

/-- A segment is created, without its first cluster. -/
def createdSegment (db : DatabaseTransaction) (s : SegmentId) : DatabaseTransaction :=
  (((((db.noted fun state => state.writeBlob DatabaseState.nextSegmentLocation
    (idData (s + 1))).acquired .write ⟨s, nextFreeClusterId, nextFreeBlobId⟩).acquired .write
      ⟨s, segmentDeleteId, clusterDeleteId⟩).acquired .write
        ⟨s, clusterListId, blobListId⟩).noted fun state => state.createSegment s).noted
          fun state => state.writeBlob ⟨s, nextFreeClusterId, nextFreeBlobId⟩ (idData 0)

theorem heldLocks_createBlob (state : DatabaseState) (l : BlobLocation) :
    (state.createBlob l).heldLocks = state.heldLocks := by
  unfold DatabaseState.createBlob
  split_ifs <;> rfl

theorem state_created (db : DatabaseTransaction) (l : BlobLocation) (n : BlobId) :
    (db.created l n).state = { (db.state.writeBlob ⟨l.segment, l.cluster, nextFreeBlobId⟩
      (idData n)).createBlob l with heldLocks := (db.created l n).state.heldLocks } := by
  unfold created noted acquired DatabaseState.createBlob
  dsimp only
  split_ifs <;> rfl

theorem isBlobDeleted_created (hlive : db.state.isClusterDeleted l.segment l.cluster = false)
    (n : BlobId) (l' : BlobLocation) : (db.created l n).state.isBlobDeleted l' =
      if l' = l then false else db.state.isBlobDeleted l' := by
  have hlive' : (db.state.writeBlob ⟨l.segment, l.cluster, nextFreeBlobId⟩
      (idData n)).isClusterDeleted l.segment l.cluster = false := hlive
  rw [state_created]
  exact DatabaseState.isBlobDeleted_createBlob hlive' l'

theorem lockType_created (db : DatabaseTransaction) (l l' : BlobLocation) (n : BlobId) :
    (db.created l n).lockType l' = .write ↔ l' = l ∨ db.lockType l' = .write := by
  rw [lockType, created, noted, heldLocks_createBlob]
  exact lockType_acquired _ l l'

theorem lockType_createdCluster (db : DatabaseTransaction) (s : SegmentId) (c : ClusterId)
    (l' : BlobLocation) : (db.createdCluster s c).lockType l' = .write ↔
      l' = ⟨s, c, blobListId⟩ ∨ l' = ⟨s, c, clusterDeleteId⟩ ∨ l' = ⟨s, c, nextFreeBlobId⟩ ∨
        db.lockType l' = .write :=
  (lockType_acquired _ _ l').trans (or_congr_right ((lockType_acquired _ _ l').trans
    (or_congr_right (lockType_acquired _ _ l'))))

theorem lockType_createdSegment (db : DatabaseTransaction) (s : SegmentId) (l' : BlobLocation) :
    (db.createdSegment s).lockType l' = .write ↔
      l' = ⟨s, clusterListId, blobListId⟩ ∨ l' = ⟨s, segmentDeleteId, clusterDeleteId⟩ ∨
        l' = ⟨s, nextFreeClusterId, nextFreeBlobId⟩ ∨ db.lockType l' = .write :=
  (lockType_acquired _ _ l').trans (or_congr_right ((lockType_acquired _ _ l').trans
    (or_congr_right (lockType_acquired _ _ l'))))

namespace Sees

/-- A blob is written that is there already. -/
theorem writeBlob (h : Sees missed t version v db) (hb : (v.blob l).isSome)
    (hlock : db.lockType l = .write) : Sees missed t version (v.setBlob l (some data))
      (db.noted fun state => state.writeBlob l data) := by
  refine h.change (h.tracks.writeBlob hb) rfl (fun _ _ => id) (fun l' hl' => ?_)
    fun l' hl' hlive => (h.locked l' hl' hlive).setBlob
  rw [show (db.noted fun state => state.writeBlob l data).state.writtenBlobs.find l' = _ from
    DatabaseState.find_writeBlob l'] at hl'
  split_ifs at hl' with hne
  · rw [hne]
    exact hlock
  · exact h.written l' hl'

/-- A blob is created and written. -/
theorem createBlob (h : Sees missed t version v db) (hn : v.cluster l.segment l.cluster = some n)
    (hle : n ≤ n') (hmax : n' ≤ maxBlobId + 1) (hb : l.blob < n')
    (hfound : db.state.deletedBlobs.find l = none → (View.of t).blob l = none)
    (hmissed : (db.state.deletedBlobs.find l).isSome → (View.of t).blob l = none → missed l)
    (hfirst : (View.of t).cluster l.segment l.cluster = none → 0 < n ∨ l.blob = 0)
    (hlock : db.lockType ⟨l.segment, l.cluster, nextFreeBlobId⟩ = .write) :
    Sees missed t version ((v.setNextBlob l.segment l.cluster n').setBlob l (some data))
      ((db.created l n').noted fun state => state.writeBlob l data) := by
  have hlive : db.state.isClusterDeleted l.segment l.cluster = false :=
    (h.tracks.live_of_cluster hn).2
  have hstate : ((db.created l n').noted fun state => state.writeBlob l data).state =
      { ((db.state.writeBlob ⟨l.segment, l.cluster, nextFreeBlobId⟩ (idData n')).createBlob l).writeBlob
        l data with heldLocks := (db.created l n').state.heldLocks } :=
    congrArg (fun state => state.writeBlob l data) (state_created db l n')
  have hlocks : ∀ l', ((db.created l n').noted fun state => state.writeBlob l data).lockType l' =
      .write ↔ l' = l ∨ db.lockType l' = .write := fun l' => lockType_created db l l' n'
  have hdeleted : ∀ l', ((db.created l n').noted fun state =>
      state.writeBlob l data).state.isBlobDeleted l' =
        if l' = l then false else db.state.isBlobDeleted l' := fun l' =>
    isBlobDeleted_created hlive n' l'
  have htracks : ((db.created l n').noted fun state => state.writeBlob l data).state.Tracks missed
      (View.of t) ((v.setNextBlob l.segment l.cluster n').setBlob l (some data)) := by
    rw [hstate]
    exact (h.tracks.createBlob hn hle hmax hb hfound hmissed hfirst).heldLocks _
  refine h.change htracks rfl (fun _ _ => id) (fun l' hl' => ?_) fun l' hl' hlive' => ?_
  · have hwritten : ((db.state.writeBlob ⟨l.segment, l.cluster, nextFreeBlobId⟩
        (idData n')).createBlob l).writtenBlobs.find l' = (db.state.writeBlob
          ⟨l.segment, l.cluster, nextFreeBlobId⟩ (idData n')).writtenBlobs.find l' := by
      unfold DatabaseState.createBlob
      split_ifs <;> rfl
    rw [hstate] at hl'
    change ((((db.state.writeBlob _ _).createBlob l).writeBlob l data).writtenBlobs.find l').isSome at hl'
    rw [DatabaseState.find_writeBlob] at hl'
    rw [hlocks]
    split_ifs at hl' with h1
    · exact Or.inl h1
    · rw [hwritten, DatabaseState.find_writeBlob] at hl'
      split_ifs at hl' with h2
      · rw [h2]
        exact Or.inr hlock
      · exact Or.inr (h.written l' hl')
  · rw [hdeleted] at hlive'
    split_ifs at hlive' with hne
    · rw [hne]
      exact .blob (by rw [View.blob_setBlob_self]; rfl)
    · exact (h.locked l' (((hlocks l').mp hl').resolve_left hne) hlive').setNextBlob.setBlob

/-- A cluster is created, without its first blob. -/
theorem createCluster (h : Sees missed t version v db) (hn : v.segment s = some c)
    (hc : c ≤ maxClusterId) (hlock : db.lockType ⟨s, nextFreeClusterId, nextFreeBlobId⟩ = .write) :
    Sees missed t version ((v.setNextCluster s (c + 1)).setNextBlob s c 0)
      (db.createdCluster s c) := by
  have htracks := (h.tracks.createCluster hn hc).heldLocks (db.createdCluster s c).state.heldLocks
  have hcluster : (((v.setNextCluster s (c + 1)).setNextBlob s c 0).cluster s c).isSome := by
    rw [View.cluster_setNextBlob_self]
    rfl
  refine h.change htracks rfl (fun _ _ => id) (fun l' hl' => ?_) fun l' hl' hlive => ?_
  · rw [lockType_createdCluster]
    rw [show (db.createdCluster s c).state.writtenBlobs.find l' = _ from
      DatabaseState.find_writeBlob l'] at hl'
    split_ifs at hl' with h1
    · exact Or.inr (Or.inr (Or.inl h1))
    · change ((db.state.writeBlob _ _).writtenBlobs.find l').isSome at hl'
      rw [DatabaseState.find_writeBlob] at hl'
      split_ifs at hl' with h2
      · rw [h2]
        exact Or.inr (Or.inr (Or.inr hlock))
      · exact Or.inr (Or.inr (Or.inr (h.written l' hl')))
  · rcases (lockType_createdCluster db s c l').mp hl' with rfl | rfl | rfl | hl'
    · exact .blobList hcluster
    · exact .clusterDelete hcluster
    · exact .nextFreeBlobId hcluster
    · exact (h.locked l' hl' hlive).setNextCluster.setNextBlob

/-- A segment is created, without its first cluster. -/
theorem createSegment (h : Sees missed t version v db) (hn : v.nextSegment = s)
    (hs : s ≤ maxSegmentId) (hlock : db.lockType DatabaseState.nextSegmentLocation = .write) :
    Sees missed t version ((v.setNextSegment (s + 1)).setNextCluster s 0) (db.createdSegment s) := by
  have htracks := (h.tracks.createSegment hn hs).heldLocks (db.createdSegment s).state.heldLocks
  have hsegment : (((v.setNextSegment (s + 1)).setNextCluster s 0).segment s).isSome := by
    rw [View.segment_setNextCluster_self]
    rfl
  refine h.change htracks rfl (fun _ _ => id) (fun l' hl' => ?_) fun l' hl' hlive => ?_
  · rw [lockType_createdSegment]
    rw [show (db.createdSegment s).state.writtenBlobs.find l' = _ from
      DatabaseState.find_writeBlob l'] at hl'
    split_ifs at hl' with h1
    · exact Or.inr (Or.inr (Or.inl h1))
    · change ((db.state.writeBlob _ _).writtenBlobs.find l').isSome at hl'
      rw [DatabaseState.find_writeBlob] at hl'
      split_ifs at hl' with h2
      · rw [h2]
        exact Or.inr (Or.inr (Or.inr hlock))
      · exact Or.inr (Or.inr (Or.inr (h.written l' hl')))
  · rcases (lockType_createdSegment db s l').mp hl' with rfl | rfl | rfl | hl'
    · exact .clusterList hsegment
    · exact .segmentDelete hsegment
    · exact .nextFreeClusterId hsegment
    · exact (h.locked l' hl' hlive).setNextSegment.setNextCluster

/-- A blob is deleted. -/
theorem deleteBlob (h : Sees missed t version v db) (hl : l.blob ≤ maxBlobId)
    (hb : (v.blob l).isSome) : Sees missed t version (v.setBlob l none)
      { db.noted fun state => state.deleteBlob l with cache := db.cache.erase l } := by
  refine h.change (h.tracks.deleteBlob hl hb) rfl (fun l' c hc => ?_) (fun l' hl' => ?_)
    fun l' hl' hlive => ?_
  · rw [show (db.cache.erase l).find l' = _ from FlatMap.find_erase _ _ _] at hc
    split_ifs at hc
    exact hc
  · change ((db.state.writtenBlobs.erase l).find l').isSome at hl'
    rw [FlatMap.find_erase] at hl'
    split_ifs at hl'
    · cases hl'
    · exact h.written l' hl'
  · change (db.state.deleteBlob l).isBlobDeleted l' = false at hlive
    rw [DatabaseState.isBlobDeleted_deleteBlob, Bool.or_eq_false_iff] at hlive
    exact (h.locked l' hl' hlive.1).deleteBlob (of_decide_eq_false hlive.2)

/-- A cluster is deleted. -/
theorem deleteCluster (h : Sees missed t version v db) (hc : c ≤ maxClusterId)
    (hn : v.cluster s c = some n) : Sees missed t version (v.deleteCluster s c)
      { db.noted fun state => state.deleteCluster s c with
        cache := db.cache.filterKeys fun l => !(l.segment = s && l.cluster = c) } := by
  refine h.change (h.tracks.deleteCluster hc hn) rfl (fun l' x hx => ?_) (fun l' hl' => ?_)
    fun l' hl' hlive => ?_
  · rw [show (db.cache.filterKeys _).find l' = _ from FlatMap.find_filterKeys _ _ _] at hx
    split_ifs at hx
    exact hx
  · change ((db.state.deleteCluster s c).writtenBlobs.find l').isSome at hl'
    rw [show (db.state.deleteCluster s c).writtenBlobs.find l' = _ from
      DatabaseState.find_outside_cluster _ l'] at hl'
    split_ifs at hl'
    · cases hl'
    · exact h.written l' hl'
  · change (db.state.deleteCluster s c).isBlobDeleted l' = false at hlive
    rw [DatabaseState.isBlobDeleted_deleteCluster, Bool.or_eq_false_iff] at hlive
    exact (h.locked l' hl' hlive.1).deleteCluster (of_decide_eq_false hlive.2)

/-- A segment is deleted. -/
theorem deleteSegment (h : Sees missed t version v db) (hs : s ≤ maxSegmentId)
    (hn : v.segment s = some n) : Sees missed t version (v.deleteSegment s)
      { db.noted fun state => state.deleteSegment s with
        cache := db.cache.filterKeys fun l => !(l.segment = s) } := by
  refine h.change (h.tracks.deleteSegment hs hn) rfl (fun l' x hx => ?_) (fun l' hl' => ?_)
    fun l' hl' hlive => ?_
  · rw [show (db.cache.filterKeys _).find l' = _ from FlatMap.find_filterKeys _ _ _] at hx
    split_ifs at hx
    exact hx
  · change ((db.state.deleteSegment s).writtenBlobs.find l').isSome at hl'
    rw [show (db.state.deleteSegment s).writtenBlobs.find l' = _ from
      DatabaseState.find_outside_segment _ l'] at hl'
    split_ifs at hl'
    · cases hl'
    · exact h.written l' hl'
  · change (db.state.deleteSegment s).isBlobDeleted l' = false at hlive
    rw [DatabaseState.isBlobDeleted_deleteSegment, Bool.or_eq_false_iff] at hlive
    exact (h.locked l' hl' hlive.1).deleteSegment (of_decide_eq_false hlive.2)

end Sees

end DatabaseTransaction

namespace Access

open DatabaseTransaction (Sees Continues)
open EStateM (Ensures ensures_bind ensures_get ensures_pure ensures_throw ensures_modify)

/-! ### Creating -/

theorem ensures_newBlob (hlock : db.lockType ⟨l.segment, l.cluster, nextFreeBlobId⟩ = .write)
    (hlive : db.state.isBlobDeleted ⟨l.segment, l.cluster, nextFreeBlobId⟩ = false) :
    (newBlob server l n).Ensures db (fun _ db' => db' = db.created l n) fun _ _ => False := by
  refine (ensures_writeBlobInternal_of_locked hlock hlive).bind fun _ db₁ hdb₁ => ?_
  rw [hdb₁]
  exact rfl

theorem ensures_createBlobInternal {failed : Exception → DatabaseTransaction → Prop}
    (hread : (readBlobInternal server ⟨s, c, nextFreeBlobId⟩ .write).Ensures db
      (fun data db' => Continues missed t version v db db' ∧ v.cluster s c = some (idOf data) ∧
        db'.lockType ⟨s, c, nextFreeBlobId⟩ = .write) failed) :
    (createBlobInternal server s c).Ensures db
      (fun b db' => v.cluster s c = some b ∧ b ≤ maxBlobId ∧ ∃ db₁,
        Continues missed t version v db db₁ ∧ db₁.lockType ⟨s, c, nextFreeBlobId⟩ = .write ∧
          db' = db₁.created ⟨s, c, b⟩ (b + 1))
      fun e db' => failed e db' ∨ Continues missed t version v db db' ∧
        ∃ n, v.cluster s c = some n ∧ maxBlobId < n := by
  refine (hread.mono (fun _ _ => id) fun _ _ => Or.inl).bind fun data db₁ hdb₁ => ?_
  obtain ⟨hcontinues, hn, hlock⟩ := hdb₁
  have hacquired := hcontinues.sees.acquired (l := ⟨s, c, blobListId⟩)
    fun _ => .blobList (by rw [hn]; rfl)
  have hlock' := hacquired.locked _ hlock
  have hlive := hacquired.sees.tracks.isBlobDeleted_nextFreeBlobId hn
  rw [ensures_bind, acquiredLock, ensures_modify]
  split_ifs with hfull
  · exact Or.inr ⟨hcontinues.trans hacquired, _, hn, hfull⟩
  · refine ((ensures_newBlob hlock' hlive).mono (fun _ _ => id) fun _ _ => False.elim).bind
      fun _ db₂ hdb₂ => ?_
    exact ⟨hn, not_lt.mp hfull, _, hcontinues.trans hacquired, hlock', hdb₂⟩

/-- A blob is created once the next free id is read. -/
theorem ensures_createBlob {failed : Exception → DatabaseTransaction → Prop}
    (hread : c ≤ maxClusterId → (readBlobInternal server ⟨s, c, nextFreeBlobId⟩ .write).Ensures db
      (fun data db' => Continues missed t version v db db' ∧ v.cluster s c = some (idOf data) ∧
        db'.lockType ⟨s, c, nextFreeBlobId⟩ = .write) failed) :
    (createBlob server s c data).Ensures db
      (fun b db' => v.cluster s c = some b ∧ b ≤ maxBlobId ∧ data.length ≤ maxBlobSize ∧
        Sees missed t version ((v.setNextBlob s c (b + 1)).setBlob ⟨s, c, b⟩ (some data)) db')
      fun e db' => failed e db' ∨
        db' = db ∧ (maxBlobSize < data.length ∨ maxSegmentId < s ∨ maxClusterId < c) ∨
        Continues missed t version v db db' ∧ ∃ n, v.cluster s c = some n ∧ maxBlobId < n := by
  rw [createBlob]
  split_ifs with hsize
  · exact Or.inr (Or.inl ⟨rfl, Or.inl hsize⟩)
  refine ((ensures_checkIds _).mono (fun _ _ => id) fun _ db' hdb' => ?_).bind fun _ db' hdb' => ?_
  · refine Or.inr (Or.inl ⟨hdb'.1, Or.inr ?_⟩)
    simpa [checkSegment, checkCluster] using hdb'.2
  obtain ⟨rfl, hids⟩ := hdb'
  have hc : c ≤ maxClusterId := hids (checkCluster c) (by simp)
  refine ((ensures_createBlobInternal (hread hc)).mono (fun _ _ => id) fun _ _ hfailed => ?_).bind
    fun b db₂ hdb₂ => ?_
  · exact hfailed.imp id Or.inr
  obtain ⟨hn, hb, db₁, hcontinues, hlock, rfl⟩ := hdb₂
  have htracks := hcontinues.sees.tracks
  have hlock' : (db₁.created ⟨s, c, b⟩ (b + 1)).lockType ⟨s, c, b⟩ = .write :=
    (DatabaseTransaction.lockType_created db₁ _ _ _).mpr (Or.inl rfl)
  have hlive : (db₁.created ⟨s, c, b⟩ (b + 1)).state.isBlobDeleted ⟨s, c, b⟩ = false :=
    (DatabaseTransaction.isBlobDeleted_created (htracks.live_of_cluster hn).2 _ _).trans (if_pos rfl)
  obtain ⟨hfound, hdeleted⟩ := htracks.new_of_le hn le_rfl
  refine ((ensures_writeBlobInternal_of_locked hlock' hlive).mono (fun _ _ => id)
    fun _ _ => False.elim).bind fun _ db₃ hdb₃ => ?_
  rw [hdb₃]
  refine ⟨hn, hb, not_lt.mp hsize, ?_⟩
  refine hcontinues.sees.createBlob (l := ⟨s, c, b⟩) hn ((View.lt_succ_iff hb).mpr le_rfl).le
    (View.succ_le hb) ((View.lt_succ_iff hb).mpr le_rfl) (fun _ => hfound) (fun hsome => ?_)
    (fun _ => ?_) hlock
  · rw [hdeleted] at hsome
    cases hsome
  · exact (eq_or_ne b 0).symm.imp_left UInt32.pos_iff_ne_zero.mpr

/-- The end of `CreateCluster` does not fail. -/
theorem ensures_newCluster (h : Sees missed t version v db) (hs : s ≤ maxSegmentId)
    (hn : v.segment s = some c) (hc : c ≤ maxClusterId) (hmvcc : db.isMVCC = false)
    (hlock : db.lockType ⟨s, nextFreeClusterId, nextFreeBlobId⟩ = .write) :
    (newCluster server s c).Ensures db
      (fun _ db' => Sees missed t version ((v.setNextCluster s (c + 1)).addCluster s c) db')
      fun _ _ => False := by
  have hseen := h.createCluster hn hc hlock
  have hcluster : ((v.setNextCluster s (c + 1)).setNextBlob s c 0).cluster s c = some 0 :=
    View.cluster_setNextBlob_self
  have hmvcc' : (db.createdCluster s c).isMVCC = false := hmvcc
  have hwritten : (db.createdCluster s c).state.writtenBlobs.find ⟨s, c, nextFreeBlobId⟩ =
      some (idData 0) := (DatabaseState.find_writeBlob _).trans (if_pos rfl)
  have hlive : (db.createdCluster s c).state.isBlobDeleted ⟨s, c, nextFreeBlobId⟩ = false :=
    hseen.tracks.isBlobDeleted_nextFreeBlobId hcluster
  have hread : (readBlobInternal server ⟨s, c, nextFreeBlobId⟩ .write).Ensures (db.createdCluster s c)
      (fun data db' => Continues missed t version ((v.setNextCluster s (c + 1)).setNextBlob s c 0)
          (db.createdCluster s c) db' ∧
        ((v.setNextCluster s (c + 1)).setNextBlob s c 0).cluster s c = some (idOf data) ∧
        db'.lockType ⟨s, c, nextFreeBlobId⟩ = .write)
      fun _ _ => False := by
    refine (ensures_readBlobInternal_of_written hmvcc' hlive hwritten).mono (fun data db' hdb' => ?_)
      fun _ _ => id
    obtain ⟨rfl, rfl⟩ := hdb'
    refine ⟨hseen.refl, ?_, ?_⟩
    · rw [hcluster, idOf_idData]
    · exact (DatabaseTransaction.lockType_createdCluster db s c _).mpr (Or.inr (Or.inr (Or.inl rfl)))
  have hnext := h.tracks.isBlobDeleted_nextFreeClusterId hn
  refine (ensures_writeBlobInternal_of_locked hlock hnext).bind fun _ db₁ hdb₁ => ?_
  rw [hdb₁]
  -- the locks and the new cluster are noted, and its next free id is written
  have hwrite : (writeBlobInternal server ⟨s, c, nextFreeBlobId⟩ (idData 0)).Ensures
      ((((((db.noted fun state => state.writeBlob ⟨s, nextFreeClusterId, nextFreeBlobId⟩
        (idData (c + 1))).acquired .write ⟨s, c, nextFreeBlobId⟩).acquired .write
          ⟨s, c, clusterDeleteId⟩).acquired .write ⟨s, c, blobListId⟩).noted
            fun state => state.createCluster s c))
      (fun _ db' => db' = db.createdCluster s c) fun _ _ => False :=
    ensures_writeBlobInternal_of_locked
      ((DatabaseTransaction.lockType_createdCluster db s c _).mpr (Or.inr (Or.inr (Or.inl rfl)))) hlive
  refine hwrite.bind fun _ db₂ hdb₂ => ?_
  rw [hdb₂]
  refine ((ensures_createBlob fun _ => hread).mono (fun _ _ => id) fun _ _ hfailed => ?_).bind
    fun b db₃ hdb₃ => ?_
  · rcases hfailed with hfailed | ⟨-, hsize | hs' | hc'⟩ | ⟨-, n, hn', hfull⟩
    · exact hfailed
    · exact absurd hsize (Nat.not_lt_zero _)
    · exact absurd hs (not_le.mpr hs')
    · exact absurd hc (not_le.mpr hc')
    · obtain rfl := Option.some.inj (hcluster.symm.trans hn')
      exact absurd hfull (by decide)
  · obtain ⟨hb, -, -, hdb₃⟩ := hdb₃
    obtain rfl := Option.some.inj (hcluster.symm.trans hb)
    have hnone : (v.setNextCluster s (c + 1)).cluster s c = none := h.tracks.cluster_eq_none hn
    have hwf : (v.setNextCluster s (c + 1)).WF := by
      refine h.tracks.seen.setNextCluster (h.tracks.seen.segment s c hn).1 (fun k hk => ?_)
        (View.succ_le hc)
      obtain rfl := Option.some.inj (hn.symm.trans hk)
      exact ((View.lt_succ_iff hc).mpr le_rfl).le
    rw [← View.addCluster_eq hwf hnone]
    exact hdb₃

/-- A cluster is created once the next free id is read. -/
theorem ensures_createCluster {failed : Exception → DatabaseTransaction → Prop}
    (hread : s ≤ maxSegmentId →
      (readBlobInternal server ⟨s, nextFreeClusterId, nextFreeBlobId⟩ .write).Ensures db
        (fun data db' => Continues missed t version v db db' ∧ v.segment s = some (idOf data) ∧
          db'.lockType ⟨s, nextFreeClusterId, nextFreeBlobId⟩ = .write ∧ db'.isMVCC = false) failed) :
    (createCluster server s).Ensures db
      (fun c db' => v.segment s = some c ∧ c ≤ maxClusterId ∧
        Sees missed t version ((v.setNextCluster s (c + 1)).addCluster s c) db')
      fun e db' => failed e db' ∨ db' = db ∧ maxSegmentId < s ∨
        Continues missed t version v db db' ∧ ∃ n, v.segment s = some n ∧ maxClusterId < n := by
  refine ((ensures_checkIds _).mono (fun _ _ => id) fun _ db' hdb' => ?_).bind fun _ db' hdb' => ?_
  · exact Or.inr (Or.inl ⟨hdb'.1, by simpa [checkSegment] using hdb'.2⟩)
  obtain ⟨rfl, hids⟩ := hdb'
  have hs : s ≤ maxSegmentId := hids (checkSegment s) (by simp)
  refine ((hread hs).mono (fun _ _ => id) fun _ _ => Or.inl).bind fun data db₁ hdb₁ => ?_
  obtain ⟨hcontinues, hn, hlock, hmvcc⟩ := hdb₁
  have hacquired := hcontinues.sees.acquired (l := ⟨s, clusterListId, blobListId⟩)
    fun _ => .clusterList (by rw [hn]; rfl)
  rw [ensures_bind, acquiredLock, ensures_modify]
  split_ifs with hfull
  · exact Or.inr (Or.inr ⟨hcontinues.trans hacquired, _, hn, hfull⟩)
  · refine ((ensures_newCluster hacquired.sees hs hn (not_lt.mp hfull) hmvcc
      (hacquired.locked _ hlock)).mono (fun _ _ => id) fun _ _ => False.elim).bind fun _ db₂ hdb₂ => ?_
    exact ⟨hn, not_lt.mp hfull, hdb₂⟩

/-- The end of `CreateSegment` does not fail. -/
theorem ensures_newSegment (h : Sees missed t version v db) (hn : v.nextSegment = s)
    (hs : s ≤ maxSegmentId) (hmvcc : db.isMVCC = false)
    (hlock : db.lockType DatabaseState.nextSegmentLocation = .write)
    (hlive : db.state.isBlobDeleted DatabaseState.nextSegmentLocation = false) :
    (newSegment server s).Ensures db
      (fun _ db' => Sees missed t version ((v.setNextSegment (s + 1)).addSegment s) db')
      fun _ _ => False := by
  have hseen := h.createSegment hn hs hlock
  have hsegment : ((v.setNextSegment (s + 1)).setNextCluster s 0).segment s = some 0 :=
    View.segment_setNextCluster_self
  have hmvcc' : (db.createdSegment s).isMVCC = false := hmvcc
  have hwritten : (db.createdSegment s).state.writtenBlobs.find
      ⟨s, nextFreeClusterId, nextFreeBlobId⟩ = some (idData 0) :=
    (DatabaseState.find_writeBlob _).trans (if_pos rfl)
  have hnext : (db.createdSegment s).state.isBlobDeleted ⟨s, nextFreeClusterId, nextFreeBlobId⟩ =
      false := hseen.tracks.isBlobDeleted_nextFreeClusterId hsegment
  have hlock' : (db.createdSegment s).lockType ⟨s, nextFreeClusterId, nextFreeBlobId⟩ = .write :=
    (DatabaseTransaction.lockType_createdSegment db s _).mpr (Or.inr (Or.inr (Or.inl rfl)))
  have hread : (readBlobInternal server ⟨s, nextFreeClusterId, nextFreeBlobId⟩ .write).Ensures
      (db.createdSegment s)
      (fun data db' => Continues missed t version ((v.setNextSegment (s + 1)).setNextCluster s 0)
          (db.createdSegment s) db' ∧
        ((v.setNextSegment (s + 1)).setNextCluster s 0).segment s = some (idOf data) ∧
        db'.lockType ⟨s, nextFreeClusterId, nextFreeBlobId⟩ = .write ∧ db'.isMVCC = false)
      fun _ _ => False := by
    refine (ensures_readBlobInternal_of_written hmvcc' hnext hwritten).mono (fun data db' hdb' => ?_)
      fun _ _ => id
    obtain ⟨rfl, rfl⟩ := hdb'
    exact ⟨hseen.refl, by rw [hsegment, idOf_idData], hlock', hmvcc'⟩
  refine (ensures_writeBlobInternal_of_locked hlock hlive).bind fun _ db₁ hdb₁ => ?_
  rw [hdb₁]
  -- the locks and the new segment are noted, and its next free id is written
  have hwrite : (writeBlobInternal server ⟨s, nextFreeClusterId, nextFreeBlobId⟩ (idData 0)).Ensures
      ((((((db.noted fun state => state.writeBlob DatabaseState.nextSegmentLocation
        (idData (s + 1))).acquired .write ⟨s, nextFreeClusterId, nextFreeBlobId⟩).acquired .write
          ⟨s, segmentDeleteId, clusterDeleteId⟩).acquired .write
            ⟨s, clusterListId, blobListId⟩).noted fun state => state.createSegment s))
      (fun _ db' => db' = db.createdSegment s) fun _ _ => False :=
    ensures_writeBlobInternal_of_locked hlock' hnext
  refine hwrite.bind fun _ db₂ hdb₂ => ?_
  rw [hdb₂]
  refine ((ensures_createCluster fun _ => hread).mono (fun _ _ => id) fun _ _ hfailed => ?_).bind
    fun c db₃ hdb₃ => ?_
  · rcases hfailed with hfailed | ⟨-, hs'⟩ | ⟨-, n, hn', hfull⟩
    · exact hfailed
    · exact absurd hs (not_le.mpr hs')
    · obtain rfl := Option.some.inj (hsegment.symm.trans hn')
      exact absurd hfull (by decide)
  · obtain ⟨hc, -, hdb₃⟩ := hdb₃
    obtain rfl := Option.some.inj (hsegment.symm.trans hc)
    have hle : v.nextSegment ≤ s + 1 := hn ▸ ((View.lt_succ_iff hs).mpr le_rfl).le
    have hnone : (v.setNextSegment (s + 1)).segment s = none := by
      by_contra hcon
      obtain ⟨k, hk⟩ := Option.ne_none_iff_exists'.mp hcon
      exact lt_irrefl s (lt_of_lt_of_eq (h.tracks.seen.segment s k hk).1 hn)
    rw [← View.addSegment_eq (h.tracks.seen.setNextSegment hle (View.succ_le hs)) hnone]
    exact hdb₃

end Access

end ClientLib

end BlobsDb
