import BlobsDb.ClientLib.CommitMessages
import BlobsDb.ClientLib.Committing
import BlobsDb.Server.Ledger

/-!
# Locks on what a commit deleted

After a commit the server gives up the locks of the client on what the commit deleted, and the
client forgets these locks by itself, without an answer that names them. It erases ranges of
locations. The range of a deleted blob was meant to end before the next blob, but the last
location of a range is erased as well. So the client and the server agree if and only if there is
no lock right behind a deleted blob that they both have to give up anyway
(`DatabaseState.releaseDeletedBlobLocks_eq_iff`).
-/

namespace BlobsDb

/-- The location behind that of a blob. -/
def BlobLocation.next (l : BlobLocation) : BlobLocation := { l with blob := l.blob + 1 }

/-- The order of the locations is that of their places. -/
theorem BlobLocation.le_iff_position {a b : BlobLocation} : a ≤ b ↔ a.position ≤ b.position := by
  have h1 := a.cluster.toNat_lt
  have h2 := b.cluster.toNat_lt
  have h3 := a.blob.toNat_lt
  have h4 := b.blob.toNat_lt
  change toLex (a.segment, toLex (a.cluster, a.blob)) ≤ toLex (b.segment, toLex (b.cluster, b.blob)) ↔ _
  simp only [Prod.Lex.toLex_le_toLex, position, UInt32.lt_iff_toNat_lt, UInt32.le_iff_toNat_le,
    ← UInt32.toNat_inj]
  omega

/-- What the database notes as deleted by a commit is what the entries delete. -/
theorem Database.commit_deleted {db db' : Database} {us : List BlobData} {σ : Schedule}
    {deleted : Deleted} (h : db.commit us σ = some (db', deleted)) :
    deleted = us.foldl Deleted.noted .empty := by
  unfold commit at h
  split at h
  · cases h
  · next r hr =>
    split_ifs at h
    obtain ⟨-, rfl⟩ := Prod.mk.inj (Option.some.inj h)
    unfold calculateCommitResult at hr
    split at hr
    · cases hr
    · next st hst =>
      have hdel : st.deleted = us.foldl Deleted.noted .empty :=
        CommitState.deleted_applyUpdates hst
      split at hr
      all_goals
        obtain rfl := Option.some.inj hr
        exact hdel

namespace ClientLib

namespace HeldLocks

variable {locks : HeldLocks} {p q : BlobLocation → Bool} {l : BlobLocation}

/-- The client knows that it has a lock on the location. -/
def Holds (locks : HeldLocks) (l : BlobLocation) : Prop := l ∈ locks.read.keys ∨ l ∈ locks.write.keys

/-- The locks on some of the locations. -/
def filter (p : BlobLocation → Bool) (locks : HeldLocks) : HeldLocks :=
  ⟨locks.read.filterKeys p, locks.write.filterKeys p⟩

theorem filter_filter : (locks.filter q).filter p = locks.filter fun l => p l && q l := by
  simp only [filter, FlatMap.filterKeys, List.filter_filter]

theorem filter_eq_filter_iff : locks.filter p = locks.filter q ↔ ∀ l, locks.Holds l → p l = q l := by
  have hkeys : ∀ m : FlatSet BlobLocation,
      m.filterKeys p = m.filterKeys q ↔ ∀ l ∈ m.keys, p l = q l := fun m => by
    rw [FlatMap.filterKeys, FlatMap.filterKeys, FlatMap.mk.injEq, FlatMap.keys, List.forall_mem_map]
    refine ⟨fun h e he => Bool.eq_iff_iff.mpr ?_, List.filter_congr⟩
    have hmem : e ∈ m.entries.filter (fun e => p e.1) ↔ e ∈ m.entries.filter fun e => q e.1 := by
      rw [h]
    simpa only [List.mem_filter, he, true_and] using hmem
  rw [filter, filter, HeldLocks.mk.injEq, hkeys, hkeys]
  constructor
  · rintro ⟨hread, hwrite⟩ l (hl | hl)
    · exact hread l hl
    · exact hwrite l hl
  · exact fun h => ⟨fun l hl => h l (Or.inl hl), fun l hl => h l (Or.inr hl)⟩

/-- What is left when several ranges are released. -/
theorem foldl_releaseLockRange {ι : Type} (first last : ι → BlobLocation) (xs : List ι) :
    xs.foldl (fun locks x => locks.releaseLockRange (first x) (last x)) locks =
      locks.filter fun l => xs.all fun x => !(decide (first x ≤ l) && decide (l ≤ last x)) := by
  induction xs generalizing locks with
  | nil => simp [filter, FlatMap.filterKeys]
  | cons x xs ih =>
    rw [List.foldl_cons, ih]
    change (locks.filter _).filter _ = _
    rw [filter_filter]
    simp only [List.all_cons, Bool.and_comm]

end HeldLocks

namespace DatabaseState

variable {state : DatabaseState} {l : BlobLocation}

/-- The transaction deleted the location: the blob, or the cluster or segment it is in. -/
def Deletes (state : DatabaseState) (l : BlobLocation) : Prop :=
  l.segment ∈ state.deletedSegments.keys ∨
    toLex (l.segment, l.cluster) ∈ state.deletedClusters.keys ∨ l ∈ state.deletedBlobs.keys

/-- What the transaction deleted are segments, clusters and blobs, and it wrote to blobs or to the
locations of the next free ids. The ids above the maximal ones name no segments, clusters or
blobs. -/
structure ValidIds (state : DatabaseState) : Prop where
  segments : ∀ s ∈ state.deletedSegments.keys, s ≤ maxSegmentId
  clusters : ∀ k ∈ state.deletedClusters.keys, k.1 ≤ maxSegmentId ∧ k.2 ≤ maxClusterId
  blobs : ∀ l ∈ state.deletedBlobs.keys,
    l.segment ≤ maxSegmentId ∧ l.cluster ≤ maxClusterId ∧ l.blob ≤ maxBlobId
  written : ∀ l ∈ state.writtenBlobs.keys,
    l.cluster ≤ nextFreeClusterId ∧ l.blob ≤ nextFreeBlobId

/-- The entry of a written blob deletes nothing. -/
theorem not_deletes_written (hids : state.ValidIds) {e : BlobLocation × List UInt8}
    (he : e ∈ state.writtenBlobs.entries) : ¬(⟨e.1, some e.2⟩ : BlobData).Deletes l := by
  obtain ⟨hc, hb⟩ := hids.written e.1 (List.mem_map_of_mem he)
  have hcluster : e.1.cluster ≠ segmentDeleteId := fun h => absurd (h ▸ hc) (by decide)
  have hblob : e.1.blob ≠ clusterDeleteId := fun h => absurd (h ▸ hb) (by decide)
  simp [BlobData.Deletes, BlobData.DeletesCluster, BlobData.DeletesSegment, BlobData.DeletesBlob,
    hcluster, hblob]

theorem deletes_blob_iff {b : BlobLocation} (hs : b.segment ≤ maxSegmentId)
    (hc : b.cluster ≤ maxClusterId) (hb : b.blob ≤ maxBlobId) :
    (⟨b, none⟩ : BlobData).Deletes l ↔ l = b := by
  have h1 : b.segment ≠ nextFreeSegmentId := fun h => absurd (h ▸ hs) (by decide)
  have h2 : b.cluster ≠ segmentDeleteId := fun h => absurd (h ▸ hc) (by decide)
  have h3 : b.cluster ≠ nextFreeClusterId := fun h => absurd (h ▸ hc) (by decide)
  have h4 : b.blob ≠ clusterDeleteId := fun h => absurd (h ▸ hb) (by decide)
  have h5 : b.blob ≠ nextFreeBlobId := fun h => absurd (h ▸ hb) (by decide)
  simp [BlobData.Deletes, BlobData.DeletesCluster, BlobData.DeletesSegment, BlobData.DeletesBlob,
    BlobData.CopiesCluster, BlobData.CopiesSegment, h1, h2, h3, h4, h5, eq_comm]

theorem deletes_cluster_iff {s : SegmentId} {c : ClusterId} (hs : s ≤ maxSegmentId)
    (hc : c ≤ maxClusterId) : (⟨⟨s, c, clusterDeleteId⟩, some []⟩ : BlobData).Deletes l ↔
      (l.segment, l.cluster) = (s, c) := by
  have h1 : s ≠ nextFreeSegmentId := fun h => absurd (h ▸ hs) (by decide)
  have h2 : c ≠ segmentDeleteId := fun h => absurd (h ▸ hc) (by decide)
  have h3 : c ≠ nextFreeClusterId := fun h => absurd (h ▸ hc) (by decide)
  simp [BlobData.Deletes, BlobData.DeletesCluster, BlobData.DeletesSegment, BlobData.DeletesBlob,
    BlobData.CopiesSegment, h1, h2, h3, eq_comm]

theorem deletes_segment_iff {s : SegmentId} (hs : s ≤ maxSegmentId) :
    (⟨⟨s, segmentDeleteId, clusterDeleteId⟩, some []⟩ : BlobData).Deletes l ↔ l.segment = s := by
  have h1 : s ≠ nextFreeSegmentId := fun h => absurd (h ▸ hs) (by decide)
  simp [BlobData.Deletes, BlobData.DeletesCluster, BlobData.DeletesSegment, BlobData.DeletesBlob,
    BlobData.CopiesSegment, h1, eq_comm]

/-- The entries of the messages delete what the transaction deleted. -/
theorem exists_deletes_iff (hids : state.ValidIds) :
    (∃ u ∈ state.getSortedWritesToTransmit, u.Deletes l) ↔ state.Deletes l := by
  simp only [getSortedWritesToTransmit, List.mem_append, List.mem_insertionSort, List.mem_map]
  constructor
  · rintro ⟨u, ((⟨e, he, rfl⟩ | ⟨b, hb, rfl⟩) | ⟨k, hk, rfl⟩) | ⟨s, hs, rfl⟩, hu⟩
    · exact absurd hu (not_deletes_written hids he)
    · obtain ⟨h1, h2, h3⟩ := hids.blobs b hb
      exact Or.inr (Or.inr ((deletes_blob_iff h1 h2 h3).mp hu ▸ hb))
    · obtain ⟨h1, h2⟩ := hids.clusters k hk
      exact Or.inr (Or.inl ((deletes_cluster_iff h1 h2).mp hu ▸ hk))
    · exact Or.inl ((deletes_segment_iff (hids.segments s hs)).mp hu ▸ hs)
  · rintro (hs | hk | hb)
    · exact ⟨_, Or.inr ⟨_, hs, rfl⟩, (deletes_segment_iff (hids.segments _ hs)).mpr rfl⟩
    · obtain ⟨h1, h2⟩ := hids.clusters _ hk
      exact ⟨_, Or.inl (Or.inr ⟨_, hk, rfl⟩), (deletes_cluster_iff h1 h2).mpr rfl⟩
    · obtain ⟨h1, h2, h3⟩ := hids.blobs l hb
      exact ⟨_, Or.inl (Or.inl (Or.inr ⟨l, hb, rfl⟩)), (deletes_blob_iff h1 h2 h3).mpr rfl⟩

/-! ### The ranges the client releases -/

theorem segment_range_iff {s : SegmentId} :
    (⟨s, 0, 0⟩ : BlobLocation) ≤ l ∧ l ≤ ⟨s, 0xffffffff, 0xffffffff⟩ ↔ l.segment = s := by
  have h1 := l.cluster.toNat_lt
  have h2 := l.blob.toNat_lt
  simp only [BlobLocation.le_iff_position, BlobLocation.position, ← UInt32.toNat_inj,
    UInt32.toNat_zero, show (0xffffffff : UInt32).toNat = 4294967295 by decide]
  omega

theorem cluster_range_iff {s : SegmentId} {c : ClusterId} :
    (⟨s, c, 0⟩ : BlobLocation) ≤ l ∧ l ≤ ⟨s, c, 0xffffffff⟩ ↔ (l.segment, l.cluster) = (s, c) := by
  have h1 := l.cluster.toNat_lt
  have h2 := l.blob.toNat_lt
  have h3 := c.toNat_lt
  simp only [BlobLocation.le_iff_position, BlobLocation.position, Prod.mk.injEq, ← UInt32.toNat_inj,
    UInt32.toNat_zero, show (0xffffffff : UInt32).toNat = 4294967295 by decide]
  omega

/-- The range of a deleted blob contains the next location. -/
theorem blob_range_iff {b : BlobLocation} (hb : b.blob ≤ maxBlobId) :
    b ≤ l ∧ l ≤ b.next ↔ l = b ∨ l = b.next := by
  rw [BlobLocation.le_iff_position, BlobLocation.le_iff_position, ← BlobLocation.position_inj,
    ← BlobLocation.position_inj]
  simp only [BlobLocation.next, BlobLocation.position, toNat_add_one hb]
  omega

/-- What the client releases: the locks on what was deleted, and those right behind a deleted
blob. -/
theorem releaseDeletedBlobLocks_eq (hids : state.ValidIds) :
    ∃ released : BlobLocation → Bool,
      state.releaseDeletedBlobLocks = state.heldLocks.filter (fun l => !released l) ∧
      ∀ l, released l = true ↔ state.Deletes l ∨ ∃ b ∈ state.deletedBlobs.keys, l = b.next := by
  refine ⟨fun l =>
    (state.deletedBlobs.keys.any fun b => decide (b ≤ l) && decide (l ≤ b.next)) ||
    ((state.deletedClusters.keys.any fun k => decide (⟨k.1, k.2, 0⟩ ≤ l) &&
      decide (l ≤ ⟨k.1, k.2, 0xffffffff⟩)) ||
    state.deletedSegments.keys.any fun s => decide (⟨s, 0, 0⟩ ≤ l) &&
      decide (l ≤ ⟨s, 0xffffffff, 0xffffffff⟩)), ?_, fun l => ?_⟩
  · unfold releaseDeletedBlobLocks
    dsimp only
    rw [HeldLocks.foldl_releaseLockRange, HeldLocks.foldl_releaseLockRange,
      HeldLocks.foldl_releaseLockRange, HeldLocks.filter_filter, HeldLocks.filter_filter]
    simp only [Bool.not_or, List.not_any_eq_all_not, Bool.and_assoc]
    rfl
  · simp only [Bool.or_eq_true, List.any_eq_true, Bool.and_eq_true, decide_eq_true_eq,
      segment_range_iff, cluster_range_iff]
    constructor
    · rintro (⟨b, hb, hrange⟩ | ⟨k, hk, heq⟩ | ⟨s, hs, rfl⟩)
      · rcases (blob_range_iff (hids.blobs b hb).2.2).mp hrange with rfl | hnext
        · exact Or.inl (Or.inr (Or.inr hb))
        · exact Or.inr ⟨b, hb, hnext⟩
      · exact Or.inl (Or.inr (Or.inl (heq ▸ hk)))
      · exact Or.inl (Or.inl hs)
    · rintro ((hs | hk | hb) | ⟨b, hb, rfl⟩)
      · exact Or.inr (Or.inr ⟨_, hs, rfl⟩)
      · exact Or.inr (Or.inl ⟨_, hk, rfl⟩)
      · exact Or.inl ⟨l, hb, (blob_range_iff (hids.blobs l hb).2.2).mpr (Or.inl rfl)⟩
      · exact Or.inl ⟨b, hb, (blob_range_iff (hids.blobs b hb).2.2).mpr (Or.inr rfl)⟩

/-- The locks on what a commit deleted: the client releases exactly those the server gives up if
and only if every lock it has right behind a deleted blob is on something deleted as well. -/
theorem releaseDeletedBlobLocks_eq_iff {databaseId : DatabaseId} {db db' : BlobsDb.Database}
    {σ : Schedule} {deleted : Deleted} (hids : state.ValidIds)
    (hcommit : db.commit
      ((state.constructCommitMessages databaseId).flatMap TransactionCommit.blobs) σ =
        some (db', deleted)) :
    state.releaseDeletedBlobLocks = state.heldLocks.filter (fun l => !deleted.isDeleted l) ↔
      ∀ b ∈ state.deletedBlobs.keys, state.heldLocks.Holds b.next → state.Deletes b.next := by
  have hsent : (state.constructCommitMessages databaseId).flatMap TransactionCommit.blobs =
      state.getSortedWritesToTransmit := by
    rw [constructCommitMessages, List.flatMap_map]
    change (splitWrites [] _).flatMap (fun us => us) = _
    rw [List.flatMap_id', flatten_splitWrites, List.nil_append]
  have hdeleted : ∀ l, deleted.isDeleted l = true ↔ state.Deletes l := fun l => by
    rw [Database.commit_deleted hcommit, hsent, BlobData.isDeleted_foldl_noted, exists_deletes_iff hids,
      or_iff_right]
    simp [Deleted.isDeleted, Deleted.empty]
  obtain ⟨released, heq, hreleased⟩ := releaseDeletedBlobLocks_eq hids
  rw [heq, HeldLocks.filter_eq_filter_iff]
  constructor
  · intro h b hb hheld
    rw [← hdeleted, ← Bool.not_inj (h b.next hheld), hreleased]
    exact Or.inr ⟨b, hb, rfl⟩
  · intro h l hheld
    refine congrArg not (Bool.eq_iff_iff.mpr ?_)
    rw [hreleased, hdeleted, or_iff_left_iff_imp]
    rintro ⟨b, hb, rfl⟩
    exact h b hb hheld

/-! ### A lock that is forgotten -/

/-- A transaction that created a blob and deleted the one before it. -/
def createdAndDeleted : DatabaseState :=
  { DatabaseState.create none with
    heldLocks := ⟨.empty, .ofList [(⟨0, 0, 0⟩, ()), (⟨0, 0, 1⟩, ()), (⟨0, 0, nextFreeBlobId⟩, ()),
      (⟨0, 0, blobListId⟩, ())]⟩
    writtenBlobs := .ofList [(⟨0, 0, 1⟩, [7]), (⟨0, 0, nextFreeBlobId⟩, [2, 0, 0, 0])]
    createdBlobs := .ofList [(⟨0, 0, 1⟩, ())]
    deletedBlobs := .ofList [(⟨0, 0, 0⟩, ())] }

/-- The schedule of a database in memory. -/
def inMemory : Schedule := ⟨[], [], .insertion, []⟩

/-- The server before that commit, with the locks for the next free id and the deleted blob. -/
def beforeCreatedAndDeleted : Option Server :=
  Server.run [.connectionOpened 1, .databaseOpen 1 (.mem 0) .createIfNotExist false,
    .transactionBegin 1 0 [], .blobsRead ⟨1, 0, .write, -1, [⟨⟨0, 0, nextFreeBlobId⟩, 0⟩]⟩,
    .blobsRead ⟨1, 0, .delete, -1, [⟨⟨0, 0, 0⟩, 0⟩]⟩] (.start (fun _ => none) 0)

theorem validIds_createdAndDeleted : createdAndDeleted.ValidIds := by
  have hblobs : (createdAndDeleted.deletedBlobs.keys.all fun l => decide (l.segment ≤ maxSegmentId ∧
      l.cluster ≤ maxClusterId ∧ l.blob ≤ maxBlobId)) = true := by decide
  have hwritten : (createdAndDeleted.writtenBlobs.keys.all fun l => decide
      (l.cluster ≤ nextFreeClusterId ∧ l.blob ≤ nextFreeBlobId)) = true := by decide
  simp only [List.all_eq_true, decide_eq_true_iff] at hblobs hwritten
  exact ⟨fun _ hs => (nomatch hs), fun _ hk => (nomatch hk), hblobs, hwritten⟩

/-- The commit is successful, the server keeps the lock on the new blob, and the client does not
know it any more. -/
theorem releaseDeletedBlobLocks_forgets : ∃ s s' od od' m r,
    beforeCreatedAndDeleted = some s ∧ createdAndDeleted.constructCommitMessages 0 = [m] ∧
      s.handleTransactionCommit 1 m (fun _ => inMemory) = some s' ∧
      s'.sentTo 1 = s.sentTo 1 ++ [.transactionCommit .success [(0, 2)]] ∧
      s.databases (.mem 0) = some od ∧ od.database.commit m.blobs inMemory = some r ∧
      s'.databases (.mem 0) = some od' ∧ ⟨0, 0, 1⟩ ∈ od'.locks.held 1 ∧
      createdAndDeleted.heldLocks.Holds ⟨0, 0, 1⟩ ∧
      ¬createdAndDeleted.releaseDeletedBlobLocks.Holds ⟨0, 0, 1⟩ ∧
      createdAndDeleted.releaseDeletedBlobLocks ≠
        createdAndDeleted.heldLocks.filter fun l => !r.2.isDeleted l := by
  have hrun : (beforeCreatedAndDeleted.bind fun s =>
      (createdAndDeleted.constructCommitMessages 0).head?.bind fun m =>
        (s.handleTransactionCommit 1 m fun _ => inMemory).bind fun s' =>
          (s.databases (.mem 0)).bind fun od => (od.database.commit m.blobs inMemory).bind fun r =>
            (s'.databases (.mem 0)).map fun od' => decide (
              createdAndDeleted.constructCommitMessages 0 = [m] ∧
              s'.sentTo 1 = s.sentTo 1 ++ [.transactionCommit .success [(0, 2)]] ∧
              ⟨0, 0, 1⟩ ∈ od'.locks.held 1 ∧
              createdAndDeleted.releaseDeletedBlobLocks ≠
                createdAndDeleted.heldLocks.filter fun l => !r.2.isDeleted l)) = some true := by
    decide +kernel
  obtain ⟨s, hs, hrun⟩ := Option.bind_eq_some_iff.mp hrun
  obtain ⟨m, -, hrun⟩ := Option.bind_eq_some_iff.mp hrun
  obtain ⟨s', hs', hrun⟩ := Option.bind_eq_some_iff.mp hrun
  obtain ⟨od, hod, hrun⟩ := Option.bind_eq_some_iff.mp hrun
  obtain ⟨r, hr, hrun⟩ := Option.bind_eq_some_iff.mp hrun
  obtain ⟨od', hod', hrun⟩ := Option.map_eq_some_iff.mp hrun
  obtain ⟨hm, hsent, hkept, hne⟩ := of_decide_eq_true hrun
  refine ⟨s, s', od, od', m, r, hs, hm, hs', hsent, hod, hr, hod', hkept, ?_, ?_, hne⟩
  · exact Or.inr (by decide)
  · rintro (h | h)
    · exact absurd h (by decide +kernel)
    · exact absurd h (by decide +kernel)

/-- For this transaction the client and the server do not agree. -/
theorem releaseDeletedBlobLocks_eq_iff_createdAndDeleted : ∃ s od m db' deleted,
    beforeCreatedAndDeleted = some s ∧ s.databases (.mem 0) = some od ∧
      createdAndDeleted.constructCommitMessages 0 = [m] ∧
      od.database.commit m.blobs inMemory = some (db', deleted) ∧
      (createdAndDeleted.releaseDeletedBlobLocks =
          createdAndDeleted.heldLocks.filter (fun l => !deleted.isDeleted l) ↔
        ∀ b ∈ createdAndDeleted.deletedBlobs.keys, createdAndDeleted.heldLocks.Holds b.next →
          createdAndDeleted.Deletes b.next) := by
  have hrun : (beforeCreatedAndDeleted.bind fun s =>
      (createdAndDeleted.constructCommitMessages 0).head?.bind fun m =>
          (s.databases (.mem 0)).bind fun od => (od.database.commit m.blobs inMemory).map fun _ =>
            decide (createdAndDeleted.constructCommitMessages 0 = [m])) = some true := by
    decide +kernel
  obtain ⟨s, hs, hrun⟩ := Option.bind_eq_some_iff.mp hrun
  obtain ⟨m, -, hrun⟩ := Option.bind_eq_some_iff.mp hrun
  obtain ⟨od, hod, hrun⟩ := Option.bind_eq_some_iff.mp hrun
  obtain ⟨⟨db', deleted⟩, hr, hrun⟩ := Option.map_eq_some_iff.mp hrun
  have hm : createdAndDeleted.constructCommitMessages 0 = [m] := of_decide_eq_true hrun
  have hcommit : od.database.commit ((createdAndDeleted.constructCommitMessages 0).flatMap
      TransactionCommit.blobs) inMemory = some (db', deleted) := by
    rw [hm, List.flatMap_singleton]
    exact hr
  exact ⟨s, od, m, db', deleted, hs, hod, hm, hr,
    releaseDeletedBlobLocks_eq_iff validIds_createdAndDeleted hcommit⟩

end DatabaseState

end ClientLib

end BlobsDb
