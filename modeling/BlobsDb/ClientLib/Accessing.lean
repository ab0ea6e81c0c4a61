import BlobsDb.ClientLib.Tracking

/-!
# What operations read and write

`DatabaseTransaction.Sees` says that what a client has of a database in its transaction makes the
database look like `v` to it. It depends on the server, which has to answer requests with what is
found (`Answers`). Reads return what is seen (`ensures_readBlobInternal`), and no operation changes
what is seen before it has the locks for it.
-/

namespace BlobsDb

namespace ClientLib

open DbTree (HasLocation)
open Access (idOf acquiredLock)

variable {μ : Type} {t : DbTree μ 3} {version : BlobLocation → CommitId} {server : Replies}
  {db db' db'' : DatabaseTransaction} {v v' : View} {l l' : BlobLocation} {ls : List BlobLocation}
  {lock : LockMode} {s : SegmentId} {c : ClusterId} {data : List UInt8}
  {missed : BlobLocation → Prop}

/-- The server grants locks on what is in its database, and answers with what is found there. The
transaction goes on. -/
structure Answers (t : DbTree μ 3) (version : BlobLocation → CommitId) (server : Replies) : Prop where
  granted : ∀ lock ls found, lock ≠ .none → server lock ls = .ok found → ∀ l ∈ ls, t.HasLocation l
  content : ∀ lock ls found, lock = .read ∨ lock = .write → server lock ls = .ok found →
    ∀ l ∈ ls, t.content l = some (found l).content ∧ (found l).commitId = version l
  goesOn : ∀ lock ls, server lock ls ≠ .error .deadlock

namespace DatabaseTransaction

/-- The client sees the database `v` in its transaction, and found the one of the tree. -/
structure Sees (missed : BlobLocation → Prop) (t : DbTree μ 3) (version : BlobLocation → CommitId)
    (v : View) (db : DatabaseTransaction) : Prop where
  tracks : db.state.Tracks missed (View.of t) v
  written : ∀ l, (db.state.writtenBlobs.find l).isSome → db.lockType l = .write
  locked : ∀ l, db.lockType l = .write → db.state.isBlobDeleted l = false → v.Has l
  current : ∀ l c, db.currentCopy l = some c → t.content l = some c.data
  sameVersion : ∀ l c, db.cache.find l = some c → c.lastUpdated = version l → t.HasLocation l →
    t.content l = some c.data

/-- Only locks and copies were added. -/
structure Continues (missed : BlobLocation → Prop) (t : DbTree μ 3)
    (version : BlobLocation → CommitId) (v : View) (db db' : DatabaseTransaction) : Prop where
  frame : db' = { db with
    cache := db'.cache, state := { db.state with heldLocks := db'.state.heldLocks } }
  sees : Sees missed t version v db'
  locked : ∀ l, db.lockType l = .write → db'.lockType l = .write

/-- Something is noted in the state. -/
def noted (change : DatabaseState → DatabaseState) (db : DatabaseTransaction) :
    DatabaseTransaction := { db with state := change db.state }

theorem lockType_eq_write_iff : db.lockType l = .write ↔ 2 ≤ (db.lockType l).value := by
  unfold lockType HeldLocks.getLockType
  split_ifs <;> simp [LockMode.value]

theorem lockType_acquired (db : DatabaseTransaction) (l l' : BlobLocation) :
    (db.acquired .write l).lockType l' = .write ↔ l' = l ∨ db.lockType l' = .write := by
  rw [lockType_eq_write_iff, value_lockType_acquired (Or.inr rfl), lockType_eq_write_iff]
  by_cases hl : l' = l <;> simp [hl, LockMode.value]

namespace Sees

theorem refl (h : Sees missed t version v db) : Continues missed t version v db db :=
  ⟨rfl, h, fun _ => id⟩

/-- A write lock is acquired on what is there. -/
theorem acquired (h : Sees missed t version v db) (hl : db.state.isBlobDeleted l = false → v.Has l) :
    Continues missed t version v db (db.acquired .write l) where
  frame := rfl
  sees := {
    tracks := h.tracks.heldLocks _
    written := fun l' hl' => (lockType_acquired db l l').mpr (Or.inr (h.written l' hl'))
    locked := fun l' hlock hlive => by
      rcases (lockType_acquired db l l').mp hlock with rfl | hlock
      · exact hl hlive
      · exact h.locked l' hlock hlive
    current := h.current
    sameVersion := h.sameVersion }
  locked := fun l' hlock => (lockType_acquired db l l').mpr (Or.inr hlock)

/-- Something is noted that makes the client see another database. -/
theorem change (h : Sees missed t version v db) (htracks : db'.state.Tracks missed (View.of t) v')
    (hid : db'.transactionId = db.transactionId)
    (hcache : ∀ l c, db'.cache.find l = some c → db.cache.find l = some c)
    (hwritten : ∀ l, (db'.state.writtenBlobs.find l).isSome → db'.lockType l = .write)
    (hlocked : ∀ l, db'.lockType l = .write → db'.state.isBlobDeleted l = false → v'.Has l) :
    Sees missed t version v' db' where
  tracks := htracks
  written := hwritten
  locked := hlocked
  current := fun l c hc => by
    obtain ⟨hc, hcurrent⟩ := currentCopy_eq_some.mp hc
    exact h.current l c (currentCopy_eq_some.mpr ⟨hcache l c hc, hcurrent.trans hid⟩)
  sameVersion := fun l c hc => h.sameVersion l c (hcache l c hc)

end Sees

namespace Continues

/-- One access goes on from another. -/
theorem trans (h : Continues missed t version v db db') (h' : Continues missed t version v db' db'') :
    Continues missed t version v db db'' := by
  refine ⟨?_, h'.sees, fun l hl => h'.locked l (h.locked l hl)⟩
  rw [h'.frame, h.frame]

theorem isMVCC (h : Continues missed t version v db db') : db'.isMVCC = db.isMVCC := by rw [h.frame]

theorem isBlobDeleted (h : Continues missed t version v db db') :
    db'.state.isBlobDeleted = db.state.isBlobDeleted := by
  rw [h.frame]
  rfl

theorem deletedBlobs (h : Continues missed t version v db db') :
    db'.state.deletedBlobs = db.state.deletedBlobs := by rw [h.frame]

end Continues

end DatabaseTransaction

/-- What is read at a location that is not deleted: what the transaction wrote, or what it found. -/
def DatabaseState.Reads (state : DatabaseState) (t : DbTree μ 3) (l : BlobLocation)
    (data : List UInt8) : Prop :=
  state.writtenBlobs.find l = some data ∨ state.writtenBlobs.find l = none ∧ t.content l = some data

/-! ### What is seen -/

namespace DatabaseState.Tracks

variable {state : DatabaseState}

/-- What is read at a blob is what the view shows there. -/
theorem blob_of_reads (h : state.Tracks missed (View.of t) v) (hb : l.blob ≤ maxBlobId)
    (hlive : state.isBlobDeleted l = false) (hr : state.Reads t l data) : v.blob l = some data := by
  rw [← h.view, show (state.view (View.of t)).blob l = _ from if_pos ⟨hb, hlive⟩]
  rcases hr with hdata | ⟨hnone, hdata⟩
  · rw [hdata]
    rfl
  · have hlist : l.blob ≠ blobListId := fun heq => absurd (heq ▸ hb) (by decide)
    have hnext : l.blob ≠ nextFreeBlobId := fun heq => absurd (heq ▸ hb) (by decide)
    rw [DbTree.content_of_ne hlist hnext] at hdata
    rw [hnone]
    exact hdata

/-- What is read at the next free blob id is what the view shows of the cluster. -/
theorem cluster_of_reads (h : state.Tracks missed (View.of t) v) (hc : c ≤ maxClusterId)
    (hlive : state.isBlobDeleted ⟨s, c, nextFreeBlobId⟩ = false)
    (hr : state.Reads t ⟨s, c, nextFreeBlobId⟩ data) : v.cluster s c = some (idOf data) := by
  rw [← h.view, show (state.view (View.of t)).cluster s c = _ from
    if_pos ⟨hc, (isBlobDeleted_eq_false_iff.mp hlive).1⟩]
  rcases hr with hdata | ⟨hnone, hdata⟩
  · rw [hdata]
    rfl
  · rw [DbTree.content_nextFreeBlobId hc] at hdata
    obtain ⟨C, hC, rfl⟩ := Option.map_eq_some_iff.mp hdata
    rw [hnone, show (View.of t).cluster s c = (t.getCluster s c).map fun x => x.info from rfl, hC]
    exact congrArg some (idOf_idData C.info).symm

/-- What is read at the next free cluster id is what the view shows of the segment. -/
theorem segment_of_reads (h : state.Tracks missed (View.of t) v) (hs : s ≤ maxSegmentId)
    (hlive : state.isBlobDeleted ⟨s, nextFreeClusterId, nextFreeBlobId⟩ = false)
    (hr : state.Reads t ⟨s, nextFreeClusterId, nextFreeBlobId⟩ data) :
    v.segment s = some (idOf data) := by
  have hsegment : state.isSegmentDeleted s = false :=
    (isClusterDeleted_eq_false_iff.mp (isBlobDeleted_eq_false_iff.mp hlive).1).1
  rw [← h.view, show (state.view (View.of t)).segment s = _ from if_pos ⟨hs, hsegment⟩]
  rcases hr with hdata | ⟨hnone, hdata⟩
  · rw [hdata]
    rfl
  · rw [DbTree.content_nextFreeClusterId hs] at hdata
    obtain ⟨S, hS, rfl⟩ := Option.map_eq_some_iff.mp hdata
    rw [hnone, show (View.of t).segment s = (t.getSegment s).map fun x => x.info from rfl, hS]
    exact congrArg some (idOf_idData S.info).symm

/-- What is read at the next free segment id is what the view shows. -/
theorem nextSegment_of_reads (h : state.Tracks missed (View.of t) v)
    (hr : state.Reads t DatabaseState.nextSegmentLocation data) : v.nextSegment = idOf data := by
  rw [← h.view]
  change ((state.writtenBlobs.find DatabaseState.nextSegmentLocation).map idOf).getD t.info = _
  rcases hr with hdata | ⟨hnone, hdata⟩
  · rw [hdata]
    rfl
  · rw [DbTree.content_nextFreeSegmentId] at hdata
    obtain rfl := Option.some.inj hdata
    rw [hnone]
    exact (idOf_idData t.info).symm

/-- Lists are not written. -/
theorem content_of_reads (h : state.Tracks missed (View.of t) v) (hl : l.blob = blobListId)
    (hr : state.Reads t l data) : t.content l = some data := by
  rcases hr with hdata | ⟨-, hdata⟩
  · have hle := h.stored l (by rw [hdata]; rfl)
    rw [hl] at hle
    exact absurd hle (by decide)
  · exact hdata

end DatabaseState.Tracks

namespace Access

open DatabaseTransaction (Sees Continues)
open EStateM (Ensures ensures_bind ensures_get ensures_pure ensures_throw ensures_modify)

/-! ### Checks -/

/-- The check passes for the segments that are not deleted. -/
theorem ensures_ensureSegmentNotDeleted : (ensureSegmentNotDeleted s).Ensures db
    (fun _ db' => db' = db ∧ db.state.isSegmentDeleted s = false)
    fun _ db' => db' = db ∧ db.state.isSegmentDeleted s = true := by
  rw [ensureSegmentNotDeleted, ensures_bind, ensures_get]
  split_ifs with h
  · exact ⟨rfl, h⟩
  · exact ⟨rfl, Bool.eq_false_iff.mpr h⟩

/-- The check passes for the clusters that are not deleted. -/
theorem ensures_ensureClusterNotDeleted : (ensureClusterNotDeleted s c).Ensures db
    (fun _ db' => db' = db ∧ db.state.isClusterDeleted s c = false)
    fun _ db' => db' = db ∧ db.state.isClusterDeleted s c = true := by
  rw [DatabaseState.isClusterDeleted]
  rw [ensureClusterNotDeleted, ensures_bind]
  refine ensures_ensureSegmentNotDeleted.mono (fun _ db' hdb' => ?_) fun _ db' hdb' => ?_
  · obtain ⟨rfl, hs⟩ := hdb'
    rw [ensures_bind, ensures_get, hs, Bool.false_or]
    split_ifs with h
    · exact ⟨rfl, h⟩
    · exact ⟨rfl, Bool.eq_false_iff.mpr h⟩
  · exact ⟨hdb'.1, by rw [hdb'.2]; rfl⟩

/-- The check passes for the blobs that are not deleted. -/
theorem ensures_ensureBlobNotDeleted : (ensureBlobNotDeleted l).Ensures db
    (fun _ db' => db' = db ∧ db.state.isBlobDeleted l = false)
    fun _ db' => db' = db ∧ db.state.isBlobDeleted l = true := by
  rw [DatabaseState.isBlobDeleted]
  rw [ensureBlobNotDeleted, ensures_bind]
  refine ensures_ensureClusterNotDeleted.mono (fun _ db' hdb' => ?_) fun _ db' hdb' => ?_
  · obtain ⟨rfl, hc⟩ := hdb'
    rw [ensures_bind, ensures_get, hc, Bool.false_or]
    split_ifs with h
    · exact ⟨rfl, h⟩
    · exact ⟨rfl, Bool.eq_false_iff.mpr h⟩
  · exact ⟨hdb'.1, by rw [hdb'.2]; rfl⟩

/-- The check passes for ids in range. -/
theorem ensures_checkIds (ids : List (UInt32 × UInt32 × String)) : (checkIds ids).Ensures db
    (fun _ db' => db' = db ∧ ∀ p ∈ ids, p.1 ≤ p.2.1)
    fun _ db' => db' = db ∧ ∃ p ∈ ids, p.2.1 < p.1 := by
  refine Ensures.forM rfl fun p hp db' hdb' => ?_
  split_ifs with h
  · exact ⟨hdb', p, hp, h⟩
  · exact ⟨hdb', not_lt.mp h⟩

/-! ### Without the server -/

/-- Dirty reads change nothing. -/
theorem ensures_readBlobInternal_none : (readBlobInternal server l .none).Ensures db
    (fun _ db' => db' = db) fun _ db' => db' = db := by
  rw [readBlobInternal, if_pos rfl, dirtyReadBlobInternal]
  split <;> exact rfl

/-- What was written is not requested. -/
theorem ensures_readBlobInternal_of_written (hmvcc : db.isMVCC = false)
    (hlive : db.state.isBlobDeleted l = false) (hdata : db.state.writtenBlobs.find l = some data) :
    (readBlobInternal server l .write).Ensures db (fun d db' => d = data ∧ db' = db)
      fun _ _ => False := by
  rw [readBlobInternal, if_neg (by decide), ensures_bind, ensures_get, hmvcc, Bool.and_false,
    if_neg (by decide), ensures_bind]
  refine ensures_ensureBlobNotDeleted.mono (fun _ db' hdb' => ?_) fun _ db' hdb' => ?_
  · obtain ⟨rfl, -⟩ := hdb'
    split
    · next data' hdata' =>
      exact ⟨Option.some.inj (hdata'.symm.trans hdata), rfl⟩
    · next hnone =>
      rw [hdata] at hnone
      cases hnone
  · rw [hlive] at hdb'
    cases hdb'.2

/-- With the lock nothing is requested. -/
theorem ensures_writeBlobInternal_of_locked (hlock : db.lockType l = .write)
    (hlive : db.state.isBlobDeleted l = false) :
    (writeBlobInternal server l data).Ensures db
      (fun _ db' => db' = db.noted fun state => state.writeBlob l data) fun _ _ => False := by
  rw [writeBlobInternal, ensures_bind]
  refine ensures_ensureBlobNotDeleted.mono (fun _ db' hdb' => ?_) fun _ db' hdb' => ?_
  · obtain ⟨rfl, -⟩ := hdb'
    rw [ensures_bind, ensures_get, if_neg (not_not.mpr hlock)]
    exact rfl
  · rw [hlive] at hdb'
    cases hdb'.2

/-! ### Locks -/

/-- Locks that were granted are noted one after another. -/
theorem ensures_acquiredLocks (h : Sees missed t version v db) (hls : ∀ l ∈ ls, t.HasLocation l) :
    Ensures (ls.forM fun l => acquiredLock l .write) db
      (fun _ db' => Continues missed t version v db db' ∧ ∀ l ∈ ls, db'.lockType l = .write)
      fun _ _ => False := by
  induction ls generalizing db with
  | nil => exact ⟨h.refl, fun _ hl => absurd hl List.not_mem_nil⟩
  | cons l ls ih =>
    obtain ⟨hl, hls⟩ := List.forall_mem_cons.mp hls
    have hcontinues := h.acquired (l := l) fun hlive =>
      h.tracks.has_of_found (View.has_of hl) hlive
    change Ensures (acquiredLock l .write >>= fun _ => ls.forM _) db _ _
    rw [ensures_bind, acquiredLock, ensures_modify]
    refine (ih hcontinues.sees hls).mono (fun _ db' hdb' => ?_) fun _ _ => id
    refine ⟨hcontinues.trans hdb'.1, List.forall_mem_cons.mpr ⟨hdb'.1.locked l ?_, hdb'.2⟩⟩
    exact (DatabaseTransaction.lockType_acquired db l l).mpr (Or.inl rfl)

section

variable (ha : Answers t version server)
include ha

/-- Write locks are granted for locations the database has, and change nothing that is seen. -/
theorem ensures_acquireWriteLocks (h : Sees missed t version v db) :
    (acquireWriteLocks server ls).Ensures db
      (fun _ db' => Continues missed t version v db db' ∧
        ∀ l ∈ ls, db'.lockType l = .write ∧ t.HasLocation l)
      fun _ db' => db' = db := by
  unfold acquireWriteLocks
  split
  · exact rfl
  · next found hfound =>
    have hgranted := ha.granted .delete ls found (by decide) hfound
    exact (ensures_acquiredLocks h hgranted).mono (fun _ _ hdb' =>
      ⟨hdb'.1, fun l hl => ⟨hdb'.2 l hl, hgranted l hl⟩⟩) fun _ _ => False.elim

/-- A write lock without content is granted for a location the database has, outside MVCC. -/
theorem ensures_writeLockNoContent (h : Sees missed t version v db) :
    (writeLockNoContent server l).Ensures db
      (fun _ db' => Continues missed t version v db db' ∧ db'.lockType l = .write ∧
        db.isMVCC = false ∧ t.HasLocation l)
      fun _ db' => db' = db := by
  rw [writeLockNoContent, ensures_bind, ensures_get]
  split_ifs with hmvcc
  · exact rfl
  · refine (ensures_acquireWriteLocks ha h).mono (fun _ _ hdb' => ?_) fun _ _ => id
    obtain ⟨hcontinues, hlocks⟩ := hdb'
    obtain ⟨hlock, hl⟩ := hlocks l (List.mem_singleton_self l)
    exact ⟨hcontinues, hlock, Bool.eq_false_iff.mpr hmvcc, hl⟩

/-! ### Reading -/

/-- What is requested is in the cache then, as it was found. -/
theorem ensures_requestBlobs (h : Sees missed t version v db) (hlock : lock = .read ∨ lock = .write) :
    (requestBlobs server lock ls).Ensures db
      (fun _ db' => Continues missed t version v db db' ∧
        (∀ l ∈ ls, t.content l = some (db'.cachedData l)) ∧
        (lock = .write → ∀ l ∈ ls, db'.lockType l = .write))
      fun _ db' => db' = db := by
  have hnone : lock ≠ .none := by rcases hlock with rfl | rfl <;> decide
  rw [requestBlobs, ensures_bind, ensures_get]
  split
  · exact rfl
  next found hfound =>
  split
  · exact rfl
  next db' hdb' =>
  have hgranted := ha.granted lock ls found hnone hfound
  have hcontent := ha.content lock ls found hlock hfound
  obtain ⟨hframe, hlocks, hcache, hsome⟩ := DatabaseTransaction.request_eq_some hlock hdb'
  -- a copy is from before, and has the version of what is found then, or it is what is found
  have hentered : ∀ l ∈ ls, ∀ c, db'.cache.find l = some c → t.content l = some c.data ∧
      c.lastUpdated = version l := fun l hl c hc => by
    obtain ⟨hdata, hversion⟩ := hcontent l hl
    rw [hcache, if_pos hl, DatabaseTransaction.entered] at hc
    split_ifs at hc with hcurrent
    · rw [hc, hversion] at hcurrent
      exact ⟨h.sameVersion l c hc hcurrent.symm (hgranted l hl), hcurrent.symm⟩
    · obtain rfl := Option.some.inj hc
      exact ⟨hdata, hversion⟩
  have hstate : db'.state = { db.state with heldLocks := db'.state.heldLocks } := by rw [hframe]
  have hlocked : ∀ l, db.lockType l = .write → db'.lockType l = .write := fun l hl => by
    rw [DatabaseTransaction.lockType_eq_write_iff] at hl ⊢
    rw [hlocks]
    split_ifs
    · exact hl.trans (le_max_left _ _)
    · exact hl
  refine ⟨⟨hframe, ?_, hlocked⟩, fun l hl => ?_, fun hwrite l hl => ?_⟩
  · exact {
      tracks := by
        rw [hstate]
        exact h.tracks.heldLocks _
      written := fun l hl => hlocked l (h.written l (by rwa [hstate] at hl))
      locked := fun l hl hlive => by
        rw [hstate] at hlive
        by_cases hmem : l ∈ ls
        · exact h.tracks.has_of_found (View.has_of (hgranted l hmem)) hlive
        · rw [DatabaseTransaction.lockType_eq_write_iff, hlocks, if_neg hmem] at hl
          exact h.locked l (DatabaseTransaction.lockType_eq_write_iff.mpr hl) hlive
      current := fun l c hc => by
        obtain ⟨hc, hid⟩ := DatabaseTransaction.currentCopy_eq_some.mp hc
        by_cases hmem : l ∈ ls
        · exact (hentered l hmem c hc).1
        · rw [hcache, if_neg hmem] at hc
          refine h.current l c (DatabaseTransaction.currentCopy_eq_some.mpr ⟨hc, ?_⟩)
          rw [hid, hframe]
      sameVersion := fun l c hc hversion hl => by
        by_cases hmem : l ∈ ls
        · exact (hentered l hmem c hc).1
        · rw [hcache, if_neg hmem] at hc
          exact h.sameVersion l c hc hversion hl }
  · obtain ⟨c, hc⟩ := Option.isSome_iff_exists.mp (hsome l hl)
    rw [DatabaseTransaction.cachedData, hc]
    exact (hentered l hl c hc).1
  · rw [DatabaseTransaction.lockType_eq_write_iff, hlocks, if_pos hl, hwrite]
    exact le_max_right _ _

/-- What a request returns is the content at the location. -/
theorem ensures_requestBlob (h : Sees missed t version v db) (hlock : lock = .read ∨ lock = .write) :
    (requestBlob server l lock).Ensures db
      (fun data db' => Continues missed t version v db db' ∧ t.content l = some data ∧
        (lock = .write → db'.lockType l = .write))
      fun _ db' => db' = db := by
  refine (ensures_requestBlobs ha h hlock).bind fun _ db' hdb' => ?_
  rw [ensures_bind, ensures_get]
  have hl := List.mem_singleton_self l
  exact ⟨hdb'.1, hdb'.2.1 l hl, fun hwrite => hdb'.2.2 hwrite l hl⟩

/-- What is read is what the transaction wrote, or else the content at the location. -/
theorem ensures_readBlobInternal (h : Sees missed t version v db) (hlock : lock = .read ∨ lock = .write) :
    (readBlobInternal server l lock).Ensures db
      (fun data db' => Continues missed t version v db db' ∧ db.state.isBlobDeleted l = false ∧
        db.state.Reads t l data ∧
        (lock = .write → db'.lockType l = .write ∧ db'.isMVCC = false))
      fun _ db' => db' = db := by
  rw [readBlobInternal, if_neg (by rcases hlock with rfl | rfl <;> decide), ensures_bind, ensures_get]
  split
  · exact rfl
  next hmvcc =>
  have hmvcc : lock = .write → db.isMVCC = false := fun hwrite => by
    rw [hwrite] at hmvcc
    exact Bool.eq_false_iff.mpr hmvcc
  refine (ensures_ensureBlobNotDeleted.mono (fun _ _ => id) fun _ _ => And.left).bind
    fun _ db' hdb' => ?_
  obtain ⟨rfl, hlive⟩ := hdb'
  split
  · next data hdata =>
    exact ⟨h.refl, hlive, Or.inl hdata, fun hwrite =>
      ⟨h.written l (by rw [hdata]; rfl), hmvcc hwrite⟩⟩
  next hnone =>
  have hrequest : (requestBlob server l lock).Ensures db'
      (fun data db'' => Continues missed t version v db' db'' ∧ db'.state.isBlobDeleted l = false ∧
        db'.state.Reads t l data ∧
        (lock = .write → db''.lockType l = .write ∧ db''.isMVCC = false))
      fun _ db'' => db'' = db' :=
    (ensures_requestBlob ha h hlock).mono (fun _ _ hdb'' =>
      ⟨hdb''.1, hlive, Or.inr ⟨hnone, hdb''.2.1⟩, fun hwrite =>
        ⟨hdb''.2.2 hwrite, hdb''.1.isMVCC.trans (hmvcc hwrite)⟩⟩) fun _ _ => id
  split
  · exact hrequest
  next copy hcopy =>
  have hreads : db'.state.Reads t l copy.data := Or.inr ⟨hnone, h.current l copy hcopy⟩
  split_ifs with hle hread
  · refine ⟨h.refl, hlive, hreads, fun hwrite => ?_⟩
    rw [hwrite] at hle
    exact ⟨DatabaseTransaction.lockType_eq_write_iff.mpr hle, hmvcc hwrite⟩
  · refine (ensures_writeLockNoContent ha h).bind fun _ db'' hdb'' => ?_
    exact ⟨hdb''.1, hlive, hreads, fun _ => ⟨hdb''.2.1, hdb''.1.isMVCC.trans hdb''.2.2.1⟩⟩
  · exact hrequest

/-! ### Writing -/

/-- A write is noted after the write lock was acquired. -/
theorem ensures_writeBlobInternal (h : Sees missed t version v db) :
    (writeBlobInternal server l data).Ensures db
      (fun _ db' => ∃ db₁, Continues missed t version v db db₁ ∧ db₁.lockType l = .write ∧
        db₁.state.isBlobDeleted l = false ∧
        db' = db₁.noted fun state => state.writeBlob l data)
      fun _ db' => db' = db := by
  refine (ensures_ensureBlobNotDeleted.mono (fun _ _ => id) fun _ _ => And.left).bind
    fun _ db' hdb' => ?_
  obtain ⟨rfl, hlive⟩ := hdb'
  rw [ensures_bind, ensures_get]
  split_ifs with hlocked
  · refine (ensures_writeLockNoContent ha h).bind fun _ db₁ hdb₁ => ?_
    refine ⟨db₁, hdb₁.1, hdb₁.2.1, ?_, rfl⟩
    rw [hdb₁.1.isBlobDeleted]
    exact hlive
  · exact ⟨db', h.refl, not_not.mp hlocked, hlive, rfl⟩

/-- A write lock is held afterwards, and nothing that is seen changes. -/
theorem ensures_ensureWriteLock (h : Sees missed t version v db) : (ensureWriteLock server l).Ensures db
    (fun _ db' => Continues missed t version v db db' ∧ db'.lockType l = .write) fun _ db' => db' = db := by
  rw [ensureWriteLock, ensures_bind, ensures_get]
  split_ifs with hlocked
  · exact (ensures_writeLockNoContent ha h).mono (fun _ _ hdb' => ⟨hdb'.1, hdb'.2.1⟩) fun _ _ => id
  · exact ⟨h.refl, not_not.mp hlocked⟩

end

end Access

end ClientLib

end BlobsDb
