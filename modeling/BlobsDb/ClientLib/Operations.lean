import BlobsDb.ClientLib.Caching
import BlobsDb.ClientLib.IdLists
import BlobsDb.ForMathlib.Attempt

/-!
# The operations of a transaction

What the functions of the client library that read, write, create, delete and list do in a running
transaction. They acquire the locks they need, as far as the client does not know it has them, and
note what is to be committed. When they throw, the locks they acquired stay.
-/

namespace BlobsDb

namespace ClientLib

/-- What the operations throw. An exception of no special type has its text. -/
inductive Exception
  | generic (reason : String)
  | lockTimeout
  | deadlock
  | blobTooLarge (size : ℕ)
  | blobDoesNotExist
  | blobAlreadyExists
  | blobDeleted
  | clusterDoesNotExist
  | clusterDeleted
  | segmentDoesNotExist
  | segmentDeleted
  | blobLimitReached (segment : SegmentId) (cluster : ClusterId)
  | clusterLimitReached (segment : SegmentId)
  | segmentLimitReached
  | cannotWriteLockInMVCC
  /-- An assertion of the library fails. -/
  | assertion
  deriving DecidableEq

/-- `HandleReadBlobErrorResponse`; after a deadlock the transaction is over. -/
def handleReadBlobErrorResponse : BlobsReadResponse.Result → Exception
  | .success => .assertion
  | .blobDoesNotExist => .blobDoesNotExist
  | .clusterDoesNotExist => .clusterDoesNotExist
  | .segmentDoesNotExist => .segmentDoesNotExist
  | .databaseNotOpened => .generic "internal error: Database not opened!"
  | .noTransactionInProgress => .generic "internal error: No transaction in progress!"
  | .lockTimeout => .lockTimeout
  | .deadlock => .deadlock
  | .cannotWriteLockInMVCC => .generic "Server sent unknown result code!"

/-! ### What is noted in the state -/

namespace DatabaseState

/-- The location lies between two others; the ranges that are erased end with `upper_bound`. -/
def between (first last l : BlobLocation) : Bool := first ≤ l && l ≤ last

def isSegmentDeleted (state : DatabaseState) (s : SegmentId) : Bool :=
  (state.deletedSegments.find s).isSome

def isClusterDeleted (state : DatabaseState) (s : SegmentId) (c : ClusterId) : Bool :=
  state.isSegmentDeleted s || (state.deletedClusters.find (toLex (s, c))).isSome

def isSegmentCreated (state : DatabaseState) (s : SegmentId) : Bool :=
  (state.createdSegments.find s).isSome

def isClusterCreated (state : DatabaseState) (s : SegmentId) (c : ClusterId) : Bool :=
  (state.createdClusters.find (toLex (s, c))).isSome || state.isSegmentCreated s

/-- `Transaction::WriteBlob` -/
def writeBlob (state : DatabaseState) (l : BlobLocation) (data : List UInt8) : DatabaseState :=
  { state with writtenBlobs := state.writtenBlobs.insert l data }

/-- `Transaction::CreateBlob`: a blob that was deleted before is not noted as created. -/
def createBlob (state : DatabaseState) (l : BlobLocation) : DatabaseState :=
  if (state.deletedBlobs.find l).isSome then
    { state with deletedBlobs := state.deletedBlobs.erase l }
  else { state with createdBlobs := state.createdBlobs.insert l () }

/-- `Transaction::CreateCluster` -/
def createCluster (state : DatabaseState) (s : SegmentId) (c : ClusterId) : DatabaseState :=
  { state with createdClusters := state.createdClusters.insert (toLex (s, c)) () }

/-- `Transaction::CreateSegment` -/
def createSegment (state : DatabaseState) (s : SegmentId) : DatabaseState :=
  { state with createdSegments := state.createdSegments.insert s () }

/-- `Transaction::DeleteBlob`, after its check -/
def deleteBlob (state : DatabaseState) (l : BlobLocation) : DatabaseState :=
  { state with
    writtenBlobs := state.writtenBlobs.erase l
    createdBlobs := state.createdBlobs.erase l
    deletedBlobs := state.deletedBlobs.insert l () }

/-- `Transaction::DeleteCluster`, after its check: what was done in the cluster is discarded. -/
def deleteCluster (state : DatabaseState) (s : SegmentId) (c : ClusterId) : DatabaseState :=
  let outside (l : BlobLocation) : Bool := !between ⟨s, c, 0⟩ ⟨s, c, 0xffffffff⟩ l
  { state with
    writtenBlobs := state.writtenBlobs.filterKeys outside
    createdBlobs := state.createdBlobs.filterKeys outside
    deletedBlobs := state.deletedBlobs.filterKeys outside
    createdClusters := state.createdClusters.erase (toLex (s, c))
    deletedClusters := state.deletedClusters.insert (toLex (s, c)) () }

/-- `Transaction::DeleteSegment`, after its check: what was done in the segment is discarded. -/
def deleteSegment (state : DatabaseState) (s : SegmentId) : DatabaseState :=
  let outside (l : BlobLocation) : Bool :=
    !between ⟨s, 0, 0⟩ ⟨s, 0xffffffff, 0xffffffff⟩ l
  let outsideClusters (k : SegmentId ×ₗ ClusterId) : Bool :=
    !(toLex (s, 0) ≤ k && k ≤ toLex (s, 0xffffffff))
  { state with
    writtenBlobs := state.writtenBlobs.filterKeys outside
    createdBlobs := state.createdBlobs.filterKeys outside
    deletedBlobs := state.deletedBlobs.filterKeys outside
    createdClusters := state.createdClusters.filterKeys outsideClusters
    deletedClusters := state.deletedClusters.filterKeys outsideClusters
    createdSegments := state.createdSegments.erase s
    deletedSegments := state.deletedSegments.insert s () }

/-! ### Id lists -/

/-- The loop of `MergeBlobIdList` over the created blobs, and whether the list has to be sorted. -/
def insertCreated : List BlobId → Bool → List BlobId → List BlobId × Bool
  | blobs, needsSort, [] => (blobs, needsSort)
  | blobs, needsSort, b :: bs =>
    insertCreated (blobs ++ [b]) (needsSort || blobs.getLast?.any fun last => b < last) bs

/-- `Transaction::MergeBlobIdList` -/
def mergeBlobIdList (state : DatabaseState) (s : SegmentId) (c : ClusterId) (blobs : List BlobId) :
    List BlobId :=
  let left := blobs.filter fun b => (state.deletedBlobs.find ⟨s, c, b⟩).isNone
  let created := (state.createdBlobs.keys.filter (between ⟨s, c, 0⟩ ⟨s, c, 0xffffffff⟩)).map
    BlobLocation.blob
  let (merged, needsSort) := insertCreated left false created
  if needsSort then merged.insertionSort (· ≤ ·) else merged

/-- `Transaction::MergeClusterIdList` -/
def mergeClusterIdList (state : DatabaseState) (s : SegmentId) (clusters : List ClusterId) :
    List ClusterId :=
  (clusters.filter fun c => (state.deletedClusters.find (toLex (s, c))).isNone) ++
    (state.createdClusters.keys.filter fun k =>
      toLex (s, 0) ≤ k && k ≤ toLex (s, 0xffffffff)).map fun k => (ofLex k).2

/-- `Transaction::MergeSegmentIdList` -/
def mergeSegmentIdList (state : DatabaseState) (segments : List SegmentId) : List SegmentId :=
  (segments.filter fun s => (state.deletedSegments.find s).isNone) ++ state.createdSegments.keys

end DatabaseState

/-! ### Operations -/

/-- Operations work on what the client has of a database in the transaction. -/
abbrev Access := EStateM Exception DatabaseTransaction

/-- What the server replies when locations are requested with a lock: an error, or what is found
there. -/
abbrev Replies := LockMode → List BlobLocation →
  Except BlobsReadResponse.Result (BlobLocation → VersionedContent)

namespace Access

/-- Applies a change to the state. -/
def note (change : DatabaseState → DatabaseState) : Access Unit :=
  modify fun db => { db with state := change db.state }

/-- `AcquiredLock` -/
def acquiredLock (l : BlobLocation) (lock : LockMode) : Access Unit :=
  modify fun db => db.acquired lock l

/-- `EnsureSegmentNotDeleted` -/
def ensureSegmentNotDeleted (s : SegmentId) : Access Unit := do
  let db ← get
  if db.state.isSegmentDeleted s then throw .segmentDeleted else pure ()

/-- `EnsureClusterNotDeleted` -/
def ensureClusterNotDeleted (s : SegmentId) (c : ClusterId) : Access Unit := do
  ensureSegmentNotDeleted s
  let db ← get
  if (db.state.deletedClusters.find (toLex (s, c))).isSome then throw .clusterDeleted else pure ()

/-- `EnsureBlobNotDeleted` -/
def ensureBlobNotDeleted (l : BlobLocation) : Access Unit := do
  ensureClusterNotDeleted l.segment l.cluster
  let db ← get
  if (db.state.deletedBlobs.find l).isSome then throw .blobDeleted else pure ()

/-- The checks of ids that several functions begin with. -/
def checkIds (ids : List (UInt32 × UInt32 × String)) : Access Unit :=
  ids.forM fun p => if p.2.1 < p.1 then throw (.generic p.2.2) else pure ()

def checkSegment (s : SegmentId) : UInt32 × UInt32 × String := (s, maxSegmentId, "Invalid segment id")

def checkCluster (c : ClusterId) : UInt32 × UInt32 × String := (c, maxClusterId, "Invalid cluster id")

def checkBlob (b : BlobId) : UInt32 × UInt32 × String := (b, maxBlobId, "Invalid blob id")

/-- Requests locations from the server, and goes through what it replies. -/
def requestBlobs (server : Replies) (lock : LockMode) (ls : List BlobLocation) : Access Unit := do
  let db ← get
  match server lock ls with
  | .error r => throw (handleReadBlobErrorResponse r)
  | .ok found =>
    match db.request found lock ls with
    | none => throw .assertion
    | some db' => set db'

/-- The locks on several locations are acquired without their content. -/
def acquireWriteLocks (server : Replies) (ls : List BlobLocation) : Access Unit :=
  match server .delete ls with
  | .error r => throw (handleReadBlobErrorResponse r)
  | .ok _ => ls.forM fun l => acquiredLock l .write

/-- `WriteLockNoContent` -/
def writeLockNoContent (server : Replies) (l : BlobLocation) : Access Unit := do
  let db ← get
  if db.isMVCC then throw .cannotWriteLockInMVCC else acquireWriteLocks server [l]

/-- `DirtyReadBlobInternal` -/
def dirtyReadBlobInternal (server : Replies) (l : BlobLocation) : Access (List UInt8) :=
  match server .none [l] with
  | .error r => throw (handleReadBlobErrorResponse r)
  | .ok found => pure (found l).content

/-- Requests a location from the server, and reads it from the cache then. -/
def requestBlob (server : Replies) (l : BlobLocation) (lock : LockMode) : Access (List UInt8) := do
  requestBlobs server lock [l]
  let db ← get
  pure (db.cachedData l)

/-- `ReadBlobInternal`: what was written or read in the transaction is not requested. A read lock is
upgraded without the content of the blob. -/
def readBlobInternal (server : Replies) (l : BlobLocation) (lock : LockMode) :
    Access (List UInt8) := do
  if lock = .none then dirtyReadBlobInternal server l
  else
    let db ← get
    if lock = .write && db.isMVCC then throw .cannotWriteLockInMVCC
    else
      ensureBlobNotDeleted l
      match db.state.writtenBlobs.find l with
      | some data => pure data
      | none =>
        match db.currentCopy l with
        | none => requestBlob server l lock
        | some c =>
          if lock.value ≤ (db.lockType l).value then pure c.data
          else if db.lockType l = .read then
            writeLockNoContent server l
            pure c.data
          else requestBlob server l lock

/-- `ReadBlob` -/
def readBlob (server : Replies) (l : BlobLocation) (lock : LockMode) : Access (List UInt8) := do
  checkIds [checkSegment l.segment, checkCluster l.cluster, checkBlob l.blob]
  readBlobInternal server l lock

/-- `ReadBlobs` -/
def readBlobs (server : Replies) (ls : List BlobLocation) (lock : LockMode) :
    Access (List (List UInt8)) := do
  if 255 < ls.length then throw (.generic "Too many blobs requested at once")
  else
    ls.forM fun l => checkIds [checkSegment l.segment, checkCluster l.cluster, checkBlob l.blob]
    let db ← get
    if lock = .write && db.isMVCC then throw .cannotWriteLockInMVCC
    else if lock = .none then
      if ls.isEmpty then pure []
      else
        match server .none ls with
        | .error r => throw (handleReadBlobErrorResponse r)
        | .ok found => pure (ls.map fun l => (found l).content)
    else
      ls.forM ensureBlobNotDeleted
      let blobsToLoad := ls.filter fun l => (db.readLocally lock l).isNone
      if blobsToLoad.isEmpty then pure (ls.map fun l => (db.readLocally lock l).getD [])
      else
        requestBlobs server lock blobsToLoad
        let db' ← get
        pure (ls.map fun l => (db.readLocally lock l).getD (db'.cachedData l))

/-- `WriteBlobInternal`: only the lock is acquired, the content is not needed. -/
def writeBlobInternal (server : Replies) (l : BlobLocation) (data : List UInt8) : Access Unit := do
  ensureBlobNotDeleted l
  let db ← get
  if db.lockType l ≠ .write then
    writeLockNoContent server l
    note fun state => state.writeBlob l data
  else note fun state => state.writeBlob l data

/-- `WriteBlob` -/
def writeBlob (server : Replies) (l : BlobLocation) (data : List UInt8) : Access Unit := do
  checkIds [checkSegment l.segment, checkCluster l.cluster, checkBlob l.blob]
  if maxBlobSize < data.length then throw (.blobTooLarge data.length)
  else writeBlobInternal server l data

/-- `WriteBlobs`: the locks that are missing are acquired at once. -/
def writeBlobs (server : Replies) (es : List (BlobLocation × List UInt8)) : Access Unit := do
  if 255 < es.length then throw (.generic "Too many blobs requested at once")
  else
    es.forM fun e => do
      checkIds [checkSegment e.1.segment, checkCluster e.1.cluster, checkBlob e.1.blob]
      if maxBlobSize < e.2.length then throw (.blobTooLarge e.2.length) else pure ()
    let db ← get
    if db.isMVCC then throw .cannotWriteLockInMVCC
    else
      es.forM fun e => ensureBlobNotDeleted e.1
      let locksToAcquire := (es.map Prod.fst).filter fun l => db.lockType l ≠ .write
      if locksToAcquire.isEmpty then es.forM fun e => note fun state => state.writeBlob e.1 e.2
      else
        acquireWriteLocks server locksToAcquire
        es.forM fun e => note fun state => state.writeBlob e.1 e.2

/-! ### Creating -/

/-- The id in the bytes of a next free id. -/
def idOf (data : List UInt8) : UInt32 := .ofNat (leNat (data.take 4))

/-- The bytes of a next free id. -/
def idData (id : UInt32) : List UInt8 := leBytes 4 id.toNat

/-- The end of `CreateBlobInternal` and `CreateBlobInternalAt`: the client has the new blob for
itself. -/
def newBlob (server : Replies) (l : BlobLocation) (nextFree : BlobId) : Access Unit := do
  writeBlobInternal server ⟨l.segment, l.cluster, nextFreeBlobId⟩ (idData nextFree)
  acquiredLock l .write
  note fun state => state.createBlob l

/-- `CreateBlobInternal`: by the lock on the next free id the server grants the one on the list. -/
def createBlobInternal (server : Replies) (s : SegmentId) (c : ClusterId) : Access BlobId := do
  let data ← readBlobInternal server ⟨s, c, nextFreeBlobId⟩ .write
  acquiredLock ⟨s, c, blobListId⟩ .write
  if maxBlobId < idOf data then throw (.blobLimitReached s c)
  else
    newBlob server ⟨s, c, idOf data⟩ (idOf data + 1)
    pure (idOf data)

/-- `CreateBlob` -/
def createBlob (server : Replies) (s : SegmentId) (c : ClusterId) (data : List UInt8) :
    Access BlobId := do
  if maxBlobSize < data.length then throw (.blobTooLarge data.length)
  else
    checkIds [checkSegment s, checkCluster c]
    let blob ← createBlobInternal server s c
    writeBlobInternal server ⟨s, c, blob⟩ data
    pure blob

/-- `GetAllBlobs`: the list is not requested for a cluster that was created in the transaction. -/
def getAllBlobs (server : Replies) (s : SegmentId) (c : ClusterId) (lock : LockMode) :
    Access (List BlobId) := do
  checkIds [checkSegment s, checkCluster c]
  if lock = .none then
    let data ← readBlobInternal server ⟨s, c, blobListId⟩ lock
    pure (idsOfRanges data)
  else
    let db ← get
    if db.state.isClusterCreated s c then pure (db.state.mergeBlobIdList s c [])
    else
      let data ← readBlobInternal server ⟨s, c, blobListId⟩ lock
      let db ← get
      pure (db.state.mergeBlobIdList s c (idsOfRanges data))

/-- `CreateBlobInternalAt`: below the next free id, the blob must not be in the list, where it is
looked up as the first id that is not below it. The next free id is written in any case. -/
def createBlobInternalAt (server : Replies) (l : BlobLocation) : Access Unit := do
  let data ← readBlobInternal server ⟨l.segment, l.cluster, nextFreeBlobId⟩ .write
  acquiredLock ⟨l.segment, l.cluster, blobListId⟩ .write
  if idOf data ≤ l.blob then newBlob server l (l.blob + 1)
  else
    let allBlobs ← getAllBlobs server l.segment l.cluster .read
    if allBlobs.find? (l.blob ≤ ·) = some l.blob then throw .blobAlreadyExists
    else newBlob server l (idOf data)

/-- `CreateBlobAt` -/
def createBlobAt (server : Replies) (l : BlobLocation) (data : List UInt8) : Access Unit := do
  if maxBlobSize < data.length then throw (.blobTooLarge data.length)
  else
    checkIds [checkSegment l.segment, checkCluster l.cluster, checkBlob l.blob]
    createBlobInternalAt server l
    writeBlobInternal server l data

/-- The end of `CreateCluster`: the new cluster has an empty blob. -/
def newCluster (server : Replies) (s : SegmentId) (cluster : ClusterId) : Access Unit := do
  writeBlobInternal server ⟨s, nextFreeClusterId, nextFreeBlobId⟩ (idData (cluster + 1))
  acquiredLock ⟨s, cluster, nextFreeBlobId⟩ .write
  acquiredLock ⟨s, cluster, clusterDeleteId⟩ .write
  acquiredLock ⟨s, cluster, blobListId⟩ .write
  note fun state => state.createCluster s cluster
  writeBlobInternal server ⟨s, cluster, nextFreeBlobId⟩ (idData 0)
  let _ ← createBlob server s cluster []

/-- `CreateCluster` -/
def createCluster (server : Replies) (s : SegmentId) : Access ClusterId := do
  checkIds [checkSegment s]
  let data ← readBlobInternal server ⟨s, nextFreeClusterId, nextFreeBlobId⟩ .write
  acquiredLock ⟨s, clusterListId, blobListId⟩ .write
  if maxClusterId < idOf data then throw (.clusterLimitReached s)
  else
    newCluster server s (idOf data)
    pure (idOf data)

/-- The end of `CreateSegment`: the new segment has a cluster. -/
def newSegment (server : Replies) (segment : SegmentId) : Access Unit := do
  writeBlobInternal server ⟨nextFreeSegmentId, nextFreeClusterId, nextFreeBlobId⟩
    (idData (segment + 1))
  acquiredLock ⟨segment, nextFreeClusterId, nextFreeBlobId⟩ .write
  acquiredLock ⟨segment, segmentDeleteId, clusterDeleteId⟩ .write
  acquiredLock ⟨segment, clusterListId, blobListId⟩ .write
  note fun state => state.createSegment segment
  writeBlobInternal server ⟨segment, nextFreeClusterId, nextFreeBlobId⟩ (idData 0)
  let _ ← createCluster server segment

/-- `CreateSegment` -/
def createSegment (server : Replies) : Access SegmentId := do
  let data ← readBlobInternal server ⟨nextFreeSegmentId, nextFreeClusterId, nextFreeBlobId⟩ .write
  acquiredLock ⟨segmentListId, clusterListId, blobListId⟩ .write
  if maxSegmentId < idOf data then throw .segmentLimitReached
  else
    newSegment server (idOf data)
    pure (idOf data)

/-! ### Deleting -/

/-- Acquires the write lock on a location if it is missing. -/
def ensureWriteLock (server : Replies) (l : BlobLocation) : Access Unit := do
  let db ← get
  if db.lockType l ≠ .write then writeLockNoContent server l else pure ()

/-- `DeleteBlob`: the list it is taken off is locked, too. -/
def deleteBlob (server : Replies) (l : BlobLocation) : Access Unit := do
  ensureWriteLock server ⟨l.segment, l.cluster, blobListId⟩
  ensureWriteLock server l
  ensureBlobNotDeleted l
  note fun state => state.deleteBlob l
  modify fun db => { db with cache := db.cache.erase l }

/-- `DeleteCluster`: by the lock to delete it the server grants the one on the list. -/
def deleteCluster (server : Replies) (s : SegmentId) (c : ClusterId) : Access Unit := do
  let delete : Access Unit := do
    ensureClusterNotDeleted s c
    note fun state => state.deleteCluster s c
    modify fun db =>
      { db with cache := db.cache.filterKeys fun l => !(l.segment = s && l.cluster = c) }
  let db ← get
  if db.lockType ⟨s, c, clusterDeleteId⟩ ≠ .write then
    writeLockNoContent server ⟨s, c, clusterDeleteId⟩
    acquiredLock ⟨s, clusterListId, blobListId⟩ .write
    delete
  else delete

/-- `DeleteSegment`: by the lock to delete it the server grants the one on the list. -/
def deleteSegment (server : Replies) (s : SegmentId) : Access Unit := do
  let delete : Access Unit := do
    ensureSegmentNotDeleted s
    note fun state => state.deleteSegment s
    modify fun db => { db with cache := db.cache.filterKeys fun l => !(l.segment = s) }
  let db ← get
  if db.lockType ⟨s, segmentDeleteId, clusterDeleteId⟩ ≠ .write then
    writeLockNoContent server ⟨s, segmentDeleteId, clusterDeleteId⟩
    acquiredLock ⟨segmentListId, clusterListId, blobListId⟩ .write
    delete
  else delete

/-! ### Listing -/

/-- `GetAllClusters`: the list is not requested for a segment that was created in the transaction. -/
def getAllClusters (server : Replies) (s : SegmentId) (lock : LockMode) :
    Access (List ClusterId) := do
  checkIds [checkSegment s]
  if lock = .none then
    let data ← readBlobInternal server ⟨s, clusterListId, blobListId⟩ lock
    pure (idsOfRanges data)
  else
    let db ← get
    if db.state.isSegmentCreated s then pure (db.state.mergeClusterIdList s [])
    else
      let data ← readBlobInternal server ⟨s, clusterListId, blobListId⟩ lock
      let db ← get
      pure (db.state.mergeClusterIdList s (idsOfRanges data))

/-- `GetAllSegments` -/
def getAllSegments (server : Replies) (lock : LockMode) : Access (List SegmentId) := do
  let data ← readBlobInternal server ⟨segmentListId, clusterListId, blobListId⟩ lock
  if lock = .none then pure (idsOfRanges data)
  else
    let db ← get
    pure (db.state.mergeSegmentIdList (idsOfRanges data))

end Access

end ClientLib

end BlobsDb
