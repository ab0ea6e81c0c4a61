import BlobsDb.Server.Reading

/-!
# Validating a commit

Before a commit is applied, each of its entries is tested against the database as it is before
the commit: the client owns the locks of the location, or the location is one the commit creates.
The validator keeps book of what is created, since a client needs no lock there, and gets the
locks of what it created when the commit succeeds.
-/

namespace BlobsDb

/-- The ids from one on and before another. -/
def idsFrom (a b : UInt32) : List UInt32 :=
  (List.range (b - a).toNat).map fun i => a + .ofNat i

/-- A validation in progress: the database, in which objects are loaded on the way, and the
ranges created so far. -/
structure Validation where
  database : Database
  created : BlobCreationRanges

namespace Validation

def load (path : List UInt32) (v : Validation) : Option Validation :=
  match v.database.loadPath v.database.snapshot path with
  | none => none
  | some db => some { v with database := db }

def tryCreateBlob (l : BlobLocation) (v : Validation) : Bool × Validation :=
  ((v.created.tryCreateBlob l).1, { v with created := (v.created.tryCreateBlob l).2 })

variable {μ : Type} (own : BlobLocation → Bool) (t : DbTree μ 3)

/-- `EncompassesWithBlobCreation` -/
def encompassesWithBlobCreation (l : BlobLocation) (v : Validation) : Option (Bool × Validation) :=
  if v.created.encompasses l then some (true, v)
  else if v.created.encompassesCreatedCluster l.segment l.cluster then some (v.tryCreateBlob l)
  else
    match v.load [l.segment, l.cluster] with
    | none => none
    | some v =>
      match t.getCluster l.segment l.cluster with
      | none => some (false, v)
      | some c =>
        if (c.children.find l.blob).isSome then some (false, v) else some (v.tryCreateBlob l)

/-- The client owns the write lock, or has the location by creating it. -/
def mayWrite (l : BlobLocation) (v : Validation) : Option (Bool × Validation) :=
  if own l then some (true, v) else encompassesWithBlobCreation t l v

/-- The id an entry writes, if its data has the size of an id. -/
def writtenId (u : BlobData) : Option UInt32 :=
  match u.data with
  | none => none
  | some data => if data.length = 4 then some u.readId else none

/-- The entry writes the next free segment id. -/
def nextFreeSegmentIdWritten (u : BlobData) (v : Validation) :
    TransactionCommitResponse.Result × Validation :=
  if u.cluster ≠ nextFreeClusterId ∨ u.blob ≠ nextFreeBlobId then (.blobDoesNotExist, v)
  else
    match writtenId u with
    | none => (.illegalNextFreeSegmentId, v)
    | some id =>
      if id < t.info ∨ maxSegmentId + 1 < id then (.illegalNextFreeSegmentId, v)
      else
        (.success, { v with created := (idsFrom t.info id).foldl .enterNewSegment v.created })

/-- The entry writes the next free cluster id of a segment. -/
def nextFreeClusterIdWritten (u : BlobData) (v : Validation) :
    Option (TransactionCommitResponse.Result × Validation) :=
  if u.blob ≠ nextFreeBlobId then some (.blobDoesNotExist, v)
  else
    match v.load [u.segment] with
    | none => none
    | some v =>
      match (match t.getSegment u.segment with
        | some s => some s.info
        | none => if v.created.encompasses u.toBlobLocation then some 1 else none) with
      | none => some (.segmentDoesNotExist, v)
      | some nextFreeId =>
        match writtenId u with
        | none => some (.illegalNextFreeClusterId, v)
        | some id =>
          if id < nextFreeId ∨ maxClusterId + 1 < id then some (.illegalNextFreeClusterId, v)
          else
            some (.success, { v with
              created := (idsFrom nextFreeId id).foldl (fun c cluster =>
                c.enterNewCluster u.segment cluster) v.created })

/-- The entry writes the next free blob id of a cluster. The cluster is taken as it is in memory,
loaded or not. -/
def nextFreeBlobIdWritten (u : BlobData) (v : Validation) :
    Option (TransactionCommitResponse.Result × Validation) :=
  let committed (nextFreeId : BlobId) (v : Validation) :
      TransactionCommitResponse.Result × Validation :=
    match writtenId u with
    | none => (.illegalNextFreeBlobId, v)
    | some id =>
      if id < nextFreeId ∨ maxBlobId + 1 < id then (.illegalNextFreeBlobId, v)
      else
        (.success,
          { v with created := v.created.nextFreeBlobIdCommitted u.segment u.cluster id })
  if v.created.encompasses u.toBlobLocation then some (committed 1 v)
  else
    match v.load [u.segment] with
    | none => none
    | some v =>
      match t.getSegment u.segment with
      | none => some (.segmentDoesNotExist, v)
      | some _ =>
        match v.database.heap.getObject v.database.snapshot [u.segment, u.cluster] with
        | none => some (.clusterDoesNotExist, v)
        | some p => some (committed (v.database.heap.directories p).nextFreeId v)

/-- The tests of one entry. -/
def validateBlob (u : BlobData) (v : Validation) :
    Option (TransactionCommitResponse.Result × Validation) :=
  match allLocksForLocation t (mayWrite own t) load
    (fun v => v.created.encompassesCreatedCluster) (fun v => v.created.encompassesCreatedSegment)
    u.toBlobLocation v with
  | none => none
  | some (false, v) => some (.missingWriteLock, v)
  | some (true, v) =>
    if u.segment = segmentListId ∨ u.cluster = clusterListId ∨ u.blob = blobListId then
      some (.blobDoesNotExist, v)
    else if u.cluster = segmentDeleteId ∧ u.blob ≠ clusterDeleteId then some (.blobDoesNotExist, v)
    else if u.segment = nextFreeSegmentId then some (nextFreeSegmentIdWritten t u v)
    else if u.cluster = nextFreeClusterId then nextFreeClusterIdWritten t u v
    else if u.blob = nextFreeBlobId then nextFreeBlobIdWritten t u v
    else some (.success, v)

/-- The tests of the entries of a message, up to the first that fails. -/
def validateBlobs : List BlobData → Validation →
    Option (TransactionCommitResponse.Result × Validation)
  | [], v => some (.success, v)
  | u :: us, v =>
    match validateBlob own t u v with
    | none => none
    | some (.success, v) => validateBlobs us v
    | some r => some r

/-- The tests of the messages for one database. -/
def validateMessages (isMVCC : Bool) : List TransactionCommit → Validation →
    Option (TransactionCommitResponse.Result × Validation)
  | [], v => some (.success, v)
  | m :: ms, v =>
    if isMVCC && !m.blobs.isEmpty then some (.cannotCommitMVCCDatabase, v)
    else
      match validateBlobs own t m.blobs v with
      | none => none
      | some (.success, v) => validateMessages isMVCC ms v
      | some r => some r

end Validation

/-- The locations a range stands for: those of a created segment, of a created cluster, or the
blobs. -/
def BlobLocationRange.implicitLocks (r : BlobLocationRange) : List BlobLocation :=
  let segment := r.first.segment
  let cluster := r.first.cluster
  if r.isCreatedSegment then
    [⟨segment, nextFreeClusterId, nextFreeBlobId⟩, ⟨segment, segmentDeleteId, clusterDeleteId⟩,
      ⟨segment, clusterListId, blobListId⟩]
  else if r.isCreatedCluster then
    [⟨segment, cluster, nextFreeBlobId⟩, ⟨segment, cluster, clusterDeleteId⟩,
      ⟨segment, cluster, blobListId⟩]
  else (idsFrom r.first.blob r.last.blob).map fun blob => ⟨segment, cluster, blob⟩

/-- The write locks a commit grants implicitly. -/
def BlobCreationRanges.implicitLocks (own : BlobLocation → Bool) (c : BlobCreationRanges) :
    List BlobLocation :=
  c.ranges.flatMap fun r => r.implicitLocks.filter fun l => !own l

/-- `ValidateCommitMessages` for the messages of one database: the result, the database with what
was loaded, and the implicit locks. -/
def Database.validateCommitMessages (db : Database) (own : BlobLocation → Bool) (isMVCC : Bool)
    (ms : List TransactionCommit) :
    Option (TransactionCommitResponse.Result × Database × List BlobLocation) :=
  match db.tree db.snapshot with
  | none => none
  | some t =>
    match Validation.validateMessages own t isMVCC ms ⟨db, .empty⟩ with
    | none => none
    | some (result, v) => some (result, v.database, v.created.implicitLocks own)

/-- The messages grouped by database: those for one database have to follow each other. -/
def groupByDatabase : List (DatabaseId × List TransactionCommit) → List TransactionCommit →
    Option (List (DatabaseId × List TransactionCommit))
  | groups, [] => some groups
  | groups, m :: ms =>
    if m.databaseId ∈ groups.map Prod.fst then
      match groups.getLast? with
      | some g =>
        if g.1 = m.databaseId then groupByDatabase (groups.dropLast ++ [(g.1, g.2 ++ [m])]) ms
        else none
      | none => none
    else groupByDatabase (groups ++ [(m.databaseId, [m])]) ms

end BlobsDb
