import BlobsDb.Server.Messages
import BlobsDb.Server.Ranges

/-!
# Reading a snapshot

The server looks objects up by their ids, and loads those on the way. What it finds is a node of
the snapshot's tree, so the functions here decide on the tree and load the objects on a path in
the memory of the database; the content of a blob is taken from its object.

A location stands for a blob, or, by reserved ids, for a next free id, for the deletion of a
segment or cluster, or for one of the id lists that are derived from the tree.
-/

namespace BlobsDb

/-! ### Looking up -/

namespace DbTree

variable {μ : Type}

/-- `GetLoadedSegment` -/
def getSegment (t : DbTree μ 3) (segment : SegmentId) : Option (DbTree μ 2) :=
  t.children.find segment

/-- `GetLoadedCluster` -/
def getCluster (t : DbTree μ 3) (segment : SegmentId) (cluster : ClusterId) :
    Option (DbTree μ 1) :=
  match t.getSegment segment with
  | none => none
  | some s => s.children.find cluster

/-- `GetLoadedBlob` finds something. -/
def hasBlob (t : DbTree μ 3) (l : BlobLocation) : Bool :=
  if l.segment = nextFreeSegmentId ∧ l.cluster = nextFreeClusterId ∧ l.blob = nextFreeBlobId then
    true
  else
    match t.getSegment l.segment with
    | none => false
    | some s =>
      if l.cluster = nextFreeClusterId ∧ l.blob = nextFreeBlobId then true
      else
        match s.children.find l.cluster with
        | none => false
        | some c => l.blob = nextFreeBlobId || (c.children.find l.blob).isSome

end DbTree

/-- The ids of the objects `GetLoadedBlob` loads. -/
def BlobLocation.path (l : BlobLocation) : List UInt32 :=
  if l.segment = nextFreeSegmentId ∧ l.cluster = nextFreeClusterId ∧ l.blob = nextFreeBlobId then []
  else if l.cluster = nextFreeClusterId ∧ l.blob = nextFreeBlobId then [l.segment]
  else if l.blob = nextFreeBlobId then [l.segment, l.cluster]
  else [l.segment, l.cluster, l.blob]

namespace Heap

/-- Loads the objects on a path, as far as there are any. -/
def loadPath (f : FileContent) : ℕ → Pointer → List UInt32 → Heap → Option Heap
  | n + 1, p, id :: path, h =>
    match h.getLoadedChild f n p id with
    | none => none
    | some (none, h) => some h
    | some (some q, h) => loadPath f n q path h
  | _, _, _, h => some h

/-- `GetSegment`, `GetCluster` and `GetBlob`: the object at the end of a path. -/
def getObject (h : Heap) : Pointer → List UInt32 → Option Pointer
  | p, [] => some p
  | p, id :: path =>
    match (h.directories p).children.find id with
    | none => none
    | some o => h.getObject (p.child id o) path

/-- The blob of a location, which may be one that holds a next free id. -/
def getBlob (h : Heap) (snapshot : Pointer) (l : BlobLocation) : Option Blob :=
  if l.segment = nextFreeSegmentId ∧ l.cluster = nextFreeClusterId ∧ l.blob = nextFreeBlobId then
    some (h.directories snapshot).nextFreeIdBlob
  else if l.cluster = nextFreeClusterId ∧ l.blob = nextFreeBlobId then
    (h.getObject snapshot [l.segment]).map fun p => (h.directories p).nextFreeIdBlob
  else if l.blob = nextFreeBlobId then
    (h.getObject snapshot [l.segment, l.cluster]).map fun p => (h.directories p).nextFreeIdBlob
  else (h.getObject snapshot [l.segment, l.cluster, l.blob]).map h.blobs

end Heap

namespace Database

/-- Loads the objects on a path below a snapshot. -/
def loadPath (snapshot : Pointer) (path : List UInt32) (db : Database) : Option Database :=
  (db.heap.loadPath db.file 3 snapshot path).map fun h => { db with heap := h }

/-! ### What a read asks for -/

/-- What `EnsureRequestedBlobsExist` loads for a location, and the error if it is missing. -/
def requested {μ : Type} (mode : LockMode) (t : DbTree μ 3) (l : BlobLocation) :
    List UInt32 × Option BlobsReadResponse.Result :=
  if l.cluster = segmentDeleteId ∧ l.blob = clusterDeleteId ∧ mode = .delete then
    ([l.segment], if (t.getSegment l.segment).isSome then none else some .segmentDoesNotExist)
  else if l.blob = clusterDeleteId ∧ mode = .delete then
    ([l.segment, l.cluster],
      if (t.getCluster l.segment l.cluster).isSome then none else some .clusterDoesNotExist)
  else if l.blob = blobListId then
    if l.cluster = clusterListId then
      if l.segment = segmentListId then ([], none)
      else
        ([l.segment], if (t.getSegment l.segment).isSome then none else some .segmentDoesNotExist)
    else
      ([l.segment, l.cluster],
        if (t.getCluster l.segment l.cluster).isSome then none else some .clusterDoesNotExist)
  else (l.path, if t.hasBlob l then none else some .blobDoesNotExist)

/-- `EnsureRequestedBlobsExist`: the error for the first location that is missing. -/
def ensureRequestedBlobsExist {μ : Type} (snapshot : Pointer) (t : DbTree μ 3) (mode : LockMode) :
    List BlobAddress → Database → Option (Option BlobsReadResponse.Result × Database)
  | [], db => some (none, db)
  | a :: as, db =>
    match db.loadPath snapshot (requested mode t a.toBlobLocation).1 with
    | none => none
    | some db =>
      match (requested mode t a.toBlobLocation).2 with
      | some error => some (some error, db)
      | none => ensureRequestedBlobsExist snapshot t mode as db

end Database

/-! ### The locks of a location -/

section

variable {μ : Type} (t : DbTree μ 3)

/-- The locations of a cluster, except the one that stands for its deletion. -/
def clusterLocations (segment : SegmentId) (cluster : ClusterId) (c : DbTree μ 1) :
    List BlobLocation :=
  ⟨segment, cluster, nextFreeBlobId⟩ :: ⟨segment, cluster, blobListId⟩ ::
    c.children.keys.map fun blob => ⟨segment, cluster, blob⟩

/-- `ForEachLockForLocation`: the locations to lock for a location. There is no answer if the
segment or cluster to delete does not exist. -/
def forEachLockForLocation (l : BlobLocation) : Option (List BlobLocation) :=
  if l.blob = clusterDeleteId then
    if l.cluster = segmentDeleteId then
      (t.getSegment l.segment).map fun s =>
        l :: ⟨l.segment, nextFreeClusterId, nextFreeBlobId⟩ ::
          ⟨l.segment, clusterListId, blobListId⟩ :: ⟨segmentListId, clusterListId, blobListId⟩ ::
          s.children.entries.flatMap fun e =>
            ⟨l.segment, e.1, clusterDeleteId⟩ :: clusterLocations l.segment e.1 e.2
    else
      (t.getCluster l.segment l.cluster).map fun c =>
        l :: ⟨l.segment, l.cluster, nextFreeBlobId⟩ :: ⟨l.segment, l.cluster, blobListId⟩ ::
          ⟨l.segment, clusterListId, blobListId⟩ ::
          c.children.keys.map fun blob => ⟨l.segment, l.cluster, blob⟩
  else if l.blob = nextFreeBlobId then
    if l.cluster = nextFreeClusterId then
      if l.segment = nextFreeSegmentId then
        some [l, ⟨segmentListId, clusterListId, blobListId⟩]
      else some [l, ⟨l.segment, clusterListId, blobListId⟩]
    else some [l, ⟨l.segment, l.cluster, blobListId⟩]
  else some [l]

/-- `ForEachLockInMessage` -/
def forEachLockInMessage : List BlobAddress → Option (List BlobLocation)
  | [] => some []
  | a :: as =>
    match forEachLockForLocation t a.toBlobLocation, forEachLockInMessage as with
    | some ls, some ls' => some (ls ++ ls')
    | _, _ => none

/-! `AllLocksForLocation` tests the locations one by one, loads what it iterates over, and stops
at the first test that fails. `σ` is what the test and the loads change. -/

variable {σ : Type} (test : BlobLocation → σ → Option (Bool × σ))

/-- Goes on unless a test failed. -/
def andThen (r : Option (Bool × σ)) (next : σ → Option (Bool × σ)) : Option (Bool × σ) :=
  match r with
  | some (true, st) => next st
  | r => r

/-- All locations of a list pass the test. -/
def allLocations : List BlobLocation → σ → Option (Bool × σ)
  | [], st => some (true, st)
  | l :: ls, st => andThen (test l st) (allLocations ls)

variable (load : List UInt32 → σ → Option σ)

/-- All locations of the clusters of a segment pass the test. -/
def allClusters (segment : SegmentId) : List (ClusterId × DbTree μ 1) → σ → Option (Bool × σ)
  | [], st => some (true, st)
  | e :: es, st =>
    match load [segment, e.1] st with
    | none => none
    | some st =>
      andThen (allLocations test
        (⟨segment, e.1, clusterDeleteId⟩ :: clusterLocations segment e.1 e.2) st)
        (allClusters segment es)

variable (createdCluster : σ → SegmentId → ClusterId → Bool) (createdSegment : σ → SegmentId → Bool)

/-- `AllLocksForLocation`: the locations to lock for a location pass the test. Those of a segment
or cluster that was just created do without. There is no answer if the test passes up to the
point where a missing segment or cluster is used. -/
def allLocksForLocation (l : BlobLocation) (st : σ) : Option (Bool × σ) :=
  if l.blob = clusterDeleteId then
    if l.cluster = segmentDeleteId then
      match load [l.segment] st with
      | none => none
      | some st =>
        if (t.getSegment l.segment).isNone && createdSegment st l.segment then some (true, st)
        else
          andThen (allLocations test [l, ⟨l.segment, nextFreeClusterId, nextFreeBlobId⟩,
              ⟨l.segment, clusterListId, blobListId⟩,
              ⟨segmentListId, clusterListId, blobListId⟩] st) fun st =>
            match t.getSegment l.segment with
            | none => none
            | some s => allClusters test load l.segment s.children.entries st
    else
      match load [l.segment, l.cluster] st with
      | none => none
      | some st =>
        if (t.getCluster l.segment l.cluster).isNone && createdCluster st l.segment l.cluster then
          some (true, st)
        else
          andThen (allLocations test [l, ⟨l.segment, l.cluster, nextFreeBlobId⟩,
              ⟨l.segment, l.cluster, blobListId⟩, ⟨l.segment, clusterListId, blobListId⟩] st)
            fun st =>
            match t.getCluster l.segment l.cluster with
            | none => none
            | some c =>
              allLocations test (c.children.keys.map fun blob => ⟨l.segment, l.cluster, blob⟩) st
  else if l.blob = nextFreeBlobId then
    if l.cluster = nextFreeClusterId then
      if l.segment = nextFreeSegmentId then
        allLocations test [l, ⟨segmentListId, clusterListId, blobListId⟩] st
      else allLocations test [l, ⟨l.segment, clusterListId, blobListId⟩] st
    else allLocations test [l, ⟨l.segment, l.cluster, blobListId⟩] st
  else test l st

/-- `AllLocksInMessage` -/
def allLocksInMessage : List BlobAddress → σ → Option (Bool × σ)
  | [], st => some (true, st)
  | a :: as, st =>
    andThen (allLocksForLocation t test load (fun _ _ _ => false) (fun _ _ => false)
      a.toBlobLocation st) (allLocksInMessage as)

end

end BlobsDb
