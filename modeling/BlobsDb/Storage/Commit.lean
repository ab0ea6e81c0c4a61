import BlobsDb.Logical.Update
import BlobsDb.Storage.FreeList
import BlobsDb.Storage.Heap

/-!
# Applying a commit

A commit works on a copy of the active snapshot with the next commit id. Segments, clusters and
blobs that a commit touches are replaced by copies with the new commit id the first time, and
changed in place from then on. The `MemoryBlockDelta` keeps book of the objects that need a
block in the file and of those whose block is given back; databases without a file have none.

Nothing here loads the objects a commit copies: `updateDirectory` copies an object that is not
loaded as it is, without children.
-/

namespace BlobsDb

/-- An object with a block in the file. -/
structure MemoryBlock where
  pointer : Pointer
  fileLocation : BlockReference
  deriving DecidableEq

/-- The objects a commit created and the objects it replaced or deleted. -/
structure MemoryBlockDelta where
  allocatedBlocks : List Pointer
  releasedBlocks : List MemoryBlock

namespace MemoryBlockDelta

def empty : MemoryBlockDelta := ⟨[], []⟩

/-- `Released`: an object the commit created itself is forgotten, any other one is noted. -/
def released (δ : MemoryBlockDelta) (b : MemoryBlock) : MemoryBlockDelta :=
  if b.pointer ∈ δ.allocatedBlocks then
    { δ with allocatedBlocks := δ.allocatedBlocks.erase b.pointer }
  else if b.pointer ∈ δ.releasedBlocks.map MemoryBlock.pointer then δ
  else { δ with releasedBlocks := b :: δ.releasedBlocks }

/-- `Allocated` -/
def allocated (δ : MemoryBlockDelta) (p : Pointer) : MemoryBlockDelta :=
  if p ∈ δ.allocatedBlocks then δ else { δ with allocatedBlocks := p :: δ.allocatedBlocks }

end MemoryBlockDelta

/-- What a commit deleted, for giving up the locks on it. -/
structure Deleted where
  blobs : List BlobLocation
  clusters : List (SegmentId × ClusterId)
  segments : List SegmentId

namespace Deleted

def empty : Deleted := ⟨[], [], []⟩

/-- `IsDeleted` -/
def isDeleted (d : Deleted) (location : BlobLocation) : Bool :=
  location.segment ∈ d.segments ∨ (location.segment, location.cluster) ∈ d.clusters ∨
    location ∈ d.blobs

/-- An entry that deletes something notes it. -/
def noted (d : Deleted) (u : BlobData) : Deleted :=
  if u.segment = nextFreeSegmentId then d
  else if u.cluster = segmentDeleteId then { d with segments := d.segments ++ [u.segment] }
  else if u.cluster = nextFreeClusterId then d
  else if u.blob = clusterDeleteId then
    { d with clusters := d.clusters ++ [(u.segment, u.cluster)] }
  else if u.blob = nextFreeBlobId then d
  else
    match u.data with
    | none => { d with blobs := d.blobs ++ [u.toBlobLocation] }
    | some _ => d

end Deleted

/-- A commit in progress: the objects in memory, the delta of a file database, and what was
deleted. -/
structure CommitState where
  heap : Heap
  delta : Option MemoryBlockDelta
  deleted : Deleted

namespace CommitState

def released (st : CommitState) (n : ℕ) (p : Pointer) : CommitState :=
  { st with delta := st.delta.map fun δ => δ.released ⟨p, st.heap.fileLocation n p⟩ }

def allocated (st : CommitState) (p : Pointer) : CommitState :=
  { st with delta := st.delta.map fun δ => δ.allocated p }

def setDirectory (st : CommitState) (p : Pointer) (d : Directory) : CommitState :=
  { st with heap := st.heap.setDirectory p d }

def setBlob (st : CommitState) (p : Pointer) (b : Blob) : CommitState :=
  { st with heap := st.heap.setBlob p b }

/-- `SetNextFreeSegmentId`, `SetNextFreeClusterId` and `SetNextFreeBlobId` -/
def setNextFreeId (st : CommitState) (p : Pointer) (id : UInt32) : CommitState :=
  st.setDirectory p { st.heap.directories p with nextFreeId := id }

/-- Enters a child in the child list of an object, in place of the one with the same id. -/
def enterChild (st : CommitState) (this : Pointer) (id : UInt32) (o : Origin) : CommitState :=
  st.setDirectory this { st.heap.directories this with
    children := (st.heap.directories this).children.insert id o }

/-- Takes a child off the child list of an object. -/
def eraseChild (st : CommitState) (this : Pointer) (id : UInt32) : CommitState :=
  st.setDirectory this { st.heap.directories this with
    children := (st.heap.directories this).children.erase id }

/-- `Cluster::UpdateBlob`: the blob to write, a new one without content unless the commit already
made one. -/
def updateBlob (this : Pointer) (blob : BlobId) (st : CommitState) : Pointer × CommitState :=
  let commitId := (st.heap.directories this).commitId
  let p := this.child blob (.commit commitId)
  match (st.heap.directories this).children.find blob with
  | none =>
    (p, ((st.setBlob p (.new blob commitId)).enterChild this blob (.commit commitId)).allocated p)
  | some o =>
    if (st.heap.blobs (this.child blob o)).commitId ≠ commitId then
      let st := st.released 0 (this.child blob o)
      (p, ((st.setBlob p (.new blob commitId)).enterChild this blob (.commit commitId)).allocated p)
    else (this.child blob o, st)

/-- `UpdateSegment` and `UpdateCluster`: the child to change, a copy unless the commit already
made one. A child that does not exist is created, together with its child `0`. -/
def updateDirectory (n : ℕ) (createFirst : Pointer → CommitState → CommitState) (this : Pointer)
    (id : UInt32) (st : CommitState) : Pointer × CommitState :=
  let commitId := (st.heap.directories this).commitId
  let p := this.child id (.commit commitId)
  match (st.heap.directories this).children.find id with
  | none =>
    let st := (st.setDirectory p (.new id commitId)).enterChild this id (.commit commitId)
    (p, ((createFirst p st).setNextFreeId p 1).allocated p)
  | some o =>
    if (st.heap.directories (this.child id o)).commitId ≠ commitId then
      let st := st.released n (this.child id o)
      let st := st.setDirectory p ((st.heap.directories (this.child id o)).copy commitId)
      (p, (st.enterChild this id (.commit commitId)).allocated p)
    else (this.child id o, st)

/-- `Segment::UpdateCluster` -/
def updateCluster (this : Pointer) (cluster : ClusterId) (st : CommitState) :
    Pointer × CommitState :=
  updateDirectory 1 (fun p st => (updateBlob p 0 st).2) this cluster st

/-- `Snapshot::UpdateSegment` -/
def updateSegment (this : Pointer) (segment : SegmentId) (st : CommitState) :
    Pointer × CommitState :=
  updateDirectory 2 (fun p st => (updateCluster p 0 st).2) this segment st

/-- Releases an object and everything below it. -/
def releaseTree : ℕ → Pointer → CommitState → CommitState
  | 0, p, st => st.released 0 p
  | n + 1, p, st =>
    (st.heap.directories p).children.entries.foldl
      (fun st e => releaseTree n (p.child e.1 e.2) st) (st.released (n + 1) p)

/-- `DeleteBlob`, `DeleteCluster` and `DeleteSegment`, with `ReleaseAllBlobs` and
`ReleaseAllClusters`: takes the child off the list and releases all there is below it. -/
def deleteChild (n : ℕ) (this : Pointer) (id : UInt32) (st : CommitState) : CommitState :=
  match (st.heap.directories this).children.find id with
  | none => st
  | some o => (releaseTree n (this.child id o) st).eraseChild this id

/-- The part of `ApplyCommitMessage` that changes a cluster. -/
def applyToCluster (f : FileContent) (hasMVCCSnapshot : Bool) (cluster : Pointer) (u : BlobData)
    (st : CommitState) : Option CommitState :=
  if u.blob = nextFreeBlobId then some (st.setNextFreeId cluster u.readId)
  else
    match (if hasMVCCSnapshot then (st.heap.getLoadedChild f 0 cluster u.blob).map Prod.snd
      else some st.heap) with
    | none => none
    | some heap =>
      let st := { st with heap := heap }
      match u.data with
      | none =>
        some { deleteChild 0 cluster u.blob st with
          deleted := { st.deleted with blobs := st.deleted.blobs ++ [u.toBlobLocation] } }
      | some data =>
        let (p, st) := updateBlob cluster u.blob st
        some (st.setBlob p { st.heap.blobs p with data := data })

/-- The part of `ApplyCommitMessage` that changes a segment. A cluster to delete is loaded, so
that the blocks of its blobs are released with it. -/
def applyToSegment (f : FileContent) (hasMVCCSnapshot : Bool) (segment : Pointer) (u : BlobData)
    (st : CommitState) : Option CommitState :=
  if u.cluster = nextFreeClusterId then some (st.setNextFreeId segment u.readId)
  else if u.blob = clusterDeleteId then
    match st.heap.getLoadedChild f 1 segment u.cluster with
    | none => none
    | some (cluster, heap) =>
      match (match cluster with
        | none => some heap
        | some cluster => if hasMVCCSnapshot then heap.loadBelow f 1 cluster else some heap) with
      | none => none
      | some heap =>
        some { deleteChild 1 segment u.cluster { st with heap := heap } with
          deleted := { st.deleted with
            clusters := st.deleted.clusters ++ [(u.segment, u.cluster)] } }
  else
    let (cluster, st) := updateCluster segment u.cluster st
    applyToCluster f hasMVCCSnapshot cluster u st

/-- `ApplyCommitMessage` for one entry. A segment to delete is loaded with its clusters, so that
all blocks below it are released with it. -/
def applyUpdate (f : FileContent) (hasMVCCSnapshot : Bool) (snapshot : Pointer) (u : BlobData)
    (st : CommitState) : Option CommitState :=
  if u.segment = nextFreeSegmentId then some (st.setNextFreeId snapshot u.readId)
  else if u.cluster = segmentDeleteId then
    match st.heap.getLoadedChild f 2 snapshot u.segment with
    | none => none
    | some (segment, heap) =>
      match (match segment with
        | none => some heap
        | some segment =>
          if hasMVCCSnapshot then heap.loadBelow f 2 segment
          else heap.loadChildren f 1 segment) with
      | none => none
      | some heap =>
        some { deleteChild 2 snapshot u.segment { st with heap := heap } with
          deleted := { st.deleted with segments := st.deleted.segments ++ [u.segment] } }
  else
    let (segment, st) := updateSegment snapshot u.segment st
    applyToSegment f hasMVCCSnapshot segment u st

/-- `ApplyCommitMessage` for the entries of all messages of a commit. -/
def applyUpdates (f : FileContent) (hasMVCCSnapshot : Bool) (snapshot : Pointer) :
    List BlobData → CommitState → Option CommitState
  | [], st => some st
  | u :: us, st =>
    match applyUpdate f hasMVCCSnapshot snapshot u st with
    | none => none
    | some st => applyUpdates f hasMVCCSnapshot snapshot us st

/-! ### Databases with and without a file

Whether there is a delta does not change during a commit. -/

section

variable {f : FileContent} {mvcc : Bool} {n : ℕ} {this p : Pointer} {id : UInt32}
  {st st' : CommitState} {u : BlobData}

@[simp]
theorem isSome_delta_released : (st.released n p).delta.isSome = st.delta.isSome :=
  Option.isSome_map

@[simp]
theorem isSome_delta_allocated : (st.allocated p).delta.isSome = st.delta.isSome :=
  Option.isSome_map

@[simp]
theorem delta_setDirectory (d : Directory) : (st.setDirectory p d).delta = st.delta := rfl

@[simp]
theorem delta_setBlob (b : Blob) : (st.setBlob p b).delta = st.delta := rfl

@[simp]
theorem delta_setNextFreeId : (st.setNextFreeId p id).delta = st.delta := rfl

@[simp]
theorem delta_enterChild (o : Origin) : (st.enterChild p id o).delta = st.delta := rfl

@[simp]
theorem delta_eraseChild : (st.eraseChild p id).delta = st.delta := rfl

/-- Looking up a blob to write does not change whether the commit counts blocks. -/
@[simp]
theorem isSome_delta_updateBlob :
    (updateBlob this id st).2.delta.isSome = st.delta.isSome := by
  unfold updateBlob
  dsimp only
  split
  · simp
  · split_ifs <;> simp

/-- Copying an object for the commit keeps that there is a delta. -/
theorem isSome_delta_updateDirectory {createFirst : Pointer → CommitState → CommitState}
    (hfirst : ∀ p st, (createFirst p st).delta.isSome = st.delta.isSome) :
    (updateDirectory n createFirst this id st).2.delta.isSome = st.delta.isSome := by
  unfold updateDirectory
  dsimp only
  split
  · simp [hfirst]
  · split_ifs <;> simp

@[simp]
theorem isSome_delta_updateCluster :
    (updateCluster this id st).2.delta.isSome = st.delta.isSome :=
  isSome_delta_updateDirectory fun _ _ => isSome_delta_updateBlob

@[simp]
theorem isSome_delta_updateSegment :
    (updateSegment this id st).2.delta.isSome = st.delta.isSome :=
  isSome_delta_updateDirectory fun _ _ => isSome_delta_updateCluster

/-- Releasing what was deleted does not change whether the commit counts blocks. -/
@[simp]
theorem isSome_delta_releaseTree : (releaseTree n p st).delta.isSome = st.delta.isSome := by
  induction n generalizing p st with
  | zero => exact isSome_delta_released
  | succ n ih =>
    have hfold : ∀ (l : List (UInt32 × Origin)) (st : CommitState),
        (l.foldl (fun st e => releaseTree n (p.child e.1 e.2) st) st).delta.isSome =
          st.delta.isSome := fun l => by
      induction l with
      | nil => exact fun _ => rfl
      | cons e l ihl => exact fun st => (ihl _).trans ih
    exact (hfold _ _).trans isSome_delta_released

/-- Deleting a child keeps that there is a delta. -/
@[simp]
theorem isSome_delta_deleteChild :
    (deleteChild n this id st).delta.isSome = st.delta.isSome := by
  unfold deleteChild
  split <;> simp

/-- An entry for a cluster keeps that there is a delta. -/
theorem isSome_delta_applyToCluster (h : applyToCluster f mvcc this u st = some st') :
    st'.delta.isSome = st.delta.isSome := by
  unfold applyToCluster at h
  by_cases hb : u.blob = nextFreeBlobId
  · simp only [if_pos hb] at h
    obtain rfl := Option.some.inj h
    rfl
  · simp only [if_neg hb] at h
    split at h
    · cases h
    · split at h
      · obtain rfl := Option.some.inj h
        exact isSome_delta_deleteChild
      · obtain rfl := Option.some.inj h
        exact isSome_delta_updateBlob

/-- An entry for a segment keeps that there is a delta. -/
theorem isSome_delta_applyToSegment (h : applyToSegment f mvcc this u st = some st') :
    st'.delta.isSome = st.delta.isSome := by
  unfold applyToSegment at h
  by_cases hc : u.cluster = nextFreeClusterId
  · simp only [if_pos hc] at h
    obtain rfl := Option.some.inj h
    rfl
  simp only [if_neg hc] at h
  by_cases hb : u.blob = clusterDeleteId
  · simp only [if_pos hb] at h
    split at h
    · cases h
    · split at h
      · cases h
      · obtain rfl := Option.some.inj h
        exact isSome_delta_deleteChild
  · simp only [if_neg hb] at h
    rw [isSome_delta_applyToCluster h, isSome_delta_updateCluster]

/-- An entry does not change whether the commit counts blocks. -/
theorem isSome_delta_applyUpdate (h : applyUpdate f mvcc this u st = some st') :
    st'.delta.isSome = st.delta.isSome := by
  unfold applyUpdate at h
  by_cases hs : u.segment = nextFreeSegmentId
  · simp only [if_pos hs] at h
    obtain rfl := Option.some.inj h
    rfl
  simp only [if_neg hs] at h
  by_cases hd : u.cluster = segmentDeleteId
  · simp only [if_pos hd] at h
    split at h
    · cases h
    · split at h
      · cases h
      · obtain rfl := Option.some.inj h
        exact isSome_delta_deleteChild
  · simp only [if_neg hd] at h
    rw [isSome_delta_applyToSegment h, isSome_delta_updateSegment]

/-- A commit counts blocks to its end if it did so at first. -/
theorem isSome_delta_applyUpdates {us : List BlobData}
    (h : applyUpdates f mvcc this us st = some st') : st'.delta.isSome = st.delta.isSome := by
  induction us generalizing st with
  | nil =>
    cases h
    rfl
  | cons u us ih =>
    rw [applyUpdates] at h
    split at h
    · cases h
    · next hu => rw [ih h, isSome_delta_applyUpdate hu]

/-! ### What is noted as deleted

Only the entries themselves note what they delete. -/

@[simp]
theorem deleted_released : (st.released n p).deleted = st.deleted := rfl

@[simp]
theorem deleted_allocated : (st.allocated p).deleted = st.deleted := rfl

@[simp]
theorem deleted_setDirectory (d : Directory) : (st.setDirectory p d).deleted = st.deleted := rfl

@[simp]
theorem deleted_setBlob (b : Blob) : (st.setBlob p b).deleted = st.deleted := rfl

@[simp]
theorem deleted_setNextFreeId : (st.setNextFreeId p id).deleted = st.deleted := rfl

@[simp]
theorem deleted_enterChild (o : Origin) : (st.enterChild p id o).deleted = st.deleted := rfl

/-- Looking up what is written notes no deletion. -/
@[simp]
theorem deleted_updateBlob : (updateBlob this id st).2.deleted = st.deleted := by
  unfold updateBlob
  dsimp only
  split
  · rfl
  · split_ifs <;> rfl

/-- Copying an object for the commit deletes nothing. -/
theorem deleted_updateDirectory {createFirst : Pointer → CommitState → CommitState}
    (hfirst : ∀ p st, (createFirst p st).deleted = st.deleted) :
    (updateDirectory n createFirst this id st).2.deleted = st.deleted := by
  unfold updateDirectory
  dsimp only
  split
  · simp [hfirst]
  · split_ifs <;> rfl

@[simp]
theorem deleted_updateCluster : (updateCluster this id st).2.deleted = st.deleted :=
  deleted_updateDirectory fun _ _ => deleted_updateBlob

@[simp]
theorem deleted_updateSegment : (updateSegment this id st).2.deleted = st.deleted :=
  deleted_updateDirectory fun _ _ => deleted_updateCluster

/-- Releasing what was deleted notes no deletion of its own. -/
theorem deleted_releaseTree : (releaseTree n p st).deleted = st.deleted := by
  induction n generalizing p st with
  | zero => rfl
  | succ n ih =>
    have hfold : ∀ (l : List (UInt32 × Origin)) (st : CommitState),
        (l.foldl (fun st e => releaseTree n (p.child e.1 e.2) st) st).deleted = st.deleted :=
      fun l => by
        induction l with
        | nil => exact fun _ => rfl
        | cons e l ihl => exact fun st => (ihl _).trans ih
    exact hfold _ _

/-- Deleting a child notes nothing: the entry does. -/
@[simp]
theorem deleted_deleteChild : (deleteChild n this id st).deleted = st.deleted := by
  unfold deleteChild
  split
  · rfl
  · exact deleted_releaseTree

/-- An entry notes what it deletes, within its cluster. -/
theorem deleted_applyToCluster (h : applyToCluster f mvcc this u st = some st')
    (hs : u.segment ≠ nextFreeSegmentId) (hd : u.cluster ≠ segmentDeleteId)
    (hc : u.cluster ≠ nextFreeClusterId) (hb : u.blob ≠ clusterDeleteId) :
    st'.deleted = st.deleted.noted u := by
  unfold applyToCluster at h
  rw [Deleted.noted, if_neg hs, if_neg hd, if_neg hc, if_neg hb]
  by_cases hn : u.blob = nextFreeBlobId
  · rw [if_pos hn] at h ⊢
    obtain rfl := Option.some.inj h
    rfl
  · rw [if_neg hn] at h ⊢
    split at h
    · cases h
    · cases hdata : u.data with
      | none =>
        simp only [hdata] at h
        obtain rfl := Option.some.inj h
        rfl
      | some data =>
        simp only [hdata] at h
        obtain rfl := Option.some.inj h
        exact deleted_updateBlob

/-- An entry notes what it deletes, within its segment. -/
theorem deleted_applyToSegment (h : applyToSegment f mvcc this u st = some st')
    (hs : u.segment ≠ nextFreeSegmentId) (hd : u.cluster ≠ segmentDeleteId) :
    st'.deleted = st.deleted.noted u := by
  unfold applyToSegment at h
  by_cases hc : u.cluster = nextFreeClusterId
  · rw [Deleted.noted, if_neg hs, if_neg hd, if_pos hc]
    rw [if_pos hc] at h
    obtain rfl := Option.some.inj h
    rfl
  rw [if_neg hc] at h
  by_cases hb : u.blob = clusterDeleteId
  · rw [Deleted.noted, if_neg hs, if_neg hd, if_neg hc, if_pos hb]
    rw [if_pos hb] at h
    split at h
    · cases h
    · split at h
      · cases h
      · obtain rfl := Option.some.inj h
        rfl
  · simp only [if_neg hb] at h
    rw [deleted_applyToCluster h hs hd hc hb, deleted_updateCluster]

/-- An entry notes what it deletes. -/
theorem deleted_applyUpdate (h : applyUpdate f mvcc this u st = some st') :
    st'.deleted = st.deleted.noted u := by
  unfold applyUpdate at h
  by_cases hs : u.segment = nextFreeSegmentId
  · rw [Deleted.noted, if_pos hs]
    rw [if_pos hs] at h
    obtain rfl := Option.some.inj h
    rfl
  rw [if_neg hs] at h
  by_cases hd : u.cluster = segmentDeleteId
  · rw [Deleted.noted, if_neg hs, if_pos hd]
    rw [if_pos hd] at h
    split at h
    · cases h
    · split at h
      · cases h
      · obtain rfl := Option.some.inj h
        rfl
  · simp only [if_neg hd] at h
    rw [deleted_applyToSegment h hs hd, deleted_updateSegment]

/-- After all entries, what they delete is noted. -/
theorem deleted_applyUpdates {us : List BlobData} (h : applyUpdates f mvcc this us st = some st') :
    st'.deleted = us.foldl Deleted.noted st.deleted := by
  induction us generalizing st with
  | nil =>
    cases h
    rfl
  | cons u us ih =>
    rw [applyUpdates] at h
    split at h
    · cases h
    · next hu => rw [ih h, deleted_applyUpdate hu, List.foldl_cons]

end

end CommitState

end BlobsDb
