import BlobsDb.Storage.Database

/-!
# Ranges of created locations

The validator of a commit keeps the ranges of locations that the commit creates, so that the
client may write there without a lock. A new cluster comes with its blob `0` and the reserved
blob ids, a new segment with its cluster `0` and the reserved cluster ids. Other blobs are created
one by one, below the next free blob id the commit writes.
-/

namespace BlobsDb

namespace BlobLocation

/-- `operator<`: by segment, then cluster, then blob. -/
def lt (a b : BlobLocation) : Bool :=
  a.segment < b.segment || a.segment = b.segment && (a.cluster < b.cluster ||
    a.cluster = b.cluster && a.blob < b.blob)

/-- `operator<=` -/
def le (a b : BlobLocation) : Bool := a = b || a.lt b

end BlobLocation

/-- The locations from one on and before another. -/
structure BlobLocationRange where
  first : BlobLocation
  last : BlobLocation
  deriving DecidableEq

namespace BlobLocationRange

/-- The range of one blob. -/
def ofBlob (segment : SegmentId) (cluster : ClusterId) (blob : BlobId) : BlobLocationRange :=
  ⟨⟨segment, cluster, blob⟩, ⟨segment, cluster, blob + 1⟩⟩

/-- `IsCreatedCluster` -/
def isCreatedCluster (r : BlobLocationRange) : Bool := r.last.cluster = r.first.cluster + 1

/-- `IsCreatedSegment` -/
def isCreatedSegment (r : BlobLocationRange) : Bool := r.last.segment = r.first.segment + 1

def encompasses (r : BlobLocationRange) (location : BlobLocation) : Bool :=
  r.first.le location && location.lt r.last

end BlobLocationRange

/-- `BlobCreationRanges`: the ranges created so far, and the next free blob ids written so far,
as locations with that id. -/
structure BlobCreationRanges where
  ranges : List BlobLocationRange
  committedNextFreeBlobIds : List BlobLocation

namespace BlobCreationRanges

def empty : BlobCreationRanges := ⟨[], []⟩

/-- `Encompasses` -/
def encompasses (c : BlobCreationRanges) (location : BlobLocation) : Bool :=
  c.ranges.any fun r => r.encompasses location

/-- `EncompassesCreatedCluster` -/
def encompassesCreatedCluster (c : BlobCreationRanges) (segment : SegmentId)
    (cluster : ClusterId) : Bool :=
  c.ranges.any fun r => r.first.segment = segment && r.first.cluster = cluster && r.isCreatedCluster

/-- `EncompassesCreatedSegment` -/
def encompassesCreatedSegment (c : BlobCreationRanges) (segment : SegmentId) : Bool :=
  c.ranges.any fun r => r.first.segment = segment && r.isCreatedSegment

/-- `Enter`: a range that starts where the last one ends extends it. -/
def enter (c : BlobCreationRanges) (r : BlobLocationRange) : BlobCreationRanges :=
  match c.ranges.getLast? with
  | some s =>
    if s.last = r.first then { c with ranges := c.ranges.dropLast ++ [⟨s.first, r.last⟩] }
    else { c with ranges := c.ranges ++ [r] }
  | none => { c with ranges := c.ranges ++ [r] }

/-- `EnterNewCluster`: the blob `0`, and the reserved ids at the end of the cluster. -/
def enterNewCluster (c : BlobCreationRanges) (segment : SegmentId) (cluster : ClusterId) :
    BlobCreationRanges :=
  { c with
    ranges := c.ranges ++ [.ofBlob segment cluster 0,
      ⟨⟨segment, cluster, maxBlobId + 1⟩, ⟨segment, cluster + 1, 0⟩⟩] }

/-- `EnterNewSegment`: the cluster `0`, and the reserved ids at the end of the segment. -/
def enterNewSegment (c : BlobCreationRanges) (segment : SegmentId) : BlobCreationRanges :=
  let c := c.enterNewCluster segment 0
  { c with ranges := c.ranges ++ [⟨⟨segment, maxClusterId + 1, 0⟩, ⟨segment + 1, 0, 0⟩⟩] }

/-- `NextFreeBlobIdCommitted` -/
def nextFreeBlobIdCommitted (c : BlobCreationRanges) (segment : SegmentId) (cluster : ClusterId)
    (nextFreeBlobId : BlobId) : BlobCreationRanges :=
  { c with
    committedNextFreeBlobIds := c.committedNextFreeBlobIds ++ [⟨segment, cluster, nextFreeBlobId⟩] }

/-- `TryCreateBlob`: whether the blob is below the first next free blob id written for its
cluster, in which case it counts as created from now on. -/
def tryCreateBlob (c : BlobCreationRanges) (location : BlobLocation) : Bool × BlobCreationRanges :=
  match c.committedNextFreeBlobIds.find? fun e =>
    e.segment = location.segment && e.cluster = location.cluster with
  | none => (false, c)
  | some e =>
    if e.blob ≤ location.blob then (false, c)
    else (true, c.enter (.ofBlob location.segment location.cluster location.blob))

end BlobCreationRanges

end BlobsDb
