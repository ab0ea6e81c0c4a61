import Mathlib.Algebra.Ring.Nat
import Mathlib.Data.Prod.Lex
import Mathlib.Data.List.Sort
import BlobsDb.ForMathlib.FlatMap
import BlobsDb.Server.Messages

/-!
# Transactions of the client library

What a transaction did in a database is kept by the client until the commit: the blobs it wrote,
and what it created and deleted. The commit turns this into a list of writes, in an order the
server can apply them in, and the writes into messages.
-/

namespace BlobsDb

/-- Locations are ordered by segment, then cluster, then blob. -/
instance : LinearOrder BlobLocation :=
  LinearOrder.lift' (fun l => toLex (l.segment, toLex (l.cluster, l.blob))) fun a b h => by
    cases a
    cases b
    simpa [Prod.ext_iff] using h

namespace ClientLib

/-- `HeldLocks`: the locks the client knows it holds in a database. -/
structure HeldLocks where
  read : FlatSet BlobLocation
  write : FlatSet BlobLocation
  deriving DecidableEq

namespace HeldLocks

def empty : HeldLocks := ⟨.empty, .empty⟩

/-- `ReleaseLockRange`: releases the locks from one location on and up to another. The range ends
with `upper_bound`, so that the last location is released as well. -/
def releaseLockRange (locks : HeldLocks) (first last : BlobLocation) : HeldLocks :=
  let outside (l : BlobLocation) : Bool := !(first ≤ l && l ≤ last)
  ⟨locks.read.filterKeys outside, locks.write.filterKeys outside⟩

end HeldLocks

/-- `Transaction::State::DatabaseState`: what a transaction holds and did in a database. -/
structure DatabaseState where
  heldLocks : HeldLocks
  writtenBlobs : FlatMap BlobLocation (List UInt8)
  deletedBlobs : FlatSet BlobLocation
  createdBlobs : FlatSet BlobLocation
  deletedClusters : FlatSet (SegmentId ×ₗ ClusterId)
  createdClusters : FlatSet (SegmentId ×ₗ ClusterId)
  deletedSegments : FlatSet SegmentId
  createdSegments : FlatSet SegmentId
  deriving DecidableEq

namespace DatabaseState

/-- The state of a database that the transaction accesses for the first time. -/
def create (stickyLocks : Option HeldLocks) : DatabaseState :=
  ⟨stickyLocks.getD .empty, .empty, .empty, .empty, .empty, .empty, .empty, .empty⟩

/-! ### The order of the writes -/

/-- The order of `GetSortedWritesToTransmit`: what creates segments comes first, in a segment what
creates clusters, and in a cluster what creates blobs. -/
def transmitBefore (a b : BlobLocation) : Bool :=
  if a.segment = nextFreeSegmentId then true
  else if b.segment = nextFreeSegmentId then false
  else if a.segment ≠ b.segment then a.segment < b.segment
  else if a.cluster = nextFreeClusterId then true
  else if b.cluster = nextFreeClusterId then false
  else if a.cluster ≠ b.cluster then a.cluster < b.cluster
  else if a.blob = nextFreeBlobId then true
  else if b.blob = nextFreeBlobId then false
  else a.blob < b.blob

/-- `GetSortedWritesToTransmit`: the written blobs in order, then the deletions. A blob is deleted
without data, clusters and segments by writing nothing to their delete locations. -/
def getSortedWritesToTransmit (state : DatabaseState) : List BlobData :=
  ((state.writtenBlobs.entries.map fun e => (⟨e.1, some e.2⟩ : BlobData)).insertionSort
    fun a b => transmitBefore b.toBlobLocation a.toBlobLocation = false) ++
  (state.deletedBlobs.keys.map fun l => ⟨l, none⟩) ++
  (state.deletedClusters.keys.map fun k => ⟨⟨k.1, k.2, clusterDeleteId⟩, some []⟩) ++
  (state.deletedSegments.keys.map fun k => ⟨⟨k, segmentDeleteId, clusterDeleteId⟩, some []⟩)

/-! ### The messages -/

/-- `DataSize` -/
def dataSize (u : BlobData) : ℕ := (u.data.getD []).length

/-- `TransactionCommit::IsValidMessageSize`: a message has at most 2¹⁶ - 1 blobs and 2³² - 1 bytes,
of which 12 are its header and 16 the header of each blob. -/
def isValidMessageSize (totalBlobsSize nBlobsCommitted : ℕ) : Bool :=
  nBlobsCommitted ≤ 0xffff && 12 + nBlobsCommitted * 16 + totalBlobsSize ≤ 0xffffffff

/-- The writes of each message: as many as fit into it. A message has at least one, since the size
of blobs is limited. -/
def splitWrites (message : List BlobData) : List BlobData → List (List BlobData)
  | [] => if message.isEmpty then [] else [message]
  | u :: us =>
    if message.isEmpty ||
        isValidMessageSize ((message.map dataSize).sum + dataSize u) (message.length + 1) then
      splitWrites (message ++ [u]) us
    else message :: splitWrites [u] us

/-- `ConstructCommitMessages` of a database. -/
def constructCommitMessages (state : DatabaseState) (databaseId : DatabaseId) :
    List TransactionCommit :=
  (splitWrites [] state.getSortedWritesToTransmit).map fun us => ⟨false, databaseId, us⟩

end DatabaseState

/-- `Transaction`: the transaction of one connection, with its state in the databases it accessed. -/
structure Transaction where
  id : ℕ
  forDatabase : FlatMap DatabaseId DatabaseState
  deriving DecidableEq

/-- All but the last message of a commit are followed by another one. -/
def setFollowMessages : List TransactionCommit → List TransactionCommit
  | [] => []
  | m :: ms => { m with hasFollowMessage := !ms.isEmpty } :: setFollowMessages ms

/-- `Transaction::State::ConstructCommitMessages`: without writes there is still one message, for
the first open database, which the source relies on to exist. -/
def Transaction.constructCommitMessages (transaction : Transaction)
    (openedDatabases : List DatabaseId) : Option (List TransactionCommit) :=
  let commitMessages :=
    transaction.forDatabase.entries.flatMap fun e => e.2.constructCommitMessages e.1
  if commitMessages.isEmpty then
    openedDatabases.head?.map fun databaseId => [⟨false, databaseId, []⟩]
  else some (setFollowMessages commitMessages)

/-! ### What the messages of a commit look like -/

/-- The messages of one commit: each but the last is followed by another one. -/
def IsCommit : List TransactionCommit → Prop
  | [] => False
  | m :: ms => m.hasFollowMessage = !ms.isEmpty ∧ (ms = [] ∨ IsCommit ms)

theorem isCommit_setFollowMessages {ms : List TransactionCommit} (h : ms ≠ []) :
    IsCommit (setFollowMessages ms) := by
  induction ms with
  | nil => exact absurd rfl h
  | cons m ms ih =>
    rw [setFollowMessages, IsCommit]
    cases ms with
    | nil => exact ⟨rfl, .inl rfl⟩
    | cons m' ms => exact ⟨rfl, .inr (ih (List.cons_ne_nil m' ms))⟩

theorem isCommit_constructCommitMessages {transaction : Transaction}
    {openedDatabases : List DatabaseId} {ms : List TransactionCommit}
    (h : transaction.constructCommitMessages openedDatabases = some ms) : IsCommit ms := by
  unfold Transaction.constructCommitMessages at h
  dsimp only at h
  split_ifs at h with hempty
  · obtain ⟨databaseId, -, rfl⟩ := Option.map_eq_some_iff.mp h
    exact ⟨rfl, .inl rfl⟩
  · obtain rfl := Option.some.inj h
    exact isCommit_setFollowMessages fun hnil => hempty (by rw [hnil]; rfl)

end ClientLib

end BlobsDb
