import Mathlib.Data.Nat.Notation
import BlobsDb.Config

/-!
# Messages between clients and the server

The requests of clients and the answers of the server, with the fields that the server reads and
writes. Messages are decoded: a list stands for the headers and the data that follow a message.
-/

namespace BlobsDb

abbrev DatabaseId := ℕ

/-- What databases are opened by: the name of a database in memory, or the resolved path of a
file. Names and paths are numbered. -/
inductive DatabaseName
  | mem (name : ℕ)
  | file (path : ℕ)
  deriving DecidableEq

/-! ### Requests -/

inductive OpenMode
  | createIfNotExist
  | openFailIfNotExist
  | createFailIfExist
  | createAlways
  deriving DecidableEq

inductive LockMode
  | none
  | read
  | write
  | delete
  deriving DecidableEq

/-- A location to read, with the commit id of the content the client already has. -/
structure BlobAddress extends BlobLocation where
  cacheCommitId : CommitId
  deriving DecidableEq

structure BlobsRead where
  clientId : ClientId
  databaseId : DatabaseId
  lockMode : LockMode
  lockTimeoutMs : Int
  blobs : List BlobAddress
  deriving DecidableEq

/-- `NeedsWriteLock` -/
def BlobsRead.needsWriteLock (m : BlobsRead) : Bool :=
  m.lockMode = .write || m.lockMode = .delete

/-- `IsDirtyRead` -/
def BlobsRead.isDirtyRead (m : BlobsRead) : Bool := m.lockMode = .none

inductive TxnMode
  | updateKeepStickyLocks
  | updateDiscardStickyLocks
  | mvcc
  deriving DecidableEq

structure TransactionCommit where
  hasFollowMessage : Bool
  databaseId : DatabaseId
  blobs : List BlobData
  deriving DecidableEq

/-! ### Answers -/

inductive DatabaseOpenResponse.Result
  | success
  | databaseOpenFailed
  | databaseAlreadyOpen
  | tooManyDatabasesOpen
  | databaseDoesNotExist
  | databaseAlreadyExists
  | cannotOverwriteOpenDatabase
  deriving DecidableEq

inductive DatabaseCloseResponse.Result
  | success
  | transactionInProgress
  | databaseNotOpen
  deriving DecidableEq

inductive TransactionBeginResponse.Result
  | success
  | errorAlreadyInTransaction
  | errorInvalidDatabase
  deriving DecidableEq

/-- The locks a client may keep in a database, or those it has to give up. -/
structure DatabaseStickyLocks where
  databaseId : DatabaseId
  keep : Bool
  locks : List BlobLocation
  deriving DecidableEq

inductive BlobsReadResponse.Result
  | success
  | blobDoesNotExist
  | clusterDoesNotExist
  | segmentDoesNotExist
  | databaseNotOpened
  | noTransactionInProgress
  | cannotWriteLockInMVCC
  | lockTimeout
  | deadlock
  deriving DecidableEq

/-- A location with its commit id and content. -/
structure BlobsReadResponse.BlobData extends BlobLocation where
  commitId : CommitId
  content : List UInt8
  deriving DecidableEq

structure BlobsReadResponse where
  result : BlobsReadResponse.Result
  blobs : List BlobsReadResponse.BlobData
  hasFollowMessage : Bool
  deriving DecidableEq

/-- `BlobsReadResponse::CreateError` -/
def BlobsReadResponse.createError (result : BlobsReadResponse.Result) : BlobsReadResponse :=
  ⟨result, [], false⟩

/-- `BlobsReadResponse::FitsIntoMessage`: a message has at most 2³² - 1 bytes, of which 12 are its
header and 24 the header of each blob. -/
def BlobsReadResponse.fitsIntoMessage (totalBlobsSize nBlobs : ℕ) : Bool :=
  12 + 24 * nBlobs + totalBlobsSize ≤ 0xffffffff

inductive TransactionCommitResponse.Result
  | success
  | databaseNotOpened
  | databaseOrderViolated
  | missingWriteLock
  | noTransactionInProgress
  | segmentDoesNotExist
  | clusterDoesNotExist
  | blobDoesNotExist
  | illegalNextFreeBlobId
  | illegalNextFreeClusterId
  | illegalNextFreeSegmentId
  | cannotCommitMVCCDatabase
  deriving DecidableEq

/-- What the server sends to a client. -/
inductive Response
  | databaseOpen (result : DatabaseOpenResponse.Result) (databaseId : DatabaseId)
  | databaseClose (result : DatabaseCloseResponse.Result)
  | transactionBegin (result : TransactionBeginResponse.Result) (locks : List DatabaseStickyLocks)
  | blobsRead (response : BlobsReadResponse)
  | transactionCommit (result : TransactionCommitResponse.Result)
      (commits : List (DatabaseId × CommitId))
  deriving DecidableEq

end BlobsDb
