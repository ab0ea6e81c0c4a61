import BlobsDb.ForMathlib.LockBook
import BlobsDb.Server.Answering
import BlobsDb.Server.Validating

/-!
# The server

The server handles one message of one client after another. Its state is the state of its
clients, the databases that are open, and the files. The locks of a database, and what the
clients know of their locks in it, are kept with the database.

A handler has no answer when an object cannot be loaded from its file, when the source uses an
object that is missing, or when a limit of the file format is exceeded. What the handlers send is
gathered in `Server.sent`.
-/

namespace BlobsDb

/-- A database in use, with its locks and the reads that wait for locks. -/
structure OpenDatabase where
  database : Database
  locks : LockBook BlobLocation ClientId
  queuedReads : List BlobsRead
  useCount : ℕ

/-- An entry of the list of databases a client opened; entries of closed databases are reused. -/
structure DatabaseSlot where
  database : Option DatabaseName
  isMVCC : Bool
  deriving DecidableEq

/-- `Client`: what the server knows of a client, apart from its locks. -/
structure Client where
  connected : Bool
  commitMessages : List TransactionCommit
  openDatabases : List DatabaseSlot
  transactionPriority : Int
  hasTransaction : Bool
  deriving DecidableEq

instance : Inhabited Client := ⟨⟨false, [], [], 0, false⟩⟩

/-- The state of the server. Ids that no client ever had have an empty entry; the entry of a client
stays when its connection is closed. -/
structure Server where
  clients : ClientId → Client
  databases : DatabaseName → Option OpenDatabase
  files : DatabaseName → Option FileContent
  databaseCloseDelay : ℕ
  sent : List (ClientId × Response)

/-- `AbortClientTransaction`, for the reads in the queue. -/
def OpenDatabase.dropReads (c : ClientId) (od : OpenDatabase) : OpenDatabase :=
  { od with queuedReads := od.queuedReads.filter fun m => m.clientId ≠ c }

namespace Database

/-- The active snapshot or the one kept for readers. -/
def snapshotFor (db : Database) (mvcc : Bool) : Option Pointer :=
  if mvcc then db.mvccSnapshot else some db.snapshot

/-- `CalculateCommitResult` and `ApplyToDatabase`: the database after the entries of a commit, and
what the commit deleted. The schedule has to walk the blocks of the commit. -/
def commit (db : Database) (us : List BlobData) (σ : Schedule) : Option (Database × Deleted) :=
  match db.calculateCommitResult us σ with
  | none => none
  | some r =>
    if db.commitId + 1 < unknownCommitId ∧
        (∀ δ ∈ r.delta, σ.allocatedOrder.Perm δ.allocatedBlocks ∧
          σ.releasedOrder.Perm δ.releasedBlocks ∧
          σ.storedOrder.Perm (none :: δ.allocatedBlocks.map some)) ∧
        ∀ L ∈ r.freeList, L.endOffset < 2 ^ 64 then
      some (db.applyToDatabase r σ, r.deleted)
    else none

end Database

namespace Server

/-! ### Access to the state -/

def setClient (s : Server) (c : ClientId) (client : Client) : Server :=
  { s with clients := Function.update s.clients c client }

def setDatabase (s : Server) (name : DatabaseName) (od : OpenDatabase) : Server :=
  { s with databases := Function.update s.databases name (some od) }

/-- `SendMessageToClient` -/
def send (s : Server) (c : ClientId) (r : Response) : Server :=
  { s with sent := s.sent ++ [(c, r)] }

def sendError (s : Server) (c : ClientId) (result : BlobsReadResponse.Result) : Server :=
  s.send c (.blobsRead (.createError result))

/-- `IsInsideTransaction`: whose locks are in force. -/
def active (s : Server) (c : ClientId) : Bool := (s.clients c).hasTransaction

/-- `GetDatabase`: the database a client knows by an id. -/
def getDatabase (s : Server) (c : ClientId) (id : DatabaseId) : Option DatabaseName :=
  match (s.clients c).openDatabases[id]? with
  | none => none
  | some slot => slot.database

/-- `IsDatabaseMVCC` -/
def isDatabaseMVCC (s : Server) (c : ClientId) (id : DatabaseId) : Bool :=
  match (s.clients c).openDatabases[id]? with
  | none => false
  | some slot => slot.isMVCC

/-- The databases a client has opened, in the order of their ids. -/
def openNames (s : Server) (c : ClientId) : List DatabaseName :=
  (s.clients c).openDatabases.filterMap DatabaseSlot.database

/-- Changes an open database. -/
def updateDatabase (f : OpenDatabase → Option OpenDatabase) (s : Server) (name : DatabaseName) :
    Option Server :=
  match s.databases name with
  | none => none
  | some od =>
    match f od with
    | none => none
    | some od => some (s.setDatabase name od)

/-! ### Opening and closing -/

/-- `Database::Close` -/
def closeDatabase (s : Server) (name : DatabaseName) : Server :=
  match s.databases name with
  | none => s
  | some od =>
    { s with
      databases := Function.update s.databases name none
      files :=
        match od.database.storage with
        | none => s.files
        | some storage => Function.update s.files name (some storage.file) }

/-- `Database::Release`: closes a database nobody uses any more, unless it is to stay for a
while. -/
def release (s : Server) (name : DatabaseName) : Option Server :=
  match s.databases name with
  | none => none
  | some od =>
    let s := s.setDatabase name { od with useCount := od.useCount - 1 }
    some (if od.useCount - 1 = 0 ∧ s.databaseCloseDelay = 0 then s.closeDatabase name else s)

/-- `LoadFromFile` and `InitializeInMemory`: the database behind a name that is not open. A file
that has to be created gets its initial content, and one that cannot be read is refused. -/
def load (s : Server) (name : DatabaseName) (mode : OpenMode) :
    Option (DatabaseOpenResponse.Result × Option Database) :=
  match name with
  | .mem _ =>
    if mode = .openFailIfNotExist then some (.databaseDoesNotExist, none)
    else some (.success, some .initializeInMemory)
  | .file _ =>
    match s.files name, mode with
    | none, .openFailIfNotExist => some (.databaseDoesNotExist, none)
    | some _, .createFailIfExist => some (.databaseAlreadyExists, none)
    | none, _ | some _, .createAlways =>
      (Database.readInitialFileDatabaseData Database.initializeDatabaseFile).map fun db =>
        (.success, some db)
    | some f, _ =>
      match Database.readInitialFileDatabaseData f with
      | none => some (.databaseOpenFailed, none)
      | some db => some (.success, some db)

/-- `Database::Open`. A file has one name here: that another path may resolve to the same file is the
subject of `Registry`. -/
def openDatabase (s : Server) (name : DatabaseName) (mode : OpenMode) :
    Option (DatabaseOpenResponse.Result × Server) :=
  let create (s : Server) : Option (DatabaseOpenResponse.Result × Server) :=
    match s.load name mode with
    | none => none
    | some (result, none) => some (result, s)
    | some (result, some db) => some (result, s.setDatabase name ⟨db, .empty, [], 1⟩)
  match s.databases name with
  | none => create s
  | some od =>
    match mode with
    | .createAlways =>
      if 0 < od.useCount then some (.cannotOverwriteOpenDatabase, s)
      else create (s.closeDatabase name)
    | .createFailIfExist => some (.databaseAlreadyExists, s)
    | _ => some (.success, s.setDatabase name { od with useCount := od.useCount + 1 })

/-- `Client::OpenDatabase`: the id of the entry the database gets, and the entries. -/
def enterDatabase (slots : List DatabaseSlot) (slot : DatabaseSlot) :
    Option (DatabaseId × List DatabaseSlot) :=
  match slots.findIdx? fun e => e.database.isNone with
  | some id => some (id, slots.set id slot)
  | none => if slots.length = 254 then none else some (slots.length, slots ++ [slot])

/-- `HandleDatabaseOpen` -/
def handleDatabaseOpen (c : ClientId) (name : DatabaseName) (mode : OpenMode) (mvcc : Bool)
    (s : Server) : Option Server :=
  match s.openDatabase name mode with
  | none => none
  | some (.success, s) =>
    if name ∈ s.openNames c then
      (s.send c (.databaseOpen .databaseAlreadyOpen 0)).release name
    else
      match enterDatabase (s.clients c).openDatabases ⟨some name, mvcc⟩ with
      | none => (s.send c (.databaseOpen .tooManyDatabasesOpen 0)).release name
      | some (id, slots) =>
        let s := s.setClient c { s.clients c with openDatabases := slots }
        let s := s.send c (.databaseOpen .success id)
        if (s.clients c).hasTransaction ∧ mvcc then
          s.updateDatabase (fun od => some { od with database := od.database.beginMVCC }) name
        else some s
  | some (result, s) => some (s.send c (.databaseOpen result 0))

/-- `Client::CloseDatabase` -/
def clientCloseDatabase (c : ClientId) (s : Server) (id : DatabaseId) : Option Server :=
  match s.getDatabase c id with
  | none => none
  | some name =>
    let releaseAll (od : OpenDatabase) : Option OpenDatabase :=
      (od.locks.releaseAll c).map fun book => OpenDatabase.dropReads c { od with locks := book }
    match s.updateDatabase releaseAll name with
    | none => none
    | some s =>
      let client := s.clients c
      let slot : DatabaseSlot := ⟨none, s.isDatabaseMVCC c id⟩
      (s.setClient c { client with openDatabases := client.openDatabases.set id slot }).release name

/-- `HandleDatabaseClose` -/
def handleDatabaseClose (c : ClientId) (id : DatabaseId) (s : Server) : Option Server :=
  if s.active c then some (s.send c (.databaseClose .transactionInProgress))
  else
    match s.getDatabase c id with
    | none => some (s.send c (.databaseClose .databaseNotOpen))
    | some _ => (s.clientCloseDatabase c id).map fun s => s.send c (.databaseClose .success)

/-- `CloseAllDatabases` -/
def closeAllDatabases (c : ClientId) (s : Server) : Option Server :=
  (List.range (s.clients c).openDatabases.length).foldlM (fun s id =>
    if (s.getDatabase c id).isSome then s.clientCloseDatabase c id else some s) s

/-! ### Reads -/

/-- `Client::AcquireLocks` and `Database::AcquireLocks`: all locks of a read, or none. -/
def acquireLocks (active : ClientId → Bool) (m : BlobsRead) (t : Tree 3) (od : OpenDatabase) :
    Option (Bool × OpenDatabase) :=
  let canAcquire (l : BlobLocation) (db : Database) : Option (Bool × Database) :=
    some (od.locks.canAcquire active m.clientId l m.needsWriteLock, db)
  match allLocksInMessage t canAcquire (fun path db => db.loadPath db.snapshot path) m.blobs
    od.database with
  | none => none
  | some (false, db) => some (false, { od with database := db })
  | some (true, db) =>
    match forEachLockInMessage t m.blobs with
    | none => none
    | some ls =>
      some (true, { od with
        database := db, locks := od.locks.acquireLocks m.clientId m.needsWriteLock ls })

/-- `BuildAndSendBlobsReadResponse` -/
def sendBlobs (s : Server) (m : BlobsRead) (db : Database) (snapshot : Pointer) : Option Server :=
  (buildBlobsReadResponse db.heap snapshot m).map fun rs =>
    rs.foldl (fun s r => s.send m.clientId (.blobsRead r)) s

/-- `TryHandleBlobsRead`: whether the read is answered. -/
def tryHandleBlobsRead (m : BlobsRead) (s : Server) : Option (Bool × Server) :=
  let c := m.clientId
  match s.getDatabase c m.databaseId with
  | none => some (true, s.sendError c .databaseNotOpened)
  | some name =>
    if !m.isDirtyRead && !s.active c then some (true, s.sendError c .noTransactionInProgress)
    else
      let isMVCC := !m.isDirtyRead && s.isDatabaseMVCC c m.databaseId
      if isMVCC && m.needsWriteLock then some (true, s.sendError c .cannotWriteLockInMVCC)
      else
        match s.databases name with
        | none => none
        | some od =>
          match od.database.snapshotFor isMVCC with
          | none => none
          | some snapshot =>
            match od.database.tree snapshot with
            | none => none
            | some t =>
              match Database.ensureRequestedBlobsExist snapshot t m.lockMode m.blobs od.database with
              | none => none
              | some (some error, db) =>
                some (true, (s.setDatabase name { od with database := db }).sendError c error)
              | some (none, db) =>
                if m.isDirtyRead || isMVCC then
                  ((s.setDatabase name { od with database := db }).sendBlobs m db snapshot).map
                    fun s => (true, s)
                else
                  match acquireLocks s.active m t { od with database := db } with
                  | none => none
                  | some (false, od) => some (false, s.setDatabase name od)
                  | some (true, od) =>
                    ((s.setDatabase name od).sendBlobs m od.database snapshot).map fun s => (true, s)

/-- One pass over queued reads: those that stay in the queue. -/
def processQueuedReads : List BlobsRead → Server → Option (List BlobsRead × Server)
  | [], s => some ([], s)
  | m :: ms, s =>
    match s.tryHandleBlobsRead m with
    | none => none
    | some (true, s) => processQueuedReads ms s
    | some (false, s) => (processQueuedReads ms s).map fun r => (m :: r.1, r.2)

/-- `TryProcessQueuedReads` -/
def tryProcessQueuedReads (s : Server) (name : DatabaseName) : Option Server :=
  match s.databases name with
  | none => none
  | some od =>
    match processQueuedReads od.queuedReads s with
    | none => none
    | some (queue, s) => s.updateDatabase (fun od => some { od with queuedReads := queue }) name

/-! ### The end of a transaction -/

/-- What the end of a transaction does in one of the client's databases. -/
def leaveDatabase (c : ClientId) (releaseAllLocks : Bool) (s : Server) (slot : DatabaseSlot) :
    Option Server :=
  match slot.database with
  | none => some s
  | some name =>
    s.updateDatabase (fun od =>
      (if releaseAllLocks then od.locks.releaseHeld c else some od.locks).map fun book =>
        OpenDatabase.dropReads c { od with
          locks := book
          database := if slot.isMVCC then od.database.endMVCC else od.database }) name

/-- `Client::AbortTransaction`, inside a transaction. -/
def clientAbortTransaction (c : ClientId) (releaseAllLocks : Bool) (s : Server) : Option Server :=
  ((s.clients c).openDatabases.foldlM (leaveDatabase c releaseAllLocks) s).map fun s =>
    s.setClient c { s.clients c with hasTransaction := false }

/-- `AbortTransaction`: ends a transaction, if there is one, and tries the queued reads of the
client's databases again. -/
def abortTransaction (c : ClientId) (releaseAllLocks : Bool) (s : Server) : Option Server :=
  if s.active c then
    match s.clientAbortTransaction c releaseAllLocks with
    | none => none
    | some s => (s.openNames c).foldlM tryProcessQueuedReads s
  else some s

/-! ### Waiting for locks -/

/-- `CollectLockConflicts`: who keeps a read from its locks. -/
def collectLockConflicts (active : ClientId → Bool) (m : BlobsRead) (t : Tree 3)
    (od : OpenDatabase) : Option (List ClientId) :=
  (forEachLockInMessage t m.blobs).map fun ls =>
    ls.flatMap (od.locks.conflicts active m.clientId m.needsWriteLock)

/-- `FindLockConflictWith`: a client keeps a read from its locks. -/
def findLockConflictWith (active : ClientId → Bool) (m : BlobsRead) (t : Tree 3)
    (od : OpenDatabase) (c : ClientId) : Option Bool :=
  (collectLockConflicts active m t od).map fun cs => decide (c ∈ cs)

/-- `QueueReadCheckDeadlock`, the check: the clients that wait in the queue for the client of the
read, which in turn waits for them. -/
def deadlocks (active : ClientId → Bool) (m : BlobsRead) (t : Tree 3) (od : OpenDatabase)
    (blockedBy : List ClientId) : List BlobsRead → List ClientId → Option (List ClientId)
  | [], found => some found
  | q :: qs, found =>
    if q.clientId ∈ found ∨ q.clientId ∉ blockedBy then deadlocks active m t od blockedBy qs found
    else
      match findLockConflictWith active q t od m.clientId with
      | none => none
      | some true => deadlocks active m t od blockedBy qs (found ++ [q.clientId])
      | some false => deadlocks active m t od blockedBy qs found

/-- `QueueReadCheckDeadlock` -/
def queueReadCheckDeadlock (m : BlobsRead) (name : DatabaseName) (s : Server) :
    Option (List ClientId × Server) :=
  match s.databases name with
  | none => none
  | some od =>
    match od.database.tree od.database.snapshot with
    | none => none
    | some t =>
      match collectLockConflicts s.active m t od with
      | none => none
      | some blockedBy =>
        match deadlocks s.active m t od blockedBy od.queuedReads [] with
        | none => none
        | some found =>
          some (found, s.setDatabase name { od with queuedReads := od.queuedReads ++ [m] })

/-- Ends the transaction of a victim of a deadlock. -/
def abortVictim (s : Server) (c : ClientId) : Option Server :=
  (s.sendError c .deadlock).abortTransaction c false

/-- `HandleBlobsRead`. Of the clients of a deadlock, the one whose read closes it is the victim,
unless its priority is higher than that of all the others, who are victims then. -/
def handleBlobsRead (m : BlobsRead) (s : Server) : Option Server :=
  match s.tryHandleBlobsRead m with
  | none => none
  | some (true, s) => some s
  | some (false, s) =>
    if m.lockTimeoutMs = 0 then some (s.sendError m.clientId .lockTimeout)
    else
      match s.getDatabase m.clientId m.databaseId with
      | none => none
      | some name =>
        match s.queueReadCheckDeadlock m name with
        | none => none
        | some (victims, s) =>
          let priority := (s.clients m.clientId).transactionPriority
          if victims.isEmpty then some s
          else if victims.any fun c => priority ≤ (s.clients c).transactionPriority then
            s.abortVictim m.clientId
          else victims.foldlM abortVictim s

/-- `CheckForLockTimeouts`: some of the reads with a timeout are due. -/
def checkForLockTimeouts (name : DatabaseName) (due : BlobsRead → Bool) (s : Server) :
    Option Server :=
  match s.databases name with
  | none => some s
  | some od =>
    let timedOut (m : BlobsRead) : Bool := 0 < m.lockTimeoutMs && due m
    let s := (od.queuedReads.filter timedOut).foldl
      (fun s m => s.sendError m.clientId .lockTimeout) s
    some (s.setDatabase name
      { od with queuedReads := od.queuedReads.filter fun m => !timedOut m })

/-! ### Beginning and committing transactions -/

/-- An entry of `TransactionBegin`: the client may give up its locks, and chooses how it reads. -/
def setTxnMode (c : ClientId) (s : Server) (name : DatabaseName) (id : DatabaseId)
    (mode : TxnMode) : Option Server :=
  let released : Option Server :=
    if mode ≠ .updateKeepStickyLocks then
      s.updateDatabase (fun od => (od.locks.releaseAll c).map fun book =>
        { od with locks := book }) name
    else some s
  released.map fun s =>
    let client := s.clients c
    s.setClient c { client with
      openDatabases := client.openDatabases.set id ⟨some name, mode = .mvcc⟩ }

/-- The entries of `TransactionBegin`, up to the first with an id that is not in use. -/
def setTxnModes (c : ClientId) : List (DatabaseId × TxnMode) → Server → Option (Bool × Server)
  | [], s => some (true, s)
  | e :: es, s =>
    match s.getDatabase c e.1 with
    | none => some (false, s)
    | some name =>
      match s.setTxnMode c name e.1 e.2 with
      | none => none
      | some s => setTxnModes c es s

/-- `Client::BeginTransaction` -/
def clientBeginTransaction (c : ClientId) (priority : Int) (s : Server) : Option Server :=
  let client := s.clients c
  (client.openDatabases.foldlM (fun s slot =>
    match slot.database, slot.isMVCC with
    | some name, true =>
      s.updateDatabase (fun od => some { od with database := od.database.beginMVCC }) name
    | _, _ => some s)
    (s.setClient c { client with hasTransaction := true, transactionPriority := priority }))

/-- The part of `ConstructTransactionBeginResponse` for one database: the client is told what it
may keep or what it lost, whichever is shorter. -/
def tellLocks (c : ClientId) (r : List DatabaseStickyLocks × Server)
    (e : DatabaseId × DatabaseName) : Option (List DatabaseStickyLocks × Server) :=
  match r.2.databases e.2 with
  | none => none
  | some od =>
    let book := od.locks.applyRevokedLocks c
    let keep : Bool := (book.held c).length ≤ (book.revoked c).length
    some (r.1 ++ [⟨e.1, keep, if keep then book.held c else book.revoked c⟩],
      r.2.setDatabase e.2 { od with locks := book.clearRevoked c })

/-- `ConstructTransactionBeginResponse`. The source asserts that no more locks are told than a message
can name; that is about the bytes of the message, and the server goes on alike. -/
def constructTransactionBeginResponse (c : ClientId) (s : Server) :
    Option (List DatabaseStickyLocks × Server) :=
  ((s.clients c).openDatabases.zipIdx.filterMap fun e =>
    e.1.database.map fun name => (e.2, name)).foldlM (tellLocks c) ([], s)

/-- `HandleTransactionBegin` -/
def handleTransactionBegin (c : ClientId) (priority : Int)
    (modes : List (DatabaseId × TxnMode)) (s : Server) : Option Server :=
  if s.active c then some (s.send c (.transactionBegin .errorAlreadyInTransaction []))
  else
    match s.setTxnModes c modes with
    | none => none
    | some (false, s) => some (s.send c (.transactionBegin .errorInvalidDatabase []))
    | some (true, s) =>
      match s.clientBeginTransaction c priority with
      | none => none
      | some s =>
        (s.constructTransactionBeginResponse c).map fun r =>
          r.2.send c (.transactionBegin .success r.1)

/-- `HandleTransactionAbort` -/
def handleTransactionAbort (c : ClientId) (s : Server) : Option Server := s.abortTransaction c false

/-- `ValidateCommitMessages`: the result, and the locks each database grants implicitly. -/
def validateCommitMessages (c : ClientId) :
    List (DatabaseId × List TransactionCommit) → Server →
    Option (TransactionCommitResponse.Result × List (DatabaseId × List BlobLocation) × Server)
  | [], s => some (.success, [], s)
  | g :: gs, s =>
    match s.getDatabase c g.1 with
    | none => some (.databaseNotOpened, [], s)
    | some name =>
      match s.databases name with
      | none => none
      | some od =>
        match od.database.validateCommitMessages (od.locks.ownsWriteLock c)
          (s.isDatabaseMVCC c g.1) g.2 with
        | none => none
        | some (.success, db, ls) =>
          (validateCommitMessages c gs (s.setDatabase name { od with database := db })).map
            fun r => (r.1, (g.1, ls) :: r.2.1, r.2.2)
        | some (result, db, _) => some (result, [], s.setDatabase name { od with database := db })

/-- What a commit does to one database: its entries are applied, the client gets the locks of
what it created and loses those of what it deleted. -/
def commitDatabase (c : ClientId) (us : List BlobData) (σ : Schedule) (ls : List BlobLocation)
    (od : OpenDatabase) : Option OpenDatabase :=
  match od.database.commit us σ with
  | none => none
  | some (db, deleted) =>
    ((od.locks.acquireImplicitWriteLocks c ls).releaseIf c deleted.isDeleted).map fun book =>
      { od with database := db, locks := book }

/-- The databases of a commit, one after another, with the new commit id of each. -/
def commitDatabases (c : ClientId) (σ : DatabaseName → Schedule) :
    List ((DatabaseId × List TransactionCommit) × List BlobLocation) → Server →
    Option (List (DatabaseId × CommitId) × Server)
  | [], s => some ([], s)
  | (g, ls) :: gs, s =>
    match s.getDatabase c g.1 with
    | none => none
    | some name =>
      match s.databases name with
      | none => none
      | some od =>
        match commitDatabase c (g.2.flatMap TransactionCommit.blobs) (σ name) ls od with
        | none => none
        | some od =>
          (commitDatabases c σ gs (s.setDatabase name od)).map fun r =>
            ((g.1, od.database.commitId) :: r.1, r.2)

/-- The end of a commit: the messages are validated and applied, or rejected. -/
def finishCommit (c : ClientId) (σ : DatabaseName → Schedule) (ms : List TransactionCommit)
    (s : Server) : Option Server :=
  let clear (s : Server) : Server := s.setClient c { s.clients c with commitMessages := [] }
  let reject (result : TransactionCommitResponse.Result) (s : Server) : Option Server :=
    (clear (s.send c (.transactionCommit result []))).abortTransaction c true
  match groupByDatabase [] ms with
  | none => reject .databaseOrderViolated s
  | some gs =>
    match s.validateCommitMessages c gs with
    | none => none
    | some (.success, ls, s) =>
      match (clear s).commitDatabases c σ (gs.zip (ls.map Prod.snd)) with
      | none => none
      | some (commits, s) => (s.send c (.transactionCommit .success commits)).abortTransaction c false
    | some (result, _, s) => reject result s

/-- `HandleTransactionCommit`: a message is put to those received before; the last one of a
commit finishes it. -/
def handleTransactionCommit (c : ClientId) (m : TransactionCommit) (σ : DatabaseName → Schedule)
    (s : Server) : Option Server :=
  if !s.active c then some (s.send c (.transactionCommit .noTransactionInProgress []))
  else
    let ms := (s.clients c).commitMessages ++ [m]
    let s := s.setClient c { s.clients c with commitMessages := ms }
    if m.hasFollowMessage then some s else s.finishCommit c σ ms

/-! ### Runs -/

/-- What the server has to deal with: messages of clients, connections, and tasks that are due. -/
inductive Event
  | connectionOpened (c : ClientId)
  | connectionClosed (c : ClientId)
  | databaseOpen (c : ClientId) (name : DatabaseName) (mode : OpenMode) (mvcc : Bool)
  | databaseClose (c : ClientId) (id : DatabaseId)
  | blobsRead (m : BlobsRead)
  | transactionBegin (c : ClientId) (priority : Int) (modes : List (DatabaseId × TxnMode))
  | transactionAbort (c : ClientId)
  | transactionCommit (c : ClientId) (m : TransactionCommit) (σ : DatabaseName → Schedule)
  | lockTimeouts (name : DatabaseName) (due : BlobsRead → Bool)
  /-- The task of a database that is still registered runs; tasks that outlive their database are the
  subject of `DelayedClose`. -/
  | delayedClose (name : DatabaseName)

/-- The client of a message. -/
def Event.sender : Event → Option ClientId
  | connectionOpened _ | lockTimeouts _ _ | delayedClose _ => none
  | connectionClosed c | databaseOpen c _ _ _ | databaseClose c _ | transactionBegin c _ _
  | transactionAbort c | transactionCommit c _ _ => some c
  | blobsRead m => some m.clientId

/-- `HandleConnectionClosed` -/
def handleConnectionClosed (c : ClientId) (s : Server) : Option Server :=
  match s.abortTransaction c true with
  | none => none
  | some s =>
    (s.closeAllDatabases c).map fun s => s.setClient c { s.clients c with connected := false }

/-- The step of the server for an event. Ids are used again after a connection was closed, and
`ClientConnected` does not replace the entry that is there: the new client finds what the old one
left. -/
def handle (e : Event) (s : Server) : Option Server :=
  match e with
  | .connectionOpened c => some (s.setClient c { s.clients c with connected := true })
  | .connectionClosed c => s.handleConnectionClosed c
  | .databaseOpen c name mode mvcc => s.handleDatabaseOpen c name mode mvcc
  | .databaseClose c id => s.handleDatabaseClose c id
  | .blobsRead m => s.handleBlobsRead m
  | .transactionBegin c priority modes => s.handleTransactionBegin c priority modes
  | .transactionAbort c => s.handleTransactionAbort c
  | .transactionCommit c m σ => s.handleTransactionCommit c m σ
  | .lockTimeouts name due => s.checkForLockTimeouts name due
  | .delayedClose name =>
    match s.databases name with
    | none => some s
    | some od => some (if od.useCount = 0 then s.closeDatabase name else s)

/-- One step of a run: messages come from connected clients. -/
def Step (s : Server) (e : Event) (s' : Server) : Prop :=
  (∀ c ∈ e.sender, (s.clients c).connected = true) ∧ s.handle e = some s'

/-- A server that was just started, over files that earlier runs left. -/
def start (files : DatabaseName → Option FileContent) (databaseCloseDelay : ℕ) : Server :=
  ⟨fun _ => default, fun _ => none, files, databaseCloseDelay, []⟩

end Server

end BlobsDb
