import BlobsDb.Server.Events
import BlobsDb.Storage.Running

/-!
# Writes that fail

The writes to the file of a commit may fail. The source notices this, but goes on: the snapshot
and the free list of the commit replace the ones in memory, and the client is told that the commit
was successful. When the write of the header fails, the old root is made active again in memory,
which then refers to blocks that the new free list gives to the next commits.
-/

namespace BlobsDb

/-- A write that fails leaves in the file what it wrote before it failed. -/
def FileWrite.attempt (w : FileWrite) : Option ℕ → FileWrite
  | none => w
  | some n => { w with bytes := w.bytes.take n }

/-- How the writes of a commit turn out: how many bytes the block writes and the write of the
header wrote, if they failed. -/
structure WriteOutcome where
  block : ℕ → Option ℕ
  header : Option ℕ

namespace WriteOutcome

/-- All writes are successful. -/
def success : WriteOutcome := ⟨fun _ => none, none⟩

/-- One of so many block writes, or the write of the header, fails. -/
def Fails (o : WriteOutcome) (nBlocks : ℕ) : Prop :=
  (∃ i < nBlocks, (o.block i).isSome) ∨ o.header.isSome

end WriteOutcome

namespace Storage

variable (s : Storage) (r : CommitResult) (L : FreeList) (σ : Schedule) (o : WriteOutcome)

/-- The storage after a commit of which some writes may have failed. The root of the commit is
made active before the header is written, and the old one again if that fails. -/
def afterWrites : Storage where
  file := (s.file.writeAll ((blockWrites r L σ).zipIdx.map fun e => e.1.attempt (o.block e.2))
    ).writeFromMemory ((headerWrite (s.newHeader r L)).attempt o.header)
  fileHeader :=
    match o.header with
    | none => s.newHeader r L
    | some _ => { s.newHeader r L with rootIndex := 1 - (s.newHeader r L).rootIndex }
  freeList := L

theorem afterWrites_success : s.afterWrites r L σ .success = s.afterCommit r L σ := by
  have hmap : ((blockWrites r L σ).zipIdx.map fun e =>
      e.1.attempt (WriteOutcome.success.block e.2)) = blockWrites r L σ :=
    List.zipIdx_map_fst 0 _
  rw [afterWrites, hmap]
  rfl

/-- When the header is not written, the root that was active before stays active. -/
theorem root_afterWrites {n : ℕ} (ho : o.header = some n) :
    (s.afterWrites r L σ o).fileHeader.rootIndex = s.fileHeader.rootIndex ∧
      (s.afterWrites r L σ o).fileHeader.roots s.fileHeader.rootIndex =
        s.fileHeader.roots s.fileHeader.rootIndex := by
  unfold afterWrites
  rw [ho]
  dsimp only [newHeader, FileHeader.switchRoot]
  constructor
  · generalize s.fileHeader.rootIndex = i
    revert i
    decide
  · refine Function.update_of_ne ?_ _ _
    generalize s.fileHeader.rootIndex = i
    revert i
    decide

end Storage

namespace Database

/-- `ApplyToDatabase` when writes may fail. -/
def applyWrites (db : Database) (r : CommitResult) (σ : Schedule) (o : WriteOutcome) : Database :=
  { db with
    heap := r.heap
    snapshot := r.snapshot
    storage :=
      match db.storage, r.freeList with
      | some s, some L => some (s.afterWrites r L σ o)
      | storage, _ => storage }

/-- The database after the entries of a commit of which writes may fail, and what the commit
deleted. -/
def commitWrites (db : Database) (us : List BlobData) (σ : Schedule) (o : WriteOutcome) :
    Option (Database × Deleted) :=
  match db.calculateCommitResult us σ with
  | none => none
  | some r =>
    if db.commitId + 1 < unknownCommitId ∧
        (∀ δ ∈ r.delta, σ.allocatedOrder.Perm δ.allocatedBlocks ∧
          σ.releasedOrder.Perm δ.releasedBlocks ∧
          σ.storedOrder.Perm (none :: δ.allocatedBlocks.map some)) ∧
        ∀ L ∈ r.freeList, L.endOffset < 2 ^ 64 then
      some (db.applyWrites r σ o, r.deleted)
    else none

theorem commitWrites_success (db : Database) (us : List BlobData) (σ : Schedule) :
    db.commitWrites us σ .success = db.commit us σ := by
  have happly : ∀ r, db.applyWrites r σ .success = db.applyToDatabase r σ := fun r => by
    unfold applyWrites applyToDatabase
    cases db.storage with
    | none => rfl
    | some s =>
      cases r.freeList with
      | none => rfl
      | some L =>
        dsimp only
        rw [Storage.afterWrites_success]
  unfold commitWrites commit
  cases db.calculateCommitResult us σ with
  | none => rfl
  | some r =>
    dsimp only
    rw [happly]

/-- In memory, a commit looks the same whether its writes fail or not. -/
theorem applyWrites_memory (db : Database) (r : CommitResult) (σ : Schedule) (o : WriteOutcome) :
    (db.applyWrites r σ o).heap = r.heap ∧ (db.applyWrites r σ o).snapshot = r.snapshot ∧
      ∀ s L, db.storage = some s → r.freeList = some L →
        ∃ s', (db.applyWrites r σ o).storage = some s' ∧ s'.freeList = L := by
  refine ⟨rfl, rfl, fun s L hs hL => ⟨s.afterWrites r L σ o, ?_, rfl⟩⟩
  unfold applyWrites
  dsimp only
  rw [hs, hL]

/-- The snapshot and the free list in memory are those of the active root, and the file reads as
the database is in memory. -/
def MatchesFile (db : Database) : Prop :=
  ∀ s, db.storage = some s → s.fileHeader.roots s.fileHeader.rootIndex =
      ⟨db.heap.fileLocation 3 db.snapshot, s.freeList.fileLocation⟩ ∧
    ∃ db₀, readInitialFileDatabaseData s.file = some db₀ ∧ db₀.content = db.content

end Database

namespace Server

variable {s s' : Server} {c : ClientId} {ms : List TransactionCommit}
  {commit : DatabaseName → Database → List BlobData → Schedule → Option (Database × Deleted)}

/-- What a commit does to one database, with any way to apply its entries. -/
def commitDatabaseWith (commit : Database → List BlobData → Schedule → Option (Database × Deleted))
    (c : ClientId) (us : List BlobData) (σ : Schedule) (ls : List BlobLocation)
    (od : OpenDatabase) : Option OpenDatabase :=
  match commit od.database us σ with
  | none => none
  | some (db, deleted) =>
    ((od.locks.acquireImplicitWriteLocks c ls).releaseIf c deleted.isDeleted).map fun book =>
      { od with database := db, locks := book }

/-- The databases of a commit, one after another, with any way to apply the entries. -/
def commitDatabasesWith
    (commit : DatabaseName → Database → List BlobData → Schedule → Option (Database × Deleted))
    (c : ClientId) (σ : DatabaseName → Schedule) :
    List ((DatabaseId × List TransactionCommit) × List BlobLocation) → Server →
    Option (List (DatabaseId × CommitId) × Server)
  | [], s => some ([], s)
  | (g, ls) :: gs, s =>
    match s.getDatabase c g.1 with
    | none => none
    | some name =>
      match s.databases name with
      | none => none
      | some od =>
        match commitDatabaseWith (commit name) c (g.2.flatMap TransactionCommit.blobs) (σ name) ls
          od with
        | none => none
        | some od =>
          (commitDatabasesWith commit c σ gs (s.setDatabase name od)).map fun r =>
            ((g.1, od.database.commitId) :: r.1, r.2)

/-- The end of a commit, with any way to apply the entries. -/
def finishCommitWith
    (commit : DatabaseName → Database → List BlobData → Schedule → Option (Database × Deleted))
    (c : ClientId) (σ : DatabaseName → Schedule) (ms : List TransactionCommit) (s : Server) :
    Option Server :=
  let clear (s : Server) : Server := s.setClient c { s.clients c with commitMessages := [] }
  let reject (result : TransactionCommitResponse.Result) (s : Server) : Option Server :=
    (clear (s.send c (.transactionCommit result []))).abortTransaction c true
  match groupByDatabase [] ms with
  | none => reject .databaseOrderViolated s
  | some gs =>
    match s.validateCommitMessages c gs with
    | none => none
    | some (.success, ls, s) =>
      match (clear s).commitDatabasesWith commit c σ (gs.zip (ls.map Prod.snd)) with
      | none => none
      | some (commits, s) => (s.send c (.transactionCommit .success commits)).abortTransaction c false
    | some (result, _, s) => reject result s

theorem commitDatabasesWith_commit {σ : DatabaseName → Schedule}
    (gs : List ((DatabaseId × List TransactionCommit) × List BlobLocation)) (s : Server) :
    s.commitDatabasesWith (fun _ => Database.commit) c σ gs = s.commitDatabases c σ gs := by
  induction gs generalizing s with
  | nil => rfl
  | cons g gs ih =>
    unfold commitDatabasesWith commitDatabases
    simp only [ih]
    rfl

/-- With the commit of the databases whose writes are successful, it is the end of a commit. -/
theorem finishCommitWith_commit {σ : DatabaseName → Schedule} :
    s.finishCommitWith (fun _ => Database.commit) c σ ms = s.finishCommit c σ ms := by
  have hcommits : commitDatabasesWith (fun _ => Database.commit) c σ = commitDatabases c σ := by
    funext gs s
    exact commitDatabasesWith_commit gs s
  unfold finishCommitWith
  rw [hcommits]
  rfl

theorem commitDatabasesWith_sentTo {σ : DatabaseName → Schedule}
    {gs : List ((DatabaseId × List TransactionCommit) × List BlobLocation)}
    {commits : List (DatabaseId × CommitId)}
    (h : s.commitDatabasesWith commit c σ gs = some (commits, s')) : s'.sentTo c = s.sentTo c := by
  induction gs generalizing s commits with
  | nil =>
    obtain ⟨-, rfl⟩ := Prod.mk.inj (Option.some.inj h)
    rfl
  | cons g gs ih =>
    unfold commitDatabasesWith at h
    split at h
    · cases h
    · split at h
      · cases h
      · split at h
        · cases h
        · obtain ⟨r, hr, heq⟩ := Option.map_eq_some_iff.mp h
          obtain ⟨-, rfl⟩ := Prod.mk.inj heq
          have hsent := ih hr
          exact hsent

theorem abortTransaction_sentTo {b : Bool} (h : s.abortTransaction c b = some s') :
    s'.sentTo c = s.sentTo c := by
  cases hactive : s.active c with
  | true => exact (ended_abortTransaction h hactive).sentTo
  | false =>
    rw [abortTransaction, hactive] at h
    obtain rfl := Option.some.inj h
    rfl

/-- After a commit some of whose writes failed, the databases in memory are those of their files,
and the commit was not reported as successful. -/
structure FailsSafely (c : ClientId) (s s' : Server) : Prop where
  matchesFile : ∀ name od, s'.databases name = some od → od.database.MatchesFile
  not_success : ∀ commits, s'.sentTo c ≠ s.sentTo c ++ [.transactionCommit .success commits]

/-- Whatever writes of an accepted commit fail, the client is told that the commit was
successful. -/
theorem not_failsSafely {σ : DatabaseName → Schedule} {o : DatabaseName → WriteOutcome}
    {gs : List (DatabaseId × List TransactionCommit)} {ls : List (DatabaseId × List BlobLocation)}
    {s₁ : Server} (hgs : groupByDatabase [] ms = some gs)
    (hvalid : s.validateCommitMessages c gs = some (.success, ls, s₁))
    (h : s.finishCommitWith (fun name db us σ => db.commitWrites us σ (o name)) c σ ms = some s') :
    ¬FailsSafely c s s' := by
  unfold finishCommitWith at h
  dsimp only at h
  rw [hgs] at h
  dsimp only at h
  rw [hvalid] at h
  dsimp only at h
  split at h
  · cases h
  · next commits s₂ hcommit =>
    refine fun hsafe => hsafe.not_success commits ?_
    rw [abortTransaction_sentTo h, sentTo_send_self, commitDatabasesWith_sentTo hcommit,
      sentTo_setClient, sentTo, (validateCommitMessages_same hvalid).1.sent, sentTo]

/-! ### A header that is not written -/

/-- The entry that writes one byte to the first blob. -/
def writeFirstBlob : List BlobData := [⟨⟨0, 0, 0⟩, some [7]⟩]

/-- A client is about to write the first blob of a new file. -/
def beforeCommit : Option Server :=
  run [.connectionOpened 1, .databaseOpen 1 (.file 0) .createIfNotExist false,
    .transactionBegin 1 0 [], .blobsRead ⟨1, 0, .write, -1, [⟨⟨0, 0, 0⟩, 0⟩]⟩]
    (.start (fun _ => none) 0)

/-- An order in which the commit may walk its sets. -/
def order (s : Server) : Schedule :=
  match s.databases (.file 0) with
  | none => ⟨[], [], .insertion, []⟩
  | some od => od.database.orderOf writeFirstBlob

/-- The write of the header of a commit fails before it wrote anything. -/
def headerFails : WriteOutcome := ⟨fun _ => none, some 0⟩

/-- The commit whose header is not written. -/
def failedCommit (s : Server) : Option Server :=
  s.finishCommitWith (fun _ db us σ => db.commitWrites us σ headerFails) 1 (fun _ => s.order)
    [⟨false, 0, writeFirstBlob⟩]

theorem not_failsSafely_headerFails : ∃ s s' gs ls s₁,
    beforeCommit = some s ∧ groupByDatabase [] [⟨false, 0, writeFirstBlob⟩] = some gs ∧
      s.validateCommitMessages 1 gs = some (.success, ls, s₁) ∧ failedCommit s = some s' ∧
      headerFails.Fails 5 ∧ ¬FailsSafely 1 s s' := by
  have hrun : (beforeCommit.bind fun s => (failedCommit s).bind fun _ =>
      (groupByDatabase [] [⟨false, 0, writeFirstBlob⟩]).bind fun gs =>
        (s.validateCommitMessages 1 gs).map fun r => decide (r.1 = .success)) = some true := by
    decide +kernel
  obtain ⟨s, hs, hrun⟩ := Option.bind_eq_some_iff.mp hrun
  obtain ⟨s', hs', hrun⟩ := Option.bind_eq_some_iff.mp hrun
  obtain ⟨gs, hgs, hrun⟩ := Option.bind_eq_some_iff.mp hrun
  obtain ⟨⟨result, ls, s₁⟩, hvalid, hrun⟩ := Option.map_eq_some_iff.mp hrun
  obtain rfl : result = .success := of_decide_eq_true hrun
  exact ⟨s, s', gs, ls, s₁, hs, hgs, hvalid, hs', Or.inr rfl, not_failsSafely hgs hvalid hs'⟩

/-- When the header is not written, the commit is reported as successful, and the active root
refers to blocks that are free in memory. The blocks of the next commit overwrite them, and the
file cannot be read any more if its header is not written either. -/
theorem overwrites_active_root : ∃ s s' od st r L,
    beforeCommit = some s ∧ failedCommit s = some s' ∧
      s'.sentTo 1 = s.sentTo 1 ++ [.transactionCommit .success [(0, 2)]] ∧
      s'.databases (.file 0) = some od ∧ od.database.storage = some st ∧
      (st.fileHeader.roots st.fileHeader.rootIndex).snapshot = ⟨80, 40⟩ ∧
      ⟨80, 160⟩ ∈ st.freeList.entries ∧
      ((Database.readInitialFileDatabaseData st.file).bind Database.loadAll).isSome ∧
      od.database.calculateCommitResult writeFirstBlob s'.order = some r ∧ r.freeList = some L ∧
      ((Database.readInitialFileDatabaseData
        (st.file.writeAll (Storage.blockWrites r L s'.order))).bind Database.loadAll).isNone ∧
      ¬FailsSafely 1 s s' := by
  have hrun : (beforeCommit.bind fun s => (failedCommit s).bind fun s' =>
      (s'.databases (.file 0)).bind fun od => od.database.storage.bind fun st =>
        (od.database.calculateCommitResult writeFirstBlob s'.order).bind fun r =>
          r.freeList.map fun L => decide (
            s'.sentTo 1 = s.sentTo 1 ++ [.transactionCommit .success [(0, 2)]] ∧
            (st.fileHeader.roots st.fileHeader.rootIndex).snapshot = ⟨80, 40⟩ ∧
            ⟨80, 160⟩ ∈ st.freeList.entries ∧
            ((Database.readInitialFileDatabaseData st.file).bind Database.loadAll).isSome = true ∧
            ((Database.readInitialFileDatabaseData (st.file.writeAll
              (Storage.blockWrites r L s'.order))).bind Database.loadAll).isNone = true)) =
      some true := by
    decide +kernel
  obtain ⟨s, hs, hrun⟩ := Option.bind_eq_some_iff.mp hrun
  obtain ⟨s', hs', hrun⟩ := Option.bind_eq_some_iff.mp hrun
  obtain ⟨od, hod, hrun⟩ := Option.bind_eq_some_iff.mp hrun
  obtain ⟨st, hst, hrun⟩ := Option.bind_eq_some_iff.mp hrun
  obtain ⟨r, hr, hrun⟩ := Option.bind_eq_some_iff.mp hrun
  obtain ⟨L, hL, hrun⟩ := Option.map_eq_some_iff.mp hrun
  obtain ⟨hsent, hroot, hfree, hreads, hunread⟩ := of_decide_eq_true hrun
  exact ⟨s, s', od, st, r, L, hs, hs', hsent, hod, hst, hroot, hfree, hreads, hr, hL, hunread,
    fun hsafe => hsafe.not_success _ hsent⟩

end Server

end BlobsDb
