import BlobsDb.ClientLib.Reading
import BlobsDb.ClientLib.Releasing
import BlobsDb.ClientLib.StickyLocks
import BlobsDb.ForMathlib.GuardedRun

/-!
# What the client reads from its cache

A blob that the client wrote, or read under a lock in the running transaction, is read again
without the server. The client recognises the latter by the transaction id of the cached copy.
When the server answers that a copy from an earlier transaction is current, this id stays, and the
blob is requested again the next time (`History.not_requestsOnce_of_current`). In every transaction in
which this does not happen each blob is requested once for each kind of lock
(`History.requestsOnce_iff`).
-/

namespace BlobsDb

/-! ### Answers -/

/-- The entry for a location that has some content. -/
def VersionedContent.answer (v : VersionedContent) (a : BlobAddress) : Option VersionedContent :=
  if a.cacheCommitId = v.commitId then none else some v

/-- The value of a lock mode, by which locks are compared. -/
def LockMode.value : LockMode → ℕ
  | .none => 0
  | .read => 1
  | .write => 2
  | .delete => 3

/-- The location names a segment, a cluster and a blob. -/
def BlobLocation.isBlob (l : BlobLocation) : Bool :=
  l.segment ≤ maxSegmentId && l.cluster ≤ maxClusterId && l.blob ≤ maxBlobId

namespace ClientLib

instance (state : DatabaseState) (l : BlobLocation) : Decidable (state.Deletes l) :=
  inferInstanceAs (Decidable (_ ∨ _ ∨ _))

/-- `UpdateTxnIdForHeldLocks` -/
def updateTxnIdForHeldLocks (cache : FlatMap BlobLocation CachedBlob) (locks : HeldLocks)
    (transactionId : ℕ) : FlatMap BlobLocation CachedBlob :=
  (locks.read.keys ++ locks.write.keys).foldl (fun cache l =>
    match cache.find l with
    | none => cache
    | some c => cache.insert l { c with transactionId := transactionId }) cache

/-- A database in a running transaction. -/
structure DatabaseTransaction where
  transactionId : ℕ
  isMVCC : Bool
  cache : FlatMap BlobLocation CachedBlob
  state : DatabaseState
  deriving DecidableEq

/-- What an operation returns, and what it asked the server for. -/
structure ReadResult where
  database : DatabaseTransaction
  blobs : List (List UInt8)
  requested : List BlobAddress
  deriving DecidableEq

namespace DatabaseTransaction

/-- `ApplyStickyLocksToTansaction`: the first access to a database in a transaction. -/
def start (database : Database) (transactionId : ℕ) (isMVCC : Bool) : DatabaseTransaction :=
  ⟨transactionId, isMVCC, match database.stickyLocks with
    | none => database.cache
    | some locks => updateTxnIdForHeldLocks database.cache locks transactionId,
    .create database.stickyLocks⟩

/-- `GetLockType` -/
def lockType (db : DatabaseTransaction) (l : BlobLocation) : LockMode :=
  db.state.heldLocks.getLockType l

/-- `AcquiredLock` -/
def acquired (db : DatabaseTransaction) (lock : LockMode) (l : BlobLocation) :
    DatabaseTransaction :=
  { db with state := { db.state with heldLocks := db.state.heldLocks.acquired lock l } }

/-- The cached copy of a location that was read in this transaction. -/
def currentCopy (db : DatabaseTransaction) (l : BlobLocation) : Option CachedBlob :=
  (db.cache.find l).filter fun c => c.transactionId = db.transactionId

/-- What is read without the server: what the transaction wrote, or a cached copy if the lock is
sufficient. -/
def readLocally (db : DatabaseTransaction) (lock : LockMode) (l : BlobLocation) :
    Option (List UInt8) :=
  match db.state.writtenBlobs.find l with
  | some data => some data
  | none =>
    match db.currentCopy l with
    | none => none
    | some c => if lock.value ≤ (db.lockType l).value then some c.data else none

/-- The content of a cached copy. -/
def cachedData (db : DatabaseTransaction) (l : BlobLocation) : List UInt8 :=
  ((db.cache.find l).map CachedBlob.data).getD []

/-- Requests locations from the server, and goes through its answers. -/
def request (db : DatabaseTransaction) (server : BlobLocation → VersionedContent)
    (lock : LockMode) (ls : List BlobLocation) : Option DatabaseTransaction :=
  let rs := ls.map (requestBlob db.cache lock)
  let answers := rs.map fun r =>
    setBlob (r.address, (server r.address.toBlobLocation).answer r.address)
  (ReadState.assignAll lock db.transactionId rs answers ⟨db.cache, db.state.heldLocks, []⟩).map
    fun p => { db with cache := p.1.cache, state := { db.state with heldLocks := p.1.heldLocks } }

/-- `ReadBlob`, when it succeeds. A lock is upgraded without the content of the blob; dirty reads
use neither transaction nor cache. -/
def readBlob (db : DatabaseTransaction) (server : BlobLocation → VersionedContent)
    (lock : LockMode) (l : BlobLocation) : Option ReadResult :=
  if !l.isBlob || lock = .delete then none
  else if lock = .none then some ⟨db, [(server l).content], [⟨l, 0⟩]⟩
  else if (lock = .write && db.isMVCC) || db.state.Deletes l then none
  else
    match db.readLocally lock l with
    | some data => some ⟨db, [data], []⟩
    | none =>
      match db.currentCopy l with
      | some c =>
        if db.lockType l = .read then some ⟨db.acquired .write l, [c.data], [⟨l, 0⟩]⟩
        else (db.request server lock [l]).map fun db' =>
          ⟨db', [db'.cachedData l], [(requestBlob db.cache lock l).address]⟩
      | none => (db.request server lock [l]).map fun db' =>
        ⟨db', [db'.cachedData l], [(requestBlob db.cache lock l).address]⟩

/-- `ReadBlobs`, when it succeeds. -/
def readBlobs (db : DatabaseTransaction) (server : BlobLocation → VersionedContent)
    (lock : LockMode) (ls : List BlobLocation) : Option ReadResult :=
  if 255 < ls.length || !ls.all BlobLocation.isBlob || lock = .delete then none
  else if lock = .none then
    some ⟨db, ls.map fun l => (server l).content, ls.map fun l => ⟨l, 0⟩⟩
  else if (lock = .write && db.isMVCC) || ls.any fun l => db.state.Deletes l then none
  else
    let blobsToLoad := ls.filter fun l => (db.readLocally lock l).isNone
    (db.request server lock blobsToLoad).map fun db' =>
      ⟨db', ls.map fun l => (db.readLocally lock l).getD (db'.cachedData l),
        blobsToLoad.map fun l => (requestBlob db.cache lock l).address⟩

/-- `WriteBlob`, when it succeeds. It acquires a missing write lock without the content. -/
def writeBlob (db : DatabaseTransaction) (l : BlobLocation) (data : List UInt8) :
    Option ReadResult :=
  let written (db : DatabaseTransaction) : DatabaseTransaction :=
    { db with state := { db.state with writtenBlobs := db.state.writtenBlobs.insert l data } }
  if !l.isBlob || maxBlobSize < data.length || db.state.Deletes l then none
  else if db.lockType l = .write then some ⟨written db, [], []⟩
  else if db.isMVCC then none
  else some ⟨written (db.acquired .write l), [], [⟨l, 0⟩]⟩

/-! ### Requests -/

end DatabaseTransaction

namespace HeldLocks

variable {locks : HeldLocks} {lock : LockMode} {l l' : BlobLocation}

/-- A lock that is acquired only makes the lock of the location stronger. -/
theorem value_acquired (hlock : lock = .read ∨ lock = .write) :
    ((locks.acquired lock l).getLockType l').value =
      if l' = l then max (locks.getLockType l').value lock.value
      else (locks.getLockType l').value := by
  by_cases hl : l' = l
  · subst hl
    rw [if_pos rfl]
    rcases hlock with rfl | rfl <;> cases hr : (locks.read.find l').isSome <;>
      cases hw : (locks.write.find l').isSome <;>
      simp [acquired, getLockType, hr, hw, FlatMap.find_insert, LockMode.value]
  · rw [if_neg hl]
    rcases hlock with rfl | rfl
    · simp only [acquired, getLockType, FlatMap.find_insert, if_neg hl]
    · simp only [acquired, getLockType, FlatMap.find_insert, if_neg hl]
      rfl

end HeldLocks

namespace DatabaseTransaction

variable {db db' : DatabaseTransaction} {server : BlobLocation → VersionedContent}
  {lock lock' : LockMode} {l l' : BlobLocation} {ls : List BlobLocation} {data : List UInt8}
  {r : ReadResult} {s s' : ReadState}

/-- The cached copy after the answer of the server: a current one stays as it is. -/
def entered (db : DatabaseTransaction) (server : BlobLocation → VersionedContent)
    (l : BlobLocation) : Option CachedBlob :=
  if (server l).commitId = ((db.cache.find l).map CachedBlob.lastUpdated).getD 0 then
    db.cache.find l
  else some ⟨(server l).content, (server l).commitId, db.transactionId⟩

/-- The answer for one location is assigned. -/
theorem assign_answer (hlock : lock ≠ .none)
    (h : s.assign lock db.transactionId (requestBlob db.cache lock l)
      (setBlob ((requestBlob db.cache lock l).address,
        (server l).answer (requestBlob db.cache lock l).address)) = some s')
    (hs : s.cache.find l = db.cache.find l ∨ s.cache.find l = db.entered server l) :
    s'.heldLocks = s.heldLocks.acquired lock l ∧ s'.cache.find l = db.entered server l ∧
      (s'.cache.find l).isSome ∧ ∀ l', l' ≠ l → s'.cache.find l' = s.cache.find l' := by
  have haddress : (requestBlob db.cache lock l).address =
      ⟨l, ((db.cache.find l).map CachedBlob.lastUpdated).getD 0⟩ := by
    rw [requestBlob, if_neg hlock]
  rw [ReadState.assign, toBlobLocation_setBlob, if_neg (not_not.mpr rfl), if_neg hlock] at h
  rw [haddress, VersionedContent.answer] at h
  unfold entered at hs ⊢
  by_cases hcurrent : ((db.cache.find l).map CachedBlob.lastUpdated).getD 0 = (server l).commitId
  · simp only [hcurrent, if_true, setBlob, ne_eq, not_true_eq_false, decide_false, Bool.false_or,
      Bool.false_eq_true, if_false] at h hs ⊢
    split at h
    · cases h
    · next c hc =>
      rw [or_self] at hs
      obtain rfl := Option.some.inj h
      split_ifs at hc
      exact ⟨rfl, hs, by rw [hc]; rfl, fun _ _ => rfl⟩
  · simp only [hcurrent, Ne.symm hcurrent, if_false, setBlob, ne_eq, not_false_eq_true, decide_true,
      Bool.true_or, if_true, FlatMap.find_insert] at h hs ⊢
    obtain rfl := Option.some.inj h
    refine ⟨rfl, ?_, ?_, fun l' hl' => ?_⟩
    · rw [FlatMap.find_insert, if_pos rfl]
    · rw [FlatMap.find_insert, if_pos rfl]
      rfl
    · rw [FlatMap.find_insert, if_neg hl']

/-- What the server's answers to a request change. -/
structure Requested (server : BlobLocation → VersionedContent) (lock : LockMode)
    (ls : List BlobLocation) (db db' : DatabaseTransaction) : Prop where
  frame : db' = { db with
    cache := db'.cache, state := { db.state with heldLocks := db'.state.heldLocks } }
  locks : ∀ l, (db'.lockType l).value =
    if l ∈ ls then max (db.lockType l).value lock.value else (db.lockType l).value
  cache : ∀ l, db'.cache.find l = if l ∈ ls then db.entered server l else db.cache.find l
  found : ∀ l ∈ ls, (db'.cache.find l).isSome

/-- The answers are assigned one after the other. -/
theorem assignAll_answers (hlock : lock = .read ∨ lock = .write)
    {p : ReadState × List RequestedBlob} {done : List BlobLocation}
    (h : ReadState.assignAll lock db.transactionId (ls.map (requestBlob db.cache lock))
      ((ls.map (requestBlob db.cache lock)).map fun r =>
        setBlob (r.address, (server r.address.toBlobLocation).answer r.address)) s = some p)
    (hcache : ∀ l, s.cache.find l = if l ∈ done then db.entered server l else db.cache.find l) :
    (∀ l, p.1.cache.find l =
        if l ∈ done ∨ l ∈ ls then db.entered server l else db.cache.find l) ∧
      (∀ l ∈ ls, (p.1.cache.find l).isSome) ∧
      ∀ l, (p.1.heldLocks.getLockType l).value =
        if l ∈ ls then max (s.heldLocks.getLockType l).value lock.value
        else (s.heldLocks.getLockType l).value := by
  induction ls generalizing s done with
  | nil =>
    rw [List.map_nil, List.map_nil, ReadState.assignAll_nil] at h
    obtain rfl := Option.some.inj h
    simpa using hcache
  | cons l ls ih =>
    rw [List.map_cons, List.map_cons, ReadState.assignAll, toBlobLocation_requestBlob] at h
    obtain ⟨s₁, hassign, h⟩ := Option.bind_eq_some_iff.mp h
    have hne : lock ≠ .none := by rcases hlock with rfl | rfl <;> decide
    have hs : s.cache.find l = db.cache.find l ∨ s.cache.find l = db.entered server l := by
      rw [hcache]
      split_ifs
      · exact Or.inr rfl
      · exact Or.inl rfl
    obtain ⟨hlocks, hself, hsome, hother⟩ := assign_answer hne hassign hs
    obtain ⟨h1, h2, h3⟩ := @ih s₁ (l :: done) h fun l' => by
      by_cases hl : l' = l
      · rw [hl, hself, if_pos List.mem_cons_self]
      · rw [hother l' hl, hcache]
        simp only [List.mem_cons, hl, false_or]
    have hmem : ∀ l', (l' ∈ l :: done ∨ l' ∈ ls) ↔ (l' ∈ done ∨ l' ∈ l :: ls) := fun l' => by
      simp only [List.mem_cons]
      tauto
    refine ⟨fun l' => ?_, fun l' hl' => ?_, fun l' => ?_⟩
    · rw [h1]
      simp only [hmem]
    · rcases List.mem_cons.mp hl' with rfl | hl'
      · rw [h1, if_pos (Or.inl List.mem_cons_self), ← hself]
        exact hsome
      · exact h2 l' hl'
    · rw [h3, hlocks, HeldLocks.value_acquired hlock]
      simp only [List.mem_cons]
      by_cases hl : l' = l
      · simp [hl]
      · simp [hl]

/-- A request was answered by the server with what it has. -/
theorem request_eq_some (hlock : lock = .read ∨ lock = .write)
    (h : db.request server lock ls = some db') : Requested server lock ls db db' := by
  obtain ⟨p, hp, rfl⟩ := Option.map_eq_some_iff.mp h
  have hnothing : ∀ l, db.cache.find l =
      if l ∈ ([] : List BlobLocation) then db.entered server l else db.cache.find l := fun l => by
    simp
  obtain ⟨h1, h2, h3⟩ := assignAll_answers hlock hp hnothing
  exact ⟨rfl, h3, fun l => by simpa using h1 l, h2⟩

/-! ### What the cache is good for -/

/-- A current copy is one in the cache with the id of this transaction. -/
theorem currentCopy_eq_some {c : CachedBlob} : db.currentCopy l = some c ↔
    db.cache.find l = some c ∧ c.transactionId = db.transactionId := by
  rw [currentCopy, Option.filter_eq_some_iff, decide_eq_true_iff]

/-- A read is answered locally by what was written, or by a current copy under a lock that suffices.
-/
theorem readLocally_eq_some : db.readLocally lock l = some data ↔
    db.state.writtenBlobs.find l = some data ∨ db.state.writtenBlobs.find l = none ∧
      ∃ c, db.currentCopy l = some c ∧ lock.value ≤ (db.lockType l).value ∧ c.data = data := by
  unfold readLocally
  split
  · next data' hw => simp [hw]
  · next hw =>
    split
    · next hc => simp [hw, hc]
    · next c hc => simp [hw, hc]

/-- A read with a weaker lock is answered locally too. -/
theorem readLocally_mono (h : db.readLocally lock l = some data) (hle : lock'.value ≤ lock.value) :
    db.readLocally lock' l = some data := by
  rcases readLocally_eq_some.mp h with hw | ⟨hw, c, hc, hlock, hdata⟩
  · exact readLocally_eq_some.mpr (Or.inl hw)
  · exact readLocally_eq_some.mpr (Or.inr ⟨hw, c, hc, hle.trans hlock, hdata⟩)

/-- What is not read locally was not written, and its copy has not the lock. -/
theorem readLocally_eq_none : db.readLocally lock l = none ↔
    db.state.writtenBlobs.find l = none ∧
      ∀ c, db.currentCopy l = some c → ¬lock.value ≤ (db.lockType l).value := by
  unfold readLocally
  split
  · next data hw => simp [hw]
  · next hw =>
    split
    · next hc => simp [hw, hc]
    · next c hc => simp [hw, hc]

/-- The copies that were read in this transaction are locked, and those under a read lock are
current, so that an upgrade of the lock does not bring another version. -/
def CopiesCurrent (server : BlobLocation → VersionedContent) (db : DatabaseTransaction) : Prop :=
  ∀ l c, db.currentCopy l = some c → 0 < (db.lockType l).value ∧
    (db.isMVCC = false → (db.lockType l).value = 1 → c.lastUpdated = (server l).commitId)

/-- What an operation keeps: what could be read without the server still can, and is the same if it
was not written. -/
structure Keeps (wrote : BlobLocation → Prop) (server : BlobLocation → VersionedContent)
    (db db' : DatabaseTransaction) : Prop where
  isMVCC : db'.isMVCC = db.isMVCC
  deletes : ∀ l, db'.state.Deletes l ↔ db.state.Deletes l
  copies : db'.CopiesCurrent server
  reads : ∀ lock l data, db.readLocally lock l = some data →
    ∃ data', db'.readLocally lock l = some data' ∧ (¬wrote l → data' = data)

theorem Keeps.refl {wrote : BlobLocation → Prop} (hcopies : db.CopiesCurrent server) :
    Keeps wrote server db db :=
  ⟨rfl, fun _ => Iff.rfl, hcopies, fun _ _ data h => ⟨data, h, fun _ => rfl⟩⟩

theorem value_lockType_acquired (hlock : lock = .read ∨ lock = .write) :
    ((db.acquired lock l).lockType l').value =
      if l' = l then max (db.lockType l').value lock.value else (db.lockType l').value :=
  HeldLocks.value_acquired hlock

/-- A write lock that is acquired. -/
theorem keeps_acquired {wrote : BlobLocation → Prop} (hcopies : db.CopiesCurrent server) :
    Keeps wrote server db (db.acquired .write l) := by
  have hlocks : ∀ l', (db.lockType l').value ≤ ((db.acquired .write l).lockType l').value ∧
      (((db.acquired .write l).lockType l').value = 1 → (db.lockType l').value = 1) := fun l' => by
    rw [value_lockType_acquired (Or.inr rfl)]
    split_ifs
    · exact ⟨le_max_left _ _, fun h => absurd h (by simp [LockMode.value]; omega)⟩
    · exact ⟨le_rfl, id⟩
  refine ⟨rfl, fun _ => Iff.rfl, fun l' c hc => ?_, fun lock l' data h => ⟨data, ?_, fun _ => rfl⟩⟩
  · obtain ⟨hpos, hcurrent⟩ := hcopies l' c hc
    exact ⟨hpos.trans_le (hlocks l').1, fun hmvcc hone => hcurrent hmvcc ((hlocks l').2 hone)⟩
  · refine readLocally_eq_some.mpr ((readLocally_eq_some.mp h).imp_right ?_)
    rintro ⟨hw, c, hc, hle, hdata⟩
    exact ⟨hw, c, hc, hle.trans (hlocks l').1, hdata⟩

/-- A blob that is written. -/
theorem keeps_written (hcopies : db.CopiesCurrent server) :
    Keeps (· = l) server db { db with
      state := { db.state with writtenBlobs := db.state.writtenBlobs.insert l data } } := by
  refine ⟨rfl, fun _ => Iff.rfl, hcopies, fun lock l' data' h => ?_⟩
  by_cases hl : l' = l
  · refine ⟨data, readLocally_eq_some.mpr (Or.inl ?_), fun hne => absurd hl hne⟩
    change (db.state.writtenBlobs.insert l data).find l' = _
    rw [FlatMap.find_insert, if_pos hl]
  · refine ⟨data', readLocally_eq_some.mpr ?_, fun _ => rfl⟩
    change (db.state.writtenBlobs.insert l data).find l' = _ ∨
      (db.state.writtenBlobs.insert l data).find l' = none ∧ _
    rw [FlatMap.find_insert, if_neg hl]
    exact readLocally_eq_some.mp h

/-- What two operations keep, both together keep. -/
theorem Keeps.trans {wrote : BlobLocation → Prop} {db'' : DatabaseTransaction}
    (h : Keeps wrote server db db') (h' : Keeps wrote server db' db'') :
    Keeps wrote server db db'' := by
  refine ⟨h'.isMVCC.trans h.isMVCC, fun l => (h'.deletes l).trans (h.deletes l), h'.copies,
    fun lock l data hread => ?_⟩
  obtain ⟨data₁, hread₁, heq₁⟩ := h.reads lock l data hread
  obtain ⟨data₂, hread₂, heq₂⟩ := h'.reads lock l data₁ hread₁
  exact ⟨data₂, hread₂, fun hwrote => (heq₂ hwrote).trans (heq₁ hwrote)⟩

/-- The location has to be requested, but the copy that an earlier transaction left in the cache is
current. -/
def Stale (server : BlobLocation → VersionedContent) (lock : LockMode) (l : BlobLocation)
    (db : DatabaseTransaction) : Prop :=
  db.readLocally lock l = none ∧ ∃ c, db.cache.find l = some c ∧
    c.transactionId ≠ db.transactionId ∧ (server l).commitId = c.lastUpdated

/-- What was read is read without the server from then on, unless the server answered that the copy
of an earlier transaction is current. -/
def Answered (server : BlobLocation → VersionedContent) (lock : LockMode) (l : BlobLocation)
    (db db' : DatabaseTransaction) (data : List UInt8) : Prop :=
  db'.readLocally lock l = some data ∧ ¬Stale server lock l db ∨
    db'.readLocally lock l = none ∧ Stale server lock l db

/-- What is answered locally is not out of date. -/
theorem not_stale_of_readLocally (h : db.readLocally lock l = some data) :
    ¬Stale server lock l db := fun hstale => by
  rw [hstale.1] at h
  cases h

/-- A current copy is not out of date. -/
theorem not_stale_of_currentCopy {c : CachedBlob} (hc : db.currentCopy l = some c) :
    ¬Stale server lock l db := by
  rintro ⟨-, c', hfind, hne, -⟩
  obtain ⟨hc, htxn⟩ := currentCopy_eq_some.mp hc
  obtain rfl := Option.some.inj (hc.symm.trans hfind)
  exact hne htxn

namespace Requested

/-- A current copy stays as it is when it is requested again, for a stronger lock. -/
theorem keeps {wrote : BlobLocation → Prop} (h : Requested server lock ls db db')
    (hlock : lock = .read ∨ lock = .write) (hmvcc : lock = .write → db.isMVCC = false)
    (hcopies : db.CopiesCurrent server) (hls : ∀ l ∈ ls, db.readLocally lock l = none) :
    Keeps wrote server db db' := by
  have hid : db'.transactionId = db.transactionId := by rw [h.frame]
  have hisMVCC : db'.isMVCC = db.isMVCC := by rw [h.frame]
  have hwritten : db'.state.writtenBlobs = db.state.writtenBlobs := by rw [h.frame]
  have hpos : 0 < lock.value := by rcases hlock with rfl | rfl <;> decide
  have hle : ∀ l, (db.lockType l).value ≤ (db'.lockType l).value := fun l => by
    rw [h.locks]
    split_ifs
    · exact le_max_left _ _
    · exact le_rfl
  have hold : ∀ l c, db.currentCopy l = some c → db'.currentCopy l = some c := fun l c hc => by
    obtain ⟨hfind, htxn⟩ := currentCopy_eq_some.mp hc
    refine currentCopy_eq_some.mpr ⟨?_, htxn.trans hid.symm⟩
    rw [h.cache]
    split_ifs with hl
    · -- only an upgrade requests it, and its read lock has kept the version
      have hweak := (readLocally_eq_none.mp (hls l hl)).2 c hc
      obtain ⟨hheld, hcurrent⟩ := hcopies l c hc
      have hwrite : lock = .write := hlock.resolve_left fun hread => hweak (hread ▸ hheld)
      have hone : (db.lockType l).value = 1 := by
        have htwo : lock.value = 2 := by rw [hwrite, LockMode.value]
        omega
      rw [entered, hfind, if_pos]
      exact (hcurrent (hmvcc hwrite) hone).symm
    · exact hfind
  refine ⟨hisMVCC, fun l => ?_, fun l c hc => ?_,
    fun lock' l data hread => ⟨data, ?_, fun _ => rfl⟩⟩
  · rw [h.frame]
    exact Iff.rfl
  · obtain ⟨hfind, htxn⟩ := currentCopy_eq_some.mp hc
    rw [h.cache] at hfind
    rw [h.locks, hisMVCC]
    split_ifs at hfind ⊢ with hl
    · refine ⟨hpos.trans_le (le_max_right _ _), fun _ _ => ?_⟩
      rw [entered] at hfind
      split_ifs at hfind with hsame
      · rw [hsame, hfind]
        rfl
      · rw [← Option.some.inj hfind]
    · exact hcopies l c (currentCopy_eq_some.mpr ⟨hfind, htxn.trans hid⟩)
  · refine readLocally_eq_some.mpr ((readLocally_eq_some.mp hread).imp ?_ ?_)
    · rw [hwritten]
      exact id
    · rintro ⟨hw, c, hc, hlocked, hdata⟩
      exact ⟨hwritten ▸ hw, c, hold l c hc, hlocked.trans (hle l), hdata⟩

/-- A location that was not answered locally is answered by the request. -/
theorem answered (h : Requested server lock ls db db') (hl : l ∈ ls)
    (hnone : db.readLocally lock l = none) :
    Answered server lock l db db' (db'.cachedData l) := by
  have hid : db'.transactionId = db.transactionId := by rw [h.frame]
  have hw : db'.state.writtenBlobs.find l = none := by
    rw [h.frame]
    exact (readLocally_eq_none.mp hnone).1
  have hle : lock.value ≤ (db'.lockType l).value := by
    rw [h.locks, if_pos hl]
    exact le_max_right _ _
  obtain ⟨c, hc⟩ := Option.isSome_iff_exists.mp (h.found l hl)
  by_cases htxn : c.transactionId = db'.transactionId
  · refine Or.inl ⟨readLocally_eq_some.mpr (Or.inr ⟨hw, c, ?_, hle, ?_⟩), ?_⟩
    · exact currentCopy_eq_some.mpr ⟨hc, htxn⟩
    · rw [cachedData, hc]
      rfl
    · rw [h.cache, if_pos hl, entered] at hc
      split_ifs at hc with hsame
      · exact not_stale_of_currentCopy (currentCopy_eq_some.mpr ⟨hc, htxn.trans hid⟩)
      · rintro ⟨-, c', hfind, -, hcurrent⟩
        rw [hfind] at hsame
        exact hsame hcurrent
  · refine Or.inr ⟨readLocally_eq_none.mpr ⟨hw, fun c' hc' => ?_⟩, ?_⟩
    · obtain ⟨hfind, htxn'⟩ := currentCopy_eq_some.mp hc'
      obtain rfl := Option.some.inj (hc.symm.trans hfind)
      exact absurd htxn' htxn
    · rw [h.cache, if_pos hl, entered] at hc
      split_ifs at hc with hsame
      · refine ⟨hnone, c, hc, hid ▸ htxn, ?_⟩
        rw [hsame, hc]
        rfl
      · rw [← Option.some.inj hc] at htxn
        exact absurd hid.symm htxn

end Requested

/-! ### Operations -/

/-- What is known of a successful read under a lock. -/
structure ReadsOnce (server : BlobLocation → VersionedContent) (lock : LockMode)
    (ls : List BlobLocation) (db : DatabaseTransaction) (r : ReadResult) : Prop where
  isBlob : ∀ l ∈ ls, l.isBlob = true
  isLock : lock = .read ∨ lock = .write
  isMVCC : lock = .write → db.isMVCC = false
  keeps : ∀ wrote : BlobLocation → Prop, Keeps wrote server db r.database
  answered : ∃ f : BlobLocation → List UInt8, r.blobs = ls.map f ∧
    ∀ l ∈ ls, Answered server lock l db r.database (f l)

/-- A request reads each location once. -/
theorem readsOnce_of_request (hblob : ∀ l ∈ ls, l.isBlob = true)
    (hlock : lock = .read ∨ lock = .write) (hmvcc : lock = .write → db.isMVCC = false)
    (hcopies : db.CopiesCurrent server) {as : List BlobAddress}
    (h : db.request server lock (ls.filter fun l => (db.readLocally lock l).isNone) = some db') :
    ReadsOnce server lock ls db
      ⟨db', ls.map fun l => (db.readLocally lock l).getD (db'.cachedData l), as⟩ := by
  have hr := request_eq_some hlock h
  have hkeeps : ∀ wrote : BlobLocation → Prop, Keeps wrote server db db' := fun wrote =>
    hr.keeps hlock hmvcc hcopies fun l hl => Option.isNone_iff_eq_none.mp (List.mem_filter.mp hl).2
  refine ⟨hblob, hlock, hmvcc, hkeeps, _, rfl, fun l hl => ?_⟩
  cases hread : db.readLocally lock l with
  | some data =>
    obtain ⟨data', hread', heq⟩ := (hkeeps fun _ => False).reads lock l data hread
    obtain rfl := heq id
    exact Or.inl ⟨hread', not_stale_of_readLocally hread⟩
  | none => exact hr.answered (List.mem_filter.mpr ⟨hl, by rw [hread]; rfl⟩) hread

/-- Reading several blobs reads each of them once. -/
theorem readBlobs_readsOnce (h : db.readBlobs server lock ls = some r) (hlock : lock ≠ .none)
    (hcopies : db.CopiesCurrent server) : ReadsOnce server lock ls db r := by
  unfold readBlobs at h
  split_ifs at h with hvalid hmvcc
  obtain ⟨db', hrequest, rfl⟩ := Option.map_eq_some_iff.mp h
  simp only [Bool.or_eq_true, Bool.not_eq_true', decide_eq_true_iff, not_or, Bool.and_eq_true]
    at hvalid hmvcc
  refine readsOnce_of_request (List.all_eq_true.mp (by simpa using hvalid.1.2)) ?_
    (fun hwrite => by simpa [hwrite] using hmvcc.1) hcopies hrequest
  cases lock <;> simp_all

/-- The same for one location that is requested. -/
theorem readsOnce_of_request_singleton (hblob : l.isBlob = true)
    (hlock : lock = .read ∨ lock = .write) (hmvcc : lock = .write → db.isMVCC = false)
    (hcopies : db.CopiesCurrent server) (hread : db.readLocally lock l = none)
    {as : List BlobAddress} (h : db.request server lock [l] = some db') :
    ReadsOnce server lock [l] db ⟨db', [db'.cachedData l], as⟩ := by
  have hfilter : [l].filter (fun l => (db.readLocally lock l).isNone) = [l] := by
    simp [hread]
  rw [← hfilter] at h
  have honce := @readsOnce_of_request db db' server lock [l]
    (fun l' hl' => List.mem_singleton.mp hl' ▸ hblob) hlock hmvcc hcopies as h
  rwa [List.map_singleton, hread] at honce

/-- Reading a blob reads it once. -/
theorem readBlob_readsOnce (h : db.readBlob server lock l = some r) (hlock : lock ≠ .none)
    (hcopies : db.CopiesCurrent server) : ReadsOnce server lock [l] db r := by
  unfold readBlob at h
  split at h
  · cases h
  · next hvalid =>
    split at h
    · cases h
    · next hmvcc =>
      simp only [Bool.or_eq_true, Bool.not_eq_true', decide_eq_true_iff, not_or,
        Bool.and_eq_true] at hvalid hmvcc
      have hisLock : lock = .read ∨ lock = .write := by cases lock <;> simp_all
      have hisBlob : l.isBlob = true := by simpa using hvalid.1
      have hisMVCC : lock = .write → db.isMVCC = false := fun hwrite => by
        simpa [hwrite] using hmvcc.1
      have hblob : ∀ l' ∈ [l], l'.isBlob = true := fun l' hl' =>
        List.mem_singleton.mp hl' ▸ hisBlob
      split at h
      · next data hread =>
        obtain rfl := Option.some.inj h
        refine ⟨hblob, hisLock, hisMVCC, fun _ => .refl hcopies, fun _ => data, rfl,
          fun l' hl' => ?_⟩
        rw [List.mem_singleton.mp hl']
        exact Or.inl ⟨hread, not_stale_of_readLocally hread⟩
      · next hread =>
        split at h
        · next c hc =>
          split_ifs at h with hupgrade
          · -- the read lock is upgraded
            obtain rfl := Option.some.inj h
            refine ⟨hblob, hisLock, hisMVCC, fun _ => keeps_acquired hcopies, fun _ => c.data, rfl,
              fun l' hl' => ?_⟩
            rw [List.mem_singleton.mp hl']
            refine Or.inl ⟨readLocally_eq_some.mpr
              (Or.inr ⟨(readLocally_eq_none.mp hread).1, c, hc, ?_, rfl⟩),
              not_stale_of_currentCopy hc⟩
            rw [value_lockType_acquired (Or.inr rfl), if_pos rfl]
            refine le_max_of_le_right ?_
            rcases hisLock with rfl | rfl <;> decide
          · obtain ⟨db', hdb', rfl⟩ := Option.map_eq_some_iff.mp h
            exact readsOnce_of_request_singleton hisBlob hisLock hisMVCC hcopies hread hdb'
        · obtain ⟨db', hdb', rfl⟩ := Option.map_eq_some_iff.mp h
          exact readsOnce_of_request_singleton hisBlob hisLock hisMVCC hcopies hread hdb'

/-- A write keeps all but the location it writes. -/
theorem writeBlob_keeps (h : db.writeBlob l data = some r) (hcopies : db.CopiesCurrent server) :
    Keeps (· = l) server db r.database := by
  unfold writeBlob at h
  dsimp only at h
  split_ifs at h
  · obtain rfl := Option.some.inj h
    exact keeps_written hcopies
  · obtain rfl := Option.some.inj h
    have hkeeps : Keeps (· = l) server db (db.acquired .write l) := keeps_acquired hcopies
    exact hkeeps.trans (keeps_written hkeeps.copies)

/-- Reads of the location return the data without the server: a single one requests nothing, and one
of several does not request this location. -/
def AnswersAlone (db : DatabaseTransaction) (lock : LockMode) (l : BlobLocation)
    (data : List UInt8) : Prop :=
  (∀ server, db.readBlob server lock l = some ⟨db, [data], []⟩) ∧
    ∀ server (ls : List BlobLocation) r, db.readBlobs server lock ls = some r →
      (∀ a ∈ r.requested, a.toBlobLocation ≠ l) ∧
        ∀ i : ℕ, ls[i]? = some l → r.blobs[i]? = some data

/-- What is answered locally is answered without the server. -/
theorem answersAlone_of_readLocally (h : db.readLocally lock l = some data)
    (hblob : l.isBlob = true) (hlock : lock = .read ∨ lock = .write)
    (hmvcc : lock = .write → db.isMVCC = false) (hdeletes : ¬db.state.Deletes l) :
    db.AnswersAlone lock l data := by
  have hlocks : lock ≠ .none ∧ lock ≠ .delete := by rcases hlock with rfl | rfl <;> decide
  refine ⟨fun server => ?_, fun server ls r hr => ?_⟩
  · have hmode : (lock = .write && db.isMVCC) = false := by
      rcases hlock with rfl | rfl
      · rfl
      · simpa using hmvcc rfl
    unfold readBlob
    simp only [hblob, hlocks, hmode, hdeletes, h, Bool.not_true, decide_false, Bool.or_self,
      Bool.false_eq_true, if_false]
  · unfold readBlobs at hr
    split_ifs at hr with hvalid hnone hmode
    · exact absurd hnone hlocks.1
    · obtain ⟨db', -, rfl⟩ := Option.map_eq_some_iff.mp hr
      refine ⟨fun a ha hal => ?_, fun i hi => ?_⟩
      · obtain ⟨l', hl', rfl⟩ := List.mem_map.mp ha
        rw [toBlobLocation_requestBlob] at hal
        rw [List.mem_filter, hal, h] at hl'
        exact absurd hl'.2 Bool.false_ne_true
      · rw [List.getElem?_map, hi, Option.map_some, h, Option.getD_some]

/-- A read that requests nothing finds the data without the server. -/
theorem readLocally_of_answersAlone (h : db.AnswersAlone lock l data) (hlock : lock ≠ .none) :
    db.readLocally lock l = some data := by
  have hread := h.1 fun _ => ⟨0, []⟩
  unfold readBlob at hread
  split at hread
  · cases hread
  · split at hread
    · cases hread
    · split at hread
      · next data' hdata =>
        rw [hdata]
        simpa using hread
      · split at hread
        · split_ifs at hread
          · simp at hread
          · obtain ⟨db', -, heq⟩ := Option.map_eq_some_iff.mp hread
            simp at heq
        · obtain ⟨db', -, heq⟩ := Option.map_eq_some_iff.mp hread
          simp at heq

end DatabaseTransaction

/-! ### Runs -/

/-- What an operation did with a location. -/
inductive Happened
  | read (lock : LockMode) (l : BlobLocation) (data : List UInt8)
  | wrote (l : BlobLocation)
  deriving DecidableEq

inductive Operation
  | readBlob (lock : LockMode) (l : BlobLocation)
  | readBlobs (lock : LockMode) (ls : List BlobLocation)
  | writeBlob (l : BlobLocation) (data : List UInt8)
  deriving DecidableEq

namespace Operation

def perform (server : BlobLocation → VersionedContent) (db : DatabaseTransaction) :
    Operation → Option ReadResult
  | readBlob lock l => db.readBlob server lock l
  | readBlobs lock ls => db.readBlobs server lock ls
  | writeBlob l data => db.writeBlob l data

/-- The locations that are read, with the lock. -/
def reads : Operation → List (LockMode × BlobLocation)
  | readBlob lock l => [(lock, l)]
  | readBlobs lock ls => ls.map fun l => (lock, l)
  | writeBlob _ _ => []

/-- What happened, when the operation returned some blobs. -/
def happened : Operation → List (List UInt8) → List Happened
  | readBlob lock l, blobs => List.zipWith (Happened.read lock) [l] blobs
  | readBlobs lock ls, blobs => List.zipWith (Happened.read lock) ls blobs
  | writeBlob l _, _ => [.wrote l]

end Operation

/-- A transaction with what happened in it, and the contents at the server. -/
structure History where
  database : DatabaseTransaction
  server : BlobLocation → VersionedContent
  log : List Happened

namespace History

/-- One operation. Until the server answers, the contents of what the client has not locked may
have changed. -/
def step (h : History) (a : (BlobLocation → VersionedContent) × Operation) : Option History :=
  let locks := h.database.state.heldLocks
  if (locks.read.keys ++ locks.write.keys).all fun l => a.1 l = h.server l then
    (a.2.perform a.1 h.database).map fun r => ⟨r.database, a.1, h.log ++ a.2.happened r.blobs⟩
  else none

/-- The first access of a transaction to a database. -/
def start (database : Database) (transactionId : ℕ) (isMVCC : Bool)
    (server : BlobLocation → VersionedContent) : History :=
  ⟨.start database transactionId isMVCC, server, []⟩

/-- The location was read with this result, and not written since. -/
def ReadSince (log : List Happened) (lock : LockMode) (l : BlobLocation) (data : List UInt8) :
    Prop :=
  ∃ before after, log = before ++ .read lock l data :: after ∧ .wrote l ∉ after

/-- What was read under a lock is read again under this lock, or a weaker one, without the server,
and the data is the same if it was not written since. -/
def RequestsOnce (h : History) : Prop :=
  ∀ lock l data, .read lock l data ∈ h.log → lock ≠ .none →
    ∀ lock' : LockMode, lock' ≠ .none → lock'.value ≤ lock.value →
      ∃ data', h.database.AnswersAlone lock' l data' ∧
        (ReadSince h.log lock l data → data' = data)

/-- When a location is requested of which an earlier transaction left a copy in the cache, the
server has another version. -/
def NewerAtServer (h : History) (a : (BlobLocation → VersionedContent) × Operation) : Prop :=
  ∀ p ∈ a.2.reads, p.1 ≠ .none → ¬h.database.Stale a.1 p.1 p.2

variable {h h' : History} {a : (BlobLocation → VersionedContent) × Operation}
  {lock : LockMode} {l : BlobLocation} {data : List UInt8} {r : ReadResult}

/-- What holds in every run in which the server has newer versions. -/
structure Inv (h : History) : Prop where
  copies : h.database.CopiesCurrent h.server
  deletes : ∀ l, ¬h.database.state.Deletes l
  log : ∀ lock l data, .read lock l data ∈ h.log → lock ≠ .none →
    l.isBlob = true ∧ (lock = .read ∨ lock = .write) ∧
      (lock = .write → h.database.isMVCC = false) ∧
      ∃ data', h.database.readLocally lock l = some data' ∧
        (ReadSince h.log lock l data → data' = data)

/-- A history with the invariant requests once. -/
theorem Inv.requestsOnce (hinv : Inv h) : h.RequestsOnce := by
  intro lock l data hread hlock lock' hlock' hle
  obtain ⟨hblob, hlocked, hmvcc, data', hdata, hsince⟩ := hinv.log lock l data hread hlock
  have hwrite : lock' = .write → lock = .write := by
    rintro rfl
    exact hlocked.resolve_left fun hr => absurd (hr ▸ hle) (by decide)
  have hlocked' : lock' = .read ∨ lock' = .write := by
    cases lock' with
    | none => exact absurd rfl hlock'
    | read => exact Or.inl rfl
    | write => exact Or.inr rfl
    | delete => rcases hlocked with rfl | rfl <;> exact absurd hle (by decide)
  refine ⟨data', DatabaseTransaction.answersAlone_of_readLocally
    (DatabaseTransaction.readLocally_mono hdata hle) hblob hlocked' (fun hw => hmvcc (hwrite hw))
    (hinv.deletes l), hsince⟩

/-- What the client has locked has the same version when the server answers. -/
theorem copies_of_locked (hcopies : h.database.CopiesCurrent h.server)
    (hkeeps : (h.database.state.heldLocks.read.keys ++ h.database.state.heldLocks.write.keys).all
      (fun l => decide (a.1 l = h.server l)) = true) : h.database.CopiesCurrent a.1 := by
  intro l c hc
  obtain ⟨hpos, hcurrent⟩ := hcopies l c hc
  refine ⟨hpos, fun hmvcc hone => (hcurrent hmvcc hone).trans ?_⟩
  have hlocked : l ∈ h.database.state.heldLocks.read.keys ++
      h.database.state.heldLocks.write.keys := by
    rw [List.mem_append, FlatMap.mem_keys, FlatMap.mem_keys]
    rw [DatabaseTransaction.lockType, HeldLocks.getLockType] at hone
    split_ifs at hone with hw hr
    · exact Or.inr hw
    · exact Or.inl hr
    · cases hone
  rw [of_decide_eq_true (List.all_eq_true.mp hkeeps l hlocked)]

/-- What an operation that succeeds does. -/
structure Performs (server : BlobLocation → VersionedContent) (op : Operation)
    (db : DatabaseTransaction) (r : ReadResult) : Prop where
  keeps : db.Keeps (fun l => .wrote l ∈ op.happened r.blobs) server r.database
  reads : ∀ lock l data, .read lock l data ∈ op.happened r.blobs → lock ≠ .none →
    l.isBlob = true ∧ (lock = .read ∨ lock = .write) ∧ (lock = .write → db.isMVCC = false) ∧
      (lock, l) ∈ op.reads ∧ db.Answered server lock l r.database data
  logged : ∀ lock l, (lock, l) ∈ op.reads → lock ≠ .none →
    ∃ data, .read lock l data ∈ op.happened r.blobs

/-- What happened in a read happened with its lock. -/
theorem lock_of_mem_zipWith {lock' : LockMode} {ls : List BlobLocation} {blobs : List (List UInt8)}
    (h : Happened.read lock' l data ∈ List.zipWith (Happened.read lock) ls blobs) :
    lock' = lock := by
  rw [← List.map_uncurry_zip_eq_zipWith] at h
  obtain ⟨p, -, hp⟩ := List.mem_map.mp h
  exact ((Happened.read.injEq ..).mp hp).1.symm

/-- A successful read under a lock, or a dirty one. -/
theorem performs_of_readsOnce {op : Operation} {db : DatabaseTransaction}
    {server : BlobLocation → VersionedContent} {ls : List BlobLocation}
    (hreads : op.reads = ls.map fun l => (lock, l))
    (hhappened : op.happened r.blobs = List.zipWith (Happened.read lock) ls r.blobs)
    (hcopies : db.CopiesCurrent server) (hdirty : lock = .none → r.database = db)
    (honce : lock ≠ .none → db.ReadsOnce server lock ls r) : Performs server op db r := by
  by_cases hlock : lock = .none
  · refine ⟨?_, fun lock' l data hmem hne => ?_, fun lock' l hmem hne => ?_⟩
    · rw [hdirty hlock]
      exact .refl hcopies
    · rw [hhappened] at hmem
      exact absurd ((lock_of_mem_zipWith hmem).trans hlock) hne
    · rw [hreads] at hmem
      obtain ⟨l', -, heq⟩ := List.mem_map.mp hmem
      exact absurd ((Prod.mk.inj heq).1.symm.trans hlock) hne
  · have honce := honce hlock
    obtain ⟨f, hblobs, hanswered⟩ := honce.answered
    have hlog : op.happened r.blobs = ls.map fun l => .read lock l (f l) := by
      rw [hhappened, hblobs, List.zipWith_map_right, List.zipWith_self]
    refine ⟨honce.keeps _, fun lock' l data hmem hne => ?_, fun lock' l hmem hne => ?_⟩
    · rw [hlog] at hmem
      obtain ⟨l', hl', heq⟩ := List.mem_map.mp hmem
      obtain ⟨rfl, rfl, rfl⟩ := (Happened.read.injEq ..).mp heq
      refine ⟨honce.isBlob _ hl', honce.isLock, honce.isMVCC, ?_, hanswered _ hl'⟩
      rw [hreads]
      exact List.mem_map_of_mem hl'
    · rw [hreads] at hmem
      obtain ⟨l', hl', heq⟩ := List.mem_map.mp hmem
      obtain ⟨rfl, rfl⟩ := Prod.mk.inj heq
      exact ⟨f l', hlog ▸ List.mem_map.mpr ⟨l', hl', rfl⟩⟩

/-- What an operation does to the transaction and the cache. -/
theorem perform_eq_some {op : Operation} {db : DatabaseTransaction}
    {server : BlobLocation → VersionedContent} (h : op.perform server db = some r)
    (hcopies : db.CopiesCurrent server) : Performs server op db r := by
  cases op with
  | readBlob lock l =>
    change db.readBlob server lock l = some r at h
    refine performs_of_readsOnce rfl rfl hcopies (fun hnone => ?_)
      fun hlock => DatabaseTransaction.readBlob_readsOnce h hlock hcopies
    unfold DatabaseTransaction.readBlob at h
    split_ifs at h
    obtain rfl := Option.some.inj h
    rfl
  | readBlobs lock ls =>
    change db.readBlobs server lock ls = some r at h
    refine performs_of_readsOnce rfl rfl hcopies (fun hnone => ?_)
      fun hlock => DatabaseTransaction.readBlobs_readsOnce h hlock hcopies
    unfold DatabaseTransaction.readBlobs at h
    split_ifs at h
    obtain rfl := Option.some.inj h
    rfl
  | writeBlob l data =>
    have hkeeps := DatabaseTransaction.writeBlob_keeps h hcopies
    refine ⟨⟨hkeeps.isMVCC, hkeeps.deletes, hkeeps.copies, fun lock l' data' hread => ?_⟩,
      fun lock l' data' hmem => ?_, fun lock l' hmem => ?_⟩
    · obtain ⟨data'', hread', heq⟩ := hkeeps.reads lock l' data' hread
      refine ⟨data'', hread', fun hwrote => heq fun hl => hwrote ?_⟩
      rw [hl]
      exact List.mem_singleton_self _
    · exact absurd (List.mem_singleton.mp hmem) nofun
    · cases hmem

/-- A step is an operation against contents that the copies match. -/
theorem step_eq_some (hstep : step h a = some h') (hcopies : h.database.CopiesCurrent h.server) :
    h.database.CopiesCurrent a.1 ∧ ∃ r, Performs a.1 a.2 h.database r ∧
      h' = ⟨r.database, a.1, h.log ++ a.2.happened r.blobs⟩ := by
  rw [step] at hstep
  split_ifs at hstep with hkept
  obtain ⟨r, hr, rfl⟩ := Option.map_eq_some_iff.mp hstep
  have hcopies' := copies_of_locked hcopies hkept
  exact ⟨hcopies', r, perform_eq_some hr hcopies', rfl⟩

/-- A read since the last write was made before, with no write after it, or just now. -/
theorem readSince_append {log happened : List Happened}
    (h : ReadSince (log ++ happened) lock l data) :
    (ReadSince log lock l data ∧ .wrote l ∉ happened) ∨ .read lock l data ∈ happened := by
  obtain ⟨before, after, heq, hnot⟩ := h
  rcases List.append_eq_append_iff.mp heq with ⟨as, rfl, hhappened⟩ | ⟨as, rfl, has⟩
  · rw [hhappened]
    exact Or.inr (List.mem_append_right _ List.mem_cons_self)
  · cases as with
    | nil =>
      rw [List.nil_append] at has
      rw [← has]
      exact Or.inr List.mem_cons_self
    | cons e as =>
      rw [List.cons_append, List.cons.injEq] at has
      obtain ⟨rfl, rfl⟩ := has
      rw [List.mem_append, not_or] at hnot
      exact Or.inl ⟨⟨before, as, rfl, hnot.1⟩, hnot.2⟩

/-- The step lemma: what was read is read without the server from then on. -/
theorem Inv.step (hinv : Inv h) (hnewer : h.NewerAtServer a) (hstep : h.step a = some h') :
    Inv h' := by
  obtain ⟨hcopies, r, hperforms, rfl⟩ := step_eq_some hstep hinv.copies
  have hkeeps := hperforms.keeps
  refine ⟨hkeeps.copies, fun l hl => hinv.deletes l ((hkeeps.deletes l).mp hl),
    fun lock l data hmem hlock => ?_⟩
  have hnew : ∀ data', .read lock l data' ∈ a.2.happened r.blobs →
      r.database.readLocally lock l = some data' := fun data' hmem' => by
    obtain ⟨-, -, -, hreads, hanswered⟩ := hperforms.reads lock l data' hmem' hlock
    exact (hanswered.resolve_right fun hstale => hnewer _ hreads hlock hstale.2).1
  dsimp only
  rw [hkeeps.isMVCC]
  rcases List.mem_append.mp hmem with hmem | hmem
  · obtain ⟨hblob, hlocked, hmvcc, data', hdata, hsince⟩ := hinv.log lock l data hmem hlock
    obtain ⟨data'', hdata', hsame⟩ := hkeeps.reads lock l data' hdata
    refine ⟨hblob, hlocked, hmvcc, data'', hdata', fun hread => ?_⟩
    rcases readSince_append hread with ⟨hread, hwrote⟩ | hmem'
    · exact (hsame hwrote).trans (hsince hread)
    · exact Option.some.inj (hdata'.symm.trans (hnew data hmem'))
  · obtain ⟨hblob, hlocked, hmvcc, -, -⟩ := hperforms.reads lock l data hmem hlock
    exact ⟨hblob, hlocked, hmvcc, data, hnew data hmem, fun _ => rfl⟩

/-- A copy of an earlier transaction that the server answers to be current is requested again. -/
theorem not_requestsOnce (hinv : Inv h) (hstale : ¬h.NewerAtServer a) (hstep : h.step a = some h') :
    ¬h'.RequestsOnce := by
  intro honce
  obtain ⟨hcopies, r, hperforms, rfl⟩ := step_eq_some hstep hinv.copies
  refine hstale fun p hp hlock hstale => ?_
  obtain ⟨data, hmem⟩ := hperforms.logged p.1 p.2 hp hlock
  obtain ⟨data', halone, -⟩ :=
    honce p.1 p.2 data (List.mem_append_right _ hmem) hlock p.1 hlock le_rfl
  have hread := DatabaseTransaction.readLocally_of_answersAlone halone hlock
  obtain ⟨-, -, -, -, hanswered⟩ := hperforms.reads p.1 p.2 data hmem hlock
  have hnone := (hanswered.resolve_left fun hfresh => hfresh.2 hstale).1
  rw [hnone] at hread
  cases hread

/-! ### The first access of a transaction -/

/-- The cached copies that sticky locks cover get the id of the new transaction. -/
theorem find_updateTxnIdForHeldLocks {cache : FlatMap BlobLocation CachedBlob} {locks : HeldLocks}
    {transactionId : ℕ} : (updateTxnIdForHeldLocks cache locks transactionId).find l =
      (cache.find l).map fun c => if l ∈ locks.read.keys ++ locks.write.keys then
        { c with transactionId := transactionId } else c := by
  rw [updateTxnIdForHeldLocks]
  induction locks.read.keys ++ locks.write.keys generalizing cache with
  | nil => simp
  | cons l' ls ih =>
    rw [List.foldl_cons, ih]
    by_cases hl : l = l'
    · subst hl
      cases hc : cache.find l with
      | none => simp [hc]
      | some c => simp [FlatMap.find_insert]
    · cases hc : cache.find l' with
      | none => simp [hl]
      | some c => simp [FlatMap.find_insert, hl]

/-- What earlier transactions may leave of a database: copies in the cache, with their ids. A copy
under a read lock that the client kept is current. -/
structure LeftBehind (database : Database) (transactionId : ℕ) (isMVCC : Bool)
    (server : BlobLocation → VersionedContent) : Prop where
  earlier : ∀ l c, database.cache.find l = some c → c.transactionId ≠ transactionId
  sticky : isMVCC = false → ∀ locks l c, database.stickyLocks = some locks →
    locks.getLockType l = .read → database.cache.find l = some c →
      c.lastUpdated = (server l).commitId

/-- A transaction that begins after another one left its copies behind has the invariant. -/
theorem inv_start {database : Database} {transactionId : ℕ} {isMVCC : Bool}
    {server : BlobLocation → VersionedContent}
    (hleft : LeftBehind database transactionId isMVCC server) :
    Inv (start database transactionId isMVCC server) := by
  refine ⟨fun l c hc => ?_, fun l hl => ?_, fun _ _ _ hmem => (nomatch hmem)⟩
  · obtain ⟨hfind, htxn⟩ := DatabaseTransaction.currentCopy_eq_some.mp hc
    change FlatMap.find (match database.stickyLocks with
      | none => database.cache
      | some locks => updateTxnIdForHeldLocks database.cache locks transactionId) l =
        some c at hfind
    change c.transactionId = transactionId at htxn
    cases hsticky : database.stickyLocks with
    | none =>
      rw [hsticky] at hfind
      exact absurd htxn (hleft.earlier l c hfind)
    | some locks =>
      rw [hsticky] at hfind
      dsimp only at hfind
      rw [find_updateTxnIdForHeldLocks] at hfind
      obtain ⟨c₀, hfind₀, hc₀⟩ := Option.map_eq_some_iff.mp hfind
      have htype : (start database transactionId isMVCC server).database.lockType l =
          locks.getLockType l := by
        change HeldLocks.getLockType (database.stickyLocks.getD .empty) l = _
        rw [hsticky]
        rfl
      rw [htype]
      split_ifs at hc₀ with hheld
      · rw [List.mem_append, FlatMap.mem_keys, FlatMap.mem_keys] at hheld
        refine ⟨?_, fun hmvcc hone => ?_⟩
        · unfold HeldLocks.getLockType
          split_ifs with hw hr
          · decide
          · decide
          · exact absurd hheld (not_or.mpr ⟨hr, hw⟩)
        · have hread : locks.getLockType l = .read := by
            cases hg : locks.getLockType l <;> rw [hg] at hone <;> first | rfl | cases hone
          have hcurrent := hleft.sticky hmvcc locks l c₀ hsticky hread hfind₀
          rw [← hc₀]
          exact hcurrent
      · rw [hc₀] at hfind₀
        exact absurd htxn (hleft.earlier l c hfind₀)
  · rcases hl with hl | hl | hl <;> cases hl

/-- In every run of a transaction in which, whenever a location is requested of which an earlier
transaction left a copy, the server has a newer version: what was read is read again without the
server, and is the same. A step in which the server answers that such a copy is current ends
this. -/
theorem requestsOnce_iff {database : Database} {transactionId : ℕ} {isMVCC : Bool}
    {server : BlobLocation → VersionedContent}
    {as : List ((BlobLocation → VersionedContent) × Operation)}
    (hleft : LeftBehind database transactionId isMVCC server)
    (hrun : GuardedRun step NewerAtServer (start database transactionId isMVCC server) as h) :
    h.RequestsOnce ∧
      ∀ a h', step h a = some h' → (h'.RequestsOnce ↔ h.NewerAtServer a) :=
  hrun.exact (I := fun _ h => Inv h) (P := fun _ h => h.RequestsOnce) (inv_start hleft)
    (fun _ _ _ _ hinv hnewer hstep => hinv.step hnewer hstep) (fun _ _ hinv => hinv.requestsOnce)
    fun _ _ _ _ hinv hstale hstep => not_requestsOnce hinv hstale hstep

/-- An earlier transaction left a copy of the first blob. -/
def leftCopy : Database := ⟨FlatMap.empty.insert ⟨0, 0, 0⟩ ⟨[7], 5, 1⟩, none⟩

theorem leftBehind_leftCopy (server : BlobLocation → VersionedContent) :
    LeftBehind leftCopy 2 false server where
  earlier l c h := by
    rw [leftCopy, FlatMap.find_insert, FlatMap.find_empty] at h
    split_ifs at h
    rw [← Option.some.inj h]
    decide
  sticky _ _ _ _ h := nomatch h

/-- The server has a newer version, which is requested once. -/
theorem requestsOnce_iff_newer : ∃ h : History,
    GuardedRun step NewerAtServer (start leftCopy 2 false fun _ => ⟨6, [8]⟩)
      [(fun _ => ⟨6, [8]⟩, .readBlob .read ⟨0, 0, 0⟩)] h ∧
    h.log = [.read .read ⟨0, 0, 0⟩ [8]] ∧ h.RequestsOnce ∧
      ∀ a h', step h a = some h' → (h'.RequestsOnce ↔ h.NewerAtServer a) := by
  let server : BlobLocation → VersionedContent := fun _ => ⟨6, [8]⟩
  have hcheck : ((start leftCopy 2 false server).step (server, .readBlob .read ⟨0, 0, 0⟩)).map
      History.log = some [.read .read ⟨0, 0, 0⟩ [8]] := by
    decide +kernel
  obtain ⟨h, hstep, hlog⟩ := Option.map_eq_some_iff.mp hcheck
  have hnewer : (start leftCopy 2 false server).NewerAtServer
      (server, .readBlob .read ⟨0, 0, 0⟩) := by
    rintro p hp - ⟨-, c, hc, -, hcurrent⟩
    rw [List.mem_singleton.mp hp] at hc
    obtain rfl := Option.some.inj (hc.symm.trans (by decide : _ = some (⟨[7], 5, 1⟩ : CachedBlob)))
    exact absurd hcurrent (show (6 : ℕ) ≠ 5 by decide)
  have hrun := GuardedRun.nil.snoc hnewer hstep
  exact ⟨h, hrun, hlog, requestsOnce_iff (leftBehind_leftCopy _) hrun⟩

/-- The server answers that the copy is current, and is asked again when the blob is read again. -/
theorem not_requestsOnce_of_current : ∃ h r, LeftBehind leftCopy 2 false (fun _ => ⟨5, [7]⟩) ∧
    (start leftCopy 2 false fun _ => ⟨5, [7]⟩).step
      (fun _ => ⟨5, [7]⟩, .readBlob .read ⟨0, 0, 0⟩) = some h ∧
    h.log = [.read .read ⟨0, 0, 0⟩ [7]] ∧
    h.database.readBlob (fun _ => ⟨5, [7]⟩) .read ⟨0, 0, 0⟩ = some r ∧
    r.requested = [⟨⟨0, 0, 0⟩, 5⟩] ∧ ¬h.RequestsOnce := by
  let server : BlobLocation → VersionedContent := fun _ => ⟨5, [7]⟩
  have hcheck : ((start leftCopy 2 false server).step (server, .readBlob .read ⟨0, 0, 0⟩)).bind
      (fun h => (h.database.readBlob server .read ⟨0, 0, 0⟩).map fun r =>
        decide (h.log = [.read .read ⟨0, 0, 0⟩ [7]] ∧ r.requested = [⟨⟨0, 0, 0⟩, 5⟩])) =
          some true := by
    decide +kernel
  obtain ⟨h, hstep, hcheck⟩ := Option.bind_eq_some_iff.mp hcheck
  obtain ⟨r, hread, hcheck⟩ := Option.map_eq_some_iff.mp hcheck
  obtain ⟨hlog, hrequested⟩ := of_decide_eq_true hcheck
  refine ⟨h, r, leftBehind_leftCopy _, hstep, hlog, hread, hrequested, fun honce => ?_⟩
  obtain ⟨data, halone, -⟩ := honce .read ⟨0, 0, 0⟩ [7] (hlog ▸ List.mem_singleton_self _) nofun
    .read nofun le_rfl
  rw [halone.1 server] at hread
  rw [← Option.some.inj hread] at hrequested
  cases hrequested

end History

end ClientLib

end BlobsDb
