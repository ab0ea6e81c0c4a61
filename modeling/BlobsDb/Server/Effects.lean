import BlobsDb.Server.Server

/-!
# What the handlers change

A read that is tried changes the database it reads and is answered or left (`TriedRead`). The
other clients, the databases in use and the queues stay as they are until a transaction ends or a
database is opened or closed.
-/

namespace BlobsDb

/-- An induction over a fold that may fail. -/
theorem foldlM_induction {α σ : Type} {f : σ → α → Option σ} {P : σ → Prop} {l : List α} {s s' : σ}
    (h : l.foldlM f s = some s') (hs : P s)
    (hstep : ∀ a ∈ l, ∀ s s', f s a = some s' → P s → P s') : P s' := by
  induction l generalizing s with
  | nil =>
    obtain rfl := Option.some.inj h
    exact hs
  | cons a l ih =>
    rw [List.foldlM_cons] at h
    obtain ⟨s₁, h₁, h₂⟩ := Option.bind_eq_some_iff.mp h
    exact ih h₂ (hstep a List.mem_cons_self s s₁ h₁ hs)
      fun a ha => hstep a (List.mem_cons_of_mem _ ha)

/-! ### Answers to reads -/

/-- A complete answer to a read: an error, or a chain of messages that goes on except for the last
one. -/
inductive CompleteAnswer : List BlobsReadResponse → Prop
  | error {result : BlobsReadResponse.Result} (h : result ≠ .success) :
    CompleteAnswer [.createError result]
  | last {r : BlobsReadResponse} (h : r.result = .success) (hf : r.hasFollowMessage = false) :
    CompleteAnswer [r]
  | follow {r : BlobsReadResponse} {rs : List BlobsReadResponse} (h : r.result = .success)
    (hf : r.hasFollowMessage = true) (hrs : CompleteAnswer rs)
    (hs : ∀ r' ∈ rs, r'.result = .success) : CompleteAnswer (r :: rs)

/-- The messages of an answer all report success. -/
theorem success_of_buildResponses {fuel : ℕ} {es : List (BlobAddress × Option VersionedContent)}
    {rs : List BlobsReadResponse} (h : buildResponses fuel es = some rs) :
    ∀ r ∈ rs, r.result = .success := by
  induction fuel generalizing es rs with
  | zero =>
    cases es with
    | nil =>
      obtain rfl := Option.some.inj h
      exact fun r hr => nomatch hr
    | cons e es => cases h
  | succ fuel ih =>
    cases es with
    | nil =>
      obtain rfl := Option.some.inj h
      exact fun r hr => nomatch hr
    | cons e es =>
      simp only [buildResponses] at h
      split at h
      · cases h
      · split at h
        · cases h
        · next rs' hrs =>
          obtain rfl := Option.some.inj h
          intro r hr
          rcases List.mem_cons.mp hr with rfl | hr
          · rfl
          · exact ih hrs r hr

/-- The messages that are built are a complete answer, if there is something to answer. -/
theorem completeAnswer_of_buildResponses {fuel : ℕ}
    {es : List (BlobAddress × Option VersionedContent)} {rs : List BlobsReadResponse}
    (h : buildResponses fuel es = some rs) (hes : es ≠ []) : CompleteAnswer rs := by
  induction fuel generalizing es rs with
  | zero =>
    cases es with
    | nil => exact absurd rfl hes
    | cons e es => cases h
  | succ fuel ih =>
    cases es with
    | nil => exact absurd rfl hes
    | cons e es =>
      simp only [buildResponses] at h
      split at h
      · cases h
      · next chunk rest hne _ =>
        split at h
        · cases h
        · next rs' hrs =>
          obtain rfl := Option.some.inj h
          cases rest with
          | nil =>
            have : rs' = [] := by
              cases fuel <;> exact (Option.some.inj hrs).symm
            subst this
            exact .last rfl rfl
          | cons r rest =>
            exact .follow rfl rfl (ih hrs (List.cons_ne_nil _ _)) (success_of_buildResponses hrs)

/-- A read of at least one location gets a complete answer. -/
theorem completeAnswer_of_buildBlobsReadResponse {h : Heap} {snapshot : Pointer} {m : BlobsRead}
    {rs : List BlobsReadResponse} (hrs : buildBlobsReadResponse h snapshot m = some rs)
    (hm : m.blobs ≠ []) : CompleteAnswer rs := by
  unfold buildBlobsReadResponse at hrs
  split at hrs
  · cases hrs
  · next es hes =>
    refine completeAnswer_of_buildResponses hrs fun hnil => hm ?_
    rw [← (Heap.answerBlobs_eq_some hes).1, hnil]
    rfl

/-- A location that is missing is never reported as a success. -/
theorem requested_ne_success {μ : Type} {mode : LockMode} {t : DbTree μ 3} {l : BlobLocation} :
    (Database.requested mode t l).2 ≠ some .success := by
  unfold Database.requested
  split_ifs <;> simp

/-- A missing location is an error, never a success. -/
theorem ensureRequestedBlobsExist_ne_success {μ : Type} {snapshot : Pointer} {t : DbTree μ 3}
    {mode : LockMode} {as : List BlobAddress} {db db' : Database}
    (h : Database.ensureRequestedBlobsExist snapshot t mode as db = some (some .success, db')) :
    False := by
  induction as generalizing db with
  | nil => cases h
  | cons a as ih =>
    rw [Database.ensureRequestedBlobsExist] at h
    split at h
    · cases h
    · split at h
      · next error herror =>
        cases h
        exact requested_ne_success herror
      · exact ih h

namespace Server

variable {s s' : Server} {c d : ClientId} {name name' : DatabaseName} {m : BlobsRead} {b : Bool}
  {od od' : OpenDatabase}

/-! ### Access to the state -/

@[simp]
theorem clients_setDatabase : (s.setDatabase name od).clients = s.clients := rfl

@[simp]
theorem clients_send (r : Response) : (s.send c r).clients = s.clients := rfl

@[simp]
theorem clients_sendError (r : BlobsReadResponse.Result) : (s.sendError c r).clients = s.clients :=
  rfl

@[simp]
theorem databases_send (r : Response) : (s.send c r).databases = s.databases := rfl

@[simp]
theorem databases_sendError (r : BlobsReadResponse.Result) :
    (s.sendError c r).databases = s.databases := rfl

@[simp]
theorem databases_setClient (client : Client) : (s.setClient c client).databases = s.databases :=
  rfl

@[simp]
theorem sent_setClient (client : Client) : (s.setClient c client).sent = s.sent := rfl

@[simp]
theorem sent_setDatabase : (s.setDatabase name od).sent = s.sent := rfl

@[simp]
theorem databases_setDatabase_self : (s.setDatabase name od).databases name = some od :=
  Function.update_self _ _ _

theorem databases_setDatabase_of_ne (h : name' ≠ name) :
    (s.setDatabase name od).databases name' = s.databases name' := Function.update_of_ne h _ _

@[simp]
theorem clients_setClient_self (client : Client) : (s.setClient c client).clients c = client :=
  Function.update_self _ _ _

theorem clients_setClient_of_ne (h : d ≠ c) (client : Client) :
    (s.setClient c client).clients d = s.clients d := Function.update_of_ne h _ _

/-- Who is in a transaction is told by the flags of the clients. -/
theorem active_setClient_of_eq {client : Client}
    (h : client.hasTransaction = (s.clients c).hasTransaction) :
    (s.setClient c client).active = s.active := by
  funext d
  by_cases hd : d = c
  · rw [hd, active, clients_setClient_self, h, active]
  · rw [active, clients_setClient_of_ne hd, active]

/-- Updating a database changes its entry, and fails if it is not open. -/
theorem updateDatabase_eq_some_iff {f : OpenDatabase → Option OpenDatabase} :
    s.updateDatabase f name = some s' ↔
      ∃ od od', s.databases name = some od ∧ f od = some od' ∧ s' = s.setDatabase name od' := by
  unfold updateDatabase
  cases s.databases name with
  | none => simp
  | some od =>
    simp only [Option.some.injEq, exists_and_left, exists_eq_left']
    cases f od <;> simp [eq_comm]

/-- The messages sent to a client. -/
def sentTo (s : Server) (c : ClientId) : List Response :=
  (s.sent.filter fun e => e.1 = c).map Prod.snd

@[simp]
theorem sentTo_setClient (client : Client) : (s.setClient d client).sentTo c = s.sentTo c := rfl

@[simp]
theorem sentTo_setDatabase : (s.setDatabase name od).sentTo c = s.sentTo c := rfl

@[simp]
theorem sentTo_send_self (r : Response) : (s.send c r).sentTo c = s.sentTo c ++ [r] := by
  simp [sentTo, send]

theorem sentTo_send_of_ne (h : d ≠ c) (r : Response) : (s.send c r).sentTo d = s.sentTo d := by
  simp [sentTo, send, h.symm]

/-- Sends all messages of an answer. -/
def sendAll (s : Server) (c : ClientId) (rs : List BlobsReadResponse) : Server :=
  { s with sent := s.sent ++ rs.map fun r => (c, .blobsRead r) }

/-- The messages of an answer are sent to the client that asked. -/
theorem sendBlobs_eq (s : Server) (m : BlobsRead) (db : Database) (snapshot : Pointer) :
    s.sendBlobs m db snapshot =
      (buildBlobsReadResponse db.heap snapshot m).map (s.sendAll m.clientId) := by
  have hfold : ∀ (rs : List BlobsReadResponse) (s : Server),
      rs.foldl (fun s r => s.send m.clientId (.blobsRead r)) s = s.sendAll m.clientId rs :=
    fun rs => by
      induction rs with
      | nil => exact fun s => by simp [sendAll]
      | cons r rs ih =>
        intro s
        rw [List.foldl_cons, ih]
        simp [sendAll, send]
  exact congrArg (Option.map · (buildBlobsReadResponse db.heap snapshot m))
    (funext fun rs => hfold rs s)

/-- The answers to a read are sent if they can be built. -/
theorem sendBlobs_eq_some_iff {db : Database} {snapshot : Pointer} :
    s.sendBlobs m db snapshot = some s' ↔
      ∃ rs, buildBlobsReadResponse db.heap snapshot m = some rs ∧ s' = s.sendAll m.clientId rs := by
  rw [sendBlobs_eq, Option.map_eq_some_iff]
  exact exists_congr fun rs => and_congr_right fun _ => eq_comm

/-- The client is sent the answers. -/
theorem sentTo_sendAll_self (rs : List BlobsReadResponse) :
    (s.sendAll c rs).sentTo c = s.sentTo c ++ rs.map .blobsRead := by
  simp [sentTo, sendAll, List.filter_map, Function.comp_def]

/-- The other clients are sent nothing. -/
theorem sentTo_sendAll_of_ne (h : d ≠ c) (rs : List BlobsReadResponse) :
    (s.sendAll c rs).sentTo d = s.sentTo d := by
  simp [sentTo, sendAll, List.filter_map, Function.comp_def, h.symm]

/-! ### Trying a read -/

/-- What trying to acquire the locks of a read changes. -/
theorem acquireLocks_eq_some {active : ClientId → Bool} {t : Tree 3}
    (h : acquireLocks active m t od = some (b, od')) :
    ∃ db, allLocksInMessage t
        (fun l db => some (od.locks.canAcquire active m.clientId l m.needsWriteLock, db))
        (fun path db => db.loadPath db.snapshot path) m.blobs od.database = some (b, db) ∧
      (b = false ∧ od' = { od with database := db } ∨
        b = true ∧ ∃ ls, forEachLockInMessage t m.blobs = some ls ∧ od' = { od with
          database := db, locks := od.locks.acquireLocks m.clientId m.needsWriteLock ls }) := by
  unfold acquireLocks at h
  dsimp only at h
  split at h
  · cases h
  · next db hdb =>
    cases h
    exact ⟨db, hdb, Or.inl ⟨rfl, rfl⟩⟩
  · next db hdb =>
    split at h
    · cases h
    · next ls hls =>
      cases h
      exact ⟨db, hdb, Or.inr ⟨rfl, ls, hls, rfl⟩⟩

/-- A read finds its database and the snapshot to read, and looks for the requested locations. -/
structure ReadOn (m : BlobsRead) (s : Server) (name : DatabaseName) (od : OpenDatabase)
    (mvcc : Bool) (snapshot : Pointer) (t : Tree 3) (db : Database)
    (error : Option BlobsReadResponse.Result) : Prop where
  getDatabase : s.getDatabase m.clientId m.databaseId = some name
  database : s.databases name = some od
  active : m.isDirtyRead = true ∨ s.active m.clientId = true
  isMVCC : mvcc = (!m.isDirtyRead && s.isDatabaseMVCC m.clientId m.databaseId)
  write : mvcc = false ∨ m.needsWriteLock = false
  snapshotFor : od.database.snapshotFor mvcc = some snapshot
  tree : od.database.tree snapshot = some t
  exist : Database.ensureRequestedBlobsExist snapshot t m.lockMode m.blobs od.database =
    some (error, db)

/-- What `tryHandleBlobsRead` does. -/
inductive TriedRead (m : BlobsRead) (s : Server) : Bool → Server → Prop
  | error {error : BlobsReadResponse.Result} (hne : error ≠ .success) :
    TriedRead m s true (s.sendError m.clientId error)
  | missing {name : DatabaseName} {od : OpenDatabase} {mvcc : Bool} {snapshot : Pointer}
      {t : Tree 3} {db : Database} {error : BlobsReadResponse.Result}
      (hread : ReadOn m s name od mvcc snapshot t db (some error)) :
    TriedRead m s true ((s.setDatabase name { od with database := db }).sendError m.clientId error)
  | read {name : DatabaseName} {od : OpenDatabase} {mvcc : Bool} {snapshot : Pointer} {t : Tree 3}
      {db : Database} {rs : List BlobsReadResponse}
      (hread : ReadOn m s name od mvcc snapshot t db none)
      (hfree : (m.isDirtyRead || mvcc) = true)
      (hrs : buildBlobsReadResponse db.heap snapshot m = some rs) :
    TriedRead m s true ((s.setDatabase name { od with database := db }).sendAll m.clientId rs)
  | refused {name : DatabaseName} {od od' : OpenDatabase} {snapshot : Pointer} {t : Tree 3}
      {db : Database} (hread : ReadOn m s name od false snapshot t db none)
      (hdirty : m.isDirtyRead = false)
      (hacquire : acquireLocks s.active m t { od with database := db } = some (false, od')) :
    TriedRead m s false (s.setDatabase name od')
  | granted {name : DatabaseName} {od od' : OpenDatabase} {snapshot : Pointer} {t : Tree 3}
      {db : Database} {rs : List BlobsReadResponse}
      (hread : ReadOn m s name od false snapshot t db none) (hdirty : m.isDirtyRead = false)
      (hacquire : acquireLocks s.active m t { od with database := db } = some (true, od'))
      (hrs : buildBlobsReadResponse od'.database.heap snapshot m = some rs) :
    TriedRead m s true ((s.setDatabase name od').sendAll m.clientId rs)

/-- Trying a read is one of the cases. -/
theorem triedRead (h : s.tryHandleBlobsRead m = some (b, s')) : TriedRead m s b s' := by
  unfold tryHandleBlobsRead at h
  dsimp only at h
  split at h
  · cases h
    exact .error (by decide)
  · next name hname =>
    by_cases hactive : (!m.isDirtyRead && !s.active m.clientId) = true
    · rw [if_pos hactive] at h
      cases h
      exact .error (by decide)
    rw [if_neg hactive] at h
    by_cases hmvcc : (!m.isDirtyRead && s.isDatabaseMVCC m.clientId m.databaseId &&
        m.needsWriteLock) = true
    · rw [if_pos hmvcc] at h
      cases h
      exact .error (by decide)
    · rw [if_neg hmvcc] at h
      split at h
      · cases h
      · next od hod =>
        split at h
        · cases h
        · next snapshot hsnapshot =>
          split at h
          · cases h
          · next t ht =>
            have hactive' : m.isDirtyRead = true ∨ s.active m.clientId = true := by
              cases hd : m.isDirtyRead <;> cases ha : s.active m.clientId <;> simp_all
            -- a read for writing under MVCC was refused above
            have hwrite : (!m.isDirtyRead && s.isDatabaseMVCC m.clientId m.databaseId) = false ∨
                m.needsWriteLock = false := by
              cases hw : m.needsWriteLock
              · exact Or.inr rfl
              · refine Or.inl (Bool.eq_false_iff.mpr fun hv => hmvcc ?_)
                rw [hv, hw]
                rfl
            split at h
            · cases h
            · next error db hens =>
              cases h
              exact .missing ⟨hname, hod, hactive', rfl, hwrite, hsnapshot, ht, hens⟩
            · next db hens =>
              have hread : ReadOn m s name od _ snapshot t db none :=
                ⟨hname, hod, hactive', rfl, hwrite, hsnapshot, ht, hens⟩
              -- dirty reads and MVCC reads go without locks
              split_ifs at h with hfree
              · obtain ⟨s₁, hs, heq⟩ := Option.map_eq_some_iff.mp h
                cases heq
                obtain ⟨rs, hrs, rfl⟩ := sendBlobs_eq_some_iff.mp hs
                exact .read hread hfree hrs
              · rw [Bool.not_eq_true, Bool.or_eq_false_iff] at hfree
                rw [hfree.2] at hread
                split at h
                · cases h
                · next od' hacquire =>
                  cases h
                  exact .refused hread hfree.1 hacquire
                · next od' hacquire =>
                  obtain ⟨s₁, hs, heq⟩ := Option.map_eq_some_iff.mp h
                  cases heq
                  obtain ⟨rs, hrs, rfl⟩ := sendBlobs_eq_some_iff.mp hs
                  exact .granted hread hfree.1 hacquire hrs

/-! ### What stays -/

/-- The reads that wait in a database. -/
def queue (s : Server) (name : DatabaseName) : List BlobsRead :=
  ((s.databases name).map OpenDatabase.queuedReads).getD []

/-- How many clients use a database, if it is open. -/
def useCount (s : Server) (name : DatabaseName) : Option ℕ :=
  (s.databases name).map OpenDatabase.useCount

/-- The clients, the files and the use of the databases are the same. -/
structure Kept (s s' : Server) : Prop where
  clients : s'.clients = s.clients
  files : s'.files = s.files
  databaseCloseDelay : s'.databaseCloseDelay = s.databaseCloseDelay
  useCount : ∀ name, s'.useCount name = s.useCount name

theorem Kept.refl (s : Server) : Kept s s := ⟨rfl, rfl, rfl, fun _ => rfl⟩

theorem Kept.trans {s'' : Server} (h : Kept s s') (h' : Kept s' s'') : Kept s s'' :=
  ⟨h'.clients.trans h.clients, h'.files.trans h.files,
    h'.databaseCloseDelay.trans h.databaseCloseDelay,
    fun name => (h'.useCount name).trans (h.useCount name)⟩

theorem kept_setDatabase (hod : s.databases name = some od) (hu : od'.useCount = od.useCount) :
    Kept s (s.setDatabase name od') := by
  refine ⟨rfl, rfl, rfl, fun name' => ?_⟩
  unfold useCount
  by_cases h : name' = name
  · subst h
    rw [databases_setDatabase_self, hod]
    exact congrArg some hu
  · rw [databases_setDatabase_of_ne h]

theorem queue_setDatabase_self : (s.setDatabase name od).queue name = od.queuedReads := by
  rw [queue, databases_setDatabase_self]
  rfl

theorem queue_setDatabase_of_ne (h : name' ≠ name) :
    (s.setDatabase name od).queue name' = s.queue name' := by
  rw [queue, databases_setDatabase_of_ne h]
  rfl

theorem queue_of_some (hod : s.databases name = some od) : s.queue name = od.queuedReads := by
  rw [queue, hod]
  rfl

/-- The queues stay when a database changes in something else. -/
theorem queue_setDatabase (hod : s.databases name = some od)
    (hq : od'.queuedReads = od.queuedReads) (name' : DatabaseName) :
    (s.setDatabase name od').queue name' = s.queue name' := by
  by_cases h : name' = name
  · subst h
    rw [queue_setDatabase_self, hq, queue_of_some hod]
  · exact queue_setDatabase_of_ne h

/-- A read that is tried keeps all queues, and is answered unless it stays. -/
structure Tried (m : BlobsRead) (s : Server) (b : Bool) (s' : Server) : Prop where
  kept : Kept s s'
  queue : ∀ name, s'.queue name = s.queue name
  sentTo_of_ne : ∀ d, d ≠ m.clientId → s'.sentTo d = s.sentTo d
  answer : ∃ rs : List BlobsReadResponse, s'.sentTo m.clientId = s.sentTo m.clientId ++
    rs.map .blobsRead ∧ (b = false → rs = []) ∧ (b = true → m.blobs ≠ [] → CompleteAnswer rs)

/-- An error is an answer. -/
theorem tried_error {s₁ : Server} {error : BlobsReadResponse.Result} (hne : error ≠ .success)
    (hkept : Kept s s₁) (hqueue : ∀ name, s₁.queue name = s.queue name)
    (hsent : s₁.sent = s.sent) : Tried m s true (s₁.sendError m.clientId error) := by
  have hto : ∀ d, s₁.sentTo d = s.sentTo d := fun d => by rw [sentTo, hsent, sentTo]
  refine ⟨hkept.trans ⟨rfl, rfl, rfl, fun _ => rfl⟩, hqueue,
    fun d hd => (sentTo_send_of_ne hd _).trans (hto d), [.createError error], ?_, nofun,
    fun _ _ => .error hne⟩
  rw [sendError, sentTo_send_self, hto]
  rfl

/-- Blobs are an answer. -/
theorem tried_answer {s₁ : Server} {rs : List BlobsReadResponse}
    (hrs : m.blobs ≠ [] → CompleteAnswer rs) (hkept : Kept s s₁)
    (hqueue : ∀ name, s₁.queue name = s.queue name) (hsent : s₁.sent = s.sent) :
    Tried m s true (s₁.sendAll m.clientId rs) := by
  have hto : ∀ d, s₁.sentTo d = s.sentTo d := fun d => by rw [sentTo, hsent, sentTo]
  refine ⟨hkept.trans ⟨rfl, rfl, rfl, fun _ => rfl⟩, hqueue,
    fun d hd => (sentTo_sendAll_of_ne hd _).trans (hto d), rs, ?_, nofun, fun _ => hrs⟩
  rw [sentTo_sendAll_self, hto]

/-- Locks are acquired without a look at the queue or the use count. -/
theorem acquireLocks_keeps {active : ClientId → Bool} {t : Tree 3}
    (h : acquireLocks active m t od = some (b, od')) :
    od'.queuedReads = od.queuedReads ∧ od'.useCount = od.useCount := by
  obtain ⟨db, -, ⟨-, rfl⟩ | ⟨-, ls, -, rfl⟩⟩ := acquireLocks_eq_some h <;> exact ⟨rfl, rfl⟩

/-- What trying a read does to clients, queues and what is sent. -/
theorem TriedRead.tried (h : TriedRead m s b s') : Tried m s b s' := by
  cases h with
  | error hne => exact tried_error hne (Kept.refl s) (fun _ => rfl) rfl
  | missing hread =>
    exact tried_error (fun h => ensureRequestedBlobsExist_ne_success (h ▸ hread.exist))
      (kept_setDatabase hread.database rfl) (queue_setDatabase hread.database rfl) rfl
  | read hread _ hrs =>
    exact tried_answer (completeAnswer_of_buildBlobsReadResponse hrs)
      (kept_setDatabase hread.database rfl) (queue_setDatabase hread.database rfl) rfl
  | refused hread _ hacquire =>
    obtain ⟨hq, hu⟩ := acquireLocks_keeps hacquire
    exact ⟨kept_setDatabase hread.database hu, queue_setDatabase hread.database hq, fun _ _ => rfl,
      [], (List.append_nil _).symm, fun _ => rfl, nofun⟩
  | granted hread _ hacquire hrs =>
    obtain ⟨hq, hu⟩ := acquireLocks_keeps hacquire
    exact tried_answer (completeAnswer_of_buildBlobsReadResponse hrs)
      (kept_setDatabase hread.database hu) (queue_setDatabase hread.database hq) rfl

/-- What a try of a read changes for the clients. -/
theorem tried (h : s.tryHandleBlobsRead m = some (b, s')) : Tried m s b s' := (triedRead h).tried

/-! ### Trying the reads that wait -/

/-- A read of the client waits in the database. -/
def Waits (s : Server) (c : ClientId) (name : DatabaseName) : Prop :=
  ∃ m ∈ s.queue name, m.clientId = c

/-- All reads that wait ask for something, and each client waits at most once. -/
structure QueuesWF (s : Server) : Prop where
  blobs : ∀ name, ∀ m ∈ s.queue name, m.blobs ≠ []
  nodup : ∀ name, ((s.queue name).map BlobsRead.clientId).Nodup
  single : ∀ c name name', s.Waits c name → s.Waits c name' → name = name'

/-- A client waits as before and is sent nothing, or it waited, waits no more and is answered. -/
inductive Served (c : ClientId) (s s' : Server) : Prop
  | same (hw : ∀ name, s'.Waits c name ↔ s.Waits c name) (hs : s'.sentTo c = s.sentTo c)
  | answered {name : DatabaseName} {rs : List BlobsReadResponse} (hw : s.Waits c name)
    (hno : ∀ name, ¬s'.Waits c name) (hrs : CompleteAnswer rs)
    (hs : s'.sentTo c = s.sentTo c ++ rs.map .blobsRead)

theorem Served.refl (c : ClientId) (s : Server) : Served c s s := .same (fun _ => Iff.rfl) rfl

/-- What is served in two rounds is served in both together. -/
theorem Served.trans {s'' : Server} (h : Served c s s') (h' : Served c s' s'') :
    Served c s s'' := by
  cases h with
  | same hw hs =>
    cases h' with
    | same hw' hs' => exact .same (fun name => (hw' name).trans (hw name)) (hs'.trans hs)
    | answered hw' hno hrs hs' => exact .answered ((hw _).mp hw') hno hrs (hs ▸ hs')
  | answered hw hno hrs hs =>
    cases h' with
    | same hw' hs' =>
      exact .answered hw (fun name h => hno name ((hw' name).mp h)) hrs (hs'.trans hs)
    | answered hw' => exact absurd hw' (hno _)

/-- Taking reads off the queues keeps them well formed. -/
theorem QueuesWF.of_sublist (h : QueuesWF s)
    (hsub : ∀ name, (s'.queue name).Sublist (s.queue name)) : QueuesWF s' := by
  have hwaits : ∀ c name, s'.Waits c name → s.Waits c name := fun c name ⟨m, hm, hc⟩ =>
    ⟨m, (hsub name).subset hm, hc⟩
  exact ⟨fun name m hm => h.blobs name m ((hsub name).subset hm),
    fun name => (h.nodup name).sublist ((hsub name).map _),
    fun c name name' hw hw' => h.single c name name' (hwaits c name hw) (hwaits c name' hw')⟩

/-- A pass over waiting reads leaves some of them, and sends messages only to their clients. -/
theorem processQueuedReads_keeps {qs qs' : List BlobsRead}
    (h : processQueuedReads qs s = some (qs', s')) :
    Kept s s' ∧ (∀ name, s'.queue name = s.queue name) ∧ qs'.Sublist qs ∧
      ∀ d, (∀ m ∈ qs, m.clientId ≠ d) → s'.sentTo d = s.sentTo d := by
  induction qs generalizing s qs' with
  | nil =>
    cases h
    exact ⟨Kept.refl _, fun _ => rfl, List.Sublist.refl _, fun _ _ => rfl⟩
  | cons m qs ih =>
    rw [processQueuedReads] at h
    split at h
    · cases h
    · next s₁ htry =>
      obtain ⟨h1, h2, h3, h4⟩ := ih h
      have ht := tried htry
      refine ⟨ht.kept.trans h1, fun name => (h2 name).trans (ht.queue name), h3.cons m,
        fun d hd => ?_⟩
      rw [h4 d fun m' hm' => hd m' (List.mem_cons_of_mem _ hm'),
        ht.sentTo_of_ne d (hd m List.mem_cons_self).symm]
    · next s₁ htry =>
      obtain ⟨⟨qs₁, s₂⟩, hnext, heq⟩ := Option.map_eq_some_iff.mp h
      cases heq
      obtain ⟨h1, h2, h3, h4⟩ := ih hnext
      have ht := tried htry
      refine ⟨ht.kept.trans h1, fun name => (h2 name).trans (ht.queue name), h3.cons_cons m,
        fun d hd => ?_⟩
      rw [h4 d fun m' hm' => hd m' (List.mem_cons_of_mem _ hm'),
        ht.sentTo_of_ne d (hd m List.mem_cons_self).symm]

/-- Each client of a pass waits on, or is answered. -/
theorem processQueuedReads_answers {qs qs' : List BlobsRead}
    (h : processQueuedReads qs s = some (qs', s')) (hn : (qs.map BlobsRead.clientId).Nodup)
    (hb : ∀ m ∈ qs, m.blobs ≠ []) (d : ClientId) :
    ((∃ m ∈ qs', m.clientId = d) ↔ ∃ m ∈ qs, m.clientId = d) ∧ s'.sentTo d = s.sentTo d ∨
      (∃ m ∈ qs, m.clientId = d) ∧ (∀ m ∈ qs', m.clientId ≠ d) ∧
        ∃ rs, CompleteAnswer rs ∧ s'.sentTo d = s.sentTo d ++ rs.map .blobsRead := by
  induction qs generalizing s qs' with
  | nil =>
    cases h
    exact Or.inl ⟨Iff.rfl, rfl⟩
  | cons m qs ih =>
    obtain ⟨hm, hn⟩ := List.nodup_cons.mp hn
    have hb' := fun m' hm' => hb m' (List.mem_cons_of_mem _ hm')
    have hnone : m.clientId = d → ∀ m' ∈ qs, m'.clientId ≠ d := fun hd m' hm' h =>
      hm (List.mem_map.mpr ⟨m', hm', h.trans hd.symm⟩)
    rw [processQueuedReads] at h
    split at h
    · cases h
    · next s₁ htry =>
      have ht := tried htry
      by_cases hd : m.clientId = d
      · obtain ⟨rs, hrs, -, hcomplete⟩ := ht.answer
        obtain ⟨-, -, hsub, hkeep⟩ := processQueuedReads_keeps h
        refine Or.inr ⟨⟨m, List.mem_cons_self, hd⟩, fun m' hm' => hnone hd m' (hsub.subset hm'), rs,
          hcomplete rfl (hb m List.mem_cons_self), ?_⟩
        rw [hkeep d (hnone hd), ← hd, hrs]
      · rw [← ht.sentTo_of_ne d fun h => hd h.symm]
        have hiff : (∃ m' ∈ m :: qs, m'.clientId = d) ↔ ∃ m' ∈ qs, m'.clientId = d := by
          simp [hd]
        rw [hiff]
        exact ih h hn hb'
    · next s₁ htry =>
      obtain ⟨⟨qs₁, s₂⟩, hnext, heq⟩ := Option.map_eq_some_iff.mp h
      cases heq
      have ht := tried htry
      obtain ⟨rs, hrs, hempty, -⟩ := ht.answer
      obtain rfl := hempty rfl
      by_cases hd : m.clientId = d
      · refine Or.inl ⟨iff_of_true ⟨m, List.mem_cons_self, hd⟩ ⟨m, List.mem_cons_self, hd⟩, ?_⟩
        obtain ⟨-, -, -, hkeep⟩ := processQueuedReads_keeps hnext
        rw [hkeep d (hnone hd), ← hd, hrs]
        exact List.append_nil _
      · rw [← ht.sentTo_of_ne d fun h => hd h.symm]
        have hiff : ∀ qs, (∃ m' ∈ m :: qs, m'.clientId = d) ↔ ∃ m' ∈ qs, m'.clientId = d :=
          fun qs => by simp [hd]
        have hall : (∀ m' ∈ m :: qs₁, m'.clientId ≠ d) ↔ ∀ m' ∈ qs₁, m'.clientId ≠ d := by
          simp [hd]
        rw [hiff, hiff, hall]
        exact ih hnext hn hb'

/-- What trying the reads that wait in a database changes. -/
theorem tryProcessQueuedReads_keeps (h : s.tryProcessQueuedReads name = some s') :
    Kept s s' ∧ (∀ name', name' ≠ name → s'.queue name' = s.queue name') ∧
      (s'.queue name).Sublist (s.queue name) ∧
      ∀ d, ¬s.Waits d name → s'.sentTo d = s.sentTo d := by
  unfold tryProcessQueuedReads at h
  split at h
  · cases h
  · next od hod =>
    split at h
    · cases h
    · next qs s₁ hprocess =>
      obtain ⟨h1, h2, h3, h4⟩ := processQueuedReads_keeps hprocess
      obtain ⟨od₁, od₂, hod₁, hod₂, rfl⟩ := updateDatabase_eq_some_iff.mp h
      obtain rfl := Option.some.inj hod₂
      refine ⟨h1.trans (kept_setDatabase hod₁ rfl), fun name' hne => ?_, ?_, fun d hd => ?_⟩
      · rw [queue_setDatabase_of_ne hne, h2]
      · rw [queue_setDatabase_self, queue_of_some hod]
        exact h3
      · refine h4 d fun m hm hc => hd ⟨m, ?_, hc⟩
        rw [queue_of_some hod]
        exact hm

/-- The clients whose reads are taken off a queue are answered. -/
theorem tryProcessQueuedReads_served (h : s.tryProcessQueuedReads name = some s')
    (hwf : QueuesWF s) (d : ClientId) : Served d s s' := by
  obtain ⟨-, hother, -, -⟩ := tryProcessQueuedReads_keeps h
  unfold tryProcessQueuedReads at h
  split at h
  · cases h
  · next od hod =>
    split at h
    · cases h
    · next qs s₁ hprocess =>
      have hqueue := queue_of_some hod
      have hn := hwf.nodup name
      have hb := hwf.blobs name
      rw [hqueue] at hn hb
      obtain ⟨od₁, od₂, hod₁, hod₂, rfl⟩ := updateDatabase_eq_some_iff.mp h
      obtain rfl := Option.some.inj hod₂
      have hself : ∀ {P : Prop}, (∃ m ∈ qs, m.clientId = d) = P →
          (s₁.setDatabase name { od₁ with queuedReads := qs }).Waits d name = P := fun hP => by
        rw [Waits, queue_setDatabase_self]
        exact hP
      have hbefore : s.Waits d name ↔ ∃ m ∈ od.queuedReads, m.clientId = d := by
        rw [Waits, hqueue]
      rcases processQueuedReads_answers hprocess hn hb d with
        ⟨hw, hs⟩ | ⟨hw, hno, rs, hrs, hs⟩
      · refine .same (fun name' => ?_) hs
        by_cases hne : name' = name
        · subst hne
          rw [hself rfl, hw, hbefore]
        · rw [Waits, hother name' hne, Waits]
      · refine .answered (hbefore.mpr hw) (fun name' hw' => ?_) hrs hs
        by_cases hne : name' = name
        · subst hne
          rw [hself rfl] at hw'
          obtain ⟨m, hm, hc⟩ := hw'
          exact hno m hm hc
        · rw [Waits, hother name' hne] at hw'
          exact hne (hwf.single d _ _ hw' (hbefore.mpr hw))

/-! ### Ending a transaction -/

/-- A client leaves a database: its reads are taken off the queue, and nothing else of the queue. -/
theorem leaveDatabase_eq_some {slot : DatabaseSlot} (h : leaveDatabase c b s slot = some s') :
    slot.database = none ∧ s' = s ∨ ∃ name od od', slot.database = some name ∧
      s.databases name = some od ∧ od'.useCount = od.useCount ∧
      od'.queuedReads = od.queuedReads.filter (fun m => m.clientId ≠ c) ∧
      s' = s.setDatabase name od' := by
  unfold leaveDatabase at h
  split at h
  · next hslot => exact Or.inl ⟨hslot, (Option.some.inj h).symm⟩
  · next name hslot =>
    obtain ⟨od, od', hod, hod', rfl⟩ := updateDatabase_eq_some_iff.mp h
    obtain ⟨book, -, rfl⟩ := Option.map_eq_some_iff.mp hod'
    exact Or.inr ⟨name, od, OpenDatabase.dropReads c { od with
        locks := book
        database := if slot.isMVCC then od.database.endMVCC else od.database },
      hslot, hod, rfl, rfl, rfl⟩

/-- The reads of a client leave the queues of its databases. -/
theorem foldlM_leaveDatabase {slots : List DatabaseSlot}
    (h : slots.foldlM (leaveDatabase c b) s = some s') :
    Kept s s' ∧ s'.sent = s.sent ∧ ∀ name, s'.queue name =
      if name ∈ slots.filterMap DatabaseSlot.database then
        (s.queue name).filter (fun m => m.clientId ≠ c) else s.queue name := by
  induction slots generalizing s with
  | nil =>
    obtain rfl := Option.some.inj h
    exact ⟨Kept.refl _, rfl, fun _ => rfl⟩
  | cons slot slots ih =>
    rw [List.foldlM_cons] at h
    obtain ⟨s₁, h₁, h₂⟩ := Option.bind_eq_some_iff.mp h
    obtain ⟨hkept, hsent, hqueue⟩ := ih h₂
    rcases leaveDatabase_eq_some h₁ with ⟨hslot, rfl⟩ | ⟨name, od, od', hslot, hod, hu, hq, rfl⟩
    · refine ⟨hkept, hsent, fun name => ?_⟩
      rw [hqueue, List.filterMap_cons_none hslot]
    · refine ⟨(kept_setDatabase hod hu).trans hkept, hsent, fun name' => ?_⟩
      rw [hqueue, List.filterMap_cons_some hslot]
      by_cases hne : name' = name
      · subst hne
        rw [queue_setDatabase_self, hq, queue_of_some hod, if_pos List.mem_cons_self]
        split_ifs
        · rw [List.filter_filter]
          simp
        · rfl
      · rw [queue_setDatabase_of_ne hne]
        simp only [List.mem_cons, hne, false_or]

/-- What the end of a transaction changes: the client waits no more in its databases, and the
other clients are served. -/
structure Ended (c : ClientId) (s s' : Server) : Prop where
  clients : s'.clients = Function.update s.clients c { s.clients c with hasTransaction := false }
  files : s'.files = s.files
  databaseCloseDelay : s'.databaseCloseDelay = s.databaseCloseDelay
  useCount : ∀ name, s'.useCount name = s.useCount name
  queue : ∀ name, (s'.queue name).Sublist (s.queue name)
  not_waits : ∀ name ∈ s.openNames c, ¬s'.Waits c name
  sentTo : s'.sentTo c = s.sentTo c
  sentTo_of_not_waits : ∀ d, (∀ name, ¬s.Waits d name) → s'.sentTo d = s.sentTo d
  served : QueuesWF s → ∀ d, d ≠ c → Served d s s'

/-- Who waits after reads were taken off a queue waited before. -/
theorem Waits.of_sublist (hsub : (s'.queue name).Sublist (s.queue name)) (h : s'.Waits c name) :
    s.Waits c name := by
  obtain ⟨m, hm, hc⟩ := h
  exact ⟨m, hsub.subset hm, hc⟩

/-- Trying the reads in the queues of some databases: clients without reads there are sent nothing,
the others are served. -/
theorem foldlM_tryProcessQueuedReads {names : List DatabaseName}
    (h : names.foldlM tryProcessQueuedReads s = some s') :
    Kept s s' ∧ (∀ name, (s'.queue name).Sublist (s.queue name)) ∧
      (∀ d, (∀ name ∈ names, ¬s.Waits d name) → s'.sentTo d = s.sentTo d) ∧
      (QueuesWF s → ∀ d, Served d s s') := by
  induction names generalizing s with
  | nil =>
    obtain rfl := Option.some.inj h
    exact ⟨Kept.refl _, fun _ => List.Sublist.refl _, fun _ _ => rfl, fun _ d => Served.refl d _⟩
  | cons name names ih =>
    rw [List.foldlM_cons] at h
    obtain ⟨s₁, h₁, h₂⟩ := Option.bind_eq_some_iff.mp h
    obtain ⟨hkept, hother, hself, hsent⟩ := tryProcessQueuedReads_keeps h₁
    obtain ⟨h3, h4, h5, h6⟩ := ih h₂
    have hsub : ∀ name, (s₁.queue name).Sublist (s.queue name) := fun name' => by
      by_cases hne : name' = name
      · exact hne ▸ hself
      · rw [hother name' hne]
    refine ⟨hkept.trans h3, fun name => (h4 name).trans (hsub name), fun d hd => ?_,
      fun hwf d => ?_⟩
    · rw [h5 d fun name' hn hw => hd name' (List.mem_cons_of_mem _ hn) (hw.of_sublist (hsub name')),
        hsent d (hd name List.mem_cons_self)]
    · exact (tryProcessQueuedReads_served h₁ hwf d).trans (h6 (hwf.of_sublist hsub) d)

/-- What the end of a transaction does to clients, queues and what is sent. -/
theorem ended_abortTransaction (h : s.abortTransaction c b = some s')
    (hactive : s.active c = true) : Ended c s s' := by
  rw [abortTransaction, if_pos hactive] at h
  split at h
  · cases h
  · next s₁ hs₁ =>
    obtain ⟨s₀, hleave, rfl⟩ := Option.map_eq_some_iff.mp hs₁
    obtain ⟨hkept, hsent, hqueue⟩ := foldlM_leaveDatabase hleave
    replace hqueue : ∀ name, s₀.queue name = if name ∈ s.openNames c then
      (s.queue name).filter (fun m => m.clientId ≠ c) else s.queue name := hqueue
    obtain ⟨hkept', hqueue', hto, hserved⟩ := foldlM_tryProcessQueuedReads h
    set s₁ := s₀.setClient c { s₀.clients c with hasTransaction := false } with hs₁
    have hto₁ : ∀ d, s₁.sentTo d = s.sentTo d := fun d => by
      rw [hs₁, sentTo_setClient, Server.sentTo, hsent, Server.sentTo]
    have hsub : ∀ name, (s₁.queue name).Sublist (s.queue name) := fun name => by
      change (s₀.queue name).Sublist _
      rw [hqueue]
      split_ifs
      · exact List.filter_sublist
      · exact List.Sublist.refl _
    have hno : ∀ name ∈ s.openNames c, ¬s₁.Waits c name := fun name hn ⟨m, hm, hc⟩ => by
      have hm' : m ∈ s₀.queue name := hm
      rw [hqueue, if_pos hn] at hm'
      simpa [hc] using (List.mem_filter.mp hm').2
    have hnames : s₁.openNames c = s.openNames c := by
      rw [hs₁, openNames, clients_setClient_self, openNames, hkept.clients]
    refine ⟨?_, hkept'.files.trans hkept.files,
      hkept'.databaseCloseDelay.trans hkept.databaseCloseDelay,
      fun name => (hkept'.useCount name).trans (hkept.useCount name),
      fun name => (hqueue' name).trans (hsub name),
      fun name hn hw => hno name hn (hw.of_sublist (hqueue' name)), ?_, fun d hd => ?_,
      fun hwf d hd => ?_⟩
    · rw [hkept'.clients, hs₁, setClient, hkept.clients]
    · rw [hto c fun name hn => hno name (hnames ▸ hn), hto₁]
    · rw [hto d fun name _ hw => hd name (hw.of_sublist (hsub name)), hto₁]
    · refine Served.trans (.same (fun name => ?_) (hto₁ d)) (hserved (hwf.of_sublist hsub) d)
      have hq : s₁.queue name = _ := hqueue name
      rw [Waits, hq, Waits]
      split_ifs
      · refine exists_congr fun m => ?_
        rw [List.mem_filter]
        constructor
        · exact fun hm => ⟨hm.1.1, hm.2⟩
        · exact fun hm => ⟨⟨hm.1, by simpa using fun hc => hd (hm.2.symm.trans hc)⟩, hm.2⟩
      · exact Iff.rfl

end Server

end BlobsDb
