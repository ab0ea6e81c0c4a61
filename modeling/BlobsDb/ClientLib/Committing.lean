import Mathlib.Logic.Relation
import BlobsDb.ClientLib.Transaction
import BlobsDb.Server.Events
import BlobsDb.Storage.Running

/-!
# Committing on several servers

A session has a connection to each server it uses, and commits on all of them: it sends the
messages to every server with a running transaction, and then awaits the answers one after
another. The servers deal with the messages, and with those of other clients, in the meantime.

An answer other than success ends the commit. The answers still to come stay in their queues, and
the session believes that all its transactions are running, while the server ended its own. So
the session and the servers are in step after a commit if and only if every server reported
success (`Session.inStep_iff`).
-/

namespace BlobsDb

namespace ClientLib

abbrev ConnectionId := ℕ

/-- `BlobCache::CachedBlob` -/
structure CachedBlob where
  data : List UInt8
  lastUpdated : CommitId
  transactionId : ℕ
  deriving DecidableEq

/-- `Database`: what the client keeps of an open database between transactions. -/
structure Database where
  cache : FlatMap BlobLocation CachedBlob
  stickyLocks : Option HeldLocks
  deriving DecidableEq

/-- A connection to a server, with the messages that are under way to it, and how many of its
messages the client has taken from the receive queue. -/
structure Connection where
  server : Server
  clientId : ClientId
  inFlight : List TransactionCommit
  awaited : ℕ
  databases : FlatMap DatabaseId Database

/-- `Session`: the connections, and the transactions that are running in the belief of the
client, at most one on each connection. -/
structure Session where
  connections : ConnectionId → Connection
  active : FlatMap ConnectionId Transaction

/-- All that the server sent to the client. -/
def Connection.received (k : Connection) : List Response := k.server.sentTo k.clientId

/-- `ReceiveMessageQueue` -/
def Connection.receiveQueue (k : Connection) : List Response := k.received.drop k.awaited

/-- The server has a running transaction of the client. -/
def Connection.hasTransaction (k : Connection) : Bool := k.server.active k.clientId

def Session.setConnection (S : Session) (i : ConnectionId) (k : Connection) : Session :=
  { S with connections := Function.update S.connections i k }

/-! ### The end of a transaction -/

/-- `ReleaseDeletedBlobLocks` -/
def DatabaseState.releaseDeletedBlobLocks (state : DatabaseState) : HeldLocks :=
  let locks := state.deletedSegments.keys.foldl (fun locks s =>
    locks.releaseLockRange ⟨s, 0, 0⟩ ⟨s, 0xffffffff, 0xffffffff⟩) state.heldLocks
  let locks := state.deletedClusters.keys.foldl (fun locks k =>
    locks.releaseLockRange ⟨k.1, k.2, 0⟩ ⟨k.1, k.2, 0xffffffff⟩) locks
  state.deletedBlobs.keys.foldl (fun locks l =>
    locks.releaseLockRange l { l with blob := l.blob + 1 }) locks

/-- The id lists `ClearModifiedIdListsInCache` removes from the cache. -/
def DatabaseState.modifiedIdLists (state : DatabaseState) : List BlobLocation :=
  (state.createdBlobs.keys.map fun l => ⟨l.segment, l.cluster, blobListId⟩) ++
  (state.deletedBlobs.keys.map fun l => ⟨l.segment, l.cluster, blobListId⟩) ++
  (state.createdClusters.keys.map fun k => ⟨k.1, clusterListId, blobListId⟩) ++
  (state.deletedClusters.keys.map fun k => ⟨k.1, clusterListId, blobListId⟩) ++
  if state.deletedSegments.keys.isEmpty && state.createdSegments.keys.isEmpty then []
  else [⟨segmentListId, clusterListId, blobListId⟩]

/-- What happens to a database at the end of a successful commit: the locks of what was deleted
are released, the other ones are kept for the next transaction, and outdated id lists leave the
cache. -/
def DatabaseState.transfer (state : DatabaseState) (database : Database) : Database :=
  ⟨state.modifiedIdLists.foldl (fun cache l => cache.erase l) database.cache,
    some state.releaseDeletedBlobLocks⟩

/-- `ReleaseDeletedBlobLocks`, `ClearModifiedIdListsInCache` and `TransferStickyLocks` -/
def Transaction.transfer (transaction : Transaction) (k : Connection) : Connection :=
  { k with databases := transaction.forDatabase.entries.foldl (fun databases e =>
      match databases.find e.1 with
      | none => databases
      | some database => databases.insert e.1 (e.2.transfer database)) k.databases }

/-- The end of `Commit`, when all servers reported success. -/
def Session.transferAndClearState (S : Session) : Session where
  connections := S.active.entries.foldl (fun connections e =>
    Function.update connections e.1 (e.2.transfer (connections e.1))) S.connections
  active := .empty

/-! ### Answers -/

/-- `UpdateCacheForCommittedBlob`, for the blobs written to a database. -/
def DatabaseState.updateCache (state : DatabaseState) (commitId : CommitId) (transactionId : ℕ)
    (database : Database) : Database :=
  { database with cache := state.writtenBlobs.entries.foldl (fun cache w =>
      cache.insert w.1 ⟨w.2, commitId, transactionId⟩) database.cache }

/-- An entry of a successful answer: the data written to the database is moved to the cache. -/
def Transaction.committed (i : ConnectionId) (S : Session) (e : DatabaseId × CommitId) : Session :=
  let k := S.connections i
  match S.active.find i with
  | none => S
  | some transaction =>
    match transaction.forDatabase.find e.1, k.databases.find e.1 with
    | some state, some database =>
      let moved := { state with writtenBlobs := state.writtenBlobs.map fun _ => [] }
      { S.setConnection i { k with
          databases := k.databases.insert e.1 (state.updateCache e.2 transaction.id database) } with
        active := S.active.insert i { transaction with
          forDatabase := transaction.forDatabase.insert e.1 moved } }
    | _, _ => S

/-- How far a commit is. -/
inductive Progress
  | awaiting (waitForReplies : List ConnectionId)
  | returned (result : Bool)
  | threw (result : TransactionCommitResponse.Result)
  deriving DecidableEq

def Progress.isOver : Progress → Bool
  | awaiting _ => false
  | returned _ | threw _ => true

/-- The second part of `Commit`: the next answer is awaited. Other messages than the answer of a
commit are not expected. -/
def Session.awaitReply (S : Session) : List ConnectionId → Option (Session × Progress)
  | [] => some (S.transferAndClearState, .returned true)
  | i :: waitForReplies =>
    let k := S.connections i
    match k.receiveQueue with
    | [] => none
    | response :: _ =>
      let S := S.setConnection i { k with awaited := k.awaited + 1 }
      match response with
      | .transactionCommit .success commits =>
        some (commits.foldl (Transaction.committed i) S, .awaiting waitForReplies)
      | .transactionCommit result _ => some (S, .threw result)
      | _ => some (S, .awaiting waitForReplies)

/-- The first part of `Commit`: the messages are sent to the servers, one after another. -/
def Session.sendMessages (S : Session) : List (ConnectionId × Transaction) → Option Session
  | [] => some S
  | e :: es =>
    let k := S.connections e.1
    match e.2.constructCommitMessages k.databases.keys with
    | none => none
    | some ms => (S.setConnection e.1 { k with inFlight := k.inFlight ++ ms }).sendMessages es

/-- The beginning of `Commit`. -/
def Session.commit (S : Session) : Option (Session × Progress) :=
  if S.active.keys.isEmpty then some (S, .returned false)
  else (S.sendMessages S.active.entries).map fun S' => (S', .awaiting S.active.keys)

/-! ### Runs -/

/-- A step during a commit: a server deals with a message of the commit or with something else, or
the client takes an answer. -/
inductive CommitStep : Session × Progress → Session × Progress → Prop
  | serve {S : Session} {p : Progress} (i : ConnectionId) (e : Server.Event) (s' : Server)
    (hstep : Server.Step (S.connections i).server e s')
    (hsender : e.sender ≠ some (S.connections i).clientId)
    (hopened : e ≠ .connectionOpened (S.connections i).clientId) :
    CommitStep (S, p) (S.setConnection i { S.connections i with server := s' }, p)
  | deliver {S : Session} {p : Progress} (i : ConnectionId) (m : TransactionCommit)
    (ms : List TransactionCommit) (σ : DatabaseName → Schedule) (s' : Server)
    (hm : (S.connections i).inFlight = m :: ms)
    (hstep : Server.Step (S.connections i).server
      (.transactionCommit (S.connections i).clientId m σ) s') :
    CommitStep (S, p) (S.setConnection i { S.connections i with server := s', inFlight := ms }, p)
  | await {S S' : Session} {p : Progress} (waitForReplies : List ConnectionId)
    (h : S.awaitReply waitForReplies = some (S', p)) :
    CommitStep (S, .awaiting waitForReplies) (S', p)

/-- The client asks nothing of the server, and waits for nothing. -/
structure Connection.Ready (k : Connection) : Prop where
  usersWF : Server.UsersWF k.server
  idle : k.server.Idle k.clientId

/-- The session and the servers agree: no message is under way, all that was sent to the client
is taken from the receive queues, and the session knows which transactions are running. -/
structure Session.InStep (S : Session) : Prop where
  inFlight : ∀ i, (S.connections i).inFlight = []
  awaited : ∀ i, (S.connections i).awaited = (S.connections i).received.length
  active : ∀ i, (S.active.find i).isSome = (S.connections i).hasTransaction

/-! ### One connection -/

/-- A message of a commit leaves the transaction running, or ends it with one answer. -/
theorem deliver_eq {s s' : Server} {c : ClientId} {m : TransactionCommit}
    {σ : DatabaseName → Schedule} (hidle : s.Idle c) (hactive : s.active c = true)
    (hstep : Server.Step s (.transactionCommit c m σ) s') :
    s'.Idle c ∧ (m.hasFollowMessage = true → s'.active c = true ∧ s'.sentTo c = s.sentTo c) ∧
      (m.hasFollowMessage = false → s'.active c = false ∧ ∃ r commits,
        s'.sentTo c = s.sentTo c ++ [.transactionCommit r commits]) := by
  obtain ⟨-, h⟩ := hstep
  change s.handleTransactionCommit c m σ = some s' at h
  unfold Server.handleTransactionCommit at h
  rw [hactive, Bool.not_true, if_neg Bool.false_ne_true] at h
  set client := { s.clients c with commitMessages := (s.clients c).commitMessages ++ [m] }
  have hactive' : (s.setClient c client).active c = true := by
    rw [Server.active, Server.clients_setClient_self]
    exact hactive
  split_ifs at h with hfollow
  · obtain rfl := Option.some.inj h
    exact ⟨hidle, fun _ => ⟨hactive', rfl⟩, fun hf => absurd (hfollow.symm.trans hf) (by decide)⟩
  · obtain ⟨s₁, r, commits, hreplied, habort, -⟩ := Server.finishCommit_eq_some h
    have hended := Server.ended_abortTransaction habort ((hreplied.active c).trans hactive')
    refine ⟨hidle.of_sublist fun name => ?_, fun hf => absurd hf hfollow, fun _ =>
      ⟨?_, r, commits, ?_⟩⟩
    · refine (hended.queue name).trans ?_
      rw [hreplied.queue]
      exact List.Sublist.refl _
    · rw [Server.active, hended.clients, Function.update_self]
    · rw [hended.sentTo, hreplied.sentTo_self]
      rfl

namespace Connection

variable {k₀ k : Connection} {i : ConnectionId}

/-- A server with a running transaction either still waits for messages of the commit, or it has
sent its answer and has ended the transaction. -/
inductive Exchange (k₀ k : Connection) : Prop
  | pending (active : k.hasTransaction = true) (inFlight : IsCommit k.inFlight)
    (received : k.received = k₀.received)
  | answered (r : TransactionCommitResponse.Result) (commits : List (DatabaseId × CommitId))
    (active : k.hasTransaction = false) (inFlight : k.inFlight = [])
    (received : k.received = k₀.received ++ [.transactionCommit r commits])

/-- A server that sent an answer has ended the transaction. -/
theorem Exchange.of_received (h : Exchange k₀ k) {response : Response}
    (hr : k.received = k₀.received ++ [response]) :
    k.hasTransaction = false ∧ k.inFlight = [] := by
  cases h with
  | pending _ _ hr' => exact absurd (hr.symm.trans hr') (by simp)
  | answered _ _ ha hm => exact ⟨ha, hm⟩

/-- The server answered with success. -/
def Succeeds (k₀ k : Connection) : Prop :=
  ∃ commits, k.received = k₀.received ++ [.transactionCommit .success commits]

/-- How a connection got on since the beginning of the commit. -/
structure Follows (k₀ k : Connection) : Prop where
  clientId : k.clientId = k₀.clientId
  ready : k.Ready
  exchange : k₀.hasTransaction = true → Exchange k₀ k
  other : k₀.hasTransaction = false →
    k.hasTransaction = false ∧ k.inFlight = [] ∧ k.received = k₀.received

/-- The server deals with something else. -/
theorem Follows.serve (h : Follows k₀ k) {e : Server.Event} {s' : Server}
    (hstep : Server.Step k.server e s') (hsender : e.sender ≠ some k.clientId)
    (hopened : e ≠ .connectionOpened k.clientId) : Follows k₀ { k with server := s' } := by
  obtain ⟨hactive, hsent, hidle⟩ :=
    hstep.untouched h.ready.usersWF h.ready.idle hsender hopened
  refine ⟨h.clientId, ⟨hstep.usersWF h.ready.usersWF, hidle⟩, fun ht => ?_, fun ht => ?_⟩
  · cases h.exchange ht with
    | pending ha hm hr => exact .pending (hactive.trans ha) hm (hsent.trans hr)
    | answered r commits ha hm hr =>
      exact .answered r commits (hactive.trans ha) hm (hsent.trans hr)
  · obtain ⟨ha, hm, hr⟩ := h.other ht
    exact ⟨hactive.trans ha, hm, hsent.trans hr⟩

/-- The server deals with the next message of the commit. -/
theorem Follows.deliver (h : Follows k₀ k) {m : TransactionCommit} {ms : List TransactionCommit}
    {σ : DatabaseName → Schedule} {s' : Server} (hm : k.inFlight = m :: ms)
    (hstep : Server.Step k.server (.transactionCommit k.clientId m σ) s') :
    k.received = k₀.received ∧ Follows k₀ { k with server := s', inFlight := ms } := by
  have ht : k₀.hasTransaction = true := by
    by_contra ht
    have := (h.other (by simpa using ht)).2.1
    rw [hm] at this
    exact List.cons_ne_nil m ms this
  cases h.exchange ht with
  | answered r commits ha hnil => exact absurd (hm.symm.trans hnil) (List.cons_ne_nil m ms)
  | pending ha hcommit hr =>
    obtain ⟨hidle, hfollow, hlast⟩ := deliver_eq h.ready.idle ha hstep
    refine ⟨hr, h.clientId, ⟨hstep.usersWF h.ready.usersWF, hidle⟩, fun _ => ?_, fun hno =>
      absurd (ht.symm.trans hno) (by decide)⟩
    rw [hm, IsCommit] at hcommit
    cases ms with
    | nil =>
      obtain ⟨hinactive, r, commits, hsent⟩ := hlast hcommit.1
      exact .answered r commits hinactive rfl (hsent.trans (congrArg (· ++ _) hr))
    | cons m' ms =>
      obtain ⟨hactive, hsent⟩ := hfollow hcommit.1
      exact .pending hactive (hcommit.2.resolve_left (List.cons_ne_nil m' ms)) (hsent.trans hr)

/-- Only the databases of the connection may differ. -/
structure SameLink (k k' : Connection) : Prop where
  server : k'.server = k.server
  clientId : k'.clientId = k.clientId
  inFlight : k'.inFlight = k.inFlight
  awaited : k'.awaited = k.awaited

theorem SameLink.refl (k : Connection) : SameLink k k := ⟨rfl, rfl, rfl, rfl⟩

theorem SameLink.trans {k'' k' : Connection} (h : SameLink k k') (h' : SameLink k' k'') :
    SameLink k k'' :=
  ⟨h'.server.trans h.server, h'.clientId.trans h.clientId, h'.inFlight.trans h.inFlight,
    h'.awaited.trans h.awaited⟩

theorem SameLink.received {k' : Connection} (h : SameLink k k') : k'.received = k.received := by
  rw [Connection.received, h.server, h.clientId, Connection.received]

theorem SameLink.hasTransaction {k' : Connection} (h : SameLink k k') :
    k'.hasTransaction = k.hasTransaction := by
  rw [Connection.hasTransaction, h.server, h.clientId, Connection.hasTransaction]

theorem Follows.of_same {k' : Connection} (h : Follows k₀ k) (hs : SameLink k k') :
    Follows k₀ k' := by
  refine ⟨hs.clientId.trans h.clientId, ⟨?_, ?_⟩, fun ht => ?_, fun ht => ?_⟩
  · rw [hs.server]
    exact h.ready.usersWF
  · rw [hs.server, hs.clientId]
    exact h.ready.idle
  · cases h.exchange ht with
    | pending ha hm hr =>
      exact .pending (hs.hasTransaction.trans ha) (by rw [hs.inFlight]; exact hm)
        (hs.received.trans hr)
    | answered r commits ha hm hr =>
      exact .answered r commits (hs.hasTransaction.trans ha) (hs.inFlight.trans hm)
        (hs.received.trans hr)
  · obtain ⟨ha, hm, hr⟩ := h.other ht
    exact ⟨hs.hasTransaction.trans ha, hs.inFlight.trans hm, hs.received.trans hr⟩

/-- Taking replies off a connection follows it. -/
theorem Follows.take (h : Follows k₀ k) (n : ℕ) : Follows k₀ { k with awaited := n } := by
  refine ⟨h.clientId, ⟨h.ready.usersWF, h.ready.idle⟩, fun ht => ?_, h.other⟩
  cases h.exchange ht with
  | pending ha hm hr => exact .pending ha hm hr
  | answered r commits ha hm hr => exact .answered r commits ha hm hr

end Connection

/-! ### The connections of a session -/

namespace Session

open Connection

variable {S₀ S S' : Session} {i : ConnectionId} {k : Connection}

@[simp]
theorem connections_setConnection_self : (S.setConnection i k).connections i = k := by
  simp [setConnection]

theorem connections_setConnection_of_ne {j : ConnectionId} (h : j ≠ i) :
    (S.setConnection i k).connections j = S.connections j := by
  simp [setConnection, h]

theorem sameLink_setConnection (h : SameLink (S.connections i) k) (j : ConnectionId) :
    SameLink (S.connections j) ((S.setConnection i k).connections j) := by
  by_cases hj : j = i
  · subst hj
    rw [connections_setConnection_self]
    exact h
  · rw [connections_setConnection_of_ne hj]
    exact .refl _

theorem transferAndClearState_connections (j : ConnectionId) :
    SameLink (S.connections j) (S.transferAndClearState.connections j) := by
  unfold transferAndClearState
  dsimp only
  induction S.active.entries generalizing S with
  | nil => exact .refl _
  | cons e es ih =>
    rw [List.foldl_cons]
    refine (sameLink_setConnection (k := e.2.transfer (S.connections e.1)) ⟨rfl, rfl, rfl, rfl⟩
      j).trans ?_
    exact ih (S := S.setConnection e.1 (e.2.transfer (S.connections e.1)))

/-- The answer of a server changes the databases of its connection only. -/
theorem foldl_committed (commits : List (DatabaseId × CommitId)) (j : ConnectionId) :
    SameLink (S.connections j) ((commits.foldl (Transaction.committed i) S).connections j) ∧
      ((commits.foldl (Transaction.committed i) S).active.find j).isSome =
        (S.active.find j).isSome := by
  induction commits generalizing S with
  | nil => exact ⟨.refl _, rfl⟩
  | cons e commits ih =>
    have hstep : SameLink (S.connections j) ((Transaction.committed i S e).connections j) ∧
        ((Transaction.committed i S e).active.find j).isSome = (S.active.find j).isSome := by
      unfold Transaction.committed
      dsimp only
      split
      · exact ⟨.refl _, rfl⟩
      · next transaction htransaction =>
        split
        · refine ⟨?_, ?_⟩
          · change SameLink _ ((S.setConnection i _).connections j)
            refine sameLink_setConnection ?_ j
            exact ⟨rfl, rfl, rfl, rfl⟩
          rw [FlatMap.find_insert]
          split_ifs with hj
          · rw [hj, htransaction]
            rfl
          · rfl
        · exact ⟨.refl _, rfl⟩
    obtain ⟨h1, h2⟩ := ih (S := Transaction.committed i S e)
    exact ⟨hstep.1.trans h1, h2.trans hstep.2⟩

/-- What the sending of the messages changes. -/
theorem sendMessages_eq_some {es : List (ConnectionId × Transaction)}
    (h : S.sendMessages es = some S') (hnodup : (es.map Prod.fst).Nodup) :
    S'.active = S.active ∧ ∀ j, if j ∈ es.map Prod.fst then
        ∃ ms, IsCommit ms ∧ S'.connections j =
          { S.connections j with inFlight := (S.connections j).inFlight ++ ms }
      else S'.connections j = S.connections j := by
  induction es generalizing S with
  | nil =>
    obtain rfl := Option.some.inj h
    exact ⟨rfl, fun j => by simp⟩
  | cons e es ih =>
    rw [sendMessages] at h
    split at h
    · cases h
    · next ms hms =>
      rw [List.map_cons, List.nodup_cons] at hnodup
      obtain ⟨hactive, hconn⟩ := ih h hnodup.2
      refine ⟨hactive, fun j => ?_⟩
      have hj := hconn j
      by_cases he : j = e.1
      · subst he
        rw [if_neg hnodup.1, connections_setConnection_self] at hj
        rw [if_pos (List.mem_map_of_mem List.mem_cons_self)]
        exact ⟨ms, isCommit_constructCommitMessages hms, hj⟩
      · rw [connections_setConnection_of_ne he] at hj
        simpa only [List.map_cons, List.mem_cons, he, false_or] using hj

/-! ### A whole commit -/

/-- The client has taken the answer of the server, if the server is part of the commit, and it
was success. -/
def Taken (k₀ k : Connection) : Prop :=
  if k₀.hasTransaction then Succeeds k₀ k ∧ k.awaited = k₀.received.length + 1
  else k.awaited = k₀.received.length

/-- What the client knows, from the beginning of the commit on. -/
def Knows (S₀ S : Session) : Progress → Prop
  | .awaiting waitForReplies => waitForReplies.Nodup ∧
      (∀ i, (S.active.find i).isSome = (S₀.connections i).hasTransaction) ∧
      ∀ i, if i ∈ waitForReplies then (S₀.connections i).hasTransaction = true ∧
          (S.connections i).awaited = (S₀.connections i).received.length
        else Taken (S₀.connections i) (S.connections i)
  | .returned _ => S.active = .empty ∧ ∀ i, Taken (S₀.connections i) (S.connections i)
  | .threw _ => ∃ i, (S₀.connections i).hasTransaction = true ∧ (S.active.find i).isSome ∧
      ∃ r commits, r ≠ .success ∧
        (S.connections i).received = (S₀.connections i).received ++ [.transactionCommit r commits]

/-- The state of a commit that is under way. -/
structure Committing (S₀ S : Session) (p : Progress) : Prop where
  follows : ∀ i, Follows (S₀.connections i) (S.connections i)
  knows : Knows S₀ S p

theorem Taken.of_eq {k₀ k k' : Connection} (h : Taken k₀ k)
    (hs : Succeeds k₀ k → Succeeds k₀ k') (ha : k'.awaited = k.awaited) : Taken k₀ k' := by
  unfold Taken at h ⊢
  rw [ha]
  split_ifs at h ⊢
  · exact ⟨hs h.1, h.2⟩
  · exact h

/-- What the servers do leaves the knowledge of the client as it is. -/
theorem Knows.of_served {p : Progress} (h : Knows S₀ S p) (hactive : S'.active = S.active)
    (ha : ∀ i, (S'.connections i).awaited = (S.connections i).awaited)
    (hr : ∀ i r commits, (S.connections i).received =
      (S₀.connections i).received ++ [.transactionCommit r commits] →
        (S'.connections i).received = (S.connections i).received) : Knows S₀ S' p := by
  have htaken : ∀ i, Taken (S₀.connections i) (S.connections i) →
      Taken (S₀.connections i) (S'.connections i) := fun i ht =>
    ht.of_eq (fun ⟨commits, hc⟩ => ⟨commits, (hr i _ _ hc).trans hc⟩) (ha i)
  cases p with
  | awaiting waitForReplies =>
    obtain ⟨hnodup, hfind, hall⟩ := h
    refine ⟨hnodup, fun i => by rw [hactive, hfind], fun i => ?_⟩
    have hi := hall i
    split_ifs at hi ⊢
    · exact ⟨hi.1, (ha i).trans hi.2⟩
    · exact htaken i hi
  | returned result => exact ⟨hactive.trans h.1, fun i => htaken i (h.2 i)⟩
  | threw result =>
    obtain ⟨i, ht, hfind, r, commits, hne, hc⟩ := h
    exact ⟨i, ht, by rwa [hactive], r, commits, hne, (hr i _ _ hc).trans hc⟩

theorem isSome_find_iff_mem_keys {S : Session} {i : ConnectionId} :
    (S.active.find i).isSome = true ↔ i ∈ S.active.keys := FlatMap.mem_keys.symm

/-- The beginning of a commit. -/
theorem committing_commit {p : Progress} (hin : S₀.InStep)
    (hready : ∀ i, (S₀.connections i).Ready) (h : S₀.commit = some (S, p)) :
    Committing S₀ S p := by
  have hother : ∀ i, (S₀.connections i).hasTransaction = false → Follows (S₀.connections i)
      (S₀.connections i) := fun i hno =>
    ⟨rfl, hready i, fun hyes => absurd (hyes.symm.trans hno) (by decide), fun _ =>
      ⟨hno, hin.inFlight i, rfl⟩⟩
  unfold commit at h
  split_ifs at h with hempty
  · obtain ⟨rfl, rfl⟩ := Prod.mk.inj (Option.some.inj h)
    have hno : ∀ i, (S₀.connections i).hasTransaction = false := fun i => by
      rw [← hin.active i, Bool.eq_false_iff]
      intro hsome
      have hmem := isSome_find_iff_mem_keys.mp hsome
      rw [List.isEmpty_iff.mp hempty] at hmem
      exact List.not_mem_nil hmem
    refine ⟨fun i => hother i (hno i), FlatMap.eq_empty_of_keys (List.isEmpty_iff.mp hempty),
      fun i => ?_⟩
    rw [Taken, hno i]
    exact hin.awaited i
  · obtain ⟨S₁, hsend, heq⟩ := Option.map_eq_some_iff.mp h
    obtain ⟨rfl, rfl⟩ := Prod.mk.inj heq
    obtain ⟨hactive, hconn⟩ := sendMessages_eq_some hsend (FlatMap.nodup_keys _)
    change ∀ i, if i ∈ S₀.active.keys then _ else _ at hconn
    have hkeys : ∀ i, i ∈ S₀.active.keys ↔ (S₀.connections i).hasTransaction = true := fun i => by
      rw [← isSome_find_iff_mem_keys, hin.active]
    refine ⟨fun i => ?_, FlatMap.nodup_keys _, fun i => by rw [hactive, hin.active], fun i => ?_⟩
    · have hi := hconn i
      split_ifs at hi with hmem
      · obtain ⟨ms, hms, hi⟩ := hi
        have ht := (hkeys i).mp hmem
        rw [hi]
        refine ⟨rfl, ⟨(hready i).usersWF, (hready i).idle⟩, fun _ => .pending ht ?_ rfl,
          fun hno => absurd (ht.symm.trans hno) (by decide)⟩
        rw [hin.inFlight i]
        exact hms
      · rw [hi]
        refine hother i ?_
        rw [Bool.eq_false_iff]
        exact fun ht => hmem ((hkeys i).mpr ht)
    · have hi := hconn i
      split_ifs at hi ⊢ with hmem
      · obtain ⟨ms, -, hi⟩ := hi
        rw [hi]
        exact ⟨(hkeys i).mp hmem, hin.awaited i⟩
      · rw [hi, Taken, if_neg fun ht => hmem ((hkeys i).mpr ht)]
        exact hin.awaited i

/-- The client takes an answer, or is done. -/
theorem Committing.await {waitForReplies : List ConnectionId} {p : Progress}
    (h : Committing S₀ S (.awaiting waitForReplies))
    (hawait : S.awaitReply waitForReplies = some (S', p)) : Committing S₀ S' p := by
  obtain ⟨hfollows, hnodup, hfind, hall⟩ := h
  cases waitForReplies with
  | nil =>
    obtain ⟨rfl, rfl⟩ := Prod.mk.inj (Option.some.inj hawait)
    refine ⟨fun i => (hfollows i).of_same (transferAndClearState_connections i), rfl, fun i => ?_⟩
    have hi := hall i
    rw [if_neg List.not_mem_nil] at hi
    have hsame := transferAndClearState_connections (S := S) i
    exact hi.of_eq (fun ⟨commits, hc⟩ => ⟨commits, hsame.received.trans hc⟩) hsame.awaited
  | cons i waitForReplies =>
    rw [List.nodup_cons] at hnodup
    obtain ⟨ht, ha⟩ : _ ∧ _ := by
      have := hall i
      rwa [if_pos List.mem_cons_self] at this
    rw [awaitReply] at hawait
    dsimp only at hawait
    split at hawait
    · cases hawait
    · next response rest hqueue =>
      rw [receiveQueue, ha] at hqueue
      cases (hfollows i).exchange ht with
      | pending _ _ hr =>
        -- the server did not answer yet
        rw [hr, List.drop_length] at hqueue
        cases hqueue
      | answered r commits hinactive hinflight hr =>
        rw [hr, List.drop_left] at hqueue
        obtain ⟨rfl, -⟩ := List.cons.inj hqueue
        set S₁ := S.setConnection i { S.connections i with
          awaited := (S.connections i).awaited + 1 } with hS₁
        have hi : S₁.connections i = { S.connections i with
            awaited := (S.connections i).awaited + 1 } := by
          rw [hS₁, connections_setConnection_self]
        have hother : ∀ j, j ≠ i → S₁.connections j = S.connections j := fun j hj => by
          rw [hS₁, connections_setConnection_of_ne hj]
        have hfollows₁ : ∀ j, Follows (S₀.connections j) (S₁.connections j) := fun j => by
          by_cases hj : j = i
          · rw [hj, hi]
            exact (hfollows i).take _
          · rw [hother j hj]
            exact hfollows j
        have hr₁ : (S₁.connections i).received =
            (S₀.connections i).received ++ [.transactionCommit r commits] := by
          rw [hi]
          exact hr
        by_cases hsuccess : r = .success
        · subst hsuccess
          obtain ⟨rfl, rfl⟩ := Prod.mk.inj (Option.some.inj hawait)
          have hsame := fun j => foldl_committed (S := S₁) (i := i) commits j
          refine ⟨fun j => (hfollows₁ j).of_same (hsame j).1, hnodup.2,
            fun j => (hsame j).2.trans (hfind j), fun j => ?_⟩
          by_cases hj : j = i
          · subst hj
            rw [if_neg hnodup.1, Taken, if_pos ht, (hsame j).1.awaited, hi]
            exact ⟨⟨commits, (hsame j).1.received.trans hr₁⟩, congrArg (· + 1) ha⟩
          · have hold := hall j
            simp only [List.mem_cons, hj, false_or] at hold
            split_ifs at hold ⊢
            · rw [(hsame j).1.awaited, hother j hj]
              exact hold
            · rw [← hother j hj] at hold
              exact hold.of_eq (fun ⟨commits, hc⟩ => ⟨commits, (hsame j).1.received.trans hc⟩)
                (hsame j).1.awaited
        · have heq : some (S₁, Progress.threw r) = some (S', p) := by
            rw [← hawait]
            cases r <;> first | rfl | exact absurd rfl hsuccess
          obtain ⟨rfl, rfl⟩ := Prod.mk.inj (Option.some.inj heq)
          exact ⟨hfollows₁, i, ht, (hfind i).trans ht, r, commits, hsuccess, hr₁⟩

/-- A server does something. -/
theorem Committing.setConnection {p : Progress} (h : Committing S₀ S p)
    (hk : Follows (S₀.connections i) k) (ha : k.awaited = (S.connections i).awaited)
    (hr : ∀ r commits, (S.connections i).received =
      (S₀.connections i).received ++ [.transactionCommit r commits] →
        k.received = (S.connections i).received) : Committing S₀ (S.setConnection i k) p := by
  refine ⟨fun j => ?_, h.knows.of_served rfl (fun j => ?_) fun j r commits hj => ?_⟩ <;>
    by_cases hji : j = i
  · subst hji
    rwa [connections_setConnection_self]
  · rw [connections_setConnection_of_ne hji]
    exact h.follows j
  · subst hji
    rwa [connections_setConnection_self]
  · rw [connections_setConnection_of_ne hji]
  · subst hji
    rw [connections_setConnection_self]
    exact hr r commits hj
  · rw [connections_setConnection_of_ne hji]

/-- What holds in a commit that is under way is kept by every step. -/
theorem Committing.step {p p' : Progress} (h : Committing S₀ S p)
    (hstep : CommitStep (S, p) (S', p')) : Committing S₀ S' p' := by
  cases hstep with
  | serve i e s' hstep hsender hopened =>
    have hready := (h.follows i).ready
    exact h.setConnection ((h.follows i).serve hstep hsender hopened) rfl fun _ _ _ =>
      (hstep.untouched hready.usersWF hready.idle hsender hopened).sentTo
  | deliver i m ms σ s' hm hstep =>
    obtain ⟨hr, hfollows⟩ := (h.follows i).deliver hm hstep
    refine h.setConnection hfollows rfl fun r commits hanswered => ?_
    rw [hr] at hanswered
    exact absurd hanswered.symm (by simp)
  | await waitForReplies hawait => exact h.await hawait

/-- Every run of a commit keeps what its start assumes. -/
theorem Committing.run {p : Progress} (h : Committing S₀ S p) {st : Session × Progress}
    (hrun : Relation.ReflTransGen CommitStep (S, p) st) : Committing S₀ st.1 st.2 := by
  induction hrun with
  | refl => exact h
  | tail _ hstep ih => exact ih.step hstep

/-- A commit that is over was successful on all servers, or the session and the servers are out
of step. -/
theorem Committing.inStep_iff {p : Progress} (h : Committing S₀ S p) (hover : p.isOver = true) :
    S.InStep ↔ ∀ i, (S₀.connections i).hasTransaction = true →
      Succeeds (S₀.connections i) (S.connections i) := by
  obtain ⟨hfollows, hknows⟩ := h
  cases p with
  | awaiting waitForReplies => cases hover
  | returned result =>
    obtain ⟨hactive, htaken⟩ := hknows
    have hall : ∀ i, (S₀.connections i).hasTransaction = true →
        Succeeds (S₀.connections i) (S.connections i) ∧
          (S.connections i).awaited = (S₀.connections i).received.length + 1 := fun i ht => by
      have := htaken i
      rwa [Taken, if_pos ht] at this
    refine ⟨fun _ i ht => (hall i ht).1, fun _ => ⟨fun i => ?_, fun i => ?_, fun i => ?_⟩⟩ <;>
      cases ht : (S₀.connections i).hasTransaction
    · exact ((hfollows i).other ht).2.1
    · obtain ⟨commits, hr⟩ := (hall i ht).1
      exact (((hfollows i).exchange ht).of_received hr).2
    · have := htaken i
      rw [Taken, ht, if_neg Bool.false_ne_true] at this
      rw [this, ((hfollows i).other ht).2.2]
    · obtain ⟨⟨commits, hr⟩, ha⟩ := hall i ht
      rw [ha, hr, List.length_append, List.length_singleton]
    · rw [hactive, ((hfollows i).other ht).1]
      rfl
    · obtain ⟨commits, hr⟩ := (hall i ht).1
      rw [hactive, (((hfollows i).exchange ht).of_received hr).1]
      rfl
  | threw result =>
    obtain ⟨i, ht, hsome, r, commits, hne, hr⟩ := hknows
    have hended := (((hfollows i).exchange ht).of_received hr).1
    refine ⟨fun hin => ?_, fun hall => absurd ?_ hne⟩
    · exact absurd (hsome.symm.trans ((hin.active i).trans hended)) (by decide)
    · obtain ⟨commits', hr'⟩ := hall i ht
      have := List.append_cancel_left (hr.symm.trans hr')
      simp only [List.cons.injEq, Response.transactionCommit.injEq, and_true] at this
      exact this.1

/-- Before a commit, the client and the servers agree on the transactions that are running. When
the commit is over, whatever the servers did in the meantime, they agree again if and only if
every server with a transaction answered with success. -/
theorem inStep_commit_iff {S₁ : Session} {p : Progress} {st : Session × Progress}
    (hin : S₀.InStep) (hready : ∀ i, (S₀.connections i).Ready)
    (hcommit : S₀.commit = some (S₁, p)) (hrun : Relation.ReflTransGen CommitStep (S₁, p) st)
    (hover : st.2.isOver = true) :
    st.1.InStep ↔ ∀ i, (S₀.connections i).hasTransaction = true →
      Succeeds (S₀.connections i) (st.1.connections i) :=
  ((committing_commit hin hready hcommit).run hrun).inStep_iff hover

/-! ### Two servers -/

/-- A server deals with the next message of a commit. -/
def deliver (σ : DatabaseName → Schedule) (i : ConnectionId) (S : Session) : Option Session :=
  let k := S.connections i
  match k.inFlight with
  | [] => none
  | m :: ms =>
    if (k.server.clients k.clientId).connected then
      (k.server.handle (.transactionCommit k.clientId m σ)).map fun s' =>
        S.setConnection i { k with server := s', inFlight := ms }
    else none

/-- A reply that is delivered is a step of the commit. -/
theorem commitStep_of_deliver {σ : DatabaseName → Schedule} {p : Progress}
    (h : S.deliver σ i = some S') : CommitStep (S, p) (S', p) := by
  unfold deliver at h
  dsimp only at h
  split at h
  · cases h
  · next m ms hm =>
    split_ifs at h with hconnected
    obtain ⟨s', hs', rfl⟩ := Option.map_eq_some_iff.mp h
    exact .deliver i m ms σ s' hm ⟨fun c hc => by cases hc; exact hconnected, hs'⟩

/-- Two servers with a transaction of the client, on the connections `1` and `2`. In the first
one the client wrote a blob. -/
def ofTwo (s : Server) : Session where
  connections i :=
    if i = 1 ∨ i = 2 then ⟨s, 1, [], (s.sentTo 1).length, FlatMap.empty.insert 0 ⟨.empty, none⟩⟩
    else ⟨.start (fun _ => none) 0, 1, [], 0, .empty⟩
  active := (FlatMap.empty.insert 1 ⟨1, FlatMap.empty.insert 0
    { DatabaseState.create (some ⟨.empty, FlatMap.empty.insert ⟨0, 0, 0⟩ ()⟩) with
      writtenBlobs := FlatMap.empty.insert ⟨0, 0, 0⟩ [7] }⟩).insert 2 ⟨2, .empty⟩

/-- The servers are as the client believes. -/
theorem inStep_ofTwo {s : Server} (hactive : s.active 1 = true) :
    (ofTwo s).InStep where
  inFlight i := by
    unfold ofTwo
    dsimp only
    split_ifs <;> rfl
  awaited i := by
    unfold ofTwo received
    dsimp only
    split_ifs <;> rfl
  active i := by
    by_cases hi : i = 1 ∨ i = 2
    · have hconn : (ofTwo s).connections i = (ofTwo s).connections 1 := by
        unfold ofTwo
        dsimp only
        rw [if_pos hi, if_pos (Or.inl rfl)]
      rw [hasTransaction, hconn]
      rcases hi with rfl | rfl <;> exact hactive.symm
    · have hconn : (ofTwo s).connections i = ⟨.start (fun _ => none) 0, 1, [], 0, .empty⟩ := by
        unfold ofTwo
        dsimp only
        rw [if_neg hi]
      rw [hasTransaction, hconn, ofTwo, FlatMap.find_insert, FlatMap.find_insert]
      rw [not_or] at hi
      rw [if_neg hi.2, if_neg hi.1]
      rfl

theorem ready_ofTwo {s : Server} (hwf : Server.UsersWF s)
    (hnames : s.openNames 1 = [.mem 0]) (hqueue : s.queue (.mem 0) = []) (i : ConnectionId) :
    ((ofTwo s).connections i).Ready := by
  unfold ofTwo
  dsimp only
  split_ifs
  · refine ⟨hwf, fun name hw => ?_⟩
    have hopen := hwf.waits 1 name hw
    rw [hnames, List.mem_singleton] at hopen
    subst hopen
    obtain ⟨m, hm, -⟩ := hw
    rw [hqueue] at hm
    exact List.not_mem_nil hm
  · exact ⟨Server.usersWF_start _ _, fun name ⟨m, hm, _⟩ => List.not_mem_nil hm⟩

/-- The client takes answers. -/
def awaitReplies : ℕ → Session × Progress → Option (Session × Progress)
  | n + 1, (S, .awaiting waitForReplies) => (S.awaitReply waitForReplies).bind (awaitReplies n)
  | _, st => some st

/-- Waiting for the replies of all connections is a run. -/
theorem run_of_awaitReplies {n : ℕ} {st st' : Session × Progress}
    (h : awaitReplies n st = some st') : Relation.ReflTransGen CommitStep st st' := by
  induction n generalizing st with
  | zero =>
    obtain rfl := Option.some.inj h
    exact .refl
  | succ n ih =>
    obtain ⟨S, p⟩ := st
    cases p with
    | awaiting waitForReplies =>
      obtain ⟨st₁, hst₁, h⟩ := Option.bind_eq_some_iff.mp h
      exact .head (.await waitForReplies hst₁) (ih h)
    | returned result =>
      obtain rfl := Option.some.inj h
      exact .refl
    | threw result =>
      obtain rfl := Option.some.inj h
      exact .refl

/-- The servers `1` and `2` deal with a commit, then the client takes the answers. -/
def commitTwo (S : Session) : Option ((Session × Progress) × (Session × Progress)) :=
  let σ : DatabaseName → Schedule := fun _ => ⟨[], [], .insertion, []⟩
  S.commit.bind fun r => (r.1.deliver σ 1).bind fun S => (S.deliver σ 2).bind fun S =>
    (awaitReplies 3 (S, r.2)).map fun st => (r, st)

theorem run_of_commitTwo {S : Session} {r st : Session × Progress}
    (h : S.commitTwo = some (r, st)) :
    S.commit = some (r.1, r.2) ∧ Relation.ReflTransGen CommitStep (r.1, r.2) st := by
  obtain ⟨r', hcommit, h⟩ := Option.bind_eq_some_iff.mp h
  obtain ⟨S₁, h₁, h⟩ := Option.bind_eq_some_iff.mp h
  obtain ⟨S₂, h₂, h⟩ := Option.bind_eq_some_iff.mp h
  obtain ⟨st', hst, heq⟩ := Option.map_eq_some_iff.mp h
  obtain ⟨rfl, rfl⟩ := Prod.mk.inj heq
  exact ⟨hcommit, .head (commitStep_of_deliver h₁) (.head (commitStep_of_deliver h₂)
    (run_of_awaitReplies hst))⟩

/-- A server on which the client `1` has a transaction, perhaps with a write lock. -/
def withTransaction (locked : Bool) : Option Server :=
  Server.run ([.connectionOpened 1, .databaseOpen 1 (.mem 0) .createIfNotExist false,
    .transactionBegin 1 0 []] ++ if locked then
      [.blobsRead ⟨1, 0, .write, -1, [⟨⟨0, 0, 0⟩, 0⟩]⟩] else []) (.start (fun _ => none) 0)

/-- A commit on two such servers, with what is to be checked. -/
theorem exists_commitTwo (locked : Bool) (check : Session × Progress → Bool)
    (h : ((withTransaction locked).bind fun s => (ofTwo s).commitTwo.map fun r =>
      decide (s.active 1 = true ∧ s.openNames 1 = [.mem 0] ∧ s.queue (.mem 0) = []) &&
        check r.2) = some true) :
    ∃ S₀ S₁ : Session, ∃ p st, S₀.InStep ∧ (∀ i, (S₀.connections i).Ready) ∧
      S₀.commit = some (S₁, p) ∧ Relation.ReflTransGen CommitStep (S₁, p) st ∧
      check st = true := by
  obtain ⟨s, hs, h⟩ := Option.bind_eq_some_iff.mp h
  obtain ⟨⟨r, st⟩, hrun, h⟩ := Option.map_eq_some_iff.mp h
  rw [Bool.and_eq_true, decide_eq_true_eq] at h
  obtain ⟨⟨hactive, hnames, hqueue⟩, hcheck⟩ := h
  obtain ⟨hcommit, hsteps⟩ := run_of_commitTwo hrun
  exact ⟨ofTwo s, r.1, r.2, st, inStep_ofTwo hactive,
    ready_ofTwo (Server.run_usersWF hs (Server.usersWF_start _ _)) hnames hqueue, hcommit, hsteps,
    hcheck⟩

theorem inStep_commit_iff_two : ∃ S₀ S₁ : Session, ∃ p st, S₀.InStep ∧
    (∀ i, (S₀.connections i).Ready) ∧ S₀.commit = some (S₁, p) ∧
      Relation.ReflTransGen CommitStep (S₁, p) st ∧ st.2.isOver = true ∧
      (st.1.InStep ↔ ∀ i, (S₀.connections i).hasTransaction = true →
        Succeeds (S₀.connections i) (st.1.connections i)) := by
  obtain ⟨S₀, S₁, p, st, hin, hready, hcommit, hrun, hover⟩ :=
    exists_commitTwo true (fun st => st.2.isOver) (by decide +kernel)
  exact ⟨S₀, S₁, p, st, hin, hready, hcommit, hrun, hover,
    inStep_commit_iff hin hready hcommit hrun hover⟩

/-- The first of two servers refuses the commit, since the client has no lock for what it wrote.
The client does not take the answer of the second server any more, and believes that both
transactions are running. -/
theorem not_inStep_of_refused : ∃ S₀ S₁ : Session, ∃ p st, S₀.InStep ∧
    (∀ i, (S₀.connections i).Ready) ∧ S₀.commit = some (S₁, p) ∧
      Relation.ReflTransGen CommitStep (S₁, p) st ∧ st.2 = .threw .missingWriteLock ∧
      (st.1.connections 2).receiveQueue = [.transactionCommit .success [(0, 2)]] ∧
      (st.1.active.find 1).isSome ∧ (st.1.connections 1).hasTransaction = false ∧
      (st.1.active.find 2).isSome ∧ (st.1.connections 2).hasTransaction = false ∧
      ¬st.1.InStep := by
  obtain ⟨S₀, S₁, p, st, hin, hready, hcommit, hrun, hcheck⟩ :=
    exists_commitTwo false (fun st => decide (st.2 = .threw .missingWriteLock ∧
      (st.1.connections 2).receiveQueue = [.transactionCommit .success [(0, 2)]] ∧
      (st.1.active.find 1).isSome = true ∧ (st.1.connections 1).hasTransaction = false ∧
      (st.1.active.find 2).isSome = true ∧ (st.1.connections 2).hasTransaction = false))
      (by decide +kernel)
  obtain ⟨hthrew, hqueue, h1, h1', h2, h2'⟩ := of_decide_eq_true hcheck
  refine ⟨S₀, S₁, p, st, hin, hready, hcommit, hrun, hthrew, hqueue, h1, h1', h2, h2',
    fun hstep => ?_⟩
  exact absurd (h1.symm.trans ((hstep.active 1).trans h1')) (by decide)

end Session

end ClientLib

end BlobsDb
